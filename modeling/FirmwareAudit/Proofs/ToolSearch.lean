import FirmwareAudit.Proofs.Commands
import FirmwareAudit.Proofs.Places
import FirmwareAudit.Proofs.Temporaries

/-! # Looking a program up

A lookup of a program and a start go through the same files in the same order, and take the same one
if each that may be executed can be. Neither depends on the texts of files, so that what is logged or
emptied in between changes nothing.
-/
namespace FirmwareAudit
open Text

namespace FileTree

/-! ## Two searches, one file -/

theorem isProgram_eq_true {t : FileTree} {cwd path : String} :
    t.isProgram cwd path = true ↔
      ∃ l f, t.resolve cwd path = .ok (.node l (.file f)) ∧ f.executable.isPermitted = true := by
  unfold isProgram status
  cases h : t.resolve cwd path with
  | error e => simp
  | ok target =>
    cases target with
    | vacant l d => simp
    | node l n => cases n <;> simp

/-- A file that may be executed is at the location, and this comes of it. -/
def ProgramAt (t : FileTree) (l : Location) (x : Execution) : Prop :=
  ∃ f, t.find? l = some (.file f) ∧ f.executable = x ∧ x.isPermitted = true

/-- Every file that may be executed can be. -/
def Fit (t : FileTree) : Prop := ∀ l e, ¬ t.ProgramAt l (.failing e)

theorem Fit.allowed {t : FileTree} (h : t.Fit) {l : Location} {f : FileNode}
    (hf : t.find? l = some (.file f)) (hx : f.executable.isPermitted = true) :
    f.executable = .allowed := by
  cases he : f.executable with
  | allowed => rfl
  | forbidden =>
    rw [he] at hx
    cases hx
  | failing e => exact absurd ⟨f, hf, he, rfl⟩ (h l e)

theorem isProgram_of_executable {t : FileTree} {cwd path : String}
    (h : t.executable cwd path = .ok ()) : t.isProgram cwd path = true := by
  obtain ⟨l, f, hr, hx⟩ := executable_eq_ok.1 h
  exact isProgram_eq_true.2 ⟨l, f, hr, by rw [hx]; rfl⟩

theorem Fit.executable_of_isProgram {t : FileTree} (hfit : t.Fit) {cwd path : String}
    (h : t.isProgram cwd path = true) : t.executable cwd path = .ok () := by
  obtain ⟨l, f, hr, hmay⟩ := isProgram_eq_true.1 h
  exact executable_eq_ok.2 ⟨l, f, hr, hfit.allowed (find?_of_resolve hr) hmay⟩

/-- The file that a lookup takes is the one that starts, if it can; where it takes none, a start
fails. -/
theorem firstExecutable_of_isProgram (t : FileTree) (cwd : String) {files : List String}
    (hnul : ∀ c ∈ files, has '\x00' c = false) (seen : Errno) (telling : Option Errno) :
    (t.Fit → ∀ file, files.find? (t.isProgram cwd) = some file →
      firstExecutable t cwd seen telling files = .ok file) ∧
    (files.find? (t.isProgram cwd) = none →
      ∃ e, firstExecutable t cwd seen telling files = .error (.errno e)) := by
  have hends : ∀ c ∈ files, t.endsSearch cwd c = true ↔ t.executable cwd c = .ok () := by
    intro c hc
    simp [endsSearch_eq_true, hnul c hc]
  constructor
  · intro hfit file h
    have hsame : files.find? (t.endsSearch cwd) = files.find? (t.isProgram cwd) := by
      refine List.find?_congr fun c hc => ?_
      rw [Bool.eq_iff_iff, hends c hc]
      exact ⟨isProgram_of_executable, hfit.executable_of_isProgram⟩
    rw [firstExecutable_of_find? (hsame.trans h), hnul file (List.mem_of_find?_eq_some h)]
    rfl
  · intro h
    refine firstExecutable_of_find?_eq_none ?_ seen telling
    rw [List.find?_eq_none] at h ⊢
    exact fun c hc he => h c hc (isProgram_of_executable ((hends c hc).1 he))

/-! ## What a search depends on -/

/-- The trees have the same directories, and files that may be executed in the same places, of which
the same comes. -/
structure SameWays (t t' : FileTree) : Prop where
  directories : ∀ l d, t.find? l = some (.directory d) ↔ t'.find? l = some (.directory d)
  programs : ∀ l x, t.ProgramAt l x ↔ t'.ProgramAt l x

namespace SameWays
variable {t t' t'' : FileTree}

theorem refl (t : FileTree) : t.SameWays t := ⟨fun _ _ => Iff.rfl, fun _ _ => Iff.rfl⟩

theorem symm (h : t.SameWays t') : t'.SameWays t :=
  ⟨fun l d => (h.directories l d).symm, fun l x => (h.programs l x).symm⟩

theorem trans (h : t.SameWays t') (h' : t'.SameWays t'') : t.SameWays t'' :=
  ⟨fun l d => (h.directories l d).trans (h'.directories l d),
    fun l x => (h.programs l x).trans (h'.programs l x)⟩

theorem isProgram_of (h : t.SameWays t') {cwd path : String} (hp : t.isProgram cwd path = true) :
    t'.isProgram cwd path = true := by
  obtain ⟨l, f, hr, hx⟩ := isProgram_eq_true.1 hp
  obtain ⟨f', hf', hx', -⟩ := (h.programs l _).1 ⟨f, find?_of_resolve hr, rfl, hx⟩
  have hdirs : DirectoriesIn t t' := fun l d => (h.directories l d).1
  exact isProgram_eq_true.2 ⟨l, f', resolve_node hdirs hr hf' rfl, hx' ▸ hx⟩

theorem executable_of (h : t.SameWays t') {cwd path : String} (hx : t.executable cwd path = .ok ()) :
    t'.executable cwd path = .ok () := by
  obtain ⟨l, f, hr, hx⟩ := executable_eq_ok.1 hx
  obtain ⟨f', hf', hx', -⟩ := (h.programs l _).1 ⟨f, find?_of_resolve hr, hx, rfl⟩
  have hdirs : DirectoriesIn t t' := fun l d => (h.directories l d).1
  exact executable_eq_ok.2 ⟨l, f', resolve_node hdirs hr hf' rfl, hx'⟩

theorem fit (h : t.SameWays t') (hfit : t.Fit) : t'.Fit :=
  fun l e hp => hfit l e ((h.programs l _).2 hp)

/-- A lookup finds the same program in both trees. -/
theorem findProgram?_eq (h : t.SameWays t') (cwd : String) (searchPath : Option String)
    (name : String) : findProgram? t' cwd searchPath name = findProgram? t cwd searchPath name := by
  have hsame : t'.isProgram cwd = t.isProgram cwd := by
    funext path
    rw [Bool.eq_iff_iff]
    exact ⟨h.symm.isProgram_of, h.isProgram_of⟩
  rw [findProgram?, findProgram?, hsame]

/-- Trees that differ in one place, where neither has a directory, and programs both or neither. -/
theorem of_off {l : Location} (hoff : ∀ k, k ≠ l → t'.find? k = t.find? k)
    (hdir : ∀ d, t.find? l ≠ some (.directory d)) (hdir' : ∀ d, t'.find? l ≠ some (.directory d))
    (hprogram : ∀ x, t.ProgramAt l x ↔ t'.ProgramAt l x) : t.SameWays t' := by
  refine ⟨fun k d => ?_, fun k x => ?_⟩
  · by_cases hk : k = l
    · rw [hk]
      exact iff_of_false (hdir d) (hdir' d)
    · rw [hoff k hk]
  · by_cases hk : k = l
    · rw [hk]
      exact hprogram x
    · rw [ProgramAt, ProgramAt, hoff k hk]

/-- A file changes in anything but what comes of executing it. -/
theorem of_file {l : Location} {f f' : FileNode} (hf : t.find? l = some (.file f))
    (hf' : t'.find? l = some (.file f')) (hoff : ∀ k, k ≠ l → t'.find? k = t.find? k)
    (hx : f'.executable = f.executable) : t.SameWays t' := by
  refine of_off hoff (fun d hd => ?_) (fun d hd => ?_) fun x => ?_
  · rw [hf] at hd
    cases hd
  · rw [hf'] at hd
    cases hd
  · simp [ProgramAt, hf, hf', hx]

theorem append (t : FileTree) (h : Handle) (text : String) : t.SameWays (t.append h text) := by
  unfold FileTree.append
  split
  · next f hf =>
    split
    · exact of_file hf (find?_set_self ..) (fun k hk => find?_set_of_ne t _ hk) rfl
    · exact refl t
  · exact refl t

theorem appendEach (t : FileTree) (line : String) (files : List Handle) :
    t.SameWays (t.appendEach line files) := by
  induction files generalizing t with
  | nil => exact refl t
  | cons f rest ih => exact (append t f line).trans (ih _)

end SameWays

theorem find?_of_vacant {t : FileTree} {here l : Location} {names : List String}
    {d : DirectoryNode} (h : t.walk here names = .ok (.vacant l d)) : t.find? l = none := by
  fun_induction walk t here names with
  | case6 here rest d' hh hs ih => exact ih h
  | case7 here rest d' hh hs hdot ih => exact ih h
  | case9 here name rest d' hh hs hdot hup hl n hn ih => exact ih h
  | case10 here name d' hh hs hdot hup hl hnone =>
    cases h
    exact hnone
  | _ => cases h

theorem sameWays_openForWriting {t t' : FileTree} {cwd path : String} {mode : WriteMode}
    {handle : Handle} (h : t.openForWriting cwd path mode = .ok (handle, t')) : t.SameWays t' := by
  unfold openForWriting at h
  split at h
  · cases h
  · next l f hr =>
    have hf := find?_of_resolve hr
    split at h
    · cases h
      split
      · exact .of_file hf (find?_set_self ..) (fun k hk => find?_set_of_ne t _ hk) rfl
      · exact .refl t
    · cases h
  · next l d hr =>
    have hnone := find?_of_vacant (walk_of_resolve hr)
    split at h
    · cases h
    · split at h
      · cases h
        have hnew := find?_create_self t l (.plain "")
        refine .of_off (fun k hk => find?_create_of_ne t _ hk) (by simp [hnone]) (fun d' hd => ?_)
          fun x => iff_of_false ?_ ?_
        · rw [hnew] at hd
          cases hd
        · simp [ProgramAt, hnone]
        · rintro ⟨f, hf, rfl, hx⟩
          rw [hnew] at hf
          cases hf
          cases hx
      · cases h
  · cases h

theorem openForWriting_ne_nulByte (t : FileTree) (cwd : String) {path : String}
    (h : has '\x00' path = false) (mode : WriteMode) :
    t.openForWriting cwd path mode ≠ .error .nulByte := by
  intro he
  unfold openForWriting at he
  split at he
  · cases he
  · split at he <;> cases he
  · split at he
    · cases he
    · split at he <;> cases he
  · next fault hr =>
    cases he
    exact resolve_ne_nulByte t cwd h hr

end FileTree

theorem openForWriting_ne_nulByte {path : String} (h : has '\x00' path = false)
    {mode : FileTree.WriteMode} {m m' : Machine} :
    openForWriting path mode m ≠ .error .nulByte m' := by
  intro ho
  unfold openForWriting at ho
  rw [bind_of_ok (get_apply m), bind_eq_error] at ho
  rcases ho with hc | ⟨⟨handle, t⟩, u, -, ho⟩
  · have hne := m.tree.openForWriting_ne_nulByte m.cwd h mode
    cases hr : m.tree.openForWriting m.cwd path mode with
    | ok opened =>
      rw [hr] at hc
      cases hc
    | error fault =>
      rw [hr] at hc hne
      cases fault with
      | nulByte => exact hne rfl
      | errno e => cases hc
  · cases ho

/-! ## Search paths -/

/-- A search path that is not set, or set to a text that the system takes and that is not empty. -/
def IsSearchPath (searchPath : Option String) : Prop :=
  ∀ s, searchPath = some s → s ≠ "" ∧ has '\x00' s = false

theorem nulFree_candidates {searchPath : Option String}
    (h : ∀ s, searchPath = some s → has '\x00' s = false) {name : String}
    (hname : has '\x00' name = false) :
    ∀ c ∈ candidates searchPath name, has '\x00' c = false := by
  have hpath : has '\x00' (searchPath.getD defaultSearchPath) = false := by
    cases searchPath with
    | none => decide
    | some s => exact h s rfl
  intro c hc
  unfold candidates at hc
  split at hc
  · rwa [List.mem_singleton.1 hc]
  · obtain ⟨entry, hentry, rfl⟩ := List.mem_map.1 hc
    have hnul : has '\x00' entry = false := by
      obtain ⟨piece, hp, rfl⟩ := List.mem_map.1 hentry
      rw [has_eq_false] at hpath ⊢
      rw [String.toList_ofList]
      exact fun hmem => hpath (mem_of_mem_pieces hp hmem)
    unfold candidate
    split
    · rw [has_append, hnul, hname]
      rfl
    · rw [has_append, has_append, hnul, hname]
      decide

theorem FileTree.firstExecutable_ne_nulByte (t : FileTree) (cwd : String) {files : List String}
    (hnul : ∀ c ∈ files, has '\x00' c = false) (seen : Errno) (telling : Option Errno) :
    firstExecutable t cwd seen telling files ≠ .error .nulByte := by
  intro h
  cases hc : files.find? (t.endsSearch cwd) with
  | some c =>
    rw [firstExecutable_of_find? hc, hnul c (List.mem_of_find?_eq_some hc)] at h
    cases h
  | none =>
    obtain ⟨e, he⟩ := firstExecutable_of_find?_eq_none hc seen telling
    rw [he] at h
    cases h

/-- A search ends at a NUL byte only if the name or the search path has one. -/
theorem resolveProgram_ne_nulByte {searchPath : Option String}
    (hpath : ∀ s, searchPath = some s → has '\x00' s = false) {name : String}
    (hname : has '\x00' name = false) (t : FileTree) (cwd : String) :
    resolveProgram t cwd searchPath name ≠ .error .nulByte :=
  t.firstExecutable_ne_nulByte cwd (nulFree_candidates hpath hname) _ _

/-- Of the files that a name can stand for, a start takes the one that a lookup finds, if it can. -/
theorem resolveProgram_of_findProgram? {searchPath : Option String} (h : IsSearchPath searchPath)
    {name : String} (hname : has '\x00' name = false) (t : FileTree) (cwd : String) :
    (t.Fit → ∀ file, findProgram? t cwd searchPath name = some file →
      resolveProgram t cwd searchPath name = .ok file) ∧
    (findProgram? t cwd searchPath name = none →
      ∃ e, resolveProgram t cwd searchPath name = .error (.errno e)) := by
  have hfind : findProgram? t cwd searchPath name =
      (candidates searchPath name).find? (t.isProgram cwd) := by
    refine if_neg fun hempty => ?_
    rw [Bool.and_eq_true, decide_eq_true_eq] at hempty
    exact (h "" hempty.1).1 rfl
  rw [hfind]
  exact t.firstExecutable_of_isProgram _ (nulFree_candidates (fun s hs => (h s hs).2) hname)
    .notFound none

namespace Machine

/-- The same programs are found in the same places, and they are the same programs. -/
structure FindsAlike (m m' : Machine) : Prop where
  cwd : m'.cwd = m.cwd
  searchPath : m'.searchPath = m.searchPath
  programs : m'.programs = m.programs
  ways : m.tree.SameWays m'.tree

/-- A program of this name starts wherever there is a file for it that may be executed. -/
structure Starts (m : Machine) (program : String) : Prop where
  fit : m.tree.Fit
  made : ∀ turn call t e, m.programs (baseName program) turn call t ≠ .refused e

/-- The file that a lookup finds for a name. -/
def located? (m : Machine) (program : String) : Option String :=
  findProgram? m.tree m.cwd m.searchPath program

variable {m m' : Machine}

namespace FindsAlike

theorem refl (m : Machine) : m.FindsAlike m := ⟨rfl, rfl, rfl, .refl m.tree⟩

theorem located?_eq (h : m.FindsAlike m') (program : String) :
    m'.located? program = m.located? program := by
  rw [located?, located?, h.cwd, h.searchPath]
  exact h.ways.findProgram?_eq m.cwd m.searchPath program

theorem isSearchPath (h : m.FindsAlike m') (hpath : IsSearchPath m.searchPath) :
    IsSearchPath m'.searchPath := h.searchPath ▸ hpath

theorem starts (h : m.FindsAlike m') {program : String} (hstart : m.Starts program) :
    m'.Starts program :=
  ⟨h.ways.fit hstart.fit, h.programs ▸ hstart.made⟩

end FindsAlike

theorem findsAlike_afterLog (m : Machine) (logger operation : String) (level : Int)
    (message : String) : m.FindsAlike (m.afterLog logger operation level message) :=
  ⟨rfl, rfl, rfl, .appendEach _ _ _⟩

end Machine

/-- A lookup of a tool changes nothing, and says where the tool is or that it is missing. -/
theorem Tool.locate_eq (tool : Tool) (m : Machine) :
    tool.locate m = match m.located? tool.program with
      | some file => .ok file m
      | none => .error (.fault (.toolNotFound tool.program tool.hint)) m := by
  unfold Tool.locate
  rw [bind_of_ok (get_apply m), Machine.located?]
  cases findProgram? m.tree m.cwd m.searchPath tool.program <;> rfl

end FirmwareAudit
