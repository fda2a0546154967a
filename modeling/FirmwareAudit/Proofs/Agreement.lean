import FirmwareAudit.Proofs.SlotCalls
import FirmwareAudit.Proofs.Ways

/-! # Trees that agree off some places

Two trees can agree but for the files at some places. A call on a path that leads elsewhere goes the
same way in both and leaves trees that agree again. A stamp tells a file from the others of its own
tree, so it may differ from tree to tree.
-/
namespace FirmwareAudit
open Text

namespace FileTree

/-- What the trees have at a location differs in its stamp at most. -/
def SameAt (t t' : FileTree) (l : Location) : Prop :=
  (t'.find? l).map (Node.withStamp 0) = (t.find? l).map (Node.withStamp 0)

section
variable {t t' : FileTree} {l : Location}

theorem SameAt.symm (h : t.SameAt t' l) : t'.SameAt t l := Eq.symm h

theorem SameAt.bothAt (h : t.SameAt t' l) : t.BothAt t' l := by
  unfold SameAt at h
  unfold BothAt
  cases hn : t.find? l <;> cases hn' : t'.find? l <;> simp_all

theorem SameAt.directory (h : t.SameAt t' l) {d : DirectoryNode}
    (hd : t.find? l = some (.directory d)) : t'.find? l = some (.directory d) := by
  unfold SameAt at h
  rw [hd] at h
  cases hn : t'.find? l with
  | none => simp [hn] at h
  | some n => cases n <;> simp_all [Node.withStamp]

theorem SameAt.file (h : t.SameAt t' l) {f : FileNode} (hf : t.find? l = some (.file f)) :
    ∃ stamp, t'.find? l = some (.file { f with stamp }) := by
  unfold SameAt at h
  rw [hf] at h
  cases hn : t'.find? l with
  | none => simp [hn] at h
  | some n =>
    cases n with
    | directory d => simp [hn, Node.withStamp] at h
    | file g =>
      refine ⟨g.stamp, ?_⟩
      rw [hn] at h
      simp only [Option.map_some, Node.withStamp, Option.some.injEq, Node.file.injEq] at h
      cases f
      cases g
      simp_all

theorem sameAt_of_files {f f' : FileNode} (hf : t.find? l = some (.file f))
    (hf' : t'.find? l = some (.file f')) (h : { f' with stamp := 0 } = { f with stamp := 0 }) :
    t.SameAt t' l := by
  rw [SameAt, hf, hf']
  exact congrArg (fun g => some (Node.file g)) h

/-- There is a file at the location that the handle was opened for, and it is the one. -/
def Holds (t : FileTree) (h : Handle) : Prop :=
  ∃ f, t.find? h.location = some (.file f) ∧ f.stamp = h.stamp

theorem append_of_not_holds {h : Handle} (hh : ¬ t.Holds h) (text : String) :
    t.append h text = t := by
  unfold append
  split
  · next f hf => exact if_neg fun hs => hh ⟨f, hf, hs⟩
  · rfl

end

/-- The trees have the same files off the places, and the same directories and places of programs
throughout. -/
structure AgreeOff (places : Location → Prop) (t t' : FileTree) : Prop where
  elsewhere : ∀ l, ¬ places l → t.SameAt t' l
  ways : t.SameWays t'

namespace AgreeOff

variable {places : Location → Prop} {t t' t'' u u' : FileTree}

theorem refl (places : Location → Prop) (t : FileTree) : t.AgreeOff places t :=
  ⟨fun _ _ => rfl, .refl t⟩

theorem symm (h : t.AgreeOff places t') : t'.AgreeOff places t :=
  ⟨fun l hl => (h.elsewhere l hl).symm, h.ways.symm⟩

theorem trans (h : t.AgreeOff places t') (h' : t'.AgreeOff places t'') : t.AgreeOff places t'' :=
  ⟨fun l hl => (h'.elsewhere l hl).trans (h.elsewhere l hl), h.ways.trans h'.ways⟩

/-- A change at one location that comes to the same in both trees. -/
theorem update (h : t.AgreeOff places t') {l : Location} (hu : ∀ k, k ≠ l → u.find? k = t.find? k)
    (hu' : ∀ k, k ≠ l → u'.find? k = t'.find? k) (hl : u.SameAt u' l) : u.AgreeOff places u' := by
  have hprogram {v v' : FileTree} (hv : v.SameAt v' l) {x : Execution} (hp : v.ProgramAt l x) :
      v'.ProgramAt l x := by
    obtain ⟨f, hf, hx⟩ := hp
    obtain ⟨stamp, hf'⟩ := hv.file hf
    exact ⟨_, hf', hx⟩
  refine ⟨fun k hk => ?_, fun k d => ?_, fun k x => ?_⟩
  · by_cases hkl : k = l
    · rwa [hkl]
    · rw [SameAt, hu k hkl, hu' k hkl]
      exact h.elsewhere k hk
  · by_cases hkl : k = l
    · rw [hkl]
      exact ⟨hl.directory, hl.symm.directory⟩
    · rw [hu k hkl, hu' k hkl]
      exact h.ways.directories k d
  · by_cases hkl : k = l
    · rw [hkl]
      exact ⟨hprogram hl, hprogram hl.symm⟩
    · rw [ProgramAt, ProgramAt, hu k hkl, hu' k hkl]
      exact h.ways.programs k x

/-! ## At the places -/

theorem append_at (t : FileTree) {h : Handle} (hh : places h.location) (text : String) :
    t.AgreeOff places (t.append h text) := by
  refine ⟨fun l hl => ?_, .append t h text⟩
  have hne : l ≠ h.location := by
    rintro rfl
    exact hl hh
  rw [SameAt, find?_append_of_ne t h text hne]

theorem appendEach_at (t : FileTree) (line : String) {files : List Handle}
    (hfiles : ∀ f ∈ files, places f.location) : t.AgreeOff places (t.appendEach line files) := by
  induction files generalizing t with
  | nil => exact refl places t
  | cons f rest ih =>
    rw [List.forall_mem_cons] at hfiles
    exact (append_at t hfiles.1 line).trans (ih _ hfiles.2)

theorem openForWriting_at {cwd path : String} {h : Handle}
    (ho : t.openForWriting cwd path .append = .ok (h, u)) (hplace : places (placeOf cwd path)) :
    t.AgreeOff places u := by
  refine ⟨fun l hl => ?_, sameWays_openForWriting ho⟩
  have hoff : ∀ target, t.resolve cwd path = .ok target → target.location ≠ l := by
    rintro target hr rfl
    rw [location_of_resolve hr] at hl
    exact hl hplace
  rw [SameAt, (find?_of_openForWriting ho hoff).2]

/-! ## Searches for programs -/

/-- The same program is found, or there is a NUL byte in the way, or none is found. -/
theorem resolveProgram_alike (h : t.AgreeOff places t') (cwd : String)
    (searchPath : Option String) (name : String) :
    (∃ r, (r = .error .nulByte ∨ ∃ file, r = .ok file) ∧
      resolveProgram t cwd searchPath name = r ∧ resolveProgram t' cwd searchPath name = r) ∨
    ∃ e e', resolveProgram t cwd searchPath name = .error (.errno e) ∧
      resolveProgram t' cwd searchPath name = .error (.errno e') :=
  firstExecutable_alike (fun _ _ => ⟨h.ways.executable_of, h.ways.symm.executable_of⟩) _ _ _ _

/-! ## Elsewhere -/

section Elsewhere
variable (h : t.AgreeOff places t') (hroot : ¬ places []) {cwd path : String}
  (hplace : ¬ places (placeOf cwd path))
include h hroot hplace

theorem resolve_elsewhere :
    (∃ fault fault', t.resolve cwd path = .error fault ∧ t'.resolve cwd path = .error fault' ∧
      fault.Alike fault') ∨
    ∃ d, t.resolve cwd path = .ok (t.target (placeOf cwd path) d) ∧
      t'.resolve cwd path = .ok (t'.target (placeOf cwd path) d) :=
  resolve_alike h.ways.directories (h.elsewhere [] hroot).bothAt (h.elsewhere _ hplace).bothAt

theorem status_elsewhere :
    (∃ fault fault', t.status cwd path = .error fault ∧ t'.status cwd path = .error fault' ∧
      fault.Alike fault') ∨
    ∃ n n', t.status cwd path = .ok n ∧ t'.status cwd path = .ok n' ∧
      n'.withStamp 0 = n.withStamp 0 := by
  have hsame := h.elsewhere _ hplace
  unfold status
  rcases h.resolve_elsewhere hroot hplace with ⟨fault, fault', hr, hr', halike⟩ | ⟨d, hr, hr'⟩
  · rw [hr, hr']
    exact Or.inl ⟨fault, fault', rfl, rfl, halike⟩
  · rw [hr, hr']
    unfold target
    cases hn : t.find? (placeOf cwd path) with
    | none =>
      rw [hsame.bothAt.1 hn]
      exact Or.inl ⟨_, _, rfl, rfl, Or.inr ⟨_, _, rfl, rfl, .rfl⟩⟩
    | some n =>
      cases hn' : t'.find? (placeOf cwd path) with
      | none => exact absurd (hsame.bothAt.2 hn') (by simp [hn])
      | some n' =>
        rw [SameAt, hn, hn'] at hsame
        exact Or.inr ⟨n, n', rfl, rfl, Option.some.inj hsame⟩

/-- A look at a place fails with the same error, or finds the same. -/
theorem probe_elsewhere :
    (∃ e, t.probe cwd path = .error e ∧ t'.probe cwd path = .error e) ∨
    ∃ n? n?', t.probe cwd path = .ok n? ∧ t'.probe cwd path = .ok n?' ∧
      n?'.map (Node.withStamp 0) = n?.map (Node.withStamp 0) := by
  unfold probe
  rcases h.status_elsewhere hroot hplace with ⟨fault, fault', hs, hs', halike⟩ | ⟨n, n', hs, hs', hn⟩
  · rw [hs, hs']
    rcases halike with ⟨rfl, rfl⟩ | ⟨e, e', rfl, rfl, rfl | ⟨he, he'⟩⟩
    · exact Or.inr ⟨none, none, rfl, rfl, rfl⟩
    · cases e with
      | notFound => exact Or.inr ⟨none, none, rfl, rfl, rfl⟩
      | notDirectory => exact Or.inr ⟨none, none, rfl, rfl, rfl⟩
      | _ => exact Or.inl ⟨_, rfl, rfl⟩
    · refine Or.inr ⟨none, none, ?_, ?_, rfl⟩
      · rcases he with rfl | rfl <;> rfl
      · rcases he' with rfl | rfl <;> rfl
  · rw [hs, hs']
    exact Or.inr ⟨some n, some n', rfl, rfl, congrArg some hn⟩

theorem mayRead_elsewhere : t'.mayRead cwd path = t.mayRead cwd path := by
  unfold mayRead
  rcases h.status_elsewhere hroot hplace with ⟨fault, fault', hs, hs', -⟩ | ⟨n, n', hs, hs', hn⟩
  · rw [hs, hs']
  · rw [hs, hs']
    cases n <;> cases n' <;> simp_all [Node.withStamp, Node.readable]

/-- A file is opened in both trees, and there in both, or in neither. -/
theorem truncate_elsewhere :
    (∃ fault fault', t.openForWriting cwd path .truncate = .error fault ∧
      t'.openForWriting cwd path .truncate = .error fault' ∧ fault.Alike fault') ∨
    ∃ handle handle' u u', t.openForWriting cwd path .truncate = .ok (handle, u) ∧
      t'.openForWriting cwd path .truncate = .ok (handle', u') ∧ u.AgreeOff places u' ∧
      handle.location = placeOf cwd path ∧ handle'.location = placeOf cwd path ∧
      u.Holds handle ∧ u'.Holds handle' := by
  have hsame := h.elsewhere _ hplace
  unfold openForWriting
  rcases h.resolve_elsewhere hroot hplace with ⟨fault, fault', hr, hr', halike⟩ | ⟨d, hr, hr'⟩
  · rw [hr, hr']
    exact Or.inl ⟨_, _, rfl, rfl, halike⟩
  rw [hr, hr']
  generalize placeOf cwd path = l at hsame ⊢
  unfold target
  have herror (e : Errno) : (CallFault.errno e).Alike (.errno e) := Or.inr ⟨e, e, rfl, rfl, .rfl⟩
  cases hn : t.find? l with
  | none =>
    rw [hsame.bothAt.1 hn]
    simp only
    split
    · exact Or.inl ⟨_, _, rfl, rfl, herror _⟩
    split
    · have hu := t.find?_create_self l (.plain "")
      have hu' := t'.find?_create_self l (.plain "")
      have hagree := h.update (fun k hk => find?_create_of_ne t (.plain "") hk)
        (fun k hk => find?_create_of_ne t' (.plain "") hk) (sameAt_of_files hu hu' rfl)
      exact Or.inr ⟨_, _, _, _, rfl, rfl, hagree, rfl, rfl, ⟨_, hu, rfl⟩, ⟨_, hu', rfl⟩⟩
    · exact Or.inl ⟨_, _, rfl, rfl, herror _⟩
  | some n =>
    cases n with
    | directory k =>
      rw [hsame.directory hn]
      exact Or.inl ⟨_, _, rfl, rfl, herror _⟩
    | file f =>
      obtain ⟨stamp, hf'⟩ := hsame.file hn
      rw [hf']
      simp only [if_true]
      split
      · have hu := t.find?_set_self l (.file { f with text := "" })
        have hu' := t'.find?_set_self l (.file { f with text := "", stamp })
        have hagree := h.update (fun k hk => find?_set_of_ne t _ hk)
          (fun k hk => find?_set_of_ne t' _ hk) (sameAt_of_files hu hu' rfl)
        exact Or.inr ⟨_, _, _, _, rfl, rfl, hagree, rfl, rfl, ⟨_, hu, rfl⟩, ⟨_, hu', rfl⟩⟩
      · exact Or.inl ⟨_, _, rfl, rfl, herror _⟩

/-- A file is removed from both trees or from neither. -/
theorem unlink_elsewhere :
    (∃ fault fault', t.unlink cwd path = .error fault ∧ t'.unlink cwd path = .error fault' ∧
      fault.Alike fault') ∨
    ∃ u u', t.unlink cwd path = .ok u ∧ t'.unlink cwd path = .ok u' ∧ u.AgreeOff places u' := by
  have hsame := h.elsewhere _ hplace
  have hparent : t'.parentWritable (placeOf cwd path) = t.parentWritable (placeOf cwd path) := by
    have hdirs := h.ways.directories (placeOf cwd path).tail
    unfold parentWritable
    cases hn : t.find? (placeOf cwd path).tail with
    | none => cases hn' : t'.find? (placeOf cwd path).tail <;> grind
    | some n => cases hn' : t'.find? (placeOf cwd path).tail <;> grind
  have herror (e : Errno) : (CallFault.errno e).Alike (.errno e) := Or.inr ⟨e, e, rfl, rfl, .rfl⟩
  unfold unlink
  rcases h.resolve_elsewhere hroot hplace with ⟨fault, fault', hr, hr', halike⟩ | ⟨d, hr, hr'⟩
  · rw [hr, hr']
    exact Or.inl ⟨_, _, rfl, rfl, halike⟩
  rw [hr, hr']
  unfold target
  cases hn : t.find? (placeOf cwd path) with
  | none =>
    rw [hsame.bothAt.1 hn]
    exact Or.inl ⟨_, _, rfl, rfl, herror _⟩
  | some n =>
    cases n with
    | directory k =>
      rw [hsame.directory hn]
      exact Or.inl ⟨_, _, rfl, rfl, herror _⟩
    | file f =>
      obtain ⟨stamp, hf'⟩ := hsame.file hn
      rw [hf']
      simp only
      cases f.stuck with
      | some e => exact Or.inl ⟨_, _, rfl, rfl, herror _⟩
      | none =>
        simp only [hparent]
        split
        · refine Or.inr ⟨_, _, rfl, rfl, ?_⟩
          refine h.update (fun k hk => find?_erase_of_ne t hk) (fun k hk => find?_erase_of_ne t' hk) ?_
          rw [SameAt, find?_erase_self, find?_erase_self]
        · exact Or.inl ⟨_, _, rfl, rfl, herror _⟩

end Elsewhere

/-- The same text written to files opened at the same place, which are both there or both gone. -/
theorem append_both (h : t.AgreeOff places t') {handle handle' : Handle}
    (hlocation : handle'.location = handle.location) (hplace : ¬ places handle.location)
    (hholds : t.Holds handle ↔ t'.Holds handle') (text : String) :
    (t.append handle text).AgreeOff places (t'.append handle' text) := by
  by_cases hh : t.Holds handle
  · obtain ⟨f, hf, hs⟩ := hh
    obtain ⟨g, hg, hs'⟩ := hholds.1 ⟨f, hf, hs⟩
    obtain ⟨stamp, hf'⟩ := (h.elsewhere _ hplace).file hf
    rw [hlocation, hf'] at hg
    cases hg
    change stamp = handle'.stamp at hs'
    refine h.update (fun k hk => find?_append_of_ne t handle text hk)
      (fun k hk => find?_append_of_ne t' handle' text (hlocation ▸ hk)) ?_
    have hu := t.find?_append_self handle text
    have hu' := t'.find?_append_self handle' text
    simp only [hf, hs, if_true] at hu
    simp only [hlocation, hf', hs', if_true] at hu'
    exact sameAt_of_files hu hu' rfl
  · rw [append_of_not_holds hh, append_of_not_holds fun hh' => hh (hholds.2 hh')]
    exact h

end AgreeOff

theorem ne_nil_of_vacant {t : FileTree} {here l : Location} {names : List String}
    {d : DirectoryNode} (h : t.walk here names = .ok (.vacant l d)) : l ≠ [] := by
  fun_induction walk t here names with
  | case6 here rest d' hh hs ih => exact ih h
  | case7 here rest d' hh hs hdot ih => exact ih h
  | case9 here name rest d' hh hs hdot hup hl n hn ih => exact ih h
  | case10 here name d' hh hs hdot hup hl hnone =>
    cases h
    exact List.cons_ne_nil _ _
  | _ => cases h

/-- Whatever is opened for writing lies below the root. -/
theorem placeOf_ne_nil_of_open {t u : FileTree} {cwd : String} {path : Path} {mode : WriteMode}
    {h : Handle} (ho : t.openForWriting cwd path.toString mode = .ok (h, u)) :
    placeOf cwd path.toString ≠ [] := by
  unfold openForWriting at ho
  split at ho
  · cases ho
  · next l f hr =>
    rw [← location_of_resolve hr]
    rintro rfl
    have hf := find?_of_resolve hr
    obtain ⟨-, hw, hslash⟩ := walk_of_follow (follow_of_resolve hr).2
    cases hnames : walkedNames cwd path.toString with
    | cons name rest =>
      rw [hnames] at hw
      obtain ⟨-, ⟨d, hd, -⟩, -⟩ := leads_of_walk hw
      rw [hf] at hd
      cases hd
    | nil =>
      -- A path without names is a root, whose text ends in a slash.
      have hend := hslash rfl
      rw [walkedNames_path, List.append_eq_nil_iff] at hnames
      obtain ⟨anchor, names, hisName⟩ := path
      obtain ⟨-, hn⟩ := hnames
      split at hn
      · cases hn
      · next hdot =>
        obtain rfl : names = [] := hn
        cases anchor with
        | relative => exact hdot ⟨rfl, rfl⟩
        | root => exact absurd (show endsIn ['/'] "/" = false from hend) (by decide)
        | doubleRoot => exact absurd (show endsIn ['/'] "//" = false from hend) (by decide)
  · next l d hr =>
    rw [← location_of_resolve hr]
    exact ne_nil_of_vacant (walk_of_resolve hr)
  · cases ho

end FileTree

end FirmwareAudit
