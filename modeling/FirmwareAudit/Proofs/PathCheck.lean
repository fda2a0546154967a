import FirmwareAudit.Proofs.BeforePipeline

/-! # Checking the paths of a plan

A plan passes the check just when its image is a file that may be read and its include directory is
a directory, and the check changes nothing. A path that fails is named, the image first. But where
the way is barred, by a directory that may not be searched or by a name that is too long, nothing can
be said of the path, and the check ends in the system's error.
-/
namespace FirmwareAudit
open Text

namespace FileTree
variable {t : FileTree} {here : Location} {names : List String} {e : Errno}

/-- A walk comes to a directory that may not be searched, or to a name that is too long. -/
inductive Barred (t : FileTree) : Location → List String → Errno → Prop
  | closed {here : Location} {name : String} {rest : List String} {d : DirectoryNode}
      (hhere : t.find? here = some (.directory d)) (hclosed : d.searchable = false) :
      Barred t here (name :: rest) .accessDenied
  | long {here : Location} {name : String} {rest : List String} {d : DirectoryNode}
      (hhere : t.find? here = some (.directory d)) (hsearchable : d.searchable = true)
      (hentry : IsEntry name) (hlong : nameLimit < name.utf8ByteSize) :
      Barred t here (name :: rest) .nameTooLong
  | further {here next : Location} {name : String} {rest : List String} {e : Errno}
      (hleads : t.Leads here name next) (h : Barred t next rest e) : Barred t here (name :: rest) e

theorem walk_of_barred (h : t.Barred here names e) : t.walk here names = .error e := by
  induction h with
  | closed hhere hclosed => simp [walk, hhere, hclosed]
  | long hhere hsearchable hentry hlong =>
    simp [walk, hhere, hsearchable, hentry.1, hentry.2, hlong]
  | further hleads _ ih => rw [walk_of_leads hleads, ih]

theorem Barred.cause (h : t.Barred here names e) : e = .accessDenied ∨ e = .nameTooLong := by
  induction h with
  | closed => exact Or.inl rfl
  | long => exact Or.inr rfl
  | further _ _ ih => exact ih

/-- A walk that fails finds nothing, or a file on its way, or is barred. -/
theorem walk_eq_error (h : t.walk here names = .error e) :
    e = .notFound ∨ e = .notDirectory ∨ t.Barred here names e := by
  -- The walk goes on in cases 6, 7 and 9: it stays, goes up, or enters what is there.
  fun_induction walk t here names with
  | case1 here n hh => cases h
  | case2 here hh =>
    cases h
    exact Or.inl rfl
  | case3 here name rest hh =>
    cases h
    exact Or.inl rfl
  | case4 here name rest f hh =>
    cases h
    exact Or.inr (Or.inl rfl)
  | case5 here name rest d hh hs =>
    cases h
    exact Or.inr (Or.inr (.closed hh (by simpa using hs)))
  | case6 here rest d hh hs ih =>
    have hleads : t.Leads here "." here := ⟨⟨d, hh, by simpa using hs⟩, Or.inl ⟨rfl, rfl⟩⟩
    exact (ih h).imp id (Or.imp id (.further hleads))
  | case7 here rest d hh hs hdot ih =>
    have hleads : t.Leads here ".." here.tail :=
      ⟨⟨d, hh, by simpa using hs⟩, Or.inr (Or.inl ⟨rfl, rfl⟩)⟩
    exact (ih h).imp id (Or.imp id (.further hleads))
  | case8 here name rest d hh hs hdot hup hl =>
    cases h
    exact Or.inr (Or.inr (.long hh (by simpa using hs) ⟨hdot, hup⟩ hl))
  | case9 here name rest d hh hs hdot hup hl n hn ih =>
    have hleads : t.Leads here name (name :: here) :=
      ⟨⟨d, hh, by simpa using hs⟩,
        Or.inr (Or.inr ⟨⟨hdot, hup⟩, Nat.not_lt.1 hl, rfl, n, hn⟩)⟩
    exact (ih h).imp id (Or.imp id (.further hleads))
  | case10 here name d hh hs hdot hup hl hn => cases h
  | case11 here name rest d hh hs hdot hup hl hn hrest =>
    cases h
    exact Or.inl rfl

end FileTree

theorem Path.toString_ne_empty (q : Path) : q.toString ≠ "" := by
  have hdot : ("." : String) ≠ "" := by decide
  have hanchors : ∀ a : Anchor, a ≠ .relative → a.text ≠ "" := by
    intro a ha
    cases a with
    | relative => exact absurd rfl ha
    | _ => decide
  intro h
  unfold Path.toString at h
  split at h
  · exact hdot h
  · next hne =>
    obtain ⟨hanchor, hjoined⟩ := String.append_eq_empty_iff.1 h
    have hrelative : q.anchor = .relative := not_not.1 fun ha => hanchors _ ha hanchor
    have hnames := FileTree.steps_joinWith q.isName
    rw [hjoined] at hnames
    exact hne ⟨hrelative, hnames.symm⟩

namespace Machine
variable (m : Machine) (path : Path)

/-- The path leads to a file that may be read. -/
def ReadableFile : Prop :=
  ∃ f, m.tree.status m.cwd path.toString = .ok (.file f) ∧ f.readable = true

/-- The path leads to a directory. -/
def DirectoryAt : Prop :=
  ∃ d, m.tree.status m.cwd path.toString = .ok (.directory d)

/-- Where the path leads cannot be asked, for this reason. -/
def Barred (e : Errno) : Prop :=
  has '\x00' path.toString = false ∧
    m.tree.Barred [] (FileTree.walkedNames m.cwd path.toString) e

variable {m : Machine} {path : Path} {e : Errno}

theorem status_of_barred (h : m.Barred path e) :
    m.tree.status m.cwd path.toString = .error (.errno e) := by
  rw [FileTree.status, FileTree.resolve, h.1, FileTree.follow, if_neg path.toString_ne_empty,
    FileTree.walk_of_barred h.2]
  rfl

theorem not_barred_of_status {n : Node} (h : m.tree.status m.cwd path.toString = .ok n) :
    ∀ e, ¬ m.Barred path e := by
  intro e hbarred
  rw [status_of_barred hbarred] at h
  cases h

theorem barred_of_status (h : m.tree.status m.cwd path.toString = .error (.errno e))
    (hfound : e ≠ .notFound) (hdirectory : e ≠ .notDirectory) : m.Barred path e := by
  unfold FileTree.status FileTree.resolve at h
  cases hnul : has '\x00' path.toString with
  | true => simp [hnul] at h
  | false =>
    rw [hnul] at h
    unfold FileTree.follow at h
    rw [if_neg path.toString_ne_empty] at h
    cases hwalk : m.tree.walk [] (FileTree.walkedNames m.cwd path.toString) with
    | error e' =>
      rw [hwalk] at h
      cases h
      exact ⟨hnul, ((FileTree.walk_eq_error hwalk).resolve_left hfound).resolve_left hdirectory⟩
    | ok target =>
      cases target with
      | vacant l d =>
        simp only [hwalk] at h
        cases h
        exact absurd rfl hfound
      | node l n =>
        cases n with
        | directory d => simp [hwalk] at h
        | file f =>
          simp only [hwalk] at h
          cases hslash : endsIn ['/'] path.toString with
          | true =>
            simp only [hslash, if_true] at h
            cases h
            exact absurd rfl hdirectory
          | false => simp [hslash] at h

/-- Where nothing can be asked of a path the way to it is barred. -/
theorem probe_of_status_error {fault : CallFault}
    (h : m.tree.status m.cwd path.toString = .error fault) :
    (∀ e, ¬ m.Barred path e) ∧ m.tree.probe m.cwd path.toString = .ok none ∨
      ∃ e, m.Barred path e ∧ m.tree.probe m.cwd path.toString = .error e := by
  have hopen : (∀ e, fault = .errno e → e = .notFound ∨ e = .notDirectory) →
      ∀ e, ¬ m.Barred path e := by
    intro hfault e hbarred
    have hs := status_of_barred hbarred
    rw [h] at hs
    cases hs
    rcases hbarred.2.cause with rfl | rfl <;> rcases hfault _ rfl with he | he <;> cases he
  unfold FileTree.probe
  rw [h]
  cases fault with
  | nulByte => exact Or.inl ⟨hopen nofun, rfl⟩
  | errno e =>
    by_cases hfound : e = .notFound
    · subst hfound
      exact Or.inl ⟨hopen fun e he => Or.inl (CallFault.errno.inj he).symm, rfl⟩
    by_cases hdirectory : e = .notDirectory
    · subst hdirectory
      exact Or.inl ⟨hopen fun e he => Or.inr (CallFault.errno.inj he).symm, rfl⟩
    refine Or.inr ⟨e, barred_of_status h hfound hdirectory, ?_⟩
    cases e with
    | notFound => exact absurd rfl hfound
    | notDirectory => exact absurd rfl hdirectory
    | _ => rfl

end Machine

/-- A look at a path finds a node, or nothing, or the way there is barred. -/
theorem nodeAt_cases (path : Path) (m : Machine) :
    (∃ n, m.tree.status m.cwd path.toString = .ok n ∧ nodeAt path m = .ok (some n) m) ∨
    ((∀ n, m.tree.status m.cwd path.toString ≠ .ok n) ∧ (∀ e, ¬ m.Barred path e) ∧
      nodeAt path m = .ok none m) ∨
    ∃ e, m.Barred path e ∧ nodeAt path m = .error (.system ⟨e, some path.toString⟩) m := by
  unfold nodeAt
  rw [bind_of_ok (get_apply m)]
  cases hstatus : m.tree.status m.cwd path.toString with
  | ok n =>
    have hprobe : m.tree.probe m.cwd path.toString = .ok (some n) := by
      rw [FileTree.probe, hstatus]
    rw [hprobe]
    exact Or.inl ⟨n, rfl, rfl⟩
  | error fault =>
    rcases Machine.probe_of_status_error hstatus with ⟨hopen, hprobe⟩ | ⟨e, hbarred, hprobe⟩
    · rw [hprobe]
      exact Or.inr (Or.inl ⟨nofun, hopen, rfl⟩)
    · rw [hprobe]
      exact Or.inr (Or.inr ⟨e, hbarred, rfl⟩)

theorem isFile_cases (path : Path) (m : Machine) :
    (∃ f, m.tree.status m.cwd path.toString = .ok (.file f) ∧ isFile path m = .ok true m) ∨
    ((∀ f, m.tree.status m.cwd path.toString ≠ .ok (.file f)) ∧ (∀ e, ¬ m.Barred path e) ∧
      isFile path m = .ok false m) ∨
    ∃ e, m.Barred path e ∧ isFile path m = .error (.system ⟨e, some path.toString⟩) m := by
  unfold isFile
  rcases nodeAt_cases path m with ⟨n, hstatus, hn⟩ | ⟨hnone, hopen, hn⟩ | ⟨e, hbarred, hn⟩
  · rw [bind_of_ok hn]
    cases n with
    | file f => exact Or.inl ⟨f, hstatus, rfl⟩
    | directory d =>
      refine Or.inr (Or.inl ⟨fun f hf => ?_, Machine.not_barred_of_status hstatus, rfl⟩)
      rw [hstatus] at hf
      cases hf
  · rw [bind_of_ok hn]
    exact Or.inr (Or.inl ⟨fun f => hnone _, hopen, rfl⟩)
  · exact Or.inr (Or.inr ⟨e, hbarred, bind_of_error hn⟩)

theorem isDirectory_cases (path : Path) (m : Machine) :
    (m.DirectoryAt path ∧ isDirectory path m = .ok true m) ∨
    (¬ m.DirectoryAt path ∧ (∀ e, ¬ m.Barred path e) ∧ isDirectory path m = .ok false m) ∨
    ∃ e, m.Barred path e ∧ isDirectory path m = .error (.system ⟨e, some path.toString⟩) m := by
  unfold isDirectory
  rcases nodeAt_cases path m with ⟨n, hstatus, hn⟩ | ⟨hnone, hopen, hn⟩ | ⟨e, hbarred, hn⟩
  · rw [bind_of_ok hn]
    cases n with
    | directory d => exact Or.inl ⟨⟨d, hstatus⟩, rfl⟩
    | file f =>
      refine Or.inr (Or.inl ⟨?_, Machine.not_barred_of_status hstatus, rfl⟩)
      rintro ⟨d, hd⟩
      rw [hstatus] at hd
      cases hd
  · rw [bind_of_ok hn]
    exact Or.inr (Or.inl ⟨fun ⟨d, hd⟩ => hnone _ hd, hopen, rfl⟩)
  · exact Or.inr (Or.inr ⟨e, hbarred, bind_of_error hn⟩)

namespace Plan

/-- How the check of a plan's paths ends, and where. -/
inductive ValidateEnd (p : Plan) (m : Machine) : EStateM.Result Stop Machine Unit → Prop
  | passed (himage : m.ReadableFile p.image) (hincludeDir : m.DirectoryAt p.includeDir) :
      ValidateEnd p m (.ok () m)
  | unreadableImage (himage : ¬ m.ReadableFile p.image) (hopen : ∀ e, ¬ m.Barred p.image e) :
      ValidateEnd p m (.error (.fault (.unreadableImage p.image)) m)
  | missingIncludeDir (himage : m.ReadableFile p.image) (hincludeDir : ¬ m.DirectoryAt p.includeDir)
      (hopen : ∀ e, ¬ m.Barred p.includeDir e) :
      ValidateEnd p m (.error (.fault (.missingIncludeDir p.includeDir)) m)
  | barredImage (e : Errno) (hbarred : m.Barred p.image e) :
      ValidateEnd p m (.error (.system ⟨e, some p.image.toString⟩) m)
  | barredIncludeDir (himage : m.ReadableFile p.image) (e : Errno)
      (hbarred : m.Barred p.includeDir e) :
      ValidateEnd p m (.error (.system ⟨e, some p.includeDir.toString⟩) m)

variable (p : Plan) (m : Machine)

/-- Behind an image that may be read the include directory decides. -/
theorem validateEnd_of_readable (himage : m.ReadableFile p.image) :
    p.ValidateEnd m ((do
      unless ← isDirectory p.includeDir do
        throw (.fault (.missingIncludeDir p.includeDir)) : MachineM Unit) m) := by
  rcases isDirectory_cases p.includeDir m with ⟨hdir, hd⟩ | ⟨hdir, hopen, hd⟩ | ⟨e, hbarred, hd⟩
  · rw [bind_of_ok hd]
    exact .passed himage hdir
  · rw [bind_of_ok hd]
    exact .missingIncludeDir himage hdir hopen
  · rw [bind_of_error hd]
    exact .barredIncludeDir himage e hbarred

theorem validate_ends : p.ValidateEnd m (p.validate m) := by
  unfold validate
  rcases isFile_cases p.image m with ⟨f, hstatus, hf⟩ | ⟨hfile, hopen, hf⟩ | ⟨e, hbarred, hf⟩
  · have hread : mayRead p.image m = .ok f.readable m := by
      rw [mayRead, bind_of_ok (get_apply m), FileTree.mayRead, hstatus]
      rfl
    rw [bind_of_ok hf, if_pos rfl]
    cases hreadable : f.readable with
    | true =>
      rw [hreadable] at hread
      rw [bind_of_ok hread]
      exact p.validateEnd_of_readable m ⟨f, hstatus, hreadable⟩
    | false =>
      rw [hreadable] at hread
      rw [bind_of_ok hread]
      refine .unreadableImage ?_ (Machine.not_barred_of_status hstatus)
      rintro ⟨f', hf', hreadable'⟩
      rw [hstatus] at hf'
      cases hf'
      rw [hreadable] at hreadable'
      cases hreadable'
  · rw [bind_of_ok hf]
    refine .unreadableImage ?_ hopen
    rintro ⟨f, hstatus, -⟩
    exact hfile f hstatus
  · rw [bind_of_error hf]
    exact .barredImage e hbarred

/-- The check passes just when the image is a file that may be read and the include directory is a
directory; else it names the path that fails, the image first, unless the way there is barred. The
machine stays as it is. -/
theorem validate_exact :
    (p.validate m = .ok () m ↔ m.ReadableFile p.image ∧ m.DirectoryAt p.includeDir) ∧
      p.ValidateEnd m (p.validate m) := by
  have hend := p.validate_ends m
  refine ⟨⟨fun h => ?_, fun ⟨⟨f, hf, hreadable⟩, d, hd⟩ => ?_⟩, hend⟩
  · rw [h] at hend
    cases hend with
    | passed himage hincludeDir => exact ⟨himage, hincludeDir⟩
  · generalize p.validate m = r at hend
    cases hend with
    | passed => rfl
    | unreadableImage himage => exact absurd ⟨f, hf, hreadable⟩ himage
    | missingIncludeDir _ hincludeDir => exact absurd ⟨d, hd⟩ hincludeDir
    | barredImage e hbarred => exact absurd hbarred (Machine.not_barred_of_status hf e)
    | barredIncludeDir _ e hbarred => exact absurd hbarred (Machine.not_barred_of_status hd e)

/-- A machine that has an image in a directory which may not be searched. -/
def lockedMachine : Machine :=
  let locked : DirectoryNode := { DirectoryNode.plain with searchable := false }
  { CommandLine.toolsOnly with
    tree := (CommandLine.toolsOnly.tree.set ["locked"] (.directory locked)).set ["fw.bin", "locked"]
      (.file (.plain "FIRMWARE")) }

/-- The check of an image in such a directory ends in no fault of the image. -/
theorem validate_locked :
    let p := ofImage (.ofString "/locked/fw.bin")
    failure? (p.validate lockedMachine) =
      some (.system ⟨.accessDenied, some "/locked/fw.bin"⟩) := by
  decide +kernel

end Plan

end FirmwareAudit
