import FirmwareAudit.Proofs.CommandOrder
import FirmwareAudit.Proofs.Conduct
import FirmwareAudit.Proofs.Places

/-! # What a run does to the files

Beside what the tools do, a run empties the listing and the source, fills them with what a tool
wrote, and removes artifacts. All else in the file tree, the image first of all, stays as it is.
-/
namespace FirmwareAudit
namespace Pipeline

variable (p : Pipeline) (m : Machine)

/-! ## The course of the files -/

/-- A program that a command of the pipeline starts runs on one tree, leaves another and writes a
text. -/
def Runs (t t' : FileTree) (out : String) : Prop :=
  ∃ program arguments turn err ending, program :: arguments ∈ p.turns.map (·.command) ∧
    m.programs (baseName program) turn ⟨m.cwd, program, arguments⟩ t = .ran t' out err ending

/-- The trees that the files of the machine can come to, with what each program found and left. -/
inductive Course : List (FileTree × FileTree) → FileTree → Prop
  | start : Course [] m.tree
  | ran {changes : List (FileTree × FileTree)} {t t' : FileTree} {out : String}
      (h : Course changes t) (hrun : p.Runs m t t' out) : Course (changes ++ [(t, t')]) t'
  | emptied {changes : List (FileTree × FileTree)} {t t' : FileTree} {f : Path} {handle : Handle}
      (h : Course changes t) (hf : f = p.files.listing ∨ f = p.files.source)
      (hopen : t.openForWriting m.cwd f.toString .truncate = .ok (handle, t')) : Course changes t'
  | filled {changes : List (FileTree × FileTree)} {t t₁ t₂ : FileTree} {f : Path}
      {handle : Handle} {out : String} (h : Course changes t)
      (hf : f = p.files.listing ∨ f = p.files.source)
      (hopen : t.openForWriting m.cwd f.toString .truncate = .ok (handle, t₁))
      (hrun : p.Runs m t₁ t₂ out) : Course (changes ++ [(t₁, t₂)]) (t₂.append handle out)
  | removed {changes : List (FileTree × FileTree)} {t t' : FileTree} {f : Path}
      (h : Course changes t) (hf : f ∈ p.files.all)
      (hunlink : t.unlink m.cwd f.toString = .ok t') : Course changes t'

/-- A place where no path of an artifact leads, whatever the tree. -/
def Apart (l : Location) : Prop :=
  ∀ f ∈ p.files.all, ∀ (t : FileTree) (target : Target),
    t.resolve m.cwd f.toString = .ok target → target.location ≠ l

variable {p m}

theorem mem_files_of_output {f : Path} (h : f = p.files.listing ∨ f = p.files.source) :
    f ∈ p.files.all := by
  rcases h with rfl | rfl <;> simp [Artifacts.all]

/-- Apart from the artifacts only programs change anything. -/
theorem Course.find?_eq {changes : List (FileTree × FileTree)} {t : FileTree}
    (h : p.Course m changes t) {l : Location} (hl : p.Apart m l)
    (hc : ∀ c ∈ changes, c.2.find? l = c.1.find? l) : t.find? l = m.tree.find? l := by
  induction h with
  | start => rfl
  | @ran changes t t' out h hrun ih =>
    have hlast := hc (t, t') (by simp)
    exact hlast.trans (ih fun c hmem => hc c (List.mem_append_left _ hmem))
  | emptied h hf hopen ih =>
    obtain ⟨-, ht⟩ := FileTree.find?_of_openForWriting hopen (hl _ (mem_files_of_output hf) _)
    exact ht.trans (ih hc)
  | @filled changes t t₁ t₂ f handle out h hf hopen hrun ih =>
    obtain ⟨hne, ht⟩ := FileTree.find?_of_openForWriting hopen (hl f (mem_files_of_output hf) t)
    have hlast := hc (t₁, t₂) (by simp)
    rw [FileTree.find?_append_of_ne t₂ handle out hne.symm]
    exact hlast.trans (ht.trans (ih fun c hmem => hc c (List.mem_append_left _ hmem)))
  | removed h hf hunlink ih =>
    exact (FileTree.find?_of_unlink hunlink (hl _ hf _)).trans (ih hc)

/-- Each change is that of a program that the pipeline starts. -/
theorem Course.runs {changes : List (FileTree × FileTree)} {t : FileTree}
    (h : p.Course m changes t) : ∀ c ∈ changes, ∃ out, p.Runs m c.1 c.2 out := by
  induction h with
  | start => exact nofun
  | ran h hrun ih =>
    intro c hc
    rcases List.mem_append.1 hc with hc | hc
    · exact ih c hc
    · rw [List.mem_singleton.1 hc]
      exact ⟨_, hrun⟩
  | emptied h hf hopen ih => exact ih
  | filled h hf hopen hrun ih =>
    intro c hc
    rcases List.mem_append.1 hc with hc | hc
    · exact ih c hc
    · rw [List.mem_singleton.1 hc]
      exact ⟨_, hrun⟩
  | removed h hf hunlink ih => exact ih

variable (p m)

/-- A machine that a run of the pipeline on `m` can come to. -/
structure OnCourse (m' : Machine) : Prop where
  cwd : m'.cwd = m.cwd
  programs : m'.programs = m.programs
  openFiles : m'.journal.openFiles = []
  course : ∃ changes, p.Course m changes m'.tree

variable {p m}

namespace OnCourse
variable {m₁ m₂ : Machine}

/-- What has no bearing on files may change. -/
theorem congr (h : p.OnCourse m m₁) (hcwd : m₂.cwd = m₁.cwd) (hprog : m₂.programs = m₁.programs)
    (hjournal : m₂.journal = m₁.journal) (htree : m₂.tree = m₁.tree) : p.OnCourse m m₂ where
  cwd := hcwd.trans h.cwd
  programs := hprog.trans h.programs
  openFiles := hjournal ▸ h.openFiles
  course := htree ▸ h.course

theorem record (h : p.OnCourse m m₁) (e : Event) : p.OnCourse m (m₁.record e) :=
  h.congr rfl rfl rfl rfl

theorem afterLog (h : p.OnCourse m m₁) (logger operation : String) (level : Int)
    (message : String) : p.OnCourse m (m₁.afterLog logger operation level message) where
  cwd := h.cwd
  programs := h.programs
  openFiles := (Journal.openFiles_asked _ _ _).trans h.openFiles
  course := by
    have htakers : ∀ r, (m₁.journal.asked logger level).takers logger r = [] := by
      intro r
      rw [List.eq_nil_iff_forall_not_mem]
      intro f hf
      have hmem := Journal.mem_openFiles_of_mem_takers hf
      rw [Journal.openFiles_asked, h.openFiles] at hmem
      cases hmem
    have htree : (m₁.afterLog logger operation level message).tree = m₁.tree := by
      rw [Machine.afterLog, htakers]
      rfl
    rw [htree]
    exact h.course

end OnCourse

/-! ## Work on the machine -/

theorem keeps_log (logger operation : String) (level : Int) (message : String) :
    Keeps (p.OnCourse m) (log logger operation level message) := by
  intro m₁ h
  rw [log_eq]
  exact h.afterLog _ _ _ _

theorem keeps_emit (e : Event) : Keeps (p.OnCourse m) (emit e) := fun _ h => h.record e

theorem keeps_unlink {f : Path} (hf : f ∈ p.files.all) : Keeps (p.OnCourse m) (unlink f) := by
  intro m₁ h
  unfold unlink
  rw [bind_of_ok (get_apply m₁)]
  cases hu : m₁.tree.unlink m₁.cwd f.toString with
  | ok t =>
    obtain ⟨changes, hc⟩ := h.course
    rw [h.cwd] at hu
    exact ⟨h.cwd, h.programs, h.openFiles, changes, hc.removed hf hu⟩
  | error fault => exact h.record _

theorem keeps_remove {f : Path} (hf : f ∈ p.files.all) : Keeps (p.OnCourse m) (remove f) :=
  (keeps_log _ _ _ _).bind fun _ => Keeps.wrapSystemError _ (keeps_unlink hf)

theorem keeps_discard {f : Path} (hf : f ∈ p.files.all) : Keeps (p.OnCourse m) (discard f) := by
  apply (keeps_log _ _ _ _).bind
  intro _
  apply (keeps_unlink hf).tryCatch
  intro s
  cases s with
  | system e => exact keeps_log _ _ _ _
  | _ => exact Keeps.throw _

/-- A program that does not run leaves the files as they are. One that runs may change them, and what
it wrote is given back if it ends on its own. -/
theorem runProgram_ends (program : String) (arguments : List String) (m₁ : Machine) :
    (∃ s m₂, runProgram program arguments m₁ = .error s m₂ ∧ m₂.cwd = m₁.cwd ∧
      m₂.programs = m₁.programs ∧ m₂.journal = m₁.journal ∧ m₂.tree = m₁.tree) ∨
    ∃ t out err ending, m₁.programs (baseName program) (m₁.turns (baseName program))
        ⟨m₁.cwd, program, arguments⟩ m₁.tree = .ran t out err ending ∧
      ∃ m₂, m₂.cwd = m₁.cwd ∧ m₂.programs = m₁.programs ∧ m₂.journal = m₁.journal ∧ m₂.tree = t ∧
        ((∃ s, runProgram program arguments m₁ = .error s m₂) ∨
          ∃ status, runProgram program arguments m₁ = .ok ⟨status, out, err⟩ m₂) := by
  unfold runProgram
  rw [bind_of_ok (get_apply m₁)]
  cases hl : locateCommand m₁ program arguments with
  | error s => exact Or.inl ⟨s, _, rfl, rfl, rfl, rfl, rfl⟩
  | ok file =>
    simp only
    rw [bind_of_ok (set_apply _ _)]
    cases hp : m₁.programs (baseName program) (m₁.turns (baseName program))
      ⟨m₁.cwd, program, arguments⟩ m₁.tree with
    | refused e => exact Or.inl ⟨_, _, rfl, rfl, rfl, rfl, rfl⟩
    | ran t out err ending =>
      let m₂ : Machine := { m₁.countTurn program with
        tree := t, trace := m₁.trace ++ [.ran ⟨file, program :: arguments, out, err, ending⟩] }
      refine Or.inr ⟨t, out, err, ending, rfl, m₂, rfl, rfl, rfl, rfl, ?_⟩
      cases ending with
      | exited status => exact Or.inr ⟨status, rfl⟩
      | interrupted => exact Or.inl ⟨_, rfl⟩
      | nulByte => exact Or.inl ⟨_, rfl⟩

/-- An output is not made ready, is no file, or is a file that was opened and emptied. -/
theorem prepare_ends (output : Output) (m₁ : Machine) :
    (∃ s, output.prepare m₁ = .error s m₁) ∨
    (∃ d, output.prepare m₁ = .ok d m₁ ∧ ∀ handle, d ≠ .file handle) ∨
    ∃ f handle m₂, output = .file f ∧ output.prepare m₁ = .ok (.file handle) m₂ ∧
      openForWriting f.toString .truncate m₁ = .ok handle m₂ := by
  cases output with
  | shared => exact Or.inr (Or.inl ⟨.shared, rfl, nofun⟩)
  | discarded => exact Or.inr (Or.inl ⟨.nowhere, rfl, nofun⟩)
  | file f =>
    cases ho : openForWriting f.toString .truncate m₁ with
    | error s m₂ =>
      obtain ⟨-, rfl⟩ := openForWriting_eq_error ho
      exact Or.inl ⟨s, bind_of_error ho⟩
    | ok handle m₂ => exact Or.inr (Or.inr ⟨f, handle, m₂, rfl, bind_of_ok ho, ho⟩)

section Commands
variable {program : String} {arguments : List String}
  (hcommand : program :: arguments ∈ p.turns.map (·.command))
include hcommand

theorem runs_of_ran {m₁ : Machine} (hcwd : m₁.cwd = m.cwd) (hprograms : m₁.programs = m.programs)
    {turn : Nat} {t t' : FileTree} {out err : String} {ending : Ending}
    (h : m₁.programs (baseName program) turn ⟨m₁.cwd, program, arguments⟩ t =
      .ran t' out err ending) : p.Runs m t t' out := by
  rw [hcwd, hprograms] at h
  exact ⟨program, arguments, _, err, ending, hcommand, h⟩

theorem keeps_runProgram : Keeps (p.OnCourse m) (runProgram program arguments) := by
  intro m₁ h
  rcases runProgram_ends program arguments m₁ with ⟨s, m₂, hr, hc, hp, hj, ht⟩ | hran
  · rw [hr]
    exact h.congr hc hp hj ht
  · obtain ⟨t, out, err, ending, hran, m₂, hc, hp, hj, ht, hr⟩ := hran
    obtain ⟨changes, hcourse⟩ := h.course
    have hm₂ : p.OnCourse m m₂ := by
      refine ⟨hc.trans h.cwd, hp.trans h.programs, hj ▸ h.openFiles, ?_⟩
      rw [ht]
      exact ⟨_, hcourse.ran (runs_of_ran hcommand h.cwd h.programs hran)⟩
    rcases hr with ⟨s, hr⟩ | ⟨status, hr⟩ <;> rw [hr] <;> exact hm₂

theorem keeps_capture : Keeps (p.OnCourse m) (capture program arguments) :=
  (keeps_runProgram hcommand).bind fun _ => Keeps.pure _

/-- With its output sent to the listing or the source, a program fills that file. -/
theorem keeps_filled {f : Path} (hf : f = p.files.listing ∨ f = p.files.source) {m₁ m₂ : Machine}
    {handle : Handle} (h : p.OnCourse m m₁)
    (ho : openForWriting f.toString .truncate m₁ = .ok handle m₂) :
    p.OnCourse m (endState (execute program arguments (.file handle) m₂)) := by
  obtain ⟨-, t₁, hopen, rfl⟩ := openForWriting_eq_ok ho
  obtain ⟨changes, hcourse⟩ := h.course
  rw [h.cwd] at hopen
  have hempty := hcourse.emptied hf hopen
  unfold execute
  rcases runProgram_ends program arguments { m₁ with
    tree := t₁, trace := m₁.trace ++ [.opened f.toString] } with ⟨s, m₂, hr, hc, hp, hj, ht⟩ | hran
  · rw [bind_of_error hr]
    exact ⟨hc.trans h.cwd, hp.trans h.programs, hj ▸ h.openFiles, changes, ht ▸ hempty⟩
  · obtain ⟨t, out, err, ending, hran, m₂, hc, hp, hj, rfl, hr⟩ := hran
    have hruns : p.Runs m t₁ m₂.tree out := runs_of_ran hcommand h.cwd h.programs hran
    have hcwd := hc.trans h.cwd
    have hprograms := hp.trans h.programs
    have hfiles : m₂.journal.openFiles = [] := hj ▸ h.openFiles
    rcases hr with ⟨s, hr⟩ | ⟨status, hr⟩
    · rw [bind_of_error hr]
      exact ⟨hcwd, hprograms, hfiles, _, hempty.ran hruns⟩
    · rw [bind_of_ok hr]
      exact ⟨hcwd, hprograms, hfiles, _, hcourse.filled hf hopen hruns⟩

/-- With its output sent elsewhere, a program writes to no file of the pipeline. -/
theorem keeps_execute {destination : Destination} (hd : ∀ handle, destination ≠ .file handle) :
    Keeps (p.OnCourse m) (execute program arguments destination) := by
  apply (keeps_runProgram hcommand).bind
  intro c
  have hdeliver : Keeps (p.OnCourse m) (deliver c.out destination) := by
    cases destination with
    | file handle => exact absurd rfl (hd handle)
    | nowhere => exact Keeps.pure _
    | shared => exact keeps_emit _
  exact hdeliver.bind fun _ => (keeps_emit _).bind fun _ => Keeps.pure _

theorem keeps_redirected {output : Output}
    (hout : ∀ f, output = .file f → f = p.files.listing ∨ f = p.files.source) :
    Keeps (p.OnCourse m) (do
      let destination ← tryCatch output.prepare (failToStart (program :: arguments))
      execute program arguments destination : MachineM Int) := by
  intro m₁ h
  rcases prepare_ends output m₁ with ⟨s, hp⟩ | ⟨d, hp, hd⟩ | ⟨f, handle, m₂, hf, hp, ho⟩
  · have hc : tryCatch output.prepare (failToStart (program :: arguments)) m₁ =
        .error s (m₁.record (.notStarted (program :: arguments) s)) := by
      rw [tryCatch_of_error hp]
      rfl
    rw [bind_of_error hc]
    exact h.record _
  · have hc : tryCatch output.prepare (failToStart (program :: arguments)) m₁ = .ok d m₁ :=
      tryCatch_of_ok hp
    rw [bind_of_ok hc]
    exact keeps_execute hcommand hd m₁ h
  · have hc : tryCatch output.prepare (failToStart (program :: arguments)) m₁ =
        .ok (.file handle) m₂ := tryCatch_of_ok hp
    rw [bind_of_ok hc]
    exact keeps_filled hcommand (hout f hf) h ho

end Commands

/-! ## Tools -/

theorem keeps_withTool {role : String} {f : Tool → MachineM α}
    (h : ∀ tool, p.toolchain.tool? role = some tool → Keeps (p.OnCourse m) (f tool)) :
    Keeps (p.OnCourse m) (do f (← p.toolchain.tool role)) := by
  intro m₁ h₁
  cases ht : p.toolchain.tool? role with
  | none =>
    rw [bind_of_error (p.toolchain.tool_of_none ht m₁)]
    exact h₁
  | some tool =>
    rw [bind_of_ok (p.toolchain.tool_of_some ht m₁)]
    exact h tool ht m₁ h₁

theorem keeps_run (stage : String) {role : String} {arguments : List String} {output : Output}
    (hcommand : p.toolchain.command role arguments ∈ p.turns.map (·.command))
    (hout : ∀ f, output = .file f → f = p.files.listing ∨ f = p.files.source) :
    Keeps (p.OnCourse m) (p.toolchain.run stage role arguments output) := by
  apply keeps_withTool
  intro tool ht
  rw [p.toolchain.command_of_some ht] at hcommand
  apply (keeps_log _ _ _ _).bind
  intro _
  apply (Keeps.wrapSystemError _ (keeps_redirected hcommand hout)).bind
  exact fun status => Keeps.ite (Keeps.throw _) (Keeps.pure _)

theorem keeps_checksum {path : Path} (hpath : p.checksumTurn path ∈ p.turns) :
    Keeps (p.OnCourse m) (p.toolchain.checksum path) := by
  have hcommand : p.toolchain.command Tool.checksum.role [path.toString] ∈
      p.turns.map (·.command) := List.mem_map.2 ⟨_, hpath, rfl⟩
  apply keeps_withTool
  intro tool ht
  rw [p.toolchain.command_of_some ht] at hcommand
  apply (keeps_log _ _ _ _).bind
  intro _
  apply (Keeps.wrapSystemError _ (keeps_capture hcommand)).bind
  intro answer
  split
  · exact Keeps.ite ((Keeps.throw _).bind fun _ => Keeps.pure _) (Keeps.pure _)
  · exact Keeps.ite ((Keeps.throw _).bind fun _ => Keeps.throw _) (Keeps.throw _)

/-! ## The conduct of the pipeline -/

variable (p m) in
/-- A machine on course, and nothing pending but artifacts. -/
def AtWork (w : Workplace (List Path)) : Prop :=
  p.OnCourse m w.machine ∧ ∀ f ∈ w.own, f ∈ p.files.all

theorem keeps_compare : Keeps (p.OnCourse m) p.compare := by
  have himage : p.checksumTurn p.plan.image ∈ p.turns := by simp [turns]
  have hrebuilt : p.checksumTurn p.files.rebuilt ∈ p.turns := by simp [turns]
  exact (keeps_checksum himage).bind fun _ => (keeps_checksum hrebuilt).bind fun _ =>
    (keeps_emit _).bind fun _ => (keeps_emit _).bind fun _ => Keeps.pure _

theorem keeps_kept : Keeps (p.OnCourse m) p.kept := by
  intro m₁ h
  rcases p.kept_cases m₁ with ⟨here, hk, -⟩ | ⟨s, hk, -⟩ <;> rw [hk] <;> exact h

theorem keeps_judge (image rebuilt : Checksum) :
    Keeps (p.OnCourse m) (p.judge image rebuilt) :=
  keeps_kept.bind fun _ => Keeps.ite ((keeps_emit _).bind fun _ => Keeps.pure _) (Keeps.throw _)

theorem conduct : p.Conduct (p.OnCourse m) fun _ _ => True where
  starts s hs := by
    have hcommand : p.toolchain.command s.role s.arguments ∈ p.turns.map (·.command) := by
      have hturn : p.turnOf s ∈ p.turns := List.mem_append_left _ (List.mem_map_of_mem hs)
      exact List.mem_map.2 ⟨_, hturn, rfl⟩
    have houtput : ∀ s ∈ p.work, ∀ f, s.output = .file f →
        f = p.files.listing ∨ f = p.files.source := by
      simp [work, disassembly, postprocessing, reassembly, conversion]
    exact .of_keeps ((keeps_log _ _ _ _).bind fun _ => keeps_run s.name hcommand (houtput s hs))
  removes _ hf := .of_keeps (keeps_remove hf)
  discards _ hf := .of_keeps (keeps_discard hf)
  compares := .of_keeps keeps_compare
  judges image rebuilt := .of_keeps (keeps_judge image rebuilt)

theorem keeps_whole : Keeps (p.AtWork m) p.run := (conduct.run fun _ _ _ => trivial).keeps

/-! ## The whole run -/

/-- With no log file open, a fresh run takes the files on such a course, however it ends. The image
never lies where an artifact does, and a place apart from the artifacts that no program of the run
changes holds afterwards what it held before. -/
theorem runFresh_frame (hlog : m.journal.openFiles = []) :
    ∃ changes, p.Course m changes (endState (p.runFresh m)).tree ∧
      (∀ (t : FileTree) (target : Target),
        t.resolve m.cwd p.plan.image.toString = .ok target → p.Apart m target.location) ∧
      ∀ l, p.Apart m l → (∀ c ∈ changes, c.2.find? l = c.1.find? l) →
        (endState (p.runFresh m)).tree.find? l = m.tree.find? l := by
  have hstart : p.AtWork m ⟨m, []⟩ := ⟨⟨rfl, rfl, hlog, [], .start⟩, nofun⟩
  obtain ⟨⟨-, -, -, changes, hcourse⟩, -⟩ := keeps_whole ⟨m, []⟩ hstart
  have hend : endState (p.runFresh m) = (endState (p.run ⟨m, []⟩)).machine := by
    unfold runFresh startWith
    cases p.run ⟨m, []⟩ <;> rfl
  rw [hend]
  refine ⟨changes, hcourse, ?_, fun l hl hc => hcourse.find?_eq hl hc⟩
  intro t target h f hf t' target' h'
  exact (FileTree.location_ne_of_artifact hf h h').symm

theorem runFresh_frame_stuckListing :
    (stuckListing 0).journal.openFiles = [] ∧
      (endState (plainAudit.runFresh (stuckListing 0))).tree.find? ["fw.bin", "work"] =
        some (.file (.plain "FIRMWARE")) := by
  have hlog : (stuckListing 0).journal.openFiles = [] := rfl
  obtain ⟨changes, hcourse, himage, hframe⟩ := runFresh_frame (p := plainAudit) hlog
  have hresolve : (stuckListing 0).tree.resolve (stuckListing 0).cwd
      plainAudit.plan.image.toString =
        .ok (.node ["fw.bin", "work"] (.file (.plain "FIRMWARE"))) := rfl
  -- The programs of that machine change nothing.
  have hsame : ∀ c ∈ changes, c.2.find? ["fw.bin", "work"] = c.1.find? ["fw.bin", "work"] := by
    intro c hc
    obtain ⟨out, program, arguments, turn, err, ending, -, hrun⟩ := hcourse.runs c hc
    have hran : Start.ran c.1 "" "" _ = Start.ran c.2 out err ending := hrun
    rw [(Start.ran.inj hran).1]
  exact ⟨hlog, (hframe _ (himage _ _ hresolve) hsame).trans rfl⟩

end Pipeline

end FirmwareAudit
