import FirmwareAudit.Proofs.BeforePipeline
import FirmwareAudit.Proofs.Commands
import FirmwareAudit.Proofs.Conduct
import FirmwareAudit.Proofs.StaleFiles
import FirmwareAudit.Proofs.ToolSearch

/-! # Which errors leave an audit

An audit ends in a verdict or in a fault, with three exceptions: an interrupt goes through, a NUL byte
in a text that the system has to take is no fault, and the last look at the artifacts that are kept
may meet an error of the system that nothing turns into a fault.
-/
namespace FirmwareAudit
open Text

/-- A machine in the course of an audit: the search path is the one from the start, and the trace has
not lost anything since. -/
structure Underway (searchPath : Option String) (start : Nat) (m : Machine) : Prop where
  searchPath_eq : m.searchPath = searchPath
  start_le : start ≤ m.trace.length

namespace Underway
variable {searchPath : Option String} {start : Nat} {m m' : Machine}

theorem step (h : Underway searchPath start m) (hpath : m'.searchPath = m.searchPath)
    (htrace : ∃ es, m'.trace = m.trace ++ es) : Underway searchPath start m' := by
  obtain ⟨es, ht⟩ := htrace
  refine ⟨hpath.trans h.searchPath_eq, Nat.le_trans h.start_le ?_⟩
  rw [ht, List.length_append]
  exact Nat.le_add_right _ _

theorem record (h : Underway searchPath start m) (e : Event) :
    Underway searchPath start (m.record e) :=
  h.step rfl ⟨[e], rfl⟩

theorem afterLog (h : Underway searchPath start m) (logger operation : String) (level : Int)
    (message : String) : Underway searchPath start (m.afterLog logger operation level message) :=
  h.step rfl ⟨_, rfl⟩

/-- An event that comes behind is one since the start. -/
theorem mem_record (h : Underway searchPath start m) (e : Event) :
    e ∈ (m.record e).trace.drop start := by
  have hdrop : (m.record e).trace.drop start = m.trace.drop start ++ [e] :=
    List.drop_append_of_le_length h.start_le
  rw [hdrop]
  exact List.mem_append_right _ List.mem_cons_self

end Underway

/-- What accounts for a stop: it is a fault or an interrupt; a text has a NUL byte, or a run since the
start broke off at one; or it is such a system error as is allowed. -/
inductive Excused (nul : Prop) (start : Nat) (allowed : SystemError → Machine → Prop) :
    Stop → Machine → Prop
  | fault (f : Fault) (m : Machine) : Excused nul start allowed (.fault f) m
  | interrupted (m : Machine) : Excused nul start allowed .interrupted m
  | text (m : Machine) (h : nul) : Excused nul start allowed .nulByte m
  | broken (m : Machine) (r : Run) (hr : .ran r ∈ m.trace.drop start) (hend : r.ending = .nulByte) :
      Excused nul start allowed .nulByte m
  | system (m : Machine) (e : SystemError) (h : allowed e m) : Excused nul start allowed (.system e) m

/-- Any system error. -/
def AnyError : SystemError → Machine → Prop := fun _ _ => True

section Acts
variable {searchPath : Option String} {nul : Prop} {start : Nat}
  {allowed : SystemError → Machine → Prop}

theorem Excused.record {s : Stop} {m : Machine} (h : Excused nul start AnyError s m) (e : Event) :
    Excused nul start AnyError s (m.record e) := by
  cases h with
  | fault f m => exact .fault f _
  | interrupted m => exact .interrupted _
  | text m h => exact .text _ h
  | broken m r hr hend =>
    refine .broken _ r ?_ hend
    rw [Machine.record, List.drop_append]
    exact List.mem_append_left _ hr
  | system m e' h => exact .system _ e' trivial

/-- What accounts for a stop that is no system error does so whatever errors are allowed. -/
theorem Excused.of_ne_system {s : Stop} {m : Machine} (h : Excused nul start AnyError s m)
    (hs : ∀ e, s ≠ .system e) : Excused nul start allowed s m := by
  cases h with
  | fault f m => exact .fault f m
  | interrupted m => exact .interrupted m
  | text m h => exact .text m h
  | broken m r hr hend => exact .broken m r hr hend
  | system m e h => exact absurd rfl (hs e)

theorem excused_of_isCallFault {s : Stop} (h : s.IsCallFault) (hnul : s = .nulByte → nul)
    (m : Machine) : Excused nul start AnyError s m := by
  rcases h with rfl | ⟨e, rfl⟩
  · exact .text m (hnul rfl)
  · exact .system m e trivial

variable (searchPath nul start allowed) in
/-- The act is accounted for, however it ends. -/
abbrev Lawful (act : MachineM α) : Prop :=
  Abides (Underway searchPath start) (Excused nul start allowed) act

theorem lawful_log (logger operation : String) (level : Int) (message : String) :
    Lawful searchPath nul start allowed (log logger operation level message) := by
  refine .of_ok (fun m h => ?_) fun m => by rw [log_eq]; rfl
  rw [log_eq]
  exact h.afterLog _ _ _ _

theorem lawful_emit (e : Event) : Lawful searchPath nul start allowed (emit e) :=
  .of_ok (fun _ h => h.record e) fun _ => rfl

theorem lawful_fault (f : Fault) :
    Lawful searchPath nul start allowed (throw (.fault f) : MachineM α) :=
  .throw fun m _ => .fault f m

theorem lawful_unlink {path : Path} (hpath : has '\x00' path.toString = true → nul) :
    Lawful searchPath nul start AnyError (unlink path) := by
  intro m h
  apply AbidesAt.after (get_apply m)
  cases hu : m.tree.unlink m.cwd path.toString with
  | ok t => exact .of_eq_ok rfl (h.step rfl ⟨[.unlinked path.toString none], rfl⟩)
  | error fault =>
    let s := Stop.ofCall path.toString fault
    refine .of_eq_error rfl (h.record (.unlinked path.toString (some s))) ?_
    refine excused_of_isCallFault (Stop.isCallFault_ofCall _ _) (fun hnul => hpath ?_) _
    cases fault with
    | errno e => exact Stop.noConfusion hnul
    | nulByte =>
      by_contra hno
      exact m.tree.unlink_ne_nulByte m.cwd (Bool.eq_false_iff.2 hno) hu

theorem lawful_wrapped {act : MachineM α} (toFault : SystemError → Fault)
    (h : Lawful searchPath nul start AnyError act) :
    Lawful searchPath nul start allowed (wrapSystemError toFault act) := by
  apply h.tryCatch
  intro s m hm hs
  cases s with
  | system e => exact .throw hm (.fault _ m)
  | _ => exact .throw hm (hs.of_ne_system nofun)

/-! ## Programs -/

theorem lawful_failToStart (command : List String) {s : Stop} {m : Machine}
    (hm : Underway searchPath start m) (hs : Excused nul start AnyError s m) :
    AbidesAt (Underway searchPath start) (Excused nul start AnyError)
      (failToStart command s : MachineM α) m :=
  .of_eq_error rfl (hm.record (.notStarted command s)) (hs.record _)

/-- What has a NUL byte, where nothing of the command has one, is the search path. -/
theorem locateCommand_ne_nulByte {m : Machine} {program : String} {arguments : List String}
    (hpath : ∀ s, m.searchPath = some s → has '\x00' s = false)
    (hwords : ∀ w ∈ program :: arguments, has '\x00' w = false) :
    locateCommand m program arguments ≠ .error .nulByte := by
  have hany : (program :: arguments).any (has '\x00') = false := by
    rw [List.any_eq_false]
    exact fun w hw => by simp [hwords w hw]
  have hne := resolveProgram_ne_nulByte hpath (hwords _ List.mem_cons_self) m.tree m.cwd
  unfold locateCommand
  rw [if_neg (by simp [hany])]
  cases hr : resolveProgram m.tree m.cwd m.searchPath program with
  | ok file => nofun
  | error fault =>
    cases fault with
    | errno e => nofun
    | nulByte => exact absurd hr hne

theorem lawful_runProgram (hpath : ∀ s, searchPath = some s → has '\x00' s = true → nul)
    {program : String} {arguments : List String}
    (hwords : ∀ w ∈ program :: arguments, has '\x00' w = true → nul) :
    Lawful searchPath nul start AnyError (runProgram program arguments) := by
  intro m hm
  apply AbidesAt.after (get_apply m)
  cases hl : locateCommand m program arguments with
  | error s =>
    refine lawful_failToStart _ hm (excused_of_isCallFault (locateCommand_eq_error hl) ?_ m)
    rintro rfl
    by_contra hno
    refine locateCommand_ne_nulByte (fun s hs => ?_) (fun w hw => ?_) hl
    · exact Bool.eq_false_iff.2 fun h => hno (hpath s (hm.searchPath_eq ▸ hs) h)
    · exact Bool.eq_false_iff.2 fun h => hno (hwords w hw h)
  | ok file =>
    apply AbidesAt.after (set_apply _ _)
    have hfound : Underway searchPath start (m.countTurn program) :=
      hm.step rfl ⟨[], (List.append_nil _).symm⟩
    cases hp : m.programs (baseName program) (m.turns (baseName program))
      ⟨m.cwd, program, arguments⟩ m.tree with
    | refused e => exact lawful_failToStart _ hfound (.system _ _ trivial)
    | ran t out err ending =>
      let r : Run := ⟨file, program :: arguments, out, err, ending⟩
      let m' : Machine := { m.countTurn program with tree := t }
      have hm' : Underway searchPath start m' := hfound.step rfl ⟨[], (List.append_nil _).symm⟩
      have hends := hm'.record (.ran r)
      have hmem := hm'.mem_record (.ran r)
      cases ending with
      | exited status => exact .of_eq_ok rfl hends
      | interrupted => exact .of_eq_error rfl hends (.interrupted _)
      | nulByte => exact .of_eq_error rfl hends (.broken _ r hmem rfl)

theorem lawful_capture (hpath : ∀ s, searchPath = some s → has '\x00' s = true → nul)
    {program : String} {arguments : List String}
    (hwords : ∀ w ∈ program :: arguments, has '\x00' w = true → nul) :
    Lawful searchPath nul start AnyError (capture program arguments) :=
  (lawful_runProgram hpath hwords).bind fun _ => .pure _

theorem lawful_deliver (text : String) (destination : Destination) :
    Lawful searchPath nul start allowed (deliver text destination) := by
  refine .of_ok (fun m h => ?_) fun m => by cases destination <;> rfl
  cases destination with
  | file handle => exact h.step rfl ⟨[], (List.append_nil _).symm⟩
  | nowhere => exact h
  | shared => exact h.record _

theorem lawful_execute (hpath : ∀ s, searchPath = some s → has '\x00' s = true → nul)
    {program : String} {arguments : List String}
    (hwords : ∀ w ∈ program :: arguments, has '\x00' w = true → nul) (destination : Destination) :
    Lawful searchPath nul start AnyError (execute program arguments destination) :=
  (lawful_runProgram hpath hwords).bind fun _ => (lawful_deliver _ _).bind fun _ =>
    (lawful_emit _).bind fun _ => .pure _

theorem lawful_openForWriting {path : String} (hpath : has '\x00' path = true → nul)
    (mode : FileTree.WriteMode) :
    Lawful searchPath nul start AnyError (openForWriting path mode) := by
  intro m h
  cases ho : openForWriting path mode m with
  | ok handle m' =>
    obtain ⟨-, t, -, rfl⟩ := openForWriting_eq_ok ho
    exact .of_eq_ok ho (h.step rfl ⟨[.opened path], rfl⟩)
  | error s m' =>
    obtain ⟨hs, rfl⟩ := openForWriting_eq_error ho
    refine .of_eq_error ho h ?_
    refine excused_of_isCallFault hs ?_ m'
    rintro rfl
    by_contra hno
    exact openForWriting_ne_nulByte (Bool.eq_false_iff.2 fun hnul => hno (hpath hnul)) ho

theorem lawful_prepare {output : Output}
    (hout : ∀ f, output = .file f → has '\x00' f.toString = true → nul) :
    Lawful searchPath nul start AnyError output.prepare := by
  cases output with
  | shared => exact .pure _
  | discarded => exact .pure _
  | file f => exact (lawful_openForWriting (hout f rfl) _).bind fun _ => .pure _

/-! ## Tools -/

theorem lawful_tool {tc : Toolchain} {role : String} {tool : Tool} (h : tc.tool? role = some tool)
    {f : Tool → MachineM α} (hf : Lawful searchPath nul start allowed (f tool)) :
    Lawful searchPath nul start allowed (do f (← tc.tool role)) := by
  intro m hm
  exact .after (tc.tool_of_some h m) (hf m hm)

theorem lawful_run (hpath : ∀ s, searchPath = some s → has '\x00' s = true → nul) {tc : Toolchain}
    {stage role : String} {tool : Tool} (htool : tc.tool? role = some tool)
    {arguments : List String} {output : Output}
    (hwords : ∀ w ∈ tool.program :: arguments, has '\x00' w = true → nul)
    (hout : ∀ f, output = .file f → has '\x00' f.toString = true → nul) :
    Lawful searchPath nul start allowed (tc.run stage role arguments output) := by
  apply lawful_tool htool
  apply (lawful_log _ _ _ _).bind
  intro _
  have hprepare : Lawful searchPath nul start AnyError
      (tryCatch output.prepare (failToStart (tool.program :: arguments))) :=
    (lawful_prepare hout).tryCatch fun _ _ hm hs => lawful_failToStart _ hm hs
  have hcommand := hprepare.bind fun destination => lawful_execute hpath hwords destination
  exact (lawful_wrapped _ hcommand).bind fun status => .ite (lawful_fault _) (.pure _)

theorem lawful_checksum (hpath : ∀ s, searchPath = some s → has '\x00' s = true → nul)
    {tc : Toolchain} {tool : Tool} (htool : tc.tool? Tool.checksum.role = some tool) {path : Path}
    (hwords : ∀ w ∈ [tool.program, path.toString], has '\x00' w = true → nul) :
    Lawful searchPath nul start allowed (tc.checksum path) := by
  apply lawful_tool htool
  apply (lawful_log _ _ _ _).bind
  intro _
  apply (lawful_wrapped _ (lawful_capture hpath hwords)).bind
  intro answer
  split
  · exact .ite ((lawful_fault _).bind fun _ => .pure _) (.pure _)
  · exact .ite ((lawful_fault _).bind fun _ => lawful_fault _) (lawful_fault _)

/-! ## Temporary files -/

theorem lawful_remove {f : Path} (hf : has '\x00' f.toString = true → nul) :
    Lawful searchPath nul start allowed (Pipeline.remove f) :=
  (lawful_log _ _ _ _).bind fun _ => lawful_wrapped _ (lawful_unlink hf)

theorem lawful_discard {f : Path} (hf : has '\x00' f.toString = true → nul) :
    Lawful searchPath nul start allowed (Pipeline.discard f) := by
  apply (lawful_log _ _ _ _).bind
  intro _
  apply (lawful_unlink hf).tryCatch
  intro s m hm hs
  cases s with
  | system e => exact lawful_log _ _ _ _ m hm
  | _ => exact .throw hm (hs.of_ne_system nofun)

end Acts

namespace Pipeline
variable (p : Pipeline)

/-- The last look met the error at one of the artifacts that are to be kept. -/
def ScanFailed (e : SystemError) (m : Machine) : Prop :=
  p.plan.keepTemps = true ∧ ∃ f ∈ p.files.all, e.path = some f.toString ∧
    m.tree.probe m.cwd f.toString = .error e.errno

theorem pathExists_eq_error {path : Path} {s : Stop} {m m' : Machine}
    (h : pathExists path m = .error s m') :
    m' = m ∧ ∃ e, s = .system ⟨e, some path.toString⟩ ∧
      m.tree.probe m.cwd path.toString = .error e := by
  unfold pathExists nodeAt at h
  rw [bind_eq_error] at h
  rcases h with h | ⟨n, m₁, -, h⟩
  · rw [bind_of_ok (get_apply m)] at h
    cases hp : m.tree.probe m.cwd path.toString with
    | ok n =>
      rw [hp] at h
      cases h
    | error e =>
      rw [hp] at h
      cases h
      exact ⟨rfl, e, rfl, rfl⟩
  · cases h

theorem existing_eq_error {paths : List Path} {s : Stop} {m m' : Machine}
    (h : existing paths m = .error s m') :
    m' = m ∧ ∃ f ∈ paths, ∃ e, s = .system ⟨e, some f.toString⟩ ∧
      m.tree.probe m.cwd f.toString = .error e := by
  induction paths with
  | nil => cases h
  | cons path rest ih =>
    unfold existing at h
    rw [bind_eq_error] at h
    rcases h with h | ⟨here, m₁, hhere, h⟩
    · obtain ⟨hm, e, hs, hp⟩ := pathExists_eq_error h
      exact ⟨hm, path, List.mem_cons_self, e, hs, hp⟩
    · obtain rfl : m₁ = m := by
        rcases pathExists_cases path m with ⟨n, -, hp⟩ | ⟨s', -, -, hp⟩
        · rw [hp] at hhere
          cases hhere
          rfl
        · rw [hp] at hhere
          cases hhere
      rw [bind_eq_error] at h
      rcases h with h | ⟨others, m₂, -, h⟩
      · obtain ⟨hm, f, hf, e, hs, hp⟩ := ih h
        exact ⟨hm, f, List.mem_cons_of_mem _ hf, e, hs, hp⟩
      · cases h

section Lawfulness
variable {searchPath : Option String} {nul : Prop} {start : Nat}

theorem lawful_kept : Lawful searchPath nul start p.ScanFailed p.kept := by
  intro m hm
  rcases p.kept_cases m with ⟨here, hk, -⟩ | ⟨s, hk, -, -⟩
  · exact .of_eq_ok hk hm
  · refine .of_eq_error hk hm ?_
    unfold kept at hk
    split at hk
    · next hkeep =>
      obtain ⟨-, f, hf, e, rfl, hp⟩ := existing_eq_error hk
      exact .system m _ ⟨hkeep, f, hf, rfl, hp⟩
    · cases hk

theorem lawful_judge (image rebuilt : Checksum) :
    Lawful searchPath nul start p.ScanFailed (p.judge image rebuilt) :=
  p.lawful_kept.bind fun _ => .ite ((lawful_emit _).bind fun _ => .pure _) (lawful_fault _)

variable {p}

section Words
variable (hplan : ¬ p.plan.NulFree → nul)
include hplan

theorem nul_of_mem {words : List String} (h : p.plan.NulFree → ∀ w ∈ words, has '\x00' w = false) :
    ∀ w ∈ words, has '\x00' w = true → nul := by
  intro w hw hnul
  refine hplan fun hfree => ?_
  rw [h hfree w hw] at hnul
  cases hnul

theorem nul_of_file {f : Path} (hf : f ∈ p.files.all) : has '\x00' f.toString = true → nul := by
  obtain ⟨e, he, rfl, -⟩ := Artifacts.toString_of_mem_all hf
  refine nul_of_mem hplan (fun hfree w hw => ?_) _ (List.mem_singleton_self _)
  rw [List.mem_singleton.1 hw]
  exact hfree.withEnding he

end Words

variable (htools : p.toolchain.tools = Tool.required)
  (hpath : ∀ s, searchPath = some s → has '\x00' s = true → nul) (hplan : ¬ p.plan.NulFree → nul)
include htools hpath hplan

theorem lawful_starts {s : Stage} (hs : s ∈ p.work) :
    Lawful searchPath nul start p.ScanFailed (do
      info s.name s.notice
      p.toolchain.run s.name s.role s.arguments s.output) := by
  have hprogram : ∀ tool ∈ Tool.required, has '\x00' tool.program = false := by decide
  have hstage : ∃ tool ∈ Tool.required, s.role = tool.role ∧
      (p.plan.NulFree → ∀ w ∈ s.arguments, has '\x00' w = false) ∧
      ∀ f, s.output = .file f → f ∈ p.files.all := by
    simp only [work, List.mem_cons, List.not_mem_nil, or_false] at hs
    rcases hs with rfl | rfl | rfl | rfl
    · refine ⟨Tool.disassembler, by decide, rfl, fun h => h.disassemblerArguments, fun f hf => ?_⟩
      cases hf
      simp [Artifacts.all]
    · refine ⟨Tool.postprocessor, by decide, rfl, fun h => h.postprocessorArguments, fun f hf => ?_⟩
      cases hf
      simp [Artifacts.all]
    · exact ⟨Tool.assembler, by decide, rfl, fun h => h.assemblerArguments, nofun⟩
    · exact ⟨Tool.converter, by decide, rfl, fun h => h.converterArguments, nofun⟩
  obtain ⟨tool, ht, hrole, hwords, hout⟩ := hstage
  have htool : p.toolchain.tool? s.role = some tool :=
    hrole ▸ p.toolchain.tool?_of_required htools ht
  apply (lawful_log _ _ _ _).bind
  intro _
  refine lawful_run hpath htool (nul_of_mem hplan fun h => ?_) fun f hf => nul_of_file hplan (hout f hf)
  exact List.forall_mem_cons.2 ⟨hprogram tool ht, hwords h⟩

theorem lawful_compare : Lawful searchPath nul start p.ScanFailed p.compare := by
  have htool : p.toolchain.tool? Tool.checksum.role = some Tool.checksum :=
    p.toolchain.tool?_of_required htools (by decide)
  have hprogram : has '\x00' Tool.checksum.program = false := by decide
  have himage : Lawful searchPath nul start p.ScanFailed (p.toolchain.checksum p.plan.image) := by
    refine lawful_checksum hpath htool (nul_of_mem hplan fun h => ?_)
    have hword : has '\x00' p.plan.image.toString = false := h _ (by simp [Plan.texts])
    simp [hprogram, hword]
  have hrebuilt : Lawful searchPath nul start p.ScanFailed
      (p.toolchain.checksum p.files.rebuilt) := by
    refine lawful_checksum hpath htool (nul_of_mem hplan fun h => ?_)
    have hword : has '\x00' p.files.rebuilt.toString = false :=
      h.withEnding (by decide)
    simp [hprogram, hword]
  exact himage.bind fun _ => hrebuilt.bind fun _ => (lawful_emit _).bind fun _ =>
    (lawful_emit _).bind fun _ => .pure _

theorem lawful_conduct :
    p.Conduct (Underway searchPath start) (Excused nul start p.ScanFailed) where
  starts _ hs := lawful_starts htools hpath hplan hs
  removes _ hf := lawful_remove (nul_of_file hplan hf)
  discards _ hf := lawful_discard (nul_of_file hplan hf)
  compares := lawful_compare htools hpath hplan
  judges := p.lawful_judge

end Lawfulness

end Pipeline

/-! ## Whole audits -/

/-- Finding the tools brings the toolchain's tools with it and only logs, or it misses one. -/
theorem Toolchain.ready_cases (w : Workplace Toolchain) :
    (∃ m' tc, ready w = .ok () ⟨m', tc⟩ ∧ tc.tools = w.own.tools ∧ w.machine.Looked m') ∨
    ∃ m' tool, tool ∈ w.own.tools ∧
      ready w = .error (.fault (.toolNotFound tool.program tool.hint)) ⟨m', w.own⟩ ∧
      w.machine.Looked m' := by
  unfold ready
  rw [bind_of_ok (get_apply w)]
  split
  · have hlooked := Tool.looked_locateAll w.own.tools w.machine (.refl _)
    cases hfind : Tool.locateAll w.own.tools w.machine with
    | ok found m' =>
      rw [hfind] at hlooked
      refine Or.inl ⟨m', { w.own with resolved := found }, ?_, rfl, hlooked⟩
      rw [bind_of_ok (preflight_of_ok hfind), pure_apply]
    | error s m' =>
      rw [hfind] at hlooked
      obtain ⟨tool, ht, rfl⟩ := Tool.stop_of_locateAll hfind
      refine Or.inr ⟨m', tool, ht, ?_, hlooked⟩
      rw [bind_of_error (preflight_of_error hfind)]
  · exact Or.inl ⟨w.machine, w.own, rfl, rfl, .refl _⟩

/-- What leaves an audit although it is no fault. -/
inductive Escapes (plan : Plan) (searchPath : Option String) (events : List Event) (m : Machine) :
    Stop → Prop
  | interrupt (h : Interrupted events) : Escapes plan searchPath events m .interrupted
  | nulText (s : String) (hs : s ∈ plan.texts ∨ searchPath = some s) (h : has '\x00' s = true) :
      Escapes plan searchPath events m .nulByte
  | nulRun (r : Run) (hr : .ran r ∈ events) (hend : r.ending = .nulByte) :
      Escapes plan searchPath events m .nulByte
  | scan (f : Path) (e : Errno) (hkeep : plan.keepTemps = true) (hf : f ∈ plan.artifacts.all)
      (hp : m.tree.probe m.cwd f.toString = .error e) :
      Escapes plan searchPath events m (.system ⟨e, some f.toString⟩)

theorem Escapes.behind {plan : Plan} {searchPath : Option String} {events : List Event} {m : Machine}
    {s : Stop} (h : Escapes plan searchPath events m s) (before : List Event) :
    Escapes plan searchPath (before ++ events) m s := by
  cases h with
  | interrupt h => exact .interrupt ((interrupted_append _ _).2 (Or.inr h))
  | nulText s hs h => exact .nulText s hs h
  | nulRun r hr hend => exact .nulRun r (List.mem_append_right _ hr) hend
  | scan f e hkeep hf hp => exact .scan f e hkeep hf hp

theorem Escapes.of_excused {p : Pipeline} {searchPath : Option String} {events : List Event}
    {start : List Event} {m : Machine} {s : Stop} (ht : m.trace = start ++ events)
    (hint : s = .interrupted ↔ Interrupted events)
    (h : Excused (∃ s, (s ∈ p.plan.texts ∨ searchPath = some s) ∧ has '\x00' s = true)
      start.length p.ScanFailed s m) :
    (∃ f, s = .fault f) ∨ Escapes p.plan searchPath events m s := by
  cases h with
  | fault f m => exact Or.inl ⟨f, rfl⟩
  | interrupted m => exact Or.inr (.interrupt (hint.1 rfl))
  | text m h =>
    obtain ⟨s, hs, hnul⟩ := h
    exact Or.inr (.nulText s hs hnul)
  | broken m r hr hend =>
    rw [ht, List.drop_left] at hr
    exact Or.inr (.nulRun r hr hend)
  | system m e h =>
    obtain ⟨hkeep, f, hf, hpath, hp⟩ := h
    obtain ⟨errno, path⟩ := e
    cases hpath
    exact Or.inr (.scan f errno hkeep hf hp)

theorem Pipeline.runFresh_ends {p : Pipeline} (htools : p.toolchain.tools = Tool.required)
    (m : Machine) :
    ∃ events, (endState (p.runFresh m)).trace = m.trace ++ events ∧
      (failure? (p.runFresh m) = some .interrupted ↔ Interrupted events) ∧
      ∀ s, failure? (p.runFresh m) = some s →
        (∃ f, s = .fault f) ∨ Escapes p.plan m.searchPath events (endState (p.runFresh m)) s := by
  obtain ⟨events, ht, hint, -⟩ := p.heeds_whole ⟨m, []⟩
  rw [false_or] at hint
  let nul : Prop := ∃ s, (s ∈ p.plan.texts ∨ m.searchPath = some s) ∧ has '\x00' s = true
  have hpath : ∀ s, m.searchPath = some s → has '\x00' s = true → nul :=
    fun s hs hnul => ⟨s, Or.inr hs, hnul⟩
  have hplan : ¬ p.plan.NulFree → nul := by
    intro h
    simp only [Plan.NulFree, not_forall, Bool.not_eq_false] at h
    obtain ⟨s, hs, hnul⟩ := h
    exact ⟨s, Or.inl hs, hnul⟩
  have hconduct : p.Conduct (Underway m.searchPath m.trace.length) (Excused nul _ p.ScanFailed) :=
    Pipeline.lawful_conduct htools hpath hplan
  have hstart : Pipeline.Conduct.OnWork p (Underway m.searchPath m.trace.length) ⟨m, []⟩ :=
    ⟨⟨rfl, Nat.le_refl _⟩, List.forall_mem_nil _⟩
  have hstop := (hconduct.run (fun f m _ => .fault f m) ⟨m, []⟩ hstart).2
  unfold Pipeline.runFresh
  cases hr : p.run ⟨m, []⟩ with
  | ok v w =>
    rw [hr] at ht hint
    rw [startWith_of_ok hr]
    refine ⟨events, ht, hint, fun s hs => ?_⟩
    cases hs
  | error s w =>
    rw [hr] at ht hint hstop
    rw [startWith_of_error hr]
    refine ⟨events, ht, hint, fun s' hs => ?_⟩
    cases hs
    refine Escapes.of_excused ht ?_ (hstop s rfl)
    rw [← hint]
    simp [failure?]

/-- What an audit with the usual tools ends in beside a verdict is a fault, save for this: it is
interrupted, exactly if one of its programs is; it meets a NUL byte in a text of the plan or in the
search path, or one of its programs breaks off at one; or it is to keep the artifacts, and the
question whether one of them is there fails. -/
theorem audit_ends (plan : Plan) {w : Workplace Toolchain} (htools : w.own.tools = Tool.required) :
    ∃ events, (endState (audit plan w)).machine.trace = w.machine.trace ++ events ∧
      (failure? (audit plan w) = some .interrupted ↔ Interrupted events) ∧
      ∀ s, failure? (audit plan w) = some s → (∃ f, s = .fault f) ∨
        Escapes plan w.machine.searchPath events (endState (audit plan w)).machine s := by
  unfold audit
  rcases Toolchain.ready_cases w with ⟨m, tc, hready, htc, hlooked⟩ | ⟨m, tool, -, hready, hlooked⟩
  · obtain ⟨before, hbefore, hattempts, -⟩ := hlooked.onlyLogs.silent
    have hnone := not_interrupted_of_runsOf (runsOf_of_attempts hattempts)
    let p : Pipeline := ⟨plan, tc, false⟩
    obtain ⟨events, ht, hint, hstop⟩ := p.runFresh_ends (htc.trans htools) m
    rw [bind_of_ok hready, bind_of_ok (get_apply _), failure?_onMachine, endState_onMachine]
    refine ⟨before ++ events, ?_, ?_, fun s hs => ?_⟩
    · rw [ht, hbefore, List.append_assoc]
    · rw [hint, interrupted_append, or_iff_right hnone]
    · rw [← hlooked.searchPath]
      exact (hstop s hs).imp id (·.behind before)
  · obtain ⟨events, ht, hattempts, -⟩ := hlooked.onlyLogs.silent
    rw [bind_of_error hready]
    refine ⟨events, ht, ?_, fun s hs => ?_⟩
    · simp [failure?, not_interrupted_of_runsOf (runsOf_of_attempts hattempts)]
    · cases hs
      exact Or.inl ⟨_, rfl⟩

/-! ## A directory that closes -/

/-- A machine on which all tools end well, and the checksum tool closes the working directory. -/
def closing : Machine :=
  { CommandLine.toolsOnly with
    programs := fun name _ _ t =>
      let closed : DirectoryNode := { DirectoryNode.plain with searchable := false }
      if name = "sha1sum" then
        .ran (t.set ["work"] (.directory closed)) "da39a3ee5e6b4b0d3255bfef95601890afd80709" ""
          (.exited 0)
      else .ran t "" "" (.exited 0) }

theorem failure?_audit_closing :
    failure? (audit Pipeline.savingAudit.plan ⟨closing, .standard⟩) =
      some (.system ⟨.accessDenied, some "fw.bin.raw.asm"⟩) := by
  decide +kernel

theorem audit_ends_closing :
    Toolchain.standard.tools = Tool.required ∧
      ∃ events, Escapes Pipeline.savingAudit.plan (some "/bin") events
        (endState (audit Pipeline.savingAudit.plan ⟨closing, .standard⟩)).machine
        (.system ⟨.accessDenied, some "fw.bin.raw.asm"⟩) := by
  obtain ⟨events, -, -, hstop⟩ :=
    audit_ends Pipeline.savingAudit.plan (w := ⟨closing, .standard⟩) Toolchain.tools_standard
  refine ⟨Toolchain.tools_standard, events, ?_⟩
  exact (hstop _ failure?_audit_closing).resolve_left fun ⟨f, hf⟩ => Stop.noConfusion hf

/-- No program is interrupted there, and yet the stop is no fault. -/
theorem audit_stops_without_fault_closing :
    Toolchain.standard.tools = Tool.required ∧
      (∀ name turn call t, ∃ t' out err,
        closing.programs name turn call t = .ran t' out err (.exited 0)) ∧
      ∃ s, failure? (audit Pipeline.savingAudit.plan ⟨closing, .standard⟩) = some s ∧
        ∀ f, s ≠ .fault f := by
  refine ⟨Toolchain.tools_standard, fun name turn call t => ?_, _, failure?_audit_closing, nofun⟩
  simp only [closing]
  split
  · exact ⟨_, _, _, rfl⟩
  · exact ⟨_, _, _, rfl⟩

end FirmwareAudit
