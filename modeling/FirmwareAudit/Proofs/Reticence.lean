import FirmwareAudit.Proofs.BeforePipeline
import FirmwareAudit.Proofs.Conduct
import FirmwareAudit.Proofs.Messages

/-! # What is said on the error stream

Until it concludes, a call says nothing on the error stream by itself: what is there comes from the
log or from a tool. And where it stops, the message of the stop draws on the command line alone,
unless it is about a checksum.
-/
namespace FirmwareAudit
open Text

namespace Text

/-- A character of the text that does not print is in one of the sources. -/
def DrawsOn (sources : List String) (text : String) : Prop :=
  ∀ b, isPrintable b = false → (∀ s ∈ sources, has b s = false) → has b text = false

section
variable {sources : List String} {s t : String}

theorem Prints.drawsOn (h : Prints t) : DrawsOn sources t := fun _ hb _ => h.has_eq_false hb

theorem drawsOn_of_mem (h : t ∈ sources) : DrawsOn sources t := fun _ _ hsources => hsources t h

theorem DrawsOn.append (hs : DrawsOn sources s) (ht : DrawsOn sources t) :
    DrawsOn sources (s ++ t) :=
  fun b hb h => has_append_eq_false.2 ⟨hs b hb h, ht b hb h⟩

theorem DrawsOn.of_append (h : DrawsOn sources (s ++ t)) : DrawsOn sources t :=
  fun b hb hsources => (has_append_eq_false.1 (h b hb hsources)).2

/-- A path draws on what the text draws on that it is read from. -/
theorem DrawsOn.path (h : DrawsOn sources t) : DrawsOn sources (Path.ofString t).toString := by
  have hmarks : ∀ c ∈ ['/', '.'], isPrintable c = true := List.all_eq_true.1 (by decide)
  intro b hb hsources
  refine Path.has_toString (fun hm => ?_) (Path.has_of_mem_names (h b hb hsources))
  rw [hmarks b hm] at hb
  cases hb

end

end Text

/-! ## What is said on the error stream -/

/-- Nothing on the error stream. -/
def Event.IsSilent : Event → Prop
  | .printed .errors _ => False
  | .traceback _ => False
  | _ => True

/-- On the error stream there is nothing but messages that were logged. -/
structure OnlyEchoes (events : List Event) : Prop where
  printed : ∀ text, .printed .errors text ∈ events →
    ∃ r : Record, .logged r ∈ events ∧ text = r.message ++ "\n"
  untraced : ∀ s, .traceback s ∉ events

namespace OnlyEchoes

theorem of_silent {events : List Event} (h : ∀ e ∈ events, e.IsSilent) : OnlyEchoes events :=
  ⟨fun _ he => (h _ he).elim, fun _ he => (h _ he).elim⟩

theorem append {es fs : List Event} (h : OnlyEchoes es) (h' : OnlyEchoes fs) :
    OnlyEchoes (es ++ fs) := by
  constructor
  · intro text he
    rcases List.mem_append.1 he with he | he
    · obtain ⟨r, hr, ht⟩ := h.printed text he
      exact ⟨r, List.mem_append_left _ hr, ht⟩
    · obtain ⟨r, hr, ht⟩ := h'.printed text he
      exact ⟨r, List.mem_append_right _ hr, ht⟩
  · intro s he
    rcases List.mem_append.1 he with he | he
    · exact h.untraced s he
    · exact h'.untraced s he

theorem logged (j : Journal) (logger : String) (r : Record) :
    OnlyEchoes (.logged r :: j.echoes logger r) := by
  have hecho : ∀ e ∈ j.echoes logger r, e.IsSilent ∨ e = .printed .errors (r.message ++ "\n") := by
    intro e he
    unfold Journal.echoes at he
    split at he
    · split at he
      · split at he
        · exact Or.inr (List.mem_singleton.1 he)
        · cases he
      · obtain ⟨h, -, he⟩ := List.mem_flatMap.1 he
        obtain ⟨owner, rfl⟩ := Handler.eq_shown_of_mem_echoes he
        exact Or.inl trivial
    · cases he
  constructor
  · intro text he
    rcases List.mem_cons.1 he with he | he
    · cases he
    · rcases hecho _ he with hs | hs
      · cases hs
      · cases hs
        exact ⟨r, List.mem_cons_self, rfl⟩
  · intro s he
    rcases List.mem_cons.1 he with he | he
    · cases he
    · rcases hecho _ he with hs | hs
      · cases hs
      · cases hs

end OnlyEchoes

/-- Behind these events the machine's trace has nothing on the error stream but echoes. -/
def Echoing (before : List Event) (m : Machine) : Prop :=
  ∃ events, m.trace = before ++ events ∧ OnlyEchoes events

namespace Echoing
variable {before : List Event} {m m' : Machine}

theorem start (m : Machine) : Echoing m.trace m :=
  ⟨[], (List.append_nil _).symm, .of_silent (List.forall_mem_nil _)⟩

theorem add (h : Echoing before m) {es : List Event} (ht : m'.trace = m.trace ++ es)
    (hes : OnlyEchoes es) : Echoing before m' := by
  obtain ⟨events, hm, hevents⟩ := h
  exact ⟨events ++ es, by rw [ht, hm, List.append_assoc], hevents.append hes⟩

theorem record (h : Echoing before m) {e : Event} (he : e.IsSilent) : Echoing before (m.record e) :=
  h.add rfl (.of_silent fun _ hm => List.mem_singleton.1 hm ▸ he)

theorem of_trace (h : Echoing before m) (ht : m'.trace = m.trace) : Echoing before m' := by
  rw [← List.append_nil m.trace] at ht
  exact h.add ht (.of_silent (List.forall_mem_nil _))

theorem afterLog (h : Echoing before m) (logger operation : String) (level : Int)
    (message : String) : Echoing before (m.afterLog logger operation level message) :=
  h.add rfl (.logged _ _ _)

theorem start_le (h : Echoing before m) : before.length ≤ m.trace.length := by
  obtain ⟨events, ht, -⟩ := h
  rw [ht, List.length_append]
  exact Nat.le_add_right _ _

end Echoing

/-! ## What a message draws on -/

/-- The run was one of the checksum tool on this file and ended with a status other than 0, and this
is what it wrote on its error stream, line ends unified and blanks at either end left out. -/
def Run.FailsChecksum (r : Run) (path : Path) (detail : String) : Prop :=
  r.command = [Tool.checksum.program, path.toString] ∧
    (∃ status, r.ending = .exited status ∧ status ≠ 0) ∧
    detail = trimmed (.ofList (unifyLines r.err.toList))

/-- A stop whose message draws on the command line, or passes on what a run of the checksum tool among
the events has written. -/
inductive Accounted (argv : List String) (events : List Event) : Stop → Prop
  | plain (s : Stop) (h : ∀ t ∈ s.texts, DrawsOn argv t) : Accounted argv events s
  | detail (r : Run) (path : Path) (detail : String) (hr : .ran r ∈ events)
      (hfails : r.FailsChecksum path detail) (hpath : DrawsOn argv path.toString) :
      Accounted argv events (.fault (.checksum path (.failed detail)))

/-- The stop is accounted for by what was done since the start, or is one that is looked at apart. -/
def Explained (argv : List String) (apart : Stop → Prop) (start : Nat) (s : Stop) (m : Machine) :
    Prop :=
  apart s ∨ Accounted argv (m.trace.drop start) s

/-- A stop that says that two checksums differ. -/
def Stop.IsVerdict (s : Stop) : Prop := ∃ image rebuilt, s = .fault (.mismatch image rebuilt)

section Acts
variable {argv : List String} {apart : Stop → Prop} {before : List Event}

theorem Explained.plain (s : Stop) (h : ∀ t ∈ s.texts, DrawsOn argv t) (start : Nat) (m : Machine) :
    Explained argv apart start s m :=
  Or.inr (.plain s h)

theorem Stop.IsCommandStop.texts_eq {s : Stop} (h : s.IsCommandStop) : s.texts = [] := by
  rcases h with (rfl | ⟨e, rfl⟩) | rfl <;> rfl

theorem explained_of_isCommandStop {s : Stop} (h : s.IsCommandStop) (start : Nat) (m : Machine) :
    Explained argv apart start s m := by
  refine .plain s (fun t ht => ?_) start m
  rw [h.texts_eq] at ht
  cases ht

/-- What was done stays done. -/
theorem Explained.later {start : Nat} {s : Stop} {m m' : Machine}
    (h : Explained argv apart start s m) (ht : ∃ es, m'.trace = m.trace ++ es) :
    Explained argv apart start s m' := by
  refine h.imp id fun h => ?_
  cases h with
  | plain s h => exact .plain s h
  | detail r path detail hr hfails hpath =>
    obtain ⟨es, ht⟩ := ht
    refine .detail r path detail ?_ hfails hpath
    rw [ht, List.drop_append]
    exact List.mem_append_left _ hr

variable (argv apart before) in
/-- The act says nothing on the error stream that is not logged, and where it stops, that is
explained. -/
abbrev Reticent (act : MachineM α) : Prop :=
  Abides (Echoing before) (Explained argv apart before.length) act

theorem reticent_log (logger operation : String) (level : Int) (message : String) :
    Reticent argv apart before (log logger operation level message) := by
  refine .of_ok (fun m h => ?_) fun m => by rw [log_eq]; rfl
  rw [log_eq]
  exact h.afterLog _ _ _ _

theorem reticent_emit {e : Event} (he : e.IsSilent) : Reticent argv apart before (emit e) :=
  .of_ok (fun _ h => h.record he) fun _ => rfl

theorem reticent_modify {f : Machine → Machine} (hf : ∀ m, (f m).trace = m.trace) :
    Reticent argv apart before (modify f) :=
  .of_ok (fun m h => h.of_trace (hf m)) fun _ => rfl

theorem reticent_throw {s : Stop} (h : ∀ t ∈ s.texts, DrawsOn argv t) :
    Reticent argv apart before (throw s : MachineM α) :=
  .throw fun m _ => .plain s h _ m

/-- Work that leaves the trace alone. -/
theorem reticent_of_cases {act : MachineM α} (h : ∀ m, (∃ a m', act m = .ok a m' ∧ m'.trace = m.trace) ∨
    ∃ s m', act m = .error s m' ∧ s.IsCommandStop ∧ m'.trace = m.trace) : Reticent argv apart before act := by
  intro m hm
  rcases h m with ⟨a, m', ha, ht⟩ | ⟨s, m', ha, hs, ht⟩
  · exact .of_eq_ok ha (hm.of_trace ht)
  · exact .of_eq_error ha (hm.of_trace ht) (explained_of_isCommandStop hs _ _)

theorem reticent_nodeAt (path : Path) : Reticent argv apart before (nodeAt path) := by
  refine reticent_of_cases fun m => ?_
  unfold nodeAt
  rw [bind_of_ok (get_apply m)]
  cases m.tree.probe m.cwd path.toString with
  | ok n => exact Or.inl ⟨n, m, rfl, rfl⟩
  | error e => exact Or.inr ⟨_, m, rfl, Or.inl (Or.inr ⟨_, rfl⟩), rfl⟩

theorem reticent_makeDirectory (path : Path) : Reticent argv apart before (makeDirectory path) := by
  refine reticent_of_cases fun m => ?_
  unfold makeDirectory
  rw [bind_of_ok (get_apply m)]
  cases m.tree.makeDirectory m.cwd path.toString with
  | ok t => exact Or.inl ⟨(), _, rfl, rfl⟩
  | error fault =>
    exact Or.inr ⟨_, m, rfl, Or.inl (Stop.isCallFault_ofCall _ fault), rfl⟩

theorem reticent_openForWriting (path : String) (mode : FileTree.WriteMode) :
    Reticent argv apart before (openForWriting path mode) := by
  intro m h
  cases ho : openForWriting path mode m with
  | ok handle m' =>
    obtain ⟨-, t, -, rfl⟩ := openForWriting_eq_ok ho
    exact .of_eq_ok ho (h.record (e := .opened path) trivial)
  | error s m' =>
    obtain ⟨hs, rfl⟩ := openForWriting_eq_error ho
    exact .of_eq_error ho h (explained_of_isCommandStop (Or.inl hs) _ _)

theorem reticent_unlink (path : Path) : Reticent argv apart before (unlink path) := by
  intro m h
  apply AbidesAt.after (get_apply m)
  cases m.tree.unlink m.cwd path.toString with
  | ok t =>
    have hset : Echoing before { m with tree := t } := h.of_trace rfl
    exact .of_eq_ok rfl (hset.record trivial)
  | error fault =>
    exact .of_eq_error rfl (h.record trivial)
      (explained_of_isCommandStop (Or.inl (Stop.isCallFault_ofCall _ fault)) _ _)

theorem reticent_wrapped {act : MachineM α} {toFault : SystemError → Fault} (h : Reticent argv apart before act)
    (hfault : ∀ e, ∀ t ∈ (toFault e).texts, DrawsOn argv t) :
    Reticent argv apart before (wrapSystemError toFault act) := by
  apply h.tryCatch
  intro s m hm hs
  cases s with
  | system e => exact .throw hm (.plain (.fault (toFault e)) (hfault e) _ m)
  | _ => exact .throw hm hs

/-! ## Programs -/

theorem reticent_failToStart (command : List String) {s : Stop} {m : Machine} (hm : Echoing before m)
    (hs : Explained argv apart before.length s m) :
    AbidesAt (Echoing before) (Explained argv apart before.length)
      (failToStart command s : MachineM α) m :=
  .of_eq_error rfl (hm.record (e := .notStarted command s) trivial) (hs.later ⟨_, rfl⟩)

theorem reticent_runProgram (program : String) (arguments : List String) :
    Reticent argv apart before (runProgram program arguments) := by
  intro m hm
  apply AbidesAt.after (get_apply m)
  cases hl : locateCommand m program arguments with
  | error s =>
    exact reticent_failToStart _ hm (explained_of_isCommandStop (Or.inl (locateCommand_eq_error hl)) _ m)
  | ok file =>
    apply AbidesAt.after (set_apply _ _)
    have hfound : Echoing before (m.countTurn program) := hm.of_trace rfl
    cases m.programs (baseName program) (m.turns (baseName program))
      ⟨m.cwd, program, arguments⟩ m.tree with
    | refused e =>
      exact reticent_failToStart _ hfound (explained_of_isCommandStop (Or.inl (Or.inr ⟨_, rfl⟩)) _ _)
    | ran t out err ending =>
      let m' : Machine := { m.countTurn program with tree := t }
      have hm' : Echoing before m' := hfound.of_trace rfl
      have hends := hm'.record (e := .ran ⟨file, program :: arguments, out, err, ending⟩) trivial
      cases ending with
      | exited status => exact .of_eq_ok rfl hends
      | interrupted =>
        exact .of_eq_error rfl hends (explained_of_isCommandStop (Or.inr rfl) _ _)
      | nulByte =>
        exact .of_eq_error rfl hends (explained_of_isCommandStop (Or.inl (Or.inl rfl)) _ _)

theorem reticent_capture (program : String) (arguments : List String) :
    Reticent argv apart before (capture program arguments) :=
  (reticent_runProgram program arguments).bind fun _ => .pure _

/-- What is captured is what a run wrote that has just ended. -/
theorem ran_of_capture {program : String} {arguments : List String} {m m' : Machine}
    {answer : Completed} (h : capture program arguments m = .ok answer m') :
    ∃ r, r.command = program :: arguments ∧ r.ending = .exited answer.status ∧
      answer.err = .ofList (unifyLines r.err.toList) ∧ m'.trace = m.trace ++ [.ran r] := by
  unfold capture at h
  obtain ⟨run, m₁, hrun, h⟩ := bind_eq_ok.1 h
  cases h
  unfold runProgram at hrun
  rw [bind_of_ok (get_apply m)] at hrun
  cases hl : locateCommand m program arguments with
  | error s =>
    rw [hl] at hrun
    cases hrun
  | ok file =>
    simp only [hl, bind_of_ok (set_apply _ _)] at hrun
    cases hp : m.programs (baseName program) (m.turns (baseName program))
      ⟨m.cwd, program, arguments⟩ m.tree with
    | refused e =>
      rw [hp] at hrun
      cases hrun
    | ran t out err ending =>
      rw [hp] at hrun
      cases ending with
      | exited status =>
        cases hrun
        exact ⟨⟨file, program :: arguments, out, err, .exited status⟩, rfl, rfl, rfl, rfl⟩
      | interrupted => cases hrun
      | nulByte => cases hrun

theorem reticent_deliver (text : String) (destination : Destination) :
    Reticent argv apart before (deliver text destination) := by
  cases destination with
  | file handle => exact reticent_modify fun _ => rfl
  | nowhere => exact .pure _
  | shared => exact reticent_emit trivial

theorem reticent_execute (program : String) (arguments : List String) (destination : Destination) :
    Reticent argv apart before (execute program arguments destination) :=
  (reticent_runProgram program arguments).bind fun _ => (reticent_deliver _ _).bind fun _ =>
    (reticent_emit (e := .toolErrors _) trivial).bind fun _ => .pure _

theorem reticent_prepare (output : Output) : Reticent argv apart before output.prepare := by
  cases output with
  | shared => exact .pure _
  | discarded => exact .pure _
  | file f => exact (reticent_openForWriting f.toString .truncate).bind fun _ => .pure _

/-! ## Tools -/

theorem reticent_tool {tc : Toolchain} {role : String} {tool : Tool} (h : tc.tool? role = some tool)
    {f : Tool → MachineM α} (hf : Reticent argv apart before (f tool)) :
    Reticent argv apart before (do f (← tc.tool role)) := by
  intro m hm
  exact .after (tc.tool_of_some h m) (hf m hm)

theorem reticent_run {tc : Toolchain} {stage role : String} {tool : Tool}
    (htool : tc.tool? role = some tool) (hstage : Prints stage) (hprogram : Prints tool.program)
    (arguments : List String) (output : Output) :
    Reticent argv apart before (tc.run stage role arguments output) := by
  apply reticent_tool htool
  apply (reticent_log _ _ _ _).bind
  intro _
  have hprepare : Reticent argv apart before
      (tryCatch output.prepare (failToStart (tool.program :: arguments))) :=
    (reticent_prepare output).tryCatch fun _ _ hm hs => reticent_failToStart _ hm hs
  have hcommand := hprepare.bind fun destination => reticent_execute tool.program arguments destination
  have hfault : ∀ e, ∀ t ∈ (Fault.stage
      (.notStarted stage tool.program (tool.program :: arguments) e)).texts, DrawsOn argv t := by
    intro e t ht
    rw [List.mem_singleton.1 ht]
    exact (StageFault.prints_notStarted hstage hprogram _ e).drawsOn
  refine (reticent_wrapped hcommand hfault).bind fun status =>
    .ite (reticent_throw fun t ht => ?_) (.pure _)
  rw [List.mem_singleton.1 ht]
  exact (StageFault.prints_failed hstage hprogram _ status).drawsOn

theorem reticent_checksum {tc : Toolchain} (htool : tc.tool? Tool.checksum.role = some Tool.checksum)
    {path : Path} (hpath : DrawsOn argv path.toString) : Reticent argv apart before (tc.checksum path) := by
  apply reticent_tool htool
  apply (reticent_log _ _ _ _).bind
  rintro - m hm
  let toFault : SystemError → Fault := fun e => .checksum path (.notStarted e)
  have hcapture : Reticent argv apart before
      (wrapSystemError toFault (capture Tool.checksum.program [path.toString])) :=
    reticent_wrapped (reticent_capture _ _) fun e t ht => by rwa [List.mem_singleton.1 ht]
  obtain ⟨hI, hP⟩ := hcapture m hm
  cases hrun : wrapSystemError toFault (capture Tool.checksum.program [path.toString]) m with
  | error s m' =>
    rw [hrun] at hI hP
    exact .of_eq_error (bind_of_error hrun) hI (hP s rfl)
  | ok answer m' =>
    rw [hrun] at hI
    obtain ⟨r, hcommand, hending, herr, htrace⟩ := ran_of_capture (wrapSystemError_eq_ok hrun)
    apply AbidesAt.after hrun
    by_cases hstatus : answer.status = 0
    · rw [if_neg (not_not_intro hstatus)]
      cases Digest.ofAnswer? answer.out with
      | some digest => exact .of_eq_ok rfl hI
      | none =>
        have hprogram : Prints Tool.checksum.program := by decide
        refine .of_eq_error rfl hI ?_
        refine Or.inr (.plain _ (List.forall_mem_cons.2 ⟨hprogram.drawsOn, ?_⟩))
        exact List.forall_mem_cons.2 ⟨hpath, List.forall_mem_nil _⟩
    · rw [if_pos hstatus]
      refine .of_eq_error rfl hI ?_
      refine Or.inr (.detail r path _ ?_ ⟨hcommand, ⟨_, hending, hstatus⟩, by rw [herr]⟩ hpath)
      rw [htrace, List.drop_append_of_le_length hm.start_le]
      exact List.mem_append_right _ List.mem_cons_self

/-! ## The pipeline -/

namespace Pipeline
variable {p : Pipeline}

theorem reticent_remove {f : Path} (hf : DrawsOn argv f.toString) : Reticent argv apart before (remove f) :=
  (reticent_log _ _ _ _).bind fun _ => reticent_wrapped (reticent_unlink f) fun e t ht => by
    rwa [List.mem_singleton.1 ht]

/-- A file is discarded in silence but for the log, and what explained a stop before still does. -/
theorem reticent_discard (f : Path) (P : Machine → Prop)
    (hP : ∀ m m', P m → (∃ es, m'.trace = m.trace ++ es) → P m') :
    Abides (fun m => Echoing before m ∧ P m) (Explained argv apart before.length) (discard f) := by
  have hkeeps : Keeps P (discard f) := by
    have hlog : ∀ operation level message, Keeps P (log pipelineLogger operation level message) := by
      intro operation level message m hm
      rw [log_eq]
      exact hP m _ hm ⟨_, rfl⟩
    have hunlink : Keeps P (unlink f) := by
      intro m hm
      unfold unlink
      rw [bind_of_ok (get_apply m)]
      cases m.tree.unlink m.cwd f.toString with
      | ok t => exact hP m _ hm ⟨[.unlinked f.toString none], rfl⟩
      | error fault => exact hP m _ hm ⟨[.unlinked f.toString _], rfl⟩
    apply (hlog _ _ _).bind
    intro _
    apply hunlink.tryCatch
    intro s
    cases s with
    | system e => exact hlog _ _ _
    | _ => exact Keeps.throw _
  have hreticent : Reticent argv apart before (discard f) := by
    apply (reticent_log _ _ _ _).bind
    intro _
    apply (reticent_unlink f).tryCatch
    intro s m hm hs
    cases s with
    | system e => exact reticent_log _ _ _ _ m hm
    | _ => exact .throw hm hs
  intro m hm
  obtain ⟨hI, hstop⟩ := hreticent m hm.1
  exact ⟨⟨hI, hkeeps m hm.2⟩, hstop⟩

theorem reticent_kept : Reticent argv apart before p.kept := by
  intro m hm
  rcases p.kept_cases m with ⟨here, hk, -⟩ | ⟨s, hk, hs, -⟩
  · exact .of_eq_ok hk hm
  · exact .of_eq_error hk hm (explained_of_isCommandStop (Or.inl hs) _ _)

theorem isSilent_printed (p : Pipeline) (text : String) : (Event.printed p.stream text).IsSilent := by
  cases hs : p.stream with
  | errors => exact absurd hs p.stream_ne_errors
  | _ => trivial

theorem reticent_judge (image rebuilt : Checksum) :
    Reticent argv Stop.IsVerdict before (p.judge image rebuilt) :=
  reticent_kept.bind fun _ => .ite ((reticent_emit (p.isSilent_printed _)).bind fun _ => .pure _)
    (.throw fun _ _ => Or.inl ⟨image, rebuilt, rfl⟩)

theorem reticent_starts (htools : p.toolchain.tools = Tool.required)
    {s : Stage} (hs : s ∈ p.work) :
    Reticent argv apart before (do
      info s.name s.notice
      p.toolchain.run s.name s.role s.arguments s.output) := by
  have hprograms : ∀ tool ∈ Tool.required, Prints tool.program := by decide
  have hnames : Prints s.name ∧ ∃ tool ∈ Tool.required, s.role = tool.role := by
    have hprints : ∀ name ∈ ["disassemble", "postprocess", "reassemble", "convert"], Prints name := by
      decide
    simp only [work, List.mem_cons, List.not_mem_nil, or_false] at hs
    rcases hs with rfl | rfl | rfl | rfl
    · exact ⟨hprints _ (by simp [disassembly]), Tool.disassembler, by decide, rfl⟩
    · exact ⟨hprints _ (by simp [postprocessing]), Tool.postprocessor, by decide, rfl⟩
    · exact ⟨hprints _ (by simp [reassembly]), Tool.assembler, by decide, rfl⟩
    · exact ⟨hprints _ (by simp [conversion]), Tool.converter, by decide, rfl⟩
  obtain ⟨hname, tool, ht, hrole⟩ := hnames
  have htool : p.toolchain.tool? s.role = some tool :=
    hrole ▸ p.toolchain.tool?_of_required htools ht
  exact (reticent_log _ _ _ _).bind fun _ => reticent_run htool hname (hprograms tool ht) _ _

section Run
variable (himage : DrawsOn argv p.plan.image.toString)
include himage

theorem drawsOn_file {f : Path} (hf : f ∈ p.files.all) : DrawsOn argv f.toString := by
  obtain ⟨e, he, -, htext⟩ := Artifacts.toString_of_mem_all hf
  have hends : ∀ e ∈ Artifacts.endings, Prints e := by decide
  rw [htext]
  exact himage.append (hends e he).drawsOn

variable (htools : p.toolchain.tools = Tool.required)
include htools

theorem reticent_compare : Reticent argv apart before p.compare := by
  have htool : p.toolchain.tool? Tool.checksum.role = some Tool.checksum :=
    p.toolchain.tool?_of_required htools (by decide)
  have hrebuilt : DrawsOn argv p.files.rebuilt.toString :=
    drawsOn_file himage (by simp [Artifacts.all])
  exact (reticent_checksum htool himage).bind fun _ => (reticent_checksum htool hrebuilt).bind fun _ =>
    (reticent_emit (p.isSilent_printed _)).bind fun _ =>
      (reticent_emit (p.isSilent_printed _)).bind fun _ => .pure _

theorem reticent_conduct :
    p.Conduct (Echoing before) (Explained argv Stop.IsVerdict before.length) where
  starts _ hs := reticent_starts htools hs
  removes _ hf := reticent_remove (drawsOn_file himage hf)
  discards f _ := by
    intro m hm
    obtain ⟨⟨hI, -⟩, hP⟩ := reticent_discard f (fun _ => True) (fun _ _ _ _ => trivial) m ⟨hm, trivial⟩
    exact ⟨hI, hP⟩
  compares := reticent_compare himage htools
  judges := reticent_judge

theorem reticent_whole :
    Abides (Conduct.OnWork p (Echoing before))
      (Conduct.AtStop (Explained argv Stop.IsVerdict before.length)) p.run :=
  (reticent_conduct himage htools).run_of_discards fun _ f _ =>
    reticent_discard f _ fun _ _ hs ht => hs.later ht

end Run

end Pipeline

/-! ## The work before the pipeline -/

theorem reticent_isDirectory (path : Path) : Reticent argv apart before (isDirectory path) := by
  apply (reticent_nodeAt path).bind
  intro n
  split <;> exact .pure _

theorem reticent_isFile (path : Path) : Reticent argv apart before (isFile path) := by
  apply (reticent_nodeAt path).bind
  intro n
  split <;> exact .pure _

theorem reticent_ensureDirectory (path : Path) : Reticent argv apart before (ensureDirectory path) := by
  apply (reticent_makeDirectory path).tryCatch
  intro s m hm hs
  split
  · exact .throw hm hs
  · refine ((reticent_isDirectory path).bind fun _ => .ite (.pure _) (reticent_throw ?_)) m hm
    exact List.forall_mem_nil _
  · exact .throw hm hs

theorem reticent_ensureDirectories (anchor : Anchor) (names : List String)
    (hnames : ∀ n ∈ names, IsName n) : Reticent argv apart before (ensureDirectories anchor names hnames) := by
  induction names with
  | nil => exact reticent_ensureDirectory _
  | cons n above ih =>
    apply (reticent_ensureDirectory _).tryCatch
    intro s m hm hs
    split
    · exact ((ih _).bind fun _ => reticent_ensureDirectory _) m hm
    · exact .throw hm hs

theorem reticent_setUpLogging (console : Int) (file : Option Path) (name : String) :
    Reticent argv apart before (setUpLogging console file name) := by
  have haddHandler : ∀ h, Reticent argv apart before (addHandler name h) := fun h => reticent_modify fun _ => rfl
  have hregister : Reticent argv apart before (registerLogger name) := reticent_modify fun _ => rfl
  refine hregister.bind fun _ => Abides.bind (reticent_modify fun _ => ?_) fun _ =>
    (haddHandler _).bind fun _ => ?_
  · rfl
  cases file with
  | none => exact .pure _
  | some path =>
    apply (reticent_ensureDirectories _ _ _).bind
    rintro - m hm
    exact .after (get_apply m) (((reticent_openForWriting _ _).bind fun _ => (haddHandler _).bind fun _ =>
      reticent_log _ _ _ _) m hm)

theorem reticent_setUpLog (o : Options) : Reticent argv apart before (CommandLine.setUpLog o) := by
  unfold CommandLine.setUpLog
  split
  · exact (reticent_setUpLogging _ _ _).bind fun _ => reticent_throw (List.forall_mem_nil _)
  · exact reticent_setUpLogging _ _ _
  · exact reticent_setUpLogging _ _ _

theorem reticent_validate {plan : Plan} (himage : DrawsOn argv plan.image.toString)
    (hdir : DrawsOn argv plan.includeDir.toString) : Reticent argv apart before plan.validate := by
  have hunreadable : Reticent argv apart before
      (throw (.fault (.unreadableImage plan.image)) : MachineM PUnit) :=
    reticent_throw fun t ht => by rwa [List.mem_singleton.1 ht]
  have hdirectory : Reticent argv apart before (do
      unless ← isDirectory plan.includeDir do
        throw (.fault (.missingIncludeDir plan.includeDir)) : MachineM Unit) :=
    (reticent_isDirectory _).bind fun _ => .ite (.pure _)
      (reticent_throw fun t ht => by rwa [List.mem_singleton.1 ht])
  have hread : Reticent argv apart before (mayRead plan.image) := reticent_of_cases fun m => Or.inl ⟨_, m, rfl, rfl⟩
  apply (reticent_isFile plan.image).bind
  intro here
  apply Abides.ite
  · apply hread.bind
    intro readable
    exact .ite hdirectory (hunreadable.bind fun _ => hdirectory)
  · exact hunreadable.bind fun _ => hdirectory

theorem reticent_locateAll : Reticent argv apart before (Tool.locateAll Tool.required) := by
  have hall : ∀ tools, (∀ tool ∈ tools, Prints tool.program ∧ Prints tool.hint) →
      Reticent argv apart before (Tool.locateAll tools) := by
    intro tools htools
    induction tools with
    | nil => exact .pure _
    | cons tool rest ih =>
      rw [List.forall_mem_cons] at htools
      obtain ⟨⟨hprogram, hhint⟩, hrest⟩ := htools
      have hlocate : Reticent argv apart before tool.locate := by
        intro m hm
        have hl := tool.locate_eq m
        split at hl
        · exact .of_eq_ok hl hm
        · refine .of_eq_error hl hm ?_
          refine Or.inr (.plain _ (List.forall_mem_cons.2 ⟨hprogram.drawsOn, ?_⟩))
          exact List.forall_mem_cons.2 ⟨hhint.drawsOn, List.forall_mem_nil _⟩
      exact hlocate.bind fun _ => (reticent_log _ _ _ _).bind fun _ => (ih hrest).bind fun _ =>
        .pure _
  have htexts : ∀ tool ∈ Tool.required, Prints tool.program ∧ Prints tool.hint := by decide
  exact hall Tool.required htexts

end Acts

end FirmwareAudit
