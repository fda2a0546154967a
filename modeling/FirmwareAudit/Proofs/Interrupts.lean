import FirmwareAudit.Proofs.Calls
import FirmwareAudit.Proofs.Verification

/-! # Interrupts

A pipeline stops with an interrupt exactly if a program that it ran was interrupted, whatever is
caught and cleaned up on the way, and it never exits by itself.
-/
namespace FirmwareAudit

/-- One of the programs that ran was interrupted. -/
def Interrupted (events : List Event) : Prop := ∃ run ∈ runsOf events, run.ending = .interrupted

theorem interrupted_append (es fs : List Event) :
    Interrupted (es ++ fs) ↔ Interrupted es ∨ Interrupted fs := by
  simp [Interrupted, or_and_right, exists_or]

theorem not_interrupted_of_runsOf {events : List Event} (h : runsOf events = []) :
    ¬ Interrupted events := by
  simp [Interrupted, h]

/-- No exit. -/
def Stop.StaysIn (s : Stop) : Prop := ∀ code, s ≠ .exit code

theorem Stop.staysIn_fault (f : Fault) : (Stop.fault f).StaysIn := fun _ h => Stop.noConfusion h

theorem Stop.IsCallFault.staysIn {s : Stop} (h : s.IsCallFault) : s.StaysIn ∧ s ≠ .interrupted := by
  rcases h with rfl | ⟨e, rfl⟩ <;> exact ⟨nofun, nofun⟩

section Heeding
variable {σ α β : Type}

/-- A computation that ends well makes no stop. -/
theorem no_failure {P : Stop → Prop} {r : EStateM.Result Stop σ α} (h : failure? r = none) :
    ∀ stop, failure? r = some stop → P stop := by
  simp [h]

/-- The computation stops with an interrupt exactly if `p` holds or a program that it ran was
interrupted, and it does not exit. -/
def Heeds (view : σ → List Event) (p : Prop) (x : EStateM Stop σ α) : Prop :=
  ∀ s, ∃ events, view (endState (x s)) = view s ++ events ∧
    (failure? (x s) = some .interrupted ↔ p ∨ Interrupted events) ∧
    ∀ stop, failure? (x s) = some stop → stop.StaysIn

namespace Heeds
variable {view : σ → List Event} {p : Prop}

theorem congr {q : Prop} {x : EStateM Stop σ α} (h : Heeds view p x) (hpq : p ↔ q) :
    Heeds view q x := by
  rwa [← hpq]

/-- Work that runs no program and stops neither with an interrupt nor with an exit. -/
theorem of_quiet {x : EStateM Stop σ α}
    (h : ∀ s, ∃ events, view (endState (x s)) = view s ++ events ∧ runsOf events = [] ∧
      ∀ stop, failure? (x s) = some stop → stop.StaysIn ∧ stop ≠ .interrupted) :
    Heeds view False x := by
  intro s
  obtain ⟨events, hview, hruns, hstop⟩ := h s
  refine ⟨events, hview, ?_, fun stop hs => (hstop stop hs).1⟩
  constructor
  · intro hi
    exact absurd rfl (hstop _ hi).2
  · rintro (h | h)
    · exact h.elim
    · exact absurd h (not_interrupted_of_runsOf hruns)

theorem pure (a : α) : Heeds view False (pure a : EStateM Stop σ α) :=
  of_quiet fun _ => ⟨[], (List.append_nil _).symm, rfl, no_failure rfl⟩

theorem throw {stop : Stop} (h : stop.StaysIn) :
    Heeds view (stop = .interrupted) (throw stop : EStateM Stop σ α) := by
  intro s
  refine ⟨[], (List.append_nil _).symm, ?_, fun stop' hs => ?_⟩
  · simp [failure?, Interrupted, runsOf]
  · cases hs
    exact h

theorem bind {x : EStateM Stop σ α} {f : α → EStateM Stop σ β} (hx : Heeds view p x)
    (hf : ∀ a, Heeds view False (f a)) : Heeds view p (x >>= f) := by
  intro s
  obtain ⟨es, hview, hint, hexit⟩ := hx s
  cases hr : x s with
  | error stop t =>
    rw [hr] at hview hint hexit
    rw [bind_of_error hr]
    exact ⟨es, hview, hint, hexit⟩
  | ok a t =>
    rw [hr] at hview hint
    obtain ⟨fs, hview', hint', hexit'⟩ := hf a t
    rw [bind_of_ok hr]
    have hnone : ¬ (p ∨ Interrupted es) := by
      rw [← hint]
      nofun
    refine ⟨es ++ fs, ?_, ?_, hexit'⟩
    · rw [hview', show view t = view s ++ es from hview, List.append_assoc]
    · rw [hint', interrupted_append, false_or, ← or_assoc]
      exact (or_iff_right hnone).symm

theorem ite {c : Prop} [Decidable c] {x y : EStateM Stop σ α} (hx : Heeds view p x)
    (hy : Heeds view p y) : Heeds view p (if c then x else y) := by
  split
  · exact hx
  · exact hy

theorem tryCatch {x : EStateM Stop σ α} {h : Stop → EStateM Stop σ α} (hx : Heeds view p x)
    (hh : ∀ stop : Stop, stop.StaysIn → Heeds view (stop = .interrupted) (h stop)) :
    Heeds view p (tryCatch x h) := by
  intro s
  obtain ⟨es, hview, hint, hexit⟩ := hx s
  cases hr : x s with
  | ok a t =>
    rw [hr] at hview hint
    rw [tryCatch_of_ok hr]
    exact ⟨es, hview, hint, no_failure rfl⟩
  | error stop t =>
    rw [hr] at hview hint hexit
    rw [tryCatch_of_error hr]
    obtain ⟨fs, hview', hint', hexit'⟩ := hh stop (hexit stop rfl) t
    have hstop : stop = .interrupted ↔ p ∨ Interrupted es := by
      rw [← hint]
      simp [failure?]
    refine ⟨es ++ fs, ?_, ?_, hexit'⟩
    · rw [hview', show view t = view s ++ es from hview, List.append_assoc]
    · rw [hint', hstop, interrupted_append, or_assoc]

theorem fault (f : Fault) :
    Heeds view False (MonadExcept.throw (.fault f) : EStateM Stop σ α) :=
  (throw (Stop.staysIn_fault f)).congr (by simp)

/-- A handler may do what it likes with a stop that is no interrupt. -/
theorem handler {stop : Stop} {x : EStateM Stop σ α} (hstop : stop ≠ .interrupted)
    (h : Heeds view False x) : Heeds view (stop = .interrupted) x :=
  h.congr (by simp [hstop])

end Heeds

end Heeding

/-! ## Work on the machine -/

/-- What is heeded on the machine. -/
abbrev MachineM.Heeds (p : Prop) (act : MachineM α) : Prop := FirmwareAudit.Heeds Machine.trace p act

theorem heeds_log (logger operation : String) (level : Int) (message : String) :
    MachineM.Heeds False (log logger operation level message) := by
  apply Heeds.of_quiet
  intro m
  obtain ⟨events, ht, ha⟩ := m.adds_afterLog logger operation level message
  rw [log_eq]
  refine ⟨events, ht, ?_, no_failure rfl⟩
  rw [← runsOf_acts, ha]
  rfl

theorem heeds_emit {e : Event} (h : e.run? = none) : MachineM.Heeds False (emit e) :=
  Heeds.of_quiet fun _ => ⟨[e], rfl, by simp [runsOf, h], no_failure rfl⟩

theorem heeds_modify {f : Machine → Machine} (h : ∀ m, (f m).trace = m.trace) :
    MachineM.Heeds False (modify f) :=
  Heeds.of_quiet fun m => ⟨[], by simp [h], rfl, no_failure rfl⟩

/-- Work that changes nothing, and fails only as a system call does. -/
theorem heeds_of_still {act : MachineM α}
    (h : ∀ m, (∃ a, act m = .ok a m) ∨ ∃ s, act m = .error s m ∧ s.IsCallFault) :
    MachineM.Heeds False act := by
  apply Heeds.of_quiet
  intro m
  rcases h m with ⟨a, ha⟩ | ⟨s, hs, hcall⟩
  · rw [ha]
    exact ⟨[], (List.append_nil _).symm, rfl, no_failure rfl⟩
  · rw [hs]
    refine ⟨[], (List.append_nil _).symm, rfl, fun stop h => ?_⟩
    cases h
    exact hcall.staysIn

theorem heeds_openForWriting (path : String) (mode : FileTree.WriteMode) :
    MachineM.Heeds False (openForWriting path mode) := by
  apply Heeds.of_quiet
  intro m
  cases ho : openForWriting path mode m with
  | ok handle m' =>
    obtain ⟨-, t, -, rfl⟩ := openForWriting_eq_ok ho
    exact ⟨[.opened path], rfl, rfl, no_failure rfl⟩
  | error s m' =>
    obtain ⟨hs, rfl⟩ := openForWriting_eq_error ho
    refine ⟨[], (List.append_nil _).symm, rfl, fun stop h => ?_⟩
    cases h
    exact hs.staysIn

theorem heeds_unlink (path : Path) : MachineM.Heeds False (unlink path) := by
  apply Heeds.of_quiet
  intro m
  rcases unlink_cases path m with ⟨m', hu, events, ht, ha⟩ | ⟨s, m', hu, hs, -, events, ht, ha⟩
  · rw [hu]
    refine ⟨events, ht, ?_, no_failure rfl⟩
    rw [← runsOf_acts, ha]
    rfl
  · rw [hu]
    refine ⟨events, ht, ?_, fun stop h => ?_⟩
    · rw [← runsOf_acts, ha]
      rfl
    · cases h
      exact hs.staysIn

theorem heeds_wrapped {act : MachineM α} (toFault : SystemError → Fault)
    (h : MachineM.Heeds False act) : MachineM.Heeds False (wrapSystemError toFault act) := by
  apply h.tryCatch
  intro stop hstop
  cases stop with
  | system e => exact Heeds.handler nofun (Heeds.fault _)
  | _ => exact Heeds.throw hstop

theorem failToStart_apply (command : List String) (reason : Stop) (m : Machine) :
    (failToStart command reason : MachineM α) m =
      .error reason (m.record (.notStarted command reason)) := rfl

theorem heeds_failToStart (command : List String) {reason : Stop} (h : reason.StaysIn) :
    MachineM.Heeds (reason = .interrupted) (failToStart command reason : MachineM α) := by
  intro m
  rw [failToStart_apply]
  refine ⟨[.notStarted command reason], rfl, ?_, fun stop hs => ?_⟩
  · simp [failure?, Interrupted, runsOf, Event.run?]
  · cases hs
    exact h

/-- What a program that runs does to the machine, and how its run ends. -/
theorem runProgram_of_ran {program : String} {arguments : List String} {m : Machine} {file : String}
    {t : FileTree} {out err : String} {ending : Ending}
    (hl : locateCommand m program arguments = .ok file)
    (hp : m.programs (baseName program) (m.turns (baseName program)) ⟨m.cwd, program, arguments⟩
      m.tree = .ran t out err ending) :
    ∃ m', m'.trace = m.trace ++ [.ran ⟨file, program :: arguments, out, err, ending⟩] ∧
      runProgram program arguments m =
        match ending with
        | .exited status => .ok ⟨status, out, err⟩ m'
        | .interrupted => .error .interrupted m'
        | .nulByte => .error .nulByte m' := by
  refine ⟨{ m.countTurn program with
    tree := t, trace := m.trace ++ [.ran ⟨file, program :: arguments, out, err, ending⟩] }, rfl, ?_⟩
  unfold runProgram
  rw [bind_of_ok (get_apply m), hl]
  simp only
  rw [bind_of_ok (set_apply _ _), hp]
  cases ending <;> rfl

theorem heeds_runProgram (program : String) (arguments : List String) :
    MachineM.Heeds False (runProgram program arguments) := by
  intro m
  cases hl : locateCommand m program arguments with
  | error s =>
    obtain ⟨hexit, hint⟩ := (locateCommand_eq_error hl).staysIn
    unfold runProgram
    rw [bind_of_ok (get_apply m), hl]
    exact ((heeds_failToStart _ hexit).congr (iff_false_intro hint)) m
  | ok file =>
    cases hp : m.programs (baseName program) (m.turns (baseName program))
      ⟨m.cwd, program, arguments⟩ m.tree with
    | refused e =>
      have hexit : Stop.StaysIn (.system ⟨e, none⟩) := fun _ h => Stop.noConfusion h
      unfold runProgram
      rw [bind_of_ok (get_apply m), hl]
      simp only
      rw [bind_of_ok (set_apply _ _), hp]
      exact ((heeds_failToStart _ hexit).congr (by simp)) (m.countTurn program)
    | ran t out err ending =>
      obtain ⟨m', ht, hrun⟩ := runProgram_of_ran hl hp
      let run : Run := ⟨file, program :: arguments, out, err, ending⟩
      have hone : Interrupted [.ran run] ↔ ending = .interrupted := by
        simp [Interrupted, run, runsOf, Event.run?]
      rw [hrun]
      refine ⟨[.ran run], ?_⟩
      rw [hone, false_or]
      cases ending with
      | exited status => simp [failure?, ht, run]
      | interrupted => simp [failure?, ht, run, Stop.StaysIn]
      | nulByte => simp [failure?, ht, run, Stop.StaysIn]

theorem heeds_deliver (text : String) (destination : Destination) :
    MachineM.Heeds False (deliver text destination) := by
  cases destination with
  | file handle => exact heeds_modify fun _ => rfl
  | nowhere => exact Heeds.pure ()
  | shared => exact heeds_emit rfl

theorem heeds_execute (program : String) (arguments : List String) (destination : Destination) :
    MachineM.Heeds False (execute program arguments destination) :=
  (heeds_runProgram program arguments).bind fun c => (heeds_deliver c.out destination).bind fun _ =>
    (heeds_emit rfl).bind fun _ => Heeds.pure _

theorem heeds_prepare (output : Output) : MachineM.Heeds False output.prepare := by
  cases output with
  | shared => exact Heeds.pure _
  | discarded => exact Heeds.pure _
  | file path => exact (heeds_openForWriting _ _).bind fun _ => Heeds.pure _

namespace Toolchain

variable (tc : Toolchain)

theorem heeds_tool (role : String) : MachineM.Heeds False (tc.tool role) := by
  unfold tool
  split
  · exact Heeds.pure _
  · have hexit : Stop.StaysIn (.unknownRole role) := fun _ h => Stop.noConfusion h
    exact (Heeds.throw hexit).congr (by simp)

theorem heeds_run (stage role : String) (arguments : List String) (output : Output) :
    MachineM.Heeds False (tc.run stage role arguments output) := by
  apply (tc.heeds_tool role).bind
  intro tool
  apply (heeds_log _ _ _ _).bind
  intro _
  have hstart := (heeds_prepare output).tryCatch fun stop hstop =>
    heeds_failToStart (tool.program :: arguments) hstop
  apply (heeds_wrapped _ (hstart.bind fun d => heeds_execute _ _ d)).bind
  intro status
  exact Heeds.ite (Heeds.fault _) (Heeds.pure _)

theorem heeds_checksum (path : Path) : MachineM.Heeds False (tc.checksum path) := by
  apply (tc.heeds_tool _).bind
  intro tool
  apply (heeds_log _ _ _ _).bind
  intro _
  apply (heeds_wrapped _ ((heeds_runProgram _ _).bind fun _ => Heeds.pure _)).bind
  intro answer
  split
  · exact Heeds.ite ((Heeds.fault _).bind fun _ => Heeds.pure _) (Heeds.pure _)
  · exact Heeds.ite ((Heeds.fault _).bind fun _ => Heeds.fault _) (Heeds.fault _)

end Toolchain

namespace Pipeline

theorem heeds_remove (path : Path) : MachineM.Heeds False (remove path) :=
  (heeds_log _ _ _ _).bind fun _ => heeds_wrapped _ (heeds_unlink path)

theorem heeds_discard (path : Path) : MachineM.Heeds False (discard path) := by
  apply (heeds_log _ _ _ _).bind
  intro _
  apply (heeds_unlink path).tryCatch
  intro stop hstop
  cases stop with
  | system e => exact Heeds.handler nofun (heeds_log _ _ _ _)
  | _ => exact Heeds.throw hstop

variable (p : Pipeline)

theorem heeds_compare : MachineM.Heeds False p.compare :=
  (p.toolchain.heeds_checksum _).bind fun _ => (p.toolchain.heeds_checksum _).bind fun _ =>
    (heeds_emit rfl).bind fun _ => (heeds_emit rfl).bind fun _ => Heeds.pure _

theorem heeds_kept : MachineM.Heeds False p.kept := by
  apply heeds_of_still
  intro m
  rcases p.kept_cases m with ⟨here, hk, -⟩ | ⟨s, hk, hs, -⟩
  · exact Or.inl ⟨here, hk⟩
  · exact Or.inr ⟨s, hk, hs⟩

theorem heeds_judge (image rebuilt : Checksum) : MachineM.Heeds False (p.judge image rebuilt) :=
  p.heeds_kept.bind fun _ =>
    Heeds.ite ((heeds_emit rfl).bind fun _ => Heeds.pure _) (Heeds.fault _)

/-! ## Work with files pending -/

/-- What is heeded by work with a value of its own beside the machine. -/
abbrev WorkHeeds (p : Prop) (act : WorkM β α) : Prop := Heeds (fun w => w.machine.trace) p act

theorem heeds_onMachine {act : MachineM α} (h : MachineM.Heeds False act) :
    WorkHeeds False (onMachine (β := List Path) act) := by
  intro w
  obtain ⟨events, ht, hint, hexit⟩ := h w.machine
  rw [failure?_onMachine, endState_onMachine]
  exact ⟨events, ht, hint, hexit⟩

theorem heeds_own (f : List Path → List Path) :
    WorkHeeds False (modify fun w => { w with own := f w.own } : PipelineM Unit) :=
  Heeds.of_quiet fun _ => ⟨[], (List.append_nil _).symm, rfl, no_failure rfl⟩

theorem heeds_settle (path : Path) : WorkHeeds False (settle path) := heeds_own (·.erase path)

theorem heeds_produced (paths : List Path) : WorkHeeds False (produced paths) :=
  heeds_own fun own => paths.foldl addPending own

theorem heeds_removeTemps (paths : List Path) : WorkHeeds False (p.removeTemps paths) := by
  unfold removeTemps
  apply Heeds.ite (Heeds.pure _)
  induction paths with
  | nil => exact Heeds.pure _
  | cons path rest ih =>
    exact (heeds_onMachine (heeds_remove path)).bind fun _ =>
      (heeds_settle path).bind fun _ => ih

theorem heeds_discardEach (paths : List Path) : WorkHeeds False (discardEach paths) := by
  induction paths with
  | nil => exact Heeds.pure _
  | cons path rest ih =>
    exact (heeds_onMachine (heeds_discard path)).bind fun _ =>
      (heeds_settle path).bind fun _ => ih

theorem heeds_discardPending : WorkHeeds False p.discardPending := by
  unfold discardPending
  apply Heeds.ite (Heeds.pure _)
  intro w
  rw [bind_of_ok (get_apply w)]
  exact heeds_discardEach w.own w

theorem heeds_performAll (ss : List Stage) : WorkHeeds False (p.performAll ss) := by
  induction ss with
  | nil => exact Heeds.pure _
  | cons s rest ih =>
    have hrun : MachineM.Heeds False (do
        info s.name s.notice
        p.toolchain.run s.name s.role s.arguments s.output) :=
      (heeds_log _ _ _ _).bind fun _ => p.toolchain.heeds_run _ _ _ _
    have hperform : WorkHeeds False (p.perform s) := (heeds_onMachine hrun).bind fun _ =>
      (heeds_produced _).bind fun _ => p.heeds_removeTemps s.uses
    exact hperform.bind fun _ => ih

theorem heeds_verify : WorkHeeds False p.verify :=
  (heeds_onMachine p.heeds_compare).bind fun c => (p.heeds_removeTemps _).bind fun _ =>
    heeds_onMachine (p.heeds_judge c.1 c.2)

/-- The whole run of a pipeline. -/
theorem heeds_whole : WorkHeeds False p.run := by
  have hstages : WorkHeeds False p.stages := by
    rw [stages_eq]
    exact (p.heeds_performAll _).bind fun _ => p.heeds_verify
  apply hstages.tryCatch
  intro stop hstop
  split
  · exact Heeds.handler nofun (p.heeds_discardPending.bind fun _ => Heeds.fault _)
  · exact Heeds.handler nofun (p.heeds_discardPending.bind fun _ => Heeds.fault _)
  · exact Heeds.throw hstop

end Pipeline

/-! ## The work before the pipeline -/

theorem heeds_makeDirectory (path : Path) : MachineM.Heeds False (makeDirectory path) := by
  apply Heeds.of_quiet
  intro m
  unfold makeDirectory
  rw [bind_of_ok (get_apply m)]
  cases hm : m.tree.makeDirectory m.cwd path.toString with
  | ok t => exact ⟨[], (List.append_nil _).symm, rfl, no_failure rfl⟩
  | error fault =>
    refine ⟨[], (List.append_nil _).symm, rfl, fun stop h => ?_⟩
    cases h
    exact (Stop.isCallFault_ofCall _ fault).staysIn

theorem heeds_nodeAt (path : Path) : MachineM.Heeds False (nodeAt path) := by
  apply heeds_of_still
  intro m
  unfold nodeAt
  rw [bind_of_ok (get_apply m)]
  cases m.tree.probe m.cwd path.toString with
  | ok n => exact Or.inl ⟨n, rfl⟩
  | error e => exact Or.inr ⟨_, rfl, Or.inr ⟨_, rfl⟩⟩

theorem heeds_isDirectory (path : Path) : MachineM.Heeds False (isDirectory path) := by
  apply (heeds_nodeAt path).bind
  intro n
  split <;> exact Heeds.pure _

theorem heeds_isFile (path : Path) : MachineM.Heeds False (isFile path) := by
  apply (heeds_nodeAt path).bind
  intro n
  split <;> exact Heeds.pure _

theorem heeds_mayRead (path : Path) : MachineM.Heeds False (mayRead path) :=
  heeds_of_still fun m => Or.inl ⟨m.tree.mayRead m.cwd path.toString, rfl⟩

theorem heeds_ensureDirectory (path : Path) : MachineM.Heeds False (ensureDirectory path) := by
  apply (heeds_makeDirectory path).tryCatch
  intro stop hstop
  split
  · exact Heeds.throw hstop
  · refine Heeds.handler nofun ((heeds_isDirectory path).bind fun _ => ?_)
    exact Heeds.ite (Heeds.pure _) ((Heeds.throw hstop).congr (by simp))
  · exact Heeds.throw hstop

theorem heeds_ensureDirectories (anchor : Anchor) (names : List String)
    (hnames : ∀ n ∈ names, IsName n) :
    MachineM.Heeds False (ensureDirectories anchor names hnames) := by
  induction names with
  | nil => exact heeds_ensureDirectory _
  | cons n above ih =>
    apply (heeds_ensureDirectory _).tryCatch
    intro stop hstop
    split
    · exact Heeds.handler nofun ((ih _).bind fun _ => heeds_ensureDirectory _)
    · exact Heeds.throw hstop

theorem heeds_registerLogger (name : String) : MachineM.Heeds False (registerLogger name) :=
  heeds_modify fun _ => rfl

theorem heeds_addHandler (name : String) (h : Handler) : MachineM.Heeds False (addHandler name h) :=
  heeds_modify fun _ => rfl

theorem heeds_setUpLogging (console : Int) (file : Option Path) (name : String) :
    MachineM.Heeds False (setUpLogging console file name) := by
  refine (heeds_registerLogger name).bind fun _ => Heeds.bind (heeds_modify fun _ => ?_) fun _ =>
    (heeds_addHandler _ _).bind fun _ => ?_
  · rfl
  cases file with
  | none => exact Heeds.pure _
  | some path =>
    apply (heeds_ensureDirectories _ _ _).bind
    rintro - m
    rw [bind_of_ok (get_apply m)]
    exact ((heeds_openForWriting _ _).bind fun _ => (heeds_addHandler _ _).bind fun _ =>
      heeds_log _ _ _ _) m

theorem heeds_notText : MachineM.Heeds False (throw .notText : MachineM α) := by
  have hexit : Stop.notText.StaysIn := fun _ h => Stop.noConfusion h
  exact (Heeds.throw hexit).congr (by simp)

theorem heeds_setUpLog (o : Options) : MachineM.Heeds False (CommandLine.setUpLog o) := by
  unfold CommandLine.setUpLog
  split
  · exact (heeds_setUpLogging _ _ _).bind fun _ => heeds_notText
  · exact heeds_setUpLogging _ _ _
  · exact heeds_setUpLogging _ _ _

theorem heeds_validate (plan : Plan) : MachineM.Heeds False plan.validate := by
  have hdirectory : MachineM.Heeds False (do
      unless ← isDirectory plan.includeDir do
        throw (.fault (.missingIncludeDir plan.includeDir)) : MachineM Unit) :=
    (heeds_isDirectory _).bind fun _ => Heeds.ite (Heeds.pure _) (Heeds.fault _)
  apply (heeds_isFile plan.image).bind
  intro here
  apply Heeds.ite
  · apply (heeds_mayRead plan.image).bind
    intro readable
    exact Heeds.ite hdirectory ((Heeds.fault _).bind fun _ => hdirectory)
  · exact (Heeds.fault _).bind fun _ => hdirectory

theorem heeds_plan (a : Arguments) : MachineM.Heeds False a.plan := by
  have hpath : MachineM.Heeds False a.options.includeDir.path := by
    cases a.options.includeDir with
    | text s => exact Heeds.pure _
    | cleared => exact heeds_notText
  exact hpath.bind fun _ => Heeds.pure _

theorem heeds_prepare_call (a : Arguments) : MachineM.Heeds False (CommandLine.prepare a) :=
  (heeds_setUpLog _).bind fun _ => (heeds_log _ _ _ _).bind fun _ => (heeds_plan a).bind fun plan =>
    (heeds_validate plan).bind fun _ => (heeds_log _ _ _ _).bind fun _ => Heeds.pure _

end FirmwareAudit
