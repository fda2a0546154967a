import FirmwareAudit.Pipeline.Stages
import FirmwareAudit.Proofs.Temporaries
import Mathlib.Data.List.Forall2

/-! # The stages as a schedule

The stages before the verdict differ only in the tool they run, what it makes and what is used up
then. Each ends in one of three ways: its command misses, a file that was used up stays, or it is
done. What is pending afterwards follows from the way it ended.
-/
namespace FirmwareAudit

structure Stage where
  name : String
  notice : String
  role : String
  arguments : List String
  output : Output
  makes : List Path
  /-- What is removed once the tool has ended well. -/
  uses : List Path

namespace Pipeline

variable (p : Pipeline)

def disassembly : Stage where
  name := "disassemble"
  notice := "Disassembling " ++ p.plan.image.toString ++ " (machine " ++
    p.plan.architecture.shown ++ ", type " ++ p.plan.fileType.shown ++ ")"
  role := Tool.disassembler.role
  arguments := p.plan.disassemblerArguments
  output := .file p.files.listing
  makes := [p.files.listing]
  uses := []

def postprocessing : Stage where
  name := "postprocess"
  notice := "Postprocessing " ++ p.files.listing.toString ++ " with " ++
    p.plan.chipDefinitions.toString
  role := Tool.postprocessor.role
  arguments := p.plan.postprocessorArguments
  output := .file p.files.source
  makes := [p.files.source]
  uses := [p.files.listing]

def reassembly : Stage where
  name := "reassemble"
  notice := "Reassembling " ++ p.files.source.toString
  role := Tool.assembler.role
  arguments := p.plan.assemblerArguments
  output := .discarded
  makes := [p.files.flash, p.files.eeprom, p.files.object, p.files.debugInfo]
  uses := [p.files.source, p.files.object, p.files.debugInfo, p.files.eeprom]

def conversion : Stage where
  name := "convert"
  notice := "Converting " ++ p.files.flash.toString ++ " to " ++ p.plan.fileType.shown
  role := Tool.converter.role
  arguments := p.plan.converterArguments
  output := .shared
  makes := [p.files.rebuilt]
  uses := [p.files.flash]

/-- The stages before the verdict. -/
def work : List Stage := [p.disassembly, p.postprocessing, p.reassembly, p.conversion]

def perform (s : Stage) : PipelineM Unit := do
  onMachine do
    info s.name s.notice
    p.toolchain.run s.name s.role s.arguments s.output
  produced s.makes
  p.removeTemps s.uses

def performAll : List Stage → PipelineM Unit
  | [] => return
  | s :: rest => do
    p.perform s
    performAll rest

theorem disassemble_eq : p.disassemble = p.perform p.disassembly := by
  have h : p.removeTemps [] = pure () := by
    unfold removeTemps removeEach
    split <;> rfl
  simp only [perform, disassembly, h]
  rfl

theorem stages_eq : p.stages = (do p.performAll p.work; p.verify) := by
  simp only [work, performAll, stages, disassemble_eq, bind_assoc, pure_bind]
  rfl

/-! ## One stage -/

/-- The acts with which a stage starts on its command. -/
def startActs (s : Stage) (command : List String) : List Event :=
  [.logged ⟨pipelineLogger, s.name, Level.info, s.notice⟩,
    .logged (Toolchain.commandRecord "run" s.name command s.output)]

/-- The acts of the removals at the end of a stage. -/
def removedActs (paths : List Path) : List Event :=
  if p.plan.keepTemps then [] else paths.flatMap removalActs

/-- What is pending once a stage has made its files. -/
def recorded (s : Stage) (pending : List Path) : List Path := s.makes.foldl addPending pending

/-- What is pending once a stage is done. -/
def leaves (s : Stage) (pending : List Path) : List Path :=
  if p.plan.keepTemps then recorded s pending else without (recorded s pending) s.uses

/-- A run is that of the stage's command and exited with status 0. -/
def Completed (s : Stage) (run : Run) : Prop :=
  ∃ tool, p.toolchain.tool? s.role = some tool ∧ run.Completes (tool.program :: s.arguments)

/-- The acts of a stage whose tool is not there or misses its command. -/
def Missed (s : Stage) (es : List Event) : Prop :=
  (p.toolchain.tool? s.role = none ∧
    es = [.logged ⟨pipelineLogger, s.name, Level.info, s.notice⟩]) ∨
  ∃ tool e, p.toolchain.tool? s.role = some tool ∧ e.Misses (tool.program :: s.arguments) ∧
    es = startActs s (tool.program :: s.arguments) ++ [e]

/-- The ways in which a stage ends. -/
inductive StageEnd (s : Stage) (w : Workplace (List Path)) :
    EStateM.Result Stop (Workplace (List Path)) Unit → Prop
  | missed (stop : Stop) (es : List Event) (m : Machine) (hblame : stop.Blames s.name)
      (hmiss : p.Missed s es) (hadds : w.machine.Adds es m) : StageEnd s w (.error stop ⟨m, w.own⟩)
  | stuck (run : Run) (gone : List Path) (path : Path) (rest : List Path) (stop reason : Stop)
      (m : Machine) (hrun : p.Completed s run) (hkeep : p.plan.keepTemps = false)
      (huses : s.uses = gone ++ path :: rest) (hblame : BlamesRemoval path stop)
      (hadds : w.machine.Adds (startActs s run.command ++ .ran run ::
        (gone.flatMap removalActs ++ failedRemovalActs path reason)) m) :
      StageEnd s w (.error stop ⟨m, without (recorded s w.own) gone⟩)
  | done (run : Run) (m : Machine) (hrun : p.Completed s run)
      (hnul : ∀ path, s.output = .file path → Text.has '\x00' path.toString = false)
      (hadds : w.machine.Adds (startActs s run.command ++ .ran run :: p.removedActs s.uses) m) :
      StageEnd s w (.ok () ⟨m, p.leaves s w.own⟩)

theorem info_eq (s : Stage) (m : Machine) :
    ∃ m', info s.name s.notice m = .ok () m' ∧
      m.Adds [.logged ⟨pipelineLogger, s.name, Level.info, s.notice⟩] m' :=
  ⟨_, log_eq _ _ _ _ m, m.adds_afterLog _ _ _ _⟩

theorem removeTemps_cases (paths : List Path) (w : Workplace (List Path)) :
    (∃ m', p.removeTemps paths w =
        .ok () ⟨m', if p.plan.keepTemps then w.own else without w.own paths⟩ ∧
      w.machine.Adds (p.removedActs paths) m') ∨
    (∃ gone path rest s reason m', p.plan.keepTemps = false ∧ paths = gone ++ path :: rest ∧
      p.removeTemps paths w = .error s ⟨m', without w.own gone⟩ ∧ BlamesRemoval path s ∧
      w.machine.Adds (gone.flatMap removalActs ++ failedRemovalActs path reason) m') := by
  unfold removeTemps removedActs
  cases hk : p.plan.keepTemps with
  | true => exact Or.inl ⟨w.machine, rfl, Machine.Adds.refl _⟩
  | false =>
    rcases removeEach_cases paths w with ⟨m', hr, ha⟩ | h
    · exact Or.inl ⟨m', hr, ha⟩
    · obtain ⟨gone, path, rest, s, reason, m', hp, hr, hs, ha⟩ := h
      exact Or.inr ⟨gone, path, rest, s, reason, m', rfl, hp, hr, hs, ha⟩

theorem perform_ends (s : Stage) (w : Workplace (List Path)) :
    p.StageEnd s w (p.perform s w) := by
  obtain ⟨m₁, hi, ha₁⟩ := info_eq s w.machine
  unfold perform
  rcases p.toolchain.run_cases s.name s.role s.arguments s.output m₁ with ⟨ht, hr⟩ | h
  · have h₁ : onMachine (β := List Path) (do
        info s.name s.notice
        p.toolchain.run s.name s.role s.arguments s.output) w =
          .error (.unknownRole s.role) ⟨m₁, w.own⟩ :=
      onMachine_eq_error.2 ⟨m₁, by rw [bind_of_ok hi, hr], rfl⟩
    rw [bind_of_error h₁]
    exact .missed _ _ _ nofun (Or.inl ⟨ht, rfl⟩) ha₁
  · obtain ⟨tool, m₂, ht, h⟩ := h
    rcases h with ⟨stop, e, hr, hb, he, ha₂⟩ | ⟨run, hr, hc, hn, ha₂⟩
    · have h₁ : onMachine (β := List Path) (do
          info s.name s.notice
          p.toolchain.run s.name s.role s.arguments s.output) w = .error stop ⟨m₂, w.own⟩ :=
        onMachine_eq_error.2 ⟨m₂, by rw [bind_of_ok hi, hr], rfl⟩
      rw [bind_of_error h₁]
      exact .missed _ _ _ hb (Or.inr ⟨tool, e, ht, he, rfl⟩) (ha₁.trans ha₂)
    · have h₁ : onMachine (β := List Path) (do
          info s.name s.notice
          p.toolchain.run s.name s.role s.arguments s.output) w = .ok () ⟨m₂, w.own⟩ :=
        onMachine_eq_ok.2 ⟨m₂, by rw [bind_of_ok hi, hr], rfl⟩
      have hcmd : run.command = tool.program :: s.arguments := hc.1
      rw [← hcmd] at ha₂
      rw [bind_of_ok h₁, produced, bind_of_ok (modify_apply _ _)]
      change p.StageEnd s w (p.removeTemps s.uses ⟨m₂, recorded s w.own⟩)
      rcases p.removeTemps_cases s.uses ⟨m₂, recorded s w.own⟩ with ⟨m', hrem, ha₃⟩ | h
      · rw [hrem]
        exact .done run m' ⟨tool, ht, hc⟩ hn ((ha₁.trans ha₂).trans ha₃)
      · obtain ⟨gone, path, rest, stop, reason, m', hk, hu, hrem, hb, ha₃⟩ := h
        rw [hrem]
        exact .stuck run gone path rest stop reason m' ⟨tool, ht, hc⟩ hk hu hb
          ((ha₁.trans ha₂).trans ha₃)

/-! ## All stages -/

/-- The acts of stages that are done. -/
def doneActs (ss : List Stage) (runs : List Run) : List Event :=
  (List.zipWith (fun s run => startActs s run.command ++ .ran run :: p.removedActs s.uses)
    ss runs).flatten

theorem quiet_startActs (stream : Stream) (s : Stage) (command : List String) :
    Quiet stream (startActs s command) :=
  quiet_cons (Event.isQuiet_logged stream (show Level.info ≠ Level.warning by decide))
    (quiet_cons (Toolchain.isQuiet_commandRecord _ _ _ _ _) (quiet_nil _))

theorem Missed.quiet {p : Pipeline} {s : Stage} {es : List Event} (h : p.Missed s es)
    (stream : Stream) : Quiet stream es := by
  rcases h with ⟨-, rfl⟩ | ⟨tool, e, -, he, rfl⟩
  · exact quiet_cons (Event.isQuiet_logged stream (show Level.info ≠ Level.warning by decide))
      (quiet_nil _)
  · exact (quiet_startActs stream s _).append (quiet_cons (he.isQuiet stream) (quiet_nil _))

theorem reads_removalActs (stream : Stream) (paths : List Path) :
    removals (paths.flatMap removalActs) = paths.map (fun f => (f.toString, none)) ∧
      warnings (paths.flatMap removalActs) = [] ∧
      reported stream (paths.flatMap removalActs) = [] ∧
      runsOf (paths.flatMap removalActs) = [] := by
  induction paths with
  | nil => exact ⟨rfl, rfl, rfl, rfl⟩
  | cons path rest ih =>
    obtain ⟨hr, hw, hp, hx⟩ := ih
    simp only [List.flatMap_cons, removals_append, warnings_append, reported_append, runsOf_append,
      hr, hw, hp, hx]
    exact ⟨rfl, rfl, rfl, rfl⟩

theorem reads_failedRemovalActs (stream : Stream) (path : Path) (reason : Stop) :
    removals (failedRemovalActs path reason) = [(path.toString, some reason)] ∧
      warnings (failedRemovalActs path reason) = [] ∧
      reported stream (failedRemovalActs path reason) = [] ∧
      runsOf (failedRemovalActs path reason) = [] :=
  ⟨rfl, rfl, rfl, rfl⟩

/-- The acts of a stage at whose end a file stayed. -/
def stuckActs (s : Stage) (run : Run) (gone : List Path) (path : Path) (reason : Stop) :
    List Event :=
  startActs s run.command ++ .ran run ::
    (gone.flatMap removalActs ++ failedRemovalActs path reason)

theorem reads_stuckActs (stream : Stream) (s : Stage) (run : Run) (gone : List Path) (path : Path)
    (reason : Stop) :
    removals (stuckActs s run gone path reason) =
        gone.map (fun f => (f.toString, none)) ++ [(path.toString, some reason)] ∧
      reported stream (stuckActs s run gone path reason) = [] ∧
      runsOf (stuckActs s run gone path reason) = [run] := by
  have hs := quiet_startActs stream s run.command
  obtain ⟨hr, -, hp, hx⟩ := reads_removalActs stream gone
  obtain ⟨hr', -, hp', hx'⟩ := reads_failedRemovalActs stream path reason
  have hx₀ : runsOf (startActs s run.command) = [] := rfl
  have hacts : stuckActs s run gone path reason = startActs s run.command ++
      ([.ran run] ++ (gone.flatMap removalActs ++ failedRemovalActs path reason)) := rfl
  rw [hacts]
  simp only [removals_append, reported_append, runsOf_append, hs.removals_eq, hs.reported_eq, hr, hp,
    hx, hr', hp', hx', hx₀]
  exact ⟨rfl, rfl, rfl⟩

/-- The removals of the files that stages use up. -/
def usedUp (ss : List Stage) : List (String × Option Stop) :=
  if p.plan.keepTemps then [] else (ss.flatMap (·.uses)).map fun f => (f.toString, none)

theorem reads_removedActs (stream : Stream) (paths : List Path) :
    removals (p.removedActs paths) =
        (if p.plan.keepTemps then [] else paths.map fun f => (f.toString, none)) ∧
      warnings (p.removedActs paths) = [] ∧ reported stream (p.removedActs paths) = [] ∧
      runsOf (p.removedActs paths) = [] := by
  unfold removedActs
  cases p.plan.keepTemps with
  | true => exact ⟨rfl, rfl, rfl, rfl⟩
  | false => exact reads_removalActs stream paths

theorem reads_doneActs (stream : Stream) {ss : List Stage} {runs : List Run}
    (h : List.Forall₂ p.Completed ss runs) :
    removals (p.doneActs ss runs) = p.usedUp ss ∧ warnings (p.doneActs ss runs) = [] ∧
      reported stream (p.doneActs ss runs) = [] ∧ runsOf (p.doneActs ss runs) = runs := by
  induction h with
  | nil =>
    refine ⟨?_, rfl, rfl, rfl⟩
    unfold usedUp
    split <;> rfl
  | @cons s run rest runs hrun hrest ih =>
    obtain ⟨hr, hw, hp, hx⟩ := ih
    have hs := quiet_startActs stream s run.command
    obtain ⟨hr', hw', hp', hx'⟩ := p.reads_removedActs stream s.uses
    have hd : p.doneActs (s :: rest) (run :: runs) =
        startActs s run.command ++ ([.ran run] ++ p.removedActs s.uses) ++ p.doneActs rest runs := rfl
    have hx₀ : runsOf (startActs s run.command) = [] := rfl
    rw [hd]
    simp only [removals_append, warnings_append, reported_append, runsOf_append, hr, hw, hp, hx,
      hs.removals_eq, hs.warnings_eq, hs.reported_eq, hr', hw', hp', hx', hx₀]
    refine ⟨?_, rfl, rfl, rfl⟩
    unfold usedUp
    cases p.plan.keepTemps with
    | true => rfl
    | false => simp [removals, Event.removal?]

/-- What is pending once some stages are done. -/
def leavesAll (ss : List Stage) (pending : List Path) : List Path :=
  ss.foldl (fun own s => p.leaves s own) pending

/-- Either all stages are done, or those before some stage are done and that one is not. -/
theorem performAll_cases (ss : List Stage) (w : Workplace (List Path)) :
    (∃ runs m', p.performAll ss w = .ok () ⟨m', p.leavesAll ss w.own⟩ ∧
      List.Forall₂ p.Completed ss runs ∧
      (∀ s ∈ ss, ∀ path, s.output = .file path → Text.has '\x00' path.toString = false) ∧
      w.machine.Adds (p.doneActs ss runs) m') ∨
    (∃ before s rest runs m' stop w', ss = before ++ s :: rest ∧
      p.performAll ss w = .error stop w' ∧ List.Forall₂ p.Completed before runs ∧
      (∀ s ∈ before, ∀ path, s.output = .file path → Text.has '\x00' path.toString = false) ∧
      w.machine.Adds (p.doneActs before runs) m' ∧
      p.StageEnd s ⟨m', p.leavesAll before w.own⟩ (.error stop w')) := by
  induction ss generalizing w with
  | nil => exact Or.inl ⟨[], w.machine, rfl, .nil, nofun, Machine.Adds.refl _⟩
  | cons s rest ih =>
    have hend := p.perform_ends s w
    cases hp : p.perform s w with
    | error stop w' =>
      rw [hp] at hend
      exact Or.inr ⟨[], s, rest, [], w.machine, stop, w', rfl, bind_of_error hp, .nil, nofun,
        Machine.Adds.refl _, hend⟩
    | ok u w₁ =>
      rw [hp] at hend
      cases hend with
      | done run m₁ hrun hnul hadds =>
        rcases ih ⟨m₁, p.leaves s w.own⟩ with ⟨runs, m', hr, hc, hn, ha⟩ | h
        · refine Or.inl ⟨run :: runs, m', (bind_of_ok hp).trans hr, .cons hrun hc, ?_,
            hadds.trans ha⟩
          intro s' hs'
          rcases List.mem_cons.1 hs' with rfl | hs'
          · exact hnul
          · exact hn s' hs'
        · obtain ⟨before, s', rest', runs, m', stop, w', rfl, hr, hc, hn, ha, he⟩ := h
          refine Or.inr ⟨s :: before, s', rest', run :: runs, m', stop, w', rfl,
            (bind_of_ok hp).trans hr, .cons hrun hc, ?_, hadds.trans ha, he⟩
          intro s'' hs''
          rcases List.mem_cons.1 hs'' with rfl | hs''
          · exact hnul
          · exact hn s'' hs''

end Pipeline

end FirmwareAudit
