import FirmwareAudit.Proofs.Conduct
import FirmwareAudit.Proofs.Lockstep

/-! # Pipelines in step

A pipeline whose artifacts lie at none of a scene's places goes the same way on both machines of a
pair: each stage, each removal and the verdict do, and so does the whole run.
-/
namespace FirmwareAudit
namespace Scene
open Pipeline

variable {s : Scene}

/-- A pair at work, with the same files pending, which lie at none of the places. -/
structure PairAtWork (s : Scene) (w w' : Workplace (List Path)) : Prop where
  machine : s.Pair w.machine w'.machine
  own : w'.own = w.own
  apart : ∀ f ∈ w.own, s.Apart f

theorem inStep_onMachine {act : MachineM α} {act' : MachineM β} {V : α → β → Prop}
    (h : InStep s.Pair V act act') : InStep s.PairAtWork V (onMachine act) (onMachine act') := by
  intro w w' p
  have hend := h _ _ p.machine
  unfold onMachine
  generalize act w.machine = r at hend ⊢
  generalize act' w'.machine = r' at hend ⊢
  cases hend with
  | ok hr => exact .ok ⟨hr.1, hr.2, p.own, p.apart⟩
  | error hr => exact .error ⟨hr.1, hr.2, p.own, p.apart⟩

theorem inStep_settle (path : Path) : InStep s.PairAtWork Eq (settle path) (settle path) := by
  intro w w' p
  refine .ok ⟨rfl, p.machine, congrArg (·.erase path) p.own, fun f hf => ?_⟩
  exact p.apart f (List.mem_of_mem_erase hf)

theorem inStep_produced {paths : List Path} (hpaths : ∀ f ∈ paths, s.Apart f) :
    InStep s.PairAtWork Eq (produced paths) (produced paths) := by
  intro w w' p
  refine .ok ⟨rfl, p.machine, congrArg (paths.foldl addPending) p.own, fun f hf => ?_⟩
  rcases mem_foldl_addPending.1 hf with hf | hf
  · exact p.apart f hf
  · exact hpaths f hf

/-! ## Removals -/

theorem inStep_remove {path : Path} (hpath : s.Apart path) :
    InStep s.Pair Eq (remove path) (remove path) :=
  (inStep_log _ _ _ _ _).bind fun _ _ _ =>
    inStep_wrapSystemError (inStep_unlink hpath) fun _ _ => .cleanup path _ _

theorem inStep_discard {path : Path} (hpath : s.Apart path) :
    InStep s.Pair Eq (discard path) (discard path) :=
  (inStep_log _ _ _ _ _).bind fun _ _ _ =>
    (inStep_unlink hpath).catchSystem fun _ _ => inStep_log _ _ _ _ _

theorem inStep_removeEach {paths : List Path} (hpaths : ∀ f ∈ paths, s.Apart f) :
    InStep s.PairAtWork Eq (removeEach paths) (removeEach paths) := by
  induction paths with
  | nil => exact .pure rfl
  | cons path rest ih =>
    rw [List.forall_mem_cons] at hpaths
    exact (inStep_onMachine (inStep_remove hpaths.1)).bind fun _ _ _ =>
      (inStep_settle path).bind fun _ _ _ => ih hpaths.2

theorem inStep_discardEach {paths : List Path} (hpaths : ∀ f ∈ paths, s.Apart f) :
    InStep s.PairAtWork Eq (discardEach paths) (discardEach paths) := by
  induction paths with
  | nil => exact .pure rfl
  | cons path rest ih =>
    rw [List.forall_mem_cons] at hpaths
    exact (inStep_onMachine (inStep_discard hpaths.1)).bind fun _ _ _ =>
      (inStep_settle path).bind fun _ _ _ => ih hpaths.2

variable (p : Pipeline)

theorem inStep_removeTemps {paths : List Path} (hpaths : ∀ f ∈ paths, s.Apart f) :
    InStep s.PairAtWork Eq (p.removeTemps paths) (p.removeTemps paths) :=
  .ite (.pure rfl) (inStep_removeEach hpaths)

theorem inStep_discardPending : InStep s.PairAtWork Eq p.discardPending p.discardPending := by
  refine .ite (.pure rfl) fun w w' h => ?_
  rw [bind_of_ok (get_apply w), bind_of_ok (get_apply w'), h.own]
  exact inStep_discardEach h.apart w w' h

/-! ## Stages -/

section Stages
variable (hfiles : ∀ f ∈ p.files.all, s.Apart f)
include hfiles

theorem inStep_perform {stage : Stage} (hstage : stage ∈ p.work) :
    InStep s.PairAtWork Eq (p.perform stage) (p.perform stage) := by
  have hlists : ∀ stage ∈ p.work, (∀ f ∈ stage.makes, f ∈ p.files.all) ∧
      (∀ f ∈ stage.uses, f ∈ p.files.all) ∧ ∀ f, stage.output = .file f → f ∈ p.files.all := by
    simp [work, disassembly, postprocessing, reassembly, conversion, Artifacts.all]
  obtain ⟨hmakes, huses, houtput⟩ := hlists stage hstage
  have hrun : InStep s.Pair Eq (do
      info stage.name stage.notice
      p.toolchain.run stage.name stage.role stage.arguments stage.output) (do
      info stage.name stage.notice
      p.toolchain.run stage.name stage.role stage.arguments stage.output) :=
    (inStep_log _ _ _ _ _).bind fun _ _ _ =>
      inStep_run _ _ _ _ fun f hf => hfiles f (houtput f hf)
  exact (inStep_onMachine hrun).bind fun _ _ _ =>
    (inStep_produced fun f hf => hfiles f (hmakes f hf)).bind fun _ _ _ =>
      inStep_removeTemps p fun f hf => hfiles f (huses f hf)

theorem inStep_performAll {stages : List Stage} (hstages : ∀ stage ∈ stages, stage ∈ p.work) :
    InStep s.PairAtWork Eq (p.performAll stages) (p.performAll stages) := by
  induction stages with
  | nil => exact .pure rfl
  | cons stage rest ih =>
    rw [List.forall_mem_cons] at hstages
    exact (inStep_perform p hfiles hstages.1).bind fun _ _ _ => ih hstages.2

omit hfiles in
theorem inStep_compare : InStep s.Pair Eq p.compare p.compare := by
  refine (inStep_checksum _ _).bind ?_
  rintro image - rfl
  refine (inStep_checksum _ _).bind ?_
  rintro rebuilt - rfl
  exact (inStep_printLine _ _).bind fun _ _ _ => (inStep_printLine _ _).bind fun _ _ _ => .pure rfl

omit hfiles in
theorem inStep_existing {paths : List Path} (hpaths : ∀ f ∈ paths, s.Apart f) :
    InStep s.Pair Eq (existing paths) (existing paths) := by
  induction paths with
  | nil => exact .pure rfl
  | cons path rest ih =>
    rw [List.forall_mem_cons] at hpaths
    refine (inStep_pathExists hpaths.1).bind ?_
    rintro here - rfl
    refine (ih hpaths.2).bind ?_
    rintro others - rfl
    exact .pure rfl

theorem inStep_judge (image rebuilt : Checksum) :
    InStep s.Pair Eq (p.judge image rebuilt) (p.judge image rebuilt) := by
  have hkept : InStep s.Pair Eq p.kept p.kept := .ite (inStep_existing hfiles) (.pure rfl)
  refine hkept.bind ?_
  rintro kept - rfl
  exact .ite ((inStep_printLine _ _).bind fun _ _ _ => .pure rfl) (.throw (.same _))

theorem inStep_stages : InStep s.PairAtWork Eq p.stages p.stages := by
  rw [stages_eq]
  refine (inStep_performAll p hfiles fun _ h => h).bind fun _ _ _ => ?_
  refine (inStep_onMachine (inStep_compare p)).bind ?_
  rintro sums - rfl
  refine (inStep_removeTemps p (List.forall_mem_singleton.2 (hfiles _ ?_))).bind fun _ _ _ => ?_
  · simp [Artifacts.all]
  · exact inStep_onMachine (inStep_judge p hfiles sums.1 sums.2)

theorem inStep_pipeline : InStep s.PairAtWork Eq p.run p.run := by
  have habort {f f' : Fault} (h : (Stop.fault f).Akin (.fault f')) :
      InStep s.PairAtWork Eq (do
        p.discardPending
        throw (.fault f) : PipelineM Verdict) (do
        p.discardPending
        throw (.fault f') : PipelineM Verdict) :=
    (inStep_discardPending p).bind fun _ _ _ => .throw h
  refine (inStep_stages p hfiles).tryCatch fun e e' he => ?_
  cases he with
  | same e =>
    split
    · exact habort (.same _)
    · exact habort (.same _)
    · exact .throw (.same _)
  | system e e' => exact .throw (.system e e')
  | stage f f' => exact habort (.stage f f')
  | cleanup path e e' => exact .throw (.cleanup path e e')
  | checksum path c c' => exact habort (.checksum path c c')

theorem inStep_runFresh : InStep s.Pair Eq p.runFresh p.runFresh := by
  intro m m' h
  have hend := inStep_pipeline p hfiles ⟨m, []⟩ ⟨m', []⟩ ⟨h, rfl, List.forall_mem_nil _⟩
  unfold runFresh startWith
  generalize p.run ⟨m, []⟩ = r at hend ⊢
  generalize p.run ⟨m', []⟩ = r' at hend ⊢
  cases hend with
  | ok hr => exact .ok ⟨hr.1, hr.2.machine⟩
  | error hr => exact .error ⟨hr.1, hr.2.machine⟩

end Stages

end Scene
end FirmwareAudit
