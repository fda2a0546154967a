import FirmwareAudit.Proofs.Serving
import FirmwareAudit.Proofs.Verification

/-! # Stages on twins

With tools that serve, every stage goes through on twin machines. What is known of the artifacts
after some stages follows from what each stage makes and uses up, and is what the next stage needs.
-/
namespace FirmwareAudit
open Text

namespace Site

variable {p : Pipeline} {m : Machine}

/-- The tools that a run starts, in their order. -/
def callOrder : List Tool :=
  [Tool.disassembler, Tool.postprocessor, Tool.assembler, Tool.converter, Tool.checksum,
    Tool.checksum]

/-- Twin machines after the first `n` stages and the calls of some tools. -/
def TwinsAfter (s : Site p m) (text : String → String) (n calls : Nat) : Machine → Machine → Prop :=
  s.Twins (standing p.plan.keepTemps text n) (callOrder.take calls)

/-- Twin workplaces after the first `n` stages and the calls of some tools. -/
def TwinWorkAfter (s : Site p m) (text : String → String) (n calls : Nat)
    (w₁ w₂ : Workplace (List Path)) : Prop :=
  s.TwinsAfter text n calls w₁.machine w₂.machine ∧ w₁.own = w₂.own

variable {s : Site p m} {σ : String → Standing} {ran : List Tool} {tool : Tool}
  {text : String → String} {y : Yield}

/-- A stage on twins, once its command succeeds on them. -/
theorem twins_perform (stage : Stage) {made used : List String}
    (hrun : Together (s.Twins σ ran)
      (s.Twins (mark σ made fun e => .settled (text e)) (ran ++ [tool]))
      (p.toolchain.run stage.name stage.role stage.arguments stage.output) fun _ => True)
    (huses : stage.uses = used.map p.plan.image.withEnding)
    (hused : ∀ e ∈ used, e ∈ Artifacts.endings) (hn : used.Nodup)
    (hs : ∀ e ∈ used, (mark σ made (fun e => .settled (text e)) e).isThere = true) :
    Together (s.TwinWork σ ran)
      (s.TwinWork (afterUse p.plan.keepTemps (mark σ made fun e => .settled (text e)) used)
        (ran ++ [tool]))
      (p.perform stage) fun _ => True := by
  have hinfo : Together (s.Twins σ ran) (s.Twins σ ran) (Pipeline.info stage.name stage.notice)
      fun _ => True := twins_log _ _ _ _
  have hproduced : Together (s.TwinWork (mark σ made fun e => .settled (text e)) (ran ++ [tool]))
      (s.TwinWork (mark σ made fun e => .settled (text e)) (ran ++ [tool]))
      (Pipeline.produced stage.makes) fun _ => True :=
    twins_own fun own => stage.makes.foldl Pipeline.addPending own
  have hremoved : Together (s.TwinWork (mark σ made fun e => .settled (text e)) (ran ++ [tool]))
      (s.TwinWork (afterUse p.plan.keepTemps (mark σ made fun e => .settled (text e)) used)
        (ran ++ [tool])) (p.removeTemps stage.uses) fun _ => True := by
    rw [huses]
    exact twins_removeTemps hused hn hs
  exact (twins_onMachine (hinfo.bind fun _ _ => hrun)).bind fun _ _ =>
    hproduced.bind fun _ _ => hremoved

section Work

variable (tools : s.Tools y)
include tools

theorem twins_disassembly :
    Together (s.TwinWorkAfter y.text 0 0) (s.TwinWorkAfter y.text 1 1) (p.perform p.disassembly)
      fun _ => True := by
  have hrun : Together (s.TwinsAfter y.text 0 0)
      (s.Twins (mark (standing p.plan.keepTemps y.text 0) [".raw.asm"] fun e => .settled (y.text e))
        (callOrder.take 1))
      (p.toolchain.run "disassemble" Tool.disassembler.role p.plan.disassemblerArguments
        (.file p.files.listing)) fun _ => True :=
    twins_run _ (by decide) (twins_redirected (by decide) tools.disassembler (by decide)
      s.nulFree.disassemblerArguments (by decide))
  exact twins_perform p.disassembly hrun rfl nofun (by decide) nofun

theorem twins_postprocessing :
    Together (s.TwinWorkAfter y.text 1 1) (s.TwinWorkAfter y.text 2 2) (p.perform p.postprocessing)
      fun _ => True := by
  have hs : ∀ keep, [".raw.asm"].all fun e => (mark (standing keep y.text 1) [".asm"]
      (fun e => .settled (y.text e)) e).isThere := by
    intro keep
    cases keep <;> rfl
  have hrun : Together (s.TwinsAfter y.text 1 1)
      (s.Twins (mark (standing p.plan.keepTemps y.text 1) [".asm"] fun e => .settled (y.text e))
        (callOrder.take 2))
      (p.toolchain.run "postprocess" Tool.postprocessor.role p.plan.postprocessorArguments
        (.file p.files.source)) fun _ => True :=
    twins_run _ (by decide) (twins_redirected (by decide) tools.postprocessor (by decide)
      s.nulFree.postprocessorArguments (by decide))
  exact twins_perform p.postprocessing hrun rfl (by decide) (by decide)
    (List.all_eq_true.1 (hs p.plan.keepTemps))

theorem twins_reassembly :
    Together (s.TwinWorkAfter y.text 2 2) (s.TwinWorkAfter y.text 3 3) (p.perform p.reassembly)
      fun _ => True := by
  obtain ⟨out, hserves⟩ := tools.assembler
  have hs : ∀ keep, [".asm", ".obj", ".cof", ".eep.hex"].all fun e =>
      (mark (standing keep y.text 2) [".hex", ".eep.hex", ".obj", ".cof"]
        (fun e => .settled (y.text e)) e).isThere := by
    intro keep
    cases keep <;> rfl
  have hrun : Together (s.TwinsAfter y.text 2 2)
      (s.Twins (mark (standing p.plan.keepTemps y.text 2) [".hex", ".eep.hex", ".obj", ".cof"]
        fun e => .settled (y.text e)) (callOrder.take 3))
      (p.toolchain.run "reassemble" Tool.assembler.role p.plan.assemblerArguments .discarded)
      fun _ => True :=
    twins_run _ (by decide) (twins_direct hserves (by decide) (by decide)
      s.nulFree.assemblerArguments (by decide) nofun)
  exact twins_perform p.reassembly hrun rfl (by decide) (by decide)
    (List.all_eq_true.1 (hs p.plan.keepTemps))

theorem twins_conversion :
    Together (s.TwinWorkAfter y.text 3 3) (s.TwinWorkAfter y.text 4 4) (p.perform p.conversion)
      fun _ => True := by
  obtain ⟨out, hserves⟩ := tools.converter
  have hs : ∀ keep, [".hex"].all fun e => (mark (standing keep y.text 3) [".reassembled"]
      (fun e => .settled (y.text e)) e).isThere := by
    intro keep
    cases keep <;> rfl
  have hrun : Together (s.TwinsAfter y.text 3 3)
      (s.Twins (mark (standing p.plan.keepTemps y.text 3) [".reassembled"]
        fun e => .settled (y.text e)) (callOrder.take 4))
      (p.toolchain.run "convert" Tool.converter.role p.plan.converterArguments .shared)
      fun _ => True :=
    twins_run _ (by decide) (twins_direct hserves (by decide) (by decide)
      s.nulFree.converterArguments (by decide) nofun)
  exact twins_perform p.conversion hrun rfl (by decide) (by decide)
    (List.all_eq_true.1 (hs p.plan.keepTemps))

theorem twins_work :
    Together (s.TwinWorkAfter y.text 0 0) (s.TwinWorkAfter y.text 4 4) (p.performAll p.work)
      fun _ => True :=
  (twins_disassembly tools).bind fun _ _ => (twins_postprocessing tools).bind fun _ _ =>
    (twins_reassembly tools).bind fun _ _ => (twins_conversion tools).bind fun _ _ =>
      Together.pure trivial

theorem twins_compare :
    Together (s.TwinsAfter y.text 4 4) (s.TwinsAfter y.text 4 6) p.compare
      (· = (⟨p.plan.image, y.image⟩, ⟨p.files.rebuilt, y.rebuilt⟩)) := by
  have himage : has '\x00' p.plan.image.toString = false := s.nulFree _ (by simp [Plan.texts])
  have hrebuilt : has '\x00' p.files.rebuilt.toString = false := s.nulFree.withEnding (by decide)
  have hfirst : Together (s.TwinsAfter y.text 4 4) (s.TwinsAfter y.text 4 5)
      (p.toolchain.checksum p.plan.image) (· = ⟨p.plan.image, y.image⟩) :=
    twins_checksum tools.image himage (by decide)
  have hsecond : Together (s.TwinsAfter y.text 4 5) (s.TwinsAfter y.text 4 6)
      (p.toolchain.checksum p.files.rebuilt) (· = ⟨p.files.rebuilt, y.rebuilt⟩) :=
    twins_checksum tools.rebuilt hrebuilt (by decide)
  refine hfirst.bind ?_
  rintro _ rfl
  refine hsecond.bind ?_
  rintro _ rfl
  exact (twins_printLine _ _).bind fun _ _ => (twins_printLine _ _).bind fun _ _ =>
    Together.pure rfl

end Work

/-! ## What is kept -/

theorem twins_pathExists {e : String} (he : e ∈ Artifacts.endings) (hs : (σ e).isThere = true) :
    Together (s.Twins σ ran) (s.Twins σ ran) (pathExists (p.plan.image.withEnding e))
      (· = true) := by
  refine twins_of_onCourse fun m₁ t₂ h => ?_
  have hhere : ∀ {m' : Machine} {t' : FileTree}, m'.cwd = m.cwd → s.Kin σ m'.tree t' →
      pathExists (p.plan.image.withEnding e) m' = .ok true m' := by
    intro m' t' hcwd hkin
    have hprobe := hkin.probe_slot he
    obtain ⟨f, hf, -⟩ := (hkin.holds e he).file hs
    rw [← hcwd, hf] at hprobe
    unfold pathExists
    have hnode : nodeAt (p.plan.image.withEnding e) m' = .ok (some (.file f)) m' := by
      rw [nodeAt, bind_of_ok (get_apply m'), hprobe]
      rfl
    exact bind_of_ok hnode
  exact ⟨true, m₁, t₂, rfl, hhere h.cwd h.kin, hhere h.cwd h.kin.swap, h⟩

theorem twins_existing {es : List String} (hes : ∀ e ∈ es, e ∈ Artifacts.endings)
    (hs : ∀ e ∈ es, (σ e).isThere = true) :
    Together (s.Twins σ ran) (s.Twins σ ran)
      (Pipeline.existing (es.map p.plan.image.withEnding))
      (· = es.map p.plan.image.withEnding) := by
  induction es with
  | nil => exact Together.pure rfl
  | cons e rest ih =>
    have hrest := ih (fun e' he' => hes e' (List.mem_cons_of_mem _ he'))
      fun e' he' => hs e' (List.mem_cons_of_mem _ he')
    refine (twins_pathExists (hes e List.mem_cons_self) (hs e List.mem_cons_self)).bind ?_
    rintro _ rfl
    refine hrest.bind ?_
    rintro _ rfl
    exact Together.pure rfl

end Site

end FirmwareAudit
