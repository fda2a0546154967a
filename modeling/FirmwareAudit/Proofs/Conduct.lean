import FirmwareAudit.Proofs.Leftovers

/-! # The conduct of a pipeline

What a pipeline does with the machine is five things: it runs a tool for a stage, removes a file or
tries to, compares checksums and judges on them. What each of these observes a whole run observes.
-/
namespace FirmwareAudit
namespace Pipeline

/-- Each thing that the pipeline does with the machine keeps the property, and where it stops, so
much holds of the reason and of the machine. -/
structure Conduct (p : Pipeline) (I : Machine → Prop) (P : Stop → Machine → Prop) : Prop where
  starts : ∀ s ∈ p.work, Abides I P (do
    info s.name s.notice
    p.toolchain.run s.name s.role s.arguments s.output)
  removes : ∀ f ∈ p.files.all, Abides I P (remove f)
  discards : ∀ f ∈ p.files.all, Abides I P (discard f)
  compares : Abides I P p.compare
  judges : ∀ image rebuilt, Abides I P (p.judge image rebuilt)

namespace Conduct
variable {p : Pipeline} {I : Machine → Prop} {P : Stop → Machine → Prop}

variable (p I) in
/-- A machine with the property, and nothing pending but artifacts. -/
def OnWork (w : Workplace (List Path)) : Prop := I w.machine ∧ ∀ f ∈ w.own, f ∈ p.files.all

variable (P) in
/-- What holds of a stop at work is what holds of it on the machine. -/
abbrev AtStop (s : Stop) (w : Workplace (List Path)) : Prop := P s w.machine

theorem onMachine {act : MachineM α} (h : Abides I P act) :
    Abides (OnWork p I) (AtStop P) (onMachine act) := by
  intro w hw
  obtain ⟨hI, hP⟩ := h w.machine hw.1
  rw [AbidesAt, failure?_onMachine, endState_onMachine]
  exact ⟨⟨hI, hw.2⟩, hP⟩

theorem settle (path : Path) : Abides (OnWork p I) (AtStop P) (settle path) :=
  .of_ok (fun _ h => ⟨h.1, fun f hf => h.2 f (List.mem_of_mem_erase hf)⟩) fun _ => rfl

theorem produced {paths : List Path} (hpaths : ∀ f ∈ paths, f ∈ p.files.all) :
    Abides (OnWork p I) (AtStop P) (produced paths) := by
  refine .of_ok (fun w hw => ⟨hw.1, fun f hf => ?_⟩) fun _ => rfl
  rcases mem_foldl_addPending.1 hf with hf | hf
  · exact hw.2 f hf
  · exact hpaths f hf

theorem removeTemps (h : p.Conduct I P) {paths : List Path} (hpaths : ∀ f ∈ paths, f ∈ p.files.all) :
    Abides (OnWork p I) (AtStop P) (p.removeTemps paths) := by
  unfold Pipeline.removeTemps
  apply Abides.ite (.pure _)
  induction paths with
  | nil => exact .pure _
  | cons path rest ih =>
    rw [List.forall_mem_cons] at hpaths
    exact (onMachine (h.removes path hpaths.1)).bind fun _ => (settle path).bind fun _ => ih hpaths.2

theorem discardEach {paths : List Path} (hpaths : ∀ f ∈ paths, f ∈ p.files.all)
    (h : ∀ f ∈ p.files.all, Abides I P (discard f)) :
    Abides (OnWork p I) (AtStop P) (discardEach paths) := by
  induction paths with
  | nil => exact .pure _
  | cons path rest ih =>
    rw [List.forall_mem_cons] at hpaths
    exact (onMachine (h path hpaths.1)).bind fun _ => (settle path).bind fun _ => ih hpaths.2

theorem discardPending (h : ∀ f ∈ p.files.all, Abides I P (discard f)) :
    Abides (OnWork p I) (AtStop P) p.discardPending := by
  unfold Pipeline.discardPending
  apply Abides.ite (.pure _)
  intro w hw
  exact .after (get_apply w) (discardEach hw.2 h w hw)

theorem perform (h : p.Conduct I P) {s : Stage} (hs : s ∈ p.work) :
    Abides (OnWork p I) (AtStop P) (p.perform s) := by
  have hfiles : ∀ s ∈ p.work,
      (∀ f ∈ s.makes, f ∈ p.files.all) ∧ ∀ f ∈ s.uses, f ∈ p.files.all := by
    simp [work, disassembly, postprocessing, reassembly, conversion, Artifacts.all]
  obtain ⟨hmakes, huses⟩ := hfiles s hs
  exact (onMachine (h.starts s hs)).bind fun _ => (produced hmakes).bind fun _ => h.removeTemps huses

theorem performAll (h : p.Conduct I P) {ss : List Stage} (hss : ∀ s ∈ ss, s ∈ p.work) :
    Abides (OnWork p I) (AtStop P) (p.performAll ss) := by
  induction ss with
  | nil => exact .pure _
  | cons s rest ih =>
    rw [List.forall_mem_cons] at hss
    exact (h.perform hss.1).bind fun _ => ih hss.2

theorem verify (h : p.Conduct I P) : Abides (OnWork p I) (AtStop P) p.verify := by
  have hrebuilt : ∀ f ∈ [p.files.rebuilt], f ∈ p.files.all := by simp [Artifacts.all]
  exact (onMachine h.compares).bind fun c => (h.removeTemps hrebuilt).bind fun _ =>
    onMachine (h.judges c.1 c.2)

theorem stages (h : p.Conduct I P) : Abides (OnWork p I) (AtStop P) p.stages := by
  rw [stages_eq]
  exact (h.performAll fun _ hs => hs).bind fun _ => h.verify

/-- A run observes what its parts do, provided that what holds of the first fault still does when
pending files were discarded. -/
theorem run_of_discards (h : p.Conduct I P) (hdiscards : ∀ fault, ∀ f ∈ p.files.all,
    Abides (fun m => I m ∧ P (.fault fault) m) P (discard f)) :
    Abides (OnWork p I) (AtStop P) p.run := by
  have habort : ∀ fault w, OnWork p I w → AtStop P (.fault fault) w →
      AbidesAt (OnWork p I) (AtStop P) (do
        p.discardPending
        throw (.fault fault) : PipelineM Verdict) w := by
    intro fault w hw hs
    have habides : Abides (OnWork p fun m => I m ∧ P (.fault fault) m) (AtStop P) (do
        p.discardPending
        throw (.fault fault) : PipelineM Verdict) :=
      (discardPending (hdiscards fault)).bind fun _ => .throw fun w hw => hw.1.2
    obtain ⟨⟨hI, hown⟩, hP⟩ := habides w ⟨⟨hw.1, hs⟩, hw.2⟩
    exact ⟨⟨hI.1, hown⟩, hP⟩
  apply h.stages.tryCatch
  intro s w hw hs
  split
  · exact habort _ w hw hs
  · exact habort _ w hw hs
  · exact .throw hw hs

/-- A run observes what its parts do, provided that nothing is asked of the machine in which a stop
that makes it discard files was first thrown. -/
theorem run (h : p.Conduct I P) (hfault : ∀ f m, I m → P (.fault f) m) :
    Abides (OnWork p I) (AtStop P) p.run := by
  refine h.run_of_discards fun fault f hf m hm => ?_
  obtain ⟨hI, hP⟩ := h.discards f hf m hm.1
  exact ⟨⟨hI, hfault fault _ hI⟩, hP⟩

end Conduct

end Pipeline
end FirmwareAudit
