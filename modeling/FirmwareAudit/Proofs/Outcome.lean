import FirmwareAudit.Proofs.Verification

/-! # How a run ends

A run ends as its stages do. Only where a tool failed, or gave no checksum, are pending files
discarded first.
-/
namespace FirmwareAudit

/-- A stop after which pending files are discarded. -/
def Stop.Aborts (s : Stop) : Prop :=
  (∃ cause, s = .fault (.stage cause)) ∨ ∃ path cause, s = .fault (.checksum path cause)

namespace Pipeline

variable (p : Pipeline)

inductive StagesEnd (w : Workplace (List Path)) :
    EStateM.Result Stop (Workplace (List Path)) Verdict → Prop
  | broken (before : List Stage) (s : Stage) (rest : List Stage) (runs : List Run) (m : Machine)
      (stop : Stop) (w' : Workplace (List Path)) (hsplit : p.work = before ++ s :: rest)
      (hruns : List.Forall₂ p.Completed before runs)
      (hnul : ∀ s ∈ before, ∀ path, s.output = .file path → Text.has '\x00' path.toString = false)
      (hadds : w.machine.Adds (p.doneActs before runs) m)
      (hend : p.StageEnd s ⟨m, p.leavesAll before w.own⟩ (.error stop w')) :
      StagesEnd w (.error stop w')
  | verified (runs : List Run) (m : Machine)
      (r : EStateM.Result Stop (Workplace (List Path)) Verdict)
      (hruns : List.Forall₂ p.Completed p.work runs)
      (hnul : ∀ s ∈ p.work, ∀ path, s.output = .file path → Text.has '\x00' path.toString = false)
      (hadds : w.machine.Adds (p.doneActs p.work runs) m)
      (hend : p.VerifyEnd ⟨m, p.leavesAll p.work w.own⟩ r) : StagesEnd w r

theorem stages_ends (w : Workplace (List Path)) : p.StagesEnd w (p.stages w) := by
  rw [stages_eq]
  rcases p.performAll_cases p.work w with ⟨runs, m, hp, hc, hn, ha⟩ | h
  · rw [bind_of_ok hp]
    exact .verified runs m _ hc hn ha (p.verify_ends _)
  · obtain ⟨before, s, rest, runs, m, stop, w', hs, hp, hc, hn, ha, he⟩ := h
    rw [bind_of_error hp]
    exact .broken before s rest runs m stop w' hs hc hn ha he

theorem run_of_ok {w w' : Workplace (List Path)} {v : Verdict} (h : p.stages w = .ok v w') :
    p.run w = .ok v w' :=
  tryCatch_of_ok h

theorem run_of_error {w w' : Workplace (List Path)} {s : Stop} (h : p.stages w = .error s w')
    (hs : ¬ s.Aborts) : p.run w = .error s w' := by
  rw [run, tryCatch_of_error h]
  split
  · exact absurd (Or.inl ⟨_, rfl⟩) hs
  · exact absurd (Or.inr ⟨_, _, rfl⟩) hs
  · rfl

theorem run_of_abort {w w' : Workplace (List Path)} {s : Stop} (h : p.stages w = .error s w')
    (hs : s.Aborts) : p.run w = (do p.discardPending; throw s) w' := by
  rw [run, tryCatch_of_error h]
  rcases hs with ⟨cause, rfl⟩ | ⟨path, cause, rfl⟩ <;> rfl

/-- A run that returns does so from its stages. -/
theorem stages_of_run {w w' : Workplace (List Path)} {v : Verdict} (h : p.run w = .ok v w') :
    p.stages w = .ok v w' := by
  cases hs : p.stages w with
  | ok v' w₁ => rw [← h, p.run_of_ok hs]
  | error s w₁ =>
    by_cases ha : s.Aborts
    · rw [p.run_of_abort hs ha] at h
      obtain ⟨u, w₂, -, h⟩ := bind_eq_ok.1 h
      cases h
    · rw [p.run_of_error hs ha] at h
      cases h

theorem not_aborts_of_blamesRemoval {path : Path} {s : Stop} (h : BlamesRemoval path s) :
    ¬ s.Aborts := by
  rintro (⟨cause, rfl⟩ | ⟨path', cause, rfl⟩)
  · obtain ⟨e, he⟩ := h _ rfl
    cases he
  · obtain ⟨e, he⟩ := h _ rfl
    cases he

theorem not_aborts_of_isCallFault {s : Stop} (h : s.IsCallFault) : ¬ s.Aborts := by
  rintro (⟨cause, rfl⟩ | ⟨path', cause, rfl⟩)
  · rcases h with h | ⟨e, h⟩ <;> cases h
  · rcases h with h | ⟨e, h⟩ <;> cases h

theorem not_aborts_mismatch (image rebuilt : Checksum) :
    ¬ (Stop.fault (.mismatch image rebuilt)).Aborts := by
  rintro (⟨cause, h⟩ | ⟨path', cause, h⟩) <;> cases h

end Pipeline

end FirmwareAudit
