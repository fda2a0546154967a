import FirmwareAudit.Proofs.Effect
import FirmwareAudit.Proofs.SlotCalls

/-! # Twin machines

Twin machines differ in their trees alone, and these are kin. Work that cannot tell twins apart gives
the same value on both and leaves twins.
-/
namespace FirmwareAudit

section Together

variable {ε σ α β : Type} {R R' R'' : σ → σ → Prop} {P : α → Prop} {Q : β → Prop}

/-- From related states the work gives the same value, one with the given property, and leaves
related states. -/
def Together (R R' : σ → σ → Prop) (act : EStateM ε σ α) (P : α → Prop) : Prop :=
  ∀ s t, R s t → ∃ a s' t', P a ∧ act s = .ok a s' ∧ act t = .ok a t' ∧ R' s' t'

theorem Together.pure {a : α} (h : P a) : Together R R (pure a : EStateM ε σ α) P :=
  fun s t hr => ⟨a, s, t, h, rfl, rfl, hr⟩

theorem Together.bind {x : EStateM ε σ α} {f : α → EStateM ε σ β} (h : Together R R' x P)
    (hf : ∀ a, P a → Together R' R'' (f a) Q) : Together R R'' (x >>= f) Q := by
  intro s t hr
  obtain ⟨a, s', t', ha, hs, ht, hr'⟩ := h s t hr
  obtain ⟨b, s'', t'', hb, hs', ht', hr''⟩ := hf a ha s' t' hr'
  exact ⟨b, s'', t'', hb, (bind_of_ok hs).trans hs', (bind_of_ok ht).trans ht', hr''⟩

end Together

/-- The machine with other files. -/
def Machine.onTree (m : Machine) (t : FileTree) : Machine := { m with tree := t }

namespace Site

variable {p : Pipeline} {m : Machine} (s : Site p m)

/-- A machine that differs from the first one in what a run of the pipeline changes, and a tree that
could be its own. -/
structure OnCourse (σ : String → Standing) (ran : List Tool) (m₁ : Machine) (t₂ : FileTree) :
    Prop where
  cwd : m₁.cwd = m.cwd
  searchPath : m₁.searchPath = m.searchPath
  programs : m₁.programs = m.programs
  turns : ∀ name, m₁.turns name = m.turns name + (ran.map fun t => baseName t.program).count name
  openFiles : m₁.journal.openFiles = m.journal.openFiles
  kin : s.Kin σ m₁.tree t₂

/-- Two machines on course that differ in their trees alone. -/
def Twins (σ : String → Standing) (ran : List Tool) (m₁ m₂ : Machine) : Prop :=
  ∃ t₂, m₂ = m₁.onTree t₂ ∧ s.OnCourse σ ran m₁ t₂

/-- Twin machines with the same files pending. -/
def TwinWork (σ : String → Standing) (ran : List Tool) (w₁ w₂ : Workplace (List Path)) : Prop :=
  s.Twins σ ran w₁.machine w₂.machine ∧ w₁.own = w₂.own

variable {s} {σ σ' : String → Standing} {ran ran' : List Tool}

theorem twins_of_onCourse {act : MachineM α} {P : α → Prop}
    (h : ∀ m₁ t₂, s.OnCourse σ ran m₁ t₂ → ∃ a m₁' t₂', P a ∧ act m₁ = .ok a m₁' ∧
      act (m₁.onTree t₂) = .ok a (m₁'.onTree t₂') ∧ s.OnCourse σ' ran' m₁' t₂') :
    Together (s.Twins σ ran) (s.Twins σ' ran') act P := by
  rintro m₁ _ ⟨t₂, rfl, hon⟩
  obtain ⟨a, m₁', t₂', ha, hr₁, hr₂, hon'⟩ := h m₁ t₂ hon
  exact ⟨a, m₁', m₁'.onTree t₂', ha, hr₁, hr₂, t₂', rfl, hon'⟩

theorem twins_onMachine {act : MachineM α} {P : α → Prop}
    (h : Together (s.Twins σ ran) (s.Twins σ' ran') act P) :
    Together (s.TwinWork σ ran) (s.TwinWork σ' ran') (onMachine act) P := by
  rintro w₁ w₂ ⟨htwins, hown⟩
  obtain ⟨a, m₁, m₂, ha, h₁, h₂, htwins'⟩ := h _ _ htwins
  exact ⟨a, ⟨m₁, w₁.own⟩, ⟨m₂, w₂.own⟩, ha, onMachine_eq_ok.2 ⟨m₁, h₁, rfl⟩,
    onMachine_eq_ok.2 ⟨m₂, h₂, rfl⟩, htwins', hown⟩

theorem twins_own (f : List Path → List Path) :
    Together (s.TwinWork σ ran) (s.TwinWork σ ran)
      (modify fun w => { w with own := f w.own } : PipelineM Unit) fun _ => True := by
  rintro w₁ w₂ ⟨htwins, hown⟩
  exact ⟨(), _, _, trivial, rfl, rfl, htwins, congrArg f hown⟩

/-! ## What goes on besides the tools -/

theorem twins_log (logger operation : String) (level : Int) (message : String) :
    Together (s.Twins σ ran) (s.Twins σ ran) (log logger operation level message)
      fun _ => True := by
  refine twins_of_onCourse fun m₁ t₂ h => ?_
  let j := m₁.journal.asked logger level
  let r : Record := ⟨Journal.properName logger, operation, level, message⟩
  have hfiles : j.openFiles = m.journal.openFiles :=
    (m₁.journal.openFiles_asked logger level).trans h.openFiles
  have hkin : s.Kin σ (m₁.tree.appendEach r.line (j.takers logger r))
      (t₂.appendEach r.line (j.takers logger r)) :=
    h.kin.appendEach_log r.line fun f hf => hfiles ▸ Journal.mem_openFiles_of_mem_takers hf
  refine ⟨(), _, t₂.appendEach r.line (j.takers logger r), trivial, log_eq _ _ _ _ _,
    log_eq _ _ _ _ _, ?_⟩
  exact ⟨h.cwd, h.searchPath, h.programs, h.turns, hfiles, hkin⟩

theorem twins_printLine (stream : Stream) (text : String) :
    Together (s.Twins σ ran) (s.Twins σ ran) (printLine stream text) fun _ => True := by
  refine twins_of_onCourse fun m₁ t₂ h => ⟨(), _, t₂, trivial, rfl, rfl, ?_⟩
  exact ⟨h.cwd, h.searchPath, h.programs, h.turns, h.openFiles, h.kin⟩

theorem twins_unlink {e : String} (he : e ∈ Artifacts.endings) (hs : (σ e).isThere = true) :
    Together (s.Twins σ ran) (s.Twins (mark σ [e] fun _ => .empty) ran)
      (unlink (p.plan.image.withEnding e)) fun _ => True := by
  refine twins_of_onCourse fun m₁ t₂ h => ?_
  obtain ⟨t₁', t₂', hu₁, hu₂, hkin⟩ := h.kin.unlink_both he hs
  rw [← h.cwd] at hu₁ hu₂
  have hr : ∀ {m' : Machine} {t' : FileTree},
      m'.tree.unlink m'.cwd (p.plan.image.withEnding e).toString = .ok t' →
      unlink (p.plan.image.withEnding e) m' =
        .ok () ((m'.onTree t').record (.unlinked (p.plan.image.withEnding e).toString none)) := by
    intro m' t' hu
    rw [unlink, bind_of_ok (get_apply m'), hu]
    rfl
  have hr₂ : unlink (p.plan.image.withEnding e) (m₁.onTree t₂) = _ := hr hu₂
  refine ⟨(), _, t₂', trivial, hr hu₁, hr₂, ?_⟩
  exact ⟨h.cwd, h.searchPath, h.programs, h.turns, h.openFiles, hkin⟩

theorem twins_removeEach {es : List String} (hes : ∀ e ∈ es, e ∈ Artifacts.endings)
    (hn : es.Nodup) (hs : ∀ e ∈ es, (σ e).isThere = true) :
    Together (s.TwinWork σ ran) (s.TwinWork (mark σ es fun _ => .empty) ran)
      (Pipeline.removeEach (es.map p.plan.image.withEnding)) fun _ => True := by
  induction es generalizing σ with
  | nil => exact Together.pure trivial
  | cons e rest ih =>
    -- The files behind the first are still there once it is gone, since no ending comes twice.
    obtain ⟨he, hn⟩ := List.nodup_cons.1 hn
    have hremove : Together (s.Twins σ ran) (s.Twins (mark σ [e] fun _ => .empty) ran)
        (Pipeline.remove (p.plan.image.withEnding e)) fun _ => True := by
      refine (twins_log _ _ _ _).bind fun _ _ => ?_
      intro m₁ m₂ htwins
      obtain ⟨a, m₁', m₂', ha, h₁, h₂, h⟩ :=
        twins_unlink (hes e List.mem_cons_self) (hs e List.mem_cons_self) m₁ m₂ htwins
      exact ⟨a, m₁', m₂', ha, tryCatch_of_ok h₁, tryCatch_of_ok h₂, h⟩
    have hrest : ∀ e' ∈ rest, (mark σ [e] (fun _ => .empty) e').isThere = true := by
      intro e' he'
      have hne : e' ∉ [e] := fun h => he ((List.mem_singleton.1 h) ▸ he')
      rw [mark, if_neg hne]
      exact hs e' (List.mem_cons_of_mem _ he')
    have hih := ih (fun e' he' => hes e' (List.mem_cons_of_mem _ he')) hn hrest
    rw [mark_append] at hih
    have hsettle : Together (s.TwinWork (mark σ [e] fun _ => .empty) ran)
        (s.TwinWork (mark σ [e] fun _ => .empty) ran)
        (Pipeline.settle (p.plan.image.withEnding e)) fun _ => True :=
      twins_own fun own => own.erase (p.plan.image.withEnding e)
    exact (twins_onMachine hremove).bind fun _ _ => hsettle.bind fun _ _ => hih

theorem twins_removeTemps {es : List String} (hes : ∀ e ∈ es, e ∈ Artifacts.endings)
    (hn : es.Nodup) (hs : ∀ e ∈ es, (σ e).isThere = true) :
    Together (s.TwinWork σ ran) (s.TwinWork (afterUse p.plan.keepTemps σ es) ran)
      (p.removeTemps (es.map p.plan.image.withEnding)) fun _ => True := by
  unfold Pipeline.removeTemps afterUse
  cases p.plan.keepTemps with
  | true => exact Together.pure trivial
  | false => exact twins_removeEach hes hn hs

end Site

end FirmwareAudit
