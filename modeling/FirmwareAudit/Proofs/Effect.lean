import FirmwareAudit.Machine.Workplace

/-! # How computations end

A computation that may stop early ends in a value or a reason, and in a state either way. A sequence
ends as its last part does, or as the first part that stops.
-/
namespace FirmwareAudit

variable {ε σ α β : Type}

/-- The state that a computation ends in. -/
def endState : EStateM.Result ε σ α → σ
  | .ok _ s => s
  | .error _ s => s

@[simp] theorem endState_ok (a : α) (s : σ) :
    endState (.ok a s : EStateM.Result ε σ α) = s := rfl

@[simp] theorem endState_error (e : ε) (s : σ) :
    endState (.error e s : EStateM.Result ε σ α) = s := rfl

/-- Why a computation stopped, if it did. -/
def failure? : EStateM.Result ε σ α → Option ε
  | .ok _ _ => none
  | .error e _ => some e

theorem eq_error_of_failure? {r : EStateM.Result ε σ α} {e : ε} (h : failure? r = some e) :
    r = .error e (endState r) := by
  cases r with
  | ok a s => cases h
  | error e' s =>
    cases h
    rfl

/-- The computation ended in a value, and in a state that passes the test. -/
def endsWell (test : σ → Bool) : EStateM.Result ε σ α → Bool
  | .ok _ s => test s
  | .error .. => false

theorem eq_ok_of_endsWell {r : EStateM.Result ε σ α} {test : σ → Bool} (h : endsWell test r = true) :
    ∃ a, r = .ok a (endState r) ∧ test (endState r) = true := by
  cases r with
  | ok a s => exact ⟨a, rfl, h⟩
  | error e s => cases h

@[simp] theorem pure_apply (a : α) (s : σ) : (pure a : EStateM ε σ α) s = .ok a s := rfl

@[simp] theorem throw_apply (e : ε) (s : σ) : (throw e : EStateM ε σ α) s = .error e s := rfl

@[simp] theorem get_apply (s : σ) : (get : EStateM ε σ σ) s = .ok s s := rfl

@[simp] theorem set_apply (s t : σ) : (set t : EStateM ε σ PUnit) s = .ok ⟨⟩ t := rfl

@[simp] theorem modify_apply (f : σ → σ) (s : σ) :
    (modify f : EStateM ε σ PUnit) s = .ok ⟨⟩ (f s) := rfl

section Sequence
variable {x : EStateM ε σ α} {f : α → EStateM ε σ β} {s t : σ}

theorem bind_of_ok {a : α} (h : x s = .ok a t) : (x >>= f) s = f a t := by
  change EStateM.bind x f s = _
  simp only [EStateM.bind, h]

theorem bind_of_error {e : ε} (h : x s = .error e t) : (x >>= f) s = .error e t := by
  change EStateM.bind x f s = _
  simp only [EStateM.bind, h]

theorem bind_eq_ok {b : β} :
    (x >>= f) s = .ok b t ↔ ∃ a u, x s = .ok a u ∧ f a u = .ok b t := by
  constructor
  · intro h
    cases hx : x s with
    | ok a u => exact ⟨a, u, rfl, (bind_of_ok hx).symm.trans h⟩
    | error e u =>
      rw [bind_of_error hx] at h
      cases h
  · rintro ⟨a, u, hx, hf⟩
    rw [bind_of_ok hx, hf]

theorem bind_eq_error {e : ε} :
    (x >>= f) s = .error e t ↔
      x s = .error e t ∨ ∃ a u, x s = .ok a u ∧ f a u = .error e t := by
  constructor
  · intro h
    cases hx : x s with
    | ok a u => exact Or.inr ⟨a, u, rfl, (bind_of_ok hx).symm.trans h⟩
    | error e' u =>
      rw [bind_of_error hx] at h
      cases h
      exact Or.inl rfl
  · rintro (hx | ⟨a, u, hx, hf⟩)
    · rw [bind_of_error hx]
    · rw [bind_of_ok hx, hf]

end Sequence

section Recovery
variable {x : EStateM ε σ α} {h : ε → EStateM ε σ α} {s t : σ}

theorem tryCatch_of_ok {a : α} (hx : x s = .ok a t) : tryCatch x h s = .ok a t := by
  change EStateM.tryCatch x h s = _
  delta EStateM.tryCatch
  simp only [hx]

theorem tryCatch_of_error {e : ε} (hx : x s = .error e t) : tryCatch x h s = h e t := by
  change EStateM.tryCatch x h s = _
  delta EStateM.tryCatch
  simp only [hx]
  rfl

end Recovery

/-! ## Invariants -/

/-- From a state with the property the computation comes to one with it, even if it stops. -/
def Keeps (I : σ → Prop) (x : EStateM ε σ α) : Prop := ∀ s, I s → I (endState (x s))

namespace Keeps
variable {I : σ → Prop}

theorem pure (a : α) : Keeps I (pure a : EStateM ε σ α) := fun _ h => h

theorem throw (e : ε) : Keeps I (throw e : EStateM ε σ α) := fun _ h => h

theorem bind {x : EStateM ε σ α} {f : α → EStateM ε σ β} (hx : Keeps I x)
    (hf : ∀ a, Keeps I (f a)) : Keeps I (x >>= f) := by
  intro s hs
  have h := hx s hs
  cases hr : x s with
  | ok a t =>
    rw [hr] at h
    rw [bind_of_ok hr]
    exact hf a t h
  | error e t =>
    rw [hr] at h
    rw [bind_of_error hr]
    exact h

theorem ite {c : Prop} [Decidable c] {x y : EStateM ε σ α} (hx : Keeps I x) (hy : Keeps I y) :
    Keeps I (if c then x else y) := by
  split
  · exact hx
  · exact hy

theorem tryCatch {x : EStateM ε σ α} {h : ε → EStateM ε σ α} (hx : Keeps I x)
    (hh : ∀ e, Keeps I (h e)) : Keeps I (tryCatch x h) := by
  intro s hs
  have hend := hx s hs
  cases hr : x s with
  | ok a t =>
    rw [hr] at hend
    rw [tryCatch_of_ok hr]
    exact hend
  | error e t =>
    rw [hr] at hend
    rw [tryCatch_of_error hr]
    exact hh e t hend

end Keeps

/-- From this state the computation comes to one with the property, and where it stops, so much holds
of the reason and of the state it stops in. -/
def AbidesAt (I : σ → Prop) (P : ε → σ → Prop) (x : EStateM ε σ α) (s : σ) : Prop :=
  I (endState (x s)) ∧ ∀ e, failure? (x s) = some e → P e (endState (x s))

namespace AbidesAt
variable {I : σ → Prop} {P : ε → σ → Prop} {x : EStateM ε σ α} {s t : σ}

theorem of_eq_ok {a : α} (hx : x s = .ok a t) (ht : I t) : AbidesAt I P x s := by
  rw [AbidesAt, hx]
  exact ⟨ht, nofun⟩

theorem of_eq_error {e : ε} (hx : x s = .error e t) (ht : I t) (h : P e t) : AbidesAt I P x s := by
  rw [AbidesAt, hx]
  refine ⟨ht, fun e' he => ?_⟩
  cases he
  exact h

/-- What comes behind a computation starts where that one ends. -/
theorem after {f : α → EStateM ε σ β} {a : α} (hx : x s = .ok a t) (h : AbidesAt I P (f a) t) :
    AbidesAt I P (x >>= f) s := by
  rw [AbidesAt, bind_of_ok hx]
  exact h

theorem throw {e : ε} (hs : I s) (h : P e s) : AbidesAt I P (throw e : EStateM ε σ α) s :=
  of_eq_error rfl hs h

end AbidesAt

/-- A computation that abides wherever it starts with the property. -/
def Abides (I : σ → Prop) (P : ε → σ → Prop) (x : EStateM ε σ α) : Prop :=
  ∀ s, I s → AbidesAt I P x s

namespace Abides
variable {I : σ → Prop} {P Q : ε → σ → Prop}

theorem of_keeps {x : EStateM ε σ α} (h : Keeps I x) : Abides I (fun _ _ => True) x :=
  fun s hs => ⟨h s hs, fun _ _ => trivial⟩

theorem keeps {x : EStateM ε σ α} (h : Abides I P x) : Keeps I x := fun s hs => (h s hs).1

/-- A computation that always ends well. -/
theorem of_ok {x : EStateM ε σ α} (h : Keeps I x) (hok : ∀ s, failure? (x s) = none) :
    Abides I P x :=
  fun s hs => ⟨h s hs, fun e he => by rw [hok s] at he; cases he⟩

theorem pure (a : α) : Abides I P (pure a : EStateM ε σ α) :=
  of_ok (Keeps.pure a) fun _ => rfl

theorem throw {e : ε} (h : ∀ s, I s → P e s) : Abides I P (throw e : EStateM ε σ α) :=
  fun s hs => AbidesAt.throw hs (h s hs)

theorem bind {x : EStateM ε σ α} {f : α → EStateM ε σ β} (hx : Abides I P x)
    (hf : ∀ a, Abides I P (f a)) : Abides I P (x >>= f) := by
  intro s hs
  obtain ⟨hI, hP⟩ := hx s hs
  cases hr : x s with
  | ok a t =>
    rw [hr] at hI
    exact .after hr (hf a t hI)
  | error e t =>
    rw [hr] at hI hP
    exact .of_eq_error (bind_of_error hr) hI (hP e rfl)

theorem ite {c : Prop} [Decidable c] {x y : EStateM ε σ α} (hx : Abides I P x)
    (hy : Abides I P y) : Abides I P (if c then x else y) := by
  split
  · exact hx
  · exact hy

/-- A handler starts in the state in which the computation stopped, with what holds of that state
and of the reason. -/
theorem tryCatch {x : EStateM ε σ α} {h : ε → EStateM ε σ α} (hx : Abides I P x)
    (hh : ∀ e s, I s → P e s → AbidesAt I Q (h e) s) : Abides I Q (tryCatch x h) := by
  intro s hs
  obtain ⟨hI, hP⟩ := hx s hs
  cases hr : x s with
  | ok a t =>
    rw [hr] at hI
    exact .of_eq_ok (tryCatch_of_ok hr) hI
  | error e t =>
    rw [hr] at hI hP
    rw [AbidesAt, tryCatch_of_error hr]
    exact hh e t hI (hP e rfl)

end Abides

section Workplaces
variable {act : MachineM α} {w w' : Workplace β}

theorem onMachine_eq_ok {a : α} :
    onMachine act w = .ok a w' ↔ ∃ m, act w.machine = .ok a m ∧ w' = ⟨m, w.own⟩ := by
  unfold onMachine
  constructor
  · intro h
    cases hm : act w.machine <;> simp only [hm] at h <;> cases h
    exact ⟨_, rfl, rfl⟩
  · rintro ⟨m, hm, rfl⟩
    simp only [hm]

theorem onMachine_eq_error {s : Stop} :
    onMachine act w = .error s w' ↔ ∃ m, act w.machine = .error s m ∧ w' = ⟨m, w.own⟩ := by
  unfold onMachine
  constructor
  · intro h
    cases hm : act w.machine <;> simp only [hm] at h <;> cases h
    exact ⟨_, rfl, rfl⟩
  · rintro ⟨m, hm, rfl⟩
    simp only [hm]

theorem endState_onMachine (act : MachineM α) (w : Workplace β) :
    endState (onMachine act w) = ⟨endState (act w.machine), w.own⟩ := by
  unfold onMachine
  cases act w.machine <;> rfl

theorem failure?_onMachine (act : MachineM α) (w : Workplace β) :
    failure? (onMachine act w) = failure? (act w.machine) := by
  unfold onMachine
  cases act w.machine <;> rfl

end Workplaces

end FirmwareAudit
