import FirmwareAudit.Machine.Basic

/-! # What a trace shows

The acts of an audit are what it does by itself: it logs, starts programs, removes files and reports.
Of a trace one reads which programs ran, which removals were tried, what was reported and what was
warned of; each can be read off the acts alone.
-/
namespace FirmwareAudit

namespace Event

/-- An act of the audit itself: not what tools write, what becomes of a record, what goes to the
error stream or which files an act opens on its way. -/
def isAct : Event → Bool
  | .logged _ => true
  | .ran _ => true
  | .notStarted _ _ => true
  | .unlinked _ _ => true
  | .printed .errors _ => false
  | .printed _ _ => true
  | _ => false

def run? : Event → Option Run
  | .ran r => some r
  | _ => none

/-- The command that was attempted, whether or not it started. -/
def attempt? : Event → Option (List String)
  | .ran r => some r.command
  | .notStarted command _ => some command
  | _ => none

def removal? : Event → Option (String × Option Stop)
  | .unlinked path failure => some (path, failure)
  | _ => none

def report? (stream : Stream) : Event → Option String
  | .printed s text => if s = stream then some text else none
  | _ => none

def warning? : Event → Option Record
  | .logged r => if r.level = Level.warning then some r else none
  | _ => none

end Event

def acts (es : List Event) : List Event := es.filter (·.isAct)

/-- The programs that ran. -/
def runsOf (es : List Event) : List Run := es.filterMap Event.run?

/-- The commands that were attempted. -/
def attempts (es : List Event) : List (List String) := es.filterMap Event.attempt?

/-- The removals that were tried, each with the reason if it failed. -/
def removals (es : List Event) : List (String × Option Stop) := es.filterMap Event.removal?

/-- The texts that were printed on a stream. -/
def reported (stream : Stream) (es : List Event) : List String :=
  es.filterMap (Event.report? stream)

/-- The records that warn. -/
def warnings (es : List Event) : List Record := es.filterMap Event.warning?

theorem filterMap_acts {α : Type} {f : Event → Option α}
    (hf : ∀ e : Event, e.isAct = false → f e = none) (es : List Event) :
    (acts es).filterMap f = es.filterMap f := by
  induction es with
  | nil => rfl
  | cons e rest ih =>
    cases he : e.isAct with
    | false => simpa [acts, he, List.filterMap_cons, hf e he] using ih
    | true =>
      have hc : acts (e :: rest) = e :: acts rest := by simp [acts, he]
      rw [hc, List.filterMap_cons, List.filterMap_cons, ih]

@[simp] theorem runsOf_acts (es : List Event) : runsOf (acts es) = runsOf es := by
  refine filterMap_acts (fun e he => ?_) es
  cases e with
  | ran r => cases he
  | _ => rfl

@[simp] theorem attempts_acts (es : List Event) : attempts (acts es) = attempts es := by
  refine filterMap_acts (fun e he => ?_) es
  cases e with
  | ran r => cases he
  | notStarted command reason => cases he
  | _ => rfl

@[simp] theorem removals_acts (es : List Event) : removals (acts es) = removals es := by
  refine filterMap_acts (fun e he => ?_) es
  cases e with
  | unlinked path failure => cases he
  | _ => rfl

@[simp] theorem warnings_acts (es : List Event) : warnings (acts es) = warnings es := by
  refine filterMap_acts (fun e he => ?_) es
  cases e with
  | logged r => cases he
  | _ => rfl

theorem reported_acts {stream : Stream} (h : stream ≠ .errors) (es : List Event) :
    reported stream (acts es) = reported stream es := by
  refine filterMap_acts (fun e he => ?_) es
  cases e with
  | printed s text =>
    cases s with
    | errors => exact if_neg h.symm
    | output => cases he
    | report => cases he
  | _ => rfl

@[simp] theorem acts_append (es fs : List Event) : acts (es ++ fs) = acts es ++ acts fs :=
  List.filter_append es fs

@[simp] theorem runsOf_append (es fs : List Event) : runsOf (es ++ fs) = runsOf es ++ runsOf fs :=
  List.filterMap_append

@[simp] theorem attempts_append (es fs : List Event) :
    attempts (es ++ fs) = attempts es ++ attempts fs :=
  List.filterMap_append

@[simp] theorem removals_append (es fs : List Event) :
    removals (es ++ fs) = removals es ++ removals fs :=
  List.filterMap_append

@[simp] theorem warnings_append (es fs : List Event) :
    warnings (es ++ fs) = warnings es ++ warnings fs :=
  List.filterMap_append

@[simp] theorem reported_append (stream : Stream) (es fs : List Event) :
    reported stream (es ++ fs) = reported stream es ++ reported stream fs :=
  List.filterMap_append

theorem attempts_cons {e : Event} {c : List String} (h : e.attempt? = some c) (es : List Event) :
    attempts (e :: es) = c :: attempts es :=
  List.filterMap_cons_some h

@[simp] theorem attempts_ran (run : Run) (es : List Event) :
    attempts (.ran run :: es) = run.command :: attempts es := rfl

@[simp] theorem runsOf_ran (run : Run) (es : List Event) :
    runsOf (.ran run :: es) = run :: runsOf es := rfl

@[simp] theorem removals_ran (run : Run) (es : List Event) :
    removals (.ran run :: es) = removals es := rfl

/-- Every program that ran was attempted. -/
theorem runsOf_sublist_attempts (es : List Event) :
    ((runsOf es).map (·.command)).Sublist (attempts es) := by
  induction es with
  | nil => exact .slnil
  | cons e rest ih =>
    cases e with
    | ran r => exact ih.cons_cons r.command
    | notStarted command reason => exact ih.cons command
    | _ => exact ih

theorem runsOf_of_attempts {es : List Event} (h : attempts es = []) : runsOf es = [] := by
  have hs := runsOf_sublist_attempts es
  rw [h, List.sublist_nil, List.map_eq_nil_iff] at hs
  exact hs

theorem attempts_flatMap {α : Type} {f : α → List Event} (h : ∀ a, attempts (f a) = [])
    (as : List α) : attempts (as.flatMap f) = [] := by
  induction as with
  | nil => rfl
  | cons a rest ih => rw [List.flatMap_cons, attempts_append, h, ih, List.append_nil]

theorem mem_removals {es : List Event} {path : String} {failure : Option Stop} :
    (path, failure) ∈ removals es ↔ Event.unlinked path failure ∈ es := by
  simp only [removals, List.mem_filterMap]
  constructor
  · rintro ⟨e, he, h⟩
    cases e with
    | unlinked path' failure' =>
      cases h
      exact he
    | _ => cases h
  · intro h
    exact ⟨_, h, rfl⟩

/-- No removal, no warning and no report. -/
def Event.IsQuiet (stream : Stream) (e : Event) : Prop :=
  e.removal? = none ∧ e.warning? = none ∧ e.report? stream = none

theorem Event.isQuiet_logged (stream : Stream) {r : Record} (h : r.level ≠ Level.warning) :
    (Event.logged r).IsQuiet stream :=
  ⟨rfl, if_neg h, rfl⟩

def Quiet (stream : Stream) (es : List Event) : Prop := ∀ e ∈ es, e.IsQuiet stream

section
variable {stream : Stream} {es fs : List Event}

theorem quiet_nil (stream : Stream) : Quiet stream [] := fun _ he => absurd he List.not_mem_nil

theorem quiet_cons {e : Event} (he : e.IsQuiet stream) (h : Quiet stream es) :
    Quiet stream (e :: es) := by
  intro f hf
  rcases List.mem_cons.1 hf with rfl | hf
  · exact he
  · exact h f hf

theorem Quiet.append (h : Quiet stream es) (h' : Quiet stream fs) : Quiet stream (es ++ fs) := by
  intro e he
  rcases List.mem_append.1 he with he | he
  · exact h e he
  · exact h' e he

theorem Quiet.removals_eq (h : Quiet stream es) : removals es = [] :=
  List.filterMap_eq_nil_iff.2 fun e he => (h e he).1

theorem Quiet.warnings_eq (h : Quiet stream es) : warnings es = [] :=
  List.filterMap_eq_nil_iff.2 fun e he => (h e he).2.1

theorem Quiet.reported_eq (h : Quiet stream es) : reported stream es = [] :=
  List.filterMap_eq_nil_iff.2 fun e he => (h e he).2.2

end

namespace Machine

/-- Behind the trace of `m`, the acts in the trace of `m'` are the given ones. -/
def Adds (m : Machine) (es : List Event) (m' : Machine) : Prop :=
  ∃ added, m'.trace = m.trace ++ added ∧ acts added = es

theorem Adds.refl (m : Machine) : m.Adds [] m := ⟨[], by simp, rfl⟩

theorem Adds.trans {m m' m'' : Machine} {es fs : List Event} (h : m.Adds es m')
    (h' : m'.Adds fs m'') : m.Adds (es ++ fs) m'' := by
  obtain ⟨added, ht, rfl⟩ := h
  obtain ⟨added', ht', rfl⟩ := h'
  exact ⟨added ++ added', by rw [ht', ht, List.append_assoc], acts_append _ _⟩

theorem Adds.split {m m' : Machine} {es fs : List Event} (h : m.Adds (es ++ fs) m') :
    ∃ before after, m'.trace = m.trace ++ (before ++ after) ∧ acts before = es ∧ acts after = fs := by
  obtain ⟨added, ht, ha⟩ := h
  obtain ⟨before, after, rfl, hb, hf⟩ := List.filter_eq_append_iff.1 ha
  exact ⟨before, after, ht, hb, hf⟩

theorem adds_of_trace {m m' : Machine} (added : List Event) (h : m'.trace = m.trace ++ added) :
    m.Adds (acts added) m' :=
  ⟨added, h, rfl⟩

/-- The acts tell which programs ran. -/
theorem Adds.runsOf_eq {m m' : Machine} {es events : List Event} (h : m.Adds es m')
    (ht : m'.trace = m.trace ++ events) : runsOf events = runsOf es := by
  obtain ⟨added, ht', rfl⟩ := h
  rw [List.append_cancel_left (ht.symm.trans ht'), runsOf_acts]

end Machine

end FirmwareAudit
