import FirmwareAudit.Pipeline.Basic
import FirmwareAudit.Proofs.Invocation

/-! # How temporary files go

A removal is logged and tried once. Removals of files that are no longer needed stop at the first
that fails, and pending are then the files that were not removed; removals after an abort go on to
the end, and nothing is pending then.
-/
namespace FirmwareAudit
open Text

namespace FileTree

theorem resolve_ne_nulByte (t : FileTree) (cwd : String) {path : String} (h : has '\x00' path = false) :
    t.resolve cwd path ≠ .error .nulByte := by
  rw [resolve, if_neg (by simp [h])]
  intro he
  cases hf : t.follow cwd path with
  | error e =>
    rw [hf] at he
    cases he
  | ok target =>
    rw [hf] at he
    cases he

theorem unlink_ne_nulByte (t : FileTree) (cwd : String) {path : String} (h : has '\x00' path = false) :
    t.unlink cwd path ≠ .error .nulByte := by
  have hr := resolve_ne_nulByte t cwd h
  unfold unlink
  cases hres : t.resolve cwd path with
  | error e => exact fun he => hr (hres.trans (congrArg Except.error (by cases he; rfl)))
  | ok target =>
    cases target with
    | vacant l d => nofun
    | node l n =>
      cases n with
      | directory d => nofun
      | file f =>
        cases hs : f.stuck with
        | some e => simp [hs]
        | none => by_cases hw : t.parentWritable l = true <;> simp [hs, hw]

end FileTree

theorem unlink_cases (path : Path) (m : Machine) :
    (∃ m', unlink path m = .ok () m' ∧ m.Adds [.unlinked path.toString none] m') ∨
    (∃ s m', unlink path m = .error s m' ∧ s.IsCallFault ∧
      (has '\x00' path.toString = false → s ≠ .nulByte) ∧
      m.Adds [.unlinked path.toString (some s)] m') := by
  unfold unlink
  rw [bind_of_ok (get_apply m)]
  cases hu : m.tree.unlink m.cwd path.toString with
  | ok tree => exact Or.inl ⟨_, rfl, Machine.adds_of_trace [.unlinked path.toString none] rfl⟩
  | error fault =>
    let s := Stop.ofCall path.toString fault
    refine Or.inr ⟨s, _, rfl, Stop.isCallFault_ofCall _ _, ?_,
      Machine.adds_of_trace [.unlinked path.toString (some s)] rfl⟩
    intro hn hs
    cases fault with
    | errno e => exact Stop.noConfusion hs
    | nulByte => exact FileTree.unlink_ne_nulByte _ _ hn hu

namespace Pipeline

/-! ## Removal -/

/-- The acts of a removal that succeeds. -/
def removalActs (path : Path) : List Event :=
  [.logged ⟨pipelineLogger, "remove_temps", Level.debug, "Removing " ++ path.toString⟩,
    .unlinked path.toString none]

/-- The acts of a removal that fails. -/
def failedRemovalActs (path : Path) (reason : Stop) : List Event :=
  [.logged ⟨pipelineLogger, "remove_temps", Level.debug, "Removing " ++ path.toString⟩,
    .unlinked path.toString (some reason)]

/-- A stop that says that a file could not be removed, if it is a fault. -/
def BlamesRemoval (path : Path) (s : Stop) : Prop :=
  ∀ f, s = .fault f → ∃ cause, f = .cleanup path cause

theorem remove_cases (path : Path) (m : Machine) :
    (∃ m', remove path m = .ok () m' ∧ m.Adds (removalActs path) m') ∨
    (∃ s reason m', remove path m = .error s m' ∧ BlamesRemoval path s ∧
      m.Adds (failedRemovalActs path reason) m') := by
  unfold remove
  rw [bind_of_ok (log_eq _ _ _ _ m)]
  have hlog := m.adds_afterLog pipelineLogger "remove_temps" Level.debug
    ("Removing " ++ path.toString)
  generalize m.afterLog pipelineLogger "remove_temps" Level.debug
    ("Removing " ++ path.toString) = m₀ at hlog ⊢
  rcases unlink_cases path m₀ with ⟨m', hu, ha⟩ | ⟨reason, m', hu, hr, -, ha⟩
  · exact Or.inl ⟨m', wrapSystemError_of_ok hu, hlog.trans ha⟩
  · obtain ⟨s, hw, hf⟩ := wrapSystemError_of_error (fun e => .cleanup path e) (Or.inl hr) hu
    refine Or.inr ⟨s, reason, m', hw, ?_, hlog.trans ha⟩
    intro f hs
    obtain ⟨e, rfl⟩ := hf f hs
    exact ⟨e, rfl⟩

/-- The paths of a list that are left when others are gone. -/
def without (pending gone : List Path) : List Path := gone.foldl List.erase pending

/-- All files go in order; or some go, one does not, and those behind it are not tried. -/
theorem removeEach_cases (paths : List Path) (w : Workplace (List Path)) :
    (∃ m', removeEach paths w = .ok () ⟨m', without w.own paths⟩ ∧
      w.machine.Adds (paths.flatMap removalActs) m') ∨
    (∃ gone path rest s reason m', paths = gone ++ path :: rest ∧
      removeEach paths w = .error s ⟨m', without w.own gone⟩ ∧ BlamesRemoval path s ∧
      w.machine.Adds (gone.flatMap removalActs ++ failedRemovalActs path reason) m') := by
  induction paths generalizing w with
  | nil => exact Or.inl ⟨w.machine, rfl, Machine.Adds.refl _⟩
  | cons path rest ih =>
    unfold removeEach
    rcases remove_cases path w.machine with ⟨m₁, hr, ha⟩ | ⟨s, reason, m', hr, hs, ha⟩
    · have h₁ : onMachine (β := List Path) (remove path) w = .ok () ⟨m₁, w.own⟩ :=
        onMachine_eq_ok.2 ⟨m₁, hr, rfl⟩
      rw [bind_of_ok h₁, settle, bind_of_ok (modify_apply _ _)]
      rcases ih ⟨m₁, w.own.erase path⟩ with ⟨m', he, ha'⟩ | h
      · exact Or.inl ⟨m', he, ha.trans ha'⟩
      · obtain ⟨gone, path', rest', s, reason, m', rfl, he, hs, ha'⟩ := h
        refine Or.inr ⟨path :: gone, path', rest', s, reason, m', rfl, he, hs, ?_⟩
        simpa only [List.flatMap_cons, List.append_assoc] using ha.trans ha'
    · have h₁ : onMachine (β := List Path) (remove path) w = .error s ⟨m', w.own⟩ :=
        onMachine_eq_error.2 ⟨m', hr, rfl⟩
      exact Or.inr ⟨[], path, rest, s, reason, m', rfl, bind_of_error h₁, hs, ha⟩

/-! ## Removal after an abort -/

/-- The record that warns of a file that stays. -/
def stayedRecord (path : Path) (e : SystemError) : Record :=
  ⟨pipelineLogger, "discard_pending", Level.warning,
    "Could not remove " ++ path.toString ++ ": " ++ e.message⟩

/-- The acts of an attempt to remove a file after an abort, with the error if it failed. -/
def discardActs : Path × Option SystemError → List Event
  | (path, failure) =>
    [.logged ⟨pipelineLogger, "discard_pending", Level.debug,
        "Removing " ++ path.toString ++ " after abort"⟩,
      .unlinked path.toString (failure.map .system)] ++
    match failure with
    | none => []
    | some e => [.logged (stayedRecord path e)]

/-- The acts of an attempt that breaks off, since the path has a NUL byte. -/
def brokenDiscardActs (path : Path) : List Event :=
  [.logged ⟨pipelineLogger, "discard_pending", Level.debug,
      "Removing " ++ path.toString ++ " after abort"⟩,
    .unlinked path.toString (some .nulByte)]

/-- The file is tried, whether or not it goes; or its path has a NUL byte. -/
theorem discard_cases (path : Path) (m : Machine) :
    (∃ failure m', discard path m = .ok () m' ∧ m.Adds (discardActs (path, failure)) m') ∨
    (∃ m', discard path m = .error .nulByte m' ∧ has '\x00' path.toString = true ∧
      m.Adds (brokenDiscardActs path) m') := by
  unfold discard
  rw [bind_of_ok (log_eq _ _ _ _ m)]
  have hlog := m.adds_afterLog pipelineLogger "discard_pending" Level.debug
    ("Removing " ++ path.toString ++ " after abort")
  generalize m.afterLog pipelineLogger "discard_pending" Level.debug
    ("Removing " ++ path.toString ++ " after abort") = m₀ at hlog ⊢
  rcases unlink_cases path m₀ with ⟨m', hu, ha⟩ | ⟨s, m₁, hu, hs, hnul, ha⟩
  · exact Or.inl ⟨none, m', tryCatch_of_ok hu, hlog.trans ha⟩
  · rw [tryCatch_of_error hu]
    rcases hs with rfl | ⟨e, rfl⟩
    · have hn : has '\x00' path.toString = true := by
        cases hc : has '\x00' path.toString with
        | true => rfl
        | false => exact absurd rfl (hnul hc)
      exact Or.inr ⟨m₁, rfl, hn, hlog.trans ha⟩
    · have hwarn := m₁.adds_afterLog pipelineLogger "discard_pending" Level.warning
        ("Could not remove " ++ path.toString ++ ": " ++ e.message)
      exact Or.inl ⟨some e, _, log_eq _ _ _ _ m₁, (hlog.trans ha).trans hwarn⟩

/-- All files are tried in order; or some are, and the path of the next one has a NUL byte. -/
theorem discardEach_cases (paths : List Path) (w : Workplace (List Path)) :
    (∃ (tried : List (Path × Option SystemError)) (m' : Machine), tried.map Prod.fst = paths ∧
      discardEach paths w = .ok () ⟨m', without w.own paths⟩ ∧
      w.machine.Adds (tried.flatMap discardActs) m') ∨
    (∃ (tried : List (Path × Option SystemError)) (path : Path) (rest : List Path) (m' : Machine),
      paths = tried.map Prod.fst ++ path :: rest ∧ has '\x00' path.toString = true ∧
      discardEach paths w = .error .nulByte ⟨m', without w.own (tried.map Prod.fst)⟩ ∧
      w.machine.Adds (tried.flatMap discardActs ++ brokenDiscardActs path) m') := by
  induction paths generalizing w with
  | nil => exact Or.inl ⟨[], w.machine, rfl, rfl, Machine.Adds.refl _⟩
  | cons path rest ih =>
    unfold discardEach
    rcases discard_cases path w.machine with ⟨failure, m₁, hd, ha⟩ | ⟨m', hd, hn, ha⟩
    · have h₁ : onMachine (β := List Path) (discard path) w = .ok () ⟨m₁, w.own⟩ :=
        onMachine_eq_ok.2 ⟨m₁, hd, rfl⟩
      rw [bind_of_ok h₁, settle, bind_of_ok (modify_apply _ _)]
      rcases ih ⟨m₁, w.own.erase path⟩ with ⟨tried, m', ht, he, ha'⟩ | h
      · exact Or.inl ⟨(path, failure) :: tried, m', by rw [List.map_cons, ht], he, ha.trans ha'⟩
      · obtain ⟨tried, path', rest', m', ht, hn, he, ha'⟩ := h
        refine Or.inr ⟨(path, failure) :: tried, path', rest', m', ?_, hn, he, ?_⟩
        · rw [ht, List.map_cons, List.cons_append]
        · simpa only [List.flatMap_cons, List.append_assoc] using ha.trans ha'
    · have h₁ : onMachine (β := List Path) (discard path) w = .error .nulByte ⟨m', w.own⟩ :=
        onMachine_eq_error.2 ⟨m', hd, rfl⟩
      exact Or.inr ⟨[], path, rest, m', rfl, hn, bind_of_error h₁, ha⟩

theorem without_self (paths : List Path) : without paths paths = [] := by
  induction paths with
  | nil => rfl
  | cons path rest ih =>
    rw [without, List.foldl_cons, List.erase_cons_head]
    exact ih

/-- Where no path has a NUL byte, every pending file is tried once, whatever became of the others,
and none is pending then. -/
theorem discardEach_eq_ok {paths : List Path} (hn : ∀ p ∈ paths, has '\x00' p.toString = false)
    (m : Machine) :
    ∃ (tried : List (Path × Option SystemError)) (m' : Machine), tried.map Prod.fst = paths ∧
      discardEach paths ⟨m, paths⟩ = .ok () ⟨m', []⟩ ∧ m.Adds (tried.flatMap discardActs) m' := by
  rcases discardEach_cases paths ⟨m, paths⟩ with ⟨tried, m', ht, he, ha⟩ | h
  · refine ⟨tried, m', ht, ?_, ha⟩
    rw [he, without_self]
  · obtain ⟨tried, path, rest, m', hp, hnul, -, -⟩ := h
    have hmem : path ∈ paths := by simp [hp]
    rw [hn path hmem] at hnul
    cases hnul

theorem removals_discardActs (tried : List (Path × Option SystemError)) :
    removals (tried.flatMap discardActs) =
      tried.map fun t => (t.1.toString, t.2.map .system) := by
  induction tried with
  | nil => rfl
  | cons t rest ih =>
    obtain ⟨path, failure⟩ := t
    rw [List.flatMap_cons, removals_append, ih]
    cases failure <;> rfl

theorem warnings_discardActs (tried : List (Path × Option SystemError)) :
    warnings (tried.flatMap discardActs) =
      tried.filterMap fun t => t.2.map (stayedRecord t.1) := by
  induction tried with
  | nil => rfl
  | cons t rest ih =>
    obtain ⟨path, failure⟩ := t
    rw [List.flatMap_cons, warnings_append, ih]
    cases failure <;> rfl

end Pipeline

end FirmwareAudit
