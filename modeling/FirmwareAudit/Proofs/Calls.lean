import FirmwareAudit.CommandLine.Run
import FirmwareAudit.Proofs.Logging

/-! # How a call of the program goes

What a call tries is one computation, and its status says how that ended: a tool was missing, the
command line was answered, the work before the pipeline stopped, the pipeline stopped, or it passed
the image.
-/
namespace FirmwareAudit

section Starting
variable {own : β} {act : WorkM β α} {m : Machine} {w : Workplace β}

theorem startWith_of_ok {a : α} (h : act ⟨m, own⟩ = .ok a w) :
    startWith own act m = .ok a w.machine := by
  simp only [startWith, h]

theorem startWith_of_error {s : Stop} (h : act ⟨m, own⟩ = .error s w) :
    startWith own act m = .error s w.machine := by
  simp only [startWith, h]

end Starting

/-- The machine with its working directory in front of the search path. -/
def Machine.preferringCwd (m : Machine) : Machine :=
  { m with searchPath := some (searchPathFrom m.cwd m.searchPath) }

namespace Toolchain

theorem preflight_of_ok {w : Workplace Toolchain} {found : List (String × String)} {m : Machine}
    (h : Tool.locateAll w.own.tools w.machine = .ok found m) :
    preflight w = .ok found ⟨m, { w.own with resolved := found }⟩ := by
  unfold preflight
  rw [bind_of_ok (get_apply w), bind_of_ok (onMachine_eq_ok.2 ⟨m, h, rfl⟩),
    bind_of_ok (modify_apply _ _), pure_apply]

theorem preflight_of_error {w : Workplace Toolchain} {s : Stop} {m : Machine}
    (h : Tool.locateAll w.own.tools w.machine = .error s m) :
    preflight w = .error s ⟨m, w.own⟩ := by
  unfold preflight
  rw [bind_of_ok (get_apply w), bind_of_error (onMachine_eq_error.2 ⟨m, h, rfl⟩)]

theorem tools_standard : standard.tools = Tool.required := by decide

end Toolchain

namespace Halt

/-- The status that an answered command line ends with. -/
def status : Halt → Nat
  | misuse _ => CommandLine.Status.failure
  | _ => CommandLine.Status.success

/-- What a command line is answered with. -/
def answer : Halt → Event
  | help => .printed .output helpText
  | version => .printed .output (versionLine ++ "\n")
  | misuse m => .printed .errors (usage ++ m.line)

end Halt

theorem answerHalt_eq (halt : Halt) (m : Machine) :
    (answerHalt halt : MachineM α) m = .error (.exit halt.status) (m.record halt.answer) := by
  cases halt <;> rfl

namespace CommandLine

/-- The work from the arguments to the pipeline: the log is set up, the plan is made and checked. -/
def prepare (a : Arguments) : MachineM Plan := do
  setUpLog a.options
  log mainLogger "main" Level.info versionLine
  let plan ← a.plan
  plan.validate
  log mainLogger "main" Level.debug ("Config: " ++ plan.described)
  return plan

theorem follow_eq (tc : Toolchain) (a : Arguments) : follow tc a = (do
    let plan ← prepare a
    let _ ← (⟨plan, tc, false⟩ : Pipeline).runFresh
    return) := by
  simp only [follow, prepare, bind_assoc, pure_bind]

/-- What a call tries: the tools are found, the arguments read and followed. -/
def tried (argv : List String) : MachineM Unit := do
  let found ← Tool.locateAll Tool.required
  let a ← readArguments argv
  follow ⟨Tool.required, found⟩ a

theorem perform_eq (argv : List String) (m : Machine) :
    startWith .standard (perform argv) m = (do
      let found ← Tool.locateAll Tool.required
      let a ← readArguments argv
      concluding a.options.verbosity (follow ⟨Tool.required, found⟩ a)) m := by
  unfold perform
  rw [← Toolchain.tools_standard]
  cases hfind : Tool.locateAll Toolchain.standard.tools m with
  | error s m₁ =>
    have hpre := Toolchain.preflight_of_error (w := ⟨m, .standard⟩) hfind
    rw [startWith_of_error (bind_of_error hpre), bind_of_error hfind]
  | ok found m₁ =>
    have hpre := Toolchain.preflight_of_ok (w := ⟨m, .standard⟩) hfind
    rw [bind_of_ok hfind]
    unfold startWith
    rw [bind_of_ok hpre, bind_of_ok (get_apply _)]
    unfold onMachine
    dsimp only
    generalize (do
      let a ← readArguments argv
      concluding a.options.verbosity (follow ⟨Toolchain.standard.tools, found⟩ a)) m₁ = r
    cases r <;> rfl

/-! ## The status of a call -/

theorem concluding_of_ok {verbosity : Nat} {act : MachineM Unit} {m m' : Machine}
    (h : act m = .ok () m') : concluding verbosity act m = .ok Status.success m' :=
  tryCatch_of_ok (bind_of_ok h)

theorem concluding_of_error {verbosity : Nat} {act : MachineM Unit} {m m' : Machine} {s : Stop}
    (h : act m = .error s m') : concluding verbosity act m = conclude verbosity s m' :=
  tryCatch_of_error (bind_of_error h)

theorem conclude_exit (verbosity code : Nat) (m : Machine) :
    conclude verbosity (.exit code) m = .error (.exit code) m := rfl

/-- Any other stop becomes a status, and all that is left of it are lines on the error stream. -/
theorem conclude_eq_ok (verbosity : Nat) {s : Stop} (hs : ∀ code, s ≠ .exit code) (m : Machine) :
    ∃ added, acts added = [] ∧ conclude verbosity s m =
      .ok (if s = .interrupted then Status.interrupted else Status.failure)
        { m with trace := m.trace ++ added } := by
  have hother : ∀ s : Stop, ∃ added, acts added = [] ∧ (do
      printLine .errors ("Internal error: " ++ s.message)
      if 1 < verbosity then emit (.traceback s)
      return Status.failure : MachineM Nat) m =
        .ok Status.failure { m with trace := m.trace ++ added } := by
    intro s
    let line : Event := .printed .errors ("Internal error: " ++ s.message ++ "\n")
    have hline : printLine .errors ("Internal error: " ++ s.message) m = .ok () (m.record line) := rfl
    have htrace : emit (.traceback s) (m.record line) =
        .ok () ((m.record line).record (.traceback s)) := rfl
    rw [bind_of_ok hline]
    by_cases hv : 1 < verbosity
    · refine ⟨[line, .traceback s], rfl, ?_⟩
      rw [if_pos hv, bind_of_ok htrace]
      simp [Machine.record]
    · refine ⟨[line], rfl, ?_⟩
      rw [if_neg hv]
      rfl
  cases s with
  | exit code => exact absurd rfl (hs code)
  | fault f => exact ⟨[.printed .errors ("Error: " ++ f.message ++ "\n")], rfl, rfl⟩
  | interrupted => exact ⟨[.printed .errors "Interrupted\n"], rfl, rfl⟩
  | _ => exact hother _

/-- A stop is turned into a status once. -/
theorem conclude_twice (v v' : Nat) (s : Stop) (m : Machine) :
    tryCatch (conclude v s) (conclude v') m = conclude v s m := by
  by_cases hs : ∃ code, s = .exit code
  · obtain ⟨code, rfl⟩ := hs
    exact tryCatch_of_error rfl
  · obtain ⟨added, -, h⟩ := conclude_eq_ok v (not_exists.1 hs) m
    rw [h, tryCatch_of_ok h]

theorem readArguments_of_read {argv : List String} {a : Arguments}
    (h : Arguments.read .standard argv = .ok a) (m : Machine) : readArguments argv m = .ok a m := by
  rw [readArguments, h]
  rfl

theorem readArguments_eq_ok {argv : List String} {m m' : Machine} {a : Arguments}
    (h : readArguments argv m = .ok a m') : Arguments.read .standard argv = .ok a ∧ m' = m := by
  unfold readArguments at h
  cases hread : Arguments.read .standard argv with
  | ok a' =>
    rw [hread] at h
    cases h
    exact ⟨rfl, rfl⟩
  | error halt =>
    simp only [hread, answerHalt_eq] at h
    cases h

/-- A call ends well if what it tries does; else its status is what the stop is turned into, in as much
detail as the command line asks for, if it was read by then. -/
theorem run_cases (argv : List String) (m : Machine) :
    (∃ m', tried argv m.preferringCwd = .ok () m' ∧ run argv m = .ok Status.success m') ∨
    ∃ s m' verbosity, (verbosity = 0 ∨
        ∃ a, Arguments.read .standard argv = .ok a ∧ verbosity = a.options.verbosity) ∧
      tried argv m.preferringCwd = .error s m' ∧ run argv m = conclude verbosity s m' := by
  have hrun : run argv m = tryCatch (startWith .standard (perform argv)) (conclude 0)
      m.preferringCwd := rfl
  rw [hrun]
  unfold tried
  cases hfind : Tool.locateAll Tool.required m.preferringCwd with
  | error s m₁ =>
    refine Or.inr ⟨s, m₁, 0, Or.inl rfl, bind_of_error hfind, tryCatch_of_error ?_⟩
    rw [perform_eq, bind_of_error hfind]
  | ok found m₁ =>
    rw [bind_of_ok hfind]
    cases hread : readArguments argv m₁ with
    | error s m₂ =>
      refine Or.inr ⟨s, m₂, 0, Or.inl rfl, bind_of_error hread, tryCatch_of_error ?_⟩
      rw [perform_eq, bind_of_ok hfind, bind_of_error hread]
    | ok a m₂ =>
      have hperform : startWith .standard (perform argv) m.preferringCwd =
          concluding a.options.verbosity (follow ⟨Tool.required, found⟩ a) m₂ := by
        rw [perform_eq, bind_of_ok hfind, bind_of_ok hread]
      rw [bind_of_ok hread]
      cases hfollow : follow ⟨Tool.required, found⟩ a m₂ with
      | ok u m₃ =>
        rw [concluding_of_ok hfollow] at hperform
        exact Or.inl ⟨m₃, rfl, tryCatch_of_ok hperform⟩
      | error s m₃ =>
        obtain ⟨hargv, -⟩ := readArguments_eq_ok hread
        refine Or.inr ⟨s, m₃, a.options.verbosity, Or.inr ⟨a, hargv, rfl⟩, rfl, ?_⟩
        rw [concluding_of_error hfollow] at hperform
        rw [← conclude_twice a.options.verbosity 0]
        cases hc : conclude a.options.verbosity s m₃ with
        | ok status m₄ => rw [tryCatch_of_ok (hperform.trans hc), tryCatch_of_ok hc]
        | error s' m₄ => rw [tryCatch_of_error (hperform.trans hc), tryCatch_of_error hc]

theorem run_of_tried_ok {argv : List String} {m m' : Machine}
    (h : tried argv m.preferringCwd = .ok () m') : run argv m = .ok Status.success m' := by
  rcases run_cases argv m with ⟨m₁, ht, hrun⟩ | ⟨s, m₁, v, -, ht, -⟩
  · rw [h] at ht
    cases ht
    exact hrun
  · rw [h] at ht
    cases ht

theorem run_of_tried_error {argv : List String} {m m' : Machine} {s : Stop}
    (h : tried argv m.preferringCwd = .error s m') :
    ∃ verbosity, run argv m = conclude verbosity s m' := by
  rcases run_cases argv m with ⟨m₁, ht, -⟩ | ⟨s, m₁, v, -, ht, hrun⟩
  · rw [h] at ht
    cases ht
  · rw [h] at ht
    cases ht
    exact ⟨v, hrun⟩

/-- A stop other than an exit becomes the status of the call. -/
theorem run_of_tried_stop {argv : List String} {m m' : Machine} {s : Stop}
    (h : tried argv m.preferringCwd = .error s m') (hs : ∀ code, s ≠ .exit code) :
    ∃ added, acts added = [] ∧ run argv m =
      .ok (if s = .interrupted then Status.interrupted else Status.failure)
        { m' with trace := m'.trace ++ added } := by
  obtain ⟨v, hrun⟩ := run_of_tried_error h
  obtain ⟨added, hacts, hconclude⟩ := conclude_eq_ok v hs m'
  exact ⟨added, hacts, hrun.trans hconclude⟩

theorem run_of_tried_exit {argv : List String} {m m' : Machine} {code : Nat}
    (h : tried argv m.preferringCwd = .error (.exit code) m') :
    run argv m = .error (.exit code) m' := by
  obtain ⟨v, hrun⟩ := run_of_tried_error h
  rw [hrun, conclude_exit]

/-! ## How what is tried ends -/

/-- The ways in which what a call tries ends. -/
inductive TriedEnd (argv : List String) (m : Machine) : EStateM.Result Stop Machine Unit → Prop
  | missing (s : Stop) (m₁ : Machine)
      (hfind : Tool.locateAll Tool.required m = .error s m₁) : TriedEnd argv m (.error s m₁)
  | answered (found : List (String × String)) (m₁ : Machine) (halt : Halt)
      (hfind : Tool.locateAll Tool.required m = .ok found m₁)
      (hread : Arguments.read .standard argv = .error halt) :
      TriedEnd argv m (.error (.exit halt.status) (m₁.record halt.answer))
  | unready (found : List (String × String)) (m₁ : Machine) (a : Arguments) (s : Stop) (m₂ : Machine)
      (hfind : Tool.locateAll Tool.required m = .ok found m₁)
      (hread : Arguments.read .standard argv = .ok a) (hprepare : prepare a m₁ = .error s m₂) :
      TriedEnd argv m (.error s m₂)
  | stopped (found : List (String × String)) (m₁ : Machine) (a : Arguments) (plan : Plan)
      (m₂ : Machine) (s : Stop) (w : Workplace (List Path))
      (hfind : Tool.locateAll Tool.required m = .ok found m₁)
      (hread : Arguments.read .standard argv = .ok a) (hprepare : prepare a m₁ = .ok plan m₂)
      (hrun : (⟨plan, ⟨Tool.required, found⟩, false⟩ : Pipeline).run ⟨m₂, []⟩ = .error s w) :
      TriedEnd argv m (.error s w.machine)
  | passed (found : List (String × String)) (m₁ : Machine) (a : Arguments) (plan : Plan)
      (m₂ : Machine) (v : Verdict) (w : Workplace (List Path))
      (hfind : Tool.locateAll Tool.required m = .ok found m₁)
      (hread : Arguments.read .standard argv = .ok a) (hprepare : prepare a m₁ = .ok plan m₂)
      (hrun : (⟨plan, ⟨Tool.required, found⟩, false⟩ : Pipeline).run ⟨m₂, []⟩ = .ok v w) :
      TriedEnd argv m (.ok () w.machine)

theorem tried_ends (argv : List String) (m : Machine) : TriedEnd argv m (tried argv m) := by
  unfold tried
  cases hfind : Tool.locateAll Tool.required m with
  | error s m₁ =>
    rw [bind_of_error hfind]
    exact .missing s m₁ hfind
  | ok found m₁ =>
    rw [bind_of_ok hfind]
    cases hread : Arguments.read .standard argv with
    | error halt =>
      have hanswer : (readArguments argv : MachineM Arguments) = answerHalt halt := by
        rw [readArguments, hread]
      rw [hanswer, bind_of_error (answerHalt_eq halt m₁)]
      exact .answered found m₁ halt hfind hread
    | ok a =>
      rw [bind_of_ok (readArguments_of_read hread m₁), follow_eq]
      cases hprepare : prepare a m₁ with
      | error s m₂ =>
        rw [bind_of_error hprepare]
        exact .unready found m₁ a s m₂ hfind hread hprepare
      | ok plan m₂ =>
        rw [bind_of_ok hprepare]
        let p : Pipeline := ⟨plan, ⟨Tool.required, found⟩, false⟩
        cases hrun : p.run ⟨m₂, []⟩ with
        | error s w =>
          have hfresh : p.runFresh m₂ = .error s w.machine := startWith_of_error hrun
          rw [bind_of_error hfresh]
          exact .stopped found m₁ a plan m₂ s w hfind hread hprepare hrun
        | ok v w =>
          have hfresh : p.runFresh m₂ = .ok v w.machine := startWith_of_ok hrun
          rw [bind_of_ok hfresh]
          exact .passed found m₁ a plan m₂ v w hfind hread hprepare hrun

end CommandLine

end FirmwareAudit
