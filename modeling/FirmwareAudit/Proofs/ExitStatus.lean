import FirmwareAudit.Proofs.CommandOrder
import FirmwareAudit.Proofs.CommandParts
import FirmwareAudit.Proofs.Verdict

/-! # The exit status

Who looks at nothing but the status of a call is told the truth: it is 0 exactly behind a report that
ends in a pass, 130 exactly if a program was interrupted, and only the command line makes a call exit
by itself.
-/
namespace FirmwareAudit

/-- The last thing printed on the output stream is that the image passed. -/
def SaysOk (events : List Event) : Prop := (reported .output events).getLast? = some "Ok\n"

theorem not_saysOk_of_not_mem {events : List Event} (h : "Ok\n" ∉ reported .output events) :
    ¬ SaysOk events :=
  fun hok => h (List.mem_of_getLast? hok)

theorem not_mem_append_of_silent {es fs : List Event} (hes : "Ok\n" ∉ reported .output es)
    (hfs : reported .output fs = []) : "Ok\n" ∉ reported .output (es ++ fs) := by
  rwa [reported_append, hfs, List.append_nil]

namespace Pipeline
variable {p : Pipeline}

/-! ## What the end of a run shows -/

theorem commands_of_completed {ss : List Stage} {runs : List Run}
    (h : List.Forall₂ p.Completed ss runs) :
    runs.map (·.command) = (ss.map p.turnOf).map (·.command) ∧
      ∀ run ∈ runs, run.ending = .exited 0 := by
  induction h with
  | nil => simp
  | @cons s run ss runs hrun _ ih =>
    obtain ⟨tool, ht, hcommand, hend⟩ := hrun
    have hturn : (p.turnOf s).command = tool.program :: s.arguments :=
      p.toolchain.command_of_some ht s.arguments
    obtain ⟨hcommands, hends⟩ := ih
    constructor
    · simp [hcommand, hturn, hcommands]
    · exact List.forall_mem_cons.2 ⟨hend, hends⟩

theorem command_of_answered {c : Checksum} {run : Run} (h : p.toolchain.Answered c run) :
    run.command = (p.checksumTurn c.path).command ∧ run.ending = .exited 0 := by
  obtain ⟨tool, ht, ⟨hcommand, hend⟩, -⟩ := h
  exact ⟨hcommand.trans (p.toolchain.command_of_some ht [c.path.toString]).symm, hend⟩

/-- Two checksums are told of only when every command of the run has ended well. -/
theorem Told.ran {w : Workplace (List Path)} {image rebuilt : Checksum} {tail events : List Event}
    {m : Machine} (h : p.Told w image rebuilt tail m) (htail : runsOf tail = [])
    (htrace : m.trace = w.machine.trace ++ events) :
    (runsOf events).map (·.command) = p.turns.map (·.command) ∧
      ∀ run ∈ runsOf events, run.ending = .exited 0 := by
  obtain ⟨runs, run₁, run₂, hruns, ⟨himage, hrebuilt, h₁, h₂⟩, added, hadded, hacts⟩ := h
  have hsame : events = added := List.append_cancel_left (htrace.symm.trans hadded)
  obtain ⟨-, -, -, hdone⟩ := p.reads_doneActs .output hruns
  have hmeasure : runsOf (measureActs run₁ run₂) = [run₁, run₂] := rfl
  have hreport : runsOf (p.reportActs image rebuilt) = [] := by
    simp [reportActs, lines, runsOf, Event.run?]
  have hall : runsOf events = runs ++ [run₁, run₂] := by
    rw [hsame, ← runsOf_acts, hacts]
    simp [hdone, hmeasure, hreport, htail]
  obtain ⟨hcommands, hends⟩ := commands_of_completed hruns
  obtain ⟨hcommand₁, hend₁⟩ := command_of_answered h₁
  obtain ⟨hcommand₂, hend₂⟩ := command_of_answered h₂
  rw [himage] at hcommand₁
  rw [hrebuilt] at hcommand₂
  rw [hall]
  constructor
  · simp [turns, hcommands, hcommand₁, hcommand₂]
  · intro run hrun
    simp only [List.mem_append, List.mem_cons, List.not_mem_nil, or_false] at hrun
    rcases hrun with hrun | rfl | rfl
    · exact hends run hrun
    · exact hend₁
    · exact hend₂

/-- A run that returns has established two equal checksums by all its commands, and says so last. -/
theorem shows_of_run_ok {w w' : Workplace (List Path)} {v : Verdict} (h : p.run w = .ok v w') :
    ∃ events, w'.machine.trace = w.machine.trace ++ events ∧
      p.Established events v.image v.rebuilt ∧
      reported p.stream events = lines v.image v.rebuilt ++ ["Ok\n"] ∧
      v.image.digest = v.rebuilt.digest ∧
      (runsOf events).map (·.command) = p.turns.map (·.command) ∧
      ∀ run ∈ runsOf events, run.ending = .exited 0 := by
  have hend := p.run_ends w
  rw [h] at hend
  cases hend with
  | agrees image rebuilt here w' hsame htold =>
    obtain ⟨events, ht, hest, hrep, -⟩ := htold.shows
    obtain ⟨-, -, hremoved, hruns⟩ := p.reads_removedActs p.stream [p.files.rebuilt]
    have htail : reported p.stream
        (p.removedActs [p.files.rebuilt] ++ [.printed p.stream "Ok\n"]) = ["Ok\n"] := by
      rw [reported_append, hremoved]
      simp [reported, Event.report?]
    have hnone : runsOf (p.removedActs [p.files.rebuilt] ++ [.printed p.stream "Ok\n"]) = [] := by
      rw [runsOf_append, hruns]
      simp [runsOf, Event.run?]
    rw [htail] at hrep
    exact ⟨events, ht, hest, hrep, hsame, htold.ran hnone ht⟩

theorem Told.not_ok {w : Workplace (List Path)} {image rebuilt : Checksum} {tail : List Event}
    {m : Machine} (h : p.Told w image rebuilt tail m) (htail : reported p.stream tail = []) :
    ∃ events, m.trace = w.machine.trace ++ events ∧ "Ok\n" ∉ reported p.stream events := by
  obtain ⟨events, ht, hest, hrep, -⟩ := h.shows
  rw [htail, List.append_nil] at hrep
  refine ⟨events, ht, ?_⟩
  rw [hrep]
  exact hest.ok_not_mem_lines

/-- A run that stops never says that the image passed. -/
theorem shows_of_run_error {w w' : Workplace (List Path)} {s : Stop} (h : p.run w = .error s w') :
    ∃ events, w'.machine.trace = w.machine.trace ++ events ∧ "Ok\n" ∉ reported p.stream events := by
  have hend := p.run_ends w
  rw [h] at hend
  obtain ⟨-, -, hremoved, -⟩ := p.reads_removedActs p.stream [p.files.rebuilt]
  cases hend with
  | silent stop es w' hstop hrep hadds =>
    obtain ⟨events, ht, ha⟩ := hadds
    refine ⟨events, ht, ?_⟩
    rw [← reported_acts p.stream_ne_errors, ha, hrep]
    exact List.not_mem_nil
  | stuck image rebuilt stop reason w' hstop htold =>
    obtain ⟨-, -, hfailed, -⟩ := reads_failedRemovalActs p.stream p.files.rebuilt reason
    exact htold.not_ok hfailed
  | unseen image rebuilt stop w' hstop hscan htold => exact htold.not_ok hremoved
  | differs image rebuilt w' hdiff hscan htold => exact htold.not_ok hremoved

/-- What came before, if it ran nothing and reported nothing, does not matter. -/
theorem Established.behind {es events : List Event} {image rebuilt : Checksum}
    (h : p.Established events image rebuilt) (hruns : runsOf es = [])
    (hrep : reported p.stream es = []) : p.Established (es ++ events) image rebuilt := by
  obtain ⟨hpath, hi, hr, before, after, runs, run₁, run₂, rfl, hbefore, hran, hrest⟩ := h
  refine ⟨hpath, hi, hr, es ++ before, after, runs, run₁, run₂, ?_, ?_, ?_, hrest⟩
  · rw [List.append_assoc]
  · rw [reported_append, hrep, hbefore, List.append_nil]
  · rw [runsOf_append, hruns, hran, List.nil_append]

end Pipeline

namespace CommandLine

theorem eq_of_keeps {act : MachineM α} {m m' : Machine} {a : α} (hact : Keeps (· = m) act)
    (h : act m = .ok a m') : m' = m := by
  have hkept := hact m rfl
  rwa [h] at hkept

/-- The work before the pipeline ends well only if the log is set up, and the plan made and checked
behind it. -/
theorem prepare_eq_ok {a : Arguments} {m m' : Machine} {plan : Plan} (h : prepare a m = .ok plan m') :
    ∃ m₁ m₂, setUpLog a.options m = .ok () m₁ ∧
      log mainLogger "main" Level.info versionLine m₁ = .ok () m₂ ∧
      a.plan m₂ = .ok plan m₂ ∧ plan.validate m₂ = .ok () m₂ := by
  unfold prepare at h
  obtain ⟨u, m₁, hsetUp, h⟩ := bind_eq_ok.1 h
  rw [bind_of_ok (log_eq _ _ _ _ m₁)] at h
  obtain ⟨plan', m₂, hplan, h⟩ := bind_eq_ok.1 h
  obtain rfl := eq_of_keeps (still_plan a _) hplan
  obtain ⟨u', m₃, hvalidate, h⟩ := bind_eq_ok.1 h
  obtain rfl := eq_of_keeps (still_validate plan' _) hvalidate
  rw [bind_of_ok (log_eq _ _ _ _ _)] at h
  cases h
  exact ⟨m₁, _, hsetUp, log_eq _ _ _ _ m₁, hplan, hvalidate⟩

/-! ## How a call ends -/

/-- The call ends with a status. -/
def Returns (argv : List String) (m : Machine) (status : Nat) : Prop :=
  ∃ m', run argv m = .ok status m'

/-- The call exits by itself. -/
def Exits (argv : List String) (m : Machine) (code : Nat) : Prop :=
  ∃ m', run argv m = .error (.exit code) m'

/-- The tools were found, the command line held one image, its plan was checked, every command of
the plan ended well, and the checksums that the last two gave have equal digests. -/
def Passed (argv : List String) (m : Machine) (events : List Event) : Prop :=
  ∃ found w, ∃ a : Arguments, ∃ m₁ m₂ plan image rebuilt,
    Toolchain.preflight ⟨m.preferringCwd, .standard⟩ = .ok found w ∧
    a.LaidOutIn argv ∧
    setUpLog a.options w.machine = .ok () m₁ ∧
    log mainLogger "main" Level.info versionLine m₁ = .ok () m₂ ∧
    a.plan m₂ = .ok plan m₂ ∧ plan.validate m₂ = .ok () m₂ ∧
    (runsOf events).map (·.command) = plan.commandLines ∧
    (∀ run ∈ runsOf events, run.ending = .exited 0) ∧
    (⟨plan, w.own, false⟩ : Pipeline).Established events image rebuilt ∧
    reported .output events = Pipeline.lines image rebuilt ++ ["Ok\n"] ∧
    image.digest = rebuilt.digest

theorem Passed.saysOk {argv : List String} {m : Machine} {events : List Event}
    (h : Passed argv m events) : SaysOk events := by
  obtain ⟨_, _, _, _, _, _, _, _, -, -, -, -, -, -, -, -, -, hrep, -⟩ := h
  rw [SaysOk, hrep]
  simp

/-- The ways in which a call ends, with what it has added to the trace. -/
inductive CallEnd (argv : List String) (m : Machine) (events : List Event) :
    EStateM.Result Stop Machine Nat → Prop
  | exited (halt : Halt) (m' : Machine) (hread : Arguments.read .standard argv = .error halt)
      (hattempts : attempts events = []) (hok : ¬ SaysOk events) :
      CallEnd argv m events (.error (.exit halt.status) m')
  | interrupted (m' : Machine) (hok : ¬ SaysOk events) (hint : Interrupted events) :
      CallEnd argv m events (.ok Status.interrupted m')
  | failed (m' : Machine) (hok : ¬ SaysOk events) (hint : ¬ Interrupted events) :
      CallEnd argv m events (.ok Status.failure m')
  | passed (m' : Machine) (hpassed : Passed argv m events) (hint : ¬ Interrupted events) :
      CallEnd argv m events (.ok Status.success m')

/-- What a stop leaves of a call: no pass is said, and the status tells of an interrupt. -/
theorem callEnd_of_stop {argv : List String} {m m' : Machine} {s : Stop} {es : List Event}
    (htried : tried argv m.preferringCwd = .error s m') (hs : s.StaysIn)
    (htrace : m'.trace = m.trace ++ es) (hok : "Ok\n" ∉ reported .output es)
    (hint : s = .interrupted ↔ Interrupted es) :
    ∃ events, (endState (run argv m)).trace = m.trace ++ events ∧
      CallEnd argv m events (run argv m) := by
  obtain ⟨added, hacts, hrun⟩ := run_of_tried_stop htried hs
  have hreported : reported .output added = [] := by
    rw [← reported_acts (show Stream.output ≠ .errors by decide), hacts]
    simp [reported]
  have hadded : ¬ Interrupted added := by
    apply not_interrupted_of_runsOf
    rw [← runsOf_acts, hacts]
    simp [runsOf]
  have hsilent : ¬ SaysOk (es ++ added) :=
    not_saysOk_of_not_mem (not_mem_append_of_silent hok hreported)
  rw [← or_iff_left hadded (a := Interrupted es), ← interrupted_append] at hint
  rw [hrun]
  refine ⟨es ++ added, by simp [htrace], ?_⟩
  split
  · next hs => exact .interrupted _ hsilent (hint.1 hs)
  · next hs => exact .failed _ hsilent (mt hint.2 hs)

theorem callEnd_of_onlyLogs {argv : List String} {m m' : Machine} {s : Stop}
    (htried : tried argv m.preferringCwd = .error s m') (hs : s.StaysIn) (hint : s ≠ .interrupted)
    (hlogs : m.preferringCwd.OnlyLogs m') :
    ∃ events, (endState (run argv m)).trace = m.trace ++ events ∧
      CallEnd argv m events (run argv m) := by
  obtain ⟨es, ht, hattempts, hrep⟩ := hlogs.silent
  refine callEnd_of_stop htried hs ht ?_ ?_
  · rw [hrep]
    exact List.not_mem_nil
  · exact iff_of_false hint (not_interrupted_of_runsOf (runsOf_of_attempts hattempts))

theorem not_ok_answer (halt : Halt) : "Ok\n" ∉ reported .output [halt.answer] := by
  have hhelp : helpText ≠ "Ok\n" := by decide +kernel
  have hversion : versionLine ++ "\n" ≠ "Ok\n" := by decide
  cases halt with
  | help => simpa [Halt.answer, reported, Event.report?] using hhelp.symm
  | version => simpa [Halt.answer, reported, Event.report?] using hversion.symm
  | misuse reason => simp [Halt.answer, reported, Event.report?]

theorem run_callEnd (argv : List String) (m : Machine) :
    ∃ events, (endState (run argv m)).trace = m.trace ++ events ∧
      CallEnd argv m events (run argv m) := by
  have hlooked := Tool.looked_locateAll Tool.required m.preferringCwd (.refl _)
  have hend := tried_ends argv m.preferringCwd
  generalize htried : tried argv m.preferringCwd = r at hend
  cases hend with
  | missing s m₁ hfind =>
    rw [hfind] at hlooked
    obtain ⟨tool, -, rfl⟩ := Tool.stop_of_locateAll hfind
    exact callEnd_of_onlyLogs htried (Stop.staysIn_fault _) nofun hlooked.onlyLogs
  | answered found m₁ halt hfind hread =>
    rw [hfind] at hlooked
    obtain ⟨es, ht, hattempts, hrep⟩ := hlooked.onlyLogs.silent
    rw [run_of_tried_exit htried]
    refine ⟨es ++ [halt.answer], ?_, .exited halt _ hread ?_ (not_saysOk_of_not_mem ?_)⟩
    · rw [← List.append_assoc]
      exact congrArg (· ++ [halt.answer]) ht
    · rw [attempts_append, hattempts]
      cases halt <;> rfl
    · rw [reported_append, hrep, List.nil_append]
      exact not_ok_answer halt
  | unready found m₁ a s m₂ hfind hread hprepare =>
    have hlogs := onlyLogs_prepare hfind a
    rw [hprepare] at hlogs
    obtain ⟨hexit, hint⟩ := stop_of_prepare hprepare
    exact callEnd_of_onlyLogs htried hexit hint hlogs
  | stopped found m₁ a plan m₂ s w hfind hread hprepare hrun =>
    have hlogs := onlyLogs_prepare hfind a
    rw [hprepare] at hlogs
    obtain ⟨es, ht, hattempts, hrep⟩ := hlogs.silent
    let p : Pipeline := ⟨plan, ⟨Tool.required, found⟩, false⟩
    obtain ⟨fs, ht', hok⟩ := Pipeline.shows_of_run_error (p := p) hrun
    obtain ⟨fs', ht'', hint, hexit⟩ := p.heeds_whole ⟨m₂, []⟩
    rw [hrun] at ht'' hint hexit
    obtain rfl : fs = fs' := List.append_cancel_left (ht'.symm.trans ht'')
    have htrace : w.machine.trace = m.trace ++ (es ++ fs) := by
      rw [ht', ← List.append_assoc]
      exact congrArg (· ++ fs) ht
    refine callEnd_of_stop htried (hexit s rfl) htrace ?_ ?_
    · rwa [reported_append, hrep, List.nil_append]
    · have hidle := not_interrupted_of_runsOf (runsOf_of_attempts hattempts)
      rw [interrupted_append, or_iff_right hidle]
      simpa [failure?] using hint
  | passed found m₁ a plan m₂ v w hfind hread hprepare hrun =>
    have hlogs := onlyLogs_prepare hfind a
    rw [hprepare] at hlogs
    obtain ⟨es, ht, hattempts, hrep⟩ := hlogs.silent
    let p : Pipeline := ⟨plan, ⟨Tool.required, found⟩, false⟩
    obtain ⟨fs, ht', hest, hreport, hsame, hcommands, hends⟩ := Pipeline.shows_of_run_ok (p := p) hrun
    rw [Pipeline.turns_commands (p := p) (by rfl)] at hcommands
    have hruns := runsOf_of_attempts hattempts
    have hall : runsOf (es ++ fs) = runsOf fs := by rw [runsOf_append, hruns, List.nil_append]
    have hpreflight := Toolchain.preflight_of_ok (w := ⟨m.preferringCwd, .standard⟩) hfind
    obtain ⟨m₃, m₄, hsetUp, hlog, hplan, hvalidate⟩ := prepare_eq_ok hprepare
    rw [run_of_tried_ok htried]
    refine ⟨es ++ fs, ?_, .passed _ ⟨found, _, a, m₃, m₄, plan, v.image, v.rebuilt, hpreflight,
      Arguments.laidOutIn_of_read hread, hsetUp, hlog, hplan, hvalidate, ?_, ?_,
      hest.behind hruns hrep, ?_, hsame⟩ ?_⟩
    · rw [endState_ok, ht', ← List.append_assoc]
      exact congrArg (· ++ fs) ht
    · rw [hall]
      exact hcommands
    · rw [hall]
      exact hends
    · rw [reported_append, hrep, List.nil_append]
      exact hreport
    · rintro ⟨run, hmem, hending⟩
      rw [hall] at hmem
      rw [hends run hmem] at hending
      cases hending

/-! ## The status -/

namespace CallEnd
variable {argv : List String} {m : Machine} {events : List Event}
  {r : EStateM.Result Stop Machine Nat}

theorem outcomes (h : CallEnd argv m events r) :
    (∃ status m', r = .ok status m' ∧ status ∈ [0, 1, 130]) ∨
      ∃ code m', r = .error (.exit code) m' ∧ code ∈ [0, 1] := by
  cases h with
  | exited halt m' hread hattempts hok =>
    refine Or.inr ⟨_, m', rfl, ?_⟩
    cases halt <;> simp [Halt.status, Status.success, Status.failure]
  | interrupted m' hok hint => exact Or.inl ⟨_, m', rfl, by decide⟩
  | failed m' hok hint => exact Or.inl ⟨_, m', rfl, by decide⟩
  | passed m' hpassed hint => exact Or.inl ⟨_, m', rfl, by decide⟩

theorem success_iff (h : CallEnd argv m events r) : (∃ m', r = .ok 0 m') ↔ SaysOk events := by
  cases h with
  | exited halt m' hread hattempts hok => exact iff_of_false nofun hok
  | interrupted m' hok hint => exact iff_of_false nofun hok
  | failed m' hok hint => exact iff_of_false nofun hok
  | passed m' hpassed hint => exact iff_of_true ⟨m', rfl⟩ hpassed.saysOk

theorem passed_of_success (h : CallEnd argv m events r) (hok : ∃ m', r = .ok 0 m') :
    Passed argv m events := by
  obtain ⟨m', rfl⟩ := hok
  cases h with
  | passed m' hpassed hint => exact hpassed

theorem interrupted_iff (h : CallEnd argv m events r) :
    (∃ m', r = .ok 130 m') ↔ Interrupted events := by
  cases h with
  | exited halt m' hread hattempts hok =>
    exact iff_of_false nofun (not_interrupted_of_runsOf (runsOf_of_attempts hattempts))
  | interrupted m' hok hint => exact iff_of_true ⟨m', rfl⟩ hint
  | failed m' hok hint => exact iff_of_false nofun hint
  | passed m' hpassed hint => exact iff_of_false nofun hint

theorem answered_of_exit (h : CallEnd argv m events r) {code : Nat}
    (hexit : ∃ m', r = .error (.exit code) m') : attempts events = [] ∧
      ∃ halt, Arguments.read .standard argv = .error halt ∧ code = halt.status := by
  obtain ⟨m', rfl⟩ := hexit
  cases h with
  | exited halt m' hread hattempts hok => exact ⟨hattempts, halt, hread, rfl⟩

end CallEnd

/-- A call has status 130 exactly if what it tries is interrupted. -/
theorem returns_interrupted {argv : List String} {m : Machine} :
    Returns argv m Status.interrupted ↔
      ∃ m', tried argv m.preferringCwd = .error .interrupted m' := by
  constructor
  · rintro ⟨m', hstatus⟩
    rcases run_cases argv m with ⟨m₁, -, hrun⟩ | ⟨s, m₁, v, -, htried, hrun⟩
    · rw [hrun] at hstatus
      cases hstatus
    · by_cases hs : ∃ code, s = .exit code
      · obtain ⟨code, rfl⟩ := hs
        rw [run_of_tried_exit htried] at hstatus
        cases hstatus
      · obtain ⟨added, -, hstop⟩ := run_of_tried_stop htried (not_exists.1 hs)
        rw [hstop] at hstatus
        injection hstatus with hcode
        split at hcode
        · next hs =>
          cases hs
          exact ⟨m₁, htried⟩
        · cases hcode
  · rintro ⟨m₁, htried⟩
    obtain ⟨added, -, hrun⟩ := run_of_tried_stop htried nofun
    exact ⟨_, hrun⟩

/-- Any other stop but an exit gives a call status 1. -/
theorem returns_failure {argv : List String} {m m' : Machine} {s : Stop}
    (htried : tried argv m.preferringCwd = .error s m') (hs : s.StaysIn) (hint : s ≠ .interrupted) :
    Returns argv m Status.failure := by
  obtain ⟨added, -, hrun⟩ := run_of_tried_stop htried hs
  rw [if_neg hint] at hrun
  exact ⟨_, hrun⟩

/-- A call has status 0, 1 or 130, or exits with 0 or 1. The status is 0 exactly if the report ends
in a pass; then all steps went well up to equal digests. It is 130 exactly if what was tried was
interrupted, that is, if one of the programs was. Only the command line makes a call exit, before any
command is attempted. Whatever else stops a call, its status is 1. -/
theorem run_status (argv : List String) (m : Machine) :
    ∃ events, (endState (run argv m)).trace = m.trace ++ events ∧
      ((∃ status, Returns argv m status ∧ status ∈ [0, 1, 130]) ∨
        ∃ code, Exits argv m code ∧ code ∈ [0, 1]) ∧
      (Returns argv m 0 ↔ SaysOk events) ∧
      (Returns argv m 0 → Passed argv m events) ∧
      (Returns argv m 130 ↔ ∃ m', tried argv m.preferringCwd = .error .interrupted m') ∧
      (Returns argv m 130 ↔ Interrupted events) ∧
      (∀ code, Exits argv m code → attempts events = [] ∧
        ∃ halt, Arguments.read .standard argv = .error halt ∧ code = halt.status) ∧
      ∀ s m', tried argv m.preferringCwd = .error s m' → s ≠ .interrupted →
        (∀ code, s ≠ .exit code) → Returns argv m 1 := by
  obtain ⟨events, htrace, hend⟩ := run_callEnd argv m
  refine ⟨events, htrace, ?_, hend.success_iff, hend.passed_of_success, returns_interrupted,
    hend.interrupted_iff, fun code => hend.answered_of_exit, ?_⟩
  · rcases hend.outcomes with ⟨status, m', hrun, hstatus⟩ | ⟨code, m', hrun, hcode⟩
    · exact Or.inl ⟨status, ⟨m', hrun⟩, hstatus⟩
    · exact Or.inr ⟨code, ⟨m', hrun⟩, hcode⟩
  · intro s m' htried hint hs
    exact returns_failure htried hs hint

end CommandLine

end FirmwareAudit
