import FirmwareAudit.Proofs.Interrupts
import FirmwareAudit.Proofs.LogSetup

/-! # What happens before the pipeline

Until the pipeline starts, a call runs no program. Looking for the tools leaves the files alone where
no log file takes what is logged about it, and what is done behind it touches nothing but the log
file and the directories that it needs.
-/
namespace FirmwareAudit

namespace Journal

/-- No log file takes what is logged on the logger. -/
def Unfiled (j : Journal) (name : String) : Prop :=
  ∀ h ∈ (j.register name).handlersOf name, ∀ f, h.sink ≠ .file f

/-- The journal once a logger was asked about one level after the other. -/
def askedEach (j : Journal) (name : String) (levels : List Int) : Journal :=
  levels.foldl (fun j level => j.asked name level) j

theorem askedEach_concat (j : Journal) (name : String) (levels : List Int) (level : Int) :
    j.askedEach name (levels ++ [level]) = (j.askedEach name levels).asked name level :=
  List.foldl_concat ..

theorem logger_askedEach (j : Journal) (name : String) (levels : List Int) (other : String) :
    (j.askedEach name levels).logger other = j.logger other := by
  induction levels generalizing j with
  | nil => rfl
  | cons level rest ih => exact (ih (j.asked name level)).trans (j.logger_register name other)

theorem openFiles_askedEach (j : Journal) (name : String) (levels : List Int) :
    (j.askedEach name levels).openFiles = j.openFiles := by
  induction levels generalizing j with
  | nil => rfl
  | cons level rest ih => exact (ih (j.asked name level)).trans (j.openFiles_asked name level)

theorem Unfiled.askedEach {j : Journal} {name : String} (h : j.Unfiled name) (levels : List Int) :
    (j.askedEach name levels).Unfiled name := by
  induction levels generalizing j with
  | nil => exact h
  | cons level rest ih =>
    refine ih (j := j.asked name level) ?_
    rwa [Unfiled, register_asked, handlersOf_asked]

theorem takers_of_unfiled {j : Journal} {name : String} (h : j.Unfiled name) (level : Int)
    (r : Record) : (j.asked name level).takers name r = [] := by
  unfold takers
  rw [handlersOf_asked]
  split
  · rw [List.flatMap_eq_nil_iff]
    intro handler hh
    rw [List.eq_nil_iff_forall_not_mem]
    exact fun f hf => h handler hh f (Handler.sink_of_mem_files hf)
  · rfl

end Journal

/-! ## Looking for the tools -/

/-- What looking for the tools may have changed. -/
structure Machine.Looked (m m' : Machine) : Prop where
  cwd : m'.cwd = m.cwd
  searchPath : m'.searchPath = m.searchPath
  programs : m'.programs = m.programs
  turns : m'.turns = m.turns
  onlyLogs : m.OnlyLogs m'
  journal : ∃ levels, m'.journal = m.journal.askedEach toolLogger levels
  tree : m.journal.Unfiled toolLogger → m'.tree = m.tree

theorem Machine.Looked.refl (m : Machine) : m.Looked m :=
  ⟨rfl, rfl, rfl, rfl, .refl m, ⟨[], rfl⟩, fun _ => rfl⟩

namespace Tool
variable {m : Machine}

theorem looked_log (operation : String) (level : Int) (message : String) :
    Keeps m.Looked (log toolLogger operation level message) := by
  intro m₁ h
  obtain ⟨levels, hjournal⟩ := h.journal
  rw [log_eq]
  refine ⟨h.cwd, h.searchPath, h.programs, h.turns, h.onlyLogs.afterLog _ _ _ _,
    ⟨levels ++ [level], ?_⟩, ?_⟩
  · rw [Journal.askedEach_concat, ← hjournal]
    rfl
  · intro hunfiled
    rw [← h.tree hunfiled]
    simp only [Machine.afterLog, endState_ok, hjournal,
      Journal.takers_of_unfiled (hunfiled.askedEach levels)]
    rfl

theorem looked_locateAll (tools : List Tool) : Keeps m.Looked (locateAll tools) := by
  induction tools with
  | nil => exact Keeps.pure _
  | cons tool rest ih =>
    have hlocate : Keeps m.Looked tool.locate := by
      intro m₁ h
      rw [tool.locate_eq]
      split <;> exact h
    exact hlocate.bind fun _ => (looked_log _ _ _).bind fun _ => ih.bind fun _ => Keeps.pure _

theorem stop_of_locateAll {tools : List Tool} {m' : Machine} {s : Stop}
    (h : locateAll tools m = .error s m') :
    ∃ tool ∈ tools, s = .fault (.toolNotFound tool.program tool.hint) := by
  induction tools generalizing m with
  | nil => cases h
  | cons tool rest ih =>
    unfold locateAll at h
    rcases bind_eq_error.1 h with hlocate | ⟨file, m₁, -, h⟩
    · rw [tool.locate_eq] at hlocate
      split at hlocate
      · cases hlocate
      · cases hlocate
        exact ⟨tool, List.mem_cons_self, rfl⟩
    · rw [bind_of_ok (log_eq _ _ _ _ m₁)] at h
      rcases bind_eq_error.1 h with hrest | ⟨found, m₂, -, h⟩
      · obtain ⟨t, ht, hs⟩ := ih hrest
        exact ⟨t, List.mem_cons_of_mem _ ht, hs⟩
      · cases h

end Tool

/-- Work that only logs stops neither with an interrupt nor with an exit. -/
theorem stop_of_onlyLogs {act : MachineM α} (hact : MachineM.Heeds False act) {m m' : Machine}
    {s : Stop} (h : act m = .error s m') (hlogs : m.OnlyLogs m') :
    s.StaysIn ∧ s ≠ .interrupted := by
  obtain ⟨events, ht, hint, hexit⟩ := hact m
  rw [h] at ht hint hexit
  refine ⟨hexit s rfl, ?_⟩
  rintro rfl
  obtain ⟨events', ht', hattempts, -⟩ := hlogs.silent
  have hsame : events = events' := List.append_cancel_left (ht.symm.trans ht')
  have hran := (hint.1 rfl).resolve_left id
  rw [hsame] at hran
  exact not_interrupted_of_runsOf (runsOf_of_attempts hattempts) hran

namespace Toolchain

/-- Looking for the tools at the start of a call is going through the required ones. -/
theorem preflight_standard (m : Machine) :
    (∃ found m', Tool.locateAll Tool.required m = .ok found m' ∧
      preflight ⟨m, .standard⟩ = .ok found ⟨m', ⟨Tool.required, found⟩⟩) ∨
    ∃ s m', Tool.locateAll Tool.required m = .error s m' ∧
      preflight ⟨m, .standard⟩ = .error s ⟨m', .standard⟩ := by
  rw [← tools_standard]
  cases hfind : Tool.locateAll standard.tools m with
  | ok found m' => exact Or.inl ⟨found, m', rfl, preflight_of_ok (w := ⟨m, .standard⟩) hfind⟩
  | error s m' => exact Or.inr ⟨s, m', rfl, preflight_of_error (w := ⟨m, .standard⟩) hfind⟩

end Toolchain

namespace CommandLine

/-! ## Calls that end early -/

/-- A call whose tools are not all found has status 1. -/
theorem run_of_missing {argv : List String} {m m₁ : Machine} {s : Stop}
    (hfind : Tool.locateAll Tool.required m.preferringCwd = .error s m₁) :
    ∃ added, acts added = [] ∧
      run argv m = .ok Status.failure { m₁ with trace := m₁.trace ++ added } := by
  obtain ⟨tool, -, rfl⟩ := Tool.stop_of_locateAll hfind
  exact run_of_tried_stop (bind_of_error hfind) (Stop.staysIn_fault _)

/-- Work before the pipeline stops neither with an interrupt nor with an exit. -/
theorem stop_of_prepare {a : Arguments} {m m' : Machine} {s : Stop}
    (h : prepare a m = .error s m') : s.StaysIn ∧ s ≠ .interrupted := by
  have hlogs := (prepared_prepare a m).onlyLogs
  rw [h] at hlogs
  exact stop_of_onlyLogs (heeds_prepare_call a) h hlogs

/-- Until the pipeline starts, nothing is done but to log. -/
theorem onlyLogs_prepare {m m₁ : Machine} {found : List (String × String)}
    (hfind : Tool.locateAll Tool.required m = .ok found m₁) (a : Arguments) :
    m.OnlyLogs (endState (prepare a m₁)) := by
  have hlooked := Tool.looked_locateAll Tool.required m (.refl m)
  rw [hfind] at hlooked
  exact hlooked.onlyLogs.trans (prepared_prepare a m₁).onlyLogs

/-- A call whose work before the pipeline stops has status 1. -/
theorem run_of_unready {argv : List String} {m m₁ m₂ : Machine} {found : List (String × String)}
    {a : Arguments} {s : Stop} (hfind : Tool.locateAll Tool.required m.preferringCwd = .ok found m₁)
    (hread : Arguments.read .standard argv = .ok a) (hprepare : prepare a m₁ = .error s m₂) :
    ∃ added, acts added = [] ∧
      run argv m = .ok Status.failure { m₂ with trace := m₂.trace ++ added } := by
  obtain ⟨hexit, hint⟩ := stop_of_prepare hprepare
  have htried : tried argv m.preferringCwd = .error s m₂ := by
    unfold tried
    rw [bind_of_ok hfind, bind_of_ok (readArguments_of_read hread m₁), follow_eq,
      bind_of_error hprepare]
  have hrun := run_of_tried_stop htried hexit
  rwa [if_neg hint] at hrun

/-- What is tried makes an exit only where the command line is answered. -/
theorem exit_of_tried {argv : List String} {m m' : Machine} {code : Nat}
    (h : tried argv m = .error (.exit code) m') :
    ∃ found m₁ halt, Tool.locateAll Tool.required m = .ok found m₁ ∧
      Arguments.read .standard argv = .error halt ∧ code = halt.status ∧
      m' = m₁.record halt.answer := by
  have hend := tried_ends argv m
  rw [h] at hend
  cases hend with
  | missing s m₁ hfind =>
    obtain ⟨tool, -, hs⟩ := Tool.stop_of_locateAll hfind
    cases hs
  | answered found m₁ halt hfind hread => exact ⟨found, m₁, halt, hfind, hread, rfl, rfl⟩
  | unready found m₁ a s m₂ hfind hread hprepare =>
    obtain ⟨-, -, -, hexit⟩ := heeds_prepare_call a m₁
    rw [hprepare] at hexit
    exact absurd rfl (hexit _ rfl code)
  | stopped found m₁ a plan m₂ s w hfind hread hprepare hrun =>
    obtain ⟨-, -, -, hexit⟩ := (⟨plan, ⟨Tool.required, found⟩, false⟩ : Pipeline).heeds_whole ⟨m₂, []⟩
    rw [hrun] at hexit
    exact absurd rfl (hexit _ rfl code)

/-- A call exits exactly if its tools are found and its command line is answered. -/
theorem run_eq_exit {argv : List String} {m m' : Machine} {code : Nat} :
    run argv m = .error (.exit code) m' ↔
      ∃ found m₁ halt, Tool.locateAll Tool.required m.preferringCwd = .ok found m₁ ∧
        Arguments.read .standard argv = .error halt ∧ code = halt.status ∧
        m' = m₁.record halt.answer := by
  constructor
  · intro h
    rcases run_cases argv m with ⟨m₁, -, hrun⟩ | ⟨s, m₁, v, -, htried, hrun⟩
    · rw [hrun] at h
      cases h
    · rw [hrun] at h
      by_cases hs : ∃ code, s = .exit code
      · obtain ⟨code', rfl⟩ := hs
        cases h
        exact exit_of_tried htried
      · obtain ⟨added, -, hconclude⟩ := conclude_eq_ok v (not_exists.1 hs) m₁
        rw [hconclude] at h
        cases h
  · rintro ⟨found, m₁, halt, hfind, hread, rfl, rfl⟩
    have htried : tried argv m.preferringCwd =
        .error (.exit halt.status) (m₁.record halt.answer) := by
      unfold tried
      rw [bind_of_ok hfind, readArguments, hread]
      exact bind_of_error (answerHalt_eq halt m₁)
    exact run_of_tried_exit htried

/-! ## The frame -/

/-- Nothing has changed but the search path and what was shown and logged, and no program was
tried. -/
structure Untouched (m m' : Machine) : Prop where
  cwd : m'.cwd = m.cwd
  tree : m'.tree = m.tree
  programs : m'.programs = m.programs
  turns : m'.turns = m.turns
  logger : ∀ name, m'.journal.logger name = m.journal.logger name
  /-- At most the tools' logger was asked for, and about levels. -/
  journal : ∃ levels, m'.journal = m.journal.askedEach toolLogger levels
  searchPath : m'.searchPath = some (searchPathFrom m.cwd m.searchPath)
  attempts : ∃ events, m'.trace = m.trace ++ events ∧ attempts events = []

theorem untouched_of_looked {m m₁ : Machine} (hunfiled : m.journal.Unfiled toolLogger)
    (h : m.preferringCwd.Looked m₁) {added : List Event}
    (hadded : FirmwareAudit.attempts added = []) :
    Untouched m { m₁ with trace := m₁.trace ++ added } := by
  obtain ⟨events, ht, hattempts, -⟩ := h.onlyLogs.silent
  refine ⟨h.cwd, h.tree hunfiled, h.programs, h.turns, fun name => ?_, h.journal, h.searchPath,
    events ++ added, ?_, ?_⟩
  · obtain ⟨levels, hj⟩ := h.journal
    exact (congrArg (·.logger name) hj).trans (m.journal.logger_askedEach toolLogger levels name)
  · rw [ht, List.append_assoc]
    rfl
  · rw [attempts_append, hattempts, hadded]
    rfl

/-- With no log file open for what the tools' logger is told: a call that exits, or that misses a
tool, tries no program and changes nothing but the search path. One that stops while its log is set
up or its plan is made and checked has status 1, tries no program either, and changes nothing in the
file tree but the log file, which it makes or writes to, and missing directories above it. -/
theorem run_before_pipeline (argv : List String) (m : Machine)
    (hunfiled : m.journal.Unfiled toolLogger) :
    (((∃ code m', run argv m = .error (.exit code) m') ∨
        ∃ s w, Toolchain.preflight ⟨m.preferringCwd, .standard⟩ = .error s w) →
      Untouched m (endState (run argv m))) ∧
    ∀ found w a m₁ s m₂, Toolchain.preflight ⟨m.preferringCwd, .standard⟩ = .ok found w →
      readArguments argv w.machine = .ok a m₁ → prepare a m₁ = .error s m₂ →
      ∃ m', run argv m = .ok Status.failure m' ∧
        FileTree.ChangedByLog m.cwd a.options.log? m.tree m'.tree ∧
        ∃ events, m'.trace = m.trace ++ events ∧ attempts events = [] := by
  have hlooked := Tool.looked_locateAll Tool.required m.preferringCwd (.refl _)
  constructor
  · rintro (⟨code, m', hexit⟩ | ⟨s, w, hpre⟩)
    · obtain ⟨found, m₁, halt, hfind, -, -, rfl⟩ := run_eq_exit.1 hexit
      rw [hfind] at hlooked
      rw [hexit]
      have hanswer : attempts [halt.answer] = [] := by cases halt <;> rfl
      exact untouched_of_looked hunfiled hlooked hanswer
    · rcases Toolchain.preflight_standard m.preferringCwd with ⟨found, m₁, hfind, hok⟩ | h
      · rw [hok] at hpre
        cases hpre
      · obtain ⟨s', m₁, hfind, -⟩ := h
        rw [hfind] at hlooked
        obtain ⟨added, hacts, hrun⟩ : ∃ added, acts added = [] ∧ run argv m = _ :=
          run_of_missing hfind
        rw [hrun]
        refine untouched_of_looked hunfiled hlooked ?_
        rw [← attempts_acts, hacts]
        rfl
  · intro found w a m₁ s m₂ hpre hreadings hprepare
    obtain ⟨hread, rfl⟩ := readArguments_eq_ok hreadings
    rcases Toolchain.preflight_standard m.preferringCwd with ⟨found', m', hfind, hok⟩ | h
    · rw [hpre] at hok
      cases hok
      rw [hfind] at hlooked
      have hprepared := prepared_prepare a m'
      rw [hprepare] at hprepared
      obtain ⟨added, hacts, hrun⟩ := run_of_unready hfind hread hprepare
      refine ⟨_, hrun, ?_, ?_⟩
      · have hcwd : m'.cwd = m.cwd := hlooked.cwd
        have hsame : m'.tree = m.tree := hlooked.tree hunfiled
        rw [← hcwd, ← hsame]
        exact hprepared.tree
      · have hlogs := onlyLogs_prepare hfind a
        rw [hprepare] at hlogs
        obtain ⟨events, ht, hattempts, -⟩ := hlogs.silent
        refine ⟨events ++ added, ?_, ?_⟩
        · rw [show m₂.trace = m.trace ++ events from ht, List.append_assoc]
        · rw [attempts_append, hattempts, ← attempts_acts added, hacts]
          rfl
    · obtain ⟨s', m', -, herror⟩ := h
      rw [hpre] at herror
      cases herror

/-- A machine that has all tools and nothing to audit. -/
def toolsOnly : Machine where
  cwd := "/work"
  searchPath := some "/bin"
  tree :=
    { entries := [([], .directory .plain), (["work"], .directory .plain),
        (["bin"], .directory .plain)] ++
        Tool.required.map fun tool =>
          ([tool.program, "bin"], .file { FileNode.plain "" with executable := .allowed })
      clock := 8 }
  programs _ _ _ t := .ran t "" "" (.exited 0)
  turns _ := 0
  journal := .silent [mainLogger, toolLogger, pipelineLogger]
  trace := []

/-- A request for help changes nothing there, and an image that is missing leaves the log file and
its directory behind. -/
theorem run_before_pipeline_toolsOnly :
    toolsOnly.journal.Unfiled toolLogger ∧
      Untouched toolsOnly (endState (run ["--help"] toolsOnly)) ∧
      ∃ m', run ["--log-file", "logs/audit.log", "fw.bin"] toolsOnly = .ok Status.failure m' ∧
        FileTree.ChangedByLog "/work" (some (.ofString "logs/audit.log")) toolsOnly.tree m'.tree := by
  have hunfiled : toolsOnly.journal.Unfiled toolLogger := by
    have hnone : (toolsOnly.journal.register toolLogger).handlersOf toolLogger = [] := by
      decide +kernel
    intro h hh
    rw [hnone] at hh
    cases hh
  have hfound : failure? (Tool.locateAll Tool.required toolsOnly.preferringCwd) = none := by
    decide +kernel
  rcases Toolchain.preflight_standard toolsOnly.preferringCwd with ⟨found, m₁, hfind, hpre⟩ | h
  · have hhelp : run ["--help"] toolsOnly = .error (.exit 0) _ :=
      run_eq_exit.2 ⟨found, m₁, .help, hfind, by rfl, rfl, rfl⟩
    refine ⟨hunfiled, (run_before_pipeline _ _ hunfiled).1 (Or.inl ⟨0, _, hhelp⟩), ?_⟩
    let argv := ["--log-file", "logs/audit.log", "fw.bin"]
    let a : Arguments :=
      ⟨"fw.bin", { Options.standard with logFile := some (.text "logs/audit.log") }⟩
    have hm₁ : m₁ = endState (Tool.locateAll Tool.required toolsOnly.preferringCwd) := by
      rw [hfind]
      rfl
    have hread : readArguments argv m₁ = .ok a m₁ := by
      have hargv : Arguments.read .standard argv = .ok a := by rfl
      rw [readArguments, hargv]
      rfl
    have hstop : failure? (prepare a m₁) =
        some (.fault (.unreadableImage (.ofString "fw.bin"))) := by
      rw [hm₁]
      decide +kernel
    have hprepare := eq_error_of_failure? hstop
    obtain ⟨m', hrun, htree, -⟩ :=
      (run_before_pipeline argv toolsOnly hunfiled).2 _ _ _ _ _ _ hpre hread hprepare
    exact ⟨m', hrun, htree⟩
  · obtain ⟨s, m', herror, -⟩ := h
    rw [herror] at hfound
    cases hfound

end CommandLine

end FirmwareAudit
