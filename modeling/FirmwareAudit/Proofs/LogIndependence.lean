import FirmwareAudit.Proofs.BeforePipeline
import FirmwareAudit.Proofs.PipelineLockstep

/-! # Logging does not influence a run

Two calls that differ in how much they show and in where they log, and in nothing else, run the same
programs, show the same output, return the same status and leave the same files but for the logs.
-/
namespace FirmwareAudit
open Text

namespace Journal

/-! ## Open log files -/

theorem loggers_update {j : Journal} {name : String} {g : Logger → Logger} {l : Logger}
    (h : l ∈ (j.update name g).loggers) : l ∈ j.loggers ∨ ∃ k ∈ j.loggers, l = g k := by
  unfold loggers update at h
  split at h
  · rcases List.mem_cons.1 h with rfl | h
    · exact Or.inr ⟨j.root, List.mem_cons_self, rfl⟩
    · exact Or.inl (List.mem_cons_of_mem _ h)
  · rcases List.mem_cons.1 h with rfl | h
    · exact Or.inl List.mem_cons_self
    · simp only [List.map_map, List.mem_map, Function.comp_apply] at h
      obtain ⟨e, he, rfl⟩ := h
      have hmem : e.2 ∈ j.loggers := List.mem_cons_of_mem _ (List.mem_map.2 ⟨e, he, rfl⟩)
      split
      · exact Or.inr ⟨e.2, hmem, rfl⟩
      · exact Or.inl hmem

theorem mem_openFiles_update {j : Journal} {name : String} {g : Logger → Logger} {f : Handle}
    (hf : f ∈ (j.update name g).openFiles) :
    f ∈ j.openFiles ∨ ∃ l ∈ j.loggers, ∃ h ∈ (g l).handlers, h.sink = .file f := by
  obtain ⟨l, hl, h, hh, hs⟩ := mem_openFiles.1 hf
  rcases loggers_update hl with hl | ⟨k, hk, rfl⟩
  · exact Or.inl (mem_openFiles.2 ⟨l, hl, h, hh, hs⟩)
  · exact Or.inr ⟨k, hk, h, hh, hs⟩

theorem unfiled_of_openFiles {j : Journal} (h : j.openFiles = []) (name : String) :
    j.Unfiled name := by
  intro handler hh f hs
  have hf := mem_openFiles_of_mem_handlersOf hh hs
  rw [openFiles_register, h] at hf
  cases hf

end Journal

/-! ## Setting the log up -/

namespace Machine

/-- The log file lies in a directory that is there, and it can be opened to write at its end. -/
def TakesLog (m : Machine) (log : Path) : Prop :=
  (∃ d, m.tree.status m.cwd log.parent.toString = .ok (.directory d)) ∧
    ∃ h t, m.tree.openForWriting m.cwd (log.absolute m.cwd).toString .append = .ok (h, t)

theorem takesLog_congr {m m' : Machine} (hcwd : m'.cwd = m.cwd) (htree : m'.tree = m.tree) :
    m'.TakesLog = m.TakesLog := by
  funext log
  simp only [TakesLog, hcwd, htree]

/-- The options name no log file, or one that the machine takes. -/
def TakesLogOf (m : Machine) (o : Options) : Prop :=
  o.logFile = none ∨ ∃ log, o.logFile = some (.text log) ∧ m.TakesLog (.ofString log)

end Machine

/-- A directory that is there need not be made. -/
theorem ensureDirectory_of_there {p : Path} {m : Machine} {d : DirectoryNode}
    (h : m.tree.status m.cwd p.toString = .ok (.directory d)) : ensureDirectory p m = .ok () m := by
  have hresolve : ∃ l, m.tree.resolve m.cwd p.toString = .ok (.node l (.directory d)) := by
    unfold FileTree.status at h
    split at h
    · next l n hr =>
      cases h
      exact ⟨l, hr⟩
    · cases h
    · cases h
  obtain ⟨l, hr⟩ := hresolve
  have hmake : makeDirectory p m = .error (.system ⟨.alreadyExists, some p.toString⟩) m := by
    rw [makeDirectory, bind_of_ok (get_apply m), FileTree.makeDirectory, hr]
    rfl
  have hlook : isDirectory p m = .ok true m := by
    have hnode : nodeAt p m = .ok (some (.directory d)) m := by
      rw [nodeAt, bind_of_ok (get_apply m), FileTree.probe, h]
      rfl
    rw [isDirectory, bind_of_ok hnode]
    rfl
  unfold ensureDirectory
  rw [tryCatch_of_error hmake]
  simp only
  rw [bind_of_ok hlook]
  rfl

theorem Path.makeAll_of_there {p : Path} {m : Machine} {d : DirectoryNode}
    (h : m.tree.status m.cwd p.toString = .ok (.directory d)) : p.makeAll m = .ok () m := by
  obtain ⟨anchor, names, hnames⟩ := p
  obtain ⟨names, rfl⟩ : ∃ xs : List String, names = xs.reverse :=
    ⟨names.reverse, (List.reverse_reverse names).symm⟩
  have hdirectory := ensureDirectory_of_there h
  simp only [makeAll, List.reverse_reverse]
  cases names with
  | nil => exact hdirectory
  | cons n above => exact tryCatch_of_ok hdirectory

namespace Scene

variable {s : Scene} {m : Machine}

theorem Pair.onJournal (p : s.Pair m m) {j : Journal}
    (hj : ∀ f ∈ j.openFiles, f ∈ m.journal.openFiles ∨ s.places f.location) :
    s.Pair m { m with journal := j } :=
  { p with logs := ⟨p.logs.1, fun f hf => (hj f hf).elim (p.logs.1 f) id⟩ }

theorem hushed_addHandler (name : String) (handler : Handler)
    (hplace : ∀ f, handler.sink = .file f → s.places f.location) :
    s.Hushed (addHandler name handler) := by
  intro m p
  refine ⟨_, rfl, p.onJournal fun f hf => ?_⟩
  rcases Journal.mem_openFiles_update hf with hf | ⟨l, hl, h, hh, hs⟩
  · exact Or.inl hf
  · rcases List.mem_append.1 hh with hh | hh
    · exact Or.inl (Journal.mem_openFiles.2 ⟨l, hl, h, hh, hs⟩)
    · rw [List.mem_singleton.1 hh] at hs
      exact Or.inr (hplace f hs)

/-- Starting a logger afresh with a console opens no log file. -/
theorem pair_withConsole (p : s.Pair m m) (threshold : Int) :
    s.Pair m (m.withConsole threshold) := by
  have hfresh : s.Pair m { m with
      journal := ((m.journal.register mainLogger).update mainLogger
        fun _ => ⟨Level.debug, false, []⟩).forget } := by
    refine p.onJournal fun f hf => Or.inl ?_
    rcases Journal.mem_openFiles_update hf with hf | ⟨-, -, h, hh, -⟩
    · rwa [Journal.openFiles_register] at hf
    · cases hh
  have hnone : ∀ f, Sink.console mainLogger = .file f → s.places f.location := nofun
  obtain ⟨n, hn, q⟩ :=
    hushed_addHandler mainLogger ⟨.console mainLogger, threshold⟩ hnone _ hfresh.symm.left
  cases hn
  exact hfresh.trans q

/-- A log file at one of the places is set up unnoticed. -/
theorem setUpLogging_hushed (p : s.Pair m m) (threshold : Int) {file : Option Path}
    (hfile : ∀ log, file = some log → m.TakesLog log ∧ s.places (log.logPlace m.cwd)) :
    ∃ n, setUpLogging threshold file mainLogger m = .ok () n ∧ s.Pair m n := by
  have q := pair_withConsole p threshold
  let m₁ := m.withConsole threshold
  cases file with
  | none => exact ⟨m₁, rfl, q⟩
  | some path =>
    obtain ⟨⟨⟨d, hd⟩, h, t, ho⟩, hplace⟩ := hfile path rfl
    have hmade : path.parent.makeAll m₁ = .ok () m₁ := Path.makeAll_of_there hd
    let m₂ := { m₁ with tree := t }.record (.opened (path.absolute m₁.cwd).toString)
    have hopen : openForWriting (path.absolute m₁.cwd).toString .append m₁ = .ok h m₂ := by
      have ho' : m₁.tree.openForWriting m₁.cwd (path.absolute m₁.cwd).toString .append =
          .ok (h, t) := ho
      rw [openForWriting, bind_of_ok (get_apply m₁), ho']
      rfl
    have q₁ : s.Pair m₁ m₁ := q.symm.left
    have q₂ : s.Pair m₁ m₂ := by
      have hshown : SameShow [] [.opened (path.absolute m₁.cwd).toString] := ⟨rfl, rfl, rfl⟩
      exact { q₁ with tree := .openForWriting_at ho hplace, shown := hshown.add m₁.trace }
    have hlocation : h.location = path.logPlace m.cwd :=
      ((FileTree.ChangedByLog.refl m.tree).openForWriting rfl ho).1
    have hadd : s.Hushed (addHandler mainLogger ⟨.file h, Level.debug⟩) := by
      refine hushed_addHandler mainLogger _ fun f hf => ?_
      cases hf
      rwa [hlocation]
    obtain ⟨n, hn, q₃⟩ := hadd.bind (hushed_log mainLogger "setup_logging" Level.debug
      ("Log file: " ++ path.toString)) m₂ q₂.symm.left
    refine ⟨n, ?_, q.trans (q₂.trans q₃)⟩
    have hconsole : setUpLogging threshold (some path) mainLogger m = (do
        path.parent.makeAll
        let m ← get
        let h ← openForWriting (path.absolute m.cwd).toString .append
        addHandler mainLogger ⟨.file h, Level.debug⟩
        log mainLogger "setup_logging" Level.debug ("Log file: " ++ path.toString)) m₁ := rfl
    rw [hconsole, bind_of_ok hmade, bind_of_ok (get_apply m₁), bind_of_ok hopen]
    exact hn

/-! ## From the arguments to the status -/

theorem setUpLog_hushed (p : s.Pair m m) {o : Options} (hlog : m.TakesLogOf o)
    (hplace : ∀ log, o.log? = some log → s.places (log.logPlace m.cwd)) :
    ∃ n, CommandLine.setUpLog o m = .ok () n ∧ s.Pair m n := by
  unfold CommandLine.setUpLog
  rcases hlog with hnone | ⟨log, hsome, htakes⟩
  · rw [hnone]
    exact setUpLogging_hushed p _ nofun
  · rw [hsome]
    refine setUpLogging_hushed p _ fun log' hlog' => ?_
    cases hlog'
    exact ⟨htakes, hplace _ (by rw [Options.log?, hsome])⟩

theorem inStep_validate {plan : Plan} (himage : s.Apart plan.image)
    (hincludeDir : s.Apart plan.includeDir) : InStep s.Pair Eq plan.validate plan.validate := by
  have hdirectory : InStep s.Pair Eq (do
      unless ← isDirectory plan.includeDir do
        throw (.fault (.missingIncludeDir plan.includeDir)) : MachineM Unit) (do
      unless ← isDirectory plan.includeDir do
        throw (.fault (.missingIncludeDir plan.includeDir)) : MachineM Unit) := by
    refine (inStep_isDirectory hincludeDir).bind ?_
    rintro there - rfl
    exact .ite (.pure rfl) (.throw (.same _))
  unfold Plan.validate
  refine (inStep_isFile himage).bind ?_
  rintro here - rfl
  refine .ite ?_ (.throw_bind (.same _) _ _)
  refine (inStep_mayRead himage).bind ?_
  rintro readable - rfl
  exact .ite hdirectory (.throw_bind (.same _) _ _)

end Scene

namespace CommandLine

/-- What a call does with its plan once its log is set up. -/
def pursue (tc : Toolchain) (plan : Plan) : MachineM Unit := do
  log mainLogger "main" Level.info versionLine
  plan.validate
  log mainLogger "main" Level.debug ("Config: " ++ plan.described)
  let _ ← (⟨plan, tc, false⟩ : Pipeline).runFresh

theorem follow_of_plan {a : Arguments} {plan : Plan} (h : a.plan = pure plan) (tc : Toolchain) :
    follow tc a = (do
      setUpLog a.options
      pursue tc plan) := by
  simp only [follow, pursue, h, pure_bind]

end CommandLine

namespace Scene
open CommandLine
variable {s : Scene} {m : Machine}

theorem inStep_pursue (tc : Toolchain) {plan : Plan}
    (hapart : ∀ f ∈ plan.image :: plan.includeDir :: plan.artifacts.all, s.Apart f) :
    InStep s.Pair Eq (pursue tc plan) (pursue tc plan) := by
  obtain ⟨himage, hrest⟩ := List.forall_mem_cons.1 hapart
  obtain ⟨hincludeDir, hfiles⟩ := List.forall_mem_cons.1 hrest
  unfold pursue
  refine (inStep_log _ _ _ _ _).bind fun _ _ _ => ?_
  refine (inStep_validate himage hincludeDir).bind fun _ _ _ => ?_
  refine (inStep_log _ _ _ _ _).bind fun _ _ _ => ?_
  exact (inStep_runFresh ⟨plan, tc, false⟩ hfiles).bind fun _ _ _ => .pure rfl

/-- A stop that is no exit becomes a status without a word to the standard output. -/
theorem conclude_hushed (p : s.Pair m m) (verbosity : Nat) {e : Stop}
    (he : ∀ code, e ≠ .exit code) :
    ∃ n, conclude verbosity e m =
      .ok (if e = .interrupted then Status.interrupted else Status.failure) n ∧ s.Pair m n := by
  have hprint (text : String) : s.Hushed (printLine .errors text) := hushed_emit ⟨rfl, rfl, rfl⟩
  have hother (e : Stop) : ∃ n, (do
      printLine .errors ("Internal error: " ++ e.message)
      if 1 < verbosity then emit (.traceback e)
      return Status.failure : MachineM Nat) m = .ok Status.failure n ∧ s.Pair m n := by
    obtain ⟨n, hn, q⟩ := hprint ("Internal error: " ++ e.message) m p
    rw [bind_of_ok hn]
    by_cases hv : 1 < verbosity
    · obtain ⟨k, hk, r⟩ := hushed_emit (e := .traceback e) ⟨rfl, rfl, rfl⟩ n q.symm.left
      rw [if_pos hv, bind_of_ok hk]
      exact ⟨k, rfl, q.trans r⟩
    · rw [if_neg hv]
      exact ⟨n, rfl, q⟩
  cases e with
  | exit code => exact absurd rfl (he code)
  | fault f =>
    obtain ⟨n, hn, q⟩ := hprint ("Error: " ++ f.message) m p
    exact ⟨n, bind_of_ok hn, q⟩
  | interrupted =>
    obtain ⟨n, hn, q⟩ := hprint "Interrupted" m p
    exact ⟨n, bind_of_ok hn, q⟩
  | _ => exact hother _

/-- Looking for the tools opens no log file. -/
theorem pair_of_looked {n : Machine} (p : s.Pair m m) (hidle : m.journal.openFiles = [])
    (h : m.Looked n) : s.Pair n n := by
  have hfiles : n.journal.openFiles = [] := by
    obtain ⟨levels, hj⟩ := h.journal
    rw [hj, Journal.openFiles_askedEach, hidle]
  have hlogs : ∀ f ∈ n.journal.openFiles, s.places f.location := by
    rw [hfiles]
    exact List.forall_mem_nil _
  have hcwd := h.cwd.trans p.cwd.1
  have hpath := h.searchPath.trans p.searchPath.1
  have hprograms := h.programs.trans p.programs.1
  exact ⟨⟨hcwd, hcwd⟩, ⟨hpath, hpath⟩, ⟨hprograms, hprograms⟩, rfl, ⟨hlogs, hlogs⟩, .refl _ _,
    .refl _⟩

/-- What two calls try whose arguments make the same plan, and whose log files lie at the places, goes
the same way. -/
theorem tried_in_step (p : s.Pair m m) (hidle : m.journal.openFiles = [])
    {argv argv' : List String} {a a' : Arguments} {plan : Plan}
    (hread : Arguments.read .standard argv = .ok a)
    (hread' : Arguments.read .standard argv' = .ok a') (hplan : a.plan = pure plan)
    (hplan' : a'.plan = pure plan) (hlog : m.TakesLogOf a.options)
    (hlog' : m.TakesLogOf a'.options)
    (hplaces : ∀ log, a.options.log? = some log ∨ a'.options.log? = some log →
      s.places (log.logPlace m.cwd))
    (hapart : ∀ f ∈ plan.image :: plan.includeDir :: plan.artifacts.all, s.Apart f) :
    SameEnd (fun _ _ n n' => s.Pair n n') (fun e e' n n' => e.Akin e' ∧ s.Pair n n')
      (tried argv m) (tried argv' m) := by
  have hlooked := Tool.looked_locateAll Tool.required m (.refl m)
  unfold tried
  cases hfind : Tool.locateAll Tool.required m with
  | error e m₁ =>
    rw [hfind] at hlooked
    rw [bind_of_error hfind, bind_of_error hfind]
    exact .error ⟨.same e, pair_of_looked p hidle hlooked⟩
  | ok found m₁ =>
    rw [hfind] at hlooked
    have q : s.Pair m₁ m₁ := pair_of_looked p hidle hlooked
    -- The log is set up on the files that were there at first.
    have hsetUp {o : Options} (htakes : m.TakesLogOf o)
        (hplaces : ∀ log, o.log? = some log → s.places (log.logPlace m.cwd)) :
        ∃ n, setUpLog o m₁ = .ok () n ∧ s.Pair m₁ n := by
      have hcwd : m₁.cwd = m.cwd := hlooked.cwd
      have htree : m₁.tree = m.tree := hlooked.tree (Journal.unfiled_of_openFiles hidle toolLogger)
      rw [← hcwd] at hplaces
      refine setUpLog_hushed q ?_ hplaces
      rwa [Machine.TakesLogOf, Machine.takesLog_congr hcwd htree]
    obtain ⟨n, hn, r⟩ := hsetUp hlog fun log h => hplaces log (Or.inl h)
    obtain ⟨n', hn', r'⟩ := hsetUp hlog' fun log h => hplaces log (Or.inr h)
    rw [bind_of_ok hfind, bind_of_ok hfind, bind_of_ok (readArguments_of_read hread m₁),
      bind_of_ok (readArguments_of_read hread' m₁), follow_of_plan hplan, follow_of_plan hplan',
      bind_of_ok hn, bind_of_ok hn']
    exact (inStep_pursue ⟨Tool.required, found⟩ hapart n n' (r.symm.trans r')).imp
      fun _ _ _ _ h => h.2

/-- The calls return the same status. -/
theorem run_in_step (p : s.Pair m.preferringCwd m.preferringCwd)
    (hidle : m.journal.openFiles = []) {argv argv' : List String} {a a' : Arguments} {plan : Plan}
    (hread : Arguments.read .standard argv = .ok a)
    (hread' : Arguments.read .standard argv' = .ok a') (hplan : a.plan = pure plan)
    (hplan' : a'.plan = pure plan) (hlog : m.TakesLogOf a.options)
    (hlog' : m.TakesLogOf a'.options)
    (hplaces : ∀ log, a.options.log? = some log ∨ a'.options.log? = some log →
      s.places (log.logPlace m.cwd))
    (hapart : ∀ f ∈ plan.image :: plan.includeDir :: plan.artifacts.all, s.Apart f) :
    ∃ code n n', run argv m = .ok code n ∧ run argv' m = .ok code n' ∧ s.Pair n n' := by
  have hend := tried_in_step p hidle hread hread' hplan hplan' hlog hlog' hplaces hapart
  have hexit {argv : List String} {a : Arguments} (h : Arguments.read .standard argv = .ok a)
      {e : Stop} {n : Machine} (ht : tried argv m.preferringCwd = .error e n) :
      ∀ code, e ≠ .exit code := by
    rintro code rfl
    obtain ⟨-, -, halt, -, hhalt, -⟩ := exit_of_tried ht
    rw [h] at hhalt
    cases hhalt
  rcases run_cases argv m with ⟨n, ht, hrun⟩ | ⟨e, n, v, -, ht, hrun⟩ <;>
    rcases run_cases argv' m with ⟨n', ht', hrun'⟩ | ⟨e', n', v', -, ht', hrun'⟩ <;>
    rw [ht, ht'] at hend
  · cases hend with
    | ok q => exact ⟨_, n, n', hrun, hrun', q⟩
  · cases hend
  · cases hend
  · cases hend with
    | error h =>
      obtain ⟨hakin, q⟩ := h
      obtain ⟨k, hk, r⟩ := conclude_hushed q.left v (hexit hread ht)
      obtain ⟨k', hk', r'⟩ := conclude_hushed q.symm.left v' (hexit hread' ht')
      have hstatus : e = .interrupted ↔ e' = .interrupted := by
        cases hakin <;> simp
      refine ⟨_, k, k', hrun.trans hk, hrun'.trans ?_, r.symm.trans (q.trans r')⟩
      rw [hk']
      simp only [hstatus]

end Scene

/-! ## Programs that leave the logs alone -/

/-- What comes of a start on this tree does not depend on the files at the places: on trees that agree
with it off the places, the same comes of the start. -/
def Program.BlindAt (places : Location → Prop) (p : Program) (turn : Nat) (call : Invocation)
    (t : FileTree) : Prop :=
  ∀ t₁ t₂, t.AgreeOff places t₁ → t.AgreeOff places t₂ →
    Start.AgreeOff places t₁ t₂ (p turn call t₁) (p turn call t₂)

/-- There are programs that do the same where the given ones touch none of the places, and never touch
them. -/
theorem exists_blind (places : Location → Prop) (programs : String → Program) :
    ∃ blind : String → Program,
      (∀ name turn call t, Program.BlindAt places (programs name) turn call t →
        blind name turn call t = programs name turn call t) ∧
      ∀ name turn call t t', t.AgreeOff places t' →
        Start.AgreeOff places t t' (blind name turn call t) (blind name turn call t') := by
  classical
  refine ⟨fun name turn call t =>
    if Program.BlindAt places (programs name) turn call t then programs name turn call t
    else .refused .notFound, fun name turn call t h => if_pos h, fun name turn call t t' h => ?_⟩
  have hsame : Program.BlindAt places (programs name) turn call t' ↔
      Program.BlindAt places (programs name) turn call t :=
    ⟨fun hb t₁ t₂ h₁ h₂ => hb t₁ t₂ (h.symm.trans h₁) (h.symm.trans h₂),
      fun hb t₁ t₂ h₁ h₂ => hb t₁ t₂ (h.trans h₁) (h.trans h₂)⟩
  simp only [hsame]
  split
  · next hb => exact hb t t' (.refl places t) h
  · exact .refused _

/-- What work on a machine comes to: a value or a stop, events and files. -/
def outcome : EStateM.Result Stop Machine α → Except Stop α × List Event × FileTree
  | .ok a m => (.ok a, m.trace, m.tree)
  | .error s m => (.error s, m.trace, m.tree)

namespace Machine

/-- In the course of the work no program is started on a tree where it touches a file at one of the
places: whatever the programs did on such trees, the same would come of the work. -/
def Spares (m : Machine) (places : Location → Prop) (act : MachineM α) : Prop :=
  ∀ programs : String → Program,
    (∀ name turn call t, Program.BlindAt places (m.programs name) turn call t →
      programs name turn call t = m.programs name turn call t) →
    outcome (act { m with programs }) = outcome (act m)

theorem spares_of_blind {m : Machine} {places : Location → Prop}
    (h : ∀ name turn call t, Program.BlindAt places (m.programs name) turn call t)
    (act : MachineM α) : m.Spares places act := by
  intro programs hsame
  have hall : programs = m.programs := by
    funext name turn call t
    exact hsame name turn call t (h name turn call t)
  rw [hall]

end Machine

namespace CommandLine

/-- The places of the log files that two command lines name. -/
def logPlaces (cwd : String) (o o' : Options) (l : Location) : Prop :=
  ∃ log, (o.log? = some log ∨ o'.log? = some log) ∧ log.logPlace cwd = l

theorem not_logPlaces_nil {m : Machine} {o o' : Options} (h : m.TakesLogOf o)
    (h' : m.TakesLogOf o') : ¬ logPlaces m.cwd o o' [] := by
  have hbelow {o : Options} (h : m.TakesLogOf o) {log : Path} (hlog : o.log? = some log) :
      log.logPlace m.cwd ≠ [] := by
    rcases h with hnone | ⟨text, hsome, -, handle, t, ho⟩
    · rw [Options.log?, hnone] at hlog
      cases hlog
    · rw [Options.log?, hsome] at hlog
      cases hlog
      exact FileTree.placeOf_ne_nil_of_open ho
  rintro ⟨log, hlog | hlog, hnil⟩
  · exact hbelow h hlog hnil
  · exact hbelow h' hlog hnil

/-- On a machine with no log file open: two command lines that make the same plan, and differ in how
much is shown and in the log file alone, are followed in the same way, as long as each log file lies in
a directory that is there, can be opened to write at its end, is not a file of the plan, and is
touched by no tool in either call. Both calls return the same status, show the same output, try and
run the same programs with the same outcomes, and leave the same files but for the log files. -/
theorem run_log_independent (m : Machine) (hidle : m.journal.openFiles = [])
    (argv argv' : List String) (a a' : Arguments) (plan : Plan)
    (hread : Arguments.read .standard argv = .ok a)
    (hread' : Arguments.read .standard argv' = .ok a') (hplan : a.plan = pure plan)
    (hplan' : a'.plan = pure plan) (hlog : m.TakesLogOf a.options)
    (hlog' : m.TakesLogOf a'.options)
    (hapart : ∀ f ∈ plan.image :: plan.includeDir :: plan.artifacts.all,
      ¬ logPlaces m.cwd a.options a'.options (FileTree.placeOf m.cwd f.toString))
    (hspares : m.Spares (logPlaces m.cwd a.options a'.options) (run argv))
    (hspares' : m.Spares (logPlaces m.cwd a.options a'.options) (run argv')) :
    ∃ code n n', run argv m = .ok code n ∧ run argv' m = .ok code n' ∧
      SameShow n.trace n'.trace ∧
      n.tree.AgreeOff (logPlaces m.cwd a.options a'.options) n'.tree := by
  let places := logPlaces m.cwd a.options a'.options
  obtain ⟨blind, hsame, hblind⟩ := exists_blind places m.programs
  let s : Scene := ⟨m.cwd, m.preferringCwd.searchPath, blind, places, not_logPlaces_nil hlog hlog',
    hblind⟩
  -- On the machine with programs that never touch the places, both calls are in step.
  let m₁ : Machine := { m with programs := blind }
  have p : s.Pair m₁.preferringCwd m₁.preferringCwd := by
    have hlogs : ∀ f ∈ m₁.journal.openFiles, places f.location := by
      rw [show m₁.journal.openFiles = [] from hidle]
      exact List.forall_mem_nil _
    exact ⟨⟨rfl, rfl⟩, ⟨rfl, rfl⟩, ⟨rfl, rfl⟩, rfl, ⟨hlogs, hlogs⟩, .refl _ _, .refl _⟩
  obtain ⟨code, k, k', hk, hk', q⟩ := Scene.run_in_step p hidle hread hread' hplan hplan' hlog hlog'
    (fun log h => ⟨log, h, rfl⟩) hapart
  -- What these programs do instead makes no difference to either call.
  have hback {argv : List String} (h : m.Spares places (run argv)) {k : Machine}
      (hk : run argv m₁ = .ok code k) :
      ∃ n, run argv m = .ok code n ∧ n.trace = k.trace ∧ n.tree = k.tree := by
    have hout := h blind hsame
    rw [show run argv { m with programs := blind } = .ok code k from hk] at hout
    cases hrun : run argv m with
    | ok c n =>
      rw [hrun] at hout
      simp only [outcome, Prod.mk.injEq, Except.ok.injEq] at hout
      obtain ⟨rfl, ht, hf⟩ := hout
      exact ⟨n, rfl, ht.symm, hf.symm⟩
    | error e n =>
      rw [hrun] at hout
      simp [outcome] at hout
  obtain ⟨n, hn, ht, hf⟩ := hback hspares hk
  obtain ⟨n', hn', ht', hf'⟩ := hback hspares' hk'
  refine ⟨code, n, n', hn, hn', ?_, ?_⟩
  · rw [ht, ht']
    exact q.shown
  · rw [hf, hf']
    exact q.tree

/-- A machine with all tools, an image and an include directory. A tool prints a digest there and
does nothing else. -/
def digesting : Machine where
  cwd := toolsOnly.cwd
  searchPath := toolsOnly.searchPath
  tree := toolsOnly.tree.set ["fw.bin", "work"] (.file (.plain "FIRMWARE"))
  programs _ _ _ t := .ran t "da39a3ee5e6b4b0d3255bfef95601890afd80709  -\n" "" (.exited 0)
  turns := toolsOnly.turns
  journal := toolsOnly.journal
  trace := []

/-- There a call that says little and one that says much and logs to a file pass the image alike. -/
theorem run_log_independent_digesting :
    ∃ n n', run ["-t", "-i", "/bin", "fw.bin"] digesting = .ok Status.success n ∧
      run ["-vv", "--log-file", "audit.log", "-t", "-i", "/bin", "fw.bin"] digesting =
        .ok Status.success n' ∧
      SameShow n.trace n'.trace ∧ n.tree.AgreeOff (· = ["audit.log", "work"]) n'.tree := by
  let o : Options := { Options.standard with includeDir := .text "/bin", keepTemps := true }
  let a : Arguments := ⟨"fw.bin", o⟩
  let a' : Arguments := ⟨"fw.bin", { o with verbosity := 2, logFile := some (.text "audit.log") }⟩
  let plan : Plan :=
    { Plan.ofImage (.ofString "fw.bin") with includeDir := .ofString "/bin", keepTemps := true }
  have hplaces {l : Location} (h : logPlaces "/work" a.options a'.options l) :
      l = ["audit.log", "work"] := by
    have hplace : Path.logPlace "/work" (.ofString "audit.log") = ["audit.log", "work"] := by
      decide +kernel
    rcases h with ⟨log, hlog | hlog, rfl⟩
    · cases hlog
    · cases hlog
      exact hplace
  have hapart : ∀ f ∈ plan.image :: plan.includeDir :: plan.artifacts.all,
      ¬ logPlaces digesting.cwd a.options a'.options (FileTree.placeOf digesting.cwd f.toString) := by
    have hne : ∀ f ∈ plan.image :: plan.includeDir :: plan.artifacts.all,
        FileTree.placeOf "/work" f.toString ≠ ["audit.log", "work"] := by
      decide +kernel
    exact fun f hf h => hne f hf (hplaces h)
  have hspares (act : MachineM Nat) :
      digesting.Spares (logPlaces digesting.cwd a.options a'.options) act := by
    refine Machine.spares_of_blind (fun name turn call t t₁ t₂ h₁ h₂ => ?_) act
    refine .ran _ _ _ (h₁.symm.trans h₂) fun h h' _ _ hh hh' => ?_
    exact ⟨fun _ => hh', fun _ => hh⟩
  have htakes : digesting.TakesLog (.ofString "audit.log") := ⟨⟨_, by rfl⟩, _, _, by rfl⟩
  obtain ⟨code, n, n', hn, hn', hshow, htree⟩ :=
    run_log_independent digesting rfl ["-t", "-i", "/bin", "fw.bin"]
      ["-vv", "--log-file", "audit.log", "-t", "-i", "/bin", "fw.bin"] a a' plan (by rfl) (by rfl)
      rfl rfl (Or.inl rfl) (Or.inr ⟨_, rfl, htakes⟩) hapart (hspares _) (hspares _)
  have hpasses : EStateM.run' (run ["-t", "-i", "/bin", "fw.bin"]) digesting =
      some Status.success := by decide +kernel
  rw [EStateM.run', EStateM.run, hn] at hpasses
  obtain rfl : code = Status.success := Option.some.inj hpasses
  exact ⟨n, n', hn, hn', hshow, fun l hl => htree.elsewhere l (mt hplaces hl), htree.ways⟩

end CommandLine

end FirmwareAudit
