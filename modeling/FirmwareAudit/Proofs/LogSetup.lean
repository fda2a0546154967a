import FirmwareAudit.Proofs.Calls
import FirmwareAudit.Proofs.Invocation
import FirmwareAudit.Proofs.Places
import FirmwareAudit.Proofs.ToolSearch

/-! # Setting the log up

Setting the log up touches no file but the log file and the directories that it needs, and until the
pipeline starts nothing else does. A log file lies where its path leads from the working directory.
-/
namespace FirmwareAudit
open Text

namespace Machine

/-! ## Nothing but log records -/

/-- Between the machines nothing was done but to log. -/
def OnlyLogs (m m' : Machine) : Prop := ∃ records : List Record, m.Adds (records.map .logged) m'

namespace OnlyLogs
variable {m m' m'' : Machine}

theorem of_trace {added : List Event} (ht : m'.trace = m.trace ++ added) (ha : acts added = []) :
    m.OnlyLogs m' :=
  ⟨[], added, ht, ha⟩

theorem refl (m : Machine) : m.OnlyLogs m := ⟨[], Adds.refl m⟩

theorem trans (h : m.OnlyLogs m') (h' : m'.OnlyLogs m'') : m.OnlyLogs m'' := by
  obtain ⟨records, ha⟩ := h
  obtain ⟨records', ha'⟩ := h'
  refine ⟨records ++ records', ?_⟩
  rw [List.map_append]
  exact ha.trans ha'

theorem afterLog (h : m.OnlyLogs m') (logger operation : String) (level : Int)
    (message : String) : m.OnlyLogs (m'.afterLog logger operation level message) :=
  h.trans ⟨[_], m'.adds_afterLog logger operation level message⟩

/-- What was only logged shows no program and no report. -/
theorem silent (h : m.OnlyLogs m') : ∃ events, m'.trace = m.trace ++ events ∧
    attempts events = [] ∧ reported .output events = [] := by
  obtain ⟨records, events, ht, ha⟩ := h
  refine ⟨events, ht, ?_, ?_⟩
  · rw [← attempts_acts, ha]
    simp [attempts, Event.attempt?]
  · rw [← reported_acts (show Stream.output ≠ .errors by decide), ha]
    simp [reported, Event.report?]

end OnlyLogs

end Machine

namespace Journal

/-! ## Known loggers -/

theorem register_of_known {j : Journal} {name : String} (h : (j.named.lookup name).isSome) :
    j.register name = j := by
  simp [register, h]

theorem lookup_register {j : Journal} {name : String} (h : isRoot name = false) :
    ((j.register name).named.lookup name).isSome := by
  unfold register
  cases hl : j.named.lookup name with
  | some l => simp [hl]
  | none => simp [h, List.lookup_append, hl]

/-- A logger that was asked is known. -/
theorem register_asked (j : Journal) (name : String) (level : Int) :
    (j.asked name level).register name = j.asked name level := by
  by_cases h : isRoot name = true
  · simp [register, h]
  · exact register_of_known (lookup_register (j := j) (by simpa using h))

/-- To be known changes no logger. -/
theorem logger_register (j : Journal) (name other : String) :
    (j.register name).logger other = j.logger other := by
  unfold register
  split
  · rfl
  · next h =>
    unfold logger
    split
    · rfl
    · by_cases ho : other = name
      · subst ho
        cases hl : j.named.lookup other with
        | some l => simp [hl] at h
        | none => simp [List.lookup_append, hl]
      · have hne : (other == name) = false := by simpa using ho
        simp [List.lookup_append, List.lookup_cons, hne]

end Journal

/-! ## What a log file changes -/

namespace Path

/-- A path that the names of another begin with. -/
def IsBeginning (q p : Path) : Prop := q.anchor = p.anchor ∧ q.names <+: p.names

/-- The place that a log file has, its path taken from the working directory. -/
def logPlace (cwd : String) (log : Path) : Location :=
  FileTree.placeOf cwd (log.absolute cwd).toString

end Path

namespace FileTree

/-- How a log file changes what is at a location: it is made or written to, or the location is that
of a directory that was missing for it. -/
inductive LogChange (cwd : String) (log : Path) (l : Location) : Option Node → Option Node → Prop
  | directory (q : Path) (hq : q.IsBeginning log.parent) (hl : placeOf cwd q.toString = l) :
      LogChange cwd log l none (some (.directory .plain))
  | created (text : String) (stamp : Nat) (hl : log.logPlace cwd = l) :
      LogChange cwd log l none (some (.file { FileNode.plain text with stamp }))
  | appended (f : FileNode) (text : String) (hl : log.logPlace cwd = l) :
      LogChange cwd log l (some (.file f)) (some (.file { f with text := f.text ++ text }))

/-- The trees differ only where a log file makes them. -/
def ChangedByLog (cwd : String) (log? : Option Path) (t t' : FileTree) : Prop :=
  ∀ l, t'.find? l = t.find? l ∨
    ∃ log, log? = some log ∧ LogChange cwd log l (t.find? l) (t'.find? l)

namespace ChangedByLog
variable {cwd : String} {log? : Option Path} {log : Path} {t t' : FileTree}

theorem refl (t : FileTree) : ChangedByLog cwd log? t t := fun _ => Or.inl rfl

/-- What is not there now was not there before. -/
theorem absent (h : ChangedByLog cwd log? t t') {l : Location} (hl : t'.find? l = none) :
    t.find? l = none := by
  rcases h l with hsame | ⟨log, -, hc⟩
  · rw [← hsame, hl]
  · rw [hl] at hc
    generalize t.find? l = before at hc
    cases hc

theorem congr {t'' : FileTree} (h : ChangedByLog cwd log? t t') {l₀ : Location}
    (hoff : ∀ l, l ≠ l₀ → t''.find? l = t'.find? l)
    (hat : ∃ log, log? = some log ∧ LogChange cwd log l₀ (t.find? l₀) (t''.find? l₀)) :
    ChangedByLog cwd log? t t'' := by
  intro l
  by_cases hl : l = l₀
  · rw [hl]
    exact Or.inr hat
  · rw [hoff l hl]
    exact h l

section OneLog
variable (hlog : log? = some log)
include hlog

theorem makeDirectory (h : ChangedByLog cwd log? t t') {q : Path} (hq : q.IsBeginning log.parent)
    {t'' : FileTree} (hm : t'.makeDirectory cwd q.toString = .ok t'') :
    ChangedByLog cwd log? t t'' := by
  unfold FileTree.makeDirectory at hm
  split at hm
  · cases hm
  · next l parent hr =>
    split at hm
    · cases hm
      have hnone := h.absent (find?_of_vacant (walk_of_resolve hr))
      refine h.congr (fun k hk => find?_set_of_ne t' _ hk) ⟨log, hlog, ?_⟩
      rw [hnone, find?_set_self]
      exact .directory q hq (location_of_resolve hr).symm
    · cases hm
  · cases hm

theorem openForWriting (h : ChangedByLog cwd log? t t') {handle : Handle} {t'' : FileTree}
    (ho : t'.openForWriting cwd (log.absolute cwd).toString .append = .ok (handle, t'')) :
    handle.location = log.logPlace cwd ∧ ChangedByLog cwd log? t t'' := by
  unfold FileTree.openForWriting at ho
  split at ho
  · cases ho
  · next l f hr =>
    split at ho
    · cases ho
      exact ⟨location_of_resolve hr, h⟩
    · cases ho
  · next l parent hr =>
    have hplace : log.logPlace cwd = l := (location_of_resolve hr).symm
    split at ho
    · cases ho
    · split at ho
      · cases ho
        have hnone := h.absent (find?_of_vacant (walk_of_resolve hr))
        refine ⟨hplace.symm, h.congr (fun k hk => find?_create_of_ne t' _ hk) ⟨log, hlog, ?_⟩⟩
        rw [hnone, find?_create_self]
        exact .created "" t'.clock hplace
      · cases ho
  · cases ho

theorem append (h : ChangedByLog cwd log? t t') {handle : Handle}
    (hplace : handle.location = log.logPlace cwd) (text : String) :
    ChangedByLog cwd log? t (t'.append handle text) := by
  unfold FileTree.append
  split
  · next f hf =>
    split
    · refine h.congr (fun k hk => find?_set_of_ne t' _ hk) ⟨log, hlog, ?_⟩
      rw [find?_set_self]
      rcases h handle.location with hsame | ⟨log', hlog', hc⟩
      · rw [← hsame, hf]
        exact .appended f text hplace.symm
      · cases Option.some.inj (hlog.symm.trans hlog')
        rw [hf] at hc
        generalize ht : t.find? handle.location = before at hc ⊢
        cases hc with
        | created text' stamp hl => exact .created (text' ++ text) stamp hl
        | appended f' text' hl =>
          rw [String.append_assoc]
          exact .appended f' (text' ++ text) hl
    · exact h
  · exact h

theorem appendEach (h : ChangedByLog cwd log? t t') (line : String) {files : List Handle}
    (hplace : ∀ f ∈ files, f.location = log.logPlace cwd) :
    ChangedByLog cwd log? t (t'.appendEach line files) := by
  induction files generalizing t' with
  | nil => exact h
  | cons f rest ih =>
    rw [List.forall_mem_cons] at hplace
    exact ih (h.append hlog hplace.1 line) hplace.2

end OneLog

end ChangedByLog

end FileTree

namespace Journal

theorem lookup_update {j : Journal} {name : String} (h : isRoot name = false) (f : Logger → Logger) :
    (j.update name f).named.lookup name = (j.named.lookup name).map f := by
  simp only [update, h, Bool.false_eq_true, if_false]
  induction j.named with
  | nil => rfl
  | cons e rest ih =>
    obtain ⟨other, l⟩ := e
    by_cases ho : other = name
    · simp [ho]
    · have hne : (name == other) = false := by simpa using Ne.symm ho
      simpa [ho, List.lookup_cons, hne] using ih

/-- A logger that passes nothing on has only its own handlers. -/
theorem handlersOf_of_last {j : Journal} {name : String} {l : Logger} (h : isRoot name = false)
    (hl : j.named.lookup name = some l) (hlast : l.passesOn = false) :
    j.handlersOf name = l.handlers := by
  have hlogger : j.logger name = l := by simp [logger, h, hl]
  have hlength : ∃ n, j.named.length = n + 1 := by
    cases hn : j.named with
    | nil => simp [hn] at hl
    | cons e rest => exact ⟨rest.length, rfl⟩
  obtain ⟨n, hn⟩ := hlength
  simp [handlersOf, lineage, hn, lineageWithin, h, hlogger, handlersAlong, hlast]

end Journal

/-! ## Setting the log up -/

theorem isRoot_mainLogger : Journal.isRoot mainLogger = false := by decide

/-- The file that the options name for the log. -/
def Options.log? (o : Options) : Option Path :=
  match o.logFile with
  | some (.text s) => some (.ofString s)
  | _ => none

/-- What may have changed once the program's own logger was given its console. -/
structure Machine.Prepared (log? : Option Path) (m m' : Machine) : Prop where
  cwd : m'.cwd = m.cwd
  onlyLogs : m.OnlyLogs m'
  logger : ∃ handlers, m'.journal.named.lookup mainLogger = some ⟨Level.debug, false, handlers⟩ ∧
    ∀ h ∈ handlers, ∀ f, h.sink = .file f → ∃ log, log? = some log ∧ f.location = log.logPlace m.cwd
  tree : FileTree.ChangedByLog m.cwd log? m.tree m'.tree

section Preparing
variable {m : Machine} {log? : Option Path}

theorem prepared_log (operation : String) (level : Int) (message : String) :
    Keeps (m.Prepared log?) (log mainLogger operation level message) := by
  intro m₁ h
  obtain ⟨handlers, hlookup, hfiles⟩ := h.logger
  have hregister : m₁.journal.register mainLogger = m₁.journal :=
    Journal.register_of_known (by simp [hlookup])
  have hasked : (m₁.journal.asked mainLogger level).named.lookup mainLogger =
      some ⟨Level.debug, false, handlers⟩ := by
    rw [Journal.asked, hregister]
    exact hlookup
  rw [log_eq]
  refine ⟨h.cwd, h.onlyLogs.afterLog _ _ _ _, ⟨handlers, hasked, hfiles⟩, ?_⟩
  · have htakers : ∀ r, ∀ f ∈ (m₁.journal.asked mainLogger level).takers mainLogger r,
        ∃ log, log? = some log ∧ f.location = log.logPlace m.cwd := by
      intro r f hf
      unfold Journal.takers at hf
      rw [Journal.handlersOf_of_last isRoot_mainLogger hasked rfl] at hf
      split at hf
      · obtain ⟨handler, hh, hf⟩ := List.mem_flatMap.1 hf
        exact hfiles handler hh f (Handler.sink_of_mem_files hf)
      · cases hf
    simp only [Machine.afterLog, endState_ok]
    generalize (⟨Journal.properName mainLogger, operation, level, message⟩ : Record) = r
    cases log? with
    | none =>
      have hnone : (m₁.journal.asked mainLogger level).takers mainLogger r = [] := by
        rw [List.eq_nil_iff_forall_not_mem]
        intro f hf
        obtain ⟨log, hlog, -⟩ := htakers r f hf
        cases hlog
      rw [hnone]
      exact h.tree
    | some log =>
      refine h.tree.appendEach rfl _ fun f hf => ?_
      obtain ⟨log', hlog, hplace⟩ := htakers r f hf
      cases hlog
      exact hplace

theorem prepared_makeDirectory {log : Path} (hlog : log? = some log) {q : Path}
    (hq : q.IsBeginning log.parent) : Keeps (m.Prepared log?) (makeDirectory q) := by
  intro m₁ h
  unfold makeDirectory
  rw [bind_of_ok (get_apply m₁)]
  cases hm : m₁.tree.makeDirectory m₁.cwd q.toString with
  | error fault => exact h
  | ok t =>
    rw [h.cwd] at hm
    exact ⟨h.cwd, h.onlyLogs, h.logger, h.tree.makeDirectory hlog hq hm⟩

/-- Work that changes nothing keeps what there is. -/
theorem Keeps.of_still {I : Machine → Prop} {act : MachineM α} (h : ∀ m, Keeps (· = m) act) :
    Keeps I act := by
  intro m hm
  rwa [h m m rfl]

theorem still_nodeAt (path : Path) (m : Machine) : Keeps (· = m) (nodeAt path) := by
  rintro m₁ rfl
  unfold nodeAt
  rw [bind_of_ok (get_apply m₁)]
  cases m₁.tree.probe m₁.cwd path.toString <;> rfl

theorem still_isDirectory (path : Path) (m : Machine) : Keeps (· = m) (isDirectory path) := by
  apply (still_nodeAt path m).bind
  intro n
  split <;> exact Keeps.pure _

theorem still_isFile (path : Path) (m : Machine) : Keeps (· = m) (isFile path) := by
  apply (still_nodeAt path m).bind
  intro n
  split <;> exact Keeps.pure _

theorem prepared_ensureDirectory {log : Path} (hlog : log? = some log) {q : Path}
    (hq : q.IsBeginning log.parent) : Keeps (m.Prepared log?) (ensureDirectory q) := by
  apply (prepared_makeDirectory hlog hq).tryCatch
  intro s
  split
  · exact Keeps.throw _
  · have hlook : Keeps (m.Prepared log?) (isDirectory q) := Keeps.of_still (still_isDirectory q)
    exact hlook.bind fun _ => Keeps.ite (Keeps.pure _) (Keeps.throw _)
  · exact Keeps.throw _

theorem prepared_ensureDirectories {log : Path} (hlog : log? = some log) {names : List String}
    (hnames : ∀ n ∈ names, IsName n) (hbeginning : names.reverse <+: log.parent.names) :
    Keeps (m.Prepared log?) (ensureDirectories log.parent.anchor names hnames) := by
  induction names with
  | nil => exact prepared_ensureDirectory hlog ⟨rfl, List.nil_prefix⟩
  | cons n above ih =>
    have hdirectory := prepared_ensureDirectory (m := m) hlog
      (q := ⟨log.parent.anchor, (n :: above).reverse, fun k hk => hnames k (List.mem_reverse.1 hk)⟩)
      ⟨rfl, hbeginning⟩
    apply hdirectory.tryCatch
    intro s
    split
    · rw [List.reverse_cons] at hbeginning
      exact (ih _ ((List.prefix_append _ _).trans hbeginning)).bind fun _ => hdirectory
    · exact Keeps.throw _

theorem prepared_makeAll {log : Path} (hlog : log? = some log) :
    Keeps (m.Prepared log?) log.parent.makeAll :=
  prepared_ensureDirectories hlog _ (by simp)

/-- One more handler of the program's own logger. -/
theorem prepared_addHandler {h : Handler}
    (hfile : ∀ f, h.sink = .file f → ∃ log, log? = some log ∧ f.location = log.logPlace m.cwd) :
    Keeps (m.Prepared log?) (addHandler mainLogger h) := by
  intro m₁ hm
  obtain ⟨handlers, hlookup, hfiles⟩ := hm.logger
  refine ⟨hm.cwd, hm.onlyLogs, ⟨handlers ++ [h], ?_, ?_⟩, hm.tree⟩
  · simp only [addHandler, modify_apply, endState_ok, Journal.lookup_update isRoot_mainLogger,
      hlookup]
    rfl
  · intro h' hh'
    rcases List.mem_append.1 hh' with hh' | hh'
    · exact hfiles h' hh'
    · rw [List.mem_singleton.1 hh']
      exact hfile

theorem prepared_logFile {log : Path} (hlog : log? = some log) :
    Keeps (m.Prepared log?) (do
      log.parent.makeAll
      let m ← get
      let h ← openForWriting (log.absolute m.cwd).toString .append
      addHandler mainLogger ⟨.file h, Level.debug⟩
      FirmwareAudit.log mainLogger "setup_logging" Level.debug ("Log file: " ++ log.toString)) := by
  apply (prepared_makeAll hlog).bind
  rintro - m₁ h
  rw [bind_of_ok (get_apply m₁)]
  cases ho : openForWriting (log.absolute m₁.cwd).toString .append m₁ with
  | error s m₂ =>
    obtain ⟨-, rfl⟩ := openForWriting_eq_error ho
    rw [bind_of_error ho]
    exact h
  | ok handle m₂ =>
    obtain ⟨-, t, hopen, rfl⟩ := openForWriting_eq_ok ho
    rw [h.cwd] at hopen
    obtain ⟨hplace, htree⟩ := h.tree.openForWriting hlog hopen
    rw [bind_of_ok ho]
    have hopened : m.Prepared log? { m₁ with
        tree := t, trace := m₁.trace ++ [.opened (log.absolute m₁.cwd).toString] } :=
      ⟨h.cwd, h.onlyLogs.trans (.of_trace rfl rfl), h.logger, htree⟩
    have hadd : Keeps (m.Prepared log?) (addHandler mainLogger ⟨.file handle, Level.debug⟩) := by
      refine prepared_addHandler fun f hf => ?_
      cases hf
      exact ⟨log, hlog, hplace⟩
    exact (hadd.bind fun _ => prepared_log _ _ _) _ hopened

/-- The machine once the program's own logger was started afresh, with its console alone. -/
def Machine.withConsole (m : Machine) (threshold : Int) : Machine :=
  { m with
    journal := ((m.journal.register mainLogger).update mainLogger
      fun _ => ⟨Level.debug, false, []⟩).forget.update mainLogger
        fun l => { l with handlers := l.handlers ++ [⟨.console mainLogger, threshold⟩] } }

theorem prepared_withConsole (log? : Option Path) (threshold : Int) (m : Machine) :
    m.Prepared log? (m.withConsole threshold) := by
  refine ⟨rfl, .refl m, ⟨[⟨.console mainLogger, threshold⟩], ?_, ?_⟩, .refl _⟩
  · obtain ⟨l, hl⟩ := Option.isSome_iff_exists.1
      (Journal.lookup_register (j := m.journal) isRoot_mainLogger)
    simp only [Machine.withConsole, Journal.forget, Journal.lookup_update isRoot_mainLogger, hl]
    rfl
  · intro h hh f hf
    rw [List.mem_singleton.1 hh] at hf
    cases hf

theorem prepared_setUpLogging {o : Options} {file : Option Path} (hfile : file = o.log? ∨ file = none)
    (console : Int) (m : Machine) :
    m.Prepared o.log? (endState (setUpLogging console file mainLogger m)) := by
  have hstart := prepared_withConsole o.log? console m
  unfold setUpLogging registerLogger addHandler
  rw [bind_of_ok (modify_apply _ _), bind_of_ok (modify_apply _ _), bind_of_ok (modify_apply _ _)]
  cases file with
  | none => exact hstart
  | some log => exact prepared_logFile (hfile.resolve_right nofun).symm _ hstart

theorem endState_bind_throw (x : MachineM α) (s : Stop) (m : Machine) :
    endState ((do let _ ← x; throw s : MachineM β) m) = endState (x m) := by
  cases hx : x m with
  | ok a m' => rw [bind_of_ok hx, throw_apply, endState_error, endState_ok]
  | error s' m' => rw [bind_of_error hx, endState_error, endState_error]

theorem prepared_setUpLog (o : Options) (m : Machine) :
    m.Prepared o.log? (endState (CommandLine.setUpLog o m)) := by
  unfold CommandLine.setUpLog
  cases hf : o.logFile with
  | none => exact prepared_setUpLogging (Or.inr rfl) _ m
  | some setting =>
    cases setting with
    | cleared =>
      have hset := prepared_setUpLogging (o := o) (Or.inr rfl) (Level.ofVerbosity o.verbosity) m
      rw [← endState_bind_throw _ Stop.notText] at hset
      exact hset
    | text s =>
      have hlog : some (Path.ofString s) = o.log? := by simp [Options.log?, hf]
      exact prepared_setUpLogging (Or.inl hlog) _ m

theorem still_validate (plan : Plan) (m : Machine) : Keeps (· = m) plan.validate := by
  have hread : Keeps (· = m) (mayRead plan.image) := by
    rintro m₁ rfl
    rfl
  have hdirectory : Keeps (· = m) (do
      unless ← isDirectory plan.includeDir do
        throw (.fault (.missingIncludeDir plan.includeDir)) : MachineM Unit) :=
    (still_isDirectory plan.includeDir m).bind fun _ => Keeps.ite (Keeps.pure _) (Keeps.throw _)
  apply (still_isFile plan.image m).bind
  intro here
  apply Keeps.ite
  · apply hread.bind
    intro readable
    exact Keeps.ite hdirectory ((Keeps.throw _).bind fun _ => hdirectory)
  · exact (Keeps.throw _).bind fun _ => hdirectory

theorem still_plan (a : Arguments) (m : Machine) : Keeps (· = m) a.plan := by
  have hpath : Keeps (· = m) a.options.includeDir.path := by
    cases a.options.includeDir with
    | text s => exact Keeps.pure _
    | cleared => exact Keeps.throw _
  exact hpath.bind fun _ => Keeps.pure _

/-- What a call may have changed when its work before the pipeline is done or has stopped. -/
theorem prepared_prepare (a : Arguments) (m : Machine) :
    m.Prepared a.options.log? (endState (CommandLine.prepare a m)) := by
  have hsetUp := prepared_setUpLog a.options m
  unfold CommandLine.prepare
  cases hs : CommandLine.setUpLog a.options m with
  | error s m₁ =>
    rw [hs] at hsetUp
    rw [bind_of_error hs]
    exact hsetUp
  | ok u m₁ =>
    rw [hs] at hsetUp
    rw [bind_of_ok hs]
    have hplan : Keeps (m.Prepared a.options.log?) a.plan := Keeps.of_still (still_plan a)
    have hrest := hplan.bind fun plan => (Keeps.of_still (still_validate plan)).bind
      fun _ => (prepared_log "main" Level.debug ("Config: " ++ plan.described)).bind
        fun _ => Keeps.pure plan
    exact ((prepared_log "main" Level.info versionLine).bind fun _ => hrest) m₁ hsetUp

end Preparing

end FirmwareAudit
