import FirmwareAudit.Proofs.CommandOrder
import FirmwareAudit.Proofs.ShellWords

/-! # What the log tells of a run

Each command and each removal is logged right before it is tried, and no other record looks like one
of theirs. So the log tells what was tried, in order; and the line of a command, read as a shell
reads it, gives the words of the command.
-/
namespace FirmwareAudit
open Text

namespace Record

def isOfCommand (r : Record) : Bool := r.logger = toolLogger

def isOfRemoval (r : Record) : Bool := startsWith "Removing " r.message

/-- The record tells that the file with this path is removed, in time or after an abort. -/
def TellsRemoval (r : Record) (path : String) : Prop :=
  r = ⟨pipelineLogger, "remove_temps", Level.debug, "Removing " ++ path⟩ ∨
    r = ⟨pipelineLogger, "discard_pending", Level.debug, "Removing " ++ path ++ " after abort"⟩

theorem TellsRemoval.isOfRemoval {r : Record} {path : String} (h : r.TellsRemoval path) :
    r.isOfRemoval = true := by
  rcases h with rfl | rfl <;> simp [Record.isOfRemoval, startsWith]

theorem TellsRemoval.isOfCommand {r : Record} {path : String} (h : r.TellsRemoval path) :
    r.isOfCommand = false := by
  rcases h with rfl | rfl <;> rfl

end Record

namespace Event

def commandRecord? : Event → Option Record
  | .logged r => if r.isOfCommand then some r else none
  | _ => none

def removalRecord? : Event → Option Record
  | .logged r => if r.isOfRemoval then some r else none
  | _ => none

/-- No try at a command, no removal and no record of either. -/
def IsAside (e : Event) : Prop :=
  e.attempt? = none ∧ e.removal? = none ∧ e.commandRecord? = none ∧ e.removalRecord? = none

theorem isAside_logged {r : Record} (hc : r.isOfCommand = false) (hr : r.isOfRemoval = false) :
    (Event.logged r).IsAside :=
  ⟨rfl, rfl, if_neg (by simp [hc]), if_neg (by simp [hr])⟩

theorem of_attempt {e : Event} {command : List String} (h : e.attempt? = some command) :
    e.removal? = none ∧ e.commandRecord? = none ∧ e.removalRecord? = none := by
  cases e with
  | ran r => exact ⟨rfl, rfl, rfl⟩
  | notStarted c reason => exact ⟨rfl, rfl, rfl⟩
  | _ => cases h

end Event

/-- The records that tools make of their commands. -/
def commandRecords (es : List Event) : List Record := es.filterMap Event.commandRecord?

/-- The records that tell of removals. -/
def removalRecords (es : List Event) : List Record := es.filterMap Event.removalRecord?

theorem commandRecords_acts (es : List Event) : commandRecords (acts es) = commandRecords es := by
  refine filterMap_acts (fun e he => ?_) es
  cases e with
  | logged r => cases he
  | _ => rfl

theorem removalRecords_acts (es : List Event) : removalRecords (acts es) = removalRecords es := by
  refine filterMap_acts (fun e he => ?_) es
  cases e with
  | logged r => cases he
  | _ => rfl

/-! ## Transcripts -/

/-- A command with what its record says besides: the operation and the stage that it is run for, and
where its output goes. -/
structure Call where
  operation : String
  stage : String
  command : List String
  output : Output

namespace Call

def record (c : Call) : Record := Toolchain.commandRecord c.operation c.stage c.command c.output

theorem isOfCommand_record (c : Call) : c.record.isOfCommand = true := rfl

theorem isOfRemoval_record (c : Call) : c.record.isOfRemoval = false := by
  simp [record, Toolchain.commandRecord, Record.isOfRemoval, startsWith, List.isPrefixOf]

/-- Behind the stage the record has a line of shell words that gives back the command, and behind the
line the file that the output goes to, if it goes to one. -/
theorem message_record (c : Call) :
    ∃ line target, c.record.message = "[" ++ c.stage ++ "] " ++ line ++ target ∧
      shellWords? line = some c.command ∧
      ((∃ path, c.output = .file path ∧ target = " > " ++ path.toString) ∨
        (∀ path, c.output ≠ .file path) ∧ target = "") := by
  refine ⟨shellLine c.command, c.output.redirection, rfl, shellWords?_shellLine c.command, ?_⟩
  cases c.output with
  | file path => exact Or.inl ⟨path, rfl, rfl⟩
  | shared => exact Or.inr ⟨nofun, rfl⟩
  | discarded => exact Or.inr ⟨nofun, rfl⟩

end Call

/-- Acts that are told: each try at a command stands right behind the record of its call, each
removal right behind a record of its own, and no other act is a try, a removal or such a record. -/
inductive Transcript : List Call → List Event → Prop
  | nil : Transcript [] []
  | aside {cs : List Call} {es : List Event} {e : Event} (he : e.IsAside) (h : Transcript cs es) :
      Transcript cs (e :: es)
  | call {c : Call} {cs : List Call} {es : List Event} {e : Event}
      (he : e.attempt? = some c.command) (h : Transcript cs es) :
      Transcript (c :: cs) (.logged c.record :: e :: es)
  | removal {r : Record} {path : String} {failure : Option Stop} {cs : List Call}
      {es : List Event} (hr : r.TellsRemoval path) (h : Transcript cs es) :
      Transcript cs (.logged r :: .unlinked path failure :: es)

namespace Transcript
variable {cs ds : List Call} {es fs : List Event}

theorem append (h : Transcript cs es) (h' : Transcript ds fs) :
    Transcript (cs ++ ds) (es ++ fs) := by
  induction h with
  | nil => exact h'
  | aside he _ ih => exact .aside he ih
  | call he _ ih => exact .call he ih
  | removal hr _ ih => exact .removal hr ih

theorem attempts_eq (h : Transcript cs es) : attempts es = cs.map (·.command) := by
  induction h with
  | nil => rfl
  | aside he _ ih => rw [attempts, List.filterMap_cons_none he.1, ← ih, attempts]
  | call he _ ih => exact (attempts_cons he _).trans (congrArg _ ih)
  | removal hr _ ih => exact ih

/-- There is one record for each call, in order. -/
theorem commandRecords_eq (h : Transcript cs es) : commandRecords es = cs.map (·.record) := by
  unfold commandRecords
  induction h with
  | nil => rfl
  | aside he _ ih => rw [List.filterMap_cons_none he.2.2.1, ih]
  | @call c cs es e he _ ih =>
    have hrecord : (Event.logged c.record).commandRecord? = some c.record := by
      rw [Event.commandRecord?, if_pos c.isOfCommand_record]
    rw [List.filterMap_cons_some hrecord, List.filterMap_cons_none (Event.of_attempt he).2.1, ih,
      List.map_cons]
  | @removal r path failure cs es hr _ ih =>
    have hrecord : (Event.logged r).commandRecord? = none := if_neg (by simp [hr.isOfCommand])
    rw [List.filterMap_cons_none hrecord, ← ih]
    rfl

/-- There is one record for each removal, in order and with its path. -/
theorem removalRecords_tell (h : Transcript cs es) :
    List.Forall₂ Record.TellsRemoval (removalRecords es) ((removals es).map Prod.fst) := by
  unfold removalRecords removals
  induction h with
  | nil => exact .nil
  | aside he _ ih => rwa [List.filterMap_cons_none he.2.2.2, List.filterMap_cons_none he.2.1]
  | @call c cs es e he _ ih =>
    have hrecord : (Event.logged c.record).removalRecord? = none :=
      if_neg (by simp [c.isOfRemoval_record])
    have hlogged : (Event.logged c.record).removal? = none := rfl
    have hattempt := Event.of_attempt he
    rwa [List.filterMap_cons_none hrecord, List.filterMap_cons_none hattempt.2.2,
      List.filterMap_cons_none hlogged, List.filterMap_cons_none hattempt.1]
  | @removal r path failure cs es hr _ ih =>
    have hrecord : (Event.logged r).removalRecord? = some r := if_pos hr.isOfRemoval
    have hlogged : (Event.logged r).removal? = none := rfl
    have hremoval : (Event.unlinked path failure).removal? = some (path, failure) := rfl
    have hnone : (Event.unlinked path failure).removalRecord? = none := rfl
    rw [List.filterMap_cons_some hrecord, List.filterMap_cons_none hnone,
      List.filterMap_cons_none hlogged, List.filterMap_cons_some hremoval]
    exact .cons hr ih

end Transcript

/-! ## Computations that are told -/

section Computations
variable {σ α β : Type}

/-- From this state, the acts of the computation are a transcript of the first of these calls, and of
all of them if it comes to a value. -/
def NotesAt (machine : σ → Machine) (cs : List Call) (x : EStateM Stop σ α) (s : σ) : Prop :=
  ∃ made es, (machine s).Adds es (machine (endState (x s))) ∧ Transcript made es ∧ made <+: cs ∧
    (failure? (x s) = none → made = cs)

/-- The computation notes its calls wherever it starts. -/
def Notes (machine : σ → Machine) (cs : List Call) (x : EStateM Stop σ α) : Prop :=
  ∀ s, NotesAt machine cs x s

variable {machine : σ → Machine} {cs ds : List Call} {x : EStateM Stop σ α} {s t : σ}
  {es : List Event}

theorem NotesAt.of_eq_ok {a : α} (hx : x s = .ok a t) (hadds : (machine s).Adds es (machine t))
    (ht : Transcript cs es) : NotesAt machine cs x s := by
  rw [NotesAt, hx]
  exact ⟨cs, es, hadds, ht, List.prefix_rfl, fun _ => rfl⟩

theorem NotesAt.of_eq_error {e : Stop} {made : List Call} (hx : x s = .error e t)
    (hadds : (machine s).Adds es (machine t)) (ht : Transcript made es) (hp : made <+: cs) :
    NotesAt machine cs x s := by
  rw [NotesAt, hx]
  exact ⟨made, es, hadds, ht, hp, nofun⟩

/-- What is done before a stop is passed on makes no calls. -/
theorem NotesAt.rethrow {e : Stop} {y : EStateM Stop σ β} (h : NotesAt machine cs x s)
    (hx : x s = .error e t) (hy : Notes machine [] y) {z : EStateM Stop σ α}
    (hz : z s = (do let _ ← y; throw e : EStateM Stop σ α) t) : NotesAt machine cs z s := by
  obtain ⟨made, es, hadds, ht, hp, -⟩ := h
  obtain ⟨made', es', hadds', ht', hp', -⟩ := hy t
  have hmade : made ++ made' = made := by rw [List.prefix_nil.1 hp', List.append_nil]
  have htold := ht.append ht'
  rw [hx] at hadds
  rw [hmade] at htold
  cases hr : y t with
  | ok b u =>
    rw [hr] at hadds'
    exact .of_eq_error (hz.trans (bind_of_ok hr)) (hadds.trans hadds') htold hp
  | error e' u =>
    rw [hr] at hadds'
    exact .of_eq_error (hz.trans (bind_of_error hr)) (hadds.trans hadds') htold hp

namespace Notes

theorem pure (a : α) : Notes machine [] (pure a : EStateM Stop σ α) :=
  fun _ => .of_eq_ok rfl (.refl _) .nil

theorem throw (e : Stop) : Notes machine cs (throw e : EStateM Stop σ α) :=
  fun _ => .of_eq_error rfl (.refl _) .nil List.nil_prefix

theorem bind {f : α → EStateM Stop σ β} (hx : Notes machine cs x)
    (hf : ∀ a, Notes machine ds (f a)) : Notes machine (cs ++ ds) (x >>= f) := by
  intro s
  obtain ⟨made, es, hadds, ht, hp, hall⟩ := hx s
  cases hr : x s with
  | ok a t =>
    rw [hr] at hadds hall
    obtain ⟨made', es', hadds', ht', hp', hall'⟩ := hf a t
    -- What comes behind starts only once all calls before it were made.
    have hmade : made = cs := hall rfl
    rw [NotesAt, bind_of_ok hr, ← hmade]
    refine ⟨made ++ made', es ++ es', hadds.trans hadds', ht.append ht', ?_, fun h => ?_⟩
    · exact (List.prefix_append_right_inj made).2 hp'
    · rw [hall' h]
  | error e t =>
    rw [hr] at hadds
    exact .of_eq_error (bind_of_error hr) hadds ht (hp.trans (List.prefix_append _ _))

theorem ite {c : Prop} [Decidable c] {y : EStateM Stop σ α} (hx : Notes machine cs x)
    (hy : Notes machine cs y) : Notes machine cs (if c then x else y) := by
  split
  · exact hx
  · exact hy

theorem onMachine {act : MachineM α} (h : Notes id cs act) :
    Notes (@Workplace.machine β) cs (onMachine act) := by
  intro w
  rw [NotesAt, endState_onMachine, failure?_onMachine]
  exact h w.machine

theorem modify_own (f : β → β) : Notes Workplace.machine []
      (modify fun w => { w with own := f w.own } : EStateM Stop (Workplace β) PUnit) :=
  fun _ => .of_eq_ok rfl (.refl _) .nil

theorem log {logger operation message : String} {level : Int}
    (hlogger : Journal.properName logger ≠ toolLogger)
    (hmessage : startsWith "Removing " message = false) :
    Notes id [] (log logger operation level message) := by
  intro m
  have haside : (Event.logged ⟨Journal.properName logger, operation, level, message⟩).IsAside :=
    Event.isAside_logged (decide_eq_false hlogger) hmessage
  exact .of_eq_ok (log_eq _ _ _ _ m) (m.adds_afterLog _ _ _ _) (.aside haside .nil)

theorem printLine (p : Pipeline) (text : String) : Notes id [] (printLine p.stream text) := by
  intro m
  obtain ⟨m', h, hadds⟩ := p.adds_printLine text m
  exact .of_eq_ok h hadds (.aside ⟨rfl, rfl, rfl, rfl⟩ .nil)

end Notes

end Computations

namespace Toolchain
variable (tc : Toolchain)

def call (operation stage role : String) (arguments : List String) (output : Output) : Call :=
  ⟨operation, stage, tc.command role arguments, output⟩

def checksumCall (path : Path) : Call :=
  tc.call "sha1" "verify" Tool.checksum.role [path.toString] .shared

variable {tc} in
theorem call_of_some {role : String} {tool : Tool} (h : tc.tool? role = some tool)
    (operation stage : String) (arguments : List String) (output : Output) :
    tc.call operation stage role arguments output =
      ⟨operation, stage, tool.program :: arguments, output⟩ := by
  rw [call, tc.command_of_some h]

theorem notes_run (stage role : String) (arguments : List String) (output : Output) :
    Notes id [tc.call "run" stage role arguments output]
      (tc.run stage role arguments output) := by
  intro m
  rcases tc.run_cases stage role arguments output m with ⟨-, h⟩ | ⟨tool, m', ht, h⟩
  · exact .of_eq_error h (.refl m) .nil List.nil_prefix
  · rw [call_of_some ht]
    rcases h with ⟨s, e, h, -, he, hadds⟩ | ⟨run, h, hrun, -, hadds⟩
    · exact .of_eq_error h hadds (.call he.attempt .nil) List.prefix_rfl
    · exact .of_eq_ok h hadds (.call (congrArg some hrun.1) .nil)

theorem notes_checksum (path : Path) : Notes id [tc.checksumCall path] (tc.checksum path) := by
  intro m
  rcases tc.checksum_cases path m with ⟨-, h⟩ | ⟨tool, m', ht, h⟩
  · exact .of_eq_error h (.refl m) .nil List.nil_prefix
  · rw [checksumCall, call_of_some ht]
    rcases h with ⟨s, e, h, -, he, hadds⟩ | ⟨run, digest, h, hrun, -, hadds⟩
    · exact .of_eq_error h hadds (.call he.attempt .nil) List.prefix_rfl
    · exact .of_eq_ok h hadds (.call (congrArg some hrun.1) .nil)

end Toolchain

namespace Pipeline

/-! ## The whole run -/

theorem notes_remove (path : Path) : Notes id [] (remove path) := by
  intro m
  have htold (failure : Option Stop) : Transcript []
      [.logged ⟨pipelineLogger, "remove_temps", Level.debug, "Removing " ++ path.toString⟩,
        .unlinked path.toString failure] :=
    .removal (Or.inl rfl) .nil
  rcases remove_cases path m with ⟨m', h, hadds⟩ | ⟨s, reason, m', h, -, hadds⟩
  · exact .of_eq_ok h hadds (htold none)
  · exact .of_eq_error h hadds (htold (some reason)) List.nil_prefix

theorem notes_discard (path : Path) : Notes id [] (discard path) := by
  intro m
  have htold (failure : Option Stop) {es : List Event} (hes : Transcript [] es) : Transcript []
      (.logged ⟨pipelineLogger, "discard_pending", Level.debug,
          "Removing " ++ path.toString ++ " after abort"⟩ ::
        .unlinked path.toString failure :: es) :=
    .removal (Or.inr rfl) hes
  rcases discard_cases path m with ⟨failure, m', h, hadds⟩ | ⟨m', h, -, hadds⟩
  · refine .of_eq_ok h hadds (htold (failure.map .system) ?_)
    cases failure with
    | none => exact .nil
    | some e =>
      have hmessage : (stayedRecord path e).isOfRemoval = false := by
        simp [stayedRecord, Record.isOfRemoval, startsWith, List.isPrefixOf]
      exact .aside (Event.isAside_logged rfl hmessage) .nil
  · exact .of_eq_error h hadds (htold (some .nulByte) .nil) List.nil_prefix

theorem notes_settle (path : Path) : Notes Workplace.machine [] (settle path) :=
  Notes.modify_own fun pending => pending.erase path

theorem notes_removeEach (paths : List Path) : Notes Workplace.machine [] (removeEach paths) := by
  induction paths with
  | nil => exact Notes.pure _
  | cons path rest ih =>
    exact (notes_remove path).onMachine.bind fun _ => (notes_settle path).bind fun _ => ih

theorem notes_discardEach (paths : List Path) : Notes Workplace.machine [] (discardEach paths) := by
  induction paths with
  | nil => exact Notes.pure _
  | cons path rest ih =>
    exact (notes_discard path).onMachine.bind fun _ => (notes_settle path).bind fun _ => ih

variable (p : Pipeline)

theorem notes_removeTemps (paths : List Path) : Notes Workplace.machine [] (p.removeTemps paths) :=
  Notes.ite (Notes.pure _) (notes_removeEach paths)

theorem notes_discardPending : Notes Workplace.machine [] p.discardPending := by
  refine Notes.ite (Notes.pure _) fun w => ?_
  rw [NotesAt, bind_of_ok (get_apply w)]
  exact notes_discardEach w.own w

def callOf (s : Stage) : Call := p.toolchain.call "run" s.name s.role s.arguments s.output

/-- The calls of a run that comes to its end. -/
def calls : List Call :=
  p.work.map p.callOf ++
    [p.toolchain.checksumCall p.plan.image, p.toolchain.checksumCall p.files.rebuilt]

theorem notes_perform {s : Stage} (hnotice : startsWith "Removing " s.notice = false) :
    Notes Workplace.machine [p.callOf s] (p.perform s) := by
  have hinfo : Notes id [] (info s.name s.notice) := Notes.log (by decide) hnotice
  have hrun := hinfo.bind fun _ => p.toolchain.notes_run s.name s.role s.arguments s.output
  have hproduced := Notes.modify_own fun pending : List Path => s.makes.foldl addPending pending
  exact hrun.onMachine.bind fun _ => hproduced.bind fun _ => p.notes_removeTemps s.uses

theorem notes_performAll {ss : List Stage}
    (hnotice : ∀ s ∈ ss, startsWith "Removing " s.notice = false) :
    Notes Workplace.machine (ss.map p.callOf) (p.performAll ss) := by
  induction ss with
  | nil => exact Notes.pure _
  | cons s rest ih =>
    rw [List.forall_mem_cons] at hnotice
    exact (p.notes_perform hnotice.1).bind fun _ => ih hnotice.2

theorem notes_compare :
    Notes id [p.toolchain.checksumCall p.plan.image, p.toolchain.checksumCall p.files.rebuilt]
      p.compare :=
  (p.toolchain.notes_checksum _).bind fun _ => (p.toolchain.notes_checksum _).bind fun _ =>
    (Notes.printLine p _).bind fun _ => (Notes.printLine p _).bind fun _ => Notes.pure _

theorem notes_judge (image rebuilt : Checksum) : Notes id [] (p.judge image rebuilt) := by
  have hkept : Notes id [] p.kept := by
    intro m
    rcases p.kept_cases m with ⟨here, h, -⟩ | ⟨s, h, -⟩
    · exact .of_eq_ok h (.refl m) .nil
    · exact .of_eq_error h (.refl m) .nil List.nil_prefix
  exact hkept.bind fun _ =>
    Notes.ite ((Notes.printLine p _).bind fun _ => Notes.pure _) (Notes.throw _)

theorem notes_verify : Notes Workplace.machine
      [p.toolchain.checksumCall p.plan.image, p.toolchain.checksumCall p.files.rebuilt] p.verify :=
  p.notes_compare.onMachine.bind fun c => (p.notes_removeTemps _).bind fun _ =>
    (p.notes_judge c.1 c.2).onMachine

theorem notes_stages : Notes Workplace.machine p.calls p.stages := by
  have hnotice : ∀ s ∈ p.work, startsWith "Removing " s.notice = false := by
    simp [work, disassembly, postprocessing, reassembly, conversion, startsWith, List.isPrefixOf]
  rw [stages_eq]
  exact (p.notes_performAll hnotice).bind fun _ => p.notes_verify

theorem notes_run : Notes Workplace.machine p.calls p.run := by
  intro w
  have h := p.notes_stages w
  cases hs : p.stages w with
  | ok v w' =>
    rw [NotesAt, p.run_of_ok hs, ← hs]
    exact h
  | error s w' =>
    by_cases ha : s.Aborts
    · exact NotesAt.rethrow h hs p.notes_discardPending (p.run_of_abort hs ha)
    · rw [NotesAt, p.run_of_error hs ha, ← hs]
      exact h

/-- Whatever becomes of a run, its log tells what it tried. There is one record of a tool for each
command that was tried, whether or not it started, in order: behind the stage it has a line whose
words, as a shell reads them, are those of the command, and behind the line the file that the output
goes to, if it goes to one. And there is one record of a removal for each removal that was tried, in
order and with its path. -/
theorem run_transcript (w : Workplace (List Path)) :
    ∃ events cs, (endState (p.run w)).machine.trace = w.machine.trace ++ events ∧
      cs <+: p.calls ∧ Transcript cs (acts events) ∧ attempts events = cs.map (·.command) ∧
      commandRecords events = cs.map (·.record) ∧
      (∀ c ∈ cs, c.record.level = Level.debug ∧ ∃ line target,
        c.record.message = "[" ++ c.stage ++ "] " ++ line ++ target ∧
        shellWords? line = some c.command ∧
        ((∃ path, c.output = .file path ∧ target = " > " ++ path.toString) ∨
          (∀ path, c.output ≠ .file path) ∧ target = "")) ∧
      List.Forall₂ Record.TellsRemoval (removalRecords events)
        ((removals events).map Prod.fst) := by
  obtain ⟨cs, es, ⟨events, htrace, rfl⟩, ht, hp, -⟩ := p.notes_run w
  have hattempts := ht.attempts_eq
  have hcommands := ht.commandRecords_eq
  have hremovals := ht.removalRecords_tell
  rw [attempts_acts] at hattempts
  rw [commandRecords_acts] at hcommands
  rw [removalRecords_acts, removals_acts] at hremovals
  exact ⟨events, cs, htrace, hp, ht, hattempts, hcommands, fun c _ => ⟨rfl, c.message_record⟩,
    hremovals⟩

end Pipeline

end FirmwareAudit
