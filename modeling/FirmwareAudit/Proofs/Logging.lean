import FirmwareAudit.Machine.Logging
import FirmwareAudit.Proofs.Effect
import FirmwareAudit.Proofs.Trace

/-! # What a log record does

Logging a record never stops. It leaves the record in the trace, echoes behind it, the record's line
at the end of the log files that take it, and in the journal what the logger answered about the
level; all else stays.
-/
namespace FirmwareAudit

namespace Handler

/-- The consoles that a handler shows a record on. -/
def echoes (r : Record) (h : Handler) : List Event :=
  if r.level < h.threshold then []
  else
    match h.sink with
    | .console owner => [.shown owner r]
    | .file _ => []

/-- The files that a handler writes a record to. -/
def files (r : Record) (h : Handler) : List Handle :=
  if r.level < h.threshold then []
  else
    match h.sink with
    | .console _ => []
    | .file f => [f]

theorem eq_shown_of_mem_echoes {r : Record} {h : Handler} {e : Event} (he : e ∈ h.echoes r) :
    ∃ owner, e = .shown owner r := by
  unfold echoes at he
  split at he
  · cases he
  · split at he
    · exact ⟨_, List.mem_singleton.1 he⟩
    · cases he

theorem sink_of_mem_files {r : Record} {h : Handler} {f : Handle} (hf : f ∈ h.files r) :
    h.sink = .file f := by
  unfold files at hf
  split at hf
  · cases hf
  · split at hf
    · cases hf
    · next hs => rw [hs, List.mem_singleton.1 hf]

end Handler

namespace FileTree

/-- One line at the end of each of the given files. -/
def appendEach (t : FileTree) (line : String) (files : List Handle) : FileTree :=
  files.foldl (fun t h => t.append h line) t

end FileTree

namespace Journal

/-! ## Answers -/

theorem lineageWithin_remember (j : Journal) (name : String) (level : Int) (fuel : Nat)
    (other : String) :
    (j.remember name level).lineageWithin fuel other = j.lineageWithin fuel other := by
  induction fuel generalizing other with
  | zero => rfl
  | succ fuel ih =>
    have hparent : (j.remember name level).parentName? other = j.parentName? other := rfl
    have hlogger : (j.remember name level).logger other = j.logger other := rfl
    unfold lineageWithin
    simp only [hparent, hlogger, ih]
    rfl

theorem handlersOf_remember (j : Journal) (name : String) (level : Int) (other : String) :
    (j.remember name level).handlersOf other = j.handlersOf other :=
  congrArg handlersAlong (j.lineageWithin_remember name level _ other)

theorem handlersOf_asked (j : Journal) (name : String) (level : Int) (other : String) :
    (j.asked name level).handlersOf other = (j.register name).handlersOf other :=
  handlersOf_remember ..

/-- What a logger answered is what it answers when asked again. -/
theorem isEnabled_remember (j : Journal) (name : String) (level : Int) :
    (j.remember name level).isEnabled name level = j.isEnabled name level := by
  simp [isEnabled, remember]

theorem isEnabled_asked (j : Journal) (name : String) (level : Int) :
    (j.asked name level).isEnabled name level = (j.register name).isEnabled name level :=
  isEnabled_remember ..

/-! ## Echoes and takers -/

def loggers (j : Journal) : List Logger := j.root :: j.named.map Prod.snd

/-- The log files that are open. -/
def openFiles (j : Journal) : List Handle :=
  j.loggers.flatMap fun l => l.handlers.filterMap fun h =>
    match h.sink with
    | .console _ => none
    | .file f => some f

/-- The echoes of a record. -/
def echoes (j : Journal) (logger : String) (r : Record) : List Event :=
  if j.isEnabled logger r.level then
    match j.handlersOf logger with
    | [] => if Level.warning ≤ r.level then [.printed .errors (r.message ++ "\n")] else []
    | handlers => handlers.flatMap (Handler.echoes r)
  else []

/-- The log files that take a record. -/
def takers (j : Journal) (logger : String) (r : Record) : List Handle :=
  if j.isEnabled logger r.level then (j.handlersOf logger).flatMap (Handler.files r) else []

/-- An echo is shown on a console, or printed as a plain line. -/
theorem mem_echoes {j : Journal} {logger : String} {r : Record} {e : Event}
    (he : e ∈ j.echoes logger r) :
    (∃ owner, e = .shown owner r) ∨ ∃ text, e = .printed .errors text := by
  unfold echoes at he
  split at he
  · split at he
    · split at he
      · exact Or.inr ⟨_, List.mem_singleton.1 he⟩
      · cases he
    · obtain ⟨h, -, he⟩ := List.mem_flatMap.1 he
      exact Or.inl (Handler.eq_shown_of_mem_echoes he)
  · cases he

theorem not_isAct_of_mem_echoes {j : Journal} {logger : String} {r : Record} {e : Event}
    (he : e ∈ j.echoes logger r) : e.isAct = false := by
  rcases mem_echoes he with ⟨owner, rfl⟩ | ⟨text, rfl⟩ <;> rfl

theorem logger_mem (j : Journal) (name : String) :
    j.logger name ∈ j.loggers ∨ j.logger name = .fresh := by
  unfold logger
  split
  · exact Or.inl List.mem_cons_self
  · cases h : j.named.lookup name with
    | none => exact Or.inr rfl
    | some l =>
      obtain ⟨pre, post, hn, -⟩ := List.lookup_eq_some_iff.1 h
      exact Or.inl (List.mem_cons_of_mem _ (List.mem_map.2 ⟨(name, l), by simp [hn], rfl⟩))

theorem mem_lineageWithin {j : Journal} {fuel : Nat} {name : String} {l : Logger}
    (h : l ∈ j.lineageWithin fuel name) : l ∈ j.loggers ∨ l = .fresh := by
  induction fuel generalizing name with
  | zero =>
    rw [lineageWithin, List.mem_singleton] at h
    exact Or.inl (h ▸ List.mem_cons_self)
  | succ fuel ih =>
    unfold lineageWithin at h
    split at h
    · rw [List.mem_singleton] at h
      exact Or.inl (h ▸ List.mem_cons_self)
    · rcases List.mem_cons.1 h with rfl | h
      · exact j.logger_mem name
      · split at h
        · exact ih h
        · rw [List.mem_singleton] at h
          exact Or.inl (h ▸ List.mem_cons_self)

theorem mem_handlersAlong {loggers : List Logger} {h : Handler}
    (hh : h ∈ handlersAlong loggers) : ∃ l ∈ loggers, h ∈ l.handlers := by
  induction loggers with
  | nil => cases hh
  | cons l above ih =>
    rcases List.mem_append.1 hh with hh | hh
    · exact ⟨l, List.mem_cons_self, hh⟩
    · split at hh
      · obtain ⟨k, hk, hm⟩ := ih hh
        exact ⟨k, List.mem_cons_of_mem _ hk, hm⟩
      · cases hh

theorem mem_openFiles {j : Journal} {f : Handle} :
    f ∈ j.openFiles ↔ ∃ l ∈ j.loggers, ∃ h ∈ l.handlers, h.sink = .file f := by
  simp only [openFiles, List.mem_flatMap, List.mem_filterMap]
  refine exists_congr fun l => and_congr_right fun _ => exists_congr fun h =>
    and_congr_right fun _ => ?_
  cases h.sink <;> simp

theorem mem_openFiles_of_mem_handlersOf {j : Journal} {logger : String} {h : Handler} {f : Handle}
    (hh : h ∈ j.handlersOf logger) (hs : h.sink = .file f) : f ∈ j.openFiles := by
  obtain ⟨l, hl, hm⟩ := mem_handlersAlong hh
  rcases mem_lineageWithin hl with hl | rfl
  · exact mem_openFiles.2 ⟨l, hl, h, hm, hs⟩
  · cases hm

theorem mem_openFiles_of_mem_takers {j : Journal} {logger : String} {r : Record} {f : Handle}
    (hf : f ∈ j.takers logger r) : f ∈ j.openFiles := by
  unfold takers at hf
  split at hf
  · obtain ⟨h, hh, hf⟩ := List.mem_flatMap.1 hf
    exact mem_openFiles_of_mem_handlersOf hh (Handler.sink_of_mem_files hf)
  · cases hf

theorem openFiles_register (j : Journal) (name : String) :
    (j.register name).openFiles = j.openFiles := by
  unfold register
  split
  · rfl
  · simp [openFiles, loggers, Logger.fresh]

theorem takers_asked (j : Journal) (name : String) (r : Record) :
    (j.asked name r.level).takers name r = (j.register name).takers name r := by
  unfold takers
  rw [isEnabled_asked, handlersOf_asked]

theorem openFiles_asked (j : Journal) (name : String) (level : Int) :
    (j.asked name level).openFiles = j.openFiles :=
  j.openFiles_register name

end Journal

theorem handleAll_eq (r : Record) (handlers : List Handler) (m : Machine) :
    handleAll r handlers m = .ok ()
      { m with
        trace := m.trace ++ handlers.flatMap (Handler.echoes r)
        tree := m.tree.appendEach r.line (handlers.flatMap (Handler.files r)) } := by
  induction handlers generalizing m with
  | nil => simp [handleAll, FileTree.appendEach]
  | cons h rest ih =>
    have hh : handle r h m = .ok ()
        { m with
          trace := m.trace ++ h.echoes r
          tree := m.tree.appendEach r.line (h.files r) } := by
      unfold handle Handler.echoes Handler.files
      split
      · simp [FileTree.appendEach]
      · cases h.sink <;> simp [emit, Machine.record, appendText, FileTree.appendEach]
    unfold handleAll
    rw [bind_of_ok hh, ih]
    simp [FileTree.appendEach]

namespace Machine

/-- The machine after a message was logged. -/
def afterLog (m : Machine) (logger operation : String) (level : Int) (message : String) : Machine :=
  let j := m.journal.asked logger level
  let r : Record := ⟨Journal.properName logger, operation, level, message⟩
  { m with
    journal := j
    trace := m.trace ++ .logged r :: j.echoes logger r
    tree := m.tree.appendEach r.line (j.takers logger r) }

theorem adds_afterLog (m : Machine) (logger operation : String) (level : Int) (message : String) :
    m.Adds [.logged ⟨Journal.properName logger, operation, level, message⟩]
      (m.afterLog logger operation level message) := by
  refine ⟨_, rfl, ?_⟩
  rw [acts, List.filter_cons_of_pos rfl, List.filter_eq_nil_iff.2]
  intro e he
  rw [Journal.not_isAct_of_mem_echoes he]
  decide

end Machine

theorem log_eq (logger operation : String) (level : Int) (message : String) (m : Machine) :
    log logger operation level message m = .ok () (m.afterLog logger operation level message) := by
  have hask : ∀ m : Machine, letsThrough logger level m =
      .ok (m.journal.isEnabled logger level)
        { m with journal := m.journal.remember logger level } := fun _ => rfl
  unfold log registerLogger emit
  simp only [bind_of_ok (modify_apply _ _), bind_of_ok (hask _), Machine.record]
  unfold Machine.afterLog Journal.echoes Journal.takers
  simp only [Journal.isEnabled_asked, Journal.handlersOf_asked]
  by_cases hen : (m.journal.register logger).isEnabled logger level = true
  · simp only [hen, if_true, bind_of_ok (get_apply _), Journal.handlersOf_remember]
    cases (m.journal.register logger).handlersOf logger with
    | nil =>
      by_cases hw : Level.warning ≤ level <;>
        simp [hw, printLine, printText, emit, Machine.record, FileTree.appendEach, Journal.asked]
    | cons h rest => simp [handleAll_eq, Journal.asked]
  · simp [hen, FileTree.appendEach, Journal.asked]

end FirmwareAudit
