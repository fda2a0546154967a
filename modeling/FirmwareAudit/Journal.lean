import FirmwareAudit.Machine.SystemCall

/-! # Log records and the loggers they pass

Loggers have dotted names, and a logger's parent is the nearest one on its dotted ancestry that is
known, the root above all. A record is seen by the handlers of its logger and of those above it, up
to the first logger that passes nothing on.
-/
namespace FirmwareAudit
open Text

structure Record where
  logger : String
  /-- The operation that the record comes from. -/
  operation : String
  level : Int
  message : String
  deriving DecidableEq

namespace Level

def debug : Int := 10
def info : Int := 20
def warning : Int := 30

def name (level : Int) : String :=
  if level = 10 then "DEBUG"
  else if level = 20 then "INFO"
  else if level = 30 then "WARNING"
  else if level = 40 then "ERROR"
  else if level = 50 then "CRITICAL"
  else "Level " ++ toString level

/-- The lowest level shown on the console for a number of requests for more. -/
def ofVerbosity (count : Int) : Int :=
  if count ≤ 0 then warning else if count = 1 then info else debug

end Level

namespace Record

/-- The width that level names are filled up to in a log file. -/
def levelWidth : Nat := 7

/-- The line a log file gets for a record. -/
def line (r : Record) : String :=
  let level := Level.name r.level
  let padding := String.ofList (List.replicate (levelWidth - level.length) ' ')
  level ++ padding ++ " | " ++ r.logger ++ " | " ++ r.operation ++ " | " ++ r.message ++ "\n"

end Record

inductive Sink
  /-- The console that a logger was set up with. -/
  | console (owner : String)
  | file (h : Handle)
  deriving DecidableEq

structure Handler where
  sink : Sink
  threshold : Int
  deriving DecidableEq

structure Logger where
  /-- The lowest level the logger lets through; 0 leaves that to the loggers above. -/
  level : Int
  /-- Whether records go on to the parent. -/
  passesOn : Bool
  handlers : List Handler
  deriving DecidableEq

namespace Logger

def fresh : Logger := ⟨0, true, []⟩

end Logger

structure Journal where
  root : Logger
  /-- Every logger that was ever asked for, in the order of the first requests. -/
  named : List (String × Logger)
  /-- Whether a logger let a level through when it was asked about it, the latest answer first. -/
  answers : List ((String × Int) × Bool)

namespace Journal

def rootName : String := "root"

/-- No handlers anywhere; the root lets warnings through. -/
def silent (names : List String) : Journal where
  root := { Logger.fresh with level := Level.warning }
  named := names.map fun name => (name, .fresh)
  answers := []

def isRoot (name : String) : Bool := name = "" || name = rootName

/-- The name a logger answers to. -/
def properName (name : String) : String := if isRoot name then rootName else name

/-- The names that a dotted name lies under, the nearest first, from the name read backwards. The
character before a cut is not cut at again. -/
def outerNames : List Char → List (List Char)
  | [] => []
  | '.' :: c :: above => (c :: above).reverse :: outerNames above
  | _ :: rest => outerNames rest

def position (j : Journal) (name : String) : Nat := j.named.findIdx (·.1 == name)

/-- Whether `outer`, a name on the ancestry of `name`, is known as a logger above it. One whose name
starts the root's name is not found by the loggers that were there before it. -/
def adopts (j : Journal) (name outer : String) : Bool :=
  (j.named.lookup outer).isSome &&
    !(startsWith outer rootName && decide (j.position name < j.position outer))

def parentName? (j : Journal) (name : String) : Option String :=
  ((outerNames name.toList.reverse).map String.ofList).find? (j.adopts name)

def register (j : Journal) (name : String) : Journal :=
  if isRoot name || (j.named.lookup name).isSome then j
  else { j with named := j.named ++ [(name, .fresh)] }

def logger (j : Journal) (name : String) : Logger :=
  if isRoot name then j.root else (j.named.lookup name).getD .fresh

def update (j : Journal) (name : String) (f : Logger → Logger) : Journal :=
  if isRoot name then { j with root := f j.root }
  else { j with named := j.named.map fun e => if e.1 = name then (e.1, f e.2) else e }

/-- The named loggers from `name` up, for at most `fuel` steps, and the root behind them. -/
def lineageWithin (j : Journal) : (fuel : Nat) → String → List Logger
  | 0, _ => [j.root]
  | fuel + 1, name =>
    if isRoot name then [j.root]
    else
      j.logger name ::
        match j.parentName? name with
        | some outer => lineageWithin j fuel outer
        | none => [j.root]

/-- The loggers from `name` up to the root. Each step goes to another named logger, so that there
are no more steps than those. -/
def lineage (j : Journal) (name : String) : List Logger :=
  j.lineageWithin j.named.length name

/-- The lowest level that a logger lets through: its own, or that of the first one above it that has
one. -/
def threshold (j : Journal) (name : String) : Int :=
  (((j.lineage name).map (·.level)).find? (· ≠ 0)).getD 0

/-- Whether a logger lets a level through, going by the loggers as they are. -/
def passes (j : Journal) (name : String) (level : Int) : Bool :=
  decide (0 < level) && decide (j.threshold name ≤ level)

/-- Whether a logger lets a level through. It goes by its last answer, if it has given one. -/
def isEnabled (j : Journal) (name : String) (level : Int) : Bool :=
  (j.answers.lookup (properName name, level)).getD (j.passes name level)

/-- A logger remembers whether it lets a level through. -/
def remember (j : Journal) (name : String) (level : Int) : Journal :=
  { j with answers := ((properName name, level), j.isEnabled name level) :: j.answers }

/-- No logger remembers an answer. -/
def forget (j : Journal) : Journal := { j with answers := [] }

/-- The journal once a logger was asked for, and about a level. -/
def asked (j : Journal) (name : String) (level : Int) : Journal :=
  (j.register name).remember name level

/-- The handlers of loggers up to the first that passes nothing on. -/
def handlersAlong : List Logger → List Handler
  | [] => []
  | l :: above => l.handlers ++ if l.passesOn then handlersAlong above else []

/-- The handlers that a record of a logger comes to. -/
def handlersOf (j : Journal) (name : String) : List Handler :=
  handlersAlong (j.lineage name)

end Journal

end FirmwareAudit
