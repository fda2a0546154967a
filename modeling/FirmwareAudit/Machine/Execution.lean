import FirmwareAudit.Machine.Files
import FirmwareAudit.Machine.Search

/-! # Running programs

A program is searched for, started and waited for. What it wrote is delivered after it has ended;
a run that is interrupted or breaks off delivers nothing, though the files it changed stay changed.
-/
namespace FirmwareAudit
open Text

/-- What a finished run left for its caller. -/
structure Completed where
  status : Int
  out : String
  err : String
  deriving DecidableEq

/-- The file that a command starts, if none of its words has a NUL byte. -/
def locateCommand (m : Machine) (program : String) (arguments : List String) :
    Except Stop String :=
  if (program :: arguments).any (has '\x00') then .error .nulByte
  else (resolveProgram m.tree m.cwd m.searchPath program).mapError (.ofCall program)

/-- The machine after a program of this name was found once more. -/
def Machine.countTurn (m : Machine) (program : String) : Machine :=
  let name := baseName program
  { m with turns := fun n => if n = name then m.turns n + 1 else m.turns n }

def failToStart (command : List String) (reason : Stop) : MachineM α := do
  emit (.notStarted command reason)
  throw reason

def runProgram (program : String) (arguments : List String) : MachineM Completed := do
  let m ← get
  let command := program :: arguments
  match locateCommand m program arguments with
  | .error reason => failToStart command reason
  | .ok file =>
    let name := baseName program
    set (m.countTurn program)
    match m.programs name (m.turns name) ⟨m.cwd, program, arguments⟩ m.tree with
    | .refused e => failToStart command (.system ⟨e, none⟩)
    | .ran tree out err ending =>
      modify fun m => { m with tree }
      emit (.ran ⟨file, command, out, err, ending⟩)
      match ending with
      | .interrupted => throw .interrupted
      | .nulByte => throw .nulByte
      | .exited status => return ⟨status, out, err⟩

/-- What is done with a program's standard output. -/
inductive Destination
  | file (h : Handle)
  | nowhere
  /-- The stream that the audit writes to itself. -/
  | shared

def deliver (text : String) : Destination → MachineM Unit
  | .file h => appendText h text
  | .nowhere => return
  | .shared => emit (.toolOutput text)

/-- Runs a program, delivers what it wrote, and gives its status. -/
def execute (program : String) (arguments : List String) (destination : Destination) : MachineM Int := do
  let run ← runProgram program arguments
  deliver run.out destination
  emit (.toolErrors run.err)
  return run.status

/-- A text with every carriage return, and every one with a line feed behind it, made a line
feed. -/
def unifyLines : List Char → List Char
  | '\r' :: '\n' :: rest => '\n' :: unifyLines rest
  | '\r' :: rest => '\n' :: unifyLines rest
  | c :: rest => c :: unifyLines rest
  | [] => []

/-- Runs a program and gives what it wrote, line ends unified. -/
def capture (program : String) (arguments : List String) : MachineM Completed := do
  let run ← runProgram program arguments
  let unify := fun s : String => String.ofList (unifyLines s.toList)
  return ⟨run.status, unify run.out, unify run.err⟩

end FirmwareAudit
