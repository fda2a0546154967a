import FirmwareAudit.Fault
import FirmwareAudit.Journal
import FirmwareAudit.Machine.Program

/-! # The machine an audit runs on

A machine is what an audit can see and change: the working directory, the search path, the files,
the programs, the journal. It keeps a trace of everything that was shown, logged, started, opened
and removed. An operation that stops early leaves the machine as it was at that moment.
-/
namespace FirmwareAudit

/-- Where the audit's own lines go. -/
inductive Stream
  | output
  | errors
  /-- A stream that the caller set up for the report. -/
  | report
  deriving DecidableEq

/-- One run of a program: the file it was started from, the command, what it wrote, its end. All
that programs write can be read as text. -/
structure Run where
  file : String
  command : List String
  out : String
  err : String
  ending : Ending
  deriving DecidableEq

inductive Event
  | printed (stream : Stream) (text : String)
  /-- What a tool wrote to a stream that it shares with the audit. -/
  | toolOutput (text : String)
  | toolErrors (text : String)
  | ran (run : Run)
  | notStarted (command : List String) (reason : Stop)
  /-- A file opened for writing. -/
  | opened (path : String)
  /-- An attempt to remove a file, with the reason if it failed. -/
  | unlinked (path : String) (failure : Option Stop)
  | logged (r : Record)
  /-- A record that the console of a logger took. -/
  | shown (owner : String) (r : Record)
  /-- The report on an unexpected stop. -/
  | traceback (reason : Stop)
  deriving DecidableEq

structure Machine where
  /-- The path of the working directory. There always is one, and it can be told. -/
  cwd : String
  /-- The search path if one is set. That of a process has no NUL byte; results that rest on this
  assume it. -/
  searchPath : Option String
  tree : FileTree
  /-- The program that each base name starts. -/
  programs : String → Program
  /-- How often each base name was found so far. -/
  turns : String → Nat
  journal : Journal
  trace : List Event

abbrev MachineM := EStateM Stop Machine

namespace Machine

def record (m : Machine) (e : Event) : Machine := { m with trace := m.trace ++ [e] }

end Machine

def emit (e : Event) : MachineM Unit := modify (·.record e)

def printText (stream : Stream) (text : String) : MachineM Unit := emit (.printed stream text)

def printLine (stream : Stream) (text : String) : MachineM Unit := printText stream (text ++ "\n")

/-- The stop that a failed call on a path makes. -/
def Stop.ofCall (path : String) : CallFault → Stop
  | .nulByte => .nulByte
  | .errno e => .system ⟨e, some path⟩

/-- The outcome of a call on a path. -/
def ofCall (path : String) : Except CallFault α → MachineM α
  | .ok a => pure a
  | .error fault => throw (.ofCall path fault)

end FirmwareAudit
