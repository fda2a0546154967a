import FirmwareAudit.Machine.SystemCall

/-! # External programs

A program is whatever it does to the files and writes to its two output streams, given how often it
has been found before, how it was called and the files it finds. What it writes is text. There may
be no process for it to run in.
-/
namespace FirmwareAudit
open Text

/-- How a program is called: `program` as the caller wrote it. -/
structure Invocation where
  cwd : String
  program : String
  arguments : List String

/-- How a run of a program ends. The status of a run that a signal ended is negative. -/
inductive Ending
  | exited (status : Int)
  | interrupted
  /-- The run broke off at a path with a NUL byte, as that of a scripted program can. -/
  | nulByte
  deriving DecidableEq

/-- What comes of an attempt to start a program from a file that can be executed. -/
inductive Start
  /-- No process is made for it. -/
  | refused (e : Errno)
  /-- It ran, left these files, and wrote these texts to its two streams. -/
  | ran (tree : FileTree) (out err : String) (ending : Ending)

abbrev Program := (turn : Nat) → Invocation → FileTree → Start

/-- The part of a program's name behind its last slash. -/
def baseName (program : String) : String :=
  ((splitAt '/' program).getLast?).getD ""

end FirmwareAudit
