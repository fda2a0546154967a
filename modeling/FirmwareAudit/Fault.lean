import FirmwareAudit.Checksum
import FirmwareAudit.Machine.Errno
import FirmwareAudit.Text.Quoted

/-! # Why an audit stops

A fault is a failure the audit expects and words itself: a missing program, an unusable path, a
tool that fails, a file that stays, a checksum that cannot be had or differs. A stop is anything
that ends an operation early.
-/
namespace FirmwareAudit
open Text

/-- A failed system call, with the path it was given if it was given one. -/
structure SystemError where
  errno : Errno
  path : Option String
  deriving DecidableEq

namespace SystemError

def message (e : SystemError) : String :=
  let text := "[Errno " ++ toString e.errno.number ++ "] " ++ e.errno.description
  match e.path with
  | some path => text ++ ": " ++ quoted path
  | none => text

end SystemError

/-- A stage whose tool could not be started or ended with a status other than 0; without a status
it did not run to an end. -/
structure StageFault where
  stage : String
  message : String
  command : List String
  status : Option Int
  deriving DecidableEq

namespace StageFault

def notStarted (stage program : String) (command : List String) (cause : SystemError) :
    StageFault where
  stage
  message := stage ++ ": could not run " ++ program ++ ": " ++ cause.message
  command
  status := none

def failed (stage program : String) (command : List String) (status : Int) : StageFault where
  stage
  message := stage ++ " failed: " ++ program ++ " exited with status " ++ toString status
  command
  status := some status

end StageFault

/-- Why there is no checksum of a file. -/
inductive ChecksumFault
  | notStarted (cause : SystemError)
  /-- The program ended with a status other than 0 and this on its error stream. -/
  | failed (detail : String)
  /-- The program's answer holds no digest. -/
  | unreadable (program answer : String)
  deriving DecidableEq

namespace ChecksumFault

def message (path : Path) : ChecksumFault → String
  | notStarted cause => "Failed to compute checksum of '" ++ path.toString ++ "': " ++ cause.message
  | failed detail =>
    "Failed to compute checksum of '" ++ path.toString ++ "'" ++
      (if detail = "" then "" else ": " ++ detail)
  | unreadable program answer =>
    "Unexpected " ++ program ++ " output for '" ++ path.toString ++ "': " ++ quoted answer

end ChecksumFault

inductive Fault
  | toolNotFound (program hint : String)
  | unreadableImage (path : Path)
  | missingIncludeDir (path : Path)
  | stage (s : StageFault)
  | cleanup (path : Path) (cause : SystemError)
  | checksum (path : Path) (cause : ChecksumFault)
  | mismatch (image rebuilt : Checksum)
  deriving DecidableEq

namespace Fault

def message : Fault → String
  | toolNotFound program hint =>
    "Required program '" ++ program ++ "' not found in PATH" ++
      (if hint = "" then "" else ". Please install " ++ hint ++ ".")
  | unreadableImage path => "could not read input file '" ++ path.toString ++ "'"
  | missingIncludeDir path => "include directory '" ++ path.toString ++ "' does not exist"
  | stage s => s.message
  | cleanup path cause =>
    "Failed to remove temporary file '" ++ path.toString ++ "': " ++ cause.message
  | checksum path cause => cause.message path
  | mismatch image rebuilt =>
    "Checksum mismatch: " ++ image.path.toString ++ " (" ++ image.digest ++ ") != " ++
      rebuilt.path.toString ++ " (" ++ rebuilt.digest ++ ")"

end Fault

inductive Stop
  | fault (f : Fault)
  | interrupted
  /-- A text with a NUL byte where the system takes none. -/
  | nulByte
  | unknownRole (role : String)
  | system (e : SystemError)
  /-- A setting without text where a path is needed. -/
  | notText
  /-- The command line asked for an end with this status. -/
  | exit (code : Nat)
  deriving DecidableEq

namespace Stop

def message : Stop → String
  | fault f => f.message
  | interrupted => ""
  | nulByte => "embedded null byte"
  | unknownRole role => quoted role
  | system e => e.message
  | notText => "expected str, bytes or os.PathLike object, not list"
  | exit code => toString code

end Stop

end FirmwareAudit
