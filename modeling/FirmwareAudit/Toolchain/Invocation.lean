import FirmwareAudit.Machine.Execution
import FirmwareAudit.Text.ShellWord
import FirmwareAudit.Toolchain.Basic
import FirmwareAudit.Toolchain.Digest

/-! # Running the tools

A tool that does not start or does not end with status 0 stops the stage it runs for. The checksum
tool has to answer with a digest as well.
-/
namespace FirmwareAudit
open Text

/-- Where a stage sends the standard output of its tool. -/
inductive Output
  | shared
  | discarded
  | file (path : Path)
  deriving DecidableEq

namespace Output

/-- How the output shows on a command line. -/
def redirection : Output → String
  | file path => " > " ++ path.toString
  | _ => ""

/-- Makes the output ready for a run; a file is emptied. -/
def prepare : Output → MachineM Destination
  | shared => return .shared
  | discarded => return .nowhere
  | file path => do return .file (← openForWriting path.toString .truncate)

end Output

/-- Runs `act` and turns a system error in it into a fault. -/
def wrapSystemError (toFault : SystemError → Fault) (act : MachineM α) : MachineM α :=
  tryCatch act fun s =>
    match s with
    | .system e => throw (.fault (toFault e))
    | other => throw other

namespace Toolchain

/-- Runs the tool with a role for a stage. -/
def run (tc : Toolchain) (stage role : String) (arguments : List String) (output : Output) :
    MachineM Unit := do
  let tool ← tc.tool role
  let command := tool.program :: arguments
  log toolLogger "run" Level.debug
    ("[" ++ stage ++ "] " ++ shellLine command ++ output.redirection)
  let status ← wrapSystemError (fun e => .stage (.notStarted stage tool.program command e)) do
    let destination ← tryCatch output.prepare (failToStart command)
    execute tool.program arguments destination
  if status ≠ 0 then
    throw (.fault (.stage (.failed stage tool.program command status)))

/-- The checksum of a file. -/
def checksum (tc : Toolchain) (path : Path) : MachineM Checksum := do
  let tool ← tc.tool Tool.checksum.role
  let arguments := [path.toString]
  log toolLogger "sha1" Level.debug ("[verify] " ++ shellLine (tool.program :: arguments))
  let answer ← wrapSystemError (fun e => .checksum path (.notStarted e)) do
    capture tool.program arguments
  if answer.status ≠ 0 then
    throw (.fault (.checksum path (.failed (trimmed answer.err))))
  match Digest.ofAnswer? answer.out with
  | some digest => return ⟨path, digest⟩
  | none => throw (.fault (.checksum path (.unreadable tool.program (trimmed answer.out))))

end Toolchain

end FirmwareAudit
