import FirmwareAudit.CommandLine.Help
import FirmwareAudit.Pipeline.Stages
import FirmwareAudit.Validation

/-! # The program

One call of the program looks for its tools, reads its command line, sets its log up, checks the
paths and runs the pipeline. Whatever stops it becomes a line on the error stream and an exit
status; a command line that was answered has its status already.
-/
namespace FirmwareAudit.CommandLine

namespace Status

def success : Nat := 0
def failure : Nat := 1
def interrupted : Nat := 130

end Status

/-- Sets the program's log up; the console is ready before the log file is looked at. -/
def setUpLog (o : Options) : MachineM Unit := do
  let console := Level.ofVerbosity o.verbosity
  match o.logFile with
  | some .cleared => do
    setUpLogging console none mainLogger
    throw .notText
  | some (.text s) => setUpLogging console (some (.ofString s)) mainLogger
  | none => setUpLogging console none mainLogger

/-- What the program does with its arguments once they are read. -/
def follow (tc : Toolchain) (a : Arguments) : MachineM Unit := do
  setUpLog a.options
  log mainLogger "main" Level.info versionLine
  let plan ← a.plan
  plan.validate
  log mainLogger "main" Level.debug ("Config: " ++ plan.described)
  let _ ← (⟨plan, tc, false⟩ : Pipeline).runFresh

/-- The line and the status that a stop becomes. An unexpected one is shown with its traceback if
the command line asked for much detail. -/
def conclude (verbosity : Nat) : Stop → MachineM Nat
  | .exit code => throw (.exit code)
  | .fault f => do
    printLine .errors ("Error: " ++ f.message)
    return Status.failure
  | .interrupted => do
    printLine .errors "Interrupted"
    return Status.interrupted
  | other => do
    printLine .errors ("Internal error: " ++ other.message)
    if 1 < verbosity then emit (.traceback other)
    return Status.failure

/-- Runs `act` to a status. -/
def concluding (verbosity : Nat) (act : MachineM Unit) : MachineM Nat :=
  tryCatch
    (do
      act
      return Status.success)
    (conclude verbosity)

/-- The tools are found, the arguments read and followed. -/
def perform (argv : List String) : ToolchainM Nat := do
  let _ ← Toolchain.preflight
  let w ← get
  onMachine do
    let a ← readArguments argv
    concluding a.options.verbosity (follow w.own a)

/-- One call of the program. -/
def run (argv : List String) : MachineM Nat := do
  let _ ← preferCwd
  tryCatch (startWith .standard (perform argv)) (conclude 0)

/-- One call of the program as a process: the status it ends with. -/
def exitStatus (argv : List String) : MachineM Nat :=
  tryCatch (run argv) fun s =>
    match s with
    | .exit code => return code
    | other => throw other

end FirmwareAudit.CommandLine
