import FirmwareAudit.Machine.Files

/-! # Logging on the machine

A record goes to every handler that its logger comes to and whose threshold it reaches. Where there
is no handler at all, a warning or worse is shown as a plain line on the error stream. What a logger
once answered about a level, it keeps to until a logger is set up.
-/
namespace FirmwareAudit

def registerLogger (name : String) : MachineM Unit :=
  modify fun m => { m with journal := m.journal.register name }

def handle (r : Record) (h : Handler) : MachineM Unit :=
  if r.level < h.threshold then return
  else
    match h.sink with
    | .console owner => emit (.shown owner r)
    | .file file => appendText file r.line

def handleAll (r : Record) : List Handler → MachineM Unit
  | [] => return
  | h :: rest => do
    handle r h
    handleAll r rest

/-- Asks a logger whether it lets a level through. -/
def letsThrough (logger : String) (level : Int) : MachineM Bool := do
  let m ← get
  set { m with journal := m.journal.remember logger level }
  return m.journal.isEnabled logger level

/-- A message logged by an operation on a logger. -/
def log (logger operation : String) (level : Int) (message : String) : MachineM Unit := do
  registerLogger logger
  let r : Record := ⟨Journal.properName logger, operation, level, message⟩
  emit (.logged r)
  if ← letsThrough logger level then
    let m ← get
    match m.journal.handlersOf logger with
    | [] => if Level.warning ≤ level then printLine .errors message
    | handlers => handleAll r handlers

/-- The program's own logger, which the others lie under. -/
def mainLogger : String := "avr_roundtrip"
def toolLogger : String := "avr_roundtrip.toolchain"
def pipelineLogger : String := "avr_roundtrip.pipeline"

def addHandler (logger : String) (h : Handler) : MachineM Unit :=
  modify fun m =>
    { m with journal := m.journal.update logger fun l => { l with handlers := l.handlers ++ [h] } }

/-- Sets a logger up: it lets everything from the debug level through, passes nothing on, and has a
console handler with the given threshold and, if a file is named, one that writes to the end of
that file. Handlers from before are gone, and so is what loggers answered. -/
def setUpLogging (console : Int) (file : Option Path) (name : String) : MachineM Unit := do
  registerLogger name
  modify fun m =>
    { m with journal := (m.journal.update name fun _ => ⟨Level.debug, false, []⟩).forget }
  addHandler name ⟨.console (Journal.properName name), console⟩
  match file with
  | none => return
  | some path =>
    path.parent.makeAll
    let m ← get
    let h ← openForWriting (path.absolute m.cwd).toString .append
    addHandler name ⟨.file h, Level.debug⟩
    log name "setup_logging" Level.debug ("Log file: " ++ path.toString)

end FirmwareAudit
