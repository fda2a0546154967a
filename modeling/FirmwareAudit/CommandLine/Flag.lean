import FirmwareAudit.Setting
import FirmwareAudit.Text.Split

/-! # The flags of the command line

A switch stands alone; a knob takes a value. Most flags have a letter and a word for a name.
-/
namespace FirmwareAudit
open Text

inductive Switch
  | help
  | keepTemps
  | verbose
  | version
  deriving DecidableEq, Repr

inductive Knob
  | fileType
  | architecture
  | chip
  | dataRange
  | labelFile
  | commentFile
  | includeDir
  | logFile
  deriving DecidableEq, Repr

inductive Flag
  | switch (s : Switch)
  | knob (k : Knob)
  deriving DecidableEq, Repr

namespace Flag

/-- Every way to write a flag, in the order in which they are listed where several fit. -/
def spellings : List (String × Flag) :=
  [("-h", switch .help), ("--help", switch .help),
    ("-I", knob .fileType), ("--intype", knob .fileType),
    ("-m", knob .architecture), ("--machine", knob .architecture),
    ("-c", knob .chip), ("--chip", knob .chip),
    ("-d", knob .dataRange), ("--data-range", knob .dataRange),
    ("-L", knob .labelFile), ("--label", knob .labelFile),
    ("-C", knob .commentFile), ("--comment", knob .commentFile),
    ("-t", switch .keepTemps), ("--save-temps", switch .keepTemps),
    ("-i", knob .includeDir), ("--incdir", knob .includeDir),
    ("-v", switch .verbose), ("--verbose", switch .verbose),
    ("--log-file", knob .logFile),
    ("--version", switch .version)]

def ofSpelling? (s : String) : Option Flag := spellings.lookup s

def ofLetter? (c : Char) : Option Flag := ofSpelling? (.ofList ['-', c])

/-- All names of a flag, as messages give them. -/
def label (f : Flag) : String :=
  joinWith "/" ((spellings.filter (·.2 = f)).map (·.1))

end Flag

/-- A spelling is short if it has one dash. -/
def isShort : List Char → Bool
  | _ :: '-' :: _ => false
  | _ => true

end FirmwareAudit
