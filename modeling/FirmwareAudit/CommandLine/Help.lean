import FirmwareAudit.CommandLine.Arguments
import FirmwareAudit.Machine.Basic
import FirmwareAudit.Plan

/-! # What the command line answers

Help and version go to the output stream and end with status 0. A command line that cannot be
followed is answered on the error stream, with the usage and one line that says why, and ends with
status 1.
-/
namespace FirmwareAudit
open Text

def programName : String := "avrroundtrip"

def versionLine : String := programName ++ " 1.0.0"

def usageLines : List String :=
  ["usage: avrroundtrip [-h] [-I TYPE] [-m MACHINE] [-c CHIP] [-d RANGE] [-L FILE]",
    "                    [-C FILE] [-t] [-i DIR] [-v] [--log-file FILE] [--version]",
    "                    [INFILE ...]"]

def helpLines : List String :=
  ["Disassemble an AVR firmware image, postprocess and reassemble it, and check that the result is byte-identical to the original.",
    "",
    "positional arguments:",
    "  INFILE                Firmware image to analyze (exactly one)",
    "",
    "options:",
    "  -h, --help            show this help message and exit",
    "  -I TYPE, --intype TYPE",
    "                        Input/output file type for objcopy (default: binary)",
    "  -m MACHINE, --machine MACHINE",
    "                        Disassembler machine type (default: avr4)",
    "  -c CHIP, --chip CHIP  Chip type, selects INCDIR/CHIPdef.inc (default: m88)",
    "  -d RANGE, --data-range RANGE",
    "                        Data range START-END passed to the postprocessor",
    "                        (repeatable)",
    "  -L FILE, --label FILE",
    "                        Label file passed to the postprocessor (repeatable)",
    "  -C FILE, --comment FILE",
    "                        Comment file passed to the postprocessor (repeatable)",
    "  -t, --save-temps      Keep intermediate files",
    "  -i DIR, --incdir DIR  Include directory with the *def.inc files (default:",
    "                        /usr/share/avra)",
    "  -v, --verbose         Increase verbosity (-v stages, -vv commands)",
    "  --log-file FILE       Write a DEBUG log to FILE",
    "  --version             show program's version number and exit",
    "",
    "example:",
    "  avrroundtrip -c m88 -m avr4 firmware.bin"]

/-- Every line with its line feed. -/
def textOf (lines : List String) : String := String.join (lines.map (· ++ "\n"))

def usage : String := textOf usageLines

def helpText : String := textOf (usageLines ++ [""] ++ helpLines)

namespace Misuse

/-- The line that says why a command line is not followed. -/
def line (m : Misuse) : String := programName ++ ": error: " ++ m.message ++ "\n"

end Misuse

namespace Options

def standard : Options where
  fileType := .text Plan.defaultFileType
  architecture := .text Plan.defaultArchitecture
  chip := .text Plan.defaultChip
  includeDir := .text Plan.defaultIncludeDir
  dataRanges := []
  labelFiles := []
  commentFiles := []
  keepTemps := false
  verbosity := 0
  logFile := none

end Options

def answerHalt : Halt → MachineM α
  | .help => do
    printText .output helpText
    throw (.exit 0)
  | .version => do
    printLine .output versionLine
    throw (.exit 0)
  | .misuse m => do
    printText .errors (usage ++ m.line)
    throw (.exit 1)

/-- The arguments of a command line; one that is not followed to its end is answered. -/
def readArguments (argv : List String) : MachineM Arguments :=
  match Arguments.read .standard argv with
  | .ok a => return a
  | .error halt => answerHalt halt

namespace Setting

/-- The path that a setting names. -/
def path : Setting → MachineM Path
  | text s => return .ofString s
  | cleared => throw .notText

end Setting

namespace Arguments

/-- The plan that the arguments lay out. -/
def plan (a : Arguments) : MachineM Plan := do
  let includeDir ← a.options.includeDir.path
  return {
    image := .ofString a.image
    fileType := a.options.fileType
    architecture := a.options.architecture
    chip := a.options.chip
    includeDir
    dataRanges := a.options.dataRanges
    labelFiles := a.options.labelFiles
    commentFiles := a.options.commentFiles
    keepTemps := a.options.keepTemps }

end Arguments

end FirmwareAudit
