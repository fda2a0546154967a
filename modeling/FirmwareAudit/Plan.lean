import FirmwareAudit.Path
import FirmwareAudit.Setting

/-! # Audit plans

A plan holds everything that one audit needs to know: the image, what it is, and what the
postprocessor is told about it. The names of all other files follow from it.
-/
namespace FirmwareAudit
open Text

structure Plan where
  image : Path
  fileType : Setting
  architecture : Setting
  chip : Setting
  includeDir : Path
  dataRanges : List Setting
  labelFiles : List Setting
  commentFiles : List Setting
  keepTemps : Bool
  deriving DecidableEq

namespace Plan

def defaultFileType : String := "binary"
def defaultArchitecture : String := "avr4"
def defaultChip : String := "m88"
def defaultIncludeDir : String := "/usr/share/avra"

/-- The plan for an image with nothing else said. -/
def ofImage (image : Path) : Plan where
  image
  fileType := .text defaultFileType
  architecture := .text defaultArchitecture
  chip := .text defaultChip
  includeDir := .ofString defaultIncludeDir
  dataRanges := []
  labelFiles := []
  commentFiles := []
  keepTemps := false

/-- The file with the chip's definitions. -/
def chipDefinitions (p : Plan) : Path :=
  p.includeDir.join (.ofString (p.chip.shown ++ "def.inc"))

/-- A flag in front of every value. -/
def repeated (flag : String) (values : List Setting) : List Setting :=
  values.flatMap fun v => [.text flag, v]

/-- What the postprocessor is told about data, labels and comments. -/
def postprocessorFlags (p : Plan) : List Setting :=
  repeated "-d" p.dataRanges ++ repeated "-L" p.labelFiles ++ repeated "-C" p.commentFiles

def describePath (p : Path) : String := "PosixPath(" ++ quoted p.toString ++ ")"

def describeList (values : List Setting) : String :=
  match values with
  | [v] => "(" ++ v.described ++ ",)"
  | _ => "(" ++ joinWith ", " (values.map Setting.described) ++ ")"

def describeBool (b : Bool) : String := if b then "True" else "False"

/-- The plan on one line, field by field. -/
def described (p : Plan) : String :=
  "RunConfig(infile=" ++ describePath p.image ++
    ", intype=" ++ p.fileType.described ++
    ", machine=" ++ p.architecture.described ++
    ", chip=" ++ p.chip.described ++
    ", incdir=" ++ describePath p.includeDir ++
    ", data_ranges=" ++ describeList p.dataRanges ++
    ", label_files=" ++ describeList p.labelFiles ++
    ", comment_files=" ++ describeList p.commentFiles ++
    ", save_temps=" ++ describeBool p.keepTemps ++ ")"

end Plan

/-- The files between the image and the image rebuilt from it, each named after the image. -/
structure Artifacts where
  listing : Path
  source : Path
  flash : Path
  eeprom : Path
  object : Path
  debugInfo : Path
  rebuilt : Path
  deriving DecidableEq

namespace Artifacts

def endings : List String :=
  [".raw.asm", ".asm", ".hex", ".eep.hex", ".obj", ".cof", ".reassembled"]

def ofImage (image : Path) : Artifacts where
  listing := image.withEnding ".raw.asm"
  source := image.withEnding ".asm"
  flash := image.withEnding ".hex"
  eeprom := image.withEnding ".eep.hex"
  object := image.withEnding ".obj"
  debugInfo := image.withEnding ".cof"
  rebuilt := image.withEnding ".reassembled"

/-- The artifacts in the order in which they come about. -/
def all (a : Artifacts) : List Path :=
  [a.listing, a.source, a.flash, a.eeprom, a.object, a.debugInfo, a.rebuilt]

theorem all_ofImage (image : Path) : (ofImage image).all = endings.map image.withEnding := rfl

end Artifacts

namespace Plan

def artifacts (p : Plan) : Artifacts := .ofImage p.image

end Plan

end FirmwareAudit
