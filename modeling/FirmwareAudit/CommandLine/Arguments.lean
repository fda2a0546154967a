import FirmwareAudit.CommandLine.Token

/-! # Reading the command line

Tokens are acted on in order. Switches can share one dash, and the first knob among them takes the
rest of the argument, or the next operand, as its value. The first unbroken run of operands names
the image; operands behind it are left over.
-/
namespace FirmwareAudit

structure Options where
  fileType : Setting
  architecture : Setting
  chip : Setting
  includeDir : Setting
  dataRanges : List Setting
  labelFiles : List Setting
  commentFiles : List Setting
  keepTemps : Bool
  verbosity : Nat
  logFile : Option Setting
  deriving DecidableEq

/-- A command line that was read to its end. -/
structure Arguments where
  image : String
  options : Options
  deriving DecidableEq

/-- Why a command line is not followed to its end. -/
inductive Halt
  | help
  | version
  | misuse (m : Misuse)
  deriving DecidableEq

namespace Options

def turn (o : Options) : Switch → Except Halt Options
  | .help => .error .help
  | .version => .error .version
  | .keepTemps => .ok { o with keepTemps := true }
  | .verbose => .ok { o with verbosity := o.verbosity + 1 }

def assign (o : Options) (v : Setting) : Knob → Options
  | .fileType => { o with fileType := v }
  | .architecture => { o with architecture := v }
  | .chip => { o with chip := v }
  | .dataRange => { o with dataRanges := o.dataRanges ++ [v] }
  | .labelFile => { o with labelFiles := o.labelFiles ++ [v] }
  | .commentFile => { o with commentFiles := o.commentFiles ++ [v] }
  | .includeDir => { o with includeDir := v }
  | .logFile => { o with logFile := some v }

def turnAll (o : Options) : List Switch → Except Halt Options
  | [] => .ok o
  | s :: rest => do turnAll (← o.turn s) rest

end Options

/-- The flags of one argument: switches, and behind them a knob, if any, with the value that came
with it. -/
structure Cluster where
  switches : List Switch
  knob : Option (Knob × Option String)
  deriving DecidableEq

namespace Cluster

/-- A flag and what its letter is followed by. -/
def ofLetters : Flag → List Char → Except Misuse Cluster
  | .knob k, [] => .ok ⟨[], some (k, none)⟩
  | .knob k, cs => .ok ⟨[], some (k, some (.ofList cs))⟩
  | .switch s, [] => .ok ⟨[s], none⟩
  | .switch s, c :: rest =>
    match Flag.ofLetter? c with
    | some f => (ofLetters f rest).map fun cluster =>
        { cluster with switches := s :: cluster.switches }
    | none => .error (.ignoredValue (.switch s) (.ofList (c :: rest)))

def ofFlag (f : Flag) (short : Bool) : (attached : Option String) → Except Misuse Cluster
  | none => ofLetters f []
  | some value =>
    match f with
    | .knob k => .ok ⟨[], some (k, some value)⟩
    | .switch s =>
      if short && value ≠ "" then ofLetters f value.toList
      else .error (.ignoredValue (.switch s) value)

end Cluster

/-- How far the run of operands that names the image has got. -/
inductive Phase
  | before
  | within
  | behind
  deriving DecidableEq

structure Reading where
  options : Options
  images : List String
  phase : Phase
  leftOver : List String
  deriving DecidableEq

namespace Reading

def leave (r : Reading) (argument : String) : Reading :=
  { r with leftOver := r.leftOver ++ [argument] }

def operand (r : Reading) (text : String) : Reading :=
  if r.phase = .behind then r.leave text
  else { r with images := r.images ++ [text], phase := .within }

def marker (r : Reading) : Reading :=
  if r.phase = .behind then r.leave "--" else { r with phase := .within }

/-- A flag ends the run of operands, if there was one. -/
def breakRun (r : Reading) : Reading :=
  if r.phase = .within then { r with phase := .behind } else r

def turnAll (r : Reading) (switches : List Switch) : Except Halt Reading := do
  return { r with options := ← r.options.turnAll switches }

def assign (r : Reading) (k : Knob) (value : String) : Reading :=
  { r with options := r.options.assign (.ofValue value) k }

def follow : List Token → Reading → Except Halt Reading
  | [], r => .ok r
  | .operand text :: rest, r => follow rest (r.operand text)
  | .marker :: rest, r => follow rest r.marker
  | .unknown text :: rest, r => follow rest (r.breakRun.leave text)
  | .flag f short attached :: rest, r =>
    match Cluster.ofFlag f short attached with
    | .error m => .error (.misuse m)
    | .ok ⟨switches, none⟩ => do
      follow rest (← r.breakRun.turnAll switches)
    | .ok ⟨switches, some (k, some value)⟩ => do
      follow rest ((← r.breakRun.turnAll switches).assign k value)
    | .ok ⟨switches, some (k, none)⟩ =>
      match rest with
      | .operand value :: rest => do
        follow rest ((← r.breakRun.turnAll switches).assign k value)
      | _ => .error (.misuse (.missingValue (.knob k)))

end Reading

namespace Arguments

def ofReading (r : Reading) : Except Halt Arguments :=
  if r.leftOver ≠ [] then .error (.misuse (.unrecognized r.leftOver))
  else
    match r.images with
    | [image] => .ok ⟨image, r.options⟩
    | images => .error (.misuse (.imageCount images.length))

def read (defaults : Options) (argv : List String) : Except Halt Arguments := do
  let tokens ← (Token.scan argv).mapError .misuse
  let r ← Reading.follow tokens ⟨defaults, [], .before, []⟩
  ofReading r

end Arguments

end FirmwareAudit
