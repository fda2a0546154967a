import FirmwareAudit.CommandLine.Flag
import FirmwareAudit.Text.DecimalDigit
import FirmwareAudit.Text.Quoted

/-! # The tokens of the command line

All arguments are told apart before any is acted on. The first `--` and everything behind it are
operands; before it, an argument with a dash in front is a flag, if it can be read as one.
-/
namespace FirmwareAudit
open Text

/-- Why a command line cannot be followed. -/
inductive Misuse
  | ambiguous (argument : String) (fitting : List String)
  | ignoredValue (f : Flag) (value : String)
  | missingValue (f : Flag)
  | unrecognized (arguments : List String)
  | imageCount (n : Nat)
  deriving DecidableEq

namespace Misuse

def message : Misuse → String
  | ambiguous argument fitting =>
    "ambiguous option: " ++ argument ++ " could match " ++ joinWith ", " fitting
  | ignoredValue f value =>
    "argument " ++ f.label ++ ": ignored explicit argument " ++ quoted value
  | missingValue f => "argument " ++ f.label ++ ": expected one argument"
  | unrecognized arguments => "unrecognized arguments: " ++ joinWith " " arguments
  | imageCount n => "expected exactly one INFILE, got " ++ toString n

end Misuse

inductive Token
  | operand (text : String)
  /-- The first `--`. -/
  | marker
  /-- A flag, whether it was written with one dash, and the text that came with it. -/
  | flag (f : Flag) (short : Bool) (attached : Option String)
  | unknown (text : String)
  deriving DecidableEq

/-- What stands before and behind the first `sep`. -/
def cutAt (sep : Char) : List Char → Option (List Char × List Char)
  | [] => none
  | c :: cs =>
    if c = sep then some ([], cs)
    else
      match cutAt sep cs with
      | some (before, behind) => some (c :: before, behind)
      | none => none

/-- A flag together with a spelling that fits. -/
structure Fit where
  spelling : String
  flag : Flag
  attached : Option String

namespace Fit

def token (fit : Fit) : Token := .flag fit.flag (isShort fit.spelling.toList) fit.attached

/-- The flags whose words start like the argument, up to its first `=`. -/
def byWord (cs : List Char) : List Fit :=
  let (start, attached) :=
    match cutAt '=' cs with
    | some (before, behind) => (before, some (String.ofList behind))
    | none => (cs, none)
  (Flag.spellings.filter fun e => start.isPrefixOf e.1.toList).map fun e => ⟨e.1, e.2, attached⟩

/-- The flag with the argument's first letter; the rest is attached to it. -/
def byLetter (cs : List Char) : List Fit :=
  let spelling := String.ofList (cs.take 2)
  match Flag.ofSpelling? spelling with
  | some f => [⟨spelling, f, some (.ofList (cs.drop 2))⟩]
  | none => []

/-- The flags that an argument may abbreviate. -/
def all (cs : List Char) : List Fit :=
  if isShort cs then byLetter cs else byWord cs

end Fit

namespace Token

/-- The token of an argument that starts with a dash and is no flag's full name. -/
def ofAbbreviation (argument : String) : Except Misuse Token :=
  let cs := argument.toList
  match Fit.all cs with
  | [fit] => .ok fit.token
  | [] =>
    if isNegativeNumber cs || cs.contains ' ' then .ok (.operand argument)
    else .ok (.unknown argument)
  | fits => .error (.ambiguous argument (fits.map (·.spelling)))

/-- A full flag name with a value behind an `=`. -/
def ofAssignment? (argument : String) : Option Token := do
  let (before, behind) ← cutAt '=' argument.toList
  let f ← Flag.ofSpelling? (.ofList before)
  return .flag f (isShort before) (some (.ofList behind))

/-- The token of an argument other than `--`. -/
def ofArgument (argument : String) : Except Misuse Token :=
  match argument.toList with
  | '-' :: c :: rest =>
    match Flag.ofSpelling? argument with
    | some f => .ok (.flag f (isShort ('-' :: c :: rest)) none)
    | none =>
      match ofAssignment? argument with
      | some token => .ok token
      | none => ofAbbreviation argument
  | _ => .ok (.operand argument)

def scan : List String → Except Misuse (List Token)
  | [] => .ok []
  | argument :: rest =>
    if argument = "--" then .ok (.marker :: rest.map .operand)
    else do
      let token ← ofArgument argument
      let tokens ← scan rest
      return token :: tokens

end Token

end FirmwareAudit
