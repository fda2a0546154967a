import FirmwareAudit.Text.Quoted

/-! # Settings

A setting holds a text. `--` given as the value of an option clears its setting, which then prints
as an empty pair of brackets.
-/
namespace FirmwareAudit
open Text

inductive Setting
  | text (s : String)
  | cleared
  deriving DecidableEq

namespace Setting

/-- The setting that an option's value makes. -/
def ofValue (value : String) : Setting :=
  if value = "--" then cleared else text value

def shown : Setting → String
  | text s => s
  | cleared => "[]"

def described : Setting → String
  | text s => quoted s
  | cleared => "[]"

@[simp] theorem shown_text (s : String) : (text s).shown = s := rfl

end Setting

end FirmwareAudit
