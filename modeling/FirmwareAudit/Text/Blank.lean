import FirmwareAudit.Text.CodeRanges

/-! # Blanks

A blank is a character that Unicode gives a white-space, separator or paragraph reading. Tool
answers are trimmed and cut into words at blanks.
-/
namespace FirmwareAudit.Text

def blankRanges : List (Nat × Nat) :=
  [(0x9, 0xd), (0x1c, 0x20), (0x85, 0x85), (0xa0, 0xa0), (0x1680, 0x1680), (0x2000, 0x200a),
   (0x2028, 0x2029), (0x202f, 0x202f), (0x205f, 0x205f), (0x3000, 0x3000)]

theorem ascendFrom_blankRanges : ascendFrom 0 blankRanges := by decide +kernel

def isBlank (c : Char) : Bool :=
  inRanges blankRanges c.toNat

theorem isBlank_of_isWhitespace {c : Char} (h : c.isWhitespace) : isBlank c := by
  simp only [Char.isWhitespace, Bool.or_eq_true, decide_eq_true_eq] at h
  rcases h with ((rfl | rfl) | rfl) | rfl <;> decide

/-- The text without the blanks at either end. -/
def trim (cs : List Char) : List Char :=
  ((cs.dropWhile isBlank).reverse.dropWhile isBlank).reverse

/-- The first of the words that blanks separate, empty if there is none. -/
def firstWord (cs : List Char) : List Char :=
  (cs.dropWhile isBlank).takeWhile (!isBlank ·)

/-- The string without the blanks at either end. -/
def trimmed (s : String) : String :=
  String.ofList (trim s.toList)

end FirmwareAudit.Text
