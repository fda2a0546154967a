import FirmwareAudit.Text.Blank
import FirmwareAudit.Text.LowerCase

/-! # Digests

A checksum tool answers with a line that starts with a digest of forty hexadecimal digits. It puts a
backslash in front where it had to escape the file's name.
-/
namespace FirmwareAudit.Digest
open Text

def length : Nat := 40

/-- The digits that a digest is written with. -/
def digits : List Char := "0123456789abcdef".toList

/-- The first word of an answer without the backslashes in front of it, every capital made small. -/
def field (answer : List Char) : List Char :=
  lowerChars [] ((firstWord answer).dropWhile (· = '\\'))

/-- The digest that an answer starts with, in small letters. -/
def ofAnswer? (answer : String) : Option String :=
  let word := field answer.toList
  if word.length = length && word.all digits.contains then some (.ofList word) else none

end FirmwareAudit.Digest
