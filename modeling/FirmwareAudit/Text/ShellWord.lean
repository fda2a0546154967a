import FirmwareAudit.Text.Split

/-! # Shell words

A command line as it can be typed into a POSIX shell. A word of plain characters stands for
itself; any other is put in single quotes, and a single quote inside it in double ones.
-/
namespace FirmwareAudit.Text

/-- The characters that mean nothing to a shell. -/
def isShellPlain (c : Char) : Bool :=
  c.isAlphanum || "_@%+=:,./-".toList.contains c

/-- One character inside a single-quoted word: a single quote closes the quotes, stands in double
ones and opens them again. -/
def shellQuoteChar (c : Char) : List Char :=
  if c = '\'' then ['\'', '"', '\'', '"', '\''] else [c]

def shellWordChars (cs : List Char) : List Char :=
  if !cs.isEmpty && cs.all isShellPlain then cs
  else '\'' :: cs.flatMap shellQuoteChar ++ ['\'']

def shellWord (s : String) : String :=
  String.ofList (shellWordChars s.toList)

/-- A command as one line of shell words. -/
def shellLine (command : List String) : String :=
  joinWith " " (command.map shellWord)

end FirmwareAudit.Text
