import FirmwareAudit.Text.ShellWord

/-! # Reading a command line back

A POSIX shell cuts a line into words at the blanks outside of quotes. A backslash there takes the
next character as it is, single quotes take all up to the next single quote, and double quotes take
all but a few characters. Read so, the line of a command gives the words of the command.
-/
namespace FirmwareAudit.Text

/-- What the characters read before a place make of the one that comes next. -/
inductive Quotation
  | bare
  | escaped
  | single
  | double
  | doubleEscaped
  deriving DecidableEq

/-- A line read up to some place: the words that are complete, the one that is not, and how the next
character is taken. -/
structure LineReading where
  words : List (List Char)
  word : Option (List Char)
  quotation : Quotation

namespace LineReading

def start : LineReading := ⟨[], none, .bare⟩

/-- The character is one of the word that is read. -/
def add (r : LineReading) (c : Char) (next : Quotation) : LineReading :=
  ⟨r.words, some (r.word.getD [] ++ [c]), next⟩

/-- The words up to here, with the one that is read. -/
def closed (r : LineReading) : List (List Char) := r.words ++ r.word.toList

/-- The characters that outside of quotes are no letters of a word but control the shell, or may be
expanded by it. -/
def controls : List Char := "|&;<>()$\x60*?[]#~!\x7b\x7d^\n".toList

/-- Reads one character. There is no answer where the line is more than words. -/
def step (r : LineReading) (c : Char) : Option LineReading :=
  match r.quotation with
  | .bare =>
    if c = ' ' ∨ c = '\t' then some ⟨r.closed, none, .bare⟩
    else if c = '\'' then some ⟨r.words, some (r.word.getD []), .single⟩
    else if c = '"' then some ⟨r.words, some (r.word.getD []), .double⟩
    else if c = '\\' then some { r with quotation := .escaped }
    else if c ∈ controls then none
    else some (r.add c .bare)
  | .escaped => if c = '\n' then some { r with quotation := .bare } else some (r.add c .bare)
  | .single =>
    if c = '\'' then some { r with quotation := .bare } else some (r.add c .single)
  | .double =>
    if c = '"' then some { r with quotation := .bare }
    else if c = '\\' then some { r with quotation := .doubleEscaped }
    else if c = '$' ∨ c = '\x60' then none
    else some (r.add c .double)
  | .doubleEscaped =>
    if c = '\n' then some { r with quotation := .double }
    else if c ∈ ['$', '\x60', '"', '\\'] then some (r.add c .double)
    else some ((r.add '\\' .double).add c .double)

/-- Reads characters. -/
def reads (r : LineReading) (cs : List Char) : Option LineReading := cs.foldlM step r

/-- The words at the end of a line, where no quotation is left open. -/
def finish (r : LineReading) : Option (List (List Char)) :=
  if r.quotation = .bare then some r.closed else none

theorem reads_append {r r' : LineReading} {cs : List Char} (h : r.reads cs = some r')
    (ds : List Char) : r.reads (cs ++ ds) = r'.reads ds := by
  rw [reads, List.foldlM_append]
  exact congrArg (· >>= fun s => s.reads ds) h

theorem reads_cons {r r' : LineReading} {c : Char} (h : r.step c = some r') (cs : List Char) :
    r.reads (c :: cs) = r'.reads cs := by
  rw [reads, List.foldlM_cons, h]
  rfl

end LineReading

/-- The words of a command line, if it is made of words alone. -/
def shellWords? (line : String) : Option (List String) :=
  ((LineReading.start.reads line.toList).bind LineReading.finish).map (List.map String.ofList)

namespace LineReading

/-! ## One word -/

theorem step_plain {c : Char} (h : isShellPlain c = true) (words : List (List Char))
    (word : Option (List Char)) :
    step ⟨words, word, .bare⟩ c = some ⟨words, some (word.getD [] ++ [c]), .bare⟩ := by
  have hspecial : ([' ', '\t', '\'', '"', '\\'] ++ controls).all (!isShellPlain ·) = true := by
    decide
  have hno : c ∉ [' ', '\t', '\'', '"', '\\'] ++ controls := by
    intro hc
    have hc' := List.all_eq_true.1 hspecial c hc
    rw [h] at hc'
    cases hc'
  simp only [List.mem_append, List.mem_cons, List.not_mem_nil, or_false, not_or] at hno
  obtain ⟨⟨hblank, htab, hquote, hdouble, hslash⟩, hcontrol⟩ := hno
  simp [step, hblank, htab, hquote, hdouble, hslash, hcontrol, add]

theorem reads_plain {cs : List Char} (h : ∀ c ∈ cs, isShellPlain c = true)
    (words : List (List Char)) (word : List Char) :
    reads ⟨words, some word, .bare⟩ cs = some ⟨words, some (word ++ cs), .bare⟩ := by
  induction cs generalizing word with
  | nil => rw [List.append_nil]; rfl
  | cons c rest ih =>
    rw [List.forall_mem_cons] at h
    rw [reads_cons (step_plain h.1 words (some word))]
    exact (ih h.2 _).trans (by simp)

/-- Inside of single quotes, what stands for a character gives it back: a single quote leaves them,
is taken inside of double ones, and they are entered again. -/
theorem reads_quoteChar (c : Char) (words : List (List Char)) (word : List Char) :
    reads ⟨words, some word, .single⟩ (shellQuoteChar c) =
      some ⟨words, some (word ++ [c]), .single⟩ := by
  unfold shellQuoteChar
  by_cases hc : c = '\''
  · subst hc
    rfl
  · rw [if_neg hc]
    have hstep : step ⟨words, some word, .single⟩ c =
        some ⟨words, some (word ++ [c]), .single⟩ := if_neg hc
    exact reads_cons hstep []

theorem reads_quoteChars (cs : List Char) (words : List (List Char)) (word : List Char) :
    reads ⟨words, some word, .single⟩ (cs.flatMap shellQuoteChar) =
      some ⟨words, some (word ++ cs), .single⟩ := by
  induction cs generalizing word with
  | nil => rw [List.append_nil]; rfl
  | cons c rest ih =>
    rw [List.flatMap_cons, reads_append (reads_quoteChar c words word), ih, List.append_assoc]
    rfl

theorem reads_word (cs : List Char) (words : List (List Char)) :
    reads ⟨words, none, .bare⟩ (shellWordChars cs) = some ⟨words, some cs, .bare⟩ := by
  unfold shellWordChars
  split
  · next hplain =>
    rw [Bool.and_eq_true, List.all_eq_true] at hplain
    cases cs with
    | nil => cases hplain.1
    | cons c rest =>
      have hcs := List.forall_mem_cons.1 hplain.2
      rw [reads_cons (step_plain hcs.1 words none)]
      exact reads_plain hcs.2 words [c]
  · have hopen : step ⟨words, none, .bare⟩ '\'' = some ⟨words, some [], .single⟩ := rfl
    have hclose : step ⟨words, some cs, .single⟩ '\'' = some ⟨words, some cs, .bare⟩ := rfl
    rw [List.cons_append, reads_cons hopen, reads_append (reads_quoteChars cs words []),
      List.nil_append, reads_cons hclose]
    rfl

/-! ## One line -/

theorem reads_line (command : List String) (words : List (List Char)) :
    (reads ⟨words, none, .bare⟩ (shellLine command).toList).bind finish =
      some (words ++ command.map String.toList) := by
  induction command generalizing words with
  | nil => rfl
  | cons s rest ih =>
    have hword : reads ⟨words, none, .bare⟩ (shellWord s).toList =
        some ⟨words, some s.toList, .bare⟩ := by
      rw [shellWord, String.toList_ofList]
      exact reads_word s.toList words
    cases rest with
    | nil =>
      rw [shellLine, List.map_singleton, joinWith_singleton, hword]
      rfl
    | cons s' rest =>
      have hblank : step ⟨words, some s.toList, .bare⟩ ' ' =
          some ⟨words ++ [s.toList], none, .bare⟩ := rfl
      have hline : (shellLine (s :: s' :: rest)).toList =
          (shellWord s).toList ++ ' ' :: (shellLine (s' :: rest)).toList := by
        simp [shellLine, joinWith_cons_cons]
      rw [hline, reads_append hword, reads_cons hblank, ih, List.append_assoc]
      rfl

end LineReading

/-- The line of a command gives back the command, whatever its words are. -/
theorem shellWords?_shellLine (command : List String) :
    shellWords? (shellLine command) = some command := by
  have hback : (command.map String.toList).map String.ofList = command := by
    simp [List.map_map, Function.comp_def]
  rw [shellWords?, LineReading.start, LineReading.reads_line, List.nil_append, Option.map_some,
    hback]

example : shellWords? "a\\ b\t'' it\\'s \"\\$x\\y\"'\n'" = some ["a b", "", "it's", "$x\\y\n"] := by
  decide +kernel

end FirmwareAudit.Text
