import FirmwareAudit.Proofs.Spellings
import Mathlib.Data.List.Basic

/-! # What flags were written as

An argument that was taken for a flag has one of five forms. The flags in one argument stand there as
a word or as letters, and what is left behind the name of a knob is its value.
-/
namespace FirmwareAudit
open Text

/-- A text with an `=` in it. -/
theorem ofList_equals (xs ys : List Char) :
    String.ofList (xs ++ '=' :: ys) = .ofList xs ++ "=" ++ .ofList ys := by
  simp [String.ofList_append, String.ofList_cons, String.append_assoc]

namespace Flag

/-! ## One flag -/

/-- The forms of an argument that is taken for a flag, with the text that comes with it: a word or a
letter, alone or with a text behind an `=`, and a letter with a text right behind it. -/
inductive Written (f : Flag) : Bool → Option String → String → Prop
  | word (text : String) (h : f.HasWord text) : f.Written false none text
  | wordWith (text value : String) (h : f.HasWord text) :
      f.Written false (some value) (text ++ "=" ++ value)
  | letter (c : Char) (h : f.HasLetter c) : f.Written true none (.ofList ['-', c])
  | letterWith (c : Char) (value : String) (h : f.HasLetter c) :
      f.Written true (some value) (.ofList ['-', c] ++ "=" ++ value)
  | glued (c : Char) (text : String) (h : f.HasLetter c) :
      f.Written true (some text) (.ofList ['-', c] ++ text)

/-- Every spelling is a flag's word or a dash and its letter. -/
theorem name_of_ofSpelling {s : String} {f : Flag} (h : ofSpelling? s = some f) :
    (isShort s.toList = false ∧ f.HasWord s) ∨
      isShort s.toList = true ∧ ∃ c, s = .ofList ['-', c] ∧ f.HasLetter c := by
  have hwords : ∀ e ∈ spellings, isShort e.1.toList = false → e.2.HasWord e.1 := by decide
  have hdash : ∀ e ∈ spellings, e.1.toList.head? = some '-' := by decide
  have hmem := mem_of_ofSpelling h
  cases hs : isShort s.toList with
  | false => exact Or.inl ⟨rfl, hwords _ hmem hs⟩
  | true =>
    obtain ⟨a, c, hletters⟩ := List.length_eq_two.1 (length_of_short hmem hs)
    have hfirst := hdash _ hmem
    rw [hletters] at hfirst
    cases hfirst
    obtain rfl : s = .ofList ['-', c] := by rw [← hletters, String.ofList_toList]
    exact Or.inr ⟨rfl, c, rfl, h⟩

theorem hasWord_of_filter {start : List Char} {e : String × Flag} (hdashes : ['-', '-'] <+: start)
    (h : (spellings.filter fun e => start.isPrefixOf e.1.toList) = [e]) :
    e.2.HasWord (.ofList start) ∧ isShort e.1.toList = false := by
  have hmem : ∀ e', e' ∈ spellings ∧ start <+: e'.1.toList ↔ e' = e := by
    intro e'
    rw [← List.mem_singleton, ← h, List.mem_filter, List.isPrefixOf_iff_prefix]
  obtain ⟨he, hstart⟩ := (hmem e).2 rfl
  refine ⟨⟨?_, ⟨e, he, rfl, ?_⟩, ?_⟩, ?_⟩
  · rwa [String.toList_ofList]
  · rwa [String.toList_ofList]
  · intro e' he' hpre
    rw [String.toList_ofList] at hpre
    rw [(hmem e').1 ⟨he', hpre⟩]
  · obtain ⟨rest, hrest⟩ := hdashes.trans hstart
    rw [← hrest]
    rfl

end Flag

namespace Token
variable {argument : String} {token : Token}

/-- What an argument other than `--` may be taken for. -/
inductive IsReadFrom (argument : String) : Token → Prop
  | operand : IsReadFrom argument (.operand argument)
  | unknown : IsReadFrom argument (.unknown argument)
  | flag (f : Flag) (short : Bool) (attached : Option String)
      (h : f.Written short attached argument) : IsReadFrom argument (.flag f short attached)

theorem isReadFrom_of_ofSpelling {f : Flag} (h : Flag.ofSpelling? argument = some f) :
    IsReadFrom argument (.flag f (isShort argument.toList) none) := by
  apply IsReadFrom.flag
  rcases Flag.name_of_ofSpelling h with ⟨hs, hword⟩ | ⟨hs, c, rfl, hletter⟩
  · rw [hs]
    exact .word argument hword
  · rw [hs]
    exact .letter c hletter

theorem isReadFrom_of_ofAssignment (h : ofAssignment? argument = some token) :
    IsReadFrom argument token := by
  unfold ofAssignment? at h
  cases hcut : cutAt '=' argument.toList with
  | none =>
    rw [hcut] at h
    cases h
  | some parts =>
    obtain ⟨before, behind⟩ := parts
    have hargument : argument = .ofList before ++ "=" ++ .ofList behind := by
      rw [← String.ofList_toList (s := argument), eq_of_cutAt hcut, ofList_equals]
    cases hs : Flag.ofSpelling? (.ofList before) with
    | none =>
      simp only [hcut, Option.bind_eq_bind, Option.bind_some, hs, Option.bind_none] at h
      cases h
    | some g =>
      simp only [hcut, Option.bind_eq_bind, Option.bind_some, hs] at h
      cases h
      apply IsReadFrom.flag
      have hname := Flag.name_of_ofSpelling hs
      rw [String.toList_ofList] at hname
      rcases hname with ⟨hshort, hword⟩ | ⟨hshort, c, hc, hletter⟩
      · rw [hshort, hargument]
        exact .wordWith _ _ hword
      · rw [hshort, hargument, hc]
        exact .letterWith c _ hletter

theorem exists_of_not_isShort {c : Char} {cs : List Char} (h : isShort (c :: cs) = false) :
    ∃ rest, cs = '-' :: rest := by
  unfold isShort at h
  split at h
  · next heq =>
    cases heq
    exact ⟨_, rfl⟩
  · cases h

theorem written_of_byWord {cs : List Char} {fit : Fit} (hlong : isShort ('-' :: cs) = false)
    (h : Fit.byWord ('-' :: cs) = [fit]) :
    fit.flag.Written false fit.attached (.ofList ('-' :: cs)) ∧
      isShort fit.spelling.toList = false := by
  obtain ⟨rest, rfl⟩ := exists_of_not_isShort hlong
  unfold Fit.byWord at h
  cases hcut : cutAt '=' ('-' :: '-' :: rest) with
  | none =>
    rw [hcut] at h
    obtain ⟨e, hfilter, rfl⟩ := List.map_eq_singleton_iff.1 h
    obtain ⟨hword, hshort⟩ := Flag.hasWord_of_filter ⟨rest, rfl⟩ hfilter
    exact ⟨.word _ hword, hshort⟩
  | some parts =>
    obtain ⟨before, behind⟩ := parts
    have hparts := eq_of_cutAt hcut
    have hdashes : ['-', '-'] <+: before := by
      rcases before with _ | ⟨a, _ | ⟨b, before⟩⟩ <;> simp at hparts
      obtain ⟨rfl, rfl, -⟩ := hparts
      exact ⟨before, rfl⟩
    rw [hcut] at h
    obtain ⟨e, hfilter, rfl⟩ := List.map_eq_singleton_iff.1 h
    obtain ⟨hword, hshort⟩ := Flag.hasWord_of_filter hdashes hfilter
    rw [hparts, ofList_equals]
    exact ⟨.wordWith _ _ hword, hshort⟩

theorem written_of_byLetter {c : Char} {rest : List Char} {fit : Fit}
    (h : Fit.byLetter ('-' :: c :: rest) = [fit]) :
    fit.flag.Written true fit.attached (.ofList ('-' :: c :: rest)) ∧
      isShort fit.spelling.toList = true := by
  unfold Fit.byLetter at h
  simp only [List.take_succ_cons, List.take_zero, List.drop_succ_cons, List.drop_zero] at h
  split at h
  · next f hf =>
    cases h
    have hletter : f.HasLetter c := hf
    have htext : String.ofList ('-' :: c :: rest) = .ofList ['-', c] ++ .ofList rest := by
      rw [← String.ofList_append]
      rfl
    rw [htext]
    refine ⟨.glued c _ hletter, ?_⟩
    rw [String.toList_ofList]
    exact isShort_letter hletter []
  · cases h

theorem isReadFrom_of_ofAbbreviation {c : Char} {rest : List Char}
    (hargument : argument.toList = '-' :: c :: rest) (h : ofAbbreviation argument = .ok token) :
    IsReadFrom argument token := by
  have htext : argument = .ofList ('-' :: c :: rest) := by
    rw [← hargument, String.ofList_toList]
  unfold ofAbbreviation at h
  rw [hargument] at h
  dsimp only at h
  split at h
  · next fit hfit =>
    cases h
    apply IsReadFrom.flag
    unfold Fit.all at hfit
    split at hfit
    · obtain ⟨hwritten, hs⟩ := written_of_byLetter hfit
      rwa [hs, htext]
    · next hs =>
      obtain ⟨hwritten, hs⟩ := written_of_byWord (by simpa using hs) hfit
      rwa [hs, htext]
  · split at h
    · cases h
      exact .operand
    · cases h
      exact .unknown
  · cases h

/-- An argument that is taken for a flag was written as one; else it is taken as it stands. -/
theorem isReadFrom_of_ofArgument (h : ofArgument argument = .ok token) :
    IsReadFrom argument token := by
  unfold ofArgument at h
  split at h
  · next c rest hargument =>
    cases hs : Flag.ofSpelling? argument with
    | some g =>
      simp only [hs] at h
      cases h
      rw [← hargument]
      exact isReadFrom_of_ofSpelling hs
    | none =>
      cases hassign : ofAssignment? argument with
      | some token' =>
        simp only [hs, hassign] at h
        cases h
        exact isReadFrom_of_ofAssignment hassign
      | none =>
        simp only [hs, hassign] at h
        exact isReadFrom_of_ofAbbreviation hargument h
  · cases h
    exact .operand

/-- What a command line is told apart into. -/
inductive Scanned : List String → List Token → Prop
  | nil : Scanned [] []
  | marker (rest : List String) : Scanned ("--" :: rest) (.marker :: rest.map .operand)
  | cons {argument : String} {rest : List String} {token : Token} {tokens : List Token}
      (hne : argument ≠ "--") (htoken : IsReadFrom argument token) (hrest : Scanned rest tokens) :
      Scanned (argument :: rest) (token :: tokens)

theorem scanned_of_scan {argv : List String} {tokens : List Token} (h : scan argv = .ok tokens) :
    Scanned argv tokens := by
  induction argv generalizing tokens with
  | nil =>
    cases h
    exact .nil
  | cons argument rest ih =>
    unfold scan at h
    split at h
    · next hdashes =>
      cases h
      rw [hdashes]
      exact .marker rest
    · next hne =>
      cases hargument : ofArgument argument with
      | error e =>
        rw [hargument] at h
        cases h
      | ok token =>
        cases hrest : scan rest with
        | error e =>
          rw [hargument, hrest] at h
          cases h
        | ok tokens' =>
          rw [hargument, hrest] at h
          cases h
          exact .cons hne (isReadFrom_of_ofArgument hargument) (ih hrest)

end Token

/-! ## The flags in one argument -/

/-- Letters of switches, or of switches and a knob behind them. -/
inductive Letters : List Char → List Switch → Option Knob → Prop
  | switch (s : Switch) (c : Char) (h : (Flag.switch s).HasLetter c) : Letters [c] [s] none
  | knob (k : Knob) (c : Char) (h : (Flag.knob k).HasLetter c) : Letters [c] [] (some k)
  | more (s : Switch) (c : Char) (h : (Flag.switch s).HasLetter c) {cs : List Char}
      {switches : List Switch} {knob : Option Knob} (rest : Letters cs switches knob) :
      Letters (c :: cs) (s :: switches) knob

/-- A text that names switches, or switches and a knob behind them: a word, or letters behind a
dash, of which the first may be followed by an `=`. -/
inductive Names : String → List Switch → Option Knob → Prop
  | switch (s : Switch) (text : String) (h : (Flag.switch s).HasWord text) : Names text [s] none
  | knob (k : Knob) (text : String) (h : (Flag.knob k).HasWord text) : Names text [] (some k)
  | letters {cs : List Char} {switches : List Switch} {knob : Option Knob}
      (h : Letters cs switches knob) : Names (.ofList ('-' :: cs)) switches knob
  | lettersAssigned (s : Switch) (c : Char) (h : (Flag.switch s).HasLetter c) {cs : List Char}
      {switches : List Switch} {knob : Option Knob} (rest : Letters cs switches knob) :
      Names (.ofList ('-' :: c :: '=' :: cs)) (s :: switches) knob

namespace Cluster

/-- How a cluster stands in an argument: as names, and behind that of a knob, if anything, its value,
set off with an `=` or not. -/
inductive StandsIn (argument : String) : Cluster → Prop
  | switches (ss : List Switch) (h : Names argument ss none) : StandsIn argument ⟨ss, none⟩
  | bare (ss : List Switch) (k : Knob) (h : Names argument ss (some k)) :
      StandsIn argument ⟨ss, some (k, none)⟩
  | attached (ss : List Switch) (k : Knob) (name sep value : String) (h : Names name ss (some k))
      (hsep : sep = "" ∨ sep = "=") (hargument : argument = name ++ sep ++ value) :
      StandsIn argument ⟨ss, some (k, some value)⟩

theorem ofLetters_switch_cons {s : Switch} {c : Char} {cs : List Char} {cluster : Cluster}
    (h : ofLetters (.switch s) (c :: cs) = .ok cluster) :
    ∃ f rest, f.HasLetter c ∧ ofLetters f cs = .ok rest ∧
      cluster = { rest with switches := s :: rest.switches } := by
  unfold ofLetters at h
  split at h
  · next f hf =>
    cases hrest : ofLetters f cs with
    | error m =>
      rw [hrest] at h
      cases h
    | ok rest =>
      rw [hrest] at h
      cases h
      exact ⟨f, rest, hf, hrest, rfl⟩
  · cases h

/-- The text that came with the knob. -/
def text (cluster : Cluster) : String := (cluster.knob.bind (·.2)).getD ""

theorem letters_of_ofLetters {f : Flag} {c : Char} {cs : List Char} {cluster : Cluster}
    (hf : f.HasLetter c) (h : ofLetters f cs = .ok cluster) :
    ∃ front, Letters front cluster.switches (cluster.knob.map (·.1)) ∧
      c :: cs = front ++ cluster.text.toList := by
  induction cs generalizing f c cluster with
  | nil =>
    cases f with
    | switch s =>
      cases h
      exact ⟨[c], .switch s c hf, rfl⟩
    | knob k =>
      cases h
      exact ⟨[c], .knob k c hf, rfl⟩
  | cons d cs ih =>
    cases f with
    | switch s =>
      obtain ⟨g, rest, hg, hrest, rfl⟩ := ofLetters_switch_cons h
      obtain ⟨front, hfront, htext⟩ := ih hg hrest
      exact ⟨c :: front, .more s c hf hfront, congrArg (c :: ·) htext⟩
    | knob k =>
      cases h
      refine ⟨[c], .knob k c hf, ?_⟩
      simp [text]

/-- What stands in an argument as names and a text stands there as a cluster. -/
theorem standsIn_of_names {argument name : String} {cluster : Cluster}
    (hnames : Names name cluster.switches (cluster.knob.map (·.1)))
    (hargument : argument = name ++ cluster.text) : cluster.StandsIn argument := by
  obtain ⟨ss, _ | ⟨k, _ | value⟩⟩ := cluster
  · obtain rfl : argument = name := by simpa [text] using hargument
    exact .switches ss hnames
  · obtain rfl : argument = name := by simpa [text] using hargument
    exact .bare ss k hnames
  · refine .attached ss k name "" value hnames (Or.inl rfl) ?_
    simpa [text] using hargument

theorem standsIn_of_ofLetters {f : Flag} {c : Char} {cs : List Char} {cluster : Cluster}
    (hf : f.HasLetter c) (h : ofLetters f cs = .ok cluster) :
    cluster.StandsIn (.ofList ('-' :: c :: cs)) := by
  obtain ⟨front, hfront, htext⟩ := letters_of_ofLetters hf h
  refine standsIn_of_names (.letters hfront) ?_
  rw [htext, ← List.cons_append, String.ofList_append, String.ofList_toList]

theorem ofFlag_switch_attached {s : Switch} {value : String} {cluster : Cluster}
    (h : ofFlag (.switch s) true (some value) = .ok cluster) :
    ∃ c cs, value = .ofList (c :: cs) ∧ ofLetters (.switch s) (c :: cs) = .ok cluster := by
  simp only [ofFlag, Bool.true_and, decide_eq_true_eq] at h
  split at h
  · next hne =>
    cases hvalue : value.toList with
    | nil => exact absurd (String.toList_eq_nil_iff.1 hvalue) hne
    | cons c cs =>
      rw [hvalue] at h
      refine ⟨c, cs, ?_, h⟩
      rw [← hvalue, String.ofList_toList]
  · cases h

/-- The flags that an argument was taken for stand in it. -/
theorem standsIn_of_ofFlag {f : Flag} {short : Bool} {attached : Option String} {argument : String}
    {cluster : Cluster} (hwritten : f.Written short attached argument)
    (h : ofFlag f short attached = .ok cluster) : cluster.StandsIn argument := by
  cases hwritten with
  | word word hword =>
    cases f with
    | switch s =>
      cases h
      exact .switches _ (.switch s _ hword)
    | knob k =>
      cases h
      exact .bare _ k (.knob k _ hword)
  | wordWith word value hword =>
    cases f with
    | switch s => cases h
    | knob k =>
      cases h
      exact .attached _ k word "=" value (.knob k word hword) (Or.inr rfl) rfl
  | letter c hletter => exact standsIn_of_ofLetters hletter h
  | letterWith c value hletter =>
    cases f with
    | knob k =>
      cases h
      exact .attached _ k _ "=" value (.letters (.knob k c hletter)) (Or.inr rfl) rfl
    | switch s =>
      obtain ⟨d, cs, rfl, hletters⟩ := ofFlag_switch_attached h
      obtain ⟨g, rest, hg, hrest, rfl⟩ := ofLetters_switch_cons hletters
      obtain ⟨front, hfront, htext⟩ := letters_of_ofLetters hg hrest
      refine standsIn_of_names (.lettersAssigned s c hletter hfront) ?_
      rw [htext, ← String.toList_inj]
      simp [text]
  | glued c value hletter =>
    cases f with
    | knob k =>
      cases h
      refine .attached _ k _ "" value (.letters (.knob k c hletter)) (Or.inl rfl) ?_
      rw [String.append_empty]
    | switch s =>
      obtain ⟨d, cs, rfl, hletters⟩ := ofFlag_switch_attached h
      rw [← String.ofList_append]
      exact standsIn_of_ofLetters hletter hletters

end Cluster

end FirmwareAudit
