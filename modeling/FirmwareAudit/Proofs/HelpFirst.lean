import FirmwareAudit.Proofs.CommandParts
import Mathlib.Data.Finset.Card

/-! # Help first

A request for help is answered wherever it stands behind complete items, and whatever stands behind
it: what is wrong there is not looked at. Only an argument that could be short for several words is
refused before any other is acted on. Of help and the version, the one that is asked for first is
shown.
-/
namespace FirmwareAudit
open Text

/-! ## Arguments that are short for several words -/

namespace Token

/-- What an argument has in front of its first `=`. -/
def wordStart (argument : String) : List Char := argument.toList.takeWhile (· ≠ '=')

/-- The argument starts like several words and is none of them in full. -/
def Ambiguous (argument : String) : Prop :=
  ['-', '-'] <+: argument.toList ∧ (∀ e ∈ Flag.spellings, e.1.toList ≠ wordStart argument) ∧
    ∃ e ∈ Flag.spellings, ∃ e' ∈ Flag.spellings, e ≠ e' ∧
      wordStart argument <+: e.1.toList ∧ wordStart argument <+: e'.1.toList

instance (argument : String) : Decidable (Ambiguous argument) := by
  unfold Ambiguous
  infer_instance

example : Ambiguous "--ver" ∧ Ambiguous "--l=fw.lab" ∧ ¬ Ambiguous "--vers" := by decide

end Token

/-- What a cut leaves in front, or all where there is nothing to cut at. -/
theorem takeWhile_ne (sep : Char) (cs : List Char) :
    cs.takeWhile (· ≠ sep) = ((cutAt sep cs).map (·.1)).getD cs := by
  induction cs with
  | nil => rfl
  | cons c cs ih =>
    unfold cutAt
    by_cases hc : c = sep
    · simp [hc]
    · rw [List.takeWhile_cons_of_pos (by simpa using hc), ih, if_neg hc]
      cases cutAt sep cs <;> rfl

theorem Flag.ofSpelling_eq_none {s : String} :
    ofSpelling? s = none ↔ ∀ e ∈ spellings, e.1.toList ≠ s.toList := by
  rw [ofSpelling?, List.lookup_eq_none_iff]
  refine forall₂_congr fun e _ => ?_
  rw [Ne, String.toList_inj, bne_iff_ne, ne_comm]

namespace Fit

theorem length_byWord (cs : List Char) :
    (byWord cs).length =
      (Flag.spellings.filter fun e => (cs.takeWhile (· ≠ '=')).isPrefixOf e.1.toList).length := by
  unfold byWord
  rw [takeWhile_ne]
  cases cutAt '=' cs with
  | none => exact List.length_map ..
  | some parts => exact List.length_map ..

/-- A letter never fits two flags. -/
theorem length_byLetter (cs : List Char) : (byLetter cs).length ≤ 1 := by
  unfold byLetter
  dsimp only
  split <;> simp

end Fit

theorem two_le_length_iff {α : Type} [DecidableEq α] {l : List α} (h : l.Nodup) :
    2 ≤ l.length ↔ ∃ a ∈ l, ∃ b ∈ l, a ≠ b := by
  have hcard := Finset.one_lt_card (s := l.toFinset)
  simp only [List.mem_toFinset] at hcard
  rwa [← List.toFinset_card_of_nodup h]

namespace Fit

/-- Several flags fit just where an argument with two dashes starts like several words. -/
theorem two_le_length_all {cs : List Char} :
    2 ≤ (all cs).length ↔ isShort cs = false ∧
      ∃ e ∈ Flag.spellings, ∃ e' ∈ Flag.spellings, e ≠ e' ∧
        cs.takeWhile (· ≠ '=') <+: e.1.toList ∧ cs.takeWhile (· ≠ '=') <+: e'.1.toList := by
  have hnodup : Flag.spellings.Nodup := by decide
  unfold all
  cases hs : isShort cs with
  | true =>
    have hone := length_byLetter cs
    simp only [if_true]
    constructor
    · intro h
      omega
    · rintro ⟨h, -⟩
      cases h
  | false =>
    rw [if_neg Bool.false_ne_true, length_byWord, two_le_length_iff (hnodup.filter _)]
    simp only [List.mem_filter, List.isPrefixOf_iff_prefix, true_and]
    constructor
    · rintro ⟨e, ⟨he, hpre⟩, e', ⟨he', hpre'⟩, hne⟩
      exact ⟨e, he, e', he', hne, hpre, hpre'⟩
    · rintro ⟨e, he, e', he', hne, hpre, hpre'⟩
      exact ⟨e, ⟨he, hpre⟩, e', ⟨he', hpre'⟩, hne⟩

end Fit

namespace Token
variable {argument : String}

theorem ofAbbreviation_error :
    (∃ e, ofAbbreviation argument = .error e) ↔ 2 ≤ (Fit.all argument.toList).length := by
  unfold ofAbbreviation
  dsimp only
  split
  · next fit hfit => simp [hfit]
  · next hnone =>
    rw [hnone]
    split <;> simp
  · next hone hnone =>
    refine iff_of_true ⟨_, rfl⟩ ?_
    match hfits : Fit.all argument.toList with
    | [] => exact (hnone hfits).elim
    | [fit] => exact (hone fit hfits).elim
    | fit :: fit' :: rest => simp

/-- Neither the argument nor what it has in front of an `=` is a flag's full name. -/
theorem ne_wordStart_iff :
    (∀ e ∈ Flag.spellings, e.1.toList ≠ wordStart argument) ↔
      Flag.ofSpelling? argument = none ∧ ofAssignment? argument = none := by
  unfold wordStart ofAssignment?
  rw [takeWhile_ne]
  cases hcut : cutAt '=' argument.toList with
  | none =>
    rw [Option.map_none, Option.getD_none, ← Flag.ofSpelling_eq_none]
    simp
  | some parts =>
    obtain ⟨before, behind⟩ := parts
    have hequals : '=' ∈ argument.toList := by simp [eq_of_cutAt hcut]
    have hbefore := Flag.ofSpelling_eq_none (s := .ofList before)
    rw [String.toList_ofList] at hbefore
    rw [Option.map_some, Option.getD_some, ← hbefore, Flag.ofSpelling_of_equals hequals]
    cases hs : Flag.ofSpelling? (.ofList before) <;> simp [hs]

/-- The arguments that cannot be told apart are those that are short for several words. -/
theorem ofArgument_error_iff :
    (∃ e, ofArgument argument = .error e) ↔ Ambiguous argument := by
  unfold Ambiguous
  rw [ne_wordStart_iff]
  constructor
  · rintro ⟨e, h⟩
    unfold ofArgument at h
    split at h
    · next c rest hargument =>
      cases hs : Flag.ofSpelling? argument with
      | some g => simp [hs] at h
      | none =>
        cases hassign : ofAssignment? argument with
        | some token => simp [hs, hassign] at h
        | none =>
          simp only [hs, hassign] at h
          obtain ⟨hlong, hseveral⟩ := Fit.two_le_length_all.1 (ofAbbreviation_error.1 ⟨e, h⟩)
          rw [hargument] at hlong
          obtain ⟨rest', hdashes⟩ := exists_of_not_isShort hlong
          exact ⟨⟨rest', by rw [hargument, hdashes]; rfl⟩, ⟨rfl, rfl⟩, hseveral⟩
    · cases h
  · rintro ⟨⟨rest, hargument⟩, ⟨hs, hassign⟩, hseveral⟩
    rw [ofArgument_of_dash hargument.symm, hs, hassign]
    exact ofAbbreviation_error.2 (Fit.two_le_length_all.2 ⟨by rw [← hargument]; rfl, hseveral⟩)

/-- A command line is told apart to its end, if nothing before a `--` is short for several words. -/
theorem scan_of_clear {argv : List String}
    (h : ∀ a ∈ argv.takeWhile (· ≠ "--"), ¬ Ambiguous a) : ∃ tokens, scan argv = .ok tokens := by
  induction argv with
  | nil => exact ⟨[], rfl⟩
  | cons a rest ih =>
    by_cases ha : a = "--"
    · exact ⟨_, if_pos ha⟩
    · rw [List.takeWhile_cons_of_pos (by simpa using ha), List.forall_mem_cons] at h
      obtain ⟨tokens, hrest⟩ := ih h.2
      cases htoken : ofArgument a with
      | error e => exact absurd (ofArgument_error_iff.1 ⟨e, htoken⟩) h.1
      | ok token => exact ⟨token :: tokens, by rw [scan_cons htoken, hrest]; rfl⟩

end Token

/-! ## How names are read -/

namespace Cluster

/-- What stands behind the letter of a knob in the same argument, if anything. -/
def behindKnob (text : List Char) : Option String := if text = [] then none else some (.ofList text)

/-- Letters come to the flags that they stand for. What is behind a knob's letter is its value. -/
theorem ofLetters_of_letters {cs : List Char} {ss : List Switch} {knob : Option Knob}
    (h : Letters cs ss knob) (text : List Char) (htext : knob = none → text = []) :
    ∃ c rest f, cs = c :: rest ∧ f.HasLetter c ∧
      ofLetters f (rest ++ text) = .ok ⟨ss, knob.map (·, behindKnob text)⟩ := by
  induction h with
  | switch s c hc =>
    rw [htext rfl]
    exact ⟨c, [], .switch s, rfl, hc, rfl⟩
  | knob k c hc =>
    refine ⟨c, [], .knob k, rfl, hc, ?_⟩
    cases text <;> rfl
  | more s c hc _ ih =>
    obtain ⟨d, rest, f, rfl, hd, hletters⟩ := ih htext
    refine ⟨c, d :: rest, .switch s, rfl, hc, ?_⟩
    have hf : Flag.ofLetter? d = some f := hd
    rw [List.cons_append, ofLetters]
    simp only [hf, hletters]
    rfl

theorem ofFlag_some {f : Flag} {text : String} (hne : text ≠ "") :
    ofFlag f true (some text) = ofLetters f text.toList := by
  cases f with
  | switch s => simp [ofFlag, hne]
  | knob k =>
    cases htext : text.toList with
    | nil => exact absurd (String.toList_eq_nil_iff.1 htext) hne
    | cons c cs =>
      rw [ofFlag, ofLetters, ← htext, String.ofList_toList]
      simp

end Cluster

/-- An argument is taken for these flags. -/
def TakenFor (argument : String) (cluster : Cluster) : Prop :=
  ∃ f short attached, Token.ofArgument argument = .ok (.flag f short attached) ∧
    Cluster.ofFlag f short attached = .ok cluster

theorem Letters.equals_not_mem {cs : List Char} {ss : List Switch} {knob : Option Knob}
    (h : Letters cs ss knob) : '=' ∉ cs := by
  induction h with
  | switch s c hc => simpa using hc.ne_equals.symm
  | knob k c hc => simpa using hc.ne_equals.symm
  | more s c hc _ ih => simpa using ⟨hc.ne_equals.symm, ih⟩

section TakenFor
variable {name value : String} {ss : List Switch} {k : Knob} {knob : Option Knob}
  {cluster : Cluster}

theorem takenFor_letters {f : Flag} {c : Char} {more : List Char} (hc : f.HasLetter c)
    (hmore : more.head? ≠ some '=') (h : Cluster.ofLetters f more = .ok cluster) :
    TakenFor (.ofList ('-' :: c :: more)) cluster := by
  cases more with
  | nil => exact ⟨f, true, none, Token.ofArgument_letter hc, h⟩
  | cons d ds =>
    have hne : String.ofList (d :: ds) ≠ "" := by simp
    have heq : startsWith "=" (.ofList (d :: ds)) = false := by
      have hd : d ≠ '=' := by simpa using hmore
      simp [startsWith, List.isPrefixOf, hd.symm]
    have htext : String.ofList ('-' :: c :: d :: ds) = .ofList ['-', c] ++ .ofList (d :: ds) := by
      rw [← String.ofList_append]
      rfl
    refine ⟨f, true, some (.ofList (d :: ds)), ?_, ?_⟩
    · rw [htext]
      exact Token.ofArgument_glued hc hne heq
    · rwa [Cluster.ofFlag_some hne, String.toList_ofList]

/-- Behind a switch's letter and an `=` stand more letters. -/
theorem takenFor_lettersAssigned {s : Switch} {c : Char} {cs : List Char}
    (hc : (Flag.switch s).HasLetter c) (h : Letters cs ss knob) (text : List Char)
    (htext : knob = none → text = []) :
    TakenFor (.ofList ('-' :: c :: '=' :: (cs ++ text)))
      ⟨s :: ss, knob.map (·, Cluster.behindKnob text)⟩ := by
  obtain ⟨d, rest, f, hcs, hd, hletters⟩ := Cluster.ofLetters_of_letters (.more s c hc h) text htext
  cases hcs
  cases hc.symm.trans hd
  have hne : String.ofList (cs ++ text) ≠ "" := by
    cases h <;> simp
  have hsplit : String.ofList ('-' :: c :: '=' :: (cs ++ text)) =
      .ofList ['-', c] ++ "=" ++ .ofList (cs ++ text) := by
    rw [← String.toList_inj]
    simp
  refine ⟨.switch s, true, some (.ofList (cs ++ text)), ?_, ?_⟩
  · rw [hsplit]
    exact Token.ofArgument_letter_assigned hc _
  · rwa [Cluster.ofFlag_some hne, String.toList_ofList]

theorem takenFor_letterAssigned {c : Char} (hc : (Flag.knob k).HasLetter c) (text : List Char) :
    TakenFor (.ofList ('-' :: c :: '=' :: text)) ⟨[], some (k, some (.ofList text))⟩ := by
  have hsplit : String.ofList ('-' :: c :: '=' :: text) =
      .ofList ['-', c] ++ "=" ++ .ofList text := by
    rw [← String.toList_inj]
    simp
  rw [hsplit]
  exact ⟨_, true, _, Token.ofArgument_letter_assigned hc _, rfl⟩

/-- A text that names flags is taken for them. -/
theorem takenFor_names (h : Names name ss knob) : TakenFor name ⟨ss, knob.map (·, none)⟩ := by
  cases h with
  | switch s text hword => exact ⟨_, false, none, Token.ofArgument_word hword, rfl⟩
  | knob k text hword => exact ⟨_, false, none, Token.ofArgument_word hword, rfl⟩
  | letters hl =>
    have hequals := hl.equals_not_mem
    obtain ⟨c, rest, f, rfl, hc, hletters⟩ := Cluster.ofLetters_of_letters hl [] fun _ => rfl
    rw [List.append_nil] at hletters
    refine takenFor_letters hc (fun hhead => hequals ?_) hletters
    exact List.mem_cons_of_mem _ (List.mem_of_head? hhead)
  | lettersAssigned s c hc hl =>
    have htaken := takenFor_lettersAssigned hc hl [] fun _ => rfl
    rwa [List.append_nil] at htaken

/-- Behind letters of which the last is a knob's stands its value. -/
theorem takenFor_glued (h : Names name ss (some k)) (hshort : isShort name.toList = true)
    (hvalue : value ≠ "") : ∃ v, TakenFor (name ++ value) ⟨ss, some (k, some v)⟩ := by
  have hbehind : Cluster.behindKnob value.toList = some value := by
    rw [Cluster.behindKnob, if_neg (by simpa using hvalue), String.ofList_toList]
  have hsplit : ∀ cs : List Char, String.ofList cs ++ value = .ofList (cs ++ value.toList) := by
    intro cs
    rw [String.ofList_append, String.ofList_toList]
  cases h with
  | knob k text hword =>
    obtain ⟨rest, hrest⟩ := hword.toList_eq
    rw [hrest] at hshort
    cases hshort
  | letters hl =>
    have hequals := hl.equals_not_mem
    obtain ⟨c, rest, f, rfl, hc, hletters⟩ :=
      Cluster.ofLetters_of_letters hl value.toList nofun
    rw [hbehind] at hletters
    rw [hsplit, List.cons_append, List.cons_append]
    by_cases hhead : (rest ++ value.toList).head? = some '='
    · -- The `=` is not a letter's, so that it sets the value off from the only letter.
      cases rest with
      | cons d ds =>
        cases hhead
        simp at hequals
      | nil =>
        obtain ⟨v, hv⟩ := List.head?_eq_some_iff.1 hhead
        rw [hv]
        cases hl with
        | knob _ _ hk => exact ⟨.ofList v, takenFor_letterAssigned hk v⟩
        | more _ _ _ hrest => cases hrest
    · exact ⟨value, takenFor_letters hc hhead hletters⟩
  | lettersAssigned s c hc hl =>
    have htaken := takenFor_lettersAssigned hc hl value.toList nofun
    rw [hbehind] at htaken
    rw [hsplit]
    exact ⟨value, htaken⟩

end TakenFor

/-! ## Command lines that ask for help -/

/-- Some arguments are read as a change, or as a request for help, whatever stands behind them. -/
def ReadsOn (arguments : List String) : Prop :=
  ∃ tokens, (∀ rest, Token.scan (arguments ++ rest) = (Token.scan rest).map (tokens ++ ·)) ∧
    ∀ r, (∃ r', ∀ rest, Reading.follow (tokens ++ rest) r = Reading.follow rest r') ∨
      ∀ rest, Reading.follow (tokens ++ rest) r = .error .help

theorem ReadsAs.readsOn {xs : List String} {change : Reading → Reading} (h : ReadsAs xs change) :
    ReadsOn xs := by
  obtain ⟨tokens, hscan, hfollow⟩ := h
  exact ⟨tokens, hscan, fun r => Or.inl ⟨change r, fun rest => hfollow rest r⟩⟩

theorem ReadsOn.append {xs ys : List String} (hx : ReadsOn xs) (hy : ReadsOn ys) :
    ReadsOn (xs ++ ys) := by
  obtain ⟨ts, hscan, hfollow⟩ := hx
  obtain ⟨us, hscan', hfollow'⟩ := hy
  refine ⟨ts ++ us, fun rest => ?_, fun r => ?_⟩
  · exact Token.scan_append hscan hscan' rest
  · simp only [List.append_assoc]
    rcases hfollow r with ⟨r', hon⟩ | hhelp
    · simp only [hon]
      exact hfollow' r'
    · exact Or.inr fun rest => hhelp _

/-- Switches other than the version's change the options, or help is among them. -/
theorem Options.turnAll_cases {ss : List Switch} (h : Switch.version ∉ ss) (o : Options) :
    (∃ o', o.turnAll ss = .ok o') ∨ o.turnAll ss = .error .help := by
  induction ss generalizing o with
  | nil => exact Or.inl ⟨o, rfl⟩
  | cons s rest ih =>
    rw [List.mem_cons, not_or] at h
    cases s with
    | help => exact Or.inr rfl
    | version => exact absurd rfl h.1
    | keepTemps => exact ih h.2 _
    | verbose => exact ih h.2 _

theorem Reading.turnAll_cases {ss : List Switch} (h : Switch.version ∉ ss) (r : Reading) :
    (∃ r', r.turnAll ss = .ok r') ∨ r.turnAll ss = .error .help := by
  unfold Reading.turnAll
  rcases r.options.turnAll_cases h with ⟨o', ho⟩ | ho
  · rw [ho]
    exact Or.inl ⟨_, rfl⟩
  · rw [ho]
    exact Or.inr rfl

section
variable {argument value : String} {ss : List Switch} {k : Knob} {v : String}

/-- Flags that are turned before the rest is read are read on from. -/
theorem readsOn_of_turn {arguments : List String} (tokens : List Token) {g : Reading → Reading}
    (hscan : ∀ rest, Token.scan (arguments ++ rest) = (Token.scan rest).map (tokens ++ ·))
    (hversion : Switch.version ∉ ss)
    (hfollow : ∀ rest r, Reading.follow (tokens ++ rest) r =
      r.breakRun.turnAll ss >>= fun r' => Reading.follow rest (g r')) : ReadsOn arguments := by
  refine ⟨tokens, hscan, fun r => ?_⟩
  rcases r.breakRun.turnAll_cases hversion with ⟨r', hturn⟩ | hturn
  · refine Or.inl ⟨g r', fun rest => ?_⟩
    rw [hfollow, hturn]
    rfl
  · refine Or.inr fun rest => ?_
    rw [hfollow, hturn]
    rfl

theorem TakenFor.readsOn_switches (h : TakenFor argument ⟨ss, none⟩)
    (hversion : Switch.version ∉ ss) : ReadsOn [argument] := by
  obtain ⟨f, short, attached, htoken, hcluster⟩ := h
  refine readsOn_of_turn [.flag f short attached] (g := id) (Token.scan_cons htoken) hversion
    fun rest r => ?_
  rw [List.cons_append, Reading.follow, hcluster]
  rfl

theorem TakenFor.readsOn_attached (h : TakenFor argument ⟨ss, some (k, some v)⟩)
    (hversion : Switch.version ∉ ss) : ReadsOn [argument] := by
  obtain ⟨f, short, attached, htoken, hcluster⟩ := h
  refine readsOn_of_turn [.flag f short attached] (g := (·.assign k v)) (Token.scan_cons htoken)
    hversion fun rest r => ?_
  rw [List.cons_append, Reading.follow, hcluster]
  rfl

theorem TakenFor.readsOn_spaced (h : TakenFor argument ⟨ss, some (k, none)⟩)
    (hvalue : Token.ofArgument value = .ok (.operand value)) (hversion : Switch.version ∉ ss) :
    ReadsOn [argument, value] := by
  obtain ⟨f, short, attached, htoken, hcluster⟩ := h
  have hscan := Token.scan_append (Token.scan_single htoken) (Token.scan_single hvalue)
  refine readsOn_of_turn [.flag f short attached, .operand value] (g := (·.assign k value)) hscan
    hversion fun rest r => ?_
  rw [List.cons_append, List.cons_append, Reading.follow, hcluster]
  rfl

end

/-- A complete item of a command line: flags with their value, or an image. -/
inductive Piece
  /-- Switches, in one argument. -/
  | switches (argument : String) (ss : List Switch) (h : Names argument ss none)
  /-- A knob, behind switches if it is a letter, with its value in the next argument. -/
  | spaced (name value : String) (ss : List Switch) (k : Knob) (h : Names name ss (some k))
      (hvalue : Token.ofArgument value = .ok (.operand value))
  /-- A word with a value behind an `=`. -/
  | assigned (word value : String) (k : Knob) (h : (Flag.knob k).HasWord word)
  /-- A knob's letter, behind switches if there are any, with its value right behind it. -/
  | glued (name value : String) (ss : List Switch) (k : Knob) (h : Names name ss (some k))
      (hshort : isShort name.toList = true) (hne : value ≠ "")
  | image (text : String) (htext : Token.ofArgument text = .ok (.operand text))

namespace Piece

def arguments : Piece → List String
  | switches argument _ _ => [argument]
  | spaced name value _ _ _ _ => [name, value]
  | assigned word value _ _ => [word ++ "=" ++ value]
  | glued name value _ _ _ _ _ => [name ++ value]
  | image text _ => [text]

/-- The switches that the piece turns. -/
def turned : Piece → List Switch
  | switches _ ss _ => ss
  | spaced _ _ ss _ _ _ => ss
  | assigned .. => []
  | glued _ _ ss _ _ _ _ => ss
  | image .. => []

theorem readsOn (p : Piece) (hversion : Switch.version ∉ p.turned) : ReadsOn p.arguments := by
  cases p with
  | switches argument ss h => exact (takenFor_names h).readsOn_switches hversion
  | spaced name value ss k h hvalue => exact (takenFor_names h).readsOn_spaced hvalue hversion
  | assigned word value k h =>
    have htaken : TakenFor (word ++ "=" ++ value) ⟨[], some (k, some value)⟩ :=
      ⟨_, false, _, Token.ofArgument_word_assigned h value, rfl⟩
    exact htaken.readsOn_attached List.not_mem_nil
  | glued name value ss k h hshort hne =>
    obtain ⟨v, htaken⟩ := takenFor_glued h hshort hne
    exact htaken.readsOn_attached hversion
  | image text htext =>
    have hreads : ReadsAs [text] (·.operand text) := reads_single htext fun _ _ => rfl
    exact hreads.readsOn

theorem readsOn_all {pieces : List Piece} (hversion : ∀ p ∈ pieces, Switch.version ∉ p.turned) :
    ReadsOn (pieces.flatMap arguments) := by
  induction pieces with
  | nil => exact ReadsAs.nil.readsOn
  | cons p rest ih =>
    rw [List.forall_mem_cons] at hversion
    exact (p.readsOn hversion.1).append (ih hversion.2)

end Piece

theorem help_hasSpelling {name : String} (h : name = "-h" ∨ name = "--help") :
    ∃ short, Token.ofArgument name = .ok (.flag (.switch .help) short none) := by
  rcases h with rfl | rfl
  · exact ⟨true, by decide⟩
  · exact ⟨false, by decide⟩

/-- Behind complete items that do not ask for the version, a request for help is answered with the
help, on the output stream and with status 0, whatever stands behind it. This takes that no argument
there before a `--` is short for several words. -/
theorem help_first (pre : List Piece) (hversion : ∀ p ∈ pre, Switch.version ∉ p.turned)
    {name : String} (hname : name = "-h" ∨ name = "--help") (post : List String)
    (hclear : ∀ a ∈ post.takeWhile (· ≠ "--"), ¬ Token.Ambiguous a) (m : Machine) :
    readArguments (pre.flatMap Piece.arguments ++ name :: post) m =
      .error (.exit 0) (m.record (.printed .output helpText)) := by
  obtain ⟨ts, hscan, hfollow⟩ := Piece.readsOn_all hversion
  obtain ⟨short, htoken⟩ := help_hasSpelling hname
  obtain ⟨us, hpost⟩ := Token.scan_of_clear hclear
  have htokens : Token.scan (pre.flatMap Piece.arguments ++ name :: post) =
      .ok (ts ++ .flag (.switch .help) short none :: us) := by
    rw [hscan, Token.scan_cons htoken, hpost]
    rfl
  have hhelp : Reading.follow (ts ++ .flag (.switch .help) short none :: us)
      ⟨.standard, [], .before, []⟩ = .error .help := by
    rcases hfollow ⟨.standard, [], .before, []⟩ with ⟨r', hon⟩ | hearlier
    · rw [hon]
      rfl
    · exact hearlier _
  have hread : Arguments.read .standard (pre.flatMap Piece.arguments ++ name :: post) =
      .error .help := by
    rw [Arguments.read, htokens]
    exact congrArg (· >>= Arguments.ofReading) hhelp
  rw [readArguments, hread]
  exact answerHalt_eq .help m

theorem help_first_toolsOnly :
    readArguments ["-tv", "--int", "ihex", "fw.bin", "-h", "--bogus", "-I", "--", "--ver"]
        CommandLine.toolsOnly =
      .error (.exit 0) (CommandLine.toolsOnly.record (.printed .output helpText)) := by
  let pre : List Piece :=
    [.switches _ _ (.letters (.more .keepTemps 't' (by decide) (.switch .verbose 'v' (by decide)))),
      .spaced _ "ihex" _ _ (.knob .fileType "--int" (by decide)) (by decide),
      .image "fw.bin" (by decide)]
  exact help_first pre (by decide) (Or.inl rfl) ["--bogus", "-I", "--", "--ver"] (by decide)
    CommandLine.toolsOnly

/-- Where the version is asked for before help, the version is shown. -/
theorem version_before_help :
    let version : Piece := .switches "--version" [.version] (.switch _ _ (by decide))
    readArguments ([version].flatMap Piece.arguments ++ ["--help"]) CommandLine.toolsOnly =
        .error (.exit 0) (CommandLine.toolsOnly.record (.printed .output (versionLine ++ "\n"))) ∧
      versionLine ++ "\n" ≠ helpText := by
  intro version
  have hread : Arguments.read .standard ["--version", "--help"] = .error .version := by decide
  refine ⟨?_, by decide +kernel⟩
  change readArguments ["--version", "--help"] CommandLine.toolsOnly = _
  rw [readArguments, hread]
  exact answerHalt_eq .version CommandLine.toolsOnly

end FirmwareAudit
