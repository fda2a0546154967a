import FirmwareAudit.CommandLine.Help
import FirmwareAudit.Proofs.Effect
import FirmwareAudit.Proofs.Spellings
import Mathlib.Data.List.Induction

/-! # Command lines made of items

A command line that is laid out from items, however each is spelled, and one image is read to its
end. Each item changes the options on its own: of the values given to a flag the last one counts, or
all of them in order, and switches are counted.
-/
namespace FirmwareAudit
open Text

/-- A switch that a command line can go on behind. -/
inductive Toggle
  | keepTemps
  | verbose
  deriving DecidableEq

namespace Toggle

def switch : Toggle → Switch
  | keepTemps => .keepTemps
  | verbose => .verbose

def letter : Toggle → Char
  | keepTemps => 't'
  | verbose => 'v'

def set : Toggle → Options → Options
  | keepTemps, o => { o with keepTemps := true }
  | verbose, o => { o with verbosity := o.verbosity + 1 }

def setAll (ts : List Toggle) (o : Options) : Options := ts.foldl (fun o t => t.set o) o

theorem hasLetter (t : Toggle) : (Flag.switch t.switch).HasLetter t.letter := by
  cases t <;> decide

theorem setAll_eq (ts : List Toggle) (o : Options) :
    setAll ts o = { o with
      keepTemps := o.keepTemps || decide (keepTemps ∈ ts)
      verbosity := o.verbosity + ts.count verbose } := by
  unfold setAll
  induction ts generalizing o with
  | nil => simp
  | cons t rest ih =>
    rw [List.foldl_cons, ih]
    cases t with
    | keepTemps => simp [set]
    | verbose => simp [set, Nat.add_assoc, Nat.add_comm 1]

end Toggle

/-- How a knob is named: by its letter, or by as much of its word as tells it apart. -/
inductive KnobName (k : Knob)
  | letter (c : Char) (h : (Flag.knob k).HasLetter c)
  | word (text : String) (h : (Flag.knob k).HasWord text)

def KnobName.text {k : Knob} : KnobName k → String
  | letter c _ => .ofList ['-', c]
  | word text _ => text

/-- One option on a command line. -/
inductive Item
  /-- A value behind an `=`. -/
  | assigned (k : Knob) (name : KnobName k) (value : String) (hvalue : value ≠ "--")
  /-- A value in an argument of its own. -/
  | spaced (k : Knob) (name : KnobName k) (value : String) (hvalue : startsWith "-" value = false)
  /-- A value right behind a letter. -/
  | glued (k : Knob) (c : Char) (value : String) (hletter : (Flag.knob k).HasLetter c)
      (hne : value ≠ "") (heq : startsWith "=" value = false) (hvalue : value ≠ "--")
  | word (t : Toggle) (text : String) (hword : (Flag.switch t.switch).HasWord text)
  /-- Letters of switches behind one dash. -/
  | cluster (first : Toggle) (more : List Toggle)

namespace Item

def arguments : Item → List String
  | assigned _ name value _ => [name.text ++ "=" ++ value]
  | spaced _ name value _ => [name.text, value]
  | glued _ c value _ _ _ _ => [.ofList ['-', c] ++ value]
  | word _ text _ => [text]
  | cluster first more => [.ofList ('-' :: (first :: more).map Toggle.letter)]

/-- The value that the item gives to a knob. -/
def setting? : Item → Option (Knob × String)
  | assigned k _ value _ => some (k, value)
  | spaced k _ value _ => some (k, value)
  | glued k _ value _ _ _ _ => some (k, value)
  | word .. => none
  | cluster .. => none

/-- The switches that the item turns on. -/
def toggles : Item → List Toggle
  | word t _ _ => [t]
  | cluster first more => first :: more
  | _ => []

def apply (i : Item) (o : Options) : Options :=
  match i.setting? with
  | some (k, value) => o.assign (.text value) k
  | none => Toggle.setAll i.toggles o

/-! ## What items come to -/

/-- The values given to a knob, in order. -/
def given (k : Knob) (items : List Item) : List String :=
  items.filterMap fun i => i.setting?.bind fun s => if s.1 = k then some s.2 else none

/-- The last value given to a knob, or the one that it has by itself. -/
def lastGiven (k : Knob) (default : String) (items : List Item) : String :=
  (given k items).getLast?.getD default

def toggled (items : List Item) : List Toggle := items.flatMap toggles

/-- The options that a list of items comes to. -/
def options (items : List Item) : Options where
  fileType := .text (lastGiven .fileType "binary" items)
  architecture := .text (lastGiven .architecture "avr4" items)
  chip := .text (lastGiven .chip "m88" items)
  includeDir := .text (lastGiven .includeDir "/usr/share/avra" items)
  dataRanges := (given .dataRange items).map .text
  labelFiles := (given .labelFile items).map .text
  commentFiles := (given .commentFile items).map .text
  keepTemps := decide (Toggle.keepTemps ∈ toggled items)
  verbosity := (toggled items).count .verbose
  logFile := (given .logFile items).getLast?.map .text

theorem given_concat (k : Knob) (items : List Item) (i : Item) :
    given k (items ++ [i]) =
      given k items ++ (i.setting?.bind fun s => if s.1 = k then some s.2 else none).toList := by
  simp only [given, List.filterMap_append]
  congr 1

theorem toggled_concat (items : List Item) (i : Item) :
    toggled (items ++ [i]) = toggled items ++ i.toggles := by
  simp [toggled]

theorem toggles_of_setting {i : Item} {s : Knob × String} (h : i.setting? = some s) :
    i.toggles = [] := by
  cases i with
  | word t text hword => cases h
  | cluster first more => cases h
  | _ => rfl

/-- One more item changes the options by itself. -/
theorem options_concat (items : List Item) (i : Item) :
    options (items ++ [i]) = i.apply (options items) := by
  unfold apply
  cases h : i.setting? with
  | none =>
    have hgiven : ∀ k, given k (items ++ [i]) = given k items := by
      intro k
      rw [given_concat, h]
      simp
    simp only [Toggle.setAll_eq, options, lastGiven, hgiven, toggled_concat, List.mem_append,
      Bool.decide_or, List.count_append]
  | some s =>
    obtain ⟨k, value⟩ := s
    have htoggled : toggled (items ++ [i]) = toggled items := by
      rw [toggled_concat, toggles_of_setting h, List.append_nil]
    have hgiven : ∀ k', given k' (items ++ [i]) =
        given k' items ++ if k = k' then [value] else [] := by
      intro k'
      rw [given_concat, h]
      by_cases hk : k = k' <;> simp [hk]
    simp only [options, lastGiven, hgiven, htoggled]
    cases k <;> simp [Options.assign]

theorem options_nil : options [] = .standard := rfl

/-- Items that follow others change what those came to. -/
theorem foldl_apply (before after : List Item) :
    after.foldl (fun o i => i.apply o) (options before) = options (before ++ after) := by
  induction after using List.reverseRecOn with
  | nil => rw [List.foldl_nil, List.append_nil]
  | append_singleton after i ih =>
    rw [List.foldl_append, List.foldl_cons, List.foldl_nil, ih, ← options_concat,
      List.append_assoc]

end Item

/-! ## How arguments are read -/

/-- Arguments that are told apart on their own are told apart one after the other. -/
theorem Token.scan_append {xs ys : List String} {ts us : List Token}
    (hx : ∀ rest, scan (xs ++ rest) = (scan rest).map (ts ++ ·))
    (hy : ∀ rest, scan (ys ++ rest) = (scan rest).map (us ++ ·)) (rest : List String) :
    scan (xs ++ ys ++ rest) = (scan rest).map (ts ++ us ++ ·) := by
  rw [List.append_assoc, hx, hy]
  cases scan rest with
  | error e => rfl
  | ok tokens => exact congrArg Except.ok (List.append_assoc ts us tokens).symm

/-- Some arguments are read as a change, whatever stands behind them. -/
def ReadsAs (arguments : List String) (change : Reading → Reading) : Prop :=
  ∃ tokens, (∀ rest, Token.scan (arguments ++ rest) = (Token.scan rest).map (tokens ++ ·)) ∧
    ∀ rest r, Reading.follow (tokens ++ rest) r = Reading.follow rest (change r)

namespace ReadsAs

theorem nil : ReadsAs [] id := by
  refine ⟨[], fun rest => ?_, fun rest r => rfl⟩
  rw [List.nil_append]
  cases Token.scan rest <;> rfl

theorem append {xs ys : List String} {f g : Reading → Reading} (hx : ReadsAs xs f)
    (hy : ReadsAs ys g) : ReadsAs (xs ++ ys) fun r => g (f r) := by
  obtain ⟨ts, hscan, hfollow⟩ := hx
  obtain ⟨us, hscan', hfollow'⟩ := hy
  refine ⟨ts ++ us, Token.scan_append hscan hscan', fun rest r => ?_⟩
  rw [List.append_assoc, hfollow, hfollow']

end ReadsAs

namespace Token

theorem scan_cons {argument : String} {token : Token} (h : ofArgument argument = .ok token)
    (rest : List String) : scan (argument :: rest) = (scan rest).map (token :: ·) := by
  have hne : argument ≠ "--" := by
    rintro rfl
    have herror : (ofArgument "--").toOption = none := by decide
    rw [h] at herror
    cases herror
  rw [scan, if_neg hne, h]
  cases scan rest <;> rfl

theorem scan_single {argument : String} {token : Token} (h : ofArgument argument = .ok token)
    (rest : List String) : scan ([argument] ++ rest) = (scan rest).map ([token] ++ ·) :=
  scan_cons h rest

end Token

theorem reads_single {argument : String} {token : Token} {change : Reading → Reading}
    (h : Token.ofArgument argument = .ok token)
    (hfollow : ∀ rest r, Reading.follow (token :: rest) r = Reading.follow rest (change r)) :
    ReadsAs [argument] change :=
  ⟨[token], Token.scan_cons h, hfollow⟩

theorem reads_operand {text : String} (h : startsWith "-" text = false) :
    ReadsAs [text] (·.operand text) :=
  reads_single (Token.ofArgument_operand h) fun _ _ => rfl

namespace Reading

/-- The options changed, and a run of operands broken off. -/
def change (f : Options → Options) (r : Reading) : Reading :=
  { r.breakRun with options := f r.options }

theorem breakRun_eq (r : Reading) : r.breakRun = { r with phase := r.breakRun.phase } := by
  unfold breakRun
  split <;> rfl

section
variable {k : Knob} {value : String} (hvalue : value ≠ "--")
include hvalue

theorem assign_eq (r : Reading) :
    r.breakRun.assign k value = r.change fun o => o.assign (.text value) k := by
  rw [assign, change, Setting.ofValue, if_neg hvalue, breakRun_eq]

theorem follow_attached (short : Bool) (rest : List Token) (r : Reading) :
    follow (.flag (.knob k) short (some value) :: rest) r =
      follow rest (r.change fun o => o.assign (.text value) k) := by
  rw [← assign_eq hvalue]
  rfl

theorem follow_next (short : Bool) (rest : List Token) (r : Reading) :
    follow (.flag (.knob k) short none :: .operand value :: rest) r =
      follow rest (r.change fun o => o.assign (.text value) k) := by
  rw [← assign_eq hvalue]
  rfl

end

theorem turnAll_toggles (ts : List Toggle) (o : Options) :
    o.turnAll (ts.map Toggle.switch) = .ok (Toggle.setAll ts o) := by
  induction ts generalizing o with
  | nil => rfl
  | cons t rest ih =>
    have ht : o.turn t.switch = .ok (t.set o) := by cases t <;> rfl
    rw [List.map_cons, Options.turnAll, ht]
    exact ih (t.set o)

theorem follow_toggles {f : Flag} {short : Bool} {attached : Option String} {ts : List Toggle}
    (h : Cluster.ofFlag f short attached = .ok ⟨ts.map Toggle.switch, none⟩) (rest : List Token)
    (r : Reading) :
    follow (.flag f short attached :: rest) r =
      follow rest (r.change (Toggle.setAll ts)) := by
  have hturn : r.breakRun.turnAll (ts.map Toggle.switch) = .ok (r.change (Toggle.setAll ts)) := by
    rw [turnAll, turnAll_toggles, change, breakRun_eq]
    rfl
  rw [follow, h]
  simp only [hturn]
  rfl

end Reading

/-! ## How items are read -/

namespace KnobName
variable {k : Knob} (name : KnobName k)

theorem ofArgument : ∃ short, Token.ofArgument name.text = .ok (.flag (.knob k) short none) := by
  cases name with
  | letter c h => exact ⟨true, Token.ofArgument_letter h⟩
  | word text h => exact ⟨false, Token.ofArgument_word h⟩

theorem ofArgument_assigned (value : String) : ∃ short,
    Token.ofArgument (name.text ++ "=" ++ value) = .ok (.flag (.knob k) short (some value)) := by
  cases name with
  | letter c h => exact ⟨true, Token.ofArgument_letter_assigned h value⟩
  | word text h => exact ⟨false, Token.ofArgument_word_assigned h value⟩

end KnobName

theorem ofLetters_toggles (t : Toggle) (ts : List Toggle) :
    Cluster.ofLetters (.switch t.switch) (ts.map Toggle.letter) =
      .ok ⟨(t :: ts).map Toggle.switch, none⟩ := by
  induction ts generalizing t with
  | nil => rfl
  | cons u rest ih =>
    have hletter : Flag.ofLetter? u.letter = some (.switch u.switch) := u.hasLetter
    rw [List.map_cons, Cluster.ofLetters]
    simp only [hletter, ih u]
    rfl

namespace Item

theorem reads_spaced {k : Knob} (name : KnobName k) {value : String}
    (hvalue : startsWith "-" value = false) :
    ReadsAs [name.text, value] (Reading.change fun o => o.assign (.text value) k) := by
  obtain ⟨short, htoken⟩ := name.ofArgument
  have hne : value ≠ "--" := by
    rintro rfl
    cases hvalue
  have hscan := Token.scan_append (Token.scan_single htoken)
    (Token.scan_single (Token.ofArgument_operand hvalue))
  exact ⟨[.flag (.knob k) short none, .operand value], hscan, Reading.follow_next hne short⟩

theorem reads_cluster (first : Toggle) (more : List Toggle) :
    ReadsAs [.ofList ('-' :: (first :: more).map Toggle.letter)]
      (Reading.change (Toggle.setAll (first :: more))) := by
  have hfirst := first.hasLetter
  -- One letter is a whole name; of more, the first is the name and the others are glued to it.
  cases more with
  | nil =>
    have hone := ofLetters_toggles first []
    exact reads_single (Token.ofArgument_letter hfirst) (Reading.follow_toggles hone)
  | cons second rest =>
    have hsecond : second.letter ≠ '=' := second.hasLetter.ne_equals
    have hne : String.ofList ((second :: rest).map Toggle.letter) ≠ "" := by simp
    have heq : startsWith "=" (.ofList ((second :: rest).map Toggle.letter)) = false := by
      simp [startsWith, List.isPrefixOf, hsecond.symm]
    have hglued := Token.ofArgument_glued hfirst hne heq
    have htext : String.ofList ['-', first.letter] ++
        .ofList ((second :: rest).map Toggle.letter) =
          .ofList ('-' :: (first :: second :: rest).map Toggle.letter) := by
      rw [← String.ofList_append]
      rfl
    rw [htext] at hglued
    have hletters : Cluster.ofFlag (.switch first.switch) true
        (some (.ofList ((second :: rest).map Toggle.letter))) =
          .ok ⟨(first :: second :: rest).map Toggle.switch, none⟩ := by
      rw [Cluster.ofFlag, if_pos (by simp), String.toList_ofList]
      exact ofLetters_toggles first (second :: rest)
    exact reads_single hglued (Reading.follow_toggles hletters)

/-- Whatever the spelling, an item is read as its change of the options. -/
theorem reads (i : Item) : ReadsAs i.arguments (Reading.change i.apply) := by
  cases i with
  | assigned k name value hvalue =>
    obtain ⟨short, htoken⟩ := name.ofArgument_assigned value
    exact reads_single htoken (Reading.follow_attached hvalue short)
  | spaced k name value hvalue => exact reads_spaced name hvalue
  | glued k c value hletter hne heq hvalue =>
    have htoken := Token.ofArgument_glued hletter hne heq
    exact reads_single htoken (Reading.follow_attached hvalue true)
  | word t text hword =>
    have hone := ofLetters_toggles t []
    exact reads_single (Token.ofArgument_word hword) (Reading.follow_toggles hone)
  | cluster first more => exact reads_cluster first more

theorem reads_all (items : List Item) : ReadsAs (items.flatMap arguments)
    fun r => items.foldl (fun r i => r.change i.apply) r := by
  induction items with
  | nil => exact ReadsAs.nil
  | cons i rest ih => exact i.reads.append ih

/-- Items leave alone what operands came to, and the run of operands where none has begun. -/
theorem foldl_change (items : List Item) (r : Reading) :
    ∃ phase, (r.phase = .before → phase = .before) ∧
      items.foldl (fun r i => r.change i.apply) r =
        { r with options := items.foldl (fun o i => i.apply o) r.options, phase } := by
  induction items generalizing r with
  | nil => exact ⟨r.phase, id, rfl⟩
  | cons i rest ih =>
    obtain ⟨phase, hbefore, hrest⟩ := ih (r.change i.apply)
    refine ⟨phase, fun h => hbefore ?_, ?_⟩
    · rw [Reading.change, Reading.breakRun, h]
      exact h
    · rw [List.foldl_cons, hrest, Reading.change, Reading.breakRun_eq]
      rfl

end Item

/-! ## Command lines -/

/-- Items and one image: the image stands between two of them, or behind a `--` at the end. -/
inductive Layout
  | among (before after : List Item) (image : String) (himage : startsWith "-" image = false)
  | last (items : List Item) (image : String)

namespace Layout

def items : Layout → List Item
  | among before after _ _ => before ++ after
  | last items _ => items

def image : Layout → String
  | among _ _ image _ => image
  | last _ image => image

def arguments : Layout → List String
  | among before after image _ =>
    before.flatMap Item.arguments ++ image :: after.flatMap Item.arguments
  | last items image => items.flatMap Item.arguments ++ ["--", image]

theorem among_arguments (before after : List Item) (image : String)
    (himage : startsWith "-" image = false) :
    (among before after image himage).arguments =
      before.flatMap Item.arguments ++ ([image] ++ after.flatMap Item.arguments) := rfl

end Layout

theorem ReadsAs.read {xs rest : List String} {change : Reading → Reading} {tokens : List Token}
    (h : ReadsAs xs change) (hrest : Token.scan rest = .ok tokens) (o : Options) :
    Arguments.read o (xs ++ rest) =
      (Reading.follow tokens (change ⟨o, [], .before, []⟩)).bind Arguments.ofReading := by
  obtain ⟨ts, hscan, hfollow⟩ := h
  rw [Arguments.read, hscan, hrest, ← hfollow]
  rfl

/-- A laid out command line is read to its end, and each item counts once. -/
theorem Layout.read_arguments (l : Layout) :
    Arguments.read .standard l.arguments = .ok ⟨l.image, Item.options l.items⟩ := by
  rw [← Item.options_nil]
  cases l with
  | among before after image himage =>
    have hreads := (Item.reads_all before).append
      ((reads_operand himage).append (Item.reads_all after))
    -- The image is the first operand, as no run of operands begins among the items before it.
    obtain ⟨phase, hphase, hbefore⟩ :=
      Item.foldl_change before ⟨Item.options [], [], .before, []⟩
    cases hphase rfl
    have hrun : Reading.operand ⟨Item.options before, [], .before, []⟩ image =
        ⟨Item.options before, [image], .within, []⟩ := rfl
    obtain ⟨phase', -, hafter⟩ :=
      Item.foldl_change after ⟨Item.options before, [image], .within, []⟩
    rw [Layout.among_arguments, ← List.append_nil (_ ++ _), hreads.read rfl, hbefore,
      Item.foldl_apply, List.nil_append, hrun, hafter, Item.foldl_apply]
    rfl
  | last items image =>
    have hscan : Token.scan ["--", image] = .ok [.marker, .operand image] := rfl
    obtain ⟨phase, hphase, hitems⟩ :=
      Item.foldl_change items ⟨Item.options [], [], .before, []⟩
    cases hphase rfl
    rw [Layout.arguments, (Item.reads_all items).read hscan, hitems, Item.foldl_apply]
    rfl

/-- Items in any order and spelling, with one image among them or behind a `--`, are read to the
end. Of the values given to a flag the last counts, or all in order; the switches are counted. The
plan that results holds them all. -/
theorem readArguments_layout (l : Layout) (m : Machine) :
    readArguments l.arguments m = .ok ⟨l.image, Item.options l.items⟩ m ∧
      Arguments.plan ⟨l.image, Item.options l.items⟩ m = .ok
        { image := .ofString l.image
          fileType := .text (Item.lastGiven .fileType "binary" l.items)
          architecture := .text (Item.lastGiven .architecture "avr4" l.items)
          chip := .text (Item.lastGiven .chip "m88" l.items)
          includeDir := .ofString (Item.lastGiven .includeDir "/usr/share/avra" l.items)
          dataRanges := (Item.given .dataRange l.items).map .text
          labelFiles := (Item.given .labelFile l.items).map .text
          commentFiles := (Item.given .commentFile l.items).map .text
          keepTemps := decide (Toggle.keepTemps ∈ Item.toggled l.items) } m := by
  constructor
  · rw [readArguments, Layout.read_arguments]
    rfl
  · rfl

example : (Layout.among
    [.cluster .keepTemps [.verbose, .verbose],
      .spaced .fileType (.word "--int" (by decide)) "ihex" (by decide)]
    [.assigned .labelFile (.word "--label" (by decide)) "-a=b" (by decide),
      .glued .chip 'c' "m8" (by decide) (by decide) (by decide) (by decide)]
    "fw.bin" (by decide)).arguments =
      ["-tvv", "--int", "ihex", "fw.bin", "--label=-a=b", "-cm8"] := by decide

end FirmwareAudit
