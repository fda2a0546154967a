import FirmwareAudit.CommandLine.Arguments

/-! # How flags are spelled

A flag may be written as its letter or as its word, and the word as far as no other flag's word
starts the same way. Each spelling is told apart from all others, alone, with a value behind an `=`,
and, for a letter, with a text right behind it.
-/
namespace FirmwareAudit
open Text

/-! ## Cutting at a character -/

theorem cutAt_of_not_mem {sep : Char} {cs : List Char} (h : sep ∉ cs) : cutAt sep cs = none := by
  induction cs with
  | nil => rfl
  | cons c cs ih =>
    rw [List.mem_cons, not_or] at h
    rw [cutAt, if_neg (Ne.symm h.1), ih h.2]

theorem cutAt_append {sep : Char} {xs : List Char} (h : sep ∉ xs) (ys : List Char) :
    cutAt sep (xs ++ sep :: ys) = some (xs, ys) := by
  induction xs with
  | nil => exact if_pos rfl
  | cons x xs ih =>
    rw [List.mem_cons, not_or] at h
    rw [List.cons_append, cutAt, if_neg (Ne.symm h.1), ih h.2]

theorem eq_of_cutAt {sep : Char} {cs xs ys : List Char} (h : cutAt sep cs = some (xs, ys)) :
    cs = xs ++ sep :: ys := by
  induction cs generalizing xs with
  | nil => cases h
  | cons c cs ih =>
    unfold cutAt at h
    split at h
    · next hc =>
      cases h
      rw [hc]
      rfl
    · split at h
      · next before behind hcut =>
        cases h
        rw [ih hcut]
        rfl
      · cases h

namespace Flag

/-! ## Names -/

/-- A beginning of the flag's word that no other flag's word has. -/
def HasWord (f : Flag) (word : String) : Prop :=
  ['-', '-'] <+: word.toList ∧ (∃ e ∈ spellings, e.2 = f ∧ word.toList <+: e.1.toList) ∧
    ∀ e ∈ spellings, word.toList <+: e.1.toList → e.2 = f

instance (f : Flag) (word : String) : Decidable (f.HasWord word) := by
  unfold HasWord
  infer_instance

/-- The flag's letter behind a dash. -/
def HasLetter (f : Flag) (c : Char) : Prop := ofLetter? c = some f

instance (f : Flag) (c : Char) : Decidable (f.HasLetter c) := by
  unfold HasLetter
  infer_instance

theorem mem_of_ofSpelling {s : String} {f : Flag} (h : ofSpelling? s = some f) :
    (s, f) ∈ spellings := by
  obtain ⟨before, behind, hs, -⟩ := List.lookup_eq_some_iff.1 h
  rw [hs]
  simp

/-- No spelling has a character that would set a value off. -/
theorem equals_not_mem {e : String × Flag} (he : e ∈ spellings) : '=' ∉ e.1.toList := by
  have hall : ∀ e ∈ spellings, '=' ∉ e.1.toList := by decide
  exact hall e he

theorem ofSpelling_of_equals {s : String} (h : '=' ∈ s.toList) : ofSpelling? s = none := by
  cases hs : ofSpelling? s with
  | none => rfl
  | some f => exact absurd h (equals_not_mem (mem_of_ofSpelling hs))

namespace HasWord
variable {f : Flag} {word : String} (h : f.HasWord word)
include h

theorem equals_not_mem : '=' ∉ word.toList := by
  obtain ⟨-, ⟨e, he, -, hpre⟩, -⟩ := h
  exact fun hmem => Flag.equals_not_mem he (hpre.subset hmem)

theorem toList_eq : ∃ rest, word.toList = '-' :: '-' :: rest := by
  obtain ⟨rest, hrest⟩ := h.1
  exact ⟨rest, hrest.symm⟩

theorem ofSpelling : ofSpelling? word = none ∨ ofSpelling? word = some f := by
  cases hs : ofSpelling? word with
  | none => exact Or.inl rfl
  | some g =>
    have hg : g = f := h.2.2 _ (mem_of_ofSpelling hs) (List.prefix_refl _)
    exact Or.inr (congrArg some hg)

/-- Exactly one spelling starts with the word. -/
theorem filter_spellings : ∃ name, isShort name.toList = false ∧
    (spellings.filter fun e => word.toList.isPrefixOf e.1.toList) = [(name, f)] := by
  obtain ⟨hdashes, ⟨e₀, he₀, hf, hpre⟩, honly⟩ := h
  have hlong : ∀ e ∈ spellings, ∀ e' ∈ spellings, ['-', '-'] <+: e.1.toList →
      ['-', '-'] <+: e'.1.toList → e.2 = e'.2 → e = e' := by decide
  have hone : ∀ e ∈ spellings, spellings.filter (fun e' => decide (e' = e)) = [e] := by decide
  have hshort : ∀ e ∈ spellings, ['-', '-'] <+: e.1.toList → isShort e.1.toList = false := by
    decide
  have hsame : ∀ e ∈ spellings, word.toList.isPrefixOf e.1.toList = decide (e = e₀) := by
    intro e he
    rw [Bool.eq_iff_iff, List.isPrefixOf_iff_prefix, decide_eq_true_eq]
    constructor
    · intro hw
      have hflag : e.2 = e₀.2 := (honly e he hw).trans hf.symm
      exact hlong e he e₀ he₀ (hdashes.trans hw) (hdashes.trans hpre) hflag
    · rintro rfl
      exact hpre
  refine ⟨e₀.1, hshort e₀ he₀ (hdashes.trans hpre), ?_⟩
  rw [List.filter_congr hsame, hone e₀ he₀, ← hf]

end HasWord

namespace HasLetter
variable {f : Flag} {c : Char} (h : f.HasLetter c)
include h

theorem ne_dash : c ≠ '-' := by
  rintro rfl
  cases h

theorem ne_equals : c ≠ '=' := by
  rintro rfl
  cases h

end HasLetter

/-- A spelling with one dash is a dash and a letter. -/
theorem length_of_short {e : String × Flag} (he : e ∈ spellings) (h : isShort e.1.toList = true) :
    e.1.toList.length = 2 := by
  have hall : ∀ e ∈ spellings, isShort e.1.toList = true → e.1.toList.length = 2 := by decide
  exact hall e he h

theorem ofSpelling_of_short {cs : List Char} (hs : isShort cs = true) (hl : cs.length ≠ 2) :
    ofSpelling? (.ofList cs) = none := by
  cases hf : ofSpelling? (.ofList cs) with
  | none => rfl
  | some f =>
    have hlen := length_of_short (mem_of_ofSpelling hf) (by rwa [String.toList_ofList])
    rw [String.toList_ofList] at hlen
    exact absurd hlen hl

end Flag

namespace Token

/-! ## Words -/

theorem ofArgument_of_dash {argument : String} {c : Char} {rest : List Char}
    (h : argument.toList = '-' :: c :: rest) :
    ofArgument argument =
      match Flag.ofSpelling? argument with
      | some f => .ok (.flag f (isShort ('-' :: c :: rest)) none)
      | none =>
        match ofAssignment? argument with
        | some token => .ok token
        | none => ofAbbreviation argument := by
  unfold ofArgument
  rw [h]
  rfl

section Words
variable {f : Flag} {word : String} (h : f.HasWord word)
include h

theorem ofArgument_word : ofArgument word = .ok (.flag f false none) := by
  obtain ⟨rest, hrest⟩ := h.toList_eq
  rw [ofArgument_of_dash hrest]
  rcases h.ofSpelling with hs | hs
  · have hcut := cutAt_of_not_mem h.equals_not_mem
    have hassign : ofAssignment? word = none := by
      rw [ofAssignment?, hcut]
      rfl
    obtain ⟨name, hname, hfilter⟩ := h.filter_spellings
    have hfits : Fit.all word.toList = [⟨name, f, none⟩] := by
      rw [Fit.all, hrest, if_neg (by simp [isShort]), ← hrest, Fit.byWord, hcut]
      simp only [hfilter, List.map_singleton]
    simp only [hs, hassign, ofAbbreviation, hfits, Fit.token, hname]
  · simp only [hs]
    rfl

theorem ofArgument_word_assigned (value : String) :
    ofArgument (word ++ "=" ++ value) = .ok (.flag f false (some value)) := by
  obtain ⟨rest, hrest⟩ := h.toList_eq
  have htext : (word ++ "=" ++ value).toList = word.toList ++ '=' :: value.toList := by simp
  have hstart : (word ++ "=" ++ value).toList = '-' :: '-' :: (rest ++ '=' :: value.toList) := by
    rw [htext, hrest]
    rfl
  have hnone : Flag.ofSpelling? (word ++ "=" ++ value) = none :=
    Flag.ofSpelling_of_equals (by simp [htext])
  have hcut := cutAt_append h.equals_not_mem value.toList
  rw [ofArgument_of_dash hstart, hnone]
  have hassign : ofAssignment? (word ++ "=" ++ value) =
      (Flag.ofSpelling? word).map fun g => .flag g (isShort word.toList) (some value) := by
    rw [ofAssignment?, htext, hcut]
    simp only [Option.bind_eq_bind, Option.bind_some, String.ofList_toList]
    cases Flag.ofSpelling? word <;> rfl
  rcases h.ofSpelling with hs | hs
  · obtain ⟨name, hname, hfilter⟩ := h.filter_spellings
    have hfits : Fit.all (word ++ "=" ++ value).toList = [⟨name, f, some value⟩] := by
      rw [Fit.all, hstart, if_neg (by simp [isShort]), ← hstart, htext, Fit.byWord, hcut]
      simp only [hfilter, List.map_singleton, String.ofList_toList]
    simp only [hassign, hs, Option.map_none, ofAbbreviation, hfits, Fit.token, hname]
  · rw [hassign, hs, hrest]
    rfl

end Words

/-! ## Letters -/

section Letters
variable {f : Flag} {c : Char} (h : f.HasLetter c)
include h

theorem isShort_letter (rest : List Char) : isShort ('-' :: c :: rest) = true := by
  unfold isShort
  split
  · next heq =>
    exact absurd (List.cons.inj (List.cons.inj heq).2).1 h.ne_dash
  · rfl

theorem ofArgument_letter : ofArgument (.ofList ['-', c]) = .ok (.flag f true none) := by
  have hs : Flag.ofSpelling? (.ofList ['-', c]) = some f := h
  rw [ofArgument_of_dash (String.toList_ofList), hs, isShort_letter h]

theorem ofArgument_letter_assigned (value : String) :
    ofArgument (.ofList ['-', c] ++ "=" ++ value) = .ok (.flag f true (some value)) := by
  have htext : (String.ofList ['-', c] ++ "=" ++ value).toList =
      ['-', c] ++ '=' :: value.toList := by simp
  have hnone : Flag.ofSpelling? (.ofList ['-', c] ++ "=" ++ value) = none :=
    Flag.ofSpelling_of_equals (by simp)
  have hnot : '=' ∉ ['-', c] := by simp [h.ne_equals.symm]
  have hassign : ofAssignment? (.ofList ['-', c] ++ "=" ++ value) =
      some (.flag f true (some value)) := by
    have hs : Flag.ofSpelling? (.ofList ['-', c]) = some f := h
    rw [ofAssignment?, htext, cutAt_append hnot]
    simp only [Option.bind_eq_bind, Option.bind_some, hs, isShort_letter h, String.ofList_toList]
    rfl
  rw [ofArgument_of_dash htext, hnone, hassign]

/-- A text right behind the letter comes with it. -/
theorem ofArgument_glued {text : String} (hne : text ≠ "") (heq : startsWith "=" text = false) :
    ofArgument (.ofList ['-', c] ++ text) = .ok (.flag f true (some text)) := by
  have htext : (String.ofList ['-', c] ++ text).toList = '-' :: c :: text.toList := by simp
  have hlong : ('-' :: c :: text.toList).length ≠ 2 := by
    intro hl
    have hnil : text.toList = [] := List.eq_nil_of_length_eq_zero (by simpa using hl)
    exact hne (String.toList_eq_nil_iff.1 hnil)
  have hstring : String.ofList ['-', c] ++ text = .ofList ('-' :: c :: text.toList) := by
    rw [← String.ofList_toList (s := String.ofList ['-', c] ++ text), htext]
  have hnone : Flag.ofSpelling? (.ofList ['-', c] ++ text) = none := by
    rw [hstring]
    exact Flag.ofSpelling_of_short (isShort_letter h _) hlong
  -- Before an `=` in the text stands more than the letter.
  have hassign : ofAssignment? (.ofList ['-', c] ++ text) = none := by
    rw [ofAssignment?, htext]
    cases hcut : cutAt '=' ('-' :: c :: text.toList) with
    | none => rfl
    | some parts =>
      obtain ⟨before, behind⟩ := parts
      have hspelling : Flag.ofSpelling? (.ofList before) = none := by
        have hparts := eq_of_cutAt hcut
        rcases before with _ | ⟨a, _ | ⟨b, _ | ⟨d, more⟩⟩⟩ <;>
          simp only [List.nil_append, List.cons_append, List.cons.injEq] at hparts
        · exact absurd hparts.1 (by decide)
        · exact absurd hparts.2.1 h.ne_equals
        · rw [startsWith, hparts.2.2] at heq
          cases heq
        · obtain ⟨rfl, rfl, -⟩ := hparts
          exact Flag.ofSpelling_of_short (isShort_letter h _) (by simp)
      simp only [Option.bind_eq_bind, Option.bind_some, hspelling, Option.bind_none]
  have hletter : Flag.ofSpelling? (.ofList ['-', c]) = some f := h
  have hfits : Fit.all (String.ofList ['-', c] ++ text).toList =
      [⟨.ofList ['-', c], f, some text⟩] := by
    rw [htext, Fit.all, if_pos (isShort_letter h _), Fit.byLetter]
    simp only [List.take_succ_cons, List.take_zero, List.drop_succ_cons, List.drop_zero, hletter,
      String.ofList_toList]
  have hshort : isShort (String.ofList ['-', c]).toList = true := by
    rw [String.toList_ofList]
    exact isShort_letter h []
  rw [ofArgument_of_dash htext, hnone, hassign]
  simp only [ofAbbreviation, hfits, Fit.token, hshort]

end Letters

/-! ## Operands -/

theorem ofArgument_operand {text : String} (h : startsWith "-" text = false) :
    ofArgument text = .ok (.operand text) := by
  unfold ofArgument
  split
  · next c rest heq =>
    rw [startsWith, heq] at h
    cases h
  · rfl

end Token

end FirmwareAudit
