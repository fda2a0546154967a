/-! # Splitting and joining text

Text is cut at every occurrence of one character and joined again around a separator. Cutting
always leaves at least one piece, and joining the pieces around the character gives the text back.
-/
namespace FirmwareAudit.Text

/-- The pieces of a text between the occurrences of `sep`. -/
def pieces (sep : Char) : List Char → List (List Char)
  | [] => [[]]
  | c :: cs =>
    if c = sep then [] :: pieces sep cs
    else
      match pieces sep cs with
      | [] => [[c]]
      | piece :: rest => (c :: piece) :: rest

theorem pieces_ne_nil (sep : Char) (cs : List Char) : pieces sep cs ≠ [] := by
  cases cs with
  | nil => simp [pieces]
  | cons c cs =>
    unfold pieces
    split
    · simp
    · split <;> simp

theorem not_mem_of_mem_pieces {sep : Char} {cs piece : List Char} (h : piece ∈ pieces sep cs) :
    sep ∉ piece := by
  induction cs generalizing piece with
  | nil => simp_all [pieces]
  | cons c cs ih =>
    unfold pieces at h
    split at h
    · rcases List.mem_cons.1 h with rfl | h
      · simp
      · exact ih h
    · next hc =>
      split at h
      · simp only [List.mem_singleton] at h
        subst h
        simpa using fun h => hc h.symm
      · next piece' rest hp =>
        rcases List.mem_cons.1 h with rfl | h
        · have := ih (by rw [hp]; exact List.mem_cons_self)
          simpa using ⟨fun h => hc h.symm, this⟩
        · exact ih (by rw [hp]; exact List.mem_cons_of_mem _ h)

/-- The pieces of a string between the occurrences of `sep`. -/
def splitAt (sep : Char) (s : String) : List String :=
  (pieces sep s.toList).map String.ofList

theorem pieces_of_not_mem {sep : Char} {cs : List Char} (h : sep ∉ cs) : pieces sep cs = [cs] := by
  induction cs with
  | nil => rfl
  | cons c cs ih =>
    rw [List.mem_cons, not_or] at h
    unfold pieces
    rw [if_neg (Ne.symm h.1), ih h.2]

theorem pieces_append_sep (sep : Char) (xs ys : List Char) :
    pieces sep (xs ++ sep :: ys) = pieces sep xs ++ pieces sep ys := by
  induction xs with
  | nil => simp [pieces]
  | cons x xs ih =>
    by_cases hx : x = sep
    · simp [pieces, hx, ih]
    · simp only [List.cons_append, pieces, if_neg hx, ih]
      cases hp : pieces sep xs with
      | nil => exact absurd hp (pieces_ne_nil sep xs)
      | cons piece rest => rfl

theorem splitAt_of_not_mem {sep : Char} {s : String} (h : sep ∉ s.toList) :
    splitAt sep s = [s] := by
  rw [splitAt, pieces_of_not_mem h, List.map_singleton, String.ofList_toList]

/-- Strings with the separator between them are cut one after the other. -/
theorem splitAt_append_sep (sep : Char) (s t : String) :
    splitAt sep (s ++ .ofList [sep] ++ t) = splitAt sep s ++ splitAt sep t := by
  have h : (s ++ .ofList [sep] ++ t).toList = s.toList ++ sep :: t.toList := by simp
  rw [splitAt, h, pieces_append_sep, List.map_append]
  rfl

theorem splitAt_append_slash (s t : String) :
    splitAt '/' (s ++ "/" ++ t) = splitAt '/' s ++ splitAt '/' t :=
  splitAt_append_sep '/' s t

/-- The strings of a list one after the other, with `sep` between neighbours. -/
def joinWith (sep : String) : List String → String
  | [] => ""
  | [s] => s
  | s :: rest => s ++ sep ++ joinWith sep rest

@[simp] theorem joinWith_nil (sep : String) : joinWith sep [] = "" := rfl

@[simp] theorem joinWith_singleton (sep s : String) : joinWith sep [s] = s := rfl

theorem joinWith_cons_cons (sep s t : String) (rest : List String) :
    joinWith sep (s :: t :: rest) = s ++ sep ++ joinWith sep (t :: rest) := rfl

/-- Cutting at the slashes takes joined names apart again. -/
theorem splitAt_joinWith {names : List String} (hne : names ≠ [])
    (h : ∀ n ∈ names, '/' ∉ n.toList) : splitAt '/' (joinWith "/" names) = names := by
  induction names with
  | nil => exact absurd rfl hne
  | cons n rest ih =>
    have hn := splitAt_of_not_mem (h n List.mem_cons_self)
    cases rest with
    | nil => exact hn
    | cons m rest =>
      rw [joinWith_cons_cons, splitAt_append_slash, hn,
        ih (List.cons_ne_nil _ _) fun k hk => h k (List.mem_cons_of_mem _ hk)]
      rfl

theorem joinWith_concat_append (sep : String) (names : List String) (n e : String) :
    joinWith sep (names ++ [n ++ e]) = joinWith sep (names ++ [n]) ++ e := by
  induction names with
  | nil => rfl
  | cons m rest ih =>
    cases rest with
    | nil => simp [joinWith_cons_cons, String.append_assoc]
    | cons k rest =>
      simp only [List.cons_append] at ih ⊢
      rw [joinWith_cons_cons, joinWith_cons_cons, ih, ← String.append_assoc]

/-- A string ends in the given characters. -/
def endsIn (ending : List Char) (s : String) : Bool :=
  ending.isSuffixOf s.toList

/-- A string starts with the given one. -/
def startsWith (start s : String) : Bool :=
  start.toList.isPrefixOf s.toList

/-- A string has the given character somewhere. -/
def has (c : Char) (s : String) : Bool :=
  s.toList.contains c

theorem has_append (c : Char) (s t : String) : has c (s ++ t) = (has c s || has c t) := by
  simp [has, String.toList_append, Bool.decide_or]

end FirmwareAudit.Text
