import FirmwareAudit.Plan
import Mathlib.Data.List.Nodup

/-! # The names of the artifacts

A path reads back from its text, and an ending put behind the text of a path becomes part of its
last name and of nothing else. So the artifacts of an image lie beside it under names that differ
from each other.
-/
namespace FirmwareAudit
open Text

namespace Path

theorem eq_of_parts {p q : Path} (ha : p.anchor = q.anchor) (hn : p.names = q.names) : p = q := by
  cases p
  cases q
  simp_all

theorem namesOf_append_slash (s t : String) : namesOf (s ++ "/" ++ t) = namesOf s ++ namesOf t := by
  simp only [namesOf, splitAt_append_slash, List.filter_append]

theorem namesOf_joinWith {names : List String} (hne : names ≠ []) (h : ∀ n ∈ names, IsName n) :
    namesOf (joinWith "/" names) = names := by
  rw [namesOf, splitAt_joinWith hne fun n hn => (h n hn).2.2]
  refine List.filter_eq_self.2 fun n hn => ?_
  have hname := h n hn
  simp [hname.1, hname.2.1]

theorem slashes_joinWith {names : List String} (h : ∀ n ∈ names, IsName n) :
    (joinWith "/" names).toList.takeWhile (· = '/') = [] := by
  cases names with
  | nil => rfl
  | cons n rest =>
    have hn := h n List.mem_cons_self
    have hc : ∃ c cs, n.toList = c :: cs ∧ c ≠ '/' := by
      cases hl : n.toList with
      | nil => exact absurd (String.toList_eq_nil_iff.1 hl) hn.1
      | cons c cs => exact ⟨c, cs, rfl, fun hc => hn.2.2 (by simp [hl, hc])⟩
    obtain ⟨c, cs, hl, hc⟩ := hc
    cases rest with
    | nil => simp [hl, hc]
    | cons m rest => simp [joinWith_cons_cons, hl, hc]

theorem ofString_text (anchor : Anchor) {names : List String} (hne : names ≠ [])
    (h : ∀ n ∈ names, IsName n) :
    ofString (anchor.text ++ joinWith "/" names) = ⟨anchor, names, h⟩ := by
  have hs := slashes_joinWith h
  have hn := namesOf_joinWith hne h
  apply eq_of_parts
  · cases anchor <;> simp [ofString, Anchor.text, hs, Anchor.ofSlashes]
  · cases anchor with
    | relative => simpa [ofString, Anchor.text] using hn
    | root =>
      have hr := namesOf_append_slash "" (joinWith "/" names)
      rw [hn, show namesOf "" = [] from rfl] at hr
      simpa [ofString, Anchor.text] using hr
    | doubleRoot =>
      have hr := namesOf_append_slash "/" (joinWith "/" names)
      rw [hn, show namesOf "/" = [] from rfl] at hr
      simpa [ofString, Anchor.text] using hr

theorem toString_of_ne_nil {p : Path} (h : p.names ≠ []) :
    p.toString = p.anchor.text ++ joinWith "/" p.names := by
  rw [toString, if_neg fun hp => h hp.2]

theorem ofString_toString (p : Path) : ofString p.toString = p := by
  by_cases h : p.names = []
  · obtain ⟨anchor, names, hnames⟩ := p
    subst h
    have ha : (ofString (toString ⟨anchor, [], hnames⟩)).anchor = anchor := by
      cases anchor <;> simp [toString, Anchor.text, ofString, Anchor.ofSlashes]
    have hn : (ofString (toString ⟨anchor, [], hnames⟩)).names = [] := by
      cases anchor <;> simp [toString, Anchor.text, ofString, namesOf, splitAt, pieces]
    exact eq_of_parts ha hn
  · rw [toString_of_ne_nil h, ofString_text p.anchor h p.isName]

theorem toString_injective {p q : Path} (h : p.toString = q.toString) : p = q := by
  rw [← ofString_toString p, h, ofString_toString]

/-- What an ending is put behind: the last name, or the text of a path without names. -/
def stem (p : Path) : String :=
  p.names.getLast?.getD (if p.anchor = .relative then "." else "")

theorem slash_not_mem_stem (p : Path) : '/' ∉ p.stem.toList := by
  unfold stem
  cases h : p.names.getLast? with
  | none =>
    rw [Option.getD_none]
    split <;> decide
  | some n =>
    rw [Option.getD_some]
    exact (p.isName n (List.mem_of_getLast? h)).2.2

theorem toString_append (p : Path) (e : String) :
    p.toString ++ e = p.anchor.text ++ joinWith "/" (p.names.dropLast ++ [p.stem ++ e]) := by
  by_cases h : p.names = []
  · obtain ⟨anchor, names, hnames⟩ := p
    subst h
    cases anchor <;> simp [toString, stem, Anchor.text]
  · have hs : p.stem = p.names.getLast h := by simp [stem, List.getLast?_eq_some_getLast h]
    rw [toString_of_ne_nil h, hs, joinWith_concat_append, List.dropLast_concat_getLast h,
      String.append_assoc]

end Path

/-- An ending that makes a name of whatever it is put behind. -/
def IsEnding (e : String) : Prop := '/' ∉ e.toList ∧ 3 ≤ e.length

instance (e : String) : Decidable (IsEnding e) := by unfold IsEnding; infer_instance

namespace IsEnding

theorem ne_of_length {s e : String} (he : IsEnding e) {short : String} (h : short.length ≤ 2) :
    s ++ e ≠ short := by
  intro hs
  have hl := congrArg String.length hs
  rw [String.length_append] at hl
  have := he.2
  omega

theorem isName_append {s e : String} (he : IsEnding e) (hs : '/' ∉ s.toList) : IsName (s ++ e) := by
  refine ⟨he.ne_of_length (by decide), he.ne_of_length (by decide), ?_⟩
  rw [String.toList_append, List.mem_append, not_or]
  exact ⟨hs, he.1⟩

end IsEnding

namespace Path

theorem isName_beside {p : Path} {e : String} (he : IsEnding e) :
    ∀ n ∈ p.names.dropLast ++ [p.stem ++ e], IsName n := by
  intro n hn
  rcases List.mem_append.1 hn with hn | hn
  · exact p.isName n (List.dropLast_subset _ hn)
  · rw [List.mem_singleton.1 hn]
    exact he.isName_append p.slash_not_mem_stem

/-- The ending goes into the last name; the names before it stay. -/
theorem withEnding_eq (p : Path) {e : String} (he : IsEnding e) :
    p.withEnding e = ⟨p.anchor, p.names.dropLast ++ [p.stem ++ e], isName_beside he⟩ := by
  rw [withEnding, toString_append, ofString_text p.anchor (by simp) (isName_beside he)]

theorem toString_withEnding (p : Path) {e : String} (he : IsEnding e) :
    (p.withEnding e).toString = p.toString ++ e := by
  rw [withEnding_eq p he, toString_of_ne_nil (by simp), toString_append]

theorem parent_withEnding (p : Path) {e : String} (he : IsEnding e) :
    (p.withEnding e).parent = p.parent := by
  rw [withEnding_eq p he]
  apply eq_of_parts
  · rfl
  · simp [parent]

theorem withEnding_injective (p : Path) {e e' : String} (he : IsEnding e) (he' : IsEnding e')
    (h : p.withEnding e = p.withEnding e') : e = e' := by
  have ht := congrArg toString h
  rw [toString_withEnding p he, toString_withEnding p he'] at ht
  exact String.append_right_inj p.toString |>.1 ht

end Path

namespace Artifacts

theorem isEnding_of_mem {e : String} (h : e ∈ endings) : IsEnding e := by
  have hall : ∀ e ∈ endings, IsEnding e := by decide
  exact hall e h

theorem nodup_all (image : Path) : (ofImage image).all.Nodup := by
  rw [all_ofImage]
  refine List.Nodup.map_on ?_ (by decide)
  intro e he e' he' h
  exact image.withEnding_injective (isEnding_of_mem he) (isEnding_of_mem he') h

theorem toString_of_mem_all {image f : Path} (h : f ∈ (ofImage image).all) :
    ∃ e ∈ endings, f = image.withEnding e ∧ f.toString = image.toString ++ e := by
  rw [all_ofImage] at h
  obtain ⟨e, he, rfl⟩ := List.mem_map.1 h
  exact ⟨e, he, rfl, image.toString_withEnding (isEnding_of_mem he)⟩

end Artifacts

end FirmwareAudit
