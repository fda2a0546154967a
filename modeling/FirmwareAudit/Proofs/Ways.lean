import FirmwareAudit.Proofs.ToolSearch

/-! # The same walk in two trees

Trees with the same directories may differ in their files. A walk takes the same turns in both and
ends at the same place, or fails in both; a file that only one of them has can make it fail for
another reason, and no more.
-/
namespace FirmwareAudit
open Text

namespace Errno

/-- The error says that there is nothing at a path. -/
def SaysAbsent (e : Errno) : Prop := e = .notFound ∨ e = .notDirectory

/-- The same error, or two that say that there is nothing. -/
def Alike (e e' : Errno) : Prop := e = e' ∨ e.SaysAbsent ∧ e'.SaysAbsent

theorem Alike.rfl {e : Errno} : e.Alike e := Or.inl (Eq.refl e)

theorem Alike.symm {e e' : Errno} (h : e.Alike e') : e'.Alike e := by
  rcases h with h | h
  · exact Or.inl h.symm
  · exact Or.inr h.symm

end Errno

/-- Both calls met a NUL byte, or errors alike. -/
def CallFault.Alike (fault fault' : CallFault) : Prop :=
  (fault = .nulByte ∧ fault' = .nulByte) ∨
    ∃ e e', fault = .errno e ∧ fault' = .errno e' ∧ e.Alike e'

namespace FileTree

/-- The trees have the same directories. -/
def SameDirectories (t t' : FileTree) : Prop :=
  ∀ l d, t.find? l = some (.directory d) ↔ t'.find? l = some (.directory d)

/-- There is something at a place in both trees, or in neither. -/
def BothAt (t t' : FileTree) (l : Location) : Prop := t.find? l = none ↔ t'.find? l = none

/-- All places on the way down to a location are directories. -/
def Rooted (t : FileTree) (here : Location) : Prop :=
  ∀ k, k <:+ here → k ≠ here → ∃ d, t.find? k = some (.directory d)

theorem rooted_nil (t : FileTree) : t.Rooted [] := by
  intro k hk hne
  exact absurd (List.suffix_nil.1 hk) hne

theorem Rooted.cons {t : FileTree} {here : Location} (h : t.Rooted here) {d : DirectoryNode}
    (hd : t.find? here = some (.directory d)) (name : String) : t.Rooted (name :: here) := by
  intro k hk hne
  rcases List.suffix_cons_iff.1 hk with rfl | hk
  · exact absurd rfl hne
  · by_cases hkh : k = here
    · exact ⟨d, hkh ▸ hd⟩
    · exact h k hk hkh

theorem Rooted.tail {t : FileTree} {here : Location} (h : t.Rooted here) : t.Rooted here.tail := by
  intro k hk hne
  refine h k (hk.trans (List.tail_suffix here)) ?_
  rintro rfl
  exact hne (hk.eq_of_length_le (by simp))

/-- The walks fail alike, or end at what is at the same place. -/
def WalksAlike (t t' : FileTree) (r r' : Except Errno Target) : Prop :=
  (∃ e e', r = .error e ∧ r' = .error e' ∧ e.Alike e') ∨
    ∃ l d, r = .ok (t.target l d) ∧ r' = .ok (t'.target l d)

theorem walksAlike_error {t t' : FileTree} (e : Errno) : t.WalksAlike t' (.error e) (.error e) :=
  Or.inl ⟨e, e, rfl, rfl, .rfl⟩

section
variable {t t' : FileTree} (hdirs : t.SameDirectories t')
include hdirs

/-- What is left of a walk that goes down to an entry of a directory. -/
theorem walk_entry {next : Location} {rest : List String} {d : DirectoryNode}
    (ih : t.BothAt t' next → t.WalksAlike t' (t.walk next rest) (t'.walk next rest)) :
    t.WalksAlike t'
      (match t.find? next with
        | some _ => t.walk next rest
        | none => if rest = [] then .ok (.vacant next d) else .error .notFound)
      (match t'.find? next with
        | some _ => t'.walk next rest
        | none => if rest = [] then .ok (.vacant next d) else .error .notFound) := by
  have habsent : Errno.notFound.Alike .notDirectory := Or.inr ⟨Or.inl rfl, Or.inr rfl⟩
  cases hn : t.find? next with
  | none =>
    cases hn' : t'.find? next with
    | none =>
      simp only
      split
      · exact Or.inr ⟨next, d, by rw [target, hn], by rw [target, hn']⟩
      · exact walksAlike_error _
    | some n' =>
      cases n' with
      | directory d' => exact absurd ((hdirs next d').2 hn') (by simp [hn])
      | file f' =>
        cases rest with
        | nil =>
          refine Or.inr ⟨next, d, by simp [target, hn], ?_⟩
          simp only [walk, target, hn']
        | cons name rest =>
          refine Or.inl ⟨.notFound, .notDirectory, by simp, ?_, habsent⟩
          simp only [walk, hn']
  | some n =>
    cases hn' : t'.find? next with
    | some n' => exact ih (by simp [BothAt, hn, hn'])
    | none =>
      cases n with
      | directory d' => exact absurd ((hdirs next d').1 hn) (by simp [hn'])
      | file f =>
        cases rest with
        | nil =>
          refine Or.inr ⟨next, d, ?_, by simp [target, hn']⟩
          simp only [walk, target, hn]
        | cons name rest =>
          refine Or.inl ⟨.notDirectory, .notFound, ?_, by simp, habsent.symm⟩
          simp only [walk, hn]

/-- A walk from a place that is there in both trees or in neither. -/
theorem walk_alike {here : Location} (hrooted : t.Rooted here) (hhere : t.BothAt t' here)
    (names : List String) : t.WalksAlike t' (t.walk here names) (t'.walk here names) := by
  induction names generalizing here with
  | nil =>
    unfold walk
    cases hn : t.find? here with
    | none =>
      rw [hhere.1 hn]
      exact walksAlike_error _
    | some n =>
      cases hn' : t'.find? here with
      | none => exact absurd (hhere.2 hn') (by simp [hn])
      | some n' => exact Or.inr ⟨here, .plain, by rw [target, hn], by rw [target, hn']⟩
  | cons name rest ih =>
    unfold walk
    cases hn : t.find? here with
    | none =>
      rw [hhere.1 hn]
      exact walksAlike_error _
    | some n =>
      cases n with
      | file f =>
        cases hn' : t'.find? here with
        | none => exact absurd (hhere.2 hn') (by simp [hn])
        | some n' =>
          cases n' with
          | file f' => exact walksAlike_error _
          | directory d => exact absurd ((hdirs here d).2 hn') (by simp [hn])
      | directory d =>
        rw [(hdirs here d).1 hn]
        simp only
        split
        · exact walksAlike_error _
        split
        · exact ih hrooted hhere
        split
        · refine ih hrooted.tail ?_
          by_cases hnil : here = []
          · rwa [hnil] at hhere ⊢
          · have hne : here.tail ≠ here := by
              intro h
              have hlen := congrArg List.length h
              have hpos := List.length_pos_of_ne_nil hnil
              rw [List.length_tail] at hlen
              omega
            obtain ⟨above, ha⟩ := hrooted here.tail (List.tail_suffix here) hne
            rw [BothAt, ha, (hdirs _ above).1 ha]
        split
        · exact walksAlike_error _
        · exact walk_entry hdirs (ih (hrooted.cons hn name))

/-- A path leads to the same place in both trees, or the call fails in both. -/
theorem resolve_alike (hroot : t.BothAt t' []) {cwd path : String}
    (hplace : t.BothAt t' (placeOf cwd path)) :
    (∃ fault fault', t.resolve cwd path = .error fault ∧ t'.resolve cwd path = .error fault' ∧
      fault.Alike fault') ∨
    ∃ d, t.resolve cwd path = .ok (t.target (placeOf cwd path) d) ∧
      t'.resolve cwd path = .ok (t'.target (placeOf cwd path) d) := by
  have herror (e e' : Errno) (h : e.Alike e') : (CallFault.errno e).Alike (.errno e') :=
    Or.inr ⟨e, e', rfl, rfl, h⟩
  unfold resolve
  by_cases hnul : has '\x00' path = true
  · rw [if_pos hnul, if_pos hnul]
    exact Or.inl ⟨_, _, rfl, rfl, Or.inl ⟨rfl, rfl⟩⟩
  rw [if_neg hnul, if_neg hnul]
  unfold follow
  by_cases hempty : path = ""
  · rw [if_pos hempty, if_pos hempty]
    exact Or.inl ⟨_, _, rfl, rfl, herror _ _ .rfl⟩
  rw [if_neg hempty, if_neg hempty]
  rcases walk_alike hdirs t.rooted_nil hroot (walkedNames cwd path) with
    ⟨e, e', he, he', halike⟩ | ⟨l, d, hw, hw'⟩
  · rw [he, he']
    exact Or.inl ⟨_, _, rfl, rfl, herror _ _ halike⟩
  · have hl : l = placeOf cwd path := by
      have h := location_of_walk hw
      rw [target] at h
      split at h <;> exact h
    subst hl
    rw [hw, hw']
    unfold target
    cases hn : t.find? (placeOf cwd path) with
    | none =>
      rw [hplace.1 hn]
      exact Or.inr ⟨d, rfl, rfl⟩
    | some n =>
      cases hn' : t'.find? (placeOf cwd path) with
      | none => exact absurd (hplace.2 hn') (by simp [hn])
      | some n' =>
        cases n with
        | directory k =>
          cases n' with
          | directory k' => exact Or.inr ⟨d, rfl, rfl⟩
          | file f' => exact absurd ((hdirs _ k).1 hn) (by simp [hn'])
        | file f =>
          cases n' with
          | directory k' => exact absurd ((hdirs _ k').2 hn') (by simp [hn])
          | file f' =>
            cases hend : endsIn ['/'] path with
            | true => exact Or.inl ⟨_, _, rfl, rfl, herror .notDirectory _ .rfl⟩
            | false => exact Or.inr ⟨d, rfl, rfl⟩

end
end FileTree
end FirmwareAudit
