import FirmwareAudit.Proofs.Logging
import Mathlib.Data.List.Infix

/-! # The ancestry of a logger

A dotted name lies under each of its beginnings that a dot follows, and under the root. The parents
of a logger, one after the other, are loggers that it lies under. They pass no such logger by, save
where two dots adjoin, or where one was there before a logger whose name starts the root's.
-/
namespace FirmwareAudit
open Text

namespace Journal

/-- The name goes on with a dot behind the other one. -/
def IsBelow (name outer : String) : Prop := (outer ++ ".").toList <+: name.toList

instance (name outer : String) : Decidable (IsBelow name outer) := by
  unfold IsBelow; infer_instance

/-- The second name is the first one, or stands in front of one of its dots, or is the root's. -/
def LiesUnder (name outer : String) : Prop :=
  isRoot outer = true ∨ name = outer ∨ IsBelow name outer

instance (name outer : String) : Decidable (LiesUnder name outer) := by
  unfold LiesUnder; infer_instance

theorem IsBelow.length_lt {name outer : String} (h : IsBelow name outer) :
    outer.length < name.length := by
  have hlength := h.length_le
  simp only [String.toList_append, List.length_append, String.length_toList] at hlength
  exact hlength

theorem IsBelow.not_isRoot {name outer : String} (h : IsBelow name outer) : isRoot name = false := by
  have hdot : '.' ∈ name.toList := h.subset (by simp)
  rw [Bool.eq_false_iff]
  intro hroot
  simp only [isRoot, Bool.or_eq_true, decide_eq_true_eq] at hroot
  rcases hroot with rfl | rfl <;> revert hdot <;> decide

theorem IsBelow.trans {name outer above : String} (h : IsBelow name outer) (h' : IsBelow outer above) :
    IsBelow name above := by
  refine List.IsPrefix.trans h' (List.IsPrefix.trans ?_ h)
  rw [String.toList_append]
  exact List.prefix_append _ _

/-- Of two names that one lies below, the shorter one lies above the longer one. -/
theorem IsBelow.of_length_lt {name outer above : String} (h : IsBelow name outer)
    (h' : IsBelow name above) (hlength : above.length < outer.length) : IsBelow outer above := by
  have houter : outer.toList <+: name.toList := by
    refine List.IsPrefix.trans ?_ h
    rw [String.toList_append]
    exact List.prefix_append _ _
  refine List.prefix_of_prefix_length_le h' houter ?_
  simp only [String.toList_append, List.length_append, String.length_toList]
  exact hlength

theorem LiesUnder.refl (name : String) : LiesUnder name name := Or.inr (Or.inl rfl)

/-- Only the root lies above the root. -/
theorem LiesUnder.isRoot_of {name outer : String} (h : LiesUnder name outer)
    (hroot : isRoot name = true) : isRoot outer = true := by
  rcases h with h | rfl | h
  · exact h
  · exact hroot
  · rw [h.not_isRoot] at hroot
    cases hroot

theorem LiesUnder.trans {name outer above : String} (h : LiesUnder name outer)
    (h' : LiesUnder outer above) : LiesUnder name above := by
  rcases h with hroot | rfl | hbelow
  · exact Or.inl (h'.isRoot_of hroot)
  · exact h'
  · rcases h' with hroot | rfl | hbelow'
    · exact Or.inl hroot
    · exact Or.inr (Or.inr hbelow)
    · exact Or.inr (Or.inr (hbelow.trans hbelow'))

/-- No name lies under one that is below it. -/
theorem IsBelow.not_liesUnder {name outer above : String} (h : IsBelow name outer)
    (h' : LiesUnder outer above) : ¬ LiesUnder above name := by
  intro hback
  have hlt := h.length_lt
  rcases h'.trans hback with hroot | rfl | hbelow
  · rw [h.not_isRoot] at hroot
    cases hroot
  · exact Nat.lt_irrefl _ hlt
  · exact Nat.lt_asymm hlt hbelow.length_lt

/-! ## The names in front of the dots -/

/-- What the outer names of a name read backwards are: beginnings that a dot follows. -/
theorem exists_of_mem_outerNames {cs o : List Char} (h : o ∈ outerNames cs) :
    ∃ inner, cs = inner ++ '.' :: o.reverse := by
  induction cs using outerNames.induct with
  | case1 => cases h
  | case2 c above ih =>
    rw [outerNames] at h
    rcases List.mem_cons.1 h with rfl | h
    · exact ⟨[], by simp⟩
    · obtain ⟨inner, rfl⟩ := ih h
      exact ⟨'.' :: c :: inner, rfl⟩
  | case3 d rest hcut ih =>
    rw [outerNames] at h
    · obtain ⟨inner, rfl⟩ := ih h
      exact ⟨d :: inner, rfl⟩
    · exact hcut

/-- A beginning that a dot follows is found, unless it is empty, or dots adjoin behind it. -/
theorem mem_outerNames {cs inner o : List Char} (hdots : ¬ ['.', '.'] <:+: inner ++ ['.'])
    (h : cs = inner ++ '.' :: o.reverse) (ho : o ≠ []) : o ∈ outerNames cs := by
  induction cs using outerNames.induct generalizing inner with
  | case1 => simp at h
  | case2 c above ih =>
    rw [outerNames]
    cases inner with
    | nil =>
      rw [List.nil_append, List.cons.injEq] at h
      rw [h.2, List.reverse_reverse]
      exact List.mem_cons_self
    | cons d inner =>
      obtain ⟨rfl, hrest⟩ := List.cons.inj h
      cases inner with
      | nil =>
        exact absurd (List.infix_refl _) hdots
      | cons d' inner =>
        obtain ⟨-, habove⟩ : c = d' ∧ above = inner ++ '.' :: o.reverse := List.cons.inj hrest
        refine List.mem_cons_of_mem _ (ih (fun hi => hdots ?_) habove)
        exact hi.trans ⟨['.', d'], [], by simp⟩
  | case3 d rest hcut ih =>
    rw [outerNames]
    · cases inner with
      | nil =>
        obtain ⟨rfl, rfl⟩ := List.cons.inj h
        cases hr : o.reverse with
        | nil => exact absurd (List.reverse_eq_nil_iff.1 hr) ho
        | cons c above => exact absurd hr (hcut c above rfl)
      | cons d' inner =>
        obtain ⟨-, h⟩ := List.cons.inj h
        refine ih (fun hi => hdots ?_) h
        exact hi.trans ⟨[d'], [], by simp⟩
    · exact hcut

/-- The outer names come the longest first. -/
theorem pairwise_outerNames (cs : List Char) :
    (outerNames cs).Pairwise fun o o' => o'.length < o.length := by
  induction cs using outerNames.induct with
  | case1 => exact .nil
  | case2 c above ih =>
    rw [outerNames]
    refine List.pairwise_cons.2 ⟨fun o ho => ?_, ih⟩
    obtain ⟨inner, rfl⟩ := exists_of_mem_outerNames ho
    simp
  | case3 d rest hcut ih =>
    rw [outerNames]
    · exact ih
    · exact hcut

/-! ## Parents -/

/-- The logger is the root, or is known. -/
def Has (j : Journal) (name : String) : Prop :=
  isRoot name = true ∨ (j.named.lookup name).isSome = true

theorem has_register (j : Journal) (name : String) : (j.register name).Has name := by
  unfold Has register
  cases hroot : isRoot name with
  | true => exact Or.inl rfl
  | false =>
    right
    cases hl : j.named.lookup name with
    | some l => simp [hl]
    | none => simp [List.lookup_append, hl]

variable {j : Journal} {name outer : String}

theorem Has.register (h : j.Has outer) (name : String) : (j.register name).Has outer := by
  refine h.imp id fun hl => ?_
  unfold Journal.register
  split
  · exact hl
  · obtain ⟨l, hl⟩ := Option.isSome_iff_exists.1 hl
    simp [List.lookup_append, hl]

theorem lookup_of_adopts (h : j.adopts name outer = true) : (j.named.lookup outer).isSome = true := by
  unfold adopts at h
  exact (Bool.and_eq_true_iff.1 h).1

/-- A logger is adopted by one above it, if that has a name that does not start the root's, or was
there before. -/
theorem adopts_of_lookup (h : (j.named.lookup outer).isSome = true)
    (hage : startsWith outer rootName = true → j.position outer ≤ j.position name) :
    j.adopts name outer = true := by
  unfold adopts
  rw [h, Bool.true_and, Bool.not_eq_true', Bool.and_eq_false_iff, decide_eq_false_iff_not]
  cases hs : startsWith outer rootName with
  | false => exact Or.inl rfl
  | true => exact Or.inr (Nat.not_lt.2 (hage hs))

theorem isBelow_of_mem_outerNames {o : List Char} (h : o ∈ outerNames name.toList.reverse) :
    IsBelow name (String.ofList o) := by
  obtain ⟨inner, hname⟩ := exists_of_mem_outerNames h
  refine ⟨inner.reverse, ?_⟩
  rw [List.reverse_eq_iff] at hname
  rw [hname]
  simp

theorem mem_outerNames_of_isBelow (hdots : ¬ ['.', '.'] <:+: name.toList.drop outer.length)
    (h : IsBelow name outer) (hroot : isRoot outer = false) :
    outer.toList ∈ outerNames name.toList.reverse := by
  obtain ⟨inner, hname⟩ := h
  have hreverse : name.toList.reverse = inner.reverse ++ '.' :: outer.toList.reverse := by
    rw [← hname]
    simp
  have hsingle : ¬ ['.', '.'] <:+: inner.reverse ++ ['.'] := by
    intro hi
    rw [← List.reverse_infix] at hi
    refine hdots ?_
    rw [← hname, String.toList_append, List.append_assoc, ← String.length_toList, List.drop_left]
    simpa using hi
  refine mem_outerNames hsingle hreverse fun hnil => ?_
  rw [String.toList_eq_nil_iff.1 hnil] at hroot
  cases hroot

/-- A parent is known, and the logger lies below it. -/
theorem of_parentName? (h : j.parentName? name = some outer) :
    (j.named.lookup outer).isSome = true ∧ IsBelow name outer := by
  unfold parentName? at h
  obtain ⟨o, ho, rfl⟩ := List.mem_map.1 (List.mem_of_find?_eq_some h)
  exact ⟨lookup_of_adopts (List.find?_some h), isBelow_of_mem_outerNames ho⟩

/-- The parent of a logger passes no logger by that adopts it. -/
theorem exists_parentName? (hdots : ¬ ['.', '.'] <:+: name.toList.drop outer.length)
    (h : IsBelow name outer) (hroot : isRoot outer = false) (hadopts : j.adopts name outer = true) :
    ∃ parent, j.parentName? name = some parent ∧ LiesUnder parent outer := by
  have hmem : outer ∈ (outerNames name.toList.reverse).map String.ofList :=
    List.mem_map.2 ⟨_, mem_outerNames_of_isBelow hdots h hroot, String.ofList_toList⟩
  have hsorted : ((outerNames name.toList.reverse).map String.ofList).Pairwise
      fun o o' => o'.length < o.length := by
    rw [List.pairwise_map]
    simpa using pairwise_outerNames name.toList.reverse
  have hsome : (j.parentName? name).isSome = true :=
    List.find?_isSome.2 ⟨outer, hmem, hadopts⟩
  obtain ⟨parent, hparent⟩ := Option.isSome_iff_exists.1 hsome
  refine ⟨parent, hparent, ?_⟩
  obtain ⟨-, before, behind, hsplit, hbefore⟩ := List.find?_eq_some_iff_append.1 hparent
  rw [hsplit] at hmem hsorted
  rcases List.mem_append.1 hmem with hm | hm
  · have hnot := hbefore outer hm
    rw [hadopts] at hnot
    cases hnot
  · rcases List.mem_cons.1 hm with rfl | hm
    · exact .refl _
    · have hlength := (List.pairwise_cons.1 (List.pairwise_append.1 hsorted).2.1).1 outer hm
      exact Or.inr (Or.inr ((of_parentName? hparent).2.of_length_lt h hlength))

/-- The parents of the first logger, one after the other, lead to the second one; the root is above
them all. -/
inductive Leads (j : Journal) : String → String → Prop
  | root {name outer : String} (h : isRoot outer = true) : Leads j name outer
  | here (name : String) : Leads j name name
  | up {name parent outer : String} (h : j.parentName? name = some parent)
      (rest : Leads j parent outer) : Leads j name outer

theorem Leads.liesUnder (h : j.Leads name outer) : LiesUnder name outer := by
  induction h with
  | root h => exact Or.inl h
  | here name => exact .refl name
  | up h rest ih => exact LiesUnder.trans (Or.inr (Or.inr (of_parentName? h).2)) ih

/-- The logger was there before every one that lies under it and that the name lies under. -/
def Precedes (j : Journal) (name outer : String) : Prop :=
  ∀ between, j.Has between → LiesUnder name between → IsBelow between outer →
    j.position outer < j.position between

theorem exists_mem_of_lookup (h : (j.named.lookup name).isSome = true) : ∃ l, (name, l) ∈ j.named := by
  obtain ⟨l, hl⟩ := Option.isSome_iff_exists.1 h
  obtain ⟨before, behind, hsplit, -⟩ := List.lookup_eq_some_iff.1 hl
  exact ⟨l, by simp [hsplit]⟩

theorem position_le_register (j : Journal) (other name : String) :
    j.position name ≤ (j.register other).position name := by
  unfold register
  split
  · exact Nat.le_refl _
  · simp only [position, List.findIdx_append]
    split
    · exact Nat.le_refl _
    · exact Nat.le_trans List.findIdx_le_length (Nat.le_add_left _ _)

/-- A known logger stays in its position. -/
theorem position_register {other : String} (h : (j.named.lookup name).isSome = true) :
    (j.register other).position name = j.position name := by
  obtain ⟨l, hl⟩ := exists_mem_of_lookup h
  have hlt : j.named.findIdx (·.1 == name) < j.named.length :=
    List.findIdx_lt_length.2 ⟨(name, l), hl, beq_self_eq_true name⟩
  unfold register
  split
  · rfl
  · simp only [position, List.findIdx_append, if_pos hlt]

theorem Precedes.of_register {other : String} (h : (j.register other).Precedes name outer) :
    j.Precedes name outer := by
  intro between hhas hunder hbelow
  have hknown := hhas.resolve_left (by simp [hbelow.not_isRoot])
  calc j.position outer ≤ (j.register other).position outer := j.position_le_register other outer
    _ < (j.register other).position between := h between (hhas.register other) hunder hbelow
    _ = j.position between := position_register hknown

theorem mem_of_startsWith_rootName (h : startsWith outer rootName = true)
    (hroot : isRoot outer = false) : outer ∈ ["r", "ro", "roo"] := by
  have hinits : outer.toList ∈ rootName.toList.inits :=
    (List.mem_inits _ _).2 (List.isPrefixOf_iff_prefix.1 h)
  have hall : ∀ cs ∈ rootName.toList.inits,
      isRoot (String.ofList cs) = false → String.ofList cs ∈ ["r", "ro", "roo"] := by decide
  have hmem := hall _ hinits
  rw [String.ofList_toList] at hmem
  exact hmem hroot

/-- The parents of a logger lead to each known one that it lies under. -/
theorem leads_of_liesUnder (hname : j.Has name) (hunder : LiesUnder name outer) (houter : j.Has outer)
    (hdots : isRoot outer = false → ¬ ['.', '.'] <:+: name.toList.drop outer.length)
    (hage : outer ∈ ["r", "ro", "roo"] → j.Precedes name outer) : j.Leads name outer := by
  rcases houter with hroot | hknown
  · exact .root hroot
  by_cases hroot : isRoot outer = true
  · exact .root hroot
  rw [Bool.not_eq_true] at hroot
  specialize hdots hroot
  -- A parent is shorter than the name, and the logger precedes whatever the parent lies under.
  induction hlength : name.length using Nat.strongRecOn generalizing name with
  | ind n ih =>
    rcases hunder with hr | rfl | hbelow
    · rw [hroot] at hr
      cases hr
    · exact .here name
    · have hadopts : j.adopts name outer = true :=
        adopts_of_lookup hknown fun hs => Nat.le_of_lt <|
          hage (mem_of_startsWith_rootName hs hroot) name hname (.refl name) hbelow
      obtain ⟨parent, hparent, hunder⟩ := exists_parentName? hdots hbelow hroot hadopts
      obtain ⟨hknown', hbelow'⟩ := of_parentName? hparent
      have hstart : parent.toList <+: name.toList := by
        have hlonger := hbelow'
        rw [IsBelow, String.toList_append] at hlonger
        exact (List.prefix_append _ _).trans hlonger
      have hlt := hbelow'.length_lt
      refine .up hparent (ih parent.length (hlength ▸ hlt) (Or.inr hknown') hunder
        (fun hi => hdots (hi.trans (hstart.drop _).isInfix)) (fun hs between hb hu => ?_) rfl)
      exact hage hs between hb (LiesUnder.trans (Or.inr (Or.inr hbelow')) hu)

/-! ## The lineage -/

/-- The loggers that are not longer than a name: as many as there are steps left from it. -/
def room (j : Journal) (name : String) : Nat :=
  (j.named.filter fun e => e.1.length ≤ name.length).length

theorem room_pos (h : (j.named.lookup name).isSome = true) : 0 < j.room name := by
  obtain ⟨l, hl⟩ := exists_mem_of_lookup h
  exact List.length_pos_of_mem (List.mem_filter.2 ⟨hl, by simp⟩)

theorem room_lt (h : (j.named.lookup name).isSome = true) (hlength : outer.length < name.length) :
    j.room outer < j.room name := by
  obtain ⟨l, hl⟩ := exists_mem_of_lookup h
  have hfilter : j.named.filter (fun e => e.1.length ≤ outer.length) =
      (j.named.filter fun e => e.1.length ≤ name.length).filter fun e =>
        e.1.length ≤ outer.length := by
    rw [List.filter_filter]
    refine List.filter_congr fun e _ => ?_
    simp only [← Bool.decide_and]
    congr 1
    simp only [eq_iff_iff]
    omega
  unfold room
  rw [hfilter, List.length_filter_lt_length_iff_exists]
  exact ⟨(name, l), List.mem_filter.2 ⟨hl, by simp⟩, by simpa using hlength⟩

theorem lineageWithin_of_isRoot (hroot : isRoot name = true) (fuel : Nat) :
    j.lineageWithin fuel name = [j.root] := by
  cases fuel <;> simp [lineageWithin, hroot]

theorem lineageWithin_of_none (hroot : isRoot name = false) (h : j.parentName? name = none)
    (fuel : Nat) : j.lineageWithin (fuel + 1) name = [j.logger name, j.root] := by
  simp [lineageWithin, hroot, h]

theorem lineageWithin_of_some {parent : String} (h : j.parentName? name = some parent) (fuel : Nat) :
    j.lineageWithin (fuel + 1) name = j.logger name :: j.lineageWithin fuel parent := by
  simp [lineageWithin, (of_parentName? h).2.not_isRoot, h]

/-- A lineage ends in the root; what stands before it is fresh if what the name lies under is. -/
theorem lineageWithin_root {fuel : Nat}
    (hfresh : ∀ between, LiesUnder name between → isRoot between = false →
      j.logger between = .fresh) :
    ∃ below, j.lineageWithin fuel name = below ++ [j.root] ∧ ∀ l ∈ below, l = .fresh := by
  induction fuel generalizing name with
  | zero => exact ⟨[], rfl, nofun⟩
  | succ fuel ih =>
    cases hroot : isRoot name with
    | true => exact ⟨[], lineageWithin_of_isRoot hroot _, nofun⟩
    | false =>
      have hhere := hfresh name (.refl name) hroot
      cases hparent : j.parentName? name with
      | none =>
        exact ⟨[j.logger name], lineageWithin_of_none hroot hparent fuel, by simpa using hhere⟩
      | some parent =>
        have hunder : LiesUnder name parent := Or.inr (Or.inr (of_parentName? hparent).2)
        obtain ⟨below, hlineage, hbelow⟩ :=
          ih fun between hb hr => hfresh between (hunder.trans hb) hr
        refine ⟨j.logger name :: below, ?_, List.forall_mem_cons.2 ⟨hhere, hbelow⟩⟩
        rw [lineageWithin_of_some hparent, hlineage, List.cons_append]

theorem lineageWithin_of_leads {fuel : Nat} (h : j.Leads name outer) (hname : j.Has name)
    (hroom : j.room name ≤ fuel)
    (hfresh : ∀ between, LiesUnder name between → ¬ LiesUnder outer between →
      j.logger between = .fresh) :
    ∃ below above, j.lineageWithin fuel name = below ++ j.logger outer :: above ∧
      ∀ l ∈ below, l = .fresh := by
  -- Each step up leaves less room, so that the steps do not run out before the logger is reached.
  induction h generalizing fuel with
  | root hroot =>
    obtain ⟨below, hlineage, hbelow⟩ : ∃ below, j.lineageWithin fuel _ = below ++ [j.root] ∧ _ := by
      refine lineageWithin_root fun between hb hr => hfresh between hb fun hu => ?_
      rw [hu.isRoot_of hroot] at hr
      cases hr
    exact ⟨below, [], by simpa [logger, hroot] using hlineage, hbelow⟩
  | here name =>
    rcases hname with hroot | hknown
    · exact ⟨[], [], by simp [lineageWithin_of_isRoot hroot, logger, hroot], nofun⟩
    · have hpos := Nat.lt_of_lt_of_le (room_pos hknown) hroom
      cases fuel with
      | zero => cases hpos
      | succ fuel =>
        unfold lineageWithin
        split
        · next hroot => exact ⟨[], [], by simp [logger, hroot], nofun⟩
        · exact ⟨[], _, rfl, nofun⟩
  | up hparent rest ih =>
    obtain ⟨hknown, hbelow⟩ := of_parentName? hparent
    have hknown' := hname.resolve_left (by simp [hbelow.not_isRoot])
    have hlt := Nat.lt_of_lt_of_le (room_lt hknown' hbelow.length_lt) hroom
    cases fuel with
    | zero => cases hlt
    | succ fuel =>
      have hhere := hfresh _ (.refl _) (hbelow.not_liesUnder rest.liesUnder)
      obtain ⟨below, above, hlineage, hall⟩ := ih (Or.inr hknown) (Nat.le_of_lt_succ hlt)
        fun between hb => hfresh between (LiesUnder.trans (Or.inr (Or.inr hbelow)) hb)
      refine ⟨_ :: below, above, ?_, List.forall_mem_cons.2 ⟨hhere, hall⟩⟩
      rw [lineageWithin_of_some hparent, hlineage, List.cons_append]

/-- Fresh loggers add no handlers. -/
theorem handlersAlong_append {below above : List Logger} (h : ∀ l ∈ below, l = .fresh) :
    handlersAlong (below ++ above) = handlersAlong above := by
  induction below with
  | nil => rfl
  | cons l below ih =>
    obtain ⟨rfl, hbelow⟩ := List.forall_mem_cons.1 h
    exact ih hbelow

/-- Fresh loggers leave it to those above which level passes. -/
theorem find?_level_append {below above : List Logger} (h : ∀ l ∈ below, l = .fresh) :
    ((below ++ above).map (·.level)).find? (· ≠ 0) = (above.map (·.level)).find? (· ≠ 0) := by
  induction below with
  | nil => rfl
  | cons l below ih =>
    obtain ⟨rfl, hbelow⟩ := List.forall_mem_cons.1 h
    exact ih hbelow

/-- Where the parents of a logger lead to one that passes nothing on, with nothing but fresh loggers
between, that one has all the say. -/
theorem say_of_leads (h : j.Leads name outer) (hname : j.Has name)
    (hfresh : ∀ between, LiesUnder name between → ¬ LiesUnder outer between →
      j.logger between = .fresh) (hlast : (j.logger outer).passesOn = false)
    (hlevel : (j.logger outer).level ≠ 0) :
    j.handlersOf name = (j.logger outer).handlers ∧ j.threshold name = (j.logger outer).level := by
  obtain ⟨below, above, hlineage, hall⟩ :=
    lineageWithin_of_leads h hname (List.length_filter_le _ _) hfresh
  unfold handlersOf threshold lineage
  rw [hlineage, handlersAlong_append hall, find?_level_append hall]
  simp [handlersAlong, hlast, hlevel]

end Journal

end FirmwareAudit
