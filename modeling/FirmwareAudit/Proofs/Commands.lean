import FirmwareAudit.Pipeline.Stages
import FirmwareAudit.Proofs.ArtifactNames

/-! # The words of the commands

Where the texts of a plan have no NUL byte, no word of a command has one. For the file with the
chip's definitions, whose path is read and joined first, this goes by the names of the path.
-/
namespace FirmwareAudit
open Text

namespace Text

theorem has_eq_false {c : Char} {s : String} : has c s = false ↔ c ∉ s.toList := by
  rw [has, List.contains_eq_mem, decide_eq_false_iff_not]

theorem mem_of_mem_pieces {sep c : Char} {cs piece : List Char} (hp : piece ∈ pieces sep cs)
    (hc : c ∈ piece) : c ∈ cs := by
  induction cs generalizing piece with
  | nil =>
    rw [pieces, List.mem_singleton] at hp
    exact hp ▸ hc
  | cons d rest ih =>
    unfold pieces at hp
    split at hp
    · rcases List.mem_cons.1 hp with rfl | hp
      · cases hc
      · exact List.mem_cons_of_mem _ (ih hp hc)
    · split at hp
      · rw [List.mem_singleton.1 hp, List.mem_singleton] at hc
        exact hc ▸ List.mem_cons_self
      · next first others he =>
        rcases List.mem_cons.1 hp with rfl | hp
        · rcases List.mem_cons.1 hc with rfl | hc
          · exact List.mem_cons_self
          · exact List.mem_cons_of_mem _ (ih (he ▸ List.mem_cons_self) hc)
        · exact List.mem_cons_of_mem _ (ih (he ▸ List.mem_cons_of_mem _ hp) hc)

theorem has_joinWith {c : Char} {sep : String} {words : List String} (hsep : has c sep = false)
    (h : ∀ w ∈ words, has c w = false) : has c (joinWith sep words) = false := by
  induction words with
  | nil => rfl
  | cons w rest ih =>
    have hw := h w List.mem_cons_self
    have hrest := ih fun v hv => h v (List.mem_cons_of_mem _ hv)
    cases rest with
    | nil => exact hw
    | cons v rest => rw [joinWith_cons_cons, has_append, has_append, hw, hsep, hrest]; rfl

end Text

namespace Path

/-- The names in a path read from a text have no character that the text does not have. -/
theorem has_of_mem_names {c : Char} {s : String} (h : has c s = false) :
    ∀ n ∈ (ofString s).names, has c n = false := by
  intro n hn
  obtain ⟨hn, -⟩ := List.mem_filter.1 hn
  obtain ⟨piece, hp, rfl⟩ := List.mem_map.1 hn
  rw [has_eq_false] at h ⊢
  rw [String.toList_ofList]
  exact fun hc => h (mem_of_mem_pieces hp hc)

/-- The text of a path has no characters but those of its names, slashes and a dot. -/
theorem has_toString {c : Char} (hc : c ∉ ['/', '.']) {p : Path}
    (h : ∀ n ∈ p.names, has c n = false) : has c p.toString = false := by
  have hslash : c ≠ '/' := fun he => hc (by simp [he])
  have hdot : c ≠ '.' := fun he => hc (by simp [he])
  unfold Path.toString
  split
  · simpa [has] using hdot
  · have hanchor : has c p.anchor.text = false := by
      cases p.anchor <;> simp [Anchor.text, has, hslash]
    have hsep : has c "/" = false := by simpa [has] using hslash
    rw [has_append, hanchor, has_joinWith hsep h]
    rfl

def NulFree (p : Path) : Prop := ∀ n ∈ p.names, has '\x00' n = false

theorem nulFree_ofString {s : String} (h : has '\x00' s = false) : (ofString s).NulFree :=
  has_of_mem_names h

theorem nulFree_of_toString {p : Path} (h : has '\x00' p.toString = false) : p.NulFree := by
  rw [← ofString_toString p]
  exact nulFree_ofString h

theorem NulFree.join {p q : Path} (hp : p.NulFree) (hq : q.NulFree) : (p.join q).NulFree := by
  unfold Path.join
  split
  · intro n hn
    rcases List.mem_append.1 hn with hn | hn
    · exact hp n hn
    · exact hq n hn
  · exact hq

theorem NulFree.toString {p : Path} (h : p.NulFree) : has '\x00' p.toString = false :=
  has_toString (by decide) h

end Path

namespace Plan

/-- The texts that the plan puts into commands. -/
def texts (p : Plan) : List String :=
  [p.image.toString, p.fileType.shown, p.architecture.shown, p.chip.shown, p.includeDir.toString] ++
    (p.dataRanges ++ p.labelFiles ++ p.commentFiles).map Setting.shown

def NulFree (p : Plan) : Prop := ∀ s ∈ p.texts, has '\x00' s = false

variable {p : Plan}

theorem NulFree.withEnding (h : p.NulFree) {e : String} (he : e ∈ Artifacts.endings) :
    has '\x00' (p.image.withEnding e).toString = false := by
  have hends : ∀ e ∈ Artifacts.endings, has '\x00' e = false := by decide
  rw [p.image.toString_withEnding (Artifacts.isEnding_of_mem he), has_append, hends e he,
    h _ (by simp [texts])]
  rfl

theorem NulFree.chipDefinitions (h : p.NulFree) : has '\x00' p.chipDefinitions.toString = false := by
  have hdir : p.includeDir.NulFree := Path.nulFree_of_toString (h _ (by simp [texts]))
  have hchip : has '\x00' (p.chip.shown ++ "def.inc") = false := by
    rw [has_append, h _ (by simp [texts])]
    decide
  exact (hdir.join (Path.nulFree_ofString hchip)).toString

theorem has_repeated {flag : String} {values : List Setting} (hf : has '\x00' flag = false)
    (h : ∀ v ∈ values, has '\x00' v.shown = false) :
    ∀ v ∈ repeated flag values, has '\x00' v.shown = false := by
  intro v hv
  obtain ⟨u, hu, hv⟩ := List.mem_flatMap.1 hv
  rcases List.mem_cons.1 hv with rfl | hv
  · exact hf
  · rw [List.mem_singleton.1 hv]
    exact h u hu

theorem NulFree.postprocessorFlags (h : p.NulFree) :
    ∀ v ∈ p.postprocessorFlags, has '\x00' v.shown = false := by
  have hvalue : ∀ v ∈ p.dataRanges ++ p.labelFiles ++ p.commentFiles,
      has '\x00' v.shown = false := by
    intro v hv
    exact h _ (List.mem_append_right _ (List.mem_map_of_mem hv))
  intro v hv
  unfold Plan.postprocessorFlags at hv
  rcases List.mem_append.1 hv with hv | hv
  · rcases List.mem_append.1 hv with hv | hv
    · exact has_repeated (by decide) (fun u hu => hvalue u (by simp [hu])) v hv
    · exact has_repeated (by decide) (fun u hu => hvalue u (by simp [hu])) v hv
  · exact has_repeated (by decide) (fun u hu => hvalue u (by simp [hu])) v hv

theorem NulFree.disassemblerArguments (h : p.NulFree) :
    ∀ w ∈ p.disassemblerArguments, has '\x00' w = false := by
  have htexts := h
  simp only [NulFree, texts, List.cons_append, List.forall_mem_cons] at htexts
  obtain ⟨himage, htype, harch, -⟩ := htexts
  have hflags : ∀ w ∈ ["-m", "-b", "-s", "-D"], has '\x00' w = false := by decide
  intro w hw
  simp only [Plan.disassemblerArguments, List.mem_cons, List.not_mem_nil, or_false] at hw
  rcases hw with rfl | rfl | rfl | rfl | rfl | rfl | rfl
  · exact hflags _ (by simp)
  · exact harch
  · exact hflags _ (by simp)
  · exact htype
  · exact hflags _ (by simp)
  · exact hflags _ (by simp)
  · exact himage

theorem NulFree.postprocessorArguments (h : p.NulFree) :
    ∀ w ∈ p.postprocessorArguments, has '\x00' w = false := by
  intro w hw
  unfold Plan.postprocessorArguments at hw
  rcases List.mem_append.1 hw with hw | hw
  · rcases List.mem_append.1 hw with hw | hw
    · rcases List.mem_cons.1 hw with rfl | hw
      · decide
      · rw [List.mem_singleton.1 hw]
        exact h.chipDefinitions
    · obtain ⟨v, hv, rfl⟩ := List.mem_map.1 hw
      exact h.postprocessorFlags v hv
  · rw [List.mem_singleton.1 hw]
    exact h.withEnding (by decide)

theorem NulFree.assemblerArguments (h : p.NulFree) :
    ∀ w ∈ p.assemblerArguments, has '\x00' w = false := by
  intro w hw
  simp only [Plan.assemblerArguments, List.mem_cons, List.not_mem_nil, or_false] at hw
  rcases hw with rfl | rfl | rfl
  · decide
  · exact h _ (by simp [texts])
  · exact h.withEnding (by decide)

theorem NulFree.converterArguments (h : p.NulFree) :
    ∀ w ∈ p.converterArguments, has '\x00' w = false := by
  have hflags : ∀ w ∈ ["-I", "ihex", "-O"], has '\x00' w = false := by decide
  intro w hw
  simp only [Plan.converterArguments, List.mem_cons, List.not_mem_nil, or_false] at hw
  rcases hw with rfl | rfl | rfl | rfl | rfl | rfl
  · exact hflags _ (by simp)
  · exact hflags _ (by simp)
  · exact hflags _ (by simp)
  · exact h _ (by simp [texts])
  · exact h.withEnding (by decide)
  · exact h.withEnding (by decide)

end Plan

end FirmwareAudit
