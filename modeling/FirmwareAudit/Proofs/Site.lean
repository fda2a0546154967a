import FirmwareAudit.Proofs.Commands
import FirmwareAudit.Proofs.Logging
import FirmwareAudit.Proofs.Walks

/-! # The place where the artifacts lie

Each artifact of an image has a slot in the directory of the image. Two trees are kin if they are
alike off the slots, and at each slot as far as its standing says.
-/
namespace FirmwareAudit
open Text

namespace FileNode

/-- The file may be read, written and removed. -/
def Ordinary (f : FileNode) : Prop := f.readable = true ∧ f.writable = true ∧ f.stuck = none

end FileNode

namespace FileTree

/-- An ordinary file with this text is at the location. -/
def HasText (t : FileTree) (l : Location) (text : String) : Prop :=
  ∃ f, t.find? l = some (.file f) ∧ f.Ordinary ∧ f.text = text

def OrdinaryAt (t : FileTree) (l : Location) : Prop := ∃ text, t.HasText l text

/-- Nothing is in the way of a new file. -/
def FreeAt (t : FileTree) (l : Location) : Prop := t.find? l = none ∨ t.OrdinaryAt l

section
variable {t t' : FileTree} {l : Location} (h : t'.find? l = t.find? l)
include h

theorem hasText_congr (text : String) : t'.HasText l text ↔ t.HasText l text := by
  unfold HasText
  rw [h]

theorem freeAt_congr : t'.FreeAt l ↔ t.FreeAt l := by
  unfold FreeAt OrdinaryAt HasText
  rw [h]

end

end FileTree

/-- A machine on which nothing stands in the way of a pipeline with the usual tools: every tool is
found, the directory of the image may be searched and written, names of artifacts fit in, and at
each of their places is nothing or an ordinary file that no logger writes to. -/
structure Site (p : Pipeline) (m : Machine) where
  dir : Location
  node : DirectoryNode
  resolves : m.tree.resolve m.cwd p.plan.image.parent.toString = .ok (.node dir (.directory node))
  searchable : node.searchable = true
  writable : node.writable = true
  fits : ∀ e ∈ Artifacts.endings, (p.plan.image.stem ++ e).utf8ByteSize ≤ nameLimit
  free : ∀ e ∈ Artifacts.endings, m.tree.FreeAt ((p.plan.image.stem ++ e) :: dir)
  unlogged : ∀ h ∈ m.journal.openFiles, ∀ e ∈ Artifacts.endings,
    h.location ≠ (p.plan.image.stem ++ e) :: dir
  nulFree : p.plan.NulFree
  tools : p.toolchain.tools = Tool.required
  found : ∀ tool ∈ Tool.required,
    ∃ file, resolveProgram m.tree m.cwd m.searchPath tool.program = .ok file

/-- What is known of a slot: nothing, that it is empty, or that it holds a file with a certain text. -/
inductive Standing
  | stale
  | empty
  | settled (text : String)

/-- Two trees are at a location as its standing says. -/
def Standing.Holds (t₁ t₂ : FileTree) (l : Location) : Standing → Prop
  | stale => t₁.FreeAt l ∧ t₂.FreeAt l
  | empty => t₁.find? l = none ∧ t₂.find? l = none
  | settled text => t₁.HasText l text ∧ t₂.HasText l text

namespace Standing

/-- Whether there is a file for certain. -/
def isThere : Standing → Bool
  | settled _ => true
  | _ => false

variable {t₁ t₂ t₁' t₂' : FileTree} {l : Location} {x : Standing}

theorem Holds.free (h : x.Holds t₁ t₂ l) : t₁.FreeAt l ∧ t₂.FreeAt l := by
  cases x with
  | stale => exact h
  | empty => exact ⟨Or.inl h.1, Or.inl h.2⟩
  | settled text => exact ⟨Or.inr ⟨text, h.1⟩, Or.inr ⟨text, h.2⟩⟩

theorem Holds.file (h : x.Holds t₁ t₂ l) (hx : x.isThere = true) :
    ∃ f, t₁.find? l = some (.file f) ∧ f.Ordinary := by
  cases x with
  | stale => cases hx
  | empty => cases hx
  | settled text =>
    obtain ⟨⟨f, hf, ho, -⟩, -⟩ := h
    exact ⟨f, hf, ho⟩

theorem Holds.swap (h : x.Holds t₁ t₂ l) : x.Holds t₂ t₁ l := by
  cases x <;> exact ⟨h.2, h.1⟩

theorem Holds.left (h : x.Holds t₁ t₂ l) : x.Holds t₁ t₁ l := by
  cases x <;> exact ⟨h.1, h.1⟩

theorem Holds.congr (h : x.Holds t₁ t₂ l) (h₁ : t₁'.find? l = t₁.find? l)
    (h₂ : t₂'.find? l = t₂.find? l) : x.Holds t₁' t₂' l := by
  cases x with
  | stale => exact ⟨(FileTree.freeAt_congr h₁).2 h.1, (FileTree.freeAt_congr h₂).2 h.2⟩
  | empty => exact ⟨h₁.trans h.1, h₂.trans h.2⟩
  | settled text =>
    exact ⟨(FileTree.hasText_congr h₁ text).2 h.1, (FileTree.hasText_congr h₂ text).2 h.2⟩

end Standing

/-! ## Standings in the course of a run -/

/-- The standings with those of some endings changed. -/
def mark (σ : String → Standing) (es : List String) (x : String → Standing) : String → Standing :=
  fun e => if e ∈ es then x e else σ e

theorem mark_append (σ : String → Standing) (es fs : List String) (x : String → Standing) :
    mark (mark σ es x) fs x = mark σ (es ++ fs) x := by
  funext e
  unfold mark
  by_cases hf : e ∈ fs
  · rw [if_pos hf, if_pos (List.mem_append_right _ hf)]
  · by_cases he : e ∈ es
    · rw [if_neg hf, if_pos he, if_pos (List.mem_append_left _ he)]
    · rw [if_neg hf, if_neg he, if_neg (by simp [he, hf])]

theorem mark_nil (σ : String → Standing) (x : String → Standing) : mark σ [] x = σ := by
  funext e
  exact if_neg List.not_mem_nil

theorem mark_congr (σ : String → Standing) {es : List String} {x y : String → Standing}
    (h : ∀ e ∈ es, x e = y e) : mark σ es x = mark σ es y := by
  funext e
  unfold mark
  by_cases he : e ∈ es
  · rw [if_pos he, if_pos he, h e he]
  · rw [if_neg he, if_neg he]

theorem mark_mark (σ : String → Standing) (es : List String) (x y : String → Standing) :
    mark (mark σ es x) es y = mark σ es y := by
  funext e
  unfold mark
  by_cases he : e ∈ es
  · rw [if_pos he, if_pos he]
  · rw [if_neg he, if_neg he, if_neg he]

/-- The standings once some artifacts are used up, which stay where the plan keeps them. -/
def afterUse (keep : Bool) (σ : String → Standing) (es : List String) : String → Standing :=
  if keep then σ else mark σ es fun _ => .empty

/-- The artifacts that each stage makes and those that it uses up; the last stage is the verdict. -/
def turnover : List (List String × List String) :=
  [([".raw.asm"], []), ([".asm"], [".raw.asm"]),
    ([".hex", ".eep.hex", ".obj", ".cof"], [".asm", ".obj", ".cof", ".eep.hex"]),
    ([".reassembled"], [".hex"]), ([], [".reassembled"])]

/-- What is known of the artifacts after the first `n` stages, which give them the texts. -/
def standing (keep : Bool) (text : String → String) (n : Nat) : String → Standing :=
  (turnover.take n).foldl
    (fun σ row => afterUse keep (mark σ row.1 fun e => .settled (text e)) row.2) fun _ => .stale

namespace Site

variable {p : Pipeline} {m : Machine} (s : Site p m)

def slot (e : String) : Location := (p.plan.image.stem ++ e) :: s.dir

def IsSlot (l : Location) : Prop := ∃ e ∈ Artifacts.endings, l = s.slot e

theorem slot_injective {e e' : String} (h : s.slot e = s.slot e') : e = e' := by
  have hn : p.plan.image.stem ++ e = p.plan.image.stem ++ e' := (List.cons.inj h).1
  exact (String.append_right_inj _).1 hn

/-- What lies at a location is as it was at first, but for the text of a log file. -/
def Kept (t : FileTree) (l : Location) : Prop :=
  t.find? l = m.tree.find? l ∨
    (∃ h ∈ m.journal.openFiles, h.location = l) ∧
      ∃ f text, m.tree.find? l = some (.file f) ∧ t.find? l = some (.file { f with text })

/-- Two trees that a run of the pipeline can come to: alike off the slots, where they are as at first,
and at each slot as its standing says. -/
structure Kin (σ : String → Standing) (t₁ t₂ : FileTree) : Prop where
  alike : ∀ l, ¬ s.IsSlot l → t₂.find? l = t₁.find? l
  kept : ∀ l, ¬ s.IsSlot l → Kept (m := m) t₁ l
  holds : ∀ e ∈ Artifacts.endings, (σ e).Holds t₁ t₂ (s.slot e)

namespace Kin

variable {s} {σ : String → Standing} {t₁ t₂ : FileTree}

theorem swap (k : s.Kin σ t₁ t₂) : s.Kin σ t₂ t₁ where
  alike l hl := (k.alike l hl).symm
  kept l hl := by
    have h := k.kept l hl
    unfold Kept at h ⊢
    rwa [k.alike l hl]
  holds e he := (k.holds e he).swap

theorem left (k : s.Kin σ t₁ t₂) : s.Kin σ t₁ t₁ where
  alike _ _ := rfl
  kept := k.kept
  holds e he := (k.holds e he).left

/-- Changes at some slots make the new standing of these. -/
theorem update (k : s.Kin σ t₁ t₂) {es : List String} {x : String → Standing} {t₁' t₂' : FileTree}
    (hes : ∀ e ∈ es, e ∈ Artifacts.endings)
    (h₁ : ∀ l, (∀ e ∈ es, l ≠ s.slot e) → t₁'.find? l = t₁.find? l)
    (h₂ : ∀ l, (∀ e ∈ es, l ≠ s.slot e) → t₂'.find? l = t₂.find? l)
    (hx : ∀ e ∈ es, (x e).Holds t₁' t₂' (s.slot e)) : s.Kin (mark σ es x) t₁' t₂' where
  alike l hl := by
    have hne : ∀ e ∈ es, l ≠ s.slot e := fun e he h => hl ⟨e, hes e he, h⟩
    rw [h₁ l hne, h₂ l hne, k.alike l hl]
  kept l hl := by
    have hne : ∀ e ∈ es, l ≠ s.slot e := fun e he h => hl ⟨e, hes e he, h⟩
    have h := k.kept l hl
    unfold Kept at h ⊢
    rwa [h₁ l hne]
  holds e he := by
    unfold mark
    by_cases hm : e ∈ es
    · rw [if_pos hm]
      exact hx e hm
    · rw [if_neg hm]
      have hne : ∀ e' ∈ es, s.slot e ≠ s.slot e' := by
        intro e' he' h
        exact hm (s.slot_injective h ▸ he')
      exact (k.holds e he).congr (h₁ _ hne) (h₂ _ hne)

/-! ## What kin trees have in common with the first one -/

theorem not_directory_slot {t : FileTree} {l : Location} (h : t.FreeAt l) (d : DirectoryNode) :
    t.find? l ≠ some (.directory d) := by
  intro hd
  rcases h with h | ⟨text, f, h, -⟩
  · rw [h] at hd
    cases hd
  · rw [h] at hd
    cases hd

theorem directoriesIn (k : s.Kin σ t₁ t₂) : FileTree.DirectoriesIn m.tree t₁ := by
  intro l d hl
  by_cases hs : s.IsSlot l
  · obtain ⟨e, he, rfl⟩ := hs
    exact absurd hl (not_directory_slot (s.free e he) d)
  · rcases k.kept l hs with h | ⟨-, f, text, h, -⟩
    · rwa [h]
    · rw [h] at hl
      cases hl

theorem directoriesIn' (k : s.Kin σ t₁ t₂) : FileTree.DirectoriesIn t₁ m.tree := by
  intro l d hl
  by_cases hs : s.IsSlot l
  · obtain ⟨e, he, rfl⟩ := hs
    exact absurd hl (not_directory_slot (k.holds e he).free.1 d)
  · rcases k.kept l hs with h | ⟨-, f, text, -, h⟩
    · rwa [← h]
    · rw [h] at hl
      cases hl

theorem programsIn (k : s.Kin σ t₁ t₂) {name : String}
    (hn : ∀ e ∈ Artifacts.endings, name ≠ p.plan.image.stem ++ e) :
    FileTree.ProgramsIn name m.tree t₁ := by
  intro above f hf
  have hs : ¬ s.IsSlot (name :: above) := by
    rintro ⟨e, he, h⟩
    exact hn e he (List.cons.inj h).1
  rcases k.kept _ hs with h | ⟨-, g, text, h, h'⟩
  · exact ⟨f, h.trans hf, rfl⟩
  · rw [h] at hf
    cases hf
    exact ⟨_, h', rfl⟩

theorem programsIn' (k : s.Kin σ t₁ t₂) {name : String}
    (hn : ∀ e ∈ Artifacts.endings, name ≠ p.plan.image.stem ++ e) :
    FileTree.ProgramsIn name t₁ m.tree := by
  intro above f hf
  have hs : ¬ s.IsSlot (name :: above) := by
    rintro ⟨e, he, h⟩
    exact hn e he (List.cons.inj h).1
  rcases k.kept _ hs with h | ⟨-, g, text, h, h'⟩
  · exact ⟨f, h.symm.trans hf, rfl⟩
  · rw [h'] at hf
    cases hf
    exact ⟨g, h, rfl⟩

end Kin

end Site

end FirmwareAudit
