import FirmwareAudit.Proofs.Site

/-! # System calls on slots

On kin trees a call on the path of an artifact has the same outcome and leaves kin trees.
-/
namespace FirmwareAudit
open Text

namespace FileTree

theorem find?_append_self (t : FileTree) (h : Handle) (text : String) :
    (t.append h text).find? h.location =
      match t.find? h.location with
      | some (.file f) =>
        if f.stamp = h.stamp then some (.file { f with text := f.text ++ text }) else some (.file f)
      | n => n := by
  unfold append
  cases hf : t.find? h.location with
  | none => exact hf
  | some n =>
    cases n with
    | directory d => exact hf
    | file f =>
      by_cases hs : f.stamp = h.stamp
      · simp [hs]
      · simp [hs, hf]

end FileTree

namespace Site

variable {p : Pipeline} {m : Machine} {s : Site p m}

/-! ## Programs -/

theorem program_ne_slot {tool : Tool} (ht : tool ∈ Tool.required) {stem e : String}
    (he : e ∈ Artifacts.endings) : tool.program ≠ stem ++ e := by
  have hprogram : ∀ tool ∈ Tool.required, '.' ∉ tool.program.toList := by decide
  have hending : ∀ e ∈ Artifacts.endings, '.' ∈ e.toList := by decide
  intro h
  refine hprogram tool ht ?_
  rw [h, String.toList_append]
  exact List.mem_append_right _ (hending e he)

namespace Kin

variable {σ : String → Standing} {t₁ t₂ : FileTree}

theorem resolveProgram_eq (k : s.Kin σ t₁ t₂) {tool : Tool} (ht : tool ∈ Tool.required)
    {file : String} (h : resolveProgram m.tree m.cwd m.searchPath tool.program = .ok file) :
    resolveProgram t₁ m.cwd m.searchPath tool.program = .ok file := by
  have hall : ∀ tool ∈ Tool.required, IsName tool.program ∧ tool.program ≠ ".." := by decide
  obtain ⟨hn, hup⟩ := hall tool ht
  have hslot : ∀ e ∈ Artifacts.endings, tool.program ≠ p.plan.image.stem ++ e :=
    fun e he => program_ne_slot ht he
  exact FileTree.resolveProgram_congr k.directoriesIn k.directoriesIn' (k.programsIn hslot)
    (k.programsIn' hslot) hn hup h

theorem find?_dir (k : s.Kin σ t₁ t₂) : t₁.find? s.dir = some (.directory s.node) :=
  k.directoriesIn s.dir s.node (FileTree.find?_of_resolve s.resolves)

theorem resolve_slot (k : s.Kin σ t₁ t₂) {e : String} (he : e ∈ Artifacts.endings) :
    t₁.resolve m.cwd (p.plan.image.withEnding e).toString = .ok (t₁.target (s.slot e) s.node) :=
  FileTree.resolve_withEnding (FileTree.resolve_node k.directoriesIn s.resolves k.find?_dir rfl)
    s.searchable (Artifacts.isEnding_of_mem he) (s.fits e he) (s.nulFree.withEnding he)

/-! ## One tree -/

theorem open_slot (k : s.Kin σ t₁ t₂) {e : String} (he : e ∈ Artifacts.endings) :
    ∃ h t', t₁.openForWriting m.cwd (p.plan.image.withEnding e).toString .truncate = .ok (h, t') ∧
      (∀ l, l ≠ s.slot e → t'.find? l = t₁.find? l) ∧ h.location = s.slot e ∧
      ∃ f, t'.find? (s.slot e) = some (.file f) ∧ f.stamp = h.stamp ∧ f.Ordinary ∧ f.text = "" := by
  have hr := k.resolve_slot he
  unfold FileTree.openForWriting
  rw [hr, FileTree.target]
  rcases (k.holds e he).free.1 with hnone | ⟨text, f, hf, ho, -⟩
  · have hend : endsIn ['/'] (p.plan.image.withEnding e).toString = false := by
      rw [p.plan.image.toString_withEnding (Artifacts.isEnding_of_mem he)]
      exact FileTree.not_endsIn_slash (Artifacts.isEnding_of_mem he)
    simp only [hnone, hend, s.writable, Bool.false_eq_true, if_false, if_true]
    refine ⟨_, _, rfl, ?_, rfl, _, FileTree.find?_create_self _ _ _, rfl, ⟨rfl, rfl, rfl⟩, rfl⟩
    exact fun l hl => FileTree.find?_create_of_ne _ _ hl
  · simp only [hf, ho.2.1, if_true]
    refine ⟨_, _, rfl, ?_, rfl, _, FileTree.find?_set_self _ _ _, rfl,
      ⟨ho.1, rfl, ho.2.2⟩, rfl⟩
    exact fun l hl => FileTree.find?_set_of_ne _ _ hl

theorem unlink_slot (k : s.Kin σ t₁ t₂) {e : String} (he : e ∈ Artifacts.endings)
    (hs : (σ e).isThere = true) :
    ∃ t', t₁.unlink m.cwd (p.plan.image.withEnding e).toString = .ok t' ∧
      (∀ l, l ≠ s.slot e → t'.find? l = t₁.find? l) ∧ t'.find? (s.slot e) = none := by
  have hr := k.resolve_slot he
  obtain ⟨f, hf, ho⟩ := (k.holds e he).file hs
  have hparent : t₁.parentWritable (s.slot e) = true := by
    rw [FileTree.parentWritable, slot, List.tail_cons, k.find?_dir]
    exact s.writable
  unfold FileTree.unlink
  rw [hr, FileTree.target]
  simp only [hf, ho.2.2, hparent, if_true]
  refine ⟨_, rfl, ?_, FileTree.find?_erase_self _ _⟩
  exact fun l hl => FileTree.find?_erase_of_ne _ hl

theorem probe_slot (k : s.Kin σ t₁ t₂) {e : String} (he : e ∈ Artifacts.endings) :
    t₁.probe m.cwd (p.plan.image.withEnding e).toString = .ok (t₁.find? (s.slot e)) := by
  have hr := k.resolve_slot he
  unfold FileTree.probe FileTree.status
  rw [hr, FileTree.target]
  cases t₁.find? (s.slot e) <;> rfl

/-! ## Both trees -/

theorem append_log (k : s.Kin σ t₁ t₂) {h : Handle} (hh : h ∈ m.journal.openFiles)
    (text : String) : s.Kin σ (t₁.append h text) (t₂.append h text) where
  alike l hl := by
    by_cases he : l = h.location
    · subst he
      rw [FileTree.find?_append_self, FileTree.find?_append_self, k.alike _ hl]
    · rw [FileTree.find?_append_of_ne _ _ _ he, FileTree.find?_append_of_ne _ _ _ he, k.alike l hl]
  -- A log file may be written again and again, and only its text differs from the first one's.
  kept l hl := by
    have hk := k.kept l hl
    by_cases he : l = h.location
    · subst he
      unfold Kept at hk ⊢
      rw [FileTree.find?_append_self]
      cases hf : t₁.find? h.location with
      | none =>
        rw [hf] at hk
        exact hk
      | some n =>
        rw [hf] at hk
        cases n with
        | directory d => exact hk
        | file f =>
          simp only
          split
          · refine Or.inr ⟨⟨h, hh, rfl⟩, ?_⟩
            rcases hk with hk | ⟨-, g, text', hg, hg'⟩
            · exact ⟨f, _, hk.symm, rfl⟩
            · cases hg'
              exact ⟨g, _, hg, rfl⟩
          · exact hk
    · unfold Kept at hk ⊢
      rwa [FileTree.find?_append_of_ne _ _ _ he]
  holds e he := by
    have hne : s.slot e ≠ h.location := fun hl => s.unlogged h hh e he hl.symm
    exact (k.holds e he).congr (FileTree.find?_append_of_ne _ _ _ hne)
      (FileTree.find?_append_of_ne _ _ _ hne)

theorem appendEach_log (k : s.Kin σ t₁ t₂) (line : String) {files : List Handle}
    (hf : ∀ f ∈ files, f ∈ m.journal.openFiles) :
    s.Kin σ (t₁.appendEach line files) (t₂.appendEach line files) := by
  induction files generalizing t₁ t₂ with
  | nil => exact k
  | cons f rest ih =>
    exact ih (k.append_log (hf f List.mem_cons_self) line)
      fun g hg => hf g (List.mem_cons_of_mem _ hg)

/-- A handle is open on the file in a slot. -/
def Reaches (s : Site p m) (e : String) (t : FileTree) (h : Handle) : Prop :=
  h.location = s.slot e ∧ ∃ f, t.find? (s.slot e) = some (.file f) ∧ f.stamp = h.stamp

theorem open_both (k : s.Kin σ t₁ t₂) {e : String} (he : e ∈ Artifacts.endings) :
    ∃ h₁ h₂ t₁' t₂',
      t₁.openForWriting m.cwd (p.plan.image.withEnding e).toString .truncate = .ok (h₁, t₁') ∧
      t₂.openForWriting m.cwd (p.plan.image.withEnding e).toString .truncate = .ok (h₂, t₂') ∧
      Reaches s e t₁' h₁ ∧ Reaches s e t₂' h₂ ∧
      s.Kin (mark σ [e] fun _ => .settled "") t₁' t₂' := by
  obtain ⟨h₁, t₁', hr₁, hne₁, hl₁, f₁, hf₁, hs₁, ho₁, ht₁⟩ := k.open_slot he
  obtain ⟨h₂, t₂', hr₂, hne₂, hl₂, f₂, hf₂, hs₂, ho₂, ht₂⟩ := k.swap.open_slot he
  refine ⟨h₁, h₂, t₁', t₂', hr₁, hr₂, ⟨hl₁, f₁, hf₁, hs₁⟩, ⟨hl₂, f₂, hf₂, hs₂⟩, ?_⟩
  refine k.update ?_ (fun l hl => hne₁ l (hl e List.mem_cons_self))
    (fun l hl => hne₂ l (hl e List.mem_cons_self)) ?_
  · intro e' he'
    rwa [List.mem_singleton.1 he']
  · intro e' he'
    rw [List.mem_singleton.1 he']
    exact ⟨⟨f₁, hf₁, ho₁, ht₁⟩, f₂, hf₂, ho₂, ht₂⟩

/-- The same text through handles on a slot that holds the same in both trees. -/
theorem append_slot (k : s.Kin σ t₁ t₂) {e before : String} (he : e ∈ Artifacts.endings)
    (hs : σ e = .settled before) {h₁ h₂ : Handle} (hr₁ : Reaches s e t₁ h₁)
    (hr₂ : Reaches s e t₂ h₂) (text : String) :
    s.Kin (mark σ [e] fun _ => .settled (before ++ text)) (t₁.append h₁ text)
      (t₂.append h₂ text) := by
  have hh := k.holds e he
  rw [hs] at hh
  obtain ⟨⟨f₁, hf₁, ho₁, ht₁⟩, f₂, hf₂, ho₂, ht₂⟩ := hh
  obtain ⟨hl₁, g₁, hg₁, hst₁⟩ := hr₁
  obtain ⟨hl₂, g₂, hg₂, hst₂⟩ := hr₂
  rw [hf₁] at hg₁
  rw [hf₂] at hg₂
  cases hg₁
  cases hg₂
  refine k.update ?_ ?_ ?_ ?_
  · intro e' he'
    rwa [List.mem_singleton.1 he']
  · intro l hl
    refine FileTree.find?_append_of_ne _ _ _ ?_
    rw [hl₁]
    exact hl e List.mem_cons_self
  · intro l hl
    refine FileTree.find?_append_of_ne _ _ _ ?_
    rw [hl₂]
    exact hl e List.mem_cons_self
  · intro e' he'
    rw [List.mem_singleton.1 he']
    have ha₁ := FileTree.find?_append_self t₁ h₁ text
    have ha₂ := FileTree.find?_append_self t₂ h₂ text
    rw [hl₁, hf₁] at ha₁
    rw [hl₂, hf₂] at ha₂
    simp only [hst₁, hst₂, if_true] at ha₁ ha₂
    exact ⟨⟨_, ha₁, ho₁, congrArg (· ++ text) ht₁⟩, _, ha₂, ho₂, congrArg (· ++ text) ht₂⟩

theorem unlink_both (k : s.Kin σ t₁ t₂) {e : String} (he : e ∈ Artifacts.endings)
    (hs : (σ e).isThere = true) :
    ∃ t₁' t₂', t₁.unlink m.cwd (p.plan.image.withEnding e).toString = .ok t₁' ∧
      t₂.unlink m.cwd (p.plan.image.withEnding e).toString = .ok t₂' ∧
      s.Kin (mark σ [e] fun _ => .empty) t₁' t₂' := by
  obtain ⟨t₁', hr₁, hne₁, hn₁⟩ := k.unlink_slot he hs
  obtain ⟨t₂', hr₂, hne₂, hn₂⟩ := k.swap.unlink_slot he hs
  refine ⟨t₁', t₂', hr₁, hr₂, ?_⟩
  refine k.update ?_ (fun l hl => hne₁ l (hl e List.mem_cons_self))
    (fun l hl => hne₂ l (hl e List.mem_cons_self)) ?_
  · intro e' he'
    rwa [List.mem_singleton.1 he']
  · intro e' he'
    rw [List.mem_singleton.1 he']
    exact ⟨hn₁, hn₂⟩

end Kin

end Site

end FirmwareAudit
