import FirmwareAudit.Proofs.CheckedRun
import FirmwareAudit.Proofs.CleanRun

/-! # Removals in a row

What a row of removals comes to can be told from the files alone. Each takes away what is at its
place, or fails and leaves the files as they are. The records between two removals write to log files
only, and no removal depends on the text of a file.
-/
namespace FirmwareAudit
open Text

/-! ## Calls on trees that differ in texts -/

namespace FileTree

namespace SameButTexts
variable {t t' : FileTree} (h : t.SameButTexts t')
include h

/-- At each place there is nothing in both trees, or the same directory, or files that differ in their
texts. -/
theorem find?_cases (l : Location) :
    (t.find? l = none ∧ t'.find? l = none) ∨
      (∃ d, t.find? l = some (.directory d) ∧ t'.find? l = some (.directory d)) ∨
      ∃ f text, t.find? l = some (.file f) ∧ t'.find? l = some (.file { f with text }) := by
  cases hn : t.find? l with
  | none => exact Or.inl ⟨rfl, (h.bothAt l).1 hn⟩
  | some n =>
    cases n with
    | directory d => exact Or.inr (Or.inl ⟨d, rfl, h.find?_directory.1 hn⟩)
    | file f =>
      obtain ⟨text, hn'⟩ := h.find?_file hn
      exact Or.inr (Or.inr ⟨f, text, rfl, hn'⟩)

/-- A walk fails in both trees with the same error, or ends in both at what is at the same place. -/
theorem walk (here : Location) (names : List String) :
    (∃ e, t.walk here names = .error e ∧ t'.walk here names = .error e) ∨
      ∃ l d, t.walk here names = .ok (t.target l d) ∧ t'.walk here names = .ok (t'.target l d) := by
  induction names generalizing here with
  | nil =>
    unfold FileTree.walk target
    rcases h.find?_cases here with ⟨hn, hn'⟩ | ⟨d, hn, hn'⟩ | ⟨f, text, hn, hn'⟩
    · rw [hn, hn']
      exact Or.inl ⟨_, rfl, rfl⟩
    all_goals
      rw [hn, hn']
      exact Or.inr ⟨here, .plain, by rw [hn], by rw [hn']⟩
  | cons name rest ih =>
    unfold FileTree.walk
    rcases h.find?_cases here with ⟨hn, hn'⟩ | ⟨d, hn, hn'⟩ | ⟨f, text, hn, hn'⟩
    · rw [hn, hn']
      exact Or.inl ⟨_, rfl, rfl⟩
    · rw [hn, hn']
      simp only
      split
      · exact Or.inl ⟨_, rfl, rfl⟩
      split
      · exact ih here
      split
      · exact ih here.tail
      split
      · exact Or.inl ⟨_, rfl, rfl⟩
      -- An entry that is there in both trees is passed in both, be it a file or a directory.
      rcases h.find?_cases (name :: here) with ⟨hk, hk'⟩ | ⟨d', hk, hk'⟩ | ⟨f, text, hk, hk'⟩
      · rw [hk, hk']
        simp only
        split
        · exact Or.inr ⟨name :: here, d, by rw [target, hk], by rw [target, hk']⟩
        · exact Or.inl ⟨_, rfl, rfl⟩
      all_goals
        rw [hk, hk']
        exact ih (name :: here)
    · rw [hn, hn']
      exact Or.inl ⟨_, rfl, rfl⟩

theorem resolve (cwd path : String) :
    (∃ fault, t.resolve cwd path = .error fault ∧ t'.resolve cwd path = .error fault) ∨
      ∃ l d, t.resolve cwd path = .ok (t.target l d) ∧
        t'.resolve cwd path = .ok (t'.target l d) := by
  unfold FileTree.resolve FileTree.follow
  by_cases hnul : has '\x00' path = true
  · rw [if_pos hnul, if_pos hnul]
    exact Or.inl ⟨_, rfl, rfl⟩
  rw [if_neg hnul, if_neg hnul]
  by_cases hempty : path = ""
  · rw [if_pos hempty, if_pos hempty]
    exact Or.inl ⟨_, rfl, rfl⟩
  rw [if_neg hempty, if_neg hempty]
  rcases h.walk [] (walkedNames cwd path) with ⟨e, hw, hw'⟩ | ⟨l, d, hw, hw'⟩
  · rw [hw, hw']
    exact Or.inl ⟨_, rfl, rfl⟩
  rw [hw, hw']
  unfold target
  rcases h.find?_cases l with ⟨hn, hn'⟩ | ⟨k, hn, hn'⟩ | ⟨f, text, hn, hn'⟩
  · rw [hn, hn']
    exact Or.inr ⟨l, d, by rw [hn], by rw [hn']⟩
  · rw [hn, hn']
    exact Or.inr ⟨l, d, by rw [hn], by rw [hn']⟩
  · rw [hn, hn']
    cases hend : endsIn ['/'] path with
    | true => exact Or.inl ⟨_, rfl, rfl⟩
    | false => exact Or.inr ⟨l, d, by simp [hn], by simp [hn']⟩

theorem parentWritable (l : Location) : t'.parentWritable l = t.parentWritable l := by
  unfold FileTree.parentWritable
  rcases h.find?_cases l.tail with ⟨hn, hn'⟩ | ⟨d, hn, hn'⟩ | ⟨f, text, hn, hn'⟩ <;> rw [hn, hn']

/-- A removal fails in both trees with the same fault, or takes away what is at the same place. -/
theorem unlink (cwd path : String) :
    (∃ fault, t.unlink cwd path = .error fault ∧ t'.unlink cwd path = .error fault) ∨
      ∃ l, t.unlink cwd path = .ok (t.erase l) ∧ t'.unlink cwd path = .ok (t'.erase l) := by
  unfold FileTree.unlink
  rcases h.resolve cwd path with ⟨fault, hr, hr'⟩ | ⟨l, d, hr, hr'⟩
  · rw [hr, hr']
    exact Or.inl ⟨_, rfl, rfl⟩
  rw [hr, hr']
  unfold target
  rcases h.find?_cases l with ⟨hn, hn'⟩ | ⟨k, hn, hn'⟩ | ⟨f, text, hn, hn'⟩
  · rw [hn, hn']
    exact Or.inl ⟨_, rfl, rfl⟩
  · rw [hn, hn']
    exact Or.inl ⟨_, rfl, rfl⟩
  · rw [hn, hn']
    simp only [h.parentWritable l]
    split
    · exact Or.inl ⟨_, rfl, rfl⟩
    split
    · exact Or.inr ⟨l, rfl, rfl⟩
    · exact Or.inl ⟨_, rfl, rfl⟩

theorem erase (l : Location) : (t.erase l).SameButTexts (t'.erase l) := by
  refine ⟨h.clock, fun k => ?_⟩
  by_cases hk : k = l
  · rw [hk, find?_erase_self, find?_erase_self]
  · rw [find?_erase_of_ne t hk, find?_erase_of_ne t' hk, h.nodes k]

end SameButTexts

/-- The trees differ in the texts of these files at most. -/
structure LoggedOn (files : List Handle) (t t' : FileTree) : Prop where
  texts : t.SameButTexts t'
  elsewhere : ∀ l, (∀ f ∈ files, f.location ≠ l) → t'.find? l = t.find? l

namespace LoggedOn
variable {files : List Handle} {t t' : FileTree}

theorem refl (files : List Handle) (t : FileTree) : t.LoggedOn files t := ⟨.refl t, fun _ _ => rfl⟩

theorem appendEach (h : t.LoggedOn files t') (line : String) {takers : List Handle}
    (htakers : ∀ f ∈ takers, f ∈ files) : t.LoggedOn files (t'.appendEach line takers) := by
  induction takers generalizing t' with
  | nil => exact h
  | cons f rest ih =>
    rw [List.forall_mem_cons] at htakers
    refine ih ⟨h.texts.trans (.append t' f line), fun l hl => ?_⟩ htakers.2
    rw [find?_append_of_ne t' f line (hl f htakers.1).symm, h.elsewhere l hl]

theorem erase (h : t.LoggedOn files t') (l : Location) :
    (t.erase l).LoggedOn files (t'.erase l) := by
  refine ⟨h.texts.erase l, fun k hk => ?_⟩
  by_cases hkl : k = l
  · rw [hkl, find?_erase_self, find?_erase_self]
  · rw [find?_erase_of_ne t hkl, find?_erase_of_ne t' hkl, h.elsewhere k hk]

end LoggedOn

/-! ## Tries to remove files -/

section Tries
variable (cwd : String)

/-- A try to remove a file, with the error if it fails: what is at the place goes, or the files stay
as they are. -/
inductive Tries (t : FileTree) (path : Path) : Option SystemError → FileTree → Prop
  | goes {t' : FileTree} (h : t.unlink cwd path.toString = .ok t') : Tries t path none t'
  | stays {e : Errno} (h : t.unlink cwd path.toString = .error (.errno e)) :
    Tries t path (some ⟨e, some path.toString⟩) t

/-- Tries in a row, each on the files that the one before it leaves. -/
inductive TriesEach : FileTree → List (Path × Option SystemError) → FileTree → Prop
  | done (t : FileTree) : TriesEach t [] t
  | step {t t₁ t' : FileTree} {path : Path} {failure : Option SystemError}
      {rest : List (Path × Option SystemError)} (h : Tries cwd t path failure t₁)
      (hrest : TriesEach t₁ rest t') : TriesEach t ((path, failure) :: rest) t'

end Tries

/-- The files of a row of tries that went. -/
def removed (tried : List (Path × Option SystemError)) : List Path :=
  tried.filterMap fun t => if t.2.isNone then some t.1 else none

theorem mem_removed {tried : List (Path × Option SystemError)} {f : Path} :
    f ∈ removed tried ↔ (f, none) ∈ tried := by
  simp [removed, List.mem_filterMap]

theorem removed_gone (gone : List Path) : removed (gone.map (·, none)) = gone := by
  induction gone with
  | nil => rfl
  | cons f rest ih => exact congrArg (f :: ·) ih

theorem removed_gone_stuck (gone : List Path) (path : Path) (e : SystemError) :
    removed (gone.map (·, none) ++ [(path, some e)]) = gone := by
  rw [removed, List.filterMap_append]
  exact (List.append_nil _).trans (removed_gone gone)

section
variable {cwd : String} {t t' : FileTree} {path : Path} {failure : Option SystemError}
  {tried : List (Path × Option SystemError)}

/-- A try touches nothing but the place that its path leads to, and nothing at all if it fails. -/
theorem Tries.find?_eq (h : t.Tries cwd path failure t') {l : Location}
    (hl : failure = none → placeOf cwd path.toString ≠ l) : t'.find? l = t.find? l := by
  cases h with
  | goes h =>
    refine find?_of_unlink h fun target hr => ?_
    rw [location_of_resolve hr]
    exact hl rfl
  | stays h => rfl

theorem Tries.find?_of_none (h : t.Tries cwd path failure t') {l : Location}
    (hl : t.find? l = none) : t'.find? l = none := by
  cases h with
  | goes h => exact (find?_of_unlink_eq_ok h).2 l hl
  | stays h => exact hl

theorem TriesEach.find?_eq (h : TriesEach cwd t tried t') {l : Location}
    (hl : ∀ f ∈ removed tried, placeOf cwd f.toString ≠ l) : t'.find? l = t.find? l := by
  induction h with
  | done t => rfl
  | @step t t₁ t' path failure rest h hrest ih =>
    have hfirst : t₁.find? l = t.find? l := by
      refine h.find?_eq fun hgone => hl path (mem_removed.2 ?_)
      rw [hgone]
      exact List.mem_cons_self
    refine (ih fun f hf => hl f (mem_removed.2 ?_)).trans hfirst
    exact List.mem_cons_of_mem _ (mem_removed.1 hf)

theorem TriesEach.find?_of_none (h : TriesEach cwd t tried t') {l : Location}
    (hl : t.find? l = none) : t'.find? l = none := by
  induction h with
  | done t => exact hl
  | step h _ ih => exact ih (h.find?_of_none hl)

/-- Where the path of a file leads that went, there is nothing afterwards. -/
theorem TriesEach.find?_removed (h : TriesEach cwd t tried t') :
    ∀ f ∈ removed tried, t'.find? (placeOf cwd f.toString) = none := by
  induction h with
  | done t => exact nofun
  | @step t t₁ t' path failure rest h hrest ih =>
    intro f hf
    rcases List.mem_cons.1 (mem_removed.1 hf) with hfirst | hlater
    · cases hfirst
      cases h with
      | goes h => exact hrest.find?_of_none (find?_of_unlink_eq_ok h).1
    · exact ih f (mem_removed.2 hlater)

end

end FileTree

/-! ## Machines on the same files -/

namespace Machine

/-- Log lines apart, the second machine has these files; it works where the first one does and has
the same log files open. -/
structure StandsAt (m : Machine) (t : FileTree) (m' : Machine) : Prop where
  cwd : m'.cwd = m.cwd
  openFiles : m'.journal.openFiles = m.journal.openFiles
  tree : t.LoggedOn m.journal.openFiles m'.tree

/-- Of these files none is left. All else is as it was, up to the texts of log files. -/
structure Sheds (m : Machine) (gone : List Path) (m' : Machine) : Prop where
  absent : ∀ f ∈ gone, Pipeline.Cleared m' f ∧ m'.holds f = false
  elsewhere : ∀ l, (∀ f ∈ gone, FileTree.placeOf m.cwd f.toString ≠ l) →
    (∀ h ∈ m.journal.openFiles, h.location ≠ l) → m'.tree.find? l = m.tree.find? l
  nodes : ∀ l, (∀ f ∈ gone, FileTree.placeOf m.cwd f.toString ≠ l) →
    (m'.tree.find? l).map Node.wordless = (m.tree.find? l).map Node.wordless

namespace StandsAt
variable {m m₁ : Machine} {t : FileTree}

theorem refl (m : Machine) : m.StandsAt m.tree m := ⟨rfl, rfl, .refl _ _⟩

theorem afterLog (h : m.StandsAt t m₁) (logger operation : String) (level : Int)
    (message : String) : m.StandsAt t (m₁.afterLog logger operation level message) := by
  have hfiles : (m₁.journal.asked logger level).openFiles = m.journal.openFiles :=
    (Journal.openFiles_asked _ _ _).trans h.openFiles
  refine ⟨h.cwd, hfiles, h.tree.appendEach _ fun f hf => ?_⟩
  rw [← hfiles]
  exact Journal.mem_openFiles_of_mem_takers hf

/-- A call to remove a file does to the machine what the try does to the files. -/
theorem unlink (h : m.StandsAt t m₁) {path : Path} (hn : has '\x00' path.toString = false) :
    (∃ t' m₂, t.Tries m.cwd path none t' ∧ FirmwareAudit.unlink path m₁ = .ok () m₂ ∧
      m.StandsAt t' m₂ ∧ m₁.Adds [.unlinked path.toString none] m₂) ∨
    ∃ e m₂, t.Tries m.cwd path (some e) t ∧
      FirmwareAudit.unlink path m₁ = .error (.system e) m₂ ∧ m.StandsAt t m₂ ∧
      m₁.Adds [.unlinked path.toString (some (.system e))] m₂ := by
  unfold FirmwareAudit.unlink
  rw [bind_of_ok (get_apply m₁)]
  rcases h.tree.texts.unlink m₁.cwd path.toString with ⟨fault, hu, hu'⟩ | ⟨l, hu, hu'⟩
  · rw [hu']
    rw [h.cwd] at hu
    cases fault with
    | nulByte => exact absurd hu (FileTree.unlink_ne_nulByte t m.cwd hn)
    | errno e =>
      refine Or.inr ⟨⟨e, some path.toString⟩, _, .stays hu, rfl, ⟨h.cwd, h.openFiles, h.tree⟩, ?_⟩
      exact adds_of_trace [.unlinked path.toString (some (.system ⟨e, some path.toString⟩))] rfl
  · rw [hu']
    rw [h.cwd] at hu
    refine Or.inl ⟨_, _, .goes hu, rfl, ⟨h.cwd, h.openFiles, h.tree.erase l⟩, ?_⟩
    exact adds_of_trace [.unlinked path.toString none] rfl

theorem remove (h : m.StandsAt t m₁) {path : Path} (hn : has '\x00' path.toString = false) :
    (∃ t' m₂, t.Tries m.cwd path none t' ∧ Pipeline.remove path m₁ = .ok () m₂ ∧
      m.StandsAt t' m₂ ∧ m₁.Adds (Pipeline.removalActs path) m₂) ∨
    ∃ e m₂, t.Tries m.cwd path (some e) t ∧
      Pipeline.remove path m₁ = .error (.fault (.cleanup path e)) m₂ ∧ m.StandsAt t m₂ ∧
      m₁.Adds (Pipeline.failedRemovalActs path (.system e)) m₂ := by
  unfold Pipeline.remove
  rw [bind_of_ok (log_eq _ _ _ _ m₁)]
  have hlog := m₁.adds_afterLog pipelineLogger "remove_temps" Level.debug
    ("Removing " ++ path.toString)
  rcases (h.afterLog _ _ _ _).unlink hn with ⟨t', m₂, ht, hu, hs, ha⟩ | ⟨e, m₂, ht, hu, hs, ha⟩
  · exact Or.inl ⟨t', m₂, ht, wrapSystemError_of_ok hu, hs, hlog.trans ha⟩
  · exact Or.inr ⟨e, m₂, ht, tryCatch_of_error hu, hs, hlog.trans ha⟩

theorem discard (h : m.StandsAt t m₁) {path : Path} (hn : has '\x00' path.toString = false) :
    ∃ failure t' m₂, t.Tries m.cwd path failure t' ∧ Pipeline.discard path m₁ = .ok () m₂ ∧
      m.StandsAt t' m₂ ∧ m₁.Adds (Pipeline.discardActs (path, failure)) m₂ := by
  unfold Pipeline.discard
  rw [bind_of_ok (log_eq _ _ _ _ m₁)]
  have hlog := m₁.adds_afterLog pipelineLogger "discard_pending" Level.debug
    ("Removing " ++ path.toString ++ " after abort")
  rcases (h.afterLog _ _ _ _).unlink hn with ⟨t', m₂, ht, hu, hs, ha⟩ | ⟨e, m₂, ht, hu, hs, ha⟩
  · exact ⟨none, t', m₂, ht, tryCatch_of_ok hu, hs, hlog.trans ha⟩
  · have hwarn := m₂.adds_afterLog pipelineLogger "discard_pending" Level.warning
      ("Could not remove " ++ path.toString ++ ": " ++ e.message)
    exact ⟨some e, t, _, ht, (tryCatch_of_error hu).trans (log_eq _ _ _ _ m₂),
      hs.afterLog _ _ _ _, (hlog.trans ha).trans hwarn⟩

theorem sheds {tried : List (Path × Option SystemError)} {m' : Machine}
    (h : m.StandsAt t m') (htried : FileTree.TriesEach m.cwd m.tree tried t) :
    m.Sheds (FileTree.removed tried) m' where
  absent f hf := by
    have hclear : Pipeline.Cleared m' f := by
      rw [Pipeline.Cleared, h.cwd]
      exact (h.tree.texts.bothAt _).1 (htried.find?_removed f hf)
    exact ⟨hclear, hclear.holds_eq⟩
  elsewhere l hgone hlogs := (h.tree.elsewhere l hlogs).trans (htried.find?_eq hgone)
  nodes l hgone := by rw [h.tree.texts.nodes l, htried.find?_eq hgone]

end StandsAt

end Machine

namespace Pipeline

/-! ## Up to the first failure -/

/-- Files go in order up to the first that cannot be removed, and those behind it are not tried. -/
theorem removeEach_stops {m m₁ : Machine} {t : FileTree} (h : m.StandsAt t m₁)
    {paths : List Path} (hn : ∀ f ∈ paths, has '\x00' f.toString = false) (pending : List Path) :
    (∃ left m', FileTree.TriesEach m.cwd t (paths.map (·, none)) left ∧
      removeEach paths ⟨m₁, pending⟩ = .ok () ⟨m', without pending paths⟩ ∧
      m.StandsAt left m' ∧ m₁.Adds (paths.flatMap removalActs) m') ∨
    ∃ gone path rest e left m', paths = gone ++ path :: rest ∧
      FileTree.TriesEach m.cwd t (gone.map (·, none) ++ [(path, some e)]) left ∧
      removeEach paths ⟨m₁, pending⟩ =
        .error (.fault (.cleanup path e)) ⟨m', without pending gone⟩ ∧
      m.StandsAt left m' ∧
      m₁.Adds (gone.flatMap removalActs ++ failedRemovalActs path (.system e)) m' := by
  -- Each removal starts on a machine that stands at the files that the tries before it left.
  induction paths generalizing t m₁ pending with
  | nil => exact Or.inl ⟨t, m₁, .done t, rfl, h, .refl m₁⟩
  | cons f rest ih =>
    rw [List.forall_mem_cons] at hn
    unfold removeEach
    rcases h.remove hn.1 with ⟨t₁, m₂, ht, hr, hs, ha⟩ | ⟨e, m₂, ht, hr, hs, ha⟩
    · have hfirst : onMachine (β := List Path) (remove f) ⟨m₁, pending⟩ = .ok () ⟨m₂, pending⟩ :=
        onMachine_eq_ok.2 ⟨m₂, hr, rfl⟩
      rw [bind_of_ok hfirst, settle, bind_of_ok (modify_apply _ _)]
      rcases ih hs hn.2 (pending.erase f) with ⟨left, m', ht', hr', hs', ha'⟩ | hstuck
      · exact Or.inl ⟨left, m', .step ht ht', hr', hs', ha.trans ha'⟩
      · obtain ⟨gone, path, rest', e, left, m', rfl, ht', hr', hs', ha'⟩ := hstuck
        refine Or.inr ⟨f :: gone, path, rest', e, left, m', rfl, .step ht ht', hr', hs', ?_⟩
        simpa only [List.flatMap_cons, List.append_assoc] using ha.trans ha'
    · have hfirst : onMachine (β := List Path) (remove f) ⟨m₁, pending⟩ =
          .error (.fault (.cleanup f e)) ⟨m₂, pending⟩ :=
        onMachine_eq_error.2 ⟨m₂, hr, rfl⟩
      exact Or.inr ⟨[], f, rest, e, t, m₂, rfl, .step ht (.done t), bind_of_error hfirst, hs, ha⟩

/-- Files that are no longer needed are removed in order, up to the first that cannot be. If there
is none, all are gone, and pending are the other files, in their order. Else the fault names that
file; those before it are gone and no longer pending, and it and those behind it are neither removed
nor dropped, unless they are among those before it. Nothing else changes but the texts of log
files. -/
theorem removeTemps_until_failure (p : Pipeline) (hkeep : p.plan.keepTemps = false)
    {paths : List Path} (hn : ∀ f ∈ paths, has '\x00' f.toString = false)
    (w : Workplace (List Path)) (hpending : w.own.Nodup) :
    (∃ left m',
      FileTree.TriesEach w.machine.cwd w.machine.tree (paths.map (·, none)) left ∧
      p.removeTemps paths w = .ok () ⟨m', w.own.filter (· ∉ paths)⟩ ∧
      w.machine.Adds (paths.flatMap removalActs) m' ∧ w.machine.Sheds paths m') ∨
    ∃ gone path rest e left m', paths = gone ++ path :: rest ∧
      FileTree.TriesEach w.machine.cwd w.machine.tree
        (gone.map (·, none) ++ [(path, some e)]) left ∧
      p.removeTemps paths w =
        .error (.fault (.cleanup path e)) ⟨m', w.own.filter (· ∉ gone)⟩ ∧
      w.machine.Adds (gone.flatMap removalActs ++ failedRemovalActs path (.system e)) m' ∧
      w.machine.Sheds gone m' := by
  rw [removeTemps, hkeep, if_neg (by decide)]
  rcases removeEach_stops (.refl w.machine) hn w.own with
    ⟨left, m', ht, hr, hs, ha⟩ | ⟨gone, path, rest, e, left, m', hp, ht, hr, hs, ha⟩
  · rw [without_eq_filter hpending] at hr
    have hsheds := hs.sheds ht
    rw [FileTree.removed_gone] at hsheds
    exact Or.inl ⟨left, m', ht, hr, ha, hsheds⟩
  · rw [without_eq_filter hpending] at hr
    have hsheds := hs.sheds ht
    rw [FileTree.removed_gone_stuck] at hsheds
    exact Or.inr ⟨gone, path, rest, e, left, m', hp, ht, hr, ha, hsheds⟩

/-- A path that stands twice in the list is removed once; what is pending besides stays so. -/
theorem removeTemps_until_failure_repeated :
    let image := plainAudit.plan.image
    let w : Workplace (List Path) := ⟨stuckListing 0, [plainAudit.files.listing]⟩
    plainAudit.plan.keepTemps = false ∧ w.own.Nodup ∧
      ∃ e m', plainAudit.removeTemps [image, image] w =
          .error (.fault (.cleanup image e)) ⟨m', [plainAudit.files.listing]⟩ ∧
        m'.holds image = false := by
  intro image w
  have hn : ∀ f ∈ [image, image], has '\x00' f.toString = false := by decide +kernel
  have hfails : (failure? (plainAudit.removeTemps [image, image] w)).isSome = true := by
    decide +kernel
  have hgoes : (w.machine.tree.unlink w.machine.cwd image.toString).isOk = true := by
    decide +kernel
  refine ⟨rfl, List.nodup_singleton _, ?_⟩
  rcases removeTemps_until_failure plainAudit rfl hn w (List.nodup_singleton _) with
    ⟨left, m', -, hr, -, -⟩ | ⟨gone, path, rest, e, left, m', hp, ht, hr, -, hsheds⟩
  · rw [hr] at hfails
    cases hfails
  · rcases gone with _ | ⟨first, _ | ⟨second, gone⟩⟩
    · obtain ⟨rfl, -⟩ := List.cons.inj hp
      cases ht with
      | step h _ =>
        cases h with
        | stays h =>
          rw [h] at hgoes
          cases hgoes
    · obtain ⟨rfl, hlater⟩ := List.cons.inj hp
      obtain ⟨rfl, -⟩ := List.cons.inj hlater
      refine ⟨e, m', ?_, (hsheds.absent image List.mem_cons_self).2⟩
      have hown : w.own.filter (· ∉ [image]) = w.own := by decide +kernel
      rw [hr, hown]
    · have hlen := congrArg List.length hp
      simp at hlen

/-! ## Whatever fails -/

/-- All files are tried in order, whatever becomes of the others. -/
theorem discardEach_tries {m m₁ : Machine} {t : FileTree} (h : m.StandsAt t m₁)
    {paths : List Path} (hn : ∀ f ∈ paths, has '\x00' f.toString = false) (pending : List Path) :
    ∃ tried left m', FileTree.TriesEach m.cwd t tried left ∧ tried.map Prod.fst = paths ∧
      discardEach paths ⟨m₁, pending⟩ = .ok () ⟨m', without pending paths⟩ ∧
      m.StandsAt left m' ∧ m₁.Adds (tried.flatMap discardActs) m' := by
  induction paths generalizing t m₁ pending with
  | nil => exact ⟨[], t, m₁, .done t, rfl, rfl, h, .refl m₁⟩
  | cons f rest ih =>
    rw [List.forall_mem_cons] at hn
    obtain ⟨failure, t₁, m₂, ht, hd, hs, ha⟩ := h.discard hn.1
    obtain ⟨tried, left, m', ht', hpaths, hd', hs', ha'⟩ := ih hs hn.2 (pending.erase f)
    have hfirst : onMachine (β := List Path) (discard f) ⟨m₁, pending⟩ = .ok () ⟨m₂, pending⟩ :=
      onMachine_eq_ok.2 ⟨m₂, hd, rfl⟩
    refine ⟨(f, failure) :: tried, left, m', .step ht ht', by rw [List.map_cons, hpaths], ?_, hs',
      ha.trans ha'⟩
    unfold discardEach
    rw [bind_of_ok hfirst, settle, bind_of_ok (modify_apply _ _)]
    exact hd'

/-- The cleanup after an abort tries each pending file once, in order, whatever became of the ones
before it, and returns with none pending. A file is left only if its own try failed, and each that
failed is warned of once. Nothing else changes but the texts of log files. -/
theorem discardPending_best_effort (p : Pipeline) (hkeep : p.plan.keepTemps = false)
    (w : Workplace (List Path)) (hn : ∀ f ∈ w.own, has '\x00' f.toString = false) :
    ∃ tried left m' events,
      FileTree.TriesEach w.machine.cwd w.machine.tree tried left ∧ tried.map Prod.fst = w.own ∧
      p.discardPending w = .ok () ⟨m', []⟩ ∧ m'.trace = w.machine.trace ++ events ∧
      removals events = tried.map (fun t => (t.1.toString, t.2.map .system)) ∧
      warnings events = tried.filterMap (fun t => t.2.map (stayedRecord t.1)) ∧
      w.machine.Sheds (FileTree.removed tried) m' := by
  obtain ⟨tried, left, m', ht, hpaths, hd, hs, events, htrace, hacts⟩ :=
    discardEach_tries (.refl w.machine) hn w.own
  rw [without_self] at hd
  refine ⟨tried, left, m', events, ht, hpaths, ?_, htrace, ?_, ?_, hs.sheds ht⟩
  · rw [discardPending, hkeep, if_neg (by decide), bind_of_ok (get_apply w)]
    exact hd
  · rw [← removals_acts, hacts, removals_discardActs]
  · rw [← warnings_acts, hacts, warnings_discardActs]

/-- A file that stays does not keep the next one from being removed. -/
theorem discardPending_best_effort_stuck :
    let image := plainAudit.plan.image
    let w : Workplace (List Path) := ⟨stuckListing 0, [plainAudit.files.listing, image]⟩
    plainAudit.plan.keepTemps = false ∧
      ∃ m', plainAudit.discardPending w = .ok () ⟨m', []⟩ ∧
        (warnings m'.trace).length = 1 ∧ m'.holds plainAudit.files.listing = true ∧
        m'.holds image = false := by
  intro image w
  have hn : ∀ f ∈ w.own, has '\x00' f.toString = false := by decide +kernel
  obtain ⟨tried, left, m', events, -, -, hd, -⟩ := discardPending_best_effort plainAudit rfl w hn
  have hend : endState (plainAudit.discardPending w) = ⟨m', []⟩ := by
    rw [hd]
    rfl
  have hfiles : (warnings (endState (plainAudit.discardPending w)).machine.trace).length = 1 ∧
      (endState (plainAudit.discardPending w)).machine.holds plainAudit.files.listing = true ∧
      (endState (plainAudit.discardPending w)).machine.holds image = false := by
    decide +kernel
  rw [hend] at hfiles
  exact ⟨rfl, m', hd, hfiles⟩

end Pipeline

end FirmwareAudit
