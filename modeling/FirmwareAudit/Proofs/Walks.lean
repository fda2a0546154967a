import FirmwareAudit.Machine.Search
import FirmwareAudit.Proofs.ArtifactNames
import Mathlib.Data.List.Find

/-! # Where walks lead

A walk passes directories only, so that it ends at the same place in every tree that has the same
directories. What the search for a program finds does not depend on files that no candidate names.
-/
namespace FirmwareAudit
open Text

namespace FileTree

/-- A name that is looked up in a directory, not a step on the spot or up. -/
def IsEntry (name : String) : Prop := name ≠ "." ∧ name ≠ ".."

/-- One name leads from a searchable directory to a place where there is something. -/
def Leads (t : FileTree) (here : Location) (name : String) (next : Location) : Prop :=
  (∃ d, t.find? here = some (.directory d) ∧ d.searchable = true) ∧
    (name = "." ∧ next = here ∨ name = ".." ∧ next = here.tail ∨
      IsEntry name ∧ name.utf8ByteSize ≤ nameLimit ∧ next = name :: here ∧ ∃ n, t.find? next = some n)

theorem walk_of_leads {t : FileTree} {here next : Location} {name : String}
    (h : t.Leads here name next) (rest : List String) :
    t.walk here (name :: rest) = t.walk next rest := by
  obtain ⟨⟨d, hh, hs⟩, h⟩ := h
  rcases h with ⟨rfl, rfl⟩ | ⟨rfl, rfl⟩ | ⟨hn, hl, rfl, n, hk⟩
  · simp [walk, hh, hs]
  · simp [walk, hh, hs]
  · rw [walk]
    simp [hh, hs, hn.1, hn.2, Nat.not_lt.2 hl, hk]

theorem leads_of_walk {t : FileTree} {here l : Location} {name : String} {rest : List String}
    {n : Node} (hw : t.walk here (name :: rest) = .ok (.node l n)) :
    ∃ next, t.Leads here name next := by
  rw [walk] at hw
  cases hh : t.find? here with
  | none => simp [hh] at hw
  | some k =>
    cases k with
    | file f => simp [hh] at hw
    | directory d =>
      simp only [hh] at hw
      cases hs : d.searchable with
      | false => simp [hs] at hw
      | true =>
        by_cases hdot : name = "."
        · exact ⟨here, ⟨d, hh, hs⟩, Or.inl ⟨hdot, rfl⟩⟩
        by_cases hup : name = ".."
        · exact ⟨here.tail, ⟨d, hh, hs⟩, Or.inr (Or.inl ⟨hup, rfl⟩)⟩
        by_cases hl : nameLimit < name.utf8ByteSize
        · simp [hs, hdot, hup, hl] at hw
        cases hk : t.find? (name :: here) with
        | none =>
          simp only [hs, hdot, hup, hl, hk] at hw
          by_cases hr : rest = [] <;> simp [hr] at hw
        | some k =>
          exact ⟨name :: here, ⟨d, hh, hs⟩,
            Or.inr (Or.inr ⟨⟨hdot, hup⟩, Nat.not_lt.1 hl, rfl, k, hk⟩)⟩

theorem walk_nil_ok {t : FileTree} {here l : Location} {n : Node} :
    t.walk here [] = .ok (.node l n) ↔ here = l ∧ t.find? l = some n := by
  unfold walk
  cases h : t.find? here with
  | none =>
    constructor
    · intro hw
      cases hw
    · rintro ⟨rfl, hl⟩
      rw [h] at hl
      cases hl
  | some k =>
    constructor
    · intro hw
      cases hw
      exact ⟨rfl, h⟩
    · rintro ⟨rfl, hl⟩
      rw [h] at hl
      cases hl
      rfl

theorem find?_of_walk {t : FileTree} {here l : Location} {names : List String} {n : Node}
    (hw : t.walk here names = .ok (.node l n)) : t.find? l = some n := by
  induction names generalizing here with
  | nil => exact (walk_nil_ok.1 hw).2
  | cons name rest ih =>
    obtain ⟨next, hn⟩ := leads_of_walk hw
    rw [walk_of_leads hn] at hw
    exact ih hw

theorem walk_append {t : FileTree} {here l : Location} {xs : List String} {n : Node}
    (hw : t.walk here xs = .ok (.node l n)) (ys : List String) :
    t.walk here (xs ++ ys) = t.walk l ys := by
  induction xs generalizing here with
  | nil =>
    obtain ⟨rfl, -⟩ := walk_nil_ok.1 hw
    rfl
  | cons name rest ih =>
    obtain ⟨next, hn⟩ := leads_of_walk hw
    rw [walk_of_leads hn] at hw
    rw [List.cons_append, walk_of_leads hn]
    exact ih hw

theorem walk_of_concat_dot {t : FileTree} {here l : Location} {xs : List String} {n : Node}
    (hw : t.walk here (xs ++ ["."]) = .ok (.node l n)) : t.walk here xs = .ok (.node l n) := by
  induction xs generalizing here with
  | nil =>
    obtain ⟨next, hn⟩ := leads_of_walk hw
    have hnext : next = here := by
      obtain ⟨-, h | h | h⟩ := hn
      · exact h.2
      · exact absurd h.1 (by decide)
      · exact absurd rfl h.1.1
    rw [List.nil_append, walk_of_leads hn, hnext] at hw
    exact hw
  | cons name rest ih =>
    rw [List.cons_append] at hw
    obtain ⟨next, hn⟩ := leads_of_walk hw
    rw [walk_of_leads hn] at hw ⊢
    exact ih hw

theorem head_of_walk_concat {t : FileTree} {here l : Location} {xs : List String} {name : String}
    {n : Node} (hn : IsEntry name) (hw : t.walk here (xs ++ [name]) = .ok (.node l n)) :
    ∃ above, l = name :: above := by
  induction xs generalizing here with
  | nil =>
    obtain ⟨next, hlead⟩ := leads_of_walk hw
    rw [List.nil_append, walk_of_leads hlead] at hw
    obtain ⟨rfl, -⟩ := walk_nil_ok.1 hw
    obtain ⟨-, h | h | h⟩ := hlead
    · exact absurd h.1 hn.1
    · exact absurd h.1 hn.2
    · exact ⟨here, h.2.2.1⟩
  | cons first rest ih =>
    rw [List.cons_append] at hw
    obtain ⟨next, hlead⟩ := leads_of_walk hw
    rw [walk_of_leads hlead] at hw
    exact ih hw

/-! ## Trees with the same directories -/

/-- Every directory of the first tree is one of the second, just as it is. -/
def DirectoriesIn (t t' : FileTree) : Prop :=
  ∀ l d, t.find? l = some (.directory d) → t'.find? l = some (.directory d)

/-- A walk to a node ends at the same place in any tree with the same directories. -/
theorem walk_node {t t' : FileTree} (hd : DirectoriesIn t t') {here l : Location}
    {names : List String} {n n' : Node} (hw : t.walk here names = .ok (.node l n))
    (hl : t'.find? l = some n') : t'.walk here names = .ok (.node l n') := by
  induction names generalizing here with
  | nil =>
    obtain ⟨rfl, -⟩ := walk_nil_ok.1 hw
    exact walk_nil_ok.2 ⟨rfl, hl⟩
  | cons name rest ih =>
    obtain ⟨next, ⟨d, hh, hs⟩, hlead⟩ := leads_of_walk hw
    have hw' := hw
    rw [walk_of_leads ⟨⟨d, hh, hs⟩, hlead⟩] at hw'
    -- The next place is a directory, or the place where the walk ends.
    have hnext : ∃ k, t'.find? next = some k := by
      cases rest with
      | nil =>
        obtain ⟨rfl, -⟩ := walk_nil_ok.1 hw'
        exact ⟨n', hl⟩
      | cons second rest =>
        obtain ⟨-, ⟨d', hd', -⟩, -⟩ := leads_of_walk hw'
        exact ⟨_, hd next d' hd'⟩
    have hlead' : t'.Leads here name next := by
      refine ⟨⟨d, hd here d hh, hs⟩, ?_⟩
      rcases hlead with h | h | ⟨hn, hl, he, -⟩
      · exact Or.inl h
      · exact Or.inr (Or.inl h)
      · exact Or.inr (Or.inr ⟨hn, hl, he, hnext⟩)
    rw [walk_of_leads hlead']
    exact ih hw'

/-! ## The names a path walks -/

/-- The names between the slashes of a text. -/
def steps (s : String) : List String := (splitAt '/' s).filter (· ≠ "")

theorem steps_append_slash (s t : String) : steps (s ++ "/" ++ t) = steps s ++ steps t := by
  simp only [steps, splitAt_append_slash, List.filter_append]

theorem steps_of_name {name : String} (hn : name ≠ "") (hs : '/' ∉ name.toList) :
    steps name = [name] := by
  simp [steps, splitAt_of_not_mem hs, hn]

theorem steps_joinWith {names : List String} (h : ∀ n ∈ names, IsName n) :
    steps (joinWith "/" names) = names := by
  by_cases hne : names = []
  · subst hne
    rfl
  · rw [steps, splitAt_joinWith hne fun n hn => (h n hn).2.2]
    refine List.filter_eq_self.2 fun n hn => ?_
    simp [(h n hn).1]

theorem startsWith_slash_of_slashes {s : String} (h : s.toList.takeWhile (· = '/') = []) :
    startsWith "/" s = false := by
  cases hs : s.toList with
  | nil => simp [startsWith, hs]
  | cons c cs =>
    rw [hs] at h
    have hc : c ≠ '/' := by
      rintro rfl
      simp at h
    have hb : ('/' == c) = false := by simpa using Ne.symm hc
    simp [startsWith, hs, List.isPrefixOf, hb]

theorem walkedNames_path (cwd : String) (q : Path) :
    walkedNames cwd q.toString =
      (if q.anchor = .relative then steps cwd else []) ++
        if q.anchor = .relative ∧ q.names = [] then ["."] else q.names := by
  obtain ⟨anchor, names, hnames⟩ := q
  have hj := steps_joinWith hnames
  unfold walkedNames walkedText
  cases anchor with
  | relative =>
    by_cases hne : names = []
    · subst hne
      have hdot : steps "." = ["."] := by decide
      have he := steps_append_slash cwd "."
      rw [hdot] at he
      simpa [Path.toString, startsWith, steps] using he
    · have hs := startsWith_slash_of_slashes (Path.slashes_joinWith hnames)
      have he := steps_append_slash cwd (joinWith "/" names)
      rw [hj] at he
      simpa [Path.toString, hne, Anchor.text, hs, steps] using he
  | root =>
    have he := steps_append_slash "" (joinWith "/" names)
    rw [hj, show steps "" = [] from rfl] at he
    simpa [Path.toString, Anchor.text, startsWith, steps] using he
  | doubleRoot =>
    have he := steps_append_slash "/" (joinWith "/" names)
    rw [hj, show steps "/" = [] from by decide] at he
    simpa [Path.toString, Anchor.text, startsWith, steps] using he

theorem walkedNames_withEnding (cwd : String) (image : Path) {e : String} (he : IsEnding e) :
    walkedNames cwd (image.withEnding e).toString =
      (if image.anchor = .relative then steps cwd else []) ++ image.names.dropLast ++
        [image.stem ++ e] := by
  rw [image.withEnding_eq he, walkedNames_path]
  simp

theorem walkedText_of_slash (cwd front name : String) :
    ∃ front', walkedText cwd (front ++ "/" ++ name) = front' ++ "/" ++ name := by
  unfold walkedText
  split
  · exact ⟨front, rfl⟩
  · exact ⟨cwd ++ "/" ++ front, by simp only [String.append_assoc]⟩

theorem startsWith_slash_of_not_mem {name : String} (h : '/' ∉ name.toList) :
    startsWith "/" name = false := by
  refine startsWith_slash_of_slashes ?_
  cases hl : name.toList with
  | nil => rfl
  | cons c cs =>
    have hc : c ≠ '/' := by
      rintro rfl
      exact h (by simp [hl])
    simp [hc]

/-- Whatever the entry is, a slash stands right before the name in the text that is walked. -/
theorem walkedText_candidate (cwd entry : String) {name : String} (h : '/' ∉ name.toList) :
    ∃ front, walkedText cwd (candidate entry name) = front ++ "/" ++ name := by
  unfold candidate
  by_cases he : entry = ""
  · subst he
    exact ⟨cwd, by simp [walkedText, startsWith_slash_of_not_mem h]⟩
  · by_cases hend : endsIn ['/'] entry = true
    · obtain ⟨front, hf⟩ := List.isSuffixOf_iff_suffix.1 hend
      have hentry : entry = String.ofList front ++ "/" := by
        rw [← String.ofList_toList (s := entry), ← hf, String.ofList_append]
      simp only [hend, Bool.or_true, if_true]
      rw [hentry]
      exact walkedText_of_slash _ _ _
    · simp only [he, hend, decide_false, Bool.or_self, Bool.false_eq_true, if_false]
      exact walkedText_of_slash _ _ _

theorem walkedNames_candidate (cwd entry : String) {name : String} (hn : name ≠ "")
    (hs : '/' ∉ name.toList) : ∃ xs, walkedNames cwd (candidate entry name) = xs ++ [name] := by
  obtain ⟨front, hf⟩ := walkedText_candidate cwd entry hs
  refine ⟨steps front, ?_⟩
  rw [walkedNames, hf]
  exact (steps_append_slash front name).trans (by rw [steps_of_name hn hs])

/-! ## Where a path leads -/

theorem follow_of_walk {t : FileTree} {cwd path : String} {target : Target} (he : path ≠ "")
    (hs : endsIn ['/'] path = false) (hw : t.walk [] (walkedNames cwd path) = .ok target) :
    t.follow cwd path = .ok target := by
  rw [follow, if_neg he, hw]
  cases target with
  | vacant l d => rfl
  | node l n =>
    cases n with
    | directory d => rfl
    | file f => simp [hs]

theorem resolve_of_walk {t : FileTree} {cwd path : String} {target : Target}
    (hn : has '\x00' path = false) (he : path ≠ "") (hs : endsIn ['/'] path = false)
    (hw : t.walk [] (walkedNames cwd path) = .ok target) : t.resolve cwd path = .ok target := by
  rw [resolve, hn, follow_of_walk he hs hw]
  rfl

theorem follow_of_resolve {t : FileTree} {cwd path : String} {target : Target}
    (h : t.resolve cwd path = .ok target) :
    has '\x00' path = false ∧ t.follow cwd path = .ok target := by
  unfold resolve at h
  cases hn : has '\x00' path with
  | true => simp [hn] at h
  | false =>
    rw [hn] at h
    cases hf : t.follow cwd path with
    | error e =>
      rw [hf] at h
      cases h
    | ok target' =>
      rw [hf] at h
      cases h
      exact ⟨rfl, rfl⟩

theorem walk_of_follow {t : FileTree} {cwd path : String} {l : Location} {n : Node}
    (h : t.follow cwd path = .ok (.node l n)) :
    path ≠ "" ∧ t.walk [] (walkedNames cwd path) = .ok (.node l n) ∧
      (n.isDirectory = false → endsIn ['/'] path = false) := by
  unfold follow at h
  by_cases he : path = ""
  · simp [he] at h
  · rw [if_neg he] at h
    refine ⟨he, ?_⟩
    split at h
    · next k f hw =>
      split at h
      · cases h
      · next hs =>
        cases h
        exact ⟨hw, fun _ => by simpa using hs⟩
    · next other hne =>
      refine ⟨h, fun hd => ?_⟩
      cases n with
      | directory d => cases hd
      | file f => exact absurd h (hne l f)

theorem find?_of_resolve {t : FileTree} {cwd path : String} {l : Location} {n : Node}
    (h : t.resolve cwd path = .ok (.node l n)) : t.find? l = some n :=
  find?_of_walk (walk_of_follow (follow_of_resolve h).2).2.1

/-- A path leads to the same place in any tree with the same directories. -/
theorem resolve_node {t t' : FileTree} (hd : DirectoriesIn t t') {cwd path : String} {l : Location}
    {n n' : Node} (h : t.resolve cwd path = .ok (.node l n)) (hl : t'.find? l = some n')
    (hk : n'.isDirectory = n.isDirectory) : t'.resolve cwd path = .ok (.node l n') := by
  obtain ⟨hn, hf⟩ := follow_of_resolve h
  obtain ⟨he, hw, hs⟩ := walk_of_follow hf
  have hw' := walk_node hd hw hl
  cases n' with
  | file f => exact resolve_of_walk hn he (hs hk.symm) hw'
  | directory d =>
    rw [resolve, hn, follow, if_neg he, hw']
    rfl

/-! ## Beside an image -/

/-- What is found at a place in a directory. -/
def target (t : FileTree) (l : Location) (d : DirectoryNode) : Target :=
  match t.find? l with
  | some n => .node l n
  | none => .vacant l d

theorem walk_last {t : FileTree} {dir : Location} {d : DirectoryNode} {name : String}
    (hd : t.find? dir = some (.directory d)) (hs : d.searchable = true) (hn : IsEntry name)
    (hl : name.utf8ByteSize ≤ nameLimit) :
    t.walk dir [name] = .ok (t.target (name :: dir) d) := by
  cases hk : t.find? (name :: dir) with
  | some n =>
    have hlead : t.Leads dir name (name :: dir) :=
      ⟨⟨d, hd, hs⟩, Or.inr (Or.inr ⟨hn, hl, rfl, n, hk⟩)⟩
    rw [walk_of_leads hlead, target, hk]
    exact walk_nil_ok.2 ⟨rfl, hk⟩
  | none =>
    rw [walk, target, hk]
    simp [hd, hs, hn.1, hn.2, Nat.not_lt.2 hl]

theorem isEntry_of_isEnding {s e : String} (he : IsEnding e) : IsEntry (s ++ e) :=
  ⟨he.ne_of_length (by decide), he.ne_of_length (by decide)⟩

theorem not_endsIn_slash {s e : String} (he : IsEnding e) : endsIn ['/'] (s ++ e) = false := by
  cases h : endsIn ['/'] (s ++ e) with
  | false => rfl
  | true =>
    have hne : e.toList ≠ [] := by
      intro hnil
      have hlen := he.2
      rw [← String.length_toList, hnil] at hlen
      simp at hlen
    obtain ⟨front, hf⟩ := List.isSuffixOf_iff_suffix.1 h
    rw [String.toList_append, ← List.dropLast_concat_getLast hne, ← List.append_assoc] at hf
    have hlast := (List.append_inj' hf rfl).2
    refine absurd ?_ he.1
    rw [List.singleton_inj.1 hlast]
    exact List.getLast_mem hne

/-- The path of an artifact leads to its name in the directory of the image. -/
theorem resolve_withEnding {t : FileTree} {cwd : String} {image : Path} {dir : Location}
    {d : DirectoryNode} {e : String}
    (hdir : t.resolve cwd image.parent.toString = .ok (.node dir (.directory d)))
    (hs : d.searchable = true) (he : IsEnding e)
    (hl : (image.stem ++ e).utf8ByteSize ≤ nameLimit)
    (hn : has '\x00' (image.withEnding e).toString = false) :
    t.resolve cwd (image.withEnding e).toString = .ok (t.target ((image.stem ++ e) :: dir) d) := by
  obtain ⟨-, hf⟩ := follow_of_resolve hdir
  obtain ⟨-, hw, -⟩ := walk_of_follow hf
  let base := (if image.anchor = .relative then steps cwd else []) ++ image.names.dropLast
  have hbase : t.walk [] base = .ok (.node dir (.directory d)) := by
    rw [walkedNames_path] at hw
    change t.walk [] ((if image.anchor = .relative then steps cwd else []) ++
      if image.anchor = .relative ∧ image.names.dropLast = [] then ["."]
      else image.names.dropLast) = _ at hw
    by_cases h : image.anchor = .relative ∧ image.names.dropLast = []
    · rw [if_pos h] at hw
      have hb : base = if image.anchor = .relative then steps cwd else [] := by
        simp only [base, h.2, List.append_nil]
      rw [hb]
      exact walk_of_concat_dot hw
    · rwa [if_neg h] at hw
  have hnames : walkedNames cwd (image.withEnding e).toString = base ++ [image.stem ++ e] :=
    walkedNames_withEnding cwd image he
  have hslot : t.walk [] (walkedNames cwd (image.withEnding e).toString) =
      .ok (t.target ((image.stem ++ e) :: dir) d) := by
    rw [hnames, walk_append hbase]
    exact walk_last (find?_of_walk hbase) hs (isEntry_of_isEnding he) hl
  have htext := image.toString_withEnding he
  refine resolve_of_walk hn ?_ ?_ hslot
  · rw [htext]
    exact he.ne_of_length (by decide)
  · rw [htext]
    exact not_endsIn_slash he

/-! ## Searches for programs -/

theorem executable_eq_ok {t : FileTree} {cwd path : String} :
    t.executable cwd path = .ok () ↔
      ∃ l f, t.resolve cwd path = .ok (.node l (.file f)) ∧ f.executable = .allowed := by
  unfold executable status
  cases h : t.resolve cwd path with
  | error e => simp
  | ok target =>
    cases target with
    | vacant l d => simp
    | node l n =>
      cases n with
      | directory d => simp
      | file f => cases he : f.executable <;> simp [he]

theorem executable_eq_nulByte {t : FileTree} {cwd path : String} :
    t.executable cwd path = .error .nulByte ↔ has '\x00' path = true := by
  unfold executable status resolve
  cases hn : has '\x00' path with
  | true => simp
  | false =>
    cases hf : t.follow cwd path with
    | error e => simp
    | ok target =>
      cases target with
      | vacant l d => simp
      | node l n =>
        cases n with
        | directory d => simp
        | file f => cases he : f.executable <;> simp [he]

/-- A search ends at the file: it can be executed, or its path has a NUL byte. All others are passed
over, whatever is in the way of their execution. -/
def endsSearch (t : FileTree) (cwd path : String) : Bool :=
  match t.executable cwd path with
  | .error (.errno _) => false
  | _ => true

theorem endsSearch_eq_true {t : FileTree} {cwd path : String} :
    t.endsSearch cwd path = true ↔ t.executable cwd path = .ok () ∨ has '\x00' path = true := by
  rw [← executable_eq_nulByte, endsSearch]
  rcases t.executable cwd path with (_ | e) | u <;> simp

section Spec
variable {t : FileTree} {cwd : String} {files : List String}

/-- A search comes to the first file that it does not pass over. -/
theorem firstExecutable_of_find? {c : String} (h : files.find? (t.endsSearch cwd) = some c)
    (seen : Errno) (telling : Option Errno) :
    firstExecutable t cwd seen telling files =
      if has '\x00' c then .error .nulByte else .ok c := by
  induction files generalizing seen telling with
  | nil => cases h
  | cons file rest ih =>
    unfold firstExecutable
    cases hx : t.executable cwd file with
    | ok u =>
      have hends : t.endsSearch cwd file = true := endsSearch_eq_true.2 (Or.inl hx)
      rw [List.find?_cons_of_pos hends] at h
      obtain rfl := Option.some.inj h
      have hnul : ¬ has '\x00' file = true := fun hn => by
        rw [executable_eq_nulByte.2 hn] at hx
        cases hx
      exact (if_neg hnul).symm
    | error fault =>
      cases fault with
      | nulByte =>
        have hnul := executable_eq_nulByte.1 hx
        rw [List.find?_cons_of_pos (endsSearch_eq_true.2 (Or.inr hnul))] at h
        obtain rfl := Option.some.inj h
        exact (if_pos hnul).symm
      | errno e =>
        have hpassed : ¬ t.endsSearch cwd file = true := by simp [endsSearch, hx]
        rw [List.find?_cons_of_neg hpassed] at h
        exact ih h _ _

/-- A lookup takes a file whose execution fails, a start the one behind it. -/
example :
    let file (x : Execution) : Node := .file { FileNode.plain "" with executable := x }
    let t : FileTree :=
      { entries := [([], .directory .plain), (["a"], .directory .plain), (["b"], .directory .plain),
          (["avra", "a"], file (.failing .execFormat)), (["avra", "b"], file .allowed)]
        clock := 5 }
    findProgram? t "/" (some "/a:/b") "avra" = some "/a/avra" ∧
      resolveProgram t "/" (some "/a:/b") "avra" = .ok "/b/avra" := by
  decide +kernel

theorem firstExecutable_of_find?_eq_none (h : files.find? (t.endsSearch cwd) = none) (seen : Errno)
    (telling : Option Errno) : ∃ e, firstExecutable t cwd seen telling files = .error (.errno e) := by
  induction files generalizing seen telling with
  | nil => exact ⟨_, rfl⟩
  | cons file rest ih =>
    rw [List.find?_eq_none, List.forall_mem_cons, ← List.find?_eq_none] at h
    obtain ⟨hpassed, hrest⟩ := h
    unfold firstExecutable
    cases hx : t.executable cwd file with
    | ok u => exact absurd (endsSearch_eq_true.2 (Or.inl hx)) hpassed
    | error fault =>
      cases fault with
      | nulByte =>
        exact absurd (endsSearch_eq_true.2 (Or.inr (executable_eq_nulByte.1 hx))) hpassed
      | errno e => exact ih hrest _ _

end Spec

/-- Files of the given name are there in the second tree where they are in the first, and may be
executed as there. -/
def ProgramsIn (name : String) (t t' : FileTree) : Prop :=
  ∀ above f, t.find? (name :: above) = some (.file f) →
    ∃ f', t'.find? (name :: above) = some (.file f') ∧ f'.executable = f.executable

section Search
variable {t t' : FileTree} {name : String}

theorem executable_candidate (hd : DirectoriesIn t t') (hp : ProgramsIn name t t')
    (hn : IsName name) (hup : name ≠ "..") {cwd entry : String}
    (h : t.executable cwd (candidate entry name) = .ok ()) :
    t'.executable cwd (candidate entry name) = .ok () := by
  obtain ⟨l, f, hr, hx⟩ := executable_eq_ok.1 h
  obtain ⟨xs, hxs⟩ := walkedNames_candidate cwd entry hn.1 hn.2.2
  obtain ⟨-, hf⟩ := follow_of_resolve hr
  obtain ⟨-, hw, -⟩ := walk_of_follow hf
  have hwalk := hw
  rw [hxs] at hwalk
  obtain ⟨above, rfl⟩ := head_of_walk_concat ⟨hn.2.1, hup⟩ hwalk
  obtain ⟨f', hf', hx'⟩ := hp above f (find?_of_walk hw)
  exact executable_eq_ok.2 ⟨_, f', resolve_node hd hr hf' rfl, hx'.trans hx⟩

/-- A search comes to the same in two trees in which the same files can be executed, or to an error in
each. -/
theorem firstExecutable_alike {cwd : String} {files : List String}
    (h : ∀ c ∈ files, t.executable cwd c = .ok () ↔ t'.executable cwd c = .ok ())
    (seen seen' : Errno) (telling telling' : Option Errno) :
    (∃ r, (r = .error .nulByte ∨ ∃ file, r = .ok file) ∧
      firstExecutable t cwd seen telling files = r ∧
      firstExecutable t' cwd seen' telling' files = r) ∨
    ∃ e e', firstExecutable t cwd seen telling files = .error (.errno e) ∧
      firstExecutable t' cwd seen' telling' files = .error (.errno e') := by
  have hends : files.find? (t.endsSearch cwd) = files.find? (t'.endsSearch cwd) := by
    refine List.find?_congr fun c hc => ?_
    rw [Bool.eq_iff_iff, endsSearch_eq_true, endsSearch_eq_true, h c hc]
  cases hc : files.find? (t.endsSearch cwd) with
  | some c =>
    refine Or.inl ⟨_, ?_, firstExecutable_of_find? hc seen telling,
      firstExecutable_of_find? (hends.symm.trans hc) seen' telling'⟩
    split
    · exact Or.inl rfl
    · exact Or.inr ⟨c, rfl⟩
  | none =>
    obtain ⟨e, he⟩ := firstExecutable_of_find?_eq_none hc seen telling
    obtain ⟨e', he'⟩ := firstExecutable_of_find?_eq_none (hends.symm.trans hc) seen' telling'
    exact Or.inr ⟨e, e', he, he'⟩

/-- A program that is found is found at the same file in any tree with the same directories and the
same files of its name. -/
theorem resolveProgram_congr (hd : DirectoriesIn t t') (hd' : DirectoriesIn t' t)
    (hp : ProgramsIn name t t') (hp' : ProgramsIn name t' t) (hn : IsName name) (hup : name ≠ "..")
    {cwd file : String} {searchPath : Option String}
    (h : resolveProgram t cwd searchPath name = .ok file) :
    resolveProgram t' cwd searchPath name = .ok file := by
  have hslash : has '/' name = false := by simpa [has] using hn.2.2
  unfold resolveProgram candidates at h ⊢
  rw [if_neg (by simp [hslash])] at h ⊢
  have halike : ∀ c ∈ (searchEntries searchPath).map (candidate · name),
      t.executable cwd c = .ok () ↔ t'.executable cwd c = .ok () := by
    intro c hc
    obtain ⟨entry, -, rfl⟩ := List.mem_map.1 hc
    exact ⟨executable_candidate hd hp hn hup, executable_candidate hd' hp' hn hup⟩
  rcases firstExecutable_alike halike .notFound .notFound none none with
    ⟨r, -, hr, hr'⟩ | ⟨e, e', he, -⟩
  · rw [hr', ← hr, h]
  · rw [he] at h
    cases h

end Search

end FileTree

end FirmwareAudit
