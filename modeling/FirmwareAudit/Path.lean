import FirmwareAudit.Text.Split

/-! # Paths

A path is an anchor and the names below it. Repeated slashes and `.` mean nothing and are dropped
when a path is read; `..` is kept, since what it leads to depends on the file tree.
-/
namespace FirmwareAudit
open Text

/-- A component that a path keeps. -/
def IsName (s : String) : Prop := s ≠ "" ∧ s ≠ "." ∧ '/' ∉ s.toList

instance (s : String) : Decidable (IsName s) := by unfold IsName; infer_instance

/-- Where the first name is looked up. Exactly two leading slashes are an anchor of their own. -/
inductive Anchor
  | relative
  | root
  | doubleRoot
  deriving DecidableEq, Repr

namespace Anchor

def text : Anchor → String
  | relative => ""
  | root => "/"
  | doubleRoot => "//"

/-- The anchor that a text with this many leading slashes has. -/
def ofSlashes : Nat → Anchor
  | 0 => relative
  | 2 => doubleRoot
  | _ => root

end Anchor

structure Path where
  anchor : Anchor
  names : List String
  isName : ∀ n ∈ names, IsName n
  deriving DecidableEq

namespace Path

/-- The components of a text that a path keeps. -/
def namesOf (s : String) : List String :=
  (splitAt '/' s).filter fun n => n ≠ "" && n ≠ "."

theorem isName_of_mem_namesOf {s n : String} (h : n ∈ namesOf s) : IsName n := by
  simp only [namesOf, splitAt, List.mem_filter, List.mem_map] at h
  obtain ⟨⟨piece, hp, rfl⟩, hn⟩ := h
  refine ⟨by simp_all, by simp_all, ?_⟩
  rw [String.toList_ofList]
  exact not_mem_of_mem_pieces hp

def ofString (s : String) : Path where
  anchor := .ofSlashes (s.toList.takeWhile (· = '/')).length
  names := namesOf s
  isName _ h := isName_of_mem_namesOf h

def toString (p : Path) : String :=
  if p.anchor = .relative ∧ p.names = [] then "." else p.anchor.text ++ joinWith "/" p.names

instance : ToString Path := ⟨toString⟩

/-- The second path taken from the first: an absolute one is itself. -/
def join (p q : Path) : Path :=
  if q.anchor = .relative then
    { anchor := p.anchor
      names := p.names ++ q.names
      isName n h := (List.mem_append.1 h).elim (p.isName n) (q.isName n) }
  else q

/-- The path without its last name. -/
def parent (p : Path) : Path :=
  { p with
    names := p.names.dropLast
    isName n h := p.isName n (List.dropLast_subset _ h) }

/-- The path whose text is the given one with an ending behind it. -/
def withEnding (p : Path) (ending : String) : Path :=
  .ofString (p.toString ++ ending)

/-- The names that are left when each `..` takes away the name before it, the last name first.
Above a root there is nothing, so that a `..` there goes away; at the start of a relative path it
stays. -/
def collapseNames (anchor : Anchor) : (taken : List String) → List String → List String
  | taken, [] => taken
  | taken, n :: rest =>
    if n = ".." then
      match taken with
      | [] => collapseNames anchor (if anchor = .relative then [n] else []) rest
      | t :: above => collapseNames anchor (if t = ".." then n :: taken else above) rest
    else collapseNames anchor (n :: taken) rest

theorem mem_of_mem_collapseNames {anchor : Anchor} {taken names : List String} {n : String}
    (h : n ∈ collapseNames anchor taken names) : n ∈ taken ∨ n ∈ names := by
  fun_induction collapseNames anchor taken names with
  | case1 taken => exact Or.inl h
  | case2 rest ih =>
    rcases ih h with h | h
    · split at h <;> simp_all
    · simp [h]
  | case3 rest t above ih =>
    rcases ih h with h | h
    · split at h <;> simp_all
    · simp [h]
  | case4 taken m rest hm ih =>
    rcases ih h with h | h
    · rcases List.mem_cons.1 h with rfl | h <;> simp_all
    · simp [h]

/-- The path with every `..` taken as a step back in the text. -/
def collapse (p : Path) : Path :=
  { p with
    names := (collapseNames p.anchor [] p.names).reverse
    isName n h := by
      have h := mem_of_mem_collapseNames (List.mem_reverse.1 h)
      exact p.isName n (by simpa using h) }

/-- The path that names the same place from the root, read off the text alone. -/
def absolute (cwd : String) (p : Path) : Path :=
  ((ofString cwd).join p).collapse

end Path

end FirmwareAudit
