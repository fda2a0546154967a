import FirmwareAudit.Text.Split
import FirmwareAudit.Machine.Errno

/-! # File trees

A file tree holds at most one node at each location. Lookups after an update answer with the new
node at its location and with the old ones elsewhere. Files carry a stamp that no older file of the
tree has, so that a handle opened on a file does not reach a later file at the same location. There
are no links: each node has one location, and a path comes to it by names, `.` and `..` alone. A
single name can be too long, a whole path cannot.
-/
namespace FirmwareAudit
open Text

/-- The names that lead from the root to a node, the last one first; the root is `[]`. -/
abbrev Location := List String

/-- Whether a file may be executed, and what comes of it. -/
inductive Execution
  | forbidden
  | allowed
  /-- Permitted, but each attempt meets an error, as with a format that the system does not know. -/
  | failing (e : Errno)
  deriving DecidableEq

namespace Execution

/-- What a permission means where nothing else is in the way. -/
def ofPermission : Bool → Execution
  | true => allowed
  | false => forbidden

instance : Coe Bool Execution := ⟨ofPermission⟩

def isPermitted : Execution → Bool
  | forbidden => false
  | _ => true

end Execution

structure FileNode where
  text : String
  readable : Bool
  writable : Bool
  executable : Execution
  /-- The error that an attempt to remove the file meets, if it cannot be removed. -/
  stuck : Option Errno
  stamp : Nat
  deriving DecidableEq

structure DirectoryNode where
  searchable : Bool
  writable : Bool
  readable : Bool
  deriving DecidableEq

inductive Node
  | file (f : FileNode)
  | directory (d : DirectoryNode)
  deriving DecidableEq

namespace FileNode

/-- A file with this text that may be read, written and removed, but not executed. -/
def plain (text : String) : FileNode := ⟨text, true, true, .forbidden, none, 0⟩

end FileNode

namespace DirectoryNode

def plain : DirectoryNode := ⟨true, true, true⟩

end DirectoryNode

namespace Node

def isDirectory : Node → Bool
  | file _ => false
  | directory _ => true

def readable : Node → Bool
  | file f => f.readable
  | directory d => d.readable

def withStamp (stamp : Nat) : Node → Node
  | file f => file { f with stamp }
  | directory d => directory d

end Node

structure FileTree where
  entries : List (Location × Node)
  /-- The stamp of the next new file. -/
  clock : Nat

namespace FileTree

/-- A tree with nothing but its root. -/
def bare : FileTree := ⟨[([], .directory .plain)], 0⟩

def find? (t : FileTree) (l : Location) : Option Node :=
  t.entries.lookup l

/-- The tree with the node at `l`. -/
def set (t : FileTree) (l : Location) (n : Node) : FileTree :=
  { t with entries := (l, n) :: t.entries.filter (·.1 ≠ l) }

/-- The tree with nothing at `l`. -/
def erase (t : FileTree) (l : Location) : FileTree :=
  { t with entries := t.entries.filter (·.1 ≠ l) }

theorem lookup_filter_ne (entries : List (Location × Node)) {l k : Location} (h : k ≠ l) :
    (entries.filter (·.1 ≠ l)).lookup k = entries.lookup k := by
  induction entries with
  | nil => rfl
  | cons e rest ih =>
    obtain ⟨a, n⟩ := e
    by_cases ha : a = l
    · have hk : (k == l) = false := by simpa using h
      simpa [ha, List.lookup_cons, hk] using ih
    · cases hk : k == a <;> simp_all [List.lookup_cons]

theorem lookup_filter_self (entries : List (Location × Node)) (l : Location) :
    (entries.filter (·.1 ≠ l)).lookup l = none := by
  induction entries with
  | nil => rfl
  | cons e rest ih =>
    obtain ⟨a, n⟩ := e
    by_cases ha : a = l
    · simpa [ha] using ih
    · have hl : (l == a) = false := by simpa using fun h => ha h.symm
      simpa [ha, List.lookup_cons, hl] using ih

@[simp] theorem find?_set_self (t : FileTree) (l : Location) (n : Node) :
    (t.set l n).find? l = some n := by
  simp [find?, set]

theorem find?_set_of_ne (t : FileTree) {l k : Location} (n : Node) (h : k ≠ l) :
    (t.set l n).find? k = t.find? k := by
  have hk : (k == l) = false := by simpa using h
  simp only [find?, set, List.lookup_cons, hk]
  exact lookup_filter_ne t.entries h

@[simp] theorem find?_erase_self (t : FileTree) (l : Location) : (t.erase l).find? l = none :=
  lookup_filter_self t.entries l

theorem find?_erase_of_ne (t : FileTree) {l k : Location} (h : k ≠ l) :
    (t.erase l).find? k = t.find? k :=
  lookup_filter_ne t.entries h

/-- The tree with a new file at `l`. -/
def create (t : FileTree) (l : Location) (f : FileNode) : FileTree :=
  { t.set l (.file { f with stamp := t.clock }) with clock := t.clock + 1 }

@[simp] theorem find?_create_self (t : FileTree) (l : Location) (f : FileNode) :
    (t.create l f).find? l = some (.file { f with stamp := t.clock }) :=
  find?_set_self t l _

theorem find?_create_of_ne (t : FileTree) {l k : Location} (f : FileNode) (h : k ≠ l) :
    (t.create l f).find? k = t.find? k :=
  find?_set_of_ne t _ h

/-- The directories above a location that are missing, put in place. -/
def withParents (t : FileTree) : Location → FileTree
  | [] => t
  | _ :: above =>
    match t.find? above with
    | some _ => t
    | none => (withParents t above).set above (.directory .plain)

/-- A new node put in the place of whatever lies at or below a location. -/
def install (t : FileTree) (l : Location) (n : Node) : FileTree :=
  let cleared := { t with entries := t.entries.filter fun e => !l.isSuffixOf e.1 }
  { (cleared.withParents l).set l (n.withStamp t.clock) with clock := t.clock + 1 }

end FileTree

namespace Location

/-- The location that the text of an absolute path names when its components are taken as they
stand. -/
def ofString (path : String) : Location :=
  ((splitAt '/' path).filter (· ≠ "")).reverse

/-- A location as an absolute path. -/
def text (l : Location) : String :=
  "/" ++ joinWith "/" l.reverse

end Location

namespace FileTree

/-- What a reader of the tree sees at one location: a path and a text; a directory's path ends in a
slash and its text is empty. -/
def line : Location × Node → String × String
  | (l, .file f) => (Location.text l, f.text)
  | (l, .directory _) => (Location.text l ++ "/", "")

/-- Every node but the root, as paths and texts. -/
def listing (t : FileTree) : List (String × String) :=
  (t.entries.filter (!·.1.isEmpty)).map line

/-- The lines of the second listing that the first has not, and the paths that it no longer has, in
the order of the paths. -/
def changes (before after : FileTree) : List (String × Option String) :=
  let old := before.listing
  let new := after.listing
  let written := (new.filter fun e => old.lookup e.1 ≠ some e.2).map fun e => (e.1, some e.2)
  let removed := (old.filter fun e => (new.lookup e.1).isNone).map fun e => (e.1, none)
  (written ++ removed).mergeSort fun a b => decide (a.1 ≤ b.1)

end FileTree

end FirmwareAudit
