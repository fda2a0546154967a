import FirmwareAudit.Machine.Walk

/-! # System calls on files

Each call walks its path and either fails, with the tree as it was, or gives the tree it leaves.
-/
namespace FirmwareAudit
open Text

/-- An open file: it reaches the file at the location only as long as the stamp is that file's. -/
structure Handle where
  location : Location
  stamp : Nat
  deriving DecidableEq

namespace FileTree

/-- The node that a path leads to. -/
def status (t : FileTree) (cwd path : String) : Except CallFault Node :=
  match t.resolve cwd path with
  | .ok (.node _ n) => .ok n
  | .ok (.vacant ..) => .error (.errno .notFound)
  | .error e => .error e

/-- The node that a path leads to, nothing where there is none; a place that cannot be looked at is
an error. -/
def probe (t : FileTree) (cwd path : String) : Except Errno (Option Node) :=
  match t.status cwd path with
  | .ok n => .ok (some n)
  | .error .nulByte => .ok none
  | .error (.errno .notFound) => .ok none
  | .error (.errno .notDirectory) => .ok none
  | .error (.errno e) => .error e

/-- Whether the node that a path leads to may be read. -/
def mayRead (t : FileTree) (cwd path : String) : Bool :=
  match t.status cwd path with
  | .ok n => n.readable
  | .error _ => false

/-- Whether a path leads to a file that may be executed. -/
def isProgram (t : FileTree) (cwd path : String) : Bool :=
  match t.status cwd path with
  | .ok (.file f) => f.executable.isPermitted
  | _ => false

/-- Why a path cannot be executed, if it cannot. -/
def executable (t : FileTree) (cwd path : String) : Except CallFault Unit :=
  match t.status cwd path with
  | .ok (.file f) =>
    match f.executable with
    | .allowed => .ok ()
    | .forbidden => .error (.errno .accessDenied)
    | .failing e => .error (.errno e)
  | .ok (.directory _) => .error (.errno .accessDenied)
  | .error e => .error e

/-- The text of a file. -/
def contents (t : FileTree) (cwd path : String) : Except CallFault String :=
  match t.status cwd path with
  | .ok (.file f) => if f.readable then .ok f.text else .error (.errno .accessDenied)
  | .ok (.directory _) => .error (.errno .isDirectory)
  | .error e => .error e

/-- Whether names may be added to and taken from the directory that holds a location. -/
def parentWritable (t : FileTree) (l : Location) : Bool :=
  match t.find? l.tail with
  | some (.directory d) => d.writable
  | _ => false

def unlink (t : FileTree) (cwd path : String) : Except CallFault FileTree :=
  match t.resolve cwd path with
  | .ok (.vacant ..) => .error (.errno .notFound)
  | .ok (.node _ (.directory _)) => .error (.errno .isDirectory)
  | .ok (.node l (.file f)) =>
    match f.stuck with
    | some e => .error (.errno e)
    | none => if t.parentWritable l then .ok (t.erase l) else .error (.errno .accessDenied)
  | .error e => .error e

def makeDirectory (t : FileTree) (cwd path : String) : Except CallFault FileTree :=
  match t.resolve cwd path with
  | .ok (.node ..) => .error (.errno .alreadyExists)
  | .ok (.vacant l parent) =>
    if parent.writable then .ok (t.set l (.directory .plain)) else .error (.errno .accessDenied)
  | .error e => .error e

/-- How an existing file is opened for writing. -/
inductive WriteMode
  | truncate
  | append
  deriving DecidableEq

def openForWriting (t : FileTree) (cwd path : String) (mode : WriteMode) :
    Except CallFault (Handle × FileTree) :=
  match t.resolve cwd path with
  | .ok (.node _ (.directory _)) => .error (.errno .isDirectory)
  | .ok (.node l (.file f)) =>
    if f.writable then
      .ok (⟨l, f.stamp⟩, if mode = .truncate then t.set l (.file { f with text := "" }) else t)
    else .error (.errno .accessDenied)
  | .ok (.vacant l parent) =>
    if endsIn ['/'] path then .error (.errno .isDirectory)
    else if parent.writable then .ok (⟨l, t.clock⟩, t.create l (.plain ""))
    else .error (.errno .accessDenied)
  | .error e => .error e

/-- Text written at the end of an open file; a file that is no longer in the tree takes it away
unseen. -/
def append (t : FileTree) (h : Handle) (text : String) : FileTree :=
  match t.find? h.location with
  | some (.file f) =>
    if f.stamp = h.stamp then t.set h.location (.file { f with text := f.text ++ text }) else t
  | _ => t

theorem find?_append_of_ne (t : FileTree) (h : Handle) (text : String) {k : Location}
    (hk : k ≠ h.location) : (t.append h text).find? k = t.find? k := by
  unfold append
  split
  · split
    · exact find?_set_of_ne t _ hk
    · rfl
  · rfl

/-- A file opened, written and left. -/
def write (t : FileTree) (cwd path text : String) (mode : WriteMode) : Except CallFault FileTree :=
  match t.openForWriting cwd path mode with
  | .ok (h, t) => .ok (t.append h text)
  | .error e => .error e

end FileTree

end FirmwareAudit
