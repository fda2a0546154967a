import FirmwareAudit.Machine.FileTree

/-! # Walking a path

A path leads from the root, name by name, to a node or to a free place in a directory. Every
directory on the way has to be searchable.
-/
namespace FirmwareAudit
open Text

/-- Where a path leads: to a node, or to nothing in a directory that is there. -/
inductive Target
  | node (l : Location) (n : Node)
  | vacant (l : Location) (parent : DirectoryNode)

/-- The longest name that a directory holds, in UTF-8 bytes. -/
def nameLimit : Nat := 255

namespace FileTree

def walk (t : FileTree) (here : Location) : List String → Except Errno Target
  | [] =>
    match t.find? here with
    | some n => .ok (.node here n)
    | none => .error .notFound
  | name :: rest =>
    match t.find? here with
    | none => .error .notFound
    | some (.file _) => .error .notDirectory
    | some (.directory d) =>
      if !d.searchable then .error .accessDenied
      else if name = "." then walk t here rest
      else if name = ".." then walk t here.tail rest
      else if nameLimit < name.utf8ByteSize then .error .nameTooLong
      else
        match t.find? (name :: here) with
        | some _ => walk t (name :: here) rest
        | none => if rest = [] then .ok (.vacant (name :: here) d) else .error .notFound

/-- The path that a process working in `cwd` walks for the given one. -/
def walkedText (cwd path : String) : String :=
  if startsWith "/" path then path else cwd ++ "/" ++ path

def walkedNames (cwd path : String) : List String :=
  (splitAt '/' (walkedText cwd path)).filter (· ≠ "")

/-- The walk of a path without NUL bytes. -/
def follow (t : FileTree) (cwd path : String) : Except Errno Target :=
  if path = "" then .error .notFound
  else
    match t.walk [] (walkedNames cwd path) with
    | .ok (.node l (.file f)) =>
      if endsIn ['/'] path then .error .notDirectory else .ok (.node l (.file f))
    | other => other

def resolve (t : FileTree) (cwd path : String) : Except CallFault Target :=
  if has '\x00' path then .error .nulByte
  else
    match t.follow cwd path with
    | .ok target => .ok target
    | .error e => .error (.errno e)

end FileTree

end FirmwareAudit
