import FirmwareAudit.Machine.Basic

/-! # Files of the machine -/
namespace FirmwareAudit
open Text

/-- The node at a path, nothing where there is none. -/
def nodeAt (path : Path) : MachineM (Option Node) := do
  let m ← get
  match m.tree.probe m.cwd path.toString with
  | .ok n => return n
  | .error e => throw (.system ⟨e, some path.toString⟩)

def isFile (path : Path) : MachineM Bool := do
  match ← nodeAt path with
  | some (.file _) => return true
  | _ => return false

def isDirectory (path : Path) : MachineM Bool := do
  match ← nodeAt path with
  | some (.directory _) => return true
  | _ => return false

def pathExists (path : Path) : MachineM Bool := do
  return (← nodeAt path).isSome

def mayRead (path : Path) : MachineM Bool := do
  let m ← get
  return m.tree.mayRead m.cwd path.toString

def unlink (path : Path) : MachineM Unit := do
  let m ← get
  match m.tree.unlink m.cwd path.toString with
  | .ok tree =>
    set { m with tree }
    emit (.unlinked path.toString none)
  | .error fault =>
    let reason := Stop.ofCall path.toString fault
    emit (.unlinked path.toString (some reason))
    throw reason

def openForWriting (path : String) (mode : FileTree.WriteMode) : MachineM Handle := do
  let m ← get
  let (h, tree) ← ofCall path (m.tree.openForWriting m.cwd path mode)
  set { m with tree }
  emit (.opened path)
  return h

def appendText (h : Handle) (text : String) : MachineM Unit :=
  modify fun m => { m with tree := m.tree.append h text }

def makeDirectory (path : Path) : MachineM Unit := do
  let m ← get
  let tree ← ofCall path.toString (m.tree.makeDirectory m.cwd path.toString)
  set { m with tree }

/-- Makes a directory; one that is there already will do. -/
def ensureDirectory (path : Path) : MachineM Unit :=
  tryCatch (makeDirectory path) fun s =>
    match s with
    | .system ⟨.notFound, _⟩ => throw s
    | .system _ => do unless ← isDirectory path do throw s
    | other => throw other

/-- Makes the directory whose names, the last one first, are given, and those above it. -/
def ensureDirectories (anchor : Anchor) : (names : List String) → (∀ n ∈ names, IsName n) →
    MachineM Unit
  | [], _ => ensureDirectory ⟨anchor, [], by simp⟩
  | n :: above, h =>
    let path : Path := ⟨anchor, (n :: above).reverse, fun m hm => h m (List.mem_reverse.1 hm)⟩
    tryCatch (ensureDirectory path) fun s =>
      match s with
      | .system ⟨.notFound, _⟩ => do
        ensureDirectories anchor above fun m hm => h m (List.mem_cons_of_mem _ hm)
        ensureDirectory path
      | other => throw other

namespace Path

/-- Makes the directory at a path and those above it that are missing. -/
def makeAll (p : Path) : MachineM Unit :=
  ensureDirectories p.anchor p.names.reverse fun n h => p.isName n (List.mem_reverse.1 h)

end Path

end FirmwareAudit
