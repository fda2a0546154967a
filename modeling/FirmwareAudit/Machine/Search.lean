import FirmwareAudit.Machine.Basic

/-! # Finding programs

A program name with a slash is a path of its own. Any other is looked for in the directories of the
search path, in order. Looking a program up and starting it are two searches: the first takes the
first file that may be executed, the second the first that can be, and also says why there is none.
-/
namespace FirmwareAudit
open Text

/-- The directories searched where no search path is set. -/
def defaultSearchPath : String := "/bin:/usr/bin"

def searchEntries (searchPath : Option String) : List String :=
  splitAt ':' (searchPath.getD defaultSearchPath)

/-- A name in a directory of the search path. -/
def candidate (entry name : String) : String :=
  if entry = "" || endsIn ['/'] entry then entry ++ name else entry ++ "/" ++ name

/-- The files that a name can stand for, the first choice first. -/
def candidates (searchPath : Option String) (name : String) : List String :=
  if has '/' name then [name] else (searchEntries searchPath).map (candidate · name)

/-- The first file for a name that may be executed. On an empty search path nothing is found but
names with a slash. -/
def findProgram? (t : FileTree) (cwd : String) (searchPath : Option String) (name : String) :
    Option String :=
  if searchPath = some "" && !has '/' name then none
  else (candidates searchPath name).find? (t.isProgram cwd)

/-- The first candidate that can be executed; or the first error that says more than that nothing is
there, or the last error. A NUL byte, which no search path of a process has, ends the search where
it comes to one. -/
def firstExecutable (t : FileTree) (cwd : String) (seen : Errno) :
    (telling : Option Errno) → List String → Except CallFault String
  | telling, [] => .error (.errno (telling.getD seen))
  | telling, file :: rest =>
    match t.executable cwd file with
    | .ok () => .ok file
    | .error .nulByte => .error .nulByte
    | .error (.errno e) =>
      let absent := e = .notFound || e = .notDirectory
      firstExecutable t cwd e (telling.or (if absent then none else some e)) rest

/-- The file that starting a program starts. -/
def resolveProgram (t : FileTree) (cwd : String) (searchPath : Option String) (name : String) :
    Except CallFault String :=
  firstExecutable t cwd .notFound none (candidates searchPath name)

/-- The search path with the working directory as the first choice. -/
def searchPathFrom (cwd : String) (searchPath : Option String) : String :=
  match searchPath with
  | none => cwd
  | some old => if old = "" then cwd else cwd ++ ":" ++ old

end FirmwareAudit
