import FirmwareAudit.Machine.Logging
import FirmwareAudit.Machine.Search
import FirmwareAudit.Machine.Workplace

/-! # The toolchain

A toolchain is a table of tools, one for each role, and the places where they were last found.
-/
namespace FirmwareAudit

structure Tool where
  role : String
  program : String
  /-- What to install to get the program. -/
  hint : String
  deriving DecidableEq

namespace Tool

def checksum : Tool := ⟨"checksum", "sha1sum", "coreutils"⟩
def disassembler : Tool := ⟨"disassembler", "avr-objdump", "binutils-avr"⟩
def converter : Tool := ⟨"objcopy", "avr-objcopy", "binutils-avr"⟩
def assembler : Tool := ⟨"assembler", "avra", "avra"⟩
def postprocessor : Tool :=
  ⟨"postproc", "avr-postproc", "avr-postproc (place it in the current directory or on PATH)"⟩

/-- The tools of an audit in the order in which they are looked for. -/
def required : List Tool := [checksum, disassembler, converter, assembler, postprocessor]

end Tool

structure Toolchain where
  tools : List Tool
  /-- The role and the file of each tool, if they were all found. -/
  resolved : List (String × String)
  deriving DecidableEq

namespace Toolchain

/-- A tool put in the place of the one with its role, or behind all others. -/
def place (tool : Tool) : List Tool → List Tool
  | [] => [tool]
  | t :: rest => if t.role = tool.role then tool :: rest else t :: place tool rest

/-- A table in which each role stands where it was first named and has the tool named last. -/
def ofTools (tools : List Tool) : Toolchain where
  tools := tools.foldl (fun table tool => place tool table) []
  resolved := []

def standard : Toolchain := ofTools Tool.required

def tool? (tc : Toolchain) (role : String) : Option Tool :=
  tc.tools.find? (·.role == role)

def tool (tc : Toolchain) (role : String) : MachineM Tool :=
  match tc.tool? role with
  | some t => return t
  | none => throw (.unknownRole role)

end Toolchain

namespace Tool

/-- The file that a tool is found at. -/
def locate (tool : Tool) : MachineM String := do
  let m ← get
  match findProgram? m.tree m.cwd m.searchPath tool.program with
  | some file => return file
  | none => throw (.fault (.toolNotFound tool.program tool.hint))

/-- The files of all tools of a table, up to the first that is missing. -/
def locateAll : List Tool → MachineM (List (String × String))
  | [] => return []
  | tool :: rest => do
    let file ← tool.locate
    log toolLogger "preflight" Level.debug ("Found " ++ tool.program ++ ": " ++ file)
    return (tool.role, file) :: (← locateAll rest)

end Tool

/-- Work that finds tools: beside the machine stands the toolchain. -/
abbrev ToolchainM := WorkM Toolchain

namespace Toolchain

/-- Finds all tools. The toolchain remembers where, if none is missing. -/
def preflight : ToolchainM (List (String × String)) := do
  let w ← get
  let found ← onMachine (Tool.locateAll w.own.tools)
  modify fun w => { w with own := { w.own with resolved := found } }
  return found

/-- Finds all tools, if that was not done before. -/
def ready : ToolchainM Unit := do
  let w ← get
  if w.own.resolved.isEmpty then
    let _ ← preflight

end Toolchain

/-- Puts the working directory, which a machine can always tell, in front of the search path and
gives the new path. -/
def preferCwd : MachineM String := do
  let m ← get
  let path := searchPathFrom m.cwd m.searchPath
  set { m with searchPath := some path }
  return path

end FirmwareAudit
