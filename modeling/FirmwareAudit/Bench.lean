import FirmwareAudit.Machine.Logging
import FirmwareAudit.Machine.Script

/-! # The test bench

A machine with a firmware image, an include directory and five scripted tools, over which other
files and scripts can be laid.
-/
namespace FirmwareAudit.Bench
open Script

def defaultCwd : String := "/work"
def defaultPath : String := "/bin"

def executableFile : Node := .file { FileNode.plain "" with executable := .allowed }

def defaultNodes : List (String × Node) :=
  [("/work/fw.bin", .file (.plain "FIRMWARE")),
    ("/usr/share/avra", .directory .plain),
    ("/bin/sha1sum", executableFile),
    ("/bin/avr-objdump", executableFile),
    ("/bin/avr-objcopy", executableFile),
    ("/bin/avra", executableFile),
    ("/bin/avr-postproc", executableFile)]

/-- The last argument of a call. -/
def lastArgument : Expr := .argument (-1)

/-- Writes the last argument's file, under its name with another ending, with the given text. -/
def writeBeside (ending : String) (text : Expr) : Action :=
  .write (.append (.stem lastArgument) (.text ending)) text

def defaultScripts : List (String × Script) :=
  [("sha1sum",
      ⟨none, [.out (.append (.digest lastArgument)
        (.append (.text "  ") (.append lastArgument (.text "\n"))))]⟩),
    ("avr-objdump", ⟨none, [.out (.contents lastArgument)]⟩),
    ("avr-postproc", ⟨none, [.out (.contents lastArgument)]⟩),
    ("avra",
      ⟨none, [writeBeside ".hex" (.contents lastArgument),
        writeBeside ".eep.hex" (.text ":00000001FF\n"),
        writeBeside ".obj" (.text "obj"),
        writeBeside ".cof" (.text "cof"),
        .out (.text "AVRA\n")]⟩),
    ("avr-objcopy", ⟨none, [.write lastArgument (.contents (.argument (-2)))]⟩)]

/-- The nodes of a bench with others laid over them; `none` takes one away. -/
def overlay (nodes : List (String × Node)) (changes : List (String × Option Node)) :
    List (String × Node) :=
  let kept := nodes.filter fun e => (changes.lookup e.1).isNone
  kept ++ changes.filterMap fun e => e.2.map fun n => (e.1, n)

/-- The tree with the given nodes, put in place in the order of their paths. -/
def treeOf (nodes : List (String × Node)) : FileTree :=
  (nodes.mergeSort fun a b => decide (a.1 ≤ b.1)).foldl
    (fun t e => t.install (Location.ofString e.1) e.2) .bare

/-- Programs that follow their scripts; one without a script does nothing. -/
def programsOf (scripts : List (String × List Script)) (name : String) : Program :=
  Script.program ((scripts.lookup name).getD [])

/-- The loggers of a machine that nothing has been logged on. -/
def quietJournal : Journal := .silent [toolLogger, pipelineLogger]

/-- A bench machine: files and scripts laid over the default ones. -/
def machine (cwd : String) (searchPath : Option String) (files : List (String × Option Node))
    (scripts : List (String × List Script)) : Machine where
  cwd
  searchPath
  tree := treeOf (overlay defaultNodes files)
  programs := programsOf (scripts ++ defaultScripts.map fun e => (e.1, [e.2]))
  turns _ := 0
  journal := quietJournal
  trace := []

end FirmwareAudit.Bench
