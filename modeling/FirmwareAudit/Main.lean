import FirmwareAudit.Bench
import FirmwareAudit.CommandLine.Run

/-! # The program on the bench

Runs one command line on the bench machine, with the files that the command line names laid over
the bench's own, and prints what was written to the two streams.
-/
namespace FirmwareAudit

/-- The text of a file; bytes that are not UTF-8 become the characters with their numbers. -/
def decodeText (bytes : ByteArray) : String :=
  match String.fromUTF8? bytes with
  | some s => s
  | none => .ofList (bytes.toList.map fun b => Char.ofNat b.toNat)

/-- A readable file that an argument names, at its place in the bench's working directory. -/
def loadFile (argument : String) : IO (List (String × Option Node)) := do
  try
    let bytes ← IO.FS.readBinFile argument
    let path := (Path.ofString argument).absolute Bench.defaultCwd
    return [(path.toString, some (.file (.plain (decodeText bytes))))]
  catch _ => return []

def showEvent : Event → IO Unit
  | .printed .output text | .toolOutput text => IO.print text
  | .printed .errors text | .toolErrors text => IO.eprint text
  | .shown _ r => IO.eprintln (Level.name r.level ++ " " ++ r.message)
  | _ => return

end FirmwareAudit

open FirmwareAudit in
def main (argv : List String) : IO UInt32 := do
  let files ← argv.mapM loadFile
  let machine := Bench.machine Bench.defaultCwd (some Bench.defaultPath) files.flatten []
  match CommandLine.exitStatus argv machine with
  | .ok code m =>
    m.trace.forM showEvent
    return code.toUInt32
  | .error stop m =>
    m.trace.forM showEvent
    IO.eprintln stop.message
    return 1
