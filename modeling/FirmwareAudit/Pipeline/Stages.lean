import FirmwareAudit.Pipeline.Basic

/-! # The stages of an audit

The image is disassembled, the listing made into source, the source assembled, and the result
converted to the image's own format. The audit passes if the rebuilt image has the checksum of the
first one.
-/
namespace FirmwareAudit

/-- The outcome of an audit that passed, or of one whose checksums are yet to be compared. -/
structure Verdict where
  image : Checksum
  rebuilt : Checksum
  /-- The artifacts that were left in place. -/
  kept : List Path
  deriving DecidableEq

namespace Verdict

def ok (v : Verdict) : Bool := v.image.digest = v.rebuilt.digest

end Verdict

namespace Plan

def disassemblerArguments (p : Plan) : List String :=
  ["-m", p.architecture.shown, "-b", p.fileType.shown, "-s", "-D", p.image.toString]

def postprocessorArguments (p : Plan) : List String :=
  ["-i", p.chipDefinitions.toString] ++ p.postprocessorFlags.map Setting.shown ++
    [p.artifacts.listing.toString]

def assemblerArguments (p : Plan) : List String :=
  ["-I", p.includeDir.toString, p.artifacts.source.toString]

def converterArguments (p : Plan) : List String :=
  ["-I", "ihex", "-O", p.fileType.shown, p.artifacts.flash.toString, p.artifacts.rebuilt.toString]

end Plan

namespace Pipeline

def info (operation message : String) : MachineM Unit :=
  log pipelineLogger operation Level.info message

def disassemble (p : Pipeline) : PipelineM Unit := do
  onMachine do
    info "disassemble" <|
      "Disassembling " ++ p.plan.image.toString ++ " (machine " ++ p.plan.architecture.shown ++
        ", type " ++ p.plan.fileType.shown ++ ")"
    p.toolchain.run "disassemble" Tool.disassembler.role p.plan.disassemblerArguments
      (.file p.files.listing)
  produced [p.files.listing]

def postprocess (p : Pipeline) : PipelineM Unit := do
  onMachine do
    info "postprocess" <|
      "Postprocessing " ++ p.files.listing.toString ++ " with " ++
        p.plan.chipDefinitions.toString
    p.toolchain.run "postprocess" Tool.postprocessor.role p.plan.postprocessorArguments
      (.file p.files.source)
  produced [p.files.source]
  p.removeTemps [p.files.listing]

def reassemble (p : Pipeline) : PipelineM Unit := do
  onMachine do
    info "reassemble" ("Reassembling " ++ p.files.source.toString)
    p.toolchain.run "reassemble" Tool.assembler.role p.plan.assemblerArguments .discarded
  produced [p.files.flash, p.files.eeprom, p.files.object, p.files.debugInfo]
  p.removeTemps [p.files.source, p.files.object, p.files.debugInfo, p.files.eeprom]

def convert (p : Pipeline) : PipelineM Unit := do
  onMachine do
    info "convert" <|
      "Converting " ++ p.files.flash.toString ++ " to " ++ p.plan.fileType.shown
    p.toolchain.run "convert" Tool.converter.role p.plan.converterArguments .shared
  produced [p.files.rebuilt]
  p.removeTemps [p.files.flash]

/-- The checksums of the image and of the rebuilt one, both reported. -/
def compare (p : Pipeline) : MachineM (Checksum × Checksum) := do
  let image ← p.toolchain.checksum p.plan.image
  let rebuilt ← p.toolchain.checksum p.files.rebuilt
  printLine p.stream image.line
  printLine p.stream rebuilt.line
  return (image, rebuilt)

/-- The paths at which there is something. -/
def existing : List Path → MachineM (List Path)
  | [] => return []
  | path :: rest => do
    let here ← pathExists path
    let others ← existing rest
    return if here then path :: others else others

/-- The artifacts that are still there, where the plan keeps them. -/
def kept (p : Pipeline) : MachineM (List Path) :=
  if p.plan.keepTemps then existing p.files.all else return []

/-- The verdict on two checksums: they agree, or the audit fails. -/
def judge (p : Pipeline) (image rebuilt : Checksum) : MachineM Verdict := do
  let verdict : Verdict := ⟨image, rebuilt, ← p.kept⟩
  if verdict.ok then
    printLine p.stream "Ok"
    return verdict
  else throw (.fault (.mismatch image rebuilt))

def verify (p : Pipeline) : PipelineM Verdict := do
  let (image, rebuilt) ← onMachine p.compare
  p.removeTemps [p.files.rebuilt]
  onMachine (p.judge image rebuilt)

def stages (p : Pipeline) : PipelineM Verdict := do
  p.disassemble
  p.postprocess
  p.reassemble
  p.convert
  p.verify

/-- All stages in order. Where a tool fails, what the stages before produced is discarded. -/
def run (p : Pipeline) : PipelineM Verdict :=
  tryCatch p.stages fun s =>
    match s with
    | .fault (.stage _) | .fault (.checksum ..) => do
      p.discardPending
      throw s
    | other => throw other

/-- A run with nothing pending. -/
def runFresh (p : Pipeline) : MachineM Verdict := startWith [] p.run

end Pipeline

/-- One audit from the search for the tools to the verdict. -/
def audit (plan : Plan) : ToolchainM Verdict := do
  Toolchain.ready
  let w ← get
  onMachine (⟨plan, w.own, false⟩ : Pipeline).runFresh

end FirmwareAudit
