import FirmwareAudit.Machine.Workplace
import FirmwareAudit.Plan
import FirmwareAudit.Toolchain.Invocation

/-! # The pipeline and its temporary files

A pipeline works through one plan with one toolchain. What its stages have produced and not yet
removed is pending: paths without repetition, in the order in which they were first produced.
-/
namespace FirmwareAudit

structure Pipeline where
  plan : Plan
  toolchain : Toolchain
  /-- Whether the report has a stream of its own. -/
  reportsApart : Bool

namespace Pipeline

def files (p : Pipeline) : Artifacts := p.plan.artifacts

/-- Where the report goes. -/
def stream (p : Pipeline) : Stream := if p.reportsApart then .report else .output

end Pipeline

/-- Work of a pipeline: beside the machine stand the pending files. -/
abbrev PipelineM := WorkM (List Path)

namespace Pipeline

/-- Puts a path behind the pending ones, if it is not one of them. -/
def addPending (pending : List Path) (path : Path) : List Path :=
  if path ∈ pending then pending else pending ++ [path]

theorem mem_addPending {pending : List Path} {path q : Path} :
    q ∈ addPending pending path ↔ q ∈ pending ∨ q = path := by
  unfold addPending
  split
  · next h => exact ⟨Or.inl, fun hq => hq.elim id fun hq => hq ▸ h⟩
  · simp

theorem nodup_addPending {pending : List Path} (h : pending.Nodup) (path : Path) :
    (addPending pending path).Nodup := by
  unfold addPending
  split
  · exact h
  · next hp =>
    refine List.nodup_append.2 ⟨h, by simp, fun a ha b hb => ?_⟩
    rw [List.mem_singleton.1 hb]
    exact fun he => hp (he ▸ ha)

/-- The pending files after a stage that produced `paths`. -/
def produced (paths : List Path) : PipelineM Unit :=
  modify fun w => { w with own := paths.foldl addPending w.own }

def settle (path : Path) : PipelineM Unit :=
  modify fun w => { w with own := w.own.erase path }

def remove (path : Path) : MachineM Unit := do
  log pipelineLogger "remove_temps" Level.debug ("Removing " ++ path.toString)
  wrapSystemError (fun e => .cleanup path e) (unlink path)

/-- Removes files one after the other and stops at the first that cannot be removed. -/
def removeEach : List Path → PipelineM Unit
  | [] => return
  | path :: rest => do
    onMachine (remove path)
    settle path
    removeEach rest

/-- Removes files that are no longer needed, unless the plan keeps them. -/
def removeTemps (p : Pipeline) (paths : List Path) : PipelineM Unit :=
  if p.plan.keepTemps then return else removeEach paths

/-- Tries to remove a file and warns if that fails. -/
def discard (path : Path) : MachineM Unit := do
  log pipelineLogger "discard_pending" Level.debug
    ("Removing " ++ path.toString ++ " after abort")
  tryCatch (unlink path) fun s =>
    match s with
    | .system e =>
      log pipelineLogger "discard_pending" Level.warning
        ("Could not remove " ++ path.toString ++ ": " ++ e.message)
    | other => throw other

def discardEach : List Path → PipelineM Unit
  | [] => return
  | path :: rest => do
    onMachine (discard path)
    settle path
    discardEach rest

/-- Tries to remove every pending file, whether or not others could be removed, unless the plan
keeps them. -/
def discardPending (p : Pipeline) : PipelineM Unit :=
  if p.plan.keepTemps then return
  else do
    let w ← get
    discardEach w.own

end Pipeline

end FirmwareAudit
