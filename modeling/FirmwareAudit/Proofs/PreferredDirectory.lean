import FirmwareAudit.Proofs.BeforePipeline
import Mathlib.Logic.Function.Iterate

/-! # The working directory first

A tool that lies in the working directory is preferred to all others once that directory stands in
front of the search path, and any other is found where it was found before. This takes a search path
that was set: the directories searched where none is set are given up for the working directory.
-/
namespace FirmwareAudit
open Text

/-- The directories that a lookup goes through on a search path that is set, none on an empty one. -/
def listedDirectories (path : String) : List String :=
  if path = "" then [] else splitAt ':' path

theorem findProgram?_of_has_slash {name : String} (h : has '/' name = true) (t : FileTree)
    (cwd : String) (searchPath : Option String) :
    findProgram? t cwd searchPath name = [name].find? (t.isProgram cwd) := by
  simp [findProgram?, candidates, h]

theorem findProgram?_some {name : String} (h : has '/' name = false) (t : FileTree)
    (cwd path : String) :
    findProgram? t cwd (some path) name =
      ((listedDirectories path).map (candidate · name)).find? (t.isProgram cwd) := by
  by_cases hpath : path = "" <;>
    simp [findProgram?, candidates, searchEntries, listedDirectories, h, hpath]

/-- The working directory is listed first, and behind it what was listed before. -/
theorem listed_searchPathFrom {cwd : String} (hcwd : cwd ≠ "") (hcolon : has ':' cwd = false)
    (searchPath : Option String) :
    listedDirectories (searchPathFrom cwd searchPath) =
      cwd :: searchPath.elim [] listedDirectories := by
  have hsplit : splitAt ':' cwd = [cwd] := splitAt_of_not_mem (has_eq_false.1 hcolon)
  unfold searchPathFrom
  cases searchPath with
  | none => rw [listedDirectories, if_neg hcwd, hsplit, Option.elim_none]
  | some old =>
    rw [Option.elim_some]
    by_cases hold : old = ""
    · simp only [hold, if_true, listedDirectories, if_neg hcwd, hsplit]
    · have hne : cwd ++ ":" ++ old ≠ "" := by simp [hcwd]
      have hbehind : splitAt ':' (cwd ++ ":" ++ old) = cwd :: splitAt ':' old := by
        rw [← List.singleton_append, ← hsplit]
        exact splitAt_append_sep ':' cwd old
      simp only [if_neg hold, listedDirectories, if_neg hne, hbehind]

namespace Machine
variable {m : Machine}

/-- The working directory comes first where a name is looked up, and then what came before. -/
theorem located?_preferringCwd (hcwd : m.cwd ≠ "") (hcolon : has ':' m.cwd = false)
    {program : String} (hname : has '/' program = false) :
    m.preferringCwd.located? program =
      if m.tree.isProgram m.cwd (candidate m.cwd program) then some (candidate m.cwd program)
      else if m.searchPath = none then none else m.located? program := by
  have hlisted := listed_searchPathFrom hcwd hcolon m.searchPath
  have hfind : m.preferringCwd.located? program =
      ((m.cwd :: m.searchPath.elim [] listedDirectories).map (candidate · program)).find?
        (m.tree.isProgram m.cwd) := by
    rw [← hlisted]
    exact findProgram?_some hname m.tree m.cwd _
  rw [hfind, List.map_cons, List.find?_cons]
  cases m.tree.isProgram m.cwd (candidate m.cwd program) with
  | true => rfl
  | false =>
    unfold located?
    cases m.searchPath with
    | none => rfl
    | some path => exact (findProgram?_some hname m.tree m.cwd path).symm

/-- Preferring the working directory once more changes no lookup. -/
theorem located?_preferringCwd_twice (hcwd : m.cwd ≠ "") (hcolon : has ':' m.cwd = false)
    (program : String) :
    m.preferringCwd.preferringCwd.located? program = m.preferringCwd.located? program := by
  cases hname : has '/' program with
  | true =>
    rw [located?, located?, findProgram?_of_has_slash hname, findProgram?_of_has_slash hname]
    rfl
  | false =>
    have hset : m.preferringCwd.searchPath ≠ none := Option.some_ne_none _
    rw [located?_preferringCwd (m := m.preferringCwd) hcwd hcolon hname, if_neg hset]
    split
    · next h =>
      rw [located?_preferringCwd hcwd hcolon hname]
      exact (if_pos h).symm
    · rfl

theorem located?_iterate_preferringCwd (hcwd : m.cwd ≠ "") (hcolon : has ':' m.cwd = false)
    (n : Nat) (program : String) :
    (preferringCwd^[n] m.preferringCwd).located? program = m.preferringCwd.located? program := by
  induction n generalizing m with
  | zero => rfl
  | succ n ih =>
    rw [Function.iterate_succ_apply, ih (m := m.preferringCwd) hcwd hcolon]
    exact located?_preferringCwd_twice hcwd hcolon program

end Machine

/-- Puts the working directory in front of the search path this many times. -/
def preferCwdTimes : Nat → MachineM Unit
  | 0 => return
  | n + 1 => do
    let _ ← preferCwd
    preferCwdTimes n

theorem preferCwd_eq (m : Machine) :
    preferCwd m = .ok (searchPathFrom m.cwd m.searchPath) m.preferringCwd := rfl

theorem preferCwdTimes_eq (n : Nat) (m : Machine) :
    preferCwdTimes n m = .ok () (Machine.preferringCwd^[n] m) := by
  induction n generalizing m with
  | zero => rfl
  | succ n ih =>
    rw [Function.iterate_succ_apply, ← ih]
    exact bind_of_ok (preferCwd_eq m)

namespace Tool
variable {m m' : Machine} {tool : Tool}

/-- Looking the tool up gives the same file on both machines, or says on both that it is missing. -/
def FoundAlike (tool : Tool) (m m' : Machine) : Prop :=
  (∃ file, tool.locate m = .ok file m ∧ tool.locate m' = .ok file m') ∨
    let missing := Stop.fault (.toolNotFound tool.program tool.hint)
    tool.locate m = .error missing m ∧ tool.locate m' = .error missing m'

theorem foundAlike_of_located? (h : m'.located? tool.program = m.located? tool.program) :
    tool.FoundAlike m m' := by
  have hm := tool.locate_eq m
  have hm' := tool.locate_eq m'
  rw [h] at hm'
  cases hfile : m.located? tool.program with
  | none =>
    rw [hfile] at hm hm'
    exact Or.inr ⟨hm, hm'⟩
  | some file =>
    rw [hfile] at hm hm'
    exact Or.inl ⟨file, hm, hm'⟩

end Tool

/-- Once the working directory is preferred, a tool is found there if it lies there. Any other is
found, or missing, as it was before if a search path was set, and is missing if none was. Preferring
the directory any number of times more changes no lookup. -/
theorem preferCwd_locate (m : Machine) (tool : Tool) (habsolute : startsWith "/" m.cwd = true)
    (hcolon : has ':' m.cwd = false) (hname : has '/' tool.program = false) :
    ∃ path m', preferCwd m = .ok path m' ∧ m' = { m with searchPath := some path } ∧
      (m.tree.isProgram m.cwd (candidate m.cwd tool.program) = true →
        tool.locate m' = .ok (candidate m.cwd tool.program) m') ∧
      (m.tree.isProgram m.cwd (candidate m.cwd tool.program) = false →
        (∀ old, m.searchPath = some old → tool.FoundAlike m m') ∧
        (m.searchPath = none →
          tool.locate m' = .error (.fault (.toolNotFound tool.program tool.hint)) m')) ∧
      ∀ n, ∃ m'', preferCwdTimes n m' = .ok () m'' ∧ ∀ other : Tool, other.FoundAlike m' m'' := by
  have hcwd : m.cwd ≠ "" := by
    intro h
    rw [h] at habsolute
    cases habsolute
  have hplace := Machine.located?_preferringCwd hcwd hcolon hname
  refine ⟨_, m.preferringCwd, preferCwd_eq m, rfl, fun hhere => ?_, fun hhere => ⟨?_, ?_⟩,
    fun n => ?_⟩
  · rw [tool.locate_eq, hplace, if_pos hhere]
  · intro old hold
    rw [hhere, if_neg Bool.false_ne_true, if_neg (by simp [hold])] at hplace
    exact Tool.foundAlike_of_located? hplace
  · intro hnone
    rw [tool.locate_eq, hplace, hhere, if_neg Bool.false_ne_true, if_pos hnone]
  · refine ⟨_, preferCwdTimes_eq n m.preferringCwd, fun other => ?_⟩
    exact Tool.foundAlike_of_located?
      (Machine.located?_iterate_preferringCwd hcwd hcolon n other.program)

namespace CommandLine

/-- A machine that has the checksum tool in its working directory as well. -/
def localCopy : Machine :=
  let copy := { FileNode.plain "" with executable := .allowed }
  { toolsOnly with tree := toolsOnly.tree.set ["sha1sum", "work"] (.file copy) }

/-- The checksum tool stays where it was found, and a copy in the working directory is preferred. -/
theorem preferCwd_locate_toolsOnly :
    Tool.checksum.FoundAlike toolsOnly toolsOnly.preferringCwd ∧
      Tool.checksum.locate localCopy.preferringCwd =
        .ok "/work/sha1sum" localCopy.preferringCwd := by
  constructor
  · obtain ⟨path, m', hprefer, -, -, helsewhere, -⟩ :=
      preferCwd_locate toolsOnly Tool.checksum (by decide) (by decide) (by decide)
    cases hprefer
    exact (helsewhere (by decide +kernel)).1 "/bin" rfl
  · obtain ⟨path, m', hprefer, -, hhere, -, -⟩ :=
      preferCwd_locate localCopy Tool.checksum (by decide) (by decide) (by decide)
    cases hprefer
    exact hhere (by decide +kernel)

/-- Where no search path is set, a tool in a directory searched by default is found before and
missing afterwards. -/
theorem preferCwd_loses_default :
    let m := { toolsOnly with searchPath := none }
    Tool.checksum.locate m = .ok "/bin/sha1sum" m ∧
      Tool.checksum.locate m.preferringCwd =
        .error (.fault (.toolNotFound "sha1sum" "coreutils")) m.preferringCwd := by
  intro m
  have hbefore : m.located? Tool.checksum.program = some "/bin/sha1sum" := by decide +kernel
  have hafter : m.preferringCwd.located? Tool.checksum.program = none := by decide +kernel
  constructor
  · rw [Tool.locate_eq, hbefore]
  · rw [Tool.locate_eq, hafter]
    rfl

end CommandLine

end FirmwareAudit
