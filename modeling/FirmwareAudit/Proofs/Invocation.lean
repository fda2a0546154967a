import FirmwareAudit.Proofs.Logging
import FirmwareAudit.Toolchain.Invocation

/-! # What running a tool does

Each command is logged and then tried once: it does not start, it runs and ends badly, or it runs
and exits with status 0. Only the last lets a stage go on, and what stops a stage says which one it
was.
-/
namespace FirmwareAudit
open Text

namespace Stop

/-- A stop that a failed system call makes. -/
def IsCallFault (s : Stop) : Prop := s = .nulByte ∨ ∃ e, s = .system e

theorem isCallFault_ofCall (path : String) (fault : CallFault) :
    (Stop.ofCall path fault).IsCallFault := by
  cases fault with
  | nulByte => exact Or.inl rfl
  | errno e => exact Or.inr ⟨_, rfl⟩

/-- A stop that is a fault of the given stage, if it is a fault. -/
def Blames (stage : String) (s : Stop) : Prop :=
  ∀ f, s = .fault f → ∃ cause : StageFault, f = .stage cause ∧ cause.stage = stage

/-- A stop that says why there is no checksum of a file, if it is a fault. -/
def BlamesChecksum (path : Path) (s : Stop) : Prop :=
  ∀ f, s = .fault f → ∃ cause, f = .checksum path cause

end Stop

/-- A try at a command that did not end with status 0. -/
def Event.Misses (command : List String) : Event → Prop
  | .notStarted c _ => c = command
  | .ran r => r.command = command ∧ r.ending ≠ .exited 0
  | _ => False

theorem Event.Misses.isQuiet {command : List String} {e : Event} (h : e.Misses command)
    (stream : Stream) : e.IsQuiet stream := by
  cases e with
  | notStarted c s => exact ⟨rfl, rfl, rfl⟩
  | ran r => exact ⟨rfl, rfl, rfl⟩
  | _ => cases h

theorem Event.Misses.attempt {command : List String} {e : Event} (h : e.Misses command) :
    e.attempt? = some command := by
  cases e with
  | notStarted c s => exact congrArg some h
  | ran r => exact congrArg some h.1
  | _ => cases h

theorem Event.isQuiet_ran (stream : Stream) (run : Run) : (Event.ran run).IsQuiet stream :=
  ⟨rfl, rfl, rfl⟩

/-- A run of a command that ended with status 0. -/
def Run.Completes (command : List String) (r : Run) : Prop :=
  r.command = command ∧ r.ending = .exited 0

/-- What a caller reads of a run that it captures. -/
def Run.answer (r : Run) : String := String.ofList (unifyLines r.out.toList)

/-- A try at a command that gave no digest. -/
def Event.GivesNoDigest (command : List String) (e : Event) : Prop :=
  e.Misses command ∨
    ∃ run, e = .ran run ∧ run.command = command ∧ Digest.ofAnswer? run.answer = none

theorem Event.GivesNoDigest.isQuiet {command : List String} {e : Event}
    (h : e.GivesNoDigest command) (stream : Stream) : e.IsQuiet stream := by
  rcases h with h | ⟨run, rfl, -, -⟩
  · exact h.isQuiet stream
  · exact Event.isQuiet_ran stream run

theorem Event.GivesNoDigest.attempt {command : List String} {e : Event}
    (h : e.GivesNoDigest command) : e.attempt? = some command := by
  rcases h with h | ⟨run, rfl, hc, -⟩
  · exact h.attempt
  · exact congrArg some hc

/-! ## Calls of the system -/

theorem ofCall_eq_ok {path : String} {r : Except CallFault α} {m m' : Machine} {a : α}
    (h : ofCall path r m = .ok a m') : r = .ok a ∧ m' = m := by
  cases r with
  | ok b =>
    cases h
    exact ⟨rfl, rfl⟩
  | error fault => cases h

theorem ofCall_eq_error {path : String} {r : Except CallFault α} {m m' : Machine} {s : Stop}
    (h : ofCall path r m = .error s m') : s.IsCallFault ∧ m' = m := by
  cases r with
  | ok b => cases h
  | error fault =>
    cases h
    exact ⟨Stop.isCallFault_ofCall path fault, rfl⟩

theorem resolve_of_nul {t : FileTree} {cwd path : String} (h : has '\x00' path = true) :
    t.resolve cwd path = .error .nulByte := by
  rw [FileTree.resolve, if_pos h]

theorem openForWriting_eq_ok {path : String} {mode : FileTree.WriteMode} {m m' : Machine}
    {h : Handle} (ho : openForWriting path mode m = .ok h m') :
    has '\x00' path = false ∧
      ∃ tree, m.tree.openForWriting m.cwd path mode = .ok (h, tree) ∧
        m' = { m with tree, trace := m.trace ++ [.opened path] } := by
  unfold openForWriting at ho
  rw [bind_of_ok (get_apply m), bind_eq_ok] at ho
  obtain ⟨⟨k, tree⟩, u, hc, ho⟩ := ho
  obtain ⟨hr, rfl⟩ := ofCall_eq_ok hc
  cases ho
  refine ⟨?_, tree, hr, rfl⟩
  cases hn : has '\x00' path with
  | false => rfl
  | true =>
    rw [FileTree.openForWriting, resolve_of_nul hn] at hr
    cases hr

theorem openForWriting_eq_error {path : String} {mode : FileTree.WriteMode} {m m' : Machine}
    {s : Stop} (ho : openForWriting path mode m = .error s m') : s.IsCallFault ∧ m' = m := by
  unfold openForWriting at ho
  rw [bind_of_ok (get_apply m), bind_eq_error] at ho
  rcases ho with hc | ⟨⟨k, tree⟩, u, hc, ho⟩
  · exact ofCall_eq_error hc
  · cases ho

/-! ## Programs -/

theorem locateCommand_eq_error {m : Machine} {program : String} {arguments : List String}
    {s : Stop} (h : locateCommand m program arguments = .error s) : s.IsCallFault := by
  unfold locateCommand at h
  split at h
  · cases h
    exact Or.inl rfl
  · cases hr : resolveProgram m.tree m.cwd m.searchPath program with
    | ok file =>
      rw [hr] at h
      cases h
    | error fault =>
      rw [hr] at h
      cases h
      exact Stop.isCallFault_ofCall program fault

/-- A stop that a try at a command can make. -/
def Stop.IsCommandStop (s : Stop) : Prop := s.IsCallFault ∨ s = .interrupted

theorem runProgram_cases (program : String) (arguments : List String) (m : Machine) :
    (∃ s m' e, runProgram program arguments m = .error s m' ∧ s.IsCommandStop ∧
      e.Misses (program :: arguments) ∧ m.Adds [e] m') ∨
    (∃ c m' run, runProgram program arguments m = .ok c m' ∧
      run.command = program :: arguments ∧ run.ending = .exited c.status ∧ run.out = c.out ∧
      m.Adds [.ran run] m') := by
  unfold runProgram
  rw [bind_of_ok (get_apply m)]
  cases hl : locateCommand m program arguments with
  | error s =>
    refine Or.inl ⟨s, _, .notStarted (program :: arguments) s, rfl, ?_, rfl, ?_⟩
    · exact Or.inl (locateCommand_eq_error hl)
    · exact Machine.adds_of_trace [.notStarted (program :: arguments) s] rfl
  | ok file =>
    simp only
    rw [bind_of_ok (set_apply _ _)]
    cases hp : m.programs (baseName program) (m.turns (baseName program))
      ⟨m.cwd, program, arguments⟩ m.tree with
    | refused e =>
      let s : Stop := .system ⟨e, none⟩
      refine Or.inl ⟨s, _, .notStarted (program :: arguments) s, rfl, ?_, rfl, ?_⟩
      · exact Or.inl (Or.inr ⟨_, rfl⟩)
      · exact Machine.adds_of_trace [.notStarted (program :: arguments) s] rfl
    | ran tree out err ending =>
      let run : Run := ⟨file, program :: arguments, out, err, ending⟩
      cases ending with
      | exited status =>
        exact Or.inr ⟨⟨status, out, err⟩, _, run, rfl, rfl, rfl, rfl,
          Machine.adds_of_trace [.ran run] rfl⟩
      | interrupted =>
        exact Or.inl ⟨.interrupted, _, .ran run, rfl, Or.inr rfl, ⟨rfl, nofun⟩,
          Machine.adds_of_trace [.ran run] rfl⟩
      | nulByte =>
        exact Or.inl ⟨.nulByte, _, .ran run, rfl, Or.inl (Or.inl rfl), ⟨rfl, nofun⟩,
          Machine.adds_of_trace [.ran run] rfl⟩

theorem adds_deliver (text : String) (destination : Destination) (m : Machine) :
    ∃ m', deliver text destination m = .ok () m' ∧ m.Adds [] m' := by
  cases destination with
  | file h => exact ⟨_, rfl, Machine.adds_of_trace [] (List.append_nil _).symm⟩
  | nowhere => exact ⟨_, rfl, Machine.Adds.refl m⟩
  | shared => exact ⟨_, rfl, Machine.adds_of_trace [.toolOutput text] rfl⟩

theorem execute_cases (program : String) (arguments : List String) (destination : Destination)
    (m : Machine) :
    (∃ s m' e, execute program arguments destination m = .error s m' ∧ s.IsCommandStop ∧
      e.Misses (program :: arguments) ∧ m.Adds [e] m') ∨
    (∃ status m' run, execute program arguments destination m = .ok status m' ∧
      run.command = program :: arguments ∧ run.ending = .exited status ∧ m.Adds [.ran run] m') := by
  unfold execute
  rcases runProgram_cases program arguments m with ⟨s, m', e, hr, hs, he, ha⟩ | h
  · exact Or.inl ⟨s, m', e, bind_of_error hr, hs, he, ha⟩
  · obtain ⟨c, m', run, hr, hc, he, -, ha⟩ := h
    obtain ⟨m'', hd, hd'⟩ := adds_deliver c.out destination m'
    have hlast : m''.Adds [] (m''.record (.toolErrors c.err)) :=
      Machine.adds_of_trace [.toolErrors c.err] rfl
    refine Or.inr ⟨c.status, _, run, ?_, hc, he, (ha.trans hd').trans hlast⟩
    rw [bind_of_ok hr, bind_of_ok hd]
    rfl

theorem capture_cases (program : String) (arguments : List String) (m : Machine) :
    (∃ s m' e, capture program arguments m = .error s m' ∧ s.IsCommandStop ∧
      e.Misses (program :: arguments) ∧ m.Adds [e] m') ∨
    (∃ c m' run, capture program arguments m = .ok c m' ∧
      run.command = program :: arguments ∧ run.ending = .exited c.status ∧ c.out = run.answer ∧
      m.Adds [.ran run] m') := by
  unfold capture
  rcases runProgram_cases program arguments m with ⟨s, m', e, hr, hs, he, ha⟩ | h
  · exact Or.inl ⟨s, m', e, bind_of_error hr, hs, he, ha⟩
  · obtain ⟨c, m', run, hr, hc, he, ho, ha⟩ := h
    refine Or.inr ⟨_, m', run, bind_of_ok hr, hc, he, ?_, ha⟩
    rw [Run.answer, ho]

/-! ## Tools -/

theorem wrapSystemError_of_ok {toFault : SystemError → Fault} {act : MachineM α} {m m' : Machine}
    {a : α} (h : act m = .ok a m') : wrapSystemError toFault act m = .ok a m' :=
  tryCatch_of_ok h

theorem wrapSystemError_eq_ok {toFault : SystemError → Fault} {act : MachineM α} {m m' : Machine}
    {a : α} (h : wrapSystemError toFault act m = .ok a m') : act m = .ok a m' := by
  cases hact : act m with
  | ok b m₁ => exact (wrapSystemError_of_ok hact).symm.trans h
  | error s m₁ =>
    rw [wrapSystemError, tryCatch_of_error hact] at h
    cases s <;> cases h

theorem wrapSystemError_of_error (toFault : SystemError → Fault) {act : MachineM α}
    {m m' : Machine} {s : Stop} (hs : s.IsCommandStop) (h : act m = .error s m') :
    ∃ s', wrapSystemError toFault act m = .error s' m' ∧
      ∀ f, s' = .fault f → ∃ e, f = toFault e := by
  unfold wrapSystemError
  rw [tryCatch_of_error h]
  rcases hs with (rfl | ⟨e, rfl⟩) | rfl
  · exact ⟨_, rfl, nofun⟩
  · refine ⟨_, rfl, ?_⟩
    intro f hf
    cases hf
    exact ⟨e, rfl⟩
  · exact ⟨_, rfl, nofun⟩

theorem Keeps.wrapSystemError {I : Machine → Prop} {act : MachineM α}
    (toFault : SystemError → Fault) (h : Keeps I act) : Keeps I (wrapSystemError toFault act) := by
  apply h.tryCatch
  intro s
  cases s <;> exact Keeps.throw _

namespace Output

theorem prepare_cases (output : Output) (m : Machine) :
    (∃ s, output.prepare m = .error s m ∧ s.IsCallFault) ∨
    (∃ d m', output.prepare m = .ok d m' ∧ m.Adds [] m' ∧
      ∀ path, output = file path → has '\x00' path.toString = false) := by
  cases output with
  | shared => exact Or.inr ⟨_, m, rfl, Machine.Adds.refl m, nofun⟩
  | discarded => exact Or.inr ⟨_, m, rfl, Machine.Adds.refl m, nofun⟩
  | file path =>
    unfold prepare
    cases ho : openForWriting path.toString .truncate m with
    | error s m' =>
      obtain ⟨hs, rfl⟩ := openForWriting_eq_error ho
      exact Or.inl ⟨s, bind_of_error ho, hs⟩
    | ok h m' =>
      obtain ⟨hn, tree, -, rfl⟩ := openForWriting_eq_ok ho
      refine Or.inr ⟨.file h, _, bind_of_ok ho, ?_, ?_⟩
      · exact Machine.adds_of_trace [.opened path.toString] rfl
      · intro path' hp
        cases hp
        exact hn

end Output

theorem redirected_cases (program : String) (arguments : List String) (output : Output)
    (m : Machine) :
    (∃ s m' e, (do
        let destination ← tryCatch output.prepare (failToStart (program :: arguments))
        execute program arguments destination : MachineM Int) m = .error s m' ∧
      s.IsCommandStop ∧ e.Misses (program :: arguments) ∧ m.Adds [e] m') ∨
    (∃ status m' run, (do
        let destination ← tryCatch output.prepare (failToStart (program :: arguments))
        execute program arguments destination : MachineM Int) m = .ok status m' ∧
      run.command = program :: arguments ∧ run.ending = .exited status ∧
      (∀ path, output = .file path → has '\x00' path.toString = false) ∧ m.Adds [.ran run] m') := by
  rcases output.prepare_cases m with ⟨s, hp, hs⟩ | ⟨d, m₁, hp, ha, hn⟩
  · have hc : tryCatch output.prepare (failToStart (program :: arguments)) m =
        .error s (m.record (.notStarted (program :: arguments) s)) := by
      rw [tryCatch_of_error hp]
      rfl
    refine Or.inl ⟨s, _, .notStarted (program :: arguments) s, bind_of_error hc, Or.inl hs, rfl, ?_⟩
    exact Machine.adds_of_trace [.notStarted (program :: arguments) s] rfl
  · have hc : tryCatch output.prepare (failToStart (program :: arguments)) m = .ok d m₁ :=
      tryCatch_of_ok hp
    rw [bind_of_ok hc]
    rcases execute_cases program arguments d m₁ with ⟨s, m', e, hr, hs, he, ha'⟩ | h
    · exact Or.inl ⟨s, m', e, hr, hs, he, ha.trans ha'⟩
    · obtain ⟨status, m', run, hr, hcmd, he, ha'⟩ := h
      exact Or.inr ⟨status, m', run, hr, hcmd, he, hn, ha.trans ha'⟩

namespace Toolchain

/-- The record of a command. -/
def commandRecord (operation stage : String) (command : List String) (output : Output) : Record :=
  ⟨toolLogger, operation, Level.debug, "[" ++ stage ++ "] " ++ shellLine command ++ output.redirection⟩

theorem isQuiet_commandRecord (stream : Stream) (operation stage : String) (command : List String)
    (output : Output) :
    (Event.logged (commandRecord operation stage command output)).IsQuiet stream :=
  Event.isQuiet_logged stream (show Level.debug ≠ Level.warning by decide)

variable (tc : Toolchain)

theorem tool_of_some {role : String} {tool : Tool} (h : tc.tool? role = some tool) (m : Machine) :
    tc.tool role m = .ok tool m := by
  simp only [Toolchain.tool, h]
  rfl

theorem tool_of_none {role : String} (h : tc.tool? role = none) (m : Machine) :
    tc.tool role m = .error (.unknownRole role) m := by
  simp only [Toolchain.tool, h]
  rfl

/-- With the usual tools, each role has its tool. -/
theorem tool?_of_required {tool : Tool} (htools : tc.tools = Tool.required)
    (ht : tool ∈ Tool.required) : tc.tool? tool.role = some tool := by
  have hall : ∀ tool ∈ Tool.required, Tool.required.find? (·.role == tool.role) = some tool := by
    decide
  rw [Toolchain.tool?, htools, hall tool ht]

/-- A tool that is run for a stage is not there, misses its command, or completes it. -/
theorem run_cases (stage role : String) (arguments : List String) (output : Output) (m : Machine) :
    (tc.tool? role = none ∧
      tc.run stage role arguments output m = .error (.unknownRole role) m) ∨
    ∃ tool m', tc.tool? role = some tool ∧
      ((∃ s e, tc.run stage role arguments output m = .error s m' ∧ s.Blames stage ∧
          e.Misses (tool.program :: arguments) ∧
          m.Adds [.logged (commandRecord "run" stage (tool.program :: arguments) output), e] m') ∨
        (∃ run, tc.run stage role arguments output m = .ok () m' ∧
          run.Completes (tool.program :: arguments) ∧
          (∀ path, output = .file path → has '\x00' path.toString = false) ∧
          m.Adds [.logged (commandRecord "run" stage (tool.program :: arguments) output),
            .ran run] m')) := by
  cases ht : tc.tool? role with
  | none =>
    refine Or.inl ⟨rfl, ?_⟩
    exact bind_of_error (tc.tool_of_none ht m)
  | some tool =>
    right
    unfold Toolchain.run
    rw [bind_of_ok (tc.tool_of_some ht m), bind_of_ok (log_eq _ _ _ _ m)]
    have hlog := m.adds_afterLog toolLogger "run" Level.debug
      ("[" ++ stage ++ "] " ++ shellLine (tool.program :: arguments) ++ output.redirection)
    generalize m.afterLog toolLogger "run" Level.debug
      ("[" ++ stage ++ "] " ++ shellLine (tool.program :: arguments) ++ output.redirection) = m₀
      at hlog ⊢
    rcases redirected_cases tool.program arguments output m₀ with ⟨s, m', e, hr, hs, he, ha⟩ | h
    · obtain ⟨s', hw, hf⟩ := wrapSystemError_of_error
        (fun e => .stage (.notStarted stage tool.program (tool.program :: arguments) e))
        hs hr
      refine ⟨tool, m', rfl, Or.inl ⟨s', e, bind_of_error hw, ?_, he, hlog.trans ha⟩⟩
      intro f hs'
      obtain ⟨cause, rfl⟩ := hf f hs'
      exact ⟨_, rfl, rfl⟩
    · obtain ⟨status, m', run, hr, hcmd, he, hn, ha⟩ := h
      rw [bind_of_ok (wrapSystemError_of_ok hr)]
      by_cases hz : status = 0
      · subst hz
        exact ⟨tool, m', rfl, Or.inr ⟨run, rfl, ⟨hcmd, he⟩, hn, hlog.trans ha⟩⟩
      · rw [if_pos hz]
        refine ⟨tool, m', rfl, Or.inl ⟨_, .ran run, rfl, ?_, ⟨hcmd, ?_⟩, hlog.trans ha⟩⟩
        · intro f hf
          cases hf
          exact ⟨_, rfl, rfl⟩
        · rw [he]
          simpa using hz

/-- The checksum tool is not there, misses its command, gives no digest, or gives one. -/
theorem checksum_cases (path : Path) (m : Machine) :
    (tc.tool? Tool.checksum.role = none ∧
      tc.checksum path m = .error (.unknownRole Tool.checksum.role) m) ∨
    ∃ tool m', tc.tool? Tool.checksum.role = some tool ∧
      ((∃ s e, tc.checksum path m = .error s m' ∧ s.BlamesChecksum path ∧
          e.GivesNoDigest [tool.program, path.toString] ∧
          m.Adds [.logged (commandRecord "sha1" "verify" [tool.program, path.toString] .shared), e]
            m') ∨
        (∃ run digest, tc.checksum path m = .ok ⟨path, digest⟩ m' ∧
          run.Completes [tool.program, path.toString] ∧
          Digest.ofAnswer? run.answer = some digest ∧
          m.Adds [.logged (commandRecord "sha1" "verify" [tool.program, path.toString] .shared),
            .ran run] m')) := by
  cases ht : tc.tool? Tool.checksum.role with
  | none =>
    refine Or.inl ⟨rfl, ?_⟩
    exact bind_of_error (tc.tool_of_none ht m)
  | some tool =>
    right
    unfold Toolchain.checksum
    rw [bind_of_ok (tc.tool_of_some ht m), bind_of_ok (log_eq _ _ _ _ m)]
    have hlog : m.Adds
        [.logged (commandRecord "sha1" "verify" [tool.program, path.toString] .shared)]
        (m.afterLog toolLogger "sha1" Level.debug
          ("[verify] " ++ shellLine [tool.program, path.toString])) := by
      have hrec : commandRecord "sha1" "verify" [tool.program, path.toString] .shared =
          ⟨Journal.properName toolLogger, "sha1", Level.debug,
            "[verify] " ++ shellLine [tool.program, path.toString]⟩ := by
        simp [commandRecord, Output.redirection, Journal.properName, Journal.isRoot, toolLogger,
          Journal.rootName]
      rw [hrec]
      exact m.adds_afterLog _ _ _ _
    generalize m.afterLog toolLogger "sha1" Level.debug
      ("[verify] " ++ shellLine [tool.program, path.toString]) = m₀ at hlog ⊢
    rcases capture_cases tool.program [path.toString] m₀ with ⟨s, m', e, hr, hs, he, ha⟩ | h
    · obtain ⟨s', hw, hf⟩ := wrapSystemError_of_error
        (fun e => .checksum path (.notStarted e)) hs hr
      refine ⟨tool, m', rfl, Or.inl ⟨s', e, bind_of_error hw, ?_, Or.inl he, hlog.trans ha⟩⟩
      intro f hs'
      obtain ⟨cause, rfl⟩ := hf f hs'
      exact ⟨_, rfl⟩
    · obtain ⟨c, m', run, hr, hcmd, he, ho, ha⟩ := h
      rw [bind_of_ok (wrapSystemError_of_ok hr)]
      by_cases hz : c.status = 0
      · rw [if_neg (not_not_intro hz), ho]
        cases hd : Digest.ofAnswer? run.answer with
        | none =>
          refine ⟨tool, m', rfl, Or.inl ⟨_, .ran run, rfl, ?_, Or.inr ⟨run, rfl, hcmd, hd⟩,
            hlog.trans ha⟩⟩
          intro f hf
          cases hf
          exact ⟨_, rfl⟩
        | some digest =>
          have he0 : run.ending = .exited 0 := by rw [he, hz]
          exact ⟨tool, m', rfl, Or.inr ⟨run, digest, rfl, ⟨hcmd, he0⟩, hd, hlog.trans ha⟩⟩
      · rw [if_pos hz]
        refine ⟨tool, m', rfl, Or.inl ⟨_, .ran run, rfl, ?_, Or.inl ⟨hcmd, ?_⟩, hlog.trans ha⟩⟩
        · intro f hf
          cases hf
          exact ⟨_, rfl⟩
        · rw [he]
          simpa using hz

end Toolchain

end FirmwareAudit
