import FirmwareAudit.Proofs.AbortCleanup
import FirmwareAudit.Proofs.ToolSearch

/-! # Starting what was looked up

A tool that a lookup finds runs from the file that was found, and a tool that is missing does not
run. What is logged before the start, and the output that is made ready for it, have no bearing on
this.
-/
namespace FirmwareAudit
open Text

/-- What comes behind a computation adds no act of its own. -/
theorem Machine.Adds.bind {x : MachineM α} {f : α → MachineM β} {m : Machine} {es : List Event}
    (h : m.Adds es (endState (x m))) (hf : ∀ (a : α) (m' : Machine), m'.Adds [] (endState (f a m'))) :
    m.Adds es (endState ((x >>= f) m)) := by
  cases hx : x m with
  | ok a m' =>
    rw [hx] at h
    rw [bind_of_ok hx, ← List.append_nil es]
    exact h.trans (hf a m')
  | error s m' =>
    rw [hx] at h
    rwa [bind_of_error hx]

section Commands
variable {m : Machine} {program : String} {arguments : List String}
  (hpath : IsSearchPath m.searchPath)
  (hwords : ∀ w ∈ program :: arguments, has '\x00' w = false)
include hpath hwords

theorem locateCommand_of_located? :
    (m.tree.Fit → ∀ file, m.located? program = some file →
      locateCommand m program arguments = .ok file) ∧
    (m.located? program = none →
      ∃ e, locateCommand m program arguments = .error (.system ⟨e, some program⟩)) := by
  have hany : (program :: arguments).any (has '\x00') = false := by
    rw [List.any_eq_false]
    exact fun w hw => by simp [hwords w hw]
  obtain ⟨hsome, hnone⟩ := resolveProgram_of_findProgram? hpath (hwords _ List.mem_cons_self)
    m.tree m.cwd
  unfold locateCommand
  rw [hany]
  constructor
  · intro hfit file h
    rw [hsome hfit file h]
    rfl
  · intro h
    obtain ⟨e, he⟩ := hnone h
    rw [he]
    exact ⟨e, rfl⟩

theorem runProgram_of_located? (hstart : m.Starts program) {file : String}
    (h : m.located? program = some file) :
    ∃ run, run.file = file ∧ run.command = program :: arguments ∧
      m.Adds [.ran run] (endState (runProgram program arguments m)) := by
  unfold runProgram
  rw [bind_of_ok (get_apply m), (locateCommand_of_located? hpath hwords).1 hstart.fit file h]
  simp only
  rw [bind_of_ok (set_apply _ _)]
  cases hp : m.programs (baseName program) (m.turns (baseName program))
    ⟨m.cwd, program, arguments⟩ m.tree with
  | refused e => exact absurd hp (hstart.made _ _ _ e)
  | ran tree out err ending =>
    refine ⟨⟨file, program :: arguments, out, err, ending⟩, rfl, rfl, ?_⟩
    cases ending <;> exact Machine.adds_of_trace [.ran _] rfl

theorem runProgram_of_located?_none (h : m.located? program = none) :
    ∃ e m', runProgram program arguments m = .error (.system e) m' ∧
      m.Adds [.notStarted (program :: arguments) (.system e)] m' := by
  obtain ⟨e, he⟩ := (locateCommand_of_located? hpath hwords).2 h
  let event : Event := .notStarted (program :: arguments) (.system ⟨e, some program⟩)
  refine ⟨_, m.record event, ?_, Machine.adds_of_trace [event] rfl⟩
  rw [runProgram, bind_of_ok (get_apply m), he]
  rfl

theorem capture_of_located? (hstart : m.Starts program) {file : String}
    (h : m.located? program = some file) :
    ∃ run, run.file = file ∧ run.command = program :: arguments ∧
      m.Adds [.ran run] (endState (capture program arguments m)) := by
  obtain ⟨run, hfile, hcommand, ha⟩ := runProgram_of_located? hpath hwords hstart h
  exact ⟨run, hfile, hcommand, ha.bind fun _ m' => Machine.Adds.refl m'⟩

theorem execute_of_located? (hstart : m.Starts program) {file : String}
    (h : m.located? program = some file) (destination : Destination) :
    ∃ run, run.file = file ∧ run.command = program :: arguments ∧
      m.Adds [.ran run] (endState (execute program arguments destination m)) := by
  obtain ⟨run, hfile, hcommand, ha⟩ := runProgram_of_located? hpath hwords hstart h
  refine ⟨run, hfile, hcommand, ha.bind fun c m' => ?_⟩
  obtain ⟨m'', hd, ha'⟩ := adds_deliver c.out destination m'
  have hlast : m''.Adds [] (m''.record (.toolErrors c.err)) :=
    Machine.adds_of_trace [.toolErrors c.err] rfl
  rw [bind_of_ok hd]
  exact ha'.trans hlast

end Commands

namespace Output

/-- An output that is made ready has no bearing on where programs are found. -/
theorem prepare_findsAlike (output : Output) (m : Machine) :
    (∃ path s, output = .file path ∧ output.prepare m = .error s m ∧ s.IsCallFault ∧
      (has '\x00' path.toString = false → s ≠ .nulByte)) ∨
    ∃ d m', output.prepare m = .ok d m' ∧ m.FindsAlike m' ∧ m.Adds [] m' := by
  cases output with
  | shared => exact Or.inr ⟨_, m, rfl, .refl m, Machine.Adds.refl m⟩
  | discarded => exact Or.inr ⟨_, m, rfl, .refl m, Machine.Adds.refl m⟩
  | file path =>
    cases ho : openForWriting path.toString .truncate m with
    | ok handle m' =>
      obtain ⟨-, t, hr, rfl⟩ := openForWriting_eq_ok ho
      refine Or.inr ⟨.file handle, _, bind_of_ok ho, ⟨rfl, rfl, rfl, ?_⟩, ?_⟩
      · exact FileTree.sameWays_openForWriting hr
      · exact Machine.adds_of_trace [.opened path.toString] rfl
    | error s m' =>
      obtain ⟨hs, rfl⟩ := openForWriting_eq_error ho
      refine Or.inl ⟨path, s, rfl, bind_of_error ho, hs, fun hnul => ?_⟩
      rintro rfl
      exact openForWriting_ne_nulByte hnul ho

end Output

theorem wrapSystemError_of_system (toFault : SystemError → Fault) {act : MachineM α}
    {m m' : Machine} {e : SystemError} (h : act m = .error (.system e) m') :
    wrapSystemError toFault act m = .error (.fault (toFault e)) m' :=
  tryCatch_of_error h

theorem endState_wrapSystemError (toFault : SystemError → Fault) (act : MachineM α) (m : Machine) :
    endState (wrapSystemError toFault act m) = endState (act m) := by
  unfold wrapSystemError
  cases h : act m with
  | ok a m' => rw [tryCatch_of_ok h]
  | error s m' =>
    rw [tryCatch_of_error h]
    cases s <;> rfl

section Redirection
variable {m : Machine} {program : String} {arguments : List String}
  (hpath : IsSearchPath m.searchPath)
  (hwords : ∀ w ∈ program :: arguments, has '\x00' w = false)
include hpath hwords

theorem redirected_of_located? (hstart : m.Starts program) {file : String}
    (h : m.located? program = some file) (output : Output) :
    (∃ path s, output = .file path ∧ s.IsCallFault ∧
      (do
        let destination ← tryCatch output.prepare (failToStart (program :: arguments))
        execute program arguments destination : MachineM Int) m =
          .error s (m.record (.notStarted (program :: arguments) s))) ∨
    ∃ run, run.file = file ∧ run.command = program :: arguments ∧
      m.Adds [.ran run] (endState ((do
        let destination ← tryCatch output.prepare (failToStart (program :: arguments))
        execute program arguments destination : MachineM Int) m)) := by
  rcases output.prepare_findsAlike m with ⟨path, s, rfl, hp, hs, -⟩ | ⟨d, m₁, hp, halike, ha⟩
  · have hc : tryCatch (Output.file path).prepare (failToStart (program :: arguments)) m =
        .error s (m.record (.notStarted (program :: arguments) s)) := tryCatch_of_error hp
    exact Or.inl ⟨path, s, rfl, hs, bind_of_error hc⟩
  · rw [bind_of_ok (tryCatch_of_ok hp)]
    rw [← halike.located?_eq] at h
    obtain ⟨run, hfile, hcommand, ha'⟩ := execute_of_located? (halike.isSearchPath hpath) hwords
      (halike.starts hstart) h d
    exact Or.inr ⟨run, hfile, hcommand, ha.trans ha'⟩

theorem redirected_of_located?_none (h : m.located? program = none) {output : Output}
    (hout : ∀ path, output = .file path → has '\x00' path.toString = false) :
    ∃ e m', (do
        let destination ← tryCatch output.prepare (failToStart (program :: arguments))
        execute program arguments destination : MachineM Int) m = .error (.system e) m' ∧
      m.Adds [.notStarted (program :: arguments) (.system e)] m' := by
  rcases output.prepare_findsAlike m with ⟨path, s, rfl, hp, hs, hnul⟩ | ⟨d, m₁, hp, halike, ha⟩
  · obtain ⟨e, rfl⟩ := hs.resolve_left (hnul (hout path rfl))
    have hc : tryCatch (Output.file path).prepare (failToStart (program :: arguments)) m =
        .error (.system e) (m.record (.notStarted (program :: arguments) (.system e))) :=
      tryCatch_of_error hp
    exact ⟨e, _, bind_of_error hc, Machine.adds_of_trace [.notStarted _ _] rfl⟩
  · rw [bind_of_ok (tryCatch_of_ok hp)]
    rw [← halike.located?_eq] at h
    obtain ⟨e, m', hr, ha'⟩ := runProgram_of_located?_none (halike.isSearchPath hpath) hwords h
    exact ⟨e, m', bind_of_error hr, ha.trans ha'⟩

end Redirection

theorem opened_not_mem_echoes (j : Journal) (logger : String) (r : Record) (path : String) :
    .opened path ∉ j.echoes logger r := by
  intro h
  unfold Journal.echoes at h
  split at h
  · split at h
    · split at h
      · cases List.mem_singleton.1 h
      · cases h
    · obtain ⟨handler, -, h⟩ := List.mem_flatMap.1 h
      unfold Handler.echoes at h
      split at h
      · cases h
      · split at h
        · cases List.mem_singleton.1 h
        · cases h
  · cases h

/-! ## Tools -/

theorem runsOf_of_adds {m m₁ m' : Machine} {r : Record} {e : Event} (hlog : m.Adds [.logged r] m₁)
    (h : m₁.Adds [e] m') : ∃ events, m'.trace = m.trace ++ events ∧ runsOf events = runsOf [e] := by
  obtain ⟨events, ht, ha⟩ := hlog.trans h
  refine ⟨events, ht, ?_⟩
  rw [← runsOf_acts, ha]
  rfl

/-- What follows a run and adds no act leaves it the only one. -/
theorem runsOf_of_bind {x : MachineM α} {f : α → MachineM β} {m m₁ : Machine} {r : Record}
    {run : Run} (hlog : m.Adds [.logged r] m₁) (h : m₁.Adds [.ran run] (endState (x m₁)))
    (hf : ∀ a m', Machine.Adds m' [] (endState (f a m'))) :
    ∃ events, (endState ((x >>= f) m₁)).trace = m.trace ++ events ∧ runsOf events = [run] :=
  runsOf_of_adds hlog (h.bind hf)

namespace Toolchain

section Lookups
variable {tc : Toolchain} {tool : Tool} {m : Machine} (hpath : IsSearchPath m.searchPath)
include hpath

section Stages
variable {role : String} {arguments : List String} (hrole : tc.tool? role = some tool)
  (hwords : ∀ w ∈ tool.program :: arguments, has '\x00' w = false) (stage : String)
  (output : Output)
include hrole hwords

/-- A tool that is found runs for a stage from where it was found, if its output can be opened. -/
theorem run_of_located? (hstart : m.Starts tool.program) {file : String}
    (hfile : m.located? tool.program = some file) :
    ∃ events, (endState (tc.run stage role arguments output m)).trace = m.trace ++ events ∧
      ((∀ path, output = .file path → .opened path.toString ∈ events) →
        ∃ run, runsOf events = [run] ∧ run.file = file ∧
          run.command = tool.program :: arguments) := by
  let command := tool.program :: arguments
  let line := "[" ++ stage ++ "] " ++ shellLine command ++ output.redirection
  have hlog := m.adds_afterLog toolLogger "run" Level.debug line
  have halike := m.findsAlike_afterLog toolLogger "run" Level.debug line
  rw [← halike.located?_eq] at hfile
  unfold Toolchain.run
  rw [bind_of_ok (tc.tool_of_some hrole m), bind_of_ok (log_eq _ _ _ _ m)]
  rcases redirected_of_located? (halike.isSearchPath hpath) hwords (halike.starts hstart) hfile
    output with ⟨path, s, rfl, hs, hr⟩ | ⟨run, hrun, hcommand, ha⟩
  · -- The output was not opened, and nothing was started.
    obtain ⟨s', hw, -⟩ := wrapSystemError_of_error
      (fun e => .stage (.notStarted stage tool.program command e)) (Or.inl hs) hr
    rw [bind_of_error hw]
    refine ⟨_, List.append_assoc _ _ _, fun hopened => ?_⟩
    have hmem := hopened path rfl
    simp [opened_not_mem_echoes] at hmem
  · rw [← endState_wrapSystemError (fun e => .stage (.notStarted stage tool.program command e))]
      at ha
    obtain ⟨events, ht, hruns⟩ := runsOf_of_adds hlog <| ha.bind
      (f := fun status => if status ≠ 0 then
        throw (.fault (.stage (.failed stage tool.program command status))) else pure ()) <| by
      intro status m'
      split <;> exact Machine.Adds.refl m'
    exact ⟨events, ht, fun _ => ⟨run, hruns, hrun, hcommand⟩⟩

/-- A tool that is not found does not start. -/
theorem run_of_located?_none (hfile : m.located? tool.program = none)
    (hout : ∀ path, output = .file path → has '\x00' path.toString = false) :
    ∃ cause m' events, tc.run stage role arguments output m =
        .error (.fault (.stage (.notStarted stage tool.program (tool.program :: arguments) cause)))
          m' ∧
      m'.trace = m.trace ++ events ∧ runsOf events = [] := by
  let command := tool.program :: arguments
  let line := "[" ++ stage ++ "] " ++ shellLine command ++ output.redirection
  have hlog := m.adds_afterLog toolLogger "run" Level.debug line
  have halike := m.findsAlike_afterLog toolLogger "run" Level.debug line
  rw [← halike.located?_eq] at hfile
  unfold Toolchain.run
  rw [bind_of_ok (tc.tool_of_some hrole m), bind_of_ok (log_eq _ _ _ _ m)]
  obtain ⟨e, m', hr, ha⟩ := redirected_of_located?_none (halike.isSearchPath hpath) hwords hfile
    hout
  obtain ⟨events, ht, hruns⟩ := runsOf_of_adds hlog ha
  have hw := wrapSystemError_of_system (fun e => .stage (.notStarted stage tool.program command e)) hr
  exact ⟨e, m', events, bind_of_error hw, ht, hruns⟩

end Stages

section Checksums
variable {path : Path} (hrole : tc.tool? Tool.checksum.role = some tool)
  (hwords : ∀ w ∈ [tool.program, path.toString], has '\x00' w = false)
include hrole hwords

/-- A checksum tool that is found runs from where it was found. -/
theorem checksum_of_located? (hstart : m.Starts tool.program) {file : String}
    (hfile : m.located? tool.program = some file) :
    ∃ events, (endState (tc.checksum path m)).trace = m.trace ++ events ∧
      ∃ run, runsOf events = [run] ∧ run.file = file ∧
        run.command = [tool.program, path.toString] := by
  let line := "[verify] " ++ shellLine [tool.program, path.toString]
  have hlog := m.adds_afterLog toolLogger "sha1" Level.debug line
  have halike := m.findsAlike_afterLog toolLogger "sha1" Level.debug line
  rw [← halike.located?_eq] at hfile
  unfold Toolchain.checksum
  rw [bind_of_ok (tc.tool_of_some hrole m), bind_of_ok (log_eq _ _ _ _ m)]
  obtain ⟨run, hrun, hcommand, ha⟩ := capture_of_located? (halike.isSearchPath hpath) hwords
    (halike.starts hstart) hfile
  rw [← endState_wrapSystemError (fun e => .checksum path (.notStarted e))] at ha
  refine (runsOf_of_bind hlog ha ?_).imp fun events h => ⟨h.1, run, h.2, hrun, hcommand⟩
  intro answer m'
  split
  · exact Machine.Adds.refl m'
  · cases Digest.ofAnswer? answer.out <;> exact Machine.Adds.refl m'

/-- A checksum tool that is not found does not start. -/
theorem checksum_of_located?_none (hfile : m.located? tool.program = none) :
    ∃ cause m' events, tc.checksum path m =
        .error (.fault (.checksum path (.notStarted cause))) m' ∧
      m'.trace = m.trace ++ events ∧ runsOf events = [] := by
  let line := "[verify] " ++ shellLine [tool.program, path.toString]
  have hlog := m.adds_afterLog toolLogger "sha1" Level.debug line
  have halike := m.findsAlike_afterLog toolLogger "sha1" Level.debug line
  rw [← halike.located?_eq] at hfile
  unfold Toolchain.checksum
  rw [bind_of_ok (tc.tool_of_some hrole m), bind_of_ok (log_eq _ _ _ _ m)]
  obtain ⟨e, m', hr, ha⟩ := runProgram_of_located?_none (halike.isSearchPath hpath) hwords hfile
  have hc : capture tool.program [path.toString] _ = .error (.system e) _ := bind_of_error hr
  have hw := wrapSystemError_of_system (fun e => .checksum path (.notStarted e)) hc
  obtain ⟨events, ht, hruns⟩ := runsOf_of_adds hlog ha
  exact ⟨e, m', events, bind_of_error hw, ht, hruns⟩

end Checksums

end Lookups

/-- A tool of the table runs from exactly the file that a lookup gives for it, for a stage whose
output could be opened and for a checksum. Where the lookup finds none, the stage and the checksum
fail, and no program runs. -/
theorem starts_what_is_located (tc : Toolchain) (role stage : String) (arguments : List String)
    (output : Output) (path : Path) (tool : Tool) (m : Machine)
    (hpath : IsSearchPath m.searchPath) (hprogram : has '\x00' tool.program = false)
    (harguments : ∀ a ∈ path.toString :: arguments, has '\x00' a = false)
    (hout : ∀ p, output = .file p → has '\x00' p.toString = false)
    (hstart : m.Starts tool.program) :
    (∀ file m', tool.locate m = .ok file m' →
      (tc.tool? role = some tool →
        ∃ events, (endState (tc.run stage role arguments output m)).trace = m.trace ++ events ∧
          ((∀ p, output = .file p → .opened p.toString ∈ events) →
            ∃ run, runsOf events = [run] ∧ run.file = file ∧
              run.command = tool.program :: arguments)) ∧
      (tc.tool? Tool.checksum.role = some tool →
        ∃ events, (endState (tc.checksum path m)).trace = m.trace ++ events ∧
          ∃ run, runsOf events = [run] ∧ run.file = file ∧
            run.command = [tool.program, path.toString])) ∧
    (∀ m', tool.locate m = .error (.fault (.toolNotFound tool.program tool.hint)) m' →
      (tc.tool? role = some tool →
        ∃ fault m₁ events, tc.run stage role arguments output m = .error (.fault (.stage fault)) m₁ ∧
          fault.stage = stage ∧ fault.status = none ∧
          m₁.trace = m.trace ++ events ∧ runsOf events = []) ∧
      (tc.tool? Tool.checksum.role = some tool →
        ∃ cause m₁ events, tc.checksum path m = .error (.fault (.checksum path cause)) m₁ ∧
          m₁.trace = m.trace ++ events ∧ runsOf events = [])) := by
  rw [List.forall_mem_cons] at harguments
  have hwords : ∀ w ∈ tool.program :: arguments, has '\x00' w = false := by
    simpa using ⟨hprogram, harguments.2⟩
  have hwords' : ∀ w ∈ [tool.program, path.toString], has '\x00' w = false := by
    simpa using ⟨hprogram, harguments.1⟩
  rw [tool.locate_eq]
  cases hfile : m.located? tool.program with
  | some file =>
    refine ⟨fun file' m' h => ?_, nofun⟩
    cases h
    constructor
    · intro hrole
      exact run_of_located? hpath hrole hwords stage output hstart hfile
    · intro hrole
      exact checksum_of_located? hpath hrole hwords' hstart hfile
  | none =>
    refine ⟨nofun, fun m' _ => ⟨fun hrole => ?_, fun hrole => ?_⟩⟩
    · obtain ⟨cause, m₁, events, hrun, ht, hruns⟩ :=
        run_of_located?_none hpath hrole hwords stage output hfile hout
      exact ⟨_, m₁, events, hrun, rfl, rfl, ht, hruns⟩
    · obtain ⟨cause, m₁, events, hrun, ht, hruns⟩ :=
        checksum_of_located?_none hpath hrole hwords' hfile
      exact ⟨_, m₁, events, hrun, ht, hruns⟩

/-- On a machine with the disassembler and without the checksum tool, both halves come about. -/
theorem starts_what_is_located_stuckListing :
    let m := Pipeline.stuckListing 0
    let image := Path.ofString "fw.bin"
    (∃ events, (endState (standard.run "disassemble" "disassembler" ["fw.bin"] .discarded m)).trace =
        m.trace ++ events ∧
      ∃ run, runsOf events = [run] ∧ run.file = "/bin/avr-objdump") ∧
    ∃ cause m₁ events, standard.checksum image m = .error (.fault (.checksum image cause)) m₁ ∧
      m₁.trace = m.trace ++ events ∧ runsOf events = [] := by
  intro m image
  have hpath : IsSearchPath m.searchPath := by
    rintro s hs
    cases hs
    decide
  have hstart : ∀ program, m.Starts program := by
    refine fun program => ⟨?_, fun _ _ _ _ => nofun⟩
    rintro l e ⟨f, hf, hx, -⟩
    obtain ⟨before, behind, hentries, -⟩ := List.lookup_eq_some_iff.1 hf
    have hmem : (l, Node.file f) ∈ m.tree.entries := by simp [hentries]
    have hplain : ∀ entry ∈ m.tree.entries, ∀ f, entry.2 = .file f →
        f.executable = .forbidden ∨ f.executable = .allowed := by
      simp [m, Pipeline.stuckListing, FileNode.plain]
    rcases hplain _ hmem f rfl with h | h <;> simp [h] at hx
  have hfound : Tool.disassembler.locate m = .ok "/bin/avr-objdump" m := by
    have h : m.located? Tool.disassembler.program = some "/bin/avr-objdump" := by decide +kernel
    rw [Tool.locate_eq, h]
  have hmissing : Tool.checksum.locate m =
      .error (.fault (.toolNotFound Tool.checksum.program Tool.checksum.hint)) m := by
    have h : m.located? Tool.checksum.program = none := by decide +kernel
    rw [Tool.locate_eq, h]
  constructor
  · obtain ⟨events, ht, hruns⟩ := ((starts_what_is_located standard "disassembler" "disassemble"
      ["fw.bin"] .discarded image .disassembler m hpath (by decide) (by decide) nofun
      (hstart _)).1 _ _ hfound).1 (by decide)
    obtain ⟨run, hrun, hfile, -⟩ := hruns nofun
    exact ⟨events, ht, run, hrun, hfile⟩
  · exact ((starts_what_is_located standard "checksum" "verify" [] .discarded image .checksum m hpath
      (by decide) (by decide) nofun (hstart _)).2 _ hmissing).2 (by decide)

end Toolchain

end FirmwareAudit
