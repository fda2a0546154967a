import FirmwareAudit.Proofs.DigestGrammar
import FirmwareAudit.Proofs.SlotCalls
import FirmwareAudit.Proofs.ToolStarts
import FirmwareAudit.Proofs.Ways

/-! # A checked run of one tool

A run for a stage has few ways to end. Which one it takes is settled by the tools of the table, the
files before the run and what the tool does; each leaves the file for the output in a state of its
own.
-/
namespace FirmwareAudit
open Text

namespace Event

/-- What an event writes to the standard output of the audit: a line of its own, or what a tool
writes to the stream that they share. -/
def stdout? : Event → Option String
  | .printed .output text => some text
  | .toolOutput text => some text
  | _ => none

end Event

def stdoutOf (es : List Event) : List String := es.filterMap Event.stdout?

@[simp] theorem stdoutOf_append (es fs : List Event) :
    stdoutOf (es ++ fs) = stdoutOf es ++ stdoutOf fs :=
  List.filterMap_append

theorem stdoutOf_echoes (j : Journal) (logger : String) (r : Record) :
    stdoutOf (j.echoes logger r) = [] := by
  refine List.filterMap_eq_nil_iff.2 fun e he => ?_
  rcases Journal.mem_echoes he with ⟨owner, rfl⟩ | ⟨text, rfl⟩ <;> rfl

/-! ## Trees that differ in texts -/

namespace Node

/-- All of a node but its text. -/
def wordless : Node → Node
  | .file f => .file { f with text := "" }
  | .directory d => .directory d

end Node

namespace FileTree

/-- The trees differ in the texts of files at most. -/
structure SameButTexts (t t' : FileTree) : Prop where
  clock : t'.clock = t.clock
  nodes : ∀ l, (t'.find? l).map Node.wordless = (t.find? l).map Node.wordless

namespace SameButTexts
variable {t t' t'' : FileTree}

theorem refl (t : FileTree) : t.SameButTexts t := ⟨rfl, fun _ => rfl⟩

theorem trans (h : t.SameButTexts t') (h' : t'.SameButTexts t'') : t.SameButTexts t'' :=
  ⟨h'.clock.trans h.clock, fun l => (h'.nodes l).trans (h.nodes l)⟩

theorem append (t : FileTree) (h : Handle) (text : String) : t.SameButTexts (t.append h text) := by
  unfold FileTree.append
  split
  · next f hf =>
    split
    · refine ⟨rfl, fun l => ?_⟩
      by_cases hl : l = h.location
      · rw [hl, find?_set_self, hf]
        rfl
      · rw [find?_set_of_ne t _ hl]
    · exact refl t
  · exact refl t

theorem appendEach (t : FileTree) (line : String) (files : List Handle) :
    t.SameButTexts (t.appendEach line files) := by
  induction files generalizing t with
  | nil => exact refl t
  | cons f rest ih => exact (append t f line).trans (ih _)

theorem bothAt (h : t.SameButTexts t') (l : Location) : t.BothAt t' l := by
  have hl := h.nodes l
  unfold BothAt
  cases hn : t.find? l <;> cases hn' : t'.find? l <;> simp_all

theorem find?_file (h : t.SameButTexts t') {l : Location} {f : FileNode}
    (hf : t.find? l = some (.file f)) :
    ∃ text, t'.find? l = some (.file { f with text }) := by
  have hl := h.nodes l
  rw [hf] at hl
  cases hn' : t'.find? l with
  | none => simp [hn'] at hl
  | some n' =>
    rw [hn'] at hl
    cases n' with
    | directory d => simp [Node.wordless] at hl
    | file f' =>
      simp only [Option.map_some, Node.wordless, Option.some.injEq, Node.file.injEq] at hl
      cases f
      cases f'
      simp_all

theorem find?_directory (h : t.SameButTexts t') {l : Location} {d : DirectoryNode} :
    t.find? l = some (.directory d) ↔ t'.find? l = some (.directory d) := by
  have hl := h.nodes l
  cases hn : t.find? l with
  | none => rw [(h.bothAt l).1 hn]
  | some n =>
    cases hn' : t'.find? l with
    | none => exact absurd ((h.bothAt l).2 hn') (by simp [hn])
    | some n' =>
      rw [hn, hn'] at hl
      cases n <;> cases n' <;> simp_all [Node.wordless]

/-- A file is opened in both trees, with the same handle, or in neither. -/
theorem openForWriting (h : t.SameButTexts t') (cwd path : String) (mode : WriteMode) :
    (∃ fault fault', t.openForWriting cwd path mode = .error fault ∧
      t'.openForWriting cwd path mode = .error fault') ∨
    ∃ handle u u', t.openForWriting cwd path mode = .ok (handle, u) ∧
      t'.openForWriting cwd path mode = .ok (handle, u') := by
  unfold FileTree.openForWriting
  rcases resolve_alike (fun l d => h.find?_directory) (h.bothAt []) (h.bothAt (placeOf cwd path))
    with ⟨fault, fault', hr, hr', -⟩ | ⟨d, hr, hr'⟩
  · rw [hr, hr']
    exact Or.inl ⟨_, _, rfl, rfl⟩
  · rw [hr, hr']
    unfold target
    cases hn : t.find? (placeOf cwd path) with
    | none =>
      rw [(h.bothAt _).1 hn]
      simp only [h.clock]
      split
      · exact Or.inl ⟨_, _, rfl, rfl⟩
      · split
        · exact Or.inr ⟨_, _, _, rfl, rfl⟩
        · exact Or.inl ⟨_, _, rfl, rfl⟩
    | some n =>
      cases n with
      | directory k =>
        rw [h.find?_directory.1 hn]
        exact Or.inl ⟨_, _, rfl, rfl⟩
      | file f =>
        obtain ⟨text, hf'⟩ := h.find?_file hn
        rw [hf']
        simp only
        split
        · exact Or.inr ⟨_, _, _, rfl, rfl⟩
        · exact Or.inl ⟨_, _, rfl, rfl⟩

end SameButTexts

/-- A file that was opened for its old text to go is there and empty. -/
theorem find?_of_truncate {t u : FileTree} {cwd path : String} {h : Handle}
    (ho : t.openForWriting cwd path .truncate = .ok (h, u)) :
    ∃ f, u.find? h.location = some (.file f) ∧ f.text = "" ∧ f.stamp = h.stamp := by
  unfold openForWriting at ho
  split at ho
  · cases ho
  · split at ho
    · cases ho
      exact ⟨_, find?_set_self .., rfl, rfl⟩
    · cases ho
  · split at ho
    · cases ho
    · split at ho
      · cases ho
        exact ⟨_, find?_create_self .., rfl, rfl⟩
      · cases ho
  · cases ho

end FileTree

/-! ## Starting a command -/

/-- Every run of the program ends in an exit. -/
def Program.Exits (p : Program) : Prop :=
  ∀ turn call t t' out err ending, p turn call t = .ran t' out err ending →
    ∃ status, ending = .exited status

namespace Machine
variable (m : Machine) (program : String) (arguments : List String)

/-- On these files the command starts from a file, and this comes of it. -/
def Runs (t : FileTree) (file : String) (start : Start) : Prop :=
  resolveProgram t m.cwd m.searchPath program = .ok file ∧
    m.programs (baseName program) (m.turns (baseName program)) ⟨m.cwd, program, arguments⟩ t = start

/-- On these files the command cannot be started: no file is found that it can be started from, or
no process is made for the one that is found. -/
def Refuses (t : FileTree) : Prop :=
  (∃ e, resolveProgram t m.cwd m.searchPath program = .error (.errno e)) ∨
    ∃ file e, m.Runs program arguments t file (.refused e)

/-- Machines that differ in files, the journal and the trace at most start programs alike. -/
structure StartsAlike (m m' : Machine) : Prop where
  cwd : m'.cwd = m.cwd
  searchPath : m'.searchPath = m.searchPath
  programs : m'.programs = m.programs
  turns : m'.turns = m.turns

end Machine

namespace Machine.StartsAlike
variable {m m' : Machine} (h : m.StartsAlike m') {program : String} {arguments : List String}
  {t : FileTree}
include h

theorem runs {file : String} {start : Start} (hruns : m'.Runs program arguments t file start) :
    m.Runs program arguments t file start := by
  obtain ⟨hr, hp⟩ := hruns
  rw [h.cwd, h.searchPath] at hr
  rw [h.programs, h.turns, h.cwd] at hp
  exact ⟨hr, hp⟩

theorem refuses (hrefuses : m'.Refuses program arguments t) : m.Refuses program arguments t := by
  rcases hrefuses with ⟨e, hr⟩ | ⟨file, e, hr⟩
  · rw [h.cwd, h.searchPath] at hr
    exact Or.inl ⟨e, hr⟩
  · exact Or.inr ⟨file, e, h.runs hr⟩

theorem exits {name : String} (hexits : (m.programs name).Exits) : (m'.programs name).Exits :=
  h.programs ▸ hexits

theorem nulFree (hpath : ∀ s, m.searchPath = some s → has '\x00' s = false) :
    ∀ s, m'.searchPath = some s → has '\x00' s = false :=
  h.searchPath ▸ hpath

end Machine.StartsAlike

/-- What a command comes to that can be handed to the system and whose program exits. -/
theorem runProgram_starts {m : Machine} {program : String} {arguments : List String}
    (hpath : ∀ s, m.searchPath = some s → has '\x00' s = false)
    (hwords : ∀ w ∈ program :: arguments, has '\x00' w = false)
    (hexits : (m.programs (baseName program)).Exits) :
    (∃ e m', runProgram program arguments m = .error (.system e) m' ∧ m'.tree = m.tree ∧
      m'.trace = m.trace ++ [.notStarted (program :: arguments) (.system e)] ∧
      m.Refuses program arguments m.tree) ∨
    ∃ file t out err status m',
      m.Runs program arguments m.tree file (.ran t out err (.exited status)) ∧ m'.tree = t ∧
      m'.trace = m.trace ++ [.ran ⟨file, program :: arguments, out, err, .exited status⟩] ∧
      runProgram program arguments m = .ok ⟨status, out, err⟩ m' := by
  have hany : (program :: arguments).any (has '\x00') = false := by
    rw [List.any_eq_false]
    exact fun w hw => by simp [hwords w hw]
  have hlocate : locateCommand m program arguments =
      (resolveProgram m.tree m.cwd m.searchPath program).mapError (.ofCall program) := by
    rw [locateCommand, if_neg (by simp [hany])]
  unfold runProgram
  rw [bind_of_ok (get_apply m), hlocate]
  cases hr : resolveProgram m.tree m.cwd m.searchPath program with
  | error fault =>
    cases fault with
    | nulByte =>
      exact absurd hr (resolveProgram_ne_nulByte hpath (hwords _ List.mem_cons_self) _ _)
    | errno e => exact Or.inl ⟨_, _, rfl, rfl, rfl, Or.inl ⟨e, hr⟩⟩
  | ok file =>
    simp only [Except.mapError]
    rw [bind_of_ok (set_apply _ _)]
    cases hp : m.programs (baseName program) (m.turns (baseName program))
      ⟨m.cwd, program, arguments⟩ m.tree with
    | refused e => exact Or.inl ⟨_, _, rfl, rfl, rfl, Or.inr ⟨file, e, hr, hp⟩⟩
    | ran t out err ending =>
      obtain ⟨status, rfl⟩ := hexits _ _ _ _ _ _ _ hp
      exact Or.inr ⟨file, t, out, err, status, { m.countTurn program with
        tree := t, trace := m.trace ++ [.ran ⟨file, program :: arguments, out, err, _⟩] },
        ⟨hr, hp⟩, rfl, rfl, rfl⟩

/-! ## Making the output ready -/

/-- Where a run sends the output of its tool: into a file if one is given, else nowhere if it has to
be quiet. -/
def Output.of (file : Option Path) (quiet : Bool) : Output :=
  match file with
  | some path => .file path
  | none => if quiet then .discarded else .shared

namespace Destination

/-- What a destination shows of a text. -/
def shows (text : String) : Destination → List Event
  | .shared => [.toolOutput text]
  | _ => []

theorem runsOf_shows (text : String) (d : Destination) : runsOf (d.shows text) = [] := by
  cases d <;> rfl

/-- What a destination keeps of a text. -/
def keeps (text : String) (t : FileTree) : Destination → FileTree
  | .file h => t.append h text
  | _ => t

theorem deliver_eq (text : String) (d : Destination) (m : Machine) :
    deliver text d m =
      .ok () { m with tree := d.keeps text m.tree, trace := m.trace ++ d.shows text } := by
  cases d with
  | file h => simp [deliver, appendText, keeps, shows]
  | nowhere => simp [deliver, keeps, shows]
  | shared => simp [deliver, emit, Machine.record, keeps, shows]

/-- The destination that the output of a run on `m` is sent to. -/
def Fits (m : Machine) (file : Option Path) (quiet : Bool) : Destination → Prop
  | .file h => ∃ path u, file = some path ∧
      m.tree.openForWriting m.cwd path.toString .truncate = .ok (h, u)
  | .nowhere => file = none ∧ quiet = true
  | .shared => file = none ∧ quiet = false

theorem Fits.stdoutOf_shows {m : Machine} {file : Option Path} {quiet : Bool} {d : Destination}
    (h : d.Fits m file quiet) (text : String) :
    stdoutOf (d.shows text) = if file = none ∧ quiet = false then [text] else [] := by
  cases d with
  | file handle =>
    obtain ⟨path, u, rfl, -⟩ := h
    rfl
  | nowhere =>
    obtain ⟨rfl, rfl⟩ := h
    rfl
  | shared =>
    obtain ⟨rfl, rfl⟩ := h
    rfl

end Destination

/-- The files that a tool finds that is run on `m`: programs and directories are where they were, and
the file for the output could be opened and is empty. -/
structure Machine.Ready (m : Machine) (file : Option Path) (t : FileTree) : Prop where
  ways : m.tree.SameWays t
  emptied : ∀ path, file = some path → ∃ h u f,
    m.tree.openForWriting m.cwd path.toString .truncate = .ok (h, u) ∧
      t.find? h.location = some (.file f) ∧ f.text = "" ∧ f.stamp = h.stamp

/-- An empty file that is left alone holds what is then written to it. -/
theorem Machine.Ready.filled {m : Machine} {file : Option Path} {quiet : Bool} {t t' : FileTree}
    {d : Destination} (hready : m.Ready file t) (hfits : d.Fits m file quiet) {path : Path}
    {h : Handle} {u : FileTree} (hpath : file = some path)
    (hopen : m.tree.openForWriting m.cwd path.toString .truncate = .ok (h, u))
    (huntouched : t'.find? h.location = t.find? h.location) (text : String) :
    ∃ f, (d.keeps text t').find? h.location = some (.file f) ∧ f.text = text := by
  obtain ⟨h', u', f, hopen', hf, htext, hstamp⟩ := hready.emptied path hpath
  obtain rfl : h' = h := (Prod.mk.inj (Except.ok.inj (hopen'.symm.trans hopen))).1
  cases d with
  | nowhere => exact absurd (hpath.symm.trans hfits.1) nofun
  | shared => exact absurd (hpath.symm.trans hfits.1) nofun
  | file k =>
    obtain ⟨path', u'', hpath', hopen''⟩ := hfits
    obtain rfl : path' = path := Option.some.inj (hpath'.symm.trans hpath)
    obtain rfl : k = h' := (Prod.mk.inj (Except.ok.inj (hopen''.symm.trans hopen))).1
    refine ⟨{ f with text := f.text ++ text }, ?_, ?_⟩
    · rw [Destination.keeps, FileTree.find?_append_self, huntouched, hf]
      exact if_pos hstamp
    · rw [htext, String.empty_append]

/-- The output of a run is made ready, unless its file cannot be opened. -/
theorem Output.prepare_ready {m m₀ : Machine} {file : Option Path} {quiet : Bool}
    (hstarts : m.StartsAlike m₀) (htexts : m.tree.SameButTexts m₀.tree)
    (hways : m.tree.SameWays m₀.tree)
    (hnul : ∀ path, file = some path → has '\x00' path.toString = false) :
    (∃ path fault e, file = some path ∧
      m.tree.openForWriting m.cwd path.toString .truncate = .error fault ∧
      (Output.of file quiet).prepare m₀ = .error (.system e) m₀) ∨
    ∃ d m₁ opened, (Output.of file quiet).prepare m₀ = .ok d m₁ ∧ d.Fits m file quiet ∧
      m.StartsAlike m₁ ∧ m.Ready file m₁.tree ∧ m₁.trace = m₀.trace ++ opened ∧
      runsOf opened = [] ∧ stdoutOf opened = [] := by
  cases file with
  | none =>
    refine Or.inr ⟨if quiet then .nowhere else .shared, m₀, [], ?_, ?_, hstarts, ⟨hways, nofun⟩,
      (List.append_nil _).symm, rfl, rfl⟩
    · cases quiet <;> rfl
    · cases quiet <;> exact ⟨rfl, rfl⟩
  | some path =>
    have hprepare : (Output.of (some path) quiet).prepare m₀ =
        (openForWriting path.toString .truncate >>= fun h => pure (Destination.file h)) m₀ := rfl
    rw [hprepare]
    rcases htexts.openForWriting m.cwd path.toString .truncate with
      ⟨fault, fault', ho, ho'⟩ | ⟨h, u, u', ho, ho'⟩
    · cases fault' with
      | nulByte => exact absurd ho' (m₀.tree.openForWriting_ne_nulByte _ (hnul path rfl) _)
      | errno e =>
        refine Or.inl ⟨path, fault, ⟨e, some path.toString⟩, rfl, ho, bind_of_error ?_⟩
        rw [openForWriting, bind_of_ok (get_apply m₀), hstarts.cwd, ho']
        rfl
    · let m₁ : Machine :=
        { m₀ with tree := u', trace := m₀.trace ++ [.opened path.toString] }
      have hopen : openForWriting path.toString .truncate m₀ = .ok h m₁ := by
        rw [← hstarts.cwd] at ho'
        rw [openForWriting, bind_of_ok (get_apply m₀), ho']
        rfl
      obtain ⟨f, hf, htext, hstamp⟩ := FileTree.find?_of_truncate ho'
      refine Or.inr ⟨.file h, m₁, [.opened path.toString], bind_of_ok hopen, ⟨path, u, rfl, ho⟩,
        ⟨hstarts.cwd, hstarts.searchPath, hstarts.programs, hstarts.turns⟩, ⟨?_, ?_⟩, rfl, rfl, rfl⟩
      · exact hways.trans (FileTree.sameWays_openForWriting ho')
      · intro path' hp
        cases hp
        exact ⟨h, u, f, ho, hf, htext, hstamp⟩

/-- What comes of such a command if its output is sent to a destination. -/
theorem execute_starts {m : Machine} {program : String} {arguments : List String}
    (hpath : ∀ s, m.searchPath = some s → has '\x00' s = false)
    (hwords : ∀ w ∈ program :: arguments, has '\x00' w = false)
    (hexits : (m.programs (baseName program)).Exits) (d : Destination) :
    (∃ e m', execute program arguments d m = .error (.system e) m' ∧ m'.tree = m.tree ∧
      m'.trace = m.trace ++ [.notStarted (program :: arguments) (.system e)] ∧
      m.Refuses program arguments m.tree) ∨
    ∃ file t out err status m',
      m.Runs program arguments m.tree file (.ran t out err (.exited status)) ∧
      execute program arguments d m = .ok status m' ∧ m'.tree = d.keeps out t ∧
      m'.trace = m.trace ++ (.ran ⟨file, program :: arguments, out, err, .exited status⟩ ::
        (d.shows out ++ [.toolErrors err])) := by
  unfold execute
  rcases runProgram_starts hpath hwords hexits with ⟨e, m', hr, htree, htrace, hwhy⟩ | h
  · exact Or.inl ⟨e, m', bind_of_error hr, htree, htrace, hwhy⟩
  · obtain ⟨file, t, out, err, status, m', hruns, htree, htrace, hr⟩ := h
    let m₂ : Machine := { m' with
      tree := d.keeps out t
      trace := m'.trace ++ (d.shows out ++ [.toolErrors err]) }
    refine Or.inr ⟨file, t, out, err, status, m₂, hruns, ?_, rfl, ?_⟩
    · rw [bind_of_ok hr, bind_of_ok (d.deliver_eq out m'), htree]
      simp [m₂, emit, bind_of_ok (modify_apply _ _), Machine.record]
    · simp [m₂, htrace]

/-! ## The whole run -/

theorem throw_unless_zero (status : Int) (s : Stop) (m : Machine) :
    (if status ≠ 0 then throw s else pure () : MachineM Unit) m =
      if status = 0 then .ok () m else .error s m := by
  by_cases h : status = 0
  · rw [if_neg (not_not_intro h), if_pos h]
    rfl
  · rw [if_pos h, if_neg h]
    rfl

/-- What is logged starts nothing and does not go to the standard output. -/
theorem Machine.logged_quiet (m : Machine) (logger operation : String) (level : Int)
    (message : String) :
    ∃ logged, (m.afterLog logger operation level message).trace = m.trace ++ logged ∧
      runsOf logged = [] ∧ stdoutOf logged = [] := by
  refine ⟨_, rfl, (m.adds_afterLog logger operation level message).runsOf_eq rfl, ?_⟩
  exact stdoutOf_echoes _ _ _

namespace Toolchain

section
variable (tc : Toolchain) (stage role : String) (arguments : List String) (file : Option Path)
  (quiet : Bool) (m : Machine)

/-- How a run on `m` ends, with the events that it adds. -/
inductive CheckedEnd : List Event → EStateM.Result Stop Machine Unit → Prop
  /-- There is no tool for the role, and nothing happens. -/
  | unknownRole (hrole : tc.tool? role = none) : CheckedEnd [] (.error (.unknownRole role) m)
  /-- The file for the output cannot be opened, and no tool is started. -/
  | notOpened {tool : Tool} {path : Path} {fault : CallFault} {message : String}
      {events : List Event} {m' : Machine} (htool : tc.tool? role = some tool)
      (hfile : file = some path)
      (hopen : m.tree.openForWriting m.cwd path.toString .truncate = .error fault)
      (hruns : runsOf events = []) (hout : stdoutOf events = []) :
      CheckedEnd events
        (.error (.fault (.stage ⟨stage, message, tool.program :: arguments, none⟩)) m')
  /-- The tool cannot be started; the file for the output is there and empty. -/
  | notStarted {tool : Tool} {message : String} {events : List Event} {m' : Machine}
      (htool : tc.tool? role = some tool) (hready : m.Ready file m'.tree)
      (hrefuses : m.Refuses tool.program arguments m'.tree)
      (hruns : runsOf events = []) (hout : stdoutOf events = []) :
      CheckedEnd events
        (.error (.fault (.stage ⟨stage, message, tool.program :: arguments, none⟩)) m')
  /-- The tool runs and exits. What it wrote goes to the file, to the standard output or nowhere. -/
  | exited {tool : Tool} {run : Run} {status : Int} {message : String} {t t' : FileTree}
      {events : List Event} {m' : Machine} (htool : tc.tool? role = some tool)
      (hready : m.Ready file t)
      (hstart : m.Runs tool.program arguments t run.file
        (.ran t' run.out run.err (.exited status)))
      (hruns : runsOf events = [run]) (hcommand : run.command = tool.program :: arguments)
      (hout : stdoutOf events = if file = none ∧ quiet = false then [run.out] else [])
      (hfilled : ∀ path h u, file = some path →
        m.tree.openForWriting m.cwd path.toString .truncate = .ok (h, u) →
        t'.find? h.location = t.find? h.location →
        ∃ f, m'.tree.find? h.location = some (.file f) ∧ f.text = run.out) :
      CheckedEnd events
        (if status = 0 then .ok () m'
        else .error
          (.fault (.stage ⟨stage, message, tool.program :: arguments, some status⟩)) m')

/-- What is left of a run once its tool is known and its command is logged. -/
def runTool (tool : Tool) (output : Output) : MachineM Unit := do
  let command := tool.program :: arguments
  let status ← wrapSystemError (fun e => .stage (.notStarted stage tool.program command e)) do
    let destination ← tryCatch output.prepare (failToStart command)
    execute tool.program arguments destination
  if status ≠ 0 then
    throw (.fault (.stage (.failed stage tool.program command status)))

theorem run_eq {tool : Tool} (htool : tc.tool? role = some tool) (output : Output) :
    tc.run stage role arguments output m =
      runTool stage arguments tool output (m.afterLog toolLogger "run" Level.debug
        ("[" ++ stage ++ "] " ++ shellLine (tool.program :: arguments) ++ output.redirection)) := by
  unfold Toolchain.run
  rw [bind_of_ok (tc.tool_of_some htool m), bind_of_ok (log_eq _ _ _ _ m)]
  rfl

variable {tc stage role arguments file quiet m}

/-- Once the output is ready, the run ends as the command does. -/
theorem runTool_checked {tool : Tool} (htool : tc.tool? role = some tool)
    (hpath : ∀ s, m.searchPath = some s → has '\x00' s = false)
    (hwords : ∀ w ∈ tool.program :: arguments, has '\x00' w = false)
    (hexits : (m.programs (baseName tool.program)).Exits) {m₀ m₁ : Machine}
    {d : Destination} {before : List Event}
    (hp : (Output.of file quiet).prepare m₀ = .ok d m₁) (hfits : d.Fits m file quiet)
    (hstarts : m.StartsAlike m₁) (hready : m.Ready file m₁.tree)
    (htrace : m₁.trace = m.trace ++ before) (hnoruns : runsOf before = [])
    (hnoout : stdoutOf before = []) :
    ∃ events, (endState (runTool stage arguments tool (.of file quiet) m₀)).trace =
        m.trace ++ events ∧
      tc.CheckedEnd stage role arguments file quiet m events
        (runTool stage arguments tool (.of file quiet) m₀) := by
  let command := tool.program :: arguments
  have hmade : tryCatch (Output.of file quiet).prepare (failToStart command) m₀ = .ok d m₁ :=
    tryCatch_of_ok hp
  unfold runTool
  rcases execute_starts (hstarts.nulFree hpath) hwords (hstarts.exits hexits) d with
    ⟨e, m', hr, htree, ht, hrefuses⟩ | h
  · have hbody := (bind_of_ok hmade).trans hr
    rw [bind_of_error (wrapSystemError_of_system _ hbody)]
    rw [← htree] at hready hrefuses
    refine ⟨before ++ [.notStarted command (.system e)], ?_,
      .notStarted htool hready (hstarts.refuses hrefuses) ?_ ?_⟩
    · rw [endState_error, ht, htrace, List.append_assoc]
    · rw [runsOf_append, hnoruns]
      rfl
    · rw [stdoutOf_append, hnoout]
      rfl
  · obtain ⟨origin, t, out, err, status, m', hstart, hr, htree, ht⟩ := h
    have hbody := (bind_of_ok hmade).trans hr
    let run : Run := ⟨origin, command, out, err, .exited status⟩
    let shown := d.shows out ++ [.toolErrors err]
    have hend : m'.trace = m.trace ++ (before ++ .ran run :: shown) := by
      rw [ht, htrace, List.append_assoc]
    have hruns : runsOf (before ++ .ran run :: shown) = [run] := by
      rw [runsOf_append, hnoruns, runsOf_ran, runsOf_append, d.runsOf_shows]
      rfl
    have hout : stdoutOf (before ++ .ran run :: shown) =
        if file = none ∧ quiet = false then [out] else [] := by
      rw [stdoutOf_append, hnoout, ← hfits.stdoutOf_shows out]
      exact (stdoutOf_append _ _).trans (List.append_nil _)
    rw [bind_of_ok (wrapSystemError_of_ok hbody), throw_unless_zero]
    refine ⟨_, ?_, .exited htool hready (hstarts.runs hstart) hruns rfl hout ?_⟩
    · rw [← hend]
      split <;> rfl
    · intro path h u hpath hopen huntouched
      rw [htree]
      exact hready.filled hfits hpath hopen huntouched out

variable (tc stage role arguments file quiet m)

/-- On a search path that a process can have, a run of a tool that exits, whose program and
arguments have no NUL byte, with its output sent to a file whose path has none, or to no file, ends in
one of these ways. -/
theorem run_checked (hpath : ∀ s, m.searchPath = some s → has '\x00' s = false)
    (hwords : ∀ tool, tc.tool? role = some tool →
      ∀ w ∈ tool.program :: arguments, has '\x00' w = false)
    (hexits : ∀ tool, tc.tool? role = some tool → (m.programs (baseName tool.program)).Exits)
    (hfile : ∀ path, file = some path → has '\x00' path.toString = false) :
    ∃ events, (endState (tc.run stage role arguments (.of file quiet) m)).trace =
        m.trace ++ events ∧
      tc.CheckedEnd stage role arguments file quiet m events
        (tc.run stage role arguments (.of file quiet) m) := by
  cases htool : tc.tool? role with
  | none =>
    have hrun : tc.run stage role arguments (.of file quiet) m = .error (.unknownRole role) m :=
      bind_of_error (tc.tool_of_none htool m)
    rw [hrun]
    exact ⟨[], (List.append_nil _).symm, .unknownRole htool⟩
  | some tool =>
    rw [run_eq tc stage role arguments m htool]
    let command := tool.program :: arguments
    let line := "[" ++ stage ++ "] " ++ shellLine command ++ (Output.of file quiet).redirection
    let m₀ := m.afterLog toolLogger "run" Level.debug line
    obtain ⟨logged, hlog, hlogruns, hlogout⟩ := m.logged_quiet toolLogger "run" Level.debug line
    have hstarts : m.StartsAlike m₀ := ⟨rfl, rfl, rfl, rfl⟩
    rcases Output.prepare_ready hstarts (.appendEach ..) (.appendEach ..) hfile with
      ⟨path, fault, e, hsome, hopen, hp⟩ |
      ⟨d, m₁, opened, hp, hfits, hstarts₁, hready, ht, hor, hoo⟩
    · have hnone : tryCatch (Output.of file quiet).prepare (failToStart command) m₀ =
          .error (.system e) (m₀.record (.notStarted command (.system e))) :=
        tryCatch_of_error hp
      have hrun : runTool stage arguments tool (.of file quiet) m₀ = _ :=
        bind_of_error (wrapSystemError_of_system _ (bind_of_error hnone))
      rw [hrun]
      refine ⟨logged ++ [.notStarted command (.system e)], ?_, .notOpened htool hsome hopen ?_ ?_⟩
      · rw [← List.append_assoc, ← hlog]
        rfl
      · rw [runsOf_append, hlogruns]
        rfl
      · rw [stdoutOf_append, hlogout]
        rfl
    · have htrace : m₁.trace = m.trace ++ (logged ++ opened) := by
        rw [ht, ← List.append_assoc, ← hlog]
      refine runTool_checked htool hpath (hwords tool htool) (hexits tool htool) hp hfits hstarts₁
        hready htrace ?_ ?_
      · rw [runsOf_append, hlogruns, hor, List.append_nil]
      · rw [stdoutOf_append, hlogout, hoo, List.append_nil]

end

/-- A run whose output goes to a file there fills the file and shows nothing. -/
theorem run_checked_answering :
    let sums := Path.ofString "sums.txt"
    let m := answering "d41d8cd98f00b204e9800998ecf8427e\n"
    ∃ events m' run h u f,
      standard.run "verify" "checksum" ["fw.bin"] (.of (some sums) false) m = .ok () m' ∧
      m'.trace = m.trace ++ events ∧ runsOf events = [run] ∧ stdoutOf events = [] ∧
      m.tree.openForWriting m.cwd sums.toString .truncate = .ok (h, u) ∧
      m'.tree.find? h.location = some (.file f) ∧ f.text = run.out := by
  intro sums m
  have hpath : ∀ s, m.searchPath = some s → has '\x00' s = false := by
    rintro s ⟨⟩
    decide
  have hwords : ∀ tool, standard.tool? "checksum" = some tool →
      ∀ w ∈ tool.program :: ["fw.bin"], has '\x00' w = false := by
    intro tool htool
    cases htool
    decide
  have hexits : ∀ tool, standard.tool? "checksum" = some tool →
      (m.programs (baseName tool.program)).Exits := by
    rintro tool - turn call t t' out err ending ⟨⟩
    exact ⟨0, rfl⟩
  have hfile : ∀ path, some sums = some path → has '\x00' path.toString = false := by
    rintro path ⟨⟩
    decide
  obtain ⟨m', hok⟩ : ∃ m', standard.run "verify" "checksum" ["fw.bin"] (.of (some sums) false) m =
      .ok () m' := by
    have hends : endsWell (fun _ => true)
        (standard.run "verify" "checksum" ["fw.bin"] (.of (some sums) false) m) = true := by
      decide +kernel
    obtain ⟨⟨⟩, h, -⟩ := eq_ok_of_endsWell hends
    exact ⟨_, h⟩
  obtain ⟨events, ht, hend⟩ := run_checked standard "verify" "checksum" ["fw.bin"] (some sums) false m
    hpath hwords hexits hfile
  rw [hok] at ht hend
  generalize hresult : (EStateM.Result.ok () m' : EStateM.Result Stop Machine Unit) = result at hend
  cases hend with
  | @exited tool run status message t t' _ m₁ _ hready hstart hruns _ hout hfilled =>
    have hm : m₁ = m' := by
      split at hresult <;> cases hresult
      rfl
    have huntouched : t' = t := by
      have h := hstart.2
      simp only [m, answering, Start.ran.injEq] at h
      exact h.1.symm
    subst hm
    obtain ⟨h, u, -, hopen, -⟩ := hready.emptied sums rfl
    obtain ⟨f, hf, htext⟩ := hfilled sums h u rfl hopen (by rw [huntouched])
    exact ⟨events, m₁, run, h, u, f, hok, ht, hruns, hout, hopen, hf, htext⟩
  | _ => cases hresult

end Toolchain

end FirmwareAudit
