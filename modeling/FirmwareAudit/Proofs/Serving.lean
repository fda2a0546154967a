import FirmwareAudit.Proofs.Schedule
import FirmwareAudit.Proofs.Twins

/-! # Tools that serve

A tool serves if it does its part on every tree that a run can come to where it starts the tool, and
always in the same way: what it prints and writes depends on no file that was there before the run.
-/
namespace FirmwareAudit
open Text

namespace FileTree

/-- The tree with ordinary files of one text in a directory, their names made of a stem and endings. -/
def fill (t : FileTree) (dir : Location) (stem text : String) (es : List String) : FileTree :=
  es.foldl (fun t e => t.set ((stem ++ e) :: dir) (.file (.plain text))) t

theorem find?_fill_of_ne (t : FileTree) {dir l : Location} {stem : String} (text : String)
    {es : List String} (h : ∀ e ∈ es, l ≠ (stem ++ e) :: dir) :
    (t.fill dir stem text es).find? l = t.find? l := by
  induction es generalizing t with
  | nil => rfl
  | cons e rest ih =>
    have hset := t.find?_set_of_ne (.file (.plain text)) (h e List.mem_cons_self)
    exact (ih _ fun e' he' => h e' (List.mem_cons_of_mem _ he')).trans hset

theorem find?_fill_self (t : FileTree) (dir : Location) (stem text : String) {es : List String}
    {e : String} (h : e ∈ es) :
    (t.fill dir stem text es).find? ((stem ++ e) :: dir) = some (.file (.plain text)) := by
  induction es generalizing t with
  | nil => cases h
  | cons e' rest ih =>
    by_cases he : e ∈ rest
    · exact ih _ he
    · have hhead : e = e' := (List.mem_cons.1 h).resolve_right he
      subst hhead
      have hother : ∀ e' ∈ rest, (stem ++ e) :: dir ≠ (stem ++ e') :: dir := by
        intro e' he' heq
        have hname := (List.cons.inj heq).1
        rw [String.append_right_inj] at hname
        exact he (hname ▸ he')
      exact (find?_fill_of_ne _ text hother).trans (t.find?_set_self _ _)

end FileTree

/-- What comes out of a run: the text that each artifact gets, and the digests of the image and of the
rebuilt one. -/
structure Yield where
  text : String → String
  image : String
  rebuilt : String

namespace Site

variable {p : Pipeline} {m : Machine}

/-- What comes of the `nth` start of a tool since the run began. -/
def started (_ : Site p m) (tool : Tool) (nth : Nat) (arguments : List String) (t : FileTree) : Start :=
  m.programs (baseName tool.program) (m.turns (baseName tool.program) + nth)
    ⟨m.cwd, tool.program, arguments⟩ t

/-- Wherever the artifacts stand as given, the tool exits with status 0, prints `out`, and leaves all
files as they are, but for the artifacts in `writes`, which get their texts. So nothing of this depends
on artifacts that are stale. -/
def Serves (s : Site p m) (tool : Tool) (nth : Nat) (arguments : List String)
    (σ : String → Standing) (writes : List String) (text : String → String) (out : String) : Prop :=
  ∃ err, ∀ t, s.Kin σ t t →
    ∃ t', s.started tool nth arguments t = .ran t' out err (.exited 0) ∧
      (∀ l, (∀ e ∈ writes, l ≠ s.slot e) → t'.find? l = t.find? l) ∧
      ∀ e ∈ writes, t'.HasText (s.slot e) (text e)

/-- The checksum tool serves for a file and answers with a digest. -/
def Sums (s : Site p m) (nth : Nat) (path : Path) (text : String → String) (digest : String) : Prop :=
  ∃ out, s.Serves Tool.checksum nth [path.toString] (standing p.plan.keepTemps text 4) [] text out ∧
    Digest.ofAnswer? (String.ofList (unifyLines out.toList)) = some digest

/-- Every tool serves where the pipeline starts it, and they yield this. -/
structure Tools (s : Site p m) (y : Yield) : Prop where
  disassembler : s.Serves Tool.disassembler 0 p.plan.disassemblerArguments
    (mark (standing p.plan.keepTemps y.text 0) [".raw.asm"] fun _ => .settled "") [] y.text
    (y.text ".raw.asm")
  postprocessor : s.Serves Tool.postprocessor 0 p.plan.postprocessorArguments
    (mark (standing p.plan.keepTemps y.text 1) [".asm"] fun _ => .settled "") [] y.text
    (y.text ".asm")
  assembler : ∃ out, s.Serves Tool.assembler 0 p.plan.assemblerArguments
    (standing p.plan.keepTemps y.text 2) [".hex", ".eep.hex", ".obj", ".cof"] y.text out
  converter : ∃ out, s.Serves Tool.converter 0 p.plan.converterArguments
    (standing p.plan.keepTemps y.text 3) [".reassembled"] y.text out
  image : s.Sums 0 p.plan.image y.text y.image
  rebuilt : s.Sums 1 p.files.rebuilt y.text y.rebuilt

variable {s : Site p m} {σ σ' : String → Standing} {ran : List Tool} {tool : Tool} {nth : Nat}
  {arguments writes : List String} {text : String → String} {out : String}

/-- On kin trees a tool that serves writes the same and leaves kin trees. -/
theorem Serves.both (h : s.Serves tool nth arguments σ writes text out)
    (hw : ∀ e ∈ writes, e ∈ Artifacts.endings) {t₁ t₂ : FileTree} (k : s.Kin σ t₁ t₂) :
    ∃ t₁' t₂' err, s.started tool nth arguments t₁ = .ran t₁' out err (.exited 0) ∧
      s.started tool nth arguments t₂ = .ran t₂' out err (.exited 0) ∧
      s.Kin (mark σ writes fun e => .settled (text e)) t₁' t₂' ∧
      (∀ l, (∀ e ∈ writes, l ≠ s.slot e) → t₁'.find? l = t₁.find? l) ∧
      ∀ l, (∀ e ∈ writes, l ≠ s.slot e) → t₂'.find? l = t₂.find? l := by
  obtain ⟨err, hserves⟩ := h
  obtain ⟨t₁', hs₁, hoff₁, hat₁⟩ := hserves t₁ k.left
  obtain ⟨t₂', hs₂, hoff₂, hat₂⟩ := hserves t₂ k.swap.left
  exact ⟨t₁', t₂', err, hs₁, hs₂,
    k.update hw hoff₁ hoff₂ fun e he => ⟨hat₁ e he, hat₂ e he⟩, hoff₁, hoff₂⟩

theorem serves_of_fill (content : String) (htext : ∀ e ∈ writes, text e = content)
    (h : ∀ t, s.Kin σ t t → s.started tool nth arguments t =
      .ran (t.fill s.dir p.plan.image.stem content writes) out "" (.exited 0)) :
    s.Serves tool nth arguments σ writes text out := by
  refine ⟨"", fun t k => ⟨_, h t k, fun l hl => t.find?_fill_of_ne _ hl, fun e he => ?_⟩⟩
  rw [htext e he]
  exact ⟨_, t.find?_fill_self _ _ _ he, ⟨rfl, rfl, rfl⟩, rfl⟩

/-! ## Starting a tool -/

theorem locateCommand_eq {m₁ : Machine} {t₂ : FileTree} (k : s.Kin σ m₁.tree t₂)
    (hcwd : m₁.cwd = m.cwd) (hpath : m₁.searchPath = m.searchPath) (ht : tool ∈ Tool.required)
    (hnul : ∀ w ∈ arguments, has '\x00' w = false) :
    ∃ file, resolveProgram m.tree m.cwd m.searchPath tool.program = .ok file ∧
      locateCommand m₁ tool.program arguments = .ok file := by
  have hprogram : ∀ tool ∈ Tool.required, has '\x00' tool.program = false := by decide
  have hany : (tool.program :: arguments).any (has '\x00') = false := by
    rw [List.any_eq_false]
    intro w hw
    rcases List.mem_cons.1 hw with rfl | hw
    · simp [hprogram tool ht]
    · simp [hnul w hw]
  obtain ⟨file, hfile⟩ := s.found tool ht
  refine ⟨file, hfile, ?_⟩
  rw [locateCommand, hany, hcwd, hpath, k.resolveProgram_eq ht hfile]
  rfl

/-- How often a program was found in the course of a run. -/
def times (ran : List Tool) (tool : Tool) : Nat :=
  (ran.map fun t => baseName t.program).count (baseName tool.program)

/-- The machine after a tool was started from a file and has ended. -/
def afterRun (m : Machine) (tool : Tool) (arguments : List String) (file : String) (t : FileTree)
    (out err : String) : Machine :=
  ((m.countTurn tool.program).onTree t).record
    (.ran ⟨file, tool.program :: arguments, out, err, .exited 0⟩)

theorem OnCourse.runProgram_eq {m₁ : Machine} {t₁ t₂ t₁' : FileTree} {file out err : String}
    (h : s.OnCourse σ ran m₁ t₂) (hn : times ran tool = nth)
    (hlocate : locateCommand (m₁.onTree t₁) tool.program arguments = .ok file)
    (hstart : s.started tool nth arguments t₁ = .ran t₁' out err (.exited 0)) :
    runProgram tool.program arguments (m₁.onTree t₁) =
      .ok ⟨0, out, err⟩ (afterRun m₁ tool arguments file t₁' out err) := by
  have hturn : m₁.turns (baseName tool.program) = m.turns (baseName tool.program) + nth := by
    rw [h.turns, ← hn]
    rfl
  unfold started at hstart
  rw [← h.programs, ← h.cwd, ← hturn] at hstart
  have hran : (m₁.onTree t₁).programs (baseName tool.program)
      ((m₁.onTree t₁).turns (baseName tool.program))
      ⟨(m₁.onTree t₁).cwd, tool.program, arguments⟩ (m₁.onTree t₁).tree =
        .ran t₁' out err (.exited 0) := hstart
  unfold runProgram
  rw [bind_of_ok (get_apply _)]
  simp only [hlocate, hran]
  rw [bind_of_ok (set_apply _ _)]
  rfl

theorem OnCourse.afterRun {m₁ : Machine} {t₂ t₁' t₂' : FileTree} {file out err : String}
    (h : s.OnCourse σ ran m₁ t₂) (k : s.Kin σ' t₁' t₂') :
    s.OnCourse σ' (ran ++ [tool]) (Site.afterRun m₁ tool arguments file t₁' out err) t₂' where
  cwd := h.cwd
  searchPath := h.searchPath
  programs := h.programs
  turns name := by
    have ht := h.turns name
    change (if name = baseName tool.program then m₁.turns name + 1 else m₁.turns name) = _
    rw [List.map_append, List.count_append, List.map_singleton, List.count_singleton, ht]
    by_cases hname : name = baseName tool.program
    · simp [hname, Nat.add_assoc]
    · have hb : (baseName tool.program == name) = false := by simpa using Ne.symm hname
      simp [hname, hb]
  openFiles := h.openFiles
  kin := k

theorem OnCourse.record {m₁ : Machine} {t₂ : FileTree} (h : s.OnCourse σ ran m₁ t₂) (e : Event) :
    s.OnCourse σ ran (m₁.record e) t₂ :=
  ⟨h.cwd, h.searchPath, h.programs, h.turns, h.openFiles, h.kin⟩

theorem twins_emit (e : Event) : Together (s.Twins σ ran) (s.Twins σ ran) (emit e) fun _ => True := by
  exact twins_of_onCourse fun m₁ t₂ h => ⟨(), _, t₂, trivial, rfl, rfl, h.record e⟩

section Starting

variable (hserves : s.Serves tool nth arguments σ writes text out) (ht : tool ∈ Tool.required)
  (hw : ∀ e ∈ writes, e ∈ Artifacts.endings) (hnul : ∀ w ∈ arguments, has '\x00' w = false)
  (hn : times ran tool = nth)
include hserves ht hw hnul hn

theorem OnCourse.runs {m₁ : Machine} {t₂ : FileTree} (h : s.OnCourse σ ran m₁ t₂) :
    ∃ t₁' t₂' file err,
      runProgram tool.program arguments m₁ =
        .ok ⟨0, out, err⟩ (Site.afterRun m₁ tool arguments file t₁' out err) ∧
      runProgram tool.program arguments (m₁.onTree t₂) =
        .ok ⟨0, out, err⟩ (Site.afterRun m₁ tool arguments file t₂' out err) ∧
      s.OnCourse (mark σ writes fun e => .settled (text e)) (ran ++ [tool])
        (Site.afterRun m₁ tool arguments file t₁' out err) t₂' ∧
      (∀ l, (∀ e ∈ writes, l ≠ s.slot e) → t₁'.find? l = m₁.tree.find? l) ∧
      ∀ l, (∀ e ∈ writes, l ≠ s.slot e) → t₂'.find? l = t₂.find? l := by
  obtain ⟨t₁', t₂', err, hs₁, hs₂, hk, hoff₁, hoff₂⟩ := hserves.both hw h.kin
  obtain ⟨file, hfile, hl₁⟩ := locateCommand_eq h.kin h.cwd h.searchPath ht hnul
  have hkin₂ : s.Kin σ (m₁.onTree t₂).tree m₁.tree := h.kin.swap
  obtain ⟨file', hfile', hl₂⟩ := locateCommand_eq hkin₂ h.cwd h.searchPath ht hnul
  have hsame : file' = file := by
    rw [hfile] at hfile'
    exact (Except.ok.inj hfile').symm
  rw [hsame] at hl₂
  exact ⟨t₁', t₂', file, err, h.runProgram_eq hn hl₁ hs₁, h.runProgram_eq hn hl₂ hs₂,
    h.afterRun hk, hoff₁, hoff₂⟩

theorem twins_runProgram :
    Together (s.Twins σ ran) (s.Twins (mark σ writes fun e => .settled (text e)) (ran ++ [tool]))
      (runProgram tool.program arguments) fun c => c.status = 0 ∧ c.out = out := by
  refine twins_of_onCourse fun m₁ t₂ h => ?_
  obtain ⟨t₁', t₂', file, err, h₁, h₂, hon, -, -⟩ := h.runs hserves ht hw hnul hn
  exact ⟨_, _, t₂', ⟨rfl, rfl⟩, h₁, h₂, hon⟩

theorem twins_direct {output : Output} (ho : ∀ path, output ≠ .file path) :
    Together (s.Twins σ ran) (s.Twins (mark σ writes fun e => .settled (text e)) (ran ++ [tool]))
      (do
        let destination ← tryCatch output.prepare (failToStart (tool.program :: arguments))
        execute tool.program arguments destination : MachineM Int) (· = 0) := by
  have hprepare : Together (s.Twins σ ran) (s.Twins σ ran)
      (tryCatch output.prepare (failToStart (tool.program :: arguments)))
      fun d => ∀ h, d ≠ .file h := by
    intro m₁ m₂ h
    cases output with
    | file path => exact absurd rfl (ho path)
    | shared => exact ⟨.shared, m₁, m₂, nofun, rfl, rfl, h⟩
    | discarded => exact ⟨.nowhere, m₁, m₂, nofun, rfl, rfl, h⟩
  refine hprepare.bind fun d hd => (twins_runProgram hserves ht hw hnul hn).bind fun c hc => ?_
  have hdeliver : ∀ σ', Together (s.Twins σ' (ran ++ [tool])) (s.Twins σ' (ran ++ [tool]))
      (deliver c.out d) fun _ => True := by
    intro σ'
    cases d with
    | file h => exact absurd rfl (hd h)
    | nowhere => exact Together.pure trivial
    | shared => exact twins_emit _
  exact (hdeliver _).bind fun _ _ => (twins_emit _).bind fun _ _ => Together.pure hc.1

end Starting

/-- A tool whose output goes to an artifact: the file is emptied first and filled last, and what lay
there before the run is of no account. -/
theorem twins_redirected {e : String} (he : e ∈ Artifacts.endings)
    (hserves : s.Serves tool nth arguments (mark σ [e] fun _ => .settled "") [] text (text e))
    (ht : tool ∈ Tool.required) (hnul : ∀ w ∈ arguments, has '\x00' w = false)
    (hn : times ran tool = nth) :
    Together (s.Twins σ ran) (s.Twins (mark σ [e] fun e => .settled (text e)) (ran ++ [tool]))
      (do
        let destination ← tryCatch (Output.file (p.plan.image.withEnding e)).prepare
          (failToStart (tool.program :: arguments))
        execute tool.program arguments destination : MachineM Int) (· = 0) := by
  refine twins_of_onCourse fun m₁ t₂ h => ?_
  obtain ⟨h₁, h₂, t₁', t₂', ho₁, ho₂, hreach₁, hreach₂, hkin⟩ := h.kin.open_both he
  rw [← h.cwd] at ho₁ ho₂
  have hprepare : ∀ {n : Machine} {t : FileTree} {file : Handle},
      n.tree.openForWriting n.cwd (p.plan.image.withEnding e).toString .truncate = .ok (file, t) →
      tryCatch (Output.file (p.plan.image.withEnding e)).prepare
        (failToStart (tool.program :: arguments)) n =
          .ok (.file file) ((n.onTree t).record (.opened (p.plan.image.withEnding e).toString)) := by
    intro n t file ho
    refine tryCatch_of_ok (bind_of_ok (t := _) ?_)
    unfold openForWriting
    rw [bind_of_ok (get_apply n), ho]
    rfl
  have hexecute : ∀ {n n' : Machine} {file : Handle} {err : String},
      runProgram tool.program arguments n = .ok ⟨0, text e, err⟩ n' →
      execute tool.program arguments (.file file) n =
        .ok 0 ((n'.onTree (n'.tree.append file (text e))).record (.toolErrors err)) := by
    intro n n' file err hrun
    exact bind_of_ok hrun
  let n₁ := (m₁.onTree t₁').record (.opened (p.plan.image.withEnding e).toString)
  have hn₁ : s.OnCourse (mark σ [e] fun _ => .settled "") ran n₁ t₂' :=
    ⟨h.cwd, h.searchPath, h.programs, h.turns, h.openFiles, hkin⟩
  obtain ⟨u₁, u₂, file, err, hrun₁, hrun₂, hon, hoff₁, hoff₂⟩ := hn₁.runs hserves ht nofun hnul hn
  have hk := hon.kin
  rw [mark_nil] at hk
  have hsettled : mark σ [e] (fun _ => .settled "") e = .settled "" := if_pos List.mem_cons_self
  -- The handles differ, but each still reaches the file in its own tree.
  have hu₁ : Kin.Reaches s e u₁ h₁ := by
    obtain ⟨hl, f, hf, hstamp⟩ := hreach₁
    exact ⟨hl, f, (hoff₁ _ nofun).trans hf, hstamp⟩
  have hu₂ : Kin.Reaches s e u₂ h₂ := by
    obtain ⟨hl, f, hf, hstamp⟩ := hreach₂
    exact ⟨hl, f, (hoff₂ _ nofun).trans hf, hstamp⟩
  have hlast := hk.append_slot he hsettled hu₁ hu₂ (text e)
  have htext : ∀ e' ∈ [e], Standing.settled (text e) = .settled (text e') := by
    intro e' he'
    rw [List.mem_singleton.1 he']
  rw [mark_mark, String.empty_append, mark_congr σ htext] at hlast
  refine ⟨0, _, u₂.append h₂ (text e), rfl, (bind_of_ok (hprepare ho₁)).trans (hexecute hrun₁),
    (bind_of_ok (hprepare (n := m₁.onTree t₂) ho₂)).trans (hexecute hrun₂), ?_⟩
  exact ⟨hon.cwd, hon.searchPath, hon.programs, hon.turns, hon.openFiles, hlast⟩

/-! ## Running tools -/

theorem tool?_eq (s : Site p m) (ht : tool ∈ Tool.required) :
    p.toolchain.tool? tool.role = some tool :=
  p.toolchain.tool?_of_required s.tools ht

theorem twins_tool (ht : tool ∈ Tool.required) :
    Together (s.Twins σ ran) (s.Twins σ ran) (p.toolchain.tool tool.role) (· = tool) := by
  have htool := p.toolchain.tool_of_some (s.tool?_eq ht)
  exact fun m₁ m₂ h => ⟨tool, m₁, m₂, rfl, htool m₁, htool m₂, h⟩

theorem twins_wrapped {act : MachineM α} {P : α → Prop} (toFault : SystemError → Fault)
    (h : Together (s.Twins σ ran) (s.Twins σ' ran') act P) :
    Together (s.Twins σ ran) (s.Twins σ' ran') (wrapSystemError toFault act) P := by
  intro m₁ m₂ htwins
  obtain ⟨a, m₁', m₂', ha, h₁, h₂, htwins'⟩ := h m₁ m₂ htwins
  exact ⟨a, m₁', m₂', ha, wrapSystemError_of_ok h₁, wrapSystemError_of_ok h₂, htwins'⟩

theorem twins_run (stage : String) {output : Output} (ht : tool ∈ Tool.required)
    (h : Together (s.Twins σ ran) (s.Twins σ' ran') (do
      let destination ← tryCatch output.prepare (failToStart (tool.program :: arguments))
      execute tool.program arguments destination : MachineM Int) (· = 0)) :
    Together (s.Twins σ ran) (s.Twins σ' ran')
      (p.toolchain.run stage tool.role arguments output) fun _ => True := by
  refine (twins_tool ht).bind ?_
  rintro _ rfl
  refine (twins_log _ _ _ _).bind fun _ _ => (twins_wrapped _ h).bind ?_
  rintro _ rfl
  exact Together.pure trivial

theorem twins_checksum {path : Path} {digest : String} (h : s.Sums nth path text digest)
    (hnul : has '\x00' path.toString = false) (hn : times ran Tool.checksum = nth) :
    Together (s.Twins (standing p.plan.keepTemps text 4) ran)
      (s.Twins (standing p.plan.keepTemps text 4) (ran ++ [Tool.checksum]))
      (p.toolchain.checksum path) (· = ⟨path, digest⟩) := by
  obtain ⟨out, hserves, hdigest⟩ := h
  have ht : Tool.checksum ∈ Tool.required := by decide
  have hwords : ∀ w ∈ [path.toString], has '\x00' w = false := by
    intro w hw
    rw [List.mem_singleton.1 hw]
    exact hnul
  have hrun := twins_runProgram hserves ht nofun hwords hn
  rw [mark_nil] at hrun
  have hcapture : Together (s.Twins (standing p.plan.keepTemps text 4) ran)
      (s.Twins (standing p.plan.keepTemps text 4) (ran ++ [Tool.checksum]))
      (capture Tool.checksum.program [path.toString])
      fun c => c.status = 0 ∧ Digest.ofAnswer? c.out = some digest := by
    unfold capture
    refine hrun.bind fun c hc => ?_
    rw [← hc.2] at hdigest
    exact Together.pure ⟨hc.1, hdigest⟩
  refine (twins_tool ht).bind ?_
  rintro _ rfl
  refine (twins_log _ _ _ _).bind fun _ _ => (twins_wrapped _ hcapture).bind ?_
  rintro c ⟨hc, hd⟩
  simp only [hc, hd]
  exact Together.pure rfl

end Site

end FirmwareAudit
