import FirmwareAudit.Proofs.Sessions

/-! # The order of the commands

A run attempts its commands in a fixed order. The next one has its turn only when the one before it
ended well, gave a digest if it had to, and what was used up by then could be removed.
-/
namespace FirmwareAudit

/-- A command of a run, in its place. -/
structure Turn where
  command : List String
  /-- Whether the answer has to hold a digest. -/
  measures : Bool
  /-- The removals behind it. -/
  clears : List (String × Option Stop)

namespace Turn

/-- The command ran, and ended well. -/
def Passed (t : Turn) (run : Run) : Prop :=
  run.Completes t.command ∧ (t.measures = true → ∃ d, Digest.ofAnswer? run.answer = some d)

/-- The only command attempted is that of the turn. -/
def Ends (t : Turn) (es : List Event) : Prop :=
  ∃ before e after, es = before ++ e :: after ∧ e.attempt? = some t.command ∧
    attempts before = [] ∧ removals before = [] ∧ attempts after = []

/-- The turn was passed, and everything removed that it clears. -/
def Clears (t : Turn) (es : List Event) : Prop :=
  ∃ before run after, es = before ++ .ran run :: after ∧ t.Passed run ∧
    attempts before = [] ∧ removals before = [] ∧ attempts after = [] ∧ removals after = t.clears

end Turn

/-- The ways in which events take turns. -/
inductive TakesTurns : List Turn → List Event → Prop
  | idle {ts : List Turn} {es : List Event} (h : attempts es = []) : TakesTurns ts es
  | last {t : Turn} {ts : List Turn} {es : List Event} (h : t.Ends es) : TakesTurns (t :: ts) es
  | next {t : Turn} {ts : List Turn} {es fs : List Event} (h : t.Clears es)
      (hrest : TakesTurns ts fs) : TakesTurns (t :: ts) (es ++ fs)

/-- A list cut at an element: the cut is in the first part or in the second. -/
theorem cut_append {α : Type} {xs ys before after : List α} {e : α}
    (h : xs ++ ys = before ++ e :: after) :
    (∃ l, xs = before ++ e :: l) ∨ ∃ l, before = xs ++ l ∧ ys = l ++ e :: after := by
  rcases List.append_eq_append_iff.1 h with ⟨l, rfl, hy⟩ | ⟨l, rfl, hy⟩
  · exact Or.inr ⟨l, rfl, hy⟩
  · cases l with
    | nil => exact Or.inr ⟨[], by simp, by simpa using hy.symm⟩
    | cons a l =>
      cases hy
      exact Or.inl ⟨l, rfl⟩

theorem attempts_ne_nil {before after : List Event} {e : Event} {c : List String}
    (h : e.attempt? = some c) : attempts (before ++ e :: after) ≠ [] := by
  rw [attempts_append, attempts_cons h]
  simp

/-- Behind events without attempts, the first attempt is the next event that is one. -/
theorem cut_attempt {xs ys before after : List Event} {e₀ e : Event} {c : List String}
    (hxs : attempts xs = []) (h : xs ++ e₀ :: ys = before ++ e :: after)
    (he : e.attempt? = some c) :
    (before = xs ∧ e₀ = e) ∨ ∃ l, before = xs ++ e₀ :: l ∧ ys = l ++ e :: after := by
  rcases cut_append h with ⟨l, rfl⟩ | ⟨l, rfl, hl⟩
  · exact absurd hxs (attempts_ne_nil he)
  · cases l with
    | nil =>
      cases hl
      exact Or.inl ⟨List.append_nil xs, rfl⟩
    | cons a l =>
      cases hl
      exact Or.inr ⟨l, rfl, rfl⟩

namespace TakesTurns
variable {ts : List Turn} {es fs : List Event}

theorem append_idle (h : TakesTurns ts es) (hfs : attempts fs = []) : TakesTurns ts (es ++ fs) := by
  induction h with
  | idle h =>
    apply idle
    rw [attempts_append, h, hfs, List.append_nil]
  | last h =>
    obtain ⟨before, e, after, rfl, he, hb, hr, ha⟩ := h
    refine last ⟨before, e, after ++ fs, by simp, he, hb, hr, ?_⟩
    rw [attempts_append, ha, hfs, List.append_nil]
  | next h _ ih =>
    rw [List.append_assoc]
    exact next h ih

/-- Turns are taken in order, none is left out and none is taken twice. -/
theorem attempts_prefix (h : TakesTurns ts es) : attempts es <+: ts.map (·.command) := by
  induction h with
  | idle h =>
    rw [h]
    exact List.nil_prefix
  | last h =>
    obtain ⟨before, e, after, rfl, he, hb, -, ha⟩ := h
    rw [attempts_append, hb, attempts_cons he, ha]
    exact ⟨_, rfl⟩
  | next h _ ih =>
    obtain ⟨before, run, after, rfl, hrun, hb, -, ha, -⟩ := h
    simp only [attempts_append, attempts_ran, hb, ha, hrun.1.1, List.map_cons, List.nil_append,
      List.singleton_append, List.prefix_cons_inj]
    exact ih

theorem runs_prefix (h : TakesTurns ts es) :
    (runsOf es).map (·.command) <+: ts.map (·.command) := by
  induction h with
  | idle h =>
    rw [runsOf_of_attempts h]
    exact List.nil_prefix
  | @last t ts es h =>
    obtain ⟨before, e, after, rfl, he, hb, -, ha⟩ := h
    rw [runsOf_append, runsOf_of_attempts hb, List.nil_append]
    have ha' := runsOf_of_attempts ha
    cases e with
    | ran run =>
      have hc : run.command = t.command := Option.some.inj he
      rw [runsOf_ran, ha', List.map_singleton, hc]
      exact ⟨_, rfl⟩
    | notStarted command reason =>
      have hnone : runsOf (.notStarted command reason :: after) = [] := ha'
      rw [hnone]
      exact List.nil_prefix
    | _ => cases he
  | next h _ ih =>
    obtain ⟨before, run, after, rfl, hrun, hb, -, ha, -⟩ := h
    simp only [runsOf_append, runsOf_ran, runsOf_of_attempts hb, runsOf_of_attempts ha,
      List.map_cons, hrun.1.1, List.nil_append, List.singleton_append, List.prefix_cons_inj]
    exact ih

/-- Before an attempt, every turn until then was passed and cleared. -/
theorem passed_before (h : TakesTurns ts es) {before after : List Event} {e : Event}
    {c : List String} (hes : es = before ++ e :: after) (he : e.attempt? = some c) :
    (runsOf before).map (·.command) = attempts before ∧
      (∀ run ∈ runsOf before, ∃ t ∈ ts, t.Passed run) ∧
      removals before = (ts.take (attempts before).length).flatMap (·.clears) := by
  induction h generalizing before with
  | idle h =>
    subst hes
    exact absurd h (attempts_ne_nil he)
  | last h =>
    obtain ⟨b, e₀, a, rfl, -, hb, hr, ha⟩ := h
    rcases cut_attempt hb hes he with ⟨rfl, rfl⟩ | ⟨l, rfl, rfl⟩
    · rw [hb, runsOf_of_attempts hb, hr]
      exact ⟨rfl, nofun, rfl⟩
    · exact absurd ha (attempts_ne_nil he)
  | @next t ts es fs h _ ih =>
    obtain ⟨b, run, a, rfl, hrun, hb, hr, ha, hcl⟩ := h
    rw [List.append_assoc, List.cons_append] at hes
    rcases cut_attempt hb hes he with ⟨rfl, rfl⟩ | ⟨l, rfl, hl⟩
    · rw [hb, runsOf_of_attempts hb, hr]
      exact ⟨rfl, nofun, rfl⟩
    · rcases cut_append hl with ⟨l', rfl⟩ | ⟨l', rfl, hl'⟩
      · exact absurd ha (attempts_ne_nil he)
      · obtain ⟨hcommands, hpassed, hremovals⟩ := ih hl'
        simp only [attempts_append, attempts_ran, runsOf_append, runsOf_ran, removals_append,
          removals_ran, hb, ha, hr, hcl, runsOf_of_attempts hb, runsOf_of_attempts ha,
          List.nil_append, List.length_cons, List.take_succ_cons, List.flatMap_cons, List.map_cons]
        refine ⟨by rw [hcommands], ?_, by rw [hremovals]⟩
        intro run' hmem
        rcases List.mem_cons.1 hmem with rfl | hmem
        · exact ⟨t, List.mem_cons_self, hrun⟩
        · obtain ⟨t', ht', hpass⟩ := hpassed run' hmem
          exact ⟨t', List.mem_cons_of_mem t ht', hpass⟩

end TakesTurns

/-! ## The turns of a run -/

namespace Toolchain
variable (tc : Toolchain)

/-- The command of the tool with a role, if there is one. -/
def command (role : String) (arguments : List String) : List String :=
  match tc.tool? role with
  | some tool => tool.program :: arguments
  | none => []

theorem command_of_some {role : String} {tool : Tool} (h : tc.tool? role = some tool)
    (arguments : List String) : tc.command role arguments = tool.program :: arguments := by
  rw [command, h]

end Toolchain

namespace Pipeline

variable (p : Pipeline)

def turnOf (s : Stage) : Turn where
  command := p.toolchain.command s.role s.arguments
  measures := false
  clears := p.usedUp [s]

def checksumTurn (path : Path) : Turn where
  command := p.toolchain.command Tool.checksum.role [path.toString]
  measures := true
  clears := []

def turns : List Turn :=
  p.work.map p.turnOf ++ [p.checksumTurn p.plan.image, p.checksumTurn p.files.rebuilt]

theorem attempts_removedActs (paths : List Path) : attempts (p.removedActs paths) = [] := by
  unfold removedActs
  split
  · rfl
  · exact attempts_removalActs paths

theorem usedUp_cons (s : Stage) (ss : List Stage) :
    p.usedUp (s :: ss) = p.usedUp [s] ++ p.usedUp ss := by
  unfold usedUp
  split
  · rfl
  · simp

theorem clears_of_completed {s : Stage} {run : Run} (h : p.Completed s run) :
    (p.turnOf s).Clears (startActs s run.command ++ .ran run :: p.removedActs s.uses) := by
  obtain ⟨tool, ht, hcommand, hend⟩ := h
  obtain ⟨hr, -⟩ := p.reads_removedActs .output s.uses
  have hc : run.command = (p.turnOf s).command :=
    hcommand.trans (p.toolchain.command_of_some ht s.arguments).symm
  refine ⟨_, run, _, rfl, ⟨⟨hc, hend⟩, nofun⟩, rfl, rfl, p.attempts_removedActs s.uses, ?_⟩
  rw [hr, turnOf, usedUp, List.flatMap_singleton]

theorem takesTurns_doneActs {ss : List Stage} {runs : List Run} {ts : List Turn} {es : List Event}
    (hruns : List.Forall₂ p.Completed ss runs) (h : TakesTurns ts es) :
    TakesTurns (ss.map p.turnOf ++ ts) (p.doneActs ss runs ++ es) := by
  induction hruns with
  | nil => exact h
  | @cons s run ss runs hrun _ ih =>
    have hd : p.doneActs (s :: ss) (run :: runs) =
        (startActs s run.command ++ .ran run :: p.removedActs s.uses) ++ p.doneActs ss runs := rfl
    rw [hd, List.append_assoc]
    exact .next (p.clears_of_completed hrun) ih

theorem StageEnd.takesTurn {p : Pipeline} {s : Stage} {w w' : Workplace (List Path)} {stop : Stop}
    (h : p.StageEnd s w (.error stop w')) (ts : List Turn) :
    ∃ es, w.machine.Adds es w'.machine ∧ TakesTurns (p.turnOf s :: ts) es := by
  cases h with
  | missed stop es m hblame hmiss hadds =>
    refine ⟨es, hadds, ?_⟩
    rcases hmiss with ⟨-, rfl⟩ | ⟨tool, e, ht, he, rfl⟩
    · exact .idle rfl
    · have hc : (p.turnOf s).command = tool.program :: s.arguments :=
        p.toolchain.command_of_some ht s.arguments
      exact .last ⟨_, e, [], rfl, hc ▸ he.attempt, rfl, rfl, rfl⟩
  | stuck run gone path rest stop reason m hrun hkeep huses hblame hadds =>
    refine ⟨_, hadds, .last ?_⟩
    obtain ⟨tool, ht, hcommand, -⟩ := hrun
    have hc : run.command = (p.turnOf s).command :=
      hcommand.trans (p.toolchain.command_of_some ht s.arguments).symm
    refine ⟨_, .ran run, _, rfl, congrArg some hc, rfl, rfl, ?_⟩
    rw [attempts_append, attempts_removalActs]
    rfl

theorem checksum_takesTurn (path : Path) (m : Machine) :
    (∃ s m' es, p.toolchain.checksum path m = .error s m' ∧ m.Adds es m' ∧
      ∀ ts, TakesTurns (p.checksumTurn path :: ts) es) ∨
    (∃ c m' es, p.toolchain.checksum path m = .ok c m' ∧ m.Adds es m' ∧
      (p.checksumTurn path).Clears es) := by
  rcases p.toolchain.checksum_cases path m with ⟨-, h⟩ | ⟨tool, m', ht, h⟩
  · exact Or.inl ⟨_, m, [], h, Machine.Adds.refl m, fun ts => .idle rfl⟩
  · have hc : (p.checksumTurn path).command = [tool.program, path.toString] :=
      p.toolchain.command_of_some ht [path.toString]
    rcases h with ⟨s, e, h, -, he, ha⟩ | ⟨run, d, h, hrun, hd, ha⟩
    · rw [← hc] at he
      exact Or.inl ⟨s, m', _, h, ha, fun ts => .last ⟨[_], e, [], rfl, he.attempt, rfl, rfl, rfl⟩⟩
    · rw [← hc] at hrun
      exact Or.inr ⟨_, m', _, h, ha, [_], run, [], rfl, ⟨hrun, fun _ => ⟨d, hd⟩⟩, rfl, rfl, rfl, rfl⟩

theorem adds_printed (text : String) (m : Machine) :
    ∃ m' es, printLine p.stream text m = .ok () m' ∧ m.Adds es m' ∧ attempts es = [] := by
  obtain ⟨m', h, ha⟩ := p.adds_printLine text m
  exact ⟨m', _, h, ha, rfl⟩

theorem compare_takesTurns (m : Machine) :
    ∃ es, m.Adds es (endState (p.compare m)) ∧
      TakesTurns [p.checksumTurn p.plan.image, p.checksumTurn p.files.rebuilt] es := by
  unfold compare
  rcases p.checksum_takesTurn p.plan.image m with ⟨s, m₁, es, h₁, ha₁, ht⟩ | h
  · rw [bind_of_error h₁]
    exact ⟨es, ha₁, ht _⟩
  obtain ⟨image, m₁, es₁, h₁, ha₁, ht₁⟩ := h
  rw [bind_of_ok h₁]
  rcases p.checksum_takesTurn p.files.rebuilt m₁ with ⟨s, m₂, es, h₂, ha₂, ht⟩ | h
  · rw [bind_of_error h₂]
    exact ⟨_, ha₁.trans ha₂, .next ht₁ (ht _)⟩
  obtain ⟨rebuilt, m₂, es₂, h₂, ha₂, ht₂⟩ := h
  obtain ⟨m₃, es₃, h₃, ha₃, hidle₃⟩ := p.adds_printed image.line m₂
  obtain ⟨m₄, es₄, h₄, ha₄, hidle₄⟩ := p.adds_printed rebuilt.line m₃
  have hidle : attempts (es₃ ++ es₄) = [] := by
    rw [attempts_append, hidle₃, hidle₄, List.append_nil]
  rw [bind_of_ok h₂, bind_of_ok h₃, bind_of_ok h₄]
  exact ⟨_, ha₁.trans (ha₂.trans (ha₃.trans ha₄)), .next ht₁ (.next ht₂ (.idle hidle))⟩

theorem judge_idle (image rebuilt : Checksum) (m : Machine) :
    ∃ es, m.Adds es (endState (p.judge image rebuilt m)) ∧ attempts es = [] := by
  rcases p.judge_cases image rebuilt m with ⟨s, hj, -⟩ | ⟨hj, -⟩ | ⟨here, m', hj, -, ha⟩ <;> rw [hj]
  · exact ⟨[], Machine.Adds.refl m, rfl⟩
  · exact ⟨[], Machine.Adds.refl m, rfl⟩
  · exact ⟨_, ha, rfl⟩

theorem verify_takesTurns (w : Workplace (List Path)) :
    ∃ es, w.machine.Adds es (endState (p.verify w)).machine ∧
      TakesTurns [p.checksumTurn p.plan.image, p.checksumTurn p.files.rebuilt] es := by
  obtain ⟨es, ha, ht⟩ := p.compare_takesTurns w.machine
  unfold verify
  cases hc : p.compare w.machine with
  | error s m =>
    have h₁ := (onMachine_eq_error (w := w)).2 ⟨m, hc, rfl⟩
    rw [hc] at ha
    rw [bind_of_error h₁]
    exact ⟨es, ha, ht⟩
  | ok c m =>
    obtain ⟨image, rebuilt⟩ := c
    have h₁ := (onMachine_eq_ok (w := w)).2 ⟨m, hc, rfl⟩
    rw [hc] at ha
    rw [bind_of_ok h₁]
    change ∃ es, w.machine.Adds es (endState ((do
      p.removeTemps [p.files.rebuilt]
      onMachine (p.judge image rebuilt)) ⟨m, w.own⟩)).machine ∧ _
    obtain ⟨gone, es', hrem, hidle⟩ := p.removeTemps_accounts [p.files.rebuilt] ⟨m, w.own⟩
    have ha' := hrem.adds
    cases hr : p.removeTemps [p.files.rebuilt] ⟨m, w.own⟩ with
    | error s w' =>
      rw [hr] at ha'
      rw [bind_of_error hr]
      exact ⟨_, ha.trans ha', ht.append_idle hidle⟩
    | ok u w' =>
      rw [hr] at ha'
      rw [bind_of_ok hr]
      obtain ⟨es'', ha'', hidle'⟩ := p.judge_idle image rebuilt w'.machine
      rw [endState_onMachine]
      exact ⟨_, (ha.trans ha').trans ha'', (ht.append_idle hidle).append_idle hidle'⟩

theorem stages_takesTurns (w : Workplace (List Path)) :
    ∃ es, w.machine.Adds es (endState (p.stages w)).machine ∧ TakesTurns p.turns es := by
  rw [stages_eq]
  rcases p.performAll_cases p.work w with ⟨runs, m, hp, hruns, -, ha⟩ | h
  · obtain ⟨es, ha', ht⟩ := p.verify_takesTurns ⟨m, p.leavesAll p.work w.own⟩
    rw [bind_of_ok hp]
    exact ⟨_, ha.trans ha', p.takesTurns_doneActs hruns ht⟩
  · obtain ⟨before, s, rest, runs, m, stop, w', hsplit, hp, hruns, -, ha, hend⟩ := h
    obtain ⟨es, ha', ht⟩ := hend.takesTurn (rest.map p.turnOf ++
      [p.checksumTurn p.plan.image, p.checksumTurn p.files.rebuilt])
    have hturns : p.turns = before.map p.turnOf ++ p.turnOf s :: (rest.map p.turnOf ++
        [p.checksumTurn p.plan.image, p.checksumTurn p.files.rebuilt]) := by
      rw [turns, hsplit, List.map_append, List.map_cons, List.append_assoc, List.cons_append]
    rw [bind_of_error hp, hturns]
    exact ⟨_, ha.trans ha', p.takesTurns_doneActs hruns ht⟩

theorem run_takesTurns (w : Workplace (List Path)) :
    ∃ es, w.machine.Adds es (endState (p.run w)).machine ∧ TakesTurns p.turns es := by
  obtain ⟨es, ha, ht⟩ := p.stages_takesTurns w
  rcases p.endState_run w with hr | hr
  · rw [hr]
    exact ⟨es, ha, ht⟩
  · obtain ⟨gone, es', h', hidle⟩ := p.discardPending_accounts (endState (p.stages w))
    rw [hr]
    exact ⟨_, ha.trans h'.adds, ht.append_idle hidle⟩

end Pipeline

namespace Plan

/-- The commands of an audit with the usual tools. -/
def commandLines (p : Plan) : List (List String) :=
  let image := p.image.toString
  [["avr-objdump", "-m", p.architecture.shown, "-b", p.fileType.shown, "-s", "-D", image],
    ["avr-postproc", "-i", p.chipDefinitions.toString] ++
      p.dataRanges.flatMap (fun v => ["-d", v.shown]) ++
      p.labelFiles.flatMap (fun v => ["-L", v.shown]) ++
      p.commentFiles.flatMap (fun v => ["-C", v.shown]) ++ [image ++ ".raw.asm"],
    ["avra", "-I", p.includeDir.toString, image ++ ".asm"],
    ["avr-objcopy", "-I", "ihex", "-O", p.fileType.shown, image ++ ".hex", image ++ ".reassembled"],
    ["sha1sum", image],
    ["sha1sum", image ++ ".reassembled"]]

theorem commandLines_nodup (p : Plan) : p.commandLines.Nodup := by
  have hne : p.image.toString ≠ p.image.toString ++ ".reassembled" := by
    intro h
    have hl := congrArg String.length h
    rw [String.length_append] at hl
    have hpos : ".reassembled".length = 12 := by decide
    omega
  simp [commandLines, hne]

theorem map_shown_repeated (flag : String) (values : List Setting) :
    (repeated flag values).map Setting.shown = values.flatMap fun v => [flag, v.shown] := by
  simp [repeated, List.map_flatMap]

end Plan

namespace Pipeline

variable (p : Pipeline)

section UsualTools
variable {p} (htools : p.toolchain.tools = Tool.required)
include htools

theorem turns_commands : p.turns.map (·.command) = p.plan.commandLines := by
  have hcommand : ∀ tool ∈ Tool.required, ∀ arguments,
      p.toolchain.command tool.role arguments = tool.program :: arguments := fun tool ht =>
    p.toolchain.command_of_some (p.toolchain.tool?_of_required htools ht)
  have hfile : ∀ e ∈ Artifacts.endings,
      (p.plan.image.withEnding e).toString = p.plan.image.toString ++ e :=
    fun e he => p.plan.image.toString_withEnding (Artifacts.isEnding_of_mem he)
  have hlisting : p.plan.artifacts.listing.toString = _ := hfile ".raw.asm" (by decide)
  have hsource : p.plan.artifacts.source.toString = _ := hfile ".asm" (by decide)
  have hflash : p.plan.artifacts.flash.toString = _ := hfile ".hex" (by decide)
  have hrebuilt : p.plan.artifacts.rebuilt.toString = _ := hfile ".reassembled" (by decide)
  have h₁ : (p.turnOf p.disassembly).command = _ := hcommand Tool.disassembler (by decide) _
  have h₂ : (p.turnOf p.postprocessing).command = _ := hcommand Tool.postprocessor (by decide) _
  have h₃ : (p.turnOf p.reassembly).command = _ := hcommand Tool.assembler (by decide) _
  have h₄ : (p.turnOf p.conversion).command = _ := hcommand Tool.converter (by decide) _
  have h₅ : ∀ path, (p.checksumTurn path).command = _ := fun path =>
    hcommand Tool.checksum (by decide) [path.toString]
  simp only [turns, work, List.map_append, List.map_cons, List.map_nil, h₁, h₂, h₃, h₄, h₅]
  simp only [disassembly, postprocessing, reassembly, conversion, files, Plan.commandLines,
    Plan.disassemblerArguments, Plan.postprocessorArguments, Plan.assemblerArguments,
    Plan.converterArguments, Plan.postprocessorFlags, List.map_append, Plan.map_shown_repeated,
    hlisting, hsource, hflash, hrebuilt]
  simp [Tool.disassembler, Tool.postprocessor, Tool.assembler, Tool.converter, Tool.checksum]

/-- The checksum tool is the only one whose answer is read. -/
theorem measures_of_head {t : Turn} (ht : t ∈ p.turns) (hhead : t.command.head? = some "sha1sum") :
    t.measures = true := by
  have hcommand : ∀ tool ∈ Tool.required, ∀ arguments,
      (p.toolchain.command tool.role arguments).head? = some tool.program := by
    intro tool htool arguments
    rw [p.toolchain.command_of_some (p.toolchain.tool?_of_required htools htool)]
    rfl
  rcases List.mem_append.1 ht with ht | ht
  · obtain ⟨s, hs, rfl⟩ := List.mem_map.1 ht
    have hstage : ∃ tool ∈ Tool.required, s.role = tool.role ∧ tool.program ≠ "sha1sum" := by
      simp only [work, List.mem_cons, List.not_mem_nil, or_false] at hs
      rcases hs with rfl | rfl | rfl | rfl
      · exact ⟨Tool.disassembler, by decide, rfl, by decide⟩
      · exact ⟨Tool.postprocessor, by decide, rfl, by decide⟩
      · exact ⟨Tool.assembler, by decide, rfl, by decide⟩
      · exact ⟨Tool.converter, by decide, rfl, by decide⟩
    obtain ⟨tool, htool, hrole, hne⟩ := hstage
    rw [turnOf, hrole, hcommand tool htool] at hhead
    exact absurd (Option.some.inj hhead) hne
  · simp only [List.mem_cons, List.not_mem_nil, or_false] at ht
    rcases ht with rfl | rfl <;> rfl

end UsualTools

theorem usedUp_eq_flatMap (ss : List Stage) : p.usedUp ss = ss.flatMap fun s => p.usedUp [s] := by
  induction ss with
  | nil =>
    unfold usedUp
    split <;> rfl
  | cons s rest ih => rw [usedUp_cons, ih, List.flatMap_cons]

theorem clears_take (n : ℕ) : (p.turns.take n).flatMap (·.clears) = p.usedUp (p.work.take n) := by
  have hlast : ∀ k, ([p.checksumTurn p.plan.image, p.checksumTurn p.files.rebuilt].take k).flatMap
      (·.clears) = [] := by
    intro k
    rw [List.flatMap_eq_nil_iff]
    intro t ht
    have hmem := List.mem_of_mem_take ht
    simp only [List.mem_cons, List.not_mem_nil, or_false] at hmem
    rcases hmem with rfl | rfl <;> rfl
  rw [turns, List.take_append, List.flatMap_append, hlast, List.append_nil, ← List.map_take,
    List.flatMap_map, usedUp_eq_flatMap]
  rfl

/-- The commands of a run, on any machine and with anything pending before it, are the first ones of
the plan's, each once, and those that started are the first ones too. Where a command is attempted,
all those before it exited with status 0, each checksum among them with a digest, and all files that
their stages use up were removed. -/
theorem run_commands (htools : p.toolchain.tools = Tool.required) (w : Workplace (List Path)) :
    ∃ events, (endState (p.run w)).machine.trace = w.machine.trace ++ events ∧
      attempts events <+: p.plan.commandLines ∧ (attempts events).Nodup ∧
      (runsOf events).map (·.command) <+: p.plan.commandLines ∧
      ∀ before e after command, events = before ++ e :: after → e.attempt? = some command →
        (runsOf before).map (·.command) = attempts before ∧
        (∀ run ∈ runsOf before, run.ending = .exited 0 ∧
          (run.command.head? = some "sha1sum" → ∃ d, Digest.ofAnswer? run.answer = some d)) ∧
        removals before = p.usedUp (p.work.take (attempts before).length) := by
  obtain ⟨es, ⟨events, htrace, rfl⟩, h⟩ := p.run_takesTurns w
  have hcommands := turns_commands htools
  have hattempts := h.attempts_prefix
  have hruns := h.runs_prefix
  rw [hcommands, attempts_acts] at hattempts
  rw [hcommands, runsOf_acts] at hruns
  refine ⟨events, htrace, hattempts, hattempts.sublist.nodup p.plan.commandLines_nodup, hruns, ?_⟩
  intro before e after command hevents he
  have hact : acts events = acts before ++ e :: acts after := by
    have hisAct : e.isAct = true := by
      cases e with
      | ran run => rfl
      | notStarted c reason => rfl
      | _ => cases he
    rw [hevents, acts_append, acts, acts, acts, List.filter_cons_of_pos hisAct]
  obtain ⟨hcmd, hpassed, hremovals⟩ := h.passed_before hact he
  rw [runsOf_acts, attempts_acts] at hcmd
  rw [runsOf_acts] at hpassed
  rw [removals_acts, attempts_acts, p.clears_take] at hremovals
  refine ⟨hcmd, ?_, hremovals⟩
  intro run hrun
  obtain ⟨t, ht, hpass⟩ := hpassed run hrun
  refine ⟨hpass.1.2, fun hhead => hpass.2 ?_⟩
  rw [hpass.1.1] at hhead
  exact measures_of_head htools ht hhead

/-- Where the listing stays, both commands before it ended well, and no other is attempted. -/
theorem run_commands_stuckListing :
    plainAudit.toolchain.tools = Tool.required ∧
    ∃ events, (endState (plainAudit.run ⟨stuckListing 0, []⟩)).machine.trace = events ∧
      attempts events <+: plainAudit.plan.commandLines ∧ (attempts events).length = 2 := by
  have htools : plainAudit.toolchain.tools = Tool.required := by decide
  obtain ⟨events, htrace, hprefix, -⟩ := plainAudit.run_commands htools ⟨stuckListing 0, []⟩
  have hcount : (attempts (endState (plainAudit.run ⟨stuckListing 0, []⟩)).machine.trace).length = 2 := by
    decide +kernel
  rw [htrace] at hcount
  exact ⟨htools, events, htrace, hprefix, hcount⟩

end Pipeline

end FirmwareAudit
