import FirmwareAudit.Proofs.Retention
import FirmwareAudit.Proofs.Trails

/-! # A run that passes leaves nothing behind

Where the plan keeps no temporary files, a run that returns has removed each artifact once, as soon
as nothing needed it any more. What was pending before and is no artifact of the image is pending
still.
-/
namespace FirmwareAudit

namespace Event

/-- Whether a program was run or failed to start, or a removal was tried. -/
def isStep : Event → Bool
  | ran _ => true
  | notStarted _ _ => true
  | unlinked _ _ => true
  | _ => false

end Event

/-- The programs and the removals of a trace, in order. -/
def steps (es : List Event) : List Event := es.filter (·.isStep)

@[simp] theorem steps_append (es fs : List Event) : steps (es ++ fs) = steps es ++ steps fs :=
  List.filter_append ..

theorem steps_acts (es : List Event) : steps (acts es) = steps es := by
  unfold steps acts
  rw [List.filter_filter]
  refine List.filter_congr fun e _ => ?_
  cases e <;> rfl

theorem runsOf_steps (es : List Event) : runsOf (steps es) = runsOf es := by
  induction es with
  | nil => rfl
  | cons e rest ih =>
    cases e with
    | ran r => exact congrArg (r :: ·) ih
    | _ => exact ih

namespace Pipeline

/-! ## Removals that succeed -/

/-- The removal of a file that went. -/
def gone (f : Path) : Event := .unlinked f.toString none

theorem steps_removalActs (paths : List Path) :
    steps (paths.flatMap removalActs) = paths.map gone := by
  induction paths with
  | nil => rfl
  | cons f rest ih =>
    rw [List.flatMap_cons, steps_append, ih]
    rfl

/-- With nothing pending twice, letting files go is dropping them. -/
theorem without_eq_filter {pending : List Path} (h : pending.Nodup) (paths : List Path) :
    without pending paths = pending.filter (· ∉ paths) := by
  unfold without
  induction paths generalizing pending with
  | nil => simp
  | cons f rest ih =>
    rw [List.foldl_cons, ih (h.erase f), h.erase_eq_filter, List.filter_filter]
    refine List.filter_congr fun g _ => ?_
    simp [Bool.and_comm, bne, Bool.beq_eq_decide_eq]

/-- What was recorded and let go again leaves no mark on the pending files. -/
theorem without_foldl_addPending {pending made paths : List Path} (h : pending.Nodup)
    (hmade : ∀ f ∈ made, f ∈ paths) :
    without (made.foldl addPending pending) paths = pending.filter (· ∉ paths) := by
  obtain ⟨new, he, hsub, -⟩ := exists_recorded pending made
  have hnone : new.filter (· ∉ paths) = [] := by
    refine List.filter_eq_nil_iff.2 fun f hf => ?_
    simpa using hmade f (hsub.subset hf)
  rw [without_eq_filter (nodup_foldl_addPending h made), he, List.filter_append, hnone,
    List.append_nil]

/-- On the way no file was opened, no program ran, and where there was nothing there is nothing. -/
theorem find?_of_reaches {m m' : Machine} {fs : List Event} (h : m.Reaches (fun _ => False) m')
    (hadds : m.Adds fs m') (hruns : runsOf fs = []) {l : Location} (hl : m.tree.find? l = none) :
    m'.tree.find? l = none := by
  obtain ⟨es, cs, hcomes, hopen⟩ := h
  have hcs : cs = [] := by
    have hmade := hcomes.runs
    rw [← runsOf_acts, hcomes.acts_eq hadds, hruns] at hmade
    exact List.forall₂_nil_left_iff.1 hmade
  subst hcs
  exact hcomes.trail.find?_of_none (fun path hp => (hopen path hp).elim) nofun hl

theorem unlink_eq_ok {f : Path} {m m' : Machine} {u : Unit} (h : unlink f m = .ok u m') :
    ∃ t, m.tree.unlink m.cwd f.toString = .ok t ∧ m'.tree = t := by
  unfold unlink at h
  rw [bind_of_ok (get_apply m)] at h
  cases hu : m.tree.unlink m.cwd f.toString with
  | ok t =>
    rw [hu] at h
    obtain ⟨-, rfl⟩ := EStateM.Result.ok.inj h
    exact ⟨t, rfl, rfl⟩
  | error fault =>
    rw [hu] at h
    cases h

theorem find?_of_remove {f : Path} {m m' : Machine} {u : Unit} (h : remove f m = .ok u m') :
    m'.tree.find? (FileTree.placeOf m.cwd f.toString) = none := by
  unfold remove at h
  rw [bind_of_ok (log_eq _ _ _ _ m)] at h
  obtain ⟨t, ht, rfl⟩ := unlink_eq_ok (wrapSystemError_eq_ok h)
  exact (FileTree.find?_of_unlink_eq_ok ht).1

theorem adds_of_removeEach {paths : List Path} {w w' : Workplace (List Path)} {u : Unit}
    (h : removeEach paths w = .ok u w') :
    w.machine.Adds (paths.flatMap removalActs) w'.machine := by
  rcases removeEach_cases paths w with ⟨m', hr, hadds⟩ | hstuck
  · rw [h] at hr
    cases hr
    exact hadds
  · obtain ⟨gone, path, rest, s, reason, m', -, hr, -, -⟩ := hstuck
    rw [h] at hr
    cases hr

/-- Once all of them are removed, none is where its path leads. -/
theorem find?_of_removeEach {paths : List Path} {w w' : Workplace (List Path)} {u : Unit}
    (h : removeEach paths w = .ok u w') :
    ∀ f ∈ paths, w'.machine.tree.find? (FileTree.placeOf w.machine.cwd f.toString) = none := by
  induction paths generalizing w with
  | nil => exact nofun
  | cons f rest ih =>
    unfold removeEach at h
    obtain ⟨u₁, w₁, hremove, h⟩ := bind_eq_ok.1 h
    obtain ⟨u₂, w₂, hsettle, hrest⟩ := bind_eq_ok.1 h
    obtain ⟨m₁, hfirst, rfl⟩ := onMachine_eq_ok.1 hremove
    obtain ⟨-, rfl⟩ := EStateM.Result.ok.inj hsettle
    have hremoved := Machine.Reaches.keeps_remove f w.machine
      (Machine.Reaches.refl (fun _ => False) w.machine)
    rw [hfirst] at hremoved
    have hreaches := reaches_removeEach rest ⟨m₁, w.own.erase f⟩
      (Machine.Reaches.refl (fun _ => False) m₁)
    rw [hrest] at hreaches
    have hruns : runsOf (rest.flatMap removalActs) = [] :=
      (reads_removalActs .output rest).2.2.2
    have hcwd : m₁.cwd = w.machine.cwd := hremoved.cwd
    have hlater := ih hrest
    simp only [hcwd] at hlater
    have hnow := find?_of_remove hfirst
    exact List.forall_mem_cons.2
      ⟨find?_of_reaches hreaches (adds_of_removeEach hrest) hruns hnow, hlater⟩

/-! ## One stage -/

variable (p : Pipeline)

/-- Where the path of a file leads, there is nothing. -/
def Cleared (m : Machine) (f : Path) : Prop :=
  m.tree.find? (FileTree.placeOf m.cwd f.toString) = none

theorem Cleared.holds_eq {m : Machine} {f : Path} (h : Cleared m f) : m.holds f = false := by
  unfold Machine.holds FileTree.probe FileTree.status
  cases hr : m.tree.resolve m.cwd f.toString with
  | error e =>
    cases e with
    | nulByte => rfl
    | errno e => cases e <;> rfl
  | ok target =>
    cases target with
    | vacant l d => rfl
    | node l n =>
      have hplace : l = FileTree.placeOf m.cwd f.toString := FileTree.location_of_resolve hr
      have hfind := FileTree.find?_of_resolve hr
      rw [hplace, h] at hfind
      cases hfind

theorem Cleared.of_comes {m m' : Machine} {f : Path} {es : List Event} {cs : List Change}
    (h : Cleared m f) (hcomes : m.Comes es cs m') (hopen : ∀ path, .opened path ∉ es)
    (hcs : ∀ c ∈ cs, ¬ c.Brings (FileTree.placeOf m.cwd f.toString)) : Cleared m' f := by
  rw [Cleared, hcomes.cwd]
  exact hcomes.trail.find?_of_none (fun path hp => absurd hp (hopen path)) hcs h

/-- The steps of a stage that ends well: its program, then the removals. -/
theorem steps_of_acts {s : Stage} {run : Run} {es : List Event}
    (h : acts es = startActs s run.command ++ .ran run :: s.uses.flatMap removalActs) :
    steps es = .ran run :: s.uses.map gone := by
  have hstart : steps (startActs s run.command) = [] := rfl
  have hsplit : acts es = startActs s run.command ++ ([.ran run] ++ s.uses.flatMap removalActs) := h
  rw [← steps_acts, hsplit, steps_append, hstart, steps_append, steps_removalActs]
  rfl

theorem performAll_cons {s : Stage} {rest : List Stage} {w w' : Workplace (List Path)} {u : Unit}
    (h : p.performAll (s :: rest) w = .ok u w') :
    ∃ w₁, p.perform s w = .ok () w₁ ∧ p.performAll rest w₁ = .ok u w' := by
  unfold performAll at h
  obtain ⟨u₁, w₁, hs, hrest⟩ := bind_eq_ok.1 h
  exact ⟨w₁, hs, hrest⟩

section Stages
variable {p} (hkeep : p.plan.keepTemps = false) {w w' : Workplace (List Path)} {u : Unit}
include hkeep

theorem cleared_of_removeTemps {paths : List Path} (h : p.removeTemps paths w = .ok u w') :
    ∀ f ∈ paths, Cleared w'.machine f := by
  have hreaches := p.reaches_removeTemps paths w (Machine.Reaches.refl (fun _ => False) w.machine)
  rw [h] at hreaches
  rw [removeTemps, hkeep, if_neg (by decide)] at h
  intro f hf
  have hnone := find?_of_removeEach h f hf
  rwa [← hreaches.cwd] at hnone

/-- A stage that ends well ran its tool once and opened only the file for the tool's output. What it
used up is gone. -/
theorem perform_clean {s : Stage} (h : p.perform s w = .ok u w') :
    ∃ run c es, p.Completed s run ∧ w.machine.Comes es [c] w'.machine ∧
      acts es = startActs s run.command ++ .ran run :: s.uses.flatMap removalActs ∧
      (∀ path, .opened path ∈ es → ∃ f, s.output = .file f ∧ path = f.toString) ∧
      w'.own = p.leaves s w.own ∧ ∀ f ∈ s.uses, Cleared w'.machine f := by
  let opens : String → Prop := fun path => ∃ f, s.output = .file f ∧ path = f.toString
  have hopens : ∀ f, s.output = .file f → opens f.toString := fun f hf => ⟨f, hf, rfl⟩
  have hreaches := p.reaches_perform hopens w (.refl opens w.machine)
  have hend := p.perform_ends s w
  rw [h] at hreaches hend
  obtain ⟨es, cs, hcomes, hopen⟩ := hreaches
  cases hend with
  | done run m hrun hnul hadds =>
    rw [removedActs, hkeep, if_neg (by decide)] at hadds
    have hacts := hcomes.acts_eq hadds
    have hruns : runsOf es = [run] := by
      have hnone := (reads_removalActs .output s.uses).2.2.2
      rw [← runsOf_acts, hacts, runsOf_append, runsOf_ran, hnone]
      rfl
    have hmade := hcomes.runs
    rw [hruns] at hmade
    obtain ⟨c, rfl⟩ : ∃ c, cs = [c] := List.length_eq_one_iff.1 hmade.length_eq.symm
    refine ⟨run, c, es, hrun, hcomes, hacts, hopen, rfl, ?_⟩
    unfold perform at h
    obtain ⟨u₁, w₁, -, h⟩ := bind_eq_ok.1 h
    obtain ⟨u₂, w₂, -, h⟩ := bind_eq_ok.1 h
    exact cleared_of_removeTemps hkeep h

theorem judge_clean {image rebuilt : Checksum} {v : Verdict} {m m' : Machine}
    (h : p.judge image rebuilt m = .ok v m') :
    v.kept = [] ∧ ∀ f, Cleared m f → Cleared m' f := by
  obtain ⟨m₁, hkept, -⟩ := p.kept_of_judge h
  rw [kept, hkeep, if_neg (by decide)] at hkept
  refine ⟨(EStateM.Result.ok.inj hkept).1.symm, fun f hf => ?_⟩
  have hreaches := p.reaches_judge image rebuilt m (Machine.Reaches.refl (fun _ => False) m)
  rw [h] at hreaches
  have hcwd : m'.cwd = m.cwd := hreaches.cwd
  rcases p.judge_cases image rebuilt m with ⟨s, hj, -, -⟩ | ⟨hj, -, -⟩ | ⟨here, m₂, hj, -, hadds⟩
  · rw [h] at hj
    cases hj
  · rw [h] at hj
    cases hj
  · rw [h] at hj
    cases hj
    rw [Cleared, hcwd]
    exact find?_of_reaches hreaches hadds rfl hf

/-- The last stage, where it ends in a verdict: both checksums are had, then the rebuilt image goes. -/
theorem verify_clean {v : Verdict} (h : p.verify w = .ok v w') :
    ∃ run₁ run₂ c₁ c₂ es, p.Measured v.image v.rebuilt run₁ run₂ ∧
      w.machine.Comes es [c₁, c₂] w'.machine ∧
      steps es = [.ran run₁, .ran run₂, gone p.files.rebuilt] ∧ (∀ path, .opened path ∉ es) ∧
      w'.own = without w.own [p.files.rebuilt] ∧ v.kept = [] ∧
      Cleared w'.machine p.files.rebuilt := by
  have hreaches := p.reaches_verify w (Machine.Reaches.refl (fun _ => False) w.machine)
  have hend := p.verify_ends w
  rw [h] at hreaches hend
  unfold verify at h
  obtain ⟨sums, w₁, -, h⟩ := bind_eq_ok.1 h
  obtain ⟨u, w₂, hremove, h⟩ := bind_eq_ok.1 h
  obtain ⟨m₃, hjudge, hw'⟩ := onMachine_eq_ok.1 h
  obtain ⟨hkept, hstays⟩ := judge_clean hkeep hjudge
  have hclear : Cleared w'.machine p.files.rebuilt := by
    rw [hw']
    exact hstays _ (cleared_of_removeTemps hkeep hremove _ List.mem_cons_self)
  clear h hjudge hw'
  obtain ⟨es, cs, hcomes, hopen⟩ := hreaches
  cases hend with
  | agrees image rebuilt run₁ run₂ here m hmeas hsame hadds =>
    rw [removedActs, hkeep, if_neg (by decide)] at hadds
    have hacts := hcomes.acts_eq hadds
    have hruns : runsOf es = [run₁, run₂] := by
      rw [← runsOf_acts, hacts]
      rfl
    have hmade := hcomes.runs
    rw [hruns] at hmade
    obtain ⟨c₁, c₂, rfl⟩ : ∃ c₁ c₂, cs = [c₁, c₂] := List.length_eq_two.1 hmade.length_eq.symm
    refine ⟨run₁, run₂, c₁, c₂, es, hmeas, hcomes, ?_, hopen, ?_, ?_, ?_⟩
    · rw [← steps_acts, hacts]
      rfl
    · rw [spared, hkeep, if_neg (by decide)]
    · exact hkept
    · exact hclear

/-! ## The whole run -/

variable (p) in
omit hkeep in
/-- The artifacts in the order in which they go, each with the number of programs run till then. -/
def removedAfter : List (Nat × Path) :=
  [(2, p.files.listing), (3, p.files.source), (3, p.files.object), (3, p.files.debugInfo),
    (3, p.files.eeprom), (4, p.files.flash), (6, p.files.rebuilt)]

/-- What is pending when a run has passed. -/
theorem own_of_clean {pending : List Path} (h : pending.Nodup) :
    without (p.leavesAll p.work pending) [p.files.rebuilt] =
      pending.filter (· ∉ p.files.all) := by
  have hmakes : ∀ f ∈ p.work.flatMap (·.makes), f ∈ p.files.all := by
    simp [work, disassembly, postprocessing, reassembly, conversion, Artifacts.all]
  have hall : ∀ f, f ∈ p.work.flatMap (·.uses) ++ [p.files.rebuilt] ↔ f ∈ p.files.all := by
    intro f
    simp only [work, disassembly, postprocessing, reassembly, conversion, Artifacts.all,
      List.flatMap_cons, List.flatMap_nil, List.nil_append, List.append_nil, List.cons_append,
      List.mem_cons, List.not_mem_nil, or_false]
    grind
  rw [p.leavesAll_eq p.work_pairwise, goneOf, hkeep, if_neg (by decide), ← without_append,
    without_foldl_addPending h fun f hf => (hall f).2 (hmakes f hf)]
  exact List.filter_congr fun f _ => by simp [hall f]

/-- A run that returns, after whatever was done with the pipeline before. It ran six programs and
removed the seven artifacts, each once and with success: the listing behind the postprocessor, four
behind the assembler, the flash image behind the converter, the rebuilt image once both checksums
were had. Of the pending files those are left that are no artifacts, and the verdict names none as
kept. If no program puts something where an artifact was that went before it ran, no artifact is
there in the end. -/
theorem run_clean (session : List (Machine × Operation)) {m : Machine} {v : Verdict}
    (h : p.run ⟨m, p.pendingAfter session⟩ = .ok v w') :
    ∃ events changes r₁ r₂ r₃ r₄ r₅ r₆,
      m.Comes events changes w'.machine ∧
      List.Forall₂ p.Completed p.work [r₁, r₂, r₃, r₄] ∧ p.Measured v.image v.rebuilt r₅ r₆ ∧
      steps events = [.ran r₁, .ran r₂, gone p.files.listing, .ran r₃, gone p.files.source,
        gone p.files.object, gone p.files.debugInfo, gone p.files.eeprom, .ran r₄,
        gone p.files.flash, .ran r₅, .ran r₆, gone p.files.rebuilt] ∧
      w'.own = (p.pendingAfter session).filter (· ∉ p.files.all) ∧ v.kept = [] ∧
      ((∀ t ∈ p.removedAfter, ∀ c ∈ changes.drop t.1,
          ¬ c.Brings (FileTree.placeOf m.cwd t.2.toString)) →
        ∀ f ∈ p.files.all, Cleared w'.machine f ∧ w'.machine.holds f = false) := by
  have hstages := p.stages_of_run h
  rw [stages_eq] at hstages
  obtain ⟨u, w₄, hperform, hverify⟩ := bind_eq_ok.1 hstages
  obtain ⟨w₁, hperform₁, hperform⟩ := p.performAll_cons hperform
  obtain ⟨w₂, hperform₂, hperform⟩ := p.performAll_cons hperform
  obtain ⟨w₃, hperform₃, hperform⟩ := p.performAll_cons hperform
  obtain ⟨w₅, hperform₄, hperform⟩ := p.performAll_cons hperform
  obtain ⟨-, rfl⟩ := EStateM.Result.ok.inj hperform
  obtain ⟨r₁, c₁, es₁, hrun₁, hcomes₁, hacts₁, -, hown₁, -⟩ := perform_clean hkeep hperform₁
  obtain ⟨r₂, c₂, es₂, hrun₂, hcomes₂, hacts₂, -, hown₂, hclear₂⟩ := perform_clean hkeep hperform₂
  obtain ⟨r₃, c₃, es₃, hrun₃, hcomes₃, hacts₃, hopen₃, hown₃, hclear₃⟩ :=
    perform_clean hkeep hperform₃
  obtain ⟨r₄, c₄, es₄, hrun₄, hcomes₄, hacts₄, hopen₄, hown₄, hclear₄⟩ :=
    perform_clean hkeep hperform₄
  obtain ⟨r₅, r₆, c₅, c₆, es₅, hmeas, hcomes₅, hsteps₅, hopen₅, hown₅, hkept, hclear₅⟩ :=
    verify_clean hkeep hverify
  have hunopened₄ : ∀ path, .opened path ∉ es₄ ++ es₅ := by
    intro path hp
    rcases List.mem_append.1 hp with hp | hp
    · obtain ⟨f, hf, -⟩ := hopen₄ path hp
      cases hf
    · exact hopen₅ path hp
  have hunopened₃ : ∀ path, .opened path ∉ es₃ ++ (es₄ ++ es₅) := by
    intro path hp
    rcases List.mem_append.1 hp with hp | hp
    · obtain ⟨f, hf, -⟩ := hopen₃ path hp
      cases hf
    · exact hunopened₄ path hp
  have hfrom₄ := hcomes₄.trans hcomes₅
  have hfrom₃ := hcomes₃.trans hfrom₄
  refine ⟨es₁ ++ (es₂ ++ (es₃ ++ (es₄ ++ es₅))), [c₁, c₂, c₃, c₄, c₅, c₆], r₁, r₂, r₃, r₄, r₅, r₆,
    hcomes₁.trans (hcomes₂.trans hfrom₃), ?_, hmeas, ?_, ?_, hkept, ?_⟩
  · exact .cons hrun₁ (.cons hrun₂ (.cons hrun₃ (.cons hrun₄ .nil)))
  · simp only [steps_append, steps_of_acts hacts₁, steps_of_acts hacts₂, steps_of_acts hacts₃,
      steps_of_acts hacts₄, hsteps₅]
    rfl
  · rw [hown₅, hown₄, hown₃, hown₂, hown₁]
    exact own_of_clean hkeep (p.pendingAfter_nodup session)
  · intro hback
    have hcwd₂ := hcomes₂.cwd.trans hcomes₁.cwd
    have hcwd₃ := hcomes₃.cwd.trans hcwd₂
    have hcwd₄ := hcomes₄.cwd.trans hcwd₃
    have hlisting : Cleared w'.machine p.files.listing := by
      refine (hclear₂ _ List.mem_cons_self).of_comes hfrom₃ hunopened₃ ?_
      rw [hcwd₂]
      exact hback (2, p.files.listing) (by simp [removedAfter])
    have hflash : Cleared w'.machine p.files.flash := by
      refine (hclear₄ _ List.mem_cons_self).of_comes hcomes₅ hopen₅ ?_
      rw [hcwd₄]
      exact hback (4, p.files.flash) (by simp [removedAfter])
    have hassembled : ∀ f ∈ p.reassembly.uses, Cleared w'.machine f := by
      intro f hf
      refine (hclear₃ f hf).of_comes hfrom₄ hunopened₄ ?_
      rw [hcwd₃]
      have hmem : (3, f) ∈ p.removedAfter := by
        simp only [reassembly, List.mem_cons, List.not_mem_nil, or_false] at hf
        rcases hf with rfl | rfl | rfl | rfl <;> simp [removedAfter]
      exact hback (3, f) hmem
    have hall : ∀ f ∈ p.files.all, Cleared w'.machine f := by
      simp only [reassembly, List.forall_mem_cons] at hassembled
      obtain ⟨hsource, hobject, hdebugInfo, heeprom, -⟩ := hassembled
      simp only [Artifacts.all, List.forall_mem_cons]
      exact ⟨hlisting, hsource, hflash, heeprom, hobject, hdebugInfo, hclear₅, nofun⟩
    exact fun f hf => ⟨hall f hf, (hall f hf).holds_eq⟩

end Stages

/-! ## In the workshop -/

/-- The endings of the files beside `fw.bin` that a tool of the workshop writes. -/
def workshopOutputs (name : String) : List String :=
  if name = "avra" then [".hex", ".eep.hex", ".obj", ".cof"]
  else if name = "avr-objcopy" then [".reassembled"]
  else []

theorem workshop_fills {name : String} {turn : Nat} {call : Invocation} {t t' : FileTree}
    {out err : String} {ending : Ending}
    (h : workshop.programs name turn call t = .ran t' out err ending) :
    ∃ text, t' = t.fill ["work"] "fw.bin" text (workshopOutputs name) := by
  simp only [workshop] at h
  split_ifs at h with hobjdump hpostproc havra hobjcopy
  all_goals obtain ⟨rfl, -⟩ := Start.ran.inj h
  · exact ⟨_, by rw [workshopOutputs, hobjdump, if_neg (by decide), if_neg (by decide)]⟩
  · exact ⟨_, by rw [workshopOutputs, hpostproc, if_neg (by decide), if_neg (by decide)]⟩
  · exact ⟨_, by rw [workshopOutputs, if_pos havra]⟩
  · exact ⟨_, by rw [workshopOutputs, if_neg havra, if_pos hobjcopy]⟩
  · exact ⟨_, by rw [workshopOutputs, if_neg havra, if_neg hobjcopy]⟩
  · exact ⟨_, by rw [workshopOutputs, if_neg havra, if_neg hobjcopy]⟩

/-- The tools of a run, in order. -/
def toolOrder : List String :=
  ["avr-objdump", "avr-postproc", "avra", "avr-objcopy", "sha1sum", "sha1sum"]

/-- A run of the program with this name made the change. -/
def MadeBy (name : String) (c : Change) : Prop :=
  ∃ (r : Run) (arguments : List String), r.command = name :: arguments ∧
    r.Made workshop.cwd workshop.programs c

theorem MadeBy.ending_of_brings {name : String} {c : Change} (h : MadeBy name c)
    (hbase : baseName name = name) {l : Location} (hbrings : c.Brings l) :
    ∃ e ∈ workshopOutputs name, l = ["fw.bin" ++ e, "work"] := by
  by_contra hnot
  have hne : ∀ e ∈ workshopOutputs name, l ≠ ["fw.bin" ++ e, "work"] :=
    fun e he h => hnot ⟨e, he, h⟩
  obtain ⟨r, arguments, hcommand, program, arguments', turn, hcommand', hran⟩ := h
  obtain ⟨rfl, rfl⟩ := List.cons.inj (hcommand.symm.trans hcommand')
  rw [hbase] at hran
  obtain ⟨text, hafter⟩ := workshop_fills hran
  obtain ⟨hbefore, hthere⟩ := hbrings
  rw [hafter, FileTree.find?_fill_of_ne _ _ hne] at hthere
  exact hthere hbefore

theorem exists_madeBy {names : List String} {changes : List Change}
    (h : List.Forall₂ MadeBy names changes) {c : Change} (hc : c ∈ changes) :
    ∃ name ∈ names, MadeBy name c := by
  induction h with
  | nil => cases hc
  | @cons name c' names changes hhead _ ih =>
    rcases List.mem_cons.1 hc with rfl | hc
    · exact ⟨name, List.mem_cons_self, hhead⟩
    · obtain ⟨name', hmem, hmade⟩ := ih hc
      exact ⟨name', List.mem_cons_of_mem _ hmem, hmade⟩

theorem madeBy_of_passed {v : Verdict} {r₁ r₂ r₃ r₄ r₅ r₆ : Run} {changes : List Change}
    (hwork : List.Forall₂ plainAudit.Completed plainAudit.work [r₁, r₂, r₃, r₄])
    (hmeas : plainAudit.Measured v.image v.rebuilt r₅ r₆)
    (hmade : List.Forall₂ (Run.Made workshop.cwd workshop.programs) [r₁, r₂, r₃, r₄, r₅, r₆]
      changes) : List.Forall₂ MadeBy toolOrder changes := by
  have hstage : ∀ {s : Stage} {run : Run} (tool : Tool),
      plainAudit.toolchain.tool? s.role = some tool → plainAudit.Completed s run →
      run.command = tool.program :: s.arguments := by
    rintro s run tool ht ⟨tool', ht', hcommand, -⟩
    rw [ht] at ht'
    cases ht'
    exact hcommand
  have hsum : ∀ {c : Checksum} {run : Run}, plainAudit.toolchain.Answered c run →
      run.command = ["sha1sum", c.path.toString] := by
    rintro c run ⟨tool, ht, ⟨hcommand, -⟩, -⟩
    obtain rfl : Tool.checksum = tool := Option.some.inj ht
    exact hcommand
  simp only [work, List.forall₂_cons, List.Forall₂.nil, and_true] at hwork
  obtain ⟨hrun₁, hrun₂, hrun₃, hrun₄⟩ := hwork
  obtain ⟨-, -, hrun₅, hrun₆⟩ := hmeas
  obtain _ | ⟨h₁, _ | ⟨h₂, _ | ⟨h₃, _ | ⟨h₄, _ | ⟨h₅, _ | ⟨h₆, _ | _⟩⟩⟩⟩⟩⟩ := hmade
  exact .cons ⟨r₁, _, hstage Tool.disassembler rfl hrun₁, h₁⟩ <|
    .cons ⟨r₂, _, hstage Tool.postprocessor rfl hrun₂, h₂⟩ <|
    .cons ⟨r₃, _, hstage Tool.assembler rfl hrun₃, h₃⟩ <|
    .cons ⟨r₄, _, hstage Tool.converter rfl hrun₄, h₄⟩ <|
    .cons ⟨r₅, _, hsum hrun₅, h₅⟩ <| .cons ⟨r₆, _, hsum hrun₆, h₆⟩ .nil

/-- What was done before a run in the workshop: a run that left the listing and the source, and a
file that the caller handed in. -/
def earlierWork : List (Machine × Operation) :=
  [(stuckListing 0, .run), (stuckListing 0, .produced [.ofString "notes.txt"])]

theorem run_clean_workshop :
    plainAudit.plan.keepTemps = false ∧
      plainAudit.pendingAfter earlierWork =
        [plainAudit.files.listing, plainAudit.files.source, .ofString "notes.txt"] ∧
      ∃ v w', plainAudit.run ⟨workshop, plainAudit.pendingAfter earlierWork⟩ = .ok v w' ∧
        w'.own = [.ofString "notes.txt"] ∧ v.kept = [] ∧
        ∀ f ∈ plainAudit.files.all, w'.machine.holds f = false := by
  have hpending : plainAudit.pendingAfter earlierWork =
      [plainAudit.files.listing, plainAudit.files.source, .ofString "notes.txt"] := by
    decide +kernel
  have hends : failure? (plainAudit.run ⟨workshop, plainAudit.pendingAfter earlierWork⟩) = none := by
    decide +kernel
  cases hrun : plainAudit.run ⟨workshop, plainAudit.pendingAfter earlierWork⟩ with
  | error s w' =>
    rw [hrun] at hends
    cases hends
  | ok v w' =>
    obtain ⟨events, changes, r₁, r₂, r₃, r₄, r₅, r₆, hcomes, hwork, hmeas, hsteps, hown, hkept,
      hclear⟩ := run_clean rfl earlierWork hrun
    have hmade := hcomes.runs
    rw [← runsOf_steps, hsteps] at hmade
    refine ⟨rfl, hpending, v, w', rfl, ?_, hkept, fun f hf => (hclear ?_ f hf).2⟩
    · rw [hown, hpending]
      decide +kernel
    · intro t ht c hc hbrings
      have hfree : ∀ t ∈ plainAudit.removedAfter, ∀ name ∈ toolOrder.drop t.1,
          ∀ e ∈ workshopOutputs name,
            FileTree.placeOf "/work" t.2.toString ≠ ["fw.bin" ++ e, "work"] := by decide +kernel
      have hbase : ∀ name ∈ toolOrder, baseName name = name := by decide +kernel
      obtain ⟨name, hname, hmadeBy⟩ :=
        exists_madeBy (List.forall₂_drop t.1 (madeBy_of_passed hwork hmeas hmade)) hc
      obtain ⟨e, he, hplace⟩ :=
        hmadeBy.ending_of_brings (hbase name (List.mem_of_mem_drop hname)) hbrings
      exact hfree t ht name hname e he hplace

end Pipeline

end FirmwareAudit
