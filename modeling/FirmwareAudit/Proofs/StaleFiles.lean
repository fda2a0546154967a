import FirmwareAudit.Proofs.TwinStages
import FirmwareAudit.Proofs.Verdict

/-! # Files from before a run

Where nothing stands in the way and the tools serve, a run comes to a verdict, and files that an
earlier run left at the places of the artifacts are of no account: each is emptied or made anew
before it is read, and there whenever it is removed.
-/
namespace FirmwareAudit
open Text

namespace Pipeline

variable (p : Pipeline)

/-- The artifacts that a run leaves once it came to a verdict. -/
def leftFiles : List Path := if p.plan.keepTemps then p.files.all else []

def imageSum (y : Yield) : Checksum := ⟨p.plan.image, y.image⟩

def rebuiltSum (y : Yield) : Checksum := ⟨p.files.rebuilt, y.rebuilt⟩

/-- What two digests lead to: the run passes if they agree, and stops with a mismatch if not. -/
def ruling {σ : Type} (y : Yield) (x : σ) : EStateM.Result Stop σ Verdict :=
  if y.image = y.rebuilt then .ok ⟨p.imageSum y, p.rebuiltSum y, p.leftFiles⟩ x
  else .error (.fault (.mismatch (p.imageSum y) (p.rebuiltSum y))) x

/-- The lines of a report that comes to a ruling. -/
def rulingLines (y : Yield) : List String :=
  lines (p.imageSum y) (p.rebuiltSum y) ++ if y.image = y.rebuilt then ["Ok\n"] else []

/-- All that comes before the checksums are compared. -/
def measure : PipelineM (Checksum × Checksum) := do
  p.performAll p.work
  let sums ← onMachine p.compare
  p.removeTemps [p.files.rebuilt]
  return sums

theorem stages_eq_measure :
    p.stages = (do let sums ← p.measure; onMachine (p.judge sums.1 sums.2)) := by
  simp only [stages_eq, verify, measure, bind_assoc, pure_bind]

theorem ruling_inj {σ : Type} {y : Yield} {x x' : σ} (h : p.ruling y x = p.ruling y x') : x = x' := by
  unfold ruling at h
  by_cases hd : y.image = y.rebuilt
  · rw [if_pos hd, if_pos hd] at h
    cases h
    rfl
  · rw [if_neg hd, if_neg hd] at h
    cases h
    rfl

theorem onMachine_ruling {act : MachineM Verdict} {w : Workplace (List Path)} {m' : Machine}
    {y : Yield} (h : act w.machine = p.ruling y m') :
    onMachine act w = p.ruling y ⟨m', w.own⟩ := by
  unfold ruling at h ⊢
  by_cases hd : y.image = y.rebuilt
  · rw [if_pos hd] at h ⊢
    exact onMachine_eq_ok.2 ⟨m', h, rfl⟩
  · rw [if_neg hd] at h ⊢
    exact onMachine_eq_error.2 ⟨m', h, rfl⟩

theorem run_of_ruling {w w' : Workplace (List Path)} {y : Yield} (h : p.stages w = p.ruling y w') :
    p.run w = p.ruling y w' := by
  unfold ruling at h ⊢
  by_cases hd : y.image = y.rebuilt
  · rw [if_pos hd] at h ⊢
    exact p.run_of_ok h
  · rw [if_neg hd] at h ⊢
    exact p.run_of_error h (not_aborts_mismatch _ _)

end Pipeline

namespace Site

variable {p : Pipeline} {m : Machine} {s : Site p m} {σ : String → Standing} {ran : List Tool}

theorem twins_kept
    (hs : p.plan.keepTemps = true → ∀ e ∈ Artifacts.endings, (σ e).isThere = true) :
    Together (s.Twins σ ran) (s.Twins σ ran) p.kept (· = p.leftFiles) := by
  unfold Pipeline.kept Pipeline.leftFiles
  cases hk : p.plan.keepTemps with
  | false => exact Together.pure rfl
  | true =>
    have hall : p.files.all = Artifacts.endings.map p.plan.image.withEnding :=
      Artifacts.all_ofImage p.plan.image
    simp only [if_true, hall]
    exact twins_existing (fun e he => he) (hs hk)

theorem twins_judge
    (hs : p.plan.keepTemps = true → ∀ e ∈ Artifacts.endings, (σ e).isThere = true) (y : Yield)
    {m₁ m₂ : Machine} (h : s.Twins σ ran m₁ m₂) :
    ∃ m₁' m₂', p.judge (p.imageSum y) (p.rebuiltSum y) m₁ = p.ruling y m₁' ∧
      p.judge (p.imageSum y) (p.rebuiltSum y) m₂ = p.ruling y m₂' ∧ s.Twins σ ran m₁' m₂' := by
  obtain ⟨_, n₁, n₂, rfl, hk₁, hk₂, hkept⟩ := twins_kept hs m₁ m₂ h
  unfold Pipeline.judge Pipeline.ruling
  rw [bind_of_ok hk₁, bind_of_ok hk₂]
  by_cases hd : y.image = y.rebuilt
  · have hok : (⟨p.imageSum y, p.rebuiltSum y, p.leftFiles⟩ : Verdict).ok = true := decide_eq_true hd
    obtain ⟨_, m₁', m₂', -, hp₁, hp₂, htwins⟩ := twins_printLine p.stream "Ok" n₁ n₂ hkept
    refine ⟨m₁', m₂', ?_, ?_, htwins⟩
    · simp only [hok, hd, if_true]
      exact bind_of_ok hp₁
    · simp only [hok, hd, if_true]
      exact bind_of_ok hp₂
  · have hok : (⟨p.imageSum y, p.rebuiltSum y, p.leftFiles⟩ : Verdict).ok = false :=
      decide_eq_false hd
    refine ⟨n₁, n₂, ?_, ?_, hkept⟩
    · simp [hok, hd]
    · simp [hok, hd]

theorem twins_measure {y : Yield} (tools : s.Tools y) :
    Together (s.TwinWorkAfter y.text 0 0) (s.TwinWorkAfter y.text 5 6) p.measure
      (· = (p.imageSum y, p.rebuiltSum y)) := by
  have hs : ∀ keep, [".reassembled"].all fun e => (standing keep y.text 4 e).isThere := by
    intro keep
    cases keep <;> rfl
  have hlast : standing p.plan.keepTemps y.text 5 =
      afterUse p.plan.keepTemps (standing p.plan.keepTemps y.text 4) [".reassembled"] := by
    conv_rhs => rw [← mark_nil (standing p.plan.keepTemps y.text 4) fun e => .settled (y.text e)]
    rfl
  have hremoved : Together (s.TwinWorkAfter y.text 4 6) (s.TwinWorkAfter y.text 5 6)
      (p.removeTemps [p.files.rebuilt]) fun _ => True := by
    unfold TwinWorkAfter TwinsAfter
    rw [hlast]
    exact twins_removeTemps (by decide) (by decide) (List.all_eq_true.1 (hs p.plan.keepTemps))
  refine (twins_work tools).bind fun _ _ => (twins_onMachine (twins_compare tools)).bind ?_
  rintro _ rfl
  exact hremoved.bind fun _ _ => Together.pure rfl

theorem twins_start (s : Site p m) (text : String → String) {t : FileTree}
    (hoff : ∀ l, ¬ s.IsSlot l → t.find? l = m.tree.find? l)
    (hfree : ∀ e ∈ Artifacts.endings, t.FreeAt (s.slot e)) :
    s.TwinWorkAfter text 0 0 ⟨m, []⟩ ⟨m.onTree t, []⟩ := by
  refine ⟨⟨t, rfl, rfl, rfl, rfl, fun _ => rfl, rfl, hoff, ?_, ?_⟩, rfl⟩
  · exact fun l _ => Or.inl rfl
  · exact fun e he => ⟨s.free e he, hfree e he⟩

end Site

namespace Pipeline

variable {p : Pipeline} {m : Machine} {y : Yield}

theorem told_of_ruling {w w' : Workplace (List Path)} (h : p.run w = p.ruling y w') :
    ∃ tail, p.Told w (p.imageSum y) (p.rebuiltSum y) tail w'.machine ∧
      lines (p.imageSum y) (p.rebuiltSum y) ++ reported p.stream tail = p.rulingLines y := by
  have hend := p.run_ends w
  obtain ⟨-, -, hgone, -⟩ := p.reads_removedActs p.stream [p.files.rebuilt]
  rw [h] at hend
  unfold ruling at hend
  unfold rulingLines
  by_cases hd : y.image = y.rebuilt
  · rw [if_pos hd] at hend ⊢
    cases hend with
    | agrees image rebuilt here w' hsame htold =>
      refine ⟨_, htold, ?_⟩
      rw [reported_append, hgone]
      simp [reported, Event.report?]
  · rw [if_neg hd] at hend ⊢
    cases hend with
    | silent stop es w' hstop hrep hadds => exact absurd rfl (hstop _ _)
    | stuck image' rebuilt' stop reason w' hstop htold => exact absurd rfl (hstop _ _)
    | unseen image' rebuilt' stop w' hstop hscan htold => exact absurd rfl (hstop _ _)
    | differs image rebuilt w' hdiff hscan htold => exact ⟨_, htold, by rw [hgone]⟩

theorem run_twins (s : Site p m) (tools : s.Tools y) {t : FileTree}
    (hoff : ∀ l, ¬ s.IsSlot l → t.find? l = m.tree.find? l)
    (hfree : ∀ e ∈ Artifacts.endings, t.FreeAt (s.slot e)) :
    ∃ w t', p.run ⟨m, []⟩ = p.ruling y w ∧
      p.run ⟨m.onTree t, []⟩ = p.ruling y ⟨w.machine.onTree t', w.own⟩ ∧
      s.Kin (standing p.plan.keepTemps y.text 5) w.machine.tree t' := by
  have hall : p.plan.keepTemps = true → ∀ e ∈ Artifacts.endings,
      (standing p.plan.keepTemps y.text 5 e).isThere = true := by
    intro hk
    rw [hk]
    exact List.all_eq_true.1 rfl
  obtain ⟨_, w₁, w₂, rfl, h₁, h₂, htwins, hown⟩ :=
    Site.twins_measure tools _ _ (s.twins_start y.text hoff hfree)
  obtain ⟨m₁, m₂, hj₁, hj₂, t', rfl, hon⟩ := Site.twins_judge hall y htwins
  refine ⟨⟨m₁, w₁.own⟩, t', ?_, ?_, hon.kin⟩
  · refine p.run_of_ruling ?_
    rw [stages_eq_measure, bind_of_ok h₁]
    exact p.onMachine_ruling hj₁
  · refine p.run_of_ruling ?_
    rw [stages_eq_measure, bind_of_ok h₂, hown]
    exact p.onMachine_ruling hj₂

theorem standing_last (keep : Bool) (text : String → String) {e : String}
    (he : e ∈ Artifacts.endings) :
    standing keep text 5 e = if keep then .settled (text e) else .empty := by
  have hall : Artifacts.endings.map (standing keep text 5) =
      Artifacts.endings.map fun e => if keep then .settled (text e) else .empty := by
    cases keep <;> rfl
  exact List.map_inj_left.1 hall e he

/-- Where nothing stands in the way and every tool serves, a run comes to a verdict: it passes if the
digests of the image and of the rebuilt one agree, and stops with a mismatch if not. With other files
at the places of the artifacts before it, the run has the same outcome, shows and starts the same
things, and leaves the same files. -/
theorem run_despite_stale_files (s : Site p m) (tools : s.Tools y) :
    ∃ w events, p.run ⟨m, []⟩ = p.ruling y w ∧ w.machine.trace = m.trace ++ events ∧
      p.Established events (p.imageSum y) (p.rebuiltSum y) ∧
      reported p.stream events = p.rulingLines y ∧
      ∀ t : FileTree, (∀ l, ¬ s.IsSlot l → t.find? l = m.tree.find? l) →
        (∀ e ∈ Artifacts.endings, t.FreeAt (s.slot e)) →
        ∃ t', p.run ⟨m.onTree t, []⟩ = p.ruling y ⟨w.machine.onTree t', w.own⟩ ∧
          s.Kin (fun e => if p.plan.keepTemps then .settled (y.text e) else .empty)
            w.machine.tree t' := by
  obtain ⟨w, -, hrun, -, -⟩ := run_twins s tools (fun _ _ => rfl) s.free
  obtain ⟨tail, htold, htail⟩ := told_of_ruling hrun
  obtain ⟨events, htrace, hest, hrep, -⟩ := htold.shows
  refine ⟨w, events, hrun, htrace, hest, hrep.trans htail, ?_⟩
  intro t hoff hfree
  -- The first run of this pair is the one above, so that its outcome is known.
  obtain ⟨w', t', hrun', hrun₂, hkin⟩ := run_twins s tools hoff hfree
  obtain rfl : w' = w := p.ruling_inj (hrun'.symm.trans hrun)
  refine ⟨t', hrun₂, hkin.alike, hkin.kept, ?_⟩
  intro e he
  have hholds := hkin.holds e he
  rwa [standing_last p.plan.keepTemps y.text he] at hholds

/-! ## A site with stale files -/

/-- The audit of `fw.bin` that keeps all artifacts. -/
def savingAudit : Pipeline :=
  ⟨{ Plan.ofImage (.ofString "fw.bin") with keepTemps := true }, .standard, false⟩

/-- The text of a file beside `fw.bin`, its name given by an ending. -/
def workshopText (e : String) (t : FileTree) : String :=
  match t.find? ["fw.bin" ++ e, "work"] with
  | some (.file f) => f.text
  | _ => ""

/-- The digests of the text `FIRMWARE` and of an empty one. -/
def workshopDigest (text : String) : String :=
  if text = "FIRMWARE" then "fefcae54939d31292835d0d32c73a50f0e9f8838"
  else "da39a3ee5e6b4b0d3255bfef95601890afd80709"

/-- A machine with the image `fw.bin` and tools that hand its text on from one artifact to the
next. -/
def workshop : Machine where
  cwd := "/work"
  searchPath := some "/bin"
  tree :=
    { entries := [([], .directory .plain), (["work"], .directory .plain),
        (["bin"], .directory .plain), (["fw.bin", "work"], .file (.plain "FIRMWARE"))] ++
        Tool.required.map fun tool =>
          ([tool.program, "bin"], .file { FileNode.plain "" with executable := .allowed })
      clock := 9 }
  programs name _ call t :=
    let fill := fun e => t.fill ["work"] "fw.bin" (workshopText e t)
    if name = "avr-objdump" then .ran (fill "" []) (workshopText "" t) "" (.exited 0)
    else if name = "avr-postproc" then .ran (fill "" []) (workshopText ".raw.asm" t) "" (.exited 0)
    else if name = "avra" then
      .ran (fill ".asm" [".hex", ".eep.hex", ".obj", ".cof"]) "" "" (.exited 0)
    else if name = "avr-objcopy" then .ran (fill ".hex" [".reassembled"]) "" "" (.exited 0)
    else
      let e := if call.arguments = ["fw.bin"] then "" else ".reassembled"
      .ran (fill "" []) (workshopDigest (workshopText e t) ++ "  fw.bin" ++ e ++ "\n") ""
        (.exited 0)
  turns _ := 0
  journal := .silent [toolLogger, pipelineLogger]
  trace := []

def workshopSite : Site savingAudit workshop where
  dir := ["work"]
  node := .plain
  resolves := by rfl
  searchable := rfl
  writable := rfl
  fits := by decide
  free := by
    have hnone : ∀ e ∈ Artifacts.endings, workshop.tree.find?
        ((savingAudit.plan.image.stem ++ e) :: ["work"]) = none := by decide +kernel
    exact fun e he => Or.inl (hnone e he)
  unlogged := nofun
  nulFree := by
    unfold Plan.NulFree
    decide
  tools := by decide
  found := by
    intro tool ht
    simp only [Tool.required, List.mem_cons, List.not_mem_nil, or_false] at ht
    rcases ht with rfl | rfl | rfl | rfl | rfl <;> exact ⟨_, rfl⟩

def workshopYield : Yield where
  text _ := "FIRMWARE"
  image := workshopDigest "FIRMWARE"
  rebuilt := workshopDigest "FIRMWARE"

theorem workshopText_slot {σ : String → Standing} {t : FileTree} (k : workshopSite.Kin σ t t)
    {e : String} (he : e ∈ Artifacts.endings) (hs : σ e = .settled "FIRMWARE") :
    workshopText e t = "FIRMWARE" := by
  have h := k.holds e he
  rw [hs] at h
  obtain ⟨⟨f, hf, -, htext⟩, -⟩ := h
  have hplace : t.find? ["fw.bin" ++ e, "work"] = some (.file f) := hf
  rw [workshopText, hplace]
  exact htext

theorem workshopText_image {σ : String → Standing} {t : FileTree} (k : workshopSite.Kin σ t t) :
    workshopText "" t = "FIRMWARE" := by
  have hother : ∀ e ∈ Artifacts.endings, (["fw.bin" ++ "", "work"] : Location) ≠
      ["fw.bin" ++ e, "work"] := by decide
  have hslot : ¬ workshopSite.IsSlot ["fw.bin" ++ "", "work"] := by
    rintro ⟨e, he, h⟩
    exact hother e he h
  have himage : workshop.tree.find? ["fw.bin" ++ "", "work"] = some (.file (.plain "FIRMWARE")) := by
    decide +kernel
  rcases k.kept _ hslot with h | ⟨⟨f, hf, -⟩, -⟩
  · rw [workshopText, h, himage]
    rfl
  · cases hf

theorem workshop_tools : workshopSite.Tools workshopYield where
  disassembler := by
    refine Site.serves_of_fill "FIRMWARE" (fun _ _ => rfl) fun t k => ?_
    have hstart : workshopSite.started Tool.disassembler 0 savingAudit.plan.disassemblerArguments t =
        .ran (t.fill ["work"] "fw.bin" (workshopText "" t) []) (workshopText "" t) ""
          (.exited 0) := rfl
    rw [hstart, workshopText_image k]
    rfl
  postprocessor := by
    refine Site.serves_of_fill "FIRMWARE" (fun _ _ => rfl) fun t k => ?_
    have hstart : workshopSite.started Tool.postprocessor 0 savingAudit.plan.postprocessorArguments t =
        .ran (t.fill ["work"] "fw.bin" (workshopText "" t) []) (workshopText ".raw.asm" t) ""
          (.exited 0) := rfl
    rw [hstart, workshopText_slot k (e := ".raw.asm") (by decide) rfl]
    rfl
  assembler := by
    refine ⟨"", Site.serves_of_fill "FIRMWARE" (fun _ _ => rfl) fun t k => ?_⟩
    have hstart : workshopSite.started Tool.assembler 0 savingAudit.plan.assemblerArguments t =
        .ran (t.fill ["work"] "fw.bin" (workshopText ".asm" t) [".hex", ".eep.hex", ".obj", ".cof"])
          "" "" (.exited 0) := rfl
    rw [hstart, workshopText_slot k (by decide) rfl]
    rfl
  converter := by
    refine ⟨"", Site.serves_of_fill "FIRMWARE" (fun _ _ => rfl) fun t k => ?_⟩
    have hstart : workshopSite.started Tool.converter 0 savingAudit.plan.converterArguments t =
        .ran (t.fill ["work"] "fw.bin" (workshopText ".hex" t) [".reassembled"]) "" ""
          (.exited 0) := rfl
    rw [hstart, workshopText_slot k (by decide) rfl]
    rfl
  image := by
    refine ⟨workshopDigest "FIRMWARE" ++ "  fw.bin\n",
      Site.serves_of_fill "FIRMWARE" (fun _ _ => rfl) fun t k => ?_, by decide +kernel⟩
    have hstart : workshopSite.started Tool.checksum 0 [savingAudit.plan.image.toString] t =
        .ran (t.fill ["work"] "fw.bin" (workshopText "" t) [])
          (workshopDigest (workshopText "" t) ++ "  fw.bin" ++ "" ++ "\n") "" (.exited 0) := rfl
    rw [hstart, workshopText_image k]
    rfl
  rebuilt := by
    refine ⟨workshopDigest "FIRMWARE" ++ "  fw.bin.reassembled\n",
      Site.serves_of_fill "FIRMWARE" (fun _ _ => rfl) fun t k => ?_, by decide +kernel⟩
    have hstart : workshopSite.started Tool.checksum 1 [savingAudit.files.rebuilt.toString] t =
        .ran (t.fill ["work"] "fw.bin" (workshopText "" t) [])
          (workshopDigest (workshopText ".reassembled" t) ++ "  fw.bin" ++ ".reassembled" ++ "\n") ""
          (.exited 0) := rfl
    rw [hstart, workshopText_slot k (e := ".reassembled") (by decide) rfl]
    rfl

/-- The files of the workshop with what an earlier run left. -/
def litteredTree : FileTree :=
  (workshop.tree.set ["fw.bin.raw.asm", "work"] (.file (.plain "stale listing"))).set
    ["fw.bin.reassembled", "work"] (.file (.plain "stale image"))

theorem run_despite_stale_files_workshop :
    ∃ v w t', savingAudit.run ⟨workshop, []⟩ = .ok v w ∧
      savingAudit.run ⟨workshop.onTree litteredTree, []⟩ = .ok v ⟨w.machine.onTree t', w.own⟩ := by
  obtain ⟨w, -, hrun, -, -, -, hstale⟩ := run_despite_stale_files workshopSite workshop_tools
  have hoff : ∀ l, ¬ workshopSite.IsSlot l → litteredTree.find? l = workshop.tree.find? l := by
    intro l hl
    have hne : ∀ e ∈ Artifacts.endings, l ≠ ["fw.bin" ++ e, "work"] := fun e he h => hl ⟨e, he, h⟩
    exact (FileTree.find?_set_of_ne _ _ (hne ".reassembled" (by decide))).trans
      (FileTree.find?_set_of_ne _ _ (hne ".raw.asm" (by decide)))
  have hfree : ∀ e ∈ Artifacts.endings, litteredTree.FreeAt (workshopSite.slot e) := by
    have hplaces : ∀ e ∈ Artifacts.endings, litteredTree.find? ["fw.bin" ++ e, "work"] = none ∨
        litteredTree.find? ["fw.bin" ++ e, "work"] = some (.file (.plain "stale listing")) ∨
        litteredTree.find? ["fw.bin" ++ e, "work"] = some (.file (.plain "stale image")) := by
      decide +kernel
    intro e he
    rcases hplaces e he with h | h | h
    · exact Or.inl h
    · exact Or.inr ⟨_, _, h, ⟨rfl, rfl, rfl⟩, rfl⟩
    · exact Or.inr ⟨_, _, h, ⟨rfl, rfl, rfl⟩, rfl⟩
  obtain ⟨t', ht, -⟩ := hstale litteredTree hoff hfree
  exact ⟨_, w, t', hrun, ht⟩

end Pipeline

end FirmwareAudit
