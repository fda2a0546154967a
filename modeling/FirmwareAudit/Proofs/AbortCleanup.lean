import FirmwareAudit.Proofs.ArtifactNames
import FirmwareAudit.Proofs.Outcome

/-! # What is cleaned up after an abort

A fresh run that removes its temporary files has at most one file pending between two stages: what
the last stage made and the next one uses. That file, and no other, is removed after an abort.
-/
namespace FirmwareAudit
open Text

namespace Pipeline

variable (p : Pipeline)

/-! ## What is pending between two stages -/

theorem files_nodup : [p.files.listing, p.files.source, p.files.flash, p.files.eeprom,
    p.files.object, p.files.debugInfo, p.files.rebuilt].Nodup :=
  Artifacts.nodup_all p.plan.image

theorem work_split {before rest : List Stage} {s : Stage} (h : p.work = before ++ s :: rest) :
    (before = [] ∧ s = p.disassembly) ∨ (before = [p.disassembly] ∧ s = p.postprocessing) ∨
      (before = [p.disassembly, p.postprocessing] ∧ s = p.reassembly) ∨
      (before = [p.disassembly, p.postprocessing, p.reassembly] ∧ s = p.conversion) := by
  unfold work at h
  rcases before with _ | ⟨a, _ | ⟨b, _ | ⟨c, _ | ⟨d, before⟩⟩⟩⟩ <;>
    simp only [List.nil_append, List.cons_append, List.cons.injEq] at h
  · exact Or.inl ⟨rfl, h.1.symm⟩
  · exact Or.inr (Or.inl ⟨by rw [h.1], h.2.1.symm⟩)
  · exact Or.inr (Or.inr (Or.inl ⟨by rw [h.1, h.2.1], h.2.2.1.symm⟩))
  · exact Or.inr (Or.inr (Or.inr ⟨by rw [h.1, h.2.1, h.2.2.1], h.2.2.2.1.symm⟩))
  · have hl := congrArg List.length h.2.2.2.2
    simp at hl

/-- For each stage, what is pending when it starts and what it would make. -/
def pendingRows : List (String × List Path × List Path) :=
  [("disassemble", [], [p.files.listing]),
    ("postprocess", [p.files.listing], [p.files.source]),
    ("reassemble", [p.files.source],
      [p.files.flash, p.files.eeprom, p.files.object, p.files.debugInfo]),
    ("convert", [p.files.flash], [p.files.rebuilt])]

/-- A stop of a stage or of a checksum, with what is pending at that moment and what is written only
by the command that failed. -/
def AbortsWith (s : Stop) (pending written : List Path) : Prop :=
  (∃ cause, s = .fault (.stage cause) ∧ (cause.stage, pending, written) ∈ p.pendingRows) ∨
    ∃ path cause, s = .fault (.checksum path cause) ∧ pending = [p.files.rebuilt] ∧ written = []

theorem files_nulFree (h : has '\x00' p.files.listing.toString = false) {f : Path}
    (hf : f ∈ p.files.all) : has '\x00' f.toString = false := by
  have himage : has '\x00' p.plan.image.toString = false := by
    rw [show p.files.listing.toString = p.plan.image.toString ++ ".raw.asm" from
      p.plan.image.toString_withEnding (by decide), has_append, Bool.or_eq_false_iff] at h
    exact h.1
  obtain ⟨e, he, -, ht⟩ := Artifacts.toString_of_mem_all hf
  have hend : ∀ e ∈ Artifacts.endings, has '\x00' e = false := by decide
  rw [ht, has_append, himage, hend e he]
  rfl

section Fresh
variable {p} (hkeep : p.plan.keepTemps = false)
include hkeep

theorem leaves_of_removal (s : Stage) (pending : List Path) :
    p.leaves s pending = without (recorded s pending) s.uses := by
  rw [leaves, hkeep]
  rfl

theorem leaves_disassembly : p.leaves p.disassembly [] = [p.files.listing] := by
  rw [leaves_of_removal hkeep]
  rfl

theorem leaves_postprocessing : p.leaves p.postprocessing [p.files.listing] = [p.files.source] := by
  have hn := p.files_nodup
  simp only [List.nodup_cons, List.mem_cons, List.not_mem_nil, or_false, not_or] at hn
  rw [leaves_of_removal hkeep]
  simp [postprocessing, recorded, addPending, without, hn, Ne.symm]

theorem leaves_reassembly : p.leaves p.reassembly [p.files.source] = [p.files.flash] := by
  have hn := p.files_nodup
  simp only [List.nodup_cons, List.mem_cons, List.not_mem_nil, or_false, not_or] at hn
  rw [leaves_of_removal hkeep]
  simp [reassembly, recorded, addPending, without, hn, Ne.symm]

theorem leaves_conversion : p.leaves p.conversion [p.files.flash] = [p.files.rebuilt] := by
  have hn := p.files_nodup
  simp only [List.nodup_cons, List.mem_cons, List.not_mem_nil, or_false, not_or] at hn
  rw [leaves_of_removal hkeep]
  simp [conversion, recorded, addPending, without, hn, Ne.symm]

theorem leavesAll_work : p.leavesAll p.work [] = [p.files.rebuilt] := by
  simp only [leavesAll, work, List.foldl_cons, List.foldl_nil, leaves_disassembly hkeep,
    leaves_postprocessing hkeep, leaves_reassembly hkeep, leaves_conversion hkeep]

theorem pendingRows_of_split {before rest : List Stage} {s : Stage}
    (h : p.work = before ++ s :: rest) :
    (s.name, p.leavesAll before [], s.makes) ∈ p.pendingRows := by
  have h₁ := leaves_disassembly hkeep
  have h₂ := leaves_postprocessing hkeep
  have h₃ := leaves_reassembly hkeep
  rcases p.work_split h with ⟨rfl, rfl⟩ | ⟨rfl, rfl⟩ | ⟨rfl, rfl⟩ | ⟨rfl, rfl⟩ <;>
    simp only [leavesAll, List.foldl_cons, List.foldl_nil, h₁, h₂, h₃] <;>
    simp [pendingRows, disassembly, postprocessing, reassembly, conversion]

/-- What a stage would make is neither used up nor pending before it. -/
theorem makes_untouched {before rest : List Stage} {s : Stage} (h : p.work = before ++ s :: rest)
    {f : Path} (hf : f ∈ s.makes) : f ∉ before.flatMap (·.uses) ∧ f ∉ p.leavesAll before [] := by
  have hn := p.files_nodup
  simp only [List.nodup_cons, List.mem_cons, List.not_mem_nil, or_false, not_or] at hn
  have h₁ := leaves_disassembly hkeep
  have h₂ := leaves_postprocessing hkeep
  have h₃ := leaves_reassembly hkeep
  rcases p.work_split h with ⟨rfl, rfl⟩ | ⟨rfl, rfl⟩ | ⟨rfl, rfl⟩ | ⟨rfl, rfl⟩ <;>
    simp only [leavesAll, List.foldl_cons, List.foldl_nil, h₁, h₂, h₃] <;>
    simp only [disassembly, postprocessing, reassembly, conversion, List.mem_cons,
      List.not_mem_nil, or_false] at hf
  · subst hf
    simp
  · subst hf
    simp [disassembly, hn, Ne.symm]
  · rcases hf with rfl | rfl | rfl | rfl <;> simp [disassembly, postprocessing, hn, Ne.symm]
  · subst hf
    simp [disassembly, postprocessing, reassembly, hn, Ne.symm]

/-! ## The cleanup -/

theorem run_of_abort_clean {w w₀ : Workplace (List Path)} {s : Stop}
    (h : p.stages w = .error s w₀) (hs : s.Aborts)
    (hnul : ∀ f ∈ w₀.own, has '\x00' f.toString = false) :
    ∃ (tried : List (Path × Option SystemError)) (m' : Machine), tried.map Prod.fst = w₀.own ∧
      p.run w = .error s ⟨m', []⟩ ∧ w₀.machine.Adds (tried.flatMap discardActs) m' := by
  obtain ⟨tried, m', ht, hd, ha⟩ := discardEach_eq_ok hnul w₀.machine
  refine ⟨tried, m', ht, ?_, ha⟩
  have hp : p.discardPending w₀ = .ok () ⟨m', []⟩ := by
    rw [discardPending, hkeep, if_neg (by decide), bind_of_ok (get_apply w₀)]
    exact hd
  rw [p.run_of_abort h hs, bind_of_ok hp, throw_apply]

theorem mem_files_of_pending {before rest : List Stage} {s : Stage}
    (h : p.work = before ++ s :: rest) {f : Path} (hf : f ∈ p.leavesAll before []) :
    f ∈ p.files.all := by
  have hrows : ∀ row ∈ p.pendingRows, ∀ f ∈ row.2.1, f ∈ p.files.all := by
    simp [pendingRows, Artifacts.all]
  exact hrows _ (pendingRows_of_split hkeep h) f hf

theorem pending_nulFree {before rest : List Stage} {s : Stage} (h : p.work = before ++ s :: rest)
    (hnul : ∀ s ∈ before, ∀ path, s.output = .file path → has '\x00' path.toString = false) :
    ∀ f ∈ p.leavesAll before [], has '\x00' f.toString = false := by
  intro f hf
  -- Nothing is pending before the listing was opened, and its path has no NUL byte then.
  refine p.files_nulFree ?_ (mem_files_of_pending hkeep h hf)
  rcases p.work_split h with ⟨rfl, -⟩ | ⟨rfl, -⟩ | ⟨rfl, -⟩ | ⟨rfl, -⟩
  · cases hf
  all_goals exact hnul p.disassembly List.mem_cons_self _ rfl

theorem stages_abort {m : Machine} {s : Stop} {w₀ : Workplace (List Path)}
    (h : p.stages ⟨m, []⟩ = .error s w₀) (hs : s.Aborts) :
    ∃ worked written, w₀.machine.trace = m.trace ++ worked ∧ p.AbortsWith s w₀.own written ∧
      (∀ f ∈ w₀.own, has '\x00' f.toString = false) ∧
      ∀ f ∈ written, f ∉ w₀.own ∧ ∀ failure, (f.toString, failure) ∉ removals worked := by
  have hend := p.stages_ends ⟨m, []⟩
  rw [h] at hend
  cases hend with
  | broken before s' rest runs m' stop w' hsplit hruns hnul hadds hend =>
    cases hend with
    | stuck run gone path tail stop reason m' hrun hkeep' huses hblame hadds' =>
      exact absurd hs (not_aborts_of_blamesRemoval hblame)
    | missed stop es m' hblame hmiss hadds' =>
      obtain ⟨worked, ht, ha⟩ := hadds.trans hadds'
      obtain ⟨hrem, -⟩ := p.reads_doneActs .output hruns
      have hgone : removals worked = p.usedUp before := by
        rw [← removals_acts, ha, removals_append, hrem, (hmiss.quiet .output).removals_eq,
          List.append_nil]
      refine ⟨worked, s'.makes, ht, ?_, pending_nulFree hkeep hsplit hnul, ?_⟩
      · rcases hs with ⟨cause, rfl⟩ | ⟨path, cause, rfl⟩
        · obtain ⟨cause', hc, hname⟩ := hblame _ rfl
          cases hc
          refine Or.inl ⟨cause, rfl, ?_⟩
          rw [hname]
          exact pendingRows_of_split hkeep hsplit
        · obtain ⟨cause', hc, -⟩ := hblame _ rfl
          cases hc
      · intro f hf
        obtain ⟨hu, hl⟩ := makes_untouched hkeep hsplit hf
        refine ⟨hl, fun failure hm => hu ?_⟩
        rw [hgone, usedUp, hkeep, if_neg (by decide)] at hm
        obtain ⟨g, hg, he⟩ := List.mem_map.1 hm
        rw [← Path.toString_injective (congrArg Prod.fst he)]
        exact hg
  | verified runs m' r hruns hnul hadds hend =>
    cases hend with
    | missed stop es m' hblame hquiet hadds' =>
      obtain ⟨worked, ht, ha⟩ := hadds.trans hadds'
      refine ⟨worked, [], ht, ?_, ?_, nofun⟩
      · rcases hs with ⟨cause, rfl⟩ | ⟨path, cause, rfl⟩
        · rcases hblame with hb | hb <;> obtain ⟨c, hc⟩ := hb _ rfl <;> cases hc
        · exact Or.inr ⟨path, cause, rfl, leavesAll_work hkeep, rfl⟩
      · rw [leavesAll_work hkeep]
        intro f hf
        rw [List.mem_singleton.1 hf]
        refine p.files_nulFree (hnul p.disassembly List.mem_cons_self _ rfl) ?_
        simp [Artifacts.all]
    | stuck image rebuilt run₁ run₂ stop reason m' hmeas hkeep' hblame hadds' =>
      exact absurd hs (not_aborts_of_blamesRemoval hblame)
    | unseen image rebuilt run₁ run₂ stop m' hmeas hstop hscan hadds' =>
      exact absurd hs (not_aborts_of_isCallFault hstop)
    | differs image rebuilt run₁ run₂ m' hmeas hdiff hscan hadds' =>
      exact absurd hs (not_aborts_mismatch image rebuilt)

theorem run_of_stages_abort {m : Machine} {s : Stop} {w₀ : Workplace (List Path)}
    (h : p.stages ⟨m, []⟩ = .error s w₀) (hs : s.Aborts) :
    ∃ w', p.run ⟨m, []⟩ = .error s w' := by
  obtain ⟨-, -, -, -, hnul, -⟩ := stages_abort hkeep h hs
  obtain ⟨-, m', -, hr, -⟩ := run_of_abort_clean hkeep h hs hnul
  exact ⟨_, hr⟩

/-- A fresh run that stops with a fault of a stage or of a checksum stops with the one its stages
stopped with, whatever becomes of the cleanup. Nothing is pending then. The cleanup tries once each
file that was pending, warns once of each that stays, and of the files that only the failing command
writes none is removed at any time. -/
theorem run_abort_cleanup (m : Machine) {s : Stop} (hs : s.Aborts) :
    ((∃ w', p.run ⟨m, []⟩ = .error s w') ↔ ∃ w₀, p.stages ⟨m, []⟩ = .error s w₀) ∧
      ∀ w', p.run ⟨m, []⟩ = .error s w' → w'.own = [] ∧
        ∃ (worked cleanup : List Event) (tried : List (Path × Option SystemError))
          (pending written : List Path),
          p.AbortsWith s pending written ∧
          (∃ w₀, p.stages ⟨m, []⟩ = .error s w₀ ∧ w₀.own = pending ∧
            w₀.machine.trace = m.trace ++ worked) ∧
          w'.machine.trace = m.trace ++ (worked ++ cleanup) ∧
          tried.map Prod.fst = pending ∧
          removals cleanup = tried.map (fun t => (t.1.toString, t.2.map .system)) ∧
          warnings cleanup = tried.filterMap (fun t => t.2.map (stayedRecord t.1)) ∧
          ∀ f ∈ written, ∀ failure, .unlinked f.toString failure ∉ worked ++ cleanup := by
  have hback : ∀ w', p.run ⟨m, []⟩ = .error s w' → ∃ w₀, p.stages ⟨m, []⟩ = .error s w₀ := by
    intro w' hr
    cases h : p.stages ⟨m, []⟩ with
    | ok v w₀ =>
      rw [p.run_of_ok h] at hr
      cases hr
    | error s₀ w₀ =>
      by_cases ha : s₀.Aborts
      · obtain ⟨w'', hr'⟩ := run_of_stages_abort hkeep h ha
        rw [hr'] at hr
        cases hr
        exact ⟨w₀, rfl⟩
      · rw [p.run_of_error h ha] at hr
        cases hr
        exact absurd hs ha
  refine ⟨⟨fun ⟨w', hr⟩ => hback w' hr, fun ⟨w₀, h⟩ => run_of_stages_abort hkeep h hs⟩, ?_⟩
  intro w' hr
  obtain ⟨w₀, h⟩ := hback w' hr
  obtain ⟨worked, written, ht, hwith, hnul, hwritten⟩ := stages_abort hkeep h hs
  obtain ⟨tried, m', htried, hr', cleanup, ht', ha⟩ := run_of_abort_clean hkeep h hs hnul
  rw [hr'] at hr
  cases hr
  have hgone : removals cleanup = tried.map fun t => (t.1.toString, t.2.map .system) := by
    rw [← removals_acts, ha, removals_discardActs]
  have hwarn : warnings cleanup = tried.filterMap fun t => t.2.map (stayedRecord t.1) := by
    rw [← warnings_acts, ha, warnings_discardActs]
  refine ⟨rfl, worked, cleanup, tried, w₀.own, written, hwith, ⟨w₀, h, rfl, ht⟩, ?_, htried, hgone,
    hwarn, ?_⟩
  · rw [ht', ht, List.append_assoc]
  · intro f hf failure hm
    obtain ⟨hpending, hworked⟩ := hwritten f hf
    rcases List.mem_append.1 hm with hm | hm
    · exact hworked failure (mem_removals.2 hm)
    · rw [← mem_removals, hgone] at hm
      obtain ⟨t, ht, he⟩ := List.mem_map.1 hm
      have hf' : t.1 = f := Path.toString_injective (congrArg Prod.fst he)
      refine hpending ?_
      rw [← htried, ← hf']
      exact List.mem_map_of_mem ht

end Fresh

/-! ## A listing that stays -/

/-- The audit of `fw.bin` with nothing else said. -/
def plainAudit : Pipeline := ⟨.ofImage (.ofString "fw.bin"), .standard, false⟩

/-- A machine on which the listing of `fw.bin` can be written but not removed, and the postprocessor
exits with the given status. -/
def stuckListing (status : Int) : Machine where
  cwd := "/work"
  searchPath := some "/bin"
  tree :=
    { entries := [([], .directory .plain), (["work"], .directory .plain),
        (["bin"], .directory .plain), (["fw.bin", "work"], .file (.plain "FIRMWARE")),
        (["fw.bin.raw.asm", "work"], .file { FileNode.plain "" with stuck := some .busy }),
        (["avr-objdump", "bin"], .file { FileNode.plain "" with executable := .allowed }),
        (["avr-postproc", "bin"], .file { FileNode.plain "" with executable := .allowed })]
      clock := 7 }
  programs name _ _ t := .ran t "" "" (.exited (if name = "avr-postproc" then status else 0))
  turns _ := 0
  journal := .silent [toolLogger, pipelineLogger]
  trace := []

theorem run_abort_cleanup_stuckListing :
    ∃ s w', s.Aborts ∧ plainAudit.plan.keepTemps = false ∧
      plainAudit.run ⟨stuckListing 1, []⟩ = .error s w' ∧ w'.own = [] := by
  let s : Stop := .fault (.stage (.failed "postprocess" "avr-postproc"
    ("avr-postproc" :: plainAudit.plan.postprocessorArguments) 1))
  have hs : s.Aborts := Or.inl ⟨_, rfl⟩
  have hrun : plainAudit.run ⟨stuckListing 1, []⟩ = .error s _ :=
    eq_error_of_failure? (by decide +kernel)
  exact ⟨s, _, hs, rfl, hrun, ((run_abort_cleanup rfl _ hs).2 _ hrun).1⟩

end Pipeline

end FirmwareAudit
