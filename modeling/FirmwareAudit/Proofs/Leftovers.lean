import FirmwareAudit.Proofs.AbortCleanup

/-! # What a failed run leaves

Every output that is recorded is removed, tried after an abort, or pending when the run is over. A
removal that fails inside a stage is no abort: then outputs stay pending that nobody tried.
-/
namespace FirmwareAudit
namespace Pipeline

variable (p : Pipeline)

/-! ## Recorded outputs -/

/-- The outputs of the stages whose runs exited with status 0. -/
def outputsOf (ss : List Stage) (runs : List Run) : List Path :=
  ((ss.zip runs).filter fun t => t.2.ending = .exited 0).flatMap (·.1.makes)

/-- The outputs recorded in the events of a run of all stages. -/
def recordedOutputs (events : List Event) : List Path := outputsOf p.work (runsOf events)

/-- A removal was tried. -/
def Attempted (events : List Event) (f : Path) : Prop :=
  ∃ failure, .unlinked f.toString failure ∈ events

theorem attempted_iff {events : List Event} {f : Path} :
    Attempted events f ↔ ∃ failure, (f.toString, failure) ∈ removals events := by
  simp only [Attempted, mem_removals]

theorem outputsOf_completed {ss rest : List Stage} {runs tail : List Run}
    (hruns : List.Forall₂ p.Completed ss runs)
    (htail : rest = [] ∨ ∀ r ∈ tail, r.ending ≠ .exited 0) :
    outputsOf (ss ++ rest) (runs ++ tail) = ss.flatMap (·.makes) := by
  induction hruns with
  | nil =>
    rcases htail with rfl | htail
    · rfl
    · have hnone : (rest.zip tail).filter (fun t => t.2.ending = .exited 0) = [] := by
        refine List.filter_eq_nil_iff.2 fun t ht => ?_
        simpa using htail t.2 (List.of_mem_zip ht).2
      rw [List.nil_append, List.nil_append, outputsOf, hnone]
      rfl
  | @cons s run ss runs hrun _ ih =>
    obtain ⟨tool, -, -, hend⟩ := hrun
    have hcons : outputsOf (s :: ss ++ rest) (run :: runs ++ tail) =
        s.makes ++ outputsOf (ss ++ rest) (runs ++ tail) := by
      simp [outputsOf, hend]
    rw [hcons, ih, List.flatMap_cons]

theorem mem_foldl_addPending {pending made : List Path} {f : Path} :
    f ∈ made.foldl addPending pending ↔ f ∈ pending ∨ f ∈ made := by
  induction made generalizing pending with
  | nil => simp
  | cons g rest ih => rw [List.foldl_cons, ih, mem_addPending, List.mem_cons, or_assoc]

theorem mem_recorded {s : Stage} {pending : List Path} {f : Path} :
    f ∈ recorded s pending ↔ f ∈ pending ∨ f ∈ s.makes :=
  mem_foldl_addPending

theorem mem_without {pending gone : List Path} {f : Path} (h : f ∈ pending) (hg : f ∉ gone) :
    f ∈ without pending gone := by
  unfold without
  induction gone generalizing pending with
  | nil => exact h
  | cons g rest ih =>
    rw [List.mem_cons, not_or] at hg
    exact ih ((List.mem_erase_of_ne hg.1).2 h) hg.2

theorem Missed.ending_ne {p : Pipeline} {s : Stage} {es : List Event} (h : p.Missed s es) :
    ∀ r ∈ runsOf es, r.ending ≠ .exited 0 := by
  rcases h with ⟨-, rfl⟩ | ⟨tool, e, -, he, rfl⟩
  · exact fun r hr => absurd hr List.not_mem_nil
  · intro r hr
    rw [runsOf_append, show runsOf (startActs s (tool.program :: s.arguments)) = [] from rfl,
      List.nil_append] at hr
    cases e with
    | ran run =>
      have hrun : r = run := List.mem_singleton.1 hr
      rw [hrun]
      exact he.2
    | notStarted c reason => cases hr
    | _ => cases he

theorem attempts_discardActs (tried : List (Path × Option SystemError)) :
    attempts (tried.flatMap discardActs) = [] := by
  refine attempts_flatMap (fun t => ?_) tried
  obtain ⟨path, failure⟩ := t
  cases failure <;> rfl

/-- What a run leaves that stops with a fault. -/
def LeftBy (f : Fault) (pending : List Path) (events : List Event) : Prop :=
  (pending = [] ↔ ∀ path cause, f ≠ .cleanup path cause) ∧
    ((∀ g ∈ p.recordedOutputs events, Attempted events g) ↔
      ∀ path cause, f = .cleanup path cause → path = p.files.rebuilt)

theorem leftBy_of_clean {f : Fault} {events : List Event}
    (hf : ∀ path cause, f ≠ .cleanup path cause)
    (hall : ∀ g ∈ p.recordedOutputs events, Attempted events g) : p.LeftBy f [] events :=
  ⟨iff_of_true rfl hf, iff_of_true hall fun path cause h => absurd h (hf path cause)⟩

theorem ne_cleanup_of_aborts {f : Fault} (h : (Stop.fault f).Aborts) (path : Path)
    (cause : SystemError) : f ≠ .cleanup path cause := by
  rintro rfl
  rcases h with ⟨c, h⟩ | ⟨g, c, h⟩ <;> cases h

section Fresh
variable {p} (hkeep : p.plan.keepTemps = false)
include hkeep

/-- What was pending or is made by some stages is used up by them or pending behind them. -/
theorem used_or_pending {ss : List Stage} {pending : List Path} {f : Path}
    (h : f ∈ pending ∨ f ∈ ss.flatMap (·.makes)) :
    f ∈ ss.flatMap (·.uses) ∨ f ∈ p.leavesAll ss pending := by
  induction ss generalizing pending with
  | nil =>
    rcases h with h | h
    · exact Or.inr h
    · cases h
  | cons s rest ih =>
    rw [List.flatMap_cons, List.mem_append] at h ⊢
    have hrec : f ∈ recorded s pending ∨ f ∈ rest.flatMap (·.makes) := by
      rw [mem_recorded, or_assoc]
      exact h
    by_cases hu : f ∈ s.uses
    · exact Or.inl (Or.inl hu)
    · have hl : f ∈ p.leaves s pending ∨ f ∈ rest.flatMap (·.makes) := by
        refine hrec.imp_left fun hr => ?_
        rw [leaves_of_removal hkeep]
        exact mem_without hr hu
      rcases ih hl with h | h
      · exact Or.inl (Or.inr h)
      · exact Or.inr h

theorem attempted_of_usedUp {ss : List Stage} {es events : List Event}
    (h : removals events = p.usedUp ss ++ removals es) :
    ∀ f ∈ ss.flatMap (·.uses), Attempted events f := by
  intro f hf
  rw [attempted_iff, h, usedUp, hkeep, if_neg (by decide)]
  exact ⟨none, List.mem_append_left _ (List.mem_map.2 ⟨f, hf, rfl⟩)⟩

theorem attempted_of_recorded {before rest : List Stage} {runs tail : List Run}
    {events : List Event} (hwork : p.work = before ++ rest)
    (hruns : List.Forall₂ p.Completed before runs) (hr : runsOf events = runs ++ tail)
    (htail : rest = [] ∨ ∀ r ∈ tail, r.ending ≠ .exited 0)
    (hused : ∀ f ∈ before.flatMap (·.uses), Attempted events f)
    (hleft : ∀ f ∈ p.leavesAll before [], Attempted events f) :
    ∀ g ∈ p.recordedOutputs events, Attempted events g := by
  intro g hg
  rw [recordedOutputs, hwork, hr, p.outputsOf_completed hruns htail] at hg
  have hmade : g ∈ [] ∨ g ∈ before.flatMap (·.makes) := Or.inr hg
  rcases used_or_pending hkeep hmade with hg | hg
  · exact hused g hg
  · exact hleft g hg

/-- A stage that uses files up uses those that are pending or that it has made, each once and never
the rebuilt image, and makes one that it does not use up and that was not used up before. -/
theorem uses_of_split {before rest : List Stage} {s : Stage} (h : p.work = before ++ s :: rest)
    (hne : s.uses ≠ []) :
    (∀ f ∈ s.uses, f ∈ recorded s (p.leavesAll before [])) ∧ s.uses.Nodup ∧
      p.files.rebuilt ∉ s.uses ∧ ∃ g ∈ s.makes, g ∉ before.flatMap (·.uses) ∧ g ∉ s.uses := by
  have hn := p.files_nodup
  simp only [List.nodup_cons, List.mem_cons, List.not_mem_nil, or_false, not_or] at hn
  simp only [mem_recorded]
  have h₁ := leaves_disassembly hkeep
  have h₂ := leaves_postprocessing hkeep
  have h₃ := leaves_reassembly hkeep
  rcases p.work_split h with ⟨rfl, rfl⟩ | ⟨rfl, rfl⟩ | ⟨rfl, rfl⟩ | ⟨rfl, rfl⟩ <;>
    simp only [leavesAll, List.foldl_cons, List.foldl_nil, h₁, h₂, h₃]
  · exact absurd rfl hne
  · refine ⟨?_, ?_, ?_, p.files.source, ?_⟩ <;>
      simp [disassembly, postprocessing, hn, Ne.symm]
  · refine ⟨?_, ?_, ?_, p.files.flash, ?_⟩ <;>
      simp [disassembly, postprocessing, reassembly, hn, Ne.symm]
  · refine ⟨?_, ?_, ?_, p.files.rebuilt, ?_⟩ <;>
      simp [disassembly, postprocessing, reassembly, conversion, hn, Ne.symm]

theorem leftBy_of_abort {m : Machine} {f : Fault} {w₀ w' : Workplace (List Path)}
    {before rest : List Stage} {runs : List Run} {es : List Event} {stream : Stream}
    (h : p.stages ⟨m, []⟩ = .error (.fault f) w₀) (ha : (Stop.fault f).Aborts)
    (hr : p.run ⟨m, []⟩ = .error (.fault f) w') (hwork : p.work = before ++ rest)
    (hruns : List.Forall₂ p.Completed before runs)
    (htail : rest = [] ∨ ∀ r ∈ runsOf es, r.ending ≠ .exited 0) (hquiet : Quiet stream es)
    (hown : w₀.own = p.leavesAll before [])
    (hadds : m.Adds (p.doneActs before runs ++ es) w₀.machine) :
    ∃ events, w'.machine.trace = m.trace ++ events ∧ p.LeftBy f w'.own events := by
  obtain ⟨-, -, -, -, hnul, -⟩ := stages_abort hkeep h ha
  obtain ⟨tried, m', htried, hr', ha'⟩ := run_of_abort_clean hkeep h ha hnul
  rw [hr'] at hr
  cases hr
  obtain ⟨events, ht, hacts⟩ := hadds.trans ha'
  obtain ⟨hrem, -, -, hrun⟩ := p.reads_doneActs .output hruns
  have hgone : removals events =
      p.usedUp before ++ tried.map (fun t => (t.1.toString, t.2.map .system)) := by
    rw [← removals_acts, hacts, removals_append, removals_append, hrem, hquiet.removals_eq,
      removals_discardActs, List.append_nil]
  have hrunsOf : runsOf events = runs ++ runsOf es := by
    rw [← runsOf_acts, hacts, runsOf_append, runsOf_append, hrun, runsOf_of_attempts (attempts_discardActs tried),
      List.append_nil]
  refine ⟨events, ht, p.leftBy_of_clean (ne_cleanup_of_aborts ha) ?_⟩
  refine attempted_of_recorded hkeep hwork hruns hrunsOf htail ?_ ?_
  · have hused : removals events = p.usedUp before ++ removals (tried.flatMap discardActs) := by
      rw [hgone, removals_discardActs]
    exact attempted_of_usedUp hkeep hused
  · intro g hg
    rw [← hown, ← htried] at hg
    obtain ⟨t, ht, rfl⟩ := List.mem_map.1 hg
    rw [attempted_iff, hgone]
    exact ⟨_, List.mem_append_right _ (List.mem_map.2 ⟨t, ht, rfl⟩)⟩

/-- A removal that fails inside a stage leaves its file pending, and an output that nobody tried. -/
theorem leftBy_of_stuck {before rest : List Stage} {s : Stage} {runs : List Run} {run : Run}
    {gone tail : List Path} {path : Path} {cause : SystemError} {reason : Stop}
    {events : List Event} (hsplit : p.work = before ++ s :: rest)
    (hruns : List.Forall₂ p.Completed before runs) (hrun : p.Completed s run)
    (huses : s.uses = gone ++ path :: tail)
    (hacts : acts events = p.doneActs before runs ++ stuckActs s run gone path reason) :
    p.LeftBy (.cleanup path cause) (without (recorded s (p.leavesAll before [])) gone) events := by
  have hne : s.uses ≠ [] := by simp [huses]
  obtain ⟨hrec, hnodup, hrebuilt, g, hg, hbefore, hown⟩ := uses_of_split hkeep hsplit hne
  rw [huses] at hnodup
  have hpath : path ∈ s.uses := by simp [huses]
  have hnot : path ∉ gone := fun h =>
    (List.nodup_append.1 hnodup).2.2 path h path List.mem_cons_self rfl
  have hleft := mem_without (hrec path hpath) hnot
  have hpr : path ≠ p.files.rebuilt := fun h => hrebuilt (h ▸ hpath)
  obtain ⟨hrem, -, -, hrunsB⟩ := p.reads_doneActs .output hruns
  obtain ⟨hstuck, -, hstuckRuns⟩ := reads_stuckActs .output s run gone path reason
  have hremovals : removals events = p.usedUp before ++
      (gone.map (fun f => (f.toString, none)) ++ [(path.toString, some reason)]) := by
    rw [← removals_acts, hacts, removals_append, hrem, hstuck]
  have hrunsOf : runsOf events = (runs ++ [run]) ++ [] := by
    rw [← runsOf_acts, hacts, runsOf_append, hrunsB, hstuckRuns, List.append_nil]
  have hrecorded : g ∈ p.recordedOutputs events := by
    have hwork : p.work = (before ++ [s]) ++ rest := by simp [hsplit]
    rw [recordedOutputs, hwork, hrunsOf, p.outputsOf_completed
      (List.rel_append hruns (.cons hrun .nil)) (Or.inr fun r hr => absurd hr List.not_mem_nil),
      List.flatMap_append]
    exact List.mem_append_right _ (by simpa using hg)
  have huntried : ¬ Attempted events g := by
    rw [attempted_iff, hremovals, usedUp, hkeep, if_neg (by decide)]
    rintro ⟨failure, hm⟩
    rcases List.mem_append.1 hm with hm | hm
    · obtain ⟨f, hf, he⟩ := List.mem_map.1 hm
      exact hbefore (Path.toString_injective (congrArg Prod.fst he) ▸ hf)
    · rcases List.mem_append.1 hm with hm | hm
      · obtain ⟨f, hf, he⟩ := List.mem_map.1 hm
        have hfu : f ∈ s.uses := by simp [huses, hf]
        exact hown (Path.toString_injective (congrArg Prod.fst he) ▸ hfu)
      · have he := List.mem_singleton.1 hm
        exact hown (Path.toString_injective (congrArg Prod.fst he) ▸ hpath)
  -- The file that stays is pending, and what the stage made to last was recorded and never tried.
  refine ⟨iff_of_false ?_ ?_, iff_of_false ?_ ?_⟩
  · exact List.ne_nil_of_mem hleft
  · exact fun h => h path cause rfl
  · exact fun h => huntried (h g hrecorded)
  · exact fun h => hpr (h path cause rfl)

theorem leftBy_of_verified {m m' : Machine} {f : Fault} {pending : List Path} {runs : List Run}
    {image rebuilt : Checksum} {run₁ run₂ : Run} {tail : List Event}
    (hruns : List.Forall₂ p.Completed p.work runs)
    (hadds : m.Adds (p.doneActs p.work runs ++ (measureActs run₁ run₂ ++
      p.reportActs image rebuilt ++ tail)) m')
    (htail : ∃ failure, (p.files.rebuilt.toString, failure) ∈ removals tail)
    (hown : pending = [] ↔ ∀ path cause, f ≠ .cleanup path cause)
    (hf : ∀ path cause, f = .cleanup path cause → path = p.files.rebuilt) :
    ∃ events, m'.trace = m.trace ++ events ∧ p.LeftBy f pending events := by
  obtain ⟨events, ht, hacts⟩ := hadds
  obtain ⟨hrem, -, -, hrun⟩ := p.reads_doneActs .output hruns
  have hgone : removals events = p.usedUp p.work ++ removals tail := by
    have hmid : removals (measureActs run₁ run₂ ++ p.reportActs image rebuilt ++ tail) =
        removals tail := rfl
    rw [← removals_acts, hacts, removals_append, hrem, hmid]
  have hrunsOf : ∃ rs, runsOf events = runs ++ rs := by
    rw [← runsOf_acts, hacts, runsOf_append, hrun]
    exact ⟨_, rfl⟩
  obtain ⟨rs, hrunsOf⟩ := hrunsOf
  have hall : ∀ g ∈ p.recordedOutputs events, Attempted events g := by
    refine attempted_of_recorded hkeep (List.append_nil _).symm hruns hrunsOf (Or.inl rfl) ?_ ?_
    · exact attempted_of_usedUp hkeep hgone
    · rw [leavesAll_work hkeep]
      intro g hg
      rw [List.mem_singleton.1 hg, attempted_iff, hgone]
      obtain ⟨failure, hm⟩ := htail
      exact ⟨failure, List.mem_append_right _ hm⟩
  exact ⟨events, ht, hown, iff_of_true hall hf⟩

/-- Whatever fault a fresh run stops with: nothing is pending exactly if the fault is not that a
file stayed, and every recorded output was tried exactly if no file stayed but the rebuilt image. -/
theorem run_leftovers {m : Machine} {f : Fault} {w' : Workplace (List Path)}
    (h : p.run ⟨m, []⟩ = .error (.fault f) w') :
    ∃ events, w'.machine.trace = m.trace ++ events ∧
      (w'.own = [] ↔ ∀ path cause, f ≠ .cleanup path cause) ∧
      ((∀ g ∈ p.recordedOutputs events, Attempted events g) ↔
        ∀ path cause, f = .cleanup path cause → path = p.files.rebuilt) := by
  have hend := p.stages_ends ⟨m, []⟩
  generalize hr : p.stages ⟨m, []⟩ = r at hend
  cases hend with
  | broken before s rest runs m₁ stop w₀ hsplit hruns hnul hadds hend =>
    cases hend with
    | missed stop es m₂ hblame hmiss hadds' =>
      by_cases ha : stop.Aborts
      · obtain ⟨w'', hr'⟩ := run_of_stages_abort hkeep hr ha
        have hstop := hr'.symm.trans h
        cases hstop
        exact leftBy_of_abort hkeep hr ha h hsplit hruns (Or.inr hmiss.ending_ne)
          (hmiss.quiet p.stream) rfl (hadds.trans hadds')
      · have hstop := (p.run_of_error hr ha).symm.trans h
        cases hstop
        obtain ⟨cause, rfl, -⟩ := hblame f rfl
        exact absurd (Or.inl ⟨cause, rfl⟩) ha
    | stuck run gone path tail stop reason m₂ hrun hkeep' huses hblame hadds' =>
      have hstop := (p.run_of_error hr (not_aborts_of_blamesRemoval hblame)).symm.trans h
      cases hstop
      obtain ⟨cause, rfl⟩ := hblame f rfl
      obtain ⟨events, ht, hacts⟩ := hadds.trans hadds'
      exact ⟨events, ht, leftBy_of_stuck hkeep hsplit hruns hrun huses hacts⟩
  | verified runs m₁ r hruns hnul hadds hend =>
    cases hend with
    | missed stop es m₂ hblame hquiet hadds' =>
      by_cases ha : stop.Aborts
      · obtain ⟨w'', hr'⟩ := run_of_stages_abort hkeep hr ha
        have hstop := hr'.symm.trans h
        cases hstop
        exact leftBy_of_abort hkeep hr ha h (List.append_nil _).symm hruns (Or.inl rfl) hquiet rfl
          (hadds.trans hadds')
      · have hstop := (p.run_of_error hr ha).symm.trans h
        cases hstop
        rcases hblame with hb | hb <;> obtain ⟨cause, rfl⟩ := hb f rfl <;>
          exact absurd (Or.inr ⟨_, cause, rfl⟩) ha
    | stuck image rebuilt run₁ run₂ stop reason m₂ hmeas hkeep' hblame hadds' =>
      have hstop := (p.run_of_error hr (not_aborts_of_blamesRemoval hblame)).symm.trans h
      cases hstop
      obtain ⟨cause, rfl⟩ := hblame f rfl
      refine leftBy_of_verified hkeep hruns (hadds.trans hadds') ⟨some reason, ?_⟩ ?_ ?_
      · exact List.mem_singleton.2 rfl
      · rw [leavesAll_work hkeep]
        exact iff_of_false (by simp) fun hc => hc _ cause rfl
      · rintro path cause' hc
        cases hc
        rfl
    | unseen image rebuilt run₁ run₂ stop m₂ hmeas hstop hscan hadds' =>
      have hfault := (p.run_of_error hr (not_aborts_of_isCallFault hstop)).symm.trans h
      cases hfault
      rcases hstop with hc | ⟨e, hc⟩ <;> cases hc
    | differs image rebuilt run₁ run₂ m₂ hmeas hdiff hscan hadds' =>
      have hstop := (p.run_of_error hr (not_aborts_mismatch image rebuilt)).symm.trans h
      cases hstop
      refine leftBy_of_verified hkeep hruns (hadds.trans hadds') ⟨none, ?_⟩ ?_ ?_
      · rw [removedActs, hkeep, if_neg (by decide)]
        exact List.mem_singleton.2 rfl
      · refine iff_of_true ?_ (fun path cause hc => nomatch hc)
        rw [spared, hkeep, if_neg (by decide), leavesAll_work hkeep]
        simp [without]
      · intro path cause hc
        cases hc
    | agrees image rebuilt run₁ run₂ here m₂ hmeas hsame hadds' =>
      rw [p.run_of_ok hr] at h
      cases h

end Fresh

/-! ## The listing stays -/

theorem run_stuckListing :
    ∃ e, plainAudit.run ⟨stuckListing 0, []⟩ =
      .error (.fault (.cleanup plainAudit.files.listing e))
        (endState (plainAudit.run ⟨stuckListing 0, []⟩)) :=
  ⟨⟨.busy, some "fw.bin.raw.asm"⟩, eq_error_of_failure? (by decide +kernel)⟩

theorem run_leftovers_stuckListing :
    plainAudit.plan.keepTemps = false ∧ ∃ f w', plainAudit.run ⟨stuckListing 0, []⟩ =
      .error (.fault f) w' ∧ w'.own ≠ [] := by
  obtain ⟨e, h⟩ := run_stuckListing
  obtain ⟨events, -, hown, -⟩ := run_leftovers rfl h
  exact ⟨rfl, _, _, h, fun hnil => hown.1 hnil _ e rfl⟩

/-- The source was recorded, nobody tried to remove it, and it is pending when the run is over. -/
theorem untried_source_stuckListing :
    ∃ f w', plainAudit.plan.keepTemps = false ∧
      plainAudit.run ⟨stuckListing 0, []⟩ = .error (.fault f) w' ∧
      plainAudit.files.source ∈ plainAudit.recordedOutputs w'.machine.trace ∧
      ¬ Attempted w'.machine.trace plainAudit.files.source ∧ plainAudit.files.source ∈ w'.own := by
  obtain ⟨e, h⟩ := run_stuckListing
  refine ⟨_, _, rfl, h, by decide +kernel, ?_, by decide +kernel⟩
  have hnone : plainAudit.files.source.toString ∉
      (removals (endState (plainAudit.run ⟨stuckListing 0, []⟩)).machine.trace).map Prod.fst := by
    decide +kernel
  rw [attempted_iff]
  rintro ⟨failure, hm⟩
  exact hnone (List.mem_map.2 ⟨_, hm, rfl⟩)

end Pipeline
end FirmwareAudit
