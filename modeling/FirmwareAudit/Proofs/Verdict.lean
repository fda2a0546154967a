import FirmwareAudit.Proofs.ArtifactNames
import FirmwareAudit.Proofs.Outcome

/-! # The verdict is sound

Whatever the tools do, a report is empty, or two checksums, or two checksums and a pass; and what is
said is so. The run of all stages ends in one of five ways, and each is read off the acts on its way.
-/
namespace FirmwareAudit

namespace Pipeline

/-! ## The cleanup says nothing -/

theorem reported_discardActs (stream : Stream) (tried : List (Path × Option SystemError)) :
    reported stream (tried.flatMap discardActs) = [] := by
  induction tried with
  | nil => rfl
  | cons t rest ih =>
    obtain ⟨path, failure⟩ := t
    rw [List.flatMap_cons, reported_append, ih]
    cases failure <;> rfl

theorem discardEach_silent (stream : Stream) (paths : List Path) (w : Workplace (List Path)) :
    ∃ es, w.machine.Adds es (endState (discardEach paths w)).machine ∧ reported stream es = [] ∧
      ∀ s w', discardEach paths w = .error s w' → s.IsCallFault := by
  rcases discardEach_cases paths w with ⟨tried, m', -, he, ha⟩ | ⟨tried, path, rest, m', -, -, he, ha⟩
  · rw [he]
    exact ⟨_, ha, reported_discardActs stream tried, fun _ _ h => nomatch h⟩
  · rw [he]
    refine ⟨_, ha, ?_, ?_⟩
    · rw [reported_append, reported_discardActs]
      rfl
    · intro s w' h
      cases h
      exact Or.inl rfl

theorem discardPending_silent (p : Pipeline) (stream : Stream) (w : Workplace (List Path)) :
    ∃ es, w.machine.Adds es (endState (p.discardPending w)).machine ∧ reported stream es = [] ∧
      ∀ s w', p.discardPending w = .error s w' → s.IsCallFault := by
  unfold discardPending
  split
  · exact ⟨[], Machine.Adds.refl _, rfl, fun _ _ h => nomatch h⟩
  · rw [bind_of_ok (get_apply w)]
    exact discardEach_silent stream w.own w

/-! ## What the report shows of a run -/

variable (p : Pipeline)

/-- A stop that is no verdict. -/
def IsNoVerdict (s : Stop) : Prop := ∀ image rebuilt, s ≠ .fault (.mismatch image rebuilt)

theorem IsNoVerdict.not_mismatch {stop : Stop} (h : IsNoVerdict stop) {image rebuilt : Checksum}
    {w : Workplace (List Path)} :
    ¬ ∃ w', (.error stop w : EStateM.Result Stop (Workplace (List Path)) Verdict) =
      .error (.fault (.mismatch image rebuilt)) w' := by
  rintro ⟨w', he⟩
  cases he
  exact h image rebuilt rfl

theorem isNoVerdict_of_blames {stage : String} {s : Stop} (h : s.Blames stage) :
    IsNoVerdict s := by
  rintro image rebuilt rfl
  obtain ⟨cause, hc, -⟩ := h _ rfl
  cases hc

theorem isNoVerdict_of_blamesChecksum {path : Path} {s : Stop} (h : s.BlamesChecksum path) :
    IsNoVerdict s := by
  rintro image rebuilt rfl
  obtain ⟨cause, hc⟩ := h _ rfl
  cases hc

theorem isNoVerdict_of_blamesRemoval {path : Path} {s : Stop} (h : BlamesRemoval path s) :
    IsNoVerdict s := by
  rintro image rebuilt rfl
  obtain ⟨cause, hc⟩ := h _ rfl
  cases hc

theorem isNoVerdict_of_isCallFault {s : Stop} (h : s.IsCallFault) : IsNoVerdict s := by
  rintro image rebuilt rfl
  rcases h with h | ⟨e, h⟩ <;> cases h

/-- All tools ended well, both checksums were had, and then two lines were reported. -/
def Told (w : Workplace (List Path)) (image rebuilt : Checksum) (tail : List Event) (m : Machine) :
    Prop :=
  ∃ runs run₁ run₂, List.Forall₂ p.Completed p.work runs ∧ p.Measured image rebuilt run₁ run₂ ∧
    w.machine.Adds (p.doneActs p.work runs ++ measureActs run₁ run₂ ++
      (p.reportActs image rebuilt ++ tail)) m

inductive RunEnd (w : Workplace (List Path)) :
    EStateM.Result Stop (Workplace (List Path)) Verdict → Prop
  | silent (stop : Stop) (es : List Event) (w' : Workplace (List Path)) (hstop : IsNoVerdict stop)
      (hrep : reported p.stream es = []) (hadds : w.machine.Adds es w'.machine) :
      RunEnd w (.error stop w')
  | stuck (image rebuilt : Checksum) (stop reason : Stop) (w' : Workplace (List Path))
      (hstop : IsNoVerdict stop)
      (htold : p.Told w image rebuilt (failedRemovalActs p.files.rebuilt reason) w'.machine) :
      RunEnd w (.error stop w')
  | unseen (image rebuilt : Checksum) (stop : Stop) (w' : Workplace (List Path))
      (hstop : IsNoVerdict stop) (hscan : ¬ p.Scannable w'.machine)
      (htold : p.Told w image rebuilt (p.removedActs [p.files.rebuilt]) w'.machine) :
      RunEnd w (.error stop w')
  | differs (image rebuilt : Checksum) (w' : Workplace (List Path))
      (hdiff : image.digest ≠ rebuilt.digest) (hscan : p.Scannable w'.machine)
      (htold : p.Told w image rebuilt (p.removedActs [p.files.rebuilt]) w'.machine) :
      RunEnd w (.error (.fault (.mismatch image rebuilt)) w')
  | agrees (image rebuilt : Checksum) (here : List Path) (w' : Workplace (List Path))
      (hsame : image.digest = rebuilt.digest)
      (htold : p.Told w image rebuilt
        (p.removedActs [p.files.rebuilt] ++ [.printed p.stream "Ok\n"]) w'.machine) :
      RunEnd w (.ok ⟨image, rebuilt, here⟩ w')

theorem runEnd_of_silence {w w' : Workplace (List Path)} {stop : Stop} {es : List Event}
    (h : p.stages w = .error stop w') (hstop : IsNoVerdict stop)
    (hrep : reported p.stream es = []) (hadds : w.machine.Adds es w'.machine) :
    p.RunEnd w (p.run w) := by
  by_cases ha : stop.Aborts
  · rw [p.run_of_abort h ha]
    obtain ⟨fs, hadds', hrep', hs⟩ := p.discardPending_silent p.stream w'
    have hr : reported p.stream (es ++ fs) = [] := by
      rw [reported_append, hrep, hrep']
      rfl
    cases hd : p.discardPending w' with
    | ok u w'' =>
      rw [hd] at hadds'
      rw [bind_of_ok hd, throw_apply]
      exact .silent stop _ w'' hstop hr (hadds.trans hadds')
    | error s w'' =>
      rw [hd] at hadds'
      rw [bind_of_error hd]
      exact .silent s _ w'' (isNoVerdict_of_isCallFault (hs s w'' hd)) hr (hadds.trans hadds')
  · rw [p.run_of_error h ha]
    exact .silent stop es w' hstop hrep hadds

theorem StageEnd.silent {p : Pipeline} {s : Stage} {w w' : Workplace (List Path)} {stop : Stop}
    (h : p.StageEnd s w (.error stop w')) (stream : Stream) :
    IsNoVerdict stop ∧ ∃ es, w.machine.Adds es w'.machine ∧ reported stream es = [] := by
  cases h with
  | missed stop es m hblame hmiss hadds =>
    exact ⟨isNoVerdict_of_blames hblame, es, hadds, (hmiss.quiet stream).reported_eq⟩
  | stuck run gone path rest stop reason m hrun hkeep huses hblame hadds =>
    obtain ⟨-, hrep, -⟩ := reads_stuckActs stream s run gone path reason
    exact ⟨isNoVerdict_of_blamesRemoval hblame, _, hadds, hrep⟩

theorem run_ends (w : Workplace (List Path)) : p.RunEnd w (p.run w) := by
  have hend := p.stages_ends w
  generalize hr : p.stages w = r at hend
  cases hend with
  | broken before s rest runs m stop w' hsplit hruns hnul hadds hend =>
    obtain ⟨hstop, es, hadds', hrep'⟩ := hend.silent p.stream
    obtain ⟨-, -, hrep, -⟩ := p.reads_doneActs p.stream hruns
    refine p.runEnd_of_silence hr hstop ?_ (hadds.trans hadds')
    rw [reported_append, hrep, hrep']
    rfl
  | verified runs m r hruns hnul hadds hend =>
    have htold : ∀ {image rebuilt run₁ run₂ tail m'}, p.Measured image rebuilt run₁ run₂ →
        m.Adds (measureActs run₁ run₂ ++ p.reportActs image rebuilt ++ tail) m' →
        p.Told w image rebuilt tail m' := by
      intro image rebuilt run₁ run₂ tail m' hmeas ha
      refine ⟨runs, run₁, run₂, hruns, hmeas, ?_⟩
      simpa only [List.append_assoc] using hadds.trans ha
    cases hend with
    | missed stop es m' hblame hquiet hadds' =>
      obtain ⟨-, -, hrep, -⟩ := p.reads_doneActs p.stream hruns
      refine p.runEnd_of_silence hr ?_ ?_ (hadds.trans hadds')
      · rcases hblame with h | h
        · exact isNoVerdict_of_blamesChecksum h
        · exact isNoVerdict_of_blamesChecksum h
      · rw [reported_append, hrep, hquiet.reported_eq]
        rfl
    | stuck image rebuilt run₁ run₂ stop reason m' hmeas hkeep hblame hadds' =>
      rw [p.run_of_error hr (not_aborts_of_blamesRemoval hblame)]
      exact .stuck image rebuilt stop reason _ (isNoVerdict_of_blamesRemoval hblame)
        (htold hmeas hadds')
    | unseen image rebuilt run₁ run₂ stop m' hmeas hstop hscan hadds' =>
      rw [p.run_of_error hr (not_aborts_of_isCallFault hstop)]
      exact .unseen image rebuilt stop _ (isNoVerdict_of_isCallFault hstop) hscan
        (htold hmeas hadds')
    | differs image rebuilt run₁ run₂ m' hmeas hdiff hscan hadds' =>
      rw [p.run_of_error hr (not_aborts_mismatch image rebuilt)]
      exact .differs image rebuilt _ hdiff hscan (htold hmeas hadds')
    | agrees image rebuilt run₁ run₂ here m' hmeas hsame hadds' =>
      rw [p.run_of_ok hr]
      refine .agrees image rebuilt here _ hsame (htold hmeas ?_)
      simpa only [List.append_assoc] using hadds'

/-! ## Soundness -/

/-- In these events nothing is reported before every tool has ended well, one for each stage and the
checksum tool for the image and then for the rebuilt one, whose answers held the given digests. -/
def Established (events : List Event) (image rebuilt : Checksum) : Prop :=
  rebuilt.path.toString = p.plan.image.toString ++ ".reassembled" ∧
    Digest.IsDigest image.digest ∧ Digest.IsDigest rebuilt.digest ∧
    ∃ before after runs run₁ run₂, events = before ++ after ∧ reported p.stream before = [] ∧
      runsOf before = runs ++ [run₁, run₂] ∧ List.Forall₂ p.Completed p.work runs ∧
      p.Measured image rebuilt run₁ run₂

theorem Told.shows {p : Pipeline} {w : Workplace (List Path)} {image rebuilt : Checksum}
    {tail : List Event} {m : Machine} (h : p.Told w image rebuilt tail m) :
    ∃ events, m.trace = w.machine.trace ++ events ∧ p.Established events image rebuilt ∧
      reported p.stream events = lines image rebuilt ++ reported p.stream tail ∧
      ∀ path reason, .unlinked path (some reason) ∈ events ↔ (path, some reason) ∈ removals tail := by
  obtain ⟨runs, run₁, run₂, hruns, hmeas, ha⟩ := h
  obtain ⟨before, after, ht, hb, hf⟩ := ha.split
  obtain ⟨hrem, -, hrep, hrun⟩ := p.reads_doneActs p.stream hruns
  have hquiet : Quiet p.stream (measureActs run₁ run₂) :=
    (quiet_checksumActs _ run₁).append (quiet_checksumActs _ run₂)
  have hbefore : reported p.stream before = [] := by
    rw [← reported_acts p.stream_ne_errors, hb, reported_append, hrep, hquiet.reported_eq]
    rfl
  have hrunsOf : runsOf before = runs ++ [run₁, run₂] := by
    rw [← runsOf_acts, hb, runsOf_append, hrun]
    rfl
  have hlines : reported p.stream (p.reportActs image rebuilt) = lines image rebuilt := by
    simp [reported, reportActs, lines, Event.report?]
  have hafter : reported p.stream after = lines image rebuilt ++ reported p.stream tail := by
    rw [← reported_acts p.stream_ne_errors, hf, reported_append, hlines]
  have hgone : removals (before ++ after) = p.usedUp p.work ++ removals tail := by
    have hr : removals (p.reportActs image rebuilt) = [] := rfl
    rw [removals_append, ← removals_acts before, ← removals_acts after, hb, hf]
    simp only [removals_append, hrem, hquiet.removals_eq, hr, List.append_nil, List.nil_append]
  obtain ⟨hpi, hpr, ⟨tool₁, ht₁, hc₁, hd₁⟩, ⟨tool₂, ht₂, hc₂, hd₂⟩⟩ := id hmeas
  refine ⟨before ++ after, ht, ⟨?_, Digest.isDigest_of_ofAnswer hd₁, Digest.isDigest_of_ofAnswer hd₂,
    before, after, runs, run₁, run₂, rfl, hbefore, hrunsOf, hruns, hmeas⟩, ?_, ?_⟩
  · rw [hpr]
    exact p.plan.image.toString_withEnding (by decide)
  · rw [reported_append, hbefore, hafter, List.nil_append]
  · intro path reason
    rw [← mem_removals, hgone, List.mem_append]
    refine or_iff_right fun hu => ?_
    unfold usedUp at hu
    split at hu
    · cases hu
    · obtain ⟨f, -, hf⟩ := List.mem_map.1 hu
      cases hf

theorem Established.ok_not_mem_lines {p : Pipeline} {events : List Event} {image rebuilt : Checksum}
    (h : p.Established events image rebuilt) : "Ok\n" ∉ lines image rebuilt := by
  obtain ⟨-, ⟨hi, -⟩, ⟨hr, -⟩, -⟩ := h
  have hlen : ∀ c : Checksum, c.digest.length = Digest.length → c.line ++ "\n" ≠ "Ok\n" := by
    intro c hc he
    have hl := congrArg String.length he
    simp only [Checksum.line, String.length_append, hc, Digest.length] at hl
    have hok : "Ok\n".length = 3 := rfl
    omega
  intro hm
  simp only [lines, List.mem_cons, List.not_mem_nil, or_false] at hm
  rcases hm with hm | hm
  · exact hlen image hi hm.symm
  · exact hlen rebuilt hr hm.symm

theorem Established.unique {p : Pipeline} {events : List Event}
    {image rebuilt image' rebuilt' : Checksum} (h : p.Established events image rebuilt)
    (h' : p.Established events image' rebuilt') (hl : lines image rebuilt = lines image' rebuilt') :
    image = image' ∧ rebuilt = rebuilt' := by
  have hline : ∀ c c' : Checksum, c.path = c'.path → c.line ++ "\n" = c'.line ++ "\n" → c = c' := by
    rintro ⟨path, digest⟩ ⟨path', digest'⟩ hp hc
    cases hp
    rw [Checksum.line, Checksum.line, String.append_left_inj, String.append_right_inj] at hc
    exact congrArg (Checksum.mk path) hc
  obtain ⟨-, -, -, -, -, -, -, -, -, -, -, -, hi, hr, -⟩ := h
  obtain ⟨-, -, -, -, -, -, -, -, -, -, -, -, hi', hr', -⟩ := h'
  simp only [lines, List.cons.injEq, and_true] at hl
  exact ⟨hline _ _ (hi.trans hi'.symm) hl.1, hline _ _ (hr.trans hr'.symm) hl.2⟩

/-- The report of a run is nothing, or two checksums, or these and a pass, and the checksums are
established. It passes exactly when the run returns, and then the digests agree. The run stops with
a mismatch exactly when only the checksums were reported, they differ, the rebuilt image could be
removed and the artifacts that are kept could be looked for. -/
theorem run_verdict (w : Workplace (List Path)) :
    ∃ events, (endState (p.run w)).machine.trace = w.machine.trace ++ events ∧
      (reported p.stream events = [] ∨ ∃ image rebuilt, p.Established events image rebuilt ∧
        (reported p.stream events = lines image rebuilt ∨
          reported p.stream events = lines image rebuilt ++ ["Ok\n"])) ∧
      ("Ok\n" ∈ reported p.stream events ↔ ∃ v w', p.run w = .ok v w') ∧
      (∀ v w', p.run w = .ok v w' → p.Established events v.image v.rebuilt ∧
        reported p.stream events = lines v.image v.rebuilt ++ ["Ok\n"] ∧
        v.image.digest = v.rebuilt.digest ∧ v.ok = true) ∧
      ∀ image rebuilt, (∃ w', p.run w = .error (.fault (.mismatch image rebuilt)) w') ↔
        p.Established events image rebuilt ∧ reported p.stream events = lines image rebuilt ∧
          image.digest ≠ rebuilt.digest ∧
          (∀ reason, .unlinked p.files.rebuilt.toString (some reason) ∉ events) ∧
          p.Scannable (endState (p.run w)).machine := by
  have hend := p.run_ends w
  generalize p.run w = r at hend
  -- Each way to end fixes the report, and with it both equivalences.
  cases hend with
  | silent stop es w' hstop hrep hadds =>
    obtain ⟨events, ht, ha⟩ := hadds
    have hr : reported p.stream events = [] := by
      rw [← reported_acts p.stream_ne_errors, ha, hrep]
    refine ⟨events, ht, Or.inl hr, ?_, fun v w'' h => (nomatch h), ?_⟩
    · rw [hr]
      exact ⟨fun h => (nomatch h), fun ⟨v, w'', h⟩ => (nomatch h)⟩
    · intro image rebuilt
      rw [hr]
      refine iff_of_false hstop.not_mismatch ?_
      rintro ⟨-, h, -⟩
      cases h
  | stuck image rebuilt stop reason w' hstop htold =>
    obtain ⟨events, ht, hest, hrep, hgone⟩ := htold.shows
    obtain ⟨hrem, -, hrep', -⟩ := reads_failedRemovalActs p.stream p.files.rebuilt reason
    rw [hrep', List.append_nil] at hrep
    refine ⟨events, ht, Or.inr ⟨image, rebuilt, hest, Or.inl hrep⟩, ?_,
      fun v w'' h => (nomatch h), ?_⟩
    · rw [hrep]
      exact ⟨fun h => absurd h hest.ok_not_mem_lines, fun ⟨v, w'', h⟩ => (nomatch h)⟩
    · intro image' rebuilt'
      refine iff_of_false hstop.not_mismatch ?_
      rintro ⟨-, -, -, h, -⟩
      refine absurd ((hgone _ reason).2 ?_) (h reason)
      rw [hrem]
      exact List.mem_singleton.2 rfl
  | unseen image rebuilt stop w' hstop hscan htold =>
    obtain ⟨events, ht, hest, hrep, -⟩ := htold.shows
    obtain ⟨-, -, hrep', -⟩ := p.reads_removedActs p.stream [p.files.rebuilt]
    rw [hrep', List.append_nil] at hrep
    refine ⟨events, ht, Or.inr ⟨image, rebuilt, hest, Or.inl hrep⟩, ?_,
      fun v w'' h => (nomatch h), ?_⟩
    · rw [hrep]
      exact ⟨fun h => absurd h hest.ok_not_mem_lines, fun ⟨v, w'', h⟩ => (nomatch h)⟩
    · intro image' rebuilt'
      refine iff_of_false hstop.not_mismatch ?_
      rintro ⟨-, -, -, -, h⟩
      exact absurd h hscan
  | differs image rebuilt w' hdiff hscan htold =>
    obtain ⟨events, ht, hest, hrep, hgone⟩ := htold.shows
    obtain ⟨hrem, -, hrep', -⟩ := p.reads_removedActs p.stream [p.files.rebuilt]
    rw [hrep', List.append_nil] at hrep
    have hnone : ∀ reason, .unlinked p.files.rebuilt.toString (some reason) ∉ events := by
      intro reason h
      rw [hgone, hrem] at h
      split at h
      · cases h
      · simp at h
    refine ⟨events, ht, Or.inr ⟨image, rebuilt, hest, Or.inl hrep⟩, ?_,
      fun v w'' h => (nomatch h), ?_⟩
    · rw [hrep]
      exact ⟨fun h => absurd h hest.ok_not_mem_lines, fun ⟨v, w'', h⟩ => (nomatch h)⟩
    · intro image' rebuilt'
      constructor
      · rintro ⟨w'', h⟩
        cases h
        exact ⟨hest, hrep, hdiff, hnone, hscan⟩
      · rintro ⟨hest', hrep'', -⟩
        obtain ⟨rfl, rfl⟩ := hest.unique hest' (hrep.symm.trans hrep'')
        exact ⟨w', rfl⟩
  | agrees image rebuilt here w' hsame htold =>
    obtain ⟨events, ht, hest, hrep, -⟩ := htold.shows
    obtain ⟨-, -, hrep', -⟩ := p.reads_removedActs p.stream [p.files.rebuilt]
    have hok : reported p.stream [.printed p.stream "Ok\n"] = ["Ok\n"] := by
      simp [reported, Event.report?]
    rw [reported_append, hrep', List.nil_append, hok] at hrep
    refine ⟨events, ht, Or.inr ⟨image, rebuilt, hest, Or.inr hrep⟩, ?_, ?_, ?_⟩
    · rw [hrep]
      exact ⟨fun _ => ⟨_, w', rfl⟩, fun _ => List.mem_append_right _ (List.mem_singleton.2 rfl)⟩
    · rintro v w'' h
      cases h
      exact ⟨hest, hrep, hsame, by simp [Verdict.ok, hsame]⟩
    · intro image' rebuilt'
      constructor
      · rintro ⟨w'', h⟩
        cases h
      · rintro ⟨-, hrep'', -⟩
        have hl := congrArg List.length (hrep.symm.trans hrep'')
        simp [lines] at hl

end Pipeline
end FirmwareAudit
