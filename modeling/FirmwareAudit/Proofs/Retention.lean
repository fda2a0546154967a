import FirmwareAudit.Proofs.Sessions
import FirmwareAudit.Proofs.StaleFiles

/-! # What is kept

Where the plan keeps temporary files, nothing that a pipeline does removes one, in whatever order its
operations come and however they end. Pending is all that was recorded, and a verdict lists the
artifacts that are there.
-/
namespace FirmwareAudit

namespace Stop

theorem Blames.ne_cleanup {stage : String} {s : Stop} (h : s.Blames stage) (path : Path)
    (cause : SystemError) : s ≠ .fault (.cleanup path cause) := by
  intro hs
  obtain ⟨c, hc, -⟩ := h _ hs
  cases hc

theorem BlamesChecksum.ne_cleanup {image : Path} {s : Stop} (h : s.BlamesChecksum image)
    (path : Path) (cause : SystemError) : s ≠ .fault (.cleanup path cause) := by
  intro hs
  obtain ⟨c, hc⟩ := h _ hs
  cases hc

theorem IsCallFault.ne_cleanup {s : Stop} (h : s.IsCallFault) (path : Path)
    (cause : SystemError) : s ≠ .fault (.cleanup path cause) := by
  rintro rfl
  rcases h with h | ⟨e, h⟩ <;> cases h

end Stop

/-- Whether there is something at a path that can be looked at. -/
def Machine.holds (m : Machine) (path : Path) : Bool :=
  match m.tree.probe m.cwd path.toString with
  | .ok n => n.isSome
  | .error _ => false

namespace Pipeline

variable (p : Pipeline)

/-! ## What an operation comes to -/

namespace Operation

/-- Why the operation stopped, if it did. -/
def stop? (w : Workplace (List Path)) : Operation → Option Stop
  | disassemble => failure? (p.disassemble w)
  | postprocess => failure? (p.postprocess w)
  | reassemble => failure? (p.reassemble w)
  | convert => failure? (p.convert w)
  | verify => failure? (p.verify w)
  | run => failure? (p.run w)
  | produced paths => failure? (Pipeline.produced paths w)
  | removeTemps paths => failure? (p.removeTemps paths w)
  | discardPending => failure? (p.discardPending w)

/-- What the operation adds to the trace. -/
def events (w : Workplace (List Path)) (op : Operation) : List Event :=
  (op.after p w).machine.trace.drop w.machine.trace.length

end Operation

/-- All that a session records which starts with the given files pending, each time it does. -/
def recordedFrom : (pending : List Path) → List (Machine × Operation) → List Path
  | _, [] => []
  | pending, (m, op) :: rest =>
    op.recorded p (op.events p ⟨m, pending⟩) ++ recordedFrom (op.after p ⟨m, pending⟩).own rest

/-- All that a session records, in order and with repetitions. -/
def recordedIn (session : List (Machine × Operation)) : List Path := p.recordedFrom [] session

theorem recordedFrom_concat (pending : List Path) (session : List (Machine × Operation))
    (m : Machine) (op : Operation) :
    let left := session.foldl (fun own t => (t.2.after p ⟨t.1, own⟩).own) pending
    p.recordedFrom pending (session ++ [(m, op)]) =
      p.recordedFrom pending session ++ op.recorded p (op.events p ⟨m, left⟩) := by
  induction session generalizing pending with
  | nil => exact List.append_nil _
  | cons t rest ih =>
    obtain ⟨m', op'⟩ := t
    have hrest := ih (op'.after p ⟨m', pending⟩).own
    simp only [List.cons_append, recordedFrom, List.append_assoc]
    exact congrArg _ hrest

theorem recordedIn_concat (session : List (Machine × Operation)) (m : Machine) (op : Operation) :
    p.recordedIn (session ++ [(m, op)]) =
      p.recordedIn session ++ op.recorded p (op.events p ⟨m, p.pendingAfter session⟩) :=
  p.recordedFrom_concat [] session m op

/-- Files that are recorded one after the other stand in the order of their first times. -/
theorem foldl_addPending_eq_eraseDups (made : List Path) :
    made.foldl addPending [] = made.eraseDups := by
  induction made using List.reverseRecOn with
  | nil => rfl
  | append_singleton made f ih =>
    rw [List.foldl_concat, ih, List.eraseDups_append, addPending]
    by_cases hf : f ∈ made
    · simp [List.removeAll, hf]
    · simp [List.removeAll, hf, List.eraseDups_cons]

/-! ## What a verdict says is kept -/

theorem existing_eq_ok {paths here : List Path} {m m' : Machine}
    (h : existing paths m = .ok here m') : m' = m ∧ here = paths.filter m.holds := by
  induction paths generalizing here m' with
  | nil =>
    cases h
    exact ⟨rfl, rfl⟩
  | cons path rest ih =>
    unfold existing at h
    obtain ⟨b, m₁, hp, h⟩ := bind_eq_ok.1 h
    obtain ⟨others, m₂, hrest, h⟩ := bind_eq_ok.1 h
    rcases pathExists_cases path m with ⟨n, hn, hp'⟩ | ⟨s, -, -, hp'⟩
    · rw [hp'] at hp
      cases hp
      obtain ⟨hm, rfl⟩ := ih hrest
      cases h
      have hholds : m.holds path = n.isSome := by rw [Machine.holds, hn]
      refine ⟨hm, ?_⟩
      rw [List.filter_cons, hholds]
    · rw [hp'] at hp
      cases hp

theorem holds_printLine {stream : Stream} {text : String} {u : Unit} {m m' : Machine}
    (h : printLine stream text m = .ok u m') : m'.holds = m.holds := by
  obtain ⟨-, rfl⟩ := EStateM.Result.ok.inj h
  rfl

/-- A verdict says what the scan found; what is printed behind it changes no file. -/
theorem kept_of_judge {image rebuilt : Checksum} {v : Verdict} {m m' : Machine}
    (h : p.judge image rebuilt m = .ok v m') :
    ∃ m₁, p.kept m = .ok v.kept m₁ ∧ m'.holds = m₁.holds := by
  unfold judge at h
  obtain ⟨here, m₁, hkept, h⟩ := bind_eq_ok.1 h
  split at h
  · obtain ⟨u, m₂, hprint, h⟩ := bind_eq_ok.1 h
    rw [pure_apply] at h
    obtain ⟨hv, rfl⟩ := EStateM.Result.ok.inj h
    rw [← hv]
    exact ⟨m₁, hkept, holds_printLine hprint⟩
  · cases h

theorem kept_of_verify {v : Verdict} {w w' : Workplace (List Path)}
    (hkeep : p.plan.keepTemps = true) (h : p.verify w = .ok v w') :
    v.kept = p.files.all.filter w'.machine.holds := by
  unfold verify at h
  obtain ⟨sums, w₁, -, h⟩ := bind_eq_ok.1 h
  obtain ⟨u, w₂, -, h⟩ := bind_eq_ok.1 h
  obtain ⟨m, hjudge, rfl⟩ := onMachine_eq_ok.1 h
  obtain ⟨m₁, hkept, hholds⟩ := p.kept_of_judge hjudge
  rw [kept, if_pos hkeep] at hkept
  obtain ⟨rfl, hv⟩ := existing_eq_ok hkept
  rw [hv, hholds]

/-! ## Nothing is removed -/

/-- On the way no removal was tried, and the end is not that one failed. -/
structure Spares {α : Type} (w : Workplace (List Path))
    (r : EStateM.Result Stop (Workplace (List Path)) α) : Prop where
  adds : ∃ es, w.machine.Adds es (endState r).machine ∧ removals es = []
  stop : ∀ path cause, failure? r ≠ some (.fault (.cleanup path cause))

theorem Spares.pure {α : Type} (a : α) (w : Workplace (List Path)) :
    Spares w (.ok a w : EStateM.Result Stop (Workplace (List Path)) α) :=
  ⟨⟨[], Machine.Adds.refl _, rfl⟩, nofun⟩

/-- What came before takes no removal along either. -/
theorem Spares.after {α : Type} {w : Workplace (List Path)} {m : Machine} {own : List Path}
    {es : List Event} {r : EStateM.Result Stop (Workplace (List Path)) α}
    (h : Spares ⟨m, own⟩ r) (hadds : w.machine.Adds es m) (hes : removals es = []) : Spares w r := by
  obtain ⟨fs, hadds', hfs⟩ := h.adds
  refine ⟨⟨es ++ fs, hadds.trans hadds', ?_⟩, h.stop⟩
  rw [removals_append, hes, hfs, List.append_nil]

section Keeping
variable {p} (hkeep : p.plan.keepTemps = true) {w : Workplace (List Path)}
include hkeep

theorem removeTemps_of_keep (paths : List Path) (w : Workplace (List Path)) :
    p.removeTemps paths w = .ok () w := by
  rw [removeTemps, if_pos hkeep, pure_apply]

theorem discardPending_of_keep (w : Workplace (List Path)) : p.discardPending w = .ok () w := by
  rw [discardPending, if_pos hkeep, pure_apply]

theorem removedActs_of_keep (paths : List Path) : p.removedActs paths = [] := if_pos hkeep

theorem StageEnd.spares {s : Stage} {r : EStateM.Result Stop (Workplace (List Path)) Unit}
    (h : p.StageEnd s w r) : Spares w r := by
  cases h with
  | missed stop es m hblame hmiss hadds =>
    refine ⟨⟨es, hadds, (hmiss.quiet .output).removals_eq⟩, fun path cause he => ?_⟩
    exact hblame.ne_cleanup path cause (Option.some.inj he)
  | stuck run gone path rest stop reason m hrun hfalse huses hblame hadds =>
    rw [hkeep] at hfalse
    cases hfalse
  | done run m hrun hnul hadds =>
    rw [removedActs_of_keep hkeep] at hadds
    exact ⟨⟨_, hadds, rfl⟩, nofun⟩

theorem VerifyEnd.spares {r : EStateM.Result Stop (Workplace (List Path)) Verdict}
    (h : p.VerifyEnd w r) : Spares w r := by
  cases h with
  | missed stop es m hblame hquiet hadds =>
    refine ⟨⟨es, hadds, hquiet.removals_eq⟩, fun path cause he => ?_⟩
    rcases hblame with hb | hb
    · exact hb.ne_cleanup path cause (Option.some.inj he)
    · exact hb.ne_cleanup path cause (Option.some.inj he)
  | stuck image rebuilt run₁ run₂ stop reason m hmeas hfalse hblame hadds =>
    rw [hkeep] at hfalse
    cases hfalse
  | unseen image rebuilt run₁ run₂ stop m hmeas hstop hscan hadds =>
    rw [removedActs_of_keep hkeep] at hadds
    exact ⟨⟨_, hadds, rfl⟩, fun path cause he => hstop.ne_cleanup path cause (Option.some.inj he)⟩
  | differs image rebuilt run₁ run₂ m hmeas hdiff hscan hadds =>
    rw [removedActs_of_keep hkeep] at hadds
    exact ⟨⟨_, hadds, rfl⟩, nofun⟩
  | agrees image rebuilt run₁ run₂ here m hmeas hsame hadds =>
    rw [removedActs_of_keep hkeep] at hadds
    exact ⟨⟨_, hadds, rfl⟩, nofun⟩

theorem performAll_spares (ss : List Stage) (w : Workplace (List Path)) :
    Spares w (p.performAll ss w) := by
  induction ss generalizing w with
  | nil => exact .pure () w
  | cons s rest ih =>
    have hend := (p.perform_ends s w).spares hkeep
    unfold performAll
    cases hs : p.perform s w with
    | error stop w' =>
      rw [hs] at hend
      rw [bind_of_error hs]
      exact hend
    | ok u w' =>
      rw [hs] at hend
      obtain ⟨es, hadds, hes⟩ := hend.adds
      rw [bind_of_ok hs]
      exact (ih w').after hadds hes

theorem stages_spares (w : Workplace (List Path)) : Spares w (p.stages w) := by
  have hperform := performAll_spares hkeep p.work w
  rw [stages_eq]
  cases hs : p.performAll p.work w with
  | error stop w' =>
    rw [hs] at hperform
    rw [bind_of_error hs]
    exact ⟨hperform.adds, hperform.stop⟩
  | ok u w' =>
    rw [hs] at hperform
    obtain ⟨es, hadds, hes⟩ := hperform.adds
    rw [bind_of_ok hs]
    exact ((p.verify_ends w').spares hkeep).after hadds hes

/-- A run is its stages: what the cleanup after an abort would do is nothing. -/
theorem run_of_keep (w : Workplace (List Path)) : p.run w = p.stages w := by
  cases hs : p.stages w with
  | ok v w' => exact p.run_of_ok hs
  | error s w' =>
    by_cases ha : s.Aborts
    · rw [p.run_of_abort hs ha, bind_of_ok (discardPending_of_keep hkeep w'), throw_apply]
    · exact p.run_of_error hs ha

theorem Operation.spares (op : Operation) (w : Workplace (List Path)) :
    (∃ es, w.machine.Adds es (op.after p w).machine ∧ removals es = []) ∧
      ∀ path cause, op.stop? p w ≠ some (.fault (.cleanup path cause)) := by
  have hspares : ∀ {α : Type} {r : EStateM.Result Stop (Workplace (List Path)) α}, Spares w r →
      (∃ es, w.machine.Adds es (endState r).machine ∧ removals es = []) ∧
        ∀ path cause, failure? r ≠ some (.fault (.cleanup path cause)) :=
    fun h => ⟨h.adds, h.stop⟩
  have hperform : ∀ s, Spares w (p.perform s w) := fun s => (p.perform_ends s w).spares hkeep
  cases op with
  | disassemble => exact hspares (p.disassemble_eq ▸ hperform p.disassembly)
  | postprocess => exact hspares (hperform p.postprocessing)
  | reassemble => exact hspares (hperform p.reassembly)
  | convert => exact hspares (hperform p.conversion)
  | verify => exact hspares ((p.verify_ends w).spares hkeep)
  | run => exact hspares (run_of_keep hkeep w ▸ stages_spares hkeep w)
  | produced paths => exact hspares ⟨⟨[], Machine.Adds.refl _, rfl⟩, nofun⟩
  | removeTemps paths => exact hspares (removeTemps_of_keep hkeep paths w ▸ .pure () w)
  | discardPending => exact hspares (discardPending_of_keep hkeep w ▸ .pure () w)

/-- Where nothing is let go, what was pending stays, with all that is recorded behind it. -/
theorem Accounts.own_of_keep {made gone : List Path} {es : List Event}
    {w' : Workplace (List Path)} (h : p.Accounts made gone es w w') :
    w'.own = made.foldl addPending w.own := by
  have hgone : gone = [] := by
    refine List.eq_nil_iff_forall_not_mem.2 fun f hf => ?_
    have hfalse := (h.released f hf).1
    rw [hkeep] at hfalse
    cases hfalse
  rw [h.own, hgone]
  rfl

theorem Operation.own_of_keep (op : Operation) (w : Workplace (List Path)) :
    (op.after p w).own = (op.recorded p (op.events p w)).foldl addPending w.own := by
  obtain ⟨gone, es, h⟩ := op.accounts p w
  obtain ⟨events, htrace, rfl⟩ := h.adds
  have hevents : op.events p w = events := by
    rw [Operation.events, htrace, List.drop_left]
  have hrec : op.recorded p (acts events) = op.recorded p events := by
    simp only [Operation.recorded, runsOf_acts]
  rw [hevents, ← hrec]
  exact h.own_of_keep hkeep

theorem pendingAfter_of_keep (session : List (Machine × Operation)) :
    p.pendingAfter session = (p.recordedIn session).eraseDups := by
  rw [← foldl_addPending_eq_eraseDups]
  induction session using List.reverseRecOn with
  | nil => rfl
  | append_singleton session t ih =>
    obtain ⟨m, op⟩ := t
    rw [pendingAfter_concat, op.own_of_keep hkeep, recordedIn_concat, List.foldl_append, ← ih]

/-- A session and one operation more, on any machine: the operation removes nothing and does not stop
because a file stayed; pending are all files recorded so far, in the order of their first times; a
verdict that the operation reaches lists the artifacts that are there. -/
theorem session_retention (session : List (Machine × Operation)) :
    p.pendingAfter session = (p.recordedIn session).eraseDups ∧
    (∀ (m : Machine) (op : Operation), ∃ events,
      (op.after p ⟨m, p.pendingAfter session⟩).machine.trace = m.trace ++ events ∧
      p.recordedIn (session ++ [(m, op)]) = p.recordedIn session ++ op.recorded p events ∧
      (∀ path failure, .unlinked path failure ∉ events) ∧
      ∀ path cause,
        op.stop? p ⟨m, p.pendingAfter session⟩ ≠ some (.fault (.cleanup path cause))) ∧
    ∀ (m : Machine) (v : Verdict) (w' : Workplace (List Path)),
      p.verify ⟨m, p.pendingAfter session⟩ = .ok v w' ∨
        p.run ⟨m, p.pendingAfter session⟩ = .ok v w' →
      v.kept = p.files.all.filter w'.machine.holds := by
  refine ⟨pendingAfter_of_keep hkeep session, fun m op => ?_, fun m v w' h => ?_⟩
  · obtain ⟨⟨es, ⟨events, htrace, rfl⟩, hnone⟩, hstop⟩ :=
      op.spares hkeep ⟨m, p.pendingAfter session⟩
    have hevents : op.events p ⟨m, p.pendingAfter session⟩ = events := by
      rw [Operation.events, htrace, List.drop_left]
    refine ⟨events, htrace, ?_, fun path failure he => ?_, hstop⟩
    · rw [recordedIn_concat, hevents]
    · have hmem := mem_removals.2 he
      rw [← removals_acts, hnone] at hmem
      exact absurd hmem List.not_mem_nil
  · rcases h with h | h
    · exact p.kept_of_verify hkeep h
    · rw [run_of_keep hkeep, stages_eq] at h
      obtain ⟨u, w, -, h⟩ := bind_eq_ok.1 h
      exact p.kept_of_verify hkeep h

end Keeping

/-- After a run that broke off at the postprocessor, a run that passes: the listing is still pending
in between, and all seven artifacts are there in the end. -/
theorem session_retention_workshop :
    savingAudit.plan.keepTemps = true ∧
      savingAudit.pendingAfter [(stuckListing 1, .run), (workshop, .discardPending)] =
        [savingAudit.files.listing] ∧
      ∃ v w', savingAudit.run ⟨workshop, [savingAudit.files.listing]⟩ = .ok v w' ∧
        v.kept = savingAudit.files.all := by
  have hpending : savingAudit.pendingAfter [(stuckListing 1, .run), (workshop, .discardPending)] =
      [savingAudit.files.listing] := by decide +kernel
  obtain ⟨-, -, hkept⟩ := session_retention (p := savingAudit) rfl
    [(stuckListing 1, .run), (workshop, .discardPending)]
  rw [hpending] at hkept
  have hends : endsWell (fun w => savingAudit.files.all.filter w.machine.holds = savingAudit.files.all)
      (savingAudit.run ⟨workshop, [savingAudit.files.listing]⟩) = true := by
    decide +kernel
  obtain ⟨v, hrun, hthere⟩ := eq_ok_of_endsWell hends
  exact ⟨rfl, hpending, v, _, hrun,
    (hkept workshop v _ (Or.inr hrun)).trans (of_decide_eq_true hthere)⟩

end Pipeline
end FirmwareAudit
