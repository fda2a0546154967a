import FirmwareAudit.Proofs.Leftovers
import Mathlib.Data.List.Induction

/-! # Sessions with one pipeline

What a pipeline can do may be done in any order, and between two operations the machine may become
any other. Each operation puts files behind the pending ones and lets some go; nothing else happens
to the list.
-/
namespace FirmwareAudit
namespace Pipeline

variable (p : Pipeline)

inductive Operation
  | disassemble
  | postprocess
  | reassemble
  | convert
  | verify
  | run
  | produced (paths : List Path)
  | removeTemps (paths : List Path)
  | discardPending
  deriving DecidableEq

namespace Operation

/-- What is there once the operation is over, whether or not it stopped early. -/
def after (w : Workplace (List Path)) : Operation → Workplace (List Path)
  | disassemble => endState (p.disassemble w)
  | postprocess => endState (p.postprocess w)
  | reassemble => endState (p.reassemble w)
  | convert => endState (p.convert w)
  | verify => endState (p.verify w)
  | run => endState (p.run w)
  | produced paths => endState (Pipeline.produced paths w)
  | removeTemps paths => endState (p.removeTemps paths w)
  | discardPending => endState (p.discardPending w)

/-- The stages whose tools the operation runs. -/
def stages : Operation → List Stage
  | disassemble => [p.disassembly]
  | postprocess => [p.postprocessing]
  | reassemble => [p.reassembly]
  | convert => [p.conversion]
  | run => p.work
  | _ => []

/-- The files that the caller gives to be recorded. -/
def handed : Operation → List Path
  | produced paths => paths
  | _ => []

/-- The files that the operation records in the course of some events. -/
def recorded (op : Operation) (events : List Event) : List Path :=
  op.handed ++ outputsOf (op.stages p) (runsOf events)

end Operation

/-! ## Files recorded and let go -/

section Lists
variable {pending made gone : List Path} {f g : Path}

theorem nodup_foldl_addPending (h : pending.Nodup) (made : List Path) :
    (made.foldl addPending pending).Nodup := by
  induction made generalizing pending with
  | nil => exact h
  | cons g rest ih => exact ih (nodup_addPending h g)

/-- Recording puts files behind those that are pending. -/
theorem exists_recorded (pending made : List Path) :
    ∃ new, made.foldl addPending pending = pending ++ new ∧ new.Sublist made ∧
      ∀ f ∈ new, f ∉ pending := by
  induction made generalizing pending with
  | nil => exact ⟨[], (List.append_nil _).symm, .slnil, nofun⟩
  | cons g rest ih =>
    rw [List.foldl_cons]
    by_cases hg : g ∈ pending
    · obtain ⟨new, he, hsub, hnew⟩ := ih pending
      rw [addPending, if_pos hg]
      exact ⟨new, he, hsub.cons g, hnew⟩
    · obtain ⟨new, he, hsub, hnew⟩ := ih (pending ++ [g])
      rw [addPending, if_neg hg]
      refine ⟨g :: new, by rw [he, List.append_assoc]; rfl, hsub.cons_cons g, ?_⟩
      intro f hf
      rcases List.mem_cons.1 hf with rfl | hf
      · exact hg
      · exact fun h => hnew f hf (List.mem_append_left _ h)

theorem without_sublist (pending gone : List Path) : (without pending gone).Sublist pending := by
  unfold without
  induction gone generalizing pending with
  | nil => exact List.Sublist.refl _
  | cons g rest ih => exact (ih (pending.erase g)).trans List.erase_sublist

theorem without_append (pending gone gone' : List Path) :
    without pending (gone ++ gone') = without (without pending gone) gone' :=
  List.foldl_append

theorem addPending_erase (h : f ≠ g) :
    addPending (pending.erase g) f = (addPending pending f).erase g := by
  have hmem : f ∈ pending.erase g ↔ f ∈ pending := List.mem_erase_of_ne h
  unfold addPending
  by_cases hf : f ∈ pending
  · rw [if_pos (hmem.2 hf), if_pos hf]
  · rw [if_neg (mt hmem.1 hf), if_neg hf, List.erase_append]
    split
    · rfl
    · next hg =>
      have hs : [f].erase g = [f] := List.erase_of_not_mem (by simpa using h.symm)
      rw [List.erase_of_not_mem hg, hs]

theorem addPending_without (hf : f ∉ gone) :
    addPending (without pending gone) f = without (addPending pending f) gone := by
  unfold without
  induction gone generalizing pending with
  | nil => rfl
  | cons g rest ih =>
    rw [List.mem_cons, not_or] at hf
    rw [List.foldl_cons, List.foldl_cons, ih hf.2, addPending_erase hf.1]

/-- Files may be recorded before others are let go or after it. -/
theorem foldl_without (h : ∀ f ∈ made, f ∉ gone) :
    made.foldl addPending (without pending gone) = without (made.foldl addPending pending) gone := by
  induction made generalizing pending with
  | nil => rfl
  | cons f rest ih =>
    rw [List.forall_mem_cons] at h
    rw [List.foldl_cons, List.foldl_cons, addPending_without h.1, ih h.2]

end Lists

/-- The acts hold a removal of the file that succeeded, or an attempt on it after an abort. -/
def Released (es : List Event) (f : Path) : Prop :=
  p.plan.keepTemps = false ∧
    (removalActs f <:+: es ∨ ∃ failure, discardActs (f, failure) <:+: es)

theorem Released.mono {p : Pipeline} {es fs : List Event} {f : Path} (h : p.Released es f)
    (hes : es <:+: fs) : p.Released fs f := by
  obtain ⟨hkeep, h | ⟨failure, h⟩⟩ := h
  · exact ⟨hkeep, Or.inl (h.trans hes)⟩
  · exact ⟨hkeep, Or.inr ⟨failure, h.trans hes⟩⟩

theorem infix_flatMap {α β : Type} {a : α} {as : List α} (acts : α → List β) (h : a ∈ as) :
    acts a <:+: as.flatMap acts := by
  rw [List.flatMap_def]
  exact List.infix_of_mem_flatten (List.mem_map_of_mem h)

/-- With the acts `es` the files `made` were recorded and the files `gone` let go, each for a
reason. -/
structure Accounts (made gone : List Path) (es : List Event) (w w' : Workplace (List Path)) :
    Prop where
  own : w'.own = without (made.foldl addPending w.own) gone
  adds : w.machine.Adds es w'.machine
  released : ∀ f ∈ gone, p.Released es f

namespace Accounts
variable {p} {made made' gone gone' : List Path} {es es' : List Event}
  {w w' w'' : Workplace (List Path)}

/-- Nothing was recorded or let go. -/
theorem idle {m : Machine} (h : w.machine.Adds es m) : p.Accounts [] [] es w ⟨m, w.own⟩ :=
  ⟨rfl, h, nofun⟩

theorem trans (h : p.Accounts made gone es w w') (h' : p.Accounts made' gone' es' w' w'')
    (hmade : ∀ f ∈ made', f ∉ gone) :
    p.Accounts (made ++ made') (gone ++ gone') (es ++ es') w w'' where
  own := by
    rw [h'.own, h.own, foldl_without hmade, ← List.foldl_append, without_append]
  adds := h.adds.trans h'.adds
  released := by
    intro f hf
    rcases List.mem_append.1 hf with hf | hf
    · exact (h.released f hf).mono (List.prefix_append _ _).isInfix
    · exact (h'.released f hf).mono (List.suffix_append _ _).isInfix

theorem nodup (h : p.Accounts made gone es w w') (hw : w.own.Nodup) : w'.own.Nodup := by
  rw [h.own]
  exact (without_sublist _ _).nodup (nodup_foldl_addPending hw made)

theorem mem (h : p.Accounts made gone es w w') {f : Path} (hf : f ∈ w'.own) :
    f ∈ w.own ∨ f ∈ made := by
  rw [h.own] at hf
  exact mem_foldl_addPending.1 ((without_sublist _ _).subset hf)

/-- Of the pending files some stay, in their order, and behind them come new ones. -/
theorem ordered (h : p.Accounts made gone es w w') :
    ∃ stay new, w'.own = stay ++ new ∧ stay.Sublist w.own ∧ new.Sublist made ∧
      ∀ f ∈ new, f ∉ w.own := by
  obtain ⟨added, he, hsub, hadded⟩ := exists_recorded w.own made
  have hs := without_sublist (w.own ++ added) gone
  obtain ⟨stay, new, hown, hstay, hnew⟩ := List.sublist_append_iff.1 hs
  refine ⟨stay, new, ?_, hstay, hnew.trans hsub, fun f hf => hadded f (hnew.subset hf)⟩
  rw [h.own, he, hown]

theorem left (h : p.Accounts made gone es w w') {f : Path} (hf : f ∈ w.own ∨ f ∈ made)
    (hgone : f ∉ w'.own) : p.Released es f := by
  by_contra hnot
  refine hgone ?_
  rw [h.own]
  exact mem_without (mem_foldl_addPending.2 hf) fun hg => hnot (h.released f hg)

end Accounts

/-! ## The account of each operation -/

theorem released_of_mem {paths : List Path} {f : Path} (hkeep : p.plan.keepTemps = false)
    (hf : f ∈ paths) : p.Released (paths.flatMap removalActs) f :=
  ⟨hkeep, Or.inl (infix_flatMap removalActs hf)⟩

/-- The files that are let go where all the given ones can be removed. -/
def goneOf (paths : List Path) : List Path := if p.plan.keepTemps then [] else paths

theorem released_goneOf {paths : List Path} : ∀ f ∈ p.goneOf paths,
    p.Released (p.removedActs paths) f := by
  unfold goneOf removedActs
  cases hk : p.plan.keepTemps with
  | true => exact nofun
  | false => exact fun f hf => p.released_of_mem hk hf

theorem without_goneOf (pending paths : List Path) :
    without pending (p.goneOf paths) =
      if p.plan.keepTemps then pending else without pending paths := by
  unfold goneOf
  split <;> rfl

theorem attempts_removalActs (paths : List Path) : attempts (paths.flatMap removalActs) = [] :=
  attempts_flatMap (fun _ => rfl) paths

theorem removeTemps_accounts (paths : List Path) (w : Workplace (List Path)) :
    ∃ gone es, p.Accounts [] gone es w (endState (p.removeTemps paths w)) ∧ attempts es = [] := by
  rcases p.removeTemps_cases paths w with ⟨m, hr, ha⟩ | h
  · rw [hr]
    refine ⟨p.goneOf paths, _, ⟨?_, ha, p.released_goneOf⟩, ?_⟩
    · exact (p.without_goneOf w.own paths).symm
    · unfold removedActs
      split
      · rfl
      · exact attempts_removalActs paths
  · obtain ⟨gone, path, rest, s, reason, m, hk, rfl, hr, -, ha⟩ := h
    rw [hr]
    refine ⟨gone, _, ⟨rfl, ha, fun f hf => ?_⟩, ?_⟩
    · exact (p.released_of_mem hk hf).mono (List.prefix_append _ _).isInfix
    · rw [attempts_append, attempts_removalActs]
      rfl

theorem discardPending_accounts (w : Workplace (List Path)) :
    ∃ gone es, p.Accounts [] gone es w (endState (p.discardPending w)) ∧ attempts es = [] := by
  unfold discardPending
  cases hk : p.plan.keepTemps with
  | true => exact ⟨[], [], .idle (Machine.Adds.refl _), rfl⟩
  | false =>
    have hreleased : ∀ tried : List (Path × Option SystemError), ∀ f ∈ tried.map Prod.fst,
        p.Released (tried.flatMap discardActs) f := by
      intro tried f hf
      obtain ⟨t, ht, rfl⟩ := List.mem_map.1 hf
      exact ⟨hk, Or.inr ⟨t.2, infix_flatMap discardActs ht⟩⟩
    rw [if_neg (by decide), bind_of_ok (get_apply w)]
    rcases discardEach_cases w.own w with ⟨tried, m, ht, hd, ha⟩ | h
    · rw [hd]
      refine ⟨tried.map Prod.fst, _, ⟨?_, ha, hreleased tried⟩, attempts_discardActs tried⟩
      rw [ht]
      rfl
    · obtain ⟨tried, path, rest, m, -, -, hd, ha⟩ := h
      rw [hd]
      refine ⟨tried.map Prod.fst, _, ⟨rfl, ha, fun f hf => ?_⟩, ?_⟩
      · exact (hreleased tried f hf).mono (List.prefix_append _ _).isInfix
      · rw [attempts_append, attempts_discardActs]
        rfl

theorem produced_accounts (paths : List Path) (w : Workplace (List Path)) :
    p.Accounts paths [] [] w (endState (produced paths w)) :=
  ⟨rfl, Machine.Adds.refl _, nofun⟩

/-- However a stage ends: it lets go only files that it uses, and has recorded what it makes exactly
if its tool exited with status 0. -/
theorem StageEnd.accounts {p : Pipeline} {s : Stage} {w : Workplace (List Path)}
    {r : EStateM.Result Stop (Workplace (List Path)) Unit} (h : p.StageEnd s w r) :
    ∃ made gone es runs, p.Accounts made gone es w (endState r) ∧ runsOf es = runs ∧
      ((made = [] ∧ ∀ run ∈ runs, run.ending ≠ .exited 0) ∨
        ∃ run, runs = [run] ∧ p.Completed s run ∧ made = s.makes) := by
  cases h with
  | missed stop es m hblame hmiss hadds =>
    exact ⟨[], [], es, _, .idle hadds, rfl, Or.inl ⟨rfl, hmiss.ending_ne⟩⟩
  | stuck run gone path rest stop reason m hrun hkeep huses hblame hadds =>
    obtain ⟨-, -, hruns⟩ := reads_stuckActs .output s run gone path reason
    refine ⟨s.makes, gone, _, _, ⟨rfl, hadds, ?_⟩, hruns, Or.inr ⟨run, rfl, hrun, rfl⟩⟩
    intro f hf
    refine (p.released_of_mem hkeep hf).mono ?_
    exact ⟨startActs s run.command ++ [.ran run], failedRemovalActs path reason, by simp⟩
  | done run m hrun hnul hadds =>
    obtain ⟨-, -, -, hruns⟩ := p.reads_doneActs .output (.cons hrun .nil)
    rw [doneActs, List.zipWith_cons_cons, List.zipWith_nil_left, List.flatten_cons,
      List.flatten_nil, List.append_nil] at hruns
    refine ⟨s.makes, p.goneOf s.uses, _, _, ⟨?_, hadds, ?_⟩, hruns,
      Or.inr ⟨run, rfl, hrun, rfl⟩⟩
    · exact (p.without_goneOf _ _).symm
    · intro f hf
      refine (p.released_goneOf f hf).mono ?_
      exact ⟨startActs s run.command ++ [.ran run], [], by simp⟩

/-- No stage makes a file that a stage before it uses up. -/
theorem work_pairwise : p.work.Pairwise fun s t => ∀ f ∈ t.makes, f ∉ s.uses := by
  have hn := p.files_nodup
  simp only [List.nodup_cons, List.mem_cons, List.not_mem_nil, or_false, not_or] at hn
  simp [work, disassembly, postprocessing, reassembly, conversion, hn, Ne.symm]

theorem leavesAll_eq {ss : List Stage}
    (h : ss.Pairwise fun s t => ∀ f ∈ t.makes, f ∉ s.uses) (pending : List Path) :
    p.leavesAll ss pending =
      without ((ss.flatMap (·.makes)).foldl addPending pending) (p.goneOf (ss.flatMap (·.uses))) := by
  induction h generalizing pending with
  | nil =>
    rw [without_goneOf]
    split <;> rfl
  | @cons s rest hs _ ih =>
    have hmade : ∀ f ∈ rest.flatMap (·.makes), f ∉ s.uses := by
      intro f hf
      obtain ⟨t, ht, hf⟩ := List.mem_flatMap.1 hf
      exact hs t ht f hf
    have hcons : p.leavesAll (s :: rest) pending = p.leavesAll rest (p.leaves s pending) := rfl
    rw [hcons, ih, without_goneOf, without_goneOf, List.flatMap_cons, List.flatMap_cons,
      List.foldl_append, leaves, recorded]
    split
    · rfl
    · rw [foldl_without hmade, without_append]

theorem doneActs_accounts {ss : List Stage} {runs : List Run} {w : Workplace (List Path)}
    {m : Machine} (hss : ss.Pairwise fun s t => ∀ f ∈ t.makes, f ∉ s.uses)
    (hruns : List.Forall₂ p.Completed ss runs) (hadds : w.machine.Adds (p.doneActs ss runs) m) :
    p.Accounts (ss.flatMap (·.makes)) (p.goneOf (ss.flatMap (·.uses))) (p.doneActs ss runs) w
      ⟨m, p.leavesAll ss w.own⟩ where
  own := p.leavesAll_eq hss w.own
  adds := hadds
  released := by
    clear hss hadds
    unfold goneOf
    cases hk : p.plan.keepTemps with
    | true => exact nofun
    | false =>
      induction hruns with
      | nil => exact nofun
      | @cons s run rest runs _ _ ih =>
        have hd : p.doneActs (s :: rest) (run :: runs) =
            (startActs s run.command ++ .ran run :: s.uses.flatMap removalActs) ++
              p.doneActs rest runs := by
          simp [doneActs, removedActs, hk]
        intro f hf
        rw [hd]
        rcases List.mem_append.1 (List.flatMap_cons ▸ hf) with hf | hf
        · refine (p.released_of_mem hk hf).mono ?_
          exact ⟨startActs s run.command ++ [.ran run], p.doneActs rest runs, by simp⟩
        · exact (ih f hf).mono (List.suffix_append _ _).isInfix

/-- However the checksums turn out: nothing is recorded. -/
theorem VerifyEnd.accounts {p : Pipeline} {w : Workplace (List Path)}
    {r : EStateM.Result Stop (Workplace (List Path)) Verdict} (h : p.VerifyEnd w r) :
    ∃ gone es, p.Accounts [] gone es w (endState r) := by
  have hspared : ∀ (acts tail : List Event) {m : Machine},
      w.machine.Adds (acts ++ p.removedActs [p.files.rebuilt] ++ tail) m →
      ∃ gone es, p.Accounts [] gone es w ⟨m, p.spared w.own⟩ := by
    intro acts tail m hadds
    refine ⟨p.goneOf [p.files.rebuilt], _, (p.without_goneOf _ _).symm, hadds, fun f hf => ?_⟩
    exact (p.released_goneOf f hf).mono ⟨acts, tail, rfl⟩
  cases h with
  | missed stop es m hblame hquiet hadds => exact ⟨[], es, .idle hadds⟩
  | stuck image rebuilt run₁ run₂ stop reason m hmeas hkeep hblame hadds =>
    exact ⟨[], _, .idle hadds⟩
  | unseen image rebuilt run₁ run₂ stop m hmeas hstop hscan hadds =>
    exact hspared _ [] (by rwa [List.append_nil])
  | differs image rebuilt run₁ run₂ m hmeas hdiff hscan hadds =>
    exact hspared _ [] (by rwa [List.append_nil])
  | agrees image rebuilt run₁ run₂ here m hmeas hsame hadds => exact hspared _ _ hadds

theorem StagesEnd.accounts {p : Pipeline} {w : Workplace (List Path)}
    {r : EStateM.Result Stop (Workplace (List Path)) Verdict} (h : p.StagesEnd w r) :
    ∃ gone es, p.Accounts (outputsOf p.work (runsOf es)) gone es w (endState r) := by
  have hwork := p.work_pairwise
  cases h with
  | broken before s rest runs m stop w' hsplit hruns hnul hadds hend =>
    rw [hsplit, List.pairwise_append] at hwork
    obtain ⟨hbefore, -, hcross⟩ := hwork
    have hdone := p.doneActs_accounts hbefore hruns hadds
    obtain ⟨-, -, -, hr⟩ := p.reads_doneActs .output hruns
    obtain ⟨made, gone, es, runs', hstage, hr', hmade⟩ := hend.accounts
    have hfresh : ∀ f ∈ s.makes, f ∉ p.goneOf (before.flatMap (·.uses)) := by
      intro f hf hgone
      have hmem : f ∈ before.flatMap (·.uses) := by
        unfold goneOf at hgone
        split at hgone
        · exact absurd hgone List.not_mem_nil
        · exact hgone
      obtain ⟨t, ht, hu⟩ := List.mem_flatMap.1 hmem
      exact hcross t ht s List.mem_cons_self f hf hu
    rcases hmade with ⟨rfl, hends⟩ | ⟨run, rfl, hrun, rfl⟩
    · have hout : outputsOf p.work (runsOf (p.doneActs before runs ++ es)) =
          before.flatMap (·.makes) ++ [] := by
        rw [runsOf_append, hr, hr', hsplit, p.outputsOf_completed hruns (Or.inr hends),
          List.append_nil]
      exact ⟨_, _, hout ▸ hdone.trans hstage nofun⟩
    · have hout : outputsOf p.work (runsOf (p.doneActs before runs ++ es)) =
          before.flatMap (·.makes) ++ s.makes := by
        have hsplit' : p.work = (before ++ [s]) ++ rest := by simp [hsplit]
        have hruns' := List.rel_append hruns (.cons hrun .nil)
        have hnone : ∀ r ∈ ([] : List Run), r.ending ≠ .exited 0 :=
          fun r hr => absurd hr List.not_mem_nil
        rw [runsOf_append, hr, hr', hsplit', ← List.append_nil (runs ++ [run]),
          p.outputsOf_completed hruns' (Or.inr hnone), List.flatMap_append, List.flatMap_singleton]
      exact ⟨_, _, hout ▸ hdone.trans hstage hfresh⟩
  | verified runs m r hruns hnul hadds hend =>
    have hdone := p.doneActs_accounts hwork hruns hadds
    obtain ⟨-, -, -, hr⟩ := p.reads_doneActs .output hruns
    obtain ⟨gone, es, hverify⟩ := hend.accounts
    have hout : outputsOf p.work (runsOf (p.doneActs p.work runs ++ es)) =
        p.work.flatMap (·.makes) ++ [] := by
      rw [runsOf_append, hr, ← List.append_nil p.work,
        p.outputsOf_completed hruns (Or.inl rfl), List.append_nil, List.append_nil]
    exact ⟨_, _, hout ▸ hdone.trans hverify nofun⟩

/-- A run leaves what its stages leave, or what is left once the pending files are discarded too. -/
theorem endState_run (w : Workplace (List Path)) :
    endState (p.run w) = endState (p.stages w) ∨
      endState (p.run w) = endState (p.discardPending (endState (p.stages w))) := by
  cases hs : p.stages w with
  | ok v w' =>
    rw [p.run_of_ok hs]
    exact Or.inl rfl
  | error s w' =>
    by_cases ha : s.Aborts
    · refine Or.inr ?_
      rw [p.run_of_abort hs ha]
      change _ = endState (p.discardPending w')
      cases hd : p.discardPending w' with
      | ok u w'' =>
        rw [bind_of_ok hd]
        rfl
      | error s' w'' =>
        rw [bind_of_error hd]
        rfl
    · rw [p.run_of_error hs ha]
      exact Or.inl rfl

theorem run_accounts (w : Workplace (List Path)) :
    ∃ gone es, p.Accounts (outputsOf p.work (runsOf es)) gone es w (endState (p.run w)) := by
  obtain ⟨gone, es, h⟩ := (p.stages_ends w).accounts
  rcases p.endState_run w with hr | hr
  · rw [hr]
    exact ⟨gone, es, h⟩
  · obtain ⟨gone', es', h', hnone⟩ := p.discardPending_accounts (endState (p.stages w))
    have hout : outputsOf p.work (runsOf (es ++ es')) = outputsOf p.work (runsOf es) ++ [] := by
      rw [runsOf_append, runsOf_of_attempts hnone, List.append_nil, List.append_nil]
    rw [hr]
    exact ⟨_, _, hout ▸ h.trans h' nofun⟩

theorem perform_accounts (s : Stage) (w : Workplace (List Path)) :
    ∃ gone es, p.Accounts (outputsOf [s] (runsOf es)) gone es w (endState (p.perform s w)) := by
  obtain ⟨made, gone, es, runs, h, hr, hmade⟩ := (p.perform_ends s w).accounts
  refine ⟨gone, es, ?_⟩
  rcases hmade with ⟨rfl, hends⟩ | ⟨run, rfl, hrun, rfl⟩
  · have hnone : outputsOf ([] ++ [s]) ([] ++ runs) = [] :=
      p.outputsOf_completed .nil (Or.inr hends)
    rwa [hr, ← List.nil_append [s], ← List.nil_append runs, hnone]
  · have hmade : outputsOf ([s] ++ []) ([run] ++ []) = [s].flatMap (·.makes) :=
      p.outputsOf_completed (.cons hrun .nil) (Or.inl rfl)
    rw [List.flatMap_singleton] at hmade
    rwa [hr, ← List.append_nil [s], ← List.append_nil [run], hmade]

theorem Operation.accounts (op : Operation) (w : Workplace (List Path)) :
    ∃ gone es, p.Accounts (op.recorded p es) gone es w (op.after p w) := by
  cases op with
  | disassemble =>
    have h := p.perform_accounts p.disassembly w
    rwa [← disassemble_eq] at h
  | postprocess => exact p.perform_accounts p.postprocessing w
  | reassemble => exact p.perform_accounts p.reassembly w
  | convert => exact p.perform_accounts p.conversion w
  | verify => exact (p.verify_ends w).accounts
  | run => exact p.run_accounts w
  | produced paths =>
    have hr : (Operation.produced paths).recorded p [] = paths := List.append_nil paths
    exact ⟨[], [], hr.symm ▸ p.produced_accounts paths w⟩
  | removeTemps paths =>
    obtain ⟨gone, es, h, -⟩ := p.removeTemps_accounts paths w
    exact ⟨gone, es, h⟩
  | discardPending =>
    obtain ⟨gone, es, h, -⟩ := p.discardPending_accounts w
    exact ⟨gone, es, h⟩

/-! ## Whole sessions -/

/-- What is pending after operations, each with the machine that it starts on. -/
def pendingAfter (session : List (Machine × Operation)) : List Path :=
  session.foldl (fun own t => (t.2.after p ⟨t.1, own⟩).own) []

theorem pendingAfter_concat (session : List (Machine × Operation)) (m : Machine) (op : Operation) :
    p.pendingAfter (session ++ [(m, op)]) = (op.after p ⟨m, p.pendingAfter session⟩).own :=
  List.foldl_concat ..

theorem mem_files_of_makes {ss : List Stage} (h : ∀ s ∈ ss, s ∈ p.work) {runs : List Run}
    {f : Path} (hf : f ∈ outputsOf ss runs) : f ∈ p.files.all := by
  have hmakes : ∀ s ∈ p.work, ∀ f ∈ s.makes, f ∈ p.files.all := by
    simp [work, disassembly, postprocessing, reassembly, conversion, Artifacts.all]
  obtain ⟨t, ht, hf⟩ := List.mem_flatMap.1 hf
  have hmem : t.1 ∈ ss := (List.of_mem_zip (List.mem_filter.1 ht).1).1
  exact hmakes t.1 (h t.1 hmem) f hf

/-- Operations record artifacts, and what the caller hands in. -/
theorem Operation.mem_recorded {op : Operation} {events : List Event} {f : Path}
    (hf : f ∈ op.recorded p events) : f ∈ p.files.all ∨ f ∈ op.handed := by
  have hstages : ∀ s ∈ op.stages p, s ∈ p.work := by
    cases op <;> simp [Operation.stages, work]
  rcases List.mem_append.1 hf with hf | hf
  · exact Or.inr hf
  · exact Or.inl (p.mem_files_of_makes hstages hf)

theorem pendingAfter_nodup (session : List (Machine × Operation)) :
    (p.pendingAfter session).Nodup := by
  induction session using List.reverseRecOn with
  | nil => exact List.nodup_nil
  | append_singleton session t ih =>
    obtain ⟨gone, es, h⟩ := t.2.accounts p ⟨t.1, p.pendingAfter session⟩
    rw [pendingAfter_concat]
    exact h.nodup ih

theorem mem_of_mem_pendingAfter {session : List (Machine × Operation)} {f : Path}
    (hf : f ∈ p.pendingAfter session) :
    f ∈ p.files.all ∨ f ∈ session.flatMap (·.2.handed) := by
  induction session using List.reverseRecOn with
  | nil => cases hf
  | append_singleton session t ih =>
    obtain ⟨gone, es, h⟩ := t.2.accounts p ⟨t.1, p.pendingAfter session⟩
    rw [pendingAfter_concat] at hf
    rw [List.flatMap_append, List.flatMap_singleton, List.mem_append]
    rcases h.mem hf with hf | hf
    · exact (ih hf).imp_right Or.inl
    · exact (Operation.mem_recorded p hf).imp_right Or.inr

/-- After any session the pending files are distinct, and each is an artifact or was handed in. Any
further operation, on any machine, keeps their order and puts new ones behind them: files that it
recorded. What is no longer pending was removed, or tried after an abort. -/
theorem session_pending (session : List (Machine × Operation)) :
    (p.pendingAfter session).Nodup ∧
    (∀ f ∈ p.pendingAfter session, f ∈ p.files.all ∨ f ∈ session.flatMap (·.2.handed)) ∧
    ∀ (m : Machine) (op : Operation), ∃ events stay new,
      (op.after p ⟨m, p.pendingAfter session⟩).machine.trace = m.trace ++ events ∧
      p.pendingAfter (session ++ [(m, op)]) = stay ++ new ∧
      stay.Sublist (p.pendingAfter session) ∧ new.Sublist (op.recorded p events) ∧
      (∀ f ∈ new, f ∉ p.pendingAfter session) ∧
      ∀ f, f ∈ p.pendingAfter session ∨ f ∈ op.recorded p events →
        f ∉ p.pendingAfter (session ++ [(m, op)]) → p.Released (acts events) f := by
  refine ⟨p.pendingAfter_nodup session, fun f hf => p.mem_of_mem_pendingAfter hf, ?_⟩
  intro m op
  obtain ⟨gone, es, h⟩ := op.accounts p ⟨m, p.pendingAfter session⟩
  obtain ⟨stay, new, hown, hstay, hnew, hfresh⟩ := h.ordered
  obtain ⟨events, htrace, rfl⟩ := h.adds
  have hrec : op.recorded p (acts events) = op.recorded p events := by
    simp only [Operation.recorded, runsOf_acts]
  rw [hrec] at h hnew
  rw [pendingAfter_concat]
  exact ⟨events, stay, new, htrace, hown, hstay, hnew, hfresh, fun f hf hgone => h.left hf hgone⟩

end Pipeline

end FirmwareAudit
