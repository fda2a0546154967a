import Mathlib.Data.Bool.AllAny
import FirmwareAudit.Proofs.Schedule

/-! # The last stage

The verdict is on two checksums. Once both are known they are reported, then the rebuilt image goes
or is looked for, and only then are they compared.
-/
namespace FirmwareAudit

namespace Digest

/-- Forty hexadecimal digits, the letters among them small. -/
def IsDigest (d : String) : Prop :=
  d.length = length ∧ ∀ c ∈ d.toList, c.isDigit = true ∨ 'a' ≤ c ∧ c ≤ 'f'

theorem isDigest_of_ofAnswer {answer d : String} (h : ofAnswer? answer = some d) : IsDigest d := by
  have hsmall : ∀ c ∈ digits, c.isDigit = true ∨ 'a' ≤ c ∧ c ≤ 'f' :=
    List.all_iff_forall_prop.1 (by decide)
  unfold ofAnswer? at h
  simp only at h
  split at h
  · next hd =>
    cases h
    simp only [Bool.and_eq_true, decide_eq_true_eq] at hd
    obtain ⟨hl, ha⟩ := hd
    refine ⟨by rw [String.length_ofList, hl], fun c hc => ?_⟩
    rw [String.toList_ofList] at hc
    exact hsmall c (List.contains_iff_mem.1 (List.all_eq_true.1 ha c hc))
  · cases h

end Digest

/-- A run of the checksum tool on a file whose answer holds the file's digest. -/
def Toolchain.Answered (tc : Toolchain) (c : Checksum) (run : Run) : Prop :=
  ∃ tool, tc.tool? Tool.checksum.role = some tool ∧ run.Completes [tool.program, c.path.toString] ∧
    Digest.ofAnswer? run.answer = some c.digest

namespace Pipeline

variable (p : Pipeline)

/-! ## Two checksums -/

/-- The acts of a checksum that was had. -/
def checksumActs (run : Run) : List Event :=
  [.logged (Toolchain.commandRecord "sha1" "verify" run.command .shared), .ran run]

/-- The texts that report two checksums. -/
def lines (image rebuilt : Checksum) : List String := [image.line ++ "\n", rebuilt.line ++ "\n"]

def reportActs (image rebuilt : Checksum) : List Event :=
  (lines image rebuilt).map (.printed p.stream)

theorem quiet_checksumActs (stream : Stream) (run : Run) : Quiet stream (checksumActs run) :=
  quiet_cons (Toolchain.isQuiet_commandRecord _ _ _ _ _)
    (quiet_cons (Event.isQuiet_ran _ run) (quiet_nil _))

theorem quiet_failedChecksum (stream : Stream) {command words : List String} {e : Event}
    (he : e.GivesNoDigest command) :
    Quiet stream [.logged (Toolchain.commandRecord "sha1" "verify" words .shared), e] :=
  quiet_cons (Toolchain.isQuiet_commandRecord _ _ _ _ _)
    (quiet_cons (he.isQuiet stream) (quiet_nil _))

theorem stream_ne_errors : p.stream ≠ .errors := by
  unfold stream
  split <;> nofun

theorem adds_printLine (text : String) (m : Machine) :
    ∃ m', printLine p.stream text m = .ok () m' ∧ m.Adds [.printed p.stream (text ++ "\n")] m' := by
  refine ⟨_, rfl, ?_⟩
  have ha : acts [.printed p.stream (text ++ "\n")] = [.printed p.stream (text ++ "\n")] := by
    have hs := p.stream_ne_errors
    cases h : p.stream with
    | errors => exact absurd h hs
    | output => rfl
    | report => rfl
  have hadds : m.Adds (acts [.printed p.stream (text ++ "\n")])
      (m.record (.printed p.stream (text ++ "\n"))) := Machine.adds_of_trace _ rfl
  rwa [ha] at hadds

/-- Two runs gave the checksums of the image and of the rebuilt one. -/
def Measured (image rebuilt : Checksum) (run₁ run₂ : Run) : Prop :=
  image.path = p.plan.image ∧ rebuilt.path = p.files.rebuilt ∧
    p.toolchain.Answered image run₁ ∧ p.toolchain.Answered rebuilt run₂

def measureActs (run₁ run₂ : Run) : List Event := checksumActs run₁ ++ checksumActs run₂

theorem compare_cases (m : Machine) :
    (∃ stop m' es, p.compare m = .error stop m' ∧
      (stop.BlamesChecksum p.plan.image ∨ stop.BlamesChecksum p.files.rebuilt) ∧
      Quiet p.stream es ∧ m.Adds es m') ∨
    (∃ image rebuilt run₁ run₂ m', p.compare m = .ok (image, rebuilt) m' ∧
      p.Measured image rebuilt run₁ run₂ ∧
      m.Adds (measureActs run₁ run₂ ++ p.reportActs image rebuilt) m') := by
  unfold compare
  rcases p.toolchain.checksum_cases p.plan.image m with ⟨-, h₁⟩ | ⟨tool, m₁, ht, h₁⟩
  · exact Or.inl ⟨_, _, _, bind_of_error h₁, Or.inl nofun, quiet_nil _, Machine.Adds.refl m⟩
  rcases h₁ with ⟨s, e, h₁, hs, he, ha₁⟩ | ⟨run₁, d₁, h₁, hc₁, hd₁, ha₁⟩
  · exact Or.inl ⟨_, _, _, bind_of_error h₁, Or.inl hs, quiet_failedChecksum _ he, ha₁⟩
  rw [← hc₁.1] at ha₁
  rw [bind_of_ok h₁]
  rcases p.toolchain.checksum_cases p.files.rebuilt m₁ with ⟨-, h₂⟩ | ⟨tool', m₂, ht', h₂⟩
  · exact Or.inl ⟨_, _, _, bind_of_error h₂, Or.inr nofun, quiet_checksumActs _ run₁, ha₁⟩
  rcases h₂ with ⟨s, e, h₂, hs, he, ha₂⟩ | ⟨run₂, d₂, h₂, hc₂, hd₂, ha₂⟩
  · exact Or.inl ⟨_, _, _, bind_of_error h₂, Or.inr hs,
      (quiet_checksumActs _ run₁).append (quiet_failedChecksum _ he), ha₁.trans ha₂⟩
  rw [← hc₂.1] at ha₂
  rw [bind_of_ok h₂]
  let image : Checksum := ⟨p.plan.image, d₁⟩
  let rebuilt : Checksum := ⟨p.files.rebuilt, d₂⟩
  obtain ⟨m₃, h₃, ha₃⟩ := p.adds_printLine image.line m₂
  obtain ⟨m₄, h₄, ha₄⟩ := p.adds_printLine rebuilt.line m₃
  rw [bind_of_ok h₃, bind_of_ok h₄]
  exact Or.inr ⟨image, rebuilt, run₁, run₂, m₄, rfl,
    ⟨rfl, rfl, ⟨tool, ht, hc₁, hd₁⟩, ⟨tool', ht', hc₂, hd₂⟩⟩, (ha₁.trans ha₂).trans (ha₃.trans ha₄)⟩

/-! ## The verdict on them -/

/-- Where artifacts are kept, each place where one belongs can be looked at. -/
def Scannable (m : Machine) : Prop :=
  p.plan.keepTemps = true → ∀ f ∈ p.files.all, ∃ n, m.tree.probe m.cwd f.toString = .ok n

theorem pathExists_cases (path : Path) (m : Machine) :
    (∃ n, m.tree.probe m.cwd path.toString = .ok n ∧ pathExists path m = .ok n.isSome m) ∨
    (∃ s, (∀ n, m.tree.probe m.cwd path.toString ≠ .ok n) ∧ s.IsCallFault ∧
      pathExists path m = .error s m) := by
  unfold pathExists
  cases h : m.tree.probe m.cwd path.toString with
  | ok n =>
    have hn : nodeAt path m = .ok n m := by
      rw [nodeAt, bind_of_ok (get_apply m), h]
      rfl
    exact Or.inl ⟨n, rfl, bind_of_ok hn⟩
  | error e =>
    have hn : nodeAt path m = .error (.system ⟨e, some path.toString⟩) m := by
      rw [nodeAt, bind_of_ok (get_apply m), h]
      rfl
    exact Or.inr ⟨.system ⟨e, some path.toString⟩, nofun, Or.inr ⟨_, rfl⟩, bind_of_error hn⟩

theorem existing_cases (paths : List Path) (m : Machine) :
    (∃ here, existing paths m = .ok here m ∧
      ∀ f ∈ paths, ∃ n, m.tree.probe m.cwd f.toString = .ok n) ∨
    (∃ s, existing paths m = .error s m ∧ s.IsCallFault ∧
      ∃ f ∈ paths, ∀ n, m.tree.probe m.cwd f.toString ≠ .ok n) := by
  induction paths with
  | nil => exact Or.inl ⟨[], rfl, nofun⟩
  | cons path rest ih =>
    unfold existing
    rcases pathExists_cases path m with ⟨n, hn, hp⟩ | ⟨s, hn, hs, hp⟩
    · rw [bind_of_ok hp]
      rcases ih with ⟨here, he, hall⟩ | ⟨s, he, hs, f, hf, hn'⟩
      · refine Or.inl ⟨_, by rw [bind_of_ok he, pure_apply], ?_⟩
        exact List.forall_mem_cons.2 ⟨⟨n, hn⟩, hall⟩
      · exact Or.inr ⟨s, bind_of_error he, hs, f, List.mem_cons_of_mem _ hf, hn'⟩
    · exact Or.inr ⟨s, bind_of_error hp, hs, path, List.mem_cons_self, hn⟩

theorem kept_cases (m : Machine) :
    (∃ here, p.kept m = .ok here m ∧ p.Scannable m) ∨
    (∃ s, p.kept m = .error s m ∧ s.IsCallFault ∧ ¬ p.Scannable m) := by
  unfold kept Scannable
  cases hk : p.plan.keepTemps with
  | false => exact Or.inl ⟨[], rfl, nofun⟩
  | true =>
    rcases existing_cases p.files.all m with ⟨here, he, hall⟩ | ⟨s, he, hs, f, hf, hn⟩
    · exact Or.inl ⟨here, he, fun _ => hall⟩
    · refine Or.inr ⟨s, he, hs, fun h => ?_⟩
      obtain ⟨n, hn'⟩ := h rfl f hf
      exact hn n hn'

theorem judge_cases (image rebuilt : Checksum) (m : Machine) :
    (∃ s, p.judge image rebuilt m = .error s m ∧ s.IsCallFault ∧ ¬ p.Scannable m) ∨
    (p.judge image rebuilt m = .error (.fault (.mismatch image rebuilt)) m ∧ p.Scannable m ∧
      image.digest ≠ rebuilt.digest) ∨
    (∃ here m', p.judge image rebuilt m = .ok ⟨image, rebuilt, here⟩ m' ∧
      image.digest = rebuilt.digest ∧ m.Adds [.printed p.stream "Ok\n"] m') := by
  unfold judge
  rcases p.kept_cases m with ⟨here, hk, hscan⟩ | ⟨s, hk, hs, hscan⟩
  · rw [bind_of_ok hk]
    by_cases hd : image.digest = rebuilt.digest
    · obtain ⟨m', hp, ha⟩ := p.adds_printLine "Ok" m
      refine Or.inr (Or.inr ⟨here, m', ?_, hd, ha⟩)
      simp only [Verdict.ok, hd, decide_true, if_true]
      rw [bind_of_ok hp, pure_apply]
    · refine Or.inr (Or.inl ⟨?_, hscan, hd⟩)
      simp [Verdict.ok, hd]
  · exact Or.inl ⟨s, bind_of_error hk, hs, hscan⟩

/-- What is pending when the checksums are compared. -/
def spared (pending : List Path) : List Path :=
  if p.plan.keepTemps then pending else without pending [p.files.rebuilt]

inductive VerifyEnd (w : Workplace (List Path)) :
    EStateM.Result Stop (Workplace (List Path)) Verdict → Prop
  | missed (stop : Stop) (es : List Event) (m : Machine)
      (hblame : stop.BlamesChecksum p.plan.image ∨ stop.BlamesChecksum p.files.rebuilt)
      (hquiet : Quiet p.stream es) (hadds : w.machine.Adds es m) :
      VerifyEnd w (.error stop ⟨m, w.own⟩)
  | stuck (image rebuilt : Checksum) (run₁ run₂ : Run) (stop reason : Stop) (m : Machine)
      (hmeas : p.Measured image rebuilt run₁ run₂) (hkeep : p.plan.keepTemps = false)
      (hblame : BlamesRemoval p.files.rebuilt stop)
      (hadds : w.machine.Adds (measureActs run₁ run₂ ++ p.reportActs image rebuilt ++
        failedRemovalActs p.files.rebuilt reason) m) :
      VerifyEnd w (.error stop ⟨m, w.own⟩)
  | unseen (image rebuilt : Checksum) (run₁ run₂ : Run) (stop : Stop) (m : Machine)
      (hmeas : p.Measured image rebuilt run₁ run₂) (hstop : stop.IsCallFault)
      (hscan : ¬ p.Scannable m)
      (hadds : w.machine.Adds (measureActs run₁ run₂ ++ p.reportActs image rebuilt ++
        p.removedActs [p.files.rebuilt]) m) :
      VerifyEnd w (.error stop ⟨m, p.spared w.own⟩)
  | differs (image rebuilt : Checksum) (run₁ run₂ : Run) (m : Machine)
      (hmeas : p.Measured image rebuilt run₁ run₂) (hdiff : image.digest ≠ rebuilt.digest)
      (hscan : p.Scannable m)
      (hadds : w.machine.Adds (measureActs run₁ run₂ ++ p.reportActs image rebuilt ++
        p.removedActs [p.files.rebuilt]) m) :
      VerifyEnd w (.error (.fault (.mismatch image rebuilt)) ⟨m, p.spared w.own⟩)
  | agrees (image rebuilt : Checksum) (run₁ run₂ : Run) (here : List Path) (m : Machine)
      (hmeas : p.Measured image rebuilt run₁ run₂) (hsame : image.digest = rebuilt.digest)
      (hadds : w.machine.Adds (measureActs run₁ run₂ ++ p.reportActs image rebuilt ++
        p.removedActs [p.files.rebuilt] ++ [.printed p.stream "Ok\n"]) m) :
      VerifyEnd w (.ok ⟨image, rebuilt, here⟩ ⟨m, p.spared w.own⟩)

theorem verify_ends (w : Workplace (List Path)) : p.VerifyEnd w (p.verify w) := by
  unfold verify
  rcases p.compare_cases w.machine with ⟨stop, m₁, es, hc, hb, hq, ha₁⟩ | h
  · have h₁ := (onMachine_eq_error (w := w)).2 ⟨m₁, hc, rfl⟩
    rw [bind_of_error h₁]
    exact .missed stop es m₁ hb hq ha₁
  · obtain ⟨image, rebuilt, run₁, run₂, m₁, hc, hmeas, ha₁⟩ := h
    have h₁ := (onMachine_eq_ok (w := w)).2 ⟨m₁, hc, rfl⟩
    rw [bind_of_ok h₁]
    change p.VerifyEnd w
      ((do p.removeTemps [p.files.rebuilt]; onMachine (p.judge image rebuilt)) ⟨m₁, w.own⟩)
    rcases p.removeTemps_cases [p.files.rebuilt] ⟨m₁, w.own⟩ with ⟨m₂, hr, ha₂⟩ | h
    · rw [bind_of_ok hr]
      rcases p.judge_cases image rebuilt m₂ with ⟨s, hj, hs, hscan⟩ | ⟨hj, hscan, hd⟩ | h
      · have hw : onMachine (p.judge image rebuilt) ⟨m₂, p.spared w.own⟩ = _ :=
          onMachine_eq_error.2 ⟨m₂, hj, rfl⟩
        exact hw ▸ .unseen image rebuilt run₁ run₂ s m₂ hmeas hs hscan (ha₁.trans ha₂)
      · have hw : onMachine (p.judge image rebuilt) ⟨m₂, p.spared w.own⟩ = _ :=
          onMachine_eq_error.2 ⟨m₂, hj, rfl⟩
        exact hw ▸ .differs image rebuilt run₁ run₂ m₂ hmeas hd hscan (ha₁.trans ha₂)
      · obtain ⟨here, m₃, hj, hd, ha₃⟩ := h
        have hw : onMachine (p.judge image rebuilt) ⟨m₂, p.spared w.own⟩ = _ :=
          onMachine_eq_ok.2 ⟨m₃, hj, rfl⟩
        exact hw ▸ .agrees image rebuilt run₁ run₂ here m₃ hmeas hd ((ha₁.trans ha₂).trans ha₃)
    · obtain ⟨gone, path, rest, s, reason, m₂, hk, hg, hr, hb, ha₂⟩ := h
      have hnil : gone = [] ∧ path = p.files.rebuilt := by
        cases gone with
        | nil =>
          cases hg
          exact ⟨rfl, rfl⟩
        | cons g gs =>
          have hl := congrArg List.length hg
          simp at hl
      obtain ⟨rfl, rfl⟩ := hnil
      rw [bind_of_error hr]
      exact .stuck image rebuilt run₁ run₂ s reason m₂ hmeas hk hb (ha₁.trans ha₂)

end Pipeline

end FirmwareAudit
