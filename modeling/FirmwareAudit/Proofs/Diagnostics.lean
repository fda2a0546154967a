import FirmwareAudit.Proofs.CommandParts
import FirmwareAudit.Proofs.ErrorContract
import FirmwareAudit.Proofs.ExitStatus
import FirmwareAudit.Proofs.Reticence
import Mathlib

/-! # One line for a failure

Whatever stops a call, the call itself prints one line about it. Where nothing on the command line
has a line break, the message has none either, unless it passes on what a checksum tool that failed
has written.
-/
namespace FirmwareAudit
open Text

/-- The characters that a text is split into lines at. -/
def Text.lineBreaks : List Char :=
  ['\n', '\x0b', '\x0c', '\r', '\x1c', '\x1d', '\x1e', '\x85', '\u2028', '\u2029']

theorem Text.isPrintable_of_mem_lineBreaks : ∀ b ∈ lineBreaks, isPrintable b = false :=
  List.all_iff_forall_prop.1 (by decide +kernel)

/-! ## What the command line gives -/

section CommandLine
variable {argv : List String} {a : Arguments}

theorem Arguments.LaidOutIn.image_mem (h : a.LaidOutIn argv) : a.image ∈ argv := by
  obtain ⟨parts, rfl, himage, -⟩ := h
  have hmem : a.image ∈ parts.filterMap Part.image? := himage ▸ List.mem_singleton_self _
  obtain ⟨part, hpart, htext⟩ := List.mem_filterMap.1 hmem
  refine List.mem_flatMap.2 ⟨part, hpart, ?_⟩
  cases part with
  | image text =>
    cases htext
    exact List.mem_singleton_self _
  | _ => cases htext

theorem Gives.drawsOn {k : Knob} {value : String} (h : Gives argv k value) : DrawsOn argv value := by
  cases h with
  | inside name sep switches h hsep hargv => exact (drawsOn_of_mem hargv).of_append
  | next name switches h before after hargv hvalue => exact drawsOn_of_mem (by simp [hargv])

theorem Arguments.LaidOutIn.drawsOn_includeDir (h : a.LaidOutIn argv) {dir : String}
    (hdir : a.options.includeDir = .text dir) : DrawsOn argv dir := by
  have hsetting : Setting.text dir ∈ a.options.settings .includeDir := by
    simp [Options.settings, hdir]
  rcases h.settings hsetting with hstandard | ⟨value, hgives, hvalue⟩
  · have husual : Prints Plan.defaultIncludeDir := by decide
    cases List.mem_singleton.1 hstandard
    exact husual.drawsOn
  · unfold Setting.ofValue at hvalue
    split at hvalue
    · cases hvalue
    · cases hvalue
      exact hgives.drawsOn

theorem Arguments.LaidOutIn.drawsOn_image (h : a.LaidOutIn argv) :
    DrawsOn argv (Path.ofString a.image).toString :=
  (drawsOn_of_mem h.image_mem).path

/-- A plan is for the image that the arguments name, and only a cleared include directory makes that
there is none. -/
theorem Arguments.plan_cases (a : Arguments) (m : Machine) :
    (∃ plan dir, a.plan m = .ok plan m ∧ plan.image = .ofString a.image ∧
      a.options.includeDir = .text dir ∧ plan.includeDir = .ofString dir) ∨
    a.plan m = .error .notText m := by
  unfold Arguments.plan
  cases hdir : a.options.includeDir with
  | text dir => exact Or.inl ⟨_, dir, rfl, rfl, rfl, rfl⟩
  | cleared => exact Or.inr rfl

namespace CommandLine

theorem reticent_prepare_call {before : List Event} (h : a.LaidOutIn argv) :
    Reticent argv apart before (prepare a) := by
  refine (reticent_setUpLog _).bind fun _ => (reticent_log _ _ _ _).bind fun _ => ?_
  intro m hm
  rcases a.plan_cases m with ⟨plan, dir, hplan, himage, hdir, hinclude⟩ | hplan
  · have himage' : DrawsOn argv plan.image.toString := himage ▸ h.drawsOn_image
    have hinclude' : DrawsOn argv plan.includeDir.toString :=
      hinclude ▸ (h.drawsOn_includeDir hdir).path
    exact .after hplan (((reticent_validate himage' hinclude').bind fun _ =>
      (reticent_log _ _ _ _).bind fun _ => .pure _) m hm)
  · exact .of_eq_error (bind_of_error hplan) hm (Or.inr (.plain _ (List.forall_mem_nil _)))

theorem image_of_prepare {m m' : Machine} {plan : Plan} (h : prepare a m = .ok plan m') :
    plan.image = .ofString a.image := by
  obtain ⟨m₁, m₂, -, -, hplan, -⟩ := prepare_eq_ok h
  rcases a.plan_cases m₂ with ⟨plan', dir, hplan', himage, -⟩ | hstop
  · rw [hplan] at hplan'
    cases hplan'
    exact himage
  · rw [hplan] at hstop
    cases hstop

/-! ## The last word -/

/-- The verdict on two checksums names the image, the image rebuilt from it, and their digests. -/
theorem drawsOn_mismatch {p : Pipeline} (himage : DrawsOn argv p.plan.image.toString)
    {w w' : Workplace (List Path)} {image rebuilt : Checksum}
    (h : p.run w = .error (.fault (.mismatch image rebuilt)) w') :
    ∀ t ∈ (Fault.mismatch image rebuilt).texts, DrawsOn argv t := by
  have hend := p.run_ends w
  rw [h] at hend
  cases hend with
  | silent stop es w' hstop => exact absurd rfl (hstop image rebuilt)
  | stuck i r stop reason w' hstop => exact absurd rfl (hstop image rebuilt)
  | unseen i r stop w' hstop => exact absurd rfl (hstop image rebuilt)
  | differs image rebuilt w' hdiff hscan htold =>
    obtain ⟨_, _, _, -, ⟨hi, hr, ⟨_, -, -, hd₁⟩, ⟨_, -, -, hd₂⟩⟩, -⟩ := htold
    have hrebuilt : DrawsOn argv p.files.rebuilt.toString :=
      Pipeline.drawsOn_file himage (by simp [Artifacts.all])
    simp only [Fault.texts, List.forall_mem_cons, hi, hr]
    exact ⟨himage, (Digest.prints_of_ofAnswer hd₁).drawsOn, hrebuilt,
      (Digest.prints_of_ofAnswer hd₂).drawsOn, List.forall_mem_nil _⟩

theorem Explained.accounted {apart : Stop → Prop} {start events : List Event} {s : Stop}
    {m : Machine} (h : Explained argv apart start.length s m) (hs : ¬ apart s)
    (ht : m.trace = start ++ events) : Accounted argv events s := by
  have haccounted := h.resolve_left hs
  rwa [ht, List.drop_left] at haccounted

/-- What is tried says nothing on the error stream that is not logged, and where it stops without an
exit, its message is accounted for. -/
theorem accounted_of_tried {m m' : Machine} {s : Stop} (h : tried argv m = .error s m')
    (hs : s.StaysIn) :
    ∃ events, m'.trace = m.trace ++ events ∧ OnlyEchoes events ∧ Accounted argv events s := by
  have hlocate : Reticent argv (fun _ => False) m.trace (Tool.locateAll Tool.required) :=
    reticent_locateAll
  have hprepares : ∀ {a : Arguments}, Arguments.read .standard argv = .ok a →
      Reticent argv (fun _ => False) m.trace (prepare a) :=
    fun hread => reticent_prepare_call (Arguments.laidOutIn_of_read hread)
  have hfound := hlocate m (Echoing.start m)
  have hend := tried_ends argv m
  rw [h] at hend
  cases hend with
  | missing s m₁ hfind =>
    obtain ⟨tool, -, rfl⟩ := Tool.stop_of_locateAll hfind
    rw [AbidesAt, hfind] at hfound
    obtain ⟨⟨events, ht, hechoes⟩, hstop⟩ := hfound
    exact ⟨events, ht, hechoes, Explained.accounted (hstop _ rfl) id ht⟩
  | answered found m₁ halt hfind hread => exact absurd rfl (hs _)
  | unready found m₁ a s m₂ hfind hread hprepare =>
    rw [AbidesAt, hfind] at hfound
    have hprepared := hprepares hread m₁ hfound.1
    rw [AbidesAt, hprepare] at hprepared
    obtain ⟨⟨events, ht, hechoes⟩, hstop⟩ := hprepared
    exact ⟨events, ht, hechoes, Explained.accounted (hstop _ rfl) id ht⟩
  | stopped found m₁ a plan m₂ s w hfind hread hprepare hrun =>
    rw [AbidesAt, hfind] at hfound
    have hlaid := Arguments.laidOutIn_of_read hread
    have hprepared := hprepares hread m₁ hfound.1
    rw [AbidesAt, hprepare] at hprepared
    have himage : DrawsOn argv plan.image.toString := image_of_prepare hprepare ▸ hlaid.drawsOn_image
    let p : Pipeline := ⟨plan, ⟨Tool.required, found⟩, false⟩
    have hwhole := Pipeline.reticent_whole (p := p) himage rfl ⟨m₂, []⟩
      ⟨hprepared.1, List.forall_mem_nil _⟩
    rw [AbidesAt, hrun] at hwhole
    obtain ⟨⟨⟨events, ht, hechoes⟩, -⟩, hstop⟩ := hwhole
    refine ⟨events, ht, hechoes, ?_⟩
    by_cases hverdict : s.IsVerdict
    · obtain ⟨image, rebuilt, rfl⟩ := hverdict
      exact .plain _ (drawsOn_mismatch (p := p) himage hrun)
    · exact Explained.accounted (hstop _ rfl) hverdict ht

/-- A stop that becomes status 1 becomes one line and, without a request for much detail, no more. -/
theorem conclude_eq_failure {verbosity : Nat} (hdetail : verbosity < 2) {s : Stop} {m m' : Machine}
    (h : conclude verbosity s m = .ok Status.failure m') :
    s.StaysIn ∧ ∃ head ∈ ["Error: ", "Internal error: "],
      m' = m.record (.printed .errors (head ++ s.message ++ "\n")) := by
  have hother : ∀ s : Stop, (do
      printLine .errors ("Internal error: " ++ s.message)
      if 1 < verbosity then emit (.traceback s)
      return Status.failure : MachineM Nat) m =
        .ok Status.failure (m.record (.printed .errors ("Internal error: " ++ s.message ++ "\n"))) := by
    intro s
    rw [if_neg (by omega)]
    rfl
  cases s with
  | exit code => cases h
  | interrupted => cases h
  | fault f =>
    cases h
    exact ⟨Stop.staysIn_fault f, _, List.mem_cons_self, rfl⟩
  | _ =>
    cases (hother _).symm.trans h
    exact ⟨fun _ he => Stop.noConfusion he, _, List.mem_cons_of_mem _ List.mem_cons_self, rfl⟩

/-- Where a call without a request for much detail returns 1, all that it says itself on the error
stream is one line with a message behind one of two heads; before that the stream holds messages from
the log and what tools wrote. A line break of no argument is in the message only if a run of the
checksum tool failed and wrote it on its error stream, and this is what the message ends in. -/
theorem run_diagnostic {argv : List String} {m m' : Machine} (hrun : run argv m = .ok 1 m')
    (hdetail : ∀ a, Arguments.read .standard argv = .ok a → a.options.verbosity < 2) :
    ∃ events, ∃ head ∈ ["Error: ", "Internal error: "], ∃ message,
      m'.trace = m.trace ++ events ++ [.printed .errors (head ++ message ++ "\n")] ∧
      OnlyEchoes events ∧
      ∀ b ∈ lineBreaks, (∀ argument ∈ argv, has b argument = false) → has b message = true →
        ∃ r path detail, .ran r ∈ events ∧ r.FailsChecksum path detail ∧ has b detail = true ∧
          message = "Failed to compute checksum of '" ++ path.toString ++ "': " ++ detail := by
  rcases run_cases argv m with ⟨m₁, -, hok⟩ | ⟨s, m₁, verbosity, hverbosity, htried, hconclude⟩
  · rw [hok] at hrun
    cases hrun
  have hlittle : verbosity < 2 := by
    rcases hverbosity with rfl | ⟨a, hread, rfl⟩
    · decide
    · exact hdetail a hread
  obtain ⟨hstays, head, hhead, rfl⟩ := conclude_eq_failure hlittle (hconclude.symm.trans hrun)
  obtain ⟨events, ht, hechoes, haccounted⟩ := accounted_of_tried htried hstays
  refine ⟨events, head, hhead, s.message, ?_, hechoes, fun b hb hargv hmessage => ?_⟩
  · rw [Machine.record, ht]
    rfl
  have hunprintable := isPrintable_of_mem_lineBreaks b hb
  cases haccounted with
  | plain s htexts =>
    have hno := Stop.has_message hunprintable fun t hm => htexts t hm b hunprintable hargv
    rw [hno] at hmessage
    cases hmessage
  | detail r path detail hr hfails hpath =>
    have hdetail : has b detail = true := by
      by_contra hno
      rw [Bool.not_eq_true] at hno
      have htexts : ∀ t ∈ (Stop.fault (.checksum path (.failed detail))).texts, has b t = false := by
        refine List.forall_mem_cons.2 ⟨hpath b hunprintable hargv, fun t ht => ?_⟩
        rwa [List.mem_singleton.1 ht]
      rw [Stop.has_message hunprintable htexts] at hmessage
      cases hmessage
    have hne : detail ≠ "" := by
      rintro rfl
      cases hdetail
    have hmarks : "': " = "'" ++ ": " := by decide
    refine ⟨r, path, detail, hr, hfails, hdetail, ?_⟩
    change "Failed to compute checksum of '" ++ path.toString ++ "'" ++
      (if detail = "" then "" else ": " ++ detail) = _
    rw [if_neg hne, hmarks]
    simp only [String.append_assoc]

/-- The workshop with a checksum tool that writes two lines on its error stream and fails. -/
def complaining : Machine :=
  { Pipeline.workshop with
    programs := fun name turn call t =>
      if name = "sha1sum" then .ran t "" "first\nsecond\n" (.exited 1)
      else Pipeline.workshop.programs name turn call t }

/-- A call with an include directory that is there. -/
def complaint : List String := ["--incdir", "/bin", "fw.bin"]

theorem verbosity_complaint : ∀ a, Arguments.read .standard complaint = .ok a →
    a.options.verbosity < 2 := by
  have hread : Arguments.read .standard complaint =
      .ok ⟨"fw.bin", { Options.standard with includeDir := .text "/bin" }⟩ := by rfl
  intro a ha
  rw [hread] at ha
  cases ha
  decide

theorem run_complaining : ∃ m', run complaint complaining = .ok 1 m' ∧
    m'.trace.getLast? = some (.printed .errors
      "Error: Failed to compute checksum of 'fw.bin': first\nsecond\n") := by
  have hends : EStateM.run' (do return (← run complaint, (← get).trace.getLast?)) complaining =
      some (1, some (.printed .errors
        "Error: Failed to compute checksum of 'fw.bin': first\nsecond\n")) := by
    decide +kernel
  cases hrun : run complaint complaining with
  | error s m =>
    rw [EStateM.run', EStateM.run, bind_of_error hrun] at hends
    cases hends
  | ok status m =>
    rw [EStateM.run', EStateM.run, bind_of_ok hrun] at hends
    injection hends with hpair
    injection hpair with hstatus hlast
    exact ⟨m, by rw [hstatus], hlast⟩

/-- The text there has two line feeds, and only one of them ends it. -/
theorem has_of_complaint {events : List Event} {head message : String}
    (hhead : head ∈ ["Error: ", "Internal error: "])
    (hlast : (events ++ [Event.printed .errors (head ++ message ++ "\n")]).getLast? =
      some (.printed .errors "Error: Failed to compute checksum of 'fw.bin': first\nsecond\n")) :
    has '\n' message = true := by
  rw [List.getLast?_concat] at hlast
  injection hlast with hprinted
  injection hprinted with _ htext
  have hplain : ∀ head ∈ ["Error: ", "Internal error: "], head.toList.count '\n' = 0 := by decide
  have hcount := congrArg (·.toList.count '\n') htext
  simp only [String.toList_append, List.count_append, hplain head hhead] at hcount
  rw [← Bool.not_eq_false, has_eq_false]
  intro hnone
  rw [List.count_eq_zero.2 hnone] at hcount
  revert hcount
  decide

/-- There the call says one thing itself, which passes on what a failed run has written. -/
theorem run_diagnostic_complaining : ∃ m', run complaint complaining = .ok 1 m' ∧
    (∀ a, Arguments.read .standard complaint = .ok a → a.options.verbosity < 2) ∧
    ∃ events, OnlyEchoes events ∧ ∃ head ∈ ["Error: ", "Internal error: "], ∃ message,
      m'.trace = complaining.trace ++ events ++ [.printed .errors (head ++ message ++ "\n")] ∧
      ∃ r path detail, .ran r ∈ events ∧ r.FailsChecksum path detail ∧
        message = "Failed to compute checksum of '" ++ path.toString ++ "': " ++ detail := by
  obtain ⟨m', hrun, hlast⟩ := run_complaining
  obtain ⟨events, head, hhead, message, ht, hechoes, hbreaks⟩ :=
    run_diagnostic hrun verbosity_complaint
  have hargv : ∀ argument ∈ complaint, has '\n' argument = false := by decide
  rw [ht] at hlast
  obtain ⟨r, path, detail, hr, hfails, -, hmessage⟩ :=
    hbreaks '\n' (by decide) hargv (has_of_complaint hhead hlast)
  exact ⟨m', hrun, verbosity_complaint, events, hechoes, head, hhead, message, ht, r, path, detail,
    hr, hfails, hmessage⟩

/-- And so it says more than one line: no argument has a line break, and the message has one. -/
theorem run_says_two_lines_complaining : ∃ m', run complaint complaining = .ok 1 m' ∧
    (∀ argument ∈ complaint, ∀ b ∈ lineBreaks, has b argument = false) ∧
    (∀ a, Arguments.read .standard complaint = .ok a → a.options.verbosity < 2) ∧
    ¬ ∃ events, ∃ head ∈ ["Error: ", "Internal error: "], ∃ message,
      m'.trace = events ++ [.printed .errors (head ++ message ++ "\n")] ∧
      ∀ b ∈ lineBreaks, has b message = false := by
  obtain ⟨m', hrun, hlast⟩ := run_complaining
  have hprints : ∀ argument ∈ complaint, Prints argument := by decide
  refine ⟨m', hrun, fun argument hargument b hb =>
    (hprints argument hargument).has_eq_false (isPrintable_of_mem_lineBreaks b hb),
    verbosity_complaint, ?_⟩
  rintro ⟨events, head, hhead, message, ht, hmessage⟩
  rw [ht] at hlast
  have hbreak := has_of_complaint hhead hlast
  rw [hmessage '\n' (by decide)] at hbreak
  cases hbreak

end CommandLine

end CommandLine

end FirmwareAudit
