import FirmwareAudit.Proofs.BeforePipeline
import FirmwareAudit.Proofs.CommandItems
import FirmwareAudit.Proofs.FlagForms

/-! # What a command line was made of

A command line that is read to its end falls into parts, each of them read as one: names of flags,
with a value in the same argument or in the next, a `--`, or the image. The options hold what the
parts give, in order, and nothing else.
-/
namespace FirmwareAudit
open Text

/-- A stretch of a command line that is read as one. -/
inductive Part
  | switches (argument : String) (ts : List Toggle) (h : Names argument (ts.map Toggle.switch) none)
  /-- A knob behind switches, with its value in the same argument. -/
  | attached (name sep value : String) (ts : List Toggle) (k : Knob)
      (h : Names name (ts.map Toggle.switch) (some k)) (hsep : sep = "" ∨ sep = "=")
  /-- A knob behind switches, with its value in the next argument. -/
  | spaced (name value : String) (ts : List Toggle) (k : Knob)
      (h : Names name (ts.map Toggle.switch) (some k)) (hvalue : value ≠ "--")
  | marker
  | image (text : String)

namespace Part

def arguments : Part → List String
  | switches argument _ _ => [argument]
  | attached name sep value _ _ _ _ => [name ++ sep ++ value]
  | spaced name value _ _ _ _ => [name, value]
  | marker => ["--"]
  | image text => [text]

def toggles : Part → List Toggle
  | switches _ ts _ => ts
  | attached _ _ _ ts _ _ _ => ts
  | spaced _ _ ts _ _ _ => ts
  | marker => []
  | image _ => []

/-- The value that the part gives to a knob. -/
def given? : Part → Option (Knob × String)
  | attached _ _ value _ k _ _ => some (k, value)
  | spaced _ value _ k _ _ => some (k, value)
  | _ => none

def image? : Part → Option String
  | image text => some text
  | _ => none

def apply (p : Part) (o : Options) : Options :=
  match p.given? with
  | some (k, value) => (Toggle.setAll p.toggles o).assign (.ofValue value) k
  | none => Toggle.setAll p.toggles o

/-- The options that a list of parts comes to. -/
def options (parts : List Part) : Options := parts.foldl (fun o p => p.apply o) .standard

end Part

/-! ## Taking a command line apart -/

namespace Reading

/-- From one reading to the other, parts were read and nothing was left over. -/
structure Took (r : Reading) (parts : List Part) (r' : Reading) : Prop where
  leftOver : r.leftOver = []
  images : r'.images = r.images ++ parts.filterMap Part.image?
  options : r'.options = parts.foldl (fun o p => p.apply o) r.options

theorem Took.refl {r : Reading} (h : r.leftOver = []) : r.Took [] r := by
  constructor
  · exact h
  · simp
  · simp

theorem Took.cons {r r₁ r' : Reading} {p : Part} {parts : List Part} (hleft : r.leftOver = [])
    (himages : r₁.images = r.images ++ p.image?.toList) (hoptions : r₁.options = p.apply r.options)
    (h : r₁.Took parts r') : r.Took (p :: parts) r' := by
  constructor
  · exact hleft
  · rw [h.images, himages, List.append_assoc, List.filterMap_cons]
    cases p.image? <;> rfl
  · rw [h.options, hoptions, List.foldl_cons]

/-- An operand that is not left over is an image. -/
theorem took_operand {r r' : Reading} {text : String} {parts : List Part}
    (h : (r.operand text).Took parts r') : r.Took (.image text :: parts) r' := by
  have hleft := h.leftOver
  unfold operand at h hleft
  split at h
  · next hbehind => simp [hbehind, leave] at hleft
  · next hphase =>
    rw [if_neg hphase] at hleft
    refine Took.cons hleft ?_ ?_ h <;> rfl

theorem took_marker {r r' : Reading} {parts : List Part} (h : r.marker.Took parts r') :
    r.Took (.marker :: parts) r' := by
  have hleft := h.leftOver
  unfold marker at h hleft
  split at h
  · next hbehind => simp [hbehind, leave] at hleft
  · next hphase =>
    rw [if_neg hphase] at hleft
    refine Took.cons hleft ?_ ?_ h
    · simp [Part.image?]
    · rfl

/-- Behind a `--` every argument that is not left over is an image. -/
theorem took_of_operands {texts : List String} {r r' : Reading}
    (h : follow (texts.map .operand) r = .ok r') (hleft : r'.leftOver = []) :
    r.Took (texts.map .image) r' := by
  induction texts generalizing r with
  | nil =>
    cases h
    exact .refl hleft
  | cons text rest ih => exact took_operand (ih h)

theorem turnAll_eq_ok {switches : List Switch} {o o' : Options}
    (h : o.turnAll switches = .ok o') :
    ∃ ts : List Toggle, switches = ts.map Toggle.switch ∧ o' = Toggle.setAll ts o := by
  induction switches generalizing o with
  | nil =>
    cases h
    exact ⟨[], rfl, rfl⟩
  | cons s rest ih =>
    have htoggle : ∀ t : Toggle, s = t.switch → o.turn s = .ok (t.set o) →
        ∃ ts : List Toggle, s :: rest = ts.map Toggle.switch ∧ o' = Toggle.setAll ts o := by
      rintro t rfl ht
      rw [Options.turnAll, ht] at h
      obtain ⟨ts, rfl, rfl⟩ := ih h
      exact ⟨t :: ts, rfl, rfl⟩
    cases s with
    | help => cases h
    | version => cases h
    | keepTemps => exact htoggle .keepTemps rfl rfl
    | verbose => exact htoggle .verbose rfl rfl

/-- Between the readings, switches changed the options and at most a run of operands broke off. -/
structure Turned (r : Reading) (ts : List Toggle) (r₁ : Reading) : Prop where
  options : r₁.options = Toggle.setAll ts r.options
  images : r₁.images = r.images
  leftOver : r₁.leftOver = r.leftOver

/-- What follows switches follows a reading that they turned. -/
theorem turned_of_bind {switches : List Switch} {r r' : Reading} {f : Reading → Except Halt Reading}
    (h : r.breakRun.turnAll switches >>= f = .ok r') :
    ∃ r₁ ts, switches = ts.map Toggle.switch ∧ r.Turned ts r₁ ∧ f r₁ = .ok r' := by
  rw [breakRun_eq] at h
  unfold turnAll at h
  cases hturn : r.options.turnAll switches with
  | error halt =>
    simp only [hturn] at h
    cases h
  | ok o =>
    simp only [hturn] at h
    obtain ⟨ts, rfl, rfl⟩ := turnAll_eq_ok hturn
    exact ⟨{ r with options := Toggle.setAll ts r.options, phase := r.breakRun.phase }, ts, rfl,
      ⟨rfl, rfl, rfl⟩, h⟩

theorem Turned.took {r r₁ r' : Reading} {ts : List Toggle} {parts : List Part} {argument : String}
    (hturned : r.Turned ts r₁) (hnames : Names argument (ts.map Toggle.switch) none)
    (h : r₁.Took parts r') : r.Took (.switches argument ts hnames :: parts) r' := by
  refine Took.cons (hturned.leftOver.symm.trans h.leftOver) ?_ hturned.options h
  simp [hturned.images, Part.image?]

theorem Turned.took_assign {r r₁ r' : Reading} {ts : List Toggle} {parts : List Part} {p : Part}
    {k : Knob} {value : String} (hturned : r.Turned ts r₁) (himage : p.image? = none)
    (htoggles : p.toggles = ts) (hgiven : p.given? = some (k, value))
    (h : (r₁.assign k value).Took parts r') : r.Took (p :: parts) r' := by
  refine Took.cons (hturned.leftOver.symm.trans h.leftOver) ?_ ?_ h
  · simp [assign, hturned.images, himage]
  · simp [assign, Part.apply, hgiven, htoggles, hturned.options]

/-- What is read to its end with nothing left over falls into parts. -/
theorem took_of_follow {tokens : List Token} {r r' : Reading} (h : follow tokens r = .ok r')
    (hleft : r'.leftOver = []) {argv : List String} (hscan : Token.Scanned argv tokens) :
    ∃ parts, argv = parts.flatMap Part.arguments ∧ r.Took parts r' := by
  fun_induction follow tokens r generalizing argv with
  | case1 r =>
    cases h
    cases hscan
    exact ⟨[], rfl, .refl hleft⟩
  | case2 text tokens r ih =>
    cases hscan with
    | cons hne htoken hrest =>
      cases htoken
      obtain ⟨parts, rfl, htook⟩ := ih h hrest
      exact ⟨.image text :: parts, rfl, took_operand htook⟩
  | case3 tokens r ih =>
    cases hscan with
    | cons hne htoken hrest => cases htoken
    | marker rest =>
      refine ⟨.marker :: rest.map .image, ?_, took_marker (took_of_operands h hleft)⟩
      simp [Part.arguments, List.flatMap_map]
  | case4 text tokens r ih =>
    cases hscan with
    | cons hne htoken hrest =>
      obtain ⟨parts, -, htook⟩ := ih h hrest
      have hnone := htook.leftOver
      simp [leave] at hnone
  | case5 f short attached tokens r e hcluster => cases h
  | case6 f short attached tokens r switches hcluster ih =>
    cases hscan with
    | cons hne htoken hrest =>
      cases htoken with
      | flag _ _ _ hwritten =>
        obtain ⟨r₁, ts, rfl, hturned, hfollow⟩ := turned_of_bind h
        obtain ⟨parts, rfl, htook⟩ := ih r₁ hfollow hrest
        cases Cluster.standsIn_of_ofFlag hwritten hcluster with
        | switches _ hnames => exact ⟨.switches _ ts hnames :: parts, rfl, hturned.took hnames htook⟩
  | case7 f short attached tokens r switches k value hcluster ih =>
    cases hscan with
    | cons hne htoken hrest =>
      cases htoken with
      | flag _ _ _ hwritten =>
        obtain ⟨r₁, ts, rfl, hturned, hfollow⟩ := turned_of_bind h
        obtain ⟨parts, rfl, htook⟩ := ih r₁ hfollow hrest
        cases Cluster.standsIn_of_ofFlag hwritten hcluster with
        | attached _ _ name sep _ hnames hsep hargument =>
          subst hargument
          exact ⟨.attached name sep value ts k hnames hsep :: parts, rfl,
            hturned.took_assign rfl rfl rfl htook⟩
  | case8 f short attached r switches k hcluster value tokens ih =>
    cases hscan with
    | cons hne htoken hrest =>
      cases htoken with
      | flag _ _ _ hwritten =>
        cases hrest with
        | cons hvalue htoken hrest =>
          cases htoken
          obtain ⟨r₁, ts, rfl, hturned, hfollow⟩ := turned_of_bind h
          obtain ⟨parts, rfl, htook⟩ := ih r₁ hfollow hrest
          cases Cluster.standsIn_of_ofFlag hwritten hcluster with
          | bare _ _ hnames =>
            exact ⟨.spaced _ value ts k hnames hvalue :: parts, rfl,
              hturned.took_assign rfl rfl rfl htook⟩
  | case9 f short attached tokens r switches k hcluster hnone => cases h

end Reading

/-! ## Where settings come from -/

namespace Options

/-- The settings of a knob: those collected for it, or the one that it has. -/
def settings (o : Options) : Knob → List Setting
  | .fileType => [o.fileType]
  | .architecture => [o.architecture]
  | .chip => [o.chip]
  | .dataRange => o.dataRanges
  | .labelFile => o.labelFiles
  | .commentFile => o.commentFiles
  | .includeDir => [o.includeDir]
  | .logFile => o.logFile.toList

theorem settings_setAll (ts : List Toggle) (o : Options) (k : Knob) :
    (Toggle.setAll ts o).settings k = o.settings k := by
  rw [Toggle.setAll_eq]
  cases k <;> rfl

theorem mem_settings_assign {o : Options} {v s : Setting} {k k' : Knob}
    (h : s ∈ (o.assign v k).settings k') : s ∈ o.settings k' ∨ k = k' ∧ s = v := by
  by_cases hk : k = k'
  · subst hk
    cases k with
    | dataRange | labelFile | commentFile => simpa [assign, settings] using h
    | _ => exact Or.inr ⟨rfl, by simpa [assign, settings] using h⟩
  · refine Or.inl ?_
    cases k <;> cases k' <;> first | exact absurd rfl hk | exact h

end Options

namespace Part

theorem mem_settings_apply {p : Part} {o : Options} {s : Setting} {k : Knob}
    (h : s ∈ (p.apply o).settings k) :
    s ∈ o.settings k ∨ ∃ value, p.given? = some (k, value) ∧ s = .ofValue value := by
  unfold apply at h
  split at h
  · next k' value hgiven =>
    rcases Options.mem_settings_assign h with h | ⟨rfl, rfl⟩
    · rw [Options.settings_setAll] at h
      exact Or.inl h
    · exact Or.inr ⟨value, hgiven, rfl⟩
  · rw [Options.settings_setAll] at h
    exact Or.inl h

/-- A setting that parts come to is one of the usual, or one of the parts gives it. -/
theorem mem_settings_options {parts : List Part} {s : Setting} {k : Knob}
    (h : s ∈ (options parts).settings k) :
    s ∈ Options.standard.settings k ∨
      ∃ p ∈ parts, ∃ value, p.given? = some (k, value) ∧ s = .ofValue value := by
  induction parts using List.reverseRecOn with
  | nil => exact Or.inl h
  | append_singleton parts p ih =>
    rw [options, List.foldl_append] at h
    rcases mem_settings_apply h with h | ⟨value, hgiven, hs⟩
    · rcases ih h with h | ⟨q, hq, hgiven⟩
      · exact Or.inl h
      · exact Or.inr ⟨q, List.mem_append_left _ hq, hgiven⟩
    · exact Or.inr ⟨p, List.mem_append_right _ (List.mem_singleton.2 rfl), value, hgiven, hs⟩

end Part

/-- A command line has a value for a knob: as the rest of an argument, behind names that end in one
of the knob's, set off with an `=` or not, or as the argument behind such names. -/
inductive Gives (argv : List String) (k : Knob) (value : String) : Prop
  | inside (name sep : String) (switches : List Switch) (h : Names name switches (some k))
      (hsep : sep = "" ∨ sep = "=") (hargv : name ++ sep ++ value ∈ argv)
  | next (name : String) (switches : List Switch) (h : Names name switches (some k))
      (before after : List String) (hargv : argv = before ++ name :: value :: after)
      (hvalue : value ≠ "--")

theorem gives_of_part {parts : List Part} {p : Part} {k : Knob} {value : String} (hp : p ∈ parts)
    (h : p.given? = some (k, value)) : Gives (parts.flatMap Part.arguments) k value := by
  obtain ⟨before, after, rfl⟩ := List.append_of_mem hp
  cases p with
  | attached name sep value' ts k' hnames hsep =>
    cases h
    refine .inside name sep _ hnames hsep ?_
    simp [Part.arguments]
  | spaced name value' ts k' hnames hvalue =>
    cases h
    refine .next name _ hnames (before.flatMap Part.arguments) (after.flatMap Part.arguments) ?_
      hvalue
    simp [Part.arguments]
  | switches argument ts hnames => cases h
  | marker => cases h
  | image text => cases h

namespace Arguments

/-- The command line falls into parts, one of them an image, and what they come to are the
arguments. -/
def LaidOutIn (a : Arguments) (argv : List String) : Prop :=
  ∃ parts, argv = parts.flatMap Part.arguments ∧ parts.filterMap Part.image? = [a.image] ∧
    a.options = Part.options parts

theorem laidOutIn_of_read {argv : List String} {a : Arguments} (h : read .standard argv = .ok a) :
    a.LaidOutIn argv := by
  unfold read at h
  cases hscan : Token.scan argv with
  | error e =>
    rw [hscan] at h
    cases h
  | ok tokens =>
    cases hfollow : Reading.follow tokens ⟨.standard, [], .before, []⟩ with
    | error halt =>
      simp only [hscan, Except.mapError, bind, Except.bind, hfollow] at h
      cases h
    | ok r =>
      simp only [hscan, Except.mapError, bind, Except.bind, hfollow] at h
      unfold ofReading at h
      split at h
      · cases h
      · next hleft =>
        split at h
        · next image himages =>
          cases h
          obtain ⟨parts, rfl, htook⟩ :=
            Reading.took_of_follow hfollow (not_not.1 hleft) (Token.scanned_of_scan hscan)
          refine ⟨parts, rfl, ?_, htook.options⟩
          rw [← himages, htook.images, List.nil_append]
        · cases h

/-- Every setting is one of the usual, or the command line has the value that makes it. -/
theorem LaidOutIn.settings {a : Arguments} {argv : List String} (h : a.LaidOutIn argv) {k : Knob}
    {s : Setting} (hs : s ∈ a.options.settings k) :
    s ∈ Options.standard.settings k ∨ ∃ value, Gives argv k value ∧ s = .ofValue value := by
  obtain ⟨parts, rfl, -, hoptions⟩ := h
  rw [hoptions] at hs
  rcases Part.mem_settings_options hs with h | ⟨p, hp, value, hgiven, rfl⟩
  · exact Or.inl h
  · exact Or.inr ⟨value, gives_of_part hp hgiven, rfl⟩

end Arguments

/-! ## How reading ends -/

/-- The ways in which reading a command line and laying out its plan ends. -/
inductive ReadEnd (argv : List String) (m : Machine) : EStateM.Result Stop Machine Plan → Prop
  | shown (text : String) (hne : text ≠ "") :
      ReadEnd argv m (.error (.exit 0) (m.record (.printed .output text)))
  | refused (reason : String) :
      ReadEnd argv m (.error (.exit 1)
        (m.record (.printed .errors (usage ++ ("avrroundtrip: error: " ++ reason ++ "\n")))))
  | planned (a : Arguments) (dir : String) (hargv : a.LaidOutIn argv)
      (hsettings : ∀ k, ∀ s ∈ a.options.settings k, s ∈ Options.standard.settings k ∨
        ∃ value, Gives argv k value ∧ s = .ofValue value)
      (hdir : a.options.includeDir = .text dir) :
      ReadEnd argv m (.ok
        { image := .ofString a.image
          fileType := a.options.fileType
          architecture := a.options.architecture
          chip := a.options.chip
          includeDir := .ofString dir
          dataRanges := a.options.dataRanges
          labelFiles := a.options.labelFiles
          commentFiles := a.options.commentFiles
          keepTemps := a.options.keepTemps } m)
  /-- The include directory was cleared by a `--` in the argument that names it. -/
  | textless (a : Arguments) (hargv : a.LaidOutIn argv)
      (hcleared : a.options.includeDir = .cleared) (name sep : String) (switches : List Switch)
      (hnames : Names name switches (some .includeDir)) (hsep : sep = "" ∨ sep = "=")
      (hdashes : name ++ sep ++ "--" ∈ argv) :
      ReadEnd argv m (.error .notText m)

theorem ofValue_eq_cleared {value : String} (h : Setting.cleared = .ofValue value) :
    value = "--" := by
  unfold Setting.ofValue at h
  split at h
  · next hdashes => exact hdashes
  · cases h

theorem readEnd_of_laidOut {argv : List String} {a : Arguments} (h : a.LaidOutIn argv)
    (m : Machine) : ReadEnd argv m (a.plan m) := by
  unfold Arguments.plan
  cases hdir : a.options.includeDir with
  | text dir => exact .planned a dir h (fun k s => h.settings) hdir
  | cleared =>
    have hmem : Setting.cleared ∈ a.options.settings .includeDir := by simp [Options.settings, hdir]
    rcases h.settings hmem with hstandard | ⟨value, hgives, hvalue⟩
    · cases List.mem_singleton.1 hstandard
    · obtain rfl := ofValue_eq_cleared hvalue
      cases hgives with
      | inside name sep switches hnames hsep hargv =>
        exact .textless a h hdir name sep switches hnames hsep hargv
      | next name switches hnames before after hargv hne => exact absurd rfl hne

theorem readEnd_of_halt (argv : List String) (halt : Halt) (m : Machine) :
    ReadEnd argv m (.error (.exit halt.status) (m.record halt.answer)) := by
  have hhelp : helpText ≠ "" := by decide +kernel
  have hversion : versionLine ++ "\n" ≠ "" := by decide
  cases halt with
  | help => exact .shown helpText hhelp
  | version => exact .shown _ hversion
  | misuse reason => exact .refused reason.message

/-- A command line is answered on the output stream, with status 0, or refused on the error stream,
with the usage and one line that says why and status 1, or it falls into parts, one of them the image,
and the plan holds what these come to: the usual settings and values that the command line has. Only
where the include directory was cleared by a `--` in the argument that names it does the work stop
otherwise. -/
theorem readArguments_ends (argv : List String) (m : Machine) :
    ReadEnd argv m ((do
      let a ← readArguments argv
      a.plan) m) := by
  unfold readArguments
  cases hread : Arguments.read .standard argv with
  | ok a =>
    rw [bind_of_ok (pure_apply a m)]
    exact readEnd_of_laidOut (Arguments.laidOutIn_of_read hread) m
  | error halt =>
    rw [bind_of_error (answerHalt_eq halt m)]
    exact readEnd_of_halt argv halt m

/-- A `--` given as the include directory ends in none of the three ways that the program has for a
command line: it neither exits nor makes a plan. -/
theorem readArguments_ends_dashes :
    let r := (do
      let a ← readArguments ["--incdir=--", "fw.bin"]
      a.plan : MachineM Plan) CommandLine.toolsOnly
    ¬ ((∃ m', r = .error (.exit 0) m') ∨ (∃ m', r = .error (.exit 1) m') ∨
      ∃ plan m', r = .ok plan m') := by
  intro r
  have hstop : failure? r = some .notText := by rfl
  rintro (⟨m', h⟩ | ⟨m', h⟩ | ⟨plan, m', h⟩) <;> rw [h] at hstop <;> cases hstop

end FirmwareAudit
