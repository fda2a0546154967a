import FirmwareAudit.Proofs.LogHistory

/-! # Where log records go

A record goes to the nearest logger above it that was set up, and to what the latest call set that
one up with. What a logger has answered about a level stays right until the next such call, where
nothing keeps its parents from leading to that one. Whatever goes to log files only adds to them.
-/
namespace FirmwareAudit
open Text

/-! ## Routes -/

namespace Station
variable (s : Station) (owner : String) (r : Record)

theorem echoes_handlers : (s.handlers owner).flatMap (Handler.echoes r) =
    if s.console ≤ r.level then [.shown owner r] else [] := by
  have hfile : ∀ h, Handler.echoes r ⟨.file h, Level.debug⟩ = [] := by
    intro h
    simp [Handler.echoes]
  have hconsole : Handler.echoes r ⟨.console owner, s.console⟩ =
      if s.console ≤ r.level then [.shown owner r] else [] := by
    by_cases hc : s.console ≤ r.level
    · simp [Handler.echoes, Int.not_lt.2 hc, hc]
    · simp [Handler.echoes, Int.lt_of_not_ge hc, hc]
  rw [handlers, List.flatMap_cons, hconsole]
  cases s.file <;> simp [hfile]

theorem files_handlers (hlevel : Level.debug ≤ r.level) :
    (s.handlers owner).flatMap (Handler.files r) = s.file.toList := by
  have hfile : ∀ h, Handler.files r ⟨.file h, Level.debug⟩ = [h] := by
    intro h
    simp [Handler.files, Int.not_lt.2 hlevel]
  have hconsole : Handler.files r ⟨.console owner, s.console⟩ = [] := by simp [Handler.files]
  rw [handlers, List.flatMap_cons, hconsole]
  cases s.file <;> simp [hfile]

end Station

namespace Journal

/-- The name lies under the logger, and each logger that was set up and that it lies under lies above
that one. -/
def IsNearest (station : String → Option Station) (name outer : String) : Prop :=
  LiesUnder name outer ∧
    ∀ other, (station other).isSome = true → LiesUnder name other → LiesUnder outer other

variable {j : Journal} {station : String → Option Station} {name outer : String} {s : Station}

/-- The handlers that a record comes to are those that the nearest logger was set up with last. -/
theorem Furnished.say (hj : j.Furnished station) (hs : station outer = some s)
    (hnearest : IsNearest station name outer) (hleads : (j.register name).Leads name outer) :
    (j.register name).handlersOf name = s.handlers (properName outer) ∧
      (j.register name).threshold name = Level.debug := by
  have hlogger : (j.register name).logger outer = s.logger (properName outer) := by
    rw [(hj.register name).logger, hs]
    rfl
  have hfresh : ∀ between, LiesUnder name between → ¬ LiesUnder outer between →
      (j.register name).logger between = .fresh := by
    intro between hunder hnot
    have hnone : station between = none := by
      cases hb : station between with
      | none => rfl
      | some _ => exact absurd (hnearest.2 between (by simp [hb]) hunder) hnot
    have hroot : isRoot between = false := by
      rw [Bool.eq_false_iff]
      exact fun h => hnot (Or.inl h)
    rw [(hj.register name).logger, hnone]
    simp [bare, hroot]
  have hsay := say_of_leads hleads (j.has_register name) hfresh
  rw [hlogger] at hsay
  exact hsay rfl (show Level.debug ≠ 0 by decide)

theorem passes_of_threshold (h : j.threshold name = Level.debug) (level : Int) :
    j.passes name level = decide (Level.debug ≤ level) := by
  unfold passes
  rw [h, Bool.and_eq_right_iff_imp]
  simp only [decide_eq_true_eq]
  exact Int.lt_of_lt_of_le (by decide)

/-- What such handlers make of a record. -/
theorem deliver_of_say {owner : String} (hhandlers : j.handlersOf name = s.handlers owner)
    (r : Record) (henabled : j.isEnabled name r.level = decide (Level.debug ≤ r.level)) :
    (j.echoes name r = if Level.debug ≤ r.level ∧ s.console ≤ r.level then [.shown owner r] else []) ∧
      j.takers name r = if Level.debug ≤ r.level then s.file.toList else [] := by
  unfold echoes takers
  rw [henabled, hhandlers]
  by_cases hlevel : Level.debug ≤ r.level
  · simp only [hlevel, decide_true, true_and, if_true]
    exact ⟨s.echoes_handlers owner r, s.files_handlers owner r hlevel⟩
  · simp [hlevel]

/-! ## Answers that stay right -/

/-- If the logger has answered about the level before, it would answer the same now. -/
def IsSteady (j : Journal) (name : String) (level : Int) : Prop :=
  ∀ answer, j.answers.lookup (properName name, level) = some answer →
    answer = (j.register name).passes name level

theorem answers_register (j : Journal) (name : String) : (j.register name).answers = j.answers := by
  unfold register
  split <;> rfl

theorem isEnabled_of_steady {level : Int} (h : j.IsSteady name level) :
    (j.register name).isEnabled name level = (j.register name).passes name level := by
  unfold isEnabled
  rw [answers_register]
  cases ha : j.answers.lookup (properName name, level) with
  | none => rfl
  | some answer => exact h answer ha

/-- The second logger is the nearest one set up, and nothing keeps the parents of the first one from
leading there. -/
structure Joined (j : Journal) (station : String → Option Station) (name outer : String) :
    Prop where
  setUp : (station outer).isSome = true
  nearest : IsNearest station name outer
  apart : isRoot outer = false → ¬ ['.', '.'] <:+: name.toList.drop outer.length
  age : outer ∈ ["r", "ro", "roo"] → j.Precedes name outer

theorem Joined.of_register {other : String} (h : (j.register other).Joined station name outer) :
    j.Joined station name outer :=
  ⟨h.setUp, h.nearest, h.apart, fun hr => (h.age hr).of_register⟩

theorem Joined.of_asked {other : String} {level : Int}
    (h : (j.asked other level).Joined station name outer) :
    (j.register other).Joined station name outer :=
  ⟨h.setUp, h.nearest, h.apart, h.age⟩

theorem Furnished.passes_of_joined (hj : j.Furnished station)
    (h : (j.register name).Joined station name outer) (level : Int) :
    (j.register name).passes name level = decide (Level.debug ≤ level) := by
  obtain ⟨s, hs⟩ := Option.isSome_iff_exists.1 h.setUp
  have hleads := leads_of_liesUnder (j.has_register name) h.nearest.1
    ((hj.has outer s hs).register name) h.apart h.age
  exact passes_of_threshold (hj.say hs h.nearest hleads).2 level

/-- Each answer is what the nearest logger that was set up says, where nothing keeps the parents from
leading there. -/
def Faithful (j : Journal) (station : String → Option Station) : Prop :=
  ∀ name outer level answer, j.Joined station name outer →
    j.answers.lookup (properName name, level) = some answer → answer = decide (Level.debug ≤ level)

/-- The root is the same logger under both of its names. -/
theorem asked_congr {other : String} (h : properName other = properName name) (level : Int) :
    j.asked other level = j.asked name level := by
  rcases properName_eq_iff.1 h with rfl | ⟨hother, hname⟩
  · rfl
  · have hpasses : j.passes other level = j.passes name level := by
      unfold passes threshold lineage
      rw [lineageWithin_of_isRoot hother, lineageWithin_of_isRoot hname]
    simp [asked, register, remember, isEnabled, hother, hname, h, hpasses]

/-- One more answer is as right as the others: it goes by the parents, or was given before. -/
theorem Faithful.asked (h : j.Faithful station) (hj : j.Furnished station) (other : String)
    (level : Int) : (j.asked other level).Faithful station := by
  intro name outer level' answer hjoined hanswer
  by_cases hkey : (properName name, level') = (properName other, level)
  · obtain ⟨hname, rfl⟩ := Prod.mk.inj hkey
    rw [asked_congr hname.symm] at hanswer hjoined
    have hgiven : (j.register name).isEnabled name level' = answer := by
      simpa [Journal.asked, remember] using hanswer
    unfold isEnabled at hgiven
    rw [answers_register] at hgiven
    cases hbefore : j.answers.lookup (properName name, level') with
    | none =>
      rw [hbefore, Option.getD_none] at hgiven
      rw [← hgiven]
      exact hj.passes_of_joined hjoined.of_asked level'
    | some before =>
      rw [hbefore, Option.getD_some] at hgiven
      rw [← hgiven]
      exact h name outer level' before hjoined.of_asked.of_register hbefore
  · have hbefore : j.answers.lookup (properName name, level') = some answer := by
      rw [← j.answers_register other]
      simpa [Journal.asked, remember, List.lookup_cons, beq_eq_false_iff_ne.2 hkey] using hanswer
    exact h name outer level' answer hjoined.of_asked.of_register hbefore

end Journal

theorem faithful_journalAfter (known : List String) (history : List (Machine × LogCall)) :
    (journalAfter known history).Faithful (stationAfter history) := by
  have hboth : (journalAfter known history).Furnished (stationAfter history) ∧
      (journalAfter known history).Faithful (stationAfter history) := by
    refine journalAfter_induction (P := fun j station => j.Furnished station ∧ j.Faithful station)
      ⟨Journal.furnished_silent known, fun _ _ _ _ _ => nofun⟩ ?_ ?_ history
    · rintro j station ⟨hj, h⟩ name level
      exact ⟨hj.asked name level, h.asked hj name level⟩
    · rintro j station ⟨hj, h⟩ name s
      exact ⟨hj.furnish name s, fun _ _ _ _ _ => nofun⟩
  exact hboth.2

/-! ## Files that only grow -/

namespace FileTree

/-- Every file is still there, with more text behind its own if anything. -/
def Extends (t t' : FileTree) : Prop :=
  ∀ l f, t.find? l = some (.file f) →
    ∃ more, t'.find? l = some (.file { f with text := f.text ++ more })

namespace Extends
variable {t t' t'' : FileTree}

theorem refl (t : FileTree) : t.Extends t := fun l f h => ⟨"", by rw [h, String.append_empty]⟩

theorem trans (h : t.Extends t') (h' : t'.Extends t'') : t.Extends t'' := by
  intro l f hf
  obtain ⟨more, hmore⟩ := h l f hf
  obtain ⟨more', hmore'⟩ := h' l _ hmore
  exact ⟨more ++ more', by rw [hmore', ← String.append_assoc]⟩

/-- A change at a place where there was nothing. -/
theorem of_find?_eq_none {l₀ : Location} (hnone : t.find? l₀ = none)
    (hoff : ∀ l, l ≠ l₀ → t'.find? l = t.find? l) : t.Extends t' := by
  intro l f hf
  have hne : l ≠ l₀ := by
    rintro rfl
    rw [hnone] at hf
    cases hf
  obtain ⟨more, hmore⟩ := refl t l f hf
  exact ⟨more, (hoff l hne).trans hmore⟩

theorem append (t : FileTree) (h : Handle) (text : String) : t.Extends (t.append h text) := by
  intro l f hf
  by_cases hl : l = h.location
  · subst hl
    unfold FileTree.append
    rw [hf]
    simp only
    split
    · exact ⟨text, find?_set_self _ _ _⟩
    · exact refl t _ f hf
  · rw [find?_append_of_ne t h text hl]
    exact refl t l f hf

theorem appendEach (t : FileTree) (line : String) (files : List Handle) :
    t.Extends (t.appendEach line files) := by
  induction files generalizing t with
  | nil => exact refl t
  | cons h rest ih => exact (append t h line).trans (ih _)

theorem makeDirectory {cwd path : String} (h : t.makeDirectory cwd path = .ok t') :
    t.Extends t' := by
  unfold FileTree.makeDirectory at h
  split at h
  · cases h
  · next l parent hr =>
    split at h
    · cases h
      exact of_find?_eq_none (find?_of_vacant (walk_of_resolve hr)) fun k hk => find?_set_of_ne t _ hk
    · cases h
  · cases h

theorem openForWriting {cwd path : String} {handle : Handle}
    (h : t.openForWriting cwd path .append = .ok (handle, t')) : t.Extends t' := by
  unfold FileTree.openForWriting at h
  split at h
  · cases h
  · split at h
    · cases h
      exact refl t
    · cases h
  · next l parent hr =>
    split at h
    · cases h
    · split at h
      · cases h
        exact of_find?_eq_none (find?_of_vacant (walk_of_resolve hr)) fun k hk =>
          find?_create_of_ne t _ hk
      · cases h
  · cases h

end Extends

end FileTree

/-- The files of the machine are still there and have only grown. -/
def Machine.Grows (m m' : Machine) : Prop := m.tree.Extends m'.tree

section Growing
variable {m : Machine}

theorem grows_log (logger operation : String) (level : Int) (text : String) :
    Keeps m.Grows (log logger operation level text) := by
  intro m₁ h
  rw [log_eq]
  exact h.trans (.appendEach _ _ _)

theorem grows_makeDirectory (path : Path) : Keeps m.Grows (makeDirectory path) := by
  intro m₁ h
  unfold makeDirectory
  rw [bind_of_ok (get_apply m₁)]
  cases hm : m₁.tree.makeDirectory m₁.cwd path.toString with
  | ok t => exact h.trans (.makeDirectory hm)
  | error fault => exact h

theorem grows_ensureDirectory (path : Path) : Keeps m.Grows (ensureDirectory path) := by
  apply (grows_makeDirectory path).tryCatch
  intro s
  split
  · exact Keeps.throw _
  · have hlook : Keeps m.Grows (isDirectory path) := Keeps.of_still (still_isDirectory path)
    exact hlook.bind fun _ => Keeps.ite (Keeps.pure _) (Keeps.throw _)
  · exact Keeps.throw _

theorem grows_ensureDirectories (anchor : Anchor) (names : List String)
    (hnames : ∀ n ∈ names, IsName n) : Keeps m.Grows (ensureDirectories anchor names hnames) := by
  induction names with
  | nil => exact grows_ensureDirectory _
  | cons n above ih =>
    apply (grows_ensureDirectory _).tryCatch
    intro s
    split
    · exact (ih _).bind fun _ => grows_ensureDirectory _
    · exact Keeps.throw _

theorem grows_openForWriting (path : String) : Keeps m.Grows (openForWriting path .append) := by
  intro m₁ h
  cases ho : openForWriting path .append m₁ with
  | error s m₂ =>
    obtain ⟨-, rfl⟩ := openForWriting_eq_error ho
    exact h
  | ok handle m₂ =>
    obtain ⟨-, t, hopen, rfl⟩ := openForWriting_eq_ok ho
    exact h.trans (.openForWriting hopen)

theorem grows_setUpLogging (console : Int) (file : Option Path) (name : String) :
    Keeps m.Grows (setUpLogging console file name) := by
  have hregister : Keeps m.Grows (registerLogger name) := fun _ h => h
  have hadd : ∀ handler, Keeps m.Grows (addHandler name handler) := fun _ _ h => h
  refine hregister.bind fun _ => Keeps.bind (fun _ h => h) fun _ => (hadd _).bind fun _ => ?_
  cases file with
  | none => exact Keeps.pure _
  | some path =>
    apply (grows_ensureDirectories _ _ _).bind
    rintro - m₁ h
    rw [bind_of_ok (get_apply m₁)]
    exact ((grows_openForWriting _).bind fun _ => (hadd _).bind fun _ => grows_log _ _ _ _) m₁ h

end Growing

/-- Calls on the log one after the other, whether or not they stop. -/
def performCalls : List LogCall → MachineM Unit
  | [] => return
  | call :: rest => do
    tryCatch call.act fun _ => return
    performCalls rest

theorem grows_performCalls (calls : List LogCall) (m : Machine) :
    Keeps m.Grows (performCalls calls) := by
  induction calls with
  | nil => exact Keeps.pure _
  | cons call rest ih =>
    have hcall : Keeps m.Grows call.act := by
      cases call with
      | setUp console file name => exact grows_setUpLogging console file name
      | message name operation level text => exact grows_log name operation level text
    exact (hcall.tryCatch fun _ => Keeps.pure _).bind fun _ => ih

/-! ## Whole histories -/

/-- After any history of the log, a logger is as the latest call that set it up made it, with one
console and at most one log file. A record goes to the nearest logger above it that was set up, once
to that console and once to that file as far as its level reaches, and to nothing else, if the
parents of its logger lead there and it has not answered otherwise. They do and it has not, unless
two dots adjoin behind that one's name (the root aside), or its name starts the root's and another
one between them was there before. What is logged only adds to the files. -/
theorem log_routing (known : List String) (history : List (Machine × LogCall)) :
    let j := journalAfter known history
    let station := stationAfter history
    (∀ name, j.logger name =
      ((station name).map (·.logger (Journal.properName name))).getD (Journal.bare name)) ∧
    (∀ (m : Machine) (name outer operation : String) (level : Int) (text : String) (s : Station),
      station outer = some s → Journal.IsNearest station name outer →
      (j.register name).Leads name outer → j.IsSteady name level →
      let owner := Journal.properName outer
      let r : Record := ⟨Journal.properName name, operation, level, text⟩
      (j.register name).handlersOf name = s.handlers owner ∧
      log name operation level text { m with journal := j } = .ok ()
        { m with
          journal := j.asked name level
          trace := m.trace ++ .logged r ::
            if Level.debug ≤ level ∧ s.console ≤ level then [.shown owner r] else []
          tree := m.tree.appendEach r.line (if Level.debug ≤ level then s.file.toList else []) }) ∧
    (∀ name outer, (station outer).isSome = true → Journal.LiesUnder name outer →
      (Journal.isRoot outer = false → ¬ ['.', '.'] <:+: name.toList.drop outer.length) →
      (outer ∈ ["r", "ro", "roo"] → (j.register name).Precedes name outer) →
      (j.register name).Leads name outer ∧
        (Journal.IsNearest station name outer → ∀ level, j.IsSteady name level)) ∧
    ∀ (m : Machine) (calls : List LogCall),
      m.tree.Extends (endState (performCalls calls m)).tree := by
  intro j station
  have hj : j.Furnished station := furnished_journalAfter known history
  refine ⟨hj.logger, ?_, ?_, fun m calls => grows_performCalls calls m m (.refl _)⟩
  · intro m name outer operation level text s hs hnearest hleads hsteady owner r
    obtain ⟨hhandlers, hthreshold⟩ := hj.say hs hnearest hleads
    have henabled : (j.asked name level).isEnabled name level = decide (Level.debug ≤ level) := by
      rw [Journal.isEnabled_asked, Journal.isEnabled_of_steady hsteady,
        Journal.passes_of_threshold hthreshold]
    obtain ⟨hechoes, htakers⟩ :=
      Journal.deliver_of_say ((j.handlersOf_asked name level name).trans hhandlers) r henabled
    refine ⟨hhandlers, ?_⟩
    rw [log_eq]
    simp only [Machine.afterLog]
    rw [hechoes, htakers]
  · intro name outer houter hunder hdots hage
    obtain ⟨s, hs⟩ := Option.isSome_iff_exists.1 houter
    refine ⟨Journal.leads_of_liesUnder (j.has_register name) hunder
      ((hj.has outer s hs).register name) hdots hage, fun hnearest level answer hanswer => ?_⟩
    have hjoined : (j.register name).Joined station name outer := ⟨houter, hnearest, hdots, hage⟩
    have hfaithful : j.Faithful station := faithful_journalAfter known history
    rw [hj.passes_of_joined hjoined]
    exact hfaithful name outer level answer hjoined.of_register hanswer

/-- Where one logger alone was set up, it is the nearest one to what lies under it. -/
theorem Journal.isNearest_of_only {station : String → Option Station} {name outer : String}
    (hunder : LiesUnder name outer)
    (honly : ∀ other, (station other).isSome = true → properName outer = properName other) :
    IsNearest station name outer := by
  refine ⟨hunder, fun other hother _ => ?_⟩
  rcases properName_eq_iff.1 (honly other hother) with rfl | ⟨-, hroot⟩
  · exact .refl _
  · exact Or.inl hroot

/-- A machine with an empty working directory. -/
def emptyDesk : Machine where
  cwd := "/work"
  searchPath := none
  tree := ⟨[([], .directory .plain), (["work"], .directory .plain)], 2⟩
  programs _ _ _ t := .ran t "" "" (.exited 0)
  turns _ := 0
  journal := .silent []
  trace := []

/-- A logger set up twice there, the second time with another log file. -/
def setUpTwice : List (Machine × LogCall) :=
  [(emptyDesk, .setUp Level.debug (some (.ofString "a.log")) "app"),
    (emptyDesk, .message "app.part" "step" Level.info "between"),
    (emptyDesk, .setUp Level.warning (some (.ofString "logs/b.log")) "app")]

theorem log_routing_twice :
    let s : Station := ⟨Level.warning, some ⟨["b.log", "logs", "work"], 2⟩⟩
    stationAfter setUpTwice "app" = some s ∧
      Journal.IsNearest (stationAfter setUpTwice) "app.part" "app" ∧
      ((journalAfter [] setUpTwice).register "app.part").Leads "app.part" "app" ∧
      ((journalAfter [] setUpTwice).register "app.part").handlersOf "app.part" = s.handlers "app" := by
  intro s
  have hstation : stationAfter setUpTwice "app" = some s := by decide +kernel
  have hunder : Journal.LiesUnder "app.part" "app" := by decide
  have honly : ∀ other, (stationAfter setUpTwice other).isSome = true →
      Journal.properName "app" = Journal.properName other := by
    intro other h
    by_contra hne
    simp [stationAfter, setUpTwice, LogCall.station?, hne] at h
  have hnearest := Journal.isNearest_of_only hunder honly
  obtain ⟨-, hdeliver, hleads, -⟩ := log_routing [] setUpTwice
  obtain ⟨hlead, hsteady⟩ := hleads "app.part" "app" (by rw [hstation]; rfl) hunder
    (fun _ => by decide) fun h => absurd h (by decide)
  exact ⟨hstation, hnearest, hlead, (hdeliver emptyDesk "app.part" "app" "step" Level.info "" s
    hstation hnearest hlead (hsteady hnearest Level.info)).1⟩

/-- The trace of a message that is logged after calls. -/
def messaged (history : List (Machine × LogCall)) (name : String) (level : Int) : List Event :=
  (endState (log name "step" level "late"
    { emptyDesk with journal := journalAfter [] history })).trace

/-- A message on the first logger does not come to the console of the second one, although that is
the nearest one set up, and shows messages of the level. -/
def Misses (history : List (Machine × LogCall)) (name outer : String) (level : Int) : Prop :=
  stationAfter history outer = some ⟨level, none⟩ ∧
    Journal.IsNearest (stationAfter history) name outer ∧
    ∀ r, .shown outer r ∉ messaged history name level

/-- Two loggers behind two dots, of which the outer one becomes known only when the inner one has
refused a message. -/
def answeredEarly : List (Machine × LogCall) :=
  [(emptyDesk, .setUp Level.info none "a"),
    (emptyDesk, .message "a..b" "step" Level.info ""),
    (emptyDesk, .message "a." "step" Level.info "")]

/-- So it is below a logger whose name starts the root's and that was not there first, behind two
dots, and where the logger has answered before its parents led to the other one. -/
theorem log_routing_unlinked :
    Misses [(emptyDesk, .message "r.x" "step" Level.info ""),
      (emptyDesk, .setUp Level.warning none "r")] "r.x" "r" Level.warning ∧
    Misses [(emptyDesk, .setUp Level.warning none "x")] "x..y" "x" Level.warning ∧
    ((journalAfter [] answeredEarly).register "a..b").Leads "a..b" "a" ∧
    Misses answeredEarly "a..b" "a" Level.info := by
  have hwarning : ∀ history name, messaged history name Level.warning =
        [.logged ⟨name, "step", Level.warning, "late"⟩, .printed .errors "late\n"] →
      ∀ outer r, .shown outer r ∉ messaged history name Level.warning := by
    intro history name htrace outer r hmem
    rw [htrace] at hmem
    simp at hmem
  refine ⟨⟨by decide +kernel, Journal.isNearest_of_only (by decide) fun other h => ?_,
      hwarning _ _ (by decide +kernel) _⟩,
    ⟨by decide +kernel, Journal.isNearest_of_only (by decide) fun other h => ?_,
      hwarning _ _ (by decide +kernel) _⟩, ?_,
    by decide +kernel, Journal.isNearest_of_only (by decide) fun other h => ?_, fun r hmem => ?_⟩
  · by_contra hne
    simp [stationAfter, LogCall.station?, hne] at h
  · by_contra hne
    simp [stationAfter, LogCall.station?, hne] at h
  · let j := (journalAfter [] answeredEarly).register "a..b"
    have hinner : j.parentName? "a..b" = some "a." := by decide +kernel
    have houter : j.parentName? "a." = some "a" := by decide +kernel
    exact .up hinner (.up houter (.here _))
  · by_contra hne
    simp [stationAfter, answeredEarly, LogCall.station?, hne] at h
  · have htrace : messaged answeredEarly "a..b" Level.info =
        [.logged ⟨"a..b", "step", Level.info, "late"⟩] := by decide +kernel
    rw [htrace] at hmem
    simp at hmem

end FirmwareAudit
