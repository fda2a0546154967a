import FirmwareAudit.Proofs.Ancestry
import FirmwareAudit.Proofs.LogSetup
import Mathlib.Data.List.Induction

/-! # Histories of the log

Loggers are set up and messages are logged, in any order, and the machine may have become another
one between two calls; the journal stays. What a logger is then like, only the last call that set it
up has a say in.
-/
namespace FirmwareAudit

/-! ## Work without the journal -/

/-- The same outcome, on a machine with another journal. -/
def withJournal (j : Journal) : EStateM.Result Stop Machine α → EStateM.Result Stop Machine α
  | .ok a m => .ok a { m with journal := j }
  | .error s m => .error s { m with journal := j }

/-- The work neither asks for the journal nor changes it. -/
def Unjournaled (act : MachineM α) : Prop :=
  ∀ m j, act { m with journal := j } = withJournal j (act m)

namespace Unjournaled

theorem pure (a : α) : Unjournaled (pure a : MachineM α) := fun _ _ => rfl

theorem throw (s : Stop) : Unjournaled (throw s : MachineM α) := fun _ _ => rfl

theorem bind {x : MachineM α} {f : α → MachineM β} (hx : Unjournaled x)
    (hf : ∀ a, Unjournaled (f a)) : Unjournaled (x >>= f) := by
  intro m j
  have h := hx m j
  cases hr : x m with
  | ok a m' =>
    rw [hr] at h
    rw [bind_of_ok h, bind_of_ok hr]
    exact hf a m' j
  | error s m' =>
    rw [hr] at h
    rw [bind_of_error h, bind_of_error hr]
    rfl

theorem ite {c : Prop} [Decidable c] {x y : MachineM α} (hx : Unjournaled x) (hy : Unjournaled y) :
    Unjournaled (if c then x else y) := by
  split
  · exact hx
  · exact hy

theorem tryCatch {x : MachineM α} {h : Stop → MachineM α} (hx : Unjournaled x)
    (hh : ∀ s, Unjournaled (h s)) : Unjournaled (tryCatch x h) := by
  intro m j
  have hj := hx m j
  cases hr : x m with
  | ok a m' =>
    rw [hr] at hj
    rw [tryCatch_of_ok hj, tryCatch_of_ok hr]
    rfl
  | error s m' =>
    rw [hr] at hj
    rw [tryCatch_of_error hj, tryCatch_of_error hr]
    exact hh s m' j

end Unjournaled

theorem unjournaled_makeDirectory (path : Path) : Unjournaled (makeDirectory path) := by
  intro m j
  unfold makeDirectory
  rw [bind_of_ok (get_apply _), bind_of_ok (get_apply _)]
  simp only
  cases m.tree.makeDirectory m.cwd path.toString <;> rfl

theorem unjournaled_isDirectory (path : Path) : Unjournaled (isDirectory path) := by
  have hnode : Unjournaled (nodeAt path) := by
    intro m j
    unfold nodeAt
    rw [bind_of_ok (get_apply _), bind_of_ok (get_apply _)]
    simp only
    cases m.tree.probe m.cwd path.toString <;> rfl
  apply hnode.bind
  intro n
  split <;> exact .pure _

theorem unjournaled_openForWriting (path : String) (mode : FileTree.WriteMode) :
    Unjournaled (openForWriting path mode) := by
  intro m j
  unfold openForWriting
  rw [bind_of_ok (get_apply _), bind_of_ok (get_apply _)]
  simp only
  cases m.tree.openForWriting m.cwd path mode <;> rfl

theorem unjournaled_ensureDirectory (path : Path) : Unjournaled (ensureDirectory path) := by
  apply (unjournaled_makeDirectory path).tryCatch
  intro s
  split
  · exact .throw _
  · exact (unjournaled_isDirectory path).bind fun _ => .ite (.pure _) (.throw _)
  · exact .throw _

theorem unjournaled_ensureDirectories (anchor : Anchor) (names : List String)
    (hnames : ∀ n ∈ names, IsName n) : Unjournaled (ensureDirectories anchor names hnames) := by
  induction names with
  | nil => exact unjournaled_ensureDirectory _
  | cons n above ih =>
    apply (unjournaled_ensureDirectory _).tryCatch
    intro s
    split
    · exact (ih _).bind fun _ => unjournaled_ensureDirectory _
    · exact .throw _

/-- Opens a log file to write at its end, with the directories that it needs. -/
def openLogFile (path : Path) : MachineM Handle := do
  path.parent.makeAll
  let m ← get
  openForWriting (path.absolute m.cwd).toString .append

theorem unjournaled_openLogFile (path : Path) : Unjournaled (openLogFile path) := by
  apply (unjournaled_ensureDirectories _ _ _).bind
  intro _ m j
  rw [bind_of_ok (get_apply _), bind_of_ok (get_apply _)]
  exact unjournaled_openForWriting _ _ m j

/-! ## What a logger is set up with -/

/-- What a logger has from the call that set it up: a console with a threshold, and the log file if
one was opened. -/
structure Station where
  console : Int
  file : Option Handle
  deriving DecidableEq

namespace Station

def handlers (s : Station) (owner : String) : List Handler :=
  ⟨.console owner, s.console⟩ :: s.file.toList.map fun h => ⟨.file h, Level.debug⟩

def logger (s : Station) (owner : String) : Logger := ⟨Level.debug, false, s.handlers owner⟩

end Station

/-- The log file that would be opened at the path. -/
def Machine.opens? (m : Machine) (path : Path) : Option Handle :=
  match openLogFile path m with
  | .ok h _ => some h
  | .error .. => none

theorem Machine.opens?_withJournal (m : Machine) (j : Journal) :
    ({ m with journal := j } : Machine).opens? = m.opens? := by
  funext path
  unfold opens?
  rw [unjournaled_openLogFile path m j]
  cases openLogFile path m <;> rfl

namespace Journal

theorem lookup_update_of_ne {j : Journal} {name other : String} (h : other ≠ name)
    (f : Logger → Logger) : (j.update name f).named.lookup other = j.named.lookup other := by
  unfold update
  split
  · rfl
  · induction j.named with
    | nil => rfl
    | cons e rest ih =>
      obtain ⟨first, l⟩ := e
      cases ho : other == first with
      | true =>
        have hne : first ≠ name := fun he => h ((beq_iff_eq.1 ho).trans he)
        simp [List.lookup_cons, ho, hne]
      | false =>
        by_cases hf : first = name
        · subst hf
          simpa [List.lookup_cons, ho] using ih
        · simpa [hf, List.lookup_cons, ho] using ih

theorem isRoot_properName (name : String) : isRoot (properName name) = isRoot name := by
  unfold properName
  split
  · next h => exact h.symm
  · rfl

theorem properName_eq_iff {name other : String} :
    properName other = properName name ↔ other = name ∨ isRoot other = true ∧ isRoot name = true := by
  constructor
  · intro h
    have hroot : isRoot other = isRoot name := by
      rw [← isRoot_properName other, h, isRoot_properName]
    cases hn : isRoot name with
    | true => exact Or.inr ⟨hroot.trans hn, rfl⟩
    | false =>
      rw [hn] at hroot
      simp only [properName, hroot, hn, Bool.false_eq_true, if_false] at h
      exact Or.inl h
  · rintro (rfl | ⟨ho, hn⟩)
    · rfl
    · simp only [properName, ho, hn, if_true]

theorem logger_update {j : Journal} {name : String} (h : j.Has name) (f : Logger → Logger)
    (other : String) : (j.update name f).logger other =
      if properName other = properName name then f (j.logger other) else j.logger other := by
  have hne : isRoot other ≠ isRoot name → other ≠ name := mt (congrArg isRoot)
  cases hn : isRoot name with
  | true =>
    cases ho : isRoot other with
    | true => simp [logger, update, properName_eq_iff, hn, ho]
    | false =>
      rw [ho, hn] at hne
      simp [logger, update, properName_eq_iff, hn, ho, hne Bool.false_ne_true]
  | false =>
    cases ho : isRoot other with
    | true =>
      rw [ho, hn] at hne
      simp [logger, update, properName_eq_iff, hn, ho, hne Bool.false_ne_true.symm]
    | false =>
      by_cases heq : other = name
      · subst heq
        obtain ⟨l, hl⟩ := Option.isSome_iff_exists.1 (h.resolve_left (by simp [hn]))
        simp [logger, hn, lookup_update hn, hl]
      · simp [logger, properName_eq_iff, ho, heq, lookup_update_of_ne heq]

theorem Has.update {j : Journal} {outer : String} (h : j.Has outer) (name : String)
    (f : Logger → Logger) : (j.update name f).Has outer := by
  refine h.imp id fun hl => ?_
  cases hn : isRoot name with
  | true => simpa [Journal.update, hn] using hl
  | false =>
    by_cases heq : outer = name
    · subst heq
      rw [lookup_update hn, Option.isSome_map]
      exact hl
    · rwa [lookup_update_of_ne heq]

theorem update_update (j : Journal) (name : String) (f g : Logger → Logger) :
    (j.update name f).update name g = j.update name (g ∘ f) := by
  unfold update
  split
  · rfl
  · simp only [List.map_map, Journal.mk.injEq, true_and, and_true]
    refine List.map_congr_left fun e _ => ?_
    by_cases he : e.1 = name <;> simp [he]

theorem update_forget (j : Journal) (name : String) (f : Logger → Logger) :
    j.forget.update name f = (j.update name f).forget := by
  unfold update
  split <;> rfl

/-- The journal once a logger has this, and nothing was logged since. -/
def furnish (j : Journal) (name : String) (s : Station) : Journal :=
  ((j.register name).update name fun _ => s.logger (properName name)).forget

/-- The journal once a logger was set up with this. If it has a log file, a message says so. -/
def stationed (j : Journal) (name : String) (s : Station) : Journal :=
  if s.file.isSome then (j.furnish name s).asked name Level.debug else j.furnish name s

end Journal

/-- What setting a logger up does to the journal, whether or not the log file can be opened. -/
theorem journal_setUpLogging (console : Int) (file : Option Path) (name : String) (m : Machine) :
    (endState (setUpLogging console file name m)).journal =
      m.journal.stationed name ⟨console, file.bind m.opens?⟩ := by
  -- The logger with its console alone, which is what stays if the file cannot be opened.
  let j := m.journal.furnish name ⟨console, none⟩
  have hconsole : ((m.journal.register name).update name fun _ =>
        ⟨Level.debug, false, []⟩).forget.update name (fun l =>
          { l with handlers := l.handlers ++ [⟨.console (Journal.properName name), console⟩] }) =
      j := by
    rw [Journal.update_forget, Journal.update_update]
    rfl
  unfold setUpLogging registerLogger
  rw [bind_of_ok (modify_apply _ _), bind_of_ok (modify_apply _ _), addHandler,
    bind_of_ok (modify_apply _ _)]
  simp only [hconsole]
  cases file with
  | none => rfl
  | some path =>
    have hstart : (do
        path.parent.makeAll
        let m ← get
        let h ← openForWriting (path.absolute m.cwd).toString .append
        addHandler name ⟨.file h, Level.debug⟩
        log name "setup_logging" Level.debug ("Log file: " ++ path.toString) : MachineM Unit) =
      (do
        let h ← openLogFile path
        addHandler name ⟨.file h, Level.debug⟩
        log name "setup_logging" Level.debug ("Log file: " ++ path.toString)) := by
      simp only [openLogFile, bind_assoc]
    have hend := congrFun hstart { m with journal := j }
    refine (congrArg (fun r => (endState r).journal) hend).trans ?_
    have hopen := unjournaled_openLogFile path m j
    cases ho : openLogFile path m with
    | error s m' =>
      have hfile : (some path).bind m.opens? = none := by simp [Machine.opens?, ho]
      rw [ho] at hopen
      rw [bind_of_error hopen, hfile]
      rfl
    | ok h m' =>
      have hfile : (some path).bind m.opens? = some h := by simp [Machine.opens?, ho]
      have hboth : j.update name (fun l =>
          { l with handlers := l.handlers ++ [⟨.file h, Level.debug⟩] }) =
          m.journal.furnish name ⟨console, some h⟩ := by
        rw [← hconsole, Journal.update_forget, Journal.update_forget, Journal.update_update,
          Journal.update_update]
        rfl
      rw [ho] at hopen
      rw [bind_of_ok hopen, addHandler, bind_of_ok (modify_apply _ _), log_eq, hfile]
      exact congrArg (fun k : Journal => k.asked name Level.debug) hboth

/-! ## Histories -/

/-- A call on the log. -/
inductive LogCall
  | setUp (console : Int) (file : Option Path) (name : String)
  | message (name operation : String) (level : Int) (text : String)

namespace LogCall

def act : LogCall → MachineM Unit
  | setUp console file name => setUpLogging console file name
  | message name operation level text => log name operation level text

/-- What the call sets the logger up with, if it is a call that sets it up. -/
def station? (m : Machine) (name : String) : LogCall → Option Station
  | setUp console file other =>
    if Journal.properName other = Journal.properName name then
      some ⟨console, file.bind m.opens?⟩
    else none
  | message .. => none

end LogCall

/-- The journal after calls, each with the machine it is made on, where these loggers were known
before. -/
def journalAfter (known : List String) (history : List (Machine × LogCall)) : Journal :=
  history.foldl (fun j t => (endState (t.2.act { t.1 with journal := j })).journal) (.silent known)

/-- What the latest call that set a logger up set it up with. -/
def stationAfter (history : List (Machine × LogCall)) (name : String) : Option Station :=
  history.reverse.findSome? fun t => t.2.station? t.1 name

theorem journalAfter_concat (known : List String) (history : List (Machine × LogCall))
    (t : Machine × LogCall) : journalAfter known (history ++ [t]) =
      (endState (t.2.act { t.1 with journal := journalAfter known history })).journal :=
  List.foldl_concat ..

theorem stationAfter_concat (history : List (Machine × LogCall)) (t : Machine × LogCall)
    (name : String) : stationAfter (history ++ [t]) name =
      (t.2.station? t.1 name).or (stationAfter history name) := by
  unfold stationAfter
  rw [List.reverse_concat, List.findSome?_cons]
  cases t.2.station? t.1 name <;> rfl

namespace Journal

/-- A logger that no call set up. -/
def bare (name : String) : Logger :=
  if isRoot name then { Logger.fresh with level := Level.warning } else .fresh

/-- Each logger is as it was set up, or bare. -/
structure Furnished (j : Journal) (station : String → Option Station) : Prop where
  logger : ∀ name, j.logger name =
    ((station name).map (·.logger (properName name))).getD (bare name)
  has : ∀ name s, station name = some s → j.Has name

theorem furnished_silent (known : List String) : (silent known).Furnished fun _ => none := by
  refine ⟨fun name => ?_, nofun⟩
  have hfresh : ((silent known).named.lookup name).getD .fresh = .fresh := by
    simp only [silent]
    induction known with
    | nil => rfl
    | cons first rest ih =>
      rw [List.map_cons, List.lookup_cons]
      split
      · rfl
      · exact ih
  rw [Journal.logger, hfresh]
  rfl

variable {j : Journal} {station : String → Option Station}

theorem Furnished.register (h : j.Furnished station) (name : String) :
    (j.register name).Furnished station :=
  ⟨fun other => (j.logger_register name other).trans (h.logger other),
    fun other s hs => (h.has other s hs).register name⟩

theorem Furnished.asked (h : j.Furnished station) (name : String) (level : Int) :
    (j.asked name level).Furnished station :=
  ⟨(h.register name).logger, (h.register name).has⟩

theorem Furnished.furnish (h : j.Furnished station) (name : String) (s : Station) :
    (j.furnish name s).Furnished fun other =>
      if properName name = properName other then some s else station other := by
  have hknown := j.has_register name
  refine ⟨fun other => (logger_update hknown _ other).trans ?_, fun other s' hs => ?_⟩
  · by_cases heq : properName name = properName other
    · rw [if_pos heq.symm, if_pos heq, heq]
      rfl
    · rw [if_neg (Ne.symm heq), if_neg heq]
      exact (j.logger_register name other).trans (h.logger other)
  · split at hs
    · next heq =>
      rcases properName_eq_iff.1 heq with rfl | ⟨-, hroot⟩
      · exact hknown.update _ _
      · exact Or.inl hroot
    · exact ((h.has other s' hs).register name).update _ _

end Journal

/-- What holds at the start and is kept by each call holds after any history. -/
theorem journalAfter_induction {P : Journal → (String → Option Station) → Prop}
    {known : List String} (silent : P (.silent known) fun _ => none)
    (asked : ∀ j station, P j station → ∀ name level, P (j.asked name level) station)
    (furnish : ∀ j station, P j station → ∀ name s, P (j.furnish name s) fun other =>
      if Journal.properName name = Journal.properName other then some s else station other)
    (history : List (Machine × LogCall)) :
    P (journalAfter known history) (stationAfter history) := by
  induction history using List.reverseRecOn with
  | nil => exact silent
  | append_singleton history t ih =>
    obtain ⟨m, call⟩ := t
    rw [journalAfter_concat]
    cases call with
    | message name operation level text =>
      have hstation : stationAfter (history ++ [(m, .message name operation level text)]) =
          stationAfter history := by
        funext other
        rw [stationAfter_concat]
        rfl
      rw [hstation, LogCall.act, log_eq]
      exact asked _ _ ih name level
    | setUp console file name =>
      let s : Station := ⟨console, file.bind m.opens?⟩
      have hstation : stationAfter (history ++ [(m, .setUp console file name)]) = fun other =>
          if Journal.properName name = Journal.properName other then some s
          else stationAfter history other := by
        funext other
        rw [stationAfter_concat, LogCall.station?]
        split <;> rfl
      rw [hstation, LogCall.act, journal_setUpLogging, m.opens?_withJournal]
      have hfurnish := furnish _ _ ih name s
      unfold Journal.stationed
      split
      · exact asked _ _ hfurnish name Level.debug
      · exact hfurnish

theorem furnished_journalAfter (known : List String) (history : List (Machine × LogCall)) :
    (journalAfter known history).Furnished (stationAfter history) :=
  journalAfter_induction (Journal.furnished_silent known)
    (fun _ _ h name level => h.asked name level) (fun _ _ h name s => h.furnish name s) history

end FirmwareAudit
