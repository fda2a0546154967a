import FirmwareAudit.Proofs.Places
import FirmwareAudit.Proofs.Verification

/-! # Trails

What is done with a machine leaves a trail on its files: programs change them, files are opened and
removed, and lines are put at the end of files that are open. A place where there is nothing stays
empty on the way, unless a file is opened there or a program puts something there.
-/
namespace FirmwareAudit

/-- The files that a program found and those that it left. -/
structure Change where
  before : FileTree
  after : FileTree

/-- The program put something where there was nothing. -/
def Change.Brings (c : Change) (l : Location) : Prop :=
  c.before.find? l = none ∧ c.after.find? l ≠ none

namespace Event

/-- Whether an event leaves all files as they are. -/
def isTold : Event → Bool
  | ran _ => false
  | opened _ => false
  | unlinked _ none => false
  | _ => true

end Event

section Trails
variable (cwd : String) (programs : String → Program)

/-- The run is one of the program that it names, and it made this change. -/
def Run.Made (r : Run) (c : Change) : Prop :=
  ∃ program arguments turn, r.command = program :: arguments ∧
    programs (baseName program) turn ⟨cwd, program, arguments⟩ c.before =
      .ran c.after r.out r.err r.ending

/-- How the files come from one tree to another in the course of events and of the changes that
programs make. -/
inductive Trail : FileTree → List Event → List Change → FileTree → Prop
  | still (t : FileTree) : Trail t [] [] t
  | told (t : FileTree) {e : Event} (he : e.isTold = true) : Trail t [e] [] t
  | written (t : FileTree) (h : Handle) (text : String) : Trail t [] [] (t.append h text)
  | removed {t t' : FileTree} {path : String} (h : t.unlink cwd path = .ok t') :
      Trail t [.unlinked path none] [] t'
  | opened {t t' : FileTree} {path : String} {mode : FileTree.WriteMode} {handle : Handle}
      (h : t.openForWriting cwd path mode = .ok (handle, t')) : Trail t [.opened path] [] t'
  | ran {r : Run} {c : Change} (h : r.Made cwd programs c) : Trail c.before [.ran r] [c] c.after
  | append {t t' t'' : FileTree} {es fs : List Event} {cs ds : List Change}
      (h : Trail t es cs t') (h' : Trail t' fs ds t'') : Trail t (es ++ fs) (cs ++ ds) t''

end Trails

theorem Journal.isTold_of_mem_echoes {j : Journal} {logger : String} {r : Record} {e : Event}
    (he : e ∈ j.echoes logger r) : e.isTold = true := by
  rcases Journal.mem_echoes he with ⟨owner, rfl⟩ | ⟨text, rfl⟩ <;> rfl

namespace FileTree

theorem find?_append_of_none (t : FileTree) (h : Handle) (text : String) {l : Location}
    (hl : t.find? l = none) : (t.append h text).find? l = none := by
  by_cases hne : l = h.location
  · subst hne
    unfold append
    rw [hl]
    exact hl
  · rw [find?_append_of_ne t h text hne, hl]

/-- A file that was removed is gone, and nothing came in its place. -/
theorem find?_of_unlink_eq_ok {t t' : FileTree} {cwd path : String}
    (h : t.unlink cwd path = .ok t') :
    t'.find? (placeOf cwd path) = none ∧ ∀ l, t.find? l = none → t'.find? l = none := by
  unfold unlink at h
  cases hr : t.resolve cwd path with
  | error e => simp [hr] at h
  | ok target =>
    have hplace := location_of_resolve hr
    rw [hr] at h
    cases target with
    | vacant l d => cases h
    | node l n =>
      cases n with
      | directory d => cases h
      | file f =>
        have hl : l = placeOf cwd path := hplace
        simp only at h
        split at h
        · cases h
        · split at h
          · cases h
            refine ⟨by rw [← hl, find?_erase_self], fun k hk => ?_⟩
            by_cases hkl : k = l
            · rw [hkl, find?_erase_self]
            · rw [find?_erase_of_ne t hkl, hk]
          · cases h

end FileTree

namespace Trail
variable {cwd : String} {programs : String → Program} {t t' : FileTree} {es : List Event}
  {cs : List Change}

/-- There is one change for each run. -/
theorem runs (h : Trail cwd programs t es cs t') :
    List.Forall₂ (Run.Made cwd programs) (runsOf es) cs := by
  induction h with
  | still t => exact .nil
  | @told t e he =>
    cases e with
    | ran r => cases he
    | _ => exact .nil
  | written t h text => exact .nil
  | removed h => exact .nil
  | opened h => exact .nil
  | ran h => exact .cons h .nil
  | append h h' ih ih' =>
    rw [runsOf_append]
    exact List.rel_append ih ih'

theorem find?_of_none (h : Trail cwd programs t es cs t') {l : Location}
    (hopen : ∀ path, .opened path ∈ es → FileTree.placeOf cwd path ≠ l)
    (hchange : ∀ c ∈ cs, ¬ c.Brings l)
    (ht : t.find? l = none) : t'.find? l = none := by
  induction h with
  | still t => exact ht
  | told t he => exact ht
  | written t h text => exact t.find?_append_of_none h text ht
  | removed h => exact (FileTree.find?_of_unlink_eq_ok h).2 l ht
  | @opened t t' path mode handle h =>
    have hne := hopen path List.mem_cons_self
    have hl : ∀ target, t.resolve cwd path = .ok target → target.location ≠ l :=
      fun target hr he => hne ((FileTree.location_of_resolve hr).symm.trans he)
    rw [(FileTree.find?_of_openForWriting h hl).2, ht]
  | ran h =>
    by_contra hne
    exact hchange _ List.mem_cons_self ⟨ht, hne⟩
  | append h h' ih ih' =>
    have hmid := ih (fun path hp => hopen path (List.mem_append_left _ hp))
      (fun c hc => hchange c (List.mem_append_left _ hc)) ht
    exact ih' (fun path hp => hopen path (List.mem_append_right _ hp))
      (fun c hc => hchange c (List.mem_append_right _ hc)) hmid

theorem told_each (t : FileTree) {es : List Event} (h : ∀ e ∈ es, e.isTold = true) :
    Trail cwd programs t es [] t := by
  induction es with
  | nil => exact .still t
  | cons e rest ih =>
    rw [List.forall_mem_cons] at h
    exact (Trail.told t h.1).append (ih h.2)

theorem written_each (t : FileTree) (line : String) (files : List Handle) :
    Trail cwd programs t [] [] (t.appendEach line files) := by
  induction files generalizing t with
  | nil => exact .still t
  | cons f rest ih => exact (Trail.written t f line).append (ih (t.append f line))

end Trail

namespace Machine

/-- The second machine comes from the first one in the course of events and of the changes that
programs made. -/
structure Comes (m : Machine) (es : List Event) (cs : List Change) (m' : Machine) : Prop where
  cwd : m'.cwd = m.cwd
  programs : m'.programs = m.programs
  trace : m'.trace = m.trace ++ es
  trail : Trail m.cwd m.programs m.tree es cs m'.tree

namespace Comes
variable {m m' m'' : Machine} {es fs : List Event} {cs ds : List Change}

theorem refl (m : Machine) : m.Comes [] [] m := ⟨rfl, rfl, (List.append_nil _).symm, .still _⟩

theorem trans (h : m.Comes es cs m') (h' : m'.Comes fs ds m'') :
    m.Comes (es ++ fs) (cs ++ ds) m'' where
  cwd := h'.cwd.trans h.cwd
  programs := h'.programs.trans h.programs
  trace := by rw [h'.trace, h.trace, List.append_assoc]
  trail := by
    have htrail := h'.trail
    rw [h.cwd, h.programs] at htrail
    exact h.trail.append htrail

theorem acts_eq (h : m.Comes es cs m') (hadds : m.Adds fs m') : acts es = fs := by
  obtain ⟨added, ht, rfl⟩ := hadds
  rw [List.append_cancel_left (h.trace.symm.trans ht)]

theorem runs (h : m.Comes es cs m') :
    List.Forall₂ (Run.Made m.cwd m.programs) (runsOf es) cs :=
  h.trail.runs

end Comes

/-- The second machine comes from the first one, and on the way only such files are opened. -/
def Reaches (opens : String → Prop) (m m' : Machine) : Prop :=
  ∃ es cs, m.Comes es cs m' ∧ ∀ path, .opened path ∈ es → opens path

namespace Reaches
variable {opens : String → Prop} {m m₁ m₂ : Machine}

theorem refl (opens : String → Prop) (m : Machine) : m.Reaches opens m :=
  ⟨[], [], .refl m, nofun⟩

theorem cwd (h : m.Reaches opens m₁) : m₁.cwd = m.cwd := by
  obtain ⟨es, cs, hcomes, -⟩ := h
  exact hcomes.cwd

theorem step {es : List Event} {cs : List Change} (h : m.Reaches opens m₁)
    (hstep : m₁.Comes es cs m₂) (hes : ∀ path, .opened path ∈ es → opens path) :
    m.Reaches opens m₂ := by
  obtain ⟨fs, ds, hcomes, hopen⟩ := h
  refine ⟨fs ++ es, ds ++ cs, hcomes.trans hstep, fun path hp => ?_⟩
  rcases List.mem_append.1 hp with hp | hp
  · exact hopen path hp
  · exact hes path hp

theorem record (h : m.Reaches opens m₁) {e : Event} (he : e.isTold = true) :
    m.Reaches opens (m₁.record e) := by
  refine h.step ⟨rfl, rfl, rfl, .told _ he⟩ fun path hp => ?_
  rw [← List.mem_singleton.1 hp] at he
  cases he

/-! ## Work on the machine -/

theorem keeps_log (logger operation : String) (level : Int) (message : String) :
    Keeps (m.Reaches opens) (log logger operation level message) := by
  intro m₁ h
  rw [log_eq]
  let j := m₁.journal.asked logger level
  let r : Record := ⟨Journal.properName logger, operation, level, message⟩
  have htold : ∀ e ∈ .logged r :: j.echoes logger r, e.isTold = true := by
    intro e he
    rcases List.mem_cons.1 he with rfl | he
    · rfl
    · exact Journal.isTold_of_mem_echoes he
  have hcomes : m₁.Comes (.logged r :: j.echoes logger r) []
      (m₁.afterLog logger operation level message) := by
    have htelling : Trail m₁.cwd m₁.programs m₁.tree (.logged r :: j.echoes logger r) [] m₁.tree :=
      .told_each m₁.tree htold
    have htrail := htelling.append (.written_each m₁.tree r.line (j.takers logger r))
    rw [List.append_nil, List.append_nil] at htrail
    exact ⟨rfl, rfl, rfl, htrail⟩
  refine h.step hcomes fun path hp => ?_
  cases htold _ hp

theorem keeps_emit {e : Event} (he : e.isTold = true) : Keeps (m.Reaches opens) (emit e) :=
  fun _ h => h.record he

theorem keeps_unlink (path : Path) : Keeps (m.Reaches opens) (unlink path) := by
  intro m₁ h
  unfold unlink
  rw [bind_of_ok (get_apply m₁)]
  cases hu : m₁.tree.unlink m₁.cwd path.toString with
  | ok t =>
    have hcomes : m₁.Comes [.unlinked path.toString none] []
        { m₁ with tree := t, trace := m₁.trace ++ [.unlinked path.toString none] } :=
      ⟨rfl, rfl, rfl, .removed hu⟩
    exact h.step hcomes (by simp)
  | error fault => exact h.record rfl

theorem keeps_remove (path : Path) : Keeps (m.Reaches opens) (Pipeline.remove path) :=
  (keeps_log _ _ _ _).bind fun _ => Keeps.wrapSystemError _ (keeps_unlink path)

theorem keeps_failToStart (command : List String) (reason : Stop) :
    Keeps (m.Reaches opens) (failToStart command reason : MachineM α) :=
  (keeps_emit rfl).bind fun _ => Keeps.throw _

theorem keeps_runProgram (program : String) (arguments : List String) :
    Keeps (m.Reaches opens) (runProgram program arguments) := by
  intro m₁ h
  unfold runProgram
  rw [bind_of_ok (get_apply m₁)]
  cases hl : locateCommand m₁ program arguments with
  | error s => exact h.record rfl
  | ok file =>
    simp only
    rw [bind_of_ok (set_apply _ _)]
    have hfound : m.Reaches opens (m₁.countTurn program) :=
      h.step ⟨rfl, rfl, (List.append_nil _).symm, .still _⟩ nofun
    cases hp : m₁.programs (baseName program) (m₁.turns (baseName program))
      ⟨m₁.cwd, program, arguments⟩ m₁.tree with
    | refused e => exact hfound.record rfl
    | ran t out err ending =>
      let r : Run := ⟨file, program :: arguments, out, err, ending⟩
      have hmade : r.Made m₁.cwd m₁.programs ⟨m₁.tree, t⟩ := ⟨program, arguments, _, rfl, hp⟩
      let m₂ : Machine := { m₁.countTurn program with tree := t, trace := m₁.trace ++ [.ran r] }
      have hcomes : (m₁.countTurn program).Comes [.ran r] [⟨m₁.tree, t⟩] m₂ :=
        ⟨rfl, rfl, rfl, .ran hmade⟩
      have hends : m.Reaches opens m₂ := hfound.step hcomes (by simp)
      cases ending <;> exact hends

theorem keeps_capture (program : String) (arguments : List String) :
    Keeps (m.Reaches opens) (capture program arguments) :=
  (keeps_runProgram program arguments).bind fun _ => Keeps.pure _

theorem keeps_deliver (text : String) (destination : Destination) :
    Keeps (m.Reaches opens) (deliver text destination) := by
  intro m₁ h
  cases destination with
  | file handle =>
    have hcomes : m₁.Comes [] [] { m₁ with tree := m₁.tree.append handle text } :=
      ⟨rfl, rfl, (List.append_nil _).symm, .written _ _ _⟩
    exact h.step hcomes nofun
  | nowhere => exact h
  | shared => exact h.record rfl

theorem keeps_execute (program : String) (arguments : List String) (destination : Destination) :
    Keeps (m.Reaches opens) (execute program arguments destination) :=
  (keeps_runProgram program arguments).bind fun _ => (keeps_deliver _ _).bind fun _ =>
    (keeps_emit rfl).bind fun _ => Keeps.pure _

theorem keeps_openForWriting {path : String} (hpath : opens path) (mode : FileTree.WriteMode) :
    Keeps (m.Reaches opens) (openForWriting path mode) := by
  intro m₁ h
  cases ho : openForWriting path mode m₁ with
  | error s m₂ =>
    obtain ⟨-, rfl⟩ := openForWriting_eq_error ho
    exact h
  | ok handle m₂ =>
    obtain ⟨-, t, hopen, rfl⟩ := openForWriting_eq_ok ho
    have hcomes : m₁.Comes [.opened path] []
        { m₁ with tree := t, trace := m₁.trace ++ [.opened path] } :=
      ⟨rfl, rfl, rfl, .opened hopen⟩
    refine h.step hcomes fun path' hp => ?_
    cases List.mem_singleton.1 hp
    exact hpath

theorem keeps_prepare {output : Output} (hout : ∀ f, output = .file f → opens f.toString) :
    Keeps (m.Reaches opens) output.prepare := by
  cases output with
  | shared => exact Keeps.pure _
  | discarded => exact Keeps.pure _
  | file f => exact (keeps_openForWriting (hout f rfl) _).bind fun _ => Keeps.pure _

/-! ## Tools -/

theorem keeps_tool (tc : Toolchain) (role : String) : Keeps (m.Reaches opens) (tc.tool role) := by
  unfold Toolchain.tool
  split
  · exact Keeps.pure _
  · exact Keeps.throw _

theorem keeps_run (tc : Toolchain) (stage role : String) (arguments : List String) {output : Output}
    (hout : ∀ f, output = .file f → opens f.toString) :
    Keeps (m.Reaches opens) (tc.run stage role arguments output) := by
  apply (keeps_tool tc role).bind
  intro tool
  apply (keeps_log _ _ _ _).bind
  intro _
  have hcommand := ((keeps_prepare (m := m) hout).tryCatch
    (keeps_failToStart (tool.program :: arguments))).bind fun destination =>
      keeps_execute tool.program arguments destination
  exact (Keeps.wrapSystemError _ hcommand).bind fun status => Keeps.ite (Keeps.throw _) (Keeps.pure _)

theorem keeps_checksum (tc : Toolchain) (path : Path) :
    Keeps (m.Reaches opens) (tc.checksum path) := by
  apply (keeps_tool tc _).bind
  intro tool
  apply (keeps_log _ _ _ _).bind
  intro _
  apply (Keeps.wrapSystemError _ (keeps_capture tool.program [path.toString])).bind
  intro answer
  split
  · exact Keeps.ite ((Keeps.throw _).bind fun _ => Keeps.pure _) (Keeps.pure _)
  · exact Keeps.ite ((Keeps.throw _).bind fun _ => Keeps.throw _) (Keeps.throw _)

end Reaches

end Machine

namespace Pipeline
variable {opens : String → Prop} {m : Machine}

/-! ## Stages -/

theorem keeps_reaching {act : MachineM α} (h : Keeps (m.Reaches opens) act) :
    Keeps (fun w : Workplace (List Path) => m.Reaches opens w.machine) (onMachine act) := by
  intro w hw
  rw [endState_onMachine]
  exact h w.machine hw

theorem reaches_removeEach (paths : List Path) :
    Keeps (fun w : Workplace (List Path) => m.Reaches opens w.machine) (removeEach paths) := by
  induction paths with
  | nil => exact Keeps.pure _
  | cons f rest ih =>
    exact (keeps_reaching (Machine.Reaches.keeps_remove f)).bind fun _ =>
      Keeps.bind (fun _ h => h) fun _ => ih

variable (p : Pipeline)

theorem reaches_removeTemps (paths : List Path) :
    Keeps (fun w : Workplace (List Path) => m.Reaches opens w.machine) (p.removeTemps paths) :=
  Keeps.ite (Keeps.pure _) (reaches_removeEach paths)

theorem reaches_perform {s : Stage} (hout : ∀ f, s.output = .file f → opens f.toString) :
    Keeps (fun w : Workplace (List Path) => m.Reaches opens w.machine) (p.perform s) := by
  have hrun : Keeps (m.Reaches opens) (do
      info s.name s.notice
      p.toolchain.run s.name s.role s.arguments s.output) :=
    (Machine.Reaches.keeps_log _ _ _ _).bind fun _ => Machine.Reaches.keeps_run _ _ _ _ hout
  exact (keeps_reaching hrun).bind fun _ => Keeps.bind (fun _ h => h) fun _ =>
    p.reaches_removeTemps s.uses

theorem reaches_compare : Keeps (m.Reaches opens) p.compare :=
  (Machine.Reaches.keeps_checksum _ _).bind fun _ => (Machine.Reaches.keeps_checksum _ _).bind
    fun _ => (Machine.Reaches.keeps_emit rfl).bind fun _ => (Machine.Reaches.keeps_emit rfl).bind
      fun _ => Keeps.pure _

theorem reaches_judge (image rebuilt : Checksum) :
    Keeps (m.Reaches opens) (p.judge image rebuilt) := by
  have hkept : Keeps (m.Reaches opens) p.kept := by
    intro m₁ h
    rcases p.kept_cases m₁ with ⟨here, hk, -⟩ | ⟨s, hk, -⟩ <;> rw [hk] <;> exact h
  exact hkept.bind fun _ => Keeps.ite
    ((Machine.Reaches.keeps_emit rfl).bind fun _ => Keeps.pure _) (Keeps.throw _)

theorem reaches_verify :
    Keeps (fun w : Workplace (List Path) => m.Reaches opens w.machine) p.verify :=
  (keeps_reaching p.reaches_compare).bind fun c => (p.reaches_removeTemps _).bind fun _ =>
    keeps_reaching (p.reaches_judge c.1 c.2)

end Pipeline

end FirmwareAudit
