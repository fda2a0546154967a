import FirmwareAudit.Proofs.Agreement
import FirmwareAudit.Proofs.CheckedRun

/-! # Two runs in step

Two runs of the same work can start from machines that differ in their log files and in who is
logging. As long as no program looks at those files, the runs stay in step: they run the same
programs, show the same output, and keep the same files elsewhere.
-/
namespace FirmwareAudit
open Text

/-! ## Ends of two computations -/

section Ends
variable {ε σ α β γ δ : Type}

/-- Both computations ended in a value, or both stopped, each time as related. -/
inductive SameEnd (Q : α → β → σ → σ → Prop) (F : ε → ε → σ → σ → Prop) :
    EStateM.Result ε σ α → EStateM.Result ε σ β → Prop
  | ok {a : α} {b : β} {s t : σ} (h : Q a b s t) : SameEnd Q F (.ok a s) (.ok b t)
  | error {e e' : ε} {s t : σ} (h : F e e' s t) : SameEnd Q F (.error e s) (.error e' t)

variable {Q : α → β → σ → σ → Prop} {Q' : γ → δ → σ → σ → Prop} {F F' : ε → ε → σ → σ → Prop}
  {s t : σ}

theorem SameEnd.bind {x : EStateM ε σ α} {y : EStateM ε σ β} {f : α → EStateM ε σ γ}
    {g : β → EStateM ε σ δ} (h : SameEnd Q F (x s) (y t))
    (hf : ∀ a b s' t', Q a b s' t' → SameEnd Q' F (f a s') (g b t')) :
    SameEnd Q' F ((x >>= f) s) ((y >>= g) t) := by
  generalize hx : x s = r at h
  generalize hy : y t = r' at h
  cases h with
  | ok h =>
    rw [bind_of_ok hx, bind_of_ok hy]
    exact hf _ _ _ _ h
  | error h =>
    rw [bind_of_error hx, bind_of_error hy]
    exact .error h

theorem SameEnd.tryCatch {x : EStateM ε σ α} {y : EStateM ε σ β} {f : ε → EStateM ε σ α}
    {g : ε → EStateM ε σ β} (h : SameEnd Q F (x s) (y t))
    (hf : ∀ e e' s' t', F e e' s' t' → SameEnd Q F' (f e s') (g e' t')) :
    SameEnd Q F' (tryCatch x f s) (tryCatch y g t) := by
  generalize hx : x s = r at h
  generalize hy : y t = r' at h
  cases h with
  | ok h =>
    rw [tryCatch_of_ok hx, tryCatch_of_ok hy]
    exact .ok h
  | error h =>
    rw [tryCatch_of_error hx, tryCatch_of_error hy]
    exact hf _ _ _ _ h

theorem SameEnd.imp {Q₂ : α → β → σ → σ → Prop} {r : EStateM.Result ε σ α}
    {r' : EStateM.Result ε σ β} (h : SameEnd Q F r r') (hq : ∀ a b s t, Q a b s t → Q₂ a b s t) :
    SameEnd Q₂ F r r' := by
  cases h with
  | ok h => exact .ok (hq _ _ _ _ h)
  | error h => exact .error h

end Ends

/-- Stops of one kind, which may differ in what a failed system call says. -/
inductive Stop.Akin : Stop → Stop → Prop
  | same (s : Stop) : Akin s s
  | system (e e' : SystemError) : Akin (.system e) (.system e')
  | stage (f f' : StageFault) : Akin (.fault (.stage f)) (.fault (.stage f'))
  | cleanup (path : Path) (e e' : SystemError) :
      Akin (.fault (.cleanup path e)) (.fault (.cleanup path e'))
  | checksum (path : Path) (c c' : ChecksumFault) :
      Akin (.fault (.checksum path c)) (.fault (.checksum path c'))

theorem Stop.akin_ofCall (path : String) {fault fault' : CallFault} (h : fault.Alike fault') :
    (Stop.ofCall path fault).Akin (.ofCall path fault') := by
  rcases h with ⟨rfl, rfl⟩ | ⟨e, e', rfl, rfl, -⟩
  · exact .same _
  · exact .system _ _

/-- Work in step: from related states both parts end in related values or stop akin, and leave
related states. -/
def InStep {σ α β : Type} (R : σ → σ → Prop) (V : α → β → Prop) (x : EStateM Stop σ α)
    (y : EStateM Stop σ β) : Prop :=
  ∀ s t, R s t →
    SameEnd (fun a b s' t' => V a b ∧ R s' t') (fun e e' s' t' => e.Akin e' ∧ R s' t') (x s) (y t)

namespace InStep
variable {σ α β γ δ : Type} {R : σ → σ → Prop} {V : α → β → Prop} {V' : γ → δ → Prop}

theorem pure {a : α} {b : β} (h : V a b) :
    InStep R V (pure a : EStateM Stop σ α) (pure b : EStateM Stop σ β) :=
  fun _ _ hr => .ok ⟨h, hr⟩

theorem throw {e e' : Stop} (h : e.Akin e') :
    InStep R V (throw e : EStateM Stop σ α) (throw e' : EStateM Stop σ β) :=
  fun _ _ hr => .error ⟨h, hr⟩

/-- What comes behind a throw does not matter. -/
theorem throw_bind {e e' : Stop} (h : e.Akin e') (f : α → EStateM Stop σ γ)
    (g : β → EStateM Stop σ δ) : InStep R V' (MonadExcept.throw e >>= f) (MonadExcept.throw e' >>= g) :=
  fun _ _ hr => .error ⟨h, hr⟩

theorem bind {x : EStateM Stop σ α} {y : EStateM Stop σ β} {f : α → EStateM Stop σ γ}
    {g : β → EStateM Stop σ δ} (h : InStep R V x y) (hf : ∀ a b, V a b → InStep R V' (f a) (g b)) :
    InStep R V' (x >>= f) (y >>= g) :=
  fun s t hr => (h s t hr).bind fun a b s' t' hab => hf a b hab.1 s' t' hab.2

theorem ite {c : Prop} [Decidable c] {x x' : EStateM Stop σ α} {y y' : EStateM Stop σ β}
    (h : InStep R V x y) (h' : InStep R V x' y') :
    InStep R V (if c then x else x') (if c then y else y') := by
  split
  · exact h
  · exact h'

theorem tryCatch {x : EStateM Stop σ α} {y : EStateM Stop σ β} {f : Stop → EStateM Stop σ α}
    {g : Stop → EStateM Stop σ β} (h : InStep R V x y)
    (hf : ∀ e e', e.Akin e' → InStep R V (f e) (g e')) :
    InStep R V (tryCatch x f) (tryCatch y g) :=
  fun s t hr => (h s t hr).tryCatch fun e e' s' t' he => hf e e' he.1 s' t' he.2

/-- A handler for system errors that passes everything else on. -/
theorem catchSystem {x : EStateM Stop σ α} {y : EStateM Stop σ β}
    {f : SystemError → EStateM Stop σ α} {g : SystemError → EStateM Stop σ β} (h : InStep R V x y)
    (hf : ∀ e e', InStep R V (f e) (g e')) :
    InStep R V
      (tryCatchThe Stop x fun s =>
        match s with
        | .system e => f e
        | other => MonadExcept.throw other)
      (tryCatchThe Stop y fun s =>
        match s with
        | .system e => g e
        | other => MonadExcept.throw other) := by
  refine h.tryCatch fun e e' he => ?_
  cases he with
  | same e =>
    cases e with
    | system e => exact hf e e
    | _ => exact .throw (.same _)
  | system e e' => exact hf e e'
  | stage f f' => exact .throw (.stage f f')
  | cleanup path e e' => exact .throw (.cleanup path e e')
  | checksum path c c' => exact .throw (.checksum path c c')

end InStep

/-! ## What two runs have in common -/

/-- The same output was shown, and the same programs were tried and ran. -/
structure SameShow (es fs : List Event) : Prop where
  output : stdoutOf fs = stdoutOf es
  runs : runsOf fs = runsOf es
  tries : attempts fs = attempts es

namespace SameShow
variable {es fs gs es' fs' : List Event}

theorem refl (es : List Event) : SameShow es es := ⟨rfl, rfl, rfl⟩

theorem symm (h : SameShow es fs) : SameShow fs es :=
  ⟨h.output.symm, h.runs.symm, h.tries.symm⟩

theorem trans (h : SameShow es fs) (h' : SameShow fs gs) : SameShow es gs :=
  ⟨h'.output.trans h.output, h'.runs.trans h.runs, h'.tries.trans h.tries⟩

theorem append (h : SameShow es fs) (h' : SameShow es' fs') : SameShow (es ++ es') (fs ++ fs') := by
  refine ⟨?_, ?_, ?_⟩
  · rw [stdoutOf_append, stdoutOf_append, h.output, h'.output]
  · rw [runsOf_append, runsOf_append, h.runs, h'.runs]
  · rw [attempts_append, attempts_append, h.tries, h'.tries]

/-- Events that show nothing, behind others. -/
theorem add (h : SameShow [] fs) (es : List Event) : SameShow es (es ++ fs) := by
  have hadd := (refl es).append h
  rwa [List.append_nil] at hadd

end SameShow

/-- Off the places, a file that an open handle reaches before a change is still the one afterwards in
both trees or in neither. -/
def FileTree.SameHold (places : Location → Prop) (t t' u u' : FileTree) : Prop :=
  ∀ h h' : Handle, h'.location = h.location → ¬ places h.location →
    t.Holds h → t'.Holds h' → (u.Holds h ↔ u'.Holds h')

/-- What comes of a start on each of two trees: the same refusal, or runs that end alike and leave
trees that agree off the places. -/
inductive Start.AgreeOff (places : Location → Prop) (t t' : FileTree) : Start → Start → Prop
  | refused (e : Errno) : AgreeOff places t t' (.refused e) (.refused e)
  | ran {u u' : FileTree} (out err : String) (ending : Ending) (htree : u.AgreeOff places u')
      (hfiles : FileTree.SameHold places t t' u u') :
      AgreeOff places t t' (.ran u out err ending) (.ran u' out err ending)

/-- A working directory, a search path and programs, and places below the root that none of the
programs looks at. -/
structure Scene where
  cwd : String
  searchPath : Option String
  programs : String → Program
  places : Location → Prop
  below : ¬ places []
  blind : ∀ name turn call t t', t.AgreeOff places t' →
    Start.AgreeOff places t t' (programs name turn call t) (programs name turn call t')

namespace Scene

/-- Two machines in the scene, which differ in what is logged at most. -/
structure Pair (s : Scene) (m m' : Machine) : Prop where
  cwd : m.cwd = s.cwd ∧ m'.cwd = s.cwd
  searchPath : m.searchPath = s.searchPath ∧ m'.searchPath = s.searchPath
  programs : m.programs = s.programs ∧ m'.programs = s.programs
  turns : m'.turns = m.turns
  logs : (∀ h ∈ m.journal.openFiles, s.places h.location) ∧
    ∀ h ∈ m'.journal.openFiles, s.places h.location
  tree : m.tree.AgreeOff s.places m'.tree
  shown : SameShow m.trace m'.trace

variable {s : Scene} {m m' n n' : Machine}

theorem Pair.symm (p : s.Pair m m') : s.Pair m' m :=
  ⟨p.cwd.symm, p.searchPath.symm, p.programs.symm, p.turns.symm, p.logs.symm, p.tree.symm,
    p.shown.symm⟩

theorem Pair.trans (p : s.Pair m m') (q : s.Pair m' n) : s.Pair m n :=
  ⟨⟨p.cwd.1, q.cwd.2⟩, ⟨p.searchPath.1, q.searchPath.2⟩, ⟨p.programs.1, q.programs.2⟩,
    q.turns.trans p.turns, ⟨p.logs.1, q.logs.2⟩, p.tree.trans q.tree, p.shown.trans q.shown⟩

theorem Pair.left (p : s.Pair m m') : s.Pair m m := p.trans p.symm

theorem Pair.record (p : s.Pair m m') {e e' : Event} (h : SameShow [e] [e']) :
    s.Pair (m.record e) (m'.record e') :=
  { p with shown := p.shown.append h }

/-- The machines with other trees that agree. -/
theorem Pair.onTrees (p : s.Pair m m') {t t' : FileTree} (h : t.AgreeOff s.places t') :
    s.Pair { m with tree := t } { m' with tree := t' } :=
  { p with tree := h }

/-! ## What nobody notices -/

/-- Work whose only trace is in the log files and on the error stream. -/
def Hushed (s : Scene) (act : MachineM Unit) : Prop :=
  ∀ m, s.Pair m m → ∃ m', act m = .ok () m' ∧ s.Pair m m'

theorem Hushed.bind {act next : MachineM Unit} (h : s.Hushed act) (h' : s.Hushed next) :
    s.Hushed (do act; next) := by
  intro m p
  obtain ⟨m₁, hm₁, p₁⟩ := h m p
  obtain ⟨m₂, hm₂, p₂⟩ := h' m₁ p₁.symm.left
  exact ⟨m₂, (bind_of_ok hm₁).trans hm₂, p₁.trans p₂⟩

theorem hushed_emit {e : Event} (h : SameShow [] [e]) : s.Hushed (emit e) := by
  intro m p
  exact ⟨_, rfl, { p with shown := h.add m.trace }⟩

theorem hushed_log (logger operation : String) (level : Int) (message : String) :
    s.Hushed (log logger operation level message) := by
  intro m p
  let j := m.journal.asked logger level
  let r : Record := ⟨Journal.properName logger, operation, level, message⟩
  have hfiles : j.openFiles = m.journal.openFiles := m.journal.openFiles_asked logger level
  have hechoes : SameShow [] (.logged r :: j.echoes logger r) := by
    refine ⟨stdoutOf_echoes j logger r, ?_, ?_⟩ <;>
    · refine List.filterMap_eq_nil_iff.2 (List.forall_mem_cons.2 ⟨rfl, fun e he => ?_⟩)
      rcases Journal.mem_echoes he with ⟨owner, rfl⟩ | ⟨text, rfl⟩ <;> rfl
  refine ⟨_, log_eq logger operation level message m,
    { p with logs := ⟨p.logs.1, ?_⟩, tree := ?_, shown := hechoes.add m.trace }⟩
  · exact hfiles ▸ p.logs.1
  · refine .appendEach_at m.tree r.line fun f hf => p.logs.1 f ?_
    exact hfiles ▸ Journal.mem_openFiles_of_mem_takers hf

/-- Whatever is hushed is in step with whatever is hushed. -/
theorem Hushed.inStep {act act' : MachineM Unit} (h : s.Hushed act) (h' : s.Hushed act') :
    InStep s.Pair Eq act act' := by
  intro m m' p
  obtain ⟨n, hn, q⟩ := h m p.left
  obtain ⟨n', hn', q'⟩ := h' m' p.symm.left
  rw [hn, hn']
  exact .ok ⟨rfl, q.symm.trans (p.trans q')⟩

theorem inStep_log (logger operation : String) (level : Int) (message message' : String) :
    InStep s.Pair Eq (log logger operation level message) (log logger operation level message') :=
  (hushed_log _ _ _ _).inStep (hushed_log _ _ _ _)

theorem inStep_printLine (stream : Stream) (text : String) :
    InStep s.Pair Eq (printLine stream text) (printLine stream text) :=
  fun _ _ p => .ok ⟨rfl, p.record (.refl _)⟩

/-! ## Files off the places -/

/-- The place of the path is none of the scene's. -/
def Apart (s : Scene) (path : Path) : Prop := ¬ s.places (FileTree.placeOf s.cwd path.toString)

section Files
variable {path : Path} (hpath : s.Apart path)
include hpath

theorem inStep_nodeAt :
    InStep s.Pair (fun n n' => n'.map (Node.withStamp 0) = n.map (Node.withStamp 0)) (nodeAt path)
      (nodeAt path) := by
  intro m m' p
  unfold nodeAt
  rw [bind_of_ok (get_apply m), bind_of_ok (get_apply m'), p.cwd.1, p.cwd.2]
  rcases p.tree.probe_elsewhere s.below hpath with ⟨e, he, he'⟩ | ⟨n, n', hn, hn', hsame⟩
  · rw [he, he']
    exact .error ⟨.same _, p⟩
  · rw [hn, hn']
    exact .ok ⟨hsame, p⟩

theorem inStep_isFile : InStep s.Pair Eq (isFile path) (isFile path) := by
  refine (inStep_nodeAt hpath).bind fun n n' hn => ?_
  rcases n with _ | ⟨_ | _⟩ <;> rcases n' with _ | ⟨_ | _⟩ <;> first | exact .pure rfl | cases hn

theorem inStep_isDirectory : InStep s.Pair Eq (isDirectory path) (isDirectory path) := by
  refine (inStep_nodeAt hpath).bind fun n n' hn => ?_
  rcases n with _ | ⟨_ | _⟩ <;> rcases n' with _ | ⟨_ | _⟩ <;> first | exact .pure rfl | cases hn

theorem inStep_pathExists : InStep s.Pair Eq (pathExists path) (pathExists path) := by
  refine (inStep_nodeAt hpath).bind fun n n' hn => .pure ?_
  have h := congrArg Option.isSome hn
  rw [Option.isSome_map, Option.isSome_map] at h
  exact h.symm

theorem inStep_mayRead : InStep s.Pair Eq (mayRead path) (mayRead path) := by
  intro m m' p
  unfold mayRead
  rw [bind_of_ok (get_apply m), bind_of_ok (get_apply m'), p.cwd.1, p.cwd.2]
  exact .ok ⟨(p.tree.mayRead_elsewhere s.below hpath).symm, p⟩

theorem inStep_unlink : InStep s.Pair Eq (unlink path) (unlink path) := by
  intro m m' p
  unfold unlink
  rw [bind_of_ok (get_apply m), bind_of_ok (get_apply m')]
  rcases p.tree.unlink_elsewhere s.below hpath with ⟨fault, fault', hu, hu', halike⟩ | h
  · rw [← p.cwd.1] at hu
    rw [← p.cwd.2] at hu'
    rw [hu, hu']
    exact .error ⟨Stop.akin_ofCall _ halike, p.record ⟨rfl, rfl, rfl⟩⟩
  · obtain ⟨u, u', hu, hu', hagree⟩ := h
    rw [← p.cwd.1] at hu
    rw [← p.cwd.2] at hu'
    rw [hu, hu']
    exact .ok ⟨rfl, (p.onTrees hagree).record (.refl _)⟩

end Files

/-! ## Running programs -/

theorem failToStart_inStep (p : s.Pair m m') (command : List String) {e e' : Stop}
    (h : e.Akin e') {Q : α → β → Machine → Machine → Prop} :
    SameEnd Q (fun e e' n n' => e.Akin e' ∧ s.Pair n n') (failToStart command e m)
      (failToStart command e' m') :=
  .error ⟨h, p.record ⟨rfl, rfl, rfl⟩⟩

/-- The same program is run on both machines, or none. -/
theorem runProgram_inStep (p : s.Pair m m') (program : String) (arguments : List String) :
    SameEnd
      (fun c c' n n' => (c = c' ∧ s.Pair n n') ∧
        FileTree.SameHold s.places m.tree m'.tree n.tree n'.tree)
      (fun e e' n n' => e.Akin e' ∧ s.Pair n n')
      (runProgram program arguments m) (runProgram program arguments m') := by
  unfold runProgram
  rw [bind_of_ok (get_apply m), bind_of_ok (get_apply m')]
  unfold locateCommand
  by_cases hnul : (program :: arguments).any (has '\x00') = true
  · rw [if_pos hnul, if_pos hnul]
    exact failToStart_inStep p _ (.same _)
  rw [if_neg hnul, if_neg hnul, p.cwd.1, p.cwd.2, p.searchPath.1, p.searchPath.2]
  rcases p.tree.resolveProgram_alike s.cwd s.searchPath program with
    ⟨r, hr, hm, hm'⟩ | ⟨e, e', hm, hm'⟩
  · rw [hm, hm']
    rcases hr with rfl | ⟨file, rfl⟩
    · exact failToStart_inStep p _ (.same _)
    · have q : s.Pair (m.countTurn program) (m'.countTurn program) :=
        { p with turns := by simp only [Machine.countTurn, p.turns] }
      simp only [Except.mapError]
      rw [bind_of_ok (set_apply m _), bind_of_ok (set_apply m' _), p.programs.1, p.programs.2,
        p.turns]
      have hstart := s.blind (baseName program) (m.turns (baseName program))
        ⟨s.cwd, program, arguments⟩ _ _ p.tree
      generalize s.programs (baseName program) (m.turns (baseName program))
        ⟨s.cwd, program, arguments⟩ m.tree = start at hstart ⊢
      generalize s.programs (baseName program) (m.turns (baseName program))
        ⟨s.cwd, program, arguments⟩ m'.tree = start' at hstart ⊢
      cases hstart with
      | refused e => exact failToStart_inStep q _ (.same _)
      | ran out err ending htree hfiles =>
        let run : Run := ⟨file, program :: arguments, out, err, ending⟩
        have hran := (q.onTrees htree).record (.refl [.ran run])
        cases ending with
        | exited status => exact .ok ⟨⟨rfl, hran⟩, hfiles⟩
        | interrupted => exact .error ⟨.same _, hran⟩
        | nulByte => exact .error ⟨.same _, hran⟩
  · rw [hm, hm']
    exact failToStart_inStep p _ (.system _ _)

/-- Where each of two runs sends the output of a tool. -/
inductive SameDestination (s : Scene) (t t' : FileTree) : Destination → Destination → Prop
  | file (h h' : Handle) (hlocation : h'.location = h.location) (hplace : ¬ s.places h.location)
      (hholds : t.Holds h) (hholds' : t'.Holds h') : SameDestination s t t' (.file h) (.file h')
  | nowhere : SameDestination s t t' .nowhere .nowhere
  | shared : SameDestination s t t' .shared .shared

theorem execute_inStep (p : s.Pair m m') (program : String) (arguments : List String)
    {d d' : Destination} (hd : s.SameDestination m.tree m'.tree d d') :
    SameEnd (fun status status' n n' => status = status' ∧ s.Pair n n')
      (fun e e' n n' => e.Akin e' ∧ s.Pair n n')
      (execute program arguments d m) (execute program arguments d' m') := by
  refine (runProgram_inStep p program arguments).bind ?_
  rintro run - n n' ⟨⟨rfl, q⟩, hfiles⟩
  have hdeliver : ∃ k k', deliver run.out d n = .ok () k ∧ deliver run.out d' n' = .ok () k' ∧
      s.Pair k k' := by
    cases hd with
    | file h h' hlocation hplace hholds hholds' =>
      refine ⟨_, _, rfl, rfl, q.onTrees ?_⟩
      exact q.tree.append_both hlocation hplace (hfiles h h' hlocation hplace hholds hholds') run.out
    | nowhere => exact ⟨n, n', rfl, rfl, q⟩
    | shared => exact ⟨_, _, rfl, rfl, q.record (.refl [.toolOutput run.out])⟩
  obtain ⟨k, k', hk, hk', hpair⟩ := hdeliver
  rw [bind_of_ok hk, bind_of_ok hk']
  exact .ok ⟨rfl, hpair.record (.refl [.toolErrors run.err])⟩

/-- An output that goes to none of the scene's places. -/
def Diverts (s : Scene) (output : Output) : Prop := ∀ path, output = .file path → s.Apart path

theorem prepare_inStep (p : s.Pair m m') {output : Output} (h : s.Diverts output) :
    SameEnd (fun d d' n n' => s.Pair n n' ∧ s.SameDestination n.tree n'.tree d d')
      (fun e e' n n' => e.Akin e' ∧ s.Pair n n') (output.prepare m) (output.prepare m') := by
  cases output with
  | shared => exact .ok ⟨p, .shared⟩
  | discarded => exact .ok ⟨p, .nowhere⟩
  | file path =>
    have hpath := h path rfl
    simp only [Output.prepare]
    rcases p.tree.truncate_elsewhere s.below hpath with ⟨fault, fault', ho, ho', halike⟩ | h
    · have hfails {n : Machine} {fault : CallFault} (hcwd : n.cwd = s.cwd)
          (hn : n.tree.openForWriting s.cwd path.toString .truncate = .error fault) :
          openForWriting path.toString .truncate n = .error (.ofCall path.toString fault) n := by
        rw [← hcwd] at hn
        rw [openForWriting, bind_of_ok (get_apply n), hn]
        rfl
      rw [bind_of_error (hfails p.cwd.1 ho), bind_of_error (hfails p.cwd.2 ho')]
      exact .error ⟨Stop.akin_ofCall _ halike, p⟩
    · obtain ⟨handle, handle', u, u', ho, ho', hagree, hl, hl', hh, hh'⟩ := h
      have hopens {n : Machine} {k : Handle} {v : FileTree} (hcwd : n.cwd = s.cwd)
          (hn : n.tree.openForWriting s.cwd path.toString .truncate = .ok (k, v)) :
          openForWriting path.toString .truncate n =
            .ok k ({ n with tree := v }.record (.opened path.toString)) := by
        rw [← hcwd] at hn
        rw [openForWriting, bind_of_ok (get_apply n), hn]
        rfl
      rw [bind_of_ok (hopens p.cwd.1 ho), bind_of_ok (hopens p.cwd.2 ho')]
      refine .ok ⟨(p.onTrees hagree).record (.refl _), ?_⟩
      exact .file handle handle' (hl'.trans hl.symm) (hl ▸ hpath) hh hh'

/-! ## Tools -/

theorem inStep_wrapSystemError {toFault : SystemError → Fault} {act act' : MachineM α}
    {V : α → α → Prop} (h : InStep s.Pair V act act')
    (hfault : ∀ e e', (Stop.fault (toFault e)).Akin (.fault (toFault e'))) :
    InStep s.Pair V (wrapSystemError toFault act) (wrapSystemError toFault act') :=
  h.catchSystem fun e e' => .throw (hfault e e')

variable (tc : Toolchain)

theorem inStep_tool (role : String) : InStep s.Pair Eq (tc.tool role) (tc.tool role) := by
  unfold Toolchain.tool
  cases tc.tool? role with
  | some tool => exact .pure rfl
  | none => exact .throw (.same _)

theorem inStep_run (stage role : String) (arguments : List String) {output : Output}
    (h : s.Diverts output) :
    InStep s.Pair Eq (tc.run stage role arguments output) (tc.run stage role arguments output) := by
  unfold Toolchain.run
  refine (inStep_tool tc role).bind ?_
  rintro tool - rfl
  refine (inStep_log _ _ _ _ _).bind fun _ _ _ => ?_
  have hbody : InStep s.Pair Eq
      (do
        let destination ← tryCatch output.prepare (failToStart (tool.program :: arguments))
        execute tool.program arguments destination)
      (do
        let destination ← tryCatch output.prepare (failToStart (tool.program :: arguments))
        execute tool.program arguments destination) := by
    intro m m' p
    refine ((prepare_inStep p h).tryCatch fun e e' n n' he =>
      failToStart_inStep he.2 (tool.program :: arguments) he.1).bind ?_
    rintro d d' n n' ⟨q, hd⟩
    exact execute_inStep q _ _ hd
  refine (inStep_wrapSystemError hbody fun e e' => .stage _ _).bind ?_
  rintro status - rfl
  exact .ite (.throw (.same _)) (.pure rfl)

theorem inStep_checksum (path : Path) :
    InStep s.Pair Eq (tc.checksum path) (tc.checksum path) := by
  unfold Toolchain.checksum
  refine (inStep_tool tc _).bind ?_
  rintro tool - rfl
  refine (inStep_log _ _ _ _ _).bind fun _ _ _ => ?_
  have hcapture : InStep s.Pair Eq (capture tool.program [path.toString])
      (capture tool.program [path.toString]) := by
    intro m m' p
    refine (runProgram_inStep p _ _).bind ?_
    rintro run - n n' ⟨⟨rfl, q⟩, -⟩
    exact .ok ⟨rfl, q⟩
  refine (inStep_wrapSystemError hcapture fun e e' => .checksum _ _ _).bind ?_
  rintro answer - rfl
  refine .ite (.throw_bind (.same _) _ _) ?_
  cases Digest.ofAnswer? answer.out with
  | some digest => exact .pure rfl
  | none => exact .throw (.same _)

end Scene

end FirmwareAudit
