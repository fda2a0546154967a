import FirmwareAudit.Proofs.ErrorContract
import Mathlib.Data.List.Induction

/-! # All tools or none

A toolchain has a tool for each role, in the order in which the roles were first named. Either all
of its tools are found, and it remembers where, or the first that is missing is named, and what it
remembered before stays. Looking for tools starts none, and no file but a log file changes.
-/
namespace FirmwareAudit

/-! ## Tables of tools -/

namespace Toolchain

/-- The tool that was named last for a role. -/
def lastNamed? (tools : List Tool) (role : String) : Option Tool :=
  tools.reverse.find? (·.role == role)

/-- The tool named last for each role, in the order in which the roles were first named. -/
def table (tools : List Tool) : List Tool :=
  (tools.map (·.role)).eraseDups.filterMap (lastNamed? tools)

theorem lastNamed?_concat (tools : List Tool) (tool : Tool) (role : String) :
    lastNamed? (tools ++ [tool]) role =
      if tool.role = role then some tool else lastNamed? tools role := by
  rw [lastNamed?, List.reverse_concat]
  split
  · next h => exact List.find?_cons_of_pos (by simpa using h)
  · next h => exact List.find?_cons_of_neg (by simpa using h)

theorem eraseDups_concat (roles : List String) (role : String) :
    (roles ++ [role]).eraseDups =
      if role ∈ roles then roles.eraseDups else roles.eraseDups ++ [role] := by
  rw [List.eraseDups_append]
  by_cases h : role ∈ roles <;> simp [List.removeAll, h, List.eraseDups_cons]

theorem roles_place (tool : Tool) (l : List Tool) :
    (place tool l).map (·.role) =
      if tool.role ∈ l.map (·.role) then l.map (·.role) else l.map (·.role) ++ [tool.role] := by
  induction l with
  | nil => rfl
  | cons t rest ih =>
    unfold place
    by_cases h : t.role = tool.role
    · simp [h]
    · have hne : tool.role ≠ t.role := Ne.symm h
      rw [if_neg h, List.map_cons, ih]
      by_cases hmem : tool.role ∈ rest.map (·.role) <;> simp [hmem, hne]

/-- What stands in a table behind a placing was placed, or was there and has another role. -/
theorem mem_place {tool u : Tool} {l : List Tool} (hroles : (l.map (·.role)).Nodup)
    (h : u ∈ place tool l) : u = tool ∨ u ∈ l ∧ u.role ≠ tool.role := by
  induction l with
  | nil => exact Or.inl (List.mem_singleton.1 h)
  | cons t rest ih =>
    rw [List.map_cons, List.nodup_cons] at hroles
    unfold place at h
    split at h
    · next heq =>
      rcases List.mem_cons.1 h with rfl | hu
      · exact Or.inl rfl
      · refine Or.inr ⟨List.mem_cons_of_mem _ hu, fun hrole => hroles.1 ?_⟩
        rw [heq, ← hrole]
        exact List.mem_map_of_mem hu
    · next hne =>
      rcases List.mem_cons.1 h with rfl | hu
      · exact Or.inr ⟨List.mem_cons_self, hne⟩
      · exact (ih hroles.2 hu).imp id fun hu => ⟨List.mem_cons_of_mem _ hu.1, hu.2⟩

theorem ofTools_concat (tools : List Tool) (tool : Tool) :
    (ofTools (tools ++ [tool])).tools = place tool (ofTools tools).tools :=
  List.foldl_concat ..

theorem roles_ofTools (tools : List Tool) :
    (ofTools tools).tools.map (·.role) = (tools.map (·.role)).eraseDups ∧
      ((ofTools tools).tools.map (·.role)).Nodup := by
  induction tools using List.reverseRecOn with
  | nil => exact ⟨rfl, List.nodup_nil⟩
  | append_singleton tools tool ih =>
    obtain ⟨hroles, hnodup⟩ := ih
    have hmem : tool.role ∈ (ofTools tools).tools.map (·.role) ↔
        tool.role ∈ tools.map (·.role) := by
      rw [hroles, List.mem_eraseDups]
    rw [ofTools_concat, roles_place, List.map_append, List.map_singleton, eraseDups_concat,
      ← hroles]
    by_cases h : tool.role ∈ tools.map (·.role)
    · rw [if_pos (hmem.2 h), if_pos h]
      exact ⟨rfl, hnodup⟩
    · rw [if_neg (mt hmem.1 h), if_neg h]
      refine ⟨rfl, List.nodup_append.2 ⟨hnodup, List.nodup_singleton _, ?_⟩⟩
      rintro role hrole role' hrole' rfl
      rw [List.mem_singleton.1 hrole'] at hrole
      exact h (hmem.1 hrole)

theorem lastNamed?_of_mem {tools : List Tool} {u : Tool} (h : u ∈ (ofTools tools).tools) :
    lastNamed? tools u.role = some u := by
  induction tools using List.reverseRecOn with
  | nil => cases h
  | append_singleton tools tool ih =>
    rw [ofTools_concat] at h
    rw [lastNamed?_concat]
    rcases mem_place (roles_ofTools tools).2 h with rfl | ⟨hu, hne⟩
    · exact if_pos rfl
    · rw [if_neg (Ne.symm hne)]
      exact ih hu

/-- Tools placed one after the other make the table. -/
theorem tools_ofTools (tools : List Tool) : (ofTools tools).tools = table tools := by
  have hsame : ∀ l : List Tool, (∀ u ∈ l, lastNamed? tools u.role = some u) →
      (l.map (·.role)).filterMap (lastNamed? tools) = l := by
    intro l hl
    have hid : l.filterMap (lastNamed? tools ∘ (·.role)) = l.filterMap some :=
      List.filterMap_congr hl
    rw [List.filterMap_map, hid, List.filterMap_some]
  rw [table, ← (roles_ofTools tools).1]
  exact (hsame _ fun u => lastNamed?_of_mem).symm

end Toolchain

/-! ## Looking through a table -/

theorem FileTree.find?_appendEach_of_ne (t : FileTree) (line : String) {files : List Handle}
    {l : Location} (h : ∀ f ∈ files, f.location ≠ l) :
    (t.appendEach line files).find? l = t.find? l := by
  induction files generalizing t with
  | nil => rfl
  | cons f rest ih =>
    rw [List.forall_mem_cons] at h
    exact (ih (t.append f line) h.2).trans (t.find?_append_of_ne f line (Ne.symm h.1))

namespace Journal

/-- The log files that take what is logged when a tool is found. -/
def toolFiles (j : Journal) : List Handle :=
  (j.register toolLogger).takers toolLogger ⟨toolLogger, "preflight", Level.debug, ""⟩

theorem toolFiles_asked (j : Journal) :
    (j.asked toolLogger Level.debug).toolFiles = j.toolFiles := by
  rw [toolFiles, register_asked, toolFiles]
  exact j.takers_asked toolLogger ⟨toolLogger, "preflight", Level.debug, ""⟩

end Journal

namespace Machine

/-- The entry has the tool's role and the file that a lookup of the tool finds. -/
def Finds (m : Machine) (tool : Tool) (entry : String × String) : Prop :=
  entry.1 = tool.role ∧ m.located? tool.program = some entry.2

/-- What is logged when a tool is found. -/
def finding (m : Machine) (tool : Tool) : String :=
  "Found " ++ tool.program ++ ": " ++ (m.located? tool.program).getD ""

/-- The machine after these messages were logged while tools were looked for. -/
def afterFindings (m : Machine) (messages : List String) : Machine :=
  messages.foldl (fun m message => m.afterLog toolLogger "preflight" Level.debug message) m

/-- The line of a log file that a finding makes. -/
def findingLine (message : String) : String :=
  (⟨toolLogger, "preflight", Level.debug, message⟩ : Record).line

theorem tree_afterFindings (m : Machine) (messages : List String) :
    (m.afterFindings messages).tree = messages.foldl
      (fun t message => t.appendEach (findingLine message) m.journal.toolFiles) m.tree := by
  induction messages generalizing m with
  | nil => rfl
  | cons message rest ih =>
    let m₁ := m.afterLog toolLogger "preflight" Level.debug message
    have hfiles : m₁.journal.toolFiles = m.journal.toolFiles := m.journal.toolFiles_asked
    have htree : m₁.tree = m.tree.appendEach (findingLine message) m.journal.toolFiles :=
      congrArg (m.tree.appendEach (findingLine message))
        (m.journal.takers_asked toolLogger ⟨toolLogger, "preflight", Level.debug, message⟩)
    rw [List.foldl_cons, ← htree, ← hfiles]
    exact ih m₁

end Machine

namespace Tool

/-- All tools are found, each where a lookup at the start says, or those before the first that is
missing are found. -/
theorem locateAll_cases (tools : List Tool) (m : Machine) :
    (∃ found, List.Forall₂ m.Finds tools found ∧
      locateAll tools m = .ok found (m.afterFindings (tools.map m.finding))) ∨
    ∃ here tool rest, tools = here ++ tool :: rest ∧
      (∀ t ∈ here, ∃ file, m.located? t.program = some file) ∧ m.located? tool.program = none ∧
      locateAll tools m = .error (.fault (.toolNotFound tool.program tool.hint))
        (m.afterFindings (here.map m.finding)) := by
  induction tools generalizing m with
  | nil => exact Or.inl ⟨[], .nil, rfl⟩
  | cons tool rest ih =>
    unfold locateAll
    cases hfile : m.located? tool.program with
    | none =>
      have hmissing : tool.locate m = .error (.fault (.toolNotFound tool.program tool.hint)) m := by
        rw [tool.locate_eq, hfile]
      exact Or.inr ⟨[], tool, rest, rfl, List.forall_mem_nil _, hfile, bind_of_error hmissing⟩
    | some file =>
      have hfound : tool.locate m = .ok file m := by rw [tool.locate_eq, hfile]
      have hmessage : "Found " ++ tool.program ++ ": " ++ file = m.finding tool := by
        rw [Machine.finding, hfile, Option.getD_some]
      rw [bind_of_ok hfound, hmessage, bind_of_ok (log_eq _ _ _ _ m)]
      -- What is logged in between has no bearing on the lookups that follow.
      let m₁ := m.afterLog toolLogger "preflight" Level.debug (m.finding tool)
      have hsame : ∀ program, m₁.located? program = m.located? program :=
        (m.findsAlike_afterLog _ _ _ _).located?_eq
      have hfinding : m₁.finding = m.finding := by
        funext t
        rw [Machine.finding, hsame, Machine.finding]
      have hfinds : m₁.Finds = m.Finds := by
        funext t entry
        rw [Machine.Finds, hsame, Machine.Finds]
      have hih := ih m₁
      simp only [hsame, hfinding, hfinds] at hih
      rcases hih with ⟨found, hplaces, hall⟩ | ⟨here, t, rest', rfl, hhere, hnone, hall⟩
      · exact Or.inl ⟨(tool.role, file) :: found, .cons ⟨rfl, hfile⟩ hplaces, bind_of_ok hall⟩
      · refine Or.inr ⟨tool :: here, t, rest', rfl, ?_, hnone, bind_of_error hall⟩
        exact List.forall_mem_cons.2 ⟨⟨file, hfile⟩, hhere⟩

theorem located_of_places {m : Machine} {tools : List Tool} {found : List (String × String)}
    (h : List.Forall₂ m.Finds tools found) :
    ∀ tool ∈ tools, ∃ file, m.located? tool.program = some file := by
  induction h with
  | nil => exact List.forall_mem_nil _
  | cons hfirst _ ih => exact List.forall_mem_cons.2 ⟨⟨_, hfirst.2⟩, ih⟩

end Tool

/-- Between the machines some tools were found and nothing else was done: no program was tried, and
the log files that take such records have a line more for each tool. -/
structure Machine.Searched (m : Machine) (found : List Tool) (m' : Machine) : Prop where
  looked : m.Looked m'
  attempts : ∃ events, m'.trace = m.trace ++ events ∧ attempts events = []
  elsewhere : ∀ l, (∀ f ∈ m.journal.toolFiles, f.location ≠ l) → m'.tree.find? l = m.tree.find? l
  logged : m'.tree = (found.map m.finding).foldl
    (fun t message => t.appendEach (findingLine message) m.journal.toolFiles) m.tree

theorem Machine.searched_of_looked {m : Machine} {found : List Tool}
    (h : m.Looked (m.afterFindings (found.map m.finding))) :
    m.Searched found (m.afterFindings (found.map m.finding)) := by
  obtain ⟨events, ht, hattempts, -⟩ := h.onlyLogs.silent
  refine ⟨h, ⟨events, ht, hattempts⟩, fun l hl => ?_, m.tree_afterFindings _⟩
  rw [m.tree_afterFindings]
  generalize m.tree = t
  induction found.map m.finding generalizing t with
  | nil => rfl
  | cons message rest ih => exact (ih _).trans (t.find?_appendEach_of_ne _ hl)

/-! ## Audits that miss a tool -/

namespace Pipeline
variable {p : Pipeline} {w w' : Workplace (List Path)} {program hint : String}

theorem stages_ne_toolNotFound :
    p.stages w ≠ .error (.fault (.toolNotFound program hint)) w' := by
  intro h
  have hend := p.stages_ends w
  rw [h] at hend
  cases hend with
  | broken before s rest runs m stop w' hsplit hruns hnul hadds hend =>
    cases hend with
    | missed stop es m hblame hmiss hadds =>
      obtain ⟨cause, hc, -⟩ := hblame _ rfl
      cases hc
    | stuck run gone path rest stop reason m hrun hkeep huses hblame hadds =>
      obtain ⟨cause, hc⟩ := hblame _ rfl
      cases hc
  | verified runs m r hruns hnul hadds hend =>
    cases hend with
    | missed stop es m hblame hquiet hadds =>
      rcases hblame with hblame | hblame
      · obtain ⟨cause, hc⟩ := hblame _ rfl
        cases hc
      · obtain ⟨cause, hc⟩ := hblame _ rfl
        cases hc
    | stuck image rebuilt run₁ run₂ stop reason m hmeas hkeep hblame hadds =>
      obtain ⟨cause, hc⟩ := hblame _ rfl
      cases hc
    | unseen image rebuilt run₁ run₂ stop m hmeas hstop hscan hadds =>
      rcases hstop with hs | ⟨e, hs⟩ <;> cases hs

/-- A pipeline looks for no tools, so that it misses none. -/
theorem run_ne_toolNotFound : p.run w ≠ .error (.fault (.toolNotFound program hint)) w' := by
  intro h
  cases hs : p.stages w with
  | ok v w₁ =>
    rw [p.run_of_ok hs] at h
    cases h
  | error s w₁ =>
    by_cases ha : s.Aborts
    · rw [p.run_of_abort hs ha] at h
      rcases bind_eq_error.1 h with hd | ⟨u, w₂, -, hthrow⟩
      · obtain ⟨-, -, -, hstop⟩ := p.discardPending_silent .output w₁
        rcases hstop _ _ hd with hd | ⟨e, hd⟩ <;> cases hd
      · cases hthrow
        exact stages_ne_toolNotFound hs
    · rw [p.run_of_error hs ha] at h
      cases h
      exact stages_ne_toolNotFound hs

end Pipeline

namespace Toolchain

/-- Looking for the tools of a toolchain ends in one of two ways: it finds them all and remembers
where, or it misses one and remembers what it did before. -/
theorem preflight_cases (w : Workplace Toolchain) :
    (∃ found m', List.Forall₂ w.machine.Finds w.own.tools found ∧
        preflight w = .ok found ⟨m', { w.own with resolved := found }⟩ ∧
        w.machine.Searched w.own.tools m') ∨
    ∃ here tool rest m', w.own.tools = here ++ tool :: rest ∧
      (∀ t ∈ here, ∃ file, w.machine.located? t.program = some file) ∧
      w.machine.located? tool.program = none ∧
      preflight w = .error (.fault (.toolNotFound tool.program tool.hint)) ⟨m', w.own⟩ ∧
      w.machine.Searched here m' := by
  have hlooked := Tool.looked_locateAll w.own.tools w.machine (.refl _)
  rcases Tool.locateAll_cases w.own.tools w.machine with ⟨found, hplaces, hall⟩ | h
  · rw [hall] at hlooked
    exact Or.inl ⟨found, _, hplaces, preflight_of_ok hall, Machine.searched_of_looked hlooked⟩
  · obtain ⟨here, tool, rest, hsplit, hhere, hnone, hall⟩ := h
    rw [hall] at hlooked
    exact Or.inr ⟨here, tool, rest, _, hsplit, hhere, hnone, preflight_of_error hall,
      Machine.searched_of_looked hlooked⟩

end Toolchain

/-- An audit that misses a tool has done so while it looked for its tools. -/
theorem preflight_of_audit {plan : Plan} {w w' : Workplace Toolchain} {program hint : String}
    (hnone : w.own.resolved = [])
    (h : audit plan w = .error (.fault (.toolNotFound program hint)) w') :
    Toolchain.preflight w = .error (.fault (.toolNotFound program hint)) w' := by
  unfold audit at h
  rcases bind_eq_error.1 h with hready | ⟨u, w₁, -, hrun⟩
  · have hempty : w.own.resolved.isEmpty = true := List.isEmpty_iff.2 hnone
    unfold Toolchain.ready at hready
    rw [bind_of_ok (get_apply w), if_pos hempty] at hready
    rcases bind_eq_error.1 hready with hpre | ⟨found, w₁, -, hpure⟩
    · exact hpre
    · cases hpure
  · rw [bind_of_ok (get_apply w₁)] at hrun
    obtain ⟨m, hfresh, -⟩ := onMachine_eq_error.1 hrun
    unfold Pipeline.runFresh startWith at hfresh
    split at hfresh
    · cases hfresh
    · next s w₂ hstop =>
      cases hfresh
      exact absurd hstop Pipeline.run_ne_toolNotFound

namespace Toolchain

/-- The tools of a toolchain are those named last for their roles, in the order in which the roles
were first named. If all are found, the toolchain gives and remembers the place of each in that
order. If not, the first that is missing is named, and what the toolchain remembered before stays.
Either way no program is tried, and no file changes but the log files that take the records of the
findings, which get a line for each. An audit with a toolchain that remembers nothing misses a tool
only so. -/
theorem preflight_all_or_none (tools : List Tool) (remembered : List (String × String))
    (m : Machine) :
    let tc : Toolchain := { ofTools tools with resolved := remembered }
    tc.tools = table tools ∧
    ((∀ tool ∈ table tools, ∃ file, m.located? tool.program = some file) →
      ∃ found m', List.Forall₂ m.Finds (table tools) found ∧
        preflight ⟨m, tc⟩ = .ok found ⟨m', { tc with resolved := found }⟩ ∧
        m.Searched (table tools) m') ∧
    ((¬ ∀ tool ∈ table tools, ∃ file, m.located? tool.program = some file) →
      ∃ here tool rest m', table tools = here ++ tool :: rest ∧
        (∀ t ∈ here, ∃ file, m.located? t.program = some file) ∧
        m.located? tool.program = none ∧
        preflight ⟨m, tc⟩ = .error (.fault (.toolNotFound tool.program tool.hint)) ⟨m', tc⟩ ∧
        m.Searched here m') ∧
    ∀ plan program hint w', remembered = [] →
      audit plan ⟨m, tc⟩ = .error (.fault (.toolNotFound program hint)) w' →
      w'.own = tc ∧ ∃ here, m.Searched here w'.machine := by
  intro tc
  have htools : tc.tools = table tools := tools_ofTools tools
  rw [← htools]
  refine ⟨rfl, fun hall => ?_, fun hsome => ?_, fun plan program hint w' hnone haudit => ?_⟩
  · rcases preflight_cases ⟨m, tc⟩ with h | ⟨here, tool, rest, m', hsplit, -, hmissing, -⟩
    · exact h
    · have hsplit : tc.tools = here ++ tool :: rest := hsplit
      obtain ⟨file, hfile⟩ := hall tool (by simp [hsplit])
      rw [hmissing] at hfile
      cases hfile
  · rcases preflight_cases ⟨m, tc⟩ with ⟨found, m', hplaces, -⟩ | h
    · exact absurd (Tool.located_of_places hplaces) hsome
    · exact h
  · have hpre := preflight_of_audit hnone haudit
    rcases preflight_cases ⟨m, tc⟩ with ⟨found, m', -, hok, -⟩ | ⟨here, tool, rest, m', -, -, -, h⟩
    · rw [hpre] at hok
      cases hok
    · rw [hpre] at h
      obtain ⟨herror, hsearched⟩ := h
      cases herror
      exact ⟨rfl, here, hsearched⟩

/-- The tools of an audit, of which the first is named again by a name that no program has. -/
def renamed : List Tool := Tool.required ++ [⟨"checksum", "sha1sums", "coreutils"⟩]

theorem preflight_toolsOnly :
    (∃ found m', List.Forall₂ CommandLine.toolsOnly.Finds (table Tool.required) found ∧
      preflight ⟨CommandLine.toolsOnly, ofTools Tool.required⟩ =
        .ok found ⟨m', { ofTools Tool.required with resolved := found }⟩ ∧
      CommandLine.toolsOnly.Searched (table Tool.required) m') ∧
    ∃ w', audit Pipeline.savingAudit.plan ⟨CommandLine.toolsOnly, ofTools renamed⟩ =
        .error (.fault (.toolNotFound "sha1sums" "coreutils")) w' ∧
      w'.own = ofTools renamed ∧ ∃ here, CommandLine.toolsOnly.Searched here w'.machine := by
  have hall : ∀ tool ∈ table Tool.required,
      (CommandLine.toolsOnly.located? tool.program).isSome := by decide +kernel
  have hmissed : failure? (audit Pipeline.savingAudit.plan
      ⟨CommandLine.toolsOnly, ofTools renamed⟩) =
        some (.fault (.toolNotFound "sha1sums" "coreutils")) := by decide +kernel
  have herror := eq_error_of_failure? hmissed
  obtain ⟨-, hfound, -, -⟩ := preflight_all_or_none Tool.required [] CommandLine.toolsOnly
  obtain ⟨-, -, -, haudit⟩ := preflight_all_or_none renamed [] CommandLine.toolsOnly
  exact ⟨hfound fun tool h => Option.isSome_iff_exists.1 (hall tool h), _, herror,
    haudit _ _ _ _ rfl herror⟩

/-- With a log file set up, a look for tools that are all there adds to that file. -/
theorem preflight_writes_log :
    let m := endState (setUpLogging Level.warning (some (.ofString "audit.log")) mainLogger
      CommandLine.toolsOnly)
    failure? (preflight ⟨m, standard⟩) = none ∧
      (endState (preflight ⟨m, standard⟩)).machine.tree.find? ["audit.log", "work"] ≠
        m.tree.find? ["audit.log", "work"] := by
  decide +kernel

end Toolchain

end FirmwareAudit
