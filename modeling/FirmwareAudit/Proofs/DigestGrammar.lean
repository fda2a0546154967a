import Mathlib
import FirmwareAudit.Proofs.Invocation

/-! # What a digest looks like

An answer holds a digest if its first word is forty hexadecimal digits behind any number of
backslashes. The letters may be capital or small. No other letter of Unicode has a digit for its
small letter, so making small before the check lets nothing else through.
-/
namespace FirmwareAudit
open Text

namespace Text

/-! ## Words -/

theorem unifyLines_cons {c : Char} (h : c ≠ '\r') (cs : List Char) :
    unifyLines (c :: cs) = c :: unifyLines cs :=
  unifyLines.eq_3 c cs (fun _ hc => absurd hc h) h

theorem dropWhile_unifyLines (cs : List Char) :
    (unifyLines cs).dropWhile isBlank = unifyLines (cs.dropWhile isBlank) := by
  have hfeed : isBlank '\n' = true := by decide
  have hreturn : isBlank '\r' = true := by decide
  induction cs using unifyLines.induct with
  | case1 rest ih => simpa [unifyLines, hfeed, hreturn] using ih
  | case2 rest hne ih =>
    rw [unifyLines, List.dropWhile_cons_of_pos hfeed, List.dropWhile_cons_of_pos hreturn, ih]
    exact hne
  | case3 c rest hne hc ih =>
    have hr : c ≠ '\r' := hc
    rw [unifyLines_cons hr]
    cases hb : isBlank c with
    | true => rw [List.dropWhile_cons_of_pos hb, List.dropWhile_cons_of_pos hb, ih]
    | false =>
      have hb' : ¬ isBlank c = true := by simp [hb]
      rw [List.dropWhile_cons_of_neg hb', List.dropWhile_cons_of_neg hb', unifyLines_cons hr]
  | case4 => rfl

theorem takeWhile_unifyLines (cs : List Char) :
    (unifyLines cs).takeWhile (!isBlank ·) = cs.takeWhile (!isBlank ·) := by
  have hfeed : isBlank '\n' = true := by decide
  have hreturn : isBlank '\r' = true := by decide
  induction cs using unifyLines.induct with
  | case1 rest ih => simp [unifyLines, hfeed, hreturn]
  | case2 rest hne ih =>
    rw [unifyLines]
    · simp [hfeed, hreturn]
    · exact hne
  | case3 c rest hne hc ih =>
    rw [unifyLines_cons hc, List.takeWhile_cons, List.takeWhile_cons, ih]
  | case4 => rfl

/-- The ends of lines have no part in a word. -/
theorem firstWord_unifyLines (cs : List Char) : firstWord (unifyLines cs) = firstWord cs := by
  rw [firstWord, dropWhile_unifyLines, takeWhile_unifyLines, firstWord]

/-- The first word of a text whose parts are known. -/
theorem firstWord_append {blanks word rest : List Char} (hblanks : ∀ c ∈ blanks, isBlank c)
    (hword : ∀ c ∈ word, isBlank c = false) (hne : word ≠ []) (hrest : ∀ c ∈ rest.head?, isBlank c) :
    firstWord (blanks ++ (word ++ rest)) = word := by
  have hstart : (word ++ rest).dropWhile isBlank = word ++ rest := by
    cases word with
    | nil => exact absurd rfl hne
    | cons c cs =>
      exact List.dropWhile_cons_of_neg (by simp [hword c List.mem_cons_self])
  have hend : rest.takeWhile (!isBlank ·) = [] := by
    cases rest with
    | nil => rfl
    | cons c cs => exact List.takeWhile_cons_of_neg (by simpa using hrest c rfl)
  rw [firstWord, List.dropWhile_append_of_pos hblanks, hstart,
    List.takeWhile_append_of_pos (by simpa using hword), hend, List.append_nil]

/-- Each text is cut into the blanks in front of its first word, that word, and what is behind. -/
theorem exists_firstWord (cs : List Char) :
    ∃ blanks rest, cs = blanks ++ (firstWord cs ++ rest) ∧ (∀ c ∈ blanks, isBlank c) ∧
      ∀ c ∈ rest.head?, isBlank c := by
  refine ⟨cs.takeWhile isBlank, (cs.dropWhile isBlank).dropWhile (!isBlank ·), ?_, ?_, ?_⟩
  · rw [firstWord, List.takeWhile_append_dropWhile, List.takeWhile_append_dropWhile]
  · exact fun c hc => List.all_eq_true.1 List.all_takeWhile c hc
  · intro c hc
    have h := List.head?_dropWhile_not (!isBlank ·) (cs.dropWhile isBlank)
    rw [hc] at h
    simpa using h

end Text

namespace Digest

/-! ## Small letters -/

/-- A hexadecimal digit of ASCII, its letter small or capital. -/
def anyDigits : List Char := "0123456789abcdefABCDEF".toList

theorem of_mem_anyDigits :
    ∀ c ∈ anyDigits, isBlank c = false ∧ c ≠ '\\' ∧ c ≠ 'Σ' ∧ lowerChar c = [c.toLower] ∧
      c.toLower ∈ digits :=
  List.all_iff_forall_prop.1 (by decide +kernel)

/-- No capital outside of ASCII has a small letter among the digits. -/
theorem shift_of_mem_capitalRuns :
    ∀ r ∈ capitalRuns, (r.first = 0x41 ∧ r.last = 0x5a ∧ r.shift = 32) ∨
      0x66 < (r.first : Int) + r.shift := by
  decide +kernel

theorem mem_anyDigits_of_capital :
    ∀ i : Fin 26, Char.ofNat (0x41 + i + 32) ∈ digits → Char.ofNat (0x41 + i) ∈ anyDigits := by
  decide +kernel

theorem mem_anyDigits_of_lowerChar {c : Char} (h : ∀ d ∈ lowerChar c, d ∈ digits) :
    c ∈ anyDigits := by
  unfold lowerChar at h
  split at h
  · exact absurd (h 'i' List.mem_cons_self) (by decide)
  · split at h
    · next r hr =>
      have hd := h _ List.mem_cons_self
      have hc := List.find?_some hr
      simp only [CapitalRun.contains, Bool.and_eq_true, decide_eq_true_eq] at hc
      rcases shift_of_mem_capitalRuns r (List.mem_of_find?_eq_some hr) with ⟨hf, hl, hs⟩ | hfar
      · have hi := mem_anyDigits_of_capital ⟨c.toNat - 0x41, by omega⟩
        have hn : 0x41 + (c.toNat - 0x41) = c.toNat := by omega
        simp only [hn, Char.ofNat_toNat] at hi
        rw [hs] at hd
        exact hi hd
      · have hrange : ∀ d ∈ digits, 0 < d.toNat ∧ d.toNat ≤ 0x66 :=
          List.all_iff_forall_prop.1 (by decide)
        have hb := hrange _ hd
        have hcode : 0x66 < ((c.toNat : Int) + r.shift).toNat := by omega
        rw [Char.toNat_ofNat] at hb
        split at hb
        · exact absurd hb.2 (Nat.not_le.2 hcode)
        · exact absurd hb.1 (by decide)
    · have hall : ∀ d ∈ digits, d ∈ anyDigits := List.all_iff_forall_prop.1 (by decide)
      exact hall c (h c List.mem_cons_self)

theorem lowerChars_of_anyDigits {cs : List Char} (h : ∀ c ∈ cs, c ∈ anyDigits)
    (before : List Char) : lowerChars before cs = cs.map Char.toLower := by
  induction cs generalizing before with
  | nil => rfl
  | cons c rest ih =>
    obtain ⟨-, -, hsigma, hlower, -⟩ := of_mem_anyDigits c (h c List.mem_cons_self)
    rw [lowerChars, if_neg hsigma, hlower, ih (fun d hd => h d (List.mem_cons_of_mem c hd)),
      List.map_cons, List.singleton_append]

theorem anyDigits_of_lowerChars {before cs : List Char}
    (h : ∀ d ∈ lowerChars before cs, d ∈ digits) : ∀ c ∈ cs, c ∈ anyDigits := by
  induction cs generalizing before with
  | nil => exact fun c hc => absurd hc List.not_mem_nil
  | cons c rest ih =>
    rw [lowerChars] at h
    rw [List.forall_mem_append] at h
    rw [List.forall_mem_cons]
    refine ⟨?_, ih h.2⟩
    by_cases hsigma : c = 'Σ'
    · -- Both small sigmas are no digits.
      have hs := h.1 (lowerSigma before rest) (by rw [if_pos hsigma]; exact List.mem_cons_self)
      unfold lowerSigma at hs
      split at hs <;> exact absurd hs (by decide)
    · rw [if_neg hsigma] at h
      exact mem_anyDigits_of_lowerChar h.1

/-! ## The grammar -/

/-- The first word of an answer is forty hexadecimal digits behind any number of backslashes. -/
structure Carries (answer : String) (word : List Char) : Prop where
  length_eq : word.length = length
  isDigit : ∀ c ∈ word, c ∈ anyDigits
  parts : ∃ blanks marks rest : List Char, answer.toList = blanks ++ (marks ++ word ++ rest) ∧
    (∀ c ∈ blanks, isBlank c) ∧ (∀ c ∈ marks, c = '\\') ∧ ∀ c ∈ rest.head?, isBlank c

/-- A digest in the letters that it is compared in. -/
def inSmallLetters (word : List Char) : String := .ofList (word.map Char.toLower)

theorem Carries.firstWord_eq {answer : String} {word : List Char} (h : Carries answer word) :
    ∃ marks : List Char, firstWord answer.toList = marks ++ word ∧ ∀ c ∈ marks, c = '\\' := by
  obtain ⟨blanks, marks, rest, ha, hblanks, hmarks, hrest⟩ := h.parts
  refine ⟨marks, ?_, hmarks⟩
  rw [ha]
  apply firstWord_append hblanks _ _ hrest
  · intro c hc
    rcases List.mem_append.1 hc with hc | hc
    · rw [hmarks c hc]
      decide
    · exact (of_mem_anyDigits c (h.isDigit c hc)).1
  · intro hnil
    have hl := h.length_eq
    rw [(List.append_eq_nil_iff.1 hnil).2] at hl
    cases hl

/-- An answer is read as a digest exactly if it carries one. -/
theorem ofAnswer?_eq_some_iff {answer d : String} :
    ofAnswer? answer = some d ↔ ∃ word, Carries answer word ∧ d = inSmallLetters word := by
  constructor
  · intro h
    unfold ofAnswer? at h
    simp only at h
    split at h
    · next hd =>
      cases h
      rw [Bool.and_eq_true, decide_eq_true_eq] at hd
      let word := (firstWord answer.toList).dropWhile (· = '\\')
      have hdigits : ∀ c ∈ lowerChars [] word, c ∈ digits :=
        fun c hc => List.contains_iff_mem.1 (List.all_eq_true.1 hd.2 c hc)
      have hword : ∀ c ∈ word, c ∈ anyDigits := anyDigits_of_lowerChars hdigits
      have hfield : field answer.toList = word.map Char.toLower :=
        lowerChars_of_anyDigits hword []
      obtain ⟨blanks, rest, ha, hblanks, hrest⟩ := exists_firstWord answer.toList
      let marks := (firstWord answer.toList).takeWhile (· = '\\')
      have hcut : firstWord answer.toList = marks ++ word := List.takeWhile_append_dropWhile.symm
      refine ⟨word, ⟨?_, hword, blanks, marks, rest, ?_, hblanks, ?_, hrest⟩, ?_⟩
      · rw [← hd.1, hfield, List.length_map]
      · rw [← hcut]
        exact ha
      · intro c hc
        simpa using List.all_eq_true.1 List.all_takeWhile c hc
      · rw [hfield, inSmallLetters]
    · cases h
  · rintro ⟨word, hc, rfl⟩
    obtain ⟨marks, hfirst, hmarks⟩ := hc.firstWord_eq
    have hdrop : (marks ++ word).dropWhile (· = '\\') = word := by
      rw [List.dropWhile_append_of_pos (by simpa using hmarks)]
      cases word with
      | nil => rfl
      | cons c rest =>
        apply List.dropWhile_cons_of_neg
        simpa using (of_mem_anyDigits c (hc.isDigit c List.mem_cons_self)).2.1
    have hfield : field answer.toList = word.map Char.toLower := by
      rw [field, hfirst, hdrop, lowerChars_of_anyDigits hc.isDigit]
    have hall : (word.map Char.toLower).all digits.contains = true := by
      rw [List.all_map, List.all_eq_true]
      exact fun c hmem =>
        List.contains_iff_mem.2 (of_mem_anyDigits c (hc.isDigit c hmem)).2.2.2.2
    simp only [ofAnswer?, hfield, hall, List.length_map, hc.length_eq]
    rfl

/-- A digest that a text starts with, with the marker of an escaped name or without it. -/
theorem carries_line {word : List Char} (hlength : word.length = length)
    (hdigits : ∀ c ∈ word, c ∈ anyDigits) {marks : String} (hmarks : ∀ c ∈ marks.toList, c = '\\')
    (name : String) : Carries (marks ++ .ofList word ++ "  " ++ name) word := by
  refine ⟨hlength, hdigits, [], marks.toList, ' ' :: ' ' :: name.toList, ?_, ?_, hmarks, ?_⟩
  · simp [String.toList_append]
  · exact fun c hc => absurd hc List.not_mem_nil
  · intro c hc
    cases hc
    decide

/-- The ends of lines in an answer have no part in its digest. -/
theorem ofAnswer?_answer (run : Run) : ofAnswer? run.answer = ofAnswer? run.out := by
  have hfield : field run.answer.toList = field run.out.toList := by
    rw [Run.answer, String.toList_ofList, field, firstWord_unifyLines, field]
  rw [ofAnswer?, hfield, ofAnswer?]

end Digest

namespace Toolchain

variable (tc : Toolchain)

/-- What becomes of a run of the checksum tool that exited with status 0. -/
theorem checksum_of_ran {path : Path} {m : Machine} {events : List Event} {run : Run}
    (htrace : (endState (tc.checksum path m)).trace = m.trace ++ events)
    (hrun : run ∈ runsOf events) (hstatus : run.ending = .exited 0) :
    ∃ tool m', tc.tool? Tool.checksum.role = some tool ∧
      tc.checksum path m =
        match Digest.ofAnswer? run.answer with
        | some digest => .ok ⟨path, digest⟩ m'
        | none => .error (.fault (.checksum path (.unreadable tool.program (trimmed run.answer)))) m' := by
  cases ht : tc.tool? Tool.checksum.role with
  | none =>
    have hnone : tc.checksum path m = .error (.unknownRole Tool.checksum.role) m :=
      bind_of_error (tc.tool_of_none ht m)
    rw [hnone] at htrace
    rw [List.self_eq_append_right.1 htrace] at hrun
    cases hrun
  | some tool =>
    refine ⟨tool, ?_⟩
    unfold Toolchain.checksum at htrace ⊢
    rw [bind_of_ok (tc.tool_of_some ht m), bind_of_ok (log_eq _ _ _ _ m)] at htrace ⊢
    have hlog := m.adds_afterLog toolLogger "sha1" Level.debug
      ("[verify] " ++ shellLine [tool.program, path.toString])
    generalize m.afterLog toolLogger "sha1" Level.debug
      ("[verify] " ++ shellLine [tool.program, path.toString]) = m₀ at hlog htrace ⊢
    rcases capture_cases tool.program [path.toString] m₀ with ⟨s, m', e, hr, hs, he, ha⟩ | h
    · obtain ⟨s', hw, -⟩ := wrapSystemError_of_error (fun e => .checksum path (.notStarted e)) hs hr
      rw [bind_of_error hw] at htrace
      rw [(hlog.trans ha).runsOf_eq htrace] at hrun
      cases e with
      | ran run' =>
        cases List.mem_singleton.1 hrun
        exact absurd hstatus he.2
      | _ => cases hrun
    · obtain ⟨c, m', run', hr, -, he, ho, ha⟩ := h
      have hsame (hm : m'.trace = m.trace ++ events) : run = run' := by
        rw [(hlog.trans ha).runsOf_eq hm] at hrun
        exact List.mem_singleton.1 hrun
      rw [bind_of_ok (wrapSystemError_of_ok hr)] at htrace ⊢
      by_cases hz : c.status = 0
      · rw [if_neg (not_not_intro hz), ho] at htrace ⊢
        cases hd : Digest.ofAnswer? run'.answer with
        | some digest =>
          rw [hd] at htrace
          rw [hsame htrace, hd]
          exact ⟨m', rfl, rfl⟩
        | none =>
          rw [hd] at htrace
          rw [hsame htrace, hd]
          exact ⟨m', rfl, rfl⟩
      · rw [if_pos hz] at htrace
        rw [hsame htrace, he] at hstatus
        exact absurd (Ending.exited.inj hstatus) hz

/-- Once the checksum tool has run and exited with status 0, there is a checksum exactly if what it
wrote carries a digest. It is a checksum of the path that was asked for, in small letters. Without a
digest the run fails with a fault that names the path and quotes the answer, and with no other. A
line with the marker of an escaped name comes to the same as the line without it. -/
theorem checksum_answered (path : Path) (m : Machine) {events : List Event} {run : Run}
    (htrace : (endState (tc.checksum path m)).trace = m.trace ++ events)
    (hrun : run ∈ runsOf events) (hstatus : run.ending = .exited 0) :
    (∀ c, (∃ m', tc.checksum path m = .ok c m') ↔
      c.path = path ∧ ∃ word, Digest.Carries run.out word ∧ c.digest = Digest.inSmallLetters word) ∧
    ((¬ ∃ word, Digest.Carries run.out word) →
      ∃ tool m', tc.tool? Tool.checksum.role = some tool ∧ tc.checksum path m =
        .error (.fault (.checksum path (.unreadable tool.program (trimmed run.answer)))) m') ∧
    ∀ (word : List Char) (name : String), word.length = Digest.length →
      (∀ c ∈ word, c ∈ Digest.anyDigits) → ∀ marks ∈ ["", "\\"],
        run.out = marks ++ .ofList word ++ "  " ++ name →
        ∃ m', tc.checksum path m = .ok ⟨path, Digest.inSmallLetters word⟩ m' := by
  obtain ⟨tool, m', htool, hresult⟩ := tc.checksum_of_ran htrace hrun hstatus
  rw [Digest.ofAnswer?_answer] at hresult
  have hgiven (word : List Char) (hw : Digest.Carries run.out word) :
      tc.checksum path m = .ok ⟨path, Digest.inSmallLetters word⟩ m' := by
    rw [hresult, Digest.ofAnswer?_eq_some_iff.2 ⟨word, hw, rfl⟩]
  refine ⟨fun c => ⟨?_, ?_⟩, fun hno => ⟨tool, m', htool, ?_⟩, ?_⟩
  · rintro ⟨m'', hok⟩
    cases hd : Digest.ofAnswer? run.out with
    | none =>
      rw [hresult, hd] at hok
      cases hok
    | some digest =>
      rw [hresult, hd] at hok
      cases hok
      exact ⟨rfl, Digest.ofAnswer?_eq_some_iff.1 hd⟩
  · rintro ⟨hpath, word, hw, hdigest⟩
    refine ⟨m', ?_⟩
    rw [hgiven word hw, ← hpath, ← hdigest]
  · cases hd : Digest.ofAnswer? run.out with
    | none => rw [hresult, hd]
    | some digest =>
      obtain ⟨word, hw, -⟩ := Digest.ofAnswer?_eq_some_iff.1 hd
      exact absurd ⟨word, hw⟩ hno
  · intro word name hlength hdigits marks hmarks hout
    refine ⟨m', hgiven word ?_⟩
    rw [hout]
    apply Digest.carries_line hlength hdigits
    intro c hc
    rcases List.mem_cons.1 hmarks with rfl | hmarks
    · cases hc
    · rw [List.mem_singleton.1 hmarks] at hc
      exact List.mem_singleton.1 hc

/-- A machine with a checksum tool that gives the same answer for every file. -/
def answering (answer : String) : Machine where
  cwd := "/"
  searchPath := some "/bin"
  tree :=
    { entries := [([], .directory .plain), (["bin"], .directory .plain),
        (["sha1sum", "bin"], .file { FileNode.plain "" with executable := .allowed })]
      clock := 3 }
  programs _ _ _ t := .ran t answer "" (.exited 0)
  turns _ := 0
  journal := .silent [toolLogger]
  trace := []

/-- A wide blank, the marker and capitals do no harm there, and a blank answer has no digest. -/
theorem checksum_answered_answering :
    let image := Path.ofString "fw.bin"
    let marked := "\u2003\\DA39A3EE5E6B4B0D3255BFEF95601890AFD80709  fw.bin\r\n"
    (∃ m', standard.checksum image (answering marked) =
      .ok ⟨image, "da39a3ee5e6b4b0d3255bfef95601890afd80709"⟩ m') ∧
    ∃ tool m', standard.checksum image (answering "\u2003\r\n") =
      .error (.fault (.checksum image (.unreadable tool ""))) m' := by
  intro image marked
  let run (answer : String) : Run :=
    ⟨"/bin/sha1sum", ["sha1sum", "fw.bin"], answer, "", .exited 0⟩
  have hran (answer : String)
      (h : run answer ∈ runsOf (endState (standard.checksum image (answering answer))).trace) :=
    standard.checksum_answered image (answering answer) (List.nil_append _).symm h rfl
  constructor
  · have hword : Digest.Carries marked "DA39A3EE5E6B4B0D3255BFEF95601890AFD80709".toList := by
      refine ⟨by decide, List.all_iff_forall_prop.1 (by decide), ['\u2003'], ['\\'],
        "  fw.bin\r\n".toList, by decide, ?_, ?_, ?_⟩
      · exact List.forall_mem_singleton.2 (by decide)
      · exact List.forall_mem_singleton.2 rfl
      · rintro c ⟨⟩
        decide
    have hsmall : "da39a3ee5e6b4b0d3255bfef95601890afd80709" = Digest.inSmallLetters
        "DA39A3EE5E6B4B0D3255BFEF95601890AFD80709".toList := by decide +kernel
    have h := (hran marked (by decide +kernel)).1
      ⟨image, "da39a3ee5e6b4b0d3255bfef95601890afd80709"⟩
    exact h.2 ⟨rfl, _, hword, hsmall⟩
  · have hnone : ¬ ∃ word, Digest.Carries "\u2003\r\n" word := by
      rintro ⟨word, hw⟩
      have h := Digest.ofAnswer?_eq_some_iff.2 ⟨word, hw, rfl⟩
      have hno : Digest.ofAnswer? "\u2003\r\n" = none := by decide +kernel
      rw [hno] at h
      cases h
    obtain ⟨tool, m', -, h⟩ := (hran "\u2003\r\n" (by decide +kernel)).2.1 hnone
    have htrimmed : trimmed (run "\u2003\r\n").answer = "" := by decide +kernel
    rw [htrimmed] at h
    exact ⟨tool.program, m', h⟩

end Toolchain

end FirmwareAudit
