import FirmwareAudit.Proofs.Commands
import FirmwareAudit.Proofs.Verification

/-! # What the messages take over

What a message quotes is printed in printable characters, and so are its numbers and all that it
says itself. A character that does not print can only be in one of the texts that a message takes
over as they are; the paths are such texts, and what a checksum tool wrote on its error stream.
-/
namespace FirmwareAudit
open Text

namespace Text

/-- All of the text prints. -/
def Prints (s : String) : Prop := s.toList.all isPrintable = true

instance (s : String) : Decidable (Prints s) := by unfold Prints; infer_instance

theorem prints_iff {s : String} : Prints s ↔ ∀ c ∈ s.toList, isPrintable c = true := by
  rw [Prints, List.all_eq_true]

theorem prints_append {s t : String} : Prints (s ++ t) ↔ Prints s ∧ Prints t := by
  simp [Prints]

theorem has_append_eq_false {c : Char} {s t : String} :
    has c (s ++ t) = false ↔ has c s = false ∧ has c t = false := by
  rw [has_append, Bool.or_eq_false_iff]

theorem Prints.has_eq_false {s : String} (h : Prints s) {b : Char} (hb : isPrintable b = false) :
    has b s = false := by
  refine Text.has_eq_false.2 fun hm => ?_
  rw [prints_iff.1 h b hm] at hb
  cases hb

theorem isPrintable_of_ascii {c : Char} (hlow : 0x20 ≤ c.toNat) (hhigh : c.toNat < 0x7f) :
    isPrintable c = true := by
  obtain ⟨rest, hrest⟩ : ∃ rest, unprintableRanges = (0x0, 0x1f) :: (0x7f, 0xa0) :: rest := ⟨_, rfl⟩
  have h₁ : ¬ c.toNat ≤ 0x1f := by omega
  simp [isPrintable, hrest, inRanges, h₁, hhigh]

theorem isPrintable_of_isDigit {c : Char} (h : c.isDigit = true) : isPrintable c = true := by
  simp only [Char.isDigit, Bool.and_eq_true, decide_eq_true_eq, ge_iff_le, UInt32.le_iff_toNat_le]
    at h
  have hlow : 48 ≤ c.toNat := h.1
  have hhigh : c.toNat ≤ 57 := h.2
  exact isPrintable_of_ascii (by omega) (by omega)

theorem prints_nat (n : Nat) : Prints (toString n) := by
  rw [prints_iff, Nat.toString_eq_repr, Nat.toList_repr]
  exact fun c hc => isPrintable_of_isDigit (Nat.isDigit_of_mem_toDigits (by decide) (by decide) hc)

theorem prints_int (i : Int) : Prints (toString i) := by
  cases i with
  | ofNat n => exact prints_nat n
  | negSucc n =>
    have hminus : Prints "-" := by decide
    exact prints_append.2 ⟨hminus, prints_nat (n + 1)⟩

/-! ## Quoted text -/

theorem isPrintable_hexDigit {n : Nat} (h : n < 16) : isPrintable (hexDigit n) = true := by
  have hall : ∀ n < 16, isPrintable (hexDigit n) = true := by decide
  exact hall n h

theorem isPrintable_of_mem_hexDigits {width n : Nat} {c : Char} (h : c ∈ hexDigits width n) :
    isPrintable c = true := by
  induction width generalizing n with
  | zero => cases h
  | succ width ih =>
    rcases List.mem_append.1 h with h | h
    · exact ih h
    · rw [List.mem_singleton.1 h]
      exact isPrintable_hexDigit (Nat.mod_lt n (by decide))

theorem isPrintable_of_mem_escapeCode {n : Nat} {c : Char} (h : c ∈ escapeCode n) :
    isPrintable c = true := by
  have hmarks : ∀ c ∈ ['\\', 'x', 'u', 'U'], isPrintable c = true :=
    List.all_eq_true.1 (by decide)
  have hmark : ∀ mark ∈ ['x', 'u', 'U'], ∀ width,
      c ∈ '\\' :: mark :: hexDigits width n → isPrintable c = true := by
    intro mark hm width hc
    rcases List.mem_cons.1 hc with rfl | hc
    · exact hmarks _ List.mem_cons_self
    · rcases List.mem_cons.1 hc with rfl | hc
      · exact hmarks _ (List.mem_cons_of_mem _ hm)
      · exact isPrintable_of_mem_hexDigits hc
  unfold escapeCode at h
  split at h
  · exact hmark 'x' (by simp) 2 h
  · split at h
    · exact hmark 'u' (by simp) 4 h
    · exact hmark 'U' (by simp) 8 h

theorem isPrintable_of_mem_escapeChar {quote c d : Char} (hquote : isPrintable quote = true)
    (h : d ∈ escapeChar quote c) : isPrintable d = true := by
  have hmarks : ∀ c ∈ ['\\', 'n', 'r', 't'], isPrintable c = true :=
    List.all_eq_true.1 (by decide)
  have hmark : ∀ mark ∈ ['n', 'r', 't'], d ∈ ['\\', mark] → isPrintable d = true := by
    intro mark hm hd
    rcases List.mem_cons.1 hd with rfl | hd
    · exact hmarks _ List.mem_cons_self
    · rw [List.mem_singleton.1 hd]
      exact hmarks _ (List.mem_cons_of_mem _ hm)
  unfold escapeChar at h
  split at h
  · next hc =>
    have hkept : isPrintable c = true := by
      rcases Bool.or_eq_true_iff.1 hc with hc | hc
      · rwa [of_decide_eq_true hc]
      · rw [of_decide_eq_true hc]
        exact hmarks _ (by simp)
    rcases List.mem_cons.1 h with rfl | h
    · exact hmarks _ (by simp)
    · rwa [List.mem_singleton.1 h]
  · split at h
    · exact hmark 'n' (by simp) h
    · split at h
      · exact hmark 'r' (by simp) h
      · split at h
        · exact hmark 't' (by simp) h
        · split at h
          · next hc => rwa [List.mem_singleton.1 h]
          · exact isPrintable_of_mem_escapeCode h

/-- A quoted text is printed in printable characters, whatever is in it. -/
theorem prints_quoted (s : String) : Prints (quoted s) := by
  have hquote : ∀ cs, isPrintable (quoteFor cs) = true := by
    have hquotes : isPrintable '"' = true ∧ isPrintable '\'' = true := by decide
    intro cs
    unfold quoteFor
    split
    · exact hquotes.1
    · exact hquotes.2
  rw [prints_iff, quoted, String.toList_ofList]
  intro c hc
  rcases List.mem_append.1 hc with hc | hc
  · rcases List.mem_cons.1 hc with rfl | hc
    · exact hquote _
    · obtain ⟨d, -, hc⟩ := List.mem_flatMap.1 hc
      exact isPrintable_of_mem_escapeChar (hquote _) hc
  · rw [List.mem_singleton.1 hc]
    exact hquote _

end Text

theorem Digest.prints_of_ofAnswer {answer d : String} (h : ofAnswer? answer = some d) :
    Prints d := by
  refine prints_iff.2 fun c hc => ?_
  rcases (isDigest_of_ofAnswer h).2 c hc with hdigit | ⟨hlow, hhigh⟩
  · exact isPrintable_of_isDigit hdigit
  · have hl : 'a'.toNat ≤ c.toNat := hlow
    have hh : c.toNat ≤ 'f'.toNat := hhigh
    exact isPrintable_of_ascii (Nat.le_trans (by decide) hl) (Nat.lt_of_le_of_lt hh (by decide))

/-! ## Messages -/

theorem Errno.prints_description (e : Errno) : Prints e.description := by
  cases e <;> decide

/-- What a system error says is printable, since the path in it is quoted. -/
theorem SystemError.prints_message (e : SystemError) : Prints e.message := by
  have hwords : Prints "[Errno " ∧ Prints "] " ∧ Prints ": " := by decide
  obtain ⟨hopen, hclose, hcolon⟩ := hwords
  have htext : Prints ("[Errno " ++ toString e.errno.number ++ "] " ++ e.errno.description) := by
    simp only [prints_append]
    exact ⟨⟨⟨hopen, prints_nat _⟩, hclose⟩, e.errno.prints_description⟩
  unfold SystemError.message
  cases e.path with
  | none => exact htext
  | some path => exact prints_append.2 ⟨prints_append.2 ⟨htext, hcolon⟩, prints_quoted path⟩

theorem StageFault.prints_notStarted {stage program : String} (hstage : Prints stage)
    (hprogram : Prints program) (command : List String) (cause : SystemError) :
    Prints (notStarted stage program command cause).message := by
  have hwords : Prints ": could not run " ∧ Prints ": " := by decide
  simp only [notStarted, prints_append]
  exact ⟨⟨⟨⟨hstage, hwords.1⟩, hprogram⟩, hwords.2⟩, cause.prints_message⟩

theorem StageFault.prints_failed {stage program : String} (hstage : Prints stage)
    (hprogram : Prints program) (command : List String) (status : Int) :
    Prints (failed stage program command status).message := by
  have hwords : Prints " failed: " ∧ Prints " exited with status " := by decide
  simp only [failed, prints_append]
  exact ⟨⟨⟨⟨hstage, hwords.1⟩, hprogram⟩, hwords.2⟩, prints_int status⟩

namespace ChecksumFault

/-- The texts that the message takes over as they are. -/
def texts (path : Path) : ChecksumFault → List String
  | notStarted _ => [path.toString]
  | failed detail => [path.toString, detail]
  | unreadable program _ => [program, path.toString]

end ChecksumFault

namespace Fault

/-- The texts that the message takes over as they are. -/
def texts : Fault → List String
  | toolNotFound program hint => [program, hint]
  | unreadableImage path => [path.toString]
  | missingIncludeDir path => [path.toString]
  | stage s => [s.message]
  | cleanup path _ => [path.toString]
  | checksum path cause => cause.texts path
  | mismatch image rebuilt =>
    [image.path.toString, image.digest, rebuilt.path.toString, rebuilt.digest]

end Fault

section Unprintable
variable {b : Char} (hb : isPrintable b = false)
include hb

theorem ChecksumFault.has_message {path : Path} {cause : ChecksumFault}
    (h : ∀ t ∈ cause.texts path, has b t = false) : has b (cause.message path) = false := by
  have hwords : Prints "Failed to compute checksum of '" ∧ Prints "': " ∧ Prints "'" ∧
      Prints ": " ∧ Prints "Unexpected " ∧ Prints " output for '" := by decide
  obtain ⟨hfailed, hcolon, hclose, hdetail, hunexpected, houtput⟩ := hwords
  cases cause with
  | notStarted e =>
    simp only [texts, List.forall_mem_singleton] at h
    unfold message
    simp only [has_append_eq_false]
    exact ⟨⟨⟨hfailed.has_eq_false hb, h⟩, hcolon.has_eq_false hb⟩,
      e.prints_message.has_eq_false hb⟩
  | failed detail =>
    simp only [texts, List.forall_mem_cons] at h
    unfold message
    simp only [has_append_eq_false]
    refine ⟨⟨⟨hfailed.has_eq_false hb, h.1⟩, hclose.has_eq_false hb⟩, ?_⟩
    split
    · rfl
    · exact has_append_eq_false.2 ⟨hdetail.has_eq_false hb, h.2.1⟩
  | unreadable program answer =>
    simp only [texts, List.forall_mem_cons] at h
    unfold message
    simp only [has_append_eq_false]
    exact ⟨⟨⟨⟨⟨hunexpected.has_eq_false hb, h.1⟩, houtput.has_eq_false hb⟩, h.2.1⟩,
      hcolon.has_eq_false hb⟩, (prints_quoted answer).has_eq_false hb⟩

/-- A character that does not print is in a fault's message only if a text brings it. -/
theorem Fault.has_message {f : Fault} (h : ∀ t ∈ f.texts, has b t = false) :
    has b f.message = false := by
  cases f with
  | toolNotFound program hint =>
    have hwords : Prints "Required program '" ∧ Prints "' not found in PATH" ∧
        Prints ". Please install " ∧ Prints "." := by decide
    obtain ⟨hopen, hclose, hinstall, hdot⟩ := hwords
    simp only [texts, List.forall_mem_cons] at h
    unfold message
    simp only [has_append_eq_false]
    refine ⟨⟨⟨hopen.has_eq_false hb, h.1⟩, hclose.has_eq_false hb⟩, ?_⟩
    split
    · rfl
    · simp only [has_append_eq_false]
      exact ⟨⟨hinstall.has_eq_false hb, h.2.1⟩, hdot.has_eq_false hb⟩
  | unreadableImage path =>
    have hwords : Prints "could not read input file '" ∧ Prints "'" := by decide
    simp only [texts, List.forall_mem_singleton] at h
    unfold message
    simp only [has_append_eq_false]
    exact ⟨⟨hwords.1.has_eq_false hb, h⟩, hwords.2.has_eq_false hb⟩
  | missingIncludeDir path =>
    have hwords : Prints "include directory '" ∧ Prints "' does not exist" := by decide
    simp only [texts, List.forall_mem_singleton] at h
    unfold message
    simp only [has_append_eq_false]
    exact ⟨⟨hwords.1.has_eq_false hb, h⟩, hwords.2.has_eq_false hb⟩
  | stage s => exact h _ (List.mem_singleton_self _)
  | cleanup path cause =>
    have hwords : Prints "Failed to remove temporary file '" ∧ Prints "': " := by decide
    simp only [texts, List.forall_mem_singleton] at h
    unfold message
    simp only [has_append_eq_false]
    exact ⟨⟨⟨hwords.1.has_eq_false hb, h⟩, hwords.2.has_eq_false hb⟩,
      cause.prints_message.has_eq_false hb⟩
  | checksum path cause => exact ChecksumFault.has_message hb h
  | mismatch image rebuilt =>
    have hwords : Prints "Checksum mismatch: " ∧ Prints " (" ∧ Prints ") != " ∧ Prints ")" := by
      decide
    obtain ⟨hhead, hopen, hne, hclose⟩ := hwords
    simp only [texts, List.forall_mem_cons] at h
    unfold message
    simp only [has_append_eq_false]
    exact ⟨⟨⟨⟨⟨⟨⟨⟨hhead.has_eq_false hb, h.1⟩, hopen.has_eq_false hb⟩, h.2.1⟩, hne.has_eq_false hb⟩,
      h.2.2.1⟩, hopen.has_eq_false hb⟩, h.2.2.2.1⟩, hclose.has_eq_false hb⟩

end Unprintable

namespace Stop

/-- The texts that the message takes over as they are. -/
def texts : Stop → List String
  | fault f => f.texts
  | _ => []

/-- What stops an audit beside the faults says so in printable characters. -/
theorem has_message {b : Char} (hb : isPrintable b = false) {s : Stop}
    (h : ∀ t ∈ s.texts, has b t = false) : has b s.message = false := by
  have hwords : Prints "embedded null byte" ∧
      Prints "expected str, bytes or os.PathLike object, not list" := by decide
  cases s with
  | fault f => exact Fault.has_message hb h
  | interrupted => rfl
  | nulByte => exact hwords.1.has_eq_false hb
  | unknownRole role => exact (prints_quoted role).has_eq_false hb
  | system e => exact e.prints_message.has_eq_false hb
  | notText => exact hwords.2.has_eq_false hb
  | exit code => exact (prints_nat code).has_eq_false hb

end Stop

end FirmwareAudit
