import Mathlib.Algebra.Order.Ring.Nat
import Mathlib.Data.Char
import Mathlib.Data.List.TakeWhile
import Mathlib.Tactic.Common

/-!
# Numbers in a text

A text stream out of which unsigned numbers are extracted one after the other, as an input stream
of the C++ library does by default: white space is skipped, decimal digits are read (with a sign in
front, perhaps), and once an extraction has failed so do all that follow.

`extract_toDigits` says that a number written in decimal is read back, as long as what comes after
it does not begin with a digit.
-/

set_option autoImplicit false

namespace TextStream

/-- `isspace`. -/
def isSpace (c : Char) : Bool := c = ' ' || (9 ≤ c.toNat && c.toNat ≤ 13)

/-- An input stream: what is left of the text, and whether an extraction has failed. -/
structure InStream where
  rest : List Char
  failed : Bool
  deriving DecidableEq

/-- What the digits of a number, with a minus sign in front or not, stand for in an unsigned
variable of so many bits, and whether that is all of it. -/
def numeral (bits : Nat) (neg : Bool) (v : Nat) : Nat × Bool :=
  if 2 ^ bits ≤ v then (2 ^ bits - 1, false)
  else (if neg then (2 ^ bits - v) % 2 ^ bits else v, true)

/-- Read a number off the front of a text. -/
def readNumber (bits : Nat) (text : List Char) : Nat × InStream :=
  let neg := text.head? = some '-'
  let digits := if neg ∨ text.head? = some '+' then text.tail else text
  let rest := digits.dropWhile Char.isDigit
  match digits.takeWhile Char.isDigit with
  | [] => (0, ⟨rest, true⟩)
  | ds =>
    let r := numeral bits neg (Nat.ofDigitChars 10 ds 0)
    (r.1, ⟨rest, !r.2⟩)

/-- Extraction into an unsigned variable of so many bits.  When nothing is left to read, or the
stream has failed already, the variable keeps its value, and the result is `none`. -/
def InStream.extract (s : InStream) (bits : Nat) : Option Nat × InStream :=
  if s.failed then (none, s)
  else
    match s.rest.dropWhile isSpace with
    | [] => (none, ⟨[], true⟩)
    | text =>
      let r := readNumber bits text
      (some r.1, r.2)

variable {s : InStream} {bits v : Nat} {c : Char} {ws ds rest : List Char}

/-! ## The characters of a number

What is written in decimal begins with a digit, and is all digits, so neither white space nor a sign
is read in it. -/

@[simp] theorem isSpace_space : isSpace ' ' = true := rfl

@[simp] theorem isSpace_newline : isSpace '\n' = true := rfl

theorem isSpace_of_isDigit (h : c.isDigit = true) : isSpace c = false := by
  simp only [Char.isDigit, Bool.and_eq_true, decide_eq_true_eq, UInt32.le_iff_toNat_le] at h
  simp only [isSpace, Bool.or_eq_false_iff, decide_eq_false_iff_not, Bool.and_eq_false_iff]
  refine ⟨?_, .inr ?_⟩
  · rintro rfl
    simp at h
  · have : 48 ≤ c.toNat := h.1
    omega

theorem ne_sign_of_isDigit (h : c.isDigit = true) : c ≠ '-' ∧ c ≠ '+' := by
  constructor <;> (rintro rfl; cases h)

theorem isDigit_of_mem (h : c ∈ Nat.toDigits 10 v) : c.isDigit = true :=
  Nat.isDigit_of_mem_toDigits (by decide) le_rfl h

theorem exists_toDigits (v : Nat) : ∃ d ds, Nat.toDigits 10 v = d :: ds ∧ d.isDigit = true := by
  obtain ⟨d, ds, hds⟩ := List.exists_cons_of_ne_nil (Nat.toDigits_ne_nil (n := v) (b := 10))
  exact ⟨d, ds, hds, isDigit_of_mem (v := v) (by simp [hds])⟩

/-- The digits of a number, and nothing more, are read off the front of a text. -/
theorem takeWhile_toDigits (v : Nat) (h : ∀ c ∈ rest.head?, c.isDigit = false) :
    (Nat.toDigits 10 v ++ rest).takeWhile Char.isDigit = Nat.toDigits 10 v ∧
      (Nat.toDigits 10 v ++ rest).dropWhile Char.isDigit = rest := by
  have hall : ∀ c ∈ Nat.toDigits 10 v, c.isDigit = true := fun _ ↦ isDigit_of_mem
  rw [List.takeWhile_append_of_pos hall, List.dropWhile_append_of_pos hall]
  cases rest with
  | nil => simp
  | cons c rest =>
    have hc : c.isDigit = false := h c rfl
    simp [hc]

/-! ## Extraction

An extraction depends on what is at the front of the stream, and on whether one has failed before.
-/

/-- A stream that has failed gives nothing more. -/
@[simp] theorem extract_of_failed (h : s.failed = true) (bits : Nat) :
    s.extract bits = (none, s) := by
  simp [InStream.extract, h]

/-- At the end of the text there is nothing to extract. -/
theorem extract_of_blank (rest : List Char) (h : ∀ c ∈ rest, isSpace c = true) (bits : Nat) :
    (InStream.mk rest false).extract bits = (none, ⟨[], true⟩) := by
  have hnil : rest.dropWhile isSpace = [] := List.dropWhile_eq_nil_iff.mpr h
  simp [InStream.extract, hnil]

theorem readNumber_toDigits (hv : v < 2 ^ bits) (hrest : ∀ c ∈ rest.head?, c.isDigit = false) :
    readNumber bits (Nat.toDigits 10 v ++ rest) = (v, ⟨rest, false⟩) := by
  obtain ⟨d, ds, hds, hd⟩ := exists_toDigits v
  obtain ⟨hminus, hplus⟩ := ne_sign_of_isDigit hd
  obtain ⟨htake, hleft⟩ := takeWhile_toDigits v hrest
  have hvalue : Nat.ofDigitChars 10 (d :: ds) 0 = v := by
    rw [← hds, Nat.ofDigitChars_ten_toDigits]
  rw [hds, List.cons_append] at htake hleft
  rw [hds, readNumber]
  simp [hminus, hplus, htake, hleft, hvalue, numeral, not_le.mpr hv]

/-- **What is written is read back.**  White space in front of the number is skipped. -/
theorem extract_toDigits (ws rest : List Char) (hws : ∀ c ∈ ws, isSpace c = true)
    (hv : v < 2 ^ bits) (hrest : ∀ c ∈ rest.head?, c.isDigit = false) :
    (InStream.mk (ws ++ (Nat.toDigits 10 v ++ rest)) false).extract bits =
      (some v, ⟨rest, false⟩) := by
  obtain ⟨d, ds, hds, hd⟩ := exists_toDigits v
  have hdrop : (ws ++ (Nat.toDigits 10 v ++ rest)).dropWhile isSpace = d :: (ds ++ rest) := by
    rw [List.dropWhile_append_of_pos hws, hds]
    simp [isSpace_of_isDigit hd]
  have hnum := readNumber_toDigits hv hrest
  rw [hds, List.cons_append] at hnum
  simp [InStream.extract, hdrop, hnum]

theorem numeral_lt (bits : Nat) (neg : Bool) (v : Nat) : (numeral bits neg v).1 < 2 ^ bits := by
  have hpos := Nat.two_pow_pos bits
  rw [numeral]
  split
  · exact Nat.sub_lt hpos Nat.one_pos
  · dsimp only
    split
    · exact Nat.mod_lt _ hpos
    · exact not_le.mp ‹_›

theorem readNumber_lt (bits : Nat) (text : List Char) : (readNumber bits text).1 < 2 ^ bits := by
  rw [readNumber]
  dsimp only
  split
  · exact Nat.two_pow_pos bits
  · exact numeral_lt ..

/-- What a variable gets fits in it. -/
theorem extract_lt (h : (s.extract bits).1 = some v) : v < 2 ^ bits := by
  rw [InStream.extract] at h
  split at h
  · cases h
  · split at h
    · cases h
    · rw [← Option.some.inj h]
      exact readNumber_lt bits _

end TextStream
