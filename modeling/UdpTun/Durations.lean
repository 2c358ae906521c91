import UdpTun.Halt
import UdpTun.Lib.Scanner
import UdpTun.Lib.TextStream

/-!
# Durations in the configuration

`duration` of `cfghelp.cc` reads a text such as `1h 30m`.  It finds what matches `durpat`, and adds
up the numbers, each with its unit.  The pattern is compiled so as to ignore the case of a letter,
but the unit that has been matched is compared with lower-case letters only.  So `1H` matches, and
counts for nothing.

`duration_text` says what comes of a text made of `Token`s, and `duration_eq_iff` when that is their
total.

The end of the pattern is `\s*`, for blanks.  In the grammar that is chosen `\s` does not stand for
a blank, and it depends on the library what it does stand for.  So this is a parameter, `trail`; all
that matters is that it is not a digit.
-/

set_option autoImplicit false

namespace UdpTun
namespace Durations

open TextStream (isSpace isSpace_of_isDigit)

/-- `[smhd]`, in either case. -/
def isUnit (c : Char) : Bool := c.toLower ∈ ['s', 'm', 'h', 'd']

/-- `durpat`; of a match, the two groups.  There is only one way to match at a place, since no unit
is a digit. -/
def durpat (trail : Char → Bool) : Pattern Char (List Char × Char) where
  matchAt txt :=
    match txt.takeWhile Char.isDigit, txt.dropWhile Char.isDigit with
    | d :: ds, c :: rest => if isUnit c then some ((d :: ds, c), rest.dropWhile trail) else none
    | _, _ => none
  shorter {s t r} h := by
    split at h
    · rename_i d ds c rest htake hdrop
      split at h
      · cases h
        have hlen := congrArg List.length (List.takeWhile_append_dropWhile (p := Char.isDigit)
          (l := s))
        rw [htake, hdrop] at hlen
        have hrest := (List.dropWhile_suffix trail (l := rest)).length_le
        simp only [List.length_append, List.length_cons] at hlen
        omega
      · cases h
    · cases h

/-- `std::stol`, of digits. -/
def stol (ds : List Char) : Except Halt Nat :=
  if Nat.ofDigitChars 10 ds 0 < 2 ^ 63 then .ok (Nat.ofDigitChars 10 ds 0)
  else .error (.exception (.library "std::stol"))

/-- The nanoseconds in a second. -/
def ticks : Nat := 10 ^ 9

/-- `r += std::chrono::seconds(val)`, and likewise for the other units.  What is added is not
negative, so if there is an overflow on the way, then there is one in the sum. -/
def plus (r seconds : Nat) : Except Halt Nat :=
  if r + seconds * ticks < 2 ^ 63 then .ok (r + seconds * ticks) else .error .undefined

/-- The loop in `duration`, for one match. -/
def addMatch (r : Nat) (mt : List Char × Char) : Except Halt Nat := do
  let val ← stol mt.1
  if mt.2 = 's' then plus r val
  else if mt.2 = 'm' then plus r (val * 60)
  else if mt.2 = 'h' then plus r (val * 3600)
  else if mt.2 = 'd' then plus r (val * 24 * 3600)
  else .ok r

/-- `duration`. -/
def duration (trail : Char → Bool) (txt : List Char) : Except Halt Nat :=
  ((durpat trail).scan txt).foldlM addMatch 0

/-! ## Well-formed texts

What is meant by a text is given by its tokens.  The exact sum has no bound, while a `long` and the
count of nanoseconds have. -/

/-- A number and a unit, and the blanks after it. -/
structure Token where
  digits : List Char
  unit : Char
  blanks : List Char
  ne_nil : digits ≠ []
  isDigit : ∀ c ∈ digits, c.isDigit = true
  isUnit : unit ∈ ['s', 'm', 'h', 'd', 'S', 'M', 'H', 'D']
  isSpace : ∀ c ∈ blanks, isSpace c = true
  /-- The number fits in a `long`. -/
  fits : Nat.ofDigitChars 10 digits 0 < 2 ^ 63

namespace Token

def number (t : Token) : Nat := Nat.ofDigitChars 10 t.digits 0

/-- The seconds in the unit. -/
def unitSeconds (t : Token) : Nat :=
  match t.unit.toLower with
  | 's' => 1
  | 'm' => 60
  | 'h' => 3600
  | 'd' => 86400
  | _ => 0

/-- What a token stands for. -/
def value (t : Token) : Nat := t.number * t.unitSeconds * ticks

/-- The token as it is written. -/
def text (t : Token) : List Char := t.digits ++ t.unit :: t.blanks

/-- What a token counts for: nothing if its unit is an upper-case letter. -/
def counted (t : Token) : Nat := if t.unit.isUpper then 0 else t.value

theorem counted_le (t : Token) : t.counted ≤ t.value := by
  rw [counted]
  split <;> omega

theorem unitSeconds_pos (t : Token) : 0 < t.unitSeconds := by
  have hunit := t.isUnit
  simp only [List.mem_cons, List.not_mem_nil, or_false] at hunit
  rw [unitSeconds]
  rcases hunit with h | h | h | h | h | h | h | h <;> (rw [h]; decide)

theorem counted_eq_iff (t : Token) : t.counted = t.value ↔
    (t.unit.isUpper = true → t.number = 0) := by
  have hpos : 0 < t.unitSeconds * ticks := Nat.mul_pos t.unitSeconds_pos (by decide)
  rw [counted]
  split
  · rename_i hupper
    rw [value, Nat.mul_assoc, eq_comm, Nat.mul_eq_zero]
    simp [hupper, hpos.ne']
  · simp_all

end Token

/-- The tokens one after the other. -/
def text (ts : List Token) : List Char := ts.flatMap Token.text

/-- The exact sum. -/
def total (ts : List Token) : Nat := (ts.map Token.value).sum

/-! ## The matches

The search goes on where the last match ended, so tokens follow one another with only blanks in
between that the pattern may have left.  No match begins in these. -/

section pattern

variable {trail : Char → Bool}

/-- A match begins with a digit. -/
theorem matchAt_of_isDigit_eq_false {c : Char} (hc : c.isDigit = false) (txt : List Char) :
    (durpat trail).matchAt (c :: txt) = none := by
  simp [durpat, hc]

theorem isDigit_of_isSpace {c : Char} (hc : isSpace c = true) : c.isDigit = false := by
  rw [Bool.eq_false_iff]
  intro hdigit
  rw [isSpace_of_isDigit hdigit] at hc
  cases hc

theorem Token.isDigit_unit (t : Token) : t.unit.isDigit = false := by
  have hunit := t.isUnit
  simp only [List.mem_cons, List.not_mem_nil, or_false] at hunit
  rcases hunit with h | h | h | h | h | h | h | h <;> (rw [h]; rfl)

theorem Token.isUnit_unit (t : Token) : Durations.isUnit t.unit = true := by
  have hunit := t.isUnit
  simp only [List.mem_cons, List.not_mem_nil, or_false] at hunit
  rcases hunit with h | h | h | h | h | h | h | h <;> (rw [h]; rfl)

/-- A token is matched whole, with what can be had of what follows. -/
theorem matchAt_token (t : Token) (rest : List Char) :
    (durpat trail).matchAt (t.digits ++ t.unit :: rest) =
      some ((t.digits, t.unit), rest.dropWhile trail) := by
  have htake : (t.digits ++ t.unit :: rest).takeWhile Char.isDigit = t.digits := by
    rw [List.takeWhile_append_of_pos t.isDigit,
      List.takeWhile_cons_of_neg (by simp [t.isDigit_unit]), List.append_nil]
  have hdrop : (t.digits ++ t.unit :: rest).dropWhile Char.isDigit = t.unit :: rest := by
    rw [List.dropWhile_append_of_pos t.isDigit,
      List.dropWhile_cons_of_neg (by simp [t.isDigit_unit])]
  obtain ⟨d, ds, hds⟩ := List.exists_cons_of_ne_nil t.ne_nil
  simp only [durpat, htake, hdrop]
  rw [hds]
  simp only [t.isUnit_unit, if_true]

/-- Of the blanks, some are left. -/
theorem dropWhile_blanks (trail : Char → Bool) (blanks rest : List Char)
    (h : ∀ c ∈ rest.head?, trail c = false) :
    ∃ left, (∀ c ∈ left, c ∈ blanks) ∧ (blanks ++ rest).dropWhile trail = left ++ rest := by
  induction blanks with
  | nil =>
    refine ⟨[], by simp, ?_⟩
    cases rest with
    | nil => rfl
    | cons c rest =>
      rw [List.nil_append, List.dropWhile_cons_of_neg (by simp [h c rfl])]
  | cons b blanks ih =>
    by_cases hb : trail b = true
    · obtain ⟨left, hleft, hdrop⟩ := ih
      refine ⟨left, fun c hc ↦ List.mem_cons_of_mem _ (hleft c hc), ?_⟩
      rw [List.cons_append, List.dropWhile_cons_of_pos hb, hdrop]
    · refine ⟨b :: blanks, fun _ ↦ id, ?_⟩
      rw [List.cons_append, List.dropWhile_cons_of_neg hb]

/-- A text begins with a digit. -/
theorem head?_text {ts : List Token} {c : Char} (h : c ∈ (text ts).head?) :
    c.isDigit = true := by
  cases ts with
  | nil => cases h
  | cons t ts =>
    obtain ⟨d, ds, hds⟩ := List.exists_cons_of_ne_nil t.ne_nil
    rw [text, List.flatMap_cons, Token.text, hds] at h
    obtain rfl : d = c := Option.some_inj.mp h
    exact t.isDigit d (by simp [hds])

/-- **The tokens are what is found.** -/
theorem scan_text (htrail : ∀ c, c.isDigit = true → trail c = false) (ts : List Token) :
    (durpat trail).scan (text ts) = ts.map fun t ↦ (t.digits, t.unit) := by
  induction ts with
  | nil => rfl
  | cons t ts ih =>
    have htext : text (t :: ts) = t.digits ++ t.unit :: (t.blanks ++ text ts) := by
      simp [text, Token.text]
    obtain ⟨left, hleft, hdrop⟩ := dropWhile_blanks trail t.blanks (text ts)
      fun c hc ↦ htrail c (head?_text hc)
    have hskip : ∀ c ∈ left, ∀ s, (durpat trail).matchAt (c :: s) = none := fun c hc s ↦
      matchAt_of_isDigit_eq_false (isDigit_of_isSpace (t.isSpace c (hleft c hc))) s
    rw [htext, Pattern.scan_of_match (matchAt_token t _), hdrop, Pattern.scan_append hskip, ih]
    rfl

end pattern

/-! ## The sum

As nothing is subtracted, there is no overflow on the way if there is none in the end. -/

/-- There is no overflow. -/
theorem plus_eq {r seconds : Nat} (h : r + seconds * ticks < 2 ^ 63) :
    plus r seconds = .ok (r + seconds * ticks) :=
  if_pos h

/-- What the loop adds for a token. -/
theorem addMatch_token (t : Token) {r : Nat} (h : r + t.value < 2 ^ 63) :
    addMatch r (t.digits, t.unit) = .ok (r + t.counted) := by
  have hstol : stol t.digits = .ok t.number := if_pos t.fits
  have hadd : ∀ k seconds, seconds = t.number * k → t.unitSeconds = k → t.unit.isUpper = false →
      plus r seconds = .ok (r + t.counted) := by
    intro k seconds hseconds hk hupper
    rw [Token.value, hk, ← hseconds] at h
    rw [Token.counted, if_neg (by simp [hupper]), Token.value, hk, ← hseconds, plus_eq h]
  have hskip : t.unit.isUpper = true → (.ok r : Except Halt Nat) = .ok (r + t.counted) := by
    intro hupper
    rw [Token.counted, if_pos hupper, Nat.add_zero]
  have hloop : addMatch r (t.digits, t.unit) =
      if t.unit = 's' then plus r t.number
      else if t.unit = 'm' then plus r (t.number * 60)
      else if t.unit = 'h' then plus r (t.number * 3600)
      else if t.unit = 'd' then plus r (t.number * 24 * 3600)
      else .ok r := by
    rw [addMatch, hstol]
    rfl
  have hunit := t.isUnit
  simp only [List.mem_cons, List.not_mem_nil, or_false] at hunit
  rw [Token.unitSeconds] at hadd
  rw [hloop]
  rcases hunit with hu | hu | hu | hu | hu | hu | hu | hu <;> rw [hu] at hadd hskip ⊢
  · rw [if_pos rfl]
    exact hadd 1 _ (Nat.mul_one _).symm rfl rfl
  · simpa using hadd 60 _ rfl rfl rfl
  · simpa using hadd 3600 _ rfl rfl rfl
  · simpa using hadd 86400 _ (Nat.mul_assoc _ 24 3600) rfl rfl
  · simpa using hskip rfl
  · simpa using hskip rfl
  · simpa using hskip rfl
  · simpa using hskip rfl

theorem foldlM_addMatch (ts : List Token) {r : Nat} (h : r + total ts < 2 ^ 63) :
    (ts.map fun t ↦ (t.digits, t.unit)).foldlM addMatch r =
      .ok (r + (ts.map Token.counted).sum) := by
  induction ts generalizing r with
  | nil => rfl
  | cons t ts ih =>
    rw [total, List.map_cons, List.sum_cons] at h
    have hle := t.counted_le
    rw [List.map_cons, List.foldlM_cons, addMatch_token t (by omega)]
    dsimp only [bind, Except.bind]
    rw [ih (by rw [total]; omega), List.map_cons, List.sum_cons, Nat.add_assoc]

/-- **What comes of a well-formed text**: the sum, over the tokens with a lower-case unit. -/
theorem duration_text {trail : Char → Bool} (htrail : ∀ c, c.isDigit = true → trail c = false)
    {ts : List Token} (h : total ts < 2 ^ 63) :
    duration trail (text ts) = .ok (ts.map Token.counted).sum := by
  rw [duration, scan_text htrail, foldlM_addMatch ts (by omega), Nat.zero_add]

theorem sum_counted_le (ts : List Token) : (ts.map Token.counted).sum ≤ total ts := by
  induction ts with
  | nil => rfl
  | cons t ts ih =>
    rw [total] at ih ⊢
    simpa using Nat.add_le_add t.counted_le ih

/-- Nothing is left out of a sum that is the total. -/
theorem sum_counted_eq_iff (ts : List Token) :
    (ts.map Token.counted).sum = total ts ↔ ∀ t ∈ ts, t.counted = t.value := by
  induction ts with
  | nil => simp [total]
  | cons t ts ih =>
    have ht := t.counted_le
    have hts := sum_counted_le ts
    rw [List.forall_mem_cons, ← ih]
    rw [total] at hts ⊢
    rw [total, List.map_cons, List.map_cons, List.sum_cons, List.sum_cons]
    omega

/-- **When the duration is the exact sum**: every token with an upper-case unit has the number
zero. -/
theorem duration_eq_iff {trail : Char → Bool} (htrail : ∀ c, c.isDigit = true → trail c = false)
    {ts : List Token} (h : total ts < 2 ^ 63) :
    duration trail (text ts) = .ok (total ts) ↔
      ∀ t ∈ ts, t.unit.isUpper = true → t.number = 0 := by
  rw [duration_text htrail h, Except.ok.injEq, sum_counted_eq_iff]
  exact forall₂_congr fun t _ ↦ t.counted_eq_iff

/-- `1h 30m0D` is an hour and a half. -/
theorem duration_eq_iff_three : ∃ ts, text ts = ['1', 'h', ' ', '3', '0', 'm', '0', 'D'] ∧
    duration isSpace (text ts) = .ok (total ts) := by
  refine ⟨[⟨['1'], 'h', [' '], by decide, List.all_eq_true.mp rfl, by decide,
      List.all_eq_true.mp rfl, by decide⟩,
    ⟨['3', '0'], 'm', [], by decide, List.all_eq_true.mp rfl, by decide, nofun, by decide⟩,
    ⟨['0'], 'D', [], by decide, List.all_eq_true.mp rfl, by decide, nofun, by decide⟩], rfl,
    (duration_eq_iff (fun _ ↦ isSpace_of_isDigit) (by decide)).mpr ?_⟩
  simp only [List.forall_mem_cons]
  decide

/-- `1H` is nothing. -/
theorem upper_case_is_dropped : ¬ ∀ (trail : Char → Bool),
    (∀ c, c.isDigit = true → trail c = false) → ∀ ts : List Token, total ts < 2 ^ 63 →
      duration trail (text ts) = .ok (total ts) := by
  intro hall
  have heq := hall isSpace (fun _ ↦ isSpace_of_isDigit)
    [⟨['1'], 'H', [], by decide, List.all_eq_true.mp rfl, by decide, nofun, by decide⟩] (by decide)
  revert heq
  decide

end Durations
end UdpTun
