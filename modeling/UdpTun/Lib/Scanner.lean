import Mathlib.Data.List.Basic
import Mathlib.Tactic.Common

/-!
# Finding the matches of a pattern in a text

A `Pattern` says what there is at the front of a text, if it matches there, and what comes after it.
`scan` finds the matches one after the other, as a regular-expression iterator does: the first from
the left, and then the first in what comes after it, until there are no more.

* `scan_of_match` — a match at the front is the first.
* `scan_append` — what no match begins in is passed over.
-/

set_option autoImplicit false

/-- What is matched, and the text after it.  A match is not empty. -/
structure Pattern (α τ : Type) where
  matchAt : List α → Option (τ × List α)
  shorter : ∀ {s t r}, matchAt s = some (t, r) → r.length < s.length

namespace Pattern

variable {α τ : Type} (p : Pattern α τ)

/-- The matches, with so many turns at most. -/
def scanWithin : Nat → List α → List τ
  | 0, _ => []
  | fuel + 1, s =>
    match p.matchAt s with
    | some (t, r) => t :: scanWithin fuel r
    | none => scanWithin fuel s.tail

/-- All the matches in a text: see `scanWithin_eq`. -/
def scan (s : List α) : List τ := p.scanWithin s.length s

theorem matchAt_nil : p.matchAt [] = none := by
  rw [Option.eq_none_iff_forall_not_mem]
  rintro ⟨t, r⟩ h
  exact absurd (p.shorter h) (Nat.not_lt_zero _)

theorem scanWithin_succ (fuel : Nat) (s : List α) : p.scanWithin (fuel + 1) s =
    match p.matchAt s with
    | some (t, r) => t :: p.scanWithin fuel r
    | none => p.scanWithin fuel s.tail := rfl

theorem scanWithin_nil (fuel : Nat) : p.scanWithin fuel [] = [] := by
  induction fuel with
  | zero => rfl
  | succ fuel ih =>
    rw [scanWithin_succ, p.matchAt_nil]
    exact ih

/-- Any two bounds on the turns that are large enough give the same. -/
theorem scanWithin_congr {m n : Nat} {s : List α} (hm : s.length ≤ m) (hn : s.length ≤ n) :
    p.scanWithin m s = p.scanWithin n s := by
  induction m generalizing n s with
  | zero =>
    obtain rfl := List.length_eq_zero_iff.mp (Nat.le_zero.mp hm)
    rw [p.scanWithin_nil, p.scanWithin_nil]
  | succ m ih =>
    cases n with
    | zero =>
      obtain rfl := List.length_eq_zero_iff.mp (Nat.le_zero.mp hn)
      rw [p.scanWithin_nil, p.scanWithin_nil]
    | succ n =>
      rw [scanWithin_succ, scanWithin_succ]
      cases hmatch : p.matchAt s with
      | none =>
        have htail := List.length_tail (l := s)
        exact ih (by omega) (by omega)
      | some tr =>
        have hlt := p.shorter hmatch
        exact congrArg (tr.1 :: ·) (ih (by omega) (by omega))

/-- There are turns enough. -/
theorem scanWithin_eq {fuel : Nat} {s : List α} (h : s.length ≤ fuel) :
    p.scanWithin fuel s = p.scan s :=
  p.scanWithin_congr h (Nat.le_refl _)

@[simp] theorem scan_nil : p.scan [] = [] := rfl

variable {p}

/-- **A match at the front** is the first one. -/
theorem scan_of_match {s r : List α} {t : τ} (h : p.matchAt s = some (t, r)) :
    p.scan s = t :: p.scan r := by
  have hlt := p.shorter h
  rw [← p.scanWithin_eq (Nat.le_add_right s.length 1), scanWithin_succ, h]
  dsimp only
  rw [p.scanWithin_eq (Nat.le_of_lt hlt)]

theorem scan_cons {a : α} {s : List α} (h : p.matchAt (a :: s) = none) :
    p.scan (a :: s) = p.scan s := by
  rw [scan, List.length_cons, scanWithin_succ, h]
  rfl

/-- **What no match begins in** is passed over. -/
theorem scan_append {l : List α} (h : ∀ a ∈ l, ∀ s, p.matchAt (a :: s) = none) (s : List α) :
    p.scan (l ++ s) = p.scan s := by
  induction l with
  | nil => rfl
  | cons a l ih =>
    rw [List.cons_append, scan_cons (h a (by simp) _), ih fun b hb ↦ h b (by simp [hb])]

end Pattern
