import Mathlib.Algebra.Order.Ring.Nat
import Mathlib.Data.List.Basic
import Mathlib.Tactic.Common

/-!
# Prefix codes

A `PrefixCode` writes values one after another with nothing in between, and reads them back off the
front of what was written.  Its three laws are that reading undoes writing whatever follows, that
what is read was written, and that no value is written as nothing.

* `encodeAll_append_inj` — a stream of values is read in one way.
* `decode_of_lt` — nothing is read off part of a value.
* `exists_take` — a stream that is cut short is the values before the cut and part of one more.
* `prefix_of_part` — what is read of such a stream, so far as it has come in.
* `parse` reads until it cannot; `parse_spec` says that it stops, and where, on any input
  whatsoever, and `parse_encodeAll` what it gives on a stream that breaks off.
-/

set_option autoImplicit false

/-- A way of writing values of `α` as strings over `β`, and reading them back. -/
structure PrefixCode (α β : Type) where
  encode : α → List β
  /-- Read one value, and give what comes after it. -/
  decode : List β → Option (α × List β)
  /-- The values that can be written. -/
  Valid : α → Prop
  encode_ne_nil : ∀ {a}, Valid a → encode a ≠ []
  decode_encode : ∀ {a}, Valid a → ∀ s, decode (encode a ++ s) = some (a, s)
  decode_some : ∀ {a s t}, decode s = some (a, t) → Valid a ∧ s = encode a ++ t

namespace PrefixCode

variable {α β : Type} (c : PrefixCode α β)

/-- One value after another. -/
def encodeAll (as : List α) : List β := as.flatMap c.encode

@[simp] theorem encodeAll_nil : c.encodeAll [] = [] := rfl

@[simp] theorem encodeAll_cons (a : α) (as : List α) :
    c.encodeAll (a :: as) = c.encode a ++ c.encodeAll as := rfl

@[simp] theorem encodeAll_append (as bs : List α) :
    c.encodeAll (as ++ bs) = c.encodeAll as ++ c.encodeAll bs := by
  rw [encodeAll, List.flatMap_append]
  rfl

theorem decode_nil : c.decode [] = none := by
  cases h : c.decode [] with
  | none => rfl
  | some r =>
    obtain ⟨hvalid, hnil⟩ := c.decode_some h
    exact absurd (List.append_eq_nil_iff.mp hnil.symm).1 (c.encode_ne_nil hvalid)

/-- The first value of a stream is determined by the stream. -/
theorem encode_append_inj {a b : α} (ha : c.Valid a) (hb : c.Valid b) {s t : List β}
    (h : c.encode a ++ s = c.encode b ++ t) : a = b ∧ s = t := by
  have hdecode := c.decode_encode ha s
  rw [h, c.decode_encode hb t, Option.some_inj, Prod.mk.injEq] at hdecode
  exact ⟨hdecode.1.symm, hdecode.2.symm⟩

/-- **Nothing is read off part of a value.** -/
theorem decode_of_lt {a : α} (ha : c.Valid a) {s t : List β} (h : s ++ t = c.encode a)
    (ht : t ≠ []) : c.decode s = none := by
  cases hd : c.decode s with
  | none => rfl
  | some r =>
    obtain ⟨b, rest⟩ := r
    obtain ⟨hb, rfl⟩ := c.decode_some hd
    have heq : c.encode b ++ (rest ++ t) = c.encode a ++ [] := by
      rw [List.append_nil, ← h, List.append_assoc]
    obtain ⟨-, hnil⟩ := c.encode_append_inj hb ha heq
    exact absurd (List.append_eq_nil_iff.mp hnil).2 ht

/-- **A stream is read in one way.**  Values at the front of a stream of values are its first
ones. -/
theorem encodeAll_append_inj {as bs : List α} (has : ∀ a ∈ as, c.Valid a)
    (hbs : ∀ b ∈ bs, c.Valid b) {s : List β} (h : c.encodeAll as ++ s = c.encodeAll bs) :
    ∃ rest, bs = as ++ rest ∧ s = c.encodeAll rest := by
  induction as generalizing bs with
  | nil => exact ⟨bs, rfl, h⟩
  | cons a as ih =>
    cases bs with
    | nil =>
      rw [encodeAll_cons, List.append_assoc] at h
      exact absurd (List.append_eq_nil_iff.mp h).1 (c.encode_ne_nil (has a (by simp)))
    | cons b bs =>
      rw [encodeAll_cons, encodeAll_cons, List.append_assoc] at h
      obtain ⟨rfl, htail⟩ := c.encode_append_inj (has a (by simp)) (hbs b (by simp)) h
      obtain ⟨rest, rfl, hrest⟩ := ih (fun a ha ↦ has a (by simp [ha]))
        (fun b hb ↦ hbs b (by simp [hb])) htail
      exact ⟨rest, rfl, hrest⟩

/-- When all of a stream has been written but nothing more can be read, all of it has been read. -/
theorem eq_nil_of_decode_encodeAll {as : List α} (has : ∀ a ∈ as, c.Valid a)
    (h : c.decode (c.encodeAll as) = none) : as = [] := by
  cases as with
  | nil => rfl
  | cons a as =>
    rw [encodeAll_cons, c.decode_encode (has a (by simp))] at h
    cases h

/-- Nothing, or a part of the encoding of a value. -/
def Part (part : List β) : Prop :=
  part = [] ∨ ∃ b t, c.Valid b ∧ part ++ t = c.encode b ∧ t ≠ []

/-- **What is read of a stream that ends in a part of a value** is a beginning of the values before
that; and it is all of them, if all of the stream has come in. -/
theorem prefix_of_part {as bs : List α} (has : ∀ a ∈ as, c.Valid a) (hbs : ∀ b ∈ bs, c.Valid b)
    {s u part : List β} (hpart : c.Part part) (hs : c.decode s = none)
    (h : c.encodeAll as ++ s ++ u = c.encodeAll bs ++ part) :
    as <+: bs ∧ (u = [] → as = bs ∧ s = part) := by
  rw [List.append_assoc] at h
  rcases hpart with rfl | ⟨b, t, hb, ht, hne⟩
  · rw [List.append_nil] at h
    obtain ⟨rest, rfl, hrest⟩ := c.encodeAll_append_inj has hbs h
    refine ⟨List.prefix_append .., fun hnil ↦ ?_⟩
    rw [hnil, List.append_nil] at hrest
    obtain rfl := c.eq_nil_of_decode_encodeAll (fun a ha ↦ hbs a (by simp [ha])) (hrest ▸ hs)
    exact ⟨(List.append_nil as).symm, hrest⟩
  · have hall : c.encodeAll as ++ (s ++ u ++ t) = c.encodeAll (bs ++ [b]) := by
      rw [← List.append_assoc, h, encodeAll_append, encodeAll_cons, encodeAll_nil, List.append_nil,
        List.append_assoc, ht]
    have hbs' : ∀ a ∈ bs ++ [b], c.Valid a := by
      intro a ha
      rcases List.mem_append.mp ha with ha | ha
      · exact hbs a ha
      · rw [List.mem_singleton.mp ha]
        exact hb
    obtain ⟨rest, hrest, hrest'⟩ := c.encodeAll_append_inj has hbs' hall
    -- the last value has not been read, as something of it is missing
    obtain ⟨rest', rfl⟩ : ∃ rest', rest = rest' ++ [b] := by
      rcases List.eq_nil_or_concat rest with rfl | ⟨rest', b', rfl⟩
      · rw [encodeAll_nil, List.append_eq_nil_iff] at hrest'
        exact absurd hrest'.2 hne
      · rw [List.concat_eq_append, ← List.append_assoc] at hrest
        obtain rfl : b = b' := List.singleton_inj.mp (List.append_inj_right' hrest rfl)
        exact ⟨rest', List.concat_eq_append⟩
    rw [← List.append_assoc] at hrest
    obtain rfl : bs = as ++ rest' := List.append_cancel_right hrest
    refine ⟨List.prefix_append .., fun hnil ↦ ?_⟩
    rw [hnil, List.append_nil, encodeAll_append, encodeAll_cons, encodeAll_nil, List.append_nil,
      ← ht, ← List.append_assoc] at hrest'
    have hs' : s = c.encodeAll rest' ++ part := List.append_cancel_right hrest'
    obtain rfl : rest' = [] := by
      cases rest' with
      | nil => rfl
      | cons a rest' =>
        rw [hs', encodeAll_cons, List.append_assoc,
          c.decode_encode (hbs a (by simp))] at hs
        cases hs
    exact ⟨(List.append_nil as).symm, hs'⟩

/-- **A stream that is cut short** after `n` symbols is the values that end by there, of which there
are `k`, and something off the front of which no value can be read. -/
theorem exists_take {as : List α} (has : ∀ a ∈ as, c.Valid a) (n : Nat) :
    ∃ k t, (c.encodeAll as).take n = c.encodeAll (as.take k) ++ t ∧ c.decode t = none ∧
      k ≤ as.length ∧ ∀ i < as.length, i < k ↔ (c.encodeAll (as.take (i + 1))).length ≤ n := by
  induction as generalizing n with
  | nil => exact ⟨0, [], by simp, c.decode_nil, by simp, by simp⟩
  | cons a as ih =>
    have hlen : ∀ i, (c.encodeAll ((a :: as).take (i + 1))).length =
        (c.encode a).length + (c.encodeAll (as.take i)).length := by
      intro i
      rw [List.take_succ_cons, encodeAll_cons, List.length_append]
    by_cases hn : (c.encode a).length ≤ n
    · -- the first value is whole, and the cut is in the rest
      obtain ⟨k, t, htake, ht, hk, hiff⟩ := ih (fun b hb ↦ has b (by simp [hb]))
        (n - (c.encode a).length)
      refine ⟨k + 1, t, ?_, ht, by simpa using hk, ?_⟩
      · rw [encodeAll_cons, List.take_append, List.take_of_length_le hn, htake,
          List.take_succ_cons, encodeAll_cons, List.append_assoc]
      · intro i hi
        rw [hlen]
        cases i with
        | zero => simpa using hn
        | succ i =>
          have hi' := hiff i (by simpa using hi)
          omega
    · refine ⟨0, (c.encode a).take n, ?_, ?_, by simp, ?_⟩
      · rw [encodeAll_cons, List.take_append_of_le_length (by omega)]
        simp
      · refine c.decode_of_lt (has a (by simp)) (List.take_append_drop n (c.encode a)) ?_
        rw [ne_eq, List.drop_eq_nil_iff]
        omega
      · intro i _
        rw [hlen]
        omega

/-! ## Reading all there is

A program that reads until it fails has a loop without a bound in sight.  There is one: each turn
takes something off the input. -/

/-- Read values until there are no more, or the fuel runs out. -/
def parse : Nat → List β → Option (List α × List β)
  | 0, _ => none
  | fuel + 1, s =>
    match c.decode s with
    | none => some ([], s)
    | some (a, t) => (parse fuel t).map fun r ↦ (a :: r.1, r.2)

/-- **Reading stops**, on any input: with one turn more than there are symbols.  What was read and
what is left make up the input, and no value is left at the front. -/
theorem parse_spec {fuel : Nat} {s : List β} (hfuel : s.length < fuel) :
    ∃ as t, c.parse fuel s = some (as, t) ∧ (∀ a ∈ as, c.Valid a) ∧ s = c.encodeAll as ++ t ∧
      c.decode t = none := by
  induction fuel generalizing s with
  | zero => omega
  | succ fuel ih =>
    rw [parse]
    cases hd : c.decode s with
    | none => exact ⟨[], s, rfl, by simp, rfl, hd⟩
    | some r =>
      obtain ⟨a, t⟩ := r
      obtain ⟨ha, rfl⟩ := c.decode_some hd
      have hpos := List.length_pos_iff.mpr (c.encode_ne_nil ha)
      rw [List.length_append] at hfuel
      obtain ⟨as, u, hparse, has, rfl, hnone⟩ := ih (s := t) (by omega)
      refine ⟨a :: as, u, by simp [hparse], by simpa using ⟨ha, has⟩, ?_, hnone⟩
      rw [encodeAll_cons, List.append_assoc]

/-- What is read off the beginning of a stream of values is its first ones. -/
theorem prefix_of_parse {fuel : Nat} {s t : List β} {bs as : List α} {u : List β}
    (hfuel : s.length < fuel) (hparse : c.parse fuel s = some (as, u))
    (hbs : ∀ b ∈ bs, c.Valid b) (h : s ++ t = c.encodeAll bs) : as <+: bs := by
  obtain ⟨as', u', hparse', has, rfl, -⟩ := c.parse_spec hfuel
  rw [hparse, Option.some_inj, Prod.mk.injEq] at hparse'
  obtain ⟨rfl, rfl⟩ := hparse'
  rw [List.append_assoc] at h
  obtain ⟨rest, hrest, -⟩ := c.encodeAll_append_inj has hbs h
  exact ⟨rest, hrest.symm⟩

/-- Reading a stream of values that breaks off within one. -/
theorem parse_encodeAll {fuel : Nat} {as : List α} (has : ∀ a ∈ as, c.Valid a) {t : List β}
    (hfuel : (c.encodeAll as ++ t).length < fuel) (ht : c.decode t = none) :
    c.parse fuel (c.encodeAll as ++ t) = some (as, t) := by
  induction as generalizing fuel with
  | nil =>
    cases fuel with
    | zero => omega
    | succ fuel => simp [parse, ht]
  | cons a as ih =>
    cases fuel with
    | zero => omega
    | succ fuel =>
      have ha := has a (by simp)
      have hpos := List.length_pos_iff.mpr (c.encode_ne_nil ha)
      rw [encodeAll_cons, List.append_assoc, List.length_append] at hfuel
      rw [encodeAll_cons, List.append_assoc, parse, c.decode_encode ha]
      have hfuel' : (c.encodeAll as ++ t).length < fuel := by
        rw [List.length_append]
        rw [List.length_append] at hfuel
        omega
      simp [ih (fun a ha ↦ has a (by simp [ha])) hfuel']

end PrefixCode
