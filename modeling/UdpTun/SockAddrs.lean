import Mathlib.Algebra.Order.Ring.Nat
import Mathlib.Data.List.Lex
import Mathlib.Data.Prod.Lex
import Mathlib.Order.Basic
import Mathlib.Tactic.Common

/-!
# Socket addresses

`SocketAddress` of `sockaddrs.hh` owns a copy of the bytes of a `struct sockaddr`.  A length of
zero goes with a null pointer, so the bytes alone determine the object.

The class is the key type of `ClientTable::rev`, so what matters is that its `operator <` is a
strict total order whose equivalence is equality of the bytes: `SocketAddress.lt_iff_less` says
that the linear order the maps below are kept in is the order the operator computes.
-/

set_option autoImplicit false

namespace UdpTun

/-- The address bytes; `len_` is their number, and `base_` is null when there are none. -/
structure SocketAddress where
  /-- The bytes at `base_`. -/
  bytes : List UInt8
  deriving DecidableEq

/-- `memcmp(lhs, rhs, n) < 0`, for two arrays of the same length. -/
def memcmpLess : List UInt8 → List UInt8 → Bool
  | a :: as, b :: bs => decide (a < b) || (decide (a = b) && memcmpLess as bs)
  | _, _ => false

theorem memcmpLess_iff {as bs : List UInt8} (h : as.length = bs.length) :
    memcmpLess as bs = true ↔ as.map UInt8.toNat < bs.map UInt8.toNat := by
  induction as generalizing bs with
  | nil =>
    obtain rfl : bs = [] := by simpa using h.symm
    simp [memcmpLess]
  | cons a as ih =>
    cases bs with
    | nil => simp at h
    | cons b bs =>
      rw [memcmpLess, List.map_cons, List.map_cons, List.cons_lt_cons_iff, Bool.or_eq_true,
        Bool.and_eq_true, decide_eq_true_iff, decide_eq_true_iff, ih (by simpa using h),
        UInt8.lt_iff_toNat_lt, UInt8.toNat_inj]

namespace SocketAddress

/-- `len_`. -/
def len (a : SocketAddress) : Nat := a.bytes.length

/-- The bytes of a `struct sockaddr_in`: the family, the port, the host in the network `10.0.0.0/8`
and padding. -/
def inet (host port : Nat) : SocketAddress :=
  ⟨[2, 0, .ofNat (port / 256), .ofNat port, 10, .ofNat (host / 65536), .ofNat (host / 256),
    .ofNat host, 0, 0, 0, 0, 0, 0, 0, 0]⟩

theorem inet_injective {port h₁ h₂ : Nat} (hlt₁ : h₁ < 2 ^ 24) (hlt₂ : h₂ < 2 ^ 24)
    (h : inet h₁ port = inet h₂ port) : h₁ = h₂ := by
  simp only [inet, mk.injEq, List.cons.injEq, true_and, and_true] at h
  obtain ⟨hhi, hmid, hlo⟩ := h
  have e₁ := congrArg UInt8.toNat hhi
  have e₂ := congrArg UInt8.toNat hmid
  have e₃ := congrArg UInt8.toNat hlo
  simp only [UInt8.toNat_ofNat'] at e₁ e₂ e₃
  omega

/-- `operator <`. -/
def less (lhs rhs : SocketAddress) : Bool :=
  if lhs.len < rhs.len then true
  else if lhs.len > rhs.len then false
  else if rhs.bytes = [] then false
  else if lhs.bytes = [] then true
  else memcmpLess lhs.bytes rhs.bytes

/-- What the operator compares: first the length, then the bytes. -/
private def orderKey (a : SocketAddress) : ℕ ×ₗ List ℕ :=
  toLex (a.len, a.bytes.map UInt8.toNat)

private theorem orderKey_injective : Function.Injective orderKey := by
  rintro ⟨as⟩ ⟨bs⟩ h
  have hmap : as.map UInt8.toNat = bs.map UInt8.toNat := (Prod.ext_iff.mp (toLex.injective h)).2
  have hinj : Function.Injective UInt8.toNat := fun _ _ ↦ UInt8.toNat_inj.mp
  exact congrArg SocketAddress.mk (List.map_injective_iff.mpr hinj hmap)

instance : LinearOrder SocketAddress := LinearOrder.lift' orderKey orderKey_injective

/-- The order of the maps is the order of `operator <`. -/
theorem lt_iff_less {a b : SocketAddress} : a < b ↔ a.less b = true := by
  show orderKey a < orderKey b ↔ _
  rw [Prod.Lex.lt_iff, less]
  show a.len < b.len ∨ a.len = b.len ∧ a.bytes.map UInt8.toNat < b.bytes.map UInt8.toNat ↔ _
  rcases lt_trichotomy a.len b.len with h | h | h
  · simp [h]
  · simp only [h, lt_irrefl, if_false, false_or, true_and]
    by_cases hb : b.bytes = []
    · have ha : a.bytes = [] := by simpa [len, hb] using h
      simp [ha, hb]
    · have ha : a.bytes ≠ [] := by
        intro ha
        simp only [len, ha, List.length_nil] at h
        exact hb (List.length_eq_zero_iff.mp h.symm)
      rw [if_neg hb, if_neg ha]
      exact (memcmpLess_iff h).symm
  · simp [h, h.ne', not_lt.mpr h.le]

end SocketAddress

end UdpTun
