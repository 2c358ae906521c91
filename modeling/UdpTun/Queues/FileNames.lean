import UdpTun.Queues

/-!
# From keys to file names, and back

A spill file is named after its key, in hexadecimal digits, with the suffix `.queue`; the
constructor takes the key back from the name with `std::stoll`.  It gets the same key, as long as
that is below `2 ^ 63` (`stoll_toDigits`), and throws an exception otherwise
(`stoll_toDigits_of_le`).
-/

set_option autoImplicit false

namespace UdpTun

open TextStream (isSpace)

/-! ## Hexadecimal digits

`stoll` skips blanks and an `0x` in front, and there are neither in what was written.  It stops at
the first character that is not a digit, and there is none. -/

theorem hexDigit_digitChar : ∀ i < 16, hexDigit (Nat.digitChar i) = some i := by decide

theorem digitChar_plain : ∀ i < 16, isSpace (Nat.digitChar i) = false ∧
    Nat.digitChar i ≠ '-' ∧ Nat.digitChar i ≠ '+' ∧ Nat.digitChar i ≠ 'x' ∧
      Nat.digitChar i ≠ 'X' := by decide

/-- What `toDigits` writes are digits. -/
theorem eq_digitChar_of_mem {n : Nat} {c : Char} (h : c ∈ Nat.toDigits 16 n) :
    ∃ i < 16, c = Nat.digitChar i := by
  induction n using Nat.strong_induction_on with
  | _ n ih =>
    rw [Nat.toDigits_eq_if (by decide)] at h
    split at h
    · exact ⟨n, by omega, by simpa using h⟩
    · rcases List.mem_append.mp h with h | h
      · exact ih (n / 16) (by omega) h
      · exact ⟨n % 16, by omega, by simpa using h⟩

theorem hexDigits_append {cs : List Char} (hcs : ∀ c ∈ cs, ∃ i < 16, c = Nat.digitChar i)
    (v : Option Nat) (ds : List Char) : hexDigits v (cs ++ ds) = hexDigits (hexDigits v cs) ds := by
  induction cs generalizing v with
  | nil => rfl
  | cons c cs ih =>
    obtain ⟨i, hi, rfl⟩ := hcs _ List.mem_cons_self
    simp only [List.cons_append, hexDigits, hexDigit_digitChar i hi]
    exact ih (fun c hc ↦ hcs c (List.mem_cons_of_mem _ hc)) _

/-- **Digits are read back.** -/
theorem hexDigits_toDigits (n : Nat) : hexDigits none (Nat.toDigits 16 n) = some n := by
  induction n using Nat.strong_induction_on with
  | _ n ih =>
    rw [Nat.toDigits_eq_if (by decide)]
    split
    · simp [hexDigits, hexDigit_digitChar n (by omega)]
    · rw [hexDigits_append fun c ↦ eq_digitChar_of_mem, ih (n / 16) (by omega)]
      simp only [hexDigits, hexDigit_digitChar (n % 16) (by omega), Option.getD_some,
        Option.some_inj]
      omega

/-! ## The key of a name

The suffix is cut off first.  A key from `2 ^ 63` on has a name, but cannot be read back. -/

/-- Nothing is skipped at the front of the digits, which do not begin with `0x`. -/
theorem stoll_toDigits_eq (n : Nat) : stoll (Nat.toDigits 16 n) =
    if n < 2 ^ 63 then some (n : Int) else none := by
  have hread := hexDigits_toDigits n
  have hmem : ∀ c ∈ Nat.toDigits 16 n, ∃ i < 16, c = Nat.digitChar i := fun _ ↦
    eq_digitChar_of_mem
  cases hds : Nat.toDigits 16 n with
  | nil => exact absurd hds Nat.toDigits_ne_nil
  | cons d ds =>
    rw [hds] at hread hmem
    obtain ⟨i, hi, hd⟩ := hmem d List.mem_cons_self
    obtain ⟨hspace, hminus, hplus, -⟩ := hd ▸ digitChar_plain i hi
    rw [stoll]
    simp only [List.dropWhile_cons, hspace, Bool.false_eq_true, if_false, List.head?_cons,
      Option.some_inj, hminus, hplus, or_self]
    generalize hr : hexDigits none _ = r
    have hsame : r = some n := by
      rw [← hr]
      split
      · rename_i x e rest heq
        obtain ⟨j, hj, hx⟩ := hmem x (by simp [heq])
        obtain ⟨-, -, -, hlower, hupper⟩ := hx ▸ digitChar_plain j hj
        rw [if_neg (by simp [hlower, hupper]), ← heq, hread]
      · exact hread
    rw [hsame]

theorem stoll_toDigits {n : Nat} (h : n < 2 ^ 63) : stoll (Nat.toDigits 16 n) = some (n : Int) := by
  rw [stoll_toDigits_eq, if_pos h]

theorem stoll_toDigits_of_le {n : Nat} (h : 2 ^ 63 ≤ n) : stoll (Nat.toDigits 16 n) = none := by
  rw [stoll_toDigits_eq, if_neg (not_lt.mpr h)]

/-- **The name comes apart where it was put together.** -/
theorem splitExtension_makeQueueFile (key : Nat) :
    splitExtension (makeQueueFile key) = (Nat.toDigits 16 key, queueSuffix) := by
  cases hrev : (Nat.toDigits 16 key).reverse with
  | nil => exact absurd (List.reverse_eq_nil_iff.mp hrev) Nat.toDigits_ne_nil
  | cons c stem =>
    have hdrop : (makeQueueFile key).reverse.dropWhile (· ≠ '.') = '.' :: c :: stem := by
      simp [makeQueueFile, queueSuffix, hrev]
    have hdigits : Nat.toDigits 16 key = (c :: stem).reverse := by
      rw [← hrev, List.reverse_reverse]
    have hlen : stem.length + 1 = (c :: stem).reverse.length := by simp
    rw [splitExtension, hdrop]
    simp only
    rw [makeQueueFile, hdigits, hlen, List.drop_left]

/-- The key the constructor reads off a name: none if the name is not that of a spill file, or if
`stoll` throws. -/
def fileKey (fn : FileName) : Option Nat :=
  if (splitExtension fn).2 = queueSuffix then
    (stoll (splitExtension fn).1).map fun k ↦ (k % 2 ^ 64).toNat
  else none

theorem suffix_of_fileKey {fn : FileName} {key : Nat} (h : fileKey fn = some key) :
    (splitExtension fn).2 = queueSuffix := by
  by_contra hne
  rw [fileKey, if_neg hne] at h
  cases h

/-- A name is not read as another key than the one it was made of. -/
theorem eq_of_fileKey {key k : Nat} (h : fileKey (makeQueueFile key) = some k) : k = key := by
  rw [fileKey, splitExtension_makeQueueFile, if_pos rfl] at h
  by_cases hkey : key < 2 ^ 63
  · rw [stoll_toDigits hkey, Option.map_some, Option.some_inj] at h
    omega
  · rw [stoll_toDigits_of_le (not_lt.mp hkey)] at h
    cases h

theorem fileKey_makeQueueFile {key : Nat} (h : key < 2 ^ 63) :
    fileKey (makeQueueFile key) = some key := by
  have hkey : (((key : Int) % 2 ^ 64).toNat) = key := by omega
  rw [fileKey, splitExtension_makeQueueFile, if_pos rfl, stoll_toDigits h, Option.map_some, hkey]

end UdpTun
