import UdpTun.Marshaling

/-!
# Payloads

`Payload` of `payloads.cc` is a string of bytes.  In a spill file it is preceded by its length, in
two bytes, most significant first.

`loadAll` is what comes of calling `Payload::load` until it fails.  It never fails to stop, and on
what `Payload::save` wrote it gives back the payloads: the spill-file format is a prefix code,
`Payload.code`.
-/

set_option autoImplicit false

namespace UdpTun

/-- `Payload`, of some contents. -/
abbrev Payload := List UInt8

namespace Payload

/-- `save`, on a payload in one piece. -/
def save (pl : Payload) : List UInt8 := byteAt pl.length 8 :: byteAt pl.length 0 :: pl

/-- `load`: the payload, and what is left of the stream; or `none` where the source returns
false. -/
def load : List UInt8 → Option (Payload × List UInt8)
  | hi :: lo :: rest =>
    let len := readPair hi lo
    if rest.length < len then none else some (rest.take len, rest.drop len)
  | _ => none

/-- `while (load1(fin, sum)) ;`: the payloads read, and `sum` at the end. -/
def loadLoop : Nat → List UInt8 → Nat → Option (List Payload × Nat)
  | 0, _, _ => none
  | fuel + 1, s, sum =>
    match load s with
    | none => some ([], sum)
    | some (pl, rest) =>
      (loadLoop fuel rest (sum + (2 + pl.length))).map fun r ↦ (pl :: r.1, r.2)

/-- The same, with turns enough: see `loadLoop_spec`. -/
def loadAll (s : List UInt8) : List Payload × Nat := (loadLoop (s.length + 1) s 0).getD ([], 0)

@[simp] theorem length_save (pl : Payload) : (save pl).length = 2 + pl.length := by
  simp [save]
  omega

/-- The spill-file format, which holds payloads of up to 65535 bytes. -/
def code : PrefixCode Payload UInt8 where
  encode := save
  decode := load
  Valid pl := pl.length < 65536
  encode_ne_nil _ := by simp [save]
  decode_encode {pl} h s := by
    rw [save, List.cons_append, List.cons_append, load]
    simp only [readPair_byteAt, Nat.mod_eq_of_lt h]
    rw [if_neg (by rw [List.length_append]; omega), List.take_left, List.drop_left]
  decode_some {pl s t} h := by
    unfold load at h
    split at h
    · rename_i hi lo rest
      dsimp only at h
      split at h
      · cases h
      · cases h
        have hlen : (rest.take (readPair hi lo)).length = readPair hi lo :=
          List.length_take_of_le (by omega)
        refine ⟨by rw [hlen]; exact readPair_lt hi lo, ?_⟩
        rw [save, hlen]
        simp only [byteAt_readPair, List.cons_append, List.take_append_drop]
    · cases h

/-- `sum` counts the bytes of what is read. -/
theorem loadLoop_eq_parse (fuel : Nat) (s : List UInt8) (sum : Nat) :
    loadLoop fuel s sum =
      (code.parse fuel s).map fun r ↦ (r.1, sum + (code.encodeAll r.1).length) := by
  induction fuel generalizing s sum with
  | zero => rfl
  | succ fuel ih =>
    rw [loadLoop, PrefixCode.parse, show code.decode s = load s from rfl]
    cases load s with
    | none => rfl
    | some r =>
      obtain ⟨pl, rest⟩ := r
      dsimp only
      rw [ih, Option.map_map, Option.map_map]
      congr 1
      funext r
      have hlen : (code.encode pl).length = 2 + pl.length := length_save pl
      simp only [Function.comp_apply, PrefixCode.encodeAll_cons, List.length_append, hlen]
      rw [Nat.add_assoc]

/-- **Loading stops**, whatever the file holds. -/
theorem loadLoop_spec {fuel : Nat} {s : List UInt8} (hfuel : s.length < fuel) :
    ∃ pls rest, loadLoop fuel s 0 = some (pls, (code.encodeAll pls).length) ∧
      (∀ pl ∈ pls, pl.length < 65536) ∧ s = code.encodeAll pls ++ rest ∧ load rest = none := by
  obtain ⟨pls, rest, hparse, hvalid, hsplit, hnone⟩ := code.parse_spec hfuel
  exact ⟨pls, rest, by rw [loadLoop_eq_parse, hparse, Option.map_some, Nat.zero_add], hvalid,
    hsplit, hnone⟩

theorem loadAll_spec (s : List UInt8) : ∃ rest, (∀ pl ∈ (loadAll s).1, pl.length < 65536) ∧
    s = code.encodeAll (loadAll s).1 ++ rest ∧ load rest = none ∧
      (loadAll s).2 = (code.encodeAll (loadAll s).1).length := by
  obtain ⟨pls, rest, hloop, hvalid, hsplit, hnone⟩ :=
    loadLoop_spec (s := s) (Nat.lt_succ_self _)
  have hall : loadAll s = (pls, (code.encodeAll pls).length) := by rw [loadAll, hloop]; rfl
  rw [hall]
  exact ⟨rest, hvalid, hsplit, hnone, rfl⟩

/-- **Loading undoes saving.** -/
theorem loadAll_encodeAll {pls : List Payload} (h : ∀ pl ∈ pls, pl.length < 65536) :
    loadAll (code.encodeAll pls) = (pls, (code.encodeAll pls).length) := by
  have hparse : code.parse ((code.encodeAll pls).length + 1) (code.encodeAll pls ++ []) =
      some (pls, []) := code.parse_encodeAll h (by simp) code.decode_nil
  rw [List.append_nil] at hparse
  rw [loadAll, loadLoop_eq_parse, hparse, Option.map_some, Nat.zero_add]
  rfl

/-- Loading the beginning of what was saved gives the first payloads. -/
theorem loadAll_prefix {s t : List UInt8} {pls : List Payload} (h : ∀ pl ∈ pls, pl.length < 65536)
    (hs : s ++ t = code.encodeAll pls) : (loadAll s).1 <+: pls := by
  obtain ⟨as, u, hparse, -⟩ := code.parse_spec (s := s) (Nat.lt_succ_self _)
  have hall : (loadAll s).1 = as := by
    rw [loadAll, loadLoop_eq_parse, hparse]
    rfl
  rw [hall]
  exact code.prefix_of_parse (Nat.lt_succ_self _) hparse h hs

/-! ## Spill files cut short

A program that is killed may leave a file that breaks off anywhere.  What can be read of it are the
payloads before the break. -/

/-- **Loading a spill file that breaks off**, at any byte, gives the payloads that were written
whole, and `sum` is what they take up: the first `k`, which are the ones that end by there.  And
whatever a file holds, loading it stops; it is the file as far as `sum` that was loaded. -/
theorem loadLoop_cut {pls : List Payload} (h : ∀ pl ∈ pls, pl.length ≤ 65535) (n : Nat)
    (s : List UInt8) :
    (∃ k ≤ pls.length,
      (∀ i < pls.length, i < k ↔ ((pls.take (i + 1)).flatMap save).length ≤ n) ∧
      ∀ fuel, ((pls.flatMap save).take n).length < fuel →
        loadLoop fuel ((pls.flatMap save).take n) 0 =
          some (pls.take k, ((pls.take k).flatMap save).length)) ∧
    ∀ fuel, s.length < fuel → ∃ loaded sum, loadLoop fuel s 0 = some (loaded, sum) ∧
      sum ≤ s.length ∧ loaded.flatMap save = s.take sum := by
  constructor
  · have hvalid : ∀ pl ∈ pls, code.Valid pl := fun pl hpl ↦ Nat.lt_succ_of_le (h pl hpl)
    obtain ⟨k, t, htake, ht, hk, hiff⟩ := code.exists_take hvalid n
    refine ⟨k, hk, hiff, fun fuel hfuel ↦ ?_⟩
    change ((code.encodeAll pls).take n).length < fuel at hfuel
    change loadLoop fuel ((code.encodeAll pls).take n) 0 = _
    rw [htake] at hfuel ⊢
    have hparse := code.parse_encodeAll (fun pl hpl ↦ hvalid pl (List.mem_of_mem_take hpl))
      hfuel ht
    rw [loadLoop_eq_parse, hparse, Option.map_some, Nat.zero_add]
    rfl
  · intro fuel hfuel
    obtain ⟨loaded, rest, hloop, -, hsplit, -⟩ := loadLoop_spec hfuel
    refine ⟨loaded, _, hloop, ?_, ?_⟩
    · rw [hsplit, List.length_append]
      omega
    · rw [hsplit, List.take_left]
      rfl

/-- Of three payloads, one of them empty, the file breaks off within the length of the last. -/
theorem loadLoop_cut_three :
    (∀ i < 3, i < 2 ↔ ((([[7], [], [8, 9]] : List Payload).take (i + 1)).flatMap save).length ≤ 6) ∧
      loadLoop 10 (([[7], [], [8, 9]] : List Payload).flatMap save |>.take 6) 0 =
        some ([[7], []], 5) := by
  have hlen : ∀ pl ∈ ([[7], [], [8, 9]] : List Payload), pl.length ≤ 65535 := by decide
  obtain ⟨⟨k, hk, hiff, hloop⟩, -⟩ := loadLoop_cut hlen 6 []
  have hloop := hloop 10 (by decide)
  have hk : k = 2 := by
    have h1 := (hiff 1 (by decide)).mpr (by decide)
    have h2 := mt (hiff 2 (by decide)).mp (by decide)
    omega
  subst hk
  exact ⟨hiff, hloop⟩

end Payload

/-- `Chunk::sum_lengths`. -/
def sumLengths (arr : List (List UInt8)) : Nat := (arr.map List.length).sum

theorem sumLengths_eq (arr : List (List UInt8)) : sumLengths arr = arr.flatten.length := by
  rw [sumLengths, List.length_flatten]

end UdpTun
