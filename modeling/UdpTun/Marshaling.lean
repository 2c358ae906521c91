import UdpTun.Halt
import UdpTun.Lib.PrefixCode
import Mathlib.Data.List.Basic
import Mathlib.Tactic.Common

/-!
# Frames

`marshaling.cc` and `messages.hh`: a message on the tunnel is a client id, a label and a payload
length, two big-endian bytes each, followed by the payload.

The sending side writes the header field by field into scratch buffers, and can start at any byte:
`labelToBytes`, `clidToBytes` and `lengthToBytes` are one function on three buffers, so there is
one definition, `fieldToBytes`, and one description of it, `fieldToBytes_eq`.  The receiving side is
`decodeMessage`.  `Message.encode` is the frame as a whole, and `decodeMessage_encode` and
`decodeMessage_eq_none` say that the decoder recovers it, and only when all of it is there: frames
are a prefix code, `Message.code`.
-/

set_option autoImplicit false

namespace UdpTun

/-- Two bytes of a client id are sent. -/
@[simp] def maxClidBytes : Nat := 2
/-- Two bytes of a label are sent. -/
@[simp] def maxLabelBytes : Nat := 2
/-- Two bytes of a length are sent. -/
@[simp] def maxLengthBytes : Nat := 2
/-- `MAX_LENGTH`, which sizes the receive buffer. -/
@[simp] def maxLength : Nat := 65536

/-- The bytes in front of a payload. -/
@[simp] def headerBytes : Nat := maxClidBytes + maxLabelBytes + maxLengthBytes

/-- A `std::vector<struct iovec>`, as the contents of the buffers it lists. -/
abbrev Iov := List (List UInt8)

/-- `push_onto`. -/
def pushOnto (vec : Iov) (base : List UInt8) (len : Nat) : Iov := vec ++ [base.take len]

/-! ## Writing a field

A frame may have been sent in part, and what is left of it may begin within a field.  So the scratch
buffer is filled from its end, and the vector gets the part that is left. -/

/-- `(v >> s) & 0xffu`, stored in an `unsigned char`. -/
def byteAt (v s : Nat) : UInt8 := UInt8.ofNat ((v >>> s) &&& 0xff)

/-- The bytes of a field of `max` bytes, most significant first. -/
def fieldBytes (max v : Nat) : List UInt8 :=
  (List.range max).map fun i ↦ byteAt v ((max - 1 - i) * 8)

@[simp] theorem length_fieldBytes (max v : Nat) : (fieldBytes max v).length = max := by
  simp [fieldBytes]

/-- Rewrite the last `m` bytes of a scratch buffer from a field. -/
def fillScratch {max : Nat} (buf : Vector UInt8 max) (v m : Nat) : Vector UInt8 max where
  toArray := (buf.toList.take (max - m) ++ (fieldBytes max v).drop (max - m)).toArray
  size_toArray := by
    simp only [List.size_toArray, List.length_append, List.length_take, List.length_drop,
      Vector.length_toList, length_fieldBytes]
    omega

/-- The common body of `label_to_bytes`, `clid_to_bytes` and `length_to_bytes`: add to `vec` the
part of the field at `pos` that comes after the first `done` bytes of the frame, writing it into
the scratch buffer `buf` first.  Returns the buffer, the vector and whether anything was added. -/
def fieldToBytes (max v : Nat) (buf : Vector UInt8 max) (done pos : Nat) (vec : Iov) :
    Except Halt (Vector UInt8 max × Iov × Bool) :=
  if done ≥ pos + max then .ok (buf, vec, false)
  else
    let m := if done > pos then pos + max - done else max
    if ¬ m ≥ 1 then .error (.assertion .fieldBytes)
    else
      let buf := fillScratch buf v m
      .ok (buf, pushOnto vec (buf.toList.drop (max - m)) m, true)

/-- `label_to_bytes`. -/
def labelToBytes (label : Nat) := fieldToBytes maxLabelBytes label

/-- `clid_to_bytes`. -/
def clidToBytes (clid : Nat) := fieldToBytes maxClidBytes clid

/-- `length_to_bytes`. -/
def lengthToBytes (len : Nat) := fieldToBytes maxLengthBytes len

/-- **What a field contributes**: the bytes of it that are not done yet. -/
theorem fieldToBytes_eq {max : Nat} (hmax : 1 ≤ max) (v : Nat) (buf : Vector UInt8 max)
    (done pos : Nat) (vec : Iov) :
    ∃ buf' vec' b, fieldToBytes max v buf done pos vec = .ok (buf', vec', b) ∧
      vec'.flatten = vec.flatten ++ (fieldBytes max v).drop (done - pos) := by
  rw [fieldToBytes]
  by_cases hd : done ≥ pos + max
  · refine ⟨buf, vec, false, by rw [if_pos hd], ?_⟩
    rw [List.drop_eq_nil_of_le (by rw [length_fieldBytes]; omega), List.append_nil]
  · rw [if_neg hd]
    obtain ⟨m, hm, hm1, hskip⟩ : ∃ m, (if done > pos then pos + max - done else max) = m ∧
        m ≥ 1 ∧ max - m = done - pos := by
      split
      · exact ⟨_, rfl, by omega, by omega⟩
      · exact ⟨_, rfl, hmax, by omega⟩
    simp only [hm, hm1, not_true_eq_false, if_false]
    refine ⟨_, _, _, rfl, ?_⟩
    have htake : (buf.toList.take (max - m)).length = max - m := by
      rw [List.length_take, Vector.length_toList]
      omega
    have hrest : (fillScratch buf v m).toList.drop (max - m) =
        (fieldBytes max v).drop (max - m) := List.drop_left' htake
    rw [hrest, hskip, pushOnto, List.take_of_length_le, List.flatten_append,
      List.flatten_singleton]
    rw [List.length_drop, length_fieldBytes]
    omega

/-! ## Reading a field

Bytes are widened and shifted, and nothing is lost of two of them.  What was lost in writing is all
above the sixteen bits. -/

/-- Two bytes read as `x = hi; x <<= 8; x |= lo`. -/
def readPair (hi lo : UInt8) : Nat := (hi.toNat <<< 8) ||| lo.toNat

theorem readPair_eq (hi lo : UInt8) : readPair hi lo = hi.toNat * 256 + lo.toNat := by
  have hlo : lo.toNat < 2 ^ 8 := UInt8.toNat_lt lo
  rw [readPair, ← Nat.shiftLeft_add_eq_or_of_lt hlo, Nat.shiftLeft_eq]

theorem readPair_lt (hi lo : UInt8) : readPair hi lo < 65536 := by
  have hhi : hi.toNat < 256 := UInt8.toNat_lt hi
  have hlo : lo.toNat < 256 := UInt8.toNat_lt lo
  rw [readPair_eq]
  omega

theorem byteAt_toNat (v s : Nat) : (byteAt v s).toNat = v / 2 ^ s % 256 := by
  have hmask : (v >>> s) &&& 0xff = v / 2 ^ s % 256 := by
    rw [Nat.shiftRight_eq_div_pow]
    exact Nat.and_two_pow_sub_one_eq_mod _ 8
  rw [byteAt, hmask]
  simp

theorem fieldBytes_two (v : Nat) : fieldBytes 2 v = [byteAt v 8, byteAt v 0] := rfl

/-- **The wire keeps sixteen bits**: what the reader recovers from a two-byte field. -/
theorem readPair_byteAt (v : Nat) : readPair (byteAt v 8) (byteAt v 0) = v % 65536 := by
  rw [readPair_eq, byteAt_toNat, byteAt_toNat]
  omega

/-- What `decode_message` gives back: its three output parameters, and the bytes from the
returned pointer on. -/
structure Decoded where
  clid : Nat
  label : Nat
  pktlen : Nat
  base : List UInt8
  deriving DecidableEq

/-- `decode_message`, on the `got` bytes at `base`. -/
def decodeMessage (base : List UInt8) : Option Decoded :=
  match base with
  | c₁ :: c₂ :: l₁ :: l₂ :: n₁ :: n₂ :: rest =>
    let pktlen := readPair n₁ n₂
    -- is the packet complete?
    if base.length < headerBytes + pktlen then none
    else some { clid := readPair c₁ c₂, label := readPair l₁ l₂, pktlen, base := rest }
  | _ => none

/-! ## Whole frames

The header says how long the payload is.  So the decoder can tell where a frame ends, whatever comes
after it. -/

/-- A message of the tunnel. -/
structure Message where
  clid : Nat
  label : Nat
  payload : List UInt8
  deriving DecidableEq

namespace Message

/-- The frame of a message. -/
def encode (m : Message) : List UInt8 :=
  fieldBytes maxClidBytes m.clid ++ fieldBytes maxLabelBytes m.label ++
    fieldBytes maxLengthBytes m.payload.length ++ m.payload

/-- The messages that survive the trip: all three header fields fit in two bytes. -/
structure Valid (m : Message) : Prop where
  clid : m.clid < 65536
  label : m.label < 65536
  payload : m.payload.length < 65536

theorem length_encode (m : Message) : m.encode.length = headerBytes + m.payload.length := by
  simp [encode]
  omega

theorem encode_eq_cons (m : Message) : m.encode =
    byteAt m.clid 8 :: byteAt m.clid 0 :: byteAt m.label 8 :: byteAt m.label 0 ::
      byteAt m.payload.length 8 :: byteAt m.payload.length 0 :: m.payload := by
  rw [encode]
  rfl

end Message

/-- **The decoder recovers a frame**, whatever follows it. -/
theorem decodeMessage_encode {m : Message} (hm : m.Valid) (rest : List UInt8) :
    decodeMessage (m.encode ++ rest) =
      some ⟨m.clid, m.label, m.payload.length, m.payload ++ rest⟩ := by
  have hlen : (m.encode ++ rest).length = headerBytes + m.payload.length + rest.length := by
    rw [List.length_append, m.length_encode]
  rw [m.encode_eq_cons] at hlen ⊢
  simp only [List.cons_append] at hlen ⊢
  rw [decodeMessage]
  simp only [readPair_byteAt, Nat.mod_eq_of_lt hm.clid, Nat.mod_eq_of_lt hm.label,
    Nat.mod_eq_of_lt hm.payload]
  rw [if_neg (by rw [hlen]; omega)]

/-- A packet is only reported when its payload is there. -/
theorem decodeMessage_some {base : List UInt8} {d : Decoded} (h : decodeMessage base = some d) :
    d.pktlen < 65536 ∧ d.base = base.drop headerBytes ∧ d.pktlen ≤ d.base.length ∧
      base.length = headerBytes + d.base.length := by
  unfold decodeMessage at h
  split at h
  · rename_i c₁ c₂ l₁ l₂ n₁ n₂ rest
    dsimp only at h
    split at h
    · cases h
    · rename_i hlen
      cases h
      simp only [List.length_cons, headerBytes, maxClidBytes, maxLabelBytes,
        maxLengthBytes] at hlen ⊢
      exact ⟨readPair_lt n₁ n₂, rfl, by omega, by omega⟩
  · cases h

/-- Nothing is decoded only from less than the largest frame. -/
theorem length_of_decodeMessage_eq_none {base : List UInt8} (h : decodeMessage base = none) :
    base.length < headerBytes + 65535 := by
  unfold decodeMessage at h
  split at h
  · rename_i c₁ c₂ l₁ l₂ n₁ n₂ rest
    dsimp only at h
    split at h
    · rename_i hlen
      have := readPair_lt n₁ n₂
      omega
    · cases h
  · rename_i hshort
    rcases base with _ | ⟨a, _ | ⟨b, _ | ⟨c, _ | ⟨d, _ | ⟨e, _ | ⟨f, rest⟩⟩⟩⟩⟩⟩
    · simp
    · simp
    · simp
    · simp
    · simp
    · simp
    · exact absurd rfl (hshort a b c d e f rest)

/-! ## Frames as a code

This is what the rest of the development uses: frames that follow one another are read in one way.
-/

/-- The other direction of `readPair_byteAt`. -/
theorem byteAt_readPair (hi lo : UInt8) :
    byteAt (readPair hi lo) 8 = hi ∧ byteAt (readPair hi lo) 0 = lo := by
  have hhi : hi.toNat < 256 := UInt8.toNat_lt hi
  have hlo : lo.toNat < 256 := UInt8.toNat_lt lo
  constructor <;> apply UInt8.toNat.inj <;> rw [byteAt_toNat, readPair_eq] <;> omega

/-- The message that was decoded. -/
def Decoded.message (d : Decoded) : Message := ⟨d.clid, d.label, d.base.take d.pktlen⟩

/-- **What is decoded is a frame**, and what comes after it is left. -/
theorem decodeMessage_split {base : List UInt8} {d : Decoded} (h : decodeMessage base = some d) :
    d.message.Valid ∧ base = d.message.encode ++ d.base.drop d.pktlen := by
  obtain ⟨hlt, hbase, hle, -⟩ := decodeMessage_some h
  have hlen : (d.base.take d.pktlen).length = d.pktlen := List.length_take_of_le hle
  unfold decodeMessage at h
  split at h
  · rename_i c₁ c₂ l₁ l₂ n₁ n₂ rest
    dsimp only at h
    split at h
    · cases h
    · cases h
      refine ⟨⟨readPair_lt c₁ c₂, readPair_lt l₁ l₂, by rw [Decoded.message, hlen]; exact hlt⟩, ?_⟩
      rw [Message.encode_eq_cons, Decoded.message, hlen]
      simp only [byteAt_readPair, List.cons_append, List.take_append_drop]
  · cases h

namespace Message

/-- Frames, one after another, with `decode_message` to read them. -/
def code : PrefixCode Message UInt8 where
  encode := encode
  decode base := (decodeMessage base).map fun d ↦ (d.message, d.base.drop d.pktlen)
  Valid := Valid
  encode_ne_nil _ := by simp [encode_eq_cons]
  decode_encode hm s := by
    simp [decodeMessage_encode hm, Decoded.message]
  decode_some h := by
    obtain ⟨d, hd, heq⟩ := Option.map_eq_some_iff.mp h
    obtain ⟨rfl, rfl⟩ := Prod.mk.inj heq
    exact decodeMessage_split hd

theorem code_decode_eq_none {base : List UInt8} :
    code.decode base = none ↔ decodeMessage base = none := Option.map_eq_none_iff

end Message

/-- **The decoder waits for the whole frame.** -/
theorem decodeMessage_eq_none {m : Message} (hm : m.Valid) {n : Nat} (hn : n < m.encode.length) :
    decodeMessage (m.encode.take n) = none := by
  refine Message.code_decode_eq_none.mp
    (Message.code.decode_of_lt hm (List.take_append_drop n _) ?_)
  rw [Ne, List.drop_eq_nil_iff]
  omega

end UdpTun
