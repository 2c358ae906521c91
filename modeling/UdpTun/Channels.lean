import UdpTun.Queues

/-!
# Channels

`Channel` of `channels.cc` holds the datagrams of one label until they have been sent.  A record of
its queue is a client id, as it is in memory, followed by the datagram; the frame that goes on the
wire has the header in front of the datagram instead.

The ingress gets at the frame in steps.  `Channel.describe` gives the part of it that is not done,
`Channel.consumed` is told how much of that has been sent, and `Channel.failed` that the connection
is lost.  `Channel.describeCurrent_eq` says what `describe` offers: the frame, less the first `done`
bytes.

The width of `clid_t` in bytes is a parameter.  Its bytes are taken to be in memory least
significant first; they are only read by the program that wrote them.
-/

set_option autoImplicit false

namespace UdpTun

/-- The bytes of a `clid_t` in memory. -/
def clidMem (szClid clid : Nat) : List UInt8 := (List.range szClid).map fun i ↦ byteAt clid (i * 8)

/-- Read back. -/
def readClid (bytes : List UInt8) : Nat := bytes.foldr (fun b clid ↦ clid * 256 + b.toNat) 0

@[simp] theorem length_clidMem (szClid clid : Nat) : (clidMem szClid clid).length = szClid := by
  simp [clidMem]

/-- `Channel`, less its idle event. -/
structure Channel where
  label : Nat
  queue : PayloadQueue
  /-- The payload that `current` points to, which is at the head of the queue. -/
  current : Option Payload
  clids : Vector UInt8 maxClidBytes
  channels : Vector UInt8 maxLabelBytes
  lenword : Vector UInt8 maxLengthBytes
  done : Nat

namespace Channel

/-- The constructor, on its queue. -/
def create (label : Nat) (queue : PayloadQueue) : Channel where
  label := label
  queue := queue
  current := none
  clids := Vector.replicate _ 0
  channels := Vector.replicate _ 0
  lenword := Vector.replicate _ 0
  done := 0

/-- How much of its queue a channel keeps in memory. -/
@[simp] def queueMem : Nat := 100 * 1024

/-- `activate`. -/
def activate (c : Channel) : Channel × List PayloadQueue.Call :=
  ({ c with queue := c.queue.poke.1 }, c.queue.poke.2)

/-- The beginning of `describe`: the head of the queue becomes current. -/
def fetch (c : Channel) : Channel × List PayloadQueue.Call :=
  match c.current with
  | some _ => (c, [])
  | none =>
    let r := c.queue.peek
    match r.1 with
    | none => ({ c with queue := r.2.1 }, r.2.2)
    | some pl => ({ c with queue := r.2.1, current := some pl, done := 0 }, r.2.2)

/-- The rest of it, when there is a payload. -/
def describeCurrent (szClid : Nat) (c : Channel) (pl : Payload) (iov : Iov) :
    Except Halt (Iov × Channel) := do
  if pl.length < szClid then .error (.assertion .describeSize)
  else
    let clid := readClid (pl.take szClid)
    let plsize := pl.length - szClid
    let base := pl.drop szClid
    let (clids, iov, _) ← clidToBytes clid c.clids c.done 0 iov
    let (channels, iov, _) ← labelToBytes c.label c.channels c.done maxClidBytes iov
    if ¬ plsize ≤ 0xffff then .error (.assertion .describePlsize)
    else
      let (lenword, iov, _) ←
        lengthToBytes plsize c.lenword c.done (maxClidBytes + maxLabelBytes) iov
      -- the subtraction is of unsigned numbers
      if headerBytes + plsize < c.done then .error .undefined
      else
        let m := if c.done > headerBytes then headerBytes + plsize - c.done else plsize
        if ¬ m > 0 then .error (.assertion .describeM)
        else
          let iov := pushOnto iov (base.drop (plsize - m)) m
          .ok (iov, { c with clids, channels, lenword })

/-- `describe`: what it returns, the vector, and the channel after it. -/
def describe (szClid : Nat) (c : Channel) (iov : Iov) :
    Except Halt (Bool × Iov × Channel × List PayloadQueue.Call) :=
  let r := c.fetch
  match r.1.current with
  | none => .ok (false, iov, r.1, r.2)
  | some pl => (describeCurrent szClid r.1 pl iov).map fun s ↦ (true, s.1, s.2, r.2)

/-- `consumed`. -/
def consumed (szClid : Nat) (c : Channel) (done : Nat) :
    Except Halt (Bool × Channel × List PayloadQueue.Call) :=
  match c.current with
  | none => .error (.assertion .consumedCurrent)
  | some pl =>
    let plsize := pl.length - szClid
    let c := { c with done := c.done + done }
    if c.done = headerBytes + plsize then
      let q := c.queue.consume.2
      .ok (true, { c with queue := q.poke.1, current := none }, q.poke.2)
    else .ok (false, c, [])

/-- `failed`. -/
def failed (c : Channel) : Channel := { c with current := none }

/-- `submit`, at a time `now`. -/
def submit (szClid : Nat) (c : Channel) (clid : Nat) (base : List UInt8) (now : Nat) :
    Channel × List PayloadQueue.Call :=
  let r := c.queue.push [clidMem szClid clid, base] now
  ({ c with queue := r.1 }, r.2)

/-! ## Frames of records

A record is a frame in another order, with the id at its full width and without a header.  So what
`describe` offers can be said in terms of the record at the head of the queue. -/

/-- The payload that goes on the wire. -/
def datagram (szClid : Nat) (pl : Payload) : List UInt8 := pl.drop szClid

/-- The frame of a record. -/
def frame (szClid label : Nat) (pl : Payload) : List UInt8 :=
  Message.encode ⟨readClid (pl.take szClid), label, datagram szClid pl⟩

theorem length_frame (szClid label : Nat) (pl : Payload) :
    (frame szClid label pl).length = headerBytes + (pl.length - szClid) := by
  rw [frame, Message.length_encode, datagram, List.length_drop]

/-- The records that can be sent: a whole client id, a datagram with something in it, and a length
that fits in its field. -/
structure Sendable (szClid : Nat) (pl : Payload) : Prop where
  size : szClid < pl.length
  plsize : pl.length - szClid ≤ 65535

/-- **What `describe` offers**: the frame, less what is done; and that is not nothing. -/
theorem describeCurrent_eq {szClid : Nat} {c : Channel} {pl : Payload} (hpl : Sendable szClid pl)
    (hdone : c.done < (frame szClid c.label pl).length) (iov : Iov) :
    ∃ iov' c', describeCurrent szClid c pl iov = .ok (iov', c') ∧
      iov'.flatten = iov.flatten ++ (frame szClid c.label pl).drop c.done ∧
      c'.label = c.label ∧ c'.queue = c.queue ∧ c'.current = c.current ∧ c'.done = c.done := by
  rw [length_frame] at hdone
  have hsize := hpl.size
  obtain ⟨clids, iov₁, _, h₁, hiov₁⟩ := fieldToBytes_eq (by decide : 1 ≤ maxClidBytes)
    (readClid (pl.take szClid)) c.clids c.done 0 iov
  obtain ⟨channels, iov₂, _, h₂, hiov₂⟩ := fieldToBytes_eq (by decide : 1 ≤ maxLabelBytes)
    c.label c.channels c.done maxClidBytes iov₁
  obtain ⟨lenword, iov₃, _, h₃, hiov₃⟩ := fieldToBytes_eq (by decide : 1 ≤ maxLengthBytes)
    (pl.length - szClid) c.lenword c.done (maxClidBytes + maxLabelBytes) iov₂
  -- how much of the payload is left
  obtain ⟨m, hm, hpos, hskip⟩ : ∃ m, (if c.done > headerBytes then
      headerBytes + (pl.length - szClid) - c.done else pl.length - szClid) = m ∧ m > 0 ∧
      (pl.length - szClid) - m = c.done - headerBytes := by
    split
    · exact ⟨_, rfl, by omega, by omega⟩
    · exact ⟨_, rfl, by omega, by omega⟩
  refine ⟨pushOnto iov₃ ((pl.drop szClid).drop (pl.length - szClid - m)) m,
    { c with clids, channels, lenword }, ?_, ?_, rfl, rfl, rfl, rfl⟩
  · rw [describeCurrent, if_neg (by omega)]
    simp only [clidToBytes, labelToBytes, lengthToBytes, h₁, h₂, h₃, bind, Except.bind]
    rw [if_neg (not_not.mpr hpl.plsize), if_neg (by omega), hm, if_neg (not_not.mpr hpos)]
  · have htail : ((pl.drop szClid).drop (pl.length - szClid - m)).take m =
        (pl.drop szClid).drop (c.done - headerBytes) := by
      rw [hskip, List.take_of_length_le]
      rw [List.length_drop, List.length_drop]
      omega
    rw [pushOnto, List.flatten_append, List.flatten_singleton, htail, hiov₃, hiov₂, hiov₁, frame,
      Message.encode, datagram]
    simp only [List.drop_append, List.append_assoc, length_fieldBytes, List.length_drop,
      Nat.sub_zero, headerBytes, Nat.sub_sub]

/-- Nothing else can be described. -/
theorem sendable_of_describeCurrent {szClid : Nat} {c : Channel} {pl : Payload} {iov : Iov}
    {r : Iov × Channel} (h : describeCurrent szClid c pl iov = .ok r) :
    Sendable szClid pl ∧ c.done < (frame szClid c.label pl).length := by
  obtain ⟨clids, iov₁, _, h₁, -⟩ := fieldToBytes_eq (by decide : 1 ≤ maxClidBytes)
    (readClid (pl.take szClid)) c.clids c.done 0 iov
  obtain ⟨channels, iov₂, _, h₂, -⟩ := fieldToBytes_eq (by decide : 1 ≤ maxLabelBytes)
    c.label c.channels c.done maxClidBytes iov₁
  obtain ⟨lenword, iov₃, _, h₃, -⟩ := fieldToBytes_eq (by decide : 1 ≤ maxLengthBytes)
    (pl.length - szClid) c.lenword c.done (maxClidBytes + maxLabelBytes) iov₂
  rw [length_frame]
  rw [describeCurrent] at h
  simp only [clidToBytes, labelToBytes, lengthToBytes, h₁, h₂, h₃, bind, Except.bind] at h
  -- what is left of the payload is not nothing
  have hm : (if c.done > headerBytes then headerBytes + (pl.length - szClid) - c.done
      else pl.length - szClid) > 0 →
        szClid < pl.length ∧ c.done < headerBytes + (pl.length - szClid) := by
    split <;> omega
  generalize (if c.done > headerBytes then headerBytes + (pl.length - szClid) - c.done
    else pl.length - szClid) = m at h hm
  split at h
  · cases h
  split at h
  · cases h
  rename_i hplsize
  split at h
  · cases h
  split at h
  · cases h
  rename_i hpos
  obtain ⟨hsize, hdone⟩ := hm (not_not.mp hpos)
  exact ⟨⟨hsize, not_not.mp hplsize⟩, hdone⟩

/-- What has been described. -/
theorem describeCurrent_ok {szClid : Nat} {c c' : Channel} {pl : Payload} {iov iov' : Iov}
    (h : describeCurrent szClid c pl iov = .ok (iov', c')) :
    c.done < (frame szClid c.label pl).length ∧
      iov'.flatten = iov.flatten ++ (frame szClid c.label pl).drop c.done ∧
      c'.label = c.label ∧ c'.queue = c.queue ∧ c'.current = c.current ∧ c'.done = c.done := by
  obtain ⟨hpl, hdone⟩ := sendable_of_describeCurrent h
  obtain ⟨iov₁, c₁, h₁, hspec⟩ := describeCurrent_eq hpl hdone iov
  cases h.symm.trans h₁
  exact ⟨hdone, hspec⟩

/-- A payload is current already; or there is none; or the head of the queue becomes current. -/
theorem fetch_cases (c : Channel) :
    (∃ pl, c.current = some pl ∧ c.fetch = (c, [])) ∨
      (c.current = none ∧ c.queue.peek.1 = none ∧
        c.fetch = ({ c with queue := c.queue.peek.2.1 }, c.queue.peek.2.2)) ∨
      (c.current = none ∧ ∃ pl, c.queue.peek.1 = some pl ∧
        c.fetch = ({ c with queue := c.queue.peek.2.1, current := some pl, done := 0 },
          c.queue.peek.2.2)) := by
  rw [fetch]
  split
  · rename_i pl hpl
    exact .inl ⟨pl, hpl, rfl⟩
  · rename_i hnone
    dsimp only
    split
    · exact .inr (.inl ⟨hnone, ‹_›, rfl⟩)
    · exact .inr (.inr ⟨hnone, _, ‹_›, rfl⟩)

/-- There is nothing to describe, or the current payload is described. -/
theorem describe_ok {szClid : Nat} {c c' : Channel} {some' : Bool} {iov iov' : Iov}
    {l : List PayloadQueue.Call} (h : c.describe szClid iov = .ok (some', iov', c', l)) :
    (some' = false ∧ c.fetch = (c', l) ∧ c'.current = none) ∨
      (some' = true ∧ ∃ c₁ pl, c.fetch = (c₁, l) ∧ c₁.current = some pl ∧
        describeCurrent szClid c₁ pl iov = .ok (iov', c')) := by
  rw [describe] at h
  split at h
  · cases h
    exact .inl ⟨rfl, rfl, ‹_›⟩
  · rename_i pl hpl
    cases hd : describeCurrent szClid c.fetch.1 pl iov with
    | error x => rw [hd] at h; cases h
    | ok r =>
      rw [hd] at h
      cases h
      exact .inr ⟨rfl, _, pl, rfl, hpl, hd⟩

/-- The frame is complete, and its record leaves the queue; or it is not. -/
theorem consumed_ok {szClid n : Nat} {c c' : Channel} {allDone : Bool}
    {l : List PayloadQueue.Call} (h : c.consumed szClid n = .ok (allDone, c', l)) :
    ∃ pl, c.current = some pl ∧
      ((allDone = true ∧ c.done + n = headerBytes + (pl.length - szClid) ∧
          c' = { c with
            done := c.done + n, queue := c.queue.consume.2.poke.1, current := none } ∧
          l = c.queue.consume.2.poke.2) ∨
        (allDone = false ∧ c.done + n ≠ headerBytes + (pl.length - szClid) ∧
          c' = { c with done := c.done + n } ∧ l = [])) := by
  rw [consumed] at h
  split at h
  · cases h
  · rename_i pl hpl
    refine ⟨pl, hpl, ?_⟩
    dsimp only at h
    split at h
    · cases h
      exact .inl ⟨rfl, ‹_›, rfl, rfl⟩
    · cases h
      exact .inr ⟨rfl, ‹_›, rfl, rfl⟩

/-- A failure is one of its own assertions, or a subtraction that goes below zero. -/
theorem describeCurrent_error {szClid : Nat} {c : Channel} {pl : Payload} {iov : Iov} {x : Halt}
    (h : describeCurrent szClid c pl iov = .error x) : x = .assertion .describeSize ∨
      x = .assertion .describePlsize ∨ x = .assertion .describeM ∨ x = .undefined := by
  obtain ⟨clids, iov₁, _, h₁, -⟩ := fieldToBytes_eq (by decide : 1 ≤ maxClidBytes)
    (readClid (pl.take szClid)) c.clids c.done 0 iov
  obtain ⟨channels, iov₂, _, h₂, -⟩ := fieldToBytes_eq (by decide : 1 ≤ maxLabelBytes)
    c.label c.channels c.done maxClidBytes iov₁
  obtain ⟨lenword, iov₃, _, h₃, -⟩ := fieldToBytes_eq (by decide : 1 ≤ maxLengthBytes)
    (pl.length - szClid) c.lenword c.done (maxClidBytes + maxLabelBytes) iov₂
  rw [describeCurrent] at h
  simp only [clidToBytes, labelToBytes, lengthToBytes, h₁, h₂, h₃, bind, Except.bind] at h
  generalize (if c.done > headerBytes then headerBytes + (pl.length - szClid) - c.done
    else pl.length - szClid) = m at h
  split at h
  · cases h
    exact .inl rfl
  · split at h
    · cases h
      exact .inr (.inl rfl)
    · split at h
      · cases h
        exact .inr (.inr (.inr rfl))
      · split at h
        · cases h
          exact .inr (.inr (.inl rfl))
        · cases h

end Channel

/-! ## Where the datagrams come from

What gets into a channel comes from a socket, and its length is bounded by the buffer there. -/

/-- `sizeof buf` of a `UDPAbsorber`. -/
@[simp] def absorberBuf : Nat := 65536

/-- What `UDPAbsorber::sock_ready` does to one of its channels: `rc` is the datagram that
`recvfrom` gives, if any, and `clid` what the client table has for its sender. -/
def sockReady (szClid : Nat) (c : Channel) (clid : Nat) (rc : Option (List UInt8)) (now : Nat) :
    Channel × List PayloadQueue.Call :=
  match rc with
  | none => (c, [])
  | some data => c.submit szClid clid (data.take absorberBuf) now

end UdpTun
