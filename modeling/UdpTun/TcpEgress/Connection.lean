import UdpTun.Lib.OrdMap
import UdpTun.Lib.Run
import UdpTun.Marshaling
import Mathlib.Data.Nat.Basic

/-!
# The receiving end of a connection

`TCPEgress::Connection` of `tcp_egress.cc` reads a stream of frames into a fixed buffer.  Each time
its socket is readable, `handle_fd` makes one `recv` into the room that is left, and `process` is
called until it finds no complete frame at the front of the buffer.  Each frame goes to the
`ClientState` of its client id, which is made when the id is first seen.

* `RecvBuf` is the buffer, with its bounds.
* `Connection.process` and `Connection.handleFd` are the two functions.
* `Connection.Buffered` ties the state to the bytes received: they are the frames delivered followed
  by what is in the buffer, and that is not a whole frame.  `Buffered.handleFd` is its step lemma.
* `Connection.delivers_stream` is the result about a whole stream, however `recv` cuts it.

What a `ClientState` does with a payload is of no concern here, so its type and its two functions
are parameters.

The buffer is larger than the largest frame, so there is always room for more, and no frame waits
for bytes that cannot be taken in.
-/

set_option autoImplicit false

namespace UdpTun

/-- `sizeof buf`. -/
@[simp] def sizeofBuf : Nat := headerBytes + maxLength

/-- `Connection::buf` and `Connection::len`. -/
structure RecvBuf where
  buf : List UInt8
  len : Nat
  /-- The array has a fixed size. -/
  size : buf.length = sizeofBuf
  /-- Only so much of it is in use. -/
  fits : len ≤ sizeofBuf

namespace RecvBuf

/-- The bytes in use. -/
def contents (b : RecvBuf) : List UInt8 := b.buf.take b.len

/-- The room offered to `recv`. -/
def room (b : RecvBuf) : Nat := sizeofBuf - b.len

/-- `recv` stores some bytes at `buf + len`. -/
def append (b : RecvBuf) (chunk : List UInt8) (h : chunk.length ≤ b.room) : RecvBuf where
  buf := b.buf.take b.len ++ chunk ++ b.buf.drop (b.len + chunk.length)
  len := b.len + chunk.length
  size := by
    have := b.size
    have := b.fits
    rw [room] at h
    simp only [List.length_append, List.length_take, List.length_drop]
    omega
  fits := by
    have := b.fits
    rw [room] at h
    omega

/-- `memmove` of all but the first `n` bytes in use to the front. -/
def discard (b : RecvBuf) (n : Nat) : RecvBuf where
  buf := (b.buf.drop n).take (b.len - n) ++ b.buf.drop (b.len - n)
  len := b.len - n
  size := by
    have := b.size
    have := b.fits
    simp only [List.length_append, List.length_take, List.length_drop]
    omega
  fits := (Nat.sub_le b.len n).trans b.fits

theorem length_contents (b : RecvBuf) : b.contents.length = b.len :=
  List.length_take_of_le (by rw [b.size]; exact b.fits)

theorem contents_append (b : RecvBuf) {chunk : List UInt8} (h : chunk.length ≤ b.room) :
    (b.append chunk h).contents = b.contents ++ chunk := by
  have hlen : (b.contents ++ chunk).length = b.len + chunk.length := by
    rw [List.length_append, b.length_contents]
  exact List.take_left' hlen

theorem contents_discard (b : RecvBuf) (n : Nat) :
    (b.discard n).contents = b.contents.drop n := by
  have hlen : ((b.buf.drop n).take (b.len - n)).length = b.len - n := by
    have := b.size
    have := b.fits
    rw [List.length_take, List.length_drop]
    omega
  rw [contents, contents, List.drop_take]
  exact List.take_left' hlen

end RecvBuf

/-- What a connection needs of `ClientState`. -/
structure ClientOps (S : Type) where
  /-- The constructor, for a client id. -/
  make : Nat → S
  /-- `deliver`, with a label and a payload. -/
  deliver : S → Nat → List UInt8 → S

/-- `TCPEgress::Connection`. -/
structure Connection (S : Type) where
  /-- The socket, until it is closed. -/
  sock : Option Nat
  /-- Whether `fdev` is set, for `EPOLLIN`. -/
  fdev : Bool
  /-- `buf` and `len`. -/
  rx : RecvBuf
  clstats : OrdMap Nat S

/-- The outcome of a `recv`. -/
inductive Recv
  /-- It returns the number of these bytes: none at all when the peer has closed, or when there was
  no room to read into. -/
  | bytes (chunk : List UInt8)
  /-- It fails. -/
  | error

namespace Connection

variable {S : Type} (ops : ClientOps S)

/-- The constructor, on an accepted socket; the buffer is not initialized. -/
def create (sock : Nat) (buf : List UInt8) (size : buf.length = sizeofBuf) : Connection S where
  sock := some sock
  fdev := true
  rx := { buf, len := 0, size, fits := Nat.zero_le _ }
  clstats := .empty

/-- `process`: the message delivered and the connection after it, or `none` where the source
returns false. -/
def process (c : Connection S) : Option (Message × Connection S) :=
  match decodeMessage c.rx.contents with
  | none => none
  | some d =>
    let payload := d.base.take d.pktlen
    let clstats := c.clstats.modify d.clid (ops.make d.clid) fun s ↦ ops.deliver s d.label payload
    some (⟨d.clid, d.label, payload⟩,
      { c with rx := c.rx.discard (headerBytes + d.pktlen), clstats })

/-- `while (process()) ;`. -/
def processLoop : Nat → Connection S → Except Halt (List Message × Connection S)
  | 0, _ => .error .diverges
  | fuel + 1, c =>
    match process ops c with
    | none => .ok ([], c)
    | some (m, c) => (processLoop fuel c).map fun r ↦ (m :: r.1, r.2)

/-- `handle_fd`, up to the point where it sets the parent's `idev`: the messages delivered, the
connection after it, and whether `idev` was set. -/
def handleFd (c : Connection S) (rc : Recv) :
    Except Halt (List Message × Connection S × Bool) :=
  match c.sock with
  | none => .error (.assertion .egressSock)
  | some sock =>
    match rc with
    | .error => .ok ([], { c with fdev := false, sock := none }, true)
    | .bytes chunk =>
      if chunk.length = 0 then .ok ([], { c with fdev := false, sock := none }, true)
      else if h : chunk.length ≤ c.rx.room then
        let c := { c with fdev := true, sock := some sock, rx := c.rx.append chunk h }
        -- each turn of the loop shortens the buffer
        (processLoop ops (c.rx.len + 1) c).map fun r ↦ (r.1, r.2, false)
      else .error .undefined

/-! ## One call

`process` takes at most one frame off the buffer.  That it does so until there is no whole frame
left is the loop. -/

/-- **What `process` does to the buffer**: it takes a whole frame off the front. -/
theorem process_some {c c' : Connection S} {m : Message} (h : process ops c = some (m, c')) :
    m.Valid ∧ c.rx.contents = m.encode ++ c'.rx.contents ∧ c'.sock = c.sock ∧
      c'.fdev = c.fdev ∧ c'.clstats = c.clstats.modify m.clid (ops.make m.clid)
        fun s ↦ ops.deliver s m.label m.payload := by
  rw [process] at h
  split at h
  · cases h
  · rename_i d hd
    cases h
    obtain ⟨hvalid, hsplit⟩ := decodeMessage_split hd
    obtain ⟨-, hbase, -, -⟩ := decodeMessage_some hd
    refine ⟨hvalid, ?_, rfl, rfl, rfl⟩
    rw [RecvBuf.contents_discard, ← List.drop_drop, ← hbase]
    exact hsplit

theorem process_none {c : Connection S} (h : process ops c = none) :
    decodeMessage c.rx.contents = none := by
  rw [process] at h
  split at h
  · assumption
  · cases h

/-- **The loop ends**, with every whole frame of the buffer delivered in order and the rest of it
left.  The fuel is the length of the buffer, since a frame is never empty. -/
theorem processLoop_spec (fuel : Nat) (c : Connection S) (hfuel : c.rx.len < fuel) :
    ∃ ms c', processLoop ops fuel c = .ok (ms, c') ∧ (∀ m ∈ ms, m.Valid) ∧
      c.rx.contents = Message.code.encodeAll ms ++ c'.rx.contents ∧
      decodeMessage c'.rx.contents = none ∧ c'.sock = c.sock ∧ c'.fdev = c.fdev := by
  induction fuel generalizing c with
  | zero => omega
  | succ fuel ih =>
    rw [processLoop]
    cases hp : process ops c with
    | none => exact ⟨[], c, rfl, by simp, rfl, process_none ops hp, rfl, rfl⟩
    | some r =>
      obtain ⟨m, c₁⟩ := r
      obtain ⟨hvalid, hcont, hsock, hfdev, -⟩ := process_some ops hp
      have hlen := congrArg List.length hcont
      rw [List.length_append, m.length_encode, RecvBuf.length_contents,
        RecvBuf.length_contents] at hlen
      simp only [headerBytes, maxClidBytes, maxLabelBytes, maxLengthBytes] at hlen
      obtain ⟨ms, c₂, hloop, hvalids, hrest, hnone, hsock₂, hfdev₂⟩ := ih c₁ (by omega)
      refine ⟨m :: ms, c₂, by simp [hloop, Except.map], ?_, ?_, hnone, hsock₂.trans hsock,
        hfdev₂.trans hfdev⟩
      · simpa using ⟨hvalid, hvalids⟩
      · rw [hcont, hrest, PrefixCode.encodeAll_cons, List.append_assoc]
        rfl

/-- The socket is closed, and nothing is delivered, or it stays open. -/
theorem handleFd_ok {c c' : Connection S} {rc : Recv} {ms : List Message} {closed : Bool}
    (h : handleFd ops c rc = .ok (ms, c', closed)) : ∃ fd, c.sock = some fd ∧
      (closed = true ∧ c' = { c with fdev := false, sock := none } ∧ ms = [] ∨
        closed = false ∧ c'.sock = some fd) := by
  rw [handleFd] at h
  split at h
  · cases h
  rename_i fd hfd
  refine ⟨fd, hfd, ?_⟩
  split at h
  · cases h
    exact .inl ⟨rfl, rfl, rfl⟩
  split at h
  · cases h
    exact .inl ⟨rfl, rfl, rfl⟩
  split at h
  · rename_i hroom
    obtain ⟨r, hloop, hr⟩ := map_ok h
    cases hr
    obtain ⟨ms', c₂, hspec, -, -, -, hsock, -⟩ := processLoop_spec ops _
      { c with fdev := true, sock := some fd, rx := c.rx.append _ hroom } (Nat.lt_succ_self _)
    obtain rfl := Except.ok.inj (hspec.symm.trans hloop)
    exact .inr ⟨rfl, hsock⟩
  · cases h

/-- While there is a socket, and `recv` gives no more than there is room for, it returns. -/
theorem handleFd_total {c : Connection S} {rc : Recv} {fd : Nat} (hfd : c.sock = some fd)
    (hroom : ∀ chunk, rc = .bytes chunk → chunk.length ≤ c.rx.room) :
    ∃ r, handleFd ops c rc = .ok r := by
  rw [handleFd, hfd]
  cases rc with
  | error => exact ⟨_, rfl⟩
  | bytes chunk =>
    dsimp only
    split
    · exact ⟨_, rfl⟩
    · rw [dif_pos (hroom chunk rfl)]
      obtain ⟨ms, c', hloop, -⟩ := processLoop_spec ops _
        { c with fdev := true, sock := some fd, rx := c.rx.append chunk (hroom chunk rfl) }
        (Nat.lt_succ_self _)
      rw [hloop]
      exact ⟨_, rfl⟩

/-! ## Runs

What has come in is an argument of the invariant, so that it can be said of a session at any point
of a stream.  The buffer never fills up, as it is larger than any frame. -/

/-- A connection, with the messages it has delivered so far. -/
structure Session (S : Type) where
  delivered : List Message
  conn : Connection S

/-- The socket is readable, and `recv` gives a chunk. -/
def receive (s : Session S) (chunk : List UInt8) : Except Halt (Session S) :=
  (handleFd ops s.conn (.bytes chunk)).map fun r ↦ ⟨s.delivered ++ r.1, r.2.1⟩

/-- `recv` returns something, and no more than the room offered. -/
def Offered (s : Session S) (chunk : List UInt8) : Prop :=
  chunk ≠ [] ∧ chunk.length ≤ s.conn.rx.room

/-- **The invariant of a session** in which `received` has come in: it has been delivered frame by
frame, but for what the buffer holds, which is not a whole frame. -/
structure Buffered (received : List UInt8) (s : Session S) : Prop where
  sock : s.conn.sock ≠ none
  valid : ∀ m ∈ s.delivered, m.Valid
  split : received = Message.code.encodeAll s.delivered ++ s.conn.rx.contents
  partly : decodeMessage s.conn.rx.contents = none

/-- There is always room in the buffer, as it is larger than the largest frame. -/
theorem Buffered.len_lt {received : List UInt8} {s : Session S} (h : Buffered received s) :
    s.conn.rx.len < sizeofBuf := by
  have hlen := length_of_decodeMessage_eq_none h.partly
  rw [RecvBuf.length_contents] at hlen
  simp only [sizeofBuf, maxLength]
  omega

/-- **The step lemma**: a chunk is taken in, and the invariant kept. -/
theorem Buffered.receive {received : List UInt8} {s : Session S} (h : Buffered received s)
    {chunk : List UInt8} (hc : Offered s chunk) :
    ∃ s', receive ops s chunk = .ok s' ∧ Buffered (received ++ chunk) s' := by
  obtain ⟨sock, hsock⟩ := Option.ne_none_iff_exists'.mp h.sock
  have hne : ¬ chunk.length = 0 := by simpa using hc.1
  let c₁ : Connection S :=
    { s.conn with fdev := true, sock := some sock, rx := s.conn.rx.append chunk hc.2 }
  obtain ⟨ms, c₂, hloop, hvalid, hsplit, hnone, hsock₂, -⟩ :=
    processLoop_spec ops (c₁.rx.len + 1) c₁ (Nat.lt_succ_self _)
  refine ⟨⟨s.delivered ++ ms, c₂⟩, ?_, ?_, ?_, ?_, hnone⟩
  · rw [Connection.receive, handleFd, hsock]
    simp only [if_neg hne, dif_pos hc.2]
    rw [hloop]
    rfl
  · rw [hsock₂]
    simp [c₁]
  · intro m hm
    rcases List.mem_append.mp hm with hm | hm
    · exact h.valid m hm
    · exact hvalid m hm
  · have hcont : c₁.rx.contents = s.conn.rx.contents ++ chunk := RecvBuf.contents_append _ hc.2
    rw [h.split, List.append_assoc, ← hcont, hsplit, PrefixCode.encodeAll_append, List.append_assoc]

/-- **The run lemma.** -/
theorem Buffered.exec {received : List UInt8} {s : Session S} (h : Buffered received s)
    {chunks : List (List UInt8)} (hc : Run.Along (Connection.receive ops) Offered s chunks) :
    ∃ s', Run.exec (Connection.receive ops) s chunks = .ok s' ∧
      Buffered (received ++ chunks.flatten) s' := by
  induction chunks generalizing received s with
  | nil => exact ⟨s, rfl, by simpa using h⟩
  | cons chunk chunks ih =>
    obtain ⟨s₁, hs₁, h₁⟩ := h.receive ops hc.1
    obtain ⟨s₂, hs₂, h₂⟩ := ih h₁ (hc.2 s₁ hs₁)
    refine ⟨s₂, by rw [Run.exec, hs₁]; exact hs₂, ?_⟩
    rwa [List.flatten_cons, ← List.append_assoc]

/-- A fresh connection. -/
theorem buffered_create (sock : Nat) (buf : List UInt8) (size : buf.length = sizeofBuf) :
    Buffered [] (⟨[], create sock buf size⟩ : Session S) :=
  ⟨by simp [create], by simp, rfl, rfl⟩

/-- A chunk is within the room offered if all there is to come would be. -/
theorem Buffered.along_of_length_le {received : List UInt8} {s : Session S}
    (h : Buffered received s) {chunks : List (List UInt8)} (hne : ∀ chunk ∈ chunks, chunk ≠ [])
    (hlen : (received ++ chunks.flatten).length ≤ sizeofBuf) :
    Run.Along (Connection.receive ops) Offered s chunks := by
  induction chunks generalizing received s with
  | nil => trivial
  | cons chunk chunks ih =>
    have hroom : Offered s chunk := by
      refine ⟨hne chunk (by simp), ?_⟩
      have hsplit := congrArg List.length h.split
      rw [List.length_append, RecvBuf.length_contents] at hsplit
      simp only [List.flatten_cons, List.length_append] at hlen
      rw [RecvBuf.room]
      omega
    refine ⟨hroom, fun s₁ hs₁ ↦ ?_⟩
    obtain ⟨s₁', hs₁', h₁⟩ := h.receive ops hroom
    obtain rfl : s₁' = s₁ := Except.ok.inj (hs₁'.symm.trans hs₁)
    refine ih h₁ (fun c hc ↦ hne c (by simp [hc])) ?_
    rwa [List.append_assoc, ← List.flatten_cons]

/-- **A stream is delivered message by message.**  However `recv` cuts a stream of frames, what has
come in so far is the messages delivered, in order and once each, and the bytes in the buffer; all
the messages are delivered at the end.  And whatever the stream, the loop ends each time, and
leaves room in the buffer for the next `recv`. -/
theorem delivers_stream {S : Type} (ops : ClientOps S) (sock : Nat) (buf : List UInt8)
    (size : buf.length = sizeofBuf) :
    (∀ ms : List Message, (∀ m ∈ ms, m.Valid) → ∀ chunks : List (List UInt8),
      Run.Along (receive ops) Offered ⟨[], create sock buf size⟩ chunks →
      chunks.flatten <+: Message.code.encodeAll ms →
      ∃ s, Run.exec (receive ops) ⟨[], create sock buf size⟩ chunks = .ok s ∧
        s.delivered <+: ms ∧
        chunks.flatten = Message.code.encodeAll s.delivered ++ s.conn.rx.contents ∧
        decodeMessage s.conn.rx.contents = none ∧
        (chunks.flatten = Message.code.encodeAll ms → s.delivered = ms ∧ s.conn.rx.contents = [])) ∧
    ∀ chunks : List (List UInt8),
      Run.Along (receive ops) Offered ⟨[], create sock buf size⟩ chunks →
      ∃ s, Run.exec (receive ops) ⟨[], create sock buf size⟩ chunks = .ok s ∧
        s.conn.rx.len < sizeofBuf := by
  have hfresh : Buffered [] (⟨[], create sock buf size⟩ : Session S) :=
    buffered_create sock buf size
  constructor
  · intro ms hms chunks hchunks hpre
    obtain ⟨s, hs, hb⟩ := hfresh.exec ops hchunks
    have hsplit : chunks.flatten =
        Message.code.encodeAll s.delivered ++ s.conn.rx.contents := hb.split
    obtain ⟨tail, htail⟩ := hpre
    rw [hsplit, List.append_assoc] at htail
    obtain ⟨rest, hrest, hcont⟩ := Message.code.encodeAll_append_inj hb.valid hms htail
    refine ⟨s, hs, ⟨rest, hrest.symm⟩, hsplit, hb.partly, fun hall ↦ ?_⟩
    -- with the whole stream in, the buffer holds the rest of the messages; but no whole frame
    have hbuf : s.conn.rx.contents = Message.code.encodeAll rest := by
      rw [hsplit, hrest, PrefixCode.encodeAll_append] at hall
      exact List.append_cancel_left hall
    have hnil : rest = [] := by
      refine Message.code.eq_nil_of_decode_encodeAll (fun m hm ↦ hms m (by simp [hrest, hm])) ?_
      rw [← hbuf, Message.code_decode_eq_none]
      exact hb.partly
    exact ⟨by rw [hrest, hnil, List.append_nil], by rw [hbuf, hnil]; rfl⟩
  · intro chunks hchunks
    obtain ⟨s, hs, hb⟩ := hfresh.exec ops hchunks
    exact ⟨s, hs, hb.len_lt⟩

/-- Two messages, cut inside both headers. -/
theorem delivers_stream_two :
    let ms : List Message := [⟨1, 2, [7]⟩, ⟨3, 4, []⟩]
    let chunks : List (List UInt8) := [[0, 1, 0], [2, 0, 1, 7, 0, 3], [0, 4, 0, 0]]
    let ops : ClientOps Nat := ⟨fun _ ↦ 0, fun n _ _ ↦ n + 1⟩
    let start : Session Nat := ⟨[], create 5 (List.replicate sizeofBuf 0) List.length_replicate⟩
    ∃ s, Run.exec (receive ops) start chunks = .ok s ∧ s.delivered = ms ∧
      s.conn.rx.contents = [] ∧ s.conn.rx.len < sizeofBuf := by
  intro ms chunks ops start
  have hstream : chunks.flatten = Message.code.encodeAll ms := rfl
  have hoffered : Run.Along (receive ops) Offered start chunks := by
    refine Buffered.along_of_length_le ops (buffered_create 5 _ List.length_replicate) ?_ ?_
    · decide
    · rw [hstream]
      decide
  obtain ⟨hstream_ok, hany⟩ :=
    delivers_stream ops 5 (List.replicate sizeofBuf 0) List.length_replicate
  have hvalid : ∀ m ∈ ms, m.Valid := by
    intro m hm
    simp only [ms, List.mem_cons, List.not_mem_nil, or_false] at hm
    rcases hm with rfl | rfl <;> exact ⟨by decide, by decide, by decide⟩
  obtain ⟨s, hs, -, -, -, hend⟩ := hstream_ok ms hvalid chunks hoffered ⟨[], by simp [hstream]⟩
  obtain ⟨s', hs', hlen⟩ := hany chunks hoffered
  obtain rfl : s = s' := Except.ok.inj (hs.symm.trans hs')
  exact ⟨s, hs, (hend hstream).1, (hend hstream).2, hlen⟩

end Connection
end UdpTun
