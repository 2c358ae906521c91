import UdpTun.TcpEgress.Connection
import UdpTun.TcpIngress.Records

/-!
# The tunnel

An ingress and the connections of an egress, with streams of bytes between them.  The near end sends
frames on one connection after another (`TcpIngress.Books`).  The far end accepts connections, reads
what comes in on each in pieces of any size, and delivers it message by message
(`Connection.Session`).  Of what is between them it is only assumed that on each connection what has
come in at the far end is a beginning of what has been sent at the near end; so anything may be
delayed for ever, and a connection may break anywhere.

Two things are asked of the near end (`Books.Steady`): that no peer hangs up in the middle of a
frame, and that records are no longer than their length field can say and the clock advances from
one queue file to the next.  Then

* of the messages that have been delivered on the connections, taken in the order in which these
  were made, those of one channel are a subsequence of what was submitted to it
  (`Tunnel.delivered_at_most_once`).  So on each connection they come in order, and on all of them
  together none comes twice;
* and if nothing is spilled to files, and everything sent has come in, they are all of it but what
  is still in the queue (`Tunnel.delivered_exactly`).

Nothing is said of the order of messages on different connections: the far end may read a later one
before it is through with an earlier one.
-/

set_option autoImplicit false

namespace UdpTun

open TcpIngress (Books Config Wire)

/-! ## Messages of records

The near end has records, and the far end has messages.  A record becomes a message when its frame
is decoded, and the id has lost all but sixteen bits by then. -/

/-- The message that a datagram becomes: the ids have lost all but sixteen bits. -/
def TcpIngress.Config.message {C : Type} (cfg : Config C) (c : C) (p : Nat × List UInt8) :
    Message :=
  ⟨p.1 % 65536, cfg.label c % 65536, p.2⟩

/-- The message that the record of a channel becomes. -/
def TcpIngress.Config.decoded {C : Type} (cfg : Config C) (p : C × Payload) : Message :=
  cfg.message p.1 (readClid (p.2.take cfg.szClid), Channel.datagram cfg.szClid p.2)

theorem fieldBytes_mod (v : Nat) : fieldBytes 2 (v % 65536) = fieldBytes 2 v := by
  have hbyte : ∀ s, s = 0 ∨ s = 8 → byteAt (v % 65536) s = byteAt v s := by
    intro s hs
    apply UInt8.toNat.inj
    rw [byteAt_toNat, byteAt_toNat]
    rcases hs with rfl | rfl <;> omega
  rw [fieldBytes_two, fieldBytes_two, hbyte 8 (.inr rfl), hbyte 0 (.inl rfl)]

section messages

variable {C : Type} {cfg : Config C}

/-- A frame is that of its message. -/
theorem frame_eq_encode (cfg : Config C) (p : C × Payload) :
    cfg.frame p = Message.code.encode (cfg.decoded p) := by
  show _ = Message.encode _
  rw [Config.frame, Channel.frame, Config.decoded, Config.message, Message.encode, Message.encode]
  simp only [maxClidBytes, maxLabelBytes, fieldBytes_mod]

theorem flatMap_frame (cfg : Config C) (taken : List (C × Payload)) :
    taken.flatMap cfg.frame = Message.code.encodeAll (taken.map cfg.decoded) := by
  rw [PrefixCode.encodeAll, List.flatMap_map]
  exact List.flatMap_congr fun p _ ↦ frame_eq_encode cfg p

theorem valid_decoded {p : C × Payload} (h : p.2.length ≤ 65535) : (cfg.decoded p).Valid := by
  refine ⟨Nat.mod_lt _ (by decide), Nat.mod_lt _ (by decide), ?_⟩
  show (p.2.drop cfg.szClid).length < 65536
  rw [List.length_drop]
  omega

/-- **What becomes of a datagram.** -/
theorem decoded_record (hsz : 2 ≤ cfg.szClid) (c : C) (p : Nat × List UInt8) :
    cfg.decoded (c, cfg.record p) = cfg.message c p := by
  have hdvd : 65536 ∣ 256 ^ cfg.szClid := Nat.pow_dvd_pow 256 hsz
  rw [Config.decoded, Config.record, Channel.record_eq, Config.message, Config.message]
  dsimp only
  rw [Channel.datagram, List.take_left' (length_clidMem ..), List.drop_left' (length_clidMem ..),
    readClid_clidMem, Nat.mod_mod_of_dvd _ hdvd]

theorem decoded_records (hsz : 2 ≤ cfg.szClid) (c : C) (l : List (Nat × List UInt8)) :
    ((l.map cfg.record).map fun pl ↦ cfg.decoded (c, pl)) = l.map (cfg.message c) := by
  rw [List.map_map]
  exact List.map_congr_left fun p _ ↦ decoded_record hsz c p

end messages

/-! ## Both ends

Between the ends are the bytes of each connection.  What the far end is given is checked against
what the near end has sent. -/

/-- The near end is on time, with records that are not too long, and no peer hangs up in the middle
of a frame. -/
def TcpIngress.Books.Steady {C : Type} [DecidableEq C] (cfg : Config C) (s : Books C)
    (a : TcpIngress.World.Act C) : Prop :=
  s.Timely cfg a ∧ s.world.Unbroken a

/-- A connection that the far end has accepted. -/
structure Far (S : Type) where
  /-- What has come in on it. -/
  received : List UInt8
  session : Connection.Session S

/-- Both ends of the tunnel. -/
structure Tunnel (C S : Type) where
  near : Books C
  /-- The connections, by the order in which the near end has made them. -/
  far : Nat → Option (Far S)

namespace Tunnel

open Connection (Session handleFd create)
open TcpIngress.World (Unbroken Framed)

variable {C S : Type} [DecidableEq C] {cfg : Config C} {ops : ClientOps S} {t t' : Tunnel C S}

/-- What happens next. -/
inductive Act (C : Type)
  | near (a : TcpIngress.World.Act C)
  /-- The far end accepts a connection; the buffer it receives into is not initialized. -/
  | accept (i sock : Nat) (buf : { b : List UInt8 // b.length = sizeofBuf })
  /-- The far end finds a connection readable, and `recv` gives something. -/
  | recv (i : Nat) (rc : Recv)

/-- The bytes that a `recv` has given. -/
def came : Recv → List UInt8
  | .bytes chunk => chunk
  | .error => []

def init (cfg : Config C) (maxMem : C → Nat) : Tunnel C S := ⟨.init cfg maxMem, fun _ ↦ none⟩

/-- A connection of the far end is set. -/
def setFar (t : Tunnel C S) (i : Nat) (f : Far S) : Tunnel C S :=
  { t with far := Function.update t.far i (some f) }

omit [DecidableEq C] in
@[simp] theorem setFar_self (t : Tunnel C S) (i : Nat) (f : Far S) :
    (t.setFar i f).far i = some f :=
  Function.update_self ..

omit [DecidableEq C] in
@[simp] theorem setFar_near (t : Tunnel C S) (i : Nat) (f : Far S) : (t.setFar i f).near = t.near :=
  rfl

/-- One step. -/
def step (cfg : Config C) (ops : ClientOps S) (t : Tunnel C S) :
    Act C → Except Halt (Tunnel C S)
  | .near a => (t.near.step cfg a).map fun near ↦ { t with near }
  | .accept i sock buf =>
    match t.far i with
    | some _ => .ok t
    | none => .ok (t.setFar i ⟨[], [], create sock buf.1 buf.2⟩)
  | .recv i rc =>
    match t.far i with
    | none => .ok t
    | some f => (handleFd ops f.session.conn rc).map fun r ↦
      t.setFar i ⟨f.received ++ came rc, f.session.delivered ++ r.1, r.2.1⟩

/-- What happens at the near end is allowed.  The far end accepts connections that have been made,
and what comes in on them is what was sent. -/
def Proper (ok : Books C → TcpIngress.World.Act C → Prop) (t : Tunnel C S) : Act C → Prop
  | .near a => ok t.near a
  | .accept i _ _ => ∃ x, t.near.world.wire i = some x
  | .recv i rc => ∀ f, t.far i = some f → ∃ x, t.near.world.wire i = some x ∧
      f.received ++ came rc <+: x.bytes

/-- What has been delivered of a connection. -/
def messages (t : Tunnel C S) (i : Nat) : List Message :=
  match t.far i with
  | none => []
  | some f => f.session.delivered

/-- What has been delivered, connection by connection, in the order in which these were made. -/
def delivered (t : Tunnel C S) : List Message :=
  (List.range t.near.world.wires.length).flatMap t.messages

/-- What is of one channel. -/
def of {α : Type} (c : C) (l : List (C × α)) : List α :=
  l.filterMap fun p ↦ if p.1 = c then some p.2 else none

/-! ## The far end

Each connection is a session of its own.  Its socket may be closed at any time, and after that
nothing more comes in. -/

/-- What has come in has been delivered message by message, but for what the buffer holds, which is
not a whole frame.  The socket may be closed. -/
structure Carried (f : Far S) : Prop where
  valid : ∀ m ∈ f.session.delivered, m.Valid
  split : f.received =
    Message.code.encodeAll f.session.delivered ++ f.session.conn.rx.contents
  partly : decodeMessage f.session.conn.rx.contents = none

theorem carried_create (sock : Nat) (buf : List UInt8) (size : buf.length = sizeofBuf) :
    Carried (⟨[], [], create sock buf size⟩ : Far S) := by
  have h := Connection.buffered_create (S := S) sock buf size
  exact ⟨h.valid, h.split, h.partly⟩

/-- `recv` fails, or gives nothing, and the socket is closed; or it gives something. -/
theorem Carried.handleFd {f : Far S} (h : Carried f) {rc : Recv}
    {r : List Message × Connection S × Bool} (hr : handleFd ops f.session.conn rc = .ok r) :
    Carried ⟨f.received ++ came rc, f.session.delivered ++ r.1, r.2.1⟩ := by
  have hclosed : ∀ fdev, Carried (⟨f.received ++ [], f.session.delivered ++ [],
      { f.session.conn with fdev, sock := none }⟩ : Far S) := by
    intro fdev
    rw [List.append_nil, List.append_nil]
    exact ⟨h.valid, h.split, h.partly⟩
  have hr' := hr
  rw [Connection.handleFd] at hr
  split at hr
  · cases hr
  rename_i sock hsock
  split at hr
  · cases hr
    exact hclosed false
  rename_i chunk
  split at hr
  · rename_i hnil
    cases hr
    rw [came, List.length_eq_zero_iff.mp hnil]
    exact hclosed false
  split at hr
  · rename_i hne hroom
    have hbuffered : Connection.Buffered f.received f.session :=
      ⟨by simp [hsock], h.valid, h.split, h.partly⟩
    have hoffered : Connection.Offered f.session chunk := ⟨by simpa using hne, hroom⟩
    obtain ⟨s', hs', hb⟩ := hbuffered.receive ops hoffered
    rw [Connection.receive, hr'] at hs'
    cases hs'
    exact ⟨hb.valid, hb.split, hb.partly⟩
  · cases hr

/-! ## Runs

The near end runs by itself, and knows nothing of the far end.  So what has been shown of it holds
here too. -/

variable {ok : Books C → TcpIngress.World.Act C → Prop}

omit [DecidableEq C] in
theorem Proper.mono {ok' : Books C → TcpIngress.World.Act C → Prop} {a : Act C}
    (h : ∀ s a, ok s a → ok' s a) (ha : t.Proper ok a) : t.Proper ok' a := by
  cases a with
  | near a => exact h _ a ha
  | accept => exact ha
  | recv => exact ha

/-- The near end does what it would do alone. -/
theorem near_run {maxMem : C → Nat} (h : Run.Reach (step cfg ops) (Proper ok) (init cfg maxMem) t) :
    Run.Reach (Books.step cfg) ok (.init cfg maxMem) t.near := by
  have hnear : ∃ s, Run.Reach (Books.step cfg) ok (.init cfg maxMem) s ∧ t.near = s :=
    h.simulate (R := fun t s ↦ t.near = s) rfl fun t s a t' hnear ha hstep ↦ by
      subst hnear
      cases a with
      | near a =>
        obtain ⟨near, hnear, rfl⟩ := map_ok hstep
        exact ⟨near, Run.Reach.refl.tail ha hnear, rfl⟩
      | accept i sock buf =>
        rw [step] at hstep
        split at hstep <;> cases hstep <;> exact ⟨_, .refl, rfl⟩
      | recv i rc =>
        rw [step] at hstep
        split at hstep
        · cases hstep
          exact ⟨_, .refl, rfl⟩
        · obtain ⟨r, -, rfl⟩ := map_ok hstep
          exact ⟨_, .refl, rfl⟩
  obtain ⟨s, hs, rfl⟩ := hnear
  exact hs

/-- **The invariant.**  What has come in on a connection is a beginning of what was sent on it, and
has been delivered as far as it is whole frames. -/
structure Sound (cfg : Config C) (t : Tunnel C S) : Prop where
  tidy : t.near.world.Tidy
  threaded : t.near.world.Threaded cfg True
  framing : t.near.world.Framing cfg
  far : ∀ i f, t.far i = some f → Carried f ∧
    ∃ x, t.near.world.wire i = some x ∧ f.received <+: x.bytes

theorem sound_init (cfg : Config C) (maxMem : C → Nat) : (init (S := S) cfg maxMem).Sound cfg :=
  ⟨TcpIngress.World.tidy_init cfg _, TcpIngress.World.threaded_init cfg True _,
    TcpIngress.World.framing_init cfg _, fun _ _ h ↦ by cases h⟩

/-- Only one connection of the far end changes. -/
theorem Sound.setFar (h : t.Sound cfg) {i : Nat} {f : Far S} (hf : Carried f)
    (hx : ∃ x, t.near.world.wire i = some x ∧ f.received <+: x.bytes) :
    (t.setFar i f).Sound cfg := by
  refine ⟨h.tidy, h.threaded, h.framing, fun j g hg ↦ ?_⟩
  rw [Tunnel.setFar] at hg
  dsimp only at hg
  by_cases hj : j = i
  · subst hj
    rw [Function.update_self] at hg
    obtain rfl := Option.some.inj hg
    exact ⟨hf, hx⟩
  · rw [Function.update_of_ne hj] at hg
    exact h.far j g hg

/-- **The step lemma.** -/
theorem Sound.step {a : Act C} (h : t.Sound cfg) (ha : t.Proper (Books.Steady cfg) a)
    (hs : t.step cfg ops a = .ok t') : t'.Sound cfg := by
  cases a with
  | near a =>
    obtain ⟨near, hnear, rfl⟩ := map_ok hs
    obtain ⟨hw, -⟩ := Books.step_ok hnear
    refine ⟨h.tidy.step hw, (h.threaded.step h.tidy (.inr trivial) hw).1,
      (h.framing.step h.tidy ha.2 hw).1, fun i f hf ↦ ?_⟩
    obtain ⟨hcarried, x, hx, hreceived⟩ := h.far i f hf
    obtain ⟨x', hx', hbytes⟩ := Books.step_wires h.threaded hnear i x hx
    exact ⟨hcarried, x', hx', hreceived.trans hbytes⟩
  | accept i sock buf =>
    rw [Tunnel.step] at hs
    split at hs <;> cases hs
    · exact h
    · obtain ⟨x, hx⟩ := ha
      exact h.setFar (carried_create ..) ⟨x, hx, List.nil_prefix⟩
  | recv i rc =>
    rw [Tunnel.step] at hs
    split at hs
    · cases hs
      exact h
    · rename_i f hf
      obtain ⟨r, hr, rfl⟩ := map_ok hs
      exact h.setFar ((h.far i f hf).1.handleFd hr) (ha f hf)

theorem sound_of_reach {maxMem : C → Nat}
    (h : Run.Reach (step cfg ops) (Proper (Books.Steady cfg)) (init cfg maxMem) t) : t.Sound cfg :=
  h.invariant (sound_init cfg maxMem) fun _ _ _ ht ha hs ↦ ht.step ha hs

/-! ## What is delivered

The frames on a connection are those of the records that have been taken for it.  What is read of a
beginning of them is a beginning of their messages. -/

/-- What has been taken from the queues for a connection. -/
def takenFor (t : Tunnel C S) (i : Nat) : List (C × Payload) :=
  ((t.near.world.wire i).map (·.taken)).getD []

/-- All there is in a list, by position. -/
theorem flatMap_range {α β : Type} (f : α → List β) (l : List α) :
    l.flatMap f = (List.range l.length).flatMap fun i ↦ (l[i]?.map f).getD [] := by
  induction l with
  | nil => rfl
  | cons a l ih =>
    rw [List.flatMap_cons, ih, List.length_cons, List.range_succ_eq_map, List.flatMap_cons,
      List.flatMap_map]
    rfl

omit [DecidableEq C] in
theorem taken_eq (t : Tunnel C S) : t.near.world.wires.reverse.flatMap (·.taken) =
    (List.range t.near.world.wires.length).flatMap t.takenFor := by
  rw [flatMap_range, List.length_reverse]
  rfl

/-- What has been taken for a connection is delivered or will be. -/
theorem mem_delivered {x : Wire C} (hx : x ∈ t.near.world.wires) {p : C × Payload}
    (hp : p ∈ x.taken) : p.2 ∈ t.near.world.delivered p.1 := by
  refine List.mem_filterMap.mpr ⟨p, ?_, if_pos rfl⟩
  exact List.mem_flatMap.mpr ⟨x, List.mem_reverse.mpr hx, hp⟩

omit [DecidableEq C] in
theorem mem_wires {i : Nat} {x : Wire C} (hx : t.near.world.wire i = some x) :
    x ∈ t.near.world.wires :=
  List.mem_reverse.mp (List.mem_of_getElem? hx)

/-- No record that has been taken, or is in memory, is too long. -/
def Short (t : Tunnel C S) : Prop :=
  ∀ c, ∀ pl ∈ t.near.world.delivered c ++ (t.near.world.chan c).queue.queue, pl.length ≤ 65535

theorem short_of_reach {maxMem : C → Nat}
    (h : Run.Reach (step cfg ops) (Proper (Books.Steady cfg)) (init cfg maxMem) t) : t.Short := by
  have hnear := (near_run h).mono fun _ _ ha ↦ ha.1
  intro c pl hpl
  have hmemory := PayloadQueue.queue_prefix_held (t.near.world.chan c).queue
  obtain ⟨qw, hruns, horderly⟩ := Books.orderly_queue hnear c
  have hsub := (hmemory.sublist.append_left _).trans (hruns.sublist horderly)
  exact Books.short hnear c pl (hsub.subset hpl)

/-- **What is delivered of a connection** is what has been taken for it, as far as it has come
in. -/
theorem Sound.messages_prefix (h : t.Sound cfg) (hshort : t.Short) (i : Nat) :
    t.messages i <+: (t.takenFor i).map cfg.decoded ∧
      ((∀ x, t.near.world.wire i = some x →
          ∃ f, t.far i = some f ∧ f.received = x.bytes) →
        t.messages i = (t.takenFor i).map cfg.decoded) := by
  rw [messages]
  cases hfar : t.far i with
  | none =>
    refine ⟨List.nil_prefix, fun hall ↦ ?_⟩
    rw [takenFor]
    cases hwire : t.near.world.wire i with
    | none => rfl
    | some x =>
      obtain ⟨f, hf, -⟩ := hall x hwire
      cases hf
  | some f =>
    obtain ⟨hcarried, x, hx, u, hu⟩ := h.far i f hfar
    obtain ⟨part, hbytes, hpart⟩ := h.framing.framed x (mem_wires hx)
    have htaken : t.takenFor i = x.taken := by rw [takenFor, hx]; rfl
    have hvalid : ∀ m ∈ x.taken.map cfg.decoded, Message.code.Valid m := by
      intro m hm
      obtain ⟨p, hp, rfl⟩ := List.mem_map.mp hm
      exact valid_decoded (hshort p.1 _ (List.mem_append_left _ (mem_delivered (mem_wires hx) hp)))
    have hpart' : Message.code.Part part := by
      refine hpart.imp_right ?_
      rintro ⟨c, pl, hpl, ⟨rest, hrest⟩, hne⟩
      refine ⟨cfg.decoded (c, pl), rest, valid_decoded (hshort c pl hpl), ?_, ?_⟩
      · rw [hrest, frame_eq_encode]
      · rintro rfl
        exact hne (by rw [← hrest, List.append_nil])
    rw [hcarried.split, hbytes, flatMap_frame] at hu
    obtain ⟨hbeginning, hall⟩ := Message.code.prefix_of_part hcarried.valid hvalid hpart'
      (Message.code_decode_eq_none.mpr hcarried.partly) hu
    rw [htaken]
    refine ⟨hbeginning, fun hcame ↦ (hall ?_).1⟩
    obtain ⟨f', hf', hreceived⟩ := hcame x hx
    cases hf'
    rw [← hreceived, hcarried.split] at hbytes
    have hlen := congrArg List.length hu
    rw [← flatMap_frame, ← hbytes, List.length_append] at hlen
    exact List.length_eq_zero_iff.mp (by omega)

/-- The beginnings of some lists, one after the other. -/
theorem exists_sublist {α β γ : Type} {g : β → γ} {m : α → List γ} {f : α → List β} (l : List α)
    (h : ∀ a ∈ l, m a <+: (f a).map g) :
    ∃ l' : List β, l'.Sublist (l.flatMap f) ∧ l.flatMap m = l'.map g := by
  induction l with
  | nil => exact ⟨[], List.Sublist.refl _, rfl⟩
  | cons a l ih =>
    obtain ⟨l', hsub, hl'⟩ := ih fun b hb ↦ h b (List.mem_cons_of_mem _ hb)
    have htake := List.prefix_iff_eq_take.mp (h a (List.mem_cons_self ..))
    refine ⟨(f a).take (m a).length ++ l', ?_, ?_⟩
    · rw [List.flatMap_cons]
      exact (List.take_sublist ..).append hsub
    · rw [List.flatMap_cons, hl', List.map_append, List.map_take, ← htake]

/-- The messages of a channel, among records with the channels that they are of. -/
theorem of_map (c : C) (l : List (C × Payload)) :
    of c (l.map fun p ↦ (p.1, cfg.decoded p)) = (of c l).map fun pl ↦ cfg.decoded (c, pl) := by
  rw [of, of, List.filterMap_map, List.map_filterMap]
  refine List.filterMap_congr fun p _ ↦ ?_
  dsimp only [Function.comp]
  split
  · rename_i hc
    rw [← hc]
    rfl
  · rfl

/-- **On each connection messages are delivered in order, and on all of them at most once.**  In a
run in which the near end is on time and no peer hangs up in the middle of a frame, each message
that is delivered is of some channel, and those of one channel, connection by connection, are a
subsequence of what was submitted to it: connections may break, files may be read too early or
discarded, and the far end may read in any pieces and lag behind at will. -/
theorem delivered_at_most_once (hsz : 2 ≤ cfg.szClid) {maxMem : C → Nat}
    (h : Run.Reach (step cfg ops) (Proper (Books.Steady cfg)) (init cfg maxMem) t) :
    ∃ l : List (C × Message), t.delivered = l.map Prod.snd ∧
      ∀ c, (of c l).Sublist ((t.near.submitted c).map (cfg.message c)) := by
  have hsound := sound_of_reach h
  have hnear := (near_run h).mono fun _ _ ha ↦ ha.1
  obtain ⟨l, hsub, hl⟩ := exists_sublist (List.range t.near.world.wires.length)
    fun i _ ↦ (hsound.messages_prefix (short_of_reach h) i).1
  refine ⟨l.map fun p ↦ (p.1, cfg.decoded p), ?_, fun c ↦ ?_⟩
  · rw [delivered, hl, List.map_map]
    rfl
  · rw [← taken_eq] at hsub
    have hdelivered : (of c l).Sublist (t.near.world.delivered c) := hsub.filterMap _
    obtain ⟨qw, hruns, horderly⟩ := Books.orderly_queue hnear c
    have hrecords := (hdelivered.trans (List.sublist_append_left ..)).trans
      (hruns.sublist horderly)
    rw [of_map, ← decoded_records hsz]
    exact hrecords.map _

/-- **Nothing is lost.**  If, besides, nothing is spilled to files, and everything that has been
sent has come in, then what has been delivered is all that was submitted, but for what is still in
the queues. -/
theorem delivered_exactly (hsz : 2 ≤ cfg.szClid) {maxMem : C → Nat}
    (h : Run.Reach (step cfg ops) (Proper fun s a ↦ s.Steady cfg a ∧ s.Fits cfg a)
      (init cfg maxMem) t)
    (hcame : ∀ i x, t.near.world.wire i = some x →
      ∃ f, t.far i = some f ∧ f.received = x.bytes) :
    ∃ l : List (C × Message), t.delivered = l.map Prod.snd ∧
      ∀ c, of c l ++ (t.near.world.chan c).queue.queue.map (fun pl ↦ cfg.decoded (c, pl)) =
        (t.near.submitted c).map (cfg.message c) := by
  have hproper : Run.Reach (step cfg ops) (Proper (Books.Steady cfg)) (init cfg maxMem) t :=
    h.mono fun _ _ ha ↦ ha.mono fun _ _ hok ↦ hok.1
  have hsound := sound_of_reach hproper
  have hnear := (near_run h).mono fun _ _ ha ↦ ha.2
  refine ⟨(t.near.world.wires.reverse.flatMap (·.taken)).map fun p ↦ (p.1, cfg.decoded p), ?_,
    fun c ↦ ?_⟩
  · rw [delivered, List.map_map, taken_eq, List.map_flatMap]
    exact List.flatMap_congr fun i _ ↦
      (hsound.messages_prefix (short_of_reach hproper) i).2 (hcame i)
  · have hrecords := congrArg (List.map fun pl ↦ cfg.decoded (c, pl)) (Books.kept_in_memory hnear c)
    rw [List.map_append, decoded_records hsz] at hrecords
    rw [of_map]
    exact hrecords

end Tunnel
end UdpTun
