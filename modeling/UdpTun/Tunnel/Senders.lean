import UdpTun.ClientId.Roll
import UdpTun.Tunnel.Ends

/-!
# The tunnel, with senders of datagrams

What is submitted to the channels is what comes in on the absorbers.  Each datagram goes to all the
channels of its absorber, under the id that the client table has for its sender (`sockReady`).
`Senders` puts the table and its record (`Roll`) in front of both ends of the tunnel (`Ends`).

`submitted_eq` is what the channels are given: what has come in for them, each datagram once and in
order.  With what is known of the tunnel, this says what becomes of the datagrams of a sender on
their way from an absorber to an emitter: `heard_at_most_once`, `heard_exactly`, and `clients_apart`
for the ids.  The first two need what the tunnel needs (`Books.Steady`), and as there, what is
delivered is in order on each connection.  The third needs no more than that the counter of ids has
not come round.

* `roll_run` and `ends_run` take a run apart, and `submitted_eq` is what joins the parts.
-/

set_option autoImplicit false

namespace UdpTun

open TcpIngress (Books)

/-- Something is submitted to a channel. -/
def Ends.Act.submits {C : Type} : Ends.Act C → Bool
  | .near (.submit ..) => true
  | _ => false

/-- The channels of each absorber.  They are a set. -/
structure Sources (A C : Type) where
  channels : A → List C
  nodup : ∀ a, (channels a).Nodup

/-- The client table, and both ends of the tunnel. -/
structure Senders (A C S : Type) where
  roll : Roll A
  ends : Ends C S

namespace Senders

open Tunnel (of)

variable {A C S : Type} [DecidableEq C] {src : Sources A C} {cfg : TcpIngress.Config C}
  {ecfg : TcpEgress.Config S} {r r' : Senders A C S}
  {ok : Books C → TcpIngress.World.Act C → Prop}

/-- What happens next. -/
inductive Act (A C : Type)
  /-- The socket of an absorber is readable, and `recvfrom` gives a datagram, or fails.  The queue
  of each channel reads the clock. -/
  | sockReady (absorber : A) (rc : Option (SocketAddress × List UInt8)) (now : TimePoint)
      (clock : C → Nat)
  /-- The purge timer has gone off. -/
  | onPurge (now : TimePoint)
  | ends (a : Ends.Act C)

def init (cfg : TcpIngress.Config C) (ecfg : TcpEgress.Config S) (maxMem : C → Nat)
    (now : TimePoint) : Senders A C S :=
  ⟨.init now, .init cfg ecfg maxMem now⟩

/-- The number of bits of a `clid_t`. -/
def clidBits (cfg : TcpIngress.Config C) : Nat := 8 * cfg.szClid

/-- The loop over the channels in `sock_ready`. -/
def submitAll (src : Sources A C) (p : Receipt A) (clock : C → Nat) : List (Ends.Act C) :=
  (src.channels p.absorber).map fun c ↦ .near (.submit c p.clid p.data (clock c))

/-- One step. -/
def step (src : Sources A C) (cfg : TcpIngress.Config C) (ecfg : TcpEgress.Config S)
    (r : Senders A C S) : Act A C → Except Halt (Senders A C S)
  | .sockReady _ none _ _ => .ok r
  | .sockReady absorber (some (saddr, buf)) now clock =>
    match r.roll.receive (clidBits cfg) absorber saddr (buf.take absorberBuf) now with
    | .error h => .error h
    | .ok (p, roll) =>
      (Run.exec (Ends.step cfg ecfg) r.ends (submitAll src p clock)).map fun ends ↦ ⟨roll, ends⟩
  | .onPurge now => (r.roll.onPurge now).map fun roll ↦ { r with roll }
  | .ends a => (r.ends.step cfg ecfg a).map fun ends ↦ { r with ends }

/-- What happens to the ends is allowed, and nobody but the absorbers submits anything. -/
def Proper (ok : Books C → TcpIngress.World.Act C → Prop) (src : Sources A C)
    (cfg : TcpIngress.Config C) (ecfg : TcpEgress.Config S) (r : Senders A C S) : Act A C → Prop
  | .sockReady _ none _ _ => True
  | .sockReady absorber (some (saddr, buf)) now clock =>
    ∀ s, r.roll.receive (clidBits cfg) absorber saddr (buf.take absorberBuf) now = .ok s →
      Run.Along (Ends.step cfg ecfg) (Ends.Proper ok ecfg) r.ends (submitAll src s.1 clock)
  | .onPurge _ => True
  | .ends a => a.submits = false ∧ r.ends.Proper ok ecfg a

instance [∀ s, DecidablePred (ok s)] (r : Senders A C S) :
    DecidablePred (r.Proper ok src cfg ecfg)
  | .sockReady _ none _ _ => .isTrue trivial
  | .sockReady _ (some _) _ _ => inferInstanceAs (Decidable (∀ s, _ = Except.ok s → _))
  | .onPurge _ => .isTrue trivial
  | .ends _ => inferInstanceAs (Decidable (_ ∧ _))

/-- There are ids left for new senders. -/
def Room (cfg : TcpIngress.Config C) (r : Senders A C S) : Act A C → Prop
  | .sockReady _ (some (saddr, _)) _ _ => r.roll.table.Room (clidBits cfg) saddr
  | _ => True

instance (r : Senders A C S) : DecidablePred (r.Room cfg)
  | .sockReady _ none _ _ => .isTrue trivial
  | .sockReady _ (some _) _ _ => inferInstanceAs (Decidable (ClientTable.Room ..))
  | .onPurge _ => .isTrue trivial
  | .ends _ => .isTrue trivial

/-- The datagrams that have come in for a channel. -/
def receivedFor (src : Sources A C) (c : C) (notes : List (Note A)) : List (Receipt A) :=
  notes.filterMap fun
    | .received p => if c ∈ src.channels p.absorber then some p else none
    | .dropped .. => none

/-- What a datagram is on the wire. -/
def message (cfg : TcpIngress.Config C) (c : C) (p : Receipt A) : Message :=
  cfg.message c (p.clid, p.data)

/-! ## The parts of a run

A run of the whole is a run of the client table and a run of both ends, so that what is known of
each can be used. -/

/-- A datagram comes in, and is submitted. -/
theorem sockReady_ok {absorber : A} {saddr : SocketAddress} {buf : List UInt8} {now : TimePoint}
    {clock : C → Nat}
    (hs : r.step src cfg ecfg (.sockReady absorber (some (saddr, buf)) now clock) = .ok r') :
    ∃ p, r.roll.receive (clidBits cfg) absorber saddr (buf.take absorberBuf) now =
        .ok (p, r'.roll) ∧
      Run.exec (Ends.step cfg ecfg) r.ends (submitAll src p clock) = .ok r'.ends := by
  rw [step] at hs
  split at hs
  · cases hs
  · rename_i p roll hreceive
    obtain ⟨ends, hends, rfl⟩ := map_ok hs
    exact ⟨p, hreceive, hends⟩

/-- The client table does what it would do alone. -/
theorem roll_run {maxMem : C → Nat} {now : TimePoint}
    (h : Run.Reach (step src cfg ecfg) (Room cfg) (init cfg ecfg maxMem now) r) :
    Run.Reach (Roll.step (clidBits cfg)) (Roll.Room (clidBits cfg)) (.init now) r.roll := by
  have hroll : ∃ s, Run.Reach (Roll.step (clidBits cfg)) (Roll.Room (clidBits cfg)) (.init now) s ∧
      r.roll = s :=
    h.simulate (R := fun r s ↦ r.roll = s) rfl fun r s a r' hroll ha hstep ↦ by
      subst hroll
      match a with
      | .sockReady _ none _ _ =>
        cases hstep
        exact ⟨_, .refl, rfl⟩
      | .sockReady absorber (some (saddr, buf)) now clock =>
        obtain ⟨p, hreceive, -⟩ := sockReady_ok hstep
        refine ⟨_, Run.Reach.refl.tail
          (a := .receive absorber saddr (buf.take absorberBuf) now) ha ?_, rfl⟩
        rw [Roll.step, hreceive]
        rfl
      | .onPurge now =>
        obtain ⟨roll, hpurge, rfl⟩ := map_ok hstep
        exact ⟨roll, Run.Reach.refl.tail (a := .onPurge now) trivial hpurge, rfl⟩
      | .ends a =>
        obtain ⟨ends, -, rfl⟩ := map_ok hstep
        exact ⟨_, .refl, rfl⟩
  obtain ⟨s, hs, rfl⟩ := hroll
  exact hs

/-- Both ends do what they would do alone. -/
theorem ends_run {maxMem : C → Nat} {now : TimePoint}
    (h : Run.Reach (step src cfg ecfg) (Proper ok src cfg ecfg) (init cfg ecfg maxMem now) r) :
    Run.Reach (Ends.step cfg ecfg) (Ends.Proper ok ecfg) (.init cfg ecfg maxMem now) r.ends := by
  have hends : ∃ s, Run.Reach (Ends.step cfg ecfg) (Ends.Proper ok ecfg)
      (.init cfg ecfg maxMem now) s ∧ r.ends = s :=
    h.simulate (R := fun r s ↦ r.ends = s) rfl fun r s a r' hends ha hstep ↦ by
      subst hends
      match a with
      | .sockReady _ none _ _ =>
        cases hstep
        exact ⟨_, .refl, rfl⟩
      | .sockReady absorber (some (saddr, buf)) now clock =>
        obtain ⟨p, hreceive, hexec⟩ := sockReady_ok hstep
        exact ⟨_, Run.reach_of_exec hexec (ha _ hreceive), rfl⟩
      | .onPurge now =>
        obtain ⟨roll, -, rfl⟩ := map_ok hstep
        exact ⟨_, .refl, rfl⟩
      | .ends a =>
        obtain ⟨ends, hends, rfl⟩ := map_ok hstep
        exact ⟨ends, Run.Reach.refl.tail ha.2 hends, rfl⟩
  obtain ⟨s, hs, rfl⟩ := hends
  exact hs

/-! ## What is submitted

The loop in `sock_ready` goes through the channels of the absorber, and each is given the datagram
once. -/

/-- What is submitted to the channels of a list. -/
theorem submitted_exec {p : Receipt A} {clock : C → Nat} {l : List C} (hl : l.Nodup)
    {e e' : Ends C S} (h : Run.exec (Ends.step cfg ecfg) e
      (l.map fun c ↦ .near (.submit c p.clid p.data (clock c))) = .ok e') (c : C) :
    e'.near.submitted c = e.near.submitted c ++ if c ∈ l then [(p.clid, p.data)] else [] := by
  induction l generalizing e with
  | nil =>
    cases h
    simp
  | cons c₁ l ih =>
    obtain ⟨hnew, hl⟩ := List.nodup_cons.mp hl
    rw [List.map_cons, Run.exec] at h
    split at h
    · rename_i e₁ hstep
      rw [Ends.step] at hstep
      obtain ⟨near, hnear, rfl⟩ := map_ok hstep
      rw [ih hl h]
      obtain ⟨-, ⟨c₂, clid, data, now, heq, hsubmitted, -⟩ | ⟨hno, -⟩⟩ := Books.step_ok hnear
      · cases heq
        dsimp only
        rw [hsubmitted]
        by_cases hc : c = c₁
        · subst hc
          simp [hnew]
        · simp [hc]
      · exact absurd rfl (hno c₁ p.clid p.data (clock c₁))
    · cases h

/-- Nothing else is submitted. -/
theorem submitted_ends {e e' : Ends C S} {a : Ends.Act C} (ha : a.submits = false)
    (h : e.step cfg ecfg a = .ok e') : e'.near.submitted = e.near.submitted := by
  cases a with
  | near a =>
    obtain ⟨near, hnear, rfl⟩ := map_ok h
    obtain ⟨-, ⟨c, clid, data, now, rfl, -⟩ | ⟨-, hsubmitted, -⟩⟩ := Books.step_ok hnear
    · cases ha
    · exact hsubmitted
  | far a i =>
    obtain ⟨egress, -, rfl⟩ := map_ok h
    rw [Ends.note_near]

theorem receivedFor_append (src : Sources A C) (c : C) (l l' : List (Note A)) :
    receivedFor src c (l ++ l') = receivedFor src c l ++ receivedFor src c l' :=
  List.filterMap_append

theorem receivedFor_dropped (src : Sources A C) (c : C) (l : List (Nat × SocketAddress)) :
    receivedFor src c (l.map fun p ↦ .dropped p.1 p.2) = [] := by
  simp [receivedFor]

/-- **What the channels are given** is what has come in for them, each datagram once, in order, and
under the id of its sender. -/
theorem submitted_eq {maxMem : C → Nat} {now : TimePoint}
    (h : Run.Reach (step src cfg ecfg) (Proper ok src cfg ecfg) (init cfg ecfg maxMem now) r)
    (c : C) : r.ends.near.submitted c =
      (receivedFor src c r.roll.notes).map fun p ↦ (p.clid, p.data) := by
  refine h.invariant (I := fun r : Senders A C S ↦ r.ends.near.submitted c =
    (receivedFor src c r.roll.notes).map fun p ↦ (p.clid, p.data)) rfl fun r a r' hr ha hs ↦ ?_
  match a with
  | .sockReady _ none _ _ =>
    cases hs
    exact hr
  | .sockReady absorber (some (saddr, buf)) now clock =>
    obtain ⟨p, hreceive, hexec⟩ := sockReady_ok hs
    obtain ⟨s, -, heq⟩ := map_ok hreceive
    obtain ⟨hp, hroll⟩ := Prod.mk.inj heq
    rw [submitted_exec (src.nodup _) hexec, hr, ← hroll, hp, receivedFor_append, List.map_append]
    congr 1
    show _ = ((if c ∈ src.channels p.absorber then some p else none).toList.map _)
    split <;> rfl
  | .onPurge now =>
    obtain ⟨roll, hpurge, rfl⟩ := map_ok hs
    obtain ⟨t, -, rfl⟩ := map_ok hpurge
    dsimp only
    rw [receivedFor_append, receivedFor_dropped, List.append_nil]
    exact hr
  | .ends a =>
    obtain ⟨ends, hends, rfl⟩ := map_ok hs
    dsimp only
    rw [submitted_ends ha.1 hends]
    exact hr

/-! ## What becomes of datagrams

What is delivered is traced back through the tunnel to what was submitted, and from there to what
came in on an absorber. -/

theorem of_cons {α : Type} (c : C) (x : C × α) (l : List (C × α)) :
    of c (x :: l) = if x.1 = c then x.2 :: of c l else of c l := by
  rw [of, List.filterMap_cons]
  split_ifs <;> rfl

/-- What is known of the parts of a list, put together. -/
theorem exists_trace {α β : Type} {g : C → α → β} {l : List (C × β)} {m : C → List α}
    (h : ∀ c, of c l = (m c).map (g c)) :
    ∃ l' : List (C × α), l = l'.map (fun x ↦ (x.1, g x.1 x.2)) ∧ ∀ c, of c l' = m c := by
  induction l generalizing m with
  | nil => exact ⟨[], rfl, fun c ↦ (List.map_eq_nil_iff.mp (h c).symm).symm⟩
  | cons x l ih =>
    obtain ⟨c, b⟩ := x
    have hc := h c
    rw [of_cons, if_pos rfl] at hc
    obtain ⟨a, rest, hm, rfl, hrest⟩ := List.map_eq_cons_iff.mp hc.symm
    obtain ⟨l', rfl, hl'⟩ := ih (m := Function.update m c rest) fun d ↦ by
      by_cases hd : d = c
      · subst hd
        rw [Function.update_self, hrest]
      · have hother := h d
        rw [of_cons, if_neg (Ne.symm hd)] at hother
        rw [Function.update_of_ne hd, hother]
    refine ⟨(c, a) :: l', rfl, fun d ↦ ?_⟩
    rw [of_cons, hl']
    by_cases hd : d = c
    · subst hd
      rw [if_pos rfl, Function.update_self, hm]
    · rw [if_neg (Ne.symm hd), Function.update_of_ne hd]

/-- **What comes out at an emitter came in on an absorber.**  In every run in which the near end is
on time and no peer hangs up in the middle of a frame, each message that the egress has delivered is
a datagram that has come in for some channel, under the id that its sender had; and those of one
channel, connection by connection, are in the order in which they came in, and none comes twice. -/
theorem heard_at_most_once (hsz : 2 ≤ cfg.szClid) {maxMem : C → Nat} {now : TimePoint}
    (h : Run.Reach (step src cfg ecfg) (Proper (Books.Steady cfg) src cfg ecfg)
      (init cfg ecfg maxMem now) r) :
    ∃ l : List (C × Receipt A), r.ends.delivered = l.map (fun x ↦ message cfg x.1 x.2) ∧
      ∀ c, (of c l).Sublist (receivedFor src c r.roll.notes) := by
  obtain ⟨t, ht, hmatches⟩ := Ends.refines (ecfg.ops now) (ends_run h)
  obtain ⟨l, hl, hsub⟩ := Tunnel.delivered_at_most_once hsz ht
  rw [hmatches.delivered] at hl
  have hparts : ∀ c, ∃ m : List (Receipt A), m.Sublist (receivedFor src c r.roll.notes) ∧
      of c l = m.map (message cfg c) := by
    intro c
    have hc := hsub c
    rw [hmatches.near, submitted_eq h, List.map_map] at hc
    exact List.sublist_map_iff.mp hc
  choose m hm hof using hparts
  obtain ⟨l', rfl, hl'⟩ := exists_trace hof
  refine ⟨l', by rw [hl, List.map_map]; rfl, fun c ↦ ?_⟩
  rw [hl']
  exact hm c

/-- One absorber, and one channel. -/
def oneSocket : Sources Unit Unit := ⟨fun _ ↦ [()], fun _ ↦ List.nodup_singleton ()⟩

/-- Two senders send a datagram each.  `recvfrom` fails in between. -/
def twoSenders : List (Act Unit Unit) :=
  [.sockReady () (some (.inet 1 5000, [1])) 0 fun _ ↦ 0, .sockReady () none 0 fun _ ↦ 0,
    .sockReady () (some (.inet 2 5000, [2])) 0 fun _ ↦ 0]

/-- The first datagram is sent. -/
def firstSent : List (TcpIngress.World.Act Unit) :=
  [.poll 0 false none, .notify (.queueEvent ()) {}] ++ TcpIngress.World.firstConnection ++
    [.poll 2 false (some { epollout := true }), .notify .fdev { sends := [.sent 7] }]

/-- So is the second. -/
def secondSent : List (TcpIngress.World.Act Unit) :=
  [.poll 3 false none, .notify (.queueEvent ()) { now := 3 },
    .poll 4 false (some { epollout := true }), .notify .fdev { sends := [.sent 7] }]

/-- The connection is accepted, and there is something to read on it. -/
def readable : List (TcpEgress.Egress.Act × Option Nat) :=
  (TcpEgress.Egress.knock.map fun a ↦ (a, none)) ++
    [(.notify (.listenFd 0) { accepts := [.accepted 7 true] }, some 0),
      (.poll 2 [.descriptor (.connFd 1) { epollin := true }], none)]

/-- Both come in, in two pieces. -/
def bothHeard : List (TcpEgress.Egress.Act × Option Nat) :=
  readable ++ [(.notify (.connFd 1) { recv := .bytes [0, 0, 0, 7, 0, 1, 1, 0, 1] }, none),
    (.poll 3 [.descriptor (.connFd 1) { epollin := true }], none),
    (.notify (.connFd 1) { recv := .bytes [0, 7, 0, 1, 2] }, none)]

theorem heard_at_most_once_two : ∃ r : Senders Unit Unit Unit,
    r.ends.delivered = [⟨0, 7, [1]⟩, ⟨1, 7, [2]⟩] ∧
    ∃ l : List (Unit × Receipt Unit),
      r.ends.delivered = l.map (fun x ↦ message TcpIngress.World.oneChannel x.1 x.2) ∧
      ∀ c, (of c l).Sublist (receivedFor oneSocket c r.roll.notes) := by
  have hrun : Run.Checks
      (step oneSocket TcpIngress.World.oneChannel TcpEgress.Egress.oneMinute)
      (Proper (Books.Steady TcpIngress.World.oneChannel) oneSocket TcpIngress.World.oneChannel
        TcpEgress.Egress.oneMinute)
      (init TcpIngress.World.oneChannel TcpEgress.Egress.oneMinute (fun _ ↦ Channel.queueMem) 0)
      (twoSenders ++ ((firstSent ++ secondSent).map fun a ↦ .ends (.near a)) ++
        bothHeard.map fun p ↦ .ends (.far p.1 p.2))
      fun r ↦ r.ends.delivered = [⟨0, 7, [1]⟩, ⟨1, 7, [2]⟩] := by decide +kernel
  obtain ⟨r, hreach, hdelivered⟩ := hrun.reach
  exact ⟨r, hdelivered, heard_at_most_once (by decide) hreach⟩

/-- **Nothing that comes in is lost**, if besides nothing is spilled to files and everything that
has been sent has come in at the egress: of each channel, what has been delivered on the
connections, one after the other, is all that has come in for it, but for what is still in its
queue. -/
theorem heard_exactly (hsz : 2 ≤ cfg.szClid) {maxMem : C → Nat} {now : TimePoint}
    (h : Run.Reach (step src cfg ecfg)
      (Proper (fun s a ↦ s.Steady cfg a ∧ s.Fits cfg a) src cfg ecfg)
      (init cfg ecfg maxMem now) r)
    (hcame : ∀ i x, r.ends.near.world.wire i = some x →
      ∃ d, r.ends.heard i = some d ∧ d.received = x.bytes) :
    ∃ l : List (C × Receipt A), r.ends.delivered = l.map (fun x ↦ message cfg x.1 x.2) ∧
      ∀ c, ∃ rest, receivedFor src c r.roll.notes = of c l ++ rest ∧
        rest.map (message cfg c) =
          (r.ends.near.world.chan c).queue.queue.map fun pl ↦ cfg.decoded (c, pl) := by
  obtain ⟨t, ht, hmatches⟩ := Ends.refines (ecfg.ops now) (ends_run h)
  obtain ⟨l, hl, hall⟩ := Tunnel.delivered_exactly hsz ht (hmatches.received hcame)
  rw [hmatches.delivered] at hl
  have hparts : ∀ c, ∃ m rest, receivedFor src c r.roll.notes = m ++ rest ∧
      of c l = m.map (message cfg c) ∧ rest.map (message cfg c) =
        (r.ends.near.world.chan c).queue.queue.map fun pl ↦ cfg.decoded (c, pl) := by
    intro c
    have hc := hall c
    rw [hmatches.near, submitted_eq h, List.map_map] at hc
    obtain ⟨m, rest, hreceived, hm, hrest⟩ := List.append_eq_map_iff.mp hc
    exact ⟨m, rest, hreceived, hm.symm, hrest⟩
  choose m rest hreceived hof hrest using hparts
  obtain ⟨l', rfl, hl'⟩ := exists_trace hof
  refine ⟨l', by rw [hl, List.map_map]; rfl, fun c ↦ ⟨rest c, ?_, hrest c⟩⟩
  rw [hl']
  exact hreceived c

/-- The first comes in; the second is in the queue. -/
def firstHeard : List (TcpEgress.Egress.Act × Option Nat) :=
  readable ++ [(.notify (.connFd 1) { recv := .bytes [0, 0, 0, 7, 0, 1, 1] }, none)]

theorem heard_exactly_one : ∃ r : Senders Unit Unit Unit,
    r.ends.delivered = [⟨0, 7, [1]⟩] ∧ r.roll.notes.length = 2 ∧
    ∃ l : List (Unit × Receipt Unit),
      r.ends.delivered = l.map (fun x ↦ message TcpIngress.World.oneChannel x.1 x.2) ∧
      ∀ c, ∃ rest, receivedFor oneSocket c r.roll.notes = of c l ++ rest ∧
        rest.map (message TcpIngress.World.oneChannel c) =
          (r.ends.near.world.chan c).queue.queue.map
            fun pl ↦ TcpIngress.World.oneChannel.decoded (c, pl) := by
  have hrun : Run.Checks
      (step oneSocket TcpIngress.World.oneChannel TcpEgress.Egress.oneMinute)
      (Proper (fun s a ↦ s.Steady TcpIngress.World.oneChannel a ∧
        s.Fits TcpIngress.World.oneChannel a) oneSocket TcpIngress.World.oneChannel
        TcpEgress.Egress.oneMinute)
      (init TcpIngress.World.oneChannel TcpEgress.Egress.oneMinute (fun _ ↦ Channel.queueMem) 0)
      (twoSenders ++ (firstSent.map fun a ↦ .ends (.near a)) ++
        firstHeard.map fun p ↦ .ends (.far p.1 p.2))
      fun r ↦ r.ends.delivered = [⟨0, 7, [1]⟩] ∧ r.roll.notes.length = 2 ∧
        r.ends.near.world.wires.length = 1 ∧
          (r.ends.heard 0).map (·.received) = (r.ends.near.world.wire 0).map (·.bytes) := by
    decide +kernel
  obtain ⟨r, hreach, hdelivered, hnotes, hone, hcame⟩ := hrun.reach
  refine ⟨r, hdelivered, hnotes, heard_exactly (by decide) hreach fun i x hx ↦ ?_⟩
  -- there is one connection
  obtain ⟨hi, -⟩ := List.getElem?_eq_some_iff.mp hx
  rw [List.length_reverse, hone] at hi
  obtain rfl : i = 0 := by omega
  rw [hx, Option.map_some] at hcame
  exact Option.map_eq_some_iff.mp hcame

/-- **Who is who at the far end.**  Of any two datagrams that have come in before the counter of ids
has come round: if their senders are not the same, but their ids on the wire are, then their ids in
the table are `2 ^ 16` or more apart, and more ids than that have been given out; and if their
sender is the same, but its ids are not, then something has been dropped in between. -/
theorem clients_apart {maxMem : C → Nat} {now : TimePoint}
    (h : Run.Reach (step src cfg ecfg) (Room cfg) (init cfg ecfg maxMem now) r)
    {p q : Receipt A} {l l' l'' : List (Note A)}
    (hnotes : r.roll.notes = l ++ .received p :: (l' ++ .received q :: l'')) :
    (p.sender ≠ q.sender → wireClid p.clid = wireClid q.clid →
        (p.clid + 65536 ≤ q.clid ∨ q.clid + 65536 ≤ p.clid) ∧ 65536 < r.roll.table.nextId) ∧
      (p.sender = q.sender → p.clid ≠ q.clid → ∃ i a, .dropped i a ∈ l') := by
  have hkept := Roll.kept_of_reach (roll_run h)
  have hapart := hkept.apart l p l' q l'' hnotes
  have hp := hkept.given p (by simp [hnotes])
  have hq := hkept.given q (by simp [hnotes])
  refine ⟨fun hne hwire ↦ ?_, hapart.kept⟩
  have hclid : p.clid ≠ q.clid := fun heq ↦ hne (hapart.owner heq)
  rw [wireClid_eq, wireClid_eq, Option.some_inj] at hwire
  omega

/-- The first sender falls silent, and its entry is dropped.  The purge takes the address of the
second from `rev`, and the second has a new id from then on. -/
def oneLeaves : List (Act Unit Unit) :=
  twoSenders ++ [.onPurge 10, .sockReady () (some (.inet 2 5000, [3])) 11 fun _ ↦ 11, .onPurge 20,
    .sockReady () (some (.inet 2 5000, [4])) 21 fun _ ↦ 21]

theorem clients_apart_new_id : ∃ r : Senders Unit Unit Unit,
    ∃ (l l' l'' : List (Note Unit)) (p q : Receipt Unit),
      r.roll.notes = l ++ .received p :: (l' ++ .received q :: l'') ∧
      p.sender = q.sender ∧ p.clid ≠ q.clid ∧
      (p.sender ≠ q.sender → wireClid p.clid = wireClid q.clid →
          (p.clid + 65536 ≤ q.clid ∨ q.clid + 65536 ≤ p.clid) ∧ 65536 < r.roll.table.nextId) ∧
        (p.sender = q.sender → p.clid ≠ q.clid → ∃ i a, .dropped i a ∈ l') := by
  have hrun : Run.Checks
      (step oneSocket TcpIngress.World.oneChannel TcpEgress.Egress.oneMinute)
      (Room TcpIngress.World.oneChannel)
      (init TcpIngress.World.oneChannel TcpEgress.Egress.oneMinute (fun _ ↦ Channel.queueMem) 0)
      oneLeaves fun r : Senders Unit Unit Unit ↦ r.roll.notes =
        [.received ⟨(), .inet 1 5000, 0, [1]⟩] ++ .received ⟨(), .inet 2 5000, 1, [2]⟩ ::
          ([.received ⟨(), .inet 2 5000, 1, [3]⟩, .dropped 0 (.inet 1 5000)] ++
            .received ⟨(), .inet 2 5000, 2, [4]⟩ :: []) := by decide +kernel
  obtain ⟨r, hreach, hnotes⟩ := hrun.reach
  exact ⟨r, _, _, _, _, _, hnotes, rfl, by decide, clients_apart hreach hnotes⟩

end Senders
end UdpTun
