import UdpTun.Channels.Framing
import UdpTun.Queues.Order
import UdpTun.TcpIngress.Frames

/-!
# Records from submission to connection

The ingress and its channels are all that reads the queues of the channels, and what they do to a
queue is no more than its operations: a peek when a frame is described, and a `consume` and a poke
when one is complete.  `Serves` says so of a step.  So a run of an ingress is, for each of its
channels, a run of a queue, and what is handed out in that is what is delivered on connections
(`queue_run`).

`Books` is the ingress with an account of what has been submitted.  `delivered_in_order` says of any
run, however connections break, that what has been delivered of a channel is a subsequence of what
was submitted to it.

* `Operated` is one queue going through some operations but pushes, and `Serves` is that of all of
  them in a step.
* `Runs` is the relation between an account of submissions and a run of a queue.
* `queue_run`, `kept_in_memory` and `delivered_in_order` are the results.
-/

set_option autoImplicit false

namespace UdpTun

/-- Every operation but a push. -/
def PayloadQueue.World.Quiet (_ : World) : Op → Prop
  | .push .. => False
  | _ => True

namespace PayloadQueue.World

variable {w w' : World}

/-- Only a push adds to what has been pushed, or names a file. -/
theorem quiet_run (h : Run.Reach step Quiet w w') :
    w'.pushed = w.pushed ∧ w'.lastKey = w.lastKey := by
  refine h.invariant (I := fun u ↦ u.pushed = w.pushed ∧ u.lastKey = w.lastKey) ⟨rfl, rfl⟩
    fun u op u' hu hop hs ↦ ?_
  cases op with
  | push arr now => exact hop.elim
  | discard =>
    obtain ⟨r, -, rfl⟩ := map_ok hs
    exact hu
  | peek | consume | poke | flush n =>
    cases hs
    exact hu

/-- Nothing but a push has to be regular. -/
theorem regular_of_quiet (w : World) {op : Op} (h : w.Quiet op) : w.Regular op := by
  cases op with
  | push arr now => exact h.elim
  | peek | consume | poke | flush n | discard => trivial

theorem fits_of_quiet (w : World) {op : Op} (h : w.Quiet op) : w.Fits op := by
  cases op with
  | push arr now => exact h.elim
  | peek | consume | poke | flush n | discard => trivial

end PayloadQueue.World

namespace TcpIngress
namespace World

variable {C : Type} [DecidableEq C] {cfg : Config C} {w w' w'' : World C} {c : C} {io : Io}

/-! ## One step

Each step is broken down into operations of queues.  What is consumed is the same as what is
delivered on the connection. -/

/-- A queue has been operated on, but nothing was pushed, and what was consumed is `sent`. -/
def Operated (q : PayloadQueue) (sent : List Payload) (q' : PayloadQueue) : Prop :=
  ∀ qw : PayloadQueue.World, qw.q = q → ∃ qw',
    Run.Reach PayloadQueue.World.step PayloadQueue.World.Quiet qw qw' ∧ qw'.q = q' ∧
      qw'.delivered = qw.delivered ++ sent

theorem operated_refl (q : PayloadQueue) : Operated q [] q :=
  fun qw hq ↦ ⟨qw, .refl, hq, (List.append_nil _).symm⟩

theorem Operated.trans {q q' q'' : PayloadQueue} {sent sent' : List Payload}
    (h : Operated q sent q') (h' : Operated q' sent' q'') :
    Operated q (sent ++ sent') q'' := by
  intro qw hq
  obtain ⟨qw', hreach, hq', hsent⟩ := h qw hq
  obtain ⟨qw'', hreach', hq'', hsent'⟩ := h' qw' hq'
  exact ⟨qw'', hreach.trans hreach', hq'', by rw [hsent', hsent, List.append_assoc]⟩

/-- One operation. -/
theorem operated_one {q q' : PayloadQueue} {sent : List Payload} (op : PayloadQueue.Op)
    (h : ∀ qw : PayloadQueue.World, qw.q = q → qw.Quiet op ∧ ∃ qw', qw.step op = .ok qw' ∧
      qw'.q = q' ∧ qw'.delivered = qw.delivered ++ sent) : Operated q sent q' := by
  intro qw hq
  obtain ⟨hop, qw', hstep, hq', hsent⟩ := h qw hq
  exact ⟨qw', Run.Reach.refl.tail hop hstep, hq', hsent⟩

theorem operated_peek (q : PayloadQueue) : Operated q [] q.peek.2.1 :=
  operated_one .peek fun _ hq ↦
    ⟨trivial, _, rfl, congrArg (·.peek.2.1) hq, (List.append_nil _).symm⟩

theorem operated_poke (q : PayloadQueue) : Operated q [] q.poke.1 :=
  operated_one .poke fun _ hq ↦
    ⟨trivial, _, rfl, congrArg (·.poke.1) hq, (List.append_nil _).symm⟩

theorem operated_flush (q : PayloadQueue) (n : Nat) : Operated q [] (q.flush n) :=
  operated_one (.flush n) fun _ hq ↦
    ⟨trivial, _, rfl, congrArg (·.flush n) hq, (List.append_nil _).symm⟩

theorem operated_consume (q : PayloadQueue) : Operated q q.consume.1.toList q.consume.2 :=
  operated_one .consume fun qw hq ↦ ⟨trivial, _, rfl, congrArg (·.consume.2) hq,
    congrArg (fun q ↦ qw.delivered ++ q.consume.1.toList) hq⟩

theorem operated_discard {q q' : PayloadQueue} {l : List PayloadQueue.Call}
    (h : q.discardFile = .ok (q', l)) : Operated q [] q' := by
  refine operated_one .discard fun qw hq ↦ ⟨trivial, ?_⟩
  simp only [PayloadQueue.World.step, hq, h, Except.map]
  exact ⟨_, rfl, rfl, (List.append_nil _).symm⟩

/-- The connection that was made as number `i`. -/
def wire (w : World C) (i : Nat) : Option (Wire C) := w.wires.reverse[i]?

/-- Each queue has been operated on, and what was consumed is what has been delivered; and what has
been sent on a connection has been. -/
structure Serves (w w' : World C) : Prop where
  queues : ∀ c, ∃ sent, Operated (w.chan c).queue sent (w'.chan c).queue ∧
    w'.delivered c = w.delivered c ++ sent
  wires : ∀ i x, w.wire i = some x → ∃ x', w'.wire i = some x' ∧ x.bytes <+: x'.bytes

theorem Serves.trans (h : Serves w w') (h' : Serves w' w'') : Serves w w'' := by
  refine ⟨fun c ↦ ?_, fun i x hx ↦ ?_⟩
  · obtain ⟨sent, hqueue, hsent⟩ := h.queues c
    obtain ⟨sent', hqueue', hsent'⟩ := h'.queues c
    exact ⟨sent ++ sent', hqueue.trans hqueue', by rw [hsent', hsent, List.append_assoc]⟩
  · obtain ⟨x', hx', hbytes⟩ := h.wires i x hx
    obtain ⟨x'', hx'', hbytes'⟩ := h'.wires i x' hx'
    exact ⟨x'', hx'', hbytes.trans hbytes'⟩

omit [DecidableEq C] in
theorem wires_of_eq (hwires : w'.wires = w.wires) (i : Nat) (x : Wire C)
    (hx : w.wire i = some x) : ∃ x', w'.wire i = some x' ∧ x.bytes <+: x'.bytes :=
  ⟨x, by rw [wire, hwires]; exact hx, List.prefix_rfl⟩

/-- Nothing is delivered, and the queues are the same. -/
theorem serves_of_eq (hchan : w'.chan = w.chan) (hwires : w'.wires = w.wires) : Serves w w' := by
  refine ⟨fun c ↦ ⟨[], ?_, ?_⟩, wires_of_eq hwires⟩
  · rw [hchan]
    exact operated_refl _
  · rw [delivered, hwires, List.append_nil]
    rfl

/-- One queue is operated on. -/
theorem serves_update {ch : Channel} (l : List PayloadQueue.Call)
    (h : Operated (w.chan c).queue [] ch.queue) : Serves w (w.update c ch l) := by
  obtain ⟨-, -, hwires⟩ := update_streamers w c ch l
  refine ⟨fun c' ↦ ⟨[], ?_, by rw [delivered, hwires, List.append_nil]; rfl⟩, wires_of_eq hwires⟩
  exact update_forall (P := fun c' d ↦ Operated (w.chan c').queue [] d.queue) h
    (fun _ _ ↦ operated_refl _) c'

omit [DecidableEq C] in
/-- More is sent on the last connection. -/
theorem wires_extend {x x' : Wire C} {past : List (Wire C)} (hwires : w.wires = x :: past)
    (hwires' : w'.wires = x' :: past) (hbytes : x.bytes <+: x'.bytes) (i : Nat) (y : Wire C)
    (hy : w.wire i = some y) : ∃ y', w'.wire i = some y' ∧ y.bytes <+: y'.bytes := by
  rw [wire, hwires, List.reverse_cons, List.getElem?_append] at hy
  rw [wire, hwires', List.reverse_cons, List.getElem?_append]
  split at hy
  · rename_i hlt
    rw [if_pos hlt]
    exact ⟨y, hy, List.prefix_rfl⟩
  · rename_i hge
    rw [if_neg hge]
    rw [List.getElem?_singleton] at hy ⊢
    split at hy
    · rename_i hi
      cases hy
      rw [if_pos hi]
      exact ⟨x', rfl, hbytes⟩
    · cases hy

/-! ## Sending

The operations of a turn are a peek, and then a `consume` and a poke if the frame has become whole.
-/

/-- A description is a peek at most. -/
theorem operated_describe {ch ch' : Channel} {szClid : Nat} {some' : Bool} {iov : Iov}
    {l : List PayloadQueue.Call} (h : ch.describe szClid [] = .ok (some', iov, ch', l)) :
    Operated ch.queue [] ch'.queue := by
  have hfetch : Operated ch.queue [] ch.fetch.1.queue := by
    rcases ch.fetch_cases with ⟨pl, -, hf⟩ | ⟨-, -, hf⟩ | ⟨-, pl, -, hf⟩ <;> rw [hf]
    · exact operated_refl _
    · exact operated_peek _
    · exact operated_peek _
  rcases Channel.describe_ok h with ⟨-, hf, -⟩ | ⟨-, c₁, pl, hf, -, hcurrent⟩ <;> rw [hf] at hfetch
  · exact hfetch
  · obtain ⟨-, -, -, hqueue, -⟩ := Channel.describeCurrent_ok hcurrent
    rw [hqueue]
    exact hfetch

/-- A complete frame is consumed, and the queue poked. -/
theorem operated_consumed {ch ch' : Channel} {szClid n : Nat} {allDone : Bool}
    {l : List PayloadQueue.Call} (h : ch.consumed szClid n = .ok (allDone, ch', l)) :
    Operated ch.queue (if allDone then ch.queue.consume.1.toList else []) ch'.queue := by
  obtain ⟨pl, -, ⟨rfl, -, rfl, -⟩ | ⟨rfl, -, rfl, -⟩⟩ := Channel.consumed_ok h
  · rw [if_pos rfl, ← List.append_nil ch.queue.consume.1.toList]
    exact (operated_consume _).trans (operated_poke _)
  · exact operated_refl _

/-- What is sent is sent on the last connection. -/
theorem sourceSent_serves {bytes : List UInt8} (hwires : w.wires ≠ [])
    (h : w.sourceSent cfg c bytes = .ok w') : Serves w w' := by
  obtain ⟨allDone, ch, l, hconsumed, w₁, hw₁, rfl⟩ := sourceSent_ok h
  obtain ⟨wire, past, hw⟩ := List.exists_cons_of_ne_nil hwires
  rw [hw] at hw₁
  dsimp only at hw₁
  have hqueue := operated_consumed hconsumed
  have hlast : (w₁.update c ch l).wires =
      ⟨wire.bytes ++ bytes, wire.taken ++ (if allDone then (w.chan c).queue.consume.1.toList
        else []).map (c, ·)⟩ :: past := by
    rw [(update_streamers ..).2.2, hw₁]
    cases allDone <;> cases (w.chan c).queue.consume.1 <;> rfl
  have hserves : Serves w (w₁.update c ch l) := by
    refine ⟨fun c' ↦ ?_, wires_extend hw hlast (List.prefix_append ..)⟩
    have hdelivered := delivered_extend hw hlast rfl c'
    by_cases hc : c = c'
    · subst hc
      rw [if_pos rfl] at hdelivered
      rw [update_self]
      exact ⟨_, hqueue, hdelivered⟩
    · rw [if_neg hc] at hdelivered
      refine ⟨[], ?_, hdelivered⟩
      rw [update_of_ne _ _ _ (Ne.symm hc), hw₁]
      exact operated_refl _
  split
  · exact hserves.trans (serves_of_eq rfl rfl)
  · exact hserves

theorem setFdev_serves {events : Mask} (h : w.setFdev events = .ok w') : Serves w w' := by
  obtain ⟨fd, s', -, rfl, -⟩ := setFdev_ok h
  exact serves_of_eq rfl rfl

theorem clearSocket_serves (h : w.clearSocket = .ok w') : Serves w w' := by
  obtain ⟨s', rfl, -⟩ := clearSocket_ok h
  exact serves_of_eq rfl rfl

theorem sourceBlocked_serves (horder : (w.chan c).InOrder cfg.szClid)
    (h : w.sourceBlocked cfg c = .ok w') : Serves w w' := by
  obtain ⟨allDone, ch, l, hconsumed, hset⟩ := sourceBlocked_ok h
  obtain rfl := horder.consumed_zero hconsumed
  exact (serves_update l (operated_refl _)).trans (setFdev_serves hset)

theorem sourceFailed_serves {now : TimePoint} (h : w.sourceFailed c now = .ok w') :
    Serves w w' := by
  obtain ⟨w₁, hclear, rfl⟩ := sourceFailed_ok h
  have hfirst : Serves w (w.update c (w.chan c).failed []) := serves_update [] (operated_refl _)
  exact (hfirst.trans (clearSocket_serves hclear)).trans (serves_of_eq rfl rfl)

/-- A turn of the loop. -/
theorem sendTurn_serves {now : TimePoint} {r : SendResult} {again : Bool}
    (hwires : w.wires ≠ []) (horder : ∀ c, (w.chan c).InOrder cfg.szClid)
    (h : w.sendTurn cfg now r = .ok (w', again)) : Serves w w' := by
  obtain ⟨c, rest, iov, ch, l, -, ⟨hdescribe, -, rfl⟩ | ⟨hdescribe, w₁, rfl, hturn⟩⟩ :=
    sendTurn_ok h
  · exact (serves_update l (operated_describe hdescribe)).trans (serves_of_eq rfl rfl)
  · have hfirst : Serves w { w.update c ch l with upoutReady := false } :=
      (serves_update l (operated_describe hdescribe)).trans (serves_of_eq rfl rfl)
    refine hfirst.trans ?_
    obtain ⟨-, n, hsent⟩ | ⟨-, hblocked⟩ | ⟨-, hfailed⟩ := hturn
    · refine sourceSent_serves ?_ hsent
      rwa [(update_streamers w c ch l).2.2]
    · refine sourceBlocked_serves ?_ hblocked
      rw [update_self]
      exact ((horder c).describe hdescribe).1
    · exact sourceFailed_serves hfailed

theorem trySend_serves (ht : w.Threaded cfg True) (h : w.trySend cfg io = .ok w') :
    Serves w w' := by
  obtain ⟨hsock, hconnected, -⟩ := trySend_ok h
  rw [trySend] at h
  split at h
  · cases h
  split at h
  · cases h
  split at h
  · exact setFdev_serves h
  have hturn : ∀ {w₁ r w₂ again}, w₁.Threaded cfg True → w₁.sock ≠ none →
      w₁.sendTurn cfg io.now r = .ok (w₂, again) → Serves w₁ w₂ := by
    intro w₁ r w₂ again hthreaded hsock₁ hw₂
    obtain ⟨wire, past, -, hwires, -⟩ := hthreaded.latest hsock₁
    refine sendTurn_serves ?_ hthreaded.inOrder hw₂
    rw [hwires]
    exact List.cons_ne_nil _ _
  refine sendLoop_rule
    (J := fun w₁ ↦ (w₁.Threaded cfg True ∧ Serves w w₁) ∧ w₁.sock ≠ none ∧ w₁.connected)
    (Q := Serves w) (fun _ hJ _ ↦ hJ.1.2) ?_ ?_
    ⟨⟨ht, serves_of_eq rfl rfl⟩, hsock, hconnected⟩ h
  · rintro w₁ r w₂ ⟨⟨hthreaded, hserves⟩, hsock₁, hconnected₁⟩ hw₂
    have hsources := sendTurn_sources hw₂
    exact ⟨⟨(hthreaded.sendTurn hsock₁ hconnected₁ hw₂).1,
        hserves.trans (hturn hthreaded hsock₁ hw₂)⟩,
      hsources.sock ▸ hsock₁, hsources.connected ▸ hconnected₁⟩
  · rintro w₁ r w₂ ⟨⟨hthreaded, hserves⟩, hsock₁, -⟩ hw₂
    exact hserves.trans (hturn hthreaded hsock₁ hw₂)

/-! ## Handlers

No other handler consumes anything. -/

/-- Nothing has been sent on a new connection. -/
theorem attempted_serves {now : TimePoint} (ha : Attempted now w w') : Serves w w' := by
  have hchan := ha.apart.chan
  obtain ⟨w₁, htried, hend⟩ := ha
  obtain ⟨n, hwires⟩ := htried.wires
  have hlast : w'.wires = w₁.wires := by
    obtain ⟨-, rfl⟩ | ⟨-, events, -, hset⟩ := hend
    · rfl
    · obtain ⟨fd, s', -, rfl, -⟩ := setFdev_ok hset
      rfl
  refine ⟨fun c ↦ ⟨[], ?_, ?_⟩, fun i x hx ↦ ⟨x, ?_, List.prefix_rfl⟩⟩
  · rw [hchan]
    exact operated_refl _
  · rw [delivered, delivered, hlast, hwires, List.reverse_append, List.flatMap_append,
      List.reverse_replicate]
    simp [List.flatMap_replicate]
  · obtain ⟨hi, -⟩ := List.getElem?_eq_some_iff.mp hx
    rw [wire, hlast, hwires, List.reverse_append, List.getElem?_append_left hi]
    exact hx

theorem ready_serves (ht : w.Threaded cfg True) (h : w.ready cfg c io = .ok w') :
    Serves w w' := by
  have hjoined : Serves w (w.joined c) := serves_of_eq rfl rfl
  rcases ready_ok h with ⟨-, rfl⟩ | ⟨-, ⟨rfl, -⟩ | ⟨-, hlookup⟩ | ⟨-, hsend⟩⟩
  · exact serves_of_eq rfl rfl
  · exact hjoined
  · obtain ⟨-, -, -, rfl⟩ := initiateLookup_ok hlookup
    exact serves_of_eq rfl rfl
  · exact hjoined.trans (trySend_serves (ht.joined c) hsend)

theorem descriptorReady_serves {evs : Mask} (ht : w.Threaded cfg True)
    (h : w.descriptorReady cfg evs io = .ok w') : Serves w w' := by
  obtain ⟨-, ⟨-, hnext⟩ | ⟨-, -, w₁, hclear, rfl⟩ | ⟨-, hset⟩ | ⟨-, -, hsend⟩⟩ :=
    descriptorReady_ok h
  · obtain ⟨rest, w₁, hclear, htry⟩ := connectNext_ok hnext
    obtain ⟨-, hattempt⟩ := tryConnect_ok htry
    have hrest : Serves w { w with ainf := rest } := serves_of_eq rfl rfl
    exact (hrest.trans (clearSocket_serves hclear)).trans (attempted_serves hattempt)
  · exact (clearSocket_serves hclear).trans (serves_of_eq rfl rfl)
  · have hfirst : Serves w { w with connected := true } := serves_of_eq rfl rfl
    exact hfirst.trans (setFdev_serves hset)
  · have hfirst : Serves w { w with upoutReady := true } := serves_of_eq rfl rfl
    obtain ⟨hready, -⟩ : Threaded cfg True { w with upoutReady := true } ∧ Passes True w _ :=
      ht.congr rfl rfl rfl rfl rfl
    exact hfirst.trans (trySend_serves hready hsend)

theorem notify_serves {p : Nat} {e : Ev C} (ht : w.Threaded cfg True)
    (h : (w.taken p e).handle cfg io e = .ok w') : Serves w w' := by
  have htaken : Serves w (w.taken p e) := serves_of_eq rfl rfl
  have ht' : (w.taken p e).Threaded cfg True := (ht.sched (r := True) _).1
  refine htaken.trans ?_
  cases e with
  | fdev => exact descriptorReady_serves ht' h
  | rstev =>
    obtain ⟨-, -, -, rfl⟩ := initiateLookup_ok h
    exact serves_of_eq rfl rfl
  | sigev =>
    obtain ⟨w₁, rfl, ⟨-, rfl⟩ | ⟨-, -, -, hattempt⟩⟩ := managerCheck_ok h
    · exact serves_of_eq rfl rfl
    · have hfirst : Serves (w.taken p .sigev)
          { w.taken p .sigev with addrev := { (w.taken p .sigev).addrev with on := false } } :=
        serves_of_eq rfl rfl
      exact (hfirst.trans (attempted_serves hattempt)).trans (serves_of_eq rfl rfl)
  | queueEvent c => exact ready_serves ht' h

/-- **The step lemma**: what happens but for submissions. -/
theorem step_serves {a : Act C} (ht : w.Threaded cfg True)
    (ha : ∀ c clid data now, a ≠ .submit c clid data now) (h : w.step cfg a = .ok w') :
    Serves w w' := by
  cases a with
  | submit c clid data now => exact absurd rfl (ha c clid data now)
  | activate c =>
    cases h
    exact serves_update _ (operated_poke _)
  | flush c n =>
    cases h
    exact serves_update _ (operated_flush _ n)
  | discard c =>
    obtain ⟨q, l, hdiscard, rfl⟩ := discard_ok h
    exact serves_update l (operated_discard hdiscard)
  | lookupEnds rc result =>
    rcases lookupEnds_ok h with rfl | ⟨-, rfl⟩ <;> exact serves_of_eq rfl rfl
  | raise =>
    cases h
    exact serves_of_eq rfl rfl
  | poll now signalled evs =>
    rcases poll_ok h with rfl | ⟨s, -, rfl⟩ <;> exact serves_of_eq rfl rfl
  | notify e io =>
    rcases notify_ok h with rfl | ⟨p, -, hhandle⟩
    · exact serves_of_eq rfl rfl
    · exact notify_serves ht hhandle

end World

/-! ## Runs

From the account of what is submitted there follows, for each channel, a run of its queue; and what
is known of runs of queues applies. -/

/-- An ingress, with an account of what has been submitted. -/
structure Books (C : Type) where
  world : World C
  /-- The datagrams submitted to a channel, with the client ids that they came with. -/
  submitted : C → List (Nat × List UInt8)
  /-- The time after which the last file of a queue was named. -/
  named : C → Option Nat

/-- The record of a datagram. -/
def Config.record {C : Type} (cfg : Config C) (p : Nat × List UInt8) : Payload :=
  Channel.record cfg.szClid p.1 p.2

namespace Books

open World (Act)

variable {C : Type} [DecidableEq C] {cfg : Config C} {s s' : Books C}

/-- The queues have just been made, on empty directories. -/
def init (cfg : Config C) (maxMem : C → Nat) : Books C where
  world := .init cfg fun c ↦ .fresh (maxMem c) .empty .empty
  submitted := fun _ ↦ []
  named := fun _ ↦ none

/-- Whether a file is begun for a record. -/
def beginsFile (cfg : Config C) (s : Books C) (c : C) (data : List UInt8) : Bool :=
  let q := (s.world.chan c).queue
  !q.fitsMemory (cfg.szClid + data.length) && q.needsFile (cfg.szClid + data.length)

/-- One step of the ingress. -/
def step (cfg : Config C) (s : Books C) (a : Act C) : Except Halt (Books C) :=
  (s.world.step cfg a).map fun w ↦
    match a with
    | .submit c clid data now =>
      { world := w
        submitted := Function.update s.submitted c (s.submitted c ++ [(clid, data)])
        named := if s.beginsFile cfg c data then Function.update s.named c (some now) else s.named }
    | _ => { s with world := w }

/-- Records are no longer than a length field can say, and the clock advances from one file to the
next. -/
def Timely (cfg : Config C) (s : Books C) : Act C → Prop
  | .submit c _ data now => cfg.szClid + data.length ≤ 65535 ∧ ∀ k ∈ s.named c, k < now
  | _ => True

instance (cfg : Config C) (s : Books C) : DecidablePred (s.Timely cfg) := fun a ↦
  match a with
  | .submit .. => inferInstanceAs (Decidable (_ ∧ _))
  | .activate _ | .flush .. | .discard _ | .lookupEnds .. | .raise | .poll .. | .notify .. =>
    .isTrue trivial

/-- What is submitted fits in the memory of its queue. -/
def Fits (cfg : Config C) (s : Books C) : Act C → Prop
  | .submit c _ data _ =>
    (s.world.chan c).queue.fitsMemory (cfg.szClid + data.length) = true
  | _ => True

instance (cfg : Config C) (s : Books C) : DecidablePred (s.Fits cfg) := fun a ↦
  match a with
  | .submit .. => inferInstanceAs (Decidable (_ = _))
  | .activate _ | .flush .. | .discard _ | .lookupEnds .. | .raise | .poll .. | .notify .. =>
    .isTrue trivial

/-- The queue of a channel is where a run of a queue has come to. -/
structure Runs (cfg : Config C) (c : C) (s : Books C) (qw : PayloadQueue.World) : Prop where
  tidy : s.world.Tidy
  threaded : s.world.Threaded cfg True
  queue : qw.q = (s.world.chan c).queue
  delivered : qw.delivered = s.world.delivered c
  pushed : qw.pushed = (s.submitted c).map cfg.record
  named : qw.lastKey = s.named c

theorem runs_init (cfg : Config C) (maxMem : C → Nat) (c : C) :
    (init cfg maxMem).Runs cfg c (.init (maxMem c)) :=
  ⟨World.tidy_init cfg _, World.threaded_init cfg True _, rfl, rfl, rfl, rfl⟩

theorem step_ok {a : Act C} (h : s.step cfg a = .ok s') :
    s.world.step cfg a = .ok s'.world ∧
      ((∃ c clid data now, a = .submit c clid data now ∧
          s'.submitted = Function.update s.submitted c (s.submitted c ++ [(clid, data)]) ∧
          s'.named = if s.beginsFile cfg c data then Function.update s.named c (some now)
            else s.named) ∨
        (∀ c clid data now, a ≠ .submit c clid data now) ∧ s'.submitted = s.submitted ∧
          s'.named = s.named) := by
  obtain ⟨w, hw, rfl⟩ := map_ok h
  cases a with
  | submit c clid data now => exact ⟨hw, .inl ⟨c, clid, data, now, rfl, rfl, rfl⟩⟩
  | activate | flush | discard | lookupEnds | raise | poll | notify =>
    exact ⟨hw, .inr ⟨by simp, rfl, rfl⟩⟩

omit [DecidableEq C] in
/-- The push of a record, on the account of its queue. -/
theorem push_record (cfg : Config C) {c : C} {qw : PayloadQueue.World}
    (hq : qw.q = (s.world.chan c).queue) (clid : Nat) (data : List UInt8) (now : Nat) :
    ∃ qw', qw.step (.push [clidMem cfg.szClid clid, data] now) = .ok qw' ∧
      qw'.q = ((s.world.chan c).submit cfg.szClid clid data now).1.queue ∧
      qw'.delivered = qw.delivered ∧ qw'.pushed = qw.pushed ++ [cfg.record (clid, data)] ∧
      qw'.lastKey = if s.beginsFile cfg c data then some now else qw.lastKey := by
  have hlen : sumLengths [clidMem cfg.szClid clid, data] =
      cfg.szClid + data.length := by
    simp [sumLengths_eq]
  rw [PayloadQueue.World.step]
  dsimp only
  rw [hlen, beginsFile, ← hq, Channel.submit, ← hq]
  dsimp only
  split
  · rename_i hfits
    exact ⟨_, rfl, rfl, rfl, rfl, by simp [hfits]⟩
  · rename_i hfits
    split
    · rename_i hneeds
      exact ⟨_, rfl, rfl, rfl, rfl, by simp [hfits, hneeds]⟩
    · rename_i hneeds
      exact ⟨_, rfl, rfl, rfl, rfl, by simp [hneeds]⟩

/-- A submission is a push to one queue. -/
theorem Runs.submit {c c' : C} {clid now : Nat} {data : List UInt8} {qw : PayloadQueue.World}
    (h : s.Runs cfg c qw) (hs : s.step cfg (.submit c' clid data now) = .ok s') :
    ∃ qw', (qw' = qw ∨ c' = c ∧
        qw.step (.push [clidMem cfg.szClid clid, data] now) = .ok qw') ∧
      qw'.q = (s'.world.chan c).queue ∧ qw'.delivered = s'.world.delivered c ∧
        qw'.pushed = (s'.submitted c).map cfg.record ∧ qw'.lastKey = s'.named c := by
  cases hs
  dsimp only
  have hdelivered : (s.world.update c' ((s.world.chan c').submit cfg.szClid clid data now).1
      ((s.world.chan c').submit cfg.szClid clid data now).2).delivered c =
        s.world.delivered c := by
    rw [World.delivered, (World.update_streamers ..).2.2]
    rfl
  rw [hdelivered, ← h.delivered]
  by_cases hc : c' = c
  · subst hc
    obtain ⟨qw', hstep, hq, hdelivered', hpushed, hkey⟩ :=
      push_record cfg h.queue clid data now
    refine ⟨qw', .inr ⟨rfl, hstep⟩, ?_, hdelivered', ?_, ?_⟩
    · rw [hq, World.update_self]
    · rw [hpushed, h.pushed, Function.update_self, List.map_append, List.map_singleton]
    · rw [hkey, h.named]
      split
      · rw [Function.update_self]
      · rfl
  · have hne : c ≠ c' := fun heq ↦ hc heq.symm
    refine ⟨qw, .inl rfl, ?_, rfl, ?_, ?_⟩
    · rw [World.update_of_ne _ _ _ hne]
      exact h.queue
    · rw [Function.update_of_ne hne]
      exact h.pushed
    · rw [h.named]
      split
      · rw [Function.update_of_ne hne]
      · rfl

/-- **The step lemma.**  A submission is a push to one queue, and the rest is operations that are
none. -/
theorem Runs.step {ok' : PayloadQueue.World → PayloadQueue.Op → Prop}
    (hquiet : ∀ qw op, qw.Quiet op → ok' qw op) {a : Act C} {c : C} {qw : PayloadQueue.World}
    (h : s.Runs cfg c qw)
    (hpush : ∀ clid data now, a = .submit c clid data now →
      ok' qw (.push [clidMem cfg.szClid clid, data] now))
    (hs : s.step cfg a = .ok s') :
    ∃ qw', Run.Reach PayloadQueue.World.step ok' qw qw' ∧ s'.Runs cfg c qw' := by
  obtain ⟨hw, hcases⟩ := step_ok hs
  have htidy := h.tidy.step hw
  have hthreaded := (h.threaded.step h.tidy (.inr trivial) hw).1
  obtain ⟨c', clid, data, now, rfl, -, -⟩ | ⟨ha', hsubmitted, hnamed⟩ := hcases
  · obtain ⟨qw', hstep, hq, hdelivered, hpushed, hkey⟩ := h.submit hs
    refine ⟨qw', ?_, htidy, hthreaded, hq, hdelivered, hpushed, hkey⟩
    rcases hstep with rfl | ⟨rfl, hstep⟩
    · exact .refl
    · exact Run.Reach.refl.tail (hpush clid data now rfl) hstep
  · obtain ⟨sent, hoperated, hdelivered⟩ := (World.step_serves h.threaded ha' hw).queues c
    obtain ⟨qw', hreach, hq, hsent⟩ := hoperated qw h.queue
    obtain ⟨hpushed, hkey⟩ := PayloadQueue.World.quiet_run hreach
    refine ⟨qw', hreach.mono hquiet, htidy, hthreaded, hq, ?_, ?_, ?_⟩
    · rw [hsent, hdelivered, h.delivered]
    · rw [hpushed, hsubmitted, h.pushed]
    · rw [hkey, hnamed, h.named]

/-- **An ingress runs its queues.**  Whatever it does, each queue has gone through a run of its own,
in which the records submitted to its channel were pushed, and those delivered were consumed. -/
theorem queue_run {ok : Books C → Act C → Prop}
    {ok' : PayloadQueue.World → PayloadQueue.Op → Prop}
    (hquiet : ∀ qw op, qw.Quiet op → ok' qw op) {c : C}
    (hpush : ∀ s qw clid data now, Runs cfg c s qw → ok s (.submit c clid data now) →
      ok' qw (.push [clidMem cfg.szClid clid, data] now)) {maxMem : C → Nat}
    (h : Run.Reach (step cfg) ok (init cfg maxMem) s) :
    ∃ qw, Run.Reach PayloadQueue.World.step ok' (.init (maxMem c)) qw ∧ s.Runs cfg c qw :=
  h.simulate (runs_init cfg maxMem c) fun s qw _ _ hruns ha hs ↦
    hruns.step hquiet (fun _ _ _ heq ↦ hpush s qw _ _ _ hruns (heq ▸ ha)) hs

/-- What is timely for an ingress is regular for its queues. -/
theorem Runs.regular {c : C} {qw : PayloadQueue.World} (h : s.Runs cfg c qw) {clid now : Nat}
    {data : List UInt8} (ha : s.Timely cfg (.submit c clid data now)) :
    qw.Regular (.push [clidMem cfg.szClid clid, data] now) := by
  refine ⟨by simpa [sumLengths_eq] using ha.1, ?_⟩
  rw [h.named]
  exact ha.2

/-- What fits for an ingress fits for its queues. -/
theorem Runs.fits {c : C} {qw : PayloadQueue.World} (h : s.Runs cfg c qw) {clid now : Nat}
    {data : List UInt8} (ha : s.Fits cfg (.submit c clid data now)) :
    qw.Fits (.push [clidMem cfg.szClid clid, data] now) := by
  have hlen : sumLengths [clidMem cfg.szClid clid, data] = cfg.szClid + data.length := by
    simp [sumLengths_eq]
  show qw.q.fitsMemory _ = true
  rw [h.queue, hlen]
  exact ha

/-- **What fits in memory is delivered or in the queue.** -/
theorem kept_in_memory {maxMem : C → Nat} (h : Run.Reach (step cfg) (Fits cfg) (init cfg maxMem) s)
    (c : C) : s.world.delivered c ++ (s.world.chan c).queue.queue =
      (s.submitted c).map cfg.record := by
  obtain ⟨qw, hreach, hruns⟩ := queue_run (c := c) (fun qw _ ↦ qw.fits_of_quiet)
    (fun _ _ _ _ _ hruns ha ↦ hruns.fits ha) h
  have haccount := (PayloadQueue.World.inMemory_of_fits hreach).account
  rw [hruns.pushed, hruns.delivered, hruns.queue] at haccount
  exact haccount.symm

/-- Connections are kept, and what has been sent on them. -/
theorem step_wires {a : Act C} (ht : s.world.Threaded cfg True) (hs : s.step cfg a = .ok s')
    (i : Nat) (x : Wire C) (hx : s.world.wire i = some x) :
    ∃ x', s'.world.wire i = some x' ∧ x.bytes <+: x'.bytes := by
  obtain ⟨hw, ⟨c, clid, data, now, rfl, -, -⟩ | ⟨ha, -, -⟩⟩ := step_ok hs
  · have hworld : s.world.update c _ _ = s'.world := Except.ok.inj hw
    refine World.wires_of_eq ?_ i x hx
    rw [← hworld, (World.update_streamers ..).2.2]
  · exact (World.step_serves ht ha hw).wires i x hx

/-- The records of what has been submitted are short enough. -/
theorem short {maxMem : C → Nat} (h : Run.Reach (step cfg) (Timely cfg) (init cfg maxMem) s)
    (c : C) : ∀ pl ∈ (s.submitted c).map cfg.record, pl.length ≤ 65535 := by
  have hinv : ∀ c, ∀ p ∈ s.submitted c, cfg.szClid + p.2.length ≤ 65535 := by
    refine h.invariant (I := fun s ↦ ∀ c, ∀ p ∈ s.submitted c, cfg.szClid + p.2.length ≤ 65535)
      (fun _ _ hp ↦ by cases hp) fun s a s' hshort ha hs ↦ ?_
    obtain ⟨-, ⟨c', clid, data, now, rfl, hsubmitted, -⟩ | ⟨-, hsubmitted, -⟩⟩ := step_ok hs
    · intro c p hp
      rw [hsubmitted] at hp
      by_cases hc : c = c'
      · subst hc
        rw [Function.update_self] at hp
        rcases List.mem_append.mp hp with hp | hp
        · exact hshort c p hp
        · rw [List.mem_singleton.mp hp]
          exact ha.1
      · rw [Function.update_of_ne hc] at hp
        exact hshort c p hp
    · rw [hsubmitted]
      exact hshort
  intro pl hpl
  obtain ⟨p, hp, rfl⟩ := List.mem_map.mp hpl
  rw [Config.record, Channel.length_record]
  exact hinv c p hp

/-- Nothing has overtaken in the queue of a channel. -/
theorem orderly_queue {maxMem : C → Nat}
    (h : Run.Reach (step cfg) (Timely cfg) (init cfg maxMem) s) (c : C) :
    ∃ qw, s.Runs cfg c qw ∧ qw.Orderly := by
  obtain ⟨qw, hreach, hruns⟩ := queue_run (c := c) (fun qw _ ↦ qw.regular_of_quiet)
    (fun _ _ _ _ _ hruns ha ↦ hruns.regular ha) h
  exact ⟨qw, hruns, PayloadQueue.World.orderly_of_reach hreach⟩

theorem Runs.sublist {c : C} {qw : PayloadQueue.World} (h : s.Runs cfg c qw)
    (horderly : qw.Orderly) : (s.world.delivered c ++ (s.world.chan c).queue.held).Sublist
      ((s.submitted c).map cfg.record) := by
  rw [← h.delivered, ← h.queue, ← h.pushed]
  exact horderly.held_sublist

/-- **Records are delivered in order**, and at most once each.  However connections break and files
come and go, what an ingress has delivered of a channel, followed by what the queue of the channel
could give out now, is a subsequence of what was submitted to it. -/
theorem delivered_in_order {maxMem : C → Nat}
    (h : Run.Reach (step cfg) (Timely cfg) (init cfg maxMem) s) (c : C) :
    (s.world.delivered c ++ (s.world.chan c).queue.held).Sublist
      ((s.submitted c).map cfg.record) := by
  obtain ⟨qw, hruns, horderly⟩ := orderly_queue h c
  exact hruns.sublist horderly

/-- One of two datagrams has been delivered, in two parts, on two connections. -/
theorem delivered_in_order_reconnected : ∃ s : Books Unit, s.world.wires.length = 2 ∧
    s.world.delivered () = [World.oneChannel.record (3, [1])] ∧
    (s.world.delivered () ++ (s.world.chan ()).queue.held).Sublist
      ((s.submitted ()).map World.oneChannel.record) := by
  have hrun : Run.Checks (step World.oneChannel) (Timely World.oneChannel)
      (init World.oneChannel fun _ ↦ Channel.queueMem)
      (World.firstSource ++ World.firstConnection ++ World.firstBytes ++ [.submit () 4 [2, 2] 3] ++
        World.reconnection)
      fun s ↦ s.world.wires.length = 2 ∧
        s.world.delivered () = [World.oneChannel.record (3, [1])] := by decide +kernel
  obtain ⟨s, hreach, htwo, hone⟩ := hrun.reach
  exact ⟨s, htwo, hone, delivered_in_order hreach ()⟩

end Books
end TcpIngress
end UdpTun
