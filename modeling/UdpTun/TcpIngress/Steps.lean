import UdpTun.Scheduling.Registration
import UdpTun.TcpIngress

/-!
# What the functions of an ingress do

Each function of the ingress does one of two things.  It deals with the socket and the look-up, and
leaves the channels alone (`Apart`); or it deals with the channels, and leaves the socket and the
look-up alone (`Sources`).  The lemmas `…_ok` say what a function that returns has done, in these
terms.  The longer functions are these one after the other, and for their loops there is a rule.

* `update_sources` and `setFdev_apart`, for example, say which part a function leaves alone.
* `sendLoop_rule` is the rule for the loop in `trySend`, and `connectLoop_ok` goes through the one
  in `tryConnect`.
* `notify_ok` takes a notification apart, into the taking of the event and the call of its handler.
-/

set_option autoImplicit false

namespace UdpTun
namespace TcpIngress
namespace World

open Scheduler (Changes)

variable {C : Type} [DecidableEq C] {cfg : Config C} {w w' w'' : World C} {c c' : C} {io : Io}

/-! ## Two parts of the state

The first part is the socket, the look-up and the timer; the second is the channels and the sources.
-/

/-- The channels and the sources are left alone. -/
structure Apart (w w' : World C) : Prop where
  chan : w'.chan = w.chan
  streamers : w'.streamers = w.streamers
  streamerQueue : w'.streamerQueue = w.streamerQueue
  idleness : w'.sched.idleness = w.sched.idleness
  event : ∀ c, w'.sched.event (.queueEvent c) = w.sched.event (.queueEvent c)

omit [DecidableEq C] in
theorem Apart.trans (h : Apart w w') (h' : Apart w' w'') : Apart w w'' :=
  ⟨h'.chan.trans h.chan, h'.streamers.trans h.streamers,
    h'.streamerQueue.trans h.streamerQueue, h'.idleness.trans h.idleness,
    fun c ↦ (h'.event c).trans (h.event c)⟩

/-- The socket and the look-up are left alone. -/
structure Sources (w w' : World C) : Prop where
  wf : w.sched.WF → w'.sched.WF
  fdev : w'.sched.event .fdev = w.sched.event .fdev
  rstev : w'.sched.event .rstev = w.sched.event .rstev
  sigev : w'.sched.event .sigev = w.sched.event .sigev
  idle : ∀ e ∈ w'.sched.idleness, e ∈ w.sched.idleness ∨ ∃ c, e = .queueEvent c
  sock : w'.sock = w.sock
  connected : w'.connected = w.connected
  ainf : w'.ainf = w.ainf
  addrev : w'.addrev = w.addrev
  pending : w'.pending = w.pending

omit [DecidableEq C] in
theorem Sources.trans (h : Sources w w') (h' : Sources w' w'') : Sources w w'' :=
  ⟨h'.wf ∘ h.wf, h'.fdev.trans h.fdev, h'.rstev.trans h.rstev, h'.sigev.trans h.sigev,
    fun e he ↦ (h'.idle e he).elim (h.idle e) .inr, h'.sock.trans h.sock,
    h'.connected.trans h.connected, h'.ainf.trans h.ainf, h'.addrev.trans h.addrev,
    h'.pending.trans h.pending⟩

omit [DecidableEq C] in
/-- Nothing of what is left alone changes. -/
theorem Sources.of_eq (w : World C) (hsched : w'.sched = w.sched) (hsock : w'.sock = w.sock)
    (hconnected : w'.connected = w.connected) (hainf : w'.ainf = w.ainf)
    (haddrev : w'.addrev = w.addrev) (hpending : w'.pending = w.pending) : Sources w w' := by
  refine ⟨fun h ↦ ?_, ?_, ?_, ?_, fun e he ↦ .inl ?_, hsock, hconnected, hainf, haddrev,
    hpending⟩
  · rwa [hsched]
  · rw [hsched]
  · rw [hsched]
  · rw [hsched]
  · rwa [hsched] at he

/-! ## Channels

What is done to one channel leaves the others as they were.  The calls that its queue makes only set
its idle event. -/

theorem calls_chan (w : World C) (c : C) (l : List PayloadQueue.Call) :
    (w.calls c l).chan = w.chan := by
  rw [calls]
  split <;> rfl

theorem calls_streamers (w : World C) (c : C) (l : List PayloadQueue.Call) :
    (w.calls c l).streamers = w.streamers ∧ (w.calls c l).streamerQueue = w.streamerQueue ∧
      (w.calls c l).wires = w.wires := by
  rw [calls]
  split <;> exact ⟨rfl, rfl, rfl⟩

theorem calls_sources (w : World C) (c : C) (l : List PayloadQueue.Call) :
    Sources w (w.calls c l) := by
  rw [calls]
  split
  · have hother : ∀ e, e ≠ .queueEvent c →
        (w.sched.idleSet (.queueEvent c)).event e = w.sched.event e := fun e he ↦
      (congrFun (Scheduler.idleSet_event ..) e).trans (Function.update_of_ne he ..)
    refine ⟨fun h ↦ h.idleSet _, hother _ nofun, hother _ nofun, hother _ nofun, fun e he ↦ ?_,
      rfl, rfl, rfl, rfl, rfl⟩
    rw [Scheduler.idleSet_idleness, List.mem_insert_iff] at he
    exact he.symm.imp_right fun he ↦ ⟨c, he⟩
  · exact .of_eq w rfl rfl rfl rfl rfl rfl

theorem update_sources (w : World C) (c : C) (ch : Channel) (l : List PayloadQueue.Call) :
    Sources w (w.update c ch l) :=
  have hchan : Sources w { w with chan := Function.update w.chan c ch } :=
    .of_eq w rfl rfl rfl rfl rfl rfl
  hchan.trans (calls_sources _ c l)

theorem update_chan (w : World C) (c : C) (ch : Channel) (l : List PayloadQueue.Call) :
    (w.update c ch l).chan = Function.update w.chan c ch :=
  calls_chan _ c l

theorem update_self (w : World C) (c : C) (ch : Channel) (l : List PayloadQueue.Call) :
    (w.update c ch l).chan c = ch := by
  rw [update_chan, Function.update_self]

theorem update_of_ne (w : World C) {c c' : C} (ch : Channel) (l : List PayloadQueue.Call)
    (hne : c' ≠ c) : (w.update c ch l).chan c' = w.chan c' := by
  rw [update_chan, Function.update_of_ne hne]

/-- What holds of the new channel, and of the others as they are, holds of all of them. -/
theorem update_forall {P : C → Channel → Prop} {c : C} {ch : Channel}
    {l : List PayloadQueue.Call} (hself : P c ch) (hothers : ∀ c', c' ≠ c → P c' (w.chan c'))
    (c' : C) : P c' ((w.update c ch l).chan c') := by
  by_cases hc : c' = c
  · rw [hc, update_self]
    exact hself
  · rw [update_of_ne w ch l hc]
    exact hothers c' hc

theorem update_streamers (w : World C) (c : C) (ch : Channel) (l : List PayloadQueue.Call) :
    (w.update c ch l).streamers = w.streamers ∧
      (w.update c ch l).streamerQueue = w.streamerQueue ∧ (w.update c ch l).wires = w.wires :=
  calls_streamers _ c l

/-! ## The socket

What functions of the first part have done, if they return. -/

theorem setRstev_apart (w : World C) (now : TimePoint) (d : Int) :
    Apart w (w.setRstev now d) := by
  have hs := Scheduler.changes_timedSet w.sched .rstev (now + d)
  exact ⟨rfl, rfl, rfl, hs.idleness, fun c ↦ hs.event_of_ne nofun⟩

theorem setFdev_ok {events : Mask} (h : w.setFdev events = .ok w') :
    ∃ fd s', w.sock = some fd ∧ w' = { w with sched := s' } ∧ Changes w.sched s' .fdev
      (Scheduler.watching' (w.sched.event .fdev) fd events).dequeued := by
  rw [setFdev] at h
  split at h
  · cases h
  · rename_i fd hfd
    dsimp only [bind, Except.bind] at h
    split at h
    · cases h
    · rename_i s' hs
      cases h
      exact ⟨fd, s', hfd, rfl, Scheduler.changes_descrSet hs⟩

theorem setFdev_apart {events : Mask} (h : w.setFdev events = .ok w') : Apart w w' := by
  obtain ⟨fd, s', -, rfl, hs⟩ := setFdev_ok h
  exact ⟨rfl, rfl, rfl, hs.idleness, fun c ↦ hs.event_of_ne nofun⟩

theorem clearSocket_total (h : w.sched.WF) : ∃ w', w.clearSocket = .ok w' := by
  obtain ⟨s, hs⟩ := h.descrCancel_total .fdev
  refine ⟨{ w with sched := s, sock := none }, ?_⟩
  rw [clearSocket, hs]
  rfl

theorem clearSocket_ok (h : w.clearSocket = .ok w') :
    ∃ s', w' = { w with sched := s', sock := none } ∧ Changes w.sched s' .fdev
      { (w.sched.event .fdev).dequeued with fd := none } := by
  rw [clearSocket] at h
  dsimp only [bind, Except.bind] at h
  split at h
  · cases h
  · rename_i s' hs
    cases h
    exact ⟨s', rfl, Scheduler.changes_descrCancel hs⟩

theorem clearSocket_apart (h : w.clearSocket = .ok w') : Apart w w' := by
  obtain ⟨s', rfl, hs⟩ := clearSocket_ok h
  exact ⟨rfl, rfl, rfl, hs.idleness, fun c ↦ hs.event_of_ne nofun⟩

omit [DecidableEq C] in
theorem initiateLookup_ok {started : Except Eai Unit} (h : w.initiateLookup started = .ok w') :
    (w.sched.event .rstev).isSet = false ∧ w.addrev.on = false ∧ w.sock = none ∧
      w' = { w with ainf := [], addrev := ⟨true, some .inProgress⟩ } := by
  rw [initiateLookup] at h
  split at h
  · cases h
  rename_i hset
  split at h
  · cases h
  rename_i hon
  split at h
  · cases h
  rename_i hsock
  simp only [Bool.not_eq_true, Option.isSome_eq_false_iff, Option.isNone_iff_eq_none] at *
  refine ⟨hset, hon, hsock, ?_⟩
  dsimp only [bind, Except.bind, AddressEvent.initiate] at h
  split at h
  · cases h
  · rename_i a ha
    split at ha
    · cases ha
    · cases ha
      cases h
      rfl

/-! ## Connecting

The loop is gone through once, and what is left to say of it is how it ends. -/

/-- A descriptor event that is not in use. -/
structure Parked (v : EventState) : Prop where
  fd : v.fd = none
  appl : v.prioAppl = 0

/-- What trying addresses changes: the socket and its event, and the connections. -/
structure Tried (w w' : World C) : Prop where
  apart : Apart w w'
  wf : w.sched.WF → w'.sched.WF
  fdev : Parked (w.sched.event .fdev) → Parked (w'.sched.event .fdev)
  kind : (w'.sched.event .fdev).isSet = (w.sched.event .fdev).isSet ∧
    (w'.sched.event .fdev).signo = (w.sched.event .fdev).signo
  rstev : w'.sched.event .rstev = w.sched.event .rstev
  sigev : w'.sched.event .sigev = w.sched.event .sigev
  addrev : w'.addrev = w.addrev
  pending : w'.pending = w.pending
  wires : ∃ n, w'.wires = List.replicate n ⟨[], []⟩ ++ w.wires

omit [DecidableEq C] in
theorem Tried.trans (h : Tried w w') (h' : Tried w' w'') : Tried w w'' := by
  obtain ⟨n, hn⟩ := h.wires
  obtain ⟨n', hn'⟩ := h'.wires
  refine ⟨h.apart.trans h'.apart, h'.wf ∘ h.wf, h'.fdev ∘ h.fdev,
    ⟨h'.kind.1.trans h.kind.1, h'.kind.2.trans h.kind.2⟩, h'.rstev.trans h.rstev,
    h'.sigev.trans h.sigev, h'.addrev.trans h.addrev, h'.pending.trans h.pending, n' + n, ?_⟩
  rw [hn', hn, ← List.append_assoc, List.replicate_add]

omit [DecidableEq C] in
/-- Nothing changes but the fields that trying addresses is about. -/
theorem tried_socket (w : World C) (ainf : List AddrInfo) (sock : Option Nat) (connected : Bool)
    (n : Nat) : Tried w
      { w with ainf, sock, connected, wires := List.replicate n ⟨[], []⟩ ++ w.wires } :=
  ⟨⟨rfl, rfl, rfl, rfl, fun _ ↦ rfl⟩, id, id, ⟨rfl, rfl⟩, rfl, rfl, rfl, rfl, n, rfl⟩

theorem clearSocket_tried (h : w.clearSocket = .ok w') : Tried w w' := by
  obtain ⟨s', rfl, hs⟩ := clearSocket_ok h
  refine ⟨clearSocket_apart h, hs.wf, fun _ ↦ ?_, ?_, hs.event_of_ne nofun,
    hs.event_of_ne nofun, rfl, rfl, 0, rfl⟩
  all_goals
    dsimp only
    rw [hs.event_self]
    exact ⟨rfl, rfl⟩

/-- How trying addresses ends: with a retry later on, or with a socket that is waited for. -/
def Attempted (now : TimePoint) (w w' : World C) : Prop :=
  ∃ w₁, Tried w w₁ ∧ (w₁.sock = none ∧ w' = w₁.setRstev now (seconds 33) ∨
    (∃ past, w₁.wires = ⟨[], []⟩ :: past) ∧
      ∃ events : Mask, events.epollout ∧ w₁.setFdev events = .ok w')

theorem Tried.attempted {now : TimePoint} (h : Tried w w') (h' : Attempted now w' w'') :
    Attempted now w w'' := by
  obtain ⟨w₁, hw₁, hend⟩ := h'
  exact ⟨w₁, h.trans hw₁, hend⟩

/-- Trying addresses leaves the channels alone. -/
theorem Attempted.apart {now : TimePoint} (ha : Attempted now w w') : Apart w w' := by
  obtain ⟨w₁, htried, ⟨-, rfl⟩ | ⟨-, events, -, hset⟩⟩ := ha
  · exact htried.apart.trans (setRstev_apart ..)
  · exact htried.apart.trans (setFdev_apart hset)

/-- A new socket is closed again, or it is waited for. -/
theorem connectSocket_ok {t : ConnectTurn} {rest : List AddrInfo} {again : Bool}
    (h : connectSocket cfg w t rest = .ok (w', again)) :
    (again = true ∧ Tried w w' ∧ w'.sock = none) ∨
      (again = false ∧ ∃ connected events, events.epollout ∧
        { w with connected }.setFdev events = .ok w') := by
  have hclear : ∀ w₁, w.clearSocket = .ok w₁ → Tried w w₁ ∧ w₁.sock = none := by
    intro w₁ hw₁
    obtain ⟨s', hw₁', -⟩ := clearSocket_ok hw₁
    refine ⟨clearSocket_tried hw₁, ?_⟩
    rw [hw₁']
  rw [connectSocket] at h
  split at h
  · obtain ⟨w₁, hc, heq⟩ := map_ok h
    obtain ⟨rfl, rfl⟩ := Prod.mk.inj heq
    exact .inl ⟨rfl, hclear _ hc⟩
  · split at h
    · cases h
    · split at h
      · obtain ⟨w₁, hc, heq⟩ := map_ok h
        obtain ⟨rfl, rfl⟩ := Prod.mk.inj heq
        obtain ⟨htried, hsock⟩ := hclear _ hc
        exact .inl ⟨rfl, htried.trans (tried_socket w₁ rest w₁.sock w₁.connected 0), hsock⟩
      · obtain ⟨w₁, hc, heq⟩ := map_ok h
        obtain ⟨rfl, rfl⟩ := Prod.mk.inj heq
        exact .inr ⟨rfl, w.connected, connectingEvents, rfl, hc⟩
      · obtain ⟨w₁, hc, heq⟩ := map_ok h
        obtain ⟨rfl, rfl⟩ := Prod.mk.inj heq
        exact .inr ⟨rfl, true, connectedEvents, rfl, hc⟩

/-- The induction is on the turns. -/
theorem connectLoop_ok {bindInfo : List AddrInfo} {now : TimePoint} {turns : List ConnectTurn}
    (hsock : w.sock = none) (h : connectLoop cfg bindInfo now turns w = .ok w') :
    Attempted now w w' := by
  induction turns generalizing w with
  | nil =>
    rw [connectLoop] at h
    split at h
    · cases h
      exact ⟨_, tried_socket w [] w.sock w.connected 0, .inl ⟨hsock, rfl⟩⟩
    · cases h
  | cons t turns ih =>
    rw [connectLoop] at h
    split at h
    · cases h
      exact ⟨_, tried_socket w [] w.sock w.connected 0, .inl ⟨hsock, rfl⟩⟩
    · rename_i ai rest _
      dsimp only at h
      split at h
      · exact (tried_socket w rest w.sock w.connected 0).attempted (ih hsock h)
      · rename_i fd _
        have hfirst := tried_socket w (ai :: rest) (some fd) w.connected 1
        split at h
        · cases h
        · rename_i w₁ hw₁
          rcases connectSocket_ok hw₁ with ⟨-, htried, hnone⟩ | ⟨hfalse, -⟩
          · exact hfirst.attempted (htried.attempted (ih hnone h))
          · cases hfalse
        · rename_i w₁ hw₁
          cases h
          rcases connectSocket_ok hw₁ with ⟨htrue, -⟩ | ⟨-, connected, events, hout, hset⟩
          · cases htrue
          · exact ⟨_, tried_socket w (ai :: rest) (some fd) connected 1,
              .inr ⟨⟨w.wires, rfl⟩, events, hout, hset⟩⟩

theorem tryConnect_ok (h : w.tryConnect cfg io = .ok w') :
    w.sock = none ∧ Attempted io.now w w' := by
  rw [tryConnect] at h
  split at h
  · cases h
  · rename_i hsock
    rw [Bool.not_eq_true, Option.isSome_eq_false_iff, Option.isNone_iff_eq_none] at hsock
    dsimp only [bind, Except.bind] at h
    split at h
    · cases h
    · exact ⟨hsock, connectLoop_ok hsock h⟩

/-- What a look-up that has ended leads to. -/
theorem addressResolved_ok {p : List AddrInfo} (h : w.addressResolved cfg p io = .ok w') :
    w.sock = none ∧ Attempted io.now w w' := by
  rw [addressResolved] at h
  dsimp only at h
  split at h
  · cases h
  · obtain ⟨hsock, hattempt⟩ := tryConnect_ok h
    exact ⟨hsock, (tried_socket w p w.sock false 0).attempted hattempt⟩

/-- The users are told first; then the signal is waited for again. -/
theorem managerCheck_ok (h : w.managerCheck cfg io = .ok w') : ∃ w₁,
    w' = { w₁ with sched := w₁.sched.sigSet .sigev sigusr2 } ∧
      (w.addrev.check = (w.addrev, none) ∧ w₁ = w ∨
        w.addrev.on ∧ w.sock = none ∧ (∃ p, w.addrev.data = some (.ended 0 p)) ∧
          Attempted io.now { w with addrev := { w.addrev with on := false } } w₁) := by
  rw [managerCheck] at h
  rcases w.addrev.check_cases with hcheck | ⟨hon, p, hdata, hcheck⟩
  · rw [hcheck] at h
    cases h
    exact ⟨w, rfl, .inl ⟨hcheck, rfl⟩⟩
  · rw [hcheck] at h
    dsimp only [bind, Except.bind] at h
    split at h
    · cases h
    · rename_i w₁ hw₁
      cases h
      obtain ⟨hsock, hattempt⟩ := addressResolved_ok hw₁
      exact ⟨w₁, rfl, .inr ⟨hon, hsock, ⟨p, hdata⟩, hattempt⟩⟩

/-! ## Sending

The turns of the loop have one rule, with an invariant, and each of the results about sending is an
instance. -/

omit [DecidableEq C] in
theorem sources_refl (w : World C) : Sources w w := .of_eq w rfl rfl rfl rfl rfl rfl

theorem dropSource_sources (w : World C) (c : C) : Sources w (w.dropSource c) :=
  .of_eq w rfl rfl rfl rfl rfl rfl

/-- What has been sent is taken down, and the source is told. -/
theorem sourceSent_ok {bytes : List UInt8} (h : w.sourceSent cfg c bytes = .ok w') :
    ∃ allDone ch l, (w.chan c).consumed cfg.szClid bytes.length = .ok (allDone, ch, l) ∧
      ∃ w₁, w₁ = { w with
        wires := match w.wires with
          | [] => []
          | wire :: past => ⟨wire.bytes ++ bytes, wire.taken ++
              if allDone then ((w.chan c).queue.consume.1.map (c, ·)).toList else []⟩ :: past } ∧
        w' = if allDone then (w₁.update c ch l).dropSource c else w₁.update c ch l := by
  rw [sourceSent] at h
  dsimp only [bind, Except.bind] at h
  split at h
  · cases h
  · rename_i r hr
    cases h
    exact ⟨r.1, r.2.1, r.2.2, hr, _, rfl, rfl⟩

theorem sourceSent_sources {bytes : List UInt8} (h : w.sourceSent cfg c bytes = .ok w') :
    Sources w w' := by
  obtain ⟨allDone, ch, l, -, w₁, hw₁, rfl⟩ := sourceSent_ok h
  have hfirst : Sources w w₁ := by
    rw [hw₁]
    exact .of_eq w rfl rfl rfl rfl rfl rfl
  split
  · exact (hfirst.trans (update_sources w₁ c ch l)).trans (dropSource_sources _ c)
  · exact hfirst.trans (update_sources w₁ c ch l)

theorem sourceBlocked_ok (h : w.sourceBlocked cfg c = .ok w') :
    ∃ allDone ch l, (w.chan c).consumed cfg.szClid 0 = .ok (allDone, ch, l) ∧
      (w.update c ch l).setFdev connectedEvents = .ok w' := by
  rw [sourceBlocked] at h
  dsimp only [bind, Except.bind] at h
  split at h
  · cases h
  · rename_i r hr
    exact ⟨r.1, r.2.1, r.2.2, hr, h⟩

theorem sourceFailed_ok {now : TimePoint} (h : w.sourceFailed c now = .ok w') :
    ∃ w₁, (w.update c (w.chan c).failed []).clearSocket = .ok w₁ ∧
      w' = w₁.setRstev now (seconds 30) := by
  rw [sourceFailed] at h
  dsimp only [bind, Except.bind] at h
  split at h
  · cases h
  · rename_i w₁ hw₁
    cases h
    exact ⟨w₁, hw₁, rfl⟩

/-- What a turn can be. -/
theorem sendTurn_ok {now : TimePoint} {r : SendResult} {again : Bool}
    (h : w.sendTurn cfg now r = .ok (w', again)) : ∃ c rest iov ch l,
      w.streamerQueue = c :: rest ∧
      ((w.chan c).describe cfg.szClid [] = .ok (false, iov, ch, l) ∧ again = true ∧
          w' = (w.update c ch l).dropSource c ∨
        (w.chan c).describe cfg.szClid [] = .ok (true, iov, ch, l) ∧
          ∃ w₁, w₁ = { w.update c ch l with upoutReady := false } ∧
            ((again = true ∧ ∃ n, w₁.sourceSent cfg c (iov.flatten.take n) = .ok w') ∨
              (again = false ∧ w₁.sourceBlocked cfg c = .ok w') ∨
              (again = false ∧ w₁.sourceFailed c now = .ok w'))) := by
  rw [sendTurn] at h
  split at h
  · cases h
  · rename_i c rest hqueue
    split at h
    · cases h
    · rename_i iov ch l hdescribe
      cases h
      exact ⟨c, rest, iov, ch, l, hqueue, .inl ⟨hdescribe, rfl, rfl⟩⟩
    · rename_i iov ch l hdescribe
      refine ⟨c, rest, iov, ch, l, hqueue, .inr ⟨hdescribe, _, rfl, ?_⟩⟩
      dsimp only at h
      split at h
      · rename_i n
        obtain ⟨w₁, hs, heq⟩ := map_ok h
        obtain ⟨rfl, rfl⟩ := Prod.mk.inj heq
        exact .inl ⟨rfl, n, hs⟩
      · obtain ⟨w₁, hs, heq⟩ := map_ok h
        obtain ⟨rfl, rfl⟩ := Prod.mk.inj heq
        exact .inr (.inl ⟨rfl, hs⟩)
      · obtain ⟨w₁, hs, heq⟩ := map_ok h
        obtain ⟨rfl, rfl⟩ := Prod.mk.inj heq
        exact .inr (.inr ⟨rfl, hs⟩)

/-- **The rule for the loop in `try_send`.**  `J` is its invariant, and `Q` holds after it. -/
theorem sendLoop_rule {now : TimePoint} {J Q : World C → Prop}
    (hempty : ∀ w, J w → w.streamers = [] → Q w)
    (hagain : ∀ w r w', J w → w.sendTurn cfg now r = .ok (w', true) → J w')
    (hstop : ∀ w r w', J w → w.sendTurn cfg now r = .ok (w', false) → Q w')
    {sends : List SendResult} (hw : J w) (h : sendLoop cfg now sends w = .ok w') : Q w' := by
  induction sends generalizing w with
  | nil =>
    rw [sendLoop] at h
    split at h
    · cases h
      exact hempty _ hw (List.isEmpty_iff.mp ‹_›)
    · cases h
  | cons r sends ih =>
    rw [sendLoop] at h
    split at h
    · cases h
      exact hempty _ hw (List.isEmpty_iff.mp ‹_›)
    · split at h
      · cases h
      · exact ih (hagain _ _ _ hw ‹_›) h
      · cases h
        exact hstop _ _ _ hw ‹_›

/-- How sending ends: with no source left, with a socket that is waited for, or with a retry. -/
def Sent (now : TimePoint) (w w' : World C) : Prop :=
  ∃ w₁, Sources w w₁ ∧ (w' = w₁ ∧ w₁.streamers = [] ∨ w₁.setFdev connectedEvents = .ok w' ∨
    ∃ w₂, w₁.clearSocket = .ok w₂ ∧ w' = w₂.setRstev now (seconds 30))

theorem sendTurn_sources {now : TimePoint} {r : SendResult}
    (h : w.sendTurn cfg now r = .ok (w', true)) : Sources w w' := by
  obtain ⟨c, rest, iov, ch, l, -, ⟨-, -, rfl⟩ | ⟨-, w₁, rfl, hturn⟩⟩ := sendTurn_ok h
  · exact (update_sources w c ch l).trans (dropSource_sources _ c)
  · have hupdate := update_sources w c ch l
    have hfirst : Sources w { w.update c ch l with upoutReady := false } :=
      hupdate.trans (.of_eq _ rfl rfl rfl rfl rfl rfl)
    obtain ⟨-, n, hsent⟩ | ⟨hfalse, -⟩ | ⟨hfalse, -⟩ := hturn
    · exact hfirst.trans (sourceSent_sources hsent)
    · cases hfalse
    · cases hfalse

theorem sendTurn_sent {now : TimePoint} {r : SendResult}
    (h : w.sendTurn cfg now r = .ok (w', false)) : Sent now w w' := by
  obtain ⟨c, rest, iov, ch, l, -, ⟨-, htrue, -⟩ | ⟨-, w₁, rfl, hturn⟩⟩ := sendTurn_ok h
  · cases htrue
  · have hupdate := update_sources w c ch l
    have hfirst : Sources w { w.update c ch l with upoutReady := false } :=
      hupdate.trans (.of_eq _ rfl rfl rfl rfl rfl rfl)
    obtain ⟨htrue, -⟩ | ⟨-, hblocked⟩ | ⟨-, hfailed⟩ := hturn
    · cases htrue
    · obtain ⟨allDone, ch, l, -, hset⟩ := sourceBlocked_ok hblocked
      exact ⟨_, hfirst.trans (update_sources _ c ch l), .inr (.inl hset)⟩
    · obtain ⟨w₂, hclear, rfl⟩ := sourceFailed_ok hfailed
      exact ⟨_, hfirst.trans (update_sources _ c _ []), .inr (.inr ⟨w₂, hclear, rfl⟩)⟩

theorem trySend_ok (h : w.trySend cfg io = .ok w') :
    w.sock ≠ none ∧ w.connected ∧ Sent io.now w w' := by
  rw [trySend] at h
  split at h
  · cases h
  rename_i hsock
  split at h
  · cases h
  rename_i hconnected
  rw [Option.isNone_iff_eq_none] at hsock
  rw [Bool.not_eq_true, Bool.not_eq_false'] at hconnected
  refine ⟨hsock, hconnected, ?_⟩
  split at h
  · exact ⟨w, sources_refl w, .inr (.inl h)⟩
  · refine sendLoop_rule (J := Sources w) (fun w₁ hw₁ hempty ↦ ⟨w₁, hw₁, .inl ⟨rfl, hempty⟩⟩)
      (fun w₁ r w₂ hw₁ hturn ↦ hw₁.trans (sendTurn_sources hturn))
      (fun w₁ r w₂ hw₁ hturn ↦ ?_) (sources_refl w) h
    obtain ⟨w₃, hw₃, hend⟩ := sendTurn_sent hturn
    exact ⟨w₃, hw₁.trans hw₃, hend⟩

/-! ## Handlers

A handler is described by the functions that it calls, one after the other. -/

/-- A new source. -/
def joined (w : World C) (c : C) : World C :=
  { w with streamers := w.streamers ++ [c], streamerQueue := w.streamerQueue ++ [c] }

omit [DecidableEq C] in
theorem joined_sources (w : World C) (c : C) : Sources w (w.joined c) :=
  .of_eq w rfl rfl rfl rfl rfl rfl

/-- A source is known already, or it joins the others; or it is the first, and something is done
about it. -/
theorem ready_ok (h : w.ready cfg c io = .ok w') :
    c ∈ w.streamers ∧ w' = w ∨
      c ∉ w.streamers ∧
        (w' = w.joined c ∧ (w.streamers ≠ [] ∨
            w.sock = none ∧ ((w.sched.event .rstev).isSet ∨ w.addrev.on) ∨
            w.sock ≠ none ∧ w.connected = false) ∨
          w.streamers = [] ∧ (w.joined c).initiateLookup io.started = .ok w' ∨
          w.streamers = [] ∧ (w.joined c).trySend cfg io = .ok w') := by
  rw [ready] at h
  split at h
  · cases h
    exact .inl ⟨‹_›, rfl⟩
  refine .inr ⟨‹_›, ?_⟩
  dsimp only at h
  split at h
  · rename_i hsome
    cases h
    refine .inl ⟨rfl, .inl fun hnil ↦ ?_⟩
    rw [hnil] at hsome
    cases hsome
  rename_i hempty
  rw [Bool.not_eq_true, Bool.not_eq_false', List.isEmpty_iff] at hempty
  split at h
  · rename_i hsock
    rw [Option.isNone_iff_eq_none] at hsock
    split at h
    · cases h
      exact .inl ⟨rfl, .inr (.inl ⟨hsock, .inl ‹_›⟩)⟩
    · split at h
      · cases h
        exact .inl ⟨rfl, .inr (.inl ⟨hsock, .inr ‹_›⟩)⟩
      · exact .inr (.inl ⟨hempty, h⟩)
  · rename_i hsock
    rw [Option.isNone_iff_eq_none] at hsock
    split at h
    · rename_i hconnected
      cases h
      exact .inl ⟨rfl, .inr (.inr ⟨hsock, by simpa using hconnected⟩)⟩
    · exact .inr (.inr ⟨hempty, h⟩)

/-- Something has come from the peer, or the connection is lost. -/
def hangsUp (evs : Mask) : Bool := evs.epollhup || evs.epollrdhup || evs.epollin

theorem connectNext_ok (h : w.connectNext cfg io = .ok w') :
    ∃ rest w₁, { w with ainf := rest }.clearSocket = .ok w₁ ∧ w₁.tryConnect cfg io = .ok w' := by
  rw [connectNext] at h
  split at h
  · cases h
  · rename_i rest _
    dsimp only [bind, Except.bind] at h
    split at h
    · cases h
    · exact ⟨rest, _, ‹_›, h⟩

/-- The connection fails, and the next address is tried; it is lost; it is there; or the socket is
writable. -/
theorem descriptorReady_ok {evs : Mask} (h : w.descriptorReady cfg evs io = .ok w') :
    w.sock ≠ none ∧
      (w.connected = false ∧ w.connectNext cfg io = .ok w' ∨
        w.connected ∧ hangsUp evs ∧
          (∃ w₁, w.clearSocket = .ok w₁ ∧ w' = w₁.setRstev io.now (seconds 33)) ∨
        w.connected = false ∧ { w with connected := true }.setFdev connectedEvents = .ok w' ∨
        w.connected ∧ hangsUp evs = false ∧
          { w with upoutReady := true }.trySend cfg io = .ok w') := by
  rw [descriptorReady] at h
  split at h
  · cases h
  rename_i hsock
  rw [Option.isNone_iff_eq_none] at hsock
  refine ⟨hsock, ?_⟩
  have hup : hangsUp evs = (evs.epollhup || evs.epollrdhup || evs.epollin) := rfl
  rw [← hup] at h
  cases hconnected : w.connected with
  | false =>
    simp only [hconnected, Bool.not_false, if_true] at h
    split at h
    · split at h
      · cases h
      · cases h
      · exact .inl ⟨rfl, h⟩
    · split at h
      · cases h
      · split at h
        · cases h
        · exact .inr (.inr (.inl ⟨rfl, h⟩))
        · exact .inl ⟨rfl, h⟩
  | true =>
    simp only [hconnected, Bool.not_true, Bool.false_eq_true, if_false] at h
    split at h
    · rename_i hhup
      dsimp only [bind, Except.bind] at h
      split at h
      · cases h
      · cases h
        exact .inr (.inl ⟨rfl, hhup, _, ‹_›, rfl⟩)
    · rename_i hhup
      split at h
      · cases h
      · exact .inr (.inr (.inr ⟨rfl, by simpa using hhup, h⟩))

/-! ## Steps

So is a step.  The handler is called in a world in which its event is in no queue. -/

theorem discard_ok (h : w.step cfg (.discard c) = .ok w') :
    ∃ q l, (w.chan c).queue.discardFile = .ok (q, l) ∧
      w' = w.update c { w.chan c with queue := q } l := by
  obtain ⟨r, hd, rfl⟩ := map_ok h
  exact ⟨r.1, r.2, hd, rfl⟩

theorem lookupEnds_ok {rc : Int} {result : List AddrInfo}
    (h : w.step cfg (.lookupEnds rc result) = .ok w') :
    w' = w ∨ w.addrev.data = some .inProgress ∧
      w' = { w with addrev := ⟨w.addrev.on, some (.ended rc result)⟩, pending := true } := by
  rw [step] at h
  split at h
  · rename_i hdata
    cases h
    refine .inr ⟨hdata, ?_⟩
    rw [AddressEvent.ends, hdata]
  · cases h
    exact .inl rfl

theorem poll_ok {now : TimePoint} {signalled : Bool} {evs : Option Mask}
    (h : w.step cfg (.poll now signalled evs) = .ok w') :
    w' = w ∨ ∃ s, w.sched.collect now (w.reports signalled evs) = .ok s ∧
      w' = { w with sched := s, pending := w.pending && !(signalled && w.readable) } := by
  rw [step] at h
  split at h
  · cases h
    exact .inl rfl
  · obtain ⟨s, hs, rfl⟩ := map_ok h
    exact .inr ⟨s, hs, rfl⟩

/-- The world in which a handler is called: its event is not queued any more. -/
def taken (w : World C) (p : Nat) (e : Ev C) : World C := { w with sched := w.sched.take p e }

theorem notify_ok {e : Ev C} (h : w.step cfg (.notify e io) = .ok w') :
    w' = w ∨ ∃ p, e ∈ w.sched.queues.bucket p ∧ (w.taken p e).handle cfg io e = .ok w' := by
  rw [step] at h
  split at h
  · cases h
    exact .inl rfl
  · split at h
    · exact .inr ⟨_, ‹_›, h⟩
    · cases h
      exact .inl rfl

end World
end TcpIngress
end UdpTun
