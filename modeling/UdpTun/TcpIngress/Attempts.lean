import UdpTun.TcpIngress.Exclusion
import Mathlib.Data.List.DropRight
import Mathlib.Data.List.Infix

/-!
# Trying one address after another

`TCPIngress::try_connect` goes along the list of addresses that the look-up has given, and leaves
the cursor `ainf` where it stops.  An address that is passed over, one that no socket can be made
for, and one that cannot be connected to all move the cursor on.  One whose socket cannot be bound
does not: the loop starts again with the same address, for as long as `bind` fails.

`connectLog` is the loop with a record of the attempts, and `connectLog_fst` says that it is the
same loop.  `Tries` is that the loop ends, after attempts in the order of the list, and with a
connection or a retry; `tries_iff` says that it does so exactly when `bind` does not fail first.
That it ends at all asks for less: `bind` must not fail for ever (`Free.tryConnect_returns`).
The outcomes of the system calls are an endless supply, one for each attempt.
-/

set_option autoImplicit false

namespace UdpTun
namespace TcpIngress

/-! ## Outcomes

A run of the loop may be of any length.  So what the system calls give is a sequence without an end,
of which the loop uses as much as it needs. -/

/-- What the system calls give, attempt by attempt. -/
structure Outcomes where
  socket : Nat → Option Nat
  bind : Nat → Bool
  connect : Nat → Connect

namespace Outcomes

/-- An attempt; the socket can be made non-blocking. -/
def turn (o : Outcomes) (k : Nat) : ConnectTurn := ⟨o.socket k, o.bind k, none, o.connect k⟩

/-- The first attempts. -/
def turns (o : Outcomes) (n : Nat) : List ConnectTurn := (List.range n).map o.turn

/-- The attempts after the first. -/
def tail (o : Outcomes) : Outcomes :=
  ⟨fun k ↦ o.socket (k + 1), fun k ↦ o.bind (k + 1), fun k ↦ o.connect (k + 1)⟩

theorem turns_succ (o : Outcomes) (n : Nat) : o.turns (n + 1) = o.turn 0 :: o.tail.turns n := by
  rw [turns, List.range_succ_eq_map, List.map_cons, List.map_map]
  rfl

end Outcomes

namespace Connect

/-- The connection is made, or is being made. -/
def isOpen : Connect → Bool
  | .failed => false
  | _ => true

/-- What the socket is watched for then. -/
def events : Connect → Mask
  | .connected => World.connectedEvents
  | _ => World.connectingEvents

end Connect

namespace ConnectTurn

variable {C : Type}

/-- There is a socket, and it is to be bound, but `bind` fails. -/
def bindFails (cfg : Config C) (t : ConnectTurn) : Bool :=
  t.socket.isSome && cfg.binds && !t.bind

/-- The attempt is the last. -/
def opens (cfg : Config C) (t : ConnectTurn) : Bool :=
  t.socket.isSome && !t.bindFails cfg && t.connect.isOpen

end ConnectTurn

/-- **`bind` does not fail first**: in the attempts at the first `n` addresses, before one of them
is the last. -/
def Binds {C : Type} (cfg : Config C) (n : Nat) (o : Outcomes) : Prop :=
  ∀ k, k < n → (∀ j, j < k → (o.turn j).opens cfg = false) → (o.turn k).bindFails cfg = false

theorem binds_succ {C : Type} {cfg : Config C} {n : Nat} {o : Outcomes} : Binds cfg (n + 1) o ↔
    (o.turn 0).bindFails cfg = false ∧ ((o.turn 0).opens cfg = false → Binds cfg n o.tail) := by
  constructor
  · intro h
    refine ⟨h 0 (Nat.succ_pos n) nofun, fun hopens k hk hall ↦ ?_⟩
    refine h (k + 1) (Nat.succ_lt_succ hk) fun j hj ↦ ?_
    cases j with
    | zero => exact hopens
    | succ j => exact hall j (Nat.lt_of_succ_lt_succ hj)
  · rintro ⟨hfirst, hrest⟩ k hk hall
    cases k with
    | zero => exact hfirst
    | succ k =>
      exact hrest (hall 0 (Nat.succ_pos k)) k (Nat.lt_of_succ_lt_succ hk) fun j hj ↦
        hall (j + 1) (Nat.succ_lt_succ hj)

/-- Whether the first `k` attempts are enough, when there are `n` addresses to be tried: one of them
is the last, or `bind` has not failed in as many of them as there are addresses. -/
def Suffices {C : Type} (cfg : Config C) (n : Nat) (o : Outcomes) (k : Nat) : Prop :=
  (o.turns k).any (·.opens cfg) ∨ n ≤ (o.turns k).countP (!·.bindFails cfg)

/-- **`bind` does not fail for ever**, at one of `n` addresses. -/
def Unstuck {C : Type} (cfg : Config C) (n : Nat) (o : Outcomes) : Prop := ∃ k, Suffices cfg n o k

theorem suffices_succ {C : Type} {cfg : Config C} {n k : Nat} {o : Outcomes} :
    Suffices cfg n o (k + 1) ↔ (o.turn 0).opens cfg ∨
      Suffices cfg (if (o.turn 0).bindFails cfg then n else n - 1) o.tail k := by
  rw [Suffices, Suffices, Outcomes.turns_succ, List.any_cons, List.countP_cons, Bool.or_eq_true,
    or_assoc]
  refine or_congr_right (or_congr_right ?_)
  cases (o.turn 0).bindFails cfg with
  | true => simp
  | false => simp

/-- It is the first attempt, if that is the last; and otherwise it depends on the rest. -/
theorem unstuck_succ {C : Type} {cfg : Config C} {n : Nat} {o : Outcomes} :
    Unstuck cfg (n + 1) o ↔ (o.turn 0).opens cfg ∨
      Unstuck cfg (if (o.turn 0).bindFails cfg then n + 1 else n) o.tail := by
  constructor
  · rintro ⟨k, hk⟩
    cases k with
    | zero => simp [Suffices, Outcomes.turns] at hk
    | succ k => exact (suffices_succ.mp hk).imp_right fun hrest ↦ ⟨k, hrest⟩
  · rintro (hopens | ⟨k, hk⟩)
    · exact ⟨1, suffices_succ.mpr (.inl hopens)⟩
    · exact ⟨k + 1, suffices_succ.mpr (.inr hk)⟩

theorem unstuck_zero {C : Type} (cfg : Config C) (o : Outcomes) : Unstuck cfg 0 o :=
  ⟨0, .inr (Nat.zero_le _)⟩

namespace World

variable {C : Type} [DecidableEq C] {cfg : Config C} {w w' : World C} {bindInfo : List AddrInfo}
  {now : TimePoint} {io : Io}

/-! ## The loop with a record

Where the loop has ended does not tell what it has tried.  So the attempts are recorded. -/

/-- The places in the list where there is an address to be tried.  A place is the list from there
on, as it is for the cursor. -/
def eligible (cfg : Config C) (bindInfo : List AddrInfo) (l : List AddrInfo) :
    List (List AddrInfo) :=
  l.tails.filter fun s ↦ s.head?.any (!passedOver cfg bindInfo ·)

/-- An attempt: where the cursor is, and what the system calls give. -/
abbrev Attempt := List AddrInfo × ConnectTurn

/-- `connectLoop`, with its attempts. -/
def connectLog (cfg : Config C) (bindInfo : List AddrInfo) (now : TimePoint) :
    List ConnectTurn → World C → Except Halt (World C × List Attempt)
  | turns, w =>
    match w.ainf.dropWhile (passedOver cfg bindInfo) with
    | [] => .ok ({ w with ainf := [] }.setRstev now (seconds 33), [])
    | ai :: rest =>
      match turns with
      | [] => .error .unfinished
      | t :: turns =>
        match t.socket with
        | none => (connectLog cfg bindInfo now turns { w with ainf := rest }).map fun r ↦
          (r.1, (ai :: rest, t) :: r.2)
        | some fd =>
          match connectSocket cfg
            { w with ainf := ai :: rest, sock := some fd, wires := ⟨[], []⟩ :: w.wires } t rest with
          | .error h => .error h
          | .ok (w, true) => (connectLog cfg bindInfo now turns w).map fun r ↦
            (r.1, (ai :: rest, t) :: r.2)
          | .ok (w, false) => .ok (w, [(ai :: rest, t)])

/-- `tryConnect`, with its attempts. -/
def tryConnectLog (cfg : Config C) (w : World C) (io : Io) :
    Except Halt (World C × List Attempt) :=
  if w.sock.isSome then .error (.assertion .connectSock)
  else do
    let bindInfo ← bindAddresses cfg io.bindInfo
    connectLog cfg bindInfo io.now io.connects w

omit [DecidableEq C] in
theorem bindAddresses_ok (cfg : Config C) (bindInfo : List AddrInfo) :
    bindAddresses cfg (.ok bindInfo) = .ok (if cfg.binds then bindInfo else []) := by
  rw [bindAddresses]
  split <;> rfl

theorem map_map_fst {α β : Type} (r : Except Halt (α × List β)) (b : β) :
    (r.map fun p ↦ (p.1, b :: p.2)).map Prod.fst = r.map Prod.fst := by
  cases r <;> rfl

/-- The record changes nothing. -/
theorem connectLog_fst (turns : List ConnectTurn) (w : World C) :
    (connectLog cfg bindInfo now turns w).map Prod.fst =
      connectLoop cfg bindInfo now turns w := by
  induction turns generalizing w with
  | nil =>
    rw [connectLog, connectLoop]
    cases w.ainf.dropWhile (passedOver cfg bindInfo) <;> rfl
  | cons t turns ih =>
    rw [connectLog, connectLoop]
    cases w.ainf.dropWhile (passedOver cfg bindInfo) with
    | nil => rfl
    | cons ai rest =>
      dsimp only
      cases t.socket with
      | none => exact (map_map_fst _ _).trans (ih _)
      | some fd =>
        dsimp only
        generalize connectSocket cfg
          { w with ainf := ai :: rest, sock := some fd, wires := ⟨[], []⟩ :: w.wires } t rest = r
        rcases r with x | ⟨w₁, _ | _⟩
        · rfl
        · rfl
        · exact (map_map_fst _ _).trans (ih _)

theorem tryConnectLog_fst (cfg : Config C) (w : World C) (io : Io) :
    (w.tryConnectLog cfg io).map Prod.fst = w.tryConnect cfg io := by
  rw [tryConnectLog, tryConnect]
  split
  · rfl
  · cases bindAddresses cfg io.bindInfo with
    | error x => rfl
    | ok bindInfo => exact connectLog_fst ..

/-! ## What is to be ensured

There are two ways in which it may end well, and both leave something to wait for.  In between each
address is to have its one attempt. -/

/-- There is a socket, and the descriptor event is set for it. -/
structure Opened (w : World C) (s : List AddrInfo) (t : ConnectTurn) : Prop where
  sock : w.sock ≠ none ∧ w.sock = t.socket
  ainf : w.ainf = s
  fd : (w.sched.event .fdev).fd = w.sock
  expected : (w.sched.event .fdev).expected = t.connect.events

/-- The last attempt is the first one that opens a connection; or all have been made, and there will
be a retry. -/
def Ends (cfg : Config C) (places : List (List AddrInfo)) (w : World C) (log : List Attempt) :
    Prop :=
  (∃ before s t, log = before ++ [(s, t)] ∧ (∀ a ∈ before, a.2.opens cfg = false) ∧
      t.opens cfg ∧ w.Opened s t) ∨
    (∀ a ∈ log, a.2.opens cfg = false) ∧ log.map Prod.fst = places ∧ w.sock = none ∧
      (w.sched.event .rstev).isSet

/-- **`try_connect` ends**, after attempts in the order of the list, none of which is made twice or
left out. -/
def Tries (cfg : Config C) (w : World C) (bindInfo : List AddrInfo) (o : Outcomes)
    (now : TimePoint) : Prop :=
  ∃ n w' log, w.tryConnectLog cfg { now, bindInfo := .ok bindInfo, connects := o.turns n } =
      .ok (w', log) ∧
    log.map Prod.fst <+: eligible cfg bindInfo w.ainf ∧
      Ends cfg (eligible cfg bindInfo w.ainf) w' log

/-! ## Addresses

The places in the list that are to be tried, in order, do not depend on what comes of the attempts.
-/

omit [DecidableEq C] in
/-- The addresses to be bound to matter only if there is one to be bound to. -/
theorem passedOver_used (cfg : Config C) (bindInfo : List AddrInfo) :
    passedOver cfg (if cfg.binds then bindInfo else []) = passedOver cfg bindInfo := by
  cases hbind : cfg.binds with
  | true => rfl
  | false =>
    funext ai
    simp only [passedOver, hbind, Bool.false_and]

omit [DecidableEq C] in
theorem eligible_nil (h : w.ainf.dropWhile (passedOver cfg bindInfo) = []) :
    eligible cfg bindInfo w.ainf = [] := by
  rw [List.dropWhile_eq_nil_iff] at h
  rw [eligible, List.filter_eq_nil_iff]
  intro s hs
  cases s with
  | nil => simp
  | cons ai s =>
    have hmem : ai ∈ w.ainf := ((List.mem_tails _ _).mp hs).subset (List.mem_cons_self ..)
    simp [h ai hmem]

omit [DecidableEq C] in
theorem eligible_cons {ai : AddrInfo} {rest l : List AddrInfo}
    (h : l.dropWhile (passedOver cfg bindInfo) = ai :: rest) :
    eligible cfg bindInfo l = (ai :: rest) :: eligible cfg bindInfo rest := by
  induction l with
  | nil => cases h
  | cons a l ih =>
    rw [List.dropWhile_cons] at h
    rw [eligible, List.tails_cons, List.filter_cons]
    split at h
    · rename_i hpassed
      rw [if_neg (by simp [hpassed])]
      exact ih h
    · rename_i hpassed
      cases h
      rw [if_pos (by simpa using hpassed)]
      rfl

omit [DecidableEq C] in
/-- The places after an attempt. -/
theorem places_next {ai : AddrInfo} {rest : List AddrInfo} {stays : Bool}
    (h : w.ainf.dropWhile (passedOver cfg bindInfo) = ai :: rest)
    (hainf : w'.ainf = if stays then ai :: rest else rest) :
    (if stays then (eligible cfg bindInfo w.ainf).length
      else (eligible cfg bindInfo w.ainf).length - 1) =
        (eligible cfg bindInfo w'.ainf).length := by
  rw [hainf, eligible_cons h, List.length_cons]
  cases stays with
  | true =>
    have hagain : (ai :: rest).dropWhile (passedOver cfg bindInfo) = ai :: rest := by
      rw [← h]
      exact List.dropWhile_idempotent _ _
    rw [if_pos rfl, if_pos rfl, eligible_cons hagain, List.length_cons]
  | false => rfl

omit [DecidableEq C] in
/-- No place comes again further on. -/
theorem not_eligible (ai : AddrInfo) (rest : List AddrInfo) :
    (ai :: rest) ∉ eligible cfg bindInfo rest := by
  intro hmem
  have hsuffix := (List.mem_tails _ _).mp (List.mem_of_mem_filter hmem)
  exact absurd hsuffix.length_le (by simp)

/-! ## The only descriptor

No other event of an ingress is about a descriptor.  So a new socket is never one that is watched
already. -/

/-- No event is about a descriptor but the descriptor event. -/
def Alone (w : World C) : Prop := ∀ e, e ≠ .fdev → (w.sched.event e).fd = none

theorem Alone.changed {s : Scheduler (Ev C)} {e : Ev C} {v : EventState} (h : w.Alone)
    (hs : s.event = Function.update w.sched.event e v)
    (hv : e = .fdev ∨ v.fd = (w.sched.event e).fd) : Alone { w with sched := s } := by
  intro i hi
  dsimp only
  rw [hs]
  by_cases heq : i = e
  · subst heq
    rw [Function.update_self, hv.resolve_left hi]
    exact h i hi
  · rw [Function.update_of_ne heq]
    exact h i hi

theorem Alone.setRstev (h : w.Alone) (d : Int) : (w.setRstev now d).Alone :=
  h.changed (Scheduler.changes_timedSet ..).event (.inr rfl)

theorem Alone.setFdev {events : Mask} (h : w.Alone) (hw : w.setFdev events = .ok w') :
    w'.Alone := by
  obtain ⟨fd, s', -, rfl, hs⟩ := setFdev_ok hw
  exact h.changed hs.event (.inl rfl)

theorem Alone.clearSocket (h : w.Alone) (hw : w.clearSocket = .ok w') : w'.Alone := by
  obtain ⟨s', rfl, hs⟩ := clearSocket_ok hw
  exact h.changed hs.event (.inl rfl)

omit [DecidableEq C] in
theorem Alone.tried (h : w.Alone) (ht : Tried w w') : w'.Alone := by
  intro e he
  have hsame : w'.sched.event e = w.sched.event e := by
    cases e with
    | fdev => exact absurd rfl he
    | rstev => exact ht.rstev
    | sigev => exact ht.sigev
    | queueEvent c => exact ht.apart.event c
  rw [hsame]
  exact h e he

theorem Alone.attempted (h : w.Alone) (ha : Attempted now w w') : w'.Alone := by
  obtain ⟨w₁, htried, ⟨-, rfl⟩ | ⟨-, events, -, hset⟩⟩ := ha
  · exact (h.tried htried).setRstev (seconds 33)
  · exact (h.tried htried).setFdev hset

theorem Alone.update {c : C} (h : w.Alone) (ch : Channel) (l : List PayloadQueue.Call) :
    (w.update c ch l).Alone := by
  rw [World.update, World.calls]
  split
  · exact h.changed (Scheduler.idleSet_event ..) (.inr rfl)
  · exact h

theorem Alone.sendTurn {r : SendResult} {again : Bool} (h : w.Alone)
    (hw : w.sendTurn cfg now r = .ok (w', again)) : w'.Alone := by
  obtain ⟨c, rest, iov, ch, l, -, ⟨-, -, rfl⟩ | ⟨-, w₁, rfl, hturn⟩⟩ := sendTurn_ok hw
  · exact h.update (c := c) ch l
  · have hfirst : Alone { w.update c ch l with upoutReady := false } := h.update (c := c) ch l
    rcases hturn with ⟨-, n, hsent⟩ | ⟨-, hblocked⟩ | ⟨-, hfailed⟩
    · obtain ⟨allDone, ch₁, l₁, -, w₂, hw₂, rfl⟩ := sourceSent_ok hsent
      have hsecond : w₂.Alone := by
        rw [hw₂]
        exact hfirst
      split
      · exact hsecond.update (c := c) ch₁ l₁
      · exact hsecond.update ch₁ l₁
    · obtain ⟨allDone, ch₁, l₁, -, hset⟩ := sourceBlocked_ok hblocked
      exact (hfirst.update ch₁ l₁).setFdev hset
    · obtain ⟨w₂, hclear, rfl⟩ := sourceFailed_ok hfailed
      exact ((hfirst.update _ []).clearSocket hclear).setRstev (seconds 30)

theorem Alone.trySend (h : w.Alone) (hw : w.trySend cfg io = .ok w') : w'.Alone := by
  rw [World.trySend] at hw
  split at hw
  · cases hw
  split at hw
  · cases hw
  split at hw
  · exact h.setFdev hw
  · exact sendLoop_rule (J := Alone) (Q := Alone) (fun _ hw₁ _ ↦ hw₁)
      (fun _ _ _ hw₁ hturn ↦ hw₁.sendTurn hturn) (fun _ _ _ hw₁ hturn ↦ hw₁.sendTurn hturn) h hw

omit [DecidableEq C] in
theorem Alone.initiateLookup {started : Except Eai Unit} (h : w.Alone)
    (hw : w.initiateLookup started = .ok w') : w'.Alone := by
  obtain ⟨-, -, -, rfl⟩ := initiateLookup_ok hw
  exact h

theorem Alone.handle {e : Ev C} (h : w.Alone) (hw : w.handle cfg io e = .ok w') : w'.Alone := by
  cases e with
  | fdev =>
    obtain ⟨-, ⟨-, hnext⟩ | ⟨-, -, w₁, hclear, rfl⟩ | ⟨-, hset⟩ | ⟨-, -, hsend⟩⟩ :=
      descriptorReady_ok hw
    · obtain ⟨rest, w₁, hclear, htry⟩ := connectNext_ok hnext
      have hrest : Alone { w with ainf := rest } := h
      exact (hrest.clearSocket hclear).attempted (tryConnect_ok htry).2
    · exact (h.clearSocket hclear).setRstev (seconds 33)
    · have hconnected : Alone { w with connected := true } := h
      exact hconnected.setFdev hset
    · have hready : Alone { w with upoutReady := true } := h
      exact hready.trySend hsend
  | rstev => exact h.initiateLookup hw
  | sigev =>
    have hsig : ∀ {w₁ : World C}, w₁.Alone →
        Alone { w₁ with sched := w₁.sched.sigSet .sigev sigusr2 } := fun hw₁ ↦
      hw₁.changed (Scheduler.changes_sigSet ..).event (.inr rfl)
    obtain ⟨w₁, rfl, ⟨-, rfl⟩ | ⟨-, -, -, hattempt⟩⟩ := managerCheck_ok hw
    · exact hsig h
    · have hoff : Alone { w with addrev := { w.addrev with on := false } } := h
      exact hsig (hoff.attempted hattempt)
  | queueEvent c =>
    have hjoined : (w.joined c).Alone := h
    rcases ready_ok hw with ⟨-, rfl⟩ | ⟨-, ⟨rfl, -⟩ | ⟨-, hlookup⟩ | ⟨-, hsend⟩⟩
    · exact h
    · exact hjoined
    · exact hjoined.initiateLookup hlookup
    · exact hjoined.trySend hsend

theorem Alone.step {a : Act C} (h : w.Alone) (hwf : w.sched.WF) (hw : w.step cfg a = .ok w') :
    w'.Alone := by
  cases a with
  | submit c clid data now =>
    cases hw
    exact h.update _ _
  | activate c =>
    cases hw
    exact h.update _ _
  | flush c n =>
    cases hw
    exact h.update _ _
  | discard c =>
    obtain ⟨q, l, -, rfl⟩ := discard_ok hw
    exact h.update _ _
  | lookupEnds rc result =>
    rcases lookupEnds_ok hw with rfl | ⟨-, rfl⟩
    · exact h
    · exact h
  | raise =>
    cases hw
    exact h
  | poll now signalled evs =>
    rcases poll_ok hw with rfl | ⟨s, hs, rfl⟩
    · exact h
    · intro e he
      exact (((Scheduler.collect_spec hwf hs).1.moves e).fd).trans (h e he)
  | notify e io =>
    rcases notify_ok hw with rfl | ⟨p, he, hhandle⟩
    · exact h
    · exact Alone.handle (h.changed (Scheduler.changes_take he).event (.inr rfl)) hhandle

theorem alone_of_reach {ok : World C → Act C → Prop} {queue : C → PayloadQueue}
    (h : Run.Reach (step cfg) ok (init cfg queue) w) : w.Alone := by
  refine (h.invariant (I := fun w ↦ w.Tidy ∧ w.Alone) ⟨tidy_init cfg queue, ?_⟩ ?_).2
  · have hinit : Alone { init cfg queue with sched := Scheduler.init } := fun _ _ ↦ rfl
    exact hinit.changed (Scheduler.changes_sigSet ..).event (.inr rfl)
  · exact fun _ _ _ ht _ hstep ↦ ⟨ht.1.step hstep, ht.2.step ht.1.kinds.wf hstep⟩

/-! ## Attempts

One turn of the loop, from a state without a socket: the cursor moves on, or stays, or the loop
ends. -/

/-- The ingress has no socket, and the kernel watches nothing for it. -/
structure Free (w : World C) : Prop where
  wf : w.sched.WF
  sock : w.sock = none
  unwatched : ∀ e, (w.sched.event e).fd = none

/-- A socket has been made, and its event has not been set. -/
structure Fresh (w : World C) (s : List AddrInfo) (fd : Nat) : Prop where
  wf : w.sched.WF
  sock : w.sock = some fd
  unwatched : ∀ e, (w.sched.event e).fd = none
  ainf : w.ainf = s

omit [DecidableEq C] in
/-- So it is whenever an ingress that has been running has no socket. -/
theorem Tidy.free (h : w.Tidy) (halone : w.Alone) (hsock : w.sock = none) : w.Free := by
  refine ⟨h.kinds.wf, hsock, fun e ↦ ?_⟩
  by_cases he : e = .fdev
  · rw [he, h.wired.sock, hsock]
  · exact halone e he

/-- The socket is closed, and no other event is about one. -/
theorem Alone.clearSocket_free (h : w.Alone) (hwf : w.sched.WF) :
    ∃ w', w.clearSocket = .ok w' ∧ w'.Free ∧ w'.ainf = w.ainf := by
  obtain ⟨w', hw'⟩ := clearSocket_total hwf
  obtain ⟨s', rfl, hs⟩ := clearSocket_ok hw'
  refine ⟨_, hw', ⟨hs.wf hwf, rfl, fun e ↦ ?_⟩, rfl⟩
  by_cases he : e = .fdev
  · rw [he, hs.event_self]
  · exact h.clearSocket hw' e he

theorem Fresh.clearSocket {s : List AddrInfo} {fd : Nat} (h : w.Fresh s fd) :
    ∃ w', w.clearSocket = .ok w' ∧ w'.Free ∧ w'.ainf = s := by
  have halone : w.Alone := fun e _ ↦ h.unwatched e
  obtain ⟨w', hw', hfree, hainf⟩ := halone.clearSocket_free h.wf
  exact ⟨w', hw', hfree, hainf.trans h.ainf⟩

theorem Fresh.setFdev {s : List AddrInfo} {fd : Nat} (h : w.Fresh s fd) {t : ConnectTurn}
    (ht : t.socket = some fd) : ∃ w', w.setFdev t.connect.events = .ok w' ∧ w'.Opened s t := by
  have hfree : ∀ e, (w.sched.event e).fd ≠ some fd := by
    intro e he
    rw [h.unwatched e] at he
    cases he
  obtain ⟨sched, hs⟩ := h.wf.descrSet_fresh hfree (h.unwatched .fdev) t.connect.events
  have hevent := (Scheduler.changes_descrSet hs).event_self
  have hset : w.setFdev t.connect.events = .ok { w with sched } := by
    rw [World.setFdev, h.sock]
    dsimp only
    rw [hs]
    rfl
  refine ⟨_, hset, ⟨?_, h.sock.trans ht.symm⟩, h.ainf, ?_, ?_⟩
  · dsimp only
    rw [h.sock]
    exact Option.some_ne_none fd
  · dsimp only
    rw [hevent, h.sock]
    rfl
  · dsimp only
    rw [hevent]
    rfl

/-- What becomes of an attempt for which there is a socket. -/
theorem Fresh.connectSocket {ai : AddrInfo} {rest : List AddrInfo} {fd : Nat}
    (h : w.Fresh (ai :: rest) fd) (cfg : Config C) {t : ConnectTurn} (ht : t.socket = some fd)
    (hfcntl : t.fcntl = none) :
    (t.bindFails cfg ∧ ∃ w', connectSocket cfg w t rest = .ok (w', true) ∧ w'.Free ∧
      w'.ainf = ai :: rest) ∨
    (t.bindFails cfg = false ∧ t.opens cfg = false ∧ ∃ w', connectSocket cfg w t rest =
      .ok (w', true) ∧ w'.Free ∧ w'.ainf = rest) ∨
    (t.bindFails cfg = false ∧ t.opens cfg ∧ ∃ w', connectSocket cfg w t rest = .ok (w', false) ∧
      w'.Opened (ai :: rest) t) := by
  rw [World.connectSocket, ConnectTurn.opens, ConnectTurn.bindFails, ht]
  simp only [Option.isSome_some, Bool.true_and]
  cases hbind : cfg.binds && !t.bind with
  | true =>
    obtain ⟨w', hclear, hfree, hainf⟩ := h.clearSocket
    refine .inl ⟨rfl, w', ?_, hfree, hainf⟩
    rw [if_pos rfl, hclear]
    rfl
  | false =>
    refine .inr ?_
    simp only [Bool.false_eq_true, if_false, hfcntl]
    cases hconnect : t.connect with
    | failed =>
      obtain ⟨w', hclear, hfree, -⟩ := h.clearSocket
      refine .inl ⟨trivial, rfl, { w' with ainf := rest }, ?_,
        ⟨hfree.wf, hfree.sock, hfree.unwatched⟩, rfl⟩
      rw [hclear]
      rfl
    | inProgress =>
      obtain ⟨w', hset, hopened⟩ := h.setFdev ht
      rw [hconnect] at hset
      refine .inr ⟨trivial, rfl, w', ?_, hopened⟩
      show (w.setFdev (Connect.events .inProgress)).map _ = _
      rw [hset]
      rfl
    | connected =>
      have hfresh : Fresh { w with connected := true } (ai :: rest) fd :=
        ⟨h.wf, h.sock, h.unwatched, h.ainf⟩
      obtain ⟨w', hset, hopened⟩ := hfresh.setFdev ht
      rw [hconnect] at hset
      refine .inr ⟨trivial, rfl, w', ?_, hopened⟩
      show (World.setFdev _ (Connect.events .connected)).map _ = _
      rw [hset]
      rfl

/-- **A turn of the loop**: the cursor moves on, or stays, or the loop ends. -/
theorem Free.turn (h : w.Free) (now : TimePoint) {ai : AddrInfo} {rest : List AddrInfo}
    (hdrop : w.ainf.dropWhile (passedOver cfg bindInfo) = ai :: rest) {t : ConnectTurn}
    (hfcntl : t.fcntl = none) :
    (t.opens cfg ∧ t.bindFails cfg = false ∧ ∃ w', w'.Opened (ai :: rest) t ∧ ∀ turns,
      connectLog cfg bindInfo now (t :: turns) w = .ok (w', [(ai :: rest, t)])) ∨
    (t.opens cfg = false ∧ ∃ w', w'.Free ∧
      w'.ainf = (if t.bindFails cfg then ai :: rest else rest) ∧
      ∀ turns, connectLog cfg bindInfo now (t :: turns) w =
        (connectLog cfg bindInfo now turns w').map fun r ↦ (r.1, (ai :: rest, t) :: r.2)) := by
  have hlog : ∀ turns, connectLog cfg bindInfo now (t :: turns) w = match t.socket with
      | none => (connectLog cfg bindInfo now turns { w with ainf := rest }).map fun r ↦
        (r.1, (ai :: rest, t) :: r.2)
      | some fd =>
        match World.connectSocket cfg
          { w with ainf := ai :: rest, sock := some fd, wires := ⟨[], []⟩ :: w.wires } t rest with
        | .error h => .error h
        | .ok (w, true) => (connectLog cfg bindInfo now turns w).map fun r ↦
          (r.1, (ai :: rest, t) :: r.2)
        | .ok (w, false) => .ok (w, [(ai :: rest, t)]) := by
    intro turns
    rw [connectLog, hdrop]
  cases ht : t.socket with
  | none =>
    have hbind : t.bindFails cfg = false := by simp [ConnectTurn.bindFails, ht]
    refine .inr ⟨by simp [ConnectTurn.opens, ht], { w with ainf := rest },
      ⟨h.wf, h.sock, h.unwatched⟩, ?_, fun turns ↦ ?_⟩
    · rw [hbind, if_neg Bool.false_ne_true]
    · rw [hlog, ht]
  | some fd =>
    have hfresh : Fresh { w with
        ainf := ai :: rest
        sock := some fd
        wires := ⟨[], []⟩ :: w.wires } (ai :: rest) fd :=
      ⟨h.wf, rfl, h.unwatched, rfl⟩
    rcases hfresh.connectSocket cfg ht hfcntl with ⟨hbind, w', hw', hfree, hainf⟩ |
      ⟨hbind, hopens, w', hw', hfree, hainf⟩ | ⟨hbind, hopens, w', hw', hopened⟩
    · refine .inr ⟨by simp [ConnectTurn.opens, hbind], w', hfree, by rw [hainf, if_pos hbind],
        fun turns ↦ ?_⟩
      rw [hlog, ht]
      dsimp only
      rw [hw']
    · refine .inr ⟨hopens, w', hfree, by rw [hainf, hbind, if_neg Bool.false_ne_true],
        fun turns ↦ ?_⟩
      rw [hlog, ht]
      dsimp only
      rw [hw']
    · refine .inl ⟨hopens, hbind, w', hopened, fun turns ↦ ?_⟩
      rw [hlog, ht]
      dsimp only
      rw [hw']

/-! ## Whether it ends

For as long as `bind` fails at one address the loop goes round; and it comes to an end as soon as
there are attempts enough in which it does not.  The induction is on the attempts. -/

/-- With enough attempts the loop ends. -/
theorem connectLog_returns (h : w.Free) (now : TimePoint) {k : Nat} {o : Outcomes}
    (hk : Suffices cfg (eligible cfg bindInfo w.ainf).length o k) :
    ∃ n r, connectLog cfg bindInfo now (o.turns n) w = .ok r := by
  induction k generalizing w o with
  | zero =>
    have hplaces : (eligible cfg bindInfo w.ainf).length ≤ 0 := by
      simpa [Suffices, Outcomes.turns] using hk
    cases hdrop : w.ainf.dropWhile (passedOver cfg bindInfo) with
    | nil => exact ⟨0, _, by rw [Outcomes.turns, List.range_zero, List.map_nil, connectLog, hdrop]⟩
    | cons ai rest =>
      rw [eligible_cons hdrop] at hplaces
      cases hplaces
  | succ k ih =>
    cases hdrop : w.ainf.dropWhile (passedOver cfg bindInfo) with
    | nil => exact ⟨0, _, by rw [Outcomes.turns, List.range_zero, List.map_nil, connectLog, hdrop]⟩
    | cons ai rest =>
      rcases h.turn now hdrop (t := o.turn 0) rfl with
        ⟨-, -, w', -, hlog⟩ | ⟨hopens, w', hfree, hainf, hlog⟩
      · exact ⟨1, _, by rw [Outcomes.turns_succ, hlog]⟩
      · have hrest := (suffices_succ.mp hk).resolve_left (by rw [hopens]; exact Bool.false_ne_true)
        rw [places_next hdrop hainf] at hrest
        obtain ⟨n, r, hr⟩ := ih hfree hrest
        exact ⟨n + 1, _, by rw [Outcomes.turns_succ, hlog, hr]; rfl⟩

/-- When it has ended, there were enough. -/
theorem unstuck_of_connectLog (h : w.Free) {n : Nat} {o : Outcomes} {r : World C × List Attempt}
    (hr : connectLog cfg bindInfo now (o.turns n) w = .ok r) :
    Unstuck cfg (eligible cfg bindInfo w.ainf).length o := by
  induction n generalizing w o r with
  | zero =>
    cases hdrop : w.ainf.dropWhile (passedOver cfg bindInfo) with
    | nil =>
      rw [eligible_nil hdrop]
      exact unstuck_zero cfg o
    | cons ai rest =>
      rw [Outcomes.turns, List.range_zero, List.map_nil, connectLog, hdrop] at hr
      cases hr
  | succ n ih =>
    cases hdrop : w.ainf.dropWhile (passedOver cfg bindInfo) with
    | nil =>
      rw [eligible_nil hdrop]
      exact unstuck_zero cfg o
    | cons ai rest =>
      rw [eligible_cons hdrop, List.length_cons, unstuck_succ]
      rcases h.turn now hdrop (t := o.turn 0) rfl with
        ⟨hopens, -⟩ | ⟨-, w', hfree, hainf, hlog⟩
      · exact .inl hopens
      · rw [Outcomes.turns_succ, hlog] at hr
        obtain ⟨r', hr', -⟩ := map_ok hr
        have hrest := ih hfree hr'
        rw [← places_next hdrop hainf, eligible_cons hdrop, List.length_cons,
          Nat.add_sub_cancel] at hrest
        exact .inr hrest

/-- It is the loop alone that decides. -/
theorem Free.tryConnect (h : w.Free) (hbind : io.bindInfo = .ok bindInfo)
    (turns : List ConnectTurn) : w.tryConnect cfg { io with connects := turns } =
      (connectLog cfg (if cfg.binds then bindInfo else []) io.now turns w).map Prod.fst := by
  rw [connectLog_fst, World.tryConnect, h.sock, hbind, bindAddresses_ok]
  rfl

/-- **`try_connect` returns exactly when `bind` does not fail for ever.** -/
theorem Free.tryConnect_returns (h : w.Free) (hbind : io.bindInfo = .ok bindInfo) (o : Outcomes) :
    (∃ n w', w.tryConnect cfg { io with connects := o.turns n } = .ok w') ↔
      Unstuck cfg (eligible cfg bindInfo w.ainf).length o := by
  simp only [h.tryConnect hbind]
  rw [eligible, ← passedOver_used cfg bindInfo, ← eligible]
  constructor
  · rintro ⟨n, w', hw'⟩
    obtain ⟨r, hr, -⟩ := map_ok hw'
    exact unstuck_of_connectLog h hr
  · rintro ⟨k, hk⟩
    obtain ⟨n, r, hr⟩ := connectLog_returns h io.now hk
    exact ⟨n, r.1, by rw [hr]; rfl⟩

/-! ## When it ends as it should

The induction is on the places that are left.  The first attempt is the last one; or it moves the
cursor on, and the rest of the list decides; or it does not, and one place is tried twice. -/

/-- The loop ends as it should. -/
def Concludes (cfg : Config C) (bindInfo : List AddrInfo) (now : TimePoint) (w : World C)
    (o : Outcomes) : Prop :=
  ∃ n w' log, connectLog cfg bindInfo now (o.turns n) w = .ok (w', log) ∧
    log.map Prod.fst <+: eligible cfg bindInfo w.ainf ∧
      Ends cfg (eligible cfg bindInfo w.ainf) w' log

/-- There is nothing left to try. -/
theorem concludes_nil (h : w.Free) (o : Outcomes)
    (hdrop : w.ainf.dropWhile (passedOver cfg bindInfo) = []) :
    Concludes cfg bindInfo now w o := by
  refine ⟨0, { w with ainf := [] }.setRstev now (seconds 33), [], ?_, List.nil_prefix,
    .inr ⟨nofun, ?_, ?_, ?_⟩⟩
  · rw [Outcomes.turns, List.range_zero, List.map_nil, connectLog, hdrop]
  · rw [eligible_nil hdrop]
    rfl
  · exact h.sock
  · have hs := Scheduler.changes_timedSet w.sched .rstev (now + seconds 33)
    show (({ w with ainf := [] }.setRstev now (seconds 33)).sched.event .rstev).isSet
    rw [setRstev, hs.event_self]

/-- The first attempt is not the last, and the cursor moves on: it depends on the rest. -/
theorem concludes_next {o : Outcomes} {ai : AddrInfo} {rest : List AddrInfo}
    (hdrop : w.ainf.dropWhile (passedOver cfg bindInfo) = ai :: rest)
    (hopens : (o.turn 0).opens cfg = false) (hainf : w'.ainf = rest)
    (hlog : ∀ turns, connectLog cfg bindInfo now (o.turn 0 :: turns) w =
      (connectLog cfg bindInfo now turns w').map fun r ↦ (r.1, (ai :: rest, o.turn 0) :: r.2)) :
    Concludes cfg bindInfo now w o ↔ Concludes cfg bindInfo now w' o.tail := by
  rw [Concludes, Concludes, eligible_cons hdrop, hainf]
  constructor
  · rintro ⟨n, w'', log, hrun, hprefix, hends⟩
    cases n with
    | zero =>
      rw [Outcomes.turns, List.range_zero, List.map_nil, connectLog, hdrop] at hrun
      cases hrun
    | succ n =>
      rw [Outcomes.turns_succ, hlog] at hrun
      obtain ⟨⟨w₁, log₁⟩, hrun₁, heq⟩ := map_ok hrun
      cases heq
      refine ⟨n, w₁, log₁, hrun₁, (List.cons_prefix_cons.mp hprefix).2, ?_⟩
      rcases hends with ⟨before, s, t, heq, hbefore, ht, hopened⟩ | ⟨hall, heq, hsock, hset⟩
      · cases before with
        | nil =>
          cases heq
          rw [hopens] at ht
          cases ht
        | cons a before =>
          cases heq
          exact .inl ⟨before, s, t, rfl, fun a ha ↦ hbefore a (List.mem_cons_of_mem _ ha), ht,
            hopened⟩
      · exact .inr ⟨fun a ha ↦ hall a (List.mem_cons_of_mem _ ha), (List.cons.inj heq).2,
          hsock, hset⟩
  · rintro ⟨n, w'', log, hrun, hprefix, hends⟩
    refine ⟨n + 1, w'', (ai :: rest, o.turn 0) :: log, ?_, List.cons_prefix_cons.mpr ⟨rfl, hprefix⟩,
      ?_⟩
    · rw [Outcomes.turns_succ, hlog, hrun]
      rfl
    · rcases hends with ⟨before, s, t, rfl, hbefore, ht, hopened⟩ | ⟨hall, heq, hsock, hset⟩
      · exact .inl ⟨_ :: before, s, t, rfl, List.forall_mem_cons.mpr ⟨hopens, hbefore⟩, ht, hopened⟩
      · exact .inr ⟨List.forall_mem_cons.mpr ⟨hopens, hall⟩, congrArg _ heq, hsock, hset⟩

/-- The first attempt leaves the cursor where it is: the same place is tried twice. -/
theorem not_concludes {o : Outcomes} {ai : AddrInfo} {rest : List AddrInfo}
    (hdrop : w.ainf.dropWhile (passedOver cfg bindInfo) = ai :: rest)
    (hainf : w'.ainf = ai :: rest) (hfree : w'.Free)
    (hlog : ∀ turns, connectLog cfg bindInfo now (o.turn 0 :: turns) w =
      (connectLog cfg bindInfo now turns w').map fun r ↦ (r.1, (ai :: rest, o.turn 0) :: r.2)) :
    ¬ Concludes cfg bindInfo now w o := by
  rintro ⟨n, w'', log, hrun, hprefix, -⟩
  rw [eligible_cons hdrop] at hprefix
  cases n with
  | zero =>
    rw [Outcomes.turns, List.range_zero, List.map_nil, connectLog, hdrop] at hrun
    cases hrun
  | succ n =>
    rw [Outcomes.turns_succ, hlog] at hrun
    obtain ⟨⟨w₁, log₁⟩, hrun₁, heq⟩ := map_ok hrun
    cases heq
    have hsame : w'.ainf.dropWhile (passedOver cfg bindInfo) = ai :: rest := by
      rw [hainf, ← hdrop]
      exact List.dropWhile_idempotent _ _
    -- the next attempt is at the same place
    obtain ⟨t, log₂, rfl⟩ : ∃ t log₂, log₁ = (ai :: rest, t) :: log₂ := by
      cases n with
      | zero =>
        rw [Outcomes.turns, List.range_zero, List.map_nil, connectLog, hsame] at hrun₁
        cases hrun₁
      | succ n =>
        rw [Outcomes.turns_succ] at hrun₁
        rcases hfree.turn now hsame (t := o.tail.turn 0) rfl with
          ⟨-, -, w₂, -, hopened⟩ | ⟨-, w₂, -, -, hnext⟩
        · rw [hopened] at hrun₁
          cases hrun₁
          exact ⟨_, _, rfl⟩
        · rw [hnext] at hrun₁
          obtain ⟨⟨w₃, log₃⟩, -, heq⟩ := map_ok hrun₁
          cases heq
          exact ⟨_, _, rfl⟩
    have htail := (List.cons_prefix_cons.mp hprefix).2
    exact not_eligible ai rest (htail.subset (List.mem_cons_self ..))

/-- The induction is on the places that are left. -/
theorem concludes_iff (h : w.Free) (o : Outcomes) : Concludes cfg bindInfo now w o ↔
    Binds cfg (eligible cfg bindInfo w.ainf).length o := by
  generalize hplaces : (eligible cfg bindInfo w.ainf).length = places
  induction places generalizing w o with
  | zero =>
    refine iff_of_true (concludes_nil h o ?_) nofun
    cases hdrop : w.ainf.dropWhile (passedOver cfg bindInfo) with
    | nil => rfl
    | cons ai rest =>
      rw [eligible_cons hdrop] at hplaces
      cases hplaces
  | succ places ih =>
    cases hdrop : w.ainf.dropWhile (passedOver cfg bindInfo) with
    | nil =>
      rw [eligible_nil hdrop] at hplaces
      cases hplaces
    | cons ai rest =>
      rw [binds_succ]
      rcases h.turn now hdrop (t := o.turn 0) rfl with
        ⟨hopens, hbind, w', hopened, hlog⟩ | ⟨hopens, w', hfree, hainf, hlog⟩
      · refine iff_of_true ⟨1, w', [(ai :: rest, o.turn 0)], ?_, ?_, ?_⟩ ⟨hbind, fun hnot ↦ ?_⟩
        · rw [Outcomes.turns_succ, hlog]
        · rw [eligible_cons hdrop]
          exact List.cons_prefix_cons.mpr ⟨rfl, List.nil_prefix⟩
        · exact .inl ⟨[], _, _, rfl, nofun, hopens, hopened⟩
        · rw [hopens] at hnot
          cases hnot
      · cases hbind : (o.turn 0).bindFails cfg with
        | true =>
          rw [hbind, if_pos rfl] at hainf
          exact iff_of_false (not_concludes hdrop hainf hfree hlog) nofun
        | false =>
          rw [hbind, if_neg Bool.false_ne_true] at hainf
          rw [concludes_next hdrop hopens hainf hlog, ih hfree o.tail ?_]
          · simp [hopens]
          · rw [eligible_cons hdrop, List.length_cons] at hplaces
            rw [hainf]
            exact Nat.succ.inj hplaces

/-! ## The whole of it

`tryConnect` is the loop, after a look-up of the addresses to be bound to. -/

theorem Free.tryConnectLog (h : w.Free) (bindInfo : List AddrInfo) (now : TimePoint)
    (turns : List ConnectTurn) :
    w.tryConnectLog cfg { now, bindInfo := .ok bindInfo, connects := turns } =
      connectLog cfg (if cfg.binds then bindInfo else []) now turns w := by
  rw [World.tryConnectLog, h.sock, bindAddresses_ok]
  rfl

/-- It is the loop alone that decides. -/
theorem Free.tries (h : w.Free) (bindInfo : List AddrInfo) (o : Outcomes) (now : TimePoint) :
    Tries cfg w bindInfo o now ↔
      Concludes cfg (if cfg.binds then bindInfo else []) now w o := by
  have hplaces : eligible cfg (if cfg.binds then bindInfo else []) w.ainf =
      eligible cfg bindInfo w.ainf := by rw [eligible, eligible, passedOver_used]
  rw [Concludes, hplaces]
  simp only [Tries, h.tryConnectLog]

/-- **`try_connect` ends as it should exactly when `bind` does not fail first.** -/
theorem tries_iff (h : w.Free) (bindInfo : List AddrInfo) (o : Outcomes) (now : TimePoint) :
    Tries cfg w bindInfo o now ↔ Binds cfg (eligible cfg bindInfo w.ainf).length o := by
  rw [h.tries, concludes_iff h, eligible, eligible, passedOver_used]

/-- An ingress that binds its sockets. -/
def bound : Config Unit := { oneChannel with bindHost := "localhost" }

/-- It has found addresses. -/
def found (addrs : List AddrInfo) : World Unit := { init bound emptyQueue with ainf := addrs }

theorem free_found (addrs : List AddrInfo) : (found addrs).Free := by
  have hreach : Run.Reach (step bound) Run.anyStep (init bound emptyQueue)
      (init bound emptyQueue) := .refl
  have hfree := (tidy_init bound emptyQueue).free (alone_of_reach hreach) rfl
  exact ⟨hfree.wf, hfree.sock, hfree.unwatched⟩

/-- The first address cannot be connected to, the second has no address to bind to, and the third is
fine. -/
theorem tries_third :
    Tries bound (found [⟨.inet, 6⟩, ⟨.inet6, 6⟩, ⟨.inet, 6⟩]) [⟨.inet, 6⟩]
      ⟨fun k ↦ some (k + 3), fun _ ↦ true, fun k ↦ if k = 0 then .failed else .inProgress⟩ 0 :=
  (tries_iff (free_found _) _ _ _).mpr fun _ _ _ ↦ rfl

/-- `bind` fails for the only address, again and again. -/
theorem bind_retries_forever :
    ¬ Tries bound (found [⟨.inet, 6⟩]) [⟨.inet, 6⟩]
      ⟨fun k ↦ some (k + 3), fun _ ↦ false, fun _ ↦ .inProgress⟩ 0 := by
  rw [(free_found _).tries, concludes_iff (free_found _)]
  intro hbinds
  exact Bool.noConfusion (hbinds 0 (by decide) nofun)

end World
end TcpIngress
end UdpTun
