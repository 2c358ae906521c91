import UdpTun.TcpIngress.Attempts
import UdpTun.TcpIngress.Sending

/-!
# A connection and its peer

`descriptor_ready` tells what has become of a connection from the events that have been reported,
from `SO_ERROR`, and from its own flag `connected`.  Here the kernel's side is beside the ingress:
`Sock` is what the kernel has of the socket, `Net` what happens to it, and in a `System` the two run
together.  What a poll reports of the socket, and what `getsockopt` gives, is what the kernel has of
it at that time.  Between the two, and before them, anything can happen to the connection.

The handler takes it that a hang-up before it has seen the connection means that `connect` has
failed, and asserts that there is an error.  A peer that closes its end at once, as an egress does
with a peer that it does not know, is too quick for it: `early_close_aborts`.  In every other case
the handler does what it should, as far as what it calls returns: `handled_iff`.

* `Turn` is what a handler does with the socket, and `handle_turn` that every handler does one of
  these things.
* `Watchful` is the invariant of the ingress, and `Linked` that of the ingress and the kernel.
* `Linked.returns_iff` says when the handler returns; `handled_iff` puts it together with the
  assertions and with what the handler leaves.
-/

set_option autoImplicit false

namespace UdpTun

/-- What `epoll` reports for a descriptor that is `ready`, when it watches for `expected`. -/
def Mask.among (ready expected : Mask) : Mask where
  epollin := ready.epollin && expected.epollin
  epollout := ready.epollout && expected.epollout
  epollrdhup := ready.epollrdhup && expected.epollrdhup
  -- these two are always watched for
  epollhup := ready.epollhup
  epollerr := ready.epollerr

namespace TcpIngress

/-! ## The kernel

A socket is being connected, or it is connected, or there is nothing more to come of it.  From the
peer there may be something to read, or it may have hung up, at any time after the connection has
been made. -/

/-- An error number. -/
abbrev Errno := { e : Nat // e ≠ 0 }

/-- What the kernel has of a socket. -/
inductive Sock
  /-- `connect` has not been completed. -/
  | connecting
  /-- It has been.  There is data to read; the peer has shut its end down; there is room for more
  data to send. -/
  | connected (data shut room : Bool)
  /-- It could not be, or is closed in both directions by now; the error is `SO_ERROR`. -/
  | closed (error : Nat)
  deriving DecidableEq

/-- What happens to a connection. -/
inductive Net
  | completes
  | fails (e : Errno)
  | sends
  | shutsDown
  | closes
  | resets (e : Errno)
  /-- The send buffer has room, or is full. -/
  | buffers (room : Bool)

namespace Sock

/-- `SO_ERROR`. -/
def error : Sock → Nat
  | .closed e => e
  | _ => 0

/-- The state of the descriptor, as `epoll` has it. -/
def ready : Sock → Mask
  | .connecting => {}
  | .connected data shut room =>
    { epollin := data || shut, epollrdhup := shut, epollout := room }
  | .closed e =>
    { epollin := true, epollout := true, epollrdhup := true, epollhup := true, epollerr := e ≠ 0 }

/-- What does not apply in a state has no effect there. -/
def step : Sock → Net → Sock
  | .connecting, .completes => .connected false false true
  | .connecting, .fails e => .closed e
  | .connected _ shut room, .sends => .connected true shut room
  | .connected data _ room, .shutsDown => .connected data true room
  | .connected _ _ _, .closes => .closed 0
  | .connected _ _ _, .resets e => .closed e
  | .connected data shut _, .buffers room => .connected data shut room
  | k, _ => k

/-- Whatever is reported, there is something to be read or room to write. -/
theorem ready_among (k : Sock) {expected : Mask} (h : k.ready.among expected ≠ {}) :
    World.hangsUp (k.ready.among expected) ∨ (k.ready.among expected).epollout := by
  by_contra hnone
  simp only [World.hangsUp, not_or, Bool.not_eq_true, Bool.or_eq_false_iff] at hnone
  obtain ⟨⟨⟨hhup, hrdhup⟩, hin⟩, hout⟩ := hnone
  cases k with
  | connecting => exact h rfl
  | connected data shut room =>
    refine h ?_
    rw [Mask.among] at *
    simp_all [ready]
  | closed e => cases hhup

/-- A connection that is being made stays so, until it is made or fails. -/
theorem step_connecting {k : Sock} {n : Net} (h : k.step n = .connecting) : k = .connecting := by
  cases k <;> cases n <;> first | rfl | cases h

end Sock

/-- What `connect` leaves, if it does not fail. -/
def Connect.sock : Connect → Option Sock
  | .connected => some (.connected false false true)
  | .inProgress => some .connecting
  | .failed => none

/-- The socket that the loop in `try_connect` stops at. -/
def opened {C : Type} (cfg : Config C) (io : Io) : Sock :=
  (io.connects.findSome? fun t ↦
    if t.socket.isSome && (!cfg.binds || t.bind) then t.connect.sock else none).getD .connecting

/-- What the system calls of the handler give.  Those for which there is an exception, when they
fail, do not fail. -/
structure Supply where
  now : TimePoint
  bindInfo : List AddrInfo
  attempts : Outcomes

/-- The first `n` outcomes; `SO_ERROR` is the kernel's. -/
def Supply.outcomes (o : Supply) (sends : Sends) (n : Nat) : Io where
  now := o.now
  bindInfo := .ok o.bindInfo
  connects := o.attempts.turns n
  soerr := .ok 0
  sends := sends.turns n

/-! ## The ingress and the kernel

What the ingress learns of its socket is what the kernel has of it at that time.  What it learns of
everything else is given by the steps. -/

/-- An ingress, and what the kernel has of `sock`. -/
structure System (C : Type) where
  world : World C
  kern : Option Sock

namespace World

/-- What the system calls of a step give. -/
def Act.io {C : Type} : Act C → Io
  | .notify _ io => io
  | _ => {}

end World

namespace System

variable {C : Type} [DecidableEq C]

/-- What `epoll` has to report of the socket. -/
def report (s : System C) : Option Mask :=
  s.kern.bind fun k ↦
    let events := k.ready.among (s.world.sched.event .fdev).expected
    if events = {} then none else some events

/-- What `getsockopt` gives, if it does not fail. -/
def soerr (s : System C) : Nat := s.kern.elim 0 Sock.error

/-- The outcomes of system calls that are about the socket are the kernel's. -/
def sees (s : System C) : World.Act C → World.Act C
  | .poll now signalled evs => .poll now signalled (evs.bind fun _ ↦ s.report)
  | .notify e io => .notify e { io with soerr := io.soerr.map fun _ ↦ s.soerr }
  | a => a

/-- The socket after a step of the ingress.  Each socket that is made has a place in `wires`. -/
def after (cfg : Config C) (s : System C) (w : World C) (io : Io) : Option Sock :=
  if w.sock = none then none
  else if s.world.wires.length < w.wires.length then some (opened cfg io)
  else s.kern

def init (cfg : Config C) (queue : C → PayloadQueue) : System C := ⟨.init cfg queue, none⟩

/-- The ingress takes a step, or something happens to its connection. -/
def step (cfg : Config C) (s : System C) : World.Act C ⊕ Net → Except Halt (System C)
  | .inl a => (s.world.step cfg (s.sees a)).map fun w ↦ ⟨w, s.after cfg w a.io⟩
  | .inr n => .ok { s with kern := s.kern.map (·.step n) }

end System

namespace World

variable {C : Type} [DecidableEq C] {cfg : Config C} {w w' : World C} {io : Io}

/-! ## What becomes of the socket

A handler leaves the ingress with its socket as it was, with a new one, or with none and a retry.
This is all that the kernel has to be told. -/

/-- There is no socket, and a retry is due. -/
structure Retrying (w : World C) : Prop where
  sock : w.sock = none
  appl : (w.sched.event .fdev).prioAppl = 0
  rstev : (w.sched.event .rstev).isSet

/-- There is a socket, and its event has just been set. -/
structure Armed (w : World C) : Prop where
  sock : w.sock ≠ none
  ainf : w.ainf ≠ []
  fd : (w.sched.event .fdev).fd = w.sock
  expected : (w.sched.event .fdev).expected.epollrdhup
  appl : (w.sched.event .fdev).prioAppl = 0

/-- What a handler does with the socket. -/
inductive Turn (w w' : World C) : Prop
  | same (sock : w'.sock = w.sock) (ainf : w.sock ≠ none → w'.ainf = w.ainf)
    (fdev : w'.sched.event .fdev = w.sched.event .fdev)
    (wires : w'.wires.length = w.wires.length)
  | retrying (h : Retrying w')
  | armed (h : Armed w') (was : w.sock ≠ none ∧ w'.wires.length = w.wires.length ∨
      w.wires.length < w'.wires.length)

omit [DecidableEq C] in
/-- Nothing else matters of the state before. -/
theorem Turn.congr {w₀ : World C} (h : Turn w₀ w') (hsock : w.sock = w₀.sock)
    (hainf : w.ainf = w₀.ainf) (hfdev : w.sched.event .fdev = w₀.sched.event .fdev)
    (hwires : w.wires = w₀.wires) : Turn w w' := by
  cases h with
  | same h₁ h₂ h₃ h₄ =>
    refine .same (by rw [h₁, hsock]) (fun hne ↦ ?_) (by rw [h₃, hfdev]) (by rw [h₄, hwires])
    rw [h₂ (hsock ▸ hne), hainf]
  | retrying h => exact .retrying h
  | armed h hwas => exact .armed h (by rwa [hsock, hwires])

theorem retrying_setRstev (hsock : w.sock = none) (happl : (w.sched.event .fdev).prioAppl = 0)
    (now : TimePoint) (d : Int) : Retrying (w.setRstev now d) := by
  have hs := Scheduler.changes_timedSet w.sched .rstev (now + d)
  have hne : (Ev.fdev : Ev C) ≠ .rstev := by simp
  refine ⟨hsock, ?_, ?_⟩ <;> rw [setRstev]
  · rwa [hs.event_of_ne hne]
  · rw [hs.event_self]

theorem setFdev_armed {events : Mask} (h : w.setFdev events = .ok w') (hainf : w.ainf ≠ [])
    (hevents : events.epollrdhup) : Armed w' ∧ w.sock ≠ none ∧ w'.wires = w.wires := by
  obtain ⟨fd, s', hfd, rfl, hs⟩ := setFdev_ok h
  have hsock : w.sock ≠ none := by simp [hfd]
  refine ⟨⟨hsock, hainf, ?_, ?_, ?_⟩, hsock, rfl⟩ <;> dsimp only <;> rw [hs.event_self]
  · exact hfd.symm
  · exact hevents
  · rfl

theorem clearSocket_closed (h : w.clearSocket = .ok w') : w'.sock = none ∧
    (w'.sched.event .fdev).prioAppl = 0 ∧ w'.wires = w.wires ∧ w'.ainf = w.ainf := by
  obtain ⟨s', rfl, hs⟩ := clearSocket_ok h
  refine ⟨rfl, ?_, rfl, rfl⟩
  dsimp only
  rw [hs.event_self]
  rfl

/-- A new socket is closed again, or its event is set. -/
theorem connectSocket_armed {t : ConnectTurn} {rest : List AddrInfo} {again : Bool}
    (h : connectSocket cfg w t rest = .ok (w', again)) (hainf : w.ainf ≠ []) :
    w'.wires = w.wires ∧ (again = true ∧ w'.sock = none ∧ (w'.sched.event .fdev).prioAppl = 0 ∨
      again = false ∧ Armed w') := by
  rw [connectSocket] at h
  split at h
  · obtain ⟨w₁, hclear, heq⟩ := map_ok h
    cases heq
    obtain ⟨hsock, happl, hwires, -⟩ := clearSocket_closed hclear
    exact ⟨hwires, .inl ⟨rfl, hsock, happl⟩⟩
  split at h
  · cases h
  split at h
  · obtain ⟨w₁, hclear, heq⟩ := map_ok h
    cases heq
    obtain ⟨hsock, happl, hwires, -⟩ := clearSocket_closed hclear
    exact ⟨hwires, .inl ⟨rfl, hsock, happl⟩⟩
  · obtain ⟨w₁, hset, heq⟩ := map_ok h
    cases heq
    obtain ⟨harmed, -, hwires⟩ := setFdev_armed hset hainf rfl
    exact ⟨hwires, .inr ⟨rfl, harmed⟩⟩
  · obtain ⟨w₁, hset, heq⟩ := map_ok h
    cases heq
    obtain ⟨harmed, -, hwires⟩ := setFdev_armed hset hainf rfl
    exact ⟨hwires, .inr ⟨rfl, harmed⟩⟩

/-- The induction is on the turns. -/
theorem connectLoop_turn {bindInfo : List AddrInfo} {now : TimePoint} {turns : List ConnectTurn}
    (hsock : w.sock = none) (happl : (w.sched.event .fdev).prioAppl = 0)
    (h : connectLoop cfg bindInfo now turns w = .ok w') :
    Retrying w' ∨ Armed w' ∧ w.wires.length < w'.wires.length := by
  induction turns generalizing w with
  | nil =>
    rw [connectLoop] at h
    split at h
    · cases h
      exact .inl (retrying_setRstev (w := { w with ainf := [] }) hsock happl ..)
    · cases h
  | cons t turns ih =>
    rw [connectLoop] at h
    split at h
    · cases h
      exact .inl (retrying_setRstev (w := { w with ainf := [] }) hsock happl ..)
    · rename_i ai rest _
      dsimp only at h
      split at h
      · exact ih (w := { w with ainf := rest }) hsock happl h
      · split at h
        · cases h
        · rename_i w₁ hw₁
          obtain ⟨hwires, ⟨-, hnone, hzero⟩ | ⟨hfalse, -⟩⟩ := connectSocket_armed hw₁ nofun
          · refine (ih hnone hzero h).imp_right fun ⟨harmed, hlt⟩ ↦ ⟨harmed, ?_⟩
            rw [hwires] at hlt
            exact (Nat.lt_succ_self _).trans hlt
          · cases hfalse
        · rename_i w₁ hw₁
          cases h
          obtain ⟨hwires, ⟨htrue, -⟩ | ⟨-, harmed⟩⟩ := connectSocket_armed hw₁ nofun
          · cases htrue
          · refine .inr ⟨harmed, ?_⟩
            rw [hwires]
            exact Nat.lt_succ_self _

theorem tryConnect_turn (happl : (w.sched.event .fdev).prioAppl = 0)
    (h : w.tryConnect cfg io = .ok w') :
    Retrying w' ∨ Armed w' ∧ w.wires.length < w'.wires.length := by
  obtain ⟨hsock, -⟩ := tryConnect_ok h
  rw [tryConnect, hsock, Option.isSome_none, if_neg Bool.false_ne_true] at h
  dsimp only [bind, Except.bind] at h
  split at h
  · cases h
  · exact connectLoop_turn hsock happl h

/-! ## Handlers

Each handler is such a turn, or leaves the socket alone. -/

theorem sendTurn_wires {now : TimePoint} {r : SendResult} {again : Bool}
    (h : w.sendTurn cfg now r = .ok (w', again)) : w'.wires.length = w.wires.length := by
  obtain ⟨c, rest, iov, ch, l, -, ⟨-, -, rfl⟩ | ⟨-, w₁, rfl, hturn⟩⟩ := sendTurn_ok h
  · exact congrArg List.length (update_streamers w c ch l).2.2
  have hfirst : (w.update c ch l).wires = w.wires := (update_streamers w c ch l).2.2
  obtain ⟨-, n, hsent⟩ | ⟨-, hblocked⟩ | ⟨-, hfailed⟩ := hturn
  · obtain ⟨allDone, ch', l', -, w₂, hw₂, rfl⟩ := sourceSent_ok hsent
    have hsecond : w₂.wires.length = w.wires.length := by
      rw [hw₂, ← hfirst]
      dsimp only
      cases (w.update c ch l).wires <;> rfl
    have hthird : (w₂.update c ch' l').wires = w₂.wires := (update_streamers w₂ c ch' l').2.2
    split
    · exact (congrArg List.length hthird).trans hsecond
    · exact (congrArg List.length hthird).trans hsecond
  · obtain ⟨allDone, ch', l', -, hset⟩ := sourceBlocked_ok hblocked
    obtain ⟨fd, s', -, rfl, -⟩ := setFdev_ok hset
    exact congrArg List.length ((update_streamers _ c ch' l').2.2.trans hfirst)
  · obtain ⟨w₂, hclear, rfl⟩ := sourceFailed_ok hfailed
    have hsecond := (clearSocket_closed hclear).2.2.1
    exact congrArg List.length ((hsecond.trans (update_streamers _ c _ []).2.2).trans hfirst)

theorem trySend_wires (h : w.trySend cfg io = .ok w') : w'.wires.length = w.wires.length := by
  rw [trySend] at h
  split at h
  · cases h
  split at h
  · cases h
  split at h
  · obtain ⟨fd, s', -, rfl, -⟩ := setFdev_ok h
    rfl
  · exact sendLoop_rule (J := fun w₁ ↦ w₁.wires.length = w.wires.length)
      (fun w₁ hw₁ _ ↦ hw₁) (fun w₁ r w₂ hw₁ hturn ↦ (sendTurn_wires hturn).trans hw₁)
      (fun w₁ r w₂ hw₁ hturn ↦ (sendTurn_wires hturn).trans hw₁) rfl h

theorem trySend_turn (hainf : w.ainf ≠ []) (h : w.trySend cfg io = .ok w') : Turn w w' := by
  have hwires := trySend_wires h
  obtain ⟨hsock, -, w₁, hs, ⟨rfl, -⟩ | hset | ⟨w₂, hclear, rfl⟩⟩ := trySend_ok h
  · exact .same hs.sock (fun _ ↦ hs.ainf) hs.fdev hwires
  · obtain ⟨harmed, -, -⟩ := setFdev_armed hset (by rwa [hs.ainf]) rfl
    exact .armed harmed (.inl ⟨hsock, hwires⟩)
  · obtain ⟨hnone, happl, -, -⟩ := clearSocket_closed hclear
    exact .retrying (retrying_setRstev hnone happl ..)

omit [DecidableEq C] in
theorem initiateLookup_turn {started : Except Eai Unit} (h : w.initiateLookup started = .ok w') :
    Turn w w' := by
  obtain ⟨-, -, hsock, rfl⟩ := initiateLookup_ok h
  exact .same rfl (fun hne ↦ absurd hsock hne) rfl rfl

theorem ready_turn {c : C} (hainf : w.sock ≠ none → w.ainf ≠ [])
    (h : w.ready cfg c io = .ok w') : Turn w w' := by
  rcases ready_ok h with ⟨-, rfl⟩ | ⟨-, ⟨rfl, -⟩ | ⟨-, hlookup⟩ | ⟨-, hsend⟩⟩
  · exact .same rfl (fun _ ↦ rfl) rfl rfl
  · exact .same rfl (fun _ ↦ rfl) rfl rfl
  · exact (initiateLookup_turn hlookup).congr rfl rfl rfl rfl
  · have hturn := trySend_turn (w := w.joined c) (hainf (trySend_ok hsend).1) hsend
    exact hturn.congr rfl rfl rfl rfl

/-- After a hang-up, the event is not left as it was. -/
theorem descriptorReady_turn {evs : Mask} (hainf : w.ainf ≠ [])
    (h : w.descriptorReady cfg evs io = .ok w') :
    Turn w w' ∧ (hangsUp evs → Retrying w' ∨ Armed w') := by
  obtain ⟨hsock, ⟨-, hnext⟩ | ⟨-, -, w₁, hclear, rfl⟩ | ⟨-, hset⟩ | ⟨-, hup, hsend⟩⟩ :=
    descriptorReady_ok h
  · obtain ⟨rest, w₁, hclear, htry⟩ := connectNext_ok hnext
    obtain ⟨-, happl, hwires, -⟩ := clearSocket_closed hclear
    rcases tryConnect_turn happl htry with hretry | ⟨harmed, hlt⟩
    · exact ⟨.retrying hretry, fun _ ↦ .inl hretry⟩
    · rw [hwires] at hlt
      exact ⟨.armed harmed (.inr hlt), fun _ ↦ .inr harmed⟩
  · obtain ⟨hnone, happl, -, -⟩ := clearSocket_closed hclear
    have hretry := retrying_setRstev hnone happl io.now (seconds 33)
    exact ⟨.retrying hretry, fun _ ↦ .inl hretry⟩
  · obtain ⟨harmed, -, hwires⟩ := setFdev_armed hset hainf rfl
    exact ⟨.armed harmed (.inl ⟨hsock, congrArg List.length hwires⟩), fun _ ↦ .inr harmed⟩
  · refine ⟨?_, fun hhup ↦ absurd hhup (Bool.eq_false_iff.mp hup)⟩
    exact (trySend_turn (w := { w with upoutReady := true }) hainf hsend).congr rfl rfl rfl rfl

theorem managerCheck_turn (hparked : w.sock = none → (w.sched.event .fdev).prioAppl = 0)
    (h : w.managerCheck cfg io = .ok w') : Turn w w' := by
  have hsigSet : ∀ (s : Scheduler (Ev C)) (e : Ev C), e ≠ .sigev →
      (s.sigSet .sigev sigusr2).event e = s.event e := fun s e he ↦
    (Scheduler.changes_sigSet s .sigev sigusr2).event_of_ne he
  rw [managerCheck] at h
  rcases w.addrev.check_cases with hcheck | ⟨-, p, -, hcheck⟩
  · rw [hcheck] at h
    cases h
    exact .same rfl (fun _ ↦ rfl) (hsigSet _ _ (by simp)) rfl
  rw [hcheck] at h
  dsimp only [bind, Except.bind] at h
  split at h
  · cases h
  rename_i w₁ hw₁
  cases h
  have hsock := (addressResolved_ok hw₁).1
  rw [addressResolved] at hw₁
  dsimp only at hw₁
  split at hw₁
  · cases hw₁
  rcases tryConnect_turn
      (w := { w with addrev := { w.addrev with on := false }, ainf := p, connected := false })
      (hparked hsock) hw₁ with
    ⟨h₁, h₂, h₃⟩ | ⟨⟨h₁, h₂, h₃, h₄, h₅⟩, hlt⟩
  · refine .retrying ⟨h₁, ?_, ?_⟩ <;> dsimp only
    · rwa [hsigSet _ .fdev (by simp)]
    · rwa [hsigSet _ .rstev (by simp)]
  · refine .armed ⟨h₁, h₂, ?_, ?_, ?_⟩ (.inr hlt) <;> dsimp only <;>
      rwa [hsigSet _ .fdev (by simp)]

/-- Handlers, and what is done on behalf of others. -/
theorem handle_turn {e : Ev C} (hparked : w.sock = none → (w.sched.event .fdev).prioAppl = 0)
    (hainf : w.sock ≠ none → w.ainf ≠ []) (h : w.handle cfg io e = .ok w') : Turn w w' := by
  cases e with
  | fdev => exact (descriptorReady_turn (hainf (descriptorReady_ok h).1) h).1
  | rstev => exact initiateLookup_turn h
  | sigev => exact managerCheck_turn hparked h
  | queueEvent c => exact ready_turn hainf h

theorem update_turn (w : World C) (c : C) (ch : Channel) (l : List PayloadQueue.Call) :
    Turn w (w.update c ch l) := by
  have hs := update_sources w c ch l
  exact .same hs.sock (fun _ ↦ hs.ainf) hs.fdev (congrArg List.length (update_streamers ..).2.2)

/-! ## The invariant

The part of it that concerns the ingress alone: while there is a socket, hang-ups are watched for,
or have been reported. -/

/-- While there is a socket, its address is kept, and hang-ups are watched for; and what has been
reported is something that the handler knows. -/
structure Watchful (w : World C) : Prop where
  ainf : w.sock ≠ none → w.ainf ≠ []
  expects : w.sock ≠ none → (w.sched.event .fdev).expected.epollrdhup ∨
    (w.sched.event .fdev).got.epollrdhup
  reported : (w.sched.event .fdev).prioAppl ≠ 0 → hangsUp (w.sched.event .fdev).got ∨
    (w.sched.event .fdev).got.epollout

omit [DecidableEq C] in
theorem Watchful.turn (h : w.Watchful) (ht : Turn w w') : w'.Watchful := by
  cases ht with
  | same hsock hainf hfdev _ =>
    refine ⟨fun hne ↦ ?_, fun hne ↦ ?_, ?_⟩
    · rw [hsock] at hne
      rw [hainf hne]
      exact h.ainf hne
    · rw [hsock] at hne
      rw [hfdev]
      exact h.expects hne
    · rw [hfdev]
      exact h.reported
  | retrying hr =>
    exact ⟨fun hne ↦ absurd hr.sock hne, fun hne ↦ absurd hr.sock hne, fun hq ↦ absurd hr.appl hq⟩
  | armed ha _ => exact ⟨fun _ ↦ ha.ainf, fun _ ↦ .inl ha.expected, fun hq ↦ absurd ha.appl hq⟩

theorem taken_fdev {p : Nat} {e : Ev C} (he : e ∈ w.sched.queues.bucket p) :
    (w.taken p e).sched.event .fdev = w.sched.event .fdev ∨
      (w.taken p e).sched.event .fdev = (w.sched.event .fdev).dequeued := by
  have hs := Scheduler.changes_take he
  by_cases heq : Ev.fdev = e
  · subst heq
    exact .inr hs.event_self
  · exact .inl (hs.event_of_ne heq)

theorem Watchful.taken {p : Nat} {e : Ev C} (h : w.Watchful) (he : e ∈ w.sched.queues.bucket p) :
    (w.taken p e).Watchful := by
  rcases taken_fdev he with hfdev | hfdev
  · refine ⟨h.ainf, ?_, ?_⟩ <;> rw [hfdev]
    · exact h.expects
    · exact h.reported
  · refine ⟨h.ainf, ?_, ?_⟩ <;> rw [hfdev]
    · exact h.expects
    · exact fun hq ↦ absurd rfl hq

/-- What a poll reports of the socket. -/
theorem poll_fdev {now : TimePoint} {signalled : Bool} {evs : Option Mask} {s : Scheduler (Ev C)}
    (ht : w.Tidy) (hs : w.sched.collect now (w.reports signalled evs) = .ok s) :
    s.event .fdev = w.sched.event .fdev ∨
      ∃ m, evs = some m ∧
        s.event .fdev = (Scheduler.reported (w.sched.event .fdev) m).enqueued := by
  have hidle : .fdev ∉ w.sched.idleness := fun hmem ↦ by
    obtain ⟨c, hc⟩ := ht.kinds.idle _ hmem
    cases hc
  have hfold := Scheduler.collect_event ht.kinds.wf hs ht.kinds.fdev.2 ht.kinds.fdev.1 hidle
  have hsignals : ∀ v : EventState, (if signalled && w.readable then
      [(.signals [sigusr2] : Ready (Ev C))] else []).foldl (Scheduler.Ready.reads .fdev) v = v := by
    intro v
    split <;> rfl
  unfold reports at hfold
  rw [List.foldl_append, hsignals] at hfold
  split at hfold
  · exact .inr ⟨_, rfl, by simpa [Scheduler.Ready.reads] using hfold⟩
  · exact .inl hfold

omit [DecidableEq C] in
theorem Watchful.poll {s : Scheduler (Ev C)} {pending : Bool} (h : w.Watchful)
    (hs : s.event .fdev = w.sched.event .fdev ∨
      ∃ m, (hangsUp m ∨ m.epollout) ∧
        s.event .fdev = (Scheduler.reported (w.sched.event .fdev) m).enqueued) :
    Watchful { w with sched := s, pending } := by
  rcases hs with hs | ⟨m, hm, hs⟩
  · refine ⟨h.ainf, ?_, ?_⟩ <;> rw [hs]
    · exact h.expects
    · exact h.reported
  · have hfields : (s.event .fdev).got = (w.sched.event .fdev).got.union m ∧
        (s.event .fdev).expected = (w.sched.event .fdev).expected.diff m := by
      rw [hs]
      exact ⟨EventState.enqueued_got _, EventState.enqueued_expected _⟩
    refine ⟨h.ainf, fun hsock ↦ ?_, fun _ ↦ ?_⟩ <;> dsimp only <;> rw [hfields.1]
    · rw [hfields.2]
      have hexpects := h.expects hsock
      simp only [Mask.union, Mask.diff]
      cases m.epollrdhup <;> simp [hexpects]
    · simp only [hangsUp, Mask.union] at *
      rcases hm with hm | hm
      · left
        simp only [Bool.or_eq_true] at hm ⊢
        tauto
      · right
        simp [hm]

end World

/-! ## Runs

The invariant of both: the two have a socket at the same time, and what is reported is not ahead of
what has happened. -/

namespace System

open World

variable {C : Type} [DecidableEq C] {cfg : Config C} {s s' : System C} {io : Io}

/-- The kernel has a socket for the ingress, and while it is being connected nothing has been
reported of it. -/
structure Linked (s : System C) : Prop where
  tidy : s.world.Tidy
  watchful : s.world.Watchful
  kern : s.kern = none ↔ s.world.sock = none
  pending : s.kern = some .connecting → (s.world.sched.event .fdev).prioAppl = 0

theorem linked_init (cfg : Config C) (queue : C → PayloadQueue) : (init cfg queue).Linked := by
  have htidy := tidy_init cfg queue
  exact ⟨htidy, ⟨fun h ↦ absurd rfl h, fun h ↦ absurd rfl h, fun h ↦
    absurd (htidy.wired.parked rfl) h⟩, ⟨fun _ ↦ rfl, fun _ ↦ rfl⟩, nofun⟩

omit [DecidableEq C] in
theorem Linked.after_eq (h : s.Linked) {w : World C} (hsock : w.sock = s.world.sock)
    (hwires : w.wires.length = s.world.wires.length) (io : Io) : s.after cfg w io = s.kern := by
  rw [after, hsock, hwires, if_neg (Nat.lt_irrefl _)]
  split
  · exact (h.kern.mpr ‹_›).symm
  · rfl

omit [DecidableEq C] in
/-- The kernel follows what a handler does with the socket. -/
theorem Linked.turn {w₀ w : World C} (h : s.Linked) (hw : w.Tidy) (hwatch : w₀.Watchful)
    (ht : Turn w₀ w) (hsock : w₀.sock = s.world.sock) (hwires : w₀.wires = s.world.wires)
    (happl : (s.world.sched.event .fdev).prioAppl = 0 → (w₀.sched.event .fdev).prioAppl = 0)
    (io : Io) : Linked ⟨w, s.after cfg w io⟩ := by
  have hwatch' := hwatch.turn ht
  cases ht with
  | same hsock' _ hfdev hlength =>
    rw [h.after_eq (hsock'.trans hsock) (by rw [hlength, hwires])]
    refine ⟨hw, hwatch', ?_, fun hpending ↦ ?_⟩ <;> dsimp only at *
    · rw [hsock', hsock]
      exact h.kern
    · rw [hfdev]
      exact happl (h.pending hpending)
  | retrying hr =>
    rw [after, if_pos hr.sock]
    exact ⟨hw, hwatch', ⟨fun _ ↦ hr.sock, fun _ ↦ rfl⟩, fun _ ↦ hr.appl⟩
  | armed ha hwas =>
    refine ⟨hw, hwatch', ⟨fun hnone ↦ ?_, fun hnone ↦ absurd hnone ha.sock⟩, fun _ ↦ ha.appl⟩
    dsimp only at hnone
    rcases hwas with ⟨hopen, hlength⟩ | hgrew
    · rw [after, if_neg ha.sock, ← hwires, hlength, if_neg (Nat.lt_irrefl _), h.kern,
        ← hsock] at hnone
      exact absurd hnone hopen
    · rw [after, if_neg ha.sock, ← hwires, if_pos hgrew] at hnone
      cases hnone

omit [DecidableEq C] in
/-- What is reported is the kernel's. -/
theorem report_some {m : Mask} (h : s.report = some m) :
    (hangsUp m ∨ m.epollout) ∧ ∃ k, s.kern = some k ∧ k ≠ .connecting := by
  rw [report, Option.bind_eq_some_iff] at h
  obtain ⟨k, hk, hm⟩ := h
  dsimp only at hm
  split at hm
  · cases hm
  · rename_i hne
    cases hm
    refine ⟨k.ready_among hne, k, hk, ?_⟩
    rintro rfl
    exact hne rfl

theorem Linked.poll {w : World C} {now : TimePoint} {signalled : Bool} {evs : Option Mask}
    (h : s.Linked) (hs : s.world.step cfg (s.sees (.poll now signalled evs)) = .ok w) (io : Io) :
    Linked ⟨w, s.after cfg w io⟩ := by
  have htidy := h.tidy.step hs
  rw [sees] at hs
  rcases poll_ok hs with rfl | ⟨sched, hcollect, rfl⟩
  · exact h.turn htidy h.watchful (.same rfl (fun _ ↦ rfl) rfl rfl) rfl rfl id io
  have hafter : s.after cfg { s.world with
      sched
      pending := s.world.pending && !(signalled && s.world.readable) } io = s.kern :=
    h.after_eq rfl rfl io
  rw [hafter]
  have hkern : s.kern = none ↔ s.world.sock = none := h.kern
  rcases poll_fdev h.tidy hcollect with hfdev | ⟨m, hm, hfdev⟩
  · refine ⟨htidy, h.watchful.poll (.inl hfdev), hkern, fun hpending ↦ ?_⟩
    dsimp only
    rw [hfdev]
    exact h.pending hpending
  · obtain ⟨_, -, hreport⟩ := Option.bind_eq_some_iff.mp hm
    obtain ⟨hready, k, hk, hne⟩ := report_some hreport
    refine ⟨htidy, h.watchful.poll (.inr ⟨m, hready, hfdev⟩), hkern, fun hpending ↦ ?_⟩
    exact absurd (Option.some.inj (hk.symm.trans hpending)) hne

/-- The step lemma. -/
theorem Linked.step {a : World.Act C ⊕ Net} (h : s.Linked) (hs : s.step cfg a = .ok s') :
    s'.Linked := by
  cases a with
  | inr n =>
    cases hs
    refine ⟨h.tidy, h.watchful, ?_, fun hpending ↦ h.pending ?_⟩
    · simpa using h.kern
    · obtain ⟨k, hk, hstep⟩ := Option.map_eq_some_iff.mp hpending
      rw [hk, Sock.step_connecting hstep]
  | inl a =>
    obtain ⟨w, hw, rfl⟩ := map_ok hs
    have htidy := h.tidy.step hw
    have hupdate : ∀ c ch l, w = s.world.update c ch l → Linked ⟨w, s.after cfg w a.io⟩ := by
      rintro c ch l rfl
      exact h.turn htidy h.watchful (update_turn ..) rfl rfl id a.io
    cases a with
    | submit c clid data now =>
      cases hw
      exact hupdate _ _ _ rfl
    | activate c =>
      cases hw
      exact hupdate _ _ _ rfl
    | flush c n =>
      cases hw
      exact hupdate _ _ _ rfl
    | discard c =>
      obtain ⟨q, l, -, hw'⟩ := discard_ok hw
      exact hupdate _ _ _ hw'
    | lookupEnds rc result =>
      refine h.turn htidy h.watchful ?_ rfl rfl id _
      rcases lookupEnds_ok hw with rfl | ⟨-, rfl⟩ <;> exact .same rfl (fun _ ↦ rfl) rfl rfl
    | raise =>
      cases hw
      exact h.turn htidy h.watchful (.same rfl (fun _ ↦ rfl) rfl rfl) rfl rfl id _
    | poll now signalled evs => exact h.poll hw _
    | notify e io =>
      rcases notify_ok hw with rfl | ⟨p, he, hhandle⟩
      · exact h.turn htidy h.watchful (.same rfl (fun _ ↦ rfl) rfl rfl) rfl rfl id _
      · have hwatch := h.watchful.taken he
        have hparked := (h.tidy.taken he).wired.parked
        refine h.turn htidy hwatch (handle_turn hparked hwatch.ainf hhandle) rfl rfl (fun hz ↦ ?_) _
        rcases taken_fdev he with hfdev | hfdev
        · rwa [hfdev]
        · rw [hfdev]
          rfl

theorem linked_of_reach {ok : System C → World.Act C ⊕ Net → Prop} {queue : C → PayloadQueue}
    (h : Run.Reach (step cfg) ok (init cfg queue) s) : s.Linked :=
  h.invariant (linked_init cfg queue) fun _ _ _ hl _ hstep ↦ hl.step hstep

/-- A run of both is one of the ingress. -/
theorem world_of_reach {ok : System C → World.Act C ⊕ Net → Prop} {queue : C → PayloadQueue}
    (h : Run.Reach (step cfg) ok (init cfg queue) s) :
    Run.Reach (World.step cfg) Run.anyStep (World.init cfg queue) s.world := by
  induction h with
  | refl => exact .refl
  | tail _ _ hstep ih =>
    rename_i a _ _
    cases a with
    | inl a =>
      obtain ⟨w, hw, rfl⟩ := map_ok hstep
      exact ih.tail trivial hw
    | inr n =>
      cases hstep
      exact ih

/-! ## What `descriptor_ready` does

What is promised of it is that it fails none of its assertions, that there is an address to be told
of, that it returns, and that it leaves the ingress with a socket that is watched or with a retry
due.  It calls `try_connect` when the connection could not be made, and `try_send` when the socket
is writable, and what they take to return is in the condition: `Rebinds` and `Describes`. -/

/-- There is an open socket and the kernel watches it for hang-ups, or there is none and the retry
timer is set. -/
def Settled (w : World C) : Prop :=
  (∃ fd events, w.sock = some fd ∧ w.sched.epoll.get? fd = some (.fdev, events) ∧
    events.epollrdhup) ∨ w.sock = none ∧ (w.sched.event .rstev).isSet

/-- What is promised of `descriptor_ready`, when it is called in `s`. -/
structure Handled (cfg : Config C) (s : System C) (o : Supply) : Prop where
  asserts : ∀ io a, a = .readySock ∨ a = .readySoerr ∨ a = .readyOut →
    s.step cfg (.inl (.notify .fdev io)) ≠ .error (.assertion a)
  ainf : s.world.ainf ≠ []
  settled : ∀ io s', s.step cfg (.inl (.notify .fdev io)) = .ok s' → Settled s'.world
  returns : ∀ sends : Sends, ∃ n s', s.step cfg (.inl (.notify .fdev (o.outcomes sends n))) = .ok s'

/-- The descriptor event is one that can be notified next. -/
def FdevNext (s : System C) : Prop :=
  ∃ p ∈ s.world.sched.lowest, .fdev ∈ s.world.sched.queues.bucket p

/-- Something has come from the peer, or it has hung up, and this has been reported before the
ingress has noticed that the connection has been made; and there is no error. -/
def Premature (s : System C) : Prop :=
  s.world.connected = false ∧ hangsUp (s.world.sched.event .fdev).got ∧
    ∃ k, s.kern = some k ∧ k ≠ .connecting ∧ k.error = 0

/-- When the connection could not be made, `bind` does not fail for ever at one of the addresses
that are left. -/
def Rebinds (cfg : Config C) (s : System C) (o : Supply) : Prop :=
  s.world.connected = false → s.soerr ≠ 0 →
    Unstuck cfg (eligible cfg o.bindInfo s.world.ainf.tail).length o.attempts

/-- When the socket is writable, each source can be described. -/
def Describes (cfg : Config C) (s : System C) : Prop :=
  s.world.connected → hangsUp (s.world.sched.event .fdev).got = false →
    ∀ c ∈ s.world.streamers, Channel.Describable cfg.szClid (s.world.chan c)

/-- The notification of the descriptor event. -/
theorem step_fdev (cfg : Config C) (h : s.FdevNext) : ∃ p,
    .fdev ∈ s.world.sched.queues.bucket p ∧ ∀ io, s.step cfg (.inl (.notify .fdev io)) =
      ((s.world.taken p .fdev).descriptorReady cfg (s.world.sched.event .fdev).got
        { io with soerr := io.soerr.map fun _ ↦ s.soerr }).map
          fun w ↦ ⟨w, s.after cfg w io⟩ := by
  obtain ⟨p, hp, he⟩ := h
  refine ⟨p, he, fun io ↦ ?_⟩
  rw [step, sees, World.step, hp]
  dsimp only
  rw [if_pos he]
  have hgot : ((s.world.sched.take p .fdev).event .fdev).got = (s.world.sched.event .fdev).got := by
    rw [(Scheduler.changes_take he).event_self]
    rfl
  rw [handle, hgot]
  rfl

end System

namespace World

variable {C : Type} [DecidableEq C] {cfg : Config C} {w w' : World C} {io : Io}

/-- The assertions of `descriptor_ready` itself. -/
def Own (x : Halt) : Prop :=
  ∃ a, x = .assertion a ∧ (a = .readySock ∨ a = .readySoerr ∨ a = .readyOut)

theorem not_own_trying {x : Halt} (h : Trying x) : ¬ Own x := by
  rintro ⟨a, rfl, -⟩
  cases h

theorem not_own_sending {x : Halt} (h : Sending x) : ¬ Own x := by
  rintro ⟨a, rfl, ha⟩
  cases h <;> simp at ha

theorem not_own_exception (e : Exception) : ¬ Own (.exception e) := not_own_trying (.exception e)

/-- The handler fails no assertion of its own, unless there is a hang-up, the connection has not
been noticed, and no error is found. -/
theorem descriptorReady_fails {evs : Mask} (hsock : w.sock ≠ none) (hainf : w.ainf ≠ [])
    (hevs : hangsUp evs ∨ evs.epollout)
    (h : ¬ (w.connected = false ∧ hangsUp evs ∧ io.soerr = .ok 0)) :
    Fails (¬ Own ·) (w.descriptorReady cfg evs io) := by
  have hnext : Fails (¬ Own ·) (w.connectNext cfg io) :=
    (trying_connectNext hainf io).mono fun _ ↦ not_own_trying
  rw [descriptorReady]
  split
  · exact absurd (Option.isNone_iff_eq_none.mp ‹_›) hsock
  split
  · -- a hang-up
    rename_i hup
    split
    · rename_i hconnected
      rw [Bool.not_eq_true'] at hconnected
      split
      · exact fails_error (not_own_exception _)
      · exact absurd ⟨hconnected, hup, ‹_›⟩ h
      · exact hnext
    · have hclear := (trying_clearSocket w).mono fun _ ↦ not_own_trying
      exact hclear.bind fun _ _ ↦ fails_ok _
  · rename_i hup
    split
    · rename_i hout
      rw [Bool.not_eq_true'] at hout
      rcases hevs with hevs | hevs
      · exact absurd hevs hup
      · rw [hout] at hevs
        cases hevs
    split
    · split
      · exact fails_error (not_own_exception _)
      · exact (trying_setFdev _ _).mono fun _ ↦ not_own_trying
      · exact hnext
    · exact (sending_trySend _ _).mono fun _ ↦ not_own_sending

/-- The assertion that fails. -/
theorem descriptorReady_aborts (cfg : Config C) {evs : Mask} (hsock : w.sock ≠ none)
    (hconnected : w.connected = false) (hup : hangsUp evs) (herr : io.soerr = .ok 0) :
    w.descriptorReady cfg evs io = .error (.assertion .readySoerr) := by
  rw [hangsUp] at hup
  rw [descriptorReady, if_neg (by simpa using hsock), if_pos hup, hconnected]
  simp [herr]

/-! ## Whether it returns

One of four things is done: the next address is tried, the socket is closed, the socket is watched
again, or something is sent. -/

/-- The next address is tried. -/
theorem descriptorReady_next (cfg : Config C) {evs : Mask} (hsock : w.sock ≠ none)
    (hconnected : w.connected = false) (hevs : hangsUp evs ∨ evs.epollout) {e : Nat} (he : e ≠ 0)
    (herr : io.soerr = .ok e) : w.descriptorReady cfg evs io = w.connectNext cfg io := by
  rw [descriptorReady, if_neg (by simpa using hsock), ← hangsUp, hconnected, herr]
  obtain ⟨e, rfl⟩ := Nat.exists_eq_succ_of_ne_zero he
  cases hup : hangsUp evs with
  | true => rfl
  | false =>
    have hout : evs.epollout = true := hevs.resolve_left (by rw [hup]; exact Bool.false_ne_true)
    rw [hout]
    rfl

/-- Whether it returns then. -/
theorem connectNext_returns (io : Io) (h : w.Tidy) (halone : w.Alone) (hainf : w.ainf ≠ [])
    {bindInfo : List AddrInfo} (hbind : io.bindInfo = .ok bindInfo) (o : Outcomes) :
    (∃ n w', w.connectNext cfg { io with connects := o.turns n } = .ok w') ↔
      Unstuck cfg (eligible cfg bindInfo w.ainf.tail).length o := by
  obtain ⟨ai, rest, hlist⟩ := List.exists_cons_of_ne_nil hainf
  have hrest : Alone { w with ainf := rest } := halone
  obtain ⟨w₁, hclear, hfree, hcursor⟩ := hrest.clearSocket_free h.kinds.wf
  have hnext : ∀ n, w.connectNext cfg { io with connects := o.turns n } =
      w₁.tryConnect cfg { io with connects := o.turns n } := by
    intro n
    rw [connectNext, hlist]
    dsimp only [bind, Except.bind]
    rw [hclear]
  simp only [hnext]
  rw [hfree.tryConnect_returns hbind, hcursor, hlist]
  rfl

/-- Something is sent. -/
theorem descriptorReady_sends (cfg : Config C) {evs : Mask} (hsock : w.sock ≠ none)
    (hconnected : w.connected = true) (hup : hangsUp evs = false) (hout : evs.epollout = true) :
    w.descriptorReady cfg evs io = { w with upoutReady := true }.trySend cfg io := by
  rw [descriptorReady, if_neg (by simpa using hsock), ← hangsUp, hup, hout, hconnected]
  rfl

/-- The socket is closed. -/
theorem descriptorReady_closes (cfg : Config C) {evs : Mask} (h : w.Queued)
    (hconnected : w.connected = true) (hup : hangsUp evs = true) :
    ∃ w', w.descriptorReady cfg evs io = .ok w' := by
  obtain ⟨w', hw'⟩ := clearSocket_total h.wf
  rw [descriptorReady, if_neg (by simpa using h.sock.1), ← hangsUp, hup, hconnected]
  dsimp only [bind, Except.bind]
  rw [if_pos rfl, if_neg (by simp), hw']
  exact ⟨_, rfl⟩

/-- The connection has been made, and the socket is watched again. -/
theorem descriptorReady_completes (cfg : Config C) {evs : Mask} (h : w.Queued)
    (hconnected : w.connected = false) (hup : hangsUp evs = false) (hout : evs.epollout = true)
    (herr : io.soerr = .ok 0) : ∃ w', w.descriptorReady cfg evs io = .ok w' := by
  have hnew : Queued { w with connected := true } := ⟨h.wf, h.sock, h.lined, h.nodup⟩
  rw [descriptorReady, if_neg (by simpa using h.sock.1), ← hangsUp, hup, hout, hconnected, herr]
  exact hnew.setFdev connectedEvents

end World

namespace System

open World

variable {C : Type} [DecidableEq C] {cfg : Config C} {s s' : System C} {io : Io}

omit [DecidableEq C] in
/-- What is due when the descriptor event can be notified. -/
theorem Linked.fdevNext (h : s.Linked) (hnext : s.FdevNext) :
    s.world.sock ≠ none ∧ s.world.ainf ≠ [] ∧ (hangsUp (s.world.sched.event .fdev).got ∨
      (s.world.sched.event .fdev).got.epollout) ∧
      ∃ k, s.kern = some k ∧ k ≠ .connecting ∧ s.soerr = k.error := by
  obtain ⟨p, -, he⟩ := hnext
  have hqueued := queued_of_mem h.tidy.kinds.wf he
  have hsock : s.world.sock ≠ none := fun hnone ↦ hqueued (h.tidy.wired.parked hnone)
  refine ⟨hsock, h.watchful.ainf hsock, h.watchful.reported hqueued, ?_⟩
  cases hk : s.kern with
  | none => exact absurd (h.kern.mp hk) hsock
  | some k =>
    refine ⟨k, rfl,
      fun hconnecting ↦ hqueued (h.pending (hk.trans (congrArg some hconnecting))), ?_⟩
    rw [soerr, hk]
    rfl

/-- Where the handler leaves the ingress. -/
theorem Linked.settled (h : s.Linked) (hnext : s.FdevNext)
    (hs : s.step cfg (.inl (.notify .fdev io)) = .ok s') : Settled s'.world := by
  have hlinked := h.step hs
  obtain ⟨p, he, hstep⟩ := step_fdev cfg hnext
  obtain ⟨hsock, hainf, -, -⟩ := h.fdevNext hnext
  rw [hstep] at hs
  obtain ⟨w, hw, rfl⟩ := map_ok hs
  obtain ⟨hturn, hup⟩ := descriptorReady_turn (w := s.world.taken p .fdev) hainf hw
  have hwatched : ∀ fd, w.sock = some fd → (w.sched.event .fdev).expected.epollrdhup →
      Settled w := by
    intro fd hfd hexpected
    refine .inl ⟨fd, _, hfd, (hlinked.tidy.kinds.wf.epoll fd .fdev _).mpr ⟨?_, rfl⟩, hexpected⟩
    exact hlinked.tidy.wired.sock.trans hfd
  have hretry : Retrying w → Settled w := fun hr ↦ .inr ⟨hr.sock, hr.rstev⟩
  have harmed : Armed w → Settled w := by
    intro ha
    obtain ⟨fd, hfd⟩ := Option.ne_none_iff_exists'.mp ha.sock
    exact hwatched fd hfd ha.expected
  cases hturn with
  | retrying hr => exact hretry hr
  | armed ha _ => exact harmed ha
  | same hsock' _ hfdev _ =>
    cases hhup : hangsUp (s.world.sched.event .fdev).got with
    | true => exact (hup hhup).elim hretry harmed
    | false =>
      -- the event has not been set again, but hang-ups were watched for, and are still
      have hself : (s.world.taken p .fdev).sched.event .fdev =
          (s.world.sched.event .fdev).dequeued := (Scheduler.changes_take he).event_self
      obtain ⟨fd, hfd⟩ := Option.ne_none_iff_exists'.mp hsock
      refine hwatched fd (hsock'.trans hfd) ?_
      rw [hfdev, hself]
      have hnot : (s.world.sched.event .fdev).got.epollrdhup = false := by
        simp only [hangsUp, Bool.or_eq_false_iff] at hhup
        exact hhup.1.2
      rcases h.watchful.expects hsock with hexpects | hgot
      · exact hexpects
      · rw [hnot] at hgot
        cases hgot

/-- The handler returns when `descriptorReady` does. -/
theorem step_returns {p : Nat} (hstep : ∀ io, s.step cfg (.inl (.notify .fdev io)) =
      ((s.world.taken p .fdev).descriptorReady cfg (s.world.sched.event .fdev).got
        { io with soerr := io.soerr.map fun _ ↦ s.soerr }).map fun w ↦ ⟨w, s.after cfg w io⟩)
    (o : Supply) (sends : Sends) :
    (∃ n s', s.step cfg (.inl (.notify .fdev (o.outcomes sends n))) = .ok s') ↔
      ∃ n w', (s.world.taken p .fdev).descriptorReady cfg (s.world.sched.event .fdev).got
        { o.outcomes sends n with soerr := .ok s.soerr } = .ok w' := by
  refine exists_congr fun n ↦ ?_
  rw [hstep]
  constructor
  · rintro ⟨s', hs'⟩
    obtain ⟨w, hw, -⟩ := map_ok hs'
    exact ⟨w, hw⟩
  · rintro ⟨w, hw⟩
    exact ⟨_, congrArg (Except.map _) hw⟩

/-- **Whether the handler returns**, when the peer has not been too quick. -/
theorem Linked.returns_iff (h : s.Linked) (hnext : s.FdevNext) (halone : s.world.Alone)
    (hlined : s.world.streamers = s.world.streamerQueue) (hnodup : s.world.streamerQueue.Nodup)
    (hnot : ¬ s.Premature) (o : Supply) : (∀ sends : Sends, ∃ n s',
      s.step cfg (.inl (.notify .fdev (o.outcomes sends n))) = .ok s') ↔
        s.Rebinds cfg o ∧ s.Describes cfg := by
  obtain ⟨hsock, hainf, hevs, k, hk, hmade, herror⟩ := h.fdevNext hnext
  obtain ⟨p, he, hstep⟩ := step_fdev cfg hnext
  have htidy : (s.world.taken p .fdev).Tidy := h.tidy.taken he
  have halone' : (s.world.taken p .fdev).Alone :=
    halone.changed (Scheduler.changes_take he).event (.inr rfl)
  have hqueued : (s.world.taken p .fdev).Queued :=
    ⟨htidy.kinds.wf, ⟨hsock, htidy.wired.sock⟩, hlined, hnodup⟩
  simp only [step_returns hstep]
  by_cases hfails : s.world.connected = false ∧ s.soerr ≠ 0
  · -- the next address is tried
    have hdescribes : s.Describes cfg := fun htrue ↦ by
      rw [hfails.1] at htrue
      cases htrue
    have hrebinds : s.Rebinds cfg o ↔
        Unstuck cfg (eligible cfg o.bindInfo s.world.ainf.tail).length o.attempts :=
      ⟨fun hr ↦ hr hfails.1 hfails.2, fun hr _ _ ↦ hr⟩
    have hsame : ∀ sends n, (s.world.taken p .fdev).descriptorReady cfg
        (s.world.sched.event .fdev).got { o.outcomes sends n with soerr := .ok s.soerr } =
          (s.world.taken p .fdev).connectNext cfg
            { now := o.now, bindInfo := .ok o.bindInfo, connects := o.attempts.turns n } :=
      fun sends n ↦ descriptorReady_next cfg hsock hfails.1 hevs hfails.2 rfl
    have : Nonempty Sends := ⟨wholes⟩
    simp only [hsame]
    rw [hrebinds, and_iff_left hdescribes, forall_const]
    exact connectNext_returns { now := o.now, bindInfo := .ok o.bindInfo } htidy halone' hainf
      rfl o.attempts
  have hzero : s.world.connected = false → s.soerr = 0 := fun hfalse ↦
    not_not.mp fun hne ↦ hfails ⟨hfalse, hne⟩
  have hrebinds : s.Rebinds cfg o := fun hfalse hne ↦ absurd ⟨hfalse, hne⟩ hfails
  rw [and_iff_right hrebinds]
  cases hup : hangsUp (s.world.sched.event .fdev).got with
  | true =>
    -- the peer has closed the connection
    have hconnected : s.world.connected = true := Bool.eq_true_of_not_eq_false fun hfalse ↦
      hnot ⟨hfalse, hup, k, hk, hmade, herror.symm.trans (hzero hfalse)⟩
    refine iff_of_true (fun sends ↦ ⟨0, ?_⟩) fun _ hfalse ↦ ?_
    · exact descriptorReady_closes cfg hqueued hconnected hup
    · rw [hup] at hfalse
      cases hfalse
  | false =>
    have hout : (s.world.sched.event .fdev).got.epollout = true :=
      hevs.resolve_left (by rw [hup]; exact Bool.false_ne_true)
    cases hconnected : s.world.connected with
    | false =>
      refine iff_of_true (fun sends ↦ ⟨0, ?_⟩) fun htrue ↦ ?_
      · exact descriptorReady_completes cfg hqueued hconnected hup hout
          (congrArg Except.ok (hzero hconnected))
      · rw [hconnected] at htrue
        cases htrue
    | true =>
      have hdescribes : s.Describes cfg ↔
          ∀ c ∈ s.world.streamerQueue, Channel.Describable cfg.szClid (s.world.chan c) := by
        rw [← hlined]
        exact ⟨fun hd ↦ hd hconnected hup, fun hd _ _ ↦ hd⟩
      have hready : Queued { s.world.taken p .fdev with upoutReady := true } :=
        ⟨hqueued.wf, hqueued.sock, hqueued.lined, hqueued.nodup⟩
      have hsame : ∀ sends n, (s.world.taken p .fdev).descriptorReady cfg
          (s.world.sched.event .fdev).got { o.outcomes sends n with soerr := .ok s.soerr } =
            { s.world.taken p .fdev with upoutReady := true }.trySend cfg
              { now := o.now, bindInfo := .ok o.bindInfo, sends := sends.turns n } :=
        fun sends n ↦ descriptorReady_sends cfg hsock hconnected hup hout
      simp only [hsame]
      rw [hdescribes]
      exact hready.trySend_returns rfl hconnected { now := o.now, bindInfo := .ok o.bindInfo }

/-- **What `descriptor_ready` is called with and what it does**, in every run: it keeps its promise
if and only if the peer has not been too quick for it, `bind` does not fail for ever, and what is to
be sent can be described. -/
theorem handled_iff {queue : C → PayloadQueue}
    (h : Run.Reach (step cfg) Run.anyStep (init cfg queue) s) (hnext : s.FdevNext) (o : Supply) :
    s.Handled cfg o ↔ ¬ s.Premature ∧ s.Rebinds cfg o ∧ s.Describes cfg := by
  have hl := linked_of_reach h
  have hworld := world_of_reach h
  obtain ⟨log, hlined⟩ := lined_of_reach hworld
  obtain ⟨hsock, hainf, hevs, k, hk, hmade, herror⟩ := hl.fdevNext hnext
  obtain ⟨p, he, hstep⟩ := step_fdev cfg hnext
  have hreturns : ¬ s.Premature → ((∀ sends : Sends, ∃ n s',
      s.step cfg (.inl (.notify .fdev (o.outcomes sends n))) = .ok s') ↔
        s.Rebinds cfg o ∧ s.Describes cfg) := fun hnot ↦ hl.returns_iff hnext
    (alone_of_reach hworld) hlined.streamers hlined.kept.nodup hnot o
  constructor
  · intro hhandled
    have hnot : ¬ s.Premature := by
      rintro ⟨hconnected, hup, k', hk', -, hzero⟩
      obtain rfl : k = k' := Option.some.inj (hk.symm.trans hk')
      refine hhandled.asserts {} .readySoerr (.inr (.inl rfl)) ?_
      rw [hstep, descriptorReady_aborts cfg (w := s.world.taken p .fdev) hsock hconnected hup
        (congrArg Except.ok (herror.trans hzero))]
      rfl
    exact ⟨hnot, (hreturns hnot).mp hhandled.returns⟩
  · rintro ⟨hnot, hrest⟩
    refine ⟨fun io a ha habort ↦ ?_, hainf, fun io s' ↦ hl.settled hnext, (hreturns hnot).mpr hrest⟩
    have hpre : ¬ ((s.world.taken p .fdev).connected = false ∧
        hangsUp (s.world.sched.event .fdev).got ∧ (io.soerr.map fun _ ↦ s.soerr) = .ok 0) := by
      rintro ⟨hconnected, hup, hzero⟩
      have hzero : s.soerr = 0 := by
        cases hio : io.soerr with
        | error errno =>
          rw [hio] at hzero
          cases hzero
        | ok err =>
          rw [hio] at hzero
          exact Except.ok.inj hzero
      exact hnot ⟨hconnected, hup, k, hk, hmade, herror.symm.trans hzero⟩
    have hfails : Fails (¬ Own ·) ((s.world.taken p .fdev).descriptorReady cfg
        (s.world.sched.event .fdev).got { io with soerr := io.soerr.map fun _ ↦ s.soerr }) :=
      descriptorReady_fails hsock hainf hevs hpre
    rw [hstep] at habort
    exact hfails.map _ habort ⟨a, rfl, ha⟩

/-- A connection is started. -/
def firstConnect : List (World.Act Unit ⊕ Net) :=
  firstSource.map .inl ++ [.inl (.lookupEnds 0 [⟨.inet, 6⟩]), .inl (.poll 1 true none),
    .inl (.notify .sigev { connects := [⟨some 4, true, none, .inProgress⟩] })]

theorem handled_iff_completed : ∃ s : System Unit, s.FdevNext ∧
    s.Handled oneChannel ⟨2, [], ⟨fun _ ↦ none, fun _ ↦ true, fun _ ↦ .failed⟩⟩ := by
  have hrun : Run.Checks (step oneChannel) Run.anyStep (init oneChannel emptyQueue)
      (firstConnect ++ [.inr .completes, .inl (.poll 2 false (some {}))]) fun s ↦
        s.world.sched.lowest = some 1 ∧ .fdev ∈ s.world.sched.queues.bucket 1 ∧
          hangsUp (s.world.sched.event .fdev).got = false ∧ s.soerr = 0 ∧
            s.world.connected = false := by decide +kernel
  obtain ⟨s, hreach, hlowest, hmem, hup, herror, hconnected⟩ := hrun.reach
  have hnext : s.FdevNext := ⟨1, hlowest, hmem⟩
  refine ⟨s, hnext, (handled_iff hreach hnext _).mpr ⟨fun hpremature ↦ ?_, fun _ hne ↦ ?_,
    fun htrue ↦ ?_⟩⟩
  · rw [hpremature.2.1] at hup
    cases hup
  · exact absurd herror hne
  · rw [hconnected] at htrue
    cases htrue

/-- The peer shuts its end down as soon as the connection is there, and the poll finds it there and
shut down. -/
theorem early_close_aborts : ∃ s : System Unit, Run.Reach (step oneChannel) Run.anyStep
    (init oneChannel emptyQueue) s ∧ s.FdevNext ∧ s.kern = some (.connected false true true) ∧
      s.step oneChannel (.inl (.notify .fdev {})) = .error (.assertion .readySoerr) := by
  have hrun : Run.Checks (step oneChannel) Run.anyStep (init oneChannel emptyQueue)
      (firstConnect ++ [.inr .completes, .inr .shutsDown, .inl (.poll 2 false (some {}))])
      fun s ↦ s.world.sched.lowest = some 1 ∧ .fdev ∈ s.world.sched.queues.bucket 1 ∧
        s.kern = some (.connected false true true) ∧
        failure (s.step oneChannel (.inl (.notify .fdev {}))) = some (.assertion .readySoerr) := by
    decide +kernel
  obtain ⟨s, hreach, hlowest, hmem, hkern, habort⟩ := hrun.reach
  exact ⟨s, hreach, ⟨1, hlowest, hmem⟩, hkern, failure_eq.mp habort⟩

end System
end TcpIngress
end UdpTun
