import UdpTun.Lib.Buckets
import UdpTun.Halt
import Mathlib.Data.Int.Order.Basic
import Mathlib.Data.Nat.Basic

/-!
# The scheduler

`Scheduler` of `scheduling.cc` runs the daemon.  Its events are of four kinds, from `idle.cc`,
`timed.cc`, `descriptor.cc` and `signaling.cc`.  Each is first registered, in a way of its kind,
then collected into the queue of its priority by `poll`, and then notified by the same call of
`poll` or a later one.

An event is in one of these places by being listed there, and it also says so itself, in its
fields: `prioAppl` for the queues, `isSet` and `when'` for the table of timers, `signo` for the
signal handlers, `fd` and `expected` for what the kernel watches.  `Scheduler.WF` is that the two
agree, and each operation keeps it.

Events are named by a type `E`, and what they are bound to does not appear here.  One record
`EventState` has the fields of all four kinds.  A poll is taken apart: `Scheduler.collect` is what
it does before the first notification, with the events that `epoll_pwait` reports as an argument,
and `Scheduler.take` removes one event from a queue before it is notified.  The wait itself is left
out, so a poll can come at any time.
-/

set_option autoImplicit false

namespace UdpTun

/-- A point in time of the system clock, in nanoseconds. -/
abbrev TimePoint := Int

/-- `std::chrono::seconds`. -/
def seconds (n : Int) : Int := n * 1000000000

/-- A set of `epoll` events. -/
structure Mask where
  epollin : Bool := false
  epollout : Bool := false
  epollrdhup : Bool := false
  epollhup : Bool := false
  epollerr : Bool := false
  deriving DecidableEq

namespace Mask

/-- `a | b`. -/
def union (a b : Mask) : Mask where
  epollin := a.epollin || b.epollin
  epollout := a.epollout || b.epollout
  epollrdhup := a.epollrdhup || b.epollrdhup
  epollhup := a.epollhup || b.epollhup
  epollerr := a.epollerr || b.epollerr

/-- `a & ~b`. -/
def diff (a b : Mask) : Mask where
  epollin := a.epollin && !b.epollin
  epollout := a.epollout && !b.epollout
  epollrdhup := a.epollrdhup && !b.epollrdhup
  epollhup := a.epollhup && !b.epollhup
  epollerr := a.epollerr && !b.epollerr

end Mask

/-- The fields of `Event` and its four derived classes, less names and handlers. -/
structure EventState where
  /-- `prio_usr`. -/
  prioUsr : Nat := 1
  /-- `prio_appl`: the queue the event is in, or 0. -/
  prioAppl : Nat := 0
  /-- `TimedEvent::when`. -/
  when' : TimePoint := 0
  /-- `TimedEvent::set_`. -/
  isSet : Bool := false
  /-- `DescriptorEvent::fd`, if it is not negative. -/
  fd : Option Nat := none
  got : Mask := {}
  expected : Mask := {}
  /-- `SignalEvent::signo`: the signal the event is set for, or 0. -/
  signo : Nat := 0

/-- `Scheduler`, with the events and with what the kernel watches for it. -/
structure Scheduler (E : Type) where
  table : OrdMap TimePoint (List E)
  idleness : List E
  /-- `signal_handlers`. -/
  signalHandlers : OrdMap Nat (List E)
  watching : List Nat
  queues : OrdMap Nat (List E)
  /-- The interest list of `epfd`: for each descriptor, the event and the mask. -/
  epoll : OrdMap Nat (E × Mask)
  event : E → EventState

/-- What `epoll_pwait` reports in one place. -/
inductive Ready (E : Type)
  /-- The signal descriptor is readable, and these are read from it. -/
  | signals (signos : List Nat)
  | descriptor (e : E) (events : Mask)

namespace Scheduler

variable {E : Type} [DecidableEq E]

/-- A new scheduler, and events that are all new. -/
def init : Scheduler E where
  table := .empty
  idleness := []
  signalHandlers := .empty
  watching := []
  queues := .empty
  epoll := .empty
  event := fun _ ↦ {}

/-- Change the fields of an event. -/
def modify (s : Scheduler E) (e : E) (f : EventState → EventState) : Scheduler E :=
  { s with event := Function.update s.event e (f (s.event e)) }

/-! ## Queues

An event has two priorities.  The one that the user gives is where it goes when it is enqueued; the
applied one says which queue it is in, and is zero if it is in none. -/

/-- `Scheduler::enqueue`. -/
def enqueue (s : Scheduler E) (e : E) : Scheduler E :=
  if (s.event e).prioAppl ≠ 0 then s
  else
    let p := (s.event e).prioUsr
    { s with queues := s.queues.put p e }.modify e fun v ↦ { v with prioAppl := p }

/-- `Scheduler::dequeue`. -/
def dequeue (s : Scheduler E) (e : E) : Scheduler E :=
  if (s.event e).prioAppl ≠ 0 then
    { s with queues := s.queues.drop (s.event e).prioAppl e }.modify e fun v ↦
      { v with prioAppl := 0 }
  else s

/-- `Event::prio`. -/
def prio (s : Scheduler E) (e : E) (p : Nat) : Except Halt (Scheduler E) :=
  if p = 0 then .error (.exception (.invalidArgument "bad prio 0"))
  else
    let a := (s.event e).prioAppl
    let s := if a ≠ 0 ∧ a ≠ p then
        { s with queues := (s.queues.drop a e).put p e }.modify e fun v ↦ { v with prioAppl := p }
      else s
    .ok (s.modify e fun v ↦ { v with prioUsr := p })

/-! ## Idle events

An event that is set again while it is queued is taken out of its queue first, and waits for the
next poll. -/

/-- `IdleEvent::set`. -/
def idleSet (s : Scheduler E) (e : E) : Scheduler E :=
  { s with idleness := s.idleness.insert e }.dequeue e

/-- `IdleEvent::cancel`. -/
def idleCancel (s : Scheduler E) (e : E) : Scheduler E :=
  { s with idleness := s.idleness.filter (· ≠ e) }.dequeue e

/-! ## Timed events

`set` does nothing if the event is set for the same time already.  Unlike its siblings it does not
take the event out of its queue. -/

/-- `Scheduler::cancel` of a timed event. -/
def untable (s : Scheduler E) (e : E) : Scheduler E :=
  { s with table := s.table.drop (s.event e).when' e }

/-- `TimedEvent::set`. -/
def timedSet (s : Scheduler E) (e : E) (when' : TimePoint) : Scheduler E :=
  if (s.event e).isSet ∧ (s.event e).when' = when' then s
  else
    let s := if (s.event e).isSet then s.untable e else s
    { s with table := s.table.put when' e }.modify e fun v ↦ { v with when', isSet := true }

/-- `TimedEvent::cancel`. -/
def timedCancel (s : Scheduler E) (e : E) : Scheduler E :=
  let s := s.dequeue e
  if (s.event e).isSet then (s.untable e).modify e fun v ↦ { v with isSet := false } else s

/-! ## Descriptor events

The kernel is told of every change, and refuses to add a descriptor twice or to modify one that it
does not have.  It is the descriptor that it knows, and not the event. -/

/-- `ENOENT`, when `epoll_ctl` is to modify or delete a descriptor that is not there. -/
def enoent : Nat := 2

/-- `EEXIST`, when `epoll_ctl` is to add a descriptor that is there. -/
def eexist : Nat := 17

/-- `Scheduler::add`: `epoll_ctl` adds or modifies. -/
def add (s : Scheduler E) (e : E) (mod : Bool) : Except Halt (Scheduler E) :=
  match (s.event e).fd with
  | none => .error (.assertion .addFd)
  | some fd =>
    if (s.epoll.get? fd).isSome = mod then
      .ok { s with epoll := s.epoll.insert fd (e, (s.event e).expected) }
    -- the text is the same for both
    else .error (.exception (.systemError (if mod then enoent else eexist) "epoll_ctl(ADD)"))

/-- `Scheduler::remove`. -/
def remove (s : Scheduler E) (e : E) : Except Halt (Scheduler E) :=
  match (s.event e).fd with
  | none => .ok s
  | some fd =>
    if (s.epoll.get? fd).isSome then .ok { s with epoll := s.epoll.erase fd }
    else .error (.exception (.systemError enoent "epoll_ctl(DEL)"))

/-- `DescriptorEvent::set`. -/
def descrSet (s : Scheduler E) (e : E) (fd : Nat) (events : Mask) : Except Halt (Scheduler E) := do
  let s := s.modify e fun v ↦ { v with expected := events, got := {} }
  let s ←
    if (s.event e).fd ≠ some fd then do
      let s ← s.remove e
      (s.modify e fun v ↦ { v with fd := some fd }).add e false
    else s.add e true
  .ok (s.dequeue e)

/-- `DescriptorEvent::cancel`. -/
def descrCancel (s : Scheduler E) (e : E) : Except Halt (Scheduler E) := do
  let s ← s.remove e
  .ok ((s.modify e fun v ↦ { v with fd := none }).dequeue e)

/-- `DescriptorEvent::update`. -/
def descrUpdate (s : Scheduler E) (e : E) (events : Mask) : Except Halt (Scheduler E) :=
  (s.modify e fun v ↦
    { v with got := v.got.union events, expected := v.expected.diff events }).add e true

/-! ## Signal events

The signals that are watched are those for which there is a handler.  `cancel` does not take the
event out of its queue. -/

/-- `Scheduler::update_signal`; `signalfd` succeeds. -/
def updateSignal (s : Scheduler E) (signo : Nat) : Scheduler E :=
  let state := !(s.signalHandlers.bucket signo).isEmpty
  let s := if state then s else { s with signalHandlers := s.signalHandlers.erase signo }
  if state then { s with watching := s.watching.insert signo }
  else { s with watching := s.watching.filter (· ≠ signo) }

/-- `SignalEvent::reset`. -/
def sigReset (s : Scheduler E) (e : E) : Scheduler E :=
  let signo := (s.event e).signo
  { s with signalHandlers := s.signalHandlers.drop signo e }.updateSignal signo

/-- `SignalEvent::cancel`. -/
def sigCancel (s : Scheduler E) (e : E) : Scheduler E :=
  if (s.event e).signo = 0 then s
  else (s.sigReset e).modify e fun v ↦ { v with signo := 0 }

/-- `SignalEvent::set`. -/
def sigSet (s : Scheduler E) (e : E) (signo : Nat) : Scheduler E :=
  let s := if signo = 0 then s.sigCancel e else s
  if (s.event e).signo = signo then s
  else
    let s := if (s.event e).signo ≠ 0 then s.sigReset e else s
    ({ s with signalHandlers := s.signalHandlers.put signo e }.modify e fun v ↦
      { v with signo }).updateSignal signo

/-! ## Destruction

What is left of an event in the containers when its object is gone depends on its class. -/

/-- The four classes of event. -/
inductive Kind
  | idle
  | timed
  | descriptor
  | signal
  deriving DecidableEq

/-- What the destructor of an event does.  Only `SignalEvent` has one of its own.  The one of
`Event` calls `cancel()`, which at that point is `Event::cancel`, and does nothing. -/
def destroy (s : Scheduler E) (e : E) (k : Kind) : Scheduler E :=
  if k = .signal ∧ (s.event e).signo ≠ 0 then s.sigReset e else s

/-! ## Polling

What the wait gives is an argument.  It is read first, in order, and then the timers that are due
are queued, and then the idle events. -/

/-- Change the fields of some events, and enqueue them. -/
def queueAll (g : EventState → EventState) (es : List E) (s : Scheduler E) : Scheduler E :=
  es.foldl (fun s e ↦ (s.modify e g).enqueue e) s

/-- `poll`, for a signal that it has read. -/
def readSignal (s : Scheduler E) (signo : Nat) : Scheduler E :=
  match s.signalHandlers.get? signo with
  | none => s
  | some es =>
    let s := queueAll (fun v ↦ { v with signo := 0 }) es s
    { s with signalHandlers := s.signalHandlers.erase signo }.updateSignal signo

/-- `poll`, for one of the events that `epoll_pwait` gives. -/
def readReady (s : Scheduler E) : Ready E → Except Halt (Scheduler E)
  | .signals signos => .ok (signos.foldl readSignal s)
  | .descriptor e events => (s.descrUpdate e events).map fun s ↦ s.enqueue e

/-- `poll`, up to the timers. -/
def readAll (s : Scheduler E) : List (Ready E) → Except Halt (Scheduler E)
  | [] => .ok s
  | r :: rest =>
    match s.readReady r with
    | .error h => .error h
    | .ok s => readAll s rest

/-- `poll` collects the timed events that are due. -/
def collectTimed (s : Scheduler E) (now : TimePoint) : Scheduler E :=
  let due := (s.table.filter fun t _ ↦ t ≤ now).entries.flatMap Prod.snd
  { queueAll (fun v ↦ { v with isSet := false }) due s with
    table := s.table.filter fun t _ ↦ !(decide (t ≤ now)) }

/-- `poll` collects the idle events. -/
def collectIdle (s : Scheduler E) : Scheduler E :=
  { queueAll id s.idleness s with idleness := [] }

/-- `poll`, up to the first notification. -/
def collect (s : Scheduler E) (now : TimePoint) (ready : List (Ready E)) :
    Except Halt (Scheduler E) :=
  (s.readAll ready).map fun s ↦ (s.collectTimed now).collectIdle

/-- The first priority whose queue is not empty. -/
def lowest (s : Scheduler E) : Option Nat :=
  (s.queues.entries.find? fun p ↦ !p.2.isEmpty).map Prod.fst

/-- `poll` takes an event from the queue of priority `p`, to notify it. -/
def take (s : Scheduler E) (p : Nat) (e : E) : Scheduler E :=
  { s with queues := s.queues.drop p e }.modify e fun v ↦ { v with prioAppl := 0 }

end Scheduler
end UdpTun
