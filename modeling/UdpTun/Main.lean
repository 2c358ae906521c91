import UdpTun.Scheduling.SignalEvents

/-!
# The main loop

`trapped_main`: an outer loop that reads the configuration, sets up what it says and polls; and an
inner loop around the polls, which ends some time after a signal has been seen.  `SIGHUP` asks for
the configuration to be read again, `SIGINT` and `SIGTERM` for the program to end, and `SIGUSR1` for
the log files to be opened again.

The four signals are blocked all the time, so one that is raised is pending until a poll reads it,
if the scheduler watches it.  A `SignalEvent` fires once for each `set`.  That of `SIGHUP` is set
when the configuration is about to be read, and so a second `SIGHUP` stays pending until the next
reading; those of `SIGINT` and `SIGTERM` are never set again.

What the rest of the program does with its own events, in handlers and between polls, can be
anything (`Act.call`).
-/

set_option autoImplicit false

namespace UdpTun

open Scheduler (Kind)

namespace Main

/-- The events of `trapped_main`, and those of the rest of the program. -/
inductive Ev (X : Type)
  | onSighup
  | onSigint
  | onSigterm
  | rotate
  | idle
  | quitTimeout
  | other (x : X)
  deriving DecidableEq

def sighup : Nat := 1
def sigint : Nat := 2
def sigusr1 : Nat := 10
def sigterm : Nat := 15

/-- The classes of events; those of the rest of the program are given. -/
def Ev.kind {X : Type} (kind : X → Kind) : Ev X → Kind
  | .onSighup | .onSigint | .onSigterm | .rotate => .signal
  | .idle => .idle
  | .quitTimeout => .timed
  | .other x => kind x

/-- Where `trapped_main` is. -/
inductive Phase
  /-- At `while (!quit)`. -/
  | top
  /-- The configuration has been read, and all that it speaks of is created and activated. -/
  | setup
  /-- At `while (more)`, and `more` holds. -/
  | waiting
  /-- `poll` has been called. -/
  | polling
  /-- `trapped_main` has returned. -/
  | ended
  deriving DecidableEq

/-- What has been asked for by raising a signal. -/
inductive Request
  | absent
  | made
  /-- Since it was made a poll has read the signals. -/
  | seen
  deriving DecidableEq

namespace Request

def make : Request → Request
  | .absent => .made
  | r => r

def look : Request → Request
  | .made => .seen
  | r => r

end Request

/-- The end of the inner loop, which has been awaited since `began`. -/
structure Wait where
  began : TimePoint
  deadline : TimePoint
  /-- What the clock has read in the polls since. -/
  since : List TimePoint

/-- A record of what matters of a run. -/
structure Journal where
  /-- How often `SIGHUP` has been raised. -/
  hangups : Nat
  /-- `SIGHUP`, since the configuration was last read. -/
  hangup : Request
  /-- `SIGINT` or `SIGTERM`. -/
  stop : Request
  /-- `SIGUSR1`, since its handler was last called. -/
  rotation : Request
  wait : Option Wait

/-- A signal has been raised. -/
def Journal.raise (j : Journal) (signo : Nat) : Journal :=
  if signo = sighup then { j with hangups := j.hangups + 1, hangup := j.hangup.make }
  else if signo = sigint ∨ signo = sigterm then { j with stop := j.stop.make }
  else if signo = sigusr1 then { j with rotation := j.rotation.make }
  else j

/-- The signals have been read. -/
def Journal.look (j : Journal) : Journal :=
  { j with hangup := j.hangup.look, stop := j.stop.look, rotation := j.rotation.look }

/-- A poll has read the clock. -/
def Journal.tick (j : Journal) (now : TimePoint) : Journal :=
  { j with wait := j.wait.map fun w ↦ { w with since := w.since ++ [now] } }

/-- What `epoll_pwait` reports in one place. -/
inductive Report (X : Type)
  | signals
  | descriptor (x : X) (events : Mask)
  deriving DecidableEq

/-- What happens next. -/
inductive Act (X : Type)
  /-- A signal is raised that is blocked. -/
  | raise (signo : Nat)
  /-- The rest of the program calls a member function of one of its events. -/
  | call (x : X) (m : Method)
  /-- `!quit` is tested, and the configuration read, if it can be. -/
  | read (parsed : Bool)
  /-- All is activated. -/
  | activate
  /-- `poll` is called, and collects. -/
  | poll (now : TimePoint) (reports : List (Report X))
  /-- `poll` is called, and `epoll_pwait` gives `EINTR`. -/
  | interrupted
  /-- The poll notifies an event. -/
  | notify (e : Ev X)
  /-- The poll has emptied its queue. -/
  | finish
  /-- What is done after a poll, if `busy()` of some egress or of none is true. -/
  | check (now : TimePoint) (busy : Bool)

end Main

/-- The variables of `trapped_main`. -/
structure Main (X : Type) where
  loop : Loop (Main.Ev X)
  phase : Main.Phase
  reload : Bool
  quit : Bool
  more : Bool
  awaitingIdle : Bool
  /-- How many times the configuration has been read. -/
  readings : Nat
  /-- `root_ptr`: the reading that it points to. -/
  root : Option Nat
  /-- The reading that `Logging` has last been configured with. -/
  logging : Option Nat
  /-- The signals that are pending. -/
  raised : List Nat
  journal : Main.Journal

namespace Main

variable {X : Type} [DecidableEq X]

/-- The scheduler, when `trapped_main` has come to the outer loop.  `idle.prio(10)` is called on an
event that is in no queue. -/
def launched : Scheduler (Ev X) :=
  (((Scheduler.init.sigSet .onSigint sigint).sigSet .onSigterm sigterm).sigSet .rotate
    sigusr1).modify .idle fun v ↦ { v with prioUsr := 10 }

/-- The beginning of the outer loop. -/
def start : Main X where
  loop := { Loop.start with sched := launched }
  phase := .top
  reload := false
  quit := false
  more := false
  awaitingIdle := false
  readings := 0
  root := none
  logging := none
  raised := []
  journal := ⟨0, .absent, .absent, .absent, none⟩

/-- A member function of an event is called. -/
def call (kind : X → Kind) (s : Main X) (e : Ev X) (m : Method) : Except Halt (Main X) :=
  (s.loop.step (Ev.kind kind) (.call e m)).map fun loop ↦ { s with loop }

def raise (s : Main X) (signo : Nat) : Main X :=
  { s with raised := s.raised.insert signo, journal := s.journal.raise signo }

/-- The signals that a poll would read. -/
def readable (s : Main X) : List Nat := s.raised.filter (· ∈ s.loop.sched.watching)

def ready (s : Main X) : Report X → Ready (Ev X)
  | .signals => .signals s.readable
  | .descriptor x events => .descriptor (.other x) events

/-- The configuration has been read, and `Logging::configure` called. -/
def read (s : Main X) : Main X :=
  { s with
    readings := s.readings + 1
    root := some s.readings
    logging := some s.readings
    journal := { s.journal with hangup := .absent }
    phase := .setup }

/-- A poll has collected. -/
def polled (s : Main X) (now : TimePoint) (reports : List (Report X)) : Main X :=
  let s := { s with phase := .polling, journal := s.journal.tick now }
  if .signals ∈ reports then
    { s with raised := s.raised.filter (· ∉ s.loop.sched.watching), journal := s.journal.look }
  else s

/-- The handlers.  Those of other events are `Act.call`s. -/
def handle (kind : X → Kind) (s : Main X) : Ev X → Except Halt (Main X)
  | .onSighup => .ok { s with reload := true }
  | .onSigint | .onSigterm => .ok { s with quit := true }
  | .rotate =>
    { s with
      logging := if s.root.isSome then s.root else s.logging
      journal := { s.journal with rotation := .absent } }.call kind .rotate (.sigSet sigusr1)
  | .idle => s.call kind .idle .idleSet
  | .quitTimeout => .ok { s with more := false }
  | .other _ => .ok s

/-- The end of the inner loop is awaited, for so long. -/
def await (kind : X → Kind) (s : Main X) (now : TimePoint) (duration : Int) :
    Except Halt (Main X) :=
  { s with
    awaitingIdle := true
    journal := { s.journal with
      wait := s.journal.wait.or (some ⟨now, now + duration, []⟩) } }.call kind .quitTimeout
    (.timedSet (now + duration))

/-- `while (more)`, when it has been seen whether all is quiet.  At the end of the body of the outer
loop `root_ptr` is cleared. -/
def turn (s : Main X) (busy : Bool) : Main X :=
  if s.more && (!s.awaitingIdle || busy) then { s with phase := .waiting }
  else { s with
    phase := .top
    more := false
    awaitingIdle := false
    root := none
    journal := { s.journal with wait := none } }

/-- The body of the inner loop, after the poll.  The calls of `deactivate()` and `busy()` are
`Act.call`s. -/
def check (kind : X → Kind) (s : Main X) (now : TimePoint) (busy : Bool) :
    Except Halt (Main X) :=
  (if s.quit then
      if (s.loop.sched.event .quitTimeout).isSet then .ok s else s.await kind now (seconds 10)
    else if s.reload then { s with reload := false }.await kind now (seconds 1)
    else .ok s).map fun s ↦ s.turn busy

/-- One step.  What is not possible does nothing. -/
def step (kind : X → Kind) (s : Main X) : Act X → Except Halt (Main X)
  | .raise signo => .ok (s.raise signo)
  | .call x m => s.call kind (.other x) m
  | .read parsed =>
    match s.phase with
    | .top =>
      if s.quit then .ok { s with phase := .ended }
      else if parsed then
        ({ s with reload := false }.call kind .onSighup (.sigSet sighup)).map read
      else .error (.exception (.library "YAML::LoadFile"))
    | _ => .ok s
  | .activate =>
    match s.phase with
    | .setup =>
      { s with more := true, awaitingIdle := false, phase := .waiting }.call kind .quitTimeout
        .cancel
    | _ => .ok s
  | .poll now reports =>
    match s.phase with
    | .waiting => (s.loop.step (Ev.kind kind) (.poll now (reports.map s.ready))).map fun loop ↦
      { s.polled now reports with loop }
    | _ => .ok s
  | .interrupted =>
    match s.phase with
    | .waiting => .ok { s with phase := .polling }
    | _ => .ok s
  | .notify e =>
    match s.loop.poll with
    | none => .ok s
    | some d =>
      if e ∈ s.loop.sched.queues.bucket d.prio then
        (s.loop.step (Ev.kind kind) (.notify e)).bind fun loop ↦ { s with loop }.handle kind e
      else .ok s
  | .finish => (s.loop.step (Ev.kind kind) .finish).map fun loop ↦ { s with loop }
  | .check now busy =>
    match s.phase, s.loop.poll with
    | .polling, none => s.check kind now busy
    | _, _ => .ok s

end Main
end UdpTun
