import UdpTun.AddressEntries
import UdpTun.Network
import UdpTun.Scheduling
import UdpTun.TcpEgress.Connection

/-!
# The TCP egress

`TCPEgress` of `tcp_egress.cc` listens for connections on every address that its host name gives,
and hands what comes in on them to the destinations.  A `Listener` that fails to open its socket
tries again later, on its timer; a `Connection` that is closed stays in `conns` until `flush`, for
which it sets the idle event.  `flush` is also called by a timer of its own, and by `busy`.

`Egress` is the object with its events and the scheduler that runs them.  An `Act` is what happens
to it next: `main` activates or deactivates it, or asks whether it is busy; a poll, up to the first
notification; or the notification of one of its events, whose handler then runs to its end.  The
events that a poll has collected can be notified in any order.  What system calls give is in the
`Act`.

Objects have numbers, given in the order of their construction, and their events are named by these.
A member of an object that is gone may still be queued; to notify it is undefined.
-/

set_option autoImplicit false

namespace UdpTun
namespace TcpEgress

/-- The events of an egress, of its listeners and of its connections. -/
inductive Ev
  | idev
  | flusher
  | listenFd (n : Nat)
  | rbev (n : Nat)
  | connFd (n : Nat)
  deriving DecidableEq

/-- `Listener`. -/
structure Listener where
  id : Nat
  /-- `family`, `protocol` and `addr`, as they come from `activate`. -/
  entry : AddressEntry
  /-- `sock`, if it is not negative. -/
  sock : Option Nat

/-- A place in `conns`. -/
structure Conn (S : Type) where
  id : Nat
  conn : Connection S

/-- What an egress is configured with, where there are defaults for all but the name. -/
structure Settings where
  name : String
  ipv4 : Bool := true
  ipv6 : Bool := true
  host : String := "localhost"
  srv : String := "9999"
  clientTimeout : Int := seconds 3600

/-- The settings of an egress, and what there is to a `ClientState`. -/
structure Config (S : Type) extends Settings where
  /-- Its functions, at a point in time. -/
  ops : TimePoint → ClientOps S
  /-- `expired`. -/
  expired : S → TimePoint → Bool

/-- `TCPEgress`. -/
structure Egress (S : Type) where
  sched : Scheduler Ev
  listeners : List Listener
  conns : List (Conn S)
  flushTime : TimePoint
  /-- The number of the next object. -/
  nextId : Nat
  /-- The addresses that `activate` has found, until `deactivate`. -/
  resolved : Option (List AddressEntry)
  /-- The sockets that have been obtained and not closed. -/
  descriptors : List Nat

/-- The values of `errno` that `accept` can leave. -/
inductive Errno
  | netdown
  | proto
  | noprotoopt
  | hostdown
  | nonet
  | hostunreach
  | opnotsupp
  | netunreach
  | connaborted
  | intr
  | nobufs
  | nomem
  /-- Any other, or none. -/
  | other (n : Nat)
  deriving DecidableEq

namespace Errno

/-- `handle_fd` calls `accept` again. -/
def again : Errno → Bool
  | netdown | proto | noprotoopt | hostdown | nonet | hostunreach | opnotsupp | netunreach => true
  | _ => false

/-- `handle_fd` waits for another connection. -/
def waits : Errno → Bool
  | connaborted | intr | nobufs | nomem => true
  | _ => false

end Errno

/-- What `accept` gives. -/
inductive Accept
  /-- `known` is what `seek` of the peer table gives. -/
  | accepted (clsock : Nat) (known : Bool)
  | failed (ec : Errno)

/-- What the system calls of `rebind` give. -/
structure Bind where
  socket : Option Nat
  bind : Bool
  listen : Bool

/-- What the system calls of a handler give. -/
structure Io where
  now : TimePoint := 0
  bind : Bind := ⟨none, true, true⟩
  /-- What earlier calls have left in `errno`. -/
  errno : Errno := .other 0
  accepts : List Accept := []
  recv : Recv := .error

/-- `EPOLLIN`. -/
def listeningEvents : Mask := { epollin := true }

/-- `fdev.cancel()` in the destructors of several objects. -/
def cancelAll : List Ev → Scheduler Ev → Except Halt (Scheduler Ev)
  | [], s => .ok s
  | i :: is, s =>
    match s.descrCancel i with
    | .error h => .error h
    | .ok s => cancelAll is s

namespace Egress

variable {S : Type}

/-! ## Listeners

A listener has a socket and a timer, and is meant to have one of them in use at any time.
`handle_fd` goes on accepting until `accept` gives an error that ends the loop. -/

/-- `rbev.set`, with a duration. -/
def setRbev (e : Egress S) (n : Nat) (now : TimePoint) (duration : Int) : Egress S :=
  { e with sched := e.sched.timedSet (.rbev n) (now + duration) }

/-- The member `sock` of a listener is set. -/
def setSock (e : Egress S) (n : Nat) (sock : Option Nat) : Egress S :=
  { e with listeners := e.listeners.map fun l ↦ if l.id = n then { l with sock } else l }

/-- `Listener::rebind`.  A socket that is closed again leaves no trace. -/
def rebind (e : Egress S) (l : Listener) (now : TimePoint) (r : Bind) : Except Halt (Egress S) :=
  if l.sock.isSome then .error (.assertion .rebindSock)
  else
    match r.socket with
    | none => .ok (e.setRbev l.id now (seconds 30))
    | some fd =>
      if !r.bind then .ok (e.setRbev l.id now (seconds 65))
      else if !r.listen then .ok (e.setRbev l.id now (seconds 30))
      else do
        let s ← (e.sched.timedCancel (.rbev l.id)).descrSet (.listenFd l.id) fd listeningEvents
        .ok ({ e with sched := s, descriptors := fd :: e.descriptors }.setSock l.id (some fd))

/-- `parent.conns.emplace_back`. -/
def addConn (e : Egress S) (clsock : Nat) : Except Halt (Egress S) := do
  let s ← e.sched.descrSet (.connFd e.nextId) clsock listeningEvents
  .ok { e with
    sched := s
    conns := e.conns ++ [⟨e.nextId, .create clsock (List.replicate sizeofBuf 0)
      List.length_replicate⟩]
    nextId := e.nextId + 1 }

/-- The second `switch` in `handle_fd`.  It is on `errno`, and `accept` leaves that alone when it
succeeds. -/
def establish (e : Egress S) (errno : Errno) (clsock : Option Nat) (known : Bool) :
    Except Halt (Egress S) :=
  if errno.waits then .ok e
  else
    match clsock with
    | none => .error (.assertion .acceptSock)
    | some fd =>
      if known then e.addConn fd else .ok { e with descriptors := e.descriptors.erase fd }

/-- The end of a turn of the loop in `handle_fd`. -/
def acceptNext (e : Egress S) (l : Listener) : Except Halt (Egress S) :=
  match l.sock with
  | none => .error (.assertion .listenSock)
  | some fd => do
    let s ← e.sched.descrSet (.listenFd l.id) fd listeningEvents
    .ok { e with sched := s }

/-- The listening socket is given up. -/
def acceptFailed (e : Egress S) (l : Listener) (now : TimePoint) : Except Halt (Egress S) := do
  let s ← e.sched.descrCancel (.listenFd l.id)
  .ok (({ e with
    sched := s
    descriptors := l.sock.elim e.descriptors e.descriptors.erase }.setSock l.id none).setRbev
      l.id now (seconds 30))

/-- The loop in `Listener::handle_fd`. -/
def acceptLoop (l : Listener) (now : TimePoint) : Errno → List Accept → Egress S →
    Except Halt (Egress S)
  | _, [], _ => .error .unfinished
  | errno, .accepted clsock known :: _, e => do
    let e ← { e with descriptors := clsock :: e.descriptors }.establish errno (some clsock) known
    e.acceptNext l
  | _, .failed ec :: accepts, e =>
    if ec.again then acceptLoop l now ec accepts e
    else if ec.waits then do
      let e ← e.establish ec none false
      e.acceptNext l
    else e.acceptFailed l now

/-! ## Housekeeping

`flush` is called by the flusher, by the idle event and by `busy`.  It goes through the connections
and through the listeners, and sets the flusher again. -/

/-- `Connection::flushable`. -/
def connFlushable (c : Conn S) : Bool := c.conn.sock.isNone

/-- `Listener::flushable`. -/
def listenerFlushable (e : Egress S) (l : Listener) : Bool :=
  l.sock.isNone && !(e.sched.event (.rbev l.id)).isSet

/-- `Connection::flush`. -/
def connFlush (cfg : Config S) (epoch : TimePoint) (c : Conn S) : Conn S :=
  { c with conn := { c.conn with clstats := c.conn.clstats.filter fun _ s ↦ !cfg.expired s epoch } }

/-- `set_flush`. -/
def setFlush (cfg : Config S) (e : Egress S) : Egress S :=
  let flushTime := e.flushTime + cfg.clientTimeout
  { e with flushTime, sched := e.sched.timedSet .flusher flushTime }

/-- `flush`. -/
def flush (cfg : Config S) (e : Egress S) (now : TimePoint) : Except Halt (Egress S) := do
  let s ← cancelAll ((e.conns.filter connFlushable).map fun c ↦ .connFd c.id) e.sched
  let e := { e with
    sched := s
    conns := (e.conns.filter (!connFlushable ·)).map (connFlush cfg (now - cfg.clientTimeout)) }
  let e := { e with listeners := e.listeners.filter (!e.listenerFlushable ·) }
  .ok (e.setFlush cfg)

/-- `Connection::handle_fd`. -/
def connHandleFd (cfg : Config S) (e : Egress S) (c : Conn S) (io : Io) :
    Except Halt (Egress S) :=
  match Connection.handleFd (cfg.ops io.now) c.conn io.recv, c.conn.sock with
  | .error h, _ => .error h
  | .ok _, none => .error (.assertion .egressSock)
  | .ok (_, conn, closed), some fd => do
    let e := { e with
      conns := e.conns.map fun d : Conn S ↦ if d.id = c.id then { d with conn } else d }
    if closed then do
      let s ← e.sched.descrCancel (.connFd c.id)
      .ok { e with sched := s.idleSet .idev, descriptors := e.descriptors.erase fd }
    else do
      let s ← e.sched.descrSet (.connFd c.id) fd listeningEvents
      .ok { e with sched := s }

/-! ## Activation

There is a listener for each address of the look-up, and each of them tries to bind its socket at
once. -/

/-- `listeners.emplace_back(…).activate()`, for the rest of the addresses. -/
def listen (now : TimePoint) : List AddressEntry → List Bind → Egress S → Except Halt (Egress S)
  | [], _, e => .ok e
  | _ :: _, [], _ => .error .unfinished
  | a :: addrs, r :: binds, e => do
    let l : Listener := ⟨e.nextId, a, none⟩
    let e ← { e with listeners := e.listeners ++ [l], nextId := e.nextId + 1 }.rebind l now r
    listen now addrs binds e

/-- What `activate` asks `get_address_info`. -/
def query (cfg : Settings) : AddressQuery where
  ctxt := "egress:" ++ cfg.name
  host := cfg.host
  serv := cfg.srv
  family := aiFamily cfg.ipv4 cfg.ipv6
  socktype := sockStream

/-- `activate`, where `info` is what `getaddrinfo` gives. -/
def activate (cfg : Config S) (e : Egress S) (now : TimePoint)
    (info : Except Eai (List AddressEntry)) (binds : List Bind) : Except Halt (Egress S) := do
  let info ← getAddressInfo (query cfg.toSettings) info
  (listen now (addresses info) binds e).map fun e ↦ { e with resolved := some (addresses info) }

/-- `deactivate`. -/
def deactivate (e : Egress S) : Except Halt (Egress S) := do
  let s ← cancelAll ((e.listeners.filter (·.sock.isSome)).map fun l ↦ .listenFd l.id) e.sched
  .ok { e with
    sched := s
    listeners := []
    resolved := none
    descriptors := e.descriptors.filter (· ∉ e.listeners.filterMap (·.sock)) }

/-! ## The event loop

An event that has been collected is notified in an order of the scheduler, here any.  Its handler
runs to the end before anything else happens. -/

/-- The constructor. -/
def init (cfg : Config S) (now : TimePoint) : Egress S :=
  setFlush cfg ⟨.init, [], [], now, 0, none, []⟩

/-- The handler of an event. -/
def handle (cfg : Config S) (e : Egress S) (io : Io) : Ev → Except Halt (Egress S)
  | .idev => e.flush cfg io.now
  | .flusher => e.flush cfg io.now
  | .listenFd n =>
    match e.listeners.find? (·.id = n) with
    | none => .error .undefined
    | some l => acceptLoop l io.now io.errno io.accepts e
  | .rbev n =>
    match e.listeners.find? (·.id = n) with
    | none => .error .undefined
    | some l => e.rebind l io.now io.bind
  | .connFd n =>
    match e.conns.find? (·.id = n) with
    | none => .error .undefined
    | some c => e.connHandleFd cfg c io

/-- What happens next. -/
inductive Act
  /-- `main` does this once. -/
  | activate (now : TimePoint) (info : Except Eai (List AddressEntry)) (binds : List Bind)
  | deactivate
  | busy (now : TimePoint)
  | poll (now : TimePoint) (ready : List (Ready Ev))
  | notify (i : Ev) (io : Io)

/-- The event is one that a poll may notify next. -/
def Next (e : Egress S) (i : Ev) : Prop := ∃ p ∈ e.sched.lowest, i ∈ e.sched.queues.bucket p

instance (e : Egress S) (i : Ev) : Decidable (e.Next i) :=
  decidable_of_iff (e.sched.lowest.any fun p ↦ decide (i ∈ e.sched.queues.bucket p))
    (by simp [Next, Option.any_eq_true])

def step (cfg : Config S) (e : Egress S) : Act → Except Halt (Egress S)
  | .activate now info binds => if e.resolved.isSome then .ok e else e.activate cfg now info binds
  | .deactivate => e.deactivate
  | .busy now => e.flush cfg now
  | .poll now ready =>
    if e.sched.lowest.isSome then .ok e
    else (e.sched.collect now ready).map fun s ↦ { e with sched := s }
  | .notify i io =>
    match e.sched.lowest with
    | none => .ok e
    | some p =>
      if i ∈ e.sched.queues.bucket p then { e with sched := e.sched.take p i }.handle cfg io i
      else .ok e

end Egress
end TcpEgress
end UdpTun
