import UdpTun.Addressing
import UdpTun.Channels
import UdpTun.Scheduling

/-!
# The TCP ingress

`TCPIngress` of `tcp_ingress.cc` sends the frames of its channels over one connection at a time.  A
channel announces itself with `ready`, and is then one of the `streamers` until it has nothing more
to send, or has sent one frame.  With nothing to send the ingress does nothing.  Otherwise it looks
up its peer (`initiateLookup`), tries one address after another (`tryConnect`), sends what it can
whenever the socket is writable (`trySend`), and waits for a while when the connection is lost.

`World` is the ingress with its channels, the scheduler that runs it, the `AddressManager` that
tells it of its look-up, and the bytes that have been sent on each connection.  An `Act` is what
happens to it next: something that the event loop does on behalf of others, such as the submission
of a datagram; a poll, up to the first notification; or the notification of one of its events, whose
handler then runs to its end.  The events that a poll has collected can be notified in any order.
What system calls give is in the `Act`.

All of the events have the same priority, and the next poll comes when none is queued.
-/

set_option autoImplicit false

namespace UdpTun
namespace TcpIngress

/-- The events of an ingress, its channels, and the `AddressManager`. -/
inductive Ev (C : Type)
  | fdev
  | rstev
  | sigev
  /-- The idle event of a channel: the copy in `PayloadQueue::user`, the one that is set. -/
  | queueEvent (c : C)
  deriving DecidableEq

instance {C : Type} [DecidableEq C] : LawfulBEq (Ev C) := inferInstance

/-- What an ingress is configured with, where there are defaults for all but the name, and what its
channels are. -/
structure Config (C : Type) where
  name : String
  ipv4 : Bool := true
  ipv6 : Bool := true
  bindHost : String := ""
  bindSrv : String := "0"
  label : C → Nat
  /-- `sizeof(clid_t)`. -/
  szClid : Nat

/-- `bind_host` is not empty. -/
def Config.binds {C : Type} (cfg : Config C) : Bool := !cfg.bindHost.isEmpty

/-- A connection: what has been sent on it, and the records that have left the queues of their
channels meanwhile. -/
structure Wire (C : Type) where
  bytes : List UInt8
  taken : List (C × Payload)

/-- The state of it all. -/
structure World (C : Type) where
  sched : Scheduler (Ev C)
  chan : C → Channel
  /-- `sock`, if it is not negative. -/
  sock : Option Nat
  connected : Bool
  upoutReady : Bool
  ainf : List AddrInfo
  addrev : AddressEvent
  /-- The set of sources. -/
  streamers : List C
  /-- The same as a queue. -/
  streamerQueue : List C
  /-- The signal of `AddressManager` is pending. -/
  pending : Bool
  /-- The connections, the last one first. -/
  wires : List (Wire C)

/-- The signal that `AddressManager` is made with. -/
def sigusr2 : Nat := 12

/-- What the system calls of `try_connect` give for an address. -/
inductive Connect
  /-- `connect` succeeds at once. -/
  | connected
  /-- `EINPROGRESS` or `EAGAIN`. -/
  | inProgress
  | failed

/-- A turn of `try_connect`: one address is tried. -/
structure ConnectTurn where
  socket : Option Nat
  bind : Bool
  /-- `errno`, if one of the two calls fails. -/
  fcntl : Option Nat
  connect : Connect

/-- What `sendmsg` gives. -/
inductive SendResult
  | sent (n : Nat)
  /-- `EAGAIN` or `EWOULDBLOCK`. -/
  | blocked
  | failed

/-- What the system calls of a handler give. -/
structure Io where
  now : TimePoint := 0
  /-- What `getaddrinfo_a` gives. -/
  started : Except Eai Unit := .ok ()
  /-- What `getaddrinfo` gives for the address to bind to. -/
  bindInfo : Except Eai (List AddrInfo) := .ok []
  connects : List ConnectTurn := []
  /-- `soerr`, or `errno` if `getsockopt` fails. -/
  soerr : Except Nat Nat := .ok 0
  /-- One for each turn of the loop in `try_send`; it is ignored where nothing is sent. -/
  sends : List SendResult := []

namespace World

variable {C : Type} [DecidableEq C]

/-! ## Channels

A channel is operated on, and its queue may call its user then.  The user is the idle event of the
channel. -/

/-- The calls that a queue has made: the user of the queue sets the idle event. -/
def calls (w : World C) (c : C) (l : List PayloadQueue.Call) : World C :=
  if .user ∈ l then { w with sched := w.sched.idleSet (.queueEvent c) } else w

/-- A channel is changed, and its queue has made calls. -/
def update (w : World C) (c : C) (ch : Channel) (l : List PayloadQueue.Call) : World C :=
  { w with chan := Function.update w.chan c ch }.calls c l

/-! ## The socket

These functions deal with one socket, from the look-up of its address to its end. -/

/-- `rstev.set`, with a duration. -/
def setRstev (w : World C) (now : TimePoint) (duration : Int) : World C :=
  { w with sched := w.sched.timedSet .rstev (now + duration) }

/-- `fdev.set(sock, …)`. -/
def setFdev (w : World C) (events : Mask) : Except Halt (World C) :=
  match w.sock with
  | none => .error (.exception (.invalidArgument "bad fd -1"))
  | some fd => do
    let s ← w.sched.descrSet .fdev fd events
    .ok { w with sched := s }

/-- `EPOLLOUT | EPOLLRDHUP`. -/
def connectingEvents : Mask := { epollout := true, epollrdhup := true }

/-- `EPOLLOUT | EPOLLRDHUP | EPOLLIN`. -/
def connectedEvents : Mask := { epollout := true, epollrdhup := true, epollin := true }

/-- `clear_socket`. -/
def clearSocket (w : World C) : Except Halt (World C) := do
  let s ← w.sched.descrCancel .fdev
  .ok { w with sched := s, sock := none }

/-- `initiate_lookup`. -/
def initiateLookup (w : World C) (started : Except Eai Unit) : Except Halt (World C) :=
  if (w.sched.event .rstev).isSet then .error (.assertion .lookupRstev)
  else if w.addrev.on then .error (.assertion .lookupAddrev)
  else if w.sock.isSome then .error (.assertion .lookupSock)
  else do
    let addrev ← w.addrev.initiate started
    .ok { w with ainf := [], addrev }

/-- An address that is passed over: its family is not wanted, or it cannot be bound to. -/
def passedOver (cfg : Config C) (bindInfo : List AddrInfo) (ai : AddrInfo) : Bool :=
  ai.family = .inet && !cfg.ipv4 || ai.family = .inet6 && !cfg.ipv6 ||
    cfg.binds && (bindInfo.find? fun b ↦ b.family = ai.family && b.protocol = ai.protocol).isNone

/-- What is done with a new socket. -/
def connectSocket (cfg : Config C) (w : World C) (t : ConnectTurn) (rest : List AddrInfo) :
    Except Halt (World C × Bool) :=
  if cfg.binds && !t.bind then
    -- the address is not passed over, and the loop starts again with it
    w.clearSocket.map fun w ↦ (w, true)
  else
    match t.fcntl with
    | some errno => .error (.exception (.systemError errno "fcntl(GETFL)"))
    | none =>
      match t.connect with
      | .failed => w.clearSocket.map fun w ↦ ({ w with ainf := rest }, true)
      | .inProgress => (w.setFdev connectingEvents).map fun w ↦ (w, false)
      | .connected =>
        ({ w with connected := true }.setFdev connectedEvents).map fun w ↦ (w, false)

/-- The loops of `try_connect`.  There is one turn for each address that a socket is made for. -/
def connectLoop (cfg : Config C) (bindInfo : List AddrInfo) (now : TimePoint) :
    List ConnectTurn → World C → Except Halt (World C)
  | turns, w =>
    match w.ainf.dropWhile (passedOver cfg bindInfo) with
    | [] => .ok ({ w with ainf := [] }.setRstev now (seconds 33))
    | ai :: rest =>
      match turns with
      | [] => .error .unfinished
      | t :: turns =>
        match t.socket with
        | none => connectLoop cfg bindInfo now turns { w with ainf := rest }
        | some fd =>
          match connectSocket cfg
            { w with ainf := ai :: rest, sock := some fd, wires := ⟨[], []⟩ :: w.wires } t rest with
          | .error h => .error h
          | .ok (w, true) => connectLoop cfg bindInfo now turns w
          | .ok (w, false) => .ok w

/-- The look-up at the beginning of `try_connect`.  Its text has `egress` in it. -/
def bindAddresses (cfg : Config C) (bindInfo : Except Eai (List AddrInfo)) :
    Except Halt (List AddrInfo) :=
  if cfg.binds then
    getAddressInfo
      { ctxt := "egress:" ++ cfg.name
        host := cfg.bindHost
        serv := cfg.bindSrv
        family := afUnspec
        socktype := sockStream } bindInfo
  else .ok []

/-- `try_connect`. -/
def tryConnect (cfg : Config C) (w : World C) (io : Io) : Except Halt (World C) :=
  if w.sock.isSome then .error (.assertion .connectSock)
  else do
    let bindInfo ← bindAddresses cfg io.bindInfo
    connectLoop cfg bindInfo io.now io.connects w

/-- `address_resolved`. -/
def addressResolved (cfg : Config C) (w : World C) (p : List AddrInfo) (io : Io) :
    Except Halt (World C) :=
  let w := { w with ainf := p, connected := false }
  if w.sock.isSome then .error (.assertion .resolvedSock) else w.tryConnect cfg io

/-- `AddressManager::check`, the ingress being its only user. -/
def managerCheck (cfg : Config C) (w : World C) (io : Io) : Except Halt (World C) := do
  let r := w.addrev.check
  let w := { w with addrev := r.1 }
  let w ← match r.2 with
    | none => .ok w
    | some p => w.addressResolved cfg p io
  .ok { w with sched := w.sched.sigSet .sigev sigusr2 }

/-! ## Sending

One source is at the head of the line, and sends.  What comes after each call of `sendmsg` depends
on what it gives. -/

/-- The head of the queue is discarded. -/
def dropSource (w : World C) (c : C) : World C :=
  { w with streamers := w.streamers.erase c, streamerQueue := w.streamerQueue.tail }

/-- What follows `sendmsg` when `bytes` have been accepted. -/
def sourceSent (cfg : Config C) (w : World C) (c : C) (bytes : List UInt8) :
    Except Halt (World C) := do
  let (allDone, ch, l) ← (w.chan c).consumed cfg.szClid bytes.length
  let taken := if allDone then ((w.chan c).queue.consume.1.map (c, ·)).toList else []
  let wires := match w.wires with
    | [] => []
    | wire :: past => ⟨wire.bytes ++ bytes, wire.taken ++ taken⟩ :: past
  let w := { w with wires }.update c ch l
  .ok (if allDone then w.dropSource c else w)

/-- What follows `sendmsg` when the socket blocks. -/
def sourceBlocked (cfg : Config C) (w : World C) (c : C) : Except Halt (World C) := do
  let (_, ch, l) ← (w.chan c).consumed cfg.szClid 0
  (w.update c ch l).setFdev connectedEvents

/-- What follows `sendmsg` when it fails. -/
def sourceFailed (w : World C) (c : C) (now : TimePoint) : Except Halt (World C) := do
  let w ← (w.update c (w.chan c).failed []).clearSocket
  .ok (w.setRstev now (seconds 30))

/-- A turn of the loop in `try_send`, and whether there is another. -/
def sendTurn (cfg : Config C) (w : World C) (now : TimePoint) (r : SendResult) :
    Except Halt (World C × Bool) :=
  match w.streamerQueue with
  | [] => .error .undefined
  | c :: _ =>
    match (w.chan c).describe cfg.szClid [] with
    | .error h => .error h
    | .ok (false, _, ch, l) => .ok ((w.update c ch l).dropSource c, true)
    | .ok (true, iov, ch, l) =>
      let w := { w.update c ch l with upoutReady := false }
      match r with
      | .sent n => (w.sourceSent cfg c (iov.flatten.take n)).map fun w ↦ (w, true)
      | .blocked => (w.sourceBlocked cfg c).map fun w ↦ (w, false)
      | .failed => (w.sourceFailed c now).map fun w ↦ (w, false)

/-- The loop in `try_send`. -/
def sendLoop (cfg : Config C) (now : TimePoint) : List SendResult → World C →
    Except Halt (World C)
  | sends, w =>
    if w.streamers.isEmpty then .ok w
    else
      match sends with
      | [] => .error .unfinished
      | r :: sends =>
        match w.sendTurn cfg now r with
        | .error h => .error h
        | .ok (w, true) => sendLoop cfg now sends w
        | .ok (w, false) => .ok w

/-- `try_send`. -/
def trySend (cfg : Config C) (w : World C) (io : Io) : Except Halt (World C) :=
  if w.sock.isNone then .error (.assertion .sendSock)
  else if !w.connected then .error (.assertion .sendConnected)
  else if !w.upoutReady then w.setFdev connectedEvents
  else sendLoop cfg io.now io.sends w

/-- `ready`. -/
def ready (cfg : Config C) (w : World C) (c : C) (io : Io) : Except Halt (World C) :=
  if c ∈ w.streamers then .ok w
  else
    let wasEmpty := w.streamers.isEmpty
    let w := { w with streamers := w.streamers ++ [c], streamerQueue := w.streamerQueue ++ [c] }
    if !wasEmpty then .ok w
    else if w.sock.isNone then
      if (w.sched.event .rstev).isSet then .ok w
      else if w.addrev.on then .ok w
      else w.initiateLookup io.started
    else if !w.connected then .ok w
    else w.trySend cfg io

/-- The connection has failed: the next address is tried. -/
def connectNext (cfg : Config C) (w : World C) (io : Io) : Except Halt (World C) :=
  match w.ainf with
  | [] => .error .undefined
  | _ :: rest => do
    let w ← { w with ainf := rest }.clearSocket
    w.tryConnect cfg io

/-- What `descriptor_ready` throws if `getsockopt` fails. -/
def soerrException (errno : Nat) : Exception :=
  .systemError errno "getsockopt(SOL_SOCKET, SO_ERROR)"

/-- `descriptor_ready`. -/
def descriptorReady (cfg : Config C) (w : World C) (evs : Mask) (io : Io) :
    Except Halt (World C) :=
  if w.sock.isNone then .error (.assertion .readySock)
  else if evs.epollhup || evs.epollrdhup || evs.epollin then
    if !w.connected then
      match io.soerr with
      | .error errno => .error (.exception (soerrException errno))
      | .ok 0 => .error (.assertion .readySoerr)
      | .ok _ => w.connectNext cfg io
    else do
      let w ← w.clearSocket
      .ok (w.setRstev io.now (seconds 33))
  else if !evs.epollout then .error (.assertion .readyOut)
  else if !w.connected then
    match io.soerr with
    | .error errno => .error (.exception (soerrException errno))
    | .ok 0 => { w with connected := true }.setFdev connectedEvents
    | .ok _ => w.connectNext cfg io
  else { w with upoutReady := true }.trySend cfg io

/-! ## The event loop

A handler is called with its event taken from the queue, and runs to its end. -/

/-- The constructors: the channels have queues that have just been made. -/
def init (cfg : Config C) (queue : C → PayloadQueue) : World C where
  sched := Scheduler.init.sigSet .sigev sigusr2
  chan := fun c ↦ .create (cfg.label c) (queue c)
  sock := none
  connected := false
  upoutReady := false
  ainf := []
  addrev := .create
  streamers := []
  streamerQueue := []
  pending := false
  wires := []

/-- The handler of an event. -/
def handle (cfg : Config C) (w : World C) (io : Io) : Ev C → Except Halt (World C)
  | .fdev => w.descriptorReady cfg (w.sched.event .fdev).got io
  | .rstev => w.initiateLookup io.started
  | .sigev => w.managerCheck cfg io
  | .queueEvent c => w.ready cfg c io

/-- What happens next. -/
inductive Act (C : Type)
  /-- The absorber submits a datagram to a channel. -/
  | submit (c : C) (clid : Nat) (data : List UInt8) (now : Nat)
  | activate (c : C)
  /-- The stream of a queue moves some bytes to its file. -/
  | flush (c : C) (n : Nat)
  /-- The quota manager has a queue delete a file. -/
  | discard (c : C)
  /-- The look-up ends. -/
  | lookupEnds (rc : Int) (result : List AddrInfo)
  /-- Another look-up has ended. -/
  | raise
  /-- A poll: `signalled` is whether the signal is read, and `evs` what is reported of the
  socket. -/
  | poll (now : TimePoint) (signalled : Bool) (evs : Option Mask)
  | notify (e : Ev C) (io : Io)

/-- The signal can be read from the signal descriptor. -/
def readable (w : World C) : Bool := w.pending && decide (sigusr2 ∈ w.sched.watching)

/-- What `epoll_pwait` reports. -/
def reports (w : World C) (signalled : Bool) (evs : Option Mask) : List (Ready (Ev C)) :=
  (if signalled && w.readable then [.signals [sigusr2]] else []) ++
    match evs, (w.sched.event .fdev).fd with
    | some evs, some _ => [.descriptor .fdev evs]
    | _, _ => []

def step (cfg : Config C) (w : World C) : Act C → Except Halt (World C)
  | .submit c clid data now =>
    let r := (w.chan c).submit cfg.szClid clid data now
    .ok (w.update c r.1 r.2)
  | .activate c =>
    let r := (w.chan c).activate
    .ok (w.update c r.1 r.2)
  | .flush c n => .ok (w.update c { w.chan c with queue := (w.chan c).queue.flush n } [])
  | .discard c =>
    (w.chan c).queue.discardFile.map fun r ↦ w.update c { w.chan c with queue := r.1 } r.2
  | .lookupEnds rc result =>
    if w.addrev.data = some .inProgress then
      .ok { w with addrev := w.addrev.ends rc result, pending := true }
    else .ok w
  | .raise => .ok { w with pending := true }
  | .poll now signalled evs =>
    if w.sched.lowest.isSome then .ok w
    else
      (w.sched.collect now (w.reports signalled evs)).map fun s ↦
        { w with sched := s, pending := w.pending && !(signalled && w.readable) }
  | .notify e io =>
    match w.sched.lowest with
    | none => .ok w
    | some p =>
      if e ∈ w.sched.queues.bucket p then
        { w with sched := w.sched.take p e }.handle cfg io e
      else .ok w

end World
end TcpIngress
end UdpTun
