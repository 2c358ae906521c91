import UdpTun.Addressing
import UdpTun.Channels
import UdpTun.Emitters
import UdpTun.Scheduling.Registration

/-!
# Absorbers

A `UDPAbsorber` is a socket that datagrams are taken from.  `activate` looks up the addresses that
it can be bound to, and takes the first one that a socket can be made for and bound to.  If there is
none, it throws, with a message that has the trouble with each of them.

A socket that cannot be bound is of no use, and should be closed again.  `activate` leaves it open.
`tryEntries_eq` says what the loop comes down to, with the descriptors it has `leaked`, and
`activate_settles_iff` when there are none.

The addresses and the outcomes of the system calls are in an `Environment`.  The events of the
scheduler are named by a type `E`.  The receiving of datagrams is left out.
-/

set_option autoImplicit false

namespace UdpTun

/-- The system calls that a socket takes. -/
inductive Syscall
  | socket
  | bind
  deriving DecidableEq

/-- The name, as a message has it. -/
def Syscall.name : Syscall → String
  | .socket => "socket"
  | .bind => "bind"

/-- A result of `getaddrinfo`, and what the system calls give for it. -/
structure Entry extends AddressInfo where
  /-- Where the `struct addrinfo` is. -/
  ptr : Nat
  /-- The descriptor, or `errno`. -/
  socket : Except Nat Nat
  /-- `errno`, if `bind` fails. -/
  bind : Option Nat

/-- The map `bad`, from where an entry is to the entry, the call that failed for it, and `errno`. -/
abbrev Trouble := OrdMap Nat (AddressInfo × Syscall × Nat)

/-- What is outside the process. -/
structure Environment where
  /-- `getaddrinfo`. -/
  getaddrinfo : AddressQuery → Except Eai (List Entry)
  strerror : Nat → String

/-- `UDPAbsorber`, with the scheduler and the open descriptors of the process. -/
structure UDPAbsorber (E : Type) where
  name : String
  ipv4 : Bool
  ipv6 : Bool
  host : String
  srv : String
  channels : List Channel
  sock : Option Nat
  sockev : E
  sched : Scheduler E
  descriptors : List Nat

/-- What `activate` leaves behind, whether it returns or throws. -/
structure Activated (E : Type) where
  absorber : UDPAbsorber E
  calls : List PayloadQueue.Call
  thrown : Option Halt

namespace UDPAbsorber

variable {E : Type} [DecidableEq E]

omit [DecidableEq E] in
/-- The constructor, on the configuration. -/
def create (name : String) (ipv4 ipv6 : Bool) (host srv : String) (channels : List Channel)
    (sockev : E) (sched : Scheduler E) (descriptors : List Nat) : UDPAbsorber E where
  name := name
  ipv4 := ipv4
  ipv6 := ipv6
  host := host
  srv := srv
  channels := channels
  sock := none
  sockev := sockev
  sched := sched
  descriptors := descriptors

/-- What `activate` asks `get_address_info`. -/
def query (u : UDPAbsorber E) : AddressQuery where
  ctxt := "absorber:" ++ u.name
  host := u.host
  serv := if u.srv.isEmpty then none else u.srv
  family := aiFamily u.ipv4 u.ipv6
  socktype := sockDgram

/-- The results of the look-up. -/
def info (u : UDPAbsorber E) (env : Environment) : Except Halt (List Entry) :=
  getAddressInfo u.query (env.getaddrinfo u.query)

/-- The entries that there are, which are none if the look-up fails. -/
def entries (u : UDPAbsorber E) (env : Environment) : List Entry := (u.info env).toOption.getD []

/-- The message of the exception. -/
def message (strerror : Nat → String) (bad : Trouble) : String :=
  bad.entries.foldl (fun msg ent ↦
    let sai := ent.2.1
    let prb := ent.2.2
    msg ++ " [" ++ toString sai.family ++ ", " ++ toString sai.protocol ++ ", " ++ prb.1.name ++
      ": " ++ strerror prb.2 ++ "]") "bad emitter"

/-- The end of a turn of the loop, with a socket that is bound. -/
def keep (u : UDPAbsorber E) (sock : Nat) : Activated E :=
  let u := { u with sock := some sock }
  match u.sched.descrSet u.sockev sock { epollin := true } with
  | .error h => ⟨u, [], some h⟩
  | .ok s =>
    let rs := u.channels.map Channel.activate
    ⟨{ u with sched := s, channels := rs.map Prod.fst }, rs.flatMap Prod.snd, none⟩

/-- The loop in `activate`, and what comes after it. -/
def tryEntries (strerror : Nat → String) : List Entry → Trouble → UDPAbsorber E → Activated E
  | [], bad, u => ⟨u, [], some (.exception (.runtimeError (message strerror bad)))⟩
  | iter :: rest, bad, u =>
    match iter.socket with
    | .error errno =>
      tryEntries strerror rest (bad.tryEmplace iter.ptr (iter.toAddressInfo, .socket, errno)) u
    | .ok sock =>
      let u := { u with descriptors := sock :: u.descriptors }
      match iter.bind with
      | some errno =>
        -- `sock` is not closed
        tryEntries strerror rest (bad.tryEmplace iter.ptr (iter.toAddressInfo, .bind, errno)) u
      | none => u.keep sock

/-- `activate`. -/
def activate (u : UDPAbsorber E) (env : Environment) : Activated E :=
  if u.sock.isSome then ⟨u, [], none⟩
  else
    match u.info env with
    | .error h => ⟨u, [], some h⟩
    | .ok info => tryEntries env.strerror info .empty u

/-- The destructor; what is left is the scheduler and the open descriptors. -/
def destroy (u : UDPAbsorber E) : Except Halt (Scheduler E × List Nat) :=
  (u.sched.descrCancel u.sockev).map fun s ↦ (s, u.sock.elim u.descriptors u.descriptors.erase)

end UDPAbsorber

/-! ## What becomes of an entry

An entry is usable, or there is a call that fails for it.  Only if that is the call of `bind` is
there a socket which has to be closed. -/

namespace Entry

/-- The socket that an entry gives, if it can be bound. -/
def usable (i : Entry) : Option Nat :=
  match i.socket, i.bind with
  | .ok sock, none => some sock
  | _, _ => none

/-- The socket that an entry gives, if it cannot be bound. -/
def unbound (i : Entry) : Option Nat :=
  match i.socket, i.bind with
  | .ok sock, some _ => some sock
  | _, _ => none

/-- The call that fails for an entry, and `errno`. -/
def trouble (i : Entry) : Option (Syscall × Nat) :=
  match i.socket, i.bind with
  | .error errno, _ => some (.socket, errno)
  | .ok _, some errno => some (.bind, errno)
  | .ok _, none => none

end Entry

/-- The entries before the first usable one. -/
def rejected (info : List Entry) : List Entry := info.takeWhile (·.usable.isNone)

/-- The sockets that are left open. -/
def leaked (info : List Entry) : List Nat := ((rejected info).filterMap Entry.unbound).reverse

/-- What there is in `bad` when the loop is over. -/
def troubles (info : List Entry) (bad : Trouble) : Trouble :=
  (rejected info).foldl (fun bad i ↦ i.trouble.elim bad fun prb ↦
    bad.tryEmplace i.ptr (i.toAddressInfo, prb)) bad

theorem leaked_eq_nil {info : List Entry} :
    leaked info = [] ↔ ∀ i ∈ rejected info, i.unbound = none := by
  rw [leaked, List.reverse_eq_nil_iff, List.filterMap_eq_nil_iff]

namespace UDPAbsorber

variable {E : Type} [DecidableEq E] {u : UDPAbsorber E}

/-- What the loop comes down to. -/
theorem tryEntries_eq (strerror : Nat → String) (info : List Entry) (bad : Trouble)
    (u : UDPAbsorber E) :
    tryEntries strerror info bad u =
      let u' := { u with descriptors := leaked info ++ u.descriptors }
      match info.findSome? Entry.usable with
      | some sock => { u' with descriptors := sock :: u'.descriptors }.keep sock
      | none => ⟨u', [], some (.exception
          (.runtimeError (message strerror (troubles info bad))))⟩ := by
  induction info generalizing bad u with
  | nil => rfl
  | cons i info ih =>
    rw [tryEntries]
    split
    · -- there is no socket
      rename_i errno hsocket
      have husable : i.usable = none := by simp [Entry.usable, hsocket]
      have hunbound : i.unbound = none := by simp [Entry.unbound, hsocket]
      have htrouble : i.trouble = some (.socket, errno) := by simp [Entry.trouble, hsocket]
      rw [ih]
      simp [leaked, troubles, rejected, husable, hunbound, htrouble]
    · rename_i sock hsocket
      dsimp only
      split
      · -- it cannot be bound
        rename_i errno hbind
        have husable : i.usable = none := by simp [Entry.usable, hsocket, hbind]
        have hunbound : i.unbound = some sock := by simp [Entry.unbound, hsocket, hbind]
        have htrouble : i.trouble = some (.bind, errno) := by simp [Entry.trouble, hsocket, hbind]
        rw [ih]
        simp [leaked, troubles, rejected, husable, hunbound, htrouble]
      · rename_i hbind
        have husable : i.usable = some sock := by simp [Entry.usable, hsocket, hbind]
        simp [leaked, rejected, husable]

/-! ## What activation should leave

It is said in terms of the descriptors that are open, before and after, since a socket that nobody
knows of is in no other part of the state. -/

/-- The socket is watched if there is one, and what is watched is open. -/
structure Sound (u : UDPAbsorber E) : Prop where
  wf : u.sched.WF
  sockev : (u.sched.event u.sockev).fd = u.sock
  opened : ∀ i fd, (u.sched.event i).fd = some fd → fd ∈ u.descriptors

/-- Every descriptor from `socket()` is one that was not open. -/
def Fresh (u : UDPAbsorber E) (info : List Entry) : Prop :=
  ∀ i ∈ info, ∀ fd, i.socket = .ok fd → fd ∉ u.descriptors

/-- Of the descriptors that there are since, only the one in `sock` is open.  There is an exception
if no entry is usable; else it is the first such entry that is kept, and its socket is watched. -/
structure Settles (u : UDPAbsorber E) (info : List Entry) (r : Activated E) : Prop where
  closed : r.absorber.descriptors = r.absorber.sock.toList ++ u.descriptors
  returns : r.thrown = none ↔ ∃ i ∈ info, i.usable ≠ none
  kept : r.thrown = none → ∃ fd, info.findSome? Entry.usable = some fd ∧
    r.absorber.sock = some fd ∧
    r.absorber.sched.epoll.get? fd = some (u.sockev, { epollin := true })

omit [DecidableEq E] in
theorem sound_create {sched : Scheduler E} {descriptors : List Nat} {sockev : E} (hwf : sched.WF)
    (hfd : (sched.event sockev).fd = none)
    (hopen : ∀ i fd, (sched.event i).fd = some fd → fd ∈ descriptors) (name : String)
    (ipv4 ipv6 : Bool) (host srv : String) (channels : List Channel) :
    (create name ipv4 ipv6 host srv channels sockev sched descriptors).Sound :=
  ⟨hwf, hfd, hopen⟩

/-- A fresh descriptor can be watched. -/
theorem Sound.keep (h : u.Sound) (hsock : u.sock = none) {fd : Nat} (hfd : fd ∉ u.descriptors)
    (opened : List Nat) : ∃ s channels calls,
      { u with descriptors := opened }.keep fd =
        ⟨{ u with sock := some fd, sched := s, channels, descriptors := opened }, calls, none⟩ ∧
      Scheduler.Changes u.sched s u.sockev
        (Scheduler.watching' (u.sched.event u.sockev) fd { epollin := true }).dequeued := by
  obtain ⟨s, hs⟩ := h.wf.descrSet_fresh (fun i hi ↦ hfd (h.opened i fd hi))
    (h.sockev.trans hsock) { epollin := true }
  refine ⟨s, (u.channels.map Channel.activate).map Prod.fst,
    (u.channels.map Channel.activate).flatMap Prod.snd, ?_, Scheduler.changes_descrSet hs⟩
  rw [UDPAbsorber.keep]
  dsimp only
  rw [hs]

/-- What `activate` leaves, from an absorber without a socket. -/
theorem Sound.activate (h : u.Sound) (hsock : u.sock = none) (env : Environment)
    (hfresh : u.Fresh (u.entries env)) :
    match (u.entries env).findSome? Entry.usable with
    | some fd => ∃ s channels calls,
        u.activate env = ⟨{ u with
          sock := some fd
          sched := s
          channels := channels
          descriptors := fd :: (leaked (u.entries env) ++ u.descriptors) }, calls, none⟩ ∧
        Scheduler.Changes u.sched s u.sockev
          (Scheduler.watching' (u.sched.event u.sockev) fd { epollin := true }).dequeued
    | none => ∃ t, u.activate env = ⟨{ u with
        descriptors := leaked (u.entries env) ++ u.descriptors }, [], some t⟩ := by
  rw [entries] at hfresh
  rw [UDPAbsorber.activate, if_neg (by simp [hsock]), entries]
  cases hinfo : u.info env with
  | error x => exact ⟨x, rfl⟩
  | ok info =>
    rw [hinfo] at hfresh
    simp only [Except.toOption, Option.getD_some, tryEntries_eq] at hfresh ⊢
    cases hfind : info.findSome? Entry.usable with
    | none => exact ⟨_, rfl⟩
    | some fd =>
      obtain ⟨i, hi, husable⟩ := List.exists_of_findSome?_eq_some hfind
      have hsocket : i.socket = .ok fd := by
        rw [Entry.usable] at husable
        split at husable <;> simp_all
      exact h.keep hsock (hfresh i hi fd hsocket) _

/-- Activation keeps an absorber sound. -/
theorem Sound.activated (h : u.Sound) (hsock : u.sock = none) (env : Environment)
    (hfresh : u.Fresh (u.entries env)) : (u.activate env).absorber.Sound := by
  have hactivate := h.activate hsock env hfresh
  split at hactivate
  · rename_i fd _
    obtain ⟨s, channels, calls, heq, hchanges⟩ := hactivate
    rw [heq]
    refine ⟨hchanges.wf h.wf, by rw [hchanges.event_self]; rfl, fun i fd' hi ↦ ?_⟩
    by_cases hsockev : i = u.sockev
    · subst hsockev
      dsimp only at hi
      rw [hchanges.event_self] at hi
      obtain rfl : fd = fd' := Option.some_inj.mp hi
      simp
    · dsimp only at hi
      rw [hchanges.event_of_ne hsockev] at hi
      simp [h.opened i fd' hi]
  · obtain ⟨t, heq⟩ := hactivate
    rw [heq]
    exact ⟨h.wf, h.sockev, fun i fd hi ↦ List.mem_append_right _ (h.opened i fd hi)⟩

/-- What is left of an absorber that has been activated and is destroyed: nothing but the sockets
that have not been closed. -/
theorem Sound.destroy_activate (h : u.Sound) (hsock : u.sock = none) (env : Environment)
    (hfresh : u.Fresh (u.entries env)) : ∃ s : Scheduler E, s.WF ∧
      (u.activate env).absorber.destroy =
        .ok (s, leaked (u.entries env) ++ u.descriptors) := by
  have hsound := h.activated hsock env hfresh
  obtain ⟨s, hs⟩ := hsound.wf.descrCancel_total (u.activate env).absorber.sockev
  refine ⟨s, hsound.wf.descrCancel hs, ?_⟩
  rw [destroy, hs]
  have hactivate := h.activate hsock env hfresh
  split at hactivate
  · obtain ⟨_, _, _, heq, -⟩ := hactivate
    rw [heq, Option.elim_some, List.erase_cons_head]
    rfl
  · obtain ⟨t, heq⟩ := hactivate
    rw [heq]
    dsimp only
    rw [hsock]
    rfl

/-- **When activation leaves things as it should**: no entry before the first usable one gives a
socket that cannot be bound.  An absorber that has a socket is left alone. -/
theorem activate_settles_iff (h : u.Sound) (env : Environment)
    (hfresh : u.Fresh (u.entries env)) :
    (u.sock ≠ none → u.activate env = ⟨u, [], none⟩) ∧
    (u.sock = none → (u.Settles (u.entries env) (u.activate env) ↔
      ∀ i ∈ rejected (u.entries env), i.unbound = none)) := by
  refine ⟨fun hsock ↦ by rw [UDPAbsorber.activate, if_pos (Option.isSome_iff_ne_none.mpr hsock)],
    fun hsock ↦ ?_⟩
  rw [← leaked_eq_nil]
  have hactivate := h.activate hsock env hfresh
  generalize u.entries env = info at hactivate
  split at hactivate
  · rename_i fd hfind
    obtain ⟨s, channels, calls, heq, hchanges⟩ := hactivate
    rw [heq]
    constructor
    · intro hsettles
      simpa using hsettles.closed
    · intro hnil
      have hwatched := (hchanges.wf h.wf).epoll fd u.sockev { epollin := true }
      rw [hchanges.event_self] at hwatched
      obtain ⟨i, hi, husable⟩ := List.exists_of_findSome?_eq_some hfind
      exact ⟨by simp [hnil], by simpa using ⟨i, hi, by simp [husable]⟩,
        fun _ ↦ ⟨fd, hfind, rfl, hwatched.mpr ⟨rfl, rfl⟩⟩⟩
  · rename_i hfind
    obtain ⟨t, heq⟩ := hactivate
    rw [heq]
    rw [List.findSome?_eq_none_iff] at hfind
    constructor
    · intro hsettles
      simpa [hsock] using hsettles.closed
    · intro hnil
      exact ⟨by simp [hnil, hsock], by simpa using hfind, by simp⟩

/-! ## Runs

An absorber that finds an address, and one that loses a socket. -/

/-- An absorber for all addresses, in a process that has done nothing else. -/
def everywhere : UDPAbsorber Unit := create "all" true true "localhost" "9000" [] () .init []

/-- A look-up that gives these entries. -/
def given (info : List Entry) : Environment where
  getaddrinfo := fun _ ↦ .ok info
  strerror := fun _ ↦ "?"

theorem sound_everywhere : everywhere.Sound :=
  sound_create Scheduler.wf_init rfl (fun _ _ ↦ nofun) ..

/-- There is no socket for the first address, and the second is the one. -/
def refusedThenBound : List Entry :=
  [⟨⟨10, 17, ⟨[]⟩⟩, 1, .error 97, none⟩, ⟨⟨2, 17, ⟨[]⟩⟩, 2, .ok 5, none⟩]

theorem activate_settles_iff_second :
    everywhere.Settles refusedThenBound (everywhere.activate (given refusedThenBound)) :=
  ((activate_settles_iff sound_everywhere (given refusedThenBound) (fun _ _ _ _ ↦ nofun)).2
    rfl).mpr (by decide)

/-- The one address that there is is taken.  The socket is open, and nobody knows of it. -/
theorem unbound_socket_leaks : ¬ ∀ (u : UDPAbsorber Unit) (env : Environment), u.Sound →
    u.Fresh (u.entries env) → u.sock = none →
      u.Settles (u.entries env) (u.activate env) := by
  intro hall
  have hsettles := hall everywhere (given [⟨⟨2, 17, ⟨[]⟩⟩, 1, .ok 5, some 98⟩]) sound_everywhere
    (fun _ _ _ _ ↦ nofun) rfl
  cases hsettles.closed

end UDPAbsorber
end UdpTun
