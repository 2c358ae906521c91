/-!
# How a callback can fail to return

The daemon is compiled with its assertions on, so a failing one ends the process; so does an
exception, since nothing between the event loop and `main` catches one.  `Halt` lists the ways a
modelled function can fail to hand back a result, and `Assertion` names the assertions, one by
one, so that a result can say of a particular one that it never fails.

An exception has the text that the source gives it, and `errno` where that is thrown along with it.
Most results only say that a function throws, whatever the text is: `Halt.Throws`.
-/

set_option autoImplicit false

namespace UdpTun

/-- The assertions of the modelled functions. -/
inductive Assertion
  /-- `ClientTable::seek`: the id found in `rev` is in `fwd`. -/
  | seekFpos
  /-- `label_to_bytes` and its two siblings: `m >= 1`. -/
  | fieldBytes
  /-- `Scheduler::add`: `mom->fd >= 0`. -/
  | addFd
  /-- `TCPEgress::Connection::handle_fd`: `sock >= 0`. -/
  | egressSock
  /-- `TCPEgress::Listener::rebind`: `sock < 0`. -/
  | rebindSock
  /-- `TCPEgress::Listener::handle_fd`: `clsock >= 0`. -/
  | acceptSock
  /-- `TCPEgress::Listener::handle_fd`: `sock >= 0`. -/
  | listenSock
  /-- `Channel::describe`: the record is at least as long as a client id. -/
  | describeSize
  /-- `Channel::describe`: `plsize <= 0xffff`. -/
  | describePlsize
  /-- `Channel::describe`: `m > 0`. -/
  | describeM
  /-- `Channel::consumed`: `current` is not null. -/
  | consumedCurrent
  /-- `TCPIngress::descriptor_ready`: `sock >= 0`. -/
  | readySock
  /-- `TCPIngress::descriptor_ready`: `soerr != 0`. -/
  | readySoerr
  /-- `TCPIngress::descriptor_ready`: `evs & EPOLLOUT`. -/
  | readyOut
  /-- `TCPIngress::initiate_lookup`: `!rstev`. -/
  | lookupRstev
  /-- `TCPIngress::initiate_lookup`: `!addrev`. -/
  | lookupAddrev
  /-- `TCPIngress::initiate_lookup`: `sock < 0`. -/
  | lookupSock
  /-- `TCPIngress::address_resolved`: `sock < 0`. -/
  | resolvedSock
  /-- `TCPIngress::try_connect`: `sock < 0`. -/
  | connectSock
  /-- `TCPIngress::try_send`: `sock >= 0`. -/
  | sendSock
  /-- `TCPIngress::try_send`: `connected`. -/
  | sendConnected
  deriving DecidableEq

/-- What is thrown.  Those that the daemon throws itself have the texts that it gives them. -/
inductive Exception
  /-- `std::runtime_error`. -/
  | runtimeError (what : String)
  /-- `std::invalid_argument`. -/
  | invalidArgument (what : String)
  /-- `std::system_error`, of the system category. -/
  | systemError (errno : Nat) (what : String)
  /-- What this function of a library throws. -/
  | library (function : String)
  deriving DecidableEq

/-- The text; of the library's exceptions there is only the function. -/
def Exception.what : Exception → String
  | runtimeError what => what
  | invalidArgument what => what
  | systemError _ what => what
  | library function => function

/-- Why a function gives no result. -/
inductive Halt
  /-- An assertion fails, and the process is aborted. -/
  | assertion (a : Assertion)
  /-- An exception leaves the callback, and the process ends. -/
  | exception (e : Exception)
  /-- Undefined behaviour: a null pointer or an end iterator is dereferenced, or a variable is read
  that was never given a value. -/
  | undefined
  /-- The function never returns. -/
  | diverges
  /-- The outcomes supplied for the system calls end before the function returns. -/
  | unfinished
  deriving DecidableEq

/-- What is wrong is that something has been thrown, whatever it is. -/
def Halt.Throws (x : Halt) : Prop := ∃ e, x = .exception e

theorem Halt.throws (e : Exception) : (Halt.exception e).Throws := ⟨e, rfl⟩

/-- Why a function gives no result, if it gives none. -/
def failure {α : Type} : Except Halt α → Option Halt
  | .error x => some x
  | .ok _ => none

theorem failure_eq {α : Type} {r : Except Halt α} {x : Halt} : failure r = some x ↔
    r = .error x := by
  cases r <;> simp [failure]

/-- What a mapped result comes from. -/
theorem map_ok {α β : Type} {f : α → β} {r : Except Halt α} {b : β} (h : r.map f = .ok b) :
    ∃ a, r = .ok a ∧ f a = b := by
  cases r with
  | error x => cases h
  | ok a => exact ⟨a, rfl, Except.ok.inj h⟩

theorem map_error {α β : Type} {f : α → β} {r : Except Halt α} {x : Halt}
    (h : r.map f = .error x) : r = .error x := by
  cases r with
  | error y => exact congrArg Except.error (Except.error.inj h)
  | ok a => cases h

/-- Every way in which `r` can fail is one of `P`. -/
def Fails {α : Type} (P : Halt → Prop) (r : Except Halt α) : Prop := ∀ x, r = .error x → P x

section Fails

variable {α β : Type} {P Q : Halt → Prop} {r : Except Halt α}

theorem fails_ok (a : α) : Fails P (.ok a : Except Halt α) := fun _ ↦ nofun

theorem fails_error {x : Halt} (h : P x) : Fails P (.error x : Except Halt α) := fun _ hx ↦
  Except.error.inj hx ▸ h

theorem Fails.mono (h : Fails P r) (hPQ : ∀ x, P x → Q x) : Fails Q r := fun x hx ↦ hPQ x (h x hx)

theorem Fails.bind {f : α → Except Halt β} (h : Fails P r) (hf : ∀ a, r = .ok a → Fails P (f a)) :
    Fails P (r >>= f) := by
  cases r with
  | error x => exact fails_error (h x rfl)
  | ok a => exact hf a rfl

theorem Fails.map {f : α → β} (h : Fails P r) : Fails P (r.map f) := by
  cases r with
  | error x => exact fails_error (h x rfl)
  | ok a => exact fails_ok _

/-- An error that is passed on. -/
theorem Fails.of_error {x : Halt} (h : Fails P r) (hr : r = .error x) :
    Fails P (.error x : Except Halt β) :=
  fails_error (h x hr)

end Fails

/-- At worst an exception is thrown; else the result is as `Q` says. -/
def OrThrows {α : Type} (Q : α → Prop) : Except Halt α → Prop
  | .error x => x.Throws
  | .ok a => Q a

section OrThrows

variable {α β : Type} {Q Q' : α → Prop} {R : β → Prop} {r : Except Halt α}

theorem OrThrows.mono (h : OrThrows Q r) (hQ : ∀ a, Q a → Q' a) : OrThrows Q' r := by
  cases r with
  | error x => exact h
  | ok a => exact hQ a h

theorem OrThrows.bind {f : α → Except Halt β} (h : OrThrows Q r)
    (hf : ∀ a, Q a → OrThrows R (f a)) : OrThrows R (r >>= f) := by
  cases r with
  | error x => exact h
  | ok a => exact hf a h

/-- **A loop over a list**: `I` is its invariant, over the part of the list that is done. -/
theorem OrThrows.foldlM {I : List α → β → Prop} {f : β → α → Except Halt β}
    (hstep : ∀ done a b, I done b → OrThrows (I (done ++ [a])) (f b a)) (l : List α) {done : List α}
    {b : β} (h : I done b) : OrThrows (I (done ++ l)) (l.foldlM f b) := by
  induction l generalizing done b with
  | nil =>
    rw [List.append_nil]
    exact h
  | cons a l ih =>
    rw [List.foldlM_cons, ← List.singleton_append, ← List.append_assoc]
    exact (hstep done a b h).bind fun b' hb' ↦ ih hb'

end OrThrows

end UdpTun
