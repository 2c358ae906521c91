import UdpTun.Network
import Mathlib.Tactic.Common

/-!
# Looking up addresses

`AddressEvent` of `addressing.cc` is a look-up that runs beside the daemon.  `initiate` starts a
request with `getaddrinfo_a`.  When the request has ended, there is a signal, and then
`AddressManager` calls `check`, which calls the user with the addresses.

Of the request, the model has what `gai_error` and `ar_result` show.  The node, the service and the
hint are only passed on, and are left out.
-/

set_option autoImplicit false

namespace UdpTun

/-- `ai_family`. -/
inductive Family
  | inet
  | inet6
  | other
  deriving DecidableEq

/-- `struct addrinfo`.  A list of these stands for the chain of `ai_next`. -/
structure AddrInfo where
  family : Family
  protocol : Nat
  deriving DecidableEq

/-- `struct gaicb`, once it has been submitted. -/
inductive Request
  | inProgress
  /-- It has ended with this code, and with these addresses. -/
  | ended (rc : Int) (result : List AddrInfo)
  deriving DecidableEq

/-- `EAI_INPROGRESS`. -/
def eaiInProgress : Int := -100

/-- `gai_error`. -/
def Request.gaiError : Request → Int
  | .inProgress => eaiInProgress
  | .ended rc _ => rc

/-- `ar_result`. -/
def Request.result : Request → List AddrInfo
  | .inProgress => []
  | .ended _ result => result

/-- `AddressEvent`. -/
structure AddressEvent where
  on : Bool
  data : Option Request
  deriving DecidableEq

namespace AddressEvent

/-- The constructor. -/
def create : AddressEvent := { on := false, data := none }

/-- `AddressEvent::cancel`.  Its loop ends once the request has been cancelled, or is done. -/
def cancel (a : AddressEvent) : AddressEvent :=
  if a.on then { on := false, data := none } else a

/-- What `initiate` throws for a code of `getaddrinfo_a`: `EAGAIN`, `ENOMEM` and `ENOSYS`.  Of
`__FILE__` there is the name without the directory. -/
def startException : Eai → Exception
  | .again => .systemError 11 "getaddrinfo_a"
  | .memory => .systemError 12 "getaddrinfo_a"
  | .system _ => .systemError 38 "getaddrinfo_a"
  | _ => .runtimeError "unreachable addressing.cc:134"

/-- `AddressEvent::initiate`; `started` is what `getaddrinfo_a` gives. -/
def initiate (a : AddressEvent) (started : Except Eai Unit) : Except Halt AddressEvent :=
  let a := a.cancel
  match started with
  | .error e => .error (.exception (startException e))
  | .ok () => .ok { a with on := true, data := some .inProgress }

/-- `AddressEvent::check`, and what it calls the user with, if it does.  Every code but 0 is passed
over, whether the request is still in progress or not. -/
def check (a : AddressEvent) : AddressEvent × Option (List AddrInfo) :=
  if !a.on then (a, none)
  else
    match a.data with
    | none => (a, none)
    | some r => if r.gaiError = 0 then ({ a with on := false }, some r.result) else (a, none)

/-- The request of a look-up ends. -/
def ends (a : AddressEvent) (rc : Int) (result : List AddrInfo) : AddressEvent :=
  match a.data with
  | some .inProgress => { a with data := some (.ended rc result) }
  | _ => a

/-- The user is called when the request has ended well, and in no other case. -/
theorem check_cases (a : AddressEvent) : a.check = (a, none) ∨
    a.on ∧ ∃ p, a.data = some (.ended 0 p) ∧ a.check = ({ a with on := false }, some p) := by
  rw [check]
  cases hon : a.on with
  | false => exact .inl rfl
  | true =>
    rw [Bool.not_true, if_neg Bool.false_ne_true]
    split
    · exact .inl rfl
    · rename_i r hr
      split
      · rename_i hzero
        cases r with
        | inProgress => cases hzero
        | ended rc p =>
          obtain rfl : rc = 0 := hzero
          exact .inr ⟨rfl, p, hr, rfl⟩
      · exact .inl rfl

end AddressEvent
end UdpTun
