import UdpTun.Halt
import Mathlib.Tactic.Common

/-!
# Failing look-ups

`getaddrinfo` and `getnameinfo` say by a code why they have failed.  Most codes have a text of their
own in `network.cc` and `peers.cc`, and what is thrown has this text after the call: what was asked,
and which part of the configuration asked for it.  `exception_what` and `nameInfoException_what` say
that the call comes first whatever the code is.

What the functions of the library give is not computed here.  `getAddressInfo` takes it, and hands
it on or throws.
-/

set_option autoImplicit false

namespace UdpTun

/-- The codes but 0 of `getaddrinfo` and its siblings. -/
inductive Eai
  | addrFamily
  | again
  | badFlags
  | fail
  | family
  | memory
  | noData
  | noName
  | overflow
  | service
  | sockType
  /-- With `errno`. -/
  | system (errno : Nat)
  /-- A code that has no name in the source. -/
  | other (rc : Int)
  deriving DecidableEq

namespace Eai

/-- The code itself. -/
def rc : Eai → Int
  | badFlags => -1
  | noName => -2
  | again => -3
  | fail => -4
  | noData => -5
  | family => -6
  | sockType => -7
  | service => -8
  | addrFamily => -9
  | memory => -10
  | system _ => -11
  | overflow => -12
  | other rc => rc

end Eai

/-! ## Names of numbers

The hints of a look-up are in the texts of some of its failures. -/

/-- `AF_UNSPEC`. -/
def afUnspec : Nat := 0

/-- `AF_UNIX`. -/
def afUnix : Nat := 1

/-- `AF_INET`. -/
def afInet : Nat := 2

/-- `AF_INET6`. -/
def afInet6 : Nat := 10

/-- `af_to_str`. -/
def afToStr (domain : Nat) : String :=
  if domain = afInet then "INET"
  else if domain = afInet6 then "INET6"
  else if domain = afUnix then "UNIX"
  else "AF_" ++ toString domain

/-- `SOCK_STREAM`. -/
def sockStream : Nat := 1

/-- `SOCK_DGRAM`. -/
def sockDgram : Nat := 2

/-- `socktype_to_str`. -/
def socktypeToStr (type : Nat) : String :=
  if type = sockStream then "STREAM"
  else if type = sockDgram then "DGRAM"
  else "SOCK_" ++ toString type

/-- `hints.ai_family`, as three classes set it from two switches of theirs. -/
def aiFamily (ipv4 ipv6 : Bool) : Nat :=
  if ipv4 then if ipv6 then afUnspec else afInet else afInet6

/-! ## Looking up a host

The exceptions of `get_address_info` are of one shape but for `EAI_SYSTEM`, where `errno` says the
rest. -/

/-- What `get_address_info` is asked. -/
structure AddressQuery where
  ctxt : String
  host : Option String
  serv : Option String
  /-- `hints->ai_family`. -/
  family : Nat
  /-- `hints->ai_socktype`. -/
  socktype : Nat

namespace AddressQuery

variable (q : AddressQuery)

/-- What is said of the call. -/
def call : String := q.ctxt ++ ": getaddrinfo(" ++ q.host.getD "#" ++ ":" ++ q.serv.getD "#" ++ ")"

/-- What is thrown for a code. -/
def exception : Eai → Exception
  | .system errno => .systemError errno q.call
  | .addrFamily => .runtimeError (q.call ++ (" AF " ++ afToStr q.family ++ " unavailable"))
  | .again => .runtimeError (q.call ++ " temp failure")
  | .badFlags => .runtimeError (q.call ++ " bad flags")
  | .fail => .runtimeError (q.call ++ " failure")
  | .family => .runtimeError (q.call ++ (" no AF " ++ afToStr q.family))
  | .memory => .runtimeError (q.call ++ " out of memory")
  | .noData => .runtimeError (q.call ++ " no addrs for host")
  | .noName => .runtimeError (q.call ++ " unk name/service")
  | .service => .runtimeError (q.call ++ " no serv for host/sock")
  | .sockType => .runtimeError (q.call ++ (" no sock " ++ socktypeToStr q.socktype))
  | e => .runtimeError (q.call ++ (" unk " ++ toString e.rc))

/-- Whatever the code is, the text begins with the call. -/
theorem exception_what (e : Eai) : ∃ reason, (q.exception e).what = q.call ++ reason := by
  cases e with
  | system errno => exact ⟨"", String.append_empty.symm⟩
  | _ => exact ⟨_, rfl⟩

end AddressQuery

/-- `get_address_info`, where `r` is what `getaddrinfo` gives. -/
def getAddressInfo {α : Type} (q : AddressQuery) (r : Except Eai α) : Except Halt α :=
  r.mapError fun e ↦ .exception (q.exception e)

section getAddressInfo

variable {α : Type} {q : AddressQuery} {r : Except Eai α}

@[simp] theorem getAddressInfo_ok (a : α) : getAddressInfo q (.ok a) = .ok a := rfl

theorem getAddressInfo_throws {x : Halt} (h : getAddressInfo q r = .error x) : x.Throws := by
  cases r with
  | error e =>
    cases h
    exact Halt.throws _
  | ok a => cases h

end getAddressInfo

/-! ## Naming an address

`getnameinfo` is called in three places.  Two of them throw, with texts of one kind, in which the
address is named by the text it comes from or, if there is none, by `to_str`.  The third is
`to_str`, which has a word for each code. -/

/-- `to_str`, where `r` is what `getnameinfo` gives, the host and the service.  Of `__FILE__` there
is the name without the directory. -/
def toStr : Except Eai (String × String) → Except Halt String
  | .ok (host, serv) => .ok ("[" ++ host ++ "]:" ++ serv)
  | .error .again => .ok "AGAIN"
  | .error .badFlags => .ok "BADFLAGS"
  | .error .fail => .ok "FAIL"
  | .error .family => .ok "FAMILY"
  | .error .memory => .ok "MEMORY"
  | .error .noName => .ok "NONAME"
  | .error .overflow => .ok "OVERFLOW"
  | .error (.system _) => .ok "SYSTEM"
  | .error _ => .error (.exception (.runtimeError "unreachable network.cc:107"))

/-- What is said of a call of `getnameinfo`. -/
def nameInfoCall (named : String) : String := "getnameinfo(" ++ named ++ ")"

/-- What is thrown for a code of `getnameinfo`, for an address that is named so and a family. -/
def nameInfoException (named : String) (family : Nat) : Eai → Exception
  | .system errno => .systemError errno (nameInfoCall named)
  | .again => .runtimeError (nameInfoCall named ++ " temp failure")
  | .badFlags => .runtimeError (nameInfoCall named ++ " bad flags")
  | .fail => .runtimeError (nameInfoCall named ++ " failure")
  | .family => .runtimeError (nameInfoCall named ++ (" no AF " ++ afToStr family))
  | .memory => .runtimeError (nameInfoCall named ++ " out of memory")
  | .noName => .runtimeError (nameInfoCall named ++ " unk name/service")
  | .overflow => .runtimeError (nameInfoCall named ++ " overflow")
  | e => .runtimeError (nameInfoCall named ++ (" unk " ++ toString e.rc))

theorem nameInfoException_what (named : String) (family : Nat) (e : Eai) :
    ∃ reason, (nameInfoException named family e).what = nameInfoCall named ++ reason := by
  cases e with
  | system errno => exact ⟨"", String.append_empty.symm⟩
  | _ => exact ⟨_, rfl⟩

end UdpTun
