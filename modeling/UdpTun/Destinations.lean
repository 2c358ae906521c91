import UdpTun.Halt
import UdpTun.Lib.Nested
import UdpTun.SockAddrs

/-!
# Destinations

`Destination` of `destinations.cc` is where the egress sends datagrams to.  `DestinationBank` of
`destbank.cc` finds one by a name, which is the destination's own or that of a group, and by the
hash of the peer.

A destination is handled through a `std::shared_ptr`, and such pointers are ordered by where the
objects are on the heap.  So `Destination.addr` is that, and a set of destinations is a map by it.
The addresses are an argument of `DestinationBank.load`: `heap k` is where the object is that is
made for the singleton `k` of the configuration.

Names are compared and nothing else, so `N` can be any order.
-/

set_option autoImplicit false

namespace UdpTun

/-- The settings of a destination in the configuration, where all but the port have defaults. -/
structure DestinationConfig where
  ipv4 : Bool := true
  ipv6 : Bool := true
  host : String := "localhost"
  port : Option String

/-- A `Destination`, less what `activate` changes. -/
structure Destination (N : Type) where
  /-- Where the object is. -/
  addr : Nat
  name : N
  ipv4 : Bool
  ipv6 : Bool
  host : String
  srv : String
  deriving DecidableEq

/-- The constructor, which throws if there is no port: the node is read as a text. -/
def Destination.create {N : Type} (addr : Nat) (name : N) (cfg : DestinationConfig) :
    Except Halt (Destination N) :=
  match cfg.port with
  | none => .error (.exception (.library "YAML::Node::as"))
  | some srv => .ok { addr, name, ipv4 := cfg.ipv4, ipv6 := cfg.ipv6, host := cfg.host, srv }

/-- `std::set<std::shared_ptr<Destination>>`. -/
abbrev DestinationSet (N : Type) := OrdMap Nat (Destination N)

/-- The part of the configuration that is about destinations. -/
structure BankConfig (N : Type) where
  singletons : List (N × DestinationConfig)
  groups : List (N × List N)

/-- `DestinationBank`. -/
structure DestinationBank (N : Type) [LinearOrder N] where
  tab : OrdMap N (List (Destination N))

namespace DestinationBank

variable {N : Type} [LinearOrder N]

/-- A new one. -/
def init : DestinationBank N := ⟨.empty⟩

/-- The table of singletons, from the singleton `k` on. -/
def loadSingletons (heap : Nat → Nat) : Nat → List (N × DestinationConfig) →
    OrdMap N (Destination N) → Except Halt (OrdMap N (Destination N))
  | _, [], singtab => .ok singtab
  | k, (key, cfg) :: l, singtab =>
    match Destination.create (heap k) key cfg with
    | .error x => .error x
    | .ok value => loadSingletons heap (k + 1) l (singtab.insert key value)

/-- `alttab[key].insert(dest)`. -/
def addTo (alttab : OrdMap N (DestinationSet N)) (key : N) (dest : Destination N) :
    OrdMap N (DestinationSet N) :=
  alttab.file key dest.addr dest

/-- A name in a group. -/
def loadMember [ToString N] (singtab : OrdMap N (Destination N)) (key : N)
    (alttab : OrdMap N (DestinationSet N)) (name : N) : Except Halt (OrdMap N (DestinationSet N)) :=
  match singtab.get? name with
  | none => .error (.exception (.runtimeError
    ("unknown destination " ++ toString name ++ " in group " ++ toString key)))
  | some dest => .ok (addTo alttab key dest)

/-- `load`. -/
def load [ToString N] (heap : Nat → Nat) (cfg : BankConfig N) (bank : DestinationBank N) :
    Except Halt (DestinationBank N) := do
  let singtab ← loadSingletons heap 0 cfg.singletons .empty
  let alttab := singtab.entries.foldl (fun alttab ent ↦ addTo alttab ent.1 ent.2) .empty
  let alttab ← cfg.groups.foldlM
    (fun alttab group ↦ group.2.foldlM (loadMember singtab group.1) alttab) alttab
  .ok ⟨alttab.entries.foldl
    (fun tab ent ↦ tab.tryEmplace ent.1 (ent.2.entries.map (·.2))) bank.tab⟩

/-- `seek`.  It divides by the number of destinations. -/
def seek (bank : DestinationBank N) (name : N) (hash : Nat) :
    Except Halt (Option (Destination N)) :=
  match bank.tab.get? name with
  | none => .ok none
  | some dests => if dests.length = 0 then .error .undefined else .ok dests[hash % dests.length]?

end DestinationBank
end UdpTun
