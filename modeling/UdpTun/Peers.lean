import UdpTun.Halt
import UdpTun.Lib.OrdMap
import UdpTun.Network
import UdpTun.SockAddrs
import Mathlib.Data.Prod.Lex
import Mathlib.Data.String.Basic

/-!
# Peers

`PeerTable` of `peers.cc` says who may connect to an egress.  It is loaded from the configuration,
which has hosts for each peer: `load` looks them up, and keeps the family and the numeric host of
each address.  `seek` works out the same of an address that a connection comes from, and looks in a
table and those behind it.

`peer_by_last_entry` is the meaning of a table: what there is to find of an address is the last
entry of the configuration that has it.  What the look-ups give is in a `Resolver`.
-/

set_option autoImplicit false

namespace UdpTun

/-- `sa_family`, whose bytes are in memory least significant first. -/
def SocketAddress.family (a : SocketAddress) : Nat :=
  (a.bytes.getD 0 0).toNat + 256 * (a.bytes.getD 1 0).toNat

/-- A family and a numeric host. -/
abbrev PeerKey := Nat ×ₗ String

/-- The name of a peer, and the hash. -/
abbrev Peer := String × Nat

/-- The settings of a peer in the configuration. -/
structure PeerConfig where
  hosts : Option (List String)
  hash : Option Nat

/-- What is outside the process. -/
structure Resolver where
  /-- `getaddrinfo`, for a host. -/
  getaddrinfo : String → Except Eai (List SocketAddress)
  /-- `getnameinfo`: the numeric host and the numeric service. -/
  getnameinfo : SocketAddress → Except Eai (String × String)
  /-- `std::hash`. -/
  hash : String → Nat

/-- `PeerTable`, and those behind it. -/
inductive PeerTable
  | mk (backup : Option PeerTable) (tab : OrdMap PeerKey Peer)

namespace Resolver

/-- What an address is filed under. -/
def key (env : Resolver) (a : SocketAddress) : Except Eai PeerKey :=
  (env.getnameinfo a).map fun r ↦ toLex (a.family, r.1)

/-- The hash of a peer, which is an `unsigned`. -/
def hashOf (env : Resolver) (id : String) (cfg : PeerConfig) : Nat :=
  cfg.hash.getD (env.hash id) % 2 ^ 32

end Resolver

namespace PeerTable

def tab : PeerTable → OrdMap PeerKey Peer
  | mk _ tab => tab

def backup : PeerTable → Option PeerTable
  | mk backup _ => backup

/-- The constructor. -/
def create (backup : Option PeerTable) : PeerTable := mk backup .empty

/-! ## Loading

There are three loops inside each other, over the entries of the configuration, over the hosts of
each, and over the addresses that a host has.  An address that is there already is given to the new
entry. -/

/-- What is asked of `get_address_info` for a host. -/
def query (host : String) : AddressQuery where
  ctxt := "peertab"
  host := host
  serv := none
  family := afUnspec
  socktype := sockStream

/-- A result of `get_address_info` for a host, in the loop of `load`. -/
def addAddress (env : Resolver) (peer : Peer) (host : String) (tab : OrdMap PeerKey Peer)
    (a : SocketAddress) : Except Halt (OrdMap PeerKey Peer) :=
  match env.key a with
  | .error e => .error (.exception (nameInfoException host afUnspec e))
  | .ok key => .ok (tab.insert key peer)

/-- A host. -/
def addHost (env : Resolver) (peer : Peer) (tab : OrdMap PeerKey Peer) (host : String) :
    Except Halt (OrdMap PeerKey Peer) := do
  let info ← getAddressInfo (query host) (env.getaddrinfo host)
  info.foldlM (addAddress env peer host) tab

/-- An entry of the configuration, which is skipped if it has no hosts. -/
def addPeer (env : Resolver) (tab : OrdMap PeerKey Peer) (ent : String × PeerConfig) :
    Except Halt (OrdMap PeerKey Peer) :=
  match ent.2.hosts with
  | none => .ok tab
  | some hosts => hosts.foldlM (addHost env (ent.1, env.hashOf ent.1 ent.2)) tab

/-- `load`. -/
def load (env : Resolver) (cfg : Option (List (String × PeerConfig))) (t : PeerTable) :
    Except Halt PeerTable :=
  match cfg with
  | none => .ok t
  | some l => (l.foldlM (addPeer env) t.tab).map (mk t.backup)

/-! ## Looking up

A table that does not have an address asks the one behind it. -/

/-- `seek_resolved`. -/
def seekResolved : PeerTable → PeerKey → Option Peer
  | mk backup tab, key =>
    match tab.get? key with
    | some peer => some peer
    | none =>
      match backup with
      | none => none
      | some backup => backup.seekResolved key

/-- `seek`. -/
def seek (t : PeerTable) (env : Resolver) (a : SocketAddress) : Except Halt (Option Peer) :=
  match env.key a with
  | .error e => do
    let named ← toStr (env.getnameinfo a)
    .error (.exception (nameInfoException named a.family e))
  | .ok key => .ok (t.seekResolved key)

/-- `get_names`: the set that it adds to. -/
def getNames : PeerTable → OrdMap String Unit → OrdMap String Unit
  | mk backup tab, result =>
    let result := match backup with
      | none => result
      | some backup => backup.getNames result
    tab.entries.foldl (fun result ent ↦ result.insert ent.2.1 ()) result

/-! ## What a table has in it

The loops come down to a list of entries that are filed one after another.  Of a key, the last entry
counts. -/

/-- The entry that an address comes to. -/
def listedAddress (env : Resolver) (peer : Peer) (a : SocketAddress) : List (PeerKey × Peer) :=
  (env.key a).toOption.toList.map (·, peer)

def listedHost (env : Resolver) (peer : Peer) (host : String) : List (PeerKey × Peer) :=
  ((env.getaddrinfo host).toOption.getD []).flatMap (listedAddress env peer)

def listedPeer (env : Resolver) (ent : String × PeerConfig) : List (PeerKey × Peer) :=
  (ent.2.hosts.getD []).flatMap (listedHost env (ent.1, env.hashOf ent.1 ent.2))

/-- **The entries that a configuration comes to**, in order. -/
def listed (env : Resolver) (cfg : Option (List (String × PeerConfig))) :
    List (PeerKey × Peer) :=
  (cfg.getD []).flatMap (listedPeer env)

/-- The last entry for a key. -/
def lastOf (l : List (PeerKey × Peer)) (key : PeerKey) : Option Peer :=
  (l.reverse.find? (·.1 = key)).map Prod.snd

/-- Entries are filed, one after another. -/
def fileAll (tab : OrdMap PeerKey Peer) (l : List (PeerKey × Peer)) : OrdMap PeerKey Peer :=
  l.foldl (fun tab ent ↦ tab.insert ent.1 ent.2) tab

variable {env : Resolver} {tab tab' : OrdMap PeerKey Peer} {t t' : PeerTable}
  {cfg cfg' : Option (List (String × PeerConfig))}

/-- A loop files what its turns file. -/
theorem fileAll_of_foldlM {α : Type}
    (f : OrdMap PeerKey Peer → α → Except Halt (OrdMap PeerKey Peer))
    (g : α → List (PeerKey × Peer))
    (hf : ∀ tab a tab', f tab a = .ok tab' → tab' = fileAll tab (g a)) {l : List α}
    (h : l.foldlM f tab = .ok tab') : tab' = fileAll tab (l.flatMap g) := by
  induction l generalizing tab with
  | nil =>
    cases h
    rfl
  | cons a l ih =>
    rw [List.foldlM_cons] at h
    cases hfirst : f tab a with
    | error x =>
      rw [hfirst] at h
      cases h
    | ok tab₁ =>
      rw [hfirst] at h
      rw [ih h, hf _ _ _ hfirst, List.flatMap_cons, fileAll, fileAll, fileAll, List.foldl_append]

theorem addAddress_ok {peer : Peer} {host : String} {a : SocketAddress}
    (h : addAddress env peer host tab a = .ok tab') :
    tab' = fileAll tab (listedAddress env peer a) := by
  rw [addAddress] at h
  rw [listedAddress]
  split at h
  · cases h
  · rename_i key hkey
    cases h
    rw [hkey]
    rfl

theorem addHost_ok {peer : Peer} {host : String} (h : addHost env peer tab host = .ok tab') :
    tab' = fileAll tab (listedHost env peer host) := by
  rw [addHost] at h
  rw [listedHost]
  cases hinfo : env.getaddrinfo host with
  | error e =>
    rw [hinfo] at h
    cases h
  | ok info =>
    rw [hinfo] at h
    exact fileAll_of_foldlM _ (listedAddress env peer) (fun _ _ _ h ↦ addAddress_ok h) h

theorem addPeer_ok {ent : String × PeerConfig} (h : addPeer env tab ent = .ok tab') :
    tab' = fileAll tab (listedPeer env ent) := by
  rw [addPeer] at h
  rw [listedPeer]
  split at h
  · rename_i hnone
    cases h
    rw [hnone]
    rfl
  · rename_i hosts hhosts
    rw [hhosts]
    exact fileAll_of_foldlM _ (listedHost env _) (fun _ _ _ h ↦ addHost_ok h) h

/-- **What `load` does.** -/
theorem load_ok (h : load env cfg t = .ok t') :
    t' = mk t.backup (fileAll t.tab (listed env cfg)) := by
  unfold load at h
  split at h
  · cases h
    cases t
    rfl
  · obtain ⟨tab, htab, rfl⟩ := map_ok h
    rw [fileAll_of_foldlM _ (listedPeer env) (fun _ _ _ h ↦ addPeer_ok h) htab]
    rfl

theorem get?_fileAll (tab : OrdMap PeerKey Peer) (l : List (PeerKey × Peer)) (key : PeerKey) :
    (fileAll tab l).get? key = (lastOf l key).or (tab.get? key) :=
  OrdMap.get?_foldl_insert tab l key

/-- A table, and then those behind it. -/
theorem seekResolved_eq (t : PeerTable) (key : PeerKey) : t.seekResolved key =
    (t.tab.get? key).or (t.backup.bind fun backup ↦ backup.seekResolved key) := by
  cases t with
  | mk backup tab =>
    rw [seekResolved.eq_def]
    cases htab : tab.get? key with
    | some peer => simp [PeerTable.tab, htab]
    | none => cases backup <;> simp [PeerTable.tab, PeerTable.backup, htab]

theorem seekResolved_mk (backup : Option PeerTable) (tab : OrdMap PeerKey Peer) (key : PeerKey) :
    (mk backup tab).seekResolved key =
      (tab.get? key).or (backup.bind fun backup ↦ backup.seekResolved key) :=
  seekResolved_eq _ _

theorem mem_getNames_foldl {l : List (PeerKey × Peer)} {result : OrdMap String Unit}
    {name : String} :
    ((l.foldl (fun result ent ↦ result.insert ent.2.1 ()) result).get? name).isSome ↔
      (result.get? name).isSome ∨ ∃ ent ∈ l, ent.2.1 = name := by
  induction l generalizing result with
  | nil => simp
  | cons ent l ih =>
    rw [List.foldl_cons, ih, OrdMap.get?_insert]
    by_cases hname : name = ent.2.1
    · simp [hname]
    · simp [hname, Ne.symm hname]

/-- The names that are added are those in the tables. -/
theorem mem_getNames (t : PeerTable) (result : OrdMap String Unit) (name : String) :
    ((t.getNames result).get? name).isSome ↔
      ((t.backup.elim result fun backup ↦ backup.getNames result).get? name).isSome ∨
        ∃ key peer, t.tab.get? key = some peer ∧ peer.1 = name := by
  cases t with
  | mk backup tab =>
    rw [getNames.eq_def]
    dsimp only
    rw [mem_getNames_foldl]
    refine or_congr ?_ ?_
    · cases backup <;> rfl
    · simp only [Prod.exists, OrdMap.mem_entries]
      exact Iff.rfl

/-- A name that is found is among the names. -/
theorem name_of_seekResolved (t : PeerTable) {key : PeerKey} {peer : Peer}
    (result : OrdMap String Unit) (h : t.seekResolved key = some peer) :
    ((t.getNames result).get? peer.1).isSome := by
  match t with
  | mk backup tab =>
    rw [seekResolved_eq, Option.or_eq_some_iff] at h
    rw [mem_getNames]
    obtain hget | ⟨-, hbackup⟩ := h
    · exact .inr ⟨key, peer, hget, rfl⟩
    · obtain ⟨backup, rfl, hseek⟩ := Option.bind_eq_some_iff.mp hbackup
      exact .inl (name_of_seekResolved backup result hseek)

/-- What there is in two tables that have been loaded. -/
theorem seekResolved_load {global : PeerTable} (hglobal : load env cfg (create none) = .ok global)
    (ht : load env cfg' (create (some global)) = .ok t) (key : PeerKey) :
    t.seekResolved key = (lastOf (listed env cfg') key).or (lastOf (listed env cfg) key) := by
  rw [load_ok ht, load_ok hglobal, seekResolved_mk, get?_fileAll]
  simp only [create, PeerTable.backup, Option.bind_some, seekResolved_mk, get?_fileAll]
  simp [PeerTable.tab]

/-- An address is looked for only if it can be named. -/
theorem seek_ok {a : SocketAddress} {found : Option Peer} (h : t.seek env a = .ok found) :
    ∃ key, env.key a = .ok key ∧ t.seekResolved key = found := by
  rw [seek] at h
  split at h
  · dsimp only [bind, Except.bind] at h
    split at h <;> cases h
  · exact ⟨_, ‹_›, Except.ok.inj h⟩

/-- **Peers are found by the last entry that has the address.**  A table that has been loaded, with
another behind it, finds of each address what the last entry of its own configuration says that has
its family and numeric host; or else the last one of the other's; or nothing.  Every name that is
found is among those of `get_names`. -/
theorem peer_by_last_entry {global : PeerTable} (hglobal : load env cfg (create none) = .ok global)
    (ht : load env cfg' (create (some global)) = .ok t) {a : SocketAddress} {key : PeerKey}
    (hkey : env.key a = .ok key) :
    t.seek env a = .ok ((lastOf (listed env cfg') key).or (lastOf (listed env cfg) key)) ∧
      ∀ peer, t.seek env a = .ok (some peer) →
        ((t.getNames .empty).get? peer.1).isSome := by
  have hseek : t.seek env a = .ok (t.seekResolved key) := by rw [seek, hkey]
  refine ⟨?_, fun peer hpeer ↦ ?_⟩
  · rw [hseek, seekResolved_load hglobal ht]
  · rw [hseek] at hpeer
    exact name_of_seekResolved t .empty (Except.ok.inj hpeer)

/-- Every host has one address, and a numeric host is told by the last byte. -/
def oneAddress : Resolver where
  getaddrinfo _ := .ok [.inet 1 0]
  getnameinfo a := .ok (if a.bytes.getD 7 0 = 1 then "10.0.0.1" else "10.0.0.2", "0")
  hash _ := 0

/-- A peer of every egress. -/
def siteWide : List (String × PeerConfig) := [("site", ⟨some ["host"], none⟩)]

/-- Two peers share that host. -/
def sharing : List (String × PeerConfig) :=
  [("a", ⟨some ["host"], none⟩), ("b", ⟨some ["host"], some 5⟩)]

/-- The table of an egress with these, and none behind them. -/
def sharingTable : PeerTable :=
  mk (some (create none)) (fileAll .empty (listed oneAddress (some sharing)))

theorem load_sharing :
    load oneAddress (some sharing) (create (some (create none))) = .ok sharingTable := rfl

theorem peer_by_last_entry_two : ∃ global t,
    load oneAddress (some siteWide) (create none) = .ok global ∧
      load oneAddress (some sharing) (create (some global)) = .ok t ∧
        t.seek oneAddress (.inet 1 4000) = .ok (some ("b", 5)) := by
  obtain ⟨global, hglobal⟩ : ∃ global, load oneAddress (some siteWide) (create none) =
    .ok global := ⟨_, rfl⟩
  obtain ⟨t, ht⟩ : ∃ t, load oneAddress (some sharing) (create (some global)) = .ok t :=
    ⟨_, rfl⟩
  refine ⟨global, t, hglobal, ht, ?_⟩
  rw [(peer_by_last_entry hglobal ht (a := .inet 1 4000) rfl).1]
  decide

end PeerTable
end UdpTun
