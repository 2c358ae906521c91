import UdpTun.Destinations
import UdpTun.Network
import Mathlib.Data.List.Sort
import Mathlib.Data.Prod.Lex

/-!
# Emitters

An `Emitter` is a socket that datagrams are sent from.  Which destinations it can send to is a
matter of their `options`, the addresses that a look-up has found for them by family and protocol.
`EmitterMaker` looks for the address entry that suits the most of the required destinations and for
which a socket can be bound.

The outcomes of the system calls of one maker are a `Round`.  That `std::sort` leaves entries of the
same count in an order of its own is part of it.  `EmitterMaker.create_spec` says what a maker
finds.

What is sent is given by the address that is handed to `sendto`.
-/

set_option autoImplicit false

namespace UdpTun

/-- `struct addrinfo`. -/
structure AddressInfo where
  family : Nat
  protocol : Nat
  addr : SocketAddress
  deriving DecidableEq

/-- `Destination::options`, by family and protocol. -/
abbrev Options := OrdMap (Nat ×ₗ Nat) SocketAddress

/-- The options of the destinations that are `activated`, by where the objects are. -/
abbrev Activations := OrdMap Nat Options

namespace Destination

variable {N : Type}

/-- The options that a look-up leads to; the first of a kind is kept. -/
def readOptions (info : List AddressInfo) : Options :=
  info.foldl (fun options i ↦ options.tryEmplace (toLex (i.family, i.protocol)) i.addr) .empty

/-- The destination has an option for the family and the protocol. -/
def suits (d : Destination N) (active : Activations) (family protocol : Nat) : Bool :=
  ((active.get? d.addr).bind fun options ↦ options.get? (toLex (family, protocol))).isSome

variable [ToString N]

/-- What `activate` asks `get_address_info`. -/
def query (d : Destination N) : AddressQuery where
  ctxt := "destination:" ++ toString d.name
  host := d.host
  serv := if d.srv.isEmpty then none else d.srv
  family := aiFamily d.ipv4 d.ipv6
  socktype := sockDgram

/-- `activate`, where `resolve` is what `getaddrinfo` gives for a destination. -/
def activate (d : Destination N) (resolve : Destination N → Except Eai (List AddressInfo))
    (active : Activations) : Except Halt Activations :=
  if (active.get? d.addr).isSome then .ok active
  else (getAddressInfo d.query (resolve d)).map fun info ↦
    active.insert d.addr (readOptions info)

/-- What `peer` and `check` throw before `activate`. -/
def tooSoon (d : Destination N) : Exception :=
  .runtimeError ("too soon to check against dest " ++ toString d.name)

/-- `peer`. -/
def peer (d : Destination N) (active : Activations) (family protocol : Nat) :
    Except Halt (Option SocketAddress) :=
  match active.get? d.addr with
  | none => .error (.exception d.tooSoon)
  | some options => .ok (options.get? (toLex (family, protocol)))

/-- `check`. -/
def check (d : Destination N) (active : Activations) (family protocol : Nat) : Except Halt Bool :=
  (d.peer active family protocol).map Option.isSome

/-- `send`.  If there is no option, then what is logged is read from the end iterator. -/
def send (d : Destination N) (active : Activations) (family protocol : Nat) :
    Except Halt SocketAddress :=
  match active.get? d.addr with
  | none => .error (.exception (.runtimeError ("too soon to send to dest " ++ toString d.name)))
  | some options =>
    match options.get? (toLex (family, protocol)) with
    | none => .error .undefined
    | some addr => .ok addr

end Destination

/-- `Emitter`. -/
structure Emitter where
  sock : Nat
  family : Nat
  protocol : Nat
  deriving DecidableEq

/-- `Emitter::send`.  What is logged is read through the result of `peer`, which may be null. -/
def Emitter.send {N : Type} [ToString N] (em : Emitter) (active : Activations)
    (dst : Destination N) : Except Halt SocketAddress := do
  let addr ← dst.send active em.family em.protocol
  match ← dst.peer active em.family em.protocol with
  | none => .error .undefined
  | some _ => .ok addr

/-- The outcomes of the system calls of a maker. -/
structure Round where
  /-- What `getaddrinfo` gives. -/
  info : Except Eai (List AddressInfo)
  /-- The socket that is made for each entry. -/
  socket : Nat → Option Nat
  bind : Nat → Bool
  /-- The order of entries that suit as many destinations. -/
  rank : Nat → Nat
  /-- `errno`, if `getsockname` fails. -/
  getsockname : Option Nat

/-- The socket that is made for an entry and bound. -/
def Round.bound (r : Round) (index : Nat) : Option Nat :=
  if r.bind index then r.socket index else none

/-- An entry that suits some of the required destinations, and how many. -/
structure Candidate where
  index : Nat
  info : AddressInfo
  count : Nat

/-- `EmitterMaker`: the entry chosen and the socket for it, and the destinations it suits. -/
structure EmitterMaker (N : Type) where
  chosen : Option (AddressInfo × Nat)
  matched : DestinationSet N

namespace EmitterMaker

variable {N : Type}

/-- What a maker asks `get_address_info`. -/
def query : AddressQuery where
  ctxt := "emitter"
  host := none
  serv := "0"
  family := afUnspec
  socktype := sockDgram

/-- How many of the required destinations an entry suits. -/
def count [ToString N] (active : Activations) (required : DestinationSet N) (i : AddressInfo) :
    Except Halt Nat :=
  required.entries.foldlM (fun n p ↦ (p.2.check active i.family i.protocol).map fun suits ↦
    if suits then n + 1 else n) 0

/-- `counters`, from the entry `index` on. -/
def counters [ToString N] (active : Activations) (required : DestinationSet N) :
    Nat → List AddressInfo → Except Halt (List Candidate)
  | _, [] => .ok []
  | index, info :: l => do
    let count ← count active required info
    let rest ← counters active required (index + 1) l
    .ok (if count = 0 then rest else ⟨index, info, count⟩ :: rest)

/-- The destinations that an entry suits. -/
def suited [ToString N] (active : Activations) (required : DestinationSet N) (i : AddressInfo) :
    Except Halt (DestinationSet N) :=
  required.entries.foldlM (fun suited p ↦ (p.2.check active i.family i.protocol).map fun suits ↦
    if suits then suited.insert p.1 p.2 else suited) .empty

/-- Higher counts come first. -/
def Precedes (r : Round) (c c' : Candidate) : Prop :=
  c'.count < c.count ∨ c.count = c'.count ∧ r.rank c.index ≤ r.rank c'.index

instance (r : Round) : DecidableRel (Precedes r) :=
  fun _ _ ↦ inferInstanceAs (Decidable (_ ∨ _))

/-- The constructor. -/
def create [ToString N] (active : Activations) (r : Round) (required : DestinationSet N) :
    Except Halt (EmitterMaker N) :=
  match getAddressInfo query r.info with
  | .error x => .error x
  | .ok info => do
    let seq := (← counters active required 0 info).insertionSort (Precedes r)
    match seq.find? fun c ↦ (r.bound c.index).isSome with
    | none => .ok ⟨none, .empty⟩
    | some best => .ok ⟨(r.bound best.index).map (best.info, ·), ← suited active required best.info⟩

/-- `make`, which leaves what is still required, and the emitters for the rest. -/
def make (mkr : EmitterMaker N) (r : Round) (required : DestinationSet N)
    (result : OrdMap Nat Emitter) : Except Halt (DestinationSet N × OrdMap Nat Emitter) :=
  match mkr.chosen with
  | none => .ok (required, result)
  | some (info, sock) =>
    match r.getsockname with
    | some errno => .error (.exception (.systemError errno "getsockname"))
    | none => .ok (mkr.matched.entries.foldl (fun required p ↦ required.erase p.1) required,
      mkr.matched.entries.foldl
        (fun result p ↦ result.insert p.1 ⟨sock, info.family, info.protocol⟩) result)

/-! ## What a maker finds

The map of the source counts for each entry the destinations that it suits; the list of candidates
is made from that, and sorted.  It is taken back to what was to be counted. -/

variable {active : Activations} {r : Round} {required : DestinationSet N} {mkr : EmitterMaker N}
  {info : List AddressInfo}

/-- The entry suits the destination. -/
def suits (active : Activations) (i : AddressInfo) (d : Destination N) : Bool :=
  d.suits active i.family i.protocol

/-- How many of the required destinations an entry suits. -/
def suiting (active : Activations) (required : DestinationSet N) (i : AddressInfo) : Nat :=
  required.entries.countP fun p ↦ suits active i p.2

/-- All of the required destinations have been activated. -/
def Ready (active : Activations) (required : DestinationSet N) : Prop :=
  ∀ p ∈ required.entries, (active.get? p.2.addr).isSome

variable [ToString N]

theorem check_of_isSome {d : Destination N} (h : (active.get? d.addr).isSome) (i : AddressInfo) :
    d.check active i.family i.protocol = .ok (suits active i d) := by
  obtain ⟨options, hoptions⟩ := Option.isSome_iff_exists.mp h
  rw [Destination.check, Destination.peer, suits, Destination.suits, hoptions]
  rfl

theorem foldlM_check {β : Type} (i : AddressInfo) (f : Bool → β → Nat × Destination N → β)
    {l : List (Nat × Destination N)} (h : ∀ p ∈ l, (active.get? p.2.addr).isSome) (b : β) :
    l.foldlM (fun b p ↦ (p.2.check active i.family i.protocol).map fun s ↦ f s b p) b =
      .ok (l.foldl (fun b p ↦ f (suits active i p.2) b p) b) := by
  induction l generalizing b with
  | nil => rfl
  | cons p l ih =>
    rw [List.forall_mem_cons] at h
    rw [List.foldlM_cons, check_of_isSome h.1, List.foldl_cons]
    exact ih h.2 _

theorem count_eq (h : Ready active required) (i : AddressInfo) :
    count active required i = .ok (suiting active required i) := by
  rw [count, foldlM_check i (fun s n _ ↦ if s then n + 1 else n) h, suiting]
  congr 1
  have key : ∀ (l : List (Nat × Destination N)) (n : Nat),
      l.foldl (fun n p ↦ if suits active i p.2 then n + 1 else n) n =
        n + l.countP fun p ↦ suits active i p.2 := by
    intro l
    induction l with
    | nil => exact fun n ↦ rfl
    | cons p l ih =>
      intro n
      rw [List.foldl_cons, ih, List.countP_cons]
      split <;> omega
  rw [key, Nat.zero_add]

theorem suited_eq (h : Ready active required) (i : AddressInfo) :
    suited active required i = .ok (required.filter fun _ d ↦ suits active i d) := by
  refine (foldlM_check i (fun s (m : DestinationSet N) p ↦ if s then m.insert p.1 p.2 else m) h
    .empty).trans ?_
  exact congrArg Except.ok (required.foldl_insert fun p ↦ suits active i p.2)

omit [ToString N] in
theorem size_suited (active : Activations) (required : DestinationSet N) (i : AddressInfo) :
    (required.filter fun _ d ↦ suits active i d).size = suiting active required i :=
  (List.countP_eq_length_filter ..).symm

/-- The candidates are the entries that suit a destination. -/
theorem mem_counters (h : Ready active required) (index : Nat) (l : List AddressInfo) :
    ∃ seq, counters active required index l = .ok seq ∧ ∀ c, c ∈ seq ↔
      ∃ n, c.index = index + n ∧ l[n]? = some c.info ∧ c.count = suiting active required c.info ∧
        c.count ≠ 0 := by
  induction l generalizing index with
  | nil => exact ⟨[], rfl, fun c ↦ by simp⟩
  | cons i l ih =>
    obtain ⟨seq, hseq, hmem⟩ := ih (index + 1)
    refine ⟨if suiting active required i = 0 then seq
      else ⟨index, i, suiting active required i⟩ :: seq, ?_, fun c ↦ ?_⟩
    · rw [counters, count_eq h, hseq]
      rfl
    have hrest : c ∈ seq ↔ ∃ n, c.index = index + (n + 1) ∧ (i :: l)[n + 1]? = some c.info ∧
        c.count = suiting active required c.info ∧ c.count ≠ 0 := by
      rw [hmem]
      simp only [List.getElem?_cons_succ, Nat.add_assoc, Nat.add_comm 1]
    have hfirst : c = ⟨index, i, suiting active required i⟩ ∧ suiting active required i ≠ 0 ↔
        c.index = index + 0 ∧ (i :: l)[0]? = some c.info ∧
          c.count = suiting active required c.info ∧ c.count ≠ 0 := by
      obtain ⟨index', i', n⟩ := c
      simp only [Candidate.mk.injEq, Nat.add_zero, List.getElem?_cons_zero, Option.some_inj]
      constructor
      · rintro ⟨⟨rfl, rfl, rfl⟩, hne⟩
        exact ⟨rfl, rfl, rfl, hne⟩
      · rintro ⟨rfl, rfl, rfl, hne⟩
        exact ⟨⟨rfl, rfl, rfl⟩, hne⟩
    rw [← Nat.or_exists_add_one, ← hrest, ← hfirst]
    split
    · rename_i hzero
      simp [hzero]
    · rename_i hne
      rw [List.mem_cons, and_iff_left hne]

/-- What a maker comes to: the entry that it has chosen is one of those for which a socket can be
bound, and none of those suits more of the required destinations. -/
structure Chooses (active : Activations) (r : Round) (required : DestinationSet N)
    (info : List AddressInfo) (mkr : EmitterMaker N) : Prop where
  none : mkr.chosen = none → mkr.matched = .empty
  chosen : ∀ i sock, mkr.chosen = some (i, sock) → (∃ index : Nat, info[index]? = some i ∧
    r.bound index = some sock) ∧ mkr.matched = required.filter fun _ d ↦ suits active i d
  most : ∀ (index : Nat) i, info[index]? = some i → (r.bound index).isSome →
    suiting active required i ≤ mkr.matched.size

instance (r : Round) : Std.Total (Precedes r) where
  total c c' := by
    unfold Precedes
    omega

instance (r : Round) : IsTrans Candidate (Precedes r) where
  trans c c' c'' h h' := by
    unfold Precedes at *
    omega

theorem Precedes.count_le {c c' : Candidate} (h : Precedes r c c') : c'.count ≤ c.count := by
  unfold Precedes at h
  omega

/-- **A maker chooses well**, whatever the system calls come to. -/
theorem create_spec (h : Ready active required) (hinfo : r.info = .ok info) :
    ∃ mkr, create active r required = .ok mkr ∧ Chooses active r required info mkr := by
  obtain ⟨counted, hcounted, hmem⟩ := mem_counters h 0 info
  have hseq : ∀ c, c ∈ counted.insertionSort (Precedes r) ↔ info[c.index]? = some c.info ∧
      c.count = suiting active required c.info ∧ c.count ≠ 0 := by
    intro c
    rw [List.mem_insertionSort, hmem]
    simp only [Nat.zero_add]
    exact ⟨fun ⟨n, hn, hc⟩ ↦ by rwa [← hn] at hc, fun hc ↦ ⟨_, rfl, hc⟩⟩
  have hsorted := List.pairwise_insertionSort (Precedes r) counted
  have hcreate : create active r required =
      match (counted.insertionSort (Precedes r)).find? fun c ↦ (r.bound c.index).isSome with
      | none => .ok ⟨none, .empty⟩
      | some best => .ok ⟨(r.bound best.index).map (best.info, ·),
          required.filter fun _ d ↦ suits active best.info d⟩ := by
    rw [create, hinfo, getAddressInfo_ok]
    dsimp only [bind, Except.bind]
    rw [hcounted]
    dsimp only
    split
    · rfl
    · rw [suited_eq h]
  generalize counted.insertionSort (Precedes r) = seq at hseq hsorted hcreate
  rw [hcreate]
  cases hfind : seq.find? fun c ↦ (r.bound c.index).isSome with
  | none =>
    refine ⟨_, rfl, fun _ ↦ rfl, nofun, fun index i hi hbound ↦ ?_⟩
    by_contra hlt
    have hne : suiting active required i ≠ 0 := fun hzero ↦ hlt (hzero.trans_le (Nat.zero_le _))
    have hmem : ⟨index, i, suiting active required i⟩ ∈ seq := (hseq _).mpr ⟨hi, rfl, hne⟩
    exact List.find?_eq_none.mp hfind _ hmem hbound
  | some best =>
    obtain ⟨hbest, before, after, rfl, hbefore⟩ := List.find?_eq_some_iff_append.mp hfind
    obtain ⟨sock, hsock⟩ := Option.isSome_iff_exists.mp hbest
    obtain ⟨hi, hcount, -⟩ := (hseq best).mp (by simp)
    refine ⟨_, rfl, fun hnone ↦ ?_, fun i sock' hchosen ↦ ?_, fun index i hi hbound ↦ ?_⟩
    · rw [hsock] at hnone
      cases hnone
    · rw [hsock] at hchosen
      cases hchosen
      exact ⟨⟨_, hi, hsock⟩, rfl⟩
    · dsimp only
      rw [size_suited, ← hcount]
      by_contra hlt
      have hne : suiting active required i ≠ 0 := fun hzero ↦ hlt (hzero.trans_le (Nat.zero_le _))
      have hmem := (hseq ⟨index, i, suiting active required i⟩).mpr ⟨hi, rfl, hne⟩
      rw [List.mem_append, List.mem_cons] at hmem
      rw [List.pairwise_append, List.pairwise_cons] at hsorted
      rcases hmem with hmem | rfl | hmem
      · have hunbound := hbefore _ hmem
        rw [hbound] at hunbound
        cases hunbound
      · exact hlt le_rfl
      · exact hlt (hsorted.2.1.1 _ hmem).count_le

/-- The destinations have been activated if they can be checked. -/
theorem ready_of_count {i : AddressInfo} {n : Nat} (h : count active required i = .ok n) :
    Ready active required := by
  have key : ∀ (l : List (Nat × Destination N)) (m : Nat),
      l.foldlM (fun n p ↦ (p.2.check active i.family i.protocol).map fun suits ↦
        if suits then n + 1 else n) m = .ok n → ∀ p ∈ l, (active.get? p.2.addr).isSome := by
    intro l
    induction l with
    | nil => exact fun _ _ ↦ nofun
    | cons p l ih =>
      intro m hm
      rw [List.foldlM_cons, Destination.check, Destination.peer] at hm
      cases hget : active.get? p.2.addr with
      | none =>
        rw [hget] at hm
        cases hm
      | some options =>
        rw [hget] at hm
        exact List.forall_mem_cons.mpr ⟨by rw [hget]; rfl, ih _ hm⟩
  exact key required.entries 0 h

/-- **Whenever there is a maker, it has chosen well.** -/
theorem create_ok (h : create active r required = .ok mkr) :
    ∃ info, r.info = .ok info ∧ Chooses active r required info mkr := by
  rw [create] at h
  cases hinfo : r.info with
  | error e =>
    rw [hinfo] at h
    cases h
  | ok info =>
    refine ⟨info, rfl, ?_⟩
    rw [hinfo, getAddressInfo_ok] at h
    cases info with
    | nil =>
      simp only [counters, bind, Except.bind, List.insertionSort_nil, List.find?_nil] at h
      cases h
      exact ⟨fun _ ↦ rfl, nofun, fun index i hi ↦ by simp at hi⟩
    | cons i info =>
      have hready : Ready active required := by
        simp only [counters, bind, Except.bind] at h
        cases hcount : count active required i with
        | error x =>
          rw [hcount] at h
          cases h
        | ok n => exact ready_of_count hcount
      obtain ⟨mkr', hmkr', hchooses⟩ := create_spec hready hinfo
      rw [create, hinfo, getAddressInfo_ok] at hmkr'
      rw [← Except.ok.inj (hmkr'.symm.trans h)]
      exact hchooses

omit [ToString N] in
theorem make_throws {x : Halt} {result : OrdMap Nat Emitter}
    (h : mkr.make r required result = .error x) : x.Throws := by
  rw [make] at h
  split at h
  · cases h
  · split at h
    · cases h
      exact Halt.throws _
    · cases h

omit [ToString N] in
/-- What is matched is not required any more, and has the emitter; nothing else changes. -/
theorem make_ok {result result' : OrdMap Nat Emitter} {required' : DestinationSet N}
    (h : Chooses active r required info mkr)
    (hmake : mkr.make r required result = .ok (required', result')) :
    required' = (required.filter fun a _ ↦ (mkr.matched.get? a).isNone) ∧
      ∀ a, (mkr.matched.get? a = none ∧ result'.get? a = result.get? a) ∨
        ∃ d em, required.get? a = some d ∧ d.suits active em.family em.protocol ∧
          mkr.matched.get? a = some d ∧ result'.get? a = some em := by
  rw [make] at hmake
  cases hchosen : mkr.chosen with
  | none =>
    rw [hchosen] at hmake
    cases hmake
    have hempty := h.none hchosen
    refine ⟨OrdMap.ext_get? fun a ↦ ?_, fun a ↦ .inl ⟨?_, rfl⟩⟩
    · rw [OrdMap.get?_filter, hempty]
      cases required.get? a <;> rfl
    · rw [hempty]
      rfl
  | some p =>
    obtain ⟨i, sock⟩ := p
    rw [hchosen] at hmake
    dsimp only at hmake
    split at hmake
    · cases hmake
    · cases hmake
      refine ⟨OrdMap.foldl_erase required mkr.matched, fun a ↦ ?_⟩
      rw [OrdMap.get?_foldl_insert_const]
      cases hmatched : mkr.matched.get? a with
      | none => exact .inl ⟨rfl, Option.none_or⟩
      | some d =>
        have hget := hmatched
        rw [(h.chosen i sock hchosen).2, OrdMap.get?_filter, Option.filter_eq_some_iff] at hget
        exact .inr ⟨d, ⟨sock, i.family, i.protocol⟩, hget.1, hget.2, rfl, rfl⟩

end EmitterMaker
end UdpTun
