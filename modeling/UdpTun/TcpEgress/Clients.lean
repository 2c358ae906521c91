import UdpTun.Destinations.Selection
import UdpTun.Emitters
import Mathlib.Data.List.Induction

/-!
# What there is to a client

A `ClientState` of `TCPEgress` knows for each label where datagrams go to, and by which emitter.
Its constructor looks the names of the channel map up, activates what it finds, and makes emitters
until none of the destinations lacks one.  `deliver` sends a datagram to all the outlets of its
label.

`Lookups` is what the system calls come to meanwhile.  The constructor may throw; else the outlets
are complete (`ClientState.Complete`), and nothing that is delivered goes wrong.

* `Covers` is what the first loop has gathered so far, and `gather_spec` that it gathers all.
* `erode_spec` is about the second loop, which ends because each turn leaves less.
* `outlets_complete` puts the three loops together, and `Complete.deliver` is what follows for a
  datagram.
-/

set_option autoImplicit false

namespace UdpTun
namespace TcpEgress

open DestinationBank (seek)

/-- `channelmap_t`: the names that a label is configured with, in the order of their set. -/
abbrev ChannelMap (N : Type) := OrdMap Nat (List N)

/-- What `getaddrinfo` gives for each destination, and what the calls of each emitter maker
give. -/
structure Lookups (N : Type) where
  resolve : Destination N → Except Eai (List AddressInfo)
  rounds : Nat → Round

/-- What the first loop gathers: `required_dests`, `name_dests`, and what is activated. -/
structure Gathered (N : Type) [LinearOrder N] where
  required : DestinationSet N
  nameDests : OrdMap N (Destination N)
  active : Activations

/-- `ClientState`, less the time of its last use. -/
structure ClientState (N : Type) where
  outlets : OrdMap Nat (OrdMap Nat (Destination N × Emitter))

namespace ClientState

variable {N : Type} [LinearOrder N]

/-! ## The constructor

Three loops: the destinations are found and activated, emitters are made until none is left over,
and the two are put together for each label. -/

/-- A name of the channel map. -/
def gatherName [ToString N] (bank : DestinationBank N) (hash : Nat)
    (resolve : Destination N → Except Eai (List AddressInfo)) (g : Gathered N) (dname : N) :
    Except Halt (Gathered N) :=
  match bank.seek dname hash with
  | .error x => .error x
  | .ok none => .ok g
  | .ok (some dest) => (dest.activate resolve g.active).map fun active ↦
    { required := g.required.insert dest.addr dest
      nameDests := g.nameDests.insert dname dest
      active }

/-- The first loop. -/
def gather [ToString N] (bank : DestinationBank N) (hash : Nat)
    (resolve : Destination N → Except Eai (List AddressInfo)) (chmap : ChannelMap N)
    (active : Activations) : Except Halt (Gathered N) :=
  chmap.entries.foldlM (fun g ent ↦ ent.2.foldlM (gatherName bank hash resolve) g)
    ⟨.empty, .empty, active⟩

/-- The second loop.  There is at most one turn for each of the required destinations. -/
def erode [ToString N] (active : Activations) :
    Nat → (Nat → Round) → DestinationSet N → OrdMap Nat Emitter → Except Halt (OrdMap Nat Emitter)
  | fuel, rounds, required, destEm =>
    if required.entries.isEmpty then .ok destEm
    else
      match fuel with
      | 0 => .error .unfinished
      | fuel + 1 => do
        let mkr ← EmitterMaker.create active (rounds 0) required
        if mkr.matched.entries.isEmpty then
          .error (.exception (.runtimeError "could not make emitters for all destinations"))
        else
          let r ← mkr.make (rounds 0) required destEm
          erode active fuel (fun k ↦ rounds (k + 1)) r.1 r.2

/-- A name in the third loop. -/
def addOutlet (nameDests : OrdMap N (Destination N)) (destEm : OrdMap Nat Emitter) (label : Nat)
    (outlets : OrdMap Nat (OrdMap Nat (Destination N × Emitter))) (dname : N) :
    OrdMap Nat (OrdMap Nat (Destination N × Emitter)) :=
  match nameDests.get? dname with
  | none => outlets
  | some dest =>
    match destEm.get? dest.addr with
    | none => outlets
    | some em => outlets.file label dest.addr (dest, em)

/-- The third loop. -/
def fillOutlets (nameDests : OrdMap N (Destination N)) (destEm : OrdMap Nat Emitter)
    (chmap : ChannelMap N) : OrdMap Nat (OrdMap Nat (Destination N × Emitter)) :=
  chmap.entries.foldl (fun outlets ent ↦ ent.2.foldl (addOutlet nameDests destEm ent.1) outlets)
    .empty

/-- The constructor, which also leaves more of the destinations activated. -/
def create [ToString N] (bank : DestinationBank N) (hash : Nat) (lookups : Lookups N)
    (chmap : ChannelMap N) (active : Activations) : Except Halt (ClientState N × Activations) := do
  let g ← gather bank hash lookups.resolve chmap active
  let destEm ← erode g.active g.required.size lookups.rounds g.required .empty
  .ok (⟨fillOutlets g.nameDests destEm chmap⟩, g.active)

/-- `deliver`: the sockets that a datagram is sent from, and where it is sent to. -/
def deliver [ToString N] (s : ClientState N) (active : Activations) (label : Nat) :
    Except Halt (List (Nat × SocketAddress)) :=
  match s.outlets.get? label with
  | none => .ok []
  | some outlets => outlets.entries.mapM fun ent ↦
    (ent.2.2.send active ent.2.1).map fun addr ↦ (ent.2.2.sock, addr)

/-! ## What is gathered

The destinations are in a map by the addresses of their objects.  So no two of them may be at one
address, which is so for the objects of one bank. -/

variable {bank : DestinationBank N} {hash : Nat} {g : Gathered N} {names : List N}
  {active active' : Activations}

/-- `seek` finds something or nothing, and no two of the objects that it finds have the same
address. -/
structure Usable (bank : DestinationBank N) (hash : Nat) : Prop where
  total : ∀ name, ∃ found, bank.seek name hash = .ok found
  apart : ∀ name name' d d', bank.seek name hash = .ok (some d) →
    bank.seek name' hash = .ok (some d') → d.addr = d'.addr → d = d'

theorem usable_of_load [ToString N] {cfg : BankConfig N} {heap : Nat → Nat}
    (hposs : cfg.Possible heap) (h : DestinationBank.load heap cfg .init = .ok bank) (hash : Nat) :
    Usable bank hash := by
  have hobject : ∀ {name : N} {d : Destination N}, bank.seek name hash = .ok (some d) →
      ∃ c, cfg.object heap c = some d := by
    intro name d hd
    obtain ⟨l, -, hmem, hseek⟩ := DestinationBank.seek_spec hposs h name hash
    obtain ⟨c, -, hc⟩ := (hmem d).mp (List.mem_of_getElem? (Except.ok.inj (hseek.symm.trans hd)))
    exact ⟨c, hc⟩
  refine ⟨fun name ↦ ?_, fun name name' d d' hd hd' haddr ↦ ?_⟩
  · obtain ⟨l, -, -, hseek⟩ := DestinationBank.seek_spec hposs h name hash
    exact ⟨_, hseek⟩
  · obtain ⟨c, hc⟩ := hobject hd
    obtain ⟨c', hc'⟩ := hobject hd'
    exact hposs.object_inj hc hc' haddr

/-- What has been activated stays so. -/
def Extends (active active' : Activations) : Prop :=
  ∀ a options, active.get? a = some options → active'.get? a = some options

omit [LinearOrder N] in
theorem activate_spec [ToString N] (d : Destination N)
    (resolve : Destination N → Except Eai (List AddressInfo)) (active : Activations) :
    OrThrows (fun active' ↦ Extends active active' ∧ (active'.get? d.addr).isSome)
      (d.activate resolve active) := by
  rw [Destination.activate]
  split
  · rename_i hsome
    exact ⟨fun _ _ ↦ id, hsome⟩
  · rename_i hnone
    cases resolve d with
    | error e => exact Halt.throws _
    | ok info =>
      refine ⟨fun a options ha ↦ ?_, by rw [OrdMap.get?_insert_self]; rfl⟩
      rw [OrdMap.get?_insert_of_ne]
      · exact ha
      · rintro rfl
        exact hnone (by rw [ha]; rfl)

/-- What has been gathered for some of the names, from what was activated before. -/
structure Covers (bank : DestinationBank N) (hash : Nat) (active : Activations) (names : List N)
    (g : Gathered N) : Prop where
  required : ∀ a d, g.required.get? a = some d ↔
    (∃ name ∈ names, bank.seek name hash = .ok (some d)) ∧ d.addr = a
  named : ∀ name d, g.nameDests.get? name = some d ↔
    name ∈ names ∧ bank.seek name hash = .ok (some d)
  activated : ∀ name ∈ names, ∀ d, bank.seek name hash = .ok (some d) →
    (g.active.get? d.addr).isSome
  extends_ : Extends active g.active

theorem Covers.gatherName [ToString N] (h : Covers bank hash active names g) (hu : Usable bank hash)
    (resolve : Destination N → Except Eai (List AddressInfo)) (name : N) :
    OrThrows (Covers bank hash active (names ++ [name])) (gatherName bank hash resolve g name) := by
  rw [ClientState.gatherName]
  obtain ⟨found, hfound⟩ := hu.total name
  -- what is found for one more name
  have hmem : ∀ n, n ∈ names ++ [name] ↔ n ∈ names ∨ n = name := by simp
  have hseek : ∀ d, (∃ n ∈ names ++ [name], bank.seek n hash = .ok (some d)) ↔
      (∃ n ∈ names, bank.seek n hash = .ok (some d)) ∨ found = some d := by
    intro d
    rw [show found = some d ↔ bank.seek name hash = .ok (some d) by rw [hfound, Except.ok.injEq]]
    simp only [hmem, or_and_right, exists_or, exists_eq_left]
  rw [hfound]
  cases found with
  | none =>
    refine ⟨fun a d ↦ ?_, fun n d ↦ ?_, fun n hn d hd ↦ ?_, h.extends_⟩
    · rw [h.required, hseek]
      simp
    · rw [h.named, hmem]
      refine ⟨fun hn ↦ ⟨.inl hn.1, hn.2⟩, ?_⟩
      rintro ⟨hn | rfl, hd⟩
      · exact ⟨hn, hd⟩
      · rw [hfound] at hd
        cases hd
    · rcases (hmem n).mp hn with hn | rfl
      · exact h.activated n hn d hd
      · rw [hfound] at hd
        cases hd
  | some dest =>
    dsimp only
    refine (activate_spec dest resolve g.active).bind fun active' hactive' ↦ ?_
    obtain ⟨hextends, hdest⟩ := hactive'
    refine ⟨fun a d ↦ ?_, fun n d ↦ ?_, fun n hn d hd ↦ ?_, fun a o ha ↦
      hextends a o (h.extends_ a o ha)⟩
    · dsimp only
      rw [OrdMap.get?_insert, hseek, Option.some_inj]
      split
      · rename_i ha
        subst ha
        rw [Option.some_inj]
        refine ⟨fun heq ↦ ⟨.inr heq, by rw [heq]⟩, ?_⟩
        rintro ⟨⟨n, hn, hd⟩ | heq, haddr⟩
        · exact hu.apart name n dest d hfound hd haddr.symm
        · exact heq
      · rename_i ha
        rw [h.required]
        refine ⟨fun hd ↦ ⟨.inl hd.1, hd.2⟩, ?_⟩
        rintro ⟨hd | rfl, haddr⟩
        · exact ⟨hd, haddr⟩
        · exact absurd haddr.symm ha
    · dsimp only
      rw [OrdMap.get?_insert, hmem]
      split
      · rename_i heq
        subst heq
        rw [hfound, Except.ok.injEq]
        simp
      · rename_i hne
        rw [h.named]
        simp [hne]
    · dsimp only
      rcases (hmem n).mp hn with hn | rfl
      · obtain ⟨o, ho⟩ := Option.isSome_iff_exists.mp (h.activated n hn d hd)
        rw [hextends _ o ho]
        rfl
      · rw [hfound] at hd
        cases hd
        exact hdest

theorem gather_spec [ToString N] (hu : Usable bank hash)
    (resolve : Destination N → Except Eai (List AddressInfo)) (chmap : ChannelMap N)
    (active : Activations) : OrThrows (Covers bank hash active (chmap.entries.flatMap (·.2)))
      (gather bank hash resolve chmap active) := by
  have hinit : (fun (done : List (Nat × List N)) g ↦
      Covers bank hash active (done.flatMap (·.2)) g) [] ⟨.empty, .empty, active⟩ := by
    refine ⟨fun a d ↦ ?_, fun name d ↦ ?_, nofun, fun _ _ ↦ id⟩
    · simp
    · simp
  refine OrThrows.foldlM (I := fun done g ↦ Covers bank hash active (done.flatMap (·.2)) g)
    (fun done ent g hg ↦ ?_) chmap.entries hinit
  rw [List.flatMap_append, List.flatMap_singleton]
  exact OrThrows.foldlM (I := fun done g ↦ Covers bank hash active done g)
    (fun done name g hg ↦ hg.gatherName hu resolve name) ent.2 hg

/-! ## Emitters for all

Each maker chooses for those that are left, and takes at least one of them away, or it throws.  So
there are no more turns than destinations. -/

/-- What is still required has been activated, and is found by its address. -/
def Required (active : Activations) (required : DestinationSet N) : Prop :=
  ∀ a d, required.get? a = some d → d.addr = a ∧ (active.get? a).isSome

/-- An emitter goes with the destination that it is for. -/
def Serves (active : Activations) (destEm : OrdMap Nat Emitter) : Prop :=
  ∀ a em, destEm.get? a = some em → ∃ options, active.get? a = some options ∧
    (options.get? (toLex (em.family, em.protocol))).isSome

omit [LinearOrder N] in
theorem Required.ready {required : DestinationSet N} (h : Required active required) :
    EmitterMaker.Ready active required := by
  intro p hp
  obtain ⟨haddr, hactive⟩ := h p.1 p.2 (OrdMap.mem_entries.mp hp)
  rwa [haddr]

omit [LinearOrder N] in
/-- A turn of the loop: something is matched, and has an emitter. -/
theorem erode_turn {required required' : DestinationSet N} {destEm destEm' : OrdMap Nat Emitter}
    {r : Round} {mkr : EmitterMaker N} {info : List AddressInfo} (hreq : Required active required)
    (hserves : Serves active destEm) (hchooses : EmitterMaker.Chooses active r required info mkr)
    (hne : mkr.matched.entries ≠ [])
    (hmake : mkr.make r required destEm = .ok (required', destEm')) :
    required'.size < required.size ∧ Required active required' ∧ Serves active destEm' ∧
      ∀ a, (required.get? a).isSome ∨ (destEm.get? a).isSome →
        (required'.get? a).isSome ∨ (destEm'.get? a).isSome := by
  obtain ⟨rfl, hresult⟩ := EmitterMaker.make_ok hchooses hmake
  refine ⟨?_, fun a d hd ↦ ?_, fun a em hem ↦ ?_, fun a ha ↦ ?_⟩
  · obtain ⟨p, hp⟩ := List.exists_mem_of_ne_nil _ hne
    have hget : mkr.matched.get? p.1 = some p.2 := OrdMap.mem_entries.mp hp
    refine List.length_filter_lt_length_iff_exists.mpr ⟨p, ?_, by simp [hget]⟩
    rcases hresult p.1 with ⟨hnone, -⟩ | ⟨d, em, hd, -, hmatched, -⟩
    · rw [hget] at hnone
      cases hnone
    · rw [hget] at hmatched
      cases hmatched
      exact OrdMap.mem_entries.mpr hd
  · rw [OrdMap.get?_filter, Option.filter_eq_some_iff] at hd
    exact hreq a d hd.1
  · rcases hresult a with ⟨-, hsame⟩ | ⟨d, em', hd, hsuits, -, hem'⟩
    · exact hserves a em (hsame ▸ hem)
    · rw [hem] at hem'
      cases hem'
      obtain ⟨haddr, hactive⟩ := hreq a d hd
      obtain ⟨options, hoptions⟩ := Option.isSome_iff_exists.mp hactive
      rw [Destination.suits, haddr, hoptions] at hsuits
      exact ⟨options, hoptions, hsuits⟩
  · rcases hresult a with ⟨hnone, hsame⟩ | ⟨d, em, -, -, -, hem⟩
    · rw [OrdMap.get?_filter, hnone, hsame]
      simpa using ha
    · exact .inr (by rw [hem]; rfl)

omit [LinearOrder N] in
/-- **The loop ends**: each turn leaves less to be done, or an exception is thrown.  The induction
is on the bound for what is required. -/
theorem erode_spec [ToString N] {required : DestinationSet N} {destEm : OrdMap Nat Emitter}
    {fuel : Nat} (hfuel : required.size ≤ fuel) (rounds : Nat → Round)
    (hreq : Required active required) (hserves : Serves active destEm) :
    OrThrows (fun destEm' ↦ Serves active destEm' ∧
      ∀ a, (required.get? a).isSome ∨ (destEm.get? a).isSome → (destEm'.get? a).isSome)
        (erode active fuel rounds required destEm) := by
  induction fuel generalizing required destEm rounds with
  | zero =>
    have hnil : required.entries = [] := List.eq_nil_of_length_eq_zero (Nat.le_zero.mp hfuel)
    rw [erode, hnil, OrdMap.eq_empty hnil]
    exact ⟨hserves, fun a ha ↦ ha.resolve_left nofun⟩
  | succ fuel ih =>
    rw [erode]
    split
    · rename_i hnil
      rw [OrdMap.eq_empty (List.isEmpty_iff.mp hnil)]
      exact ⟨hserves, fun a ha ↦ ha.resolve_left nofun⟩
    · cases hinfo : (rounds 0).info with
      | error e =>
        rw [EmitterMaker.create, hinfo]
        exact Halt.throws _
      | ok info =>
        obtain ⟨mkr, hmkr, hchooses⟩ := EmitterMaker.create_spec hreq.ready hinfo
        rw [hmkr]
        dsimp only [bind, Except.bind]
        split
        · exact Halt.throws _
        · rename_i hne
          rw [List.isEmpty_iff] at hne
          cases hmake : mkr.make (rounds 0) required destEm with
          | error x => exact EmitterMaker.make_throws hmake
          | ok p =>
            obtain ⟨hlt, hreq', hserves', hkeeps⟩ := erode_turn hreq hserves hchooses hne hmake
            exact (ih (by omega) _ hreq' hserves').mono fun destEm' hend ↦
              ⟨hend.1, fun a ha ↦ hend.2 a (hkeeps a ha)⟩

/-! ## Outlets

With an emitter for each destination the third loop cannot go wrong.  Then `deliver` always finds
the option that it asks for. -/

/-- The outlets of a label. -/
def outletsOf (s : ClientState N) (label : Nat) : List (Destination N × Emitter) :=
  (s.outlets.contents label).entries.map (·.2)

/-- What is an outlet, from what has been gathered and the emitters. -/
def IsOutlet (nameDests : OrdMap N (Destination N)) (destEm : OrdMap Nat Emitter)
    (places : List (Nat × N)) (label a : Nat) (v : Destination N × Emitter) : Prop :=
  (∃ name, (label, name) ∈ places ∧ nameDests.get? name = some v.1) ∧ v.1.addr = a ∧
    destEm.get? a = some v.2

theorem filed_addOutlet (hu : Usable bank hash) (hg : Covers bank hash active names g)
    {destEm : OrdMap Nat Emitter} {places : List (Nat × N)}
    {outlets : OrdMap Nat (OrdMap Nat (Destination N × Emitter))}
    (h : outlets.Filed (IsOutlet g.nameDests destEm places)) (p : Nat × N) :
    (addOutlet g.nameDests destEm p.1 outlets p.2).Filed
      (IsOutlet g.nameDests destEm (places ++ [p])) := by
  have hsame : ∀ {name name' : N} {d d' : Destination N}, g.nameDests.get? name = some d →
      g.nameDests.get? name' = some d' → d.addr = d'.addr → d = d' := fun hd hd' ↦
    hu.apart _ _ _ _ ((hg.named ..).mp hd).2 ((hg.named ..).mp hd').2
  have hmem : ∀ {label : Nat} {name : N}, (label, name) ∈ places ++ [p] ↔
      (label, name) ∈ places ∨ label = p.1 ∧ name = p.2 := by
    intro label name
    rw [List.mem_append, List.mem_singleton, Prod.ext_iff]
  rw [addOutlet]
  cases hdest : g.nameDests.get? p.2 with
  | none =>
    refine h.congr fun label a v ↦ and_congr_left fun _ ↦ exists_congr fun name ↦ ?_
    rw [hmem]
    refine and_congr_left fun hname ↦ or_iff_left ?_
    rintro ⟨-, rfl⟩
    rw [hdest] at hname
    cases hname
  | some dest =>
    dsimp only
    cases hem : destEm.get? dest.addr with
    | none =>
      refine h.congr fun label a v ↦ ?_
      simp only [IsOutlet, hmem]
      refine and_congr_left fun hv ↦ exists_congr fun name ↦ and_congr_left fun hname ↦
        or_iff_left ?_
      rintro ⟨-, rfl⟩
      rw [hdest] at hname
      cases hname
      rw [hv.1, hv.2] at hem
      cases hem
    | some em =>
      refine (h.file fun v' hv' ↦ ?_).congr fun label a v ↦ ?_
      · obtain ⟨⟨name, -, hname⟩, haddr, hem'⟩ := hv'
        rw [hem] at hem'
        cases hem'
        exact Prod.ext (hsame hname hdest haddr) rfl
      · obtain ⟨d, em'⟩ := v
        simp only [IsOutlet, hmem, Prod.mk.injEq]
        constructor
        · rintro ⟨⟨name, hplace | ⟨rfl, rfl⟩, hname⟩, rfl, hem'⟩
          · exact .inl ⟨⟨name, hplace, hname⟩, rfl, hem'⟩
          · rw [hdest] at hname
            cases hname
            rw [hem] at hem'
            cases hem'
            exact .inr ⟨rfl, rfl, rfl, rfl⟩
        · rintro (⟨⟨name, hplace, hname⟩, haddr, hem'⟩ | ⟨rfl, rfl, rfl, rfl⟩)
          · exact ⟨⟨name, .inl hplace, hname⟩, haddr, hem'⟩
          · exact ⟨⟨p.2, .inr ⟨rfl, rfl⟩, hdest⟩, rfl, hem⟩

/-- The induction is on the names that are done. -/
theorem filed_fillOutlets (hu : Usable bank hash) (hg : Covers bank hash active names g)
    (destEm : OrdMap Nat Emitter) (chmap : ChannelMap N) :
    (fillOutlets g.nameDests destEm chmap).Filed (IsOutlet g.nameDests destEm
      (chmap.entries.flatMap fun ent ↦ ent.2.map (ent.1, ·))) := by
  have hpairs : fillOutlets g.nameDests destEm chmap =
      (chmap.entries.flatMap fun ent ↦ ent.2.map (ent.1, ·)).foldl
        (fun outlets p ↦ addOutlet g.nameDests destEm p.1 outlets p.2) .empty := by
    rw [List.foldl_flatMap]
    simp only [List.foldl_map]
    rfl
  rw [hpairs]
  induction chmap.entries.flatMap fun ent ↦ ent.2.map (ent.1, ·) using List.reverseRecOn with
  | nil => exact OrdMap.filed_empty.congr fun label a v ↦ by simp [IsOutlet]
  | append_singleton places p ih =>
    rw [List.foldl_append]
    exact filed_addOutlet hu hg ih p

/-- **The outlets are complete**: those of a label are the destinations that its names lead to, each
of them once, with emitters that they have options for. -/
structure Complete (bank : DestinationBank N) (hash : Nat) (chmap : ChannelMap N)
    (active : Activations) (s : ClientState N) : Prop where
  dests : ∀ label d, d ∈ (s.outletsOf label).map Prod.fst ↔
    ∃ names, chmap.get? label = some names ∧ ∃ name ∈ names, bank.seek name hash = .ok (some d)
  once : ∀ label, ((s.outletsOf label).map Prod.fst).Nodup
  suited : ∀ label, ∀ p ∈ s.outletsOf label, p.1.suits active p.2.family p.2.protocol

theorem complete_of_filed {chmap : ChannelMap N} {destEm : OrdMap Nat Emitter}
    (hu : Usable bank hash) (hg : Covers bank hash active (chmap.entries.flatMap (·.2)) g)
    (hserves : Serves g.active destEm)
    (hall : ∀ a, (g.required.get? a).isSome → (destEm.get? a).isSome) :
    Complete bank hash chmap g.active ⟨fillOutlets g.nameDests destEm chmap⟩ := by
  have hfiled := filed_fillOutlets hu hg destEm chmap
  have hplace : ∀ {label : Nat} {name : N},
      (label, name) ∈ chmap.entries.flatMap (fun ent ↦ ent.2.map (ent.1, ·)) ↔
        ∃ names, chmap.get? label = some names ∧ name ∈ names := by
    intro label name
    simp only [List.mem_flatMap, List.mem_map, Prod.exists, OrdMap.mem_entries, Prod.mk.injEq]
    exact ⟨fun ⟨_, names, hget, _, hname, hl, hn⟩ ↦ ⟨names, hl ▸ hget, hn ▸ hname⟩,
      fun ⟨names, hget, hname⟩ ↦ ⟨label, names, hget, name, hname, rfl, rfl⟩⟩
  refine ⟨fun label d ↦ ?_, fun label ↦ ?_, fun label p hp ↦ ?_⟩
  · rw [List.mem_map]
    constructor
    · rintro ⟨v, hv, rfl⟩
      obtain ⟨a, ⟨name, hmem, hname⟩, -, -⟩ := hfiled.mem_values.mp hv
      obtain ⟨names, hget, hname'⟩ := hplace.mp hmem
      exact ⟨names, hget, name, hname', ((hg.named name v.1).mp hname).2⟩
    · rintro ⟨names, hget, name, hname, hseek⟩
      have hconfigured : name ∈ chmap.entries.flatMap (·.2) :=
        List.mem_flatMap.mpr ⟨_, OrdMap.mem_entries.mpr hget, hname⟩
      have hrequired := (hg.required d.addr d).mpr ⟨⟨name, hconfigured, hseek⟩, rfl⟩
      obtain ⟨em, hem⟩ : ∃ em, destEm.get? d.addr = some em :=
        Option.isSome_iff_exists.mp (hall d.addr (by rw [hrequired]; rfl))
      refine ⟨(d, em), hfiled.mem_values.mpr ⟨d.addr, ⟨name, ?_, ?_⟩, rfl, hem⟩, rfl⟩
      · exact hplace.mpr ⟨names, hget, hname⟩
      · exact (hg.named name d).mpr ⟨hconfigured, hseek⟩
  · have hsorted := hfiled.sorted_values label (fun v ↦ v.1.addr) fun a v hv ↦ hv.2.1
    exact List.pairwise_map.mpr (hsorted.imp fun hlt heq ↦ hlt.ne (congrArg Destination.addr heq))
  · obtain ⟨a, -, haddr, hem⟩ := hfiled.mem_values.mp hp
    obtain ⟨options, hactive, hoption⟩ := hserves a p.2 hem
    rw [Destination.suits, haddr, hactive]
    exact hoption

omit [LinearOrder N] in
/-- **An emitter that suits a destination does not come to a branch without a match.** -/
theorem send_of_suits [ToString N] {d : Destination N} {em : Emitter}
    (h : d.suits active em.family em.protocol) (hactive : Extends active active') :
    ∃ addr, em.send active' d = .ok addr := by
  rw [Destination.suits] at h
  cases hget : active.get? d.addr with
  | none =>
    rw [hget] at h
    cases h
  | some options =>
    rw [hget] at h
    obtain ⟨addr, haddr⟩ := Option.isSome_iff_exists.mp h
    have hoption : options.get? (toLex (em.family, em.protocol)) = some addr := haddr
    refine ⟨addr, ?_⟩
    rw [Emitter.send, Destination.send, Destination.peer, hactive _ _ hget]
    dsimp only
    rw [hoption]
    rfl

/-- Nothing goes wrong with what is delivered, as long as nothing is deactivated. -/
theorem Complete.deliver [ToString N] {chmap : ChannelMap N} {s : ClientState N}
    (h : Complete bank hash chmap active s) (hactive : Extends active active') (label : Nat) :
    ∃ sent, s.deliver active' label = .ok sent := by
  have key : ∀ l : List (Nat × Destination N × Emitter),
      (∀ ent ∈ l, ent.2.1.suits active ent.2.2.family ent.2.2.protocol) → ∃ sent,
        l.mapM (fun ent ↦ (ent.2.2.send active' ent.2.1).map fun addr ↦ (ent.2.2.sock, addr)) =
          .ok sent := by
    intro l
    induction l with
    | nil => exact fun _ ↦ ⟨[], rfl⟩
    | cons ent l ih =>
      intro hl
      rw [List.forall_mem_cons] at hl
      obtain ⟨addr, haddr⟩ := send_of_suits hl.1 hactive
      obtain ⟨sent, hsent⟩ := ih hl.2
      rw [List.mapM_cons, haddr, hsent]
      exact ⟨_, rfl⟩
  rw [ClientState.deliver]
  cases hget : s.outlets.get? label with
  | none => exact ⟨[], rfl⟩
  | some outlets =>
    refine key outlets.entries fun ent hent ↦ h.suited label ent.2 ?_
    rw [outletsOf, OrdMap.contents, hget]
    exact List.mem_map_of_mem hent

/-- **The constructor throws, or the outlets are complete**, for each bank that has been loaded,
whatever the look-ups and the sockets come to. -/
theorem outlets_complete [ToString N] {cfg : BankConfig N} {heap : Nat → Nat}
    (hposs : cfg.Possible heap) (hbank : DestinationBank.load heap cfg .init = .ok bank)
    (hash : Nat) (lookups : Lookups N) (chmap : ChannelMap N) (active : Activations) :
    (∀ name, ∃ found, bank.seek name hash = .ok found) ∧
      (∀ active r (required : DestinationSet N) mkr,
        EmitterMaker.create active r required = .ok mkr →
          ∃ info, r.info = .ok info ∧ EmitterMaker.Chooses active r required info mkr) ∧
      OrThrows (fun result ↦ Complete bank hash chmap result.2 result.1 ∧
        Extends active result.2 ∧ ∀ active', Extends result.2 active' → ∀ label, ∃ sent,
          result.1.deliver active' label = .ok sent) (create bank hash lookups chmap active) := by
  have hu := usable_of_load hposs hbank hash
  refine ⟨hu.total, fun active r required mkr hmkr ↦ EmitterMaker.create_ok hmkr, ?_⟩
  rw [create]
  refine (gather_spec hu lookups.resolve chmap active).bind fun g hg ↦ ?_
  have hreq : Required g.active g.required := by
    intro a d hd
    obtain ⟨⟨name, hname, hseek⟩, rfl⟩ := (hg.required a d).mp hd
    exact ⟨rfl, hg.activated name hname d hseek⟩
  have hserves : Serves g.active .empty := nofun
  refine (erode_spec le_rfl lookups.rounds hreq hserves).bind fun destEm hem ↦ ?_
  have hcomplete := complete_of_filed hu hg hem.1 fun a ha ↦ hem.2 a (.inl ha)
  exact ⟨hcomplete, hg.extends_, fun active' hactive' label ↦ hcomplete.deliver hactive' label⟩

/-- Two destinations, one of them in a group too. -/
def twoNames : BankConfig Nat where
  singletons := [(1, { port := "10000" }), (2, { port := "10001" })]
  groups := [(3, [2])]

/-- Both are found by IPv4, and the first one by IPv6 too; an IPv6 socket cannot be bound. -/
def ipv4Only : Lookups Nat where
  resolve d := .ok (⟨2, 17, .inet d.addr 0⟩ :: if d.name = 1 then [⟨10, 17, ⟨[10]⟩⟩] else [])
  rounds _ :=
    { info := .ok [⟨10, 17, ⟨[10]⟩⟩, ⟨2, 17, .inet 0 0⟩]
      socket := fun index ↦ some (index + 5)
      bind := fun index ↦ index = 1
      rank := id
      getsockname := none }

/-- All the names are configured for the second label. -/
def twoLabels : ChannelMap Nat := (OrdMap.empty.insert 0 [1]).insert 1 [1, 2, 3]

/-- The outlets of the second label, and the sockets that they are sent to from. -/
def twoOutlets : Except Halt (List (Nat × Nat)) := do
  let bank ← DestinationBank.load id twoNames .init
  let r ← create bank 4 ipv4Only twoLabels .empty
  .ok ((r.1.outletsOf 1).map fun p ↦ (p.1.name, p.2.sock))

theorem outlets_complete_two : twoOutlets = .ok [(1, 6), (2, 6)] ∧
    ∃ bank, DestinationBank.load id twoNames .init = .ok bank ∧
      ∃ r, create bank 4 ipv4Only twoLabels .empty = .ok r ∧
        Complete bank 4 twoLabels r.2 r.1 ∧ ∃ sent, r.1.deliver r.2 1 = .ok sent := by
  have hposs : twoNames.Possible id := fun i j hlt _ heq ↦ absurd heq hlt.ne
  have htwo : twoOutlets = .ok [(1, 6), (2, 6)] := by decide +kernel
  refine ⟨htwo, ?_⟩
  cases hbank : DestinationBank.load id twoNames .init with
  | error x => simp [twoOutlets, hbank, bind, Except.bind] at htwo
  | ok bank =>
    cases hcreate : create bank 4 ipv4Only twoLabels .empty with
    | error x => simp [twoOutlets, hbank, hcreate, bind, Except.bind] at htwo
    | ok r =>
      have hspec := (outlets_complete hposs hbank 4 ipv4Only twoLabels .empty).2.2
      rw [hcreate] at hspec
      exact ⟨bank, rfl, r, hcreate, hspec.1, hspec.2.2 r.2 (fun _ _ ↦ id) 1⟩

end ClientState
end TcpEgress
end UdpTun
