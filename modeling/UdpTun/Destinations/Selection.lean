import UdpTun.Destinations
import Mathlib.Data.List.Sort
import Mathlib.Data.String.Basic
import Mathlib.Logic.Equiv.Basic

/-!
# Which destination of a group is selected

The hash of a peer is an index into the list of a group, and `load` makes this list from a set of
pointers.  So it is in the order of the heap.  `load_spec` says what the list of a name is, and
`stable_iff` when the selection does not depend on the heap.

`BankConfig.Possible` is what a heap can be like: an address is used again only when the object that
was there is gone.
-/

set_option autoImplicit false

namespace UdpTun

variable {N : Type} [LinearOrder N]

/-! ## Configurations

The configuration is a list, in which a name may come more than once, as it is read.  The last one
of them counts, but the objects of the others were there for a time, and had addresses. -/

/-- The last of the singletons with a name, which is the one that counts: its number and its
settings.  The first one has the number `k`. -/
def lastEntry (c : N) : Nat → List (N × DestinationConfig) → Option (Nat × DestinationConfig)
  | _, [] => none
  | k, (key, cfg) :: l => (lastEntry c (k + 1) l).or (if key = c then some (k, cfg) else none)

theorem lastEntry_isSome {c : N} {k : Nat} {l : List (N × DestinationConfig)} :
    (lastEntry c k l).isSome ↔ c ∈ l.map Prod.fst := by
  induction l generalizing k with
  | nil => simp [lastEntry]
  | cons p l ih =>
    rw [lastEntry, Option.isSome_or, Bool.or_eq_true, ih, List.map_cons, List.mem_cons, or_comm]
    by_cases h : p.1 = c
    · simp [h]
    · simp [h, Ne.symm h]

theorem lastEntry_eq_some {c : N} {k i : Nat} {s : DestinationConfig}
    {l : List (N × DestinationConfig)} (h : lastEntry c k l = some (i, s)) :
    ∃ n, i = k + n ∧ l[n]? = some (c, s) ∧ ∀ m, n < m → l[m]?.map Prod.fst ≠ some c := by
  induction l generalizing k with
  | nil => cases h
  | cons p l ih =>
    rw [lastEntry, Option.or_eq_some_iff] at h
    rcases h with h | ⟨hnone, h⟩
    · obtain ⟨n, rfl, hn, hlast⟩ := ih h
      refine ⟨n + 1, by omega, hn, fun m hm ↦ ?_⟩
      obtain ⟨m, rfl⟩ : ∃ m', m = m' + 1 := ⟨m - 1, by omega⟩
      exact hlast m (by omega)
    · split at h
      · rename_i heq
        cases h
        refine ⟨0, rfl, ?_, fun m hm hmem ↦ ?_⟩
        · rw [List.getElem?_cons_zero, ← heq]
        · obtain ⟨m, rfl⟩ : ∃ m', m = m' + 1 := ⟨m - 1, by omega⟩
          rw [List.getElem?_cons_succ, Option.map_eq_some_iff] at hmem
          obtain ⟨q, hq, rfl⟩ := hmem
          have hsome : (lastEntry q.1 (i + 1) l).isSome :=
            lastEntry_isSome.mpr (List.mem_map_of_mem (List.mem_of_getElem? hq))
          rw [hnone] at hsome
          cases hsome
      · cases h

namespace BankConfig

variable (cfg : BankConfig N)

/-- The object that a name stands for. -/
def object (heap : Nat → Nat) (c : N) : Option (Destination N) :=
  (lastEntry c 0 cfg.singletons).map fun p ↦
    { addr := heap p.1, name := c, ipv4 := p.2.ipv4, ipv6 := p.2.ipv6, host := p.2.host,
      srv := p.2.port.getD "" }

/-- `c` is the name of a destination that is found under `name`. -/
def Member (name c : N) : Prop :=
  c ∈ cfg.singletons.map Prod.fst ∧
    (c = name ∨ ∃ group ∈ cfg.groups, group.1 = name ∧ c ∈ group.2)

/-- Ports are given, and groups are made of singletons. -/
structure Loadable : Prop where
  ports : ∀ p ∈ cfg.singletons, p.2.port.isSome
  known : ∀ group ∈ cfg.groups, ∀ c ∈ group.2, c ∈ cfg.singletons.map Prod.fst

/-- If two objects have the same address, then the first one is gone when the second one is made:
its name has been used again meanwhile. -/
def Possible (heap : Nat → Nat) : Prop :=
  ∀ i j, i < j → j < cfg.singletons.length → heap i = heap j →
    ∃ k, i < k ∧ k < j ∧ cfg.singletons[k]?.map Prod.fst = cfg.singletons[i]?.map Prod.fst

variable {cfg} {heap : Nat → Nat} {c c' : N} {d d' : Destination N}

theorem object_name (h : cfg.object heap c = some d) : d.name = c := by
  obtain ⟨p, -, rfl⟩ := Option.map_eq_some_iff.mp h
  rfl

/-- The heap is all that makes a difference to an object. -/
theorem object_heap : cfg.object heap c =
    (cfg.object id c).map fun d ↦ { d with addr := heap d.addr } := by
  rw [object, object, Option.map_map]
  rfl

theorem object_isSome : (cfg.object heap c).isSome ↔ c ∈ cfg.singletons.map Prod.fst := by
  rw [object, Option.isSome_map, lastEntry_isSome]

theorem mem_of_object (h : cfg.object heap c = some d) : c ∈ cfg.singletons.map Prod.fst := by
  exact object_isSome.mp (Option.isSome_iff_exists.mpr ⟨d, h⟩)

/-- **Objects that are there at the end have addresses of their own.** -/
theorem Possible.object_inj (h : cfg.Possible heap) (hd : cfg.object heap c = some d)
    (hd' : cfg.object heap c' = some d') (haddr : d.addr = d'.addr) : d = d' := by
  have key : ∀ {c c' : N} {i i' : Nat} {s s' : DestinationConfig},
      lastEntry c 0 cfg.singletons = some (i, s) → lastEntry c' 0 cfg.singletons = some (i', s') →
        heap i = heap i' → ¬ i < i' := by
    intro c c' i i' s s' hc hc' haddr hlt
    obtain ⟨n, rfl, hn, hlast⟩ := lastEntry_eq_some hc
    obtain ⟨n', rfl, hn', -⟩ := lastEntry_eq_some hc'
    have hlength : n' < cfg.singletons.length := (List.getElem?_eq_some_iff.mp hn').1
    obtain ⟨k, hk, -, hsame⟩ := h _ _ hlt (by omega) haddr
    rw [Nat.zero_add] at hk
    rw [Nat.zero_add, hn] at hsame
    exact hlast k hk hsame
  obtain ⟨⟨i, s⟩, hi, rfl⟩ := Option.map_eq_some_iff.mp hd
  obtain ⟨⟨i', s'⟩, hi', rfl⟩ := Option.map_eq_some_iff.mp hd'
  have heq : i = i' := by
    have hle := key hi hi' haddr
    have hge := key hi' hi haddr.symm
    omega
  subst heq
  obtain ⟨n, rfl, hn, -⟩ := lastEntry_eq_some hi
  obtain ⟨n', hsame, hn', -⟩ := lastEntry_eq_some hi'
  obtain rfl : n = n' := by omega
  rw [hn] at hn'
  cases hn'
  rfl

end BankConfig
namespace DestinationBank

variable {cfg : BankConfig N} {heap : Nat → Nat} {bank : DestinationBank N}
  {singtab : OrdMap N (Destination N)} {t t' : OrdMap N (DestinationSet N)} {name : N}

/-! ## The table of singletons

The first loop replaces an object that is there under the name already.  What is left in the end are
the last ones. -/

theorem loadSingletons_ok {k : Nat} {l : List (N × DestinationConfig)}
    {t t' : OrdMap N (Destination N)} (h : loadSingletons heap k l t = .ok t') (c : N) :
    t'.get? c = ((lastEntry c k l).map fun p ↦
      { addr := heap p.1, name := c, ipv4 := p.2.ipv4, ipv6 := p.2.ipv6, host := p.2.host,
        srv := p.2.port.getD "" }).or (t.get? c) := by
  induction l generalizing k t with
  | nil =>
    cases h
    rfl
  | cons p l ih =>
    obtain ⟨key, s⟩ := p
    rw [loadSingletons] at h
    split at h
    · cases h
    · rename_i d hd
      rw [ih h, lastEntry, Option.map_or, Option.or_assoc, OrdMap.get?_insert]
      congr 1
      rw [Destination.create] at hd
      split at hd
      · cases hd
      · rename_i srv hsrv
        cases hd
        by_cases hc : c = key
        · subst hc
          rw [if_pos rfl, if_pos rfl, Option.map_some, Option.some_or, hsrv]
          rfl
        · rw [if_neg hc, if_neg (Ne.symm hc), Option.map_none, Option.none_or]

theorem loadSingletons_ports {k : Nat} {l : List (N × DestinationConfig)}
    {t : OrdMap N (Destination N)} :
    (∃ t', loadSingletons heap k l t = .ok t') ↔ ∀ p ∈ l, p.2.port.isSome := by
  induction l generalizing k t with
  | nil => exact ⟨fun _ ↦ nofun, fun _ ↦ ⟨t, rfl⟩⟩
  | cons p l ih =>
    obtain ⟨key, s⟩ := p
    rw [loadSingletons, List.forall_mem_cons, Destination.create]
    cases s.port with
    | none => simp
    | some srv => simpa using ih

/-! ## The sets

In the second loop there is a set for each name, to which the groups add.  Names of singletons and
names of groups are not kept apart. -/

/-- Sets of objects, under the names that they are given with. -/
def sets (l : List (N × Destination N)) : OrdMap N (DestinationSet N) :=
  l.foldl (fun t p ↦ addTo t p.1 p.2) .empty

/-- What a group adds. -/
def added (singtab : OrdMap N (Destination N)) (group : N × List N) : List (N × Destination N) :=
  group.2.filterMap fun c ↦ (singtab.get? c).map (group.1, ·)

theorem loadMembers_ok [ToString N] {key : N} {names : List N} :
    names.foldlM (loadMember singtab key) t = .ok t' ↔
      (∀ c ∈ names, (singtab.get? c).isSome) ∧
        t' = (added singtab (key, names)).foldl (fun t p ↦ addTo t p.1 p.2) t := by
  induction names generalizing t with
  | nil => exact ⟨fun h ↦ ⟨nofun, (Except.ok.inj h).symm⟩, fun h ↦ congrArg _ h.2.symm⟩
  | cons c names ih =>
    rw [List.foldlM_cons, loadMember, List.forall_mem_cons, added, List.filterMap_cons]
    cases singtab.get? c with
    | none => exact ⟨nofun, fun h ↦ nomatch h.1.1⟩
    | some d => exact ih.trans (and_congr_left fun _ ↦ ⟨fun h ↦ ⟨rfl, h⟩, And.right⟩)

theorem loadGroups_ok [ToString N] {groups : List (N × List N)} :
    groups.foldlM (fun t group ↦ group.2.foldlM (loadMember singtab group.1) t) t = .ok t' ↔
      (∀ group ∈ groups, ∀ c ∈ group.2, (singtab.get? c).isSome) ∧
        t' = (groups.flatMap (added singtab)).foldl (fun t p ↦ addTo t p.1 p.2) t := by
  induction groups generalizing t with
  | nil => exact ⟨fun h ↦ ⟨nofun, (Except.ok.inj h).symm⟩, fun h ↦ congrArg _ h.2.symm⟩
  | cons group groups ih =>
    rw [List.foldlM_cons, List.forall_mem_cons, List.flatMap_cons, List.foldl_append]
    cases hgroup : group.2.foldlM (loadMember singtab group.1) t with
    | error x =>
      have hnot : ¬ ∀ c ∈ group.2, (singtab.get? c).isSome := fun hknown ↦ by
        rw [loadMembers_ok.mpr ⟨hknown, rfl⟩] at hgroup
        cases hgroup
      simp [bind, Except.bind, hnot]
    | ok t₁ =>
      obtain ⟨hknown, rfl⟩ := loadMembers_ok.mp hgroup
      exact ih.trans (and_congr_left fun _ ↦ ⟨fun h ↦ ⟨hknown, h⟩, And.right⟩)

/-! ## The whole table

The sets become lists, in the order of the addresses.  There is a list under a name exactly if it
has members. -/

theorem load_ok [ToString N] (h : load heap cfg init = .ok bank) : ∃ singtab,
    loadSingletons heap 0 cfg.singletons .empty = .ok singtab ∧
      (∀ group ∈ cfg.groups, ∀ c ∈ group.2, (singtab.get? c).isSome) ∧
        ∀ name, bank.tab.get? name =
          ((sets (singtab.entries ++ cfg.groups.flatMap (added singtab))).get? name).map
            fun s ↦ s.entries.map (·.2) := by
  rw [load] at h
  dsimp only [bind, Except.bind] at h
  split at h
  · cases h
  rename_i singtab hsing
  split at h
  · cases h
  rename_i t ht
  cases h
  obtain ⟨hknown, rfl⟩ := loadGroups_ok.mp ht
  refine ⟨singtab, hsing, hknown, fun name ↦ ?_⟩
  dsimp only
  rw [OrdMap.get?_foldl_tryEmplace _ fun s : DestinationSet N ↦ s.entries.map (·.2), sets,
    List.foldl_append]
  exact Option.none_or

theorem load_total [ToString N] (h : cfg.Loadable) (heap : Nat → Nat) :
    ∃ bank, load heap cfg init = .ok bank := by
  obtain ⟨singtab, hsing⟩ : ∃ singtab, loadSingletons heap 0 cfg.singletons .empty = .ok singtab :=
    loadSingletons_ports.mpr h.ports
  have hknown : ∀ group ∈ cfg.groups, ∀ c ∈ group.2, (singtab.get? c).isSome := by
    intro group hgroup c hc
    rw [loadSingletons_ok hsing, OrdMap.get?_empty, Option.or_none, Option.isSome_map,
      lastEntry_isSome]
    exact h.known group hgroup c hc
  rw [load, hsing]
  dsimp only [bind, Except.bind]
  rw [loadGroups_ok.mpr ⟨hknown, rfl⟩]
  exact ⟨_, rfl⟩

/-- The objects that are filed, with the names that they are filed under. -/
theorem mem_rows (hget : ∀ c, singtab.get? c = cfg.object heap c) {key : N} {d : Destination N} :
    (key, d) ∈ singtab.entries ++ cfg.groups.flatMap (added singtab) ↔
      ∃ c, cfg.Member key c ∧ cfg.object heap c = some d := by
  simp only [List.mem_append, OrdMap.mem_entries, List.mem_flatMap, added, List.mem_filterMap,
    Option.map_eq_some_iff, Prod.mk.injEq, hget]
  constructor
  · rintro (hd | ⟨group, hgroup, c, hc, d', hd, hkey, rfl⟩)
    · exact ⟨key, ⟨BankConfig.mem_of_object hd, .inl rfl⟩, hd⟩
    · exact ⟨c, ⟨BankConfig.mem_of_object hd, .inr ⟨group, hgroup, hkey, hc⟩⟩, hd⟩
  · rintro ⟨c, ⟨-, rfl | ⟨group, hgroup, hkey, hc⟩⟩, hd⟩
    · exact .inl hd
    · exact .inr ⟨group, hgroup, c, hc, d, hd, hkey, rfl⟩

/-- The members of each name are in its set, under their addresses. -/
theorem filed_sets (hposs : cfg.Possible heap)
    (hget : ∀ c, singtab.get? c = cfg.object heap c) :
    (sets (singtab.entries ++ cfg.groups.flatMap (added singtab))).Filed fun key a d ↦
      (∃ c, cfg.Member key c ∧ cfg.object heap c = some d) ∧ d.addr = a := by
  -- an address says which object it is, whatever the name
  have hsame : ∀ (_ : N) (a : Nat) (d d' : Destination N),
      (∃ c, cfg.object heap c = some d) ∧ d.addr = a →
        (∃ c, cfg.object heap c = some d') ∧ d'.addr = a → d = d' := by
    rintro - - d d' ⟨⟨c, hc⟩, rfl⟩ ⟨⟨c', hc'⟩, haddr⟩
    exact hposs.object_inj hc hc' haddr.symm
  have hobjects : ∀ p ∈ singtab.entries ++ cfg.groups.flatMap (added singtab),
      (∃ c, cfg.object heap c = some p.2) ∧ p.2.addr = p.2.addr := by
    intro p hp
    obtain ⟨c, -, hc⟩ := (mem_rows hget).mp hp
    exact ⟨⟨c, hc⟩, rfl⟩
  have hall := OrdMap.filed_empty.fileAll hsame (fun _ _ _ ↦ False.elim) Prod.fst
    (fun p : N × Destination N ↦ p.2.addr) Prod.snd hobjects
  refine OrdMap.Filed.congr hall fun key a d ↦ ?_
  rw [← mem_rows hget]
  simp

/-- **What `load` makes of a configuration**: under a name there are the objects of its members, in
the order of their addresses, and there is no list without any. -/
theorem load_spec [ToString N] (hposs : cfg.Possible heap) (h : load heap cfg init = .ok bank)
    (name : N) : ∃ l : List (Destination N), l.Pairwise (fun d d' ↦ d.addr < d'.addr) ∧
      (∀ d, d ∈ l ↔ ∃ c, cfg.Member name c ∧ cfg.object heap c = some d) ∧
        bank.tab.get? name = if l = [] then none else some l := by
  obtain ⟨singtab, hsing, hknown, htab⟩ := load_ok h
  have hget : ∀ c, singtab.get? c = cfg.object heap c := fun c ↦ by
    rw [loadSingletons_ok hsing, OrdMap.get?_empty, Option.or_none]
    rfl
  have hfiled := filed_sets hposs hget
  refine ⟨_, hfiled.sorted_values name Destination.addr fun a d hd ↦ hd.2, fun d ↦ ?_, ?_⟩
  · rw [hfiled.mem_values]
    exact ⟨fun ⟨a, hd, _⟩ ↦ hd, fun hd ↦ ⟨d.addr, hd, rfl⟩⟩
  · rw [htab, hfiled.get?_eq]
    simp only [List.map_eq_nil_iff]
    split <;> rfl

theorem loadable_of_load [ToString N] (h : load heap cfg init = .ok bank) : cfg.Loadable := by
  obtain ⟨singtab, hsing, hknown, -⟩ := load_ok h
  refine ⟨loadSingletons_ports.mp ⟨singtab, hsing⟩, fun group hgroup c hc ↦ ?_⟩
  have hc := hknown group hgroup c hc
  rw [loadSingletons_ok hsing, OrdMap.get?_empty, Option.or_none, Option.isSome_map,
    lastEntry_isSome] at hc
  exact hc

/-! ## The selection

If there are two members, the heap decides which of them comes first.  The heap that leads elsewhere
is the given one, with two places exchanged; it is as possible as the other. -/

/-- **The selection does not depend on the heap**: any two heaps lead to destinations of one name,
or both to none. -/
def Stable [ToString N] (cfg : BankConfig N) (name : N) (hash : Nat) : Prop :=
  ∀ heap₁ heap₂, cfg.Possible heap₁ → cfg.Possible heap₂ → ∀ bank₁ bank₂,
    load heap₁ cfg init = .ok bank₁ → load heap₂ cfg init = .ok bank₂ →
      (bank₁.seek name hash).map (Option.map Destination.name) =
        (bank₂.seek name hash).map (Option.map Destination.name)

/-- What is selected is the destination at a place in the order of the addresses. -/
theorem seek_spec [ToString N] (hposs : cfg.Possible heap) (h : load heap cfg init = .ok bank)
    (name : N) (hash : Nat) : ∃ l : List (Destination N), l.Pairwise (fun d d' ↦ d.addr < d'.addr) ∧
      (∀ d, d ∈ l ↔ ∃ c, cfg.Member name c ∧ cfg.object heap c = some d) ∧
        bank.seek name hash = .ok l[hash % l.length]? := by
  obtain ⟨l, hsorted, hmem, hget⟩ := load_spec hposs h name
  refine ⟨l, hsorted, hmem, ?_⟩
  by_cases hnil : l = []
  · rw [if_pos hnil] at hget
    rw [seek, hget, hnil]
    rfl
  · rw [if_neg hnil] at hget
    rw [seek, hget]
    exact if_neg fun hlength ↦ hnil (List.eq_nil_of_length_eq_zero hlength)

/-- One member at most, and there is nothing to choose. -/
theorem stable_of_unique [ToString N] (name : N) (hash : Nat)
    (hunique : ∀ c c', cfg.Member name c → cfg.Member name c' → c = c') : Stable cfg name hash := by
  intro heap₁ heap₂ h₁ h₂ bank₁ bank₂ hbank₁ hbank₂
  -- a list of a single destination, or an empty one
  have key : ∀ {heap : Nat → Nat} {bank : DestinationBank N}, cfg.Possible heap →
      load heap cfg init = .ok bank → ∃ found : Option (Destination N),
        bank.seek name hash = .ok found ∧
          ∀ c, found.map Destination.name = some c ↔ cfg.Member name c := by
    intro heap bank hposs hbank
    obtain ⟨l, hsorted, hmem, hseek⟩ := seek_spec hposs hbank name hash
    refine ⟨_, hseek, fun c ↦ ⟨fun hc ↦ ?_, fun hc ↦ ?_⟩⟩
    · obtain ⟨d, hd, rfl⟩ := Option.map_eq_some_iff.mp hc
      obtain ⟨c, hc, hobject⟩ := (hmem d).mp (List.mem_of_getElem? hd)
      rwa [BankConfig.object_name hobject]
    · obtain ⟨d, hd⟩ : ∃ d, cfg.object heap c = some d :=
        Option.isSome_iff_exists.mp (BankConfig.object_isSome.mpr hc.1)
      have hpos : 0 < l.length := List.length_pos_of_mem ((hmem d).mpr ⟨c, hc, hd⟩)
      have hlt := Nat.mod_lt hash hpos
      obtain ⟨c', hc', hobject⟩ := (hmem l[hash % l.length]).mp (List.getElem_mem hlt)
      rw [List.getElem?_eq_getElem hlt, Option.map_some, BankConfig.object_name hobject,
        hunique c' c hc' hc]
  obtain ⟨found₁, hseek₁, hname₁⟩ := key h₁ hbank₁
  obtain ⟨found₂, hseek₂, hname₂⟩ := key h₂ hbank₂
  rw [hseek₁, hseek₂]
  refine congrArg Except.ok (Option.ext fun c ↦ ?_)
  rw [hname₁, hname₂]

/-- Where the members of a name are. -/
def Places (cfg : BankConfig N) (heap : Nat → Nat) (name : N) (x : Nat) : Prop :=
  ∃ c d, cfg.Member name c ∧ cfg.object heap c = some d ∧ d.addr = x

theorem mem_addrs {l : List (Destination N)}
    (hmem : ∀ d, d ∈ l ↔ ∃ c, cfg.Member name c ∧ cfg.object heap c = some d) {x : Nat} :
    x ∈ l.map Destination.addr ↔ Places cfg heap name x := by
  simp only [List.mem_map, hmem, Places]
  constructor
  · rintro ⟨d, ⟨c, hc, hd⟩, hx⟩
    exact ⟨c, d, hc, hd, hx⟩
  · rintro ⟨c, d, hc, hd, hx⟩
    exact ⟨d, ⟨c, hc, hd⟩, hx⟩

/-- When the objects of two members change places, the members are where they were. -/
theorem places_swap {a b : N} {da db : Destination N} (ha : cfg.Member name a)
    (hb : cfg.Member name b) (hda : cfg.object id a = some da) (hdb : cfg.object id b = some db)
    (x : Nat) : Places cfg (Equiv.swap da.addr db.addr) name x ↔ Places cfg id name x := by
  have hswap : ∀ {c : N} {d : Destination N}, cfg.Member name c → cfg.object id c = some d →
      Places cfg id name (Equiv.swap da.addr db.addr d.addr) := by
    intro c d hc hd
    rw [Equiv.swap_apply_def]
    split
    · exact ⟨b, db, hb, hdb, rfl⟩
    · split
      · exact ⟨a, da, ha, hda, rfl⟩
      · exact ⟨c, d, hc, hd, rfl⟩
  constructor
  · rintro ⟨c, d, hc, hd, rfl⟩
    rw [BankConfig.object_heap] at hd
    obtain ⟨d', hd', rfl⟩ := Option.map_eq_some_iff.mp hd
    exact hswap hc hd'
  · rintro ⟨c, d, hc, hd, rfl⟩
    obtain ⟨c', d', hc', hd', haddr⟩ := hswap hc hd
    refine ⟨c', { d' with addr := Equiv.swap da.addr db.addr d'.addr }, hc', ?_, ?_⟩
    · rw [BankConfig.object_heap, hd']
      rfl
    · dsimp only
      rw [haddr, Equiv.swap_apply_self]

/-- **With two members there is a heap that leads elsewhere**: the one in which the object that is
selected and another one have changed places. -/
theorem unstable_of_two [ToString N] (hload : cfg.Loadable) {c c' : N} (hc : cfg.Member name c)
    (hc' : cfg.Member name c') (hne : c ≠ c') (hash : Nat) : ¬ Stable cfg name hash := by
  intro hstable
  have hinj : ∀ {heap : Nat → Nat}, Function.Injective heap → cfg.Possible heap :=
    fun hheap i j hlt _ heq ↦ absurd (hheap heq) hlt.ne
  have hposs₁ := hinj Function.injective_id
  obtain ⟨bank₁, hbank₁⟩ := load_total hload id
  obtain ⟨l₁, hsorted₁, hmem₁, hseek₁⟩ := seek_spec hposs₁ hbank₁ name hash
  obtain ⟨d, hd⟩ : ∃ d, cfg.object id c = some d :=
    Option.isSome_iff_exists.mp (BankConfig.object_isSome.mpr hc.1)
  have hlt := Nat.mod_lt hash (List.length_pos_of_mem ((hmem₁ d).mpr ⟨c, hc, hd⟩))
  -- the one that is selected, and another one
  obtain ⟨a, ha, hda⟩ := (hmem₁ l₁[hash % l₁.length]).mp (List.getElem_mem hlt)
  obtain ⟨b, hb, hab⟩ : ∃ b, cfg.Member name b ∧ b ≠ a := by
    by_cases hca : c = a
    · exact ⟨c', hc', fun h ↦ hne (hca.trans h.symm)⟩
    · exact ⟨c, hc, hca⟩
  obtain ⟨db, hdb⟩ : ∃ d, cfg.object id b = some d :=
    Option.isSome_iff_exists.mp (BankConfig.object_isSome.mpr hb.1)
  generalize hheap : (Equiv.swap l₁[hash % l₁.length].addr db.addr : Nat → Nat) = heap₂
  have hposs₂ : cfg.Possible heap₂ := by
    rw [← hheap]
    exact hinj (Equiv.injective _)
  obtain ⟨bank₂, hbank₂⟩ := load_total hload heap₂
  obtain ⟨l₂, hsorted₂, hmem₂, hseek₂⟩ := seek_spec hposs₂ hbank₂ name hash
  -- the addresses are the same, so the place is that of the other one now
  have haddrs : l₂.map Destination.addr = l₁.map Destination.addr := by
    refine List.Pairwise.eq_of_mem_iff (List.pairwise_map.mpr hsorted₂)
      (List.pairwise_map.mpr hsorted₁) fun x ↦ ?_
    rw [mem_addrs hmem₁, mem_addrs hmem₂, ← hheap]
    exact places_swap ha hb hda hdb x
  have hlength : l₂.length = l₁.length := by
    simpa only [List.length_map] using congrArg List.length haddrs
  have hlt₂ : hash % l₁.length < l₂.length := hlt.trans_eq hlength.symm
  have haddr : l₂[hash % l₁.length].addr = l₁[hash % l₁.length].addr := by
    simpa [hlt, hlt₂] using congrArg (fun l ↦ l[hash % l₁.length]?) haddrs
  obtain ⟨e, -, hde⟩ := (hmem₂ l₂[hash % l₁.length]).mp (List.getElem_mem hlt₂)
  have hea : a = e := by
    have hsame := hstable id heap₂ hposs₁ hposs₂ bank₁ bank₂ hbank₁ hbank₂
    rw [hseek₁, hseek₂, hlength, List.getElem?_eq_getElem hlt, List.getElem?_eq_getElem hlt₂]
      at hsame
    have hname := Option.some_inj.mp (Except.ok.inj hsame)
    rwa [BankConfig.object_name hda, BankConfig.object_name hde] at hname
  rw [BankConfig.object_heap] at hde
  obtain ⟨d₂, hd₂, heq⟩ := Option.map_eq_some_iff.mp hde
  rw [← heq, ← hheap] at haddr
  have hback := congrArg (Equiv.swap l₁[hash % l₁.length].addr db.addr) haddr
  rw [Equiv.swap_apply_self, Equiv.swap_apply_left] at hback
  have hsame := hposs₁.object_inj hd₂ hdb hback
  refine hab ?_
  rw [← BankConfig.object_name hdb, ← hsame, BankConfig.object_name hd₂, hea]

/-- **The selection is stable exactly when there is no choice.** -/
theorem stable_iff [ToString N] (cfg : BankConfig N) (name : N) (hash : Nat) :
    Stable cfg name hash ↔
      (cfg.Loadable → ∀ c c', cfg.Member name c → cfg.Member name c' → c = c') := by
  constructor
  · intro hstable hload c c' hc hc'
    by_contra hne
    exact unstable_of_two hload hc hc' hne hash hstable
  · intro hunique heap₁ heap₂ h₁ h₂ bank₁ bank₂ hbank₁ hbank₂
    exact stable_of_unique name hash (hunique (loadable_of_load hbank₁)) heap₁ heap₂ h₁ h₂ bank₁
      bank₂ hbank₁ hbank₂

/-- The group that the documentation has for an example. -/
def shovelers : BankConfig String where
  singletons := [("shoveler-1", { port := "10002", ipv6 := false }),
    ("shoveler-2", { port := "10003", ipv6 := false }),
    ("shoveler-3", { port := "10004", ipv6 := false })]
  groups := [("shoveler", ["shoveler-1", "shoveler-2", "shoveler-3"])]

/-- Which of them a peer is sent to depends on where they are on the heap. -/
theorem shoveler_is_not_stable : ¬ Stable shovelers "shoveler" 4 := by
  have hload : shovelers.Loadable := by
    constructor <;> simp [shovelers]
  have hmember : ∀ c ∈ shovelers.singletons.map Prod.fst, shovelers.Member "shoveler" c :=
    fun c hc ↦ ⟨hc, .inr ⟨_, List.mem_cons_self .., rfl, hc⟩⟩
  exact unstable_of_two hload (hmember "shoveler-1" (by simp [shovelers]))
    (hmember "shoveler-2" (by simp [shovelers])) (by decide) 4

end DestinationBank
end UdpTun
