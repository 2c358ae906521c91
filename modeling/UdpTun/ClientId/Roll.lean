import UdpTun.ClientId.WireIds

/-!
# Who has had which id

The far end knows the sender of a datagram by the low sixteen bits of its id.  `Roll` is the client
table with a record of the datagrams that have come in, each under the id that its sender was found
under, and of the entries that have been dropped.

The counter of a table only goes up until it comes round, which nothing but the number of unknown
senders brings it to (`Room`).  Until then an id is given out once, to one address, and what is left
behind in `rev` when the id is dropped is of no use to anyone else: `Counted`.  `Roll.Apart` is what
follows for those at the far end.  Two datagrams under one id come from one sender; and a sender
keeps its id until something is dropped.  As an id is more than sixteen bits wide, that still leaves
two senders that look the same, but only when their ids are `2 ^ 16` or more apart.
-/

set_option autoImplicit false

namespace UdpTun
namespace ClientTable

variable {w : Nat} {t t' : ClientTable} {key : SocketAddress} {now : TimePoint} {id : Nat}

/-! ## The counter

As long as the counter has not come round, a free id is one that has never been used.  The search is
then over at its first turn. -/

/-- If the address is unknown, the counter is not at its end. -/
def Room (w : Nat) (t : ClientTable) (key : SocketAddress) : Prop :=
  t.rev.get? key = none → t.nextId + 1 < 2 ^ w

instance (w : Nat) (t : ClientTable) (key : SocketAddress) : Decidable (t.Room w key) :=
  inferInstanceAs (Decidable (_ → _))

/-- Ids have been given out below the counter, and no two addresses have the same. -/
structure Counted (t : ClientTable) : Prop where
  fwd : ∀ i e, t.fwd.get? i = some e → i < t.nextId
  rev : ∀ a i, t.rev.get? a = some i → i < t.nextId
  own : ∀ a b i, t.rev.get? a = some i → t.rev.get? b = some i → a = b

theorem counted_create (now : TimePoint) : (create now).Counted :=
  ⟨fun _ _ h ↦ by simp [create] at h, fun _ _ h ↦ by simp [create] at h,
    fun _ _ _ h ↦ by simp [create] at h⟩

/-- **What `seek` does**: a known address has its id, and an unknown one that of the counter. -/
theorem Counted.seek (h : t.Counted) (hroom : t.Room w key)
    (hs : t.seek w key now = .ok (id, t')) : t'.Counted ∧
      ((t.rev.get? key = some id ∧ t'.rev = t.rev ∧ t'.nextId = t.nextId) ∨
        (t.rev.get? key = none ∧ id = t.nextId ∧ t'.rev = t.rev.insert key id ∧
          t'.nextId = t.nextId + 1)) := by
  obtain ⟨hkey, e, he, rfl⟩ | ⟨hkey, hfree, rfl⟩ := seek_ok hs
  · refine ⟨⟨fun i f hi ↦ ?_, h.rev, h.own⟩, .inl ⟨hkey, rfl, rfl⟩⟩
    dsimp only at hi ⊢
    rw [OrdMap.get?_insert] at hi
    split at hi
    · rename_i heq
      rw [heq]
      exact h.fwd id e he
    · exact h.fwd i f hi
  · rw [freeId_of_below h.fwd] at hfree
    obtain rfl := Option.some.inj hfree
    have hup : (t.nextId + 1) % 2 ^ w = t.nextId + 1 := Nat.mod_eq_of_lt (hroom hkey)
    refine ⟨⟨fun i e hi ↦ ?_, fun a i ha ↦ ?_, fun a b i ha hb ↦ ?_⟩, .inr ⟨hkey, rfl, rfl, hup⟩⟩
    · dsimp only at hi ⊢
      rw [OrdMap.get?_insert] at hi
      rw [hup]
      split at hi
      · omega
      · exact (h.fwd i e hi).trans (Nat.lt_succ_self _)
    · dsimp only at ha ⊢
      rw [OrdMap.get?_insert] at ha
      rw [hup]
      split at ha
      · cases ha
        exact Nat.lt_succ_self _
      · exact (h.rev a i ha).trans (Nat.lt_succ_self _)
    · dsimp only at ha hb
      rw [OrdMap.get?_insert] at ha hb
      split at ha <;> rename_i hakey <;> split at hb <;> rename_i hbkey
      · rw [hakey, hbkey]
      · cases ha
        exact absurd (h.rev b _ hb) (lt_irrefl _)
      · cases hb
        exact absurd (h.rev a _ ha) (lt_irrefl _)
      · exact h.own a b i ha hb

/-- **Which addresses have ids**: the one that is sought has one now, the others have theirs, and no
id that was given out before has a new address. -/
theorem Counted.seek_rev (h : t.Counted) (hroom : t.Room w key)
    (hs : t.seek w key now = .ok (id, t')) : t'.rev.get? key = some id ∧
      (∀ a i, t.rev.get? a = some i → t'.rev.get? a = some i) ∧ t.nextId ≤ t'.nextId ∧
        ∀ a i, t'.rev.get? a = some i → i < t.nextId → t.rev.get? a = some i := by
  obtain ⟨-, ⟨hkey, hrev, hnext⟩ | ⟨hkey, rfl, hrev, hnext⟩⟩ := h.seek hroom hs
  · rw [hrev, hnext]
    exact ⟨hkey, fun _ _ ha ↦ ha, le_refl _, fun _ _ ha _ ↦ ha⟩
  · rw [hrev, hnext]
    refine ⟨OrdMap.get?_insert_self .., fun a i ha ↦ ?_, Nat.le_succ _, fun a i ha hi ↦ ?_⟩
    · have hne : a ≠ key := fun heq ↦ by
        rw [heq, hkey] at ha
        cases ha
      rwa [OrdMap.get?_insert_of_ne _ hne]
    · rw [OrdMap.get?_insert] at ha
      split at ha
      · cases ha
        exact absurd hi (lt_irrefl _)
      · exact ha

/-! ## The purge

Whatever the loop removes from `rev`, it leaves no address there with another's id; and if it drops
nothing it does nothing. -/

/-- If the loop leaves all that it walks over, it does nothing. -/
theorem purgeLoop_eq_self {before : TimePoint} {l : List (Nat × ClientEntry)}
    (h : purgeLoop before l t = .ok t') (hall : ∀ p ∈ l, t'.fwd.get? p.1 ≠ none) : t' = t := by
  induction l generalizing t with
  | nil =>
    cases h
    rfl
  | cons p l ih =>
    obtain ⟨-, q, -, hrest⟩ | ⟨-, hrest⟩ := purgeLoop_cons h
    · -- the first has been removed
      obtain ⟨e, he⟩ := Option.ne_none_iff_exists'.mp (hall p (List.mem_cons_self ..))
      have hgone : (t.fwd.erase p.1).get? p.1 = some e := purgeLoop_fwd hrest he
      rw [OrdMap.get?_erase_self] at hgone
      cases hgone
    · exact ih hrest fun q hq ↦ hall q (List.mem_cons_of_mem _ hq)

/-- The entries of one table that are not in another. -/
def dropped (t t' : ClientTable) : List (Nat × SocketAddress) :=
  (t.fwd.entries.filter fun p ↦ (t'.fwd.get? p.1).isNone).map fun p ↦ (p.1, p.2.addr)

theorem mem_dropped {i : Nat} {a : SocketAddress} : (i, a) ∈ dropped t t' ↔
    ∃ e, t.fwd.get? i = some e ∧ e.addr = a ∧ t'.fwd.get? i = none := by
  simp only [dropped, List.mem_map, List.mem_filter, Option.isNone_iff_eq_none, Prod.exists,
    Prod.mk.injEq, OrdMap.mem_entries]
  constructor
  · rintro ⟨_, e, ⟨he, hgone⟩, rfl, rfl⟩
    exact ⟨e, he, rfl, hgone⟩
  · rintro ⟨e, he, rfl, hgone⟩
    exact ⟨i, e, ⟨he, hgone⟩, rfl, rfl⟩

/-- **What the purge does**: an address that has an id still has that one or none, and if nobody is
dropped the maps are as they were. -/
theorem Counted.onPurge (h : t.Counted) (hs : t.onPurge now = .ok t') :
    t'.Counted ∧ t'.nextId = t.nextId ∧
      (∀ a i, t'.rev.get? a = some i → t.rev.get? a = some i) ∧
      (dropped t t' = [] → t'.rev = t.rev) := by
  obtain ⟨t₁, hpurge, rfl⟩ := onPurge_ok hs
  have hnext : t₁.nextId = t.nextId := purgeLoop_nextId hpurge
  have hrev : ∀ a i, t₁.rev.get? a = some i → t.rev.get? a = some i :=
    fun _ _ ↦ purgeLoop_rev_subset hpurge
  refine ⟨⟨fun i e hi ↦ ?_, fun a i ha ↦ ?_, fun a b i ha hb ↦ ?_⟩, hnext, hrev, fun hnone ↦ ?_⟩
  · exact (h.fwd i e (purgeLoop_fwd hpurge hi)).trans_eq hnext.symm
  · exact (h.rev a i (hrev a i ha)).trans_eq hnext.symm
  · exact h.own a b i (hrev a i ha) (hrev b i hb)
  · rw [purgeLoop_eq_self hpurge fun p hp hgone ↦ ?_]
    have hmem : (p.1, p.2.addr) ∈ dropped t { t₁ with lastPurge := now } :=
      mem_dropped.mpr ⟨p.2, OrdMap.mem_entries.mp hp, rfl, hgone⟩
    rw [hnone] at hmem
    cases hmem

end ClientTable

/-! ## The record

Datagrams and purges are put down in the order in which they come.  This is all that is needed to
say who has had which id. -/

/-- A datagram that has come in on an absorber, with the id that `seek` gives. -/
structure Receipt (A : Type) where
  absorber : A
  sender : SocketAddress
  clid : Nat
  data : List UInt8
  deriving DecidableEq

/-- What there is to say of a client table. -/
inductive Note (A : Type)
  | received (p : Receipt A)
  /-- An entry has been dropped. -/
  | dropped (clid : Nat) (sender : SocketAddress)
  deriving DecidableEq

/-- The client table, with a record. -/
structure Roll (A : Type) where
  table : ClientTable
  notes : List (Note A)

namespace Roll

variable {A : Type} {w : Nat} {r r' : Roll A}

def init (now : TimePoint) : Roll A := ⟨.create now, []⟩

/-- A datagram comes in. -/
def receive (w : Nat) (r : Roll A) (absorber : A) (sender : SocketAddress) (data : List UInt8)
    (now : TimePoint) : Except Halt (Receipt A × Roll A) :=
  (r.table.seek w sender now).map fun s ↦
    let p : Receipt A := ⟨absorber, sender, s.1, data⟩
    (p, ⟨s.2, r.notes ++ [.received p]⟩)

/-- The purge timer has gone off. -/
def onPurge (r : Roll A) (now : TimePoint) : Except Halt (Roll A) :=
  (r.table.onPurge now).map fun t ↦
    ⟨t, r.notes ++ (ClientTable.dropped r.table t).map fun p ↦ .dropped p.1 p.2⟩

/-- What happens next. -/
inductive Act (A : Type)
  | receive (absorber : A) (sender : SocketAddress) (data : List UInt8) (now : TimePoint)
  | onPurge (now : TimePoint)

def step (w : Nat) (r : Roll A) : Act A → Except Halt (Roll A)
  | .receive absorber sender data now => (r.receive w absorber sender data now).map Prod.snd
  | .onPurge now => r.onPurge now

/-- There are ids left for new senders. -/
def Room (w : Nat) (r : Roll A) : Act A → Prop
  | .receive _ sender _ _ => r.table.Room w sender
  | .onPurge _ => True

/-! ## The invariant

An id that has been on a datagram is the sender's for good: the counter is past it, and nobody else
will be found under it. -/

/-- What can be said of two datagrams, `q` after `p`. -/
structure Apart (p q : Receipt A) (between : List (Note A)) : Prop where
  /-- An id has one sender. -/
  owner : p.clid = q.clid → p.sender = q.sender
  /-- A sender keeps its id, or something has been dropped. -/
  kept : p.sender = q.sender → p.clid ≠ q.clid → ∃ i a, .dropped i a ∈ between

/-- Ids belong to their senders, who will be found under them as long as nothing is dropped. -/
structure Kept (r : Roll A) : Prop where
  counted : r.table.Counted
  given : ∀ p, .received p ∈ r.notes → p.clid < r.table.nextId
  owned : ∀ p, .received p ∈ r.notes → ∀ a, r.table.rev.get? a = some p.clid → a = p.sender
  found : ∀ l p l', r.notes = l ++ .received p :: l' → (∀ i a, .dropped i a ∉ l') →
    r.table.rev.get? p.sender = some p.clid
  apart : ∀ l p l' q l'', r.notes = l ++ .received p :: (l' ++ .received q :: l'') → Apart p q l'

theorem kept_init (now : TimePoint) : (init (A := A) now).Kept := by
  have hno : ∀ l (p : Receipt A) l', (init now).notes ≠ l ++ .received p :: l' := by
    intro l p l' h
    cases l <;> cases h
  exact ⟨ClientTable.counted_create now, fun _ h ↦ absurd h List.not_mem_nil,
    fun _ h ↦ absurd h List.not_mem_nil, fun l p l' h ↦ absurd h (hno l p l'),
    fun l p l' q l'' h ↦ absurd h (hno l p _)⟩

/-- A datagram has come in, and its sender is in the table. -/
theorem Kept.receive (h : r.Kept) {absorber : A} {sender : SocketAddress} {data : List UInt8}
    {now : TimePoint} {p : Receipt A} (hroom : r.table.Room w sender)
    (hs : r.receive w absorber sender data now = .ok (p, r')) : r'.Kept := by
  obtain ⟨⟨id, t'⟩, hseek, heq⟩ := map_ok hs
  obtain ⟨rfl, rfl⟩ := Prod.mk.inj heq
  obtain ⟨hcounted, -⟩ := h.counted.seek hroom hseek
  obtain ⟨hrev, hrevs, hnext, hold⟩ := h.counted.seek_rev hroom hseek
  have howned : ∀ p', .received p' ∈ r.notes → ∀ a, t'.rev.get? a = some p'.clid →
      a = p'.sender := fun p' hp' a ha ↦ h.owned p' hp' a (hold a _ ha (h.given p' hp'))
  have hmem : ∀ p', .received p' ∈ r.notes ++ [.received ⟨absorber, sender, id, data⟩] →
      .received p' ∈ r.notes ∨ p' = ⟨absorber, sender, id, data⟩ := by
    simp
  refine ⟨hcounted, fun p' hp' ↦ ?_, fun p' hp' a ha ↦ ?_, fun l p' l' hl hno ↦ ?_,
    fun l p' l' q l'' hl ↦ ?_⟩
  · rcases hmem p' hp' with hp' | rfl
    · exact (h.given p' hp').trans_le hnext
    · exact hcounted.rev _ _ hrev
  · rcases hmem p' hp' with hp' | rfl
    · exact howned p' hp' a ha
    · exact hcounted.own a sender id ha hrev
  · obtain ⟨m, hm, rfl⟩ | ⟨-, hp, rfl⟩ := Run.eq_append_cons_last hl
    · exact hrevs _ _ (h.found l p' m hm fun i a hmem ↦ hno i a (List.mem_append_left _ hmem))
    · cases hp
      exact hrev
  · obtain ⟨m, hm, hl'⟩ | ⟨-, -, hnil⟩ := Run.eq_append_cons_last hl
    · obtain ⟨m', rfl, rfl⟩ | ⟨rfl, hq, -⟩ := Run.eq_append_cons_last hl'.symm
      · exact h.apart l p' l' q m' hm
      · -- the second is the one that has come in
        cases hq
        have hp' : .received p' ∈ r.notes := by
          rw [hm]
          exact List.mem_append_right _ (List.mem_cons_self ..)
        refine ⟨fun heq ↦ (howned p' hp' sender (by rw [hrev, heq])).symm, fun heq hne ↦ ?_⟩
        by_contra hno
        have hfound := hrevs _ _ (h.found l p' m hm fun i a hmem ↦ hno ⟨i, a, hmem⟩)
        rw [heq, hrev] at hfound
        exact hne (Option.some.inj hfound).symm
    · exact absurd hnil (by simp)

/-- The entries that have gone are in the record. -/
theorem Kept.onPurge (h : r.Kept) {now : TimePoint} (hs : r.onPurge now = .ok r') : r'.Kept := by
  obtain ⟨t', hpurge, rfl⟩ := map_ok hs
  obtain ⟨hcounted, hnext, hrev, hsame⟩ := h.counted.onPurge hpurge
  -- nothing has come in
  have hno : ∀ p, (.received p : Note A) ∉
      (ClientTable.dropped r.table t').map fun p ↦ .dropped p.1 p.2 := by
    simp
  have hmem : ∀ p, (.received p : Note A) ∈ r.notes ++
      (ClientTable.dropped r.table t').map (fun p ↦ .dropped p.1 p.2) → .received p ∈ r.notes :=
    fun p hp ↦ (List.mem_append.mp hp).resolve_right (hno p)
  refine ⟨hcounted, fun p hp ↦ (h.given p (hmem p hp)).trans_eq hnext.symm,
    fun p hp a ha ↦ h.owned p (hmem p hp) a (hrev a _ ha), fun l p l' hl hkept ↦ ?_,
    fun l p l' q l'' hl ↦ ?_⟩
  · obtain ⟨m, hm, rfl⟩ := Run.eq_append_cons_of_notMem hl (hno p)
    have hnone : ClientTable.dropped r.table t' = [] := by
      rw [List.eq_nil_iff_forall_not_mem]
      intro x hx
      exact hkept x.1 x.2 (List.mem_append_right _ (List.mem_map.mpr ⟨x, hx, rfl⟩))
    dsimp only
    rw [hsame hnone]
    exact h.found l p m hm fun i a hmem ↦ hkept i a (List.mem_append_left _ hmem)
  · obtain ⟨m, hm, hl'⟩ := Run.eq_append_cons_of_notMem hl (hno p)
    obtain ⟨m', rfl, rfl⟩ := Run.eq_append_cons_of_notMem hl'.symm (hno q)
    exact h.apart l p l' q m' hm

/-- **The step lemma.** -/
theorem Kept.step {a : Act A} (h : r.Kept) (ha : r.Room w a) (hs : r.step w a = .ok r') :
    r'.Kept := by
  cases a with
  | receive absorber sender data now =>
    obtain ⟨⟨p, r₁⟩, hreceive, rfl⟩ := map_ok hs
    exact h.receive ha hreceive
  | onPurge now => exact h.onPurge hs

theorem kept_of_reach {now : TimePoint} (h : Run.Reach (step w) (Room w) (init now) r) : r.Kept :=
  h.invariant (kept_init now) fun _ _ _ hkept ha hs ↦ hkept.step ha hs

end Roll
end UdpTun
