import UdpTun.Lib.OrdMap
import UdpTun.Lib.Run
import UdpTun.Halt
import UdpTun.Scheduling
import UdpTun.SockAddrs
import Mathlib.Data.List.Nodup
import Mathlib.Data.List.Perm.Subperm
import Mathlib.Data.Nat.ModEq

/-!
# The client table

`ClientTable` of `clientid.cc` gives each source address an id that goes on the wire with its
datagrams.  It is two maps: `fwd` from ids to entries (an address and the time it was last used)
and `rev` from addresses to ids.

* `ClientTable.seek` looks an address up, or gives it the first free id from `nextId` on.
* `ClientTable.purge` walks `fwd`, dropping what has not been used for a while from both maps.

`clid_t` is `uint_fast16_t`, whose width `w` depends on the platform; it is a parameter of what
follows, and ids are counted modulo `2 ^ w`.
-/

set_option autoImplicit false

namespace UdpTun

/-- `ClientTable::entry`. -/
structure ClientEntry where
  addr : SocketAddress
  lastUsed : TimePoint
  deriving DecidableEq

/-- `ClientTable`, less its timer. -/
structure ClientTable where
  /-- `last_purge`. -/
  lastPurge : TimePoint
  /-- `next_id`. -/
  nextId : Nat
  /-- From ids to entries. -/
  fwd : OrdMap Nat ClientEntry
  /-- From addresses to ids. -/
  rev : OrdMap SocketAddress Nat

namespace ClientTable

/-- A table made at time `now`, when there is no database file. -/
def create (now : TimePoint) : ClientTable :=
  { lastPurge := now, nextId := 0, fwd := .empty, rev := .empty }

/-! ## Looking up an address

`emplace` fails on an id that is in use, and the loop goes on with the next one.  If all ids are in
use it does not end, and there is no result. -/

/-- The loop of `seek`: try ids from `id` on, wrapping round at `2 ^ w`, until `emplace`
succeeds. -/
def freeIdFrom (w : Nat) (fwd : OrdMap Nat ClientEntry) : Nat → Nat → Option Nat
  | 0, _ => none
  | fuel + 1, id =>
    if (fwd.get? id).isNone then some id else freeIdFrom w fwd fuel ((id + 1) % 2 ^ w)

/-- The id the loop stops at.  One turn more than there are entries is enough for it to stop, if
it ever does: see `freeIdFrom_eq_none_of_freeId`. -/
def freeId (w : Nat) (t : ClientTable) : Option Nat :=
  freeIdFrom w t.fwd (t.fwd.size + 1) t.nextId

/-- `ClientTable::seek`, called at time `now`. -/
def seek (w : Nat) (t : ClientTable) (key : SocketAddress) (now : TimePoint) :
    Except Halt (Nat × ClientTable) :=
  match t.rev.get? key with
  | some id =>
    match t.fwd.get? id with
    | none => .error (.assertion .seekFpos)
    | some e => .ok (id, { t with fwd := t.fwd.insert id { e with lastUsed := now } })
  | none =>
    match t.freeId w with
    | none => .error .diverges
    | some id =>
      .ok (id, { t with
        fwd := t.fwd.insert id { addr := key, lastUsed := now }
        rev := t.rev.insert key id
        nextId := (id + 1) % 2 ^ w })

/-! ## Purging

The iterator is the list of entries from where it is on.  Erasing an entry moves it to the next, and
what is read through it after that is the next entry, or is not there. -/

/-- The loop of `purge`, the iterator being at the first entry of the list. -/
def purgeLoop (before : TimePoint) : List (Nat × ClientEntry) → ClientTable →
    Except Halt ClientTable
  | [], t => .ok t
  | (id, e) :: rest, t =>
    if e.lastUsed < before then
      -- `iter = fwd.erase(iter)` moves on to the next entry, and that is what is read next
      let t := { t with fwd := t.fwd.erase id }
      match rest with
      | [] => .error .undefined
      | (_, e') :: _ => purgeLoop before rest { t with rev := t.rev.erase e'.addr }
    else purgeLoop before rest t

/-- `ClientTable::purge`. -/
def purge (t : ClientTable) (before : TimePoint) : Except Halt ClientTable :=
  purgeLoop before t.fwd.entries t

/-- `ClientTable::on_purge`, called at time `now`.  The timer is set again afterwards. -/
def onPurge (t : ClientTable) (now : TimePoint) : Except Halt ClientTable :=
  match t.purge t.lastPurge with
  | .ok t => .ok { t with lastPurge := now }
  | .error h => .error h

/-! ## Runs

A table is only ever called by its owner, one call after another. -/

/-- What can be done to a table. -/
inductive Call
  | seek (key : SocketAddress) (now : TimePoint)
  | purge (before : TimePoint)
  | onPurge (now : TimePoint)

/-- One call. -/
def step (w : Nat) (t : ClientTable) : Call → Except Halt ClientTable
  | .seek key now => (t.seek w key now).map Prod.snd
  | .purge before => t.purge before
  | .onPurge now => t.onPurge now

/-- The time before which a call purges, if it does. -/
def Call.purgeBefore (t : ClientTable) : Call → Option TimePoint
  | .seek _ _ => none
  | .purge before => some before
  | .onPurge _ => some t.lastPurge

/-! ## The search for a free id

That `freeId` has enough turns is shown here, once and for all.  It fails only if no number of turns
would do. -/

theorem freeIdFrom_some {w : Nat} {fwd : OrdMap Nat ClientEntry} {fuel id i : Nat}
    (h : freeIdFrom w fwd fuel id = some i) : fwd.get? i = none := by
  induction fuel generalizing id with
  | zero => cases h
  | succ fuel ih =>
    rw [freeIdFrom] at h
    split at h
    · rename_i hnone
      cases h
      exact Option.isNone_iff_eq_none.mp hnone
    · exact ih h

theorem freeIdFrom_lt {w : Nat} {fwd : OrdMap Nat ClientEntry} {fuel id i : Nat}
    (hid : id < 2 ^ w) (h : freeIdFrom w fwd fuel id = some i) : i < 2 ^ w := by
  induction fuel generalizing id with
  | zero => cases h
  | succ fuel ih =>
    rw [freeIdFrom] at h
    split at h
    · obtain rfl := Option.some.inj h
      exact hid
    · exact ih (Nat.mod_lt _ (Nat.two_pow_pos w)) h

/-- When the search gives up, every id it has tried is taken. -/
theorem freeIdFrom_none {w : Nat} {fwd : OrdMap Nat ClientEntry} {fuel id : Nat}
    (hid : id < 2 ^ w) (h : freeIdFrom w fwd fuel id = none) :
    ∀ k < fuel, fwd.get? ((id + k) % 2 ^ w) ≠ none := by
  induction fuel generalizing id with
  | zero => intro k hk; omega
  | succ fuel ih =>
    rw [freeIdFrom] at h
    split at h
    · cases h
    · rename_i hsome
      intro k hk
      cases k with
      | zero =>
        rw [Nat.add_zero, Nat.mod_eq_of_lt hid]
        simpa using hsome
      | succ k =>
        have hk' := ih (Nat.mod_lt _ (Nat.two_pow_pos w)) h k (by omega)
        rwa [Nat.mod_add_mod, show id + 1 + k = id + (k + 1) by omega] at hk'

/-- The search succeeds as long as there are fewer entries than ids. -/
theorem freeId_ne_none {w : Nat} {t : ClientTable} (hid : t.nextId < 2 ^ w)
    (hsize : t.fwd.size < 2 ^ w) : t.freeId w ≠ none := by
  intro h
  have htaken := freeIdFrom_none hid h
  -- the ids tried are distinct, so there are too many of them to be keys of `fwd`
  have hnd : ((List.range (t.fwd.size + 1)).map fun k ↦ (t.nextId + k) % 2 ^ w).Nodup := by
    refine List.Nodup.map_on (fun k hk l hl hkl ↦ ?_) List.nodup_range
    rw [List.mem_range] at hk hl
    have := (Nat.ModEq.add_left_cancel' t.nextId hkl : k ≡ l [MOD 2 ^ w])
    exact this.eq_of_lt_of_lt (by omega) (by omega)
  have hsub : ((List.range (t.fwd.size + 1)).map fun k ↦ (t.nextId + k) % 2 ^ w) ⊆
      t.fwd.entries.map Prod.fst := by
    intro i hi
    obtain ⟨k, hk, rfl⟩ := List.mem_map.mp hi
    obtain ⟨e, he⟩ := Option.ne_none_iff_exists'.mp (htaken k (List.mem_range.mp hk))
    exact List.mem_map.mpr ⟨_, OrdMap.mem_entries.mpr he, rfl⟩
  have hle := (hnd.subperm hsub).length_le
  simp only [List.length_map, List.length_range] at hle
  exact absurd hle (by rw [OrdMap.size]; omega)

/-- The other way round: when `freeId` finds nothing all ids are taken, and no number of further
turns would find one. -/
theorem freeIdFrom_eq_none_of_freeId {w : Nat} {t : ClientTable} (hid : t.nextId < 2 ^ w)
    (h : t.freeId w = none) (fuel : Nat) : freeIdFrom w t.fwd fuel t.nextId = none := by
  have hsize : 2 ^ w ≤ t.fwd.size := by
    by_contra hlt
    exact freeId_ne_none hid (not_le.mp hlt) h
  have hall : ∀ i < 2 ^ w, t.fwd.get? i ≠ none := by
    intro i hi
    have hk := freeIdFrom_none hid h ((i + 2 ^ w - t.nextId) % 2 ^ w)
      ((Nat.mod_lt _ (Nat.two_pow_pos w)).trans_le (by omega))
    rwa [Nat.add_mod_mod, show t.nextId + (i + 2 ^ w - t.nextId) = i + 2 ^ w by omega,
      Nat.add_mod_right, Nat.mod_eq_of_lt hi] at hk
  have key : ∀ fuel id, id < 2 ^ w → freeIdFrom w t.fwd fuel id = none := by
    intro fuel
    induction fuel with
    | zero => intro id _; rfl
    | succ fuel ih =>
      intro id hid
      rw [freeIdFrom, if_neg (by simpa using hall id hid)]
      exact ih _ (Nat.mod_lt _ (Nat.two_pow_pos w))
  exact key fuel t.nextId hid

/-! ## What the purge loop touches

The loop is taken apart into what it does to each of the two maps.  What it erases from `fwd` is
what has expired; what it erases from `rev` depends on the order of the entries. -/

variable {before : TimePoint}

/-- Nothing happens when nothing has expired. -/
theorem purgeLoop_of_forall_not_lt {l : List (Nat × ClientEntry)} {t : ClientTable}
    (h : ∀ p ∈ l, ¬ p.2.lastUsed < before) : purgeLoop before l t = .ok t := by
  induction l with
  | nil => rfl
  | cons p l ih =>
    rw [purgeLoop, if_neg (h p (List.mem_cons_self ..))]
    exact ih fun q hq ↦ h q (List.mem_cons_of_mem _ hq)

/-- The first step of the loop, when it comes to an end. -/
theorem purgeLoop_cons {id : Nat} {e : ClientEntry} {rest : List (Nat × ClientEntry)}
    {t t' : ClientTable} (h : purgeLoop before ((id, e) :: rest) t = .ok t') :
    (e.lastUsed < before ∧ ∃ q ∈ rest, purgeLoop before rest
        { t with fwd := t.fwd.erase id, rev := t.rev.erase q.2.addr } = .ok t') ∨
      (¬ e.lastUsed < before ∧ purgeLoop before rest t = .ok t') := by
  rw [purgeLoop] at h
  split at h
  · rename_i hlt
    cases rest with
    | nil => cases h
    | cons q rest => exact .inl ⟨hlt, q, List.mem_cons_self .., h⟩
  · rename_i hlt
    exact .inr ⟨hlt, h⟩

/-- The loop leaves the counter alone. -/
theorem purgeLoop_nextId {l : List (Nat × ClientEntry)} {t t' : ClientTable}
    (h : purgeLoop before l t = .ok t') : t'.nextId = t.nextId := by
  induction l generalizing t with
  | nil => cases h; rfl
  | cons p l ih =>
    obtain ⟨-, q, -, hrest⟩ | ⟨-, hrest⟩ := purgeLoop_cons h
    · exact (ih hrest).trans rfl
    · exact ih hrest

/-- The loop only removes from `fwd`. -/
theorem purgeLoop_fwd {l : List (Nat × ClientEntry)} {t t' : ClientTable}
    (h : purgeLoop before l t = .ok t') {i : Nat} {e : ClientEntry}
    (hi : t'.fwd.get? i = some e) : t.fwd.get? i = some e := by
  induction l generalizing t with
  | nil => cases h; exact hi
  | cons p l ih =>
    obtain ⟨-, q, -, hrest⟩ | ⟨-, hrest⟩ := purgeLoop_cons h
    · have h1 : (t.fwd.erase p.1).get? i = some e := ih hrest
      rw [OrdMap.get?_erase] at h1
      split at h1
      · cases h1
      · exact h1
    · exact ih hrest

/-- The loop touches `rev` only at addresses it walks over. -/
theorem purgeLoop_rev {l : List (Nat × ClientEntry)} {t t' : ClientTable}
    (h : purgeLoop before l t = .ok t') {a : SocketAddress} (ha : ∀ p ∈ l, p.2.addr ≠ a) :
    t'.rev.get? a = t.rev.get? a := by
  induction l generalizing t with
  | nil => cases h; rfl
  | cons p l ih =>
    have ha' : ∀ q ∈ l, q.2.addr ≠ a := fun q hq ↦ ha q (List.mem_cons_of_mem _ hq)
    obtain ⟨-, q, hq, hrest⟩ | ⟨-, hrest⟩ := purgeLoop_cons h
    · rw [ih hrest ha', OrdMap.get?_erase_of_ne _ (ha' q hq).symm]
    · exact ih hrest ha'

/-- The loop only removes from `rev`. -/
theorem purgeLoop_rev_subset {l : List (Nat × ClientEntry)} {t t' : ClientTable}
    (h : purgeLoop before l t = .ok t') {a : SocketAddress} {i : Nat}
    (ha : t'.rev.get? a = some i) : t.rev.get? a = some i := by
  induction l generalizing t with
  | nil =>
    cases h
    exact ha
  | cons p l ih =>
    obtain ⟨-, q, -, hrest⟩ | ⟨-, hrest⟩ := purgeLoop_cons h
    · have h₁ : (t.rev.erase q.2.addr).get? a = some i := ih hrest
      rw [OrdMap.get?_erase] at h₁
      split at h₁
      · cases h₁
      · exact h₁
    · exact ih hrest

/-- What has expired is gone from `fwd`. -/
theorem purgeLoop_gone {l : List (Nat × ClientEntry)} {t t' : ClientTable}
    (h : purgeLoop before l t = .ok t') {p : Nat × ClientEntry} (hp : p ∈ l)
    (hlt : p.2.lastUsed < before) : t'.fwd.get? p.1 = none := by
  induction l generalizing t with
  | nil => cases hp
  | cons q l ih =>
    rcases List.mem_cons.mp hp with rfl | hp
    · obtain ⟨-, r, -, hrest⟩ | ⟨hge, -⟩ := purgeLoop_cons h
      · by_contra hsome
        obtain ⟨e, he⟩ := Option.ne_none_iff_exists'.mp hsome
        have hkept : (t.fwd.erase p.1).get? p.1 = some e := purgeLoop_fwd hrest he
        rw [OrdMap.get?_erase_self] at hkept
        cases hkept
      · exact absurd hlt hge
    · obtain ⟨-, r, -, hrest⟩ | ⟨-, hrest⟩ := purgeLoop_cons h
      · exact ih hrest hp
      · exact ih hrest hp

/-! ## What a call does

A call that returns has found the address or given it a new id, or it has been through the purge
loop.  What is kept over a run is read off these two lemmas. -/

variable {w : Nat} {t t' : ClientTable}

/-- The address is known, and its entry is renewed; or it is new. -/
theorem seek_ok {key : SocketAddress} {now : TimePoint} {id : Nat}
    (h : t.seek w key now = .ok (id, t')) :
    (t.rev.get? key = some id ∧ ∃ e, t.fwd.get? id = some e ∧
        t' = { t with fwd := t.fwd.insert id { e with lastUsed := now } }) ∨
      (t.rev.get? key = none ∧ t.freeId w = some id ∧ t' = { t with
        fwd := t.fwd.insert id { addr := key, lastUsed := now }
        rev := t.rev.insert key id
        nextId := (id + 1) % 2 ^ w }) := by
  rw [seek] at h
  split at h
  · split at h
    · cases h
    · rename_i hkey _ e he
      cases h
      exact .inl ⟨hkey, e, he, rfl⟩
  · split at h
    · cases h
    · rename_i hkey _ i hfree
      cases h
      exact .inr ⟨hkey, hfree, rfl⟩

/-- `on_purge` does what `purge` does, but for the time that it keeps. -/
theorem onPurge_ok {now : TimePoint} (h : t.onPurge now = .ok t') :
    ∃ t₁, t.purge t.lastPurge = .ok t₁ ∧ t' = { t₁ with lastPurge := now } := by
  rw [onPurge] at h
  split at h
  · cases h
    exact ⟨_, ‹_›, rfl⟩
  · cases h

/-- Both kinds of purge go through the loop. -/
theorem step_purge_ok {c : Call} (hc : c.purgeBefore t = some before)
    (hs : step w t c = .ok t') : ∃ t₁, purgeLoop before t.fwd.entries t = .ok t₁ ∧
      t'.fwd = t₁.fwd ∧ t'.rev = t₁.rev ∧ t'.nextId = t₁.nextId := by
  cases c with
  | seek key now => cases hc
  | purge b =>
    cases hc
    exact ⟨t', hs, rfl, rfl, rfl⟩
  | onPurge now =>
    cases hc
    obtain ⟨t₁, h₁, rfl⟩ := onPurge_ok hs
    exact ⟨t₁, h₁, rfl, rfl, rfl⟩

end ClientTable

end UdpTun
