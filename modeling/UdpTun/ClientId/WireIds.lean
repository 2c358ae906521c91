import UdpTun.ClientId.Consistency
import UdpTun.Marshaling

/-!
# Client ids on the wire

An id is as wide as `clid_t`, but a frame carries two bytes of it: `wireClid` is what the far end
makes of an id.  Distinct senders are distinct clients only if their ids differ in the low sixteen
bits, and that is for `rev` to say, since it is there that `seek` looks an address up.

`wireIds_distinct` is about the runs in which at most 65535 addresses are ever in use, and says two
things of them.

* `Serves` is all that is wanted of a table: `seek` finds an id for every address, and no two
  addresses of `rev` have ids that look the same on the wire.  It holds throughout exactly when no
  purge finds an entry to drop.  Ids are then 0, 1, 2 and so on, and there are not enough of them to
  collide; while a purge that drops something leaves an address behind that `seek` aborts on.
* Whatever is purged, the search of `seek` ends, and the ids alone (`WireApart`) stay apart exactly
  when each unknown address is sought while no address of `rev` has the low bits of the first unused
  id (`NoAlias`).

`long_lived_sender_collides` is a run that goes wrong in the second way: one sender stays while
short-lived ones come and go, until the counter has gone past `2 ^ 16` and comes to rest on an id
that agrees in its low bits with the one still in use.
-/

set_option autoImplicit false

namespace UdpTun

/-- The client id that `decode_message` recovers from a frame sent with `clid`. -/
def wireClid (clid : Nat) : Option Nat :=
  (decodeMessage (Message.encode ⟨clid, 0, []⟩)).map Decoded.clid

theorem wireClid_eq (clid : Nat) : wireClid clid = some (clid % 65536) := by
  rw [wireClid, Message.encode_eq_cons, decodeMessage]
  simp only [readPair_byteAt]
  rfl

/-- The bytes that are sent are those of the low sixteen bits. -/
theorem fieldBytes_maxClidBytes_eq_iff (i j : Nat) :
    fieldBytes maxClidBytes i = fieldBytes maxClidBytes j ↔ i % 65536 = j % 65536 := by
  have hpair : ∀ k, readPair (byteAt k 8) (byteAt k 0) = k % 65536 := readPair_byteAt
  rw [maxClidBytes, fieldBytes_two, fieldBytes_two, List.cons.injEq, List.cons.injEq]
  refine ⟨fun h ↦ by rw [← hpair i, ← hpair j, h.1, h.2.1], fun h ↦ ?_⟩
  have hbyte : ∀ s, s = 0 ∨ s = 8 → byteAt i s = byteAt j s := by
    intro s hs
    apply UInt8.toNat.inj
    rw [byteAt_toNat, byteAt_toNat]
    rcases hs with rfl | rfl <;> omega
  exact ⟨hbyte 8 (.inr rfl), hbyte 0 (.inl rfl), rfl⟩

namespace ClientTable

/-- No two addresses in the table have ids that agree in the bytes that are sent, or in what the far
end makes of them. -/
def WireApart (t : ClientTable) : Prop :=
  ∀ a b i j, t.rev.get? a = some i → t.rev.get? b = some j → a ≠ b →
    fieldBytes maxClidBytes i ≠ fieldBytes maxClidBytes j ∧ wireClid i ≠ wireClid j

/-- The search of `seek` comes to an end, whatever address it is called with. -/
def Terminates (w : Nat) (t : ClientTable) : Prop :=
  ∀ key now, t.seek w key now ≠ .error .diverges

/-- What is wanted of a table. -/
structure Serves (w : Nat) (t : ClientTable) : Prop where
  /-- `seek` finds an id for every address. -/
  answers : ∀ key now, ∃ r, t.seek w key now = .ok r
  /-- The far end can tell the addresses apart. -/
  apart : t.WireApart

/-- The first id from `nextId` on that is not in use is `k` further. -/
def FirstUnused (w : Nat) (t : ClientTable) (k : Nat) : Prop :=
  (∀ l < k, (t.fwd.get? ((t.nextId + l) % 2 ^ w)).isSome) ∧
    t.fwd.get? ((t.nextId + k) % 2 ^ w) = none

/-- An unknown address is sought only while no address in the table has an id with the low sixteen
bits of the first unused one. -/
def NoAlias (w : Nat) (t : ClientTable) (c : Call) : Prop :=
  ∀ key now, c = .seek key now → t.rev.get? key = none → ∀ k, t.FirstUnused w k →
    ∀ a i, t.rev.get? a = some i → i % 65536 ≠ (t.nextId + k) % 2 ^ w % 65536

/-- At most 65535 addresses are alive. -/
def Bounded (t : ClientTable) : Prop := t.fwd.size ≤ 65535

instance (t : ClientTable) : Decidable t.Bounded := inferInstanceAs (Decidable (_ ≤ _))

/-- If the call returns, `P` holds of the table that it leaves. -/
def Leaves (w : Nat) (P : ClientTable → Prop) (t : ClientTable) (c : Call) : Prop :=
  ∀ t', step w t c = .ok t' → P t'

instance {w : Nat} {P : ClientTable → Prop} [DecidablePred P] (t : ClientTable) :
    DecidablePred (Leaves w P t) := fun _ ↦ Run.decidableOk _

/-- The table is as it should be before the call, which returns, and after it. -/
def Serving (w : Nat) (t : ClientTable) (c : Call) : Prop :=
  t.Serves w ∧ ∃ t', step w t c = .ok t' ∧ t'.Serves w

variable {w : Nat} {t t' : ClientTable}

/-- In terms of the low sixteen bits. -/
theorem wireApart_iff : t.WireApart ↔ ∀ a b i j, t.rev.get? a = some i → t.rev.get? b = some j →
    a ≠ b → i % 65536 ≠ j % 65536 := by
  refine forall₄_congr fun a b i j ↦ forall₃_congr fun _ _ _ ↦ ?_
  rw [wireClid_eq, wireClid_eq, Ne, fieldBytes_maxClidBytes_eq_iff, Ne, Option.some_inj, and_self]

/-! ## The search

`freeId` gives the first unused id if there is one, and with fewer entries than ids there is. -/

/-- A counter that is free is what the search returns. -/
theorem freeId_of_get?_nextId (h : t.fwd.get? t.nextId = none) : t.freeId w = some t.nextId := by
  rw [freeId, freeIdFrom, h]
  rfl

/-- What the search returns is the first unused id. -/
theorem freeIdFrom_first {fwd : OrdMap Nat ClientEntry} {fuel id i : Nat} (hid : id < 2 ^ w)
    (h : freeIdFrom w fwd fuel id = some i) :
    ∃ k, i = (id + k) % 2 ^ w ∧ ∀ l < k, (fwd.get? ((id + l) % 2 ^ w)).isSome := by
  induction fuel generalizing id with
  | zero => cases h
  | succ fuel ih =>
    rw [freeIdFrom] at h
    split at h
    · cases h
      exact ⟨0, by rw [Nat.add_zero, Nat.mod_eq_of_lt hid], fun l hl ↦ by omega⟩
    · rename_i hsome
      obtain ⟨k, hk, hbefore⟩ := ih (Nat.mod_lt _ (Nat.two_pow_pos w)) h
      have hmod : ∀ l, ((id + 1) % 2 ^ w + l) % 2 ^ w = (id + (l + 1)) % 2 ^ w := by
        intro l
        rw [Nat.mod_add_mod, Nat.add_right_comm, Nat.add_assoc]
      refine ⟨k + 1, by rw [hk, hmod], fun l hl ↦ ?_⟩
      cases l with
      | zero =>
        rw [Nat.add_zero, Nat.mod_eq_of_lt hid]
        simpa [Option.isSome_iff_ne_none] using hsome
      | succ l =>
        rw [← hmod]
        exact hbefore l (by omega)

theorem firstUnused_of_freeId (hnext : t.nextId < 2 ^ w) {id : Nat} (h : t.freeId w = some id) :
    ∃ k, t.FirstUnused w k ∧ id = (t.nextId + k) % 2 ^ w := by
  obtain ⟨k, rfl, hbefore⟩ := freeIdFrom_first hnext h
  exact ⟨k, ⟨hbefore, freeIdFrom_some h⟩, rfl⟩

/-- There is only one first. -/
theorem FirstUnused.unique {k l : Nat} (hk : t.FirstUnused w k) (hl : t.FirstUnused w l) :
    k = l := by
  have hle : ∀ {m n : Nat}, t.FirstUnused w m → t.FirstUnused w n → m ≤ n := by
    intro m n hm hn
    by_contra hlt
    have hused := hm.1 n (not_le.mp hlt)
    rw [hn.2] at hused
    cases hused
  exact le_antisymm (hle hk hl) (hle hl hk)

/-- The first unused id is what the search returns: if it gave up, all ids would be taken. -/
theorem FirstUnused.freeId {k : Nat} (h : t.FirstUnused w k) (hnext : t.nextId < 2 ^ w) :
    t.freeId w = some ((t.nextId + k) % 2 ^ w) := by
  cases hfree : t.freeId w with
  | some id =>
    obtain ⟨l, hl, rfl⟩ := firstUnused_of_freeId hnext hfree
    rw [h.unique hl]
  | none =>
    have hall := freeIdFrom_none hnext (freeIdFrom_eq_none_of_freeId hnext hfree (k + 1))
    exact absurd h.2 (hall k (Nat.lt_succ_self k))

/-- The search ends as long as there are at most 65535 entries. -/
theorem Bounded.freeId_ne_none (h : t.Bounded) (hw : 16 ≤ w) (hnext : t.nextId < 2 ^ w) :
    t.freeId w ≠ none := by
  refine ClientTable.freeId_ne_none hnext (h.trans_lt ?_)
  exact (show 65535 < 2 ^ 16 by decide).trans_le (Nat.pow_le_pow_right (by decide) hw)

theorem Bounded.terminates (h : t.Bounded) (hw : 16 ≤ w) (hnext : t.nextId < 2 ^ w) :
    t.Terminates w := by
  intro key now
  rw [seek]
  split
  · split <;> simp
  · split
    · rename_i hnone
      exact absurd hnone (h.freeId_ne_none hw hnext)
    · simp

theorem nextId_lt_step (h : t.nextId < 2 ^ w) {c : Call} (hs : step w t c = .ok t') :
    t'.nextId < 2 ^ w := by
  cases hc : c.purgeBefore t with
  | some before =>
    obtain ⟨t₁, hloop, -, -, hnext⟩ := step_purge_ok hc hs
    rw [hnext, purgeLoop_nextId hloop]
    exact h
  | none =>
    cases c with
    | seek key now =>
      obtain ⟨⟨id, t₁⟩, hseek, rfl⟩ := map_ok hs
      obtain ⟨-, e, -, rfl⟩ | ⟨-, -, rfl⟩ := seek_ok hseek
      · exact h
      · exact Nat.mod_lt _ (Nat.two_pow_pos w)
    | purge b => cases hc
    | onPurge now => cases hc

/-! ## Ids alone

Only a new id can come too close to another.  A purge takes addresses out of `rev` (if not the right
ones), and those that stay are as far apart as before. -/

theorem wireApart_create (now : TimePoint) : (create now).WireApart :=
  fun _ _ _ _ h ↦ by simp [create] at h

theorem WireApart.of_subset (h : t.WireApart)
    (hsub : ∀ a i, t'.rev.get? a = some i → t.rev.get? a = some i) : t'.WireApart :=
  fun a b i j ha hb ↦ h a b i j (hsub a i ha) (hsub b j hb)

/-- A new address keeps the ids apart exactly when its id is apart from each of them. -/
theorem wireApart_insert_iff (h : t.WireApart) {key : SocketAddress} {id : Nat}
    (hkey : t.rev.get? key = none) (hrev : t'.rev = t.rev.insert key id) :
    t'.WireApart ↔ ∀ a i, t.rev.get? a = some i → i % 65536 ≠ id % 65536 := by
  have hne : ∀ a i, t.rev.get? a = some i → a ≠ key := by
    rintro a i ha rfl
    rw [hkey] at ha
    cases ha
  have hget : ∀ a i, t'.rev.get? a = some i ↔ (a = key ∧ i = id) ∨ t.rev.get? a = some i := by
    intro a i
    rw [hrev, OrdMap.get?_insert]
    split
    · rename_i ha
      simp [ha, hkey, eq_comm]
    · rename_i ha
      simp [ha]
  rw [wireApart_iff] at h ⊢
  refine ⟨fun h' a i ha ↦ ?_, fun hid a b i j ha hb hab ↦ ?_⟩
  · have hnew := (hget key id).mpr (.inl ⟨rfl, rfl⟩)
    exact h' a key i id ((hget a i).mpr (.inr ha)) hnew (hne a i ha)
  · rcases (hget a i).mp ha with ⟨rfl, rfl⟩ | ha <;> rcases (hget b j).mp hb with ⟨rfl, rfl⟩ | hb
    · exact absurd rfl hab
    · exact (hid b j hb).symm
    · exact hid a i ha
    · exact h a b i j ha hb hab

/-- **One call keeps the ids apart exactly when it finds no alias.** -/
theorem leaves_wireApart_iff (hnext : t.nextId < 2 ^ w) (h : t.WireApart) {c : Call} :
    Leaves w WireApart t c ↔ NoAlias w t c := by
  cases hc : c.purgeBefore t with
  | some before =>
    refine iff_of_true (fun t' hs ↦ ?_) (by rintro key now rfl; cases hc)
    obtain ⟨t₁, hloop, -, hrev, -⟩ := step_purge_ok hc hs
    exact h.of_subset fun a i ha ↦ purgeLoop_rev_subset hloop (by rw [← hrev]; exact ha)
  | none =>
    cases c with
    | purge b => cases hc
    | onPurge now => cases hc
    | seek key now =>
      refine ⟨fun hleaves ↦ ?_, fun halias t' hs ↦ ?_⟩
      · rintro _ _ ⟨⟩ hkey k hfirst
        refine (wireApart_insert_iff h hkey rfl).mp (hleaves { t with
          fwd := t.fwd.insert ((t.nextId + k) % 2 ^ w) { addr := key, lastUsed := now }
          rev := t.rev.insert key ((t.nextId + k) % 2 ^ w)
          nextId := ((t.nextId + k) % 2 ^ w + 1) % 2 ^ w } ?_)
        rw [step, seek, hkey]
        simp only [hfirst.freeId hnext]
        rfl
      · obtain ⟨⟨id, t₁⟩, hseek, rfl⟩ := map_ok hs
        obtain ⟨-, e, -, rfl⟩ | ⟨hkey, hfree, rfl⟩ := seek_ok hseek
        · exact h.of_subset fun _ _ ha ↦ ha
        · obtain ⟨k, hfirst, rfl⟩ := firstUnused_of_freeId hnext hfree
          exact (wireApart_insert_iff h hkey rfl).mpr (halias key now rfl hkey k hfirst)

/-! ## Ids in sequence

While nothing is dropped the counter is the number of entries, and all ids are below it. -/

/-- The maps are inverse, and ids have been given out in sequence. -/
structure Serial (t : ClientTable) : Prop where
  consistent : t.Consistent
  below : ∀ i e, t.fwd.get? i = some e → i < t.nextId
  count : t.nextId = t.fwd.size

theorem serial_create (now : TimePoint) : (create now).Serial :=
  ⟨create_consistent now, fun _ _ h ↦ by simp [create] at h, rfl⟩

/-- The first id that is not in use is that of the counter. -/
theorem freeId_of_below (h : ∀ i e, t.fwd.get? i = some e → i < t.nextId) :
    t.freeId w = some t.nextId := by
  refine freeId_of_get?_nextId ?_
  cases hnext : t.fwd.get? t.nextId with
  | none => rfl
  | some e => exact absurd (h _ e hnext) (lt_irrefl _)

/-- A quiet call keeps ids in sequence, if there is room for them. -/
theorem Serial.step (h : t.Serial) {c : Call} (hq : Quiet t c)
    (hs : ClientTable.step w t c = .ok t') (hsize : t'.fwd.size < 2 ^ w) : t'.Serial := by
  cases hc : c.purgeBefore t with
  | some before =>
    obtain ⟨t₁, hloop, hfwd, -, hnext⟩ := step_purge_ok hc hs
    rw [purgeLoop_of_forall_not_lt (hq before hc)] at hloop
    cases hloop
    refine ⟨h.consistent.step hq hs, fun i e hi ↦ ?_, ?_⟩
    · rw [hnext]
      rw [hfwd] at hi
      exact h.below i e hi
    · rw [hnext, hfwd, h.count]
  | none =>
    cases c with
    | purge b => cases hc
    | onPurge now => cases hc
    | seek key now =>
      have hcons := h.consistent.step hq hs
      obtain ⟨⟨id, t₁⟩, hseek, rfl⟩ := map_ok hs
      obtain ⟨-, e, he, rfl⟩ | ⟨-, hfree, rfl⟩ := seek_ok hseek
      · refine ⟨hcons, fun i f hi ↦ ?_, ?_⟩
        · dsimp only at hi ⊢
          rw [OrdMap.get?_insert] at hi
          split at hi
          · rename_i heq
            rw [heq]
            exact h.below id e he
          · exact h.below i f hi
        · exact h.count.trans (OrdMap.size_insert_of_get?_eq_some he _).symm
      · have hnone := freeIdFrom_some hfree
        rw [freeId_of_below h.below] at hfree
        obtain rfl := Option.some.inj hfree
        dsimp only at hsize
        rw [OrdMap.size_insert_of_get?_eq_none hnone, ← h.count] at hsize
        have hup : (t.nextId + 1) % 2 ^ w = t.nextId + 1 := Nat.mod_eq_of_lt hsize
        refine ⟨hcons, fun i f hi ↦ ?_, ?_⟩
        · dsimp only at hi ⊢
          rw [hup]
          rw [OrdMap.get?_insert] at hi
          split at hi
          · omega
          · exact (h.below i f hi).trans (Nat.lt_succ_self _)
        · dsimp only
          rw [hup, OrdMap.size_insert_of_get?_eq_none hnone, h.count]

/-- Ids in sequence are as they should be. -/
theorem Serial.serves (h : t.Serial) (hb : t.Bounded) : t.Serves w := by
  constructor
  · intro key now
    rw [seek]
    cases hkey : t.rev.get? key with
    | none =>
      simp only [freeId_of_below h.below]
      exact ⟨_, rfl⟩
    | some id =>
      obtain ⟨e, he, -⟩ := (h.consistent key id).mp hkey
      simp only [he]
      exact ⟨_, rfl⟩
  · have hlt : ∀ a i, t.rev.get? a = some i → i < 65536 := by
      intro a i ha
      obtain ⟨e, he, -⟩ := (h.consistent a i).mp ha
      have hbelow := h.below i e he
      rw [h.count] at hbelow
      exact hbelow.trans_le (hb.trans (by decide))
    refine wireApart_iff.mpr fun a b i j ha hb hab heq ↦ ?_
    rw [Nat.mod_eq_of_lt (hlt a i ha), Nat.mod_eq_of_lt (hlt b j hb)] at heq
    subst heq
    -- an id has one entry, and an entry one address
    obtain ⟨e, he, rfl⟩ := (h.consistent a i).mp ha
    obtain ⟨f, hf, rfl⟩ := (h.consistent b i).mp hb
    rw [he, Option.some_inj] at hf
    exact hab (by rw [hf])

/-- **A purge that drops something leaves an address that `seek` aborts on.** -/
theorem Consistent.quiet_of_answers (h : t.Consistent) {c : Call}
    (hs : ClientTable.step w t c = .ok t')
    (hanswers : ∀ key now, ∃ r, t'.seek w key now = .ok r) : Quiet t c := by
  intro before hc p hp hlt
  obtain ⟨t₁, hloop, hfwd, hrev, -⟩ := step_purge_ok hc hs
  obtain ⟨⟨id, e⟩, hq, hqlt, hqrev⟩ := purgeLoop_leaves hloop h.pairwise ⟨p, hp, hlt⟩
  have hin : t'.rev.get? e.addr = some id := by
    rw [hrev, hqrev]
    exact (h e.addr id).mpr ⟨e, OrdMap.mem_entries.mp hq, rfl⟩
  have hgone : t'.fwd.get? id = none := by
    rw [hfwd]
    exact purgeLoop_gone hloop hq hqlt
  obtain ⟨r, hr⟩ := hanswers e.addr 0
  rw [ClientTable.seek, hin] at hr
  simp only [hgone] at hr
  cases hr

/-- One call is served exactly when it is quiet. -/
theorem Serial.serving_iff (h : t.Serial) (hb : t.Bounded) (hw : 16 ≤ w) {c : Call}
    (hroom : Leaves w Bounded t c) : Serving w t c ↔ Quiet t c := by
  have hsize : ∀ t', ClientTable.step w t c = .ok t' → t'.fwd.size < 2 ^ w := fun t' hs ↦
    (hroom t' hs).trans_lt
      ((show 65535 < 2 ^ 16 by decide).trans_le (Nat.pow_le_pow_right (by decide) hw))
  refine ⟨fun ⟨_, t', hs, hserves⟩ ↦ h.consistent.quiet_of_answers hs hserves.answers,
    fun hq ↦ ⟨h.serves hb, ?_⟩⟩
  obtain ⟨t', hs⟩ : ∃ t', ClientTable.step w t c = .ok t' := by
    cases hc : c.purgeBefore t with
    | some before =>
      obtain ⟨t', hs, -⟩ := step_of_quiet (w := w) hq hc
      exact ⟨t', hs⟩
    | none =>
      cases c with
      | purge b => cases hc
      | onPurge now => cases hc
      | seek key now =>
        obtain ⟨r, hr⟩ := (h.serves (w := w) hb).answers key now
        exact ⟨r.2, by rw [ClientTable.step, hr]; rfl⟩
  exact ⟨t', hs, (h.step hq hs (hsize t' hs)).serves (hroom t' hs)⟩

/-! ## Runs

What is known of one call is put together for all calls of a run, as far as it gets. -/

/-- **Distinct senders are distinct clients**, in every run with at most 65535 addresses in use:
`seek` finds an id for every address and the ids of `rev` differ on the wire, in every state,
exactly when no purge finds an expired entry; and whatever is purged, the search ends and the ids
differ on the wire exactly when no unknown address is sought while the low bits of the first unused
id belong to an address of `rev`. -/
theorem wireIds_distinct {w : Nat} (hw : 16 ≤ w) {now : TimePoint} {l : List Call}
    (hroom : Run.Along (step w) (Leaves w Bounded) (create now) l) :
    (Run.Along (step w) (Serving w) (create now) l ↔ Run.Along (step w) Quiet (create now) l) ∧
      (Run.Along (step w) (Leaves w fun t ↦ t.Terminates w ∧ t.WireApart) (create now) l ↔
        Run.Along (step w) (NoAlias w) (create now) l) := by
  constructor
  · refine Run.along_congr_of (I := fun t ↦ t.Serial ∧ t.Bounded)
      (fun t c h hc ↦ h.1.serving_iff h.2 hw hc) (fun t c t' h hc hq hs ↦ ?_)
      ⟨serial_create now, Nat.zero_le _⟩ hroom
    refine ⟨h.1.step hq hs ((hc t' hs).trans_lt ?_), hc t' hs⟩
    exact (show 65535 < 2 ^ 16 by decide).trans_le (Nat.pow_le_pow_right (by decide) hw)
  · refine Run.along_congr_of (I := fun t ↦ t.nextId < 2 ^ w ∧ t.WireApart)
      (fun t c h hc ↦ ?_) (fun t c t' h _ halias hs ↦
        ⟨nextId_lt_step h.1 hs, (leaves_wireApart_iff h.1 h.2).mpr halias t' hs⟩)
      ⟨Nat.two_pow_pos w, wireApart_create now⟩ hroom
    rw [← leaves_wireApart_iff h.1 h.2]
    refine forall₂_congr fun t' hs ↦ and_iff_right ?_
    exact (hc t' hs).terminates hw (nextId_lt_step h.1 hs)

/-- Two senders turn up, and the first is heard again. -/
def twoSought : List Call :=
  [.seek (.inet 1 5000) 0, .seek (.inet 2 5000) 0, .seek (.inet 1 5000) 1]

/-- On a platform with 64-bit ids. -/
theorem wireIds_distinct_two : Run.Along (step 64) Quiet (create 0) twoSought ∧
    (Run.Along (step 64) (Serving 64) (create 0) twoSought ↔
      Run.Along (step 64) Quiet (create 0) twoSought) ∧
    (Run.Along (step 64) (Leaves 64 fun t ↦ t.Terminates 64 ∧ t.WireApart) (create 0) twoSought ↔
      Run.Along (step 64) (NoAlias 64) (create 0) twoSought) := by
  have hquiet : ∀ (t : ClientTable) key now, Quiet t (.seek key now) := fun _ _ _ _ h ↦ by cases h
  have hroom : Run.Along (step 64) (Leaves 64 Bounded) (create 0) twoSought := by decide
  exact ⟨⟨hquiet _ _ _, fun _ _ ↦ ⟨hquiet _ _ _, fun _ _ ↦ ⟨hquiet _ _ _, fun _ _ ↦ trivial⟩⟩⟩,
    wireIds_distinct (by decide) hroom⟩

/-! ## A sender that stays

One address is sought all the time and keeps the id 0.  In round `k` the sender on host `k` turns
up, and the one of the round before is purged. -/

/-- The table between two rounds: the lasting sender and the latest visitor. -/
structure AfterRound (k : Nat) (t : ClientTable) : Prop where
  next : t.nextId = k + 1
  fwd : t.fwd.entries = [(0, ⟨.inet 0 5000, k⟩), (k, ⟨.inet k 5000, k⟩)]
  rev : t.rev.get? (.inet 0 5000) = some 0
  unknown : ∀ j, k < j → j < 2 ^ 24 → t.rev.get? (.inet j 5000) = none

/-- The same with the next visitor in the table. -/
structure InRound (k : Nat) (t : ClientTable) : Prop where
  next : t.nextId = k + 1
  fwd : ∃ v, t.fwd.entries = [(0, ⟨.inet 0 5000, k⟩), v, (k, ⟨.inet k 5000, k⟩)] ∧ 0 < v.1 ∧
    v.1 < k ∧ v.2.lastUsed < k
  rev : t.rev.get? (.inet 0 5000) = some 0
  visitor : t.rev.get? (.inet k 5000) = some k
  unknown : ∀ j, k < j → j < 2 ^ 24 → t.rev.get? (.inet j 5000) = none

theorem inet_ne {i j : Nat} (hij : i ≠ j) (hi : i < 2 ^ 24) (hj : j < 2 ^ 24) :
    SocketAddress.inet i 5000 ≠ .inet j 5000 :=
  fun h ↦ hij (SocketAddress.inet_injective hi hj h)

/-- The first half of a round: both senders are heard. -/
theorem AfterRound.seeks {k : Nat} {t : ClientTable} (h : AfterRound k t) (hk : 0 < k)
    (hlt : k + 1 < 2 ^ 24) :
    ∃ t', Run.Reach (step 64) (fun t _ ↦ t.Bounded) t t' ∧ InRound (k + 1) t' := by
  -- the lasting sender renews its entry
  obtain ⟨t₁, h₁, hnext₁, hfwd₁, hrev₁⟩ : ∃ t₁, step 64 t (.seek (.inet 0 5000) ↑(k + 1)) = .ok t₁ ∧
      t₁.nextId = t.nextId ∧ t₁.fwd.entries = [(0, ⟨.inet 0 5000, ↑(k + 1)⟩),
        (k, ⟨.inet k 5000, k⟩)] ∧ t₁.rev = t.rev := by
    have hget : t.fwd.get? 0 = some ⟨.inet 0 5000, k⟩ := by
      simp [OrdMap.get?, h.fwd, OrdMap.lookupEntry]
    refine ⟨{ t with fwd := t.fwd.insert 0 ⟨.inet 0 5000, ↑(k + 1)⟩ }, ?_, rfl, ?_, rfl⟩
    · rw [step, seek, h.rev]
      simp only [hget]
      rfl
    · simp [OrdMap.insert, h.fwd, OrdMap.insertEntry]
  -- the visitor gets the id at the counter
  have hunknown : t₁.rev.get? (.inet (k + 1) 5000) = none := by
    rw [hrev₁]
    exact h.unknown _ (by omega) hlt
  have hfree : t₁.freeId 64 = some (k + 1) := by
    rw [← h.next, ← hnext₁]
    refine freeId_of_get?_nextId ?_
    simp [OrdMap.get?, hfwd₁, OrdMap.lookupEntry, hnext₁, h.next]
  have h₂ : step 64 t₁ (.seek (.inet (k + 1) 5000) ↑(k + 1)) = .ok { t₁ with
      fwd := t₁.fwd.insert (k + 1) ⟨.inet (k + 1) 5000, ↑(k + 1)⟩
      rev := t₁.rev.insert (.inet (k + 1) 5000) (k + 1)
      nextId := (k + 1 + 1) % 2 ^ 64 } := by
    rw [step, seek, hunknown]
    simp only [hfree]
    rfl
  refine ⟨_, (Run.Reach.refl.tail ?_ h₁).tail ?_ h₂, ?_⟩
  · simp [Bounded, OrdMap.size, h.fwd]
  · simp [Bounded, OrdMap.size, hfwd₁]
  · constructor
    · exact Nat.mod_eq_of_lt (by omega)
    · refine ⟨(k, ⟨.inet k 5000, k⟩), ?_, hk, by simp, by simp⟩
      simp only [OrdMap.insert, hfwd₁, OrdMap.insertEntry]
      rw [if_neg (by omega), if_neg (by omega), if_neg (by omega), if_neg (by omega)]
    · show (t₁.rev.insert _ _).get? _ = _
      rw [OrdMap.get?_insert_of_ne _ (inet_ne (by omega) (by omega) hlt), hrev₁, h.rev]
    · exact OrdMap.get?_insert_self ..
    · intro j hj hj'
      show (t₁.rev.insert _ _).get? _ = _
      rw [OrdMap.get?_insert_of_ne _ (inet_ne (by omega) hj' hlt), hrev₁]
      exact h.unknown j (by omega) hj'

/-- The second half: the visitor of the round before has expired.  Its entry goes from `fwd`, and
the address of the present visitor from `rev`. -/
theorem InRound.purge {k : Nat} {t : ClientTable} (h : InRound k t) (hlt : k < 2 ^ 24) :
    ∃ t', Run.Reach (step 64) (fun t _ ↦ t.Bounded) t t' ∧ AfterRound k t' := by
  obtain ⟨v, hfwd, hpos, hvk, hexp⟩ := h.fwd
  have hb : t.Bounded := by simp [Bounded, OrdMap.size, hfwd]
  have hstep : step 64 t (.purge k) = .ok { t with
      fwd := t.fwd.erase v.1
      rev := t.rev.erase (.inet k 5000) } := by
    simp [step, ClientTable.purge, hfwd, purgeLoop, hexp]
  refine ⟨_, Run.Reach.refl.tail hb hstep, h.next, ?_, ?_, fun j hj hj' ↦ ?_⟩
  · simp [OrdMap.erase, OrdMap.filter, hfwd, hpos.ne, hvk.ne']
  · show (t.rev.erase _).get? _ = _
    rw [OrdMap.get?_erase_of_ne _ (inet_ne (by omega) (by omega) hlt), h.rev]
  · show (t.rev.erase _).get? _ = _
    rw [OrdMap.get?_erase_of_ne _ (inet_ne (by omega) hj' hlt), h.unknown j hj hj']

/-- Round after round, from an empty table. -/
theorem reach_afterRound (k : Nat) (hlt : k + 1 < 2 ^ 24) :
    ∃ t, Run.Reach (step 64) (fun t _ ↦ t.Bounded) (create 0) t ∧ AfterRound (k + 1) t := by
  induction k with
  | zero =>
    refine ⟨_, (Run.Reach.refl.tail (a := .seek (.inet 0 5000) 1) (by decide) rfl).tail
      (a := .seek (.inet 1 5000) 1) (by decide) rfl, rfl, rfl, rfl, fun j hj hj' ↦ ?_⟩
    show (((create 0).rev.insert _ _).insert _ _).get? _ = _
    rw [OrdMap.get?_insert_of_ne _ (inet_ne (by omega) hj' (by omega)),
      OrdMap.get?_insert_of_ne _ (inet_ne (by omega) hj' (by omega))]
    rfl
  | succ k ih =>
    obtain ⟨t, ht, hround⟩ := ih (by omega)
    obtain ⟨t₁, h₁, hin⟩ := hround.seeks (by omega) hlt
    obtain ⟨t₂, h₂, hafter⟩ := hin.purge hlt
    exact ⟨t₂, (ht.trans h₁).trans h₂, hafter⟩

/-- **The sixteen bits are not enough.**  With 64-bit ids and never more than three addresses in
the table, the sender that stays and the visitor of round 65536, both of them in use, are one client
on the wire. -/
theorem long_lived_sender_collides :
    ∃ t, Run.Reach (step 64) (fun t _ ↦ t.Bounded) (create 0) t ∧ t.Bounded ∧
      t.rev.get? (.inet 0 5000) = some 0 ∧ t.fwd.get? 0 = some ⟨.inet 0 5000, 65536⟩ ∧
      t.rev.get? (.inet 65536 5000) = some 65536 ∧
      t.fwd.get? 65536 = some ⟨.inet 65536 5000, 65536⟩ ∧
      SocketAddress.inet 0 5000 ≠ .inet 65536 5000 ∧
      fieldBytes maxClidBytes 0 = fieldBytes maxClidBytes 65536 ∧ wireClid 0 = wireClid 65536 := by
  obtain ⟨t, ht, hround⟩ := reach_afterRound 65534 (by decide)
  obtain ⟨t₁, h₁, hin⟩ := hround.seeks (by decide) (by decide)
  obtain ⟨v, hfwd, hpos, hvk, -⟩ := hin.fwd
  refine ⟨t₁, ht.trans h₁, ?_, hin.rev, ?_, hin.visitor, ?_, by decide, rfl, by
    rw [wireClid_eq, wireClid_eq]⟩
  · simp [Bounded, OrdMap.size, hfwd]
  · exact OrdMap.mem_entries.mp (by simp [hfwd])
  · exact OrdMap.mem_entries.mp (by simp [hfwd])

end ClientTable
end UdpTun
