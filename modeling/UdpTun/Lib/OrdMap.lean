import Mathlib.Algebra.Order.Ring.Nat
import Mathlib.Data.List.Basic
import Mathlib.Order.Basic
import Mathlib.Tactic.Common

/-!
# Ordered maps

`OrdMap K V` is a finite map kept as a list of entries in strictly increasing order of key: what a
balanced search tree looks like from outside, when it is walked from its first entry to its last.
The order is a field of the structure, so a map with a repeated or misplaced key cannot be built.

* `OrdMap.get?` reads a key, `OrdMap.insert` writes one (replacing what was there) and
  `OrdMap.erase` drops one; `get?_insert` and `get?_erase` say what each of them does to a read.
* `OrdMap.filter` keeps the entries that pass a test, in order.
* `OrdMap.mem_entries` passes between the entries seen by a walk and the values seen by a read,
  and `OrdMap.ext_get?` says that the reads determine the map.
* `OrdMap.total` adds up a measure of the entries.

The empty-by-default maps of sets that a program keeps (`m[k].insert(x)`, `m[k].erase(x)`) are
covered by `OrdMap.modify`, which reads a missing key as a given default.
-/

set_option autoImplicit false

/-- A finite map, as the list of its entries in increasing order of key. -/
structure OrdMap (K V : Type) [LinearOrder K] where
  /-- The entries, first to last. -/
  entries : List (K × V)
  /-- The keys increase along the list. -/
  sorted : entries.Pairwise fun p q ↦ p.1 < q.1

namespace OrdMap

variable {K V : Type} [LinearOrder K]

/-! ## Operations on entry lists

The list is sorted by a strict order, which is kept by all that is done to it.  What a read gives is
shown by induction on the list. -/

/-- The value the list gives to a key. -/
def lookupEntry (k : K) : List (K × V) → Option V
  | [] => none
  | (k', v) :: l => if k = k' then some v else lookupEntry k l

/-- Put a value at a key's place in the order, over the one that is there. -/
def insertEntry (k : K) (v : V) : List (K × V) → List (K × V)
  | [] => [(k, v)]
  | (k', v') :: l =>
    if k < k' then (k, v) :: (k', v') :: l
    else if k = k' then (k, v) :: l
    else (k', v') :: insertEntry k v l

theorem mem_insertEntry {k : K} {v : V} {l : List (K × V)} {p : K × V}
    (h : p ∈ insertEntry k v l) : p = (k, v) ∨ p ∈ l := by
  induction l with
  | nil => simpa [insertEntry] using h
  | cons q l ih =>
    obtain ⟨k', v'⟩ := q
    rw [insertEntry] at h
    split at h
    · simpa using h
    · split at h
      · rcases List.mem_cons.mp h with h | h
        · exact .inl h
        · exact .inr (List.mem_cons_of_mem _ h)
      · rcases List.mem_cons.mp h with h | h
        · exact .inr (by simp [h])
        · exact (ih h).imp_right (List.mem_cons_of_mem _)

theorem insertEntry_sorted (k : K) (v : V) {l : List (K × V)}
    (h : l.Pairwise fun p q ↦ p.1 < q.1) :
    (insertEntry k v l).Pairwise fun p q ↦ p.1 < q.1 := by
  induction l with
  | nil => simp [insertEntry]
  | cons q l ih =>
    obtain ⟨k', v'⟩ := q
    obtain ⟨hq, hl⟩ := List.pairwise_cons.mp h
    rw [insertEntry]
    split
    · rename_i hlt
      refine List.pairwise_cons.mpr ⟨fun p hp ↦ ?_, h⟩
      rcases List.mem_cons.mp hp with rfl | hp
      · exact hlt
      · exact hlt.trans (hq p hp)
    · split
      · rename_i heq
        subst heq
        exact List.pairwise_cons.mpr ⟨hq, hl⟩
      · rename_i hnlt hne
        refine List.pairwise_cons.mpr ⟨fun p hp ↦ ?_, ih hl⟩
        rcases mem_insertEntry hp with rfl | hp
        · exact lt_of_le_of_ne (not_lt.mp hnlt) (Ne.symm hne)
        · exact hq p hp

theorem lookupEntry_insertEntry (k k' : K) (v : V) (l : List (K × V)) :
    lookupEntry k' (insertEntry k v l) = if k' = k then some v else lookupEntry k' l := by
  induction l with
  | nil => simp [insertEntry, lookupEntry]
  | cons q l ih =>
    obtain ⟨k₁, v₁⟩ := q
    rw [insertEntry]
    split
    · simp [lookupEntry]
    · split
      · rename_i heq
        subst heq
        by_cases hk : k' = k <;> simp [lookupEntry, hk]
      · rename_i _ hne
        rw [lookupEntry, lookupEntry, ih]
        by_cases hk : k' = k₁
        · subst hk
          simp [Ne.symm hne]
        · simp [hk]

/-- In a sorted list a read finds exactly the entries of the list. -/
theorem lookupEntry_eq_some {k : K} {v : V} {l : List (K × V)}
    (h : l.Pairwise fun p q ↦ p.1 < q.1) : lookupEntry k l = some v ↔ (k, v) ∈ l := by
  induction l with
  | nil => simp [lookupEntry]
  | cons q l ih =>
    obtain ⟨k', v'⟩ := q
    obtain ⟨hq, hl⟩ := List.pairwise_cons.mp h
    rw [lookupEntry, List.mem_cons, Prod.mk.injEq]
    by_cases hk : k = k'
    · subst hk
      rw [if_pos rfl, Option.some_inj]
      constructor
      · rintro rfl
        exact .inl ⟨rfl, rfl⟩
      · rintro (⟨-, rfl⟩ | hmem)
        · rfl
        · exact absurd (hq _ hmem) (lt_irrefl _)
    · rw [if_neg hk, ih hl]
      simp [hk]

/-- Two sorted lists that read the same are the same. -/
theorem eq_of_lookupEntry_eq {l₁ l₂ : List (K × V)}
    (h₁ : l₁.Pairwise fun p q ↦ p.1 < q.1) (h₂ : l₂.Pairwise fun p q ↦ p.1 < q.1)
    (h : ∀ k, lookupEntry k l₁ = lookupEntry k l₂) : l₁ = l₂ := by
  have hmem : ∀ p, p ∈ l₁ ↔ p ∈ l₂ := by
    rintro ⟨k, v⟩
    rw [← lookupEntry_eq_some h₁, ← lookupEntry_eq_some h₂, h k]
  have hnd : ∀ {l : List (K × V)}, l.Pairwise (fun p q ↦ p.1 < q.1) → l.Nodup :=
    fun hl ↦ hl.imp fun hlt heq ↦ absurd (heq ▸ hlt) (lt_irrefl _)
  refine List.Perm.eq_of_pairwise (fun p q _ _ hpq hqp ↦ absurd hqp (not_lt.mpr hpq.le)) h₁ h₂ ?_
  exact (List.perm_ext_iff_of_nodup (hnd h₁) (hnd h₂)).mpr hmem

/-! ## The map

From here on the list is not seen any more, except through `entries`, for walks.  Each operation has
a lemma about what it does to a read, for `simp` to use. -/

/-- The map with no entries. -/
def empty : OrdMap K V := ⟨[], List.Pairwise.nil⟩

/-- The value at a key. -/
def get? (m : OrdMap K V) (k : K) : Option V := lookupEntry k m.entries

/-- The number of entries. -/
def size (m : OrdMap K V) : Nat := m.entries.length

/-- The first entry in the order. -/
def first? (m : OrdMap K V) : Option (K × V) := m.entries.head?

/-- Write a value at a key. -/
def insert (m : OrdMap K V) (k : K) (v : V) : OrdMap K V :=
  ⟨insertEntry k v m.entries, insertEntry_sorted k v m.sorted⟩

/-- Keep the entries that pass a test. -/
def filter (m : OrdMap K V) (p : K → V → Bool) : OrdMap K V :=
  ⟨m.entries.filter fun e ↦ p e.1 e.2, m.sorted.filter _⟩

/-- Drop a key. -/
def erase (m : OrdMap K V) (k : K) : OrdMap K V := m.filter fun k' _ ↦ !decide (k' = k)

/-- Change the value at a key, a missing one being read as `d`. -/
def modify (m : OrdMap K V) (k : K) (d : V) (f : V → V) : OrdMap K V :=
  m.insert k (f ((m.get? k).getD d))

/-- Write a value at a key that has none. -/
def tryEmplace (m : OrdMap K V) (k : K) (v : V) : OrdMap K V :=
  if (m.get? k).isSome then m else m.insert k v

theorem mem_entries {m : OrdMap K V} {k : K} {v : V} :
    (k, v) ∈ m.entries ↔ m.get? k = some v :=
  (lookupEntry_eq_some m.sorted).symm

theorem mem_values {m : OrdMap K V} {v : V} :
    v ∈ m.entries.map Prod.snd ↔ ∃ k, m.get? k = some v := by
  rw [List.mem_map]
  exact ⟨fun ⟨p, hp, hv⟩ ↦ ⟨p.1, hv ▸ mem_entries.mp hp⟩,
    fun ⟨k, hk⟩ ↦ ⟨(k, v), mem_entries.mpr hk, rfl⟩⟩

theorem ext_get? {m m' : OrdMap K V} (h : ∀ k, m.get? k = m'.get? k) : m = m' := by
  obtain ⟨l, hl⟩ := m
  obtain ⟨l', hl'⟩ := m'
  obtain rfl := eq_of_lookupEntry_eq hl hl' h
  rfl

theorem eq_empty {m : OrdMap K V} (h : m.entries = []) : m = empty := by
  obtain ⟨l, hl⟩ := m
  subst h
  rfl

@[simp] theorem get?_empty (k : K) : (empty : OrdMap K V).get? k = none := rfl

theorem get?_insert (m : OrdMap K V) (k k' : K) (v : V) :
    (m.insert k v).get? k' = if k' = k then some v else m.get? k' :=
  lookupEntry_insertEntry k k' v m.entries

@[simp] theorem get?_insert_self (m : OrdMap K V) (k : K) (v : V) :
    (m.insert k v).get? k = some v := by
  rw [get?_insert, if_pos rfl]

theorem get?_insert_of_ne (m : OrdMap K V) {k k' : K} (h : k' ≠ k) (v : V) :
    (m.insert k v).get? k' = m.get? k' := by
  rw [get?_insert, if_neg h]

theorem get?_filter (m : OrdMap K V) (p : K → V → Bool) (k : K) :
    (m.filter p).get? k = (m.get? k).filter (p k) := by
  have h : ∀ v, (m.filter p).get? k = some v ↔ (m.get? k).filter (p k) = some v := by
    intro v
    rw [← mem_entries, Option.filter_eq_some_iff, ← mem_entries]
    exact List.mem_filter
  cases hg : (m.get? k).filter (p k) with
  | some v => exact (h v).mpr hg
  | none =>
    cases hf : (m.filter p).get? k with
    | none => rfl
    | some v => rw [(h v).mp hf] at hg; cases hg

theorem get?_erase (m : OrdMap K V) (k k' : K) :
    (m.erase k).get? k' = if k' = k then none else m.get? k' := by
  rw [erase, get?_filter]
  by_cases h : k' = k <;> cases m.get? k' <;> simp [h, Option.filter]

@[simp] theorem get?_erase_self (m : OrdMap K V) (k : K) : (m.erase k).get? k = none := by
  rw [get?_erase, if_pos rfl]

theorem get?_erase_of_ne (m : OrdMap K V) {k k' : K} (h : k' ≠ k) :
    (m.erase k).get? k' = m.get? k' := by
  rw [get?_erase, if_neg h]

theorem get?_modify (m : OrdMap K V) (k k' : K) (d : V) (f : V → V) :
    (m.modify k d f).get? k' = if k' = k then some (f ((m.get? k).getD d)) else m.get? k' :=
  get?_insert m k k' _

theorem get?_tryEmplace (m : OrdMap K V) (k k' : K) (v : V) :
    (m.tryEmplace k v).get? k' = (m.get? k').or (if k' = k then some v else none) := by
  rw [tryEmplace]
  split
  · rename_i hsome
    split
    · rename_i heq
      rw [heq, Option.or_of_isSome hsome]
    · rw [Option.or_none]
  · rename_i hnone
    rw [get?_insert]
    split
    · rename_i heq
      rw [heq, Option.not_isSome_iff_eq_none.mp hnone, Option.none_or]
    · rw [Option.or_none]

/-- The entries of one map, each changed, put into another where there is room. -/
theorem get?_foldl_tryEmplace {W : Type} (m : OrdMap K W) (f : W → V) (t : OrdMap K V) (k : K) :
    (m.entries.foldl (fun t p ↦ t.tryEmplace p.1 (f p.2)) t).get? k =
      (t.get? k).or ((m.get? k).map f) := by
  show _ = (t.get? k).or ((lookupEntry k m.entries).map f)
  induction m.entries generalizing t with
  | nil => exact Option.or_none.symm
  | cons p l ih =>
    rw [List.foldl_cons, ih, get?_tryEmplace, Option.or_assoc, lookupEntry]
    congr 1
    split
    · rfl
    · exact Option.none_or

/-- Dropping the first key leaves the rest of the walk. -/
theorem entries_erase_first {m : OrdMap K V} {k : K} {v : V} {l : List (K × V)}
    (h : m.entries = (k, v) :: l) : (m.erase k).entries = l := by
  have hs := m.sorted
  rw [h, List.pairwise_cons] at hs
  show m.entries.filter _ = l
  rw [h, List.filter_cons]
  simp only [decide_true, Bool.not_true, Bool.false_eq_true, if_false]
  refine List.filter_eq_self.mpr fun p hp ↦ ?_
  simpa using (hs.1 p hp).ne'

/-- A key above all the others goes to the end of the walk. -/
theorem entries_insert_last {m : OrdMap K V} {k : K} (v : V)
    (h : ∀ p ∈ m.entries, p.1 < k) : (m.insert k v).entries = m.entries ++ [(k, v)] := by
  have key : ∀ l : List (K × V), (∀ p ∈ l, p.1 < k) → insertEntry k v l = l ++ [(k, v)] := by
    intro l
    induction l with
    | nil => intro; rfl
    | cons q l ih =>
      intro hl
      have hq : q.1 < k := hl q (List.mem_cons_self ..)
      rw [insertEntry, if_neg hq.not_gt, if_neg hq.ne',
        ih fun p hp ↦ hl p (List.mem_cons_of_mem _ hp)]
      rfl
  exact key m.entries h

/-- Dropping the keys of another map, one after another. -/
theorem foldl_erase {W : Type} (m : OrdMap K V) (m' : OrdMap K W) :
    m'.entries.foldl (fun t p ↦ t.erase p.1) m = m.filter fun k _ ↦ (m'.get? k).isNone := by
  have key : ∀ (l : List (K × W)) (t : OrdMap K V) (k : K),
      (l.foldl (fun t p ↦ t.erase p.1) t).get? k =
        (t.get? k).filter fun _ ↦ (lookupEntry k l).isNone := by
    intro l
    induction l with
    | nil =>
      intro t k
      rw [List.foldl_nil, lookupEntry]
      cases t.get? k <;> rfl
    | cons p l ih =>
      intro t k
      rw [List.foldl_cons, ih, get?_erase, lookupEntry]
      split
      · cases t.get? k <;> rfl
      · rfl
  refine ext_get? fun k ↦ ?_
  rw [key, get?_filter]
  rfl

/-- Writing one value at the keys of another map, one after another. -/
theorem get?_foldl_insert_const {W : Type} (m : OrdMap K V) (m' : OrdMap K W) (v : V) (k : K) :
    (m'.entries.foldl (fun t p ↦ t.insert p.1 v) m).get? k =
      ((m'.get? k).map fun _ ↦ v).or (m.get? k) := by
  show _ = ((lookupEntry k m'.entries).map fun _ ↦ v).or (m.get? k)
  induction m'.entries generalizing m with
  | nil => rfl
  | cons p l ih =>
    rw [List.foldl_cons, ih, get?_insert, lookupEntry]
    split
    · cases lookupEntry k l <;> rfl
    · rfl

/-- Writing values at keys, one after another; the last one at a key counts. -/
theorem get?_foldl_insert (m : OrdMap K V) (l : List (K × V)) (k : K) :
    (l.foldl (fun t p ↦ t.insert p.1 p.2) m).get? k =
      ((l.reverse.find? (·.1 = k)).map Prod.snd).or (m.get? k) := by
  induction l generalizing m with
  | nil => rfl
  | cons p l ih =>
    rw [List.foldl_cons, ih, get?_insert, List.reverse_cons, List.find?_append]
    cases l.reverse.find? (·.1 = k) with
    | some q => rfl
    | none =>
      by_cases hk : k = p.1
      · simp [hk]
      · simp [hk, Ne.symm hk]

/-- Copying the entries that pass a test, one after another. -/
theorem foldl_insert (m : OrdMap K V) (f : K × V → Bool) :
    m.entries.foldl (fun t p ↦ if f p then t.insert p.1 p.2 else t) .empty =
      m.filter fun k v ↦ f (k, v) := by
  have key : ∀ (l : List (K × V)) (t : OrdMap K V), l.Pairwise (fun p q ↦ p.1 < q.1) →
      (∀ p ∈ t.entries, ∀ q ∈ l, p.1 < q.1) →
        (l.foldl (fun t p ↦ if f p then t.insert p.1 p.2 else t) t).entries =
          t.entries ++ l.filter f := by
    intro l
    induction l with
    | nil => exact fun t _ _ ↦ (List.append_nil _).symm
    | cons q l ih =>
      intro t hl ht
      rw [List.pairwise_cons] at hl
      have hq : ∀ p ∈ t.entries, p.1 < q.1 := fun p hp ↦ ht p hp q (List.mem_cons_self ..)
      have hrest : ∀ p ∈ t.entries, ∀ q ∈ l, p.1 < q.1 :=
        fun p hp q hq ↦ ht p hp q (List.mem_cons_of_mem _ hq)
      rw [List.foldl_cons, List.filter_cons]
      split
      · rw [ih _ hl.2 ?_, entries_insert_last _ hq, List.append_assoc]
        · rfl
        · rw [entries_insert_last _ hq]
          intro p hp
          rcases List.mem_append.mp hp with hp | hp
          · exact hrest p hp
          · rw [List.mem_singleton.mp hp]
            exact hl.1
      · exact ih t hl.2 hrest
  have hentries := key m.entries .empty m.sorted nofun
  refine ext_get? fun k ↦ ?_
  rw [get?, hentries]
  rfl

/-- A key below all the others goes to the front of the walk. -/
theorem entries_insert_first {m : OrdMap K V} {k : K} (v : V)
    (h : ∀ p ∈ m.entries, k < p.1) : (m.insert k v).entries = (k, v) :: m.entries := by
  show insertEntry k v m.entries = _
  cases hentries : m.entries with
  | nil => rfl
  | cons q l =>
    have hq : k < q.1 := h q (by simp [hentries])
    rw [insertEntry, if_pos hq]

/-- The entry that an iterator at the key `k` moves on to. -/
def next? (m : OrdMap K V) (k : K) : Option (K × V) := m.entries.find? fun p ↦ decide (k < p.1)

theorem next?_eq {m : OrdMap K V} {l l' : List (K × V)} {k : K} {v : V}
    (h : m.entries = l ++ (k, v) :: l') : m.next? k = l'.head? := by
  have hs := m.sorted
  rw [h, List.pairwise_append, List.pairwise_cons] at hs
  obtain ⟨-, ⟨hafter, -⟩, hbefore⟩ := hs
  have hnone : l.find? (fun p ↦ decide (k < p.1)) = none := by
    refine List.find?_eq_none.mpr fun p hp ↦ ?_
    simpa using (hbefore p hp _ (List.mem_cons_self ..)).le
  rw [next?, h, List.find?_append, hnone, Option.none_or, List.find?_cons_of_neg (by simp)]
  cases l' with
  | nil => rfl
  | cons p l' =>
    rw [List.find?_cons_of_pos (by simpa using hafter p (List.mem_cons_self ..)), List.head?_cons]

/-- The entry of the largest key is the last of the walk. -/
theorem entries_of_largest {m : OrdMap K V} {k : K} {v : V} (hk : (k, v) ∈ m.entries)
    (h : ∀ p ∈ m.entries, p.1 ≤ k) : ∃ l, m.entries = l ++ [(k, v)] ∧ ∀ p ∈ l, p.1 < k := by
  obtain ⟨l, l', heq⟩ := List.append_of_mem hk
  have hs := m.sorted
  rw [heq, List.pairwise_append, List.pairwise_cons] at hs
  have hnil : l' = [] := by
    refine List.eq_nil_iff_forall_not_mem.mpr fun p hp ↦ ?_
    exact absurd (hs.2.1.1 p hp) (not_lt.mpr (h p (by simp [heq, hp])))
  subst hnil
  exact ⟨l, heq, fun p hp ↦ hs.2.2 p hp _ (List.mem_cons_self ..)⟩

/-! ## Adding up over a map

A sum over the entries is what most accounts come to.  Writing and erasing a key change it by what
the key counts for. -/

/-- The sum of a measure over the entries. -/
def total (m : OrdMap K V) (f : K → V → Nat) : Nat := (m.entries.map fun p ↦ f p.1 p.2).sum

variable {f g : K → V → Nat} {m : OrdMap K V} {k : K} {v : V}

theorem nodup_entries (m : OrdMap K V) : m.entries.Nodup :=
  m.sorted.imp fun hlt heq ↦ absurd (heq ▸ hlt) (lt_irrefl _)

theorem total_congr (h : ∀ k v, m.get? k = some v → f k v = g k v) : m.total f = m.total g := by
  rw [total, total]
  congr 1
  exact List.map_congr_left fun p hp ↦ h p.1 p.2 (mem_entries.mp hp)

/-- An entry that is written counts for itself, and the others for what they did. -/
theorem total_insert (m : OrdMap K V) (k : K) (v : V) (f : K → V → Nat) :
    (m.insert k v).total f = (m.erase k).total f + f k v := by
  have hnot : (k, v) ∉ (m.erase k).entries := by simp [mem_entries]
  have hperm : (m.insert k v).entries.Perm ((k, v) :: (m.erase k).entries) := by
    refine (List.perm_ext_iff_of_nodup (nodup_entries _)
      (List.nodup_cons.mpr ⟨hnot, nodup_entries _⟩)).mpr ?_
    rintro ⟨k', v'⟩
    rw [List.mem_cons, mem_entries, mem_entries, get?_insert, get?_erase, Prod.mk.injEq]
    by_cases hk : k' = k <;> simp [hk, eq_comm]
  rw [total, (hperm.map _).sum_nat, List.map_cons, List.sum_cons, Nat.add_comm, total]

theorem total_erase (h : m.get? k = some v) : m.total f = (m.erase k).total f + f k v := by
  have hsame : m.insert k v = m := by
    refine ext_get? fun k' ↦ ?_
    rw [get?_insert]
    split
    · rename_i hk
      rw [hk, h]
    · rfl
  rw [← total_insert, hsame]

theorem erase_of_get?_eq_none (h : m.get? k = none) : m.erase k = m := by
  refine ext_get? fun k' ↦ ?_
  rw [get?_erase]
  split
  · rename_i hk
    rw [hk, h]
  · rfl

theorem size_eq_total (m : OrdMap K V) : m.size = m.total fun _ _ ↦ 1 := by
  simp [size, total]

/-- A new key is one more. -/
theorem size_insert_of_get?_eq_none (h : m.get? k = none) (v : V) :
    (m.insert k v).size = m.size + 1 := by
  rw [size_eq_total, total_insert, erase_of_get?_eq_none h, size_eq_total]

/-- A key that is there is not counted again. -/
theorem size_insert_of_get?_eq_some {v : V} (h : m.get? k = some v) (v' : V) :
    (m.insert k v').size = m.size := by
  rw [size_eq_total, total_insert, size_eq_total, total_erase h]

end OrdMap
