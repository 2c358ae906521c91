import UdpTun.Lib.OrdMap
import Mathlib.Logic.Function.Basic
import Mathlib.Data.List.TakeWhile

/-!
# Buckets

A map from keys to sets, such as `std::map<K, std::set<E>>`, often stands beside a field in each
element that says in which of the sets it is.  `Indexes m f` is that the two agree: `e` is in the
bucket of `k` exactly when `f e` is `k`.  So each element is in one bucket at most.

The operations keep it: `put` and `drop` an element, `eraseKey` a bucket, `filterKeys` to keep only
some of the buckets.
-/

set_option autoImplicit false

namespace OrdMap

variable {K E : Type} [LinearOrder K]

/-- The set of a key, empty if there is none. -/
def bucket (m : OrdMap K (List E)) (k : K) : List E := (m.get? k).getD []

/-- The buckets agree with the field `f`. -/
def Indexes (m : OrdMap K (List E)) (f : E → Option K) : Prop :=
  ∀ k e, e ∈ m.bucket k ↔ f e = some k

theorem mem_bucket {m : OrdMap K (List E)} {k : K} {e : E} :
    e ∈ m.bucket k ↔ ∃ l, (k, l) ∈ m.entries ∧ e ∈ l := by
  simp only [bucket, mem_entries]
  cases m.get? k <;> simp

variable {m : OrdMap K (List E)} {f : E → Option K}

theorem indexes_empty : (empty : OrdMap K (List E)).Indexes fun _ ↦ none := by
  intro k e
  simp [bucket]

theorem Indexes.congr (h : m.Indexes f) {g : E → Option K} (hfg : ∀ e, g e = f e) :
    m.Indexes g := by
  intro k e
  rw [hfg, h k e]

/-! ## Whole buckets

Buckets are dropped when none of their elements is to be in any. -/

theorem Indexes.filterKeys (h : m.Indexes f) (p : K → Bool) :
    (m.filter fun k _ ↦ p k).Indexes fun e ↦ (f e).filter p := by
  intro k e
  have hbucket : e ∈ (m.filter fun k _ ↦ p k).bucket k ↔ e ∈ m.bucket k ∧ p k := by
    rw [bucket, bucket, get?_filter]
    cases m.get? k with
    | none => simp
    | some l => by_cases hp : p k <;> simp [hp, Option.filter]
  rw [hbucket, h k e, Option.filter_eq_some_iff]

theorem Indexes.eraseKey (h : m.Indexes f) (k : K) :
    (m.erase k).Indexes fun e ↦ if f e = some k then none else f e := by
  intro k' e
  rw [bucket, get?_erase]
  by_cases hk : k' = k
  · subst hk
    by_cases he : f e = some k' <;> simp [he]
  · rw [if_neg hk, ← bucket, h k' e]
    by_cases he : f e = some k
    · simp [he, Ne.symm hk]
    · simp [he]

/-! ## Empty buckets

An empty bucket says nothing about any element.  The first one that is not empty has the elements
that come first in the order of the keys. -/

/-- Drop the buckets at the front that are empty. -/
def dropEmpty (m : OrdMap K (List E)) : OrdMap K (List E) :=
  ⟨m.entries.dropWhile fun p ↦ p.2.isEmpty, m.sorted.sublist (List.dropWhile_sublist _)⟩

theorem mem_dropEmpty {k : K} {e : E} : e ∈ m.dropEmpty.bucket k ↔ e ∈ m.bucket k := by
  rw [mem_bucket, mem_bucket]
  refine exists_congr fun l ↦ and_congr_left fun he ↦
    ⟨fun hl ↦ (List.dropWhile_sublist _).subset hl, fun hl ↦ ?_⟩
  rw [← List.takeWhile_append_dropWhile (p := fun p : K × List E ↦ p.2.isEmpty) (l := m.entries),
    List.mem_append] at hl
  refine hl.resolve_left fun hfront ↦ ?_
  have hempty : l = [] := by
    simpa using List.mem_takeWhile_imp (p := fun p : K × List E ↦ p.2.isEmpty) hfront
  rw [hempty] at he
  cases he

theorem Indexes.dropEmpty (h : m.Indexes f) : m.dropEmpty.Indexes f := fun k e ↦
  mem_dropEmpty.trans (h k e)

/-- What comes first then is the first bucket that is not empty. -/
theorem first?_dropEmpty {k : K} {l : List E} (h : m.dropEmpty.first? = some (k, l)) :
    (∃ e, e ∈ m.bucket k) ∧ ∀ k' e, e ∈ m.bucket k' → k ≤ k' := by
  rw [first?] at h
  obtain ⟨rest, hentries⟩ := List.head?_eq_some_iff.mp h
  constructor
  · have hne : ¬ l.isEmpty := by
      have hhead := List.head?_dropWhile_not (fun p : K × List E ↦ p.2.isEmpty) m.entries
      rw [show (m.entries.dropWhile fun p ↦ p.2.isEmpty) = _ from hentries] at hhead
      simpa using hhead
    rw [List.isEmpty_iff] at hne
    obtain ⟨e, he⟩ := List.exists_mem_of_ne_nil l hne
    refine ⟨e, mem_dropEmpty.mp (mem_bucket.mpr ⟨l, ?_, he⟩)⟩
    rw [hentries]
    exact List.mem_cons_self ..
  · intro k' e he
    obtain ⟨l', hl', -⟩ := mem_bucket.mp (mem_dropEmpty.mpr he)
    have hsorted := m.dropEmpty.sorted
    rw [hentries] at hl' hsorted
    rcases List.mem_cons.mp hl' with heq | htail
    · exact (Prod.mk.inj heq).1.ge
    · exact ((List.pairwise_cons.mp hsorted).1 _ htail).le

theorem first?_dropEmpty_none (h : m.dropEmpty.first? = none) (k : K) (e : E) :
    e ∉ m.bucket k := by
  intro he
  obtain ⟨l, hl, -⟩ := mem_bucket.mp (mem_dropEmpty.mpr he)
  rw [first?, List.head?_eq_none_iff] at h
  rw [h] at hl
  cases hl

/-! ## Single elements

Putting and dropping concern one bucket.  The field of the element has to change along with it. -/

variable [DecidableEq E]

/-- `m[k].insert(e)`. -/
def put (m : OrdMap K (List E)) (k : K) (e : E) : OrdMap K (List E) :=
  m.modify k [] fun l ↦ l.insert e

/-- `m[k].erase(e)`. -/
def drop (m : OrdMap K (List E)) (k : K) (e : E) : OrdMap K (List E) :=
  m.modify k [] fun l ↦ l.filter (· ≠ e)

theorem mem_put {m : OrdMap K (List E)} {k k' : K} {e e' : E} :
    e' ∈ (m.put k e).bucket k' ↔ (k' = k ∧ e' = e) ∨ e' ∈ m.bucket k' := by
  rw [bucket, put, get?_modify]
  by_cases hk : k' = k
  · subst hk
    simp [bucket]
  · simp [bucket, hk]

theorem mem_drop {m : OrdMap K (List E)} {k k' : K} {e e' : E} :
    e' ∈ (m.drop k e).bucket k' ↔ ¬ (k' = k ∧ e' = e) ∧ e' ∈ m.bucket k' := by
  rw [bucket, drop, get?_modify]
  by_cases hk : k' = k
  · subst hk
    simp [bucket, and_comm]
  · simp [bucket, hk]

theorem bucket_drop (m : OrdMap K (List E)) (k : K) (e : E) :
    (m.drop k e).bucket k = (m.bucket k).filter (· ≠ e) := by
  rw [bucket, drop, get?_modify, if_pos rfl]
  rfl

theorem Indexes.put (h : m.Indexes f) {k : K} {e : E} (hf : ∀ k', f e = some k' → k' = k) :
    (m.put k e).Indexes (Function.update f e (some k)) := by
  intro k' e'
  rw [mem_put, h k' e']
  by_cases he : e' = e
  · subst he
    rw [Function.update_self, Option.some_inj]
    constructor
    · rintro (⟨rfl, -⟩ | hk')
      · rfl
      · exact (hf k' hk').symm
    · rintro rfl
      exact .inl ⟨rfl, rfl⟩
  · rw [Function.update_of_ne he]
    simp [he]

theorem Indexes.drop (h : m.Indexes f) {k : K} {e : E} (hf : ∀ k', f e = some k' → k' = k) :
    (m.drop k e).Indexes (Function.update f e none) := by
  intro k' e'
  rw [mem_drop, h k' e']
  by_cases he : e' = e
  · subst he
    rw [Function.update_self]
    simp only [and_true, reduceCtorEq, iff_false, not_and]
    intro hne hk'
    exact hne (hf k' hk')
  · rw [Function.update_of_ne he]
    simp [he]

/-! ## Elements with a state

The field is often part of a larger state `ev e` of each element, of which `F` reads it. -/

section State

variable {S : Type} {F : S → Option K} {ev : E → S}

omit [LinearOrder K] in
theorem field_update (F : S → Option K) (ev : E → S) (e : E) (v : S) :
    (fun e' ↦ F (Function.update ev e v e')) = Function.update (fun e' ↦ F (ev e')) e (F v) := by
  funext e'
  by_cases he : e' = e
  · subst he
    rw [Function.update_self, Function.update_self]
  · rw [Function.update_of_ne he, Function.update_of_ne he]

/-- The state of an element changes, but not the field. -/
theorem Indexes.update (h : m.Indexes fun e ↦ F (ev e)) {e : E} {v : S} (hv : F v = F (ev e)) :
    m.Indexes fun e' ↦ F (Function.update ev e v e') := by
  rw [field_update, hv]
  exact h.congr fun e' ↦ congrFun (Function.update_eq_self e fun e' ↦ F (ev e')) e'

/-- An element that is in no other bucket is put in one. -/
theorem Indexes.put_update (h : m.Indexes fun e ↦ F (ev e)) {k : K} {e : E} {v : S}
    (hf : ∀ k', F (ev e) = some k' → k' = k) (hv : F v = some k) :
    (m.put k e).Indexes fun e' ↦ F (Function.update ev e v e') := by
  rw [field_update, hv]
  exact h.put hf

/-- An element is dropped from the bucket it is in. -/
theorem Indexes.drop_update (h : m.Indexes fun e ↦ F (ev e)) {k : K} {e : E} {v : S}
    (hf : ∀ k', F (ev e) = some k' → k' = k) (hv : F v = none) :
    (m.drop k e).Indexes fun e' ↦ F (Function.update ev e v e') := by
  rw [field_update, hv]
  exact h.drop hf

/-- An element is moved from the bucket it is in to another. -/
theorem Indexes.move_update (h : m.Indexes fun e ↦ F (ev e)) {k k' : K} {e : E} {v : S}
    (hf : ∀ k', F (ev e) = some k' → k' = k) (hv : F v = some k') :
    ((m.drop k e).put k' e).Indexes fun e' ↦ F (Function.update ev e v e') := by
  rw [field_update, hv]
  have hmove := (h.drop hf).put (k := k') (e := e) (by simp)
  rwa [Function.update_idem] at hmove

end State

end OrdMap
