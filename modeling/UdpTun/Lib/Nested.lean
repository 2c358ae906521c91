import UdpTun.Lib.OrdMap

/-!
# Maps of maps

A value can be filed under two keys, in a map whose values are maps.  C++ writes
`t[k].emplace(a, v)`, with the inner map made when it is needed, so none of the inner maps is empty.

`Filed t P` says that `t` holds what the relation `P` has, and that the outer keys are just those
that are needed for it.  `Filed.file` files one value, and `Filed.fileAll` several.
-/

set_option autoImplicit false

namespace OrdMap

variable {K A V : Type} [LinearOrder K] [LinearOrder A] {t : OrdMap K (OrdMap A V)}
  {P Q : K → A → V → Prop}

/-- The inner map of a key. -/
def contents (t : OrdMap K (OrdMap A V)) (k : K) : OrdMap A V := (t.get? k).getD .empty

/-- File a value under two keys. -/
def file (t : OrdMap K (OrdMap A V)) (k : K) (a : A) (v : V) : OrdMap K (OrdMap A V) :=
  t.modify k .empty fun m ↦ m.insert a v

/-- The values are those of `P`, and the inner maps are not empty. -/
structure Filed (t : OrdMap K (OrdMap A V)) (P : K → A → V → Prop) : Prop where
  mem : ∀ k a v, (t.contents k).get? a = some v ↔ P k a v
  present : ∀ k, (t.get? k).isSome ↔ ∃ a v, P k a v

theorem Filed.congr (h : Filed t P) (hPQ : ∀ k a v, Q k a v ↔ P k a v) : Filed t Q := by
  refine ⟨fun k a v ↦ ?_, fun k ↦ ?_⟩
  · rw [h.mem, hPQ]
  · rw [h.present]
    exact exists_congr fun a ↦ exists_congr fun v ↦ (hPQ k a v).symm

/-- The values under a key. -/
theorem Filed.mem_values (h : Filed t P) {k : K} {v : V} :
    v ∈ (t.contents k).entries.map Prod.snd ↔ ∃ a, P k a v := by
  rw [OrdMap.mem_values]
  exact exists_congr fun a ↦ h.mem k a v

/-- They come in the order of their inner keys. -/
theorem Filed.sorted_values (h : Filed t P) (k : K) (place : V → A)
    (hplace : ∀ a v, P k a v → place v = a) :
    ((t.contents k).entries.map Prod.snd).Pairwise fun v v' ↦ place v < place v' := by
  rw [List.pairwise_map]
  refine (t.contents k).sorted.imp_of_mem fun {p q} hp hq hlt ↦ ?_
  rw [hplace _ _ ((h.mem k p.1 p.2).mp (mem_entries.mp hp)),
    hplace _ _ ((h.mem k q.1 q.2).mp (mem_entries.mp hq))]
  exact hlt

theorem Filed.get?_eq (h : Filed t P) (k : K) :
    t.get? k = if (t.contents k).entries = [] then none else some (t.contents k) := by
  have hpresent := h.present k
  rw [contents] at *
  cases hk : t.get? k with
  | none => rfl
  | some m =>
    rw [hk] at hpresent
    obtain ⟨a, v, hv⟩ := hpresent.mp rfl
    have hmem := (h.mem k a v).mpr hv
    rw [contents, hk, Option.getD_some, ← mem_entries] at hmem
    rw [Option.getD_some, if_neg (List.ne_nil_of_mem hmem)]

theorem filed_empty : Filed (.empty : OrdMap K (OrdMap A V)) fun _ _ _ ↦ False :=
  ⟨fun _ _ _ ↦ ⟨nofun, False.elim⟩, fun _ ↦ ⟨nofun, fun ⟨_, _, h⟩ ↦ h.elim⟩⟩

/-- What is there already under both keys, if anything is, is the value itself. -/
theorem Filed.file (h : Filed t P) {k : K} {a : A} {v : V} (hsame : ∀ v', P k a v' → v' = v) :
    Filed (t.file k a v) fun k' a' v' ↦ P k' a' v' ∨ k' = k ∧ a' = a ∧ v' = v := by
  refine ⟨fun k' a' v' ↦ ?_, fun k' ↦ ?_⟩
  · rw [contents, OrdMap.file, get?_modify]
    split
    · rename_i hk
      subst hk
      rw [Option.getD_some, get?_insert]
      split
      · rename_i ha
        subst ha
        constructor
        · intro hv
          cases hv
          exact .inr ⟨rfl, rfl, rfl⟩
        · rintro (hP | ⟨-, -, rfl⟩)
          · rw [hsame v' hP]
          · rfl
      · rename_i ha
        refine (h.mem k' a' v').trans ⟨.inl, ?_⟩
        rintro (hP | ⟨-, heq, -⟩)
        · exact hP
        · exact absurd heq ha
    · rename_i hk
      refine (h.mem k' a' v').trans ?_
      simp [hk]
  · rw [OrdMap.file, get?_modify]
    split
    · rename_i hk
      exact iff_of_true rfl ⟨a, v, .inr ⟨hk, rfl, rfl⟩⟩
    · rename_i hk
      rw [h.present]
      simp [hk]

/-- **Several values are filed**, all of which are of a relation in which a value is determined by
its keys. -/
theorem Filed.fileAll {X : Type} (hQ : ∀ k a v v', Q k a v → Q k a v' → v = v') (h : Filed t P)
    (hP : ∀ k a v, P k a v → Q k a v) (key : X → K) (place : X → A) (value : X → V) {l : List X}
    (hl : ∀ x ∈ l, Q (key x) (place x) (value x)) :
    Filed (l.foldl (fun t x ↦ t.file (key x) (place x) (value x)) t)
      fun k a v ↦ P k a v ∨ ∃ x ∈ l, key x = k ∧ place x = a ∧ value x = v := by
  induction l generalizing t P with
  | nil => exact h.congr fun k a v ↦ by simp
  | cons x l ih =>
    rw [List.forall_mem_cons] at hl
    have hfirst := h.file fun v' hv' ↦ hQ _ _ _ _ (hP _ _ v' hv') hl.1
    refine (ih hfirst ?_ hl.2).congr fun k a v ↦ ?_
    · rintro k a v (hv | ⟨rfl, rfl, rfl⟩)
      · exact hP k a v hv
      · exact hl.1
    · simp only [List.exists_mem_cons_iff, or_assoc]
      exact or_congr_right (or_congr_left ⟨fun ⟨hk, ha, hv⟩ ↦ ⟨hk.symm, ha.symm, hv.symm⟩,
        fun ⟨hk, ha, hv⟩ ↦ ⟨hk.symm, ha.symm, hv.symm⟩⟩)

end OrdMap
