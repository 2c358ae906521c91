import UdpTun.ClientId

/-!
# Are the two maps inverse?

`ClientTable` relies on `fwd` and `rev` being inverse of each other (`Consistent`): `seek` asserts
that an id found in `rev` is in `fwd`.  `seek` keeps them so.  `purge` does not: having erased an
entry from `fwd` it takes the address to erase from `rev` off the *next* entry, so the address of
the first expired entry always stays behind in `rev`, and when the last entry has expired it is
the end of the map that gets read.

`Upholds` says what a call should do, for any caller: maps inverse before and after, no failing
assertion, nothing read past the end, and a purge that drops exactly what has expired.
`upholds_iff_quiet` finds that in a consistent table a call lives up to it exactly when it is no
purge that finds something to drop, and `inverse_iff_quiet` takes this to whole runs.
-/

set_option autoImplicit false

namespace UdpTun
namespace ClientTable

/-- `fwd` and `rev` are mutually inverse. -/
def Consistent (t : ClientTable) : Prop :=
  ∀ a id, t.rev.get? a = some id ↔ ∃ e, t.fwd.get? id = some e ∧ e.addr = a

/-- `t'` is `t` without the entries last used before `before`, in both maps. -/
structure PurgedExactly (before : TimePoint) (t t' : ClientTable) : Prop where
  /-- What is left of `fwd`. -/
  fwd : ∀ id e, t'.fwd.get? id = some e ↔ t.fwd.get? id = some e ∧ before ≤ e.lastUsed
  /-- What is left of `rev`. -/
  rev : ∀ a id, t'.rev.get? a = some id ↔
    t.rev.get? a = some id ∧ ∃ e, t.fwd.get? id = some e ∧ before ≤ e.lastUsed
  /-- An address last sought at or after `before` keeps its id. -/
  keeps : ∀ a id e, t.rev.get? a = some id → t.fwd.get? id = some e → before ≤ e.lastUsed →
    t'.rev.get? a = some id

/-- What a call on the table `t` is supposed to do. -/
structure Upholds (w : Nat) (t : ClientTable) (c : Call) : Prop where
  /-- The maps are inverse before the call. -/
  before : t.Consistent
  /-- The maps are inverse after it. -/
  after : ∀ t', step w t c = .ok t' → t'.Consistent
  /-- The assertion of `seek` does not fail. -/
  asserts : step w t c ≠ .error (.assertion .seekFpos)
  /-- No entry past the end is touched. -/
  inside : step w t c ≠ .error .undefined
  /-- The address sought has an entry of its own, used just now; the other entries are as before. -/
  sought : ∀ key now t', c = .seek key now → step w t c = .ok t' →
    ∃ id, t'.rev.get? key = some id ∧ t'.fwd.get? id = some ⟨key, now⟩ ∧
      ∀ i, i ≠ id → t'.fwd.get? i = t.fwd.get? i
  /-- A purge ends, and drops exactly the expired entries. -/
  purged : ∀ before, c.purgeBefore t = some before →
    ∃ t', step w t c = .ok t' ∧ PurgedExactly before t t'

/-- The call is no purge that finds an expired entry. -/
def Quiet (t : ClientTable) (c : Call) : Prop :=
  ∀ before, c.purgeBefore t = some before → ∀ p ∈ t.fwd.entries, ¬ p.2.lastUsed < before

variable {w : Nat} {t : ClientTable}

/-! ## Seeking

Both branches of `seek` keep the maps inverse, provided that the id it takes is free; and that is
what it searches for. -/

/-- An address has one id. -/
theorem Consistent.id_unique (h : t.Consistent) {i j : Nat} {e f : ClientEntry}
    (hi : t.fwd.get? i = some e) (hj : t.fwd.get? j = some f) (hef : e.addr = f.addr) : i = j := by
  have h1 := (h e.addr i).mpr ⟨e, hi, rfl⟩
  have h2 := (h e.addr j).mpr ⟨f, hj, hef.symm⟩
  exact Option.some_inj.mp (h1.symm.trans h2)

theorem create_consistent (now : TimePoint) : (create now).Consistent := by
  intro a id
  simp [create]

/-- Renewing an entry keeps its address, so the maps stay inverse. -/
theorem Consistent.renew (h : t.Consistent) {id : Nat} {e : ClientEntry}
    (he : t.fwd.get? id = some e) (now : TimePoint) :
    ({ t with fwd := t.fwd.insert id { e with lastUsed := now } } : ClientTable).Consistent := by
  intro a i
  rw [h a i, OrdMap.get?_insert]
  by_cases hi : i = id
  · subst hi
    simp [he]
  · simp [hi]

/-- Adding an unknown address under a free id keeps the maps inverse. -/
theorem Consistent.add (h : t.Consistent) {key : SocketAddress} {id : Nat}
    (hkey : t.rev.get? key = none) (hid : t.fwd.get? id = none) (now : TimePoint) (next : Nat) :
    ({ t with
      fwd := t.fwd.insert id { addr := key, lastUsed := now }
      rev := t.rev.insert key id
      nextId := next } : ClientTable).Consistent := by
  intro a i
  show (t.rev.insert key id).get? a = _ ↔ ∃ e, (t.fwd.insert id _).get? i = _ ∧ _
  rw [OrdMap.get?_insert, OrdMap.get?_insert]
  by_cases ha : a = key
  · subst ha
    by_cases hi : i = id
    · simp [hi]
    · have hno : ¬ ∃ e, t.fwd.get? i = some e ∧ e.addr = a := by
        rw [← h a i, hkey]
        simp
      simpa [hi, Ne.symm hi] using hno
  · by_cases hi : i = id
    · subst hi
      have hno : ¬ t.rev.get? a = some i := by
        rw [h a i, hid]
        simp
      simpa [ha, Ne.symm ha] using hno
    · simpa [ha, hi] using h a i

/-- **What `seek` does** to a consistent table, unless it never returns. -/
theorem Consistent.seek (h : t.Consistent) (key : SocketAddress) (now : TimePoint) :
    t.seek w key now = .error .diverges ∨
      ∃ id t', t.seek w key now = .ok (id, t') ∧ t'.Consistent ∧
        t'.rev.get? key = some id ∧ t'.fwd.get? id = some ⟨key, now⟩ ∧
        ∀ i, i ≠ id → t'.fwd.get? i = t.fwd.get? i := by
  rw [ClientTable.seek]
  cases hkey : t.rev.get? key with
  | some id =>
    obtain ⟨e, he, rfl⟩ := (h key id).mp hkey
    refine .inr ⟨id, _, by simp only [he], h.renew he now, hkey, ?_, fun i hi ↦ ?_⟩
    · exact OrdMap.get?_insert_self ..
    · exact OrdMap.get?_insert_of_ne _ hi _
  | none =>
    cases hfree : t.freeId w with
    | none => exact .inl rfl
    | some id =>
      have hid := freeIdFrom_some hfree
      refine .inr ⟨id, _, rfl, h.add hkey hid now _, ?_, ?_, fun i hi ↦ ?_⟩
      · exact OrdMap.get?_insert_self ..
      · exact OrdMap.get?_insert_self ..
      · exact OrdMap.get?_insert_of_ne _ hi _

/-! ## Purging

In a run of expired entries, the address that is erased is always that of the next entry.  So the
first one stays behind, unless nothing has expired at all. -/

/-- A purge that finds nothing to drop leaves the maps alone. -/
theorem step_of_quiet {c : Call} (hq : Quiet t c) {before : TimePoint}
    (hc : c.purgeBefore t = some before) :
    ∃ t', step w t c = .ok t' ∧ t'.fwd = t.fwd ∧ t'.rev = t.rev := by
  have hloop := purgeLoop_of_forall_not_lt (t := t) (hq before hc)
  cases c with
  | seek key now => cases hc
  | purge b => cases hc; exact ⟨t, hloop, rfl, rfl⟩
  | onPurge now =>
    cases hc
    exact ⟨{ t with lastPurge := now }, by rw [step, onPurge, purge, hloop], rfl, rfl⟩

/-- **The defect.**  If the loop gets through a list with an expired entry, one such entry's
address is still what it was in `rev`. -/
theorem purgeLoop_leaves {before : TimePoint} {l : List (Nat × ClientEntry)} {t t' : ClientTable}
    (h : purgeLoop before l t = .ok t')
    (hdistinct : l.Pairwise fun p q ↦ p.2.addr ≠ q.2.addr)
    (hexp : ∃ p ∈ l, p.2.lastUsed < before) :
    ∃ p ∈ l, p.2.lastUsed < before ∧ t'.rev.get? p.2.addr = t.rev.get? p.2.addr := by
  induction l with
  | nil => obtain ⟨p, hp, -⟩ := hexp; cases hp
  | cons p l ih =>
    obtain ⟨hp, hl⟩ := List.pairwise_cons.mp hdistinct
    obtain ⟨hlt, q, hq, hrest⟩ | ⟨hlt, hrest⟩ := purgeLoop_cons h
    · -- the first expired entry: only addresses further on are erased
      refine ⟨p, List.mem_cons_self .., hlt, ?_⟩
      rw [purgeLoop_rev hrest fun r hr ↦ (hp r hr).symm]
      exact OrdMap.get?_erase_of_ne _ (hp q hq)
    · have hexp' : ∃ q ∈ l, q.2.lastUsed < before := by
        obtain ⟨q, hq, hqlt⟩ := hexp
        rcases List.mem_cons.mp hq with rfl | hq
        · exact absurd hqlt hlt
        · exact ⟨q, hq, hqlt⟩
      obtain ⟨r, hr, hrlt, hrev⟩ := ih hrest hl hexp'
      exact ⟨r, List.mem_cons_of_mem _ hr, hrlt, hrev⟩

/-- The addresses of a consistent table are all different. -/
theorem Consistent.pairwise (h : t.Consistent) :
    t.fwd.entries.Pairwise fun p q ↦ p.2.addr ≠ q.2.addr := by
  refine t.fwd.sorted.imp_of_mem fun {p q} hp hq hlt heq ↦ ?_
  have hid := h.id_unique (OrdMap.mem_entries.mp hp) (OrdMap.mem_entries.mp hq) heq
  exact absurd hid hlt.ne

/-- A purge that drops exactly what has expired had nothing to drop. -/
theorem quiet_of_purged (h : t.Consistent) {c : Call}
    (hp : ∀ before, c.purgeBefore t = some before →
      ∃ t', step w t c = .ok t' ∧ PurgedExactly before t t') : Quiet t c := by
  intro before hc p hpmem hlt
  obtain ⟨t', ht', hexact⟩ := hp before hc
  obtain ⟨t₁, hloop, -, hrev, -⟩ := step_purge_ok hc ht'
  obtain ⟨⟨id, e⟩, hq, hqlt, hqrev⟩ := purgeLoop_leaves hloop h.pairwise ⟨p, hpmem, hlt⟩
  have he := OrdMap.mem_entries.mp hq
  have hin : t.rev.get? e.addr = some id := (h e.addr id).mpr ⟨e, he, rfl⟩
  rw [← hqrev, ← hrev] at hin
  obtain ⟨-, f, hf, hle⟩ := (hexact.rev e.addr id).mp hin
  rw [he, Option.some_inj] at hf
  subst hf
  exact absurd hqlt (not_lt.mpr hle)

/-! ## Calls and runs

One call is decided by what has expired before it, and a run by each of its calls. -/

theorem step_seek_cases (h : t.Consistent) (key : SocketAddress) (now : TimePoint) :
    step w t (.seek key now) = .error .diverges ∨
      ∃ id t', step w t (.seek key now) = .ok t' ∧ t'.Consistent ∧
        t'.rev.get? key = some id ∧ t'.fwd.get? id = some ⟨key, now⟩ ∧
        ∀ i, i ≠ id → t'.fwd.get? i = t.fwd.get? i := by
  rcases h.seek (w := w) key now with hs | ⟨id, t', hs, hrest⟩
  · exact .inl (by rw [step, hs]; rfl)
  · exact .inr ⟨id, t', by rw [step, hs]; rfl, hrest⟩

/-- A quiet call keeps the maps inverse. -/
theorem Consistent.step (h : t.Consistent) {c : Call} (hq : Quiet t c) {t' : ClientTable}
    (hs : step w t c = .ok t') : t'.Consistent := by
  cases hc : c.purgeBefore t with
  | some before =>
    obtain ⟨t₁, h₁, hfwd, hrev⟩ := step_of_quiet (w := w) hq hc
    rw [hs] at h₁
    cases h₁
    intro a id
    rw [hfwd, hrev]
    exact h a id
  | none =>
    cases c with
    | seek key now =>
      rcases step_seek_cases (w := w) h key now with he | ⟨id, t₁, h₁, hcons, -⟩
      · rw [hs] at he; cases he
      · rw [hs] at h₁; cases h₁; exact hcons
    | purge b => cases hc
    | onPurge now => cases hc

/-- With nothing expired, dropping what has expired is leaving the maps alone. -/
theorem purgedExactly_of_quiet (h : t.Consistent) {before : TimePoint} {t' : ClientTable}
    (hq : ∀ p ∈ t.fwd.entries, ¬ p.2.lastUsed < before) (hfwd : t'.fwd = t.fwd)
    (hrev : t'.rev = t.rev) : PurgedExactly before t t' := by
  have hlive : ∀ id e, t.fwd.get? id = some e → before ≤ e.lastUsed :=
    fun id e he ↦ not_lt.mp (hq (id, e) (OrdMap.mem_entries.mpr he))
  refine ⟨fun id e ↦ ?_, fun a id ↦ ?_, fun a id e ha _ _ ↦ by rw [hrev]; exact ha⟩
  · rw [hfwd]
    exact ⟨fun he ↦ ⟨he, hlive id e he⟩, And.left⟩
  · rw [hrev]
    refine ⟨fun ha ↦ ⟨ha, ?_⟩, And.left⟩
    obtain ⟨e, he, -⟩ := (h a id).mp ha
    exact ⟨e, he, hlive id e he⟩

/-- **One call lives up to its description exactly when it is quiet.** -/
theorem upholds_iff_quiet (h : t.Consistent) {c : Call} : Upholds w t c ↔ Quiet t c := by
  refine ⟨fun hu ↦ quiet_of_purged h hu.purged, fun hq ↦ ?_⟩
  have hafter : ∀ t', ClientTable.step w t c = .ok t' → t'.Consistent := fun t' ht' ↦ h.step hq ht'
  cases hc : c.purgeBefore t with
  | some before =>
    obtain ⟨t₁, h₁, hfwd, hrev⟩ := step_of_quiet (w := w) hq hc
    refine ⟨h, hafter, by simp [h₁], by simp [h₁], ?_, fun b hb ↦ ?_⟩
    · rintro key now t' rfl
      cases hc
    · rw [hc] at hb
      cases hb
      exact ⟨t₁, h₁, purgedExactly_of_quiet h (hq before hc) hfwd hrev⟩
  | none =>
    cases c with
    | purge b => cases hc
    | onPurge now => cases hc
    | seek key now =>
      rcases step_seek_cases (w := w) h key now with he | ⟨id, t₁, h₁, -, hsought⟩
      · refine ⟨h, hafter, by simp [he], by simp [he], fun _ _ t' _ ht' ↦ ?_,
          fun _ hb ↦ by cases hb⟩
        rw [he] at ht'
        cases ht'
      · refine ⟨h, hafter, by simp [h₁], by simp [h₁], fun _ _ t' hk ht' ↦ ?_,
          fun _ hb ↦ by cases hb⟩
        cases hk
        rw [h₁] at ht'
        cases ht'
        exact ⟨id, hsought⟩

/-- **Over a whole run**, every call does what it should exactly when no purge ever finds an
expired entry. -/
theorem inverse_iff_quiet (w : Nat) (now : TimePoint) (l : List Call) :
    Run.Along (step w) (Upholds w) (create now) l ↔ Run.Along (step w) Quiet (create now) l :=
  Run.along_congr (fun _ _ h ↦ upholds_iff_quiet h) (fun _ _ _ h hq hs ↦ h.step hq hs)
    (create_consistent now) l

/-- Two senders, of which the first falls silent and is purged while the second is kept: when the
first one sends again the assertion in `seek` fails. -/
theorem purge_then_seek_aborts :
    Run.exec (step 64) (create 0)
        [.seek (.inet 1 5000) 0, .seek (.inet 2 5000) 5, .purge 3, .seek (.inet 1 5000) 6] =
      .error (.assertion .seekFpos) ∧
    ¬ Run.Along (step 64) (Upholds 64) (create 0)
        [.seek (.inet 1 5000) 0, .seek (.inet 2 5000) 5, .purge 3, .seek (.inet 1 5000) 6] := by
  refine ⟨rfl, fun h ↦ ?_⟩
  exact (((h.2 _ rfl).2 _ rfl).2 _ rfl).1.asserts rfl

end ClientTable
end UdpTun
