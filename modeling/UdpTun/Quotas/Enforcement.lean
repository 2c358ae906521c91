import UdpTun.Quotas.Accounts

/-!
# What the manager enforces

When there is more in the spill files than the quota allows, the manager is to have the oldest of
them discarded.  It looks for them in its index by age, and that is always empty:
`nothing_discarded`.

So the quota is kept to just when nothing need be done for it (`enforced_iff`): what is charged is
within the quota, or there are no files to discard anyway.
-/

set_option autoImplicit false

namespace UdpTun

open PayloadQueue (Call Use)

namespace Quota

/-- Of the rest of the account, a place in the index is no part. -/
theorem eraseFromSequence_eq (t : Quota) (user time : Nat) :
    t.eraseFromSequence user time =
      { t with ages := (t.eraseFromSequence user time).ages } := by
  rw [eraseFromSequence]
  split
  · rfl
  · split
    · rfl
    · split
      · rfl
      · split <;> rfl

/-- Reporting an age changes neither the total nor the quota. -/
theorem oldest_total (t : Quota) (user time : Nat) :
    (t.oldest user time).total = t.total ∧ (t.oldest user time).max = t.max := by
  rw [oldest]
  dsimp only
  split
  · exact ⟨rfl, rfl⟩
  · rw [eraseFromSequence_eq]
    split <;> exact ⟨rfl, rfl⟩

end Quota

namespace Shared

variable {s s' : Shared} {user : Nat} {q r : PayloadQueue} {a : Act} {log : List Removal}

/-! ## What is to be enforced

The condition speaks of the state before an act, and of what is about to be charged. -/

/-- No queue has a spill file. -/
def NoFiles (s : Shared) : Prop := ∀ user q, s.queues.get? user = some q → q.queueFns.entries = []

/-- The total is within the quota, or there is nothing left to discard. -/
def Enforced (s : Shared) : Prop := s.quota.total ≤ s.quota.max ∨ s.NoFiles

/-- What is discarded is the oldest there is, over all queues. -/
def OldestFirst (log : List Removal) : Prop :=
  ∀ x ∈ log, ∀ q p, x.before.queues.get? x.user = some q → q.queueFns.first? = some p →
    ∀ user q', x.before.queues.get? user = some q' → ∀ p' ∈ q'.queueFns.entries, p.1 ≤ p'.1

/-- `Quota::set` or `Quota::increase` is called.  No act calls them more than once, and what it
calls after `increase` changes neither the total nor any queue. -/
def Charges (s : Shared) : Act → Prop
  | .set _ | .create _ _ _ _ => True
  | .use user a =>
    ∃ q r l sz, s.queues.get? user = some q ∧ q.perform a = .ok (r, l) ∧ Call.increase sz ∈ l
  | .destroy _ _ => False

/-- What is charged is within the quota, or there are no files. -/
def Within (s : Shared) : Act → Prop
  | .set sz => s.quota.total ≤ sz ∨ s.NoFiles
  | .create _ _ files listing => Readable listing →
    s.quota.total + PayloadQueue.foundSize files listing ≤ s.quota.max ∨
      s.NoFiles ∧ ∀ fn ∈ listing, fileKey fn = none
  | .use user (.push arr _) => ∀ q, s.queues.get? user = some q →
    q.fitsMemory (sumLengths arr) = false →
      s.quota.total + (sumLengths arr + 2) ≤ s.quota.max ∨
        q.needsFile (sumLengths arr) = false ∧ s.NoFiles
  | .use _ _ | .destroy _ _ => True

/-- **Nothing is ever discarded.** -/
theorem nothing_discarded (h : Run.Reach advance Possible init s) (hposs : s.Possible a)
    (hstep : s.step a = .ok (s', log)) : log = [] := by
  have htracked : s.Tracked := h.invariant tracked_init fun t b u ht hb hu ↦ (ht.advance hb hu).2
  exact (htracked.led hposs hstep).1

/-! ## Files

A queue without files has discarded all it can.  This is the only way for a total above the quota to
be in order. -/

theorem noFiles_insert (hqueues : s'.queues = s.queues.insert user r)
    (hsame : ∀ q, s.queues.get? user = some q → q.queueFns.entries = r.queueFns.entries) :
    s'.NoFiles ↔ r.queueFns.entries = [] ∧ s.NoFiles := by
  constructor
  · intro hno
    have hr : r.queueFns.entries = [] :=
      hno user r (by rw [hqueues, OrdMap.get?_insert_self])
    refine ⟨hr, fun u q hq ↦ ?_⟩
    by_cases heq : u = user
    · rw [hsame q (heq ▸ hq), hr]
    · exact hno u q (by rwa [hqueues, OrdMap.get?_insert_of_ne _ heq])
  · rintro ⟨hr, hno⟩ u q hq
    rw [hqueues, OrdMap.get?_insert] at hq
    split at hq
    · rwa [← Option.some.inj hq]
    · exact hno u q hq

/-! ## Each kind of charge

There are three: setting the quota, making a queue that finds files, and a push that goes to a file.
-/

theorem placed_total (s : Shared) (user : Nat) (q : PayloadQueue) (sz : Nat) :
    (s.placed user q [.increase sz, .oldest 0]).quota.total = s.quota.total + sz ∧
      (s.placed user q [.increase sz, .oldest 0]).quota.max = s.quota.max :=
  Quota.oldest_total (s.quota.increase user sz) user 0

theorem Tracked.enforced_create (h : s.Tracked) {maxMem : Nat}
    {files : OrdMap FileName (List UInt8)} {listing : List FileName} {l : List Call}
    (hposs : s.Possible (.create user maxMem files listing))
    (hcreate : PayloadQueue.create maxMem files listing = .ok (q, l)) :
    (s.placed user q l).Enforced ↔
      s.quota.total + PayloadQueue.foundSize files listing ≤ s.quota.max ∨
        s.NoFiles ∧ ∀ fn ∈ listing, fileKey fn = none := by
  obtain ⟨hkept, e, hl, -⟩ := PayloadQueue.create_drift hposs.2 hcreate
  have hentries := PayloadQueue.entries_create hcreate
  obtain ⟨found, hscan, rfl, rfl⟩ := PayloadQueue.create_scan hcreate
  have hsum := PayloadQueue.scan_foundSize hscan
  rw [Nat.zero_add] at hsum
  have htimeless : ∀ c ∈ [Call.increase found.2.1, .oldest 0], Timeless c := by simp [Timeless]
  obtain ⟨-, hqueues, -⟩ := h.placed user hkept htimeless
  obtain ⟨htotal, hmax⟩ := placed_total s user (PayloadQueue.fresh maxMem found.1 files) found.2.1
  have hno := noFiles_insert hqueues fun q hq ↦ by
    rw [hposs.1] at hq
    cases hq
  rw [Enforced, hno, hentries, htotal, hmax, ← hsum, and_comm]

theorem Tracked.enforced_push (h : s.Tracked) (hq : s.queues.get? user = some q)
    {arr : List (List UInt8)} {now : Nat} (hfits : q.fitsMemory (sumLengths arr) = false) :
    (s.placed user (q.push arr now).1 (q.push arr now).2).Enforced ↔
      s.quota.total + (sumLengths arr + 2) ≤ s.quota.max ∨
        q.needsFile (sumLengths arr) = false ∧ s.NoFiles := by
  obtain ⟨hcalls, hfns⟩ := PayloadQueue.push_of_not_fits hfits now
  have htimeless : ∀ c ∈ (q.push arr now).2, Timeless c := by simp [hcalls, Timeless]
  obtain ⟨-, hqueues, -⟩ := h.placed user ((h.kept user q hq).push arr now) htimeless
  have hno : (s.placed user (q.push arr now).1 (q.push arr now).2).NoFiles ↔
      q.needsFile (sumLengths arr) = false ∧ s.NoFiles := by
    by_cases hneeds : q.needsFile (sumLengths arr)
    · rw [hneeds, if_pos rfl] at hfns
      refine iff_of_false (fun hno ↦ ?_) (by simp [hneeds])
      have hnil := hno user _ (by rw [hqueues, OrdMap.get?_insert_self])
      have hmem : (now, makeQueueFile now) ∈ (q.push arr now).1.queueFns.entries := by
        rw [hfns]
        exact OrdMap.mem_entries.mpr (OrdMap.get?_insert_self ..)
      rw [hnil] at hmem
      cases hmem
    · rw [if_neg hneeds] at hfns
      rw [eq_false_of_ne_true hneeds, noFiles_insert hqueues, hfns]
      · exact ⟨fun hno ↦ ⟨rfl, hno.2⟩, fun hno ↦ ⟨hno.2 user q hq, hno.2⟩⟩
      · intro q' hq'
        rw [hfns, Option.some.inj (hq'.symm.trans hq)]
  rw [Enforced, hno, hcalls]
  rfl

/-- **What is charged is enforced exactly when it is within the quota**, or there are no files. -/
theorem Tracked.enforced_iff (h : s.Tracked) (hposs : s.Possible a) :
    (∀ s' log, s.step a = .ok (s', log) → s.Charges a → s'.Enforced ∧ OldestFirst log) ↔
      s.Within a := by
  have hend : ∀ {t : Shared}, s.step a = .ok (t, []) →
      ((∀ s' log, s.step a = .ok (s', log) → s.Charges a → s'.Enforced ∧ OldestFirst log) ↔
        (s.Charges a → t.Enforced)) := by
    intro t ht
    constructor
    · exact fun hall hcharges ↦ (hall t [] ht hcharges).1
    · intro henforced s' log hstep hcharges
      obtain ⟨rfl, rfl⟩ := Prod.mk.inj (Except.ok.inj (ht.symm.trans hstep))
      exact ⟨henforced hcharges, fun x hx ↦ absurd hx List.not_mem_nil⟩
  cases a with
  | create user maxMem files listing =>
    by_cases hread : Readable listing
    · obtain ⟨q, l, hcreate⟩ := (readable_iff maxMem files listing).mp hread
      rw [hend (h.step_create hposs hcreate).1, h.enforced_create hposs hcreate]
      simp [Charges, Within, hread]
    · refine iff_of_true (fun s' log hstep ↦ ?_) fun hyes ↦ absurd hyes hread
      obtain ⟨-, hled, -⟩ := h.led hposs hstep
      cases hled with
      | create hcreate => exact absurd ((readable_iff ..).mpr ⟨_, _, hcreate⟩) hread
  | use user a =>
    cases hq : s.queues.get? user with
    | none =>
      refine iff_of_true (fun s' log hstep ↦ ?_) ?_
      · rw [step, hq] at hstep
        cases hstep
      · cases a <;> simp [Within, hq]
    | some q =>
      obtain ⟨r, l, hperform, hplaced, -⟩ := h.step_use hq a
      have hcharges : s.Charges (.use user a) ↔ ∃ sz, Call.increase sz ∈ l := by
        simp [Charges, hq, hperform]
      rw [hend hplaced, hcharges]
      by_cases hpush : ∃ arr now, a = .push arr now ∧ q.fitsMemory (sumLengths arr) = false
      · obtain ⟨arr, now, rfl, hfits⟩ := hpush
        obtain ⟨rfl, rfl⟩ : (q.push arr now).1 = r ∧ (q.push arr now).2 = l :=
          Prod.mk.inj (Except.ok.inj hperform)
        rw [h.enforced_push hq hfits, (PayloadQueue.push_of_not_fits hfits now).1]
        simp [Within, hq, hfits]
      · refine iff_of_true (fun hsays ↦ ?_) ?_
        · obtain ⟨sz, hsz⟩ := hsays
          exact absurd (says_perform hperform _ hsz) hpush
        cases a with
        | push arr now =>
          intro q' hq' hfits
          obtain rfl := Option.some.inj (hq.symm.trans hq')
          exact absurd ⟨arr, now, rfl, hfits⟩ hpush
        | peek | consume | unget pl | poke | flush n | discard => trivial
  | destroy user now =>
    refine iff_of_true (fun s' log _ hcharges ↦ ?_) trivial
    cases hcharges
  | set sz =>
    rw [hend (check_of_ages h.ages)]
    simp [Charges, Within, Enforced, NoFiles]

/-- **The quota is enforced all along a run exactly when nothing need be done for it.** -/
theorem quota_enforced_iff (l : List Act) :
    Run.Along advance (fun s a ↦ s.Possible a ∧ ∀ s' log, s.step a = .ok (s', log) →
        s.Charges a → s'.Enforced ∧ OldestFirst log) init l ↔
      Run.Along advance (fun s a ↦ s.Possible a ∧ s.Within a) init l :=
  Run.along_congr (fun _ _ h ↦ and_congr_right fun hposs ↦ h.enforced_iff hposs)
    (fun _ _ _ h ha ht ↦ (h.advance ha.1 ht).2) tracked_init l

/-- With six bytes in a spill file, the quota is set to five. -/
theorem quota_exceeded : ¬ ∀ s a s' log, Run.Reach advance Possible init s → s.Possible a →
    s.step a = .ok (s', log) → s.Charges a → s'.Enforced ∧ OldestFirst log := by
  have hrun : Run.Checks advance Possible init [.create 0 8 .empty [], .set 6,
      .use 0 (.push [[1, 2, 3, 4]] 1), .use 0 (.push [[5, 6, 7, 8]] 1)]
      fun s ↦ 5 < s.quota.total ∧ s.quota.ages.entries = [] ∧
        ∃ q ∈ s.queues.get? 0, q.queueFns.entries ≠ [] := by
    decide +kernel
  intro hall
  obtain ⟨s, hreach, htotal, hages, q, hq, hfiles⟩ := hrun.reach
  obtain ⟨henforced, -⟩ := hall s (.set 5) _ [] hreach trivial (check_of_ages hages) trivial
  rcases henforced with hle | hno
  · exact absurd hle (Nat.not_le.mpr htotal)
  · exact hfiles (hno 0 q hq)

end Shared
end UdpTun
