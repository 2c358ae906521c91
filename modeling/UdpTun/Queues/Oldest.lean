import UdpTun.Queues.Balance

/-!
# The oldest of the listed files

The quota manager is to know the key of a queue's oldest file, or zero if there is none.  The only
thing it is ever told is zero, so this is right just as long as nothing is listed, or a file whose
key is zero: `Kept.zeroKept` says which operations leave it so.
-/

set_option autoImplicit false

namespace UdpTun
namespace PayloadQueue

variable {q r : PayloadQueue} {calls : List Call}

/-- The smallest key of the listed files, or zero when there is none. -/
def oldestKey (q : PayloadQueue) : Nat :=
  match q.queueFns.first? with
  | none => 0
  | some p => p.1

theorem oldestKey_of_entries (h : q.queueFns.entries = r.queueFns.entries) :
    q.oldestKey = r.oldestKey := by
  rw [oldestKey, oldestKey, OrdMap.first?, OrdMap.first?, h]

theorem oldestKey_eq_zero :
    q.oldestKey = 0 ↔ q.queueFns.entries = [] ∨ q.queueFns.get? 0 ≠ none := by
  rw [oldestKey, OrdMap.first?]
  cases hentries : q.queueFns.entries with
  | nil => simp
  | cons p rest =>
    simp only [List.head?_cons, List.cons_ne_nil, false_or]
    constructor
    · intro hzero
      have hmem : (0, p.2) ∈ q.queueFns.entries := by simp [hentries, ← hzero]
      rw [OrdMap.mem_entries.mp hmem]
      exact Option.some_ne_none _
    · intro hne
      obtain ⟨fn, hget⟩ := Option.ne_none_iff_exists'.mp hne
      have hmem := OrdMap.mem_entries.mpr hget
      have hs := q.queueFns.sorted
      rw [hentries] at hmem hs
      rcases List.mem_cons.mp hmem with rfl | hrest
      · rfl
      · exact absurd (List.rel_of_pairwise_cons hs hrest) (Nat.not_lt_zero _)

/-- Past the first, no key is zero. -/
theorem oldestKey_of_suffix {p : Nat × FileName} {rest : List (Nat × FileName)}
    (hes : q.queueFns.entries = p :: rest) (hr : r.queueFns.entries <:+ rest) :
    r.oldestKey = 0 ↔ r.queueFns.entries = [] := by
  rw [oldestKey, OrdMap.first?]
  cases hentries : r.queueFns.entries with
  | nil => simp
  | cons p' rest' =>
    have hmem : p' ∈ rest := hr.subset (by simp [hentries])
    have hs := q.queueFns.sorted
    rw [hes] at hs
    have hlt := List.rel_of_pairwise_cons hs hmem
    simp only [List.head?_cons, List.cons_ne_nil, iff_false]
    omega

theorem loadHeadFile_suffix {es : List (Nat × FileName)} (hes : q.queueFns.entries = es) :
    (loadHeadFile es q).2.1.queueFns.entries <:+ es.tail := by
  induction es generalizing q with
  | nil =>
    show q.queueFns.entries <:+ _
    rw [hes]
    exact List.suffix_rfl
  | cons p rest ih =>
    have hrest : (q.loadFile p.1 p.2).1.queueFns.entries = rest := OrdMap.entries_erase_first hes
    rw [loadHeadFile]
    dsimp only
    split
    · exact (ih hrest).trans (List.tail_suffix rest)
    · rw [hrest]
      exact List.suffix_rfl

/-- All files are loaded when there is nothing to load in any but the last. -/
theorem Kept.loadHeadFile_entries {es : List (Nat × FileName)} (h : q.Kept)
    (hes : q.queueFns.entries = es) (hqueue : q.queue = []) :
    (PayloadQueue.loadHeadFile es q).2.1.queueFns.entries = [] ↔
      ∀ p ∈ es.dropLast, Payload.load (q.diskBytes p.2) = none := by
  induction es generalizing q with
  | nil =>
    show q.queueFns.entries = [] ↔ _
    simp [hes]
  | cons p rest ih =>
    have hload := h.loadFile (OrdMap.mem_entries.mp (by simp [hes]) :
      q.queueFns.get? p.1 = some p.2)
    have hrest : (q.loadFile p.1 p.2).1.queueFns.entries = rest := OrdMap.entries_erase_first hes
    have hempty := loadFile_isEmpty hqueue p.1 p.2
    rw [PayloadQueue.loadHeadFile]
    dsimp only
    split
    · rename_i hnil
      have hothers : ∀ p' ∈ rest.dropLast,
          (q.loadFile p.1 p.2).1.diskBytes p'.2 = q.diskBytes p'.2 := fun p' hp' ↦
        (h.diskBytes_loadFile hes (List.dropLast_subset _ hp')).1
      rw [ih hload hrest (List.isEmpty_iff.mp hnil)]
      cases rest with
      | nil => simp
      | cons p₁ rest =>
        rw [List.dropLast_cons_cons, List.forall_mem_cons, iff_true_intro (hempty.mp hnil),
          true_and]
        exact forall₂_congr fun p' hp' ↦ by rw [hothers p' hp']
    · rename_i hne
      rw [hrest]
      cases rest with
      | nil => simp
      | cons p₁ rest =>
        rw [List.dropLast_cons_cons, List.forall_mem_cons, ← hempty]
        simp [hne]

/-- After the operation, either no file is listed or one of key zero is, if it was so before. -/
def ZeroKept (q : PayloadQueue) : Use → Prop
  | .push arr now =>
    q.fitsMemory (sumLengths arr) = false → q.needsFile (sumLengths arr) = true →
      now = 0 ∨ q.queueFns.get? 0 ≠ none
  | .peek | .poke =>
    q.queue = [] → ∀ p ∈ q.queueFns.entries.dropLast, Payload.load (q.diskBytes p.2) = none
  | .discard => q.queueFns.size ≤ 1
  | .consume | .unget _ | .flush _ => True

theorem zeroKept_push (hzero : q.oldestKey = 0) (arr : List (List UInt8)) (now : Nat) :
    (q.push arr now).1.oldestKey = 0 ↔ q.ZeroKept (.push arr now) := by
  rw [ZeroKept, PayloadQueue.push]
  by_cases hfits : q.fitsMemory (sumLengths arr)
  · rw [if_pos hfits, hfits]
    have hfns : (q.pushMemory arr).1.queueFns.entries = q.queueFns.entries := by simp
    rw [oldestKey_of_entries hfns]
    exact iff_of_true hzero fun hno ↦ by cases hno
  · rw [if_neg hfits, eq_false_of_ne_true hfits]
    by_cases hneeds : q.needsFile (sumLengths arr)
    · have hfns : ((q.newFile now).appendFile arr).1.queueFns =
          q.queueFns.insert now (makeQueueFile now) := by simp
      have hne : (q.queueFns.insert now (makeQueueFile now)).entries ≠ [] := by
        have hmem : (now, makeQueueFile now) ∈
            (q.queueFns.insert now (makeQueueFile now)).entries :=
          OrdMap.mem_entries.mpr (OrdMap.get?_insert_self ..)
        exact List.ne_nil_of_mem hmem
      rw [if_pos hneeds, oldestKey_eq_zero, hfns, hneeds, OrdMap.get?_insert]
      by_cases hnow : now = 0
      · simp [hnow]
      · simp [hne, hnow, Ne.symm hnow]
    · rw [if_neg hneeds]
      have hfns : (q.appendFile arr).1.queueFns.entries = q.queueFns.entries := by simp
      rw [oldestKey_of_entries hfns]
      exact iff_of_true hzero fun _ hyes ↦ absurd hyes hneeds

theorem Kept.zeroKept_peek (h : q.Kept) (hzero : q.oldestKey = 0) :
    q.peek.2.1.oldestKey = 0 ↔ q.ZeroKept .peek := by
  rw [ZeroKept, PayloadQueue.peek]
  by_cases hqueue : q.queue = []
  · have hall := h.loadHeadFile_entries rfl hqueue
    have hkey : (PayloadQueue.loadHeadFile q.queueFns.entries q).2.1.oldestKey = 0 ↔
        (PayloadQueue.loadHeadFile q.queueFns.entries q).2.1.queueFns.entries = [] := by
      cases hes : q.queueFns.entries with
      | nil =>
        show q.oldestKey = 0 ↔ q.queueFns.entries = []
        simp [hzero, hes]
      | cons p rest => exact oldestKey_of_suffix hes (loadHeadFile_suffix hes)
    rw [if_pos (List.isEmpty_iff.mpr hqueue), ← hall, ← hkey]
    dsimp only
    split
    · simp only [hqueue, true_implies]
    · simp only [hqueue, true_implies]
      rfl
  · rw [if_neg (mt List.isEmpty_iff.mp hqueue)]
    exact iff_of_true hzero fun hnil ↦ absurd hnil hqueue

theorem zeroKept_discard (hzero : q.oldestKey = 0) (h : q.discardFile = .ok (r, calls)) :
    r.oldestKey = 0 ↔ q.ZeroKept .discard := by
  rw [ZeroKept, OrdMap.size]
  rcases discardFile_cases h with ⟨hfirst, rfl, -⟩ | ⟨key, fn, bytes, hfirst, -, rfl, -⟩
  · rw [OrdMap.first?, List.head?_eq_none_iff] at hfirst
    simp [hzero, hfirst]
  · obtain ⟨rest, hes⟩ := List.head?_eq_some_iff.mp hfirst
    have hrest := OrdMap.entries_erase_first hes
    rw [oldestKey_of_suffix hes (by simp [hrest])]
    show (q.queueFns.erase key).entries = [] ↔ _
    rw [hrest, hes]
    cases rest <;> simp

theorem Kept.zeroKept (h : q.Kept) (hzero : q.oldestKey = 0) {a : Use}
    (hperform : q.perform a = .ok (r, calls)) : r.oldestKey = 0 ↔ q.ZeroKept a := by
  have hr : ∀ {s : PayloadQueue × List Call},
      (Except.ok s : Except Halt _) = .ok (r, calls) → s.1 = r :=
    fun heq ↦ congrArg Prod.fst (Except.ok.inj heq)
  cases a with
  | push arr now => exact hr hperform ▸ zeroKept_push hzero arr now
  | peek => exact hr hperform ▸ h.zeroKept_peek hzero
  | consume =>
    rw [← hr hperform, PayloadQueue.consume]
    split <;> exact iff_of_true hzero trivial
  | unget pl =>
    rw [← hr hperform]
    cases pl <;> exact iff_of_true hzero trivial
  | poke =>
    rw [← hr hperform, poke_queue]
    exact h.zeroKept_peek hzero
  | flush n =>
    have hfns : (q.flush n).queueFns.entries = q.queueFns.entries := by simp
    rw [← hr hperform, oldestKey_of_entries hfns]
    exact iff_of_true hzero trivial
  | discard => exact zeroKept_discard hzero hperform

/-- A directory without spill files, or with one of key zero. -/
def ZeroFound (listing : List FileName) : Prop :=
  (∀ fn ∈ listing, fileKey fn = none) ∨ ∃ fn ∈ listing, fileKey fn = some 0

theorem entries_create {maxMem : Nat} {files : OrdMap FileName (List UInt8)}
    {listing : List FileName} (h : create maxMem files listing = .ok (q, calls)) :
    q.queueFns.entries = [] ↔ ∀ fn ∈ listing, fileKey fn = none := by
  obtain ⟨found, hscan, rfl, -⟩ := create_scan h
  show found.1.entries = [] ↔ _
  constructor
  · intro hnil fn hfn
    cases hkey : fileKey fn with
    | none => rfl
    | some key =>
      obtain ⟨fn', hget⟩ := Option.ne_none_iff_exists'.mp
        ((scan_ne_none hscan).mpr ⟨fn, hfn, hkey⟩)
      have hmem := OrdMap.mem_entries.mpr hget
      rw [hnil] at hmem
      cases hmem
  · intro hall
    refine List.eq_nil_iff_forall_not_mem.mpr fun p hp ↦ ?_
    obtain ⟨hkey, hmem⟩ := scan_get? hscan (OrdMap.mem_entries.mp hp)
    rw [hall _ hmem] at hkey
    cases hkey

theorem zeroFound_create {maxMem : Nat} {files : OrdMap FileName (List UInt8)}
    {listing : List FileName} (h : create maxMem files listing = .ok (q, calls)) :
    q.oldestKey = 0 ↔ ZeroFound listing := by
  rw [oldestKey_eq_zero, ZeroFound, entries_create h]
  obtain ⟨found, hscan, rfl, -⟩ := create_scan h
  exact or_congr_right (scan_ne_none hscan)

end PayloadQueue
end UdpTun
