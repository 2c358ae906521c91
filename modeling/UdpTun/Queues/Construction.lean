import UdpTun.Queues.FileNames

/-!
# What the constructor finds

The constructor of `PayloadQueue` goes through the files of its directory.  Files that stand for the
same key (`a.queue` and `A.queue`, say) are found one after the other, and the last of them is the
one that is listed, but their sizes are all added up.

The smallest key is not found: `oldest_key` begins at zero, nothing is below it, and so it is left
there (`scan_oldest`).
-/

set_option autoImplicit false

namespace UdpTun
namespace PayloadQueue

variable {maxMem : Nat} {q : PayloadQueue} {files : OrdMap FileName (List UInt8)}
  {listing l : List FileName} {fns : OrdMap Nat FileName} {tsz old : Nat}
  {found : OrdMap Nat FileName × Nat × Nat} {key : Nat} {fn : FileName}

theorem mem_listing (h : Lists listing files) : fn ∈ listing ↔ files.get? fn ≠ none := by
  rw [h.mem_iff, List.mem_map]
  constructor
  · rintro ⟨⟨fn, bytes⟩, hmem, rfl⟩
    simp [OrdMap.mem_entries.mp hmem]
  · intro hne
    obtain ⟨bytes, hget⟩ := Option.ne_none_iff_exists'.mp hne
    exact ⟨(fn, bytes), OrdMap.mem_entries.mpr hget, rfl⟩

/-- The size of a file. -/
def fileSize (files : OrdMap FileName (List UInt8)) (fn : FileName) : Nat :=
  ((files.get? fn).getD []).length

/-! ## One file after another

A file replaces the one that was found before it for the same key.  The induction is on the list of
files, from the front. -/

/-- A file is passed over, or listed and counted. -/
theorem scan_cons (h : scanDirectory files (fn :: l) fns tsz old = .ok found) :
    (fileKey fn = none ∧ (splitExtension fn).2 ≠ queueSuffix ∧
        scanDirectory files l fns tsz old = .ok found) ∨
      ∃ key, fileKey fn = some key ∧ scanDirectory files l (fns.insert key fn)
        (tsz + fileSize files fn) (if old ≠ 0 ∨ key < old then key else old) = .ok found := by
  rw [scanDirectory] at h
  split at h
  · rename_i hsuffix
    exact .inl ⟨by rw [fileKey, if_neg hsuffix], hsuffix, h⟩
  · rename_i hsuffix
    split at h
    · cases h
    · rename_i k hk
      refine .inr ⟨_, ?_, h⟩
      rw [fileKey, if_pos (not_not.mp hsuffix), hk, Option.map_some]

theorem scan_get?_of (h : scanDirectory files l fns tsz old = .ok found)
    (hget : found.1.get? key = some fn) :
    (fileKey fn = some key ∧ fn ∈ l) ∨ fns.get? key = some fn := by
  induction l generalizing fns tsz old with
  | nil =>
    obtain rfl := Except.ok.inj h
    exact .inr hget
  | cons fn' l ih =>
    rcases scan_cons h with ⟨-, -, hrest⟩ | ⟨key', hkey', hrest⟩
    · rcases ih hrest with ⟨hkey, hmem⟩ | hold
      · exact .inl ⟨hkey, List.mem_cons_of_mem _ hmem⟩
      · exact .inr hold
    · rcases ih hrest with ⟨hkey, hmem⟩ | hold
      · exact .inl ⟨hkey, List.mem_cons_of_mem _ hmem⟩
      · rw [OrdMap.get?_insert] at hold
        split at hold
        · rename_i heq
          obtain rfl := Option.some.inj hold
          exact .inl ⟨heq ▸ hkey', List.mem_cons_self⟩
        · exact .inr hold

theorem scan_ne_none_of (h : scanDirectory files l fns tsz old = .ok found) :
    found.1.get? key ≠ none ↔ (∃ fn ∈ l, fileKey fn = some key) ∨ fns.get? key ≠ none := by
  induction l generalizing fns tsz old with
  | nil =>
    obtain rfl := Except.ok.inj h
    simp
  | cons fn' l ih =>
    rw [show (∃ fn ∈ fn' :: l, fileKey fn = some key) ↔
      fileKey fn' = some key ∨ ∃ fn ∈ l, fileKey fn = some key by simp]
    rcases scan_cons h with ⟨hnone, -, hrest⟩ | ⟨key', hkey', hrest⟩
    · rw [ih hrest, hnone]
      simp
    · rw [ih hrest, hkey', OrdMap.get?_insert]
      by_cases heq : key = key'
      · simp [heq]
      · simp [heq, Ne.symm heq]

/-- **A listed file is one that was found**, under its key. -/
theorem scan_get? (h : scanDirectory files l .empty tsz old = .ok found)
    (hget : found.1.get? key = some fn) : fileKey fn = some key ∧ fn ∈ l := by
  rcases scan_get?_of h hget with hfound | hnone
  · exact hfound
  · cases hnone

theorem scan_ne_none (h : scanDirectory files l .empty tsz old = .ok found) :
    found.1.get? key ≠ none ↔ ∃ fn ∈ l, fileKey fn = some key := by
  rw [scan_ne_none_of h]
  simp

/-- When the scan succeeds, all keys could be read. -/
theorem scan_parses (h : scanDirectory files l fns tsz old = .ok found) (hfn : fn ∈ l)
    (hsuffix : (splitExtension fn).2 = queueSuffix) : ∃ key, fileKey fn = some key := by
  induction l generalizing fns tsz old with
  | nil => cases hfn
  | cons fn' l ih =>
    rcases scan_cons h with ⟨-, hne, hrest⟩ | ⟨key, hkey, hrest⟩
    · rcases List.mem_cons.mp hfn with rfl | hmem
      · exact absurd hsuffix hne
      · exact ih hrest hmem
    · rcases List.mem_cons.mp hfn with rfl | hmem
      · exact ⟨key, hkey⟩
      · exact ih hrest hmem

/-- It does succeed when they can. -/
theorem scan_ok (files : OrdMap FileName (List UInt8)) (fns : OrdMap Nat FileName) (tsz old : Nat)
    (h : ∀ fn ∈ l, (splitExtension fn).2 = queueSuffix → ∃ key, fileKey fn = some key) :
    ∃ found, scanDirectory files l fns tsz old = .ok found := by
  induction l generalizing fns tsz old with
  | nil => exact ⟨_, rfl⟩
  | cons fn l ih =>
    have hrest := fun fn hfn ↦ h fn (List.mem_cons_of_mem _ hfn)
    rw [scanDirectory]
    split
    · exact ih fns tsz old hrest
    · rename_i hsuffix
      split
      · rename_i hnone
        obtain ⟨key, hkey⟩ := h fn List.mem_cons_self (not_not.mp hsuffix)
        rw [fileKey, if_pos (not_not.mp hsuffix), hnone] at hkey
        cases hkey
      · exact ih _ _ _ hrest

/-- **The smallest key is not looked for.** -/
theorem scan_oldest (h : scanDirectory files l fns tsz 0 = .ok found) : found.2.2 = 0 := by
  induction l generalizing fns tsz with
  | nil =>
    obtain rfl := Except.ok.inj h
    rfl
  | cons fn l ih =>
    rcases scan_cons h with ⟨-, -, hrest⟩ | ⟨key, -, hrest⟩
    · exact ih hrest
    · rw [if_neg (by omega)] at hrest
      exact ih hrest

/-! ## Sizes

The sizes are added up over the files, and not over the entries of the list.  They differ by the
files that have been replaced. -/

/-- The size of all the files found, listed or not. -/
def foundSize (files : OrdMap FileName (List UInt8)) : List FileName → Nat
  | [] => 0
  | fn :: l => (if (fileKey fn).isSome then fileSize files fn else 0) + foundSize files l

/-- **All that is found is counted.** -/
theorem scan_foundSize (h : scanDirectory files l fns tsz old = .ok found) :
    found.2.1 = tsz + foundSize files l := by
  induction l generalizing fns tsz old with
  | nil =>
    obtain rfl := Except.ok.inj h
    rfl
  | cons fn l ih =>
    rw [foundSize]
    rcases scan_cons h with ⟨hnone, -, hrest⟩ | ⟨key, hkey, hrest⟩
    · simp [ih hrest, hnone]
    · simp [ih hrest, hkey, Nat.add_assoc]

/-- Of the files that stand for one key, all but the last found are empty. -/
def SameKeyEmpty (files : OrdMap FileName (List UInt8)) (l : List FileName) : Prop :=
  l.Pairwise fun fn fn' ↦ ∀ key, fileKey fn = some key → fileKey fn' = some key →
    fileSize files fn = 0

/-- What is counted beyond the files that end up listed is the size of those that do not. -/
theorem scan_sizes (h : scanDirectory files l fns tsz old = .ok found) :
    ∃ e, found.2.1 + fns.total (fun _ ↦ fileSize files) =
        tsz + found.1.total (fun _ ↦ fileSize files) + e ∧
      (e = 0 ↔ (∀ fn ∈ l, ∀ key, fileKey fn = some key →
        ∀ fn₀, fns.get? key = some fn₀ → fileSize files fn₀ = 0) ∧ SameKeyEmpty files l) := by
  induction l generalizing fns tsz old with
  | nil =>
    obtain rfl := Except.ok.inj h
    exact ⟨0, rfl, by simp [SameKeyEmpty]⟩
  | cons fn l ih =>
    rw [SameKeyEmpty, List.pairwise_cons, List.forall_mem_cons]
    rcases scan_cons h with ⟨hnone, -, hrest⟩ | ⟨key, hkey, hrest⟩
    · obtain ⟨e, hsum, he⟩ := ih hrest
      refine ⟨e, hsum, he.trans ?_⟩
      simp [hnone, SameKeyEmpty]
    · obtain ⟨e, hsum, he⟩ := ih hrest
      rw [OrdMap.total_insert] at hsum
      obtain ⟨e₀, hsum₀, he₀⟩ : ∃ e₀, fns.total (fun _ ↦ fileSize files) =
          (fns.erase key).total (fun _ ↦ fileSize files) + e₀ ∧
          (e₀ = 0 ↔ ∀ fn₀, fns.get? key = some fn₀ → fileSize files fn₀ = 0) := by
        cases hget : fns.get? key with
        | none => exact ⟨0, by rw [OrdMap.erase_of_get?_eq_none hget, Nat.add_zero], by simp⟩
        | some fn₀ => exact ⟨fileSize files fn₀, OrdMap.total_erase hget, by simp⟩
      refine ⟨e₀ + e, by omega, ?_⟩
      rw [Nat.add_eq_zero_iff, he₀, he]
      constructor
      · rintro ⟨hfirst, hothers, hrest⟩
        refine ⟨⟨fun k hk ↦ ?_, fun fn' hfn' k hk fn₀ hget ↦ ?_⟩, fun fn' hfn' k hk hk' ↦ ?_, hrest⟩
        · rw [hkey, Option.some_inj] at hk
          exact hk ▸ hfirst
        · by_cases heq : k = key
          · exact hfirst fn₀ (heq ▸ hget)
          · exact hothers fn' hfn' k hk fn₀ (by rwa [OrdMap.get?_insert_of_ne _ heq])
        · rw [hkey, Option.some_inj] at hk
          subst hk
          exact hothers fn' hfn' key hk' fn (OrdMap.get?_insert_self ..)
      · rintro ⟨⟨hfirst, hothers⟩, hsame, hrest⟩
        refine ⟨hfirst key hkey, fun fn' hfn' k hk fn₀ hget ↦ ?_, hrest⟩
        rw [OrdMap.get?_insert] at hget
        split at hget
        · rename_i heq
          obtain rfl := Option.some.inj hget
          exact hsame fn' hfn' k (heq ▸ hkey) hk
        · exact hothers fn' hfn' k hk fn₀ hget

/-- What the constructor makes of what it has found. -/
theorem create_scan {calls : List Call} (h : create maxMem files listing = .ok (q, calls)) :
    ∃ found, scanDirectory files listing .empty 0 0 = .ok found ∧
      q = fresh maxMem found.1 files ∧ calls = [.increase found.2.1, .oldest 0] := by
  rw [create] at h
  obtain ⟨found, hscan, heq⟩ := map_ok h
  obtain ⟨rfl, rfl⟩ := Prod.mk.inj heq
  exact ⟨found, hscan, rfl, by rw [scan_oldest hscan]⟩

end PayloadQueue
end UdpTun
