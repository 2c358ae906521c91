import UdpTun.Queues.Construction

/-!
# What the quota manager is told, and what there is

A queue tells the quota manager how much it adds to its spill files and how much it takes away, in
four different ways: the sizes of the files found at construction, the lengths of the payloads
written, the bytes understood in a file that is loaded, and the size on disk of a file that is
discarded.  `Drifts q r calls e` says by how much the account that these calls keep gets ahead of
the files in an operation.  It never falls behind, so what it has got ahead once stays.

`drift` goes through the operations: the account is exact just after those that are `Counted`.
The constructor has its own version of this, `create_drift`.

* `Kept` is what has to be known of the list of files for their sizes to be had.
* `Kept.drift` is the step lemma, for every operation, and `Counted` the condition in it.
-/

set_option autoImplicit false

namespace UdpTun
namespace PayloadQueue

/-! ## Files and accounts

Two sums are compared: what the calls add up to, and the sizes of the files that are listed, with
what is still in the buffer.  The difference is what an operation drifts by. -/

/-- The size of the listed files, with what `out` has yet to move to them. -/
def spilled (q : PayloadQueue) : Nat := q.queueFns.total fun _ fn ↦ (q.fileBytes fn).length

/-- What is in a file already. -/
def diskBytes (q : PayloadQueue) (fn : FileName) : List UInt8 := (q.files.get? fn).getD []

/-- The amount in the queue's account, after some calls. -/
def charge : List Call → Nat → Nat
  | [], n => n
  | .increase sz :: l, n => charge l (n + sz)
  | .decrease sz :: l, n => charge l (n - sz)
  | .user :: l, n => charge l n
  | .oldest _ :: l, n => charge l n

/-- Listed files are there, each under the key that its name stands for. -/
structure Kept (q : PayloadQueue) : Prop where
  names : ∀ key fn, q.queueFns.get? key = some fn →
    fileKey fn = some key ∨ fn = makeQueueFile key
  there : ∀ key fn, q.queueFns.get? key = some fn → q.files.get? fn ≠ none

/-- The account gets ahead of the files by `e`, on top of what it was ahead by before. -/
def Drifts (q r : PayloadQueue) (calls : List Call) (e : Nat) : Prop :=
  ∀ d, charge calls (q.spilled + d) = r.spilled + d + e

variable {q r : PayloadQueue} {calls : List Call}

theorem Kept.key_eq (h : q.Kept) {key j : Nat}
    (hget : q.queueFns.get? key = some (makeQueueFile j)) : key = j := by
  rcases h.names _ _ hget with hkey | hname
  · exact eq_of_fileKey hkey
  · exact (makeQueueFile_inj hname).symm

/-- A file is listed once. -/
theorem Kept.unique (h : q.Kept) {fn : FileName} {key key' : Nat}
    (hget : q.queueFns.get? key = some fn) (hget' : q.queueFns.get? key' = some fn) :
    key = key' := by
  rcases h.names _ _ hget' with hkey' | rfl
  · rcases h.names _ _ hget with hkey | rfl
    · exact Option.some.inj (hkey.symm.trans hkey')
    · exact (h.key_eq hget').symm
  · exact h.key_eq hget

/-! ## The files that are there and the list of them

A file that is listed is there, so that its size can be had.  It is listed once, so that its size is
not counted twice. -/

/-- Files may be added to, but must not go. -/
theorem Kept.congr (h : q.Kept) (hfns : r.queueFns = q.queueFns)
    (hfiles : ∀ fn, q.files.get? fn ≠ none → r.files.get? fn ≠ none) : r.Kept :=
  ⟨by rw [hfns]; exact h.names, fun key fn hget ↦ hfiles fn (h.there key fn (hfns ▸ hget))⟩

theorem Kept.flush (h : q.Kept) (n : Nat) : (q.flush n).Kept :=
  h.congr (flush_queueFns q n) fun fn hfn ↦ by simpa [flush_get?] using hfn

theorem Kept.closeOut (h : q.Kept) : q.closeOut.Kept :=
  h.congr (closeOut_queueFns q) fun fn hfn ↦ by simpa [closeOut_get?] using hfn

theorem Kept.appendFile (h : q.Kept) (arr : List (List UInt8)) : (q.appendFile arr).1.Kept :=
  appendFile_rule (h.congr rfl fun _ ↦ id) fun _ ↦ Kept.closeOut

theorem Kept.newFile (h : q.Kept) (now : Nat) : (q.newFile now).Kept := by
  refine ⟨fun key fn hget ↦ ?_, fun key fn hget ↦ ?_⟩
  · rw [newFile_queueFns, OrdMap.get?_insert] at hget
    split at hget
    · rename_i heq
      rw [heq, ← Option.some.inj hget]
      exact .inr rfl
    · exact h.names key fn hget
  · rw [newFile_queueFns, OrdMap.get?_insert] at hget
    rw [newFile_get?]
    split
    · simp
    · split at hget
      · rw [Option.some_inj] at hget
        exact absurd hget.symm ‹_›
      · simpa using h.there key fn hget

theorem Kept.drop (h : q.Kept) {key : Nat} {fn : FileName}
    (hentry : q.queueFns.get? key = some fn) (hfns : r.queueFns = q.queueFns.erase key)
    (hfiles : r.files = q.files.erase fn) : r.Kept := by
  have hold : ∀ key' fn', r.queueFns.get? key' = some fn' →
      key' ≠ key ∧ q.queueFns.get? key' = some fn' := by
    intro key' fn' hget
    rw [hfns, OrdMap.get?_erase] at hget
    split at hget
    · cases hget
    · exact ⟨‹_›, hget⟩
  refine ⟨fun key' fn' hget ↦ h.names _ _ (hold _ _ hget).2, fun key' fn' hget ↦ ?_⟩
  obtain ⟨hne, hget⟩ := hold _ _ hget
  have hfn : fn' ≠ fn := by
    rintro rfl
    exact hne (h.unique hget hentry)
  rw [hfiles, OrdMap.get?_erase_of_ne _ hfn]
  exact h.there _ _ hget

/-! ## Sizes

What each part of an operation does to the second of the sums.  The only surprise is a new file of a
name that is there already: the old one is gone, and nobody has been told. -/

theorem spilled_congr (hfns : r.queueFns = q.queueFns)
    (h : ∀ key fn, q.queueFns.get? key = some fn →
      (r.fileBytes fn).length = (q.fileBytes fn).length) : r.spilled = q.spilled := by
  rw [spilled, spilled, hfns]
  exact OrdMap.total_congr h

/-- Moving bytes from the buffer to the file changes nothing. -/
theorem Kept.spilled_flush (h : q.Kept) (n : Nat) : (q.flush n).spilled = q.spilled := by
  refine spilled_congr (flush_queueFns q n) fun key fn hget ↦ ?_
  rw [fileBytes_flush (h.there key fn hget)]

theorem Kept.spilled_closeOut (h : q.Kept) : q.closeOut.spilled = q.spilled := by
  refine spilled_congr (closeOut_queueFns q) fun key fn hget ↦ ?_
  rw [fileBytes_closeOut (h.there key fn hget)]

theorem fileBytes_write (q : PayloadQueue) (bytes : List UInt8) (fn : FileName) :
    (q.write bytes).fileBytes fn =
      q.fileBytes fn ++ if (q.out.map OutFile.file) = some fn then bytes else [] := by
  rw [fileBytes, fileBytes, bufferedFor, bufferedFor, write]
  cases q.out with
  | none => simp
  | some o => by_cases hfile : o.file = fn <;> simp [hfile]

/-- What is written counts if it is written to a listed file. -/
theorem Kept.spilled_write (h : q.Kept) (bytes : List UInt8) :
    (∀ o key, q.out = some o → q.queueFns.get? key = some o.file →
      (q.write bytes).spilled = q.spilled + bytes.length) ∧
    ((∀ o key, q.out = some o → q.queueFns.get? key ≠ some o.file) →
      (q.write bytes).spilled = q.spilled) := by
  constructor
  · intro o key ho hget
    have hrest : ((q.write bytes).queueFns.erase key).total
        (fun _ fn ↦ ((q.write bytes).fileBytes fn).length) =
        (q.queueFns.erase key).total fun _ fn ↦ (q.fileBytes fn).length := by
      refine OrdMap.total_congr fun key' fn hget' ↦ ?_
      rw [OrdMap.get?_erase] at hget'
      split at hget'
      · cases hget'
      · have hne : o.file ≠ fn := by
          rintro rfl
          exact ‹¬ key' = key› (h.unique hget' hget)
        rw [fileBytes_write, ho]
        simp [hne]
    rw [spilled, spilled, OrdMap.total_erase (m := (q.write bytes).queueFns) hget,
      OrdMap.total_erase hget, hrest, fileBytes_write, ho]
    simp
    omega
  · intro hnot
    refine spilled_congr rfl fun key fn hget ↦ ?_
    have hne : q.out.map OutFile.file ≠ some fn := by
      intro hsome
      obtain ⟨o, ho, rfl⟩ := Option.map_eq_some_iff.mp hsome
      exact hnot o key ho hget
    rw [fileBytes_write, if_neg hne, List.append_nil]

/-- A file that goes takes its size away. -/
theorem Kept.spilled_drop (h : q.Kept) {key : Nat} {fn : FileName}
    (hentry : q.queueFns.get? key = some fn) (hfns : r.queueFns = q.queueFns.erase key)
    (hout : r.out = q.out) (hfiles : r.files = q.files.erase fn) :
    q.spilled = r.spilled + (q.fileBytes fn).length := by
  rw [spilled, OrdMap.total_erase hentry, spilled, hfns]
  congr 1
  refine OrdMap.total_congr fun key' fn' hget ↦ ?_
  rw [OrdMap.get?_erase] at hget
  split at hget
  · cases hget
  · have hne : fn' ≠ fn := by
      rintro rfl
      exact ‹¬ key' = key› (h.unique hget hentry)
    rw [fileBytes, fileBytes, bufferedFor, bufferedFor, hout, hfiles, OrdMap.get?_erase_of_ne _ hne]

/-- What a new file replaces. -/
def replaced (q : PayloadQueue) (now : Nat) : Nat :=
  match q.queueFns.get? now with
  | none => 0
  | some fn => (q.fileBytes fn).length

/-- A file that is begun has no size, and that of a file it replaces is gone. -/
theorem Kept.spilled_newFile (h : q.Kept) (now : Nat) :
    q.spilled = (q.newFile now).spilled + q.replaced now := by
  have hnew : ((q.newFile now).fileBytes (makeQueueFile now)).length = 0 := by
    simp [fileBytes, newFile_get?, bufferedFor]
  have hrest : ((q.queueFns.erase now).total fun _ fn ↦ ((q.newFile now).fileBytes fn).length) =
      (q.queueFns.erase now).total fun _ fn ↦ (q.fileBytes fn).length := by
    refine OrdMap.total_congr fun key fn hget ↦ ?_
    rw [OrdMap.get?_erase] at hget
    split at hget
    · cases hget
    · have hne : fn ≠ makeQueueFile now := by
        rintro rfl
        exact ‹¬ key = now› (h.key_eq hget)
      obtain ⟨bytes, hbytes⟩ := Option.ne_none_iff_exists'.mp (h.there key fn hget)
      simp [fileBytes, newFile_get?, hne, hbytes, bufferedFor, Ne.symm hne]
  have hsum : (q.newFile now).spilled =
      (q.queueFns.erase now).total fun _ fn ↦ (q.fileBytes fn).length := by
    rw [spilled, newFile_queueFns, OrdMap.total_insert, hnew, hrest, Nat.add_zero]
  rw [hsum, replaced, spilled]
  cases hget : q.queueFns.get? now with
  | none => rw [OrdMap.erase_of_get?_eq_none hget, Nat.add_zero]
  | some fn => exact OrdMap.total_erase hget

/-! ## Drifts

Parts of an operation follow one another, and so do their drifts. -/

theorem charge_append (l l' : List Call) (n : Nat) :
    charge (l ++ l') n = charge l' (charge l n) := by
  induction l generalizing n with
  | nil => rfl
  | cons c l ih => cases c <;> exact ih _

/-- One thing after another. -/
theorem Drifts.trans {q' : PayloadQueue} {calls' : List Call} {e e' : Nat} (h : Drifts q r calls e)
    (h' : Drifts r q' calls' e') : Drifts q q' (calls ++ calls') (e + e') := by
  intro d
  have hd := h' (d + e)
  rw [← Nat.add_assoc] at hd
  rw [charge_append, h d, hd]
  omega

/-- Nothing is said, and no size changes. -/
theorem drifts_zero (h : r.spilled = q.spilled) (hcalls : ∀ n, charge calls n = n) :
    Drifts q r calls 0 := fun d ↦ by rw [hcalls, h, Nat.add_zero]

/-! ### Pushing

A push accounts for two bytes and the length, whether the file is still there or not. -/

theorem appendFile_calls (q : PayloadQueue) (arr : List (List UInt8)) :
    (q.appendFile arr).2 = [.increase (sumLengths arr + 2)] := rfl

/-- What a push to the open file does to the sizes is what writing does. -/
theorem Kept.spilled_appendFile (h : q.Kept) (arr : List (List UInt8)) :
    (q.appendFile arr).1.spilled = (q.write (Payload.save arr.flatten)).spilled := by
  have hwrite : Kept { q.write (Payload.save arr.flatten) with
      szOut := q.szOut + (sumLengths arr + 2) } := h.congr rfl fun _ ↦ id
  rw [PayloadQueue.appendFile]
  dsimp only
  split
  · exact hwrite.spilled_closeOut
  · rfl

/-- The file that `out` has open is listed. -/
def OutListed (q : PayloadQueue) : Prop :=
  ∀ o, q.out = some o → ∃ key, q.queueFns.get? key = some o.file

/-- The length of the payload and two bytes are accounted for; they are written to a listed file, or
are in none. -/
theorem Kept.drift_appendFile (h : q.Kept) {o : OutFile} (ho : q.out = some o)
    (arr : List (List UInt8)) : ∃ e, Drifts q (q.appendFile arr).1 (q.appendFile arr).2 e ∧
      (e = 0 ↔ q.OutListed) := by
  obtain ⟨hin, hnot⟩ := h.spilled_write (Payload.save arr.flatten)
  have hlen : (Payload.save arr.flatten).length = sumLengths arr + 2 := by
    rw [Payload.length_save, sumLengths_eq, Nat.add_comm]
  rw [appendFile_calls]
  by_cases hlisted : ∃ key, q.queueFns.get? key = some o.file
  · obtain ⟨key, hget⟩ := hlisted
    refine ⟨0, fun d ↦ ?_, iff_of_true rfl fun o' ho' ↦ ?_⟩
    · rw [h.spilled_appendFile, hin o key ho hget, hlen]
      simp only [charge]
      omega
    · obtain rfl : o = o' := Option.some.inj (ho.symm.trans ho')
      exact ⟨key, hget⟩
  · refine ⟨sumLengths arr + 2, fun d ↦ ?_, iff_of_false (by omega) fun hall ↦ hlisted (hall o ho)⟩
    rw [h.spilled_appendFile, hnot fun o' key ho' hget ↦ hlisted ?_]
    · simp only [charge]
    · obtain rfl : o = o' := Option.some.inj (ho.symm.trans ho')
      exact ⟨key, hget⟩

theorem Kept.drift_newFile (h : q.Kept) (now : Nat) :
    Drifts q (q.newFile now) [] (q.replaced now) := fun d ↦ by
  have hsum := h.spilled_newFile now
  simp only [charge]
  omega

/-- A push that goes to a file goes to one that is there, and replaces nothing. -/
def PushCounted (q : PayloadQueue) (arr : List (List UInt8)) (now : Nat) : Prop :=
  q.fitsMemory (sumLengths arr) = false →
    if q.needsFile (sumLengths arr) then
      ∀ fn, q.queueFns.get? now = some fn → q.fileBytes fn = []
    else q.OutListed

theorem replaced_eq_zero (q : PayloadQueue) (now : Nat) :
    q.replaced now = 0 ↔ ∀ fn, q.queueFns.get? now = some fn → q.fileBytes fn = [] := by
  rw [replaced]
  cases hget : q.queueFns.get? now <;> simp

theorem Kept.drift_push (h : q.Kept) (arr : List (List UInt8)) (now : Nat) :
    ∃ e, Drifts q (q.push arr now).1 (q.push arr now).2 e ∧ (e = 0 ↔ q.PushCounted arr now) := by
  rw [PayloadQueue.push, PushCounted]
  by_cases hfits : q.fitsMemory (sumLengths arr)
  · rw [if_pos hfits, hfits]
    refine ⟨0, drifts_zero ?_ fun n ↦ ?_, iff_of_true rfl fun hno ↦ by cases hno⟩
    · rw [pushMemory]
      dsimp only
      split <;> rfl
    · rw [pushMemory]
      dsimp only
      split <;> rfl
  · rw [if_neg hfits, eq_false_of_ne_true hfits]
    by_cases hneeds : q.needsFile (sumLengths arr)
    · rw [if_pos hneeds, if_pos hneeds]
      obtain ⟨e, hdrift, he⟩ := (h.newFile now).drift_appendFile (newFile_out q now) arr
      have hlisted : (q.newFile now).OutListed := by
        intro o ho
        rw [newFile_out, Option.some_inj] at ho
        exact ⟨now, by rw [← ho, newFile_queueFns, OrdMap.get?_insert_self]⟩
      refine ⟨_, (h.drift_newFile now).trans hdrift, ?_⟩
      rw [he.mpr hlisted, Nat.add_zero, replaced_eq_zero]
      simp
    · rw [if_neg hneeds, if_neg hneeds]
      obtain ⟨o, ho⟩ : ∃ o, q.out = some o := by
        rw [needsFile, Bool.or_eq_true, not_or] at hneeds
        exact Option.ne_none_iff_exists'.mp (by simpa using hneeds.1)
      obtain ⟨e, hdrift, he⟩ := h.drift_appendFile ho arr
      exact ⟨e, hdrift, by simp [he]⟩

/-! ### Loading and discarding

A file that goes takes its whole size with it, but only what could be read of it, or what is on
disk, is taken from the account. -/

/-- The bytes are whole records. -/
def Whole (bytes : List UInt8) : Prop :=
  ∃ pls : List Payload, (∀ pl ∈ pls, pl.length < 65536) ∧ bytes = Payload.code.encodeAll pls

/-- Loading understands all of a file if that is whole, and less of it if not. -/
theorem loadAll_size (bytes : List UInt8) : (Payload.loadAll bytes).2 ≤ bytes.length ∧
    ((Payload.loadAll bytes).2 = bytes.length ↔ Whole bytes) := by
  obtain ⟨rest, hvalid, hbytes, -, hsize⟩ := Payload.loadAll_spec bytes
  have hlen : bytes.length = (Payload.loadAll bytes).2 + rest.length := by
    rw [hsize, ← List.length_append, ← hbytes]
  refine ⟨by omega, fun heq ↦ ?_, fun ⟨pls, hpls, hwhole⟩ ↦ ?_⟩
  · have hrest : rest = [] := List.length_eq_zero_iff.mp (by omega)
    rw [hrest, List.append_nil] at hbytes
    exact ⟨_, hvalid, hbytes⟩
  · rw [hwhole, Payload.loadAll_encodeAll hpls]

/-- Nothing is loaded from a file that does not begin with a whole record. -/
theorem loadAll_eq_nil (bytes : List UInt8) :
    (Payload.loadAll bytes).1 = [] ↔ Payload.load bytes = none := by
  obtain ⟨rest, hvalid, hbytes, hnone, -⟩ := Payload.loadAll_spec bytes
  constructor
  · intro hnil
    rw [hnil, PrefixCode.encodeAll_nil, List.nil_append] at hbytes
    rwa [hbytes]
  · intro hload
    cases hpls : (Payload.loadAll bytes).1 with
    | nil => rfl
    | cons pl pls =>
      rw [hpls] at hbytes hvalid
      have hdecode : Payload.load bytes = some (pl, Payload.code.encodeAll pls ++ rest) := by
        rw [hbytes, PrefixCode.encodeAll_cons, List.append_assoc]
        exact Payload.code.decode_encode (hvalid pl List.mem_cons_self) _
      rw [hload] at hdecode
      cases hdecode

/-- The file is among those that a peek would load from the list. -/
def LoadsFrom (q : PayloadQueue) (es : List (Nat × FileName)) (p : Nat × FileName) : Prop :=
  ∃ l l', es = l ++ p :: l' ∧ ∀ p' ∈ l, Payload.load (q.diskBytes p'.2) = none

/-- All of the file is on disk, and it is whole. -/
def Settled (q : PayloadQueue) (fn : FileName) : Prop :=
  Whole (q.diskBytes fn) ∧ q.bufferedFor fn = []

theorem loadsFrom_cons {p p' : Nat × FileName} {es : List (Nat × FileName)} :
    q.LoadsFrom (p :: es) p' ↔
      p' = p ∨ Payload.load (q.diskBytes p.2) = none ∧ q.LoadsFrom es p' := by
  constructor
  · rintro ⟨l, l', heq, hl⟩
    cases l with
    | nil => exact .inl (List.cons.inj heq).1.symm
    | cons p₁ l =>
      obtain ⟨rfl, rfl⟩ := List.cons.inj heq
      exact .inr ⟨hl p List.mem_cons_self, l, l', rfl,
        fun p' hp' ↦ hl p' (List.mem_cons_of_mem _ hp')⟩
  · rintro (rfl | ⟨hnone, l, l', rfl, hl⟩)
    · exact ⟨[], es, rfl, by simp⟩
    · refine ⟨p :: l, l', rfl, fun p' hp' ↦ ?_⟩
      rcases List.mem_cons.mp hp' with rfl | hp'
      · exact hnone
      · exact hl p' hp'

/-- What a file that is taken away leaves in the account: what has not been understood of it, and
what was not in it yet. -/
theorem Kept.drift_drop (h : q.Kept) {key sum : Nat} {fn : FileName}
    (hentry : q.queueFns.get? key = some fn) (hfns : r.queueFns = q.queueFns.erase key)
    (hout : r.out = q.out) (hfiles : r.files = q.files.erase fn)
    (hsum : sum ≤ (q.diskBytes fn).length) : ∃ e, Drifts q r [.decrease sum] e ∧
      (e = 0 ↔ sum = (q.diskBytes fn).length ∧ q.bufferedFor fn = []) := by
  have hdrop := h.spilled_drop hentry hfns hout hfiles
  have hlen : (q.fileBytes fn).length = (q.diskBytes fn).length + (q.bufferedFor fn).length := by
    rw [fileBytes, List.length_append]
    rfl
  refine ⟨(q.diskBytes fn).length - sum + (q.bufferedFor fn).length, fun d ↦ ?_, ?_⟩
  · simp only [charge]
    omega
  · rw [← List.length_eq_zero_iff]
    omega

theorem Kept.drift_loadFile (h : q.Kept) {key : Nat} {fn : FileName}
    (hentry : q.queueFns.get? key = some fn) :
    ∃ e, Drifts q (q.loadFile key fn).1 [.decrease (q.loadFile key fn).2] e ∧
      (e = 0 ↔ q.Settled fn) := by
  obtain ⟨hle, heq⟩ := loadAll_size (q.diskBytes fn)
  obtain ⟨e, hdrift, he⟩ := h.drift_drop (r := (q.loadFile key fn).1) hentry rfl rfl rfl hle
  exact ⟨e, hdrift, he.trans (and_congr_left fun _ ↦ heq)⟩

/-- The other files are as before. -/
theorem Kept.diskBytes_loadFile (h : q.Kept) {p p' : Nat × FileName} {rest : List (Nat × FileName)}
    (hes : q.queueFns.entries = p :: rest) (hp' : p' ∈ rest) :
    (q.loadFile p.1 p.2).1.diskBytes p'.2 = q.diskBytes p'.2 ∧
      (q.loadFile p.1 p.2).1.bufferedFor p'.2 = q.bufferedFor p'.2 := by
  have hs := q.queueFns.sorted
  rw [hes] at hs
  have hlt := List.rel_of_pairwise_cons hs hp'
  have hp : q.queueFns.get? p.1 = some p.2 := OrdMap.mem_entries.mp (by simp [hes])
  have hget' : q.queueFns.get? p'.1 = some p'.2 := OrdMap.mem_entries.mp (by simp [hes, hp'])
  have hne : p'.2 ≠ p.2 := fun heq ↦ hlt.ne (h.unique hp (heq ▸ hget'))
  refine ⟨?_, rfl⟩
  show ((q.files.erase p.2).get? p'.2).getD [] = _
  rw [OrdMap.get?_erase_of_ne _ hne]
  rfl

/-- The files that are still to be loaded are the same before and after one has been. -/
theorem Kept.loadsFrom_loadFile (h : q.Kept) {p p' : Nat × FileName}
    {rest : List (Nat × FileName)} (hes : q.queueFns.entries = p :: rest) :
    (q.loadFile p.1 p.2).1.LoadsFrom rest p' ↔ q.LoadsFrom rest p' := by
  refine exists_congr fun l ↦ exists_congr fun l' ↦ and_congr_right fun heq ↦
    forall₂_congr fun p₁ hp₁ ↦ ?_
  rw [(h.diskBytes_loadFile hes (by simp [heq, hp₁])).1]

theorem loadsFrom_mem {p : Nat × FileName} {es : List (Nat × FileName)}
    (h : q.LoadsFrom es p) : p ∈ es := by
  obtain ⟨l, l', rfl, -⟩ := h
  simp

theorem Kept.loadFile (h : q.Kept) {key : Nat} {fn : FileName}
    (hentry : q.queueFns.get? key = some fn) : (q.loadFile key fn).1.Kept :=
  h.drop hentry rfl rfl

/-- What is in memory after a file has been loaded into an empty queue. -/
theorem loadFile_isEmpty (hqueue : q.queue = []) (key : Nat) (fn : FileName) :
    (q.loadFile key fn).1.queue.isEmpty = true ↔ Payload.load (q.diskBytes fn) = none := by
  have hloaded : (q.loadFile key fn).1.queue = (Payload.loadAll (q.diskBytes fn)).1 := by
    show q.queue ++ _ = _
    rw [hqueue]
    rfl
  rw [List.isEmpty_iff, hloaded, loadAll_eq_nil]

/-- **Loading is accounted for exactly when the files loaded are settled.** -/
theorem Kept.drift_loadHeadFile {es : List (Nat × FileName)} (h : q.Kept)
    (hes : q.queueFns.entries = es) (hqueue : q.queue = []) :
    ∃ e, Drifts q (PayloadQueue.loadHeadFile es q).2.1 (PayloadQueue.loadHeadFile es q).2.2 e ∧
      (e = 0 ↔ ∀ p, q.LoadsFrom es p → q.Settled p.2) := by
  induction es generalizing q with
  | nil =>
    refine ⟨0, drifts_zero rfl fun _ ↦ rfl, iff_of_true rfl fun p hp ↦ ?_⟩
    exact absurd (loadsFrom_mem hp) List.not_mem_nil
  | cons p rest ih =>
    have hentry : q.queueFns.get? p.1 = some p.2 := OrdMap.mem_entries.mp (by simp [hes])
    obtain ⟨e, hdrift, he⟩ := h.drift_loadFile hentry
    have hempty := loadFile_isEmpty hqueue p.1 p.2
    rw [PayloadQueue.loadHeadFile]
    dsimp only
    split
    · rename_i hnil
      have hrest := OrdMap.entries_erase_first hes
      obtain ⟨e', hdrift', he'⟩ := ih (h.loadFile hentry) hrest (List.isEmpty_iff.mp hnil)
      refine ⟨e + e', hdrift.trans hdrift', ?_⟩
      rw [Nat.add_eq_zero_iff, he, he']
      constructor
      · rintro ⟨hfirst, hothers⟩ p' hp'
        rcases loadsFrom_cons.mp hp' with rfl | ⟨-, hp'⟩
        · exact hfirst
        · obtain ⟨hdisk, hbuf⟩ := h.diskBytes_loadFile hes (loadsFrom_mem hp')
          have hset := hothers p' ((h.loadsFrom_loadFile hes).mpr hp')
          rwa [Settled, hdisk, hbuf] at hset
      · intro hall
        refine ⟨hall p (loadsFrom_cons.mpr (.inl rfl)), fun p' hp' ↦ ?_⟩
        obtain ⟨hdisk, hbuf⟩ := h.diskBytes_loadFile hes (loadsFrom_mem hp')
        rw [h.loadsFrom_loadFile hes] at hp'
        rw [Settled, hdisk, hbuf]
        exact hall p' (loadsFrom_cons.mpr (.inr ⟨hempty.mp hnil, hp'⟩))
    · rename_i hne
      refine ⟨e, hdrift, he.trans ⟨fun hfirst p' hp' ↦ ?_, fun hall ↦ ?_⟩⟩
      · rcases loadsFrom_cons.mp hp' with rfl | ⟨hnone, -⟩
        · exact hfirst
        · exact absurd (hempty.mpr hnone) hne
      · exact hall p (loadsFrom_cons.mpr (.inl rfl))

/-- The files that a peek loads are settled. -/
def PeekCounted (q : PayloadQueue) : Prop :=
  q.queue = [] → ∀ p, q.LoadsFrom q.queueFns.entries p → q.Settled p.2

theorem Kept.drift_peek (h : q.Kept) :
    ∃ e, Drifts q q.peek.2.1 q.peek.2.2 e ∧ (e = 0 ↔ q.PeekCounted) := by
  rw [PayloadQueue.peek, PeekCounted]
  by_cases hqueue : q.queue = []
  · obtain ⟨e, hdrift, he⟩ := h.drift_loadHeadFile rfl hqueue
    rw [if_pos (List.isEmpty_iff.mpr hqueue)]
    refine ⟨e, ?_, by simp [he, hqueue]⟩
    dsimp only
    split <;> exact hdrift
  · rw [if_neg (mt List.isEmpty_iff.mp hqueue)]
    exact ⟨0, drifts_zero rfl fun _ ↦ rfl, iff_of_true rfl fun hnil ↦ absurd hnil hqueue⟩

theorem poke_charge (q : PayloadQueue) (n : Nat) : charge q.poke.2 n = charge q.peek.2.2 n := by
  rw [poke]
  split
  · rw [charge_append]
    rfl
  · rfl

/-- The oldest file is all on disk. -/
def DiscardCounted (q : PayloadQueue) : Prop :=
  ∀ p, q.queueFns.first? = some p → q.bufferedFor p.2 = []

/-- **A listed file can be discarded**, and is accounted for with what is on disk. -/
theorem Kept.drift_discardFile (h : q.Kept) : ∃ r calls, q.discardFile = .ok (r, calls) ∧ r.Kept ∧
    ∃ e, Drifts q r calls e ∧ (e = 0 ↔ q.DiscardCounted) := by
  rw [PayloadQueue.discardFile, DiscardCounted]
  cases hfirst : q.queueFns.first? with
  | none => exact ⟨q, [], rfl, h, 0, drifts_zero rfl fun _ ↦ rfl, by simp⟩
  | some p =>
    have hentry : q.queueFns.get? p.1 = some p.2 :=
      OrdMap.mem_entries.mp (List.mem_of_mem_head? hfirst)
    obtain ⟨bytes, hbytes⟩ := Option.ne_none_iff_exists'.mp (h.there _ _ hentry)
    have hdisk : bytes.length = (q.diskBytes p.2).length := by rw [diskBytes, hbytes]; rfl
    simp only [hbytes]
    obtain ⟨e, hdrift, he⟩ := h.drift_drop (r := { q with
      files := q.files.erase p.2, queueFns := q.queueFns.erase p.1 }) hentry rfl rfl rfl hdisk.le
    refine ⟨_, _, rfl, h.drop hentry rfl rfl, e, hdrift, he.trans ?_⟩
    simp [hdisk]

/-! ### Operations

One definition says for each operation when its account is exact, and one theorem goes through all
of them. -/

/-- The account of the operation is exact. -/
def Counted (q : PayloadQueue) : Use → Prop
  | .push arr now => q.PushCounted arr now
  | .peek | .poke => q.PeekCounted
  | .discard => q.DiscardCounted
  | .consume | .unget _ | .flush _ => True

theorem Kept.push (h : q.Kept) (arr : List (List UInt8)) (now : Nat) : (q.push arr now).1.Kept := by
  have hmemory : (q.pushMemory arr).1.Kept :=
    h.congr (pushMemory_queueFns q arr) fun fn hfn ↦ by rwa [pushMemory_files]
  exact push_rule hmemory (h.newFile now) (fun _ h ↦ h.appendFile arr) h

theorem Kept.peek (h : q.Kept) : q.peek.2.1.Kept :=
  peek_rule (fun _ _ _ hentry _ h ↦ h.loadFile hentry) (fun _ h ↦ h.congr rfl fun _ ↦ id) h

/-- **Every operation goes through, and its account is exact when it is counted.**  Where it is not,
the account gets ahead. -/
theorem Kept.drift (h : q.Kept) (a : Use) : ∃ r calls, q.perform a = .ok (r, calls) ∧ r.Kept ∧
    ∃ e, Drifts q r calls e ∧ (e = 0 ↔ q.Counted a) := by
  cases a with
  | push arr now => exact ⟨_, _, rfl, h.push arr now, h.drift_push arr now⟩
  | peek => exact ⟨_, _, rfl, h.peek, h.drift_peek⟩
  | consume =>
    have hkept : q.consume.2.Kept := by
      rw [PayloadQueue.consume]
      split <;> exact h.congr rfl fun _ ↦ id
    have hsize : q.consume.2.spilled = q.spilled := by
      rw [PayloadQueue.consume]
      split <;> rfl
    exact ⟨_, _, rfl, hkept, 0, drifts_zero hsize fun _ ↦ rfl, iff_of_true rfl trivial⟩
  | unget pl =>
    have hkept : (q.unget pl).Kept := by cases pl <;> exact h.congr rfl fun _ ↦ id
    have hsize : (q.unget pl).spilled = q.spilled := by cases pl <;> rfl
    exact ⟨_, _, rfl, hkept, 0, drifts_zero hsize fun _ ↦ rfl, iff_of_true rfl trivial⟩
  | poke =>
    obtain ⟨e, hdrift, he⟩ := h.drift_peek
    have hpoke : Drifts q q.poke.1 q.poke.2 e := fun d ↦ by
      rw [poke_charge, poke_queue]
      exact hdrift d
    exact ⟨q.poke.1, q.poke.2, rfl, by rw [poke_queue]; exact h.peek, e, hpoke, he⟩
  | flush n =>
    exact ⟨_, _, rfl, h.flush n, 0, drifts_zero (h.spilled_flush n) fun _ ↦ rfl,
      iff_of_true rfl trivial⟩
  | discard => exact h.drift_discardFile

/-! ### Construction -/

/-- **The constructor accounts for what it lists**, and for the files besides that it finds and does
not list, as another is found later for the same key. -/
theorem create_drift {maxMem : Nat} {files : OrdMap FileName (List UInt8)}
    {listing : List FileName} (hlists : Lists listing files)
    (h : create maxMem files listing = .ok (q, calls)) :
    q.Kept ∧ ∃ e, calls = [.increase (q.spilled + e), .oldest 0] ∧
      (e = 0 ↔ SameKeyEmpty files listing) := by
  obtain ⟨found, hscan, rfl, rfl⟩ := create_scan h
  refine ⟨⟨fun key fn hget ↦ .inl (scan_get? hscan hget).1,
    fun key fn hget ↦ (mem_listing hlists).mp (scan_get? hscan hget).2⟩, ?_⟩
  have hspilled : (fresh maxMem found.1 files).spilled =
      found.1.total fun _ ↦ fileSize files := by
    simp only [spilled, fresh, fileBytes, bufferedFor, List.append_nil]
    rfl
  have hempty : (OrdMap.empty : OrdMap Nat FileName).total (fun _ ↦ fileSize files) = 0 := rfl
  obtain ⟨e, hsum, he⟩ := scan_sizes hscan
  rw [hempty] at hsum
  simp only [OrdMap.get?_empty, reduceCtorEq, false_implies, implies_true, true_and] at he
  have hsz : found.2.1 = (fresh maxMem found.1 files).spilled + e := by
    rw [hspilled]
    omega
  exact ⟨e, by rw [hsz], he⟩

end PayloadQueue
end UdpTun
