import UdpTun.Queues.Balance
import UdpTun.Queues.Restart

/-!
# How much is in memory

A queue keeps less than `max_mem` bytes in memory, or one payload.  What is pushed to memory is
tested for this, but whole files are loaded without a test.  What makes it true of them is the test
that begins a new file: it counts two bytes more for each payload, so that the payloads of a file
(`Rolled`) will fit when it is loaded into an empty queue.  The file that the destructor makes holds
what was in memory, and may itself be longer than `max_mem`.

`Succession` is a queue on a directory where there have been others before, with a record of the
files that were made by their destructors.

* `Rolled` and `Light` are the two halves of the invariant, for the files and for memory.
* `memory_bounded` is the result, and `oversized_exceeds` the run that shows why the payloads have
  to be such that two bytes can say their length.
-/

set_option autoImplicit false

namespace UdpTun
namespace PayloadQueue

/-! ## Bounds

What is to be bounded, and what must be true of the files for it to be so after a load.  The two
files that need an exception are those with a single payload and those that a destructor made. -/

/-- There is one payload at most, or they all fit. -/
def Within (maxMem : Nat) (pls : List Payload) : Prop := pls.length ≤ 1 ∨ sumLengths pls < maxMem

/-- Payloads that a file can hold. -/
def Short (pls : List Payload) : Prop := ∀ pl ∈ pls, pl.length < 65536

/-- What is in memory is bounded, and can be saved. -/
structure Light (maxMem : Nat) (q : PayloadQueue) : Prop where
  sized : q.Sized maxMem
  within : Within maxMem q.queue
  short : Short q.queue

/-- What a file holds can be loaded.  One that push has written is either shorter than `max_mem` or
has one payload. -/
structure Loads (maxMem : Nat) (pushed : Prop) (bytes : List UInt8) (pls : List Payload) :
    Prop where
  short : Short pls
  eq : bytes = Payload.code.encodeAll pls
  within : Within maxMem pls
  pushed : pushed → pls.length ≤ 1 ∨ bytes.length < maxMem

/-- The spill files can be loaded, and `sz_out` is the size of the one that is open if it is still
there.  The files `saved` were written by a destructor. -/
structure Rolled (maxMem : Nat) (saved : List FileName) (q : PayloadQueue) : Prop where
  files : ∀ fn, (splitExtension fn).2 = queueSuffix → q.files.get? fn ≠ none →
    ∃ pls, Loads maxMem (fn ∉ saved) (q.fileBytes fn) pls
  out : ∀ o, q.out = some o → o.file ∉ saved ∧
    (q.files.get? o.file ≠ none → (q.fileBytes o.file).length = q.szOut)

variable {maxMem : Nat} {saved : List FileName} {q r : PayloadQueue}

theorem sumLengths_append (pls pls' : List Payload) :
    sumLengths (pls ++ pls') = sumLengths pls + sumLengths pls' := by
  simp [sumLengths]

theorem within_append {pls pls' : List Payload} (h : Within maxMem (pls ++ pls')) :
    Within maxMem pls ∧ Within maxMem pls' := by
  rw [Within, sumLengths_append, List.length_append] at h
  unfold Within
  omega

/-- A file has two bytes more for each payload. -/
theorem length_encodeAll (pls : List Payload) :
    (Payload.code.encodeAll pls).length = sumLengths pls + 2 * pls.length := by
  induction pls with
  | nil => rfl
  | cons pl pls ih =>
    have hlen : (Payload.code.encode pl).length = 2 + pl.length := Payload.length_save pl
    rw [PrefixCode.encodeAll_cons, List.length_append, ih, hlen, sumLengths, sumLengths,
      List.map_cons, List.sum_cons, List.length_cons]
    omega

/-! ## Memory

A push to memory is tested.  A load is not, and here the bound comes from the file. -/

theorem Light.congr (h : q.Light maxMem) (hsame : SameMemory q r) : r.Light maxMem :=
  ⟨hsame.sized h.sized, hsame.queue ▸ h.within, hsame.queue ▸ h.short⟩

theorem Light.pushMemory (h : q.Light maxMem) {arr : List (List UInt8)}
    (hlen : sumLengths arr ≤ 65535) (hfits : q.fitsMemory (sumLengths arr)) :
    (q.pushMemory arr).1.Light maxMem := by
  rw [fitsMemory, Bool.and_eq_true, decide_eq_true_eq, h.sized.maxMem, h.sized.szMem,
    sumLengths_eq arr] at hfits
  rw [sumLengths_eq] at hlen
  refine ⟨h.sized.pushMemory arr, .inr ?_, fun pl hpl ↦ ?_⟩
  · rw [pushMemory_queue, sumLengths_append]
    simpa [sumLengths] using hfits.2
  · rw [pushMemory_queue, List.mem_append, List.mem_singleton] at hpl
    rcases hpl with hpl | rfl
    · exact h.short pl hpl
    · omega

theorem Light.consume (h : q.Light maxMem) : q.consume.2.Light maxMem := by
  have hsized := h.sized.consume
  rw [PayloadQueue.consume] at hsized ⊢
  split at hsized
  · exact h
  · rename_i pl rest hqueue
    refine ⟨hsized, ?_, fun pl' hpl' ↦ h.short pl' (by simp [hqueue, hpl'])⟩
    have hwithin := h.within
    rw [hqueue, ← List.singleton_append] at hwithin
    exact (within_append hwithin).2

/-- What is read of a file is the first of its payloads. -/
theorem Loads.loadAll {pushed : Prop} {bytes part : List UInt8} {pls : List Payload}
    (h : Loads maxMem pushed bytes pls) (hpart : part <+: bytes) :
    (Payload.loadAll part).1 <+: pls := by
  obtain ⟨rest, hrest⟩ := hpart
  exact Payload.loadAll_prefix h.short (hrest.trans h.eq)

/-- **A file fits into an empty queue.** -/
theorem Light.loadFile (h : q.Light maxMem) (hfiles : q.Rolled maxMem saved) (hlisted : q.Listed)
    {key : Nat} {fn : FileName} (hentry : q.queueFns.get? key = some fn) (hqueue : q.queue = []) :
    (q.loadFile key fn).1.Light maxMem := by
  obtain ⟨hname, hthere⟩ := (hlisted.listed key fn).mp hentry
  obtain ⟨pls, hpls⟩ := hfiles.files fn (by rw [hname, splitExtension_makeQueueFile]) hthere
  have hpart : q.diskBytes fn <+: q.fileBytes fn := List.prefix_append ..
  obtain ⟨rest, hrest⟩ := hpls.loadAll hpart
  have hloaded : (q.loadFile key fn).1.queue = (Payload.loadAll (q.diskBytes fn)).1 := by
    show q.queue ++ _ = _
    rw [hqueue]
    rfl
  refine ⟨h.sized.loadFile key fn, ?_, fun pl hpl ↦ ?_⟩
  · rw [hloaded]
    exact (within_append (hrest ▸ hpls.within)).1
  · rw [hloaded] at hpl
    exact hpls.short pl (hrest ▸ List.mem_append_left _ hpl)

/-! ## Files

What is kept of the files from one operation to the next.  The test before appending is where the
bound comes from. -/

/-- Files may go, but must not change. -/
theorem Rolled.congr (h : q.Rolled maxMem saved) (hfiles : ∀ fn, r.files.get? fn ≠ none →
      q.files.get? fn ≠ none ∧ r.fileBytes fn = q.fileBytes fn)
    (hout : ∀ o, r.out = some o → ∃ o', q.out = some o' ∧ o'.file = o.file)
    (hsz : r.szOut = q.szOut) : r.Rolled maxMem saved := by
  refine ⟨fun fn hsuffix hthere ↦ ?_, fun o ho ↦ ?_⟩
  · obtain ⟨hthere', hbytes⟩ := hfiles fn hthere
    rw [hbytes]
    exact h.files fn hsuffix hthere'
  · obtain ⟨o', ho', hfile⟩ := hout o ho
    obtain ⟨hnot, hlen⟩ := h.out o' ho'
    rw [hfile] at hnot hlen
    refine ⟨hnot, fun hthere ↦ ?_⟩
    obtain ⟨hthere', hbytes⟩ := hfiles _ hthere
    rw [hbytes, hsz, hlen hthere']

/-- Nothing changes but in memory. -/
theorem Rolled.congr_files (h : q.Rolled maxMem saved) (hfiles : r.files = q.files)
    (hout : r.out = q.out) (hsz : r.szOut = q.szOut) : r.Rolled maxMem saved := by
  refine h.congr (fun fn hthere ↦ ⟨hfiles ▸ hthere, ?_⟩) (fun o ho ↦ ⟨o, hout ▸ ho, rfl⟩) hsz
  rw [fileBytes, fileBytes, bufferedFor, bufferedFor, hfiles, hout]

theorem Rolled.erase (h : q.Rolled maxMem saved) {fn : FileName}
    (hfiles : r.files = q.files.erase fn) (hout : r.out = q.out) (hsz : r.szOut = q.szOut) :
    r.Rolled maxMem saved := by
  refine h.congr (fun fn' hthere ↦ ?_) (fun o ho ↦ ⟨o, hout ▸ ho, rfl⟩) hsz
  rw [hfiles, OrdMap.get?_erase] at hthere
  split at hthere
  · exact absurd rfl hthere
  · rename_i hne
    refine ⟨hthere, ?_⟩
    rw [fileBytes, fileBytes, bufferedFor, bufferedFor, hout, hfiles, OrdMap.get?_erase_of_ne _ hne]

theorem Rolled.flush (h : q.Rolled maxMem saved) (n : Nat) : (q.flush n).Rolled maxMem saved := by
  refine h.congr (fun fn hthere ↦ ?_) (fun o ho ↦ ?_) (flush_szOut q n)
  · have hthere' : q.files.get? fn ≠ none := by simpa [flush_get?] using hthere
    exact ⟨hthere', fileBytes_flush hthere' n⟩
  · rw [flush_out] at ho
    obtain ⟨o', ho', rfl⟩ := Option.map_eq_some_iff.mp ho
    exact ⟨o', ho', rfl⟩

theorem Rolled.closeOut (h : q.Rolled maxMem saved) : q.closeOut.Rolled maxMem saved := by
  refine h.congr (fun fn hthere ↦ ?_) (fun o ho ↦ ?_) (closeOut_szOut q)
  · have hthere' : q.files.get? fn ≠ none := by simpa [closeOut_get?] using hthere
    exact ⟨hthere', fileBytes_closeOut hthere'⟩
  · rw [closeOut_out] at ho
    cases ho

/-- A file that is begun is not one that a destructor made, even if it takes the place of one. -/
theorem Rolled.newFile (h : q.Rolled maxMem saved) (now : Nat) :
    (q.newFile now).Rolled maxMem (saved.filter (· ≠ makeQueueFile now)) := by
  have hnew : (q.newFile now).fileBytes (makeQueueFile now) = [] := by
    simp [fileBytes, newFile_get?, bufferedFor]
  refine ⟨fun fn hsuffix hthere ↦ ?_, fun o ho ↦ ?_⟩
  · by_cases hfn : fn = makeQueueFile now
    · subst hfn
      exact ⟨[], by simp [Short], hnew, .inl (Nat.zero_le 1), fun _ ↦ .inl (Nat.zero_le 1)⟩
    · rw [newFile_get?, if_neg hfn, Ne, Option.map_eq_none_iff] at hthere
      obtain ⟨bytes, hbytes⟩ := Option.ne_none_iff_exists'.mp hthere
      have hsame : (q.newFile now).fileBytes fn = q.fileBytes fn := by
        simp [fileBytes, newFile_get?, hfn, hbytes, bufferedFor, Ne.symm hfn]
      obtain ⟨pls, hpls⟩ := h.files fn hsuffix hthere
      refine ⟨pls, hpls.short, hsame ▸ hpls.eq, hpls.within, fun hnot ↦ ?_⟩
      rw [hsame]
      exact hpls.pushed fun hmem ↦ hnot (List.mem_filter.mpr ⟨hmem, by simpa using hfn⟩)
  · rw [newFile_out, Option.some_inj] at ho
    subst ho
    exact ⟨by simp, fun _ ↦ by rw [hnew]; rfl⟩

/-- **The file that is open is shorter than `max_mem`, or has one payload.** -/
theorem Rolled.appendFile (h : q.Rolled maxMem saved) {arr : List (List UInt8)}
    (hlen : sumLengths arr ≤ 65535)
    (hroom : q.szOut = 0 ∨ q.szOut + (2 + sumLengths arr) < maxMem) :
    (q.appendFile arr).1.Rolled maxMem saved := by
  rw [sumLengths_eq] at hlen hroom
  have hwritten : ∀ fn, ({ q.write (Payload.save arr.flatten) with
      szOut := q.szOut + (sumLengths arr + 2) } : PayloadQueue).fileBytes fn = q.fileBytes fn ++
        if q.out.map OutFile.file = some fn then Payload.save arr.flatten else [] :=
    fileBytes_write q (Payload.save arr.flatten)
  refine appendFile_rule ⟨fun fn hsuffix hthere ↦ ?_, fun o ho ↦ ?_⟩ fun _ ↦ Rolled.closeOut
  · obtain ⟨pls, hpls⟩ := h.files fn hsuffix hthere
    rw [hwritten]
    split
    · rename_i hfile
      obtain ⟨o, ho, rfl⟩ := Option.map_eq_some_iff.mp hfile
      have hsz : (Payload.code.encodeAll pls).length = q.szOut := by
        rw [← hpls.eq]
        exact (h.out o ho).2 hthere
      have hall : q.fileBytes o.file ++ Payload.save arr.flatten =
          Payload.code.encodeAll (pls ++ [arr.flatten]) := by
        rw [hpls.eq, PrefixCode.encodeAll_append]
        simp [Payload.code]
      have hshort : Short (pls ++ [arr.flatten]) := by
        intro pl hpl
        rw [List.mem_append, List.mem_singleton] at hpl
        rcases hpl with hpl | rfl
        · exact hpls.short pl hpl
        · omega
      have hlong : (pls ++ [arr.flatten]).length ≤ 1 ∨
          (Payload.code.encodeAll (pls ++ [arr.flatten])).length < maxMem := by
        rw [← hall, hpls.eq]
        simp only [List.length_append, List.length_singleton, Payload.length_save, hsz]
        rw [length_encodeAll] at hsz
        omega
      refine ⟨pls ++ [arr.flatten], hshort, hall, ?_, fun _ ↦ by rwa [hall]⟩
      rw [length_encodeAll] at hlong
      unfold Within
      omega
    · rw [List.append_nil]
      exact ⟨pls, hpls⟩
  · obtain ⟨o', ho', rfl⟩ := Option.map_eq_some_iff.mp ho
    obtain ⟨hnot, hout⟩ := h.out o' ho'
    refine ⟨hnot, fun hthere ↦ ?_⟩
    rw [hwritten, ho', Option.map_some, if_pos rfl, List.length_append, hout hthere,
      Payload.length_save, ← sumLengths_eq]
    dsimp only
    omega

/-! ## One queue after another

Restarts are part of a run, and a destructor may leave a file longer than any other.  There is a
record of these files, and they are loaded first. -/

/-- The file that an operation begins. -/
def begun (q : PayloadQueue) : Use → Option FileName
  | .push arr now =>
    if !q.fitsMemory (sumLengths arr) && q.needsFile (sumLengths arr) then some (makeQueueFile now)
    else none
  | _ => none

/-- A queue on a directory, and the files that the destructors of those before it have made. -/
structure Succession where
  queue : PayloadQueue
  saved : List FileName

namespace Succession

/-- What happens to the queue, or to the last one. -/
inductive Event
  | use (a : Use)
  /-- The queue is destroyed when the clock reads `now`, and the next one finds the files in some
  order. -/
  | restart (now : Nat) (listing : List FileName)

/-- One event. -/
def step (s : Succession) : Event → Except Halt Succession
  | .use a => (s.queue.perform a).map fun r ↦
    ⟨r.1, s.saved.filter fun fn ↦ s.queue.begun a ≠ some fn⟩
  | .restart now listing => do
    let left ← s.queue.destroy now
    let next ← create s.queue.maxMem left.1 listing
    .ok ⟨next.1, if s.queue.queue.isEmpty then s.saved
      else makeQueueFile (s.queue.spillKey now) :: s.saved⟩

/-- Payloads have lengths that fit into two bytes, and nothing is ungot. -/
def Allowed (s : Succession) : Event → Prop
  | .use (.push arr _) => sumLengths arr ≤ 65535
  | .use (.unget _) => False
  | .use _ => True
  | .restart now listing => ∀ left, s.queue.destroy now = .ok left → Lists listing left.1

/-- The first queue has been made on a directory without spill files. -/
def Founded (maxMem : Nat) (s : Succession) : Prop :=
  ∃ files listing q calls, (∀ fn, files.get? fn ≠ none → (splitExtension fn).2 ≠ queueSuffix) ∧
    Lists listing files ∧ create maxMem files listing = .ok (q, calls) ∧
      Run.Reach step Allowed ⟨q, []⟩ s

/-- What is kept from one event to the next. -/
structure Bounded (maxMem : Nat) (s : Succession) : Prop where
  listed : s.queue.Listed
  memory : s.queue.Light maxMem
  files : s.queue.Rolled maxMem s.saved

variable {s t : Succession}

theorem filter_of_begun {a : Use} (h : q.begun a = none) :
    saved.filter (fun fn ↦ q.begun a ≠ some fn) = saved := by
  simp [h]

/-! ### Operations -/

theorem Bounded.push (h : s.Bounded maxMem) {arr : List (List UInt8)}
    (hlen : sumLengths arr ≤ 65535) (now : Nat) : Bounded maxMem ⟨(s.queue.push arr now).1,
      s.saved.filter fun fn ↦ s.queue.begun (.push arr now) ≠ some fn⟩ := by
  refine ⟨h.listed.push arr now, ?_, ?_⟩
  all_goals rw [PayloadQueue.push]
  · split
    · exact h.memory.pushMemory hlen ‹_›
    · have happend := fun r ↦ appendFile_sameMemory r arr
      split
      · exact h.memory.congr ((newFile_sameMemory _ now).trans (happend _))
      · exact h.memory.congr (happend _)
  · by_cases hfits : s.queue.fitsMemory (sumLengths arr)
    · rw [if_pos hfits, filter_of_begun (by simp [begun, hfits])]
      exact h.files.congr_files (pushMemory_files ..) (pushMemory_out ..) (pushMemory_szOut ..)
    · by_cases hneeds : s.queue.needsFile (sumLengths arr)
      · rw [if_neg hfits, if_pos hneeds]
        have hnew := (h.files.newFile now).appendFile hlen (.inl rfl)
        simpa [begun, hfits, hneeds, eq_comm] using hnew
      · rw [if_neg hfits, if_neg hneeds, filter_of_begun (by simp [begun, hneeds])]
        rw [needsFile, Bool.or_eq_true, decide_eq_true_eq, h.memory.sized.maxMem] at hneeds
        exact h.files.appendFile hlen (.inr (by omega))

theorem Bounded.peek (h : s.Bounded maxMem) : Bounded maxMem ⟨s.queue.peek.2.1, s.saved⟩ := by
  refine peek_rule (P := fun q ↦ Bounded maxMem ⟨q, s.saved⟩) (fun q key fn hentry hqueue h ↦ ?_)
    (fun q h ↦ ?_) h
  · exact ⟨h.listed.drop hentry rfl rfl, h.memory.loadFile h.files h.listed hentry hqueue,
      h.files.erase rfl rfl rfl⟩
  · exact ⟨h.listed.congr rfl fun _ ↦ Iff.rfl,
      ⟨⟨h.memory.sized.maxMem, h.memory.sized.szMem⟩, h.memory.within, h.memory.short⟩,
      h.files.congr_files rfl rfl rfl⟩

theorem Bounded.discardFile (h : s.Bounded maxMem) {calls : List Call}
    (hdiscard : s.queue.discardFile = .ok (r, calls)) : Bounded maxMem ⟨r, s.saved⟩ := by
  refine ⟨h.listed.discardFile hdiscard, h.memory.congr (discardFile_sameMemory hdiscard), ?_⟩
  rcases discardFile_cases hdiscard with ⟨-, rfl, -⟩ | ⟨key, fn, bytes, -, -, rfl, -⟩
  · exact h.files
  · exact h.files.erase rfl rfl rfl

/-- One operation. -/
theorem Bounded.perform (h : s.Bounded maxMem) {a : Use} (hok : Allowed s (.use a))
    {calls : List Call} (hperform : s.queue.perform a = .ok (r, calls)) :
    Bounded maxMem ⟨r, s.saved.filter fun fn ↦ s.queue.begun a ≠ some fn⟩ := by
  cases a with
  | push arr now =>
    obtain ⟨rfl, -⟩ := Prod.mk.inj (Except.ok.inj hperform)
    exact h.push hok now
  | peek =>
    obtain ⟨rfl, -⟩ := Prod.mk.inj (Except.ok.inj hperform)
    rw [filter_of_begun rfl]
    exact h.peek
  | consume =>
    obtain ⟨rfl, -⟩ := Prod.mk.inj (Except.ok.inj hperform)
    rw [filter_of_begun rfl]
    refine ⟨?_, h.memory.consume, ?_⟩
    · rw [PayloadQueue.consume]
      split <;> exact h.listed.congr rfl fun _ ↦ Iff.rfl
    · rw [PayloadQueue.consume]
      split <;> exact h.files.congr_files rfl rfl rfl
  | unget pl => exact hok.elim
  | poke =>
    have hpoke : s.queue.poke.1 = r := congrArg Prod.fst (Except.ok.inj hperform)
    rw [filter_of_begun rfl, ← hpoke, poke_queue]
    exact h.peek
  | flush n =>
    obtain ⟨rfl, -⟩ := Prod.mk.inj (Except.ok.inj hperform)
    rw [filter_of_begun rfl]
    exact ⟨h.listed.flush n, h.memory.congr (flush_sameMemory _ n), h.files.flush n⟩
  | discard =>
    rw [filter_of_begun rfl]
    exact h.discardFile hperform

/-! ### Restarts

The queue after a restart has nothing in memory, and finds files that were made under the same
bounds. -/

theorem light_fresh (fns : OrdMap Nat FileName) (files : OrdMap FileName (List UInt8)) :
    (fresh maxMem fns files).Light maxMem :=
  ⟨sized_fresh .., .inl (Nat.zero_le 1), nofun⟩

/-- **What was in memory can be loaded again.** -/
theorem Bounded.spill (h : s.Bounded maxMem) (now : Nat) (fns : OrdMap Nat FileName) :
    (fresh maxMem fns (s.queue.spill now).closeOut.files).Rolled maxMem
      (if s.queue.queue.isEmpty then s.saved
        else makeQueueFile (s.queue.spillKey now) :: s.saved) := by
  refine ⟨fun fn hsuffix hthere ↦ ?_, nofun⟩
  have hbytes : (fresh maxMem fns (s.queue.spill now).closeOut.files).fileBytes fn =
      ((s.queue.spill now).closeOut.files.get? fn).getD [] := List.append_nil _
  rw [hbytes]
  change (s.queue.spill now).closeOut.files.get? fn ≠ none at hthere
  rw [spill_closeOut_get?] at hthere ⊢
  by_cases hnew : s.queue.queue ≠ [] ∧ fn = makeQueueFile (s.queue.spillKey now)
  · rw [if_pos hnew, if_neg (mt List.isEmpty_iff.mp hnew.1), hnew.2]
    exact ⟨s.queue.queue, h.memory.short, rfl, h.memory.within,
      fun hnot ↦ absurd List.mem_cons_self hnot⟩
  · rw [if_neg hnew] at hthere ⊢
    rw [Ne, Option.map_eq_none_iff] at hthere
    obtain ⟨bytes, hget⟩ := Option.ne_none_iff_exists'.mp hthere
    obtain ⟨pls, hpls⟩ := h.files.files fn hsuffix hthere
    rw [fileBytes, hget] at hpls
    rw [hget]
    refine ⟨pls, hpls.short, hpls.eq, hpls.within, fun hnot ↦ hpls.pushed fun hmem ↦ hnot ?_⟩
    split
    · exact hmem
    · exact List.mem_cons_of_mem _ hmem

/-- **The step lemma.** -/
theorem Bounded.step (h : s.Bounded maxMem) {e : Event} (hok : Allowed s e)
    (hstep : s.step e = .ok t) : t.Bounded maxMem := by
  cases e with
  | use a =>
    obtain ⟨r, hperform, rfl⟩ := map_ok hstep
    exact h.perform hok hperform
  | restart now listing =>
    obtain ⟨sum, hdestroy⟩ := h.listed.destroy now
    have hlists := hok _ hdestroy
    rw [Succession.step, hdestroy, h.memory.sized.maxMem] at hstep
    cases hcreate : create maxMem (s.queue.spill now).closeOut.files listing with
    | error x =>
      simp only [bind, Except.bind, hcreate] at hstep
      cases hstep
    | ok next =>
      simp only [bind, Except.bind, hcreate] at hstep
      cases hstep
      have hlisted := create_listed (h.listed.spill now).closeOut.named hlists hcreate
      obtain ⟨found, -, hnext, -⟩ := create_scan hcreate
      rw [hnext] at hlisted ⊢
      exact ⟨hlisted, light_fresh .., h.spill now _⟩

/-- There is nothing to be loaded at first. -/
theorem bounded_create {files : OrdMap FileName (List UInt8)} {listing : List FileName}
    {calls : List Call} (hnone : ∀ fn, files.get? fn ≠ none → (splitExtension fn).2 ≠ queueSuffix)
    (hlists : Lists listing files) (hcreate : create maxMem files listing = .ok (q, calls)) :
    Bounded maxMem ⟨q, []⟩ := by
  have hlisted := create_listed (fun fn hthere hsuffix ↦ absurd hsuffix (hnone fn hthere)) hlists
    hcreate
  obtain ⟨found, -, rfl, -⟩ := create_scan hcreate
  exact ⟨hlisted, light_fresh .., fun fn hsuffix hthere ↦ absurd hsuffix (hnone fn hthere), nofun⟩

theorem Founded.bounded (h : s.Founded maxMem) : s.Bounded maxMem := by
  obtain ⟨files, listing, q, calls, hnone, hlists, hcreate, hreach⟩ := h
  exact hreach.invariant (bounded_create hnone hlists hcreate) fun _ _ _ hs hok ↦ hs.step hok

/-- **Memory is bounded**, in every queue on the directory.  `sz_mem` is the size of what is in
memory, which is less than `max_mem` if there is more than one payload.  If more than one can be
read of what push has written to a file, or of a part of that, then the file is shorter than
`max_mem`. -/
theorem memory_bounded (h : s.Founded maxMem) :
    s.queue.szMem = sumLengths s.queue.queue ∧
      (∀ pl ∈ s.queue.queue.head?, pl.length ≤ s.queue.szMem) ∧
      (s.queue.queue.length ≤ 1 ∨ s.queue.szMem < maxMem) ∧
      ∀ fn, (splitExtension fn).2 = queueSuffix → s.queue.files.get? fn ≠ none → fn ∉ s.saved →
        ∀ part, part <+: s.queue.fileBytes fn → 1 < (Payload.loadAll part).1.length →
          (s.queue.fileBytes fn).length < maxMem := by
  have hb := h.bounded
  have hsz := hb.memory.sized.szMem
  refine ⟨hsz, fun pl hpl ↦ ?_, ?_, fun fn hsuffix hthere hnot part hpart hmany ↦ ?_⟩
  · obtain ⟨rest, hqueue⟩ := List.head?_eq_some_iff.mp hpl
    rw [hsz, hqueue, sumLengths, List.map_cons, List.sum_cons]
    exact Nat.le_add_right ..
  · rw [hsz]
    exact hb.memory.within
  · obtain ⟨pls, hpls⟩ := hb.files.files fn hsuffix hthere
    exact (hpls.pushed hnot).resolve_left
      (not_le_of_gt (hmany.trans_le (hpls.loadAll hpart).length_le))

instance (s : Succession) : DecidablePred (Allowed s)
  | .use (.push arr _) => inferInstanceAs (Decidable (sumLengths arr ≤ 65535))
  | .use (.unget _) => .isFalse id
  | .use .peek | .use .consume | .use .poke | .use (.flush _) | .use .discard => .isTrue trivial
  | .restart now listing => inferInstanceAs (Decidable (∀ left, s.queue.destroy now = .ok left →
      listing.Perm (left.1.entries.map Prod.fst)))

/-- Two payloads in memory and two in a file, which is all there when the next queue begins. -/
theorem memory_bounded_restarted : ∃ s : Succession, s.Founded 8 ∧
    s.queue.queue = [[1, 1, 1], [2, 2, 2, 2]] ∧ s.queue.szMem < 8 ∧
      s.queue.fileBytes (makeQueueFile 7) = Payload.save [3, 3] ++ Payload.save [4] ∧
        (s.queue.fileBytes (makeQueueFile 7)).length < 8 := by
  have hrun : Run.Checks step Allowed ⟨fresh 8 .empty .empty, []⟩
      [.use (.push [[1, 1, 1]] 4), .use (.push [[2, 2], [2, 2]] 5), .use (.push [[3, 3]] 7),
        .use (.push [[4]] 8), .restart 9 [makeQueueFile 7, makeQueueFile 6], .use .peek]
      fun s ↦ s.queue.queue = [[1, 1, 1], [2, 2, 2, 2]] ∧
        s.queue.files.get? (makeQueueFile 7) = some (Payload.save [3, 3] ++ Payload.save [4]) ∧
          s.queue.out = none ∧ makeQueueFile 7 ∉ s.saved := by
    decide +kernel
  obtain ⟨s, hreach, hqueue, hget, hout, hnot⟩ := hrun.reach
  have hfounded : s.Founded 8 :=
    ⟨.empty, [], _, _, nofun, List.Perm.nil, rfl, hreach⟩
  have hbytes : s.queue.fileBytes (makeQueueFile 7) = Payload.save [3, 3] ++ Payload.save [4] := by
    simp [fileBytes, hget, bufferedFor, hout]
  obtain ⟨-, -, hmem, hfiles⟩ := memory_bounded hfounded
  refine ⟨s, hfounded, hqueue, hmem.resolve_left (by simp [hqueue]), hbytes, ?_⟩
  refine hfiles _ (splitExtension_makeQueueFile 7 ▸ rfl) (by simp [hget]) hnot _ List.prefix_rfl ?_
  rw [hbytes]
  decide +kernel

end Succession

/-! ## Payloads that are too long

A record says its length in two bytes.  A payload for which these are not enough is read back as
something else, and nothing is known of how much that is. -/

/-- A payload that does not fit into memory goes to a file, and comes back as what is read of
that. -/
theorem peek_push_fresh {pl : List UInt8} (h : maxMem ≤ pl.length) (now : Nat) :
    ((fresh maxMem .empty .empty).push [pl] now).1.peek.2.1.queue =
      (Payload.loadAll (Payload.save pl)).1 := by
  have hlen : sumLengths [pl] = pl.length := by simp [sumLengths]
  have hfits : (fresh maxMem .empty .empty).fitsMemory (sumLengths [pl]) = false := by
    rw [fitsMemory, hlen, Bool.and_eq_false_iff]
    exact .inr (decide_eq_false (by simpa [fresh] using h))
  have hpush : ((fresh maxMem .empty .empty).push [pl] now).1 =
      (((fresh maxMem .empty .empty).newFile now).appendFile [pl]).1 := by
    rw [push, hfits, if_neg Bool.false_ne_true]
    rfl
  have hbytes : (((fresh maxMem .empty .empty).newFile now).appendFile [pl]).1.files.get?
      (makeQueueFile now) = some (Payload.save pl) := by
    rw [appendFile]
    dsimp only
    rw [if_pos, closeOut_get?]
    · simp [write, newFile_get?, bufferedFor]
    · show maxMem ≤ 0 + (sumLengths [pl] + 2)
      omega
  have hentries : (((fresh maxMem .empty .empty).newFile now).appendFile [pl]).1.queueFns.entries =
      [(now, makeQueueFile now)] := by
    rw [appendFile_queueFns, newFile_queueFns]
    rfl
  have hqueue : (((fresh maxMem .empty .empty).newFile now).appendFile [pl]).1.queue = [] := by
    rw [appendFile_queue, newFile_queue]
    rfl
  rw [hpush]
  generalize (((fresh maxMem .empty .empty).newFile now).appendFile [pl]).1 = q at *
  rw [peek, hqueue, hentries]
  have hload : (q.loadFile now (makeQueueFile now)).1.queue =
      (Payload.loadAll (Payload.save pl)).1 := by
    show q.queue ++ _ = _
    rw [hqueue, hbytes]
    rfl
  rw [← hload]
  simp only [List.isEmpty_nil, if_true, loadHeadFile]
  split <;> rfl

/-- Payloads whose file has a length of which two bytes say nothing. -/
theorem save_encodeAll {pls : List Payload} (h : (Payload.code.encodeAll pls).length = 65536) :
    Payload.save (Payload.code.encodeAll pls) = Payload.code.encodeAll ([] :: pls) := by
  rw [Payload.save, h, PrefixCode.encodeAll_cons]
  rfl

/-- Two payloads, as they are written to a file. -/
def twoSaved (n : Nat) : List UInt8 :=
  Payload.code.encodeAll [List.replicate n 0, List.replicate n 0]

theorem peek_twoSaved {n : Nat} (h : 2 * n + 4 = 65536) (hmax : maxMem ≤ 65536) (now : Nat) :
    ((fresh maxMem .empty .empty).push [twoSaved n] now).1.peek.2.1.queue =
      [[], List.replicate n 0, List.replicate n 0] := by
  have hlen : (twoSaved n).length = 65536 := by
    rw [twoSaved, length_encodeAll, ← h]
    simp [sumLengths]
    omega
  rw [peek_push_fresh (hlen ▸ hmax), twoSaved, save_encodeAll hlen, Payload.loadAll_encodeAll]
  simp
  omega

/-- A payload of 65536 bytes is read back as three, which exceed the limit. -/
theorem oversized_exceeds : ∃ q calls, create 10 .empty [] = .ok (q, calls) ∧
    (q.push [twoSaved 32766] 5).1.peek.2.1.queue.length = 3 ∧
      10 ≤ (q.push [twoSaved 32766] 5).1.peek.2.1.szMem := by
  refine ⟨fresh 10 .empty .empty, _, rfl, ?_⟩
  obtain ⟨n, hn⟩ : ∃ n, n = 32766 := ⟨_, rfl⟩
  rw [← hn]
  have hqueue := peek_twoSaved (show 2 * n + 4 = 65536 by omega) (show 10 ≤ 65536 by decide) 5
  have hsized := (((sized_fresh 10 .empty .empty).push [twoSaved n] 5).peek).szMem
  rw [hqueue] at hsized
  rw [hqueue, hsized]
  simp [sumLengths]
  omega

end PayloadQueue
end UdpTun
