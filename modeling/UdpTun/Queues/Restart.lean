import UdpTun.Lib.Run
import UdpTun.Queues.Construction
import UdpTun.Queues.Contents
import UdpTun.Queues.Notices

/-!
# Destroying a queue and making it again

The destructor of `PayloadQueue` saves what is in memory to a file whose key is below those of all
others, and the constructor of the next queue on the same directory finds the files there, whatever
the order in which the directory lists them.

A queue knows its directory: `queue_fns` lists exactly the spill files in it, each under the key it
is named after (`Listed`).  Every operation keeps this.  It follows that the two queues list the
same files but for the one that was made in between (`restart_exact`): what the second one gives out
is what was in memory, and then what was in files.
-/

set_option autoImplicit false

namespace UdpTun
namespace PayloadQueue

/-! ## Queues in use

The state that a restart begins with is any that a queue can come to, on a directory in which all
spill files have names that a queue gives.  Other files may be there; the constructor passes them
over. -/

/-- One operation, as far as the queue is concerned. -/
def use (q : PayloadQueue) (a : Use) : Except Halt PayloadQueue := (q.perform a).map Prod.fst

/-- The directory is the queue's own: the spill files in it have names that it gives. -/
def SpillNamed (files : OrdMap FileName (List UInt8)) : Prop :=
  ∀ fn, files.get? fn ≠ none → (splitExtension fn).2 = queueSuffix →
    ∃ key, fn = makeQueueFile key

/-- A queue that has been made on some directory of its own, and used. -/
def Served (maxMem : Nat) (q : PayloadQueue) : Prop :=
  ∃ files listing q₀ calls, SpillNamed files ∧ Lists listing files ∧
    create maxMem files listing = .ok (q₀, calls) ∧ Run.Reach use Run.anyStep q₀ q

/-- Take all there is out of a queue: `peek` and `consume`, until a peek shows nothing. -/
def drain : Nat → PayloadQueue → Option (List Payload)
  | 0, _ => none
  | fuel + 1, q =>
    match q.peek with
    | (none, _, _) => some []
    | (some _, q, _) =>
      match q.consume with
      | (none, _) => none
      | (some pl, q) => (drain fuel q).map (pl :: ·)

/-- The records of a file are these, and what comes after them, if anything, is not a whole one. -/
def RecordsOf (bytes : List UInt8) (pls : List Payload) : Prop :=
  ∃ rest, bytes = Payload.code.encodeAll pls ++ rest ∧ (∀ pl ∈ pls, pl.length < 65536) ∧
    Payload.load rest = none

/-- `queue_fns` lists the spill files that are there, under their keys. -/
structure Listed (q : PayloadQueue) : Prop where
  named : SpillNamed q.files
  listed : ∀ key fn, q.queueFns.get? key = some fn ↔
    fn = makeQueueFile key ∧ q.files.get? fn ≠ none

variable {maxMem : Nat} {q r : PayloadQueue} {files : OrdMap FileName (List UInt8)}
  {listing : List FileName}

/-! ## The operations keep the list

The list and the directory change together, one file at a time.  What the stream does to a file that
is there already changes neither. -/

theorem Listed.name_eq (h : q.Listed) {p : Nat × FileName} (hp : p ∈ q.queueFns.entries) :
    p.2 = makeQueueFile p.1 ∧ q.files.get? p.2 ≠ none :=
  (h.listed p.1 p.2).mp (OrdMap.mem_entries.mp hp)

/-- The files that are there, and their list, are all that matters. -/
theorem Listed.congr (h : q.Listed) (hfns : r.queueFns = q.queueFns)
    (hfiles : ∀ fn, r.files.get? fn = none ↔ q.files.get? fn = none) : r.Listed := by
  refine ⟨fun fn hfn ↦ h.named fn (by rwa [Ne, hfiles] at hfn), fun key fn ↦ ?_⟩
  rw [hfns, h.listed, Ne, Ne, hfiles]

/-- A file and its entry are made together. -/
theorem Listed.add (h : q.Listed) {key : Nat}
    (hfns : r.queueFns = q.queueFns.insert key (makeQueueFile key))
    (hfiles : ∀ fn, r.files.get? fn = none ↔ fn ≠ makeQueueFile key ∧ q.files.get? fn = none) :
    r.Listed := by
  refine ⟨fun fn hfn hsuffix ↦ ?_, fun key' fn ↦ ?_⟩
  · rw [Ne, hfiles, not_and_or, not_not] at hfn
    rcases hfn with rfl | hfn
    · exact ⟨key, rfl⟩
    · exact h.named fn hfn hsuffix
  · rw [hfns, OrdMap.get?_insert, Ne, hfiles]
    by_cases hkey : key' = key
    · subst hkey
      rw [if_pos rfl, Option.some_inj]
      constructor
      · rintro rfl
        exact ⟨rfl, fun hno ↦ hno.1 rfl⟩
      · exact fun heq ↦ heq.1.symm
    · rw [if_neg hkey, h.listed]
      refine and_congr_right fun heq ↦ ?_
      have hne : fn ≠ makeQueueFile key := by
        rw [heq]
        exact fun hname ↦ hkey (makeQueueFile_inj hname)
      simp [hne]

/-- A file and its entry go together. -/
theorem Listed.drop (h : q.Listed) {key : Nat} {fn : FileName}
    (hentry : q.queueFns.get? key = some fn) (hfns : r.queueFns = q.queueFns.erase key)
    (hfiles : r.files = q.files.erase fn) : r.Listed := by
  obtain ⟨rfl, -⟩ := (h.listed key fn).mp hentry
  refine ⟨fun fn hfn ↦ h.named fn ?_, fun key' fn ↦ ?_⟩
  · rw [hfiles, OrdMap.get?_erase] at hfn
    exact fun hnone ↦ hfn (by simp [hnone])
  · rw [hfns, hfiles, OrdMap.get?_erase, OrdMap.get?_erase]
    by_cases hkey : key' = key
    · subst hkey
      simp +contextual
    · rw [if_neg hkey, h.listed]
      refine and_congr_right fun heq ↦ ?_
      have hne : fn ≠ makeQueueFile key := by
        rw [heq]
        exact fun hname ↦ hkey (makeQueueFile_inj hname)
      rw [if_neg hne]

theorem Listed.flush (h : q.Listed) (n : Nat) : (q.flush n).Listed :=
  h.congr (flush_queueFns q n) fun fn ↦ by rw [flush_get?, Option.map_eq_none_iff]

theorem Listed.closeOut (h : q.Listed) : q.closeOut.Listed :=
  h.congr (closeOut_queueFns q) fun fn ↦ by rw [closeOut_get?, Option.map_eq_none_iff]

theorem Listed.appendFile (h : q.Listed) (arr : List (List UInt8)) : (q.appendFile arr).1.Listed :=
  appendFile_rule (h.congr rfl fun _ ↦ Iff.rfl) fun _ ↦ Listed.closeOut

theorem Listed.newFile (h : q.Listed) (now : Nat) : (q.newFile now).Listed := by
  refine h.add (newFile_queueFns q now) fun fn ↦ ?_
  rw [newFile_get?]
  split <;> rename_i hfn <;> simp [hfn]

theorem Listed.push (h : q.Listed) (arr : List (List UInt8)) (now : Nat) :
    (q.push arr now).1.Listed := by
  have hmemory : (q.pushMemory arr).1.Listed :=
    h.congr (pushMemory_queueFns q arr) fun fn ↦ by rw [pushMemory_files]
  exact push_rule hmemory (h.newFile now) (fun _ h ↦ h.appendFile arr) h

theorem Listed.peek (h : q.Listed) : q.peek.2.1.Listed :=
  peek_rule (fun _ _ _ hentry _ h ↦ h.drop hentry rfl rfl)
    (fun _ h ↦ h.congr rfl fun _ ↦ Iff.rfl) h

theorem Listed.discardFile (h : q.Listed) {calls : List Call}
    (hdiscard : q.discardFile = .ok (r, calls)) : r.Listed := by
  rcases discardFile_cases hdiscard with ⟨-, rfl, -⟩ | ⟨key, fn, bytes, hfirst, -, rfl, -⟩
  · exact h
  · have hentry : q.queueFns.get? key = some fn :=
      OrdMap.mem_entries.mp (List.mem_of_mem_head? hfirst)
    exact h.drop hentry rfl rfl

/-- **The step lemma.** -/
theorem Listed.perform (h : q.Listed) {a : Use} {calls : List Call}
    (hperform : q.perform a = .ok (r, calls)) : r.Listed := by
  cases a with
  | push arr now =>
    obtain ⟨rfl, -⟩ := Prod.mk.inj (Except.ok.inj hperform)
    exact h.push arr now
  | peek =>
    obtain ⟨rfl, -⟩ := Prod.mk.inj (Except.ok.inj hperform)
    exact h.peek
  | consume =>
    obtain ⟨rfl, -⟩ := Prod.mk.inj (Except.ok.inj hperform)
    rw [PayloadQueue.consume]
    split <;> exact h.congr rfl fun _ ↦ Iff.rfl
  | unget pl =>
    obtain ⟨rfl, -⟩ := Prod.mk.inj (Except.ok.inj hperform)
    cases pl <;> exact h.congr rfl fun _ ↦ Iff.rfl
  | poke =>
    have hpoke : q.poke.1 = r := congrArg Prod.fst (Except.ok.inj hperform)
    rw [← hpoke, poke_queue]
    exact h.peek
  | flush n =>
    obtain ⟨rfl, -⟩ := Prod.mk.inj (Except.ok.inj hperform)
    exact h.flush n
  | discard => exact h.discardFile hperform

/-! ## What the constructor finds

The list it makes depends on the directory alone.  So it does not matter in which order the files
are met. -/

/-- **The constructor lists what is there**, and has nothing in memory. -/
theorem create_listed {calls : List Call} (hnamed : SpillNamed files) (hlists : Lists listing files)
    (h : create maxMem files listing = .ok (q, calls)) : q.Listed := by
  obtain ⟨found, hscan, rfl, -⟩ := create_scan h
  have hname : ∀ key fn, found.1.get? key = some fn →
      fn = makeQueueFile key ∧ files.get? fn ≠ none := by
    intro key fn hget
    obtain ⟨hkey, hmem⟩ := scan_get? hscan hget
    have hthere := (mem_listing hlists).mp hmem
    obtain ⟨j, rfl⟩ := hnamed fn hthere (suffix_of_fileKey hkey)
    rw [eq_of_fileKey hkey]
    exact ⟨rfl, hthere⟩
  refine ⟨hnamed, fun key fn ↦ ⟨hname key fn, ?_⟩⟩
  rintro ⟨rfl, hthere⟩
  have hmem := (mem_listing hlists).mpr hthere
  have hkey : fileKey (makeQueueFile key) = some key := by
    obtain ⟨k, hk⟩ := scan_parses hscan hmem (by rw [splitExtension_makeQueueFile])
    rw [hk, eq_of_fileKey hk]
  obtain ⟨fn, hget⟩ := Option.ne_none_iff_exists'.mp ((scan_ne_none hscan).mpr ⟨_, hmem, hkey⟩)
  exact (hname key fn hget).1 ▸ hget

theorem Served.listed (h : Served maxMem q) : q.Listed := by
  obtain ⟨files, listing, q₀, calls, hnamed, hlists, hcreate, hreach⟩ := h
  refine hreach.invariant (create_listed hnamed hlists hcreate) fun _ a _ ht _ hstep ↦ ?_
  obtain ⟨r, hperform, rfl⟩ := map_ok hstep
  exact ht.perform hperform

/-- Two queues on the same directory list the same files. -/
theorem Listed.queueFns_eq (h : q.Listed) (h' : r.Listed)
    (hfiles : ∀ fn, r.files.get? fn = none ↔ q.files.get? fn = none) : r.queueFns = q.queueFns :=
  OrdMap.ext_get? fun key ↦ Option.ext fun fn ↦ by rw [h.listed, h'.listed, Ne, Ne, hfiles]

/-! ## Taking all out

What a queue holds is what `drain` gives, as each peek shows the head of it.  So two queues give the
same when they hold the same. -/

/-- **What comes out is what is held.** -/
theorem drain_held {fuel : Nat} (h : q.held.length < fuel) : q.drain fuel = some q.held := by
  induction fuel generalizing q with
  | zero => omega
  | succ fuel ih =>
    have hpeek := held_peek q
    rw [drain]
    rcases hq : q.peek with ⟨shown, q', calls⟩
    rw [hq] at hpeek
    dsimp only at hpeek ⊢
    cases shown with
    | none =>
      rcases peek_cases q with ⟨hsome, -⟩ | ⟨-, hqueue, hfns, -⟩
      · rw [hq] at hsome
        cases hsome
      · rw [hq] at hqueue hfns
        have hnil : q'.held = [] := by
          rw [held, hfns]
          exact hqueue
        rw [← hpeek, hnil]
    | some pl =>
      have hhead := (queue_peek q).2 pl (by rw [hq])
      rw [hq] at hhead
      obtain ⟨q₁, hconsume, -, hheld⟩ := held_consume hhead
      rw [← hpeek, hheld, List.length_cons] at h
      simp only [hconsume, ih (Nat.lt_of_succ_lt_succ h), Option.map_some, ← hpeek, hheld]

/-- Files of different names are read independently of each other. -/
theorem loaded_eq {es : List (Nat × FileName)} (h : (es.map Prod.snd).Nodup) :
    loaded es q = q.queue ++ es.flatMap fun p ↦
      (Payload.loadAll ((q.files.get? p.2).getD [])).1 := by
  induction es generalizing q with
  | nil => simp [loaded]
  | cons p rest ih =>
    obtain ⟨key, fn⟩ := p
    rw [List.map_cons, List.nodup_cons] at h
    have hothers : ∀ p ∈ rest, (q.loadFile key fn).1.files.get? p.2 = q.files.get? p.2 := by
      intro p hp
      refine OrdMap.get?_erase_of_ne _ fun heq ↦ h.1 ?_
      exact List.mem_map.mpr ⟨p, hp, heq⟩
    rw [loaded, ih h.2, List.flatMap_cons]
    have hqueue : (q.loadFile key fn).1.queue =
        q.queue ++ (Payload.loadAll ((q.files.get? fn).getD [])).1 := rfl
    rw [hqueue, List.append_assoc]
    congr 2
    exact List.flatMap_congr fun p hp ↦ by rw [hothers p hp]

theorem recordsOf_loadAll (bytes : List UInt8) :
    RecordsOf bytes (Payload.loadAll bytes).1 := by
  obtain ⟨rest, hvalid, hbytes, hnone, -⟩ := Payload.loadAll_spec bytes
  exact ⟨rest, hbytes, hvalid, hnone⟩

/-! ## What the destructor leaves

The key of the new file is one less than that of the first file, or than what the clock reads if
there are none.  What the stream has kept back is written as well, since `out` is closed. -/

section spill

variable {now : Nat}

/-- The keys of the files can be written and read back. -/
def KeysFit (q : PayloadQueue) : Prop := ∀ p ∈ q.queueFns.entries, 1 ≤ p.1 ∧ p.1 < 2 ^ 63

theorem spillKey_of_nil (h : q.queueFns.entries = []) (hnow : 1 ≤ now) (hlt : now < 2 ^ 63) :
    q.spillKey now = now - 1 := by
  rw [spillKey, OrdMap.first?, h]
  simp only [List.head?_nil]
  omega

/-- **The key is below all others.** -/
theorem spillKey_lt (hkeys : q.KeysFit) (now : Nat) :
    ∀ p ∈ q.queueFns.entries, q.spillKey now < p.1 := by
  intro p hp
  cases hentries : q.queueFns.entries with
  | nil => simp [hentries] at hp
  | cons first rest =>
    obtain ⟨hpos, hlt⟩ := hkeys first (by simp [hentries])
    have hkey : q.spillKey now = first.1 - 1 := by
      rw [spillKey, OrdMap.first?, hentries]
      simp only [List.head?_cons]
      omega
    have hle : first.1 ≤ p.1 := by
      have hs := q.queueFns.sorted
      rw [hentries] at hs hp
      rcases List.mem_cons.mp hp with rfl | hrest
      · exact le_rfl
      · exact (List.rel_of_pairwise_cons hs hrest).le
    omega

theorem spillKey_fits (hkeys : q.KeysFit) (hnow : 1 ≤ now ∧ now < 2 ^ 63) :
    q.spillKey now < 2 ^ 63 := by
  cases hentries : q.queueFns.entries with
  | nil =>
    rw [spillKey_of_nil hentries hnow.1 hnow.2]
    omega
  | cons p rest =>
    have hp : p ∈ q.queueFns.entries := by simp [hentries]
    exact (spillKey_lt hkeys now p hp).trans (hkeys p hp).2

theorem spill_of_nil (h : q.queue = []) (now : Nat) : q.spill now = q := by
  rw [spill, if_pos (List.isEmpty_iff.mpr h)]

theorem spill_queueFns (h : q.queue ≠ []) (now : Nat) : (q.spill now).queueFns =
    q.queueFns.insert (q.spillKey now) (makeQueueFile (q.spillKey now)) := by
  rw [spill, if_neg (mt List.isEmpty_iff.mp h)]
  dsimp only
  rw [closeOut_queueFns]
  show q.closeOut.queueFns.insert _ _ = _
  rw [closeOut_queueFns]

/-- What is in memory goes to the new file, and what `out` has kept back to the file it is for. -/
theorem spill_get? (h : q.queue ≠ []) (now : Nat) (fn : FileName) : (q.spill now).files.get? fn =
    if fn = makeQueueFile (q.spillKey now) then some (Payload.code.encodeAll q.queue)
    else (q.files.get? fn).map (· ++ q.bufferedFor fn) := by
  rw [spill, if_neg (mt List.isEmpty_iff.mp h)]
  dsimp only
  rw [closeOut_get?, closeOut_queue]
  by_cases hfn : fn = makeQueueFile (q.spillKey now)
  · simp [write, bufferedFor, hfn, PrefixCode.encodeAll, Payload.code]
  · simp [write, bufferedFor, hfn, Ne.symm hfn, OrdMap.get?_insert_of_ne, closeOut_get?,
      Function.comp_def]

theorem spill_out (h : q.queue ≠ []) (now : Nat) : (q.spill now).out = none := by
  rw [spill, if_neg (mt List.isEmpty_iff.mp h)]
  exact closeOut_out _

theorem Listed.spill (h : q.Listed) (now : Nat) : (q.spill now).Listed := by
  by_cases hqueue : q.queue = []
  · rwa [spill_of_nil hqueue]
  · refine h.add (spill_queueFns hqueue now) fun fn ↦ ?_
    rw [spill_get? hqueue]
    split <;> rename_i hfn <;> simp [hfn]

/-- What is there once `out` has been closed. -/
theorem spill_closeOut_get? (now : Nat) (fn : FileName) : (q.spill now).closeOut.files.get? fn =
    if q.queue ≠ [] ∧ fn = makeQueueFile (q.spillKey now) then
      some (Payload.code.encodeAll q.queue)
    else (q.files.get? fn).map (· ++ q.bufferedFor fn) := by
  rw [closeOut_get?]
  by_cases hqueue : q.queue = []
  · simp [spill_of_nil hqueue, hqueue]
  · rw [spill_get? hqueue, bufferedFor, spill_out hqueue]
    simp [hqueue]

/-- The sizes of files that are there can be had. -/
theorem sizeOfFiles_some {es : List (Nat × FileName)} (h : ∀ p ∈ es, q.files.get? p.2 ≠ none) :
    ∃ sum, q.sizeOfFiles es = some sum := by
  induction es with
  | nil => exact ⟨0, rfl⟩
  | cons p rest ih =>
    obtain ⟨key, fn⟩ := p
    obtain ⟨bytes, hget⟩ := Option.ne_none_iff_exists'.mp (h (key, fn) List.mem_cons_self)
    obtain ⟨sum, hsum⟩ := ih fun p hp ↦ h p (List.mem_cons_of_mem _ hp)
    exact ⟨bytes.length + sum, by simp [sizeOfFiles, hget, hsum]⟩

theorem Listed.destroy (h : q.Listed) (now : Nat) :
    ∃ sum, q.destroy now = .ok ((q.spill now).closeOut.files, sum) := by
  obtain ⟨sum, hsum⟩ := sizeOfFiles_some (q := q.spill now) fun p hp ↦ ((h.spill now).name_eq hp).2
  exact ⟨sum, by simp [PayloadQueue.destroy, hsum]⟩

end spill

/-- The directory left behind is the next queue's own, whether the queue is destroyed or just stops
being there. -/
theorem Served.leaves_named (h : Served maxMem q) {now : Nat} : SpillNamed q.files ∧
    ∀ files sum, q.destroy now = .ok (files, sum) → SpillNamed files := by
  refine ⟨h.listed.named, fun files sum hdestroy ↦ ?_⟩
  obtain ⟨sum', hleft⟩ := h.listed.destroy now
  rw [hleft] at hdestroy
  obtain ⟨rfl, -⟩ := Prod.mk.inj (Except.ok.inj hdestroy)
  exact (h.listed.spill now).closeOut.named

/-! ## The next queue

Its list is that of the old one with the new file in front, and of each file what is left is what
was in it and in the stream. -/

/-- What is read back of the files, once the queue is destroyed. -/
theorem flatMap_spill (h : q.Listed) (hkeys : q.KeysFit) (hmem : ∀ pl ∈ q.queue, pl.length ≤ 65535)
    (now : Nat) :
    ((q.spill now).queueFns.entries.flatMap fun p ↦
      (Payload.loadAll (((q.spill now).closeOut.files.get? p.2).getD [])).1) =
    q.queue ++ q.queueFns.entries.flatMap fun p ↦ (Payload.loadAll (q.fileBytes p.2)).1 := by
  have hrest : ∀ p ∈ q.queueFns.entries,
      ((q.spill now).closeOut.files.get? p.2).getD [] = q.fileBytes p.2 := by
    intro p hp
    obtain ⟨hname, hthere⟩ := h.name_eq hp
    obtain ⟨bytes, hget⟩ := Option.ne_none_iff_exists'.mp hthere
    have hne : p.2 ≠ makeQueueFile (q.spillKey now) := by
      rw [hname]
      exact fun heq ↦ (spillKey_lt hkeys now p hp).ne' (makeQueueFile_inj heq)
    rw [spill_closeOut_get?, if_neg fun hnew ↦ hne hnew.2, hget, fileBytes, hget]
    rfl
  have hfiles : (q.queueFns.entries.flatMap fun p ↦
      (Payload.loadAll (((q.spill now).closeOut.files.get? p.2).getD [])).1) =
      q.queueFns.entries.flatMap fun p ↦ (Payload.loadAll (q.fileBytes p.2)).1 :=
    List.flatMap_congr fun p hp ↦ by rw [hrest p hp]
  by_cases hqueue : q.queue = []
  · rw [← hfiles, spill_of_nil hqueue, hqueue, List.nil_append]
  · have hnew : ((q.spill now).closeOut.files.get? (makeQueueFile (q.spillKey now))).getD [] =
        Payload.code.encodeAll q.queue := by
      rw [spill_closeOut_get?, if_pos ⟨hqueue, rfl⟩]
      rfl
    have hload : (Payload.loadAll (Payload.code.encodeAll q.queue)).1 = q.queue := by
      rw [Payload.loadAll_encodeAll fun pl hpl ↦ Nat.lt_succ_of_le (hmem pl hpl)]
    rw [spill_queueFns hqueue, OrdMap.entries_insert_first _ (spillKey_lt hkeys now),
      List.flatMap_cons, hfiles, hnew, hload]

/-- The keys of the files left behind can all be read. -/
theorem key_of_left (h : q.Listed) (hkeys : q.KeysFit) {now : Nat} (hnow : 1 ≤ now ∧ now < 2 ^ 63)
    {fn : FileName} (hthere : (q.spill now).closeOut.files.get? fn ≠ none)
    (hsuffix : (splitExtension fn).2 = queueSuffix) :
    ∃ key, fn = makeQueueFile key ∧ key < 2 ^ 63 := by
  have hclosed := (h.spill now).closeOut
  obtain ⟨key, rfl⟩ := hclosed.named fn hthere hsuffix
  refine ⟨key, rfl, ?_⟩
  have hget := (hclosed.listed key _).mpr ⟨rfl, hthere⟩
  rw [closeOut_queueFns] at hget
  by_cases hqueue : q.queue = []
  · rw [spill_of_nil hqueue] at hget
    exact (hkeys _ (OrdMap.mem_entries.mpr hget)).2
  · rw [spill_queueFns hqueue, OrdMap.get?_insert] at hget
    split at hget
    · rename_i heq
      rw [heq]
      exact spillKey_fits hkeys hnow
    · exact (hkeys _ (OrdMap.mem_entries.mpr hget)).2

theorem Listed.nodup_names (h : q.Listed) : (q.queueFns.entries.map Prod.snd).Nodup := by
  refine List.pairwise_map.mpr (q.queueFns.sorted.imp_of_mem fun {p p'} hp hp' hlt ↦ ?_)
  rw [(h.name_eq hp).1, (h.name_eq hp').1]
  exact fun heq ↦ hlt.ne (makeQueueFile_inj heq)

/-- **The next queue** holds what was in memory, and then what was in files. -/
theorem create_held (h : q.Listed) (hmem : ∀ pl ∈ q.queue, pl.length ≤ 65535) (hkeys : q.KeysFit)
    {now : Nat} (hnow : 1 ≤ now ∧ now < 2 ^ 63)
    (hlists : Lists listing (q.spill now).closeOut.files) :
    ∃ q' calls, create maxMem (q.spill now).closeOut.files listing = .ok (q', calls) ∧
      q'.held =
        q.queue ++ q.queueFns.entries.flatMap fun p ↦ (Payload.loadAll (q.fileBytes p.2)).1 := by
  have hspill := h.spill now
  obtain ⟨found, hscan⟩ : ∃ found,
      scanDirectory (q.spill now).closeOut.files listing .empty 0 0 = .ok found := by
    refine scan_ok _ .empty 0 0 fun fn hfn hsuffix ↦ ?_
    obtain ⟨key, rfl, hlt⟩ := key_of_left h hkeys hnow ((mem_listing hlists).mp hfn) hsuffix
    exact ⟨key, fileKey_makeQueueFile hlt⟩
  have hcreate : create maxMem (q.spill now).closeOut.files listing =
      .ok (fresh maxMem found.1 (q.spill now).closeOut.files,
        [.increase found.2.1, .oldest found.2.2]) := by
    rw [create, hscan]
    rfl
  have hlisted := create_listed hspill.closeOut.named hlists hcreate
  have hfns : found.1 = (q.spill now).queueFns :=
    (hspill.closeOut.queueFns_eq hlisted fun _ ↦ Iff.rfl).trans (closeOut_queueFns _)
  refine ⟨_, _, hcreate, ?_⟩
  rw [held, ← flatMap_spill h hkeys hmem now]
  show loaded found.1.entries _ = _
  rw [hfns, loaded_eq hspill.nodup_names]
  rfl

/-- **Nothing is lost, doubled or moved in a restart.**  The destructor goes through; what is in
memory goes to a file whose key is below those of all spill files there; and a new queue on the
directory left behind, in whatever order it is listed, gives out the records that were in memory and
then those of the files, oldest first. -/
theorem restart_exact (h : Served maxMem q) (hmem : ∀ pl ∈ q.queue, pl.length ≤ 65535)
    (hkeys : q.KeysFit) {now : Nat} (hnow : 1 ≤ now ∧ now < 2 ^ 63) :
    ∃ files sum, q.destroy now = .ok (files, sum) ∧
      (q.queue ≠ [] →
        files.get? (makeQueueFile (q.spillKey now)) = some (Payload.code.encodeAll q.queue) ∧
        ∀ fn key, q.files.get? fn ≠ none → fileKey fn = some key → q.spillKey now < key) ∧
      ∃ recs : Nat × FileName → List Payload,
        (∀ p ∈ q.queueFns.entries, RecordsOf (q.fileBytes p.2) (recs p)) ∧
        ∀ listing, Lists listing files →
          ∃ q' calls, create maxMem files listing = .ok (q', calls) ∧
            ∀ fuel, (q.queue ++ q.queueFns.entries.flatMap recs).length < fuel →
              q'.drain fuel = some (q.queue ++ q.queueFns.entries.flatMap recs) := by
  have hlisted := h.listed
  obtain ⟨sum, hdestroy⟩ := hlisted.destroy now
  refine ⟨_, sum, hdestroy, fun hqueue ↦ ⟨?_, fun fn key hthere hkey ↦ ?_⟩,
    fun p ↦ (Payload.loadAll (q.fileBytes p.2)).1, fun p _ ↦ recordsOf_loadAll _,
    fun listing hlists ↦ ?_⟩
  · rw [spill_closeOut_get?, if_pos ⟨hqueue, rfl⟩]
  · obtain ⟨j, rfl⟩ := hlisted.named fn hthere (suffix_of_fileKey hkey)
    have hentry := OrdMap.mem_entries.mpr ((hlisted.listed j _).mpr ⟨rfl, hthere⟩)
    rw [fileKey_makeQueueFile (hkeys _ hentry).2, Option.some_inj] at hkey
    exact hkey ▸ spillKey_lt hkeys now _ hentry
  · obtain ⟨q', calls, hcreate, hheld⟩ := create_held hlisted hmem hkeys hnow hlists
    refine ⟨q', calls, hcreate, fun fuel hfuel ↦ ?_⟩
    rw [← hheld] at hfuel ⊢
    exact drain_held hfuel

/-- One payload in memory, and one in a file that has not been written to yet. -/
theorem restart_exact_spilled : ∃ q files sum, Served 8 q ∧ q.queue = [[1, 1, 1, 1]] ∧
    q.destroy 7 = .ok (files, sum) ∧ ∀ listing, Lists listing files →
      ∃ q' calls pls, create 8 files listing = .ok (q', calls) ∧
        [[1, 1, 1, 1]] <+: pls ∧ ∀ fuel, pls.length < fuel → q'.drain fuel = some pls := by
  have hrun : Run.Checks use Run.anyStep (fresh 8 .empty .empty)
      [.push [[1], [1, 1, 1]] 5, .push [[2, 2, 2, 2]] 6] fun q ↦
        q.queue = [[1, 1, 1, 1]] ∧ ∀ p ∈ q.queueFns.entries, 1 ≤ p.1 ∧ p.1 < 2 ^ 63 := by
    decide +kernel
  obtain ⟨q, hreach, hqueue, hkeys⟩ := hrun.reach
  have hserved : Served 8 q :=
    ⟨.empty, [], fresh 8 .empty .empty, _, fun _ ↦ nofun, List.Perm.nil, rfl, hreach⟩
  obtain ⟨files, sum, hdestroy, -, recs, -, hnext⟩ :=
    restart_exact hserved (by simp [hqueue]) hkeys (show 1 ≤ 7 ∧ 7 < 2 ^ 63 by decide)
  refine ⟨q, files, sum, hserved, hqueue, hdestroy, fun listing hlists ↦ ?_⟩
  obtain ⟨q', calls, hcreate, hdrain⟩ := hnext listing hlists
  exact ⟨q', calls, _, hcreate, hqueue ▸ List.prefix_append .., hdrain⟩

end PayloadQueue
end UdpTun
