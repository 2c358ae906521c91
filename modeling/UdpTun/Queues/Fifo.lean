import UdpTun.Lib.Ledger
import UdpTun.Lib.Run
import UdpTun.Queues
import Mathlib.Logic.Function.Basic

/-!
# First in, first out

What goes into a payload queue should come out of it in the same order, whether it has been through
a spill file or not, except for what was in files that the quota manager had deleted.

A `World` is a queue with an account of what has been pushed, delivered and discarded.  It also
remembers what has been saved to each file, in `saved`: that is what `Stored` compares the files
with.  A file and what `out` has not moved to it yet hold, together, just what has been saved to it.

There are two ways to break this, both with the file that `out` has open.  It can be read before
all of it has been moved, and it can be written to after it has been deleted.  `Unraced` says that
a step does neither, and `fifo_of_unraced` that without them the account is right;
`buffered_record_is_lost` is a run with the first of them.
-/

set_option autoImplicit false

namespace UdpTun
namespace PayloadQueue

/-- A queue, and what has become of the payloads. -/
structure World where
  q : PayloadQueue
  /-- What has been pushed. -/
  pushed : List Payload
  /-- What `consume` has handed out. -/
  delivered : List Payload
  /-- What was in files that `discard_file` has deleted. -/
  discarded : List Payload
  /-- What has been saved to each file since it was begun. -/
  saved : FileName → List Payload
  /-- The latest time after which a file was named. -/
  lastKey : Option Nat
  /-- What the last call returned, if it was one of `peek`. -/
  answer : Option (Option Payload)

/-- What can be done to a queue, and what its stream and its quota manager can do. -/
inductive Op
  | push (arr : List (List UInt8)) (now : Nat)
  | peek
  | consume
  | poke
  | flush (n : Nat)
  | discard

/-- The account of saving a payload to the file that is open. -/
def saveTo (saved : FileName → List Payload) (out : Option OutFile) (pl : Payload) :
    FileName → List Payload :=
  match out with
  | none => saved
  | some o => Function.update saved o.file (saved o.file ++ [pl])

namespace World

/-- A new queue in an empty directory. -/
def init (maxMem : Nat) : World :=
  { q := fresh maxMem .empty .empty
    pushed := [], delivered := [], discarded := [], saved := fun _ ↦ [], lastKey := none
    answer := none }

example (maxMem : Nat) : create maxMem .empty [] =
    .ok ((init maxMem).q, [.increase 0, .oldest 0]) := rfl

/-- One operation. -/
def step (w : World) : Op → Except Halt World
  | .push arr now =>
    let w := { w with pushed := w.pushed ++ [arr.flatten], answer := none }
    let len := sumLengths arr
    if w.q.fitsMemory len then .ok { w with q := (w.q.push arr now).1 }
    else if w.q.needsFile len then
      let nf := makeQueueFile now
      .ok { w with
        q := (w.q.push arr now).1
        saved := saveTo (Function.update w.saved nf []) (some ⟨nf, []⟩) arr.flatten
        lastKey := some now }
    else
      .ok { w with
        q := (w.q.push arr now).1
        saved := saveTo w.saved w.q.out arr.flatten }
  | .peek => .ok { w with q := w.q.peek.2.1, answer := some w.q.peek.1 }
  | .consume =>
    .ok { w with
      q := w.q.consume.2
      delivered := w.delivered ++ w.q.consume.1.toList
      answer := none }
  | .poke => .ok { w with q := w.q.poke.1, answer := none }
  | .flush n => .ok { w with q := w.q.flush n, answer := none }
  | .discard =>
    let lost := match w.q.queueFns.first? with
      | none => []
      | some p => w.saved p.2
    w.q.discardFile.map fun r ↦
      { w with q := r.1, discarded := w.discarded ++ lost, answer := none }

/-- Payloads are no longer than a length field can say, and the clock advances. -/
def Regular (w : World) : Op → Prop
  | .push arr now => sumLengths arr ≤ 65535 ∧ ∀ k ∈ w.lastKey, k < now
  | _ => True

/-- **What must not happen to the file that `out` has open**: that it is loaded while some of it is
still in the buffer, or that more is appended to it after it has been deleted. -/
def Unraced (w : World) : Op → Prop
  | .peek | .poke =>
    w.q.queue = [] → ∀ p ∈ w.q.queueFns.first?, ∀ o ∈ w.q.out, o.file = p.2 → o.buffered = []
  | .push arr _ =>
    w.q.fitsMemory (sumLengths arr) = false → w.q.needsFile (sumLengths arr) = false →
      ∀ o ∈ w.q.out, w.q.files.get? o.file ≠ none
  | _ => True

instance (w : World) (op : Op) : Decidable (w.Regular op) := by
  cases op <;> unfold Regular <;> infer_instance

instance (w : World) (op : Op) : Decidable (w.Unraced op) := by
  cases op <;> unfold Unraced <;> infer_instance

/-- What is still to come: what is in memory, then what has been saved to the files, oldest
first. -/
def pending (w : World) : List Payload :=
  w.q.queue ++ w.q.queueFns.entries.flatMap fun p ↦ w.saved p.2

end World

/-! ## Files and what was saved to them

Each file that is listed holds what the account says, in the order of their keys; this is where the
clock matters, as new keys come last. -/

/-- **The files hold what was saved to them**, together with the buffer. -/
structure Stored (q : PayloadQueue) (saved : FileName → List Payload) (lastKey : Option Nat) :
    Prop where
  names : ∀ p ∈ q.queueFns.entries, p.2 = makeQueueFile p.1
  keys : ∀ p ∈ q.queueFns.entries, ∃ k, lastKey = some k ∧ p.1 ≤ k
  out : ∀ o, q.out = some o → ∃ k, lastKey = some k ∧ o.file = makeQueueFile k
  files : ∀ p ∈ q.queueFns.entries, ∃ bytes, q.files.get? p.2 = some bytes ∧
    bytes ++ q.bufferedFor p.2 = Payload.code.encodeAll (saved p.2)
  valid : ∀ p ∈ q.queueFns.entries, ∀ pl ∈ saved p.2, pl.length < 65536
  listed : ∀ fn, q.files.get? fn ≠ none → ∃ key, (key, fn) ∈ q.queueFns.entries

variable {q : PayloadQueue} {saved : FileName → List Payload} {lastKey : Option Nat}

/-- Entries of `queue_fns` with the same file are the same. -/
theorem Stored.key_eq (h : Stored q saved lastKey) {p p' : Nat × FileName}
    (hp : p ∈ q.queueFns.entries) (hp' : p' ∈ q.queueFns.entries) (heq : p.2 = p'.2) : p = p' := by
  rw [h.names p hp, h.names p' hp'] at heq
  have hkey := makeQueueFile_inj heq
  exact Prod.ext hkey (by rw [h.names p hp, h.names p' hp', hkey])

/-- Moving bytes from the buffer to the file changes nothing. -/
theorem Stored.flush (h : Stored q saved lastKey) (n : Nat) :
    Stored (q.flush n) saved lastKey := by
  refine ⟨by simpa using h.names, by simpa using h.keys, fun o ho ↦ ?_, fun p hp ↦ ?_,
    by simpa using h.valid, fun fn hfn ↦ ?_⟩
  · rw [flush_out] at ho
    obtain ⟨o', ho', rfl⟩ := Option.map_eq_some_iff.mp ho
    exact h.out o' ho'
  · obtain ⟨bytes, hget, hbytes⟩ := h.files p (by simpa using hp)
    refine ⟨bytes ++ (q.bufferedFor p.2).take n, by rw [flush_get?, hget]; rfl, ?_⟩
    rw [flush_bufferedFor, List.append_assoc, List.take_append_drop]
    exact hbytes
  · rw [flush_get?, Ne, Option.map_eq_none_iff] at hfn
    simpa using h.listed fn hfn

/-- Nor does closing the stream, which moves all there is. -/
theorem Stored.closeOut (h : Stored q saved lastKey) : Stored q.closeOut saved lastKey := by
  refine ⟨by simpa using h.names, by simpa using h.keys, fun o ho ↦ by simp at ho,
    fun p hp ↦ ?_, by simpa using h.valid, fun fn hfn ↦ ?_⟩
  · obtain ⟨bytes, hget, hbytes⟩ := h.files p (by simpa using hp)
    refine ⟨bytes ++ q.bufferedFor p.2, by rw [closeOut_get?, hget]; rfl, ?_⟩
    rw [closeOut_bufferedFor, List.append_nil]
    exact hbytes
  · rw [closeOut_get?, Ne, Option.map_eq_none_iff] at hfn
    simpa using h.listed fn hfn

/-- Only the files, their list and the stream matter. -/
theorem Stored.congr (h : Stored q saved lastKey) {r : PayloadQueue}
    (hfns : r.queueFns = q.queueFns) (hout : r.out = q.out) (hfiles : r.files = q.files) :
    Stored r saved lastKey := by
  have hbuf : ∀ fn, r.bufferedFor fn = q.bufferedFor fn := by
    intro fn
    rw [bufferedFor, bufferedFor, hout]
  refine ⟨by rw [hfns]; exact h.names, by rw [hfns]; exact h.keys, by rw [hout]; exact h.out,
    fun p hp ↦ ?_, by rw [hfns]; exact h.valid, by rw [hfns, hfiles]; exact h.listed⟩
  rw [hfns] at hp
  rw [hfiles, hbuf]
  exact h.files p hp

/-! ### Writing

Only the file that is open is written to.  It is the last of the list, so what is saved to it comes
after all the rest. -/

theorem Stored.key_lt (h : Stored q saved lastKey) {now : Nat}
    (hnow : ∀ k, lastKey = some k → k < now) : ∀ p ∈ q.queueFns.entries, p.1 < now := by
  intro p hp
  obtain ⟨k, hk, hle⟩ := h.keys p hp
  exact hle.trans_lt (hnow k hk)

/-- The other files do not have the name of a new one. -/
theorem Stored.ne_newFile (h : Stored q saved lastKey) {now : Nat}
    (hnow : ∀ k, lastKey = some k → k < now) {p : Nat × FileName}
    (hp : p ∈ q.queueFns.entries) : p.2 ≠ makeQueueFile now := by
  rw [h.names p hp]
  exact fun heq ↦ (h.key_lt hnow p hp).ne (makeQueueFile_inj heq)

theorem newFile_entries (h : Stored q saved lastKey) {now : Nat}
    (hnow : ∀ k, lastKey = some k → k < now) : (q.newFile now).queueFns.entries =
      q.queueFns.entries ++ [(now, makeQueueFile now)] := by
  rw [newFile_queueFns]
  exact OrdMap.entries_insert_last _ (h.key_lt hnow)

/-- A new file has nothing saved to it yet. -/
theorem Stored.newFile (h : Stored q saved lastKey) {now : Nat}
    (hnow : ∀ k, lastKey = some k → k < now) :
    Stored (q.newFile now) (Function.update saved (makeQueueFile now) []) (some now) := by
  have hmem : ∀ p ∈ (q.newFile now).queueFns.entries,
      p ∈ q.queueFns.entries ∨ p = (now, makeQueueFile now) := by
    intro p hp
    rw [newFile_entries h hnow] at hp
    simpa using hp
  have hbuf : ∀ fn, (q.newFile now).bufferedFor fn = [] := by
    intro fn
    simp [bufferedFor]
  refine ⟨fun p hp ↦ ?_, fun p hp ↦ ?_, fun o ho ↦ ?_, fun p hp ↦ ?_, fun p hp ↦ ?_,
    fun fn hfn ↦ ?_⟩
  · rcases hmem p hp with hp | rfl
    · exact h.names p hp
    · rfl
  · rcases hmem p hp with hp | rfl
    · exact ⟨now, rfl, (h.key_lt hnow p hp).le⟩
    · exact ⟨now, rfl, le_rfl⟩
  · obtain rfl := Option.some.inj ho
    exact ⟨now, rfl, rfl⟩
  · rw [hbuf, newFile_get?]
    rcases hmem p hp with hp | rfl
    · have hne := h.ne_newFile hnow hp
      obtain ⟨bytes, hget, hbytes⟩ := h.files p hp
      refine ⟨bytes ++ q.bufferedFor p.2, by rw [if_neg hne, hget]; rfl, ?_⟩
      rw [List.append_nil, Function.update_of_ne hne]
      exact hbytes
    · exact ⟨[], if_pos rfl, by simp⟩
  · rcases hmem p hp with hp | rfl
    · rw [Function.update_of_ne (h.ne_newFile hnow hp)]
      exact h.valid p hp
    · simp
  · rw [newFile_entries h hnow]
    rw [newFile_get?] at hfn
    split at hfn
    · rename_i heq
      exact ⟨now, by simp [heq]⟩
    · rw [Ne, Option.map_eq_none_iff] at hfn
      obtain ⟨key, hkey⟩ := h.listed fn hfn
      exact ⟨key, by simp [hkey]⟩

/-- The file that is open is the latest in the list, unless it has been deleted. -/
theorem Stored.entries_of_out (h : Stored q saved lastKey) {o : OutFile} (ho : q.out = some o)
    (hthere : q.files.get? o.file ≠ none) :
    ∃ l key, q.queueFns.entries = l ++ [(key, o.file)] ∧ ∀ p ∈ l, p.2 ≠ o.file := by
  obtain ⟨key, hkey⟩ := h.listed o.file hthere
  obtain ⟨k, hk, hname⟩ := h.out o ho
  have hlast : ∀ p ∈ q.queueFns.entries, p.1 ≤ key := by
    intro p hp
    obtain ⟨k', hk', hle⟩ := h.keys p hp
    obtain rfl : k = k' := Option.some.inj (hk.symm.trans hk')
    have hkeyk : makeQueueFile key = makeQueueFile k := (h.names _ hkey).symm.trans hname
    rw [makeQueueFile_inj hkeyk]
    exact hle
  obtain ⟨l, hl, hlt⟩ := OrdMap.entries_of_largest hkey hlast
  refine ⟨l, key, hl, fun p hp heq ↦ ?_⟩
  have hp' : p ∈ q.queueFns.entries := by simp [hl, hp]
  rw [h.key_eq hp' hkey heq] at hp
  exact absurd (hlt _ hp) (lt_irrefl _)

/-- Appending to the file that is open is saving to it. -/
theorem Stored.appendFile (h : Stored q saved lastKey) {o : OutFile} (ho : q.out = some o)
    (hthere : q.files.get? o.file ≠ none) {arr : List (List UInt8)}
    (hlen : sumLengths arr ≤ 65535) :
    Stored (q.appendFile arr).1 (saveTo saved q.out arr.flatten) lastKey := by
  rw [sumLengths_eq] at hlen
  obtain ⟨l, key, hentries, hne⟩ := h.entries_of_out ho hthere
  have hmem : ∀ p ∈ q.queueFns.entries, p.2 ≠ o.file ∨ p = (key, o.file) := by
    intro p hp
    rw [hentries] at hp
    rcases List.mem_append.mp hp with hp | hp
    · exact .inl (hne p hp)
    · exact .inr (by simpa using hp)
  have hwrite : Stored (q.write (Payload.save arr.flatten)) (saveTo saved q.out arr.flatten)
      lastKey := by
    have hbuf : ∀ fn, (q.write (Payload.save arr.flatten)).bufferedFor fn =
        if o.file = fn then o.buffered ++ Payload.save arr.flatten else [] := by
      intro fn
      rw [bufferedFor, write, ho]
      rfl
    rw [ho, saveTo]
    refine ⟨h.names, h.keys, fun o' ho' ↦ ?_, fun p hp ↦ ?_, fun p hp ↦ ?_, h.listed⟩
    · rw [write, ho] at ho'
      obtain rfl := Option.some.inj ho'
      exact h.out o ho
    · obtain ⟨bytes, hget, hbytes⟩ := h.files p hp
      refine ⟨bytes, hget, ?_⟩
      rw [bufferedFor, ho] at hbytes
      rw [hbuf]
      rcases hmem p hp with hpne | rfl
      · rw [if_neg hpne.symm, Function.update_of_ne hpne]
        simpa [hpne.symm] using hbytes
      · rw [if_pos rfl, Function.update_self, PrefixCode.encodeAll_append, ← List.append_assoc]
        simp only [if_true] at hbytes
        rw [hbytes]
        simp [Payload.code]
    · rcases hmem p hp with hpne | rfl
      · rw [Function.update_of_ne hpne]
        exact h.valid p hp
      · rw [Function.update_self]
        intro pl hpl
        rcases List.mem_append.mp hpl with hpl | hpl
        · exact h.valid _ hp pl hpl
        · rw [List.mem_singleton.mp hpl]
          omega
  have hsz := hwrite.congr (r := { q.write (Payload.save arr.flatten) with
    szOut := q.szOut + (sumLengths arr + 2) }) rfl rfl rfl
  rw [PayloadQueue.appendFile]
  dsimp only
  split
  · exact hsz.closeOut
  · exact hsz

/-! ### Reading and deleting

The first file of the list goes, with all that was saved to it.  If it is the one that is open, all
of it must have been moved. -/

/-- The oldest file and its entry go together. -/
theorem Stored.dropHead (h : Stored q saved lastKey) {key : Nat} {fn : FileName}
    {rest : List (Nat × FileName)} (hentries : q.queueFns.entries = (key, fn) :: rest)
    {r : PayloadQueue} (hfns : r.queueFns = q.queueFns.erase key) (hout : r.out = q.out)
    (hfiles : r.files = q.files.erase fn) :
    r.queueFns.entries = rest ∧ Stored r saved lastKey := by
  have hrest : r.queueFns.entries = rest := by
    rw [hfns]
    exact OrdMap.entries_erase_first hentries
  have hmem : ∀ p ∈ rest, p ∈ q.queueFns.entries := fun p hp ↦ by simp [hentries, hp]
  have hne : ∀ p ∈ rest, p.2 ≠ fn := by
    intro p hp heq
    have hs := q.queueFns.sorted
    rw [hentries, List.pairwise_cons] at hs
    have hfirst : (key, fn) ∈ q.queueFns.entries := by simp [hentries]
    obtain rfl := h.key_eq (hmem p hp) hfirst heq
    exact absurd (hs.1 _ hp) (lt_irrefl _)
  have hbuf : ∀ fn, r.bufferedFor fn = q.bufferedFor fn := by
    intro fn
    rw [bufferedFor, bufferedFor, hout]
  refine ⟨hrest, ?_, ?_, by rw [hout]; exact h.out, ?_, ?_, fun fn' hfn' ↦ ?_⟩
  · rw [hrest]
    exact fun p hp ↦ h.names p (hmem p hp)
  · rw [hrest]
    exact fun p hp ↦ h.keys p (hmem p hp)
  · rw [hrest]
    intro p hp
    rw [hfiles, hbuf, OrdMap.get?_erase_of_ne _ (hne p hp)]
    exact h.files p (hmem p hp)
  · rw [hrest]
    exact fun p hp ↦ h.valid p (hmem p hp)
  · rw [hfiles, OrdMap.get?_erase] at hfn'
    split at hfn'
    · exact absurd rfl hfn'
    · rename_i hfn
      obtain ⟨k, hk⟩ := h.listed fn' hfn'
      rw [hentries, List.mem_cons] at hk
      rcases hk with hk | hk
      · exact absurd (Prod.mk.inj hk).2 hfn
      · exact ⟨k, by rw [hrest]; exact hk⟩

/-- A file of which all has been moved is read in full. -/
theorem Stored.loadAll (h : Stored q saved lastKey) {p : Nat × FileName}
    (hp : p ∈ q.queueFns.entries) (hbuf : q.bufferedFor p.2 = []) :
    (Payload.loadAll ((q.files.get? p.2).getD [])).1 = saved p.2 := by
  obtain ⟨bytes, hget, hbytes⟩ := h.files p hp
  rw [hbuf, List.append_nil] at hbytes
  rw [hget, Option.getD_some, hbytes, Payload.loadAll_encodeAll (h.valid p hp)]

/-! ## The invariant

What was pushed is what has been delivered or discarded and what is still to come.  Each operation
moves payloads from one of these to another, and the order stays. -/

namespace World

/-- **The account of a queue is right**, with some payloads still to come. -/
def Fifo (w : World) : Prop :=
  ∃ pending, Ledger.Accounted w.pushed w.delivered pending w.discarded ∧
    ∀ a, w.answer = some a → a = pending.head?

/-- The invariant of runs that do not race for a file. -/
structure Sound (w : World) : Prop where
  stored : Stored w.q w.saved w.lastKey
  nonempty : ∀ p ∈ w.q.queueFns.entries, w.saved p.2 ≠ []
  account : Ledger.Accounted w.pushed w.delivered w.pending w.discarded
  answer : ∀ a, w.answer = some a → a = w.pending.head?

theorem sound_init (maxMem : Nat) : (init maxMem).Sound := by
  refine ⟨⟨?_, ?_, ?_, ?_, ?_, ?_⟩, ?_, Ledger.Accounted.nil, ?_⟩ <;>
    simp [init, fresh, OrdMap.empty]
  exact fun fn ↦ OrdMap.get?_empty fn

variable {w : World}

/-- What is to come when a payload is saved to the file that is open, the latest of the list. -/
theorem flatMap_saveTo {saved : FileName → List Payload} {o : OutFile} {pl : Payload}
    {l : List (Nat × FileName)} {key : Nat} (hne : ∀ p ∈ l, p.2 ≠ o.file) :
    ((l ++ [(key, o.file)]).flatMap fun p ↦ saveTo saved (some o) pl p.2) =
      (l ++ [(key, o.file)]).flatMap (fun p ↦ saved p.2) ++ [pl] := by
  have hl : (l.flatMap fun p ↦ saveTo saved (some o) pl p.2) = l.flatMap fun p ↦ saved p.2 :=
    List.flatMap_congr fun p hp ↦ by rw [saveTo, Function.update_of_ne (hne p hp)]
  rw [List.flatMap_append, List.flatMap_append, hl]
  simp [saveTo]

/-- Saving to the file that is open, which is there. -/
theorem Sound.append {q : PayloadQueue} {saved : FileName → List Payload} {lastKey : Option Nat}
    (h : Stored q saved lastKey) {o : OutFile} (ho : q.out = some o)
    (hthere : q.files.get? o.file ≠ none)
    (hnonempty : ∀ p ∈ q.queueFns.entries, p.2 ≠ o.file → saved p.2 ≠ [])
    {arr : List (List UInt8)} (hlen : sumLengths arr ≤ 65535) {pushed delivered discarded}
    (hacc : Ledger.Accounted pushed delivered
      (q.queue ++ q.queueFns.entries.flatMap fun p ↦ saved p.2) discarded) :
    Sound { q := (q.appendFile arr).1, pushed := pushed ++ [arr.flatten], delivered := delivered,
            discarded := discarded, saved := saveTo saved q.out arr.flatten, lastKey := lastKey,
            answer := none } := by
  obtain ⟨l, key, hentries, hne⟩ := h.entries_of_out ho hthere
  refine ⟨h.appendFile ho hthere hlen, fun p hp ↦ ?_, ?_, fun a ha ↦ by cases ha⟩
  · rw [appendFile_queueFns] at hp
    dsimp only
    rw [ho, saveTo]
    by_cases hfile : p.2 = o.file
    · rw [hfile, Function.update_self]
      simp
    · rw [Function.update_of_ne hfile]
      exact hnonempty p hp hfile
  · rw [pending]
    dsimp only
    rw [appendFile_queue, appendFile_queueFns, ho, hentries, flatMap_saveTo hne, ← hentries,
      ← List.append_assoc]
    exact hacc.push _

theorem Sound.push (h : w.Sound) {arr : List (List UInt8)} {now : Nat}
    (hreg : w.Regular (.push arr now)) (hok : w.Unraced (.push arr now)) :
    ∃ w', w.step (.push arr now) = .ok w' ∧ w'.Sound := by
  obtain ⟨hlen, hnow⟩ := hreg
  rw [step]
  dsimp only
  by_cases hfits : w.q.fitsMemory (sumLengths arr)
  · refine ⟨_, if_pos hfits, ?_⟩
    -- there are no files, so what is to come is what is in memory
    have hnil : w.q.queueFns.entries = [] := by
      rw [fitsMemory, Bool.and_eq_true] at hfits
      exact List.isEmpty_iff.mp hfits.1
    have hq : (w.q.push arr now).1.queueFns = w.q.queueFns ∧ (w.q.push arr now).1.out = w.q.out ∧
        (w.q.push arr now).1.files = w.q.files ∧
        (w.q.push arr now).1.queue = w.q.queue ++ [arr.flatten] := by
      rw [PayloadQueue.push, if_pos hfits]
      simp
    obtain ⟨hfns, hout, hfiles, hqueue⟩ := hq
    refine ⟨h.stored.congr hfns hout hfiles, fun p hp ↦ ?_, ?_, fun a ha ↦ by cases ha⟩
    · dsimp only at hp
      rw [hfns, hnil] at hp
      cases hp
    · have hacc := h.account
      rw [pending, hnil, List.flatMap_nil, List.append_nil] at hacc
      rw [pending]
      dsimp only
      rw [hqueue, hfns, hnil, List.flatMap_nil, List.append_nil]
      exact hacc.push _
  · rw [if_neg hfits]
    by_cases hneeds : w.q.needsFile (sumLengths arr)
    · refine ⟨_, if_pos hneeds, ?_⟩
      have hq : w.q.push arr now = (w.q.newFile now).appendFile arr := by
        rw [PayloadQueue.push, if_neg hfits, if_pos hneeds]
      rw [hq]
      have hupdate : ∀ p ∈ w.q.queueFns.entries,
          Function.update w.saved (makeQueueFile now) [] p.2 = w.saved p.2 := fun p hp ↦
        Function.update_of_ne (h.stored.ne_newFile hnow hp) ..
      refine Sound.append (h.stored.newFile hnow) (newFile_out w.q now) ?_ (fun p hp hne ↦ ?_) hlen
        ?_
      · rw [newFile_get?, if_pos rfl]
        simp
      · rw [newFile_entries h.stored hnow, List.mem_append, List.mem_singleton] at hp
        rcases hp with hp | rfl
        · rw [hupdate p hp]
          exact h.nonempty p hp
        · exact absurd rfl hne
      · rw [newFile_queue, newFile_entries h.stored hnow, List.flatMap_append,
          List.flatMap_congr hupdate]
        simpa [pending] using h.account
    · refine ⟨_, if_neg hneeds, ?_⟩
      have hq : w.q.push arr now = w.q.appendFile arr := by
        rw [PayloadQueue.push, if_neg hfits, if_neg hneeds]
      rw [hq]
      obtain ⟨o, ho⟩ : ∃ o, w.q.out = some o := by
        rw [needsFile, Bool.or_eq_true, not_or] at hneeds
        exact Option.ne_none_iff_exists'.mp (by simpa using hneeds.1)
      have hthere := hok (by simpa using hfits) (by simpa using hneeds) o ho
      exact Sound.append h.stored ho hthere (fun p hp _ ↦ h.nonempty p hp) hlen h.account

/-- **A peek changes nothing that is to come**, and shows the first of it. -/
theorem Sound.peek (h : w.Sound) (hok : w.Unraced .peek) :
    Sound { w with q := w.q.peek.2.1, answer := some w.q.peek.1 } := by
  rw [PayloadQueue.peek]
  by_cases hempty : w.q.queue.isEmpty
  · rw [if_pos hempty]
    have hqueue : w.q.queue = [] := List.isEmpty_iff.mp hempty
    cases hentries : w.q.queueFns.entries with
    | nil =>
      have hnil : w.pending = [] := by rw [pending, hqueue, hentries]; rfl
      refine ⟨h.stored.congr rfl rfl rfl, h.nonempty, h.account, fun a ha ↦ ?_⟩
      obtain rfl := Option.some.inj ha
      show none = w.pending.head?
      rw [hnil]
      rfl
    | cons p rest =>
      obtain ⟨key, fn⟩ := p
      have hp : (key, fn) ∈ w.q.queueFns.entries := by simp [hentries]
      have hbuf : w.q.bufferedFor fn = [] := by
        have hfirst : (key, fn) ∈ w.q.queueFns.first? := by rw [OrdMap.first?, hentries]; rfl
        rw [bufferedFor]
        split
        · rfl
        · rename_i o ho
          split
          · rename_i hfile
            exact hok hqueue _ hfirst o ho hfile
          · rfl
      have hload := h.stored.loadAll hp hbuf
      have hqueue' : (w.q.loadFile key fn).1.queue = w.saved fn := by
        show w.q.queue ++ _ = _
        rw [hqueue, List.nil_append]
        exact hload
      have hne : ¬ (w.q.loadFile key fn).1.queue.isEmpty := by
        rw [hqueue', List.isEmpty_iff]
        exact h.nonempty _ hp
      -- the oldest file is enough
      have hhead : loadHeadFile ((key, fn) :: rest) w.q =
          (true, (w.q.loadFile key fn).1, [.decrease (w.q.loadFile key fn).2]) := by
        rw [loadHeadFile, if_neg hne]
      rw [hhead, if_pos rfl]
      obtain ⟨hrest, hstored⟩ := h.stored.dropHead hentries (r := (w.q.loadFile key fn).1)
        rfl rfl rfl
      have hpending : pending { w with
          q := (w.q.loadFile key fn).1
          answer := some (w.q.loadFile key fn).1.queue.head? } = w.pending := by
        rw [pending, pending]
        dsimp only
        rw [hrest, hqueue', hqueue, hentries, List.flatMap_cons, List.nil_append]
      refine ⟨hstored, fun p hp ↦ ?_, by rw [hpending]; exact h.account, fun a ha ↦ ?_⟩
      · dsimp only at hp
        rw [hrest] at hp
        exact h.nonempty p (by simp [hentries, hp])
      · obtain rfl := Option.some.inj ha
        rw [pending]
        dsimp only
        rw [List.head?_append_of_ne_nil]
        simpa using hne
  · rw [if_neg hempty]
    refine ⟨h.stored, h.nonempty, h.account, fun a ha ↦ ?_⟩
    obtain rfl := Option.some.inj ha
    rw [pending]
    dsimp only
    rw [List.head?_append_of_ne_nil]
    simpa using hempty

theorem Sound.consume (h : w.Sound) : Sound { w with
    q := w.q.consume.2
    delivered := w.delivered ++ w.q.consume.1.toList
    answer := none } := by
  have hacc := h.account
  rw [PayloadQueue.consume]
  rw [pending] at hacc
  cases hqueue : w.q.queue with
  | nil =>
    refine ⟨h.stored, h.nonempty, ?_, fun a ha ↦ by cases ha⟩
    simpa [pending] using h.account
  | cons pl rest =>
    rw [hqueue] at hacc
    exact ⟨h.stored.congr rfl rfl rfl, h.nonempty, hacc.deliver, fun a ha ↦ by cases ha⟩

theorem Sound.discard (h : w.Sound) : ∃ w', w.step .discard = .ok w' ∧ w'.Sound := by
  rw [step, discardFile]
  cases hentries : w.q.queueFns.entries with
  | nil =>
    rw [OrdMap.first?, hentries]
    refine ⟨_, rfl, h.stored, h.nonempty, ?_, fun a ha ↦ by cases ha⟩
    simpa [pending] using h.account
  | cons p rest =>
    obtain ⟨key, fn⟩ := p
    obtain ⟨bytes, hget, -⟩ := h.stored.files (key, fn) (by simp [hentries])
    rw [OrdMap.first?, hentries]
    simp only [List.head?_cons, hget]
    obtain ⟨hrest, hstored⟩ := h.stored.dropHead hentries
      (r := { w.q with files := w.q.files.erase fn, queueFns := w.q.queueFns.erase key })
      rfl rfl rfl
    refine ⟨_, rfl, hstored, fun p hp ↦ ?_, ?_, fun a ha ↦ by cases ha⟩
    · dsimp only at hp hrest
      rw [hrest] at hp
      exact h.nonempty p (by simp [hentries, hp])
    · have hacc := h.account
      rw [pending, hentries, List.flatMap_cons, ← List.append_assoc] at hacc
      rw [pending]
      dsimp only at hrest ⊢
      rw [hrest]
      exact hacc.lose

/-- **The step lemma**: a step that does not race goes through, and keeps the invariant. -/
theorem Sound.step (h : w.Sound) {op : Op} (hreg : w.Regular op) (hok : w.Unraced op) :
    ∃ w', w.step op = .ok w' ∧ w'.Sound := by
  cases op with
  | push arr now => exact h.push hreg hok
  | peek => exact ⟨_, rfl, h.peek hok⟩
  | consume => exact ⟨_, rfl, h.consume⟩
  | poke =>
    have hpeek := h.peek hok
    have hq := poke_queue w.q
    exact ⟨_, rfl, by rw [hq]; exact hpeek.stored, by rw [hq]; exact hpeek.nonempty,
      by rw [hq]; exact hpeek.account, fun a ha ↦ by cases ha⟩
  | flush n =>
    refine ⟨_, rfl, h.stored.flush n, by simpa using h.nonempty, ?_, fun a ha ↦ by cases ha⟩
    simpa [pending] using h.account
  | discard => exact h.discard

/-- **First in, first out.**  In a run that does not race for a file, what has been delivered and
what is still to come is what has been pushed, in that order and once each, but for what has been
discarded; a peek shows the first that is to come, and nothing only when nothing is; and no
operation fails. -/
theorem fifo_of_unraced {maxMem : Nat} {w : World}
    (h : Run.Reach World.step (fun w op ↦ w.Regular op ∧ w.Unraced op) (init maxMem) w) :
    w.Fifo ∧ (w.answer = some none → w.pushed.Perm (w.delivered ++ w.discarded)) ∧
      ∀ op, w.Regular op → w.Unraced op → ∃ w', w.step op = .ok w' := by
  have hsound : w.Sound := by
    refine h.invariant (sound_init maxMem) fun w op w' hw hok hs ↦ ?_
    obtain ⟨w₁, hs₁, hw₁⟩ := hw.step hok.1 hok.2
    obtain rfl : w₁ = w' := Except.ok.inj (hs₁.symm.trans hs)
    exact hw₁
  refine ⟨⟨w.pending, hsound.account, hsound.answer⟩, fun hnull ↦ ?_, fun op hreg hok ↦ ?_⟩
  · have hnil : w.pending = [] := List.head?_eq_none_iff.mp (hsound.answer none hnull).symm
    have hall := hsound.account.all
    rwa [hnil, List.append_nil] at hall
  · obtain ⟨w', hw', -⟩ := hsound.step hreg hok
    exact ⟨w', hw'⟩

/-- One payload through memory and one through a file that is flushed in time. -/
theorem fifo_of_unraced_flushed : ∃ w, Run.exec World.step (init 8)
      [.push [[1], [1, 1, 1]] 0, .push [[2, 2, 2, 2]] 1, .consume, .flush 6, .peek] = .ok w ∧
    w.Fifo ∧ (w.answer = some none → w.pushed.Perm (w.delivered ++ w.discarded)) ∧
      ∀ op, w.Regular op → w.Unraced op → ∃ w', w.step op = .ok w' := by
  have hok : Run.Along World.step (fun w op ↦ w.Regular op ∧ w.Unraced op) (init 8)
      [.push [[1], [1, 1, 1]] 0, .push [[2, 2, 2, 2]] 1, .consume, .flush 6, .peek] :=
    Run.along_cons rfl (by decide) <| Run.along_cons rfl (by decide) <|
      Run.along_cons rfl (by decide) <| Run.along_cons rfl (by decide) <|
      Run.along_cons rfl (by decide) trivial
  exact ⟨_, rfl, fifo_of_unraced (Run.reach_of_exec rfl hok)⟩

/-- **A payload can be lost.**  The second of two goes to a file, is kept in the buffer, and is gone
when the file is read: the peek shows nothing, and nothing has been discarded. -/
theorem buffered_record_is_lost : ∃ w, Run.Reach World.step World.Regular (init 8) w ∧
    w.answer = some none ∧ w.pushed = [[1, 1, 1, 1], [2, 2, 2, 2]] ∧
      w.delivered = [[1, 1, 1, 1]] ∧ w.discarded = [] ∧ ¬ w.Fifo := by
  have hok : Run.Along World.step World.Regular (init 8)
      [.push [[1, 1, 1, 1]] 0, .push [[2, 2, 2, 2]] 1, .consume, .peek] :=
    Run.along_cons rfl (by decide) <| Run.along_cons rfl (by decide) <|
      Run.along_cons rfl (by decide) <| Run.along_cons rfl (by decide) trivial
  refine ⟨_, Run.reach_of_exec rfl hok, rfl, rfl, rfl, rfl, ?_⟩
  rintro ⟨pending, hacc, hanswer⟩
  have hnil : pending = [] := List.head?_eq_none_iff.mp (hanswer none rfl).symm
  have hlen := hacc.all.length_eq
  rw [hnil] at hlen
  exact absurd hlen (by decide)

end World
end PayloadQueue
end UdpTun
