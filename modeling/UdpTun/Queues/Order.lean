import UdpTun.Queues.Contents
import UdpTun.Queues.Fifo

/-!
# Nothing is made up

A queue that races for a file can lose payloads: `World.buffered_record_is_lost` is such a run.  But
that is all that can happen.  Whatever files are read too early or written to too late, what a
queue has handed out, followed by what it could hand out now, is a subsequence of what was pushed:
nothing is made up, nothing comes twice, and nothing overtakes (`World.handed_out_in_order`).

`Stored` says what the files hold, and it does not depend on how a file came to be deleted.  So a
file that is read too early gives the beginning of what was saved to it (`Stored.loadFile`), and
what is saved to a file that is gone is never seen again (`Stored.appendGone`).
-/

set_option autoImplicit false

namespace UdpTun
namespace PayloadQueue

open scoped List

variable {q : PayloadQueue} {saved : FileName → List Payload} {lastKey : Option Nat}

/-! ## Files that are gone

The queue goes on writing to the file it has open, even if that has been read and deleted.  Nothing
of this is ever seen, for the name is not in the list, and no new file gets it. -/

/-- Saving to a file that is not in the list is not noticed. -/
theorem Stored.saveTo (h : Stored q saved lastKey) {o : OutFile} (pl : Payload)
    (hgone : ∀ p ∈ q.queueFns.entries, p.2 ≠ o.file) :
    Stored q (PayloadQueue.saveTo saved (some o) pl) lastKey := by
  have hsame : ∀ p ∈ q.queueFns.entries,
      PayloadQueue.saveTo saved (some o) pl p.2 = saved p.2 := fun p hp ↦
    Function.update_of_ne (hgone p hp) ..
  refine ⟨h.names, h.keys, h.out, fun p hp ↦ ?_, fun p hp ↦ ?_, h.listed⟩
  · rw [hsame p hp]
    exact h.files p hp
  · rw [hsame p hp]
    exact h.valid p hp

/-- A file that is not there is not in the list. -/
theorem Stored.ne_of_gone (h : Stored q saved lastKey) {fn : FileName}
    (hgone : q.files.get? fn = none) {p : Nat × FileName} (hp : p ∈ q.queueFns.entries) :
    p.2 ≠ fn := by
  rintro rfl
  obtain ⟨bytes, hget, -⟩ := h.files p hp
  cases hgone.symm.trans hget

/-- **Appending to a file that is gone** changes nothing about those that are there. -/
theorem Stored.appendGone (h : Stored q saved lastKey) {o : OutFile} (ho : q.out = some o)
    (hgone : q.files.get? o.file = none) (arr : List (List UInt8)) :
    Stored (q.appendFile arr).1 (PayloadQueue.saveTo saved q.out arr.flatten) lastKey := by
  rw [ho]
  have hsaved := h.saveTo arr.flatten fun p hp ↦ h.ne_of_gone hgone hp
  refine appendFile_rule
    (P := fun r ↦ Stored r (PayloadQueue.saveTo saved (some o) arr.flatten) lastKey)
    ⟨hsaved.names, hsaved.keys, fun o' ho' ↦ ?_, fun p hp ↦ ?_, hsaved.valid, hsaved.listed⟩
    fun _ ↦ Stored.closeOut
  · rw [write, ho] at ho'
    obtain rfl := Option.some.inj ho'
    exact h.out o ho
  · obtain ⟨bytes, hget, hbytes⟩ := hsaved.files p hp
    have hne : o.file ≠ p.2 := (h.ne_of_gone hgone hp).symm
    refine ⟨bytes, hget, ?_⟩
    rw [bufferedFor, ho] at hbytes
    rw [bufferedFor, write, ho]
    simpa [hne] using hbytes

/-! ## Reading

A file is read as far as it has been written.  In what follows it does not matter where that is,
only that it is a beginning. -/

/-- **A file that is read** gives the beginning of what was saved to it. -/
theorem Stored.loadFile (h : Stored q saved lastKey) {key : Nat} {fn : FileName}
    {rest : List (Nat × FileName)} (hentries : q.queueFns.entries = (key, fn) :: rest) :
    (q.loadFile key fn).1.queueFns.entries = rest ∧ Stored (q.loadFile key fn).1 saved lastKey ∧
      ∃ l, l <+: saved fn ∧ (q.loadFile key fn).1.queue = q.queue ++ l := by
  obtain ⟨hrest, hstored⟩ := h.dropHead hentries (r := (q.loadFile key fn).1) rfl rfl rfl
  have hp : (key, fn) ∈ q.queueFns.entries := by rw [hentries]; exact List.mem_cons_self ..
  obtain ⟨bytes, hget, hbytes⟩ := h.files _ hp
  refine ⟨hrest, hstored, _, Payload.loadAll_prefix (h.valid _ hp) hbytes, ?_⟩
  rw [PayloadQueue.loadFile, hget]
  rfl

/-- What has been saved to the files of a list. -/
def savedTo (saved : FileName → List Payload) (es : List (Nat × FileName)) : List Payload :=
  es.flatMap fun p ↦ saved p.2

theorem Stored.loaded_sublist (h : Stored q saved lastKey) {es : List (Nat × FileName)}
    (hes : q.queueFns.entries = es) : loaded es q <+ q.queue ++ savedTo saved es := by
  induction es generalizing q with
  | nil => exact List.sublist_append_left ..
  | cons p rest ih =>
    obtain ⟨hrest, hstored, l, hl, hqueue⟩ := h.loadFile hes
    refine (ih hstored hrest).trans ?_
    rw [hqueue, savedTo, savedTo, List.flatMap_cons, List.append_assoc]
    exact (hl.sublist.append (List.Sublist.refl _)).append_left _

/-- What can be read is some of what has been saved. -/
theorem Stored.held_sublist (h : Stored q saved lastKey) :
    q.held <+ q.queue ++ savedTo saved q.queueFns.entries :=
  h.loaded_sublist rfl

/-- The induction is on the files that are left. -/
theorem Stored.loadHeadFile (h : Stored q saved lastKey) {es : List (Nat × FileName)}
    (hes : q.queueFns.entries = es) :
    Stored (PayloadQueue.loadHeadFile es q).2.1 saved lastKey ∧
      (PayloadQueue.loadHeadFile es q).2.1.queue ++
          savedTo saved (PayloadQueue.loadHeadFile es q).2.1.queueFns.entries <+
        q.queue ++ savedTo saved es := by
  induction es generalizing q with
  | nil =>
    refine ⟨h, ?_⟩
    show q.queue ++ savedTo saved q.queueFns.entries <+ _
    rw [hes]
  | cons p rest ih =>
    obtain ⟨key, fn⟩ := p
    obtain ⟨hrest, hstored, l, hl, hqueue⟩ := h.loadFile hes
    have hfirst : (q.loadFile key fn).1.queue ++ savedTo saved rest <+
        q.queue ++ savedTo saved ((key, fn) :: rest) := by
      rw [hqueue, savedTo, savedTo, List.flatMap_cons, List.append_assoc]
      exact (hl.sublist.append (List.Sublist.refl _)).append_left _
    rw [PayloadQueue.loadHeadFile]
    dsimp only
    split
    · obtain ⟨hstored', horder⟩ := ih hstored hrest
      exact ⟨hstored', horder.trans hfirst⟩
    · refine ⟨hstored, ?_⟩
      rw [hrest]
      exact hfirst

theorem Stored.peek (h : Stored q saved lastKey) :
    Stored q.peek.2.1 saved lastKey ∧
      q.peek.2.1.queue ++ savedTo saved q.peek.2.1.queueFns.entries <+
        q.queue ++ savedTo saved q.queueFns.entries := by
  obtain ⟨hstored, horder⟩ := h.loadHeadFile rfl
  rw [PayloadQueue.peek]
  split
  · dsimp only
    split
    · exact ⟨hstored, horder⟩
    · exact ⟨hstored.congr rfl rfl rfl, horder⟩
  · exact ⟨h, List.Sublist.refl _⟩

namespace World

variable {w w' : World}

/-! ## The invariant

Three things are compared: what was pushed, what has been handed out, and what could be handed out
now.  The second and the third together may become less with a step, but nothing gets into them
except at the end. -/

/-- The files hold what was saved to them, and what has been delivered and what is to come are some
of what was pushed, in that order. -/
structure Orderly (w : World) : Prop where
  stored : Stored w.q w.saved w.lastKey
  order : w.delivered ++ w.pending <+ w.pushed

theorem orderly_init (maxMem : Nat) : (init maxMem).Orderly :=
  ⟨(sound_init maxMem).stored, List.nil_sublist _⟩

/-- A payload that is saved to a file comes last, if it comes at all. -/
theorem saveTo_sublist {q : PayloadQueue} {saved : FileName → List Payload} {lastKey : Option Nat}
    (h : Stored q saved lastKey) {o : OutFile} (ho : q.out = some o) (pl : Payload) :
    q.queue ++ savedTo (saveTo saved q.out pl) q.queueFns.entries <+
      q.queue ++ savedTo saved q.queueFns.entries ++ [pl] := by
  rw [ho, List.append_assoc]
  refine List.Sublist.append_left ?_ _
  by_cases hgone : q.files.get? o.file = none
  · have hsame : savedTo (saveTo saved (some o) pl) q.queueFns.entries =
        savedTo saved q.queueFns.entries :=
      List.flatMap_congr fun p hp ↦ by
        rw [saveTo, Function.update_of_ne (h.ne_of_gone hgone hp)]
    rw [hsame]
    exact List.sublist_append_left ..
  · obtain ⟨l, key, hentries, hne⟩ := h.entries_of_out ho hgone
    rw [hentries, savedTo, savedTo, flatMap_saveTo hne]

theorem Orderly.append {q : PayloadQueue} {saved : FileName → List Payload} {lastKey : Option Nat}
    (h : Stored q saved lastKey) {o : OutFile} (ho : q.out = some o) {arr : List (List UInt8)}
    (hlen : sumLengths arr ≤ 65535) {pushed delivered discarded}
    (horder : delivered ++ (q.queue ++ savedTo saved q.queueFns.entries) <+ pushed) :
    Orderly { q := (q.appendFile arr).1, pushed := pushed ++ [arr.flatten], delivered := delivered,
              discarded := discarded, saved := saveTo saved q.out arr.flatten, lastKey := lastKey,
              answer := none } := by
  refine ⟨?_, ?_⟩
  · by_cases hgone : q.files.get? o.file = none
    · exact h.appendGone ho hgone arr
    · exact h.appendFile ho hgone hlen
  · rw [pending]
    dsimp only
    rw [appendFile_queue, appendFile_queueFns]
    refine ((saveTo_sublist h ho arr.flatten).append_left delivered).trans ?_
    rw [← List.append_assoc]
    exact horder.append (List.Sublist.refl _)

theorem Orderly.push (h : w.Orderly) {arr : List (List UInt8)} {now : Nat}
    (hreg : w.Regular (.push arr now)) (hw : w.step (.push arr now) = .ok w') : w'.Orderly := by
  obtain ⟨hlen, hnow⟩ := hreg
  rw [step] at hw
  dsimp only at hw
  split at hw
  · rename_i hfits
    cases hw
    have hq : (w.q.push arr now).1.queueFns = w.q.queueFns ∧ (w.q.push arr now).1.out = w.q.out ∧
        (w.q.push arr now).1.files = w.q.files ∧
        (w.q.push arr now).1.queue = w.q.queue ++ [arr.flatten] := by
      rw [PayloadQueue.push, if_pos hfits]
      simp
    obtain ⟨hfns, hout, hfiles, hqueue⟩ := hq
    -- there are no files
    have hnil : w.q.queueFns.entries = [] := by
      rw [fitsMemory, Bool.and_eq_true] at hfits
      exact List.isEmpty_iff.mp hfits.1
    refine ⟨h.stored.congr hfns hout hfiles, ?_⟩
    have horder := h.order
    rw [pending, hnil, List.flatMap_nil, List.append_nil] at horder
    rw [pending]
    dsimp only
    rw [hqueue, hfns, hnil, List.flatMap_nil, List.append_nil, ← List.append_assoc]
    exact horder.append (List.Sublist.refl _)
  rename_i hfits
  split at hw
  · rename_i hneeds
    cases hw
    have hq : w.q.push arr now = (w.q.newFile now).appendFile arr := by
      rw [PayloadQueue.push, if_neg hfits, if_pos hneeds]
    rw [hq]
    refine Orderly.append (h.stored.newFile hnow) (newFile_out w.q now) hlen ?_
    have hsame : savedTo (Function.update w.saved (makeQueueFile now) []) w.q.queueFns.entries =
        savedTo w.saved w.q.queueFns.entries :=
      List.flatMap_congr fun p hp ↦ Function.update_of_ne (h.stored.ne_newFile hnow hp) ..
    rw [newFile_queue, newFile_entries h.stored hnow, savedTo, List.flatMap_append, ← savedTo,
      hsame]
    simpa [pending, savedTo] using h.order
  · rename_i hneeds
    cases hw
    have hq : w.q.push arr now = w.q.appendFile arr := by
      rw [PayloadQueue.push, if_neg hfits, if_neg hneeds]
    rw [hq]
    obtain ⟨o, ho⟩ : ∃ o, w.q.out = some o := by
      rw [needsFile, Bool.or_eq_true, not_or] at hneeds
      exact Option.ne_none_iff_exists'.mp (by simpa using hneeds.1)
    exact Orderly.append h.stored ho hlen h.order

/-- What is to come is some of what was. -/
theorem Orderly.shorten (h : w.Orderly) {q : PayloadQueue} (answer : Option (Option Payload))
    (discarded : List Payload) (hstored : Stored q w.saved w.lastKey)
    (hpending : q.queue ++ savedTo w.saved q.queueFns.entries <+ w.pending) :
    Orderly { w with q, answer, discarded } :=
  ⟨hstored, (hpending.append_left _).trans h.order⟩

theorem Orderly.consume (h : w.Orderly) : Orderly { w with
    q := w.q.consume.2
    delivered := w.delivered ++ w.q.consume.1.toList
    answer := none } := by
  have horder := h.order
  rw [pending] at horder
  rw [PayloadQueue.consume]
  cases hqueue : w.q.queue with
  | nil => exact ⟨h.stored, by simpa [pending] using h.order⟩
  | cons pl rest =>
    rw [hqueue] at horder
    exact ⟨h.stored.congr rfl rfl rfl, by simpa [pending] using horder⟩

theorem Orderly.discard (h : w.Orderly) : ∃ w', w.step .discard = .ok w' ∧ w'.Orderly := by
  rw [step, discardFile]
  cases hentries : w.q.queueFns.entries with
  | nil =>
    rw [OrdMap.first?, hentries]
    exact ⟨_, rfl, h.stored, h.order⟩
  | cons p rest =>
    obtain ⟨key, fn⟩ := p
    obtain ⟨bytes, hget, -⟩ := h.stored.files (key, fn) (by simp [hentries])
    rw [OrdMap.first?, hentries]
    simp only [List.head?_cons, hget]
    obtain ⟨hrest, hstored⟩ := h.stored.dropHead hentries
      (r := { w.q with files := w.q.files.erase fn, queueFns := w.q.queueFns.erase key })
      rfl rfl rfl
    refine ⟨_, rfl, h.shorten none _ hstored ?_⟩
    rw [hrest, pending, hentries, List.flatMap_cons]
    exact (List.sublist_append_right ..).append_left _

/-- **The step lemma**: a step goes through, and keeps the invariant. -/
theorem Orderly.step (h : w.Orderly) {op : Op} (hreg : w.Regular op) :
    ∃ w', w.step op = .ok w' ∧ w'.Orderly := by
  obtain ⟨hstored, hpending⟩ := h.stored.peek
  cases op with
  | push arr now =>
    obtain ⟨w', hw'⟩ : ∃ w', w.step (.push arr now) = .ok w' := by
      rw [World.step]
      dsimp only
      split
      · exact ⟨_, rfl⟩
      · split <;> exact ⟨_, rfl⟩
    exact ⟨w', hw', h.push hreg hw'⟩
  | peek => exact ⟨_, rfl, h.shorten _ _ hstored hpending⟩
  | consume => exact ⟨_, rfl, h.consume⟩
  | poke =>
    refine ⟨_, rfl, h.shorten none _ ?_ ?_⟩ <;> rw [poke_queue]
    · exact hstored
    · exact hpending
  | flush n =>
    refine ⟨_, rfl, h.shorten none _ (h.stored.flush n) ?_⟩
    rw [flush_queue, flush_queueFns]
    exact List.Sublist.refl _
  | discard => exact h.discard

theorem Orderly.held_sublist (h : w.Orderly) : w.delivered ++ w.q.held <+ w.pushed :=
  (h.stored.held_sublist.append_left _).trans h.order

theorem orderly_of_reach {maxMem : Nat} (h : Run.Reach World.step Regular (init maxMem) w) :
    w.Orderly := by
  refine h.invariant (orderly_init maxMem) fun w op w' hw hreg hs ↦ ?_
  obtain ⟨w₁, hs₁, hw₁⟩ := hw.step hreg
  obtain rfl : w₁ = w' := Except.ok.inj (hs₁.symm.trans hs)
  exact hw₁

/-- **Nothing is made up, comes twice, or overtakes.**  However a queue races for its files, what it
has handed out, followed by what it could hand out now, is a subsequence of what was pushed; and no
operation fails. -/
theorem handed_out_in_order {maxMem : Nat} (h : Run.Reach World.step Regular (init maxMem) w) :
    w.delivered ++ w.q.held <+ w.pushed ∧
      ∀ op, w.Regular op → ∃ w', w.step op = .ok w' := by
  have horderly := orderly_of_reach h
  refine ⟨horderly.held_sublist, fun op hreg ↦ ?_⟩
  obtain ⟨w', hw', -⟩ := horderly.step hreg
  exact ⟨w', hw'⟩

/-- The second of five payloads is lost when its file is read too early, and the fourth is saved to
that file afterwards. -/
theorem handed_out_in_order_raced : ∃ w, Run.exec World.step (init 8)
      [.push [[1, 1, 1, 1, 1, 1, 1]] 0, .push [[2]] 1, .consume, .peek,
        .push [[3, 3, 3, 3, 3, 3, 3]] 2, .push [[4]] 3, .consume, .push [[5]] 4] = .ok w ∧
    w.delivered ++ w.q.held = [[1, 1, 1, 1, 1, 1, 1], [3, 3, 3, 3, 3, 3, 3], [5]] ∧
    w.delivered ++ w.q.held <+ w.pushed ∧
      ∀ op, w.Regular op → ∃ w', w.step op = .ok w' := by
  have hok : Run.Along World.step Regular (init 8)
      [.push [[1, 1, 1, 1, 1, 1, 1]] 0, .push [[2]] 1, .consume, .peek,
        .push [[3, 3, 3, 3, 3, 3, 3]] 2, .push [[4]] 3, .consume, .push [[5]] 4] := by
    decide +kernel
  exact ⟨_, rfl, rfl, handed_out_in_order (Run.reach_of_exec rfl hok)⟩

/-! ## Queues that stay in memory

As long as all that is pushed fits there are no files, and so no race.  Here nothing is lost either.
-/

/-- What is pushed fits in memory. -/
def Fits (w : World) : Op → Prop
  | .push arr _ => w.q.fitsMemory (sumLengths arr) = true
  | _ => True

/-- There are no files, and what was pushed has been delivered or is in memory. -/
structure InMemory (w : World) : Prop where
  files : w.q.queueFns.entries = []
  account : w.pushed = w.delivered ++ w.q.queue

theorem inMemory_init (maxMem : Nat) : (init maxMem).InMemory := ⟨rfl, rfl⟩

/-- With no files, a peek only looks. -/
theorem InMemory.peek (h : w.InMemory) : w.q.peek.2.1.queueFns.entries = [] ∧
    w.q.peek.2.1.queue = w.q.queue := by
  rw [PayloadQueue.peek, h.files, PayloadQueue.loadHeadFile]
  dsimp only
  split
  · exact ⟨h.files, rfl⟩
  · exact ⟨h.files, rfl⟩

theorem InMemory.step (h : w.InMemory) {op : Op} (hfits : w.Fits op) (hw : w.step op = .ok w') :
    w'.InMemory := by
  obtain ⟨hfiles, hqueue⟩ := h.peek
  cases op with
  | push arr now =>
    replace hfits : w.q.fitsMemory (sumLengths arr) = true := hfits
    have hmemory : w.q.push arr now = w.q.pushMemory arr := by
      rw [PayloadQueue.push, if_pos hfits]
    rw [World.step] at hw
    dsimp only at hw
    rw [if_pos hfits] at hw
    cases hw
    refine ⟨?_, ?_⟩ <;> dsimp only <;> rw [hmemory]
    · rw [pushMemory_queueFns]
      exact h.files
    · rw [pushMemory_queue, h.account, List.append_assoc]
  | peek =>
    cases hw
    exact ⟨hfiles, by rw [hqueue]; exact h.account⟩
  | consume =>
    cases hw
    have haccount := h.account
    refine ⟨?_, ?_⟩ <;> dsimp only <;> rw [PayloadQueue.consume] <;> split
    · exact h.files
    · exact h.files
    · simpa using haccount
    · rename_i pl rest hq
      rw [hq] at haccount
      simpa using haccount
  | poke =>
    cases hw
    refine ⟨?_, ?_⟩ <;> dsimp only <;> rw [poke_queue]
    · exact hfiles
    · rw [hqueue]
      exact h.account
  | flush n =>
    cases hw
    exact ⟨by rw [flush_queueFns]; exact h.files, by rw [flush_queue]; exact h.account⟩
  | discard =>
    obtain ⟨r, hr, rfl⟩ := map_ok hw
    rcases discardFile_cases hr with ⟨-, hsame, -⟩ | ⟨key, fn, bytes, hfirst, -⟩
    · exact ⟨by rw [hsame]; exact h.files, by rw [hsame]; exact h.account⟩
    · rw [OrdMap.first?, h.files] at hfirst
      cases hfirst

/-- **What fits in memory is not lost.** -/
theorem inMemory_of_fits {maxMem : Nat} (h : Run.Reach World.step Fits (init maxMem) w) :
    w.InMemory :=
  h.invariant (inMemory_init maxMem) fun _ _ _ hw hfits hs ↦ hw.step hfits hs

end World
end PayloadQueue
end UdpTun
