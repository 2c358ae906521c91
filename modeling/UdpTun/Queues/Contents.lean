import UdpTun.Queues

/-!
# What the payloads of a queue have in common

A property of payloads that holds of everything that is pushed holds of everything that comes out.
`Holds P` says this of a queue between its calls: `P` is true of the payloads in memory, and the
files, with what is still to be moved to them, are made up of payloads of which it is true.

This stays so even when a file is read too early: what is read is then the beginning of a payload
that is dropped, or none of it.

`held` is what a queue could give out if nothing more were pushed.  A peek does not change it, and
consuming takes away its head.
-/

set_option autoImplicit false

namespace UdpTun
namespace PayloadQueue

/-- `P` is true of all payloads of the queue. -/
structure Holds (P : Payload → Prop) (q : PayloadQueue) : Prop where
  memory : ∀ pl ∈ q.queue, P pl
  files : ∀ fn bytes, q.files.get? fn = some bytes →
    ∃ pls, (∀ pl ∈ pls, pl.length < 65536 ∧ P pl) ∧
      bytes ++ q.bufferedFor fn = Payload.code.encodeAll pls

variable {P : Payload → Prop} {q : PayloadQueue}

theorem holds_fresh (maxMem : Nat) (fns : OrdMap Nat FileName) :
    (fresh maxMem fns .empty).Holds P := by
  refine ⟨by simp [fresh], fun fn bytes h ↦ ?_⟩
  cases h

/-- Only the payloads in memory, the files and the stream matter. -/
theorem Holds.congr (h : q.Holds P) {r : PayloadQueue} (hqueue : ∀ pl ∈ r.queue, P pl)
    (hout : r.out = q.out) (hfiles : r.files = q.files) : r.Holds P := by
  refine ⟨hqueue, fun fn bytes hget ↦ ?_⟩
  rw [bufferedFor, hout, ← bufferedFor]
  exact h.files fn bytes (by rwa [hfiles] at hget)

theorem Holds.flush (h : q.Holds P) (n : Nat) : (q.flush n).Holds P := by
  refine ⟨by simpa using h.memory, fun fn bytes hget ↦ ?_⟩
  rw [flush_get?] at hget
  obtain ⟨bytes', hget', rfl⟩ := Option.map_eq_some_iff.mp hget
  rw [flush_bufferedFor, List.append_assoc, List.take_append_drop]
  exact h.files fn bytes' hget'

theorem Holds.closeOut (h : q.Holds P) : q.closeOut.Holds P := by
  refine ⟨by simpa using h.memory, fun fn bytes hget ↦ ?_⟩
  rw [closeOut_get?] at hget
  obtain ⟨bytes', hget', rfl⟩ := Option.map_eq_some_iff.mp hget
  rw [closeOut_bufferedFor, List.append_nil]
  exact h.files fn bytes' hget'

/-! ## Pushing

A payload that is pushed is added at the end, of memory or of a file; and files that were there stay
what they are. -/

theorem Holds.newFile (h : q.Holds P) (now : Nat) : (q.newFile now).Holds P := by
  refine ⟨by simpa using h.memory, fun fn bytes hget ↦ ?_⟩
  have hbuf : (q.newFile now).bufferedFor fn = [] := by simp [bufferedFor]
  rw [hbuf, List.append_nil]
  rw [newFile_get?] at hget
  split at hget
  · cases hget
    exact ⟨[], by simp, rfl⟩
  · obtain ⟨bytes', hget', rfl⟩ := Option.map_eq_some_iff.mp hget
    exact h.files fn bytes' hget'

theorem Holds.appendFile (h : q.Holds P) {arr : List (List UInt8)} (hlen : sumLengths arr ≤ 65535)
    (hP : P arr.flatten) : (q.appendFile arr).1.Holds P := by
  rw [sumLengths_eq] at hlen
  have hwrite : (q.write (Payload.save arr.flatten)).Holds P := by
    refine ⟨h.memory, fun fn bytes hget ↦ ?_⟩
    obtain ⟨pls, hpls, hbytes⟩ := h.files fn bytes hget
    rw [bufferedFor] at hbytes
    rw [bufferedFor, write]
    cases ho : q.out with
    | none =>
      rw [ho] at hbytes
      exact ⟨pls, hpls, hbytes⟩
    | some o =>
      rw [ho] at hbytes
      dsimp only [Option.map_some] at hbytes ⊢
      split at hbytes
      · refine ⟨pls ++ [arr.flatten], fun pl hpl ↦ ?_, ?_⟩
        · rcases List.mem_append.mp hpl with hpl | hpl
          · exact hpls pl hpl
          · rw [List.mem_singleton.mp hpl]
            exact ⟨by omega, hP⟩
        · rename_i hfile
          rw [if_pos hfile, ← List.append_assoc, hbytes, PrefixCode.encodeAll_append]
          simp [Payload.code]
      · rename_i hfile
        rw [if_neg hfile]
        exact ⟨pls, hpls, hbytes⟩
  exact appendFile_rule (hwrite.congr hwrite.memory rfl rfl) fun _ ↦ Holds.closeOut

theorem Holds.pushMemory (h : q.Holds P) {arr : List (List UInt8)} (hP : P arr.flatten) :
    (q.pushMemory arr).1.Holds P := by
  have hmem : ∀ pl ∈ q.queue ++ [arr.flatten], P pl := by
    intro pl hpl
    rcases List.mem_append.mp hpl with hpl | hpl
    · exact h.memory pl hpl
    · rw [List.mem_singleton.mp hpl]
      exact hP
  exact h.congr (by simpa using hmem) (pushMemory_out q arr) (pushMemory_files q arr)

theorem Holds.push (h : q.Holds P) {arr : List (List UInt8)} (hlen : sumLengths arr ≤ 65535)
    (hP : P arr.flatten) (now : Nat) : (q.push arr now).1.Holds P :=
  push_rule (h.pushMemory hP) (h.newFile now) (fun _ h ↦ h.appendFile hlen hP) h

/-! ## Reading

What is read from a file is the beginning of what is in it and in the buffer together, so nothing
else can come out. -/

/-- Deleting a file leaves the others. -/
theorem Holds.eraseFile (h : q.Holds P) {q' : PayloadQueue} {fn : FileName}
    (hqueue : ∀ pl ∈ q'.queue, P pl) (hout : q'.out = q.out)
    (hfiles : q'.files = q.files.erase fn) : q'.Holds P := by
  refine ⟨hqueue, fun fn' bytes hget ↦ ?_⟩
  rw [hfiles, OrdMap.get?_erase] at hget
  split at hget
  · cases hget
  · rw [bufferedFor, hout, ← bufferedFor]
    exact h.files fn' bytes hget

theorem Holds.loadFile (h : q.Holds P) (key : Nat) (fn : FileName) :
    (q.loadFile key fn).1.Holds P := by
  refine h.eraseFile (fun pl hpl ↦ ?_) rfl rfl
  rcases List.mem_append.mp hpl with hpl | hpl
  · exact h.memory pl hpl
  · -- what was read is the beginning of what was saved
    cases hget : q.files.get? fn with
    | none =>
      rw [hget] at hpl
      cases hpl
    | some bytes =>
      rw [hget] at hpl
      obtain ⟨pls, hpls, hbytes⟩ := h.files fn bytes hget
      have hpre := Payload.loadAll_prefix (fun pl hpl ↦ (hpls pl hpl).1) hbytes
      exact (hpls pl (hpre.subset hpl)).2

theorem Holds.peek (h : q.Holds P) : q.peek.2.1.Holds P :=
  peek_rule (fun _ key fn _ _ h ↦ h.loadFile key fn) (fun _ h ↦ h.congr h.memory rfl rfl) h

theorem Holds.poke (h : q.Holds P) : q.poke.1.Holds P := by
  rw [poke_queue]
  exact h.peek

theorem Holds.consume (h : q.Holds P) : q.consume.2.Holds P := by
  rw [PayloadQueue.consume]
  split
  · exact h
  · rename_i pl rest hqueue
    exact h.congr (fun pl' hpl' ↦ h.memory pl' (by simp [hqueue, hpl'])) rfl rfl

theorem Holds.discardFile (h : q.Holds P) {q' : PayloadQueue} {calls : List Call}
    (hs : q.discardFile = .ok (q', calls)) : q'.Holds P := by
  rcases discardFile_cases hs with ⟨-, rfl, -⟩ | ⟨key, fn, bytes, -, -, rfl, -⟩
  · exact h
  · exact h.eraseFile h.memory rfl rfl

/-! ## What a queue holds

The state is reduced to a list of payloads.  Operations change the list at its ends only. -/

/-- What would be in memory if these files were loaded, one after the other. -/
def loaded : List (Nat × FileName) → PayloadQueue → List Payload
  | [], q => q.queue
  | (key, fn) :: rest, q => loaded rest (q.loadFile key fn).1

/-- What is in memory, and then what can be read from the files. -/
def held (q : PayloadQueue) : List Payload := loaded q.queueFns.entries q

theorem loaded_congr {q' : PayloadQueue} (hqueue : q'.queue = q.queue) (hfiles : q'.files = q.files)
    (es : List (Nat × FileName)) : loaded es q' = loaded es q := by
  induction es generalizing q q' with
  | nil => exact hqueue
  | cons p rest ih =>
    refine ih ?_ ?_
    · show q'.queue ++ _ = q.queue ++ _
      rw [hqueue, hfiles]
    · show q'.files.erase _ = q.files.erase _
      rw [hfiles]

/-- Loading does not look at what is in memory already. -/
theorem loaded_cons {q' : PayloadQueue} {pl : Payload} (hqueue : q.queue = pl :: q'.queue)
    (hfiles : q'.files = q.files) (es : List (Nat × FileName)) :
    loaded es q = pl :: loaded es q' := by
  induction es generalizing q q' with
  | nil => exact hqueue
  | cons p rest ih =>
    refine ih ?_ ?_
    · show q.queue ++ _ = pl :: (q'.queue ++ _)
      rw [hqueue, hfiles]
      rfl
    · show q'.files.erase _ = q.files.erase _
      rw [hfiles]

theorem held_loadHeadFile {es : List (Nat × FileName)} (hes : q.queueFns.entries = es) :
    (loadHeadFile es q).2.1.held = loaded es q := by
  induction es generalizing q with
  | nil =>
    show q.held = _
    rw [held, hes]
  | cons p rest ih =>
    obtain ⟨key, fn⟩ := p
    have hrest : (q.loadFile key fn).1.queueFns.entries = rest := OrdMap.entries_erase_first hes
    rw [PayloadQueue.loadHeadFile]
    dsimp only
    split
    · exact ih hrest
    · show (q.loadFile key fn).1.held = _
      rw [held, hrest]
      rfl

/-- **A peek moves payloads from files to memory**, and no more. -/
theorem held_peek (q : PayloadQueue) : q.peek.2.1.held = q.held := by
  have hload := held_loadHeadFile (q := q) rfl
  rw [PayloadQueue.peek]
  dsimp only
  split
  · split
    · exact hload
    · refine Eq.trans ?_ hload
      apply loaded_congr <;> rfl
  · rfl

/-- What is in memory stays there, and is what a peek shows. -/
theorem queue_peek (q : PayloadQueue) : q.queue <+: q.peek.2.1.queue ∧
    ∀ pl, q.peek.1 = some pl → q.peek.2.1.queue.head? = some pl := by
  by_cases hempty : q.queue = []
  · refine ⟨hempty ▸ List.nil_prefix, fun pl hpl ↦ ?_⟩
    rw [PayloadQueue.peek, if_pos (List.isEmpty_iff.mpr hempty)] at hpl ⊢
    dsimp only at hpl ⊢
    split at hpl
    · rw [if_pos ‹_›]
      exact hpl
    · cases hpl
  · rw [PayloadQueue.peek, if_neg (mt List.isEmpty_iff.mp hempty)]
    exact ⟨List.prefix_rfl, fun _ ↦ id⟩

/-- What a peek shows is in memory. -/
theorem mem_queue_of_peek {pl : Payload} (h : q.peek.1 = some pl) : pl ∈ q.peek.2.1.queue :=
  List.mem_of_mem_head? ((queue_peek q).2 pl h)

theorem held_poke (q : PayloadQueue) : q.poke.1.held = q.held := by
  rw [poke_queue, held_peek]

theorem queue_poke (q : PayloadQueue) : q.queue <+: q.poke.1.queue := by
  rw [poke_queue]
  exact (queue_peek q).1

/-- Consuming takes away the head, and nothing else. -/
theorem held_consume {pl : Payload} (h : q.queue.head? = some pl) :
    ∃ q', q.consume = (some pl, q') ∧ q.queue = pl :: q'.queue ∧ q.held = pl :: q'.held := by
  obtain ⟨rest, hqueue⟩ := List.head?_eq_some_iff.mp h
  obtain ⟨q', hconsume, hrest, hfns, hfiles⟩ : ∃ q', q.consume = (some pl, q') ∧
      q'.queue = rest ∧ q'.queueFns = q.queueFns ∧ q'.files = q.files := by
    rw [PayloadQueue.consume, hqueue]
    exact ⟨_, rfl, rfl, rfl, rfl⟩
  rw [← hrest] at hqueue
  refine ⟨q', hconsume, hqueue, ?_⟩
  rw [held, held, hfns]
  exact loaded_cons hqueue hfiles _

/-- The head of the queue is consumed, and then the queue is poked. -/
theorem consume_poke {pl : Payload} (h : q.queue.head? = some pl) : q.consume.1 = some pl ∧
    q.queue <+: pl :: q.consume.2.poke.1.queue ∧ q.held = pl :: q.consume.2.poke.1.held := by
  obtain ⟨q', hconsume, hqueue, hheld⟩ := held_consume h
  rw [hconsume, hqueue, hheld, held_poke]
  exact ⟨rfl, (List.prefix_cons_inj pl).mpr (queue_poke q'), rfl⟩

end PayloadQueue
end UdpTun
