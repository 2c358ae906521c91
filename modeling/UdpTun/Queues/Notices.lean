import UdpTun.Queues

/-!
# What a queue tells its user

The user of a queue is called when there is something in memory again, and only if it has been
disappointed before.  For this to be enough, a queue that has nothing in memory must not have
anything in files either (`Told`), or the next payload would go to a file, and nobody would be told.
A queue has been told so as soon as it has been poked once, and stays so while its payloads are
shorter than `max_mem`.

`Announces q q' l` is what each operation does: if there was nothing in memory and now there is, the
user is among the calls `l`.
-/

set_option autoImplicit false

namespace UdpTun
namespace PayloadQueue

variable {maxMem : Nat} {q q' : PayloadQueue} {l : List Call}

/-- `sz_mem` is the size of what is in memory. -/
structure Sized (maxMem : Nat) (q : PayloadQueue) : Prop where
  maxMem : q.maxMem = maxMem
  szMem : q.szMem = sumLengths q.queue

/-- A queue with nothing in memory has nothing at all, and owes its user a call. -/
def Told (q : PayloadQueue) : Prop :=
  q.queue = [] → q.queueFns.entries = [] ∧ q.disappointed

/-- What an operation does, and whether the user is told. -/
structure Announces (q q' : PayloadQueue) (l : List Call) : Prop where
  sized : ∀ maxMem, q.Sized maxMem → q'.Sized maxMem
  told : q.Told → q'.Told
  user : q.Told → q'.queue ≠ [] → .user ∈ l ∨ q.queue ≠ []

theorem sized_fresh (maxMem : Nat) (fns : OrdMap Nat FileName)
    (files : OrdMap FileName (List UInt8)) : (fresh maxMem fns files).Sized maxMem :=
  ⟨rfl, rfl⟩

theorem sized_create {files : OrdMap FileName (List UInt8)} {listing : List FileName}
    (h : create maxMem files listing = .ok (q, l)) : q.Sized maxMem := by
  rw [create] at h
  obtain ⟨r, -, heq⟩ := map_ok h
  rw [← (Prod.mk.inj heq).1]
  exact sized_fresh ..

theorem announces_refl (q : PayloadQueue) : Announces q q [] :=
  ⟨fun _ ↦ id, id, fun _ ↦ .inr⟩

/-! ## Files

Writing, closing and discarding files are all alike here: what is in memory stays as it is, and so
nobody is to be told anything. -/

/-- Nothing changes in memory. -/
structure SameMemory (q q' : PayloadQueue) : Prop where
  maxMem : q'.maxMem = q.maxMem
  szMem : q'.szMem = q.szMem
  queue : q'.queue = q.queue
  disappointed : q'.disappointed = q.disappointed

theorem SameMemory.trans {q'' : PayloadQueue} (h : SameMemory q q') (h' : SameMemory q' q'') :
    SameMemory q q'' :=
  ⟨h'.maxMem.trans h.maxMem, h'.szMem.trans h.szMem, h'.queue.trans h.queue,
    h'.disappointed.trans h.disappointed⟩

theorem SameMemory.sized (h : SameMemory q q') (hq : q.Sized maxMem) : q'.Sized maxMem :=
  ⟨h.maxMem.trans hq.maxMem, by rw [h.szMem, h.queue, hq.szMem]⟩

/-- Files may come and go while there is something in memory. -/
theorem SameMemory.announces (h : SameMemory q q')
    (hfns : q.queue = [] → q.queueFns.entries = [] → q'.queueFns.entries = []) :
    Announces q q' l := by
  refine ⟨fun _ ↦ h.sized, fun htold hempty ↦ ?_, fun _ hne ↦ .inr ?_⟩
  · rw [h.queue] at hempty
    obtain ⟨hnil, hdisappointed⟩ := htold hempty
    exact ⟨hfns hempty hnil, h.disappointed.trans hdisappointed⟩
  · rwa [h.queue] at hne

theorem flush_sameMemory (q : PayloadQueue) (n : Nat) : SameMemory q (q.flush n) := by
  rw [flush]
  split <;> exact ⟨rfl, rfl, rfl, rfl⟩

theorem closeOut_sameMemory (q : PayloadQueue) : SameMemory q q.closeOut := by
  rw [closeOut]
  split
  · exact ⟨rfl, rfl, rfl, rfl⟩
  · obtain ⟨hmax, hsz, hqueue, hdisappointed⟩ := flush_sameMemory q _
    exact ⟨hmax, hsz, hqueue, hdisappointed⟩

theorem newFile_sameMemory (q : PayloadQueue) (now : Nat) : SameMemory q (q.newFile now) := by
  obtain ⟨hmax, hsz, hqueue, hdisappointed⟩ := closeOut_sameMemory
    { q with queueFns := q.queueFns.insert now (makeQueueFile now) }
  exact ⟨hmax, hsz, hqueue, hdisappointed⟩

theorem appendFile_sameMemory (q : PayloadQueue) (arr : List (List UInt8)) :
    SameMemory q (q.appendFile arr).1 := by
  have hwrite : SameMemory q { q.write (Payload.save arr.flatten) with
    szOut := q.szOut + (sumLengths arr + 2) } := ⟨rfl, rfl, rfl, rfl⟩
  exact appendFile_rule (P := SameMemory q) hwrite fun r h ↦ h.trans (closeOut_sameMemory r)

theorem announces_flush (q : PayloadQueue) (n : Nat) : Announces q (q.flush n) [] :=
  (flush_sameMemory q n).announces fun _ hnil ↦ by rwa [flush_queueFns]

theorem discardFile_sameMemory (h : q.discardFile = .ok (q', l)) : SameMemory q q' := by
  rcases discardFile_cases h with ⟨-, rfl, -⟩ | ⟨key, fn, bytes, -, -, rfl, -⟩ <;>
    exact ⟨rfl, rfl, rfl, rfl⟩

theorem announces_discardFile (h : q.discardFile = .ok (q', l)) : Announces q q' l := by
  refine (discardFile_sameMemory h).announces fun _ hnil ↦ ?_
  -- there is no file to discard
  rw [discardFile, OrdMap.first?, hnil] at h
  cases h
  exact hnil

/-! ## Pushing

A payload brings something into memory only if there was nothing in files; and the user of an empty
queue is told. -/

theorem Sized.pushMemory (h : q.Sized maxMem) (arr : List (List UInt8)) :
    (q.pushMemory arr).1.Sized maxMem := by
  have hsz : q.szMem + sumLengths arr = sumLengths (q.queue ++ [arr.flatten]) := by
    rw [h.szMem, sumLengths_eq arr]
    simp [sumLengths]
  rw [PayloadQueue.pushMemory]
  dsimp only
  split <;> exact ⟨h.maxMem, hsz⟩

theorem Sized.push (h : q.Sized maxMem) (arr : List (List UInt8)) (now : Nat) :
    (q.push arr now).1.Sized maxMem :=
  push_rule (h.pushMemory arr) ((newFile_sameMemory q now).sized h)
    (fun r hr ↦ (appendFile_sameMemory r arr).sized hr) h

/-- What is in memory stays there. -/
theorem push_queue (q : PayloadQueue) (arr : List (List UInt8)) (now : Nat) :
    q.queue <+: (q.push arr now).1.queue := by
  rw [PayloadQueue.push]
  split
  · rw [pushMemory_queue]
    exact List.prefix_append ..
  · split
    · simp
    · simp

/-- **The next push**: into a queue that holds nothing, it goes to memory, and the user is told. -/
theorem push_user (hsized : q.Sized maxMem) (h : q.Told) (hempty : q.queue = [])
    {arr : List (List UInt8)} (harr : sumLengths arr < maxMem) (now : Nat) :
    (q.push arr now).1.queue ≠ [] ∧ .user ∈ (q.push arr now).2 := by
  obtain ⟨hnil, hdisappointed⟩ := h hempty
  have hsz : q.szMem = 0 := by rw [hsized.szMem, hempty]; rfl
  have hfits : q.fitsMemory (sumLengths arr) := by
    rw [fitsMemory, hnil, hsz, hsized.maxMem, Nat.zero_add, decide_eq_true harr]
    rfl
  rw [PayloadQueue.push, if_pos hfits, pushMemory_queue, PayloadQueue.pushMemory]
  simp [hempty, hdisappointed]

theorem announces_push (hsized : q.Sized maxMem) {arr : List (List UInt8)}
    (harr : sumLengths arr < maxMem) (now : Nat) :
    Announces q (q.push arr now).1 (q.push arr now).2 := by
  have hstays : q.queue ≠ [] → (q.push arr now).1.queue ≠ [] := fun hne hnil ↦
    hne (List.prefix_nil.mp (hnil ▸ push_queue q arr now))
  refine ⟨fun _ h ↦ h.push arr now, fun htold hnil ↦ ?_, fun htold _ ↦ ?_⟩
  · by_cases hempty : q.queue = []
    · exact absurd hnil (push_user hsized htold hempty harr now).1
    · exact absurd hnil (hstays hempty)
  · by_cases hempty : q.queue = []
    · exact .inl (push_user hsized htold hempty harr now).2
    · exact .inr hempty

/-! ## Reading

A peek that finds nothing leaves a call owed, and has left no files either.  So it is by peeking
that a queue comes to be `Told`. -/

theorem Sized.loadFile (h : q.Sized maxMem) (key : Nat) (fn : FileName) :
    (q.loadFile key fn).1.Sized maxMem := by
  refine ⟨h.maxMem, ?_⟩
  simp [PayloadQueue.loadFile, h.szMem, sumLengths]

theorem Sized.peek (h : q.Sized maxMem) : q.peek.2.1.Sized maxMem :=
  peek_rule (fun _ key fn _ _ h ↦ h.loadFile key fn) (fun _ h ↦ ⟨h.maxMem, h.szMem⟩) h

/-- Files are loaded until there is something in memory, or there are none left. -/
theorem loadHeadFile_spec {es : List (Nat × FileName)} (hes : q.queueFns.entries = es)
    (hempty : q.queue = []) : ((loadHeadFile es q).1 ∧ (loadHeadFile es q).2.1.queue ≠ []) ∨
      ((loadHeadFile es q).1 = false ∧ (loadHeadFile es q).2.1.queue = [] ∧
        (loadHeadFile es q).2.1.queueFns.entries = []) := by
  induction es generalizing q with
  | nil => exact .inr ⟨rfl, hempty, hes⟩
  | cons p rest ih =>
    obtain ⟨key, fn⟩ := p
    rw [loadHeadFile]
    dsimp only
    split
    · exact ih (OrdMap.entries_erase_first hes) (List.isEmpty_iff.mp ‹_›)
    · rename_i hne
      exact .inl ⟨rfl, fun hnil ↦ hne (List.isEmpty_iff.mpr hnil)⟩

/-- A peek shows something that is in memory then; or there is nothing, and the user is owed a
call. -/
theorem peek_cases (q : PayloadQueue) : (q.peek.1.isSome ∧ q.peek.2.1.queue ≠ []) ∨
    (q.peek.1 = none ∧ q.peek.2.1.queue = [] ∧ q.peek.2.1.queueFns.entries = [] ∧
      q.peek.2.1.disappointed) := by
  have hhead : ∀ pls : List Payload, pls ≠ [] → pls.head?.isSome := fun _ ↦
    List.isSome_head?.mpr
  by_cases hempty : q.queue = []
  · rw [peek, if_pos (List.isEmpty_iff.mpr hempty)]
    dsimp only
    rcases loadHeadFile_spec (q := q) rfl hempty with ⟨htrue, hne⟩ | ⟨hfalse, hnil, hfns⟩
    · rw [if_pos htrue]
      exact .inl ⟨hhead _ hne, hne⟩
    · rw [hfalse, if_neg Bool.false_ne_true]
      exact .inr ⟨rfl, hnil, hfns, rfl⟩
  · rw [peek, if_neg (mt List.isEmpty_iff.mp hempty)]
    exact .inl ⟨hhead _ hempty, hempty⟩

theorem told_peek (q : PayloadQueue) : q.peek.2.1.Told := by
  intro hempty
  rcases peek_cases q with ⟨-, hne⟩ | ⟨-, -, hfns, hdisappointed⟩
  · exact absurd hempty hne
  · exact ⟨hfns, hdisappointed⟩

/-- A peek brings nothing into memory that was not announced. -/
theorem announces_peek (q : PayloadQueue) : Announces q q.peek.2.1 q.peek.2.2 := by
  refine ⟨fun _ h ↦ h.peek, fun _ ↦ told_peek q, fun htold hne ↦ .inr fun hempty ↦ hne ?_⟩
  obtain ⟨hfns, -⟩ := htold hempty
  rw [peek, if_pos (List.isEmpty_iff.mpr hempty), hfns]
  exact hempty

/-- **Poking a queue** that has something tells the user. -/
theorem poke_user (h : q.poke.1.queue ≠ []) : .user ∈ q.poke.2 := by
  rw [poke_queue] at h
  rcases peek_cases q with ⟨hsome, -⟩ | ⟨-, hnil, -⟩
  · rw [poke, if_pos hsome]
    exact List.mem_append_right _ (List.mem_singleton_self _)
  · exact absurd hnil h

theorem told_poke (q : PayloadQueue) : q.poke.1.Told := by
  rw [poke_queue]
  exact told_peek q

theorem Sized.poke (h : q.Sized maxMem) : q.poke.1.Sized maxMem := by
  rw [poke_queue]
  exact h.peek

theorem Sized.consume (h : q.Sized maxMem) : q.consume.2.Sized maxMem := by
  rw [PayloadQueue.consume]
  split
  · exact h
  · rename_i pl rest hqueue
    refine ⟨h.maxMem, ?_⟩
    have hsz := h.szMem
    rw [hqueue] at hsz
    simp only [sumLengths, List.map_cons, List.sum_cons] at hsz ⊢
    omega

theorem announces_poke (q : PayloadQueue) : Announces q q.poke.1 q.poke.2 :=
  ⟨fun _ h ↦ h.poke, fun _ ↦ told_poke q, fun _ hne ↦ .inl (poke_user hne)⟩

/-- The head is consumed, and then the queue is poked. -/
theorem announces_consume (q : PayloadQueue) :
    Announces q q.consume.2.poke.1 q.consume.2.poke.2 :=
  ⟨fun _ h ↦ h.consume.poke, fun _ ↦ told_poke _, fun _ hne ↦ .inl (poke_user hne)⟩

end PayloadQueue
end UdpTun
