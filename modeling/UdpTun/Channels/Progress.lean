import UdpTun.Channels
import UdpTun.Queues.Contents

/-!
# How far a frame has got

A channel remembers how much of its current frame has been sent (`part`), and the current record
stays at the head of the queue until all of it has been (`InOrder`).  Describing the frame changes
neither; of what it offers, the part that is sent is added (`InOrder.consumed`), and when this makes
the frame whole, its record leaves the queue.
-/

set_option autoImplicit false

namespace UdpTun
namespace Channel

variable {szClid : Nat} {c c' : Channel}

/-- What has been sent of the current frame. -/
def part (szClid : Nat) (c : Channel) : List UInt8 :=
  match c.current with
  | none => []
  | some pl => (frame szClid c.label pl).take c.done

/-- The current record is at the head of the queue, and its frame is not done. -/
structure InOrder (szClid : Nat) (c : Channel) : Prop where
  head : ∀ pl, c.current = some pl → c.queue.queue.head? = some pl
  done : ∀ pl, c.current = some pl → c.done < (frame szClid c.label pl).length

/-- The queue holds what it did before. -/
structure Follows (c c' : Channel) : Prop where
  label : c'.label = c.label
  memory : c.queue.queue <+: c'.queue.queue
  held : c'.queue.held = c.queue.held

theorem follows_refl (c : Channel) : Follows c c := ⟨rfl, List.prefix_rfl, rfl⟩

theorem part_of_none (h : c.current = none) : c.part szClid = [] := by rw [part, h]

theorem part_of_some {pl : Payload} (h : c.current = some pl) :
    c.part szClid = (frame szClid c.label pl).take c.done := by rw [part, h]

/-- **A part that has been sent** is not the whole. -/
theorem InOrder.part_cases (h : c.InOrder szClid) : c.part szClid = [] ∨
    ∃ pl ∈ c.queue.queue, c.part szClid <+: frame szClid c.label pl ∧
      c.part szClid ≠ frame szClid c.label pl := by
  cases hcurrent : c.current with
  | none => exact .inl (part_of_none hcurrent)
  | some pl =>
    have hdone := h.done pl hcurrent
    refine .inr ⟨pl, List.mem_of_mem_head? (h.head pl hcurrent), ?_, fun heq ↦ ?_⟩
    · rw [part_of_some hcurrent]
      exact List.take_prefix ..
    · have hlen := congrArg List.length heq
      rw [part_of_some hcurrent, List.length_take] at hlen
      omega

/-- Nothing matters but the current frame and the queue. -/
theorem InOrder.congr {d : Channel} (h : c.InOrder szClid) (hlabel : d.label = c.label)
    (hcurrent : d.current = c.current) (hdone : d.done = c.done)
    (hmemory : c.queue.queue <+: d.queue.queue) :
    d.InOrder szClid ∧ d.part szClid = c.part szClid := by
  refine ⟨⟨fun pl hpl ↦ ?_, fun pl hpl ↦ ?_⟩, by rw [part, part, hcurrent, hlabel, hdone]⟩
  · rw [hcurrent] at hpl
    obtain ⟨rest, hqueue⟩ := List.head?_eq_some_iff.mp (h.head pl hpl)
    obtain ⟨more, hmore⟩ := hmemory
    rw [← hmore, hqueue]
    rfl
  · rw [hlabel, hdone]
    exact h.done pl (hcurrent ▸ hpl)

theorem InOrder.fetch (h : c.InOrder szClid) : c.fetch.1.InOrder szClid ∧
    Follows c c.fetch.1 ∧ c.fetch.1.part szClid = c.part szClid := by
  obtain ⟨hqueue, hhead⟩ := PayloadQueue.queue_peek c.queue
  have hheld := PayloadQueue.held_peek c.queue
  rcases c.fetch_cases with ⟨pl, -, hf⟩ | ⟨hnone, -, hf⟩ | ⟨hnone, pl, hpeek, hf⟩ <;> rw [hf]
  · exact ⟨h, follows_refl c, rfl⟩
  · obtain ⟨horder, hpart⟩ := h.congr (d := { c with queue := c.queue.peek.2.1 }) rfl rfl rfl hqueue
    exact ⟨horder, ⟨rfl, hqueue, hheld⟩, hpart⟩
  · -- nothing of the new frame has been sent
    refine ⟨⟨fun pl' hpl' ↦ ?_, fun pl' hpl' ↦ ?_⟩, ⟨rfl, hqueue, hheld⟩, ?_⟩
    · cases hpl'
      exact hhead pl hpeek
    · rw [length_frame]
      exact Nat.lt_of_lt_of_le (by decide : 0 < headerBytes) (Nat.le_add_right ..)
    · rw [part_of_none hnone]
      rfl

/-- What `describe` gives is the rest of the current frame. -/
theorem InOrder.describe (h : c.InOrder szClid) {some' : Bool} {iov : Iov}
    {l : List PayloadQueue.Call} (hd : c.describe szClid [] = .ok (some', iov, c', l)) :
    c'.InOrder szClid ∧ Follows c c' ∧ c'.part szClid = c.part szClid ∧
      (some' = false → c'.current = none) ∧
      (some' → ∃ pl, c'.current = some pl ∧
        iov.flatten = (frame szClid c'.label pl).drop c'.done) := by
  obtain ⟨horder, hfollows, hpart⟩ := h.fetch
  rcases describe_ok hd with ⟨rfl, hf, hnone⟩ | ⟨rfl, c₁, pl, hf, hpl, hd⟩
  · rw [hf] at horder hfollows hpart
    exact ⟨horder, hfollows, hpart, fun _ ↦ hnone, nofun⟩
  · rw [hf] at horder hfollows hpart
    obtain ⟨-, hiov, hlabel, hqueue, hcurrent, hdone⟩ := describeCurrent_ok hd
    obtain ⟨horder', hpart'⟩ := horder.congr hlabel hcurrent hdone
      (by simp [hqueue])
    refine ⟨horder', ⟨hlabel.trans hfollows.label, ?_, ?_⟩, hpart'.trans hpart, nofun,
      fun _ ↦ ⟨pl, hcurrent.trans hpl, ?_⟩⟩
    · rw [hqueue]
      exact hfollows.memory
    · rw [hqueue]
      exact hfollows.held
    · rw [hiov, hlabel, hdone]
      rfl

/-- **Some of the rest is sent.**  Either the frame is whole then, and its record leaves the queue;
or there is more to be sent. -/
theorem InOrder.consumed (h : c.InOrder szClid) {pl : Payload} (hpl : c.current = some pl)
    {n : Nat} {bytes : List UInt8} (hbytes : bytes = ((frame szClid c.label pl).drop c.done).take n)
    {allDone : Bool} {l : List PayloadQueue.Call}
    (hc : c.consumed szClid bytes.length = .ok (allDone, c', l)) :
    c'.InOrder szClid ∧ c'.label = c.label ∧
      ((allDone = true ∧ c.part szClid ++ bytes = frame szClid c.label pl ∧
          c'.part szClid = [] ∧ c.queue.consume.1 = some pl ∧
          c.queue.queue <+: pl :: c'.queue.queue ∧ c.queue.held = pl :: c'.queue.held) ∨
        (allDone = false ∧ c'.part szClid = c.part szClid ++ bytes ∧ c'.queue = c.queue)) := by
  have hdone := h.done pl hpl
  have hlen : bytes.length = min n ((frame szClid c.label pl).length - c.done) := by
    rw [hbytes, List.length_take, List.length_drop]
  have hpart : c.part szClid ++ bytes = (frame szClid c.label pl).take (c.done + bytes.length) := by
    have htake : bytes = ((frame szClid c.label pl).drop c.done).take bytes.length := by
      rw [hlen, ← List.length_drop, ← List.take_eq_take_min]
      exact hbytes
    rw [part_of_some hpl, List.take_add, ← htake]
  obtain ⟨pl', hpl', ⟨rfl, hall, rfl, -⟩ | ⟨rfl, hrest, rfl, -⟩⟩ := consumed_ok hc
  all_goals
    cases hpl.symm.trans hpl'
    rw [← length_frame szClid c.label pl] at *
  · obtain ⟨hconsume, hmemory, hheld⟩ := PayloadQueue.consume_poke (h.head pl hpl)
    refine ⟨⟨nofun, nofun⟩, rfl, .inl ⟨rfl, ?_, rfl, hconsume, hmemory, hheld⟩⟩
    rw [hpart, hall, List.take_length]
  · refine ⟨⟨h.head, fun pl' hpl' ↦ ?_⟩, rfl, .inr ⟨rfl, ?_, rfl⟩⟩
    · cases hpl.symm.trans hpl'
      dsimp only
      omega
    · rw [hpart]
      exact part_of_some hpl

/-- Nothing of the rest is sent. -/
theorem InOrder.consumed_zero (h : c.InOrder szClid) {allDone : Bool}
    {l : List PayloadQueue.Call} (hc : c.consumed szClid 0 = .ok (allDone, c', l)) : c' = c := by
  obtain ⟨pl, hpl, ⟨-, hall, -⟩ | ⟨-, -, rfl, -⟩⟩ := consumed_ok hc
  · have hdone := h.done pl hpl
    rw [length_frame] at hdone
    omega
  · rfl

end Channel
end UdpTun
