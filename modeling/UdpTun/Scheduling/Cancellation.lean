import UdpTun.Scheduling.Dispatch

/-!
# Cancellation

An event that has been cancelled is in none of the containers of the scheduler, and nothing but a
`set` brings it back (`Loop.Dormant`).  So its handler is not called, however many polls there are.

This is what `cancel` of three of the four classes comes to.  `SignalEvent::cancel` does not take
the event out of its queue; it even returns at once if the signal has been read already.  So the
handler of a signal event that is cancelled by another handler, in the poll that has read its
signal, is called all the same: `Loop.cancelled_signal_is_notified`.  `Loop.cancel_effective_iff`
says that this is the one case in which a cancellation is not effective.
-/

set_option autoImplicit false

namespace UdpTun

open Scheduler (Kind Inert)

namespace Loop

variable {E : Type} [DecidableEq E] {kind : E → Kind} {l l' : Loop E} {e : E}

/-- What the clock read in the polls in which an event was notified. -/
def firings (l : Loop E) (e : E) : List TimePoint := (l.log.filter (·.1 = e)).map Prod.snd

theorem firings_append {i : E} {now : TimePoint} (h : l'.log = l.log ++ [(i, now)]) (e : E) :
    l'.firings e = if i = e then l.firings e ++ [now] else l.firings e := by
  rw [firings, h, List.filter_append, List.map_append, ← firings]
  by_cases hi : i = e <;> simp [hi]

theorem firings_congr (h : l'.log = l.log) : l'.firings e = l.firings e := by
  rw [firings, h, firings]

theorem firings_prefix (h : l.log <+: l'.log) : l.firings e <+: l'.firings e :=
  (h.filter _).map _

/-- `set` is not called on the event. -/
def NoSet (e : E) (_ : Loop E) : Act E → Prop
  | .call i m => i = e → ¬ m.Sets
  | _ => True

/-- The event is in no container. -/
structure Dormant (l : Loop E) (e : E) : Prop where
  inert : Inert (l.sched.event e)
  idle : e ∉ l.sched.idleness

/-! ## Cancelled events

A dormant event is in no container, and none of the steps but its own `set` puts it in one.  The run
lemma adds up what was notified: nothing. -/

/-- **A cancelled event is dormant**, unless it is a signal event in a queue. -/
theorem Sound.cancel (h : l.Sound kind)
    (hcancel : kind e = .signal → (l.sched.event e).prioAppl = 0)
    (hs : l.step kind (.call e .cancel) = .ok l') : l'.Dormant e := by
  obtain ⟨-, hevent, -, hidle, -⟩ := step_call hs
  have hfits := h.arena.fits e _ rfl
  have hset : kind e ≠ .timed → (l.sched.event e).isSet = false := fun hne ↦
    Bool.eq_false_iff.mpr (mt hfits.timed hne)
  have hsigno : kind e ≠ .signal → (l.sched.event e).signo = 0 := fun hne ↦
    not_not.mp (mt hfits.signal hne)
  have hfd : kind e ≠ .descriptor → (l.sched.event e).fd = none := fun hne ↦
    not_not.mp (mt hfits.descriptor hne)
  have hmem : e ∈ l.sched.idleness → kind e = .idle := fun he ↦
    Option.some.inj (h.arena.idle e he)
  refine ⟨?_, fun he ↦ ?_⟩
  · rw [hevent, Function.update_self]
    cases hk : kind e with
    | idle => exact ⟨rfl, hset (by simp [hk]), hsigno (by simp [hk]), hfd (by simp [hk])⟩
    | timed => exact ⟨rfl, rfl, hsigno (by simp [hk]), hfd (by simp [hk])⟩
    | descriptor => exact ⟨rfl, hset (by simp [hk]), hsigno (by simp [hk]), rfl⟩
    | signal => exact ⟨hcancel hk, hset (by simp [hk]), rfl, hfd (by simp [hk])⟩
  · obtain ⟨he, hne⟩ := hidle.mp he
    exact hne (hmem he)

/-- A call that sets nothing leaves an event that is dormant as it is. -/
theorem inert_result {v : EventState} {k : Kind} {m : Method} (hv : Inert v) (hm : ¬ m.Sets) :
    Inert (m.result k v) := by
  obtain ⟨happl, hset, hsigno, hfd⟩ := hv
  cases m with
  | prio p => exact ⟨if_pos happl, hset, hsigno, hfd⟩
  | cancel =>
    cases k with
    | idle => exact ⟨rfl, hset, hsigno, hfd⟩
    | timed => exact ⟨rfl, rfl, hsigno, hfd⟩
    | descriptor => exact ⟨rfl, hset, hsigno, rfl⟩
    | signal => exact ⟨happl, hset, rfl, hfd⟩
  | idleSet | timedSet _ | descrSet _ _ | sigSet _ => exact absurd trivial hm

theorem idles_of_not_sets {k : Kind} {was : Prop} {m : Method} (h : m.Idles k was)
    (hm : ¬ m.Sets) : was := by
  cases m with
  | prio p => exact h
  | cancel => exact h.1
  | idleSet | timedSet _ | descrSet _ _ | sigSet _ => exact absurd trivial hm

/-- **Dormant events stay dormant**, and are not notified. -/
theorem Dormant.step (h : l.Dormant e) (hl : l.Sound kind) {a : Act E} (ha : NoSet e l a)
    (hs : l.step kind a = .ok l') : l'.Dormant e ∧ l'.firings e = l.firings e := by
  cases a with
  | call i m =>
    obtain ⟨-, hevent, hother, hidle, -, -, -, hlog⟩ := step_call hs
    refine ⟨?_, firings_congr hlog⟩
    by_cases hi : i = e
    · subst hi
      have hm := ha rfl
      refine ⟨?_, fun he ↦ h.idle (idles_of_not_sets (hidle.mp he) hm)⟩
      rw [hevent, Function.update_self]
      exact inert_result h.inert hm
    · refine ⟨?_, fun he ↦ h.idle ((hother e (Ne.symm hi)).mp he)⟩
      rw [hevent, Function.update_of_ne (Ne.symm hi)]
      exact h.inert
  | poll now ready =>
    cases hpoll : l.poll with
    | some d =>
      rw [Loop.step, hpoll] at hs
      cases hs
      exact ⟨h, rfl⟩
    | none =>
      obtain ⟨s, hc, rfl⟩ := step_poll hpoll hs
      obtain ⟨hstage, hempty⟩ := Scheduler.collect_spec hl.wf hc
      have hsame := hstage.inert h.inert h.idle
      refine ⟨⟨?_, fun he ↦ ?_⟩, rfl⟩
      · dsimp only
        rw [hsame]
        exact h.inert
      · rw [hempty] at he
        cases he
  | notify i =>
    rcases step_notify hs with ⟨rfl, -⟩ | ⟨d, -, hmem, rfl⟩
    · exact ⟨h, rfl⟩
    · obtain ⟨happl, hne⟩ := (Scheduler.mem_bucket_queues hl.wf).mp hmem
      have hi : i ≠ e := fun hi ↦ hne (by rw [← happl, hi]; exact h.inert.appl)
      refine ⟨⟨?_, h.idle⟩, (firings_append rfl e).trans (if_neg hi)⟩
      dsimp only
      rw [Scheduler.take_event, Function.update_of_ne (Ne.symm hi)]
      exact h.inert
  | finish =>
    rcases step_finish hs with rfl | ⟨d, -, -, rfl⟩
    · exact ⟨h, rfl⟩
    · exact ⟨⟨h.inert, h.idle⟩, rfl⟩

/-- However many polls there are. -/
theorem Dormant.reach (h : l.Dormant e) (hl : l.Sound kind)
    (hreach : Run.Reach (Loop.step kind) (NoSet e) l l') : l'.firings e = l.firings e := by
  have hinv := hreach.invariant (I := fun l' ↦ l'.Sound kind ∧ l'.Dormant e ∧
    l'.firings e = l.firings e) ⟨hl, h, rfl⟩ fun l₁ a l₂ ⟨hsound, hdormant, hsame⟩ ha hs ↦ by
      obtain ⟨hdormant', hsame'⟩ := hdormant.step hsound ha hs
      exact ⟨hsound.step hs, hdormant', hsame'.trans hsame⟩
  exact hinv.2.2

/-! ## Events that are still queued

The other way round: a cancelled event that is in a queue can be notified, by going on with the poll
under way or beginning another. -/

/-- **What is queued can be notified**, without being set again. -/
theorem Sound.fires (h : l.Sound kind) (he : (l.sched.event e).prioAppl ≠ 0) :
    ∃ l', Run.Reach (Loop.step kind) (NoSet e) l l' ∧ l'.firings e ≠ l.firings e := by
  obtain ⟨l₁, d, hreach, hd, hmem, hlog⟩ : ∃ l₁ d, Run.Reach (Loop.step kind) (Prompts e) l l₁ ∧
      l₁.poll = some d ∧ e ∈ l₁.sched.queues.bucket d.prio ∧ l₁.log = l.log := by
    cases hpoll : l.poll with
    | some d₀ =>
      obtain ⟨l₁, d, hreach, hd, hmem, hlog, -⟩ := next_in_drain h he hpoll
      exact ⟨l₁, d, hreach, hd, hmem, hlog⟩
    | none =>
      obtain ⟨l₁, d, hreach, hd, hmem, hlog, -⟩ := next_in_poll h he hpoll 0
      exact ⟨l₁, d, hreach, hd, hmem, hlog⟩
  have hprompts : ∀ l a, Prompts e l a → NoSet e l a := by
    intro l a ha
    cases a with
    | call i m =>
      cases m with
      | prio p => exact fun _ ↦ id
      | _ => exact False.elim ha
    | _ => trivial
  have hok : NoSet e l₁ (.notify e) := trivial
  refine ⟨_, (hreach.mono hprompts).tail hok (step_next kind hd hmem), ?_⟩
  rw [firings_append rfl e, if_pos rfl, firings_congr hlog]
  simp

/-- **When a cancellation is effective**: the handler of a cancelled event is not called, in any run
in which the event is not set again, exactly when the event is not a signal event in a queue. -/
theorem cancel_effective_iff (h : Run.Reach (Loop.step kind) Run.anyStep start l)
    (hs : l.step kind (.call e .cancel) = .ok l') :
    (∀ l'', Run.Reach (Loop.step kind) (NoSet e) l' l'' → l''.firings e = l'.firings e) ↔
      ¬ (kind e = .signal ∧ (l.sched.event e).prioAppl ≠ 0) := by
  have hsound := sound_of_reach h
  constructor
  · rintro hall ⟨hk, hqueued⟩
    obtain ⟨-, hevent, -⟩ := step_call hs
    have hstill : (l'.sched.event e).prioAppl ≠ 0 := by
      rw [hevent, Function.update_self, hk]
      exact hqueued
    obtain ⟨l'', hreach, hfires⟩ := (hsound.step hs).fires hstill
    exact hfires (hall l'' hreach)
  · intro hnot l'' hreach
    have hdormant := hsound.cancel (fun hk ↦ not_not.mp fun hq ↦ hnot ⟨hk, hq⟩) hs
    exact hdormant.reach (hsound.step hs) hreach

/-- A timer that is cancelled after it has been collected. -/
theorem cancel_effective_iff_timer : ∃ l l' : Loop Nat,
    Run.Reach (Loop.step fun _ ↦ .timed) Run.anyStep start l ∧ (l.sched.event 1).prioAppl ≠ 0 ∧
      l.step (fun _ ↦ .timed) (.call 1 .cancel) = .ok l' ∧
      ∀ l'', Run.Reach (Loop.step fun _ ↦ .timed) (NoSet 1) l' l'' →
        l''.firings 1 = l'.firings 1 := by
  have hrun : Run.Checks (Loop.step fun _ : Nat ↦ Kind.timed) Run.anyStep start
      [.call 0 (.timedSet 4), .call 1 (.timedSet 5), .poll 7 [], .notify 0]
      fun l ↦ (l.sched.event 1).prioAppl ≠ 0 := by decide +kernel
  obtain ⟨l, hl, hqueued⟩ := hrun.reach
  obtain ⟨l', hs⟩ : ∃ l', l.step (fun _ ↦ .timed) (.call 1 .cancel) = .ok l' := ⟨_, rfl⟩
  exact ⟨l, l', hl, hqueued, hs, (cancel_effective_iff hl hs).mpr fun h ↦ nomatch h.1⟩

/-- **A cancelled signal event is notified.**  Two events are set for the same signal, and the
handler of one cancels the other. -/
theorem cancelled_signal_is_notified : ∃ l l' l'' : Loop Nat,
    Run.Reach (Loop.step fun _ ↦ .signal) Run.anyStep start l ∧
      l.step (fun _ ↦ .signal) (.call 1 .cancel) = .ok l' ∧
      l'.step (fun _ ↦ .signal) (.notify 1) = .ok l'' ∧
      l'.firings 1 = [] ∧ l''.firings 1 = [7] := by
  have hrun : Run.Checks (Loop.step fun _ : Nat ↦ Kind.signal) Run.anyStep start
      [.call 0 (.sigSet 15), .call 1 (.sigSet 15), .poll 7 [.signals [15]], .notify 0]
      fun l ↦ ∀ l', l.step (fun _ ↦ .signal) (.call 1 .cancel) = .ok l' →
        l'.firings 1 = [] ∧ ∀ l'', l'.step (fun _ ↦ .signal) (.notify 1) = .ok l'' →
          l''.firings 1 = [7] := by decide +kernel
  obtain ⟨l, hl, hfires⟩ := hrun.reach
  obtain ⟨l', hl'⟩ : ∃ l', l.step (fun _ ↦ .signal) (.call 1 .cancel) = .ok l' := ⟨_, rfl⟩
  obtain ⟨hnone, hnext⟩ := hfires l' hl'
  obtain ⟨l'', hl''⟩ : ∃ l'', l'.step (fun _ ↦ .signal) (.notify 1) = .ok l'' := by
    rw [Loop.step]
    split
    · exact ⟨_, rfl⟩
    · split <;> exact ⟨_, rfl⟩
  exact ⟨l, l', l'', hl, hl', hl'', hnone, hnext l'' hl''⟩

end Loop
end UdpTun
