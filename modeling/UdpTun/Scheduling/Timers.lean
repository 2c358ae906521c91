import UdpTun.Scheduling.Cancellation

/-!
# Timers

What `TimedEvent::set` promises: the handler is called once, in a poll in which the clock reads at
least the time that was set (`Loop.Fires`).  `Phase` follows a timer from its `set`: it is in the
table, then it is queued, and then it has been notified.

`TimedEvent::set` does not take the event out of its queue, as the `set`s of idle and descriptor
events do.  If it is there already, because the poll under way has collected it, its handler is
called for the earlier `set`, perhaps too early for the later one, and then once more:
`Loop.reset_timer_is_early`.  Otherwise the promise is kept; `Loop.timer_fires_once` says so, and
that there is no other case.

A timer may have to wait in its queue for a later poll, if its priority is not the first.  When the
clock is turned back meanwhile, it is still notified.
-/

set_option autoImplicit false

namespace UdpTun

open Scheduler (Kind)

variable {E : Type} [DecidableEq E]

/-! ## What a poll collects

A timer is due if its time is not later than what the clock reads.  All that are due leave the table
at once, whatever else the poll has to do. -/

namespace Scheduler

variable {s s' : Scheduler E} {e : E}

theorem queueAll_table (g : EventState → EventState) (es : List E) (s : Scheduler E) :
    (queueAll g es s).table = s.table := by
  induction es generalizing s with
  | nil => rfl
  | cons a es ih =>
    have henqueue : ((s.modify a g).enqueue a).table = s.table := by
      rw [enqueue]
      split <;> rfl
    exact (ih _).trans henqueue

theorem readSignal_table (s : Scheduler E) (signo : Nat) :
    (s.readSignal signo).table = s.table := by
  rw [readSignal]
  split
  · rfl
  · dsimp only
    rw [updateSignal]
    split <;> exact queueAll_table ..

theorem readReady_table {r : Ready E} (hs : s.readReady r = .ok s') : s'.table = s.table := by
  cases r with
  | signals signos =>
    cases hs
    induction signos generalizing s with
    | nil => rfl
    | cons signo signos ih => exact ih.trans (readSignal_table s signo)
  | descriptor i events =>
    obtain ⟨t, ht, rfl⟩ := map_ok hs
    obtain ⟨fd, -, rfl⟩ := descrUpdate_ok ht
    rw [enqueue]
    split <;> rfl

theorem readAll_table {ready : List (Ready E)} (hs : s.readAll ready = .ok s') :
    s'.table = s.table := by
  induction ready generalizing s with
  | nil => cases hs; rfl
  | cons r ready ih =>
    rw [readAll] at hs
    split at hs
    · cases hs
    · exact (ih hs).trans (readReady_table ‹_›)

/-- **What is due leaves the table**, and nothing else does. -/
theorem collect_table {now : TimePoint} {ready : List (Ready E)}
    (hs : s.collect now ready = .ok s') :
    s'.table = s.table.filter fun t _ ↦ !(decide (t ≤ now)) := by
  obtain ⟨t, ht, rfl⟩ := collect_ok hs
  have hidle : (t.collectTimed now).collectIdle.table = (t.collectTimed now).table :=
    queueAll_table ..
  rw [hidle, ← readAll_table ht]
  rfl

/-- **What a poll does to a timer.** -/
theorem collect_timer (h : s.WF) {now : TimePoint} {ready : List (Ready E)}
    (hs : s.collect now ready = .ok s') (hsigno : (s.event e).signo = 0)
    (hfd : (s.event e).fd = none) (hidle : e ∉ s.idleness) : s'.event e =
      if (s.event e).isSet ∧ (s.event e).when' ≤ now then
        EventState.enqueued { s.event e with isSet := false }
      else s.event e := by
  obtain ⟨hstage, -⟩ := collect_spec h hs
  have htimer : ∀ t, (s'.event e).timer = some t ↔ (s.event e).timer = some t ∧ ¬ t ≤ now := by
    intro t
    have hleft := (h.table.filterKeys fun t ↦ !decide (t ≤ now)) t e
    rw [← collect_table hs, hstage.wf.table t e, Option.filter_eq_some_iff] at hleft
    simpa using hleft
  have hgone : (EventState.enqueued { s.event e with isSet := false }).timer = none :=
    EventState.enqueued_timer _
  rcases hstage.plain e hsigno hfd hidle with hsame | ⟨hset, hqueued⟩
  · rw [if_neg, hsame]
    rintro ⟨hset, hdue⟩
    have hsome : (s.event e).timer = some (s.event e).when' := if_pos hset
    exact ((htimer _).mp (hsame ▸ hsome)).2 hdue
  · rw [if_pos, hqueued]
    refine ⟨hset, ?_⟩
    have hsome : (s.event e).timer = some (s.event e).when' := if_pos hset
    by_contra hnot
    have hstill := (htimer _).mpr ⟨hsome, hnot⟩
    rw [hqueued, hgone] at hstill
    cases hstill

end Scheduler

/-! ## A timer that is set

The timer is followed from its `set` through the table and the queue to its notification.  Polls and
calls on other events leave it in its phase or move it on. -/

namespace Loop

variable {kind : E → Kind} {l l' : Loop E} {e t : E} {when' : TimePoint}

/-- The timer is neither set again nor cancelled. -/
def Untouched (t : E) (_ : Loop E) : Act E → Prop
  | .call i m => i = t → ¬ m.Sets ∧ m ≠ .cancel
  | _ => True

instance (t : E) (l : Loop E) : DecidablePred (Untouched t l)
  | .call i m => inferInstanceAs (Decidable (i = t → ¬ m.Sets ∧ m ≠ .cancel))
  | .poll _ _ | .notify _ | .finish => .isTrue trivial

/-- No poll reads the clock before the time that was set while the timer waits in a queue. -/
def OnTime (t : E) (when' : TimePoint) (l : Loop E) : Act E → Prop
  | .poll now _ => l.poll = none → (l.sched.event t).prioAppl ≠ 0 → when' ≤ now
  | _ => True

/-- What is promised for a timer that was set in `l`, in a later state `l'`: it has been notified
once at most, not too early, and it has been, or is queued, if the clock has read the time that was
set. -/
def Fires (l l' : Loop E) (t : E) (when' : TimePoint) : Prop :=
  ∃ fired since, l'.firings t = l.firings t ++ fired ∧ l'.polls = l.polls ++ since ∧
    fired.length ≤ 1 ∧ (∀ now ∈ fired, when' ≤ now) ∧
    ((∃ now ∈ since, when' ≤ now) → fired.length = 1 ∨ (l'.sched.event t).prioAppl ≠ 0)

/-- **The invariant**: how far a timer has got that was set in `l`. -/
inductive Phase (l l' : Loop E) (t : E) (when' : TimePoint) (since : List TimePoint) : Prop
  | armed (hset : (l'.sched.event t).isSet = true) (hwhen : (l'.sched.event t).when' = when')
      (happl : (l'.sched.event t).prioAppl = 0) (hfired : l'.firings t = l.firings t)
      (hsince : ∀ now ∈ since, now < when')
  | queued (hset : (l'.sched.event t).isSet = false) (happl : (l'.sched.event t).prioAppl ≠ 0)
      (hfired : l'.firings t = l.firings t) (hpoll : ∀ d, l'.poll = some d → when' ≤ d.now)
  | notified (now : TimePoint) (hset : (l'.sched.event t).isSet = false)
      (happl : (l'.sched.event t).prioAppl = 0) (hfired : l'.firings t = l.firings t ++ [now])
      (hnow : when' ≤ now)

/-- Only some of the state matters. -/
theorem Phase.congr {l₁ : Loop E} {since : List TimePoint} (h : Phase l l' t when' since)
    (hset : (l₁.sched.event t).isSet = (l'.sched.event t).isSet)
    (hwhen : (l₁.sched.event t).when' = (l'.sched.event t).when')
    (happl : (l₁.sched.event t).prioAppl = 0 ↔ (l'.sched.event t).prioAppl = 0)
    (hfired : l₁.firings t = l'.firings t)
    (hpoll : ∀ d₁, l₁.poll = some d₁ → ∃ d, l'.poll = some d ∧ d₁.now = d.now) :
    Phase l l₁ t when' since := by
  cases h with
  | armed h₁ h₂ h₃ h₄ h₅ =>
    exact .armed (hset.trans h₁) (hwhen.trans h₂) (happl.mpr h₃) (hfired.trans h₄) h₅
  | queued h₁ h₂ h₃ h₄ =>
    refine .queued (hset.trans h₁) (mt happl.mp h₂) (hfired.trans h₃) fun d₁ hd₁ ↦ ?_
    obtain ⟨d, hd, hnow⟩ := hpoll d₁ hd₁
    rw [hnow]
    exact h₄ d hd
  | notified now h₁ h₂ h₃ h₄ =>
    exact .notified now (hset.trans h₁) (happl.mpr h₂) (hfired.trans h₃) h₄

/-- A timer that is set while it is not queued. -/
theorem phase_set (hs : l.step kind (.call t (.timedSet when')) = .ok l')
    (happl : (l.sched.event t).prioAppl = 0) : Phase l' l' t when' [] := by
  obtain ⟨-, hevent, -⟩ := step_call hs
  apply Phase.armed <;> try rw [hevent, Function.update_self]
  · rfl
  · rfl
  · exact happl
  · rfl
  · simp

variable {l₁ l₂ : Loop E} {since : List TimePoint}

theorem Phase.call (h : Phase l l₁ t when' since) {i : E} {m : Method}
    (ha : Untouched t l₁ (.call i m)) (hs : l₁.step kind (.call i m) = .ok l₂) :
    Phase l l₂ t when' since := by
  obtain ⟨-, hevent, -, -, -, hpoll, -, hlog⟩ := step_call hs
  have hnow : ∀ d₂, l₂.poll = some d₂ → ∃ d, l₁.poll = some d ∧ d₂.now = d.now := by
    intro d₂ hd₂
    rw [hpoll] at hd₂
    obtain ⟨d, hd, rfl⟩ := Option.map_eq_some_iff.mp hd₂
    refine ⟨d, hd, ?_⟩
    split <;> rfl
  by_cases hi : i = t
  · subst hi
    obtain ⟨hsets, hcancel⟩ := ha rfl
    cases m with
    | prio p =>
      have hp : p ≠ 0 := by
        obtain ⟨a, ha, -⟩ := map_ok hs
        obtain ⟨-, s', hs', -⟩ := Arena.call_ok ha
        exact (Scheduler.prio_ok hs').1
      have happl : (if (l₁.sched.event i).prioAppl = 0 then 0 else p) = 0 ↔
          (l₁.sched.event i).prioAppl = 0 := by
        split <;> simp [*]
      refine h.congr ?_ ?_ ?_ (firings_congr hlog) hnow <;> rw [hevent, Function.update_self]
      · rfl
      · rfl
      · exact happl
    | cancel => exact absurd rfl hcancel
    | _ => exact absurd trivial hsets
  · have hsame : l₂.sched.event t = l₁.sched.event t := by
      rw [hevent, Function.update_of_ne (Ne.symm hi)]
    exact h.congr (by rw [hsame]) (by rw [hsame]) (by rw [hsame]) (firings_congr hlog) hnow

/-- What a poll does to the timer. -/
theorem Sound.collect_timer (h : l.Sound kind) (hk : kind t = .timed) {now : TimePoint}
    {ready : List (Ready E)} {s : Scheduler E} (hs : l.sched.collect now ready = .ok s) :
    s.event t = if (l.sched.event t).isSet ∧ (l.sched.event t).when' ≤ now then
        EventState.enqueued { l.sched.event t with isSet := false }
      else l.sched.event t := by
  have hfits := h.arena.fits t _ rfl
  have hidle : t ∉ l.sched.idleness := by
    intro hmem
    have hidle : kind t = .idle := Option.some.inj (h.arena.idle t hmem)
    rw [hk] at hidle
    cases hidle
  exact Scheduler.collect_timer h.wf hs (not_not.mp (mt hfits.signal (by simp [hk])))
    (not_not.mp (mt hfits.descriptor (by simp [hk]))) hidle

/-- A poll collects the timer if it is due. -/
theorem Phase.poll (h : Phase l l₁ t when' since) (hsound : l₁.Sound kind) (hk : kind t = .timed)
    {now : TimePoint} {ready : List (Ready E)} (hnone : l₁.poll = none)
    (hon : OnTime t when' l₁ (.poll now ready)) (hs : l₁.step kind (.poll now ready) = .ok l₂) :
    Phase l l₂ t when' (since ++ [now]) := by
  obtain ⟨s, hc, rfl⟩ := step_poll hnone hs
  have hevent := hsound.collect_timer hk hc
  have hd : ∀ d, (s.lowest.map fun p ↦ (⟨now, s, p, [], []⟩ : Drain E)) = some d →
      d.now = now := by
    intro d hd
    obtain ⟨p, -, rfl⟩ := Option.map_eq_some_iff.mp hd
    rfl
  cases h with
  | armed hset hwhen happl hfired hsince =>
    by_cases hdue : when' ≤ now
    · rw [if_pos ⟨hset, hwhen.trans_le hdue⟩] at hevent
      have hnew : (s.event t).isSet = false ∧ (s.event t).prioAppl ≠ 0 := by
        rw [hevent]
        exact ⟨EventState.enqueued_isSet _, Scheduler.enqueued_appl (hsound.wf.usr t)⟩
      exact .queued hnew.1 hnew.2 hfired fun d hd' ↦ (hd d hd').symm ▸ hdue
    · rw [if_neg fun hboth ↦ hdue (hwhen ▸ hboth.2)] at hevent
      refine .armed (hevent ▸ hset) (hevent ▸ hwhen) (hevent ▸ happl) hfired fun n hn ↦ ?_
      rcases List.mem_append.mp hn with hn | hn
      · exact hsince n hn
      · rw [List.mem_singleton.mp hn]
        exact not_le.mp hdue
  | queued hset happl hfired _ =>
    rw [if_neg (by simp [hset])] at hevent
    exact .queued (hevent ▸ hset) (hevent ▸ happl) hfired fun d hd' ↦
      (hd d hd').symm ▸ hon hnone happl
  | notified n hset happl hfired hnow =>
    rw [if_neg (by simp [hset])] at hevent
    exact .notified n (hevent ▸ hset) (hevent ▸ happl) hfired hnow

/-- The timer is notified, or another event is. -/
theorem Phase.take (h : Phase l l₁ t when' since) (hwf : l₁.sched.WF) {i : E} {d : Drain E}
    (hd : l₁.poll = some d) (hmem : i ∈ l₁.sched.queues.bucket d.prio) : Phase l { l₁ with
      sched := l₁.sched.take d.prio i
      poll := some { d with notified := d.notified ++ [i] }
      log := l₁.log ++ [(i, d.now)] } t when' since := by
  obtain ⟨l₂, hl₂⟩ : ∃ l₂, l₂ = { l₁ with
    sched := l₁.sched.take d.prio i
    poll := some { d with notified := d.notified ++ [i] }
    log := l₁.log ++ [(i, d.now)] } := ⟨_, rfl⟩
  have hlog : l₂.log = l₁.log ++ [(i, d.now)] := by rw [hl₂]
  have hfirings := firings_append hlog t
  have hevent : l₂.sched.event = Function.update l₁.sched.event i (l₁.sched.event i).dequeued := by
    rw [hl₂]
    exact Scheduler.take_event ..
  rw [← hl₂]
  by_cases hi : i = t
  · subst hi
    obtain ⟨happl, hne⟩ := (Scheduler.mem_bucket_queues hwf).mp hmem
    rw [if_pos rfl] at hfirings
    cases h with
    | armed _ _ hzero => exact absurd (happl.symm.trans hzero) hne
    | notified _ _ hzero => exact absurd (happl.symm.trans hzero) hne
    | queued hset _ hfired hpoll =>
      refine .notified d.now ?_ ?_ (by rw [hfirings, hfired]) (hpoll d hd) <;>
        rw [hevent, Function.update_self]
      · exact hset
      · rfl
  · rw [if_neg hi] at hfirings
    have hsame : l₂.sched.event t = l₁.sched.event t := by
      rw [hevent, Function.update_of_ne (Ne.symm hi)]
    refine h.congr (by rw [hsame]) (by rw [hsame]) (by rw [hsame]) hfirings fun d₂ hd₂ ↦
      ⟨d, hd, ?_⟩
    rw [hl₂] at hd₂
    cases hd₂
    rfl

/-- **The step lemma.** -/
theorem Phase.step (h : Phase l l₁ t when' since) (hsound : l₁.Sound kind) (hk : kind t = .timed)
    {a : Act E} (ha : Untouched t l₁ a) (hon : OnTime t when' l₁ a)
    (hs : l₁.step kind a = .ok l₂) :
    ∃ more, l₂.polls = l₁.polls ++ more ∧ Phase l l₂ t when' (since ++ more) := by
  -- most steps do not read the clock
  have hnothing : l₂.polls = l₁.polls → Phase l l₂ t when' since →
      ∃ more, l₂.polls = l₁.polls ++ more ∧ Phase l l₂ t when' (since ++ more) :=
    fun hpolls hphase ↦ ⟨[], by simpa using hpolls, by simpa using hphase⟩
  cases a with
  | call i m =>
    obtain ⟨-, -, -, -, -, -, hpolls, -⟩ := step_call hs
    exact hnothing hpolls (h.call ha hs)
  | poll now ready =>
    cases hpoll : l₁.poll with
    | some d =>
      rw [Loop.step, hpoll] at hs
      cases hs
      exact hnothing rfl h
    | none =>
      refine ⟨[now], ?_, h.poll hsound hk hpoll hon hs⟩
      obtain ⟨s, -, rfl⟩ := step_poll hpoll hs
      rfl
  | notify i =>
    rcases step_notify hs with ⟨rfl, -⟩ | ⟨d, hd, hmem, rfl⟩
    · exact hnothing rfl h
    · exact hnothing rfl (h.take hsound.wf hd hmem)
  | finish =>
    rcases step_finish hs with rfl | ⟨d, -, -, rfl⟩
    · exact hnothing rfl h
    · exact hnothing rfl (h.congr rfl rfl Iff.rfl rfl fun _ hd₁ ↦ by cases hd₁)

/-- **The promise is kept** at each stage. -/
theorem Phase.fires (h : Phase l l' t when' since) (hpolls : l'.polls = l.polls ++ since) :
    Fires l l' t when' := by
  cases h with
  | armed hset hwhen happl hfired hsince =>
    refine ⟨[], since, by simpa using hfired, hpolls, by simp, by simp, ?_⟩
    rintro ⟨now, hnow, hdue⟩
    exact absurd hdue (not_le.mpr (hsince now hnow))
  | queued hset happl hfired hpoll =>
    exact ⟨[], since, by simpa using hfired, hpolls, by simp, by simp, fun _ ↦ .inr happl⟩
  | notified now hset happl hfired hnow =>
    exact ⟨[now], since, hfired, hpolls, by simp, by simpa using hnow, fun _ ↦ .inl rfl⟩

theorem fires_of_unqueued (hsound : l.Sound kind) (hk : kind t = .timed)
    (hs : l.step kind (.call t (.timedSet when')) = .ok l')
    (happl : (l.sched.event t).prioAppl = 0) {l'' : Loop E}
    (hreach : Run.Reach (Loop.step kind) (fun l a ↦ Untouched t l a ∧ OnTime t when' l a) l' l'') :
    Fires l' l'' t when' := by
  have hinv := hreach.invariant
    (I := fun l₁ ↦ l₁.Sound kind ∧ ∃ since, l₁.polls = l'.polls ++ since ∧
      Phase l' l₁ t when' since)
    ⟨hsound.step hs, [], by simp, phase_set hs happl⟩
    fun l₁ a l₂ ⟨hsound₁, since, hpolls, hphase⟩ ⟨ha, hon⟩ hs₂ ↦ by
      obtain ⟨more, hmore, hphase'⟩ := hphase.step hsound₁ hk ha hon hs₂
      exact ⟨hsound₁.step hs₂, since ++ more, by rw [hmore, hpolls, List.append_assoc], hphase'⟩
  obtain ⟨-, since, hpolls, hphase⟩ := hinv
  exact hphase.fires hpolls

/-! ## Timers of the default priority

An event whose priority has never been changed is in the first queue, if it is queued.  So the poll
that collects it is the one that notifies it. -/

/-- The priority of the event is left alone. -/
def Ordinary (t : E) (_ : Loop E) : Act E → Prop
  | .call i (.prio _) => i ≠ t
  | _ => True

/-- What it comes to for the fields of the event. -/
structure Default (v : EventState) : Prop where
  usr : v.prioUsr = 1
  appl : v.prioAppl = 0 ∨ v.prioAppl = 1

theorem Default.enqueued {v : EventState} (h : Default v) : Default v.enqueued := by
  rw [EventState.enqueued]
  split
  · exact h
  · exact ⟨h.usr, .inr h.usr⟩

theorem Default.result {v : EventState} (h : Default v) (k : Kind) {m : Method}
    (hm : ∀ p, m ≠ .prio p) : Default (m.result k v) := by
  cases m with
  | prio p => exact absurd rfl (hm p)
  | cancel =>
    cases k with
    | signal => exact ⟨h.usr, h.appl⟩
    | _ => exact ⟨h.usr, .inl rfl⟩
  | idleSet => exact ⟨h.usr, .inl rfl⟩
  | timedSet when' => exact ⟨h.usr, h.appl⟩
  | descrSet fd events => exact ⟨h.usr, .inl rfl⟩
  | sigSet signo => exact ⟨h.usr, h.appl⟩

/-- The poll under way, if any, drains the queue of the event. -/
structure Foremost (l : Loop E) (t : E) : Prop where
  default : Default (l.sched.event t)
  waits : ∀ d, l.poll = some d → (l.sched.event t).prioAppl ≠ 0 → d.prio = 1
  idle : l.poll = none → (l.sched.event t).prioAppl = 0

/-- Only a timer that is due is queued by a poll. -/
theorem Sound.default_collect (h : l.Sound kind) (hk : kind t = .timed)
    (hd : Default (l.sched.event t)) {now : TimePoint} {ready : List (Ready E)} {s : Scheduler E}
    (hs : l.sched.collect now ready = .ok s) : Default (s.event t) := by
  rw [h.collect_timer hk hs]
  split
  · exact Default.enqueued ⟨hd.usr, hd.appl⟩
  · exact hd

/-- The step lemma, for an event of any class that polls leave with its priority. -/
theorem Foremost.kept (h : l₁.Foremost t) (hsound : l₁.Sound kind)
    (hcollect : ∀ {now : TimePoint} {ready : List (Ready E)} {s : Scheduler E},
      l₁.sched.collect now ready = .ok s → Default (s.event t))
    {a : Act E} (ha : Ordinary t l₁ a) (hs : l₁.step kind a = .ok l₂) : l₂.Foremost t := by
  have hsound₂ := hsound.step hs
  cases a with
  | call i m =>
    obtain ⟨-, hevent, -, -, -, hpoll, -⟩ := step_call hs
    have hdefault : Default (l₂.sched.event t) ∧
        ((l₁.sched.event t).prioAppl = 0 → (l₂.sched.event t).prioAppl = 0) := by
      rw [hevent]
      by_cases hi : i = t
      · subst hi
        rw [Function.update_self]
        refine ⟨h.default.result _ ?_, fun hzero ↦ m.result_unqueued hzero⟩
        rintro p rfl
        exact ha rfl
      · rw [Function.update_of_ne (Ne.symm hi)]
        exact ⟨h.default, id⟩
    refine ⟨hdefault.1, fun d₂ hd₂ hqueued ↦ ?_, fun hnone ↦ hdefault.2 (h.idle ?_)⟩
    · rw [hpoll] at hd₂
      obtain ⟨d, hd, rfl⟩ := Option.map_eq_some_iff.mp hd₂
      have hprio := h.waits d hd (mt hdefault.2 hqueued)
      split <;> exact hprio
    · rw [hpoll] at hnone
      exact Option.map_eq_none_iff.mp hnone
  | poll now ready =>
    cases hpoll : l₁.poll with
    | some d =>
      rw [Loop.step, hpoll] at hs
      cases hs
      exact h
    | none =>
      obtain ⟨s, hc, rfl⟩ := step_poll hpoll hs
      have hdefault := hcollect hc
      have hwf : s.WF := hsound₂.wf
      refine ⟨hdefault, fun d hd hqueued ↦ ?_, fun hnone ↦ ?_⟩
      · dsimp only at hd
        rw [Scheduler.lowest_eq_one hwf (hdefault.appl.resolve_left hqueued)] at hd
        cases hd
        rfl
      · by_contra hqueued
        have hlow := Option.map_eq_none_iff.mp hnone
        rw [Scheduler.lowest_eq_one hwf (hdefault.appl.resolve_left hqueued)] at hlow
        cases hlow
  | notify i =>
    rcases step_notify hs with ⟨rfl, -⟩ | ⟨d, hd, hmem, rfl⟩
    · exact h
    · have hevent : (l₁.sched.take d.prio i).event t =
          if i = t then (l₁.sched.event t).dequeued else l₁.sched.event t := by
        rw [Scheduler.take_event]
        by_cases hi : i = t
        · subst hi
          rw [Function.update_self, if_pos rfl]
        · rw [Function.update_of_ne (Ne.symm hi), if_neg hi]
      refine ⟨?_, fun d₂ hd₂ hqueued ↦ ?_, fun hnone ↦ ?_⟩
      · dsimp only
        rw [hevent]
        split
        · exact ⟨h.default.usr, .inl rfl⟩
        · exact h.default
      · cases hd₂
        refine h.waits d hd fun hzero ↦ hqueued ?_
        dsimp only
        rw [hevent]
        split
        · rfl
        · exact hzero
      · cases hnone
  | finish =>
    rcases step_finish hs with rfl | ⟨d, hd, hempty, rfl⟩
    · exact h
    · refine ⟨h.default, fun d₂ hd₂ _ ↦ (by cases hd₂), fun _ ↦ ?_⟩
      by_contra hqueued
      have hmem : t ∈ l₁.sched.queues.bucket 1 := (Scheduler.mem_bucket_queues
        hsound.wf).mpr ⟨h.default.appl.resolve_left hqueued, Nat.one_ne_zero⟩
      rw [h.waits d hd hqueued] at hempty
      rw [hempty] at hmem
      cases hmem

/-- **The step lemma.** -/
theorem Foremost.step (h : l₁.Foremost t) (hsound : l₁.Sound kind) (hk : kind t = .timed)
    {a : Act E} (ha : Ordinary t l₁ a) (hs : l₁.step kind a = .ok l₂) : l₂.Foremost t :=
  h.kept hsound (hsound.default_collect hk h.default) ha hs

/-- The run lemma. -/
theorem Foremost.reach (h : l.Foremost t) (hsound : l.Sound kind) (hk : kind t = .timed)
    (hreach : Run.Reach (Loop.step kind) (Ordinary t) l l') : l'.Sound kind ∧ l'.Foremost t :=
  hreach.invariant (I := fun l ↦ l.Sound kind ∧ l.Foremost t) ⟨hsound, h⟩
    fun _ _ _ ⟨hsound₁, h₁⟩ ha hs ↦ ⟨hsound₁.step hs, h₁.step hsound₁ hk ha hs⟩

omit [DecidableEq E] in
/-- Such a timer never waits for a later poll. -/
theorem Foremost.onTime (h : l.Foremost t) (when' : TimePoint) (a : Act E) :
    OnTime t when' l a := by
  cases a with
  | poll now ready => exact fun hnone hqueued ↦ absurd (h.idle hnone) hqueued
  | _ => trivial

omit [DecidableEq E] in
/-- If it is queued, it may be next. -/
theorem Foremost.next (h : l.Foremost t) (hsound : l.Sound kind)
    (hqueued : (l.sched.event t).prioAppl ≠ 0) :
    ∃ d, l.poll = some d ∧ t ∈ l.sched.queues.bucket d.prio := by
  cases hpoll : l.poll with
  | none => exact absurd (h.idle hpoll) hqueued
  | some d =>
    refine ⟨d, rfl, (Scheduler.mem_bucket_queues hsound.wf).mpr ?_⟩
    rw [h.waits d hpoll hqueued]
    exact ⟨h.default.appl.resolve_left hqueued, Nat.one_ne_zero⟩

/-! ## Timers that are set while they are queued

Here the promise fails, and it is shown to fail in each such state: there is a continuation in which
the handler is called too early or twice. -/

theorem not_fires_early {now : TimePoint} (hfirings : l'.firings t = l.firings t ++ [now])
    (hearly : now < when') : ¬ Fires l l' t when' := by
  rintro ⟨fired, since, hfired, -, -, hnow, -⟩
  have hmem : now ∈ fired := by
    rw [List.append_cancel_left (hfired.symm.trans hfirings)]
    exact List.mem_singleton_self _
  exact absurd (hnow now hmem) (not_le.mpr hearly)

theorem not_fires_twice {more : List TimePoint} (hfirings : l'.firings t = l.firings t ++ more)
    (htwo : 1 < more.length) : ¬ Fires l l' t when' := by
  rintro ⟨fired, since, hfired, -, hlen, -⟩
  rw [List.append_cancel_left (hfired.symm.trans hfirings)] at hlen
  omega

/-- The next poll finds a timer in the table, if it comes then. -/
theorem Sound.poll_queues (h : l.Sound kind) (hk : kind t = .timed) (hnone : l.poll = none)
    (hset : (l.sched.event t).isSet = true) (hwhen : (l.sched.event t).when' = when') :
    ∃ l', l.step kind (.poll when' []) = .ok l' ∧ l'.log = l.log ∧
      (l'.sched.event t).prioAppl ≠ 0 := by
  obtain ⟨l', hs, hc, -, -, hlog⟩ := step_poll_nil kind hnone when'
  refine ⟨l', hs, hlog, ?_⟩
  rw [h.collect_timer hk hc, if_pos ⟨hset, hwhen.le⟩]
  exact Scheduler.enqueued_appl (h.wf.usr t)

/-- **A queued timer that is set** is notified too early, or twice: it is in its queue, and in the
table as well. -/
theorem Foremost.not_fires (h : l.Foremost t) (hsound : l.Sound kind) (hk : kind t = .timed)
    (hqueued : (l.sched.event t).prioAppl ≠ 0) (hset : (l.sched.event t).isSet = true)
    (hwhen : (l.sched.event t).when' = when') :
    ∃ l', Run.Reach (Loop.step kind) (fun l a ↦ Untouched t l a ∧ Ordinary t l a) l l' ∧
      ¬ Fires l l' t when' := by
  have hnotify : ∀ l : Loop E, Untouched t l (.notify t) ∧ Ordinary t l (.notify t) :=
    fun _ ↦ ⟨trivial, trivial⟩
  obtain ⟨d, hd, hmem⟩ := h.next hsound hqueued
  have hs₁ := step_next kind hd hmem
  obtain ⟨l₁, hl₁⟩ : ∃ l₁, l₁ = { l with
    sched := l.sched.take d.prio t
    poll := some { d with notified := d.notified ++ [t] }
    log := l.log ++ [(t, d.now)] } := ⟨_, rfl⟩
  rw [← hl₁] at hs₁
  have hfirings₁ : l₁.firings t = l.firings t ++ [d.now] := by
    rw [firings_append (by rw [hl₁]) t, if_pos rfl]
  have hreach₁ : Run.Reach (Loop.step kind) (fun l a ↦ Untouched t l a ∧ Ordinary t l a) l l₁ :=
    Run.Reach.refl.tail (hnotify l) hs₁
  by_cases hearly : d.now < when'
  · exact ⟨l₁, hreach₁, not_fires_early hfirings₁ hearly⟩
  · -- the poll ends, and the next one finds the timer in the table
    obtain ⟨l₂, hreach₂, hnone, -, hlog, hevent⟩ := drain_ends kind
      (show l₁.poll = some { d with notified := d.notified ++ [t] } by rw [hl₁])
    have hleft : ∀ l a, LeftAlone l a → Untouched t l a ∧ Ordinary t l a := by
      intro l a ha
      cases a with
      | call i m => exact False.elim ha
      | poll now ready => exact False.elim ha
      | _ => exact ⟨trivial, trivial⟩
    have hreach₂ := hreach₁.trans (hreach₂.mono hleft)
    have hsame : (l₂.sched.event t).dequeued = (l.sched.event t).dequeued := by
      rw [hevent t, hl₁]
      show (Scheduler.event (l.sched.take d.prio t) t).dequeued = _
      rw [Scheduler.take_event, Function.update_self]
      rfl
    obtain ⟨l₃, hs₃, hlog₃, hqueued₃⟩ := (hsound.reach hreach₂).poll_queues hk hnone
      ((congrArg EventState.isSet hsame).trans hset)
      ((congrArg EventState.when' hsame).trans hwhen)
    have hok₃ : Untouched t l₂ (.poll when' []) ∧ Ordinary t l₂ (.poll when' []) :=
      ⟨trivial, trivial⟩
    have hreach₃ := hreach₂.tail hok₃ hs₃
    obtain ⟨hsound₃, h₃⟩ := h.reach hsound hk (hreach₃.mono fun _ _ ha ↦ ha.2)
    obtain ⟨d₃, hd₃, hmem₃⟩ := h₃.next hsound₃ hqueued₃
    have hs₄ := step_next kind hd₃ hmem₃
    refine ⟨_, hreach₃.tail (hnotify l₃) hs₄, ?_⟩
    obtain ⟨more, hmore⟩ : l₁.firings t <+: l₃.firings t :=
      (firings_congr hlog₃).symm ▸ firings_prefix hlog
    have htwice : ∀ l₄ : Loop E, l₄.log = l₃.log ++ [(t, d₃.now)] →
        l₄.firings t = l.firings t ++ ([d.now] ++ more ++ [d₃.now]) := by
      intro l₄ hl₄
      rw [firings_append hl₄ t, if_pos rfl, ← hmore, hfirings₁]
      simp only [List.append_assoc]
    exact not_fires_twice (htwice _ rfl) (by simp)

/-- **Timers fire on time, and once.**  Let a timer be set.  If it is not queued then, it is
notified once at most, not too early, and as soon as the clock has read that time it has been
notified or is in its queue; however long it is there, if the clock is not turned back before that
time meanwhile.  A timer whose priority is left alone does not have to wait, so that for all that
the clock may do, it is notified in this way exactly if it is not queued when it is set. -/
theorem timer_fires_once (h : Run.Reach (Loop.step kind) Run.anyStep start l)
    (hk : kind t = .timed) (hs : l.step kind (.call t (.timedSet when')) = .ok l') :
    ((l.sched.event t).prioAppl = 0 → ∀ l'',
        Run.Reach (Loop.step kind) (fun l a ↦ Untouched t l a ∧ OnTime t when' l a) l' l'' →
          Fires l' l'' t when') ∧
      (Run.Reach (Loop.step kind) (Ordinary t) start l →
        ((∀ l'', Run.Reach (Loop.step kind) (fun l a ↦ Untouched t l a ∧ Ordinary t l a) l' l'' →
          Fires l' l'' t when') ↔ (l.sched.event t).prioAppl = 0)) := by
  have hsound := sound_of_reach h
  refine ⟨fun happl l'' hreach ↦ fires_of_unqueued hsound hk hs happl hreach, fun hordinary ↦ ?_⟩
  have hstart : (start : Loop E).Foremost t := ⟨⟨rfl, .inl rfl⟩, nofun, fun _ ↦ rfl⟩
  obtain ⟨-, hforemost⟩ := hstart.reach sound_start hk hordinary
  have hset : Ordinary t l (.call t (.timedSet when')) := trivial
  have hforemost' := hforemost.step hsound hk hset hs
  constructor
  · intro hall
    by_contra hqueued
    obtain ⟨-, hevent, -⟩ := step_call hs
    have hself : l'.sched.event t = { l.sched.event t with when', isSet := true } := by
      rw [hevent, Function.update_self]
      rfl
    obtain ⟨l'', hreach, hnot⟩ := hforemost'.not_fires (hsound.step hs) hk
      (hself ▸ hqueued) (hself ▸ rfl) (congrArg EventState.when' hself)
    exact hnot (hall l'' hreach)
  · intro happl l'' hreach
    -- the clock does not matter to a timer that does not wait
    have hon : Run.Reach (Loop.step kind) (fun l a ↦ Untouched t l a ∧ OnTime t when' l a)
        l' l'' ∧ l''.Sound kind ∧ l''.Foremost t := by
      induction hreach with
      | refl => exact ⟨.refl, hsound.step hs, hforemost'⟩
      | tail _ ha hstep ih =>
        obtain ⟨ih, hsound₁, h₁⟩ := ih
        exact ⟨ih.tail ⟨ha.1, h₁.onTime when' _⟩ hstep, hsound₁.step hstep,
          h₁.step hsound₁ hk ha.2 hstep⟩
    exact fires_of_unqueued hsound hk hs happl hon.1

/-- An idle event and a timer. -/
def idleAndTimer (e : Nat) : Kind := if e = 0 then .idle else .timed

/-- A timer that is set again after it has been notified. -/
theorem timer_fires_once_again : ∃ l l' : Loop Nat,
    Run.Reach (Loop.step idleAndTimer) Run.anyStep start l ∧ l.firings 1 = [12] ∧
      l.step idleAndTimer (.call 1 (.timedSet 100)) = .ok l' ∧
      ∀ l'', Run.Reach (Loop.step idleAndTimer)
        (fun l a ↦ Untouched 1 l a ∧ OnTime 1 100 l a) l' l'' → Fires l' l'' 1 100 := by
  have hrun : Run.Checks (Loop.step idleAndTimer) Run.anyStep start
      [.call 1 (.timedSet 10), .poll 12 [], .notify 1]
      fun l ↦ l.firings 1 = [12] ∧ (l.sched.event 1).prioAppl = 0 := by decide +kernel
  obtain ⟨l, hl, hfirings, happl⟩ := hrun.reach
  obtain ⟨l', hs⟩ : ∃ l', l.step idleAndTimer (.call 1 (.timedSet 100)) = .ok l' := ⟨_, rfl⟩
  exact ⟨l, l', hl, hfirings, hs, (timer_fires_once hl rfl hs).1 happl⟩

/-- **A timer that is set again is too early.**  Both events are due in one poll.  The handler of
the idle one sets the timer again, for a time that is far away; and the timer is notified by that
poll, and again at that time. -/
theorem reset_timer_is_early : ∃ l l' l'' : Loop Nat,
    Run.Reach (Loop.step idleAndTimer) Run.anyStep start l ∧
      l.step idleAndTimer (.call 1 (.timedSet 100)) = .ok l' ∧ l'.firings 1 = [] ∧
      Run.Reach (Loop.step idleAndTimer) (Untouched 1) l' l'' ∧ l''.firings 1 = [10, 100] := by
  have hrun : Run.Checks (Loop.step idleAndTimer) Run.anyStep start
      [.call 1 (.timedSet 10), .call 0 .idleSet, .poll 10 [], .notify 0]
      fun l ↦ ∀ l', l.step idleAndTimer (.call 1 (.timedSet 100)) = .ok l' →
        l'.firings 1 = [] ∧ Run.Checks (Loop.step idleAndTimer) (Untouched 1) l'
          [.notify 1, .finish, .poll 100 [], .notify 1] fun l'' ↦ l''.firings 1 = [10, 100] := by
    decide +kernel
  obtain ⟨l, hl, hreset⟩ := hrun.reach
  obtain ⟨l', hl'⟩ : ∃ l', l.step idleAndTimer (.call 1 (.timedSet 100)) = .ok l' := ⟨_, rfl⟩
  obtain ⟨hnone, hlater⟩ := hreset l' hl'
  obtain ⟨l'', hl'', hfirings⟩ := hlater.reach
  exact ⟨l, l', l'', hl, hl', hnone, hl'', hfirings⟩

end Loop
end UdpTun
