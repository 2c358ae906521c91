import UdpTun.Scheduling.Lifetimes

/-!
# The timeout of a poll

`Scheduler::poll` asks `Scheduler::timeout` how long `epoll_pwait` may sleep.  A timer that is
cancelled leaves its slot of the table behind, empty, and slots that are empty are only removed
here and by a later poll.  So the first entry of the table need not be that of a timer, and
`timeout` first removes the empty ones at the front.  But it has checked before that, and does not
check again, that the table has an entry at all.

`Tells` is what the value is for, and `Answers` is that there is one.  `Arena.answers_iff` says in
which states reached there is: in all but those in which nothing is queued, idle or timed, and yet
the table has slots.  `Arena.pollStep` is the step of those runs, in which a poll does what it does
before and after the wait, or is interrupted and only does the former.
-/

set_option autoImplicit false

namespace UdpTun

open Scheduler (Kind)

variable {E : Type} [DecidableEq E]

namespace Scheduler

/-! ## The function

The slots at the front that are empty are removed on the way, so the scheduler is part of the
result. -/

/-- `INT_MAX`. -/
def intMax : Int := 2147483647

/-- `std::chrono::milliseconds`, of one. -/
def millisecond : Int := 1000000

/-- The end of `Scheduler::timeout`: the time from `now` to `first`, in milliseconds, and within
what can be waited for. -/
def delay (first now : TimePoint) : Int :=
  let delay := (first - now).tdiv millisecond
  if delay < 0 then 0
  else if delay > intMax then intMax
  else delay

/-- `Scheduler::timeout`, with the scheduler that it leaves. -/
def timeout (s : Scheduler E) (now : TimePoint) : Except Halt (Int × Scheduler E) :=
  if s.queues.entries.any fun p ↦ !p.2.isEmpty then .ok (0, s)
  else if !s.idleness.isEmpty then .ok (0, s)
  else if s.table.entries.isEmpty then .ok (-1, s)
  else
    let s := { s with table := s.table.dropEmpty }
    match s.table.first? with
    | none => .error .undefined
    | some (first, _) => .ok (delay first now, s)

/-! ## What it is for

Stated in terms of what is queued, idle and timed, without the table.  The function is compared with
this. -/

/-- Something waits to be notified. -/
def Queued (s : Scheduler E) : Prop := ∃ e, (s.event e).prioAppl ≠ 0

/-- A timer is set. -/
def Timed (s : Scheduler E) : Prop := ∃ e, (s.event e).isSet

/-- The first time that a timer is set for. -/
def Earliest (s : Scheduler E) (t : TimePoint) : Prop :=
  (∃ e, (s.event e).timer = some t) ∧ ∀ e t', (s.event e).timer = some t' → t ≤ t'

/-- **What the timeout tells**: whether to wait at all, or for ever, or for how long. -/
structure Tells (s : Scheduler E) (now : TimePoint) (r : Int) : Prop where
  busy : s.Queued ∨ s.idleness ≠ [] → r = 0
  forever : r = -1 ↔ ¬ s.Queued ∧ s.idleness = [] ∧ ¬ s.Timed
  range : ∀ t, s.Earliest t → 0 ≤ r ∧ r ≤ intMax
  due : ∀ t, s.Earliest t → t ≤ now → r = 0
  early : ∀ t, s.Earliest t → now < t → r * millisecond ≤ t - now

/-- There is a timeout, and it tells what it should. -/
def Answers (s : Scheduler E) (now : TimePoint) : Prop :=
  ∃ r s', s.timeout now = .ok (r, s') ∧ s.Tells now r

/-! ## What it computes

The ways through the function are told apart first.  The arithmetic of rounding up to milliseconds
is in lemmas about `delay` alone. -/

theorem delay_range (first now : Int) : 0 ≤ delay first now ∧ delay first now ≤ intMax := by
  rw [delay, intMax]
  split
  · omega
  · split <;> omega

theorem delay_due {first now : Int} (h : first ≤ now) : delay first now = 0 := by
  have hneg : (first - now).tdiv millisecond ≤ 0 := by
    have hpos : 0 ≤ (now - first).tdiv millisecond :=
      Int.tdiv_nonneg (by omega) (by rw [millisecond]; omega)
    rw [← Int.neg_sub, Int.neg_tdiv]
    omega
  rw [delay, intMax]
  split
  · rfl
  · split <;> omega

theorem delay_early {first now : Int} (h : now < first) :
    delay first now * millisecond ≤ first - now := by
  have hdiv : (first - now).tdiv millisecond = (first - now) / millisecond :=
    Int.tdiv_eq_ediv_of_nonneg (by omega)
  rw [delay, hdiv, millisecond, intMax]
  split
  · omega
  · split <;> omega

omit [DecidableEq E] in
/-- The queues have what is queued. -/
theorem WF.queued_iff {s : Scheduler E} (h : s.WF) :
    (s.queues.entries.any fun p ↦ !p.2.isEmpty) ↔ s.Queued := by
  rw [List.any_eq_true, Queued]
  constructor
  · rintro ⟨⟨p, l⟩, hp, hl⟩
    rw [Bool.not_eq_true', List.isEmpty_eq_false_iff] at hl
    obtain ⟨e, he⟩ := List.exists_mem_of_ne_nil l hl
    have hqueue : (s.event e).queue = some p :=
      (h.queues p e).mp (OrdMap.mem_bucket.mpr ⟨l, hp, he⟩)
    refine ⟨e, fun hzero ↦ ?_⟩
    rw [EventState.queue, if_pos hzero] at hqueue
    cases hqueue
  · rintro ⟨e, he⟩
    obtain ⟨l, hl, hmem⟩ := OrdMap.mem_bucket.mp ((h.queues _ e).mpr (if_neg he))
    refine ⟨_, hl, ?_⟩
    rw [Bool.not_eq_true', List.isEmpty_eq_false_iff]
    exact List.ne_nil_of_mem hmem

omit [DecidableEq E] in
theorem timed_iff {s : Scheduler E} : s.Timed ↔ ∃ e t, (s.event e).timer = some t := by
  refine exists_congr fun e ↦ ?_
  rw [EventState.timer]
  split
  · simp_all
  · simp_all

omit [DecidableEq E] in
/-- **The ways through the function.** -/
theorem WF.timeout_cases {s : Scheduler E} (h : s.WF) (now : TimePoint) :
    ((s.Queued ∨ s.idleness ≠ []) ∧ s.timeout now = .ok (0, s)) ∨
    (¬ (s.Queued ∨ s.idleness ≠ []) ∧
      ((s.table.entries = [] ∧ ¬ s.Timed ∧ s.timeout now = .ok (-1, s)) ∨
      (s.table.entries ≠ [] ∧ ¬ s.Timed ∧ s.timeout now = .error .undefined) ∨
      ∃ first, s.Earliest first ∧
        s.timeout now = .ok (delay first now, { s with table := s.table.dropEmpty }))) := by
  have htimed : s.Timed ↔ ∃ e t, e ∈ s.table.bucket t := by
    rw [timed_iff]
    exact exists₂_congr fun e t ↦ (h.table t e).symm
  rw [timeout]
  by_cases hq : s.Queued
  · exact .inl ⟨.inl hq, if_pos (h.queued_iff.mpr hq)⟩
  rw [if_neg (fun hany ↦ hq (h.queued_iff.mp hany))]
  by_cases hidle : s.idleness = []
  · refine .inr ⟨not_or.mpr ⟨hq, not_not.mpr hidle⟩, ?_⟩
    rw [hidle, if_neg (by simp)]
    by_cases hempty : s.table.entries = []
    · refine .inl ⟨hempty, fun ht ↦ ?_, if_pos (List.isEmpty_iff.mpr hempty)⟩
      obtain ⟨e, t, he⟩ := htimed.mp ht
      obtain ⟨l, hl, -⟩ := OrdMap.mem_bucket.mp he
      rw [hempty] at hl
      cases hl
    · rw [if_neg (fun hnil ↦ hempty (List.isEmpty_iff.mp hnil))]
      dsimp only
      cases hfirst : s.table.dropEmpty.first? with
      | none =>
        refine .inr (.inl ⟨hempty, fun ht ↦ ?_, rfl⟩)
        obtain ⟨e, t, he⟩ := htimed.mp ht
        exact OrdMap.first?_dropEmpty_none hfirst t e he
      | some p =>
        obtain ⟨⟨e, he⟩, hle⟩ := OrdMap.first?_dropEmpty hfirst
        exact .inr (.inr ⟨p.1, ⟨⟨e, (h.table p.1 e).mp he⟩,
          fun e' t' ht' ↦ hle t' e' ((h.table t' e').mpr ht')⟩, rfl⟩)
  · exact .inl ⟨.inr hidle, if_pos (by simpa using hidle)⟩

omit [DecidableEq E] in
/-- What is removed is not missed. -/
theorem WF.timeout {s s' : Scheduler E} (h : s.WF) {now : TimePoint} {r : Int}
    (hs : s.timeout now = .ok (r, s')) :
    s'.WF ∧ s'.event = s.event ∧ s'.idleness = s.idleness := by
  rcases h.timeout_cases now with ⟨-, heq⟩ | ⟨-, ⟨-, -, heq⟩ | ⟨-, -, heq⟩ | ⟨first, -, heq⟩⟩
  · cases heq.symm.trans hs
    exact ⟨h, rfl, rfl⟩
  · cases heq.symm.trans hs
    exact ⟨h, rfl, rfl⟩
  · cases heq.symm.trans hs
  · cases heq.symm.trans hs
    exact ⟨⟨h.usr, h.queues, h.table.dropEmpty, h.handlers, h.epoll⟩, rfl, rfl⟩

omit [DecidableEq E] in
theorem Earliest.timed {s : Scheduler E} {t : TimePoint} (h : s.Earliest t) : s.Timed := by
  obtain ⟨⟨e, he⟩, -⟩ := h
  exact timed_iff.mpr ⟨e, t, he⟩

omit [DecidableEq E] in
theorem Earliest.unique {s : Scheduler E} {t t' : TimePoint} (h : s.Earliest t)
    (h' : s.Earliest t') : t = t' := by
  obtain ⟨⟨e, he⟩, hle⟩ := h
  obtain ⟨⟨e', he'⟩, hle'⟩ := h'
  exact le_antisymm (hle e' t' he') (hle' e t he)

omit [DecidableEq E] in
theorem tells_busy {s : Scheduler E} (h : s.Queued ∨ s.idleness ≠ []) (now : TimePoint) :
    s.Tells now 0 := by
  refine ⟨fun _ ↦ rfl, ⟨nofun, fun ⟨hq, hidle, _⟩ ↦ ?_⟩, fun _ _ ↦ ⟨le_rfl, ?_⟩,
    fun _ _ _ ↦ rfl, fun t _ hlt ↦ ?_⟩
  · exact absurd h (not_or.mpr ⟨hq, not_not.mpr hidle⟩)
  · rw [intMax]
    omega
  · rw [Int.zero_mul]
    exact Int.sub_nonneg_of_le hlt.le

omit [DecidableEq E] in
theorem tells_forever {s : Scheduler E} (h : ¬ (s.Queued ∨ s.idleness ≠ [])) (ht : ¬ s.Timed)
    (now : TimePoint) : s.Tells now (-1) := by
  obtain ⟨hq, hidle⟩ := not_or.mp h
  exact ⟨fun hbusy ↦ absurd hbusy h, ⟨fun _ ↦ ⟨hq, not_not.mp hidle, ht⟩, fun _ ↦ rfl⟩,
    fun _ hfirst ↦ absurd hfirst.timed ht, fun _ hfirst ↦ absurd hfirst.timed ht,
    fun _ hfirst ↦ absurd hfirst.timed ht⟩

omit [DecidableEq E] in
theorem tells_delay {s : Scheduler E} {first : TimePoint} (h : ¬ (s.Queued ∨ s.idleness ≠ []))
    (hfirst : s.Earliest first) (now : TimePoint) : s.Tells now (delay first now) := by
  have hrange := delay_range first now
  refine ⟨fun hbusy ↦ absurd hbusy h, ⟨fun hneg ↦ ?_, fun hnone ↦ absurd hfirst.timed hnone.2.2⟩,
    fun _ _ ↦ hrange, fun t ht hdue ↦ ?_, fun t ht hlt ↦ ?_⟩
  · omega
  · rw [← hfirst.unique ht] at hdue
    exact delay_due hdue
  · rw [← hfirst.unique ht] at hlt ⊢
    exact delay_early hlt

omit [DecidableEq E] in
/-- There is an answer unless the table has slots and no timers. -/
theorem WF.answers {s : Scheduler E} (h : s.WF) (now : TimePoint) : s.Answers now ↔
    s.Queued ∨ s.idleness ≠ [] ∨ s.Timed ∨ s.table.entries = [] := by
  rcases h.timeout_cases now with ⟨hbusy, heq⟩ | ⟨hbusy, ⟨hempty, ht, heq⟩ | ⟨hslots, ht, heq⟩ |
    ⟨first, hfirst, heq⟩⟩
  · exact iff_of_true ⟨_, _, heq, tells_busy hbusy now⟩ (hbusy.imp_right .inl)
  · exact iff_of_true ⟨_, _, heq, tells_forever hbusy ht now⟩ (.inr (.inr (.inr hempty)))
  · refine iff_of_false ?_ ?_
    · rintro ⟨r, s', hok, -⟩
      cases heq.symm.trans hok
    · rintro (hq | hidle | htimed | hempty)
      · exact hbusy (.inl hq)
      · exact hbusy (.inr hidle)
      · exact ht htimed
      · exact hslots hempty
  · exact iff_of_true ⟨_, _, heq, tells_delay hbusy hfirst now⟩ (.inr (.inr (.inl hfirst.timed)))

end Scheduler

/-! ## Runs

The poll of these runs is a whole one, with its timeout, so that the slots that it removes are
removed in every run. -/

namespace Arena

/-- What happens to the scheduler, with the whole of a poll up to the first notification. -/
inductive Act (E : Type)
  | call (op : Op E)
  /-- The clock is read `before` the wait, and after it, which ends with what is `ready`. -/
  | poll (before now : TimePoint) (ready : List (Ready E))
  /-- A signal handler runs during the wait, and the poll returns. -/
  | interrupted (before : TimePoint)

def pollStep (a : Arena E) : Act E → Except Halt (Arena E)
  | .call op => a.step op
  | .poll before now ready =>
    match a.sched.timeout before with
    | .error x => .error x
    | .ok (_, s) => step { a with sched := s } (.collect now ready)
  | .interrupted before => (a.sched.timeout before).map fun r ↦ { a with sched := r.2 }

/-- Events are collected by whole polls only, and are destroyed only when finished. -/
def Orderly (a : Arena E) : Act E → Prop
  | .call (.collect ..) => False
  | .call op => a.Finished op
  | _ => True

variable {a b : Arena E}

omit [DecidableEq E] in
theorem Orderly.finished {op : Op E} (h : a.Orderly (.call op)) : a.Finished op := by
  cases op with
  | collect => exact trivial
  | _ => exact h

omit [DecidableEq E] in
/-- What `timeout` does to the table does not matter to the events. -/
theorem Sound.timeout (h : a.Sound) {now : TimePoint} {r : Int} {s : Scheduler E}
    (hs : a.sched.timeout now = .ok (r, s)) : Sound { a with sched := s } := by
  obtain ⟨hwf, hevent, hidle⟩ := h.wf.timeout hs
  refine ⟨hwf, fun e hdead ↦ ?_, fun e k hk ↦ ?_, fun e he ↦ ?_⟩
  · dsimp only
    rw [hevent]
    exact h.dead e hdead
  · dsimp only
    rw [hevent]
    exact h.fits e k hk
  · dsimp only at he
    rw [hidle] at he
    exact h.idle e he

theorem Sound.pollStep (h : a.Sound) {act : Act E} (hact : a.Orderly act)
    (hb : a.pollStep act = .ok b) : b.Sound := by
  cases act with
  | call op => exact h.step hact.finished hb
  | poll before now ready =>
    rw [Arena.pollStep] at hb
    split at hb
    · cases hb
    · rename_i r s hs
      have hfinished : Arena.Finished { a with sched := s } (.collect now ready) := trivial
      exact (h.timeout hs).step hfinished hb
  | interrupted before =>
    obtain ⟨⟨r, s⟩, hs, rfl⟩ := map_ok hb
    exact h.timeout hs

/-- **When a poll has a timeout**: in any state reached and at any time, unless nothing is queued,
idle or timed, and there are slots in the table that cancelled timers have left. -/
theorem answers_iff (h : Run.Reach pollStep Orderly init a) (now : TimePoint) :
    a.sched.Answers now ↔
      a.sched.Queued ∨ a.sched.idleness ≠ [] ∨ a.sched.Timed ∨ a.sched.table.entries = [] := by
  have hsound : a.Sound := h.invariant sound_init fun _ _ _ ht hop hstep ↦ ht.pollStep hop hstep
  exact hsound.wf.answers now

/-- One timer is cancelled, and a later one is not. -/
theorem answers_iff_two : ∃ a : Arena Nat,
    Run.Reach pollStep Orderly init a ∧ a.sched.table.size = 2 ∧ a.sched.Answers 7 := by
  obtain ⟨a, ha, hsize, hset⟩ : ∃ a : Arena Nat, Run.exec pollStep init
      [.call (.construct 0 .timed), .call (.construct 1 .timed), .call (.timedSet 0 33),
        .call (.timedSet 1 44), .call (.timedCancel 0)] = .ok a ∧
      a.sched.table.size = 2 ∧ (a.sched.event 1).isSet := ⟨_, rfl, by decide, by decide⟩
  have hreach : Run.Reach pollStep Orderly init a := Run.reach_of_exec ha <|
    Run.along_cons rfl trivial <| Run.along_cons rfl trivial <| Run.along_cons rfl trivial <|
    Run.along_cons rfl trivial <| Run.along_cons rfl trivial trivial
  exact ⟨a, hreach, hsize, (answers_iff hreach 7).mpr (.inr (.inr (.inl ⟨1, hset⟩)))⟩

/-- The only timer is cancelled, and the next poll reads the first entry of a table without any. -/
theorem cancelled_timer_is_not_answered : ¬ ∀ a : Arena Nat, Run.Reach pollStep Orderly init a →
    ∀ now, a.sched.Answers now := by
  intro hall
  obtain ⟨a, ha, hundefined⟩ : ∃ a : Arena Nat, Run.exec pollStep init
      [.call (.construct 0 .timed), .call (.timedSet 0 33), .call (.timedCancel 0)] = .ok a ∧
      failure (a.sched.timeout 7) = some .undefined := ⟨_, rfl, by decide⟩
  have hreach : Run.Reach pollStep Orderly init a := Run.reach_of_exec ha <|
    Run.along_cons rfl trivial <| Run.along_cons rfl trivial <| Run.along_cons rfl trivial trivial
  obtain ⟨r, s, hok, -⟩ := hall a hreach 7
  cases (failure_eq.mp hundefined).symm.trans hok

end Arena
end UdpTun
