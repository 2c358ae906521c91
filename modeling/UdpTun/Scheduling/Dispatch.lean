import UdpTun.Scheduling.Lifetimes
import Mathlib.Data.List.Perm.Subperm

/-!
# Dispatch

`Scheduler::poll`, with what the handlers do in the middle of it.  A `Loop` is a scheduler whose
events are all alive, and the poll that is under way, if any.  One step of it is a call of a member
function of an event, by a handler or by the rest of the program; or a part of a poll, which is to
collect what is due, to take the next event from the queue that is being drained and notify it, or
to return, when that queue is empty.  The set of pointers from which the next event is taken has
some order; here it can be any of them.

`Loop.dispatch` says that the containers agree with the fields of the events in every state that is
reached, that a poll drains the first queue that is not empty when it has collected, that it
notifies no event twice, so that it comes to an end, and that it leaves out no event of that queue,
unless a handler has to do with it.

* `Method.result` is what a call leaves of the event that it is made on; `Arena.step_op` ties it to
  the operations of the scheduler.
* `Loop.Sound` is the invariant, `Sound.step` its step lemma and `Sound.reach` the run lemma.
-/

set_option autoImplicit false

namespace UdpTun

open Scheduler (Kind)

variable {E : Type} [DecidableEq E]

/-! ## Member functions

What handlers call is said by class: the same word means another function for each.  What a call
leaves of the event is a function of the fields that it had. -/

/-- The member functions of events. -/
inductive Method
  | prio (p : Nat)
  | cancel
  | idleSet
  | timedSet (when' : TimePoint)
  | descrSet (fd : Nat) (events : Mask)
  | sigSet (signo : Nat)
  deriving DecidableEq

namespace Method

/-- The call of it, on an event of a class. -/
def op (e : E) (k : Kind) : Method → Arena.Op E
  | .prio p => .prio e p
  | .cancel =>
    match k with
    | .idle => .idleCancel e
    | .timed => .timedCancel e
    | .descriptor => .descrCancel e
    | .signal => .sigCancel e
  | .idleSet => .idleSet e
  | .timedSet when' => .timedSet e when'
  | .descrSet fd events => .descrSet e fd events
  | .sigSet signo => .sigSet e signo

/-- It is `set`. -/
def Sets : Method → Prop
  | .prio _ | .cancel => False
  | _ => True

/-- It is `cancel` or `set`, or it moves the event to another queue. -/
def Touches (v : EventState) : Method → Prop
  | .prio p => v.prioAppl ≠ 0 ∧ v.prioAppl ≠ p
  | _ => True

instance : DecidablePred Sets
  | .prio _ | .cancel => .isFalse id
  | .idleSet | .timedSet _ | .descrSet _ _ | .sigSet _ => .isTrue trivial

instance (v : EventState) : DecidablePred (Touches v)
  | .prio p => inferInstanceAs (Decidable (v.prioAppl ≠ 0 ∧ v.prioAppl ≠ p))
  | .cancel | .idleSet | .timedSet _ | .descrSet _ _ | .sigSet _ => .isTrue trivial

/-- What it leaves of an event of a class. -/
def result (k : Kind) (v : EventState) : Method → EventState
  | .prio p => { v with prioUsr := p, prioAppl := if v.prioAppl = 0 then 0 else p }
  | .cancel =>
    match k with
    | .idle => v.dequeued
    | .timed => { v.dequeued with isSet := false }
    | .descriptor => { v.dequeued with fd := none }
    | .signal => { v with signo := 0 }
  | .idleSet => v.dequeued
  | .timedSet when' => { v with when', isSet := true }
  | .descrSet fd events => (Scheduler.watching' v fd events).dequeued
  | .sigSet signo => { v with signo }

/-- No event is queued by a call. -/
theorem result_unqueued {k : Kind} {v : EventState} (h : v.prioAppl = 0) (m : Method) :
    (m.result k v).prioAppl = 0 := by
  cases m with
  | prio p => exact if_pos h
  | cancel => cases k <;> first | exact h | rfl
  | idleSet => rfl
  | timedSet when' => exact h
  | descrSet fd events => rfl
  | sigSet signo => exact h

/-- What a call does not touch stays in its queue. -/
theorem result_untouched {k : Kind} {v : EventState} {m : Method} (h : ¬ m.Touches v) :
    (m.result k v).prioAppl = v.prioAppl := by
  cases m with
  | prio p =>
    show (if v.prioAppl = 0 then 0 else p) = _
    by_cases hzero : v.prioAppl = 0
    · rw [if_pos hzero, hzero]
    · rw [if_neg hzero]
      by_contra hne
      exact h ⟨hzero, Ne.symm hne⟩
  | cancel => exact absurd trivial h
  | idleSet => exact absurd trivial h
  | timedSet when' => exact absurd trivial h
  | descrSet fd events => exact absurd trivial h
  | sigSet signo => exact absurd trivial h

end Method

/-- Who is idle after a call. -/
def Method.Idles (k : Kind) (was : Prop) : Method → Prop
  | .idleSet => True
  | .cancel => was ∧ k ≠ .idle
  | _ => was

/-- **What a call does**: it changes the event that it is made on. -/
theorem Arena.step_op {a b : Arena E} {e : E} {k : Kind} {m : Method} (hk : a.alive e = some k)
    (h : a.step (m.op e k) = .ok b) : b.alive = a.alive ∧
      b.sched.event = Function.update a.sched.event e (m.result k (a.sched.event e)) ∧
      (∀ i, i ≠ e → (i ∈ b.sched.idleness ↔ i ∈ a.sched.idleness)) ∧
      (e ∈ b.sched.idleness ↔ m.Idles k (e ∈ a.sched.idleness)) := by
  have heffect := Arena.effect h
  cases m with
  | prio p =>
    cases heffect with
    | prio _ hs =>
      have hidle := Scheduler.prio_idleness hs
      exact ⟨rfl, (Scheduler.prio_ok hs).2, fun i _ ↦ by rw [hidle], by rw [hidle]; rfl⟩
  | cancel =>
    cases k with
    | idle =>
      cases heffect
      refine ⟨rfl, Scheduler.idleCancel_event .., fun i hi ↦ ?_, ?_⟩
      · simp [Scheduler.idleCancel_idleness, hi]
      · simp [Scheduler.idleCancel_idleness, Method.Idles]
    | timed =>
      cases heffect
      exact ⟨rfl, Scheduler.timedCancel_event .., fun i _ ↦ by simp, by simp [Method.Idles]⟩
    | descriptor =>
      cases heffect with
      | descrCancel _ hs =>
        have hidle := Scheduler.descrCancel_idleness hs
        exact ⟨rfl, Scheduler.descrCancel_event hs, fun i _ ↦ by simp [hidle],
          by simp [hidle, Method.Idles]⟩
    | signal =>
      cases heffect
      exact ⟨rfl, Scheduler.sigCancel_event .., fun i _ ↦ by simp, by simp [Method.Idles]⟩
  | idleSet =>
    cases heffect
    refine ⟨rfl, Scheduler.idleSet_event .., fun i hi ↦ ?_, ?_⟩
    · simp [Scheduler.idleSet_idleness, hi]
    · simp [Scheduler.idleSet_idleness, Method.Idles]
  | timedSet when' =>
    cases heffect
    exact ⟨rfl, Scheduler.timedSet_event .., fun i _ ↦ by simp, by simp [Method.Idles]⟩
  | descrSet fd events =>
    cases heffect with
    | descrSet _ hs =>
      have hidle := Scheduler.descrSet_idleness hs
      exact ⟨rfl, Scheduler.descrSet_event hs, fun i _ ↦ by simp [hidle],
        by simp [hidle, Method.Idles]⟩
  | sigSet signo =>
    cases heffect
    exact ⟨rfl, Scheduler.sigSet_event .., fun i _ ↦ by simp, by simp [Method.Idles]⟩

/-! ## The queue that is drained

A poll drains the queue of the first priority that has one.  This is a minimum over the buckets that
are not empty. -/

namespace Scheduler

variable {s : Scheduler E}

/-- The events that are in some queue. -/
def queued (s : Scheduler E) : List E := s.queues.entries.flatMap Prod.snd

omit [DecidableEq E] in
theorem mem_bucket_queues (h : s.WF) {e : E} {p : Nat} :
    e ∈ s.queues.bucket p ↔ (s.event e).prioAppl = p ∧ p ≠ 0 := by
  refine (h.queues p e).trans ?_
  show EventState.queue (s.event e) = some p ↔ _
  rw [EventState.queue]
  by_cases hzero : (s.event e).prioAppl = 0
  · rw [if_pos hzero, hzero]
    exact ⟨fun h ↦ (by cases h), fun h ↦ absurd h.1.symm h.2⟩
  · rw [if_neg hzero, Option.some_inj]
    exact ⟨fun hp ↦ ⟨hp, hp ▸ hzero⟩, And.left⟩

omit [DecidableEq E] in
theorem mem_queued (h : s.WF) {e : E} : e ∈ s.queued ↔ (s.event e).prioAppl ≠ 0 := by
  have hmem : e ∈ s.queued ↔ ∃ p, e ∈ s.queues.bucket p := by
    simp [queued, OrdMap.mem_bucket, Prod.exists]
  rw [hmem]
  constructor
  · rintro ⟨p, hp⟩
    obtain ⟨rfl, hne⟩ := (mem_bucket_queues h).mp hp
    exact hne
  · exact fun hne ↦ ⟨_, (mem_bucket_queues h).mpr ⟨rfl, hne⟩⟩

omit [DecidableEq E] in
/-- **The first queue that is not empty.** -/
theorem lowest_some {p : Nat} (h : s.lowest = some p) :
    s.queues.bucket p ≠ [] ∧ ∀ q < p, s.queues.bucket q = [] := by
  obtain ⟨⟨p', l⟩, hfind, hp⟩ := Option.map_eq_some_iff.mp h
  obtain rfl : p' = p := hp
  obtain ⟨hne, as, bs, hentries, has⟩ := List.find?_eq_some_iff_append.mp hfind
  have hsorted := s.queues.sorted
  rw [hentries, List.pairwise_append] at hsorted
  obtain ⟨-, hcons, -⟩ := hsorted
  constructor
  · cases l with
    | nil => cases hne
    | cons e l =>
      have hmem : e ∈ s.queues.bucket p' :=
        OrdMap.mem_bucket.mpr ⟨e :: l, by simp [hentries], List.mem_cons_self ..⟩
      exact List.ne_nil_of_mem hmem
  · intro q hq
    refine List.eq_nil_iff_forall_not_mem.mpr fun e he ↦ ?_
    obtain ⟨l', hl', he'⟩ := OrdMap.mem_bucket.mp he
    rw [hentries, List.mem_append, List.mem_cons] at hl'
    rcases hl' with hl' | heq | hl'
    · have hempty := has _ hl'
      cases l' with
      | nil => cases he'
      | cons => cases hempty
    · cases heq
      omega
    · have hlt := List.rel_of_pairwise_cons hcons hl'
      dsimp only at hlt
      omega

omit [DecidableEq E] in
/-- No queue has anything in it. -/
theorem lowest_none (h : s.lowest = none) (p : Nat) : s.queues.bucket p = [] := by
  refine List.eq_nil_iff_forall_not_mem.mpr fun e he ↦ ?_
  obtain ⟨l, hl, he⟩ := OrdMap.mem_bucket.mp he
  have hempty := List.find?_eq_none.mp (Option.map_eq_none_iff.mp h) _ hl
  cases l with
  | nil => cases he
  | cons => exact hempty rfl

omit [DecidableEq E] in
/-- The first priority there is. -/
theorem lowest_eq_one (h : s.WF) {e : E} (he : (s.event e).prioAppl = 1) : s.lowest = some 1 := by
  have hmem : e ∈ s.queues.bucket 1 := (mem_bucket_queues h).mpr ⟨he, Nat.one_ne_zero⟩
  cases hlow : s.lowest with
  | none =>
    rw [lowest_none hlow 1] at hmem
    cases hmem
  | some p =>
    obtain ⟨hne, hfirst⟩ := lowest_some hlow
    obtain ⟨i, hi⟩ := List.exists_mem_of_ne_nil _ hne
    have hp := ((mem_bucket_queues h).mp hi).2
    have hle : ¬ 1 < p := fun hlt ↦ by
      rw [hfirst 1 hlt] at hmem
      cases hmem
    rw [show p = 1 by omega]

end Scheduler

/-! ## The loop

The handlers are not modelled.  Between two notifications anything may be called on any event, and
this includes all that they do. -/

/-- A poll that has collected, and is draining a queue. -/
structure Drain (E : Type) where
  now : TimePoint
  /-- The scheduler when all had been collected. -/
  collected : Scheduler E
  /-- The priority of the queue. -/
  prio : Nat
  /-- The events that have been notified, in order. -/
  notified : List E
  /-- The events that handlers have set, cancelled, or moved to another queue. -/
  touched : List E

/-- The scheduler, with events that are all alive. -/
structure Loop (E : Type) where
  sched : Scheduler E
  /-- The idle events that are to be notified: set, and since then neither cancelled nor
  collected. -/
  pending : E → Prop
  /-- The poll that is under way. -/
  poll : Option (Drain E)
  /-- What the clock has read, in each poll so far. -/
  polls : List TimePoint
  /-- Who has been notified so far, with what the clock read in that poll. -/
  log : List (E × TimePoint)

namespace Loop

/-- What the program does next. -/
inductive Act (E : Type)
  /-- A member function of an event is called. -/
  | call (e : E) (m : Method)
  /-- `poll` is called, and collects. -/
  | poll (now : TimePoint) (ready : List (Ready E))
  /-- `poll` takes an event from the queue and notifies it.  What the handler does is what
  follows. -/
  | notify (e : E)
  /-- `poll` returns, when the queue is empty. -/
  | finish

/-- The class of each event is given. -/
def arena (kind : E → Kind) (s : Scheduler E) : Arena E := ⟨s, fun e ↦ some (kind e)⟩

/-- No event has been set. -/
def start : Loop E := ⟨Scheduler.init, fun _ ↦ False, none, [], []⟩

/-- One step.  What is not possible does nothing. -/
def step (kind : E → Kind) (l : Loop E) : Act E → Except Halt (Loop E)
  | .call e m => ((arena kind l.sched).step (m.op e (kind e))).map fun a ↦
    { l with
      sched := a.sched
      pending := Function.update l.pending e (m.Idles (kind e) (l.pending e))
      poll := l.poll.map fun d ↦
        if m.Touches (l.sched.event e) then { d with touched := e :: d.touched } else d }
  | .poll now ready =>
    match l.poll with
    | some _ => .ok l
    | none => (l.sched.collect now ready).map fun s ↦
      { l with
        sched := s
        pending := fun _ ↦ False
        poll := s.lowest.map fun p ↦ ⟨now, s, p, [], []⟩
        polls := l.polls ++ [now] }
  | .notify e =>
    match l.poll with
    | none => .ok l
    | some d =>
      if e ∈ l.sched.queues.bucket d.prio then
        .ok { l with
          sched := l.sched.take d.prio e
          poll := some { d with notified := d.notified ++ [e] }
          log := l.log ++ [(e, d.now)] }
      else .ok l
  | .finish =>
    match l.poll with
    | none => .ok l
    | some d =>
      if (l.sched.queues.bucket d.prio).isEmpty then .ok { l with poll := none } else .ok l

/-- An event may be notified next. -/
def Next (l : Loop E) (e : E) : Prop := ∃ d ∈ l.poll, e ∈ l.sched.queues.bucket d.prio

/-! ### The invariant

Besides the agreement, it is about the poll under way: what it has notified is no longer queued,
unless it was moved, and the queue it drains is the first. -/

/-- The poll under way drains the first queue, and nothing is queued meanwhile. -/
structure Draining (s : Scheduler E) (d : Drain E) : Prop where
  wf : d.collected.WF
  lowest : d.collected.lowest = some d.prio
  nodup : d.notified.Nodup
  notified : ∀ e ∈ d.notified, (d.collected.event e).prioAppl ≠ 0 ∧ (s.event e).prioAppl = 0
  queued : ∀ e, (s.event e).prioAppl ≠ 0 → (d.collected.event e).prioAppl ≠ 0
  first : ∀ e, (d.collected.event e).prioAppl = d.prio →
    e ∈ d.notified ∨ e ∈ d.touched ∨ (s.event e).prioAppl = d.prio

/-- Containers and fields agree, and what is under way is in order. -/
structure Sound (kind : E → Kind) (l : Loop E) : Prop where
  arena : (arena kind l.sched).Sound
  pending : ∀ e, l.pending e ↔ e ∈ l.sched.idleness
  poll : ∀ d, l.poll = some d → Draining l.sched d

variable {kind : E → Kind} {l l' : Loop E} {e : E}

omit [DecidableEq E] in
theorem sound_start : (start : Loop E).Sound kind := by
  refine ⟨⟨Scheduler.wf_init, fun _ hdead ↦ (nomatch hdead), fun _ _ _ ↦ ?_, nofun⟩,
    fun e ↦ ⟨False.elim, nofun⟩, nofun⟩
  exact Arena.Fits.of_inert ⟨rfl, rfl, rfl, rfl⟩

omit [DecidableEq E] in
theorem Sound.wf (h : l.Sound kind) : l.sched.WF := h.arena.wf

omit [DecidableEq E] in
/-- No call destroys an event. -/
theorem finished_op (a : Arena E) (e : E) (k : Kind) (m : Method) : a.Finished (m.op e k) := by
  cases m with
  | cancel => cases k <;> trivial
  | _ => trivial

/-- What a call does to the loop. -/
theorem step_call {m : Method} (h : l.step kind (.call e m) = .ok l') :
    ((arena kind l.sched).Sound → (arena kind l'.sched).Sound) ∧
      l'.sched.event = Function.update l.sched.event e (m.result (kind e) (l.sched.event e)) ∧
      (∀ i, i ≠ e → (i ∈ l'.sched.idleness ↔ i ∈ l.sched.idleness)) ∧
      (e ∈ l'.sched.idleness ↔ m.Idles (kind e) (e ∈ l.sched.idleness)) ∧
      l'.pending = Function.update l.pending e (m.Idles (kind e) (l.pending e)) ∧
      l'.poll = (l.poll.map fun d ↦
        if m.Touches (l.sched.event e) then { d with touched := e :: d.touched } else d) ∧
      l'.polls = l.polls ∧ l'.log = l.log := by
  obtain ⟨a, ha, rfl⟩ := map_ok h
  obtain ⟨halive, hevent, hother, hidle⟩ := Arena.step_op rfl ha
  refine ⟨fun hsound ↦ ?_, hevent, hother, hidle, rfl, rfl, rfl, rfl⟩
  have hstep := hsound.step (finished_op _ e (kind e) m) ha
  obtain ⟨s, alive⟩ := a
  obtain rfl : alive = _ := halive
  exact hstep

/-- What the beginning of a poll does. -/
theorem step_poll {now : TimePoint} {ready : List (Ready E)} (hnone : l.poll = none)
    (h : l.step kind (.poll now ready) = .ok l') : ∃ s, l.sched.collect now ready = .ok s ∧
      l' = { l with
        sched := s
        pending := fun _ ↦ False
        poll := s.lowest.map fun p ↦ ⟨now, s, p, [], []⟩
        polls := l.polls ++ [now] } := by
  rw [step, hnone] at h
  obtain ⟨s, hs, rfl⟩ := map_ok h
  exact ⟨s, hs, rfl⟩

/-- Nothing happens, or the event is taken. -/
theorem step_notify (h : l.step kind (.notify e) = .ok l') : (l' = l ∧ ¬ l.Next e) ∨
    ∃ d, l.poll = some d ∧ e ∈ l.sched.queues.bucket d.prio ∧
      l' = { l with
        sched := l.sched.take d.prio e
        poll := some { d with notified := d.notified ++ [e] }
        log := l.log ++ [(e, d.now)] } := by
  rw [step] at h
  split at h
  · rename_i hnone
    cases h
    refine .inl ⟨rfl, ?_⟩
    rintro ⟨d, hd, -⟩
    cases hnone.symm.trans hd
  · rename_i d hd
    split at h
    · cases h
      exact .inr ⟨d, hd, ‹_›, rfl⟩
    · rename_i hnot
      cases h
      refine .inl ⟨rfl, ?_⟩
      rintro ⟨d', hd', hmem⟩
      cases hd.symm.trans hd'
      exact hnot hmem

/-- The event is taken if it may be next. -/
theorem step_next (kind : E → Kind) {d : Drain E} (hd : l.poll = some d)
    (he : e ∈ l.sched.queues.bucket d.prio) : l.step kind (.notify e) = .ok { l with
      sched := l.sched.take d.prio e
      poll := some { d with notified := d.notified ++ [e] }
      log := l.log ++ [(e, d.now)] } := by
  simp [step, hd, he]

/-- Nothing happens, or the poll is over. -/
theorem step_finish (h : l.step kind .finish = .ok l') : l' = l ∨
    ∃ d, l.poll = some d ∧ l.sched.queues.bucket d.prio = [] ∧ l' = { l with poll := none } := by
  rw [step] at h
  split at h
  · cases h
    exact .inl rfl
  · rename_i d hd
    split at h
    · cases h
      exact .inr ⟨d, hd, List.isEmpty_iff.mp ‹_›, rfl⟩
    · cases h
      exact .inl rfl

/-! ### Steps

For each thing that can happen the drain goes on as it should.  What is notified leaves the queue,
and what is called cannot put it back but by its priority. -/

omit [DecidableEq E] in
/-- A drain begins. -/
theorem draining_start {s : Scheduler E} (h : s.WF) {now : TimePoint} {p : Nat}
    (hp : s.lowest = some p) : Draining s ⟨now, s, p, [], []⟩ :=
  ⟨h, hp, List.nodup_nil, by simp, fun _ ↦ id, fun _ he ↦ .inr (.inr he)⟩

/-- A handler calls a member function. -/
theorem Draining.call {s s' : Scheduler E} {d : Drain E} (h : Draining s d) {k : Kind} {m : Method}
    (hevent : s'.event = Function.update s.event e (m.result k (s.event e))) :
    Draining s' (if m.Touches (s.event e) then { d with touched := e :: d.touched } else d) := by
  have hunqueued : ∀ i, (s.event i).prioAppl = 0 → (s'.event i).prioAppl = 0 := by
    intro i hi
    rw [hevent]
    by_cases hie : i = e
    · subst hie
      rw [Function.update_self]
      exact m.result_unqueued hi
    · rwa [Function.update_of_ne hie]
  have hnotified : ∀ i ∈ d.notified, (d.collected.event i).prioAppl ≠ 0 ∧
      (s'.event i).prioAppl = 0 := fun i hi ↦
    ⟨(h.notified i hi).1, hunqueued i (h.notified i hi).2⟩
  have hqueued : ∀ i, (s'.event i).prioAppl ≠ 0 → (d.collected.event i).prioAppl ≠ 0 :=
    fun i hi ↦ h.queued i (mt (hunqueued i) hi)
  split
  · refine ⟨h.wf, h.lowest, h.nodup, hnotified, hqueued, fun i hi ↦ ?_⟩
    by_cases hie : i = e
    · exact .inr (.inl (hie ▸ List.mem_cons_self ..))
    · rw [hevent, Function.update_of_ne hie]
      exact (h.first i hi).imp_right (Or.imp_left (List.mem_cons_of_mem e))
  · rename_i huntouched
    refine ⟨h.wf, h.lowest, h.nodup, hnotified, hqueued, fun i hi ↦ ?_⟩
    have hsame : (s'.event i).prioAppl = (s.event i).prioAppl := by
      rw [hevent]
      by_cases hie : i = e
      · subst hie
        rw [Function.update_self]
        exact Method.result_untouched huntouched
      · rw [Function.update_of_ne hie]
    rw [hsame]
    exact h.first i hi

/-- An event is taken from the queue. -/
theorem Draining.take {s : Scheduler E} {d : Drain E} (h : Draining s d) (hwf : s.WF)
    (he : e ∈ s.queues.bucket d.prio) :
    Draining (s.take d.prio e) { d with notified := d.notified ++ [e] } := by
  obtain ⟨happl, hne⟩ := (Scheduler.mem_bucket_queues hwf).mp he
  have hqueued : (s.event e).prioAppl ≠ 0 := by rwa [happl]
  have hself : ((s.take d.prio e).event e).prioAppl = 0 := by
    rw [Scheduler.take_event, Function.update_self]
    rfl
  have hother : ∀ i, i ≠ e → (s.take d.prio e).event i = s.event i := fun i hi ↦ by
    rw [Scheduler.take_event, Function.update_of_ne hi]
  have hnew : e ∉ d.notified := fun hmem ↦ hqueued (h.notified e hmem).2
  refine ⟨h.wf, h.lowest, ?_, fun i hi ↦ ?_, fun i hi ↦ ?_, fun i hi ↦ ?_⟩
  · exact List.nodup_append.mpr ⟨h.nodup, by simp, fun a ha b hb ↦ by
      rw [List.mem_singleton.mp hb]
      rintro rfl
      exact hnew ha⟩
  · rcases List.mem_append.mp hi with hi | hi
    · obtain ⟨hc, hs⟩ := h.notified i hi
      rw [hother i fun hie ↦ hnew (hie ▸ hi)]
      exact ⟨hc, hs⟩
    · obtain rfl := List.mem_singleton.mp hi
      exact ⟨h.queued i hqueued, hself⟩
  · by_cases hie : i = e
    · subst hie
      exact absurd hself hi
    · rw [hother i hie] at hi
      exact h.queued i hi
  · by_cases hie : i = e
    · subst hie
      exact .inl (by simp)
    · rw [hother i hie]
      exact (h.first i hi).imp_left (List.mem_append_left _)

/-- **The step lemma.** -/
theorem Sound.step (h : l.Sound kind) {a : Act E} (hs : l.step kind a = .ok l') :
    l'.Sound kind := by
  cases a with
  | call e m =>
    obtain ⟨harena, hevent, hother, hidle, hpending, hpoll, -⟩ := step_call hs
    refine ⟨harena h.arena, fun i ↦ ?_, fun d' hd' ↦ ?_⟩
    · rw [hpending]
      by_cases hie : i = e
      · subst hie
        rw [Function.update_self, hidle, propext (h.pending i)]
      · rw [Function.update_of_ne hie, hother i hie, h.pending i]
    · rw [hpoll] at hd'
      obtain ⟨d, hd, rfl⟩ := Option.map_eq_some_iff.mp hd'
      exact (h.poll d hd).call hevent
  | poll now ready =>
    cases hpoll : l.poll with
    | some d =>
      rw [Loop.step, hpoll] at hs
      cases hs
      exact h
    | none =>
      obtain ⟨s, hc, rfl⟩ := step_poll hpoll hs
      have harena := h.arena.collect hc
      obtain ⟨-, hidle⟩ := Scheduler.collect_spec h.wf hc
      refine ⟨harena, fun e ↦ ?_, fun d hd ↦ ?_⟩
      · rw [hidle]
        exact ⟨False.elim, nofun⟩
      · obtain ⟨p, hp, rfl⟩ := Option.map_eq_some_iff.mp hd
        exact draining_start harena.wf hp
  | notify e =>
    rcases step_notify hs with ⟨rfl, -⟩ | ⟨d, hd, hmem, rfl⟩
    · exact h
    · refine ⟨h.arena.take hmem, h.pending, fun d' hd' ↦ ?_⟩
      cases hd'
      exact (h.poll d hd).take h.wf hmem
  | finish =>
    rcases step_finish hs with rfl | ⟨d, -, -, rfl⟩
    · exact h
    · exact ⟨h.arena, h.pending, nofun⟩

/-- The run lemma. -/
theorem Sound.reach (h : l.Sound kind) {ok : Loop E → Act E → Prop}
    (hreach : Run.Reach (Loop.step kind) ok l l') : l'.Sound kind :=
  hreach.invariant h fun _ _ _ hl _ hs ↦ hl.step hs

/-- **Every state that is reached is sound.** -/
theorem sound_of_reach {ok : Loop E → Act E → Prop} (h : Run.Reach (step kind) ok start l) :
    l.Sound kind := sound_start.reach h

/-! ### Dispatch

What a user of the scheduler relies on.  The bound on the notifications of a poll is the length of
the queue it has found, so it ends. -/

/-- Nothing is called, by a handler or otherwise. -/
def LeftAlone (_ : Loop E) : Act E → Prop
  | .notify _ | .finish => True
  | .call _ _ | .poll _ _ => False

/-- **A poll comes to its end** if it is left alone: each turn leaves one event less in the
queue. -/
theorem drain_ends (kind : E → Kind) {d : Drain E} (hd : l.poll = some d) :
    ∃ l', Run.Reach (step kind) LeftAlone l l' ∧ l'.poll = none ∧ l'.polls = l.polls ∧
      l.log <+: l'.log ∧ ∀ e, (l'.sched.event e).dequeued = (l.sched.event e).dequeued := by
  induction hn : (l.sched.queues.bucket d.prio).length using Nat.strong_induction_on
    generalizing l d with
  | _ n ih =>
    cases hbucket : l.sched.queues.bucket d.prio with
    | nil =>
      have hs : l.step kind .finish = .ok { l with poll := none } := by
        simp [step, hd, hbucket]
      have hok : LeftAlone l .finish := trivial
      exact ⟨_, Run.Reach.refl.tail hok hs, rfl, rfl, List.prefix_rfl, fun _ ↦ rfl⟩
    | cons e rest =>
      have he : e ∈ l.sched.queues.bucket d.prio := by simp [hbucket]
      obtain ⟨l₁, hl₁, hs⟩ : ∃ l₁, l₁ = { l with
          sched := l.sched.take d.prio e
          poll := some { d with notified := d.notified ++ [e] }
          log := l.log ++ [(e, d.now)] } ∧ l.step kind (.notify e) = .ok l₁ :=
        ⟨_, rfl, step_next kind hd he⟩
      have hless : (l₁.sched.queues.bucket d.prio).length < n := by
        have hdrop : l₁.sched.queues.bucket d.prio =
            (l.sched.queues.bucket d.prio).filter (· ≠ e) := by
          rw [hl₁]
          exact OrdMap.bucket_drop ..
        rw [hdrop, ← hn]
        exact List.length_filter_lt_length_iff_exists.mpr ⟨e, he, by simp⟩
      obtain ⟨l', hreach, hpoll, hpolls, hlog, hevent⟩ :=
        ih _ hless (by rw [hl₁]) (d := { d with notified := d.notified ++ [e] }) rfl
      have hok : LeftAlone l (.notify e) := trivial
      refine ⟨l', (Run.Reach.refl.tail hok hs).trans hreach, hpoll, ?_, ?_, fun i ↦ ?_⟩
      · rw [hpolls, hl₁]
      · rw [hl₁] at hlog
        exact (List.prefix_append ..).trans hlog
      · rw [hevent i, hl₁]
        show EventState.dequeued (Scheduler.event (l.sched.take d.prio e) i) = _
        rw [Scheduler.take_event]
        by_cases hie : i = e
        · rw [hie, Function.update_self]
          rfl
        · rw [Function.update_of_ne hie]

/-- The priority of an event is changed, or a poll begins. -/
def Prompts (e : E) (_ : Loop E) : Act E → Prop
  | .call i (.prio _) => i = e
  | .poll _ _ => True
  | _ => False

/-- An event that is queued is moved to a queue. -/
theorem step_prio (kind : E → Kind) (he : (l.sched.event e).prioAppl ≠ 0) {p : Nat} (hp : p ≠ 0) :
    ∃ l', l.step kind (.call e (.prio p)) = .ok l' ∧ (l'.sched.event e).prioAppl = p ∧
      (l'.sched.event e).timer = (l.sched.event e).timer := by
  obtain ⟨s, hs⟩ : ∃ s, l.sched.prio e p = .ok s := by
    rw [Scheduler.prio, if_neg hp]
    exact ⟨_, rfl⟩
  have harena : (arena kind l.sched).step (.prio e p) = .ok (arena kind s) := by
    rw [Arena.step]
    show Arena.call (arena kind l.sched) e (kind e) (l.sched.prio e p) = _
    rw [Arena.call, hs]
    exact if_pos rfl
  obtain ⟨l', hstep⟩ : ∃ l', l.step kind (.call e (.prio p)) = .ok l' := by
    rw [step, Method.op, harena]
    exact ⟨_, rfl⟩
  obtain ⟨-, hevent, -⟩ := step_call hstep
  refine ⟨l', hstep, ?_, ?_⟩ <;> rw [hevent, Function.update_self]
  · exact if_neg he
  · rfl

/-- A poll that collects nothing but what is due. -/
theorem step_poll_nil (kind : E → Kind) (hnone : l.poll = none) (now : TimePoint) :
    ∃ l', l.step kind (.poll now []) = .ok l' ∧ l.sched.collect now [] = .ok l'.sched ∧
      l'.poll = (l'.sched.lowest.map fun p ↦ ⟨now, l'.sched, p, [], []⟩) ∧
      l'.polls = l.polls ++ [now] ∧ l'.log = l.log := by
  rw [step, hnone]
  exact ⟨_, rfl, rfl, rfl, rfl, rfl⟩

/-- What is queued may be next in the poll under way, when it is moved to the queue that is
drained. -/
theorem next_in_drain (h : l.Sound kind) (he : (l.sched.event e).prioAppl ≠ 0) {d₀ : Drain E}
    (hpoll : l.poll = some d₀) : ∃ l' d, Run.Reach (step kind) (Prompts e) l l' ∧
      l'.poll = some d ∧ e ∈ l'.sched.queues.bucket d.prio ∧ l'.log = l.log ∧
      d.now = d₀.now ∧ l'.polls = l.polls ∧
      (l'.sched.event e).timer = (l.sched.event e).timer := by
  have hprio : d₀.prio ≠ 0 := by
    have hdrain := h.poll d₀ hpoll
    obtain ⟨hne, -⟩ := Scheduler.lowest_some hdrain.lowest
    obtain ⟨i, hi⟩ := List.exists_mem_of_ne_nil _ hne
    exact ((Scheduler.mem_bucket_queues hdrain.wf).mp hi).2
  obtain ⟨l₁, hs, happl, htimer⟩ := step_prio kind he hprio
  obtain ⟨-, -, -, -, -, hpoll₁, hpolls, hlog⟩ := step_call hs
  obtain ⟨d, hd, hnow, hsame⟩ : ∃ d, l₁.poll = some d ∧ d.now = d₀.now ∧ d.prio = d₀.prio := by
    rw [hpoll₁, hpoll, Option.map_some]
    split <;> exact ⟨_, rfl, rfl, rfl⟩
  have hok : Prompts e l (.call e (.prio d₀.prio)) := rfl
  refine ⟨l₁, d, Run.Reach.refl.tail hok hs, hd, ?_, hlog, hnow, hpolls, htimer⟩
  rw [hsame]
  exact (Scheduler.mem_bucket_queues (h.step hs).wf).mpr ⟨happl, hprio⟩

/-- What is queued may be next in a new poll, when it is moved to the first queue. -/
theorem next_in_poll (h : l.Sound kind) (he : (l.sched.event e).prioAppl ≠ 0)
    (hpoll : l.poll = none) (now : TimePoint) : ∃ l' d, Run.Reach (step kind) (Prompts e) l l' ∧
      l'.poll = some d ∧ e ∈ l'.sched.queues.bucket d.prio ∧ l'.log = l.log ∧
      d.now = now ∧ l'.polls = l.polls ++ [now] := by
  obtain ⟨l₁, hs, happl, -⟩ := step_prio kind he Nat.one_ne_zero
  obtain ⟨-, -, -, -, -, hpoll₁, hpolls, hlog⟩ := step_call hs
  have hnone : l₁.poll = none := by rw [hpoll₁, hpoll]; rfl
  obtain ⟨l₂, hs₂, hc, hpoll₂, hpolls₂, hlog₂⟩ := step_poll_nil kind hnone now
  have hsound₁ := h.step hs
  have hwf := (hsound₁.step hs₂).wf
  have hqueued : (l₁.sched.event e).prioAppl ≠ 0 := by
    rw [happl]
    exact Nat.one_ne_zero
  have happl₂ : (l₂.sched.event e).prioAppl = 1 := by
    obtain ⟨hstage, -⟩ := Scheduler.collect_spec hsound₁.wf hc
    exact ((hstage.moves e).stays hqueued).trans happl
  have hok₁ : Prompts e l (.call e (.prio 1)) := rfl
  have hok₂ : Prompts e l₁ (.poll now []) := trivial
  rw [Scheduler.lowest_eq_one hwf happl₂, Option.map_some] at hpoll₂
  exact ⟨l₂, _, (Run.Reach.refl.tail hok₁ hs).tail hok₂ hs₂, hpoll₂,
    (Scheduler.mem_bucket_queues hwf).mpr ⟨happl₂, Nat.one_ne_zero⟩, hlog₂.trans hlog, rfl,
    by rw [hpolls₂, hpolls]⟩

/-- **Dispatch.**  In any state that is reached, an event is in the queue of its applied priority
and in no other, an idle event is in `idleness` if it is pending, and a timed event is in the table
if it is set, where it says, and nowhere else.  If a poll is under way, the queue it drains was the
first that was not empty; it has notified no event twice, and no more of them than there were; what
it may notify next has that priority, and has not been notified; the events of that queue have been
notified, or are in it still, unless a handler has cancelled, set or moved them; and when no handler
does anything more, the poll ends. -/
theorem dispatch (h : Run.Reach (step kind) Run.anyStep start l) :
    (∀ e p, e ∈ l.sched.queues.bucket p ↔ (l.sched.event e).prioAppl = p ∧ p ≠ 0) ∧
      (∀ e, e ∈ l.sched.idleness ↔ l.pending e) ∧
      (∀ e t, e ∈ l.sched.table.bucket t ↔
        (l.sched.event e).isSet = true ∧ (l.sched.event e).when' = t) ∧
      ∀ d, l.poll = some d →
        (d.collected.queues.bucket d.prio ≠ [] ∧
          ∀ q < d.prio, d.collected.queues.bucket q = []) ∧
        (d.notified.Nodup ∧ d.notified.length ≤ d.collected.queued.length) ∧
        (∀ e, l.Next e → (l.sched.event e).prioAppl = d.prio ∧ e ∉ d.notified) ∧
        (∀ e ∈ d.collected.queues.bucket d.prio,
          e ∈ d.notified ∨ e ∈ d.touched ∨ e ∈ l.sched.queues.bucket d.prio) ∧
        ∃ l', Run.Reach (step kind) LeftAlone l l' ∧ l'.poll = none := by
  obtain ⟨harena, hpending, hpoll⟩ := sound_of_reach h
  have hwf := harena.wf
  refine ⟨fun e p ↦ Scheduler.mem_bucket_queues hwf, fun e ↦ (hpending e).symm, fun e t ↦ ?_,
    fun d hd ↦ ?_⟩
  · refine (hwf.table t e).trans ?_
    show EventState.timer (l.sched.event e) = some t ↔ _
    rw [EventState.timer]
    split <;> simp [*]
  · have hdrain := hpoll d hd
    refine ⟨Scheduler.lowest_some hdrain.lowest, ⟨hdrain.nodup, ?_⟩, fun e he ↦ ?_,
      fun e he ↦ ?_, ?_⟩
    · refine (List.subperm_of_subset hdrain.nodup fun e he ↦ ?_).length_le
      exact (Scheduler.mem_queued hdrain.wf).mpr (hdrain.notified e he).1
    · obtain ⟨d', hd', hmem⟩ := he
      cases hd.symm.trans hd'
      obtain ⟨happl, hne⟩ := (Scheduler.mem_bucket_queues hwf).mp hmem
      exact ⟨happl, fun hnotified ↦ hne (happl.symm.trans (hdrain.notified e hnotified).2)⟩
    · obtain ⟨happl, hne⟩ := (Scheduler.mem_bucket_queues hdrain.wf).mp he
      exact (hdrain.first e happl).imp_right (Or.imp_right fun hstill ↦
        (Scheduler.mem_bucket_queues hwf).mpr ⟨hstill, hne⟩)
    · obtain ⟨l', hreach, hnone, -⟩ := drain_ends kind hd
      exact ⟨l', hreach, hnone⟩

/-- Three idle events, of which the first, when notified, moves the second to another queue. -/
theorem dispatch_three : ∃ l : Loop Nat, Run.Reach (step fun _ ↦ .idle) Run.anyStep start l ∧
    ∃ d, l.poll = some d ∧ d.notified = [0] ∧ d.touched = [1] ∧
      l.sched.queues.bucket d.prio = [2] ∧
      (∀ q < d.prio, d.collected.queues.bucket q = []) ∧
      (∀ e, l.Next e → (l.sched.event e).prioAppl = d.prio ∧ e ∉ d.notified) ∧
      ∀ e ∈ d.collected.queues.bucket d.prio,
        e ∈ d.notified ∨ e ∈ d.touched ∨ e ∈ l.sched.queues.bucket d.prio := by
  have hrun : Run.Checks (step fun _ : Nat ↦ Kind.idle) Run.anyStep start
      [.call 0 .idleSet, .call 1 .idleSet, .call 2 .idleSet, .poll 5 [], .notify 0,
        .call 1 (.prio 3)] fun l ↦ ∃ d ∈ l.poll, d.notified = [0] ∧ d.touched = [1] ∧
          l.sched.queues.bucket d.prio = [2] := by decide +kernel
  obtain ⟨l, hl, d, hd, hnotified, htouched, hbucket⟩ := hrun.reach
  obtain ⟨-, -, -, hdispatch⟩ := dispatch hl
  obtain ⟨⟨-, hfirst⟩, -, hnext, hall, -⟩ := hdispatch d hd
  exact ⟨l, hl, d, hd, hnotified, htouched, hbucket, hfirst, hnext, hall⟩

end Loop

end UdpTun
