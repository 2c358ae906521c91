import UdpTun.Scheduling

/-!
# Registration

What each operation of the scheduler does to the events, field by field, and that it leaves the
fields and the containers in agreement.

An operation on an event changes the fields of that event only, as the lemmas `…_event` say, and
leaves `idleness` alone unless it is one of `IdleEvent`, as `…_idleness` say.  `WF` is the agreement
of fields and containers, and every operation keeps it.  `Stage` is what a poll can do to the events
while it collects them: they stay as they were, or are queued.

## What is here

* Two lemmas for each operation: `…_event`, with the fields that it changes as a function on
  `EventState`, and `…_idleness`.
* `WF` and its half `Half`, with a lemma `WF.…` for each operation.  Those of descriptor events are
  the hard ones, since what the kernel watches is replaced and not just added to.
* `Changes`, which is all of this in one statement, for the operations that other modules use most.
* `collect_spec`, `collect_queued` and `collect_event`, which say what a poll collects: from
  `Stage`, which is put together from the parts of the poll by transitivity.
-/

set_option autoImplicit false

namespace UdpTun

namespace EventState

/-- The queue an event is in. -/
def queue (v : EventState) : Option Nat := if v.prioAppl = 0 then none else some v.prioAppl

/-- The time a timed event is set for. -/
def timer (v : EventState) : Option TimePoint := if v.isSet then some v.when' else none

/-- The signal a signal event is set for. -/
def signal (v : EventState) : Option Nat := if v.signo = 0 then none else some v.signo

/-- What enqueuing does to an event. -/
def enqueued (v : EventState) : EventState :=
  if v.prioAppl ≠ 0 then v else { v with prioAppl := v.prioUsr }

/-- What dequeuing does to an event. -/
def dequeued (v : EventState) : EventState := { v with prioAppl := 0 }

section enqueued

variable (v : EventState)

/-- What does not look at the queue is left alone. -/
theorem enqueued_field {α : Type} (F : EventState → α)
    (hF : F { v with prioAppl := v.prioUsr } = F v) : F v.enqueued = F v := by
  rw [enqueued]
  split
  · rfl
  · exact hF

@[simp] theorem enqueued_prioUsr : v.enqueued.prioUsr = v.prioUsr := enqueued_field v _ rfl

@[simp] theorem enqueued_when : v.enqueued.when' = v.when' := enqueued_field v _ rfl

@[simp] theorem enqueued_isSet : v.enqueued.isSet = v.isSet := enqueued_field v _ rfl

@[simp] theorem enqueued_fd : v.enqueued.fd = v.fd := enqueued_field v _ rfl

@[simp] theorem enqueued_got : v.enqueued.got = v.got := enqueued_field v _ rfl

@[simp] theorem enqueued_expected : v.enqueued.expected = v.expected := enqueued_field v _ rfl

@[simp] theorem enqueued_signo : v.enqueued.signo = v.signo := enqueued_field v _ rfl

@[simp] theorem enqueued_timer : v.enqueued.timer = v.timer := enqueued_field v _ rfl

@[simp] theorem enqueued_signal : v.enqueued.signal = v.signal := enqueued_field v _ rfl

end enqueued

end EventState

namespace Scheduler

variable {E : Type} [DecidableEq E] {s s' : Scheduler E} {e e' : E}

/-! ## What operations do to events

Each lemma here has the whole function from events to fields after an operation, so that a caller
need not look into it again.  Only the event that is called on has changed. -/

theorem modify_event (s : Scheduler E) (e : E) (f : EventState → EventState) :
    (s.modify e f).event = Function.update s.event e (f (s.event e)) := rfl

theorem enqueue_event (s : Scheduler E) (e : E) :
    (s.enqueue e).event = Function.update s.event e (s.event e).enqueued := by
  rw [enqueue, EventState.enqueued]
  split
  · rw [Function.update_eq_self]
  · rfl

theorem dequeue_event (s : Scheduler E) (e : E) :
    (s.dequeue e).event = Function.update s.event e (s.event e).dequeued := by
  rw [dequeue, EventState.dequeued]
  split
  · rfl
  · rename_i h
    have hv : { s.event e with prioAppl := 0 } = s.event e := by
      rw [not_not] at h
      rw [← h]
    rw [hv, Function.update_eq_self]

/-- What `prio` changes. -/
theorem prio_ok {p : Nat} (h : s.prio e p = .ok s') :
    p ≠ 0 ∧ s'.event = Function.update s.event e
      { s.event e with prioUsr := p, prioAppl := if (s.event e).prioAppl = 0 then 0 else p } := by
  rw [prio] at h
  split at h
  · cases h
  · refine ⟨‹_›, ?_⟩
    cases h
    dsimp only
    split
    · rename_i hmove
      rw [if_neg hmove.1, modify_event, modify_event, Function.update_idem, Function.update_self]
    · rename_i hstay
      rw [modify_event]
      congr 1
      by_cases hzero : (s.event e).prioAppl = 0
      · rw [if_pos hzero, ← hzero]
      · have hp : (s.event e).prioAppl = p := by
          by_contra hne
          exact hstay ⟨hzero, hne⟩
        rw [if_neg hzero, ← hp]

/-- Only the priorities change. -/
theorem prio_event {p : Nat} (h : s.prio e p = .ok s') : ∃ v,
    s'.event = Function.update s.event e v ∧
      v = { s.event e with prioUsr := v.prioUsr, prioAppl := v.prioAppl } :=
  ⟨_, (prio_ok h).2, rfl⟩

theorem idleSet_event (s : Scheduler E) (e : E) :
    (s.idleSet e).event = Function.update s.event e (s.event e).dequeued :=
  dequeue_event { s with idleness := s.idleness.insert e } e

theorem idleCancel_event (s : Scheduler E) (e : E) :
    (s.idleCancel e).event = Function.update s.event e (s.event e).dequeued :=
  dequeue_event { s with idleness := s.idleness.filter (· ≠ e) } e

theorem timedSet_event (s : Scheduler E) (e : E) (when' : TimePoint) :
    (s.timedSet e when').event =
      Function.update s.event e { s.event e with when', isSet := true } := by
  rw [timedSet]
  split
  · rename_i h
    have hv : { s.event e with when', isSet := true } = s.event e := by rw [← h.2, ← h.1]
    rw [hv, Function.update_eq_self]
  · dsimp only
    split <;> rfl

theorem timedCancel_event (s : Scheduler E) (e : E) : (s.timedCancel e).event =
    Function.update s.event e { (s.event e).dequeued with isSet := false } := by
  rw [timedCancel]
  by_cases h : ((s.dequeue e).event e).isSet
  · rw [if_pos h, modify_event]
    show Function.update (s.dequeue e).event e _ = _
    rw [dequeue_event, Function.update_idem]
    simp [untable, dequeue_event]
  · rw [if_neg h]
    rw [dequeue_event] at h ⊢
    rw [Function.update_self, Bool.not_eq_true] at h
    congr 1
    rw [← h]

theorem take_event (s : Scheduler E) (p : Nat) (e : E) :
    (s.take p e).event = Function.update s.event e (s.event e).dequeued := rfl

omit [DecidableEq E] in
@[simp] theorem updateSignal_event (s : Scheduler E) (signo : Nat) :
    (s.updateSignal signo).event = s.event := by
  rw [updateSignal]
  split <;> rfl

theorem sigReset_event (s : Scheduler E) (e : E) : (s.sigReset e).event = s.event :=
  updateSignal_event _ _

theorem sigCancel_event (s : Scheduler E) (e : E) : (s.sigCancel e).event =
    Function.update s.event e { s.event e with signo := 0 } := by
  rw [sigCancel]
  split
  · rename_i h
    have hv : { s.event e with signo := 0 } = s.event e := by rw [← h]
    rw [hv, Function.update_eq_self]
  · rw [modify_event, sigReset_event]

theorem sigSet_event (s : Scheduler E) (e : E) (signo : Nat) : (s.sigSet e signo).event =
    Function.update s.event e { s.event e with signo } := by
  -- what is done when the event is set for another signal
  have hset : ∀ t : Scheduler E, (if (t.event e).signo = signo then t else
      (({ (if (t.event e).signo ≠ 0 then t.sigReset e else t) with
        signalHandlers := (if (t.event e).signo ≠ 0 then t.sigReset e else t).signalHandlers.put
          signo e }.modify e fun v ↦ { v with signo }).updateSignal signo)).event =
      Function.update t.event e { t.event e with signo } := by
    intro t
    split
    · rename_i h
      have hv : { t.event e with signo } = t.event e := by rw [← h]
      rw [hv, Function.update_eq_self]
    · rw [updateSignal_event, modify_event]
      dsimp only
      split
      · rw [sigReset_event]
      · rfl
  rw [sigSet]
  dsimp only
  rw [hset]
  split
  · rename_i h
    subst h
    rw [sigCancel_event, Function.update_idem, Function.update_self]
  · rfl

/-- `set(0)` is a cancellation. -/
theorem sigSet_zero (s : Scheduler E) (e : E) : s.sigSet e 0 = s.sigCancel e := by
  rw [sigSet]
  dsimp only
  rw [if_pos rfl, if_pos (by simp [sigCancel_event])]

theorem destroy_event (s : Scheduler E) (e : E) (k : Kind) : (s.destroy e k).event = s.event := by
  rw [destroy]
  split
  · exact sigReset_event s e
  · rfl

/-! ### Descriptor events

These operations can fail, so the lemmas are about what there is when they do not.  The kernel has
an entry for each descriptor that it watches; to set an event writes over one. -/

/-- What the kernel watches, less what it watches for `e`. -/
def unwatched (s : Scheduler E) (e : E) : OrdMap Nat (E × Mask) :=
  match (s.event e).fd with
  | none => s.epoll
  | some fd => s.epoll.erase fd

omit [DecidableEq E] in
theorem remove_ok (h : s.remove e = .ok s') : s' = { s with epoll := s.unwatched e } := by
  rw [remove] at h
  rw [unwatched]
  cases hfd : (s.event e).fd with
  | none =>
    rw [hfd] at h
    cases h
    rfl
  | some fd =>
    rw [hfd] at h
    dsimp only at h
    split at h
    · cases h
      rfl
    · cases h

omit [DecidableEq E] in
theorem add_ok {mod : Bool} {n : Nat} (hfd : (s.event e).fd = some n)
    (h : s.add e mod = .ok s') : (s.epoll.get? n).isSome = mod ∧
      s' = { s with epoll := s.epoll.insert n (e, (s.event e).expected) } := by
  rw [add, hfd] at h
  dsimp only at h
  split at h
  · rename_i hmod
    cases h
    exact ⟨hmod, rfl⟩
  · cases h

/-- Writing over an entry is the same as dropping it first. -/
theorem insert_erase {V : Type} (m : OrdMap Nat V) (k : Nat) (v : V) :
    (m.erase k).insert k v = m.insert k v := by
  refine OrdMap.ext_get? fun k' ↦ ?_
  rw [OrdMap.get?_insert, OrdMap.get?_insert, OrdMap.get?_erase]
  split <;> rfl

/-- The fields of an event that is set for a descriptor. -/
def watching' (v : EventState) (fd : Nat) (events : Mask) : EventState :=
  { v with expected := events, got := {}, fd := some fd }

theorem descrSet_ok {fd : Nat} {events : Mask} (h : s.descrSet e fd events = .ok s') :
    (s.unwatched e).get? fd = none ∧
      s' = { s.modify e (watching' · fd events) with
        epoll := (s.unwatched e).insert fd (e, events) }.dequeue e := by
  let t := s.modify e fun v ↦ { v with expected := events, got := {} }
  have htfd : (t.event e).fd = (s.event e).fd := by simp [t, modify_event]
  have hunw : t.unwatched e = s.unwatched e := by rw [unwatched, unwatched, htfd]; rfl
  rw [descrSet] at h
  dsimp only [bind, Except.bind] at h
  split at h
  · rename_i hfd
    split at h
    · cases h
    · rename_i r hr
      have hr := remove_ok (s := t) hr
      rw [hunw] at hr
      subst hr
      split at h
      · cases h
      · rename_i u hu
        obtain ⟨hnone, rfl⟩ := add_ok (n := fd) (by simp [modify_event]) hu
        cases h
        refine ⟨by simpa [modify] using hnone, ?_⟩
        simp [t, modify, watching']
  · rename_i hfd
    rw [not_not] at hfd
    split at h
    · cases h
    · rename_i u hu
      obtain ⟨-, rfl⟩ := add_ok (s := t) hfd hu
      cases h
      have hfd' : (s.event e).fd = some fd := htfd.symm.trans hfd
      rw [unwatched, hfd']
      dsimp only
      refine ⟨OrdMap.get?_erase_self .., ?_⟩
      rw [insert_erase]
      have hv : watching' (s.event e) fd events =
          { s.event e with expected := events, got := {} } := by rw [watching', ← hfd']
      simp [t, modify, hv]

theorem descrCancel_ok (h : s.descrCancel e = .ok s') :
    s' = ({ s with epoll := s.unwatched e }.modify e fun v ↦ { v with fd := none }).dequeue e := by
  rw [descrCancel] at h
  dsimp only [bind, Except.bind] at h
  split at h
  · cases h
  · rename_i r hr
    cases h
    rw [remove_ok hr]

/-- The fields of an event that is reported. -/
def reported (v : EventState) (events : Mask) : EventState :=
  { v with got := v.got.union events, expected := v.expected.diff events }

theorem descrUpdate_ok {events : Mask} (h : s.descrUpdate e events = .ok s') :
    ∃ fd, (s.event e).fd = some fd ∧ s' = { s.modify e (reported · events) with
      epoll := (s.unwatched e).insert fd (e, (s.event e).expected.diff events) } := by
  rw [descrUpdate] at h
  cases hfd : (s.event e).fd with
  | none =>
    rw [add, modify_event, Function.update_self] at h
    simp only [hfd] at h
    cases h
  | some fd =>
    have hfd' : ((s.modify e (reported · events)).event e).fd = some fd := by
      simp [modify_event, reported, hfd]
    obtain ⟨-, rfl⟩ := add_ok hfd' h
    refine ⟨fd, rfl, ?_⟩
    rw [unwatched, hfd]
    dsimp only
    rw [insert_erase]
    simp [modify, reported]

theorem descrSet_event {fd : Nat} {events : Mask} (h : s.descrSet e fd events = .ok s') :
    s'.event = Function.update s.event e (watching' (s.event e) fd events).dequeued := by
  obtain ⟨-, rfl⟩ := descrSet_ok h
  rw [dequeue_event]
  simp [modify_event]

theorem descrCancel_event (h : s.descrCancel e = .ok s') : s'.event =
    Function.update s.event e { (s.event e).dequeued with fd := none } := by
  obtain rfl := descrCancel_ok h
  rw [dequeue_event]
  simp [modify_event, EventState.dequeued]

theorem descrUpdate_event {events : Mask} (h : s.descrUpdate e events = .ok s') :
    s'.event = Function.update s.event e (reported (s.event e) events) := by
  obtain ⟨fd, -, rfl⟩ := descrUpdate_ok h
  rfl

/-! ### Failures

The kernel refuses a descriptor only with an exception.  The one assertion on the way is about an
event without a descriptor, and `set` has given it one by then. -/

omit [DecidableEq E] in
theorem add_error {mod : Bool} {x : Halt} (h : s.add e mod = .error x) :
    (s.event e).fd = none ∧ x = .assertion .addFd ∨ x.Throws := by
  rw [add] at h
  split at h
  · rename_i hfd
    cases h
    exact .inl ⟨hfd, rfl⟩
  · split at h
    · cases h
    · cases h
      exact .inr (Halt.throws _)

omit [DecidableEq E] in
/-- An event that has a descriptor keeps the assertion of `add`. -/
theorem add_throws {mod : Bool} {x : Halt} (h : s.add e mod = .error x)
    (hfd : (s.event e).fd ≠ none) : x.Throws :=
  (add_error h).resolve_left fun hnone ↦ hfd hnone.1

omit [DecidableEq E] in
theorem remove_throws {x : Halt} (h : s.remove e = .error x) : x.Throws := by
  rw [remove] at h
  split at h
  · cases h
  · split at h
    · cases h
    · cases h
      exact Halt.throws _

theorem descrSet_throws {fd : Nat} {events : Mask} {x : Halt}
    (h : s.descrSet e fd events = .error x) : x.Throws := by
  rw [descrSet] at h
  dsimp only [bind, Except.bind] at h
  split at h
  · split at h
    · cases h
      exact remove_throws ‹_›
    · split at h
      · cases h
        exact add_throws ‹_› (by simp [modify_event])
      · cases h
  · rename_i hfd
    split at h
    · cases h
      exact add_throws ‹_› (by simp [not_not.mp hfd])
    · cases h

theorem descrCancel_throws {x : Halt} (h : s.descrCancel e = .error x) : x.Throws := by
  rw [descrCancel] at h
  dsimp only [bind, Except.bind] at h
  split at h
  · cases h
    exact remove_throws ‹_›
  · cases h

theorem readAll_error {l : List (Ready E)} {x : Halt} (h : s.readAll l = .error x) :
    x = .assertion .addFd ∨ x.Throws := by
  induction l generalizing s with
  | nil => cases h
  | cons r l ih =>
    rw [readAll] at h
    split at h
    · rename_i y hr
      cases h
      cases r with
      | signals signos => cases hr
      | descriptor e events => exact (add_error (map_error hr)).imp_left And.right
    · exact ih h

theorem collect_error {now : TimePoint} {ready : List (Ready E)} {x : Halt}
    (h : s.collect now ready = .error x) : x = .assertion .addFd ∨ x.Throws :=
  readAll_error (map_error h)

/-! ### What is idle -/

@[simp] theorem enqueue_idleness (s : Scheduler E) (e : E) :
    (s.enqueue e).idleness = s.idleness := by
  rw [enqueue]
  split <;> rfl

@[simp] theorem dequeue_idleness (s : Scheduler E) (e : E) :
    (s.dequeue e).idleness = s.idleness := by
  rw [dequeue]
  split <;> rfl

theorem prio_idleness {p : Nat} (h : s.prio e p = .ok s') : s'.idleness = s.idleness := by
  rw [prio] at h
  split at h
  · cases h
  · cases h
    show Scheduler.idleness (ite _ _ _) = _
    split <;> rfl

theorem idleSet_idleness (s : Scheduler E) (e : E) :
    (s.idleSet e).idleness = s.idleness.insert e :=
  dequeue_idleness ..

theorem idleCancel_idleness (s : Scheduler E) (e : E) :
    (s.idleCancel e).idleness = s.idleness.filter (· ≠ e) :=
  dequeue_idleness ..

@[simp] theorem timedSet_idleness (s : Scheduler E) (e : E) (when' : TimePoint) :
    (s.timedSet e when').idleness = s.idleness := by
  rw [timedSet]
  split
  · rfl
  · dsimp only
    split <;> rfl

@[simp] theorem timedCancel_idleness (s : Scheduler E) (e : E) :
    (s.timedCancel e).idleness = s.idleness := by
  rw [timedCancel]
  split <;> exact dequeue_idleness s e

omit [DecidableEq E] in
@[simp] theorem updateSignal_idleness (s : Scheduler E) (signo : Nat) :
    (s.updateSignal signo).idleness = s.idleness := by
  rw [updateSignal]
  split <;> rfl

@[simp] theorem sigReset_idleness (s : Scheduler E) (e : E) :
    (s.sigReset e).idleness = s.idleness :=
  updateSignal_idleness ..

@[simp] theorem sigCancel_idleness (s : Scheduler E) (e : E) :
    (s.sigCancel e).idleness = s.idleness := by
  rw [sigCancel]
  split
  · rfl
  · exact sigReset_idleness s e

@[simp] theorem sigSet_idleness (s : Scheduler E) (e : E) (signo : Nat) :
    (s.sigSet e signo).idleness = s.idleness := by
  by_cases hsigno : signo = 0
  · rw [hsigno, sigSet_zero, sigCancel_idleness]
  · rw [sigSet]
    dsimp only
    rw [if_neg hsigno]
    split
    · rfl
    · rw [updateSignal_idleness]
      dsimp only [modify]
      split
      · exact sigReset_idleness s e
      · rfl

theorem descrSet_idleness {fd : Nat} {events : Mask} (h : s.descrSet e fd events = .ok s') :
    s'.idleness = s.idleness := by
  obtain ⟨-, rfl⟩ := descrSet_ok h
  exact dequeue_idleness ..

@[simp] theorem destroy_idleness (s : Scheduler E) (e : E) (k : Kind) :
    (s.destroy e k).idleness = s.idleness := by
  rw [destroy]
  split
  · exact sigReset_idleness s e
  · rfl

theorem descrCancel_idleness (h : s.descrCancel e = .ok s') : s'.idleness = s.idleness := by
  obtain rfl := descrCancel_ok h
  exact dequeue_idleness ..

/-! ## Agreement

An event is found in a container by its fields.  This is what goes wrong if one is changed without
the other, so it is kept by each operation on its own; what a run preserves follows from it. -/

/-- The kernel watches for what the descriptor events are set for. -/
def Watched (m : OrdMap Nat (E × Mask)) (ev : E → EventState) : Prop :=
  ∀ fd e events, m.get? fd = some (e, events) ↔
    (ev e).fd = some fd ∧ (ev e).expected = events

/-- **The containers agree with the fields of the events.** -/
structure WF (s : Scheduler E) : Prop where
  usr : ∀ e, (s.event e).prioUsr ≠ 0
  queues : s.queues.Indexes fun e ↦ (s.event e).queue
  table : s.table.Indexes fun e ↦ (s.event e).timer
  handlers : s.signalHandlers.Indexes fun e ↦ (s.event e).signal
  epoll : Watched s.epoll s.event

omit [DecidableEq E] in
theorem wf_init : (init : Scheduler E).WF := by
  refine ⟨fun _ ↦ Nat.one_ne_zero, OrdMap.indexes_empty, OrdMap.indexes_empty, OrdMap.indexes_empty,
    fun fd e events ↦ ?_⟩
  simp [init]

omit [DecidableEq E] in
/-- Which events there are in `idleness`, and what signals are watched, does not matter. -/
theorem WF.congr (h : s.WF) (hevent : s'.event = s.event) (hqueues : s'.queues = s.queues)
    (htable : s'.table = s.table) (hhandlers : s'.signalHandlers = s.signalHandlers)
    (hepoll : s'.epoll = s.epoll) : s'.WF := by
  obtain ⟨h₁, h₂, h₃, h₄, h₅⟩ := h
  exact ⟨by rwa [hevent], by rwa [hevent, hqueues], by rwa [hevent, htable],
    by rwa [hevent, hhandlers], by rwa [hevent, hepoll]⟩

theorem usr_update {ev : E → EventState} (h : ∀ e, (ev e).prioUsr ≠ 0) {v : EventState}
    (hv : v.prioUsr ≠ 0) (e' : E) : (Function.update ev e v e').prioUsr ≠ 0 := by
  by_cases he : e' = e
  · rw [he, Function.update_self]
    exact hv
  · rw [Function.update_of_ne he]
    exact h e'

/-- Changes to other fields do not matter to the kernel. -/
theorem Watched.update {m : OrdMap Nat (E × Mask)} {ev : E → EventState} (h : Watched m ev)
    {v : EventState} (hfd : v.fd = (ev e).fd) (hexp : v.expected = (ev e).expected) :
    Watched m (Function.update ev e v) := by
  intro fd e' events
  rw [h fd e' events]
  by_cases he : e' = e
  · rw [he, Function.update_self, hfd, hexp]
  · rw [Function.update_of_ne he]

theorem EventState.queue_le {v : EventState} {p : Nat} (h : v.queue = some p) :
    p = v.prioAppl := by
  rw [EventState.queue] at h
  split at h
  · cases h
  · exact (Option.some.inj h).symm

/-! ### Queues

An event that is enqueued while it is queued stays where it is. -/

theorem WF.enqueue (h : s.WF) (e : E) : (s.enqueue e).WF := by
  rw [Scheduler.enqueue]
  split
  · exact h
  · rename_i hp
    rw [not_not] at hp
    refine ⟨usr_update h.usr (h.usr e), h.queues.put_update (fun k hk ↦ ?_) ?_,
      h.table.update rfl, h.handlers.update rfl, h.epoll.update rfl rfl⟩
    · rw [EventState.queue, if_pos hp] at hk
      cases hk
    · exact if_neg (h.usr e)

theorem WF.dequeue (h : s.WF) (e : E) : (s.dequeue e).WF := by
  rw [Scheduler.dequeue]
  split
  · exact ⟨usr_update h.usr (h.usr e), h.queues.drop_update (fun _ ↦ EventState.queue_le) rfl,
      h.table.update rfl, h.handlers.update rfl, h.epoll.update rfl rfl⟩
  · exact h

theorem WF.take (h : s.WF) {p : Nat} (hp : (s.event e).queue = some p) : (s.take p e).WF :=
  ⟨usr_update h.usr (h.usr e), h.queues.drop_update
    (fun _ hk ↦ Option.some.inj (hk.symm.trans hp)) rfl,
    h.table.update rfl, h.handlers.update rfl, h.epoll.update rfl rfl⟩

theorem WF.prio (h : s.WF) {p : Nat} (hs : s.prio e p = .ok s') : s'.WF := by
  rw [Scheduler.prio] at hs
  split at hs
  · cases hs
  · rename_i hp
    dsimp only at hs
    split at hs
    · cases hs
      rename_i happl
      rw [modify, modify]
      dsimp only
      rw [Function.update_idem, Function.update_self]
      exact ⟨usr_update h.usr hp, h.queues.move_update (fun _ ↦ EventState.queue_le)
        (if_neg hp), h.table.update rfl, h.handlers.update rfl, h.epoll.update rfl rfl⟩
    · cases hs
      exact ⟨usr_update h.usr hp, h.queues.update rfl, h.table.update rfl, h.handlers.update rfl,
        h.epoll.update rfl rfl⟩

/-! ### Idle events -/

theorem WF.idleSet (h : s.WF) (e : E) : (s.idleSet e).WF :=
  WF.dequeue (s := { s with idleness := s.idleness.insert e }) (h.congr rfl rfl rfl rfl rfl) e

theorem WF.idleCancel (h : s.WF) (e : E) : (s.idleCancel e).WF :=
  WF.dequeue (s := { s with idleness := s.idleness.filter (· ≠ e) })
    (h.congr rfl rfl rfl rfl rfl) e

/-! ### Timed events

The bucket of a time goes away with its last event, and this must not matter. -/

theorem EventState.timer_le {v : EventState} {t : TimePoint} (h : v.timer = some t) :
    t = v.when' := by
  rw [EventState.timer] at h
  split at h
  · exact (Option.some.inj h).symm
  · cases h

theorem WF.timedSet (h : s.WF) (e : E) (when' : TimePoint) : (s.timedSet e when').WF := by
  rw [Scheduler.timedSet]
  split
  · exact h
  · dsimp only
    split
    · exact ⟨usr_update h.usr (h.usr e), h.queues.update rfl,
        h.table.move_update (fun _ ↦ EventState.timer_le) rfl, h.handlers.update rfl,
        h.epoll.update rfl rfl⟩
    · rename_i hset
      refine ⟨usr_update h.usr (h.usr e), h.queues.update rfl,
        h.table.put_update (fun k hk ↦ ?_) rfl, h.handlers.update rfl, h.epoll.update rfl rfl⟩
      rw [EventState.timer, if_neg hset] at hk
      cases hk

theorem WF.timedCancel (h : s.WF) (e : E) : (s.timedCancel e).WF := by
  have hd := h.dequeue e
  rw [Scheduler.timedCancel]
  split
  · exact ⟨usr_update hd.usr (hd.usr e), hd.queues.update rfl,
      hd.table.drop_update (fun _ ↦ EventState.timer_le) rfl, hd.handlers.update rfl,
      hd.epoll.update rfl rfl⟩
  · exact hd

/-! ### Signal events

`reset` leaves the two in disagreement, with the signal number still in the event.  So the agreement
is shown for `reset` and the change of the number that always follows it. -/

omit [DecidableEq E] in
/-- Dropping an empty set of handlers changes nothing. -/
theorem updateSignal_eq (s : Scheduler E) (signo : Nat) :
    ∃ m w, s.updateSignal signo = { s with signalHandlers := m, watching := w } ∧
      ∀ f, s.signalHandlers.Indexes f → m.Indexes f := by
  rw [updateSignal]
  split
  · exact ⟨_, _, rfl, fun f hf ↦ hf⟩
  · rename_i hstate
    refine ⟨_, _, rfl, fun f hf ↦ (hf.eraseKey signo).congr fun e ↦ ?_⟩
    rw [Bool.not_eq_true, Bool.not_eq_false', List.isEmpty_iff] at hstate
    split
    · rename_i he
      have hmem := (hf signo e).mpr he
      rw [hstate] at hmem
      cases hmem
    · rfl

omit [DecidableEq E] in
theorem WF.updateSignal (h : s.WF) (signo : Nat) : (s.updateSignal signo).WF := by
  obtain ⟨m, w, heq, hm⟩ := updateSignal_eq s signo
  rw [heq]
  exact ⟨h.usr, h.queues, h.table, hm _ h.handlers, h.epoll⟩

theorem EventState.signal_le {v : EventState} {n : Nat} (h : v.signal = some n) :
    n = v.signo := by
  rw [EventState.signal] at h
  split at h
  · cases h
  · exact (Option.some.inj h).symm

/-- `reset` leaves the signal number to the caller, which sets it. -/
theorem WF.sigReset_modify (h : s.WF) {e : E} {v : EventState}
    (hv : v = { s.event e with signo := 0 }) : ((s.sigReset e).modify e fun _ ↦ v).WF := by
  subst hv
  obtain ⟨m, w, heq, hm⟩ := updateSignal_eq
    { s with signalHandlers := s.signalHandlers.drop (s.event e).signo e } (s.event e).signo
  rw [sigReset]
  dsimp only
  rw [heq]
  have hdrop := h.handlers.drop_update (e := e) (v := { s.event e with signo := 0 })
    (fun _ ↦ EventState.signal_le) rfl
  exact ⟨usr_update h.usr (h.usr e), h.queues.update rfl, h.table.update rfl, hm _ hdrop,
    h.epoll.update rfl rfl⟩

theorem WF.sigCancel (h : s.WF) (e : E) : (s.sigCancel e).WF := by
  rw [Scheduler.sigCancel]
  split
  · exact h
  · have hv : (s.sigReset e).modify e (fun v ↦ { v with signo := 0 }) =
        (s.sigReset e).modify e fun _ ↦ { s.event e with signo := 0 } := by
      rw [modify, modify, sigReset_event]
    rw [hv]
    exact h.sigReset_modify rfl

theorem WF.sigSet (h : s.WF) (e : E) (signo : Nat) : (s.sigSet e signo).WF := by
  by_cases hsigno : signo = 0
  · rw [hsigno, sigSet_zero]
    exact h.sigCancel e
  rw [Scheduler.sigSet]
  dsimp only
  rw [if_neg hsigno]
  split
  · exact h
  · refine WF.updateSignal ?_ signo
    split
    · obtain ⟨m, w, heq, hm⟩ := updateSignal_eq
        { s with signalHandlers := s.signalHandlers.drop (s.event e).signo e } (s.event e).signo
      rw [sigReset, heq]
      have hdrop := hm _ (h.handlers.drop_update (e := e) (v := { s.event e with signo := 0 })
        (fun _ ↦ EventState.signal_le) rfl)
      have hput := hdrop.put_update (e := e) (k := signo)
        (v := { s.event e with signo }) (fun k hk ↦ ?_) (if_neg hsigno)
      · rw [Function.update_idem] at hput
        exact ⟨usr_update h.usr (h.usr e), h.queues.update rfl, h.table.update rfl, hput,
          h.epoll.update rfl rfl⟩
      · rw [Function.update_self] at hk
        cases hk
    · rename_i hzero
      rw [not_not] at hzero
      refine ⟨usr_update h.usr (h.usr e), h.queues.update rfl, h.table.update rfl,
        h.handlers.put_update (fun k hk ↦ ?_) (if_neg hsigno), h.epoll.update rfl rfl⟩
      rw [EventState.signal, if_pos hzero] at hk
      cases hk

/-! ### Descriptor events

Two events must not be set for one descriptor, or the kernel would have the last of them only.  This
is the one place where an operation needs something of its argument. -/

omit [DecidableEq E] in
/-- What is left when an event is no longer watched. -/
theorem Watched.unwatched (h : Watched s.epoll s.event) (e : E) :
    ∀ fd e' events, (s.unwatched e).get? fd = some (e', events) ↔
      e' ≠ e ∧ (s.event e').fd = some fd ∧ (s.event e').expected = events := by
  intro fd e' events
  rw [Scheduler.unwatched]
  cases hfd : (s.event e).fd with
  | none =>
    dsimp only
    rw [h fd e' events]
    refine ⟨fun hw ↦ ⟨?_, hw⟩, fun hw ↦ hw.2⟩
    rintro rfl
    rw [hfd] at hw
    cases hw.1
  | some fd₀ =>
    dsimp only
    rw [OrdMap.get?_erase]
    split
    · rename_i heq
      subst heq
      refine ⟨(by intro hw; cases hw), fun ⟨hne, hw⟩ ↦ ?_⟩
      -- a descriptor is watched for one event only
      have h₁ := (h fd e _).mpr ⟨hfd, rfl⟩
      have h₂ := (h fd e' _).mpr hw
      rw [h₁, Option.some_inj, Prod.mk.injEq] at h₂
      exact absurd h₂.1.symm hne
    · rename_i hne
      rw [h fd e' events]
      refine ⟨fun hw ↦ ⟨?_, hw⟩, fun hw ↦ hw.2⟩
      rintro rfl
      rw [hfd, Option.some_inj] at hw
      exact hne hw.1.symm

/-- An event is watched again, on a descriptor that no other is. -/
theorem Watched.insert (h : Watched s.epoll s.event) {e : E} {fd : Nat} {v : EventState}
    (hnone : ∀ e' events, (s.unwatched e).get? fd ≠ some (e', events)) (hfd : v.fd = some fd) :
    Watched ((s.unwatched e).insert fd (e, v.expected)) (Function.update s.event e v) := by
  intro fd' e' events
  rw [OrdMap.get?_insert]
  by_cases he : e' = e
  · subst he
    rw [Function.update_self, hfd, Option.some_inj]
    split
    · rename_i heq
      simp [heq]
    · rename_i hne
      rw [h.unwatched]
      simp [Ne.symm hne]
  · rw [Function.update_of_ne he]
    split
    · rename_i heq
      subst heq
      have hother := h.unwatched e fd' e' events
      rw [and_iff_right he] at hother
      rw [← hother]
      simp only [Option.some_inj, Prod.mk.injEq, Ne.symm he, false_and, false_iff]
      exact hnone e' events
    · rw [h.unwatched]
      simp [he]

/-- The descriptor fields of an event change, and what the kernel watches. -/
theorem WF.rewatch (h : s.WF) {e : E} {v : EventState} {m : OrdMap Nat (E × Mask)}
    (husr : v.prioUsr = (s.event e).prioUsr) (hqueue : v.queue = (s.event e).queue)
    (htimer : v.timer = (s.event e).timer) (hsignal : v.signal = (s.event e).signal)
    (hm : Watched m (Function.update s.event e v)) :
    WF { s with event := Function.update s.event e v, epoll := m } :=
  ⟨usr_update h.usr (husr ▸ h.usr e), h.queues.update hqueue, h.table.update htimer,
    h.handlers.update hsignal, hm⟩

theorem WF.descrSet (h : s.WF) {fd : Nat} {events : Mask}
    (hs : s.descrSet e fd events = .ok s') : s'.WF := by
  obtain ⟨hnone, rfl⟩ := descrSet_ok hs
  have hwatch := h.epoll.insert (v := watching' (s.event e) fd events)
    (fun e' events ↦ by rw [hnone]; simp) rfl
  exact (h.rewatch (v := watching' (s.event e) fd events) rfl rfl rfl rfl hwatch).dequeue e

theorem WF.descrCancel (h : s.WF) (hs : s.descrCancel e = .ok s') : s'.WF := by
  obtain rfl := descrCancel_ok hs
  have hwatch : Watched (s.unwatched e)
      (Function.update s.event e { s.event e with fd := none }) := by
    intro fd e' events
    rw [h.epoll.unwatched]
    by_cases he : e' = e
    · rw [he, Function.update_self]
      simp
    · rw [Function.update_of_ne he]
      simp [he]
  exact (h.rewatch (v := { s.event e with fd := none }) rfl rfl rfl rfl hwatch).dequeue e

/-- What is set for a descriptor can be cancelled. -/
theorem WF.descrCancel_total (h : s.WF) (e : E) : ∃ s', s.descrCancel e = .ok s' := by
  rw [Scheduler.descrCancel, Scheduler.remove]
  cases hfd : (s.event e).fd with
  | none => exact ⟨_, rfl⟩
  | some fd =>
    have hget : s.epoll.get? fd = some (e, (s.event e).expected) := (h.epoll fd e _).mpr ⟨hfd, rfl⟩
    dsimp only
    rw [if_pos (by rw [hget]; rfl)]
    exact ⟨_, rfl⟩

/-- What is set for a descriptor can be set for it again. -/
theorem WF.descrSet_again (h : s.WF) {fd : Nat} (hfd : (s.event e).fd = some fd) (events : Mask) :
    ∃ s', s.descrSet e fd events = .ok s' := by
  have hget : s.epoll.get? fd = some (e, (s.event e).expected) := (h.epoll fd e _).mpr ⟨hfd, rfl⟩
  have hadd : ∃ t, (s.modify e fun v ↦ { v with expected := events, got := {} }).add e true =
      .ok t := by
    rw [Scheduler.add, modify_event, Function.update_self]
    simp only [hfd]
    rw [if_pos (by rw [show (s.modify e _).epoll = s.epoll from rfl, hget]; rfl)]
    exact ⟨_, rfl⟩
  obtain ⟨t, ht⟩ := hadd
  rw [Scheduler.descrSet]
  dsimp only [bind, Except.bind]
  rw [if_neg (by simp [modify_event, hfd]), ht]
  exact ⟨_, rfl⟩

/-- A descriptor that no event is set for can be set. -/
theorem WF.descrSet_fresh (h : s.WF) {fd : Nat} (hfree : ∀ i, (s.event i).fd ≠ some fd)
    (hfd : (s.event e).fd = none) (events : Mask) : ∃ s', s.descrSet e fd events = .ok s' := by
  have hget : s.epoll.get? fd = none := by
    cases hget : s.epoll.get? fd with
    | none => rfl
    | some p => exact absurd ((h.epoll fd p.1 p.2).mp hget).1 (hfree p.1)
  have hremove : (s.modify e fun v ↦ { v with expected := events, got := {} }).remove e =
      .ok (s.modify e fun v ↦ { v with expected := events, got := {} }) := by
    rw [Scheduler.remove, modify_event, Function.update_self]
    simp only [hfd]
  rw [Scheduler.descrSet]
  dsimp only [bind, Except.bind]
  rw [if_pos (by simp [modify_event, hfd]), hremove]
  dsimp only
  rw [Scheduler.add, modify_event, Function.update_self]
  dsimp only
  rw [if_pos (by simp [modify, hget])]
  exact ⟨_, rfl⟩

theorem WF.descrUpdate (h : s.WF) {events : Mask} (hs : s.descrUpdate e events = .ok s') :
    s'.WF := by
  obtain ⟨fd, hfd, rfl⟩ := descrUpdate_ok hs
  have hwatch := h.epoll.insert (v := reported (s.event e) events) (fun e' events ↦ (by
    rw [Scheduler.unwatched, hfd]
    simp)) hfd
  exact h.rewatch (v := reported (s.event e) events) rfl rfl rfl rfl hwatch

/-! ### All at once

What a caller needs of an operation on one event: the others are as they were, nothing is idle that
was not, and the containers still agree. -/

/-- What a call on the event `e` comes to: it leaves `e` as `v`, and the rest as it was. -/
structure Changes (s s' : Scheduler E) (e : E) (v : EventState) : Prop where
  wf : s.WF → s'.WF
  event : s'.event = Function.update s.event e v
  idleness : s'.idleness = s.idleness

theorem Changes.event_self {v : EventState} (h : Changes s s' e v) : s'.event e = v := by
  rw [h.event, Function.update_self]

theorem Changes.event_of_ne {v : EventState} {i : E} (h : Changes s s' e v) (hne : i ≠ e) :
    s'.event i = s.event i := by
  rw [h.event, Function.update_of_ne hne]

theorem changes_take {p : Nat} (hp : e ∈ s.queues.bucket p) :
    Changes s (s.take p e) e (s.event e).dequeued :=
  ⟨fun h ↦ h.take ((h.queues p e).mp hp), take_event s p e, rfl⟩

theorem changes_timedSet (s : Scheduler E) (e : E) (when' : TimePoint) :
    Changes s (s.timedSet e when') e { s.event e with when', isSet := true } :=
  ⟨fun h ↦ h.timedSet e when', timedSet_event s e when', timedSet_idleness s e when'⟩

theorem changes_timedCancel (s : Scheduler E) (e : E) :
    Changes s (s.timedCancel e) e { (s.event e).dequeued with isSet := false } :=
  ⟨fun h ↦ h.timedCancel e, timedCancel_event s e, timedCancel_idleness s e⟩

theorem changes_descrSet {fd : Nat} {events : Mask} (h : s.descrSet e fd events = .ok s') :
    Changes s s' e (watching' (s.event e) fd events).dequeued :=
  ⟨fun hs ↦ hs.descrSet h, descrSet_event h, descrSet_idleness h⟩

theorem changes_descrCancel (h : s.descrCancel e = .ok s') :
    Changes s s' e { (s.event e).dequeued with fd := none } :=
  ⟨fun hs ↦ hs.descrCancel h, descrCancel_event h, descrCancel_idleness h⟩

theorem changes_sigSet (s : Scheduler E) (e : E) (signo : Nat) :
    Changes s (s.sigSet e signo) e { s.event e with signo } :=
  ⟨fun h ↦ h.sigSet e signo, sigSet_event s e signo, sigSet_idleness s e signo⟩

/-! ### Destruction

The destructor of an event takes it out of the signal handlers at most.  So there is agreement
afterwards only if it was in nothing else. -/

/-- An event that is in no way set. -/
structure Inert (v : EventState) : Prop where
  appl : v.prioAppl = 0
  isSet : v.isSet = false
  signo : v.signo = 0
  fd : v.fd = none

/-- The fields of an inert event do not matter. -/
theorem WF.reset (h : s.WF) (he : Inert (s.event e)) :
    (s.modify e fun _ ↦ {}).WF := by
  obtain ⟨happl, hset, hsigno, hfd⟩ := he
  refine ⟨usr_update h.usr Nat.one_ne_zero, h.queues.update ?_, h.table.update ?_,
    h.handlers.update ?_, fun fd e' events ↦ ?_⟩
  · rw [EventState.queue, EventState.queue, if_pos happl, if_pos rfl]
  · simp [EventState.timer, hset]
  · rw [EventState.signal, EventState.signal, if_pos hsigno, if_pos rfl]
  · rw [show (s.modify e fun _ ↦ {}).epoll = s.epoll from rfl, h.epoll fd e' events,
      modify_event]
    by_cases he' : e' = e
    · rw [he', Function.update_self, hfd]
      simp
    · rw [Function.update_of_ne he']

/-- A destructor leaves everything in order if only the signal of the event is set. -/
theorem WF.destroy (h : s.WF) {k : Kind} (he : Inert { s.event e with signo := 0 })
    (hk : (s.event e).signo ≠ 0 → k = .signal) :
    ((s.destroy e k).modify e fun _ ↦ {}).WF := by
  rw [Scheduler.destroy]
  split
  · have hmod : (s.sigReset e).modify e (fun _ ↦ {}) =
        ((s.sigReset e).modify e fun _ ↦ { s.event e with signo := 0 }).modify e fun _ ↦ {} := by
      simp [modify]
    rw [hmod]
    refine WF.reset (h.sigReset_modify rfl) ?_
    rwa [modify_event, Function.update_self]
  · rename_i hsigno
    have hzero : (s.event e).signo = 0 := by
      by_contra hne
      exact hsigno ⟨hk hne, hne⟩
    refine WF.reset h ?_
    rwa [← hzero] at he

/-- A destructor changes `signal_handlers` only, where it takes the event out. -/
theorem WF.destroy_eq (h : s.WF) {k : Kind} (hk : (s.event e).signo ≠ 0 → k = .signal) :
    ∃ m w, s.destroy e k = { s with signalHandlers := m, watching := w } ∧
      (∀ signo, ∀ e' ∈ m.bucket signo, e' ∈ s.signalHandlers.bucket signo) ∧
      ∀ signo, e ∉ m.bucket signo := by
  rw [Scheduler.destroy]
  split
  · obtain ⟨m, w, heq, hm⟩ := updateSignal_eq
      { s with signalHandlers := s.signalHandlers.drop (s.event e).signo e } (s.event e).signo
    have hdrop := hm _ (h.handlers.drop (e := e) fun _ ↦ EventState.signal_le)
    refine ⟨m, w, heq, fun signo e' he' ↦ ?_, fun signo he ↦ ?_⟩
    · have hsignal := (hdrop signo e').mp he'
      by_cases hee : e' = e
      · rw [hee, Function.update_self] at hsignal
        cases hsignal
      · rw [Function.update_of_ne hee] at hsignal
        exact (h.handlers signo e').mpr hsignal
    · have hsignal := (hdrop signo e).mp he
      rw [Function.update_self] at hsignal
      cases hsignal
  · rename_i hsigno
    refine ⟨_, _, rfl, fun _ _ he' ↦ he', fun signo he ↦ hsigno ?_⟩
    have hsignal : (s.event e).signal = some signo := (h.handlers signo e).mp he
    rw [EventState.signal] at hsignal
    split at hsignal
    · cases hsignal
    · exact ⟨hk ‹_›, ‹_›⟩

/-! ## What a poll collects

Collecting is a sequence of changes of one kind: events are changed, and queued.  Half of the
agreement is lost on the way, since a timer that is due leaves the table before its field says so.
What a whole poll does is put together from its stages. -/

/-- A change of fields that `poll` makes to the events that it enqueues. -/
structure Clears (g : EventState → EventState) : Prop where
  usr : ∀ v, (g v).prioUsr = v.prioUsr
  appl : ∀ v, (g v).prioAppl = v.prioAppl
  fd : ∀ v, (g v).fd = v.fd
  expected : ∀ v, (g v).expected = v.expected
  again : ∀ v, g (g v).enqueued = (g v).enqueued

theorem clears_id : Clears id := ⟨fun _ ↦ rfl, fun _ ↦ rfl, fun _ ↦ rfl, fun _ ↦ rfl, fun _ ↦ rfl⟩

theorem clears_isSet : Clears fun v ↦ { v with isSet := false } := by
  refine ⟨fun _ ↦ rfl, fun _ ↦ rfl, fun _ ↦ rfl, fun _ ↦ rfl, fun v ↦ ?_⟩
  rw [EventState.enqueued]
  split <;> rfl

theorem clears_signo : Clears fun v ↦ { v with signo := 0 } := by
  refine ⟨fun _ ↦ rfl, fun _ ↦ rfl, fun _ ↦ rfl, fun _ ↦ rfl, fun v ↦ ?_⟩
  rw [EventState.enqueued]
  split <;> rfl

theorem enqueued_appl {v : EventState} (h : v.prioUsr ≠ 0) : v.enqueued.prioAppl ≠ 0 := by
  rw [EventState.enqueued]
  split <;> assumption

theorem enqueued_of_queued {v : EventState} (h : v.prioAppl ≠ 0) : v.enqueued = v := if_pos h

/-- The part of the agreement that lasts while a poll is collecting. -/
structure Half (s : Scheduler E) : Prop where
  usr : ∀ e, (s.event e).prioUsr ≠ 0
  queues : s.queues.Indexes fun e ↦ (s.event e).queue
  epoll : Watched s.epoll s.event

omit [DecidableEq E] in
theorem WF.half (h : s.WF) : s.Half := ⟨h.usr, h.queues, h.epoll⟩

theorem Half.enqueue (h : s.Half) (e : E) : (s.enqueue e).Half := by
  rw [Scheduler.enqueue]
  split
  · exact h
  · rename_i hp
    rw [not_not] at hp
    refine ⟨usr_update h.usr (h.usr e), h.queues.put_update (fun k hk ↦ ?_) ?_,
      h.epoll.update rfl rfl⟩
    · rw [EventState.queue, if_pos hp] at hk
      cases hk
    · exact if_neg (h.usr e)

/-- What is kept by changing an event and queuing it is kept by `queueAll`. -/
theorem queueAll_keeps {g : EventState → EventState} {I : Scheduler E → Prop}
    (hstep : ∀ t e, I t → I ((t.modify e g).enqueue e)) (es : List E) (h : I s) :
    I (queueAll g es s) := by
  induction es generalizing s with
  | nil => exact h
  | cons e es ih => exact ih (hstep s e h)

theorem modify_enqueue_event (g : EventState → EventState) (s : Scheduler E) (e : E) :
    ((s.modify e g).enqueue e).event = Function.update s.event e (g (s.event e)).enqueued := by
  rw [enqueue_event, modify_event, Function.update_idem, Function.update_self]

/-- **What `queueAll` does**: its events are changed and queued, and nothing else is. -/
theorem queueAll_event {g : EventState → EventState} (hg : Clears g) (es : List E)
    (husr : ∀ e, (s.event e).prioUsr ≠ 0) : ∃ ev q,
    queueAll g es s = { s with event := ev, queues := q } ∧
      ∀ e, ev e = if e ∈ es then (g (s.event e)).enqueued else s.event e := by
  induction es generalizing s with
  | nil => exact ⟨_, _, rfl, fun e ↦ by simp⟩
  | cons a es ih =>
    have husr' : ∀ e, (((s.modify a g).enqueue a).event e).prioUsr ≠ 0 := by
      rw [modify_enqueue_event]
      refine usr_update husr ?_
      rw [EventState.enqueued_prioUsr, hg.usr]
      exact husr a
    obtain ⟨ev, q, heq, hev⟩ := ih husr'
    have hfirst : ∃ ev' q', (s.modify a g).enqueue a = { s with event := ev', queues := q' } := by
      rw [Scheduler.enqueue]
      split <;> exact ⟨_, _, rfl⟩
    obtain ⟨ev', q', hfirst⟩ := hfirst
    refine ⟨ev, q, ?_, fun e ↦ ?_⟩
    · rw [queueAll, List.foldl_cons]
      exact heq.trans (by rw [hfirst])
    · rw [hev e, modify_enqueue_event]
      by_cases he : e = a
      · rw [he, Function.update_self, if_pos (List.mem_cons_self ..)]
        split
        · rw [hg.again, enqueued_of_queued]
          refine enqueued_appl ?_
          rw [hg.usr]
          exact husr a
        · rfl
      · rw [Function.update_of_ne he]
        simp [he]

/-- `queueAll` keeps the part of the agreement that lasts. -/
theorem queueAll_spec {g : EventState → EventState} (hg : Clears g) (es : List E)
    (h : s.Half) : ∃ ev q, queueAll g es s = { s with event := ev, queues := q } ∧
      (queueAll g es s).Half ∧
      ∀ e, ev e = if e ∈ es then (g (s.event e)).enqueued else s.event e := by
  obtain ⟨ev, q, heq, hev⟩ := queueAll_event hg es h.usr
  refine ⟨ev, q, heq, queueAll_keeps (fun t e ht ↦ Half.enqueue ?_ e) es h, hev⟩
  have hqueue : (g (t.event e)).queue = (t.event e).queue := by
    rw [EventState.queue, EventState.queue, hg.appl]
  have husr : (g (t.event e)).prioUsr ≠ 0 := by
    rw [hg.usr]
    exact ht.usr e
  exact ⟨usr_update ht.usr husr, ht.queues.update hqueue,
    ht.epoll.update (hg.fd _) (hg.expected _)⟩

/-- What collecting does to an event: it may be queued, and then it can lose what it was set
for. -/
structure Moves (v v' : EventState) : Prop where
  usr : v'.prioUsr = v.prioUsr
  fd : v'.fd = v.fd
  stays : v.prioAppl ≠ 0 → v'.prioAppl = v.prioAppl
  timer : v'.isSet = v.isSet ∧ v'.when' = v.when' ∨ v.isSet ∧ v'.prioAppl ≠ 0
  signal : v'.signo = v.signo ∨ v'.signo = 0 ∧ v'.prioAppl ≠ 0
  report : v'.got = v.got ∧ v'.expected = v.expected ∨ v'.prioAppl ≠ 0

theorem Moves.refl (v : EventState) : Moves v v :=
  ⟨rfl, rfl, fun _ ↦ rfl, .inl ⟨rfl, rfl⟩, .inl rfl, .inl ⟨rfl, rfl⟩⟩

theorem Moves.queued {v v' : EventState} (h : Moves v v') (hv : v.prioAppl ≠ 0) :
    v'.prioAppl ≠ 0 := by
  rw [h.stays hv]
  exact hv

theorem Moves.trans {v v' v'' : EventState} (h : Moves v v') (h' : Moves v' v'') :
    Moves v v'' := by
  refine ⟨h'.usr.trans h.usr, h'.fd.trans h.fd, fun hv ↦ ?_, ?_, ?_, ?_⟩
  · rw [h'.stays (h.queued hv), h.stays hv]
  · rcases h.timer with ⟨hset, hwhen⟩ | ⟨hset, hq⟩
    · rw [← hset, ← hwhen]
      exact h'.timer
    · exact .inr ⟨hset, h'.queued hq⟩
  · rcases h.signal with hs | ⟨hzero, hq⟩
    · rw [← hs]
      exact h'.signal
    · rcases h'.signal with hs' | hs'
      · exact .inr ⟨hs'.trans hzero, h'.queued hq⟩
      · exact .inr hs'
  · rcases h.report with ⟨hg, hx⟩ | hq
    · rw [← hg, ← hx]
      exact h'.report
    · exact .inr (h'.queued hq)

theorem moves_enqueued {v v' : EventState} (husr : v'.prioUsr = v.prioUsr)
    (hne : v.prioUsr ≠ 0) (happl : v'.prioAppl = v.prioAppl) (hfd : v'.fd = v.fd)
    (htimer : v'.isSet = v.isSet ∧ v'.when' = v.when' ∨ v.isSet)
    (hsignal : v'.signo = v.signo ∨ v'.signo = 0) : Moves v v'.enqueued := by
  have hq : v'.enqueued.prioAppl ≠ 0 := enqueued_appl (husr ▸ hne)
  refine ⟨v'.enqueued_prioUsr.trans husr, v'.enqueued_fd.trans hfd, fun hv ↦ ?_, ?_, ?_, .inr hq⟩
  · rw [enqueued_of_queued (by rw [happl]; exact hv), happl]
  · rw [EventState.enqueued_isSet, EventState.enqueued_when]
    exact htimer.imp_right fun h ↦ ⟨h, hq⟩
  · rw [EventState.enqueued_signo]
    exact hsignal.imp_right fun h ↦ ⟨h, hq⟩

/-- A stage of collecting.  An event that is neither idle, nor set for a signal or a descriptor, is
only queued when it is timed. -/
structure Stage (s s' : Scheduler E) : Prop where
  wf : s'.WF
  moves : ∀ e, Moves (s.event e) (s'.event e)
  plain : ∀ e, (s.event e).signo = 0 → (s.event e).fd = none → e ∉ s.idleness →
    s'.event e = s.event e ∨
      (s.event e).isSet ∧ s'.event e = EventState.enqueued { s.event e with isSet := false }
  idle : ∀ e ∈ s.idleness, e ∈ s'.idleness ∨ (s'.event e).prioAppl ≠ 0
  idleness : ∀ e ∈ s'.idleness, e ∈ s.idleness

omit [DecidableEq E] in
theorem Stage.refl (h : s.WF) : Stage s s :=
  ⟨h, fun _ ↦ Moves.refl _, fun _ _ _ _ ↦ .inl rfl, fun _ he ↦ .inl he, fun _ he ↦ he⟩

omit [DecidableEq E] in
theorem Stage.inert (h : Stage s s') (he : Inert (s.event e)) (hidle : e ∉ s.idleness) :
    s'.event e = s.event e := by
  rcases h.plain e he.signo he.fd hidle with hsame | ⟨hset, -⟩
  · exact hsame
  · rw [he.isSet] at hset
    cases hset

omit [DecidableEq E] in
theorem Stage.trans {s'' : Scheduler E} (h : Stage s s') (h' : Stage s' s'') : Stage s s'' := by
  refine ⟨h'.wf, fun e ↦ (h.moves e).trans (h'.moves e), fun e hsigno hfd hidle ↦ ?_,
    fun e he ↦ ?_, fun e he ↦ h.idleness e (h'.idleness e he)⟩
  · have hidle' : e ∉ s'.idleness := fun hmem ↦ hidle (h.idleness e hmem)
    rcases h.plain e hsigno hfd hidle with h₁ | ⟨hset, h₁⟩
    · rw [← h₁] at hsigno hfd ⊢
      exact h'.plain e hsigno hfd hidle'
    · -- it is not timed any more
      have hfields : (s'.event e).signo = 0 ∧ (s'.event e).fd = none ∧
          (s'.event e).isSet = false := by
        rw [h₁]
        simp [hsigno, hfd]
      obtain ⟨hsigno', hfd', hset'⟩ := hfields
      rcases h'.plain e hsigno' hfd' hidle' with h₂ | ⟨hset₂, -⟩
      · exact .inr ⟨hset, h₂.trans h₁⟩
      · rw [hset'] at hset₂
        cases hset₂
  · rcases h.idle e he with hidle | hq
    · exact h'.idle e hidle
    · exact .inr ((h'.moves e).queued hq)

/-- A field that neither queuing nor the clearing before it changes. -/
theorem field_queued {α : Type} {g : EventState → EventState} {es : List E} {ev : E → EventState}
    (F : EventState → α) (hF : ∀ v, F (g v).enqueued = F v)
    (hev : ∀ e, ev e = if e ∈ es then (g (s.event e)).enqueued else s.event e) (e : E) :
    F (ev e) = F (s.event e) := by
  rw [hev e]
  split
  · exact hF _
  · rfl

/-- Timers that are due. -/
theorem stage_collectTimed (h : s.WF) (now : TimePoint) : Stage s (s.collectTimed now) := by
  obtain ⟨ev, q, heq, hhalf, hev⟩ := queueAll_spec clears_isSet
    ((s.table.filter fun t _ ↦ t ≤ now).entries.flatMap Prod.snd) h.half
  have hdue : ∀ e, e ∈ (s.table.filter fun t _ ↦ t ≤ now).entries.flatMap Prod.snd ↔
      ∃ t, (s.event e).timer = some t ∧ t ≤ now := by
    intro e
    have hbucket : ∀ t, (∃ l, (t, l) ∈ s.table.entries ∧ e ∈ l) ↔
        (s.event e).timer = some t := fun t ↦ OrdMap.mem_bucket.symm.trans (h.table t e)
    simp only [List.mem_flatMap, OrdMap.filter, List.mem_filter, decide_eq_true_eq, Prod.exists]
    constructor
    · rintro ⟨t, l, ⟨hl, ht⟩, he⟩
      exact ⟨t, (hbucket t).mp ⟨l, hl, he⟩, ht⟩
    · rintro ⟨t, htimer, ht⟩
      obtain ⟨l, hl, he⟩ := (hbucket t).mpr htimer
      exact ⟨t, l, ⟨hl, ht⟩, he⟩
  have hset : ∀ e t, (s.event e).timer = some t → (s.event e).isSet := by
    intro e t ht
    rw [EventState.timer] at ht
    split at ht
    · assumption
    · cases ht
  have hsignal : ∀ e, (ev e).signal = (s.event e).signal :=
    field_queued (g := fun v ↦ { v with isSet := false }) EventState.signal
      (fun v ↦ EventState.enqueued_signal _) hev
  rw [collectTimed]
  rw [heq] at hhalf ⊢
  refine ⟨⟨hhalf.usr, hhalf.queues, (h.table.filterKeys fun t ↦ !decide (t ≤ now)).congr
    fun e ↦ ?_, h.handlers.congr hsignal, hhalf.epoll⟩, fun e ↦ ?_, fun e _ _ _ ↦ ?_,
    fun e he ↦ .inl he, fun e he ↦ he⟩
  · -- the timers left in the table are those that were not due
    dsimp only
    rw [hev e]
    split
    · rename_i hmem
      obtain ⟨t, htimer, ht⟩ := (hdue e).mp hmem
      have hnone : EventState.timer { s.event e with isSet := false } = none := rfl
      rw [EventState.enqueued_timer, hnone, htimer]
      simp [Option.filter, ht]
    · rename_i hmem
      cases htimer : (s.event e).timer with
      | none => rfl
      | some t =>
        have ht : ¬ t ≤ now := fun ht ↦ hmem ((hdue e).mpr ⟨t, htimer, ht⟩)
        simp [Option.filter, ht]
  · dsimp only
    rw [hev e]
    split
    · rename_i hmem
      obtain ⟨t, htimer, -⟩ := (hdue e).mp hmem
      exact moves_enqueued rfl (h.usr e) rfl rfl (.inr (hset e t htimer)) (.inl rfl)
    · exact Moves.refl _
  · dsimp only
    rw [hev e]
    split
    · rename_i hmem
      obtain ⟨t, htimer, -⟩ := (hdue e).mp hmem
      exact .inr ⟨hset e t htimer, rfl⟩
    · exact .inl rfl

/-- Idle events. -/
theorem stage_collectIdle (h : s.WF) : Stage s s.collectIdle := by
  obtain ⟨ev, q, heq, hhalf, hev⟩ := queueAll_spec clears_id s.idleness h.half
  rw [collectIdle, heq] at *
  refine ⟨⟨hhalf.usr, hhalf.queues,
    h.table.congr (field_queued EventState.timer EventState.enqueued_timer hev),
    h.handlers.congr (field_queued EventState.signal EventState.enqueued_signal hev), hhalf.epoll⟩,
    fun e ↦ ?_, fun e _ _ hidle ↦ .inl ?_, fun e he ↦ .inr ?_, fun e he ↦ by cases he⟩
  · dsimp only
    rw [hev e]
    split
    · exact moves_enqueued rfl (h.usr e) rfl rfl (.inl ⟨rfl, rfl⟩) (.inl rfl)
    · exact Moves.refl _
  · exact (hev e).trans (if_neg hidle)
  · dsimp only
    rw [hev e, if_pos he]
    exact enqueued_appl (h.usr e)

/-- A signal. -/
theorem stage_readSignal (h : s.WF) (signo : Nat) : Stage s (s.readSignal signo) := by
  rw [readSignal]
  split
  · exact Stage.refl h
  · rename_i es hes
    have hmem : ∀ e, e ∈ es ↔ (s.event e).signal = some signo := by
      intro e
      rw [← h.handlers signo e, OrdMap.bucket, hes]
      rfl
    have hzero : ∀ e ∈ es, (s.event e).signo ≠ 0 := by
      intro e he hz
      have hsig := (hmem e).mp he
      rw [EventState.signal, if_pos hz] at hsig
      cases hsig
    obtain ⟨ev, q, heq, hhalf, hev⟩ := queueAll_spec clears_signo es h.half
    rw [heq] at hhalf
    dsimp only
    rw [heq]
    have htimer : ∀ e, (ev e).timer = (s.event e).timer :=
      field_queued (g := fun v ↦ { v with signo := 0 }) EventState.timer
        (fun v ↦ EventState.enqueued_timer _) hev
    have hwf : WF { s with
        event := ev
        queues := q
        signalHandlers := s.signalHandlers.erase signo } := by
      refine ⟨hhalf.usr, hhalf.queues, h.table.congr htimer,
        (h.handlers.eraseKey signo).congr fun e ↦ ?_, hhalf.epoll⟩
      · dsimp only
        rw [hev e]
        by_cases he : e ∈ es
        · rw [if_pos he, if_pos ((hmem e).mp he), EventState.enqueued_signal]
          rfl
        · rw [if_neg he, if_neg (fun hsig ↦ he ((hmem e).mpr hsig))]
    obtain ⟨m, w, hupdate, -⟩ := updateSignal_eq { s with
      event := ev
      queues := q
      signalHandlers := s.signalHandlers.erase signo } signo
    refine ⟨hwf.updateSignal signo, fun e ↦ ?_, fun e he _ _ ↦ .inl ?_, fun e he ↦ .inl ?_,
      fun e he ↦ ?_⟩
    · rw [updateSignal_event]
      dsimp only
      rw [hev e]
      split
      · exact moves_enqueued rfl (h.usr e) rfl rfl (.inl ⟨rfl, rfl⟩) (.inr rfl)
      · exact Moves.refl _
    · rw [updateSignal_event]
      dsimp only
      rw [hev e, if_neg fun hmem ↦ hzero e hmem he]
    · rw [hupdate]
      exact he
    · rw [hupdate] at he
      exact he

/-- A descriptor. -/
theorem stage_descriptor (h : s.WF) {events : Mask} (hs : s.descrUpdate e events = .ok s') :
    Stage s (s'.enqueue e) := by
  have hwf := h.descrUpdate hs
  obtain ⟨fd, hfd, rfl⟩ := descrUpdate_ok hs
  refine ⟨hwf.enqueue e, fun e' ↦ ?_, fun e' _ he' _ ↦ .inl ?_, fun e' he' ↦ .inl ?_,
    fun e' he' ↦ ?_⟩
  · rw [enqueue_event]
    by_cases he : e' = e
    · subst he
      rw [Function.update_self]
      show Moves _ (EventState.enqueued (Function.update s.event e' _ e'))
      rw [Function.update_self]
      exact moves_enqueued rfl (h.usr e') rfl rfl (.inl ⟨rfl, rfl⟩) (.inl rfl)
    · rw [Function.update_of_ne he]
      show Moves _ (Function.update s.event e _ e')
      rw [Function.update_of_ne he]
      exact Moves.refl _
  · have he : e' ≠ e := by
      rintro rfl
      rw [he'] at hfd
      cases hfd
    rw [enqueue_event, Function.update_of_ne he]
    exact Function.update_of_ne he ..
  · rw [enqueue_idleness]
    exact he'
  · rw [enqueue_idleness] at he'
    exact he'

/-- A signal is only read for those that are set for it, and these are queued. -/
theorem readSignal_queued (h : s.WF) {signo : Nat} (hsigno : signo ≠ 0)
    (he : (s.event e).signo = signo) : ((s.readSignal signo).event e).prioAppl ≠ 0 := by
  have hempty : (s.readSignal signo).signalHandlers.bucket signo = [] := by
    have herase : ∀ m : OrdMap Nat (List E), (m.erase signo).bucket signo = [] := by
      intro m
      rw [OrdMap.bucket, OrdMap.get?_erase_self]
      rfl
    rw [readSignal]
    split
    · rename_i hnone
      rw [OrdMap.bucket, hnone]
      rfl
    · dsimp only
      rw [updateSignal]
      dsimp only
      split
      · exact herase _
      · exact herase _
  have hstage := stage_readSignal h signo
  rcases (hstage.moves e).signal with hsame | ⟨-, hq⟩
  · have hmem : e ∈ (s.readSignal signo).signalHandlers.bucket signo := by
      refine (hstage.wf.handlers signo e).mpr ?_
      show EventState.signal _ = _
      rw [EventState.signal, hsame, he, if_neg hsigno]
    rw [hempty] at hmem
    cases hmem
  · exact hq

theorem stage_readReady (h : s.WF) {r : Ready E} (hs : s.readReady r = .ok s') : Stage s s' := by
  cases r with
  | signals signos =>
    cases hs
    induction signos generalizing s with
    | nil => exact Stage.refl h
    | cons signo signos ih =>
      have hfirst := stage_readSignal h signo
      exact hfirst.trans (ih hfirst.wf)
  | descriptor e events =>
    obtain ⟨t, hd, rfl⟩ := map_ok hs
    exact stage_descriptor h hd

theorem stage_readAll {l : List (Ready E)} (h : s.WF) (hs : s.readAll l = .ok s') :
    Stage s s' := by
  induction l generalizing s with
  | nil =>
    cases hs
    exact Stage.refl h
  | cons r l ih =>
    rw [readAll] at hs
    split at hs
    · cases hs
    · have hfirst := stage_readReady h ‹_›
      exact hfirst.trans (ih hfirst.wf hs)

theorem collect_ok {now : TimePoint} {ready : List (Ready E)}
    (hs : s.collect now ready = .ok s') :
    ∃ t, s.readAll ready = .ok t ∧ s' = (t.collectTimed now).collectIdle := by
  obtain ⟨t, hr, rfl⟩ := map_ok hs
  exact ⟨t, hr, rfl⟩

/-- **What a poll collects**: events stay what they were, or are queued; and what is idle is
queued. -/
theorem collect_spec (h : s.WF) {now : TimePoint} {ready : List (Ready E)}
    (hs : s.collect now ready = .ok s') : Stage s s' ∧ s'.idleness = [] := by
  obtain ⟨t, ht, rfl⟩ := collect_ok hs
  have h₁ := stage_readAll h ht
  have h₂ := stage_collectTimed h₁.wf now
  exact ⟨(h₁.trans h₂).trans (stage_collectIdle h₂.wf), rfl⟩

/-- What is set for a signal that the poll reads is queued. -/
theorem collect_queued (h : s.WF) {now : TimePoint} {signo : Nat} {ready : List (Ready E)}
    (hs : s.collect now (.signals [signo] :: ready) = .ok s') (hsigno : signo ≠ 0)
    (he : (s.event e).signo = signo) : (s'.event e).prioAppl ≠ 0 := by
  obtain ⟨t, ht, rfl⟩ := collect_ok hs
  have h₁ := stage_readSignal h signo
  have h₂ := stage_readAll h₁.wf ht
  have h₃ := stage_collectTimed h₂.wf now
  have hmoves := ((h₂.trans h₃).trans (stage_collectIdle h₃.wf)).moves e
  exact hmoves.queued (readSignal_queued h hsigno he)

/-- Nothing is done with an event that is set for no signal. -/
theorem readSignal_unset (h : s.WF) (he : (s.event e).signo = 0) (signo : Nat) :
    (s.readSignal signo).event e = s.event e := by
  rw [readSignal]
  split
  · rfl
  · rename_i es hes
    have hmem : e ∉ es := by
      intro hmem
      have hsignal : (s.event e).signal = some signo := by
        rw [← h.handlers signo e, OrdMap.bucket, hes]
        exact hmem
      rw [EventState.signal, if_pos he] at hsignal
      cases hsignal
    obtain ⟨ev, q, heq, -, hev⟩ := queueAll_spec clears_signo es h.half
    dsimp only
    rw [updateSignal_event, heq]
    exact (hev e).trans (if_neg hmem)

/-- Nothing is done with a timer that is not set. -/
theorem collectTimed_unset (h : s.WF) (he : (s.event e).isSet = false) (now : TimePoint) :
    (s.collectTimed now).event e = s.event e := by
  obtain ⟨ev, q, heq, -, hev⟩ := queueAll_spec clears_isSet
    ((s.table.filter fun t _ ↦ t ≤ now).entries.flatMap Prod.snd) h.half
  rw [collectTimed, heq]
  refine (hev e).trans (if_neg fun hmem ↦ ?_)
  simp only [List.mem_flatMap, OrdMap.filter, List.mem_filter, Prod.exists] at hmem
  obtain ⟨t, l, ⟨hl, -⟩, hel⟩ := hmem
  have htimer := (h.table t e).mp (OrdMap.mem_bucket.mpr ⟨l, hl, hel⟩)
  simp [EventState.timer, he] at htimer

theorem collectIdle_unset (h : s.WF) (he : e ∉ s.idleness) :
    s.collectIdle.event e = s.event e := by
  obtain ⟨ev, q, heq, -, hev⟩ := queueAll_spec clears_id s.idleness h.half
  rw [collectIdle, heq]
  exact (hev e).trans (if_neg he)

/-- What reading a report does to an event. -/
def Ready.reads (e : E) (v : EventState) : Ready E → EventState
  | .signals _ => v
  | .descriptor i events => if e = i then (reported v events).enqueued else v

theorem reads_fields (v : EventState) (r : Ready E) :
    (Ready.reads e v r).signo = v.signo ∧ (Ready.reads e v r).isSet = v.isSet := by
  cases r with
  | signals _ => exact ⟨rfl, rfl⟩
  | descriptor i events =>
    rw [Ready.reads]
    split
    · exact ⟨EventState.enqueued_signo _, EventState.enqueued_isSet _⟩
    · exact ⟨rfl, rfl⟩

theorem foldl_reads_isSet (l : List (Ready E)) (v : EventState) :
    (l.foldl (Ready.reads e) v).isSet = v.isSet := by
  induction l generalizing v with
  | nil => rfl
  | cons r l ih => exact (ih _).trans (reads_fields v r).2

theorem readReady_event (h : s.WF) {r : Ready E} (hs : s.readReady r = .ok s')
    (he : (s.event e).signo = 0) : s'.event e = Ready.reads e (s.event e) r := by
  cases r with
  | signals signos =>
    cases hs
    rw [Ready.reads]
    induction signos generalizing s with
    | nil => rfl
    | cons signo signos ih =>
      have hfirst := readSignal_unset h he signo
      exact (ih (stage_readSignal h signo).wf (by rw [hfirst, he])).trans hfirst
  | descriptor i events =>
    rw [readReady] at hs
    obtain ⟨t, ht, rfl⟩ := map_ok hs
    rw [Ready.reads, enqueue_event, descrUpdate_event ht]
    by_cases hi : e = i
    · subst hi
      simp
    · simp [hi]

theorem readAll_event {l : List (Ready E)} (h : s.WF) (hs : s.readAll l = .ok s')
    (he : (s.event e).signo = 0) : s'.event e = l.foldl (Ready.reads e) (s.event e) := by
  induction l generalizing s with
  | nil => cases hs; rfl
  | cons r l ih =>
    rw [readAll] at hs
    split at hs
    · cases hs
    · rename_i t ht
      have hfirst := readReady_event h ht he
      rw [List.foldl_cons, ← hfirst]
      refine ih (stage_readReady h ht).wf hs ?_
      rw [hfirst, (reads_fields ..).1, he]

/-- **What a poll does to a descriptor event**: it reads the reports. -/
theorem collect_event (h : s.WF) {now : TimePoint} {ready : List (Ready E)}
    (hs : s.collect now ready = .ok s') (hsigno : (s.event e).signo = 0)
    (hset : (s.event e).isSet = false) (hidle : e ∉ s.idleness) :
    s'.event e = ready.foldl (Ready.reads e) (s.event e) := by
  obtain ⟨t, ht, rfl⟩ := collect_ok hs
  have h₁ := stage_readAll h ht
  have h₂ := stage_collectTimed h₁.wf now
  have hread := readAll_event h ht hsigno
  have hset' : (t.event e).isSet = false := by rw [hread, foldl_reads_isSet, hset]
  rw [collectIdle_unset h₂.wf fun hmem ↦ hidle (h₁.idleness e (h₂.idleness e hmem)),
    collectTimed_unset h₁.wf hset', hread]

end Scheduler
end UdpTun
