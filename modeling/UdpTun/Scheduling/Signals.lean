import UdpTun.Scheduling.Lifetimes

/-!
# Signals

A signal that some event is set for appears three times: in the event, as its `signo`; in
`signal_handlers`, as an entry that has the event; and in `watching`, which is what `sigfd` is for.
`Registers` is that these agree.  It is part of no larger invariant, since it survives what the
others do not: an event that is destroyed while it is queued, idle, timed or watched.

The calls on other kinds of event, and the notifications, are `Steady`: they have nothing to do with
signals.  Those on signal events each end with `update_signal`, which puts one signal in order when
the others are (`updateSignal_settled`).

A poll reads the signals one after the other, and may read one twice.  `Follows` is what becomes of
an event meanwhile.  `Arena.signals_registered` has both results, for any run.
-/

set_option autoImplicit false

namespace UdpTun

open Scheduler (Kind)

variable {E : Type} [DecidableEq E]

namespace Scheduler

/-- **The three views of the signals agree.** -/
structure Registers (s : Scheduler E) : Prop where
  watching : ∀ n, n ∈ s.watching ↔ ∃ e, e ∈ s.signalHandlers.bucket n
  nonempty : ∀ n l, s.signalHandlers.get? n = some l → l ≠ []
  signo : ∀ n e, e ∈ s.signalHandlers.bucket n ↔ (s.event e).signo = n ∧ n ≠ 0

/-- An event that says that it is queued is in that queue. -/
structure Listed (s : Scheduler E) : Prop where
  usr : ∀ e, (s.event e).prioUsr ≠ 0
  queued : ∀ e, (s.event e).prioAppl ≠ 0 → e ∈ s.queues.bucket (s.event e).prioAppl

/-- An event waits to be notified. -/
def Waits (s : Scheduler E) (e : E) : Prop :=
  (s.event e).prioAppl ≠ 0 ∧ e ∈ s.queues.bucket (s.event e).prioAppl

variable {s s' s'' : Scheduler E} {e : E}

/-! ## Queues

An event that is destroyed while it is queued stays in its queue.  So all that can be kept of the
queues is one direction: what says that it is queued is there. -/

omit [DecidableEq E] in
theorem listed_init : (init : Scheduler E).Listed := ⟨fun _ ↦ Nat.one_ne_zero, nofun⟩

theorem Listed.modify (h : s.Listed) {f : EventState → EventState}
    (husr : (f (s.event e)).prioUsr ≠ 0)
    (happl : (f (s.event e)).prioAppl ≠ 0 → (f (s.event e)).prioAppl = (s.event e).prioAppl) :
    (s.modify e f).Listed := by
  refine ⟨usr_update h.usr husr, fun e' hq ↦ ?_⟩
  rw [modify_event] at hq ⊢
  by_cases he : e' = e
  · subst he
    rw [Function.update_self] at hq ⊢
    have hsame := happl hq
    rw [hsame] at hq ⊢
    exact h.queued e' hq
  · rw [Function.update_of_ne he] at hq ⊢
    exact h.queued e' hq

/-- The fields of one event change, and the queues do not. -/
theorem Listed.fields (h : s.Listed) {v : EventState} (hqueues : s'.queues = s.queues)
    (hevent : s'.event = Function.update s.event e v)
    (husr : v.prioUsr = (s.event e).prioUsr) (happl : v.prioAppl = (s.event e).prioAppl) :
    s'.Listed := by
  have hmodify : (s.modify e fun _ ↦ v).Listed := h.modify (husr ▸ h.usr e) fun _ ↦ happl
  refine ⟨?_, ?_⟩
  · rw [hevent]
    exact hmodify.usr
  · rw [hevent, hqueues]
    exact hmodify.queued

theorem Listed.enqueue (h : s.Listed) (e : E) : (s.enqueue e).Listed := by
  rw [Scheduler.enqueue]
  split
  · exact h
  · refine ⟨usr_update h.usr (h.usr e), fun e' hq ↦ OrdMap.mem_put.mpr ?_⟩
    rw [modify_event] at hq ⊢
    by_cases he : e' = e
    · subst he
      rw [Function.update_self]
      exact .inl ⟨rfl, rfl⟩
    · rw [Function.update_of_ne he] at hq ⊢
      exact .inr (h.queued e' hq)

/-- Any event may be taken out of a queue if it no longer says that it is queued. -/
theorem Listed.drop (h : s.Listed) (p : Nat) (e : E) :
    ({ s with queues := s.queues.drop p e }.modify e fun v ↦ { v with prioAppl := 0 }).Listed := by
  refine ⟨usr_update h.usr (h.usr e), fun e' hq ↦ ?_⟩
  rw [modify_event] at hq ⊢
  by_cases he : e' = e
  · subst he
    rw [Function.update_self] at hq
    exact absurd rfl hq
  · rw [Function.update_of_ne he] at hq ⊢
    exact OrdMap.mem_drop.mpr ⟨fun heq ↦ he heq.2, h.queued e' hq⟩

theorem Listed.prio (h : s.Listed) {p : Nat} (hs : s.prio e p = .ok s') : s'.Listed := by
  rw [Scheduler.prio] at hs
  split at hs
  · cases hs
  rename_i hp
  dsimp only at hs
  split at hs
  · cases hs
    refine Listed.modify (Listed.mk (usr_update h.usr ?_) fun e' hq ↦ OrdMap.mem_put.mpr ?_) hp
      fun _ ↦ rfl
    · exact h.usr e
    rw [modify_event] at hq ⊢
    by_cases he : e' = e
    · subst he
      rw [Function.update_self]
      exact .inl ⟨rfl, rfl⟩
    · rw [Function.update_of_ne he] at hq ⊢
      exact .inr (OrdMap.mem_drop.mpr ⟨fun heq ↦ he heq.2, h.queued e' hq⟩)
  · cases hs
    exact h.modify hp fun _ ↦ rfl

/-! ## What has nothing to do with signals

Most calls change neither the signal of an event, nor the handlers, nor what is watched.  They need
one lemma each, and nothing more is shown of them. -/

/-- Nothing that is said of signals changes. -/
structure Steady (s s' : Scheduler E) : Prop where
  handlers : s'.signalHandlers = s.signalHandlers
  watching : s'.watching = s.watching
  signo : ∀ e, (s'.event e).signo = (s.event e).signo
  listed : s.Listed → s'.Listed

omit [DecidableEq E] in
theorem Steady.refl (s : Scheduler E) : Steady s s := ⟨rfl, rfl, fun _ ↦ rfl, id⟩

omit [DecidableEq E] in
theorem Steady.trans (h : Steady s s') (h' : Steady s' s'') : Steady s s'' :=
  ⟨h'.handlers.trans h.handlers, h'.watching.trans h.watching,
    fun e ↦ (h'.signo e).trans (h.signo e), fun hl ↦ h'.listed (h.listed hl)⟩

omit [DecidableEq E] in
theorem Registers.congr (h : s.Registers) (hhandlers : s'.signalHandlers = s.signalHandlers)
    (hwatching : s'.watching = s.watching) (hsigno : ∀ e, (s'.event e).signo = (s.event e).signo) :
    s'.Registers := by
  refine ⟨?_, ?_, ?_⟩
  · rw [hwatching, hhandlers]
    exact h.watching
  · rw [hhandlers]
    exact h.nonempty
  · intro n e
    rw [hhandlers, hsigno]
    exact h.signo n e

omit [DecidableEq E] in
theorem Steady.registers (h : Steady s s') (hr : s.Registers) : s'.Registers :=
  hr.congr h.handlers h.watching h.signo

/-- The fields of one event change. -/
theorem steady_update {v : EventState} (hhandlers : s'.signalHandlers = s.signalHandlers)
    (hwatching : s'.watching = s.watching) (hevent : s'.event = Function.update s.event e v)
    (hv : v.signo = (s.event e).signo) (hlisted : s.Listed → s'.Listed) : Steady s s' := by
  refine ⟨hhandlers, hwatching, fun e' ↦ ?_, hlisted⟩
  rw [hevent]
  by_cases he : e' = e
  · rw [he, Function.update_self, hv]
  · rw [Function.update_of_ne he]

/-- And the queues do not. -/
theorem steady_fields {v : EventState} (hhandlers : s'.signalHandlers = s.signalHandlers)
    (hwatching : s'.watching = s.watching) (hqueues : s'.queues = s.queues)
    (hevent : s'.event = Function.update s.event e v) (hsigno : v.signo = (s.event e).signo)
    (husr : v.prioUsr = (s.event e).prioUsr) (happl : v.prioAppl = (s.event e).prioAppl) :
    Steady s s' :=
  steady_update hhandlers hwatching hevent hsigno fun h ↦ h.fields hqueues hevent husr happl

theorem steady_enqueue (s : Scheduler E) (e : E) : Steady s (s.enqueue e) := by
  refine steady_update ?_ ?_ (enqueue_event s e) (s.event e).enqueued_signo fun h ↦ h.enqueue e
  all_goals
    rw [enqueue]
    split <;> rfl

theorem steady_take (s : Scheduler E) (p : Nat) (e : E) : Steady s (s.take p e) :=
  steady_update rfl rfl (take_event s p e) rfl fun h ↦ h.drop p e

theorem steady_dequeue (s : Scheduler E) (e : E) : Steady s (s.dequeue e) := by
  rw [dequeue]
  split
  · exact steady_take s (s.event e).prioAppl e
  · exact .refl s

theorem steady_prio {p : Nat} (h : s.prio e p = .ok s') : Steady s s' := by
  have hframe : s'.signalHandlers = s.signalHandlers ∧ s'.watching = s.watching := by
    rw [prio] at h
    split at h
    · cases h
    · cases h
      constructor
      all_goals
        dsimp only [modify]
        split <;> rfl
  exact steady_update hframe.1 hframe.2 (prio_ok h).2 rfl fun hl ↦ hl.prio h

theorem steady_idleSet (s : Scheduler E) (e : E) : Steady s (s.idleSet e) :=
  (⟨rfl, rfl, fun _ ↦ rfl, fun h ↦ ⟨h.usr, h.queued⟩⟩ :
    Steady s { s with idleness := s.idleness.insert e }).trans (steady_dequeue _ e)

theorem steady_idleCancel (s : Scheduler E) (e : E) : Steady s (s.idleCancel e) :=
  (⟨rfl, rfl, fun _ ↦ rfl, fun h ↦ ⟨h.usr, h.queued⟩⟩ :
    Steady s { s with idleness := s.idleness.filter (· ≠ e) }).trans (steady_dequeue _ e)

theorem steady_timedSet (s : Scheduler E) (e : E) (when' : TimePoint) :
    Steady s (s.timedSet e when') := by
  rw [timedSet]
  split
  · exact .refl s
  · dsimp only
    split
    all_goals exact steady_fields rfl rfl rfl rfl rfl rfl rfl

theorem steady_timedCancel (s : Scheduler E) (e : E) : Steady s (s.timedCancel e) := by
  rw [timedCancel]
  split
  · exact (steady_dequeue s e).trans (steady_fields rfl rfl rfl rfl rfl rfl rfl)
  · exact steady_dequeue s e

theorem steady_descrSet {fd : Nat} {events : Mask} (h : s.descrSet e fd events = .ok s') :
    Steady s s' := by
  obtain ⟨-, rfl⟩ := descrSet_ok h
  refine Steady.trans ?_ (steady_dequeue _ e)
  exact steady_fields rfl rfl rfl rfl rfl rfl rfl

theorem steady_descrCancel (h : s.descrCancel e = .ok s') : Steady s s' := by
  obtain rfl := descrCancel_ok h
  refine Steady.trans ?_ (steady_dequeue _ e)
  exact steady_fields rfl rfl rfl rfl rfl rfl rfl

theorem steady_descrUpdate {events : Mask} (h : s.descrUpdate e events = .ok s') :
    Steady s s' := by
  obtain ⟨fd, -, rfl⟩ := descrUpdate_ok h
  exact steady_fields rfl rfl rfl rfl rfl rfl rfl

/-! ## Signal events

`reset` and `set` change one entry of the handlers and then settle its signal.  All other signals
stay as they were. -/

/-- A signal is watched exactly when there are handlers, and its entry is not empty. -/
structure Settled (s : Scheduler E) (n : Nat) : Prop where
  watching : n ∈ s.watching ↔ s.signalHandlers.bucket n ≠ []
  nonempty : s.signalHandlers.get? n ≠ some []

omit [DecidableEq E] in
theorem Settled.congr {n : Nat} (h : s.Settled n) (hwatching : n ∈ s'.watching ↔ n ∈ s.watching)
    (hget : s'.signalHandlers.get? n = s.signalHandlers.get? n) : s'.Settled n := by
  refine ⟨?_, ?_⟩
  · rw [hwatching, OrdMap.bucket, hget]
    exact h.watching
  · rw [hget]
    exact h.nonempty

theorem EventState.signal_eq_some {v : EventState} {n : Nat} :
    v.signal = some n ↔ v.signo = n ∧ n ≠ 0 := by
  rw [EventState.signal]
  split
  · simp_all
  · simp_all
    omega

omit [DecidableEq E] in
theorem registers_iff : s.Registers ↔
    (∀ n, s.Settled n) ∧ s.signalHandlers.Indexes fun e ↦ (s.event e).signal := by
  have hbucket : ∀ n, (∃ e, e ∈ s.signalHandlers.bucket n) ↔ s.signalHandlers.bucket n ≠ [] :=
    fun n ↦ ⟨fun ⟨_, he⟩ ↦ List.ne_nil_of_mem he, List.exists_mem_of_ne_nil _⟩
  constructor
  · intro h
    refine ⟨fun n ↦ ⟨(h.watching n).trans (hbucket n), fun hnil ↦ h.nonempty n _ hnil rfl⟩,
      fun n e ↦ ?_⟩
    exact (h.signo n e).trans EventState.signal_eq_some.symm
  · rintro ⟨hsettled, hindexes⟩
    refine ⟨fun n ↦ (hsettled n).watching.trans (hbucket n).symm, fun n l hl hnil ↦ ?_,
      fun n e ↦ (hindexes n e).trans EventState.signal_eq_some⟩
    subst hnil
    exact (hsettled n).nonempty hl

omit [DecidableEq E] in
theorem registers_init : (init : Scheduler E).Registers :=
  registers_iff.mpr ⟨fun _ ↦ ⟨by simp [init, OrdMap.bucket], nofun⟩, OrdMap.indexes_empty⟩

omit [DecidableEq E] in
/-- **`update_signal` puts one signal in order.** -/
theorem updateSignal_settled {signo : Nat} (h : ∀ n, n ≠ signo → s.Settled n) (n : Nat) :
    (s.updateSignal signo).Settled n := by
  rw [updateSignal]
  cases hstate : (s.signalHandlers.bucket signo).isEmpty with
  | false =>
    simp only [Bool.not_false, if_true]
    by_cases hn : n = signo
    · subst hn
      rw [List.isEmpty_eq_false_iff] at hstate
      exact ⟨by simp [hstate], fun hnil ↦ hstate (by rw [OrdMap.bucket, hnil]; rfl)⟩
    · exact (h n hn).congr (by simp [hn]) rfl
  | true =>
    simp only [Bool.not_true, Bool.false_eq_true, if_false]
    by_cases hn : n = signo
    · subst hn
      exact ⟨by simp [OrdMap.bucket], by simp⟩
    · exact (h n hn).congr (by simp [hn]) (OrdMap.get?_erase_of_ne _ hn)

theorem Settled.modify {n : Nat} (h : s.Settled n) {f : EventState → EventState} :
    (s.modify e f).Settled n := ⟨h.watching, h.nonempty⟩

theorem sigReset_settled (h : ∀ n, s.Settled n) (e : E) (n : Nat) : (s.sigReset e).Settled n := by
  rw [sigReset]
  apply updateSignal_settled
  intro n hn
  refine (h n).congr Iff.rfl ?_
  rw [OrdMap.drop, OrdMap.get?_modify, if_neg hn]

theorem sigReset_indexes (h : s.signalHandlers.Indexes fun e ↦ (s.event e).signal) (e : E) :
    (s.sigReset e).signalHandlers.Indexes
      (Function.update (fun e ↦ (s.event e).signal) e none) := by
  obtain ⟨m, w, heq, hm⟩ := updateSignal_eq
    { s with signalHandlers := s.signalHandlers.drop (s.event e).signo e } (s.event e).signo
  rw [sigReset, heq]
  exact hm _ (h.drop fun _ ↦ EventState.signal_le)

/-- The event has left its signal, and says so. -/
theorem Registers.sigReset (h : s.Registers) {v : EventState} (hv : v.signo = 0) :
    ((s.sigReset e).modify e fun _ ↦ v).Registers := by
  obtain ⟨hsettled, hindexes⟩ := registers_iff.mp h
  refine registers_iff.mpr ⟨fun n ↦ (sigReset_settled hsettled e n).modify, ?_⟩
  rw [modify_event, sigReset_event, OrdMap.field_update, EventState.signal, if_pos hv]
  exact sigReset_indexes hindexes e

theorem Registers.sigCancel (h : s.Registers) (e : E) : (s.sigCancel e).Registers := by
  rw [Scheduler.sigCancel]
  split
  · exact h
  · exact h.sigReset (v := { (s.sigReset e).event e with signo := 0 }) rfl

theorem Registers.sigSet (h : s.Registers) (e : E) (signo : Nat) :
    (s.sigSet e signo).Registers := by
  by_cases hsigno : signo = 0
  · rw [hsigno, sigSet_zero]
    exact h.sigCancel e
  obtain ⟨hsettled, hindexes⟩ := registers_iff.mp h
  rw [Scheduler.sigSet]
  dsimp only
  rw [if_neg hsigno]
  split
  · exact h
  -- the event is in no entry, perhaps after leaving one
  obtain ⟨t, ht, htsettled, htindexes, htevent⟩ : ∃ t : Scheduler E,
      (if (s.event e).signo ≠ 0 then s.sigReset e else s) = t ∧ (∀ n, t.Settled n) ∧
      t.signalHandlers.Indexes (Function.update (fun e ↦ (s.event e).signal) e none) ∧
      t.event = s.event := by
    refine ⟨_, rfl, ?_⟩
    split
    · exact ⟨sigReset_settled hsettled e, sigReset_indexes hindexes e, sigReset_event s e⟩
    · rename_i hzero
      rw [not_not] at hzero
      have hnone : (s.event e).signal = none := if_pos hzero
      refine ⟨hsettled, ?_, rfl⟩
      rw [← hnone, Function.update_eq_self]
      exact hindexes
  rw [ht]
  refine registers_iff.mpr ⟨?_, ?_⟩
  · apply updateSignal_settled
    intro n hn
    exact (htsettled n).congr Iff.rfl ((OrdMap.get?_modify ..).trans (if_neg hn))
  · obtain ⟨m, w, heq, hm⟩ := updateSignal_eq
      ({ t with signalHandlers := t.signalHandlers.put signo e }.modify e fun v ↦ { v with signo })
      signo
    have hput := htindexes.put (k := signo) (e := e) (by simp)
    rw [heq]
    rw [Function.update_idem] at hput
    refine hm _ ?_
    rw [modify_event, htevent, OrdMap.field_update, EventState.signal, if_neg hsigno]
    exact hput

/-- The destructor only takes the event out if it is a `SignalEvent`. -/
theorem Registers.destroy (h : s.Registers) {k : Kind}
    (hk : (s.event e).signo ≠ 0 → k = .signal) :
    ((s.destroy e k).modify e fun _ ↦ {}).Registers := by
  rw [Scheduler.destroy]
  split
  · exact h.sigReset rfl
  · rename_i hnot
    have hzero : (s.event e).signo = 0 := by
      by_contra hne
      exact hnot ⟨hk hne, hne⟩
    refine h.congr rfl rfl fun e' ↦ ?_
    rw [modify_event]
    by_cases he : e' = e
    · rw [he, Function.update_self, hzero]
    · rw [Function.update_of_ne he]

/-! ### What they leave alone

Nor do the calls on signal events have anything to do with the queues. -/

omit [DecidableEq E] in
@[simp] theorem updateSignal_queues (s : Scheduler E) (signo : Nat) :
    (s.updateSignal signo).queues = s.queues := by
  rw [updateSignal]
  split <;> rfl

@[simp] theorem sigReset_queues (s : Scheduler E) (e : E) : (s.sigReset e).queues = s.queues :=
  updateSignal_queues ..

@[simp] theorem sigCancel_queues (s : Scheduler E) (e : E) : (s.sigCancel e).queues = s.queues := by
  rw [sigCancel]
  split
  · rfl
  · exact sigReset_queues s e

@[simp] theorem sigSet_queues (s : Scheduler E) (e : E) (signo : Nat) :
    (s.sigSet e signo).queues = s.queues := by
  by_cases hsigno : signo = 0
  · rw [hsigno, sigSet_zero, sigCancel_queues]
  · rw [sigSet]
    dsimp only
    rw [if_neg hsigno]
    split
    · rfl
    · rw [updateSignal_queues]
      dsimp only [modify]
      split
      · exact sigReset_queues s e
      · rfl

@[simp] theorem destroy_queues (s : Scheduler E) (e : E) (k : Kind) :
    (s.destroy e k).queues = s.queues := by
  rw [destroy]
  split
  · exact sigReset_queues s e
  · rfl

theorem Listed.sigCancel (h : s.Listed) (e : E) : (s.sigCancel e).Listed :=
  h.fields (sigCancel_queues s e) (sigCancel_event s e) rfl rfl

theorem Listed.sigSet (h : s.Listed) (e : E) (signo : Nat) : (s.sigSet e signo).Listed :=
  h.fields (sigSet_queues s e signo) (sigSet_event s e signo) rfl rfl

theorem Listed.destroy (h : s.Listed) (e : E) (k : Kind) :
    ((s.destroy e k).modify e fun _ ↦ {}).Listed := by
  refine Listed.modify ⟨?_, ?_⟩ Nat.one_ne_zero fun hq ↦ absurd rfl hq
  · rw [destroy_event]
    exact h.usr
  · rw [destroy_event, destroy_queues]
    exact h.queued

/-! ## Polls

A poll is cut into parts that either have nothing to do with signals or read one signal.  The parts
are composed, and what is said of an event that has left its signal survives the rest of the poll.
-/

/-- What becomes of an event while a poll collects: it stays queued, and if it leaves its signal it
is queued. -/
structure Follows (v v' : EventState) : Prop where
  stays : v.prioAppl ≠ 0 → v'.prioAppl = v.prioAppl
  signo : v'.signo = v.signo ∨ v'.signo = 0 ∧ v'.prioAppl ≠ 0

theorem Follows.refl (v : EventState) : Follows v v := ⟨fun _ ↦ rfl, .inl rfl⟩

theorem Follows.queued {v v' : EventState} (h : Follows v v') (hv : v.prioAppl ≠ 0) :
    v'.prioAppl ≠ 0 := by
  rw [h.stays hv]
  exact hv

theorem Follows.trans {v v' v'' : EventState} (h : Follows v v') (h' : Follows v' v'') :
    Follows v v'' := by
  refine ⟨fun hv ↦ (h'.stays (h.queued hv)).trans (h.stays hv), ?_⟩
  rcases h.signo with hs | ⟨hzero, hq⟩
  · rw [← hs]
    exact h'.signo
  · rcases h'.signo with hs' | hs'
    · exact .inr ⟨hs'.trans hzero, h'.queued hq⟩
    · exact .inr hs'

theorem follows_enqueued {v v' : EventState} (husr : v'.prioUsr ≠ 0)
    (happl : v'.prioAppl = v.prioAppl) (hsigno : v'.signo = v.signo ∨ v'.signo = 0) :
    Follows v v'.enqueued := by
  refine ⟨fun hv ↦ ?_, ?_⟩
  · rw [enqueued_of_queued (by rw [happl]; exact hv), happl]
  · rw [EventState.enqueued_signo]
    exact hsigno.imp_right fun hzero ↦ ⟨hzero, enqueued_appl husr⟩

/-- A part of a poll. -/
structure Reads (s s' : Scheduler E) : Prop where
  registers : s'.Registers
  listed : s'.Listed
  follows : ∀ e, Follows (s.event e) (s'.event e)

omit [DecidableEq E] in
theorem Reads.refl (hr : s.Registers) (hl : s.Listed) : Reads s s := ⟨hr, hl, fun _ ↦ .refl _⟩

omit [DecidableEq E] in
theorem Reads.trans (h : Reads s s') (h' : Reads s' s'') : Reads s s'' :=
  ⟨h'.registers, h'.listed, fun e ↦ (h.follows e).trans (h'.follows e)⟩

omit [DecidableEq E] in
/-- An event that has left a signal does not come back to it. -/
theorem Reads.left {signo : Nat} (h : Reads s s') (hsigno : signo ≠ 0)
    (hleft : ∀ e, (s.event e).signo ≠ signo) (e : E) : (s'.event e).signo ≠ signo := by
  rcases (h.follows e).signo with hs | ⟨hzero, -⟩
  · rw [hs]
    exact hleft e
  · rw [hzero]
    exact hsigno.symm

theorem Listed.queueAll (h : s.Listed) {g : EventState → EventState} (hg : Clears g)
    (es : List E) : (queueAll g es s).Listed := by
  refine queueAll_keeps (I := Listed) (fun t e ht ↦ (ht.modify ?_ fun _ ↦ hg.appl _).enqueue e) es h
  rw [hg.usr]
  exact ht.usr e

/-- Events that were not registered for signals are queued. -/
theorem reads_queueAll (hr : s.Registers) (hl : s.Listed) {g : EventState → EventState}
    (hg : Clears g) (hsigno : ∀ v, (g v).signo = v.signo) (es : List E) :
    Reads s (queueAll g es s) := by
  have hlisted := hl.queueAll hg es
  obtain ⟨ev, q, heq, hev⟩ := queueAll_event hg es hl.usr
  have hsame := field_queued (g := g) EventState.signo
    (fun v ↦ (EventState.enqueued_signo _).trans (hsigno v)) hev
  rw [heq] at hlisted ⊢
  refine ⟨hr.congr rfl rfl hsame, hlisted, fun e ↦ ?_⟩
  dsimp only
  rw [hev e]
  split
  · refine follows_enqueued ?_ (hg.appl _) (.inl (hsigno _))
    rw [hg.usr]
    exact hl.usr e
  · exact .refl _

theorem reads_collectTimed (hr : s.Registers) (hl : s.Listed) (now : TimePoint) :
    Reads s (s.collectTimed now) := by
  obtain ⟨hregisters, hlisted, hfollows⟩ := reads_queueAll hr hl clears_isSet (fun _ ↦ rfl)
    ((s.table.filter fun t _ ↦ t ≤ now).entries.flatMap Prod.snd)
  exact ⟨hregisters.congr rfl rfl fun _ ↦ rfl, ⟨hlisted.usr, hlisted.queued⟩, hfollows⟩

theorem reads_collectIdle (hr : s.Registers) (hl : s.Listed) : Reads s s.collectIdle := by
  obtain ⟨hregisters, hlisted, hfollows⟩ := reads_queueAll hr hl clears_id (fun _ ↦ rfl) s.idleness
  exact ⟨hregisters.congr rfl rfl fun _ ↦ rfl, ⟨hlisted.usr, hlisted.queued⟩, hfollows⟩

theorem reads_descriptor (hr : s.Registers) (hl : s.Listed) {events : Mask}
    (h : s.descrUpdate e events = .ok s') : Reads s (s'.enqueue e) := by
  have hsteady := (steady_descrUpdate h).trans (steady_enqueue s' e)
  refine ⟨hsteady.registers hr, hsteady.listed hl, fun e' ↦ ?_⟩
  rw [enqueue_event, descrUpdate_event h]
  by_cases he : e' = e
  · subst he
    rw [Function.update_self, Function.update_self]
    exact follows_enqueued (hl.usr e') rfl (.inl rfl)
  · rw [Function.update_of_ne he, Function.update_of_ne he]
    exact .refl _

/-- **A signal that is read**: its handlers are queued and leave it, and it is not watched. -/
theorem reads_readSignal (hr : s.Registers) (hl : s.Listed) (signo : Nat) :
    Reads s (s.readSignal signo) ∧ (s.readSignal signo).signalHandlers.get? signo = none := by
  rw [readSignal]
  split
  · exact ⟨.refl hr hl, ‹_›⟩
  · rename_i es hes
    obtain ⟨hsettled, hindexes⟩ := registers_iff.mp hr
    have hmem : ∀ e, e ∈ es ↔ (s.event e).signal = some signo := by
      intro e
      rw [← hindexes signo e, OrdMap.bucket, hes]
      rfl
    have hlisted := hl.queueAll clears_signo es
    obtain ⟨ev, q, heq, hev⟩ := queueAll_event clears_signo es hl.usr
    rw [heq] at hlisted
    dsimp only
    rw [heq]
    have hleft : (s.signalHandlers.erase signo).Indexes fun e ↦ (ev e).signal := by
      refine (hindexes.eraseKey signo).congr fun e ↦ ?_
      rw [hev e]
      by_cases he : e ∈ es
      · rw [if_pos he, if_pos ((hmem e).mp he), EventState.enqueued_signal]
        rfl
      · rw [if_neg he, if_neg fun hsig ↦ he ((hmem e).mpr hsig)]
    let t : Scheduler E := { s with
      event := ev
      queues := q
      signalHandlers := s.signalHandlers.erase signo }
    show Reads s (t.updateSignal signo) ∧ (t.updateSignal signo).signalHandlers.get? signo = none
    obtain ⟨m, w, hupdate, hm⟩ := updateSignal_eq t signo
    have hsettled' : ∀ n, (t.updateSignal signo).Settled n := updateSignal_settled fun n hn ↦
      (hsettled n).congr Iff.rfl (OrdMap.get?_erase_of_ne _ hn)
    rw [hupdate] at hsettled' ⊢
    have hnone : m.bucket signo = [] := by
      refine List.eq_nil_iff_forall_not_mem.mpr fun e he ↦ ?_
      have hmem' := (hleft signo e).mpr ((hm _ hleft signo e).mp he)
      simp [OrdMap.bucket] at hmem'
    refine ⟨⟨registers_iff.mpr ⟨hsettled', hm _ hleft⟩, ⟨hlisted.usr, hlisted.queued⟩,
      fun e ↦ ?_⟩, ?_⟩
    · dsimp only [t]
      rw [hev e]
      split
      · exact follows_enqueued (hl.usr e) rfl (.inr rfl)
      · exact .refl _
    · cases hget : m.get? signo with
      | none => rfl
      | some l =>
        have hl' : l = [] := by simpa [OrdMap.bucket, hget] using hnone
        rw [hl'] at hget
        exact absurd hget (hsettled' signo).nonempty

/-- A batch of signals. -/
theorem reads_signals (hr : s.Registers) (hl : s.Listed) (signos : List Nat) :
    Reads s (signos.foldl readSignal s) ∧ ∀ signo ∈ signos, signo ≠ 0 →
      ∀ e, ((signos.foldl readSignal s).event e).signo ≠ signo := by
  induction signos generalizing s with
  | nil => exact ⟨.refl hr hl, nofun⟩
  | cons n signos ih =>
    obtain ⟨hfirst, hnone⟩ := reads_readSignal hr hl n
    obtain ⟨hrest, hgone⟩ := ih hfirst.registers hfirst.listed
    refine ⟨hfirst.trans hrest, fun signo hmem hsigno ↦ ?_⟩
    rcases List.mem_cons.mp hmem with rfl | hmem
    · refine hrest.left hsigno fun e he ↦ ?_
      have hbucket := (hfirst.registers.signo signo e).mpr ⟨he, hsigno⟩
      simp [OrdMap.bucket, hnone] at hbucket
    · exact hgone signo hmem hsigno

theorem reads_readAll {l : List (Ready E)} (hr : s.Registers) (hl : s.Listed)
    (h : s.readAll l = .ok s') : Reads s s' ∧ ∀ signos, .signals signos ∈ l → ∀ signo ∈ signos,
      signo ≠ 0 → ∀ e, (s'.event e).signo ≠ signo := by
  induction l generalizing s with
  | nil =>
    cases h
    exact ⟨.refl hr hl, nofun⟩
  | cons r l ih =>
    rw [readAll] at h
    split at h
    · cases h
    rename_i t ht
    cases r with
    | signals signos =>
      cases ht
      obtain ⟨hfirst, hgone⟩ := reads_signals hr hl signos
      obtain ⟨hrest, hlater⟩ := ih hfirst.registers hfirst.listed h
      refine ⟨hfirst.trans hrest, fun signos' hmem signo hsignos hsigno ↦ ?_⟩
      rcases List.mem_cons.mp hmem with heq | hmem
      · cases heq
        exact hrest.left hsigno (hgone signo hsignos hsigno)
      · exact hlater signos' hmem signo hsignos hsigno
    | descriptor e events =>
      obtain ⟨u, hu, rfl⟩ := map_ok ht
      have hfirst := reads_descriptor hr hl hu
      obtain ⟨hrest, hlater⟩ := ih hfirst.registers hfirst.listed h
      refine ⟨hfirst.trans hrest, fun signos' hmem ↦ ?_⟩
      rcases List.mem_cons.mp hmem with heq | hmem
      · cases heq
      · exact hlater signos' hmem

theorem reads_collect {now : TimePoint} {ready : List (Ready E)} (hr : s.Registers)
    (hl : s.Listed) (h : s.collect now ready = .ok s') : Reads s s' ∧
      ∀ signos, .signals signos ∈ ready → ∀ signo ∈ signos, signo ≠ 0 →
        ∀ e, (s'.event e).signo ≠ signo := by
  obtain ⟨t, ht, rfl⟩ := collect_ok h
  obtain ⟨hall, hgone⟩ := reads_readAll hr hl ht
  have htimed := reads_collectTimed hall.registers hall.listed now
  have hrest := htimed.trans (reads_collectIdle htimed.registers htimed.listed)
  exact ⟨hall.trans hrest, fun signos hmem signo hsignos hsigno ↦
    hrest.left hsigno (hgone signos hmem signo hsignos hsigno)⟩

end Scheduler

/-! ## Runs

The agreement is kept by every step.  That an event is queued after its signal was read holds of a
whole poll at a time. -/

namespace Arena

variable {a b : Arena E} {e : E}

/-- What a run keeps.  Only signal events have a signal. -/
structure Enrolled (a : Arena E) : Prop where
  registers : a.sched.Registers
  listed : a.sched.Listed
  kinds : ∀ e, (a.sched.event e).signo ≠ 0 → a.alive e = some .signal

omit [DecidableEq E] in
theorem enrolled_init : (init : Arena E).Enrolled :=
  ⟨Scheduler.registers_init, Scheduler.listed_init, fun _ h ↦ absurd rfl h⟩

/-- An event only gets a signal from a call of `SignalEvent::set`. -/
def Unset (a : Arena E) (op : Op E) (b : Arena E) : Prop :=
  ∀ e, (b.sched.event e).signo = (a.sched.event e).signo ∨ (b.sched.event e).signo = 0 ∨
    op = .sigSet e (b.sched.event e).signo

omit [DecidableEq E] in
theorem Enrolled.steady (h : a.Enrolled) {op : Op E} {s : Scheduler E}
    (hs : Scheduler.Steady a.sched s) :
    Enrolled { a with sched := s } ∧ Unset a op { a with sched := s } := by
  refine ⟨⟨hs.registers h.registers, hs.listed h.listed, fun e he ↦ h.kinds e ?_⟩,
    fun e ↦ .inl (hs.signo e)⟩
  rw [← hs.signo e]
  exact he

/-- A call on a signal event. -/
theorem Enrolled.signal (h : a.Enrolled) {op : Op E} {s : Scheduler E} {signo : Nat}
    (hk : a.alive e = some .signal) (hregisters : s.Registers) (hlisted : s.Listed)
    (hevent : s.event = Function.update a.sched.event e { a.sched.event e with signo })
    (hop : signo = 0 ∨ op = .sigSet e signo) :
    Enrolled { a with sched := s } ∧ Unset a op { a with sched := s } := by
  refine ⟨⟨hregisters, hlisted, fun e' he' ↦ ?_⟩, fun e' ↦ ?_⟩
  · dsimp only at he' ⊢
    by_cases hee : e' = e
    · rw [hee, hk]
    · rw [hevent, Function.update_of_ne hee] at he'
      exact h.kinds e' he'
  · dsimp only
    rw [hevent]
    by_cases hee : e' = e
    · rw [hee, Function.update_self]
      exact .inr hop
    · rw [Function.update_of_ne hee]
      exact .inl rfl

theorem Enrolled.construct (h : a.Enrolled) {k : Kind} (hdead : a.alive e = none) :
    Enrolled ⟨a.sched.modify e fun _ ↦ {}, Function.update a.alive e (some k)⟩ := by
  have hzero : (a.sched.event e).signo = 0 := by
    by_contra hne
    exact absurd (hdead.symm.trans (h.kinds e hne)) nofun
  have hsigno : ∀ e', ((a.sched.modify e fun _ ↦ {}).event e').signo =
      (a.sched.event e').signo := by
    intro e'
    rw [Scheduler.modify_event]
    by_cases hee : e' = e
    · rw [hee, Function.update_self, hzero]
    · rw [Function.update_of_ne hee]
  have hlisted : (a.sched.modify e fun _ ↦ {}).Listed :=
    h.listed.modify Nat.one_ne_zero fun hq ↦ absurd rfl hq
  refine ⟨h.registers.congr rfl rfl hsigno, hlisted, fun e' he' ↦ ?_⟩
  dsimp only at he' ⊢
  rw [hsigno] at he'
  have hne : e' ≠ e := by
    rintro rfl
    exact he' hzero
  rw [Function.update_of_ne hne]
  exact h.kinds e' he'

theorem Enrolled.destroy (h : a.Enrolled) {k : Kind} (hk : a.alive e = some k) :
    Enrolled ⟨(a.sched.destroy e k).modify e fun _ ↦ {}, Function.update a.alive e none⟩ := by
  have hkind : (a.sched.event e).signo ≠ 0 → k = .signal := fun hne ↦
    Option.some.inj (hk.symm.trans (h.kinds e hne))
  refine ⟨h.registers.destroy hkind, h.listed.destroy e k, fun e' he' ↦ ?_⟩
  dsimp only at he' ⊢
  rw [Scheduler.modify_event, Scheduler.destroy_event] at he'
  have hne : e' ≠ e := by
    rintro rfl
    rw [Function.update_self] at he'
    exact he' rfl
  rw [Function.update_of_ne hne] at he' ⊢
  exact h.kinds e' he'

/-- An event that is made or destroyed has no signal then. -/
theorem unset_reset {op : Op E} {k : Option Kind} {s : Scheduler E}
    (hevent : s.event = a.sched.event) :
    Unset a op ⟨s.modify e fun _ ↦ {}, Function.update a.alive e k⟩ := by
  intro e'
  dsimp only
  rw [Scheduler.modify_event, hevent]
  by_cases hee : e' = e
  · rw [hee, Function.update_self]
    exact .inr (.inl rfl)
  · rw [Function.update_of_ne hee]
    exact .inl rfl

/-- **Every step** keeps it, whatever is destroyed. -/
theorem Enrolled.step (h : a.Enrolled) {op : Op E} (hb : a.step op = .ok b) :
    b.Enrolled ∧ Unset a op b := by
  cases effect hb with
  | construct hdead => exact ⟨h.construct hdead, unset_reset rfl⟩
  | destroy hk => exact ⟨h.destroy hk, unset_reset (Scheduler.destroy_event ..)⟩
  | prio _ hs => exact h.steady (Scheduler.steady_prio hs)
  | idleSet _ => exact h.steady (Scheduler.steady_idleSet ..)
  | idleCancel _ => exact h.steady (Scheduler.steady_idleCancel ..)
  | timedSet _ => exact h.steady (Scheduler.steady_timedSet ..)
  | timedCancel _ => exact h.steady (Scheduler.steady_timedCancel ..)
  | descrSet _ hs => exact h.steady (Scheduler.steady_descrSet hs)
  | descrCancel _ hs => exact h.steady (Scheduler.steady_descrCancel hs)
  | sigSet hk =>
    exact h.signal hk (h.registers.sigSet _ _) (h.listed.sigSet _ _) (Scheduler.sigSet_event ..)
      (.inr rfl)
  | sigCancel hk =>
    exact h.signal hk (h.registers.sigCancel _) (h.listed.sigCancel _)
      (Scheduler.sigCancel_event ..) (.inl rfl)
  | collect hs =>
    obtain ⟨hreads, -⟩ := Scheduler.reads_collect h.registers h.listed hs
    refine ⟨⟨hreads.registers, hreads.listed, fun e he ↦ h.kinds e ?_⟩,
      fun e ↦ (hreads.follows e).signo.imp_right fun hzero ↦ .inl hzero.1⟩
    rcases (hreads.follows e).signo with hsame | ⟨hzero, -⟩
    · rwa [← hsame]
    · exact absurd hzero he
  | notNext => exact h.steady (.refl _)
  | notify hmem => exact h.steady (Scheduler.steady_take ..)

/-- No event is set for the signal. -/
def NotSet (signo : Nat) (_ : Arena E) (op : Op E) : Prop := ∀ e, op ≠ .sigSet e signo

/-- A signal that no event is set for stays so until one is. -/
theorem unset_along {signo : Nat} (hsigno : signo ≠ 0) (h : a.Enrolled)
    (hnone : ∀ e, (a.sched.event e).signo ≠ signo) (hrun : Run.Reach step (NotSet signo) a b) :
    b.Enrolled ∧ ∀ e, (b.sched.event e).signo ≠ signo := by
  refine hrun.invariant (I := fun t ↦ t.Enrolled ∧ ∀ e, (t.sched.event e).signo ≠ signo)
    ⟨h, hnone⟩ fun t op u ⟨ht, hunset⟩ hop hu ↦ ?_
  obtain ⟨hu', hsame⟩ := ht.step hu
  refine ⟨hu', fun e he ↦ ?_⟩
  rcases hsame e with hs | hzero | hset
  · exact hunset e (hs.symm.trans he)
  · exact hsigno (he.symm.trans hzero)
  · rw [he] at hset
    exact hop e hset

/-- **Signals.**  In any run, what is watched, what is registered and what the events say agree.
When a poll has read a signal, the events that were registered for it are queued, have left it, and
it is not watched until an event is set for it. -/
theorem signals_registered (h : Run.Reach step Run.anyStep init a) : a.sched.Registers ∧
    ∀ now ready b, a.step (.collect now ready) = .ok b →
    ∀ signos, .signals signos ∈ ready → ∀ signo ∈ signos,
      (∀ e ∈ a.sched.signalHandlers.bucket signo,
        b.sched.Waits e ∧ (b.sched.event e).signo = 0) ∧
      b.sched.signalHandlers.get? signo = none ∧
      ∀ c, Run.Reach step (NotSet signo) b c → signo ∉ c.sched.watching := by
  have henrolled : ∀ {t : Arena E}, Run.Reach step Run.anyStep init t → t.Enrolled := fun ht ↦
    ht.invariant enrolled_init fun _ _ _ h _ hstep ↦ (h.step hstep).1
  have ha := henrolled h
  refine ⟨ha.registers, fun now ready b hb signos hmem signo hsignos ↦ ?_⟩
  obtain ⟨s', hs, rfl⟩ := map_ok hb
  obtain ⟨hreads, hgone⟩ := Scheduler.reads_collect ha.registers ha.listed hs
  refine ⟨fun e he ↦ ?_, ?_, fun c hc hwatching ↦ ?_⟩
  · obtain ⟨hsigno, hne⟩ := (ha.registers.signo signo e).mp he
    rcases (hreads.follows e).signo with hsame | ⟨hzero, hq⟩
    · exact absurd (hsame.trans hsigno) (hgone signos hmem signo hsignos hne e)
    · exact ⟨⟨hq, hreads.listed.queued e hq⟩, hzero⟩
  · cases hget : s'.signalHandlers.get? signo with
    | none => rfl
    | some l =>
      obtain ⟨e, he⟩ := List.exists_mem_of_ne_nil l (hreads.registers.nonempty signo l hget)
      obtain ⟨hsigno, hne⟩ := (hreads.registers.signo signo e).mp (by rwa [OrdMap.bucket, hget])
      exact absurd hsigno (hgone signos hmem signo hsignos hne e)
  · have hc' := henrolled ((h.tail trivial hb).trans (hc.mono fun _ _ _ ↦ trivial))
    obtain ⟨e, he⟩ := (hc'.registers.watching signo).mp hwatching
    obtain ⟨hsigno, hne⟩ := (hc'.registers.signo signo e).mp he
    have hb' := henrolled (h.tail trivial hb)
    exact (unset_along hne hb' (hgone signos hmem signo hsignos hne) hc).2 e hsigno

/-- Two events are set for a signal, one of them after another signal, and it is read twice. -/
theorem signals_registered_two : ∃ a b : Arena Nat, Run.Reach step Run.anyStep init a ∧
    a.step (.collect 5 [.signals [2, 2]]) = .ok b ∧ a.sched.watching = [2] ∧
    b.sched.Waits 0 ∧ b.sched.Waits 1 ∧ 2 ∉ b.sched.watching := by
  obtain ⟨a, b, ha, hb, hwatching, h0, h1⟩ : ∃ a b : Arena Nat, Run.exec step init
      [.construct 0 .signal, .construct 1 .signal, .sigSet 0 2, .sigSet 1 3, .sigSet 1 2] = .ok a ∧
      a.step (.collect 5 [.signals [2, 2]]) = .ok b ∧ a.sched.watching = [2] ∧
      0 ∈ a.sched.signalHandlers.bucket 2 ∧ 1 ∈ a.sched.signalHandlers.bucket 2 :=
    ⟨_, _, rfl, rfl, by decide, by decide, by decide⟩
  have hreach : Run.Reach step Run.anyStep init a := Run.reach_of_exec ha <|
    Run.along_cons rfl trivial <| Run.along_cons rfl trivial <| Run.along_cons rfl trivial <|
    Run.along_cons rfl trivial <| Run.along_cons rfl trivial trivial
  obtain ⟨hqueued, -, hnot⟩ := (signals_registered hreach).2 5 [.signals [2, 2]] b hb [2, 2]
    (List.mem_singleton_self _) 2 (List.mem_cons_self ..)
  exact ⟨a, b, hreach, hb, hwatching, (hqueued 0 h0).1, (hqueued 1 h1).1, hnot b .refl⟩

end Arena
end UdpTun
