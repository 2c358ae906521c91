import UdpTun.Scheduling.Registration
import UdpTun.Lib.Run

/-!
# Lifetimes of events

The scheduler keeps pointers to events, so an event must be in none of its containers once it has
been destroyed.  The destructor of `Event` tries to see to that by calling `cancel()`.  But the
parts of the derived class are gone by then, so the function that is called is `Event::cancel`,
which does nothing.  `SignalEvent` has a destructor of its own, which takes the event out of
`signal_handlers`, though not out of its queue.

An `Arena` is a scheduler with the class of each event that is alive.  An `Op` is any of the calls
that are made on an event, its construction and destruction among them, or a part of a poll; and a
run is any sequence of these.  The destruction of an object that has events, such as a
`ClientTable`, is one of a few `Op`s in a row.

`Arena.referenced_alive` says that all is well in the runs in which an event is only destroyed when
it is not queued and, unless it is a `SignalEvent`, no longer set.  `Arena.destroy_sound_iff` says
what happens in the others.
-/

set_option autoImplicit false

namespace UdpTun

open Scheduler (Kind Inert)

variable {E : Type} [DecidableEq E]

/-- The scheduler, and the events that have been constructed and not yet destroyed. -/
structure Arena (E : Type) where
  sched : Scheduler E
  alive : E → Option Kind

namespace Arena

/-- At the start there is no event. -/
def init : Arena E := ⟨Scheduler.init, fun _ ↦ none⟩

/-- A call on an event, or a part of `Scheduler::poll`. -/
inductive Op (E : Type)
  | construct (e : E) (k : Kind)
  | destroy (e : E)
  | prio (e : E) (p : Nat)
  | idleSet (e : E)
  | idleCancel (e : E)
  | timedSet (e : E) (when' : TimePoint)
  | timedCancel (e : E)
  | descrSet (e : E) (fd : Nat) (events : Mask)
  | descrCancel (e : E)
  | sigSet (e : E) (signo : Nat)
  | sigCancel (e : E)
  /-- Everything up to the first notification. -/
  | collect (now : TimePoint) (ready : List (Ready E))
  /-- One notification.  What the handler does is what follows. -/
  | notify (e : E)

/-- A member function is called, on an object of the class that it is a member of. -/
def call (a : Arena E) (e : E) (k : Kind) (r : Except Halt (Scheduler E)) : Except Halt (Arena E) :=
  if a.alive e = some k then r.map fun s ↦ { a with sched := s } else .error .undefined

def step (a : Arena E) : Op E → Except Halt (Arena E)
  | .construct e k =>
    if a.alive e = none then
      .ok ⟨a.sched.modify e fun _ ↦ {}, Function.update a.alive e (some k)⟩
    else .error .undefined
  | .destroy e =>
    match a.alive e with
    | none => .error .undefined
    | some k => .ok ⟨(a.sched.destroy e k).modify e fun _ ↦ {}, Function.update a.alive e none⟩
  | .prio e p =>
    match a.alive e with
    | none => .error .undefined
    | some k => a.call e k (a.sched.prio e p)
  | .idleSet e => a.call e .idle (.ok (a.sched.idleSet e))
  | .idleCancel e => a.call e .idle (.ok (a.sched.idleCancel e))
  | .timedSet e when' => a.call e .timed (.ok (a.sched.timedSet e when'))
  | .timedCancel e => a.call e .timed (.ok (a.sched.timedCancel e))
  | .descrSet e fd events => a.call e .descriptor (a.sched.descrSet e fd events)
  | .descrCancel e => a.call e .descriptor (a.sched.descrCancel e)
  | .sigSet e signo => a.call e .signal (.ok (a.sched.sigSet e signo))
  | .sigCancel e => a.call e .signal (.ok (a.sched.sigCancel e))
  | .collect now ready => (a.sched.collect now ready).map fun s ↦ { a with sched := s }
  | .notify e =>
    match a.sched.lowest with
    | none => .ok a
    | some p =>
      if e ∈ a.sched.queues.bucket p then .ok { a with sched := a.sched.take p e } else .ok a

/-! ## Objects that have events

How a class of the daemon looks from here: its constructor and its destructor are sequences of
operations on the events that are its members. -/

/-- The members of an object are destroyed, the last one first. -/
def members (es : List E) : List (Op E) := es.map .destroy

/-- The events of `ClientTable`: the constructor sets the timer. -/
def clientTableCtor (purgeEvent : E) (lastPurge purgePeriod : TimePoint) : List (Op E) :=
  [.construct purgeEvent .timed, .timedSet purgeEvent (lastPurge + purgePeriod)]

/-- `~ClientTable` only writes the table to a file. -/
def clientTableDtor (purgeEvent : E) : List (Op E) := members [purgeEvent]

/-- `TCPEgress` has no destructor of its own. -/
def tcpEgressDtor (idev flusher : E) : List (Op E) := members [flusher, idev]

/-- `~Listener`. -/
def listenerDtor (fdev rbev : E) (sock : Option Nat) : List (Op E) :=
  (if sock.isSome then [.descrCancel fdev] else []) ++ members [rbev, fdev]

/-- `~Channel` does nothing.  One of its events is in `user`, a member of its queue, as a copy. -/
def channelDtor (queueEvent user : E) : List (Op E) := members [user, queueEvent]

/-! ## What must not happen

A pointer in a container to an event that is gone.  Next to it is what a caller of a destructor has
to see to. -/

/-- The scheduler has the event in one of its containers. -/
def Referenced (a : Arena E) (e : E) : Prop :=
  (∃ t, e ∈ a.sched.table.bucket t) ∨ e ∈ a.sched.idleness ∨
    (∃ signo, e ∈ a.sched.signalHandlers.bucket signo) ∨ ∃ p, e ∈ a.sched.queues.bucket p

/-- The `operator bool` of an event. -/
def IsSet (s : Scheduler E) (e : E) : Kind → Prop
  | .idle => e ∈ s.idleness
  | .timed => (s.event e).isSet
  | .descriptor => (s.event e).fd ≠ none
  | .signal => (s.event e).signo ≠ 0

/-- An event is destroyed while it is not queued, nor set, unless it is a `SignalEvent`. -/
def Finished (a : Arena E) : Op E → Prop
  | .destroy e => (a.sched.event e).prioAppl = 0 ∧
      ∀ k, a.alive e = some k → k ≠ .signal → ¬ IsSet a.sched e k
  | _ => True

/-! ## The invariant

Events are told apart by class, since each uses the fields of its own class only.  An event that is
not alive has nothing set, and so is found in no container. -/

/-- An event only uses the fields of its own class. -/
structure Fits (k : Kind) (v : EventState) : Prop where
  timed : v.isSet → k = .timed
  signal : v.signo ≠ 0 → k = .signal
  descriptor : v.fd ≠ none → k = .descriptor

/-- Fields and containers agree, and events that are not alive have nothing in them. -/
structure Sound (a : Arena E) : Prop where
  wf : a.sched.WF
  dead : ∀ e, a.alive e = none → Inert (a.sched.event e)
  fits : ∀ e k, a.alive e = some k → Fits k (a.sched.event e)
  idle : ∀ e ∈ a.sched.idleness, a.alive e = some .idle

variable {a b : Arena E} {e : E} {k : Kind}

theorem Fits.of_inert {v : EventState} (h : Inert v) : Fits k v := by
  obtain ⟨-, hset, hsigno, hfd⟩ := h
  exact ⟨by simp [hset], by simp [hsigno], by simp [hfd]⟩

omit [DecidableEq E] in
theorem sound_init : (init : Arena E).Sound :=
  ⟨Scheduler.wf_init, fun _ _ ↦ ⟨rfl, rfl, rfl, rfl⟩, fun _ _ h ↦ (nomatch h),
    fun _ h ↦ (nomatch h)⟩

omit [DecidableEq E] in
/-- What is referenced is not inert, or is idle. -/
theorem Sound.alive_of_referenced (h : a.Sound) (he : a.Referenced e) : a.alive e ≠ none := by
  intro hdead
  obtain ⟨happl, hset, hsigno, -⟩ := h.dead e hdead
  rcases he with ⟨t, he⟩ | he | ⟨signo, he⟩ | ⟨p, he⟩
  · have htimer : (a.sched.event e).timer = some t := (h.wf.table t e).mp he
    rw [EventState.timer, hset] at htimer
    cases htimer
  · rw [h.idle e he] at hdead
    cases hdead
  · have hsignal : (a.sched.event e).signal = some signo := (h.wf.handlers signo e).mp he
    rw [EventState.signal, if_pos hsigno] at hsignal
    cases hsignal
  · have hqueue : (a.sched.event e).queue = some p := (h.wf.queues p e).mp he
    rw [EventState.queue, if_pos happl] at hqueue
    cases hqueue

/-! ### Calls

All calls but those that construct or destroy are of one form: they change one event, in the way
that its class allows. -/

/-- A call changes the event that it is made on, and no other. -/
theorem Sound.touch (h : a.Sound) {s' : Scheduler E} {v : EventState} (hk : a.alive e = some k)
    (hwf : s'.WF) (hev : s'.event = Function.update a.sched.event e v)
    (hidle : ∀ e' ∈ s'.idleness, e' ∈ a.sched.idleness ∨ e' = e ∧ k = .idle) (hv : Fits k v) :
    Sound { a with sched := s' } := by
  refine ⟨hwf, fun e' hdead ↦ ?_, fun e' k' hk' ↦ ?_, fun e' he' ↦ ?_⟩
  · have hne : e' ≠ e := by
      rintro rfl
      exact absurd (hk.symm.trans hdead) nofun
    dsimp only
    rw [hev, Function.update_of_ne hne]
    exact h.dead e' hdead
  · dsimp only
    rw [hev]
    by_cases he : e' = e
    · subst he
      rw [Function.update_self]
      rwa [← Option.some.inj (hk.symm.trans hk')]
    · rw [Function.update_of_ne he]
      exact h.fits e' k' hk'
  · rcases hidle e' he' with he' | ⟨rfl, rfl⟩
    · exact h.idle e' he'
    · exact hk

omit [DecidableEq E] in
theorem call_ok {r : Except Halt (Scheduler E)} (h : a.call e k r = .ok b) :
    a.alive e = some k ∧ ∃ s', r = .ok s' ∧ b = { a with sched := s' } := by
  rw [call] at h
  split at h
  · rename_i hk
    obtain ⟨s', rfl, rfl⟩ := map_ok h
    exact ⟨hk, s', rfl, rfl⟩
  · cases h

/-- What an operation does, if it is defined. -/
inductive Effect (a : Arena E) : Op E → Arena E → Prop
  | construct {e : E} {k : Kind} (hdead : a.alive e = none) : Effect a (.construct e k)
      ⟨a.sched.modify e fun _ ↦ {}, Function.update a.alive e (some k)⟩
  | destroy {e : E} {k : Kind} (hk : a.alive e = some k) : Effect a (.destroy e)
      ⟨(a.sched.destroy e k).modify e fun _ ↦ {}, Function.update a.alive e none⟩
  | prio {e : E} {k : Kind} {p : Nat} {s : Scheduler E} (hk : a.alive e = some k)
      (hs : a.sched.prio e p = .ok s) : Effect a (.prio e p) { a with sched := s }
  | idleSet {e : E} (hk : a.alive e = some .idle) :
      Effect a (.idleSet e) { a with sched := a.sched.idleSet e }
  | idleCancel {e : E} (hk : a.alive e = some .idle) :
      Effect a (.idleCancel e) { a with sched := a.sched.idleCancel e }
  | timedSet {e : E} {when' : TimePoint} (hk : a.alive e = some .timed) :
      Effect a (.timedSet e when') { a with sched := a.sched.timedSet e when' }
  | timedCancel {e : E} (hk : a.alive e = some .timed) :
      Effect a (.timedCancel e) { a with sched := a.sched.timedCancel e }
  | descrSet {e : E} {fd : Nat} {events : Mask} {s : Scheduler E}
      (hk : a.alive e = some .descriptor) (hs : a.sched.descrSet e fd events = .ok s) :
      Effect a (.descrSet e fd events) { a with sched := s }
  | descrCancel {e : E} {s : Scheduler E} (hk : a.alive e = some .descriptor)
      (hs : a.sched.descrCancel e = .ok s) : Effect a (.descrCancel e) { a with sched := s }
  | sigSet {e : E} {signo : Nat} (hk : a.alive e = some .signal) :
      Effect a (.sigSet e signo) { a with sched := a.sched.sigSet e signo }
  | sigCancel {e : E} (hk : a.alive e = some .signal) :
      Effect a (.sigCancel e) { a with sched := a.sched.sigCancel e }
  | collect {now : TimePoint} {ready : List (Ready E)} {s : Scheduler E}
      (hs : a.sched.collect now ready = .ok s) : Effect a (.collect now ready) { a with sched := s }
  | notNext {e : E} : Effect a (.notify e) a
  | notify {e : E} {p : Nat} (hmem : e ∈ a.sched.queues.bucket p) :
      Effect a (.notify e) { a with sched := a.sched.take p e }

theorem effect {op : Op E} (h : a.step op = .ok b) : Effect a op b := by
  cases op with
  | construct e k =>
    rw [step] at h
    split at h
    · cases h
      exact .construct ‹_›
    · cases h
  | destroy e =>
    rw [step] at h
    split at h
    · cases h
    · cases h
      exact .destroy ‹_›
  | prio e p =>
    rw [step] at h
    split at h
    · cases h
    · obtain ⟨hk, s', hs', rfl⟩ := call_ok h
      exact .prio hk hs'
  | idleSet e =>
    obtain ⟨hk, s', hs', rfl⟩ := call_ok h
    exact Except.ok.inj hs' ▸ .idleSet hk
  | idleCancel e =>
    obtain ⟨hk, s', hs', rfl⟩ := call_ok h
    exact Except.ok.inj hs' ▸ .idleCancel hk
  | timedSet e when' =>
    obtain ⟨hk, s', hs', rfl⟩ := call_ok h
    exact Except.ok.inj hs' ▸ .timedSet hk
  | timedCancel e =>
    obtain ⟨hk, s', hs', rfl⟩ := call_ok h
    exact Except.ok.inj hs' ▸ .timedCancel hk
  | descrSet e fd events =>
    obtain ⟨hk, s', hs', rfl⟩ := call_ok h
    exact .descrSet hk hs'
  | descrCancel e =>
    obtain ⟨hk, s', hs', rfl⟩ := call_ok h
    exact .descrCancel hk hs'
  | sigSet e signo =>
    obtain ⟨hk, s', hs', rfl⟩ := call_ok h
    exact Except.ok.inj hs' ▸ .sigSet hk
  | sigCancel e =>
    obtain ⟨hk, s', hs', rfl⟩ := call_ok h
    exact Except.ok.inj hs' ▸ .sigCancel hk
  | collect now ready =>
    obtain ⟨s', hs', rfl⟩ := map_ok h
    exact .collect hs'
  | notify e =>
    rw [step] at h
    split at h
    · cases h
      exact .notNext
    · split at h
      · cases h
        exact .notify ‹_›
      · cases h
        exact .notNext

/-- The fields that `Fits` is about. -/
theorem Fits.congr {v v' : EventState} (h : Fits k v) (hset : v'.isSet → v.isSet ∨ k = .timed)
    (hsigno : v'.signo ≠ 0 → v.signo ≠ 0 ∨ k = .signal)
    (hfd : v'.fd ≠ none → v.fd ≠ none ∨ k = .descriptor) : Fits k v' :=
  ⟨fun hv ↦ (hset hv).elim h.timed id, fun hv ↦ (hsigno hv).elim h.signal id,
    fun hv ↦ (hfd hv).elim h.descriptor id⟩

/-! ### Construction and destruction

Only here does the set of events that are alive change.  An event that is finished leaves no trace
in a container. -/

theorem Sound.construct (h : a.Sound) (hdead : a.alive e = none) :
    Sound ⟨a.sched.modify e fun _ ↦ {}, Function.update a.alive e (some k)⟩ := by
  refine ⟨h.wf.reset (h.dead e hdead), fun e' hdead' ↦ ?_, fun e' k' hk' ↦ ?_, fun e' he' ↦ ?_⟩
  · dsimp only at hdead' ⊢
    by_cases he : e' = e
    · rw [he, Function.update_self] at hdead'
      cases hdead'
    · rw [Function.update_of_ne he] at hdead'
      rw [Scheduler.modify_event, Function.update_of_ne he]
      exact h.dead e' hdead'
  · dsimp only at hk' ⊢
    rw [Scheduler.modify_event]
    by_cases he : e' = e
    · rw [he, Function.update_self]
      exact Fits.of_inert ⟨rfl, rfl, rfl, rfl⟩
    · rw [Function.update_of_ne he] at hk' ⊢
      exact h.fits e' k' hk'
  · have hidle := h.idle e' he'
    have hne : e' ≠ e := by
      rintro rfl
      exact absurd (hdead.symm.trans hidle) nofun
    exact (Function.update_of_ne hne ..).trans hidle

omit [DecidableEq E] in
/-- An event that is finished has nothing set but perhaps its signal. -/
theorem Sound.inert_of_finished (h : a.Sound) (hk : a.alive e = some k)
    (he : a.Finished (.destroy e)) : Inert { a.sched.event e with signo := 0 } := by
  obtain ⟨happl, hset⟩ := he
  have hfits := h.fits e k hk
  refine ⟨happl, ?_, rfl, ?_⟩
  · by_contra hne
    rw [Bool.not_eq_false] at hne
    have hkind := hfits.timed hne
    subst hkind
    exact hset _ hk nofun hne
  · by_contra hne
    have hkind := hfits.descriptor hne
    subst hkind
    exact hset _ hk nofun hne

theorem Sound.destroy (h : a.Sound) (hk : a.alive e = some k) (he : a.Finished (.destroy e)) :
    Sound ⟨(a.sched.destroy e k).modify e fun _ ↦ {}, Function.update a.alive e none⟩ := by
  have hwf := h.wf.destroy (h.inert_of_finished hk he) (h.fits e k hk).signal
  refine ⟨hwf, fun e' hdead' ↦ ?_, fun e' k' hk' ↦ ?_, fun e' he' ↦ ?_⟩
  · dsimp only at hdead' ⊢
    rw [Scheduler.modify_event, Scheduler.destroy_event]
    by_cases he' : e' = e
    · rw [he', Function.update_self]
      exact ⟨rfl, rfl, rfl, rfl⟩
    · rw [Function.update_of_ne he'] at hdead' ⊢
      exact h.dead e' hdead'
  · dsimp only at hk' ⊢
    rw [Scheduler.modify_event, Scheduler.destroy_event]
    by_cases he' : e' = e
    · rw [he', Function.update_self] at hk'
      cases hk'
    · rw [Function.update_of_ne he'] at hk' ⊢
      exact h.fits e' k' hk'
  · have hmem : e' ∈ a.sched.idleness := by
      rw [← Scheduler.destroy_idleness a.sched e k]
      exact he'
    have hidle := h.idle e' hmem
    have hne : e' ≠ e := by
      rintro rfl
      exact he.2 _ hidle nofun hmem
    exact (Function.update_of_ne hne ..).trans hidle

theorem finished_of_ne {e' : E} (hne : e' ≠ e) :
    Finished ⟨(a.sched.destroy e k).modify e fun _ ↦ {}, Function.update a.alive e none⟩
      (.destroy e') ↔ a.Finished (.destroy e') := by
  have hset : ∀ k', IsSet ((a.sched.destroy e k).modify e fun _ ↦ {}) e' k' ↔
      IsSet a.sched e' k' := by
    have hidle : ((a.sched.destroy e k).modify e fun _ ↦ {}).idleness = a.sched.idleness :=
      Scheduler.destroy_idleness ..
    intro k'
    cases k' <;>
      simp only [IsSet, hidle, Scheduler.modify_event, Scheduler.destroy_event,
        Function.update_of_ne hne]
  simp only [Finished, hset, Scheduler.modify_event, Scheduler.destroy_event,
    Function.update_of_ne hne]

/-- **An object is finished when its members are**: destroying one does nothing to another. -/
theorem along_members {es : List E} (hnodup : es.Nodup) (halive : ∀ e ∈ es, a.alive e ≠ none) :
    Run.Along step Finished a (members es) ↔ ∀ e ∈ es, a.Finished (.destroy e) := by
  induction es generalizing a with
  | nil => simp [members, Run.Along]
  | cons e es ih =>
    obtain ⟨hnotin, hnodup⟩ := List.nodup_cons.mp hnodup
    obtain ⟨k, hk⟩ := Option.ne_none_iff_exists'.mp (halive e (List.mem_cons_self ..))
    have hstep : a.step (.destroy e) = .ok ⟨(a.sched.destroy e k).modify e fun _ ↦ {},
        Function.update a.alive e none⟩ := by
      rw [step, hk]
    have hother : ∀ e' ∈ es, e' ≠ e := by
      rintro e' he' rfl
      exact hnotin he'
    have hstill : ∀ e' ∈ es, Function.update a.alive e none e' ≠ none := by
      intro e' he'
      rw [Function.update_of_ne (hother e' he')]
      exact halive e' (List.mem_cons_of_mem _ he')
    rw [List.forall_mem_cons, members, List.map_cons, Run.Along]
    refine and_congr_right fun _ ↦ ⟨fun hl ↦ ?_, fun hes b hb ↦ ?_⟩
    · exact fun e' he' ↦
        (finished_of_ne (hother e' he')).mp ((ih hnodup hstill).mp (hl _ hstep) e' he')
    · obtain rfl := Except.ok.inj (hstep.symm.trans hb)
      exact (ih hnodup hstill).mpr fun e' he' ↦
        (finished_of_ne (hother e' he')).mpr (hes e' he')

/-! ### Polling -/

theorem Sound.collect (h : a.Sound) {now : TimePoint} {ready : List (Ready E)}
    {s' : Scheduler E} (hs : a.sched.collect now ready = .ok s') :
    Sound { a with sched := s' } := by
  obtain ⟨hstage, hidle⟩ := Scheduler.collect_spec h.wf hs
  refine ⟨hstage.wf, fun e hdead ↦ ?_, fun e k hk ↦ ?_, fun e he ↦ ?_⟩
  · have hinert := h.dead e hdead
    have hsame := hstage.inert hinert fun he ↦ by
      rw [h.idle e he] at hdead
      cases hdead
    dsimp only
    rwa [hsame]
  · have hfits := h.fits e k hk
    have hmoves := hstage.moves e
    refine ⟨fun hset ↦ hfits.timed ?_, fun hsigno ↦ hfits.signal ?_, fun hfd ↦ hfits.descriptor ?_⟩
    · rcases hmoves.timer with ⟨hsame, -⟩ | ⟨hold, -⟩
      · rwa [← hsame]
      · exact hold
    · rcases hmoves.signal with hsame | ⟨hzero, -⟩
      · rwa [← hsame]
      · exact absurd hzero hsigno
    · rwa [← hmoves.fd]
  · dsimp only at he
    rw [hidle] at he
    cases he

theorem Sound.take (h : a.Sound) {p : Nat} (hmem : e ∈ a.sched.queues.bucket p) :
    Sound { a with sched := a.sched.take p e } := by
  have hqueue := (h.wf.queues p e).mp hmem
  cases hk : a.alive e with
  | none => exact absurd hk (h.alive_of_referenced (.inr (.inr (.inr ⟨p, hmem⟩))))
  | some k =>
    refine h.touch hk (h.wf.take hqueue) (Scheduler.take_event ..) (fun e' he' ↦ .inl he') ?_
    obtain ⟨hset, hsigno, hfd⟩ := h.fits e k hk
    exact ⟨hset, hsigno, hfd⟩

/-! ## Runs

The condition is on the destructions alone.  What the calls in between may do is not restricted. -/

/-- Every step keeps the scheduler in order, if events are only destroyed when finished. -/
theorem Sound.step (h : a.Sound) {op : Op E} (hop : a.Finished op) (hb : a.step op = .ok b) :
    b.Sound := by
  cases effect hb with
  | construct hdead => exact h.construct hdead
  | destroy hk => exact h.destroy hk hop
  | prio hk hs =>
    obtain ⟨v, hev, hv⟩ := Scheduler.prio_event hs
    refine h.touch hk (h.wf.prio hs) hev (fun e' he' ↦ .inl ?_) ((h.fits _ _ hk).congr ?_ ?_ ?_)
    · rwa [Scheduler.prio_idleness hs] at he'
    all_goals
      rw [hv]
      exact .inl
  | idleSet hk =>
    refine h.touch hk (h.wf.idleSet _) (Scheduler.idleSet_event ..) (fun e' he' ↦ ?_)
      ((h.fits _ _ hk).congr .inl .inl .inl)
    rw [Scheduler.idleSet_idleness, List.mem_insert_iff] at he'
    exact he'.symm.imp_right fun he' ↦ ⟨he', rfl⟩
  | idleCancel hk =>
    refine h.touch hk (h.wf.idleCancel _) (Scheduler.idleCancel_event ..) (fun e' he' ↦ .inl ?_)
      ((h.fits _ _ hk).congr .inl .inl .inl)
    rw [Scheduler.idleCancel_idleness] at he'
    exact List.mem_of_mem_filter he'
  | timedSet hk =>
    refine h.touch hk (h.wf.timedSet _ _) (Scheduler.timedSet_event ..) (fun e' he' ↦ .inl ?_)
      ((h.fits _ _ hk).congr (fun _ ↦ .inr rfl) .inl .inl)
    rwa [Scheduler.timedSet_idleness] at he'
  | timedCancel hk =>
    refine h.touch hk (h.wf.timedCancel _) (Scheduler.timedCancel_event ..)
      (fun e' he' ↦ .inl ?_) ((h.fits _ _ hk).congr (fun _ ↦ .inr rfl) .inl .inl)
    rwa [Scheduler.timedCancel_idleness] at he'
  | descrSet hk hs =>
    refine h.touch hk (h.wf.descrSet hs) (Scheduler.descrSet_event hs) (fun e' he' ↦ .inl ?_)
      ((h.fits _ _ hk).congr .inl .inl fun _ ↦ .inr rfl)
    rwa [Scheduler.descrSet_idleness hs] at he'
  | descrCancel hk hs =>
    refine h.touch hk (h.wf.descrCancel hs) (Scheduler.descrCancel_event hs)
      (fun e' he' ↦ .inl ?_) ((h.fits _ _ hk).congr .inl .inl fun _ ↦ .inr rfl)
    rwa [Scheduler.descrCancel_idleness hs] at he'
  | sigSet hk =>
    refine h.touch hk (h.wf.sigSet _ _) (Scheduler.sigSet_event ..) (fun e' he' ↦ .inl ?_)
      ((h.fits _ _ hk).congr .inl (fun _ ↦ .inr rfl) .inl)
    rwa [Scheduler.sigSet_idleness] at he'
  | sigCancel hk =>
    refine h.touch hk (h.wf.sigCancel _) (Scheduler.sigCancel_event ..) (fun e' he' ↦ .inl ?_)
      ((h.fits _ _ hk).congr .inl (fun _ ↦ .inr rfl) .inl)
    rwa [Scheduler.sigCancel_idleness] at he'
  | collect hs => exact h.collect hs
  | notNext => exact h
  | notify hmem => exact h.take hmem

/-- **The scheduler only has events that are alive**, in any state that is reached by runs in which
events are only destroyed when finished. -/
theorem referenced_alive (h : Run.Reach step Finished init a) (he : a.Referenced e) :
    ∃ k, a.alive e = some k := by
  have hsound : a.Sound := h.invariant sound_init fun _ _ _ ht hop hstep ↦ ht.step hop hstep
  exact Option.ne_none_iff_exists'.mp (hsound.alive_of_referenced he)

/-- The owner of a timer and of an idle event cancels the timer, and destroys it. -/
theorem referenced_alive_two : ∃ a : Arena Nat,
    Run.Reach step Finished init a ∧ a.Referenced 1 ∧ ∃ k, a.alive 1 = some k := by
  obtain ⟨a, ha, hidle⟩ : ∃ a : Arena Nat, Run.exec step init [.construct 0 .timed,
      .construct 1 .idle, .timedSet 0 33, .idleSet 1, .timedCancel 0, .destroy 0] = .ok a ∧
      1 ∈ a.sched.idleness := ⟨_, rfl, by decide⟩
  have hreach : Run.Reach step Finished init a := by
    refine Run.reach_of_exec ha <| Run.along_cons rfl trivial <| Run.along_cons rfl trivial <|
      Run.along_cons rfl trivial <| Run.along_cons rfl trivial <| Run.along_cons rfl trivial <|
      Run.along_cons rfl ⟨rfl, fun k hk _ ↦ ?_⟩ trivial
    cases hk
    exact nofun
  exact ⟨a, hreach, .inr (.inl hidle), referenced_alive hreach (.inr (.inl hidle))⟩

/-- A `ClientTable` is made and destroyed, as at a reload.  Its timer stays in the table. -/
theorem destroyed_timer_is_referenced : ¬ ∀ a : Arena Nat, Run.Reach step Run.anyStep init a →
    ∀ e, a.Referenced e → ∃ k, a.alive e = some k := by
  intro hall
  obtain ⟨a, ha, htable, hdead⟩ : ∃ a : Arena Nat,
      Run.exec step init (clientTableCtor 0 5 3600 ++ clientTableDtor 0) = .ok a ∧
      0 ∈ a.sched.table.bucket 3605 ∧ a.alive 0 = none := ⟨_, rfl, by decide, rfl⟩
  have hreach : Run.Reach step Run.anyStep init a := Run.reach_of_exec ha <|
    Run.along_cons rfl trivial <| Run.along_cons rfl trivial <| Run.along_cons rfl trivial trivial
  obtain ⟨k, hk⟩ := hall a hreach 0 (.inl ⟨3605, htable⟩)
  rw [hdead] at hk
  cases hk

/-- **What a destructor leaves behind.**  Destroying an event leaves the scheduler with nothing
that is not alive exactly when the event is not queued, nor idle, nor timed.  A descriptor event
that is still watched comes back when the kernel reports it. -/
theorem destroy_sound_iff (h : a.Sound) (hb : a.step (.destroy e) = .ok b) :
    (∀ e', b.Referenced e' → b.alive e' ≠ none) ↔
      (a.sched.event e).prioAppl = 0 ∧ e ∉ a.sched.idleness ∧ ¬ (a.sched.event e).isSet := by
  cases effect hb
  rename_i k hk
  obtain ⟨m, w, hsame, hsub, hgone⟩ := h.wf.destroy_eq (k := k) (h.fits e k hk).signal
  have hdead : Function.update a.alive e none e = none := Function.update_self ..
  rw [hsame]
  constructor
  · intro hall
    refine ⟨?_, fun he ↦ hall e (.inr (.inl he)) hdead, fun hset ↦ ?_⟩
    · by_contra hne
      have hqueue : e ∈ a.sched.queues.bucket (a.sched.event e).prioAppl :=
        (h.wf.queues _ e).mpr (if_neg hne)
      exact hall e (.inr (.inr (.inr ⟨_, hqueue⟩))) hdead
    · have htable : e ∈ a.sched.table.bucket (a.sched.event e).when' :=
        (h.wf.table _ e).mpr (if_pos hset)
      exact hall e (.inl ⟨_, htable⟩) hdead
  · rintro ⟨happl, hidle, hset⟩ e' he' hdead'
    dsimp only at hdead'
    by_cases heq : e' = e
    · subst heq
      rcases he' with ⟨t, he'⟩ | he' | ⟨signo, he'⟩ | ⟨p, he'⟩
      · have htimer : (a.sched.event e').timer = some t := (h.wf.table t e').mp he'
        rw [EventState.timer, if_neg hset] at htimer
        cases htimer
      · exact hidle he'
      · exact hgone signo he'
      · have hqueue : (a.sched.event e').queue = some p := (h.wf.queues p e').mp he'
        rw [EventState.queue, if_pos happl] at hqueue
        cases hqueue
    · rw [Function.update_of_ne heq] at hdead'
      refine h.alive_of_referenced ?_ hdead'
      exact he'.imp_right (.imp_right (.imp_left (.imp fun signo ↦ hsub signo e')))

end Arena
end UdpTun
