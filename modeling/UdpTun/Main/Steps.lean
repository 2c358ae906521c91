import UdpTun.Main

/-!
# Steps of the main loop

`Sound` is what holds of the scheduler at any time: in particular, the events of `trapped_main` are
in the first queue, if they are queued, and so none of them is between polls.  `Effect` says what a
step does, as far as these events are concerned, and `Sound.step` that it does no more.

* `Collected` is what a poll does to the events.
* `turn_cases` is about the test at the end of the inner loop, and `kept` is the induction for all
  invariants that follow.
-/

set_option autoImplicit false

namespace UdpTun

open Scheduler (Kind)

namespace Main

variable {X : Type} [DecidableEq X]

/-! ## What a step does to the events of `trapped_main`

The rest of the program has events of its own, and calls functions of the scheduler in ways that are
not known.  What is relied on is that it leaves the events of `trapped_main` alone. -/

/-- An event of `trapped_main` whose priority is left alone. -/
def Ev.Own : Ev X → Prop
  | .idle | .other _ => False
  | _ => True

/-- The fields of an event. -/
abbrev ev (s : Main X) (e : Ev X) : EventState := s.loop.sched.event e

/-- What holds of the scheduler at any time. -/
structure Sound (kind : X → Kind) (s : Main X) : Prop where
  loop : s.loop.Sound (Ev.kind kind)
  enrolled : (Loop.arena (Ev.kind kind) s.loop.sched).Enrolled
  foremost : ∀ e : Ev X, e.Own → s.loop.Foremost e
  between : s.phase ≠ .polling → s.loop.poll = none

variable {kind : X → Kind} {s s' : Main X} {loop : Loop (Ev X)}

omit [DecidableEq X] in
/-- Between polls nothing of `trapped_main` is queued. -/
theorem Sound.unqueued (h : s.Sound kind) (hpoll : s.loop.poll = none) {e : Ev X} (he : e.Own) :
    (s.ev e).prioAppl = 0 :=
  (h.foremost e he).idle hpoll

/-- A step of the loop. -/
theorem Sound.step_loop (h : s.Sound kind) {a : Loop.Act (Ev X)}
    (ha : ∀ e : Ev X, e.Own → Loop.Ordinary e s.loop a)
    (hs : s.loop.step (Ev.kind kind) a = .ok loop) : loop.Sound (Ev.kind kind) ∧
      (Loop.arena (Ev.kind kind) loop.sched).Enrolled ∧
      ∀ e : Ev X, e.Own → loop.Foremost e := by
  refine ⟨h.loop.step hs, Loop.enrolled_step h.enrolled hs, fun e he ↦ ?_⟩
  cases e with
  | onSighup | onSigint | onSigterm | rotate =>
    exact (h.foremost _ he).signal h.loop rfl (ha _ he) hs
  | quitTimeout => exact (h.foremost _ he).step h.loop rfl (ha _ he) hs
  | idle | other => exact he.elim

/-- What a call leaves of the events. -/
theorem call_event {e : Ev X} {m : Method}
    (hs : s.loop.step (Ev.kind kind) (.call e m) = .ok loop) :
    loop.sched.event e = m.result (e.kind kind) (s.ev e) ∧
      (∀ i, i ≠ e → loop.sched.event i = s.ev i) ∧
      (loop.poll = none ↔ s.loop.poll = none) := by
  obtain ⟨-, hevent, -, -, -, hpoll, -⟩ := Loop.step_call hs
  refine ⟨by rw [hevent, Function.update_self], fun i hi ↦ by
    rw [hevent, Function.update_of_ne hi], ?_⟩
  rw [hpoll, Option.map_eq_none_iff]

omit [DecidableEq X] in
/-- The signals that a poll reads. -/
theorem signos_ready (s : Main X) (reports : List (Report X)) (n : Nat) :
    n ∈ (reports.map s.ready).flatMap Ready.signos ↔ .signals ∈ reports ∧ n ∈ s.readable := by
  induction reports with
  | nil => simp
  | cons r reports ih =>
    cases r with
    | signals =>
      simp only [List.map_cons, List.flatMap_cons, List.mem_append, ih, ready, Ready.signos,
        List.mem_cons, true_or, true_and]
      exact ⟨fun hn ↦ hn.elim id And.right, .inl⟩
    | descriptor x events =>
      simpa [ready, Ready.signos] using ih

/-- The fields of one event are these afterwards, and the others are left. -/
def Changed (s : Main X) (loop : Loop (Ev X)) (e : Ev X) (v : EventState) : Prop :=
  loop.sched.event e = v ∧ ∀ i : Ev X, i.Own → i ≠ e → loop.sched.event i = s.ev i

/-- What a poll does to the events. -/
structure Collected (s : Main X) (now : TimePoint) (signalled : Prop) (loop : Loop (Ev X)) :
    Prop where
  signal : ∀ i : Ev X, i.Own → i ≠ .quitTimeout →
    (signalled ∧ (∃ n ∈ s.readable, (s.ev i).signal = some n) ∧
      loop.sched.event i = Scheduler.rung (s.ev i)) ∨
    ¬ (signalled ∧ ∃ n ∈ s.readable, (s.ev i).signal = some n) ∧ loop.sched.event i = s.ev i
  timer : loop.sched.event .quitTimeout =
    if (s.ev .quitTimeout).isSet ∧ (s.ev .quitTimeout).when' ≤ now then
      EventState.enqueued { s.ev .quitTimeout with isSet := false }
    else s.ev .quitTimeout

/-- **What a step does**, as far as `trapped_main` is concerned. -/
inductive Effect (s : Main X) : Act X → Main X → Prop
  | skip (a : Act X) : Effect s a s
  | raise (signo : Nat) : Effect s (.raise signo) (s.raise signo)
  | call {x : X} {m : Method} {loop : Loop (Ev X)}
      (hown : ∀ i : Ev X, i.Own → loop.sched.event i = s.ev i) :
      Effect s (.call x m) { s with loop }
  | ended {b : Bool} (hphase : s.phase = .top) (hquit : s.quit = true) :
      Effect s (.read b) { s with phase := .ended }
  | read {loop : Loop (Ev X)} (hphase : s.phase = .top) (hquit : s.quit = false)
      (hown : s.Changed loop .onSighup { s.ev .onSighup with signo := sighup }) :
      Effect s (.read true) { s with reload := false, loop }.read
  | activate {loop : Loop (Ev X)} (hphase : s.phase = .setup)
      (hown : s.Changed loop .quitTimeout { (s.ev .quitTimeout).dequeued with isSet := false }) :
      Effect s .activate
        { s with more := true, awaitingIdle := false, phase := .waiting, loop }
  | poll {now : TimePoint} {reports : List (Report X)} {loop : Loop (Ev X)}
      (hphase : s.phase = .waiting) (hown : s.Collected now (.signals ∈ reports) loop) :
      Effect s (.poll now reports) { s.polled now reports with loop }
  | interrupted (hphase : s.phase = .waiting) :
      Effect s .interrupted { s with phase := .polling }
  | other {e : Ev X} {loop : Loop (Ev X)} (he : ¬ e.Own)
      (hown : ∀ i : Ev X, i.Own → loop.sched.event i = s.ev i) :
      Effect s (.notify e) { s with loop }
  | onSighup {loop : Loop (Ev X)} (hqueued : (s.ev .onSighup).prioAppl ≠ 0)
      (hown : s.Changed loop .onSighup (s.ev .onSighup).dequeued) :
      Effect s (.notify .onSighup) { s with reload := true, loop }
  | onSigint {loop : Loop (Ev X)} (hqueued : (s.ev .onSigint).prioAppl ≠ 0)
      (hown : s.Changed loop .onSigint (s.ev .onSigint).dequeued) :
      Effect s (.notify .onSigint) { s with quit := true, loop }
  | onSigterm {loop : Loop (Ev X)} (hqueued : (s.ev .onSigterm).prioAppl ≠ 0)
      (hown : s.Changed loop .onSigterm (s.ev .onSigterm).dequeued) :
      Effect s (.notify .onSigterm) { s with quit := true, loop }
  | rotate {loop : Loop (Ev X)} (hqueued : (s.ev .rotate).prioAppl ≠ 0)
      (hown : s.Changed loop .rotate { (s.ev .rotate).dequeued with signo := sigusr1 }) :
      Effect s (.notify .rotate) { s with
        logging := if s.root.isSome then s.root else s.logging
        journal := { s.journal with rotation := .absent }
        loop }
  | quitTimeout {loop : Loop (Ev X)} (hqueued : (s.ev .quitTimeout).prioAppl ≠ 0)
      (hown : s.Changed loop .quitTimeout (s.ev .quitTimeout).dequeued) :
      Effect s (.notify .quitTimeout) { s with more := false, loop }
  | finish {loop : Loop (Ev X)} (hown : ∀ i : Ev X, i.Own → loop.sched.event i = s.ev i) :
      Effect s .finish { s with loop }
  | check {now : TimePoint} {busy : Bool} (hphase : s.phase = .polling)
      (hpoll : s.loop.poll = none) (hquit : s.quit = true → (s.ev .quitTimeout).isSet = true)
      (hreload : s.quit = false → s.reload = false) :
      Effect s (.check now busy) (s.turn busy)
  | await {now : TimePoint} {busy reload : Bool} {loop : Loop (Ev X)} {duration : Int}
      (hphase : s.phase = .polling) (hpoll : s.loop.poll = none)
      (hcause : s.quit = true ∧ (s.ev .quitTimeout).isSet = false ∧ reload = s.reload ∧
          duration = seconds 10 ∨
        s.quit = false ∧ s.reload = true ∧ reload = false ∧ duration = seconds 1)
      (hown : s.Changed loop .quitTimeout
        { s.ev .quitTimeout with when' := now + duration, isSet := true }) :
      Effect s (.check now busy) ({ s with
        reload
        awaitingIdle := true
        journal := { s.journal with
          wait := s.journal.wait.or (some ⟨now, now + duration, []⟩) }
        loop }.turn busy)

/-! ### The beginning

Before the outer loop the events of three signals are set, and the idle event is given its priority.
-/

theorem step_sigSet (s : Scheduler (Ev X)) {e : Ev X} (he : e.kind kind = .signal) (signo : Nat) :
    (Loop.arena (Ev.kind kind) s).step (.sigSet e signo) =
      .ok (Loop.arena (Ev.kind kind) (s.sigSet e signo)) := by
  simp only [Arena.step, Arena.call, Loop.arena, he]
  rfl

/-- The fields of the events. -/
theorem launched_event : (launched : Scheduler (Ev X)).event = fun
    | .onSigint => { signo := sigint }
    | .onSigterm => { signo := sigterm }
    | .rotate => { signo := sigusr1 }
    | .idle => { prioUsr := 10 }
    | _ => {} := by
  rw [launched, Scheduler.modify_event, Scheduler.sigSet_event, Scheduler.sigSet_event,
    Scheduler.sigSet_event]
  funext e
  cases e <;> simp [Function.update, Scheduler.init]

theorem launched_orderly (kind : X → Kind) : (Loop.arena (Ev.kind kind) launched).Sound ∧
    (Loop.arena (Ev.kind kind) launched).Enrolled := by
  have hsignal : ∀ {s : Scheduler (Ev X)} {e : Ev X} (signo : Nat), e.kind kind = .signal →
      (Loop.arena (Ev.kind kind) s).Sound ∧ (Loop.arena (Ev.kind kind) s).Enrolled →
      (Loop.arena (Ev.kind kind) (s.sigSet e signo)).Sound ∧
        (Loop.arena (Ev.kind kind) (s.sigSet e signo)).Enrolled := by
    intro s e signo he h
    have hfinished : (Loop.arena (Ev.kind kind) s).Finished (.sigSet e signo) := trivial
    exact ⟨h.1.step hfinished (step_sigSet s he signo), (h.2.step (step_sigSet s he signo)).1⟩
  have hinit : (Loop.arena (Ev.kind kind) Scheduler.init).Sound ∧
      (Loop.arena (Ev.kind kind) Scheduler.init).Enrolled :=
    ⟨Loop.sound_start.arena, Scheduler.registers_init, Scheduler.listed_init,
      fun _ h ↦ absurd rfl h⟩
  have hsets := hsignal (e := .rotate) sigusr1 rfl <|
    hsignal (e := .onSigterm) sigterm rfl <| hsignal (e := .onSigint) sigint rfl hinit
  obtain ⟨t, ht⟩ : ∃ t : Scheduler (Ev X), t = ((Scheduler.init.sigSet .onSigint sigint).sigSet
    .onSigterm sigterm).sigSet .rotate sigusr1 := ⟨_, rfl⟩
  have hunqueued : (t.event .idle).prioAppl = 0 := by
    rw [ht, Scheduler.sigSet_event, Scheduler.sigSet_event, Scheduler.sigSet_event]
    simp [Function.update, Scheduler.init]
  have hcall : t.prio .idle 10 = .ok launched := by
    rw [Scheduler.prio, if_neg (by decide)]
    dsimp only
    rw [if_neg fun hmoved ↦ hmoved.1 hunqueued, launched, ← ht]
  have hprio : (Loop.arena (Ev.kind kind) t).step (.prio .idle 10) =
      .ok (Loop.arena (Ev.kind kind) launched) := by
    simp only [Arena.step, Arena.call, Loop.arena, hcall]
    rfl
  rw [← ht] at hsets
  have hfinished : (Loop.arena (Ev.kind kind) t).Finished (.prio .idle 10) := trivial
  exact ⟨hsets.1.step hfinished hprio, (hsets.2.step hprio).1⟩

theorem sound_start (kind : X → Kind) : (start : Main X).Sound kind := by
  obtain ⟨hsound, henrolled⟩ := launched_orderly kind
  have hidle : (launched : Scheduler (Ev X)).idleness = [] := by
    have hmodify : ∀ (s : Scheduler (Ev X)) (f : EventState → EventState),
        (s.modify .idle f).idleness = s.idleness := fun _ _ ↦ rfl
    rw [launched, hmodify, Scheduler.sigSet_idleness, Scheduler.sigSet_idleness,
      Scheduler.sigSet_idleness]
    rfl
  refine ⟨⟨hsound, fun e ↦ ?_, nofun⟩, henrolled, fun e he ↦ ⟨?_, nofun, fun _ ↦ ?_⟩, fun _ ↦ rfl⟩
  · show False ↔ e ∈ launched.idleness
    simp [hidle]
  · show Loop.Default (launched.event e)
    rw [launched_event]
    cases e <;> first | exact ⟨rfl, .inl rfl⟩ | exact he.elim
  · show (launched.event e).prioAppl = 0
    rw [launched_event]
    cases e <;> rfl

/-! ### The step lemma

A step is one of a few kinds, and for each it is said what becomes of the events.  The invariants
that follow need nothing else. -/

omit [DecidableEq X] in
/-- Only the scheduler matters, and whether a poll is under way. -/
theorem Sound.congr (h : s.Sound kind) (hloop : s'.loop = s.loop)
    (hphase : s'.phase ≠ .polling → s.loop.poll = none) : s'.Sound kind := by
  refine ⟨?_, ?_, ?_, ?_⟩ <;> rw [hloop]
  · exact h.loop
  · exact h.enrolled
  · exact h.foremost
  · exact hphase

/-- A member function is called, other than `prio`. -/
theorem Sound.call (h : s.Sound kind) {e : Ev X} {m : Method} (hm : e.Own → ∀ p, m ≠ .prio p)
    (hs : s.call kind e m = .ok s') : ∃ loop, s' = { s with loop } ∧ s'.Sound kind ∧
      loop.sched.event e = m.result (e.kind kind) (s.ev e) ∧
      (∀ i, i ≠ e → loop.sched.event i = s.ev i) ∧ (loop.poll = none ↔ s.loop.poll = none) := by
  obtain ⟨loop, hl, rfl⟩ := map_ok hs
  obtain ⟨hself, hother, hpoll⟩ := call_event hl
  have hordinary : ∀ i : Ev X, i.Own → Loop.Ordinary i s.loop (.call e m) := by
    intro i hi
    cases m with
    | prio p =>
      rintro rfl
      exact hm hi p rfl
    | _ => trivial
  obtain ⟨hsound, henrolled, hforemost⟩ := h.step_loop hordinary hl
  exact ⟨loop, rfl, ⟨hsound, henrolled, hforemost, fun hphase ↦ hpoll.mpr (h.between hphase)⟩,
    hself, hother, hpoll⟩

/-- A poll takes an event from its queue. -/
theorem Sound.take (h : s.Sound kind) {e : Ev X} {d : Drain (Ev X)} (hd : s.loop.poll = some d)
    (he : e ∈ s.loop.sched.queues.bucket d.prio)
    (hs : s.loop.step (Ev.kind kind) (.notify e) = .ok loop) :
    ({ s with loop } : Main X).Sound kind ∧ (s.ev e).prioAppl ≠ 0 ∧
      loop.sched.event e = (s.ev e).dequeued ∧ ∀ i, i ≠ e → loop.sched.event i = s.ev i := by
  obtain ⟨hsound, henrolled, hforemost⟩ := h.step_loop (a := .notify e) (fun _ _ ↦ trivial) hs
  have hphase : s.phase = .polling := by
    by_contra hne
    rw [h.between hne] at hd
    cases hd
  have hqueued := (Scheduler.mem_bucket_queues h.loop.wf).mp he
  rw [Loop.step_next _ hd he] at hs
  cases hs
  refine ⟨⟨hsound, henrolled, hforemost, fun hne ↦ absurd hphase hne⟩, ?_, ?_, fun i hi ↦ ?_⟩
  · rw [hqueued.1]
    exact hqueued.2
  · exact (congrFun (Scheduler.take_event ..) e).trans (Function.update_self ..)
  · exact (congrFun (Scheduler.take_event ..) i).trans (Function.update_of_ne hi ..)

/-- A poll collects. -/
theorem Sound.collected (h : s.Sound kind) {now : TimePoint} {reports : List (Report X)}
    (hpoll : s.loop.poll = none)
    (hs : s.loop.step (Ev.kind kind) (.poll now (reports.map s.ready)) = .ok loop) :
    s.Collected now (.signals ∈ reports) loop := by
  obtain ⟨t, ht, rfl⟩ := Loop.step_poll hpoll hs
  refine ⟨fun i hi hne ↦ ?_, h.loop.collect_timer rfl ht⟩
  have hk : i.kind kind = .signal := by
    cases i with
    | quitTimeout => exact absurd rfl hne
    | idle | other => exact hi.elim
    | _ => rfl
  have hread : (∃ n ∈ (reports.map s.ready).flatMap Ready.signos, (s.ev i).signal = some n) ↔
      .signals ∈ reports ∧ ∃ n ∈ s.readable, (s.ev i).signal = some n := by
    simp only [signos_ready]
    constructor
    · rintro ⟨n, ⟨hsignals, hn⟩, hsignal⟩
      exact ⟨hsignals, n, hn, hsignal⟩
    · rintro ⟨hsignals, n, hn, hsignal⟩
      exact ⟨n, ⟨hsignals, hn⟩, hsignal⟩
  have hevent := h.loop.collect_signal hk ht
  by_cases hyes : .signals ∈ reports ∧ ∃ n ∈ s.readable, (s.ev i).signal = some n
  · rw [if_pos (hread.mpr hyes)] at hevent
    exact .inl ⟨hyes.1, hyes.2, hevent⟩
  · rw [if_neg (mt hread.mp hyes)] at hevent
    exact .inr ⟨hyes, hevent⟩

/-- The handler of an event that has been taken from its queue. -/
theorem Sound.handle {e : Ev X} (h : ({ s with loop } : Main X).Sound kind)
    (hs : ({ s with loop } : Main X).handle kind e = .ok s') (hqueued : (s.ev e).prioAppl ≠ 0)
    (hown : s.Changed loop e (s.ev e).dequeued) : s'.Sound kind ∧ s.Effect (.notify e) s' := by
  have hall : ¬ e.Own → ∀ i : Ev X, i.Own → loop.sched.event i = s.ev i := by
    intro he i hi
    refine hown.2 i hi ?_
    rintro rfl
    exact he hi
  cases e with
  | onSighup =>
    cases hs
    exact ⟨h.congr rfl h.between, .onSighup hqueued hown⟩
  | onSigint =>
    cases hs
    exact ⟨h.congr rfl h.between, .onSigint hqueued hown⟩
  | onSigterm =>
    cases hs
    exact ⟨h.congr rfl h.between, .onSigterm hqueued hown⟩
  | rotate =>
    rw [Main.handle] at hs
    have hstart : ({ s with
        loop
        logging := if s.root.isSome then s.root else s.logging
        journal := { s.journal with rotation := .absent } } : Main X).Sound kind :=
      h.congr rfl h.between
    obtain ⟨loop', rfl, hsound, hself, hother, -⟩ :=
      hstart.call (m := .sigSet sigusr1) (fun _ _ ↦ nofun) hs
    refine ⟨hsound, .rotate hqueued ⟨?_, fun i hi hne ↦ (hother i hne).trans (hown.2 i hi hne)⟩⟩
    rw [← hown.1]
    exact hself
  | idle =>
    obtain ⟨loop', rfl, hsound, -, hother, -⟩ :=
      h.call (e := .idle) (m := .idleSet) (fun he ↦ he.elim) hs
    refine ⟨hsound, .other id fun i hi ↦ (hother i ?_).trans (hall id i hi)⟩
    rintro rfl
    exact hi
  | quitTimeout =>
    cases hs
    exact ⟨h.congr rfl h.between, .quitTimeout hqueued hown⟩
  | other x =>
    cases hs
    exact ⟨h, .other id (hall id)⟩

omit [DecidableEq X] in
theorem Sound.turn (h : s.Sound kind) (hpoll : s.loop.poll = none) (busy : Bool) :
    (s.turn busy).Sound kind := by
  have hloop : (s.turn busy).loop = s.loop := by
    rw [Main.turn]
    split <;> rfl
  exact h.congr hloop fun _ ↦ hpoll

/-- The end of the inner loop comes to be awaited. -/
theorem Sound.await (h : s.Sound kind) {now : TimePoint} {duration : Int}
    (hs : s.await kind now duration = .ok s') : ∃ loop, s' = { s with
        awaitingIdle := true
        journal := { s.journal with wait := s.journal.wait.or (some ⟨now, now + duration, []⟩) }
        loop } ∧ s'.Sound kind ∧ (loop.poll = none ↔ s.loop.poll = none) ∧
      s.Changed loop .quitTimeout
        { s.ev .quitTimeout with when' := now + duration, isSet := true } := by
  have hstart : ({ s with
      awaitingIdle := true
      journal := { s.journal with
        wait := s.journal.wait.or (some ⟨now, now + duration, []⟩) } } : Main X).Sound kind :=
    h.congr rfl h.between
  obtain ⟨loop, rfl, hsound, hself, hother, hsame⟩ :=
    hstart.call (m := .timedSet (now + duration)) (fun _ _ ↦ nofun) hs
  exact ⟨loop, rfl, hsound, hsame, hself, fun i _ hi ↦ hother i hi⟩

theorem Sound.check (h : s.Sound kind) {now : TimePoint} {busy : Bool}
    (hphase : s.phase = .polling) (hpoll : s.loop.poll = none)
    (hs : s.check kind now busy = .ok s') : s'.Sound kind ∧ s.Effect (.check now busy) s' := by
  obtain ⟨t, ht, rfl⟩ := map_ok hs
  split at ht
  · rename_i hquit
    split at ht
    · rename_i hset
      cases ht
      refine ⟨h.turn hpoll busy, .check hphase hpoll (fun _ ↦ hset) fun hnot ↦ ?_⟩
      rw [hquit] at hnot
      cases hnot
    · rename_i hset
      obtain ⟨loop, rfl, hsound, hsame, hchanged⟩ := h.await ht
      exact ⟨hsound.turn (hsame.mpr hpoll) busy,
        .await hphase hpoll (.inl ⟨hquit, Bool.not_eq_true _ ▸ hset, rfl, rfl⟩) hchanged⟩
  · rename_i hquit
    split at ht
    · rename_i hreload
      have hstart : ({ s with reload := false } : Main X).Sound kind := h.congr rfl h.between
      obtain ⟨loop, rfl, hsound, hsame, hchanged⟩ := hstart.await ht
      exact ⟨hsound.turn (hsame.mpr hpoll) busy,
        .await hphase hpoll (.inr ⟨Bool.not_eq_true _ ▸ hquit, hreload, rfl, rfl⟩) hchanged⟩
    · rename_i hreload
      cases ht
      refine ⟨h.turn hpoll busy, .check hphase hpoll (fun hyes ↦ absurd hyes hquit) fun _ ↦ ?_⟩
      exact Bool.not_eq_true _ ▸ hreload

/-- **The step lemma.** -/
theorem Sound.step (h : s.Sound kind) {a : Act X} (hs : s.step kind a = .ok s') :
    s'.Sound kind ∧ s.Effect a s' := by
  cases a with
  | raise signo =>
    cases hs
    exact ⟨h.congr rfl h.between, .raise signo⟩
  | call x m =>
    obtain ⟨loop, rfl, hsound, -, hother, -⟩ := h.call (e := .other x) (fun hown ↦ hown.elim) hs
    refine ⟨hsound, .call fun i hi ↦ hother i ?_⟩
    rintro rfl
    exact hi
  | read b =>
    rw [Main.step] at hs
    split at hs
    · rename_i hphase
      have hpoll := h.between (by rw [hphase]; nofun)
      split at hs
      · cases hs
        exact ⟨h.congr rfl fun _ ↦ hpoll, .ended hphase ‹_›⟩
      · split at hs
        · obtain ⟨t, ht, rfl⟩ := map_ok hs
          have hstart : ({ s with reload := false } : Main X).Sound kind := h.congr rfl h.between
          obtain ⟨loop, rfl, hsound, hself, hother, hsame⟩ :=
            hstart.call (m := .sigSet sighup) (fun _ _ ↦ nofun) ht
          obtain rfl : b = true := ‹_›
          exact ⟨hsound.congr rfl fun _ ↦ hsame.mpr hpoll,
            .read hphase (Bool.not_eq_true _ ▸ ‹_›) ⟨hself, fun i _ hi ↦ hother i hi⟩⟩
        · cases hs
    · cases hs
      exact ⟨h, .skip _⟩
  | activate =>
    rw [Main.step] at hs
    split at hs
    · rename_i hphase
      have hpoll := h.between (by rw [hphase]; nofun)
      have hstart : ({ s with more := true, awaitingIdle := false, phase := .waiting } :
        Main X).Sound kind := h.congr rfl fun _ ↦ hpoll
      obtain ⟨loop, rfl, hsound, hself, hother, -⟩ :=
        hstart.call (m := .cancel) (fun _ _ ↦ nofun) hs
      exact ⟨hsound, .activate hphase ⟨hself, fun i _ hi ↦ hother i hi⟩⟩
    · cases hs
      exact ⟨h, .skip _⟩
  | poll now reports =>
    rw [Main.step] at hs
    split at hs
    · rename_i hphase
      have hpoll := h.between (by rw [hphase]; nofun)
      obtain ⟨loop, hl, rfl⟩ := map_ok hs
      have hpolled : (s.polled now reports).phase = .polling := by
        rw [polled]
        dsimp only
        split <;> rfl
      obtain ⟨hsound, henrolled, hforemost⟩ := h.step_loop (a := .poll now _)
        (fun _ _ ↦ trivial) hl
      exact ⟨⟨hsound, henrolled, hforemost, fun hne ↦ absurd hpolled hne⟩,
        .poll hphase (h.collected hpoll hl)⟩
    · cases hs
      exact ⟨h, .skip _⟩
  | interrupted =>
    rw [Main.step] at hs
    split at hs
    · cases hs
      exact ⟨h.congr rfl fun hne ↦ absurd rfl hne, .interrupted ‹_›⟩
    · cases hs
      exact ⟨h, .skip _⟩
  | notify e =>
    rw [Main.step] at hs
    split at hs
    · cases hs
      exact ⟨h, .skip _⟩
    rename_i d hd
    split at hs
    · rename_i he
      obtain ⟨loop, hl⟩ : ∃ loop, s.loop.step (Ev.kind kind) (.notify e) = .ok loop :=
        ⟨_, Loop.step_next _ hd he⟩
      obtain ⟨hsound, hqueued, hself, hother⟩ := h.take hd he hl
      rw [hl] at hs
      have hchanged : s.Changed loop e (s.ev e).dequeued := ⟨hself, fun i _ hi ↦ hother i hi⟩
      exact hsound.handle hs hqueued hchanged
    · cases hs
      exact ⟨h, .skip _⟩
  | finish =>
    obtain ⟨loop, hl, rfl⟩ := map_ok hs
    obtain ⟨hsound, henrolled, hforemost⟩ := h.step_loop (a := .finish) (fun _ _ ↦ trivial) hl
    rcases Loop.step_finish hl with rfl | ⟨d, -, -, rfl⟩
    · exact ⟨h, .skip _⟩
    · exact ⟨⟨hsound, henrolled, hforemost, fun _ ↦ rfl⟩, .finish fun _ _ ↦ rfl⟩
  | check now busy =>
    rw [Main.step] at hs
    split at hs
    · rename_i hphase hpoll
      exact h.check hphase hpoll hs
    · cases hs
      exact ⟨h, .skip _⟩

/-- What is kept by all steps holds in every state. -/
theorem kept {I : Main X → Prop} (hstart : I start)
    (hstep : ∀ {s a s'}, s.Sound kind → I s → s.Effect a s' → I s')
    (h : Run.Reach (step kind) Run.anyStep start s) : s.Sound kind ∧ I s :=
  h.invariant (I := fun s ↦ s.Sound kind ∧ I s) ⟨sound_start kind, hstart⟩
    fun _ _ _ ⟨hsound, hI⟩ _ hs ↦ ⟨(hsound.step hs).1, hstep hsound hI (hsound.step hs).2⟩

omit [DecidableEq X] in
/-- The inner loop goes on, or is left. -/
theorem turn_cases (s : Main X) (busy : Bool) :
    s.turn busy = { s with phase := .waiting } ∧ s.more = true ∧
      (s.awaitingIdle = false ∨ busy = true) ∨
    s.turn busy = { s with
      phase := .top
      more := false
      awaitingIdle := false
      root := none
      journal := { s.journal with wait := none } } ∧
      (s.more = false ∨ s.awaitingIdle = true ∧ busy = false) := by
  rw [turn]
  split
  · rename_i hmore
    simp only [Bool.and_eq_true, Bool.or_eq_true, Bool.not_eq_true'] at hmore
    exact .inl ⟨rfl, hmore.1, hmore.2⟩
  · rename_i hnot
    refine .inr ⟨rfl, ?_⟩
    cases hmore : s.more with
    | false => exact .inl rfl
    | true =>
      rw [hmore, Bool.true_and] at hnot
      simpa using hnot

/-- What a poll leaves of the variables. -/
theorem polled_eq (s : Main X) (now : TimePoint) (reports : List (Report X)) :
    .signals ∈ reports ∧ s.polled now reports = { s with
      phase := .polling
      raised := s.raised.filter (· ∉ s.loop.sched.watching)
      journal := (s.journal.tick now).look } ∨
    .signals ∉ reports ∧ s.polled now reports = { s with
      phase := .polling
      journal := s.journal.tick now } := by
  rw [polled]
  dsimp only
  split
  · exact .inl ⟨‹_›, rfl⟩
  · exact .inr ⟨‹_›, rfl⟩

omit [DecidableEq X] in
theorem mem_readable {n : Nat} (h : s.Sound kind) {e : Ev X} (hn : n ∈ s.raised)
    (he : (s.ev e).signo = n) (hzero : n ≠ 0) : n ∈ s.readable :=
  List.mem_filter.mpr ⟨hn, decide_eq_true (Loop.watched h.enrolled he hzero)⟩

omit [DecidableEq X] in
/-- A signal event is queued if its signal is pending, and the poll reads signals. -/
theorem Collected.ring {now : TimePoint} {signalled : Prop} (hown : s.Collected now signalled loop)
    (hsound : s.Sound kind) {e : Ev X} (he : e.Own) (hne : e ≠ .quitTimeout) :
    ((loop.sched.event e).signo = 0 ∧ (loop.sched.event e).prioAppl ≠ 0) ∧
        signalled ∧ (s.ev e).signo ≠ 0 ∧ (s.ev e).signo ∈ s.raised ∨
      loop.sched.event e = s.ev e ∧
        (signalled → (s.ev e).signo ≠ 0 → (s.ev e).signo ∉ s.raised) := by
  rcases hown.signal e he hne with ⟨hsignalled, ⟨n, hn, hsignal⟩, hrung⟩ | ⟨hnot, hsame⟩
  · obtain ⟨hne, rfl⟩ : (s.ev e).signo ≠ 0 ∧ (s.ev e).signo = n := by
      rw [EventState.signal] at hsignal
      split at hsignal
      · cases hsignal
      · exact ⟨‹_›, Option.some_inj.mp hsignal⟩
    refine .inl ⟨⟨?_, ?_⟩, hsignalled, hne, List.mem_of_mem_filter hn⟩ <;>
      rw [hrung, Scheduler.rung]
    · exact EventState.enqueued_signo _
    · refine Scheduler.enqueued_appl ?_
      rw [(hsound.foremost e he).default.usr]
      exact Nat.one_ne_zero
  · refine .inr ⟨hsame, fun hsignalled hne hraised ↦ hnot ⟨hsignalled, (s.ev e).signo, ?_, ?_⟩⟩
    · exact mem_readable hsound hraised rfl hne
    · rw [EventState.signal, if_neg hne]

end Main
end UdpTun
