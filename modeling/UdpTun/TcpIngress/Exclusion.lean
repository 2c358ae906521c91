import UdpTun.TcpIngress.Events
import UdpTun.TcpIngress.Failures

/-!
# One thing at a time

An ingress has a socket, or it has a look-up running, or it waits for its timer, and never two of
these.  `initiateLookup`, `addressResolved` and `tryConnect` assert it.

A timer that is due loses `set_` when the poll collects it, and its handler comes later.  In
between, `ready` takes it that the ingress is not waiting.  So if the idle event of a channel is
notified there, and the channel is the first source, there is a look-up, and then the handler of the
timer fails its assertion: `timer_races_source`.  In the runs in which this does not happen, all is
well: `at_most_one`.
-/

set_option autoImplicit false

namespace UdpTun
namespace TcpIngress
namespace World

open Scheduler (Changes)

variable {C : Type} [DecidableEq C] {cfg : Config C} {w w' : World C} {io : Io}

/-- The retry timer is armed, or queued. -/
def Waiting (w : World C) : Prop :=
  (w.sched.event .rstev).isSet ∨ (w.sched.event .rstev).prioAppl ≠ 0

/-- At most one of these is active: a socket, a look-up, a retry timer. -/
structure AtMostOne (w : World C) : Prop where
  sock_lookup : ¬ (w.sock ≠ none ∧ w.addrev.on)
  sock_timer : ¬ (w.sock ≠ none ∧ w.Waiting)
  lookup_timer : ¬ (w.addrev.on ∧ w.Waiting)

/-- No channel is notified as the first source while the timer is queued. -/
def Calm (w : World C) : Act C → Prop
  | .notify (.queueEvent _) _ => ¬ (w.streamers = [] ∧ (w.sched.event .rstev).prioAppl ≠ 0)
  | _ => True

instance (w : World C) : DecidablePred w.Calm := fun a ↦
  match a with
  | .notify (.queueEvent _) _ => inferInstanceAs (Decidable (¬ (_ ∧ _)))
  | .notify .fdev _ | .notify .rstev _ | .notify .sigev _ => .isTrue trivial
  | .submit .. | .activate _ | .flush .. | .discard _ | .lookupEnds .. | .raise | .poll .. =>
    .isTrue trivial

/-- The assertions that this is about. -/
def Guards : Assertion → Prop
  | .lookupRstev | .lookupAddrev | .lookupSock | .resolvedSock | .connectSock => True
  | _ => False

/-! ## The invariant

A timer that is queued counts as one that is active, since its handler is still to come. -/

/-- At most one; and the timer is not both armed and queued. -/
structure Exclusive (w : World C) : Prop where
  one : w.AtMostOne
  once : ¬ ((w.sched.event .rstev).isSet ∧ (w.sched.event .rstev).prioAppl ≠ 0)

/-- None of them is active. -/
structure Quiet (w : World C) : Prop where
  lookup : w.addrev.on = false
  timer : ¬ w.Waiting

theorem exclusive_init (cfg : Config C) (queue : C → PayloadQueue) :
    (init cfg queue).Exclusive := by
  have hs := Scheduler.changes_sigSet (Scheduler.init : Scheduler (Ev C)) .sigev sigusr2
  have hrstev : (init cfg queue).sched.event .rstev = {} := hs.event_of_ne nofun
  refine ⟨⟨fun h ↦ h.1 rfl, fun h ↦ h.1 rfl, fun h ↦ nomatch h.1⟩, fun h ↦ ?_⟩
  rw [hrstev] at h
  exact h.2 rfl

omit [DecidableEq C] in
/-- Only the socket, the look-up and the timer matter. -/
theorem Exclusive.congr (h : w.Exclusive) (hsock : w'.sock = w.sock)
    (hon : w'.addrev.on = w.addrev.on)
    (hrstev : w'.sched.event .rstev = w.sched.event .rstev) : w'.Exclusive := by
  obtain ⟨⟨h₁, h₂, h₃⟩, h₄⟩ := h
  have hwaiting : w'.Waiting ↔ w.Waiting := by rw [Waiting, Waiting, hrstev]
  exact ⟨⟨by rwa [hsock, hon], by rwa [hsock, hwaiting], by rwa [hon, hwaiting]⟩, by rwa [hrstev]⟩

omit [DecidableEq C] in
theorem Exclusive.sources (h : w.Exclusive) (hs : Sources w w') : w'.Exclusive :=
  h.congr hs.sock (by rw [hs.addrev]) hs.rstev

omit [DecidableEq C] in
/-- With a socket, there is neither a look-up nor a timer. -/
theorem Exclusive.quiet (h : w.Exclusive) (hsock : w.sock ≠ none) : w.Quiet :=
  ⟨by simpa [hsock] using h.one.sock_lookup, fun hw ↦ h.one.sock_timer ⟨hsock, hw⟩⟩

/-! ## Parts of handlers

These begin when nothing is active, and leave one thing active at the end. -/

theorem Quiet.setRstev (h : w.Quiet) (hsock : w.sock = none) (now : TimePoint) (d : Int) :
    (w.setRstev now d).Exclusive := by
  have hs := Scheduler.changes_timedSet w.sched .rstev (now + d)
  refine ⟨⟨fun hboth ↦ hboth.1 hsock, fun hboth ↦ hboth.1 hsock, fun hboth ↦ ?_⟩, fun hboth ↦ ?_⟩
  · rw [World.setRstev, h.lookup] at hboth
    cases hboth.1
  · rw [World.setRstev, hs.event_self] at hboth
    exact h.timer (.inr hboth.2)

theorem Quiet.setFdev {events : Mask} (h : w.Quiet) (hw : w.setFdev events = .ok w') :
    w'.Exclusive := by
  obtain ⟨fd, s', -, rfl, hs⟩ := setFdev_ok hw
  have hrstev : s'.event .rstev = w.sched.event .rstev := hs.event_of_ne nofun
  have htimer : ¬ Waiting { w with sched := s' } := by
    rw [Waiting, hrstev]
    exact h.timer
  refine ⟨⟨fun hboth ↦ ?_, fun hboth ↦ htimer hboth.2, fun hboth ↦ htimer hboth.2⟩, fun hboth ↦
    htimer (.inl hboth.1)⟩
  rw [h.lookup] at hboth
  cases hboth.2

theorem Quiet.clearSocket (h : w.Quiet) (hw : w.clearSocket = .ok w') :
    w'.Quiet ∧ w'.sock = none := by
  obtain ⟨s', rfl, hs⟩ := clearSocket_ok hw
  have hrstev : s'.event .rstev = w.sched.event .rstev := hs.event_of_ne nofun
  refine ⟨⟨h.lookup, ?_⟩, rfl⟩
  rw [Waiting, hrstev]
  exact h.timer

theorem Quiet.attempted {now : TimePoint} (h : w.Quiet) (ha : Attempted now w w') :
    w'.Exclusive := by
  obtain ⟨w₁, htried, hend⟩ := ha
  have hquiet : w₁.Quiet := by
    refine ⟨by rw [htried.addrev, h.lookup], ?_⟩
    rw [Waiting, htried.rstev]
    exact h.timer
  obtain ⟨hsock, rfl⟩ | ⟨-, events, -, hset⟩ := hend
  · exact hquiet.setRstev hsock ..
  · exact hquiet.setFdev hset

theorem Exclusive.sent {now : TimePoint} (h : w.Exclusive) (hsock : w.sock ≠ none)
    (hs : Sent now w w') : w'.Exclusive := by
  obtain ⟨w₁, hsources, hend⟩ := hs
  have hexcl := h.sources hsources
  have hquiet : w₁.Quiet := hexcl.quiet (by rwa [hsources.sock])
  obtain ⟨rfl, -⟩ | hset | ⟨w₂, hclear, rfl⟩ := hend
  · exact hexcl
  · exact hquiet.setFdev hset
  · obtain ⟨hquiet₂, hnone⟩ := hquiet.clearSocket hclear
    exact hquiet₂.setRstev hnone ..

omit [DecidableEq C] in
theorem initiateLookup_exclusive {started : Except Eai Unit}
    (hw : w.initiateLookup started = .ok w') (hqueued : (w.sched.event .rstev).prioAppl = 0) :
    w'.Exclusive := by
  obtain ⟨hset, -, hsock, rfl⟩ := initiateLookup_ok hw
  have htimer : ¬ w.Waiting := by
    rw [Waiting, hset, hqueued]
    simp
  exact ⟨⟨fun hboth ↦ hboth.1 hsock, fun hboth ↦ hboth.1 hsock, fun hboth ↦ htimer hboth.2⟩,
    fun hboth ↦ htimer (.inl hboth.1)⟩

/-! ## Handlers

The handler of the timer begins with nothing active, if no source has started a look-up in between.
-/

theorem Exclusive.ready {c : C} (h : w.Exclusive) (hw : w.ready cfg c io = .ok w')
    (hcalm : ¬ (w.streamers = [] ∧ (w.sched.event .rstev).prioAppl ≠ 0)) : w'.Exclusive := by
  have hjoined := h.sources (joined_sources w c)
  rcases ready_ok hw with ⟨-, rfl⟩ | ⟨-, ⟨rfl, -⟩ | ⟨hempty, hlookup⟩ | ⟨-, hsend⟩⟩
  · exact h
  · exact hjoined
  · refine initiateLookup_exclusive hlookup ?_
    by_contra hqueued
    exact hcalm ⟨hempty, hqueued⟩
  · exact hjoined.sent (trySend_ok hsend).1 (trySend_ok hsend).2.2

theorem Exclusive.descriptorReady {evs : Mask} (h : w.Exclusive)
    (hw : w.descriptorReady cfg evs io = .ok w') : w'.Exclusive := by
  obtain ⟨hsock, ⟨-, hnext⟩ | ⟨-, -, w₁, hclear, rfl⟩ | ⟨-, hset⟩ | ⟨-, -, hsend⟩⟩ :=
    descriptorReady_ok hw
  · obtain ⟨rest, w₁, hclear, htry⟩ := connectNext_ok hnext
    have hrest : Exclusive { w with ainf := rest } := h.congr rfl rfl rfl
    exact ((hrest.quiet hsock).clearSocket hclear).1.attempted (tryConnect_ok htry).2
  · obtain ⟨hquiet, hnone⟩ := (h.quiet hsock).clearSocket hclear
    exact hquiet.setRstev hnone ..
  · have hconnected : Exclusive { w with connected := true } := h.congr rfl rfl rfl
    exact (hconnected.quiet hsock).setFdev hset
  · have hready : Exclusive { w with upoutReady := true } := h.congr rfl rfl rfl
    exact hready.sent hsock (trySend_ok hsend).2.2

theorem Exclusive.sigSet (h : w.Exclusive) :
    Exclusive { w with sched := w.sched.sigSet .sigev sigusr2 } :=
  h.congr rfl rfl ((Scheduler.changes_sigSet w.sched .sigev sigusr2).event_of_ne nofun)

theorem Exclusive.managerCheck (h : w.Exclusive) (hw : w.managerCheck cfg io = .ok w') :
    w'.Exclusive := by
  obtain ⟨w₁, rfl, ⟨-, rfl⟩ | ⟨hon, -, -, hattempt⟩⟩ := managerCheck_ok hw
  · exact h.sigSet
  · have hoff : Quiet { w with addrev := { w.addrev with on := false } } :=
      ⟨rfl, fun hwaiting ↦ h.one.lookup_timer ⟨hon, hwaiting⟩⟩
    exact (hoff.attempted hattempt).sigSet

/-! ## Steps

A poll may queue the timer.  From then until it is notified, no channel may be the first source. -/

/-- An event that is taken from its queue. -/
theorem Exclusive.taken {p : Nat} {e : Ev C} (h : w.Exclusive)
    (he : e ∈ w.sched.queues.bucket p) : (w.taken p e).Exclusive := by
  have hs := Scheduler.changes_take he
  by_cases heq : e = .rstev
  · subst heq
    have hrstev : (w.taken p .rstev).sched.event .rstev = (w.sched.event .rstev).dequeued :=
      hs.event_self
    have hwaiting : (w.taken p .rstev).Waiting → w.Waiting := by
      rw [Waiting, hrstev]
      rintro (hset | hq)
      · exact .inl hset
      · exact absurd rfl hq
    refine ⟨⟨h.one.sock_lookup, fun hboth ↦ h.one.sock_timer ⟨hboth.1, hwaiting hboth.2⟩,
      fun hboth ↦ h.one.lookup_timer ⟨hboth.1, hwaiting hboth.2⟩⟩, fun hboth ↦ ?_⟩
    rw [hrstev] at hboth
    exact hboth.2 rfl
  · exact h.congr rfl rfl (hs.event_of_ne (Ne.symm heq))

omit [DecidableEq C] in
theorem mem_queue {e : Ev C} (h : w.sched.WF) (he : (w.sched.event e).prioAppl ≠ 0) :
    ∃ p, e ∈ w.sched.queues.bucket p :=
  ⟨_, (h.queues _ e).mpr (if_neg he)⟩

omit [DecidableEq C] in
theorem queued_of_mem {p : Nat} {e : Ev C} (h : w.sched.WF) (he : e ∈ w.sched.queues.bucket p) :
    (w.sched.event e).prioAppl ≠ 0 := by
  intro hzero
  have hqueue : (w.sched.event e).queue = some p := (h.queues p e).mp he
  rw [EventState.queue, if_pos hzero] at hqueue
  cases hqueue

omit [DecidableEq C] in
theorem Exclusive.poll {s : Scheduler (Ev C)} (h : w.Exclusive) (hk : w.Kinds)
    (hs : Scheduler.Stage w.sched s) : Exclusive { w with sched := s } := by
  have hidle : .rstev ∉ w.sched.idleness := fun hmem ↦ by
    obtain ⟨c, hc⟩ := hk.idle _ hmem
    cases hc
  rcases hs.plain .rstev hk.rstev.1 hk.rstev.2 hidle with hsame | ⟨hset, hqueued⟩
  · exact h.congr rfl rfl hsame
  · -- the timer was armed, and is now queued
    refine ⟨⟨h.one.sock_lookup, fun hboth ↦ h.one.sock_timer ⟨hboth.1, .inl hset⟩,
      fun hboth ↦ h.one.lookup_timer ⟨hboth.1, .inl hset⟩⟩, fun hboth ↦ ?_⟩
    rw [hqueued, EventState.enqueued_isSet] at hboth
    cases hboth.1

/-- The step lemma. -/
theorem Exclusive.step {a : Act C} (h : w.Exclusive) (ht : w.Tidy) (ha : w.Calm a)
    (hw : w.step cfg a = .ok w') : w'.Exclusive := by
  cases a with
  | submit c clid data now =>
    cases hw
    exact h.sources (update_sources ..)
  | activate c =>
    cases hw
    exact h.sources (update_sources ..)
  | flush c n =>
    cases hw
    exact h.sources (update_sources ..)
  | discard c =>
    obtain ⟨q, l, -, rfl⟩ := discard_ok hw
    exact h.sources (update_sources ..)
  | lookupEnds rc result =>
    rcases lookupEnds_ok hw with rfl | ⟨-, rfl⟩
    · exact h
    · exact h.congr rfl rfl rfl
  | raise =>
    cases hw
    exact h.congr rfl rfl rfl
  | poll now signalled evs =>
    rcases poll_ok hw with rfl | ⟨s, hs, rfl⟩
    · exact h
    · exact (h.poll ht.kinds (Scheduler.collect_spec ht.kinds.wf hs).1).congr rfl rfl rfl
  | notify e io =>
    rcases notify_ok hw with rfl | ⟨p, he, hhandle⟩
    · exact h
    · have htaken := h.taken he
      cases e with
      | fdev => exact htaken.descriptorReady hhandle
      | rstev =>
        exact initiateLookup_exclusive hhandle
          (congrArg (·.prioAppl) (Scheduler.changes_take he).event_self)
      | sigev => exact htaken.managerCheck hhandle
      | queueEvent c =>
        refine htaken.ready hhandle fun hboth ↦ ha ⟨hboth.1, ?_⟩
        have hsame := (Scheduler.changes_take he).event_of_ne (i := .rstev) nofun
        rw [← hsame]
        exact hboth.2

/-! ## Assertions

A function may fail in many ways.  What is shown is that none of them is one of the assertions in
question. -/

/-- None of the assertions fails. -/
def Safe {α : Type} (r : Except Halt α) : Prop := ∀ x, Guards x → r ≠ .error (.assertion x)

theorem safe_ok {α : Type} (a : α) : Safe (.ok a) := fun _ _ ↦ nofun

/-- A function that fails in other ways is safe. -/
theorem safe_of_fails {α : Type} {P : Halt → Prop} {r : Except Halt α} (h : Fails P r)
    (hP : ∀ a, P (.assertion a) → ¬ Guards a) : Safe r := fun a ha hr ↦ hP a (h _ hr) ha

/-- The failure of an assertion that this is not about. -/
theorem safe_assertion {α : Type} {a : Assertion} (ha : ¬ Guards a) :
    Safe (.error (.assertion a) : Except Halt α) := by
  intro b hb heq
  cases heq
  exact ha hb

theorem safe_exception {α : Type} (e : Exception) :
    Safe (.error (.exception e) : Except Halt α) := by
  intro a ha heq
  cases heq

theorem Safe.bind {α β : Type} {r : Except Halt α} {f : α → Except Halt β} (h : Safe r)
    (hf : ∀ a, r = .ok a → Safe (f a)) : Safe (r >>= f) := by
  cases r with
  | error x =>
    intro a ha heq
    exact h a ha (congrArg Except.error (Except.error.inj heq))
  | ok a => exact hf a rfl

theorem safe_trying {α : Type} {r : Except Halt α} (h : Fails Trying r) : Safe r :=
  safe_of_fails h fun _ ha ↦ nomatch ha

theorem safe_sending {α : Type} {r : Except Halt α} (h : Fails Sending r) : Safe r :=
  safe_of_fails h fun _ ha ↦ by cases ha <;> exact id

omit [DecidableEq C] in
theorem safe_initiateLookup (hset : (w.sched.event .rstev).isSet = false)
    (hon : w.addrev.on = false) (hsock : w.sock = none) (started : Except Eai Unit) :
    Safe (w.initiateLookup started) := by
  rw [initiateLookup, hset, hon, hsock]
  refine Safe.bind ?_ fun _ _ ↦ safe_ok _
  cases started with
  | error e => exact safe_exception _
  | ok => exact safe_ok _

theorem safe_ready (w : World C) (c : C) (io : Io) : Safe (w.ready cfg c io) := by
  rw [World.ready]
  split
  · exact safe_ok _
  · dsimp only
    split
    · exact safe_ok _
    · split
      · rename_i hsock
        split
        · exact safe_ok _
        · split
          · exact safe_ok _
          · rename_i hset hon
            exact safe_initiateLookup (w := w.joined c) (Bool.eq_false_iff.mpr hset)
              (Bool.eq_false_iff.mpr hon) (Option.isNone_iff_eq_none.mp hsock) _
      · split
        · exact safe_ok _
        · exact safe_sending (sending_trySend _ _)

theorem safe_connectNext (w : World C) (io : Io) : Safe (w.connectNext cfg io) := by
  by_cases hainf : w.ainf = []
  · rw [connectNext, hainf]
    intro x _ h
    cases h
  · exact safe_trying (trying_connectNext hainf io)

theorem safe_descriptorReady (w : World C) (evs : Mask) (io : Io) :
    Safe (w.descriptorReady cfg evs io) := by
  rw [World.descriptorReady]
  split
  · exact safe_assertion id
  split
  · split
    · split
      · exact safe_exception _
      · exact safe_assertion id
      · exact safe_connectNext w io
    · exact (safe_trying (trying_clearSocket w)).bind fun _ _ ↦ safe_ok _
  · split
    · exact safe_assertion id
    · split
      · split
        · exact safe_exception _
        · exact safe_trying (trying_setFdev _ _)
        · exact safe_connectNext w io
      · exact safe_sending (sending_trySend _ _)

/-- A look-up that has ended finds no socket. -/
theorem Exclusive.safe_managerCheck (h : w.Exclusive) : Safe (w.managerCheck cfg io) := by
  rw [World.managerCheck]
  rcases w.addrev.check_cases with hcheck | ⟨hon, p, -, hcheck⟩
  · rw [hcheck]
    exact safe_ok _
  · rw [hcheck]
    refine Safe.bind ?_ fun _ _ ↦ safe_ok _
    have hsock : w.sock = none := by
      by_contra hne
      exact h.one.sock_lookup ⟨hne, hon⟩
    dsimp only
    rw [addressResolved]
    dsimp only
    rw [hsock, Option.isSome_none, if_neg Bool.false_ne_true]
    exact safe_trying (trying_tryConnect rfl io)

/-- No step that starts from an exclusive state fails one of the assertions. -/
theorem Exclusive.safe_step (h : w.Exclusive) (ht : w.Tidy) (a : Act C) : Safe (w.step cfg a) := by
  cases a with
  | submit c clid data now => exact safe_ok _
  | activate c => exact safe_ok _
  | flush c n => exact safe_ok _
  | discard c =>
    rw [World.step]
    have hdiscard : Fails Trying (w.chan c).queue.discardFile := by
      rw [PayloadQueue.discardFile]
      split
      · exact fails_ok _
      · split
        · exact fails_error (.exception _)
        · exact fails_ok _
    exact safe_trying hdiscard.map
  | lookupEnds rc result =>
    rw [World.step]
    split <;> exact safe_ok _
  | raise => exact safe_ok _
  | poll now signalled evs =>
    rw [World.step]
    split
    · exact safe_ok _
    · have hcollect : Fails (fun x ↦ x = .assertion .addFd ∨ x.Throws)
          (w.sched.collect now (w.reports signalled evs)) := fun _ ↦ Scheduler.collect_error
      refine safe_of_fails hcollect.map fun a hfails ha ↦ ?_
      rcases hfails with heq | ⟨_, heq⟩
      · cases heq
        exact ha
      · cases heq
  | notify e io =>
    rw [World.step]
    split
    · exact safe_ok _
    · rename_i p _
      split
      · rename_i he
        have htaken := h.taken he
        cases e with
        | fdev => exact safe_descriptorReady _ _ _
        | rstev =>
          -- the timer was queued, so there is nothing else
          have hqueued := queued_of_mem ht.kinds.wf he
          have hset : ((w.taken p .rstev).sched.event .rstev).isSet = false := by
            rw [World.taken, (Scheduler.changes_take he).event_self]
            exact Bool.eq_false_iff.mpr fun hset ↦ h.once ⟨hset, hqueued⟩
          have hon : w.addrev.on = false :=
            Bool.eq_false_iff.mpr fun hon ↦ h.one.lookup_timer ⟨hon, .inr hqueued⟩
          have hsock : w.sock = none := by
            by_contra hne
            exact h.one.sock_timer ⟨hne, .inr hqueued⟩
          exact safe_initiateLookup hset hon hsock _
        | sigev => exact htaken.safe_managerCheck
        | queueEvent c => exact safe_ready _ _ _
      · exact safe_ok _

/-- **At most one thing at a time**, and none of the assertions that say so fails, in any run in
which no channel becomes the first source while the timer is queued. -/
theorem at_most_one {queue : C → PayloadQueue}
    (h : Run.Reach (step cfg) Calm (init cfg queue) w) :
    w.AtMostOne ∧ ∀ a, w.Calm a → ∀ x, Guards x → w.step cfg a ≠ .error (.assertion x) := by
  have hinv : w.Tidy ∧ w.Exclusive :=
    h.invariant (I := fun w ↦ w.Tidy ∧ w.Exclusive)
      ⟨tidy_init cfg queue, exclusive_init cfg queue⟩ fun _ _ _ ht ha hstep ↦
        ⟨ht.1.step hstep, ht.2.step ht.1 ha hstep⟩
  exact ⟨hinv.2.one, fun a _ ↦ hinv.2.safe_step hinv.1 a⟩

/-- An ingress with one channel. -/
def oneChannel : Config Unit where
  name := "out"
  label := fun _ ↦ 7
  szClid := 8

/-- Its queue, on an empty directory. -/
def emptyQueue : Unit → PayloadQueue := fun _ ↦ .fresh Channel.queueMem .empty .empty

/-- A datagram is submitted, and the channel is notified. -/
def firstSource : List (Act Unit) :=
  [.submit () 3 [1] 0, .poll 0 false none, .notify (.queueEvent ()) {}]

/-- The look-up ends, and there is a connection at once. -/
def firstConnection : List (Act Unit) :=
  [.lookupEnds 0 [⟨.inet, 6⟩], .poll 1 true none,
    .notify .sigev { connects := [⟨some 4, true, none, .connected⟩] }]

theorem at_most_one_source : ∃ w : World Unit, w.addrev.on ∧ w.AtMostOne ∧
    ∀ a, w.Calm a → ∀ x, Guards x → w.step oneChannel a ≠ .error (.assertion x) := by
  have hrun : Run.Checks (step oneChannel) Calm (init oneChannel emptyQueue) firstSource
      fun w ↦ w.addrev.on := by decide +kernel
  obtain ⟨w, hreach, hon⟩ := hrun.reach
  exact ⟨w, hon, at_most_one hreach⟩

/-- The datagram is sent, the peer closes the connection, and 33 seconds later there is another
datagram. -/
def race : List (Act Unit) :=
  [.poll 2 false (some { epollout := true }), .notify .fdev { sends := [.sent 7] },
    .poll 3 false (some { epollin := true }), .notify .fdev { now := 3 },
    .submit () 3 [1] 4, .poll (seconds 36) false none, .notify (.queueEvent ()) {}]

/-- Timer and channel are queued by one poll, and the channel is notified first. -/
theorem timer_races_source : ∃ w, Run.Reach (step oneChannel) Run.anyStep
    (init oneChannel emptyQueue) w ∧ ¬ w.AtMostOne ∧
      w.step oneChannel (.notify .rstev {}) = .error (.assertion .lookupAddrev) := by
  have hrun : Run.Checks (step oneChannel) Run.anyStep (init oneChannel emptyQueue)
      (firstSource ++ firstConnection ++ race) fun w ↦ w.addrev.on ∧
        (w.sched.event .rstev).prioAppl = 1 ∧
        failure (w.step oneChannel (.notify .rstev {})) = some (.assertion .lookupAddrev) := by
    decide +kernel
  obtain ⟨w, hreach, hon, hqueued, habort⟩ := hrun.reach
  refine ⟨w, hreach, fun hone ↦ ?_, failure_eq.mp habort⟩
  exact hone.lookup_timer ⟨hon, .inr (by rw [hqueued]; decide)⟩

end World
end TcpIngress
end UdpTun
