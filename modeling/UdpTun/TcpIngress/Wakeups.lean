import UdpTun.TcpIngress.Exclusion

/-!
# No stall

An ingress that has sources must hear from something again: from its socket, when that is writable;
from its timer; or from its look-up.

`AddressEvent::check` passes over every code but 0.  So if a look-up ends in an error, the
`AddressEvent` stays on for ever, and its user is never called: `failed_lookup_stalls`.  As long as
every look-up ends well, something is always awaited: `no_stall`.
-/

set_option autoImplicit false

namespace UdpTun
namespace TcpIngress
namespace World

open Scheduler (Changes)

variable {C : Type} [DecidableEq C] {cfg : Config C} {w w' : World C} {io : Io}

/-! ## What there is to wait for

There are three things, and each is either still with the kernel or already in a queue. -/

/-- The kernel watches the socket for `EPOLLOUT`, or its event is queued. -/
def AwaitsSocket (w : World C) : Prop :=
  ∃ fd, w.sock = some fd ∧
    ((∃ events, w.sched.epoll.get? fd = some (.fdev, events) ∧ events.epollout) ∨
      ∃ p, .fdev ∈ w.sched.queues.bucket p)

/-- The timer is in the table, or queued. -/
def AwaitsTimer (w : World C) : Prop :=
  (∃ t, .rstev ∈ w.sched.table.bucket t) ∨ ∃ p, .rstev ∈ w.sched.queues.bucket p

/-- The look-up has not finished: its request is in progress; or it has ended well, and
`AddressManager::check` is still to be called, for the signal or from the queue. -/
def AwaitsLookup (w : World C) : Prop :=
  w.addrev.on ∧ (w.addrev.data = some .inProgress ∨
    (∃ p, w.addrev.data = some (.ended 0 p)) ∧
      ((w.pending ∧ .sigev ∈ w.sched.signalHandlers.bucket sigusr2) ∨
        ∃ p, .sigev ∈ w.sched.queues.bucket p))

/-- Every look-up ends well. -/
def Resolves (_ : World C) : Act C → Prop
  | .lookupEnds rc _ => rc = 0
  | _ => True

instance (w : World C) : DecidablePred w.Resolves := fun a ↦
  match a with
  | .lookupEnds rc _ => inferInstanceAs (Decidable (rc = 0))
  | .submit .. | .activate _ | .flush .. | .discard _ | .raise | .poll .. | .notify .. =>
    .isTrue trivial

/-! ## The invariant

It follows each of the three through the queues.  A look-up has two stages, its request and the
signal that ends it. -/

/-- A socket that is needed is waited for. -/
def Live (w : World C) : Prop :=
  w.sock ≠ none → w.streamers ≠ [] ∨ w.connected = false →
    (w.sched.event .fdev).expected.epollout ∨ (w.sched.event .fdev).prioAppl ≠ 0

/-- A look-up that is on is in progress, or has ended well and will be seen to. -/
def Looked (w : World C) : Prop :=
  w.addrev.on → w.addrev.data = some .inProgress ∨
    (∃ p, w.addrev.data = some (.ended 0 p)) ∧
      (w.pending ∨ (w.sched.event .sigev).prioAppl ≠ 0)

/-- The signal is waited for, or `check` is about to be called. -/
def Signalled (w : World C) : Prop :=
  (w.sched.event .sigev).signo = sigusr2 ∨ (w.sched.event .sigev).prioAppl ≠ 0

/-- There is something to wait for while there are sources. -/
def Busy (w : World C) : Prop :=
  w.streamers ≠ [] → w.sock ≠ none ∨ w.addrev.on ∨ w.Waiting

/-- What a handler that deals with the socket ends with. -/
structure Settled (w : World C) : Prop where
  live : w.Live
  busy : w.Busy

/-- All of it. -/
structure Awake (w : World C) : Prop where
  settled : w.Settled
  looked : w.Looked
  signalled : w.Signalled

theorem awake_init (cfg : Config C) (queue : C → PayloadQueue) : (init cfg queue).Awake := by
  have hs := Scheduler.changes_sigSet (Scheduler.init : Scheduler (Ev C)) .sigev sigusr2
  have hsigno := congrArg (·.signo) hs.event_self
  exact ⟨⟨fun hsock ↦ absurd rfl hsock, fun hne ↦ absurd rfl hne⟩, fun hon ↦ (nomatch hon),
    .inl hsigno⟩

/-! ## Parts of handlers

What sets the timer or the descriptor event leaves something to wait for, whatever was the case
before. -/

/-- The timer is armed, and there is no socket. -/
theorem settled_setRstev (hsock : w.sock = none) (now : TimePoint) (d : Int) :
    (w.setRstev now d).Settled := by
  have hs := Scheduler.changes_timedSet w.sched .rstev (now + d)
  refine ⟨fun hopen ↦ absurd hsock hopen, fun _ ↦ .inr (.inr (.inl ?_))⟩
  exact congrArg (·.isSet) hs.event_self

/-- The socket is waited for. -/
theorem settled_setFdev {events : Mask} (hout : events.epollout)
    (hw : w.setFdev events = .ok w') : w'.Settled := by
  obtain ⟨fd, s', hfd, rfl, hs⟩ := setFdev_ok hw
  refine ⟨fun _ _ ↦ .inl ?_, fun _ ↦ .inl ?_⟩
  · rw [hs.event_self]
    exact hout
  · exact fun hnone ↦ absurd (hfd.symm.trans hnone) nofun

/-- The look-up and the event of its signal are left alone. -/
structure KeepsLookup (w w' : World C) : Prop where
  addrev : w'.addrev = w.addrev
  pending : w'.pending = w.pending
  sigev : w'.sched.event .sigev = w.sched.event .sigev

omit [DecidableEq C] in
theorem KeepsLookup.trans {w'' : World C} (h : KeepsLookup w w') (h' : KeepsLookup w' w'') :
    KeepsLookup w w'' :=
  ⟨h'.addrev.trans h.addrev, h'.pending.trans h.pending, h'.sigev.trans h.sigev⟩

omit [DecidableEq C] in
theorem Sources.keepsLookup (h : Sources w w') : KeepsLookup w w' :=
  ⟨h.addrev, h.pending, h.sigev⟩

omit [DecidableEq C] in
theorem Looked.keep (h : w.Looked) (hk : KeepsLookup w w') : w'.Looked := by
  rwa [Looked, hk.addrev, hk.pending, hk.sigev]

omit [DecidableEq C] in
theorem Signalled.keep (h : w.Signalled) (hk : KeepsLookup w w') : w'.Signalled := by
  rwa [Signalled, hk.sigev]

theorem setRstev_keepsLookup (w : World C) (now : TimePoint) (d : Int) :
    KeepsLookup w (w.setRstev now d) :=
  ⟨rfl, rfl, (Scheduler.changes_timedSet w.sched .rstev (now + d)).event_of_ne nofun⟩

theorem setFdev_keepsLookup {events : Mask} (hw : w.setFdev events = .ok w') :
    KeepsLookup w w' := by
  obtain ⟨fd, s', -, rfl, hs⟩ := setFdev_ok hw
  exact ⟨rfl, rfl, hs.event_of_ne nofun⟩

theorem clearSocket_keepsLookup (hw : w.clearSocket = .ok w') : KeepsLookup w w' := by
  obtain ⟨s', rfl, hs⟩ := clearSocket_ok hw
  exact ⟨rfl, rfl, hs.event_of_ne nofun⟩

theorem Attempted.keepsLookup {now : TimePoint} (ha : Attempted now w w') :
    KeepsLookup w w' := by
  obtain ⟨w₁, htried, hend⟩ := ha
  have hfirst : KeepsLookup w w₁ := ⟨htried.addrev, htried.pending, htried.sigev⟩
  obtain ⟨-, rfl⟩ | ⟨-, events, -, hset⟩ := hend
  · exact hfirst.trans (setRstev_keepsLookup ..)
  · exact hfirst.trans (setFdev_keepsLookup hset)

theorem Sent.keepsLookup {now : TimePoint} (hs : Sent now w w') : KeepsLookup w w' := by
  obtain ⟨w₁, hsources, ⟨rfl, -⟩ | hset | ⟨w₂, hclear, rfl⟩⟩ := hs
  · exact hsources.keepsLookup
  · exact hsources.keepsLookup.trans (setFdev_keepsLookup hset)
  · exact (hsources.keepsLookup.trans (clearSocket_keepsLookup hclear)).trans
      (setRstev_keepsLookup ..)

theorem Attempted.settled {now : TimePoint} (ha : Attempted now w w') : w'.Settled := by
  obtain ⟨w₁, -, ⟨hsock, rfl⟩ | ⟨-, events, hout, hset⟩⟩ := ha
  · exact settled_setRstev hsock ..
  · exact settled_setFdev hout hset

/-- After sending over a connection, there are no sources, or something is waited for. -/
theorem Sent.settled {now : TimePoint} (hconnected : w.connected) (hs : Sent now w w') :
    w'.Settled := by
  obtain ⟨w₁, hsources, ⟨rfl, hempty⟩ | hset | ⟨w₂, hclear, rfl⟩⟩ := hs
  · refine ⟨fun _ hneed ↦ ?_, fun hne ↦ absurd hempty hne⟩
    rcases hneed with hne | hfalse
    · exact absurd hempty hne
    · rw [hsources.connected, hconnected] at hfalse
      cases hfalse
  · exact settled_setFdev rfl hset
  · obtain ⟨s', rfl, -⟩ := clearSocket_ok hclear
    exact settled_setRstev rfl ..

/-! ## Handlers

A handler has used up what was waited for, and so it has to leave something new, or no sources. -/

theorem descriptorReady_settled {evs : Mask} (hw : w.descriptorReady cfg evs io = .ok w') :
    w'.Settled ∧ KeepsLookup w w' := by
  obtain ⟨-, ⟨-, hnext⟩ | ⟨-, -, w₁, hclear, rfl⟩ | ⟨-, hset⟩ | ⟨hconnected, -, hsend⟩⟩ :=
    descriptorReady_ok hw
  · obtain ⟨rest, w₁, hclear, htry⟩ := connectNext_ok hnext
    have hattempt := (tryConnect_ok htry).2
    have hfirst : KeepsLookup { w with ainf := rest } w₁ := clearSocket_keepsLookup hclear
    have hrest : KeepsLookup w w₁ := ⟨hfirst.addrev, hfirst.pending, hfirst.sigev⟩
    exact ⟨hattempt.settled, hrest.trans hattempt.keepsLookup⟩
  · obtain ⟨s', rfl, -⟩ := clearSocket_ok hclear
    exact ⟨settled_setRstev rfl ..,
      (clearSocket_keepsLookup hclear).trans (setRstev_keepsLookup ..)⟩
  · have hkeeps := setFdev_keepsLookup hset
    exact ⟨settled_setFdev rfl hset, hkeeps.addrev, hkeeps.pending, hkeeps.sigev⟩
  · have hsent := (trySend_ok hsend).2.2
    have hkeeps := hsent.keepsLookup
    exact ⟨Sent.settled (w := { w with upoutReady := true }) hconnected hsent, hkeeps.addrev,
      hkeeps.pending, hkeeps.sigev⟩

omit [DecidableEq C] in
/-- A look-up has been started. -/
theorem awake_initiateLookup {started : Except Eai Unit} (hw : w.initiateLookup started = .ok w')
    (hs : w.Signalled) : w'.Awake := by
  obtain ⟨-, -, hsock, rfl⟩ := initiateLookup_ok hw
  exact ⟨⟨fun hopen ↦ absurd hsock hopen, fun _ ↦ .inr (.inl rfl)⟩, fun _ ↦ .inl rfl, hs⟩

theorem Awake.ready {c : C} (h : w.Awake) (hw : w.ready cfg c io = .ok w') : w'.Awake := by
  have hkeeps := (joined_sources w c).keepsLookup
  rcases ready_ok hw with ⟨-, rfl⟩ | ⟨-, ⟨rfl, hwhy⟩ | ⟨-, hlookup⟩ | ⟨-, hsend⟩⟩
  · exact h
  · refine ⟨⟨fun hsock _ ↦ h.settled.live hsock ?_, fun _ ↦ ?_⟩, h.looked.keep hkeeps,
      h.signalled.keep hkeeps⟩
    · rcases hwhy with hne | ⟨hnone, -⟩ | ⟨-, hfalse⟩
      · exact .inl hne
      · exact absurd hnone hsock
      · exact .inr hfalse
    · rcases hwhy with hne | ⟨-, hset | hon⟩ | ⟨hsock, -⟩
      · exact h.settled.busy hne
      · exact .inr (.inr (.inl hset))
      · exact .inr (.inl hon)
      · exact .inl hsock
  · exact awake_initiateLookup hlookup (h.signalled.keep hkeeps)
  · obtain ⟨-, hconnected, hsent⟩ := trySend_ok hsend
    have hkeeps' := hkeeps.trans hsent.keepsLookup
    exact ⟨hsent.settled hconnected, h.looked.keep hkeeps', h.signalled.keep hkeeps'⟩

/-- The signal is waited for again. -/
theorem signalled_sigSet (w : World C) :
    Signalled { w with sched := w.sched.sigSet .sigev sigusr2 } :=
  .inl (congrArg (·.signo) (Scheduler.changes_sigSet w.sched .sigev sigusr2).event_self)

theorem Settled.sigSet (h : w.Settled) :
    Settled { w with sched := w.sched.sigSet .sigev sigusr2 } := by
  have hs := Scheduler.changes_sigSet w.sched .sigev sigusr2
  have hfdev := hs.event_of_ne (i := .fdev) nofun
  have hrstev := hs.event_of_ne (i := .rstev) nofun
  refine ⟨fun hsock hneed ↦ ?_, fun hne ↦ ?_⟩
  · rw [hfdev]
    exact h.live hsock hneed
  · rw [Waiting, hrstev]
    exact h.busy hne

/-- `check` sees to a look-up that has ended, whether the signal was pending or not. -/
theorem awake_managerCheck (hw : w.managerCheck cfg io = .ok w') (h : w.Settled)
    (hlook : w.addrev.on → w.addrev.data = some .inProgress ∨
      ∃ p, w.addrev.data = some (.ended 0 p)) : w'.Awake := by
  obtain ⟨w₁, rfl, ⟨hcheck, rfl⟩ | ⟨-, -, -, hattempt⟩⟩ := managerCheck_ok hw
  · refine ⟨h.sigSet, fun hon ↦ .inl ?_, signalled_sigSet _⟩
    rcases hlook hon with hdata | ⟨p, hdata⟩
    · exact hdata
    · -- the user would have been called
      have hnone := congrArg Prod.snd hcheck
      dsimp only at hon
      rw [AddressEvent.check, hon, hdata] at hnone
      cases hnone
  · refine ⟨hattempt.settled.sigSet, fun hon ↦ ?_, signalled_sigSet _⟩
    dsimp only at hon
    rw [hattempt.keepsLookup.addrev] at hon
    cases hon

/-! ## Steps

A poll takes nothing away: what is not waited for any more has been queued. -/

omit [DecidableEq C] in
theorem Awake.sources (h : w.Awake) (hs : Sources w w') (hstreamers : w'.streamers = w.streamers) :
    w'.Awake := by
  refine ⟨⟨?_, ?_⟩, h.looked.keep hs.keepsLookup, h.signalled.keep hs.keepsLookup⟩
  · rw [Live, hs.sock, hstreamers, hs.connected, hs.fdev]
    exact h.settled.live
  · rw [Busy, hstreamers, hs.sock, hs.addrev, Waiting, hs.rstev]
    exact h.settled.busy

/-- What is waited for stays so, or is queued. -/
theorem Awake.poll {now : TimePoint} {signalled : Bool} {evs : Option Mask}
    {s : Scheduler (Ev C)} (h : w.Awake) (ht : w.Tidy)
    (hs : w.sched.collect now (w.reports signalled evs) = .ok s) : Awake
      { w with sched := s, pending := w.pending && !(signalled && w.readable) } := by
  have hmoves := (Scheduler.collect_spec ht.kinds.wf hs).1.moves
  have hqueued : ∀ e, (w.sched.event e).prioAppl ≠ 0 → (s.event e).prioAppl ≠ 0 :=
    fun e ↦ (hmoves e).queued
  have hread : signalled ∧ w.readable → (s.event .sigev).prioAppl ≠ 0 := by
    rintro ⟨hsig, hreadable⟩
    rcases h.signalled with hsigno | hq
    · simp only [reports, hsig, hreadable, Bool.and_self, if_true, List.singleton_append] at hs
      exact Scheduler.collect_queued ht.kinds.wf hs (by decide) hsigno
    · exact hqueued _ hq
  refine ⟨⟨fun hsock hneed ↦ ?_, fun hne ↦ ?_⟩, fun hon ↦ ?_, ?_⟩
  · rcases h.settled.live hsock hneed with hout | hq
    · rcases (hmoves .fdev).report with ⟨-, hsame⟩ | hq
      · exact .inl (by rw [hsame]; exact hout)
      · exact .inr hq
    · exact .inr (hqueued _ hq)
  · rcases h.settled.busy hne with hsock | hon | hset | hq
    · exact .inl hsock
    · exact .inr (.inl hon)
    · rcases (hmoves .rstev).timer with ⟨hsame, -⟩ | ⟨-, hq⟩
      · exact .inr (.inr (.inl (by rw [hsame]; exact hset)))
      · exact .inr (.inr (.inr hq))
    · exact .inr (.inr (.inr (hqueued _ hq)))
  · refine (h.looked hon).imp_right (.imp_right fun hseen ↦ ?_)
    rcases hseen with hpending | hq
    · by_cases hboth : signalled ∧ w.readable
      · exact .inr (hread hboth)
      · refine .inl ?_
        rw [← Bool.and_eq_true, Bool.not_eq_true] at hboth
        dsimp only
        rw [hpending, hboth]
        rfl
    · exact .inr (hqueued _ hq)
  · rcases h.signalled with hsigno | hq
    · rcases (hmoves .sigev).signal with hsame | ⟨-, hq⟩
      · exact .inl (hsame.trans hsigno)
      · exact .inr hq
    · exact .inr (hqueued _ hq)

theorem Settled.taken {p : Nat} {e : Ev C} (h : w.Settled) (he : e ∈ w.sched.queues.bucket p)
    (hfdev : e ≠ .fdev) (hrstev : e ≠ .rstev) : (w.taken p e).Settled := by
  have hs := Scheduler.changes_take he
  have hf : (w.taken p e).sched.event .fdev = w.sched.event .fdev := hs.event_of_ne (Ne.symm hfdev)
  have hr : (w.taken p e).sched.event .rstev = w.sched.event .rstev :=
    hs.event_of_ne (Ne.symm hrstev)
  refine ⟨?_, ?_⟩
  · rw [Live, hf]
    exact h.live
  · rw [Busy, Waiting, hr]
    exact h.busy

theorem taken_keepsLookup {p : Nat} {e : Ev C} (he : e ∈ w.sched.queues.bucket p)
    (hsigev : e ≠ .sigev) : KeepsLookup w (w.taken p e) :=
  ⟨rfl, rfl, (Scheduler.changes_take he).event_of_ne (Ne.symm hsigev)⟩

/-- The step lemma. -/
theorem Awake.step {a : Act C} (h : w.Awake) (ht : w.Tidy) (ha : w.Resolves a)
    (hw : w.step cfg a = .ok w') : w'.Awake := by
  cases a with
  | submit c clid data now =>
    cases hw
    exact h.sources (update_sources ..) (update_streamers ..).1
  | activate c =>
    cases hw
    exact h.sources (update_sources ..) (update_streamers ..).1
  | flush c n =>
    cases hw
    exact h.sources (update_sources ..) (update_streamers ..).1
  | discard c =>
    obtain ⟨q, l, -, rfl⟩ := discard_ok hw
    exact h.sources (update_sources ..) (update_streamers ..).1
  | lookupEnds rc result =>
    rcases lookupEnds_ok hw with rfl | ⟨-, rfl⟩
    · exact h
    · obtain rfl : rc = 0 := ha
      exact ⟨⟨h.settled.live, h.settled.busy⟩, fun _ ↦ .inr ⟨⟨result, rfl⟩, .inl rfl⟩,
        h.signalled⟩
  | raise =>
    cases hw
    exact ⟨⟨h.settled.live, h.settled.busy⟩,
      fun hon ↦ (h.looked hon).imp_right (.imp_right fun _ ↦ .inl rfl), h.signalled⟩
  | poll now signalled evs =>
    rcases poll_ok hw with rfl | ⟨s, hs, rfl⟩
    · exact h
    · exact h.poll ht hs
  | notify e io =>
    rcases notify_ok hw with rfl | ⟨p, he, hhandle⟩
    · exact h
    · cases e with
      | fdev =>
        obtain ⟨hsettled, hkeeps⟩ := descriptorReady_settled hhandle
        have hkeeps' := (taken_keepsLookup he nofun).trans hkeeps
        exact ⟨hsettled, h.looked.keep hkeeps', h.signalled.keep hkeeps'⟩
      | rstev =>
        exact awake_initiateLookup hhandle (h.signalled.keep (taken_keepsLookup he nofun))
      | sigev =>
        refine awake_managerCheck hhandle (h.settled.taken he nofun nofun) fun hon ↦ ?_
        exact (h.looked hon).imp_right And.left
      | queueEvent c =>
        have hkeeps := taken_keepsLookup he nofun
        have htaken : (w.taken p (.queueEvent c)).Awake :=
          ⟨h.settled.taken he nofun nofun, h.looked.keep hkeeps, h.signalled.keep hkeeps⟩
        exact htaken.ready hhandle

/-! ## Runs

A run that begins with nothing to send stays well as long as look-ups do.  One that fails is enough
to stop all. -/

/-- **An ingress with sources awaits something**, in any run in which every look-up ends well. -/
theorem no_stall {queue : C → PayloadQueue}
    (h : Run.Reach (step cfg) Resolves (init cfg queue) w) (hne : w.streamers ≠ []) :
    w.AwaitsSocket ∨ w.AwaitsTimer ∨ w.AwaitsLookup := by
  have hinv : w.Tidy ∧ w.Awake :=
    h.invariant (I := fun w ↦ w.Tidy ∧ w.Awake)
      ⟨tidy_init cfg queue, awake_init cfg queue⟩ fun _ _ _ ht ha hstep ↦
        ⟨ht.1.step hstep, ht.2.step ht.1 ha hstep⟩
  obtain ⟨⟨⟨hwf, -, -, -⟩, hwired, -⟩, ⟨hlive, hbusy⟩, hlooked, hsignalled⟩ := hinv
  rcases hbusy hne with hsock | hon | hset | hq
  · obtain ⟨fd, hfd⟩ := Option.ne_none_iff_exists'.mp hsock
    refine .inl ⟨fd, hfd, (hlive hsock (.inl hne)).imp (fun hout ↦ ?_) (mem_queue hwf)⟩
    exact ⟨_, (hwf.epoll fd .fdev _).mpr ⟨hwired.trans hfd, rfl⟩, hout⟩
  · refine .inr (.inr ⟨hon, (hlooked hon).imp_right (.imp_right fun hseen ↦ ?_)⟩)
    rcases hseen with hpending | hq
    · rcases hsignalled with hsigno | hq
      · refine .inl ⟨hpending, (hwf.handlers sigusr2 .sigev).mpr ?_⟩
        dsimp only
        rw [EventState.signal, hsigno]
        rfl
      · exact .inr (mem_queue hwf hq)
    · exact .inr (mem_queue hwf hq)
  · refine .inr (.inl (.inl ⟨_, (hwf.table _ .rstev).mpr (if_pos hset)⟩))
  · exact .inr (.inl (.inr (mem_queue hwf hq)))

theorem no_stall_source : ∃ w : World Unit, w.streamers ≠ [] ∧
    (w.AwaitsSocket ∨ w.AwaitsTimer ∨ w.AwaitsLookup) := by
  have hrun : Run.Checks (step oneChannel) Resolves (init oneChannel emptyQueue)
      (firstSource ++ firstConnection) fun w ↦ w.streamers ≠ [] := by decide +kernel
  obtain ⟨w, hreach, hne⟩ := hrun.reach
  exact ⟨w, hne, no_stall hreach hne⟩

/-- The look-up ends with `EAI_NONAME`, and `AddressManager::check` is called. -/
theorem failed_lookup_stalls : ∃ w, Run.Reach (step oneChannel) Run.anyStep
    (init oneChannel emptyQueue) w ∧ w.streamers ≠ [] ∧
      ¬ (w.AwaitsSocket ∨ w.AwaitsTimer ∨ w.AwaitsLookup) := by
  have hrun : Run.Checks (step oneChannel) Run.anyStep (init oneChannel emptyQueue)
      (firstSource ++ [.lookupEnds (-2) [], .poll 1 true none, .notify .sigev {}])
      fun w ↦ w.streamers ≠ [] ∧ w.sock = none ∧ (w.sched.event .rstev).isSet = false ∧
        (w.sched.event .rstev).prioAppl = 0 ∧ w.addrev.data = some (.ended (-2) []) := by
    decide +kernel
  obtain ⟨w, hreach, hne, hsock, hset, hzero, hdata⟩ := hrun.reach
  have hwf := (tidy_of_reach hreach).kinds.wf
  refine ⟨w, hreach, hne, ?_⟩
  rintro (⟨fd, hfd, -⟩ | (⟨t, hmem⟩ | ⟨p, hmem⟩) | ⟨-, hlook⟩)
  · rw [hsock] at hfd
    cases hfd
  · have htimer : (w.sched.event .rstev).timer = some t := (hwf.table t .rstev).mp hmem
    rw [EventState.timer, hset] at htimer
    cases htimer
  · exact queued_of_mem hwf hmem hzero
  · rw [hdata] at hlook
    rcases hlook with hlook | ⟨⟨p, hlook⟩, -⟩ <;> cases hlook

end World
end TcpIngress
end UdpTun
