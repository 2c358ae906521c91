import UdpTun.Lib.Run
import UdpTun.TcpIngress.Steps

/-!
# The events of an ingress

In every run of an ingress, each of its events is used as what it is, and the descriptor event goes
with the socket: it is set for the socket that is open, and when none is open, it is neither set nor
queued.  This is `Tidy`, and every step keeps it (`Tidy.step`).

The handlers run in between, when an address is being tried and the descriptor event is not yet set
for the new socket.  `Kinds` is the part of it that holds even then.
-/

set_option autoImplicit false

namespace UdpTun
namespace TcpIngress
namespace World

open Scheduler (Changes)

variable {C : Type} [DecidableEq C] {cfg : Config C} {w w' : World C} {io : Io}

/-- Each event is used as what it is. -/
structure Kinds (w : World C) : Prop where
  wf : w.sched.WF
  fdev : (w.sched.event .fdev).isSet = false ∧ (w.sched.event .fdev).signo = 0
  rstev : (w.sched.event .rstev).signo = 0 ∧ (w.sched.event .rstev).fd = none
  idle : ∀ e ∈ w.sched.idleness, ∃ c, e = .queueEvent c

/-- The descriptor event goes with the socket. -/
structure Wired (w : World C) : Prop where
  sock : (w.sched.event .fdev).fd = w.sock
  parked : w.sock = none → (w.sched.event .fdev).prioAppl = 0

/-- Both. -/
structure Tidy (w : World C) : Prop where
  kinds : w.Kinds
  wired : w.Wired

theorem tidy_init (cfg : Config C) (queue : C → PayloadQueue) : (init cfg queue).Tidy := by
  have hs := Scheduler.changes_sigSet (Scheduler.init : Scheduler (Ev C)) .sigev sigusr2
  refine ⟨⟨hs.wf Scheduler.wf_init, ?_, ?_, fun e he ↦ ?_⟩, ?_, fun _ ↦ ?_⟩ <;>
    dsimp only [init] at *
  · rw [hs.event_of_ne (i := .fdev) nofun]
    exact ⟨rfl, rfl⟩
  · rw [hs.event_of_ne (i := .rstev) nofun]
    exact ⟨rfl, rfl⟩
  · rw [hs.idleness] at he
    cases he
  · rw [hs.event_of_ne (i := .fdev) nofun]
    rfl
  · rw [hs.event_of_ne (i := .fdev) nofun]
    rfl

omit [DecidableEq C] in
/-- Only the events and the socket matter. -/
theorem Tidy.congr (h : w.Tidy) (hsched : w'.sched = w.sched) (hsock : w'.sock = w.sock) :
    w'.Tidy := by
  obtain ⟨⟨hwf, hfdev, hrstev, hidle⟩, hwired, hparked⟩ := h
  exact ⟨⟨by rwa [hsched], by rwa [hsched], by rwa [hsched], by rwa [hsched]⟩,
    by rwa [hsched, hsock], by rwa [hsched, hsock]⟩

/-! ## Parts of handlers

The two halves of the invariant are kept by different functions: a new socket has no event for a
while. -/

omit [DecidableEq C] in
theorem Tidy.sources (h : w.Tidy) (hs : Sources w w') : w'.Tidy := by
  obtain ⟨⟨hwf, hfdev, hrstev, hidle⟩, hsock, hparked⟩ := h
  refine ⟨⟨hs.wf hwf, ?_, ?_, fun e he ↦ ?_⟩, ?_, fun hnone ↦ ?_⟩
  · rwa [hs.fdev]
  · rwa [hs.rstev]
  · exact (hs.idle e he).elim (hidle e) id
  · rwa [hs.fdev, hs.sock]
  · rw [hs.fdev]
    rw [hs.sock] at hnone
    exact hparked hnone

theorem Kinds.setRstev (h : w.Kinds) (now : TimePoint) (d : Int) : (w.setRstev now d).Kinds := by
  have hs := Scheduler.changes_timedSet w.sched .rstev (now + d)
  refine ⟨hs.wf h.wf, ?_, ?_, fun e he ↦ ?_⟩ <;> dsimp only [World.setRstev] at *
  · rw [hs.event_of_ne (i := .fdev) nofun]
    exact h.fdev
  · rw [hs.event_self]
    exact h.rstev
  · rw [hs.idleness] at he
    exact h.idle e he

theorem Wired.setRstev (h : w.Wired) (now : TimePoint) (d : Int) : (w.setRstev now d).Wired := by
  have hs := Scheduler.changes_timedSet w.sched .rstev (now + d)
  refine ⟨?_, fun hnone ↦ ?_⟩ <;> dsimp only [World.setRstev] at *
  · rw [hs.event_of_ne (i := .fdev) nofun]
    exact h.sock
  · rw [hs.event_of_ne (i := .fdev) nofun]
    exact h.parked hnone

/-- Whatever the descriptor event was before, it is set for the socket. -/
theorem Kinds.setFdev {events : Mask} (h : w.Kinds) (hw : w.setFdev events = .ok w') :
    w'.Tidy := by
  obtain ⟨fd, s', hfd, rfl, hs⟩ := setFdev_ok hw
  refine ⟨⟨hs.wf h.wf, ?_, ?_, fun e he ↦ ?_⟩, ?_, fun _ ↦ ?_⟩ <;> dsimp only at *
  · rw [hs.event_self]
    exact h.fdev
  · rw [hs.event_of_ne (i := .rstev) nofun]
    exact h.rstev
  · rw [hs.idleness] at he
    exact h.idle e he
  · rw [hs.event_self, hfd]
    rfl
  · rw [hs.event_self]
    rfl

theorem Kinds.clearSocket (h : w.Kinds) (hw : w.clearSocket = .ok w') :
    w'.Tidy ∧ w'.sock = none ∧ Parked (w'.sched.event .fdev) := by
  obtain ⟨s', rfl, hs⟩ := clearSocket_ok hw
  have hparked : Parked (s'.event .fdev) := by
    rw [hs.event_self]
    exact ⟨rfl, rfl⟩
  refine ⟨⟨⟨hs.wf h.wf, ?_, ?_, fun e he ↦ ?_⟩, hparked.fd, fun _ ↦ hparked.appl⟩, rfl, hparked⟩ <;>
    dsimp only at *
  · rw [hs.event_self]
    exact h.fdev
  · rw [hs.event_of_ne (i := .rstev) nofun]
    exact h.rstev
  · rw [hs.idleness] at he
    exact h.idle e he

omit [DecidableEq C] in
theorem Kinds.tried (h : w.Kinds) (ht : Tried w w') : w'.Kinds := by
  refine ⟨ht.wf h.wf, ?_, ?_, fun e he ↦ h.idle e ?_⟩
  · rw [ht.kind.1, ht.kind.2]
    exact h.fdev
  · rw [ht.rstev]
    exact h.rstev
  · rwa [← ht.apart.idleness]

omit [DecidableEq C] in
theorem Wired.parked' (h : w.Wired) (hnone : w.sock = none) : Parked (w.sched.event .fdev) :=
  ⟨h.sock.trans hnone, h.parked hnone⟩

theorem Tidy.attempted {now : TimePoint} (h : w.Tidy) (hnone : w.sock = none)
    (ha : Attempted now w w') : w'.Tidy := by
  obtain ⟨w₁, htried, ⟨hsock, rfl⟩ | ⟨-, events, -, hset⟩⟩ := ha
  · have hparked := htried.fdev (h.wired.parked' hnone)
    have hwired : w₁.Wired := ⟨by rw [hparked.fd, hsock], fun _ ↦ hparked.appl⟩
    exact ⟨(h.kinds.tried htried).setRstev .., hwired.setRstev ..⟩
  · exact (h.kinds.tried htried).setFdev hset

theorem Tidy.sent {now : TimePoint} (h : w.Tidy) (hs : Sent now w w') : w'.Tidy := by
  obtain ⟨w₁, hsources, ⟨rfl, -⟩ | hset | ⟨w₂, hclear, rfl⟩⟩ := hs
  · exact h.sources hsources
  · exact (h.sources hsources).kinds.setFdev hset
  · obtain ⟨htidy, -, -⟩ := (h.sources hsources).kinds.clearSocket hclear
    exact ⟨htidy.kinds.setRstev .., htidy.wired.setRstev ..⟩

omit [DecidableEq C] in
theorem Tidy.initiateLookup {started : Except Eai Unit} (h : w.Tidy)
    (hw : w.initiateLookup started = .ok w') : w'.Tidy := by
  obtain ⟨-, -, -, rfl⟩ := initiateLookup_ok hw
  exact h.congr rfl rfl

/-! ## Handlers

By the end of a handler both halves hold again. -/

theorem Tidy.ready {c : C} (h : w.Tidy) (hw : w.ready cfg c io = .ok w') : w'.Tidy := by
  have hjoined := h.sources (joined_sources w c)
  rcases ready_ok hw with ⟨-, rfl⟩ | ⟨-, ⟨rfl, -⟩ | ⟨-, hlookup⟩ | ⟨-, hsend⟩⟩
  · exact h
  · exact hjoined
  · exact hjoined.initiateLookup hlookup
  · exact hjoined.sent (trySend_ok hsend).2.2

theorem Tidy.descriptorReady {evs : Mask} (h : w.Tidy)
    (hw : w.descriptorReady cfg evs io = .ok w') : w'.Tidy := by
  obtain ⟨-, ⟨-, hnext⟩ | ⟨-, -, w₁, hclear, rfl⟩ | ⟨-, hset⟩ | ⟨-, -, hsend⟩⟩ :=
    descriptorReady_ok hw
  · obtain ⟨rest, w₁, hclear, htry⟩ := connectNext_ok hnext
    have hrest : Tidy { w with ainf := rest } := h.congr rfl rfl
    obtain ⟨htidy, hnone, -⟩ := hrest.kinds.clearSocket hclear
    exact htidy.attempted hnone (tryConnect_ok htry).2
  · obtain ⟨htidy, -, -⟩ := h.kinds.clearSocket hclear
    exact ⟨htidy.kinds.setRstev .., htidy.wired.setRstev ..⟩
  · have hconnected : Tidy { w with connected := true } := h.congr rfl rfl
    exact hconnected.kinds.setFdev hset
  · have hready : Tidy { w with upoutReady := true } := h.congr rfl rfl
    exact hready.sent (trySend_ok hsend).2.2

theorem Tidy.sigSet (h : w.Tidy) :
    Tidy { w with sched := w.sched.sigSet .sigev sigusr2 } := by
  have hs := Scheduler.changes_sigSet w.sched .sigev sigusr2
  refine ⟨⟨hs.wf h.kinds.wf, ?_, ?_, fun e he ↦ ?_⟩, ?_, fun hnone ↦ ?_⟩ <;> dsimp only at *
  · rw [hs.event_of_ne (i := .fdev) nofun]
    exact h.kinds.fdev
  · rw [hs.event_of_ne (i := .rstev) nofun]
    exact h.kinds.rstev
  · rw [hs.idleness] at he
    exact h.kinds.idle e he
  · rw [hs.event_of_ne (i := .fdev) nofun]
    exact h.wired.sock
  · rw [hs.event_of_ne (i := .fdev) nofun]
    exact h.wired.parked hnone

theorem Tidy.managerCheck (h : w.Tidy) (hw : w.managerCheck cfg io = .ok w') : w'.Tidy := by
  obtain ⟨w₁, rfl, ⟨-, rfl⟩ | ⟨-, hsock, -, hattempt⟩⟩ := managerCheck_ok hw
  · exact h.sigSet
  · have hoff : Tidy { w with addrev := { w.addrev with on := false } } := h.congr rfl rfl
    exact (hoff.attempted hsock hattempt).sigSet

/-! ## Steps

A poll collects, and a notification takes an event from its queue and calls the handler. -/

theorem Tidy.taken {p : Nat} {e : Ev C} (h : w.Tidy) (he : e ∈ w.sched.queues.bucket p) :
    (w.taken p e).Tidy := by
  have hs := Scheduler.changes_take he
  have hsame : ∀ e', (∀ {α : Type} (F : EventState → α),
      (∀ v : EventState, F v.dequeued = F v) →
        F ((w.sched.take p e).event e') = F (w.sched.event e')) := by
    intro e' α F hF
    by_cases heq : e' = e
    · subst heq
      rw [hs.event_self, hF]
    · rw [hs.event_of_ne heq]
  refine ⟨⟨hs.wf h.kinds.wf, ?_, ?_, h.kinds.idle⟩, ?_, fun hnone ↦ ?_⟩ <;> dsimp only [World.taken]
  · rw [hsame .fdev (·.isSet) fun _ ↦ rfl, hsame .fdev (·.signo) fun _ ↦ rfl]
    exact h.kinds.fdev
  · rw [hsame .rstev (·.signo) fun _ ↦ rfl, hsame .rstev (·.fd) fun _ ↦ rfl]
    exact h.kinds.rstev
  · rw [hsame .fdev (·.fd) fun _ ↦ rfl]
    exact h.wired.sock
  · by_cases heq : Ev.fdev = e
    · subst heq
      rw [hs.event_self]
      rfl
    · rw [hs.event_of_ne heq]
      exact h.wired.parked hnone

theorem Tidy.handle {e : Ev C} (h : w.Tidy) (hw : w.handle cfg io e = .ok w') : w'.Tidy := by
  cases e with
  | fdev => exact h.descriptorReady hw
  | rstev => exact h.initiateLookup hw
  | sigev => exact h.managerCheck hw
  | queueEvent c => exact h.ready hw

omit [DecidableEq C] in
/-- A descriptor event that is not in use is not collected. -/
theorem Kinds.inert_fdev (h : w.Kinds) (hp : Parked (w.sched.event .fdev)) :
    Scheduler.Inert (w.sched.event .fdev) ∧ .fdev ∉ w.sched.idleness := by
  refine ⟨⟨hp.appl, h.fdev.1, h.fdev.2, hp.fd⟩, fun he ↦ ?_⟩
  obtain ⟨c, hc⟩ := h.idle _ he
  cases hc

omit [DecidableEq C] in
theorem Tidy.poll {s : Scheduler (Ev C)} (h : w.Tidy) (hs : Scheduler.Stage w.sched s)
    (hidle : s.idleness = []) : Tidy { w with sched := s } := by
  have hfdev := hs.moves .fdev
  have hrstev := hs.moves .rstev
  refine ⟨⟨hs.wf, ⟨?_, ?_⟩, ⟨?_, ?_⟩, fun e he ↦ ?_⟩, ?_, fun hnone ↦ ?_⟩ <;> dsimp only at *
  · rcases hfdev.timer with ⟨hset, -⟩ | ⟨hset, -⟩
    · rw [hset, h.kinds.fdev.1]
    · rw [h.kinds.fdev.1] at hset
      cases hset
  · rcases hfdev.signal with hsigno | ⟨hsigno, -⟩
    · rw [hsigno, h.kinds.fdev.2]
    · exact hsigno
  · rcases hrstev.signal with hsigno | ⟨hsigno, -⟩
    · rw [hsigno, h.kinds.rstev.1]
    · exact hsigno
  · rw [hrstev.fd, h.kinds.rstev.2]
  · rw [hidle] at he
    cases he
  · rw [hfdev.fd, h.wired.sock]
  · obtain ⟨hinert, hnot⟩ := h.kinds.inert_fdev (h.wired.parked' hnone)
    rw [hs.inert hinert hnot]
    exact hinert.appl

/-- **Every step keeps the events tidy.** -/
theorem Tidy.step {a : Act C} (h : w.Tidy) (hw : w.step cfg a = .ok w') : w'.Tidy := by
  cases a with
  | submit c clid data now =>
    cases hw
    exact h.sources (update_sources ..)
  | activate c =>
    cases hw
    exact h.sources (update_sources ..)
  | flush c n =>
    cases hw
    exact h.sources (update_sources ..)
  | discard c =>
    obtain ⟨q, l, -, rfl⟩ := discard_ok hw
    exact h.sources (update_sources ..)
  | lookupEnds rc result =>
    rcases lookupEnds_ok hw with rfl | ⟨-, rfl⟩
    · exact h
    · exact h.congr rfl rfl
  | raise =>
    cases hw
    exact h.congr rfl rfl
  | poll now signalled evs =>
    rcases poll_ok hw with rfl | ⟨s, hs, rfl⟩
    · exact h
    · obtain ⟨hstage, hidle⟩ := Scheduler.collect_spec h.kinds.wf hs
      exact (h.poll hstage hidle).congr rfl rfl
  | notify e io =>
    rcases notify_ok hw with rfl | ⟨p, he, hhandle⟩
    · exact h
    · exact (h.taken he).handle hhandle

theorem tidy_of_reach {ok : World C → Act C → Prop} {queue : C → PayloadQueue}
    (h : Run.Reach (step cfg) ok (init cfg queue) w) : w.Tidy :=
  h.invariant (tidy_init cfg queue) fun _ _ _ ht _ hstep ↦ ht.step hstep

end World
end TcpIngress
end UdpTun
