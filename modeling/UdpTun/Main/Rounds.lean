import UdpTun.Main.Draining

/-!
# Runs of the main loop

What a run of `trapped_main` keeps, put together.

* `hangups_heeded`: no `SIGHUP` is lost, whenever it is raised.
* `ends_when_asked`: nothing but `SIGINT` and `SIGTERM` makes the program end, and they do; and the
  configuration is not read more often than `SIGHUP` says.
* `draining_ends`: when the inner loop is to be left, it is, by the end of the first poll that finds
  the time limit passed, which is set once.
* `rotations_heeded`: no `SIGUSR1` is lost, and its handler has a configuration to look at.
-/

set_option autoImplicit false

namespace UdpTun

open Scheduler (Kind)

namespace Main

variable {X : Type} [DecidableEq X]

variable {kind : X → Kind} {s : Main X} {e : Ev X} {n : Nat}

/-! ## Every run

The invariants of the two modules before are put together, since a step of one relies on what the
others say.  The four results are then read off. -/

/-- **The invariant.** -/
structure Inv (s : Main X) : Prop where
  heeds : s.Heeds
  stops : s.Stops
  drains : s.Drains
  counted : s.Counted
  rotates : s.Rotates

theorem inv_of_reach (h : Run.Reach (step kind) Run.anyStep start s) : s.Sound kind ∧ s.Inv := by
  refine kept ⟨heeds_start, stops_start, drains_start, ?_, rotates_start⟩
    (fun hsound hinv he ↦ ⟨hinv.heeds.step hsound he, hinv.stops.step hsound he,
      hinv.drains.step hsound hinv.heeds he, hinv.counted.step hsound hinv.heeds hinv.drains he,
      hinv.rotates.step hsound he⟩) h
  have howed : (start : Main X).owed = 1 := by
    have htold : (start : Main X).told = 0 := by
      refine if_neg ?_
      show ¬ ((launched.event .onSighup).prioAppl ≠ 0 ∨ _)
      rw [launched_event]
      nofun
    rw [Main.owed, htold]
    rfl
  refine ⟨Nat.zero_le _, fun _ ↦ ?_⟩
  rw [howed]
  rfl

omit [DecidableEq X] in
/-- An event that is queued may be the next to be notified. -/
theorem Sound.next (h : s.Sound kind) (he : e.Own) (hqueued : (s.ev e).prioAppl ≠ 0) :
    s.loop.Next e := by
  obtain ⟨d, hd, hmem⟩ := (h.foremost e he).next h.loop hqueued
  exact ⟨d, hd, hmem⟩

omit [DecidableEq X] in
theorem Sound.watched (h : s.Sound kind) (he : (s.ev e).signo = n) (hn : n ≠ 0) :
    n ∈ s.loop.sched.watching :=
  Loop.watched h.enrolled he hn

/-- **No `SIGHUP` is lost.**  From when one is raised until the configuration is read again, it is
pending, and waited for, or its handler is about to be called, or has been, or the inner loop is to
be left, or has been left; unless the program is to end.  Once a poll has read the signals, and is
over, the inner loop is to be left. -/
theorem hangups_heeded (h : Run.Reach (step kind) Run.anyStep start s) (hquit : s.quit = false)
    (hhangup : s.journal.hangup ≠ .absent) :
    (sighup ∈ s.raised ∧ sighup ∈ s.loop.sched.watching ∨ s.loop.Next .onSighup ∨
        s.reload = true ∨ s.awaitingIdle = true ∨ s.phase = .top) ∧
      (s.phase = .waiting → s.journal.hangup = .seen → s.awaitingIdle = true) := by
  obtain ⟨hsound, hinv⟩ := inv_of_reach h
  have hended : s.phase ≠ .ended := fun hended ↦ by
    cases hquit.symm.trans (hinv.stops.ended hended)
  constructor
  · by_cases hinner : s.phase.Inner
    · cases hinv.heeds.stage hinner hquit with
      | armed hsigno =>
        exact .inl ⟨(hinv.heeds.pending hinner hhangup hsigno).2, hsound.watched hsigno nofun⟩
      | rung _ hqueued => exact .inr (.inl (hsound.next trivial hqueued))
      | told _ _ hreload => exact .inr (.inr (.inl hreload))
      | heeded _ _ _ hawaiting => exact .inr (.inr (.inr (.inl hawaiting)))
    · refine .inr (.inr (.inr (.inr ?_)))
      cases hphase : s.phase with
      | top => rfl
      | ended => exact absurd hphase hended
      | setup | waiting | polling =>
        rw [hphase] at hinner
        exact absurd trivial hinner
  · intro hphase hseen
    have hinner : s.phase.Inner := by
      rw [hphase]
      trivial
    cases hinv.heeds.stage hinner hquit with
    | armed hsigno =>
      cases hseen.symm.trans (hinv.heeds.pending hinner hhangup hsigno).1
    | rung _ hqueued =>
      exact absurd (hsound.unqueued (e := .onSighup) (hsound.between (by rw [hphase]; nofun))
        trivial) hqueued
    | told _ _ hreload => cases hreload.symm.trans (hinv.heeds.settled (.inr hphase) hquit)
    | heeded _ _ _ hawaiting => exact hawaiting

/-- The configuration has been read, and is to be read again; and a second `SIGHUP` is raised when
the handler of the first has been called. -/
def twoHangups : List (Act Unit) :=
  [.read true, .activate, .raise sighup, .poll 5 [.signals], .notify .onSighup, .raise sighup,
    .finish, .check 6 true]

theorem hangups_heeded_twice : ∃ s : Main Unit, s.phase = .waiting ∧ s.raised = [sighup] ∧
    s.journal.hangup = .seen ∧
    (sighup ∈ s.raised ∧ sighup ∈ s.loop.sched.watching ∨ s.loop.Next .onSighup ∨
      s.reload = true ∨ s.awaitingIdle = true ∨ s.phase = .top) ∧ s.awaitingIdle = true := by
  have hrun : Run.Checks (step fun _ ↦ .timed) Run.anyStep start twoHangups fun s ↦
      s.phase = .waiting ∧ s.raised = [sighup] ∧ s.journal.hangup = .seen ∧ s.quit = false := by
    decide +kernel
  obtain ⟨s, hreach, hphase, hraised, hseen, hquit⟩ := hrun.reach
  obtain ⟨hpending, hawaiting⟩ := hangups_heeded hreach hquit (by rw [hseen]; nofun)
  exact ⟨s, hphase, hraised, hseen, hpending, hawaiting hphase hseen⟩

/-- **The inner loop is left in time.**  When that is awaited, there is a time limit, of ten seconds
at most, and of one if the program is not to end, that is set once: `quit_timeout` is set for it
whenever the loop is about to poll, and no poll since has found it passed.  When it is not awaited
`quit_timeout` is not set, and what is left of an earlier round of the outer loop does not come. -/
theorem draining_ends (h : Run.Reach (step kind) Run.anyStep start s)
    (hphase : s.phase = .waiting) : s.more = true ∧
      (s.awaitingIdle = true → ∃ w, s.journal.wait = some w ∧
        (w.deadline = w.began + seconds 1 ∨ s.quit = true ∧ w.deadline = w.began + seconds 10) ∧
        (s.ev .quitTimeout).timer = some w.deadline ∧ ∀ now ∈ w.since, now < w.deadline) ∧
      (s.awaitingIdle = false → s.quit = false ∧ Scheduler.Inert (s.ev .quitTimeout)) := by
  obtain ⟨hsound, hinv⟩ := inv_of_reach h
  have hunqueued : (s.ev .quitTimeout).prioAppl = 0 :=
    hsound.unqueued (hsound.between (by rw [hphase]; decide)) trivial
  refine ⟨hinv.drains.more hphase, fun hyes ↦ ?_, fun hno ↦ ?_⟩
  · cases hinv.drains.stage (.inl hphase) with
    | not hno => cases hno.symm.trans hyes
    | armed w _ _ hset _ hwait hwhen hsince =>
      refine ⟨w, hwait, hinv.drains.limit w hwait, ?_, hsince⟩
      rw [EventState.timer, if_pos hset, hwhen]
    | due _ _ hqueued => exact absurd hunqueued hqueued
    | fired _ _ _ hmore => cases hmore.symm.trans (hinv.drains.more hphase)
  · refine ⟨?_, ?_⟩
    · cases hquit : s.quit with
      | false => rfl
      | true => cases hno.symm.trans (hinv.drains.quit hphase hquit)
    · have hkind : (Ev.quitTimeout : Ev X).kind kind = .timed := rfl
      have hfits := hsound.loop.arena.fits .quitTimeout _ rfl
      cases hinv.drains.stage (.inl hphase) with
      | not _ _ hset =>
        exact ⟨hunqueued, hset, not_not.mp (mt hfits.signal (by rw [hkind]; decide)),
          not_not.mp (mt hfits.descriptor (by rw [hkind]; decide))⟩
      | armed _ hyes | due hyes | fired hyes => cases hno.symm.trans hyes

/-- A poll comes before the time limit. -/
theorem draining_ends_later : ∃ s : Main Unit, s.phase = .waiting ∧ s.more = true ∧
    ∃ w, s.journal.wait = some w ∧ w.since = [6] ∧
      (w.deadline = w.began + seconds 1 ∨ s.quit = true ∧ w.deadline = w.began + seconds 10) ∧
      (s.ev .quitTimeout).timer = some w.deadline ∧ ∀ now ∈ w.since, now < w.deadline := by
  have hrun : Run.Checks (step fun _ ↦ .timed) Run.anyStep start
      (twoHangups ++ [.poll 6 [], .check 6 true]) fun s ↦ s.phase = .waiting ∧
        s.awaitingIdle = true ∧ s.journal.wait.map (·.since) = some [6] := by
    decide +kernel
  obtain ⟨s, hreach, hphase, hawaiting, hsince⟩ := hrun.reach
  obtain ⟨hmore, hwait, -⟩ := draining_ends hreach hphase
  obtain ⟨w, hw, hlimit⟩ := hwait hawaiting
  rw [hw] at hsince
  exact ⟨s, hphase, hmore, w, hw, Option.some_inj.mp hsince, hlimit⟩

/-- **No `SIGUSR1` is lost**: from when one is raised until its handler is called, it is pending,
and waited for, or its handler is about to be called, and between polls it is the former.  The
handler always has the last configuration to look at, and so `Logging` always has that. -/
theorem rotations_heeded (h : Run.Reach (step kind) Run.anyStep start s) :
    (s.journal.rotation ≠ .absent → s.loop.Next .rotate ∨
        sigusr1 ∈ s.raised ∧ sigusr1 ∈ s.loop.sched.watching) ∧
      (s.journal.rotation = .seen → s.phase = .polling) ∧
      (s.loop.Next .rotate → s.readings ≠ 0 ∧ s.root = some (s.readings - 1)) ∧
      s.logging = if s.readings = 0 then none else some (s.readings - 1) := by
  obtain ⟨hsound, hinv⟩ := inv_of_reach h
  have hpolling : (s.ev .rotate).prioAppl ≠ 0 → s.phase = .polling := by
    intro hqueued
    by_contra hne
    exact hqueued (hsound.unqueued (e := .rotate) (hsound.between hne) trivial)
  refine ⟨fun hmade ↦ ?_, fun hseen ↦ ?_, fun ⟨d, hd, hmem⟩ ↦ ?_, hinv.rotates.logging⟩
  · exact (hinv.rotates.pending hmade).imp (hsound.next trivial) fun ⟨_, hraised, hset⟩ ↦
      ⟨hraised, hsound.watched hset nofun⟩
  · rcases hinv.rotates.pending (by rw [hseen]; nofun) with hqueued | ⟨hmade, -⟩
    · exact hpolling hqueued
    · cases hseen.symm.trans hmade
  · have hqueued := (Scheduler.mem_bucket_queues hsound.loop.wf).mp hmem
    have hphase := hpolling (by rw [hqueued.1]; exact hqueued.2)
    obtain ⟨hsome, hsame⟩ := hinv.rotates.root (by rw [hphase]; trivial)
    have hlogging := hinv.rotates.logging
    rw [hsame] at hsome ⊢
    split at hlogging
    · exact absurd hlogging hsome
    · exact ⟨‹_›, hlogging⟩

/-- It is raised before the configuration is read for the first time. -/
theorem rotations_heeded_early : ∃ s : Main Unit, s.loop.Next .rotate ∧ s.root = some 0 ∧
    (s.journal.rotation ≠ .absent → s.loop.Next .rotate ∨
      sigusr1 ∈ s.raised ∧ sigusr1 ∈ s.loop.sched.watching) ∧
    (s.journal.rotation = .seen → s.phase = .polling) ∧
    (s.loop.Next .rotate → s.readings ≠ 0 ∧ s.root = some (s.readings - 1)) ∧
    s.logging = if s.readings = 0 then none else some (s.readings - 1) := by
  have hrun : Run.Checks (step fun _ ↦ .timed) Run.anyStep start
      [.raise sigusr1, .read true, .activate, .poll 5 [.signals]] fun s : Main Unit ↦
        (∃ d ∈ s.loop.poll, .rotate ∈ s.loop.sched.queues.bucket d.prio) ∧ s.root = some 0 := by
    decide +kernel
  obtain ⟨s, hreach, hnext, hroot⟩ := hrun.reach
  exact ⟨s, hnext, hroot, rotations_heeded hreach⟩

end Main
end UdpTun
