import UdpTun.Main.Steps

/-!
# The signals of the main loop

An invariant for each of the things that a signal asks for: `Heeds`, for `SIGHUP`; `Stops`, for
`SIGINT` and `SIGTERM`; and `Rotates`, for `SIGUSR1`.  Each says where the request is that has been
made: with the kernel, in a queue, or in a variable.

* `Hangup` has the four stages of a request to read the configuration again.
* `Heeds.step`, `Stops.step` and `Rotates.step` are the step lemmas, from `Effect`.
-/

set_option autoImplicit false

namespace UdpTun

open Scheduler (Kind)

namespace Main

variable {X : Type} [DecidableEq X]

variable {kind : X → Kind} {s s' : Main X} {loop : Loop (Ev X)}

/-! ## Hangups

A `SIGHUP` goes from the kernel to the queue and from there to the variable `reload`, and back to
the start when the configuration has been read.  It can be raised again at any of these places. -/

/-- The body of the outer loop is under way. -/
def Phase.Inner : Phase → Prop
  | .top | .ended => False
  | _ => True

/-- How far the program has got with `SIGHUP`, as long as it has not been told to end. -/
inductive Hangup (s : Main X) : Prop
  | armed (hsigno : (s.ev .onSighup).signo = sighup) (happl : (s.ev .onSighup).prioAppl = 0)
      (hreload : s.reload = false) (hawaiting : s.awaitingIdle = false)
  | rung (hsigno : (s.ev .onSighup).signo = 0) (happl : (s.ev .onSighup).prioAppl ≠ 0)
      (hreload : s.reload = false) (hawaiting : s.awaitingIdle = false)
  | told (hsigno : (s.ev .onSighup).signo = 0) (happl : (s.ev .onSighup).prioAppl = 0)
      (hreload : s.reload = true) (hawaiting : s.awaitingIdle = false)
  | heeded (hsigno : (s.ev .onSighup).signo = 0) (happl : (s.ev .onSighup).prioAppl = 0)
      (hreload : s.reload = false) (hawaiting : s.awaitingIdle = true)

/-- **The invariant** for `SIGHUP`. -/
structure Heeds (s : Main X) : Prop where
  stage : s.phase.Inner → s.quit = false → s.Hangup
  outside : s.phase = .top ∨ s.phase = .setup → s.awaitingIdle = false
  settled : s.phase = .setup ∨ s.phase = .waiting → s.quit = false → s.reload = false
  pending : s.phase.Inner → s.journal.hangup ≠ .absent → (s.ev .onSighup).signo = sighup →
    s.journal.hangup = .made ∧ sighup ∈ s.raised

omit [DecidableEq X] in
theorem Hangup.congr (h : s.Hangup) (hev : s'.ev .onSighup = s.ev .onSighup)
    (hreload : s'.reload = s.reload) (hawaiting : s'.awaitingIdle = s.awaitingIdle) :
    s'.Hangup := by
  cases h with
  | armed h₁ h₂ h₃ h₄ =>
    exact .armed (hev ▸ h₁) (hev ▸ h₂) (hreload.trans h₃) (hawaiting.trans h₄)
  | rung h₁ h₂ h₃ h₄ =>
    exact .rung (hev ▸ h₁) (hev ▸ h₂) (hreload.trans h₃) (hawaiting.trans h₄)
  | told h₁ h₂ h₃ h₄ =>
    exact .told (hev ▸ h₁) (hev ▸ h₂) (hreload.trans h₃) (hawaiting.trans h₄)
  | heeded h₁ h₂ h₃ h₄ =>
    exact .heeded (hev ▸ h₁) (hev ▸ h₂) (hreload.trans h₃) (hawaiting.trans h₄)

omit [DecidableEq X] in
/-- What has nothing to do with `SIGHUP`. -/
theorem Heeds.congr (h : s.Heeds) (hev : s'.ev .onSighup = s.ev .onSighup)
    (hphase : s'.phase = s.phase) (hreload : s'.reload = s.reload) (hquit : s'.quit = s.quit)
    (hawaiting : s'.awaitingIdle = s.awaitingIdle) (hraised : s'.raised = s.raised)
    (hhangup : s'.journal.hangup = s.journal.hangup) : s'.Heeds := by
  refine ⟨fun hinner hnot ↦ ?_, fun hout ↦ ?_, fun hwait hnot ↦ ?_, fun hinner hmade hsigno ↦ ?_⟩
  · exact (h.stage (hphase ▸ hinner) (hquit ▸ hnot)).congr hev hreload hawaiting
  · rw [hawaiting]
    exact h.outside (hphase ▸ hout)
  · rw [hreload]
    exact h.settled (hphase ▸ hwait) (hquit ▸ hnot)
  · rw [hhangup, hraised]
    exact h.pending (hphase ▸ hinner) (hhangup ▸ hmade) (hev ▸ hsigno)

omit [DecidableEq X] in
/-- The program has been told to end. -/
theorem Heeds.quit (h : s.Heeds) (hev : (s'.ev .onSighup).signo = (s.ev .onSighup).signo)
    (hphase : s'.phase = s.phase) (hquit : s'.quit = true)
    (hawaiting : s'.awaitingIdle = s.awaitingIdle) (hraised : s'.raised = s.raised)
    (hhangup : s'.journal.hangup = s.journal.hangup) : s'.Heeds := by
  have hnever : s'.quit ≠ false := by
    rw [hquit]
    nofun
  refine ⟨fun _ hnot ↦ absurd hnot hnever, fun hout ↦ ?_, fun _ hnot ↦ absurd hnot hnever,
    fun hinner hmade hsigno ↦ ?_⟩
  · rw [hawaiting]
    exact h.outside (hphase ▸ hout)
  · rw [hhangup, hraised]
    exact h.pending (hphase ▸ hinner) (hhangup ▸ hmade) (hev ▸ hsigno)

omit [DecidableEq X] in
/-- The test at the end of the inner loop. -/
theorem Heeds.turn (hstage : s.quit = false → s.Hangup)
    (hreload : s.quit = false → s.reload = false)
    (hpending : s.journal.hangup ≠ .absent → (s.ev .onSighup).signo = sighup →
      s.journal.hangup = .made ∧ sighup ∈ s.raised) (busy : Bool) : (s.turn busy).Heeds := by
  rcases s.turn_cases busy with ⟨heq, -⟩ | ⟨heq, -⟩ <;> rw [heq]
  · refine ⟨fun _ hnot ↦ (hstage hnot).congr rfl rfl rfl, fun hout ↦ ?_, fun _ ↦ hreload,
      fun _ ↦ hpending⟩
    rcases hout with hout | hout <;> cases hout
  · refine ⟨fun hinner ↦ hinner.elim, fun _ ↦ rfl, fun hout ↦ ?_, fun hinner ↦ hinner.elim⟩
    rcases hout with hout | hout <;> cases hout

theorem heeds_start : (start : Main X).Heeds := by
  refine ⟨fun hinner ↦ hinner.elim, fun _ ↦ rfl, fun hout ↦ ?_, fun hinner ↦ hinner.elim⟩
  rcases hout with hout | hout <;> cases hout

theorem make_ne_absent (r : Request) : r.make ≠ .absent := by
  cases r <;> nofun

omit [DecidableEq X] in
theorem raise_hangup (s : Main X) (signo : Nat) : (s.raise signo).journal.hangup =
    if signo = sighup then s.journal.hangup.make else s.journal.hangup := by
  rw [raise, Journal.raise]
  dsimp only
  split
  · rfl
  · split
    · rfl
    · split <;> rfl

omit [DecidableEq X] in
/-- A signal is raised. -/
theorem Heeds.raise (h : s.Heeds) (signo : Nat) : (s.raise signo).Heeds := by
  refine ⟨fun hinner hnot ↦ (h.stage hinner hnot).congr rfl rfl rfl, h.outside, h.settled,
    fun hinner hmade hsigno ↦ ?_⟩
  have hbefore := fun hmade ↦ h.pending hinner hmade hsigno
  rw [raise_hangup] at hmade ⊢
  by_cases hsig : signo = sighup
  · refine ⟨?_, List.mem_insert_iff.mpr (.inl hsig.symm)⟩
    rw [if_pos hsig]
    cases hhangup : s.journal.hangup with
    | absent | made => rfl
    | seen =>
      rw [hhangup] at hbefore
      cases (hbefore nofun).1
  · rw [if_neg hsig] at hmade ⊢
    exact ⟨(hbefore hmade).1, List.mem_insert_iff.mpr (.inr (hbefore hmade).2)⟩

/-- A poll collects. -/
theorem Heeds.poll (h : s.Heeds) (hsound : s.Sound kind) (hphase : s.phase = .waiting)
    {now : TimePoint} {reports : List (Report X)}
    (hown : s.Collected now (.signals ∈ reports) loop) :
    ({ s.polled now reports with loop } : Main X).Heeds := by
  have hinner : s.phase.Inner := by
    rw [hphase]
    trivial
  have hring := hown.ring hsound (e := .onSighup) trivial nofun
  have hstage : s.quit = false → ({ s with loop } : Main X).Hangup := by
    intro hquit
    have hset := h.stage hinner hquit
    rcases hring with ⟨⟨hzero, happl⟩, -, hne, -⟩ | ⟨hsame, -⟩
    · cases hset with
      | armed _ _ hreload hawaiting => exact .rung hzero happl hreload hawaiting
      | rung hspent | told hspent | heeded hspent => exact absurd hspent hne
    · exact hset.congr hsame rfl rfl
  -- if it is still set, nothing has been read for it
  have hpending : s.journal.hangup ≠ .absent → (loop.sched.event .onSighup).signo = sighup →
      .signals ∉ reports ∧ s.journal.hangup = .made ∧ sighup ∈ s.raised := by
    intro hmade hsigno
    rcases hring with ⟨⟨hzero, -⟩, -⟩ | ⟨hsame, hnot⟩
    · cases hsigno.symm.trans hzero
    · rw [hsame] at hsigno
      obtain ⟨hmade, hraised⟩ := h.pending hinner hmade hsigno
      rw [hsigno] at hnot
      exact ⟨fun hsignals ↦ hnot hsignals nofun hraised, hmade, hraised⟩
  have hpolling : ∀ {p : Phase} {P : Prop}, p = .polling → p = .top ∨ p = .setup → P := by
    rintro p P rfl (hout | hout) <;> cases hout
  have hpolling' : ∀ {p : Phase} {P : Prop}, p = .polling → p = .setup ∨ p = .waiting → P := by
    rintro p P rfl (hout | hout) <;> cases hout
  rcases s.polled_eq now reports with ⟨hsignals, heq⟩ | ⟨hsignals, heq⟩ <;> rw [heq]
  · refine ⟨fun _ hquit ↦ (hstage hquit).congr rfl rfl rfl, hpolling rfl, hpolling' rfl,
      fun _ hmade hsigno ↦ ?_⟩
    refine absurd hsignals (hpending (fun habsent ↦ hmade ?_) hsigno).1
    show s.journal.hangup.look = .absent
    rw [habsent]
    rfl
  · exact ⟨fun _ hquit ↦ (hstage hquit).congr rfl rfl rfl, hpolling rfl, hpolling' rfl,
      fun _ hmade hsigno ↦ (hpending hmade hsigno).2⟩

omit [DecidableEq X] in
/-- The handler of `SIGHUP` is called. -/
theorem Heeds.onSighup (h : s.Heeds) (hsound : s.Sound kind)
    (hqueued : (s.ev .onSighup).prioAppl ≠ 0)
    (hown : s.Changed loop .onSighup (s.ev .onSighup).dequeued) :
    ({ s with reload := true, loop } : Main X).Heeds := by
  have hphase : s.phase = .polling := by
    by_contra hne
    exact hqueued (hsound.unqueued (hsound.between hne) trivial)
  refine ⟨fun hinner hquit ↦ ?_, h.outside, fun hout ↦ ?_, fun hinner hmade hsigno ↦
    h.pending hinner hmade ((congrArg EventState.signo hown.1).symm.trans hsigno)⟩
  · cases h.stage hinner hquit with
    | rung hsigno _ _ hawaiting =>
      refine .told ((congrArg EventState.signo hown.1).trans hsigno) ?_ rfl hawaiting
      exact congrArg EventState.prioAppl hown.1
    | armed _ happl | told _ happl | heeded _ happl => exact absurd happl hqueued
  · dsimp only at hout
    rw [hphase] at hout
    rcases hout with hout | hout <;> cases hout

omit [DecidableEq X] in
/-- The end of the inner loop comes to be awaited. -/
theorem Heeds.await (h : s.Heeds) (hphase : s.phase = .polling) {now : TimePoint}
    {busy reload : Bool} {duration : Int}
    (hcause : s.quit = true ∨ s.quit = false ∧ s.reload = true ∧ reload = false)
    (hown : s.Changed loop .quitTimeout
      { s.ev .quitTimeout with when' := now + duration, isSet := true }) (wait : Option Wait) :
    (({ s with
      reload
      awaitingIdle := true
      journal := { s.journal with wait }
      loop } : Main X).turn busy).Heeds := by
  have hinner : s.phase.Inner := by
    rw [hphase]
    trivial
  have hev := hown.2 .onSighup trivial nofun
  have hnever : s.quit = false → s.reload = true ∧ reload = false := by
    intro hnot
    rcases hcause with hquit | ⟨-, hboth⟩
    · rw [hquit] at hnot
      cases hnot
    · exact hboth
  refine Heeds.turn (s := { s with
      reload
      awaitingIdle := true
      journal := { s.journal with wait }
      loop }) (fun hnot ↦ ?_) (fun hnot ↦ (hnever hnot).2)
    (fun hmade hsigno ↦ h.pending hinner hmade (hev ▸ hsigno)) busy
  obtain ⟨hbefore, hafter⟩ := hnever hnot
  cases h.stage hinner hnot with
  | told hsigno happl =>
    exact .heeded ((congrArg EventState.signo hev).trans hsigno)
      ((congrArg EventState.prioAppl hev).trans happl) hafter rfl
  | armed _ _ hreload | rung _ _ hreload | heeded _ _ hreload =>
    rw [hbefore] at hreload
    cases hreload

/-- **The step lemma.** -/
theorem Heeds.step (h : s.Heeds) (hsound : s.Sound kind) {a : Act X} (he : s.Effect a s') :
    s'.Heeds := by
  cases he with
  | skip => exact h
  | raise signo => exact h.raise signo
  | call hown => exact h.congr (hown _ trivial) rfl rfl rfl rfl rfl rfl
  | ended hphase =>
    refine ⟨fun hinner ↦ hinner.elim, fun hout ↦ ?_, fun hout ↦ ?_, fun hinner ↦ hinner.elim⟩ <;>
      rcases hout with hout | hout <;> cases hout
  | read hphase hquit hown =>
    have happl := hsound.unqueued (hsound.between (by rw [hphase]; nofun)) (e := .onSighup) trivial
    refine ⟨fun _ _ ↦ .armed ?_ ?_ rfl (h.outside (.inl hphase)),
      fun _ ↦ h.outside (.inl hphase), fun _ _ ↦ rfl, fun _ hmade ↦ absurd rfl hmade⟩
    · exact congrArg EventState.signo hown.1
    · exact (congrArg EventState.prioAppl hown.1).trans happl
  | activate hphase hown =>
    have hev := hown.2 .onSighup trivial nofun
    have hawaiting := h.outside (.inr hphase)
    have hinner : s.phase.Inner := by
      rw [hphase]
      trivial
    exact ⟨fun _ hquit ↦ (h.stage hinner hquit).congr hev rfl hawaiting.symm, fun _ ↦ rfl,
      fun _ ↦ h.settled (.inl hphase), fun _ hmade hsigno ↦ h.pending hinner hmade (hev ▸ hsigno)⟩
  | poll hphase hown => exact h.poll hsound hphase hown
  | interrupted hphase =>
    have hinner : s.phase.Inner := by
      rw [hphase]
      trivial
    refine ⟨fun _ hquit ↦ (h.stage hinner hquit).congr rfl rfl rfl, fun hout ↦ ?_,
      fun hout ↦ ?_, fun _ ↦ h.pending hinner⟩ <;>
      rcases hout with hout | hout <;> cases hout
  | other he hown => exact h.congr (hown _ trivial) rfl rfl rfl rfl rfl rfl
  | onSighup hqueued hown => exact h.onSighup hsound hqueued hown
  | onSigint hqueued hown =>
    exact h.quit (congrArg EventState.signo (hown.2 _ trivial nofun)) rfl rfl rfl rfl rfl
  | onSigterm hqueued hown =>
    exact h.quit (congrArg EventState.signo (hown.2 _ trivial nofun)) rfl rfl rfl rfl rfl
  | rotate hqueued hown => exact h.congr (hown.2 _ trivial nofun) rfl rfl rfl rfl rfl rfl
  | quitTimeout hqueued hown => exact h.congr (hown.2 _ trivial nofun) rfl rfl rfl rfl rfl rfl
  | finish hown => exact h.congr (hown _ trivial) rfl rfl rfl rfl rfl rfl
  | check hphase hpoll hquit hreload =>
    have hinner : s.phase.Inner := by
      rw [hphase]
      trivial
    exact Heeds.turn (h.stage hinner) hreload (h.pending hinner) _
  | await hphase hpoll hcause hown =>
    exact h.await hphase (hcause.imp And.left fun hreload ↦
      ⟨hreload.1, hreload.2.1, hreload.2.2.1⟩) hown _

/-! ## The end

`SIGINT` and `SIGTERM` have an event each, with handlers that do the same.  Once one of them has
been called, nothing takes it back. -/

/-- The events that make the program end, with their signals. -/
inductive Stopper : Ev X → Nat → Prop
  | onSigint : Stopper .onSigint sigint
  | onSigterm : Stopper .onSigterm sigterm

/-- **The invariant** for `SIGINT` and `SIGTERM`. -/
structure Stops (s : Main X) : Prop where
  set : ∀ e n, Stopper e n → (s.ev e).signo = n ∨
    (s.ev e).signo = 0 ∧ ((s.ev e).prioAppl ≠ 0 ∨ s.quit = true)
  asked : (s.quit = true ∨ ∃ e n, Stopper e n ∧ ((s.ev e).prioAppl ≠ 0 ∨ n ∈ s.raised)) →
    s.journal.stop ≠ .absent
  pending : s.journal.stop ≠ .absent → s.quit = true ∨
    ∃ e n, Stopper e n ∧ ((s.ev e).prioAppl ≠ 0 ∨ s.journal.stop = .made ∧ n ∈ s.raised)
  ended : s.phase = .ended → s.quit = true

variable {e : Ev X} {n : Nat}

omit [DecidableEq X] in
theorem Stopper.own (h : Stopper e n) : e.Own ∧ e ≠ .quitTimeout ∧ n ≠ 0 := by
  cases h <;> exact ⟨trivial, nofun, nofun⟩

omit [DecidableEq X] in
/-- What has nothing to do with the two signals. -/
theorem Stops.congr (h : s.Stops) (hev : ∀ e n, Stopper e n → s'.ev e = s.ev e)
    (hphase : s'.phase = .ended → s.phase = .ended ∨ s.quit = true) (hquit : s'.quit = s.quit)
    (hraised : s'.raised = s.raised) (hstop : s'.journal.stop = s.journal.stop) : s'.Stops := by
  refine ⟨fun e n hen ↦ ?_, fun hcause ↦ ?_, fun hmade ↦ ?_, fun hended ↦ ?_⟩
  · rw [hev e n hen, hquit]
    exact h.set e n hen
  · rw [hstop]
    refine h.asked (hcause.imp (hquit ▸ ·) ?_)
    rintro ⟨e, n, hen, hwhy⟩
    rw [hev e n hen, hraised] at hwhy
    exact ⟨e, n, hen, hwhy⟩
  · rw [hquit]
    refine (h.pending (hstop ▸ hmade)).imp_right ?_
    rintro ⟨e, n, hen, hwhy⟩
    rw [← hev e n hen, ← hraised, ← hstop] at hwhy
    exact ⟨e, n, hen, hwhy⟩
  · rw [hquit]
    exact (hphase hended).elim h.ended id

theorem stops_start : (start : Main X).Stops := by
  have hsigno : ∀ e n, Stopper e n → ((start : Main X).ev e).signo = n ∧
      ((start : Main X).ev e).prioAppl = 0 := by
    intro e n hen
    show (launched.event e).signo = n ∧ (launched.event e).prioAppl = 0
    rw [launched_event]
    cases hen <;> exact ⟨rfl, rfl⟩
  refine ⟨fun e n hen ↦ .inl (hsigno e n hen).1, ?_, fun hmade ↦ absurd rfl hmade, nofun⟩
  rintro (hquit | ⟨e, n, hen, hqueued | hraised⟩)
  · cases hquit
  · exact absurd (hsigno e n hen).2 hqueued
  · cases hraised

omit [DecidableEq X] in
theorem raise_stop (s : Main X) (signo : Nat) : (s.raise signo).journal.stop =
    if signo = sigint ∨ signo = sigterm then s.journal.stop.make else s.journal.stop := by
  rw [raise, Journal.raise]
  dsimp only
  split
  · rename_i hsig
    rw [if_neg (by rw [hsig]; decide)]
  · split
    · rfl
    · split <;> rfl

omit [DecidableEq X] in
theorem Stopper.signal (h : Stopper e n) : n = sigint ∨ n = sigterm := by
  cases h
  · exact .inl rfl
  · exact .inr rfl

omit [DecidableEq X] in
theorem exists_stopper (h : n = sigint ∨ n = sigterm) : ∃ e : Ev X, Stopper e n := by
  rcases h with rfl | rfl
  · exact ⟨_, .onSigint⟩
  · exact ⟨_, .onSigterm⟩

omit [DecidableEq X] in
/-- A signal is raised. -/
theorem Stops.raise (h : s.Stops) (signo : Nat) : (s.raise signo).Stops := by
  have hmem : ∀ n, n ∈ (s.raise signo).raised ↔ n = signo ∨ n ∈ s.raised := fun n ↦
    List.mem_insert_iff
  refine ⟨h.set, fun hcause ↦ ?_, fun hmade ↦ ?_, h.ended⟩
  · rw [raise_stop]
    by_cases hsig : signo = sigint ∨ signo = sigterm
    · rw [if_pos hsig]
      exact make_ne_absent _
    · rw [if_neg hsig]
      refine h.asked (hcause.imp_right ?_)
      rintro ⟨e, n, hen, hqueued | hraised⟩
      · exact ⟨e, n, hen, .inl hqueued⟩
      · rcases (hmem n).mp hraised with rfl | hraised
        · exact absurd hen.signal hsig
        · exact ⟨e, n, hen, .inr hraised⟩
  · rw [raise_stop] at hmade ⊢
    by_cases hsig : signo = sigint ∨ signo = sigterm
    · rw [if_pos hsig] at hmade ⊢
      obtain ⟨e, hen⟩ := exists_stopper (X := X) hsig
      cases hstop : s.journal.stop with
      | absent | made => exact .inr ⟨e, signo, hen, .inr ⟨rfl, (hmem signo).mpr (.inl rfl)⟩⟩
      | seen =>
        refine (h.pending (by rw [hstop]; nofun)).imp_right ?_
        rintro ⟨e, n, hen, hqueued | ⟨hmade, -⟩⟩
        · exact ⟨e, n, hen, .inl hqueued⟩
        · rw [hstop] at hmade
          cases hmade
    · rw [if_neg hsig] at hmade ⊢
      refine (h.pending hmade).imp_right ?_
      rintro ⟨e, n, hen, hqueued | ⟨hmade, hraised⟩⟩
      · exact ⟨e, n, hen, .inl hqueued⟩
      · exact ⟨e, n, hen, .inr ⟨hmade, (hmem n).mpr (.inr hraised)⟩⟩

/-- A poll collects. -/
theorem Stops.poll (h : s.Stops) (hsound : s.Sound kind) {now : TimePoint}
    {reports : List (Report X)} (hown : s.Collected now (.signals ∈ reports) loop) :
    ({ s.polled now reports with loop } : Main X).Stops := by
  have hring : ∀ e n, Stopper e n → (loop.sched.event e).signo = 0 ∧
      (loop.sched.event e).prioAppl ≠ 0 ∧ .signals ∈ reports ∧ n ∈ s.raised ∨
      loop.sched.event e = s.ev e ∧
        (.signals ∈ reports → (s.ev e).signo = n → n ∉ s.raised) := by
    intro e n hen
    obtain ⟨he, hne, hzero⟩ := hen.own
    rcases hown.ring hsound he hne with ⟨⟨hsigno, happl⟩, hsignals, hset, hraised⟩ | ⟨hsame, hnot⟩
    · rcases h.set e n hen with hn | ⟨hspent, -⟩
      · exact .inl ⟨hsigno, happl, hsignals, hn ▸ hraised⟩
      · exact absurd hspent hset
    · exact .inr ⟨hsame, fun hsignals hn ↦ hn ▸ hnot hsignals (hn ▸ hzero)⟩
  have hset : ∀ e n, Stopper e n → (loop.sched.event e).signo = n ∨
      (loop.sched.event e).signo = 0 ∧
        ((loop.sched.event e).prioAppl ≠ 0 ∨ s.quit = true) := by
    intro e n hen
    rcases hring e n hen with ⟨hsigno, happl, -⟩ | ⟨hsame, -⟩
    · exact .inr ⟨hsigno, .inl happl⟩
    · rw [hsame]
      exact h.set e n hen
  have hasked : (s.quit = true ∨
      ∃ e n, Stopper e n ∧ ((loop.sched.event e).prioAppl ≠ 0 ∨ n ∈ s.raised)) →
      s.journal.stop ≠ .absent := by
    refine fun hcause ↦ h.asked (hcause.imp_right ?_)
    rintro ⟨e, n, hen, hqueued | hraised⟩
    · rcases hring e n hen with ⟨-, -, -, hraised⟩ | ⟨hsame, -⟩
      · exact ⟨e, n, hen, .inr hraised⟩
      · exact ⟨e, n, hen, .inl (hsame ▸ hqueued)⟩
    · exact ⟨e, n, hen, .inr hraised⟩
  -- what is pending and is not read stays pending
  have hpending : s.journal.stop ≠ .absent → s.quit = true ∨ ∃ e n, Stopper e n ∧
      ((loop.sched.event e).prioAppl ≠ 0 ∨
        .signals ∉ reports ∧ s.journal.stop = .made ∧ n ∈ s.raised) := by
    intro hmade
    rcases h.pending hmade with hquit | ⟨e, n, hen, hwhy⟩
    · exact .inl hquit
    rcases hring e n hen with ⟨-, happl, -⟩ | ⟨hsame, hnot⟩
    · exact .inr ⟨e, n, hen, .inl happl⟩
    rcases hwhy with hqueued | ⟨hmade, hraised⟩
    · exact .inr ⟨e, n, hen, .inl (hsame ▸ hqueued)⟩
    rcases h.set e n hen with hn | ⟨-, hqueued | hquit⟩
    · exact .inr ⟨e, n, hen, .inr ⟨fun hsignals ↦ hnot hsignals hn hraised, hmade, hraised⟩⟩
    · exact .inr ⟨e, n, hen, .inl (hsame ▸ hqueued)⟩
    · exact .inl hquit
  rcases s.polled_eq now reports with ⟨hsignals, heq⟩ | ⟨hsignals, heq⟩ <;> rw [heq]
  · have hlook : s.journal.stop.look ≠ .absent ↔ s.journal.stop ≠ .absent := by
      cases s.journal.stop <;> simp [Request.look]
    refine ⟨hset, fun hcause ↦ hlook.mpr (hasked (hcause.imp_right ?_)), fun hmade ↦ ?_, nofun⟩
    · rintro ⟨e, n, hen, hwhy⟩
      exact ⟨e, n, hen, hwhy.imp_right List.mem_of_mem_filter⟩
    · refine (hpending (hlook.mp hmade)).imp_right ?_
      rintro ⟨e, n, hen, hqueued | ⟨hnone, -⟩⟩
      · exact ⟨e, n, hen, .inl hqueued⟩
      · exact absurd hsignals hnone
  · refine ⟨hset, hasked, fun hmade ↦ (hpending hmade).imp_right ?_, nofun⟩
    rintro ⟨e, n, hen, hwhy⟩
    exact ⟨e, n, hen, hwhy.imp_right And.right⟩

omit [DecidableEq X] in
/-- One of the handlers is called. -/
theorem Stops.quit (h : s.Stops) (hen : Stopper e n) (hqueued : (s.ev e).prioAppl ≠ 0)
    (hown : s.Changed loop e (s.ev e).dequeued) :
    ({ s with quit := true, loop } : Main X).Stops := by
  refine ⟨fun i m him ↦ ?_, fun _ ↦ h.asked (.inr ⟨e, n, hen, .inl hqueued⟩), fun _ ↦ .inl rfl,
    fun _ ↦ rfl⟩
  have hsigno : (loop.sched.event i).signo = (s.ev i).signo := by
    by_cases hi : i = e
    · rw [hi, hown.1]
      rfl
    · rw [hown.2 i him.own.1 hi]
  refine (h.set i m him).imp hsigno.trans fun hspent ↦ ⟨hsigno.trans hspent.1, .inr rfl⟩

/-- **The step lemma.** -/
theorem Stops.step (h : s.Stops) (hsound : s.Sound kind) {a : Act X} (he : s.Effect a s') :
    s'.Stops := by
  cases he with
  | skip => exact h
  | raise signo => exact h.raise signo
  | call hown => exact h.congr (fun e _ hen ↦ hown e hen.own.1) .inl rfl rfl rfl
  | ended _ hquit => exact h.congr (fun _ _ _ ↦ rfl) (fun _ ↦ .inr hquit) rfl rfl rfl
  | read hphase hquit hown =>
    refine h.congr (fun e _ hen ↦ hown.2 e hen.own.1 ?_) nofun rfl rfl rfl
    rintro rfl
    cases hen
  | activate hphase hown =>
    exact h.congr (fun e _ hen ↦ hown.2 e hen.own.1 hen.own.2.1) nofun rfl rfl rfl
  | poll hphase hown => exact h.poll hsound hown
  | interrupted hphase => exact h.congr (fun _ _ _ ↦ rfl) nofun rfl rfl rfl
  | other he hown => exact h.congr (fun e _ hen ↦ hown e hen.own.1) .inl rfl rfl rfl
  | onSighup hqueued hown =>
    refine h.congr (fun e _ hen ↦ hown.2 e hen.own.1 ?_) .inl rfl rfl rfl
    rintro rfl
    cases hen
  | onSigint hqueued hown => exact h.quit .onSigint hqueued hown
  | onSigterm hqueued hown => exact h.quit .onSigterm hqueued hown
  | rotate hqueued hown =>
    refine h.congr (fun e _ hen ↦ hown.2 e hen.own.1 ?_) .inl rfl rfl rfl
    rintro rfl
    cases hen
  | quitTimeout hqueued hown =>
    exact h.congr (fun e _ hen ↦ hown.2 e hen.own.1 hen.own.2.1) .inl rfl rfl rfl
  | finish hown => exact h.congr (fun e _ hen ↦ hown e hen.own.1) .inl rfl rfl rfl
  | @check _ busy =>
    rcases s.turn_cases busy with ⟨heq, -⟩ | ⟨heq, -⟩ <;> rw [heq] <;>
      exact h.congr (fun _ _ _ ↦ rfl) nofun rfl rfl rfl
  | @await _ busy _ loop _ _ _ _ hown =>
    have hev : ∀ e n, Stopper e n → loop.sched.event e = s.ev e := fun e _ hen ↦
      hown.2 e hen.own.1 hen.own.2.1
    rcases turn_cases _ busy with ⟨heq, -⟩ | ⟨heq, -⟩ <;> rw [heq] <;>
      exact h.congr hev nofun rfl rfl rfl

/-! ## Rotations

The handler of `SIGUSR1` looks at `root_ptr`.  The event is set before the configuration is read for
the first time, but there is no poll until then. -/

/-- **The invariant** for `SIGUSR1`: its event is set, or queued, and `root_ptr` and `Logging` have
the last configuration. -/
structure Rotates (s : Main X) : Prop where
  set : (s.ev .rotate).signo = sigusr1 ∨
    (s.ev .rotate).signo = 0 ∧ (s.ev .rotate).prioAppl ≠ 0
  pending : s.journal.rotation ≠ .absent → (s.ev .rotate).prioAppl ≠ 0 ∨
    s.journal.rotation = .made ∧ sigusr1 ∈ s.raised ∧ (s.ev .rotate).signo = sigusr1
  root : s.phase.Inner → s.root ≠ none ∧ s.root = s.logging
  logging : s.logging = if s.readings = 0 then none else some (s.readings - 1)

omit [DecidableEq X] in
/-- What has nothing to do with `SIGUSR1`. -/
theorem Rotates.congr (h : s.Rotates) (hev : s'.ev .rotate = s.ev .rotate)
    (hraised : s'.raised = s.raised) (hrotation : s'.journal.rotation = s.journal.rotation)
    (hphase : s'.phase.Inner → s.phase.Inner ∧ s'.root = s.root)
    (hlogging : s'.logging = s.logging) (hreadings : s'.readings = s.readings) :
    s'.Rotates := by
  refine ⟨?_, ?_, fun hinner ↦ ?_, ?_⟩
  · rw [hev]
    exact h.set
  · rw [hev, hraised, hrotation]
    exact h.pending
  · obtain ⟨hbefore, hroot⟩ := hphase hinner
    rw [hroot, hlogging]
    exact h.root hbefore
  · rw [hlogging, hreadings]
    exact h.logging

theorem rotates_start : (start : Main X).Rotates := by
  have hev : (start : Main X).ev .rotate = { signo := sigusr1 } := by
    show launched.event .rotate = _
    rw [launched_event]
  refine ⟨.inl ?_, fun hmade ↦ absurd rfl hmade, fun hinner ↦ hinner.elim, rfl⟩
  rw [hev]

omit [DecidableEq X] in
theorem raise_rotation (s : Main X) (signo : Nat) : (s.raise signo).journal.rotation =
    if signo = sigusr1 then s.journal.rotation.make else s.journal.rotation := by
  rw [raise, Journal.raise]
  dsimp only
  split
  · rename_i hsig
    rw [if_neg (by rw [hsig]; decide)]
  · split
    · rename_i hsig
      rw [if_neg]
      rcases hsig with rfl | rfl <;> decide
    · split <;> rfl

omit [DecidableEq X] in
/-- A signal is raised. -/
theorem Rotates.raise (h : s.Rotates) (signo : Nat) : (s.raise signo).Rotates := by
  refine ⟨h.set, fun hmade ↦ ?_, h.root, h.logging⟩
  show (s.ev .rotate).prioAppl ≠ 0 ∨ _ ∧ sigusr1 ∈ s.raised.insert signo ∧
    (s.ev .rotate).signo = sigusr1
  rw [raise_rotation] at hmade ⊢
  by_cases hsig : signo = sigusr1
  · rw [if_pos hsig] at hmade ⊢
    have hmem : sigusr1 ∈ s.raised.insert signo := List.mem_insert_iff.mpr (.inl hsig.symm)
    rcases h.set with hset | ⟨-, hqueued⟩
    · cases hrotation : s.journal.rotation with
      | absent | made => exact .inr ⟨rfl, hmem, hset⟩
      | seen =>
        refine (h.pending (by rw [hrotation]; nofun)).imp_right fun hpending ↦ ?_
        cases hrotation.symm.trans hpending.1
    · exact .inl hqueued
  · rw [if_neg hsig] at hmade ⊢
    exact (h.pending hmade).imp_right fun hpending ↦
      ⟨hpending.1, List.mem_insert_iff.mpr (.inr hpending.2.1), hpending.2.2⟩

/-- A poll collects. -/
theorem Rotates.poll (h : s.Rotates) (hsound : s.Sound kind) (hphase : s.phase = .waiting)
    {now : TimePoint} {reports : List (Report X)}
    (hown : s.Collected now (.signals ∈ reports) loop) :
    ({ s.polled now reports with loop } : Main X).Rotates := by
  have hinner : s.phase.Inner := by
    rw [hphase]
    trivial
  have hring := hown.ring hsound (e := .rotate) trivial nofun
  have hset : (loop.sched.event .rotate).signo = sigusr1 ∨
      (loop.sched.event .rotate).signo = 0 ∧ (loop.sched.event .rotate).prioAppl ≠ 0 := by
    rcases hring with ⟨hrung, -⟩ | ⟨hsame, -⟩
    · exact .inr hrung
    · rw [hsame]
      exact h.set
  have hpending : s.journal.rotation ≠ .absent → (loop.sched.event .rotate).prioAppl ≠ 0 ∨
      .signals ∉ reports ∧ s.journal.rotation = .made ∧ sigusr1 ∈ s.raised ∧
        (loop.sched.event .rotate).signo = sigusr1 := by
    intro hmade
    rcases hring with ⟨hrung, -⟩ | ⟨hsame, hnot⟩
    · exact .inl hrung.2
    · rw [hsame]
      refine (h.pending hmade).imp_right fun ⟨hyes, hraised, hsigno⟩ ↦
        ⟨fun hsignals ↦ ?_, hyes, hraised, hsigno⟩
      rw [hsigno] at hnot
      exact hnot hsignals nofun hraised
  rcases s.polled_eq now reports with ⟨hsignals, heq⟩ | ⟨hsignals, heq⟩ <;> rw [heq]
  · refine ⟨hset, fun hmade ↦ .inl ?_, fun _ ↦ h.root hinner, h.logging⟩
    refine (hpending fun habsent ↦ hmade ?_).resolve_right fun hnot ↦ hnot.1 hsignals
    show s.journal.rotation.look = .absent
    rw [habsent]
    rfl
  · exact ⟨hset, fun hmade ↦ (hpending hmade).imp_right And.right, fun _ ↦ h.root hinner,
      h.logging⟩

/-- **The step lemma.** -/
theorem Rotates.step (h : s.Rotates) (hsound : s.Sound kind) {a : Act X} (he : s.Effect a s') :
    s'.Rotates := by
  have hinner : ∀ p : Phase, p.Inner → s.phase = p → ∀ q : Phase, q.Inner →
      s.phase.Inner ∧ s.root = s.root := fun p hp hphase _ _ ↦ ⟨hphase ▸ hp, rfl⟩
  cases he with
  | skip => exact h
  | raise signo => exact h.raise signo
  | call hown => exact h.congr (hown _ trivial) rfl rfl (fun hin ↦ ⟨hin, rfl⟩) rfl rfl
  | ended => exact h.congr rfl rfl rfl (fun hin ↦ hin.elim) rfl rfl
  | @read loop hphase hquit hown =>
    have hev : loop.sched.event .rotate = s.ev .rotate := hown.2 _ trivial nofun
    have hloop : ({ s with loop } : Main X).Rotates :=
      h.congr hev rfl rfl (fun hin ↦ ⟨hin, rfl⟩) rfl rfl
    exact ⟨hloop.set, hloop.pending, fun _ ↦ ⟨nofun, rfl⟩, rfl⟩
  | activate hphase hown =>
    exact h.congr (hown.2 _ trivial nofun) rfl rfl (hinner .setup trivial hphase _) rfl rfl
  | poll hphase hown => exact h.poll hsound hphase hown
  | interrupted hphase =>
    exact h.congr rfl rfl rfl (hinner .waiting trivial hphase _) rfl rfl
  | other _ hown => exact h.congr (hown _ trivial) rfl rfl (fun hin ↦ ⟨hin, rfl⟩) rfl rfl
  | onSighup _ hown =>
    exact h.congr (hown.2 _ trivial nofun) rfl rfl (fun hin ↦ ⟨hin, rfl⟩) rfl rfl
  | onSigint _ hown =>
    exact h.congr (hown.2 _ trivial nofun) rfl rfl (fun hin ↦ ⟨hin, rfl⟩) rfl rfl
  | onSigterm _ hown =>
    exact h.congr (hown.2 _ trivial nofun) rfl rfl (fun hin ↦ ⟨hin, rfl⟩) rfl rfl
  | rotate hqueued hown =>
    have hphase : s.phase = .polling := by
      by_contra hne
      exact hqueued (hsound.unqueued (e := .rotate) (hsound.between hne) trivial)
    obtain ⟨hsome, hsame⟩ := h.root (by rw [hphase]; trivial)
    have hlogging : (if s.root.isSome then s.root else s.logging) = s.logging := by
      rw [hsame, ite_self]
    refine ⟨.inl (congrArg EventState.signo hown.1), fun hmade ↦ absurd rfl hmade, fun _ ↦
      ⟨hsome, hsame.trans hlogging.symm⟩, hlogging.trans h.logging⟩
  | quitTimeout _ hown =>
    exact h.congr (hown.2 _ trivial nofun) rfl rfl (fun hin ↦ ⟨hin, rfl⟩) rfl rfl
  | finish hown => exact h.congr (hown _ trivial) rfl rfl (fun hin ↦ ⟨hin, rfl⟩) rfl rfl
  | @check _ busy hphase =>
    rcases s.turn_cases busy with ⟨heq, -⟩ | ⟨heq, -⟩ <;> rw [heq]
    · exact h.congr rfl rfl rfl (hinner .polling trivial hphase _) rfl rfl
    · exact h.congr rfl rfl rfl (fun hin ↦ hin.elim) rfl rfl
  | @await _ busy _ loop _ hphase _ _ hown =>
    have hev := hown.2 .rotate trivial nofun
    rcases turn_cases _ busy with ⟨heq, -⟩ | ⟨heq, -⟩ <;> rw [heq]
    · exact h.congr hev rfl rfl (hinner .polling trivial hphase _) rfl rfl
    · exact h.congr hev rfl rfl (fun hin ↦ hin.elim) rfl rfl

end Main
end UdpTun
