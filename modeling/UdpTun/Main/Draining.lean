import UdpTun.Main.Signals

/-!
# The end of the inner loop

`Drains` follows `quit_timeout` from when it is set until the inner loop is left, and `Counted` the
readings of the configuration.  Both rest on what is known of `SIGHUP`: in one round of the outer
loop its handler is called once.

* `Awaited` has the four stages of the end of the inner loop, and `Drains.step` is the step lemma.
* `Counted.step` is the one for the readings: every reading but the first is for a `SIGHUP`.
-/

set_option autoImplicit false

namespace UdpTun

open Scheduler (Kind)

namespace Main

variable {X : Type} [DecidableEq X]

variable {kind : X → Kind} {s s' : Main X} {loop : Loop (Ev X)}

/-! ## The time limit

There are four stages: the end of the loop is not awaited; it is awaited, and the timer is set; the
timer is due, and its event queued; and it has fired.  Each fixes what `quit_timeout` is. -/

/-- How far the end of the inner loop is. -/
inductive Awaited (s : Main X) : Prop
  | not (hawaiting : s.awaitingIdle = false) (hmore : s.more = true)
      (hset : (s.ev .quitTimeout).isSet = false) (happl : (s.ev .quitTimeout).prioAppl = 0)
      (hwait : s.journal.wait = none)
  | armed (w : Wait) (hawaiting : s.awaitingIdle = true) (hmore : s.more = true)
      (hset : (s.ev .quitTimeout).isSet = true) (happl : (s.ev .quitTimeout).prioAppl = 0)
      (hwait : s.journal.wait = some w) (hwhen : (s.ev .quitTimeout).when' = w.deadline)
      (hsince : ∀ now ∈ w.since, now < w.deadline)
  | due (hawaiting : s.awaitingIdle = true) (hset : (s.ev .quitTimeout).isSet = false)
      (happl : (s.ev .quitTimeout).prioAppl ≠ 0)
  | fired (hawaiting : s.awaitingIdle = true) (hset : (s.ev .quitTimeout).isSet = false)
      (happl : (s.ev .quitTimeout).prioAppl = 0) (hmore : s.more = false)

/-- **The invariant** for the time limit. -/
structure Drains (s : Main X) : Prop where
  outside : s.phase = .top ∨ s.phase = .setup → s.journal.wait = none
  setup : s.phase = .setup → s.quit = false
  stage : s.phase = .waiting ∨ s.phase = .polling → s.Awaited
  quit : s.phase = .waiting → s.quit = true → s.awaitingIdle = true
  more : s.phase = .waiting → s.more = true
  limit : ∀ w, s.journal.wait = some w →
    w.deadline = w.began + seconds 1 ∨ s.quit = true ∧ w.deadline = w.began + seconds 10

omit [DecidableEq X] in
theorem Awaited.congr (h : s.Awaited) (hev : s'.ev .quitTimeout = s.ev .quitTimeout)
    (hawaiting : s'.awaitingIdle = s.awaitingIdle) (hmore : s'.more = s.more)
    (hwait : s'.journal.wait = s.journal.wait) : s'.Awaited := by
  cases h with
  | not h₁ h₂ h₃ h₄ h₅ =>
    exact .not (hawaiting.trans h₁) (hmore.trans h₂) (hev ▸ h₃) (hev ▸ h₄) (hwait.trans h₅)
  | armed w h₁ h₂ h₃ h₄ h₅ h₆ h₇ =>
    exact .armed w (hawaiting.trans h₁) (hmore.trans h₂) (hev ▸ h₃) (hev ▸ h₄) (hwait.trans h₅)
      (hev ▸ h₆) h₇
  | due h₁ h₂ h₃ => exact .due (hawaiting.trans h₁) (hev ▸ h₂) (hev ▸ h₃)
  | fired h₁ h₂ h₃ h₄ =>
    exact .fired (hawaiting.trans h₁) (hev ▸ h₂) (hev ▸ h₃) (hmore.trans h₄)

omit [DecidableEq X] in
/-- What has nothing to do with the time limit. -/
theorem Drains.congr (h : s.Drains) (hev : s'.ev .quitTimeout = s.ev .quitTimeout)
    (hphase : s'.phase = s.phase ∨ s.phase = .waiting ∧ s'.phase = .polling ∨ s'.phase = .ended)
    (hquit : s'.quit = s.quit ∨ s.phase = .polling ∧ s'.quit = true)
    (hawaiting : s'.awaitingIdle = s.awaitingIdle)
    (hmore : s'.more = s.more) (hwait : s'.journal.wait = s.journal.wait) : s'.Drains := by
  have houtside : s'.phase = .top ∨ s'.phase = .setup → s.phase = .top ∨ s.phase = .setup := by
    intro hout
    rcases hphase with hsame | ⟨-, hpolling⟩ | hended
    · rwa [← hsame]
    · rcases hout with hout | hout <;> cases hout.symm.trans hpolling
    · rcases hout with hout | hout <;> cases hout.symm.trans hended
  have hinside : s'.phase = .waiting ∨ s'.phase = .polling →
      s.phase = .waiting ∨ s.phase = .polling := by
    intro hin
    rcases hphase with hsame | ⟨hwaiting, -⟩ | hended
    · rwa [← hsame]
    · exact .inl hwaiting
    · rcases hin with hin | hin <;> cases hin.symm.trans hended
  have hwaiting : s'.phase = .waiting → s.phase = .waiting := by
    intro hwaiting
    rcases hphase with hsame | ⟨-, hpolling⟩ | hended
    · rwa [← hsame]
    · cases hwaiting.symm.trans hpolling
    · cases hwaiting.symm.trans hended
  refine ⟨fun hout ↦ hwait.trans (h.outside (houtside hout)), fun hsetup ↦ ?_, fun hin ↦
    (h.stage (hinside hin)).congr hev hawaiting hmore hwait, fun hbefore hyes ↦ ?_,
    fun hbefore ↦ hmore.trans (h.more (hwaiting hbefore)), fun w hw ↦ ?_⟩
  · have hbefore : s.phase = .setup := by
      rcases hphase with hsame | ⟨-, hpolling⟩ | hended
      · rwa [← hsame]
      · cases hsetup.symm.trans hpolling
      · cases hsetup.symm.trans hended
    rcases hquit with hsame | ⟨hpolling, -⟩
    · exact hsame.trans (h.setup hbefore)
    · cases hbefore.symm.trans hpolling
  · rcases hquit with hsame | ⟨hpolling, -⟩
    · rw [hawaiting]
      exact h.quit (hwaiting hbefore) (hsame ▸ hyes)
    · cases (hwaiting hbefore).symm.trans hpolling
  · refine (h.limit w (hwait ▸ hw)).imp_right fun hyes ↦ ⟨?_, hyes.2⟩
    rcases hquit with hsame | ⟨-, hyes'⟩
    · exact hsame.trans hyes.1
    · exact hyes'

omit [DecidableEq X] in
/-- The test at the end of the inner loop. -/
theorem Drains.turn (hstage : s.more = true → s.Awaited)
    (hquit : s.quit = true → s.awaitingIdle = true) (hlimit : ∀ w, s.journal.wait = some w →
      w.deadline = w.began + seconds 1 ∨ s.quit = true ∧ w.deadline = w.began + seconds 10)
    (busy : Bool) : (s.turn busy).Drains := by
  rcases s.turn_cases busy with ⟨heq, hmore, -⟩ | ⟨heq, -⟩ <;> rw [heq]
  · refine ⟨fun hout ↦ ?_, nofun, fun _ ↦ (hstage hmore).congr rfl rfl rfl rfl, fun _ ↦ hquit,
      fun _ ↦ hmore,
      hlimit⟩
    rcases hout with hout | hout <;> cases hout
  · refine ⟨fun _ ↦ rfl, nofun, fun hin ↦ ?_, nofun, nofun, nofun⟩
    rcases hin with hin | hin <;> cases hin

theorem drains_start : (start : Main X).Drains := by
  refine ⟨fun _ ↦ rfl, nofun, fun hin ↦ ?_, nofun, nofun, nofun⟩
  rcases hin with hin | hin <;> cases hin

/-- A poll collects. -/
theorem Drains.poll (h : s.Drains) (hsound : s.Sound kind) (hphase : s.phase = .waiting)
    {now : TimePoint} {reports : List (Report X)}
    (hown : s.Collected now (.signals ∈ reports) loop) :
    ({ s.polled now reports with loop } : Main X).Drains := by
  have htimer := hown.timer
  have hpoll := hsound.between (by rw [hphase]; nofun)
  have hfields : ∃ raised j, s.polled now reports =
      { s with phase := .polling, raised, journal := j } ∧
      j.wait = s.journal.wait.map fun w ↦ { w with since := w.since ++ [now] } := by
    rcases s.polled_eq now reports with ⟨-, heq⟩ | ⟨-, heq⟩
    · exact ⟨_, _, heq, rfl⟩
    · exact ⟨_, _, heq, rfl⟩
  obtain ⟨raised, j, heq, hwait⟩ := hfields
  rw [heq]
  refine ⟨fun hout ↦ ?_, nofun, fun _ ↦ ?_, nofun, nofun, fun w' hw' ↦ ?_⟩
  · rcases hout with hout | hout <;> cases hout
  · cases h.stage (.inl hphase) with
    | not hawaiting hmore hset happl hnone =>
      rw [if_neg (by rw [hset]; nofun)] at htimer
      refine .not hawaiting hmore ((congrArg EventState.isSet htimer).trans hset)
        ((congrArg EventState.prioAppl htimer).trans happl) ?_
      rw [hnone] at hwait
      exact hwait
    | armed w hawaiting hmore hset happl hsome hwhen hsince =>
      rw [hsome, Option.map_some] at hwait
      by_cases hdue : w.deadline ≤ now
      · rw [if_pos ⟨hset, hwhen.trans_le hdue⟩] at htimer
        refine .due hawaiting ?_ ?_ <;> dsimp only [ev] <;> rw [htimer]
        · exact EventState.enqueued_isSet _
        · refine Scheduler.enqueued_appl ?_
          dsimp only
          rw [(hsound.foremost .quitTimeout trivial).default.usr]
          exact Nat.one_ne_zero
      · rw [if_neg fun hboth ↦ hdue (hwhen ▸ hboth.2)] at htimer
        refine .armed _ hawaiting hmore ((congrArg EventState.isSet htimer).trans hset)
          ((congrArg EventState.prioAppl htimer).trans happl) hwait
          ((congrArg EventState.when' htimer).trans hwhen) fun t ht ↦ ?_
        rcases List.mem_append.mp ht with ht | ht
        · exact hsince t ht
        · rw [List.mem_singleton.mp ht]
          exact not_le.mp hdue
    | due _ _ happl => exact absurd (hsound.unqueued (e := .quitTimeout) hpoll trivial) happl
    | fired _ _ _ hmore =>
      rw [h.more hphase] at hmore
      cases hmore
  · dsimp only at hw'
    rw [hwait] at hw'
    obtain ⟨w, hw, rfl⟩ := Option.map_eq_some_iff.mp hw'
    exact h.limit w hw

omit [DecidableEq X] in
/-- The end of the inner loop comes to be awaited, and was not before, or it is left now. -/
theorem Drains.await (h : s.Drains) (hsound : s.Sound kind) (hheeds : s.Heeds)
    (hphase : s.phase = .polling) (hpoll : s.loop.poll = none) {now : TimePoint}
    {busy reload : Bool} {duration : Int}
    (hcause : s.quit = true ∧ (s.ev .quitTimeout).isSet = false ∧ duration = seconds 10 ∨
      s.quit = false ∧ s.reload = true ∧ duration = seconds 1)
    (hown : s.Changed loop .quitTimeout
      { s.ev .quitTimeout with when' := now + duration, isSet := true }) :
    (({ s with
      reload
      awaitingIdle := true
      journal := { s.journal with
        wait := s.journal.wait.or (some ⟨now, now + duration, []⟩) }
      loop } : Main X).turn busy).Drains := by
  have hinner : s.phase.Inner := by
    rw [hphase]
    trivial
  refine Drains.turn (s := { s with
      reload
      awaitingIdle := true
      journal := { s.journal with
        wait := s.journal.wait.or (some ⟨now, now + duration, []⟩) }
      loop }) (fun hmore ↦ ?_) (fun _ ↦ rfl) (fun w hw ↦ ?_) busy
  · cases h.stage (.inr hphase) with
    | not _ _ _ happl hnone =>
      refine .armed ⟨now, now + duration, []⟩ rfl hmore (congrArg EventState.isSet hown.1)
        ((congrArg EventState.prioAppl hown.1).trans happl) ?_ (congrArg EventState.when' hown.1)
        (by simp)
      dsimp only
      rw [hnone]
      rfl
    | armed w hawaiting _ hset =>
      rcases hcause with ⟨-, hunset, -⟩ | ⟨hquit, hreload, -⟩
      · cases hset.symm.trans hunset
      · -- it would be the second time in one round of the outer loop
        cases hheeds.stage hinner hquit with
        | told _ _ _ hnot => cases hawaiting.symm.trans hnot
        | armed _ _ hnot | rung _ _ hnot | heeded _ _ hnot => cases hreload.symm.trans hnot
    | due _ _ happl => exact absurd (hsound.unqueued (e := .quitTimeout) hpoll trivial) happl
    | fired _ _ _ hover => cases hmore.symm.trans hover
  · dsimp only at hw
    cases hwait : s.journal.wait with
    | some w' =>
      rw [hwait] at hw
      cases hw
      exact h.limit w hwait
    | none =>
      rw [hwait] at hw
      cases hw
      rcases hcause with ⟨hquit, -, rfl⟩ | ⟨-, -, rfl⟩
      · exact .inr ⟨hquit, rfl⟩
      · exact .inl rfl

omit [DecidableEq X] in
/-- The timer fires. -/
theorem Drains.quitTimeout (h : s.Drains) (hphase : s.phase = .polling)
    (hqueued : (s.ev .quitTimeout).prioAppl ≠ 0)
    (hown : s.Changed loop .quitTimeout (s.ev .quitTimeout).dequeued) :
    ({ s with more := false, loop } : Main X).Drains := by
  refine ⟨h.outside, h.setup, fun _ ↦ ?_, fun hwaiting ↦ ?_, fun hwaiting ↦ ?_, h.limit⟩
  · cases h.stage (.inr hphase) with
    | due hawaiting hset =>
      exact .fired hawaiting ((congrArg EventState.isSet hown.1).trans hset)
        (congrArg EventState.prioAppl hown.1) rfl
    | not _ _ _ happl | armed _ _ _ _ happl | fired _ _ happl => exact absurd happl hqueued
  · cases hphase.symm.trans hwaiting
  · cases hphase.symm.trans hwaiting

/-- **The step lemma.** -/
theorem Drains.step (h : s.Drains) (hsound : s.Sound kind) (hheeds : s.Heeds) {a : Act X}
    (he : s.Effect a s') : s'.Drains := by
  have hpolling : ∀ i : Ev X, i.Own → (s.ev i).prioAppl ≠ 0 → s.phase = .polling := by
    intro i hi hqueued
    by_contra hne
    exact hqueued (hsound.unqueued (hsound.between hne) hi)
  cases he with
  | skip => exact h
  | raise signo =>
    refine h.congr rfl (.inl rfl) (.inl rfl) rfl rfl ?_
    rw [Main.raise, Journal.raise]
    dsimp only
    split
    · rfl
    · split
      · rfl
      · split <;> rfl
  | call hown => exact h.congr (hown _ trivial) (.inl rfl) (.inl rfl) rfl rfl rfl
  | ended => exact h.congr rfl (.inr (.inr rfl)) (.inl rfl) rfl rfl rfl
  | read hphase hquit hown =>
    have hwait := h.outside (.inl hphase)
    refine ⟨fun _ ↦ hwait, fun _ ↦ hquit, fun hin ↦ ?_, Phase.noConfusion, Phase.noConfusion,
      fun w hw ↦ ?_⟩
    · rcases hin with hin | hin <;> cases hin
    · cases hwait.symm.trans hw
  | activate hphase hown =>
    have hwait := h.outside (.inr hphase)
    refine ⟨fun hout ↦ ?_, Phase.noConfusion, fun _ ↦ ?_, fun _ hquit ↦ ?_, fun _ ↦ rfl,
      fun w hw ↦ ?_⟩
    · rcases hout with hout | hout <;> cases hout
    · exact .not rfl rfl (congrArg EventState.isSet hown.1) (congrArg EventState.prioAppl hown.1)
        hwait
    · cases hquit.symm.trans (h.setup hphase)
    · cases hwait.symm.trans hw
  | poll hphase hown => exact h.poll hsound hphase hown
  | interrupted hphase =>
    exact h.congr rfl (.inr (.inl ⟨hphase, rfl⟩)) (.inl rfl) rfl rfl rfl
  | other _ hown => exact h.congr (hown _ trivial) (.inl rfl) (.inl rfl) rfl rfl rfl
  | onSighup _ hown =>
    exact h.congr (hown.2 _ trivial fun hne ↦ by cases hne) (.inl rfl) (.inl rfl) rfl rfl rfl
  | onSigint hqueued hown =>
    exact h.congr (hown.2 _ trivial fun hne ↦ by cases hne) (.inl rfl)
      (.inr ⟨hpolling .onSigint trivial hqueued, rfl⟩) rfl rfl rfl
  | onSigterm hqueued hown =>
    exact h.congr (hown.2 _ trivial fun hne ↦ by cases hne) (.inl rfl)
      (.inr ⟨hpolling .onSigterm trivial hqueued, rfl⟩) rfl rfl rfl
  | rotate _ hown =>
    exact h.congr (hown.2 _ trivial fun hne ↦ by cases hne) (.inl rfl) (.inl rfl) rfl rfl rfl
  | quitTimeout hqueued hown =>
    exact h.quitTimeout (hpolling .quitTimeout trivial hqueued) hqueued hown
  | finish hown => exact h.congr (hown _ trivial) (.inl rfl) (.inl rfl) rfl rfl rfl
  | check hphase hpoll hquit hreload =>
    have hstage := h.stage (.inr hphase)
    refine Drains.turn (fun _ ↦ hstage) (fun hyes ↦ ?_) h.limit _
    cases hstage with
    | not _ _ hset => cases hset.symm.trans (hquit hyes)
    | armed _ hawaiting | due hawaiting | fired hawaiting => exact hawaiting
  | await hphase hpoll hcause hown =>
    exact h.await hsound hheeds hphase hpoll (hcause.imp (fun hyes ↦
      ⟨hyes.1, hyes.2.1, hyes.2.2.2⟩) fun hyes ↦ ⟨hyes.1, hyes.2.1, hyes.2.2.2⟩) hown

/-! ## Readings

To count the readings, each `SIGHUP` that has been raised is traced to where it is now.  It is owed
one reading at most, as a second one that is raised meanwhile is merged with the first. -/

/-- A `SIGHUP` is pending. -/
def pendings (s : Main X) : Nat := if sighup ∈ s.raised then 1 else 0

/-- Its handler is to be called, or has set `reload`. -/
def told (s : Main X) : Nat :=
  if (s.ev .onSighup).prioAppl ≠ 0 ∨ s.reload = true then 1 else 0

/-- The inner loop is to be left. -/
def leaving (s : Main X) : Nat := if s.awaitingIdle = true then 1 else 0

/-- It has been left. -/
def left (s : Main X) : Nat := if s.phase = .top then 1 else 0

/-- How often the configuration is still to be read, at most. -/
def owed (s : Main X) : Nat := s.pendings + s.told + s.leaving + s.left

/-- **The invariant** for the readings of the configuration: there is a `SIGHUP` for each, but the
first. -/
structure Counted (s : Main X) : Prop where
  read : s.readings ≤ s.journal.hangups + 1
  owed : s.quit = false → s.readings + s.owed ≤ s.journal.hangups + 1

omit [DecidableEq X] in
theorem owed_le {a b c d m : Nat} (ha : s.pendings ≤ a) (hb : s.told ≤ b) (hc : s.leaving ≤ c)
    (hd : s.left ≤ d) (hsum : a + b + c + d ≤ m) : s.owed ≤ m := by
  rw [Main.owed]
  omega

omit [DecidableEq X] in
/-- Nothing more is owed. -/
theorem Counted.congr (h : s.Counted) (howed : s'.quit = false → s'.owed ≤ s.owed)
    (hquit : s'.quit = false → s.quit = false) (hreadings : s'.readings = s.readings)
    (hhangups : s'.journal.hangups = s.journal.hangups) : s'.Counted := by
  refine ⟨by rw [hreadings, hhangups]; exact h.read, fun hnot ↦ ?_⟩
  have hbefore := h.owed (hquit hnot)
  have hless := howed hnot
  omega

omit [DecidableEq X] in
theorem told_congr (hev : (s'.ev .onSighup).prioAppl = (s.ev .onSighup).prioAppl)
    (hreload : s'.reload = s.reload) : s'.told = s.told := by
  rw [told, told, hev, hreload]

omit [DecidableEq X] in
theorem left_congr (hphase : s'.phase = .top ↔ s.phase = .top) : s'.left = s.left := by
  rw [left, left]
  simp only [hphase]

omit [DecidableEq X] in
theorem left_eq_zero (hphase : s.phase ≠ .top) : s.left = 0 := if_neg hphase

omit [DecidableEq X] in
theorem raise_hangups (s : Main X) (signo : Nat) : (s.raise signo).journal.hangups =
    s.journal.hangups + if signo = sighup then 1 else 0 := by
  rw [raise, Journal.raise]
  dsimp only
  split
  · rfl
  · split
    · rfl
    · split <;> rfl

omit [DecidableEq X] in
/-- A signal is raised. -/
theorem Counted.raise (h : s.Counted) (signo : Nat) : (s.raise signo).Counted := by
  have hmem : sighup ∈ (s.raise signo).raised ↔ sighup = signo ∨ sighup ∈ s.raised :=
    List.mem_insert_iff
  have hpendings : (s.raise signo).pendings ≤ s.pendings + if signo = sighup then 1 else 0 := by
    by_cases hsig : signo = sighup
    · rw [if_pos hsig, pendings]
      split <;> omega
    · rw [if_neg hsig, pendings, pendings]
      simp only [hmem.trans (or_iff_right (Ne.symm hsig))]
      exact le_rfl
  have hread := h.read
  refine ⟨?_, fun hquit ↦ ?_⟩
  · rw [raise_hangups]
    show s.readings ≤ _
    omega
  · have hless : (s.raise signo).owed ≤ s.owed + if signo = sighup then 1 else 0 := by
      refine owed_le (b := s.told) (c := s.leaving) (d := s.left) hpendings le_rfl le_rfl le_rfl ?_
      rw [Main.owed]
      omega
    have howed := h.owed hquit
    rw [raise_hangups]
    show s.readings + _ ≤ _
    omega

omit [DecidableEq X] in
/-- The inner loop is left only when that has been awaited. -/
theorem owed_turn (hawaiting : s.more = false → s.awaitingIdle = true)
    (hphase : s.phase = .polling) (busy : Bool) : (s.turn busy).owed ≤ s.owed := by
  have hleft : s.left = 0 := left_eq_zero (by rw [hphase]; nofun)
  rcases s.turn_cases busy with ⟨heq, -⟩ | ⟨heq, hwhy⟩ <;> rw [heq]
  · refine owed_le (a := s.pendings) (b := s.told) (c := s.leaving) (d := 0) le_rfl le_rfl le_rfl
      (left_eq_zero fun htop ↦ ?_).le ?_
    · cases htop
    · rw [Main.owed, hleft]
  · have hyes : s.leaving = 1 := if_pos (hwhy.elim hawaiting And.left)
    refine owed_le (a := s.pendings) (b := s.told) (c := 0) (d := 1) le_rfl le_rfl le_rfl le_rfl ?_
    rw [Main.owed, hleft, hyes]

/-- A poll collects. -/
theorem Counted.poll (h : s.Counted) (hsound : s.Sound kind) (hheeds : s.Heeds)
    (hphase : s.phase = .waiting) {now : TimePoint} {reports : List (Report X)}
    (hown : s.Collected now (.signals ∈ reports) loop) :
    ({ s.polled now reports with loop } : Main X).Counted := by
  have hinner : s.phase.Inner := by
    rw [hphase]
    trivial
  have hring := hown.ring hsound (e := .onSighup) trivial nofun
  have hleft : s.left = 0 := left_eq_zero (by rw [hphase]; nofun)
  obtain ⟨raised, j, heq, hraised, hhangups⟩ : ∃ raised j, s.polled now reports =
      { s with phase := .polling, raised, journal := j } ∧
      (∀ n ∈ raised, n ∈ s.raised ∧ (.signals ∈ reports → n ∉ s.loop.sched.watching)) ∧
      j.hangups = s.journal.hangups := by
    rcases s.polled_eq now reports with ⟨-, heq⟩ | ⟨hsignals, heq⟩
    · refine ⟨_, _, heq, fun n hn ↦ ?_, rfl⟩
      obtain ⟨hn, hnot⟩ := List.mem_filter.mp hn
      exact ⟨hn, fun _ ↦ of_decide_eq_true hnot⟩
    · exact ⟨_, _, heq, fun n hn ↦ ⟨hn, fun hyes ↦ absurd hyes hsignals⟩, rfl⟩
  rw [heq]
  refine h.congr (fun hquit ↦ ?_) id rfl hhangups
  rcases hring with ⟨-, hsignals, hset, hpending⟩ | ⟨hsame, -⟩
  · -- one that was pending is read
    have hsigno : (s.ev .onSighup).signo = sighup := by
      cases hheeds.stage hinner hquit with
      | armed hsigno => exact hsigno
      | rung hspent | told hspent | heeded hspent => exact absurd hspent hset
    have hone : s.pendings = 1 := if_pos (hsigno ▸ hpending)
    have hread : sighup ∉ raised := fun hmem ↦
      (hraised _ hmem).2 hsignals (Loop.watched hsound.enrolled hsigno nofun)
    refine owed_le (a := 0) (b := 1) (c := s.leaving) (d := 0) (if_neg hread).le ?_ le_rfl
      (left_eq_zero fun htop ↦ ?_).le ?_
    · rw [Main.told]
      split <;> omega
    · cases htop
    · rw [Main.owed, hone, hleft]
      omega
  · refine owed_le (a := s.pendings) (b := s.told) (c := s.leaving) (d := 0) ?_
      (le_of_eq (told_congr ?_ rfl)) le_rfl (left_eq_zero fun htop ↦ ?_).le ?_
    · rw [pendings, pendings]
      split
      · rw [if_pos (hraised _ ‹_›).1]
      · exact Nat.zero_le _
    · exact congrArg EventState.prioAppl hsame
    · cases htop
    · rw [Main.owed, hleft]

omit [DecidableEq X] in
/-- The configuration is read. -/
theorem Counted.readAgain (h : s.Counted) (hsound : s.Sound kind) (hheeds : s.Heeds)
    (hphase : s.phase = .top) (hquit : s.quit = false)
    (hown : s.Changed loop .onSighup { s.ev .onSighup with signo := sighup }) :
    ({ s with reload := false, loop } : Main X).read.Counted := by
  have howed := h.owed hquit
  have hone : s.left = 1 := if_pos hphase
  have happl : (s.ev .onSighup).prioAppl = 0 :=
    hsound.unqueued (hsound.between (by rw [hphase]; nofun)) trivial
  rw [Main.owed, hone] at howed
  refine ⟨?_, fun _ ↦ ?_⟩
  · show s.readings + 1 ≤ s.journal.hangups + 1
    omega
  · have hless : ({ s with reload := false, loop } : Main X).read.owed ≤ s.pendings := by
      refine owed_le (a := s.pendings) (b := 0) (c := 0) (d := 0) le_rfl (le_of_eq (if_neg ?_))
        (le_of_eq (if_neg ?_)) (left_eq_zero fun htop ↦ ?_).le le_rfl
      · rintro (hqueued | hyes)
        · exact hqueued ((congrArg EventState.prioAppl hown.1).trans happl)
        · cases hyes
      · show ¬ s.awaitingIdle = true
        rw [hheeds.outside (.inl hphase)]
        nofun
      · cases htop
    show s.readings + 1 + _ ≤ s.journal.hangups + 1
    omega

/-- **The step lemma.** -/
theorem Counted.step (h : s.Counted) (hsound : s.Sound kind) (hheeds : s.Heeds)
    (hdrains : s.Drains) {a : Act X} (he : s.Effect a s') : s'.Counted := by
  -- what changes nothing that is counted
  have hsame : ∀ {s' : Main X}, s'.ev .onSighup = s.ev .onSighup → s'.pendings = s.pendings →
      s'.reload = s.reload → s'.leaving = s.leaving → (s'.phase = .top ↔ s.phase = .top) →
      (s'.quit = false → s.quit = false) → s'.readings = s.readings →
      s'.journal.hangups = s.journal.hangups → s'.Counted := by
    intro s' hev hpendings hreload hleaving hphase hquit
    refine h.congr (fun _ ↦ owed_le hpendings.le
      (told_congr (congrArg EventState.prioAppl hev) hreload).le hleaving.le
      (left_congr hphase).le le_rfl) hquit
  cases he with
  | skip => exact h
  | raise signo => exact h.raise signo
  | call hown => exact hsame (hown _ trivial) rfl rfl rfl .rfl id rfl rfl
  | ended hphase hquit => exact h.congr (fun hnot ↦ by cases hquit.symm.trans hnot) id rfl rfl
  | read hphase hquit hown => exact h.readAgain hsound hheeds hphase hquit hown
  | activate hphase hown =>
    have hleaving : s.leaving = 0 := if_neg (by rw [hheeds.outside (.inr hphase)]; nofun)
    refine hsame (hown.2 _ trivial nofun) rfl rfl hleaving.symm ?_ id rfl rfl
    rw [hphase]
    exact ⟨nofun, nofun⟩
  | poll hphase hown => exact h.poll hsound hheeds hphase hown
  | interrupted hphase =>
    refine hsame rfl rfl rfl rfl ?_ id rfl rfl
    rw [hphase]
    exact ⟨nofun, nofun⟩
  | other _ hown => exact hsame (hown _ trivial) rfl rfl rfl .rfl id rfl rfl
  | onSighup hqueued hown =>
    refine h.congr (fun _ ↦ ?_) id rfl rfl
    have hone : s.told = 1 := if_pos (.inl hqueued)
    refine owed_le (a := s.pendings) (b := 1) (c := s.leaving) (d := s.left) le_rfl
      (le_of_eq (if_pos (.inr rfl))) le_rfl le_rfl ?_
    rw [Main.owed, hone]
  | onSigint _ hown => exact hsame (hown.2 _ trivial nofun) rfl rfl rfl .rfl nofun rfl rfl
  | onSigterm _ hown => exact hsame (hown.2 _ trivial nofun) rfl rfl rfl .rfl nofun rfl rfl
  | rotate _ hown => exact hsame (hown.2 _ trivial nofun) rfl rfl rfl .rfl id rfl rfl
  | quitTimeout _ hown => exact hsame (hown.2 _ trivial nofun) rfl rfl rfl .rfl id rfl rfl
  | finish hown => exact hsame (hown _ trivial) rfl rfl rfl .rfl id rfl rfl
  | @check _ busy hphase hpoll hquit hreload =>
    have hawaiting : s.more = false → s.awaitingIdle = true := by
      intro hmore
      cases hdrains.stage (.inr hphase) with
      | not _ hyes | armed _ _ hyes => cases hmore.symm.trans hyes
      | due hawaiting | fired hawaiting => exact hawaiting
    have hfields : (s.turn busy).quit = s.quit ∧ (s.turn busy).readings = s.readings ∧
        (s.turn busy).journal.hangups = s.journal.hangups := by
      rcases s.turn_cases busy with ⟨heq, -⟩ | ⟨heq, -⟩ <;> rw [heq] <;> exact ⟨rfl, rfl, rfl⟩
    exact h.congr (fun _ ↦ owed_turn hawaiting hphase busy) (fun hnot ↦ hfields.1 ▸ hnot)
      hfields.2.1 hfields.2.2
  | @await now busy reload loop duration hphase hpoll hcause hown =>
    have hinner : s.phase.Inner := by
      rw [hphase]
      trivial
    obtain ⟨t, ht⟩ : ∃ t : Main X, t = { s with
        reload
        awaitingIdle := true
        journal := { s.journal with
          wait := s.journal.wait.or (some ⟨now, now + duration, []⟩) }
        loop } := ⟨_, rfl⟩
    rw [← ht]
    have hfields : (t.turn busy).quit = s.quit ∧ (t.turn busy).readings = s.readings ∧
        (t.turn busy).journal.hangups = s.journal.hangups := by
      rcases t.turn_cases busy with ⟨heq, -⟩ | ⟨heq, -⟩ <;> rw [heq, ht] <;>
        exact ⟨rfl, rfl, rfl⟩
    refine h.congr (fun hnot ↦ ?_) (fun hnot ↦ hfields.1 ▸ hnot) hfields.2.1 hfields.2.2
    rw [hfields.1] at hnot
    refine (owed_turn (fun _ ↦ by rw [ht]) (by rw [ht]; exact hphase) busy).trans ?_
    rcases hcause with ⟨hquit, -⟩ | ⟨-, hreload, rfl, -⟩
    · cases hquit.symm.trans hnot
    cases hheeds.stage hinner hnot with
    | told _ happl _ hawaiting =>
      have hone : s.told = 1 := if_pos (.inr hreload)
      have hzero : s.leaving = 0 := if_neg (by rw [hawaiting]; nofun)
      rw [ht]
      refine owed_le (a := s.pendings) (b := 0) (c := 1) (d := s.left) le_rfl
        (le_of_eq (if_neg ?_)) (le_of_eq (if_pos rfl)) le_rfl ?_
      · rintro (hqueued | hyes)
        · have hsame := congrArg EventState.prioAppl (hown.2 .onSighup trivial nofun)
          exact hqueued (hsame.trans happl)
        · cases hyes
      · rw [Main.owed, hone, hzero]
    | armed _ _ hno | rung _ _ hno | heeded _ _ hno => cases hreload.symm.trans hno

end Main
end UdpTun
