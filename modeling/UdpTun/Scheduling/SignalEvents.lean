import UdpTun.Scheduling.Signals
import UdpTun.Scheduling.Timers

/-!
# Signal events

What a poll does to an event that is set for a signal is to queue it, if it reads the signal, and
it is set for no signal then (`Scheduler.collect_signal`).  So a signal event fires once for each
`set`, and in the poll that reads its signal, if its priority is left alone (`Foremost`).
-/

set_option autoImplicit false

namespace UdpTun

open Scheduler (Kind)

variable {E : Type} [DecidableEq E]

/-! ## What a poll reads

`sigfd` may give several signals in one poll, and other events are reported in between.  For one
event only the signals matter. -/

/-- The signals that are read when this is reported. -/
def Ready.signos : Ready E → List Nat
  | .signals signos => signos
  | .descriptor _ _ => []

namespace Scheduler

variable {s s' : Scheduler E} {e : E}

/-- A signal event when its signal has been read. -/
def rung (v : EventState) : EventState := EventState.enqueued { v with signo := 0 }

theorem rung_signal (v : EventState) : (rung v).signal = none := by
  rw [rung, EventState.enqueued_signal]
  rfl

/-- A signal is read for the events that are set for it. -/
theorem readSignal_event (h : s.WF) (signo : Nat) (e : E) : (s.readSignal signo).event e =
    if (s.event e).signal = some signo then rung (s.event e) else s.event e := by
  have hbucket := h.handlers signo e
  rw [readSignal]
  split
  · rename_i hnone
    rw [OrdMap.bucket, hnone] at hbucket
    rw [if_neg (mt hbucket.mpr (List.not_mem_nil))]
  · rename_i es hes
    rw [OrdMap.bucket, hes] at hbucket
    obtain ⟨ev, q, heq, -, hev⟩ := queueAll_spec clears_signo es h.half
    dsimp only
    rw [updateSignal_event, heq]
    refine (hev e).trans ?_
    by_cases hmem : e ∈ es
    · rw [if_pos hmem, if_pos (hbucket.mp hmem)]
      rfl
    · rw [if_neg hmem, if_neg (mt hbucket.mpr hmem)]

/-- Several signals are read, one after the other. -/
theorem readSignals_event (h : s.WF) (signos : List Nat) (e : E) :
    (signos.foldl readSignal s).event e =
      if ∃ n ∈ signos, (s.event e).signal = some n then rung (s.event e) else s.event e := by
  induction signos generalizing s with
  | nil => simp
  | cons n signos ih =>
    rw [List.foldl_cons, ih (stage_readSignal h n).wf, readSignal_event h]
    by_cases hn : (s.event e).signal = some n
    · -- it has left the signal, and is queued for no other
      simp [hn, rung_signal]
    · simp [hn]

theorem readReady_signal (h : s.WF) {r : Ready E} (hs : s.readReady r = .ok s')
    (hfd : (s.event e).fd = none) : s'.event e =
      if ∃ n ∈ r.signos, (s.event e).signal = some n then rung (s.event e) else s.event e := by
  cases r with
  | signals signos =>
    cases hs
    exact readSignals_event h signos e
  | descriptor i events =>
    obtain ⟨t, ht, rfl⟩ := map_ok hs
    obtain ⟨fd, hi, -⟩ := descrUpdate_ok ht
    have hne : e ≠ i := by
      rintro rfl
      rw [hfd] at hi
      cases hi
    rw [enqueue_event, descrUpdate_event ht]
    simp [hne, Ready.signos]

theorem readAll_signal {l : List (Ready E)} (h : s.WF) (hs : s.readAll l = .ok s')
    (hfd : (s.event e).fd = none) : s'.event e =
      if ∃ n ∈ l.flatMap Ready.signos, (s.event e).signal = some n then rung (s.event e)
      else s.event e := by
  induction l generalizing s with
  | nil =>
    cases hs
    simp
  | cons r l ih =>
    rw [readAll] at hs
    split at hs
    · cases hs
    rename_i t ht
    have hfirst := readReady_signal h ht hfd
    have hfd' : (t.event e).fd = none := by
      rw [((stage_readReady h ht).moves e).fd, hfd]
    rw [ih (stage_readReady h ht).wf hs hfd', hfirst]
    by_cases hn : ∃ n ∈ r.signos, (s.event e).signal = some n
    · have hall : ∃ n ∈ (r :: l).flatMap Ready.signos, (s.event e).signal = some n := by
        obtain ⟨n, hn, hsignal⟩ := hn
        exact ⟨n, List.mem_flatMap.mpr ⟨r, List.mem_cons_self, hn⟩, hsignal⟩
      simp only [if_pos hn, if_pos hall, rung_signal]
      simp
    · have hall : (∃ n ∈ (r :: l).flatMap Ready.signos, (s.event e).signal = some n) ↔
          ∃ n ∈ l.flatMap Ready.signos, (s.event e).signal = some n := by
        simp only [List.flatMap_cons, List.mem_append]
        constructor
        · rintro ⟨n, hmem | hmem, hsignal⟩
          · exact absurd ⟨n, hmem, hsignal⟩ hn
          · exact ⟨n, hmem, hsignal⟩
        · rintro ⟨n, hmem, hsignal⟩
          exact ⟨n, .inr hmem, hsignal⟩
      simp only [if_neg hn, hall]

/-- **What a poll does to a signal event.** -/
theorem collect_signal (h : s.WF) {now : TimePoint} {ready : List (Ready E)}
    (hs : s.collect now ready = .ok s') (hfd : (s.event e).fd = none)
    (hset : (s.event e).isSet = false) (hidle : e ∉ s.idleness) : s'.event e =
      if ∃ n ∈ ready.flatMap Ready.signos, (s.event e).signal = some n then rung (s.event e)
      else s.event e := by
  obtain ⟨t, ht, rfl⟩ := collect_ok hs
  have h₁ := stage_readAll h ht
  have h₂ := stage_collectTimed h₁.wf now
  have hread := readAll_signal h ht hfd
  have hset' : (t.event e).isSet = false := by
    rw [hread]
    split
    · exact (EventState.enqueued_isSet _).trans hset
    · exact hset
  rw [collectIdle_unset h₂.wf fun hmem ↦ hidle (h₁.idleness e (h₂.idleness e hmem)),
    collectTimed_unset h₁.wf hset', hread]

end Scheduler

/-! ## Signal events in a loop

A signal event in a loop that is never destroyed: it is watched for as long as it is set, and is
queued by the poll that reads its signal. -/

namespace Loop

variable {kind : E → Kind} {l l' : Loop E} {t : E}

theorem Sound.collect_signal (h : l.Sound kind) (hk : kind t = .signal) {now : TimePoint}
    {ready : List (Ready E)} {s : Scheduler E} (hs : l.sched.collect now ready = .ok s) :
    s.event t = if ∃ n ∈ ready.flatMap Ready.signos, (l.sched.event t).signal = some n then
        Scheduler.rung (l.sched.event t)
      else l.sched.event t := by
  have hfits := h.arena.fits t _ rfl
  have hidle : t ∉ l.sched.idleness := by
    intro hmem
    have hidle : kind t = .idle := Option.some.inj (h.arena.idle t hmem)
    rw [hk] at hidle
    cases hidle
  exact Scheduler.collect_signal h.wf hs (not_not.mp (mt hfits.descriptor (by simp [hk])))
    (Bool.not_eq_true _ ▸ mt hfits.timed (by simp [hk])) hidle

/-- The step lemma, for a signal event. -/
theorem Foremost.signal (h : l.Foremost t) (hsound : l.Sound kind) (hk : kind t = .signal)
    {a : Act E} (ha : Ordinary t l a) (hs : l.step kind a = .ok l') : l'.Foremost t := by
  refine h.kept hsound (fun hc ↦ ?_) ha hs
  rw [hsound.collect_signal hk hc]
  split
  · exact Default.enqueued ⟨h.default.usr, h.default.appl⟩
  · exact h.default

/-- What is said of signals agrees in the three places, in every state. -/
theorem enrolled_step (h : (arena kind l.sched).Enrolled) {a : Act E}
    (hs : l.step kind a = .ok l') : (arena kind l'.sched).Enrolled := by
  cases a with
  | call e m =>
    obtain ⟨b, hb, rfl⟩ := map_ok hs
    obtain ⟨halive, -⟩ := Arena.step_op rfl hb
    have henrolled := (h.step hb).1
    obtain ⟨s, alive⟩ := b
    obtain rfl : alive = _ := halive
    exact henrolled
  | poll now ready =>
    cases hpoll : l.poll with
    | some d =>
      rw [Loop.step, hpoll] at hs
      cases hs
      exact h
    | none =>
      obtain ⟨s, hc, rfl⟩ := step_poll hpoll hs
      have hcollect : (arena kind l.sched).step (.collect now ready) = .ok (arena kind s) := by
        rw [Arena.step]
        show (l.sched.collect now ready).map _ = _
        rw [hc]
        rfl
      exact (h.step hcollect).1
  | notify e =>
    rcases step_notify hs with ⟨rfl, -⟩ | ⟨d, -, -, rfl⟩
    · exact h
    · have hsteady : (arena kind (l.sched.take d.prio e)).Enrolled ∧
          Arena.Unset (arena kind l.sched) (.notify e) (arena kind (l.sched.take d.prio e)) :=
        h.steady (Scheduler.steady_take ..)
      exact hsteady.1
  | finish =>
    rcases step_finish hs with rfl | ⟨d, -, -, rfl⟩ <;> exact h

omit [DecidableEq E] in
/-- A signal is watched if an event is set for it. -/
theorem watched (h : (arena kind l.sched).Enrolled) {n : Nat} (ht : (l.sched.event t).signo = n)
    (hn : n ≠ 0) : n ∈ l.sched.watching :=
  (h.registers.watching n).mpr ⟨t, (h.registers.signo n t).mpr ⟨ht, hn⟩⟩

end Loop

end UdpTun
