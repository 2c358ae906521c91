import UdpTun.TcpEgress.Listeners

/-!
# The housekeeping of an egress

`TCPEgress::flush` drops the client states that have not been used for `client_timeout`, and then
sets its timer for the next time.  That is not a `client_timeout` from now, but a `client_timeout`
after the time that was due before; so the times of the timer are regular, however late the poll
comes to it.  But `flush` is also called when a connection is closed, and by `busy`, and each of
these calls puts off the timer as well, although the time that was due has not come.

`Prompt` says of one call what it is to ensure: that the timer is set for a time no more than a
`client_timeout` away, and so that no client state is left that will have been unused for more than
twice that by then.  `flushes_prompt` says in which runs it does.  A `Tally` is an egress with the
number of calls so far: the timer is always set for the time of the next call, if there had been one
in each `client_timeout` since the start.
-/

set_option autoImplicit false

namespace UdpTun
namespace TcpEgress

open Scheduler (Changes)

theorem cancelAll_total {s : Scheduler Ev} (h : s.WF) (is : List Ev) :
    ∃ s', cancelAll is s = .ok s' := by
  induction is generalizing s with
  | nil => exact ⟨s, rfl⟩
  | cons i is ih =>
    obtain ⟨t, ht⟩ := h.descrCancel_total i
    obtain ⟨s', hs'⟩ := ih (h.descrCancel ht)
    exact ⟨s', by rw [cancelAll, ht]; exact hs'⟩

namespace Egress

variable {S : Type} {cfg : Config S} {e e' e'' : Egress S} {l : Listener}

/-! ## What is to be ensured

The limit of two timeouts is what follows from one for the timer: a state that has just not expired
is looked at again within another one. -/

/-- When the step calls `flush`, if it does. -/
def flushAt (e : Egress S) : Act → Option TimePoint
  | .busy now => some now
  | .notify i io => if (i = .idev ∨ i = .flusher) ∧ e.Next i then some io.now else none
  | _ => none

theorem flushAt_notify {i : Ev} (hi : i = .idev ∨ i = .flusher) (hnext : e.Next i) (io : Io) :
    e.flushAt (.notify i io) = some io.now := if_pos ⟨hi, hnext⟩

theorem flushAt_none {i : Ev} (hi : ¬ ((i = .idev ∨ i = .flusher) ∧ e.Next i)) (io : Io) :
    e.flushAt (.notify i io) = none := if_neg hi

/-- `last_used` of a client state. -/
def LastUsed (cfg : Config S) (s : S) (u : TimePoint) : Prop :=
  ∀ epoch, cfg.expired s epoch ↔ u < epoch

/-- The timer is set for a time within a `client_timeout`, and by then no client state that is
left will have been unused for more than two of them. -/
structure Armed (cfg : Config S) (t : TimePoint) (e : Egress S) : Prop where
  isSet : (e.sched.event .flusher).isSet
  soon : (e.sched.event .flusher).when' ≤ t + cfg.clientTimeout
  used : ∀ c ∈ e.conns, ∀ id s u, c.conn.clstats.get? id = some s → LastUsed cfg s u →
    (e.sched.event .flusher).when' ≤ u + cfg.clientTimeout + cfg.clientTimeout

/-- A step that calls `flush` returns from it, and the timer is set as it should be. -/
def Prompt (cfg : Config S) (e : Egress S) (a : Act) : Prop :=
  ∀ t ∈ e.flushAt a, ∃ e', e.step cfg a = .ok e' ∧ Armed cfg t e'

/-! ## What `flush` does

The next time is counted from the one that was due, so it depends on the clock only through what has
expired. -/

/-- **`flush` returns**, with the timer set for a `client_timeout` after the time before, and
without any client state that has expired. -/
theorem flush_sets (cfg : Config S) (h : e.sched.WF) (now : TimePoint) :
    ∃ e', e.flush cfg now = .ok e' ∧ (e'.sched.event .flusher).isSet ∧
    (e'.sched.event .flusher).when' = e.flushTime + cfg.clientTimeout ∧
    e'.flushTime = e.flushTime + cfg.clientTimeout ∧
    ∀ c ∈ e'.conns, ∀ id s, c.conn.clstats.get? id = some s →
      ¬ cfg.expired s (now - cfg.clientTimeout) := by
  obtain ⟨t, ht⟩ := cancelAll_total h ((e.conns.filter connFlushable).map fun c ↦ .connFd c.id)
  have hs := Scheduler.changes_timedSet t .flusher (e.flushTime + cfg.clientTimeout)
  rw [flush, ht]
  refine ⟨_, rfl, ?_, ?_, rfl, fun c hc id s hget hexpired ↦ ?_⟩
  · exact congrArg EventState.isSet hs.event_self
  · exact congrArg EventState.when' hs.event_self
  · obtain ⟨d, -, rfl⟩ := List.mem_map.mp hc
    rw [connFlush, OrdMap.get?_filter, Option.filter_eq_some_iff] at hget
    rw [hexpired] at hget
    exact absurd hget.2 (by simp)

/-- The timer is soon enough exactly when the time that was due has come. -/
theorem flush_armed_iff (h : e.sched.WF) (now : TimePoint) :
    (∃ e', e.flush cfg now = .ok e' ∧ Armed cfg now e') ↔ e.flushTime ≤ now := by
  obtain ⟨e', he', hset, hwhen, -, hleft⟩ := flush_sets cfg h now
  constructor
  · rintro ⟨e'', he'', harmed⟩
    obtain rfl := Except.ok.inj (he'.symm.trans he'')
    have hsoon := harmed.soon
    rw [hwhen] at hsoon
    exact Int.le_of_add_le_add_right hsoon
  · intro hdue
    have hsoon : (e'.sched.event .flusher).when' ≤ now + cfg.clientTimeout := by
      rw [hwhen]
      exact Int.add_le_add_right hdue _
    refine ⟨e', he', hset, hsoon, fun c hc id s u hget hused ↦ ?_⟩
    have hrecent : now - cfg.clientTimeout ≤ u := by
      rw [← not_lt]
      exact fun hlt ↦ hleft c hc id s hget ((hused _).mpr hlt)
    exact hsoon.trans (Int.add_le_add_right (Int.le_add_of_sub_right_le hrecent) _)

/-! ## What the other steps leave alone

The time that is due is changed by nothing else, although all of them go through the same scheduler.
-/

/-- The scheduler stays in order, and the time that is due stays. -/
structure Untimed (e e' : Egress S) : Prop where
  wf : e.sched.WF → e'.sched.WF
  flushTime : e'.flushTime = e.flushTime

theorem Untimed.trans (h : Untimed e e') (h' : Untimed e' e'') : Untimed e e'' :=
  ⟨h'.wf ∘ h.wf, h'.flushTime.trans h.flushTime⟩

theorem rebind_untimed {now : TimePoint} {r : Bind} (h : e.rebind l now r = .ok e') :
    Untimed e e' := by
  obtain ⟨-, ⟨d, rfl⟩ | ⟨fd, t, ht, rfl⟩⟩ := rebind_ok h
  · exact ⟨fun hwf ↦ hwf.timedSet (.rbev l.id) _, rfl⟩
  · exact ⟨fun hwf ↦ (hwf.timedCancel _).descrSet ht, rfl⟩

theorem acceptLoop_untimed {now : TimePoint} {errno : Errno} {accepts : List Accept}
    (h : acceptLoop l now errno accepts e = .ok e') : Untimed e e' := by
  rcases acceptLoop_ok h with hfailed | ⟨descriptors, errno, clsock, known, e₁, he₁, hnext⟩
  · obtain ⟨t, descriptors, ht, rfl⟩ := acceptFailed_ok hfailed
    exact ⟨fun hwf ↦ (hwf.descrCancel ht).timedSet (.rbev l.id) _, rfl⟩
  · obtain ⟨fd, t, -, ht, rfl⟩ := acceptNext_ok hnext
    rcases establish_ok he₁ with ⟨descriptors, rfl⟩ | ⟨fd, hadd⟩
    · exact ⟨fun hwf ↦ hwf.descrSet ht, rfl⟩
    · obtain ⟨s, c, hs, rfl, -⟩ := addConn_ok hadd
      exact ⟨fun hwf ↦ (hwf.descrSet hs).descrSet ht, rfl⟩

theorem connHandleFd_untimed {c : Conn S} {io : Io} (h : e.connHandleFd cfg c io = .ok e') :
    Untimed e e' := by
  refine ⟨(connHandleFd_apart h).elsewhere.wf, ?_⟩
  obtain ⟨t, conns, ⟨-, descriptors, rfl⟩ | ⟨fd, -, rfl⟩⟩ := connHandleFd_ok h <;> rfl

/-- The induction is on the addresses that are left. -/
theorem listen_untimed {now : TimePoint} {addrs : List AddressEntry} {binds : List Bind}
    (h : listen now addrs binds e = .ok e') : Untimed e e' := by
  induction addrs generalizing binds e with
  | nil =>
    cases h
    exact ⟨id, rfl⟩
  | cons a addrs ih =>
    cases binds with
    | nil => cases h
    | cons r binds =>
      rw [listen] at h
      dsimp only [bind, Except.bind] at h
      split at h
      · cases h
      rename_i e₁ he₁
      obtain ⟨hwf, htime⟩ := (rebind_untimed he₁).trans (ih h)
      exact ⟨hwf, htime⟩

theorem activate_untimed {now : TimePoint} {info : Except Eai (List AddressEntry)}
    {binds : List Bind} (h : e.activate cfg now info binds = .ok e') : Untimed e e' := by
  cases info with
  | error x => cases h
  | ok info =>
    obtain ⟨e₁, he₁, rfl⟩ := map_ok h
    obtain ⟨hwf, htime⟩ := listen_untimed he₁
    exact ⟨hwf, htime⟩

theorem deactivate_untimed (h : e.deactivate = .ok e') : Untimed e e' := by
  rw [deactivate] at h
  dsimp only [bind, Except.bind] at h
  split at h
  · cases h
  rename_i t ht
  cases h
  exact ⟨(cancelAll_ok ht).1, rfl⟩

/-! ## Steps

One step moves the time on by a timeout, or not at all. -/

/-- **The step lemma**: `flush` moves the time on, and nothing else does. -/
theorem step_time {a : Act} (hwf : e.sched.WF) (h : e.step cfg a = .ok e') : e'.sched.WF ∧
    e'.flushTime = e.flushTime + if (e.flushAt a).isSome then cfg.clientTimeout else 0 := by
  have hother : e.flushAt a = none → Untimed e e' → e'.sched.WF ∧
      e'.flushTime = e.flushTime + if (e.flushAt a).isSome then cfg.clientTimeout else 0 := by
    intro hnone hsame
    rw [hnone]
    exact ⟨hsame.wf hwf, hsame.flushTime.trans (Int.add_zero _).symm⟩
  have hflush : ∀ (e₀ : Egress S) {now : TimePoint}, e₀.sched.WF → e₀.flush cfg now = .ok e' →
      e'.sched.WF ∧ e'.flushTime = e₀.flushTime + cfg.clientTimeout := by
    intro e₀ now hwf₀ hs
    obtain ⟨e₁, he₁, -, -, htime, -⟩ := flush_sets cfg hwf₀ now
    obtain rfl := Except.ok.inj (he₁.symm.trans hs)
    exact ⟨(flush_ok hs).1.wf hwf₀, htime⟩
  have hnotify : ∀ {i : Ev} {p : Nat} {io : Io}, i ∈ e.sched.queues.bucket p →
      ¬ (i = .idev ∨ i = .flusher) → a = .notify i io →
      Untimed { e with sched := e.sched.take p i } e' → e'.sched.WF ∧
        e'.flushTime = e.flushTime + if (e.flushAt a).isSome then cfg.clientTimeout else 0 := by
    rintro i p io hi hwhich rfl hsame
    exact hother (flushAt_none (fun hnext ↦ hwhich hnext.1) io)
      ⟨fun hwf ↦ hsame.wf ((Scheduler.changes_take hi).wf hwf), hsame.flushTime⟩
  cases effect h with
  | skip hnot hbusy =>
    refine hother ?_ ⟨id, rfl⟩
    cases a with
    | busy now => exact absurd rfl (hbusy now)
    | notify i io => exact flushAt_none (fun hnext ↦ hnot i io rfl hnext.2) io
    | _ => rfl
  | activate _ h => exact hother rfl (activate_untimed h)
  | deactivate h => exact hother rfl (deactivate_untimed h)
  | busy h => exact hflush e hwf h
  | poll hs => exact hother rfl ⟨fun hwf ↦ (Scheduler.collect_spec hwf hs).1.wf, rfl⟩
  | @flush i io p _ hwhich hp hi h =>
    rw [flushAt_notify hwhich ⟨p, hp, hi⟩]
    exact hflush { e with sched := e.sched.take p i } ((Scheduler.changes_take hi).wf hwf) h
  | accept _ hi _ h => exact hnotify hi (by simp) rfl (acceptLoop_untimed h)
  | rebind _ hi _ h => exact hnotify hi (by simp) rfl (rebind_untimed h)
  | conn _ hi h => exact hnotify hi (by simp) rfl (connHandleFd_untimed h)

/-- A step is prompt exactly when the time that was due has come. -/
theorem prompt_iff (h : e.sched.WF) (a : Act) :
    Prompt cfg e a ↔ ∀ t ∈ e.flushAt a, e.flushTime ≤ t := by
  refine forall₂_congr fun t ht ↦ ?_
  cases a with
  | busy now =>
    obtain rfl := Option.some.inj ht
    exact flush_armed_iff h now
  | notify i io =>
    by_cases hflush : (i = .idev ∨ i = .flusher) ∧ e.Next i
    · obtain rfl := Option.some.inj ((flushAt_notify hflush.1 hflush.2 io).symm.trans ht)
      obtain ⟨hwhich, p, hp, hi⟩ := hflush
      have hstep : e.step cfg (.notify i io) =
          flush cfg { e with sched := e.sched.take p i } io.now := by
        rw [step, Option.mem_def.mp hp]
        dsimp only
        rw [if_pos hi]
        rcases hwhich with rfl | rfl <;> rfl
      rw [hstep]
      exact flush_armed_iff (e := { e with sched := e.sched.take p i })
        ((Scheduler.changes_take hi).wf h) io.now
    · cases (flushAt_none hflush io).symm.trans ht
  | _ => cases ht

/-! ## Runs

The times that are due are counted from the start.  So whether a flush is early can be told from the
number of those before it. -/

/-- An egress, and how often `flush` has been called. -/
structure Tally (S : Type) where
  egress : Egress S
  flushes : Nat

namespace Tally

def step (cfg : Config S) (x : Tally S) (a : Act) : Except Halt (Tally S) :=
  (x.egress.step cfg a).map fun e ↦
    ⟨e, if (x.egress.flushAt a).isSome then x.flushes + 1 else x.flushes⟩

/-- **The flushes are not early**: the one after the first `n` comes when `n + 1` times the
`client_timeout` has passed since the `start`. -/
def OnTime (cfg : Config S) (start : TimePoint) (x : Tally S) (a : Act) : Prop :=
  ∀ t ∈ x.egress.flushAt a, start + (x.flushes + 1) * cfg.clientTimeout ≤ t

/-- The time that is due. -/
structure Due (cfg : Config S) (start : TimePoint) (x : Tally S) : Prop where
  wf : x.egress.sched.WF
  flushTime : x.egress.flushTime = start + (x.flushes + 1) * cfg.clientTimeout

theorem due_init (cfg : Config S) (start : TimePoint) : Due cfg start ⟨init cfg start, 0⟩ := by
  refine ⟨Scheduler.wf_init.timedSet Ev.flusher (start + cfg.clientTimeout), ?_⟩
  show start + cfg.clientTimeout = _
  simp

theorem Due.step {start : TimePoint} {x x' : Tally S} {a : Act} (h : Due cfg start x)
    (hs : x.step cfg a = .ok x') : Due cfg start x' := by
  obtain ⟨e, he, rfl⟩ := map_ok hs
  obtain ⟨hwf, htime⟩ := step_time h.wf he
  refine ⟨hwf, ?_⟩
  dsimp only
  rw [htime, h.flushTime]
  split
  · rw [Int.natCast_succ, Int.add_assoc, Int.add_mul (_ + 1), Int.one_mul]
  · exact Int.add_zero _

/-- **Housekeeping does not drift exactly in the runs in which it is not early**: in any run, every
flush leaves the timer within a `client_timeout` if and only if no flush comes before its time. -/
theorem flushes_prompt (cfg : Config S) (start : TimePoint) (l : List Act) :
    Run.Along (step cfg) (fun x a ↦ Prompt cfg x.egress a) ⟨init cfg start, 0⟩ l ↔
      Run.Along (step cfg) (OnTime cfg start) ⟨init cfg start, 0⟩ l := by
  refine Run.along_congr (I := Due cfg start) (fun x a hx ↦ ?_)
    (fun x a x' hx _ hs ↦ hx.step hs) (due_init cfg start) l
  rw [prompt_iff hx.wf, OnTime, hx.flushTime]

/-- `main` asks at once whether the egress is busy, and the timer is put off. -/
theorem early_flush_is_not_prompt : ¬ ∀ (cfg : Config Unit) start l,
    Run.Along (step cfg) (fun x a ↦ Prompt cfg x.egress a) ⟨init cfg start, 0⟩ l := by
  intro hall
  have hprompt := (hall oneMinute 0 [.busy 5]).1
  have hdue := (prompt_iff (due_init oneMinute 0).wf _).mp hprompt 5 rfl
  exact absurd hdue (by decide)

end Tally
end Egress
end TcpEgress
end UdpTun
