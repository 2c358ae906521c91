import UdpTun.Queues.Notices
import UdpTun.TcpIngress.Exclusion

/-!
# No lost wake-up

The queue of a channel calls its user once, the idle event takes the call to the ingress, and the
ingress forgets the channel as soon as a frame of it has been sent.  So whatever is left in the
queue has to be announced again, each time.

`no_lost_wakeup`: once a channel has been activated, the ingress has it among its sources, or its
idle event is set or queued, whenever there is something in its queue; and when there is nothing,
the next push will call the user.
-/

set_option autoImplicit false

namespace UdpTun

/-! ## What a channel passes on

A channel calls functions of its queue, and what these announce reaches the user of the queue. -/

namespace Channel

open PayloadQueue (Announces)

theorem announces_fetch (c : Channel) : Announces c.queue c.fetch.1.queue c.fetch.2 := by
  rcases c.fetch_cases with ⟨pl, -, hf⟩ | ⟨-, -, hf⟩ | ⟨-, pl, -, hf⟩ <;> rw [hf]
  · exact PayloadQueue.announces_refl _
  · exact PayloadQueue.announces_peek _
  · exact PayloadQueue.announces_peek _

/-- With nothing to describe there is nothing in memory. -/
theorem announces_describe {szClid : Nat} {c c' : Channel} {some' : Bool} {iov iov' : Iov}
    {l : List PayloadQueue.Call} (h : c.describe szClid iov = .ok (some', iov', c', l)) :
    Announces c.queue c'.queue l ∧ (some' = false → c'.queue.queue = []) := by
  have hfetch := c.announces_fetch
  rcases describe_ok h with ⟨-, hf, hnone⟩ | ⟨rfl, c₁, pl, hf, -, hd⟩
  · rw [hf] at hfetch
    refine ⟨hfetch, fun _ ↦ ?_⟩
    rcases c.fetch_cases with ⟨pl, hpl, hf'⟩ | ⟨-, hpeek, hf'⟩ | ⟨-, pl, -, hf'⟩
    · cases hf.symm.trans hf'
      cases hpl.symm.trans hnone
    · cases hf.symm.trans hf'
      rcases c.queue.peek_cases with ⟨hsome, -⟩ | ⟨-, hnil, -⟩
      · rw [hpeek] at hsome
        cases hsome
      · exact hnil
    · cases hf.symm.trans hf'
      cases hnone
  · rw [hf] at hfetch
    refine ⟨?_, nofun⟩
    rw [(describeCurrent_ok hd).2.2.2.1]
    exact hfetch

/-- What comes after a complete frame is announced anew. -/
theorem announces_consumed {szClid n : Nat} {c c' : Channel} {allDone : Bool}
    {l : List PayloadQueue.Call} (h : c.consumed szClid n = .ok (allDone, c', l)) :
    Announces c.queue c'.queue l ∧ (allDone → c'.queue.queue ≠ [] → .user ∈ l) := by
  obtain ⟨pl, -, ⟨-, -, rfl, rfl⟩ | ⟨rfl, -, rfl, rfl⟩⟩ := consumed_ok h
  · exact ⟨PayloadQueue.announces_consume _, fun _ ↦ PayloadQueue.poke_user⟩
  · exact ⟨PayloadQueue.announces_refl _, nofun⟩

theorem announces_submit {szClid : Nat} {c : Channel} {clid : Nat} {data : List UInt8}
    {now : Nat} (hsized : c.queue.Sized queueMem) (hdata : szClid + data.length < queueMem) :
    Announces c.queue (c.submit szClid clid data now).1.queue
      (c.submit szClid clid data now).2 :=
  PayloadQueue.announces_push hsized (by simpa [sumLengths] using hdata) now

end Channel

namespace TcpIngress
namespace World

open PayloadQueue (Announces)

variable {C : Type} [DecidableEq C] {cfg : Config C} {w w' : World C} {c c' : C} {io : Io}
  {active : Prop}

/-! ## What the ingress knows

A channel with something to send is known in one of two ways: it is a source, or its idle event is
set or queued, and the handler of that will make it one. -/

/-- The idle event of a channel is set, or queued. -/
def Roused (w : World C) (c : C) : Prop :=
  .queueEvent c ∈ w.sched.idleness ∨ (w.sched.event (.queueEvent c)).prioAppl ≠ 0

/-- A channel is one of the sources, or is about to be. -/
def Known (w : World C) (c : C) : Prop := c ∈ w.streamers ∨ w.Roused c

/-- The invariant, for one channel.  Before the channel is active, only the sizes are right. -/
structure Notified (active : Prop) (c : C) (w : World C) : Prop where
  sized : (w.chan c).queue.Sized Channel.queueMem
  told : active → (w.chan c).queue.Told
  known : active → (w.chan c).queue.queue ≠ [] → w.Known c

/-- Only records shorter than `max_mem` are submitted. -/
def Short (cfg : Config C) (_ : World C) : Act C → Prop
  | .submit _ _ data _ => cfg.szClid + data.length < Channel.queueMem
  | _ => True

instance (w : World C) : DecidablePred (Short cfg w) := fun a ↦
  match a with
  | .submit .. => inferInstanceAs (Decidable (_ < _))
  | .activate _ | .flush .. | .discard _ | .lookupEnds .. | .raise | .poll .. | .notify .. =>
    .isTrue trivial

/-! ## Calls

A call of the user sets the idle event.  What is done to other channels or their events does not
matter. -/

/-- The user of a queue is its idle event. -/
theorem roused_calls {l : List PayloadQueue.Call} (hl : .user ∈ l) : (w.calls c l).Roused c := by
  rw [calls, if_pos hl]
  refine .inl ?_
  rw [Scheduler.idleSet_idleness]
  exact List.mem_insert_self ..

theorem Roused.calls (h : w.Roused c) (c' : C) (l : List PayloadQueue.Call) :
    (w.calls c' l).Roused c := by
  by_cases hl : .user ∈ l
  · by_cases hc : c' = c
    · subst hc
      exact roused_calls hl
    · rw [World.calls, if_pos hl]
      refine h.imp (fun hidle ↦ ?_) fun hq ↦ ?_
      · rw [Scheduler.idleSet_idleness]
        exact List.mem_insert_of_mem hidle
      · have hother : Ev.queueEvent c ≠ .queueEvent c' := fun heq ↦ hc (by cases heq; rfl)
        rwa [Scheduler.idleSet_event, Function.update_of_ne hother]
  · rwa [World.calls, if_neg hl]

theorem Known.calls (h : w.Known c) (c' : C) (l : List PayloadQueue.Call) :
    (w.calls c' l).Known c := by
  rw [Known, (calls_streamers w c' l).1]
  exact h.imp_right fun hr ↦ hr.calls c' l

theorem Known.update (h : w.Known c) (c' : C) (ch : Channel) (l : List PayloadQueue.Call) :
    (w.update c' ch l).Known c :=
  Known.calls (w := { w with chan := Function.update w.chan c' ch }) h c' l

omit [DecidableEq C] in
theorem Notified.congr (h : w.Notified active c) (hchan : w'.chan = w.chan)
    (hknown : w.Known c → w'.Known c) : w'.Notified active c := by
  refine ⟨?_, fun hact ↦ ?_, fun hact hne ↦ hknown (h.known hact ?_)⟩
  · rw [hchan]
    exact h.sized
  · rw [hchan]
    exact h.told hact
  · rwa [hchan] at hne

/-- A queue is operated on, and the calls that it makes are passed on. -/
theorem Notified.update (h : w.Notified active c) {ch : Channel} {l : List PayloadQueue.Call}
    (hch : c' = c → Announces (w.chan c).queue ch.queue l) :
    (w.update c' ch l).Notified active c := by
  by_cases hc : c' = c
  · subst hc
    obtain ⟨hsized, htold, huser⟩ := hch rfl
    have hself : (w.update c' ch l).chan c' = ch := update_self w c' ch l
    refine ⟨?_, fun hact ↦ ?_, fun hact hne ↦ ?_⟩
    · rw [hself]
      exact hsized _ h.sized
    · rw [hself]
      exact htold (h.told hact)
    · rw [hself] at hne
      rcases huser (h.told hact) hne with hl | hne
      · exact .inr (roused_calls hl)
      · exact (h.known hact hne).update ..
  · have hother : (w.update c' ch l).chan c = w.chan c := by
      rw [update_chan, Function.update_of_ne (Ne.symm hc)]
    refine ⟨?_, fun hact ↦ ?_, fun hact hne ↦ ?_⟩
    · rw [hother]
      exact h.sized
    · rw [hother]
      exact h.told hact
    · rw [hother] at hne
      exact (h.known hact hne).update ..

/-- After a poke, whatever was the case before. -/
theorem notified_activate (h : w.Notified active c) :
    (w.update c (w.chan c).activate.1 (w.chan c).activate.2).Notified True c := by
  refine ⟨?_, fun _ ↦ ?_, fun _ hne ↦ ?_⟩
  · rw [update_self]
    exact h.sized.poke
  · rw [update_self]
    exact PayloadQueue.told_poke _
  · rw [update_self] at hne
    exact .inr (roused_calls (PayloadQueue.poke_user hne))

omit [DecidableEq C] in
theorem Known.apart (h : w.Known c) (ha : Apart w w') : w'.Known c := by
  rwa [Known, Roused, ha.streamers, ha.idleness, ha.event]

omit [DecidableEq C] in
theorem Notified.apart (h : w.Notified active c) (ha : Apart w w') : w'.Notified active c :=
  h.congr ha.chan fun hk ↦ hk.apart ha

/-! ## Sources

A source is dropped in two cases: there is nothing to describe, or a frame is complete.  In the
second its queue announces what is left. -/

/-- A source is dropped when its queue has nothing in memory, or has just announced itself. -/
theorem Notified.dropSource (h : w.Notified active c)
    (hwhy : c' = c → (w.chan c).queue.queue ≠ [] → w.Roused c) :
    (w.dropSource c').Notified active c := by
  refine ⟨h.sized, h.told, fun hact hne ↦ ?_⟩
  by_cases hc : c' = c
  · exact .inr (hwhy hc hne)
  · exact (h.known hact hne).imp_left (List.mem_erase_of_ne (Ne.symm hc)).mpr

theorem Notified.sourceSent {bytes : List UInt8} (h : w.Notified active c)
    (hw : w.sourceSent cfg c' bytes = .ok w') : w'.Notified active c := by
  obtain ⟨allDone, ch, l, hconsumed, w₁, hw₁, rfl⟩ := sourceSent_ok hw
  obtain ⟨hannounces, huser⟩ := Channel.announces_consumed hconsumed
  have hfirst : w₁.Notified active c := by
    rw [hw₁]
    exact ⟨h.sized, h.told, h.known⟩
  have hchan : w₁.chan = w.chan := by rw [hw₁]
  have hupdate : (w₁.update c' ch l).Notified active c := hfirst.update fun hc ↦ by
    subst hc
    rw [hchan]
    exact hannounces
  split
  · rename_i hdone
    refine hupdate.dropSource fun hc hne ↦ ?_
    subst hc
    rw [update_self] at hne
    exact roused_calls (huser hdone hne)
  · exact hupdate

theorem Notified.sourceBlocked (h : w.Notified active c)
    (hw : w.sourceBlocked cfg c' = .ok w') : w'.Notified active c := by
  obtain ⟨allDone, ch, l, hconsumed, hset⟩ := sourceBlocked_ok hw
  have hupdate : (w.update c' ch l).Notified active c := h.update fun hc ↦ by
    subst hc
    exact (Channel.announces_consumed hconsumed).1
  exact hupdate.apart (setFdev_apart hset)

theorem Notified.sourceFailed {now : TimePoint} (h : w.Notified active c)
    (hw : w.sourceFailed c' now = .ok w') : w'.Notified active c := by
  obtain ⟨w₁, hclear, rfl⟩ := sourceFailed_ok hw
  have hupdate : (w.update c' (w.chan c').failed []).Notified active c := h.update fun hc ↦ by
    subst hc
    exact PayloadQueue.announces_refl _
  exact (hupdate.apart (clearSocket_apart hclear)).apart (setRstev_apart ..)

theorem Notified.sendTurn {now : TimePoint} {r : SendResult} {again : Bool}
    (h : w.Notified active c) (hw : w.sendTurn cfg now r = .ok (w', again)) :
    w'.Notified active c := by
  obtain ⟨c', rest, iov, ch, l, -, ⟨hdescribe, -, rfl⟩ | ⟨hdescribe, w₁, rfl, hturn⟩⟩ :=
    sendTurn_ok hw
  all_goals
    obtain ⟨hannounces, hnothing⟩ := Channel.announces_describe hdescribe
    have hupdate : (w.update c' ch l).Notified active c := h.update fun hc ↦ by
      subst hc
      exact hannounces
  · refine hupdate.dropSource fun hc hne ↦ absurd ?_ hne
    subst hc
    rw [update_self]
    exact hnothing rfl
  · have hfirst : Notified active c { w.update c' ch l with upoutReady := false } :=
      ⟨hupdate.sized, hupdate.told, hupdate.known⟩
    obtain ⟨-, n, hsent⟩ | ⟨-, hblocked⟩ | ⟨-, hfailed⟩ := hturn
    · exact hfirst.sourceSent hsent
    · exact hfirst.sourceBlocked hblocked
    · exact hfirst.sourceFailed hfailed

theorem Notified.trySend (h : w.Notified active c) (hw : w.trySend cfg io = .ok w') :
    w'.Notified active c := by
  rw [World.trySend] at hw
  split at hw
  · cases hw
  split at hw
  · cases hw
  split at hw
  · exact h.apart (setFdev_apart hw)
  · exact sendLoop_rule (J := Notified active c) (fun _ h _ ↦ h) (fun _ _ _ h ↦ h.sendTurn)
      (fun _ _ _ h ↦ h.sendTurn) h hw

/-! ## Handlers

The handler of the idle event makes a source of the channel, unless it is one already. -/

omit [DecidableEq C] in
theorem Known.joined (h : w.Known c) (c' : C) : (w.joined c').Known c :=
  h.imp_left (List.mem_append_left _)

/-- The channel that is ready need not have been known. -/
theorem notified_ready (hsized : (w.chan c).queue.Sized Channel.queueMem)
    (htold : active → (w.chan c).queue.Told)
    (hknown : c' ≠ c → active → (w.chan c).queue.queue ≠ [] → w.Known c)
    (hw : w.ready cfg c' io = .ok w') : w'.Notified active c := by
  have hjoined : (w.joined c').Notified active c := by
    refine ⟨hsized, htold, fun hact hne ↦ ?_⟩
    by_cases hc : c' = c
    · exact .inl (List.mem_append_right _ (List.mem_singleton.mpr hc.symm))
    · exact (hknown hc hact hne).joined c'
  rcases ready_ok hw with ⟨hmem, rfl⟩ | ⟨-, ⟨rfl, -⟩ | ⟨-, hlookup⟩ | ⟨-, hsend⟩⟩
  · refine ⟨hsized, htold, fun hact hne ↦ ?_⟩
    by_cases hc : c' = c
    · exact .inl (hc ▸ hmem)
    · exact hknown hc hact hne
  · exact hjoined
  · obtain ⟨-, -, -, rfl⟩ := initiateLookup_ok hlookup
    exact ⟨hjoined.sized, hjoined.told, hjoined.known⟩
  · exact hjoined.trySend hsend

theorem Notified.descriptorReady {evs : Mask} (h : w.Notified active c)
    (hw : w.descriptorReady cfg evs io = .ok w') : w'.Notified active c := by
  obtain ⟨-, ⟨-, hnext⟩ | ⟨-, -, w₁, hclear, rfl⟩ | ⟨-, hset⟩ | ⟨-, -, hsend⟩⟩ :=
    descriptorReady_ok hw
  · obtain ⟨rest, w₁, hclear, htry⟩ := connectNext_ok hnext
    have hrest : Notified active c { w with ainf := rest } := ⟨h.sized, h.told, h.known⟩
    exact (hrest.apart (clearSocket_apart hclear)).apart (tryConnect_ok htry).2.apart
  · exact (h.apart (clearSocket_apart hclear)).apart (setRstev_apart ..)
  · have hconnected : Notified active c { w with connected := true } :=
      ⟨h.sized, h.told, h.known⟩
    exact hconnected.apart (setFdev_apart hset)
  · have hready : Notified active c { w with upoutReady := true } := ⟨h.sized, h.told, h.known⟩
    exact hready.trySend hsend

theorem Notified.managerCheck (h : w.Notified active c)
    (hw : w.managerCheck cfg io = .ok w') : w'.Notified active c := by
  obtain ⟨w₁, rfl, hend⟩ := managerCheck_ok hw
  have hsig : Apart w₁ { w₁ with sched := w₁.sched.sigSet .sigev sigusr2 } := by
    have hs := Scheduler.changes_sigSet w₁.sched .sigev sigusr2
    exact ⟨rfl, rfl, rfl, hs.idleness, fun _ ↦ hs.event_of_ne nofun⟩
  rcases hend with ⟨-, rfl⟩ | ⟨-, -, -, hattempt⟩
  · exact h.apart hsig
  · have haddrev : Notified active c { w with addrev := { w.addrev with on := false } } :=
      ⟨h.sized, h.told, h.known⟩
    exact (haddrev.apart hattempt.apart).apart hsig

/-- Another event is taken from its queue. -/
theorem taken_apart {p : Nat} {e : Ev C} (he : e ∈ w.sched.queues.bucket p)
    (hne : ∀ c, e ≠ .queueEvent c) : Apart w (w.taken p e) := by
  have hs := Scheduler.changes_take he
  exact ⟨rfl, rfl, rfl, hs.idleness, fun c ↦ hs.event_of_ne (Ne.symm (hne c))⟩

theorem Known.taken {p : Nat} (h : w.Known c) (he : .queueEvent c' ∈ w.sched.queues.bucket p)
    (hne : c' ≠ c) : (w.taken p (.queueEvent c')).Known c := by
  have hs := Scheduler.changes_take he
  have hother : (w.taken p (.queueEvent c')).sched.event (.queueEvent c) =
      w.sched.event (.queueEvent c) :=
    hs.event_of_ne fun heq ↦ hne (by cases heq; rfl)
  rw [Known, Roused, hother]
  exact h

theorem Notified.notify {p : Nat} {e : Ev C} (h : w.Notified active c)
    (he : e ∈ w.sched.queues.bucket p) (hw : (w.taken p e).handle cfg io e = .ok w') :
    w'.Notified active c := by
  cases e with
  | fdev => exact (h.apart (taken_apart he nofun)).descriptorReady hw
  | rstev =>
    have htaken := h.apart (taken_apart he nofun)
    obtain ⟨-, -, -, rfl⟩ := initiateLookup_ok hw
    exact ⟨htaken.sized, htaken.told, htaken.known⟩
  | sigev => exact (h.apart (taken_apart he nofun)).managerCheck hw
  | queueEvent c' =>
    exact notified_ready (w := w.taken p (.queueEvent c')) h.sized h.told
      (fun hc hact hne ↦ (h.known hact hne).taken he hc) hw

omit [DecidableEq C] in
/-- An idle event that is set is queued by the poll, if not before. -/
theorem Notified.poll {s : Scheduler (Ev C)} (h : w.Notified active c)
    (hs : Scheduler.Stage w.sched s) {pending : Bool} :
    Notified active c { w with sched := s, pending } := by
  refine h.congr rfl (Or.imp_right fun hr ↦ ?_)
  rcases hr with hidle | hq
  · exact hs.idle _ hidle
  · exact .inr ((hs.moves _).queued hq)

/-- The step lemma. -/
theorem Notified.step {a : Act C} (h : w.Notified active c) (ht : w.Tidy) (ha : Short cfg w a)
    (hw : w.step cfg a = .ok w') : w'.Notified active c := by
  cases a with
  | submit c' clid data now =>
    cases hw
    refine h.update fun hc ↦ ?_
    subst hc
    exact Channel.announces_submit h.sized ha
  | activate c' =>
    cases hw
    exact h.update fun hc ↦ hc ▸ PayloadQueue.announces_poke _
  | flush c' n =>
    cases hw
    exact h.update fun hc ↦ hc ▸ PayloadQueue.announces_flush _ n
  | discard c' =>
    obtain ⟨q, l, hdiscard, rfl⟩ := discard_ok hw
    exact h.update fun hc ↦ hc ▸ PayloadQueue.announces_discardFile hdiscard
  | lookupEnds rc result =>
    rcases lookupEnds_ok hw with rfl | ⟨-, rfl⟩
    · exact h
    · exact ⟨h.sized, h.told, h.known⟩
  | raise =>
    cases hw
    exact ⟨h.sized, h.told, h.known⟩
  | poll now signalled evs =>
    rcases poll_ok hw with rfl | ⟨s, hs, rfl⟩
    · exact h
    · exact h.poll (Scheduler.collect_spec ht.kinds.wf hs).1
  | notify e io =>
    rcases notify_ok hw with rfl | ⟨p, he, hhandle⟩
    · exact h
    · exact h.notify he hhandle

/-! ## Runs

The invariant is for one channel at a time, as those of different channels do not depend on each
other. -/

/-- Along a run the events stay in order, and the channel notified. -/
theorem notified_of_reach (h : w.Tidy ∧ w.Notified active c)
    (hreach : Run.Reach (step cfg) (Short cfg) w w') : w'.Tidy ∧ w'.Notified active c :=
  hreach.invariant (I := fun w ↦ w.Tidy ∧ w.Notified active c) h fun _ _ _ hinv ha hstep ↦
    ⟨hinv.1.step hstep, hinv.2.step hinv.1 ha hstep⟩

/-- **No lost wake-up.**  The channel has a queue from the constructor, and has been activated at
some time since. -/
theorem no_lost_wakeup {queue : C → PayloadQueue} {files : OrdMap FileName (List UInt8)}
    {listing : List FileName} {l : List PayloadQueue.Call} {w₁ w₂ : World C}
    (hqueue : PayloadQueue.create Channel.queueMem files listing = .ok (queue c, l))
    (hbefore : Run.Reach (step cfg) (Short cfg) (init cfg queue) w₁)
    (hactivate : w₁.step cfg (.activate c) = .ok w₂)
    (h : Run.Reach (step cfg) (Short cfg) w₂ w) :
    ((w.chan c).queue.queue ≠ [] ∨ (w.chan c).queue.queueFns.entries ≠ [] →
      c ∈ w.streamers ∨ .queueEvent c ∈ w.sched.idleness ∨
        ∃ p, .queueEvent c ∈ w.sched.queues.bucket p) ∧
    ((w.chan c).queue.queue = [] → (w.chan c).queue.queueFns.entries = [] →
      (w.chan c).queue.disappointed ∧
        ∀ clid data now, cfg.szClid + data.length < Channel.queueMem →
          .user ∈ ((w.chan c).submit cfg.szClid clid data now).2) := by
  have hinit : (init cfg queue).Tidy ∧ (init cfg queue).Notified False c :=
    ⟨tidy_init cfg queue, PayloadQueue.sized_create hqueue, nofun, nofun⟩
  obtain ⟨ht₁, hn₁⟩ := notified_of_reach hinit hbefore
  have hw₂ : w₂.Tidy ∧ w₂.Notified True c := by
    refine ⟨ht₁.step hactivate, ?_⟩
    cases hactivate
    exact notified_activate hn₁
  obtain ⟨ht, hsized, htold, hknown⟩ := notified_of_reach hw₂ h
  refine ⟨fun hsome ↦ ?_, fun hempty _ ↦ ⟨(htold trivial hempty).2, fun clid data now hdata ↦ ?_⟩⟩
  · -- if there are files, then there is something in memory
    have hne : (w.chan c).queue.queue ≠ [] := fun hempty ↦
      hsome.elim (absurd hempty) (absurd (htold trivial hempty).1)
    exact (hknown trivial hne).imp_right (.imp_right (mem_queue ht.kinds.wf))
  · exact (PayloadQueue.push_user hsized (htold trivial) hempty
      (by simpa [sumLengths] using hdata) now).2

theorem no_lost_wakeup_submit : ∃ w : World Unit, (w.chan ()).queue.queue ≠ [] ∧
    (() ∈ w.streamers ∨ .queueEvent () ∈ w.sched.idleness ∨
      ∃ p, .queueEvent () ∈ w.sched.queues.bucket p) := by
  obtain ⟨w₂, hactivate⟩ : ∃ w₂, (init oneChannel emptyQueue).step oneChannel (.activate ()) =
      .ok w₂ := ⟨_, rfl⟩
  have hrun : Run.Checks (step oneChannel) (Short oneChannel) w₂ [.submit () 3 [1] 0]
      fun w ↦ (w.chan ()).queue.queue ≠ [] := by
    cases hactivate
    decide +kernel
  obtain ⟨w, hreach, hne⟩ := hrun.reach
  have hqueue : PayloadQueue.create Channel.queueMem .empty [] =
      .ok (emptyQueue (), [.increase 0, .oldest 0]) := rfl
  exact ⟨w, hne, (no_lost_wakeup hqueue .refl hactivate hreach).1 (.inl hne)⟩

end World
end TcpIngress
end UdpTun
