import UdpTun.Scheduling.Registration
import UdpTun.TcpEgress
import Mathlib.Data.List.Nodup

/-!
# The listeners of an egress

An egress is to keep a listener for each address that `activate` has found: one that listens, or one
that tries again later (`Egress.Covered`).  Each listener has two events, and `Fit` says what these
can be like; a handler that has to do with a listener leaves it fit again (`Tended`), and all the
rest does not touch the events of listeners (`Elsewhere`).

`flush` takes a listener for finished if its socket is closed and its timer is not set.  But a timer
that is due loses `set_` when the poll collects it, and its handler comes later.  If `flush` comes
in between, the listener is destroyed, and its timer is left in the queue: `flush_drops_listener`.
In all other runs the listeners stay, and no other step loses one: `listeners_kept`.

* `Fit` is what the two events of a listener are like, and `Covered` what is wanted of all
  listeners.
* `effect` goes through all steps once, and says what a step that returns has done.
* `Held` is the invariant in the middle of a handler, and `Kept` the one between steps.
-/

set_option autoImplicit false

namespace UdpTun
namespace TcpEgress

open Scheduler (Changes Inert)

/-! ## The events of listeners

They are told from the other events by the number of their listener.  What is done to other events
is of no account. -/

/-- The listener that an event belongs to. -/
def Ev.listener : Ev → Option Nat
  | .listenFd n => some n
  | .rbev n => some n
  | _ => none

/-- What the two events of a listener are like: it listens, or it will try again. -/
structure Fit (sock : Option Nat) (f r : EventState) : Prop where
  fd : f.fd = sock
  descr : f.isSet = false ∧ f.signo = 0
  timer : r.signo = 0 ∧ r.fd = none
  once : ¬ (r.isSet ∧ r.prioAppl ≠ 0)
  state : sock ≠ none ∧ (f.expected.epollin ∨ f.prioAppl ≠ 0) ∧ r.isSet = false ∧
      r.prioAppl = 0 ∨
    sock = none ∧ f.prioAppl = 0 ∧ (r.isSet ∨ r.prioAppl ≠ 0)

/-- The events of listeners are left alone, but for those of `m`. -/
structure Elsewhere (m : Option Nat) (s s' : Scheduler Ev) : Prop where
  wf : s.WF → s'.WF
  event : ∀ i n, i.listener = some n → some n ≠ m → s'.event i = s.event i
  idle : ∀ i ∈ s'.idleness, i ∈ s.idleness ∨ i = .idev

variable {m : Option Nat} {s s' s'' : Scheduler Ev} {i : Ev}

theorem Elsewhere.refl (m : Option Nat) (s : Scheduler Ev) : Elsewhere m s s :=
  ⟨id, fun _ _ _ _ ↦ rfl, fun _ hi ↦ .inl hi⟩

theorem Elsewhere.trans (h : Elsewhere m s s') (h' : Elsewhere m s' s'') : Elsewhere m s s'' :=
  ⟨h'.wf ∘ h.wf, fun i n hi hn ↦ (h'.event i n hi hn).trans (h.event i n hi hn),
    fun i hi ↦ (h'.idle i hi).elim (h.idle i) .inr⟩

theorem Elsewhere.mono (h : Elsewhere none s s') (m : Option Nat) : Elsewhere m s s' :=
  ⟨h.wf, fun i n hi _ ↦ h.event i n hi nofun, h.idle⟩

theorem elsewhere_of_changes {v : EventState} (h : Changes s s' i v)
    (hi : ∀ n, i.listener = some n → some n = m) : Elsewhere m s s' := by
  refine ⟨h.wf, fun j n hj hn ↦ h.event_of_ne ?_, fun j hj ↦ .inl (h.idleness ▸ hj)⟩
  rintro rfl
  exact hn (hi n hj)

theorem elsewhere_idleSet (s : Scheduler Ev) : Elsewhere none s (s.idleSet .idev) := by
  refine ⟨fun h ↦ h.idleSet _, fun i n hi _ ↦ ?_, fun i hi ↦ ?_⟩
  · rw [Scheduler.idleSet_event, Function.update_of_ne]
    rintro rfl
    cases hi
  · rw [Scheduler.idleSet_idleness, List.mem_insert_iff] at hi
    exact hi.symm

theorem cancelAll_ok {is : List Ev} (h : cancelAll is s = .ok s') : (s.WF → s'.WF) ∧
    (∀ j, j ∉ is → s'.event j = s.event j) ∧ s'.idleness = s.idleness := by
  induction is generalizing s with
  | nil =>
    cases h
    exact ⟨id, fun _ _ ↦ rfl, rfl⟩
  | cons i is ih =>
    rw [cancelAll] at h
    split at h
    · cases h
    · rename_i t ht
      have hs := Scheduler.changes_descrCancel ht
      obtain ⟨hwf, hevent, hidle⟩ := ih h
      refine ⟨hwf ∘ hs.wf, fun j hj ↦ ?_, hidle.trans hs.idleness⟩
      rw [List.mem_cons, not_or] at hj
      exact (hevent j hj.2).trans (hs.event_of_ne hj.1)

namespace Egress

variable {S : Type} {cfg : Config S} {e e' e'' : Egress S} {l : Listener} {n : Nat}

/-! ## What functions that return have done

A function that returns has done one of a few things, and these are listed once.  The lemmas after
this need not look at the functions again. -/

/-- The timer is set, or the listener listens. -/
theorem rebind_ok {now : TimePoint} {r : Bind} (h : e.rebind l now r = .ok e') :
    l.sock = none ∧ ((∃ d, e' = e.setRbev l.id now d) ∨
      ∃ fd t, (e.sched.timedCancel (.rbev l.id)).descrSet (.listenFd l.id) fd listeningEvents =
          .ok t ∧
        e' = { e with sched := t, descriptors := fd :: e.descriptors }.setSock l.id (some fd)) := by
  rw [rebind] at h
  split at h
  · cases h
  rename_i hsock
  rw [Bool.not_eq_true, Option.isSome_eq_false_iff, Option.isNone_iff_eq_none] at hsock
  refine ⟨hsock, ?_⟩
  split at h
  · cases h
    exact .inl ⟨_, rfl⟩
  split at h
  · cases h
    exact .inl ⟨_, rfl⟩
  split at h
  · cases h
    exact .inl ⟨_, rfl⟩
  dsimp only [bind, Except.bind] at h
  split at h
  · cases h
  · cases h
    exact .inr ⟨_, _, ‹_›, rfl⟩

theorem acceptNext_ok (h : e.acceptNext l = .ok e') : ∃ fd t, l.sock = some fd ∧
    e.sched.descrSet (.listenFd l.id) fd listeningEvents = .ok t ∧
      e' = { e with sched := t } := by
  rw [acceptNext] at h
  split at h
  · cases h
  dsimp only [bind, Except.bind] at h
  split at h
  · cases h
  · cases h
    exact ⟨_, _, ‹_›, ‹_›, rfl⟩

theorem acceptFailed_ok {now : TimePoint} (h : e.acceptFailed l now = .ok e') :
    ∃ t descriptors, e.sched.descrCancel (.listenFd l.id) = .ok t ∧
      e' = ({ e with sched := t, descriptors }.setSock l.id none).setRbev l.id now
        (seconds 30) := by
  rw [acceptFailed] at h
  dsimp only [bind, Except.bind] at h
  split at h
  · cases h
  · cases h
    exact ⟨_, _, ‹_›, rfl⟩

theorem addConn_ok {fd : Nat} (h : e.addConn fd = .ok e') : ∃ t c,
    e.sched.descrSet (.connFd e.nextId) fd listeningEvents = .ok t ∧
      e' = { e with sched := t, conns := e.conns ++ [c], nextId := e.nextId + 1 } ∧
        c.conn.sock = some fd := by
  rw [addConn] at h
  dsimp only [bind, Except.bind] at h
  split at h
  · cases h
  · cases h
    exact ⟨_, _, ‹_›, rfl, rfl⟩

/-- There is a new connection, or nothing but the descriptor changes. -/
theorem establish_ok {errno : Errno} {clsock : Option Nat} {known : Bool}
    (h : e.establish errno clsock known = .ok e') :
    (∃ descriptors, e' = { e with descriptors }) ∨ ∃ fd, e.addConn fd = .ok e' := by
  unfold establish at h
  split at h
  · cases h
    exact .inl ⟨_, rfl⟩
  split at h
  · cases h
  split at h
  · exact .inr ⟨_, h⟩
  · cases h
    exact .inl ⟨_, rfl⟩

/-- The listening socket is given up, or what comes after a call of `accept` is done once.  The
induction is on the outcomes of `accept`. -/
theorem acceptLoop_ok {now : TimePoint} {errno : Errno} {accepts : List Accept}
    (h : acceptLoop l now errno accepts e = .ok e') : e.acceptFailed l now = .ok e' ∨
      ∃ descriptors errno clsock known e₁,
        { e with descriptors }.establish errno clsock known = .ok e₁ ∧
          e₁.acceptNext l = .ok e' := by
  have hnext : ∀ descriptors errno clsock known,
      (do let e₁ ← { e with descriptors }.establish errno clsock known; e₁.acceptNext l) =
        .ok e' → ∃ e₁, { e with descriptors }.establish errno clsock known = .ok e₁ ∧
          e₁.acceptNext l = .ok e' := by
    intro descriptors errno clsock known hdo
    dsimp only [bind, Except.bind] at hdo
    split at hdo
    · cases hdo
    · exact ⟨_, ‹_›, hdo⟩
  induction accepts generalizing errno with
  | nil => cases h
  | cons a accepts ih =>
    cases a with
    | accepted clsock known => exact .inr ⟨_, _, _, _, hnext _ errno (some clsock) known h⟩
    | failed ec =>
      rw [acceptLoop] at h
      split at h
      · exact ih h
      split at h
      · exact .inr ⟨_, _, _, _, hnext e.descriptors ec none false h⟩
      · exact .inl h

/-- The connection is closed, or it is waited for. -/
theorem connHandleFd_ok {c : Conn S} {io : Io} (h : e.connHandleFd cfg c io = .ok e') :
    ∃ t conns, (e.sched.descrCancel (.connFd c.id) = .ok t ∧
        ∃ descriptors, e' = { e with sched := t.idleSet .idev, conns, descriptors }) ∨
      ∃ fd, e.sched.descrSet (.connFd c.id) fd listeningEvents = .ok t ∧
        e' = { e with sched := t, conns } := by
  rw [connHandleFd] at h
  split at h
  · cases h
  · cases h
  split at h
  · dsimp only [bind, Except.bind] at h
    split at h
    · cases h
    · cases h
      exact ⟨_, _, .inl ⟨‹_›, _, rfl⟩⟩
  · dsimp only [bind, Except.bind] at h
    split at h
    · cases h
    · cases h
      exact ⟨_, _, .inr ⟨_, ‹_›, rfl⟩⟩

theorem find_listener (h : e.listeners.find? (·.id = n) = some l) : l ∈ e.listeners ∧ l.id = n :=
  ⟨List.mem_of_find?_eq_some h, by simpa using List.find?_some h⟩

/-- What a step does, if it returns. -/
inductive Effect (cfg : Config S) (e : Egress S) : Act → Egress S → Prop
  | skip {a : Act} (hnot : ∀ i io, a = .notify i io → ¬ e.Next i)
      (hbusy : ∀ now, a ≠ .busy now) : Effect cfg e a e
  | activate {now : TimePoint} {info : Except Eai (List AddressEntry)} {binds : List Bind}
      {e' : Egress S} (hnone : e.resolved = none) (h : e.activate cfg now info binds = .ok e') :
      Effect cfg e (.activate now info binds) e'
  | deactivate {e' : Egress S} (h : e.deactivate = .ok e') : Effect cfg e .deactivate e'
  | busy {now : TimePoint} {e' : Egress S} (h : e.flush cfg now = .ok e') :
      Effect cfg e (.busy now) e'
  | poll {now : TimePoint} {ready : List (Ready Ev)} {s : Scheduler Ev}
      (hs : e.sched.collect now ready = .ok s) :
      Effect cfg e (.poll now ready) { e with sched := s }
  | flush {i : Ev} {io : Io} {p : Nat} {e' : Egress S} (hwhich : i = .idev ∨ i = .flusher)
      (hp : p ∈ e.sched.lowest) (hi : i ∈ e.sched.queues.bucket p)
      (h : flush cfg { e with sched := e.sched.take p i } io.now = .ok e') :
      Effect cfg e (.notify i io) e'
  | accept {l : Listener} {io : Io} {p : Nat} {e' : Egress S} (hp : p ∈ e.sched.lowest)
      (hi : .listenFd l.id ∈ e.sched.queues.bucket p) (hl : l ∈ e.listeners)
      (h : acceptLoop l io.now io.errno io.accepts
        { e with sched := e.sched.take p (.listenFd l.id) } = .ok e') :
      Effect cfg e (.notify (.listenFd l.id) io) e'
  | rebind {l : Listener} {io : Io} {p : Nat} {e' : Egress S} (hp : p ∈ e.sched.lowest)
      (hi : .rbev l.id ∈ e.sched.queues.bucket p) (hl : l ∈ e.listeners)
      (h : rebind { e with sched := e.sched.take p (.rbev l.id) } l io.now io.bind = .ok e') :
      Effect cfg e (.notify (.rbev l.id) io) e'
  | conn {c : Conn S} {k : Nat} {io : Io} {p : Nat} {e' : Egress S} (hp : p ∈ e.sched.lowest)
      (hi : .connFd k ∈ e.sched.queues.bucket p)
      (h : connHandleFd cfg { e with sched := e.sched.take p (.connFd k) } c io = .ok e') :
      Effect cfg e (.notify (.connFd k) io) e'

theorem effect {a : Act} (h : e.step cfg a = .ok e') : Effect cfg e a e' := by
  cases a with
  | activate now info binds =>
    rw [step] at h
    split at h
    · cases h
      exact .skip (fun _ _ heq ↦ by cases heq) fun _ heq ↦ by cases heq
    · rename_i hnone
      exact .activate (by simpa using hnone) h
  | deactivate => exact .deactivate h
  | busy now => exact .busy h
  | poll now ready =>
    rw [step] at h
    split at h
    · cases h
      exact .skip (fun _ _ heq ↦ by cases heq) fun _ heq ↦ by cases heq
    · obtain ⟨s, hs, rfl⟩ := map_ok h
      exact .poll hs
  | notify i io =>
    have hskip : ¬ e.Next i → Effect cfg e (.notify i io) e := fun hnot ↦
      .skip (fun j io' heq ↦ by cases heq; exact hnot) fun _ heq ↦ by cases heq
    rw [step] at h
    split at h
    · rename_i hnone
      cases h
      exact hskip (by simp [Next, hnone])
    rename_i p hp
    split at h
    · rename_i hi
      cases i with
      | idev => exact .flush (.inl rfl) hp hi h
      | flusher => exact .flush (.inr rfl) hp hi h
      | listenFd n =>
        rw [handle] at h
        split at h
        · cases h
        · obtain ⟨hl, rfl⟩ := find_listener ‹_›
          exact .accept hp hi hl h
      | rbev n =>
        rw [handle] at h
        split at h
        · cases h
        · obtain ⟨hl, rfl⟩ := find_listener ‹_›
          exact .rebind hp hi hl h
      | connFd n =>
        rw [handle] at h
        split at h
        · cases h
        · exact .conn hp hi h
    · rename_i hi
      cases h
      refine hskip ?_
      rintro ⟨q, hq, hmem⟩
      obtain rfl := Option.some.inj (hp.symm.trans hq)
      exact hi hmem

/-! ## What handlers do

A handler either deals with one listener and leaves that fit, or does not touch any of them. -/

/-- The listeners are left alone. -/
structure Apart (e e' : Egress S) : Prop where
  elsewhere : Elsewhere none e.sched e'.sched
  listeners : e'.listeners = e.listeners
  next : e.nextId ≤ e'.nextId
  resolved : e'.resolved = e.resolved

theorem Apart.trans (h : Apart e e') (h' : Apart e' e'') : Apart e e'' :=
  ⟨h.elsewhere.trans h'.elsewhere, h'.listeners.trans h.listeners, h.next.trans h'.next,
    h'.resolved.trans h.resolved⟩

/-- One listener is dealt with, and left fit. -/
structure Tended (n : Nat) (e e' : Egress S) : Prop where
  elsewhere : Elsewhere (some n) e.sched e'.sched
  listeners : ∃ f : Listener → Listener, e'.listeners = e.listeners.map f ∧
    ∀ l, (f l).id = l.id ∧ (f l).entry = l.entry ∧ (l.id ≠ n → f l = l)
  fit : ∀ l ∈ e'.listeners, l.id = n →
    Fit l.sock (e'.sched.event (.listenFd n)) (e'.sched.event (.rbev n))
  next : e.nextId ≤ e'.nextId
  resolved : e'.resolved = e.resolved

theorem Apart.tended (h : Apart e e') (h' : Tended n e' e'') : Tended n e e'' := by
  obtain ⟨f, hf, hid⟩ := h'.listeners
  refine ⟨(h.elsewhere.mono _).trans h'.elsewhere, ⟨f, ?_, hid⟩, h'.fit, h.next.trans h'.next,
    h'.resolved.trans h.resolved⟩
  rw [hf, h.listeners]

/-- What is known of a listener whose handler is called. -/
structure Called (e : Egress S) (l : Listener) : Prop where
  same : ∀ l' ∈ e.listeners, l'.id = l.id → l'.sock = l.sock
  fd : (e.sched.event (.listenFd l.id)).fd = l.sock
  descr : (e.sched.event (.listenFd l.id)).isSet = false ∧
    (e.sched.event (.listenFd l.id)).signo = 0
  timer : (e.sched.event (.rbev l.id)).signo = 0 ∧ (e.sched.event (.rbev l.id)).fd = none
  unset : (e.sched.event (.rbev l.id)).isSet = false ∧ (e.sched.event (.rbev l.id)).prioAppl = 0
  unqueued : (e.sched.event (.listenFd l.id)).prioAppl = 0

theorem Apart.called (h : Apart e e') (hc : e.Called l) : e'.Called l := by
  have hfd : e'.sched.event (.listenFd l.id) = e.sched.event (.listenFd l.id) :=
    h.elsewhere.event _ l.id rfl nofun
  have hrb : e'.sched.event (.rbev l.id) = e.sched.event (.rbev l.id) :=
    h.elsewhere.event _ l.id rfl nofun
  obtain ⟨h₁, h₂, h₃, h₄, h₅, h₆⟩ := hc
  rw [← h.listeners] at h₁
  rw [← hfd] at h₂ h₃ h₆
  rw [← hrb] at h₄ h₅
  exact ⟨h₁, h₂, h₃, h₄, h₅, h₆⟩

theorem mem_setSock {l' : Listener} {sock : Option Nat} :
    l' ∈ (e.setSock n sock).listeners ↔
      ∃ l ∈ e.listeners, l' = if l.id = n then { l with sock } else l := by
  simp [setSock, eq_comm]

/-- Its member `sock` is set. -/
theorem tended_setSock {sock : Option Nat} (helsewhere : Elsewhere (some n) e.sched e'.sched)
    (hlisteners : e'.listeners = (e.setSock n sock).listeners)
    (hfit : Fit sock (e'.sched.event (.listenFd n)) (e'.sched.event (.rbev n)))
    (hnext : e'.nextId = e.nextId) (hresolved : e'.resolved = e.resolved) : Tended n e e' := by
  refine ⟨helsewhere, ⟨_, hlisteners, fun l ↦ ?_⟩, fun l' hl' hid ↦ ?_, hnext.ge, hresolved⟩
  · split <;> simp_all
  · rw [hlisteners] at hl'
    obtain ⟨l, -, rfl⟩ := mem_setSock.mp hl'
    have hid' : l.id = n := by
      split at hid
      · assumption
      · exact hid
    rwa [if_pos hid']

/-- The timer is set, and the socket is closed. -/
theorem tended_setRbev (hc : e.Called l) (hsock : l.sock = none) (now : TimePoint) (d : Int) :
    Tended l.id e (e.setRbev l.id now d) := by
  have hs := Scheduler.changes_timedSet e.sched (.rbev l.id) (now + d)
  refine ⟨elsewhere_of_changes hs fun _ h ↦ h.symm, ⟨id, by simp [setRbev], fun l ↦
    ⟨rfl, rfl, fun _ ↦ rfl⟩⟩, fun l' hl' hid ↦ ?_, le_rfl, rfl⟩
  rw [hc.same l' hl' hid, hsock]
  dsimp only [setRbev]
  rw [hs.event_self, hs.event_of_ne (i := .listenFd l.id) nofun]
  refine ⟨hc.fd.trans hsock, hc.descr, hc.timer, fun hboth ↦ hboth.2 hc.unset.2,
    .inr ⟨rfl, hc.unqueued, .inl rfl⟩⟩

theorem rebind_tended {now : TimePoint} {r : Bind} (hc : e.Called l)
    (h : e.rebind l now r = .ok e') : Tended l.id e e' := by
  obtain ⟨hsock, ⟨d, rfl⟩ | ⟨fd, t, ht, rfl⟩⟩ := rebind_ok h
  · exact tended_setRbev hc hsock now d
  · have h₁ := Scheduler.changes_timedCancel e.sched (.rbev l.id)
    have h₂ := Scheduler.changes_descrSet ht
    refine tended_setSock ((elsewhere_of_changes h₁ fun _ h ↦ h.symm).trans
      (elsewhere_of_changes h₂ fun _ h ↦ h.symm)) rfl ?_ rfl rfl
    dsimp only [setSock]
    rw [h₂.event_self, h₂.event_of_ne (i := .rbev l.id) nofun, h₁.event_self,
      h₁.event_of_ne (i := .listenFd l.id) nofun]
    exact ⟨rfl, hc.descr, hc.timer, fun hboth ↦ hboth.2 rfl, .inl ⟨nofun, .inl rfl, rfl, rfl⟩⟩

theorem acceptNext_tended (hc : e.Called l) (h : e.acceptNext l = .ok e') : Tended l.id e e' := by
  obtain ⟨fd, t, hfd, ht, rfl⟩ := acceptNext_ok h
  have hs := Scheduler.changes_descrSet ht
  refine ⟨elsewhere_of_changes hs fun _ h ↦ h.symm, ⟨id, by simp, fun l ↦
    ⟨rfl, rfl, fun _ ↦ rfl⟩⟩, fun l' hl' hid ↦ ?_, le_rfl, rfl⟩
  rw [hc.same l' hl' hid, hfd]
  dsimp only
  rw [hs.event_self, hs.event_of_ne (i := .rbev l.id) nofun]
  exact ⟨rfl, hc.descr, hc.timer, fun hboth ↦ hboth.2 hc.unset.2,
    .inl ⟨nofun, .inl rfl, hc.unset⟩⟩

theorem acceptFailed_tended {now : TimePoint} (hc : e.Called l)
    (h : e.acceptFailed l now = .ok e') : Tended l.id e e' := by
  obtain ⟨t, descriptors, ht, rfl⟩ := acceptFailed_ok h
  have h₁ := Scheduler.changes_descrCancel ht
  have h₂ := Scheduler.changes_timedSet t (.rbev l.id) (now + seconds 30)
  refine tended_setSock ((elsewhere_of_changes h₁ fun _ h ↦ h.symm).trans
    (elsewhere_of_changes h₂ fun _ h ↦ h.symm)) rfl ?_ rfl rfl
  dsimp only [setRbev, setSock]
  rw [h₂.event_self, h₂.event_of_ne (i := .listenFd l.id) nofun, h₁.event_self,
    h₁.event_of_ne (i := .rbev l.id) nofun]
  exact ⟨rfl, hc.descr, hc.timer, fun hboth ↦ hboth.2 hc.unset.2, .inr ⟨rfl, rfl, .inl rfl⟩⟩

theorem addConn_apart {clsock : Nat} (h : e.addConn clsock = .ok e') : Apart e e' := by
  obtain ⟨t, c, ht, rfl, -⟩ := addConn_ok h
  exact ⟨elsewhere_of_changes (Scheduler.changes_descrSet ht) nofun, rfl, Nat.le_succ _, rfl⟩

theorem establish_apart {errno : Errno} {clsock : Option Nat} {known : Bool}
    (h : e.establish errno clsock known = .ok e') : Apart e e' := by
  rcases establish_ok h with ⟨descriptors, rfl⟩ | ⟨fd, hadd⟩
  · exact ⟨.refl .., rfl, le_rfl, rfl⟩
  · exact addConn_apart hadd

theorem acceptLoop_tended {now : TimePoint} {errno : Errno} {accepts : List Accept}
    (hc : e.Called l) (h : acceptLoop l now errno accepts e = .ok e') : Tended l.id e e' := by
  rcases acceptLoop_ok h with hfailed | ⟨descriptors, errno, clsock, known, e₁, he₁, hnext⟩
  · exact acceptFailed_tended hc hfailed
  · have hfirst : Apart e { e with descriptors } := ⟨.refl .., rfl, le_rfl, rfl⟩
    have hapart := hfirst.trans (establish_apart he₁)
    exact hapart.tended (acceptNext_tended (hapart.called hc) hnext)

theorem connHandleFd_apart {c : Conn S} {io : Io} (h : e.connHandleFd cfg c io = .ok e') :
    Apart e e' := by
  obtain ⟨t, conns, ⟨ht, descriptors, rfl⟩ | ⟨fd, ht, rfl⟩⟩ := connHandleFd_ok h
  · have hs := Scheduler.changes_descrCancel ht
    exact ⟨(elsewhere_of_changes hs nofun).trans (elsewhere_idleSet t), rfl, le_rfl, rfl⟩
  · exact ⟨elsewhere_of_changes (Scheduler.changes_descrSet ht) nofun, rfl, le_rfl, rfl⟩

/-- What `flush` does to the listeners. -/
theorem flush_ok {now : TimePoint} (h : e.flush cfg now = .ok e') :
    Elsewhere none e.sched e'.sched ∧
      e'.listeners = e.listeners.filter (!e.listenerFlushable ·) ∧ e'.nextId = e.nextId ∧
        e'.resolved = e.resolved := by
  rw [flush] at h
  dsimp only [bind, Except.bind] at h
  split at h
  · cases h
  rename_i t ht
  cases h
  have h₁ : Elsewhere none e.sched t := by
    obtain ⟨hwf, hevent, hidle⟩ := cancelAll_ok ht
    refine ⟨hwf, fun i n hi _ ↦ hevent i fun hmem ↦ ?_, fun i hi ↦ .inl (hidle ▸ hi)⟩
    obtain ⟨c, -, rfl⟩ := List.mem_map.mp hmem
    cases hi
  have h₂ := Scheduler.changes_timedSet t .flusher (e.flushTime + cfg.clientTimeout)
  refine ⟨h₁.trans (elsewhere_of_changes h₂ nofun), ?_, rfl, rfl⟩
  refine List.filter_congr fun l _ ↦ ?_
  rw [listenerFlushable, listenerFlushable]
  dsimp only
  rw [h₁.event (.rbev l.id) l.id rfl nofun]

/-! ## The invariant

While a handler of a listener is running, its event has been taken from the queue and it may be
unfit.  So it is left out until the handler is through. -/

/-- All listeners are fit, but for `m`. -/
structure Held (m : Option Nat) (e : Egress S) : Prop where
  wf : e.sched.WF
  idle : ∀ i ∈ e.sched.idleness, i = .idev
  ids : (e.listeners.map (·.id)).Nodup
  below : ∀ l ∈ e.listeners, l.id < e.nextId
  fits : ∀ l ∈ e.listeners, some l.id ≠ m →
    Fit l.sock (e.sched.event (.listenFd l.id)) (e.sched.event (.rbev l.id))
  fresh : ∀ n, e.nextId ≤ n →
    Inert (e.sched.event (.listenFd n)) ∧ Inert (e.sched.event (.rbev n))

theorem Held.same (h : e.Held m) {l₁ l₂ : Listener} (h₁ : l₁ ∈ e.listeners)
    (h₂ : l₂ ∈ e.listeners) (hid : l₁.id = l₂.id) : l₁ = l₂ :=
  List.inj_on_of_nodup_map h.ids h₁ h₂ hid

theorem Held.idle_step (h : e.Held m) (he : Elsewhere m s s') (hs : s = e.sched) :
    ∀ i ∈ s'.idleness, i = .idev := by
  subst hs
  exact fun i hi ↦ (he.idle i hi).elim (h.idle i) id

theorem Held.apart (h : e.Held none) (ha : Apart e e') : e'.Held none := by
  have hevent : ∀ i n, i.listener = some n → e'.sched.event i = e.sched.event i := fun i n hi ↦
    ha.elsewhere.event i n hi nofun
  refine ⟨ha.elsewhere.wf h.wf, h.idle_step ha.elsewhere rfl, ?_, fun l hl ↦ ?_, fun l hl _ ↦ ?_,
    fun n hn ↦ ?_⟩
  · rw [ha.listeners]
    exact h.ids
  · rw [ha.listeners] at hl
    exact (h.below l hl).trans_le ha.next
  · rw [ha.listeners] at hl
    rw [hevent _ l.id rfl, hevent _ l.id rfl]
    exact h.fits l hl nofun
  · rw [hevent _ n rfl, hevent _ n rfl]
    exact h.fresh n (ha.next.trans hn)

theorem Held.tended (h : e.Held (some n)) (hn : n < e.nextId) (ht : Tended n e e') :
    e'.Held none := by
  obtain ⟨f, hf, hid⟩ := ht.listeners
  have hevent : ∀ i k, i.listener = some k → k ≠ n → e'.sched.event i = e.sched.event i :=
    fun i k hi hk ↦ ht.elsewhere.event i k hi fun heq ↦ hk (Option.some.inj heq)
  have hmem : ∀ l' ∈ e'.listeners, ∃ l ∈ e.listeners, f l = l' := by
    intro l' hl'
    rw [hf] at hl'
    exact List.mem_map.mp hl'
  refine ⟨ht.elsewhere.wf h.wf, h.idle_step ht.elsewhere rfl, ?_, fun l' hl' ↦ ?_,
    fun l' hl' _ ↦ ?_, fun k hk ↦ ?_⟩
  · have hids : e'.listeners.map (·.id) = e.listeners.map (·.id) := by
      rw [hf, List.map_map]
      exact List.map_congr_left fun l _ ↦ (hid l).1
    rw [hids]
    exact h.ids
  · obtain ⟨l, hl, rfl⟩ := hmem l' hl'
    rw [(hid l).1]
    exact (h.below l hl).trans_le ht.next
  · by_cases hn' : l'.id = n
    · rw [hn']
      exact ht.fit l' hl' hn'
    · obtain ⟨l, hl, rfl⟩ := hmem l' hl'
      have hne : l.id ≠ n := (hid l).1 ▸ hn'
      rw [(hid l).2.2 hne, hevent _ l.id rfl hne, hevent _ l.id rfl hne]
      exact h.fits l hl fun heq ↦ hne (Option.some.inj heq)
  · have hne : k ≠ n := by
      have := ht.next
      omega
    rw [hevent _ k rfl hne, hevent _ k rfl hne]
    exact h.fresh k (ht.next.trans hk)

theorem Tended.entries (ht : Tended n e e') :
    e'.listeners.map (·.entry) = e.listeners.map (·.entry) := by
  obtain ⟨f, hf, hid⟩ := ht.listeners
  rw [hf, List.map_map]
  exact List.map_congr_left fun l _ ↦ (hid l).2.1

theorem queued_of_mem {p : Nat} (h : e.sched.WF) (hi : i ∈ e.sched.queues.bucket p) :
    (e.sched.event i).prioAppl ≠ 0 := by
  intro hzero
  have hqueue : (e.sched.event i).queue = some p := (h.queues p i).mp hi
  rw [EventState.queue, if_pos hzero] at hqueue
  cases hqueue

/-- An event is taken from its queue: its own listener need not be fit then. -/
theorem Held.take {p : Nat} (h : e.Held none) (hi : i ∈ e.sched.queues.bucket p) :
    Held i.listener { e with sched := e.sched.take p i } := by
  have hs := Scheduler.changes_take hi
  refine ⟨hs.wf h.wf, h.idle, h.ids, h.below, fun l hl hne ↦ ?_, fun n hn ↦ ?_⟩
  · have hevent : ∀ j, j.listener = some l.id → (e.sched.take p i).event j = e.sched.event j := by
      intro j hj
      refine hs.event_of_ne ?_
      rintro rfl
      exact hne hj.symm
    rw [hevent _ rfl, hevent _ rfl]
    exact h.fits l hl nofun
  · have hevent : ∀ j, Inert (e.sched.event j) → (e.sched.take p i).event j = e.sched.event j := by
      intro j hj
      refine hs.event_of_ne ?_
      rintro rfl
      exact queued_of_mem h.wf hi hj.appl
    rw [hevent _ (h.fresh n hn).1, hevent _ (h.fresh n hn).2]
    exact h.fresh n hn

/-- The handler of a listener's event is called. -/
theorem Held.called {p : Nat} (h : e.Held none) (hi : i ∈ e.sched.queues.bucket p)
    (hn : i.listener = some l.id) (hl : l ∈ e.listeners) :
    Called { e with sched := e.sched.take p i } l := by
  have hs := Scheduler.changes_take hi
  have hqueued := queued_of_mem h.wf hi
  have hfit := h.fits l hl nofun
  have hsame : ∀ l' ∈ e.listeners, l'.id = l.id → l'.sock = l.sock := fun l' hl' hid ↦ by
    rw [h.same hl' hl hid]
  cases i with
  | listenFd k =>
    obtain rfl : k = l.id := Option.some.inj hn
    rcases hfit.state with ⟨-, -, hset, happl⟩ | ⟨-, happl, -⟩
    · refine ⟨hsame, ?_, ?_, ?_, ?_, ?_⟩ <;> dsimp only
      · rw [hs.event_self]
        exact hfit.fd
      · rw [hs.event_self]
        exact hfit.descr
      · rw [hs.event_of_ne (i := .rbev l.id) nofun]
        exact hfit.timer
      · rw [hs.event_of_ne (i := .rbev l.id) nofun]
        exact ⟨hset, happl⟩
      · rw [hs.event_self]
        rfl
    · exact absurd happl hqueued
  | rbev k =>
    obtain rfl : k = l.id := Option.some.inj hn
    rcases hfit.state with ⟨-, -, -, happl⟩ | ⟨-, happl, -⟩
    · exact absurd happl hqueued
    · refine ⟨hsame, ?_, ?_, ?_, ?_, ?_⟩ <;> dsimp only
      · rw [hs.event_of_ne (i := .listenFd l.id) nofun]
        exact hfit.fd
      · rw [hs.event_of_ne (i := .listenFd l.id) nofun]
        exact hfit.descr
      · rw [hs.event_self]
        exact hfit.timer
      · rw [hs.event_self]
        exact ⟨Bool.eq_false_iff.mpr fun hset ↦ hfit.once ⟨hset, hqueued⟩, rfl⟩
      · rwa [hs.event_of_ne (i := .listenFd l.id) nofun]
  | _ => cases hn

/-- What a poll does to the events of a listener. -/
theorem fit_stage {sock : Option Nat} (hwf : e.sched.WF) (hs : Scheduler.Stage e.sched s)
    (hidle : ∀ i ∈ e.sched.idleness, i = .idev)
    (h : Fit sock (e.sched.event (.listenFd n)) (e.sched.event (.rbev n))) :
    Fit sock (s.event (.listenFd n)) (s.event (.rbev n)) := by
  have hf := hs.moves (.listenFd n)
  have hnot : ∀ i n, i.listener = some n → i ∉ e.sched.idleness := by
    intro i n hi hmem
    rw [hidle i hmem] at hi
    cases hi
  have hdescr : (s.event (.listenFd n)).isSet = false ∧ (s.event (.listenFd n)).signo = 0 := by
    refine ⟨?_, ?_⟩
    · rcases hf.timer with ⟨hset, -⟩ | ⟨hset, -⟩
      · rw [hset, h.descr.1]
      · rw [h.descr.1] at hset
        cases hset
    · rcases hf.signal with hsigno | ⟨hsigno, -⟩
      · rw [hsigno, h.descr.2]
      · exact hsigno
  rcases h.state with ⟨hsock, hwatch, hset, happl⟩ | ⟨hsock, happl, htimer⟩
  · -- the timer is not in use
    have hrb : s.event (.rbev n) = e.sched.event (.rbev n) :=
      hs.inert ⟨happl, hset, h.timer.1, h.timer.2⟩ (hnot _ n rfl)
    rw [hrb]
    refine ⟨hf.fd.trans h.fd, hdescr, h.timer, h.once, .inl ⟨hsock, ?_, hset, happl⟩⟩
    rcases hwatch with hwatch | hqueued
    · rcases hf.report with ⟨-, hexpected⟩ | hqueued
      · exact .inl (hexpected ▸ hwatch)
      · exact .inr hqueued
    · exact .inr (hf.queued hqueued)
  · -- the descriptor event is not in use, and the timer may be due
    have hfd : s.event (.listenFd n) = e.sched.event (.listenFd n) :=
      hs.inert ⟨happl, h.descr.1, h.descr.2, h.fd.trans hsock⟩ (hnot _ n rfl)
    rw [hfd]
    rcases hs.plain (.rbev n) h.timer.1 h.timer.2 (hnot _ n rfl) with hsame | ⟨-, hqueued⟩
    · rw [hsame]
      exact h
    · have hfields : (s.event (.rbev n)).prioAppl ≠ 0 ∧ (s.event (.rbev n)).isSet = false ∧
          (s.event (.rbev n)).signo = 0 ∧ (s.event (.rbev n)).fd = none := by
        rw [hqueued]
        refine ⟨Scheduler.enqueued_appl (hwf.usr (.rbev n)), ?_⟩
        simpa using h.timer
      obtain ⟨hq, hset, htimer'⟩ := hfields
      exact ⟨h.fd, h.descr, htimer', fun hboth ↦ absurd hboth.1 (Bool.eq_false_iff.mp hset),
        .inr ⟨hsock, happl, .inr hq⟩⟩

theorem Held.poll (h : e.Held none) (hs : Scheduler.Stage e.sched s) (hidle : s.idleness = []) :
    Held none { e with sched := s } := by
  refine ⟨hs.wf, fun i hi ↦ ?_, h.ids, h.below, fun l hl hne ↦ ?_, fun n hn ↦ ?_⟩
  · dsimp only at hi
    rw [hidle] at hi
    cases hi
  · exact fit_stage h.wf hs h.idle (h.fits l hl hne)
  · have hnot : ∀ i, i.listener = some n → i ∉ e.sched.idleness := by
      intro i hi hmem
      rw [h.idle i hmem] at hi
      cases hi
    have hinert := h.fresh n hn
    dsimp only
    rw [hs.inert hinert.1 (hnot _ rfl), hs.inert hinert.2 (hnot _ rfl)]
    exact hinert

/-! ## Steps

What is shown of all steps is that listeners are fit; that none of them is lost is shown of those
that are not hurried. -/

/-- There is a listener for each address, and it listens or will try again. -/
def Covered (e : Egress S) : Prop :=
  ∀ a ∈ e.resolved.getD [], ∃ l ∈ e.listeners, l.entry = a ∧
    ((∃ fd, l.sock = some fd ∧ (e.sched.event (.listenFd l.id)).fd = some fd ∧
      ((e.sched.event (.listenFd l.id)).expected.epollin ∨
        (e.sched.event (.listenFd l.id)).prioAppl ≠ 0)) ∨
      (e.sched.event (.rbev l.id)).isSet ∨ (e.sched.event (.rbev l.id)).prioAppl ≠ 0)

/-- The step calls `flush`. -/
def Flushes (e : Egress S) : Act → Prop
  | .busy _ => True
  | .notify i _ => (i = .idev ∨ i = .flusher) ∧ e.Next i
  | _ => False

/-- `flush` is not called while the timer of a listener has been collected and not yet notified. -/
def Unhurried (e : Egress S) (a : Act) : Prop :=
  e.Flushes a → ∀ l ∈ e.listeners, (e.sched.event (.rbev l.id)).prioAppl = 0

/-- The listeners are fit, and they are for the addresses that have been found. -/
structure Kept (e : Egress S) : Prop where
  held : e.Held none
  entries : e.listeners.map (·.entry) = e.resolved.getD []
  nodup : (e.resolved.getD []).Nodup

theorem Kept.covered (h : e.Kept) : e.Covered := by
  intro a ha
  rw [← h.entries] at ha
  obtain ⟨l, hl, rfl⟩ := List.mem_map.mp ha
  have hfit := h.held.fits l hl nofun
  refine ⟨l, hl, rfl, ?_⟩
  rcases hfit.state with ⟨hsock, hwatch, -, -⟩ | ⟨-, -, htimer⟩
  · obtain ⟨fd, hfd⟩ := Option.ne_none_iff_exists'.mp hsock
    exact .inl ⟨fd, hfd, hfit.fd.trans hfd, hwatch⟩
  · exact .inr htimer

theorem kept_init (cfg : Config S) (now : TimePoint) : (init cfg now).Kept := by
  have hs := Scheduler.changes_timedSet (Scheduler.init : Scheduler Ev) .flusher
    (now + cfg.clientTimeout)
  refine ⟨⟨hs.wf Scheduler.wf_init, fun i hi ↦ ?_, List.nodup_nil, nofun, nofun, fun n _ ↦ ?_⟩, rfl,
    List.nodup_nil⟩
  · have hidle : (init cfg now).sched.idleness = [] := hs.idleness
    rw [hidle] at hi
    cases hi
  · have hlisten : (init cfg now).sched.event (.listenFd n) = {} := hs.event_of_ne nofun
    have hrb : (init cfg now).sched.event (.rbev n) = {} := hs.event_of_ne nofun
    rw [hlisten, hrb]
    exact ⟨⟨rfl, rfl, rfl, rfl⟩, ⟨rfl, rfl, rfl, rfl⟩⟩

theorem Kept.apart (h : e.Kept) (ha : Apart e e') : e'.Kept := by
  refine ⟨h.held.apart ha, ?_, ?_⟩
  · rw [ha.listeners, ha.resolved]
    exact h.entries
  · rw [ha.resolved]
    exact h.nodup

/-- A listener is fit unless its timer has been collected; so it stays. -/
theorem fit_stays {sock : Option Nat} {f r : EventState} (h : Fit sock f r)
    (hr : r.prioAppl = 0) : (sock.isNone && !r.isSet) = false := by
  rcases h.state with ⟨hsock, -⟩ | ⟨-, -, hset | hq⟩
  · cases sock with
    | none => exact absurd rfl hsock
    | some fd => rfl
  · simp [hset]
  · exact absurd hr hq

/-- **`flush` drops no listener**, if no timer of one has been collected. -/
theorem flush_apart {now : TimePoint} (h : e.Held none)
    (hcalm : ∀ l ∈ e.listeners, (e.sched.event (.rbev l.id)).prioAppl = 0)
    (hs : e.flush cfg now = .ok e') : Apart e e' := by
  obtain ⟨helsewhere, hlisteners, hnext, hresolved⟩ := flush_ok hs
  refine ⟨helsewhere, ?_, hnext.ge, hresolved⟩
  rw [hlisteners, List.filter_eq_self]
  intro l hl
  rw [listenerFlushable, fit_stays (h.fits l hl nofun) (hcalm l hl)]
  rfl

/-- A listener is constructed: nothing is set for it yet. -/
theorem Held.add (h : e.Held none) (a : AddressEntry) :
    let l : Listener := ⟨e.nextId, a, none⟩
    let e₁ := { e with listeners := e.listeners ++ [l], nextId := e.nextId + 1 }
    Held (some l.id) e₁ ∧ e₁.Called l := by
  intro l e₁
  obtain ⟨hfd, hrb⟩ := h.fresh e.nextId le_rfl
  have hmem : ∀ l' ∈ e₁.listeners, l' ∈ e.listeners ∨ l' = l := fun l' hl' ↦ by
    simpa [e₁] using hl'
  have hother : ∀ l' ∈ e.listeners, l'.id ≠ l.id := fun l' hl' ↦ (h.below l' hl').ne
  constructor
  · refine ⟨h.wf, h.idle, ?_, fun l' hl' ↦ ?_, fun l' hl' hne ↦ ?_, fun n hn ↦ ?_⟩
    · simpa [e₁, l, List.nodup_append] using ⟨h.ids, fun l' hl' ↦ hother l' hl'⟩
    · rcases hmem l' hl' with hl' | rfl
      · exact (h.below l' hl').trans (Nat.lt_succ_self _)
      · exact Nat.lt_succ_self _
    · rcases hmem l' hl' with hl' | rfl
      · exact h.fits l' hl' nofun
      · exact absurd rfl hne
    · exact h.fresh n ((Nat.le_succ _).trans hn)
  · refine ⟨fun l' hl' hid ↦ ?_, hfd.fd, ⟨hfd.isSet, hfd.signo⟩, ⟨hrb.signo, hrb.fd⟩,
      ⟨hrb.isSet, hrb.appl⟩, hfd.appl⟩
    rcases hmem l' hl' with hl' | rfl
    · exact absurd hid (hother l' hl')
    · rfl

/-- The induction is on the addresses that are left. -/
theorem listen_held {now : TimePoint} {addrs : List AddressEntry} {binds : List Bind}
    (h : e.Held none) (hs : listen now addrs binds e = .ok e') :
    e'.Held none ∧ e'.listeners.map (·.entry) = e.listeners.map (·.entry) ++ addrs := by
  induction addrs generalizing binds e with
  | nil =>
    cases hs
    exact ⟨h, by simp⟩
  | cons a addrs ih =>
    cases binds with
    | nil => cases hs
    | cons r binds =>
      rw [listen] at hs
      dsimp only [bind, Except.bind] at hs
      split at hs
      · cases hs
      rename_i e₁ he₁
      obtain ⟨hadded, hcalled⟩ := h.add a
      have htended := rebind_tended hcalled he₁
      obtain ⟨hheld, hentries⟩ := ih (hadded.tended (Nat.lt_succ_self _) htended) hs
      refine ⟨hheld, ?_⟩
      rw [hentries, htended.entries]
      simp

theorem Held.activate {now : TimePoint} {info : Except Eai (List AddressEntry)}
    {binds : List Bind} (h : e.Held none) (hs : e.activate cfg now info binds = .ok e') :
    e'.Held none := by
  cases info with
  | error x => cases hs
  | ok info =>
    obtain ⟨e₁, he₁, rfl⟩ := map_ok hs
    obtain ⟨hheld, -⟩ := listen_held h he₁
    exact ⟨hheld.wf, hheld.idle, hheld.ids, hheld.below, hheld.fits, hheld.fresh⟩

theorem Kept.activate {now : TimePoint} {info : Except Eai (List AddressEntry)}
    {binds : List Bind} (h : e.Kept) (hnone : e.resolved = none)
    (hs : e.activate cfg now info binds = .ok e') : e'.Kept := by
  have hheld := h.held.activate hs
  cases info with
  | error x => cases hs
  | ok info =>
    obtain ⟨e₁, he₁, rfl⟩ := map_ok hs
    obtain ⟨-, hentries⟩ := listen_held h.held he₁
    have hempty := h.entries
    rw [hnone, Option.getD_none] at hempty
    rw [hempty, List.nil_append] at hentries
    exact ⟨hheld, hentries, nodup_addresses info⟩

theorem Held.deactivate (h : e.Held none) (hs : e.deactivate = .ok e') : e'.Held none := by
  rw [Egress.deactivate] at hs
  dsimp only [bind, Except.bind] at hs
  split at hs
  · cases hs
  rename_i t ht
  cases hs
  obtain ⟨hwf, hevent, hidle⟩ := cancelAll_ok ht
  refine ⟨hwf h.wf, fun i hi ↦ h.idle i (hidle ▸ hi), List.nodup_nil, nofun, nofun, fun n hn ↦ ?_⟩
  have hnot : ∀ i, i.listener = some n →
      i ∉ (e.listeners.filter (·.sock.isSome)).map fun l ↦ Ev.listenFd l.id := by
    intro i hi hmem
    obtain ⟨l, hl, rfl⟩ := List.mem_map.mp hmem
    have hlt := h.below l (List.mem_of_mem_filter hl)
    rw [Option.some.inj hi] at hlt
    exact absurd hn (Nat.not_le_of_lt hlt)
  dsimp only
  rw [hevent _ (hnot _ rfl), hevent _ (hnot _ rfl)]
  exact h.fresh n hn

theorem Kept.deactivate (h : e.Kept) (hs : e.deactivate = .ok e') : e'.Kept := by
  have hheld := h.held.deactivate hs
  rw [Egress.deactivate] at hs
  dsimp only [bind, Except.bind] at hs
  split at hs
  · cases hs
  · cases hs
    exact ⟨hheld, rfl, List.nodup_nil⟩

/-- A handler of a listener. -/
theorem Held.handled {p : Nat} (h : e.Held none) (hi : i ∈ e.sched.queues.bucket p)
    (hn : i.listener = some n) (hlt : n < e.nextId)
    (ht : Tended n { e with sched := e.sched.take p i } e') : e'.Held none := by
  have hheld := h.take hi
  rw [hn] at hheld
  exact hheld.tended hlt ht

/-- It leaves the addresses alone. -/
theorem Kept.tended (h : e.Kept) (hheld : e'.Held none) {s : Scheduler Ev}
    (ht : Tended n { e with sched := s } e') : e'.Kept := by
  refine ⟨hheld, ?_, ?_⟩
  · rw [ht.entries, ht.resolved]
    exact h.entries
  · rw [ht.resolved]
    exact h.nodup

/-- What is taken from its queue is no listener's. -/
theorem Held.other {p : Nat} (h : e.Held none) (hi : i ∈ e.sched.queues.bucket p)
    (hn : i.listener = none) : Held none { e with sched := e.sched.take p i } := by
  have hheld := h.take hi
  rwa [hn] at hheld

theorem Kept.other {p : Nat} (h : e.Kept) (hi : i ∈ e.sched.queues.bucket p)
    (hn : i.listener = none) : Kept { e with sched := e.sched.take p i } :=
  ⟨h.held.other hi hn, h.entries, h.nodup⟩

theorem rbev_take {p : Nat} {l : Listener} (hi : i ∈ e.sched.queues.bucket p)
    (hn : i.listener = none) :
    (e.sched.take p i).event (.rbev l.id) = e.sched.event (.rbev l.id) := by
  refine (Scheduler.changes_take hi).event_of_ne ?_
  rintro rfl
  cases hn

/-- The listeners that `flush` does not drop are as they were. -/
theorem Held.flush {now : TimePoint} (h : e.Held none) (hs : e.flush cfg now = .ok e') :
    e'.Held none := by
  obtain ⟨helsewhere, hlisteners, hnext, -⟩ := flush_ok hs
  have hevent : ∀ i n, i.listener = some n → e'.sched.event i = e.sched.event i := fun i n hi ↦
    helsewhere.event i n hi nofun
  have hmem : ∀ l ∈ e'.listeners, l ∈ e.listeners := by
    rw [hlisteners]
    exact fun l hl ↦ List.mem_of_mem_filter hl
  refine ⟨helsewhere.wf h.wf, h.idle_step helsewhere rfl, ?_, fun l hl ↦ ?_, fun l hl _ ↦ ?_,
    fun n hn ↦ ?_⟩
  · rw [hlisteners]
    exact h.ids.sublist (List.filter_sublist.map _)
  · rw [hnext]
    exact h.below l (hmem l hl)
  · rw [hevent _ l.id rfl, hevent _ l.id rfl]
    exact h.fits l (hmem l hl) nofun
  · rw [hnext] at hn
    rw [hevent _ n rfl, hevent _ n rfl]
    exact h.fresh n hn

/-- **The step lemma.**  Any step leaves the listeners fit, and those that are not hurried keep
them all. -/
theorem Held.step {a : Act} (h : e.Held none) (hs : e.step cfg a = .ok e') :
    e'.Held none ∧ (e.Unhurried a → e.Kept → e'.Kept) := by
  have htended : ∀ {i : Ev} {io : Io} {p : Nat} {l : Listener},
      i ∈ e.sched.queues.bucket p → i.listener = some l.id → l ∈ e.listeners →
      Tended l.id { e with sched := e.sched.take p i } e' →
      e'.Held none ∧ (e.Unhurried (.notify i io) → e.Kept → e'.Kept) := by
    intro i io p l hi hn hl ht
    have hheld := h.handled hi hn (h.below l hl) ht
    exact ⟨hheld, fun _ hk ↦ hk.tended hheld ht⟩
  cases effect hs with
  | skip => exact ⟨h, fun _ hk ↦ hk⟩
  | activate hnone hs => exact ⟨h.activate hs, fun _ hk ↦ hk.activate hnone hs⟩
  | deactivate hs => exact ⟨h.deactivate hs, fun _ hk ↦ hk.deactivate hs⟩
  | busy hs => exact ⟨h.flush hs, fun ha hk ↦ hk.apart (flush_apart h (ha trivial) hs)⟩
  | poll hcollect =>
    obtain ⟨hstage, hidle⟩ := Scheduler.collect_spec h.wf hcollect
    exact ⟨h.poll hstage hidle, fun _ hk ↦ ⟨h.poll hstage hidle, hk.entries, hk.nodup⟩⟩
  | @flush i io p _ hwhich hp hi hs =>
    have hn : i.listener = none := by rcases hwhich with rfl | rfl <;> rfl
    refine ⟨(h.other hi hn).flush hs, fun ha hk ↦ ?_⟩
    have hcalm := ha ⟨hwhich, p, hp, hi⟩
    have hother := hk.other hi hn
    refine hother.apart (flush_apart hother.held (fun l hl ↦ ?_) hs)
    dsimp only
    rw [rbev_take hi hn]
    exact hcalm l hl
  | accept _ hi hl hs => exact htended hi rfl hl (acceptLoop_tended (h.called hi rfl hl) hs)
  | rebind _ hi hl hs => exact htended hi rfl hl (rebind_tended (h.called hi rfl hl) hs)
  | conn _ hi hs =>
    have hapart := connHandleFd_apart hs
    exact ⟨(h.other hi rfl).apart hapart, fun _ hk ↦ (hk.other hi rfl).apart hapart⟩

theorem Kept.step {a : Act} (h : e.Kept) (ha : e.Unhurried a) (hs : e.step cfg a = .ok e') :
    e'.Kept :=
  (h.held.step hs).2 ha h

/-- A hurried `flush` drops the listener. -/
theorem Kept.dropped {now : TimePoint} (h : e.Kept) {l : Listener} (hl : l ∈ e.listeners)
    (hq : (e.sched.event (.rbev l.id)).prioAppl ≠ 0) (hs : e.flush cfg now = .ok e') :
    ¬ e'.Covered := by
  intro hcovered
  obtain ⟨-, hlisteners, -, hresolved⟩ := flush_ok hs
  have hmem : l.entry ∈ e'.resolved.getD [] := by
    rw [hresolved, ← h.entries]
    exact List.mem_map_of_mem hl
  obtain ⟨l', hl', hentry, -⟩ := hcovered _ hmem
  rw [hlisteners, List.mem_filter] at hl'
  have hnodup : (e.listeners.map (·.entry)).Nodup := by
    rw [h.entries]
    exact h.nodup
  obtain rfl := List.inj_on_of_nodup_map hnodup hl'.1 hl hentry
  have hfit := h.held.fits l' hl nofun
  have hset := Bool.eq_false_iff.mpr fun hset ↦ hfit.once ⟨hset, hq⟩
  rcases hfit.state with ⟨-, -, -, hzero⟩ | ⟨hsock, -, -⟩
  · exact hq hzero
  · simp [listenerFlushable, hsock, hset] at hl'

/-- **The listeners are kept** in every run in which `flush` does not come in between, and it is the
only step that can lose one, and does, if it comes in between. -/
theorem listeners_kept {now : TimePoint} (h : Run.Reach (step cfg) Unhurried (init cfg now) e) :
    e.Covered ∧ ∀ a e', e.step cfg a = .ok e' → (e'.Covered ↔ e.Unhurried a) := by
  have hkept : e.Kept := h.invariant (kept_init cfg now) fun _ _ _ hk ha hs ↦ hk.step ha hs
  refine ⟨hkept.covered, fun a e' hs ↦ ⟨fun hcovered hflush l hl ↦ ?_, fun ha ↦
    (hkept.step ha hs).covered⟩⟩
  by_contra hq
  cases a with
  | activate => exact hflush
  | deactivate => exact hflush
  | poll => exact hflush
  | busy now => exact hkept.dropped hl hq hs hcovered
  | notify i io =>
    obtain ⟨hwhich, p, hp, hi⟩ := hflush
    have hn : i.listener = none := by rcases hwhich with rfl | rfl <;> rfl
    have hq' : ((e.sched.take p i).event (.rbev l.id)).prioAppl ≠ 0 := by
      rw [rbev_take hi hn]
      exact hq
    rw [Egress.step, Option.mem_def.mp hp] at hs
    dsimp only at hs
    rw [if_pos hi] at hs
    have hother := hkept.other hi hn
    rcases hwhich with rfl | rfl
    · exact hother.dropped hl hq' hs hcovered
    · exact hother.dropped hl hq' hs hcovered

/-- An egress with a short timeout, none of whose clients is ever used. -/
def oneMinute : Config Unit where
  name := "in"
  clientTimeout := seconds 60
  ops := fun _ ↦ ⟨fun _ ↦ (), fun _ _ _ ↦ ()⟩
  expired := fun _ _ ↦ true

/-- An address. -/
def anyAddress : AddressEntry := ⟨1, 2, 1, 6, [2, 0, 39, 15, 0, 0, 0, 0]⟩

/-- The address is in use; half a minute later, too. -/
def inUse : List Act :=
  [.activate 0 (.ok [anyAddress]) [⟨some 4, true, false⟩], .poll (seconds 30) [],
    .notify (.rbev 0) { now := seconds 30, bind := ⟨some 4, true, false⟩ }]

/-- Steps of these runs that call `flush` are recognized by their form. -/
instance (e : Egress S) : DecidablePred (e.Unhurried)
  | .busy _ => decidable_of_iff (∀ l ∈ e.listeners, (e.sched.event (.rbev l.id)).prioAppl = 0)
    ⟨fun h _ ↦ h, fun h ↦ h trivial⟩
  | .notify i _ => inferInstanceAs (Decidable
      ((i = .idev ∨ i = .flusher) ∧ e.Next i → ∀ l ∈ e.listeners, _ = 0))
  | .activate .. | .deactivate | .poll .. => .isTrue False.elim

theorem listeners_kept_two : ∃ e : Egress Unit, e.resolved = some [anyAddress] ∧ e.Covered ∧
    ∀ a e', e.step oneMinute a = .ok e' → (e'.Covered ↔ e.Unhurried a) := by
  have hrun : Run.Checks (step oneMinute) Unhurried (init oneMinute 0) inUse
      fun e ↦ e.resolved = some [anyAddress] := by decide +kernel
  obtain ⟨e, hreach, hresolved⟩ := hrun.reach
  exact ⟨e, hresolved, listeners_kept hreach⟩

/-- The timer of the listener and the flusher are due in the same poll, and the flusher is notified
first.  Then there is no listener, and the queue has the timer of one that has been destroyed. -/
theorem flush_drops_listener : ∃ e : Egress Unit, Run.Reach (step oneMinute) Run.anyStep
    (init oneMinute 0) e ∧ ¬ e.Covered ∧
      e.step oneMinute (.notify (.rbev 0) {}) = .error .undefined := by
  have hrun : Run.Checks (step oneMinute) Run.anyStep (init oneMinute 0)
      (inUse ++ [.poll (seconds 60) [], .notify .flusher { now := seconds 60 }]) fun e ↦
        e.resolved = some [anyAddress] ∧ e.listeners.length = 0 ∧
          failure (e.step oneMinute (.notify (.rbev 0) {})) = some .undefined := by decide +kernel
  obtain ⟨e, hreach, hresolved, hlength, hdangling⟩ := hrun.reach
  refine ⟨e, hreach, fun hcovered ↦ ?_, failure_eq.mp hdangling⟩
  obtain ⟨l, hl, -⟩ := hcovered anyAddress (by simp [hresolved])
  rw [List.length_eq_zero_iff.mp hlength] at hl
  cases hl

end Egress
end TcpEgress
end UdpTun
