import UdpTun.TcpEgress.Accepting
import UdpTun.TcpEgress.Housekeeping

/-!
# The connections of an egress

A `Connection` stays in `conns` from the time it is accepted until `flush` finds its socket closed,
and the only thing that closes it is its own handler.  `Attended` says what there is to be said of
connections in between: one whose socket is open is watched for input, or has been found readable
and is queued; one whose socket is closed is waited for by the idle event, which will call `flush`;
and nothing is set for a connection that is gone.

So no connection is left deaf, or kept for ever once it is closed, and the handler of a connection
is never called when it is gone, or has no socket: `connections_attended`.

`Owned` is about the descriptors: `descriptors_owned`.  An egress holds those of its listeners and
of its connections, each for one of them, and besides these only the ones that `loses` records:
`handle_fd` has forgotten them because it looked at an `errno` that was out of date.
-/

set_option autoImplicit false

namespace UdpTun
namespace TcpEgress

open Scheduler (Changes Inert)

/-! ## The events of connections

The descriptor event of a connection is the only one that it has, and the idle event of the egress
is common to all of them. -/

/-- What the event of a connection is like, by its socket. -/
structure Heeded (sock : Option Nat) (v : EventState) : Prop where
  fd : v.fd = sock
  plain : v.isSet = false ∧ v.signo = 0
  state : sock ≠ none ∧ (v.expected.epollin ∨ v.prioAppl ≠ 0) ∨ sock = none ∧ v.prioAppl = 0

theorem Heeded.inert {v : EventState} (h : Heeded none v) : Inert v := by
  rcases h.state with ⟨hsome, -⟩ | ⟨-, happl⟩
  · exact absurd rfl hsome
  · exact ⟨happl, h.plain.1, h.plain.2, h.fd⟩

/-- An event that is queued has a connection with a socket. -/
theorem Heeded.open {sock : Option Nat} {v : EventState} (h : Heeded sock v)
    (hq : v.prioAppl ≠ 0) : ∃ fd, sock = some fd := by
  rcases h.state with ⟨hsome, -⟩ | ⟨-, happl⟩
  · exact Option.ne_none_iff_exists'.mp hsome
  · exact absurd happl hq

/-- `flush` will be called. -/
def Due (s : Scheduler Ev) : Prop := .idev ∈ s.idleness ∨ (s.event .idev).prioAppl ≠ 0

/-- The events of connections are left alone, and if `flush` was to be called it still is. -/
structure Aside (s s' : Scheduler Ev) : Prop where
  event : ∀ n, s'.event (.connFd n) = s.event (.connFd n)
  due : Due s → Due s'

variable {s s' s'' : Scheduler Ev} {i : Ev}

theorem Aside.refl (s : Scheduler Ev) : Aside s s := ⟨fun _ ↦ rfl, id⟩

theorem Aside.trans (h : Aside s s') (h' : Aside s' s'') : Aside s s'' :=
  ⟨fun n ↦ (h'.event n).trans (h.event n), h'.due ∘ h.due⟩

theorem due_of_changes {v : EventState} (h : Changes s s' i v) (hidev : i ≠ .idev)
    (hdue : Due s) : Due s' := by
  rwa [Due, h.idleness, h.event_of_ne hidev.symm]

/-- What is done to another event. -/
theorem aside_of_changes {v : EventState} (h : Changes s s' i v) (hidev : i ≠ .idev)
    (hconn : ∀ n, i ≠ .connFd n) : Aside s s' :=
  ⟨fun n ↦ h.event_of_ne (hconn n).symm, due_of_changes h hidev⟩

theorem aside_cancelAll {is : List Ev} (h : cancelAll is s = .ok s')
    (his : ∀ i ∈ is, i ≠ .idev ∧ ∀ n, i ≠ .connFd n) : Aside s s' := by
  obtain ⟨-, hevent, hidle⟩ := cancelAll_ok h
  refine ⟨fun n ↦ hevent _ fun hmem ↦ (his _ hmem).2 n rfl, fun hdue ↦ ?_⟩
  rwa [Due, hidle, hevent _ fun hmem ↦ (his _ hmem).1 rfl]

/-- What is not set is not set when it has been cancelled. -/
theorem cancelAll_inert {is : List Ev} (h : cancelAll is s = .ok s') (hi : Inert (s.event i)) :
    Inert (s'.event i) := by
  induction is generalizing s with
  | nil =>
    cases h
    exact hi
  | cons j is ih =>
    rw [cancelAll] at h
    split at h
    · cases h
    · rename_i t ht
      have hs := Scheduler.changes_descrCancel ht
      refine ih h ?_
      by_cases hij : i = j
      · subst hij
        rw [hs.event_self]
        exact ⟨rfl, hi.isSet, hi.signo, rfl⟩
      · rw [hs.event_of_ne hij]
        exact hi

/-- `flush` is still to be called when something is collected: it may be queued. -/
theorem due_stage (h : Scheduler.Stage s s') (hdue : Due s) : Due s' := by
  rcases hdue with hidle | hq
  · exact h.idle _ hidle
  · exact .inr ((h.moves _).queued hq)

/-- What a poll does to the event of a connection. -/
theorem heeded_stage {sock : Option Nat} {n : Nat} (h : Heeded sock (s.event (.connFd n)))
    (hs : Scheduler.Stage s s') (hidle : .connFd n ∉ s.idleness) :
    Heeded sock (s'.event (.connFd n)) := by
  cases sock with
  | none =>
    rw [hs.inert h.inert hidle]
    exact h
  | some fd =>
    have hmoves := hs.moves (.connFd n)
    refine ⟨hmoves.fd.trans h.fd, ⟨?_, ?_⟩, .inl ⟨Option.some_ne_none fd, ?_⟩⟩
    · rcases hmoves.timer with ⟨hset, -⟩ | ⟨hset, -⟩
      · rw [hset, h.plain.1]
      · rw [h.plain.1] at hset
        cases hset
    · rcases hmoves.signal with hsigno | ⟨hsigno, -⟩
      · rw [hsigno, h.plain.2]
      · exact hsigno
    · rcases h.state with ⟨-, hwatch | hq⟩ | ⟨hnone, -⟩
      · rcases hmoves.report with ⟨-, hexpected⟩ | hq
        · exact .inl (hexpected ▸ hwatch)
        · exact .inr hq
      · exact .inr (hmoves.queued hq)
      · cases hnone

/-- The socket that `rebind` leaves open. -/
def Bind.opened (r : Bind) : Option Nat := if r.bind && r.listen then r.socket else none

namespace Egress

variable {S : Type} {cfg : Config S} {e e' e'' : Egress S} {l : Listener} {n : Nat}

/-! ## What functions that return have done

As for listeners: a function comes down to a few cases, and what is left alone in each of them is
part of the case. -/

/-- A connection of `conns` is changed. -/
def setConn (e : Egress S) (n : Nat) (conn : Connection S) : Egress S :=
  { e with conns := e.conns.map fun d ↦ if d.id = n then { d with conn } else d }

theorem mem_setConn {conn : Connection S} {c' : Conn S} :
    c' ∈ (e.setConn n conn).conns ↔
      ∃ c ∈ e.conns, c' = if c.id = n then { c with conn } else c := by
  simp [setConn, eq_comm]

theorem ids_setConn (e : Egress S) (n : Nat) (conn : Connection S) :
    (e.setConn n conn).conns.map (·.id) = e.conns.map (·.id) := by
  rw [setConn, List.map_map]
  refine List.map_congr_left fun c _ ↦ ?_
  dsimp only [Function.comp]
  split <;> rfl

/-- The socket is closed and `flush` is to be called, or the connection goes on. -/
theorem connHandleFd_cases {c : Conn S} {io : Io} (h : e.connHandleFd cfg c io = .ok e') :
    ∃ fd ms conn t, c.conn.sock = some fd ∧
      (Connection.handleFd (cfg.ops io.now) c.conn io.recv = .ok (ms, conn, true) ∧
          e.sched.descrCancel (.connFd c.id) = .ok t ∧
          e' = { e.setConn c.id conn with
            sched := t.idleSet .idev, descriptors := e.descriptors.erase fd } ∨
        Connection.handleFd (cfg.ops io.now) c.conn io.recv = .ok (ms, conn, false) ∧
          e.sched.descrSet (.connFd c.id) fd listeningEvents = .ok t ∧
          e' = { e.setConn c.id conn with sched := t }) := by
  rw [connHandleFd] at h
  split at h
  · cases h
  · cases h
  rename_i ms conn closed fd hr hsock
  cases closed with
  | true =>
    rw [if_pos rfl] at h
    dsimp only [bind, Except.bind] at h
    split at h
    · cases h
    · cases h
      exact ⟨fd, ms, conn, _, hsock, .inl ⟨hr, ‹_›, rfl⟩⟩
  | false =>
    rw [if_neg Bool.false_ne_true] at h
    dsimp only [bind, Except.bind] at h
    split at h
    · cases h
    · cases h
      exact ⟨fd, ms, conn, _, hsock, .inr ⟨hr, ‹_›, rfl⟩⟩

/-- There is one more connection, and it is watched. -/
theorem addConn_cases {fd : Nat} (h : e.addConn fd = .ok e') : ∃ t,
    e.sched.descrSet (.connFd e.nextId) fd listeningEvents = .ok t ∧
      e' = { e with
        sched := t
        conns := e.conns ++ [⟨e.nextId, .create fd (List.replicate sizeofBuf 0)
          List.length_replicate⟩]
        nextId := e.nextId + 1 } := by
  rw [addConn] at h
  dsimp only [bind, Except.bind] at h
  split at h
  · cases h
  · cases h
    exact ⟨_, ‹_›, rfl⟩

/-- The listening socket is given up and closed. -/
theorem acceptFailed_cases {now : TimePoint} (h : e.acceptFailed l now = .ok e') :
    ∃ t, e.sched.descrCancel (.listenFd l.id) = .ok t ∧
      e' = ({ e with
        sched := t
        descriptors := l.sock.elim e.descriptors e.descriptors.erase }.setSock l.id none).setRbev
          l.id now (seconds 30) := by
  rw [acceptFailed] at h
  dsimp only [bind, Except.bind] at h
  split at h
  · cases h
  · cases h
    exact ⟨_, ‹_›, rfl⟩

/-- **What the accepting loop comes to**, if it returns: a socket is given up; or it is watched
again, after nothing, or after a connection has been made, refused, or forgotten. -/
theorem acceptLoop_cases {now : TimePoint} {errno : Errno} {accepts : List Accept}
    (h : acceptLoop l now errno accepts e = .ok e') : e.acceptFailed l now = .ok e' ∨
      ∃ e₁, e₁.acceptNext l = .ok e' ∧
        (e₁ = e ∨ ∃ fd known, decisive accepts = some (.accepted fd known) ∧
          (stale errno accepts ∧ e₁ = { e with descriptors := fd :: e.descriptors } ∨
            known ∧ { e with descriptors := fd :: e.descriptors }.addConn fd = .ok e₁)) := by
  rw [acceptLoop_eq] at h
  split at h
  · cases h
  · rename_i fd known hdecisive
    dsimp only [bind, Except.bind] at h
    split at h
    · cases h
    rename_i e₁ he₁
    refine .inr ⟨e₁, h, ?_⟩
    split at he₁
    · rename_i hstale
      exact .inr ⟨fd, known, hdecisive, .inl ⟨hstale, (Except.ok.inj he₁).symm⟩⟩
    split at he₁
    · rename_i hknown
      exact .inr ⟨fd, known, hdecisive, .inr ⟨hknown, he₁⟩⟩
    · exact .inl (Except.ok.inj he₁).symm
  · split at h
    · exact .inr ⟨e, h, .inl rfl⟩
    · exact .inl h

/-- Closed connections are dropped, and nothing is set for them any more. -/
theorem flush_cases {now : TimePoint} (h : e.flush cfg now = .ok e') :
    ∃ t, cancelAll ((e.conns.filter connFlushable).map fun c ↦ .connFd c.id) e.sched = .ok t ∧
      e'.conns = (e.conns.filter (!connFlushable ·)).map
        (connFlush cfg (now - cfg.clientTimeout)) ∧
      e'.sched = t.timedSet .flusher (e.flushTime + cfg.clientTimeout) ∧
      e'.descriptors = e.descriptors ∧ e'.nextId = e.nextId := by
  rw [flush] at h
  dsimp only [bind, Except.bind] at h
  split at h
  · cases h
  · cases h
    exact ⟨_, ‹_›, rfl, rfl, rfl, rfl⟩

theorem find_conn {c : Conn S} (h : e.conns.find? (·.id = n) = some c) :
    c ∈ e.conns ∧ c.id = n :=
  ⟨List.mem_of_find?_eq_some h, by simpa using List.find?_some h⟩

/-- The handler of a connection is called, or nothing happens. -/
theorem notify_conn {io : Io} (h : e.step cfg (.notify (.connFd n) io) = .ok e') :
    ¬ e.Next (.connFd n) ∧ e' = e ∨ ∃ p c, p ∈ e.sched.lowest ∧
      .connFd n ∈ e.sched.queues.bucket p ∧ c ∈ e.conns ∧ c.id = n ∧
        connHandleFd cfg { e with sched := e.sched.take p (.connFd n) } c io = .ok e' := by
  rw [step] at h
  split at h
  · rename_i hnone
    cases h
    exact .inl ⟨by simp [Next, hnone], rfl⟩
  rename_i p hp
  split at h
  · rename_i hi
    rw [handle] at h
    split at h
    · cases h
    · rename_i c hfind
      obtain ⟨hc, hid⟩ := find_conn hfind
      exact .inr ⟨p, c, hp, hi, hc, hid, h⟩
  · rename_i hi
    cases h
    refine .inl ⟨?_, rfl⟩
    rintro ⟨q, hq, hmem⟩
    obtain rfl := Option.some.inj (hp.symm.trans hq)
    exact hi hmem

/-! ## What does not concern connections

Listening, and being activated and deactivated, leave the events of connections as they are. -/

theorem rebind_aside {now : TimePoint} {r : Bind} (h : e.rebind l now r = .ok e') :
    Aside e.sched e'.sched ∧ e'.conns = e.conns ∧ e'.nextId = e.nextId := by
  obtain ⟨-, ⟨d, rfl⟩ | ⟨fd, t, ht, rfl⟩⟩ := rebind_ok h
  · exact ⟨aside_of_changes (Scheduler.changes_timedSet e.sched (.rbev l.id) _) nofun nofun, rfl,
      rfl⟩
  · have h₁ := aside_of_changes (Scheduler.changes_timedCancel e.sched (.rbev l.id)) nofun nofun
    exact ⟨h₁.trans (aside_of_changes (Scheduler.changes_descrSet ht) nofun nofun), rfl, rfl⟩

theorem acceptNext_aside (h : e.acceptNext l = .ok e') :
    Aside e.sched e'.sched ∧ e'.conns = e.conns ∧ e'.nextId = e.nextId := by
  obtain ⟨fd, t, -, ht, rfl⟩ := acceptNext_ok h
  exact ⟨aside_of_changes (Scheduler.changes_descrSet ht) nofun nofun, rfl, rfl⟩

theorem acceptFailed_aside {now : TimePoint} (h : e.acceptFailed l now = .ok e') :
    Aside e.sched e'.sched ∧ e'.conns = e.conns ∧ e'.nextId = e.nextId := by
  obtain ⟨t, ht, rfl⟩ := acceptFailed_cases h
  have h₁ := aside_of_changes (Scheduler.changes_descrCancel ht) nofun nofun
  exact ⟨h₁.trans (aside_of_changes (Scheduler.changes_timedSet t (.rbev l.id) _) nofun nofun), rfl,
    rfl⟩

/-- The induction is on the addresses that are left. -/
theorem listen_aside {now : TimePoint} {addrs : List AddressEntry} {binds : List Bind}
    (h : listen now addrs binds e = .ok e') :
    Aside e.sched e'.sched ∧ e'.conns = e.conns ∧ e.nextId ≤ e'.nextId := by
  induction addrs generalizing binds e with
  | nil =>
    cases h
    exact ⟨.refl _, rfl, le_rfl⟩
  | cons a addrs ih =>
    cases binds with
    | nil => cases h
    | cons r binds =>
      rw [listen] at h
      dsimp only [bind, Except.bind] at h
      split at h
      · cases h
      rename_i e₁ he₁
      obtain ⟨haside₁, hconns₁, hnext₁⟩ := rebind_aside he₁
      obtain ⟨haside₂, hconns₂, hnext₂⟩ := ih h
      dsimp only at haside₁ hconns₁ hnext₁
      exact ⟨haside₁.trans haside₂, hconns₂.trans hconns₁, by omega⟩

theorem activate_aside {now : TimePoint} {info : Except Eai (List AddressEntry)}
    {binds : List Bind} (h : e.activate cfg now info binds = .ok e') :
    Aside e.sched e'.sched ∧ e'.conns = e.conns ∧ e.nextId ≤ e'.nextId := by
  cases info with
  | error x => cases h
  | ok info =>
    obtain ⟨e₁, he₁, rfl⟩ := map_ok h
    obtain ⟨haside, hconns, hnext⟩ := listen_aside he₁
    exact ⟨haside, hconns, hnext⟩

theorem deactivate_aside (h : e.deactivate = .ok e') :
    Aside e.sched e'.sched ∧ e'.conns = e.conns ∧ e.nextId ≤ e'.nextId := by
  rw [deactivate] at h
  dsimp only [bind, Except.bind] at h
  split at h
  · cases h
  rename_i t ht
  cases h
  refine ⟨aside_cancelAll ht fun i hi ↦ ?_, rfl, le_rfl⟩
  obtain ⟨l, -, rfl⟩ := List.mem_map.mp hi
  exact ⟨Ev.noConfusion, fun _ ↦ Ev.noConfusion⟩

/-! ## The invariant

While the handler of an event is running its own connection is left out, since its event is neither
set nor queued then. -/

/-- All connections are heeded, but for `m`; those that are closed will be dropped, and nothing is
set for those that are not there. -/
structure Attended (m : Option Nat) (e : Egress S) : Prop where
  ids : (e.conns.map (·.id)).Nodup
  below : ∀ c ∈ e.conns, c.id < e.nextId
  heeded : ∀ c ∈ e.conns, some c.id ≠ m → Heeded c.conn.sock (e.sched.event (.connFd c.id))
  gone : ∀ n, (∀ c ∈ e.conns, c.id ≠ n) → Inert (e.sched.event (.connFd n))
  due : ∀ c ∈ e.conns, c.conn.sock = none → Due e.sched

theorem Attended.same {m : Option Nat} (h : e.Attended m) {c₁ c₂ : Conn S} (h₁ : c₁ ∈ e.conns)
    (h₂ : c₂ ∈ e.conns) (hid : c₁.id = c₂.id) : c₁ = c₂ :=
  List.inj_on_of_nodup_map h.ids h₁ h₂ hid

theorem attended_init (cfg : Config S) (now : TimePoint) : (init cfg now).Attended none := by
  have hs := Scheduler.changes_timedSet (Scheduler.init : Scheduler Ev) .flusher
    (now + cfg.clientTimeout)
  refine ⟨List.nodup_nil, nofun, nofun, fun n _ ↦ ?_, nofun⟩
  have hevent : (init cfg now).sched.event (.connFd n) = {} := hs.event_of_ne nofun
  rw [hevent]
  exact ⟨rfl, rfl, rfl, rfl⟩

/-- What does not concern connections. -/
theorem Attended.aside {m : Option Nat} (h : e.Attended m)
    (ha : Aside e.sched e'.sched ∧ e'.conns = e.conns ∧ e.nextId ≤ e'.nextId) :
    e'.Attended m := by
  obtain ⟨haside, hconns, hnext⟩ := ha
  refine ⟨?_, fun c hc ↦ ?_, fun c hc hne ↦ ?_, fun n hn ↦ ?_, fun c hc hsock ↦ ?_⟩
  · rw [hconns]
    exact h.ids
  · rw [hconns] at hc
    exact (h.below c hc).trans_le hnext
  · rw [hconns] at hc
    rw [haside.event]
    exact h.heeded c hc hne
  · rw [hconns] at hn
    rw [haside.event]
    exact h.gone n hn
  · rw [hconns] at hc
    exact haside.due (h.due c hc hsock)

/-- Something else is taken from its queue. -/
theorem Attended.take {p : Nat} (h : e.Attended none) (hi : i ∈ e.sched.queues.bucket p)
    (hidev : i ≠ .idev) (hconn : ∀ n, i ≠ .connFd n) :
    Attended none { e with sched := e.sched.take p i } :=
  h.aside ⟨aside_of_changes (Scheduler.changes_take hi) hidev hconn, rfl, le_rfl⟩

/-- The event of a connection is taken from its queue: it need not be heeded then. -/
theorem Attended.takeConn {p : Nat} (hwf : e.sched.WF) (h : e.Attended none)
    (hi : .connFd n ∈ e.sched.queues.bucket p) :
    Attended (some n) { e with sched := e.sched.take p (.connFd n) } := by
  have hs := Scheduler.changes_take hi
  refine ⟨h.ids, h.below, fun c hc hne ↦ ?_, fun k hk ↦ ?_, fun c hc hsock ↦ ?_⟩
  · have hother : Ev.connFd c.id ≠ .connFd n := by
      rintro heq
      cases heq
      exact hne rfl
    rw [hs.event_of_ne hother]
    exact h.heeded c hc nofun
  · have hinert := h.gone k hk
    have hother : Ev.connFd k ≠ .connFd n := by
      intro heq
      cases heq
      exact queued_of_mem hwf hi hinert.appl
    rw [hs.event_of_ne hother]
    exact hinert
  · exact due_of_changes hs nofun (h.due c hc hsock)

/-- The event of a connection is dealt with, and the connection with it. -/
theorem Attended.setConn (h : e.Attended (some n)) {conn : Connection S} {v : EventState}
    (hmem : ∃ c ∈ e.conns, c.id = n) (hs : Changes e.sched s (.connFd n) v)
    (hv : Heeded conn.sock v) (haside : Aside s s') (hdue : conn.sock = none → Due s')
    (hconns : e'.conns = (e.setConn n conn).conns) (hsched : e'.sched = s')
    (hnext : e'.nextId = e.nextId) : e'.Attended none := by
  subst hsched
  have hself : e'.sched.event (.connFd n) = v := (haside.event n).trans hs.event_self
  have hother : ∀ k, k ≠ n → e'.sched.event (.connFd k) = e.sched.event (.connFd k) := by
    intro k hk
    rw [haside.event]
    exact hs.event_of_ne fun heq ↦ hk (Ev.connFd.inj heq)
  have hcases : ∀ c' ∈ e'.conns, c'.id = n ∧ c'.conn = conn ∨ c'.id ≠ n ∧ c' ∈ e.conns := by
    intro c' hc'
    rw [hconns] at hc'
    obtain ⟨c, hc, rfl⟩ := mem_setConn.mp hc'
    split
    · exact .inl ⟨‹_›, rfl⟩
    · exact .inr ⟨‹_›, hc⟩
  refine ⟨?_, fun c' hc' ↦ ?_, fun c' hc' _ ↦ ?_, fun k hk ↦ ?_, fun c' hc' hsock ↦ ?_⟩
  · rw [hconns, ids_setConn]
    exact h.ids
  · rw [hnext]
    rcases hcases c' hc' with ⟨hid, -⟩ | ⟨-, hc⟩
    · obtain ⟨c, hc, hcid⟩ := hmem
      rw [hid, ← hcid]
      exact h.below c hc
    · exact h.below c' hc
  · rcases hcases c' hc' with ⟨hid, hconn⟩ | ⟨hid, hc⟩
    · rw [hid, hself, hconn]
      exact hv
    · rw [hother _ hid]
      exact h.heeded c' hc fun heq ↦ hid (Option.some.inj heq)
  · have hids : ∀ c ∈ e.conns, c.id ≠ k := by
      intro c hc hck
      have hmap : k ∈ e'.conns.map (·.id) := by
        rw [hconns, ids_setConn]
        exact List.mem_map.mpr ⟨c, hc, hck⟩
      obtain ⟨c', hc', hid⟩ := List.mem_map.mp hmap
      exact hk c' hc' hid
    obtain ⟨c, hc, hcid⟩ := hmem
    rw [hother k fun heq ↦ hids c hc (hcid.trans heq.symm)]
    exact h.gone k hids
  · rcases hcases c' hc' with ⟨-, hconn⟩ | ⟨-, hc⟩
    · exact hdue (hconn ▸ hsock)
    · exact haside.due (due_of_changes hs nofun (h.due c' hc hsock))

theorem due_idleSet (s : Scheduler Ev) : Due (s.idleSet .idev) := by
  rw [Due, Scheduler.idleSet_idleness, List.mem_insert_iff]
  exact .inl (.inl rfl)

theorem aside_idleSet (s : Scheduler Ev) : Aside s (s.idleSet .idev) := by
  refine ⟨fun n ↦ ?_, fun _ ↦ due_idleSet s⟩
  have hne : Ev.connFd n ≠ .idev := nofun
  rw [Scheduler.idleSet_event, Function.update_of_ne hne]

/-- **A connection is handled**: it is watched again, or it is closed and will be dropped. -/
theorem Attended.handled {c : Conn S} {io : Io} (h : e.Attended (some c.id)) (hc : c ∈ e.conns)
    (hplain : (e.sched.event (.connFd c.id)).isSet = false ∧
      (e.sched.event (.connFd c.id)).signo = 0)
    (hs : e.connHandleFd cfg c io = .ok e') : e'.Attended none := by
  obtain ⟨fd, ms, conn, t, hsock, ⟨hr, ht, rfl⟩ | ⟨hr, ht, rfl⟩⟩ := connHandleFd_cases hs
  · obtain ⟨-, -, ⟨-, rfl, -⟩ | ⟨hclosed, -⟩⟩ := Connection.handleFd_ok _ hr
    · exact h.setConn ⟨c, hc, rfl⟩ (Scheduler.changes_descrCancel ht)
        ⟨rfl, hplain, .inr ⟨rfl, rfl⟩⟩ (aside_idleSet t) (fun _ ↦ due_idleSet t) rfl rfl rfl
    · cases hclosed
  · obtain ⟨fd', hfd', ⟨hclosed, -⟩ | ⟨-, hopen⟩⟩ := Connection.handleFd_ok _ hr
    · cases hclosed
    · obtain rfl := Option.some.inj (hsock.symm.trans hfd')
      refine h.setConn ⟨c, hc, rfl⟩ (Scheduler.changes_descrSet ht)
        ⟨?_, hplain, .inl ⟨?_, .inl rfl⟩⟩ (.refl t) (fun hnone ↦ ?_) rfl rfl rfl
      · exact hopen.symm
      · rw [hopen]
        exact Option.some_ne_none fd
      · rw [hopen] at hnone
        cases hnone

/-- A connection is accepted. -/
theorem Attended.addConn {fd : Nat} (h : e.Attended none) (hs : e.addConn fd = .ok e') :
    e'.Attended none := by
  obtain ⟨t, ht, rfl⟩ := addConn_cases hs
  have hchanges := Scheduler.changes_descrSet ht
  have hold : ∀ c ∈ e.conns, c.id ≠ e.nextId := fun c hc ↦ (h.below c hc).ne
  have hinert := h.gone e.nextId hold
  have hother : ∀ k, k ≠ e.nextId → t.event (.connFd k) = e.sched.event (.connFd k) :=
    fun k hk ↦ hchanges.event_of_ne fun heq ↦ hk (Ev.connFd.inj heq)
  have hmem : ∀ c ∈ e.conns ++ [(⟨e.nextId, .create fd (List.replicate sizeofBuf 0)
      List.length_replicate⟩ : Conn S)], c ∈ e.conns ∨ c.id = e.nextId ∧ c.conn.sock = some fd := by
    intro c hc
    rw [List.mem_append, List.mem_singleton] at hc
    refine hc.imp_right ?_
    rintro rfl
    exact ⟨rfl, rfl⟩
  refine ⟨?_, fun c hc ↦ ?_, fun c hc _ ↦ ?_, fun k hk ↦ ?_, fun c hc hsock ↦ ?_⟩
  · dsimp only
    rw [List.map_append, List.map_singleton, List.nodup_append]
    refine ⟨h.ids, List.nodup_singleton _, fun k hk k' hk' ↦ ?_⟩
    obtain ⟨c, hc, rfl⟩ := List.mem_map.mp hk
    rw [List.mem_singleton.mp hk']
    exact hold c hc
  · rcases hmem c hc with hc | ⟨hid, -⟩
    · exact (h.below c hc).trans (Nat.lt_succ_self _)
    · rw [hid]
      exact Nat.lt_succ_self _
  · dsimp only
    rcases hmem c hc with hc | ⟨hid, hsock⟩
    · rw [hother _ (hold c hc)]
      exact h.heeded c hc nofun
    · rw [hid, hchanges.event_self, hsock]
      exact ⟨rfl, ⟨hinert.isSet, hinert.signo⟩, .inl ⟨Option.some_ne_none fd, .inl rfl⟩⟩
  · dsimp only at hk ⊢
    have hne : k ≠ e.nextId := fun heq ↦ hk _ (List.mem_append_right _ (List.mem_singleton_self _))
      heq.symm
    rw [hother k hne]
    exact h.gone k fun c hc ↦ hk c (List.mem_append_left _ hc)
  · rcases hmem c hc with hc | ⟨-, hopen⟩
    · exact due_of_changes hchanges nofun (h.due c hc hsock)
    · rw [hsock] at hopen
      cases hopen

theorem Attended.accept {now : TimePoint} {errno : Errno} {accepts : List Accept}
    (h : e.Attended none) (hs : acceptLoop l now errno accepts e = .ok e') :
    e'.Attended none := by
  rcases acceptLoop_cases hs with hfailed | ⟨e₁, hnext, he₁⟩
  · obtain ⟨haside, hconns, hid⟩ := acceptFailed_aside hfailed
    exact h.aside ⟨haside, hconns, hid.ge⟩
  · obtain ⟨haside, hconns, hid⟩ := acceptNext_aside hnext
    refine Attended.aside ?_ ⟨haside, hconns, hid.ge⟩
    rcases he₁ with rfl | ⟨fd, known, -, ⟨-, rfl⟩ | ⟨-, hadd⟩⟩
    · exact h
    · exact h.aside ⟨.refl _, rfl, le_rfl⟩
    · have hsame : Attended none { e with descriptors := fd :: e.descriptors } :=
        h.aside ⟨.refl _, rfl, le_rfl⟩
      exact hsame.addConn hadd

/-- **`flush` drops the connections that are closed**, and no others.  It may be that the event
which calls it has just been taken from its queue. -/
theorem Attended.flush {e₀ : Egress S} {now : TimePoint} (h : e₀.Attended none)
    (hsame : ∀ n, e.sched.event (.connFd n) = e₀.sched.event (.connFd n))
    (hconns₀ : e.conns = e₀.conns) (hnext₀ : e.nextId = e₀.nextId)
    (hs : e.flush cfg now = .ok e') : e'.Attended none ∧ ∀ c ∈ e'.conns, c.conn.sock ≠ none := by
  have heeded : ∀ c ∈ e.conns, Heeded c.conn.sock (e.sched.event (.connFd c.id)) := by
    intro c hc
    rw [hsame]
    exact h.heeded c (hconns₀ ▸ hc) nofun
  have ids : (e.conns.map (·.id)).Nodup := hconns₀ ▸ h.ids
  obtain ⟨t, ht, hconns, hsched, -, hnext⟩ := flush_cases hs
  have hset := Scheduler.changes_timedSet t .flusher (e.flushTime + cfg.clientTimeout)
  have hevent : ∀ n, e'.sched.event (.connFd n) = t.event (.connFd n) := fun n ↦ by
    rw [hsched]
    exact hset.event_of_ne nofun
  have hmem : ∀ c' ∈ e'.conns, ∃ c ∈ e.conns, c.conn.sock ≠ none ∧ c'.id = c.id ∧
      c'.conn.sock = c.conn.sock := by
    intro c' hc'
    rw [hconns] at hc'
    obtain ⟨c, hc, rfl⟩ := List.mem_map.mp hc'
    obtain ⟨hc, hopen⟩ := List.mem_filter.mp hc
    refine ⟨c, hc, fun hnone ↦ ?_, rfl, rfl⟩
    rw [connFlushable, hnone] at hopen
    cases hopen
  have hopen : ∀ c' ∈ e'.conns, c'.conn.sock ≠ none := by
    intro c' hc'
    obtain ⟨c, -, hsock, -, heq⟩ := hmem c' hc'
    rwa [heq]
  refine ⟨⟨?_, fun c' hc' ↦ ?_, fun c' hc' _ ↦ ?_, fun n hn ↦ ?_, fun c' hc' hsock ↦
    absurd hsock (hopen c' hc')⟩, hopen⟩
  · rw [hconns, List.map_map]
    exact ids.sublist (List.filter_sublist.map _)
  · obtain ⟨c, hc, -, hid, -⟩ := hmem c' hc'
    rw [hid, hnext, hnext₀]
    exact h.below c (hconns₀ ▸ hc)
  · obtain ⟨c, hc, hsock, hid, heq⟩ := hmem c' hc'
    rw [hevent, hid, heq, (cancelAll_ok ht).2.1 _ fun hcancelled ↦ ?_]
    · exact heeded c hc
    · -- another one with its number is itself
      obtain ⟨d, hd, hdc⟩ := List.mem_map.mp hcancelled
      obtain ⟨hd, hflushable⟩ := List.mem_filter.mp hd
      obtain rfl := List.inj_on_of_nodup_map ids hd hc (Ev.connFd.inj hdc)
      exact hsock (Option.isNone_iff_eq_none.mp hflushable)
  · rw [hevent]
    refine cancelAll_inert ht ?_
    by_cases hgone : ∀ c ∈ e.conns, c.id ≠ n
    · rw [hsame]
      exact h.gone n (hconns₀ ▸ hgone)
    · -- it was closed
      simp only [not_forall, not_not, exists_prop] at hgone
      obtain ⟨c, hc, hid⟩ := hgone
      have hheeded := heeded c hc
      cases hsock : c.conn.sock with
      | none =>
        rw [hsock, hid] at hheeded
        exact hheeded.inert
      | some fd =>
        refine absurd hid (hn (connFlush cfg (now - cfg.clientTimeout) c) ?_)
        rw [hconns]
        refine List.mem_map_of_mem (List.mem_filter.mpr ⟨hc, ?_⟩)
        simp [connFlushable, hsock]

theorem Attended.poll (h : e.Attended none) (hs : Scheduler.Stage e.sched s)
    (hidle : ∀ n, .connFd n ∉ e.sched.idleness) : Attended none { e with sched := s } := by
  refine ⟨h.ids, h.below, fun c hc hne ↦ heeded_stage (h.heeded c hc hne) hs (hidle _),
    fun n hn ↦ ?_, fun c hc hsock ↦ due_stage hs (h.due c hc hsock)⟩
  dsimp only
  rw [hs.inert (h.gone n hn) (hidle n)]
  exact h.gone n hn

/-- **The step lemma.** -/
theorem Attended.step {a : Act} (hheld : e.Held none) (h : e.Attended none)
    (hs : e.step cfg a = .ok e') : e'.Attended none := by
  have hwf := hheld.wf
  cases effect hs with
  | skip => exact h
  | activate _ hs => exact h.aside (activate_aside hs)
  | deactivate hs => exact h.aside (deactivate_aside hs)
  | busy hs => exact (h.flush (fun _ ↦ rfl) rfl rfl hs).1
  | poll hcollect =>
    refine h.poll (Scheduler.collect_spec hwf hcollect).1 fun n hmem ↦ ?_
    cases hheld.idle _ hmem
  | @flush i io p _ hwhich _ hi hs =>
    have hsame : ∀ n, (e.sched.take p i).event (.connFd n) = e.sched.event (.connFd n) := by
      refine fun n ↦ (Scheduler.changes_take hi).event_of_ne ?_
      rcases hwhich with rfl | rfl <;> nofun
    exact (h.flush (e := { e with sched := e.sched.take p i }) hsame rfl rfl hs).1
  | accept _ hi _ hs => exact (h.take hi nofun nofun).accept hs
  | rebind _ hi _ hs =>
    obtain ⟨haside, hconns, hid⟩ := rebind_aside hs
    exact (h.take hi nofun nofun).aside ⟨haside, hconns, hid.ge⟩
  | conn =>
    rcases notify_conn hs with ⟨-, rfl⟩ | ⟨p, c, -, hi, hc, rfl, hs⟩
    · exact h
    · have hplain := (h.heeded c hc nofun).plain
      have htake := Scheduler.changes_take hi
      refine (h.takeConn hwf hi).handled hc ?_ hs
      dsimp only
      rw [htake.event_self]
      exact hplain

/-! ## Runs

The invariant rules out that a handler is called without a socket, so it returns; and what is due
stays due until `flush` is called. -/

theorem attended_of_reach {start : TimePoint}
    (h : Run.Reach (step cfg) Run.anyStep (init cfg start) e) : e.Held none ∧ e.Attended none :=
  h.invariant (I := fun e ↦ e.Held none ∧ e.Attended none)
    ⟨held_init cfg start, attended_init cfg start⟩ fun _ _ _ hI _ hs ↦
    ⟨(hI.1.step hs).1, hI.2.step hI.1 hs⟩

/-- `recv` gives no more than there is room for. -/
def Fits (e : Egress S) (n : Nat) (rc : Recv) : Prop :=
  ∀ c ∈ e.conns, c.id = n → ∀ chunk, rc = .bytes chunk → chunk.length ≤ c.conn.rx.room

/-- **The handler of a connection is only called while it has a socket**, and returns. -/
theorem Attended.notified (hwf : e.sched.WF) (h : e.Attended none) (hnext : e.Next (.connFd n))
    (io : Io) (hfits : e.Fits n io.recv) : ∃ e', e.step cfg (.notify (.connFd n) io) = .ok e' := by
  obtain ⟨p, hp, hi⟩ := hnext
  have hq := queued_of_mem hwf hi
  -- it is not gone
  obtain ⟨c, hc, rfl⟩ : ∃ c ∈ e.conns, c.id = n := by
    by_contra hgone
    push Not at hgone
    exact hq (h.gone n hgone).appl
  obtain ⟨fd, hfd⟩ := (h.heeded c hc nofun).open hq
  have hfind : e.conns.find? (·.id = c.id) = some c := by
    cases hfound : e.conns.find? (·.id = c.id) with
    | none => exact absurd (decide_eq_true rfl) (List.find?_eq_none.mp hfound c hc)
    | some c' =>
      obtain ⟨hc', hid⟩ := find_conn hfound
      rw [h.same hc' hc hid]
  obtain ⟨r, hr⟩ := Connection.handleFd_total (cfg.ops io.now) hfd (hfits c hc rfl)
  have htake := Scheduler.changes_take hi
  have hset : ((e.sched.take p (.connFd c.id)).event (.connFd c.id)).fd = some fd := by
    rw [htake.event_self]
    exact ((h.heeded c hc nofun).fd).trans hfd
  have hstep : e.step cfg (.notify (.connFd c.id) io) =
      connHandleFd cfg { e with sched := e.sched.take p (.connFd c.id) } c io := by
    rw [Egress.step, Option.mem_def.mp hp]
    dsimp only
    rw [if_pos hi, handle]
    dsimp only
    rw [hfind]
  obtain ⟨ms, conn, closed⟩ := r
  rw [hstep, connHandleFd, hr, hfd]
  dsimp only
  cases closed with
  | true =>
    obtain ⟨t, ht⟩ := (htake.wf hwf).descrCancel_total (.connFd c.id)
    rw [if_pos rfl, ht]
    exact ⟨_, rfl⟩
  | false =>
    obtain ⟨t, ht⟩ := (htake.wf hwf).descrSet_again hset listeningEvents
    rw [if_neg Bool.false_ne_true, ht]
    exact ⟨_, rfl⟩

/-- The kernel watches the socket of a connection for input, or has reported some. -/
def Heard (e : Egress S) (c : Conn S) (fd : Nat) : Prop :=
  (∃ events : Mask, e.sched.epoll.get? fd = some (.connFd c.id, events) ∧ events.epollin) ∨
    (e.sched.event (.connFd c.id)).prioAppl ≠ 0

/-- **Connections are attended to**, in every state reached.  An open one is heard; a closed one is
to be dropped, and is when `flush` is called; and the handler of one is only called while it is
there and has a socket, so it returns. -/
theorem connections_attended {start : TimePoint}
    (h : Run.Reach (step cfg) Run.anyStep (init cfg start) e) :
    (∀ c ∈ e.conns, ∀ fd, c.conn.sock = some fd → e.Heard c fd) ∧
    ((∃ c ∈ e.conns, c.conn.sock = none) → Due e.sched) ∧
    (∀ now e', e.flush cfg now = .ok e' → ∀ c ∈ e'.conns, c.conn.sock ≠ none) ∧
    ∀ n io, e.Next (.connFd n) → e.Fits n io.recv →
      ∃ e', e.step cfg (.notify (.connFd n) io) = .ok e' := by
  obtain ⟨hheld, hattended⟩ := attended_of_reach h
  refine ⟨fun c hc fd hfd ↦ ?_, fun ⟨c, hc, hsock⟩ ↦ hattended.due c hc hsock, fun now e' hs ↦
    (hattended.flush (fun _ ↦ rfl) rfl rfl hs).2, fun n io hnext hfits ↦
    hattended.notified hheld.wf hnext io hfits⟩
  have hheeded := hattended.heeded c hc nofun
  rcases hheeded.state with ⟨-, hwatch | hq⟩ | ⟨hnone, -⟩
  · exact .inl ⟨_, (hheld.wf.epoll fd _ _).mpr ⟨hheeded.fd.trans hfd, rfl⟩, hwatch⟩
  · exact .inr hq
  · rw [hfd] at hnone
    cases hnone

/-- Two connections are accepted.  The peer of one goes away, and the other one sends
something. -/
def callers : List Act :=
  knock ++ [.notify (.listenFd 0) { accepts := [.accepted 7 true] },
    .poll 2 [.descriptor (.listenFd 0) { epollin := true }],
    .notify (.listenFd 0) { accepts := [.accepted 8 true] },
    .poll 3 [.descriptor (.connFd 1) { epollin := true }], .notify (.connFd 1) {},
    .poll 4 [.descriptor (.connFd 2) { epollin := true }]]

theorem connections_attended_two : ∃ e : Egress Unit,
    e.conns.map (fun c ↦ (c.id, c.conn.sock)) = [(1, none), (2, some 8)] ∧ e.Next (.connFd 2) ∧
    (∀ c ∈ e.conns, ∀ fd, c.conn.sock = some fd → e.Heard c fd) ∧
    ((∃ c ∈ e.conns, c.conn.sock = none) → Due e.sched) ∧
    (∀ now e', e.flush oneMinute now = .ok e' → ∀ c ∈ e'.conns, c.conn.sock ≠ none) ∧
    ∀ n io, e.Next (.connFd n) → e.Fits n io.recv →
      ∃ e', e.step oneMinute (.notify (.connFd n) io) = .ok e' := by
  have hrun : Run.Checks (step oneMinute) Run.anyStep (init oneMinute 0) callers fun e ↦
      e.conns.map (fun c ↦ (c.id, c.conn.sock)) = [(1, none), (2, some 8)] ∧
        e.Next (.connFd 2) := by decide +kernel
  obtain ⟨e, hreach, hconns, hnext⟩ := hrun.reach
  exact ⟨e, hconns, hnext, connections_attended hreach⟩

/-! ## Descriptors

Who owns which descriptor is a list, taken from the listeners and from the connections.  A
descriptor goes into it or out of it, and no two owners have the same. -/

/-- The sockets of the listeners and of the connections. -/
def sockets (e : Egress S) : List Nat :=
  e.listeners.filterMap (·.sock) ++ e.conns.filterMap (·.conn.sock)

/-- Each descriptor is that of one listener or connection, but for those that are lost. -/
structure Owned (lost : List Nat) (e : Egress S) : Prop where
  nodup : e.descriptors.Nodup
  perm : e.descriptors.Perm (e.sockets ++ lost)

/-- The kernel gives out descriptors that are not in use. -/
def Distinct (e : Egress S) : Act → Prop
  | .activate _ _ binds => (binds.filterMap Bind.opened ++ e.descriptors).Nodup
  | .notify (.rbev _) io => ∀ fd ∈ io.bind.opened, fd ∉ e.descriptors
  | .notify (.listenFd _) io =>
    ∀ fd known, decisive io.accepts = some (.accepted fd known) → fd ∉ e.descriptors
  | _ => True

/-- The descriptor that a step loses, when `handle_fd` looks at an `errno` that is out of date. -/
def loses (e : Egress S) : Act → List Nat
  | .notify (.listenFd n) io =>
    if e.Next (.listenFd n) ∧ stale io.errno io.accepts then
      match decisive io.accepts with
      | some (.accepted fd _) => [fd]
      | _ => []
    else []
  | _ => []

variable {lost : List Nat}

theorem owned_init (cfg : Config S) (now : TimePoint) : (init cfg now).Owned [] :=
  ⟨List.nodup_nil, List.Perm.refl _⟩

/-- A descriptor that has no owner before has one now. -/
theorem Owned.insert (h : e.Owned lost) {fd : Nat} (hfree : fd ∉ e.descriptors)
    (hdescriptors : e'.descriptors = fd :: e.descriptors)
    (hperm : e'.sockets.Perm (fd :: e.sockets)) : e'.Owned lost := by
  refine ⟨?_, ?_⟩
  · rw [hdescriptors]
    exact List.nodup_cons.mpr ⟨hfree, h.nodup⟩
  · rw [hdescriptors]
    exact (h.perm.cons fd).trans (hperm.symm.append_right lost)

/-- A descriptor is closed, and its owner has it no more. -/
theorem Owned.erase (h : e.Owned lost) {fd : Nat}
    (hdescriptors : e'.descriptors = e.descriptors.erase fd)
    (hperm : e.sockets.Perm (fd :: e'.sockets)) : e'.Owned lost := by
  refine ⟨?_, ?_⟩
  · rw [hdescriptors]
    exact h.nodup.erase fd
  · rw [hdescriptors]
    have hall := (h.perm.trans (hperm.append_right lost)).erase fd
    rwa [List.cons_append, List.erase_cons_head] at hall

/-- The owners stay the same. -/
theorem Owned.congr (h : e.Owned lost) (hdescriptors : e'.descriptors = e.descriptors)
    (hsockets : e'.sockets.Perm e.sockets) : e'.Owned lost := by
  obtain ⟨hnodup, hperm⟩ := h
  rw [← hdescriptors] at hnodup hperm
  exact ⟨hnodup, hperm.trans (hsockets.symm.append_right lost)⟩

/-- Only one of several things with different numbers is changed. -/
theorem perm_change {α : Type} (num : α → Nat) {L : List α} (hnodup : (L.map num).Nodup) {a : α}
    (ha : a ∈ L) (f : α → α) : ∃ rest, L.Perm (a :: rest) ∧
      (L.map fun b ↦ if num b = num a then f b else b).Perm (f a :: rest) := by
  obtain ⟨l₁, l₂, rfl⟩ := List.append_of_mem ha
  rw [List.map_append, List.map_cons, List.nodup_append, List.nodup_cons] at hnodup
  obtain ⟨-, ⟨hafter, -⟩, hbefore⟩ := hnodup
  have hleft : l₁.map (fun b ↦ if num b = num a then f b else b) = l₁ := by
    refine (List.map_congr_left fun b hb ↦ ?_).trans (List.map_id l₁)
    exact if_neg (hbefore _ (List.mem_map_of_mem hb) _ (List.mem_cons_self ..))
  have hright : l₂.map (fun b ↦ if num b = num a then f b else b) = l₂ := by
    refine (List.map_congr_left fun b hb ↦ ?_).trans (List.map_id l₂)
    exact if_neg fun heq : num b = num a ↦ hafter (heq ▸ List.mem_map_of_mem hb)
  refine ⟨l₁ ++ l₂, List.perm_middle, ?_⟩
  rw [List.map_append, List.map_cons, hleft, hright, if_pos rfl]
  exact List.perm_middle

/-- A listener loses its socket, or gets one. -/
theorem perm_setSock (hheld : (e.listeners.map (·.id)).Nodup) (hl : l ∈ e.listeners)
    (sock : Option Nat) : ∃ socks, (e.listeners.filterMap (·.sock)).Perm (l.sock.toList ++ socks) ∧
      ((e.setSock l.id sock).listeners.filterMap (·.sock)).Perm (sock.toList ++ socks) := by
  obtain ⟨rest, hbefore, hafter⟩ := perm_change (·.id) hheld hl fun l ↦ { l with sock }
  refine ⟨rest.filterMap (·.sock), ?_, ?_⟩
  · exact (hbefore.filterMap _).trans (by cases hsock : l.sock <;> simp [hsock])
  · exact (hafter.filterMap _).trans (by cases sock <;> simp)

/-- A connection loses its socket, or keeps it. -/
theorem perm_setConn {m : Option Nat} (h : e.Attended m) {c : Conn S} (hc : c ∈ e.conns)
    (conn : Connection S) : ∃ socks,
      (e.conns.filterMap (·.conn.sock)).Perm (c.conn.sock.toList ++ socks) ∧
        ((e.setConn c.id conn).conns.filterMap (·.conn.sock)).Perm (conn.sock.toList ++ socks) := by
  obtain ⟨rest, hbefore, hafter⟩ := perm_change (·.id) h.ids hc fun d ↦ { d with conn }
  refine ⟨rest.filterMap (·.conn.sock), ?_, ?_⟩
  · exact (hbefore.filterMap _).trans (by cases hsock : c.conn.sock <;> simp [hsock])
  · exact (hafter.filterMap _).trans (by cases hsock : conn.sock <;> simp [hsock])

theorem Owned.rebind {now : TimePoint} {r : Bind} (h : e.Owned lost)
    (hids : (e.listeners.map (·.id)).Nodup) (hl : l ∈ e.listeners)
    (hfree : ∀ fd ∈ r.opened, fd ∉ e.descriptors) (hs : e.rebind l now r = .ok e') :
    e'.Owned lost ∧ (e'.descriptors = e.descriptors ∨
      ∃ fd ∈ r.opened, e'.descriptors = fd :: e.descriptors) := by
  rw [Egress.rebind] at hs
  split at hs
  · cases hs
  rename_i hsock
  rw [Bool.not_eq_true, Option.isSome_eq_false_iff, Option.isNone_iff_eq_none] at hsock
  split at hs
  · cases hs
    exact ⟨h.congr rfl (.refl _), .inl rfl⟩
  rename_i fd hfd
  split at hs
  · cases hs
    exact ⟨h.congr rfl (.refl _), .inl rfl⟩
  split at hs
  · cases hs
    exact ⟨h.congr rfl (.refl _), .inl rfl⟩
  rename_i hbind hlisten
  have hopened : fd ∈ r.opened := by simp_all [Bind.opened]
  dsimp only [bind, Except.bind] at hs
  split at hs
  · cases hs
  cases hs
  refine ⟨h.insert (hfree fd hopened) rfl ?_, .inr ⟨fd, hopened, rfl⟩⟩
  obtain ⟨socks, hbefore, hafter⟩ := perm_setSock hids hl (some fd)
  rw [hsock] at hbefore
  exact (hafter.trans (hbefore.symm.cons fd)).append_right _

theorem Owned.acceptFailed {now : TimePoint} (h : e.Owned lost)
    (hids : (e.listeners.map (·.id)).Nodup) (hl : l ∈ e.listeners)
    (hs : e.acceptFailed l now = .ok e') : e'.Owned lost := by
  obtain ⟨t, -, rfl⟩ := acceptFailed_cases hs
  obtain ⟨socks, hbefore, hafter⟩ := perm_setSock hids hl none
  cases hsock : l.sock with
  | none =>
    rw [hsock] at hbefore
    exact h.congr rfl ((hafter.trans hbefore.symm).append_right _)
  | some fd =>
    rw [hsock] at hbefore
    refine h.erase rfl ?_
    exact (hbefore.trans (hafter.symm.cons fd)).append_right _

theorem Owned.addConn {fd : Nat} (h : e.Owned lost) (hfree : fd ∉ e.descriptors)
    (hs : { e with descriptors := fd :: e.descriptors }.addConn fd = .ok e') : e'.Owned lost := by
  obtain ⟨t, -, rfl⟩ := addConn_cases hs
  refine h.insert hfree rfl ?_
  rw [sockets]
  dsimp only
  rw [List.filterMap_append, ← List.append_assoc]
  exact List.perm_append_comm

/-- A connection that is accepted is lost if the wrong error is looked at. -/
theorem Owned.accept {now : TimePoint} {errno : Errno} {accepts : List Accept} (h : e.Owned lost)
    (hids : (e.listeners.map (·.id)).Nodup) (hl : l ∈ e.listeners)
    (hfree : ∀ fd known, decisive accepts = some (.accepted fd known) → fd ∉ e.descriptors)
    (hs : acceptLoop l now errno accepts e = .ok e') :
    stale errno accepts = false ∧ e'.Owned lost ∨ ∃ fd known, stale errno accepts = true ∧
      decisive accepts = some (.accepted fd known) ∧ e'.Owned (lost ++ [fd]) := by
  have hnext : ∀ {e₁ : Egress S} {lost : List Nat}, e₁.Owned lost → e₁.acceptNext l = .ok e' →
      e'.Owned lost := by
    intro e₁ lost howned hs
    obtain ⟨fd, t, -, -, rfl⟩ := acceptNext_ok hs
    exact howned.congr rfl (.refl _)
  cases hstale : stale errno accepts with
  | false =>
    refine .inl ⟨rfl, ?_⟩
    rcases acceptLoop_cases hs with hfailed | ⟨e₁, hs₁, he₁⟩
    · exact h.acceptFailed hids hl hfailed
    rcases he₁ with rfl | ⟨fd, known, hdecisive, ⟨htrue, -⟩ | ⟨-, hadd⟩⟩
    · exact hnext h hs₁
    · rw [hstale] at htrue
      cases htrue
    · exact hnext (h.addConn (hfree fd known hdecisive) hadd) hs₁
  | true =>
    obtain ⟨fd, known, hdecisive⟩ := decisive_of_stale hstale
    refine .inr ⟨fd, known, rfl, hdecisive, ?_⟩
    rw [acceptLoop_eq, hdecisive] at hs
    dsimp only at hs
    rw [if_pos hstale] at hs
    have hlost : Owned (lost ++ [fd]) { e with descriptors := fd :: e.descriptors } := by
      refine ⟨List.nodup_cons.mpr ⟨hfree fd known hdecisive, h.nodup⟩, (h.perm.cons fd).trans ?_⟩
      rw [← List.append_assoc]
      exact (List.perm_append_singleton fd _).symm
    exact hnext hlost hs

/-- `flush` drops only what has no socket. -/
theorem Owned.flush {now : TimePoint} (h : e.Owned lost) (hs : e.flush cfg now = .ok e') :
    e'.Owned lost := by
  obtain ⟨t, -, hconns, -, hdescriptors, -⟩ := flush_cases hs
  obtain ⟨-, hlisteners, -, -⟩ := flush_ok hs
  have hl : e'.listeners.filterMap (·.sock) = e.listeners.filterMap (·.sock) := by
    rw [hlisteners, List.filterMap_filter]
    refine List.filterMap_congr fun l _ ↦ ?_
    cases hsock : l.sock <;> simp [listenerFlushable, hsock]
  have hc : e'.conns.filterMap (·.conn.sock) = e.conns.filterMap (·.conn.sock) := by
    rw [hconns, List.filterMap_map, List.filterMap_filter]
    refine List.filterMap_congr fun c _ ↦ ?_
    cases hsock : c.conn.sock <;> simp [connFlushable, connFlush, hsock]
  refine h.congr hdescriptors ?_
  rw [sockets, hl, hc]
  exact List.Perm.refl _

/-- The handler of a connection closes its socket, or leaves it. -/
theorem Owned.handled {m : Option Nat} {c : Conn S} {io : Io} (h : e.Owned lost)
    (ha : e.Attended m) (hc : c ∈ e.conns) (hs : e.connHandleFd cfg c io = .ok e') :
    e'.Owned lost := by
  obtain ⟨fd, ms, conn, t, hsock, ⟨hr, -, rfl⟩ | ⟨hr, -, rfl⟩⟩ := connHandleFd_cases hs
  · obtain ⟨-, -, ⟨-, rfl, -⟩ | ⟨hclosed, -⟩⟩ := Connection.handleFd_ok _ hr
    · obtain ⟨socks, hbefore, hafter⟩ :=
        perm_setConn ha hc { c.conn with fdev := false, sock := none }
      rw [hsock] at hbefore
      refine h.erase rfl ?_
      exact ((hbefore.trans (hafter.symm.cons fd)).append_left _).trans List.perm_middle
    · cases hclosed
  · obtain ⟨fd', hfd', ⟨hclosed, -⟩ | ⟨-, hopen⟩⟩ := Connection.handleFd_ok _ hr
    · cases hclosed
    · obtain rfl := Option.some.inj (hsock.symm.trans hfd')
      obtain ⟨socks, hbefore, hafter⟩ := perm_setConn ha hc conn
      rw [hsock] at hbefore
      rw [hopen] at hafter
      exact h.congr rfl ((hafter.trans hbefore.symm).append_left _)

/-- The induction is on the addresses that are left. -/
theorem listen_owned {now : TimePoint} {addrs : List AddressEntry} {binds : List Bind}
    (h : e.Owned lost) (hheld : e.Held none)
    (hfree : (binds.filterMap Bind.opened ++ e.descriptors).Nodup)
    (hs : listen now addrs binds e = .ok e') : e'.Owned lost := by
  induction addrs generalizing binds e with
  | nil =>
    cases hs
    exact h
  | cons a addrs ih =>
    cases binds with
    | nil => cases hs
    | cons r binds =>
      rw [listen] at hs
      dsimp only [bind, Except.bind] at hs
      split at hs
      · cases hs
      rename_i e₁ he₁
      obtain ⟨hadded, hcalled⟩ := hheld.add a
      have htended := rebind_tended hcalled he₁
      have howned : Owned lost { e with
          listeners := e.listeners ++ [⟨e.nextId, a, none⟩], nextId := e.nextId + 1 } := by
        refine h.congr rfl ?_
        rw [sockets]
        dsimp only
        rw [List.filterMap_append]
        exact List.Perm.of_eq (congrArg (· ++ _) (List.append_nil _))
      have hsplit : (r.opened.toList ++ (binds.filterMap Bind.opened ++ e.descriptors)).Nodup := by
        cases hopened : r.opened with
        | none => simpa [hopened] using hfree
        | some fd => simpa [hopened] using hfree
      obtain ⟨hnodup, hrest, hapart⟩ := List.nodup_append.mp hsplit
      obtain ⟨howned₁, hdescriptors⟩ := howned.rebind hadded.ids
        (List.mem_append_right _ (List.mem_singleton_self _)) (fun fd hfd hmem ↦
          hapart fd (Option.mem_toList.mpr hfd) fd (List.mem_append_right _ hmem) rfl) he₁
      refine ih howned₁ (hadded.tended (Nat.lt_succ_self _) htended) ?_ hs
      rcases hdescriptors with hsame | ⟨fd, hfd, hmore⟩
      · rw [hsame]
        exact hrest
      · rw [hmore]
        refine (List.perm_middle.nodup_iff).mpr (List.nodup_cons.mpr ⟨fun hmem ↦ ?_, hrest⟩)
        exact hapart fd (Option.mem_toList.mpr hfd) fd hmem rfl

/-- Only the sockets of the connections are left. -/
theorem Owned.deactivate (h : e.Owned lost) (hs : e.deactivate = .ok e') : e'.Owned lost := by
  rw [Egress.deactivate] at hs
  dsimp only [bind, Except.bind] at hs
  split at hs
  · cases hs
  cases hs
  have hall := h.perm.nodup_iff.mp h.nodup
  rw [sockets, List.append_assoc] at hall
  obtain ⟨-, -, hapart⟩ := List.nodup_append.mp hall
  refine ⟨h.nodup.filter _, ?_⟩
  refine (h.perm.filter _).trans ?_
  rw [sockets, List.append_assoc, List.filter_append]
  have hlisteners : (e.listeners.filterMap (·.sock)).filter
      (fun fd ↦ decide (fd ∉ e.listeners.filterMap (·.sock))) = [] := by
    refine List.filter_eq_nil_iff.mpr fun fd hfd ↦ ?_
    simpa using hfd
  have hothers : (e.conns.filterMap (·.conn.sock) ++ lost).filter
      (fun fd ↦ decide (fd ∉ e.listeners.filterMap (·.sock))) =
        e.conns.filterMap (·.conn.sock) ++ lost := by
    refine List.filter_eq_self.mpr fun fd hfd ↦ decide_eq_true fun hmem ↦ ?_
    exact hapart fd hmem fd hfd rfl
  rw [hlisteners, hothers]
  exact List.Perm.refl _

/-- **The step lemma.** -/
theorem Owned.step {a : Act} (hheld : e.Held none) (hattended : e.Attended none)
    (h : e.Owned lost) (ha : e.Distinct a) (hs : e.step cfg a = .ok e') :
    e'.Owned (lost ++ e.loses a) := by
  have htake : ∀ s : Scheduler Ev, Owned lost { e with sched := s } := fun _ ↦ ⟨h.nodup, h.perm⟩
  have hnone : e.loses a = [] → e'.Owned lost → e'.Owned (lost ++ e.loses a) := by
    intro hnil howned
    rwa [hnil, List.append_nil]
  cases effect hs with
  | skip hnot =>
    refine hnone ?_ h
    cases a with
    | notify i io =>
      cases i with
      | listenFd n => exact if_neg fun hboth ↦ hnot _ io rfl hboth.1
      | _ => rfl
    | _ => rfl
  | @activate now info binds _ _ hs =>
    cases info with
    | error x => cases hs
    | ok info =>
      obtain ⟨e₁, he₁, rfl⟩ := map_ok hs
      exact hnone rfl ((listen_owned h hheld ha he₁).congr rfl (.refl _))
  | deactivate hs => exact hnone rfl (h.deactivate hs)
  | busy hs => exact hnone rfl (h.flush hs)
  | poll => exact hnone rfl (htake _)
  | flush hwhich _ _ hs =>
    refine hnone ?_ ((htake _).flush hs)
    rcases hwhich with rfl | rfl <;> rfl
  | @accept l io p _ hp hi hl hs =>
    rcases (htake (e.sched.take p (.listenFd l.id))).accept hheld.ids hl ha hs with
      ⟨hstale, howned⟩ | ⟨fd, known, hstale, hdecisive, howned⟩
    · refine hnone (if_neg fun hboth ↦ ?_) howned
      rw [hstale] at hboth
      cases hboth.2
    · rw [loses, if_pos ⟨⟨p, hp, hi⟩, hstale⟩, hdecisive]
      exact howned
  | @rebind l io p _ _ _ hl hs =>
    exact hnone rfl ((htake (e.sched.take p (.rbev l.id))).rebind hheld.ids hl ha hs).1
  | conn =>
    refine hnone rfl ?_
    rcases notify_conn hs with ⟨-, rfl⟩ | ⟨p, c, -, hi, hc, rfl, hs⟩
    · exact h
    · exact (htake _).handled (hattended.takeConn hheld.wf hi) hc hs

/-- **The egress holds the descriptors of its listeners and connections**, each for one of them, and
besides these only those of the connections that it has accepted while `errno` was out of date. -/
theorem descriptors_owned {start : TimePoint}
    (h : Run.Reach (Run.recorded (step cfg) loses) (fun s a ↦ s.1.Distinct a)
      (init cfg start, []) (e, lost)) :
    e.descriptors.Nodup ∧ e.descriptors.Perm
      (e.listeners.filterMap (·.sock) ++ e.conns.filterMap (·.conn.sock) ++ lost) := by
  have hall := h.invariant
    (I := fun s ↦ s.1.Held none ∧ s.1.Attended none ∧ s.1.Owned s.2)
    ⟨held_init cfg start, attended_init cfg start, owned_init cfg start⟩ fun s a s' hI ha hs ↦ by
      obtain ⟨hstep, hlost⟩ := Run.recorded_ok hs
      rw [hlost]
      exact ⟨(hI.1.step hstep).1, hI.2.1.step hI.1 hstep, hI.2.2.step hI.1 hI.2.1 ha hstep⟩
  exact ⟨hall.2.2.nodup, hall.2.2.perm⟩

instance (e : Egress S) : DecidablePred e.Distinct
  | .activate _ _ binds => inferInstanceAs (Decidable
      (binds.filterMap Bind.opened ++ e.descriptors).Nodup)
  | .notify (.rbev _) io => inferInstanceAs (Decidable (∀ fd ∈ io.bind.opened, fd ∉ e.descriptors))
  | .notify (.listenFd _) io =>
    match hdecisive : decisive io.accepts with
    | some (.accepted fd known) => decidable_of_iff (fd ∉ e.descriptors) (by
        refine ⟨fun hfree fd' known' heq ↦ ?_, fun hall ↦ hall fd known hdecisive⟩
        rw [hdecisive] at heq
        cases heq
        exact hfree)
    | some (.failed _) | none => .isTrue fun fd' known' heq ↦ by
        rw [hdecisive] at heq
        cases heq
  | .notify .idev _ | .notify .flusher _ | .notify (.connFd _) _ | .deactivate | .busy _
  | .poll .. => .isTrue trivial

/-- A third peer comes when a poll has been interrupted. -/
theorem descriptors_owned_three : ∃ (e : Egress Unit) (lost : List Nat),
    e.conns.map (fun c ↦ (c.id, c.conn.sock)) = [(2, some 8)] ∧ lost = [9] ∧
    e.descriptors.Nodup ∧ e.descriptors.Perm
      (e.listeners.filterMap (·.sock) ++ e.conns.filterMap (·.conn.sock) ++ lost) := by
  have hrun : Run.Checks (Run.recorded (step oneMinute) loses) (fun s a ↦ s.1.Distinct a)
      (init oneMinute 0, []) (callers ++ [.notify (.connFd 2) { recv := .bytes [0] },
        .notify .idev {}, .poll 5 [.descriptor (.listenFd 0) { epollin := true }],
        .notify (.listenFd 0) { errno := .intr, accepts := [.accepted 9 true] }])
      fun s ↦ s.1.conns.map (fun c ↦ (c.id, c.conn.sock)) = [(2, some 8)] ∧
        s.2 = [9] := by decide +kernel
  obtain ⟨⟨e, lost⟩, hreach, hconns, hlost⟩ := hrun.reach
  exact ⟨e, lost, hconns, hlost, descriptors_owned hreach⟩

end Egress
end TcpEgress
end UdpTun
