import UdpTun.TcpEgress.Listeners

/-!
# Accepting connections

`Listener::handle_fd` looks at the outcome of `accept` in two `switch` statements.  The first is on
the error, if there is one; it calls `accept` again, or gives up the listening socket, or goes on.
The second is to leave out the connection when there has been an error that is to be ignored, but it
is on `errno`.  That is the error only if there has been one: after a success it is what an earlier
call has left there, such as an `epoll_pwait` that was interrupted.

`Settles` is what should become of the outcome: a connection for a peer that is known, a descriptor
that is closed again for one that is not, and nothing for an error.  `accept_settles_iff` says when
it does.  The listener is left `Listening` or waiting in all cases.
-/

set_option autoImplicit false

namespace UdpTun
namespace TcpEgress

namespace Accept

/-- `accept` is called again. -/
def again : Accept → Bool
  | .accepted .. => false
  | .failed ec => ec.again

end Accept

theorem Errno.waits_of_again {ec : Errno} (h : ec.again) : ec.waits = false := by
  cases ec <;> simp_all [Errno.again, Errno.waits]

/-- The outcome that ends the loop. -/
def decisive (accepts : List Accept) : Option Accept := accepts.find? (!·.again)

/-- The first call succeeds while `errno` is still one of the errors that are ignored. -/
def stale (errno : Errno) : List Accept → Bool
  | .accepted .. :: _ => errno.waits
  | _ => false

namespace Egress

variable {S : Type} {cfg : Config S} {e e' : Egress S} {l : Listener} {n : Nat}

/-! ## What should become of it

The outcome that counts is the last one, since for those before it `accept` is called again.  What
is to be true then is put in terms of the connections and of the descriptors that are open. -/

/-- A known peer has a connection, and there is no trace of any other. -/
def Settles (e e' : Egress S) : Option Accept → Prop
  | some (.accepted fd true) => ∃ c, e'.conns = e.conns ++ [c] ∧ c.conn.sock = some fd ∧
      e'.descriptors = fd :: e.descriptors
  | some (.accepted _ false) => e'.conns = e.conns ∧ e'.descriptors = e.descriptors
  | some (.failed _) => e'.conns = e.conns
  | none => False

/-- The listener is open and its descriptor is watched, or it is closed and will be bound again. -/
def Listening (e : Egress S) (n : Nat) : Prop := ∃ l ∈ e.listeners, l.id = n ∧
  ((∃ fd, l.sock = some fd ∧ (e.sched.event (.listenFd n)).fd = some fd ∧
      (e.sched.event (.listenFd n)).expected.epollin) ∨
    l.sock = none ∧ (e.sched.event (.rbev n)).isSet)

/-- The assertion holds, and whenever `handle_fd` returns all is as it should be. -/
def Accepts (e : Egress S) (n : Nat) (accepts : List Accept) (r : Except Halt (Egress S)) : Prop :=
  r ≠ .error (.assertion .acceptSock) ∧
    ∀ e', r = .ok e' → Settles e e' (decisive accepts) ∧ e'.Listening n

/-! ## What `handle_fd` does

The loop is reduced to the outcome that ends it, and to the question of which error the second
`switch` looks at. -/

/-- A descriptor is dealt with if the second `switch` looks at the right error. -/
theorem establish_accepted (e : Egress S) (errno : Errno) (fd : Nat) (known : Bool) :
    { e with descriptors := fd :: e.descriptors }.establish errno (some fd) known =
      if errno.waits then .ok { e with descriptors := fd :: e.descriptors }
      else if known then { e with descriptors := fd :: e.descriptors }.addConn fd
      else .ok e := by
  rw [establish]
  dsimp only
  split
  · rfl
  split
  · rfl
  · rw [List.erase_cons_head]

/-- **The loop comes down to one outcome.**  The induction is on the outcomes of `accept`. -/
theorem acceptLoop_eq (l : Listener) (now : TimePoint) (errno : Errno) (accepts : List Accept)
    (e : Egress S) : acceptLoop l now errno accepts e =
      match decisive accepts with
      | none => .error .unfinished
      | some (.accepted fd known) =>
        (if stale errno accepts then .ok { e with descriptors := fd :: e.descriptors }
        else if known then { e with descriptors := fd :: e.descriptors }.addConn fd
        else .ok e) >>= fun e ↦ e.acceptNext l
      | some (.failed ec) => if ec.waits then e.acceptNext l else e.acceptFailed l now := by
  induction accepts generalizing errno with
  | nil => rfl
  | cons a accepts ih =>
    cases a with
    | accepted fd known =>
      rw [acceptLoop, establish_accepted]
      rfl
    | failed ec =>
      rw [acceptLoop]
      by_cases hagain : ec.again
      · -- what comes next is not taken for a failure, since this one is not ignored
        have hstale : stale ec accepts = false := by
          unfold stale
          split
          · exact Errno.waits_of_again hagain
          · rfl
        rw [if_pos hagain, ih, hstale]
        simp only [decisive, List.find?_cons, Accept.again, hagain, stale]
        rfl
      · rw [if_neg hagain]
        simp only [decisive, List.find?_cons, Accept.again, hagain, Bool.not_false]
        split
        · rename_i hwaits
          rw [establish, if_pos hwaits]
          rfl
        · rfl

/-- A listener whose socket is readable. -/
structure Readable (e : Egress S) (l : Listener) : Prop where
  wf : e.sched.WF
  mem : l ∈ e.listeners
  fd : (e.sched.event (.listenFd l.id)).fd = l.sock
  sock : l.sock ≠ none

theorem Readable.next (h : e.Readable l) :
    ∃ s, e.acceptNext l = .ok { e with sched := s } ∧ Listening { e with sched := s } l.id := by
  obtain ⟨fd, hsock⟩ := Option.ne_none_iff_exists'.mp h.sock
  obtain ⟨s, hs⟩ := h.wf.descrSet_again (h.fd.trans hsock) listeningEvents
  have hevent := (Scheduler.changes_descrSet hs).event_self
  refine ⟨s, ?_, l, h.mem, rfl, .inl ⟨fd, hsock, ?_, ?_⟩⟩
  · rw [acceptNext, hsock]
    dsimp only
    rw [hs]
    rfl
  · rw [hevent]
    rfl
  · rw [hevent]
    rfl

theorem Readable.failed (h : e.Readable l) (now : TimePoint) :
    ∃ e', e.acceptFailed l now = .ok e' ∧ e'.conns = e.conns ∧ e'.Listening l.id := by
  obtain ⟨s, hs⟩ := h.wf.descrCancel_total (.listenFd l.id)
  have hevent := (Scheduler.changes_timedSet s (.rbev l.id) (now + seconds 30)).event_self
  rw [acceptFailed, hs]
  refine ⟨_, rfl, rfl, { l with sock := none }, ?_, rfl, .inr ⟨rfl, ?_⟩⟩
  · exact mem_setSock.mpr ⟨l, h.mem, by rw [if_pos rfl]⟩
  · exact congrArg EventState.isSet hevent

theorem addConn_throws {fd : Nat} {x : Halt} (h : e.addConn fd = .error x) : x.Throws := by
  rw [addConn] at h
  dsimp only [bind, Except.bind] at h
  split at h
  · cases h
    exact Scheduler.descrSet_throws ‹_›
  · cases h

/-- A listener stays readable when a connection is added. -/
theorem Readable.addConn {fd : Nat} (h : e.Readable l)
    (hs : { e with descriptors := fd :: e.descriptors }.addConn fd = .ok e') : e'.Readable l := by
  have hapart := addConn_apart hs
  refine ⟨hapart.elsewhere.wf h.wf, ?_, ?_, h.sock⟩
  · rw [hapart.listeners]
    exact h.mem
  · rw [hapart.elsewhere.event _ l.id rfl nofun]
    exact h.fd

/-- The wrong error is looked at only after a first call that succeeds. -/
theorem decisive_of_stale {errno : Errno} {accepts : List Accept} (h : stale errno accepts = true) :
    ∃ fd known, decisive accepts = some (.accepted fd known) := by
  unfold stale at h
  split at h
  · exact ⟨_, _, rfl⟩
  · cases h

theorem accepts_ok {accepts : List Accept} (hsettles : Settles e e' (decisive accepts))
    (hlistening : e'.Listening n) : e.Accepts n accepts (.ok e') := by
  refine ⟨nofun, fun e'' he'' ↦ ?_⟩
  cases he''
  exact ⟨hsettles, hlistening⟩

/-- When the wrong error is looked at, the descriptor is left open, and has no owner. -/
theorem Readable.leaks (h : e.Readable l) {fd : Nat} {known : Bool} {accepts : List Accept}
    (hdecisive : decisive accepts = some (.accepted fd known)) :
    ¬ e.Accepts l.id accepts ({ e with descriptors := fd :: e.descriptors }.acceptNext l) := by
  rintro ⟨-, hall⟩
  have hreadable : Readable { e with descriptors := fd :: e.descriptors } l :=
    ⟨h.wf, h.mem, h.fd, h.sock⟩
  obtain ⟨s, hs, -⟩ := hreadable.next
  have hsettles := (hall _ hs).1
  rw [hdecisive] at hsettles
  cases known with
  | true =>
    obtain ⟨c, hconns, -⟩ := hsettles
    simpa using congrArg List.length hconns
  | false => simpa using congrArg List.length hsettles.2

/-- An error leaves no connection. -/
theorem Readable.accepts_failed (h : e.Readable l) (now : TimePoint) {ec : Errno}
    {accepts : List Accept} (hdecisive : decisive accepts = some (.failed ec)) :
    e.Accepts l.id accepts (if ec.waits then e.acceptNext l else e.acceptFailed l now) := by
  split
  · obtain ⟨s, hs, hlistening⟩ := h.next
    rw [hs]
    exact accepts_ok (by rw [hdecisive]; rfl) hlistening
  · obtain ⟨e₁, he₁, hconns, hlistening⟩ := h.failed now
    rw [he₁]
    exact accepts_ok (by rw [hdecisive]; exact hconns) hlistening

/-- A descriptor that is dealt with has an owner, or is closed. -/
theorem Readable.accepts_accepted (h : e.Readable l) {fd : Nat} {known : Bool}
    {accepts : List Accept} (hdecisive : decisive accepts = some (.accepted fd known)) :
    e.Accepts l.id accepts
      ((if known then { e with descriptors := fd :: e.descriptors }.addConn fd else .ok e) >>=
        fun e ↦ e.acceptNext l) := by
  cases known with
  | true =>
    rw [if_pos rfl]
    cases hadd : { e with descriptors := fd :: e.descriptors }.addConn fd with
    | error x =>
      obtain ⟨thrown, rfl⟩ := addConn_throws hadd
      refine ⟨fun heq ↦ ?_, nofun⟩
      cases heq
    | ok e₁ =>
      obtain ⟨s, hs, hlistening⟩ := (h.addConn hadd).next
      obtain ⟨s', c, -, rfl, hsock⟩ := addConn_ok hadd
      dsimp only [bind, Except.bind]
      rw [hs]
      exact accepts_ok (by rw [hdecisive]; exact ⟨c, rfl, hsock, rfl⟩) hlistening
  | false =>
    rw [if_neg Bool.false_ne_true]
    obtain ⟨s, hs, hlistening⟩ := h.next
    dsimp only [bind, Except.bind]
    rw [hs]
    exact accepts_ok (by rw [hdecisive]; exact ⟨rfl, rfl⟩) hlistening

/-- **`handle_fd` does what it should** exactly when the second `switch` looks at the right
error. -/
theorem Readable.accepts_iff (h : e.Readable l) (now : TimePoint) (errno : Errno)
    (accepts : List Accept) :
    e.Accepts l.id accepts (acceptLoop l now errno accepts e) ↔ stale errno accepts = false := by
  rw [acceptLoop_eq]
  cases hstale : stale errno accepts with
  | true =>
    obtain ⟨fd, known, hdecisive⟩ := decisive_of_stale hstale
    rw [hdecisive]
    exact iff_of_false (h.leaks hdecisive) nofun
  | false =>
    refine iff_of_true ?_ rfl
    cases hdecisive : decisive accepts with
    | none => exact ⟨nofun, nofun⟩
    | some a =>
      cases a with
      | failed ec => exact h.accepts_failed now hdecisive
      | accepted fd known => exact h.accepts_accepted hdecisive

/-! ## Runs

In a run the value of `errno` before the call is anything that earlier calls may have left. -/

theorem held_init (cfg : Config S) (now : TimePoint) : (init cfg now).Held none :=
  (kept_init cfg now).held

theorem held_of_reach {start : TimePoint}
    (h : Run.Reach (step cfg) Run.anyStep (init cfg start) e) : e.Held none :=
  h.invariant (held_init cfg start) fun _ _ _ hheld _ hs ↦ (hheld.step hs).1

/-- A listener is only notified of its descriptor while it has one. -/
theorem Held.readable {p : Nat} (h : e.Held none) (hl : l ∈ e.listeners)
    (hi : .listenFd l.id ∈ e.sched.queues.bucket p) :
    Readable { e with sched := e.sched.take p (.listenFd l.id) } l := by
  have hcalled := h.called hi rfl hl
  refine ⟨(Scheduler.changes_take hi).wf h.wf, hl, hcalled.fd, ?_⟩
  rcases (h.fits l hl nofun).state with ⟨hsock, -⟩ | ⟨-, happl, -⟩
  · exact hsock
  · exact absurd happl (queued_of_mem h.wf hi)

theorem Held.accepts_iff (h : e.Held none) (hl : l ∈ e.listeners) (hnext : e.Next (.listenFd l.id))
    (io : Io) : e.Accepts l.id io.accepts (Egress.step cfg e (.notify (.listenFd l.id) io)) ↔
      stale io.errno io.accepts = false := by
  obtain ⟨p, hp, hi⟩ := hnext
  have hfind : e.listeners.find? (·.id = l.id) = some l := by
    cases hfound : e.listeners.find? (·.id = l.id) with
    | none => exact absurd (decide_eq_true rfl) (List.find?_eq_none.mp hfound l hl)
    | some l' =>
      obtain ⟨hl', hid⟩ := find_listener hfound
      rw [h.same hl' hl hid]
  have hstep : Egress.step cfg e (.notify (.listenFd l.id) io) =
      acceptLoop l io.now io.errno io.accepts
        { e with sched := e.sched.take p (.listenFd l.id) } := by
    rw [Egress.step, Option.mem_def.mp hp]
    dsimp only
    rw [if_pos hi, handle]
    dsimp only
    rw [hfind]
  rw [hstep]
  exact (h.readable hl hi).accepts_iff io.now io.errno io.accepts

/-- **What becomes of a connection that is accepted**, in any state reached and whatever `errno` has
been left at: all is as it should be, unless the first call of `accept` succeeds while `errno` is
one of the errors that are ignored. -/
theorem accept_settles_iff {start : TimePoint}
    (h : Run.Reach (step cfg) Run.anyStep (init cfg start) e) (hl : l ∈ e.listeners)
    (hnext : e.Next (.listenFd l.id)) (io : Io) :
    e.Accepts l.id io.accepts (e.step cfg (.notify (.listenFd l.id) io)) ↔
      stale io.errno io.accepts = false :=
  (held_of_reach h).accepts_iff hl hnext io

/-- A listener is opened, and then there is a connection. -/
def knock : List Act :=
  [.activate 0 (.ok [anyAddress]) [⟨some 4, true, true⟩],
    .poll 1 [.descriptor (.listenFd 0) { epollin := true }]]

/-- An error that is tried again, and then a known peer. -/
theorem accept_settles_iff_two : ∃ e : Egress Unit,
    Run.Reach (step oneMinute) Run.anyStep (init oneMinute 0) e ∧ e.Accepts 0
      [.failed .netdown, .accepted 7 true] (e.step oneMinute (.notify (.listenFd 0)
        { errno := .intr, accepts := [.failed .netdown, .accepted 7 true] })) := by
  have hrun : Run.Checks (step oneMinute) Run.anyStep (init oneMinute 0) knock fun e ↦
      e.Next (.listenFd 0) ∧ ∃ l ∈ e.listeners, l.id = 0 := by decide +kernel
  obtain ⟨e, hreach, hnext, l, hl, hid⟩ := hrun.reach
  rw [← hid] at hnext ⊢
  exact ⟨e, hreach, (accept_settles_iff hreach hl hnext _).mpr rfl⟩

/-- A poll has been interrupted, and the next one finds a connection.  Its descriptor is neither
owned nor closed, whether the peer is known or not. -/
theorem stale_errno_leaks : ¬ ∀ (e : Egress Unit),
    Run.Reach (step oneMinute) Run.anyStep (init oneMinute 0) e → ∀ l ∈ e.listeners,
      e.Next (.listenFd l.id) → ∀ io : Io,
        e.Accepts l.id io.accepts (e.step oneMinute (.notify (.listenFd l.id) io)) := by
  intro hall
  have hrun : Run.Checks (step oneMinute) Run.anyStep (init oneMinute 0) knock fun e ↦
      e.Next (.listenFd 0) ∧ ∃ l ∈ e.listeners, l.id = 0 := by decide +kernel
  obtain ⟨e, hreach, hnext, l, hl, hid⟩ := hrun.reach
  rw [← hid] at hnext
  have haccepts := hall e hreach l hl hnext { errno := .intr, accepts := [.accepted 7 true] }
  cases ((held_of_reach hreach).accepts_iff hl hnext _).mp haccepts

end Egress
end TcpEgress
end UdpTun
