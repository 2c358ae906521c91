import UdpTun.TcpEgress.Connections
import Mathlib.Data.List.Induction

/-!
# What the clients of an egress are given

A `Connection` keeps a client state for each client id that it has had a message of, until `flush`
finds that it has not been used for a while.  The record of a run has the messages that are
delivered, each with its connection, and the calls of `flush`.  From it, `stateOf` works out the
state that a client of a connection should have, as if it was the only one there is: made for the
first message, given that one and the next ones, and dropped when it has expired.

`states_by_record` says that in every run each client has the state that it should.  What becomes of
it does not depend on other clients or connections, nor on how the events are interleaved.
`lasts_while_used` says when that is, for states that know when they were last used: a state lasts
for the time that is configured, and one that is there has been used within that time of each
`flush` since.
-/

set_option autoImplicit false

namespace UdpTun
namespace Connection

variable {S : Type} {ops : ClientOps S} {c : Connection S}

/-! ## One connection

The client states of a connection are looked at one at a time.  A message of another client leaves a
state as it is. -/

/-- What a message makes of the state of a client. -/
def given (ops : ClientOps S) (k : Nat) (s : Option S) (m : Message) : Option S :=
  if m.clid = k then some (ops.deliver (s.getD (ops.make k)) m.label m.payload) else s

theorem processLoop_clstats {fuel : Nat} {r : List Message × Connection S}
    (h : processLoop ops fuel c = .ok r) (k : Nat) :
    r.2.clstats.get? k = r.1.foldl (given ops k) (c.clstats.get? k) := by
  induction fuel generalizing c r with
  | zero => cases h
  | succ fuel ih =>
    rw [processLoop] at h
    split at h
    · cases h
      rfl
    · rename_i m c₁ hprocess
      obtain ⟨r₁, hr₁, rfl⟩ := map_ok h
      obtain ⟨-, -, -, -, hclstats⟩ := process_some ops hprocess
      rw [ih hr₁, hclstats, OrdMap.get?_modify, List.foldl_cons, given]
      congr 1
      by_cases hk : m.clid = k
      · rw [if_pos hk, if_pos hk.symm, hk]
      · rw [if_neg hk, if_neg (Ne.symm hk)]

/-- **Each client is given its own messages.** -/
theorem handleFd_clstats {rc : Recv} {r : List Message × Connection S × Bool}
    (h : handleFd ops c rc = .ok r) (k : Nat) :
    r.2.1.clstats.get? k = r.1.foldl (given ops k) (c.clstats.get? k) := by
  rw [handleFd] at h
  split at h
  · cases h
  split at h
  · cases h
    rfl
  dsimp only at h
  split at h
  · cases h
    rfl
  split at h
  · obtain ⟨r₁, hr₁, rfl⟩ := map_ok h
    exact processLoop_clstats hr₁ k
  · cases h

end Connection

namespace TcpEgress

/-- Something that there is to say of the clients of an egress. -/
inductive Happening
  /-- A message is delivered on a connection. -/
  | message (n : Nat) (now : TimePoint) (m : Message)
  | flushed (now : TimePoint)
  deriving DecidableEq

/-- When it happens. -/
def Happening.time : Happening → TimePoint
  | .message _ now _ => now
  | .flushed now => now

namespace Egress

variable {S : Type} {cfg : Config S} {e e' : Egress S} {a : Act} {log : List Happening}

/-! ## Client states

Two kinds are used: any, with functions that are not known, and those that know the time at which
they were last used. -/

/-- The settings of an egress, and what there is to its client states besides the times of their
last uses. -/
structure Outlets (S : Type) extends Settings where
  make : TimePoint → Nat → S
  /-- A datagram is sent to the outlets of its label. -/
  send : TimePoint → S → Nat → List UInt8 → S
  /-- There are any. -/
  known : Nat → Bool

/-- The client states, with the times of their last uses.  `deliver` returns at once if there are no
outlets. -/
def Outlets.config {S : Type} (o : Outlets S) : Config (S × TimePoint) where
  toSettings := o.toSettings
  ops now :=
    { make := fun clid ↦ (o.make now clid, now)
      deliver := fun s label base ↦
        if o.known label then (o.send now s.1 label base, now) else s }
  expired s epoch := decide (s.2 < epoch)

/-! ## The record

The record has two kinds of entries, messages and calls of `flush`, and says nothing of the order in
which events were collected. -/

/-- What happens when the handler of an event is called. -/
def handles (cfg : Config S) (e : Egress S) (io : Io) : Ev → List Happening
  | .idev => [.flushed io.now]
  | .flusher => [.flushed io.now]
  | .connFd n =>
    match e.conns.find? (·.id = n) with
    | none => []
    | some c =>
      match Connection.handleFd (cfg.ops io.now) c.conn io.recv with
      | .error _ => []
      | .ok out => out.1.map (.message n io.now)
  | _ => []

/-- What happens in a step. -/
def happens (cfg : Config S) (e : Egress S) : Act → List Happening
  | .busy now => [.flushed now]
  | .notify i io => if e.Next i then e.handles cfg io i else []
  | _ => []

/-- What becomes of the state of client `k` of connection `n`. -/
def stateAfter (cfg : Config S) (n k : Nat) (s : Option S) : Happening → Option S
  | .message n' now m => if n' = n then Connection.given (cfg.ops now) k s m else s
  | .flushed now => s.filter fun s ↦ !cfg.expired s (now - cfg.clientTimeout)

/-- **The state that a client should have**, by the record. -/
def stateOf (cfg : Config S) (n k : Nat) (log : List Happening) : Option S :=
  log.foldl (stateAfter cfg n k) none

theorem stateOf_append (n k : Nat) (log log' : List Happening) :
    stateOf cfg n k (log ++ log') = log'.foldl (stateAfter cfg n k) (stateOf cfg n k log) :=
  List.foldl_append

theorem foldl_message (n k : Nat) (now : TimePoint) (ms : List Message) (s : Option S) :
    (ms.map (.message n now)).foldl (stateAfter cfg n k) s =
      ms.foldl (Connection.given (cfg.ops now) k) s := by
  rw [List.foldl_map]
  simp only [stateAfter, if_true]

/-- Other connections make no difference. -/
theorem foldl_message_of_ne {n n' : Nat} (h : n' ≠ n) (k : Nat) (now : TimePoint)
    (ms : List Message) (s : Option S) :
    (ms.map (.message n' now)).foldl (stateAfter cfg n k) s = s := by
  rw [List.foldl_map]
  simp only [stateAfter, if_neg h]
  exact List.foldl_fixed ms

/-- There is no state before there is a connection. -/
theorem stateOf_eq_none {n : Nat} (h : ∀ n' now m, .message n' now m ∈ log → n' < n) (k : Nat) :
    stateOf cfg n k log = none := by
  induction log using List.reverseRecOn with
  | nil => rfl
  | append_singleton log x ih =>
    rw [stateOf_append, ih fun n' now m hmem ↦ h n' now m (List.mem_append_left _ hmem)]
    cases x with
    | message n' now m => exact if_neg (h n' now m (by simp)).ne
    | flushed now => rfl

/-! ## What a step does to the connections

For each step it is said together what becomes of the connections and what goes into the record. -/

/-- A connection has been accepted on a socket, and comes last. -/
structure Admitted (fd : Nat) (e e' : Egress S) : Prop where
  conns : e'.conns = e.conns ++ [⟨e.nextId, .create fd (List.replicate sizeofBuf 0)
    List.length_replicate⟩]
  next : e'.nextId = e.nextId + 1

theorem conns_of_accept {l : Listener} {now : TimePoint} {errno : Errno} {accepts : List Accept}
    (hs : acceptLoop l now errno accepts e = .ok e') :
    (∃ fd, .accepted fd true ∈ accepts ∧ Admitted fd e e') ∨
      e'.conns = e.conns ∧ e'.nextId = e.nextId := by
  rcases acceptLoop_cases hs with hfailed | ⟨e₁, hnext, he₁⟩
  · exact .inr (acceptFailed_aside hfailed).2
  · obtain ⟨-, hconns, hid⟩ := acceptNext_aside hnext
    rcases he₁ with rfl | ⟨fd, known, hdecisive, ⟨-, rfl⟩ | ⟨rfl, hadd⟩⟩
    · exact .inr ⟨hconns, hid⟩
    · exact .inr ⟨hconns, hid⟩
    · obtain ⟨t, -, rfl⟩ := addConn_cases hadd
      exact .inl ⟨fd, List.mem_of_find?_eq_some hdecisive, hconns, hid⟩

/-- **What becomes of the connections**, and what is recorded: one is handled, or they are flushed,
or one is added, or they stay. -/
inductive Touches (cfg : Config S) (e : Egress S) (a : Act) (e' : Egress S) : Prop
  | handled {c : Conn S} {now : TimePoint} {out : List Message × Connection S × Bool} {rc : Recv}
      (hc : c ∈ e.conns) (hout : Connection.handleFd (cfg.ops now) c.conn rc = .ok out)
      (hconns : e'.conns = (e.setConn c.id out.2.1).conns) (hnext : e'.nextId = e.nextId)
      (hhappens : e.happens cfg a = out.1.map (.message c.id now))
  | flushed {now : TimePoint} (hconns : e'.conns = (e.conns.filter (!connFlushable ·)).map
        (connFlush cfg (now - cfg.clientTimeout))) (hnext : e'.nextId = e.nextId)
      (hhappens : e.happens cfg a = [.flushed now])
  | added {n fd : Nat} {io : Io} (ha : a = .notify (.listenFd n) io)
      (haccept : .accepted fd true ∈ io.accepts) (h : Admitted fd e e')
      (hhappens : e.happens cfg a = [])
  | same (hconns : e'.conns = e.conns) (hnext : e.nextId ≤ e'.nextId)
      (hhappens : e.happens cfg a = [])

theorem touches_of_flush {now : TimePoint} (h : e.flush cfg now = .ok e')
    (hhappens : e.happens cfg a = [.flushed now]) : Touches cfg e a e' := by
  obtain ⟨t, -, hconns, -, -, hnext⟩ := flush_cases h
  exact .flushed hconns hnext hhappens

/-- The first connection of its number is handled. -/
theorem touches_of_conn {n : Nat} {io : Io} (h : e.step cfg (.notify (.connFd n) io) = .ok e')
    (hnext : e.Next (.connFd n)) : Touches cfg e (.notify (.connFd n) io) e' := by
  rw [step] at h
  split at h
  · rename_i hnone
    obtain ⟨p, hp, -⟩ := hnext
    rw [hnone] at hp
    cases hp
  rename_i p hp
  split at h
  · rw [handle] at h
    split at h
    · cases h
    rename_i c hfind
    obtain ⟨hc, hid⟩ := find_conn hfind
    have hhappens : ∀ out, Connection.handleFd (cfg.ops io.now) c.conn io.recv = .ok out →
        e.happens cfg (.notify (.connFd n) io) = out.1.map (.message c.id io.now) := by
      intro out hout
      have hfind' : e.conns.find? (·.id = n) = some c := hfind
      rw [happens, if_pos hnext, handles, hfind', hid]
      dsimp only
      rw [hout]
    obtain ⟨fd, ms, conn, t, -, ⟨hout, -, rfl⟩ | ⟨hout, -, rfl⟩⟩ := connHandleFd_cases h
    · exact .handled hc hout rfl rfl (hhappens _ hout)
    · exact .handled hc hout rfl rfl (hhappens _ hout)
  · rename_i hnot
    obtain ⟨p', hp', hi⟩ := hnext
    rw [hp] at hp'
    cases hp'
    exact absurd hi hnot

theorem touches (hs : e.step cfg a = .ok e') : Touches cfg e a e' := by
  cases effect hs with
  | skip hnot hbusy =>
    refine .same rfl le_rfl ?_
    cases a with
    | busy now => exact absurd rfl (hbusy now)
    | notify i io => exact if_neg (hnot i io rfl)
    | _ => rfl
  | activate _ hs =>
    obtain ⟨-, hconns, hnext⟩ := activate_aside hs
    exact .same hconns hnext rfl
  | deactivate hs =>
    obtain ⟨-, hconns, hnext⟩ := deactivate_aside hs
    exact .same hconns hnext rfl
  | busy hs => exact touches_of_flush hs rfl
  | poll _ => exact .same rfl le_rfl rfl
  | flush hwhich hp hi hs =>
    obtain ⟨t, -, hconns, -, -, hnext⟩ := flush_cases hs
    refine .flushed hconns hnext ?_
    rw [happens, if_pos ⟨_, hp, hi⟩]
    rcases hwhich with rfl | rfl <;> rfl
  | @accept l io p _ hp hi _ hs =>
    have hhappens : e.happens cfg (.notify (.listenFd l.id) io) = [] := by
      rw [happens, if_pos ⟨p, hp, hi⟩]
      rfl
    rcases conns_of_accept hs with ⟨fd, haccept, hconns, hnext⟩ | ⟨hconns, hnext⟩
    · exact .added rfl haccept ⟨hconns, hnext⟩ hhappens
    · exact .same hconns hnext.ge hhappens
  | @rebind l io p _ hp hi _ hs =>
    obtain ⟨-, hconns, hnext⟩ := rebind_aside hs
    refine .same hconns hnext.ge ?_
    rw [happens, if_pos ⟨p, hp, hi⟩]
    rfl
  | conn hp hi _ => exact touches_of_conn hs ⟨_, hp, hi⟩

/-! ## The invariant

The states that are there are those that follow from the record.  For a number that has not been
given yet there is nothing in it. -/

/-- Each client has the state that it should have, and there is nothing in the record of connections
that are still to come. -/
structure Recorded (cfg : Config S) (e : Egress S) (log : List Happening) : Prop where
  below : ∀ c ∈ e.conns, c.id < e.nextId
  past : ∀ n now m, .message n now m ∈ log → n < e.nextId
  states : ∀ c ∈ e.conns, ∀ k, c.conn.clstats.get? k = stateOf cfg c.id k log

theorem recorded_init (cfg : Config S) (start : TimePoint) : Recorded cfg (init cfg start) [] :=
  ⟨fun c hc ↦ absurd hc (List.not_mem_nil (a := c)),
    fun _ _ _ hm ↦ absurd hm List.not_mem_nil, fun c hc ↦ absurd hc (List.not_mem_nil (a := c))⟩

/-- A connection is handled. -/
theorem Recorded.handled (h : Recorded cfg e log) {c : Conn S} {now : TimePoint} {rc : Recv}
    {out : List Message × Connection S × Bool} (hc : c ∈ e.conns)
    (hout : Connection.handleFd (cfg.ops now) c.conn rc = .ok out)
    (hconns : e'.conns = (e.setConn c.id out.2.1).conns) (hnext : e'.nextId = e.nextId) :
    Recorded cfg e' (log ++ out.1.map (.message c.id now)) := by
  refine ⟨fun d hd ↦ ?_, fun n now' m hm ↦ ?_, fun d hd k ↦ ?_⟩
  · rw [hconns] at hd
    obtain ⟨d₀, hd₀, rfl⟩ := mem_setConn.mp hd
    rw [hnext]
    split <;> exact h.below d₀ hd₀
  · rw [hnext]
    rcases List.mem_append.mp hm with hm | hm
    · exact h.past n now' m hm
    · obtain ⟨m', -, heq⟩ := List.mem_map.mp hm
      cases heq
      exact h.below c hc
  · rw [hconns] at hd
    obtain ⟨d₀, hd₀, rfl⟩ := mem_setConn.mp hd
    rw [stateOf_append]
    by_cases hid : d₀.id = c.id
    · rw [if_pos hid]
      dsimp only
      rw [hid, foldl_message, ← h.states c hc]
      exact Connection.handleFd_clstats hout k
    · rw [if_neg hid, foldl_message_of_ne (Ne.symm hid)]
      exact h.states d₀ hd₀ k

/-- The expired states are dropped. -/
theorem Recorded.flushed (h : Recorded cfg e log) {now : TimePoint}
    (hconns : e'.conns = (e.conns.filter (!connFlushable ·)).map
      (connFlush cfg (now - cfg.clientTimeout))) (hnext : e'.nextId = e.nextId) :
    Recorded cfg e' (log ++ [.flushed now]) := by
  have hmem : ∀ d ∈ e'.conns, ∃ c ∈ e.conns,
      d = connFlush cfg (now - cfg.clientTimeout) c := by
    intro d hd
    rw [hconns] at hd
    obtain ⟨c, hc, rfl⟩ := List.mem_map.mp hd
    exact ⟨c, List.mem_of_mem_filter hc, rfl⟩
  refine ⟨fun d hd ↦ ?_, fun n now' m hm ↦ ?_, fun d hd k ↦ ?_⟩
  · obtain ⟨c, hc, rfl⟩ := hmem d hd
    rw [hnext]
    exact h.below c hc
  · rw [hnext]
    exact h.past n now' m (by simpa using hm)
  · obtain ⟨c, hc, rfl⟩ := hmem d hd
    rw [stateOf_append, connFlush]
    dsimp only
    rw [OrdMap.get?_filter, h.states c hc]
    rfl

/-- **The step lemma.** -/
theorem Recorded.step (h : Recorded cfg e log) (hs : e.step cfg a = .ok e') :
    Recorded cfg e' (log ++ e.happens cfg a) := by
  cases touches hs with
  | handled hc hout hconns hnext hhappens =>
    rw [hhappens]
    exact h.handled hc hout hconns hnext
  | flushed hconns hnext hhappens =>
    rw [hhappens]
    exact h.flushed hconns hnext
  | added _ _ hadmitted hhappens =>
    obtain ⟨hconns, hnext⟩ := hadmitted
    rw [hhappens, List.append_nil]
    refine ⟨fun c hc ↦ ?_, fun n now m hm ↦ ?_, fun c hc k ↦ ?_⟩
    · rw [hnext]
      rw [hconns] at hc
      rcases List.mem_append.mp hc with hc | hc
      · exact (h.below c hc).trans (Nat.lt_succ_self _)
      · rw [List.mem_singleton.mp hc]
        exact Nat.lt_succ_self _
    · rw [hnext]
      exact (h.past n now m hm).trans (Nat.lt_succ_self _)
    · rw [hconns] at hc
      rcases List.mem_append.mp hc with hc | hc
      · exact h.states c hc k
      · -- nothing has been delivered on the new connection
        rw [List.mem_singleton.mp hc, stateOf_eq_none h.past]
        rfl
  | same hconns hnext hhappens =>
    rw [hhappens, List.append_nil]
    refine ⟨fun c hc ↦ ?_, fun n now m hm ↦ (h.past n now m hm).trans_le hnext, fun c hc ↦ ?_⟩
    · exact (h.below c (hconns ▸ hc)).trans_le hnext
    · exact h.states c (hconns ▸ hc)

theorem recorded_of_reach {start : TimePoint}
    (h : Run.Reach (Run.recorded (step cfg) (happens cfg)) Run.anyStep (init cfg start, [])
      (e, log)) : Recorded cfg e log := by
  refine h.invariant (I := fun s ↦ Recorded cfg s.1 s.2) (recorded_init cfg start)
    fun s a t hs _ hstep ↦ ?_
  obtain ⟨hstep, hlog⟩ := Run.recorded_ok hstep
  rw [hlog]
  exact hs.step hstep

/-- **Each client has the state that it should.**  In every run, and for each connection, the state
of a client is what the messages that have been delivered on that connection with that id have made
of it since the first one, or since it was last found expired; and there is no other. -/
theorem states_by_record {start : TimePoint}
    (h : Run.Reach (Run.recorded (step cfg) (happens cfg)) Run.anyStep (init cfg start, [])
      (e, log)) {c : Conn S} (hc : c ∈ e.conns) (k : Nat) :
    c.conn.clstats.get? k = stateOf cfg c.id k log :=
  (recorded_of_reach h).states c hc k

/-- Client states that remember what they have been given.  There are outlets for one label. -/
def remembering : Outlets (List (List UInt8)) where
  name := "in"
  clientTimeout := seconds 60
  make _ _ := []
  send _ s _ base := s ++ [base]
  known label := label = 7

/-- Two clients send a datagram each, on one connection, and one of them sends another later on.
Then `flush` is called. -/
def oneStays : List Act :=
  knock ++ [.notify (.listenFd 0) { accepts := [.accepted 7 true] },
    .poll 2 [.descriptor (.connFd 1) { epollin := true }],
    .notify (.connFd 1) { now := 2, recv := .bytes [0, 3, 0, 7, 0, 1, 1, 0, 4, 0, 7, 0, 1, 2] },
    .busy (seconds 30), .poll (seconds 50) [.descriptor (.connFd 1) { epollin := true }],
    .notify (.connFd 1) { now := seconds 50, recv := .bytes [0, 3, 0, 7, 0, 1, 5] },
    .busy (seconds 70)]

/-- What becomes of the clients. -/
def OneStays (s : Egress (List (List UInt8) × TimePoint) × List Happening) : Prop :=
  s.1.conns.map (·.conn.clstats.get? 3) = [some ([[1], [5]], seconds 50)] ∧
    s.1.conns.map (fun c ↦ (c.conn.clstats.get? 4).isSome) = [false] ∧
      s.2.Pairwise fun x y ↦ x.time ≤ y.time

instance : DecidablePred OneStays := fun _ ↦ inferInstanceAs (Decidable (_ ∧ _))

theorem oneStays_checks : Run.Checks
    (Run.recorded (step remembering.config) (happens remembering.config)) Run.anyStep
      (init remembering.config 0, []) oneStays OneStays := by decide +kernel

theorem states_by_record_two : ∃ e log, OneStays (e, log) ∧ ∀ c ∈ e.conns, ∀ k,
    c.conn.clstats.get? k = stateOf remembering.config c.id k log := by
  obtain ⟨⟨e, log⟩, hreach, hstays⟩ := oneStays_checks.reach
  exact ⟨e, log, hstays, fun c hc k ↦ states_by_record hreach hc k⟩

/-! ## Last uses

The record has the times of what happens, so what is shown of states by the record can be turned
into what is shown by the clock. -/

/-- What a message makes of a state has been used just now, or as the state was. -/
theorem given_config (o : Outlets S) (now : TimePoint) (k : Nat) (s : Option (S × TimePoint))
    (m : Message) :
    (m.clid ≠ k ∧ Connection.given (o.config.ops now) k s m = s) ∨
      m.clid = k ∧ ∃ s', Connection.given (o.config.ops now) k s m =
        some s' ∧ (s'.2 = now ∨ o.known m.label = false ∧ s = some s') := by
  rw [Connection.given]
  by_cases hk : m.clid = k
  · rw [if_pos hk]
    refine .inr ⟨hk, _, rfl, ?_⟩
    dsimp only [Outlets.config]
    split
    · exact .inl rfl
    · rename_i hunknown
      cases s with
      | none => exact .inl rfl
      | some s => exact .inr ⟨by simpa using hunknown, rfl⟩
  · exact .inl ⟨hk, if_neg hk⟩

/-- A state that is still there was used by some message, and no flush since has come too late. -/
theorem used_of_stateOf {o : Outlets S} {n k : Nat} {s : S × TimePoint}
    (h : stateOf o.config n k log = some s) :
    ∃ l m l', log = l ++ .message n s.2 m :: l' ∧ m.clid = k ∧
      ∀ f, .flushed f ∈ l' → f - o.clientTimeout ≤ s.2 := by
  induction log using List.reverseRecOn generalizing s with
  | nil => cases h
  | append_singleton log x ih =>
    rw [stateOf_append, List.foldl_cons, List.foldl_nil] at h
    -- the same message, if the state is as it was
    have hsame : stateOf o.config n k log = some s →
        (∀ f, x = .flushed f → f - o.clientTimeout ≤ s.2) → ∃ l m l', log ++ [x] =
          l ++ .message n s.2 m :: l' ∧ m.clid = k ∧
            ∀ f, .flushed f ∈ l' → f - o.clientTimeout ≤ s.2 := by
      intro hs hx
      obtain ⟨l, m, l', rfl, hk, hflush⟩ := ih hs
      refine ⟨l, m, l' ++ [x], by simp, hk, fun f hf ↦ ?_⟩
      rcases List.mem_append.mp hf with hf | hf
      · exact hflush f hf
      · exact hx f (List.mem_singleton.mp hf).symm
    cases x with
    | message n' now m =>
      rw [stateAfter] at h
      split at h
      · rename_i hn
        obtain ⟨-, hgiven⟩ | ⟨hk, s', hgiven, hused⟩ := given_config o now k
          (stateOf o.config n k log) m
        · rw [hgiven] at h
          exact hsame h fun _ heq ↦ by cases heq
        · rw [hgiven] at h
          obtain rfl := Option.some.inj h
          rcases hused with rfl | ⟨-, hs⟩
          · rw [hn]
            exact ⟨log, m, [], rfl, hk, fun _ hf ↦ by cases hf⟩
          · exact hsame hs fun _ heq ↦ by cases heq
      · exact hsame h fun _ heq ↦ by cases heq
    | flushed f =>
      obtain ⟨hs, hexpired⟩ := Option.filter_eq_some_iff.mp h
      refine hsame hs fun f' heq ↦ ?_
      cases heq
      simpa [Outlets.config] using hexpired

/-- A state that has been used is there as long as no flush comes too late, if the clock does not go
back. -/
theorem stateOf_of_used (o : Outlets S) {n k : Nat} {now : TimePoint} {m : Message}
    {l l' : List Happening}
    (hk : m.clid = k) (hknown : o.known m.label)
    (hclock : ∀ x ∈ l', now ≤ x.time) (hflush : ∀ f, .flushed f ∈ l' → f - o.clientTimeout ≤ now) :
    ∃ s, stateOf o.config n k (l ++ .message n now m :: l') = some s ∧
      now ≤ s.2 := by
  induction l' using List.reverseRecOn with
  | nil =>
    rw [stateOf_append, List.foldl_cons, List.foldl_nil, stateAfter, if_pos rfl]
    obtain ⟨hne, -⟩ | ⟨-, s', hgiven, hused | ⟨hunknown, -⟩⟩ := given_config o now k
      (stateOf o.config n k l) m
    · exact absurd hk hne
    · exact ⟨s', hgiven, hused.ge⟩
    · rw [hknown] at hunknown
      cases hunknown
  | append_singleton l' x ih =>
    obtain ⟨s, hs, hle⟩ := ih (fun y hy ↦ hclock y (List.mem_append_left _ hy))
      fun f hf ↦ hflush f (List.mem_append_left _ hf)
    have hx : now ≤ x.time := hclock x (by simp)
    rw [← List.cons_append, ← List.append_assoc, stateOf_append, hs, List.foldl_cons,
      List.foldl_nil]
    cases x with
    | message n' now' m' =>
      rw [stateAfter]
      split
      · obtain ⟨-, hgiven⟩ | ⟨-, s', hgiven, hused⟩ := given_config o now' k (some s)
          m'
        · exact ⟨s, hgiven, hle⟩
        · refine ⟨s', hgiven, ?_⟩
          rcases hused with heq | ⟨-, heq⟩
          · rw [heq]
            exact hx
          · cases heq
            exact hle
      · exact ⟨s, rfl, hle⟩
    | flushed f =>
      have hearly := hflush f (by simp)
      refine ⟨s, ?_, hle⟩
      rw [stateAfter, Option.filter_some, if_pos]
      simpa [Outlets.config] using hearly.trans hle

/-- **Client states last while they are used, and no longer.**  In every run in which the clock does
not go back: the state of a client is still there if a message of it was sent to some outlet, and no
flush since has come later than the time that is configured; and if it is still there, then there
was a message of it such that no flush since has. -/
theorem lasts_while_used {o : Outlets S} {start : TimePoint} {e : Egress (S × TimePoint)}
    (h : Run.Reach (Run.recorded (step o.config)
      (happens o.config)) Run.anyStep
        (init o.config start, []) (e, log))
    (hclock : log.Pairwise fun x y ↦ x.time ≤ y.time) {c : Conn (S × TimePoint)}
    (hc : c ∈ e.conns) (k : Nat) :
    (∀ l now m l', log = l ++ .message c.id now m :: l' → m.clid = k → o.known m.label →
        (∀ f, .flushed f ∈ l' → f - o.clientTimeout ≤ now) → (c.conn.clstats.get? k).isSome) ∧
      ((c.conn.clstats.get? k).isSome → ∃ l now m l', log = l ++ .message c.id now m :: l' ∧
        m.clid = k ∧ ∀ f, .flushed f ∈ l' → f - o.clientTimeout ≤ now) := by
  rw [(recorded_of_reach h).states c hc k]
  constructor
  · rintro l now m l' rfl hk hknown hflush
    have hlater : ∀ x ∈ l', now ≤ x.time :=
      (List.pairwise_cons.mp (List.pairwise_append.mp hclock).2.1).1
    obtain ⟨s, hs, -⟩ := stateOf_of_used o (n := c.id) (l := l) hk hknown hlater hflush
    rw [hs]
    rfl
  · intro hsome
    obtain ⟨s, hs⟩ := Option.isSome_iff_exists.mp hsome
    obtain ⟨l, m, l', hlog, hk, hflush⟩ := used_of_stateOf hs
    exact ⟨l, s.2, m, l', hlog, hk, hflush⟩

theorem lasts_while_used_two : ∃ e log, OneStays (e, log) ∧ ∀ c ∈ e.conns, ∀ k,
    (∀ l now m l', log = l ++ .message c.id now m :: l' → m.clid = k →
        remembering.known m.label → (∀ f, .flushed f ∈ l' → f - seconds 60 ≤ now) →
          (c.conn.clstats.get? k).isSome) ∧
      ((c.conn.clstats.get? k).isSome → ∃ l now m l', log = l ++ .message c.id now m :: l' ∧
        m.clid = k ∧ ∀ f, .flushed f ∈ l' → f - seconds 60 ≤ now) := by
  obtain ⟨⟨e, log⟩, hreach, hstays⟩ := oneStays_checks.reach
  exact ⟨e, log, hstays, fun c hc k ↦ lasts_while_used hreach hstays.2.2 hc k⟩

end Egress
end TcpEgress
end UdpTun
