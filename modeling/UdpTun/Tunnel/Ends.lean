import UdpTun.TcpEgress.Histories
import UdpTun.Tunnel

/-!
# The tunnel, with the egress at its far end

`Tunnel` takes the far end for a family of connections that have nothing to do with one another.
Here it is an `Egress`: its connections share a scheduler with its listeners, are accepted by these,
are dropped by `flush` when they are closed, and lose their client states from time to time; and
there may be any number of strangers among them, which are not of this near end.

`Ends` keeps a record of the connections that are.  `Ends.refines` says that in every run these do
what a `Tunnel` does, so what is true of the messages of a tunnel is true of those that the egress
has delivered: `Ends.relayed_at_most_once` and `Ends.relayed_exactly`, under the same conditions on
the near end (`Books.Steady`).  The record is by connection (`Ends.delivered`), and so are the
results: messages are in order on each connection, while the egress may take a later connection
before an earlier one.

* `Matches` is the relation between both ends and a tunnel, and `Matches.step` its step lemma.
* `Agree.handleFd` is why the client states can be left out.
-/

set_option autoImplicit false

namespace UdpTun

open TcpIngress (Books Wire)
open TcpEgress (Egress Conn Ev Accept)

/-! ## What a connection does without its clients

The tunnel has no use for client states.  The messages that a connection delivers are the same with
any. -/

namespace Connection

variable {S : Type} {ops : ClientOps S} {c d : Connection S}

/-- The same socket and the same buffer. -/
structure Agree (c d : Connection S) : Prop where
  sock : c.sock = d.sock
  rx : c.rx = d.rx

theorem Agree.process (h : Agree c d) (ops' : ClientOps S) {m : Message} {c' : Connection S}
    (hc : process ops c = some (m, c')) : ∃ d', process ops' d = some (m, d') ∧ Agree c' d' := by
  rw [Connection.process] at hc
  rw [Connection.process, ← h.rx]
  split at hc
  · cases hc
  · cases hc
    exact ⟨_, rfl, h.sock, rfl⟩

/-- The induction is on the fuel, which is the same for both. -/
theorem Agree.processLoop (h : Agree c d) (ops' : ClientOps S) {fuel : Nat}
    {r : List Message × Connection S} (hc : processLoop ops fuel c = .ok r) :
    ∃ d', processLoop ops' fuel d = .ok (r.1, d') ∧ Agree r.2 d' := by
  induction fuel generalizing c d r with
  | zero => cases hc
  | succ fuel ih =>
    rw [Connection.processLoop] at hc
    rw [Connection.processLoop]
    split at hc
    · rename_i hnone
      cases hc
      have hd : Connection.process ops' d = none := by
        rw [Connection.process, ← h.rx, process_none ops hnone]
      rw [hd]
      exact ⟨d, rfl, h⟩
    · rename_i m c₁ hsome
      obtain ⟨r₁, hr₁, rfl⟩ := map_ok hc
      obtain ⟨d₁, hd₁, hagree⟩ := h.process ops' hsome
      obtain ⟨d', hd', hagree'⟩ := ih hagree hr₁
      rw [hd₁]
      dsimp only
      rw [hd']
      exact ⟨d', rfl, hagree'⟩

/-- **What is delivered does not depend on the client states**, nor on what they do with it. -/
theorem Agree.handleFd (h : Agree c d) (ops' : ClientOps S) {rc : Recv}
    {r : List Message × Connection S × Bool} (hc : handleFd ops c rc = .ok r) :
    ∃ d', handleFd ops' d rc = .ok (r.1, d', r.2.2) ∧ Agree r.2.1 d' := by
  rw [Connection.handleFd] at hc
  rw [Connection.handleFd, ← h.sock, ← h.rx]
  split at hc
  · cases hc
  rename_i fd hfd
  split at hc
  · cases hc
    exact ⟨_, rfl, rfl, rfl⟩
  dsimp only
  split at hc
  · cases hc
    rw [if_pos ‹_›]
    exact ⟨_, rfl, rfl, rfl⟩
  rw [if_neg ‹_›]
  split at hc
  · rename_i hroom
    rw [dif_pos hroom]
    obtain ⟨r₁, hr₁, rfl⟩ := map_ok hc
    have hagree : Agree { c with fdev := true, sock := some fd, rx := c.rx.append _ hroom }
        { d with fdev := true, sock := some fd, rx := c.rx.append _ hroom } := ⟨rfl, rfl⟩
    obtain ⟨d', hd', hagree'⟩ := hagree.processLoop ops' hr₁
    rw [hd']
    exact ⟨d', rfl, hagree'⟩
  · cases hc

end Connection

/-! ## Both ends

Which connection of the egress belongs to which of the near end is in the record, along with what
has come in and what has been delivered. -/

/-- What there is to say of a connection that the egress has accepted from this near end. -/
structure Heard where
  /-- What has come in on it. -/
  received : List UInt8
  /-- What has been delivered of it. -/
  delivered : List Message

/-- Both ends, and a record of the connections between them. -/
structure Ends (C S : Type) where
  near : Books C
  egress : Egress S
  /-- Which of the near end's connections each connection of the egress is, if it is one. -/
  wireOf : Nat → Option Nat
  /-- The connections of the near end, as far as they have been accepted. -/
  heard : Nat → Option Heard

namespace Ends

open Connection (Agree)
open Tunnel (came of)

variable {C S : Type} [DecidableEq C] {cfg : TcpIngress.Config C} {ecfg : TcpEgress.Config S}
  {r r' : Ends C S} {ok : Books C → TcpIngress.World.Act C → Prop}

/-- What happens next. -/
inductive Act (C : Type)
  | near (a : TcpIngress.World.Act C)
  /-- Something happens to the egress.  If it accepts a connection, `i` is which one of the near
  end's it is, if it is not a stranger's. -/
  | far (a : Egress.Act) (i : Option Nat)

def init (cfg : TcpIngress.Config C) (ecfg : TcpEgress.Config S) (maxMem : C → Nat)
    (now : TimePoint) : Ends C S :=
  ⟨.init cfg maxMem, .init ecfg now, fun _ ↦ none, fun _ ↦ none⟩

/-- The handler of a connection is called: its number, what `recv` gives, and what is delivered. -/
def hears (ecfg : TcpEgress.Config S) (e : Egress S) :
    Egress.Act → Option (Nat × Recv × List Message)
  | .notify (.connFd n) io =>
    if e.Next (.connFd n) then
      (e.conns.find? (·.id = n)).bind fun c ↦
        match Connection.handleFd (ecfg.ops io.now) c.conn io.recv with
        | .error _ => none
        | .ok out => some (n, io.recv, out.1)
    else none
  | _ => none

/-- More has come in on a connection. -/
def hear (r : Ends C S) (n : Nat) (rc : Recv) (ms : List Message) : Ends C S :=
  match r.wireOf n with
  | none => r
  | some w =>
    match r.heard w with
    | none => r
    | some h => { r with
        heard := Function.update r.heard w (some ⟨h.received ++ came rc, h.delivered ++ ms⟩) }

/-- A connection has been accepted. -/
def accepted (r : Ends C S) (n : Nat) : Option Nat → Ends C S
  | none => r
  | some i => { r with
      wireOf := Function.update r.wireOf n (some i)
      heard := Function.update r.heard i (some ⟨[], []⟩) }

/-- The record of what the egress has done. -/
def note (ecfg : TcpEgress.Config S) (r : Ends C S) (a : Egress.Act) (i : Option Nat)
    (egress : Egress S) : Ends C S :=
  match hears ecfg r.egress a with
  | some (n, rc, ms) => { r.hear n rc ms with egress }
  | none =>
    if r.egress.conns.length < egress.conns.length then
      { r.accepted r.egress.nextId i with egress }
    else { r with egress }

omit [DecidableEq C] in
/-- The record of the egress is no business of the near end. -/
theorem note_near (ecfg : TcpEgress.Config S) (r : Ends C S) (a : Egress.Act) (i : Option Nat)
    (egress : Egress S) : (r.note ecfg a i egress).near = r.near := by
  rw [note]
  split
  · dsimp only
    rw [hear]
    split
    · rfl
    · split <;> rfl
  · split
    · cases i <;> rfl
    · rfl

def step (cfg : TcpIngress.Config C) (ecfg : TcpEgress.Config S) (r : Ends C S) :
    Act C → Except Halt (Ends C S)
  | .near a => (r.near.step cfg a).map fun near ↦ { r with near }
  | .far a i => (r.egress.step ecfg a).map (r.note ecfg a i)

/-- What happens at the near end is allowed.  A connection of the near end is accepted once, if it
has been made, and what comes in on it is what was sent. -/
def Proper (ok : Books C → TcpIngress.World.Act C → Prop) (ecfg : TcpEgress.Config S)
    (r : Ends C S) : Act C → Prop
  | .near a => ok r.near a
  | .far a i =>
    (∀ w ∈ i, (∃ x, r.near.world.wire w = some x) ∧ r.heard w = none) ∧
    ∀ n rc ms, hears ecfg r.egress a = some (n, rc, ms) → ∀ w, r.wireOf n = some w →
      ∀ h, r.heard w = some h → ∃ x, r.near.world.wire w = some x ∧
        h.received ++ came rc <+: x.bytes

/-- What has been delivered of a connection. -/
def messages (r : Ends C S) (i : Nat) : List Message :=
  match r.heard i with
  | none => []
  | some h => h.delivered

/-- What has been delivered, connection by connection, in the order in which the near end has made
them. -/
def delivered (r : Ends C S) : List Message :=
  (List.range r.near.world.wires.length).flatMap r.messages

/-! ## What a step does to the connections

All that matters of a step of the egress is which connection is handled, and whether there is a new
one.  What `flush` drops has been closed. -/

section egress

variable {e e' : Egress S} {a : Egress.Act}

/-- What is left of the connections when none has been added, and none handled. -/
structure Thinned (e e' : Egress S) : Prop where
  length : e'.conns.length ≤ e.conns.length
  mem : ∀ c' ∈ e'.conns, ∃ c ∈ e.conns, c.id = c'.id ∧ Agree c'.conn c.conn
  next : e.nextId ≤ e'.nextId

theorem thinned_of_eq (hconns : e'.conns = e.conns) (hnext : e.nextId ≤ e'.nextId) :
    Thinned e e' := by
  refine ⟨(congrArg List.length hconns).le, fun c hc ↦ ?_, hnext⟩
  rw [hconns] at hc
  exact ⟨c, hc, rfl, rfl, rfl⟩

theorem thinned_of_flush {now : TimePoint} (hs : e.flush ecfg now = .ok e') : Thinned e e' := by
  obtain ⟨t, -, hconns, -, -, hnext⟩ := Egress.flush_cases hs
  refine ⟨?_, fun c' hc' ↦ ?_, hnext.ge⟩
  · rw [hconns, List.length_map]
    exact List.length_filter_le ..
  · rw [hconns] at hc'
    obtain ⟨c, hc, rfl⟩ := List.mem_map.mp hc'
    exact ⟨c, List.mem_of_mem_filter hc, rfl, rfl, rfl⟩

/-- **What becomes of the connections**: one is handled, or one is added, or some may go. -/
theorem conns_of_step (hs : e.step ecfg a = .ok e') :
    (∃ n io p c, a = .notify (.connFd n) io ∧ e.Next (.connFd n) ∧ c ∈ e.conns ∧ c.id = n ∧
        Egress.connHandleFd ecfg { e with sched := e.sched.take p (.connFd n) } c io = .ok e') ∨
      hears ecfg e a = none ∧ ((∃ fd, Egress.Admitted fd e e') ∨ Thinned e e') := by
  have hsame : Thinned e e := thinned_of_eq rfl le_rfl
  cases Egress.effect hs with
  | skip hnot =>
    refine .inr ⟨?_, .inr hsame⟩
    cases a with
    | notify i io =>
      cases i with
      | connFd n => exact if_neg (hnot _ io rfl)
      | _ => rfl
    | _ => rfl
  | activate _ hs =>
    obtain ⟨-, hconns, hnext⟩ := Egress.activate_aside hs
    exact .inr ⟨rfl, .inr (thinned_of_eq hconns hnext)⟩
  | deactivate hs =>
    obtain ⟨-, hconns, hnext⟩ := Egress.deactivate_aside hs
    exact .inr ⟨rfl, .inr (thinned_of_eq hconns hnext)⟩
  | busy hs => exact .inr ⟨rfl, .inr (thinned_of_flush hs)⟩
  | poll _ => exact .inr ⟨rfl, .inr (thinned_of_eq rfl le_rfl)⟩
  | flush hwhich _ _ hs =>
    obtain ⟨hlength, hmem, hnext⟩ := thinned_of_flush hs
    refine .inr ⟨?_, .inr ⟨hlength, hmem, hnext⟩⟩
    rcases hwhich with rfl | rfl <;> rfl
  | accept _ _ _ hs =>
    refine .inr ⟨rfl, ?_⟩
    rcases Egress.conns_of_accept hs with ⟨fd, -, hconns, hnext⟩ | ⟨hconns, hnext⟩
    · exact .inl ⟨fd, hconns, hnext⟩
    · exact .inr (thinned_of_eq hconns hnext.ge)
  | rebind _ _ _ hs =>
    obtain ⟨-, hconns, hnext⟩ := Egress.rebind_aside hs
    exact .inr ⟨rfl, .inr (thinned_of_eq hconns hnext.ge)⟩
  | conn =>
    rcases Egress.notify_conn hs with ⟨hnot, rfl⟩ | ⟨p, c, hp, hi, hc, hid, hs⟩
    · exact .inr ⟨if_neg hnot, .inr hsame⟩
    · exact .inl ⟨_, _, p, c, rfl, ⟨p, hp, hi⟩, hc, hid, hs⟩

/-- What is recorded of a connection that is handled. -/
theorem hears_handled {m : Option Nat} (h : e.Attended m) {n : Nat} {io : TcpEgress.Io}
    {c : Conn S} (hnext : e.Next (.connFd n)) (hc : c ∈ e.conns) (hid : c.id = n)
    {out : List Message × Connection S × Bool}
    (hout : Connection.handleFd (ecfg.ops io.now) c.conn io.recv = .ok out) :
    hears ecfg e (.notify (.connFd n) io) = some (n, io.recv, out.1) := by
  have hfind : e.conns.find? (·.id = n) = some c := by
    cases hfound : e.conns.find? (·.id = n) with
    | none => exact absurd (decide_eq_true hid) (List.find?_eq_none.mp hfound c hc)
    | some c' =>
      obtain ⟨hc', hid'⟩ := Egress.find_conn hfound
      rw [h.same hc' hc (hid'.trans hid.symm)]
  rw [hears, if_pos hnext, hfind, Option.bind_some, hout]

end egress

/-! ## Refinement

The tunnel has a connection for each one that is recorded.  A step of the egress is one of the
tunnel, or none. -/

/-- A tunnel does the same: its connections are those of the near end. -/
structure Matches (r : Ends C S) (t : Tunnel C S) : Prop where
  near : t.near = r.near
  held : r.egress.Held none
  attended : r.egress.Attended none
  below : ∀ n w, r.wireOf n = some w → n < r.egress.nextId
  apart : ∀ n n' w, r.wireOf n = some w → r.wireOf n' = some w → n = n'
  known : ∀ n w, r.wireOf n = some w → ∃ h, r.heard w = some h
  heard : ∀ w, r.heard w = (t.far w).map fun f ↦ ⟨f.received, f.session.delivered⟩
  conns : ∀ c ∈ r.egress.conns, ∀ w, r.wireOf c.id = some w →
    ∃ f, t.far w = some f ∧ Agree c.conn f.session.conn

variable {t : Tunnel C S}

theorem matches_init (cfg : TcpIngress.Config C) (ecfg : TcpEgress.Config S) (maxMem : C → Nat)
    (now : TimePoint) : Matches (init cfg ecfg maxMem now) (Tunnel.init cfg maxMem) where
  near := rfl
  held := Egress.held_init ecfg now
  attended := Egress.attended_init ecfg now
  below := nofun
  apart := nofun
  known := nofun
  heard := fun _ ↦ rfl
  conns := nofun

omit [DecidableEq C] in
/-- The connections change little. -/
theorem Matches.thinned (h : Matches r t) {egress : Egress S} (hheld : egress.Held none)
    (hattended : egress.Attended none) (hthinned : Thinned r.egress egress) :
    Matches { r with egress } t := by
  refine ⟨h.near, hheld, hattended, fun n w hw ↦ (h.below n w hw).trans_le hthinned.next, h.apart,
    h.known, h.heard, fun c' hc' w hw ↦ ?_⟩
  obtain ⟨c, hc, hid, hagree⟩ := hthinned.mem c' hc'
  obtain ⟨f, hf, hagree'⟩ := h.conns c hc w (hid ▸ hw)
  exact ⟨f, hf, hagree.sock.trans hagree'.sock, hagree.rx.trans hagree'.rx⟩

theorem length_freshBuf : (List.replicate sizeofBuf (0 : UInt8)).length = sizeofBuf :=
  List.length_replicate

/-- The buffer of a connection that has been accepted. -/
def freshBuf : { b : List UInt8 // b.length = sizeofBuf } :=
  ⟨List.replicate sizeofBuf 0, length_freshBuf⟩

/-- A connection is accepted, and so it is by the tunnel, if it is not a stranger's. -/
theorem Matches.admitted (h : Matches r t) {egress : Egress S} (hheld : egress.Held none)
    (hattended : egress.Attended none) {fd : Nat}
    (hadmitted : Egress.Admitted fd r.egress egress) (ops : ClientOps S) {i : Option Nat}
    (hi : ∀ w ∈ i, (∃ x, r.near.world.wire w = some x) ∧ r.heard w = none) :
    ∃ t', Run.Reach (Tunnel.step cfg ops) (Tunnel.Proper ok) t t' ∧
      Matches { r.accepted r.egress.nextId i with egress } t' := by
  obtain ⟨hconns, hnext⟩ := hadmitted
  have hmem : ∀ c ∈ egress.conns, c ∈ r.egress.conns ∨
      c.id = r.egress.nextId ∧ c.conn = .create fd freshBuf.1 freshBuf.2 := by
    intro c hc
    rw [hconns, List.mem_append, List.mem_singleton] at hc
    refine hc.imp_right ?_
    rintro rfl
    exact ⟨rfl, rfl⟩
  have hfresh : r.wireOf r.egress.nextId = none := by
    cases hw : r.wireOf r.egress.nextId with
    | none => rfl
    | some w => exact absurd (h.below _ w hw) (lt_irrefl _)
  cases i with
  | none =>
    -- a stranger
    refine ⟨t, .refl, h.near, hheld, hattended, fun n w hw ↦ (h.below n w hw).trans_le ?_, h.apart,
      h.known, h.heard, fun c hc w hw ↦ ?_⟩
    · rw [hnext]
      exact Nat.le_succ _
    · rcases hmem c hc with hc | ⟨hid, -⟩
      · exact h.conns c hc w hw
      · dsimp only [accepted] at hw
        rw [hid, hfresh] at hw
        cases hw
  | some i =>
    obtain ⟨⟨x, hx⟩, hnone⟩ := hi i rfl
    have hfar : t.far i = none := by
      have hheard := h.heard i
      rw [hnone] at hheard
      exact Option.map_eq_none_iff.mp hheard.symm
    refine ⟨t.setFar i ⟨[], [], .create fd freshBuf.1 freshBuf.2⟩,
      Run.Reach.refl.tail (a := .accept i fd freshBuf) ⟨x, by rw [h.near]; exact hx⟩ (by
        rw [Tunnel.step, hfar]), ?_⟩
    have hother : ∀ n w, r.wireOf n = some w → w ≠ i := by
      rintro n w hw rfl
      obtain ⟨d, hd⟩ := h.known n w hw
      rw [hnone] at hd
      cases hd
    have hcases : ∀ n w, Function.update r.wireOf r.egress.nextId (some i) n = some w →
        n = r.egress.nextId ∧ w = i ∨ n < r.egress.nextId ∧ w ≠ i ∧ r.wireOf n = some w := by
      intro n w hw
      by_cases hn : n = r.egress.nextId
      · subst hn
        rw [Function.update_self] at hw
        exact .inl ⟨rfl, (Option.some.inj hw).symm⟩
      · rw [Function.update_of_ne hn] at hw
        exact .inr ⟨h.below n w hw, hother n w hw, hw⟩
    refine ⟨h.near, hheld, hattended, fun n w hw ↦ ?_, fun n n' w hw hw' ↦ ?_, fun n w hw ↦ ?_,
      fun w ↦ ?_, fun c hc w hw ↦ ?_⟩
    · dsimp only
      rw [hnext]
      rcases hcases n w hw with ⟨rfl, -⟩ | ⟨hlt, -⟩ <;> omega
    · rcases hcases n w hw with ⟨rfl, rfl⟩ | ⟨-, hne, hold⟩ <;>
        rcases hcases n' _ hw' with ⟨hn', hw''⟩ | ⟨-, hne', hold'⟩
      · exact hn'.symm
      · exact absurd rfl hne'
      · exact absurd hw'' hne
      · exact h.apart n n' w hold hold'
    · dsimp only [accepted]
      rcases hcases n w hw with ⟨-, rfl⟩ | ⟨-, hne, hold⟩
      · exact ⟨_, Function.update_self ..⟩
      · rw [Function.update_of_ne hne]
        exact h.known n w hold
    · dsimp only [accepted, Tunnel.setFar]
      by_cases hw : w = i
      · subst hw
        rw [Function.update_self, Function.update_self]
        rfl
      · rw [Function.update_of_ne hw, Function.update_of_ne hw]
        exact h.heard w
    · dsimp only [Tunnel.setFar]
      rcases hcases c.id w hw with ⟨hid, rfl⟩ | ⟨hlt, hne, hold⟩
      · rcases hmem c hc with hc | ⟨-, hconn⟩
        · exact absurd hid (h.attended.below c hc).ne
        · exact ⟨_, Function.update_self .., by rw [hconn], by rw [hconn]⟩
      · rw [Function.update_of_ne hne]
        rcases hmem c hc with hc | ⟨hid, -⟩
        · exact h.conns c hc w hold
        · exact absurd hid hlt.ne

/-- A connection is handled, and so it is by the tunnel, if it is not a stranger's. -/
theorem Matches.handled (h : Matches r t) {egress : Egress S} (hheld : egress.Held none)
    (hattended : egress.Attended none) (ops : ClientOps S) {n p : Nat} {io : TcpEgress.Io}
    {c : Conn S} (hnext : r.egress.Next (.connFd n)) (hc : c ∈ r.egress.conns) (hid : c.id = n)
    (hs : Egress.connHandleFd ecfg
      { r.egress with sched := r.egress.sched.take p (.connFd n) } c io = .ok egress)
    (hproper : ∀ n' rc ms, hears ecfg r.egress (.notify (.connFd n) io) = some (n', rc, ms) →
      ∀ w, r.wireOf n' = some w → ∀ hd, r.heard w = some hd →
        ∃ x, r.near.world.wire w = some x ∧ hd.received ++ came rc <+: x.bytes) :
    ∃ ms, hears ecfg r.egress (.notify (.connFd n) io) = some (n, io.recv, ms) ∧
      ∃ t', Run.Reach (Tunnel.step cfg ops) (Tunnel.Proper ok) t t' ∧
        Matches { r.hear n io.recv ms with egress } t' := by
  subst hid
  have hout : ∃ out, Connection.handleFd (ecfg.ops io.now) c.conn io.recv = .ok out ∧
      egress.conns = (r.egress.setConn c.id out.2.1).conns ∧ egress.nextId = r.egress.nextId := by
    obtain ⟨fd, ms, conn, s, -, ⟨hout, -, rfl⟩ | ⟨hout, -, rfl⟩⟩ := Egress.connHandleFd_cases hs
    · exact ⟨_, hout, rfl, rfl⟩
    · exact ⟨_, hout, rfl, rfl⟩
  obtain ⟨⟨ms, conn, closed⟩, hout, hconns, hnextId⟩ := hout
  have hheard := hears_handled h.attended hnext hc rfl hout
  have hmem : ∀ c' ∈ egress.conns, c'.id = c.id ∧ c'.conn = conn ∨
      c'.id ≠ c.id ∧ c' ∈ r.egress.conns := by
    intro c' hc'
    rw [hconns] at hc'
    obtain ⟨d, hd, rfl⟩ := Egress.mem_setConn.mp hc'
    split
    · exact .inl ⟨‹_›, rfl⟩
    · exact .inr ⟨‹_›, hd⟩
  refine ⟨ms, hheard, ?_⟩
  cases hw : r.wireOf c.id with
  | none =>
    -- a stranger
    have hhear : r.hear c.id io.recv ms = r := by rw [hear, hw]
    rw [hhear]
    refine ⟨t, .refl, h.near, hheld, hattended, fun n w hw ↦ (h.below n w hw).trans_le hnextId.ge,
      h.apart, h.known, h.heard, fun c' hc' w hw' ↦ ?_⟩
    rcases hmem c' hc' with ⟨hid, -⟩ | ⟨-, hc'⟩
    · rw [hid, hw] at hw'
      cases hw'
    · exact h.conns c' hc' w hw'
  | some w =>
    obtain ⟨f, hf, hagree⟩ := h.conns c hc w hw
    have hd := h.heard w
    rw [hf, Option.map_some] at hd
    have hhear : r.hear c.id io.recv ms = { r with
        heard := Function.update r.heard w
          (some ⟨f.received ++ came io.recv, f.session.delivered ++ ms⟩) } := by
      rw [hear, hw]
      dsimp only
      rw [hd]
    obtain ⟨conn', hconn', hagree'⟩ := hagree.handleFd ops hout
    rw [hhear]
    refine ⟨t.setFar w ⟨f.received ++ came io.recv, f.session.delivered ++ ms, conn'⟩,
      Run.Reach.refl.tail (a := .recv w io.recv) (fun f' hf' ↦ ?_) (by
        rw [Tunnel.step, hf]
        dsimp only
        rw [hconn']
        rfl), ?_⟩
    · obtain rfl := Option.some.inj (hf.symm.trans hf')
      rw [h.near]
      exact hproper _ _ _ hheard w hw _ hd
    · refine ⟨h.near, hheld, hattended, fun n w hw ↦ (h.below n w hw).trans_le hnextId.ge,
        h.apart, fun n w' hw' ↦ ?_, fun w' ↦ ?_, fun c' hc' w' hw' ↦ ?_⟩
      · dsimp only
        by_cases hne : w' = w
        · rw [hne, Function.update_self]
          exact ⟨_, rfl⟩
        · rw [Function.update_of_ne hne]
          exact h.known n w' hw'
      · dsimp only [Tunnel.setFar]
        by_cases hne : w' = w
        · rw [hne, Function.update_self, Function.update_self]
          rfl
        · rw [Function.update_of_ne hne, Function.update_of_ne hne]
          exact h.heard w'
      · dsimp only [Tunnel.setFar]
        rcases hmem c' hc' with ⟨hid, hconn⟩ | ⟨hid, hc'⟩
        · rw [hid, hw] at hw'
          cases hw'
          exact ⟨_, Function.update_self .., hconn ▸ hagree'⟩
        · have hne : w' ≠ w := by
            rintro rfl
            exact hid (h.apart _ _ _ hw' hw)
          rw [Function.update_of_ne hne]
          exact h.conns c' hc' w' hw'

/-- **The step lemma**: what both ends do, a tunnel does. -/
theorem Matches.step (h : Matches r t) (ops : ClientOps S) {a : Act C}
    (ha : r.Proper ok ecfg a) (hs : r.step cfg ecfg a = .ok r') :
    ∃ t', Run.Reach (Tunnel.step cfg ops) (Tunnel.Proper ok) t t' ∧ Matches r' t' := by
  cases a with
  | near a =>
    obtain ⟨near, hnear, rfl⟩ := map_ok hs
    refine ⟨{ t with near }, Run.Reach.refl.tail (a := .near a) ?_ ?_, rfl, h.held, h.attended,
      h.below, h.apart, h.known, h.heard, h.conns⟩
    · rw [Tunnel.Proper, h.near]
      exact ha
    · rw [Tunnel.step, h.near, hnear]
      rfl
  | far a i =>
    obtain ⟨egress, hegress, rfl⟩ := map_ok hs
    have hheld := (h.held.step hegress).1
    have hattended := h.attended.step h.held hegress
    rcases conns_of_step hegress with ⟨n, io, p, c, rfl, hnext, hc, hid, hs⟩ | ⟨hnone, hconns⟩
    · obtain ⟨ms, hheard, t', ht', hmatches⟩ :=
        h.handled hheld hattended ops hnext hc hid hs ha.2
      rw [note, hheard]
      exact ⟨t', ht', hmatches⟩
    · rw [note, hnone]
      dsimp only
      rcases hconns with ⟨fd, hadmitted⟩ | hthinned
      · have hconns := hadmitted.conns
        rw [if_pos (by rw [hconns, List.length_append]; exact Nat.lt_succ_self _)]
        exact h.admitted hheld hattended hadmitted ops ha.1
      · rw [if_neg (not_lt.mpr hthinned.length)]
        exact ⟨t, .refl, h.thinned hheld hattended hthinned⟩

/-- **Both ends refine the tunnel.**  In every run the connections between them do what those of a
tunnel do. -/
theorem refines {maxMem : C → Nat} {now : TimePoint} (ops : ClientOps S)
    (h : Run.Reach (step cfg ecfg) (Proper ok ecfg) (init cfg ecfg maxMem now) r) :
    ∃ t, Run.Reach (Tunnel.step cfg ops) (Tunnel.Proper ok) (Tunnel.init cfg maxMem) t ∧
      Matches r t :=
  h.simulate (matches_init cfg ecfg maxMem now) fun _ _ _ _ hmatches ha hs ↦
    hmatches.step ops ha hs

omit [DecidableEq C] in
theorem Matches.messages (h : Matches r t) (i : Nat) : t.messages i = r.messages i := by
  rw [Ends.messages, h.heard, Tunnel.messages]
  cases t.far i <;> rfl

omit [DecidableEq C] in
theorem Matches.delivered (h : Matches r t) : t.delivered = r.delivered := by
  rw [Ends.delivered, Tunnel.delivered, h.near]
  exact List.flatMap_congr fun i _ ↦ h.messages i

omit [DecidableEq C] in
/-- What has come in at the egress has come in at the tunnel. -/
theorem Matches.received (h : Matches r t)
    (hcame : ∀ i x, r.near.world.wire i = some x →
      ∃ d, r.heard i = some d ∧ d.received = x.bytes) (i : Nat) (x : Wire C)
    (hx : t.near.world.wire i = some x) : ∃ f, t.far i = some f ∧ f.received = x.bytes := by
  rw [h.near] at hx
  obtain ⟨d, hd, hreceived⟩ := hcame i x hx
  rw [h.heard] at hd
  obtain ⟨f, hf, rfl⟩ := Option.map_eq_some_iff.mp hd
  exact ⟨f, hf, hreceived⟩

/-- **The egress delivers messages in order on each connection, and at most once on all of them.**
In every run of both ends in which the near end is on time and no peer hangs up in the middle of a
frame, each message that the egress has delivered of the near end's connections is of some channel,
and those of one channel, connection by connection, are a subsequence of what was submitted to
it. -/
theorem relayed_at_most_once (hsz : 2 ≤ cfg.szClid) {maxMem : C → Nat} {now : TimePoint}
    (h : Run.Reach (step cfg ecfg) (Proper (Books.Steady cfg) ecfg)
      (init cfg ecfg maxMem now) r) :
    ∃ l : List (C × Message), r.delivered = l.map Prod.snd ∧
      ∀ c, (of c l).Sublist ((r.near.submitted c).map (cfg.message c)) := by
  obtain ⟨t, ht, hmatches⟩ := refines (ecfg.ops now) h
  have hall := Tunnel.delivered_at_most_once hsz ht
  rwa [hmatches.delivered, hmatches.near] at hall

/-- **The egress delivers all that is submitted**, but for what is still in the queues, if besides
nothing is spilled to files and everything that has been sent has come in. -/
theorem relayed_exactly (hsz : 2 ≤ cfg.szClid) {maxMem : C → Nat} {now : TimePoint}
    (h : Run.Reach (step cfg ecfg) (Proper (fun s a ↦ s.Steady cfg a ∧ s.Fits cfg a) ecfg)
      (init cfg ecfg maxMem now) r)
    (hcame : ∀ i x, r.near.world.wire i = some x →
      ∃ d, r.heard i = some d ∧ d.received = x.bytes) :
    ∃ l : List (C × Message), r.delivered = l.map Prod.snd ∧
      ∀ c, of c l ++ (r.near.world.chan c).queue.queue.map (fun pl ↦ cfg.decoded (c, pl)) =
        (r.near.submitted c).map (cfg.message c) := by
  obtain ⟨t, ht, hmatches⟩ := refines (ecfg.ops now) h
  have hall := Tunnel.delivered_exactly hsz ht (hmatches.received hcame)
  rwa [hmatches.delivered, hmatches.near] at hall

/-! ## Two runs

They meet the conditions of the theorems.  In the first there is a stranger, and a connection is
lost. -/

/-- What is to be checked of an accepted connection. -/
def admits (r : Ends C S) : Option Nat → Bool
  | none => true
  | some w => (r.near.world.wire w).isSome && (r.heard w).isNone

/-- What is to be checked of what comes in. -/
def brings (r : Ends C S) : Option (Nat × Recv × List Message) → Bool
  | none => true
  | some (n, rc, _) =>
    match (r.wireOf n).bind fun w ↦ (r.heard w).map fun h ↦ (w, h) with
    | none => true
    | some (w, h) => (r.near.world.wire w).any fun x ↦ (h.received ++ came rc).isPrefixOf x.bytes

omit [DecidableEq C] in
theorem admits_iff (i : Option Nat) : r.admits i = true ↔
    ∀ w ∈ i, (∃ x, r.near.world.wire w = some x) ∧ r.heard w = none := by
  cases i with
  | none => simp [admits]
  | some w => simp [admits, Option.isSome_iff_exists]

omit [DecidableEq C] in
theorem brings_iff (o : Option (Nat × Recv × List Message)) : r.brings o = true ↔
    ∀ n rc ms, o = some (n, rc, ms) → ∀ w, r.wireOf n = some w → ∀ h, r.heard w = some h →
      ∃ x, r.near.world.wire w = some x ∧ h.received ++ came rc <+: x.bytes := by
  rcases o with _ | ⟨n, rc, ms⟩
  · simp [brings]
  · rw [brings]
    cases hw : r.wireOf n with
    | none => simp [hw]
    | some w =>
      cases hh : r.heard w with
      | none => simp [hw, hh]
      | some h => cases hx : r.near.world.wire w <;> simp [hw, hh, hx]

instance [∀ s, DecidablePred (ok s)] (r : Ends C S) : DecidablePred (r.Proper ok ecfg)
  | .near a => inferInstanceAs (Decidable (ok r.near a))
  | .far a i => decidable_of_iff (r.admits i = true ∧ r.brings (hears ecfg r.egress a) = true)
      (and_congr (admits_iff i) (brings_iff _))

instance (cfg : TcpIngress.Config C) (s : Books C) : DecidablePred (s.Steady cfg) := fun _ ↦
  inferInstanceAs (Decidable (_ ∧ _))

/-- The near end is cut off in the middle of a frame, and tries again. -/
def twoTries : List (TcpIngress.World.Act Unit) :=
  TcpIngress.World.firstSource ++ TcpIngress.World.firstConnection ++
    [.poll 2 false (some { epollout := true }),
      .notify .fdev { now := 2, sends := [.sent 3, .failed] }, .poll (seconds 32) false none,
      .notify .rstev {}, .lookupEnds 0 [⟨.inet, 6⟩], .poll (seconds 33) true none,
      .notify .sigev { connects := [⟨some 5, true, none, .connected⟩] },
      .poll (seconds 34) false (some { epollout := true }), .notify .fdev { sends := [.sent 7] }]

/-- The egress has a stranger on one connection.  It takes the other two, and `flush` is called when
the first of them is closed. -/
def bothAccepted : List (Egress.Act × Option Nat) :=
  (TcpEgress.Egress.knock.map fun a ↦ (a, none)) ++
    [(.notify (.listenFd 0) { accepts := [.accepted 7 true] }, none),
      (.poll 2 [.descriptor (.listenFd 0) { epollin := true },
        .descriptor (.connFd 1) { epollin := true }], none),
      (.notify (.connFd 1) { recv := .bytes [9, 9] }, none),
      (.notify (.listenFd 0) { accepts := [.accepted 8 true] }, some 0),
      (.poll 3 [.descriptor (.connFd 2) { epollin := true }], none),
      (.notify (.connFd 2) { recv := .bytes [0, 3, 0] }, none),
      (.poll 4 [.descriptor (.connFd 2) { epollin := true },
        .descriptor (.listenFd 0) { epollin := true }], none),
      (.notify (.connFd 2) { recv := .error }, none),
      (.notify (.listenFd 0) { accepts := [.accepted 9 true] }, some 1),
      (.poll 5 [.descriptor (.connFd 3) { epollin := true }], none),
      (.notify .idev { now := 5 }, none),
      (.notify (.connFd 3) { recv := .bytes [0, 3, 0, 7, 0, 1, 1] }, none)]

theorem relayed_at_most_once_retried : ∃ r : Ends Unit Unit,
    r.egress.conns.map (·.id) = [1, 3] ∧ r.delivered = [⟨3, 7, [1]⟩] ∧
    ∃ l : List (Unit × Message), r.delivered = l.map Prod.snd ∧ ∀ c, (of c l).Sublist
      ((r.near.submitted c).map (TcpIngress.World.oneChannel.message c)) := by
  have hrun : Run.Checks (step TcpIngress.World.oneChannel Egress.oneMinute)
      (Proper (Books.Steady TcpIngress.World.oneChannel) Egress.oneMinute)
      (init TcpIngress.World.oneChannel Egress.oneMinute (fun _ ↦ Channel.queueMem) 0)
      (twoTries.map .near ++ bothAccepted.map fun p ↦ .far p.1 p.2)
      fun r ↦ r.egress.conns.map (·.id) = [1, 3] ∧ r.delivered = [⟨3, 7, [1]⟩] := by
    decide +kernel
  obtain ⟨r, hreach, hids, hdelivered⟩ := hrun.reach
  exact ⟨r, hids, hdelivered, relayed_at_most_once (by decide) hreach⟩

/-- One of two datagrams is sent; the other is in the queue. -/
def oneSent : List (TcpIngress.World.Act Unit) :=
  TcpIngress.World.firstSource ++ TcpIngress.World.firstConnection ++
    [.poll 2 false (some { epollout := true }), .notify .fdev { sends := [.sent 7] },
      .submit () 70000 [2] 3]

/-- It comes in on both sides of a call of `flush`. -/
def oneHeard : List (Egress.Act × Option Nat) :=
  (Egress.knock.map fun a ↦ (a, none)) ++
    [(.notify (.listenFd 0) { accepts := [.accepted 7 true] }, some 0),
      (.poll 2 [.descriptor (.connFd 1) { epollin := true }], none),
      (.notify (.connFd 1) { recv := .bytes [0, 3, 0, 7, 0] }, none), (.busy 3, none),
      (.poll (seconds 60) [.descriptor (.connFd 1) { epollin := true }], none),
      (.notify (.connFd 1) { recv := .bytes [1, 1] }, none)]

theorem relayed_exactly_once : ∃ r : Ends Unit Unit, r.delivered = [⟨3, 7, [1]⟩] ∧
    r.near.submitted () = [(3, [1]), (70000, [2])] ∧
    ∃ l : List (Unit × Message), r.delivered = l.map Prod.snd ∧ ∀ c, of c l ++
      (r.near.world.chan c).queue.queue.map
        (fun pl ↦ TcpIngress.World.oneChannel.decoded (c, pl)) =
        (r.near.submitted c).map (TcpIngress.World.oneChannel.message c) := by
  have hrun : Run.Checks (step TcpIngress.World.oneChannel Egress.oneMinute)
      (Proper (fun s a ↦ s.Steady TcpIngress.World.oneChannel a ∧
        s.Fits TcpIngress.World.oneChannel a) Egress.oneMinute)
      (init TcpIngress.World.oneChannel Egress.oneMinute (fun _ ↦ Channel.queueMem) 0)
      (oneSent.map .near ++ oneHeard.map fun p ↦ .far p.1 p.2)
      fun r ↦ r.delivered = [⟨3, 7, [1]⟩] ∧ r.near.submitted () = [(3, [1]), (70000, [2])] ∧
        r.near.world.wires.length = 1 ∧
          (r.heard 0).map (·.received) = (r.near.world.wire 0).map (·.bytes) := by decide +kernel
  obtain ⟨r, hreach, hdelivered, hsubmitted, hone, hcame⟩ := hrun.reach
  refine ⟨r, hdelivered, hsubmitted, relayed_exactly (by decide) hreach fun i x hx ↦ ?_⟩
  -- there is one connection
  obtain ⟨hi, -⟩ := List.getElem?_eq_some_iff.mp hx
  rw [List.length_reverse, hone] at hi
  obtain rfl : i = 0 := by omega
  rw [hx, Option.map_some] at hcame
  exact Option.map_eq_some_iff.mp hcame

end Ends
end UdpTun
