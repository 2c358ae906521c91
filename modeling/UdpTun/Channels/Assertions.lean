import UdpTun.Lib.Run
import UdpTun.Channels
import UdpTun.Queues.Contents

/-!
# The assertions of a channel

`Channel::describe` and `Channel::consumed` assert that a record is long enough, that its datagram
is not too long, that there is some of the frame left to send, and that there is a current record.
`Steady` is what keeps them true while datagrams come in and parts of frames go out, in any order;
it needs every datagram to have something in it (`assertions_hold`).

The absorber takes an empty datagram like any other, and then there is nothing left to send once
the header is counted: `empty_datagram_aborts`.
-/

set_option autoImplicit false

namespace UdpTun
namespace Channel

/-- A channel, and the number of bytes that `describe` has offered last, while neither `consumed`
nor `failed` has answered. -/
structure Outlet where
  chan : Channel
  described : Option Nat

namespace Outlet

/-- What can be done to a channel. -/
inductive Op
  /-- The absorber's socket is readable. -/
  | datagram (clid : Nat) (rc : Option (List UInt8)) (now : Nat)
  | activate
  | describe
  /-- So much was sent; nothing if the socket blocks. -/
  | consumed (done : Nat)
  | failed
  /-- The spill file's stream moves some bytes. -/
  | flush (n : Nat)
  /-- The quota manager has a spill file deleted. -/
  | discard

variable (szClid : Nat)

/-- A new channel in an empty directory. -/
def init (label : Nat) : Outlet where
  chan := create label (.fresh queueMem .empty .empty)
  described := none

/-- One operation. -/
def step (w : Outlet) : Op → Except Halt Outlet
  | .datagram clid rc now => .ok { w with chan := (sockReady szClid w.chan clid rc now).1 }
  | .activate => .ok { w with chan := w.chan.activate.1 }
  | .describe => (w.chan.describe szClid []).map fun r ↦
    { chan := r.2.2.1, described := if r.1 then some r.2.1.flatten.length else none }
  | .consumed done => (w.chan.consumed szClid done).map fun r ↦
    { chan := r.2.1, described := none }
  | .failed => .ok { chan := w.chan.failed, described := none }
  | .flush n => .ok { w with chan := { w.chan with queue := w.chan.queue.flush n } }
  | .discard => w.chan.queue.discardFile.map fun r ↦
    { w with chan := { w.chan with queue := r.1 } }

/-- Datagrams are of a length that UDP has, and no more is consumed than was described. -/
def Proper (w : Outlet) : Op → Prop
  | .datagram _ rc _ => ∀ data ∈ rc, data.length ≤ 65527
  | .consumed done => ∃ n ∈ w.described, done ≤ n
  | _ => True

/-- No datagram is empty. -/
def SomeData : Op → Prop
  | .datagram _ rc _ => ∀ data ∈ rc, data ≠ []
  | _ => True

/-- **The invariant.**  All records can be sent, and the current one is not done. -/
structure Steady (w : Outlet) : Prop where
  holds : w.chan.queue.Holds (Sendable szClid)
  current : ∀ pl, w.chan.current = some pl →
    Sendable szClid pl ∧ w.chan.done < (frame szClid w.chan.label pl).length
  described : ∀ n, w.described = some n → ∃ pl, w.chan.current = some pl ∧
    n = (frame szClid w.chan.label pl).length - w.chan.done

variable {szClid}

theorem steady_init (label : Nat) : (init label).Steady szClid :=
  ⟨PayloadQueue.holds_fresh _ _, nofun, nofun⟩

variable {w : Outlet}

/-- What only touches the queue. -/
theorem Steady.withQueue (h : w.Steady szClid) {q : PayloadQueue}
    (hq : q.Holds (Sendable szClid)) :
    Steady szClid { w with chan := { w.chan with queue := q } } := ⟨hq, h.current, h.described⟩

/-- The record of a datagram of the right size can be sent. -/
theorem sendable_record (hsz : szClid ≤ 8) {n : Nat} {data : List UInt8} (hne : data ≠ [])
    (hlen : data.length ≤ 65527) :
    Sendable szClid [clidMem szClid n, data].flatten ∧
      sumLengths [clidMem szClid n, data] ≤ 65535 := by
  have hpos := List.length_pos_iff.mpr hne
  rw [sumLengths_eq]
  simp only [List.flatten_cons, List.flatten_nil, List.append_nil, List.length_append,
    length_clidMem]
  refine ⟨⟨?_, ?_⟩, by omega⟩ <;> rw [List.length_append, length_clidMem] <;> omega

theorem Steady.datagram (h : w.Steady szClid) (hsz : szClid ≤ 8) {clid : Nat}
    {rc : Option (List UInt8)} {now : Nat} (hlen : ∀ data ∈ rc, data.length ≤ 65527)
    (hne : ∀ data ∈ rc, data ≠ []) :
    Steady szClid { w with chan := (sockReady szClid w.chan clid rc now).1 } := by
  cases rc with
  | none => exact h
  | some data =>
    have hdata := hlen data rfl
    have htake : data.take absorberBuf = data := by
      rw [List.take_of_length_le]
      simp only [absorberBuf]
      omega
    obtain ⟨hsend, hsum⟩ := sendable_record (n := clid) hsz (hne data rfl) hdata
    rw [sockReady, htake]
    exact h.withQueue (h.holds.push hsum hsend now)

/-- **`describe` offers something**, if there is a record. -/
theorem Steady.describe (h : w.Steady szClid) : ∃ w', step szClid w .describe = .ok w' ∧
    w'.Steady szClid ∧ ∀ n, w'.described = some n → 0 < n := by
  -- first, the record that becomes current
  have hfetch : w.chan.fetch.1.queue.Holds (Sendable szClid) ∧
      w.chan.fetch.1.label = w.chan.label ∧ ∀ pl, w.chan.fetch.1.current = some pl →
        Sendable szClid pl ∧ w.chan.fetch.1.done < (frame szClid w.chan.label pl).length := by
    rw [fetch]
    cases hcur : w.chan.current with
    | some pl => exact ⟨h.holds, rfl, h.current⟩
    | none =>
      dsimp only
      cases hpeek : w.chan.queue.peek.1 with
      | none => exact ⟨h.holds.peek, rfl, fun _ hpl ↦ by cases hpl⟩
      | some pl =>
        refine ⟨h.holds.peek, rfl, fun pl' hpl' ↦ ?_⟩
        obtain rfl := Option.some.inj hpl'
        have hsend := h.holds.peek.memory pl (PayloadQueue.mem_queue_of_peek hpeek)
        refine ⟨hsend, ?_⟩
        rw [length_frame]
        exact Nat.add_pos_left (by decide) _
  obtain ⟨hholds, hlabel, hcurrent⟩ := hfetch
  rw [step, Channel.describe]
  cases hcur : w.chan.fetch.1.current with
  | none =>
    refine ⟨_, rfl, ⟨hholds, fun pl hpl ↦ ?_, fun n hn ↦ ?_⟩, fun n hn ↦ ?_⟩
    · dsimp only at hpl
      rw [hcur] at hpl
      cases hpl
    · cases hn
    · cases hn
  | some pl =>
    obtain ⟨hsend, hdone⟩ := hcurrent pl hcur
    rw [← hlabel] at hdone
    obtain ⟨iov, c, hc, hiov, hl, hq, hcu, hd⟩ := describeCurrent_eq hsend hdone []
    dsimp only
    rw [hc]
    have hlen : iov.flatten.length =
        (frame szClid c.label pl).length - c.done := by
      rw [hiov, hl, hd, List.flatten_nil, List.nil_append, List.length_drop]
    have hdone' : c.done < (frame szClid c.label pl).length := by rw [hl, hd]; exact hdone
    refine ⟨_, rfl, ⟨?_, fun pl' hpl' ↦ ?_, fun n hn ↦ ?_⟩, fun n hn ↦ ?_⟩
    · dsimp only
      rw [hq]
      exact hholds
    · dsimp only at hpl' ⊢
      rw [hcu, hcur, Option.some_inj] at hpl'
      subst hpl'
      exact ⟨hsend, hdone'⟩
    · obtain rfl := Option.some.inj hn
      exact ⟨pl, by rw [← hcur, ← hcu], hlen⟩
    · obtain rfl := Option.some.inj hn
      rw [hlen]
      omega

/-- **`consumed` has a current record**, after `describe`. -/
theorem Steady.consumed (h : w.Steady szClid) {done n : Nat} (hn : w.described = some n)
    (hle : done ≤ n) : ∃ w', step szClid w (.consumed done) = .ok w' ∧ w'.Steady szClid := by
  obtain ⟨pl, hcur, rfl⟩ := h.described n hn
  obtain ⟨hsend, hdone⟩ := h.current pl hcur
  rw [step, Channel.consumed, hcur]
  dsimp only
  split
  · refine ⟨_, rfl, h.holds.consume.poke, fun _ hpl ↦ ?_, fun _ hn ↦ ?_⟩
    · cases hpl
    · cases hn
  · rename_i hnot
    refine ⟨_, rfl, h.holds, fun pl' hpl' ↦ ?_, fun _ h ↦ by cases h⟩
    obtain rfl : pl = pl' := Option.some.inj hpl'
    refine ⟨hsend, ?_⟩
    rw [length_frame] at hdone hle ⊢
    dsimp only
    omega

/-- **The step lemma.** -/
theorem Steady.step (hsz : szClid ≤ 8) (h : w.Steady szClid) {op : Op} {w' : Outlet}
    (hprop : w.Proper op) (hdata : SomeData op) (hs : Outlet.step szClid w op = .ok w') :
    w'.Steady szClid := by
  cases op with
  | datagram clid rc now =>
    cases hs
    exact h.datagram hsz hprop hdata
  | activate =>
    cases hs
    exact h.withQueue h.holds.poke
  | describe =>
    obtain ⟨w₁, hw₁, hsteady, -⟩ := h.describe
    obtain rfl := Except.ok.inj (hw₁.symm.trans hs)
    exact hsteady
  | consumed done =>
    obtain ⟨n, hn, hle⟩ := hprop
    obtain ⟨w₁, hw₁, hsteady⟩ := h.consumed hn hle
    obtain rfl := Except.ok.inj (hw₁.symm.trans hs)
    exact hsteady
  | failed =>
    cases hs
    exact ⟨h.holds, nofun, nofun⟩
  | flush n =>
    cases hs
    exact h.withQueue (h.holds.flush n)
  | discard =>
    obtain ⟨r, hd, rfl⟩ := map_ok hs
    exact h.withQueue (h.holds.discardFile hd)

/-- **The assertions hold**, and what is described is not empty, in every run in which no datagram
is. -/
theorem assertions_hold {szClid : Nat} (hsz : szClid ≤ 8) {label : Nat} {w : Outlet}
    (h : Run.Reach (Outlet.step szClid) (fun w op ↦ w.Proper op ∧ SomeData op) (init label) w) :
    (∃ w', Outlet.step szClid w .describe = .ok w' ∧ ∀ n, w'.described = some n → 0 < n) ∧
      ∀ n done, w.described = some n → done ≤ n →
        ∃ w', Outlet.step szClid w (.consumed done) = .ok w' := by
  have hsteady : w.Steady szClid := h.invariant (steady_init label)
    fun w op w' hw hok hs ↦ hw.step hsz hok.1 hok.2 hs
  obtain ⟨w₁, hw₁, -, hpos⟩ := hsteady.describe
  refine ⟨⟨w₁, hw₁, hpos⟩, fun n done hn hle ↦ ?_⟩
  obtain ⟨w₂, hw₂, -⟩ := hsteady.consumed hn hle
  exact ⟨w₂, hw₂⟩

/-- One datagram of a byte, described. -/
theorem assertions_hold_one : ∃ w, Run.exec (Outlet.step 8) (init 5)
      [.datagram 3 (some [9]) 1, .describe] = .ok w ∧ w.described = some 7 ∧
    (∃ w', Outlet.step 8 w .describe = .ok w' ∧ ∀ n, w'.described = some n → 0 < n) ∧
      ∀ n done, w.described = some n → done ≤ n →
        ∃ w', Outlet.step 8 w (.consumed done) = .ok w' := by
  have hok : Run.Along (Outlet.step 8) (fun w op ↦ w.Proper op ∧ SomeData op) (init 5)
      [.datagram 3 (some [9]) 1, .describe] :=
    Run.along_cons rfl ⟨by simp [Proper], by simp [SomeData]⟩ <|
      Run.along_cons rfl ⟨trivial, trivial⟩ trivial
  exact ⟨_, rfl, rfl, assertions_hold (by decide) (Run.reach_of_exec rfl hok)⟩

/-- **An empty datagram stops the daemon**, when its frame is described. -/
theorem empty_datagram_aborts : ∃ w, Run.Reach (Outlet.step 8) Proper (init 5) w ∧
    Outlet.step 8 w .describe = .error (.assertion .describeM) := by
  have hok : Run.Along (Outlet.step 8) Proper (init 5) [.datagram 3 (some []) 1] :=
    Run.along_cons rfl (by simp [Proper]) trivial
  exact ⟨_, Run.reach_of_exec rfl hok, rfl⟩

end Outlet
end Channel
end UdpTun
