import UdpTun.TcpIngress.Steps

/-!
# How the functions of an ingress fail

The functions that try addresses fail when a system call does (`Trying`), and so do those that send,
which also have assertions of their own (`Sending`).  Which functions can fail which assertion
matters where an assertion is shown never to fail.
-/

set_option autoImplicit false

namespace UdpTun
namespace TcpIngress
namespace World

variable {C : Type} [DecidableEq C] {cfg : Config C} {w : World C} {io : Io}

/-- How trying addresses fails. -/
inductive Trying : Halt → Prop
  | exception (e : Exception) : Trying (.exception e)
  | unfinished : Trying .unfinished

/-- How sending fails. -/
inductive Sending : Halt → Prop
  | exception (e : Exception) : Sending (.exception e)
  | unfinished : Sending .unfinished
  | undefined : Sending .undefined
  | describeSize : Sending (.assertion .describeSize)
  | describePlsize : Sending (.assertion .describePlsize)
  | describeM : Sending (.assertion .describeM)
  | consumedCurrent : Sending (.assertion .consumedCurrent)
  | sendSock : Sending (.assertion .sendSock)
  | sendConnected : Sending (.assertion .sendConnected)

/-! ## The socket

To set the descriptor event and to close the socket fail in no other way than these. -/

theorem fails_setFdev (w : World C) (events : Mask) :
    Fails Halt.Throws (w.setFdev events) := by
  rw [setFdev]
  split
  · exact fails_error (Halt.throws _)
  · exact Fails.bind (fun _ ↦ Scheduler.descrSet_throws) fun _ _ ↦ fails_ok _

theorem fails_clearSocket (w : World C) : Fails Halt.Throws w.clearSocket := by
  rw [clearSocket]
  exact Fails.bind (fun _ ↦ Scheduler.descrCancel_throws) fun _ _ ↦ fails_ok _

theorem trying_throws {x : Halt} : x.Throws → Trying x := fun ⟨e, hx⟩ ↦ hx ▸ .exception e

theorem sending_throws {x : Halt} : x.Throws → Sending x := fun ⟨e, hx⟩ ↦ hx ▸ .exception e

theorem trying_setFdev (w : World C) (events : Mask) : Fails Trying (w.setFdev events) :=
  (fails_setFdev w events).mono fun _ ↦ trying_throws

theorem trying_clearSocket (w : World C) : Fails Trying w.clearSocket :=
  (fails_clearSocket w).mono fun _ ↦ trying_throws

theorem sending_setFdev (w : World C) (events : Mask) : Fails Sending (w.setFdev events) :=
  (fails_setFdev w events).mono fun _ ↦ sending_throws

theorem sending_clearSocket (w : World C) : Fails Sending w.clearSocket :=
  (fails_clearSocket w).mono fun _ ↦ sending_throws

/-! ## Trying addresses

Each attempt fails in the ways of its system calls. -/

theorem trying_connectSocket (w : World C) (t : ConnectTurn) (rest : List AddrInfo) :
    Fails Trying (connectSocket cfg w t rest) := by
  rw [connectSocket]
  split
  · exact (trying_clearSocket w).map
  · split
    · exact fails_error (.exception _)
    · split
      · exact (trying_clearSocket w).map
      · exact (trying_setFdev w _).map
      · exact (trying_setFdev _ _).map

/-- The induction is on the turns. -/
theorem trying_connectLoop (bindInfo : List AddrInfo) (now : TimePoint) (turns : List ConnectTurn)
    (w : World C) : Fails Trying (connectLoop cfg bindInfo now turns w) := by
  induction turns generalizing w with
  | nil =>
    rw [connectLoop]
    split
    · exact fails_ok _
    · exact fails_error .unfinished
  | cons t turns ih =>
    rw [connectLoop]
    split
    · exact fails_ok _
    · dsimp only
      split
      · exact ih _
      · split
        · exact Fails.of_error (trying_connectSocket _ _ _) ‹_›
        · exact ih _
        · exact fails_ok _

omit [DecidableEq C] in
theorem trying_bindAddresses (bindInfo : Except Eai (List AddrInfo)) :
    Fails Trying (bindAddresses cfg bindInfo) := by
  rw [bindAddresses]
  split
  · exact fun _ hx ↦ trying_throws (getAddressInfo_throws hx)
  · exact fails_ok _

theorem trying_tryConnect (hsock : w.sock = none) (io : Io) :
    Fails Trying (w.tryConnect cfg io) := by
  rw [tryConnect, hsock, Option.isSome_none, if_neg Bool.false_ne_true]
  exact (trying_bindAddresses _).bind fun _ _ ↦ trying_connectLoop _ _ _ w

/-- The next address is there to be tried. -/
theorem trying_connectNext (hainf : w.ainf ≠ []) (io : Io) :
    Fails Trying (w.connectNext cfg io) := by
  rw [connectNext]
  split
  · exact absurd ‹_› hainf
  · refine (trying_clearSocket _).bind fun w₁ hw₁ ↦ trying_tryConnect ?_ io
    obtain ⟨s', rfl, -⟩ := clearSocket_ok hw₁
    rfl

/-! ## Sending

Describing and consuming have assertions, which are those of the channel. -/

theorem sending_describe (szClid : Nat) (ch : Channel) : Fails Sending (ch.describe szClid []) := by
  rw [Channel.describe]
  split
  · exact fails_ok _
  · refine Fails.map fun x hx ↦ ?_
    rcases Channel.describeCurrent_error hx with rfl | rfl | rfl | rfl <;> constructor

theorem sending_consumed (szClid : Nat) (ch : Channel) (n : Nat) :
    Fails Sending (ch.consumed szClid n) := by
  rw [Channel.consumed]
  split
  · exact fails_error .consumedCurrent
  · dsimp only
    split <;> exact fails_ok _

theorem sending_sendTurn (w : World C) (now : TimePoint) (r : SendResult) :
    Fails Sending (w.sendTurn cfg now r) := by
  rw [sendTurn]
  split
  · exact fails_error .undefined
  · split
    · exact Fails.of_error (sending_describe _ _) ‹_›
    · exact fails_ok _
    · dsimp only
      split
      · exact ((sending_consumed _ _ _).bind fun _ _ ↦ fails_ok _).map
      · exact ((sending_consumed _ _ _).bind fun _ _ ↦ sending_setFdev _ _).map
      · exact ((sending_clearSocket _).bind fun _ _ ↦ fails_ok _).map

theorem sending_sendLoop (now : TimePoint) (sends : List SendResult) (w : World C) :
    Fails Sending (sendLoop cfg now sends w) := by
  induction sends generalizing w with
  | nil =>
    rw [sendLoop]
    split
    · exact fails_ok _
    · exact fails_error .unfinished
  | cons r sends ih =>
    rw [sendLoop]
    split
    · exact fails_ok _
    · split
      · exact Fails.of_error (sending_sendTurn _ _ _) ‹_›
      · exact ih _
      · exact fails_ok _

theorem sending_trySend (w : World C) (io : Io) : Fails Sending (w.trySend cfg io) := by
  rw [trySend]
  split
  · exact fails_error .sendSock
  · split
    · exact fails_error .sendConnected
    · split
      · exact sending_setFdev _ _
      · exact sending_sendLoop _ _ _

end World
end TcpIngress
end UdpTun
