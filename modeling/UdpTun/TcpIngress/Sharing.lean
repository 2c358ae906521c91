import UdpTun.Lib.Line
import UdpTun.TcpIngress.Frames

/-!
# Sharing a connection

The sources of an ingress are a line.  The one at its head sends until a frame is complete, however
many calls and connections this takes, and then leaves; so does one that turns out to have nothing
to send.  A source that has more to send joins again at the back.

`leaves` says who leaves the line in a step, and how.  The record that it makes of a run is that of
a line (`Lined`), so nobody is passed over (`Line.Kept.between`), and this is what `fair_sharing`
says besides that the sources are a set and that the frames are not mixed.
-/

set_option autoImplicit false

namespace UdpTun
namespace TcpIngress

/-- How a source leaves the line. -/
inductive Parting
  /-- A frame of it has been completed. -/
  | completed
  /-- It has nothing to send. -/
  | empty
  deriving DecidableEq

namespace World

open Line (Leave Kept)

variable {C : Type} [DecidableEq C] {cfg : Config C} {w w' : World C} {c : C} {io : Io}
  {log : List (Leave C Parting)}

/-! ## Who leaves

It is worked out from a step who leaves the line and how, by going through the same branches as the
handler. -/

/-- Who leaves in a turn of the loop in `try_send`. -/
def turnLeaves (cfg : Config C) (w : World C) (r : SendResult) : List (Leave C Parting) :=
  match w.streamerQueue with
  | [] => []
  | c :: rest =>
    match (w.chan c).describe cfg.szClid [] with
    | .error _ => []
    | .ok (false, _, _, _) => [⟨c, .empty, rest⟩]
    | .ok (true, iov, ch, _) =>
      match r with
      | .sent n =>
        match ch.consumed cfg.szClid (iov.flatten.take n).length with
        | .ok (true, _, _) => [⟨c, .completed, rest⟩]
        | _ => []
      | _ => []

/-- Who leaves in the loop. -/
def loopLeaves (cfg : Config C) (now : TimePoint) :
    List SendResult → World C → List (Leave C Parting)
  | [], _ => []
  | r :: sends, w =>
    if w.streamers.isEmpty then []
    else w.turnLeaves cfg r ++
      match w.sendTurn cfg now r with
      | .ok (w, true) => loopLeaves cfg now sends w
      | _ => []

/-- Who leaves in `try_send`. -/
def trySendLeaves (cfg : Config C) (w : World C) (io : Io) : List (Leave C Parting) :=
  if w.upoutReady then loopLeaves cfg io.now io.sends w else []

/-- Who leaves in a handler. -/
def handleLeaves (cfg : Config C) (w : World C) (io : Io) : Ev C → List (Leave C Parting)
  | .fdev =>
    if w.connected && !hangsUp (w.sched.event .fdev).got then
      { w with upoutReady := true }.trySendLeaves cfg io
    else []
  | .queueEvent c =>
    if w.streamers.isEmpty && w.sock.isSome && w.connected then
      (w.joined c).trySendLeaves cfg io
    else []
  | .rstev | .sigev => []

/-- Who leaves in a step. -/
def leaves (cfg : Config C) (w : World C) : Act C → List (Leave C Parting)
  | .notify e io =>
    match w.sched.lowest with
    | none => []
    | some p => if e ∈ w.sched.queues.bucket p then (w.taken p e).handleLeaves cfg io e else []
  | _ => []

/-! ## The line

The general notion is that of `Line`.  The sources are one, and `Lined` ties the record to what is
on the connections. -/

/-- Who has completed a frame, in order. -/
def completions (log : List (Leave C Parting)) : List C :=
  (log.filter fun n ↦ n.how = .completed).map Leave.who

/-- The channels that the frames sent are of, in order, all connections taken together. -/
def finished (w : World C) : List C := (w.wires.reverse.flatMap (·.taken)).map Prod.fst

/-- The sources are the line of which this is the record, and those are recorded to have completed a
frame whose frames have been sent. -/
structure Lined (log : List (Leave C Parting)) (w : World C) : Prop where
  streamers : w.streamers = w.streamerQueue
  kept : Kept log w.streamerQueue
  completed : completions log = w.finished

omit [DecidableEq C] in
theorem completions_append (log log' : List (Leave C Parting)) :
    completions (log ++ log') = completions log ++ completions log' := by
  simp [completions]

theorem lined_init (cfg : Config C) (queue : C → PayloadQueue) : (init cfg queue).Lined [] :=
  ⟨rfl, .nil, rfl⟩

omit [DecidableEq C] in
theorem Lined.congr (h : w.Lined log) (hstreamers : w'.streamers = w.streamers)
    (hqueue : w'.streamerQueue = w.streamerQueue) (hfinished : w'.finished = w.finished) :
    w'.Lined log :=
  ⟨by rw [hstreamers, hqueue, h.streamers], hqueue ▸ h.kept, h.completed.trans hfinished.symm⟩

omit [DecidableEq C] in
/-- Nothing has been sent on a new connection. -/
theorem Lined.tried (h : w.Lined log) (ht : Tried w w') : w'.Lined log := by
  obtain ⟨n, hwires⟩ := ht.wires
  refine h.congr ht.apart.streamers ht.apart.streamerQueue ?_
  rw [finished, finished, hwires, List.reverse_append, List.flatMap_append, List.reverse_replicate]
  simp [List.flatMap_replicate]

theorem Lined.setFdev {events : Mask} (h : w.Lined log) (hw : w.setFdev events = .ok w') :
    w'.Lined log := by
  obtain ⟨fd, s', -, rfl, -⟩ := setFdev_ok hw
  exact h.congr rfl rfl rfl

theorem Lined.setRstev (h : w.Lined log) (now : TimePoint) (d : Int) :
    (w.setRstev now d).Lined log :=
  h.congr rfl rfl rfl

theorem Lined.attempted {now : TimePoint} (h : w.Lined log) (ha : Attempted now w w') :
    w'.Lined log := by
  obtain ⟨w₁, htried, ⟨-, rfl⟩ | ⟨-, events, -, hset⟩⟩ := ha
  · exact (h.tried htried).setRstev _ _
  · exact (h.tried htried).setFdev hset

theorem Lined.update (h : w.Lined log) (c : C) (ch : Channel) (l : List PayloadQueue.Call) :
    (w.update c ch l).Lined log := by
  obtain ⟨hstreamers, hqueue, hwires⟩ := update_streamers w c ch l
  exact h.congr hstreamers hqueue (by rw [finished, hwires, finished])

omit [DecidableEq C] in
theorem Lined.joined (h : w.Lined log) (hc : c ∉ w.streamers) : (w.joined c).Lined log :=
  ⟨by rw [World.joined, h.streamers], h.kept.join (h.streamers ▸ hc), h.completed⟩

/-- **The head of the line leaves**, with a frame completed or without. -/
theorem Lined.dropSource (h : w.Lined log) {rest : List C} (hhead : w.streamerQueue = c :: rest)
    (hstreamers : w'.streamers = w.streamers) (hqueue : w'.streamerQueue = w.streamerQueue)
    {how : Parting} (hfinished : w'.finished = w.finished ++ completions [⟨c, how, rest⟩]) :
    (w'.dropSource c).Lined (log ++ [⟨c, how, rest⟩]) := by
  have hrest : (w'.dropSource c).streamerQueue = rest := by
    rw [World.dropSource, hqueue, hhead]
    rfl
  refine ⟨?_, ?_, ?_⟩
  · rw [hrest, World.dropSource, hstreamers, h.streamers, hhead]
    exact List.erase_cons_head ..
  · rw [hrest]
    exact Kept.leave how (hhead ▸ h.kept)
  · rw [completions_append, h.completed]
    exact hfinished.symm

/-! ## Sending

The only ones who leave are the heads of the line, one after another. -/

/-- Some of a frame is sent, and its source leaves when the frame is complete. -/
theorem Lined.sourceSent (h : w.Lined log) {rest : List C} (hhead : w.streamerQueue = c :: rest)
    (horder : (w.chan c).InOrder cfg.szClid) (hne : w.wires ≠ []) {bytes : List UInt8}
    (hw : w.sourceSent cfg c bytes = .ok w') :
    w'.Lined (log ++ match (w.chan c).consumed cfg.szClid bytes.length with
      | .ok (true, _, _) => [⟨c, .completed, rest⟩]
      | _ => []) := by
  obtain ⟨wire, past, hwires⟩ := List.exists_cons_of_ne_nil hne
  obtain ⟨allDone, ch, l, hconsumed, w₁, hw₁, rfl⟩ := sourceSent_ok hw
  obtain ⟨pl, hpl, -⟩ := Channel.consumed_ok hconsumed
  obtain ⟨hconsume, -, -⟩ := PayloadQueue.consume_poke (horder.head pl hpl)
  rw [hconsumed]
  rw [hwires, hconsume] at hw₁
  obtain ⟨hstreamers, hqueue, hwires'⟩ := update_streamers w₁ c ch l
  have hfinished : (w₁.update c ch l).finished =
      w.finished ++ if allDone then [c] else [] := by
    rw [finished, hwires', hw₁, finished, hwires]
    cases allDone <;> simp
  cases allDone with
  | false =>
    rw [if_neg Bool.false_ne_true, List.append_nil] at *
    exact h.congr (hstreamers.trans (by rw [hw₁])) (hqueue.trans (by rw [hw₁])) hfinished
  | true =>
    rw [if_pos rfl]
    exact h.dropSource hhead (hstreamers.trans (by rw [hw₁])) (hqueue.trans (by rw [hw₁]))
      hfinished

/-- A turn of the loop. -/
theorem Lined.sendTurn {now : TimePoint} {r : SendResult} {again : Bool} (h : w.Lined log)
    (ht : w.Threaded cfg True) (hsock : w.sock ≠ none)
    (hw : w.sendTurn cfg now r = .ok (w', again)) : w'.Lined (log ++ w.turnLeaves cfg r) := by
  rw [World.sendTurn] at hw
  split at hw
  · cases hw
  · rename_i c rest hqueue
    split at hw
    · cases hw
    · rename_i iov ch l hdescribe
      cases hw
      simp only [turnLeaves, hqueue, hdescribe]
      obtain ⟨hstreamers, hqueue', hwires⟩ := update_streamers w c ch l
      refine h.dropSource hqueue hstreamers hqueue' ?_
      rw [finished, hwires]
      exact (List.append_nil _).symm
    · rename_i iov ch l hdescribe
      simp only [turnLeaves, hqueue, hdescribe]
      dsimp only at hw
      generalize hw₁ : ({ w.update c ch l with upoutReady := false } : World C) = w₁ at hw
      obtain ⟨-, hqueue', hwires⟩ := update_streamers w c ch l
      have hfirst : w₁.Lined log := by
        rw [← hw₁]
        exact (h.update c ch l).congr rfl rfl rfl
      have hself : w₁.chan c = ch := by
        rw [← hw₁]
        exact update_self ..
      cases r with
      | sent n =>
        obtain ⟨w₂, hsent, heq⟩ := map_ok hw
        obtain ⟨rfl, -⟩ := Prod.mk.inj heq
        obtain ⟨horder, -⟩ := (ht.inOrder c).describe hdescribe
        obtain ⟨wire, past, -, hlatest, -⟩ := ht.latest hsock
        rw [← hself] at horder ⊢
        refine hfirst.sourceSent ?_ horder ?_ hsent
        · rw [← hw₁]
          exact hqueue'.trans hqueue
        · rw [← hw₁]
          exact fun hnil ↦ List.cons_ne_nil wire past (hlatest ▸ hwires ▸ hnil)
      | blocked =>
        obtain ⟨w₂, hblocked, heq⟩ := map_ok hw
        obtain ⟨rfl, -⟩ := Prod.mk.inj heq
        obtain ⟨allDone, ch', l', -, hset⟩ := sourceBlocked_ok hblocked
        rw [List.append_nil]
        exact (hfirst.update c ch' l').setFdev hset
      | failed =>
        obtain ⟨w₂, hfailed, heq⟩ := map_ok hw
        obtain ⟨rfl, -⟩ := Prod.mk.inj heq
        obtain ⟨w₃, hclear, rfl⟩ := sourceFailed_ok hfailed
        rw [List.append_nil]
        exact ((hfirst.update c (w₁.chan c).failed []).tried
          (clearSocket_tried hclear)).setRstev _ _

/-- The induction is on the turns. -/
theorem Lined.sendLoop {now : TimePoint} {sends : List SendResult} (h : w.Lined log)
    (ht : w.Threaded cfg True) (hsock : w.sock ≠ none) (hconnected : w.connected)
    (hw : sendLoop cfg now sends w = .ok w') : w'.Lined (log ++ loopLeaves cfg now sends w) := by
  induction sends generalizing w log with
  | nil =>
    rw [World.sendLoop] at hw
    split at hw
    · cases hw
      simpa [loopLeaves] using h
    · cases hw
  | cons r sends ih =>
    rw [World.sendLoop] at hw
    rw [loopLeaves]
    split at hw
    · rename_i hempty
      cases hw
      simpa [hempty] using h
    · rename_i hne
      rw [if_neg hne, ← List.append_assoc]
      split at hw
      · cases hw
      · rename_i w₁ hturn
        have hsources := sendTurn_sources hturn
        rw [hturn]
        exact ih (h.sendTurn ht hsock hturn) (ht.sendTurn hsock hconnected hturn).1
          (hsources.sock ▸ hsock) (hsources.connected ▸ hconnected) hw
      · rename_i w₁ hturn
        cases hw
        rw [hturn, List.append_nil]
        exact h.sendTurn ht hsock hturn

theorem Lined.trySend (h : w.Lined log) (ht : w.Threaded cfg True)
    (hw : w.trySend cfg io = .ok w') : w'.Lined (log ++ w.trySendLeaves cfg io) := by
  obtain ⟨hsock, hconnected, -⟩ := trySend_ok hw
  rw [World.trySend] at hw
  rw [trySendLeaves]
  split at hw
  · cases hw
  split at hw
  · cases hw
  split at hw
  · rename_i hready
    rw [if_neg (by simpa using hready), List.append_nil]
    exact h.setFdev hw
  · rename_i hready
    rw [if_pos (by simpa using hready)]
    exact h.sendLoop ht hsock hconnected hw

/-! ## Handlers

Only the notification of a channel makes it join, at the back. -/

theorem Lined.descriptorReady (h : w.Lined log) (ht : w.Threaded cfg True)
    (hw : w.descriptorReady cfg (w.sched.event .fdev).got io = .ok w') :
    w'.Lined (log ++ w.handleLeaves cfg io .fdev) := by
  rw [handleLeaves]
  obtain ⟨-, ⟨hfalse, hnext⟩ | ⟨-, hhup, w₁, hclear, rfl⟩ | ⟨hfalse, hset⟩ |
    ⟨hconnected, hup, hsend⟩⟩ := descriptorReady_ok hw
  · obtain ⟨rest, w₁, hclear, htry⟩ := connectNext_ok hnext
    rw [hfalse, Bool.false_and, if_neg Bool.false_ne_true, List.append_nil]
    have hrest : Lined log { w with ainf := rest } := h.congr rfl rfl rfl
    exact (hrest.tried (clearSocket_tried hclear)).attempted (tryConnect_ok htry).2
  · rw [hhup, Bool.not_true, Bool.and_false, if_neg Bool.false_ne_true, List.append_nil]
    exact (h.tried (clearSocket_tried hclear)).setRstev _ _
  · rw [hfalse, Bool.false_and, if_neg Bool.false_ne_true, List.append_nil]
    have hconnected : Lined log { w with connected := true } := h.congr rfl rfl rfl
    exact hconnected.setFdev hset
  · rw [if_pos (by simp [hconnected, hup])]
    have hready : Lined log { w with upoutReady := true } := h.congr rfl rfl rfl
    obtain ⟨hthreaded, -⟩ : Threaded cfg True { w with upoutReady := true } ∧ Passes True w _ :=
      ht.congr rfl rfl rfl rfl rfl
    exact hready.trySend hthreaded hsend

theorem Lined.ready (h : w.Lined log) (ht : w.Threaded cfg True)
    (hw : w.ready cfg c io = .ok w') : w'.Lined (log ++ w.handleLeaves cfg io (.queueEvent c)) := by
  rw [handleLeaves]
  rcases ready_ok hw with ⟨hmem, rfl⟩ | ⟨hc, ⟨rfl, hwhy⟩ | ⟨hempty, hlookup⟩ | ⟨hempty, hsend⟩⟩
  · rw [if_neg ?_, List.append_nil]
    · exact h
    · -- there are sources already
      simp [List.ne_nil_of_mem hmem]
  · rw [if_neg ?_, List.append_nil]
    · exact h.joined hc
    · rcases hwhy with hne | ⟨hnone, -⟩ | ⟨-, hfalse⟩
      · simp [hne]
      · simp [hnone]
      · simp [hfalse]
  · obtain ⟨-, -, hsock, rfl⟩ := initiateLookup_ok hlookup
    have hnone : w.sock = none := hsock
    rw [hnone, Option.isSome_none, Bool.and_false, Bool.false_and, if_neg Bool.false_ne_true,
      List.append_nil]
    exact (h.joined hc).congr rfl rfl rfl
  · obtain ⟨hsock, hconnected, -⟩ := trySend_ok hsend
    have hopen : w.sock.isSome := Option.isSome_iff_ne_none.mpr hsock
    have hconnected : w.connected := hconnected
    rw [if_pos (by simp [hempty, hopen, hconnected])]
    exact (h.joined hc).trySend (ht.joined c) hsend

theorem Lined.managerCheck (h : w.Lined log) (hw : w.managerCheck cfg io = .ok w') :
    w'.Lined log := by
  obtain ⟨w₁, rfl, ⟨-, rfl⟩ | ⟨-, -, -, hattempt⟩⟩ := managerCheck_ok hw
  · exact h.congr rfl rfl rfl
  · have hoff : Lined log { w with addrev := { w.addrev with on := false } } := h.congr rfl rfl rfl
    exact (hoff.attempted hattempt).congr rfl rfl rfl

theorem Lined.handle {e : Ev C} (h : w.Lined log) (ht : w.Threaded cfg True)
    (hw : w.handle cfg io e = .ok w') : w'.Lined (log ++ w.handleLeaves cfg io e) := by
  cases e with
  | fdev => exact h.descriptorReady ht hw
  | rstev =>
    obtain ⟨-, -, -, rfl⟩ := initiateLookup_ok hw
    rw [handleLeaves, List.append_nil]
    exact h.congr rfl rfl rfl
  | sigev =>
    rw [handleLeaves, List.append_nil]
    exact h.managerCheck hw
  | queueEvent c => exact h.ready ht hw

/-! ## Runs

The record of a whole run has all the partings in it, and so what is known of lines can be said of
the sources. -/

/-- The step lemma. -/
theorem Lined.step {a : Act C} (h : w.Lined log) (ht : w.Threaded cfg True)
    (hw : w.step cfg a = .ok w') : w'.Lined (log ++ w.leaves cfg a) := by
  have hstay : w'.Lined log → w.leaves cfg a = [] → w'.Lined (log ++ w.leaves cfg a) :=
    fun h hnil ↦ by rwa [hnil, List.append_nil]
  cases a with
  | submit c clid data now =>
    cases hw
    exact hstay (h.update c _ _) rfl
  | activate c =>
    cases hw
    exact hstay (h.update c _ _) rfl
  | flush c n =>
    cases hw
    exact hstay (h.update c _ _) rfl
  | discard c =>
    obtain ⟨q, l, -, rfl⟩ := discard_ok hw
    exact hstay (h.update c _ _) rfl
  | lookupEnds rc result =>
    rcases lookupEnds_ok hw with rfl | ⟨-, rfl⟩ <;> exact hstay (h.congr rfl rfl rfl) rfl
  | raise =>
    cases hw
    exact hstay (h.congr rfl rfl rfl) rfl
  | poll now signalled evs =>
    rcases poll_ok hw with rfl | ⟨s, -, rfl⟩ <;> exact hstay (h.congr rfl rfl rfl) rfl
  | notify e io =>
    rw [World.step] at hw
    split at hw
    · rename_i hnone
      cases hw
      exact hstay h (by simp only [leaves, hnone])
    · rename_i p hlowest
      split at hw
      · rename_i he
        have hleaves : w.leaves cfg (.notify e io) = (w.taken p e).handleLeaves cfg io e := by
          simp only [leaves, hlowest, if_pos he]
        rw [hleaves]
        have htaken : (w.taken p e).Lined log := h.congr rfl rfl rfl
        exact htaken.handle (ht.sched (r := True) _).1 hw
      · rename_i he
        cases hw
        exact hstay h (by simp only [leaves, hlowest, if_neg he])

/-- The induction over a run that is recorded. -/
theorem lined_of_recorded {queue : C → PayloadQueue} {log : List (Leave C Parting)}
    (h : Run.Reach (Run.recorded (step cfg) (leaves cfg)) Run.anyStep (init cfg queue, [])
      (w, log)) : w.Threaded cfg True ∧ w.Lined log := by
  refine (h.invariant (I := fun s ↦ s.1.Tidy ∧ s.1.Threaded cfg True ∧ s.1.Lined s.2)
    ⟨tidy_init cfg queue, threaded_init cfg True queue, lined_init cfg queue⟩ ?_).2
  rintro s a t ⟨htidy, hthreaded, hlined⟩ - hstep
  obtain ⟨hstep, hlog⟩ := Run.recorded_ok hstep
  rw [hlog]
  exact ⟨htidy.step hstep, (hthreaded.step htidy (.inr trivial) hstep).1,
    hlined.step hthreaded hstep⟩

/-- Every run has a record. -/
theorem lined_of_reach {queue : C → PayloadQueue}
    (h : Run.Reach (step cfg) Run.anyStep (init cfg queue) w) : ∃ log, w.Lined log := by
  obtain ⟨log, hrecorded⟩ := h.recorded (leaves cfg) []
  exact ⟨log, (lined_of_recorded hrecorded).2⟩

/-- **Fair sharing.**  The sources are a set, in the order in which they have joined.  On every
connection the frames come one after the other, the first of which may have been begun before.
Those are recorded to have completed a frame whose frames have been sent.  And between two turns of
one channel, all that were waiting at the end of the first have one, which ends with a frame
completed or with nothing to send. -/
theorem fair_sharing {queue : C → PayloadQueue} {log : List (Leave C Parting)}
    (h : Run.Reach (Run.recorded (step cfg) (leaves cfg)) Run.anyStep (init cfg queue, [])
      (w, log)) :
    (w.streamerQueue.Nodup ∧ w.streamers.Nodup ∧ ∀ c, c ∈ w.streamers ↔ c ∈ w.streamerQueue) ∧
      (∀ wire ∈ w.wires, ∃ before, Begun cfg before wire ∧
        w.Framed cfg ⟨before ++ wire.bytes, wire.taken⟩) ∧
      completions log = w.finished ∧
      ∀ log₁ n log₂ m log₃, log = log₁ ++ n :: (log₂ ++ m :: log₃) → n.who = m.who →
        ∀ c ∈ n.waiting, ∃ k ∈ log₂, k.who = c ∧ (k.how = .completed ∨ k.how = .empty) := by
  obtain ⟨hthreaded, hlined⟩ := lined_of_recorded h
  refine ⟨⟨hlined.kept.nodup, ?_, fun c ↦ by rw [hlined.streamers]⟩, fun wire hwire ↦ ?_,
    hlined.completed, fun log₁ n log₂ m log₃ hlog hsame c hc ↦ ?_⟩
  · rw [hlined.streamers]
    exact hlined.kept.nodup
  · obtain ⟨before, -, hbegun, hframed⟩ := hthreaded.threads wire hwire
    exact ⟨before, hbegun, hframed⟩
  · obtain ⟨k, hk, hwho⟩ := List.mem_map.mp ((hlined.kept.between hlog hsame).subset hc)
    refine ⟨k, hk, hwho, ?_⟩
    cases k.how with
    | completed => exact .inl rfl
    | empty => exact .inr rfl

/-- An ingress with two channels. -/
def twoChannels : Config Bool where
  name := "out"
  label := fun c ↦ if c then 8 else 7
  szClid := 8

/-- There are two datagrams for the first channel and one for the second. -/
def twoSources : List (Act Bool) :=
  [.submit false 3 [1] 0, .submit false 3 [2] 0, .submit true 3 [3] 0, .poll 0 false none,
    .notify (.queueEvent false) {}, .notify (.queueEvent true) {}]

/-- The socket blocks in the middle of the frame of the second channel. -/
def shared : List (Act Bool) :=
  [.lookupEnds 0 [⟨.inet, 6⟩], .poll 1 true none,
    .notify .sigev { connects := [⟨some 4, true, none, .connected⟩] },
    .poll 2 false (some { epollout := true }),
    .notify .fdev { sends := [.sent 7, .sent 3, .blocked] },
    .poll 3 false (some { epollout := true }), .notify (.queueEvent false) {},
    .notify .fdev { sends := [.sent 9, .sent 7] }]

theorem fair_sharing_two : ∃ (w : World Bool) (log : List (Leave Bool Parting)),
    log = [⟨false, .completed, [true]⟩, ⟨true, .completed, [false]⟩, ⟨false, .completed, []⟩] ∧
      ((w.streamerQueue.Nodup ∧ w.streamers.Nodup ∧
        ∀ c, c ∈ w.streamers ↔ c ∈ w.streamerQueue) ∧
      (∀ wire ∈ w.wires, ∃ before, Begun twoChannels before wire ∧
        w.Framed twoChannels ⟨before ++ wire.bytes, wire.taken⟩) ∧
      completions log = w.finished ∧
      ∀ log₁ n log₂ m log₃, log = log₁ ++ n :: (log₂ ++ m :: log₃) → n.who = m.who →
        ∀ c ∈ n.waiting, ∃ k ∈ log₂, k.who = c ∧ (k.how = .completed ∨ k.how = .empty)) := by
  have hrun : Run.Checks (Run.recorded (step twoChannels) (leaves twoChannels)) Run.anyStep
      (init twoChannels fun _ ↦ .fresh Channel.queueMem .empty .empty, []) (twoSources ++ shared)
      fun s ↦ s.2 = [⟨false, .completed, [true]⟩, ⟨true, .completed, [false]⟩,
        ⟨false, .completed, []⟩] := by decide +kernel
  obtain ⟨⟨w, log⟩, hreach, hlog⟩ := hrun.reach
  exact ⟨w, log, hlog, fair_sharing hreach⟩

end World
end TcpIngress
end UdpTun
