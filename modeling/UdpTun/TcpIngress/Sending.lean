import UdpTun.TcpIngress.Sharing

/-!
# Sending comes to an end

`try_send` goes round as long as there are sources.  A turn in which `describe` has nothing to
offer, or in which a frame is completed, drops the source at the head; a turn in which less is sent
leaves it there, with less of its frame to be sent; and a turn in which the socket blocks, or fails,
is the last.  So the loop ends whatever `sendmsg` gives, if only it never takes nothing of what
there is (`Outgoing.sendLoop`).  What `togo` counts gets less in each turn.

That no assertion of `describe` fails on the way is a matter of the records.  A source has one frame
in its turn, so it is enough that each can be described as it is when the loop begins; and as all of
them may have their turn, it is needed too (`trySend_returns`).
-/

set_option autoImplicit false

namespace UdpTun

/-- `describe` can be called: no assertion of it fails. -/
def Channel.Describable (szClid : Nat) (ch : Channel) : Prop := ∃ r, ch.describe szClid [] = .ok r

namespace TcpIngress

/-! ## What `sendmsg` gives

The outcomes are an endless supply, one for each turn. -/

/-- What `sendmsg` gives, turn by turn.  It never takes nothing. -/
structure Sends where
  result : Nat → SendResult
  pos : ∀ k n, result k = .sent n → 0 < n

namespace Sends

/-- The first turns. -/
def turns (o : Sends) (n : Nat) : List SendResult := (List.range n).map o.result

/-- The turns after the first. -/
def tail (o : Sends) : Sends := ⟨fun k ↦ o.result (k + 1), fun k n h ↦ o.pos (k + 1) n h⟩

theorem turns_succ (o : Sends) (n : Nat) : o.turns (n + 1) = o.result 0 :: o.tail.turns n := by
  rw [turns, List.range_succ_eq_map, List.map_cons, List.map_map]
  rfl

end Sends

namespace World

open Channel (Describable Sendable)

variable {C : Type} [DecidableEq C] {cfg : Config C} {w w' : World C} {c : C} {io : Io}

/-! ## What there is to be sent

A frame has at most `mostLeft` bytes, and `left` is how many of them are not sent yet. -/

/-- The most there can be of a frame. -/
def mostLeft : Nat := headerBytes + 65536

/-- How much there can be left to send of the frame of a channel. -/
def left (szClid : Nat) (ch : Channel) : Nat :=
  match ch.current with
  | none => mostLeft
  | some pl => (Channel.frame szClid ch.label pl).length - ch.done

/-- How much there is to do: for each source, no more than a frame. -/
def togo (cfg : Config C) (w : World C) : Nat :=
  match w.streamerQueue with
  | [] => 0
  | c :: rest => rest.length * (mostLeft + 1) + left cfg.szClid (w.chan c) + 1

theorem left_none {szClid : Nat} {ch : Channel} (h : ch.current = none) :
    left szClid ch = mostLeft := by
  rw [left, h]

theorem left_some {szClid : Nat} {ch : Channel} {pl : Payload} (h : ch.current = some pl) :
    left szClid ch = (Channel.frame szClid ch.label pl).length - ch.done := by
  rw [left, h]

theorem length_frame_le {szClid : Nat} {pl : Payload} (h : Sendable szClid pl) (label : Nat) :
    (Channel.frame szClid label pl).length ≤ mostLeft := by
  have hsize := h.plsize
  rw [Channel.length_frame]
  unfold mostLeft
  omega

/-- `n` bytes have been offered: what is left of the frame of a record, and that is not nothing. -/
structure Offered (szClid : Nat) (ch : Channel) (n : Nat) (pl : Payload) : Prop where
  current : ch.current = some pl
  sendable : Sendable szClid pl
  pos : 0 < n
  length : ch.done + n = (Channel.frame szClid ch.label pl).length

theorem Offered.left_eq {szClid n : Nat} {ch : Channel} {pl : Payload}
    (h : Offered szClid ch n pl) : left szClid ch = n := by
  have hlength := h.length
  rw [left_some h.current]
  omega

/-- A frame that has been begun. -/
theorem describable_of_current {szClid : Nat} {ch : Channel} {pl : Payload}
    (hcurrent : ch.current = some pl) (hpl : Sendable szClid pl)
    (hdone : ch.done < (Channel.frame szClid ch.label pl).length) : Describable szClid ch := by
  obtain ⟨iov, ch', hdescribe, -⟩ := Channel.describeCurrent_eq hpl hdone []
  rw [Describable, Channel.describe, Channel.fetch, hcurrent]
  dsimp only
  rw [hcurrent]
  dsimp only
  exact ⟨_, by rw [hdescribe]; rfl⟩

/-- What `describe` offers. -/
theorem offered_of_describe {szClid : Nat} {ch ch' : Channel} {iov : Iov}
    {l : List PayloadQueue.Call} (h : ch.describe szClid [] = .ok (true, iov, ch', l)) :
    (∃ pl, Offered szClid ch' iov.flatten.length pl) ∧ iov.flatten.length ≤ mostLeft ∧
      left szClid ch' ≤ left szClid ch := by
  obtain ⟨hfalse, -⟩ | ⟨-, c₁, pl, hfetch, hpl, hcurrent⟩ := Channel.describe_ok h
  · cases hfalse
  have hsendable := (Channel.sendable_of_describeCurrent hcurrent).1
  obtain ⟨hdone, hiov, hlabel, -, hcurrent', hdone'⟩ := Channel.describeCurrent_ok hcurrent
  have hlen : iov.flatten.length =
      (Channel.frame szClid ch'.label pl).length - ch'.done := by
    rw [hiov, List.flatten_nil, List.nil_append, List.length_drop, hlabel, hdone']
  rw [← hlabel, ← hdone'] at hdone
  have hoffered : Offered szClid ch' iov.flatten.length pl :=
    ⟨hcurrent'.trans hpl, hsendable, by omega, by omega⟩
  have hle := length_frame_le hsendable ch'.label
  refine ⟨⟨pl, hoffered⟩, by omega, ?_⟩
  rcases ch.fetch_cases with ⟨pl', -, hf⟩ | ⟨hnone, -, hf⟩ | ⟨hnone, -, -, -⟩
  · -- the frame was begun before
    rw [hf] at hfetch
    cases hfetch
    have hsame : left szClid ch' = left szClid ch := by
      rw [left, left, hcurrent', hlabel, hdone']
    omega
  · rw [hf] at hfetch
    cases hfetch
    cases hpl.symm.trans hnone
  · -- a new one
    have hleft : left szClid ch = mostLeft := left_none hnone
    have hoff := hoffered.left_eq
    omega

theorem left_le {szClid : Nat} {ch : Channel} (h : Describable szClid ch) :
    left szClid ch ≤ mostLeft := by
  cases hcurrent : ch.current with
  | none =>
    have hleft : left szClid ch = mostLeft := left_none hcurrent
    omega
  | some pl =>
    obtain ⟨r, hr⟩ := h
    rw [Channel.describe, Channel.fetch, hcurrent] at hr
    dsimp only at hr
    rw [hcurrent] at hr
    dsimp only at hr
    obtain ⟨r', hr', -⟩ := map_ok hr
    have hle := length_frame_le (Channel.sendable_of_describeCurrent hr').1 ch.label
    rw [left_some hcurrent]
    omega

/-- What has been sent is taken down. -/
theorem Offered.consumed {szClid n : Nat} {ch : Channel} {pl : Payload}
    (h : Offered szClid ch n pl) {m : Nat} (hm : m ≤ n) : ∃ allDone ch' l,
      ch.consumed szClid m = .ok (allDone, ch', l) ∧ (allDone = true ↔ m = n) ∧
        (allDone = false → Describable szClid ch' ∧ left szClid ch' = left szClid ch - m) := by
  have hlength := h.length
  rw [Channel.length_frame] at hlength
  rw [Channel.consumed, h.current]
  dsimp only
  split
  · exact ⟨true, _, _, rfl, iff_of_true rfl (by omega), fun h ↦ by cases h⟩
  · refine ⟨false, _, _, rfl, iff_of_false Bool.false_ne_true (by omega), fun _ ↦ ⟨?_, ?_⟩⟩
    · refine describable_of_current rfl h.sendable ?_
      rw [Channel.length_frame]
      dsimp only
      omega
    · rw [left, left, h.current]
      exact (Nat.sub_sub ..).symm

/-! ## A turn

The source at the head has its turn, and those behind it are as they were. -/

/-- There is a socket, and the sources are a line. -/
structure Queued (w : World C) : Prop where
  wf : w.sched.WF
  sock : w.sock ≠ none ∧ (w.sched.event .fdev).fd = w.sock
  lined : w.streamers = w.streamerQueue
  nodup : w.streamerQueue.Nodup

/-- And each of them can be described. -/
structure Outgoing (cfg : Config C) (w : World C) : Prop extends Queued w where
  offers : ∀ c ∈ w.streamerQueue, Describable cfg.szClid (w.chan c)

omit [DecidableEq C] in
/-- Without the source at the head there is less to do. -/
theorem togo_lt {rest : List C} (hhead : w.streamerQueue = c :: rest)
    (hrest : w'.streamerQueue = rest) (h : w'.Outgoing cfg) : togo cfg w' < togo cfg w := by
  rw [togo, togo, hhead, hrest]
  cases rest with
  | nil => exact Nat.succ_pos _
  | cons d rest =>
    have hleft := left_le (h.offers d (hrest ▸ List.mem_cons_self ..))
    dsimp only
    rw [List.length_cons, Nat.succ_mul]
    omega

omit [DecidableEq C] in
/-- Channels and sources change, and nothing else. -/
theorem Queued.sources (h : w.Queued) (hs : Sources w w') (hlined : w'.streamers = w'.streamerQueue)
    (hnodup : w'.streamerQueue.Nodup) : w'.Queued :=
  ⟨hs.wf h.wf, by rw [hs.sock, hs.fdev]; exact h.sock, hlined, hnodup⟩

theorem Queued.setFdev (h : w.Queued) (events : Mask) : ∃ w', w.setFdev events = .ok w' := by
  obtain ⟨fd, hfd⟩ := Option.ne_none_iff_exists'.mp h.sock.1
  obtain ⟨s, hs⟩ := h.wf.descrSet_again (h.sock.2.trans hfd) events
  refine ⟨{ w with sched := s }, ?_⟩
  rw [World.setFdev, hfd]
  dsimp only
  rw [hs]
  rfl

/-- A channel changes. -/
theorem Queued.update (h : w.Queued) (c : C) (ch : Channel) (l : List PayloadQueue.Call) :
    (w.update c ch l).Queued := by
  obtain ⟨hstreamers, hqueue, -⟩ := update_streamers w c ch l
  exact h.sources (update_sources w c ch l) (by rw [hstreamers, hqueue, h.lined])
    (by rw [hqueue]; exact h.nodup)

/-- The source at the head is dropped. -/
theorem Queued.dropSource (h : w.Queued) {rest : List C} (hhead : w.streamerQueue = c :: rest) :
    (w.dropSource c).Queued ∧ (w.dropSource c).streamerQueue = rest := by
  have hrest : (w.dropSource c).streamerQueue = rest := by
    rw [World.dropSource, hhead]
    rfl
  refine ⟨h.sources (dropSource_sources w c) ?_ ?_, hrest⟩
  · rw [hrest, World.dropSource, h.lined, hhead]
    exact List.erase_cons_head ..
  · rw [hrest]
    exact (List.nodup_cons.mp (hhead ▸ h.nodup)).2

/-- What a turn leaves, if there is to be another: the head has gone, or has less than `n` bytes to
send. -/
inductive Goes (cfg : Config C) (c : C) (rest : List C) (n : Nat) (w' : World C) : Prop
  | leaves (queue : w'.streamerQueue = rest)
  | stays (queue : w'.streamerQueue = c :: rest) (offers : Describable cfg.szClid (w'.chan c))
    (less : left cfg.szClid (w'.chan c) < n)

omit [DecidableEq C] in
/-- Then each of the sources can be described still, and there is less to do. -/
theorem Outgoing.goes (h : w.Outgoing cfg) {rest : List C} (hhead : w.streamerQueue = c :: rest)
    (hw : w'.Queued) (hchan : ∀ d, d ≠ c → w'.chan d = w.chan d) {n : Nat}
    (hn : n ≤ left cfg.szClid (w.chan c)) (hgoes : Goes cfg c rest n w') :
    w'.Outgoing cfg ∧ togo cfg w' < togo cfg w := by
  have hnot : c ∉ rest := (List.nodup_cons.mp (hhead ▸ h.nodup)).1
  have hrest : ∀ d ∈ rest, Describable cfg.szClid (w'.chan d) := by
    intro d hd
    rw [hchan d (ne_of_mem_of_not_mem hd hnot)]
    exact h.offers d (hhead ▸ List.mem_cons_of_mem _ hd)
  cases hgoes with
  | leaves hqueue =>
    have hout : w'.Outgoing cfg := ⟨hw, fun d hd ↦ hrest d (hqueue ▸ hd)⟩
    exact ⟨hout, togo_lt hhead hqueue hout⟩
  | stays hqueue hoffers hless =>
    refine ⟨⟨hw, fun d hd ↦ ?_⟩, ?_⟩
    · rcases List.mem_cons.mp (hqueue ▸ hd) with rfl | hd
      · exact hoffers
      · exact hrest d hd
    · rw [togo, togo, hqueue, hhead]
      dsimp only
      omega

/-- What follows when some of a frame has been sent. -/
theorem Queued.sourceSent (h : w.Queued) {rest : List C} (hhead : w.streamerQueue = c :: rest)
    {n : Nat} {pl : Payload} (hoffered : Offered cfg.szClid (w.chan c) n pl) {bytes : List UInt8}
    (hpos : 0 < bytes.length) (hle : bytes.length ≤ n) :
    ∃ w', w.sourceSent cfg c bytes = .ok w' ∧ w'.Queued ∧ (∀ d, d ≠ c → w'.chan d = w.chan d) ∧
      Goes cfg c rest n w' ∧ (bytes.length = n → w'.streamerQueue = rest) := by
  obtain ⟨allDone, ch, l, hconsumed, hall, hless⟩ := hoffered.consumed hle
  obtain ⟨w', hw'⟩ : ∃ w', w.sourceSent cfg c bytes = .ok w' := by
    rw [World.sourceSent]
    dsimp only [bind, Except.bind]
    rw [hconsumed]
    exact ⟨_, rfl⟩
  refine ⟨w', hw', ?_⟩
  obtain ⟨allDone', ch', l', hconsumed', w₁, hw₁, rfl⟩ := sourceSent_ok hw'
  cases hconsumed.symm.trans hconsumed'
  have hfirst : w₁.Queued := by
    rw [hw₁]
    exact h.sources (.of_eq w rfl rfl rfl rfl rfl rfl) h.lined h.nodup
  have hqueue : (w₁.update c ch l).streamerQueue = c :: rest := by
    rw [(update_streamers w₁ c ch l).2.1, hw₁, ← hhead]
  have hchan : ∀ d, d ≠ c → (w₁.update c ch l).chan d = w.chan d := by
    intro d hd
    rw [update_of_ne w₁ ch l hd, hw₁]
  cases allDone with
  | true =>
    obtain ⟨hdropped, hrest⟩ := (hfirst.update c ch l).dropSource hqueue
    rw [if_pos rfl]
    exact ⟨hdropped, hchan, .leaves hrest, fun _ ↦ hrest⟩
  | false =>
    obtain ⟨hoffers, hleft⟩ := hless rfl
    have hself : (w₁.update c ch l).chan c = ch := update_self ..
    rw [if_neg Bool.false_ne_true]
    refine ⟨hfirst.update c ch l, hchan, .stays hqueue (hself.symm ▸ hoffers) ?_, fun heq ↦ ?_⟩
    · have hmore := hoffered.pos
      rw [hself, hleft, hoffered.left_eq]
      omega
    · cases hall.mpr heq

/-- **A turn returns**, and if there is to be another, there is less to do. -/
theorem Outgoing.sendTurn (h : w.Outgoing cfg) {rest : List C}
    (hhead : w.streamerQueue = c :: rest) (now : TimePoint) {r : SendResult}
    (hr : ∀ n, r = .sent n → 0 < n) : ∃ w' again, w.sendTurn cfg now r = .ok (w', again) ∧
      (again → w'.Outgoing cfg ∧ togo cfg w' < togo cfg w) := by
  obtain ⟨⟨offers, iov, ch, l⟩, hdescribe⟩ := h.offers c (hhead ▸ List.mem_cons_self ..)
  have hqueued := h.toQueued.update c ch l
  have hqueue : (w.update c ch l).streamerQueue = c :: rest :=
    (update_streamers w c ch l).2.1.trans hhead
  have hchan : ∀ d, d ≠ c → (w.update c ch l).chan d = w.chan d := fun d hd ↦
    update_of_ne w ch l hd
  have hself : (w.update c ch l).chan c = ch := update_self ..
  rw [World.sendTurn, hhead]
  dsimp only
  rw [hdescribe]
  cases offers with
  | false =>
    obtain ⟨hdropped, hrest⟩ := hqueued.dropSource hqueue
    exact ⟨_, true, rfl, fun _ ↦ h.goes hhead hdropped hchan (Nat.le_refl _) (.leaves hrest)⟩
  | true =>
    obtain ⟨⟨pl, hoffered⟩, -, hleft⟩ := offered_of_describe hdescribe
    have hfirst : Queued { w.update c ch l with upoutReady := false } :=
      hqueued.sources (.of_eq _ rfl rfl rfl rfl rfl rfl) hqueued.lined hqueued.nodup
    dsimp only
    cases r with
    | sent n =>
      have hlen : (iov.flatten.take n).length = min n iov.flatten.length := List.length_take ..
      have hpos := hoffered.pos
      have hn := hr n rfl
      obtain ⟨w', hw', hout, hchan', hgoes, -⟩ := hfirst.sourceSent hqueue
        (hself.symm ▸ hoffered) (by omega : 0 < (iov.flatten.take n).length) (by omega)
      dsimp only
      rw [hw']
      refine ⟨w', true, rfl, fun _ ↦ h.goes hhead hout
        (fun d hd ↦ (hchan' d hd).trans (hchan d hd)) ?_ hgoes⟩
      rw [← hoffered.left_eq]
      exact hleft
    | blocked =>
      obtain ⟨allDone, ch', l', hconsumed, -⟩ := hoffered.consumed (Nat.zero_le _)
      dsimp only
      rw [sourceBlocked, hself]
      dsimp only [bind, Except.bind]
      rw [hconsumed]
      obtain ⟨w', hw'⟩ := (hfirst.update c ch' l').setFdev connectedEvents
      exact ⟨w', false, by dsimp only; rw [hw']; rfl, fun h ↦ by cases h⟩
    | failed =>
      have hwf := (hfirst.update c
        (Channel.failed ({ w.update c ch l with upoutReady := false : World C }.chan c)) []).wf
      obtain ⟨w', hw'⟩ := clearSocket_total hwf
      dsimp only
      rw [sourceFailed]
      dsimp only [bind, Except.bind]
      rw [hw']
      exact ⟨_, false, rfl, fun h ↦ by cases h⟩

/-- A turn in which all that is offered is sent: the head has gone. -/
theorem Queued.sendTurn_whole (h : w.Queued) {rest : List C} (hhead : w.streamerQueue = c :: rest)
    {now : TimePoint} {again : Bool}
    (hw : w.sendTurn cfg now (.sent mostLeft) = .ok (w', again)) :
    Describable cfg.szClid (w.chan c) ∧ again = true ∧ w'.Queued ∧ w'.streamerQueue = rest ∧
      ∀ d, d ≠ c → w'.chan d = w.chan d := by
  rw [World.sendTurn, hhead] at hw
  dsimp only at hw
  have hchan : ∀ ch l d, d ≠ c → (w.update c ch l).chan d = w.chan d := fun ch l d hd ↦
    update_of_ne w ch l hd
  have hqueue : ∀ ch l, (w.update c ch l).streamerQueue = c :: rest := fun ch l ↦
    (update_streamers w c ch l).2.1.trans hhead
  split at hw
  · cases hw
  · rename_i iov ch l hdescribe
    cases hw
    obtain ⟨hdropped, hrest⟩ := (h.update c ch l).dropSource (hqueue ch l)
    exact ⟨⟨_, hdescribe⟩, rfl, hdropped, hrest, hchan ch l⟩
  · rename_i iov ch l hdescribe
    obtain ⟨⟨pl, hoffered⟩, hle, -⟩ := offered_of_describe hdescribe
    have hself : (w.update c ch l).chan c = ch := update_self ..
    have hfirst : Queued { w.update c ch l with upoutReady := false } :=
      (h.update c ch l).sources (.of_eq _ rfl rfl rfl rfl rfl rfl) (h.update c ch l).lined
        (h.update c ch l).nodup
    obtain ⟨w₁, hw₁, hout, hchan', -, hwhole⟩ := hfirst.sourceSent (hqueue ch l)
      (hself.symm ▸ hoffered) hoffered.pos (Nat.le_refl _)
    rw [List.take_of_length_le hle, hw₁] at hw
    cases hw
    exact ⟨⟨_, hdescribe⟩, rfl, hout, hwhole rfl, fun d hd ↦ (hchan' d hd).trans (hchan ch l d hd)⟩

/-! ## The loop

That the loop ends goes by what there is to do.  That it is necessary for each source to be
described is shown with a socket that takes all that it is given. -/

/-- The induction is on what there is to do. -/
theorem Outgoing.sendLoop (h : w.Outgoing cfg) (now : TimePoint) (o : Sends) :
    ∃ n w', sendLoop cfg now (o.turns n) w = .ok w' := by
  induction hk : togo cfg w using Nat.strong_induction_on generalizing w o with
  | _ k ih =>
    cases hqueue : w.streamerQueue with
    | nil =>
      refine ⟨0, w, ?_⟩
      rw [Sends.turns, List.range_zero, List.map_nil, World.sendLoop, h.lined, hqueue]
      rfl
    | cons c rest =>
      have hsome : w.streamers.isEmpty = false := by rw [h.lined, hqueue]; rfl
      obtain ⟨w₁, again, hturn, hnext⟩ := h.sendTurn hqueue now (o.pos 0)
      cases again with
      | false =>
        refine ⟨1, w₁, ?_⟩
        rw [Sends.turns_succ, World.sendLoop, hsome, if_neg Bool.false_ne_true, hturn]
      | true =>
        obtain ⟨hout, hlt⟩ := hnext rfl
        obtain ⟨n, w', hw'⟩ := ih _ (hk ▸ hlt) hout o.tail rfl
        refine ⟨n + 1, w', ?_⟩
        rw [Sends.turns_succ, World.sendLoop, hsome, if_neg Bool.false_ne_true, hturn]
        exact hw'

/-- Whatever is offered is sent. -/
def wholes : Sends where
  result _ := .sent mostLeft
  pos _ n h := by
    cases h
    exact Nat.add_pos_left (by decide) _

/-- Then all the sources have their turn.  The induction is on the turns. -/
theorem Queued.offers (h : w.Queued) {now : TimePoint} {n : Nat}
    (hw : sendLoop cfg now (wholes.turns n) w = .ok w') : w.Outgoing cfg := by
  refine ⟨h, ?_⟩
  induction n generalizing w with
  | zero =>
    rw [Sends.turns, List.range_zero, List.map_nil, World.sendLoop] at hw
    split at hw
    · rename_i hempty
      rw [← h.lined, List.isEmpty_iff.mp hempty]
      exact fun c hc ↦ absurd hc List.not_mem_nil
    · cases hw
  | succ n ih =>
    cases hqueue : w.streamerQueue with
    | nil => exact fun c hc ↦ absurd hc List.not_mem_nil
    | cons c rest =>
      have hsome : w.streamers.isEmpty = false := by rw [h.lined, hqueue]; rfl
      rw [Sends.turns_succ, World.sendLoop, hsome, if_neg Bool.false_ne_true] at hw
      split at hw
      · cases hw
      · rename_i w₁ hturn
        obtain ⟨hoffers, -, hqueued, hrest, hchan⟩ := h.sendTurn_whole hqueue hturn
        have hnot : c ∉ rest := (List.nodup_cons.mp (hqueue ▸ h.nodup)).1
        intro d hd
        rcases List.mem_cons.mp hd with rfl | hd
        · exact hoffers
        · rw [← hchan d (ne_of_mem_of_not_mem hd hnot)]
          exact ih hqueued hw d (hrest ▸ hd)
      · rename_i w₁ hturn
        cases (h.sendTurn_whole hqueue hturn).2.1

/-- **`try_send` returns whatever `sendmsg` gives**, if and only if each source can be described. -/
theorem Queued.trySend_returns (h : w.Queued) (hready : w.upoutReady) (hconnected : w.connected)
    (io : Io) : (∀ o : Sends, ∃ n w', w.trySend cfg { io with sends := o.turns n } = .ok w') ↔
      ∀ c ∈ w.streamerQueue, Describable cfg.szClid (w.chan c) := by
  have hsock : w.sock.isNone = false := by
    rw [Option.isNone_eq_false_iff, Option.isSome_iff_ne_none]
    exact h.sock.1
  have hloop : ∀ sends, w.trySend cfg { io with sends } = World.sendLoop cfg io.now sends w := by
    intro sends
    rw [World.trySend, hsock, hconnected, hready]
    rfl
  simp only [hloop]
  constructor
  · intro hreturns
    obtain ⟨n, w', hw'⟩ := hreturns wholes
    exact (h.offers hw').offers
  · exact fun hoffers o ↦ Outgoing.sendLoop ⟨h, hoffers⟩ io.now o

end World
end TcpIngress
end UdpTun
