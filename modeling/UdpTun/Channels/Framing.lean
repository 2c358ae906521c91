import UdpTun.Channels.Assertions
import UdpTun.Channels.Progress
import UdpTun.Queues.Notices

/-!
# Frames under partial sends

Whatever is done to a channel, and in whatever pieces its frames are taken, what has been taken of a
frame is a beginning of it, what is described is the rest, and `consumed` returns true when there is
no more (`frame_taken_exactly`).  Datagrams may come in meanwhile, and spill files may be loaded,
written and discarded.

`Exact` is the invariant: what has been taken is the part that the channel remembers.
-/

set_option autoImplicit false

namespace UdpTun

/-! ## Records

What `submit` makes is a record that can be sent, and its frame is the one that the far end decodes.
-/

theorem byteAt_succ (v i : Nat) : byteAt v ((i + 1) * 8) = byteAt (v / 256) (i * 8) := by
  apply UInt8.toNat.inj
  have hpow : 2 ^ ((i + 1) * 8) = 256 * 2 ^ (i * 8) := by rw [Nat.add_mul, Nat.pow_add]; omega
  rw [byteAt_toNat, byteAt_toNat, hpow, Nat.div_div_eq_div_mul]

/-- What a client id is after a `memcpy` to memory and back. -/
theorem readClid_clidMem (szClid clid : Nat) :
    readClid (clidMem szClid clid) = clid % 256 ^ szClid := by
  induction szClid generalizing clid with
  | zero => simp [clidMem, readClid, Nat.mod_one]
  | succ n ih =>
    have hcons : clidMem (n + 1) clid = byteAt clid 0 :: clidMem n (clid / 256) := by
      rw [clidMem, List.range_succ_eq_map, List.map_cons, List.map_map, Nat.zero_mul, clidMem]
      simp only [Function.comp_def, Nat.succ_eq_add_one, byteAt_succ]
    rw [hcons, show readClid (byteAt clid 0 :: clidMem n (clid / 256)) =
      readClid (clidMem n (clid / 256)) * 256 + (byteAt clid 0).toNat from rfl, ih, byteAt_toNat,
      Nat.pow_succ', Nat.mod_mul]
    omega

namespace Channel

/-- What `submit` puts in the queue. -/
def record (szClid clid : Nat) (payload : List UInt8) : Payload :=
  [clidMem szClid clid, payload].flatten

section record

variable {szClid clid : Nat} {payload : List UInt8}

theorem record_eq : record szClid clid payload = clidMem szClid clid ++ payload := by
  simp [record]

theorem length_record : (record szClid clid payload).length = szClid + payload.length := by
  simp [record_eq]

/-- **The frame of a record.** -/
theorem frame_record (hsz : 2 ≤ szClid) (hclid : clid < 65536) (label : Nat) :
    frame szClid label (record szClid clid payload) = Message.encode ⟨clid, label, payload⟩ := by
  have htake : (record szClid clid payload).take szClid = clidMem szClid clid := by
    rw [record_eq]
    exact List.take_left' (length_clidMem ..)
  have hdrop : datagram szClid (record szClid clid payload) = payload := by
    rw [record_eq, datagram]
    exact List.drop_left' (length_clidMem ..)
  have hpow : 256 ^ 2 ≤ 256 ^ szClid := Nat.pow_le_pow_right (by decide) hsz
  rw [frame, htake, hdrop, readClid_clidMem, Nat.mod_eq_of_lt (by omega)]

theorem sendable_record (hne : payload ≠ []) (hlen : payload.length ≤ 65535) :
    Sendable szClid (record szClid clid payload) := by
  have hpos := List.length_pos_iff.mpr hne
  constructor <;> rw [length_record] <;> omega

end record

end Channel

namespace PayloadQueue

variable (q : PayloadQueue)

theorem queue_prefix_loaded (es : List (Nat × FileName)) (q : PayloadQueue) :
    q.queue <+: loaded es q := by
  induction es generalizing q with
  | nil => exact List.prefix_rfl
  | cons p rest ih =>
    have hfile : q.queue <+: (q.loadFile p.1 p.2).1.queue := List.prefix_append ..
    exact hfile.trans (ih _)

/-- What is in memory comes first. -/
theorem queue_prefix_held : q.queue <+: q.held := queue_prefix_loaded _ q

/-- **A peek shows the head** of all that the queue holds. -/
theorem peek_eq : q.peek.1 = q.held.head? := by
  have hheld := held_peek q
  rcases peek_cases q with ⟨hsome, -⟩ | ⟨hnone, hnil, hfns, -⟩
  · obtain ⟨pl, hpl⟩ := Option.isSome_iff_exists.mp hsome
    obtain ⟨rest, hrest⟩ := List.head?_eq_some_iff.mp ((queue_peek q).2 pl hpl)
    obtain ⟨more, hmore⟩ := queue_prefix_held q.peek.2.1
    rw [hpl, ← hheld, ← hmore, hrest]
    rfl
  · rw [hnone, ← hheld, held, hfns, loaded, hnil]
    rfl

end PayloadQueue

namespace Channel

/-- A channel, and what is taken from the vectors that it describes. -/
structure Sending where
  chan : Channel
  /-- What `describe` gave last, less what has been taken from its front. -/
  rest : Option (List UInt8)
  /-- What has been taken since the last `failed`, or since the last frame was complete. -/
  taken : List UInt8

namespace Sending

variable (szClid : Nat)

/-- Nothing has been described. -/
def start (c : Channel) : Sending := ⟨c, none, []⟩

/-- One operation. -/
def step (w : Sending) : Outlet.Op → Except Halt Sending
  | .describe => (w.chan.describe szClid []).map fun r ↦
    { w with chan := r.2.2.1, rest := if r.1 then some r.2.1.flatten else none }
  | .consumed k => (w.chan.consumed szClid k).map fun r ↦
    { chan := r.2.1
      rest := if r.1 then none else w.rest.map (·.drop k)
      taken := if r.1 then [] else w.taken ++ (w.rest.getD []).take k }
  | .failed => .ok { chan := w.chan.failed, rest := none, taken := [] }
  | op => (Outlet.step szClid ⟨w.chan, none⟩ op).map fun o ↦ { w with chan := o.chan }

/-- No more is consumed than was described. -/
def Proper (w : Sending) : Outlet.Op → Prop
  | .consumed k => ∃ r ∈ w.rest, k ≤ r.length
  | _ => True

/-- **The invariant.**  What has been taken is the part of the frame that the channel remembers, and
the rest of the frame has been described. -/
structure Exact (label : Nat) (w : Sending) : Prop where
  chan : w.chan.label = label
  order : w.chan.InOrder szClid
  taken : w.taken = w.chan.part szClid
  rest : ∀ r, w.rest = some r → ∃ pl, w.chan.current = some pl ∧
    r = (frame szClid label pl).drop w.chan.done

variable {szClid} {label : Nat} {w w' : Sending}

theorem exact_start {c : Channel} (hc : c.current = none) (hlabel : c.label = label) :
    Exact szClid label (start c) where
  chan := hlabel
  order := by constructor <;> simp [start, hc]
  taken := (part_of_none hc).symm
  rest := nofun

/-- What only adds to the memory of the queue. -/
theorem Exact.withQueue (h : w.Exact szClid label) {q : PayloadQueue}
    (hq : w.chan.queue.queue <+: q.queue) :
    Exact szClid label { w with chan := { w.chan with queue := q } } := by
  obtain ⟨horder, hpart⟩ := h.order.congr (d := { w.chan with queue := q }) rfl rfl rfl hq
  exact ⟨h.chan, horder, h.taken.trans hpart.symm, h.rest⟩

/-- What the rest of a program does adds to the memory of the queue. -/
theorem outlet_step_queue {c : Channel} {op : Outlet.Op} {o : Outlet}
    (hop : op ≠ .describe ∧ (∀ k, op ≠ .consumed k) ∧ op ≠ .failed)
    (hs : Outlet.step szClid ⟨c, none⟩ op = .ok o) :
    ∃ q, o.chan = { c with queue := q } ∧ c.queue.queue <+: q.queue := by
  obtain ⟨hdescribe, hconsumed, hfailed⟩ := hop
  cases op with
  | datagram clid rc now =>
    cases hs
    cases rc with
    | none => exact ⟨c.queue, rfl, List.prefix_rfl⟩
    | some data => exact ⟨_, rfl, PayloadQueue.push_queue ..⟩
  | activate =>
    cases hs
    exact ⟨_, rfl, PayloadQueue.queue_poke _⟩
  | describe => exact absurd rfl hdescribe
  | consumed k => exact absurd rfl (hconsumed k)
  | failed => exact absurd rfl hfailed
  | flush n =>
    cases hs
    exact ⟨_, rfl, by simp⟩
  | discard =>
    obtain ⟨r, hr, ho⟩ := map_ok hs
    subst ho
    exact ⟨_, rfl, by simp [(PayloadQueue.discardFile_sameMemory hr).queue]⟩

theorem Exact.describe (h : w.Exact szClid label) (hs : w.step szClid .describe = .ok w') :
    w'.Exact szClid label := by
  obtain ⟨⟨some', iov, c', l⟩, hd, rfl⟩ := map_ok hs
  obtain ⟨horder, hfollows, hpart, -, hsome⟩ := h.order.describe hd
  have hlabel : c'.label = label := hfollows.label.trans h.chan
  refine ⟨hlabel, horder, h.taken.trans hpart.symm, fun r hr ↦ ?_⟩
  dsimp only at hr
  split at hr
  · obtain ⟨pl, hpl, hiov⟩ := hsome ‹_›
    cases hr
    exact ⟨pl, hpl, by rw [hiov, hlabel]⟩
  · cases hr

/-- **Some is taken**, and the frame is complete then or it is not. -/
theorem Exact.consumed (h : w.Exact szClid label) {r : List UInt8} {k : Nat} (hr : w.rest = some r)
    (hk : k ≤ r.length) : ∃ pl b c' l, w.chan.current = some pl ∧
      w.chan.consumed szClid k = .ok (b, c', l) ∧ c'.InOrder szClid ∧ c'.label = label ∧
      ((b = true ∧ w.taken ++ r.take k = frame szClid label pl ∧ c'.part szClid = [] ∧
          w.chan.queue.consume.1 = some pl ∧ w.chan.queue.held = pl :: c'.queue.held) ∨
        (b = false ∧ c'.part szClid = w.taken ++ r.take k ∧ c'.queue = w.chan.queue ∧
          c'.current = some pl ∧ c'.done = w.chan.done + k)) := by
  obtain ⟨pl, hpl, rfl⟩ := h.rest r hr
  have hlen : (((frame szClid label pl).drop w.chan.done).take k).length = k :=
    List.length_take_of_le hk
  obtain ⟨⟨b, c', l⟩, hc⟩ : ∃ s, w.chan.consumed szClid k = .ok s := by
    rw [Channel.consumed, hpl]
    dsimp only
    split <;> exact ⟨_, rfl⟩
  have hbytes : ((frame szClid label pl).drop w.chan.done).take k =
      ((frame szClid w.chan.label pl).drop w.chan.done).take k := by rw [h.chan]
  have hspec := h.order.consumed hpl hbytes (by rw [hlen]; exact hc)
  rw [h.chan, ← h.taken] at hspec
  obtain ⟨horder, hlabel, ⟨hb, hwhole, hpart, hconsume, -, hheld⟩ | ⟨hb, hpart, hqueue⟩⟩ := hspec
  · exact ⟨pl, b, c', l, hpl, hc, horder, hlabel, .inl ⟨hb, hwhole, hpart, hconsume, hheld⟩⟩
  · obtain ⟨pl', hpl', ⟨htrue, -⟩ | ⟨-, -, rfl, -⟩⟩ := consumed_ok hc
    · cases htrue.symm.trans hb
    · exact ⟨pl, b, _, l, hpl, hc, horder, hlabel, .inr ⟨hb, hpart, hqueue, hpl, rfl⟩⟩

/-- **The step lemma.** -/
theorem Exact.step (h : w.Exact szClid label) {op : Outlet.Op} (hop : w.Proper op)
    (hs : w.step szClid op = .ok w') : w'.Exact szClid label := by
  have hother : (op ≠ .describe ∧ (∀ k, op ≠ .consumed k) ∧ op ≠ .failed) →
      (Outlet.step szClid ⟨w.chan, none⟩ op).map (fun o ↦ { w with chan := o.chan }) = .ok w' →
        w'.Exact szClid label := by
    intro hne hs
    obtain ⟨o, ho, rfl⟩ := map_ok hs
    obtain ⟨q, hchan, hq⟩ := outlet_step_queue hne ho
    rw [hchan]
    exact h.withQueue hq
  cases op with
  | describe => exact h.describe hs
  | consumed k =>
    obtain ⟨r, hr, hk⟩ := hop
    obtain ⟨pl, b, c', l, hpl, hc, horder, hlabel, hcases⟩ := h.consumed hr hk
    rw [Sending.step, hc] at hs
    cases hs
    rcases hcases with ⟨rfl, -, hpart, -⟩ | ⟨rfl, hpart, -, hcurrent, hdone⟩
    · exact ⟨hlabel, horder, hpart.symm, nofun⟩
    · have hr' : w.rest = some r := hr
      refine ⟨hlabel, horder, by simpa [hr'] using hpart.symm, fun r' hr'' ↦ ⟨pl, hcurrent, ?_⟩⟩
      obtain ⟨pl', hpl', hframe⟩ := h.rest r hr'
      cases hpl.symm.trans hpl'
      obtain rfl : r.drop k = r' := by simpa [hr'] using hr''
      rw [hframe, hdone, List.drop_drop]
  | failed =>
    cases hs
    exact ⟨h.chan, ⟨nofun, nofun⟩, rfl, nofun⟩
  | datagram clid rc now => exact hother (by simp) hs
  | activate => exact hother (by simp) hs
  | flush n => exact hother (by simp) hs
  | discard => exact hother (by simp) hs

/-- The current record is the head of all that the queue holds. -/
theorem Exact.head (h : w.Exact szClid label) {pl : Payload} (hpl : w.chan.current = some pl) :
    w.chan.queue.held.head? = some pl := by
  obtain ⟨rest, hrest⟩ := List.head?_eq_some_iff.mp (h.order.head pl hpl)
  obtain ⟨more, hmore⟩ := PayloadQueue.queue_prefix_held w.chan.queue
  rw [← hmore, hrest]
  rfl

/-- **The rest is described**, when a record that can be sent is at the head of the queue. -/
theorem Exact.describe_head (h : w.Exact szClid label) {pl : Payload}
    (hhead : w.chan.queue.held.head? = some pl) (hpl : Sendable szClid pl) :
    ∃ iov c' l, w.chan.describe szClid [] = .ok (true, iov, c', l) ∧
      w.taken ++ iov.flatten = frame szClid label pl := by
  obtain ⟨horder, hfollows, hpart⟩ := h.order.fetch
  have hlabel : w.chan.fetch.1.label = label := hfollows.label.trans h.chan
  have hcurrent : w.chan.fetch.1.current = some pl := by
    rcases w.chan.fetch_cases with ⟨pl', hpl', hf⟩ | ⟨-, hnone, -⟩ | ⟨-, pl', hpeek, hf⟩
    · rw [hf]
      exact hpl'.trans ((h.head hpl').symm.trans hhead)
    · rw [PayloadQueue.peek_eq, hhead] at hnone
      cases hnone
    · rw [hf]
      exact hpeek.symm.trans ((PayloadQueue.peek_eq _).trans hhead)
  obtain ⟨iov, c', hd, hiov, -⟩ := describeCurrent_eq hpl (horder.done pl hcurrent) []
  refine ⟨iov, c', w.chan.fetch.2, ?_, ?_⟩
  · rw [Channel.describe, hcurrent]
    dsimp only
    rw [hd]
    rfl
  · rw [hiov, h.taken, ← hpart, part_of_some hcurrent, hlabel]
    exact List.take_append_drop ..

/-- What has been taken is the beginning of the frame at the head of the queue. -/
theorem Exact.taken_prefix (h : w.Exact szClid label) {pl : Payload}
    (hhead : w.chan.queue.held.head? = some pl) : w.taken <+: frame szClid label pl := by
  rw [h.taken]
  cases hcurrent : w.chan.current with
  | none =>
    rw [part_of_none hcurrent]
    exact List.nil_prefix
  | some pl' =>
    obtain rfl : pl' = pl := Option.some.inj ((h.head hcurrent).symm.trans hhead)
    rw [part_of_some hcurrent, h.chan]
    exact List.take_prefix ..

/-- **The frame is whole**, or something of it is left. -/
theorem Exact.consumed_head (h : w.Exact szClid label) {pl : Payload} {later : List Payload}
    (hhead : w.chan.queue.held = pl :: later) {r : List UInt8} {k : Nat} (hr : w.rest = some r)
    (hk : k ≤ r.length) : ∃ b c' l, w.chan.consumed szClid k = .ok (b, c', l) ∧
      w.taken ++ r.take k <+: frame szClid label pl ∧
      (b = true ↔ w.taken ++ r.take k = frame szClid label pl) ∧
      if b then w.chan.queue.consume.1 = some pl ∧ c'.queue.held = later
      else c'.queue = w.chan.queue := by
  obtain ⟨pl', b, c', l, hpl, hconsumed, horder, hlabel, hcases⟩ := h.consumed hr hk
  obtain rfl : pl' = pl :=
    Option.some.inj ((h.head hpl).symm.trans (by rw [hhead]; rfl))
  refine ⟨b, c', l, hconsumed, ?_⟩
  rcases hcases with ⟨rfl, hwhole, -, hconsume, hheld⟩ | ⟨rfl, hpart, hqueue, hcurrent, -⟩
  · have hlater : c'.queue.held = later := (List.cons.inj (hheld.symm.trans hhead)).2
    exact ⟨by simp [hwhole], iff_of_true rfl hwhole, hconsume, hlater⟩
  · have hlt := horder.done _ hcurrent
    rw [part_of_some hcurrent, hlabel] at hpart
    rw [hlabel] at hlt
    refine ⟨hpart ▸ List.take_prefix .., iff_of_false Bool.false_ne_true fun hwhole ↦ ?_, hqueue⟩
    have hlength := congrArg List.length (hpart.trans hwhole)
    rw [List.length_take] at hlength
    omega

/-- **Exact framing.**  Let a record be at the head of the queue in any state that is reached.  What
has been taken is a beginning of its frame, and `describe` offers the rest.  When more is taken,
that is a beginning of the frame too; `consumed` returns true if it is all of it, and then that
record leaves the queue.  The decoder recovers the record from the whole frame, and waits on
less. -/
theorem frame_taken_exactly {szClid : Nat} (hsz : 2 ≤ szClid) {c : Channel}
    (hc : c.current = none) (hlabel : c.label < 65536) {w : Sending}
    (h : Run.Reach (step szClid) Proper (start c) w) {clid : Nat} (hclid : clid < 65536)
    {payload : List UInt8} (hne : payload ≠ []) (hlen : payload.length ≤ 65535)
    {later : List Payload}
    (hhead : w.chan.queue.held = record szClid clid payload :: later) :
    let f := fieldBytes 2 clid ++ fieldBytes 2 c.label ++ fieldBytes 2 payload.length ++ payload
    w.taken <+: f ∧
      (∃ iov c' l, w.chan.describe szClid [] = .ok (true, iov, c', l) ∧
        w.taken ++ iov.flatten = f) ∧
      (∀ r k, w.rest = some r → k ≤ r.length →
        ∃ b c' l, w.chan.consumed szClid k = .ok (b, c', l) ∧ w.taken ++ r.take k <+: f ∧
          (b = true ↔ w.taken ++ r.take k = f) ∧
          if b then w.chan.queue.consume.1 = some (record szClid clid payload) ∧
            c'.queue.held = later
          else c'.queue = w.chan.queue) ∧
      decodeMessage f = some ⟨clid, c.label, payload.length, payload⟩ ∧
      ∀ p, p <+: f → p ≠ f → decodeMessage p = none := by
  intro f
  have hexact : w.Exact szClid c.label := h.invariant (exact_start hc rfl)
    fun _ _ _ hw hop hs ↦ hw.step hop hs
  have hhead' : w.chan.queue.held.head? = some (record szClid clid payload) := by rw [hhead]; rfl
  have hframe : frame szClid c.label (record szClid clid payload) = f :=
    frame_record hsz hclid c.label
  have hvalid : Message.Valid ⟨clid, c.label, payload⟩ := ⟨hclid, hlabel, Nat.lt_succ_of_le hlen⟩
  have hdecode := decodeMessage_encode hvalid []
  simp only [List.append_nil] at hdecode
  rw [← hframe]
  refine ⟨hexact.taken_prefix hhead', hexact.describe_head hhead' (sendable_record hne hlen),
    fun r k hr hk ↦ hexact.consumed_head hhead hr hk, ?_, fun p hp hpf ↦ ?_⟩
  · rw [hframe]
    exact hdecode
  · rw [hframe] at hp hpf
    have hshort : p.length < f.length :=
      lt_of_le_of_ne hp.length_le fun heq ↦ hpf (hp.eq_of_length heq)
    rw [List.prefix_iff_eq_take.mp hp]
    exact decodeMessage_eq_none hvalid hshort

/-- A frame of eight bytes of which three have been taken. -/
theorem frame_taken_exactly_resumed : ∃ w,
    Run.Reach (step 2) Proper (start (create 5 (.fresh queueMem .empty .empty))) w ∧
      w.taken = [0, 3, 0] ∧ w.rest = some [5, 0, 2, 9, 8] ∧
      (∃ iov c' l, w.chan.describe 2 [] = .ok (true, iov, c', l) ∧
        w.taken ++ iov.flatten = [0, 3, 0, 5, 0, 2, 9, 8]) ∧
      (∀ r k, w.rest = some r → k ≤ r.length → ∃ b c' l, w.chan.consumed 2 k = .ok (b, c', l) ∧
        w.taken ++ r.take k <+: [0, 3, 0, 5, 0, 2, 9, 8] ∧
        (b = true ↔ w.taken ++ r.take k = [0, 3, 0, 5, 0, 2, 9, 8]) ∧
        if b then w.chan.queue.consume.1 = some [3, 0, 9, 8] ∧ c'.queue.held = []
        else c'.queue = w.chan.queue) ∧
      decodeMessage [0, 3, 0, 5, 0, 2, 9, 8] = some ⟨3, 5, 2, [9, 8]⟩ ∧
      ∀ p, p <+: [0, 3, 0, 5, 0, 2, 9, 8] → p ≠ [0, 3, 0, 5, 0, 2, 9, 8] →
        decodeMessage p = none := by
  have hok : Run.Along (step 2) Proper (start (create 5 (.fresh queueMem .empty .empty)))
      [.datagram 3 (some [9, 8]) 1, .describe, .consumed 3] :=
    Run.along_cons rfl trivial <| Run.along_cons rfl trivial <|
      Run.along_cons rfl ⟨[0, 3, 0, 5, 0, 2, 9, 8], rfl, by decide⟩ trivial
  have hreach := Run.reach_of_exec rfl hok
  have hne : ([9, 8] : List UInt8) ≠ [] := by decide
  exact ⟨_, hreach, rfl, rfl, (frame_taken_exactly (by decide) rfl (by decide) hreach
    (by decide : 3 < 65536) hne (by decide) rfl).2⟩

end Sending
end Channel
end UdpTun
