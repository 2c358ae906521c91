import UdpTun.Channels.Progress
import UdpTun.Queues.Notices
import UdpTun.TcpIngress.Exclusion

/-!
# Frames on connections

What is sent on a connection should be whole frames, of records as they come in the queues of their
channels, and then at most a part of one more.  A record should leave its queue only when its frame
is whole on one connection.

The part that has been sent of a frame is remembered by the channel, so when a connection is lost
the channel has to be told.  `sourceFailed` does this, but when the peer hangs up `descriptorReady`
closes the socket and does not.  Then the rest of the frame is the first thing to be sent on the
next connection: `frame_is_split`.  `whole_frames` says that this is the only way: in the runs in
which no peer hangs up in the middle of a frame, all is well.

* `Framed` and `Passes` are what is wanted, of each connection and of each step.
* `Threaded` is the invariant, for runs with and without the condition, and `Framing` the case with.
* `Threaded.sourceSent` is where the work is: some of a frame is sent, and it is whole then or not.
-/

set_option autoImplicit false

namespace UdpTun
namespace TcpIngress

/-- The frame of a record of a channel. -/
def Config.frame {C : Type} (cfg : Config C) (p : C × Payload) : List UInt8 :=
  Channel.frame cfg.szClid (cfg.label p.1) p.2

namespace World

variable {C : Type} [DecidableEq C] {cfg : Config C} {w w' w'' : World C} {c c' : C} {io : Io}
  {r loose : Prop}

/-! ## What has been sent

Each connection has the bytes that have been sent on it, and the records that have left their queues
meanwhile.  What is required relates the two. -/

/-- The records that have left the queue of a channel, all connections taken together. -/
def delivered (w : World C) (c : C) : List Payload :=
  (w.wires.reverse.flatMap (·.taken)).filterMap fun p ↦ if p.1 = c then some p.2 else none

/-- **Whole frames, and at most a part of one more**, which is the frame of a record that is still
in memory, or has been sent since. -/
def Framed (cfg : Config C) (w : World C) (wire : Wire C) : Prop :=
  ∃ part, wire.bytes = wire.taken.flatMap cfg.frame ++ part ∧
    (part = [] ∨ ∃ c, ∃ pl ∈ w.delivered c ++ (w.chan c).queue.queue,
      part <+: cfg.frame (c, pl) ∧ part ≠ cfg.frame (c, pl))

/-- **Records leave from the head of their queue**, and are delivered then.  Of a step that only
reads, it is also said that nothing is lost from files. -/
def Passes (reads : Prop) (w w' : World C) : Prop :=
  ∀ c, ∃ sent, w'.delivered c = w.delivered c ++ sent ∧
    (w.chan c).queue.queue <+: sent ++ (w'.chan c).queue.queue ∧
      (reads → (w.chan c).queue.held = sent ++ (w'.chan c).queue.held)

/-- What happens leaves it to the channels to read and consume their records. -/
def Reads : Act C → Prop
  | .submit .. | .flush .. | .discard _ => False
  | _ => True

/-- The channel at the head of the sources is not in the middle of a frame. -/
def Between (w : World C) : Prop :=
  ∀ c ∈ w.streamerQueue.head?, (w.chan c).current = none ∨ (w.chan c).done = 0

/-- **No peer hangs up in the middle of a frame.** -/
def Unbroken (w : World C) : Act C → Prop
  | .notify .fdev _ =>
    (w.sched.event .fdev).prioAppl ≠ 0 ∧ w.connected ∧ hangsUp (w.sched.event .fdev).got →
      w.Between
  | _ => True

instance (w : World C) : Decidable w.Between := by unfold Between; infer_instance

instance (w : World C) : DecidablePred w.Unbroken := fun a ↦
  match a with
  | .notify .fdev _ => inferInstanceAs (Decidable (_ → _))
  | .notify .rstev _ | .notify .sigev _ | .notify (.queueEvent _) _ => .isTrue trivial
  | .submit .. | .activate _ | .flush .. | .discard _ | .lookupEnds .. | .raise | .poll .. =>
    .isTrue trivial

/-! ## Passing on

A step hands some records from the queues to the connections.  What is in neither is lost. -/

theorem passes_of_eq (hchan : w'.chan = w.chan) (hwires : w'.wires = w.wires) :
    Passes r w w' := by
  intro c
  refine ⟨[], ?_, ?_, fun _ ↦ ?_⟩
  · rw [delivered, hwires, List.append_nil]
    rfl
  · rw [hchan]
    exact List.prefix_rfl
  · rw [hchan]
    rfl

theorem Passes.trans (h : Passes r w w') (h' : Passes r w' w'') : Passes r w w'' := by
  intro c
  obtain ⟨sent, hdelivered, hmemory, hheld⟩ := h c
  obtain ⟨sent', hdelivered', hmemory', hheld'⟩ := h' c
  refine ⟨sent ++ sent', ?_, ?_, fun hr ↦ ?_⟩
  · rw [hdelivered', hdelivered, List.append_assoc]
  · rw [List.append_assoc]
    exact hmemory.trans ((List.prefix_append_right_inj sent).mpr hmemory')
  · rw [hheld hr, hheld' hr, List.append_assoc]

/-- A record is not forgotten. -/
theorem Passes.mem (h : Passes r w w') {pl : Payload}
    (hpl : pl ∈ w.delivered c ++ (w.chan c).queue.queue) :
    pl ∈ w'.delivered c ++ (w'.chan c).queue.queue := by
  obtain ⟨sent, hdelivered, hmemory, -⟩ := h c
  rw [hdelivered, List.append_assoc]
  rcases List.mem_append.mp hpl with hpl | hpl
  · exact List.mem_append_left _ hpl
  · exact List.mem_append_right _ (hmemory.subset hpl)

theorem Framed.mono {wire : Wire C} (h : w.Framed cfg wire) (hp : Passes r w w') :
    w'.Framed cfg wire := by
  obtain ⟨part, hbytes, hpart⟩ := h
  refine ⟨part, hbytes, hpart.imp_right ?_⟩
  rintro ⟨c, pl, hpl, hpre⟩
  exact ⟨c, pl, hp.mem hpl, hpre⟩

/-- More is sent on the last connection, and records of one channel leave its queue. -/
theorem delivered_extend {wire wire' : Wire C} {past : List (Wire C)} {sent : List Payload}
    (hwires : w.wires = wire :: past) (hwires' : w'.wires = wire' :: past)
    (htaken : wire'.taken = wire.taken ++ sent.map (c, ·)) (c' : C) :
    w'.delivered c' = w.delivered c' ++ if c = c' then sent else [] := by
  have hsent : (sent.map (c, ·)).filterMap (fun p ↦ if p.1 = c' then some p.2 else none) =
      if c = c' then sent else [] := by
    rw [List.filterMap_map]
    by_cases hc : c = c' <;> simp [hc]
  rw [delivered, delivered, hwires, hwires', List.reverse_cons, List.reverse_cons,
    List.flatMap_append, List.flatMap_append, List.flatMap_singleton, List.flatMap_singleton,
    htaken, ← List.append_assoc, List.filterMap_append, hsent]

/-! ## The invariant

It is parametrized by whether frames may be loose, that is, begun on one connection and ended on the
next; so it serves for runs in which peers hang up at any time as well. -/

/-- What has been sent of the frame of the channel at the head of the sources. -/
def part (cfg : Config C) (w : World C) : List UInt8 :=
  match w.streamerQueue with
  | [] => []
  | c :: _ => (w.chan c).part cfg.szClid

/-- No channel but the head of the sources is in the middle of a frame, and that one only while
there is a connection; and the part of its frame is the last thing sent on it. -/
structure Framing (cfg : Config C) (w : World C) : Prop where
  label : ∀ c, (w.chan c).label = cfg.label c
  inOrder : ∀ c, (w.chan c).InOrder cfg.szClid
  whole : ∀ c, (w.chan c).part cfg.szClid ≠ [] →
    w.sock ≠ none ∧ w.connected ∧ w.streamerQueue.head? = some c
  framed : ∀ wire ∈ w.wires, w.Framed cfg wire
  latest : w.sock ≠ none → ∃ wire past, w.wires = wire :: past ∧
    wire.bytes = wire.taken.flatMap cfg.frame ++ w.part cfg

/-- Less has been sent before of the first frame than all of it. -/
def Begun (cfg : Config C) (before : List UInt8) (wire : Wire C) : Prop :=
  ∀ p ∈ wire.taken.head?, before.length < (cfg.frame p).length

/-- A connection that begins with the rest of a frame, if they may: together with what has been sent
of that before, it has whole frames, and at most a part of one more. -/
def Thread (cfg : Config C) (loose : Prop) (w : World C) (wire : Wire C) : Prop :=
  ∃ before, (before = [] ∨ loose) ∧ Begun cfg before wire ∧
    w.Framed cfg ⟨before ++ wire.bytes, wire.taken⟩

/-- No channel but the head of the sources is in the middle of a frame, and the part of it is the
last thing sent on the last connection, or was sent before.  Unless frames may be `loose`, this is
`Framing`. -/
structure Threaded (cfg : Config C) (loose : Prop) (w : World C) : Prop where
  label : ∀ c, (w.chan c).label = cfg.label c
  inOrder : ∀ c, (w.chan c).InOrder cfg.szClid
  whole : ∀ c, (w.chan c).part cfg.szClid ≠ [] →
    w.streamerQueue.head? = some c ∧ (w.sock ≠ none ∧ w.connected ∨ loose)
  threads : ∀ wire ∈ w.wires, w.Thread cfg loose wire
  latest : w.sock ≠ none → ∃ wire past before, w.wires = wire :: past ∧
    (before = [] ∨ loose) ∧ Begun cfg before wire ∧
      before ++ wire.bytes = wire.taken.flatMap cfg.frame ++ w.part cfg

omit [DecidableEq C] in
theorem begun_nil (cfg : Config C) (wire : Wire C) : Begun cfg [] wire := by
  intro p _
  rw [Config.frame, Channel.length_frame]
  exact Nat.lt_of_lt_of_le (by decide : 0 < headerBytes) (Nat.le_add_right ..)

/-- Where frames are not loose, connections begin with whole frames. -/
theorem thread_false {wire : Wire C} : w.Thread cfg False wire ↔ w.Framed cfg wire := by
  constructor
  · rintro ⟨_, rfl | hfalse, -, hframed⟩
    · exact hframed
    · exact hfalse.elim
  · exact fun h ↦ ⟨[], .inl rfl, begun_nil cfg wire, h⟩

theorem framing_iff : w.Framing cfg ↔ w.Threaded cfg False := by
  constructor
  · rintro ⟨hlabel, horder, hwhole, hframed, hlatest⟩
    refine ⟨hlabel, horder, fun c hne ↦ ?_, fun wire hwire ↦ thread_false.mpr (hframed wire hwire),
      fun hsock ↦ ?_⟩
    · obtain ⟨hsock, hconnected, hhead⟩ := hwhole c hne
      exact ⟨hhead, .inl ⟨hsock, hconnected⟩⟩
    · obtain ⟨wire, past, hwires, hbytes⟩ := hlatest hsock
      exact ⟨wire, past, [], hwires, .inl rfl, begun_nil cfg wire, hbytes⟩
  · rintro ⟨hlabel, horder, hwhole, hthreads, hlatest⟩
    refine ⟨hlabel, horder, fun c hne ↦ ?_, fun wire hwire ↦ thread_false.mp (hthreads wire hwire),
      fun hsock ↦ ?_⟩
    · obtain ⟨hhead, hopen⟩ := hwhole c hne
      obtain ⟨hsock, hconnected⟩ := hopen.resolve_right id
      exact ⟨hsock, hconnected, hhead⟩
    · obtain ⟨wire, past, before, hwires, rfl | hfalse, -, hbytes⟩ := hlatest hsock
      · exact ⟨wire, past, hwires, hbytes⟩
      · exact hfalse.elim

theorem Thread.mono {wire : Wire C} (h : w.Thread cfg loose wire) (hp : Passes r w w') :
    w'.Thread cfg loose wire := by
  obtain ⟨before, hloose, hbegun, hframed⟩ := h
  exact ⟨before, hloose, hbegun, hframed.mono hp⟩

theorem threaded_init (cfg : Config C) (loose : Prop) (queue : C → PayloadQueue) :
    (init cfg queue).Threaded cfg loose := by
  refine ⟨fun _ ↦ rfl, fun c ↦ ⟨fun _ hpl ↦ ?_, fun _ hpl ↦ ?_⟩, fun c hpart ↦ ?_,
    fun wire hwire ↦ ?_, fun hsock ↦ absurd rfl hsock⟩
  · cases hpl
  · cases hpl
  · exact absurd rfl hpart
  · cases hwire

omit [DecidableEq C] in
/-- The head of the sources is all that there is to look at. -/
theorem part_eq_nil (h : ∀ c, (w.chan c).part cfg.szClid = []) : w.part cfg = [] := by
  rw [part]
  split
  · rfl
  · exact h _

/-- The part that has been sent is not the whole. -/
theorem framed_part (hlabel : ∀ c, (w.chan c).label = cfg.label c)
    (horder : ∀ c, (w.chan c).InOrder cfg.szClid) {wire : Wire C}
    (hbytes : wire.bytes = wire.taken.flatMap cfg.frame ++ w.part cfg) : w.Framed cfg wire := by
  refine ⟨_, hbytes, ?_⟩
  rw [part]
  split
  · exact .inl rfl
  · rename_i c _ _
    refine (horder c).part_cases.imp_right ?_
    rintro ⟨pl, hpl, hpart⟩
    rw [hlabel] at hpart
    exact ⟨c, pl, List.mem_append_right _ hpl, hpart⟩

/-- No frame has got any further. -/
theorem Threaded.of_parts (h : w.Threaded cfg loose) (hp : Passes r w w')
    (hlabel : ∀ c, (w'.chan c).label = (w.chan c).label)
    (horder : ∀ c, (w'.chan c).InOrder cfg.szClid)
    (hparts : ∀ c, (w'.chan c).part cfg.szClid = (w.chan c).part cfg.szClid)
    (hqueue : w'.streamerQueue = w.streamerQueue) (hsock : w'.sock = w.sock)
    (hconnected : w'.connected = w.connected) (hwires : w'.wires = w.wires) :
    w'.Threaded cfg loose := by
  have hpart : w'.part cfg = w.part cfg := by
    rw [part, part, hqueue]
    split
    · rfl
    · exact hparts _
  refine ⟨fun c ↦ (hlabel c).trans (h.label c), horder, fun c hne ↦ ?_, fun wire hwire ↦ ?_, ?_⟩
  · rw [hparts] at hne
    rw [hsock, hconnected, hqueue]
    exact h.whole c hne
  · rw [hwires] at hwire
    exact (h.threads wire hwire).mono hp
  · rw [hsock, hwires, hpart]
    exact h.latest

/-- Nothing changes that this is about. -/
theorem Threaded.congr (h : w.Threaded cfg loose) (hchan : w'.chan = w.chan)
    (hqueue : w'.streamerQueue = w.streamerQueue) (hsock : w'.sock = w.sock)
    (hconnected : w'.connected = w.connected) (hwires : w'.wires = w.wires) :
    w'.Threaded cfg loose ∧ Passes r w w' := by
  have hp : Passes r w w' := passes_of_eq hchan hwires
  refine ⟨h.of_parts hp ?_ ?_ ?_ hqueue hsock hconnected hwires, hp⟩ <;> rw [hchan]
  · exact fun _ ↦ rfl
  · exact h.inOrder
  · exact fun _ ↦ rfl

/-- No channel is in the middle of a frame. -/
theorem threaded_between (hlabel : ∀ c, (w.chan c).label = cfg.label c)
    (horder : ∀ c, (w.chan c).InOrder cfg.szClid)
    (hparts : ∀ c, (w.chan c).part cfg.szClid = [])
    (hthreads : ∀ wire ∈ w.wires, w.Thread cfg loose wire)
    (hlatest : w.sock ≠ none → ∃ wire past before, w.wires = wire :: past ∧
      (before = [] ∨ loose) ∧ Begun cfg before wire ∧
        before ++ wire.bytes = wire.taken.flatMap cfg.frame) : w.Threaded cfg loose := by
  refine ⟨hlabel, horder, fun c hne ↦ absurd (hparts c) hne, hthreads, fun hsock ↦ ?_⟩
  rw [part_eq_nil hparts]
  simpa using hlatest hsock

/-- Without a connection no channel is in the middle of a frame, unless frames may be loose. -/
theorem Threaded.idle (h : w.Threaded cfg loose) (hlost : w.sock = none ∨ w.connected = false) :
    (∀ c, (w.chan c).part cfg.szClid = []) ∨ loose := by
  by_contra hno
  rw [not_or, not_forall] at hno
  obtain ⟨⟨c, hpart⟩, hloose⟩ := hno
  obtain ⟨hsock, hconnected⟩ := (h.whole c hpart).2.resolve_right hloose
  rcases hlost with hnone | hfalse
  · exact hsock hnone
  · rw [hfalse] at hconnected
    cases hconnected

/-- Only the head of the sources can be. -/
theorem Threaded.others (h : w.Threaded cfg loose) {rest : List C}
    (hhead : w.streamerQueue = c :: rest) (hne : c' ≠ c) : (w.chan c').part cfg.szClid = [] := by
  by_contra hpart
  have hhead' := (h.whole c' hpart).1
  rw [hhead] at hhead'
  exact hne (Option.some.inj hhead').symm

/-- With the head between two frames, none is. -/
theorem Threaded.between (h : w.Threaded cfg loose) (hb : w.Between) (c : C) :
    (w.chan c).part cfg.szClid = [] := by
  by_contra hpart
  rcases hb c (h.whole c hpart).1 with hnone | hzero
  · exact hpart (Channel.part_of_none hnone)
  · refine hpart ?_
    rw [Channel.part, hzero]
    split <;> rfl

theorem Threaded.latest_between (h : w.Threaded cfg loose)
    (hparts : ∀ c, (w.chan c).part cfg.szClid = []) (hsock : w.sock ≠ none) :
    ∃ wire past before, w.wires = wire :: past ∧ (before = [] ∨ loose) ∧ Begun cfg before wire ∧
      before ++ wire.bytes = wire.taken.flatMap cfg.frame := by
  obtain ⟨wire, past, before, hwires, hloose, hbegun, hbytes⟩ := h.latest hsock
  rw [part_eq_nil hparts, List.append_nil] at hbytes
  exact ⟨wire, past, before, hwires, hloose, hbegun, hbytes⟩

/-! ## Channels

Operations on queues other than those of sending leave the frames where they are. -/

/-- A frame has got no further, and the queue holds no less. -/
theorem Threaded.update (h : w.Threaded cfg loose) {ch : Channel} (l : List PayloadQueue.Call)
    (horder : ch.InOrder cfg.szClid) (hlabel : ch.label = (w.chan c).label)
    (hpart : ch.part cfg.szClid = (w.chan c).part cfg.szClid)
    (hmemory : (w.chan c).queue.queue <+: ch.queue.queue)
    (hheld : r → ch.queue.held = (w.chan c).queue.held) :
    (w.update c ch l).Threaded cfg loose ∧ Passes r w (w.update c ch l) := by
  obtain ⟨-, hqueue, hwires⟩ := update_streamers w c ch l
  have hsources := update_sources w c ch l
  have hp : Passes r w (w.update c ch l) := by
    intro c'
    refine ⟨[], by rw [delivered, hwires, List.append_nil]; rfl, ?_⟩
    exact update_forall (P := fun c' d ↦ (w.chan c').queue.queue <+: [] ++ d.queue.queue ∧
        (r → (w.chan c').queue.held = [] ++ d.queue.held))
      ⟨hmemory, fun hr ↦ (hheld hr).symm⟩ (fun c' _ ↦ ⟨List.prefix_rfl, fun _ ↦ rfl⟩) c'
  refine ⟨h.of_parts hp ?_ ?_ ?_ hqueue hsources.sock hsources.connected hwires, hp⟩
  · exact update_forall (P := fun c' d ↦ d.label = (w.chan c').label) hlabel fun _ _ ↦ rfl
  · exact update_forall (P := fun _ d ↦ d.InOrder cfg.szClid) horder fun c' _ ↦ h.inOrder c'
  · exact update_forall (P := fun c' d ↦ d.part cfg.szClid = (w.chan c').part cfg.szClid) hpart
      fun _ _ ↦ rfl

/-- The queue has been operated on, but nothing has left it. -/
theorem Threaded.withQueue (h : w.Threaded cfg loose) {q : PayloadQueue}
    (l : List PayloadQueue.Call)
    (hmemory : (w.chan c).queue.queue <+: q.queue)
    (hheld : r → q.held = (w.chan c).queue.held) :
    (w.update c { w.chan c with queue := q } l).Threaded cfg loose ∧
      Passes r w (w.update c { w.chan c with queue := q } l) := by
  obtain ⟨horder, hpart⟩ := (h.inOrder c).congr (d := { w.chan c with queue := q }) rfl rfl rfl
    hmemory
  exact h.update l horder rfl hpart hmemory hheld

/-- A source is dropped that is not in the middle of a frame. -/
theorem Threaded.dropSource (h : w.Threaded cfg loose) {rest : List C}
    (hhead : w.streamerQueue = c :: rest)
    (hpart : (w.chan c).part cfg.szClid = []) : (w.dropSource c).Threaded cfg loose := by
  have hparts : ∀ c', (w.chan c').part cfg.szClid = [] := by
    intro c'
    by_cases hc : c' = c
    · rw [hc, hpart]
    · exact h.others hhead hc
  exact threaded_between h.label h.inOrder hparts
    (fun wire hwire ↦ (h.threads wire hwire).mono (r := True) (passes_of_eq rfl rfl))
    (h.latest_between hparts)

/-! ## Sending

The head of the sources is in the middle of a frame, or is about to begin one.  What is sent of it
is added to the last connection. -/

/-- More is sent on the last connection, and records leave the queue of one channel. -/
theorem passes_extend {wire wire' : Wire C} {past : List (Wire C)} {ch : Channel}
    {l : List PayloadQueue.Call} {w₁ : World C} (sent : List Payload) (hchan : w₁.chan = w.chan)
    (hwires : w.wires = wire :: past) (hwires' : w₁.wires = wire' :: past)
    (htaken : wire'.taken = wire.taken ++ sent.map (c, ·))
    (hmemory : (w.chan c).queue.queue <+: sent ++ ch.queue.queue)
    (hheld : (w.chan c).queue.held = sent ++ ch.queue.held) :
    Passes True w (w₁.update c ch l) := by
  intro c'
  have hdelivered :=
    delivered_extend hwires ((update_streamers w₁ c ch l).2.2.trans hwires') htaken c'
  by_cases hc : c' = c
  · subst hc
    rw [if_pos rfl] at hdelivered
    rw [update_self]
    exact ⟨sent, hdelivered, hmemory, fun _ ↦ hheld⟩
  · rw [if_neg (Ne.symm hc)] at hdelivered
    rw [update_of_ne _ _ _ hc, hchan]
    exact ⟨[], hdelivered, List.prefix_rfl, fun _ ↦ rfl⟩

/-- The connections before the last one are left alone. -/
theorem Threaded.threads_cons (h : w.Threaded cfg loose) {wire wire' : Wire C}
    {past : List (Wire C)} (hwires : w.wires = wire :: past) (hwires' : w'.wires = wire' :: past)
    (hp : Passes True w w') (hlast : w'.Thread cfg loose wire') :
    ∀ x ∈ w'.wires, w'.Thread cfg loose x := by
  intro x hx
  rw [hwires'] at hx
  rcases List.mem_cons.mp hx with rfl | hx
  · exact hlast
  · exact (h.threads x (by rw [hwires]; exact List.mem_cons_of_mem _ hx)).mono hp

/-- **The rest of a frame is sent**, and its record is delivered. -/
theorem Threaded.sentWhole (h : w.Threaded cfg loose) {rest : List C}
    (hhead : w.streamerQueue = c :: rest) {pl : Payload} {bytes : List UInt8} {ch : Channel}
    {l : List PayloadQueue.Call} {w₁ : World C}
    {wire : Wire C} {past : List (Wire C)} {before : List UInt8} (hchan : w₁.chan = w.chan)
    (hwires : w.wires = wire :: past)
    (hwires₁ : w₁.wires = ⟨wire.bytes ++ bytes, wire.taken ++ [(c, pl)]⟩ :: past)
    (hloose : before = [] ∨ loose)
    (hbegun : Begun cfg before ⟨wire.bytes ++ bytes, wire.taken ++ [(c, pl)]⟩)
    (hbytes : before ++ (wire.bytes ++ bytes) = (wire.taken ++ [(c, pl)]).flatMap cfg.frame)
    (horder : ch.InOrder cfg.szClid) (hlabel : ch.label = (w.chan c).label)
    (hnil : ch.part cfg.szClid = [])
    (hmemory : (w.chan c).queue.queue <+: pl :: ch.queue.queue)
    (hheld : (w.chan c).queue.held = pl :: ch.queue.held) :
    (∀ c', ((w₁.update c ch l).chan c').part cfg.szClid = []) ∧
      (w₁.update c ch l).Threaded cfg loose ∧ Passes True w (w₁.update c ch l) := by
  have hwires' := (update_streamers w₁ c ch l).2.2.trans hwires₁
  have hp : Passes True w (w₁.update c ch l) :=
    passes_extend [pl] hchan hwires hwires₁ rfl hmemory hheld
  have hparts : ∀ c', ((w₁.update c ch l).chan c').part cfg.szClid = [] :=
    update_forall (P := fun _ d ↦ d.part cfg.szClid = []) hnil fun c' hc ↦ by
      rw [hchan]
      exact h.others hhead hc
  refine ⟨hparts, threaded_between ?_ ?_ hparts ?_
    fun _ ↦ ⟨_, past, before, hwires', hloose, hbegun, hbytes⟩, hp⟩
  · exact update_forall (P := fun c' d ↦ d.label = cfg.label c') (hlabel.trans (h.label c))
      fun c' _ ↦ by rw [hchan, h.label]
  · exact update_forall (P := fun _ d ↦ d.InOrder cfg.szClid) horder fun c' _ ↦ by
      rw [hchan]
      exact h.inOrder c'
  · exact h.threads_cons hwires hwires' hp ⟨before, hloose, hbegun,
      [], by rw [List.append_nil]; exact hbytes, .inl rfl⟩

/-- **More of a frame is sent**, and there is still more of it. -/
theorem Threaded.sentPart (h : w.Threaded cfg loose) {rest : List C}
    (hhead : w.streamerQueue = c :: rest) {bytes : List UInt8} {ch : Channel}
    {l : List PayloadQueue.Call} {w₁ : World C}
    {wire : Wire C} {past : List (Wire C)} {before : List UInt8} (hchan : w₁.chan = w.chan)
    (hqueue₁ : w₁.streamerQueue = w.streamerQueue) (hsock₁ : w₁.sock ≠ none)
    (hconnected₁ : w₁.connected) (hwires : w.wires = wire :: past)
    (hwires₁ : w₁.wires = ⟨wire.bytes ++ bytes, wire.taken⟩ :: past)
    (hloose : before = [] ∨ loose) (hbegun : Begun cfg before wire)
    (hlast : before ++ wire.bytes = wire.taken.flatMap cfg.frame ++ (w.chan c).part cfg.szClid)
    (horder : ch.InOrder cfg.szClid) (hlabel : ch.label = (w.chan c).label)
    (hmore : ch.part cfg.szClid = (w.chan c).part cfg.szClid ++ bytes)
    (hsame : ch.queue = (w.chan c).queue) :
    (w₁.update c ch l).Threaded cfg loose ∧ Passes True w (w₁.update c ch l) := by
  have hwires' := (update_streamers w₁ c ch l).2.2.trans hwires₁
  have hsources := update_sources w₁ c ch l
  have hqueue : (w₁.update c ch l).streamerQueue = c :: rest := by
    rw [(update_streamers ..).2.1, hqueue₁, hhead]
  have hp : Passes True w (w₁.update c ch l) :=
    passes_extend [] hchan hwires hwires₁ (List.append_nil _).symm (by simp [hsame])
      (by rw [hsame]; rfl)
  have hbytes' : before ++ (wire.bytes ++ bytes) =
      wire.taken.flatMap cfg.frame ++ (w₁.update c ch l).part cfg := by
    have hpart : (w₁.update c ch l).part cfg = (w.chan c).part cfg.szClid ++ bytes := by
      rw [part, hqueue]
      dsimp only
      rw [update_self, hmore]
    rw [hpart, ← List.append_assoc, hlast, List.append_assoc]
  have hlabels := update_forall (w := w₁) (c := c) (l := l)
    (P := fun c' d ↦ d.label = cfg.label c') (hlabel.trans (h.label c))
    fun c' _ ↦ by rw [hchan, h.label]
  have horders := update_forall (w := w₁) (c := c) (l := l)
    (P := fun _ d ↦ d.InOrder cfg.szClid) horder fun c' _ ↦ by
      rw [hchan]
      exact h.inOrder c'
  refine ⟨⟨hlabels, horders, fun c' hne ↦ ?_, ?_,
    fun _ ↦ ⟨_, past, before, hwires', hloose, hbegun, hbytes'⟩⟩, hp⟩
  · refine ⟨?_, .inl ⟨by rwa [hsources.sock], by rwa [hsources.connected]⟩⟩
    rw [hqueue, List.head?_cons]
    by_contra hc
    have hne' : c' ≠ c := fun heq ↦ hc (by rw [heq])
    rw [update_of_ne _ _ _ hne', hchan] at hne
    exact hne (h.others hhead hne')
  · exact h.threads_cons hwires hwires' hp
      ⟨before, hloose, hbegun, framed_part hlabels horders hbytes'⟩

/-- The first frame is the one that is to become whole, or has been whole before. -/
theorem Threaded.begun_append (h : w.Threaded cfg loose) {pl : Payload}
    (hpl : (w.chan c).current = some pl) {wire : Wire C} {before : List UInt8}
    (hbegun : Begun cfg before wire)
    (hlast : before ++ wire.bytes = wire.taken.flatMap cfg.frame ++ (w.chan c).part cfg.szClid)
    (bytes : List UInt8) : Begun cfg before ⟨bytes, wire.taken ++ [(c, pl)]⟩ := by
  intro p hp
  cases htaken : wire.taken with
  | cons p' taken =>
    refine hbegun p ?_
    rw [htaken] at hp ⊢
    exact hp
  | nil =>
    rw [htaken] at hp hlast
    obtain rfl : (c, pl) = p := Option.some.inj hp
    have hlen := congrArg List.length hlast
    rw [Channel.part_of_some hpl, List.length_append, List.flatMap_nil, List.nil_append,
      List.length_take] at hlen
    have hdone := (h.inOrder c).done pl hpl
    rw [h.label] at hlen hdone
    show before.length < (Channel.frame cfg.szClid (cfg.label c) pl).length
    omega

/-- **Some of a frame is sent.**  When it is whole, its record is delivered. -/
theorem Threaded.sourceSent (h : w.Threaded cfg loose) (hsock : w.sock ≠ none)
    (hconnected : w.connected) {rest : List C} (hhead : w.streamerQueue = c :: rest) {pl : Payload}
    (hpl : (w.chan c).current = some pl) {bytes : List UInt8} {n : Nat}
    (hbytes : bytes = ((Channel.frame cfg.szClid (w.chan c).label pl).drop (w.chan c).done).take n)
    (hw : w.sourceSent cfg c bytes = .ok w') : w'.Threaded cfg loose ∧ Passes True w w' := by
  obtain ⟨allDone, ch, l, hconsumed, w₁, hw₁, rfl⟩ := sourceSent_ok hw
  obtain ⟨wire, past, before, hwires, hloose, hbegun, hlast⟩ := h.latest hsock
  obtain ⟨horder, hlabel, hcases⟩ := (h.inOrder c).consumed hpl hbytes hconsumed
  have hpart : w.part cfg = (w.chan c).part cfg.szClid := by rw [part, hhead]
  rw [hpart] at hlast
  rw [hwires] at hw₁
  dsimp only at hw₁
  have hchan : w₁.chan = w.chan := by rw [hw₁]
  rcases hcases with ⟨rfl, hwhole, hnil, hconsume, hmemory, hheld⟩ | ⟨rfl, hmore, hsame⟩
  · rw [if_pos rfl, hconsume] at hw₁
    rw [if_pos rfl]
    have hbytes' : before ++ (wire.bytes ++ bytes) =
        (wire.taken ++ [(c, pl)]).flatMap cfg.frame := by
      rw [← List.append_assoc, hlast, List.append_assoc, hwhole, h.label, List.flatMap_append,
        List.flatMap_singleton]
      rfl
    obtain ⟨hparts, hthreaded, hp⟩ := h.sentWhole (l := l) hhead hchan hwires (by rw [hw₁]; rfl)
      hloose (h.begun_append hpl hbegun hlast _) hbytes' horder hlabel hnil hmemory hheld
    have hqueue : (w₁.update c ch l).streamerQueue = c :: rest := by
      rw [(update_streamers ..).2.1, hw₁, ← hhead]
    exact ⟨hthreaded.dropSource hqueue (hparts c), hp.trans (passes_of_eq rfl rfl)⟩
  · rw [if_neg Bool.false_ne_true] at hw₁
    rw [if_neg Bool.false_ne_true]
    exact h.sentPart hhead hchan (by rw [hw₁]) (by rwa [hw₁]) (by rwa [hw₁]) hwires
      (by rw [hw₁, List.append_nil]) hloose hbegun hlast horder hlabel hmore hsame

/-- The scheduler does not matter. -/
theorem Threaded.sched (h : w.Threaded cfg loose) (s : Scheduler (Ev C)) :
    Threaded cfg loose { w with sched := s } ∧ Passes r w { w with sched := s } :=
  h.congr rfl rfl rfl rfl rfl

theorem Threaded.setFdev {events : Mask} (h : w.Threaded cfg loose)
    (hw : w.setFdev events = .ok w') : w'.Threaded cfg loose ∧ Passes r w w' := by
  obtain ⟨fd, s', -, rfl, -⟩ := setFdev_ok hw
  exact h.sched s'

/-- A connection is closed between two frames, unless frames may be loose. -/
theorem Threaded.clearSocket (h : w.Threaded cfg loose)
    (hparts : (∀ c, (w.chan c).part cfg.szClid = []) ∨ loose) (hw : w.clearSocket = .ok w') :
    w'.Threaded cfg loose ∧ Passes r w w' ∧ w'.sock = none := by
  obtain ⟨s', rfl, -⟩ := clearSocket_ok hw
  have hp : Passes r w { w with sched := s', sock := none } := passes_of_eq rfl rfl
  refine ⟨⟨h.label, h.inOrder, fun c hne ↦ ?_, fun wire hwire ↦ (h.threads wire hwire).mono hp,
    fun hsock ↦ absurd rfl hsock⟩, hp, rfl⟩
  exact ⟨(h.whole c hne).1, .inr (hparts.resolve_left fun hnil ↦ hne (hnil c))⟩

theorem Threaded.sourceBlocked (h : w.Threaded cfg loose) (hw : w.sourceBlocked cfg c = .ok w') :
    w'.Threaded cfg loose ∧ Passes r w w' := by
  obtain ⟨allDone, ch, l, hconsumed, hset⟩ := sourceBlocked_ok hw
  obtain rfl := (h.inOrder c).consumed_zero hconsumed
  obtain ⟨hupdate, hp⟩ := h.update (r := r) l (h.inOrder c) rfl rfl List.prefix_rfl
    fun _ ↦ rfl
  obtain ⟨hthreaded, hp'⟩ := hupdate.setFdev hset
  exact ⟨hthreaded, hp.trans hp'⟩

/-- **The channel is told** when sending fails, and begins its frame again. -/
theorem Threaded.sourceFailed {now : TimePoint} {rest : List C} (h : w.Threaded cfg loose)
    (hhead : w.streamerQueue = c :: rest) (hw : w.sourceFailed c now = .ok w') :
    w'.Threaded cfg loose ∧ Passes r w w' := by
  obtain ⟨w₁, hclear, rfl⟩ := sourceFailed_ok hw
  obtain ⟨s', rfl, -⟩ := clearSocket_ok hclear
  obtain ⟨-, -, hwires⟩ := update_streamers w c (w.chan c).failed []
  have hall : ∀ c', ((w.update c (w.chan c).failed []).chan c').label = cfg.label c' ∧
      ((w.update c (w.chan c).failed []).chan c').InOrder cfg.szClid ∧
        ((w.update c (w.chan c).failed []).chan c').part cfg.szClid = [] ∧
          ((w.update c (w.chan c).failed []).chan c').queue = (w.chan c').queue := by
    exact update_forall (P := fun c' d ↦ d.label = cfg.label c' ∧ d.InOrder cfg.szClid ∧
        d.part cfg.szClid = [] ∧ d.queue = (w.chan c').queue)
      ⟨h.label c, ⟨nofun, nofun⟩, rfl, rfl⟩
      fun c' hc ↦ ⟨h.label c', h.inOrder c', h.others hhead hc, rfl⟩
  have hp : Passes r w (setRstev
      { w.update c (w.chan c).failed [] with sched := s', sock := none } now 30) := by
    intro c'
    refine ⟨[], ?_, ?_, fun _ ↦ ?_⟩
    · rw [List.append_nil]
      exact congrArg (fun wires ↦ delivered { w with wires } c') hwires
    · show _ <+: ((w.update c (w.chan c).failed []).chan c').queue.queue
      simp [(hall c').2.2.2]
    · show _ = ((w.update c (w.chan c).failed []).chan c').queue.held
      rw [(hall c').2.2.2]
  refine ⟨threaded_between (fun c ↦ (hall c).1) (fun c ↦ (hall c).2.1) (fun c ↦ (hall c).2.2.1)
    (fun wire hwire ↦ (h.threads wire ?_).mono hp) fun hsock ↦ absurd rfl hsock, hp⟩
  rw [← hwires]
  exact hwire

/-- A turn of the loop. -/
theorem Threaded.sendTurn {now : TimePoint} {r : SendResult} {again : Bool}
    (h : w.Threaded cfg loose) (hsock : w.sock ≠ none) (hconnected : w.connected)
    (hw : w.sendTurn cfg now r = .ok (w', again)) : w'.Threaded cfg loose ∧ Passes True w w' := by
  obtain ⟨c, rest, iov, ch, l, hhead, ⟨hdescribe, -, rfl⟩ | ⟨hdescribe, w₁, hw₁, hturn⟩⟩ :=
    sendTurn_ok hw
  all_goals
    obtain ⟨horder, hfollows, hpart, hnone, hsome⟩ := (h.inOrder c).describe hdescribe
    obtain ⟨hupdate, hp⟩ := h.update (r := True) l horder hfollows.label hpart
      hfollows.memory fun _ ↦ hfollows.held
    have hhead' : (w.update c ch l).streamerQueue = c :: rest :=
      (update_streamers ..).2.1.trans hhead
    have hself := update_self w c ch l
  · have hparts : ((w.update c ch l).chan c).part cfg.szClid = [] := by
      rw [hself]
      exact Channel.part_of_none (hnone rfl)
    exact ⟨hupdate.dropSource hhead' hparts, hp.trans (passes_of_eq rfl rfl)⟩
  · obtain ⟨hfirst, hp₁⟩ : w₁.Threaded cfg loose ∧ Passes True (w.update c ch l) w₁ := by
      rw [hw₁]
      exact hupdate.congr rfl rfl rfl rfl rfl
    have hp' := hp.trans hp₁
    have hhead₁ : w₁.streamerQueue = c :: rest := by rw [hw₁]; exact hhead'
    obtain ⟨-, n, hsent⟩ | ⟨-, hblocked⟩ | ⟨-, hfailed⟩ := hturn
    · have hsources := update_sources w c ch l
      obtain ⟨pl, hpl, hiov⟩ := hsome rfl
      have hself₁ : w₁.chan c = ch := by rw [hw₁]; exact hself
      obtain ⟨hthreaded, hp''⟩ := hfirst.sourceSent (by rw [hw₁]; exact hsources.sock ▸ hsock)
        (by rw [hw₁]; exact hsources.connected ▸ hconnected) hhead₁
        (by rw [hself₁]; exact hpl) (by rw [hself₁, hiov]) hsent
      exact ⟨hthreaded, hp'.trans hp''⟩
    · obtain ⟨hthreaded, hp''⟩ := hfirst.sourceBlocked hblocked
      exact ⟨hthreaded, hp'.trans hp''⟩
    · obtain ⟨hthreaded, hp''⟩ := hfirst.sourceFailed hhead₁ hfailed
      exact ⟨hthreaded, hp'.trans hp''⟩

theorem Threaded.trySend (h : w.Threaded cfg loose) (hw : w.trySend cfg io = .ok w') :
    w'.Threaded cfg loose ∧ Passes True w w' := by
  obtain ⟨hsock, hconnected, -⟩ := trySend_ok hw
  rw [World.trySend] at hw
  split at hw
  · cases hw
  split at hw
  · cases hw
  split at hw
  · exact h.setFdev hw
  · refine sendLoop_rule
      (J := fun w₁ ↦ (w₁.Threaded cfg loose ∧ Passes True w w₁) ∧ w₁.sock ≠ none ∧ w₁.connected)
      (Q := fun w₁ ↦ w₁.Threaded cfg loose ∧ Passes True w w₁) (fun _ hJ _ ↦ hJ.1) ?_ ?_
      ⟨⟨h, passes_of_eq rfl rfl⟩, hsock, hconnected⟩ hw
    · rintro w₁ r w₂ ⟨⟨hthreaded, hp⟩, hsock₁, hconnected₁⟩ hturn
      obtain ⟨hthreaded', hp'⟩ := hthreaded.sendTurn hsock₁ hconnected₁ hturn
      have hsources := sendTurn_sources hturn
      exact ⟨⟨hthreaded', hp.trans hp'⟩, hsources.sock ▸ hsock₁, hsources.connected ▸ hconnected₁⟩
    · rintro w₁ r w₂ ⟨⟨hthreaded, hp⟩, hsock₁, hconnected₁⟩ hturn
      obtain ⟨hthreaded', hp'⟩ := hthreaded.sendTurn hsock₁ hconnected₁ hturn
      exact ⟨hthreaded', hp.trans hp'⟩

/-! ## Connecting

A new connection has nothing on it. -/

/-- Nothing has been sent on a new connection. -/
theorem Threaded.attempted {now : TimePoint} (h : w.Threaded cfg loose) (hsock : w.sock = none)
    (ha : Attempted now w w') : w'.Threaded cfg loose ∧ Passes r w w' := by
  obtain ⟨w₁, htried, hend⟩ := ha
  obtain ⟨n, hwires⟩ := htried.wires
  have hchan := htried.apart.chan
  have hdelivered : ∀ c, w₁.delivered c = w.delivered c := by
    intro c
    rw [delivered, delivered, hwires, List.reverse_append, List.flatMap_append,
      List.reverse_replicate]
    simp [List.flatMap_replicate]
  have hp : Passes r w w₁ := fun c ↦
    ⟨[], by rw [hdelivered, List.append_nil], by simp [hchan],
      fun _ ↦ by rw [hchan]; rfl⟩
  have hidle := h.idle (.inl hsock)
  have hthreads : ∀ wire ∈ w₁.wires, w₁.Thread cfg loose wire := by
    intro wire hwire
    rw [hwires] at hwire
    rcases List.mem_append.mp hwire with hnew | hold
    · rw [List.eq_of_mem_replicate hnew]
      exact ⟨[], .inl rfl, begun_nil cfg _, [], rfl, .inl rfl⟩
    · exact (h.threads wire hold).mono hp
  have hpart : w₁.part cfg = w.part cfg := by
    rw [part, part, htried.apart.streamerQueue, hchan]
  have hfirst : (w₁.sock ≠ none → ∃ past, w₁.wires = ⟨[], []⟩ :: past) →
      w₁.Threaded cfg loose := by
    intro hlatest
    refine ⟨hchan ▸ h.label, hchan ▸ h.inOrder, fun c hne ↦ ?_, hthreads, fun hopen ↦ ?_⟩
    · rw [hchan] at hne
      rw [htried.apart.streamerQueue]
      exact ⟨(h.whole c hne).1, .inr (hidle.resolve_left fun hnil ↦ hne (hnil c))⟩
    · -- what has been sent of a frame was sent before
      obtain ⟨past, hpast⟩ := hlatest hopen
      refine ⟨_, past, w.part cfg, hpast, hidle.imp_left part_eq_nil, nofun, ?_⟩
      rw [hpart]
      exact List.append_nil _
  obtain ⟨hnone, rfl⟩ | ⟨hnew, events, -, hset⟩ := hend
  · obtain ⟨hthreaded, hp'⟩ := (hfirst (absurd hnone)).sched
      (w₁.sched.timedSet .rstev (now + seconds 33))
    exact ⟨hthreaded, hp.trans hp'⟩
  · obtain ⟨hthreaded, hp'⟩ := (hfirst fun _ ↦ hnew).setFdev hset
    exact ⟨hthreaded, hp.trans hp'⟩

/-! ## Handlers

All but `descriptorReady` keep the invariant without a condition. -/

theorem Threaded.joined (h : w.Threaded cfg loose) (c : C) : (w.joined c).Threaded cfg loose := by
  refine ⟨h.label, h.inOrder, fun c' hne ↦ ?_, fun wire hwire ↦ ?_, fun hsock ↦ ?_⟩
  · obtain ⟨hhead, hopen⟩ := h.whole c' hne
    refine ⟨?_, hopen⟩
    show (w.streamerQueue ++ [c]).head? = _
    rw [List.head?_append, hhead]
    rfl
  · exact (h.threads wire hwire).mono (r := True) (passes_of_eq rfl rfl)
  · -- the head of the sources is the same, or the only one, which has sent nothing
    have hpart : (w.joined c).part cfg = w.part cfg := by
      rw [part, part, World.joined]
      cases hqueue : w.streamerQueue with
      | nil =>
        show (w.chan c).part cfg.szClid = []
        by_contra hne
        have hhead := (h.whole c hne).1
        rw [hqueue] at hhead
        cases hhead
      | cons c' rest => rfl
    rw [hpart]
    exact h.latest hsock

theorem Threaded.ready (h : w.Threaded cfg loose) (hw : w.ready cfg c io = .ok w') :
    w'.Threaded cfg loose ∧ Passes True w w' := by
  have hjoined := h.joined c
  have hp : Passes True w (w.joined c) := passes_of_eq rfl rfl
  rcases ready_ok hw with ⟨-, rfl⟩ | ⟨-, ⟨rfl, -⟩ | ⟨-, hlookup⟩ | ⟨-, hsend⟩⟩
  · exact ⟨h, passes_of_eq rfl rfl⟩
  · exact ⟨hjoined, hp⟩
  · obtain ⟨-, -, -, rfl⟩ := initiateLookup_ok hlookup
    obtain ⟨hthreaded, hp'⟩ : Threaded cfg loose { w.joined c with
        ainf := [], addrev := ⟨true, some .inProgress⟩ } ∧ Passes True (w.joined c) _ :=
      hjoined.congr rfl rfl rfl rfl rfl
    exact ⟨hthreaded, hp.trans hp'⟩
  · obtain ⟨hthreaded, hp'⟩ := hjoined.trySend hsend
    exact ⟨hthreaded, hp.trans hp'⟩

/-- Only between two frames may the peer hang up, unless frames may be loose. -/
theorem Threaded.descriptorReady {evs : Mask} (h : w.Threaded cfg loose)
    (hb : (w.connected → hangsUp evs → w.Between) ∨ loose)
    (hw : w.descriptorReady cfg evs io = .ok w') : w'.Threaded cfg loose ∧ Passes True w w' := by
  obtain ⟨hsock, ⟨hfalse, hnext⟩ | ⟨hconnected, hhup, w₁, hclear, rfl⟩ | ⟨-, hset⟩ |
    ⟨-, -, hsend⟩⟩ := descriptorReady_ok hw
  · obtain ⟨rest, w₁, hclear, htry⟩ := connectNext_ok hnext
    obtain ⟨hsock, hattempt⟩ := tryConnect_ok htry
    obtain ⟨hrest, hp⟩ : Threaded cfg loose { w with ainf := rest } ∧ Passes True w _ :=
      h.congr rfl rfl rfl rfl rfl
    obtain ⟨hclosed, hp', -⟩ := hrest.clearSocket (hrest.idle (.inr hfalse)) hclear
    obtain ⟨hthreaded, hp''⟩ := hclosed.attempted (r := True) hsock hattempt
    exact ⟨hthreaded, hp.trans (Passes.trans hp' hp'')⟩
  · have hparts := hb.imp_left fun hb ↦ h.between (hb hconnected hhup)
    obtain ⟨hclosed, hp, -⟩ := h.clearSocket (r := True) hparts hclear
    obtain ⟨hthreaded, hp'⟩ := hclosed.sched (w₁.sched.timedSet .rstev (io.now + seconds 33))
    exact ⟨hthreaded, hp.trans hp'⟩
  · have hconnected : Threaded cfg loose { w with connected := true } :=
      ⟨h.label, h.inOrder, fun c hne ↦ ⟨(h.whole c hne).1, .inl ⟨hsock, rfl⟩⟩,
        fun wire hwire ↦ (h.threads wire hwire).mono (r := True) (passes_of_eq rfl rfl), h.latest⟩
    obtain ⟨hthreaded, hp⟩ := hconnected.setFdev (r := True) hset
    exact ⟨hthreaded, hp⟩
  · obtain ⟨hready, hp⟩ : Threaded cfg loose { w with upoutReady := true } ∧ Passes True w _ :=
      h.congr rfl rfl rfl rfl rfl
    obtain ⟨hthreaded, hp'⟩ := hready.trySend hsend
    exact ⟨hthreaded, hp.trans hp'⟩

theorem Threaded.managerCheck (h : w.Threaded cfg loose) (hw : w.managerCheck cfg io = .ok w') :
    w'.Threaded cfg loose ∧ Passes True w w' := by
  obtain ⟨w₁, rfl, ⟨-, rfl⟩ | ⟨-, hsock, -, hattempt⟩⟩ := managerCheck_ok hw
  · exact h.sched _
  · obtain ⟨hfirst, hp⟩ : Threaded cfg loose { w with addrev := { w.addrev with on := false } } ∧
        Passes True w _ := h.congr rfl rfl rfl rfl rfl
    obtain ⟨hthreaded, hp'⟩ := hfirst.attempted (r := True) hsock hattempt
    obtain ⟨hthreaded', hp''⟩ := hthreaded.sched (w₁.sched.sigSet .sigev sigusr2)
    exact ⟨hthreaded', hp.trans (Passes.trans hp' hp'')⟩

theorem Threaded.notify {p : Nat} {e : Ev C} (h : w.Threaded cfg loose) (hwf : w.sched.WF)
    (ha : w.Unbroken (.notify e io) ∨ loose) (he : e ∈ w.sched.queues.bucket p)
    (hw : (w.taken p e).handle cfg io e = .ok w') : w'.Threaded cfg loose ∧ Passes True w w' := by
  obtain ⟨htaken, hp⟩ : (w.taken p e).Threaded cfg loose ∧ Passes True w (w.taken p e) := h.sched _
  have hend : w'.Threaded cfg loose ∧ Passes True (w.taken p e) w' := by
    cases e with
    | fdev =>
      refine htaken.descriptorReady (ha.imp_left fun ha hconnected hhup ↦ ?_) hw
      have hgot : ((w.taken p .fdev).sched.event .fdev).got = (w.sched.event .fdev).got := by
        rw [taken, (Scheduler.changes_take he).event_self]
        rfl
      rw [hgot] at hhup
      exact ha ⟨queued_of_mem hwf he, hconnected, hhup⟩
    | rstev =>
      obtain ⟨-, -, -, rfl⟩ := initiateLookup_ok hw
      exact htaken.congr rfl rfl rfl rfl rfl
    | sigev => exact htaken.managerCheck hw
    | queueEvent c => exact htaken.ready hw
  exact ⟨hend.1, hp.trans hend.2⟩

/-! ## Runs

The condition is on the state before a step, and along a run the invariant makes whole frames of it.
-/

/-- The step lemma. -/
theorem Threaded.step {a : Act C} (h : w.Threaded cfg loose) (ht : w.Tidy)
    (ha : w.Unbroken a ∨ loose) (hw : w.step cfg a = .ok w') :
    w'.Threaded cfg loose ∧ Passes (Reads a) w w' := by
  cases a with
  | submit c clid data now =>
    cases hw
    exact h.withQueue _ (PayloadQueue.push_queue ..) nofun
  | activate c =>
    cases hw
    exact h.withQueue _ (PayloadQueue.queue_poke _) fun _ ↦ PayloadQueue.held_poke _
  | flush c n =>
    cases hw
    exact h.withQueue _ (by simp) nofun
  | discard c =>
    obtain ⟨q, l, hdiscard, rfl⟩ := discard_ok hw
    have hmemory := (PayloadQueue.discardFile_sameMemory hdiscard).queue
    exact h.withQueue l (by simp [hmemory]) nofun
  | lookupEnds rc result =>
    rcases lookupEnds_ok hw with rfl | ⟨-, rfl⟩ <;> exact h.congr rfl rfl rfl rfl rfl
  | raise =>
    cases hw
    exact h.congr rfl rfl rfl rfl rfl
  | poll now signalled evs =>
    rcases poll_ok hw with rfl | ⟨s, -, rfl⟩ <;> exact h.congr rfl rfl rfl rfl rfl
  | notify e io =>
    have hnotify : w'.Threaded cfg loose ∧ Passes True w w' := by
      rcases notify_ok hw with rfl | ⟨p, he, hhandle⟩
      · exact ⟨h, passes_of_eq rfl rfl⟩
      · exact h.notify ht.kinds.wf ha he hhandle
    exact hnotify

theorem framing_init (cfg : Config C) (queue : C → PayloadQueue) :
    (init cfg queue).Framing cfg :=
  framing_iff.mpr (threaded_init cfg False queue)

theorem Framing.step {a : Act C} (h : w.Framing cfg) (ht : w.Tidy) (ha : w.Unbroken a)
    (hw : w.step cfg a = .ok w') : w'.Framing cfg ∧ Passes (Reads a) w w' := by
  obtain ⟨hthreaded, hp⟩ := (framing_iff.mp h).step ht (.inl ha) hw
  exact ⟨framing_iff.mpr hthreaded, hp⟩

/-- **Whole frames.**  In the runs in which no peer hangs up in the middle of a frame, there are
whole frames on each connection, and then at most a part of one; and a record leaves its queue, from
the head, only when it is delivered. -/
theorem whole_frames {queue : C → PayloadQueue}
    (h : Run.Reach (step cfg) Unbroken (init cfg queue) w) :
    (∀ wire ∈ w.wires, w.Framed cfg wire) ∧
      ∀ a w', w.Unbroken a → w.step cfg a = .ok w' → Passes (Reads a) w w' := by
  have hinv : w.Tidy ∧ w.Framing cfg :=
    h.invariant (I := fun w ↦ w.Tidy ∧ w.Framing cfg)
      ⟨tidy_init cfg queue, framing_init cfg queue⟩ fun _ _ _ ht ha hstep ↦
        ⟨ht.1.step hstep, (ht.2.step ht.1 ha hstep).1⟩
  exact ⟨hinv.2.framed, fun a w' ha hstep ↦ (hinv.2.step hinv.1 ha hstep).2⟩

/-- The first bytes of a frame are sent, and then the socket blocks. -/
def firstBytes : List (Act Unit) :=
  [.poll 2 false (some { epollout := true }), .notify .fdev { sends := [.sent 3, .blocked] }]

theorem whole_frames_blocked : ∃ w : World Unit, w.wires ≠ [] ∧
    (∀ wire ∈ w.wires, w.Framed oneChannel wire) ∧
      ∀ a w', w.Unbroken a → w.step oneChannel a = .ok w' → Passes (Reads a) w w' := by
  have hrun : Run.Checks (step oneChannel) Unbroken (init oneChannel emptyQueue)
      (firstSource ++ firstConnection ++ firstBytes ++
        [.poll 3 false (some { epollout := true }), .notify .fdev { sends := [.sent 9] }])
      fun w ↦ w.wires.map (·.bytes.length) = [7] := by decide +kernel
  obtain ⟨w, hreach, hsent⟩ := hrun.reach
  exact ⟨w, fun hnil ↦ by simp [hnil] at hsent, whole_frames hreach⟩

/-- The peer hangs up, and there is another connection later on. -/
def reconnection : List (Act Unit) :=
  [.poll 3 false (some { epollin := true, epollrdhup := true }), .notify .fdev { now := 3 },
    .poll (seconds 36) false none, .notify .rstev {}, .lookupEnds 0 [⟨.inet, 6⟩],
    .poll (seconds 37) true none,
    .notify .sigev { connects := [⟨some 5, true, none, .connected⟩] },
    .poll (seconds 38) false (some { epollout := true }), .notify .fdev { sends := [.sent 9] }]

/-- **A frame can be split.**  The first bytes of it are sent on one connection and the rest on the
next, which it begins with; and then its record is consumed. -/
theorem frame_is_split : ∃ w, Run.Reach (step oneChannel) Run.anyStep
    (init oneChannel emptyQueue) w ∧
      ∃ wire ∈ w.wires, wire.taken ≠ [] ∧ ¬ w.Framed oneChannel wire := by
  have hrun : Run.Checks (step oneChannel) Run.anyStep (init oneChannel emptyQueue)
      (firstSource ++ firstConnection ++ firstBytes ++ reconnection)
      fun w ↦ w.wires.map (fun wire ↦ (wire.bytes.length, wire.taken.length)) =
        [(4, 1), (3, 0)] := by decide +kernel
  obtain ⟨w, hreach, hsent⟩ := hrun.reach
  cases hwires : w.wires with
  | nil =>
    rw [hwires] at hsent
    cases hsent
  | cons wire past =>
    rw [hwires, List.map_cons, List.cons.injEq, Prod.mk.injEq] at hsent
    obtain ⟨⟨hbytes, htaken⟩, -⟩ := hsent
    obtain ⟨p, hp⟩ := List.length_eq_one_iff.mp htaken
    refine ⟨w, hreach, wire, by rw [hwires]; exact List.mem_cons_self .., by simp [hp], ?_⟩
    rintro ⟨part, hpart, -⟩
    -- a frame is longer than what has been sent
    have hlen := congrArg List.length hpart
    rw [hbytes, hp, List.flatMap_singleton, List.length_append, Config.frame,
      Channel.length_frame] at hlen
    have hheader : headerBytes = 6 := rfl
    omega

end World
end TcpIngress
end UdpTun
