import UdpTun.Peers
import UdpTun.TcpEgress.Histories

/-!
# Who may use an egress

A listener looks up in the peer table where each new connection comes from, and closes the ones that
are not found.  A run here is one of the egress together with the addresses of the clients that
`accept` gives, and what it says of each is what `seek` gives.  The record has the connections that
are kept, each with its client's address, and the messages that are delivered.

`only_peers_heard` says that nothing is delivered for anybody else: before a message there is the
connection that it came over, from an address that a host of the configuration has.
-/

set_option autoImplicit false

namespace UdpTun

/-! ## The addresses of peers

An address is known to a table that has been loaded only if it is one that the look-ups gave for a
host of the configuration. -/

namespace PeerTable

variable {env : Resolver} {cfg cfg' : Option (List (String × PeerConfig))}

/-- An address has the family and the numeric host of one that some host in the configuration
has. -/
def IsPeer (env : Resolver) (cfg : Option (List (String × PeerConfig))) (a : SocketAddress) :
    Prop :=
  ∃ ent ∈ cfg.getD [], ∃ host ∈ ent.2.hosts.getD [], ∃ info, env.getaddrinfo host = .ok info ∧
    ∃ b ∈ info, ∃ key, env.key b = .ok key ∧ env.key a = .ok key

theorem isPeer_of_mem_listed {a : SocketAddress} {key : PeerKey} {peer : Peer}
    (hkey : env.key a = .ok key) (h : (key, peer) ∈ listed env cfg) : IsPeer env cfg a := by
  obtain ⟨ent, hent, hmem⟩ := List.mem_flatMap.mp h
  obtain ⟨host, hhost, hmem⟩ := List.mem_flatMap.mp hmem
  obtain ⟨b, hb, hmem⟩ := List.mem_flatMap.mp hmem
  obtain ⟨key', hkey', heq⟩ := List.mem_map.mp hmem
  cases heq
  refine ⟨ent, hent, host, hhost, ?_⟩
  cases hinfo : env.getaddrinfo host with
  | error e =>
    rw [hinfo] at hb
    cases hb
  | ok info =>
    rw [hinfo] at hb
    refine ⟨info, rfl, b, hb, key, ?_, hkey⟩
    cases hb' : env.key b with
    | error e =>
      rw [hb'] at hkey'
      cases hkey'
    | ok key' =>
      rw [hb'] at hkey'
      exact congrArg Except.ok (List.mem_singleton.mp hkey').symm

theorem mem_of_lastOf {l : List (PeerKey × Peer)} {key : PeerKey} {peer : Peer}
    (h : lastOf l key = some peer) : (key, peer) ∈ l := by
  obtain ⟨ent, hent, rfl⟩ := Option.map_eq_some_iff.mp h
  have hkey := List.find?_some hent
  rw [← of_decide_eq_true hkey]
  exact List.mem_reverse.mp (List.mem_of_find?_eq_some hent)

/-- Only peers are found. -/
theorem isPeer_of_seek {global t : PeerTable} (hglobal : load env cfg (create none) = .ok global)
    (ht : load env cfg' (create (some global)) = .ok t) {a : SocketAddress} {peer : Peer}
    (h : t.seek env a = .ok (some peer)) : IsPeer env cfg a ∨ IsPeer env cfg' a := by
  obtain ⟨key, hkey, h⟩ := seek_ok h
  rw [seekResolved_load hglobal ht, Option.or_eq_some_iff] at h
  obtain hown | ⟨-, hbackup⟩ := h
  · exact .inr (isPeer_of_mem_listed hkey (mem_of_lastOf hown))
  · exact .inl (isPeer_of_mem_listed hkey (mem_of_lastOf hbackup))

end PeerTable

namespace TcpEgress

/-- Something that an egress does for a client. -/
inductive Dealing
  /-- A connection is kept. -/
  | kept (n : Nat) (a : SocketAddress)
  /-- A message is delivered, or the states are flushed. -/
  | happened (x : Happening)

/-- `known` is what `seek` says of the client's address. -/
def Accept.Answered (env : Resolver) (t : PeerTable) (clients : Nat → SocketAddress) :
    Accept → Prop
  | .accepted clsock known => (t.seek env (clients clsock)).map Option.isSome = .ok known
  | .failed _ => True

theorem Accept.Answered.seek {env : Resolver} {t : PeerTable} {clients : Nat → SocketAddress}
    {clsock : Nat} (h : (Accept.accepted clsock true).Answered env t clients) :
    ∃ peer, t.seek env (clients clsock) = .ok (some peer) := by
  obtain ⟨peer, hseek, hsome⟩ := map_ok h
  obtain ⟨peer, rfl⟩ := Option.isSome_iff_exists.mp hsome
  exact ⟨peer, hseek⟩

namespace Egress

variable {S : Type} {cfg : Config S} {e e' : Egress S} {log : List Dealing}

/-! ## The record

The egress does not keep the addresses of its clients.  They are recorded beside it, with what is
delivered. -/

/-- An action, and the addresses of the clients whose descriptors `accept` gives. -/
abbrev ClientAct := Act × (Nat → SocketAddress)

/-- A step, which makes no use of the addresses. -/
def clientStep (cfg : Config S) (e : Egress S) (a : ClientAct) : Except Halt (Egress S) :=
  e.step cfg a.1

/-- The connections of a step that are new. -/
def keeps (cfg : Config S) (e : Egress S) (a : ClientAct) : List Dealing :=
  match e.step cfg a.1 with
  | .error _ => []
  | .ok e' => (e'.conns.drop e.conns.length).flatMap fun c ↦
      c.conn.sock.toList.map fun fd ↦ .kept c.id (a.2 fd)

/-- What an egress does in a step. -/
def deals (cfg : Config S) (e : Egress S) (a : ClientAct) : List Dealing :=
  e.keeps cfg a ++ (e.happens cfg a.1).map .happened

/-- What is said of a client is what the table says of its address. -/
def Asked (env : Resolver) (t : PeerTable) (_e : Egress S) (a : ClientAct) : Prop :=
  match a.1 with
  | .notify _ io => ∀ x ∈ io.accepts, x.Answered env t a.2
  | _ => True

/-! ## The invariant

Whoever is heard has been vouched for: the connection is in the record, from before the message. -/

/-- Those that have been kept are known, each under a number of its own, and so are the connections
of what is delivered. -/
structure Vouched (Known : SocketAddress → Prop) (e : Egress S) (log : List Dealing) : Prop where
  known : ∀ n a, .kept n a ∈ log → Known a
  past : ∀ n a, .kept n a ∈ log → n < e.nextId
  once : ∀ n a b, .kept n a ∈ log → .kept n b ∈ log → a = b
  conns : ∀ c ∈ e.conns, ∃ a, .kept c.id a ∈ log
  before : ∀ l n now m l', log = l ++ .happened (.message n now m) :: l' → ∃ a, .kept n a ∈ l

variable {Known : SocketAddress → Prop}

/-- The connections stay, and what is delivered is for one of them. -/
theorem Vouched.append (h : Vouched Known e log) (hnext : e.nextId ≤ e'.nextId)
    (hconns : ∀ c' ∈ e'.conns, ∃ c ∈ e.conns, c'.id = c.id) {xs : List Happening}
    (hxs : ∀ n now m, .message n now m ∈ xs → ∃ c ∈ e.conns, c.id = n) :
    Vouched Known e' (log ++ xs.map .happened) := by
  have hkept : ∀ {n a}, .kept n a ∈ log ++ xs.map .happened → .kept n a ∈ log := by
    intro n a hmem
    simpa using hmem
  refine ⟨fun n a ha ↦ h.known n a (hkept ha), fun n a ha ↦ (h.past n a (hkept ha)).trans_le hnext,
    fun n a b ha hb ↦ h.once n a b (hkept ha) (hkept hb), fun c' hc' ↦ ?_,
    fun l n now m l' heq ↦ ?_⟩
  · obtain ⟨c, hc, hid⟩ := hconns c' hc'
    obtain ⟨a, ha⟩ := h.conns c hc
    exact ⟨a, List.mem_append_left _ (hid ▸ ha)⟩
  · obtain ⟨l₀, hlog, -⟩ | ⟨l₀, rfl, hsplit⟩ := Run.eq_append_cons heq
    · exact h.before l n now m l₀ hlog
    · -- it is delivered in this step
      have hmem : Dealing.happened (.message n now m) ∈ xs.map .happened := by simp [hsplit]
      obtain ⟨x, hx, hx'⟩ := List.mem_map.mp hmem
      cases hx'
      obtain ⟨c, hc, rfl⟩ := hxs n now m hx
      obtain ⟨a, ha⟩ := h.conns c hc
      exact ⟨a, List.mem_append_left _ ha⟩

/-- A connection is kept. -/
theorem Vouched.kept (h : Vouched Known e log) {fd : Nat} {a : SocketAddress}
    (hadmitted : Admitted fd e e') (ha : Known a) :
    Vouched Known e' (log ++ [.kept e.nextId a]) := by
  have hkept : ∀ {n b}, .kept n b ∈ log ++ [.kept e.nextId a] →
      .kept n b ∈ log ∨ n = e.nextId ∧ b = a := by
    intro n b hmem
    simpa using hmem
  refine ⟨fun n b hmem ↦ ?_, fun n b hmem ↦ ?_, fun n b c hb hc ↦ ?_, fun c hc ↦ ?_,
    fun l n now m l' heq ↦ ?_⟩
  · obtain hmem | ⟨-, rfl⟩ := hkept hmem
    · exact h.known n b hmem
    · exact ha
  · rw [hadmitted.next]
    obtain hmem | ⟨rfl, -⟩ := hkept hmem
    · exact (h.past n b hmem).trans (Nat.lt_succ_self _)
    · exact Nat.lt_succ_self _
  · -- the number of the new one has not been given before
    obtain hb' | ⟨hn, rfl⟩ := hkept hb <;> obtain hc' | ⟨hn', rfl⟩ := hkept hc
    · exact h.once n b c hb' hc'
    · exact absurd hn' (h.past n b hb').ne
    · exact absurd hn (h.past n c hc').ne
    · rfl
  · rw [hadmitted.conns] at hc
    rcases List.mem_append.mp hc with hc | hc
    · obtain ⟨b, hb⟩ := h.conns c hc
      exact ⟨b, List.mem_append_left _ hb⟩
    · rw [List.mem_singleton.mp hc]
      exact ⟨a, by simp⟩
  · obtain ⟨l₀, hlog, -⟩ := Run.eq_append_cons_of_notMem heq (by simp)
    exact h.before l n now m l₀ hlog

/-! ## Steps

Only accepting adds connections, one for each descriptor that is kept, and only the handler of a
connection delivers anything. -/

/-- No connection is new. -/
theorem keeps_eq_nil {a : ClientAct} (hs : e.step cfg a.1 = .ok e')
    (hconns : e'.conns.length ≤ e.conns.length) : e.keeps cfg a = [] := by
  rw [keeps, hs]
  dsimp only
  rw [List.drop_eq_nil_of_le hconns]
  rfl

/-- The one that is. -/
theorem keeps_eq_singleton {a : ClientAct} {fd : Nat} (hs : e.step cfg a.1 = .ok e')
    (h : Admitted fd e e') : e.keeps cfg a = [.kept e.nextId (a.2 fd)] := by
  rw [keeps, hs]
  dsimp only
  rw [h.conns, List.drop_left]
  rfl

/-- **The step lemma.** -/
theorem Vouched.step {env : Resolver} {t : PeerTable} {a : ClientAct}
    (h : Vouched (fun b ↦ ∃ peer, t.seek env b = .ok (some peer)) e log) (hasked : Asked env t e a)
    (hs : e.step cfg a.1 = .ok e') :
    Vouched (fun b ↦ ∃ peer, t.seek env b = .ok (some peer)) e' (log ++ e.deals cfg a) := by
  rw [deals]
  cases touches hs with
  | @handled c now out rc hc hout hconns hnext hhappens =>
    rw [keeps_eq_nil hs (by simp [hconns, setConn]), hhappens, List.nil_append]
    refine h.append hnext.ge (fun d hd ↦ ?_) fun n now' m hm ↦ ?_
    · rw [hconns] at hd
      obtain ⟨d₀, hd₀, rfl⟩ := mem_setConn.mp hd
      exact ⟨d₀, hd₀, by split <;> rfl⟩
    · obtain ⟨m', -, heq⟩ := List.mem_map.mp hm
      cases heq
      exact ⟨c, hc, rfl⟩
  | @flushed now hconns hnext hhappens =>
    have hlength : e'.conns.length ≤ e.conns.length := by
      rw [hconns, List.length_map]
      exact List.length_filter_le _ _
    rw [keeps_eq_nil hs hlength, hhappens, List.nil_append]
    refine h.append hnext.ge (fun d hd ↦ ?_) fun n now' m hm ↦ ?_
    · rw [hconns] at hd
      obtain ⟨c, hc, rfl⟩ := List.mem_map.mp hd
      exact ⟨c, List.mem_of_mem_filter hc, rfl⟩
    · cases List.mem_singleton.mp hm
  | @added n fd io ha haccept hadmitted hhappens =>
    rw [keeps_eq_singleton hs hadmitted, hhappens]
    rw [Asked, ha] at hasked
    exact h.kept hadmitted (hasked _ haccept).seek
  | same hconns hnext hhappens =>
    rw [keeps_eq_nil hs (hconns ▸ le_rfl), hhappens]
    exact h.append hnext (fun c hc ↦ ⟨c, hconns ▸ hc, rfl⟩) fun n now m hm ↦
      absurd hm List.not_mem_nil

theorem vouched_of_reach {env : Resolver} {t : PeerTable} {start : TimePoint}
    (h : Run.Reach (Run.recorded (clientStep cfg) (deals cfg)) (fun s a ↦ Asked env t s.1 a)
      (init cfg start, []) (e, log)) :
    Vouched (fun b ↦ ∃ peer, t.seek env b = .ok (some peer)) e log := by
  refine h.invariant (I := fun s ↦ Vouched _ s.1 s.2)
    ⟨fun _ _ hm ↦ absurd hm List.not_mem_nil, fun _ _ hm ↦ absurd hm List.not_mem_nil,
      fun _ _ _ hm ↦ absurd hm List.not_mem_nil, fun c hc ↦ absurd hc (List.not_mem_nil (a := c)),
      fun l _ _ _ _ heq ↦ by simp at heq⟩ fun s a u hI hok hstep ↦ ?_
  obtain ⟨hstep, hlog⟩ := Run.recorded_ok hstep
  rw [hlog]
  exact hI.step hok hstep

/-- **Nobody but peers is heard.**  In every run in which what is said of each client that `accept`
gives is what the table says of its address, for a table that is loaded from two configurations:
each connection comes from one address, and so does each message, over a connection that was kept
before; and all these are addresses that some host in the configurations has. -/
theorem only_peers_heard {env : Resolver} {l₁ l₂ : Option (List (String × PeerConfig))}
    {global t : PeerTable} (hglobal : PeerTable.load env l₁ (.create none) = .ok global)
    (ht : PeerTable.load env l₂ (.create (some global)) = .ok t) {start : TimePoint}
    (h : Run.Reach (Run.recorded (clientStep cfg) (deals cfg)) (fun s a ↦ Asked env t s.1 a)
      (init cfg start, []) (e, log)) :
    (∀ c ∈ e.conns, ∃ a, .kept c.id a ∈ log) ∧
      (∀ l n now m l', log = l ++ .happened (.message n now m) :: l' → ∃ a, .kept n a ∈ l) ∧
        (∀ n a b, .kept n a ∈ log → .kept n b ∈ log → a = b) ∧
          ∀ n a, .kept n a ∈ log →
            PeerTable.IsPeer env l₁ a ∨ PeerTable.IsPeer env l₂ a := by
  have hvouched := vouched_of_reach h
  refine ⟨hvouched.conns, hvouched.before, hvouched.once, fun n a hmem ↦ ?_⟩
  obtain ⟨peer, hpeer⟩ := hvouched.known n a hmem
  exact PeerTable.isPeer_of_seek hglobal ht hpeer

/-! ## A stranger

A run in which there is one: nothing comes of it. -/

instance (env : Resolver) (t : PeerTable) (clients : Nat → SocketAddress) :
    DecidablePred (Accept.Answered env t clients)
  | .accepted clsock known =>
    inferInstanceAs (Decidable ((t.seek env (clients clsock)).map Option.isSome = .ok known))
  | .failed _ => .isTrue trivial

instance (env : Resolver) (t : PeerTable) (e : Egress S) : DecidablePred (Asked env t e)
  | (.notify _ io, clients) =>
    inferInstanceAs (Decidable (∀ x ∈ io.accepts, x.Answered env t clients))
  | (.activate .., _) => .isTrue trivial
  | (.deactivate .., _) => .isTrue trivial
  | (.busy .., _) => .isTrue trivial
  | (.poll .., _) => .isTrue trivial

/-- A stranger knocks, and then a peer, which sends a message. -/
def strangerFirst : List ClientAct :=
  (knock ++ [Act.notify (.listenFd 0) { accepts := [.accepted 8 false] },
    .poll 2 [.descriptor (.listenFd 0) { epollin := true }],
    .notify (.listenFd 0) { accepts := [.accepted 7 true] },
    .poll 3 [.descriptor (.connFd 1) { epollin := true }],
    .notify (.connFd 1) { now := 3, recv := .bytes [0, 3, 0, 7, 0, 1, 1] }]).map
      fun a ↦ (a, fun fd ↦ .inet (if fd = 7 then 1 else 2) 4000)

/-- One connection is kept, and a message has come over it. -/
def PeerOnly (s : Egress (List (List UInt8) × TimePoint) × List Dealing) : Prop :=
  s.1.conns.map (·.id) = [1] ∧ s.1.descriptors = [7, 4] ∧ s.2.length = 2

instance : DecidablePred PeerOnly := fun _ ↦ inferInstanceAs (Decidable (_ ∧ _))

theorem only_peers_heard_one : ∃ e log, PeerOnly (e, log) ∧
    (∀ c ∈ e.conns, ∃ a, .kept c.id a ∈ log) ∧
      (∀ l n now m l', log = l ++ .happened (.message n now m) :: l' → ∃ a, .kept n a ∈ l) ∧
        (∀ n a b, .kept n a ∈ log → .kept n b ∈ log → a = b) ∧
          ∀ n a, .kept n a ∈ log → PeerTable.IsPeer PeerTable.oneAddress none a ∨
            PeerTable.IsPeer PeerTable.oneAddress (some PeerTable.sharing) a := by
  have hrun : Run.Checks (Run.recorded (clientStep remembering.config) (deals remembering.config))
      (fun s a ↦ Asked PeerTable.oneAddress PeerTable.sharingTable s.1 a)
      (init remembering.config 0, []) strangerFirst PeerOnly := by decide +kernel
  obtain ⟨⟨e, log⟩, hreach, hpeer⟩ := hrun.reach
  have hglobal : PeerTable.load PeerTable.oneAddress none (.create none) = .ok (.create none) := rfl
  exact ⟨e, log, hpeer, only_peers_heard hglobal PeerTable.load_sharing hreach⟩

end Egress
end TcpEgress
end UdpTun
