import UdpTun.Lib.OrdMap
import UdpTun.SockAddrs

/-!
# Address entries

`AddressEntry` of `addrent.cc` is a copy of one result of `getaddrinfo`.  A `std::set` of these is
what an egress makes of the results, so that each address is listened to once.
`AddressEntry.lt_iff_less` says that the order of the set is that of the operator, and `addresses`
is the set.
-/

set_option autoImplicit false

namespace UdpTun

/-- `AddressEntry`; `addrlen` is the number of bytes. -/
structure AddressEntry where
  flags : Int
  family : Int
  socktype : Int
  protocol : Int
  /-- The bytes at `addr_base`. -/
  addr : List UInt8
  deriving DecidableEq

namespace AddressEntry

/-- `operator <`. -/
def less (lhs rhs : AddressEntry) : Bool :=
  if lhs.flags < rhs.flags then true
  else if lhs.flags > rhs.flags then false
  else if lhs.family < rhs.family then true
  else if lhs.family > rhs.family then false
  else if lhs.socktype < rhs.socktype then true
  else if lhs.socktype > rhs.socktype then false
  else if lhs.protocol < rhs.protocol then true
  else if lhs.protocol > rhs.protocol then false
  else if lhs.addr.length < rhs.addr.length then true
  else if lhs.addr.length > rhs.addr.length then false
  else memcmpLess lhs.addr rhs.addr

/-- What the operator compares. -/
private def orderKey (a : AddressEntry) : ℤ ×ₗ ℤ ×ₗ ℤ ×ₗ ℤ ×ₗ ℕ ×ₗ List ℕ :=
  toLex (a.flags, toLex (a.family, toLex (a.socktype, toLex (a.protocol,
    toLex (a.addr.length, a.addr.map UInt8.toNat)))))

private theorem orderKey_injective : Function.Injective orderKey := by
  rintro ⟨f, m, s, p, as⟩ ⟨f', m', s', p', bs⟩ h
  simp only [orderKey, EmbeddingLike.apply_eq_iff_eq, Prod.mk.injEq] at h
  obtain ⟨rfl, rfl, rfl, rfl, -, hmap⟩ := h
  have hinj : Function.Injective UInt8.toNat := fun _ _ ↦ UInt8.toNat_inj.mp
  rw [List.map_injective_iff.mpr hinj hmap]

instance : LinearOrder AddressEntry := LinearOrder.lift' orderKey orderKey_injective

/-- One step of the comparison. -/
private theorem lex_step {α : Type} [LinearOrder α] {x y : α} {P : Prop} {b : Bool}
    (h : x = y → (P ↔ b = true)) : (x < y ∨ x = y ∧ P) ↔
      (if x < y then true else if x > y then false else b) = true := by
  rcases lt_trichotomy x y with hlt | heq | hgt
  · simp [hlt]
  · rw [if_neg (by simp [heq]), if_neg (by simp [heq]), ← h heq]
    simp [heq]
  · simp [hgt, hgt.ne', not_lt.mpr hgt.le]

/-- The order of the set is the order of `operator <`. -/
theorem lt_iff_less {a b : AddressEntry} : a < b ↔ a.less b = true := by
  show orderKey a < orderKey b ↔ _
  simp only [orderKey, Prod.Lex.toLex_lt_toLex]
  rw [less]
  refine lex_step fun _ ↦ lex_step fun _ ↦ lex_step fun _ ↦ lex_step fun _ ↦ lex_step fun hlen ↦ ?_
  exact (memcmpLess_iff hlen).symm

end AddressEntry

/-- The results of `getaddrinfo` in a `std::set`, as they are walked. -/
def addresses (info : List AddressEntry) : List AddressEntry :=
  (info.foldl (fun m a ↦ m.insert a ()) OrdMap.empty).entries.map Prod.fst

theorem nodup_addresses (info : List AddressEntry) : (addresses info).Nodup := by
  have hsorted := (info.foldl (fun m a ↦ m.insert a ()) (OrdMap.empty (V := Unit))).sorted
  exact List.Pairwise.map _ (fun p q hlt ↦ ne_of_lt hlt) hsorted

/-- No result is left out, and none is added. -/
theorem mem_addresses {info : List AddressEntry} {a : AddressEntry} :
    a ∈ addresses info ↔ a ∈ info := by
  have hfold : ∀ m : OrdMap AddressEntry Unit,
      (info.foldl (fun m a ↦ m.insert a ()) m).get? a = some () ↔
        a ∈ info ∨ m.get? a = some () := by
    induction info with
    | nil => simp
    | cons b info ih =>
      intro m
      rw [List.foldl_cons, ih, OrdMap.get?_insert, List.mem_cons]
      by_cases hb : a = b <;> simp [hb]
  have hmem : a ∈ addresses info ↔
      (a, ()) ∈ (info.foldl (fun m a ↦ m.insert a ()) OrdMap.empty).entries := by
    rw [addresses, List.mem_map]
    exact ⟨fun ⟨p, hp, hpa⟩ ↦ hpa ▸ hp, fun h ↦ ⟨_, h, rfl⟩⟩
  rw [hmem, OrdMap.mem_entries, hfold]
  simp

end UdpTun
