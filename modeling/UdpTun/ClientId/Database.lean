import UdpTun.ClientId.Consistency
import UdpTun.Lib.TextStream

/-!
# The client database

The destructor of `ClientTable` writes the table to a text file, and its constructor reads such a
file: the number of entries, and then a line for each address, with its id, the length of the
address and its bytes.

Reading loses the bytes.  `operator >>` of `SocketAddress` allocates an array and extracts a number
for each element of it, and then assigns the wrong way round (`b = rhs.base_[i]`), so that the array
keeps what it held when it was allocated.  What that is depends on the memory, and is a parameter
here: `mem i j` is the `j`-th byte of the `i`-th array.

There are other ways to lose something: the number of entries is that of `fwd` and the lines are
those of `rev`, and two lines may have the same id.  `roundTrips_iff` says when nothing is lost.
-/

set_option autoImplicit false

namespace UdpTun

open TextStream

/-! ## Addresses

An address is its length and its bytes, as numbers with blanks between them.  Of what is read back,
the length is right. -/

namespace SocketAddress

/-- `operator <<`. -/
def write (a : SocketAddress) : List Char :=
  Nat.toDigits 10 a.len ++ a.bytes.flatMap fun b ↦ ' ' :: Nat.toDigits 10 b.toNat

/-- The address that an array of some length makes, when nothing is written to the array. -/
def ofMemory (mem : Nat → UInt8) (len : Nat) : SocketAddress := ⟨(List.range len).map mem⟩

/-- The loop of `operator >>`, as far as the stream goes. -/
def skipBytes : Nat → InStream → InStream
  | 0, s => s
  | n + 1, s => skipBytes n (s.extract 32).2

/-- `operator >>`.  What the address held before is dropped, and its length is then zero. -/
def read (mem : Nat → UInt8) (s : InStream) : SocketAddress × InStream :=
  let r := s.extract 32
  let len := r.1.getD 0
  -- the numbers extracted stay in `b`
  (ofMemory mem len, skipBytes len r.2)

/-- The array held the bytes of the address already. -/
def Recalled (mem : Nat → UInt8) (a : SocketAddress) : Prop := ofMemory mem a.len = a

theorem ofMemory_len (mem : Nat → UInt8) (len : Nat) : (ofMemory mem len).len = len := by
  simp [ofMemory, SocketAddress.len]

theorem skipBytes_write {rest : List Char} (bytes : List UInt8)
    (hrest : ∀ c ∈ rest.head?, c.isDigit = false) :
    skipBytes bytes.length
      ⟨(bytes.flatMap fun b ↦ ' ' :: Nat.toDigits 10 b.toNat) ++ rest, false⟩ = ⟨rest, false⟩ := by
  induction bytes with
  | nil => simp [skipBytes]
  | cons b bytes ih =>
    have hb : b.toNat < 2 ^ 32 := b.toNat_lt.trans (by decide)
    have hnext : ∀ c ∈ ((bytes.flatMap fun b ↦ ' ' :: Nat.toDigits 10 b.toNat) ++ rest).head?,
        c.isDigit = false := by
      cases bytes with
      | nil => simpa using hrest
      | cons b' bytes => simp
    have hextract := extract_toDigits [' '] _ (by simp) hb hnext
    simp only [List.cons_append, List.nil_append] at hextract
    simp [skipBytes, hextract, ih]

/-- **The length is read back, and the bytes are read over.** -/
theorem read_write {a : SocketAddress} (ws rest : List Char) (hlen : a.len < 2 ^ 32)
    (hws : ∀ c ∈ ws, isSpace c = true) (hrest : ∀ c ∈ rest.head?, c.isDigit = false)
    (mem : Nat → UInt8) :
    read mem ⟨ws ++ (a.write ++ rest), false⟩ = (ofMemory mem a.len, ⟨rest, false⟩) := by
  have hnext : ∀ c ∈ ((a.bytes.flatMap fun b ↦ ' ' :: Nat.toDigits 10 b.toNat) ++ rest).head?,
      c.isDigit = false := by
    cases hbytes : a.bytes with
    | nil => simpa using hrest
    | cons b bytes => simp
  have hextract := extract_toDigits ws _ hws hlen hnext
  rw [read, write, List.append_assoc, hextract]
  simp [← skipBytes_write a.bytes hrest, len]

end SocketAddress

/-! ## The table

The lines are made from `rev`, and read back one by one into both maps.  The loop takes as many
turns as the number in front of them says. -/

namespace ClientTable

/-- A line of the file. -/
def line (item : SocketAddress × Nat) : List Char :=
  Nat.toDigits 10 item.2 ++ (' ' :: (item.1.write ++ ['\n']))

/-- The destructor: what it writes to the file. -/
def save (t : ClientTable) : List Char :=
  Nat.toDigits 10 t.fwd.size ++ ('\n' :: t.rev.entries.flatMap line)

/-- What the constructor does with what it has read, at time `now`.  `emplace` leaves an entry that
is there already. -/
def enter (now : TimePoint) (t : ClientTable) (addr : SocketAddress) (clid : Nat) : ClientTable :=
  { t with
    rev := t.rev.insert addr clid
    fwd := if (t.fwd.get? clid).isNone then t.fwd.insert clid ⟨addr, now⟩ else t.fwd }

/-- The loop of the constructor, at its `i`-th turn. -/
def loadLoop (w : Nat) (mem : Nat → Nat → UInt8) (now : TimePoint) :
    Nat → Nat → InStream → ClientTable → Except Halt ClientTable
  | 0, _, _, t => .ok t
  | cnt + 1, i, s, t =>
    match s.extract w with
    | (none, _) => .error .undefined
    | (some clid, s) =>
      let r := SocketAddress.read (mem i) s
      loadLoop w mem now cnt (i + 1) r.2 (t.enter now r.1 clid)

/-- The constructor, where `db` is the text of the file, if it can be opened.  One reading of the
clock stands for all. -/
def load (w : Nat) (mem : Nat → Nat → UInt8) (now : TimePoint) (db : Option (List Char)) :
    Except Halt ClientTable :=
  match db with
  | none => .ok (create now)
  | some text =>
    match (InStream.mk text false).extract 64 with
    | (none, _) => .error .undefined
    | (some cnt, s) => loadLoop w mem now cnt 0 s (create now)

/-- What reading makes of items, from the `i`-th turn of the loop on. -/
def reread (mem : Nat → Nat → UInt8) (i : Nat) (items : List (SocketAddress × Nat)) :
    List (SocketAddress × Nat) :=
  (items.zipIdx i).map fun p ↦ (.ofMemory (mem p.2) p.1.1.len, p.1.2)

/-- Items are entered one after the other. -/
def enterAll (now : TimePoint) (items : List (SocketAddress × Nat)) (t : ClientTable) :
    ClientTable :=
  items.foldl (fun t p ↦ t.enter now p.1 p.2) t

variable {w : Nat} {mem : Nat → Nat → UInt8} {now : TimePoint} {t : ClientTable}
  {items : List (SocketAddress × Nat)} {a : SocketAddress} {id cnt i : Nat}

/-! ## What the loop reads

Reading a line that was written gives its id, and an address that comes from memory.  So all of the
file comes to a list of items. -/

/-- The fields of an item fit their types. -/
def ItemFits (w : Nat) (item : SocketAddress × Nat) : Prop :=
  item.1.len < 2 ^ 32 ∧ item.2 < 2 ^ w

/-- One turn, at a line. -/
theorem loadLoop_line {item : SocketAddress × Nat} (hfits : ItemFits w item) (rest : List Char) :
    loadLoop w mem now (cnt + 1) i ⟨'\n' :: (line item ++ rest), false⟩ t =
      loadLoop w mem now cnt (i + 1) ⟨'\n' :: rest, false⟩
        (t.enter now (.ofMemory (mem i) item.1.len) item.2) := by
  have hid := extract_toDigits ['\n'] (' ' :: (item.1.write ++ '\n' :: rest))
    (by simp) hfits.2 (by simp)
  have haddr := SocketAddress.read_write [' '] ('\n' :: rest) hfits.1 (by simp)
    (by simp) (mem i)
  simp only [List.cons_append, List.nil_append] at hid haddr
  simp [loadLoop, line, hid, haddr]

/-- **As long as there are lines, the loop enters what it reads.** -/
theorem loadLoop_lines (hfits : ∀ p ∈ items, ItemFits w p) (hcnt : cnt ≤ items.length) :
    loadLoop w mem now cnt i ⟨'\n' :: items.flatMap line, false⟩ t =
      .ok (t.enterAll now (reread mem i (items.take cnt))) := by
  induction items generalizing cnt i t with
  | nil =>
    obtain rfl : cnt = 0 := by simpa using hcnt
    rfl
  | cons item items ih =>
    cases cnt with
    | zero => rfl
    | succ cnt =>
      rw [List.flatMap_cons, loadLoop_line (hfits _ List.mem_cons_self),
        ih (fun p hp ↦ hfits p (List.mem_cons_of_mem _ hp)) (by simpa using hcnt)]
      rfl

/-- Past the last line there is no id to be had. -/
theorem loadLoop_short (hfits : ∀ p ∈ items, ItemFits w p) (hcnt : items.length < cnt) :
    loadLoop w mem now cnt i ⟨'\n' :: items.flatMap line, false⟩ t = .error .undefined := by
  induction items generalizing cnt i t with
  | nil =>
    obtain ⟨cnt, rfl⟩ := Nat.exists_eq_succ_of_ne_zero hcnt.ne'
    have hblank := extract_of_blank ['\n'] (by simp) w
    simp [loadLoop, hblank]
  | cons item items ih =>
    obtain ⟨cnt, rfl⟩ := Nat.exists_eq_succ_of_ne_zero (Nat.ne_zero_of_lt hcnt)
    rw [List.flatMap_cons, loadLoop_line (hfits _ List.mem_cons_self)]
    exact ih (fun p hp ↦ hfits p (List.mem_cons_of_mem _ hp)) (by simpa using hcnt)

/-- Reading the file that `save` writes. -/
theorem load_save (hsize : t.fwd.size < 2 ^ 64) :
    load w mem now (some t.save) =
      loadLoop w mem now t.fwd.size 0 ⟨'\n' :: t.rev.entries.flatMap line, false⟩ (create now) := by
  have hcnt := extract_toDigits [] ('\n' :: t.rev.entries.flatMap line)
    (by simp) hsize (by simp)
  rw [List.nil_append] at hcnt
  simp [load, save, hcnt]

/-! ## What the maps make of it

The two maps differ in what they do with a key that is there: an id keeps its first entry, and an
address gets its last id. -/

theorem enter_rev (t : ClientTable) (addr : SocketAddress) (clid : Nat) :
    (t.enter now addr clid).rev.get? a = if a = addr then some clid else t.rev.get? a := by
  simp [enter, OrdMap.get?_insert]

/-- An id keeps the first entry made for it. -/
theorem enter_fwd (t : ClientTable) (addr : SocketAddress) (clid : Nat) :
    (t.enter now addr clid).fwd.get? id =
      if id = clid ∧ t.fwd.get? clid = none then some ⟨addr, now⟩ else t.fwd.get? id := by
  rw [enter]
  by_cases hnone : t.fwd.get? clid = none
  · simp [hnone, OrdMap.get?_insert]
  · simp [hnone, Option.isNone_iff_eq_none]

theorem enterAll_rev (h : (t.enterAll now items).rev.get? a = some id) :
    t.rev.get? a = some id ∨ (a, id) ∈ items := by
  induction items generalizing t with
  | nil => exact .inl h
  | cons p items ih =>
    rcases ih h with hget | hmem
    · rw [enter_rev] at hget
      split at hget
      · obtain rfl := Option.some.inj hget
        subst a
        exact .inr List.mem_cons_self
      · exact .inl hget
    · exact .inr (List.mem_cons_of_mem _ hmem)

theorem enterAll_fwd {e : ClientEntry} (h : (t.enterAll now items).fwd.get? id = some e) :
    t.fwd.get? id = some e ∨ (e.addr, id) ∈ items := by
  induction items generalizing t with
  | nil => exact .inl h
  | cons p items ih =>
    rcases ih h with hget | hmem
    · rw [enter_fwd] at hget
      split at hget
      · obtain rfl := Option.some.inj hget
        obtain ⟨rfl, -⟩ := ‹id = p.2 ∧ _›
        exact .inr List.mem_cons_self
      · exact .inl hget
    · exact .inr (List.mem_cons_of_mem _ hmem)

/-- What is not among the items is as before. -/
theorem enterAll_rev_of_notMem (h : a ∉ items.map Prod.fst) :
    (t.enterAll now items).rev.get? a = t.rev.get? a := by
  induction items generalizing t with
  | nil => rfl
  | cons p items ih =>
    rw [List.map_cons, List.mem_cons, not_or] at h
    exact (ih h.2).trans ((enter_rev ..).trans (if_neg h.1))

/-- An entry that is there stays. -/
theorem enterAll_fwd_of_some {e : ClientEntry} (h : t.fwd.get? id = some e) :
    (t.enterAll now items).fwd.get? id = some e := by
  induction items generalizing t with
  | nil => exact h
  | cons p items ih =>
    refine ih ?_
    rw [enter_fwd, if_neg, h]
    rintro ⟨rfl, hnone⟩
    rw [h] at hnone
    cases hnone

/-- When the addresses differ, each gets the id it came with. -/
theorem enterAll_rev_of_mem (hnd : (items.map Prod.fst).Nodup) (h : (a, id) ∈ items) :
    (t.enterAll now items).rev.get? a = some id := by
  induction items generalizing t with
  | nil => cases h
  | cons p items ih =>
    rw [List.map_cons, List.nodup_cons] at hnd
    rcases List.mem_cons.mp h with rfl | hmem
    · refine (enterAll_rev_of_notMem hnd.1).trans ?_
      simp [enter_rev]
    · exact ih hnd.2 hmem

/-- When the ids differ, each gets the address it came with. -/
theorem enterAll_fwd_of_mem (hnd : (items.map Prod.snd).Nodup) (h : (a, id) ∈ items)
    (hnew : ∀ i ∈ items.map Prod.snd, t.fwd.get? i = none) :
    (t.enterAll now items).fwd.get? id = some ⟨a, now⟩ := by
  induction items generalizing t with
  | nil => cases h
  | cons p items ih =>
    rw [List.map_cons, List.nodup_cons] at hnd
    rcases List.mem_cons.mp h with rfl | hmem
    · have hnone : t.fwd.get? id = none := hnew id (by simp)
      have hentered : (t.enter now a id).fwd.get? id = some ⟨a, now⟩ := by
        rw [enter_fwd, if_pos ⟨rfl, hnone⟩]
      show (enterAll now items (t.enter now a id)).fwd.get? id = _
      exact enterAll_fwd_of_some hentered
    · refine ih hnd.2 hmem fun i hi ↦ ?_
      rw [enter_fwd, if_neg, hnew i (List.mem_cons_of_mem _ hi)]
      rintro ⟨rfl, -⟩
      exact hnd.1 hi

/-! ## The round trip

What is to be lost or kept is put in terms of the table alone, and of the memory.  Both directions
are shown for any table whose fields fit their types. -/

/-- What the destructor writes, the constructor reads back: each address has the id it had, and the
maps are inverse. -/
def RoundTrips (w : Nat) (mem : Nat → Nat → UInt8) (now : TimePoint) (t : ClientTable) : Prop :=
  ∃ t', load w mem now (some t.save) = .ok t' ∧ (∀ a, t'.rev.get? a = t.rev.get? a) ∧
    t'.Consistent

/-- There is an entry for each line, the lines differ in id, and the arrays made for the addresses
held their bytes already. -/
structure Restorable (mem : Nat → Nat → UInt8) (t : ClientTable) : Prop where
  size : t.fwd.size = t.rev.size
  ids : (t.rev.entries.map Prod.snd).Nodup
  addrs : ∀ (i : Nat) (p : SocketAddress × Nat), t.rev.entries[i]? = some p → p.1.Recalled (mem i)

theorem mem_reread {b : SocketAddress} : (b, id) ∈ reread mem 0 items ↔
    ∃ i a, items[i]? = some (a, id) ∧ .ofMemory (mem i) a.len = b := by
  simp only [reread, List.mem_map, Prod.exists, List.mem_zipIdx_iff_getElem?, Prod.mk.injEq]
  constructor
  · rintro ⟨a, id', i, hi, hb, rfl⟩
    exact ⟨i, a, hi, hb⟩
  · rintro ⟨i, a, hi, hb⟩
    exact ⟨a, id, i, hi, hb, rfl⟩

/-- Nothing changes when the arrays held the bytes already. -/
theorem reread_of_recalled
    (h : ∀ (i : Nat) (p : SocketAddress × Nat), items[i]? = some p → p.1.Recalled (mem i)) :
    reread mem 0 items = items := by
  refine List.ext_getElem? fun i ↦ ?_
  cases hi : items[i]? with
  | none => simp [reread, hi]
  | some p =>
    have hp : SocketAddress.ofMemory (mem i) p.1.len = p.1 := h i p hi
    simp [reread, hi, hp]

theorem nodup_addrs (t : ClientTable) : (t.rev.entries.map Prod.fst).Nodup :=
  List.pairwise_map.mpr (t.rev.sorted.imp fun h ↦ h.ne)

/-- **Nothing is lost when the table is restorable.** -/
theorem Restorable.roundTrips (h : Restorable mem t) (hsize : t.fwd.size < 2 ^ 64)
    (hfits : ∀ p ∈ t.rev.entries, ItemFits w p) (now : TimePoint) : t.RoundTrips w mem now := by
  have hload : load w mem now (some t.save) = .ok ((create now).enterAll now t.rev.entries) := by
    have hall : t.rev.entries.take t.fwd.size = t.rev.entries := by
      rw [h.size, OrdMap.size, List.take_length]
    rw [load_save hsize, loadLoop_lines hfits h.size.le, hall, reread_of_recalled h.addrs]
  have hrev : ∀ a id, ((create now).enterAll now t.rev.entries).rev.get? a = some id ↔
      (a, id) ∈ t.rev.entries := by
    intro a id
    refine ⟨fun hget ↦ ?_, enterAll_rev_of_mem t.nodup_addrs⟩
    rcases enterAll_rev hget with hnone | hmem
    · cases hnone
    · exact hmem
  refine ⟨_, hload, fun a ↦ Option.ext fun id ↦ ?_, fun a id ↦ ?_⟩
  · rw [hrev, OrdMap.mem_entries]
  · rw [hrev]
    constructor
    · intro hmem
      exact ⟨_, enterAll_fwd_of_mem h.ids hmem (by simp [create]), rfl⟩
    · rintro ⟨e, hget, rfl⟩
      rcases enterAll_fwd hget with hnone | hmem
      · cases hnone
      · exact hmem

/-- **Something is lost when it is not.** -/
theorem RoundTrips.restorable (h : t.RoundTrips w mem now) (hsize : t.fwd.size < 2 ^ 64)
    (hfits : ∀ p ∈ t.rev.entries, ItemFits w p) : Restorable mem t := by
  obtain ⟨t', hload, hrev, hcons⟩ := h
  rw [load_save hsize] at hload
  have hle : t.fwd.size ≤ t.rev.entries.length := by
    by_contra hlt
    rw [loadLoop_short hfits (not_le.mp hlt)] at hload
    cases hload
  rw [loadLoop_lines hfits hle] at hload
  obtain rfl := Except.ok.inj hload
  set items := reread mem 0 (t.rev.entries.take t.fwd.size) with hitems
  have hlen : items.length = t.fwd.size := by simp [hitems, reread, hle]
  -- all the addresses of the table have been read, so there were as many lines to be read
  have hsub : ∀ p ∈ t.rev.entries, p ∈ items := by
    rintro ⟨a, id⟩ hmem
    rw [OrdMap.mem_entries, ← hrev] at hmem
    rcases enterAll_rev hmem with hnone | hmem
    · cases hnone
    · exact hmem
  have hperm : (t.rev.entries.map Prod.fst).Perm (items.map Prod.fst) := by
    refine (t.nodup_addrs.subperm (List.map_subset _ hsub)).perm_of_length_le ?_
    simpa [hlen] using hle
  have heq : t.fwd.size = t.rev.size := by
    have hmaps := hperm.length_eq
    rw [List.length_map, List.length_map, hlen] at hmaps
    exact hmaps.symm
  have hmem : ∀ a id, (a, id) ∈ items → (a, id) ∈ t.rev.entries := by
    intro a id hmem
    rw [OrdMap.mem_entries, ← hrev]
    exact enterAll_rev_of_mem (hperm.nodup_iff.mp t.nodup_addrs) hmem
  -- the maps read are inverse, so an id goes with one address
  have hone : ∀ a b id, (a, id) ∈ t.rev.entries → (b, id) ∈ t.rev.entries → a = b := by
    intro a b id ha hb
    rw [OrdMap.mem_entries, ← hrev, hcons] at ha hb
    obtain ⟨e, he, rfl⟩ := ha
    obtain ⟨e', he', rfl⟩ := hb
    rw [he] at he'
    rw [Option.some.inj he']
  refine ⟨heq, ?_, ?_⟩
  · have hnd : t.rev.entries.Nodup := t.nodup_addrs.of_map _
    refine hnd.map_on ?_
    rintro ⟨a, id⟩ ha ⟨b, id'⟩ hb rfl
    rw [hone a b id ha hb]
  · rintro i ⟨a, id⟩ hi
    have hread : (SocketAddress.ofMemory (mem i) a.len, id) ∈ items := by
      rw [hitems, heq, OrdMap.size, List.take_length]
      exact mem_reread.mpr ⟨i, a, hi, rfl⟩
    exact hone _ a id (hmem _ _ hread) (List.mem_of_getElem? hi)

/-! ## Tables in use

That the fields fit is true of each table that a run leads to, since what is read from a file fits
as well. -/

/-- The length of the address given to a call fits its type. -/
def Call.Fits : Call → Prop
  | .seek key _ => key.len < 2 ^ 32
  | .purge _ | .onPurge _ => True

instance : DecidablePred Call.Fits := fun c ↦
  match c with
  | .seek key _ => inferInstanceAs (Decidable (key.len < 2 ^ 32))
  | .purge _ | .onPurge _ => .isTrue trivial

/-- A table that the constructor has made of some file, or of none, and that has been called
then. -/
def InUse (w : Nat) (t : ClientTable) : Prop :=
  ∃ mem now db t₀, load w mem now db = .ok t₀ ∧ Run.Reach (step w) (fun _ ↦ Call.Fits) t₀ t

/-- What is in `rev` fits its types, and so does the next id. -/
structure Sized (w : Nat) (t : ClientTable) : Prop where
  next : t.nextId < 2 ^ w
  rev : ∀ a id, t.rev.get? a = some id → ItemFits w (a, id)

theorem sized_create (now : TimePoint) : Sized w (create now) :=
  ⟨Nat.two_pow_pos w, fun _ _ ↦ nofun⟩

theorem Sized.enter (h : Sized w t) {addr : SocketAddress} {clid : Nat}
    (hfits : ItemFits w (addr, clid)) : Sized w (t.enter now addr clid) := by
  refine ⟨h.next, fun a id hget ↦ ?_⟩
  rw [enter_rev] at hget
  split at hget
  · obtain rfl := Option.some.inj hget
    subst a
    exact hfits
  · exact h.rev a id hget

theorem read_len_lt (mem : Nat → UInt8) (s : InStream) :
    (SocketAddress.read mem s).1.len < 2 ^ 32 := by
  rw [SocketAddress.read]
  dsimp only
  rw [SocketAddress.ofMemory_len]
  cases hlen : (s.extract 32).1 with
  | none => simp
  | some len => exact extract_lt hlen

theorem Sized.loadLoop (h : Sized w t) {s : InStream} {t' : ClientTable}
    (hload : loadLoop w mem now cnt i s t = .ok t') : Sized w t' := by
  induction cnt generalizing i s t with
  | zero =>
    obtain rfl := Except.ok.inj hload
    exact h
  | succ cnt ih =>
    rw [ClientTable.loadLoop] at hload
    split at hload
    · cases hload
    · rename_i clid s' hs
      have hclid : (s.extract w).1 = some clid := by rw [hs]
      exact ih (h.enter ⟨read_len_lt _ _, extract_lt hclid⟩) hload

theorem sized_load {db : Option (List Char)} (h : load w mem now db = .ok t) : Sized w t := by
  unfold load at h
  split at h
  · obtain rfl := Except.ok.inj h
    exact sized_create now
  · split at h
    · cases h
    · exact (sized_create now).loadLoop h

theorem Sized.purge (h : Sized w t) {before : TimePoint} {t' : ClientTable}
    (hpurge : t.purge before = .ok t') : Sized w t' :=
  ⟨(purgeLoop_nextId hpurge).trans_lt h.next,
    fun a id hget ↦ h.rev a id (purgeLoop_rev_subset hpurge hget)⟩

theorem Sized.seek (h : Sized w t) {key : SocketAddress} (hkey : key.len < 2 ^ 32)
    {r : Nat × ClientTable} (hseek : t.seek w key now = .ok r) : Sized w r.2 := by
  unfold ClientTable.seek at hseek
  split at hseek
  · split at hseek
    · cases hseek
    · obtain rfl := Except.ok.inj hseek
      exact ⟨h.next, h.rev⟩
  · split at hseek
    · cases hseek
    · rename_i id hfree
      obtain rfl := Except.ok.inj hseek
      have hid : id < 2 ^ w := freeIdFrom_lt h.next hfree
      have hentered : Sized w (t.enter now key id) := h.enter ⟨hkey, hid⟩
      exact ⟨Nat.mod_lt _ (Nat.two_pow_pos w), hentered.rev⟩

theorem InUse.sized (h : t.InUse w) : Sized w t := by
  obtain ⟨mem, now, db, t₀, hload, hreach⟩ := h
  refine hreach.invariant (sized_load hload) fun t c t' ht hc hstep ↦ ?_
  cases c with
  | seek key now =>
    obtain ⟨r, hseek, rfl⟩ := map_ok hstep
    exact ht.seek hc hseek
  | purge before => exact ht.purge hstep
  | onPurge now =>
    cases hpurge : t.purge t.lastPurge with
    | error x => simp [step, onPurge, hpurge] at hstep
    | ok t₁ =>
      have h₁ := ht.purge hpurge
      have heq : { t₁ with lastPurge := now } = t' := by
        simpa [step, onPurge, hpurge] using hstep
      rw [← heq]
      exact ⟨h₁.next, h₁.rev⟩

/-! ## When nothing is lost

The two come together: for tables in use the condition is exact. -/

/-- **When the database round-trips.**  For a table in use, exactly when it is restorable: as many
entries as lines, no id on two lines, and each array holding the bytes of its address before it is
read into.  For an address, the length always comes back, and the bytes when the array held them. -/
theorem roundTrips_iff (h : t.InUse w) (hsize : t.fwd.size < 2 ^ 64)
    (mem : Nat → Nat → UInt8) (now : TimePoint) :
    (t.RoundTrips w mem now ↔ Restorable mem t) ∧
      ∀ (a : SocketAddress) (held : Nat → UInt8), a.len < 2 ^ 32 →
        (SocketAddress.read held ⟨a.write, false⟩).1.len = a.len ∧
        ((SocketAddress.read held ⟨a.write, false⟩).1 = a ↔ a.Recalled held) := by
  have hfits : ∀ p ∈ t.rev.entries, ItemFits w p := fun p hp ↦
    h.sized.rev p.1 p.2 (OrdMap.mem_entries.mp hp)
  refine ⟨⟨fun htrip ↦ htrip.restorable hsize hfits, fun hres ↦ hres.roundTrips hsize hfits now⟩,
    fun a held hlen ↦ ?_⟩
  have hread := SocketAddress.read_write [] [] hlen (by simp) (by simp) held
  rw [List.nil_append, List.append_nil] at hread
  rw [hread]
  exact ⟨SocketAddress.ofMemory_len .., Iff.rfl⟩

/-- The array that is made for each address held the bytes of one of two clients. -/
def holding (i j : Nat) : UInt8 := (SocketAddress.inet (i + 1) 53).bytes.getD j 0

/-- A table with two clients, on a machine whose memory happens to hold their addresses. -/
theorem roundTrips_iff_two : ∃ t : ClientTable, t.InUse 16 ∧
    t.rev.entries = [(.inet 1 53, 0), (.inet 2 53, 1)] ∧ t.RoundTrips 16 holding 0 := by
  have hrun : Run.Checks (step 16) (fun _ ↦ Call.Fits) (create 0)
      [.seek (.inet 1 53) 1, .seek (.inet 2 53) 2] fun t ↦
        t.fwd.size = 2 ∧ t.rev.entries = [(.inet 1 53, 0), (.inet 2 53, 1)] := by decide +kernel
  obtain ⟨t, hreach, hsize, hrev⟩ := hrun.reach
  have huse : t.InUse 16 := ⟨fun _ _ ↦ 0, 0, none, create 0, rfl, hreach⟩
  refine ⟨t, huse, hrev, (roundTrips_iff huse (by rw [hsize]; decide) holding 0).1.mpr ?_⟩
  refine ⟨?_, ?_, fun i p hp ↦ ?_⟩
  · rw [hsize, OrdMap.size, hrev]
    rfl
  · rw [hrev]
    decide
  · rw [hrev] at hp
    rcases i with _ | _ | i
    · cases hp
      rw [SocketAddress.Recalled]
      decide +kernel
    · cases hp
      rw [SocketAddress.Recalled]
      decide +kernel
    · cases hp

/-- One client is lost: its address is read back as sixteen zeros. -/
theorem address_lost : ∃ t : ClientTable, t.InUse 16 ∧ t.rev.get? (.inet 1 53) = some 0 ∧
    ¬ t.RoundTrips 16 (fun _ _ ↦ 0) 0 := by
  have hrun : Run.Checks (step 16) (fun _ ↦ Call.Fits) (create 0) [.seek (.inet 1 53) 1] fun t ↦
      t.rev.get? (.inet 1 53) = some 0 ∧
        ((load 16 (fun _ _ ↦ 0) 0 (some t.save)).map fun t' ↦ t'.rev.get? (.inet 1 53)) =
          .ok none := by decide +kernel
  obtain ⟨t, hreach, hget, hload⟩ := hrun.reach
  refine ⟨t, ⟨fun _ _ ↦ 0, 0, none, create 0, rfl, hreach⟩, hget, ?_⟩
  rintro ⟨t', hok, hrev, -⟩
  rw [hok] at hload
  have hnone : t'.rev.get? (.inet 1 53) = none := Except.ok.inj hload
  rw [hrev, hget] at hnone
  cases hnone

end ClientTable
end UdpTun
