import UdpTun.Queues

/-!
# Quotas

`Quota` of `quotas.cc` keeps an account for each of its users: how much of the quota it takes up and
how old the oldest of it is.  When the total is more than the quota it walks through an index by age
and calls back the users it finds there, so that they discard something.

* `Quota` is the account, with `increase`, `decrease`, `oldest` and `forget` as they are without
  that walk.
* `Shared` is a quota manager together with the payload queues that use it.  `Shared.check` is the
  walk, in which a callback discards the oldest file of a queue.
* `Shared.step` is what can be done to all this from outside.

The manager tells its users apart by the addresses of their callbacks.  Each queue has a directory
of its own.
-/

set_option autoImplicit false

namespace UdpTun

/-- `Quota::Data`. -/
structure QuotaData where
  amount : Nat
  age : Nat
  deriving DecidableEq

/-- `Quota`, with users as addresses. -/
structure Quota where
  total : Nat
  max : Nat
  users : OrdMap Nat QuotaData
  /-- The users whose oldest is of each age. -/
  ages : OrdMap Nat (OrdMap Nat Unit)

namespace Quota

/-- The constructor. -/
def init : Quota := { total := 0, max := 0, users := .empty, ages := .empty }

/-- What `users.try_emplace(&user)` leads to. -/
def data (t : Quota) (user : Nat) : QuotaData := (t.users.get? user).getD ⟨0, 0⟩

/-- `increase`, up to the call of `check`. -/
def increase (t : Quota) (user sz : Nat) : Quota :=
  let d := t.data user
  { t with users := t.users.insert user { d with amount := d.amount + sz }, total := t.total + sz }

/-- `decrease`. -/
def decrease (t : Quota) (user sz : Nat) : Quota :=
  let d := t.data user
  let am := if d.amount < sz then d.amount else sz
  { t with
    users := t.users.insert user
      { d with amount := if d.amount < sz then 0 else d.amount - sz }
    total := if t.total < am then 0 else t.total - am }

/-- `erase_from_sequence`. -/
def eraseFromSequence (t : Quota) (user time : Nat) : Quota :=
  if time = 0 then t
  else
    match t.ages.get? time with
    | none => t
    | some ups =>
      if (ups.get? user).isNone then t
      else if (ups.erase user).entries.isEmpty then { t with ages := t.ages.erase time }
      else { t with ages := t.ages.insert time (ups.erase user) }

/-- `insert_into_sequence`.  That the time is not zero, as it asserts, its only caller has
tested. -/
def insertIntoSequence (t : Quota) (user time : Nat) : Quota :=
  { t with ages := t.ages.modify time .empty fun ups ↦ ups.insert user () }

/-- `oldest`. -/
def oldest (t : Quota) (user time : Nat) : Quota :=
  let d := t.data user
  let t := { t with users := t.users.insert user d }
  if d.age = time then t
  else
    let t := t.eraseFromSequence user d.age
    let t := { t with users := t.users.insert user { d with age := time } }
    if time ≠ 0 then t.insertIntoSequence user time else t

/-- `forget`. -/
def forget (t : Quota) (user : Nat) : Quota :=
  match t.users.get? user with
  | none => t
  | some d =>
    let t := t.eraseFromSequence user d.age
    { t with
      total := if t.total < d.amount then 0 else t.total - d.amount
      users := t.users.erase user }

end Quota

/-- A quota manager and the queues that share it. -/
structure Shared where
  quota : Quota
  queues : OrdMap Nat PayloadQueue

/-- A queue is asked to discard a file, and how things are then. -/
structure Removal where
  user : Nat
  before : Shared

namespace Shared

/-- Before there are any queues. -/
def init : Shared := { quota := .init, queues := .empty }

/-! ## The walk

A callback changes the accounts while the walk goes on, but only by calls that leave the index
alone.  So it may be taken along the list that the index is to begin with. -/

/-- What a call of a queue does to its account, less the walk. -/
def note (s : Shared) (user : Nat) : PayloadQueue.Call → Shared
  | .user => s
  | .increase sz => { s with quota := s.quota.increase user sz }
  | .decrease sz => { s with quota := s.quota.decrease user sz }
  | .oldest key => { s with quota := s.quota.oldest user key }

/-- Several calls of a queue. -/
def notes (s : Shared) (user : Nat) (l : List PayloadQueue.Call) : Shared :=
  l.foldl (fun s c ↦ s.note user c) s

/-- `(*up)()`: the queue discards a file, and says so. -/
def discard (s : Shared) (user : Nat) : Except Halt Shared :=
  match s.queues.get? user with
  | none => .error .undefined
  | some q => q.discardFile.map fun r ↦
      { s with queues := s.queues.insert user r.1 }.notes user r.2

/-- The loop of `check`, over what is left of `ages`, which discarding does not change. -/
def checkLoop : List (Nat × OrdMap Nat Unit) → Shared → Except Halt (Shared × List Removal)
  | [], s => .ok (s, [])
  | (_, ups) :: rest, s =>
    if s.quota.total ≤ s.quota.max then .ok (s, [])
    else
      -- the inner loop breaks off after the first user
      match ups.first? with
      | none => checkLoop rest s
      | some (up, _) =>
        match s.discard up with
        | .error x => .error x
        | .ok s' => (checkLoop rest s').map fun r ↦ (r.1, ⟨up, s⟩ :: r.2)

/-- `check`, and the removals it asks for. -/
def check (s : Shared) : Except Halt (Shared × List Removal) := checkLoop s.quota.ages.entries s

/-- A call of a queue. -/
def call (s : Shared) (user : Nat) : PayloadQueue.Call → Except Halt (Shared × List Removal)
  | .increase sz => (s.note user (.increase sz)).check
  | c => .ok (s.note user c, [])

/-- The calls of a queue, in order. -/
def calls (s : Shared) (user : Nat) : List PayloadQueue.Call → Except Halt (Shared × List Removal)
  | [] => .ok (s, [])
  | c :: l =>
    match s.call user c with
    | .error x => .error x
    | .ok (s, removed) => (s.calls user l).map fun r ↦ (r.1, removed ++ r.2)

/-! ## What can be done

Each queue has its own directory, and shares nothing with the others but the manager. -/

/-- A queue is made, used or destroyed, or the quota is set. -/
inductive Act
  | create (user maxMem : Nat) (files : OrdMap FileName (List UInt8)) (listing : List FileName)
  | use (user : Nat) (a : PayloadQueue.Use)
  | destroy (user now : Nat)
  | set (sz : Nat)

/-- The queue at an address does something, and makes its calls. -/
def put (s : Shared) (user : Nat) (r : Except Halt (PayloadQueue × List PayloadQueue.Call)) :
    Except Halt (Shared × List Removal) :=
  match r with
  | .error x => .error x
  | .ok (q, l) => { s with queues := s.queues.insert user q }.calls user l

/-- One act, and the removals it leads to. -/
def step (s : Shared) : Act → Except Halt (Shared × List Removal)
  | .create user maxMem files listing => s.put user (PayloadQueue.create maxMem files listing)
  | .use user a =>
    match s.queues.get? user with
    | none => .error .undefined
    | some q => s.put user (q.perform a)
  | .destroy user now =>
    match s.queues.get? user with
    | none => .error .undefined
    | some q => (q.destroy now).map fun r ↦
        ({ quota := (s.quota.decrease user r.2).forget user, queues := s.queues.erase user }, [])
  | .set sz => { s with quota := { s.quota with max := sz } }.check

/-- One act. -/
def advance (s : Shared) (a : Act) : Except Halt Shared := (s.step a).map Prod.fst

/-- A queue is made at an address where there is none, on a directory as it is. -/
def Possible (s : Shared) : Act → Prop
  | .create user _ files listing => s.queues.get? user = none ∧ PayloadQueue.Lists listing files
  | .use _ _ | .destroy _ _ | .set _ => True

end Shared
end UdpTun
