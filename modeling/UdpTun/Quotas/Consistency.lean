import UdpTun.Lib.Run
import UdpTun.Quotas.Enforcement

/-!
# A quota and its users

`Quota` is used by anything that has a callback, not by payload queues only.  Here it is on its own:
`Quota.step` is one call of it, and the callbacks that `check` makes are given by what they come to,
which is that the user that is called decreases its amount, any number of times.

`Quota.check` is the loop with the iterator that it has: a key of `ages`, which has to be there when
the loop goes on from it.  `Shared.checkLoop`, which goes along a list, is this loop
(`Shared.checkLoop_walk`).

`Quota.Consistent` is that the total is the sum of the amounts, and that the index goes by the ages.
The counters are unsigned, so they can be said to be right only as long as the sum fits.

* `Consistent.walk` is the loop with its iterator, and `Consistent.step` the step lemma.
* `parts_agree` is the result.
-/

set_option autoImplicit false

namespace UdpTun

/-- A call of `decrease`. -/
structure Decrease where
  before : Quota
  user : Nat
  sz : Nat

namespace Quota

/-! ## Calls

The callbacks are not known, only that each of them comes to some calls of `decrease` of the user
that is called.  Whether these are right is a condition of its own. -/

/-- `increase`, up to the call of `check`, with counters that wrap around. -/
def wrappingIncrease (t : Quota) (user sz : Nat) : Quota :=
  let d := t.data user
  { t with
    users := t.users.insert user { d with amount := (d.amount + sz) % 2 ^ 64 }
    total := (t.total + sz) % 2 ^ 64 }

/-- `decrease`, several times. -/
def decreases (t : Quota) (user : Nat) : List Nat → Quota × List Decrease
  | [] => (t, [])
  | sz :: l =>
    let r := (t.decrease user sz).decreases user l
    (r.1, ⟨t, user, sz⟩ :: r.2)

/-- The inner loop of `check`: it breaks off after the first user. -/
def callFirst (t : Quota) (ups : OrdMap Nat Unit) (sizes : List Nat) : Quota × List Decrease :=
  match ups.first? with
  | none => (t, [])
  | some (up, _) => t.decreases up sizes

/-- The loop of `check`.  The iterator is at a key, or at the end; `calls` is what the callbacks
come to, one after another. -/
def walk : Nat → (Nat → List Nat) → Option Nat → Quota → Except Halt (Quota × List Decrease)
  | 0, _, _, _ => .error .unfinished
  | fuel + 1, calls, iter, t =>
    if t.total ≤ t.max then .ok (t, [])
    else
      match iter with
      | none => .ok (t, [])
      | some time =>
        match t.ages.get? time with
        | none => .error .undefined
        | some ups =>
          let r := t.callFirst ups (calls 0)
          -- the iterator moves on within `ages` as it is now
          match r.1.ages.get? time with
          | none => .error .undefined
          | some _ =>
            (walk fuel (fun k ↦ calls (k + 1)) ((r.1.ages.next? time).map (·.1)) r.1).map
              fun r' ↦ (r'.1, r.2 ++ r'.2)

/-- `check`.  There is at most one turn for each age. -/
def check (t : Quota) (calls : Nat → List Nat) : Except Halt (Quota × List Decrease) :=
  t.walk (t.ages.size + 1) calls (t.ages.first?.map (·.1))

/-- A call, with what the callbacks of its `check` come to. -/
inductive Act
  | set (sz : Nat) (calls : Nat → List Nat)
  | increase (user sz : Nat) (calls : Nat → List Nat)
  | decrease (user sz : Nat)
  | forget (user : Nat)
  | oldest (user time : Nat)

/-- One call, and the calls of `decrease` it consists of. -/
def step (t : Quota) : Act → Except Halt (Quota × List Decrease)
  | .set sz calls => { t with max := sz }.check calls
  | .increase user sz calls => (t.wrappingIncrease user sz).check calls
  | .decrease user sz => .ok (t.decrease user sz, [⟨t, user, sz⟩])
  | .forget user => .ok (t.forget user, [])
  | .oldest user time => .ok (t.oldest user time, [])

/-- One call. -/
def advance (t : Quota) (a : Act) : Except Halt Quota := (t.step a).map Prod.fst

/-! ## What is to be consistent

Three structures hold the same information twice: the amounts and the total, the ages of the users
and the index.  `Fits` and `Decrease.Exact` are what callers have to see to. -/

/-- The sum of the users' amounts. -/
def amounts (t : Quota) : Nat := t.users.total fun _ d ↦ d.amount

/-- The users in the index at an age. -/
def sequence (t : Quota) (time : Nat) : OrdMap Nat Unit := (t.ages.get? time).getD .empty

/-- A user is in the index at its age, and nowhere else; without an age it is not in it. -/
def Dated (t : Quota) : Prop :=
  ∀ time user, (t.sequence time).get? user = some () ↔ (t.data user).age = time ∧ time ≠ 0

/-- No age is without users. -/
def Inhabited (t : Quota) : Prop := ∀ time ups, t.ages.get? time = some ups → ups.entries ≠ []

/-- The three parts agree. -/
structure Consistent (t : Quota) : Prop where
  total : t.total = t.amounts
  dated : t.Dated
  inhabited : t.Inhabited

/-- The amounts go on fitting into the counters. -/
def Fits (t : Quota) : Act → Prop
  | .increase _ sz _ => t.amounts + sz < 2 ^ 64
  | _ => True

end Quota

/-- What is taken off the amount is there, and it is taken off the total as well. -/
def Decrease.Exact (d : Decrease) : Prop :=
  let am := min d.sz (d.before.data d.user).amount
  ((d.before.decrease d.user d.sz).data d.user).amount + am = (d.before.data d.user).amount ∧
    (d.before.decrease d.user d.sz).total + am = d.before.total

namespace Quota

variable {t t' : Quota} {user : Nat}

/-! ## The sum

A sum over a map in which one user is singled out: what it is charged, and the rest. -/

theorem data_insert (t : Quota) (user u : Nat) (d : QuotaData) (total : Nat) :
    data { t with users := t.users.insert user d, total } u = if u = user then d else t.data u := by
  rw [data, data, OrdMap.get?_insert]
  split <;> rfl

/-- What a user is charged is a part of the sum. -/
theorem amounts_eq (t : Quota) (user : Nat) :
    t.amounts = (t.users.erase user).total (fun _ d ↦ d.amount) + (t.data user).amount := by
  rw [amounts, data]
  cases hget : t.users.get? user with
  | none => rw [OrdMap.erase_of_get?_eq_none hget, Option.getD_none, Nat.add_zero]
  | some d => exact OrdMap.total_erase hget

theorem amounts_insert (t : Quota) (user : Nat) (d : QuotaData) :
    (t.users.insert user d).total (fun _ d ↦ d.amount) + (t.data user).amount =
      t.amounts + d.amount := by
  rw [OrdMap.total_insert, t.amounts_eq user]
  omega

theorem data_le_amounts (t : Quota) (user : Nat) : (t.data user).amount ≤ t.amounts := by
  rw [t.amounts_eq user]
  exact Nat.le_add_left ..

/-! ## The index

It is a map from ages to sets of users.  An age whose set becomes empty must go, since the walk
calls the first user of each. -/

/-- Taking a user out of the index, when there is an age to take it from. -/
theorem sequence_erase (t : Quota) (user : Nat) {time : Nat} (htime : time ≠ 0) (time' : Nat) :
    (t.eraseFromSequence user time).sequence time' =
      if time' = time then (t.sequence time).erase user else t.sequence time' := by
  have hempty : (OrdMap.empty : OrdMap Nat Unit).erase user = .empty :=
    OrdMap.erase_of_get?_eq_none rfl
  rw [eraseFromSequence, if_neg htime]
  cases hups : t.ages.get? time with
  | none =>
    dsimp only
    split
    · rename_i heq
      rw [heq, sequence, hups, Option.getD_none, hempty]
    · rfl
  | some ups =>
    have hsequence : t.sequence time = ups := by rw [sequence, hups, Option.getD_some]
    rw [hsequence]
    dsimp only
    split
    · rename_i hnone
      split
      · rename_i heq
        rw [heq, hsequence, OrdMap.erase_of_get?_eq_none (Option.isNone_iff_eq_none.mp hnone)]
      · rfl
    · split
      · rename_i hnil
        rw [sequence, sequence, OrdMap.get?_erase]
        split
        · exact (OrdMap.eq_empty (List.isEmpty_iff.mp hnil)).symm
        · rfl
      · rw [sequence, sequence, OrdMap.get?_insert]
        split <;> rfl

theorem sequence_insert (t : Quota) (user time time' : Nat) :
    (t.insertIntoSequence user time).sequence time' =
      if time' = time then (t.sequence time).insert user () else t.sequence time' := by
  rw [insertIntoSequence, sequence, sequence, OrdMap.get?_modify]
  split <;> rfl

theorem Inhabited.erase (h : t.Inhabited) (user time : Nat) :
    (t.eraseFromSequence user time).Inhabited := by
  rw [eraseFromSequence]
  split
  · exact h
  split
  · exact h
  split
  · exact h
  split
  · intro time' ups hups
    rw [OrdMap.get?_erase] at hups
    split at hups
    · cases hups
    · exact h time' ups hups
  · rename_i hne
    intro time' ups hups
    rw [OrdMap.get?_insert] at hups
    split at hups
    · cases hups
      rwa [List.isEmpty_iff] at hne
    · exact h time' ups hups

theorem Inhabited.insert (h : t.Inhabited) (user time : Nat) :
    (t.insertIntoSequence user time).Inhabited := by
  intro time' ups hups hnil
  rw [insertIntoSequence, OrdMap.get?_modify] at hups
  split at hups
  · cases hups
    have hmem : (user, ()) ∈ (((t.ages.get? time).getD .empty).insert user ()).entries :=
      OrdMap.mem_entries.mpr (OrdMap.get?_insert_self ..)
    rw [hnil] at hmem
    cases hmem
  · exact h time' ups hups hnil

/-! ## What keeps the parts in agreement

One operation after another, and then the loop of `check`.  It goes on from an iterator across
callbacks, which is sound because they do not touch `ages`. -/

theorem Dated.congr (h : t.Dated) (hages : t'.ages = t.ages)
    (hdata : ∀ u, (t'.data u).age = (t.data u).age) : t'.Dated := by
  intro time u
  rw [hdata, sequence, hages]
  exact h time u

theorem Inhabited.congr (h : t.Inhabited) (hages : t'.ages = t.ages) : t'.Inhabited := by
  rwa [Inhabited, hages]

/-- Only an amount is changed, and the total with it. -/
theorem Consistent.recharge (h : t.Consistent) (user : Nat) {amount total : Nat}
    (htotal : total + (t.data user).amount = t.total + amount) : Consistent
      { t with users := t.users.insert user { t.data user with amount }, total } := by
  refine ⟨?_, h.dated.congr rfl fun u ↦ ?_, h.inhabited⟩
  · have hsum := t.amounts_insert user { t.data user with amount }
    rw [← h.total] at hsum
    exact Nat.add_right_cancel (htotal.trans hsum.symm)
  · rw [data_insert]
    split
    · rename_i heq
      rw [heq]
    · rfl

/-- Nothing wraps around as long as the sum fits. -/
theorem Consistent.wrappingIncrease_eq (h : t.Consistent) (user : Nat) {sz : Nat}
    (hsz : t.amounts + sz < 2 ^ 64) : t.wrappingIncrease user sz = t.increase user sz := by
  have hle := t.data_le_amounts user
  have hfits : (t.data user).amount + sz < 2 ^ 64 := by omega
  rw [Quota.wrappingIncrease, Quota.increase, h.total, Nat.mod_eq_of_lt hsz,
    Nat.mod_eq_of_lt hfits]

theorem Consistent.increase (h : t.Consistent) (user sz : Nat) : (t.increase user sz).Consistent :=
  h.recharge user (by omega)

theorem Consistent.decrease (h : t.Consistent) (user sz : Nat) :
    (t.decrease user sz).Consistent ∧ Decrease.Exact ⟨t, user, sz⟩ := by
  have hle := t.data_le_amounts user
  rw [← h.total] at hle
  refine ⟨h.recharge user ?_, ?_, ?_⟩
  · split <;> split <;> omega
  · rw [Quota.decrease, data_insert, if_pos rfl]
    dsimp only
    split <;> omega
  · rw [Quota.decrease]
    dsimp only
    split <;> split <;> omega

theorem Consistent.decreases (h : t.Consistent) (user : Nat) (l : List Nat) :
    (t.decreases user l).1.Consistent ∧ ∀ d ∈ (t.decreases user l).2, d.Exact := by
  induction l generalizing t with
  | nil => exact ⟨h, nofun⟩
  | cons sz l ih =>
    obtain ⟨hdecrease, hexact⟩ := h.decrease user sz
    obtain ⟨hconsistent, hlog⟩ := ih hdecrease
    exact ⟨hconsistent, List.forall_mem_cons.mpr ⟨hexact, hlog⟩⟩

theorem Consistent.callFirst (h : t.Consistent) (ups : OrdMap Nat Unit) (sizes : List Nat) :
    (t.callFirst ups sizes).1.Consistent ∧ ∀ d ∈ (t.callFirst ups sizes).2, d.Exact := by
  rw [Quota.callFirst]
  cases ups.first? with
  | none => exact ⟨h, nofun⟩
  | some p => exact h.decreases p.1 sizes

/-- No callback changes what the iterator is about. -/
theorem decreases_ages (t : Quota) (user : Nat) (l : List Nat) :
    (t.decreases user l).1.ages = t.ages := by
  induction l generalizing t with
  | nil => rfl
  | cons sz l ih => exact ih (t.decrease user sz)

theorem callFirst_ages (t : Quota) (ups : OrdMap Nat Unit) (sizes : List Nat) :
    (t.callFirst ups sizes).1.ages = t.ages := by
  rw [callFirst]
  cases ups.first? with
  | none => rfl
  | some p => exact t.decreases_ages p.1 sizes

theorem get?_of_ahead {before ahead : List (Nat × OrdMap Nat Unit)} {time : Nat}
    {ups : OrdMap Nat Unit} (hages : t.ages.entries = before ++ (time, ups) :: ahead) :
    t.ages.get? time = some ups := by
  rw [← OrdMap.mem_entries, hages]
  simp

/-- **A turn of the loop**, which leaves the iterator at the next key. -/
theorem walk_cons {before ahead : List (Nat × OrdMap Nat Unit)} {time : Nat}
    {ups : OrdMap Nat Unit} (hages : t.ages.entries = before ++ (time, ups) :: ahead)
    (hmax : ¬ t.total ≤ t.max) (fuel : Nat) (calls : Nat → List Nat) :
    t.walk (fuel + 1) calls (some time) =
      ((t.callFirst ups (calls 0)).1.walk fuel (fun k ↦ calls (k + 1))
        (ahead.head?.map (·.1))).map fun r ↦ (r.1, (t.callFirst ups (calls 0)).2 ++ r.2) := by
  have hget := get?_of_ahead hages
  have hsame := t.callFirst_ages ups (calls 0)
  have hnext : (t.callFirst ups (calls 0)).1.ages.next? time = ahead.head? := by
    rw [hsame]
    exact OrdMap.next?_eq hages
  conv_lhs => unfold walk
  rw [if_neg hmax]
  dsimp only
  rw [hget]
  dsimp only
  rw [hnext, hsame, hget]

/-- **The loop of `check` ends**, with its iterator valid all the time.  The induction is on the
part of `ages` that is still ahead of it. -/
theorem Consistent.walk (h : t.Consistent) {before ahead : List (Nat × OrdMap Nat Unit)}
    (hages : t.ages.entries = before ++ ahead) {fuel : Nat} (hfuel : ahead.length < fuel)
    (calls : Nat → List Nat) : ∃ t' log,
      t.walk fuel calls (ahead.head?.map (·.1)) = .ok (t', log) ∧ t'.Consistent ∧
        ∀ d ∈ log, d.Exact := by
  induction ahead generalizing t before fuel calls with
  | nil =>
    obtain ⟨fuel, rfl⟩ : ∃ n, fuel = n + 1 := ⟨fuel - 1, (Nat.succ_pred_eq_of_pos hfuel).symm⟩
    refine ⟨t, [], ?_, h, nofun⟩
    unfold Quota.walk
    split <;> rfl
  | cons p ahead ih =>
    obtain ⟨time, ups⟩ := p
    obtain ⟨fuel, rfl⟩ : ∃ n, fuel = n + 1 := ⟨fuel - 1, by omega⟩
    by_cases hmax : t.total ≤ t.max
    · refine ⟨t, [], ?_, h, nofun⟩
      unfold Quota.walk
      rw [if_pos hmax]
    obtain ⟨hconsistent, hexact⟩ := h.callFirst ups (calls 0)
    have hsame : (t.callFirst ups (calls 0)).1.ages.entries =
        (before ++ [(time, ups)]) ++ ahead := by
      rw [callFirst_ages, hages, List.append_assoc]
      rfl
    obtain ⟨t', log, hwalk, ht', hlog⟩ := ih hconsistent hsame (Nat.lt_of_succ_lt_succ hfuel)
      fun k ↦ calls (k + 1)
    refine ⟨t', _, ?_, ht', List.forall_mem_append.mpr ⟨hexact, hlog⟩⟩
    rw [List.head?_cons, Option.map_some, walk_cons hages hmax, hwalk]
    rfl

theorem Consistent.check (h : t.Consistent) (calls : Nat → List Nat) : ∃ t' log,
    t.check calls = .ok (t', log) ∧ t'.Consistent ∧ ∀ d ∈ log, d.Exact :=
  h.walk (List.nil_append _).symm (Nat.lt_succ_self _) calls

/-- A user is taken out of the index, wherever it is in it. -/
theorem Dated.erase (h : t.Dated) (user time u : Nat) :
    ((t.eraseFromSequence user (t.data user).age).sequence time).get? u = some () ↔
      u ≠ user ∧ (t.data u).age = time ∧ time ≠ 0 := by
  by_cases hage : (t.data user).age = 0
  · rw [hage, eraseFromSequence_zero, h time u]
    refine ⟨fun hu ↦ ⟨?_, hu⟩, And.right⟩
    rintro rfl
    exact hu.2 (hu.1.symm.trans hage)
  · rw [sequence_erase t user hage]
    split
    · rename_i htime
      rw [OrdMap.get?_erase, htime]
      split
      · rename_i hu
        simp [hu]
      · rename_i hu
        rw [h _ u]
        simp [hu]
    · rename_i htime
      rw [h time u]
      refine ⟨fun hu ↦ ⟨?_, hu⟩, And.right⟩
      rintro rfl
      exact htime hu.1.symm

theorem Consistent.forget (h : t.Consistent) (user : Nat) : (t.forget user).Consistent := by
  rw [Quota.forget]
  cases hget : t.users.get? user with
  | none => exact h
  | some d =>
    have hdata : t.data user = d := by rw [data, hget, Option.getD_some]
    have hsum := t.amounts_eq user
    have herase := h.dated.erase user
    have hinhabited := h.inhabited.erase user d.age
    rw [hdata] at hsum herase
    dsimp only
    rw [eraseFromSequence_eq]
    refine ⟨?_, fun time u ↦ ?_, hinhabited⟩
    · dsimp only [amounts]
      rw [h.total, hsum]
      split <;> omega
    · refine (herase time u).trans ?_
      dsimp only [data]
      rw [OrdMap.get?_erase]
      split
      · rename_i hu
        simp [hu, eq_comm]
      · rename_i hu
        simp [hu]

/-- A user whose age is another one, before it is put into the index again. -/
def redated (t : Quota) (user time : Nat) : Quota :=
  let t' := t.eraseFromSequence user (t.data user).age
  { t' with users := t'.users.insert user { t.data user with age := time } }

theorem redated_amounts (t : Quota) (user time : Nat) :
    (t.redated user time).amounts = t.amounts := by
  have hsum := t.amounts_insert user { t.data user with age := time }
  rw [amounts, redated]
  dsimp only
  rw [eraseFromSequence_users]
  exact Nat.add_right_cancel hsum

theorem redated_data (t : Quota) (user time u : Nat) :
    ((t.redated user time).data u).age = if u = user then time else (t.data u).age := by
  have hother : (t.eraseFromSequence user (t.data user).age).data u = t.data u := by
    rw [data, eraseFromSequence_users]
    rfl
  rw [redated, data_insert, hother]
  split <;> rfl

theorem Consistent.redated (h : t.Consistent) (user time : Nat) : Consistent
    (if time ≠ 0 then (t.redated user time).insertIntoSequence user time
      else t.redated user time) := by
  have herase := h.dated.erase user
  have hinhabited : (t.redated user time).Inhabited := h.inhabited.erase user _
  have htotal : (t.redated user time).total = (t.redated user time).amounts := by
    rw [redated_amounts, ← h.total, Quota.redated, eraseFromSequence_eq]
  split
  · rename_i htime
    refine ⟨htotal, fun time' u ↦ ?_, hinhabited.insert user time⟩
    have hdata : ((t.redated user time).insertIntoSequence user time).data u =
        (t.redated user time).data u := rfl
    have hsequence : (t.redated user time).sequence =
        (t.eraseFromSequence user (t.data user).age).sequence := rfl
    rw [sequence_insert, hdata, redated_data, hsequence]
    split
    · rename_i heq
      rw [OrdMap.get?_insert, heq]
      split
      · simp [htime]
      · rename_i hu
        rw [herase]
        simp [hu]
    · rename_i heq
      rw [herase]
      split
      · rename_i hu
        simp [hu, Ne.symm heq]
      · rename_i hu
        simp [hu]
  · rename_i htime
    refine ⟨htotal, fun time' u ↦ ?_, hinhabited⟩
    rw [redated_data]
    refine (herase time' u).trans ?_
    split
    · rename_i hu
      simp_all
    · rename_i hu
      simp [hu]

theorem Consistent.oldest (h : t.Consistent) (user time : Nat) :
    (t.oldest user time).Consistent := by
  have hemplaced : Consistent { t with users := t.users.insert user (t.data user) } :=
    h.recharge user rfl
  have hdata : data { t with users := t.users.insert user (t.data user) } user = t.data user := by
    rw [data_insert, if_pos rfl]
  rw [Quota.oldest]
  dsimp only
  split
  · exact hemplaced
  · have hredated := hemplaced.redated user time
    rw [Quota.redated, hdata] at hredated
    exact hredated

theorem Consistent.step (h : t.Consistent) {a : Act} (ha : t.Fits a) : ∃ t' log,
    t.step a = .ok (t', log) ∧ t'.Consistent ∧ ∀ d ∈ log, d.Exact := by
  cases a with
  | set sz calls =>
    have hset : Consistent { t with max := sz } := ⟨h.total, h.dated, h.inhabited⟩
    exact hset.check calls
  | increase user sz calls =>
    rw [Quota.step, h.wrappingIncrease_eq user ha]
    exact (h.increase user sz).check calls
  | decrease user sz =>
    obtain ⟨hdecrease, hexact⟩ := h.decrease user sz
    exact ⟨_, _, rfl, hdecrease, List.forall_mem_singleton.mpr hexact⟩
  | forget user => exact ⟨_, _, rfl, h.forget user, nofun⟩
  | oldest user time => exact ⟨_, _, rfl, h.oldest user time, nofun⟩

theorem consistent_init : init.Consistent := by
  refine ⟨rfl, fun time user ↦ ⟨nofun, fun h ↦ ?_⟩, nofun⟩
  exact absurd h.1.symm h.2

theorem consistent_of_reach (h : Run.Reach advance Fits init t) : t.Consistent := by
  refine h.invariant consistent_init fun t a t' ht ha hstep ↦ ?_
  obtain ⟨t₁, log, hstep₁, ht₁, -⟩ := ht.step ha
  rw [advance, hstep₁] at hstep
  cases hstep
  exact ht₁

/-- **The parts of a quota agree whatever has been called**, and whatever is called next returns,
and takes off no more than there is. -/
theorem parts_agree (h : Run.Reach advance Fits init t) :
    t.Consistent ∧ ∀ a, t.Fits a → ∃ t' log, t.step a = .ok (t', log) ∧ ∀ d ∈ log, d.Exact := by
  have hconsistent := consistent_of_reach h
  refine ⟨hconsistent, fun a ha ↦ ?_⟩
  obtain ⟨t', log, hstep, -, hlog⟩ := hconsistent.step ha
  exact ⟨t', log, hstep, hlog⟩

/-- Two users with ages, and a quota that both have to be called back for. -/
def twoUsers : List Act :=
  [.increase 1 50 fun _ ↦ [], .increase 2 60 fun _ ↦ [], .oldest 1 7, .oldest 2 5,
    .set 200 fun _ ↦ [], .increase 1 100 fun k ↦ if k = 0 then [60, 5] else [40]]

instance (t : Quota) : DecidablePred t.Fits
  | .increase _ sz _ => inferInstanceAs (Decidable (t.amounts + sz < 2 ^ 64))
  | .set .. | .decrease .. | .forget .. | .oldest .. => .isTrue trivial

theorem parts_agree_two : ∃ t : Quota, t.total = 150 ∧ (t.data 2).age = 5 ∧
    (t.Consistent ∧ ∀ a, t.Fits a → ∃ t' log, t.step a = .ok (t', log) ∧ ∀ d ∈ log, d.Exact) := by
  have hrun : Run.Checks advance Fits init twoUsers fun t ↦ t.total = 150 ∧ (t.data 2).age = 5 := by
    decide +kernel
  obtain ⟨t, hreach, htotal, hage⟩ := hrun.reach
  exact ⟨t, htotal, hage, parts_agree hreach⟩

end Quota

/-! ## Queues

The manager of the queues has this loop, with a queue discarding a file for a callback. -/

namespace Shared

variable {s s' : Shared} {log : List Removal}

/-- What a queue that is called back does to its account. -/
theorem discard_quota {user : Nat} (h : s.discard user = .ok s') :
    ∃ sizes, s'.quota = (s.quota.decreases user sizes).1 := by
  rw [discard] at h
  split at h
  · cases h
  · obtain ⟨⟨q, l⟩, hq, rfl⟩ := map_ok h
    rw [PayloadQueue.discardFile] at hq
    split at hq
    · cases hq
      exact ⟨[], rfl⟩
    · split at hq
      · cases hq
      · cases hq
        exact ⟨[_], rfl⟩

/-- **The loop along a list is the loop with an iterator.** -/
theorem checkLoop_walk {before ahead : List (Nat × OrdMap Nat Unit)}
    (h : checkLoop ahead s = .ok (s', log)) (hages : s.quota.ages.entries = before ++ ahead)
    {fuel : Nat} (hfuel : ahead.length < fuel) : ∃ calls decreased,
      s.quota.walk fuel calls (ahead.head?.map (·.1)) = .ok (s'.quota, decreased) := by
  induction ahead generalizing s before fuel log with
  | nil =>
    cases h
    obtain ⟨fuel, rfl⟩ : ∃ n, fuel = n + 1 := ⟨fuel - 1, (Nat.succ_pred_eq_of_pos hfuel).symm⟩
    refine ⟨fun _ ↦ [], [], ?_⟩
    unfold Quota.walk
    split <;> rfl
  | cons p ahead ih =>
    obtain ⟨time, ups⟩ := p
    obtain ⟨fuel, rfl⟩ : ∃ n, fuel = n + 1 := ⟨fuel - 1, by omega⟩
    rw [checkLoop] at h
    split at h
    · rename_i hmax
      cases h
      refine ⟨fun _ ↦ [], [], ?_⟩
      unfold Quota.walk
      rw [if_pos hmax]
    rename_i hmax
    -- the callback of this turn comes first
    have hturn : ∀ s₁ log₁ sizes, checkLoop ahead s₁ = .ok (s', log₁) →
        s₁.quota = (s.quota.callFirst ups sizes).1 → ∃ calls decreased,
          s.quota.walk (fuel + 1) calls (some time) = .ok (s'.quota, decreased) := by
      intro s₁ log₁ sizes hloop hs₁
      have hsame : s₁.quota.ages.entries = (before ++ [(time, ups)]) ++ ahead := by
        rw [hs₁, Quota.callFirst_ages, hages, List.append_assoc]
        rfl
      obtain ⟨calls, decreased, hwalk⟩ := ih hloop hsame (Nat.lt_of_succ_lt_succ hfuel)
      refine ⟨fun k ↦ k.casesOn sizes calls, (s.quota.callFirst ups sizes).2 ++ decreased, ?_⟩
      refine (Quota.walk_cons hages hmax fuel _).trans ?_
      show ((s.quota.callFirst ups sizes).1.walk fuel calls _).map _ = _
      rw [← hs₁, hwalk]
      rfl
    cases hfirst : ups.first? with
    | none =>
      rw [hfirst] at h
      refine hturn s log [] h ?_
      rw [Quota.callFirst, hfirst]
    | some q =>
      rw [hfirst] at h
      dsimp only at h
      split at h
      · cases h
      · rename_i s₁ hs₁
        obtain ⟨⟨s₂, log₂⟩, hloop, heq⟩ := map_ok h
        cases heq
        obtain ⟨sizes, hsizes⟩ := discard_quota hs₁
        refine hturn s₁ log₂ sizes hloop ?_
        rw [Quota.callFirst, hfirst]
        exact hsizes

/-- The walk of the queues' quota is one that callbacks can lead to. -/
theorem check_quota (h : s.check = .ok (s', log)) :
    ∃ calls decreased, s.quota.check calls = .ok (s'.quota, decreased) :=
  checkLoop_walk h (List.nil_append _).symm (Nat.lt_succ_self _)

end Shared
end UdpTun
