import UdpTun.Lib.Run
import UdpTun.Quotas
import UdpTun.Queues.Oldest

/-!
# The accounts of the queues

`Shared.Mirrors` is what a quota manager's account of a queue is meant to be: the size of its spill
files, and the key of the oldest.  The account is kept in pieces, by what the queue reports from one
operation to the next, so whether it still mirrors the files depends on all that has been done.

Since the manager is never told of a key other than zero, its index by age is empty throughout
(`Shared.Tracked`).  With this the manager is a matter of adding up calls, and
`accounts_mirror_iff` puts together what `PayloadQueue.Drifts` and `PayloadQueue.oldestKey` come to,
operation by operation, which are the two halves of the account.

* `Tracked.led` is what an act leads to, as a change of one account.
* `KeptBy` is a relation of accounts and queues together with the condition that keeps it, and
  `KeptBy.along` takes it along a run.
* `keptBy_amount` and `keptBy_age` are the two halves.
-/

set_option autoImplicit false

namespace UdpTun

open PayloadQueue (Call charge Use)

namespace Quota

variable (t : Quota) (user : Nat)

theorem eraseFromSequence_zero : t.eraseFromSequence user 0 = t := by
  rw [eraseFromSequence, if_pos rfl]

/-- Reporting that there is no oldest, when there has been none. -/
theorem oldest_zero (h : (t.data user).age = 0) :
    t.oldest user 0 = { t with users := t.users.insert user (t.data user) } := by
  rw [oldest]
  dsimp only
  rw [if_pos h]

theorem eraseFromSequence_users (time : Nat) : (t.eraseFromSequence user time).users = t.users := by
  rw [eraseFromSequence]
  split
  · rfl
  · split
    · rfl
    · split
      · rfl
      · split <;> rfl

/-- A user that is forgotten has no account, and the others have theirs. -/
theorem forget_get? (u : Nat) :
    (t.forget user).users.get? u = if u = user then none else t.users.get? u := by
  rw [forget]
  split
  · rename_i hnone
    split
    · rename_i heq
      rw [heq, hnone]
    · rfl
  · show ((t.eraseFromSequence user _).users.erase user).get? u = _
    rw [eraseFromSequence_users, OrdMap.get?_erase]

/-- A user without an age is in no place of the index. -/
theorem forget_ages (h : ∀ d, t.users.get? user = some d → d.age = 0) :
    (t.forget user).ages = t.ages := by
  rw [forget]
  split
  · rfl
  · rename_i d hd
    rw [h d hd, eraseFromSequence_zero]

end Quota

namespace Shared

variable {s s' : Shared} {user : Nat} {q : PayloadQueue} {l : List Call}

/-! ## Calls

What a call changes is one account and the total.  That no call names a time is a matter of what
queues say, and comes below. -/

/-- Apart from one user's account, all is as before. -/
structure Frame (s s' : Shared) (user : Nat) : Prop where
  queues : ∀ u, u ≠ user → s'.queues.get? u = s.queues.get? u
  users : ∀ u, u ≠ user → s'.quota.users.get? u = s.quota.users.get? u

theorem Frame.trans {s'' : Shared} (h : Frame s s' user) (h' : Frame s' s'' user) :
    Frame s s'' user :=
  ⟨fun u hu ↦ (h'.queues u hu).trans (h.queues u hu),
    fun u hu ↦ (h'.users u hu).trans (h.users u hu)⟩

/-- The call does not name a time. -/
def Timeless : Call → Prop
  | .oldest key => key = 0
  | .user | .increase _ | .decrease _ => True

/-- The index by age is empty, and no account has an age; there are accounts only for queues. -/
structure Tracked (s : Shared) : Prop where
  ages : s.quota.ages.entries = []
  age : ∀ u d, s.quota.users.get? u = some d → d.age = 0
  known : ∀ u, s.queues.get? u = none → s.quota.users.get? u = none
  kept : ∀ u q, s.queues.get? u = some q → q.Kept

theorem Tracked.data_age (h : s.Tracked) (u : Nat) : (s.quota.data u).age = 0 := by
  rw [Quota.data]
  cases hget : s.quota.users.get? u with
  | none => rfl
  | some d => exact h.age u d hget

@[simp] theorem note_queues (s : Shared) (user : Nat) (c : Call) :
    (s.note user c).queues = s.queues := by
  cases c <;> rfl

/-- **What a call does**: the user's account is charged, and that is all but for the total. -/
theorem Tracked.note_quota (h : s.Tracked) (user : Nat) {c : Call} (hc : Timeless c) :
    (s.note user c).quota.ages = s.quota.ages ∧
      ((s.note user c).quota.users = s.quota.users ∧ c = .user ∨
        (s.note user c).quota.users =
          s.quota.users.insert user ⟨charge [c] (s.quota.data user).amount, 0⟩) := by
  have hage := h.data_age user
  cases c with
  | user => exact ⟨rfl, .inl ⟨rfl, rfl⟩⟩
  | increase sz =>
    refine ⟨rfl, .inr ?_⟩
    show s.quota.users.insert user _ = _
    rw [hage]
    rfl
  | decrease sz =>
    have ham : (if (s.quota.data user).amount < sz then 0 else (s.quota.data user).amount - sz) =
        (s.quota.data user).amount - sz := by
      split <;> omega
    refine ⟨rfl, .inr ?_⟩
    show s.quota.users.insert user _ = _
    rw [hage, ham]
    rfl
  | oldest key =>
    obtain rfl : key = 0 := hc
    have hquota : (s.note user (.oldest 0)).quota =
        { s.quota with users := s.quota.users.insert user (s.quota.data user) } :=
      Quota.oldest_zero _ _ hage
    have hdata : s.quota.data user = ⟨(s.quota.data user).amount, 0⟩ := by rw [← hage]
    rw [hquota]
    exact ⟨rfl, .inr (congrArg (s.quota.users.insert user) hdata)⟩

theorem Tracked.frame_note (h : s.Tracked) {c : Call} (hc : Timeless c) :
    Frame s (s.note user c) user := by
  refine ⟨fun u _ ↦ by rw [note_queues], fun u hu ↦ ?_⟩
  obtain ⟨-, ⟨husers, -⟩ | husers⟩ := h.note_quota user hc
  · rw [husers]
  · rw [husers, OrdMap.get?_insert_of_ne _ hu]

/-- An account that there is gets charged. -/
theorem Tracked.account_note (h : s.Tracked) {c : Call} (hc : Timeless c) {n : Nat}
    (hacc : s.quota.users.get? user = some ⟨n, 0⟩) :
    (s.note user c).quota.users.get? user = some ⟨charge [c] n, 0⟩ := by
  obtain ⟨-, ⟨husers, rfl⟩ | husers⟩ := h.note_quota user hc
  · rw [husers, hacc]
    rfl
  · rw [husers, OrdMap.get?_insert_self, Quota.data, hacc, Option.getD_some]

theorem Tracked.note (h : s.Tracked) {c : Call} (hc : Timeless c)
    (hq : s.queues.get? user ≠ none) : (s.note user c).Tracked := by
  obtain ⟨hages, husers⟩ := h.note_quota user hc
  refine ⟨by rw [hages]; exact h.ages, fun u d hd ↦ ?_, fun u hu ↦ ?_, ?_⟩
  · obtain ⟨husers, -⟩ | husers := husers
    · exact h.age u d (husers ▸ hd)
    · rw [husers, OrdMap.get?_insert] at hd
      split at hd
      · rw [← Option.some.inj hd]
      · exact h.age u d hd
  · rw [note_queues] at hu
    have hne : u ≠ user := by
      rintro rfl
      exact hq hu
    rw [(h.frame_note hc).users u hne]
    exact h.known u hu
  · rw [note_queues]
    exact h.kept

/-- Several calls. -/
theorem Tracked.notes (h : s.Tracked) (hl : ∀ c ∈ l, Timeless c)
    (hq : s.queues.get? user ≠ none) :
    (s.notes user l).Tracked ∧ (s.notes user l).queues = s.queues ∧
      Frame s (s.notes user l) user ∧
      ∀ n, s.quota.users.get? user = some ⟨n, 0⟩ →
        (s.notes user l).quota.users.get? user = some ⟨charge l n, 0⟩ := by
  induction l generalizing s with
  | nil => exact ⟨h, rfl, ⟨fun _ _ ↦ rfl, fun _ _ ↦ rfl⟩, fun n hn ↦ hn⟩
  | cons c l ih =>
    have hc := hl c List.mem_cons_self
    obtain ⟨htracked, hqueues, hframe, hacc⟩ := ih (h.note hc hq)
      (fun c hc ↦ hl c (List.mem_cons_of_mem _ hc)) (by rwa [note_queues])
    refine ⟨htracked, hqueues.trans (note_queues s user c), (h.frame_note hc).trans hframe,
      fun n hn ↦ ?_⟩
    have hcharge : charge (c :: l) n = charge l (charge [c] n) :=
      PayloadQueue.charge_append [c] l n
    rw [hcharge]
    exact hacc _ (h.account_note hc hn)

/-! ## The walk finds nobody

With an empty index the loop of `check` is over before it begins, whatever the quota is. -/

theorem check_of_ages (h : s.quota.ages.entries = []) : s.check = .ok (s, []) := by
  rw [check, h]
  rfl

/-- A call is no more than is noted. -/
theorem Tracked.calls (h : s.Tracked) (hl : ∀ c ∈ l, Timeless c)
    (hq : s.queues.get? user ≠ none) : s.calls user l = .ok (s.notes user l, []) := by
  induction l generalizing s with
  | nil => rfl
  | cons c l ih =>
    have hc := hl c List.mem_cons_self
    have hnote := h.note hc hq
    have hcall : s.call user c = .ok (s.note user c, []) := by
      cases c with
      | increase sz => exact check_of_ages hnote.ages
      | user | decrease sz | oldest key => rfl
    rw [Shared.calls, hcall]
    dsimp only
    rw [ih hnote (fun c hc ↦ hl c (List.mem_cons_of_mem _ hc)) (by rwa [note_queues])]
    rfl

/-! ## What an act does

An act is a few calls on behalf of one queue.  For each kind of act it is put down who is charged,
and what for. -/

/-- A queue is put at an address, and its calls are noted. -/
def placed (s : Shared) (user : Nat) (q : PayloadQueue) (l : List Call) : Shared :=
  { s with queues := s.queues.insert user q }.notes user l

/-- How things are after an act. -/
inductive Led (s : Shared) : Act → Shared → Prop
  | create {user maxMem : Nat} {files : OrdMap FileName (List UInt8)} {listing : List FileName}
      {q : PayloadQueue} {l : List Call}
      (h : PayloadQueue.create maxMem files listing = .ok (q, l)) :
      Led s (.create user maxMem files listing) (s.placed user q l)
  | use {user : Nat} {a : Use} {q r : PayloadQueue} {l : List Call}
      (hq : s.queues.get? user = some q) (h : q.perform a = .ok (r, l)) :
      Led s (.use user a) (s.placed user r l)
  | destroy {user now sz : Nat} :
      Led s (.destroy user now) { quota := (s.quota.decrease user sz).forget user,
                                  queues := s.queues.erase user }
  | set {sz : Nat} : Led s (.set sz) { s with quota := { s.quota with max := sz } }

theorem Tracked.insert (h : s.Tracked) (hq : q.Kept) (user : Nat) :
    Tracked { s with queues := s.queues.insert user q } := by
  refine ⟨h.ages, h.age, fun u hu ↦ ?_, fun u q' hu ↦ ?_⟩
  · rw [OrdMap.get?_insert] at hu
    split at hu
    · cases hu
    · exact h.known u hu
  · rw [OrdMap.get?_insert] at hu
    split at hu
    · rwa [← Option.some.inj hu]
    · exact h.kept u q' hu

/-- What there is when a queue has been put at an address. -/
theorem Tracked.placed (h : s.Tracked) (user : Nat) (hq : q.Kept) (hl : ∀ c ∈ l, Timeless c) :
    (s.placed user q l).Tracked ∧ (s.placed user q l).queues = s.queues.insert user q ∧
      Frame s (s.placed user q l) user ∧
      ∀ n, s.quota.users.get? user = some ⟨n, 0⟩ →
        (s.placed user q l).quota.users.get? user = some ⟨charge l n, 0⟩ := by
  have hthere : (s.queues.insert user q).get? user ≠ none := by simp
  obtain ⟨htracked, hqueues, hframe, hacc⟩ := (h.insert hq user).notes hl hthere
  have hothers : Frame s { s with queues := s.queues.insert user q } user :=
    ⟨fun u hu ↦ OrdMap.get?_insert_of_ne _ hu _, fun _ _ ↦ rfl⟩
  exact ⟨htracked, hqueues, hothers.trans hframe, hacc⟩

theorem Tracked.put (h : s.Tracked) (user : Nat) (hq : q.Kept) (hl : ∀ c ∈ l, Timeless c) :
    s.put user (.ok (q, l)) = .ok (s.placed user q l, []) := by
  exact (h.insert hq user).calls hl (by simp)

/-- What a queue says while it is used: it asks for more only when a push goes to a file, and does
not name a time at all. -/
def Says (q : PayloadQueue) (a : Use) : Call → Prop
  | .increase _ => ∃ arr now, a = .push arr now ∧ q.fitsMemory (sumLengths arr) = false
  | .oldest _ => False
  | .user | .decrease _ => True

theorem says_peek (q : PayloadQueue) (a : Use) : ∀ c ∈ q.peek.2.2, Says q a c := by
  have hload : ∀ (es : List (Nat × FileName)) (r : PayloadQueue),
      ∀ c ∈ (PayloadQueue.loadHeadFile es r).2.2, Says q a c := by
    intro es
    induction es with
    | nil => simp [PayloadQueue.loadHeadFile]
    | cons p es ih =>
      intro r
      rw [PayloadQueue.loadHeadFile]
      dsimp only
      split
      · simpa [Says] using ih _
      · simp [Says]
  rw [PayloadQueue.peek]
  dsimp only
  split
  · split <;> exact hload _ _
  · simp

theorem says_push (q : PayloadQueue) (arr : List (List UInt8)) (now : Nat) :
    ∀ c ∈ (q.push arr now).2, Says q (.push arr now) c := by
  rw [PayloadQueue.push]
  split
  · rw [PayloadQueue.pushMemory]
    dsimp only
    split <;> simp [Says]
  · rename_i hfits
    split <;> simp [PayloadQueue.appendFile_calls, Says, hfits]

theorem says_perform {a : Use} {r : PayloadQueue} (h : q.perform a = .ok (r, l)) :
    ∀ c ∈ l, Says q a c := by
  have hl : ∀ {s : PayloadQueue × List Call},
      (Except.ok s : Except Halt _) = .ok (r, l) → s.2 = l :=
    fun heq ↦ congrArg Prod.snd (Except.ok.inj heq)
  cases a with
  | push arr now => exact hl h ▸ says_push q arr now
  | peek => exact hl h ▸ says_peek q .peek
  | consume | unget pl | flush n => simp [← hl h]
  | poke =>
    have hcalls : q.poke.2 = l := hl h
    rw [← hcalls, PayloadQueue.poke]
    split
    · simpa [or_imp, forall_and, Says] using says_peek q .poke
    · exact says_peek q .poke
  | discard =>
    rcases PayloadQueue.discardFile_cases h with ⟨-, -, rfl⟩ | ⟨key, fn, bytes, -, -, -, rfl⟩
    · simp
    · simp [Says]

theorem timeless_perform {a : Use} {r : PayloadQueue} (h : q.perform a = .ok (r, l)) :
    ∀ c ∈ l, Timeless c := by
  intro c hc
  have hsays := says_perform h c hc
  cases c with
  | oldest key => exact hsays.elim
  | user | increase sz | decrease sz => trivial

/-- A queue that is destroyed takes its account with it. -/
theorem frame_destroy (s : Shared) (user sz : Nat) :
    Frame s { quota := (s.quota.decrease user sz).forget user, queues := s.queues.erase user }
      user := by
  refine ⟨fun u hu ↦ OrdMap.get?_erase_of_ne _ hu, fun u hu ↦ ?_⟩
  rw [Quota.forget_get?, if_neg hu]
  exact OrdMap.get?_insert_of_ne _ hu _

theorem Tracked.destroy (h : s.Tracked) (user sz : Nat) :
    Tracked { quota := (s.quota.decrease user sz).forget user,
              queues := s.queues.erase user } := by
  have hframe := frame_destroy s user sz
  have hgone : ((s.quota.decrease user sz).forget user).users.get? user = none := by
    rw [Quota.forget_get?, if_pos rfl]
  refine ⟨?_, fun u d hd ↦ ?_, fun u hu ↦ ?_, fun u q hu ↦ ?_⟩
  · refine (congrArg OrdMap.entries (Quota.forget_ages _ _ fun d hd ↦ ?_)).trans h.ages
    rw [← Option.some.inj ((OrdMap.get?_insert_self ..).symm.trans hd)]
    exact h.data_age user
  · by_cases heq : u = user
    · rw [heq, hgone] at hd
      cases hd
    · rw [hframe.users u heq] at hd
      exact h.age u d hd
  · by_cases heq : u = user
    · rw [heq]
      exact hgone
    · rw [hframe.queues u heq] at hu
      rw [hframe.users u heq]
      exact h.known u hu
  · by_cases heq : u = user
    · rw [heq, OrdMap.get?_erase_self] at hu
      cases hu
    · rw [hframe.queues u heq] at hu
      exact h.kept u q hu

/-- Where the constructor succeeds, the walk has no part in it. -/
theorem Tracked.step_create (h : s.Tracked) {maxMem : Nat} {files : OrdMap FileName (List UInt8)}
    {listing : List FileName} (hposs : s.Possible (.create user maxMem files listing))
    (hcreate : PayloadQueue.create maxMem files listing = .ok (q, l)) :
    s.step (.create user maxMem files listing) = .ok (s.placed user q l, []) ∧
      (s.placed user q l).Tracked := by
  obtain ⟨hkept, e, rfl, -⟩ := PayloadQueue.create_drift hposs.2 hcreate
  have htimeless : ∀ c ∈ [Call.increase (q.spilled + e), .oldest 0], Timeless c := by
    simp [Timeless]
  have hput := h.put user hkept htimeless
  rw [← hcreate] at hput
  exact ⟨hput, (h.placed user hkept htimeless).1⟩

/-- Nor has it in the use of a queue. -/
theorem Tracked.step_use (h : s.Tracked) (hq : s.queues.get? user = some q) (a : Use) :
    ∃ r l, q.perform a = .ok (r, l) ∧ s.step (.use user a) = .ok (s.placed user r l, []) ∧
      (s.placed user r l).Tracked := by
  obtain ⟨r, l, hperform, hkept, -⟩ := (h.kept user q hq).drift a
  have htimeless := timeless_perform hperform
  refine ⟨r, l, hperform, ?_, (h.placed user hkept htimeless).1⟩
  rw [step, hq]
  dsimp only
  rw [hperform, h.put user hkept htimeless]

/-- **What an act leads to.** -/
theorem Tracked.led (h : s.Tracked) {a : Act} {log : List Removal} (hposs : s.Possible a)
    (hstep : s.step a = .ok (s', log)) : log = [] ∧ Led s a s' ∧ s'.Tracked := by
  have hend : ∀ {t}, s.step a = .ok (t, []) → t = s' ∧ [] = log := fun ht ↦
    Prod.mk.inj (Except.ok.inj (ht.symm.trans hstep))
  cases a with
  | create user maxMem files listing =>
    cases hcreate : PayloadQueue.create maxMem files listing with
    | error x =>
      rw [step, hcreate] at hstep
      cases hstep
    | ok r =>
      obtain ⟨hplaced, htracked⟩ := h.step_create hposs hcreate
      obtain ⟨rfl, rfl⟩ := hend hplaced
      exact ⟨rfl, .create hcreate, htracked⟩
  | use user a =>
    cases hq : s.queues.get? user with
    | none =>
      rw [step, hq] at hstep
      cases hstep
    | some q =>
      obtain ⟨r, l, hperform, hplaced, htracked⟩ := h.step_use hq a
      obtain ⟨rfl, rfl⟩ := hend hplaced
      exact ⟨rfl, .use hq hperform, htracked⟩
  | destroy user now =>
    cases hq : s.queues.get? user with
    | none =>
      rw [step, hq] at hstep
      cases hstep
    | some q =>
      rw [step, hq] at hstep
      obtain ⟨r, -, heq⟩ := map_ok hstep
      obtain ⟨rfl, rfl⟩ := Prod.mk.inj heq
      exact ⟨rfl, .destroy, h.destroy ..⟩
  | set sz =>
    obtain ⟨rfl, rfl⟩ := hend (check_of_ages h.ages)
    exact ⟨rfl, .set, ⟨h.ages, h.age, h.known, h.kept⟩⟩

theorem tracked_init : init.Tracked := ⟨rfl, fun _ _ ↦ nofun, fun _ _ ↦ rfl, fun _ _ ↦ nofun⟩

theorem Tracked.advance (h : s.Tracked) {a : Act} (hposs : s.Possible a)
    (hstep : s.advance a = .ok s') : Led s a s' ∧ s'.Tracked := by
  obtain ⟨r, hr, rfl⟩ := map_ok hstep
  exact (h.led hposs hr).2

/-! ## Accounts and files

The amount and the age are two relations of an account and a queue.  What does not depend on which
of them is meant is proved once, of any relation with what it takes to keep it up. -/

/-- Each queue has an account, and they are related. -/
def Accounts (R : PayloadQueue → QuotaData → Prop) (s : Shared) : Prop :=
  ∀ user q, s.queues.get? user = some q → ∃ d, s.quota.users.get? user = some d ∧ R q d

/-- The account of each queue is the size of its spill files and the key of the oldest. -/
def Mirrors : Shared → Prop := Accounts fun q d ↦ d.amount = q.spilled ∧ d.age = q.oldestKey

/-- The constructor can make keys of all the names. -/
def Readable (listing : List FileName) : Prop :=
  ∀ fn ∈ listing, (splitExtension fn).2 = queueSuffix → ∃ key, fileKey fn = some key

theorem readable_iff (maxMem : Nat) (files : OrdMap FileName (List UInt8))
    (listing : List FileName) :
    Readable listing ↔ ∃ q l, PayloadQueue.create maxMem files listing = .ok (q, l) := by
  constructor
  · intro hread
    obtain ⟨r, hscan⟩ := PayloadQueue.scan_ok files .empty 0 0 hread
    exact ⟨_, _, congrArg (Except.map _) hscan⟩
  · rintro ⟨q, l, hcreate⟩ fn hfn hsuffix
    obtain ⟨r, hscan, -⟩ := PayloadQueue.create_scan hcreate
    exact PayloadQueue.scan_parses hscan hfn hsuffix

/-- A queue is made of such a directory, or used in such a way. -/
def CleanBy (found : OrdMap FileName (List UInt8) → List FileName → Prop)
    (used : PayloadQueue → Use → Prop) (s : Shared) : Act → Prop
  | .create _ _ files listing => Readable listing → found files listing
  | .use user a => ∀ q, s.queues.get? user = some q → used q a
  | .destroy _ _ | .set _ => True

/-- What is done leaves the account right: all that comes into the files or goes out of them is
counted, and no file comes to be the oldest but one of key zero. -/
def Clean : Shared → Act → Prop :=
  CleanBy (fun files listing ↦ PayloadQueue.SameKeyEmpty files listing ∧
    PayloadQueue.ZeroFound listing) fun q a ↦ q.Counted a ∧ q.ZeroKept a

/-- A relation of queues and accounts, and what it takes to keep it up. -/
structure KeptBy (R : PayloadQueue → QuotaData → Prop)
    (found : OrdMap FileName (List UInt8) → List FileName → Prop)
    (used : PayloadQueue → Use → Prop) : Prop where
  create : ∀ {maxMem sz : Nat} {files : OrdMap FileName (List UInt8)} {listing : List FileName}
    {q : PayloadQueue}, PayloadQueue.Lists listing files →
    PayloadQueue.create maxMem files listing = .ok (q, [.increase sz, .oldest 0]) →
      (R q ⟨sz, 0⟩ ↔ found files listing)
  use : ∀ {q r : PayloadQueue} {l : List Call} {n : Nat} {a : Use}, q.Kept → R q ⟨n, 0⟩ →
    q.perform a = .ok (r, l) → (R r ⟨charge l n, 0⟩ ↔ used q a)

variable {R R' : PayloadQueue → QuotaData → Prop}
  {found found' : OrdMap FileName (List UInt8) → List FileName → Prop}
  {used used' : PayloadQueue → Use → Prop}

/-- Only the one account is in question. -/
theorem Frame.accounts (hf : Frame s s' user) (h : s.Accounts R) : s'.Accounts R ↔
    ∀ q, s'.queues.get? user = some q → ∃ d, s'.quota.users.get? user = some d ∧ R q d := by
  refine ⟨fun hm ↦ hm user, fun hu u q hq ↦ ?_⟩
  by_cases heq : u = user
  · subst heq
    exact hu q hq
  · rw [hf.users u heq]
    exact h u q (by rwa [← hf.queues u heq])

/-- The account of a new queue is what its constructor reports. -/
theorem Tracked.account_create (h : s.Tracked) (hnone : s.queues.get? user = none)
    (hq : q.Kept) (sz : Nat) :
    (s.placed user q [.increase sz, .oldest 0]).quota.users.get? user = some ⟨sz, 0⟩ := by
  have hput := h.insert hq user
  have hthere : (s.queues.insert user q).get? user ≠ none := by simp
  have hfirst : (Shared.note { s with queues := s.queues.insert user q } user
      (.increase sz)).quota.users.get? user = some ⟨sz, 0⟩ := by
    refine (OrdMap.get?_insert_self ..).trans ?_
    have hdata : s.quota.data user = ⟨0, 0⟩ := by rw [Quota.data, h.known user hnone]; rfl
    show some (⟨(s.quota.data user).amount + sz, (s.quota.data user).age⟩ : QuotaData) = _
    rw [hdata, Nat.zero_add]
  exact (hput.note (c := .increase sz) trivial hthere).account_note (c := .oldest 0) rfl hfirst

theorem KeptBy.placed_create (hR : KeptBy R found used) (h : s.Tracked) (hm : s.Accounts R)
    {maxMem : Nat} {files : OrdMap FileName (List UInt8)} {listing : List FileName}
    (hposs : s.Possible (.create user maxMem files listing))
    (hcreate : PayloadQueue.create maxMem files listing = .ok (q, l)) :
    (s.placed user q l).Accounts R ↔ found files listing := by
  obtain ⟨hkept, e, rfl, -⟩ := PayloadQueue.create_drift hposs.2 hcreate
  have htimeless : ∀ c ∈ [Call.increase (q.spilled + e), .oldest 0], Timeless c := by
    simp [Timeless]
  obtain ⟨-, hqueues, hframe, -⟩ := h.placed user hkept htimeless
  rw [hframe.accounts hm, hqueues, OrdMap.get?_insert_self, h.account_create hposs.1 hkept,
    ← hR.create hposs.2 hcreate]
  simp

theorem KeptBy.placed_use (hR : KeptBy R found used) (h : s.Tracked) (hm : s.Accounts R) {a : Use}
    {r : PayloadQueue} (hq : s.queues.get? user = some q) (hperform : q.perform a = .ok (r, l)) :
    (s.placed user r l).Accounts R ↔ used q a := by
  obtain ⟨⟨n, age⟩, hd, hrel⟩ := hm user q hq
  obtain rfl : age = 0 := h.age user _ hd
  obtain ⟨r', l', hperform', hkept, -⟩ := (h.kept user q hq).drift a
  obtain ⟨rfl, rfl⟩ := Prod.mk.inj (Except.ok.inj (hperform'.symm.trans hperform))
  obtain ⟨-, hqueues, hframe, hcharge⟩ := h.placed user hkept (timeless_perform hperform)
  rw [hframe.accounts hm, hqueues, OrdMap.get?_insert_self, hcharge n hd,
    ← hR.use (h.kept user q hq) hrel hperform]
  simp

/-- **What an act takes to keep the accounts related.** -/
theorem KeptBy.advance (hR : KeptBy R found used) (h : s.Tracked) (hm : s.Accounts R) {a : Act}
    (hposs : s.Possible a) :
    (∀ s', s.advance a = .ok s' → s'.Accounts R) ↔ s.CleanBy found used a := by
  cases a with
  | create user maxMem files listing =>
    constructor
    · intro hall hread
      obtain ⟨q, l, hcreate⟩ := (readable_iff maxMem files listing).mp hread
      have hplaced := (h.step_create hposs hcreate).1
      exact (hR.placed_create h hm hposs hcreate).mp (hall _ (congrArg (Except.map _) hplaced))
    · intro hclean s' hs'
      obtain ⟨hled, -⟩ := h.advance hposs hs'
      cases hled with
      | create hcreate =>
        refine (hR.placed_create h hm hposs hcreate).mpr (hclean ?_)
        exact (readable_iff ..).mpr ⟨_, _, hcreate⟩
  | use user a =>
    constructor
    · intro hall q hq
      obtain ⟨r, l, hperform, hplaced, -⟩ := h.step_use hq a
      exact (hR.placed_use h hm hq hperform).mp (hall _ (congrArg (Except.map _) hplaced))
    · intro hclean s' hs'
      obtain ⟨hled, -⟩ := h.advance hposs hs'
      cases hled with
      | use hq hperform => exact (hR.placed_use h hm hq hperform).mpr (hclean _ hq)
  | destroy user now =>
    refine iff_of_true (fun s' hs' ↦ ?_) trivial
    obtain ⟨hled, -⟩ := h.advance hposs hs'
    cases hled with
    | destroy =>
      refine ((frame_destroy s user _).accounts hm).mpr fun q hq ↦ ?_
      rw [OrdMap.get?_erase_self] at hq
      cases hq
  | set sz =>
    refine iff_of_true (fun s' hs' ↦ ?_) trivial
    obtain ⟨hled, -⟩ := h.advance hposs hs'
    cases hled with
    | set => exact hm

/-- Along a run. -/
theorem KeptBy.along (hR : KeptBy R found used) (l : List Act) :
    Run.Along Shared.advance
        (fun s a ↦ s.Possible a ∧ ∀ s', s.advance a = .ok s' → s'.Accounts R) init l ↔
      Run.Along Shared.advance (fun s a ↦ s.Possible a ∧ s.CleanBy found used a) init l := by
  refine Run.along_congr (I := fun s ↦ s.Tracked ∧ s.Accounts R)
    (fun s a hI ↦ and_congr_right fun hposs ↦ hR.advance hI.1 hI.2 hposs) ?_
    ⟨tracked_init, fun _ _ ↦ nofun⟩ l
  rintro s a t ⟨h, hm⟩ ⟨hposs, hclean⟩ ht
  exact ⟨(h.advance hposs ht).2, (hR.advance h hm hposs).mpr hclean t ht⟩

theorem KeptBy.and (h : KeptBy R found used) (h' : KeptBy R' found' used') :
    KeptBy (fun q d ↦ R q d ∧ R' q d) (fun files listing ↦ found files listing ∧
      found' files listing) fun q a ↦ used q a ∧ used' q a :=
  ⟨fun hlists hcreate ↦ and_congr (h.create hlists hcreate) (h'.create hlists hcreate),
    fun hkept hrel hperform ↦
      and_congr (h.use hkept hrel.1 hperform) (h'.use hkept hrel.2 hperform)⟩

/-! ## The two halves of an account

The amount goes wrong by what an operation drifts, and the age as soon as there is a file whose key
is not zero. -/

/-- The amount of an operation that is counted is right. -/
theorem keptBy_amount : KeptBy (fun q d ↦ d.amount = q.spilled) PayloadQueue.SameKeyEmpty
    PayloadQueue.Counted := by
  refine ⟨fun hlists hcreate ↦ ?_, fun {q r l n a} hkept hn hperform ↦ ?_⟩
  · obtain ⟨-, e, hcalls, he⟩ := PayloadQueue.create_drift hlists hcreate
    obtain rfl := Call.increase.inj (List.cons.inj hcalls).1
    exact Nat.add_eq_left.trans he
  · obtain ⟨r', l', hperform', -, e, hdrift, he⟩ := hkept.drift a
    obtain ⟨rfl, rfl⟩ := Prod.mk.inj (Except.ok.inj (hperform'.symm.trans hperform))
    obtain rfl : n = q.spilled := hn
    have hsum : charge l' q.spilled = r'.spilled + e := hdrift 0
    rw [← he, hsum]
    exact Nat.add_eq_left

theorem keptBy_age : KeptBy (fun q d ↦ d.age = q.oldestKey)
    (fun _ listing ↦ PayloadQueue.ZeroFound listing) PayloadQueue.ZeroKept :=
  ⟨fun _ hcreate ↦ eq_comm.trans (PayloadQueue.zeroFound_create hcreate),
    fun hkept hage hperform ↦ eq_comm.trans (hkept.zeroKept hage.symm hperform)⟩

/-- Whatever is done, the amount covers the files. -/
theorem keptBy_cover : KeptBy (fun q d ↦ q.spilled ≤ d.amount) (fun _ _ ↦ True)
    fun _ _ ↦ True := by
  refine ⟨fun hlists hcreate ↦ ?_, fun {q r l n a} hkept hn hperform ↦ ?_⟩
  · obtain ⟨-, e, hcalls, -⟩ := PayloadQueue.create_drift hlists hcreate
    obtain rfl := Call.increase.inj (List.cons.inj hcalls).1
    exact iff_of_true (Nat.le_add_right ..) trivial
  · obtain ⟨r', l', hperform', -, e, hdrift, -⟩ := hkept.drift a
    obtain ⟨rfl, rfl⟩ := Prod.mk.inj (Except.ok.inj (hperform'.symm.trans hperform))
    obtain ⟨d, rfl⟩ : ∃ d, n = q.spilled + d := Nat.exists_eq_add_of_le hn
    have hsum : charge l' (q.spilled + d) = r'.spilled + d + e := hdrift d
    refine iff_of_true ?_ trivial
    rw [hsum]
    show r'.spilled ≤ r'.spilled + d + e
    omega

/-- **No account falls behind the files of its queue.** -/
theorem accounts_cover (h : Run.Reach advance Possible init s) :
    s.Accounts fun q d ↦ q.spilled ≤ d.amount := by
  refine (h.invariant (I := fun s ↦ s.Tracked ∧ s.Accounts fun q d ↦ q.spilled ≤ d.amount)
    ⟨tracked_init, fun _ _ ↦ nofun⟩ ?_).2
  rintro s a s' ⟨h, hm⟩ hposs hs'
  refine ⟨(h.advance hposs hs').2, (keptBy_cover.advance h hm hposs).mpr ?_ s' hs'⟩
  cases a <;> simp [CleanBy]

/-- Of the amounts alone: they are right all along a run exactly when all of it is counted. -/
theorem amounts_mirror_iff (l : List Act) :
    Run.Along advance (fun s a ↦ s.Possible a ∧
        ∀ s', s.advance a = .ok s' → s'.Accounts fun q d ↦ d.amount = q.spilled) init l ↔
      Run.Along advance (fun s a ↦ s.Possible a ∧
        s.CleanBy PayloadQueue.SameKeyEmpty PayloadQueue.Counted a) init l :=
  keptBy_amount.along l

/-- **The accounts are right all along a run exactly when all of it is clean.** -/
theorem accounts_mirror_iff (l : List Act) :
    Run.Along advance (fun s a ↦ s.Possible a ∧ ∀ s', s.advance a = .ok s' → s'.Mirrors) init l ↔
      Run.Along advance (fun s a ↦ s.Possible a ∧ s.Clean a) init l :=
  (keptBy_amount.and keptBy_age).along l

instance (s : Shared) : DecidablePred s.Possible := fun a ↦ by
  cases a <;> unfold Possible PayloadQueue.Lists <;> infer_instance

/-- Two payloads of four bytes are pushed to a queue that has room for seven bytes in memory, the
second at time one.  It goes to a file, and the manager does not hear of its time. -/
theorem accounts_go_wrong : ¬ ∀ s, Run.Reach advance Possible init s → s.Mirrors := by
  have hrun : Run.Checks advance Possible init [.create 0 8 .empty [],
      .use 0 (.push [[1, 2, 3, 4]] 1), .use 0 (.push [[5, 6, 7, 8]] 1)]
      fun s ↦ ∃ q ∈ s.queues.get? 0, ∃ d ∈ s.quota.users.get? 0, d.age ≠ q.oldestKey := by
    decide +kernel
  intro hall
  obtain ⟨s, hreach, q, hq, d, hd, hne⟩ := hrun.reach
  obtain ⟨d', hd', -, hage⟩ := hall s hreach 0 q hq
  obtain rfl := Option.some.inj (hd.symm.trans hd')
  exact hne hage

/-- When the first payload is taken and the next looked for, the second is not in the file yet.  The
file is deleted, and its six bytes stay in the account. -/
example : ∃ s, Run.Reach advance Possible init s ∧
    ∃ q ∈ s.queues.get? 0, ∃ d ∈ s.quota.users.get? 0, q.spilled = 0 ∧ d.amount = 6 :=
  Run.Checks.reach (l := [.create 0 8 .empty [], .use 0 (.push [[1, 2, 3, 4]] 1),
    .use 0 (.push [[5, 6, 7, 8]] 1), .use 0 .consume, .use 0 .peek]) (by decide +kernel)

end Shared
end UdpTun
