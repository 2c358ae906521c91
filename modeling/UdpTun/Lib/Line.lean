import Mathlib.Data.List.Basic

/-!
# First come, first served

A line that is joined at the back by those who are not in it, and left at the front.
`Kept log line` says that `log` is the record of a line, from when it was empty, and that `line` is
what it has come to.  Each entry says who left, and who was behind then.

`Kept.between`: before anyone leaves the line a second time, all those have left who were behind the
first time, in the order that they were in.
-/

set_option autoImplicit false

namespace Line

variable {α β : Type}

/-- Someone leaves the line. -/
structure Leave (α β : Type) where
  who : α
  how : β
  /-- Those who were behind. -/
  waiting : List α
  deriving DecidableEq

/-- The record of a line. -/
inductive Kept : List (Leave α β) → List α → Prop
  | nil : Kept [] []
  | join {log : List (Leave α β)} {line : List α} {a : α} (h : Kept log line) (ha : a ∉ line) :
      Kept log (line ++ [a])
  | leave {log : List (Leave α β)} {line : List α} {a : α} (how : β) (h : Kept log (a :: line)) :
      Kept (log ++ [⟨a, how, line⟩]) line

variable {log : List (Leave α β)} {line : List α}

/-- Nobody is in the line twice. -/
theorem Kept.nodup (h : Kept log line) : line.Nodup := by
  induction h with
  | nil => exact List.nodup_nil
  | join _ ha ih => simpa [List.nodup_append] using ⟨ih, fun b hb heq ↦ ha (heq ▸ hb)⟩
  | leave _ _ ih => exact (List.nodup_cons.mp ih).2

/-- From an entry on: those who were behind and those who have joined since, in this order, are
those who have left since and those who are in the line now. -/
theorem Kept.since (h : Kept log line) {log₁ log₂ : List (Leave α β)} {n : Leave α β}
    (hlog : log = log₁ ++ n :: log₂) :
    n.who ∉ n.waiting ∧ ∃ joined, n.waiting ++ joined = log₂.map Leave.who ++ line := by
  induction h generalizing log₂ with
  | nil => simp at hlog
  | @join log line a h ha ih =>
    obtain ⟨hnot, joined, heq⟩ := ih hlog
    exact ⟨hnot, joined ++ [a], by rw [← List.append_assoc, heq, List.append_assoc]⟩
  | @leave log line a how h ih =>
    rcases List.eq_nil_or_concat log₂ with rfl | ⟨log₂, last, rfl⟩
    · -- the entry is the last one
      obtain ⟨-, hlast⟩ := List.append_inj' hlog rfl
      obtain rfl : _ = n := List.singleton_inj.mp hlast
      exact ⟨(List.nodup_cons.mp h.nodup).1, [], List.append_nil _⟩
    · rw [List.concat_eq_append, ← List.cons_append, ← List.append_assoc] at hlog
      obtain ⟨hinit, hlast⟩ := List.append_inj' hlog rfl
      obtain rfl : _ = last := List.singleton_inj.mp hlast
      obtain ⟨hnot, joined, heq⟩ := ih hinit
      exact ⟨hnot, joined, by simpa using heq⟩

/-- **Nobody is passed over.** -/
theorem Kept.between (h : Kept log line) {log₁ log₂ log₃ : List (Leave α β)} {n m : Leave α β}
    (hlog : log = log₁ ++ n :: (log₂ ++ m :: log₃)) (hsame : n.who = m.who) :
    n.waiting <+: log₂.map Leave.who := by
  obtain ⟨hnot, joined, heq⟩ := h.since hlog
  rw [List.map_append, List.append_assoc, List.map_cons, List.cons_append] at heq
  rcases List.append_eq_append_iff.mp heq with ⟨rest, hrest, -⟩ | ⟨rest, hrest, heq⟩
  · exact ⟨rest, hrest.symm⟩
  · cases rest with
    | nil => exact ⟨[], by simpa using hrest⟩
    | cons a rest =>
      -- the second entry would be of someone who was behind
      rw [List.cons_append, List.cons.injEq] at heq
      refine absurd ?_ hnot
      rw [hrest, hsame, heq.1]
      simp

end Line
