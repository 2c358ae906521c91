import Mathlib.Data.List.Basic
import Mathlib.Data.List.Perm.Basic
import Mathlib.Tactic.Common

/-!
# First in, first out, with losses

What a queue has taken in is at each moment either handed out, still to come, or lost.
`Accounted ins outs pending lost` says that it is exactly so (nothing comes twice, nothing is made
up, nothing goes missing but what is `lost`) and that what is handed out and what is still to come
are in the order in which they came in.

Each of the three things that can happen to a queue keeps the account: `Accounted.push`,
`Accounted.deliver` and `Accounted.lose`.
-/

set_option autoImplicit false

open scoped List

namespace Ledger

variable {α : Type}

/-- The account of a queue. -/
structure Accounted (ins outs pending lost : List α) : Prop where
  order : (outs ++ pending).Sublist ins
  all : ins.Perm (outs ++ pending ++ lost)

theorem Accounted.nil : Accounted ([] : List α) [] [] [] := ⟨List.Sublist.slnil, List.Perm.nil⟩

variable {ins outs pending lost : List α}

/-- Something comes in at the end. -/
theorem Accounted.push (h : Accounted ins outs pending lost) (a : α) :
    Accounted (ins ++ [a]) outs (pending ++ [a]) lost := by
  constructor
  · rw [← List.append_assoc]
    exact h.order.append (List.Sublist.refl _)
  · refine (h.all.append_right [a]).trans ?_
    simp only [List.append_assoc]
    have hswap : (lost ++ [a]).Perm ([a] ++ lost) := List.perm_append_comm
    exact (hswap.append_left _).append_left _

/-- The first that is to come is handed out. -/
theorem Accounted.deliver {a : α} (h : Accounted ins outs (a :: pending) lost) :
    Accounted ins (outs ++ [a]) pending lost := by
  constructor
  · simpa using h.order
  · simpa using h.all

/-- A block of what is to come is lost. -/
theorem Accounted.lose {p₁ b p₂ : List α} (h : Accounted ins outs (p₁ ++ b ++ p₂) lost) :
    Accounted ins outs (p₁ ++ p₂) (lost ++ b) := by
  constructor
  · refine List.Sublist.trans ?_ h.order
    refine (List.Sublist.refl outs).append ?_
    rw [List.append_assoc]
    exact (List.Sublist.refl p₁).append (List.sublist_append_right b p₂)
  · refine h.all.trans ?_
    simp only [List.append_assoc]
    refine (List.Perm.append_left _ ?_).append_left _
    calc b ++ (p₂ ++ lost)
      _ = (b ++ p₂) ++ lost := (List.append_assoc ..).symm
      _ ~ (p₂ ++ b) ++ lost := List.perm_append_comm.append_right _
      _ ~ p₂ ++ (b ++ lost) := by rw [List.append_assoc]
      _ ~ p₂ ++ (lost ++ b) := List.perm_append_comm.append_left _

end Ledger
