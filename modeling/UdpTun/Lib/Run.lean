import Mathlib.Tactic.Common

/-!
# Runs of a fallible step function

A machine here is a function `step : σ → α → Except ε σ`: in a state it takes an action and either
gives the next state or stops with an error.  Everything is relative to a condition
`ok : σ → α → Prop` on the steps, so that a result can be stated for all runs (`ok` always true)
or for those runs whose steps stay clear of something.

* `Reach step ok s t` says that some run of allowed steps leads from `s` to `t`.
  `Reach.invariant` is the induction every safety property goes through, and `Reach.simulate` the
  one for a machine that does what another does.
* `Along step P s l` says that `P` holds of each step of the one run that the list `l` of actions
  drives from `s`, as far as it gets.  `along_congr` and `along_congr_of` replace one condition by
  another that agrees with it under an invariant.
* `recorded` is the machine with a record of its run.
* `exec` runs a list of actions, for concrete runs, and `Checks` is a statement about where one ends
  that can be decided.
-/

set_option autoImplicit false

namespace Run

variable {σ α ε : Type} (step : σ → α → Except ε σ)

/-! ## Reachability

The rules are stated for any condition on the steps, since what is shown of a program is often true
only of runs that stay clear of something. -/

/-- `t` is reachable from `s` by steps that `ok` allows. -/
inductive Reach (ok : σ → α → Prop) (s : σ) : σ → Prop
  | refl : Reach ok s s
  | tail {t u : σ} {a : α} (h : Reach ok s t) (hok : ok t a) (hstep : step t a = .ok u) :
      Reach ok s u

/-- Every step is allowed. -/
def anyStep : σ → α → Prop := fun _ _ ↦ True

instance (s : σ) : DecidablePred (anyStep s : α → Prop) := fun _ ↦ .isTrue trivial

variable {step}

/-- **The invariant rule.**  What holds at the start and is kept by every allowed step holds of
every state reached. -/
theorem Reach.invariant {ok : σ → α → Prop} {I : σ → Prop} {s t : σ} (h : Reach step ok s t)
    (hs : I s) (hstep : ∀ t a u, I t → ok t a → step t a = .ok u → I u) : I t := by
  induction h with
  | refl => exact hs
  | tail _ hok hst ih => exact hstep _ _ _ ih hok hst

theorem Reach.trans {ok : σ → α → Prop} {s t u : σ} (h₁ : Reach step ok s t)
    (h₂ : Reach step ok t u) : Reach step ok s u := by
  induction h₂ with
  | refl => exact h₁
  | tail _ hok hst ih => exact ih.tail hok hst

theorem Reach.mono {ok ok' : σ → α → Prop} (hok : ∀ s a, ok s a → ok' s a) {s t : σ}
    (h : Reach step ok s t) : Reach step ok' s t := by
  induction h with
  | refl => exact .refl
  | tail _ ha hst ih => exact ih.tail (hok _ _ ha) hst

/-- **The simulation rule.**  When each allowed step is matched by a run of another machine, so is
each run. -/
theorem Reach.simulate {τ β : Type} {ok : σ → α → Prop} {step' : τ → β → Except ε τ}
    {ok' : τ → β → Prop} {R : σ → τ → Prop} {s t : σ} {s' : τ} (h : Reach step ok s t)
    (hs : R s s') (hstep : ∀ t t' a u, R t t' → ok t a → step t a = .ok u →
      ∃ u', Reach step' ok' t' u' ∧ R u u') : ∃ t', Reach step' ok' s' t' ∧ R t t' := by
  induction h with
  | refl => exact ⟨s', .refl, hs⟩
  | tail _ hok hst ih =>
    obtain ⟨t', ht', hR⟩ := ih
    obtain ⟨u', hu', hR'⟩ := hstep _ _ _ _ hR hok hst
    exact ⟨u', ht'.trans hu', hR'⟩

/-! ## Concrete runs

The result of a list of actions is computed, and is the same as what reachability says, if all the
steps are allowed. -/

variable (step)

/-- Run a list of actions. -/
def exec (s : σ) : List α → Except ε σ
  | [] => .ok s
  | a :: l =>
    match step s a with
    | .ok t => exec t l
    | .error e => .error e

variable {step}

/-! ## Records

What has happened in a run cannot be told from where it has led to.  A record is kept beside the
state, and changes nothing about the run. -/

section Records

variable {β : Type}

/-- The machine with a record of its run, to which `note` adds what there is to say of a step. -/
def recorded (step : σ → α → Except ε σ) (note : σ → α → List β) (s : σ × List β) (a : α) :
    Except ε (σ × List β) :=
  (step s.1 a).map fun t ↦ (t, s.2 ++ note s.1 a)

variable {ok : σ → α → Prop} {note : σ → α → List β}

theorem recorded_ok {s t : σ × List β} {a : α} (h : recorded step note s a = .ok t) :
    step s.1 a = .ok t.1 ∧ t.2 = s.2 ++ note s.1 a := by
  rw [recorded] at h
  cases hstep : step s.1 a with
  | error x =>
    rw [hstep] at h
    cases h
  | ok u =>
    rw [hstep] at h
    cases h
    exact ⟨rfl, rfl⟩

/-- The record makes no difference. -/
theorem Reach.recorded {s t : σ} (h : Reach step ok s t) (note : σ → α → List β) (log : List β) :
    ∃ log', Reach (recorded step note) (fun s a ↦ ok s.1 a) (s, log) (t, log') := by
  induction h with
  | refl => exact ⟨log, .refl⟩
  | @tail t u a _ hok hst ih =>
    obtain ⟨log', hlog'⟩ := ih
    refine ⟨log' ++ note t a, hlog'.tail hok ?_⟩
    rw [Run.recorded, hst]
    rfl

/-- An entry of two records is in the first of them, or in the second. -/
theorem eq_append_cons {α : Type} {as bs l l' : List α} {x : α} (h : as ++ bs = l ++ x :: l') :
    (∃ m, as = l ++ x :: m ∧ l' = m ++ bs) ∨ ∃ m, l = as ++ m ∧ bs = m ++ x :: l' := by
  obtain ⟨m, hl, hbs⟩ | ⟨m, has, hl'⟩ := List.append_eq_append_iff.mp h
  · exact .inr ⟨m, hl, hbs⟩
  · cases m with
    | nil => exact .inr ⟨[], by simpa using has.symm, by simpa using hl'.symm⟩
    | cons y m =>
      obtain ⟨rfl, rfl⟩ := List.cons.inj hl'
      exact .inl ⟨m, has, rfl⟩

/-- What comes before the end, or at the end. -/
theorem eq_append_cons_last {α : Type} {as l l' : List α} {x y : α}
    (h : as ++ [y] = l ++ x :: l') :
    (∃ m, as = l ++ x :: m ∧ l' = m ++ [y]) ∨ as = l ∧ x = y ∧ l' = [] := by
  obtain hbefore | ⟨m, rfl, hm⟩ := eq_append_cons h
  · exact .inl hbefore
  · obtain ⟨rfl, heq⟩ | ⟨-, heq⟩ := List.singleton_eq_append_iff.mp hm
    · obtain ⟨rfl, rfl⟩ := List.cons.inj heq
      exact .inr ⟨(List.append_nil as).symm, rfl, rfl⟩
    · cases heq

/-- What is not in the second part is in the first. -/
theorem eq_append_cons_of_notMem {α : Type} {as bs l l' : List α} {x : α}
    (h : as ++ bs = l ++ x :: l') (hx : x ∉ bs) : ∃ m, as = l ++ x :: m ∧ l' = m ++ bs := by
  obtain hbefore | ⟨m, -, rfl⟩ := eq_append_cons h
  · exact hbefore
  · exact absurd (List.mem_append_right m (List.mem_cons_self ..)) hx

end Records

/-! ## Conditions along a run

Here a run is given by its actions, as it has to be if the condition is to be about the run as a
whole. -/

variable (step)

/-- `P` holds of every step that the actions take from `s`, up to the first that stops. -/
def Along (P : σ → α → Prop) (s : σ) : List α → Prop
  | [] => True
  | a :: l => P s a ∧ ∀ t, step s a = .ok t → Along P t l

variable {step}

/-- One step that is known. -/
theorem along_cons {P : σ → α → Prop} {s t : σ} {a : α} {l : List α} (hstep : step s a = .ok t)
    (hP : P s a) (hl : Along step P t l) : Along step P s (a :: l) := by
  refine ⟨hP, fun u hu ↦ ?_⟩
  obtain rfl : t = u := Except.ok.inj (hstep.symm.trans hu)
  exact hl

/-- A run of allowed steps reaches where it ends. -/
theorem reach_of_exec {ok : σ → α → Prop} {l : List α} {s t : σ} (h : exec step s l = .ok t)
    (hok : Along step ok s l) : Reach step ok s t := by
  induction l generalizing s with
  | nil => cases h; exact .refl
  | cons a l ih =>
    rw [exec] at h
    split at h
    · rename_i u hu
      exact (Reach.refl.tail hok.1 hu).trans (ih h (hok.2 u hu))
    · cases h

/-! ## Checking a run

A condition that can be decided at each step can be decided along a run, and so can what holds where
the run ends. -/

/-- What holds of the result of a step, if there is one. -/
instance decidableOk {Q : σ → Prop} [DecidablePred Q] (r : Except ε σ) :
    Decidable (∀ t, r = .ok t → Q t) :=
  match r with
  | .error _ => .isTrue nofun
  | .ok t => decidable_of_iff (Q t) ⟨fun h _ ht ↦ Except.ok.inj ht ▸ h, fun h ↦ h t rfl⟩

instance decidableAlong {P : σ → α → Prop} [∀ s, DecidablePred (P s)] :
    ∀ (l : List α) (s : σ), Decidable (Along step P s l)
  | [], _ => .isTrue trivial
  | a :: l, s =>
    have : DecidablePred fun t ↦ Along step P t l := decidableAlong l
    inferInstanceAs (Decidable (P s a ∧ ∀ t, step s a = .ok t → Along step P t l))

/-- `Q` holds where a run of allowed steps ends. -/
def Checks (step : σ → α → Except ε σ) (ok : σ → α → Prop) (s : σ) (l : List α) (Q : σ → Prop) :
    Prop :=
  Along step ok s l ∧ match exec step s l with
    | .error _ => False
    | .ok t => Q t

instance decidableChecks {ok : σ → α → Prop} [∀ s, DecidablePred (ok s)] {Q : σ → Prop}
    [DecidablePred Q] (s : σ) (l : List α) : Decidable (Checks step ok s l Q) :=
  have : Decidable (match exec step s l with | .error _ => False | .ok t => Q t) :=
    match exec step s l with
    | .error _ => .isFalse id
    | .ok t => inferInstanceAs (Decidable (Q t))
  inferInstanceAs (Decidable (_ ∧ _))

theorem Checks.reach {ok : σ → α → Prop} {s : σ} {l : List α} {Q : σ → Prop}
    (h : Checks step ok s l Q) : ∃ t, Reach step ok s t ∧ Q t := by
  obtain ⟨hok, hend⟩ := h
  cases he : exec step s l with
  | error x =>
    rw [he] at hend
    cases hend
  | ok t =>
    rw [he] at hend
    exact ⟨t, reach_of_exec he hok, hend⟩

/-- **Two conditions that agree under an invariant agree along whole runs**, here along those runs
whose steps meet a third one.  The invariant only has to be kept by the steps that meet the second
condition. -/
theorem along_congr_of {P Q B : σ → α → Prop} {I : σ → Prop}
    (hPQ : ∀ s a, I s → B s a → (P s a ↔ Q s a))
    (hI : ∀ s a t, I s → B s a → Q s a → step s a = .ok t → I t) {s : σ} (hs : I s) {l : List α}
    (hB : Along step B s l) : Along step P s l ↔ Along step Q s l := by
  induction l generalizing s with
  | nil => exact Iff.rfl
  | cons a l ih =>
    rw [Along, Along, hPQ s a hs hB.1]
    exact and_congr_right fun hq ↦ forall₂_congr fun t ht ↦ ih (hI s a t hs hB.1 hq ht) (hB.2 t ht)

theorem along_anyStep (s : σ) (l : List α) : Along step anyStep s l := by
  induction l generalizing s with
  | nil => trivial
  | cons a l ih => exact ⟨trivial, fun t _ ↦ ih t⟩

/-- The same along all runs. -/
theorem along_congr {P Q : σ → α → Prop} {I : σ → Prop} (hPQ : ∀ s a, I s → (P s a ↔ Q s a))
    (hI : ∀ s a t, I s → Q s a → step s a = .ok t → I t) {s : σ} (hs : I s) (l : List α) :
    Along step P s l ↔ Along step Q s l :=
  along_congr_of (fun s a h _ ↦ hPQ s a h) (fun s a t h _ ↦ hI s a t h) hs (along_anyStep s l)

end Run
