import Mathlib.Logic.Relation
import Mathlib.Order.Basic
import Mathlib.Order.MinMax
import Mathlib.Tactic.Common

/-!
# Tries under a limit

A job waits, is tried, and after each try waits again or is settled.  It may wait again only
while fewer tries than the limit have been made.

* `Steps.within`: a job is tried at least once, and never more often than `max 1 limit`;
* `Steps.settled`: a settled job is not tried again.
-/

namespace Retry

inductive Phase
  | waiting
  | trying
  | settled (success : Bool)
  deriving DecidableEq

/-- A job: how often it was tried, and where it stands. -/
structure Job where
  tries : ℕ
  phase : Phase

/-- A job that has not been tried. -/
def Job.new : Job := ⟨0, .waiting⟩

/-- The steps of a job under a limit. -/
inductive Step (limit : ℤ) : Job → Job → Prop
  | start {n : ℕ} : Step limit ⟨n, .waiting⟩ ⟨n + 1, .trying⟩
  | again {n : ℕ} (more : (n : ℤ) < limit) : Step limit ⟨n, .trying⟩ ⟨n, .waiting⟩
  | settle {n : ℕ} (success : Bool) : Step limit ⟨n, .trying⟩ ⟨n, .settled success⟩

/-- Any number of steps. -/
abbrev Steps (limit : ℤ) : Job → Job → Prop := Relation.ReflTransGen (Step limit)

/-- The tries are within the limit, and a waiting job has one left. -/
structure Within (limit : ℤ) (j : Job) : Prop where
  bounded : (j.tries : ℤ) ≤ max 1 limit
  room : j.phase = .waiting → (j.tries : ℤ) < max 1 limit

variable {limit : ℤ} {j j' : Job}

theorem Within.new : Within limit .new :=
  ⟨(Int.zero_le_ofNat 1).trans (le_max_left _ _), fun _ => lt_max_of_lt_left Int.one_pos⟩

theorem Step.within (h : Step limit j j') (hj : Within limit j) : Within limit j' := by
  cases h with
  | start =>
    exact ⟨Int.add_one_le_of_lt (hj.room rfl), fun hphase => by cases hphase⟩
  | again more => exact ⟨hj.bounded, fun _ => lt_max_of_lt_right more⟩
  | settle => exact ⟨hj.bounded, fun hphase => by cases hphase⟩

theorem Steps.within (h : Steps limit j j') (hj : Within limit j) : Within limit j' := by
  induction h with
  | refl => exact hj
  | tail _ step ih => exact step.within ih

/-- A settled job has no step. -/
theorem Steps.settled {b : Bool} (h : Steps limit j j') (hj : j.phase = .settled b) : j' = j := by
  rcases h.cases_head with rfl | ⟨_, step, -⟩
  · rfl
  · cases step <;> cases hj

end Retry
