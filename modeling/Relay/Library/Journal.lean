import Mathlib.Data.List.Basic
import Mathlib.Logic.Function.Basic
import Mathlib.Tactic.Common

/-!
# A state that is read off a log

An entry of a log may give a value to some keys: `gives k e` is the value that the entry `e` gives to
`k`.  `replay gives log` is the state that the log describes, in which each key has the value given
to it last.

* `replay_eq_some`: the entry that gave a value, after which none was given;
* `replay_silent`: an entry that gives no value leaves the state as it is;
* `replay_update`: an entry that gives a value to one key updates the state there;
* `Records`: an entry and a change of a view of the state that belong together.
-/

namespace Journal

universe u v w

variable {κ : Type u} {ε : Type v} {α : Type w}

/-- The value that each key was given last. -/
def replay (gives : κ → ε → Option α) (log : List ε) (k : κ) : Option α :=
  (log.filterMap (gives k)).getLast?

variable {gives : κ → ε → Option α} {log : List ε} {e : ε} {k₀ : κ} {a : α}

@[simp] theorem replay_nil : replay gives [] = fun _ => none := rfl

theorem replay_append (k : κ) : replay gives (log ++ [e]) k = (gives k e).or (replay gives log k) := by
  unfold replay
  rw [List.filterMap_append]
  cases h : gives k e with
  | none => rw [List.filterMap_cons_none h]; simp
  | some a => rw [List.filterMap_cons_some h]; simp

theorem replay_cons (k : κ) : replay gives (e :: log) k = (replay gives log k).or (gives k e) := by
  unfold replay
  cases h : gives k e with
  | none => rw [List.filterMap_cons_none h, Option.or_none]
  | some a =>
    rw [List.filterMap_cons_some h, List.getLast?_cons]
    cases (log.filterMap (gives k)).getLast? <;> rfl

theorem replay_eq_none {k : κ} : replay gives log k = none ↔ ∀ x ∈ log, gives k x = none := by
  unfold replay
  rw [List.getLast?_eq_none_iff, List.filterMap_eq_nil_iff]

/-- A value that a key has was given by an entry after which none was given. -/
theorem replay_eq_some {k : κ} : replay gives log k = some a ↔
    ∃ before e after, log = before ++ e :: after ∧ gives k e = some a ∧ ∀ x ∈ after, gives k x = none := by
  induction log with
  | nil => simp
  | cons e log ih =>
    rw [replay_cons, Option.or_eq_some_iff, ih, replay_eq_none]
    constructor
    · rintro (⟨before, e', after, rfl, he, hafter⟩ | ⟨hnone, he⟩)
      · exact ⟨e :: before, e', after, rfl, he, hafter⟩
      · exact ⟨[], e, log, rfl, he, hnone⟩
    · rintro ⟨before, e', after, heq, he, hafter⟩
      cases before with
      | nil =>
        cases heq
        exact .inr ⟨hafter, he⟩
      | cons x before =>
        cases heq
        exact .inl ⟨before, e', after, rfl, he, hafter⟩

theorem replay_silent (h : ∀ k, gives k e = none) : replay gives (log ++ [e]) = replay gives log := by
  funext k
  rw [replay_append, h k, Option.none_or]

theorem replay_update [DecidableEq κ] (h : ∀ k, gives k e = if k = k₀ then some a else none) :
    replay gives (log ++ [e]) = Function.update (replay gives log) k₀ (some a) := by
  funext k
  rw [replay_append, h k, Function.update_apply]
  split
  · rfl
  · exact Option.none_or

/-- The entry records how a view of the state changes. -/
inductive Records [DecidableEq κ] (gives : κ → ε → Option α) (e : ε) (view view' : κ → Option α) :
    Prop
  | silent (none : ∀ k, gives k e = none) (same : view' = view)
  | update (k₀ : κ) (a : α) (one : ∀ k, gives k e = if k = k₀ then some a else none)
      (changed : view' = Function.update view k₀ (some a))

/-- A view that the log describes is described after each entry that records its change. -/
theorem Records.replay [DecidableEq κ] {view view' : κ → Option α} (h : Records gives e view view')
    (hlog : replay gives log = view) : replay gives (log ++ [e]) = view' := by
  cases h with
  | silent none same => rw [replay_silent none, hlog, same]
  | update k₀ a one changed => rw [replay_update one, hlog, changed]

end Journal
