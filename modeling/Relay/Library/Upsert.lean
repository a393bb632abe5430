import Relay.Library.Table

/-!
# Rows under a second key, and writes under it

Where a constraint keeps columns unique, a table is a partial function from the values of these
columns to rows.  An upsert writes this function at one point, and a loop of upserts writes it
point after point.

* `Table.select`: the row with given columns;
* `Unique.select_insert`, `Unique.select_create`, `Unique.select_update`: inserts and updates write
  it at one point;
* `Writes`: a sequence of such writes, with the rules `other`, `last` and `lives`.
-/

namespace Relational

universe u v w

namespace Table

variable {ρ : Type u} {κ : Type v} [Keyed ρ κ] {α : Type w} [DecidableEq α]

/-- The row with these columns. -/
def select (t : Table ρ) (columns : ρ → α) (a : α) : Option ρ := t.find? fun r => columns r = a

variable {t t' : Table ρ} {columns : ρ → α} {a : α} {r : ρ}

theorem select_eq_none : t.select columns a = none ↔ ∀ x ∈ t, columns x ≠ a := by
  simp [select, find?_eq_none]

theorem columns_of_select (h : t.select columns a = some r) : columns r = a := by
  simpa using find?_some h

theorem Unique.select_eq_some (h : t.Unique columns) :
    t.select columns a = some r ↔ r ∈ t ∧ columns r = a := by
  constructor
  · intro hr
    exact ⟨mem_of_find? hr, columns_of_select hr⟩
  · rintro ⟨hr, rfl⟩
    exact h.find? (fun x => by simp) hr

/-- The rows of a query that one row answers. -/
theorem where_eq_singleton [DecidableEq κ] {p : ρ → Bool} (hr : r ∈ t) (hp : p r = true)
    (only : ∀ x ∈ t, p x = true → x = r) : t.where p = [r] := by
  have hnodup : (t.where p).Nodup := (List.Nodup.of_map _ t.nodup).filter _
  refine List.perm_singleton.1 ((List.perm_ext_iff_of_nodup hnodup (List.nodup_singleton r)).2 fun x => ?_)
  rw [List.mem_singleton]
  constructor
  · intro hx
    obtain ⟨hx, hpx⟩ := mem_where.1 hx
    exact only x hx hpx
  · rintro rfl
    exact mem_where.2 ⟨hr, hp⟩

/-- The members of a table are what it selects. -/
theorem Unique.mem_iff_select (h : t.Unique columns) : r ∈ t ↔ t.select columns (columns r) = some r := by
  rw [h.select_eq_some]
  simp

variable [DecidableEq κ]

/-- A new row is written where no row was. -/
theorem Unique.select_insert (h : t'.Unique columns) (hr : t.insert? r = some t') :
    t'.select columns = Function.update (t.select columns) (columns r) (some r) := by
  funext a
  rw [Function.update_apply]
  split
  · rename_i ha
    exact h.select_eq_some.2 ⟨mem_self_insert? hr, ha.symm⟩
  · rename_i ha
    cases hold : t.select columns a with
    | none =>
      rw [select_eq_none] at hold ⊢
      intro x hx
      rcases (mem_insert? hr).1 hx with hx | rfl
      · exact hold x hx
      · exact Ne.symm ha
    | some x =>
      exact h.select_eq_some.2 ⟨mem_of_mem_insert? hr (mem_of_find? hold), columns_of_select hold⟩

/-- A new row is written where no row was, also where the columns of the rows are read off otherwise
from then on, as long as those of the old rows stay what they are. -/
theorem Unique.select_create {columns' : ρ → α} (h : t.Unique columns) (hr : t.insert? r = some t')
    (same : ∀ x ∈ t, columns' x = columns x) (free : t.select columns (columns' r) = none) :
    t'.Unique columns' ∧
      t'.select columns' = Function.update (t.select columns) (columns' r) (some r) := by
  have hold : t.Unique columns' := by
    intro x hx y hy hxy
    rw [same x hx, same y hy] at hxy
    exact h x hx y hy hxy
  have hnew : t'.Unique columns' := by
    refine hold.insert hr fun x hx => ?_
    rw [same x hx]
    exact select_eq_none.1 free x hx
  refine ⟨hnew, ?_⟩
  have hselect : t.select columns' = t.select columns := by
    funext a
    refine Option.ext fun x => ?_
    rw [hold.select_eq_some, h.select_eq_some]
    exact and_congr_right fun hx => by rw [same x hx]
  rw [hnew.select_insert hr, hselect]

/-- A rewritten row is written where it was. -/
theorem Unique.select_update (h : t.Unique columns) {f : Rewrite ρ}
    (same : ∀ x, columns (f x) = columns x) (hr : r ∈ t) :
    (t.update (key r) f).select columns =
      Function.update (t.select columns) (columns r) (some (f r)) := by
  have h' : (t.update (key r) f).Unique columns := h.update same
  funext a
  rw [Function.update_apply]
  split
  · rename_i ha
    exact h'.select_eq_some.2 ⟨mem_update_self hr rfl, (same r).trans ha.symm⟩
  · rename_i ha
    cases hold : t.select columns a with
    | none =>
      rw [select_eq_none] at hold ⊢
      intro x hx
      obtain ⟨y, hy, rfl⟩ := mem_update.1 hx
      split
      · exact fun hfx => hold y hy ((same y).symm.trans hfx)
      · exact hold y hy
    | some x =>
      obtain ⟨hx, hxa⟩ := h.select_eq_some.1 hold
      have hne : key x ≠ key r := fun hk => ha (by rw [← hxa, eq_of_key hx hr hk])
      exact h'.select_eq_some.2 ⟨mem_update_of_ne hx hne, hxa⟩

/-- Tables that select the same, up to what a column does not tell, have the same column. -/
theorem Unique.view_eq {β : Type*} {column : ρ → β} (h : t.Unique columns) (h' : t'.Unique columns)
    (hkey : ∀ {x y : ρ}, column x = column y → (key x : κ) = key y)
    (same : ∀ a, (t.select columns a).map column = (t'.select columns a).map column) :
    t.view column = t'.view column := by
  -- a row of one table has a counterpart in the other
  have hrow : ∀ {t t' : Table ρ}, t.Unique columns →
      (∀ a, (t.select columns a).map column = (t'.select columns a).map column) →
      ∀ x ∈ t, ∃ y ∈ t', column y = column x := by
    intro t t' h same x hx
    have hx' := same (columns x)
    rw [h.mem_iff_select.1 hx, Option.map_some] at hx'
    obtain ⟨y, hy, hcolumn⟩ := Option.map_eq_some_iff.1 hx'.symm
    exact ⟨y, mem_of_find? hy, hcolumn⟩
  funext k
  cases hget : t.get? k with
  | some x =>
    obtain ⟨hx, rfl⟩ := get?_eq_some.1 hget
    obtain ⟨y, hy, hcolumn⟩ := hrow h same x hx
    rw [view_key hx, ← hcolumn, ← hkey hcolumn, view_key hy]
  | none =>
    rw [get?_eq_none] at hget
    have hnone : t'.get? k = none := by
      rw [get?_eq_none]
      intro y hy hk
      obtain ⟨x, hx, hcolumn⟩ := hrow h' (fun a => (same a).symm) y hy
      exact hget x hx ((hkey hcolumn).trans hk)
    simp only [view, get?_eq_none.2 hget, hnone]

end Table

/-! ### Sequences of writes -/

section Writes

variable {ι : Type u} {α : Type v} {ρ : Type w} [DecidableEq α]

/-- The items, in order, each write a row at their column values; `W i old row` says what may be
written for an item over an earlier row. -/
inductive Writes (columns : ι → α) (W : ι → Option ρ → ρ → Prop) :
    List ι → (α → Option ρ) → (α → Option ρ) → Prop
  | nil (g : α → Option ρ) : Writes columns W [] g g
  | cons {i : ι} {is : List ι} {g g' : α → Option ρ} {row : ρ} (head : W i (g (columns i)) row)
      (tail : Writes columns W is (Function.update g (columns i) (some row)) g') :
      Writes columns W (i :: is) g g'

variable {columns : ι → α} {W : ι → Option ρ → ρ → Prop} {is : List ι} {g g' : α → Option ρ}

namespace Writes

/-- Elsewhere nothing is written. -/
theorem other (h : Writes columns W is g g') {a : α} (ha : ∀ i ∈ is, columns i ≠ a) : g' a = g a := by
  induction h with
  | nil => rfl
  | cons _ _ ih =>
    rw [ih fun i hi => ha i (List.mem_cons_of_mem _ hi),
      Function.update_of_ne (ha _ List.mem_cons_self).symm]

/-- The last item with given columns has written the row there. -/
theorem last (h : Writes columns W is g g') {before after : List ι} {i : ι}
    (his : is = before ++ i :: after) (hlast : ∀ j ∈ after, columns j ≠ columns i) :
    ∃ old row, W i old row ∧ g' (columns i) = some row := by
  induction before generalizing is g with
  | nil =>
    subst his
    obtain _ | ⟨head, tail⟩ := h
    exact ⟨_, _, head, by rw [tail.other hlast, Function.update_self]⟩
  | cons j before ih =>
    subst his
    obtain _ | ⟨_, tail⟩ := h
    exact ih tail rfl

/-- Where writing keeps a relation to the earlier row, rows live on. -/
theorem lives (h : Writes columns W is g g') {R : ρ → ρ → Prop} (refl : ∀ x, R x x)
    (trans : ∀ {x y z}, R x y → R y z → R x z) (hW : ∀ {i x y}, W i (some x) y → R x y) {a : α}
    {x : ρ} (hx : g a = some x) : ∃ y, g' a = some y ∧ R x y := by
  induction h generalizing x with
  | nil => exact ⟨x, hx, refl x⟩
  | @cons i is g g' row head _ ih =>
    by_cases ha : a = columns i
    · subst ha
      rw [hx] at head
      obtain ⟨y, hy, hR⟩ := ih (Function.update_self _ _ _)
      exact ⟨y, hy, trans (hW head) hR⟩
    · exact ih ((Function.update_of_ne ha _ _).trans hx)

end Writes

omit [DecidableEq α] in
/-- Columns that some item has, a last item has. -/
theorem exists_last {a : α} (h : ∃ i ∈ is, columns i = a) :
    ∃ before j after, is = before ++ j :: after ∧ columns j = a ∧ ∀ k ∈ after, columns k ≠ a := by
  induction is with
  | nil =>
    obtain ⟨_, hi, _⟩ := h
    cases hi
  | cons x is ih =>
    by_cases hlater : ∃ i ∈ is, columns i = a
    · obtain ⟨before, j, after, rfl, hj⟩ := ih hlater
      exact ⟨x :: before, j, after, rfl, hj⟩
    · have hnone : ∀ k ∈ is, columns k ≠ a := fun k hk ha => hlater ⟨k, hk, ha⟩
      obtain ⟨i, hi, ha⟩ := h
      rcases List.mem_cons.1 hi with rfl | hi
      · exact ⟨[], i, is, rfl, ha, hnone⟩
      · exact absurd ha (hnone i hi)

end Writes

end Relational
