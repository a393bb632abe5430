import Mathlib.Data.List.Nodup
import Mathlib.Tactic.Common

/-!
# Tables with a primary key

A table is a list of rows, in insertion order, whose keys are distinct; the distinctness is a
field, so no operation can build a table with two rows of one key.

* `Table.get?`, `Table.find?`, `Table.where`: queries;
* `Table.insert?`: refuses a key that is taken;
* `Table.update`: rewrites the row of one key, by a `Rewrite` that keeps it;
* `Table.view`: one column, as a function of the key;
* `Table.Unique`: a second key, which a constraint keeps unique;
* `Table.erase`: drops the row of one key;
* `Table.restrict`: the rows that meet a condition;
* `Table.Grows R t t'`: every row of `t` lives on in `t'` as a row it may become under `R`.
-/

namespace Relational

universe u v

/-- Rows of type `ρ` carry a primary key. -/
class Keyed (ρ : Type u) (κ : outParam (Type v)) where
  key : ρ → κ

export Keyed (key)

/-- A change of a row that keeps its key. -/
structure Rewrite (ρ : Type u) {κ : Type v} [Keyed ρ κ] where
  toFun : ρ → ρ
  keeps : ∀ r, (key (toFun r) : κ) = key r

instance {ρ : Type u} {κ : Type v} [Keyed ρ κ] : CoeFun (Rewrite ρ) fun _ => ρ → ρ := ⟨Rewrite.toFun⟩

/-- Rows in insertion order, with distinct keys. -/
structure Table (ρ : Type u) {κ : Type v} [Keyed ρ κ] where
  rows : List ρ
  nodup : (rows.map (key : ρ → κ)).Nodup

namespace Table

variable {ρ : Type u} {κ : Type v} [Keyed ρ κ]

instance : Membership ρ (Table ρ) := ⟨fun t r => r ∈ t.rows⟩

theorem mem_def {t : Table ρ} {r : ρ} : r ∈ t ↔ r ∈ t.rows := Iff.rfl

instance [DecidableEq ρ] (t : Table ρ) (r : ρ) : Decidable (r ∈ t) :=
  inferInstanceAs (Decidable (r ∈ t.rows))

/-- The table without rows. -/
def empty : Table ρ := ⟨[], by simp⟩

instance : EmptyCollection (Table ρ) := ⟨empty⟩

@[simp] theorem rows_empty : (∅ : Table ρ).rows = [] := rfl

@[simp] theorem not_mem_empty (r : ρ) : r ∉ (∅ : Table ρ) := List.not_mem_nil

/-- The rows that meet a condition. -/
def «where» (t : Table ρ) (p : ρ → Bool) : List ρ := t.rows.filter p

/-- The first row that meets a condition. -/
def find? (t : Table ρ) (p : ρ → Bool) : Option ρ := t.rows.find? p

@[simp] theorem mem_where {t : Table ρ} {p : ρ → Bool} {r : ρ} :
    r ∈ t.where p ↔ r ∈ t ∧ p r = true := List.mem_filter

theorem mem_of_find? {t : Table ρ} {p : ρ → Bool} {r : ρ} (h : t.find? p = some r) : r ∈ t :=
  List.mem_of_find?_eq_some h

theorem find?_some {t : Table ρ} {p : ρ → Bool} {r : ρ} (h : t.find? p = some r) : p r = true :=
  List.find?_some h

theorem find?_eq_none {t : Table ρ} {p : ρ → Bool} :
    t.find? p = none ↔ ∀ r ∈ t, ¬ p r = true := List.find?_eq_none

/-- Two rows of a table with one key are the same row. -/
theorem eq_of_key {t : Table ρ} {a b : ρ} (ha : a ∈ t) (hb : b ∈ t) (h : key a = key b) :
    a = b := List.inj_on_of_nodup_map t.nodup ha hb h

/-- A condition that only rows with the key of `r` meet finds `r`. -/
theorem find?_of_key {t : Table ρ} {p : ρ → Bool} {r : ρ} (hr : r ∈ t) (hp : p r = true)
    (hkey : ∀ x, p x = true → key x = key r) : t.find? p = some r := by
  cases hf : t.find? p with
  | none => exact absurd hp (find?_eq_none.1 hf r hr)
  | some x => rw [eq_of_key (mem_of_find? hf) hr (hkey x (find?_some hf))]

variable [DecidableEq κ]

/-- The row of a key. -/
def get? (t : Table ρ) (k : κ) : Option ρ := t.find? fun r => key r = k

@[simp] theorem get?_empty (k : κ) : (∅ : Table ρ).get? k = none := rfl

theorem get?_eq_some {t : Table ρ} {k : κ} {r : ρ} :
    t.get? k = some r ↔ r ∈ t ∧ key r = k := by
  constructor
  · intro h
    exact ⟨mem_of_find? h, by simpa using find?_some h⟩
  · rintro ⟨hr, rfl⟩
    exact find?_of_key hr (by simp) fun x hx => of_decide_eq_true hx

theorem get?_eq_none {t : Table ρ} {k : κ} : t.get? k = none ↔ ∀ r ∈ t, key r ≠ k := by
  simp [get?, find?_eq_none]

theorem get?_key {t : Table ρ} {r : ρ} (h : r ∈ t) : t.get? (key r) = some r :=
  get?_eq_some.2 ⟨h, rfl⟩

theorem mem_of_get? {t : Table ρ} {k : κ} {r : ρ} (h : t.get? k = some r) : r ∈ t :=
  (get?_eq_some.1 h).1

theorem key_of_get? {t : Table ρ} {k : κ} {r : ρ} (h : t.get? k = some r) : key r = k :=
  (get?_eq_some.1 h).2

/-- Adds a row, unless its key is taken. -/
def insert? (t : Table ρ) (r : ρ) : Option (Table ρ) :=
  if h : ∀ x ∈ t.rows, key x ≠ key r then
    some ⟨t.rows ++ [r], by
      rw [List.map_append, List.nodup_append]
      refine ⟨t.nodup, by simp, fun k hk k' hk' => ?_⟩
      obtain ⟨x, hx, rfl⟩ := List.mem_map.1 hk
      have hr : k' = key r := by simpa using hk'
      exact hr ▸ h x hx⟩
  else none

section Insert

variable {t t' : Table ρ} {r x : ρ}

theorem rows_insert? (h : t.insert? r = some t') : t'.rows = t.rows ++ [r] := by
  unfold insert? at h
  split at h
  · cases h; rfl
  · cases h

theorem fresh_of_insert? (h : t.insert? r = some t') : ∀ x ∈ t, key x ≠ key r := by
  unfold insert? at h
  split at h
  · assumption
  · cases h

theorem insert?_isSome (h : ∀ x ∈ t, key x ≠ key r) : ∃ t', t.insert? r = some t' :=
  ⟨_, dif_pos h⟩

theorem mem_insert? (h : t.insert? r = some t') : x ∈ t' ↔ x ∈ t ∨ x = r := by
  rw [mem_def, rows_insert? h, List.mem_append, List.mem_singleton, mem_def]

theorem mem_self_insert? (h : t.insert? r = some t') : r ∈ t' := (mem_insert? h).2 (.inr rfl)

theorem mem_of_mem_insert? (h : t.insert? r = some t') (hx : x ∈ t) : x ∈ t' :=
  (mem_insert? h).2 (.inl hx)

/-- The row that an insertion adds. -/
theorem eq_of_mem_insert? (h : t.insert? r = some t') (hx : x ∈ t') (hout : x ∉ t) : x = r :=
  ((mem_insert? h).1 hx).resolve_left hout

theorem where_insert? (h : t.insert? r = some t') (p : ρ → Bool) :
    t'.where p = t.where p ++ if p r then [r] else [] := by
  unfold «where»
  rw [rows_insert? h, List.filter_append]
  cases hp : p r <;> simp [hp]

theorem get?_insert? (h : t.insert? r = some t') (k : κ) :
    t'.get? k = if key r = k then some r else t.get? k := by
  split
  · exact get?_eq_some.2 ⟨mem_self_insert? h, ‹_›⟩
  · rename_i hk
    cases hg : t.get? k with
    | none =>
      rw [get?_eq_none] at hg ⊢
      intro x hx
      rcases (mem_insert? h).1 hx with hx | rfl
      · exact hg x hx
      · exact hk
    | some y =>
      exact get?_eq_some.2 ⟨mem_of_mem_insert? h (mem_of_get? hg), key_of_get? hg⟩

end Insert

/-- Rewrites the row of key `k`. -/
def update (t : Table ρ) (k : κ) (f : Rewrite ρ) : Table ρ :=
  ⟨t.rows.map fun r => if key r = k then f r else r, by
    have : (t.rows.map fun r => if key r = k then f r else r).map key = t.rows.map key := by
      rw [List.map_map]
      refine List.map_congr_left fun r _ => ?_
      by_cases h : key r = k <;> simp [h, f.keeps]
    rw [this]
    exact t.nodup⟩

section Update

variable {t : Table ρ} {k : κ} {f : Rewrite ρ} {x : ρ}

theorem mem_update : x ∈ t.update k f ↔ ∃ r ∈ t, x = if key r = k then f r else r := by
  rw [mem_def, update, List.mem_map]
  exact ⟨fun ⟨r, hr, h⟩ => ⟨r, hr, h.symm⟩, fun ⟨r, hr, h⟩ => ⟨r, hr, h.symm⟩⟩

theorem mem_update_self {r : ρ} (hr : r ∈ t) (hk : key r = k) : f r ∈ t.update k f :=
  mem_update.2 ⟨r, hr, by rw [if_pos hk]⟩

theorem mem_update_of_ne {r : ρ} (hr : r ∈ t) (hk : key r ≠ k) : r ∈ t.update k f :=
  mem_update.2 ⟨r, hr, by rw [if_neg hk]⟩

/-- No row is lost when one is rewritten. -/
theorem exists_update_of_mem {r : ρ} (hr : r ∈ t) : ∃ x ∈ t.update k f, key x = key r := by
  by_cases hk : key r = k
  · exact ⟨f r, mem_update_self hr hk, f.keeps r⟩
  · exact ⟨r, mem_update_of_ne hr hk, rfl⟩

/-- The rows of a rewritten table: the rewritten one, and the others. -/
theorem of_mem_update {r : ρ} (hr : r ∈ t) (h : x ∈ t.update (key r) f) :
    x = f r ∨ (x ∈ t ∧ key x ≠ key r) := by
  obtain ⟨y, hy, rfl⟩ := mem_update.1 h
  by_cases hk : key y = key r
  · rw [if_pos hk, eq_of_key hy hr hk]
    exact .inl rfl
  · rw [if_neg hk]
    exact .inr ⟨hy, hk⟩

/-- The row that a rewriting adds. -/
theorem eq_of_mem_update {r : ρ} (hr : r ∈ t) (h : x ∈ t.update (key r) f) (hout : x ∉ t) :
    x = f r := (of_mem_update hr h).resolve_right fun hx => hout hx.1

/-- A rewritten table has the keys it had. -/
theorem exists_key_of_mem_update (h : x ∈ t.update k f) : ∃ r ∈ t, key r = key x := by
  obtain ⟨r, hr, rfl⟩ := mem_update.1 h
  refine ⟨r, hr, ?_⟩
  split
  · exact (f.keeps r).symm
  · rfl

theorem get?_update (k' : κ) :
    (t.update k f).get? k' = if k' = k then (t.get? k').map f else t.get? k' := by
  cases hg : t.get? k' with
  | none =>
    rw [get?_eq_none] at hg
    have : (t.update k f).get? k' = none := by
      rw [get?_eq_none]
      intro x hx
      obtain ⟨r, hr, rfl⟩ := mem_update.1 hx
      split
      · rw [f.keeps]; exact hg r hr
      · exact hg r hr
    rw [this]
    split <;> rfl
  | some r =>
    obtain ⟨hr, rfl⟩ := get?_eq_some.1 hg
    split
    · rename_i hk
      exact get?_eq_some.2 ⟨mem_update_self hr hk, f.keeps r⟩
    · rename_i hk
      exact get?_eq_some.2 ⟨mem_update_of_ne hr hk, rfl⟩

/-- A query whose condition the rewriting does not touch selects the rewritten rows. -/
theorem where_update {p : ρ → Bool} (hp : ∀ r, p (f r) = p r) :
    (t.update k f).where p = (t.where p).map fun r => if key r = k then f r else r := by
  unfold «where» update
  rw [List.filter_map]
  congr 1
  refine List.filter_congr fun r _ => ?_
  by_cases h : key r = k <;> simp [h, hp]

/-- Rewriting a row that a query does not select leaves the query as it is. -/
theorem where_update_of_ne {p : ρ → Bool} (hp : ∀ r, p (f r) = p r)
    (h : ∀ r ∈ t.where p, key r ≠ k) : (t.update k f).where p = t.where p := by
  rw [where_update hp]
  exact (List.map_congr_left fun r hr => if_neg (h r hr)).trans (List.map_id _)

/-- Rewriting the last row of a query. -/
theorem where_update_last {p : ρ → Bool} (hp : ∀ r, p (f r) = p r) {l : List ρ} {r : ρ}
    (h : t.where p = l ++ [r]) : (t.update (key r) f).where p = l ++ [f r] := by
  have hkeys : ((l ++ [r]).map (key : ρ → κ)).Nodup :=
    h ▸ t.nodup.sublist (List.filter_sublist.map _)
  rw [List.map_append, List.nodup_append] at hkeys
  have hl : ∀ x ∈ l, key x ≠ key r := fun x hx =>
    hkeys.2.2 _ (List.mem_map_of_mem hx) _ (by simp)
  rw [where_update hp, h, List.map_append]
  congr 1
  · exact (List.map_congr_left fun x hx => if_neg (hl x hx)).trans (List.map_id _)
  · simp

/-- A query counts a row that is rewritten as it selects it before and after. -/
theorem length_where_update (p : ρ → Bool) {r : ρ} (hr : r ∈ t) :
    ((t.update (key r) f).where p).length + (if p r then 1 else 0) =
      (t.where p).length + if p (f r) then 1 else 0 := by
  obtain ⟨l₁, l₂, hrows⟩ := List.append_of_mem (mem_def.1 hr)
  have hkeys : ((l₁ ++ r :: l₂).map (key : ρ → κ)).Nodup := hrows ▸ t.nodup
  rw [List.map_append, List.map_cons, List.nodup_append, List.nodup_cons] at hkeys
  have h₁ : ∀ x ∈ l₁, key x ≠ key r := fun x hx =>
    hkeys.2.2 _ (List.mem_map_of_mem hx) _ (by simp)
  have h₂ : ∀ x ∈ l₂, key x ≠ key r := fun x hx he =>
    hkeys.2.1.1 (he ▸ List.mem_map_of_mem hx)
  have hsame : ∀ l : List ρ, (∀ x ∈ l, key x ≠ key r) →
      (l.map fun x => if key x = key r then f x else x) = l := fun l hl =>
    (List.map_congr_left fun x hx => if_neg (hl x hx)).trans (List.map_id l)
  have hrows' : (t.update (key r) f).rows = l₁ ++ f r :: l₂ := by
    change (t.rows.map fun x => if key x = key r then f x else x) = _
    rw [hrows, List.map_append, List.map_cons, hsame l₁ h₁, hsame l₂ h₂, if_pos rfl]
  have hcount : ∀ x : ρ, (List.filter p (x :: l₂)).length =
      (l₂.filter p).length + if p x then 1 else 0 := by
    intro x
    rw [List.filter_cons]
    split <;> rfl
  unfold «where»
  rw [hrows', hrows, List.filter_append, List.filter_append, List.length_append, List.length_append,
    hcount, hcount]
  omega

end Update

/-! ### Views -/

/-- What a column holds for each key. -/
def view {α : Type*} (t : Table ρ) (column : ρ → α) (k : κ) : Option α := (t.get? k).map column

section View

variable {α : Type*} {t t' : Table ρ} {column : ρ → α} {r : ρ} {f : Rewrite ρ}

@[simp] theorem view_empty : (∅ : Table ρ).view column = fun _ => none := rfl

theorem view_key (h : r ∈ t) : t.view column (key r) = some (column r) := by
  rw [view, get?_key h]
  rfl

theorem view_insert? (h : t.insert? r = some t') :
    t'.view column = Function.update (t.view column) (key r) (some (column r)) := by
  funext k
  rw [view, get?_insert? h, Function.update_apply]
  by_cases hk : key r = k
  · rw [if_pos hk, if_pos hk.symm]
    rfl
  · rw [if_neg hk, if_neg (Ne.symm hk)]
    rfl

theorem view_update (h : r ∈ t) :
    (t.update (key r) f).view column = Function.update (t.view column) (key r) (some (column (f r))) := by
  funext k
  rw [view, get?_update, Function.update_apply]
  split
  · rename_i hk
    rw [hk, get?_key h]
    rfl
  · rfl

/-- A rewriting that leaves the column alone. -/
theorem view_update_same {k : κ} (h : ∀ r, column (f r) = column r) :
    (t.update k f).view column = t.view column := by
  funext k'
  rw [view, get?_update, view]
  split
  · cases t.get? k' with
    | none => rfl
    | some r => exact congrArg some (h r)
  · rfl

end View

/-! ### Unique constraints -/

omit [DecidableEq κ] in
/-- No two rows agree on the columns. -/
def Unique {α : Type*} (t : Table ρ) (columns : ρ → α) : Prop :=
  ∀ a ∈ t, ∀ b ∈ t, columns a = columns b → a = b

section Unique

variable {α : Type*} {t t' : Table ρ} {columns : ρ → α} {r : ρ} {f : Rewrite ρ} {k : κ}

omit [DecidableEq κ] in
theorem Unique.empty : (∅ : Table ρ).Unique columns := fun a ha => absurd ha (not_mem_empty a)

theorem Unique.insert (h : t.Unique columns) (hr : t.insert? r = some t')
    (fresh : ∀ x ∈ t, columns x ≠ columns r) : t'.Unique columns := by
  intro a ha b hb hab
  rcases (mem_insert? hr).1 ha with ha | rfl <;> rcases (mem_insert? hr).1 hb with hb | rfl
  · exact h a ha b hb hab
  · exact absurd hab (fresh a ha)
  · exact absurd hab.symm (fresh b hb)
  · rfl

theorem Unique.update (h : t.Unique columns) (same : ∀ x, columns (f x) = columns x) :
    (t.update k f).Unique columns := by
  have hcolumns : ∀ x, columns (if key x = k then f x else x) = columns x := by
    intro x
    split
    · exact same x
    · rfl
  intro a ha b hb hab
  obtain ⟨x, hx, rfl⟩ := mem_update.1 ha
  obtain ⟨y, hy, rfl⟩ := mem_update.1 hb
  rw [hcolumns, hcolumns] at hab
  rw [h x hx y hy hab]

omit [DecidableEq κ] in
/-- The row that a query for the columns finds. -/
theorem Unique.find? {p : ρ → Bool} (h : t.Unique columns)
    (hp : ∀ x, p x = true ↔ columns x = columns r) (hr : r ∈ t) : t.find? p = some r := by
  cases hf : t.find? p with
  | none => exact absurd ((hp r).2 rfl) (find?_eq_none.1 hf r hr)
  | some x => rw [h x (mem_of_find? hf) r hr ((hp x).1 (find?_some hf))]

end Unique

/-- Drops the row of key `k`. -/
def erase (t : Table ρ) (k : κ) : Table ρ :=
  ⟨t.rows.filter fun r => key r ≠ k, (t.nodup.sublist (List.filter_sublist.map _))⟩

@[simp] theorem mem_erase {t : Table ρ} {k : κ} {x : ρ} :
    x ∈ t.erase k ↔ x ∈ t ∧ key x ≠ k := by
  rw [mem_def, erase, List.mem_filter, mem_def]
  simp

/-! ### Parts of a table -/

omit [DecidableEq κ] in
/-- The rows that meet a condition, as a table. -/
def restrict (t : Table ρ) (p : ρ → Bool) : Table ρ :=
  ⟨t.rows.filter p, t.nodup.sublist (List.filter_sublist.map _)⟩

omit [DecidableEq κ] in
/-- A row that does not meet the condition has the key. -/
def Outside (t : Table ρ) (p : ρ → Bool) (k : κ) : Prop := ∃ r ∈ t, key r = k ∧ p r = false

section Restrict

variable {t t' : Table ρ} {p q : ρ → Bool} {r : ρ} {f : Rewrite ρ} {k : κ}

omit [DecidableEq κ] in
@[simp] theorem mem_restrict : r ∈ t.restrict p ↔ r ∈ t ∧ p r = true := List.mem_filter

omit [DecidableEq κ] in
@[simp] theorem restrict_empty : (∅ : Table ρ).restrict p = ∅ := rfl

omit [DecidableEq κ] in
theorem restrict_congr (h : ∀ r ∈ t, p r = q r) : t.restrict p = t.restrict q := by
  unfold restrict
  congr 1
  exact List.filter_congr fun r hr => h r hr

omit [DecidableEq κ] in
theorem where_restrict : (t.restrict p).where q = t.where fun r => q r && p r := by
  unfold «where» restrict
  exact List.filter_filter

omit [DecidableEq κ] in
/-- A query that selects rows of the part only. -/
theorem where_restrict_of (h : ∀ r ∈ t, q r = true → p r = true) :
    (t.restrict p).where q = t.where q := by
  rw [where_restrict]
  refine List.filter_congr fun r hr => ?_
  cases hq : q r with
  | false => rfl
  | true => rw [h r hr hq]; rfl

omit [DecidableEq κ] in
/-- A look-up that finds rows of the part only. -/
theorem find?_restrict_of (h : ∀ r ∈ t, q r = true → p r = true) :
    (t.restrict p).find? q = t.find? q := by
  have hsame : ∀ l : List ρ, (∀ r ∈ l, q r = true → p r = true) → (l.filter p).find? q = l.find? q := by
    intro l hl
    induction l with
    | nil => rfl
    | cons a l ih =>
      have ih := ih fun r hr => hl r (List.mem_cons_of_mem _ hr)
      cases hq : q a with
      | true => simp [hl a List.mem_cons_self hq, hq]
      | false =>
        rw [List.find?_cons, hq, List.filter_cons]
        split
        · rw [List.find?_cons, hq, ih]
        · exact ih
  exact hsame t.rows h

omit [DecidableEq κ] in
/-- A look-up whose row is in the part. -/
theorem find?_restrict_some (h : t.find? q = some r) (hr : p r = true) :
    (t.restrict p).find? q = some r := by
  have hsame : ∀ l : List ρ, l.find? q = some r → (l.filter p).find? q = some r := by
    intro l hl
    induction l with
    | nil => cases hl
    | cons a l ih =>
      rw [List.find?_cons] at hl
      cases hq : q a with
      | true =>
        rw [hq] at hl
        cases hl
        simp [hr, hq]
      | false =>
        rw [hq] at hl
        rw [List.filter_cons]
        split
        · rw [List.find?_cons, hq]
          exact ih hl
        · exact ih hl
  exact hsame t.rows h

theorem get?_restrict : (t.restrict p).get? k = (t.get? k).filter p := by
  cases hg : t.get? k with
  | none =>
    rw [get?_eq_none] at hg
    exact get?_eq_none.2 fun r hr => hg r (mem_restrict.1 hr).1
  | some r =>
    cases hp : p r with
    | true =>
      rw [show (t.restrict p).get? k = some r from find?_restrict_some hg hp]
      simp [Option.filter, hp]
    | false =>
      have : (t.restrict p).get? k = none := by
        rw [get?_eq_none]
        intro x hx hk
        obtain ⟨hx, hpx⟩ := mem_restrict.1 hx
        rw [eq_of_key hx (mem_of_get? hg) (hk.trans (key_of_get? hg).symm), hp] at hpx
        cases hpx
      simp [this, Option.filter, hp]

theorem restrict_insert (h : t.insert? r = some t') (hr : p r = true) :
    (t.restrict p).insert? r = some (t'.restrict p) := by
  have hfresh : ∀ x ∈ (t.restrict p).rows, key x ≠ key r := fun x hx =>
    fresh_of_insert? h x (mem_restrict.1 hx).1
  obtain ⟨t'', ht''⟩ := insert?_isSome hfresh
  have hrows : t''.rows = (t'.restrict p).rows := by
    rw [rows_insert? ht'']
    change t.rows.filter p ++ [r] = t'.rows.filter p
    rw [rows_insert? h, List.filter_append]
    simp [hr]
  rw [ht'']
  obtain ⟨rows, nodup⟩ := t''
  cases hrows
  rfl

/-- An insertion fails in the part as it does in the table, or a row outside of the part has the
key. -/
theorem restrict_insert?_none (h : t.insert? r = none) :
    (t.restrict p).insert? r = none ∨ t.Outside p (key r) := by
  by_cases hpart : ∀ x ∈ t.restrict p, key x ≠ key r
  · refine .inr ?_
    by_contra hout
    obtain ⟨t', ht'⟩ := insert?_isSome (t := t) (r := r) fun x hx hk => by
      cases hp : p x with
      | true => exact hpart x (mem_restrict.2 ⟨hx, hp⟩) hk
      | false => exact hout ⟨x, hx, hk, hp⟩
    rw [h] at ht'
    cases ht'
  · exact .inl (dif_neg hpart)

theorem restrict_insert_of_not (h : t.insert? r = some t') (hr : p r = false) :
    t'.restrict p = t.restrict p := by
  unfold restrict
  congr 1
  rw [rows_insert? h, List.filter_append]
  simp [hr]

/-- A rewriting that leaves each row in the part or out of it. -/
theorem restrict_update (h : ∀ r, p (f r) = p r) : (t.update k f).restrict p = (t.restrict p).update k f := by
  unfold restrict update
  congr 1
  rw [List.filter_map]
  congr 1
  refine List.filter_congr fun r _ => ?_
  by_cases hk : key r = k <;> simp [hk, h]

/-- A key without a row. -/
theorem update_of_forall_ne (h : ∀ r ∈ t, key r ≠ k) : t.update k f = t := by
  obtain ⟨rows, nodup⟩ := t
  unfold update
  congr 1
  exact (List.map_congr_left fun r hr => if_neg (h r hr)).trans (List.map_id _)

/-- The rewriting of a row outside of the part. -/
theorem restrict_update_of_not (hr : r ∈ t) (hp : p r = false) (h : ∀ r, p (f r) = p r) :
    (t.update (key r) f).restrict p = t.restrict p := by
  rw [restrict_update h]
  refine update_of_forall_ne fun x hx hk => ?_
  obtain ⟨hx, hpx⟩ := mem_restrict.1 hx
  rw [eq_of_key hx hr hk, hp] at hpx
  cases hpx

end Restrict

/-! ### Growth -/

omit [DecidableEq κ] in
/-- Every row of `t` lives on in `t'` as a row it may become under `R`. -/
def Grows (R : ρ → ρ → Prop) (t t' : Table ρ) : Prop := ∀ r ∈ t, ∃ r' ∈ t', R r r'

section Grows

variable {R : ρ → ρ → Prop} {t t' t'' : Table ρ}

omit [DecidableEq κ] in
theorem Grows.refl (hR : ∀ r, R r r) (t : Table ρ) : Grows R t t := fun r hr => ⟨r, hr, hR r⟩

omit [DecidableEq κ] in
theorem Grows.trans (hR : ∀ {a b c}, R a b → R b c → R a c) (h : Grows R t t')
    (h' : Grows R t' t'') : Grows R t t'' := by
  intro r hr
  obtain ⟨r', hr', h₁⟩ := h r hr
  obtain ⟨r'', hr'', h₂⟩ := h' r' hr'
  exact ⟨r'', hr'', hR h₁ h₂⟩

theorem Grows.insert (hR : ∀ r, R r r) {r : ρ} (h : t.insert? r = some t') : Grows R t t' :=
  fun x hx => ⟨x, mem_of_mem_insert? h hx, hR x⟩

theorem Grows.update (hR : ∀ r, R r r) {k : κ} {f : Rewrite ρ}
    (h : ∀ r ∈ t, key r = k → R r (f r)) : Grows R t (t.update k f) := by
  intro r hr
  by_cases hk : key r = k
  · exact ⟨f r, mem_update_self hr hk, h r hr hk⟩
  · exact ⟨r, mem_update_of_ne hr hk, hR r⟩

omit [DecidableEq κ] in
/-- The row a row of `t` has become, when `R` keeps keys, is the one of `t'` with its key. -/
theorem Grows.related (h : Grows R t t') (hkey : ∀ {a b}, R a b → key b = key a) {r r' : ρ}
    (hr : r ∈ t) (hr' : r' ∈ t') (hk : key r = key r') : R r r' := by
  obtain ⟨x, hx, hR⟩ := h r hr
  rwa [eq_of_key hx hr' ((hkey hR).trans hk)] at hR

end Grows

end Table

end Relational
