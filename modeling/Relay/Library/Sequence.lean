import Mathlib.Data.List.Sort
import Mathlib.Tactic.Common

/-!
# Lists as a program orders them

* `fromKeys`: the distinct elements in order of first occurrence (`list(dict.fromkeys(l))`);
* `orderBy`: the rows of a query in the order of a comparison, with `filter_orderBy` for its parts;
* `lookups`: the values found for a list of keys, in the order of the keys.
-/

namespace Sequence

universe u v

variable {α : Type u} {κ : Type v} [DecidableEq κ]

section FromKeys

variable [DecidableEq α]

/-- The distinct elements, each at its first occurrence. -/
def fromKeys : List α → List α
  | [] => []
  | a :: l => a :: (fromKeys l).filter (· ≠ a)

@[simp] theorem mem_fromKeys {l : List α} {x : α} : x ∈ fromKeys l ↔ x ∈ l := by
  induction l with
  | nil => rfl
  | cons a l ih =>
    by_cases hx : x = a <;> simp [fromKeys, ih, hx]

theorem nodup_fromKeys (l : List α) : (fromKeys l).Nodup := by
  induction l with
  | nil => exact List.nodup_nil
  | cons a l ih =>
    rw [fromKeys, List.nodup_cons]
    exact ⟨by simp, ih.filter _⟩

theorem fromKeys_eq_self {l : List α} (h : l.Nodup) : fromKeys l = l := by
  induction l with
  | nil => rfl
  | cons a l ih =>
    obtain ⟨ha, hl⟩ := List.nodup_cons.1 h
    rw [fromKeys, ih hl, List.filter_eq_self.2]
    intro x hx
    simpa using fun he : x = a => ha (he ▸ hx)

end FromKeys

/-- The rows in ascending order of `le`, rows that compare equal staying as they were. -/
def orderBy (le : α → α → Bool) (l : List α) : List α := l.insertionSort fun a b => le a b

@[simp] theorem mem_orderBy {le : α → α → Bool} {l : List α} {x : α} :
    x ∈ orderBy le l ↔ x ∈ l := List.mem_insertionSort _

theorem orderBy_perm (le : α → α → Bool) (l : List α) : (orderBy le l).Perm l := List.perm_insertionSort _ l

/-- Rows come first, second and so on as the comparison says. -/
theorem pairwise_orderBy {le : α → α → Bool} (total : ∀ a b, le a b = true ∨ le b a = true)
    (trans : ∀ a b c, le a b = true → le b c = true → le a c = true) (l : List α) :
    (orderBy le l).Pairwise fun a b => le a b = true := by
  have htotal : Std.Total fun a b : α => le a b = true := ⟨total⟩
  have htrans : IsTrans α fun a b => le a b = true := ⟨trans⟩
  exact List.pairwise_insertionSort _ l

/-- A query with a row has a first one. -/
theorem exists_head?_orderBy {le : α → α → Bool} {l : List α} {x : α} (h : x ∈ l) :
    ∃ y ∈ l, (orderBy le l).head? = some y := by
  have hne : orderBy le l ≠ [] := List.ne_nil_of_mem (mem_orderBy.2 h)
  exact ⟨_, mem_orderBy.1 (List.head_mem hne), List.head?_eq_some_head hne⟩

/-- Who is not among the first `n` rows has `n` rows in front. -/
theorem take_orderBy_of_not_mem {le : α → α → Bool} (total : ∀ a b, le a b = true ∨ le b a = true)
    (trans : ∀ a b c, le a b = true → le b c = true → le a c = true) {l : List α} {x : α} {n : ℕ}
    (hx : x ∈ l) (hover : x ∉ (orderBy le l).take n) :
    ((orderBy le l).take n).length = n ∧ ∀ y ∈ (orderBy le l).take n, le y x = true := by
  have hsorted := pairwise_orderBy total trans l
  rw [← List.take_append_drop n (orderBy le l), List.pairwise_append] at hsorted
  have hdrop : x ∈ (orderBy le l).drop n := by
    have hmem : x ∈ orderBy le l := mem_orderBy.2 hx
    rw [← List.take_append_drop n (orderBy le l)] at hmem
    exact (List.mem_append.1 hmem).resolve_left hover
  refine ⟨?_, fun y hy => hsorted.2.2 y hy x hdrop⟩
  have hlength := List.length_pos_of_mem hdrop
  rw [List.length_drop] at hlength
  rw [List.length_take]
  omega

section Filter

variable {le : α → α → Bool}

/-- Insertion into an ordered list, seen through a filter. -/
theorem filter_orderedInsert (trans : ∀ a b c, le a b = true → le b c = true → le a c = true)
    (p : α → Bool) (a : α) {l : List α} (hl : l.Pairwise fun a b => le a b = true) :
    (l.orderedInsert (fun a b => le a b = true) a).filter p =
      if p a then (l.filter p).orderedInsert (fun a b => le a b = true) a else l.filter p := by
  induction l with
  | nil => cases hp : p a <;> simp [hp]
  | cons b l ih =>
    obtain ⟨hb, hl⟩ := List.pairwise_cons.1 hl
    by_cases hab : le a b = true
    · rw [List.orderedInsert_cons_of_le (r := fun a b => le a b = true) _ hab]
      have hle : ∀ c ∈ (b :: l).filter p, le a c = true := by
        intro c hc
        rcases List.mem_cons.1 (List.mem_filter.1 hc).1 with rfl | hc
        · exact hab
        · exact trans a b c hab (hb c hc)
      cases hp : p a with
      | false => simp [List.filter_cons, hp]
      | true =>
        rw [List.filter_cons, if_pos hp, if_pos rfl]
        cases hf : (b :: l).filter p with
        | nil => rfl
        | cons c cs => rw [List.orderedInsert_cons_of_le (r := fun a b => le a b = true) _ (hle c (hf ▸ List.mem_cons_self))]
    · rw [List.orderedInsert_of_not_le (r := fun a b => le a b = true) _ hab, List.filter_cons, List.filter_cons, ih hl]
      cases hp : p b with
      | false => simp
      | true =>
        cases p a with
        | false => simp
        | true => simp [List.orderedInsert_of_not_le (r := fun a b => le a b = true) _ hab]

/-- A part of the rows comes in the order in which it stands among all of them. -/
theorem filter_orderBy (total : ∀ a b, le a b = true ∨ le b a = true)
    (trans : ∀ a b c, le a b = true → le b c = true → le a c = true) (p : α → Bool) (l : List α) :
    (orderBy le l).filter p = orderBy le (l.filter p) := by
  induction l with
  | nil => rfl
  | cons a l ih =>
    have hstep : orderBy le (a :: l) = (orderBy le l).orderedInsert (fun a b => le a b = true) a := rfl
    rw [hstep, filter_orderedInsert trans p a (pairwise_orderBy total trans l), ih, List.filter_cons]
    split <;> rfl

end Filter

/-- What a filter keeps of the first `n` rows are the first of the rows it keeps. -/
theorem filter_take_isPrefix (p : α → Bool) (n : ℕ) (l : List α) :
    (l.take n).filter p <+: (l.filter p).take n := by
  induction l generalizing n with
  | nil => simp
  | cons a l ih =>
    cases n with
    | zero => simp
    | succ n =>
      rw [List.take_succ_cons, List.filter_cons, List.filter_cons]
      split
      · rw [List.take_succ_cons]
        exact List.cons_prefix_cons.2 ⟨rfl, ih n⟩
      · exact (ih n).trans (List.take_prefix_take_left (by omega))

/-- The first row of an ordered query is the first of every part that has it. -/
theorem head?_orderBy_filter {le : α → α → Bool} (total : ∀ a b, le a b = true ∨ le b a = true)
    (trans : ∀ a b c, le a b = true → le b c = true → le a c = true) {p : α → Bool} {l : List α} {x : α}
    (h : (orderBy le l).head? = some x) (hx : p x = true) :
    (orderBy le (l.filter p)).head? = some x := by
  rw [← filter_orderBy total trans]
  cases ho : orderBy le l with
  | nil => simp [ho] at h
  | cons y ys =>
    obtain rfl : y = x := by simpa [ho] using h
    simp [hx]

/-- The first row of each key, in the order of the keys; keys without a row are passed over. -/
def lookups (key : α → κ) (rows : List α) (keys : List κ) : List α :=
  keys.filterMap fun k => rows.find? fun r => key r = k

theorem mem_of_mem_lookups {key : α → κ} {rows : List α} {keys : List κ} {r : α}
    (h : r ∈ lookups key rows keys) : r ∈ rows ∧ key r ∈ keys := by
  obtain ⟨k, hk, hf⟩ := List.mem_filterMap.1 h
  have : key r = k := by simpa using List.find?_some hf
  exact ⟨List.mem_of_find?_eq_some hf, this ▸ hk⟩

/-- When every key has a row, the rows found carry exactly the keys. -/
theorem map_lookups {key : α → κ} {rows : List α} {keys : List κ}
    (h : ∀ k ∈ keys, ∃ r ∈ rows, key r = k) : (lookups key rows keys).map key = keys := by
  induction keys with
  | nil => rfl
  | cons k keys ih =>
    obtain ⟨r, hr, hk⟩ := h k (by simp)
    cases hf : rows.find? fun r => key r = k with
    | none => exact absurd (by simpa using hk) (List.find?_eq_none.1 hf r hr)
    | some r' =>
      have hk' : key r' = k := by simpa using List.find?_some hf
      have htl := ih fun k' hk' => h k' (by simp [hk'])
      simp only [lookups, List.filterMap_cons, hf, List.map_cons, hk']
      exact congrArg (k :: ·) htl

/-- The rows found carry those of the keys that have a row. -/
theorem map_lookups_filter (key : α → κ) (rows : List α) (keys : List κ) :
    (lookups key rows keys).map key = keys.filter fun k => rows.any fun r => key r = k := by
  induction keys with
  | nil => rfl
  | cons k keys ih =>
    unfold lookups at ih ⊢
    rw [List.filterMap_cons, List.filter_cons]
    cases hf : rows.find? fun r => key r = k with
    | none =>
      have hany : (rows.any fun r => key r = k) = false := by
        simpa using List.find?_eq_none.1 hf
      rw [hany]
      exact ih
    | some r =>
      have hk : key r = k := by simpa using List.find?_some hf
      have hany : (rows.any fun r => key r = k) = true :=
        List.any_eq_true.2 ⟨r, List.mem_of_find?_eq_some hf, by simpa using hk⟩
      rw [hany, if_pos rfl, List.map_cons, hk, ih]

/-- A row of its own key is found by it. -/
theorem mem_lookups {key : α → κ} {rows : List α} {keys : List κ} (hrows : (rows.map key).Nodup)
    {r : α} (hr : r ∈ rows) (hk : key r ∈ keys) : r ∈ lookups key rows keys := by
  refine List.mem_filterMap.2 ⟨key r, hk, ?_⟩
  cases hf : rows.find? fun r' => key r' = key r with
  | none => exact absurd (by simp) (List.find?_eq_none.1 hf r hr)
  | some r' =>
    have hkey : key r' = key r := by simpa using List.find?_some hf
    rw [List.inj_on_of_nodup_map hrows (List.mem_of_find?_eq_some hf) hr hkey]

/-- The rows found for distinct keys, followed by the other rows, are all rows. -/
theorem lookups_append_perm {key : α → κ} {rows : List α} {keys : List κ} (hrows : (rows.map key).Nodup)
    (hkeys : keys.Nodup) :
    (lookups key rows keys ++ rows.filter fun r => !decide (key r ∈ keys)).Perm rows := by
  have hfound : (lookups key rows keys).Nodup := by
    refine List.Nodup.of_map key ?_
    rw [map_lookups_filter]
    exact hkeys.filter _
  refine (List.perm_ext_iff_of_nodup ?_ hrows.of_map).2 fun r => ?_
  · refine List.Nodup.append hfound (hrows.of_map.filter _) fun r hr hr' => ?_
    have hout := (List.mem_filter.1 hr').2
    rw [Bool.not_eq_true', decide_eq_false_iff_not] at hout
    exact hout (mem_of_mem_lookups hr).2
  · rw [List.mem_append, List.mem_filter]
    constructor
    · rintro (hr | ⟨hr, -⟩)
      · exact (mem_of_mem_lookups hr).1
      · exact hr
    · intro hr
      by_cases hk : key r ∈ keys
      · exact .inl (mem_lookups hrows hr hk)
      · exact .inr ⟨hr, by simpa using hk⟩

/-- An element of the second list has its partner in the first. -/
theorem exists_of_forall₂ {β : Type*} {R : α → β → Prop} {l : List α} {l' : List β}
    (h : List.Forall₂ R l l') {b : β} (hb : b ∈ l') : ∃ a ∈ l, R a b := by
  induction h with
  | nil => cases hb
  | cons hab _ ih =>
    rcases List.mem_cons.1 hb with rfl | hb
    · exact ⟨_, List.mem_cons_self, hab⟩
    · obtain ⟨a, ha, hR⟩ := ih hb
      exact ⟨a, List.mem_cons_of_mem _ ha, hR⟩

end Sequence
