import Relay.Library.Upsert

/-!
# Books of names

A book tells for each name the identifier that the name got when it was first written, and what is
written under it now.  A table is a book by any columns that a constraint keeps unique, and an upsert
writes one entry of it.

* `Book.Writes`: one entry is written, under the identifier it has or under a new one;
* `Book.Lives`, `Book.Writes.lives`: identifiers stay, and entries become what they may become;
* `Table.book`: the book of a table, `Unique.book_create`, `Unique.book_update`;
* `Book.under`: the names of one book within the names of another, and what it is to write there.
-/

namespace Relational

universe u v w x

/-- What is written under each name, with the identifier of the entry. -/
abbrev Book (α : Type u) (κ : Type v) (β : Type w) := α → Option (κ × β)

namespace Book

variable {α : Type u} {κ : Type v} {β : Type w}

/-- No two names have one identifier. -/
def Distinct (g : Book α κ β) : Prop :=
  ∀ a a' i b b', g a = some (i, b) → g a' = some (i, b') → a = a'

/-- An identifier that no name has. -/
def Fresh (g : Book α κ β) (i : κ) : Prop := ∀ a e, g a = some e → e.1 ≠ i

/-- Names keep their identifiers, and what is written under them becomes what `R` lets it become. -/
def Lives (R : β → β → Prop) (g g' : Book α κ β) : Prop :=
  ∀ a i b, g a = some (i, b) → ∃ b', g' a = some (i, b') ∧ R b b'

section Lives

variable {R : β → β → Prop} {g g' g'' : Book α κ β}

theorem Lives.refl (hR : ∀ b, R b b) (g : Book α κ β) : Lives R g g := fun _ _ b h => ⟨b, h, hR b⟩

theorem Lives.trans (hR : ∀ {a b c}, R a b → R b c → R a c) (h : Lives R g g') (k : Lives R g' g'') :
    Lives R g g'' := by
  intro a i b hb
  obtain ⟨b', hb', hbb'⟩ := h a i b hb
  obtain ⟨c, hc, hbc⟩ := k a i b' hb'
  exact ⟨c, hc, hR hbb' hbc⟩

end Lives

variable [DecidableEq α]

/-- Writes `b` under the name `a`, which has the identifier `i` or gets it as a new one. -/
structure Writes (g : Book α κ β) (a : α) (i : κ) (b : β) (created : Bool) (g' : Book α κ β) : Prop where
  written : g' = Function.update g a (some (i, b))
  new : created = true → g a = none ∧ g.Fresh i
  old : created = false → ∃ c, g a = some (i, c)

namespace Writes

variable {g g' : Book α κ β} {a : α} {i : κ} {b : β} {created : Bool}

/-- What is written is found. -/
theorem found (h : Writes g a i b created g') : g' a = some (i, b) := by
  rw [h.written, Function.update_self]

theorem other (h : Writes g a i b created g') {a' : α} (ha : a' ≠ a) : g' a' = g a' := by
  rw [h.written, Function.update_of_ne ha]

/-- A name that was written has the identifier that is written. -/
theorem id_eq (h : Writes g a i b created g') {e : κ × β} (he : g a = some e) : e.1 = i := by
  cases created with
  | true => rw [(h.new rfl).1] at he; cases he
  | false =>
    obtain ⟨c, hc⟩ := h.old rfl
    rw [hc] at he
    cases he
    rfl

/-- Names live on if what stood under the name may become what is written. -/
theorem lives {R : β → β → Prop} (h : Writes g a i b created g') (hR : ∀ c, R c c)
    (hb : ∀ c, g a = some (i, c) → R c b) : Lives R g g' := by
  intro a' j c hc
  by_cases ha : a' = a
  · subst ha
    obtain rfl : j = i := h.id_eq hc
    exact ⟨b, h.found, hb c hc⟩
  · exact ⟨c, (h.other ha).trans hc, hR c⟩

/-- What is written as it was changes nothing. -/
theorem rewrite (h : g a = some (i, b)) : Writes g a i b false g where
  written := by rw [← h, Function.update_eq_self]
  new hcreated := by cases hcreated
  old _ := ⟨b, h⟩

end Writes

/-! ### Names within names -/

section Under

variable {μ : Type x} {γ : Type*} {ι : Type*}

omit [DecidableEq α] in
/-- The names of `inner` by the identifiers of `outer`, as names within the names of `outer`. -/
def under (outer : Book α κ γ) (inner : Book (κ × μ) ι β) : Book (α × μ) ι β :=
  fun a => (outer a.1).bind fun e => inner (e.1, a.2)

variable {outer outer' : Book α κ γ} {inner inner' : Book (κ × μ) ι β} {a : α} {m : μ} {k : κ} {c : γ}
  {i : ι} {b : β} {created : Bool}

omit [DecidableEq α] in
theorem under_eq_some : under outer inner (a, m) = some (i, b) ↔
    ∃ k c, outer a = some (k, c) ∧ inner (k, m) = some (i, b) := by
  simp [under, Option.bind_eq_some_iff]

omit [DecidableEq α] in
theorem under_of (h : outer a = some (k, c)) : under outer inner (a, m) = inner (k, m) := by
  simp [under, h]

variable [DecidableEq κ] [DecidableEq μ]

/-- An entry written within a name. -/
theorem Writes.under (h : Writes inner (k, m) i b created inner') (hk : outer a = some (k, c))
    (distinct : outer.Distinct) :
    Writes (under outer inner) (a, m) i b created (under outer inner') where
  written := by
    funext ⟨a', m'⟩
    by_cases ha : (a', m') = (a, m)
    · cases ha
      rw [Function.update_self, under_of hk, h.found]
    · rw [Function.update_of_ne ha]
      cases hout : outer a' with
      | none => simp [Book.under, hout]
      | some e =>
        obtain ⟨k', c'⟩ := e
        rw [under_of hout, under_of hout]
        refine h.other fun heq => ha ?_
        cases heq
        rw [distinct a' a k c' c hout hk]
  new hcreated := by
    obtain ⟨hfree, hfresh⟩ := h.new hcreated
    refine ⟨(under_of hk).trans hfree, fun a' e he => ?_⟩
    obtain ⟨k', c', -, he⟩ := under_eq_some.1 (show Book.under outer inner (a'.1, a'.2) = some (e.1, e.2) from he)
    exact hfresh _ _ he
  old hcreated := by
    obtain ⟨d, hd⟩ := h.old hcreated
    exact ⟨d, (under_of hk).trans hd⟩

omit [DecidableEq κ] [DecidableEq μ] in
/-- An entry written under a name keeps the names within: under a new identifier there are none. -/
theorem Writes.under_eq (h : Writes outer a k c created outer')
    (empty : created = true → ∀ m, inner (k, m) = none) :
    Book.under outer' inner = Book.under outer inner := by
  funext ⟨a', m⟩
  by_cases ha : a' = a
  · subst ha
    rw [under_of h.found]
    cases hcreated : created with
    | true => simp [Book.under, (h.new hcreated).1, empty hcreated m]
    | false =>
      obtain ⟨d, hd⟩ := h.old hcreated
      rw [under_of hd]
  · simp [Book.under, h.other ha]

end Under

end Book

/-! ### The book of a table -/

namespace Table

variable {ρ : Type u} {κ : Type v} [Keyed ρ κ] {α : Type w} {β : Type x} [DecidableEq α]

/-- What a table tells by the columns, with the keys of its rows. -/
def book (t : Table ρ) (columns : ρ → α) (value : ρ → β) : Book α κ β :=
  fun a => (t.select columns a).map fun r => (key r, value r)

variable {t t' : Table ρ} {columns columns' : ρ → α} {value : ρ → β} {r : ρ} {a : α} {k : κ} {b : β}

theorem Unique.book_eq_some (h : t.Unique columns) : t.book columns value a = some (k, b) ↔
    ∃ r ∈ t, columns r = a ∧ key r = k ∧ value r = b := by
  unfold book
  rw [Option.map_eq_some_iff]
  constructor
  · rintro ⟨r, hr, heq⟩
    cases heq
    obtain ⟨hmem, hcolumns⟩ := h.select_eq_some.1 hr
    exact ⟨r, hmem, hcolumns, rfl, rfl⟩
  · rintro ⟨r, hmem, hcolumns, rfl, rfl⟩
    exact ⟨r, h.select_eq_some.2 ⟨hmem, hcolumns⟩, rfl⟩

theorem Unique.book_of_mem (h : t.Unique columns) (hr : r ∈ t) :
    t.book columns value (columns r) = some (key r, value r) :=
  h.book_eq_some.2 ⟨r, hr, rfl, rfl, rfl⟩

/-- A row has one value of the columns. -/
theorem Unique.book_distinct (h : t.Unique columns) : (t.book columns value).Distinct := by
  intro a a' i b b' ha ha'
  obtain ⟨r, hr, rfl, hk, -⟩ := h.book_eq_some.1 ha
  obtain ⟨r', hr', rfl, hk', -⟩ := h.book_eq_some.1 ha'
  rw [eq_of_key hr hr' (hk.trans hk'.symm)]

variable [DecidableEq κ]

/-- A new row writes the book, under a new identifier. -/
theorem Unique.book_create (h : t.Unique columns) (hr : t.insert? r = some t')
    (same : ∀ x ∈ t, columns' x = columns x) (free : t.select columns (columns' r) = none) :
    (t.book columns value).Writes (columns' r) (key r) (value r) true (t'.book columns' value) where
  written := by
    unfold book
    rw [(h.select_create hr same free).2]
    funext a
    simp only [Function.update_apply]
    split <;> rfl
  new _ := by
    refine ⟨by simp [book, free], ?_⟩
    rintro a ⟨i, b⟩ ha rfl
    obtain ⟨x, hx, -, hk, -⟩ := h.book_eq_some.1 ha
    exact fresh_of_insert? hr x hx hk
  old hcreated := by cases hcreated

/-- A rewritten row writes the book, under its identifier. -/
theorem Unique.book_update (h : t.Unique columns) {f : Rewrite ρ}
    (same : ∀ x, columns (f x) = columns x) (hr : r ∈ t) :
    (t.book columns value).Writes (columns r) (key r) (value (f r)) false
      ((t.update (key r) f).book columns value) where
  written := by
    unfold book
    rw [h.select_update same hr]
    funext a
    simp only [Function.update_apply]
    split
    · simp [f.keeps]
    · rfl
  new hcreated := by cases hcreated
  old _ := ⟨value r, h.book_of_mem hr⟩

end Table

end Relational
