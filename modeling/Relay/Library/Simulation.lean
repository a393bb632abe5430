import Relay.Library.Transition

/-!
# Runs seen from one side

* `Picks`: a trail with those of its events that meet a condition where they happen;
* `Picks.simulate`: where one machine makes the selected steps of another, and steps of no
  concern for the others, it has a run that shows exactly the selected events;
* `Agrees`: two results of which one is the other as a function shows it, a kind of error aside.
-/

namespace Transition

universe u v w

variable {σ : Type u} {τ : Type w} {ε : Type v}

/-- A trail, its events and those of them that meet the condition `C` where they happen. -/
inductive Picks (M : Machine σ ε) (C : σ → ε → Prop) : σ → List ε → List ε → σ → Prop
  | stay (s : σ) : Picks M C s [] [] s
  | take {s t r : σ} {e : ε} {es cs : List ε} (chosen : C s e) (head : M.step s e t)
      (tail : Picks M C t es cs r) : Picks M C s (e :: es) (e :: cs) r
  | skip {s t r : σ} {e : ε} {es cs : List ε} (passed : ¬ C s e) (head : M.step s e t)
      (tail : Picks M C t es cs r) : Picks M C s (e :: es) cs r

variable {M : Machine σ ε} {N : Machine τ ε} {C : σ → ε → Prop} {s s' : σ} {es cs : List ε}

theorem Picks.trail (h : Picks M C s es cs s') : Trail M s es s' := by
  induction h with
  | stay => exact .stay _
  | take _ head _ ih => exact .move head ih
  | skip _ head _ ih => exact .move head ih

theorem Picks.sublist (h : Picks M C s es cs s') : cs.Sublist es := by
  induction h with
  | stay => exact List.Sublist.slnil
  | take _ _ _ ih => exact ih.cons_cons _
  | skip _ _ _ ih => exact ih.cons _

/-- Every trail has its selection. -/
theorem Trail.exists_picks (C : σ → ε → Prop) (h : Trail M s es s') : ∃ cs, Picks M C s es cs s' := by
  induction h with
  | stay => exact ⟨[], .stay _⟩
  | @move s t r e es head _ ih =>
    obtain ⟨cs, h⟩ := ih
    by_cases hC : C s e
    · exact ⟨e :: cs, .take hC head h⟩
    · exact ⟨cs, .skip hC head h⟩

/-- A machine `N` that keeps the relation `R` to the states of `M`, by the same step where the
event is selected and by steps that are not `shown` where it is not, has a run that shows exactly
the events selected. -/
theorem Picks.simulate {R : σ → τ → Prop} {shown : ε → Bool}
    (visible : ∀ s e, C s e → shown e = true)
    (take : ∀ s e s' t, Reachable M s → R s t → C s e → M.step s e s' →
      ∃ t', N.step t e t' ∧ R s' t')
    (skip : ∀ s e s' t, Reachable M s → R s t → ¬ C s e → M.step s e s' →
      ∃ fs t', Trail N t fs t' ∧ (∀ f ∈ fs, shown f = false) ∧ R s' t')
    (h : Picks M C s es cs s') (hs : Reachable M s) {t : τ} (hR : R s t) :
    ∃ fs t', Trail N t fs t' ∧ fs.filter shown = cs ∧ R s' t' := by
  induction h generalizing t with
  | stay => exact ⟨[], t, .stay t, rfl, hR⟩
  | take chosen head _ ih =>
    obtain ⟨t₁, hstep, hR₁⟩ := take _ _ _ _ hs hR chosen head
    obtain ⟨fs, t', tr, hfs, hR'⟩ := ih (hs.step head) hR₁
    exact ⟨_, t', .move hstep tr, by rw [List.filter_cons, if_pos (visible _ _ chosen), hfs], hR'⟩
  | skip passed head _ ih =>
    obtain ⟨gs, t₁, tr₁, hgs, hR₁⟩ := skip _ _ _ _ hs hR passed head
    obtain ⟨fs, t', tr, hfs, hR'⟩ := ih (hs.step head) hR₁
    refine ⟨gs ++ fs, t', tr₁.append tr, ?_, hR'⟩
    rw [List.filter_append, List.filter_eq_nil_iff.2 fun f hf => by simp [hgs f hf], hfs,
      List.nil_append]

/-! ### Results seen from one side -/

/-- The result `y` is the result `x` as `f` shows it, unless `x` is an error of a kind that `y`
need not share. -/
def Agrees {ι : Type*} {α β : Type u} (lost : ι → Prop) (f : α → β) : Except ι α → Except ι β → Prop
  | .ok a, y => y = .ok (f a)
  | .error e, y => lost e ∨ y = .error e

namespace Agrees

variable {ι : Type*} {α α' β β' : Type u} {lost : ι → Prop} {f : α → β} {g : α' → β'}
  {x : Except ι α} {y : Except ι β}

theorem ok {a : α} {b : β} (h : b = f a) : Agrees lost f (.ok a) (.ok b) := congrArg Except.ok h

theorem error (e : ι) : Agrees lost f (.error e) (.error e) := .inr rfl

theorem lost_error {e : ι} (h : lost e) : Agrees lost f (.error e) y := .inl h

theorem mono {lost' : ι → Prop} (h : Agrees lost f x y) (hlost : ∀ e, lost e → lost' e) :
    Agrees lost' f x y := by
  cases x with
  | ok a => exact h
  | error e => exact h.imp_left (hlost e)

/-- Two computations that branch alike. -/
theorem ite {p : Prop} [Decidable p] {x' : Except ι α} {y' : Except ι β} (h : p → Agrees lost f x y)
    (h' : ¬ p → Agrees lost f x' y') : Agrees lost f (if p then x else x') (if p then y else y') := by
  split
  · exact h ‹_›
  · exact h' ‹_›

/-- Two computations that agree at first and whose continuations agree. -/
theorem bind {k : α → Except ι α'} {k' : β → Except ι β'} (h : Agrees lost f x y)
    (hk : ∀ a, x = .ok a → Agrees lost g (k a) (k' (f a))) : Agrees lost g (x >>= k) (y >>= k') := by
  cases x with
  | ok a =>
    obtain rfl : y = .ok (f a) := h
    exact hk a rfl
  | error e =>
    rcases h with h | rfl
    · exact .inl h
    · exact .inr rfl

theorem map {k : α → α'} {k' : β → β'} (h : Agrees lost f x y) (hk : ∀ a, x = .ok a → g (k a) = k' (f a)) :
    Agrees lost g (x.map k) (y.map k') := by
  cases x with
  | ok a =>
    obtain rfl : y = .ok (f a) := h
    exact congrArg Except.ok (hk a rfl).symm
  | error e =>
    rcases h with h | rfl
    · exact .inl h
    · exact .inr rfl

end Agrees

end Transition
