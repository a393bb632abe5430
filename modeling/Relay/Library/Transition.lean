import Mathlib.Data.List.Basic
import Mathlib.Order.Basic
import Mathlib.Tactic.Common

/-!
# Machines, trails and what holds along them

A machine is a set of start states and a labelled step relation.  A *trail* is a finite run,
recorded by the list of its events.

* `Trail.invariant`, `Reachable.invariant`: what every step keeps, every run keeps;
* `Trail.relates`: a reflexive transitive relation between the two ends of each step relates
  the two ends of each trail;
* `Trail.exists_switch`: a predicate that is false at the start of a trail and true at its end
  becomes true at one of its steps;
* `Trail.unique`: where events determine their steps, they determine the end of a trail;
* `Trail.invariant_fold`, `Reachable.induct_fold`: what holds along a run of its states and of an
  observer of its events;
* `Machine.guarded`: the runs whose steps all meet a condition, with `Trail.guarded_or`;
* `Machine.ofLabels`, `runLabels`: machines of step functions with outputs, and their runs by
  evaluation;
* `CanReach`: some run of chosen events leads to a goal, with the rule `CanReach.of_measure`.
-/

namespace Transition

universe u v

/-- Start states and labelled steps. -/
structure Machine (σ : Type u) (ε : Type v) where
  start : σ → Prop
  step : σ → ε → σ → Prop

variable {σ : Type u} {ε : Type v}

/-- The machine of a partial step function. -/
def Machine.ofNext (start : σ → Prop) (next : σ → ε → Option σ) : Machine σ ε where
  start := start
  step s e s' := next s e = some s'

/-- The machine whose steps are those that meet the condition `C`. -/
def Machine.guarded (M : Machine σ ε) (C : σ → ε → Prop) : Machine σ ε where
  start := M.start
  step s e s' := C s e ∧ M.step s e s'

/-- `Trail M s es s'`: the events `es`, in order, lead from `s` to `s'`. -/
inductive Trail (M : Machine σ ε) : σ → List ε → σ → Prop
  | stay (s : σ) : Trail M s [] s
  | move {s t r : σ} {e : ε} {es : List ε} (head : M.step s e t) (tail : Trail M t es r) :
      Trail M s (e :: es) r

/-- The states a run from a start state visits. -/
def Reachable (M : Machine σ ε) (s : σ) : Prop := ∃ s₀ es, M.start s₀ ∧ Trail M s₀ es s

variable {M : Machine σ ε} {s t r : σ} {e : ε} {es fs : List ε}

namespace Trail

theorem single (h : M.step s e t) : Trail M s [e] t := .move h (.stay t)

theorem append (h : Trail M s es t) (k : Trail M t fs r) : Trail M s (es ++ fs) r := by
  induction h with
  | stay => simpa using k
  | move head _ ih => exact .move head (ih k)

@[simp] theorem nil_iff : Trail M s [] t ↔ s = t :=
  ⟨fun h => by cases h; rfl, fun h => h ▸ .stay s⟩

@[simp] theorem cons_iff : Trail M s (e :: es) r ↔ ∃ t, M.step s e t ∧ Trail M t es r := by
  constructor
  · rintro (_ | ⟨head, tail⟩)
    exact ⟨_, head, tail⟩
  · rintro ⟨t, head, tail⟩
    exact .move head tail

/-- A trail along a concatenation passes through a middle state. -/
theorem append_iff : Trail M s (es ++ fs) r ↔ ∃ t, Trail M s es t ∧ Trail M t fs r := by
  induction es generalizing s with
  | nil => simp
  | cons e es ih =>
    simp only [List.cons_append, cons_iff, ih]
    constructor
    · rintro ⟨m, hm, t, h, k⟩
      exact ⟨t, ⟨m, hm, h⟩, k⟩
    · rintro ⟨t, ⟨m, hm, h⟩, k⟩
      exact ⟨m, hm, t, h, k⟩

theorem invariant {I : σ → Prop} (keep : ∀ s e t, I s → M.step s e t → I t)
    (h : Trail M s es t) (hs : I s) : I t := by
  induction h with
  | stay => exact hs
  | move head _ ih => exact ih (keep _ _ _ hs head)

/-- A preorder that relates the ends of every step from an invariant state relates the ends of
every trail from one. -/
theorem relates {I : σ → Prop} {R : σ → σ → Prop} (refl : ∀ s, R s s)
    (trans : ∀ {a b c}, R a b → R b c → R a c)
    (keep : ∀ s e t, I s → M.step s e t → I t) (grow : ∀ s e t, I s → M.step s e t → R s t)
    (h : Trail M s es t) (hs : I s) : R s t := by
  induction h with
  | stay => exact refl _
  | move head _ ih => exact trans (grow _ _ _ hs head) (ih (keep _ _ _ hs head))

/-- Where a predicate turns true along a trail. -/
theorem exists_switch {P : σ → Prop} (h : Trail M s es t) (hs : ¬ P s) (ht : P t) :
    ∃ es₁ e es₂ a b, es = es₁ ++ e :: es₂ ∧ Trail M s es₁ a ∧ ¬ P a ∧ M.step a e b ∧ P b ∧
      Trail M b es₂ t := by
  induction h with
  | stay => exact absurd ht hs
  | @move s m r e es head tail ih =>
    by_cases hm : P m
    · exact ⟨[], e, es, s, m, rfl, .stay s, hs, head, hm, tail⟩
    · obtain ⟨es₁, e', es₂, a, b, rfl, before, ha, hstep, hb, after⟩ := ih hm ht
      exact ⟨e :: es₁, e', es₂, a, b, rfl, .move head before, ha, hstep, hb, after⟩

/-- Events that determine their steps determine the trail. -/
theorem unique (hstep : ∀ s e t t', M.step s e t → M.step s e t' → t = t') {t' : σ}
    (h : Trail M s es t) (h' : Trail M s es t') : t = t' := by
  induction h with
  | stay => exact nil_iff.1 h'
  | move head _ ih =>
    obtain ⟨m, head', tail'⟩ := cons_iff.1 h'
    obtain rfl := hstep _ _ _ _ head head'
    exact ih tail'

/-- The trail of a machine that can do `f s e` on every event `e`. -/
theorem of_foldl {f : σ → ε → σ} (h : ∀ s e, M.step s e (f s e)) (s : σ) (es : List ε) :
    Trail M s es (es.foldl f s) := by
  induction es generalizing s with
  | nil => exact .stay s
  | cons e es ih => exact .move (h s e) (ih _)

/-- What every step keeps of its states and of an observer of its events, every run keeps. -/
theorem invariant_fold {ω : Type*} {observe : ω → ε → ω} {I : σ → ω → Prop} {w : ω}
    (keep : ∀ s w e t, I s w → M.step s e t → I t (observe w e)) (h : Trail M s es t) (init : I s w) :
    I t (es.foldl observe w) := by
  induction h generalizing w with
  | stay => exact init
  | move head _ ih => exact ih (keep _ _ _ _ init head)

/-- A run whose steps all meet a condition is a run. -/
theorem of_guarded {C : σ → ε → Prop} (h : Trail (M.guarded C) s es t) : Trail M s es t := by
  induction h with
  | stay => exact .stay _
  | move head _ ih => exact .move head.2 ih

/-- A weaker condition. -/
theorem guarded_imp {C D : σ → ε → Prop} (h : Trail (M.guarded C) s es t) (imp : ∀ s e, C s e → D s e) :
    Trail (M.guarded D) s es t := by
  induction h with
  | stay => exact .stay _
  | move head _ ih => exact .move ⟨imp _ _ head.1, head.2⟩ ih

/-- If every step outside the condition brings `D` about and every step keeps it, a run meets the
condition throughout or ends in `D`. -/
theorem guarded_or {C : σ → ε → Prop} {I D : σ → Prop} (keep : ∀ s e t, I s → M.step s e t → I t)
    (stay : ∀ s e t, I s → D s → M.step s e t → D t)
    (bring : ∀ s e t, I s → ¬ C s e → M.step s e t → D t) (h : Trail M s es t) (hs : I s) :
    Trail (M.guarded C) s es t ∨ D t := by
  induction h with
  | stay => exact .inl (.stay _)
  | @move s m r e es head tail ih =>
    have hm := keep _ _ _ hs head
    by_cases hC : C s e
    · rcases ih hm with h | h
      · exact .inl (.move ⟨hC, head⟩ h)
      · exact .inr h
    · have hboth : I r ∧ D r := tail.invariant (I := fun s => I s ∧ D s)
        (fun _ _ _ ⟨hI, hD⟩ hstep => ⟨keep _ _ _ hI hstep, stay _ _ _ hI hD hstep⟩)
        ⟨hm, bring _ _ _ hs hC head⟩
      exact .inr hboth.2

end Trail

namespace Reachable

theorem of_start (h : M.start s) : Reachable M s := ⟨s, [], h, .stay s⟩

theorem trail (h : Reachable M s) (k : Trail M s es t) : Reachable M t := by
  obtain ⟨s₀, ds, h₀, hd⟩ := h
  exact ⟨s₀, ds ++ es, h₀, hd.append k⟩

theorem step (h : Reachable M s) (k : M.step s e t) : Reachable M t := h.trail (.single k)

/-- What holds at the start and is kept by every step holds of every reachable state. -/
theorem invariant {I : σ → Prop} (init : ∀ s, M.start s → I s)
    (keep : ∀ s e t, I s → M.step s e t → I t) (h : Reachable M s) : I s := by
  obtain ⟨s₀, es, h₀, tr⟩ := h
  exact tr.invariant keep (init s₀ h₀)

/-- The same with earlier invariants at hand: a step is only looked at from a reachable state. -/
theorem induct {I : σ → Prop} (init : ∀ s, M.start s → I s)
    (keep : ∀ s e t, Reachable M s → I s → M.step s e t → I t) (h : Reachable M s) : I s := by
  refine (invariant (I := fun s => Reachable M s ∧ I s) ?_ ?_ h).2
  · exact fun s hs => ⟨of_start hs, init s hs⟩
  · exact fun s e t ⟨hr, hi⟩ k => ⟨hr.step k, keep s e t hr hi k⟩

/-- The same of a run together with what an observer has gathered from its events. -/
theorem induct_fold {ω : Type*} {observe : ω → ε → ω} {I : σ → ω → Prop} {w : ω}
    (keep : ∀ s w e t, Reachable M s → I s w → M.step s e t → I t (observe w e))
    (hs : Reachable M s) (init : I s w) (h : Trail M s es t) : I t (es.foldl observe w) := by
  refine (h.invariant_fold (I := fun s w => Reachable M s ∧ I s w) ?_ ⟨hs, init⟩).2
  exact fun s w e t ⟨hr, hi⟩ k => ⟨hr.step k, keep s w e t hr hi k⟩

theorem of_guarded {C : σ → ε → Prop} (h : Reachable (M.guarded C) s) : Reachable M s := by
  obtain ⟨s₀, es, h₀, tr⟩ := h
  exact ⟨s₀, es, h₀, tr.of_guarded⟩

end Reachable

/-- Some run from `s` whose events are all `allowed` ends in a state that meets `goal`. -/
def CanReach (M : Machine σ ε) (allowed : ε → Prop) (goal : σ → Prop) (s : σ) : Prop :=
  ∃ es t, (∀ e ∈ es, allowed e) ∧ Trail M s es t ∧ goal t

namespace CanReach

variable {allowed : ε → Prop} {goal : σ → Prop}

theorem of_goal (h : goal s) : CanReach M allowed goal s := ⟨[], s, by simp, .stay s, h⟩

theorem of_trail (ha : ∀ e ∈ es, allowed e) (h : Trail M s es t)
    (k : CanReach M allowed goal t) : CanReach M allowed goal s := by
  obtain ⟨fs, r, hf, tr, hg⟩ := k
  refine ⟨es ++ fs, r, fun e he => ?_, h.append tr, hg⟩
  rcases List.mem_append.1 he with he | he
  · exact ha e he
  · exact hf e he

/-- If every state that meets `I` reaches the goal or, by allowed events, a state that meets `I`
with a smaller measure, then every state that meets `I` reaches the goal. -/
theorem of_measure {I : σ → Prop} (measure : σ → ℕ)
    (advance : ∀ s, I s → CanReach M allowed (fun t => goal t ∨ (I t ∧ measure t < measure s)) s)
    (hs : I s) : CanReach M allowed goal s := by
  induction hn : measure s using Nat.strongRecOn generalizing s with
  | _ n ih =>
    obtain ⟨es, t, ha, tr, hg | ⟨hI, hlt⟩⟩ := advance s hs
    · exact ⟨es, t, ha, tr, hg⟩
    · exact of_trail ha tr (ih (measure t) (hn ▸ hlt) hI rfl)

end CanReach

/-! ### Step functions with outputs -/

section Labels

universe w x

variable {ι : Type w} {ω : Type x}

/-- The machine of a partial step function; its events are labels with what the steps put out. -/
def Machine.ofLabels (start : σ → Prop) (next : σ → ι → Option (σ × ω)) : Machine σ (ι × ω) where
  start := start
  step s e s' := next s e.1 = some (s', e.2)

/-- The run along a list of labels, if each applies and meets a condition. -/
def runLabels (next : σ → ι → Option (σ × ω)) (ok : σ → ι → Bool) :
    List ι → σ → Option (List (ι × ω) × σ)
  | [], s => some ([], s)
  | l :: ls, s =>
    if ok s l then
      (next s l).bind fun x => (runLabels next ok ls x.1).map fun y => ((l, x.2) :: y.1, y.2)
    else none

variable {start : σ → Prop} {next : σ → ι → Option (σ × ω)} {ok : σ → ι → Bool} {ls : List ι}
  {os : List (ι × ω)}

theorem trail_of_runLabels (h : runLabels next ok ls s = some (os, t)) :
    Trail ((Machine.ofLabels start next).guarded fun s e => ok s e.1 = true) s os t := by
  induction ls generalizing s os with
  | nil => cases h; exact .stay _
  | cons l ls ih =>
    unfold runLabels at h
    split at h
    · rename_i hok
      obtain ⟨⟨m, o⟩, hnext, h⟩ := Option.bind_eq_some_iff.1 h
      obtain ⟨⟨rest, r⟩, hrest, heq⟩ := Option.map_eq_some_iff.1 h
      cases heq
      exact .move ⟨hok, hnext⟩ (ih hrest)
    · cases h

theorem labels_of_runLabels (h : runLabels next ok ls s = some (os, t)) : os.map Prod.fst = ls := by
  induction ls generalizing s os with
  | nil => cases h; rfl
  | cons l ls ih =>
    unfold runLabels at h
    split at h
    · obtain ⟨⟨m, o⟩, -, h⟩ := Option.bind_eq_some_iff.1 h
      obtain ⟨⟨rest, r⟩, hrest, heq⟩ := Option.map_eq_some_iff.1 h
      cases heq
      rw [List.map_cons, ih hrest]
    · cases h

/-- A run under a condition that is found by evaluation. -/
theorem exists_of_runLabels {p : List (ι × ω) × σ → Bool}
    (h : ((runLabels next ok ls s).any p) = true) :
    ∃ os t, Trail ((Machine.ofLabels start next).guarded fun s e => ok s e.1 = true) s os t ∧
      os.map Prod.fst = ls ∧ p (os, t) = true := by
  obtain ⟨⟨os, t⟩, hrun, hp⟩ := (Option.any_eq_true _ _).1 h
  exact ⟨os, t, trail_of_runLabels hrun, labels_of_runLabels hrun, hp⟩

end Labels

end Transition
