import Mathlib.Data.Set.Card
import Relay.Library.Transition

/-!
# A line that is closed

Members stand in a line, some others are on their way to it, and nobody else comes.  A step may let
one of those on their way join, or let members leave; who has left does not come back.

* `ClosedLine`: the states of a machine show such a line;
* `ClosedLine.length_le`: the line does not grow, whoever is not counted;
* `Rounds`: rounds in each of which some members are picked and leave;
* `Rounds.bound`: there are only as many rounds as the line is long.
-/

namespace Transition

variable {σ ε ι κ : Type*}

/-- In the states that meet `I`, the members of `line` are known, those of `coming` may still join it,
and nobody else does. -/
structure ClosedLine (M : Machine σ ε) (I : σ → Prop) (line : σ → Set ι) (coming : σ → Set κ)
    (known : σ → Set ι) : Prop where
  keep : ∀ s e t, I s → M.step s e t → I t
  finite_line : ∀ s, I s → (line s).Finite
  finite_coming : ∀ s, I s → (coming s).Finite
  line_known : ∀ s, I s → line s ⊆ known s
  known_mono : ∀ s e t, I s → M.step s e t → known s ⊆ known t
  step : ∀ s e t, I s → M.step s e t → (line t ⊆ line s ∧ coming t ⊆ coming s) ∨
    ∃ k ∈ coming s, ∃ i, i ∉ known s ∧ line t ⊆ insert i (line s) ∧ coming t ⊆ coming s \ {k}

namespace ClosedLine

variable {M : Machine σ ε} {I : σ → Prop} {line : σ → Set ι} {coming : σ → Set κ} {known : σ → Set ι}
  {s t u : σ} {e : ε} {es fs : List ε} {D : Set ι}

/-- Those in the line and those on their way, but for the members of `D`. -/
noncomputable def size (line : σ → Set ι) (coming : σ → Set κ) (D : Set ι) (s : σ) : ℕ :=
  (line s \ D).ncard + (coming s).ncard

theorem size_step (h : ClosedLine M I line coming known) (hs : I s) (hstep : M.step s e t) (D : Set ι) :
    size line coming D t ≤ size line coming D s := by
  have hline := h.finite_line s hs
  have hcoming := h.finite_coming s hs
  unfold size
  rcases h.step s e t hs hstep with ⟨hl, hc⟩ | ⟨k, hk, i, -, hl, hc⟩
  · exact Nat.add_le_add (Set.ncard_le_ncard (Set.sdiff_subset_sdiff_left hl) hline.sdiff)
      (Set.ncard_le_ncard hc hcoming)
  · -- one joins, and is no longer on the way
    have hjoin : (line t \ D).ncard ≤ (line s \ D).ncard + 1 := by
      have hsub : line t \ D ⊆ insert i (line s \ D) := by
        rintro x ⟨hx, hD⟩
        rcases hl hx with rfl | hx
        · exact Set.mem_insert _ _
        · exact Set.mem_insert_of_mem _ ⟨hx, hD⟩
      exact (Set.ncard_le_ncard hsub (hline.sdiff.insert i)).trans (Set.ncard_insert_le _ _)
    have hway : (coming t).ncard + 1 ≤ (coming s).ncard := by
      have hle := Set.ncard_le_ncard hc hcoming.sdiff
      have hpos := Set.ncard_sdiff_singleton_add_one hk hcoming
      omega
    omega

/-- **The line does not grow.** -/
theorem size_le (h : ClosedLine M I line coming known) (hs : I s) (tr : Trail M s es t) (D : Set ι) :
    size line coming D t ≤ size line coming D s := by
  induction tr with
  | stay => exact le_rfl
  | move head _ ih => exact (ih (h.keep _ _ _ hs head)).trans (h.size_step hs head D)

theorem invariant (h : ClosedLine M I line coming known) (hs : I s) (tr : Trail M s es t) : I t :=
  tr.invariant h.keep hs

/-- Who has left does not come back. -/
theorem left_step (h : ClosedLine M I line coming known) (hs : I s) (hstep : M.step s e t) {i : ι}
    (hknown : i ∈ known s) (hleft : i ∉ line s) : i ∈ known t ∧ i ∉ line t := by
  refine ⟨h.known_mono s e t hs hstep hknown, fun hi => ?_⟩
  rcases h.step s e t hs hstep with ⟨hl, -⟩ | ⟨k, -, j, hj, hl, -⟩
  · exact hleft (hl hi)
  · rcases hl hi with rfl | hi
    · exact hj hknown
    · exact hleft hi

theorem left (h : ClosedLine M I line coming known) (hs : I s) (tr : Trail M s es t) {i : ι}
    (hknown : i ∈ known s) (hleft : i ∉ line s) : i ∉ line t := by
  induction tr with
  | stay => exact hleft
  | move head _ ih =>
    obtain ⟨hknown, hleft⟩ := h.left_step hs head hknown hleft
    exact ih (h.keep _ _ _ hs head) hknown hleft

/-- When members have left, the line is shorter by as many. -/
theorem size_served (h : ClosedLine M I line coming known) (hs : I s) (tr : Trail M s es t)
    (hD : D ⊆ line s) (hserved : ∀ i ∈ D, i ∉ line t) :
    size line coming ∅ t + D.ncard ≤ size line coming ∅ s := by
  have hline := h.finite_line s hs
  have hle := h.size_le hs tr D
  have hsame : line t \ D = line t := by
    ext i
    exact ⟨fun hi => hi.1, fun hi => ⟨hi, fun hiD => hserved i hiD hi⟩⟩
  have hsplit := Set.ncard_sdiff_add_ncard_of_subset hD hline
  unfold size at hle ⊢
  rw [hsame] at hle
  simp only [Set.sdiff_empty]
  omega

end ClosedLine

/-- Rounds, in each of which at least `n` members of the line are picked and then leave it. -/
inductive Rounds (M : Machine σ ε) (line : σ → Set ι) (n : ℕ) : ℕ → σ → σ → Prop
  | nil (s : σ) : Rounds M line n 0 s s
  | cons {k : ℕ} {s t u v : σ} {es fs : List ε} {D : Set ι} (before : Trail M s es t) (picked : D ⊆ line t)
      (many : n ≤ D.ncard) (after : Trail M t fs u) (served : ∀ i ∈ D, i ∉ line u)
      (rest : Rounds M line n k u v) : Rounds M line n (k + 1) s v

section Rounds

variable {M : Machine σ ε} {I : σ → Prop} {line : σ → Set ι} {coming : σ → Set κ} {known : σ → Set ι}
  {n k : ℕ} {s t : σ}

theorem Rounds.invariant (h : Rounds M line n k s t) (closed : ClosedLine M I line coming known)
    (hs : I s) : I t := by
  induction h with
  | nil s => exact hs
  | cons before _ _ after _ _ ih => exact ih (closed.invariant (closed.invariant hs before) after)

/-- **Each round shortens the line.** -/
theorem Rounds.bound (h : Rounds M line n k s t) (closed : ClosedLine M I line coming known) (hs : I s) :
    ClosedLine.size line coming ∅ t + n * k ≤ ClosedLine.size line coming ∅ s := by
  induction h with
  | nil s => exact le_rfl
  | cons before picked many after served _ ih =>
    have ht := closed.invariant hs before
    have hbefore := closed.size_le hs before ∅
    have hserved := closed.size_served ht after picked served
    have hrest := ih (closed.invariant ht after)
    rw [Nat.mul_succ]
    omega

end Rounds

end Transition
