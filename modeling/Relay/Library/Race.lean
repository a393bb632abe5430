import Mathlib.Logic.Function.Basic
import Relay.Library.Transition

/-!
# Calls that race for one key

Calls share a key.  Each looks the key up: where it finds a row it answers from the row, and where
it finds none it is *in flight*, until it has written a row and committed it.  A written row is seen
by no other call before its commit, and a second writer waits for the first one.

* `Rivals`: the look-ups and the writes of the calls, with their laws;
* `race`: the interleavings of the calls;
* `Rivals.Once`: one call has created the row, and the others have answered from it;
* `Orderly`: what holds while no call looks the key up with another one in flight (`Alone`);
* `Doomed`: what holds ever after such a look-up;
* `Rivals.once_of_alone`, `Rivals.alone_of_once`: the runs that end as they should.
-/

namespace Race

open Transition

universe u v w x y z

/-- Where a call stands. -/
inductive Phase (ε : Type u) (α : Type v)
  | waiting
  | inFlight
  | ended (result : Except ε α)

/-- The committed store, the call that has written and not committed, and where the calls stand. -/
structure State (ι : Type u) (σ : Type v) (ε : Type w) (α : Type x) where
  store : σ
  writer : Option (ι × α × σ)
  phase : ι → Phase ε α

inductive Event (ι : Type u)
  | look (i : ι)
  | write (i : ι)
  | commit (i : ι)

/-- Calls `ι` that look a row up and write one where there is none.  A row keeps the print of the
request it was written for. -/
structure Rivals (ι : Type u) (σ : Type v) (ε : Type w) (α : Type x) (ρ : Type y) (φ : Type z) where
  find : σ → Option ρ
  write : ι → σ → Except ε (α × σ)
  print : ρ → φ
  asked : ι → φ
  created : ρ → α
  found : ρ → α
  conflict : ε
  write_ok : ∀ {i s a s'}, write i s = .ok (a, s') →
    ∃ row, a = created row ∧ find s' = some row ∧ print row = asked i
  write_taken : ∀ {i s row r}, find s = some row → write i s ≠ .ok r
  write_conflict : ∀ {i s}, write i s ≠ .error conflict

variable {ι : Type u} {σ : Type v} {ε : Type w} {α : Type x} {ρ : Type y} {φ : Type z}

/-- Every call has ended. -/
def State.Complete (t : State ι σ ε α) : Prop := ∀ i, ∃ r, t.phase i = .ended r

/-- No call has begun. -/
def State.start (s : σ) : State ι σ ε α := ⟨s, none, fun _ => .waiting⟩

variable [DecidableEq ι] [DecidableEq φ]

namespace Rivals

section Runs

variable (R : Rivals ι σ ε α ρ φ)

/-- The answer of a call that has found a row. -/
def answer (i : ι) (row : ρ) : Except ε α :=
  if R.print row = R.asked i then .ok (R.found row) else .error R.conflict

/-- A call with the store to itself. -/
def run (i : ι) (s : σ) : Except ε (α × σ) :=
  match R.find s with
  | some row => (R.answer i row).map fun a => (a, s)
  | none => R.write i s

/-- Where a call stands after its look-up. -/
def looked (i : ι) (s : σ) : Phase ε α :=
  match R.find s with
  | some row => .ended (R.answer i row)
  | none => .inFlight

/-- One step of one call.  A call writes only while no other one has written and not committed. -/
def next (t : State ι σ ε α) : Event ι → Option (State ι σ ε α)
  | .look i =>
    match t.phase i with
    | .waiting => some { t with phase := Function.update t.phase i (R.looked i t.store) }
    | _ => none
  | .write i =>
    match t.phase i, t.writer with
    | .inFlight, none =>
      match R.write i t.store with
      | .ok written => some { t with writer := some (i, written) }
      | .error e => some { t with phase := Function.update t.phase i (.ended (.error e)) }
    | _, _ => none
  | .commit i =>
    match t.writer with
    | some (j, a, s) =>
      if i = j then some ⟨s, none, Function.update t.phase i (.ended (.ok a))⟩ else none
    | none => none

/-- The interleavings of the calls. -/
def race (s : σ) : Machine (State ι σ ε α) (Event ι) :=
  .ofNext (fun t => t = .start s) R.next

end Runs

/-- What one step does. -/
inductive Step (R : Rivals ι σ ε α ρ φ) (t : State ι σ ε α) : Event ι → State ι σ ε α → Prop
  | found {i : ι} {row : ρ} (waiting : t.phase i = .waiting) (find : R.find t.store = some row) :
      Step R t (.look i)
        { t with phase := Function.update t.phase i (.ended (R.answer i row)) }
  | missed {i : ι} (waiting : t.phase i = .waiting) (find : R.find t.store = none) :
      Step R t (.look i) { t with phase := Function.update t.phase i .inFlight }
  | written {i : ι} {a : α} {s : σ} (inFlight : t.phase i = .inFlight) (free : t.writer = none)
      (write : R.write i t.store = .ok (a, s)) :
      Step R t (.write i) { t with writer := some (i, a, s) }
  | refused {i : ι} {e : ε} (inFlight : t.phase i = .inFlight) (free : t.writer = none)
      (write : R.write i t.store = .error e) :
      Step R t (.write i) { t with phase := Function.update t.phase i (.ended (.error e)) }
  | committed {i : ι} {a : α} {s : σ} (writer : t.writer = some (i, a, s)) :
      Step R t (.commit i) ⟨s, none, Function.update t.phase i (.ended (.ok a))⟩

variable {R : Rivals ι σ ε α ρ φ} {s₀ : σ} {t t' : State ι σ ε α} {e : Event ι} {es : List (Event ι)}

theorem next_eq_some : R.next t e = some t' ↔ R.Step t e t' := by
  constructor
  · intro h
    cases e with
    | look i =>
      simp only [next] at h
      split at h
      · rename_i hwaiting
        cases h
        unfold looked
        split
        · exact .found hwaiting ‹_›
        · exact .missed hwaiting ‹_›
      · cases h
    | write i =>
      simp only [next] at h
      split at h
      · rename_i hflight hfree
        split at h <;> cases h
        · exact .written hflight hfree ‹_›
        · exact .refused hflight hfree ‹_›
      · cases h
    | commit i =>
      simp only [next] at h
      split at h
      · rename_i hwriter
        split at h <;> cases h
        subst i
        exact .committed hwriter
      · cases h
  · rintro (⟨hwaiting, hfind⟩ | ⟨hwaiting, hfind⟩ | ⟨hflight, hfree, hwrite⟩ |
      ⟨hflight, hfree, hwrite⟩ | ⟨hwriter⟩)
    · simp [next, hwaiting, looked, hfind]
    · simp [next, hwaiting, looked, hfind]
    · simp [next, hflight, hfree, hwrite]
    · simp [next, hflight, hfree, hwrite]
    · simp [next, hwriter]

omit [DecidableEq ι] [DecidableEq φ] in
theorem find_of_write {i : ι} {s : σ} {r : α × σ} (h : R.write i s = .ok r) : R.find s = none := by
  cases hfind : R.find s with
  | none => rfl
  | some row => exact absurd h (R.write_taken hfind)

/-! ### What each run keeps -/

/-- The call that has written is in flight, and its row is not in the store yet. -/
def Honest (R : Rivals ι σ ε α ρ φ) (t : State ι σ ε α) : Prop :=
  ∀ w, t.writer = some w →
    t.phase w.1 = .inFlight ∧ R.find t.store = none ∧ ∃ row, R.find w.2.2 = some row

omit [DecidableEq ι] [DecidableEq φ] in
theorem Honest.start : R.Honest (.start s₀) := fun w hw => by cases hw

theorem Honest.step (ht : R.Honest t) (h : R.Step t e t') : R.Honest t' := by
  intro w hw
  cases h with
  | found waiting find =>
    obtain ⟨-, hnone, -⟩ := ht w hw
    rw [find] at hnone
    cases hnone
  | @missed i waiting find =>
    obtain ⟨hflight, hrow⟩ := ht w hw
    refine ⟨?_, hrow⟩
    by_cases hi : w.1 = i
    · simp [hi]
    · simpa [hi] using hflight
  | @written i a s inFlight free write =>
    cases hw
    obtain ⟨row, -, hrow, -⟩ := R.write_ok write
    exact ⟨inFlight, find_of_write write, row, hrow⟩
  | refused inFlight free write =>
    dsimp only at hw
    rw [free] at hw
    cases hw
  | committed writer => cases hw

/-- A call that has ended has ended for good. -/
theorem Honest.ended (ht : R.Honest t) (h : R.Step t e t') {i : ι} {r : Except ε α}
    (hi : t.phase i = .ended r) : t'.phase i = .ended r := by
  have hother : ∀ j p, t.phase j ≠ .ended r → Function.update t.phase j p i = .ended r := by
    intro j p hj
    have hne : i ≠ j := fun hij => hj (hij ▸ hi)
    simpa [hne] using hi
  cases h with
  | found waiting find => exact hother _ _ (by simp [waiting])
  | missed waiting find => exact hother _ _ (by simp [waiting])
  | written inFlight free write => exact hi
  | refused inFlight free write => exact hother _ _ (by simp [inFlight])
  | committed writer => exact hother _ _ (by simp [(ht _ writer).1])

/-! ### Runs that look alone -/

/-- A call looks the key up while no other call is in flight. -/
def Alone (t : State ι σ ε α) : Event ι → Prop
  | .look i => ∀ j, j ≠ i → t.phase j ≠ .inFlight
  | _ => True

/-- Each call would write a row. -/
def Valid (R : Rivals ι σ ε α ρ φ) (s : σ) : Prop := ∀ i, ∃ r, R.write i s = .ok r

omit [DecidableEq ι] [DecidableEq φ] in
theorem Valid.find (hv : R.Valid s₀) (i : ι) : R.find s₀ = none := by
  obtain ⟨r, hr⟩ := hv i
  exact find_of_write hr

/-- No call has ended, or one has created the row and the others that have ended have answered
from it. -/
def Once (R : Rivals ι σ ε α ρ φ) (s₀ : σ) (t : State ι σ ε α) : Prop :=
  (t.store = s₀ ∧ ∀ i r, t.phase i ≠ .ended r) ∨
    ∃ i row, R.write i s₀ = .ok (R.created row, t.store) ∧ R.find t.store = some row ∧
      t.phase i = .ended (.ok (R.created row)) ∧
      ∀ j, j ≠ i → ∀ r, t.phase j = .ended r → r = R.answer j row

/-- The states of the runs that look alone. -/
inductive Orderly (R : Rivals ι σ ε α ρ φ) (s₀ : σ) (t : State ι σ ε α) : Prop
  | fresh (store : t.store = s₀) (writer : t.writer = none) (phase : ∀ i, t.phase i = .waiting)
  | single (i : ι) (store : t.store = s₀)
      (writer : ∀ w, t.writer = some w → w.1 = i ∧ R.write i s₀ = .ok w.2)
      (phase : t.phase i = .inFlight) (others : ∀ j, j ≠ i → t.phase j = .waiting)
  | created (i : ι) (row : ρ) (write : R.write i s₀ = .ok (R.created row, t.store))
      (find : R.find t.store = some row) (writer : t.writer = none)
      (phase : t.phase i = .ended (.ok (R.created row)))
      (others : ∀ j, j ≠ i → t.phase j = .waiting ∨ t.phase j = .ended (R.answer j row))

theorem Orderly.once (h : R.Orderly s₀ t) : R.Once s₀ t := by
  cases h with
  | fresh store writer phase => exact .inl ⟨store, fun i r => by simp [phase]⟩
  | single i store writer phase others =>
    refine .inl ⟨store, fun j r => ?_⟩
    by_cases hj : j = i
    · simp [hj, phase]
    · simp [others j hj]
  | created i row write find writer phase others =>
    refine .inr ⟨i, row, write, find, phase, fun j hj r hr => ?_⟩
    rcases others j hj with h | h
    · rw [h] at hr
      cases hr
    · rw [h] at hr
      cases hr
      rfl

theorem Orderly.step (hv : R.Valid s₀) (ht : R.Orderly s₀ t) (halone : Alone t e)
    (h : R.Step t e t') : R.Orderly s₀ t' := by
  cases ht with
  | fresh store writer phase =>
    cases h with
    | @found i row waiting find =>
      rw [store, hv.find i] at find
      cases find
    | @missed i waiting find =>
      refine .single i store (fun w hw => ?_) (by simp) fun j hj => by simp [hj, phase]
      dsimp only at hw
      rw [writer] at hw
      cases hw
    | written inFlight free write => simp [phase] at inFlight
    | refused inFlight free write => simp [phase] at inFlight
    | committed hw =>
      rw [writer] at hw
      cases hw
  | single i store writer phase others =>
    cases h with
    | found waiting find =>
      rw [store, hv.find i] at find
      cases find
    | @missed j waiting find =>
      have hij : i ≠ j := by
        rintro rfl
        rw [phase] at waiting
        cases waiting
      exact absurd phase (halone i hij)
    | @written j a s inFlight free write =>
      obtain rfl : j = i := by
        by_contra hj
        simp [others j hj] at inFlight
      refine .single j store (fun w hw => ?_) phase others
      cases hw
      exact ⟨rfl, store ▸ write⟩
    | @refused j e inFlight free write =>
      obtain ⟨r, hr⟩ := hv j
      rw [store, hr] at write
      cases write
    | @committed j a s hw =>
      obtain ⟨rfl, hwrite⟩ := writer _ hw
      obtain ⟨row, rfl, hfind, -⟩ := R.write_ok hwrite
      exact .created j row hwrite hfind rfl (by simp) fun k hk => .inl (by simp [hk, others k hk])
  | created i row write find writer phase others =>
    cases h with
    | @found j row' waiting find' =>
      obtain rfl : row' = row := Option.some.inj (find'.symm.trans find)
      have hji : i ≠ j := by
        rintro rfl
        rw [phase] at waiting
        cases waiting
      refine .created i row' write find writer (by simp [hji, phase]) fun k hk => ?_
      by_cases hkj : k = j
      · subst k
        exact .inr (by simp)
      · simpa [hkj] using others k hk
    | missed waiting find' =>
      rw [find] at find'
      cases find'
    | @written j a s inFlight free write' => exact absurd write' (R.write_taken find)
    | @refused j e inFlight free write' =>
      by_cases hj : j = i
      · rw [hj, phase] at inFlight
        cases inFlight
      · rcases others j hj with h | h <;> rw [h] at inFlight <;> cases inFlight
    | committed hw =>
      rw [writer] at hw
      cases hw

/-- **While every call looks alone, the row is created once.** -/
theorem once_of_alone (hv : R.Valid s₀) (h : Trail ((R.race s₀).guarded Alone) (.start s₀) es t) :
    R.Once s₀ t := by
  have hstart : R.Orderly s₀ (.start s₀) := .fresh rfl rfl fun _ => rfl
  exact (h.invariant (fun _ _ _ ht hstep => ht.step hv hstep.1 (next_eq_some.1 hstep.2)) hstart).once

/-! ### Runs that do not -/

/-- A call has failed without a conflict, or will. -/
inductive Doomed (R : Rivals ι σ ε α ρ φ) (t : State ι σ ε α) : Prop
  | failed (i : ι) (e : ε) (phase : t.phase i = .ended (.error e)) (ne : e ≠ R.conflict)
  | two (i j : ι) (ne : i ≠ j) (first : t.phase i = .inFlight) (second : t.phase j = .inFlight)
  | late (i : ι) (row : ρ) (phase : t.phase i = .inFlight) (writer : t.writer = none)
      (find : R.find t.store = some row)

omit [DecidableEq φ] in
/-- A refused write dooms the run. -/
theorem doomed_of_refused {i : ι} {er : ε} (h : R.write i t.store = .error er) :
    R.Doomed { t with phase := Function.update t.phase i (.ended (.error er)) } := by
  refine .failed i er (by simp) ?_
  rintro rfl
  exact R.write_conflict h

theorem Doomed.step (ht : R.Honest t) (hd : R.Doomed t) (h : R.Step t e t') : R.Doomed t' := by
  cases hd with
  | failed i e phase ne => exact .failed i e (ht.ended h phase) ne
  | two i j ne first second =>
    cases h with
    | @found k row waiting find =>
      have hi : i ≠ k := fun hik => by simp [← hik, first] at waiting
      have hj : j ≠ k := fun hjk => by simp [← hjk, second] at waiting
      exact .two i j ne (by simp [hi, first]) (by simp [hj, second])
    | @missed k waiting find =>
      have hi : i ≠ k := fun hik => by simp [← hik, first] at waiting
      have hj : j ≠ k := fun hjk => by simp [← hjk, second] at waiting
      exact .two i j ne (by simp [hi, first]) (by simp [hj, second])
    | written inFlight free write => exact .two i j ne first second
    | refused inFlight free write => exact doomed_of_refused write
    | @committed k a s writer =>
      obtain ⟨-, -, row, hrow⟩ := ht _ writer
      -- One of the two has not written, and now it is too late to.
      by_cases hk : i = k
      · have hj : j ≠ k := fun hjk => ne (hk.trans hjk.symm)
        exact .late j row (by simp [hj, second]) rfl hrow
      · exact .late i row (by simp [hk, first]) rfl hrow
  | late i row phase writer find =>
    cases h with
    | @found k row' waiting find' =>
      have hi : i ≠ k := fun hik => by simp [← hik, phase] at waiting
      exact .late i row (by simp [hi, phase]) writer find
    | @missed k waiting find' =>
      rw [find] at find'
      cases find'
    | written inFlight free write => exact absurd write (R.write_taken find)
    | refused inFlight free write => exact doomed_of_refused write
    | committed hw =>
      rw [writer] at hw
      cases hw

/-- A look-up with another call in flight dooms the run. -/
theorem doomed_of_not_alone (ht : R.Honest t) (halone : ¬ Alone t e) (h : R.Step t e t') :
    R.Doomed t' := by
  cases h with
  | @found i row waiting find =>
    obtain ⟨j, hj⟩ := not_forall.1 halone
    obtain ⟨hji, hflight⟩ := Classical.not_imp.1 hj
    refine .late j row (by simpa [hji] using not_not.1 hflight) ?_ find
    cases hw : t.writer with
    | none => rfl
    | some w =>
      obtain ⟨-, hnone, -⟩ := ht w hw
      rw [find] at hnone
      cases hnone
  | @missed i waiting find =>
    obtain ⟨j, hj⟩ := not_forall.1 halone
    obtain ⟨hji, hflight⟩ := Classical.not_imp.1 hj
    exact .two j i hji (by simpa [hji] using not_not.1 hflight) (by simp)
  | written => exact absurd trivial halone
  | refused => exact absurd trivial halone
  | committed => exact absurd trivial halone

theorem Doomed.not_once (hd : R.Doomed t) (hc : t.Complete) : ¬ R.Once s₀ t := by
  rintro (⟨-, hnone⟩ | ⟨i, row, -, -, hi, hothers⟩)
  · cases hd with
    | failed i e phase ne => exact hnone i _ phase
    | two i j ne first second =>
      obtain ⟨r, hr⟩ := hc i
      exact hnone i r hr
    | late i row phase writer find =>
      obtain ⟨r, hr⟩ := hc i
      exact hnone i r hr
  · cases hd with
    | failed j e phase ne =>
      by_cases hj : j = i
      · rw [hj, hi] at phase
        cases phase
      · have hanswer := hothers j hj _ phase
        unfold answer at hanswer
        split at hanswer <;> cases hanswer
        exact ne rfl
    | two j k ne first second =>
      obtain ⟨r, hr⟩ := hc j
      rw [first] at hr
      cases hr
    | late j row phase writer find =>
      obtain ⟨r, hr⟩ := hc j
      rw [phase] at hr
      cases hr

/-- **The row is created once along no other run to its end.** -/
theorem alone_of_once (h : Trail (R.race s₀) (.start s₀) es t) (hc : t.Complete)
    (honce : R.Once s₀ t) : Trail ((R.race s₀).guarded Alone) (.start s₀) es t := by
  have hor := h.guarded_or (C := Alone) (I := R.Honest) (D := R.Doomed)
    (fun _ _ _ ht hstep => ht.step (next_eq_some.1 hstep))
    (fun _ _ _ ht hd hstep => hd.step ht (next_eq_some.1 hstep))
    (fun _ _ _ ht hC hstep => doomed_of_not_alone ht hC (next_eq_some.1 hstep)) .start
  exact hor.resolve_right fun hd => hd.not_once hc honce

/-! ### Runs of two calls -/

omit [DecidableEq ι] in
theorem run_of_find {i : ι} {s : σ} (h : R.find s = none) : R.run i s = R.write i s := by
  unfold run
  rw [h]

omit [DecidableEq ι] in
theorem run_of_found {i : ι} {s : σ} {row : ρ} (h : R.find s = some row) :
    R.run i s = (R.answer i row).map fun a => (a, s) := by
  unfold run
  rw [h]

/-- A call that runs while no other one is in flight has the result of a call with the store to
itself. -/
theorem trail_of_run (s₀ : σ) {i : ι} {r : α × σ} (hfree : t.writer = none)
    (hwaiting : t.phase i = .waiting) (hothers : ∀ j, j ≠ i → t.phase j ≠ .inFlight) (h : R.run i t.store = .ok r) :
    ∃ es, Trail ((R.race s₀).guarded Alone) t es
      ⟨r.2, none, Function.update t.phase i (.ended (.ok r.1))⟩ := by
  obtain ⟨a, s⟩ := r
  have hlook : Alone t (.look i) := hothers
  cases hfind : R.find t.store with
  | some row =>
    rw [run_of_found hfind] at h
    cases hanswer : R.answer i row with
    | error e =>
      rw [hanswer] at h
      cases h
    | ok b =>
      rw [hanswer] at h
      cases h
      refine ⟨[.look i], .single ⟨hlook, next_eq_some.2 ?_⟩⟩
      rw [← hfree, ← hanswer]
      exact .found hwaiting hfind
  | none =>
    rw [run_of_find hfind] at h
    refine ⟨[.look i, .write i, .commit i], .move ⟨hlook, next_eq_some.2 (.missed hwaiting hfind)⟩
      (.move ⟨trivial, next_eq_some.2 (.written (by simp) hfree h)⟩ ?_)⟩
    have hcommit := Step.committed (R := R) (t := { t with
      writer := some (i, a, s), phase := Function.update t.phase i .inFlight }) rfl
    rw [Function.update_idem] at hcommit
    exact .single ⟨trivial, next_eq_some.2 hcommit⟩

/-- Two calls of one request, one after the other. -/
theorem exists_in_turn {i j : ι} (hij : j ≠ i) (hall : ∀ k, k = i ∨ k = j) (hv : R.Valid s₀)
    (hasked : R.asked i = R.asked j) :
    ∃ es t, Trail ((R.race s₀).guarded Alone) (.start s₀) es t ∧ t.Complete := by
  obtain ⟨⟨a, s⟩, hwrite⟩ := hv i
  obtain ⟨row, -, hfind, hprint⟩ := R.write_ok hwrite
  have hfirst : R.run i s₀ = .ok (a, s) := (run_of_find (hv.find i)).trans hwrite
  have hsecond : R.run j s = .ok (R.found row, s) := by
    rw [run_of_found hfind]
    unfold answer
    rw [if_pos (hprint.trans hasked)]
    rfl
  obtain ⟨es, before⟩ := trail_of_run s₀ (t := .start s₀) rfl rfl
    (fun j _ hflight => by cases hflight) hfirst
  -- After the first call the second one waits, and no call is in flight.
  generalize hm : (⟨s, none, Function.update (State.start s₀).phase i (.ended (.ok a))⟩ :
    State ι σ ε α) = m at before
  have hwaiting : m.phase j = .waiting := by
    rw [← hm]
    exact Function.update_of_ne hij _ _
  have hothers : ∀ k, k ≠ j → m.phase k ≠ .inFlight := by
    intro k hk
    obtain rfl := (hall k).resolve_right hk
    simp [← hm]
  obtain ⟨fs, after⟩ := trail_of_run s₀ (by rw [← hm]) hwaiting hothers
    (show R.run j m.store = .ok (R.found row, s) by rw [← hm]; exact hsecond)
  subst hm
  refine ⟨_, _, before.append after, fun k => ?_⟩
  rcases hall k with rfl | rfl
  · exact ⟨_, by simp [Ne.symm hij]; rfl⟩
  · exact ⟨_, by simp; rfl⟩

/-- Two calls that both look before either writes: the second one is refused. -/
theorem exists_clash {i j : ι} (hij : j ≠ i) (hall : ∀ k, k = i ∨ k = j) {a : α} {s : σ}
    (hfirst : R.write i s₀ = .ok (a, s)) {er : ε} (hsecond : R.write j s = .error er) :
    ∃ es t, Trail (R.race s₀) (.start s₀) es t ∧ t.Complete ∧ t.phase i = .ended (.ok a) ∧
      t.phase j = .ended (.error er) := by
  have hfind := find_of_write hfirst
  refine ⟨[.look i, .look j, .write i, .commit i, .write j], _,
    .move (next_eq_some.2 (.missed rfl hfind))
      (.move (next_eq_some.2 (.missed (Function.update_of_ne hij _ _) hfind))
        (.move (next_eq_some.2 (.written (by simp [Ne.symm hij]) rfl hfirst))
          (.move (next_eq_some.2 (.committed rfl))
            (.single (next_eq_some.2 (.refused (by simp [hij]) rfl hsecond)))))), ?_, ?_, ?_⟩
  · intro k
    rcases hall k with rfl | rfl
    · exact ⟨_, by simp [Ne.symm hij]; rfl⟩
    · exact ⟨_, by simp; rfl⟩
  · simp [Ne.symm hij]
  · simp

end Rivals

end Race
