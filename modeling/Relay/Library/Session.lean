import Relay.Library.Exchange

/-!
# Clients in session with a server

A server is a relation `step s q x t`: in the state `s` it may answer the request `q` with `x` and
go on in the state `t`.

* `Serves step p s r t`: the client `p` is served from `s` on, ends with `r` and leaves `t`;
* `Cut step p s t`: the same client is cut off somewhere on its way and leaves `t`;
* `Ends step s p Q E`: from `s` on, a client that may raise ends in a value that meets `Q` or in an
  exception that meets `E`, with the state left; the rules `ends_bind`, `ends_send`, `Ends.mono`;
* `Always step s p Q`: wherever the client is cut off, the state left meets `Q`.
-/

universe u v

namespace Exchange

variable {Q A α β ε : Type u} {σ : Type v} {step : σ → Q → A → σ → Prop}

/-- The client ends with `r` and leaves `t`, served from `s` on. -/
inductive Serves (step : σ → Q → A → σ → Prop) : Exchange Q A α → σ → α → σ → Prop
  | done (a : α) (s : σ) : Serves step (done a) s a s
  | ask {q : Q} {k : A → Exchange Q A α} {x : A} {s s' t : σ} {r : α} (head : step s q x s')
      (tail : Serves step (k x) s' r t) : Serves step (ask q k) s r t

/-- The client is cut off, after some requests, and leaves `t`. -/
inductive Cut (step : σ → Q → A → σ → Prop) : Exchange Q A α → σ → σ → Prop
  | here (p : Exchange Q A α) (s : σ) : Cut step p s s
  | later {q : Q} {k : A → Exchange Q A α} {x : A} {s s' t : σ} (head : step s q x s')
      (tail : Cut step (k x) s' t) : Cut step (ask q k) s t

@[simp] theorem serves_done {a r : α} {s t : σ} :
    Serves step (Exchange.done a) s r t ↔ r = a ∧ t = s := by
  constructor
  · rintro ⟨⟩
    exact ⟨rfl, rfl⟩
  · rintro ⟨rfl, rfl⟩
    exact .done _ _

theorem serves_bind {p : Exchange Q A α} {f : α → Exchange Q A β} {s t : σ} {r : β} :
    Serves step (p >>= f) s r t ↔ ∃ a u, Serves step p s a u ∧ Serves step (f a) u r t := by
  constructor
  · intro h
    induction p generalizing s with
    | done a => exact ⟨a, s, .done a s, h⟩
    | ask q k ih =>
      cases h with
      | ask head tail =>
        obtain ⟨a, u, hfirst, hsecond⟩ := ih _ tail
        exact ⟨a, u, .ask head hfirst, hsecond⟩
  · rintro ⟨a, u, hfirst, hsecond⟩
    induction hfirst with
    | done => exact hsecond
    | ask head _ ih => exact .ask head (ih hsecond)

/-- A client that is served to its end could have been cut off there. -/
theorem Serves.cut {p : Exchange Q A α} {s t : σ} {r : α} (h : Serves step p s r t) :
    Cut step p s t := by
  induction h with
  | done => exact .here _ _
  | ask head _ ih => exact .later head ih

theorem cut_bind {p : Exchange Q A α} {f : α → Exchange Q A β} {s t : σ}
    (h : Cut step (p >>= f) s t) :
    Cut step p s t ∨ ∃ a u, Serves step p s a u ∧ Cut step (f a) u t := by
  induction p generalizing s with
  | done a => exact .inr ⟨a, s, .done a s, h⟩
  | ask q k ih =>
    cases h with
    | here => exact .inl (.here _ _)
    | later head tail =>
      rcases ih _ tail with hfirst | ⟨a, u, hfirst, hsecond⟩
      · exact .inl (.later head hfirst)
      · exact .inr ⟨a, u, .ask head hfirst, hsecond⟩

/-- What every answer keeps, a client keeps up to where it is cut off. -/
theorem Cut.invariant {I : σ → Prop} {p : Exchange Q A α} {s t : σ} (h : Cut step p s t)
    (hstep : ∀ s q x s', I s → step s q x s' → I s') (hs : I s) : I t := by
  induction h with
  | here => exact hs
  | later head _ ih => exact ih (hstep _ _ _ _ hs head)

/-! ### Clients that may raise -/

/-- The client ends in a value that meets `Q`, or in an exception that meets `E`. -/
def Ends (step : σ → Q → A → σ → Prop) (s : σ) (p : Call ε Q A α) (φ : α → σ → Prop)
    (ψ : ε → σ → Prop) : Prop :=
  ∀ r t, Serves step p.run s r t → (∀ a, r = .ok a → φ a t) ∧ ∀ e, r = .error e → ψ e t

section Ends

variable {s t : σ} {φ φ' : α → σ → Prop} {ψ ψ' : ε → σ → Prop}

theorem ends_pure {a : α} (h : φ a s) : Ends step s (pure a : Call ε Q A α) φ ψ := by
  intro r t hr
  obtain ⟨rfl, rfl⟩ := serves_done.1 hr
  refine ⟨fun b hb => ?_, fun e he => by cases he⟩
  cases hb
  exact h

theorem ends_throw {e : ε} (h : ψ e s) : Ends step s (throw e : Call ε Q A α) φ ψ := by
  intro r t hr
  obtain ⟨rfl, rfl⟩ := serves_done.1 hr
  refine ⟨fun b hb => (by cases hb), fun e' he => ?_⟩
  cases he
  exact h

theorem ends_send {q : Q} {φ : A → σ → Prop} (h : ∀ x t, step s q x t → φ x t) :
    Ends step s (Call.send q : Call ε Q A A) φ ψ := by
  intro r t hr
  cases hr with
  | ask head tail =>
    obtain ⟨rfl, rfl⟩ := serves_done.1 tail
    refine ⟨fun b hb => ?_, fun e he => by cases he⟩
    cases hb
    exact h _ _ head

/-- The second part goes on in the state that the first one leaves. -/
theorem ends_bind {p : Call ε Q A α} {f : α → Call ε Q A β} {φ : β → σ → Prop}
    (h : Ends step s p (fun a u => Ends step u (f a) φ ψ) ψ) : Ends step s (p >>= f) φ ψ := by
  intro r t hr
  rw [ExceptT.run_bind] at hr
  obtain ⟨x, u, hfirst, hsecond⟩ := serves_bind.1 hr
  cases x with
  | ok a => exact (h _ _ hfirst).1 a rfl r t hsecond
  | error e =>
    obtain ⟨rfl, rfl⟩ := serves_done.1 hsecond
    refine ⟨fun b hb => (by cases hb), fun e' he => ?_⟩
    cases he
    exact (h _ _ hfirst).2 e rfl

theorem Ends.mono {p : Call ε Q A α} (h : Ends step s p φ ψ) (hφ : ∀ a t, φ a t → φ' a t)
    (hψ : ∀ e t, ψ e t → ψ' e t) : Ends step s p φ' ψ' :=
  fun r t hr => ⟨fun a ha => hφ a t ((h r t hr).1 a ha), fun e he => hψ e t ((h r t hr).2 e he)⟩

theorem Ends.bind {p : Call ε Q A α} {f : α → Call ε Q A β} {φ' : β → σ → Prop}
    (h : Ends step s p φ ψ) (hf : ∀ a t, φ a t → Ends step t (f a) φ' ψ) :
    Ends step s (p >>= f) φ' ψ := ends_bind (h.mono hf fun _ _ he => he)

/-- What every answer keeps, the client keeps to its end. -/
theorem Ends.invariant {I : σ → Prop} {p : Call ε Q A α} (h : Ends step s p φ ψ)
    (hstep : ∀ s q x s', I s → step s q x s' → I s') (hs : I s) :
    Ends step s p (fun a t => φ a t ∧ I t) fun e t => ψ e t ∧ I t := by
  intro r t hr
  have hI := hr.cut.invariant hstep hs
  exact ⟨fun a ha => ⟨(h r t hr).1 a ha, hI⟩, fun e he => ⟨(h r t hr).2 e he, hI⟩⟩

/-- A client that raises nothing returns. -/
theorem Ends.returns {p : Call ε Q A α} (h : Ends step s p φ fun _ _ => False) {r : Except ε α}
    (hr : Serves step p.run s r t) : ∃ a, r = .ok a ∧ φ a t := by
  cases r with
  | ok a => exact ⟨a, rfl, (h _ _ hr).1 a rfl⟩
  | error e => exact ((h _ _ hr).2 e rfl).elim

end Ends

/-! ### Clients that are cut off -/

/-- Wherever the client is cut off, the state left meets `P`. -/
def Always (step : σ → Q → A → σ → Prop) (s : σ) (p : Exchange Q A α) (P : σ → Prop) : Prop :=
  ∀ t, Cut step p s t → P t

section Always

variable {s : σ} {P : σ → Prop}

theorem always_done {a : α} (h : P s) : Always step s (done a : Exchange Q A α) P := by
  intro t ht
  cases ht
  exact h

theorem always_send {q : Q} (h : P s) (hstep : ∀ x t, step s q x t → P t) :
    Always step s (Call.send q : Call ε Q A A).run P := by
  intro t ht
  cases ht with
  | here => exact h
  | later head tail =>
    cases tail
    exact hstep _ _ head

/-- The second part is entered only with a value of the first one, where `P` still holds. -/
theorem always_bind {p : Call ε Q A α} {f : α → Call ε Q A β} (h : Always step s p.run P)
    (hf : ∀ a u, Serves step p.run s (.ok a) u → P u → Always step u (f a).run P) :
    Always step s (p >>= f).run P := by
  intro t ht
  rw [ExceptT.run_bind] at ht
  rcases cut_bind ht with hfirst | ⟨x, u, hfirst, hsecond⟩
  · exact h t hfirst
  · cases x with
    | ok a => exact hf a u hfirst (h u hfirst.cut) t hsecond
    | error e =>
      cases hsecond
      exact h _ hfirst.cut

/-- What holds and is kept by every answer holds wherever the client is cut off. -/
theorem always_of_invariant {p : Exchange Q A α} (h : P s)
    (hstep : ∀ s q x s', P s → step s q x s' → P s') : Always step s p P :=
  fun _ ht => ht.invariant hstep h

end Always

/-! ### Sessions that are run -/

section Run

variable {ι : Type*} {respond : σ → ι → Q → A × σ} {ok : σ → ι → Q → Bool}

/-- Serves a client with one input for each request, each of which must pass a check. -/
def serve (respond : σ → ι → Q → A × σ) (ok : σ → ι → Q → Bool) :
    List ι → Exchange Q A α → σ → Option (α × σ)
  | _, done a, s => some (a, s)
  | [], ask _ _, _ => none
  | i :: is, ask q k, s =>
    if ok s i q then serve respond ok is (k (respond s i q).1) (respond s i q).2 else none

/-- The state in which a client is cut off when the inputs are used up. -/
def cutAfter (respond : σ → ι → Q → A × σ) : List ι → Exchange Q A α → σ → σ
  | _, done _, s => s
  | [], ask _ _, s => s
  | i :: is, ask q k, s => cutAfter respond is (k (respond s i q).1) (respond s i q).2

theorem serves_of_serve (hok : ∀ s i q, ok s i q = true → step s q (respond s i q).1 (respond s i q).2)
    {is : List ι} {p : Exchange Q A α} {s t : σ} {r : α} (h : serve respond ok is p s = some (r, t)) :
    Serves step p s r t := by
  induction is generalizing p s with
  | nil =>
    cases p with
    | done a => cases h; exact .done _ _
    | ask q k => cases h
  | cons i is ih =>
    cases p with
    | done a => cases h; exact .done _ _
    | ask q k =>
      obtain ⟨hq, h⟩ := Option.ite_none_right_eq_some.1 h
      exact .ask (hok _ _ _ hq) (ih h)

/-- A session that is found by evaluation. -/
theorem exists_of_serve (hok : ∀ s i q, ok s i q = true → step s q (respond s i q).1 (respond s i q).2)
    {is : List ι} {p : Exchange Q A α} {s : σ} {P : α × σ → Bool}
    (h : (serve respond ok is p s).any P = true) : ∃ r t, Serves step p s r t ∧ P (r, t) = true := by
  obtain ⟨⟨r, t⟩, hrun, hP⟩ := (Option.any_eq_true _ _).1 h
  exact ⟨r, t, serves_of_serve hok hrun, hP⟩

theorem cut_of_cutAfter (hstep : ∀ s i q, step s q (respond s i q).1 (respond s i q).2) (is : List ι)
    (p : Exchange Q A α) (s : σ) : Cut step p s (cutAfter respond is p s) := by
  induction is generalizing p s with
  | nil => cases p <;> exact .here _ _
  | cons i is ih =>
    cases p with
    | done a => exact .here _ _
    | ask q k => exact .later (hstep _ _ _) (ih _ _)

end Run

end Exchange
