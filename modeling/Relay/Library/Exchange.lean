import Mathlib.Control.Basic
import Mathlib.Data.List.Basic
import Mathlib.Tactic.Common

/-!
# Exchanges with a server

A client that sends requests and goes on by their answers is a tree: `done r` has finished with
`r`, `ask q k` sends `q` and goes on as `k a` when the answer is `a`.  Clients compose by the
monad; a client that may raise is one over `Except`, through `ExceptT`.

* `Runs p tr r`: the client `p` finishes with `r` after the requests and answers `tr`;
* `runs_bind`, `calls_bind`: the trace of a composed client splits;
* `exec p answers`: the run against a given sequence of answers;
* `Call.result p answers`: how a client that may raise ends against them;
* `Each P p`: every request of `p`, with how `p` goes on, meets `P`; `each_of_runs` reads this off
  the traces;
* `Meets φ ψ p answers`: against the answers, `p` ends in a value that meets `φ` or an exception
  that meets `ψ`; `meets_bind` composes, `meets_exec` reads it off the run.
-/

universe u

/-- A client of a server with requests `Q` and answers `A`. -/
inductive Exchange (Q A α : Type u) : Type u
  | done (result : α)
  | ask (request : Q) (next : A → Exchange Q A α)

namespace Exchange

variable {Q A α β ε : Type u}

/-- Sequential composition. -/
def bind : Exchange Q A α → (α → Exchange Q A β) → Exchange Q A β
  | done a, f => f a
  | ask q k, f => ask q fun x => (k x).bind f

instance : Monad (Exchange Q A) where
  pure := done
  bind := bind

@[simp] theorem pure_eq (a : α) : (pure a : Exchange Q A α) = done a := rfl

@[simp] theorem done_bind (a : α) (f : α → Exchange Q A β) : (done a >>= f) = f a := rfl

@[simp] theorem ask_bind (q : Q) (k : A → Exchange Q A α) (f : α → Exchange Q A β) :
    (ask q k >>= f) = ask q fun x => k x >>= f := rfl

instance : LawfulMonad (Exchange Q A) := by
  refine LawfulMonad.mk' _ (fun p => ?_) (fun _ _ => rfl) (fun p f g => ?_)
  · induction p with
    | done => rfl
    | ask q k ih => exact congrArg (ask q) (funext ih)
  · induction p with
    | done => rfl
    | ask q k ih => exact congrArg (ask q) (funext ih)

/-! ### Traces -/

/-- `p` finishes with `r` after sending and receiving `tr`. -/
inductive Runs : Exchange Q A α → List (Q × A) → α → Prop
  | done (a : α) : Runs (done a) [] a
  | ask {q : Q} {k : A → Exchange Q A α} {x : A} {tr : List (Q × A)} {r : α}
      (tail : Runs (k x) tr r) : Runs (ask q k) ((q, x) :: tr) r

@[simp] theorem runs_done {a r : α} {tr : List (Q × A)} :
    Runs (Exchange.done a) tr r ↔ tr = [] ∧ r = a := by
  constructor
  · rintro ⟨⟩; exact ⟨rfl, rfl⟩
  · rintro ⟨rfl, rfl⟩; exact .done _

@[simp] theorem runs_ask {q : Q} {k : A → Exchange Q A α} {tr : List (Q × A)} {r : α} :
    Runs (Exchange.ask q k) tr r ↔ ∃ x tl, tr = (q, x) :: tl ∧ Runs (k x) tl r := by
  constructor
  · rintro (_ | tail)
    exact ⟨_, _, rfl, tail⟩
  · rintro ⟨x, tl, rfl, tail⟩; exact .ask tail

theorem runs_bind {p : Exchange Q A α} {f : α → Exchange Q A β} {tr : List (Q × A)} {r : β} :
    Runs (p >>= f) tr r ↔ ∃ tr₁ a tr₂, tr = tr₁ ++ tr₂ ∧ Runs p tr₁ a ∧ Runs (f a) tr₂ r := by
  induction p generalizing tr with
  | done a => simp
  | ask q k ih =>
    simp only [ask_bind, runs_ask, ih]
    constructor
    · rintro ⟨x, tl, rfl, tr₁, a, tr₂, rfl, h, h'⟩
      exact ⟨(q, x) :: tr₁, a, tr₂, rfl, ⟨x, tr₁, rfl, h⟩, h'⟩
    · rintro ⟨_, a, tr₂, rfl, ⟨x, tr₁, rfl, h⟩, h'⟩
      exact ⟨x, tr₁ ++ tr₂, rfl, tr₁, a, tr₂, rfl, h, h'⟩

/-- The run against a given sequence of answers. -/
def exec : Exchange Q A α → (ℕ → A) → List (Q × A) × α
  | done a, _ => ([], a)
  | ask q k, answers =>
    let rest := exec (k (answers 0)) fun n => answers (n + 1)
    ((q, answers 0) :: rest.1, rest.2)

theorem runs_exec (p : Exchange Q A α) (answers : ℕ → A) :
    Runs p (exec p answers).1 (exec p answers).2 := by
  induction p generalizing answers with
  | done a => exact .done a
  | ask q k ih => exact .ask (ih _ _)

/-- Every sequence of answers leads the client to an end. -/
theorem exists_runs (p : Exchange Q A α) [Nonempty A] : ∃ tr r, Runs p tr r :=
  ⟨_, _, runs_exec p fun _ => Classical.arbitrary A⟩

/-! ### Clients that may raise -/

/-- A client that may raise an `ε`. -/
abbrev Call (ε Q A α : Type u) := ExceptT ε (Exchange Q A) α

/-- One request, returning its answer. -/
def Call.send (q : Q) : Call ε Q A A := ExceptT.mk (ask q fun x => done (.ok x))

/-- `p` finishes with `r`, a value or an exception, after `tr`. -/
def Calls (p : Call ε Q A α) (tr : List (Q × A)) (r : Except ε α) : Prop := Runs p.run tr r

section Calls

variable {tr : List (Q × A)}

@[simp] theorem calls_pure {a : α} {r : Except ε α} :
    Calls (pure a : Call ε Q A α) tr r ↔ tr = [] ∧ r = .ok a := by
  simp [Calls]

@[simp] theorem calls_throw {e : ε} {r : Except ε α} :
    Calls (throw e : Call ε Q A α) tr r ↔ tr = [] ∧ r = .error e := by
  simp [Calls, ExceptT.run_throw]

@[simp] theorem calls_done {x r : Except ε α} :
    Calls (ExceptT.mk (done x) : Call ε Q A α) tr r ↔ tr = [] ∧ r = x := by
  unfold Calls
  exact runs_done

@[simp] theorem calls_send {q : Q} {r : Except ε A} :
    Calls (Call.send q : Call ε Q A A) tr r ↔ ∃ x, tr = [(q, x)] ∧ r = .ok x := by
  simp [Calls, Call.send]

theorem calls_bind {p : Call ε Q A α} {f : α → Call ε Q A β} {r : Except ε β} :
    Calls (p >>= f) tr r ↔ (∃ e, r = .error e ∧ Calls p tr (.error e)) ∨
      ∃ tr₁ a tr₂, tr = tr₁ ++ tr₂ ∧ Calls p tr₁ (.ok a) ∧ Calls (f a) tr₂ r := by
  unfold Calls
  rw [ExceptT.run_bind, runs_bind]
  constructor
  · rintro ⟨tr₁, x, tr₂, rfl, h, h'⟩
    cases x with
    | error e =>
      obtain ⟨rfl, rfl⟩ := runs_done.1 h'
      exact .inl ⟨e, rfl, by simpa using h⟩
    | ok a => exact .inr ⟨tr₁, a, tr₂, rfl, h, h'⟩
  · rintro (⟨e, rfl, h⟩ | ⟨tr₁, a, tr₂, rfl, h, h'⟩)
    · exact ⟨tr, .error e, [], by simp, h, runs_done.2 ⟨rfl, rfl⟩⟩
    · exact ⟨tr₁, .ok a, tr₂, rfl, h, h'⟩

end Calls

section Result

variable {answers : ℕ → A}

/-- How the client ends against a given sequence of answers. -/
def Call.result (p : Call ε Q A α) (answers : ℕ → A) : Except ε α := (exec p.run answers).2

@[simp] theorem result_pure (a : α) : (pure a : Call ε Q A α).result answers = .ok a := rfl

@[simp] theorem result_throw (e : ε) : (throw e : Call ε Q A α).result answers = .error e := rfl

@[simp] theorem result_done (x : Except ε α) :
    Call.result (ExceptT.mk (done x) : Call ε Q A α) answers = x := rfl

/-- A computation without requests comes first. -/
theorem result_done_bind (x : Except ε α) (f : α → Call ε Q A β) :
    Call.result (ExceptT.mk (done x) >>= f : Call ε Q A β) answers =
      x >>= fun a => (f a).result answers := by
  cases x <;> rfl

/-- A request comes first, and its answer is read. -/
theorem result_send_bind (q : Q) (read : A → Except ε α) (f : α → Call ε Q A β) :
    Call.result ((Call.send q >>= fun x => ExceptT.mk (done (read x))) >>= f : Call ε Q A β) answers =
      read (answers 0) >>= fun a => (f a).result fun n => answers (n + 1) := by
  rw [bind_assoc]
  exact result_done_bind _ _

end Result

/-! ### Properties of every request -/

/-- `P` holds of every request of the client and of how it goes on. -/
def Each (P : Q → (A → Exchange Q A α) → Prop) : Exchange Q A α → Prop
  | done _ => True
  | ask q k => P q k ∧ ∀ x, Each P (k x)

section Each

variable {P : Q → (A → Exchange Q A α) → Prop} {p : Exchange Q A α}

theorem Each.bind {P' : Q → (A → Exchange Q A β) → Prop} {f : α → Exchange Q A β} (h : Each P p)
    (hP : ∀ q k, P q k → P' q fun x => k x >>= f) (hf : ∀ a, Each P' (f a)) : Each P' (p >>= f) := by
  induction p with
  | done a => exact hf a
  | ask q k ih => exact ⟨hP q k h.1, fun x => ih x (h.2 x)⟩

/-- A client that sends nothing has finished. -/
theorem eq_done_of_runs_nil {r : α} (h : Runs p [] r) : p = done r := by
  cases h
  rfl

/-- When the requests of a kind end every trace, and their answers determine the result, a client
that gets such an answer has finished with that result. -/
theorem each_of_runs [Nonempty A] {V : Q → Prop} {f : A → α}
    (h : ∀ tr r, Runs p tr r → ∀ pre q x post, tr = pre ++ (q, x) :: post → V q →
      post = [] ∧ r = f x) : Each (fun q k => V q → ∀ x, k x = done (f x)) p := by
  induction p with
  | done => trivial
  | ask q k ih =>
    refine ⟨fun hq x => ?_, fun x => ih x fun tr r hr pre q' x' post ht hv => ?_⟩
    · obtain ⟨tr, r, hr⟩ := exists_runs (k x)
      obtain ⟨rfl, rfl⟩ := h _ _ (.ask hr) [] q x tr rfl hq
      exact eq_done_of_runs_nil hr
    · exact h _ _ (.ask hr) ((q, x) :: pre) q' x' post (by rw [ht]; rfl) hv

end Each

/-! ### Properties of every request that is sent -/

/-- Every request that the client sends meets `V`, whatever is answered. -/
def Asks (V : Q → Prop) (p : Call ε Q A α) : Prop := ∀ tr r, Calls p tr r → ∀ x ∈ tr, V x.1

section Asks

variable {V : Q → Prop} {p : Call ε Q A α} {f : α → Call ε Q A β}

theorem asks_pure (a : α) : Asks V (pure a : Call ε Q A α) := by
  intro tr r h x hx
  obtain ⟨rfl, -⟩ := calls_pure.1 h
  cases hx

theorem asks_throw (e : ε) : Asks V (throw e : Call ε Q A α) := by
  intro tr r h x hx
  obtain ⟨rfl, -⟩ := calls_throw.1 h
  cases hx

theorem asks_done (x : Except ε α) : Asks V (ExceptT.mk (done x) : Call ε Q A α) := by
  intro tr r h y hy
  obtain ⟨rfl, -⟩ := calls_done.1 h
  cases hy

theorem asks_send {q : Q} (h : V q) : Asks V (Call.send q : Call ε Q A A) := by
  intro tr r hr x hx
  obtain ⟨a, rfl, -⟩ := calls_send.1 hr
  rw [List.mem_singleton.1 hx]
  exact h

theorem Asks.bind (hp : Asks V p) (hf : ∀ a, Asks V (f a)) : Asks V (p >>= f) := by
  intro tr r h x hx
  rcases calls_bind.1 h with ⟨e, -, he⟩ | ⟨tr₁, a, tr₂, rfl, h₁, h₂⟩
  · exact hp tr _ he x hx
  · rcases List.mem_append.1 hx with hx | hx
    · exact hp tr₁ _ h₁ x hx
    · exact hf a tr₂ r h₂ x hx

/-- What a client asks, it asks wherever it stands. -/
theorem Asks.each [Nonempty A] (h : Asks V p) : Each (fun q _ => V q) p.run := by
  have hruns : ∀ {t : Exchange Q A (Except ε α)}, (∀ tr r, Runs t tr r → ∀ x ∈ tr, V x.1) →
      Each (fun q _ => V q) t := by
    intro t
    induction t with
    | done => exact fun _ => trivial
    | ask q k ih =>
      intro ht
      obtain ⟨tr, r, hr⟩ := exists_runs (k (Classical.arbitrary A))
      refine ⟨ht _ _ (.ask hr) (q, _) List.mem_cons_self, fun x => ih x fun tr r hr y hy => ?_⟩
      exact ht _ _ (.ask hr) y (List.mem_cons_of_mem _ hy)
  exact hruns h

end Asks

/-! ### The end of a run against given answers -/

/-- The client ends in a value that meets `φ`, with the answers left, or in an exception that meets
`ψ`. -/
def Meets (φ : α → (ℕ → A) → Prop) (ψ : ε → Prop) :
    Exchange Q A (Except ε α) → (ℕ → A) → Prop
  | done (.ok a), answers => φ a answers
  | done (.error e), _ => ψ e
  | ask _ k, answers => Meets φ ψ (k (answers 0)) fun n => answers (n + 1)

section Meets

variable {φ : β → (ℕ → A) → Prop} {ψ : ε → Prop} {answers : ℕ → A}

@[simp] theorem meets_ok {b : β} :
    Meets φ ψ (done (.ok b) : Exchange Q A (Except ε β)) answers ↔ φ b answers := Iff.rfl

@[simp] theorem meets_error {e : ε} :
    Meets φ ψ (done (.error e) : Exchange Q A (Except ε β)) answers ↔ ψ e := Iff.rfl

@[simp] theorem meets_send {q : Q} {φ : A → (ℕ → A) → Prop} :
    Meets φ ψ (Call.send q : Call ε Q A A).run answers ↔ φ (answers 0) fun n => answers (n + 1) :=
  Iff.rfl

theorem meets_bind {p : Call ε Q A α} {f : α → Call ε Q A β} :
    Meets φ ψ (p >>= f).run answers ↔
      Meets (fun a rest => Meets φ ψ (f a).run rest) ψ p.run answers := by
  rw [ExceptT.run_bind]
  generalize p.run = t
  induction t generalizing answers with
  | done x => cases x <;> rfl
  | ask q k ih => exact ih (answers 0)

theorem meets_exec {φ : β → Prop} {t : Exchange Q A (Except ε β)} :
    Meets (fun b _ => φ b) ψ t answers ↔ (∀ b, (exec t answers).2 = .ok b → φ b) ∧
      ∀ e, (exec t answers).2 = .error e → ψ e := by
  induction t generalizing answers with
  | done x => cases x <;> simp [Meets, exec]
  | ask q k ih => exact ih (answers 0)

end Meets

end Exchange
