import Relay.Library.Exchange

/-!
# Clients that work in stages

A staged client gathers results one by one: `next` says which stage may follow the results so
far, and the client ends where none does; a stage that raises ends it too.  `Follows P ids tr r`
says that a run from the results `ids` with the trace `tr` and the outcome `r` goes by the stages.

* `Advances`: stages that succeed, with the trace of each;
* `Follows.position`: each exchange of a run belongs to a stage, which stages that have succeeded
  precede;
* `Follows.blocks`: the trace is the concatenation of the traces of its stages.
-/

universe u

namespace Staged

open Exchange

variable {ε Q A ι σ : Type u}

/-- The stages of a client, by the results they are chosen from. -/
structure Protocol (ε Q A ι σ : Type u) where
  next : List ι → σ → Prop
  call : σ → Call ε Q A ι

variable {P : Protocol ε Q A ι σ}

/-- Stages that succeed lead from some results to more; `bs` are their traces. -/
inductive Advances (P : Protocol ε Q A ι σ) : List ι → List (List (Q × A)) → List ι → Prop
  | stay (ids : List ι) : Advances P ids [] ids
  | stage {ids ids' : List ι} {st : σ} {b : List (Q × A)} {i : ι} {bs : List (List (Q × A))}
      (next : P.next ids st) (run : Calls (P.call st) b (.ok i))
      (rest : Advances P (ids ++ [i]) bs ids') : Advances P ids (b :: bs) ids'

/-- A run by the stages, to the last result or to the exception of a stage. -/
inductive Follows (P : Protocol ε Q A ι σ) : List ι → List (Q × A) → Except ε ι → Prop
  | finished {ids : List ι} {i : ι} (next : ∀ st, ¬ P.next (ids ++ [i]) st) :
      Follows P (ids ++ [i]) [] (.ok i)
  | failed {ids : List ι} {st : σ} {b : List (Q × A)} {e : ε} (next : P.next ids st)
      (run : Calls (P.call st) b (.error e)) : Follows P ids b (.error e)
  | stage {ids : List ι} {st : σ} {b tr : List (Q × A)} {i : ι} {r : Except ε ι}
      (next : P.next ids st) (run : Calls (P.call st) b (.ok i))
      (rest : Follows P (ids ++ [i]) tr r) : Follows P ids (b ++ tr) r

variable {ids ids' ids'' : List ι} {bs bs' : List (List (Q × A))} {tr : List (Q × A)}
  {r : Except ε ι}

theorem Advances.append (h : Advances P ids bs ids') (k : Advances P ids' bs' ids'') :
    Advances P ids (bs ++ bs') ids'' := by
  induction h with
  | stay => exact k
  | stage next run _ ih => exact .stage next run (ih k)

theorem Advances.follows (h : Advances P ids bs ids') (k : Follows P ids' tr r) :
    Follows P ids (bs.flatten ++ tr) r := by
  induction h with
  | stay => exact k
  | stage next run _ ih =>
    rw [List.flatten_cons, List.append_assoc]
    exact .stage next run (ih k)

theorem Advances.isPrefix (h : Advances P ids bs ids') : ids <+: ids' := by
  induction h with
  | stay => exact List.prefix_rfl
  | stage _ _ _ ih => exact (List.prefix_append _ _).trans ih

/-- What holds of every successful stage holds of each exchange in their traces. -/
theorem Advances.forall_mem (h : Advances P ids bs ids') {p : Q × A → Prop}
    (hp : ∀ ids st b i, P.next ids st → Calls (P.call st) b (.ok i) → ∀ x ∈ b, p x) :
    ∀ x ∈ bs.flatten, p x := by
  induction h with
  | stay => simp
  | stage next run _ ih =>
    intro x hx
    rw [List.flatten_cons, List.mem_append] at hx
    rcases hx with hx | hx
    · exact hp _ _ _ _ next run x hx
    · exact ih x hx

/-- Each new result comes from a stage, whose exchanges are in the trace. -/
theorem Advances.exists_stage (h : Advances P ids bs ids') {i : ι} (hi : i ∈ ids') :
    i ∈ ids ∨ ∃ ids₁ st b, ids₁ ++ [i] <+: ids' ∧ P.next ids₁ st ∧
      Calls (P.call st) b (.ok i) ∧ ∀ x ∈ b, x ∈ bs.flatten := by
  induction h with
  | stay => exact .inl hi
  | @stage ids ids' st b j bs next run rest ih =>
    rcases ih hi with hmem | ⟨ids₁, st₁, b₁, hpre, hnext, hrun, hsub⟩
    · rcases List.mem_append.1 hmem with hmem | hmem
      · exact .inl hmem
      · obtain rfl : i = j := by simpa using hmem
        refine .inr ⟨ids, st, b, rest.isPrefix, next, run, fun x hx => ?_⟩
        rw [List.flatten_cons]
        exact List.mem_append_left _ hx
    · refine .inr ⟨ids₁, st₁, b₁, hpre, hnext, hrun, fun x hx => ?_⟩
      rw [List.flatten_cons]
      exact List.mem_append_right _ (hsub x hx)

/-- Where no stage may follow, the run has ended. -/
theorem Follows.ended (h : Follows P ids tr r) (hlast : ∀ st, ¬ P.next ids st) :
    tr = [] ∧ ∃ init i, ids = init ++ [i] ∧ r = .ok i := by
  cases h with
  | finished => exact ⟨rfl, _, _, rfl, rfl⟩
  | failed next => exact absurd next (hlast _)
  | stage next => exact absurd next (hlast _)

/-! ### Staged clients -/

/-- A stage that no other can follow. -/
theorem Follows.last {st : σ} (next : P.next ids st) (hlast : ∀ i st', ¬ P.next (ids ++ [i]) st')
    (run : Calls (P.call st) tr r) : Follows P ids tr r := by
  cases r with
  | error e => exact .failed next run
  | ok i => exact List.append_nil tr ▸ .stage next run (.finished (hlast i))

/-- A stage and what the client does with its result. -/
theorem Follows.bind {st : σ} {f : ι → Call ε Q A ι} (next : P.next ids st)
    (hf : ∀ i tr r, Calls (f i) tr r → Follows P (ids ++ [i]) tr r)
    (run : Calls (P.call st >>= f) tr r) : Follows P ids tr r := by
  rcases calls_bind.1 run with ⟨e, rfl, hcall⟩ | ⟨tr₁, i, tr₂, rfl, hcall, hrest⟩
  · exact .failed next hcall
  · exact .stage next hcall (hf i tr₂ r hrest)

/-- The results of one call for each element of a list. -/
def gather {α : Type u} (f : α → Call ε Q A ι) : List α → Call ε Q A (List ι)
  | [] => pure []
  | a :: l => do
    let i ← f a
    let is ← gather f l
    pure (i :: is)

/-- Stages for the elements of a list, and what the client does with their results. -/
theorem Follows.gather {α : Type u} {stage : α → σ} {f : List ι → Call ε Q A ι} (l done : List α)
    (next : ∀ (ids : List ι) a, (done ++ l)[ids.length]? = some a → P.next ids (stage a))
    (hids : ids.length = done.length)
    (hf : ∀ ids' tr r, ids'.length = l.length → Calls (f ids') tr r → Follows P (ids ++ ids') tr r)
    (run : Calls (Staged.gather (fun a => P.call (stage a)) l >>= f) tr r) : Follows P ids tr r := by
  induction l generalizing ids done f tr r with
  | nil =>
    have run' : Calls (f []) tr r := by simpa [Staged.gather] using run
    simpa using hf [] tr r rfl run'
  | cons a l ih =>
    rw [Staged.gather, bind_assoc] at run
    refine .bind (next ids a (by simp [hids])) (fun i tr r hrun => ?_) run
    rw [bind_assoc] at hrun
    simp only [pure_bind] at hrun
    refine @ih (ids ++ [i]) tr r (fun is => f (i :: is)) (done ++ [a]) (fun ids b hb => ?_)
      (by simp [hids]) (fun ids' tr r hlen hcall => ?_) hrun
    · exact next ids b (by simpa using hb)
    · simpa using hf (i :: ids') tr r (by simp [hlen]) hcall

/-! ### Places in a run -/

/-- The place of an exchange in a run: the stages before it, its stage, and what follows. -/
structure Position (P : Protocol ε Q A ι σ) (ids : List ι) (pre : List (Q × A)) (x : Q × A)
    (post : List (Q × A)) (r : Except ε ι) (bs : List (List (Q × A))) (ids' : List ι) (st : σ)
    (before after rest : List (Q × A)) (res : Except ε ι) : Prop where
  advances : Advances P ids bs ids'
  next : P.next ids' st
  run : Calls (P.call st) (before ++ x :: after) res
  pre_eq : pre = bs.flatten ++ before
  post_eq : post = after ++ rest
  failed : ∀ e, res = .error e → rest = [] ∧ r = .error e
  goes_on : ∀ i, res = .ok i → Follows P (ids' ++ [i]) rest r

/-- Each exchange of a run has its place. -/
theorem Follows.position (h : Follows P ids tr r) {pre post : List (Q × A)} {x : Q × A}
    (ht : tr = pre ++ x :: post) : ∃ bs ids' st before after rest res,
      Position P ids pre x post r bs ids' st before after rest res := by
  induction h generalizing pre with
  | finished => simp at ht
  | @failed ids st b e next run =>
    subst ht
    exact ⟨[], ids, st, pre, post, [], .error e, .stay ids, next, run, rfl, by simp,
      fun _ he => ⟨rfl, he⟩, fun i hi => by cases hi⟩
  | @stage ids st b tr i r next run rest ih =>
    rcases List.append_eq_append_iff.1 ht with ⟨mid, rfl, hmid⟩ | ⟨mid, hb, hmid⟩
    · obtain ⟨bs, ids', st', before, after, rest', res, hpos⟩ := ih hmid
      refine ⟨b :: bs, ids', st', before, after, rest', res, .stage next run hpos.advances,
        hpos.next, hpos.run, ?_, hpos.post_eq, hpos.failed, hpos.goes_on⟩
      rw [hpos.pre_eq, List.flatten_cons, List.append_assoc]
    · cases mid with
      | nil =>
        rw [List.append_nil] at hb
        subst hb
        rw [List.nil_append] at hmid
        obtain ⟨bs, ids', st', before, after, rest', res, hpos⟩ := @ih [] hmid.symm
        refine ⟨b :: bs, ids', st', before, after, rest', res, .stage next run hpos.advances,
          hpos.next, hpos.run, ?_, hpos.post_eq, hpos.failed, hpos.goes_on⟩
        have hnil := hpos.pre_eq
        rw [List.flatten_cons, List.append_assoc, ← hnil, List.append_nil]
      | cons y mid =>
        obtain ⟨rfl, rfl⟩ : x = y ∧ post = mid ++ tr := by simpa using hmid
        subst hb
        exact ⟨[], ids, st, pre, mid, tr, .ok i, .stay ids, next, run, rfl, rfl,
          (fun _ he => by cases he), fun j hj => by cases hj; exact rest⟩

/-- The trace of a run, stage by stage. -/
theorem Follows.blocks (h : Follows P ids tr r) : ∃ bs : List (List (Q × A)), tr = bs.flatten ∧
    ∀ b ∈ bs, ∃ ids' st res, P.next ids' st ∧ Calls (P.call st) b res := by
  induction h with
  | finished => exact ⟨[], rfl, by simp⟩
  | @failed ids st b e next run =>
    refine ⟨[b], by simp, fun c hc => ?_⟩
    obtain rfl : c = b := by simpa using hc
    exact ⟨ids, st, _, next, run⟩
  | @stage ids st b tr i r next run _ ih =>
    obtain ⟨bs, rfl, hbs⟩ := ih
    refine ⟨b :: bs, by simp, fun c hc => ?_⟩
    rcases List.mem_cons.1 hc with rfl | hc
    · exact ⟨ids, st, _, next, run⟩
    · exact hbs c hc

/-- A run that returns has a last stage, which no other may follow, unless it had ended before. -/
theorem Follows.returned (h : Follows P ids tr r) {i : ι} (hr : r = .ok i) :
    (tr = [] ∧ ∃ init, ids = init ++ [i] ∧ ∀ st, ¬ P.next ids st) ∨
      ∃ ids' st b tr₁, tr = tr₁ ++ b ∧ P.next ids' st ∧ Calls (P.call st) b (.ok i) ∧
        ∀ st', ¬ P.next (ids' ++ [i]) st' := by
  induction h with
  | finished next => cases hr; exact .inl ⟨rfl, _, rfl, next⟩
  | failed => cases hr
  | @stage ids st b tr j r next run _ ih =>
    rcases ih hr with ⟨rfl, init, hinit, hnone⟩ | ⟨ids', st', b', tr₁, rfl, hnext, hrun, hnone⟩
    · obtain ⟨-, rfl⟩ : ids = init ∧ j = i := by simpa using hinit
      exact .inr ⟨ids, st, b, [], by simp, next, run, hnone⟩
    · exact .inr ⟨ids', st', b', b ++ tr₁, by simp, hnext, hrun, hnone⟩

end Staged
