import Relay.Library.Retry
import Relay.Evolution
import Relay.Execution

/-!
# The delivery of a publication

The rows of a publication and its attempts, and the rows a worker holds between its two
transactions, in every state of the system:

* `Attempted`: the attempts are numbered from one, all but the last are to be retried, and the
  last one determines the state of the publication;
* `Delivering`: every publication is attempted so, and the worker between the claim and the
  outcome of a publication is alone with it, `delivering_of_reachable`;
* `Touched`: what a step does to a publication and its attempts, `SysStep.touched`;
* `job`: a publication as a job under the limit of tries, which the system refines,
  `Trail.refines`.
-/

namespace Relay

open Relational Sequence Transition

/-! ### The attempts of one publication -/

/-- The state in which an attempt leaves its publication. -/
def Outcome.state : Outcome → LifecycleState
  | .blank => .publishing
  | .retry => .scheduled
  | .published => .published
  | .failed => .failed

/-- The state that the last attempt determines. -/
def stateAfter (attempts : List PublicationAttempt) : LifecycleState :=
  match attempts.getLast? with
  | none => .scheduled
  | some a => a.outcome.state

/-- The attempts of a publication, in the order of their creation, and its state. -/
structure Attempted (state : LifecycleState) (attempts : List PublicationAttempt) : Prop where
  numbered : attempts.map (·.attemptNumber) = List.range' 1 attempts.length
  earlier : ∀ a ∈ attempts.dropLast, a.outcome = .retry
  completed : ∀ a ∈ attempts, a.completedAt = none ↔ a.outcome = .blank
  state_eq : state = stateAfter attempts

section Attempted

variable {attempts : List PublicationAttempt} {a a' : PublicationAttempt} {state : LifecycleState}

@[simp] theorem stateAfter_nil : stateAfter [] = .scheduled := rfl

@[simp] theorem stateAfter_append : stateAfter (attempts ++ [a]) = a.outcome.state := by
  simp [stateAfter]

theorem Attempted.nil : Attempted .scheduled [] where
  numbered := rfl
  earlier _ ha := by cases ha
  completed _ ha := by cases ha
  state_eq := rfl

/-- Every attempt of a scheduled publication is to be retried. -/
theorem Attempted.retried (h : Attempted .scheduled attempts) :
    ∀ b ∈ attempts, b.outcome = .retry := by
  rcases attempts.eq_nil_or_concat with rfl | ⟨init, b, rfl⟩
  · simp
  · rw [List.concat_eq_append] at h ⊢
    have hstate := h.state_eq
    have hinit := h.earlier
    rw [stateAfter_append] at hstate
    rw [List.dropLast_concat] at hinit
    intro c hc
    rcases List.mem_append.1 hc with hc | hc
    · exact hinit c hc
    · obtain rfl : c = b := by simpa using hc
      cases ho : c.outcome with
      | retry => rfl
      | _ => rw [ho] at hstate; cases hstate

/-- A scheduled publication is attempted once more. -/
theorem Attempted.start (h : Attempted .scheduled attempts)
    (hnumber : a.attemptNumber = attempts.length + 1) (houtcome : a.outcome = .blank)
    (hcompleted : a.completedAt = none) : Attempted .publishing (attempts ++ [a]) where
  numbered := by
    rw [List.map_append, h.numbered, List.length_append, List.length_singleton, List.range'_concat,
      List.map_singleton, hnumber, Nat.one_mul, Nat.add_comm]
  earlier := by rw [List.dropLast_concat]; exact h.retried
  completed b hb := by
    rcases List.mem_append.1 hb with hb | hb
    · exact h.completed b hb
    · obtain rfl : b = a := by simpa using hb
      exact iff_of_true hcompleted houtcome
  state_eq := by rw [stateAfter_append, houtcome]; rfl

/-- The attempt under way is concluded. -/
theorem Attempted.conclude (h : Attempted state (attempts ++ [a]))
    (hnumber : a'.attemptNumber = a.attemptNumber) (houtcome : a'.outcome ≠ .blank)
    (hcompleted : a'.completedAt ≠ none) : Attempted a'.outcome.state (attempts ++ [a']) where
  numbered := by simpa [hnumber] using h.numbered
  earlier := by simpa using h.earlier
  completed b hb := by
    rcases List.mem_append.1 hb with hb | hb
    · exact h.completed b (List.mem_append_left _ hb)
    · obtain rfl : b = a' := by simpa using hb
      exact iff_of_false hcompleted houtcome
  state_eq := by rw [stateAfter_append]

/-- At most one attempt has published. -/
theorem Attempted.published_unique (h : Attempted state attempts) :
    (attempts.filter (·.outcome = .published)).length ≤ 1 := by
  rcases attempts.eq_nil_or_concat with rfl | ⟨init, b, rfl⟩
  · simp
  · rw [List.concat_eq_append] at h ⊢
    have hinit := h.earlier
    rw [List.dropLast_concat] at hinit
    have hnone : init.filter (·.outcome = .published) = [] := by
      rw [List.filter_eq_nil_iff]
      intro c hc
      simp [hinit c hc]
    rw [List.filter_append, hnone, List.nil_append]
    exact List.length_filter_le _ _

end Attempted

/-! ### The rows a worker holds -/

/-- The rows held after the claim, if the worker has made it. -/
def Phase.claim? : Phase → Option Claim
  | .begun _ => none
  | .claimed claim => some claim
  | .publishing claim _ => some claim

/-- The worker is between the claim of a publication and its outcome. -/
def Sys.Holds (s : Sys) (k : ℕ) (publication : Uuid) (claim : Claim) : Prop :=
  ∃ phase, s.workers k = some ⟨publication, phase⟩ ∧ phase.claim? = some claim

/-- The rows held are those of the store: the publication and its last attempt, which is open. -/
structure Held (s : Store) (claim : Claim) : Prop where
  publication : claim.publication ∈ s.publications
  publishing : claim.publication.state = .publishing
  attempt : ∃ init, attemptsOf s claim.publication.id = init ++ [claim.attempt]
  blank : claim.attempt.outcome = .blank

/-- A claim is held on while its publication and the attempts stay. -/
theorem Held.stays {s s' : Store} {claim : Claim} (h : Held s claim)
    (publication : claim.publication ∈ s'.publications)
    (attempts : attemptsOf s' claim.publication.id = attemptsOf s claim.publication.id) :
    Held s' claim where
  publication := publication
  publishing := h.publishing
  attempt := attempts ▸ h.attempt
  blank := h.blank

/-- How publications, attempts and workers fit together. -/
structure Delivering (s : Sys) : Prop where
  attempted : ∀ p ∈ s.store.publications, Attempted p.state (attemptsOf s.store p.id)
  owned : ∀ a ∈ s.store.attempts, ∃ p ∈ s.store.publications, p.id = a.publication
  held : ∀ k id claim, s.Holds k id claim → claim.publication.id = id ∧ Held s.store claim
  alone : ∀ k k' id claim claim', s.Holds k id claim → s.Holds k' id claim' → k = k'

section Holds

variable {s : Sys} {k k' : ℕ} {id id' : Uuid} {claim : Claim} {phase : Phase}

theorem holds_goOn : (s.goOn k id phase).Holds k' id' claim ↔
    if k' = k then id = id' ∧ phase.claim? = some claim else s.Holds k' id' claim := by
  unfold Sys.Holds Sys.goOn Sys.setWorker
  simp only [Function.update_apply]
  split
  · simp only [Option.some.injEq, Worker.mk.injEq]
    exact ⟨fun ⟨_, ⟨hid, hphase⟩, h⟩ => ⟨hid, hphase ▸ h⟩, fun ⟨hid, h⟩ => ⟨_, ⟨hid, rfl⟩, h⟩⟩
  · rfl

theorem holds_stop : (s.setWorker k none).Holds k' id' claim ↔ k' ≠ k ∧ s.Holds k' id' claim := by
  unfold Sys.Holds Sys.setWorker
  simp only [Function.update_apply]
  split <;> simp_all

end Holds

/-! ### One step -/

section Step

variable {env : Env} {publisher : Option Publisher} {s s' : Sys} {o : Output} {l : Label}

/-- A worker holds the rows it held before, or it has just claimed them. -/
theorem SysStep.holds (hstep : SysStep env publisher s l s' o) {k : ℕ} {id : Uuid} {claim : Claim}
    (hk : s'.Holds k id claim) : s.Holds k id claim ∨ (o = .claimed claim ∧ claim.publication.id = id ∧
      ∃ started attempt, Claimed started s.clock attempt claim s.store s'.store) := by
  -- a worker that goes on with the rows it holds
  have hsame : ∀ {k' id' phase phase' claim'}, s.workers k' = some ⟨id', phase⟩ →
      phase.claim? = some claim' → phase'.claim? = some claim' →
      (s.goOn k' id' phase').Holds k id claim → s.Holds k id claim := by
    intro k' id' phase phase' claim' hworker hphase hphase' hk
    rw [holds_goOn] at hk
    split at hk
    · rename_i hk'
      obtain ⟨rfl, hsome⟩ := hk
      rw [hphase'] at hsome
      cases hsome
      exact ⟨phase, hk' ▸ hworker, hphase⟩
    · exact hk
  cases hstep with
  | @claimed k' publication started attempt claim' store worker hid claimed =>
    rw [holds_goOn] at hk
    split at hk
    · obtain ⟨rfl, hsome⟩ := hk
      cases hsome
      exact .inr ⟨rfl, hid, started, attempt, claimed⟩
    · exact .inl hk
  | started =>
    rw [holds_goOn] at hk
    split at hk
    · cases hk.2
    · exact .inl hk
  | claimRaised | claimMissed | finishRaised | finished | killed => exact .inl (holds_stop.1 hk).2
  | unprepared worker | prepared worker | exchanged worker => exact .inl (hsame worker rfl rfl hk)
  | _ => exact .inl hk

/-- Steps that leave publications and attempts alone and hand no rows to a worker. -/
theorem Delivering.frame (h : Delivering s) (hp : s'.store.publications = s.store.publications)
    (ha : s'.store.attempts = s.store.attempts)
    (hw : ∀ k id claim, s'.Holds k id claim → s.Holds k id claim) : Delivering s' where
  attempted := by unfold attemptsOf; rw [hp, ha]; exact h.attempted
  owned := by rw [hp, ha]; exact h.owned
  held k id claim hk := by
    obtain ⟨hid, hheld⟩ := h.held k id claim (hw k id claim hk)
    refine ⟨hid, hheld.stays (hp ▸ hheld.publication) ?_⟩
    unfold attemptsOf
    rw [ha]
  alone k k' id claim claim' hk hk' := h.alone k k' id claim claim' (hw _ _ _ hk) (hw _ _ _ hk')

/-- The commit of a command leaves attempts alone and adds at most one publication. -/
theorem Effect.publications {w : World} {c : Command} {r : Reply} {t t' : Store}
    (h : Effect env w c r t t') : t'.attempts = t.attempts ∧ (t'.publications = t.publications ∨
      ∃ call, c = .schedulePublication call ∧
        t.publications.insert? (newPublication env w.now (w.ids 0) call) = some t'.publications) := by
  cases h with
  | scheduled _ _ insert => exact ⟨rfl, .inr ⟨_, rfl, insert⟩⟩
  | _ => exact ⟨rfl, .inl rfl⟩

/-- The attempts of a publication that is not there yet. -/
theorem Delivering.attemptsOf_fresh (h : Delivering s) {id : Uuid}
    (hid : ∀ p ∈ s.store.publications, p.id ≠ id) : attemptsOf s.store id = [] := by
  rw [List.eq_nil_iff_forall_not_mem]
  intro a ha
  obtain ⟨hmem, hpub⟩ := Table.mem_where.1 ha
  obtain ⟨p, hp, hpa⟩ := h.owned a hmem
  exact hid p hp (hpa.trans (by simpa using hpub))

theorem Delivering.committed (h : Delivering s) {w : World} {k : ℕ} {t : Option Ticket} {c : Command}
    {r : Reply} {store : Store} (effect : Effect env w c r s.store store) :
    Delivering ({ s with store }.setTicket k t) := by
  obtain ⟨hattempts, hpublications | ⟨call, -, hinsert⟩⟩ := effect.publications
  · exact h.frame hpublications hattempts fun _ _ _ hk => hk
  · have hfresh : attemptsOf s.store (newPublication env w.now (w.ids 0) call).id = [] :=
      h.attemptsOf_fresh (Table.fresh_of_insert? hinsert)
    refine ⟨fun p hp => ?_, fun a ha => ?_, fun k id claim hk => ?_, h.alone⟩
    · change Attempted p.state (store.attempts.where _)
      rw [hattempts]
      rcases (Table.mem_insert? hinsert).1 hp with hp | rfl
      · exact h.attempted p hp
      · change Attempted _ (attemptsOf s.store _)
        rw [hfresh]
        exact .nil
    · obtain ⟨p, hp, hpa⟩ := h.owned a (hattempts ▸ ha)
      exact ⟨p, Table.mem_of_mem_insert? hinsert hp, hpa⟩
    · obtain ⟨hid, hheld⟩ := h.held k id claim hk
      refine ⟨hid, hheld.stays (Table.mem_of_mem_insert? hinsert hheld.publication) ?_⟩
      change store.attempts.where _ = _
      rw [hattempts]
      rfl

/-- A publication that waits for its time is held by no worker. -/
theorem Delivering.not_held (h : Delivering s) {k : ℕ} {id : Uuid} {claim : Claim} {p : Publication}
    (hk : s.Holds k id claim) (hp : p ∈ s.store.publications) (hstate : p.state = .scheduled) :
    id ≠ p.id := by
  obtain ⟨rfl, hheld⟩ := h.held k id claim hk
  intro hid
  have := hheld.publishing
  rw [Table.eq_of_key hheld.publication hp hid, hstate] at this
  cases this

/-- What a claim does to publications and attempts. -/
theorem Claimed.rows {started now : Time} {attemptId : Uuid} {claim : Claim} {t t' : Store}
    (h : Claimed started now attemptId claim t t') : ∃ p ∈ t.publications, p.due started = true ∧
      claim.publication = p.claimed now ∧
      claim.attempt = newAttempt started now attemptId p.id ((attemptsOf t p.id).length + 1) ∧
      t'.publications = t.publications.update p.id ⟨(·.claimed now), fun _ => rfl⟩ ∧
      t.attempts.insert? claim.attempt = some t'.attempts := by
  cases h with
  | claimed mem due _ _ attempt_eq insert => exact ⟨_, mem, due, rfl, attempt_eq, rfl, insert⟩

theorem Claimed.attemptsOf_self {started now : Time} {attemptId : Uuid} {claim : Claim} {t t' : Store}
    (h : Claimed started now attemptId claim t t') :
    attemptsOf t' claim.publication.id = attemptsOf t claim.publication.id ++ [claim.attempt] := by
  obtain ⟨p, -, -, hclaim, hattempt, -, hinsert⟩ := h.rows
  have hpublication : claim.attempt.publication = claim.publication.id := by rw [hattempt, hclaim]; rfl
  unfold attemptsOf
  rw [Table.where_insert? hinsert]
  simp [hpublication]

theorem Claimed.attemptsOf_other {started now : Time} {attemptId : Uuid} {claim : Claim}
    {t t' : Store} (h : Claimed started now attemptId claim t t') {id : Uuid}
    (hid : id ≠ claim.publication.id) : attemptsOf t' id = attemptsOf t id := by
  obtain ⟨p, -, -, hclaim, hattempt, -, hinsert⟩ := h.rows
  have hpublication : claim.attempt.publication = claim.publication.id := by rw [hattempt, hclaim]; rfl
  unfold attemptsOf
  rw [Table.where_insert? hinsert]
  simp [hpublication, hid.symm]

theorem Delivering.claimed (h : Delivering s) {started now : Time} {attempt : Uuid} {claim : Claim}
    {store : Store} {k : ℕ} (claimed : Claimed started now attempt claim s.store store) :
    Delivering ({ s with store }.goOn k claim.publication.id (.claimed claim)) := by
  obtain ⟨p, hmem, hdue, hclaim, hattempt, hp, hinsert⟩ := claimed.rows
  have hstate : p.state = .scheduled := (Publication.due_iff.1 hdue).1
  have hid : claim.publication.id = p.id := by rw [hclaim]; rfl
  have hpublication : claim.attempt.publication = p.id := by rw [hattempt]; rfl
  have hself : attemptsOf store p.id = attemptsOf s.store p.id ++ [claim.attempt] :=
    hid ▸ claimed.attemptsOf_self
  have hother : ∀ id, id ≠ p.id → attemptsOf store id = attemptsOf s.store id :=
    fun id hne => claimed.attemptsOf_other (hid ▸ hne)
  have hblank : claim.attempt.outcome = .blank := by rw [hattempt]; rfl
  refine ⟨fun q hq => ?_, fun a ha => ?_, fun k' id' claim' hk' => ?_,
    fun k₁ k₂ id claim₁ claim₂ h₁ h₂ => ?_⟩
  · change q ∈ store.publications at hq
    rw [hp] at hq
    obtain ⟨r, hr, rfl⟩ := Table.mem_update.1 hq
    change Attempted _ (attemptsOf store _)
    split
    · rename_i hkey
      have hr' : r = p := Table.eq_of_key hr hmem hkey
      have hattempted := h.attempted p hmem
      rw [hstate] at hattempted
      rw [hr']
      change Attempted .publishing (attemptsOf store p.id)
      rw [hself]
      exact hattempted.start (by rw [hattempt]; rfl) hblank (by rw [hattempt]; rfl)
    · rename_i hkey
      change r.id ≠ p.id at hkey
      rw [hother _ hkey]
      exact h.attempted r hr
  · obtain ⟨q, hq, hqa⟩ : ∃ q ∈ s.store.publications, q.id = a.publication := by
      rcases (Table.mem_insert? hinsert).1 ha with ha | rfl
      · exact h.owned a ha
      · exact ⟨p, hmem, hpublication.symm⟩
    change ∃ q' ∈ store.publications, q'.id = a.publication
    rw [hp, ← hqa]
    exact Table.exists_update_of_mem hq
  · rw [holds_goOn] at hk'
    split at hk'
    · obtain ⟨rfl, hsome⟩ := hk'
      cases hsome
      refine ⟨rfl, ?_, by rw [hclaim]; rfl, ⟨attemptsOf s.store p.id, hid ▸ hself⟩, hblank⟩
      rw [hclaim]
      exact hp ▸ Table.mem_update_self hmem rfl
    · obtain ⟨rfl, hheld⟩ := h.held k' id' claim' hk'
      have hne := h.not_held hk' hmem hstate
      exact ⟨rfl, hheld.stays (hp ▸ Table.mem_update_of_ne hheld.publication hne) (hother _ hne)⟩
  · rw [holds_goOn] at h₁ h₂
    have hnew : ∀ {k' id' claim'}, claim.publication.id = id' → s.Holds k' id' claim' → False :=
      fun hid' hk' => h.not_held hk' hmem hstate (hid'.symm.trans hid)
    split at h₁ <;> split at h₂
    · rename_i hk₁ hk₂
      exact hk₁.trans hk₂.symm
    · exact (hnew h₁.1 h₂).elim
    · exact (hnew h₂.1 h₁).elim
    · exact h.alone _ _ _ _ _ h₁ h₂

/-- How the outcome of an attempt rewrites the attempt and its publication. -/
structure Conclusion (limit : ℤ) (claim : Claim) (f : Rewrite PublicationAttempt)
    (g : Rewrite Publication) : Prop where
  publication : ∀ a, (f a).publication = a.publication
  number : ∀ a, (f a).attemptNumber = a.attemptNumber
  outcome : ∀ a, (f a).outcome ≠ .blank
  completed : ∀ a, (f a).completedAt ≠ none
  state : ∀ p a, (g p).state = (f a).outcome.state
  room : ∀ a, (f a).outcome = .retry → (claim.attempt.attemptNumber : ℤ) < limit

/-- The times that the outcome at `now` leaves behind. -/
structure Dated (now : Time) (claim : Claim) (f : Rewrite PublicationAttempt) (g : Rewrite Publication) :
    Prop where
  started : ∀ a, (f a).startedAt = a.startedAt
  completed : ∀ a, (f a).completedAt = some now
  scheduled : ∀ p, (g p).scheduledFor = if (f claim.attempt).outcome = .retry then
    now + retryDelay claim.attempt.attemptNumber else p.scheduledFor

/-- The attempt held is a row of the store. -/
theorem Held.mem_attempts {t : Store} {claim : Claim} (h : Held t claim) :
    claim.attempt ∈ t.attempts ∧ claim.attempt.publication = claim.publication.id := by
  obtain ⟨init, hinit⟩ := h.attempt
  have hmem : claim.attempt ∈ attemptsOf t claim.publication.id := by simp [hinit]
  obtain ⟨ha, hpub⟩ := Table.mem_where.1 hmem
  exact ⟨ha, by simpa using hpub⟩

/-- What the second transaction does to publications and attempts. -/
theorem Finished.rows {now : Time} {claim : Claim} {result : Except DeliveryError String}
    {answer : String} {t t' : Store} (h : Finished env now claim result answer t t')
    (hheld : Held t claim) : ∃ f g, Conclusion env.relayPublicationMaxAttempts claim f g ∧
      t'.publications = t.publications.update claim.publication.id g ∧
      t'.attempts = t.attempts.update claim.attempt.id f ∧
      ((f claim.attempt).outcome = .retry → ∃ m, result = .error (.metaPublishTransientError m)) ∧
      Dated now claim f g := by
  cases h with
  | published =>
    refine ⟨_, _, ⟨fun _ => rfl, fun _ => rfl, fun _ => ?_, fun _ => ?_, fun _ _ => rfl,
      fun _ hretry => ?_⟩, rfl, rfl, fun hretry => ?_, fun _ => rfl, fun _ => rfl, fun _ => rfl⟩
    · nofun
    · exact Option.some_ne_none _
    · cases hretry
    · cases hretry
  | @failed _ _ attempt error shouldRetry _ attemptRow retry =>
    have hattempt : attempt = claim.attempt :=
      Option.some.inj (attemptRow.symm.trans (Table.get?_key hheld.mem_attempts.1))
    refine ⟨_, _, ⟨fun _ => rfl, fun _ => rfl, fun _ => ?_, fun _ => ?_, fun _ _ => ?_,
      fun _ hretry => ?_⟩, rfl, rfl, fun hretry => ?_, fun _ => rfl, fun _ => rfl, fun _ => ?_⟩
    · cases shouldRetry <;> nofun
    · exact Option.some_ne_none _
    · cases shouldRetry <;> rfl
    · cases shouldRetry with
      | false => cases hretry
      | true => exact hattempt ▸ (retry.1 rfl).2
    · cases shouldRetry with
      | false => cases hretry
      | true =>
        obtain ⟨⟨m, rfl⟩, -⟩ := retry.1 rfl
        exact ⟨m, rfl⟩
    · cases shouldRetry with
      | false => rfl
      | true => rw [← hattempt]; rfl

/-- An outcome changes the last attempt of its publication. -/
theorem Conclusion.attemptsOf_self {limit : ℤ} {claim : Claim} {f : Rewrite PublicationAttempt}
    {g : Rewrite Publication} {t t' : Store} (hfg : Conclusion limit claim f g) (hheld : Held t claim)
    (ha : t'.attempts = t.attempts.update claim.attempt.id f) :
    ∃ init, attemptsOf t claim.publication.id = init ++ [claim.attempt] ∧
      attemptsOf t' claim.publication.id = init ++ [f claim.attempt] := by
  obtain ⟨init, hinit⟩ := hheld.attempt
  refine ⟨init, hinit, ?_⟩
  unfold attemptsOf
  rw [ha]
  exact Table.where_update_last (fun a => by rw [hfg.publication]) hinit

/-- An outcome leaves the attempts of other publications alone. -/
theorem Conclusion.attemptsOf_other {limit : ℤ} {claim : Claim} {f : Rewrite PublicationAttempt}
    {g : Rewrite Publication} {t t' : Store} (hfg : Conclusion limit claim f g) (hheld : Held t claim)
    (ha : t'.attempts = t.attempts.update claim.attempt.id f) {id : Uuid}
    (hid : id ≠ claim.publication.id) : attemptsOf t' id = attemptsOf t id := by
  unfold attemptsOf
  rw [ha]
  refine Table.where_update_of_ne (fun a => by rw [hfg.publication]) fun a hmem hkey => hid ?_
  obtain ⟨ha₁, hpub⟩ := Table.mem_where.1 hmem
  rw [Table.eq_of_key ha₁ hheld.mem_attempts.1 hkey] at hpub
  exact (decide_eq_true_eq.mp hpub).symm.trans hheld.mem_attempts.2

/-- The worker records the outcome of the attempt it holds. -/
theorem Delivering.concluded (h : Delivering s) {k : ℕ} {id : Uuid} {claim : Claim} {store : Store}
    {limit : ℤ} {f : Rewrite PublicationAttempt} {g : Rewrite Publication} (hk : s.Holds k id claim)
    (hfg : Conclusion limit claim f g) (hp : store.publications = s.store.publications.update id g)
    (ha : store.attempts = s.store.attempts.update claim.attempt.id f) :
    Delivering ({ s with store }.setWorker k none) := by
  obtain ⟨rfl, hheld⟩ := h.held k id claim hk
  obtain ⟨init, hinit, hself⟩ := hfg.attemptsOf_self hheld ha
  have hother := fun id (hid : id ≠ claim.publication.id) => hfg.attemptsOf_other hheld ha hid
  refine ⟨fun p hmem => ?_, fun a hmem => ?_, fun k' id' claim' hk' => ?_,
    fun k₁ k₂ id claim₁ claim₂ h₁ h₂ => ?_⟩
  · change p ∈ store.publications at hmem
    rw [hp] at hmem
    obtain ⟨q, hq, rfl⟩ := Table.mem_update.1 hmem
    have hattempted := h.attempted q hq
    change Attempted _ (attemptsOf store _)
    split
    · rename_i hkey
      have hg : (g claim.publication).id = claim.publication.id := g.keeps _
      rw [Table.eq_of_key hq hheld.publication hkey] at hattempted ⊢
      rw [hg, hself, hfg.state _ claim.attempt]
      rw [hinit] at hattempted
      exact hattempted.conclude (hfg.number _) (hfg.outcome _) (hfg.completed _)
    · rename_i hkey
      change q.id ≠ claim.publication.id at hkey
      rwa [hother _ hkey]
  · change a ∈ store.attempts at hmem
    rw [ha] at hmem
    obtain ⟨b, hb, rfl⟩ := Table.mem_update.1 hmem
    obtain ⟨p, hpmem, hpid⟩ := h.owned b hb
    have hb' : (if key b = claim.attempt.id then f b else b).publication = b.publication := by
      split
      · exact hfg.publication b
      · rfl
    rw [hb']
    change ∃ q ∈ store.publications, q.id = b.publication
    rw [hp, ← hpid]
    exact Table.exists_update_of_mem hpmem
  · obtain ⟨hne, hk'⟩ := holds_stop.1 hk'
    obtain ⟨rfl, hheld'⟩ := h.held k' id' claim' hk'
    have hid : claim'.publication.id ≠ claim.publication.id := fun heq =>
      hne (h.alone k' k _ claim' claim hk' (heq ▸ hk))
    exact ⟨rfl, hheld'.stays (hp ▸ Table.mem_update_of_ne hheld'.publication hid) (hother _ hid)⟩
  · exact h.alone _ _ _ _ _ (holds_stop.1 h₁).2 (holds_stop.1 h₂).2

theorem Delivering.step (h : Delivering s) (hstep : SysStep env publisher s l s' o) :
    Delivering s' := by
  have hkeep : (∀ claim, o ≠ .claimed claim) →
      ∀ k id claim, s'.Holds k id claim → s.Holds k id claim :=
    fun ho _ _ _ hk => (hstep.holds hk).resolve_right fun hclaimed => ho _ hclaimed.1
  cases hstep with
  | committed _ effect => exact h.committed effect
  | claimed _ id claimed => exact id ▸ h.claimed claimed
  | @finished k publication claim _ _ _ worker finished =>
    have hk : s.Holds k publication claim := ⟨_, worker, rfl⟩
    obtain ⟨rfl, hheld⟩ := h.held _ _ _ hk
    obtain ⟨f, g, hfg, hp, ha, -⟩ := finished.rows hheld
    exact h.concluded hk hfg hp ha
  | _ => exact h.frame rfl rfl (hkeep fun _ hclaimed => by cases hclaimed)

theorem Delivering.initial (tenants : Table Tenant) (brands : Table Brand)
    (memberships : Table Membership) (clock : Time) :
    Delivering (.initial tenants brands memberships clock) where
  attempted p hp := absurd hp (Table.not_mem_empty p)
  owned a ha := absurd ha (Table.not_mem_empty a)
  held _ _ _ hk := by obtain ⟨_, hw, -⟩ := hk; cases hw
  alone _ _ _ _ _ hk := by obtain ⟨_, hw, -⟩ := hk; cases hw

end Step

/-- **Publications, attempts and workers fit together in every state of the system.** -/
theorem delivering_of_reachable {env : Env} {publisher : Option Publisher} {s : Sys}
    (h : Reachable (relay env publisher) s) : Delivering s := by
  refine h.invariant ?_ fun _ _ _ hs hstep => hs.step (next_step hstep)
  rintro _ ⟨tenants, brands, memberships, clock, rfl⟩
  exact .initial tenants brands memberships clock

/-! ### A publication as a job -/

/-- Where the job of a publication stands. -/
def LifecycleState.phase : LifecycleState → Retry.Phase
  | .scheduled => .waiting
  | .publishing => .trying
  | .published => .settled true
  | _ => .settled false

/-- A publication as a job: its attempts are the tries. -/
def job (s : Store) (p : Publication) : Retry.Job := ⟨(attemptsOf s p.id).length, p.state.phase⟩

section Refinement

variable {env : Env} {publisher : Option Publisher} {s s' : Sys} {o : Output} {l : Label}

/-- What a step does to a publication and its attempts: a worker claims the publication, or concludes
the attempt that it holds. -/
inductive Touched (env : Env) (s s' : Sys) (p : Publication) : Prop
  | kept (mem : p ∈ s'.store.publications)
      (attempts : attemptsOf s'.store p.id = attemptsOf s.store p.id)
  | claimed {k : ℕ} {started : Time} {attempt : Uuid}
      (worker : s.workers k = some ⟨p.id, .begun started⟩) (due : p.due started = true)
      (mem : p.claimed s.clock ∈ s'.store.publications)
      (attempts : attemptsOf s'.store p.id = attemptsOf s.store p.id ++
        [newAttempt started s.clock attempt p.id ((attemptsOf s.store p.id).length + 1)])
  | concluded {k : ℕ} {claim : Claim} {f : Rewrite PublicationAttempt} {g : Rewrite Publication}
      {init : List PublicationAttempt} (worker : s.Holds k p.id claim) (held : Held s.store claim)
      (row : p = claim.publication)
      (conclusion : Conclusion env.relayPublicationMaxAttempts claim f g)
      (dated : Dated s.clock claim f g) (mem : g p ∈ s'.store.publications)
      (before : attemptsOf s.store p.id = init ++ [claim.attempt])
      (after : attemptsOf s'.store p.id = init ++ [f claim.attempt])

/-- **What a step does to a publication and its attempts.** -/
theorem SysStep.touched (hstep : SysStep env publisher s l s' o) (hs : Delivering s) {p : Publication}
    (hp : p ∈ s.store.publications) : Touched env s s' p := by
  cases hstep with
  | committed _ effect =>
    obtain ⟨ha, hsame | ⟨call, -, hinsert⟩⟩ := effect.publications
    · exact .kept (hsame ▸ hp) (congrArg (fun t : Table PublicationAttempt => t.where _) ha)
    · exact .kept (Table.mem_of_mem_insert? hinsert hp)
        (congrArg (fun t : Table PublicationAttempt => t.where _) ha)
  | @claimed k publication started attempt claim store worker hid claimed =>
    obtain ⟨q, hq, hdue, hclaim, hattempt, hpubs, -⟩ := claimed.rows
    by_cases hpq : p.id = q.id
    · obtain rfl : p = q := Table.eq_of_key hp hq hpq
      obtain rfl : p.id = publication := by rw [← hid, hclaim]; rfl
      have hself := claimed.attemptsOf_self
      rw [hclaim, hattempt] at hself
      exact .claimed worker hdue (hpubs ▸ Table.mem_update_self hp rfl) hself
    · exact .kept (hpubs ▸ Table.mem_update_of_ne hp hpq)
        (claimed.attemptsOf_other (by rw [hclaim]; exact hpq))
  | @finished k publication claim _ _ store worker finished =>
    obtain ⟨rfl, hheld⟩ := hs.held _ _ _ ⟨_, worker, rfl⟩
    obtain ⟨f, g, hfg, hpubs, ha, -, hdated⟩ := finished.rows hheld
    by_cases hpid : p.id = claim.publication.id
    · obtain rfl : p = claim.publication := Table.eq_of_key hp hheld.publication hpid
      obtain ⟨init, hbefore, hafter⟩ := hfg.attemptsOf_self hheld ha
      exact .concluded ⟨_, worker, rfl⟩ hheld rfl hfg hdated (hpubs ▸ Table.mem_update_self hp rfl) hbefore hafter
    · exact .kept (hpubs ▸ Table.mem_update_of_ne hp hpid) (hfg.attemptsOf_other hheld ha hpid)
  | _ => exact .kept hp rfl

/-- The job of each publication stays as it is or takes a step. -/
theorem SysStep.refines (hstep : SysStep env publisher s l s' o) (hs : Delivering s)
    {p : Publication} (hp : p ∈ s.store.publications) :
    ∃ p' ∈ s'.store.publications, p'.id = p.id ∧
      Retry.Steps env.relayPublicationMaxAttempts (job s.store p) (job s'.store p') := by
  cases hstep.touched hs hp with
  | kept mem attempts =>
    refine ⟨p, mem, rfl, ?_⟩
    unfold job
    rw [attempts]
  | claimed worker due mem attempts =>
    refine ⟨p.claimed s.clock, mem, rfl, .single ?_⟩
    have hbefore : job s.store p = ⟨(attemptsOf s.store p.id).length, .waiting⟩ := by
      rw [job, (Publication.due_iff.1 due).1]
      rfl
    rw [hbefore]
    change Retry.Step _ _ ⟨(attemptsOf s'.store p.id).length, .trying⟩
    rw [attempts, List.length_append]
    exact .start
  | @concluded _ claim f g init _ held row conclusion _ mem before after =>
    subst row
    have hnumber : claim.attempt.attemptNumber = init.length + 1 := by
      have := (hs.attempted _ hp).numbered
      rw [before] at this
      have := congrArg List.getLast? this
      rw [List.length_append, List.length_singleton, List.range'_concat] at this
      simpa [Nat.add_comm] using this
    have hg : (g claim.publication).id = claim.publication.id := g.keeps _
    have htrying : job s.store claim.publication = ⟨init.length + 1, .trying⟩ := by
      rw [job, before, held.publishing, List.length_append]
      rfl
    have hdone : job s'.store (g claim.publication) =
        ⟨init.length + 1, (f claim.attempt).outcome.state.phase⟩ := by
      rw [job, hg, after, conclusion.state _ claim.attempt, List.length_append]
      rfl
    refine ⟨g claim.publication, mem, hg, .single ?_⟩
    rw [htrying, hdone]
    cases ho : (f claim.attempt).outcome with
    | blank => exact absurd ho (conclusion.outcome _)
    | retry => exact .again (by simpa [hnumber] using conclusion.room _ ho)
    | published => exact .settle true
    | failed => exact .settle false

/-- **The system refines the bounded retries of each publication.** -/
theorem Trail.refines {es : List (Label × Output)} (h : Trail (relay env publisher) s es s')
    (hs : Delivering s) {p : Publication} (hp : p ∈ s.store.publications) :
    ∃ p' ∈ s'.store.publications, p'.id = p.id ∧
      Retry.Steps env.relayPublicationMaxAttempts (job s.store p) (job s'.store p') := by
  induction h generalizing p with
  | stay => exact ⟨p, hp, rfl, .refl⟩
  | move head _ ih =>
    obtain ⟨q, hq, hid, hsteps⟩ := (next_step head).refines hs hp
    obtain ⟨r, hr, hid', hsteps'⟩ := ih (hs.step (next_step head)) hq
    exact ⟨r, hr, hid'.trans hid, hsteps.trans hsteps'⟩

/-- A publication was there before, or it has not been tried. -/
theorem SysStep.publication_new (hstep : SysStep env publisher s l s' o) (hs : Delivering s)
    {p' : Publication} (hp' : p' ∈ s'.store.publications) :
    (∃ p ∈ s.store.publications, p.id = p'.id) ∨ job s'.store p' = .new := by
  cases hstep with
  | committed _ effect =>
    obtain ⟨ha, hsame | ⟨call, -, hinsert⟩⟩ := effect.publications
    · exact .inl ⟨p', hsame ▸ hp', rfl⟩
    · rcases (Table.mem_insert? hinsert).1 hp' with hp' | rfl
      · exact .inl ⟨p', hp', rfl⟩
      · refine .inr ?_
        have hfresh := hs.attemptsOf_fresh (Table.fresh_of_insert? hinsert)
        unfold attemptsOf at hfresh
        unfold job attemptsOf Sys.setTicket
        rw [ha]
        exact congrArg (fun l => (⟨List.length l, .waiting⟩ : Retry.Job)) hfresh
  | claimed _ _ claimed =>
    obtain ⟨q, -, -, -, -, hpubs, -⟩ := claimed.rows
    exact .inl (Table.exists_key_of_mem_update (hpubs ▸ hp'))
  | finished worker finished =>
    obtain ⟨f, g, -, hpubs, -, -⟩ := finished.rows (hs.held _ _ _ ⟨_, worker, rfl⟩).2
    exact .inl (Table.exists_key_of_mem_update (hpubs ▸ hp'))
  | _ => exact .inl ⟨p', hp', rfl⟩

/-- Every publication is a job within the limit. -/
theorem within_of_reachable (h : Reachable (relay env publisher) s) :
    ∀ p ∈ s.store.publications, Retry.Within env.relayPublicationMaxAttempts (job s.store p) := by
  refine h.induct (I := fun s => ∀ p ∈ s.store.publications, Retry.Within _ (job s.store p)) ?_
    fun s e t hr hs hstep p' hp' => ?_
  · rintro _ ⟨tenants, brands, memberships, clock, rfl⟩ p hp
    exact absurd hp (Table.not_mem_empty p)
  · have hdelivering := delivering_of_reachable hr
    rcases (next_step hstep).publication_new hdelivering hp' with ⟨p, hp, hid⟩ | hnew
    · obtain ⟨q, hq, hid', hsteps⟩ := (next_step hstep).refines hdelivering hp
      obtain rfl : q = p' := Table.eq_of_key hq hp' (hid'.trans hid)
      exact hsteps.within (hs p hp)
    · exact hnew ▸ .new

/-- A step keeps every completed attempt as it is. -/
theorem SysStep.completed (hstep : SysStep env publisher s l s' o) (hs : Delivering s)
    {a : PublicationAttempt} (ha : a ∈ s.store.attempts) (hdone : a.completedAt ≠ none) :
    a ∈ s'.store.attempts := by
  cases hstep with
  | committed _ effect => exact effect.publications.1 ▸ ha
  | claimed _ _ claimed =>
    obtain ⟨_, -, -, -, -, -, hinsert⟩ := claimed.rows
    exact Table.mem_of_mem_insert? hinsert ha
  | @finished k publication claim _ _ store worker finished =>
    obtain ⟨rfl, hheld⟩ := hs.held _ _ _ ⟨_, worker, rfl⟩
    obtain ⟨f, g, -, -, hattempts, -⟩ := finished.rows hheld
    -- the attempt that is written is open
    have hne : a.id ≠ claim.attempt.id := by
      intro heq
      obtain ⟨init, hinit⟩ := hheld.attempt
      have hopen := (hs.attempted _ hheld.publication).completed claim.attempt (by simp [hinit])
      rw [Table.eq_of_key ha hheld.mem_attempts.1 heq] at hdone
      exact hdone (hopen.2 hheld.blank)
    exact hattempts ▸ Table.mem_update_of_ne ha hne
  | _ => exact ha

theorem Trail.completed {es : List (Label × Output)} (h : Trail (relay env publisher) s es s')
    (hs : Delivering s) {a : PublicationAttempt} (ha : a ∈ s.store.attempts)
    (hdone : a.completedAt ≠ none) : a ∈ s'.store.attempts := by
  induction h with
  | stay => exact ha
  | move head _ ih => exact ih (hs.step (next_step head)) ((next_step head).completed hs ha hdone)

/-- A publication that is settled keeps its attempts, and gets no other. -/
theorem Trail.settled {es : List (Label × Output)} (h : Trail (relay env publisher) s es s')
    (hs : Delivering s) {p : Publication} (hp : p ∈ s.store.publications)
    (hstate : p.state = .published ∨ p.state = .failed) :
    ∀ a, a ∈ attemptsOf s'.store p.id ↔ a ∈ attemptsOf s.store p.id := by
  have hphase : ∃ b, (job s.store p).phase = .settled b := by
    rcases hstate with h | h
    · exact ⟨true, by rw [job, h]; rfl⟩
    · exact ⟨false, by rw [job, h]; rfl⟩
  obtain ⟨b, hphase⟩ := hphase
  obtain ⟨p', -, hid, hsteps⟩ := Trail.refines h hs hp
  have hlength : (attemptsOf s'.store p.id).length = (attemptsOf s.store p.id).length := by
    have := congrArg Retry.Job.tries (hsteps.settled hphase)
    unfold job at this
    rwa [hid] at this
  have hdone : ∀ a ∈ attemptsOf s.store p.id, a.completedAt ≠ none := by
    intro a ha hnone
    have hattempted := hs.attempted p hp
    have hblank := (hattempted.completed a ha).1 hnone
    rcases (attemptsOf s.store p.id).eq_nil_or_concat with hnil | ⟨init, c, hc⟩
    · rw [hnil] at ha; cases ha
    · rw [hc, List.concat_eq_append] at hattempted ha
      have hearlier := hattempted.earlier
      rw [List.dropLast_concat] at hearlier
      rcases List.mem_append.1 ha with ha | ha
      · rw [hearlier a ha] at hblank; cases hblank
      · obtain rfl : a = c := by simpa using ha
        have := hattempted.state_eq
        rw [stateAfter_append, hblank] at this
        rcases hstate with h | h <;> rw [h] at this <;> cases this
  have hsub : attemptsOf s.store p.id ⊆ attemptsOf s'.store p.id := by
    intro a ha
    obtain ⟨hmem, hpub⟩ := Table.mem_where.1 ha
    exact Table.mem_where.2 ⟨Trail.completed h hs hmem (hdone a ha), hpub⟩
  have hnodup : (attemptsOf s.store p.id).Nodup :=
    (List.Nodup.of_map _ s.store.attempts.nodup).filter _
  have hperm := (hnodup.subperm hsub).perm_of_length_le hlength.le
  exact fun a => hperm.mem_iff.symm

end Refinement

/-! ### The delivery state machine -/

/-- What holds of a publication in every state. -/
structure Delivered (limit : ℤ) (s : Sys) (p : Publication) : Prop where
  attempted : Attempted p.state (attemptsOf s.store p.id)
  bounded : ((attemptsOf s.store p.id).length : ℤ) ≤ max 1 limit
  alone : ∀ k k' claim claim', s.Holds k p.id claim → s.Holds k' p.id claim' → k = k'
  published : ((attemptsOf s.store p.id).filter (·.outcome = .published)).length ≤ 1

/-- **The delivery state machine.**  In every state each publication has attempts numbered from
one, within the limit, of which the last determines its state, and at most one worker between
claim and outcome; from then on completed attempts stay as they are, and a publication that is
published or failed gets no more. -/
theorem delivery_state_machine {env : Env} {publisher : Option Publisher} {s : Sys}
    (h : Reachable (relay env publisher) s) {p : Publication} (hp : p ∈ s.store.publications) :
    Delivered env.relayPublicationMaxAttempts s p ∧
      ∀ es s', Trail (relay env publisher) s es s' →
        (∀ a ∈ s.store.attempts, a.completedAt ≠ none → a ∈ s'.store.attempts) ∧
        (p.state = .published ∨ p.state = .failed →
          ∀ a, a ∈ attemptsOf s'.store p.id ↔ a ∈ attemptsOf s.store p.id) := by
  have hs := delivering_of_reachable h
  refine ⟨⟨hs.attempted p hp, ?_, fun k k' => hs.alone k k' p.id, ?_⟩, fun es s' tr => ⟨?_, ?_⟩⟩
  · exact (within_of_reachable h p hp).bounded
  · exact (hs.attempted p hp).published_unique
  · exact fun a ha hdone => Trail.completed tr hs ha hdone
  · exact fun hstate => Trail.settled tr hs hp hstate

/-- A publication that is retried once and then published. -/
theorem delivery_state_machine_sample : ∃ s p,
    (attemptsOf s.store p.id).map (·.outcome) = [.retry, .published] ∧
      p ∈ s.store.publications ∧ Delivered 2 s p := by
  obtain ⟨es, s, tr, hs⟩ : ∃ es s, Trail (relay Sample.env none) Sample.start es s ∧
      (s.store.publications.rows.any fun p =>
        (attemptsOf s.store p.id).map (·.outcome) = [.retry, .published]) = true :=
    exists_of_execute
      (show ((execute Sample.env none (Sample.scheduled .metaFacebookPage ++
        Sample.claiming 60000000 60 ++ Sample.exchanging ⟨false, .response 500 .invalid⟩ ++
        Sample.claiming 120000000 61 ++
        Sample.exchanging ⟨true, .response 200 (.json (.obj [("id", .str "1")]))⟩)
        Sample.start).any fun x => x.2.store.publications.rows.any fun p =>
          (attemptsOf x.2.store p.id).map (·.outcome) = [.retry, .published]) = true by
        decide +kernel)
  obtain ⟨p, hp, houtcomes⟩ := List.any_eq_true.1 hs
  have hreach : Reachable (relay Sample.env none) s := ⟨_, es, Sample.start_isStart none, tr⟩
  exact ⟨s, p, of_decide_eq_true houtcomes, hp, (delivery_state_machine hreach hp).1⟩

end Relay
