import Relay.Attempts
import Relay.MetaProtocol

/-!
# When a publication becomes visible twice

A visible post is the last request of an attempt.  If Meta applies it and its answer is lost, the
attempt looks like any other that failed for a while, and is retried.

* `keepsAnswer`: the steps at which this does not happen with an attempt left;
* `double_publication`: a run that ends in two visible posts;
* `no_double_publication`: while every step keeps the answer, there is at most one.
-/

namespace Relay

open Relational Transition Exchange

/-! ### Lost answers -/

/-- The code reads the answer as a failure that may pass. -/
def Answer.transient : Answer → Bool
  | .requestError => true
  | .response status _ => status = 429 || 500 ≤ status

/-- The step does not lose the answer to a visible post that Meta has applied, except in the last
attempt. -/
def keepsAnswer (env : Env) (s : Sys) : Label → Bool
  | .exchange k act =>
    match s.workers k with
    | some ⟨_, .publishing claim (.ask q _)⟩ =>
      !(q.visible && act.applied && act.answer.transient) ||
        env.relayPublicationMaxAttempts ≤ claim.attempt.attemptNumber
    | _ => true
  | _ => true

/-- An answer that is read as a transient failure is one. -/
theorem transient_of_answeredId {env : Env} {a : Answer} {m : String}
    (h : answeredId env a = .error (.metaPublishTransientError m)) : a.transient = true := by
  have hget : ∀ {payload : Json}, payloadId env payload ≠ .error (.metaPublishTransientError m) := by
    intro payload hid
    by_cases hobj : ∃ fields, payload = .obj fields
    · obtain ⟨fields, rfl⟩ := hobj
      rw [payloadId_obj] at hid
      split at hid
      · split at hid <;> cases hid
      · cases hid
    · rw [payloadId_of_not_obj (not_exists.1 hobj)] at hid
      cases hid
  unfold answeredId Messages.read at h
  cases a with
  | requestError => rfl
  | response status body =>
    dsimp only at h
    split at h
    · simpa [Answer.transient] using ‹status = 429 ∨ 500 ≤ status›
    split at h
    · cases h
    cases body with
    | json value => exact absurd h hget
    | invalid => cases h

/-! ### What is left of an exchange -/

/-- A visible request is the last one, and its answer decides the result. -/
def VisibleLast (env : Env) : Exchange MetaRequest Answer (Except DeliveryError String) → Prop :=
  Each fun q rest => q.visible = true → ∀ a, rest a = .done (answeredId env a)

/-- The exchange is over, and there will be no other for the publication. -/
def Phase.Spent (env : Env) : Phase → Prop
  | .begun _ => True
  | .claimed _ => False
  | .publishing _ (.ask _ _) => False
  | .publishing claim (.done r) => ∀ m, r = .error (.metaPublishTransientError m) →
      env.relayPublicationMaxAttempts ≤ claim.attempt.attemptNumber

theorem visibleLast_publishImages (env : Env) (call : PublishCall) :
    VisibleLast env (publishImages env call).run := by
  by_cases hcount : 1 ≤ call.imageUrls.length ∧ call.imageUrls.length ≤ 10
  · refine each_of_runs fun tr r hr pre q a post ht hv => ?_
    rcases publishImages_follows hcount.1 hcount.2 hr with ⟨rfl, -⟩ | hfollows
    · simp at ht
    · obtain ⟨hpost, hr, -⟩ := visible_last hfollows ht hv
      exact ⟨hpost, hr⟩
  · unfold publishImages
    dsimp only
    split
    · trivial
    · rename_i u us hcons
      have hmany : 10 < (u :: us).length := by
        rw [hcons] at hcount
        simp only [List.length_cons] at hcount ⊢
        omega
      rw [if_pos hmany]
      trivial

/-! ### One visible post -/

/-- How visible posts, publications and workers fit together while no answer is lost. -/
structure Single (env : Env) (s : Sys) : Prop where
  known : ∀ x ∈ s.ledger, ∃ p ∈ s.store.publications, p.id = x.1
  last : ∀ k id claim rest, s.workers k = some ⟨id, .publishing claim rest⟩ → VisibleLast env rest
  once : ∀ id, (s.visiblePosts id).length ≤ 1
  settled : ∀ id, s.visiblePosts id ≠ [] →
    ∀ p ∈ s.store.publications, p.id = id → p.state ≠ .scheduled
  spent : ∀ id, s.visiblePosts id ≠ [] →
    ∀ k phase, s.workers k = some ⟨id, phase⟩ → phase.Spent env

section Step

variable {env : Env} {s s' : Sys} {l : Label} {o : Output}

theorem workers_goOn {k k' : ℕ} {id : Uuid} {phase : Phase} :
    (s.goOn k id phase).workers k' = if k' = k then some ⟨id, phase⟩ else s.workers k' := by
  unfold Sys.goOn Sys.setWorker
  simp [Function.update_apply]

theorem workers_stop {k k' : ℕ} :
    (s.setWorker k none).workers k' = if k' = k then none else s.workers k' := by
  unfold Sys.setWorker
  simp [Function.update_apply]

/-- Steps that publish nothing, schedule nothing again and put no worker to work. -/
theorem Single.frame (h : Single env s) (hledger : s'.ledger = s.ledger)
    (hknown : ∀ p ∈ s.store.publications, ∃ p' ∈ s'.store.publications, p'.id = p.id)
    (hlast : ∀ k id claim rest, s'.workers k = some ⟨id, .publishing claim rest⟩ → VisibleLast env rest)
    (hsettled : ∀ id, s.visiblePosts id ≠ [] →
      ∀ p' ∈ s'.store.publications, p'.id = id → p'.state ≠ .scheduled)
    (hspent : ∀ id, s.visiblePosts id ≠ [] →
      ∀ k phase, s'.workers k = some ⟨id, phase⟩ → phase.Spent env) : Single env s' := by
  have hposts : ∀ id, s'.visiblePosts id = s.visiblePosts id := by
    intro id
    unfold Sys.visiblePosts
    rw [hledger]
  refine ⟨fun x hx => ?_, hlast, fun id => ?_, fun id hne => ?_, fun id hne => ?_⟩
  · obtain ⟨p, hp, hid⟩ := h.known x (hledger ▸ hx)
    obtain ⟨p', hp', hid'⟩ := hknown p hp
    exact ⟨p', hp', hid'.trans hid⟩
  · rw [hposts]
    exact h.once id
  · exact hsettled id (hposts id ▸ hne)
  · exact hspent id (hposts id ▸ hne)

/-- Steps that change nothing but tickets, tasks and the clock, and may stop a worker. -/
theorem Single.same (h : Single env s) (hstore : s'.store = s.store) (hledger : s'.ledger = s.ledger)
    (hworkers : ∀ k w, s'.workers k = some w → s.workers k = some w ∨ ∃ t, w.phase = .begun t) :
    Single env s' := by
  refine h.frame hledger (fun p hp => ⟨p, hstore ▸ hp, rfl⟩) (fun k id claim rest hk => ?_)
    (fun id hne => hstore ▸ h.settled id hne) fun id hne k phase hk => ?_
  · rcases hworkers k _ hk with hk | ⟨_, ht⟩
    · exact h.last k id claim rest hk
    · cases ht
  · rcases hworkers k _ hk with hk | ⟨t, ht⟩
    · exact h.spent id hne k phase hk
    · obtain rfl : phase = .begun t := ht
      trivial

/-- While a worker has work left, nothing of its publication is visible. -/
theorem Single.nothing (h : Single env s) {k : ℕ} {id : Uuid} {phase : Phase}
    (hk : s.workers k = some ⟨id, phase⟩) (hspent : ¬ phase.Spent env) : s.visiblePosts id = [] := by
  by_contra hne
  exact hspent (h.spent id hne k phase hk)

/-- A worker goes on. -/
theorem Single.goOn (h : Single env s) {k : ℕ} {id : Uuid} {phase phase' : Phase}
    (hk : s.workers k = some ⟨id, phase⟩) (hspent : ¬ phase.Spent env)
    (hlast : ∀ claim rest, phase' = .publishing claim rest → VisibleLast env rest) :
    Single env (s.goOn k id phase') := by
  have hnothing := h.nothing hk hspent
  refine h.frame rfl (fun p hp => ⟨p, hp, rfl⟩) (fun k' id' claim rest hk' => ?_) h.settled
    fun id' hne k' phase hk' => ?_
  · rw [workers_goOn] at hk'
    split at hk'
    · cases hk'
      exact hlast claim rest rfl
    · exact h.last k' id' claim rest hk'
  · rw [workers_goOn] at hk'
    split at hk'
    · cases hk'
      exact absurd hnothing hne
    · exact h.spent id' hne k' phase hk'

/-- A visible post is applied, and its answer is not lost. -/
theorem Single.published (h : Single env s) (hs : Delivering s) {k : ℕ} {id : Uuid} {claim : Claim}
    {q : MetaRequest} {rest : Answer → Exchange MetaRequest Answer (Except DeliveryError String)}
    {a : Answer} (hk : s.workers k = some ⟨id, .publishing claim (.ask q rest)⟩)
    (hv : q.visible = true) (hkeep : a.transient = true →
      env.relayPublicationMaxAttempts ≤ claim.attempt.attemptNumber) :
    Single env ({ s with ledger := s.ledger ++ [(id, q)] }.goOn k id (.publishing claim (rest a))) := by
  obtain ⟨hid, hheld⟩ := hs.held k id claim ⟨_, hk, rfl⟩
  have hnothing : s.visiblePosts id = [] := h.nothing hk fun hspent => hspent
  have hdone : rest a = .done (answeredId env a) := (h.last _ _ _ _ hk).1 hv a
  set t : Sys := { s with ledger := s.ledger ++ [(id, q)] }.goOn k id (.publishing claim (rest a))
  have hself : t.visiblePosts id = [(id, q)] := by
    change (s.ledger ++ [(id, q)]).filter _ = _
    rw [List.filter_append]
    change s.visiblePosts id ++ _ = _
    rw [hnothing]
    simp
  have hother : ∀ id', id' ≠ id → t.visiblePosts id' = s.visiblePosts id' := by
    intro id' hne
    change (s.ledger ++ [(id, q)]).filter _ = _
    rw [List.filter_append]
    simp [Sys.visiblePosts, hne.symm]
  have hworkers : ∀ k', t.workers k' = if k' = k then some ⟨id, .publishing claim (rest a)⟩
      else s.workers k' := fun k' => workers_goOn
  refine ⟨fun x hx => ?_, fun k' id' claim' rest' hk' => ?_, fun id' => ?_, fun id' hne => ?_,
    fun id' hne k' phase hk' => ?_⟩
  · change x ∈ s.ledger ++ [(id, q)] at hx
    rcases List.mem_append.1 hx with hx | hx
    · exact h.known x hx
    · obtain rfl : x = (id, q) := by simpa using hx
      exact ⟨_, hheld.publication, hid⟩
  · rw [hworkers] at hk'
    split at hk'
    · cases hk'
      rw [hdone]
      trivial
    · exact h.last k' id' claim' rest' hk'
  · by_cases heq : id' = id
    · rw [heq, hself]
      simp
    · rw [hother id' heq]
      exact h.once id'
  · by_cases heq : id' = id
    · -- the publication is being published
      intro p hp hpid hstate
      have hp' : p = claim.publication :=
        Table.eq_of_key hp hheld.publication (hpid.trans (heq.trans hid.symm))
      rw [hp', hheld.publishing] at hstate
      cases hstate
    · rw [hother id' heq] at hne
      exact h.settled id' hne
  · rw [hworkers] at hk'
    split at hk'
    · cases hk'
      rw [hdone]
      exact fun m hm => hkeep (transient_of_answeredId hm)
    · rename_i hk''
      by_cases heq : id' = id
      · -- the worker is alone with its publication
        subst heq
        cases hphase : phase.claim? with
        | none =>
          cases phase with
          | begun => trivial
          | _ => cases hphase
        | some claim' => exact absurd (hs.alone k' k id' claim' claim ⟨_, hk', hphase⟩ ⟨_, hk, rfl⟩) hk''
      · rw [hother id' heq] at hne
        exact h.spent id' hne k' phase hk'

theorem Single.committed (h : Single env s) {w : World} {k : ℕ} {t : Option Ticket} {c : Command}
    {r : Reply} {store : Store} (effect : Effect env w c r s.store store) :
    Single env ({ s with store }.setTicket k t) := by
  obtain ⟨-, hsame | ⟨call, -, hinsert⟩⟩ := effect.publications
  · exact h.frame rfl (fun p hp => ⟨p, hsame.symm ▸ hp, rfl⟩) h.last
      (fun id hne p hp => h.settled id hne p (hsame ▸ hp)) h.spent
  · refine h.frame rfl (fun p hp => ⟨p, Table.mem_of_mem_insert? hinsert hp, rfl⟩) h.last
      (fun id hne p hp hid => ?_) h.spent
    rcases (Table.mem_insert? hinsert).1 hp with hp | rfl
    · exact h.settled id hne p hp hid
    · -- nothing is visible of a publication that was not there
      obtain ⟨x, hx⟩ := List.exists_mem_of_ne_nil _ hne
      obtain ⟨hmem, hxid⟩ := List.mem_filter.1 hx
      obtain ⟨p, hp, hpx⟩ := h.known x hmem
      exact absurd (hpx.trans ((of_decide_eq_true hxid).trans hid.symm))
        (Table.fresh_of_insert? hinsert p hp)

theorem Single.claimed (h : Single env s) {started now : Time} {attempt : Uuid} {claim : Claim}
    {store : Store} {k : ℕ} (claimed : Claimed started now attempt claim s.store store) :
    Single env ({ s with store }.goOn k claim.publication.id (.claimed claim)) := by
  obtain ⟨p, hmem, hdue, hclaim, -, hpubs, -⟩ := claimed.rows
  have hid : claim.publication.id = p.id := by rw [hclaim]; rfl
  have hnothing : s.visiblePosts claim.publication.id = [] := by
    by_contra hne
    exact h.settled _ hne p hmem hid.symm (Publication.due_iff.1 hdue).1
  refine h.frame rfl (fun q hq => hpubs ▸ Table.exists_update_of_mem hq)
    (fun k' id claim' rest hk' => ?_) (fun id hne q' hq' hqid => ?_) fun id hne k' phase hk' => ?_
  · rw [workers_goOn] at hk'
    split at hk'
    · cases hk'
    · exact h.last k' id claim' rest hk'
  · change q' ∈ store.publications at hq'
    rw [hpubs] at hq'
    obtain ⟨q, hq, rfl⟩ := Table.mem_update.1 hq'
    split at hqid
    · rw [if_pos ‹_›]
      exact LifecycleState.noConfusion
    · rw [if_neg ‹_›]
      exact h.settled id hne q hq hqid
  · rw [workers_goOn] at hk'
    split at hk'
    · cases hk'
      exact absurd hnothing hne
    · exact h.spent id hne k' phase hk'

theorem Single.finished (h : Single env s) (hs : Delivering s) {now : Time} {k : ℕ} {id : Uuid}
    {claim : Claim} {result : Except DeliveryError String} {answer : String} {store : Store}
    (hk : s.workers k = some ⟨id, .publishing claim (.done result)⟩)
    (finished : Finished env now claim result answer s.store store) :
    Single env ({ s with store }.setWorker k none) := by
  obtain ⟨rfl, hheld⟩ := hs.held k id claim ⟨_, hk, rfl⟩
  obtain ⟨f, g, hfg, hpubs, -, hretry, -⟩ := finished.rows hheld
  refine h.frame rfl (fun q hq => hpubs ▸ Table.exists_update_of_mem hq)
    (fun k' id claim' rest hk' => ?_) (fun id hne q' hq' hqid => ?_) fun id hne k' phase hk' => ?_
  · rw [workers_stop] at hk'
    split at hk'
    · cases hk'
    · exact h.last k' id claim' rest hk'
  · change q' ∈ store.publications at hq'
    rw [hpubs] at hq'
    obtain ⟨q, hq, rfl⟩ := Table.mem_update.1 hq'
    by_cases hkey : key q = claim.publication.id
    · rw [if_pos hkey] at hqid ⊢
      obtain rfl : claim.publication.id = id := hkey.symm.trans ((g.keeps q).symm.trans hqid)
      rw [hfg.state q claim.attempt]
      -- the attempt is not retried, since the exchange was spent
      intro hstate
      have houtcome : (f claim.attempt).outcome = .retry := by
        cases ho : (f claim.attempt).outcome <;> rw [ho] at hstate <;> first | rfl | cases hstate
      obtain ⟨m, rfl⟩ := hretry houtcome
      have hroom := hfg.room _ houtcome
      exact absurd (h.spent _ hne k _ hk m rfl) (not_le.2 hroom)
    · rw [if_neg hkey] at hqid ⊢
      exact h.settled id hne q hq hqid
  · rw [workers_stop] at hk'
    split at hk'
    · cases hk'
    · exact h.spent id hne k' phase hk'

/-- A step that loses no answer keeps the invariant. -/
theorem Single.step (h : Single env s) (hs : Delivering s) (hkeep : keepsAnswer env s l = true)
    (hstep : SysStep env none s l s' o) : Single env s' := by
  have hstop : ∀ {k}, Single env (s.setWorker k none) := by
    intro k
    refine h.same rfl rfl fun k' w hk' => ?_
    rw [workers_stop] at hk'
    split at hk'
    · cases hk'
    · exact .inl hk'
  cases hstep with
  | committed _ effect => exact h.committed effect
  | started _ idle =>
    refine h.same rfl rfl fun k' w hk' => ?_
    rw [workers_goOn] at hk'
    split at hk'
    · cases hk'
      exact .inr ⟨_, rfl⟩
    · exact .inl hk'
  | claimed _ id claimed => exact id ▸ h.claimed claimed
  | claimRaised | claimMissed | finishRaised | killed => exact hstop
  | unprepared worker =>
    refine h.goOn worker (fun hspent => hspent) fun claim rest hphase => ?_
    cases hphase
    trivial
  | @prepared k id claim _ call worker =>
    refine h.goOn worker (fun hspent => hspent) fun claim rest hphase => ?_
    cases hphase
    exact visibleLast_publishImages env call
  | @exchanged k id claim q rest act worker =>
    by_cases happlied : act.applied = true ∧ q.visible = true
    · have hledger : (if act.applied && q.visible then s.ledger ++ [(id, q)] else s.ledger) =
          s.ledger ++ [(id, q)] := by simp [happlied]
      rw [hledger]
      refine h.published hs worker happlied.2 fun htransient => ?_
      simpa [keepsAnswer, worker, happlied, htransient] using hkeep
    · have hledger : (if act.applied && q.visible then s.ledger ++ [(id, q)] else s.ledger) =
          s.ledger := by simpa using happlied
      rw [hledger]
      refine h.goOn worker (fun hspent => hspent) fun claim' rest' hphase => ?_
      cases hphase
      exact (h.last _ _ _ _ worker).2 act.answer
  | finished worker finished => exact h.finished hs worker finished
  | _ => exact h.same rfl rfl fun _ _ hk => .inl hk

theorem Single.initial (tenants : Table Tenant) (brands : Table Brand)
    (memberships : Table Membership) (clock : Time) :
    Single env (.initial tenants brands memberships clock) where
  known x hx := by cases hx
  last _ _ _ _ hk := by cases hk
  once _ := Nat.zero_le _
  settled _ hne := absurd rfl hne
  spent _ _ _ _ hk := by cases hk

end Step

/-- **While no answer to a visible post is lost before the last attempt, each publication has at
most one visible post.** -/
theorem no_double_publication {env : Env} {s : Sys}
    (h : Reachable ((relay env none).guarded fun s e => keepsAnswer env s e.1 = true) s) (id : Uuid) :
    (s.visiblePosts id).length ≤ 1 := by
  have hsingle : Single env s := by
    refine h.induct ?_ fun s e t hr hs hstep => ?_
    · rintro _ ⟨tenants, brands, memberships, clock, rfl⟩
      exact .initial tenants brands memberships clock
    · exact hs.step (delivering_of_reachable hr.of_guarded) hstep.1 (next_step hstep.2)
  exact hsingle.once id

/-- A temporary failure before anything is published, then a success. -/
theorem no_double_publication_sample : ∃ s : Sys, s.visiblePosts Sample.publication ≠ [] ∧
    (s.visiblePosts Sample.publication).length ≤ 1 := by
  obtain ⟨es, s, tr, hs⟩ := exists_of_executeIf
    (show ((executeIf Sample.env none (keepsAnswer Sample.env) (Sample.scheduled .metaFacebookPage ++
      Sample.claiming 60000000 60 ++ Sample.exchanging ⟨false, .response 500 .invalid⟩ ++
      Sample.claiming 120000000 61 ++
      Sample.exchanging ⟨true, .response 200 (.json (.obj [("id", .str "1")]))⟩)
      Sample.start).any fun x => !(x.2.visiblePosts Sample.publication).isEmpty) = true by
      decide +kernel)
  exact ⟨s, by simpa using hs, no_double_publication ⟨_, es, Sample.start_isStart none, tr⟩ _⟩

/-- The first post is applied and its answer does not arrive; the second one is applied too. -/
theorem double_publication : ¬ ∀ (env : Env) (s : Sys), Reachable (relay env none) s →
    ∀ id, (s.visiblePosts id).length ≤ 1 := by
  intro h
  obtain ⟨es, s, tr, hs⟩ := exists_of_execute
    (show ((execute Sample.env none (Sample.scheduled .metaFacebookPage ++
      Sample.claiming 60000000 60 ++ Sample.exchanging ⟨true, .requestError⟩ ++
      Sample.claiming 120000000 61 ++
      Sample.exchanging ⟨true, .response 200 (.json (.obj [("id", .str "1")]))⟩)
      Sample.start).any fun x => (x.2.visiblePosts Sample.publication).length = 2) = true by
      decide +kernel)
  have hone := h Sample.env s ⟨_, es, Sample.start_isStart none, tr⟩ Sample.publication
  have htwo : (s.visiblePosts Sample.publication).length = 2 := by simpa using hs
  omega

end Relay
