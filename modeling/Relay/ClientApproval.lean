import Relay.Evolution
import Relay.Execution

/-!
# Client approval

A post is reviewed by links, of which it may have many, and by staff, who may approve around
them.  `ReviewStep` says what a commit of any service, with whatever arguments, does to posts,
links and the events that approve.

* `Reviewed`: how the three fit together, `Reviewed.step`;
* `services`: the services called in any order and at any times, `client_approval`;
* `reviewed_of_running`: the same of the running system.
-/

namespace Relay

open Relational Transition

/-! ### Posts and the events that approve them -/

/-- The state of the post of an identifier. -/
def stateOf (s : Store) (post : Uuid) : Option LifecycleState := (s.posts.get? post).map (·.state)

/-- The event approves a post. -/
def AuditLog.approving (e : AuditLog) : Bool :=
  e.eventType = "post.approved" || e.eventType = "approval.approved"

/-- The events that approve a post. -/
def approvingEvents (s : Store) (post : Uuid) : List AuditLog :=
  s.audit.filter fun e => e.approving && e.subjectId = post

/-- The links of a post by which it was approved. -/
def approvingLinks (s : Store) (post : Uuid) : List ApprovalRequest :=
  s.approvals.where fun r => r.post = post && r.decision = .approved

section Lookups

variable {s s' : Store} {now : Time} {post id : Uuid} {state : LifecycleState} {p : Post}

theorem stateOf_mem (h : p ∈ s.posts) : stateOf s p.id = some p.state := by
  have hget : s.posts.get? p.id = some p := Table.get?_key h
  rw [stateOf, hget]
  rfl

theorem stateOf_eq_some (h : stateOf s id = some state) : ∃ p ∈ s.posts, p.id = id ∧ p.state = state := by
  obtain ⟨p, hp, hstate⟩ := Option.map_eq_some_iff.1 h
  exact ⟨p, Table.mem_of_get? hp, Table.key_of_get? hp, hstate⟩

theorem stateOf_insert {posts : Table Post} (h : s.posts.insert? p = some posts)
    (hs : s'.posts = posts) : stateOf s' = Function.update (stateOf s) p.id (some p.state) := by
  funext id
  rw [stateOf, hs, Table.get?_insert? h, Function.update_apply]
  change Option.map _ (if p.id = id then _ else _) = _
  by_cases hid : p.id = id
  · rw [if_pos hid, if_pos hid.symm]
    rfl
  · rw [if_neg hid, if_neg (Ne.symm hid)]
    rfl

/-- The state of a post that is there is set. -/
theorem stateOf_setPostState (h : stateOf s post ≠ none)
    (hs : s'.posts = (s.setPostState now post state).posts) :
    stateOf s' = Function.update (stateOf s) post (some state) := by
  funext id
  rw [stateOf, hs, Store.setPostState, Table.get?_update, Function.update_apply]
  split
  · rename_i hid
    subst hid
    obtain ⟨p, hp⟩ := Option.ne_none_iff_exists'.1 h
    obtain ⟨q, hq, -⟩ := Option.map_eq_some_iff.1 hp
    rw [hq]
    rfl
  · rfl

theorem approvingEvents_log {entry : AuditLog} (hs : s'.audit = s.audit ++ [entry]) :
    approvingEvents s' id =
      approvingEvents s id ++ if entry.approving ∧ entry.subjectId = id then [entry] else [] := by
  rw [approvingEvents, hs, List.filter_append, approvingEvents]
  congr 1
  by_cases h : entry.approving = true ∧ entry.subjectId = id
  · rw [if_pos h, List.filter_cons_of_pos (by simpa using h), List.filter_nil]
  · rw [if_neg h, List.filter_cons_of_neg (by simpa using h), List.filter_nil]

theorem length_approvingEvents_log {entry : AuditLog} (hs : s'.audit = s.audit ++ [entry]) :
    (approvingEvents s' id).length =
      (approvingEvents s id).length + if entry.approving ∧ entry.subjectId = id then 1 else 0 := by
  rw [approvingEvents_log hs, List.length_append]
  split <;> rfl

/-- An event of another kind approves nothing. -/
theorem approvingEvents_same {entry : AuditLog} (hs : s'.audit = s.audit ++ [entry])
    (h : entry.approving = false) : approvingEvents s' = approvingEvents s := by
  funext id
  rw [approvingEvents_log hs, if_neg (by simp [h]), List.append_nil]

end Lookups

/-- No supported text leaves a link without decision. -/
theorem DecisionText.ne_pending {text : DecisionText} {d : ApprovalDecision}
    (h : text.decision? = some d) : d ≠ .pending := by
  cases text with
  | approved => cases h; decide
  | changesRequested => cases h; decide
  | other => cases h

/-! ### What a commit does to the review -/

/-- The effect of a commit at `now` on posts, links and approving events. -/
inductive ReviewStep (now : Time) (s s' : Store) : Prop
  | aside (states : stateOf s' = stateOf s) (approvals : s'.approvals = s.approvals)
      (comments : s'.comments = s.comments) (events : approvingEvents s' = approvingEvents s)
  | drafted {post : Uuid} (fresh : stateOf s post = none)
      (states : stateOf s' = Function.update (stateOf s) post (some .draft))
      (approvals : s'.approvals = s.approvals) (comments : s'.comments = s.comments)
      (events : approvingEvents s' = approvingEvents s)
  | approved {post : Uuid}
      (state : stateOf s post = some .draft ∨ stateOf s post = some .pendingApproval)
      (states : stateOf s' = Function.update (stateOf s) post (some .approved))
      (approvals : s'.approvals = s.approvals) (comments : s'.comments = s.comments)
      (events : ∀ id, (approvingEvents s' id).length =
        (approvingEvents s id).length + if post = id then 1 else 0)
  | requested {request : ApprovalRequest}
      (state : stateOf s request.post = some .draft ∨ stateOf s request.post = some .pendingApproval)
      (states : stateOf s' = Function.update (stateOf s) request.post (some .pendingApproval))
      (new : request.decision = .pending ∧ request.decidedAt = none ∧ request.revokedAt = none)
      (insert : s.approvals.insert? request = some s'.approvals)
      (comments : s'.comments = s.comments) (events : approvingEvents s' = approvingEvents s)
  | decided {request : ApprovalRequest} {d : ApprovalDecision}
      (mem : request ∈ s.approvals) (open' : request.revokedAt = none)
      (unexpired : now < request.expiresAt) (pending : request.decision = .pending)
      (made : d ≠ .pending) (state : stateOf s request.post = some .pendingApproval)
      (states : stateOf s' = Function.update (stateOf s) request.post
        (some (if d = .approved then .approved else .draft)))
      (approvals : s'.approvals = s.approvals.update request.id ⟨(·.decide now d), fun _ => rfl⟩)
      (commented : d = .changesRequested →
        ∃ c ∈ s'.comments, c.approvalRequest = request.id ∧ c.body ≠ "")
      (kept : ∀ c ∈ s.comments, c ∈ s'.comments)
      (events : ∀ id, (approvingEvents s' id).length =
        (approvingEvents s id).length + if d = .approved ∧ request.post = id then 1 else 0)
  | revoked {request : ApprovalRequest} (mem : request ∈ s.approvals)
      (open' : request.revokedAt = none) (pending : request.decision = .pending)
      (states : stateOf s' = stateOf s)
      (approvals : s'.approvals = s.approvals.update request.id ⟨(·.revoke now), fun _ => rfl⟩)
      (comments : s'.comments = s.comments) (events : approvingEvents s' = approvingEvents s)

section Steps

variable {env : Env} {w : World} {c : Command} {r : Reply} {s s' : Store}

/-- A commit of any command is such a step. -/
theorem Effect.review (h : Effect env w c r s s') : ReviewStep w.now s s' := by
  have hevents : ∀ {t t' : Store} {tenant brand subject eventType subjectType subjectId metadata},
      t'.audit = t.audit ++
        [serviceEvent tenant brand subject eventType subjectType subjectId metadata] →
      eventType ≠ "post.approved" → eventType ≠ "approval.approved" →
      approvingEvents t' = approvingEvents t := by
    intro t t' tenant brand subject eventType subjectType subjectId metadata haudit h₁ h₂
    exact approvingEvents_same haudit (by simp [AuditLog.approving, serviceEvent, h₁, h₂])
  cases h with
  | uploadIntended => exact .aside rfl rfl rfl (hevents rfl (by decide) (by decide))
  | alreadyConfirmed => exact .aside rfl rfl rfl rfl
  | confirmed => exact .aside rfl rfl rfl (hevents rfl (by decide) (by decide))
  | draftReplayed => exact .aside rfl rfl rfl rfl
  | drafted _ insert =>
    refine .drafted ?_ (stateOf_insert insert rfl) rfl rfl (hevents rfl (by decide) (by decide))
    have hfresh := Table.get?_eq_none.2 (Table.fresh_of_insert? insert)
    exact congrArg (Option.map _) hfresh
  | alreadyApproved => exact .aside rfl rfl rfl rfl
  | @approved post tenant brand subject _ row mem id owner state =>
    have hrow : stateOf s post = some row.state := id ▸ stateOf_mem mem
    refine .approved ?_ (stateOf_setPostState (by simp [hrow]) rfl) rfl rfl fun id => ?_
    · rw [hrow]
      exact state.imp (congrArg some) (congrArg some)
    · rw [length_approvingEvents_log (s := s) rfl]
      simp [AuditLog.approving, serviceEvent]
  | @approvalRequested tenant brand post subject days _ row approvals request mem id owner state
      request_eq _ insert =>
    have hpost : request.post = post := by rw [request_eq]; rfl
    have hrow : stateOf s post = some row.state := id ▸ stateOf_mem mem
    have hnew : request.decision = .pending ∧ request.decidedAt = none ∧ request.revokedAt = none := by
      rw [request_eq]
      exact ⟨rfl, rfl, rfl⟩
    refine .requested ?_ ?_ hnew insert rfl (hevents rfl (by decide) (by decide))
    · rw [hpost, hrow]
      exact state.imp (congrArg some) (congrArg some)
    · rw [hpost]
      -- a post that is pending already is left alone
      by_cases hpending : row.state = .pendingApproval
      · rw [hpending] at hrow
        rw [← hrow, Function.update_eq_self]
        funext id'
        simp [stateOf, Store.log, hpending]
      · exact stateOf_setPostState (by simp [hrow]) (if_neg hpending)
  | @decided _ _ d _ _ _ request post brand comments found open' unexpired pending supported commented
      kept postRow state brandRow =>
    have hrow : stateOf s request.post = some .pendingApproval := by
      rw [stateOf, postRow, Option.map_some, state]
    refine .decided (Table.mem_of_find? found) open' unexpired pending ?_ hrow ?_ rfl
      (fun hchanges => ?_) kept fun id => ?_
    · exact DecisionText.ne_pending supported
    · exact stateOf_setPostState (by simp [hrow]) rfl
    · obtain ⟨c, hc, hid, rfl, hne⟩ := commented hchanges
      exact ⟨c, hc, hid, hne⟩
    · rw [length_approvingEvents_log (s := s) rfl]
      congr 1
      by_cases hd : d = .approved <;> simp [AuditLog.approving, decisionEvent, hd]
  | @revoked _ _ _ _ request mem request_id _ open' pending =>
    exact .revoked mem open' pending rfl (by rw [request_id]; rfl) rfl
      (hevents rfl (by decide) (by decide))
  | publicationReplayed => exact .aside rfl rfl rfl rfl
  | scheduled => exact .aside rfl rfl rfl (hevents rfl (by decide) (by decide))
  | oauthStarted => exact .aside rfl rfl rfl rfl
  | oauthConsumed => exact .aside rfl rfl rfl rfl
  | connected => exact .aside rfl rfl rfl (hevents rfl (by decide) (by decide))

/-- A worker leaves the review alone. -/
theorem StoreStep.review {A : Store → Command → Prop} (h : StoreStep env A s s') :
    ∃ now, ReviewStep now s s' := by
  have hevents : ∀ {t t' : Store} {p eventType metadata},
      t'.audit = t.audit ++ [workerEvent p eventType metadata] →
      eventType ≠ "post.approved" → eventType ≠ "approval.approved" →
      approvingEvents t' = approvingEvents t := by
    intro t t' p eventType metadata haudit h₁ h₂
    exact approvingEvents_same haudit (by simp [AuditLog.approving, workerEvent, h₁, h₂])
  cases h with
  | command _ effect => exact ⟨_, effect.review⟩
  | claimed claimed =>
    cases claimed
    exact ⟨0, .aside rfl rfl rfl rfl⟩
  | finished finished =>
    cases finished with
    | published => exact ⟨0, .aside rfl rfl rfl (hevents rfl (by decide) (by decide))⟩
    | @failed _ _ _ _ shouldRetry =>
      cases shouldRetry
      · exact ⟨0, .aside rfl rfl rfl (hevents rfl (by decide) (by decide))⟩
      · exact ⟨0, .aside rfl rfl rfl (hevents rfl (by decide) (by decide))⟩

end Steps

/-! ### One post -/

/-- Where the review of a post stands: its state, how many links and how many events have approved
it, and whether some link has no decision. -/
structure Standing where
  state : Option LifecycleState
  links : ℕ
  events : ℕ
  outstanding : Prop

/-- How the review of a post goes on. -/
inductive Standing.Step : Standing → Standing → Prop
  | stays {st : Option LifecycleState} {l e : ℕ} {o o' : Prop} (keeps : o → o') :
      Step ⟨st, l, e, o⟩ ⟨st, l, e, o'⟩
  | drafted {l e : ℕ} {o o' : Prop} : Step ⟨none, l, e, o⟩ ⟨some .draft, l, e, o'⟩
  | requested {st : Option LifecycleState} {l e : ℕ} {o o' : Prop}
      (state : st = some .draft ∨ st = some .pendingApproval) (link : o') :
      Step ⟨st, l, e, o⟩ ⟨some .pendingApproval, l, e, o'⟩
  | approved {st : Option LifecycleState} {l e : ℕ} {o o' : Prop}
      (state : st = some .draft ∨ st = some .pendingApproval) :
      Step ⟨st, l, e, o⟩ ⟨some .approved, l, e + 1, o'⟩
  | agreed {l e : ℕ} {o o' : Prop} :
      Step ⟨some .pendingApproval, l, e, o⟩ ⟨some .approved, l + 1, e + 1, o'⟩
  | returned {l e : ℕ} {o o' : Prop} : Step ⟨some .pendingApproval, l, e, o⟩ ⟨some .draft, l, e, o'⟩

/-- An approved post has one approving event, any other none; no more links than events have
approved it, and while it is pending some link has no decision. -/
structure Standing.Valid (x : Standing) : Prop where
  events_eq : x.events = if x.state = some .approved then 1 else 0
  links_le : x.links ≤ x.events
  outstanding : x.state = some .pendingApproval → x.outstanding

theorem Standing.Step.valid {x y : Standing} (h : x.Step y) (hx : x.Valid) : y.Valid := by
  obtain ⟨hevents, hlinks, hout⟩ := hx
  cases h with
  | stays keeps => exact ⟨hevents, hlinks, fun hstate => keeps (hout hstate)⟩
  | drafted => exact ⟨hevents, hlinks, fun hstate => by cases hstate⟩
  | requested state link =>
    refine ⟨?_, hlinks, fun _ => link⟩
    rcases state with rfl | rfl <;> exact hevents
  | @approved st l e _ _ state =>
    have hzero : e = 0 := by rcases state with rfl | rfl <;> exact hevents
    exact ⟨congrArg (· + 1) hzero, Nat.le_succ_of_le hlinks, fun hstate => by cases hstate⟩
  | agreed =>
    exact ⟨congrArg (· + 1) hevents, Nat.succ_le_succ hlinks, fun hstate => by cases hstate⟩
  | returned => exact ⟨hevents, hlinks, fun hstate => by cases hstate⟩

/-- Approval is final. -/
theorem Standing.Step.approved_final {x y : Standing} (h : x.Step y)
    (hx : x.state = some .approved) : y.state = some .approved := by
  cases h with
  | stays => exact hx
  | requested state | approved state => rcases state with rfl | rfl <;> cases hx
  | _ => cases hx

/-- The standing of a post of the store. -/
def standing (s : Store) (post : Uuid) : Standing where
  state := stateOf s post
  links := (approvingLinks s post).length
  events := (approvingEvents s post).length
  outstanding := ∃ r ∈ s.approvals, r.post = post ∧ r.decision = .pending

section Standing

variable {now : Time} {s s' : Store}

/-- A link without decision approves its post when it is rewritten to do so. -/
theorem length_approvingLinks_update {request : ApprovalRequest} {f : Rewrite ApprovalRequest}
    (mem : request ∈ s.approvals) (pending : request.decision = .pending)
    (h : s'.approvals = s.approvals.update request.id f) (post : Uuid) :
    (approvingLinks s' post).length = (approvingLinks s post).length +
      if (f request).post = post ∧ (f request).decision = .approved then 1 else 0 := by
  unfold approvingLinks
  rw [h]
  have hcount := Table.length_where_update (f := f)
    (fun r => decide (r.post = post) && decide (r.decision = .approved)) mem
  rw [if_neg (by simp [pending]), Nat.add_zero] at hcount
  refine hcount.trans ?_
  simp

/-- The other links stay as they are. -/
theorem outstanding_update {request : ApprovalRequest} {f : Rewrite ApprovalRequest} {post : Uuid}
    (h : s'.approvals = s.approvals.update request.id f)
    (hf : request.post = post → (f request).post = post ∧ (f request).decision = .pending)
    (mem : request ∈ s.approvals) (k : (standing s post).outstanding) :
    (standing s' post).outstanding := by
  obtain ⟨r, hr, hpost, hpending⟩ := k
  by_cases hid : r.id = request.id
  · obtain rfl : r = request := Table.eq_of_key hr mem hid
    exact ⟨f r, h ▸ Table.mem_update_self hr rfl, hf hpost⟩
  · exact ⟨r, h ▸ Table.mem_update_of_ne hr hid, hpost, hpending⟩

/-- The standing after a commit that leaves the links alone. -/
theorem standing_of_approvals (h : s'.approvals = s.approvals) (post : Uuid) :
    standing s' post = ⟨stateOf s' post, (standing s post).links, (approvingEvents s' post).length,
      (standing s post).outstanding⟩ := by
  unfold standing approvingLinks
  rw [h]

/-- **Every commit is a step of the review of every post.** -/
theorem ReviewStep.standing (h : ReviewStep now s s') (post : Uuid) :
    (standing s post).Step (standing s' post) := by
  cases h with
  | aside states approvals _ events =>
    rw [standing_of_approvals approvals, states, events]
    exact .stays id
  | @drafted draft fresh states approvals _ events =>
    rw [standing_of_approvals approvals, states, events]
    by_cases hpost : post = draft
    · subst hpost
      rw [Function.update_self]
      unfold Relay.standing
      rw [fresh]
      exact .drafted
    · rw [Function.update_of_ne hpost]
      exact .stays id
  | @approved approved state states approvals _ events =>
    rw [standing_of_approvals approvals, states, events]
    by_cases hpost : post = approved
    · subst hpost
      rw [Function.update_self, if_pos rfl]
      exact .approved state
    · rw [Function.update_of_ne hpost, if_neg (Ne.symm hpost)]
      exact .stays id
  | @requested request state states new insert _ events =>
    have hlinks : (approvingLinks s' post).length = (approvingLinks s post).length := by
      unfold approvingLinks
      rw [Table.where_insert? insert, if_neg (by simp [new.1]), List.append_nil]
    unfold Relay.standing
    rw [hlinks, states, events]
    by_cases hpost : post = request.post
    · subst hpost
      rw [Function.update_self]
      exact .requested state ⟨request, Table.mem_self_insert? insert, rfl, new.1⟩
    · rw [Function.update_of_ne hpost]
      exact .stays fun ⟨r, hr, hopen⟩ => ⟨r, Table.mem_of_mem_insert? insert hr, hopen⟩
  | @decided request d mem _ _ pending made state states approvals _ _ events =>
    have hlinks := length_approvingLinks_update mem pending approvals post
    change _ = _ + if request.post = post ∧ d = .approved then 1 else 0 at hlinks
    unfold Relay.standing
    rw [hlinks, states, events]
    by_cases hpost : post = request.post
    · subst hpost
      rw [Function.update_self, state]
      by_cases hd : d = .approved
      · simp only [hd, and_self, if_true]
        exact .agreed
      · simp only [hd, and_false, false_and, if_false, Nat.add_zero]
        exact .returned
    · rw [Function.update_of_ne hpost, if_neg fun h => hpost h.1.symm, if_neg fun h => hpost h.2.symm]
      exact .stays (outstanding_update approvals (fun h => absurd h.symm hpost) mem)
  | @revoked request mem _ pending states approvals _ events =>
    have hlinks := length_approvingLinks_update mem pending approvals post
    change _ = _ + if request.post = post ∧ request.decision = .approved then 1 else 0 at hlinks
    unfold Relay.standing
    rw [hlinks, states, events, if_neg (by simp [pending])]
    exact .stays (outstanding_update approvals (fun h => ⟨h, pending⟩) mem)

end Standing

/-! ### One link -/

/-- A link in order: decision and time come together, in time and never with a revocation, and
requested changes are explained. -/
structure ApprovalRequest.Valid (s : Store) (r : ApprovalRequest) : Prop where
  together : r.decision = .pending ↔ r.decidedAt = none
  exclusive : r.decision ≠ .pending → r.revokedAt = none
  inTime : ∀ t, r.decidedAt = some t → t < r.expiresAt
  commented : r.decision = .changesRequested →
    ∃ c ∈ s.comments, c.approvalRequest = r.id ∧ c.body ≠ ""

/-- The decision of a link at `now`: the link is open and its post waits for it. -/
structure Decided (now : Time) (s : Store) (r r' : ApprovalRequest) : Prop where
  mem : r ∈ s.approvals
  pending : r.decision = .pending
  open' : r.revokedAt = none
  unexpired : now < r.expiresAt
  state : stateOf s r.post = some .pendingApproval
  eq : ∃ d, d ≠ .pending ∧ r' = r.decide now d

section Link

variable {now : Time} {s s' : Store} {r' : ApprovalRequest}

theorem ReviewStep.comments (h : ReviewStep now s s') : ∀ c ∈ s.comments, c ∈ s'.comments := by
  cases h with
  | decided _ _ _ _ _ _ _ _ _ kept => exact kept
  | aside _ _ comments | drafted _ _ _ comments | approved _ _ _ comments
  | requested _ _ _ _ comments | revoked _ _ _ _ _ comments => exact fun c hc => comments ▸ hc

/-- A link was there, or it is new, is decided or is revoked. -/
theorem ReviewStep.link (h : ReviewStep now s s') (hr' : r' ∈ s'.approvals) :
    r' ∈ s.approvals ∨
      (r'.decision = .pending ∧ r'.decidedAt = none) ∨
      (∃ r, Decided now s r r' ∧ (r'.decision = .changesRequested →
        ∃ c ∈ s'.comments, c.approvalRequest = r.id ∧ c.body ≠ "")) ∨
      ∃ r ∈ s.approvals, r.decision = .pending ∧ r' = r.revoke now := by
  cases h with
  | aside _ approvals | drafted _ _ approvals | approved _ _ approvals => exact .inl (approvals ▸ hr')
  | requested _ _ new insert =>
    rcases (Table.mem_insert? insert).1 hr' with hr' | rfl
    · exact .inl hr'
    · exact .inr (.inl ⟨new.1, new.2.1⟩)
  | decided mem open' unexpired pending made state _ approvals commented =>
    rcases Table.of_mem_update mem (approvals ▸ hr') with rfl | ⟨hr', -⟩
    · exact .inr (.inr (.inl ⟨_, ⟨mem, pending, open', unexpired, state, _, made, rfl⟩, commented⟩))
    · exact .inl hr'
  | revoked mem _ pending _ approvals =>
    rcases Table.of_mem_update mem (approvals ▸ hr') with rfl | ⟨hr', -⟩
    · exact .inr (.inr (.inr ⟨_, mem, pending, rfl⟩))
    · exact .inl hr'

/-- A decision is final. -/
theorem ReviewStep.decided_stays (h : ReviewStep now s s') {r : ApprovalRequest}
    (hr : r ∈ s.approvals) (hd : r.decision ≠ .pending) : r ∈ s'.approvals := by
  cases h with
  | aside _ approvals | drafted _ _ approvals | approved _ _ approvals => exact approvals ▸ hr
  | requested _ _ _ insert => exact Table.mem_of_mem_insert? insert hr
  | decided mem _ _ pending _ _ _ approvals | revoked mem _ pending _ approvals =>
    refine approvals ▸ Table.mem_update_of_ne hr fun hid => hd ?_
    rw [Table.eq_of_key hr mem hid, pending]

theorem ReviewStep.valid (h : ReviewStep now s s') (hs : ∀ r ∈ s.approvals, r.Valid s)
    (hr' : r' ∈ s'.approvals) : r'.Valid s' := by
  rcases h.link hr' with hr | ⟨hpending, hnone⟩ | ⟨r, hdecided, hcomment⟩ | ⟨r, hr, hpending, rfl⟩
  · obtain ⟨htogether, hexclusive, htime, hcomment⟩ := hs r' hr
    refine ⟨htogether, hexclusive, htime, fun hd => ?_⟩
    obtain ⟨c, hc, hbody⟩ := hcomment hd
    exact ⟨c, h.comments c hc, hbody⟩
  · refine ⟨iff_of_true hpending hnone, fun hd => absurd hpending hd, fun t ht => ?_, fun hd => ?_⟩
    · rw [hnone] at ht; cases ht
    · rw [hpending] at hd; cases hd
  · obtain ⟨d, hd, rfl⟩ := hdecided.eq
    refine ⟨iff_of_false hd (by simp [ApprovalRequest.decide]), fun _ => hdecided.open', ?_, hcomment⟩
    rintro t ⟨⟩
    exact hdecided.unexpired
  · obtain ⟨htogether, -, htime, -⟩ := hs r hr
    refine ⟨htogether, fun hd => absurd hpending hd, htime, fun hd => ?_⟩
    change r.decision = _ at hd
    rw [hpending] at hd
    cases hd

end Link

/-! ### All commits -/

/-- The review of every post and every link is in order. -/
structure Reviewed (s : Store) : Prop where
  posts : ∀ post, (standing s post).Valid
  links : ∀ r ∈ s.approvals, r.Valid s

theorem Reviewed.step {now : Time} {s s' : Store} (h : Reviewed s) (hstep : ReviewStep now s s') :
    Reviewed s' where
  posts post := (hstep.standing post).valid (h.posts post)
  links _ hr' := hstep.valid h.links hr'

theorem Reviewed.provisioned (tenants : Table Tenant) (brands : Table Brand)
    (memberships : Table Membership) : Reviewed (.provisioned tenants brands memberships) where
  posts _ := ⟨rfl, le_rfl, fun hstate => by cases hstate⟩
  links r hr := absurd hr (Table.not_mem_empty r)

/-- The review of the running system is in order. -/
theorem reviewed_of_running {env : Env} {publisher : Option Publisher} {s : Sys}
    (h : Reachable (relay env publisher) s) : Reviewed s.store := by
  refine h.invariant (I := fun s => Reviewed s.store) ?_ fun s e t hs hstep => ?_
  · rintro _ ⟨tenants, brands, memberships, clock, rfl⟩
    exact .provisioned tenants brands memberships
  · rcases (next_step hstep).store with hsame | hcommit
    · exact hsame ▸ hs
    · obtain ⟨now, hreview⟩ := hcommit.review
      exact hs.step hreview

/-! ### Services in any order -/

/-- The store after a service call; a call that raises leaves it as it is. -/
def afterCall (env : Env) (s : Store) (call : World × Command) : Store :=
  match runCommand env call.1 call.2 s with
  | .ok (_, s') => s'
  | .error _ => s

/-- The services, called in any order, with any arguments and at any times. -/
def services (env : Env) : Machine Store (World × Command) where
  start s := ∃ tenants brands memberships, s = .provisioned tenants brands memberships
  step s call s' := s' = afterCall env s call

section Calls

variable {env : Env} {s s' : Store}

theorem afterCall_review (env : Env) (s : Store) (call : World × Command) :
    ReviewStep call.1.now s (afterCall env s call) := by
  unfold afterCall
  split
  · rename_i hrun
    exact (runCommand_effect hrun).review
  · exact .aside rfl rfl rfl rfl

theorem trail_of_calls (env : Env) (s : Store) (calls : List (World × Command)) :
    Trail (services env) s calls (calls.foldl (afterCall env) s) :=
  Trail.of_foldl (fun _ _ => rfl) s calls

theorem reviewed_of_reachable (h : Reachable (services env) s) : Reviewed s := by
  refine h.invariant ?_ fun s call t hs hstep => ?_
  · rintro _ ⟨tenants, brands, memberships, rfl⟩
    exact .provisioned tenants brands memberships
  · rw [show t = afterCall env s call from hstep]
    exact hs.step (afterCall_review env s call)

/-- What is approved or decided stays so. -/
theorem Trail.review_final {calls : List (World × Command)} (h : Trail (services env) s calls s') :
    (∀ post, stateOf s post = some .approved → stateOf s' post = some .approved) ∧
      ∀ r ∈ s.approvals, r.decision ≠ .pending → r ∈ s'.approvals := by
  induction h with
  | stay => exact ⟨fun _ h => h, fun _ h _ => h⟩
  | @move s t u call _ head _ ih =>
    have hreview : ReviewStep call.1.now s t := by
      rw [show t = afterCall env s call from head]
      exact afterCall_review env s call
    exact ⟨fun post h => ih.1 post ((hreview.standing post).approved_final h),
      fun r hr hd => ih.2 r (hreview.decided_stays hr hd) hd⟩

end Calls

/-- **The client-approval state machine.**  Whatever services were called, and when, the review of
every post is in order and at most one link has approved it; a call decides a link only while the
link is open and its post waits for it; and from then on approved posts stay approved, and decided
links stay as they are. -/
theorem client_approval {env : Env} {s : Store} (h : Reachable (services env) s) :
    Reviewed s ∧ (∀ post, (approvingLinks s post).length ≤ 1) ∧
      (∀ w c, ∀ r' ∈ (afterCall env s (w, c)).approvals, r'.decision ≠ .pending →
        r' ∈ s.approvals ∨ ∃ r, Decided w.now s r r') ∧
      ∀ calls s', Trail (services env) s calls s' →
        (∀ post, stateOf s post = some .approved → stateOf s' post = some .approved) ∧
        ∀ r ∈ s.approvals, r.decision ≠ .pending → r ∈ s'.approvals := by
  have hs := reviewed_of_reachable h
  refine ⟨hs, fun post => ?_, fun w c r' hr' hd => ?_, fun calls s' tr => Trail.review_final tr⟩
  · have hevents := (hs.posts post).events_eq
    have hlinks := (hs.posts post).links_le
    split at hevents
    · exact hlinks.trans hevents.le
    · exact hlinks.trans (hevents.le.trans (Nat.zero_le 1))
  · rcases (afterCall_review env s (w, c)).link hr' with
      hr | ⟨hpending, -⟩ | ⟨r, hdecided, -⟩ | ⟨r, -, hpending, rfl⟩
    · exact .inl hr
    · exact absurd hpending hd
    · exact .inr ⟨r, hdecided⟩
    · exact absurd hpending hd

/-- A post that is approved by its link. -/
theorem client_approval_sample : ∃ s, stateOf s Sample.post = some .approved ∧ Reviewed s := by
  refine ⟨[((⟨Sample.draws 20, 0⟩ : World), Command.createPostDraft Sample.workspace Sample.brand ""
      "k" { Sample.payload with mediaAssetIds := [] }),
    (⟨Sample.draws 60, 1⟩, .requestApproval Sample.workspace Sample.brand Sample.post "" 7),
    (⟨Sample.draws 70, 2⟩, .decideApproval "token" .approved "" "")].foldl (afterCall Sample.env)
      Sample.start.store, by decide +kernel, (client_approval ⟨_, _, ⟨_, _, _, rfl⟩,
        trail_of_calls _ _ _⟩).1⟩

end Relay
