import Relay.Library.Journal
import Relay.ClientApproval

/-!
# The audit log determines the state

Services and workers write their audit entries by hand, each with its own names.  Read in the order
of their commits, the entries describe the posts, the approval requests, the assets and the
publications of the store.

* `AuditLog.postState` and its companions: what an entry says of a row;
* `Audited`: the log describes the store; `Logged`: what a commit enters, `StoreStep.logged`;
* `operations`: services and workers in any order, `audit_determines_state`.
-/

namespace Relay

open Relational Transition Journal

/-! ### What an entry says -/

namespace AuditLog

/-- A text in the metadata of an entry. -/
def text (e : AuditLog) (field : String) : Option String :=
  match Json.get e.metadata field with
  | some (.str value) => some value
  | _ => none

/-- The state into which the entry brings a post. -/
def postState (post : Uuid) (e : AuditLog) : Option LifecycleState :=
  if e.eventType = "post.draft_created" ∧ e.subjectId = post then some .draft
  else if e.eventType = "approval.requested" ∧ e.text "post_id" = some post.text then
    some .pendingApproval
  else if e.eventType = "approval.changes_requested" ∧ e.subjectId = post then some .draft
  else if (e.eventType = "post.approved" ∨ e.eventType = "approval.approved") ∧ e.subjectId = post then
    some .approved
  else none

/-- The decision that the entry gives an approval request. -/
def decision (request : Uuid) (e : AuditLog) : Option ApprovalDecision :=
  if e.eventType = "approval.requested" ∧ e.subjectId = request then some .pending
  else if e.eventType = "approval.approved" ∧
      e.text "approval_request_id" = some request.text then some .approved
  else if e.eventType = "approval.changes_requested" ∧
      e.text "approval_request_id" = some request.text then some .changesRequested
  else none

/-- Whether the entry makes or revokes an approval request. -/
def revoked (request : Uuid) (e : AuditLog) : Option Bool :=
  if e.eventType = "approval.requested" ∧ e.subjectId = request then some false
  else if e.eventType = "approval.revoked" ∧ e.subjectId = request then some true
  else none

/-- The entry confirms the upload of an asset. -/
def confirms (asset : Uuid) (e : AuditLog) : Bool :=
  e.eventType = "media.upload_confirmed" && e.subjectId = asset

/-- The state into which the entry brings a publication; what is scheduled may be under way. -/
def publicationState (publication : Uuid) (e : AuditLog) : Option LifecycleState :=
  if (e.eventType = "publication.scheduled" ∨ e.eventType = "publication.retry_scheduled") ∧
      e.subjectId = publication then some .scheduled
  else if e.eventType = "publication.published" ∧ e.subjectId = publication then some .published
  else if e.eventType = "publication.failed" ∧ e.subjectId = publication then some .failed
  else none

end AuditLog

/-- The state of a publication as far as the log tells it: no entry is written when a worker
begins. -/
def LifecycleState.logged : LifecycleState → LifecycleState
  | .publishing => .scheduled
  | state => state

/-- The confirmations of an asset. -/
def confirmations (log : List AuditLog) (asset : Uuid) : List AuditLog := log.filter (·.confirms asset)

/-! ### The log describes the store -/

/-- The replay of the log gives the rows of the store, and no others. -/
structure Audited (s : Store) : Prop where
  posts : replay AuditLog.postState s.audit = s.posts.view (·.state)
  decisions : replay AuditLog.decision s.audit = s.approvals.view (·.decision)
  revocations : replay AuditLog.revoked s.audit = s.approvals.view (·.revokedAt.isSome)
  assets : ∀ id, (confirmations s.audit id).length =
    if s.assets.view (·.uploadState) id = some .ready then 1 else 0
  publications : replay AuditLog.publicationState s.audit = s.publications.view (·.state.logged)

/-- The entry records what a commit does. -/
structure Recorded (e : AuditLog) (s s' : Store) : Prop where
  posts : Records AuditLog.postState e (s.posts.view (·.state)) (s'.posts.view (·.state))
  decisions : Records AuditLog.decision e (s.approvals.view (·.decision))
    (s'.approvals.view (·.decision))
  revocations : Records AuditLog.revoked e (s.approvals.view (·.revokedAt.isSome))
    (s'.approvals.view (·.revokedAt.isSome))
  assets : ∀ id, (if s'.assets.view (·.uploadState) id = some .ready then 1 else 0) =
    (if s.assets.view (·.uploadState) id = some .ready then 1 else 0) + if e.confirms id then 1 else 0
  publications : Records AuditLog.publicationState e (s.publications.view (·.state.logged))
    (s'.publications.view (·.state.logged))

section Silent

variable {e : AuditLog} {id : Uuid}

theorem postState_silent (h : e.eventType ∉ ["post.draft_created", "approval.requested",
    "approval.changes_requested", "post.approved", "approval.approved"]) : e.postState id = none := by
  simp only [List.mem_cons, List.not_mem_nil, or_false, not_or] at h
  simp [AuditLog.postState, h]

theorem decision_silent (h : e.eventType ∉ ["approval.requested", "approval.approved",
    "approval.changes_requested"]) : e.decision id = none := by
  simp only [List.mem_cons, List.not_mem_nil, or_false, not_or] at h
  simp [AuditLog.decision, h]

theorem revoked_silent (h : e.eventType ∉ ["approval.requested", "approval.revoked"]) :
    e.revoked id = none := by
  simp only [List.mem_cons, List.not_mem_nil, or_false, not_or] at h
  simp [AuditLog.revoked, h]

theorem confirms_silent (h : e.eventType ≠ "media.upload_confirmed") : e.confirms id = false := by
  simp [AuditLog.confirms, h]

theorem publicationState_silent (h : e.eventType ∉ ["publication.scheduled",
    "publication.retry_scheduled", "publication.published", "publication.failed"]) :
    e.publicationState id = none := by
  simp only [List.mem_cons, List.not_mem_nil, or_false, not_or] at h
  simp [AuditLog.publicationState, h]

end Silent

section Step

variable {env : Env} {s s' : Store} {e : AuditLog}

theorem Audited.recorded (h : Audited s) (audit : s'.audit = s.audit ++ [e]) (hr : Recorded e s s') :
    Audited s' where
  posts := by rw [audit]; exact hr.posts.replay h.posts
  decisions := by rw [audit]; exact hr.decisions.replay h.decisions
  revocations := by rw [audit]; exact hr.revocations.replay h.revocations
  assets id := by
    rw [audit, hr.assets id, ← h.assets id, confirmations, confirmations, List.filter_append,
      List.length_append]
    cases hc : e.confirms id <;> simp [hc]
  publications := by rw [audit]; exact hr.publications.replay h.publications

/-- The row of the log itself is no part of what is recorded. -/
theorem Recorded.log {e' : AuditLog} (h : Recorded e s s') : Recorded e s (s'.log e') :=
  ⟨h.posts, h.decisions, h.revocations, h.assets, h.publications⟩

/-- One asset more is ready. -/
theorem ready_update {view view' : Uuid → Option UploadState} {asset : Uuid}
    (h : view' = Function.update view asset (some .ready)) (unready : view asset ≠ some .ready)
    (id : Uuid) : (if view' id = some .ready then 1 else 0) =
      (if view id = some .ready then 1 else 0) + if asset = id then 1 else 0 := by
  rw [h, Function.update_apply]
  by_cases hid : id = asset
  · subst hid
    rw [if_pos rfl, if_pos rfl, if_neg unready, if_pos rfl]
  · rw [if_neg hid, if_neg (Ne.symm hid), Nat.add_zero]

/-- Entries about other things, with a commit that leaves the four tables alone. -/
theorem recorded_aside (h : e.eventType ∉ ["post.draft_created", "approval.requested",
    "approval.changes_requested", "post.approved", "approval.approved", "approval.revoked",
    "media.upload_confirmed", "publication.scheduled", "publication.retry_scheduled",
    "publication.published", "publication.failed"])
    (posts : s'.posts = s.posts) (approvals : s'.approvals = s.approvals)
    (assets : ∀ id, s'.assets.view (·.uploadState) id = some .ready ↔
      s.assets.view (·.uploadState) id = some .ready)
    (publications : s'.publications = s.publications) : Recorded e s s' := by
  simp only [List.mem_cons, List.not_mem_nil, or_false, not_or] at h
  obtain ⟨h₁, h₂, h₃, h₄, h₅, h₆, h₇, h₈, h₉, h₁₀, h₁₁⟩ := h
  refine ⟨.silent (fun id => postState_silent (by simp [*])) (by rw [posts]),
    .silent (fun id => decision_silent (by simp [*])) (by rw [approvals]),
    .silent (fun id => revoked_silent (by simp [*])) (by rw [approvals]), fun id => ?_,
    .silent (fun id => publicationState_silent (by simp [*])) (by rw [publications])⟩
  rw [confirms_silent h₇]
  simp [assets id]

/-- An entry about one post. -/
theorem recorded_post (post : Uuid) (state : LifecycleState) (h : e.eventType ∉ ["approval.requested",
    "approval.approved", "approval.changes_requested", "approval.revoked", "media.upload_confirmed",
    "publication.scheduled", "publication.retry_scheduled", "publication.published",
    "publication.failed"])
    (one : ∀ id, e.postState id = if id = post then some state else none)
    (posts : s'.posts.view (·.state) = Function.update (s.posts.view (·.state)) post (some state))
    (approvals : s'.approvals = s.approvals) (assets : s'.assets = s.assets)
    (publications : s'.publications = s.publications) : Recorded e s s' := by
  simp only [List.mem_cons, List.not_mem_nil, or_false, not_or] at h
  obtain ⟨h₁, h₂, h₃, h₄, h₅, h₆, h₇, h₈, h₉⟩ := h
  refine ⟨.update post state one posts,
    .silent (fun id => decision_silent (by simp [*])) (by rw [approvals]),
    .silent (fun id => revoked_silent (by simp [*])) (by rw [approvals]), fun id => ?_,
    .silent (fun id => publicationState_silent (by simp [*])) (by rw [publications])⟩
  rw [confirms_silent h₅, assets]
  simp

/-- An entry about one publication. -/
theorem recorded_publication (publication : Uuid) (state : LifecycleState)
    (h : e.eventType ∈ ["publication.scheduled", "publication.retry_scheduled",
      "publication.published", "publication.failed"])
    (one : ∀ id, e.publicationState id = if id = publication then some state else none)
    (publications : s'.publications.view (·.state.logged) =
      Function.update (s.publications.view (·.state.logged)) publication (some state))
    (posts : s'.posts = s.posts) (approvals : s'.approvals = s.approvals)
    (assets : s'.assets = s.assets) : Recorded e s s' := by
  -- none of the four names is one of another table
  have haside : ∀ names : List String, (∀ name ∈ ["publication.scheduled",
      "publication.retry_scheduled", "publication.published", "publication.failed"], name ∉ names) →
      e.eventType ∉ names := fun names hnames => hnames e.eventType h
  refine ⟨.silent (fun id => postState_silent (haside _ (by decide))) (by rw [posts]),
    .silent (fun id => decision_silent (haside _ (by decide))) (by rw [approvals]),
    .silent (fun id => revoked_silent (haside _ (by decide))) (by rw [approvals]), fun id => ?_,
    .update publication state one publications⟩
  rw [confirms_silent fun hc => haside ["media.upload_confirmed"] (by decide) (by simp [hc]), assets]
  simp

/-- A post that is there is brought into a state. -/
theorem view_setPostState {now : Time} {row : Post} {state : LifecycleState} (h : row ∈ s.posts) :
    (s.setPostState now row.id state).posts.view (·.state) =
      Function.update (s.posts.view (·.state)) row.id (some state) := Table.view_update h

/-- The request is logged with its post, and begins without decision. -/
theorem recorded_request {tenant brand post : Uuid} {subject : String} {request : ApprovalRequest}
    {expires : String} {approvals : Table ApprovalRequest} {posts : Table Post}
    (pending : request.decision = .pending) (open' : request.revokedAt = none)
    (insert : s.approvals.insert? request = some approvals)
    (states : posts.view (·.state) =
      Function.update (s.posts.view (·.state)) post (some .pendingApproval)) :
    Recorded (serviceEvent tenant brand subject "approval.requested" "approval_request" request.id
      [("post_id", .str post.text), ("expires_at", .str expires)]) s { s with approvals, posts } := by
  refine ⟨.update post .pendingApproval (fun id => ?_) states,
    .update request.id .pending (fun id => ?_) ?_, .update request.id false (fun id => ?_) ?_,
    fun id => ?_, .silent (fun id => publicationState_silent (by simp [serviceEvent])) rfl⟩
  · -- a post is named by its text
    have htext : post.text = id.text ↔ id = post :=
      ⟨fun h => (Uuid.text_injective h).symm, fun h => by rw [h]⟩
    simp [AuditLog.postState, AuditLog.text, serviceEvent, Json.get, htext]
  · simp [AuditLog.decision, serviceEvent, eq_comm]
  · exact (Table.view_insert? insert).trans (by rw [pending]; rfl)
  · simp [AuditLog.revoked, serviceEvent, eq_comm]
  · exact (Table.view_insert? insert).trans (by rw [open']; rfl)
  · rw [confirms_silent (by simp [serviceEvent])]
    simp

/-- The decision is logged with its request, under the post. -/
theorem recorded_decision {now : Time} {brand : Brand} {request : ApprovalRequest} {post : Post}
    {d : ApprovalDecision} {comments : Table ApprovalComment} (made : d ≠ .pending)
    (mem : request ∈ s.approvals) (postMem : post ∈ s.posts) :
    Recorded (decisionEvent brand request post.id d) s
      { ((s.updateApproval request.id ⟨(·.decide now d), fun _ => rfl⟩).setPostState now
          post.id (if d = ApprovalDecision.approved then .approved else .draft)) with comments } := by
  refine ⟨.update post.id (if d = .approved then .approved else .draft) (fun id => ?_)
      (view_setPostState postMem), .update request.id d (fun id => ?_) (Table.view_update mem),
    .silent (fun id => revoked_silent ?_) (Table.view_update_same fun _ => rfl), fun id => ?_,
    .silent (fun id => publicationState_silent ?_) rfl⟩
  · cases d with
    | pending => exact absurd rfl made
    | approved => simp [AuditLog.postState, decisionEvent, eq_comm]
    | changesRequested => simp [AuditLog.postState, decisionEvent, eq_comm]
  · have htext : request.id.text = id.text ↔ id = request.id :=
      ⟨fun h => (Uuid.text_injective h).symm, fun h => by rw [h]⟩
    cases d with
    | pending => exact absurd rfl made
    | approved => simp [AuditLog.decision, AuditLog.text, decisionEvent, Json.get, htext]
    | changesRequested => simp [AuditLog.decision, AuditLog.text, decisionEvent, Json.get, htext]
  · by_cases hd : d = .approved <;> simp [decisionEvent, hd]
  · rw [confirms_silent (by by_cases hd : d = .approved <;> simp [decisionEvent, hd])]
    rfl
  · by_cases hd : d = .approved <;> simp [decisionEvent, hd]

/-- What the log says is not changed, or changed by one entry that records what is done. -/
inductive Logged (s s' : Store) : Prop
  | same (posts : s'.posts.view (·.state) = s.posts.view (·.state))
      (approvals : s'.approvals = s.approvals) (assets : s'.assets = s.assets)
      (publications : s'.publications.view (·.state.logged) = s.publications.view (·.state.logged))
      (audit : s'.audit = s.audit)
  | entry (e : AuditLog) (audit : s'.audit = s.audit ++ [e]) (recorded : Recorded e s s')

theorem Audited.step (h : Audited s) (hl : Logged s s') : Audited s' := by
  cases hl with
  | same posts approvals assets publications audit =>
    constructor
    · rw [audit, posts]; exact h.posts
    · rw [audit, approvals]; exact h.decisions
    · rw [audit, approvals]; exact h.revocations
    · rw [audit, assets]; exact h.assets
    · rw [audit, publications]; exact h.publications
  | entry e audit recorded => exact h.recorded audit recorded

/-- **A service logs what it does.** -/
theorem Effect.logged {w : World} {c : Command} {r : Reply} (h : Effect env w c r s s') :
    Logged s s' := by
  cases h with
  | @uploadIntended tenant brand subject upload _ assets url _ _ insert =>
    refine .entry _ rfl (recorded_aside (by simp [serviceEvent]) rfl rfl (fun id => ?_) rfl)
    have hfresh : s.assets.view (·.uploadState) (w.ids 0) = none :=
      congrArg (Option.map _) (Table.get?_eq_none.2 (Table.fresh_of_insert? insert))
    change assets.view _ id = _ ↔ _
    rw [Table.view_insert? insert, Function.update_apply]
    split
    · -- the new asset is pending
      rename_i hid
      rw [hid]
      exact iff_of_false (by simp [newMediaAsset]) (by rw [show key _ = w.ids 0 from rfl, hfresh]; simp)
    · exact Iff.rfl
  | alreadyConfirmed | draftReplayed | alreadyApproved | publicationReplayed =>
    exact .same rfl rfl rfl rfl rfl
  | @confirmed asset tenant subject _ row metadata mem id _ pending =>
    refine .entry _ rfl ⟨.silent (fun id => postState_silent (by simp [serviceEvent])) rfl,
      .silent (fun id => decision_silent (by simp [serviceEvent])) rfl,
      .silent (fun id => revoked_silent (by simp [serviceEvent])) rfl, fun id' => ?_,
      .silent (fun id => publicationState_silent (by simp [serviceEvent])) rfl⟩
    subst id
    have hbefore : s.assets.view (·.uploadState) row.id ≠ some .ready := by
      rw [show s.assets.view (·.uploadState) row.id = some row.uploadState from Table.view_key mem,
        pending]
      decide
    refine (ready_update (Table.view_update mem) hbefore id').trans (congrArg _ ?_)
    by_cases hid : row.id = id' <;> simp [AuditLog.confirms, serviceEvent, hid]
  | @drafted tenant brand subject key payload _ posts variants media _ insert =>
    refine .entry _ rfl (recorded_post (w.ids 0) .draft (by simp [serviceEvent]) (fun id => ?_)
      (Table.view_insert? insert) rfl rfl rfl)
    simp [AuditLog.postState, serviceEvent, eq_comm]
  | @approved post tenant brand subject _ row mem id =>
    subst id
    refine .entry _ rfl (recorded_post row.id .approved (by simp [serviceEvent]) (fun id => ?_)
      (view_setPostState mem) rfl rfl rfl)
    simp [AuditLog.postState, serviceEvent, eq_comm]
  | @approvalRequested tenant brand post subject days _ row approvals request mem id _ state
      request_eq _ insert =>
    subst id
    refine .entry _ rfl
      (recorded_request (by rw [request_eq]; rfl) (by rw [request_eq]; rfl) insert ?_).log
    -- a post that is pending already is left alone
    split
    · rename_i hpending
      have hview : s.posts.view (·.state) row.id = some row.state := Table.view_key mem
      rw [← hpending, ← hview]
      exact (Function.update_eq_self _ _).symm
    · exact view_setPostState mem
  | @decided _ _ d _ _ _ request post brand comments found _ _ _ supported _ _ postRow =>
    obtain ⟨hpost, hid⟩ := Table.get?_eq_some.1 postRow
    rw [← show post.id = request.post from hid]
    exact .entry _ rfl
      (recorded_decision (DecisionText.ne_pending supported) (Table.mem_of_find? found) hpost).log
  | @revoked id tenant subject _ request mem request_id =>
    subst request_id
    refine .entry _ rfl ⟨.silent (fun id => postState_silent (by simp [serviceEvent])) rfl,
      .silent (fun id => decision_silent (by simp [serviceEvent])) (Table.view_update_same fun _ => rfl),
      .update request.id true (fun id => ?_) (Table.view_update mem), fun id => ?_,
      .silent (fun id => publicationState_silent (by simp [serviceEvent])) rfl⟩
    · simp [AuditLog.revoked, serviceEvent, eq_comm]
    · rw [confirms_silent (by simp [serviceEvent])]
      rfl
  | @scheduled call _ publications _ _ insert =>
    refine .entry _ rfl (recorded_publication (w.ids 0) .scheduled (by simp [serviceEvent])
      (fun id => ?_) (Table.view_insert? insert) rfl rfl rfl)
    simp [AuditLog.publicationState, serviceEvent, eq_comm]
  | oauthStarted | oauthConsumed => exact .same rfl rfl rfl rfl rfl
  | connected =>
    exact .entry _ rfl (recorded_aside (by simp [serviceEvent]) rfl rfl (fun _ => Iff.rfl) rfl)

/-- A worker logs its outcome; for the log a publication that is under way is scheduled. -/
theorem StoreStep.logged {A : Store → Command → Prop} (h : StoreStep env A s s') : Logged s s' := by
  cases h with
  | command _ effect => exact effect.logged
  | claimed claimed =>
    cases claimed with
    | @claimed _ publication _ _ _ _ mem due =>
      have hscheduled : publication.state = .scheduled := (Publication.due_iff.1 due).1
      refine .same rfl rfl rfl ?_ rfl
      have hview : s.publications.view (·.state.logged) publication.id =
          some publication.state.logged := Table.view_key mem
      refine (Table.view_update mem).trans ?_
      rw [show LifecycleState.logged _ = publication.state.logged by rw [hscheduled]; rfl, ← hview]
      exact Function.update_eq_self _ _
  | finished finished =>
    cases finished with
    | @published _ publication attempt _ publicationRow =>
      obtain ⟨hmem, hid⟩ := Table.get?_eq_some.1 publicationRow
      refine .entry _ rfl (recorded_publication publication.id .published (by simp [workerEvent])
        (fun id => ?_) ?_ rfl rfl rfl)
      · simp [AuditLog.publicationState, workerEvent, eq_comm]
      · rw [← show publication.id = _ from hid]
        exact Table.view_update hmem
    | @failed _ publication attempt error shouldRetry publicationRow =>
      obtain ⟨hmem, hid⟩ := Table.get?_eq_some.1 publicationRow
      refine .entry _ rfl (recorded_publication publication.id
        (if shouldRetry then .scheduled else .failed) ?_ (fun id => ?_) ?_ rfl rfl rfl)
      · cases shouldRetry <;> simp [workerEvent]
      · cases shouldRetry <;> simp [AuditLog.publicationState, workerEvent, eq_comm]
      · rw [← show publication.id = _ from hid]
        refine (Table.view_update hmem).trans ?_
        cases shouldRetry <;> rfl

end Step

/-! ### Services and workers in any order -/

/-- A transaction of a service or of a worker, with all that it takes from outside. -/
inductive Operation
  | call (w : World) (c : Command)
  | claim (started now : Time) (attempt publication : Uuid)
  | finish (now : Time) (claim : Claim) (result : Except DeliveryError String)

/-- What an operation returns. -/
inductive Operation.Result
  | reply (reply : Reply)
  | claim (claim : Option Claim)
  | answer (answer : String)

/-- The operation, or what it raises. -/
def Operation.run (env : Env) (s : Store) :
    Operation → Except ServiceError (Operation.Result × Store)
  | .call w c => (runCommand env w c s).map fun x => (.reply x.1, x.2)
  | .claim started now attempt publication =>
    (claimPublication started now attempt publication s).map fun x => (.claim x.1, x.2)
  | .finish now c result => (Relay.finish env now c result s).map fun x => (.answer x.1, x.2)

/-- The store afterwards: what raises is rolled back. -/
def Operation.after (env : Env) (s : Store) (op : Operation) : Store :=
  match op.run env s with
  | .ok (_, s') => s'
  | .error _ => s

/-- Services and workers in any order. -/
def operations (env : Env) : Machine Store Operation where
  start s := ∃ tenants brands memberships, s = .provisioned tenants brands memberships
  step s op s' := s' = op.after env s

/-- The result says that what is asked for was done before. -/
def Operation.Result.Replays (s : Store) : Operation.Result → Prop
  | .reply (.post result) => result.created = false
  | .reply (.publication result) => result.created = false
  | .reply (.approved post) => s.posts.view (·.state) post.id = some .approved
  | .reply (.confirmed asset) => s.assets.view (·.uploadState) asset.id = some .ready
  | .claim c => c = none
  | _ => False

section Operations

variable {env : Env} {s s' : Store}

/-- An operation that returns has committed, or done nothing. -/
theorem Operation.run_store {op : Operation} {a : Operation.Result} (h : op.run env s = .ok (a, s')) :
    s' = s ∨ StoreStep env (fun _ _ => True) s s' := by
  cases op with
  | call w c =>
    obtain ⟨⟨r, t⟩, hrun, heq⟩ := map_eq_ok.1 h
    cases heq
    exact .inr (.command trivial (runCommand_effect hrun))
  | claim started now attempt publication =>
    obtain ⟨⟨r, t⟩, hrun, heq⟩ := map_eq_ok.1 h
    cases heq
    rcases claimPublication_claimed hrun with ⟨-, hsame⟩ | ⟨_, -, -, hclaimed⟩
    · exact .inl hsame
    · exact .inr (.claimed hclaimed)
  | finish now claim result =>
    obtain ⟨⟨r, t⟩, hrun, heq⟩ := map_eq_ok.1 h
    cases heq
    exact .inr (.finished (finish_finished hrun))

/-- What was done before is not done again. -/
theorem Operation.run_replays {op : Operation} {a : Operation.Result}
    (h : op.run env s = .ok (a, s')) (ha : a.Replays s) : s' = s := by
  cases op with
  | call w c =>
    obtain ⟨⟨r, t⟩, hrun, heq⟩ := map_eq_ok.1 h
    cases heq
    have heffect := runCommand_effect hrun
    cases heffect with
    | alreadyConfirmed | draftReplayed | alreadyApproved | publicationReplayed => rfl
    | @confirmed _ _ _ _ row _ mem _ _ pending =>
      -- the asset was pending
      have hview : s.assets.view (·.uploadState) row.id = some row.uploadState := Table.view_key mem
      rw [pending] at hview
      exact absurd (hview.symm.trans ha) (by decide)
    | @approved _ _ _ _ _ row mem _ _ state =>
      have hview : s.posts.view (·.state) row.id = some row.state := Table.view_key mem
      have happroved : some row.state = some LifecycleState.approved := hview.symm.trans ha
      rcases state with hstate | hstate <;> simp [hstate] at happroved
    | drafted | scheduled => cases ha
    | _ => exact ha.elim
  | claim started now attempt publication =>
    obtain ⟨⟨c, t⟩, hrun, heq⟩ := map_eq_ok.1 h
    cases heq
    rcases claimPublication_claimed hrun with ⟨-, hsame⟩ | ⟨_, hsome, -⟩
    · exact hsame
    · cases (show c = none from ha)
      cases hsome
  | finish now claim result =>
    obtain ⟨⟨r, t⟩, -, heq⟩ := map_eq_ok.1 h
    cases heq
    exact ha.elim

theorem Operation.after_store (op : Operation) :
    op.after env s = s ∨ StoreStep env (fun _ _ => True) s (op.after env s) := by
  unfold Operation.after
  split
  · rename_i hrun
    exact Operation.run_store hrun
  · exact .inl rfl

theorem Audited.provisioned (tenants : Table Tenant) (brands : Table Brand)
    (memberships : Table Membership) : Audited (.provisioned tenants brands memberships) where
  posts := rfl
  decisions := rfl
  revocations := rfl
  assets _ := rfl
  publications := rfl

/-- The log of the running system describes its store. -/
theorem audited_of_running {publisher : Option Publisher} {r : Sys}
    (h : Reachable (relay env publisher) r) : Audited r.store := by
  refine h.invariant (I := fun r => Audited r.store) ?_ fun r e t hr hstep => ?_
  · rintro _ ⟨tenants, brands, memberships, clock, rfl⟩
    exact .provisioned tenants brands memberships
  · rcases (next_step hstep).store with hsame | hcommit
    · exact hsame ▸ hr
    · exact hr.step hcommit.logged

end Operations

/-- **The audit log determines the state.**  Whatever services and workers did, in any order and at
any times, the log describes the store; and an operation that raises, or that was done before, adds
no entry. -/
theorem audit_determines_state {env : Env} {s : Store} (h : Reachable (operations env) s) :
    Audited s ∧ ∀ op : Operation,
      (∀ e, op.run env s = .error e → (op.after env s).audit = s.audit) ∧
      ∀ a s', op.run env s = .ok (a, s') → a.Replays s → s'.audit = s.audit := by
  constructor
  · refine h.invariant ?_ fun s op t hs hstep => ?_
    · rintro _ ⟨tenants, brands, memberships, rfl⟩
      exact .provisioned tenants brands memberships
    · rw [show t = op.after env s from hstep]
      rcases op.after_store with hsame | hcommit
      · exact hsame ▸ hs
      · exact hs.step hcommit.logged
  · refine fun op => ⟨fun e he => ?_, fun a s' hrun ha => ?_⟩
    · unfold Operation.after
      rw [he]
    · rw [Operation.run_replays hrun ha]

/-- A link is requested and revoked, and a second one approves the post. -/
theorem audit_determines_state_sample : ∃ s, s.audit.length = 5 ∧ Audited s := by
  refine ⟨[Operation.call ⟨Sample.draws 20, 0⟩ (.createPostDraft Sample.workspace Sample.brand ""
      "k" { Sample.payload with mediaAssetIds := [] }),
    .call ⟨{ Sample.draws 60 with rawToken := "first" }, 1⟩
      (.requestApproval Sample.workspace Sample.brand Sample.post "" 7),
    .call ⟨Sample.draws 0, 2⟩ (.revokeApproval (.ofNat 60) Sample.workspace ""),
    .call ⟨Sample.draws 70, 3⟩ (.requestApproval Sample.workspace Sample.brand Sample.post "" 7),
    .claim 4 4 (.ofNat 80) Sample.publication,
    .call ⟨Sample.draws 90, 5⟩ (.decideApproval "token" .approved "" "")].foldl
      (fun s op => op.after Sample.env s) Sample.start.store, by decide +kernel,
    (@audit_determines_state Sample.env _
      ⟨_, _, ⟨_, _, _, rfl⟩, Trail.of_foldl (fun _ _ => rfl) _ _⟩).1⟩

end Relay
