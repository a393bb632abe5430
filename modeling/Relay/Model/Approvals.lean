import Relay.Model.Services

/-!
# Client approval: `approvals/services.py`

A link is an unguessable token; only its digest is stored.  Each command locks the rows it reads,
so each is one step at one instant `now`.
-/

namespace Relay

open Relational

structure ApprovalLink where
  request : ApprovalRequest
  url : String
  deriving DecidableEq

/-- `_approval_url`. -/
def approvalUrl (env : Env) (rawToken : String) : String :=
  rstripSlash env.relayPublicApiUrl ++ "/approval-links/" ++ rawToken ++ "/"

/-- `ApprovalRequest.objects.create`, with the unique constraint on the digest. -/
def createApprovalRow (s : Store) (request : ApprovalRequest) :
    Except ServiceError (Table ApprovalRequest) :=
  if (s.approvals.find? fun a => a.tokenDigest = request.tokenDigest).isSome then
    .error .integrityError
  else create s.approvals request

/-- The row of an approval request. -/
def newApprovalRequest (env : Env) (now : Time) (id : Uuid) (rawToken : String) (brand post : Uuid)
    (subject : String) (expiresInDays : ℤ) : ApprovalRequest :=
  { TimeStampedUUIDModel.new id now with
    brand, post
    requestedBySubject := subject
    tokenDigest := env.sha256 rawToken
    expiresAt := now + days expiresInDays
    revokedAt := none
    decidedAt := none
    decision := .pending }

/-- `request_approval`, for the identifier and the token drawn. -/
def requestApproval (env : Env) (now : Time) (id : Uuid) (rawToken : String)
    (tenant brand postId : Uuid) (subject : String) (expiresInDays : ℤ) (s : Store) :
    Except ServiceError (ApprovalLink × Store) := do
  let post ← getPost postId tenant brand s
  if post.state ≠ .draft ∧ post.state ≠ .pendingApproval then .error .invalidApprovalState
  else
    let request := newApprovalRequest env now id rawToken brand post.id subject expiresInDays
    let approvals ← createApprovalRow s request
    let s := { s with approvals }
    let s := if post.state ≠ .pendingApproval then s.setPostState now post.id .pendingApproval else s
    .ok (⟨request, approvalUrl env rawToken⟩, s.log
      (serviceEvent tenant brand subject "approval.requested" "approval_request" request.id
        [("post_id", .str post.id.text), ("expires_at", .str request.expiresAt.isoformat)]))

/-- The request of a token, whatever its condition. -/
def findApproval (env : Env) (rawToken : String) (s : Store) : Option ApprovalRequest :=
  s.approvals.find? fun a => a.tokenDigest = env.sha256 rawToken

/-- `get_active_approval_request`. -/
def getActiveApprovalRequest (env : Env) (now : Time) (rawToken : String) (s : Store) :
    Except ServiceError ApprovalRequest :=
  match findApproval env rawToken s with
  | none => .error .invalidApprovalLink
  | some request =>
    if request.revokedAt ≠ none ∨ request.expiresAt ≤ now then .error .invalidApprovalLink
    else .ok request

/-- Rewrites one approval request. -/
def Store.updateApproval (s : Store) (id : Uuid) (f : Rewrite ApprovalRequest) : Store :=
  { s with approvals := s.approvals.update id f }

/-- A request whose link is revoked. -/
def ApprovalRequest.revoke (a : ApprovalRequest) (now : Time) : ApprovalRequest :=
  { a with revokedAt := some now, updatedAt := now }

/-- `revoke_approval`. -/
def revokeApproval (now : Time) (requestId tenant : Uuid) (subject : String) (s : Store) :
    Except ServiceError (ApprovalRequest × Store) :=
  match s.approvals.find? fun a => a.id = requestId &&
      (s.brands.get? a.brand).any fun b => b.workspace = tenant with
  | none => .error .doesNotExist
  | some request =>
    if request.revokedAt ≠ none ∨ request.decision ≠ .pending then .error .approvalAlreadyRevoked
    else
      .ok (request.revoke now,
        (s.updateApproval request.id ⟨(·.revoke now), fun _ => rfl⟩).log
          (serviceEvent tenant request.brand subject "approval.revoked" "approval_request" request.id
            [("post_id", .str request.post.text)]))

/-- The decision texts that `decide_approval` distinguishes. -/
inductive DecisionText
  | approved
  | changesRequested
  /-- any other text -/
  | other (text : String)
  deriving DecidableEq

/-- The decision a supported text stands for. -/
def DecisionText.decision? : DecisionText → Option ApprovalDecision
  | approved => some .approved
  | changesRequested => some .changesRequested
  | other _ => none

/-- A request with a decision. -/
def ApprovalRequest.decide (a : ApprovalRequest) (now : Time) (d : ApprovalDecision) :
    ApprovalRequest :=
  { a with decision := d, decidedAt := some now, updatedAt := now }

/-- The audit event of a decision. -/
def decisionEvent (brand : Brand) (request : ApprovalRequest) (post : Uuid) (d : ApprovalDecision) :
    AuditLog where
  tenant := brand.workspace
  brand := brand.id
  actorType := "approval_link"
  actorId := request.id.text
  eventType := if d = .approved then "approval.approved" else "approval.changes_requested"
  subjectType := "post"
  subjectId := post
  metadata := [("approval_request_id", .str request.id.text)]

/-- The comment of a decision, when there is one. -/
def createComment (s : Store) (now : Time) (id request : Uuid) (authorLabel comment : String) :
    Except ServiceError Store :=
  if comment = "" then .ok s
  else do
    let comments ← create s.comments
      { TimeStampedUUIDModel.new id now with
        approvalRequest := request, authorLabel, body := comment }
    .ok { s with comments }

/-- `decide_approval`, for the identifier drawn for the comment. -/
def decideApproval (env : Env) (now : Time) (commentId : Uuid) (rawToken : String)
    (decision : DecisionText) (comment authorLabel : String) (s : Store) :
    Except ServiceError (ApprovalRequest × Store) :=
  match findApproval env rawToken s with
  | none => .error .invalidApprovalLink
  | some request =>
    if request.revokedAt ≠ none ∨ request.expiresAt ≤ now then .error .invalidApprovalLink
    else if request.decision ≠ .pending then .error .approvalAlreadyDecided
    else match decision.decision? with
    | none => .error (.valueError "Unsupported approval decision")
    | some d =>
      if d = .changesRequested ∧ comment = "" then
        .error (.valueError "A comment is required when changes are requested")
      else match s.posts.get? request.post, s.brands.get? request.brand with
      | some post, some brand =>
        if post.state ≠ .pendingApproval then .error .invalidApprovalState
        else do
          let s := s.updateApproval request.id ⟨(·.decide now d), fun _ => rfl⟩
          let s := s.setPostState now post.id (if d = .approved then .approved else .draft)
          let s ← createComment s now commentId request.id authorLabel comment
          .ok (request.decide now d, s.log (decisionEvent brand request post.id d))
      | _, _ => .error .invalidApprovalLink

end Relay
