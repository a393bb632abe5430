import Relay.Model.Approvals
import Relay.Model.Social

/-!
# Commands

The writing services under one type: a `Command` is a service with the arguments its caller has
computed, `World` is what one run takes from outside the database, and `runCommand` is the
transaction.
-/

namespace Relay

/-- What one transaction draws at random and hears from the storage client. -/
structure Draws where
  /-- `uuid4()` -/
  ids : ℕ → Uuid
  /-- `secrets.token_urlsafe(48)` -/
  rawToken : String
  /-- what the cipher draws for one token after another -/
  ciphers : ℕ → FernetDraw
  signer : Signer
  head : HeadObject

/-- The same with the moment of the transaction, `timezone.now()`. -/
structure World extends Draws where
  now : Time

/-- A service and its arguments. -/
inductive Command
  | createMediaUploadIntent (tenant brand : Uuid) (subject : String) (upload : MediaUpload)
  | confirmMediaUpload (asset tenant : Uuid) (subject : String)
  | createPostDraft (tenant brand : Uuid) (subject idempotencyKey : String) (payload : PostPayload)
  | approvePost (post tenant brand : Uuid) (subject : String)
  | requestApproval (tenant brand post : Uuid) (subject : String) (expiresInDays : ℤ)
  | decideApproval (rawToken : String) (decision : DecisionText) (comment authorLabel : String)
  | revokeApproval (approvalRequest tenant : Uuid) (subject : String)
  | schedulePublication (call : ScheduleCall)
  | startMetaOAuth (tenant brand : Uuid) (subject : String)
  | consumeOAuthState (rawState : String)
  | persistMetaConnections (tenant brand : Uuid) (subject : String) (token : MetaToken)
      (identity : MetaIdentity)
  deriving DecidableEq

/-- What a service returns. -/
inductive Reply
  | uploadIntent (intent : MediaUploadIntent)
  | confirmed (asset : MediaAsset)
  | post (result : CreatePostResult)
  | approved (post : Post)
  | approvalLink (link : ApprovalLink)
  | decided (request : ApprovalRequest)
  | revoked (request : ApprovalRequest)
  | publication (result : SchedulePublicationResult)
  | authorization (url : String)
  | oauthState (state : OAuthState)
  | socialAccount (account : SocialAccount)
  deriving DecidableEq

/-- Names the result of a service. -/
def reply {α : Type} (f : α → Reply) (r : Except ServiceError (α × Store)) :
    Except ServiceError (Reply × Store) := r.map fun x => (f x.1, x.2)

/-- The transaction of a command. -/
def runCommand (env : Env) (w : World) : Command → Store → Except ServiceError (Reply × Store)
  | .createMediaUploadIntent tenant brand subject upload, s =>
    reply .uploadIntent
      (createMediaUploadIntent env w.signer w.now (w.ids 0) tenant brand subject upload s)
  | .confirmMediaUpload asset tenant subject, s =>
    reply .confirmed (confirmMediaUpload env w.head w.now asset tenant subject s)
  | .createPostDraft tenant brand subject idempotencyKey payload, s =>
    reply .post
      (createPostDraft env w.now ⟨w.ids 0, w.ids 1⟩ tenant brand subject idempotencyKey payload s)
  | .approvePost post tenant brand subject, s =>
    reply .approved (approvePost w.now post tenant brand subject s)
  | .requestApproval tenant brand post subject expiresInDays, s =>
    reply .approvalLink
      (requestApproval env w.now (w.ids 0) w.rawToken tenant brand post subject expiresInDays s)
  | .decideApproval rawToken decision comment authorLabel, s =>
    reply .decided (decideApproval env w.now (w.ids 0) rawToken decision comment authorLabel s)
  | .revokeApproval approvalRequest tenant subject, s =>
    reply .revoked (revokeApproval w.now approvalRequest tenant subject s)
  | .schedulePublication call, s =>
    reply .publication (schedulePublication env w.now (w.ids 0) call s)
  | .startMetaOAuth tenant brand subject, s =>
    reply .authorization (startMetaOAuth env w.now (w.ids 0) w.rawToken tenant brand subject s)
  | .consumeOAuthState rawState, s =>
    reply .oauthState (consumeOAuthState env w.now rawState s)
  | .persistMetaConnections tenant brand subject token identity, s =>
    reply .socialAccount
      (persistMetaConnections env w.now w.ids w.ciphers tenant brand subject token identity s)

end Relay
