import Relay.Model.Approvals
import Relay.Model.Social

/-!
# Requests and responses: `api/serializers.py`

The data of a request with the checks its serializer declares, once REST framework has read each
field at its declared type, and the data each serializer shows of a row.
-/

namespace Relay

open Relational Sequence

/-! ### Errors of the API -/

/-- How a request is refused. -/
inductive ApiError
  | validation (field message : String)
  | authenticationFailed (detail : String)
  | permissionDenied
  | notFound
  /-- `IdempotencyConflictResponse` -/
  | idempotencyConflict
  /-- `InvalidStateResponse` -/
  | invalidState
  /-- `InvalidApprovalResponse` -/
  | invalidApproval
  /-- `MetaConnectionResponse` -/
  | metaConnection
  /-- `MetaConfigurationResponse` -/
  | metaConfiguration
  /-- `MediaUploadResponse` -/
  | mediaUpload
  /-- an exception that no handler turns into a response -/
  | unhandled (error : ServiceError)
  deriving DecidableEq

/-- The status of the error response. -/
def ApiError.status : ApiError → ℕ
  | validation _ _ => 400
  | authenticationFailed _ => 403
  | permissionDenied => 403
  | notFound => 404
  | idempotencyConflict => 409
  | invalidState => 409
  | invalidApproval => 409
  | metaConnection => 502
  | metaConfiguration => 503
  | mediaUpload => 503
  | unhandled _ => 500

/-! ### Fields -/

/-- The text without white space at its ends. -/
def trim (s : String) : String := String.ofList (Text.strip Text.isSpace s.toList)

/-- A `CharField` without `trim_whitespace`. -/
def untrimmedField (name : String) (allowBlank : Bool) (s : String) : Except ApiError String :=
  if s = "" ∧ ¬ allowBlank then .error (.validation name "This field may not be blank.")
  else if s.toList.contains '\x00' then .error (.validation name "Null characters are not allowed.")
  else .ok s

/-- A `CharField` with `max_length`. -/
def charField (name : String) (allowBlank : Bool) (maxLength : Option ℕ) (s : String) :
    Except ApiError String :=
  match maxLength with
  | some n =>
    if n < (trim s).length then
      .error (.validation name ("Ensure this field has no more than " ++ toString n ++ " characters."))
    else untrimmedField name allowBlank (trim s)
  | none => untrimmedField name allowBlank (trim s)

/-- A field that may be omitted. -/
def optionalField {α β : Type} (check : α → Except ApiError β) : Option α → Except ApiError (Option β)
  | none => .ok none
  | some a => (check a).map some

/-- An `IntegerField` with `min_value` and `max_value`. -/
def integerField (name : String) (low high n : ℤ) : Except ApiError ℤ :=
  if n < low then
    .error (.validation name ("Ensure this value is greater than or equal to " ++ toString low ++ "."))
  else if high < n then
    .error (.validation name ("Ensure this value is less than or equal to " ++ toString high ++ "."))
  else .ok n

/-- A `ChoiceField`. -/
def choiceField (name : String) (choices : List String) (s : String) : Except ApiError String :=
  if s ∈ choices then .ok s
  else .error (.validation name ("\"" ++ s ++ "\" is not a valid choice."))

/-! ### Requests -/

/-- The body of a `PostCreateSerializer`. -/
structure PostCreateData where
  brandId : Uuid
  title : Option String
  body : String
  mediaAssetIds : Option (List Uuid)
  deriving DecidableEq

/-- `PostCreateSerializer`. -/
def PostCreateData.validate (d : PostCreateData) : Except ApiError PostPayload := do
  let title ← optionalField (charField "title" true (some 255)) d.title
  let body ← untrimmedField "body" false d.body
  let mediaAssetIds := d.mediaAssetIds.getD []
  if 10 < mediaAssetIds.length then
    .error (.validation "media_asset_ids" "Ensure this field has no more than 10 elements.")
  else .ok { brandId := d.brandId, title, body, mediaAssetIds }

/-- The body of a `MediaUploadIntentSerializer`. -/
structure MediaUploadIntentData where
  brandId : Uuid
  filename : String
  contentType : String
  sizeBytes : ℤ
  checksum : Option String
  deriving DecidableEq

/-- The pattern `^[a-fA-F0-9]{64}$`. -/
def matchesChecksum (s : String) : Bool :=
  s.length = 64 && s.toList.all fun c => (Uuid.digitValue c).isSome

/-- `MediaUploadIntentSerializer`; a checksum that is left out takes the default of the service. -/
def MediaUploadIntentData.validate (d : MediaUploadIntentData) : Except ApiError MediaUpload := do
  let filename ← charField "filename" false (some 255) d.filename
  let contentType ← choiceField "content_type" ["image/jpeg", "image/png"] d.contentType
  let sizeBytes ← integerField "size_bytes" 1 (10 * 1024 * 1024) d.sizeBytes
  let checksum ← charField "checksum" true (some 64) (d.checksum.getD "")
  if checksum ≠ "" ∧ ¬ matchesChecksum checksum then
    .error (.validation "checksum" "This value does not match the required pattern.")
  else .ok { filename, contentType, sizeBytes := sizeBytes.toNat, checksum }

/-- The body of a `PublicationCreateSerializer`. -/
structure PublicationCreateData where
  postVariantId : Uuid
  channelConnectionId : Uuid
  scheduledFor : Time
  deriving DecidableEq

/-- `PublicationCreateSerializer.validate_scheduled_for`. -/
def PublicationCreateData.validate (now : Time) (d : PublicationCreateData) :
    Except ApiError PublicationCreateData :=
  if d.scheduledFor ≤ now then
    .error (.validation "scheduled_for" "The scheduled time must be in the future.")
  else .ok d

/-- `ApprovalRequestCreateSerializer`, of the field `expires_in_days`. -/
def validateExpiresInDays (expiresInDays : Option ℤ) : Except ApiError ℤ :=
  integerField "expires_in_days" 1 30 (expiresInDays.getD 7)

/-- The body of an `ApprovalDecisionSerializer`. -/
structure ApprovalDecisionData where
  decision : DecisionText
  comment : Option String
  authorLabel : Option String
  deriving DecidableEq

/-- The validated decision; what is left out takes the default of the service. -/
structure ValidDecision where
  decision : DecisionText
  comment : String
  authorLabel : String
  deriving DecidableEq

/-- `ApprovalDecisionSerializer`. -/
def ApprovalDecisionData.validate (d : ApprovalDecisionData) : Except ApiError ValidDecision := do
  if let .other text := d.decision then
    .error (.validation "decision" ("\"" ++ text ++ "\" is not a valid choice."))
  let comment ← charField "comment" true none (d.comment.getD "")
  let authorLabel ← charField "author_label" true (some 255) (d.authorLabel.getD "")
  if d.decision = .changesRequested ∧ comment = "" then
    .error (.validation "comment" "This field is required when changes are requested.")
  else .ok ⟨d.decision, comment, authorLabel⟩

/-! ### Responses -/

structure PostData where
  id : Uuid
  title : String
  body : String
  state : LifecycleState
  defaultVariantId : Option Uuid
  mediaAssetIds : List Uuid
  createdAt : Time
  updatedAt : Time
  deriving DecidableEq

/-- `post.variants.order_by("created_at").first()`. -/
def defaultVariant (s : Store) (post : Uuid) : Option PostVariant :=
  (orderBy (fun a b : PostVariant => a.createdAt ≤ b.createdAt)
    (s.variants.where fun v => v.post = post)).head?

/-- `PostSerializer`. -/
def postData (s : Store) (p : Post) : PostData where
  id := p.id
  title := p.title
  body := p.body
  state := p.state
  defaultVariantId := (defaultVariant s p.id).map (·.id)
  mediaAssetIds :=
    match defaultVariant s p.id with
    | some v => (orderedMediaAssets s v).map (·.id)
    | none => []
  createdAt := p.createdAt
  updatedAt := p.updatedAt

structure MediaAssetData where
  id : Uuid
  brandId : Uuid
  contentType : String
  sizeBytes : ℕ
  checksum : String
  uploadState : UploadState
  createdAt : Time
  updatedAt : Time
  deriving DecidableEq

/-- `MediaAssetSerializer`. -/
def mediaAssetData (a : MediaAsset) : MediaAssetData where
  id := a.id
  brandId := a.brand
  contentType := a.contentType
  sizeBytes := a.sizeBytes
  checksum := a.checksum
  uploadState := a.uploadState
  createdAt := a.createdAt
  updatedAt := a.updatedAt

structure ChannelConnectionData where
  id : Uuid
  brandId : Uuid
  provider : Provider
  channel : Channel
  providerChannelId : String
  displayName : String
  tokenExpiresAt : Option Time
  grantedScopes : List String
  isActive : Bool
  createdAt : Time
  updatedAt : Time
  deriving DecidableEq

/-- `ChannelConnectionSerializer`, of a connection and its account. -/
def channelConnectionData (c : ChannelConnection) (a : SocialAccount) : ChannelConnectionData where
  id := c.id
  brandId := a.brand
  provider := a.provider
  channel := c.channel
  providerChannelId := c.providerChannelId
  displayName := c.displayName
  tokenExpiresAt := c.tokenExpiresAt
  grantedScopes := c.grantedScopes
  isActive := c.isActive
  createdAt := c.createdAt
  updatedAt := c.updatedAt

structure PublicationData where
  id : Uuid
  postVariantId : Uuid
  channelConnectionId : Uuid
  scheduledFor : Time
  state : LifecycleState
  providerPublicationId : String
  lastErrorCode : String
  lastErrorMessage : String
  createdAt : Time
  updatedAt : Time
  deriving DecidableEq

/-- `PublicationSerializer`. -/
def publicationData (p : Publication) : PublicationData where
  id := p.id
  postVariantId := p.postVariant
  channelConnectionId := p.channelConnection
  scheduledFor := p.scheduledFor
  state := p.state
  providerPublicationId := p.providerPublicationId
  lastErrorCode := p.lastErrorCode
  lastErrorMessage := p.lastErrorMessage
  createdAt := p.createdAt
  updatedAt := p.updatedAt

structure ApprovalCommentData where
  authorLabel : String
  body : String
  createdAt : Time
  deriving DecidableEq

structure ApprovalRequestData where
  id : Uuid
  postId : Uuid
  expiresAt : Time
  decision : ApprovalDecision
  decidedAt : Option Time
  comments : List ApprovalCommentData
  deriving DecidableEq

/-- `ApprovalRequestSerializer`. -/
def approvalRequestData (s : Store) (r : ApprovalRequest) : ApprovalRequestData where
  id := r.id
  postId := r.post
  expiresAt := r.expiresAt
  decision := r.decision
  decidedAt := r.decidedAt
  comments := (s.comments.where fun c => c.approvalRequest = r.id).map fun c =>
    ⟨c.authorLabel, c.body, c.createdAt⟩

end Relay
