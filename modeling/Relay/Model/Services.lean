import Relay.Model.Content

/-!
# Idempotent commands: `api/services.py`

Each function is one `transaction.atomic` block: it returns its result with the store after the
commit, or the exception with which the block is rolled back.  A query that follows a database
error inside the block raises `TransactionManagementError`, so the recovery branch of the two
creating commands ends there (`afterIntegrityError`).
-/

namespace Relay

open Relational

/-- The text that `request_fingerprint` hashes. -/
def canonical (payload : List (String × Json)) : String :=
  String.ofList (Json.dumps .compact (.obj (Json.sortFields payload)))

/-- `request_fingerprint`. -/
def requestFingerprint (env : Env) (payload : List (String × Json)) : String :=
  env.sha256 (canonical payload)

/-- The `except IntegrityError` branch: its first query meets the broken transaction. -/
def afterIntegrityError {α : Type} : Except ServiceError α → Except ServiceError α
  | .error .integrityError => .error .transactionManagementError
  | r => r

/-! ### Drafts -/

/-- The validated data of a `PostCreateSerializer`. -/
structure PostPayload where
  brandId : Uuid
  title : Option String
  body : String
  mediaAssetIds : List Uuid
  deriving DecidableEq

/-- The payload as the dictionary that is fingerprinted. -/
def PostPayload.toFields (p : PostPayload) : List (String × Json) :=
  ("brand_id", .str p.brandId.text) ::
    ((p.title.map fun t => ("title", Json.str t)).toList ++
      [("body", .str p.body), ("media_asset_ids", .arr (p.mediaAssetIds.map fun i => .str i.text))])

structure CreatePostResult where
  post : Post
  created : Bool
  deriving DecidableEq

/-- The post of a tenant that carries an idempotency key. -/
def findPost (tenant : Uuid) (idempotencyKey : String) (s : Store) : Option Post :=
  s.posts.find? fun p => p.tenant = tenant && p.idempotencyKey = idempotencyKey

/-- The answer to a key that already has a post. -/
def replayPost (fingerprint : String) (existing : Post) : Except ServiceError CreatePostResult :=
  if existing.requestFingerprint ≠ fingerprint then .error .idempotencyConflict
  else .ok ⟨existing, false⟩

/-- `Post.objects.create`, with the unique constraint on tenant and key. -/
def createPostRow (s : Store) (post : Post) : Except ServiceError (Table Post) :=
  if (findPost post.tenant post.idempotencyKey s).isSome then .error .integrityError
  else create s.posts post

/-- The row of a draft. -/
def newPost (env : Env) (now : Time) (id tenant brand : Uuid) (subject idempotencyKey : String)
    (payload : PostPayload) : Post :=
  { TimeStampedUUIDModel.new id now with
    tenant, brand
    title := payload.title.getD ""
    body := payload.body
    state := .draft
    createdBySubject := subject
    idempotencyKey
    requestFingerprint := requestFingerprint env payload.toFields }

/-- The row of the default variant of a post. -/
def newVariant (now : Time) (id : Uuid) (post : Post) (mediaAssets : List MediaAsset) : PostVariant :=
  { TimeStampedUUIDModel.new id now with
    post := post.id
    body := post.body
    mediaAssets := mediaAssets.map (·.id)
    mediaAssetOrder := mediaAssets.map (·.id.text) }

/-- Identifiers drawn by `create_post_draft`. -/
structure PostIds where
  post : Uuid
  variant : Uuid
  deriving DecidableEq

/-- The `try` block of `create_post_draft`. -/
def insertPostDraft (env : Env) (now : Time) (ids : PostIds) (tenant brand : Uuid)
    (subject idempotencyKey : String) (payload : PostPayload) (s : Store) :
    Except ServiceError (CreatePostResult × Store) := do
  let post := newPost env now ids.post tenant brand subject idempotencyKey payload
  let posts ← createPostRow s post
  let mediaAssets ← readyAssetsForPost tenant brand payload.mediaAssetIds s
  let variants ← create s.variants (newVariant now ids.variant post mediaAssets)
  .ok (⟨post, true⟩, { s with posts, variants }.log
    (serviceEvent tenant brand subject "post.draft_created" "post" post.id
      [("idempotency_key", .str idempotencyKey)]))

/-- `create_post_draft`. -/
def createPostDraft (env : Env) (now : Time) (ids : PostIds) (tenant brand : Uuid)
    (subject idempotencyKey : String) (payload : PostPayload) (s : Store) :
    Except ServiceError (CreatePostResult × Store) :=
  match findPost tenant idempotencyKey s with
  | some existing =>
    (replayPost (requestFingerprint env payload.toFields) existing).map fun r => (r, s)
  | none =>
    afterIntegrityError (insertPostDraft env now ids tenant brand subject idempotencyKey payload s)

/-! ### Approval by staff -/

/-- Sets the state of a post. -/
def Store.setPostState (s : Store) (now : Time) (post : Uuid) (state : LifecycleState) : Store :=
  { s with
    posts := s.posts.update post
      ⟨fun p => { p with state := state, updatedAt := now }, fun _ => rfl⟩ }

/-- `Post.objects.select_for_update().get(id=..., tenant=..., brand=...)`. -/
def getPost (post tenant brand : Uuid) (s : Store) : Except ServiceError Post :=
  match s.posts.find? fun p => p.id = post && p.tenant = tenant && p.brand = brand with
  | some p => .ok p
  | none => .error .doesNotExist

/-- `approve_post`. -/
def approvePost (now : Time) (postId tenant brand : Uuid) (subject : String) (s : Store) :
    Except ServiceError (Post × Store) := do
  let post ← getPost postId tenant brand s
  if post.state = .approved then .ok (post, s)
  else if post.state ≠ .draft ∧ post.state ≠ .pendingApproval then .error .invalidStateTransition
  else
    .ok ({ post with state := .approved, updatedAt := now },
      (s.setPostState now post.id .approved).log
        (serviceEvent tenant brand subject "post.approved" "post" post.id []))

/-! ### Scheduling -/

/-- A call of `schedule_publication`, with the rows as the view loaded them. -/
structure ScheduleCall where
  tenant : Uuid
  brand : Uuid
  subject : String
  postVariant : PostVariant
  post : Post
  channelConnection : ChannelConnection
  socialAccount : SocialAccount
  scheduledFor : Time
  idempotencyKey : String
  deriving DecidableEq

/-- The dictionary that `schedule_publication` fingerprints. -/
def ScheduleCall.payload (c : ScheduleCall) : List (String × Json) :=
  [("post_variant_id", .str c.postVariant.id.text),
    ("channel_connection_id", .str c.channelConnection.id.text),
    ("scheduled_for", .str c.scheduledFor.isoformat)]

structure SchedulePublicationResult where
  publication : Publication
  created : Bool
  deriving DecidableEq

/-- The publication of a tenant that carries an idempotency key. -/
def findPublication (tenant : Uuid) (idempotencyKey : String) (s : Store) : Option Publication :=
  s.publications.find? fun p => p.tenant = tenant && p.idempotencyKey = idempotencyKey

/-- The answer to a key that already has a publication. -/
def replayPublication (fingerprint : String) (existing : Publication) :
    Except ServiceError SchedulePublicationResult :=
  if existing.requestFingerprint ≠ fingerprint then .error .idempotencyConflict
  else .ok ⟨existing, false⟩

/-- The checks between the look-up and the insertion of `schedule_publication`. -/
def checkSchedule (call : ScheduleCall) (s : Store) : Except ServiceError Unit :=
  let mediaAssets := attachedAssets s call.postVariant.id
  if call.post.tenant ≠ call.tenant ∨ call.post.brand ≠ call.brand then .error .invalidSchedule
  else if call.socialAccount.tenant ≠ call.tenant ∨ call.socialAccount.brand ≠ call.brand ∨
      ¬ call.channelConnection.isActive then .error .invalidSchedule
  else if call.post.state ≠ .approved then .error .invalidStateTransition
  else if ¬ (1 ≤ mediaAssets.length ∧ mediaAssets.length ≤ 10) ∨
      mediaAssets.any (fun a => a.uploadState ≠ .ready) then .error .invalidSchedule
  else .ok ()

/-- `Publication.objects.create`, with the unique constraint on tenant and key. -/
def createPublicationRow (s : Store) (publication : Publication) :
    Except ServiceError (Table Publication) :=
  if (findPublication publication.tenant publication.idempotencyKey s).isSome then
    .error .integrityError
  else create s.publications publication

/-- The row of a scheduled publication. -/
def newPublication (env : Env) (now : Time) (id : Uuid) (call : ScheduleCall) : Publication :=
  { TimeStampedUUIDModel.new id now with
    tenant := call.tenant
    brand := call.brand
    postVariant := call.postVariant.id
    channelConnection := call.channelConnection.id
    scheduledFor := call.scheduledFor
    state := .scheduled
    idempotencyKey := call.idempotencyKey
    requestFingerprint := requestFingerprint env call.payload
    providerPublicationId := ""
    lastErrorCode := ""
    lastErrorMessage := "" }

/-- The `try` block of `schedule_publication`. -/
def insertPublication (env : Env) (now : Time) (id : Uuid) (call : ScheduleCall) (s : Store) :
    Except ServiceError (SchedulePublicationResult × Store) := do
  let publication := newPublication env now id call
  let publications ← createPublicationRow s publication
  .ok (⟨publication, true⟩, { s with publications }.log
    (serviceEvent call.tenant call.brand call.subject "publication.scheduled" "publication"
      publication.id [("idempotency_key", .str call.idempotencyKey)]))

/-- `schedule_publication`. -/
def schedulePublication (env : Env) (now : Time) (id : Uuid) (call : ScheduleCall) (s : Store) :
    Except ServiceError (SchedulePublicationResult × Store) :=
  match findPublication call.tenant call.idempotencyKey s with
  | some existing =>
    (replayPublication (requestFingerprint env call.payload) existing).map fun r => (r, s)
  | none => do
    checkSchedule call s
    afterIntegrityError (insertPublication env now id call s)

end Relay
