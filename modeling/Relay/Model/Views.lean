import Relay.Model.Authentication
import Relay.Model.Command
import Relay.Model.Serializers

/-!
# The HTTP interface: `api/views.py`

A handler works in two parts.  `handle` is all that precedes its service call, at the store of
that moment: validation, the workspace, the brand and the rows that the view loads.  It ends in a
response or in the `Command` to run.  `respond` shows the result of the command, which runs at the
store of a later moment.

* `ApiRequest`, `admitRequest`: the requests to a `TenantScopedAPIView`;
* `PublicRequest`, `admitPublic`: approval links and the OAuth callback.
-/

namespace Relay

open Relational Sequence

/-! ### Responses -/

structure RecentPublication where
  id : Uuid
  title : String
  state : LifecycleState
  scheduledFor : Time
  channel : Channel
  account : String
  deriving DecidableEq

structure SummaryData where
  published : ℕ
  scheduled : ℕ
  failed : ℕ
  connections : ℕ
  activity : List (String × ℕ)
  recentPublications : List RecentPublication
  deriving DecidableEq

/-- The body of a response. -/
inductive Data
  | summary (data : SummaryData)
  | posts (data : List PostData)
  | post (data : PostData)
  | uploadIntent (asset : MediaAssetData) (uploadUrl : String) (uploadHeaders : List (String × String))
  | mediaAsset (data : MediaAssetData)
  | approvalLink (data : ApprovalRequestData) (approvalUrl : String)
  | approvalPage (data : ApprovalRequestData) (post : PostData)
  | approvalRequest (data : ApprovalRequestData)
  | publications (data : List PublicationData)
  | publication (data : PublicationData)
  | connections (data : List ChannelConnectionData)
  | authorization (authorizationUrl : String)
  | noContent
  deriving DecidableEq

structure Response where
  status : ℕ
  data : Data
  deriving DecidableEq

/-! ### Tenant-scoped views -/

def everyRole : List MembershipRole := [.owner, .manager, .contentCreator, .clientApprover, .viewer]

def editorRoles : List MembershipRole := [.owner, .manager, .contentCreator]

/-- A view with one scope and one list of roles. -/
def uniformPolicy (scope : String) (roles : List MembershipRole) : ViewPolicy :=
  ⟨some scope, some roles, [], []⟩

/-- A collection that every role may read with another scope. -/
def collectionPolicy (writeScope readScope : String) : ViewPolicy :=
  ⟨some writeScope, some editorRoles, [(.get, readScope)], [(.get, everyRole)]⟩

def panelSummaryView : ViewPolicy := uniformPolicy "posts:read" everyRole
def postCollectionView : ViewPolicy := collectionPolicy "posts:write" "posts:read"
def postDetailView : ViewPolicy := uniformPolicy "posts:read" everyRole
def mediaUploadIntentView : ViewPolicy := uniformPolicy "media:write" editorRoles
def mediaUploadConfirmView : ViewPolicy := uniformPolicy "media:write" editorRoles
def postApprovalView : ViewPolicy := uniformPolicy "posts:approve" editorRoles
def postApprovalRequestView : ViewPolicy := uniformPolicy "approvals:write" editorRoles
def approvalRequestDetailView : ViewPolicy := uniformPolicy "approvals:write" editorRoles
def publicationCollectionView : ViewPolicy :=
  collectionPolicy "publications:write" "publications:read"
def publicationDetailView : ViewPolicy := uniformPolicy "publications:read" everyRole
def metaOAuthStartView : ViewPolicy := uniformPolicy "connections:write" [.owner, .manager]
def channelConnectionCollectionView : ViewPolicy := uniformPolicy "connections:read" everyRole

/-- A request to a tenant-scoped view, with its path, query, header and body. -/
inductive ApiRequest
  | panelSummary
  | listPosts (brandId : Option String)
  | createPost (idempotencyKey : Option String) (data : PostCreateData)
  | getPost (postId : Uuid)
  | createUploadIntent (data : MediaUploadIntentData)
  | confirmUpload (mediaAssetId : Uuid)
  | approvePost (postId : Uuid)
  | requestApproval (postId : Uuid) (expiresInDays : Option ℤ)
  | revokeApproval (approvalRequestId : Uuid)
  | listPublications (brandId : Option String)
  | createPublication (idempotencyKey : Option String) (data : PublicationCreateData)
  | getPublication (publicationId : Uuid)
  | startMetaOAuth (data : Json)
  | listConnections (brandId : Option String)

/-- The view and the method of a request. -/
def ApiRequest.route : ApiRequest → ViewPolicy × Method
  | panelSummary => (panelSummaryView, .get)
  | listPosts _ => (postCollectionView, .get)
  | createPost _ _ => (postCollectionView, .post)
  | getPost _ => (postDetailView, .get)
  | createUploadIntent _ => (mediaUploadIntentView, .post)
  | confirmUpload _ => (mediaUploadConfirmView, .post)
  | approvePost _ => (postApprovalView, .post)
  | requestApproval _ _ => (postApprovalRequestView, .post)
  | revokeApproval _ => (approvalRequestDetailView, .delete)
  | listPublications _ => (publicationCollectionView, .get)
  | createPublication _ _ => (publicationCollectionView, .post)
  | getPublication _ => (publicationDetailView, .get)
  | startMetaOAuth _ => (metaOAuthStartView, .post)
  | listConnections _ => (channelConnectionCollectionView, .get)

/-- How a handler goes on after its checks. -/
inductive Admission
  | answer (response : Response)
  | command (command : Command)

/-- `get_object_or_404`. -/
def orNotFound {α : Type} : Option α → Except ApiError α
  | some a => .ok a
  | none => .error .notFound

/-- `get_tenant`. -/
def getTenant (p : RelayPrincipal) (s : Store) : Except ApiError Tenant :=
  orNotFound (s.tenants.find? fun t => t.id = p.workspaceId && t.isActive)

/-- `get_brand`, for the text of the identifier. -/
def getBrand (p : RelayPrincipal) (brandId : String) (s : Store) : Except ApiError Brand := do
  let brandId ← orNotFound (Uuid.parse brandId)
  if brandId ∉ p.brandIds then .error .notFound
  else
    let tenant ← getTenant p s
    orNotFound (s.brands.find? fun b => b.id = brandId && b.workspace = tenant.id && b.isActive)

/-- The brand a listing is narrowed to, if its query names one. -/
def brandFilter (p : RelayPrincipal) (brandId : Option String) (s : Store) :
    Except ApiError (Option Uuid) :=
  match brandId with
  | none => .ok none
  | some text => if text = "" then .ok none else (getBrand p text s).map fun b => some b.id

/-- A brand passes the filter. -/
def passes (filter : Option Uuid) (brand : Uuid) : Bool := filter.all (· = brand)

/-- The check of the `Idempotency-Key` header. -/
def idempotencyHeader : Option String → Except ApiError String
  | none => .error (.validation "Idempotency-Key"
      "This header is required and has a maximum of 255 characters.")
  | some key =>
    if key = "" ∨ 255 < key.length then .error (.validation "Idempotency-Key"
      "This header is required and has a maximum of 255 characters.")
    else .ok key

/-- The post of a path, in the workspace and the brands of the principal. -/
def visiblePost (p : RelayPrincipal) (tenant : Tenant) (postId : Uuid) (s : Store) :
    Except ApiError Post :=
  orNotFound (s.posts.find? fun q =>
    q.id = postId && q.tenant = tenant.id && decide (q.brand ∈ p.brandIds))

/-- The publications of the workspace and the brands of the principal. -/
def visiblePublications (p : RelayPrincipal) (tenant : Tenant) (s : Store) : List Publication :=
  s.publications.where fun q => q.tenant = tenant.id && decide (q.brand ∈ p.brandIds)

/-- The connections of the workspace and the brands of the principal, with their accounts. -/
def visibleConnections (p : RelayPrincipal) (tenant : Tenant) (s : Store) :
    List (ChannelConnection × SocialAccount) :=
  s.connections.rows.filterMap fun c =>
    match s.accounts.get? c.socialAccount with
    | some a => if a.tenant = tenant.id ∧ a.brand ∈ p.brandIds then some (c, a) else none
    | none => none

/-- One of the recent publications of the summary. -/
def recentPublication (s : Store) (q : Publication) : Option RecentPublication := do
  let variant ← s.variants.get? q.postVariant
  let post ← s.posts.get? variant.post
  let connection ← s.connections.get? q.channelConnection
  some
    { id := q.id
      title := if post.title ≠ "" then post.title else String.ofList (variant.body.toList.take 80)
      state := q.state
      scheduledFor := q.scheduledFor
      channel := connection.channel
      account := connection.displayName }

/-- The publications created on each of the seven days up to `today`. -/
def activity (publications : List Publication) (today : ℤ) : List (String × ℕ) :=
  let startDate := today - 6
  let recent := publications.filter fun q => startDate ≤ q.createdAt.day
  (List.range 7).map fun offset =>
    let date := Time.isoDate (startDate + offset)
    (date, (recent.filter fun q => Time.isoDate q.createdAt.day = date).length)

/-- `PanelSummaryView.get`. -/
def panelSummary (p : RelayPrincipal) (tenant : Tenant) (now : Time) (s : Store) : SummaryData :=
  let publications := visiblePublications p tenant s
  let count := fun state => (publications.filter fun q => q.state = state).length
  { published := count .published
    scheduled := count .scheduled
    failed := count .failed
    connections := ((visibleConnections p tenant s).filter fun c => c.1.isActive).length
    activity := activity publications now.day
    recentPublications :=
      ((orderBy (fun a b : Publication => b.updatedAt ≤ a.updatedAt) publications).filterMap
        (recentPublication s)).take 8 }

/-- The variant of a post that the principal sees, with the post. -/
def visibleVariant (p : RelayPrincipal) (tenant : Tenant) (variantId : Uuid) (s : Store) :
    Except ApiError (PostVariant × Post) := do
  let variant ← orNotFound (s.variants.get? variantId)
  let post ← orNotFound (s.posts.get? variant.post)
  if post.tenant = tenant.id ∧ post.brand ∈ p.brandIds then .ok (variant, post)
  else .error .notFound

/-- A connection of a brand, with its account. -/
def brandConnection (tenant : Tenant) (brand connectionId : Uuid) (s : Store) :
    Except ApiError (ChannelConnection × SocialAccount) := do
  let connection ← orNotFound (s.connections.get? connectionId)
  let account ← orNotFound (s.accounts.get? connection.socialAccount)
  if account.tenant = tenant.id ∧ account.brand = brand then .ok (connection, account)
  else .error .notFound

/-- `request.data.get("brand_id")`, which must be truthy. -/
def brandIdField (env : Env) : Json → Except ApiError String
  | .obj fields =>
    match Json.get fields "brand_id" with
    | some value =>
      if value.truthy then .ok (value.str' env.printable)
      else .error (.validation "brand_id" "This field is required.")
    | none => .error (.validation "brand_id" "This field is required.")
  | _ => .error (.unhandled (.other "AttributeError"))

/-- The handlers of the tenant-scoped views, up to their service calls. -/
def handle (env : Env) (now : Time) (p : RelayPrincipal) (s : Store) :
    ApiRequest → Except ApiError Admission
  | .panelSummary => do
    let tenant ← getTenant p s
    .ok (.answer ⟨200, .summary (panelSummary p tenant now s)⟩)
  | .listPosts brandId => do
    let tenant ← getTenant p s
    let brand ← brandFilter p brandId s
    let posts := s.posts.where fun q =>
      q.tenant = tenant.id && decide (q.brand ∈ p.brandIds) && passes brand q.brand
    .ok (.answer ⟨200, .posts
      (((orderBy (fun a b : Post => b.updatedAt ≤ a.updatedAt) posts).take 100).map (postData s))⟩)
  | .createPost idempotencyKey data => do
    let idempotencyKey ← idempotencyHeader idempotencyKey
    let payload ← data.validate
    let brand ← getBrand p payload.brandId.text s
    let tenant ← getTenant p s
    .ok (.command (.createPostDraft tenant.id brand.id p.subject idempotencyKey payload))
  | .getPost postId => do
    let tenant ← getTenant p s
    let post ← visiblePost p tenant postId s
    .ok (.answer ⟨200, .post (postData s post)⟩)
  | .createUploadIntent data => do
    let upload ← data.validate
    let brand ← getBrand p data.brandId.text s
    let tenant ← getTenant p s
    .ok (.command (.createMediaUploadIntent tenant.id brand.id p.subject upload))
  | .confirmUpload mediaAssetId => do
    let tenant ← getTenant p s
    let asset ← orNotFound (s.assets.find? fun a =>
      a.id = mediaAssetId && a.tenant = tenant.id && decide (a.brand ∈ p.brandIds))
    .ok (.command (.confirmMediaUpload asset.id tenant.id p.subject))
  | .approvePost postId => do
    let tenant ← getTenant p s
    let post ← visiblePost p tenant postId s
    let brand ← getBrand p post.brand.text s
    .ok (.command (.approvePost post.id tenant.id brand.id p.subject))
  | .requestApproval postId expiresInDays => do
    let tenant ← getTenant p s
    let post ← visiblePost p tenant postId s
    let expiresInDays ← validateExpiresInDays expiresInDays
    let brand ← getBrand p post.brand.text s
    .ok (.command (.requestApproval tenant.id brand.id post.id p.subject expiresInDays))
  | .revokeApproval approvalRequestId => do
    let tenant ← getTenant p s
    let request ← orNotFound (s.approvals.find? fun a => a.id = approvalRequestId &&
      ((s.brands.get? a.brand).any fun b => b.workspace = tenant.id) && decide (a.brand ∈ p.brandIds))
    .ok (.command (.revokeApproval request.id tenant.id p.subject))
  | .listPublications brandId => do
    let tenant ← getTenant p s
    let brand ← brandFilter p brandId s
    let publications := (visiblePublications p tenant s).filter fun q => passes brand q.brand
    .ok (.answer ⟨200, .publications
      (((orderBy (fun a b : Publication => b.scheduledFor ≤ a.scheduledFor) publications).take
        100).map publicationData)⟩)
  | .createPublication idempotencyKey data => do
    let idempotencyKey ← idempotencyHeader idempotencyKey
    let data ← data.validate now
    let tenant ← getTenant p s
    let (postVariant, post) ← visibleVariant p tenant data.postVariantId s
    let (channelConnection, socialAccount) ←
      brandConnection tenant post.brand data.channelConnectionId s
    let brand ← getBrand p post.brand.text s
    .ok (.command (.schedulePublication
      { tenant := tenant.id
        brand := brand.id
        subject := p.subject
        postVariant, post, channelConnection, socialAccount
        scheduledFor := data.scheduledFor
        idempotencyKey }))
  | .getPublication publicationId => do
    let tenant ← getTenant p s
    let publication ← orNotFound (s.publications.find? fun q =>
      q.id = publicationId && q.tenant = tenant.id && decide (q.brand ∈ p.brandIds))
    .ok (.answer ⟨200, .publication (publicationData publication)⟩)
  | .startMetaOAuth data => do
    let brandId ← brandIdField env data
    let tenant ← getTenant p s
    let brand ← getBrand p brandId s
    .ok (.command (.startMetaOAuth tenant.id brand.id p.subject))
  | .listConnections brandId => do
    let tenant ← getTenant p s
    let brand ← brandFilter p brandId s
    let connections := (visibleConnections p tenant s).filter fun c => passes brand c.2.brand
    .ok (.answer ⟨200, .connections
      ((orderBy (fun a b : ChannelConnection × SocialAccount => a.1.displayName ≤ b.1.displayName)
        connections).map fun c => channelConnectionData c.1 c.2)⟩)

/-- A request of an authenticated principal, up to the service call of its handler. -/
def admitHandler (env : Env) (now : Time) (p : RelayPrincipal) (r : ApiRequest) (s : Store) :
    Except ApiError Admission :=
  if hasRelayScope r.route.1 r.route.2 p s then handle env now p s r else .error .permissionDenied

/-- The same with the authentication that precedes it. -/
def admitRequest (env : Env) (now : Time) (credential : Credential) (r : ApiRequest) (s : Store) :
    Except ApiError (RelayPrincipal × Admission) :=
  match authenticate env s credential with
  | .error (.authenticationFailed detail) => .error (.authenticationFailed detail)
  | .error (.unhandled className) => .error (.unhandled (.other className))
  | .ok p => (admitHandler env now p r s).map fun a => (p, a)

/-! ### Public views -/

/-- A request that needs no principal. -/
inductive PublicRequest
  | approvalLink (token : String)
  | approvalDecision (token : String) (data : ApprovalDecisionData)
  | metaOAuthCallback (code state : Option String)
  deriving DecidableEq

/-- A public request, up to its service call. -/
def admitPublic (env : Env) (now : Time) (r : PublicRequest) (s : Store) :
    Except ApiError Admission :=
  match r with
  | .approvalLink token =>
    match getActiveApprovalRequest env now token s with
    | .error _ => .error .notFound
    | .ok request => do
      let post ← orNotFound (s.posts.get? request.post)
      .ok (.answer ⟨200, .approvalPage (approvalRequestData s request) (postData s post)⟩)
  | .approvalDecision token data => do
    let d ← data.validate
    .ok (.command (.decideApproval token d.decision d.comment d.authorLabel))
  | .metaOAuthCallback code state =>
    if code.getD "" = "" ∨ state.getD "" = "" then
      .error (.validation "detail" "Both code and state are required.")
    else .ok (.command (.consumeOAuthState (state.getD "")))

/-! ### Service calls -/

/-- How a view answers to an exception of its service. -/
def refusal : Command → ServiceError → ApiError
  | .createMediaUploadIntent .., .invalidMediaAsset =>
    .validation "" "The image must be a JPEG or PNG no larger than 10 MB."
  | .createMediaUploadIntent .., .mediaUploadUnavailable => .mediaUpload
  | .confirmMediaUpload .., .invalidMediaAsset =>
    .validation "" "The uploaded object does not match the requested image."
  | .confirmMediaUpload .., .mediaUploadUnavailable => .mediaUpload
  | .createPostDraft .., .idempotencyConflict => .idempotencyConflict
  | .createPostDraft .., .invalidMediaAsset =>
    .validation "media_asset_ids" "Use between one and ten ready images from the selected brand."
  | .approvePost .., .invalidStateTransition => .invalidState
  | .requestApproval .., .invalidApprovalState => .invalidApproval
  | .decideApproval .., .invalidApprovalLink => .notFound
  | .decideApproval .., .approvalAlreadyDecided => .invalidApproval
  | .decideApproval .., .invalidApprovalState => .invalidApproval
  | .revokeApproval .., .approvalAlreadyRevoked => .invalidApproval
  | .schedulePublication .., .idempotencyConflict => .idempotencyConflict
  | .schedulePublication .., .invalidSchedule => .invalidState
  | .schedulePublication .., .invalidStateTransition => .invalidState
  | .startMetaOAuth .., .metaConfigurationError => .metaConfiguration
  | .startMetaOAuth .., .tokenEncryptionError => .metaConfiguration
  | .consumeOAuthState .., .invalidOAuthState =>
    .validation "state" "Invalid, expired or already used OAuth state."
  | .persistMetaConnections .., .tokenEncryptionError => .metaConfiguration
  | _, e => .unhandled e

/-- A response without error. -/
def success (r : Response) : Option (Except ApiError Response) := some (.ok r)

/-- The response to a result, at the store after the transaction; none yet after the first
transaction of the OAuth callback.  Its last one is followed by an error, since the name
`redirect` that the view returns is not imported. -/
def respond (s : Store) : Reply → Option (Except ApiError Response)
  | .uploadIntent i => success
      ⟨201, .uploadIntent (mediaAssetData i.asset) i.uploadUrl
        (("Content-Type", i.asset.contentType) ::
          if i.asset.checksum ≠ "" then [("x-amz-meta-sha256", i.asset.checksum)] else [])⟩
  | .confirmed a => success ⟨200, .mediaAsset (mediaAssetData a)⟩
  | .post r => success ⟨if r.created then 201 else 200, .post (postData s r.post)⟩
  | .approved p => success ⟨200, .post (postData s p)⟩
  | .approvalLink l => success ⟨201, .approvalLink (approvalRequestData s l.request) l.url⟩
  | .decided r => success ⟨200, .approvalRequest (approvalRequestData s r)⟩
  | .revoked _ => success ⟨204, .noContent⟩
  | .publication r => success
      ⟨if r.created then 201 else 200, .publication (publicationData r.publication)⟩
  | .authorization url => success ⟨201, .authorization url⟩
  | .oauthState _ => none
  | .socialAccount _ => some (.error (.unhandled (.other "NameError")))

end Relay
