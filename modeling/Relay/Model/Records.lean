import Relay.Library.Table
import Relay.Model.Config

/-!
# The rows of the database

One structure for each model class, one table for each structure, and the `Store` of all tables.
Foreign keys are the identifiers of the rows they point to; the many-to-many relation between
variants and assets is the list of asset identifiers of a variant.  The audit log is a list in
the order of its commits.
-/

namespace Relay

open Relational

/-- Columns of every model. -/
structure TimeStampedUUIDModel where
  id : Uuid
  createdAt : Time
  updatedAt : Time
  deriving DecidableEq

/-- A model row saved at `now` under a new identifier. -/
def TimeStampedUUIDModel.new (id : Uuid) (now : Time) : TimeStampedUUIDModel := ⟨id, now, now⟩

inductive LifecycleState
  | draft
  | pendingApproval
  | approved
  | scheduled
  | publishing
  | published
  | failed
  | cancelled
  deriving DecidableEq

/-! ### Tenancy -/

structure Tenant where
  id : Uuid
  name : String
  isActive : Bool
  deriving DecidableEq

structure Brand where
  id : Uuid
  workspace : Uuid
  name : String
  timezone : String
  isActive : Bool
  deriving DecidableEq

inductive MembershipRole
  | owner
  | manager
  | contentCreator
  | clientApprover
  | viewer
  deriving DecidableEq

structure Membership where
  id : Uuid
  workspace : Uuid
  subject : String
  role : MembershipRole
  isActive : Bool
  deriving DecidableEq

/-! ### Content -/

structure Post extends TimeStampedUUIDModel where
  tenant : Uuid
  brand : Uuid
  title : String
  body : String
  state : LifecycleState
  createdBySubject : String
  idempotencyKey : String
  requestFingerprint : String
  deriving DecidableEq

inductive UploadState
  | pending
  | ready
  | failed
  deriving DecidableEq

structure MediaAsset extends TimeStampedUUIDModel where
  tenant : Uuid
  brand : Uuid
  storageKey : String
  contentType : String
  sizeBytes : ℕ
  checksum : String
  uploadState : UploadState
  deriving DecidableEq

structure PostVariant extends TimeStampedUUIDModel where
  post : Uuid
  body : String
  /-- the rows of the many-to-many table, in no particular order -/
  mediaAssets : List Uuid
  /-- a JSON list of asset identifiers -/
  mediaAssetOrder : List String
  deriving DecidableEq

/-! ### Social channels -/

inductive Provider
  | metaProvider
  deriving DecidableEq

inductive Channel
  | metaFacebookPage
  | metaInstagramBusinessAccount
  /-- a text outside the declared choices, which the column does not enforce -/
  | other (text : String)
  deriving DecidableEq

structure SocialAccount extends TimeStampedUUIDModel where
  tenant : Uuid
  brand : Uuid
  provider : Provider
  providerAccountId : String
  displayName : String
  deriving DecidableEq

structure ChannelConnection extends TimeStampedUUIDModel where
  socialAccount : Uuid
  channel : Channel
  providerChannelId : String
  displayName : String
  encryptedAccessToken : String
  tokenExpiresAt : Option Time
  grantedScopes : List String
  isActive : Bool
  deriving DecidableEq

structure OAuthState extends TimeStampedUUIDModel where
  tenant : Uuid
  brand : Uuid
  stateDigest : String
  subject : String
  expiresAt : Time
  usedAt : Option Time
  deriving DecidableEq

/-! ### Publications -/

structure Publication extends TimeStampedUUIDModel where
  tenant : Uuid
  brand : Uuid
  postVariant : Uuid
  channelConnection : Uuid
  scheduledFor : Time
  state : LifecycleState
  idempotencyKey : String
  requestFingerprint : String
  providerPublicationId : String
  lastErrorCode : String
  lastErrorMessage : String
  deriving DecidableEq

/-- `PublicationAttempt.outcome`; the blank text of an attempt under way is `blank`. -/
inductive Outcome
  | blank
  | retry
  | published
  | failed
  deriving DecidableEq

structure PublicationAttempt extends TimeStampedUUIDModel where
  publication : Uuid
  attemptNumber : ℕ
  startedAt : Time
  completedAt : Option Time
  outcome : Outcome
  errorCode : String
  errorMessage : String
  deriving DecidableEq

/-! ### Approvals -/

inductive ApprovalDecision
  | pending
  | approved
  | changesRequested
  deriving DecidableEq

structure ApprovalRequest extends TimeStampedUUIDModel where
  brand : Uuid
  post : Uuid
  requestedBySubject : String
  tokenDigest : String
  expiresAt : Time
  revokedAt : Option Time
  decidedAt : Option Time
  decision : ApprovalDecision
  deriving DecidableEq

structure ApprovalComment extends TimeStampedUUIDModel where
  approvalRequest : Uuid
  authorLabel : String
  body : String
  deriving DecidableEq

/-! ### Audit -/

structure AuditLog where
  tenant : Uuid
  brand : Option Uuid
  actorType : String
  actorId : String
  eventType : String
  subjectType : String
  subjectId : Uuid
  metadata : List (String × Json)

/-! ### The store -/

instance : Keyed Tenant Uuid := ⟨(·.id)⟩
instance : Keyed Brand Uuid := ⟨(·.id)⟩
instance : Keyed Membership Uuid := ⟨(·.id)⟩
instance : Keyed Post Uuid := ⟨(·.id)⟩
instance : Keyed MediaAsset Uuid := ⟨(·.id)⟩
instance : Keyed PostVariant Uuid := ⟨(·.id)⟩
instance : Keyed SocialAccount Uuid := ⟨(·.id)⟩
instance : Keyed ChannelConnection Uuid := ⟨(·.id)⟩
instance : Keyed OAuthState Uuid := ⟨(·.id)⟩
instance : Keyed Publication Uuid := ⟨(·.id)⟩
instance : Keyed PublicationAttempt Uuid := ⟨(·.id)⟩
instance : Keyed ApprovalRequest Uuid := ⟨(·.id)⟩
instance : Keyed ApprovalComment Uuid := ⟨(·.id)⟩

/-- All tables. -/
structure Store where
  tenants : Table Tenant
  brands : Table Brand
  memberships : Table Membership
  posts : Table Post
  variants : Table PostVariant
  assets : Table MediaAsset
  accounts : Table SocialAccount
  connections : Table ChannelConnection
  oauthStates : Table OAuthState
  publications : Table Publication
  attempts : Table PublicationAttempt
  approvals : Table ApprovalRequest
  comments : Table ApprovalComment
  audit : List AuditLog

/-- A store without content: workspaces, brands and memberships only. -/
def Store.provisioned (tenants : Table Tenant) (brands : Table Brand)
    (memberships : Table Membership) : Store where
  tenants := tenants
  brands := brands
  memberships := memberships
  posts := ∅
  variants := ∅
  assets := ∅
  accounts := ∅
  connections := ∅
  oauthStates := ∅
  publications := ∅
  attempts := ∅
  approvals := ∅
  comments := ∅
  audit := []

/-- `AuditLog.objects.create(...)`. -/
def Store.log (s : Store) (entry : AuditLog) : Store := { s with audit := s.audit ++ [entry] }

/-- An audit event of a service that acts for a subject. -/
def serviceEvent (tenant brand : Uuid) (subject eventType subjectType : String) (subjectId : Uuid)
    (metadata : List (String × Json)) : AuditLog where
  tenant := tenant
  brand := brand
  actorType := "service"
  actorId := subject
  eventType := eventType
  subjectType := subjectType
  subjectId := subjectId
  metadata := metadata

/-- Why a service call ends without a result. -/
inductive ServiceError
  | idempotencyConflict
  | invalidStateTransition
  | invalidSchedule
  | invalidMediaAsset
  | mediaUploadUnavailable
  | invalidApprovalLink
  | approvalAlreadyDecided
  | approvalAlreadyRevoked
  | invalidApprovalState
  | invalidOAuthState
  | metaConfigurationError
  | tokenEncryptionError
  | valueError (message : String)
  /-- `Model.DoesNotExist` -/
  | doesNotExist
  /-- `django.db.IntegrityError` -/
  | integrityError
  /-- `django.db.DataError` -/
  | dataError
  /-- a query after a database error inside `transaction.atomic` -/
  | transactionManagementError
  /-- any other exception of a package, by class name -/
  | other (className : String)
  deriving DecidableEq

/-- `Model.objects.create(row)` into a table, where a taken primary key is an `IntegrityError`. -/
def create {ρ : Type} [Keyed ρ Uuid] (t : Table ρ) (r : ρ) : Except ServiceError (Table ρ) :=
  match t.insert? r with
  | some t' => .ok t'
  | none => .error .integrityError

theorem bind_eq_ok {ε α β : Type} {x : Except ε α} {f : α → Except ε β} {b : β} :
    (x >>= f) = .ok b ↔ ∃ a, x = .ok a ∧ f a = .ok b := by
  cases x with
  | error e => simp [bind, Except.bind]
  | ok a => simp [bind, Except.bind]

theorem bind_eq_error {ε α β : Type} {x : Except ε α} {f : α → Except ε β} {e : ε} :
    (x >>= f) = .error e ↔ x = .error e ∨ ∃ a, x = .ok a ∧ f a = .error e := by
  cases x with
  | error e => simp [bind, Except.bind]
  | ok a => simp [bind, Except.bind]

theorem map_eq_ok {ε α β : Type} {x : Except ε α} {f : α → β} {b : β} :
    x.map f = .ok b ↔ ∃ a, x = .ok a ∧ f a = b := by
  cases x with
  | error e => simp [Except.map]
  | ok a => simp [Except.map]

theorem create_eq_ok {ρ : Type} [Keyed ρ Uuid] {t t' : Table ρ} {r : ρ} :
    create t r = .ok t' ↔ t.insert? r = some t' := by
  unfold create
  split <;> simp_all

end Relay
