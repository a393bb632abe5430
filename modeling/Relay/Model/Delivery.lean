import Relay.Model.Content
import Relay.Model.Publishing

/-!
# Delivery: `publications/services.py`, `publications/tasks.py`

`publish_due_publication` is a transaction that claims a due publication, an exchange with the
publisher without any lock, and a second transaction that records the outcome.  The three parts
are separate functions, which `publishDuePublication` runs one after the other; between them the
worker holds the rows it has loaded, a `Claim`.
-/

namespace Relay

open Relational Sequence

/-! ### The claim -/

/-- The rows that a worker holds after its first transaction. -/
structure Claim where
  publication : Publication
  postVariant : PostVariant
  channelConnection : ChannelConnection
  attempt : PublicationAttempt
  deriving DecidableEq

/-- The attempts of a publication. -/
def attemptsOf (s : Store) (publication : Uuid) : List PublicationAttempt :=
  s.attempts.where fun a => a.publication = publication

/-- `PublicationAttempt.objects.create`, with the unique constraint on publication and number. -/
def createAttemptRow (s : Store) (attempt : PublicationAttempt) :
    Except ServiceError (Table PublicationAttempt) :=
  if (s.attempts.find? fun a => a.publication = attempt.publication &&
      a.attemptNumber = attempt.attemptNumber).isSome then .error .integrityError
  else create s.attempts attempt

/-- Rewrites one publication. -/
def Store.updatePublication (s : Store) (id : Uuid) (f : Rewrite Publication) : Store :=
  { s with publications := s.publications.update id f }

/-- Rewrites one attempt. -/
def Store.updateAttempt (s : Store) (id : Uuid) (f : Rewrite PublicationAttempt) : Store :=
  { s with attempts := s.attempts.update id f }

/-- The publication while a worker delivers it. -/
def Publication.claimed (p : Publication) (now : Time) : Publication :=
  { p with state := .publishing, updatedAt := now }

/-- The publication is scheduled and due. -/
def Publication.due (p : Publication) (now : Time) : Bool :=
  p.state = .scheduled && p.scheduledFor ≤ now

theorem Publication.due_iff {p : Publication} {now : Time} :
    p.due now = true ↔ p.state = .scheduled ∧ p.scheduledFor ≤ now := by
  simp [due]

/-- The row of an attempt under way. -/
def newAttempt (started now : Time) (id publication : Uuid) (attemptNumber : ℕ) :
    PublicationAttempt :=
  { TimeStampedUUIDModel.new id now with
    publication, attemptNumber
    startedAt := started
    completedAt := none
    outcome := .blank
    errorCode := ""
    errorMessage := "" }

/-- The first transaction of `publish_due_publication`, at `now`, for the moment `started` that
the task has read before; `none` is the answer `not_due_or_claimed`. -/
def claimPublication (started now : Time) (attemptId publicationId : Uuid) (s : Store) :
    Except ServiceError (Option Claim × Store) :=
  match s.publications.find? fun p => p.id = publicationId && p.due started with
  | none => .ok (none, s)
  | some publication =>
    match s.variants.get? publication.postVariant, s.connections.get? publication.channelConnection with
    | some postVariant, some channelConnection => do
      let attempt := newAttempt started now attemptId publication.id
        ((attemptsOf s publication.id).length + 1)
      let attempts ← createAttemptRow s attempt
      .ok (some ⟨publication.claimed now, postVariant, channelConnection, attempt⟩,
        { s with attempts }.updatePublication publication.id ⟨(·.claimed now), fun _ => rfl⟩)
    | _, _ => .ok (none, s)

/-! ### The exchange -/

/-- `[publishable_image_url(asset) for asset in media]`, with the exception as the delivery code
sees it. -/
def imageUrls (c : Settings) (signer : Signer) : List MediaAsset → Except DeliveryError (List String)
  | [] => .ok []
  | asset :: media =>
    match publishableImageUrl c signer asset with
    | .error (.mediaDeliveryUnavailable message) => .error (.mediaDeliveryUnavailable message)
    | .error (.other className) => .error (.uncaught className)
    | .ok url => do
      let urls ← imageUrls c signer media
      .ok (url :: urls)

/-- The arguments with which the publisher is called, for the images in the order in which
`ordered_media_assets` lists them. -/
def publishArguments (env : Env) (publisher : Option Publisher) (signer : Signer) (claim : Claim)
    (media : List MediaAsset) : Except DeliveryError PublishCall :=
  if ¬ (1 ≤ media.length ∧ media.length ≤ 10) then
    .error (.metaPublishPermanentError "A publication must contain between one and ten image assets.")
  else if publisher.isNone ∧ ¬ env.metaConfigured then
    .error (.metaConfigurationError "Meta OAuth is not configured.")
  else match decryptToken env claim.channelConnection.encryptedAccessToken with
  | .error message => .error (.tokenEncryptionError message)
  | .ok accessToken => do
    let urls ← imageUrls env.toSettings signer media
    .ok
      { connection := claim.channelConnection
        accessToken
        body := claim.postVariant.body
        imageUrls := urls }

/-- The call of the publisher, `MetaPublishingClient` unless another one is given. -/
def publisherCall (env : Env) (publisher : Option Publisher) (call : PublishCall) : MetaCall String :=
  publisher.getD (publishImages env) call

/-! ### The outcome -/

/-- PostgreSQL stores the text in a `text` column. -/
def fitsText (s : String) : Bool := !s.toList.contains '\x00'

/-- `_retry_delay`. -/
def retryDelay (attemptNumber : ℕ) : Time := minutes (min (2 ^ attemptNumber) 30)

/-- An audit event of the worker. -/
def workerEvent (publication : Publication) (eventType : String) (metadata : List (String × Json)) :
    AuditLog where
  tenant := publication.tenant
  brand := publication.brand
  actorType := "worker"
  actorId := "celery"
  eventType := eventType
  subjectType := "publication"
  subjectId := publication.id
  metadata := metadata

/-- An attempt that has succeeded. -/
def PublicationAttempt.succeeded (a : PublicationAttempt) (now : Time) : PublicationAttempt :=
  { a with outcome := .published, completedAt := some now, updatedAt := now }

/-- A publication that has been delivered. -/
def Publication.succeeded (p : Publication) (now : Time) (providerPublicationId : String) :
    Publication :=
  { p with
    state := .published, providerPublicationId, lastErrorCode := "", lastErrorMessage := ""
    updatedAt := now }

/-- An attempt that has failed. -/
def PublicationAttempt.failed (a : PublicationAttempt) (now : Time) (error : DeliveryError)
    (shouldRetry : Bool) : PublicationAttempt :=
  { a with
    outcome := if shouldRetry then .retry else .failed
    errorCode := error.className, errorMessage := error.message
    completedAt := some now, updatedAt := now }

/-- A publication whose attempt of a given number has failed. -/
def Publication.failed (p : Publication) (now : Time) (error : DeliveryError) (attemptNumber : ℕ)
    (shouldRetry : Bool) : Publication :=
  { p with
    state := if shouldRetry then .scheduled else .failed
    scheduledFor := if shouldRetry then now + retryDelay attemptNumber else p.scheduledFor
    lastErrorCode := error.className, lastErrorMessage := error.message
    updatedAt := now }

/-- The second transaction after a success. -/
def finishPublished (now : Time) (claim : Claim) (providerPublicationId : String) (s : Store) :
    Except ServiceError (String × Store) :=
  match s.publications.get? claim.publication.id, s.attempts.get? claim.attempt.id with
  | some publication, some attempt =>
    if ¬ fitsVarchar 255 providerPublicationId then .error .dataError
    else
      let s := s.updateAttempt attempt.id ⟨(·.succeeded now), fun _ => rfl⟩
      let s := s.updatePublication publication.id
        ⟨(·.succeeded now providerPublicationId), fun _ => rfl⟩
      .ok ("published", s.log (workerEvent publication "publication.published"
        [("attempt", .int attempt.attemptNumber)]))
  | _, _ => .error .doesNotExist

/-- `_finish_failure`, whose readings of the clock are one moment. -/
def finishFailure (env : Env) (now : Time) (claim : Claim) (error : DeliveryError)
    (transient : Bool) (s : Store) : Except ServiceError (String × Store) :=
  match s.publications.get? claim.publication.id, s.attempts.get? claim.attempt.id with
  | some publication, some attempt =>
    let shouldRetry := transient && (attempt.attemptNumber : ℤ) < env.relayPublicationMaxAttempts
    if ¬ fitsText error.message then .error .dataError
    else
      let s := s.updateAttempt attempt.id ⟨(·.failed now error shouldRetry), fun _ => rfl⟩
      let s := s.updatePublication publication.id
        ⟨(·.failed now error attempt.attemptNumber shouldRetry), fun _ => rfl⟩
      .ok (if shouldRetry then "retry_scheduled" else "failed", s.log (workerEvent publication
        (if shouldRetry then "publication.retry_scheduled" else "publication.failed")
        [("attempt", .int attempt.attemptNumber), ("error_code", .str error.className)]))
  | _, _ => .error .doesNotExist

/-- What follows the exchange: which outcome is recorded, or which exception escapes. -/
def finish (env : Env) (now : Time) (claim : Claim) (result : Except DeliveryError String)
    (s : Store) : Except ServiceError (String × Store) :=
  match result with
  | .ok providerPublicationId => finishPublished now claim providerPublicationId s
  | .error (.uncaught className) => .error (.other className)
  | .error (.metaPublishTransientError message) =>
    finishFailure env now claim (.metaPublishTransientError message) true s
  | .error error => finishFailure env now claim error false s

/-! ### The whole call -/

/-- The moments, identifier and answers that a call meets. -/
structure DeliveryWorld where
  started : Time
  claimedAt : Time
  finishedAt : Time
  attemptId : Uuid
  signer : Signer
  answers : ℕ → Answer

/-- The exchange of a worker with its publisher: nothing is sent when the arguments cannot be
computed. -/
def deliver (env : Env) (publisher : Option Publisher) (signer : Signer) (claim : Claim)
    (s : Store) : Exchange MetaRequest Answer (Except DeliveryError String) :=
  match publishArguments env publisher signer claim (orderedMediaAssets s claim.postVariant) with
  | .error error => .done (.error error)
  | .ok call => (publisherCall env publisher call).run

/-- `publish_due_publication`, run to its end without interference: the answer or the exception
that escapes, and the store it leaves. -/
def publishDuePublication (env : Env) (publisher : Option Publisher) (w : DeliveryWorld)
    (publicationId : Uuid) (s : Store) : Except ServiceError String × Store :=
  match claimPublication w.started w.claimedAt w.attemptId publicationId s with
  | .error e => (.error e, s)
  | .ok (none, s) => (.ok "not_due_or_claimed", s)
  | .ok (some claim, s) =>
    let result := ((deliver env publisher w.signer claim s).exec w.answers).2
    match finish env w.finishedAt claim result s with
    | .error e => (.error e, s)
    | .ok (answer, s) => (.ok answer, s)

/-! ### The dispatcher -/

/-- The publications that `dispatch_due_publications` sends to workers. -/
def dispatchDuePublications (now : Time) (s : Store) : List Uuid :=
  ((orderBy (fun a b : Publication => a.scheduledFor ≤ b.scheduledFor)
    (s.publications.where (·.due now))).take 100).map (·.id)

end Relay
