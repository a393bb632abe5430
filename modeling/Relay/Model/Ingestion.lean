import Relay.Model.Authentication
import Relay.Model.Revocation

/-!
# Credentials for content tasks: `api/management/commands/issue_draft_ingest_token.py`

The command makes its subject a content creator of the workspace, if it has no membership there
yet, and prints a token for one brand with the scopes of its purpose.
-/

namespace Relay

open Relational

/-- `--purpose`. -/
inductive Purpose
  | draft
  | schedule
  deriving DecidableEq

/-- The options of the command. -/
structure IngestOptions where
  workspaceSlug : String
  brandSlug : String
  subject : String
  days : ℤ
  purpose : Purpose

/-- `RELAY_SERVICE_JWT_ISSUER` and `RELAY_SERVICE_JWT_AUDIENCE`. -/
structure JwtSettings where
  issuer : String
  audience : String

/-- How `handle` ends without a token. -/
inductive IngestFailure
  | command (failure : CommandFailure)
  | database (error : ServiceError)
  deriving DecidableEq

/-- The scopes of a credential. -/
def Purpose.scopes : Purpose → List String
  | draft => ["media:write", "posts:write"]
  | schedule => ["media:write", "posts:write", "posts:approve", "publications:write"]

/-- What `jwt.encode` makes of a datetime: whole seconds. -/
def Time.numericDate (t : Time) : ℤ := t / seconds 1

/-- The claims of the token. -/
def ingestClaims (jwt : JwtSettings) (issuedAt : Time) (jti : Uuid) (brand : Brand)
    (o : IngestOptions) : List (String × Json) :=
  [("sub", .str o.subject), ("workspace_id", .str brand.workspace.text),
    ("brand_ids", .arr [.str brand.id.text]), ("scopes", .arr (o.purpose.scopes.map .str)),
    ("iss", .str jwt.issuer), ("aud", .str jwt.audience), ("iat", .int issuedAt.numericDate),
    ("exp", .int (Time.numericDate (issuedAt + days o.days))), ("jti", .str jti.text)]

/-- PyJWT under the settings: `jwt.encode` of claims, and `jwt.decode` of a token at a moment, where
`none` stands for a `PyJWTError`. -/
structure JwtModule where
  encode : List (String × Json) → String
  decode : Time → String → Option (List (String × Json))

/-- What it documents of the dates of a token that meets all other checks: from the second it is issued
at the token decodes to its claims, until the second it expires at. -/
def JwtModule.Dates (jwt : JwtModule) (claims : List (String × Json)) : Prop :=
  ∀ (iat exp : ℤ) (now : Time), Json.get claims "iat" = some (.int iat) →
    Json.get claims "exp" = some (.int exp) → iat * seconds 1 ≤ now →
    jwt.decode now (jwt.encode claims) = if exp * seconds 1 ≤ now then none else some claims

/-- The credential of a request that carries a token. -/
def JwtModule.credential (jwt : JwtModule) (now : Time) (token : String) : Credential :=
  .service (jwt.decode now token)

/-- The membership that the command finds or creates, and activates. -/
def ingestMembership (id : Uuid) (brand : Brand) (subject : String) (s : Store) :
    Except IngestFailure Store :=
  match s.memberships.find? fun m => m.workspace = brand.workspace && m.subject = subject with
  | none =>
    if ¬ fitsVarchar 255 subject then .error (.database .dataError)
    else match s.memberships.insert? ⟨id, brand.workspace, subject, .contentCreator, true⟩ with
      | some memberships => .ok { s with memberships }
      | none => .error (.database .integrityError)
  | some membership =>
    if membership.role ≠ .contentCreator then
      .error (.command (.commandError ("The supplied subject already belongs to this workspace " ++
        "with a different role. Use a dedicated task: subject.")))
    else if membership.isActive then .ok s
    else
      .ok
        { s with
          memberships :=
            s.memberships.update membership.id ⟨fun m => { m with isActive := true }, fun _ => rfl⟩ }

/-- `handle`, for the identifiers drawn: the claims of the token that it prints. -/
def issueDraftIngestToken (slugs : Slugs) (jwt : JwtSettings) (now : Time) (id jti : Uuid)
    (o : IngestOptions) (s : Store) : Except IngestFailure (List (String × Json) × Store) :=
  if ¬ (1 ≤ o.days ∧ o.days ≤ 30) then
    .error (.command (.commandError "--days must be between 1 and 30."))
  else match slugBrand slugs o.workspaceSlug o.brandSlug s with
    | .error e => .error (.command e)
    | .ok brand =>
      (ingestMembership id brand o.subject s).map fun s => (ingestClaims jwt now jti brand o, s)

end Relay
