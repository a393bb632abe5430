import Relay.Library.Sequence
import Relay.Model.Records

/-!
# Principals and permissions: `api/authentication.py`, `api/permissions.py`

A request acts for a `RelayPrincipal`, taken from the claims of a verified service token, which the
`Authorization` header carries, or from the session of a panel user.  `hasRelayScope` is the check
that precedes every handler.
-/

namespace Relay

open Relational Sequence

/-! ### Principals -/

structure RelayPrincipal where
  subject : String
  workspaceId : Uuid
  brandIds : List Uuid
  scopes : List String
  deriving DecidableEq

/-- Why no principal is found. -/
inductive AuthenticationError
  | authenticationFailed (detail : String)
  /-- an exception that is not an `APIException`, by class name -/
  | unhandled (className : String)
  deriving DecidableEq

/-- `iter(value)` of a JSON value; `none` is `TypeError`. -/
def iterate : Json → Option (List Json)
  | .arr items => some items
  | .obj fields => some (fields.map fun f => .str f.1)
  | .str s => some (s.toList.map fun c => .str c.toString)
  | _ => none

/-- `hash(value)` of a JSON value does not raise. -/
def hashable : Json → Bool
  | .arr _ => false
  | .obj _ => false
  | _ => true

/-- `UUID(str(value))`. -/
def uuidOf (env : Env) (value : Json) : Option Uuid := Uuid.parse (value.str' env.printable)

/-- The text among the scopes; a scope that is not a text equals no required one. -/
def textOf : Json → Option String
  | .str s => some s
  | _ => none

/-- The principal in the claims of a verified token. -/
def servicePrincipal (env : Env) (payload : List (String × Json)) : Option RelayPrincipal := do
  let sub ← Json.get payload "sub"
  let workspaceId ← (← Json.get payload "workspace_id" |>.map (uuidOf env))
  let brandIds ← (← (Json.get payload "brand_ids").bind iterate).mapM (uuidOf env)
  let scopes ← iterate ((Json.get payload "scopes").getD (.arr []))
  if scopes.all hashable then
    some ⟨sub.str' env.printable, workspaceId, brandIds, scopes.filterMap textOf⟩
  else none

/-- `RelayServiceJWTAuthentication`, after the header: `decoded` is the result of `jwt.decode`,
where `none` stands for a `PyJWTError`. -/
def authenticateService (env : Env) (decoded : Option (List (String × Json))) :
    Except AuthenticationError RelayPrincipal :=
  match decoded.bind (servicePrincipal env) with
  | some principal => .ok principal
  | none => .error (.authenticationFailed "Invalid or expired service credential.")

/-- What `jwt.decode` returns, unless it raises: the claims, with the required ones among them. -/
structure VerifiedClaims where
  payload : List (String × Json)
  required : ∀ claim ∈ ["exp", "sub", "workspace_id", "brand_ids"], (Json.get payload claim).isSome

/-- A byte at which `bytes.split()` splits. -/
def isSpaceByte (b : UInt8) : Bool := b = 32 || (9 ≤ b && b ≤ 13)

/-- `RelayServiceJWTAuthentication.keyword`. -/
def RelayServiceJWTAuthentication.keyword : String := "Bearer"

/-- `RelayServiceJWTAuthentication.authenticate`, of the bytes of the header.  The first token is
decoded before the `try`. -/
def RelayServiceJWTAuthentication.authenticate (env : Env)
    (jwtDecode : List UInt8 → Option VerifiedClaims) (header : List UInt8) :
    Except AuthenticationError (Option (RelayPrincipal × List (String × Json))) :=
  match Text.words isSpaceByte header with
  | [] => .ok none
  | [scheme, token] =>
    match Text.decode scheme with
    | none => .error (.unhandled "UnicodeDecodeError")
    | some text =>
      if Text.lower text ≠ Text.lower keyword then
        .error (.authenticationFailed "Invalid authorization header.")
      else
        let payload := (jwtDecode token).map VerifiedClaims.payload
        (authenticateService env payload).map fun principal =>
          payload.map fun claims => (principal, claims)
  | _ => .error (.authenticationFailed "Invalid authorization header.")

/-- `panel_subject`. -/
def panelSubject (userId : ℕ) : String := "user:" ++ toString userId

/-- The scopes of a content creator, which owners and managers have too. -/
def contentScopes : List String :=
  ["connections:read", "media:write", "posts:read", "posts:write", "posts:approve",
    "approvals:write", "publications:read", "publications:write"]

/-- `ROLE_SCOPES`. -/
def roleScopes : MembershipRole → List String
  | .owner => "connections:write" :: contentScopes
  | .manager => "connections:write" :: contentScopes
  | .contentCreator => contentScopes
  | .clientApprover => ["connections:read", "posts:read", "publications:read"]
  | .viewer => ["connections:read", "posts:read", "publications:read"]

/-- The active memberships of a subject, with their workspaces. -/
def activeMemberships (subject : String) (s : Store) : List (Membership × Tenant) :=
  (s.memberships.where fun m => m.subject = subject && m.isActive).filterMap fun m =>
    (s.tenants.get? m.workspace).map fun w => (m, w)

/-- `memberships.filter(workspace_id=...).first()`, for the text in the session. -/
def requestedMembership (memberships : List (Membership × Tenant)) :
    Option String → Except AuthenticationError (Option (Membership × Tenant))
  | none => .ok none
  | some text =>
    match Uuid.parse text with
    | none => .error (.unhandled "ValidationError")
    | some workspaceId => .ok
        (orderBy (fun a b => a.1.id.bits ≤ b.1.id.bits)
          (memberships.filter fun m => m.1.workspace = workspaceId)).head?

/-- `panel_principal`, for the workspace named in the session. -/
def panelPrincipal (userId : ℕ) (requestedWorkspaceId : Option String) (s : Store) :
    Except AuthenticationError RelayPrincipal := do
  let subject := panelSubject userId
  let memberships := activeMemberships subject s
  let requested ← requestedMembership memberships requestedWorkspaceId
  match requested.or (orderBy (fun a b => a.2.name ≤ b.2.name) memberships).head? with
  | none => .error (.authenticationFailed "This user does not have access to a Relay workspace.")
  | some (membership, workspace) =>
    if ¬ workspace.isActive then
      .error (.authenticationFailed "This user does not have access to a Relay workspace.")
    else
      .ok
        { subject
          workspaceId := membership.workspace
          brandIds := (s.brands.where fun b => b.workspace = workspace.id && b.isActive).map (·.id)
          scopes := roleScopes membership.role }

/-- Where a principal comes from. -/
inductive Credential
  /-- what `jwt.decode` made of the bearer token -/
  | service (decoded : Option (List (String × Json)))
  /-- the user of a browser session and the workspace it names -/
  | panel (userId : ℕ) (relayWorkspaceId : Option String)

/-- The principal of a request. -/
def authenticate (env : Env) (s : Store) : Credential → Except AuthenticationError RelayPrincipal
  | .service decoded => authenticateService env decoded
  | .panel userId relayWorkspaceId => panelPrincipal userId relayWorkspaceId s

/-! ### Permissions -/

inductive Method
  | get
  | post
  | delete
  deriving DecidableEq

/-- The class attributes of a view that `HasRelayScope` reads. -/
structure ViewPolicy where
  requiredScope : Option String
  requiredRoles : Option (List MembershipRole)
  requiredScopesByMethod : List (Method × String)
  requiredRolesByMethod : List (Method × List MembershipRole)

/-- The scope a method requires. -/
def ViewPolicy.scopeFor (v : ViewPolicy) (m : Method) : Option String :=
  ((v.requiredScopesByMethod.find? fun x => x.1 = m).map Prod.snd).or v.requiredScope

/-- The roles that may use a method. -/
def ViewPolicy.rolesFor (v : ViewPolicy) (m : Method) : Option (List MembershipRole) :=
  ((v.requiredRolesByMethod.find? fun x => x.1 = m).map Prod.snd).or v.requiredRoles

/-- `Membership.objects.filter(...).exists()`. -/
def holdsRole (p : RelayPrincipal) (roles : List MembershipRole) (s : Store) : Bool :=
  (s.memberships.find? fun m => m.workspace = p.workspaceId && m.subject = p.subject &&
    decide (m.role ∈ roles) && m.isActive).isSome

/-- `HasRelayScope.has_permission`, of an authenticated principal. -/
def hasRelayScope (v : ViewPolicy) (m : Method) (p : RelayPrincipal) (s : Store) : Bool :=
  ((v.scopeFor m).all fun scope => decide (scope ∈ p.scopes)) &&
    (v.rolesFor m).all fun roles => holdsRole p roles s

end Relay
