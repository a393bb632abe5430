import Relay.Model.Authentication

/-!
# The browser panel: `api/authentication.py`, `api/views.py`

The session of a browser, with the JSON values under the keys that the panel reads, and the views
that read and write it.  A view ends in its result or in the exception it raises, together with the
session it leaves.

* `Session.panelPrincipal`: `panel_principal` with the session;
* `panelContext`: `panel_context`;
* `panelLogin`, `panelMe`, `panelWorkspace`: the views.
-/

namespace Relay

open Relational Sequence

/-! ### Sessions -/

/-- A user of the Django project. -/
structure User where
  id : ℕ
  username : String
  /-- `get_full_name()` -/
  fullName : String
  isActive : Bool
  deriving DecidableEq

instance : Keyed User ℕ := ⟨(·.id)⟩

/-- What the session of a browser holds. -/
structure Session where
  /-- `_auth_user_id`, the user that `login` has stored -/
  authUserId : Option ℕ
  relayWorkspaceId : Option Json
  relayBrandId : Option Json

namespace Session

/-- The session after `flush`. -/
def empty : Session := ⟨none, none, none⟩

/-- `login`: the session of another user is flushed. -/
def login (session : Session) (user : User) : Session :=
  if session.authUserId = none ∨ session.authUserId = some user.id then
    { session with authUserId := some user.id }
  else { empty with authUserId := some user.id }

/-- The text by which a JSON value names a row in a filter on a UUID: that of an integer is the
text of its UUID, and what is neither text nor integer raises as a malformed text does. -/
def filterText : Option Json → Except AuthenticationError (Option String)
  | none => .ok none
  | some .null => .ok none
  | some (.str text) => .ok (some text)
  | some (.int n) =>
    if 0 ≤ n ∧ n < 2 ^ 128 then .ok (some (Uuid.ofNat n.toNat).text)
    else .error (.unhandled "ValidationError")
  | some (.bool b) => .ok (some (Uuid.ofNat b.toNat).text)
  | some _ => .error (.unhandled "ValidationError")

/-- `panel_principal`, with the session it reads and writes. -/
def panelPrincipal (session : Session) (userId : ℕ) (s : Store) :
    Except AuthenticationError (RelayPrincipal × Session) := do
  let requestedWorkspaceId ← filterText session.relayWorkspaceId
  let principal ← Relay.panelPrincipal userId requestedWorkspaceId s
  .ok (principal, { session with relayWorkspaceId := some (.str principal.workspaceId.text) })

/-- `str(brand.id) == session.get("relay_brand_id")`. -/
def namesBrand (session : Session) (brand : Brand) : Bool :=
  match session.relayBrandId with
  | some (.str text) => brand.id.text = text
  | _ => false

/-- The brand that the session names among those of the context, or the first one. -/
def activeBrand (session : Session) (brands : List Brand) : Option Brand :=
  (brands.find? session.namesBrand).or brands.head?

/-- The session after the choice of the active brand. -/
def chooseBrand (session : Session) (brands : List Brand) : Session :=
  match brands.find? session.namesBrand, brands.head? with
  | none, some brand => { session with relayBrandId := some (.str brand.id.text) }
  | _, _ => session

end Session

/-! ### The context -/

/-- What `request._request.user` is: the user of the session, or the principal that REST framework
has put there after the authentication. -/
inductive RequestUser
  | django (user : User)
  | principal (principal : RelayPrincipal)

/-- How a view of the panel is refused. -/
inductive PanelError
  | validation (field message : String)
  | notAuthenticated
  | authenticationFailed (detail : String)
  | notFound
  /-- an exception that is not an `APIException`, by class name -/
  | unhandled (className : String)
  deriving DecidableEq

/-- The status of the error response. -/
def PanelError.status : PanelError → ℕ
  | validation _ _ => 400
  | notAuthenticated => 403
  | authenticationFailed _ => 403
  | notFound => 404
  | unhandled _ => 500

def PanelError.ofAuthentication : AuthenticationError → PanelError
  | .authenticationFailed detail => .authenticationFailed detail
  | .unhandled className => .unhandled className

structure ContextBrand where
  id : Uuid
  name : String
  timezone : String
  deriving DecidableEq

structure ContextWorkspace where
  id : Uuid
  name : String
  brands : List (Uuid × String)
  deriving DecidableEq

/-- The dictionary that `panel_context` returns. -/
structure PanelContext where
  username : String
  displayName : String
  workspace : Uuid × String
  workspaces : List ContextWorkspace
  selectedBrandId : Option Uuid
  role : MembershipRole
  scopes : List String
  brands : List ContextBrand
  deriving DecidableEq

/-- `get_username()`, which a principal does not have. -/
def RequestUser.getUsername : RequestUser → Except PanelError String
  | .django user => .ok user.username
  | .principal _ => .error (.unhandled "AttributeError")

/-- `get_full_name() or get_username()`. -/
def RequestUser.displayName : RequestUser → Except PanelError String
  | .django user => .ok (if user.fullName ≠ "" then user.fullName else user.username)
  | .principal _ => .error (.unhandled "AttributeError")

/-- The user for whom `panel_context` resolves: the one given, or the one of the session. -/
def contextUser (users : Table User) (session : Session) : Option User → Except PanelError User
  | some user => .ok user
  | none =>
    match session.authUserId.bind users.get? with
    | some user => .ok user
    | none => .error .notAuthenticated

/-- The brands of a principal, by name. -/
def contextBrands (principal : RelayPrincipal) (s : Store) : List Brand :=
  orderBy (fun a b : Brand => a.name ≤ b.name) (s.brands.where fun b => decide (b.id ∈ principal.brandIds))

/-- The active workspaces of a subject, by name, with their active brands. -/
def contextWorkspaces (subject : String) (s : Store) : List ContextWorkspace :=
  (orderBy (fun a b : Tenant => a.name ≤ b.name) (s.tenants.where fun w => w.isActive &&
    s.memberships.rows.any fun m => m.workspace = w.id && m.subject = subject && m.isActive)).map
      fun w => ⟨w.id, w.name, (orderBy (fun a b : Brand => a.name ≤ b.name)
        (s.brands.where fun b => b.workspace = w.id && b.isActive)).map fun b => (b.id, b.name)⟩

/-- The dictionary, whose first entries are those of the user. -/
def contextData (requestUser : RequestUser) (principal : RelayPrincipal) (workspace : Tenant)
    (membership : Membership) (session : Session) (s : Store) : Except PanelError PanelContext := do
  let username ← requestUser.getUsername
  let displayName ← requestUser.displayName
  let brands := contextBrands principal s
  .ok
    { username, displayName
      workspace := (workspace.id, workspace.name)
      workspaces := contextWorkspaces principal.subject s
      selectedBrandId := (session.activeBrand brands).map (·.id)
      role := membership.role
      scopes := orderBy (fun a b : String => a ≤ b) (fromKeys principal.scopes)
      brands := brands.map fun b => ⟨b.id, b.name, b.timezone⟩ }

/-- `panel_context`, where `requestUser` is `request._request.user`. -/
def panelContext (users : Table User) (requestUser : RequestUser) (given : Option User)
    (session : Session) (s : Store) : Except PanelError PanelContext × Session :=
  match contextUser users session given with
  | .error e => (.error e, session)
  | .ok user =>
    match session.panelPrincipal user.id s with
    | .error e => (.error (.ofAuthentication e), session)
    | .ok (principal, session) =>
      match s.tenants.find? fun w => w.id = principal.workspaceId && w.isActive with
      | none => (.error (.unhandled "DoesNotExist"), session)
      | some workspace =>
        match s.memberships.where fun m =>
          m.workspace = workspace.id && m.subject = principal.subject && m.isActive with
        | [] => (.error (.unhandled "DoesNotExist"), session)
        | _ :: _ :: _ => (.error (.unhandled "MultipleObjectsReturned"), session)
        | [membership] =>
          (contextData requestUser principal workspace membership session s,
            session.chooseBrand (contextBrands principal s))

/-! ### The views -/

/-- `PanelLoginView.post`, for the user that `authenticate` has found. -/
def panelLogin (users : Table User) (authenticated : Option User) (session : Session) (s : Store) :
    Except PanelError PanelContext × Session :=
  match authenticated with
  | none => (.error (.authenticationFailed "Usuario o contraseña incorrectos."), session)
  | some user =>
    if ¬ user.isActive then
      (.error (.authenticationFailed "Este usuario está desactivado."), session)
    else
      match panelContext users (.django user) (some user) (session.login user) s with
      | (.error (.authenticationFailed detail), _) => (.error (.authenticationFailed detail), .empty)
      | r => r

/-- `PanelMeView.get`, after the authentication of a principal. -/
def panelMe (users : Table User) (principal : RelayPrincipal) (session : Session) (s : Store) :
    Except PanelError PanelContext × Session :=
  panelContext users (.principal principal) none session s

/-- A UUID filter, for the text of an identifier. -/
def uuidFilter (text : String) : Except PanelError Uuid :=
  match Uuid.parse text with
  | some id => .ok id
  | none => .error (.unhandled "ValidationError")

/-- The active membership of a subject in an active workspace. -/
def findMembership (subject : String) (workspace : Uuid) (s : Store) : Option (Membership × Tenant) :=
  (orderBy (fun a b : Membership × Tenant => a.1.id.bits ≤ b.1.id.bits)
    ((activeMemberships subject s).filter fun m => m.1.workspace = workspace && m.2.isActive)).head?

/-- An active brand of a workspace has the identifier. -/
def hasBrand (workspace brand : Uuid) (s : Store) : Bool :=
  s.brands.rows.any fun b => b.id = brand && b.workspace = workspace && b.isActive

/-- The checks of `PanelWorkspaceView.post`: the workspace to select, and the text of the brand. -/
def checkSwitch (subject : String) (workspaceId brandId : Option String) (s : Store) :
    Except PanelError (Uuid × Option String) :=
  if workspaceId.getD "" = "" then .error (.validation "workspace_id" "This field is required.")
  else do
    let workspace ← uuidFilter (workspaceId.getD "")
    match findMembership subject workspace s with
    | none => .error .notFound
    | some (membership, _) =>
      if brandId.getD "" = "" then .ok (membership.workspace, none)
      else do
        let brand ← uuidFilter (brandId.getD "")
        if hasBrand membership.workspace brand s then .ok (membership.workspace, brandId)
        else .error .notFound

/-- `PanelWorkspaceView.post`, after the authentication of a principal. -/
def panelWorkspace (users : Table User) (principal : RelayPrincipal)
    (workspaceId brandId : Option String) (session : Session) (s : Store) :
    Except PanelError PanelContext × Session :=
  match checkSwitch principal.subject workspaceId brandId s with
  | .error e => (.error e, session)
  | .ok (workspace, brand) =>
    panelContext users (.principal principal) none
      { session with
        relayWorkspaceId := some (.str workspace.text)
        relayBrandId := brand.map .str } s

end Relay
