import Relay.Library.Upsert
import Relay.Model.Ingestion
import Relay.Model.Panel

/-!
# Setting up brands: `tenancy/management/commands/provision_content_workspace.py`,
`social/management/commands/list_brand_connections.py`

The first command upserts a workspace, then one brand after the other, then the membership of an
owner.  It opens no transaction around them, so each `update_or_create` is a commit of its own, and
what is saved before a failure stays.  The second one lists the channels that a task may be told.

* `Registry`: the tables with the slugs of workspaces and brands;
* `beginProvision`, `Provision.next`: a run of the first command, from commit to commit;
* `listBrandConnections`: the second one.
-/

namespace Relay

open Relational Sequence

/-! ### Upserts by a slug or a subject -/

/-- The tables, and the slugs of workspaces and brands. -/
structure Registry where
  store : Store
  slugs : Slugs

/-- How `handle` ends early. -/
inductive ProvisionFailure
  | commandError (message : String)
  | database (error : ServiceError)
  deriving DecidableEq

/-- `update_or_create`, for the row that the look-up has found: the row, whether it is new, and the
table.  `fits` and `fitsKey` tell whether the columns hold the values they are given, in any row and
in a new one. -/
def updateOrCreate {ρ : Type} [Keyed ρ Uuid] (t : Table ρ) (found : Option ρ) (f : Rewrite ρ)
    (new : ρ) (fits fitsKey : Bool) : Except ProvisionFailure ((ρ × Bool) × Table ρ) :=
  if ¬ fits then .error (.database .dataError)
  else match found with
    | some r => .ok ((f r, false), t.update (key r) f)
    | none =>
      if ¬ fitsKey then .error (.database .dataError)
      else match create t new with
        | .ok t' => .ok ((new, true), t')
        | .error e => .error (.database e)

namespace Registry

/-- `Tenant.objects.update_or_create(slug=..., defaults=...)`. -/
def upsertWorkspace (id : Uuid) (slug name : String) (r : Registry) :
    Except ProvisionFailure ((Tenant × Bool) × Registry) := do
  let ((workspace, created), tenants) ← updateOrCreate r.store.tenants
    (r.store.tenants.select (fun w => r.slugs.workspace w.id) slug)
    ⟨fun w => { w with name, isActive := true }, fun _ => rfl⟩ ⟨id, name, true⟩
    (fitsVarchar 200 name) (fitsVarchar 50 slug)
  .ok ((workspace, created),
    { store := { r.store with tenants }
      slugs :=
        if created then { r.slugs with workspace := Function.update r.slugs.workspace id slug }
        else r.slugs })

/-- `Brand.objects.update_or_create(workspace=..., slug=..., defaults=...)`. -/
def upsertBrand (id workspace : Uuid) (slug name : String) (r : Registry) :
    Except ProvisionFailure ((Brand × Bool) × Registry) := do
  let ((brand, created), brands) ← updateOrCreate r.store.brands
    (r.store.brands.select (fun b => (b.workspace, r.slugs.brand b.id)) (workspace, slug))
    ⟨fun b => { b with name, isActive := true }, fun _ => rfl⟩ ⟨id, workspace, name, "UTC", true⟩
    (fitsVarchar 200 name) (fitsVarchar 50 slug)
  .ok ((brand, created),
    { store := { r.store with brands }
      slugs :=
        if created then { r.slugs with brand := Function.update r.slugs.brand id slug }
        else r.slugs })

/-- `Membership.objects.update_or_create(workspace=..., subject=..., defaults=...)`. -/
def upsertOwner (id workspace : Uuid) (subject : String) (r : Registry) :
    Except ProvisionFailure ((Membership × Bool) × Registry) := do
  let ((membership, created), memberships) ← updateOrCreate r.store.memberships
    (r.store.memberships.select (fun m => (m.workspace, m.subject)) (workspace, subject))
    ⟨fun m => { m with role := .owner, isActive := true }, fun _ => rfl⟩
    ⟨id, workspace, subject, .owner, true⟩ true (fitsVarchar 255 subject)
  .ok ((membership, created), { r with store := { r.store with memberships } })

end Registry

/-! ### The command -/

/-- The options of the command. -/
structure ProvisionOptions where
  workspaceSlug : String
  workspaceName : String
  /-- `--brand`, once for each brand -/
  brand : List String
  ownerUsername : Option String
  deriving DecidableEq

/-- The values that one upsert has saved. -/
inductive Saved
  | workspace (slug name : String)
  | brand (workspaceSlug slug name : String)
  | owner (workspaceSlug : String) (user : User)
  deriving DecidableEq

/-- What a line of the output tells. -/
structure SavedLine where
  saved : Saved
  created : Bool
  id : Uuid
  deriving DecidableEq

/-- The line. -/
def SavedLine.text (line : SavedLine) : String :=
  let (kind, name) := match line.saved with
    | .workspace slug _ => ("Workspace ", slug)
    | .brand _ slug _ => ("Brand ", slug)
    | .owner _ user => ("Owner ", user.username)
  kind ++ (if line.created then "created" else "updated") ++ ": " ++ name ++ " (" ++ line.id.text ++ ")"

/-- What is left of a run of the command: the workspace it has saved, the brands that follow and,
after them, the owner. -/
structure Provision where
  workspace : Uuid
  workspaceSlug : String
  brand : List String
  ownerUsername : Option String

/-- `raw_brand.split(":", maxsplit=1)`, stripped and checked. -/
def parseBrand (raw : String) : Except ProvisionFailure (String × String) :=
  match raw.toList.span (· ≠ ':') with
  | (_, []) => .error (.commandError "Each --brand value must have the form SLUG:NAME.")
  | (slug, _ :: name) =>
    let slug := String.ofList (Text.strip Text.isSpace slug)
    let name := String.ofList (Text.strip Text.isSpace name)
    if slug = "" ∨ name = "" then
      .error (.commandError "Each --brand value must have a non-empty slug and name.")
    else .ok (slug, name)

/-- `handle` up to its first commit, which saves the workspace. -/
def beginProvision (id : Uuid) (o : ProvisionOptions) (r : Registry) :
    Except ProvisionFailure (SavedLine × Provision × Registry) := do
  let ((workspace, created), r) ← r.upsertWorkspace id o.workspaceSlug o.workspaceName
  .ok (⟨.workspace o.workspaceSlug o.workspaceName, created, workspace.id⟩,
    ⟨workspace.id, o.workspaceSlug, o.brand, o.ownerUsername⟩, r)

namespace Provision

/-- One turn of the loop. -/
def nextBrand (id : Uuid) (raw : String) (rest : List String) (p : Provision) (r : Registry) :
    Except ProvisionFailure (SavedLine × Provision × Registry) := do
  let (slug, name) ← parseBrand raw
  let ((brand, created), r) ← r.upsertBrand id p.workspace slug name
  .ok (⟨.brand p.workspaceSlug slug name, created, brand.id⟩, { p with brand := rest }, r)

/-- The owner, after the loop. -/
def nextOwner (env : Env) (id : Uuid) (users : Table User) (username : String) (p : Provision)
    (r : Registry) : Except ProvisionFailure (SavedLine × Provision × Registry) :=
  match users.find? fun u => u.username = username with
  | none => .error (.commandError
      ("Django user " ++ String.ofList (Json.reprString env.printable username) ++ " does not exist."))
  | some user => do
    let ((membership, created), r) ← r.upsertOwner id p.workspace (panelSubject user.id)
    .ok (⟨.owner p.workspaceSlug user, created, membership.id⟩, { p with ownerUsername := none }, r)

/-- The next commit of the command, unless it is at its end. -/
def next (env : Env) (id : Uuid) (users : Table User) (p : Provision) (r : Registry) :
    Option (Except ProvisionFailure (SavedLine × Provision × Registry)) :=
  match p.brand with
  | raw :: rest => some (p.nextBrand id raw rest r)
  | [] =>
    match p.ownerUsername with
    | none => none
    | some username => if username = "" then none else some (p.nextOwner env id users username r)

end Provision

/-! ### Listing the channels of a brand -/

/-- What `list_brand_connections` writes. -/
structure Listing where
  stdout : List String
  stderr : List String

/-- The active connections of a brand, by channel and name. -/
def brandConnections (brand : Brand) (s : Store) : List ChannelConnection :=
  orderBy (fun a b : ChannelConnection => a.channel.text < b.channel.text ∨
      (a.channel.text = b.channel.text ∧ a.displayName ≤ b.displayName))
    (s.connections.where fun c => c.isActive &&
      (s.accounts.get? c.socialAccount).any fun a => a.brand = brand.id)

/-- The line of a connection. -/
def ChannelConnection.line (c : ChannelConnection) : String :=
  c.id.text ++ "\t" ++ c.channel.text ++ "\t" ++ c.displayName

/-- `list_brand_connections`, `handle`. -/
def listBrandConnections (slugs : Slugs) (workspaceSlug brandSlug : String) (s : Store) :
    Except CommandFailure Listing := do
  let brand ← slugBrand slugs workspaceSlug brandSlug s
  match brandConnections brand s with
  | [] => .ok ⟨[], ["No active social connections were found."]⟩
  | connections => .ok ⟨connections.map (·.line), []⟩

end Relay
