import Relay.Model.Social

/-!
# Revoking copied connections: `social/management/commands/revoke_promoted_meta_connections.py`

Brands once had connections copied to them by a command that is no longer there; its audit entries
name them.  The command finds the copies of one brand that are active, reports them and, with
`--apply`, deactivates one after the other.  It opens no transaction, so each of its writes is a
commit of its own, for the rows as they were read.
-/

namespace Relay

open Relational

/-- The slugs of workspaces and brands. -/
structure Slugs where
  workspace : Uuid → String
  brand : Uuid → String

/-- How `handle` ends early. -/
inductive CommandFailure
  | commandError (message : String)
  | multipleObjectsReturned
  deriving DecidableEq

/-- `Brand.objects.get(workspace__slug=..., slug=..., ...)`. -/
def slugBrand (slugs : Slugs) (workspaceSlug brandSlug : String) (s : Store) :
    Except CommandFailure Brand :=
  match s.brands.where fun b => slugs.brand b.id = brandSlug && b.isActive &&
      (s.tenants.get? b.workspace).any fun t => slugs.workspace t.id = workspaceSlug && t.isActive with
  | [] => .error (.commandError "Active workspace/brand combination was not found.")
  | [brand] => .ok brand
  | _ => .error .multipleObjectsReturned

/-- The connections that were copied to a brand, by the audit log. -/
def promotedIds (brand : Brand) (s : Store) : List Uuid :=
  (s.audit.filter fun e => e.tenant = brand.workspace && e.brand = some brand.id &&
    e.eventType = "meta.connection_promoted" && e.subjectType = "channel_connection").map (·.subjectId)

/-- Those that are active. -/
def promotedConnections (brand : Brand) (s : Store) : List ChannelConnection :=
  s.connections.where fun c => c.id ∈ promotedIds brand s && c.isActive &&
    (s.accounts.get? c.socialAccount).any fun a => a.brand = brand.id

/-- What is left to do: connections to deactivate, after the entry for the last one. -/
structure Revocation where
  brand : Brand
  connections : List ChannelConnection
  unlogged : Option ChannelConnection

/-- A run of the command up to its first write: what it reports, and what it goes on to do. -/
def revokePromoted (slugs : Slugs) (workspaceSlug brandSlug : String) (apply : Bool) (s : Store) :
    Except CommandFailure (List ChannelConnection × Option Revocation) := do
  let brand ← slugBrand slugs workspaceSlug brandSlug s
  let connections := promotedConnections brand s
  if connections.isEmpty ∨ ¬ apply then .ok (connections, none)
  else .ok (connections, some ⟨brand, connections, none⟩)

/-- A connection that is deactivated. -/
def ChannelConnection.deactivate (c : ChannelConnection) (now : Time) : ChannelConnection :=
  { c with isActive := false, updatedAt := now }

/-- `connection.save(update_fields=("is_active", "updated_at"))`. -/
def Store.deactivate (s : Store) (now : Time) (connection : Uuid) : Store :=
  { s with connections := s.connections.update connection ⟨(·.deactivate now), fun _ => rfl⟩ }

/-- The entry for a deactivated connection. -/
def revocationEvent (brand : Brand) (connection : ChannelConnection) : AuditLog where
  tenant := brand.workspace
  brand := brand.id
  actorType := "admin"
  actorId := "revoke_promoted_meta_connections"
  eventType := "meta.promoted_connection_revoked"
  subjectType := "channel_connection"
  subjectId := connection.id
  metadata := [("reason", .str "retired_cross_brand_connection_copy")]

end Relay
