import Relay.Library.Transition
import Relay.Model.Delivery
import Relay.Model.Views

/-!
# The running system

Web processes, Celery workers, the broker and Meta around one database.  A web process holds a
`Ticket` between the checks of a request and its transaction; a worker holds the rows of its
claim while it talks to Meta; the broker delivers a task any number of times, in any order, late
or never; Meta decides for each request whether to apply it and what to answer, independently.
Every transaction is one step, everything between two transactions can be interleaved with the
steps of others, and a web process or a worker can stop at any point.

* `Sys`, `Label`, `Output`, `next`: the states and the steps;
* `relay`: the machine, whose runs start from a store without content.
-/

namespace Relay

open Relational Transition

/-! ### States -/

/-- How far the request of a web process has come. -/
inductive Ticket
  /-- the command waits for its transaction -/
  | admitted (command : Command)
  /-- the state is consumed and Meta is asked for the identity behind the code -/
  | connecting (state : OAuthState)

/-- How far a worker has come. -/
inductive Phase
  /-- the task has read the clock -/
  | begun (started : Time)
  | claimed (claim : Claim)
  /-- what is left of the exchange with the publisher -/
  | publishing (claim : Claim) (rest : Exchange MetaRequest Answer (Except DeliveryError String))

/-- A worker that runs `publish_publication`. -/
structure Worker where
  publication : Uuid
  phase : Phase

/-- The system. -/
structure Sys where
  store : Store
  clock : Time
  /-- every task the dispatcher has sent -/
  tasks : List Uuid
  tickets : ℕ → Option Ticket
  workers : ℕ → Option Worker
  /-- the posts the public sees, with the publication each was made for -/
  ledger : List (Uuid × MetaRequest)

/-- What Meta does with a request. -/
structure MetaAct where
  applied : Bool
  answer : Answer

/-! ### Steps -/

inductive Label
  /-- time passes -/
  | advance (duration : ℕ)
  /-- a web process checks a request -/
  | receive (ticket : ℕ) (credential : Credential) (request : ApiRequest)
  | receivePublic (ticket : ℕ) (request : PublicRequest)
  /-- a web process runs the transaction of its command -/
  | commit (ticket : ℕ) (draws : Draws)
  /-- Meta has answered to the OAuth callback -/
  | identify (ticket : ℕ) (token : MetaToken) (identity : MetaIdentity)
  /-- a web process gives up -/
  | abandon (ticket : ℕ)
  /-- `dispatch_due_publications` -/
  | dispatch
  /-- the broker delivers a task to a worker -/
  | start (worker : ℕ) (publication : Uuid)
  /-- the first transaction of `publish_due_publication` -/
  | claim (worker : ℕ) (attempt : Uuid)
  /-- the arguments of the publisher are computed and it is called -/
  | prepare (worker : ℕ) (signer : Signer)
  /-- one request to Meta -/
  | exchange (worker : ℕ) (act : MetaAct)
  /-- the second transaction of `publish_due_publication` -/
  | finish (worker : ℕ)
  /-- a worker stops where it is -/
  | kill (worker : ℕ)

/-- What a step lets others see. -/
inductive Output
  | silent
  | response (response : Except ApiError Response)
  | committed (command : Command) (reply : Reply) (response : Option (Except ApiError Response))
  | refused (command : Command) (error : ServiceError)
  | dispatched (publications : List Uuid)
  | claimed (claim : Claim)
  /-- `publish_images` is called -/
  | publishing (claim : Claim) (media : List MediaAsset) (call : PublishCall)
  | exchanged (claim : Claim) (request : MetaRequest) (act : MetaAct)
  /-- `publish_due_publication` returns -/
  | returned (publication : Uuid) (answer : String)
  /-- `publish_due_publication` raises -/
  | raised (publication : Uuid) (error : ServiceError)

namespace Sys

/-- What a ticket becomes. -/
def setTicket (s : Sys) (k : ℕ) (t : Option Ticket) : Sys :=
  { s with tickets := Function.update s.tickets k t }

/-- What a worker becomes. -/
def setWorker (s : Sys) (k : ℕ) (w : Option Worker) : Sys :=
  { s with workers := Function.update s.workers k w }

/-- A worker goes on. -/
def goOn (s : Sys) (k : ℕ) (publication : Uuid) (phase : Phase) : Sys :=
  s.setWorker k (some ⟨publication, phase⟩)

/-- The posts the public sees of a publication. -/
def visiblePosts (s : Sys) (publication : Uuid) : List (Uuid × MetaRequest) :=
  s.ledger.filter fun x => x.1 = publication

/-- A store without content, no process and nothing published. -/
def initial (tenants : Table Tenant) (brands : Table Brand) (memberships : Table Membership)
    (clock : Time) : Sys where
  store := .provisioned tenants brands memberships
  clock := clock
  tasks := []
  tickets := fun _ => none
  workers := fun _ => none
  ledger := []

end Sys

/-- The ticket after the transaction of a command. -/
def Reply.ticket : Reply → Option Ticket
  | .oauthState state => some (.connecting state)
  | _ => none

/-- The step of a web process that has checked a request. -/
def Sys.admitted (s : Sys) (k : ℕ) : Except ApiError Admission → Sys × Output
  | .error e => (s, .response (.error e))
  | .ok (.answer r) => (s, .response (.ok r))
  | .ok (.command c) => (s.setTicket k (some (.admitted c)), .silent)

/-- The transaction of a command. -/
def Sys.commit (env : Env) (s : Sys) (k : ℕ) (draws : Draws) (c : Command) : Sys × Output :=
  match runCommand env ⟨draws, s.clock⟩ c s.store with
  | .error e => (s.setTicket k none, .refused c e)
  | .ok (r, store) =>
    ({ s with store }.setTicket k r.ticket, .committed c r (respond store r))

/-- The first transaction of a worker. -/
def Sys.claim (s : Sys) (k : ℕ) (publication : Uuid) (started : Time) (attempt : Uuid) :
    Sys × Output :=
  match claimPublication started s.clock attempt publication s.store with
  | .error e => (s.setWorker k none, .raised publication e)
  | .ok (none, store) =>
    ({ s with store }.setWorker k none, .returned publication "not_due_or_claimed")
  | .ok (some claim, store) => ({ s with store }.goOn k publication (.claimed claim), .claimed claim)

/-- A worker calls its publisher. -/
def Sys.prepare (env : Env) (publisher : Option Publisher) (s : Sys) (k : ℕ) (publication : Uuid)
    (claim : Claim) (signer : Signer) : Sys × Output :=
  let media := orderedMediaAssets s.store claim.postVariant
  match publishArguments env publisher signer claim media with
  | .error e => (s.goOn k publication (.publishing claim (.done (.error e))), .silent)
  | .ok call =>
    (s.goOn k publication (.publishing claim (publisherCall env publisher call).run),
      .publishing claim media call)

/-- Meta receives a request and answers. -/
def Sys.exchange (s : Sys) (k : ℕ) (publication : Uuid) (claim : Claim) (q : MetaRequest)
    (rest : Answer → Exchange MetaRequest Answer (Except DeliveryError String)) (act : MetaAct) :
    Sys × Output :=
  let ledger := if act.applied && q.visible then s.ledger ++ [(publication, q)] else s.ledger
  ({ s with ledger }.goOn k publication (.publishing claim (rest act.answer)), .exchanged claim q act)

/-- The second transaction of a worker. -/
def Sys.finish (env : Env) (s : Sys) (k : ℕ) (publication : Uuid) (claim : Claim)
    (result : Except DeliveryError String) : Sys × Output :=
  match Relay.finish env s.clock claim result s.store with
  | .error e => (s.setWorker k none, .raised publication e)
  | .ok (answer, store) => ({ s with store }.setWorker k none, .returned publication answer)

/-- One step, if the label applies. -/
def next (env : Env) (publisher : Option Publisher) (s : Sys) : Label → Option (Sys × Output)
  | .advance duration => some ({ s with clock := s.clock + duration }, .silent)
  | .receive k credential request =>
    if (s.tickets k).isSome then none
    else some (s.admitted k ((admitRequest env s.clock credential request s.store).map Prod.snd))
  | .receivePublic k request =>
    if (s.tickets k).isSome then none
    else some (s.admitted k (admitPublic env s.clock request s.store))
  | .commit k draws =>
    match s.tickets k with
    | some (.admitted c) => some (s.commit env k draws c)
    | _ => none
  | .identify k token identity =>
    match s.tickets k with
    | some (.connecting o) => some (s.setTicket k (some (.admitted
        (.persistMetaConnections o.tenant o.brand o.subject token identity))), .silent)
    | _ => none
  | .abandon k => some (s.setTicket k none, .silent)
  | .dispatch =>
    let due := dispatchDuePublications s.clock s.store
    some ({ s with tasks := s.tasks ++ due }, .dispatched due)
  | .start k publication =>
    if publication ∈ s.tasks ∧ (s.workers k).isNone then
      some (s.goOn k publication (.begun s.clock), .silent)
    else none
  | .claim k attempt =>
    match s.workers k with
    | some ⟨publication, .begun started⟩ => some (s.claim k publication started attempt)
    | _ => none
  | .prepare k signer =>
    match s.workers k with
    | some ⟨publication, .claimed claim⟩ => some (s.prepare env publisher k publication claim signer)
    | _ => none
  | .exchange k act =>
    match s.workers k with
    | some ⟨publication, .publishing claim (.ask q rest)⟩ =>
      some (s.exchange k publication claim q rest act)
    | _ => none
  | .finish k =>
    match s.workers k with
    | some ⟨publication, .publishing claim (.done result)⟩ =>
      some (s.finish env k publication claim result)
    | _ => none
  | .kill k => some (s.setWorker k none, .silent)

/-- The system of a deployment; its events are labels with what they let others see. -/
def relay (env : Env) (publisher : Option Publisher) : Machine Sys (Label × Output) where
  start s := ∃ tenants brands memberships clock, s = .initial tenants brands memberships clock
  step s e s' := next env publisher s e.1 = some (s', e.2)

end Relay
