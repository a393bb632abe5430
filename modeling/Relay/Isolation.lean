import Relay.Execution
import Relay.Provenance
import Relay.Visibility

/-!
# Every workspace runs as if it were alone

A run of the system, seen from one workspace, is a run of the system that holds the rows of that
workspace and no others.

* `Concerns`: the events in which a workspace has a part;
* `Mirror`: the state of the system that holds one workspace alone;
* `Mirror.follow`: what it does when the system takes a step;
* `runs_alone`: the run that shows the events of the workspace.
-/

namespace Relay

open Relational Sequence Transition

/-! ### Events of a workspace -/

namespace Sys

/-- The worker delivers a publication of the workspace. -/
def WorksFor (s : Sys) (w : Uuid) (k : ℕ) : Prop :=
  ∃ x, s.workers k = some x ∧ s.store.publicationTenant x.publication = some w

/-- The step is one of the workspace: of its principals, its links, its OAuth states, its
publications.  A decision and a callback concern all until their tokens are looked up. -/
def ActsFor (s : Sys) (env : Env) (w : Uuid) : Label → Prop
  | .receive _ credential _ => ∃ p, authenticate env s.store credential = .ok p ∧ p.workspaceId = w
  | .receivePublic _ (.approvalLink token) =>
    ((findApproval env token s.store).bind fun r => s.store.brandWorkspace r.brand) = some w
  | .receivePublic _ _ => True
  | .commit k _ => ∃ c, s.tickets k = some (.admitted c) ∧ c.workspace env s.store = some w
  | .identify k _ _ => ∃ o, s.tickets k = some (.connecting o) ∧ o.tenant = w
  | .start _ publication => s.store.publicationTenant publication = some w
  | .claim k _ => s.WorksFor w k
  | .prepare k _ => s.WorksFor w k
  | .exchange k _ => s.WorksFor w k
  | .finish k => s.WorksFor w k
  | _ => False

/-- A transaction of the workspace fails on a unique constraint, and what is drawn for it is taken:
a row of another workspace has the identifier or the digest of the token. -/
def Collides (s : Sys) (env : Env) (w : Uuid) : Label × Output → Prop
  | (.commit _ draws, .refused c e) => e.OfConstraint ∧ c.DrawnTwice env draws w s.store
  | (.claim _ attempt, .raised _ e) => e.OfConstraint ∧
      s.store.attempts.Outside (fun a => s.store.publicationTenant a.publication = some w) attempt
  | _ => False

end Sys

/-- The workspace has a part in the event, and others have none. -/
def Concerns (env : Env) (w : Uuid) (s : Sys) (e : Label × Output) : Prop :=
  s.ActsFor env w e.1 ∧ ¬ s.Collides env w e

/-- Not a step of the clock, of the dispatcher or of a process that stops. -/
def interacts (e : Label × Output) : Bool :=
  match e.1 with
  | .advance _ => false
  | .abandon _ => false
  | .dispatch => false
  | .kill _ => false
  | _ => true

/-! ### The workspace alone -/

/-- A command that may act in the workspace, as far as it says. -/
def Command.mayActIn (w : Uuid) (c : Command) : Bool := c.tenant.all (· = w)

/-- The same of a ticket. -/
def Ticket.mayActIn (w : Uuid) : Ticket → Bool
  | .admitted c => c.mayActIn w
  | .connecting o => o.tenant = w

/-- The worker delivers a publication of the workspace. -/
def Worker.worksFor (s : Store) (w : Uuid) (x : Worker) : Bool :=
  s.publicationTenant x.publication = some w

/-- `t` is the part of `s` that belongs to the workspace; its dispatcher may have sent more. -/
structure Mirror (w : Uuid) (s t : Sys) : Prop where
  store : t.store = s.store.only w
  clock : t.clock = s.clock
  tasks : ∀ q ∈ s.tasks, s.store.publicationTenant q = some w → q ∈ t.tasks
  tickets : ∀ k, t.tickets k = (s.tickets k).filter (Ticket.mayActIn w)
  workers : ∀ k, t.workers k = (s.workers k).filter (Worker.worksFor s.store w)
  ledger : t.ledger = s.ledger.filter fun x => s.store.publicationTenant x.1 = some w

/-- Tasks, workers and posts are of publications that there are. -/
structure Tasked (s : Sys) : Prop where
  tasks : ∀ q ∈ s.tasks, ∃ p ∈ s.store.publications, p.id = q
  workers : ∀ k x, s.workers k = some x → x.publication ∈ s.tasks
  ledger : ∀ x ∈ s.ledger, x.1 ∈ s.tasks

section Tasks

variable {env : Env} {publisher : Option Publisher} {s s' : Sys}

theorem Evolves.publications_stay {t t' : Store} (h : Evolves t t') {q : Uuid}
    (hq : ∃ p ∈ t.publications, p.id = q) : ∃ p ∈ t'.publications, p.id = q := by
  obtain ⟨p, hp, rfl⟩ := hq
  obtain ⟨p', hp', _, _, _, _, _, _, rfl⟩ := h.publications p hp
  exact ⟨_, hp', rfl⟩

/-- A publication stays in its workspace. -/
theorem Evolves.publicationTenant {t t' : Store} (h : Evolves t t') {q : Uuid}
    (hq : ∃ p ∈ t.publications, p.id = q) : t'.publicationTenant q = t.publicationTenant q := by
  obtain ⟨p, hp, rfl⟩ := hq
  obtain ⟨p', hp', _, _, _, _, _, _, heq⟩ := h.publications p hp
  have hview := publicationTenant_key hp'
  rw [publicationTenant_key hp]
  rwa [heq] at hview

theorem Tasked.worker (h : Tasked s) {k : ℕ} {x : Worker} (hx : s.workers k = some x) :
    ∃ p ∈ s.store.publications, p.id = x.publication := h.tasks _ (h.workers k x hx)

theorem mem_dispatched {now : Time} {t : Store} {q : Uuid} (h : q ∈ dispatchDuePublications now t) :
    ∃ p ∈ t.publications, p.id = q := by
  obtain ⟨p, hp, rfl⟩ := List.mem_map.1 h
  exact ⟨p, (Table.mem_where.1 (Sequence.mem_orderBy.1 (List.mem_of_mem_take hp))).1, rfl⟩

theorem SysStep.tasks {l : Label} {o : Output} (h : SysStep env publisher s l s' o) :
    s'.tasks = s.tasks ∨ s'.tasks = s.tasks ++ dispatchDuePublications s.clock s.store := by
  cases h with
  | dispatched => exact .inr rfl
  | _ => exact .inl rfl

/-- What a step makes of the workers. -/
theorem SysStep.worker_origin {l : Label} {o : Output} (h : SysStep env publisher s l s' o) {k : ℕ}
    {x : Worker} (hx : s'.workers k = some x) :
    (∃ k y, s.workers k = some y ∧ y.publication = x.publication) ∨ x.publication ∈ s.tasks := by
  have hgone : ∀ {k' : ℕ}, (s.setWorker k' none).workers k = some x →
      ∃ k y, s.workers k = some y ∧ y.publication = x.publication := fun h => by
    rcases worker_of_setWorker h with ⟨-, hnone⟩ | h
    · cases hnone
    · exact ⟨k, x, h, rfl⟩
  have hon : ∀ {k' : ℕ} {y : Worker} {phase : Phase}, s.workers k' = some y →
      (s.goOn k' y.publication phase).workers k = some x →
      ∃ k y, s.workers k = some y ∧ y.publication = x.publication := fun hy h => by
    rcases worker_of_setWorker h with ⟨-, heq⟩ | h
    · cases heq
      exact ⟨_, _, hy, rfl⟩
    · exact ⟨k, x, h, rfl⟩
  cases h with
  | started task =>
    rcases worker_of_setWorker hx with ⟨-, heq⟩ | h
    · cases heq
      exact .inr task
    · exact .inl ⟨k, x, h, rfl⟩
  | claimRaised => exact .inl (hgone hx)
  | claimMissed => exact .inl (hgone hx)
  | claimed worker => exact .inl (hon worker hx)
  | unprepared worker => exact .inl (hon worker hx)
  | prepared worker => exact .inl (hon worker hx)
  | exchanged worker => exact .inl (hon worker hx)
  | finishRaised => exact .inl (hgone hx)
  | finished => exact .inl (hgone hx)
  | killed => exact .inl (hgone hx)
  | _ => exact .inl ⟨k, x, hx, rfl⟩

theorem SysStep.ledger_origin {l : Label} {o : Output} (h : SysStep env publisher s l s' o)
    {x : Uuid × MetaRequest} (hx : x ∈ s'.ledger) :
    x ∈ s.ledger ∨ ∃ k y, s.workers k = some y ∧ y.publication = x.1 := by
  cases h with
  | @exchanged k publication claim q rest act worker =>
    have hledger : x ∈ if act.applied && q.visible then s.ledger ++ [(publication, q)] else s.ledger := hx
    split at hledger
    · rcases List.mem_append.1 hledger with hx | hx
      · exact .inl hx
      · rw [List.mem_singleton.1 hx]
        exact .inr ⟨k, _, worker, rfl⟩
    · exact .inl hledger
  | _ => exact .inl hx

theorem tasked_of_reachable (h : Reachable (relay env publisher) s) : Tasked s := by
  refine Reachable.invariant (I := Tasked) ?_ ?_ h
  · rintro s ⟨tenants, brands, memberships, clock, rfl⟩
    exact ⟨by simp [Sys.initial], fun k x hx => by simp [Sys.initial] at hx, by simp [Sys.initial]⟩
  · rintro s ⟨l, o⟩ t hs hstep
    have hstep := next_step hstep
    have hsub : ∀ q ∈ s.tasks, q ∈ t.tasks := by
      intro q hq
      rcases hstep.tasks with he | he <;> rw [he]
      · exact hq
      · exact List.mem_append_left _ hq
    refine ⟨fun q hq => hstep.evolves.publications_stay ?_, fun k x hx => ?_, fun x hx => ?_⟩
    · rcases hstep.tasks with he | he <;> rw [he] at hq
      · exact hs.tasks q hq
      · rcases List.mem_append.1 hq with hq | hq
        · exact hs.tasks q hq
        · exact mem_dispatched hq
    · rcases hstep.worker_origin hx with ⟨k, y, hy, he⟩ | hx
      · exact he ▸ hsub _ (hs.workers k y hy)
      · exact hsub _ hx
    · rcases hstep.ledger_origin hx with hx | ⟨k, y, hy, he⟩
      · exact hsub _ (hs.ledger x hx)
      · exact he ▸ hsub _ (hs.workers k y hy)

end Tasks

/-! ### The mirror of a step -/

namespace Mirror

variable {w publication : Uuid} {s t : Sys}

theorem setTicket (h : Mirror w s t) (k : ℕ) (x : Option Ticket) :
    Mirror w (s.setTicket k x) (t.setTicket k (x.filter (Ticket.mayActIn w))) where
  store := h.store
  clock := h.clock
  tasks := h.tasks
  tickets k' := by
    unfold Sys.setTicket
    dsimp only
    rw [Function.update_apply, Function.update_apply]
    split
    · rfl
    · exact h.tickets k'
  workers := h.workers
  ledger := h.ledger

theorem setWorker (h : Mirror w s t) (k : ℕ) (x : Option Worker) :
    Mirror w (s.setWorker k x) (t.setWorker k (x.filter (Worker.worksFor s.store w))) where
  store := h.store
  clock := h.clock
  tasks := h.tasks
  tickets := h.tickets
  workers k' := by
    unfold Sys.setWorker
    dsimp only
    rw [Function.update_apply, Function.update_apply]
    split
    · rfl
    · exact h.workers k'
  ledger := h.ledger

/-- The same after a transaction. -/
theorem moved (h : Mirror w s t) (hs : Tasked s) {store store' : Store} (evolves : Evolves s.store store)
    (hstore : store.only w = store') : Mirror w { s with store } { t with store := store' } where
  store := hstore.symm
  clock := h.clock
  tasks q hq hw := h.tasks q hq (by rw [← evolves.publicationTenant (hs.tasks q hq)]; exact hw)
  tickets := h.tickets
  workers k := by
    refine (h.workers k).trans ?_
    dsimp only
    cases hk : s.workers k with
    | none => rfl
    | some x =>
      have hx : Worker.worksFor s.store w x = Worker.worksFor store w x := by
        unfold Worker.worksFor
        rw [evolves.publicationTenant (hs.worker hk)]
      simp only [Option.filter, hx]
  ledger := by
    refine h.ledger.trans (List.filter_congr fun x hx => ?_)
    rw [evolves.publicationTenant (hs.tasks _ (hs.ledger x hx))]

/-- A ticket that the workspace does not have. -/
theorem dropTicket (h : Mirror w s t) {k : ℕ} {x : Option Ticket}
    (hx : x.filter (Ticket.mayActIn w) = none) : Mirror w (s.setTicket k x) (t.setTicket k none) := by
  have hmirror := h.setTicket k x
  rwa [hx] at hmirror

/-- A process of others that takes a ticket or goes on with one. -/
theorem otherTicket (h : Mirror w s t) {k : ℕ} {x : Option Ticket} (hk : t.tickets k = none)
    (hx : x.filter (Ticket.mayActIn w) = none) : Mirror w (s.setTicket k x) t := by
  have hmirror := h.dropTicket (k := k) hx
  have hsame : t.setTicket k none = t := by
    unfold Sys.setTicket
    rw [← hk, Function.update_eq_self]
  rwa [hsame] at hmirror

theorem dropWorker (h : Mirror w s t) {k : ℕ} {x : Option Worker}
    (hx : x.filter (Worker.worksFor s.store w) = none) :
    Mirror w (s.setWorker k x) (t.setWorker k none) := by
  have hmirror := h.setWorker k x
  rwa [hx] at hmirror

theorem otherWorker (h : Mirror w s t) {k : ℕ} {x : Option Worker} (hk : t.workers k = none)
    (hx : x.filter (Worker.worksFor s.store w) = none) : Mirror w (s.setWorker k x) t := by
  have hmirror := h.dropWorker (k := k) hx
  have hsame : t.setWorker k none = t := by
    unfold Sys.setWorker
    rw [← hk, Function.update_eq_self]
  rwa [hsame] at hmirror

theorem worksFor_of (hw : s.store.publicationTenant publication = some w) (phase : Phase) :
    (some ⟨publication, phase⟩ : Option Worker).filter (Worker.worksFor s.store w) =
      some ⟨publication, phase⟩ :=
  Option.filter_some_pos (decide_eq_true hw)

theorem not_worksFor_of (hw : s.store.publicationTenant publication ≠ some w) (phase : Phase) :
    (some ⟨publication, phase⟩ : Option Worker).filter (Worker.worksFor s.store w) = none :=
  Option.filter_some_neg (decide_eq_false hw)

/-- A worker of the workspace is there. -/
theorem worker (h : Mirror w s t) {k : ℕ} {phase : Phase} (hk : s.workers k = some ⟨publication, phase⟩)
    (hw : s.store.publicationTenant publication = some w) :
    t.workers k = some ⟨publication, phase⟩ := by
  rw [h.workers, hk, worksFor_of hw]

/-- A worker of others is not. -/
theorem no_worker (h : Mirror w s t) {k : ℕ} {phase : Phase}
    (hk : s.workers k = some ⟨publication, phase⟩)
    (hw : s.store.publicationTenant publication ≠ some w) : t.workers k = none := by
  rw [h.workers, hk, not_worksFor_of hw]

theorem goOn (h : Mirror w s t) (hw : s.store.publicationTenant publication = some w) (k : ℕ)
    (phase : Phase) : Mirror w (s.goOn k publication phase) (t.goOn k publication phase) := by
  have hmirror := h.setWorker k (some ⟨publication, phase⟩)
  rwa [worksFor_of hw] at hmirror

theorem otherGoesOn (h : Mirror w s t) {k : ℕ} (hk : t.workers k = none)
    (hw : s.store.publicationTenant publication ≠ some w) (phase : Phase) :
    Mirror w (s.goOn k publication phase) t :=
  h.otherWorker hk (not_worksFor_of hw phase)

/-- A request of a worker of the workspace is posted in both. -/
theorem posted (h : Mirror w s t) (hw : s.store.publicationTenant publication = some w)
    (visible : Bool) (q : MetaRequest) :
    Mirror w { s with ledger := if visible then s.ledger ++ [(publication, q)] else s.ledger }
      { t with ledger := if visible then t.ledger ++ [(publication, q)] else t.ledger } where
  store := h.store
  clock := h.clock
  tasks := h.tasks
  tickets := h.tickets
  workers := h.workers
  ledger := by
    dsimp only
    split
    · rw [List.filter_append, List.filter_cons, if_pos (decide_eq_true hw), h.ledger]
      rfl
    · exact h.ledger

/-- One of another worker does not show. -/
theorem otherPosted (h : Mirror w s t) (hw : s.store.publicationTenant publication ≠ some w)
    (visible : Bool) (q : MetaRequest) :
    Mirror w { s with ledger := if visible then s.ledger ++ [(publication, q)] else s.ledger } t where
  store := h.store
  clock := h.clock
  tasks := h.tasks
  tickets := h.tickets
  workers := h.workers
  ledger := by
    dsimp only
    split
    · rw [h.ledger, List.filter_append,
        show [(publication, q)].filter (fun x => s.store.publicationTenant x.1 = some w) = [] by
          simp [hw], List.append_nil]
    · exact h.ledger

end Mirror

/-! ### Steps and their mirrors -/

/-- What the workspace alone does when the system takes a step. -/
inductive Followed (env : Env) (publisher : Option Publisher) (w : Uuid) (s t : Sys) (l : Label)
    (o : Output) (s' : Sys) : Prop
  | same {r : Sys} (concerns : Concerns env w s (l, o)) (step : next env publisher t l = some (r, o))
      (mirror : Mirror w s' r)
  | hidden {r : Sys} {m : Label} {o' : Output} (other : ¬ Concerns env w s (l, o))
      (unseen : interacts (m, o') = false) (step : next env publisher t m = some (r, o'))
      (mirror : Mirror w s' r)
  | stays (other : ¬ Concerns env w s (l, o)) (mirror : Mirror w s' t)

section Follow

variable {env : Env} {publisher : Option Publisher} {w : Uuid} {s t s' : Sys} {k : ℕ} {o : Output}

/-- A view submits commands in the workspace of its principal. -/
theorem handle_tenant {now : Time} {p : RelayPrincipal} {store : Store} {r : ApiRequest} {c : Command}
    (h : handle env now p store r = .ok (.command c)) : c.tenant = some p.workspaceId := by
  have hadmitted := handle_admitted h
  cases hadmitted with
  | confirmMediaUpload =>
    cases r with
    | confirmUpload =>
      obtain ⟨tenant, htenant, h⟩ := bind_eq_ok.1 h
      obtain ⟨_, -, h⟩ := bind_eq_ok.1 h
      simp only [Except.ok.injEq, Admission.command.injEq, Command.confirmMediaUpload.injEq] at h
      exact congrArg some (h.2.1.symm.trans (getTenant_eq_ok htenant).2.1)
    | _ => simp [handle, bind_eq_ok] at h
  | revokeApproval => rfl
  | schedulePublication _ covers => exact congrArg some covers.workspace
  | createMediaUploadIntent covers => exact congrArg some covers.workspace
  | createPostDraft covers => exact congrArg some covers.workspace
  | approvePost covers => exact congrArg some covers.workspace
  | requestApproval covers => exact congrArg some covers.workspace
  | startMetaOAuth covers => exact congrArg some covers.workspace

/-- What a web process does with an admission, in the system and in its mirror. -/
theorem Mirror.admitted (h : Mirror w s t) {x : Except ApiError Admission}
    (hx : ∀ c, x = .ok (.command c) → c.mayActIn w = true) :
    (s.admitted k x).2 = (t.admitted k x).2 ∧ Mirror w (s.admitted k x).1 (t.admitted k x).1 := by
  match x with
  | .error e => exact ⟨rfl, h⟩
  | .ok (.answer r) => exact ⟨rfl, h⟩
  | .ok (.command c) =>
    have hmirror := h.setTicket k (some (.admitted c))
    rw [show (some (Ticket.admitted c)).filter (Ticket.mayActIn w) = some (.admitted c) from
      Option.filter_some_pos (hx c rfl)] at hmirror
    exact ⟨rfl, hmirror⟩

/-- The mirror of a free process is free. -/
theorem Mirror.free (h : Mirror w s t) (hk : s.tickets k = none) : t.tickets k = none := by
  rw [h.tickets, hk]
  rfl

/-- A process goes on with an admission that is the same in the mirror. -/
theorem Mirror.admits (h : Mirror w s t) {l : Label} {x : Except ApiError Admission}
    (concerns : Concerns env w s (l, o)) (hx : ∀ c, x = .ok (.command c) → c.mayActIn w = true)
    (hs : s.admitted k x = (s', o)) (ht : next env publisher t l = some (t.admitted k x)) :
    Followed env publisher w s t l o s' := by
  obtain ⟨hout, hmirror⟩ := h.admitted (k := k) hx
  rw [hs] at hout hmirror
  refine .same concerns (r := (t.admitted k x).1) ?_ hmirror
  rw [ht, show o = _ from hout]

theorem Mirror.receive (h : Mirror w s t) (hs : Reachable (relay env publisher) s)
    {credential : Credential} {request : ApiRequest}
    (hstep : next env publisher s (.receive k credential request) = some (s', o)) :
    Followed env publisher w s t (.receive k credential request) o s' := by
  simp only [next, Option.ite_none_left_eq_some, Option.some.injEq] at hstep
  obtain ⟨hfree, hstep⟩ := hstep
  have hfree : s.tickets k = none := by simpa using hfree
  by_cases hacts : s.ActsFor env w (.receive k credential request)
  · obtain ⟨p, hp, hw⟩ := hacts
    refine h.admits (k := k) ⟨⟨p, hp, hw⟩, id⟩ (fun c hc => ?_) hstep ?_
    · obtain ⟨⟨p', a⟩, ha, rfl⟩ := map_eq_ok.1 hc
      obtain ⟨hp', -, hhandle⟩ := admitRequest_eq_ok ha
      obtain rfl : p = p' := Except.ok.inj (hp.symm.trans hp')
      simp [Command.mayActIn, handle_tenant hhandle, hw]
    · simp only [next, h.free hfree, Option.isSome_none, Bool.false_eq_true, if_false]
      rw [h.store, h.clock, admitRequest_only (coherent_of_reachable hs) hp hw]
  · refine .stays (fun hc => hacts hc.1) ?_
    cases ha : admitRequest env s.clock credential request s.store with
    | error e =>
      rw [ha] at hstep
      cases hstep
      exact h
    | ok x =>
      obtain ⟨p, r | c⟩ := x <;> rw [ha] at hstep <;> cases hstep
      · exact h
      · obtain ⟨hp, -, hhandle⟩ := admitRequest_eq_ok ha
        refine h.otherTicket (h.free hfree) ?_
        have hne : p.workspaceId ≠ w := fun hw => hacts ⟨p, hp, hw⟩
        simp [Option.filter, Ticket.mayActIn, Command.mayActIn, handle_tenant hhandle, hne]

/-- The page of a link submits nothing. -/
theorem admitLink_answers {now : Time} {token : String} {store : Store} {c : Command} :
    admitPublic env now (.approvalLink token) store ≠ .ok (.command c) := by
  intro h
  rcases admitPublic_command h with ⟨_, _, _, _, rfl⟩ | ⟨_, rfl⟩ <;>
    (unfold admitPublic at h
     dsimp only at h
     split at h
     · cases h
     · obtain ⟨_, -, h⟩ := bind_eq_ok.1 h
       cases h)

theorem admitted_of_answers {x : Except ApiError Admission} (hx : ∀ c, x ≠ .ok (.command c)) :
    (s.admitted k x).1 = s := by
  match x with
  | .error e => rfl
  | .ok (.answer r) => rfl
  | .ok (.command c) => exact absurd rfl (hx c)

theorem Mirror.receivePublic (h : Mirror w s t) (hs : Reachable (relay env publisher) s)
    {request : PublicRequest} (hstep : next env publisher s (.receivePublic k request) = some (s', o)) :
    Followed env publisher w s t (.receivePublic k request) o s' := by
  simp only [next, Option.ite_none_left_eq_some, Option.some.injEq] at hstep
  obtain ⟨hfree, hstep⟩ := hstep
  have hfree : s.tickets k = none := by simpa using hfree
  have hnext : admitPublic env t.clock request t.store = admitPublic env s.clock request s.store →
      next env publisher t (.receivePublic k request) =
        some (t.admitted k (admitPublic env s.clock request s.store)) := fun hsame => by
    simp only [next, h.free hfree, Option.isSome_none, Bool.false_eq_true, if_false, hsame]
  have hcommand : ∀ c, admitPublic env s.clock request s.store = .ok (.command c) →
      c.mayActIn w = true := by
    intro c hc
    rcases admitPublic_command hc with ⟨_, _, _, _, rfl⟩ | ⟨_, rfl⟩ <;> rfl
  cases request with
  | approvalDecision token data =>
    exact h.admits (k := k) ⟨trivial, id⟩ hcommand hstep (hnext rfl)
  | metaOAuthCallback code state =>
    exact h.admits (k := k) ⟨trivial, id⟩ hcommand hstep (hnext rfl)
  | approvalLink token =>
    by_cases hacts : s.ActsFor env w (.receivePublic k (.approvalLink token))
    · obtain ⟨request, hfound, hw⟩ := Option.bind_eq_some_iff.1 hacts
      refine h.admits (k := k) ⟨hacts, id⟩ hcommand hstep (hnext ?_)
      rw [h.store, h.clock, admitLink_only (coherent_of_reachable hs) hfound hw]
    · refine .stays (fun hc => hacts hc.1) ?_
      have hsame : (s.admitted k (admitPublic env s.clock (.approvalLink token) s.store)).1 = s :=
        admitted_of_answers fun c => admitLink_answers
      rw [hstep] at hsame
      exact (show s' = s from hsame) ▸ h

/-- The ticket after a transaction is of the workspace of the command. -/
theorem Effect.ticket_filter {x : World} {c : Command} {r : Reply} {store store' : Store}
    (hconstrained : Constrained store) (effect : Effect env x c r store store') :
    r.ticket.filter (Ticket.mayActIn w) = if c.workspace env store = some w then r.ticket else none := by
  cases effect with
  | @oauthConsumed rawState _ row mem digest =>
    have hfound : store.oauthStates.find? (fun o => o.stateDigest = env.sha256 rawState) = some row :=
      hconstrained.oauthStates.find? (fun o => by rw [decide_eq_true_eq, digest]) mem
    have hworkspace : (Command.consumeOAuthState rawState).workspace env store = some row.tenant := by
      change (store.oauthStates.find? _).map (·.tenant) = _
      rw [hfound]
      rfl
    have htenant : (row.use x.now).tenant = row.tenant := rfl
    rw [hworkspace]
    by_cases hw : row.tenant = w <;> simp [Reply.ticket, Option.filter, Ticket.mayActIn, hw, htenant]
  | _ => simp [Reply.ticket]

theorem Command.mayActIn_of_workspace {c : Command} {store : Store}
    (h : c.workspace env store = some w) : c.mayActIn w = true := by
  cases c <;> simp_all [Command.mayActIn, Command.tenant, Command.workspace]

theorem Mirror.commit (h : Mirror w s t) (hs : Reachable (relay env publisher) s) {draws : Draws}
    (hstep : next env publisher s (.commit k draws) = some (s', o)) :
    Followed env publisher w s t (.commit k draws) o s' := by
  obtain ⟨c, hticket, hrun⟩ := next_commit hstep
  have hcoherent := coherent_of_reachable hs
  have hconstrained := constrained_of_reachable hs
  have hsound : Sound s.store c := (soundSys_of_reachable hs).tickets k _ hticket
  have hevolves := (next_step hstep).evolves
  have hafter : Coherent s'.store := coherent_of_reachable (hs.step (e := (_, o)) hstep)
  by_cases hacts : c.workspace env s.store = some w
  · have hseen := runCommand_only (x := ⟨draws, s.clock⟩) (rooted_of_reachable hs) hcoherent hsound hacts
    have hown : t.tickets k = some (.admitted c) := by
      rw [h.tickets, hticket]
      exact Option.filter_some_pos (Command.mayActIn_of_workspace hacts)
    have hnext : next env publisher t (.commit k draws) = some (t.commit env k draws c) := by
      simp only [next, hown]
    rw [Sys.commit, show runCommand env ⟨draws, t.clock⟩ c t.store =
      runCommand env ⟨draws, s.clock⟩ c (s.store.only w) by rw [h.clock, h.store]] at hnext
    rcases hrun with ⟨e, hrun, rfl, rfl⟩ | ⟨r, store, hrun, rfl, rfl⟩
    · rw [hrun] at hseen
      by_cases hlost : s.Collides env w (.commit k draws, .refused c e)
      · exact .hidden (m := .abandon k) (fun hc => hc.2 hlost) rfl rfl (h.setTicket k none)
      · have hsame := Or.resolve_left hseen hlost
        rw [hsame] at hnext
        exact .same ⟨⟨c, hticket, hacts⟩, hlost⟩ hnext (h.setTicket k none)
    · rw [hrun] at hseen
      have hsame : runCommand env ⟨draws, s.clock⟩ c (s.store.only w) = .ok (r, store.only w) := hseen
      have heffect := runCommand_effect hrun
      have hafter : Coherent store := hafter
      rw [hsame] at hnext
      dsimp only at hnext
      rw [respond_only hcoherent hafter hacts heffect] at hnext
      have hmirror := (h.moved (tasked_of_reachable hs) hevolves rfl).setTicket k r.ticket
      rw [heffect.ticket_filter hconstrained, if_pos hacts] at hmirror
      exact .same ⟨⟨c, hticket, hacts⟩, id⟩ hnext hmirror
  · have hother : ¬ Concerns env w s (.commit k draws, o) := by
      rintro ⟨⟨c', hc', hw⟩, -⟩
      rw [hticket] at hc'
      cases hc'
      exact hacts hw
    rcases hrun with ⟨e, hrun, rfl, rfl⟩ | ⟨r, store, hrun, rfl, rfl⟩
    · exact .hidden (m := .abandon k) hother rfl rfl (h.setTicket k none)
    · have honly := runCommand_other (rooted_of_reachable hs) hcoherent hconstrained hacts hrun
      have hmirror := h.moved (tasked_of_reachable hs) hevolves (honly.trans h.store.symm)
      refine .hidden (m := .abandon k) hother rfl rfl (hmirror.dropTicket ?_)
      rw [(runCommand_effect hrun).ticket_filter hconstrained, if_neg hacts]

theorem Mirror.identify (h : Mirror w s t) {token : MetaToken} {identity : MetaIdentity}
    (hstep : next env publisher s (.identify k token identity) = some (s', o)) :
    Followed env publisher w s t (.identify k token identity) o s' := by
  simp only [next] at hstep
  split at hstep
  · rename_i state hticket
    cases hstep
    by_cases hw : state.tenant = w
    · have hown : t.tickets k = some (.connecting state) := by
        rw [h.tickets, hticket]
        exact Option.filter_some_pos (decide_eq_true hw)
      have hmirror := h.setTicket k (some (.admitted
        (.persistMetaConnections state.tenant state.brand state.subject token identity)))
      rw [show (some (Ticket.admitted (.persistMetaConnections state.tenant state.brand state.subject
          token identity))).filter (Ticket.mayActIn w) = _ from
        Option.filter_some_pos (decide_eq_true hw)] at hmirror
      exact .same ⟨⟨state, hticket, hw⟩, id⟩ (by simp only [next, hown]) hmirror
    · have hfree : t.tickets k = none := by
        rw [h.tickets, hticket]
        exact Option.filter_some_neg (decide_eq_false hw)
      refine .stays ?_ (h.otherTicket hfree (Option.filter_some_neg (decide_eq_false hw)))
      rintro ⟨⟨state', hticket', hw'⟩, -⟩
      rw [hticket] at hticket'
      cases hticket'
      exact hw hw'
  · cases hstep

theorem Mirror.start (h : Mirror w s t) {publication : Uuid}
    (hstep : next env publisher s (.start k publication) = some (s', o)) :
    Followed env publisher w s t (.start k publication) o s' := by
  simp only [next, Option.ite_none_right_eq_some, Option.some.injEq] at hstep
  obtain ⟨⟨htask, hidle⟩, hstep⟩ := hstep
  cases hstep
  have hidle : t.workers k = none := by
    rw [h.workers, Option.isNone_iff_eq_none.1 hidle]
    rfl
  by_cases hw : s.store.publicationTenant publication = some w
  · refine .same ⟨hw, id⟩ ?_ (h.goOn hw k _)
    simp only [next, hidle, Option.isNone_none, h.tasks publication htask hw, and_self, if_true, h.clock]
  · exact .stays (fun hc => hw hc.1) (h.otherGoesOn hidle hw _)

/-- A step of a worker of another workspace concerns nobody else. -/
theorem not_worksFor {publication : Uuid} {phase : Phase} (hk : s.workers k = some ⟨publication, phase⟩)
    (hw : s.store.publicationTenant publication ≠ some w) : ¬ s.WorksFor w k := by
  rintro ⟨x, hx, htenant⟩
  rw [hk] at hx
  cases hx
  exact hw htenant

theorem Claimed.tenant {started now : Time} {attempt : Uuid} {claim : Claim} {store store' : Store}
    (h : Claimed started now attempt claim store store') :
    store.publicationTenant claim.publication.id = some claim.publication.tenant := by
  cases h with
  | claimed mem =>
    have hrow := publicationTenant_key mem
    exact hrow

theorem Mirror.claim (h : Mirror w s t) (hs : Reachable (relay env publisher) s) {attempt : Uuid}
    (hstep : next env publisher s (.claim k attempt) = some (s', o)) :
    Followed env publisher w s t (.claim k attempt) o s' := by
  have hsys := next_step hstep
  have hevolves := hsys.evolves
  simp only [next] at hstep
  split at hstep
  · rename_i publication started hworker
    have hstep := Option.some.inj hstep
    by_cases hw : s.store.publicationTenant publication = some w
    · have hseen : SeenBy w
            (s.store.attempts.Outside (fun a => s.store.publicationTenant a.publication = some w) attempt)
          (claimPublication started s.clock attempt publication s.store)
          (claimPublication started s.clock attempt publication (s.store.only w)) :=
        claimPublication_only (coherent_of_reachable hs) hw
      have hnext : next env publisher t (.claim k attempt) =
          some (t.claim k publication started attempt) := by
        simp only [next, h.worker hworker hw]
      rw [Sys.claim, show claimPublication started t.clock attempt publication t.store =
        claimPublication started s.clock attempt publication (s.store.only w) by
          rw [h.clock, h.store]] at hnext
      have hacts : s.ActsFor env w (.claim k attempt) := ⟨_, hworker, hw⟩
      unfold Sys.claim at hstep
      split at hstep
      · rename_i e hclaim
        cases hstep
        rw [hclaim] at hseen
        by_cases hlost : s.Collides env w (.claim k attempt, .raised publication e)
        · exact .hidden (m := .kill k) (fun hc => hc.2 hlost) rfl rfl (h.setWorker k none)
        · have hsame := Or.resolve_left hseen hlost
          rw [hsame] at hnext
          exact .same ⟨hacts, hlost⟩ hnext (h.setWorker k none)
      · rename_i store hclaim
        cases hstep
        rw [hclaim] at hseen
        have hsame : claimPublication started s.clock attempt publication (s.store.only w) =
          .ok (none, store.only w) := hseen
        rw [hsame] at hnext
        exact .same ⟨hacts, id⟩ hnext
          ((h.moved (tasked_of_reachable hs) hevolves rfl).setWorker k none)
      · rename_i claim store hclaim
        cases hstep
        rw [hclaim] at hseen
        have hsame : claimPublication started s.clock attempt publication (s.store.only w) =
          .ok (some claim, store.only w) := hseen
        rw [hsame] at hnext
        have hwithin := (h.moved (tasked_of_reachable hs) hevolves rfl)
        refine .same ⟨hacts, id⟩ hnext (hwithin.goOn ?_ k _)
        exact (hevolves.publicationTenant ((tasked_of_reachable hs).worker hworker)).trans hw
    · have hfree := h.no_worker hworker hw
      refine .stays (fun hc => not_worksFor hworker hw hc.1) ?_
      have hpublication := (tasked_of_reachable hs).worker hworker
      cases hsys with
      | claimRaised => exact h.otherWorker hfree rfl
      | claimMissed => exact h.otherWorker hfree rfl
      | @claimed _ publication' _ _ claim store worker id claimed =>
        rw [hworker] at worker
        cases worker
        have htenant : claim.publication.tenant ≠ w := by
          intro he
          have hview := claimed.tenant
          rw [id, he] at hview
          exact hw hview
        refine (h.moved (tasked_of_reachable hs) hevolves
          ((claimed.other htenant).trans h.store.symm)).otherGoesOn hfree ?_ _
        exact (hevolves.publicationTenant hpublication).trans_ne hw
  · cases hstep

/-- The rows a worker of the workspace holds are the workspace's. -/
theorem held_of_worksFor (hs : Reachable (relay env publisher) s) {publication : Uuid} {claim : Claim}
    {phase : Phase} (hk : s.workers k = some ⟨publication, phase⟩) (hclaim : phase.claim? = some claim) :
    Held s.store claim ∧ s.store.publicationTenant publication = some claim.publication.tenant := by
  obtain ⟨hid, hheld⟩ := (delivering_of_reachable hs).held k publication claim ⟨phase, hk, hclaim⟩
  exact ⟨hheld, hid ▸ publicationTenant_key hheld.publication⟩

/-- A worker of the workspace publishes the same images. -/
theorem held_media (hs : Reachable (relay env publisher) s) {publication : Uuid} {claim : Claim}
    {phase : Phase} (hk : s.workers k = some ⟨publication, phase⟩) (hclaim : phase.claim? = some claim)
    (hw : s.store.publicationTenant publication = some w) :
    orderedMediaAssets (s.store.only w) claim.postVariant = orderedMediaAssets s.store claim.postVariant := by
  obtain ⟨hheld, htenant⟩ := held_of_worksFor hs hk hclaim
  obtain ⟨hv, hid⟩ := holds_postVariant hs ⟨phase, hk, hclaim⟩
  have hcoherent := coherent_of_reachable hs
  obtain ⟨-, -, hpost⟩ := publication_rows hcoherent hheld.publication
    (Option.some.inj (htenant.symm.trans hw))
  exact orderedMediaAssets_only hcoherent hv (hpost _ hv hid)

theorem Mirror.prepare (h : Mirror w s t) (hs : Reachable (relay env publisher) s) {signer : Signer}
    (hstep : next env publisher s (.prepare k signer) = some (s', o)) :
    Followed env publisher w s t (.prepare k signer) o s' := by
  simp only [next] at hstep
  split at hstep
  · rename_i publication claim hworker
    have hstep := Option.some.inj hstep
    by_cases hw : s.store.publicationTenant publication = some w
    · have hnext : next env publisher t (.prepare k signer) =
          some (t.prepare env publisher k publication claim signer) := by
        simp only [next, h.worker hworker hw]
      simp only [Sys.prepare, h.store, held_media hs hworker rfl hw] at hnext
      simp only [Sys.prepare] at hstep
      have hacts : s.ActsFor env w (.prepare k signer) := ⟨_, hworker, hw⟩
      split at hstep <;> rename_i harguments <;> cases hstep <;> rw [harguments] at hnext
      · exact .same ⟨hacts, id⟩ hnext (h.goOn hw k _)
      · exact .same ⟨hacts, id⟩ hnext (h.goOn hw k _)
    · refine .stays (fun hc => not_worksFor hworker hw hc.1) ?_
      have hfree := h.no_worker hworker hw
      simp only [Sys.prepare] at hstep
      split at hstep <;> cases hstep
      · exact h.otherGoesOn hfree hw _
      · exact h.otherGoesOn hfree hw _
  · cases hstep

theorem Mirror.exchange (h : Mirror w s t) {act : MetaAct}
    (hstep : next env publisher s (.exchange k act) = some (s', o)) :
    Followed env publisher w s t (.exchange k act) o s' := by
  simp only [next] at hstep
  split at hstep
  · rename_i publication claim q rest hworker
    cases hstep
    by_cases hw : s.store.publicationTenant publication = some w
    · refine .same ⟨⟨_, hworker, hw⟩, id⟩ ?_ ((h.posted hw (act.applied && q.visible) q).goOn hw k _)
      simp only [next, h.worker hworker hw]
      rfl
    · refine .stays (fun hc => not_worksFor hworker hw hc.1) ?_
      exact (h.otherPosted hw (act.applied && q.visible) q).otherGoesOn (h.no_worker hworker hw) hw _
  · cases hstep

theorem Mirror.finish (h : Mirror w s t) (hs : Reachable (relay env publisher) s)
    (hstep : next env publisher s (.finish k) = some (s', o)) :
    Followed env publisher w s t (.finish k) o s' := by
  have hsys := next_step hstep
  have hevolves := hsys.evolves
  simp only [next] at hstep
  split at hstep
  · rename_i publication claim result hworker
    have hstep := Option.some.inj hstep
    obtain ⟨hheld, htenant⟩ := held_of_worksFor hs hworker rfl
    by_cases hw : s.store.publicationTenant publication = some w
    · have hseen : SeenBy w False (Relay.finish env s.clock claim result s.store)
          (Relay.finish env s.clock claim result (s.store.only w)) :=
        finish_only hheld (Option.some.inj (htenant.symm.trans hw))
      have hnext : next env publisher t (.finish k) = some (t.finish env k publication claim result) := by
        simp only [next, h.worker hworker hw]
      rw [Sys.finish, show Relay.finish env t.clock claim result t.store =
        Relay.finish env s.clock claim result (s.store.only w) by rw [h.clock, h.store]] at hnext
      have hacts : s.ActsFor env w (.finish k) := ⟨_, hworker, hw⟩
      unfold Sys.finish at hstep
      split at hstep
      · rename_i e hfinish
        cases hstep
        rw [hfinish] at hseen
        have hsame := Or.resolve_left hseen And.right
        rw [hsame] at hnext
        exact .same ⟨hacts, id⟩ hnext (h.setWorker k none)
      · rename_i answer store hfinish
        cases hstep
        rw [hfinish] at hseen
        have hsame : Relay.finish env s.clock claim result (s.store.only w) =
          .ok (answer, store.only w) := hseen
        rw [hsame] at hnext
        exact .same ⟨hacts, id⟩ hnext
          ((h.moved (tasked_of_reachable hs) hevolves rfl).setWorker k none)
    · have hfree := h.no_worker hworker hw
      have hother : claim.publication.tenant ≠ w := fun he => hw (he ▸ htenant)
      refine .stays (fun hc => not_worksFor hworker hw hc.1) ?_
      cases hsys with
      | finishRaised => exact h.otherWorker hfree rfl
      | finished worker finished =>
        rw [hworker] at worker
        cases worker
        exact (h.moved (tasked_of_reachable hs) hevolves
          ((finished.other hheld hother).trans h.store.symm)).otherWorker hfree rfl
  · cases hstep

/-- A publication of the workspace that is sent among those of all is sent among its own. -/
theorem dispatched_only {now : Time} {store : Store} {q : Uuid}
    (hq : q ∈ dispatchDuePublications now store) (hw : store.publicationTenant q = some w) :
    q ∈ dispatchDuePublications now (store.only w) := by
  obtain ⟨p, hp, rfl⟩ := List.mem_map.1 hq
  have hmem := (Table.mem_where.1 (mem_orderBy.1 (List.mem_of_mem_take hp))).1
  have htenant : p.tenant = w := by
    rw [publicationTenant_key hmem] at hw
    exact Option.some.inj hw
  have hown := (filter_take_isPrefix (fun p : Publication => decide (p.tenant = w)) 100 _).subset
    (List.mem_filter.2 ⟨hp, decide_eq_true htenant⟩)
  rw [filter_orderBy (fun a b => by simpa using le_total a.scheduledFor b.scheduledFor)
    (fun a b c hab hbc => by simp only [decide_eq_true_eq] at *; exact hab.trans hbc)] at hown
  refine List.mem_map.2 ⟨p, ?_, rfl⟩
  have hrows : (store.only w).publications.where (·.due now) =
      (store.publications.where (·.due now)).filter fun p => p.tenant = w := List.filter_comm ..
  rwa [hrows]

/-- **Whatever the system does, the workspace alone follows it.** -/
theorem Mirror.follow (h : Mirror w s t) (hs : Reachable (relay env publisher) s) {l : Label}
    (hstep : next env publisher s l = some (s', o)) : Followed env publisher w s t l o s' := by
  cases l with
  | receive => exact h.receive hs hstep
  | receivePublic => exact h.receivePublic hs hstep
  | commit => exact h.commit hs hstep
  | identify => exact h.identify hstep
  | start => exact h.start hstep
  | claim => exact h.claim hs hstep
  | prepare => exact h.prepare hs hstep
  | exchange => exact h.exchange hstep
  | finish => exact h.finish hs hstep
  | abandon k =>
    cases hstep
    exact .hidden (m := .abandon k) (fun hc => hc.1) rfl rfl (h.setTicket k none)
  | kill k =>
    cases hstep
    exact .hidden (m := .kill k) (fun hc => hc.1) rfl rfl (h.setWorker k none)
  | advance duration =>
    cases hstep
    refine .hidden (m := .advance duration) (fun hc => hc.1) rfl rfl ⟨h.store, ?_, h.tasks, h.tickets,
      h.workers, h.ledger⟩
    exact congrArg (· + (duration : ℤ)) h.clock
  | dispatch =>
    cases hstep
    refine .hidden (m := .dispatch) (fun hc => hc.1) rfl rfl ⟨h.store, h.clock, ?_, h.tickets, h.workers,
      h.ledger⟩
    intro q hq hw
    rcases List.mem_append.1 hq with hq | hq
    · exact List.mem_append_left _ (h.tasks q hq hw)
    · refine List.mem_append_right _ ?_
      rw [h.store, h.clock]
      exact dispatched_only hq hw

end Follow

/-! ### Runs -/

/-- The system that holds one workspace and no other. -/
def Sys.only (s : Sys) (w : Uuid) : Sys := { s with store := s.store.only w }

theorem Sys.only_initial (tenants : Table Tenant) (brands : Table Brand) (memberships : Table Membership)
    (clock : Time) (w : Uuid) : (Sys.initial tenants brands memberships clock).only w =
      .initial (tenants.restrict fun t => t.id = w) (brands.restrict fun b => b.workspace = w)
        (memberships.restrict fun m => m.workspace = w) clock := rfl

theorem Mirror.initial {env : Env} {publisher : Option Publisher} {s : Sys}
    (h : (relay env publisher).start s) (w : Uuid) :
    (relay env publisher).start (s.only w) ∧ Mirror w s (s.only w) := by
  obtain ⟨tenants, brands, memberships, clock, rfl⟩ := h
  rw [Sys.only_initial]
  exact ⟨⟨_, _, _, _, rfl⟩, ⟨rfl, rfl, fun _ hq _ => hq, fun _ => rfl, fun _ => rfl, rfl⟩⟩

/-- **Every workspace runs as if it were alone.**  Of the events `es` of a run, `cs` are those in
which the workspace has a part; the system that holds the rows of the workspace and no others has a
run whose events are exactly these, outputs included, but for the clock, the dispatcher and
processes that stop, and which leaves the part of the workspace of what the whole system leaves. -/
theorem runs_alone {env : Env} {publisher : Option Publisher} {s₀ s : Sys} {es : List (Label × Output)}
    (start : (relay env publisher).start s₀) (run : Trail (relay env publisher) s₀ es s) (w : Uuid) :
    (relay env publisher).start (s₀.only w) ∧
      ∃ cs fs t, Picks (relay env publisher) (Concerns env w) s₀ es cs s ∧
        Trail (relay env publisher) (s₀.only w) fs t ∧ fs.filter interacts = cs ∧ Mirror w s t := by
  obtain ⟨hstart, hmirror⟩ := Mirror.initial start w
  obtain ⟨cs, hpicks⟩ := run.exists_picks (Concerns env w)
  have visible : ∀ (s : Sys) (e : Label × Output), Concerns env w s e → interacts e = true := by
    rintro s ⟨l, o⟩ ⟨hacts, -⟩
    cases l <;> first | rfl | exact hacts.elim
  have take : ∀ s e s' t, Reachable (relay env publisher) s → Mirror w s t → Concerns env w s e →
      (relay env publisher).step s e s' → ∃ t', (relay env publisher).step t e t' ∧ Mirror w s' t' := by
    intro s ⟨l, o⟩ s' t hs hR concerns hstep
    cases hR.follow hs hstep with
    | same _ step mirror => exact ⟨_, step, mirror⟩
    | hidden other => exact absurd concerns other
    | stays other => exact absurd concerns other
  have skip : ∀ s e s' t, Reachable (relay env publisher) s → Mirror w s t → ¬ Concerns env w s e →
      (relay env publisher).step s e s' → ∃ fs t', Trail (relay env publisher) t fs t' ∧
        (∀ f ∈ fs, interacts f = false) ∧ Mirror w s' t' := by
    intro s ⟨l, o⟩ s' t hs hR other hstep
    cases hR.follow hs hstep with
    | same concerns => exact absurd concerns other
    | @hidden t' l' o' _ unseen step mirror =>
      exact ⟨[(l', o')], t', .single (M := relay env publisher) step, by simpa using unseen, mirror⟩
    | stays _ mirror => exact ⟨[], t, .stay t, by simp, mirror⟩
  obtain ⟨fs, t, tr, hfs, hmirror⟩ := hpicks.simulate visible take skip (.of_start start) hmirror
  exact ⟨hstart, cs, fs, t, hpicks, tr, hfs, hmirror⟩

namespace Sample

/-! ### Two workspaces -/

/-- A workspace beside the other, with the user 2 as its owner. -/
def neighbour : Uuid := .ofNat 101

def shared : Sys :=
  .initial ((start.store.tenants.insert? ⟨neighbour, "Neighbour", true⟩).getD ∅)
    ((start.store.brands.insert? ⟨.ofNat 102, neighbour, "Other", "UTC", true⟩).getD ∅)
    ((start.store.memberships.insert? ⟨.ofNat 103, neighbour, panelSubject 2, .owner, true⟩).getD ∅) 0

/-- Both draft a post, one while the other's waits. -/
def together : List Label :=
  [.receive 0 (.panel 1 none) (.createPost (some "k") ⟨brand, none, "Hello", none⟩),
    .receive 1 (.panel 2 none) (.createPost (some "k") ⟨.ofNat 102, none, "Hello", none⟩),
    .commit 1 (draws 110), .commit 0 (draws 20)]

end Sample

/-- Two workspaces draft a post each; alone, each has one. -/
theorem runs_alone_sample : ∃ es s, Trail (relay Sample.env none) Sample.shared es s ∧
    s.store.posts.rows.length = 2 ∧
    (relay Sample.env none).start (Sample.shared.only Sample.workspace) ∧
    ∃ cs fs t, Picks (relay Sample.env none) (Concerns Sample.env Sample.workspace) Sample.shared es cs s ∧
      Trail (relay Sample.env none) (Sample.shared.only Sample.workspace) fs t ∧
      fs.filter interacts = cs ∧ Mirror Sample.workspace s t ∧ t.store.posts.rows.length = 1 := by
  obtain ⟨es, s, run, hp⟩ := exists_of_execute (show ((execute Sample.env none Sample.together
    Sample.shared).any fun x => x.2.store.posts.rows.length = 2 &&
      (x.2.store.only Sample.workspace).posts.rows.length = 1) = true by decide +kernel)
  simp only [Bool.and_eq_true, decide_eq_true_eq] at hp
  obtain ⟨hstart, cs, fs, t, hpicks, tr, hfs, hmirror⟩ :=
    runs_alone ⟨_, _, _, _, rfl⟩ run Sample.workspace
  exact ⟨es, s, run, hp.1, hstart, cs, fs, t, hpicks, tr, hfs, hmirror, by rw [hmirror.store]; exact hp.2⟩

end Relay
