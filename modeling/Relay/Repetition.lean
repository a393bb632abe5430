import Relay.Coherence
import Relay.Constraints
import Relay.Deactivation

/-!
# Repeating a publication request

A POST that has created a publication is sent once more, after anything may have happened, also to
its connection.  The look-up of the idempotency key would answer it, but the body is validated first.

* `createPublication_eq_ok`: what a POST leads to;
* `Repeats`: the POST is answered with the publication and changes nothing;
* `repeats_iff`: so it is exactly while the scheduled time is in the future.
-/

namespace Relay

open Relational Transition

/-! ### The call of a POST -/

section Calls

variable {env : Env} {now : Time} {p : RelayPrincipal} {s : Store} {key : Option String}
  {data : PublicationCreateData} {call : ScheduleCall}

/-- What the view has checked, and the call it makes of it. -/
structure Called (env : Env) (now : Time) (p : RelayPrincipal) (s : Store) (key : Option String)
    (data : PublicationCreateData) (call : ScheduleCall) : Prop where
  header : idempotencyHeader key = .ok call.idempotencyKey
  future : now < data.scheduledFor
  tenant : ∃ t, getTenant p s = .ok t ∧ t.id = call.tenant
  brand : ∃ b, getBrand p call.post.brand.text s = .ok b ∧ b.id = call.brand
  loaded : Loaded s call
  postOwner : call.post.tenant = call.tenant ∧ call.post.brand = call.brand
  accountOwner : call.socialAccount.tenant = call.tenant ∧ call.socialAccount.brand = call.brand
  variantId : call.postVariant.id = data.postVariantId
  connectionId : call.channelConnection.id = data.channelConnectionId
  scheduledFor : call.scheduledFor = data.scheduledFor

theorem createPublication_eq_ok
    (h : handle env now p s (.createPublication key data) = .ok (.command (.schedulePublication call))) :
    Called env now p s key data call := by
  obtain ⟨header, hheader, h⟩ := bind_eq_ok.1 h
  obtain ⟨data', hdata, h⟩ := bind_eq_ok.1 h
  unfold PublicationCreateData.validate at hdata
  split at hdata
  · cases hdata
  rename_i hfuture
  cases hdata
  obtain ⟨tenant, htenant, h⟩ := bind_eq_ok.1 h
  obtain ⟨⟨variant, post⟩, hvariant, h⟩ := bind_eq_ok.1 h
  obtain ⟨⟨connection, account⟩, hconnection, h⟩ := bind_eq_ok.1 h
  obtain ⟨brand, hbrand, h⟩ := bind_eq_ok.1 h
  cases h
  obtain ⟨hv, hvid, hp, hpid, hptenant, -⟩ := visibleVariant_eq_ok hvariant
  obtain ⟨hc, hcid, ha, haid, hatenant, habrand⟩ := brandConnection_eq_ok hconnection
  have hid := (getBrand_eq_ok hbrand).1
  exact
    { header := hheader
      future := not_le.1 hfuture
      tenant := ⟨tenant, htenant, rfl⟩
      brand := ⟨brand, hbrand, rfl⟩
      loaded := ⟨hv, hp, hpid, hc, ha, haid⟩
      postOwner := ⟨hptenant, hid.symm⟩
      accountOwner := ⟨hatenant, habrand.trans hid.symm⟩
      variantId := hvid
      connectionId := hcid
      scheduledFor := rfl }

/-- The same POST later, by a principal of the same workspace that has the brand: the rows live on,
and the call differs in what they have become. -/
theorem Called.again {s' : Store} {p' : RelayPrincipal} {now' : Time}
    (h : Called env now p s key data call) (hs : Evolves s s')
    (hworkspace : p'.workspaceId = p.workspaceId) (hbrand : call.brand ∈ p'.brandIds)
    (hfuture : now' < data.scheduledFor) :
    ∃ call', handle env now' p' s' (.createPublication key data) =
        .ok (.command (.schedulePublication call')) ∧ call'.tenant = call.tenant ∧
      call'.idempotencyKey = call.idempotencyKey ∧ call'.payload = call.payload := by
  obtain ⟨tenant, htenant, htid⟩ := h.tenant
  obtain ⟨brand, hb, hbid⟩ := h.brand
  obtain ⟨_, hv, rfl⟩ := hs.variants _ h.loaded.postVariant
  obtain ⟨post, hp, hpost⟩ := hs.posts _ h.loaded.post
  obtain ⟨connection, hc, hconnection⟩ := hs.connections _ h.loaded.channelConnection
  obtain ⟨account, ha, haccount⟩ := hs.accounts _ h.loaded.socialAccount
  -- what the rows keep
  obtain ⟨hpid, hptenant, hpbrand⟩ : post.id = call.post.id ∧ post.tenant = call.post.tenant ∧
      post.brand = call.post.brand := by
    obtain ⟨_, _, rfl, -⟩ := hpost
    exact ⟨rfl, rfl, rfl⟩
  obtain ⟨hcid, hcaccount⟩ : connection.id = call.channelConnection.id ∧
      connection.socialAccount = call.channelConnection.socialAccount := by
    obtain ⟨_, _, _, _, _, _, rfl⟩ := hconnection
    exact ⟨rfl, rfl⟩
  obtain ⟨haid, hatenant, habrand⟩ : account.id = call.socialAccount.id ∧
      account.tenant = call.socialAccount.tenant ∧ account.brand = call.socialAccount.brand := by
    obtain ⟨_, _, rfl⟩ := haccount
    exact ⟨rfl, rfl, rfl⟩
  have hbrands : account.brand = post.brand := by
    rw [habrand, h.accountOwner.2, hpbrand, h.postOwner.2]
  have hmem : post.brand ∈ p'.brandIds := by
    rw [hpbrand, h.postOwner.2]
    exact hbrand
  -- the checks of the view, in its order
  have htenant' : getTenant p' s' = .ok tenant := (getTenant_same hs.tenants hworkspace).trans htenant
  have hvariant : visibleVariant p' tenant data.postVariantId s' = .ok (call.postVariant, post) := by
    rw [← h.variantId]
    refine visibleVariant_of hv hp (hpid.trans h.loaded.postOf) ?_ hmem
    rw [hptenant, h.postOwner.1, htid]
  have hconnection' : brandConnection tenant post.brand data.channelConnectionId s' =
      .ok (connection, account) := by
    rw [← h.connectionId, ← hcid, ← hbrands]
    refine brandConnection_of hc ha ?_ ?_
    · rw [haid, hcaccount, h.loaded.accountOf]
    · rw [hatenant, h.accountOwner.1, htid]
  have hbrand' : getBrand p' post.brand.text s' = .ok brand := by
    refine getBrand_same hs.tenants hs.brands hworkspace hmem ?_
    rw [hpbrand]
    exact hb
  refine ⟨_, createPublication_of _ _ _ h.header hfuture htenant' hvariant hconnection' hbrand', htid, rfl,
    ?_⟩
  simp only [ScheduleCall.payload, hcid, h.scheduledFor]

/-- Without a future time the body is refused before anything is looked up. -/
theorem createPublication_past {idempotencyKey : String}
    (header : idempotencyHeader key = .ok idempotencyKey) (past : data.scheduledFor ≤ now) :
    handle env now p s (.createPublication key data) =
      .error (.validation "scheduled_for" "The scheduled time must be in the future.") := by
  have hinvalid : data.validate now =
      .error (.validation "scheduled_for" "The scheduled time must be in the future.") := if_pos past
  simp only [handle, header, hinvalid]
  rfl

end Calls

/-! ### Between the checks and the transaction -/

/-- The web process of a label. -/
def Label.ticket : Label → Option ℕ
  | .receive k _ _ => some k
  | .receivePublic k _ => some k
  | .commit k _ => some k
  | .identify k _ _ => some k
  | .abandon k => some k
  | _ => none

def ManagedLabel.ticket : ManagedLabel → Option ℕ
  | .sys l => l.ticket
  | _ => none

section Waiting

variable {env : Env} {publisher : Option Publisher} {slugs : Slugs} {k : ℕ}

/-- A web process keeps its ticket while it does nothing. -/
theorem SysStep.ticket_kept {s s' : Sys} {l : Label} {o : Output} (h : SysStep env publisher s l s' o)
    (idle : l.ticket ≠ some k) : s'.tickets k = s.tickets k := by
  have hset : ∀ {t : Sys} {k' : ℕ} {x : Option Ticket}, some k' ≠ some k →
      (t.setTicket k' x).tickets k = t.tickets k := fun hne => by
    unfold Sys.setTicket
    dsimp only
    rw [Function.update_of_ne fun he => hne (congrArg some he.symm)]
  cases h with
  | admitted => exact hset idle
  | admittedPublic => exact hset idle
  | refused => exact hset idle
  | committed => exact hset idle
  | identified => exact hset idle
  | abandoned => exact hset idle
  | _ => rfl

/-- So it does while others act, administrators among them. -/
theorem Waiting.ticket {m m' : Managed} {es : List (ManagedLabel × ManagedOutput)}
    (h : Trail ((managed env publisher slugs).guarded fun _ e => e.1.ticket ≠ some k) m es m') :
    m'.sys.tickets k = m.sys.tickets k := by
  induction h with
  | stay => rfl
  | @move _ _ _ e _ head _ ih =>
    obtain ⟨l, o⟩ := e
    refine ih.trans ?_
    cases managedNext_step head.2 with
    | sys step => exact (next_step step).ticket_kept head.1
    | _ => rfl

/-- What waits in a web process after it has checked a request is the command of that request. -/
theorem receive_ticket {s t : Sys} {credential : Credential} {request : ApiRequest} {o : Output}
    (h : next env publisher s (.receive k credential request) = some (t, o)) {c : Command}
    (ticket : t.tickets k = some (.admitted c)) :
    ∃ p, admitRequest env s.clock credential request s.store = .ok (p, .command c) := by
  simp only [next, Option.ite_none_left_eq_some, Option.some.injEq] at h
  obtain ⟨hidle, h⟩ := h
  rw [Bool.not_eq_true, Option.isSome_eq_false_iff, Option.isNone_iff_eq_none] at hidle
  cases hadmits : admitRequest env s.clock credential request s.store with
  | error e =>
    rw [hadmits] at h
    cases h
    rw [hidle] at ticket
    cases ticket
  | ok x =>
    obtain ⟨p, response | command⟩ := x <;> rw [hadmits] at h <;> cases h
    · rw [hidle] at ticket
      cases ticket
    · simp only [Sys.setTicket, Function.update_self, Option.some.injEq, Ticket.admitted.injEq] at ticket
      exact ⟨p, by rw [ticket]⟩

end Waiting

/-! ### The same POST once more -/

/-- The POST is admitted, and whenever its transaction comes, it answers 200 with the publication
and leaves the store as it is. -/
def Repeats (env : Env) (publisher : Option Publisher) (slugs : Slugs) (credential : Credential)
    (key : Option String) (data : PublicationCreateData) (publication : Uuid) (m : Managed) : Prop :=
  ∃ p call, admitRequest env m.sys.clock credential (.createPublication key data) m.sys.store =
      .ok (p, .command (.schedulePublication call)) ∧
    ∀ es n, Trail (managed env publisher slugs) m es n → ∀ w : World,
      ∃ q ∈ n.sys.store.publications, q.id = publication ∧
        runCommand env w (.schedulePublication call) n.sys.store =
          .ok (.publication ⟨q, false⟩, n.sys.store) ∧
        respond n.sys.store (.publication ⟨q, false⟩) =
          some (.ok ⟨200, .publication (publicationData q)⟩)

section Repeats

variable {env : Env} {publisher : Option Publisher} {slugs : Slugs} {m n : Managed}

/-- No two publications of a workspace have a key in common. -/
theorem publicationKeys_of_reachable (h : Reachable (managed env publisher slugs) m) :
    m.sys.store.publications.Unique fun p => (p.tenant, p.idempotencyKey) := by
  refine h.invariant (I := fun m : Managed =>
    m.sys.store.publications.Unique fun p => (p.tenant, p.idempotencyKey)) ?_ ?_
  · rintro _ ⟨tenants, brands, memberships, accounts, connections, audit, clock, rfl⟩
    exact .empty
  · rintro a ⟨l, o⟩ b hs hstep
    cases managedNext_step hstep with
    | sys step =>
      rcases (next_step step).store with hsame | hstore
      · exact hsame ▸ hs
      · exact hstore.publicationKeys hs
    | failed => exact hs
    | started => exact hs
    | deactivated => exact hs
    | recorded => exact hs
    | stopped => exact hs

/-- A publication answers every later call with its key and its fingerprint. -/
theorem replayed_later (hm : Reachable (managed env publisher slugs) m) {q : Publication}
    (hq : q ∈ m.sys.store.publications) {es : List (ManagedLabel × ManagedOutput)}
    (later : Trail (managed env publisher slugs) m es n) {call : ScheduleCall}
    (htenant : q.tenant = call.tenant) (hkey : q.idempotencyKey = call.idempotencyKey)
    (hsame : q.requestFingerprint = requestFingerprint env call.payload) (w : World) :
    ∃ q' ∈ n.sys.store.publications, q'.id = q.id ∧
      runCommand env w (.schedulePublication call) n.sys.store =
        .ok (.publication ⟨q', false⟩, n.sys.store) := by
  obtain ⟨q', hq', hbecomes⟩ := (Trail.managed_evolves later).publications q hq
  obtain ⟨_, _, _, _, _, _, rfl⟩ := hbecomes
  have hfound := findPublication_of_unique (publicationKeys_of_reachable (hm.trail later)) hq'
  refine ⟨_, hq', rfl, ?_⟩
  simp only [runCommand, schedulePublication, ← htenant, ← hkey, hfound, replayPublication]
  rw [if_neg (not_not.2 hsame)]
  rfl

/-- The commit that has created a publication. -/
theorem created_publication {k : ℕ} {draws : Draws} {call : ScheduleCall} {q : Publication}
    {response : Option (Except ApiError Response)}
    (created : (managed env publisher slugs).step m (.sys (.commit k draws),
      .sys (.committed (.schedulePublication call) (.publication ⟨q, true⟩) response)) n) :
    q ∈ n.sys.store.publications ∧ q.tenant = call.tenant ∧ q.brand = call.brand ∧
      q.idempotencyKey = call.idempotencyKey ∧
      q.requestFingerprint = requestFingerprint env call.payload := by
  cases managedNext_step created with
  | sys step =>
    cases next_step step with
    | committed ticket effect =>
      cases effect with
      | scheduled _ _ insert => exact ⟨Table.mem_self_insert? insert, rfl, rfl, rfl, rfl⟩

/-- The principal that has sent a POST keeps its access. -/
theorem access_kept {s s' : Sys} {credential : Credential} {key : Option String}
    {data : PublicationCreateData} {p : RelayPrincipal} {call : ScheduleCall}
    (received : admitRequest env s.clock credential (.createPublication key data) s.store =
      .ok (p, .command (.schedulePublication call))) (hs : Evolves s.store s'.store) :
    authenticate env s'.store credential = .ok p ∧
      hasRelayScope publicationCollectionView .post p s'.store = true ∧ call.brand ∈ p.brandIds := by
  obtain ⟨hauth, hscope, hhandle⟩ := admitRequest_eq_ok received
  refine ⟨?_, ?_, ?_⟩
  · rw [authenticate_same hs.tenants hs.brands hs.memberships]
    exact hauth
  · rw [hasRelayScope_same hs.memberships]
    exact hscope
  · cases handle_admitted hhandle with
    | schedulePublication _ covers => exact covers.brandIds

end Repeats

/-- **The identical POST returns the original exactly while its scheduled time is in the future**,
whatever has happened since; afterwards it is refused as invalid. -/
theorem repeats_iff {env : Env} {publisher : Option Publisher} {slugs : Slugs} {r a b m : Managed}
    {credential credential' : Credential} {key : Option String} {data : PublicationCreateData}
    {p p' : RelayPrincipal} {call : ScheduleCall} {k : ℕ} {draws : Draws} {q : Publication}
    {response : Option (Except ApiError Response)} {es fs : List (ManagedLabel × ManagedOutput)}
    (reachable : Reachable (managed env publisher slugs) r)
    (received : admitRequest env r.sys.clock credential (.createPublication key data) r.sys.store =
      .ok (p, .command (.schedulePublication call)))
    (waiting : Trail (managed env publisher slugs) r es a)
    (created : (managed env publisher slugs).step a (.sys (.commit k draws),
      .sys (.committed (.schedulePublication call) (.publication ⟨q, true⟩) response)) b)
    (later : Trail (managed env publisher slugs) b fs m)
    (authenticated : authenticate env m.sys.store credential' = .ok p')
    (scope : hasRelayScope publicationCollectionView .post p' m.sys.store = true)
    (workspace : p'.workspaceId = p.workspaceId) (brand : q.brand ∈ p'.brandIds) :
    (Repeats env publisher slugs credential' key data q.id m ↔ m.sys.clock < data.scheduledFor) ∧
      (data.scheduledFor ≤ m.sys.clock →
        admitRequest env m.sys.clock credential' (.createPublication key data) m.sys.store =
          .error (.validation "scheduled_for" "The scheduled time must be in the future.")) := by
  obtain ⟨-, -, hhandle⟩ := admitRequest_eq_ok received
  have hcalled := createPublication_eq_ok hhandle
  obtain ⟨hq, hqtenant, hqbrand, hqkey, hqsame⟩ := created_publication created
  have hb : Reachable (managed env publisher slugs) b := (reachable.trail waiting).step created
  have hs : Evolves r.sys.store m.sys.store :=
    ((Trail.managed_evolves waiting).trans (managedNext_evolves created)).trans
      (Trail.managed_evolves later)
  have hadmits : admitRequest env m.sys.clock credential' (.createPublication key data) m.sys.store =
      (handle env m.sys.clock p' m.sys.store (.createPublication key data)).map fun a => (p', a) :=
    admitRequest_of authenticated scope
  have hpast : data.scheduledFor ≤ m.sys.clock →
      admitRequest env m.sys.clock credential' (.createPublication key data) m.sys.store =
        .error (.validation "scheduled_for" "The scheduled time must be in the future.") := by
    intro past
    rw [hadmits, createPublication_past hcalled.header past]
    rfl
  refine ⟨⟨fun ⟨_, _, hadmitted, _⟩ => ?_, fun future => ?_⟩, hpast⟩
  · by_contra hnot
    rw [hpast (not_lt.1 hnot)] at hadmitted
    cases hadmitted
  · -- the connection need not be active: the key is looked up before anything is checked
    obtain ⟨call', hcall', htenant, hkey, hpayload⟩ :=
      hcalled.again hs workspace (hqbrand ▸ brand) future
    refine ⟨p', call', by rw [hadmits, hcall']; rfl, fun gs n hgs w => ?_⟩
    obtain ⟨q', hq', hid, hrun⟩ := replayed_later hb hq (later.append hgs)
      (hqtenant.trans htenant.symm) (hqkey.trans hkey.symm) (by rw [hpayload, hqsame]) w
    exact ⟨q', hq', hid, hrun, rfl⟩

namespace Sample

/-- The body of the POST. -/
def posted : PublicationCreateData := ⟨variant, connection, minutes 1⟩

/-- The POST. -/
def posting : ApiRequest := .createPublication (some "k") posted

/-- A web process receives the POST, others act, and its transaction comes. -/
def requested (between : List ManagedLabel) (a : Managed) : Option (Managed × ManagedOutput × Managed) :=
  (managedNext env none slugs a (.sys (.receive 0 (.panel 1 none) posting))).bind fun x =>
    (runLabels (managedNext env none slugs) (fun _ l => l.ticket ≠ some 0) between x.1).bind fun y =>
      (managedNext env none slugs y.2 (.sys (.commit 0 (draws 50)))).map fun z => (y.2, z.2, z.1)

theorem exists_of_requested {between : List ManagedLabel} {a b b' : Managed} {o : ManagedOutput}
    (h : requested between a = some (b, o, b')) : ∃ a' es o',
      (managed env none slugs).step a (.sys (.receive 0 (.panel 1 none) posting), .sys o') a' ∧
      Trail ((managed env none slugs).guarded fun _ e => e.1.ticket ≠ some 0) a' es b ∧
      (managed env none slugs).step b (.sys (.commit 0 (draws 50)), o) b' := by
  obtain ⟨⟨a', out⟩, hreceive, h⟩ := Option.bind_eq_some_iff.1 h
  obtain ⟨⟨es, c⟩, hwait, h⟩ := Option.bind_eq_some_iff.1 h
  obtain ⟨⟨d, o'⟩, hcommit, heq⟩ := Option.map_eq_some_iff.1 h
  cases heq
  cases managedNext_step hreceive
  exact ⟨_, es, _, hreceive, (trail_of_runLabels hwait).guarded_imp fun _ _ h => of_decide_eq_true h,
    hcommit⟩

/-- The commit has created a publication. -/
def creates : ManagedOutput → Bool
  | .sys (.committed (.schedulePublication _) (.publication ⟨_, true⟩) _) => true
  | _ => false

theorem exists_of_creates {o : ManagedOutput} (h : creates o = true) : ∃ call q response,
    o = .sys (.committed (.schedulePublication call) (.publication ⟨q, true⟩) response) := by
  unfold creates at h
  split at h
  · exact ⟨_, _, _, rfl⟩
  · cases h

/-- A post is approved and scheduled through the copy, while others act and before they act. -/
theorem exists_posted (between later : List ManagedLabel) (p : Managed → Bool)
    (h : ((runLabels (managedNext env none slugs) (fun _ _ => true) (drafting.map .sys) copied).any
      fun x => (requested between x.2).any fun y => creates y.2.1 &&
        (runLabels (managedNext env none slugs) (fun _ _ => true) later y.2.2).any
          fun z => p z.2) = true) :
    ∃ r owner call es a q response b fs m, Reachable (managed env none slugs) r ∧
      admitRequest env r.sys.clock (.panel 1 none) posting r.sys.store =
        .ok (owner, .command (.schedulePublication call)) ∧
      Trail (managed env none slugs) r es a ∧
      (managed env none slugs).step a (.sys (.commit 0 (draws 50)),
        .sys (.committed (.schedulePublication call) (.publication ⟨q, true⟩) response)) b ∧
      Trail (managed env none slugs) b fs m ∧ p m = true := by
  obtain ⟨ds, r, tr, -, hr⟩ := exists_of_runLabels h
  obtain ⟨⟨a, o, b⟩, hrequested, hr⟩ := (Option.any_eq_true _ _).1 hr
  obtain ⟨hcreates, hlater⟩ := Bool.and_eq_true_iff.1 hr
  obtain ⟨fs, m, hfs, -, hm⟩ := exists_of_runLabels hlater
  obtain ⟨call, q, response, rfl⟩ := exists_of_creates hcreates
  obtain ⟨a', es, o', hreceive, hwait, hcommit⟩ := exists_of_requested hrequested
  -- the command that is committed is the one that the checks have led to
  have hticket : a.sys.tickets 0 = some (.admitted (.schedulePublication call)) := by
    cases managedNext_step hcommit with
    | sys step => cases next_step step with
      | committed ticket => exact ticket
  rw [Waiting.ticket hwait] at hticket
  have hsys : ∃ s, next env none r.sys (.receive 0 (.panel 1 none) posting) = some (s, o') ∧
      a'.sys = s := by
    cases managedNext_step hreceive with
    | sys step => exact ⟨_, step, rfl⟩
  obtain ⟨s, hnext, rfl⟩ := hsys
  obtain ⟨owner, hadmits⟩ := receive_ticket hnext hticket
  exact ⟨r, owner, call, _, a, q, response, b, fs, m, ⟨_, ds, copied_isStart none, tr.of_guarded⟩,
    hadmits, .move hreceive hwait.of_guarded, hcommit, hfs.of_guarded, hm⟩

end Sample

/-- The connection is revoked by a command that runs meanwhile, and then the POST is sent again. -/
theorem repeats_iff_sample : ∃ (m : Managed) (publication : Uuid),
    ¬ ActiveIn m.sys.store Sample.connection ∧
      Repeats Sample.env none Sample.slugs (.panel 1 none) (some "k") Sample.posted publication m := by
  obtain ⟨r, owner, call, es, a, q, response, b, fs, m, hr, hadmits, hwait, hcommit, hlater, hm⟩ :=
    Sample.exists_posted [.revoke 0 "studio" "brand" true, .sys (.advance 1)]
      [.deactivate 0, .sys (.advance 1), .record 0]
      (fun m => decide (¬ ActiveIn m.sys.store Sample.connection) &&
        m.sys.clock < Sample.posted.scheduledFor) (by decide +kernel)
  obtain ⟨hinactive, hfuture⟩ := Bool.and_eq_true_iff.1 hm
  obtain ⟨hauth, hscope, hbrand⟩ := access_kept hadmits (((Trail.managed_evolves hwait).trans
    (managedNext_evolves hcommit)).trans (Trail.managed_evolves hlater))
  rw [← (created_publication hcommit).2.2.1] at hbrand
  exact ⟨m, q.id, of_decide_eq_true hinactive,
    (repeats_iff hr hadmits hwait hcommit hlater hauth hscope rfl hbrand).1.2
      (of_decide_eq_true hfuture)⟩

/-- The POST is sent again when its publication is due. -/
theorem not_repeated : ¬ ∀ (env : Env) (publisher : Option Publisher) (slugs : Slugs) (r a b m : Managed)
    (credential credential' : Credential) (key : Option String) (data : PublicationCreateData)
    (p p' : RelayPrincipal) (call : ScheduleCall) (k : ℕ) (draws : Draws) (q : Publication)
    (response : Option (Except ApiError Response)) (es fs : List (ManagedLabel × ManagedOutput)),
    Reachable (managed env publisher slugs) r →
    admitRequest env r.sys.clock credential (.createPublication key data) r.sys.store =
      .ok (p, .command (.schedulePublication call)) →
    Trail (managed env publisher slugs) r es a →
    (managed env publisher slugs).step a (.sys (.commit k draws),
      .sys (.committed (.schedulePublication call) (.publication ⟨q, true⟩) response)) b →
    Trail (managed env publisher slugs) b fs m → authenticate env m.sys.store credential' = .ok p' →
    hasRelayScope publicationCollectionView .post p' m.sys.store = true →
    p'.workspaceId = p.workspaceId → q.brand ∈ p'.brandIds →
    Repeats env publisher slugs credential' key data q.id m := by
  intro h
  obtain ⟨r, owner, call, es, a, q, response, b, fs, m, hr, hadmits, hwait, hcommit, hlater, hm⟩ :=
    Sample.exists_posted [] [.sys (.advance 60000000)]
      (fun m => Sample.posted.scheduledFor ≤ m.sys.clock) (by decide +kernel)
  obtain ⟨hauth, hscope, hbrand⟩ := access_kept hadmits (((Trail.managed_evolves hwait).trans
    (managedNext_evolves hcommit)).trans (Trail.managed_evolves hlater))
  rw [← (created_publication hcommit).2.2.1] at hbrand
  obtain ⟨p, call', hadmitted, -⟩ := h _ _ _ _ _ _ _ _ _ _ _ _ _ _ _ _ _ _ _ _ hr hadmits hwait
    hcommit hlater hauth hscope rfl hbrand
  have hfuture := (createPublication_eq_ok (admitRequest_eq_ok hadmitted).2.2).future
  exact absurd hfuture (not_lt.2 (of_decide_eq_true hm))

end Relay
