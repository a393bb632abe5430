import Relay.Model.Revocation
import Relay.Attempts
import Relay.Execution

/-!
# Deactivated connections

The relay next to an administrator who revokes copied connections, from a store that may hold such
connections.  Scheduling asks that a connection is active, of the row that the view has loaded;
nothing asks again when a worker claims the publication.

* `managed`: the relay with any number of runs of the command;
* `Usable`: what is scheduled or under way has an active connection, `Usable.step`;
* `no_delivery_through_deactivated` for the runs whose steps meet `keepsUsable`, and
  `delivery_through_deactivated` for one whose steps do not.
-/

namespace Relay

open Relational Transition

/-! ### The relay and its administrators -/

/-- The system, and the runs of the command that are under way. -/
structure Managed where
  sys : Sys
  revocations : ℕ → Option Revocation

inductive ManagedLabel
  | sys (label : Label)
  /-- `revoke_promoted_meta_connections` reads and reports -/
  | revoke (run : ℕ) (workspaceSlug brandSlug : String) (apply : Bool)
  /-- it saves the next connection -/
  | deactivate (run : ℕ)
  /-- it writes the audit entry of that connection -/
  | record (run : ℕ)
  /-- it stops where it is -/
  | stop (run : ℕ)

inductive ManagedOutput
  | sys (output : Output)
  | reported (report : Except CommandFailure (List ChannelConnection))
  | silent

/-- The claim for which the publisher is called. -/
def ManagedOutput.delivery? : ManagedOutput → Option Claim
  | sys (.publishing claim _ _) => some claim
  | _ => none

theorem ManagedOutput.eq_of_delivery {o : ManagedOutput} {claim : Claim}
    (h : o.delivery? = some claim) : ∃ media call, o = .sys (.publishing claim media call) := by
  unfold delivery? at h
  split at h
  · cases h
    exact ⟨_, _, rfl⟩
  · cases h

namespace Managed

/-- What a run of the command becomes. -/
def setRevocation (m : Managed) (k : ℕ) (r : Option Revocation) : Managed :=
  { m with revocations := Function.update m.revocations k r }

/-- A run of the command writes to the store. -/
def write (m : Managed) (k : ℕ) (r : Revocation) (store : Store) : Managed :=
  { m with sys := { m.sys with store } }.setRevocation k (some r)

end Managed

/-- One step, if the label applies. -/
def managedNext (env : Env) (publisher : Option Publisher) (slugs : Slugs) (m : Managed) :
    ManagedLabel → Option (Managed × ManagedOutput)
  | .sys l => (next env publisher m.sys l).map fun x => ({ m with sys := x.1 }, .sys x.2)
  | .revoke k workspaceSlug brandSlug apply =>
    if (m.revocations k).isSome then none
    else match revokePromoted slugs workspaceSlug brandSlug apply m.sys.store with
    | .error e => some (m, .reported (.error e))
    | .ok (connections, r) => some (m.setRevocation k r, .reported (.ok connections))
  | .deactivate k =>
    match m.revocations k with
    | some ⟨brand, c :: connections, none⟩ =>
      some (m.write k ⟨brand, connections, some c⟩ (m.sys.store.deactivate m.sys.clock c.id), .silent)
    | _ => none
  | .record k =>
    match m.revocations k with
    | some ⟨brand, connections, some c⟩ =>
      some (m.write k ⟨brand, connections, none⟩ (m.sys.store.log (revocationEvent brand c)), .silent)
    | _ => none
  | .stop k => some (m.setRevocation k none, .silent)

/-- The relay over whatever accounts, connections and audit entries an earlier release has left. -/
def managed (env : Env) (publisher : Option Publisher) (slugs : Slugs) :
    Machine Managed (ManagedLabel × ManagedOutput) :=
  .ofLabels (fun m => ∃ tenants brands memberships accounts connections audit clock, m =
    { sys := { Sys.initial tenants brands memberships clock with
        store := { Store.provisioned tenants brands memberships with accounts, connections, audit } }
      revocations := fun _ => none })
    (managedNext env publisher slugs)

/-- The steps, each with what it asks of the state. -/
inductive ManagedStep (env : Env) (publisher : Option Publisher) (slugs : Slugs) (m : Managed) :
    ManagedLabel → ManagedOutput → Managed → Prop
  | sys {l : Label} {o : Output} {s : Sys} (step : next env publisher m.sys l = some (s, o)) :
    ManagedStep env publisher slugs m (.sys l) (.sys o) { m with sys := s }
  | failed {k : ℕ} {workspaceSlug brandSlug : String} {apply : Bool} {e : CommandFailure}
    (idle : m.revocations k = none)
    (refused : revokePromoted slugs workspaceSlug brandSlug apply m.sys.store = .error e) :
    ManagedStep env publisher slugs m (.revoke k workspaceSlug brandSlug apply) (.reported (.error e)) m
  | started {k : ℕ} {workspaceSlug brandSlug : String} {apply : Bool}
    {connections : List ChannelConnection} {r : Option Revocation} (idle : m.revocations k = none)
    (reads : revokePromoted slugs workspaceSlug brandSlug apply m.sys.store = .ok (connections, r)) :
    ManagedStep env publisher slugs m (.revoke k workspaceSlug brandSlug apply)
      (.reported (.ok connections)) (m.setRevocation k r)
  | deactivated {k : ℕ} {brand : Brand} {c : ChannelConnection} {connections : List ChannelConnection}
    (running : m.revocations k = some ⟨brand, c :: connections, none⟩) :
    ManagedStep env publisher slugs m (.deactivate k) .silent
      (m.write k ⟨brand, connections, some c⟩ (m.sys.store.deactivate m.sys.clock c.id))
  | recorded {k : ℕ} {brand : Brand} {c : ChannelConnection} {connections : List ChannelConnection}
    (running : m.revocations k = some ⟨brand, connections, some c⟩) :
    ManagedStep env publisher slugs m (.record k) .silent
      (m.write k ⟨brand, connections, none⟩ (m.sys.store.log (revocationEvent brand c)))
  | stopped (k : ℕ) : ManagedStep env publisher slugs m (.stop k) .silent (m.setRevocation k none)

/-- **What a step can do.** -/
theorem managedNext_step {env : Env} {publisher : Option Publisher} {slugs : Slugs} {m m' : Managed}
    {l : ManagedLabel} {o : ManagedOutput} (h : managedNext env publisher slugs m l = some (m', o)) :
    ManagedStep env publisher slugs m l o m' := by
  cases l with
  | sys l =>
    obtain ⟨⟨s, output⟩, hsys, heq⟩ := Option.map_eq_some_iff.1 h
    cases heq
    exact .sys hsys
  | revoke k workspaceSlug brandSlug apply =>
    simp only [managedNext, Option.ite_none_left_eq_some] at h
    obtain ⟨hidle, h⟩ := h
    rw [Bool.not_eq_true, Option.isSome_eq_false_iff, Option.isNone_iff_eq_none] at hidle
    split at h <;> cases h
    · exact .failed hidle ‹_›
    · exact .started hidle ‹_›
  | deactivate k =>
    simp only [managedNext] at h
    split at h <;> cases h
    exact .deactivated ‹_›
  | record k =>
    simp only [managedNext] at h
    split at h <;> cases h
    exact .recorded ‹_›
  | stop k => cases h; exact .stopped k

/-- A connection that is deactivated stays the channel that it is. -/
theorem Evolves.deactivate (s : Store) (now : Time) (connection : Uuid) :
    Evolves s (s.deactivate now connection) :=
  { Evolves.refl s with
    connections := .update ChannelConnection.Becomes.refl fun _ _ _ => ⟨_, _, _, _, _, _, rfl⟩ }

theorem managedNext_evolves {env : Env} {publisher : Option Publisher} {slugs : Slugs} {m m' : Managed}
    {l : ManagedLabel} {o : ManagedOutput} (h : managedNext env publisher slugs m l = some (m', o)) :
    Evolves m.sys.store m'.sys.store := by
  cases managedNext_step h with
  | sys step => exact (next_step step).evolves
  | failed => exact .refl _
  | started => exact .refl _
  | deactivated => exact .deactivate _ _ _
  | recorded => exact .log _ _
  | stopped => exact .refl _

/-- Along a run of the relay and its administrators the store evolves. -/
theorem Trail.managed_evolves {env : Env} {publisher : Option Publisher} {slugs : Slugs} {m m' : Managed}
    {es : List (ManagedLabel × ManagedOutput)} (h : Trail (managed env publisher slugs) m es m') :
    Evolves m.sys.store m'.sys.store := by
  refine Trail.relates (I := fun _ => True) (R := fun a b => Evolves a.sys.store b.sys.store)
    (fun m => .refl m.sys.store) Evolves.trans ?_ ?_ h trivial
  · exact fun _ _ _ _ _ => trivial
  · exact fun _ _ _ _ h => managedNext_evolves h

/-! ### Connections that stay active -/

/-- The connection is there and active. -/
def ActiveIn (s : Store) (connection : Uuid) : Prop :=
  s.connections.view (·.isActive) connection = some true

instance (s : Store) (connection : Uuid) : Decidable (ActiveIn s connection) :=
  inferInstanceAs (Decidable (_ = _))

section Active

variable {env : Env} {s s' : Store} {id : Uuid}

theorem upsertConnection_active {now : Time} {new account : Uuid} {draw : FernetDraw} {token : MetaToken}
    {c : MetaConnection} (h : upsertConnection env now new draw account token c s = .ok s')
    (ha : ActiveIn s id) : ActiveIn s' id := by
  unfold upsertConnection at h
  split at h
  · cases h
  rename_i encrypted _
  split at h
  · cases h
  split at h
  · rename_i row hf
    cases h
    have hview : (s.connections.update row.id ⟨(·.refresh now token encrypted c), fun _ => rfl⟩).view
        (·.isActive) = Function.update (s.connections.view (·.isActive)) row.id (some true) :=
      Table.view_update (Table.mem_of_find? hf)
    change Table.view _ _ id = _
    rw [hview, Function.update_apply]
    split
    · rfl
    · exact ha
  · obtain ⟨connections, hins, h⟩ := bind_eq_ok.1 h
    cases h
    change Table.view connections _ id = _
    rw [Table.view_insert? (create_eq_ok.1 hins), Function.update_apply]
    split
    · rfl
    · exact ha

theorem upsertConnections_active {now : Time} {account : Uuid} {token : MetaToken} {ids : ℕ → Uuid}
    {ciphers : ℕ → FernetDraw} {cs : List MetaConnection}
    (h : upsertConnections env now account token ids ciphers cs s = .ok s')
    (ha : ActiveIn s id) : ActiveIn s' id := by
  induction cs generalizing s ids ciphers with
  | nil => cases h; exact ha
  | cons c cs ih =>
    obtain ⟨t, ht, h⟩ := bind_eq_ok.1 h
    exact ih h (upsertConnection_active ht ha)

/-- No service deactivates a connection. -/
theorem runCommand_active {w : World} {c : Command} {r : Reply}
    (h : runCommand env w c s = .ok (r, s')) (ha : ActiveIn s id) : ActiveIn s' id := by
  cases c with
  | persistMetaConnections tenant brand subject token identity =>
    obtain ⟨account, hcall, rfl⟩ := reply_eq_ok.1 h
    obtain ⟨⟨a, t⟩, haccount, hrest⟩ := bind_eq_ok.1 hcall
    obtain ⟨u, hconnections, hlog⟩ := bind_eq_ok.1 hrest
    obtain ⟨accounts, rfl, -⟩ := upsertAccount_saved haccount
    cases hlog
    have hactive : ActiveIn u id := upsertConnections_active hconnections ha
    exact hactive
  | _ => cases runCommand_effect h <;> exact ha

theorem Claimed.active {started now : Time} {attempt : Uuid} {claim : Claim}
    (h : Claimed started now attempt claim s s') (ha : ActiveIn s id) : ActiveIn s' id := by
  cases h
  exact ha

theorem Finished.active {now : Time} {claim : Claim} {result : Except DeliveryError String}
    {answer : String} (h : Finished env now claim result answer s s') (ha : ActiveIn s id) :
    ActiveIn s' id := by
  cases h <;> exact ha

/-- No step of the system does. -/
theorem next_active {publisher : Option Publisher} {r r' : Sys} {l : Label} {o : Output}
    (h : next env publisher r l = some (r', o)) (ha : ActiveIn r.store id) : ActiveIn r'.store id := by
  rcases next_store h with hsame | ⟨w, c, r, -, hrun⟩ | ⟨_, _, _, hclaimed⟩ | ⟨_, _, _, hfinished⟩
  · exact hsame ▸ ha
  · exact runCommand_active hrun ha
  · exact hclaimed.active ha
  · exact hfinished.active ha

end Active

/-! ### What is to be delivered has an active connection -/

/-- The publication is yet to be delivered. -/
def Publication.outstanding (p : Publication) : Bool := p.state = .scheduled || p.state = .publishing

/-- The step keeps the connections of outstanding publications active: a publication is scheduled
only while the connection that the view has loaded is still active, and a connection is deactivated
only when no outstanding publication uses it. -/
def keepsUsable (m : Managed) : ManagedLabel → Bool
  | .sys (.commit k _) =>
    match m.sys.tickets k with
    | some (.admitted (.schedulePublication call)) =>
      (findPublication call.tenant call.idempotencyKey m.sys.store).isSome ||
        checkSchedule call m.sys.store ≠ .ok () || ActiveIn m.sys.store call.channelConnection.id
    | _ => true
  | .deactivate k =>
    match m.revocations k with
    | some ⟨_, c :: _, none⟩ =>
      (m.sys.store.publications.where fun p => p.outstanding && p.channelConnection = c.id).isEmpty
    | _ => true
  | _ => true

/-- Every outstanding publication has an active connection. -/
def Usable (s : Store) : Prop :=
  ∀ p ∈ s.publications, p.outstanding = true → ActiveIn s p.channelConnection

section Usable

variable {env : Env} {publisher : Option Publisher} {slugs : Slugs} {m m' : Managed}
  {l : ManagedLabel} {o : ManagedOutput}

/-- A publication that is rewritten from an outstanding one is no more outstanding than before. -/
theorem Usable.update {s s' : Store} {id : Uuid} {f : Rewrite Publication} (h : Usable s)
    (hp : s'.publications = s.publications.update id f)
    (hactive : ∀ c, ActiveIn s c → ActiveIn s' c)
    (hf : ∀ p ∈ s.publications, p.id = id →
      p.outstanding = true ∧ (f p).channelConnection = p.channelConnection) : Usable s' := by
  intro q hq hout
  rw [hp] at hq
  obtain ⟨p, hmem, rfl⟩ := Table.mem_update.1 hq
  split at hout
  · rename_i hkey
    obtain ⟨hbefore, hsame⟩ := hf p hmem hkey
    rw [if_pos hkey, hsame]
    exact hactive _ (h p hmem hbefore)
  · rw [if_neg ‹_›]
    exact hactive _ (h p hmem hout)

/-- A step of the system that meets the condition. -/
theorem Usable.next (h : Usable m.sys.store) (hs : Delivering m.sys) {label : Label} {s' : Sys}
    {output : Output} (hkeep : keepsUsable m (.sys label) = true)
    (hnext : next env publisher m.sys label = some (s', output)) : Usable s'.store := by
  have hactive : ∀ c, ActiveIn m.sys.store c → ActiveIn s'.store c := fun c => next_active hnext
  have hstep := next_step hnext
  cases hstep with
  | committed ticket effect =>
    cases effect with
    | scheduled unused checked insert =>
      intro p hp hout
      rcases (Table.mem_insert? insert).1 hp with hp | rfl
      · exact hactive _ (h p hp hout)
      · -- the publication is new and its checks are passed, so the condition speaks of its connection
        refine hactive _ ?_
        simpa [keepsUsable, ticket, unused, checked, newPublication] using hkeep
    | _ => exact fun p hp hout => hactive _ (h p hp hout)
  | @claimed k publication started attempt claim store worker hid claimed =>
    obtain ⟨p, hmem, hdue, -, -, hpubs, -⟩ := claimed.rows
    refine h.update hpubs hactive fun q hq hkey => ?_
    obtain rfl : q = p := Table.eq_of_key hq hmem hkey
    exact ⟨by simp [Publication.outstanding, (Publication.due_iff.1 hdue).1], rfl⟩
  | @finished k publication claim result answer store worker finished =>
    obtain ⟨rfl, hheld⟩ := hs.held k publication claim ⟨_, worker, rfl⟩
    have hout : ∀ q ∈ m.sys.store.publications, q.id = claim.publication.id →
        q.outstanding = true := by
      intro q hq hkey
      obtain rfl : q = claim.publication := Table.eq_of_key hq hheld.publication hkey
      simp [Publication.outstanding, hheld.publishing]
    cases finished with
    | published => exact h.update rfl hactive fun q hq hkey => ⟨hout q hq hkey, rfl⟩
    | failed => exact h.update rfl hactive fun q hq hkey => ⟨hout q hq hkey, rfl⟩
  | _ => exact h

/-- The command writes to the connections and to the log. -/
theorem managedNext_delivering (hs : Delivering m.sys)
    (hnext : managedNext env publisher slugs m l = some (m', o)) : Delivering m'.sys := by
  cases managedNext_step hnext with
  | sys step => exact hs.step (next_step step)
  | failed => exact hs
  | started => exact hs
  | deactivated => exact hs.frame rfl rfl fun _ _ _ hk => hk
  | recorded => exact hs.frame rfl rfl fun _ _ _ hk => hk
  | stopped => exact hs

/-- A step that meets the condition keeps what is to be delivered usable. -/
theorem Usable.step (h : Usable m.sys.store) (hs : Delivering m.sys) (hkeep : keepsUsable m l = true)
    (hnext : managedNext env publisher slugs m l = some (m', o)) : Usable m'.sys.store := by
  cases managedNext_step hnext with
  | sys step => exact h.next hs hkeep step
  | failed => exact h
  | started => exact h
  | @deactivated k brand c connections running =>
    simp only [keepsUsable, running, List.isEmpty_iff] at hkeep
    intro p hp hout
    have hne : p.channelConnection ≠ c.id := by
      intro heq
      have hmem : p ∈ m.sys.store.publications.where fun p =>
          p.outstanding && p.channelConnection = c.id := by
        simp only [Table.mem_where, Bool.and_eq_true, decide_eq_true_eq]
        exact ⟨hp, hout, heq⟩
      rw [hkeep] at hmem
      cases hmem
    -- another connection than the one that is deactivated
    have hget := h p hp hout
    change (Table.get? (m.sys.store.connections.update c.id _) p.channelConnection).map _ = _
    rw [Table.get?_update, if_neg hne]
    exact hget
  | recorded => exact h
  | stopped => exact h

end Usable

/-! ### Deliveries -/

/-- The connection that was handed out with the claim was the row of the store, and active, when
the claim was made. -/
def ClaimedActive (M : Machine Managed (ManagedLabel × ManagedOutput)) (m₀ : Managed)
    (es : List (ManagedLabel × ManagedOutput)) (claim : Claim) : Prop :=
  claim.channelConnection.isActive = true ∧ ∃ es₁ e es₂ a b, es = es₁ ++ e :: es₂ ∧
    Trail M m₀ es₁ a ∧ M.step a e b ∧ e.2 = .sys (.claimed claim) ∧
    a.sys.store.connections.get? claim.publication.channelConnection = some claim.channelConnection

section Runs

variable {env : Env} {publisher : Option Publisher} {slugs : Slugs} {m m₀ m' : Managed}
  {l : ManagedLabel} {o : ManagedOutput} {claim : Claim}

theorem managed_start (start : (managed env publisher slugs).start m₀) :
    (∀ k, m₀.sys.workers k = none) ∧ Delivering m₀.sys ∧ Usable m₀.sys.store := by
  obtain ⟨tenants, brands, memberships, accounts, connections, audit, clock, rfl⟩ := start
  refine ⟨fun _ => rfl, ?_, fun p hp => absurd hp (Table.not_mem_empty p)⟩
  exact (Delivering.initial tenants brands memberships clock).frame rfl rfl fun _ _ _ hk => hk

/-- The invariants of the runs whose steps meet the condition. -/
theorem usable_of_trail {es : List (ManagedLabel × ManagedOutput)}
    (start : (managed env publisher slugs).start m₀)
    (h : Trail ((managed env publisher slugs).guarded fun m e => keepsUsable m e.1 = true) m₀ es m) :
    Usable m.sys.store := by
  obtain ⟨-, hdelivering, husable⟩ := managed_start start
  have hboth : Delivering m.sys ∧ Usable m.sys.store := by
    refine h.invariant (I := fun m => Delivering m.sys ∧ Usable m.sys.store) ?_ ⟨hdelivering, husable⟩
    exact fun a e b ⟨hd, hu⟩ hstep =>
      ⟨managedNext_delivering hd hstep.2, hu.step hd hstep.1 hstep.2⟩
  exact hboth.2

/-- A worker comes to hold a claim by making it. -/
theorem managedNext_holds (hnext : managedNext env publisher slugs m l = some (m', o)) {k : ℕ}
    {id : Uuid} (hk : m'.sys.Holds k id claim) (hnot : ¬ m.sys.Holds k id claim) :
    o = .sys (.claimed claim) ∧ ∃ started attempt,
      Claimed started m.sys.clock attempt claim m.sys.store m'.sys.store := by
  cases managedNext_step hnext with
  | sys step =>
    rcases (next_step step).holds hk with hk | ⟨rfl, -, hclaimed⟩
    · exact absurd hk hnot
    · exact ⟨rfl, hclaimed⟩
  | failed => exact absurd hk hnot
  | started => exact absurd hk hnot
  | deactivated => exact absurd hk hnot
  | recorded => exact absurd hk hnot
  | stopped => exact absurd hk hnot

/-- The connection of a claim is the row of the store. -/
theorem Claimed.connection {started now : Time} {attempt : Uuid} {s s' : Store}
    (h : Claimed started now attempt claim s s') : ∃ p ∈ s.publications, p.due started = true ∧
      claim.publication.channelConnection = p.channelConnection ∧
      s.connections.get? p.channelConnection = some claim.channelConnection := by
  cases h with
  | claimed mem due _ connectionRow => exact ⟨_, mem, due, rfl, connectionRow⟩

/-- A worker calls the publisher for the claim it holds. -/
theorem holds_of_publishing {media : List MediaAsset} {call : PublishCall}
    (hnext : managedNext env publisher slugs m l = some (m', .sys (.publishing claim media call))) :
    ∃ k id, m.sys.Holds k id claim := by
  cases managedNext_step hnext with
  | sys step =>
    cases next_step step with
    | prepared worker => exact ⟨_, _, _, worker, rfl⟩

end Runs

/-- **While no connection of an outstanding publication is deactivated, and no publication is
scheduled through a connection that has been, whenever the publisher is called the connection was
active when the publication was claimed.** -/
theorem no_delivery_through_deactivated {env : Env} {publisher : Option Publisher} {slugs : Slugs}
    {m₀ m m' : Managed} {es : List (ManagedLabel × ManagedOutput)} {l : ManagedLabel}
    {claim : Claim} {media : List MediaAsset} {call : PublishCall}
    (start : (managed env publisher slugs).start m₀)
    (h : Trail ((managed env publisher slugs).guarded fun m e => keepsUsable m e.1 = true) m₀ es m)
    (hcall : (managed env publisher slugs).step m (l, .sys (.publishing claim media call)) m') :
    ClaimedActive (managed env publisher slugs) m₀ es claim := by
  obtain ⟨k, id, hholds⟩ := holds_of_publishing hcall
  have hidle : ¬ m₀.sys.Holds k id claim := by
    rintro ⟨phase, hworker, -⟩
    rw [(managed_start start).1 k] at hworker
    cases hworker
  -- the step at which the worker comes to hold the claim
  obtain ⟨es₁, e, es₂, a, b, rfl, before, hnot, hstep, hhas, -⟩ :=
    h.exists_switch (P := fun m => m.sys.Holds k id claim) hidle hholds
  obtain ⟨hout, started, attempt, hclaimed⟩ := managedNext_holds hstep.2 hhas hnot
  have husable := usable_of_trail start before
  obtain ⟨publication, mem, due, hsame, hrow⟩ := hclaimed.connection
  have hactive : ActiveIn a.sys.store publication.channelConnection :=
    husable _ mem (by simp [Publication.outstanding, (Publication.due_iff.1 due).1])
  have hview : some claim.channelConnection.isActive = some true := by
    rw [← hactive, Table.view, hrow]
    rfl
  exact ⟨Option.some.inj hview, es₁, e, es₂, a, b, rfl, before.of_guarded, hstep.2, hout,
    hsame ▸ hrow⟩

namespace Sample

/-- The slugs of the workspace and its brand. -/
def slugs : Slugs := ⟨fun _ => "studio", fun _ => "brand"⟩

/-- A workspace that an earlier release has left with a copied connection. -/
def copied : Managed where
  sys := { start with
    store := { start.store with
      accounts := (Table.empty.insert? ⟨⟨.ofNat 40, 0, 0⟩, workspace, brand, .metaProvider, "1",
        "Me"⟩).getD ∅
      connections := (Table.empty.insert? ⟨⟨connection, 0, 0⟩, .ofNat 40, .metaFacebookPage, "page",
        "Page", "g1page token", none, metaOAuthScopes, true⟩).getD ∅
      audit := [⟨workspace, some brand, "admin", "promote_meta_connections",
        "meta.connection_promoted", "channel_connection", connection, []⟩] } }
  revocations _ := none

theorem copied_isStart (publisher : Option Publisher) :
    (managed env publisher slugs).start copied := ⟨_, _, _, _, _, _, _, rfl⟩

/-- The copy is deactivated. -/
def revoking : List ManagedLabel := [.revoke 0 "studio" "brand" true, .deactivate 0, .record 0]

/-- A post is scheduled through the copy. -/
def schedulingCopy : List ManagedLabel := (drafting ++ scheduling).map .sys

/-- The channel is connected again, and a post is scheduled through it. -/
def reconnecting : List ManagedLabel := (scheduled .metaFacebookPage).map .sys

/-- A worker claims the publication when it is due. -/
def claimingCopy : List ManagedLabel := (claiming 60000000 60).map .sys

/-- The publisher is called for a claim of this kind. -/
def delivers (p : Claim → Bool) (m : Managed) : Bool :=
  (managedNext env none slugs m (.sys (.prepare 0 (draws 0).signer))).any fun x =>
    x.2.delivery?.any p

theorem exists_of_delivers {p : Claim → Bool} {m : Managed} (h : delivers p m = true) :
    ∃ claim media call m', (managed env none slugs).step m
      (.sys (.prepare 0 (draws 0).signer), .sys (.publishing claim media call)) m' ∧ p claim = true := by
  obtain ⟨⟨m', o⟩, hnext, ho⟩ := (Option.any_eq_true _ _).1 h
  obtain ⟨claim, hclaim, hp⟩ := (Option.any_eq_true _ _).1 ho
  obtain ⟨media, call, rfl⟩ := ManagedOutput.eq_of_delivery hclaim
  exact ⟨claim, media, call, m', hnext, hp⟩

end Sample

/-- The copy is deactivated while nothing is to be delivered through it, connected once more by its
owner, and delivered through. -/
theorem no_delivery_through_deactivated_sample : ∃ es claim,
    es.map Prod.fst = Sample.revoking ++ Sample.reconnecting ++ Sample.claimingCopy ∧
    claim.publication.id = Sample.publication ∧
    ClaimedActive (managed Sample.env none Sample.slugs) Sample.copied es claim := by
  obtain ⟨es, m, tr, hlabels, hm⟩ := exists_of_runLabels
    (show ((runLabels (managedNext Sample.env none Sample.slugs) keepsUsable
      (Sample.revoking ++ Sample.reconnecting ++ Sample.claimingCopy) Sample.copied).any fun x =>
        Sample.delivers (fun claim => claim.publication.id = Sample.publication) x.2) = true by
      decide +kernel)
  obtain ⟨claim, media, call, m', hstep, hid⟩ := Sample.exists_of_delivers hm
  exact ⟨es, claim, hlabels, by simpa using hid,
    no_delivery_through_deactivated (Sample.copied_isStart none) tr hstep⟩

/-- The copy is deactivated after the post is scheduled, and the post is delivered through it. -/
theorem delivery_through_deactivated : ¬ ∀ (env : Env) (publisher : Option Publisher) (slugs : Slugs)
    (m₀ m m' : Managed) (es : List (ManagedLabel × ManagedOutput)) (l : ManagedLabel) (claim : Claim)
    (media : List MediaAsset) (call : PublishCall), (managed env publisher slugs).start m₀ →
    Trail (managed env publisher slugs) m₀ es m →
    (managed env publisher slugs).step m (l, .sys (.publishing claim media call)) m' →
    ClaimedActive (managed env publisher slugs) m₀ es claim := by
  intro h
  obtain ⟨es, m, tr, -, hm⟩ := exists_of_runLabels
    (show ((runLabels (managedNext Sample.env none Sample.slugs) (fun _ _ => true)
      (Sample.schedulingCopy ++ Sample.revoking ++ Sample.claimingCopy) Sample.copied).any fun x =>
        Sample.delivers (fun claim => !claim.channelConnection.isActive) x.2) = true by decide +kernel)
  obtain ⟨claim, media, call, m', hstep, hinactive⟩ := Sample.exists_of_delivers hm
  have hactive := (h _ _ _ _ _ _ _ _ _ _ _ (Sample.copied_isStart none) tr.of_guarded hstep).1
  rw [hactive] at hinactive
  cases hinactive

end Relay
