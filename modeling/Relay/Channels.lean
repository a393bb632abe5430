import Relay.Coherence
import Relay.Onboarding

/-!
# Which channels a task may name

The administrator tells a task the identifiers of the channels of its brand, which
`list_brand_connections` prints.  That they are good for a publication rests on how the rows fit
together, which administration does not disturb.

* `Provisions`: what the commands leave alone, and that brands stay where they are;
* `coherence_administered`: every state of the office is coherent;
* `listed_iff_schedulable`: the channels that are listed are those with which content can be scheduled.
-/

namespace Relay

open Relational Sequence Transition

/-! ### Coherence under administration -/

/-- Workspaces, brands and members have changed, and brands have stayed in their workspaces. -/
structure Provisions (s s' : Store) : Prop where
  frame : s' = { s with tenants := s'.tenants, brands := s'.brands, memberships := s'.memberships }
  brands : s.brands.Grows (fun b b' => b'.id = b.id ∧ b'.workspace = b.workspace) s'.brands

section Provisions

variable {s s' : Store} {r r' : Registry} {id workspace : Uuid} {slug name subject : String}

theorem Provisions.provisioned (h : Provisions s s') {tenant brand : Uuid} (k : Provisioned s tenant brand) :
    Provisioned s' tenant brand := by
  obtain ⟨b, hb, rfl, rfl⟩ := k
  obtain ⟨b', hb', hid, hworkspace⟩ := h.brands b hb
  exact ⟨b', hb', hid, hworkspace⟩

theorem upsertWorkspace_provisions {x : Tenant × Bool}
    (h : r.upsertWorkspace id slug name = .ok (x, r')) : Provisions r.store r'.store := by
  obtain ⟨tenants, -, hstore, -⟩ := Registry.upsertWorkspace_eq_ok h
  rw [hstore]
  exact ⟨rfl, .refl (fun _ => ⟨rfl, rfl⟩) _⟩

theorem upsertBrand_provisions {x : Brand × Bool}
    (h : r.upsertBrand id workspace slug name = .ok (x, r')) : Provisions r.store r'.store := by
  obtain ⟨brands, hupsert, hstore, -⟩ := Registry.upsertBrand_eq_ok h
  rw [hstore]
  refine ⟨rfl, ?_⟩
  rcases updateOrCreate_eq_ok hupsert with ⟨b, -, -, -, rfl⟩ | ⟨-, -, -, hinsert⟩
  · exact .update (fun _ => ⟨rfl, rfl⟩) fun _ _ _ => ⟨rfl, rfl⟩
  · exact .insert (fun _ => ⟨rfl, rfl⟩) hinsert

theorem upsertOwner_provisions {x : Membership × Bool}
    (h : r.upsertOwner id workspace subject = .ok (x, r')) : Provisions r.store r'.store := by
  obtain ⟨⟨⟨m, created⟩, memberships⟩, -, heq⟩ := bind_eq_ok.1 h
  cases heq
  exact ⟨rfl, .refl (fun _ => ⟨rfl, rfl⟩) _⟩

theorem beginProvision_provisions {options : ProvisionOptions} {line : SavedLine} {p : Provision}
    (h : beginProvision id options r = .ok (line, p, r')) : Provisions r.store r'.store := by
  obtain ⟨⟨x, r'⟩, hupsert, heq⟩ := bind_eq_ok.1 h
  cases heq
  exact upsertWorkspace_provisions hupsert

theorem Provision.next_provisions {env : Env} {users : Table User} {line : SavedLine} {p p' : Provision}
    (h : p.next env id users r = some (.ok (line, p', r'))) : Provisions r.store r'.store := by
  unfold Provision.next at h
  split at h
  · obtain ⟨⟨slug, name⟩, -, h⟩ := bind_eq_ok.1 (Option.some.inj h)
    obtain ⟨⟨x, r'⟩, hupsert, heq⟩ := bind_eq_ok.1 h
    cases heq
    exact upsertBrand_provisions hupsert
  · split at h
    · cases h
    split at h
    · cases h
    have hnext := Option.some.inj h
    unfold Provision.nextOwner at hnext
    split at hnext
    · cases hnext
    obtain ⟨⟨x, r'⟩, hupsert, heq⟩ := bind_eq_ok.1 hnext
    cases heq
    exact upsertOwner_provisions hupsert

theorem issue_provisions {slugs : Slugs} {jwt : JwtSettings} {now : Time} {jti : Uuid} {o : IngestOptions}
    {claims : List (String × Json)} (h : issueDraftIngestToken slugs jwt now id jti o s = .ok (claims, s')) :
    Provisions s s' := by
  unfold issueDraftIngestToken at h
  split at h
  · cases h
  split at h
  · cases h
  obtain ⟨t, hmembership, heq⟩ := map_eq_ok.1 h
  cases heq
  unfold ingestMembership at hmembership
  split at hmembership
  · split at hmembership
    · cases hmembership
    split at hmembership <;> cases hmembership
    exact ⟨rfl, .refl (fun _ => ⟨rfl, rfl⟩) _⟩
  · split at hmembership
    · cases hmembership
    split at hmembership <;> cases hmembership <;> exact ⟨rfl, .refl (fun _ => ⟨rfl, rfl⟩) _⟩

/-- New brands, and new names for old ones, leave a store coherent. -/
theorem Coherent.provisions (h : Coherent s) (hs : Provisions s s') : Coherent s' := by
  have hprovisioned : ∀ {tenant brand : Uuid}, Provisioned s tenant brand → Provisioned s' tenant brand :=
    hs.provisioned
  rw [hs.frame] at hprovisioned ⊢
  exact ⟨fun p hp => hprovisioned (h.posts p hp), fun a ha => hprovisioned (h.assets a ha),
    fun a ha => hprovisioned (h.accounts a ha), fun x hx => hprovisioned (h.oauthStates x hx),
    fun q hq => hprovisioned (h.publications q hq), h.approvals,
    fun v hv => (h.variants v hv).imp fun p hp => ⟨hp.post, hp.nodup, hp.ready⟩, h.connections,
    fun q hq => by
      obtain ⟨v, p, c, a, k⟩ := h.deliveries q hq
      exact ⟨v, p, c, a, k.variant, k.post, k.connection, k.account, k.postOwner, k.accountOwner,
        k.approved, k.images⟩⟩

/-- What has been checked for a command still holds. -/
theorem Sound.provisions (hs : Provisions s s') {c : Command} (h : Sound s c) : Sound s' c := by
  cases c with
  | schedulePublication call =>
    obtain ⟨hprovisioned, hremembered⟩ := h
    refine ⟨hs.provisioned hprovisioned, ?_⟩
    rw [hs.frame]
    exact ⟨hremembered.postVariant, hremembered.post, hremembered.postOf, hremembered.channelConnection,
      hremembered.socialAccount, hremembered.accountOf⟩
  | createPostDraft => exact ⟨hs.provisioned h.1, h.2⟩
  | createMediaUploadIntent => exact hs.provisioned h
  | startMetaOAuth => exact hs.provisioned h
  | persistMetaConnections => exact hs.provisioned h
  | _ => trivial

theorem SoundSys.provisions {m : Sys} (h : SoundSys m) (hs : Provisions m.store s') :
    SoundSys { m with store := s' } where
  coherent := h.coherent.provisions hs
  tickets k t ht := by
    have hsound := h.tickets k t ht
    cases t with
    | admitted c => exact Sound.provisions hs hsound
    | connecting x => exact hs.provisioned hsound

end Provisions

theorem Coherent.deactivate {s : Store} (h : Coherent s) (now : Time) (connection : Uuid) :
    Coherent (s.deactivate now connection) :=
  { posts := h.posts
    assets := h.assets
    accounts := h.accounts
    oauthStates := h.oauthStates
    publications := h.publications
    approvals := h.approvals
    variants := fun v hv => (h.variants v hv).imp fun p hp => ⟨hp.post, hp.nodup, hp.ready⟩
    connections := fun c' hc' => by
      obtain ⟨c, hc, rfl⟩ := Table.mem_update.1 hc'
      obtain ⟨a, ha, hid⟩ := h.connections c hc
      refine ⟨a, ha, hid.trans ?_⟩
      split <;> rfl
    deliveries := fun q hq => by
      obtain ⟨v, p, c, a, k⟩ := h.deliveries q hq
      exact k.mono (.deactivate s now connection) (.refl q) }

theorem Coherent.log {s : Store} (h : Coherent s) (entry : AuditLog) : Coherent (s.log entry) :=
  { h with
    variants := fun v hv => (h.variants v hv).imp fun p hp => ⟨hp.post, hp.nodup, hp.ready⟩
    deliveries := fun q hq => by
      obtain ⟨v, p, c, a, k⟩ := h.deliveries q hq
      exact k.mono (.log s entry) (.refl q) }

/-- A write of the revoking command. -/
theorem SoundSys.write {s : Sys} (h : SoundSys s) {store : Store} (coherent : Coherent store)
    (evolves : Evolves s.store store) : SoundSys { s with store } where
  coherent := coherent
  tickets k t ht := (h.tickets k t ht).mono evolves

section Run

variable {env : Env} {publisher : Option Publisher} {jwt : JwtSettings} {o o' : Office}

theorem managedNext_sound {slugs : Slugs} {m m' : Managed} {l : ManagedLabel} {out : ManagedOutput}
    (hs : SoundSys m.sys) (h : managedNext env publisher slugs m l = some (m', out)) : SoundSys m'.sys := by
  cases managedNext_step h with
  | sys step => exact hs.step (next_step step)
  | failed => exact hs
  | started => exact hs
  | deactivated => exact hs.write (hs.coherent.deactivate _ _) (.deactivate _ _ _)
  | recorded => exact hs.write (hs.coherent.log _) (.log _ _)
  | stopped => exact hs

/-- **A step of the office keeps the relay sound.** -/
theorem office_sound (hs : SoundSys o.managed.sys) {l : OfficeLabel} {out : OfficeOutput}
    (h : officeNext env publisher jwt o l = some (o', out)) : SoundSys o'.managed.sys := by
  cases l with
  | managed l =>
    obtain ⟨⟨m, output⟩, hnext, heq⟩ := Option.map_eq_some_iff.1 h
    cases heq
    exact managedNext_sound hs hnext
  | provision k id options =>
    simp only [officeNext, Option.ite_none_left_eq_some, Option.some.injEq] at h
    obtain ⟨-, h⟩ := h
    cases hbegin : beginProvision id options o.registry with
    | error e =>
      rw [hbegin] at h
      cases h
      exact hs
    | ok x =>
      rw [hbegin] at h
      cases h
      exact hs.provisions (beginProvision_provisions hbegin)
  | proceed k id users =>
    obtain ⟨p, hp, h⟩ := Option.map_eq_some_iff.1 h
    cases hnext : p.next env id users o.registry with
    | none =>
      simp only [hnext] at h
      cases h
      exact hs
    | some result =>
      simp only [hnext] at h
      cases result with
      | error e =>
        cases h
        exact hs
      | ok x =>
        cases h
        exact hs.provisions (Provision.next_provisions hnext)
  | stop k => cases h; exact hs
  | issue options id jti =>
    simp only [officeNext] at h
    split at h
    · cases h
      exact hs
    · rename_i hissue
      cases h
      exact hs.provisions (issue_provisions hissue)
  | list workspaceSlug brandSlug => cases h; exact hs

theorem soundSys_of_trail {es : List (OfficeLabel × OfficeOutput)} (hs : SoundSys o.managed.sys)
    (h : Trail (office env publisher jwt) o es o') : SoundSys o'.managed.sys :=
  h.invariant (I := fun o : Office => SoundSys o.managed.sys) (fun _ _ _ hs hstep => office_sound hs hstep) hs

/-- **Workspace and brand of every row agree in every state**, also while administrators set up
workspaces and brands, issue credentials and revoke connections next to the relay. -/
theorem coherence_administered (sound : SoundSys o.managed.sys) {es : List (OfficeLabel × OfficeOutput)}
    (h : Trail (office env publisher jwt) o es o') : Coherent o'.managed.sys.store :=
  (soundSys_of_trail sound h).coherent

end Run

namespace Sample

/-- The command sets up the workspace, the brand and the owner of the other samples. -/
def studioProvisioning : List OfficeLabel :=
  [.provision 0 workspace ⟨"studio", "Studio", ["brand:Brand"], some "jorge"⟩,
    .proceed 0 brand officeUsers, .proceed 0 (.ofNat 3) officeUsers]

/-- A post is scheduled in a workspace that has just been set up. -/
def officeScheduling : List OfficeLabel :=
  studioProvisioning ++ (scheduled .metaFacebookPage).map fun l => .managed (.sys l)

end Sample

/-- A publication of a brand that the command has set up. -/
theorem coherence_administered_sample : ∃ o : Office,
    (∃ q ∈ o.managed.sys.store.publications, q.id = Sample.publication) ∧
      Coherent o.managed.sys.store := by
  obtain ⟨es, o, run, -, hpublications⟩ := exists_of_runLabels
    (show ((runLabels (officeNext Sample.env none Sample.jwt) (fun _ _ => true) Sample.officeScheduling
      Sample.emptyOffice).any fun x => x.2.managed.sys.store.publications.rows.any fun q =>
        q.id = Sample.publication) = true by decide +kernel)
  obtain ⟨q, hq, hid⟩ := List.any_eq_true.1 hpublications
  exact ⟨o, ⟨q, hq, of_decide_eq_true hid⟩, coherence_administered (.initial _ _ _ _) run.of_guarded⟩

/-! ### The channels that are listed -/

/-- Content of a brand that can be scheduled: a variant with images, of an approved post. -/
structure Schedulable (s : Store) (brand : Brand) (v : PostVariant) (q : Post) : Prop where
  variant : v ∈ s.variants
  post : q ∈ s.posts ∧ q.id = v.post
  owner : q.tenant = brand.workspace ∧ q.brand = brand.id
  approved : q.state = .approved
  images : 1 ≤ v.mediaAssets.length ∧ v.mediaAssets.length ≤ 10

section Listed

variable {s : Store} {brand : Brand}

theorem mem_brandConnections {c : ChannelConnection} : c ∈ brandConnections brand s ↔
    c ∈ s.connections ∧ c.isActive = true ∧
      ∃ a ∈ s.accounts, a.id = c.socialAccount ∧ a.brand = brand.id := by
  unfold brandConnections
  rw [mem_orderBy, Table.mem_where]
  simp only [Bool.and_eq_true, Option.any_eq_true, decide_eq_true_eq]
  constructor
  · rintro ⟨hc, hactive, a, ha, hbrand⟩
    obtain ⟨ha, hid⟩ := Table.get?_eq_some.1 ha
    exact ⟨hc, hactive, a, ha, hid, hbrand⟩
  · rintro ⟨hc, hactive, a, ha, hid, hbrand⟩
    exact ⟨hc, hactive, a, Table.get?_eq_some.2 ⟨ha, hid⟩, hbrand⟩

/-- No channel is listed twice. -/
theorem nodup_brandConnections (brand : Brand) (s : Store) :
    ((brandConnections brand s).map (·.id)).Nodup := by
  have hrows : ∀ p : ChannelConnection → Bool, ((s.connections.where p).map (·.id)).Nodup := fun _ =>
    s.connections.nodup.sublist (List.filter_sublist.map _)
  exact ((orderBy_perm _ _).map _).nodup_iff.2 (hrows _)

/-- An account of a brand is one of its workspace. -/
theorem Coherent.account_tenant (h : Coherent s) (hb : brand ∈ s.brands) {a : SocialAccount}
    (ha : a ∈ s.accounts) (hbrand : a.brand = brand.id) : a.tenant = brand.workspace := by
  obtain ⟨b, hb', hid, hworkspace⟩ := h.accounts a ha
  obtain rfl : b = brand := Table.eq_of_key hb' hb (hid.trans hbrand)
  exact hworkspace.symm

/-- The images of a variant are ready, and as many as it has. -/
theorem Coherent.attached (h : Coherent s) {v : PostVariant} (hv : v ∈ s.variants) :
    (attachedAssets s v.id).length = v.mediaAssets.length ∧
      (attachedAssets s v.id).any (fun a => a.uploadState ≠ .ready) = false := by
  obtain ⟨p, hp⟩ := h.variants v hv
  refine ⟨hp.length_attached hv, List.any_eq_false.2 fun a ha => ?_⟩
  rw [attachedAssets_eq hv] at ha
  obtain ⟨ha, hin⟩ := Table.mem_where.1 ha
  obtain ⟨x, hx, hid, hready, -⟩ := hp.ready a.id (of_decide_eq_true hin)
  obtain rfl : x = a := Table.eq_of_key hx ha hid
  simp [hready]

/-- The checks of a scheduling call come to whether its connection is active. -/
theorem Coherent.checkSchedule (h : Coherent s) {v : PostVariant} {q : Post} (content : Schedulable s brand v q)
    {call : ScheduleCall} (hv : call.postVariant = v) (hq : call.post = q)
    (owner : call.tenant = brand.workspace ∧ call.brand = brand.id)
    (account : call.socialAccount.tenant = brand.workspace ∧ call.socialAccount.brand = brand.id) :
    Relay.checkSchedule call s = .ok () ↔ call.channelConnection.isActive = true := by
  obtain ⟨hlength, hready⟩ := h.attached content.variant
  unfold Relay.checkSchedule
  simp only [hv, hq, hlength, hready, owner.1, owner.2, account.1, account.2, content.owner.1,
    content.owner.2, content.approved, content.images, ne_eq, not_true_eq_false, or_self, false_or,
    if_false, and_self, Bool.false_eq_true]
  cases call.channelConnection.isActive <;> simp

/-- **The channels that are listed for a brand are those with which its content can be scheduled.** -/
theorem listed_iff (h : Coherent s) (hb : brand ∈ s.brands) {v : PostVariant} {q : Post}
    (content : Schedulable s brand v q) {header : Option String} {key subject : String}
    (idempotencyKey : idempotencyHeader header = .ok key) {now moment : Time} (future : now < moment)
    (id : Uuid) :
    (∃ c ∈ brandConnections brand s, c.id = id) ↔
      ∃ call, Offered .schedule brand.workspace brand.id subject now s
          (.createPublication header ⟨v.id, id, moment⟩) (.schedulePublication call) ∧
        Relay.checkSchedule call s = .ok () := by
  have hvalid : PublicationCreateData.validate now ⟨v.id, id, moment⟩ = .ok ⟨v.id, id, moment⟩ :=
    if_neg (not_le.2 future)
  constructor
  · rintro ⟨c, hc, rfl⟩
    obtain ⟨hc, hactive, a, ha, hid, hbrand⟩ := mem_brandConnections.1 hc
    have htenant := h.account_tenant hb ha hbrand
    refine ⟨_, .schedule rfl idempotencyKey hvalid ⟨content.variant, rfl⟩ content.post content.owner
      ⟨hc, rfl⟩ ⟨ha, hid⟩ ⟨htenant, hbrand⟩, ?_⟩
    exact (h.checkSchedule content rfl rfl ⟨rfl, rfl⟩ ⟨htenant, hbrand⟩).2 hactive
  · rintro ⟨call, hoffered, hchecked⟩
    cases hoffered with
    | @schedule _ _ _ d v' q' c a _ _ valid variant post postOwner connection account accountOwner =>
      rw [hvalid] at valid
      cases valid
      obtain rfl : v' = v := Table.eq_of_key variant.1 content.variant variant.2
      obtain rfl : q' = q := Table.eq_of_key post.1 content.post.1 (post.2.trans content.post.2.symm)
      have hactive := (h.checkSchedule content rfl rfl ⟨rfl, rfl⟩ accountOwner).1 hchecked
      exact ⟨c, mem_brandConnections.2 ⟨connection.1, hactive, a, account.1, account.2, accountOwner.2⟩,
        connection.2⟩

end Listed

/-- What the command prints. -/
theorem listBrandConnections_eq_ok {slugs : Slugs} {workspaceSlug brandSlug : String} {s : Store}
    {listing : Listing} (h : listBrandConnections slugs workspaceSlug brandSlug s = .ok listing) :
    ∃ brand, slugBrand slugs workspaceSlug brandSlug s = .ok brand ∧
      listing.stdout = (brandConnections brand s).map (·.line) := by
  obtain ⟨brand, hbrand, h⟩ := bind_eq_ok.1 h
  refine ⟨brand, hbrand, ?_⟩
  split at h
  · rename_i hnone
    cases h
    rw [hnone]
    rfl
  · cases h
    rfl

/-- **`list_brand_connections` prints a line for each channel with which a credential for the brand can
schedule its content, and for no other**, in every state of the office: rows of the store, each once,
for which the request is admitted and passes the checks of the service. -/
theorem listed_iff_schedulable {env : Env} {publisher : Option Publisher} {jwt : JwtSettings}
    {o o₁ o₂ : Office} (valid : o.Valid) (sound : SoundSys o.managed.sys)
    {es : List (OfficeLabel × OfficeOutput)} (run : Trail (office env publisher jwt) o es o₁)
    {workspaceSlug brandSlug : String} {listing : Listing}
    (listed : (office env publisher jwt).step o₁
      (.list workspaceSlug brandSlug, .listed (.ok listing)) o₂) :
    ∃ brand ∈ o₁.managed.sys.store.brands,
      o₁.directory.brands (workspaceSlug, brandSlug) = some (brand.id, brand.name, true) ∧
      listing.stdout = (brandConnections brand o₁.managed.sys.store).map (·.line) ∧
      ((brandConnections brand o₁.managed.sys.store).map (·.id)).Nodup ∧
      (∀ c ∈ brandConnections brand o₁.managed.sys.store, c ∈ o₁.managed.sys.store.connections) ∧
      ∀ v q, Schedulable o₁.managed.sys.store brand v q → ∀ header key subject now moment,
        idempotencyHeader header = .ok key → now < moment → ∀ id,
          ((∃ c ∈ brandConnections brand o₁.managed.sys.store, c.id = id) ↔
            ∃ call, Offered .schedule brand.workspace brand.id subject now o₁.managed.sys.store
                (.createPublication header ⟨v.id, id, moment⟩) (.schedulePublication call) ∧
              checkSchedule call o₁.managed.sys.store = .ok ()) := by
  have hlisting : listBrandConnections o₁.slugs workspaceSlug brandSlug o₁.managed.sys.store =
      .ok listing := by
    have hstep : officeNext env publisher jwt o₁ (.list workspaceSlug brandSlug) =
      some (o₂, .listed (.ok listing)) := listed
    simpa [officeNext] using (congrArg (Option.map Prod.snd) hstep)
  obtain ⟨brand, hbrand, hstdout⟩ := listBrandConnections_eq_ok hlisting
  obtain ⟨valid₁, -⟩ := administration_refines_trail valid run
  obtain ⟨name, -, hfound⟩ := o₁.registry.of_slugBrand valid₁.registry hbrand
  have hmem : brand ∈ o₁.managed.sys.store.brands :=
    (Table.mem_where.1 (o₁.registry.row_of_slugBrand hbrand)).1
  have hcoherent : Coherent o₁.managed.sys.store := (soundSys_of_trail sound run).coherent
  refine ⟨brand, hmem, hfound, hstdout, nodup_brandConnections _ _,
    fun c hc => (mem_brandConnections.1 hc).1, ?_⟩
  intro v q content header key subject now moment idempotencyKey future id
  exact listed_iff hcoherent hmem content idempotencyKey future id

namespace Sample

/-- There is content that can be scheduled, for every brand. -/
def hasContent (s : Store) : Bool :=
  s.brands.rows.all fun b => s.variants.rows.any fun v => s.posts.rows.any fun q =>
    q.id = v.post && q.tenant = b.workspace && q.brand = b.id && q.state = .approved &&
      1 ≤ v.mediaAssets.length && v.mediaAssets.length ≤ 10

theorem exists_of_hasContent {s : Store} (h : hasContent s = true) {brand : Brand} (hb : brand ∈ s.brands) :
    ∃ v q, Schedulable s brand v q := by
  obtain ⟨v, hv, hv'⟩ := List.any_eq_true.1 (List.all_eq_true.1 h brand hb)
  obtain ⟨q, hq, hq'⟩ := List.any_eq_true.1 hv'
  simp only [Bool.and_eq_true, decide_eq_true_eq] at hq'
  obtain ⟨⟨⟨⟨⟨hid, htenant⟩, hbrand⟩, happroved⟩, hmin⟩, hmax⟩ := hq'
  exact ⟨v, q, hv, ⟨hq, hid⟩, ⟨htenant, hbrand⟩, happroved, hmin, hmax⟩

/-- The next step lists a channel. -/
def listsNext (o : Office) : Bool :=
  match officeNext env none jwt o (.list "studio" "brand") with
  | some (_, .listed (.ok listing)) => !listing.stdout.isEmpty
  | _ => false

theorem exists_of_listsNext {o : Office} (h : listsNext o = true) : ∃ listing o₂,
    (office env none jwt).step o (.list "studio" "brand", .listed (.ok listing)) o₂ ∧
      listing.stdout ≠ [] := by
  unfold listsNext at h
  split at h
  · rename_i o₂ listing hnext
    exact ⟨listing, o₂, hnext, by simpa using h⟩
  · cases h

end Sample

/-- The channel that is listed can be scheduled for. -/
theorem listed_iff_schedulable_sample : ∃ (o : Office) (listing : Listing) (brand : Brand) (v : PostVariant)
    (c : ChannelConnection) (call : ScheduleCall), c ∈ o.managed.sys.store.connections ∧
      c.line ∈ listing.stdout ∧
      Offered .schedule brand.workspace brand.id "task:content" 0 o.managed.sys.store
        (.createPublication (some "k") ⟨v.id, c.id, 1⟩) (.schedulePublication call) ∧
      checkSchedule call o.managed.sys.store = .ok () := by
  obtain ⟨es, o, run, -, hend⟩ := exists_of_runLabels
    (show ((runLabels (officeNext Sample.env none Sample.jwt) (fun _ _ => true) Sample.officeScheduling
      Sample.emptyOffice).any fun x => Sample.hasContent x.2.managed.sys.store && Sample.listsNext x.2) =
        true by decide +kernel)
  obtain ⟨hcontent, hlists⟩ := Bool.and_eq_true_iff.1 hend
  obtain ⟨listing, o₂, hlisted, hlines⟩ := Sample.exists_of_listsNext hlists
  obtain ⟨brand, hmem, -, hstdout, -, hrows, hiff⟩ := listed_iff_schedulable Sample.emptyOffice_valid
    (.initial _ _ _ _) run.of_guarded hlisted
  obtain ⟨v, q, content⟩ := Sample.exists_of_hasContent hcontent hmem
  obtain ⟨c, hc⟩ : ∃ c, c ∈ brandConnections brand o.managed.sys.store := by
    rw [hstdout] at hlines
    exact List.exists_mem_of_ne_nil _ fun hnil => hlines (by rw [hnil]; rfl)
  have hkey : idempotencyHeader (some "k") = .ok "k" := by decide
  obtain ⟨call, hcall⟩ := (hiff v q content (some "k") "k" "task:content" 0 1 hkey (by decide) c.id).1
    ⟨c, hc, rfl⟩
  exact ⟨o, listing, brand, v, c, call, hrows c hc, hstdout ▸ List.mem_map_of_mem hc, hcall⟩

end Relay
