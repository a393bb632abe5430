import Relay.OwnContent

/-!
# What a task credential cannot do

The credentials that `issue_draft_ingest_token` prints are given to tasks outside of the team.  None
of them may publish directly, read connections or reach another brand, and one for drafts may do
nothing but upload images and draft posts, whatever the other users of the workspace do meanwhile.

* `Command.Within`: the commands that are within reach of a credential;
* `ChangesOnly`, `Contained`: what a transaction leaves alone;
* `credential_contained`: the credential reads nothing, and its transactions are contained.
-/

namespace Relay

open Relational Sequence Transition

/-! ### Within reach -/

/-- The command acts for the subject, in the brand of the workspace and for the purpose. -/
def Command.Within (purpose : Purpose) (w brand : Uuid) (subject : String) (s : Store) : Command → Prop
  | .createMediaUploadIntent tenant brand' subject' _ => tenant = w ∧ brand' = brand ∧ subject' = subject
  | .confirmMediaUpload asset tenant subject' => tenant = w ∧ subject' = subject ∧
    ∃ a ∈ s.assets, a.id = asset ∧ a.tenant = w ∧ a.brand = brand
  | .createPostDraft tenant brand' subject' _ _ => tenant = w ∧ brand' = brand ∧ subject' = subject
  | .approvePost _ tenant brand' subject' =>
    purpose = .schedule ∧ tenant = w ∧ brand' = brand ∧ subject' = subject
  | .schedulePublication call =>
    purpose = .schedule ∧ call.tenant = w ∧ call.brand = brand ∧ call.subject = subject
  | _ => False

section Reach

variable {env : Env} {now : Time} {purpose : Purpose} {w brand : Uuid} {subject : String}
  {p : RelayPrincipal} {s s' : Store} {r : ApiRequest}

/-- The principal of a credential. -/
def credentialPrincipal (purpose : Purpose) (w brand : Uuid) (subject : String) : RelayPrincipal :=
  ⟨subject, w, [brand], purpose.scopes⟩

/-- A view is open to a principal that has the scope it requires. -/
theorem scope_of_hasRelayScope {v : ViewPolicy} {m : Method} (h : hasRelayScope v m p s = true) {scope : String}
    (required : v.scopeFor m = some scope) : scope ∈ p.scopes := by
  have hscope := (Bool.and_eq_true_iff.1 h).1
  rw [required] at hscope
  simpa using hscope

/-- The brand that `get_brand` finds for the credential. -/
theorem getBrand_credential {text : String} {b : Brand}
    (h : getBrand (credentialPrincipal purpose w brand subject) text s = .ok b) : b.id = brand := by
  have hmem := (getBrand_covers h).brandIds
  simpa [credentialPrincipal] using hmem

theorem getTenant_credential {t : Tenant}
    (h : getTenant (credentialPrincipal purpose w brand subject) s = .ok t) : t.id = w :=
  (getTenant_eq_ok h).2.1

/-- The requests that are open to a credential: the views that read, and those of approval links and
connections, ask for other scopes. -/
inductive Open (purpose : Purpose) : ApiRequest → Prop
  | createUploadIntent (data : MediaUploadIntentData) : Open purpose (.createUploadIntent data)
  | confirmUpload (asset : Uuid) : Open purpose (.confirmUpload asset)
  | createPost (key : Option String) (data : PostCreateData) : Open purpose (.createPost key data)
  | approvePost (schedules : purpose = .schedule) (post : Uuid) : Open purpose (.approvePost post)
  | createPublication (schedules : purpose = .schedule) (key : Option String)
      (data : PublicationCreateData) : Open purpose (.createPublication key data)

theorem open_of_hasRelayScope
    (hscope : hasRelayScope r.route.1 r.route.2 (credentialPrincipal purpose w brand subject) s = true) :
    Open purpose r := by
  have hclosed : ∀ scope, r.route.1.scopeFor r.route.2 = some scope → scope ∈ purpose.scopes :=
    fun scope hrequired => scope_of_hasRelayScope hscope hrequired
  cases r with
  | createUploadIntent data => exact .createUploadIntent data
  | confirmUpload asset => exact .confirmUpload asset
  | createPost key data => exact .createPost key data
  | approvePost post =>
    have happrove := hclosed _ rfl
    cases purpose with
    | draft => simp [Purpose.scopes] at happrove
    | schedule => exact .approvePost rfl post
  | createPublication key data =>
    have hwrite := hclosed "publications:write" rfl
    cases purpose with
    | draft => simp [Purpose.scopes] at hwrite
    | schedule => exact .createPublication rfl key data
  | panelSummary | listPosts | getPost =>
    have hread := hclosed "posts:read" rfl
    cases purpose <;> simp [Purpose.scopes] at hread
  | requestApproval | revokeApproval =>
    have hwrite := hclosed "approvals:write" rfl
    cases purpose <;> simp [Purpose.scopes] at hwrite
  | listPublications | getPublication =>
    have hread := hclosed "publications:read" rfl
    cases purpose <;> simp [Purpose.scopes] at hread
  | startMetaOAuth =>
    have hwrite := hclosed "connections:write" rfl
    cases purpose <;> simp [Purpose.scopes] at hwrite
  | listConnections =>
    have hread := hclosed "connections:read" rfl
    cases purpose <;> simp [Purpose.scopes] at hread

/-- **The views let the credential do what is within its reach, and show it nothing.** -/
theorem handle_within {a : Admission}
    (hscope : hasRelayScope r.route.1 r.route.2 (credentialPrincipal purpose w brand subject) s = true)
    (h : handle env now (credentialPrincipal purpose w brand subject) s r = .ok a) :
    ∃ c, a = .command c ∧ c.Within purpose w brand subject s := by
  cases open_of_hasRelayScope hscope with
  | createPost key data =>
    obtain ⟨key, -, h⟩ := bind_eq_ok.1 h
    obtain ⟨payload, -, h⟩ := bind_eq_ok.1 h
    obtain ⟨b, hb, h⟩ := bind_eq_ok.1 h
    obtain ⟨t, ht, h⟩ := bind_eq_ok.1 h
    cases h
    exact ⟨_, rfl, getTenant_credential ht, getBrand_credential hb, rfl⟩
  | createUploadIntent data =>
    obtain ⟨upload, -, h⟩ := bind_eq_ok.1 h
    obtain ⟨b, hb, h⟩ := bind_eq_ok.1 h
    obtain ⟨t, ht, h⟩ := bind_eq_ok.1 h
    cases h
    exact ⟨_, rfl, getTenant_credential ht, getBrand_credential hb, rfl⟩
  | confirmUpload asset =>
    obtain ⟨t, ht, h⟩ := bind_eq_ok.1 h
    obtain ⟨row, hrow, h⟩ := bind_eq_ok.1 h
    cases h
    have hf := orNotFound_eq_ok.1 hrow
    obtain ⟨⟨-, howner⟩, hbrand⟩ : (row.id = asset ∧ row.tenant = t.id) ∧ row.brand ∈ [brand] := by
      simpa [credentialPrincipal] using Table.find?_some hf
    exact ⟨_, rfl, getTenant_credential ht, rfl, row, Table.mem_of_find? hf, rfl,
      howner.trans (getTenant_credential ht), List.mem_singleton.1 hbrand⟩
  | approvePost schedules post =>
    obtain ⟨t, ht, h⟩ := bind_eq_ok.1 h
    obtain ⟨row, -, h⟩ := bind_eq_ok.1 h
    obtain ⟨b, hb, h⟩ := bind_eq_ok.1 h
    cases h
    exact ⟨_, rfl, schedules, getTenant_credential ht, getBrand_credential hb, rfl⟩
  | createPublication schedules key data =>
    obtain ⟨key, -, h⟩ := bind_eq_ok.1 h
    obtain ⟨data, -, h⟩ := bind_eq_ok.1 h
    obtain ⟨t, ht, h⟩ := bind_eq_ok.1 h
    obtain ⟨⟨variant, post⟩, -, h⟩ := bind_eq_ok.1 h
    obtain ⟨⟨connection, account⟩, -, h⟩ := bind_eq_ok.1 h
    obtain ⟨b, hb, h⟩ := bind_eq_ok.1 h
    cases h
    exact ⟨_, rfl, schedules, getTenant_credential ht, getBrand_credential hb, rfl⟩

/-- What is within reach stays so while the assets live on. -/
theorem Command.Within.mono {c : Command} (h : c.Within purpose w brand subject s)
    (assets : s.assets.Grows MediaAsset.Becomes s'.assets) : c.Within purpose w brand subject s' := by
  cases c with
  | confirmMediaUpload asset tenant subject' =>
    obtain ⟨htenant, hsubject, a, ha, hid, howner, hbrand⟩ := h
    obtain ⟨_, ha', _, _, rfl, -⟩ := assets a ha
    exact ⟨htenant, hsubject, _, ha', hid, howner, hbrand⟩
  | _ => exact h

end Reach

/-! ### What a transaction leaves alone -/

/-- Only rows that meet `P` are written, and what is written meets `P`. -/
structure ChangesOnly {ρ κ : Type} [Keyed ρ κ] (P : ρ → Prop) (t t' : Table ρ) : Prop where
  kept : ∀ r ∈ t, r ∈ t' ∨ P r
  written : ∀ r ∈ t', r ∈ t ∨ P r

section ChangesOnly

variable {ρ κ : Type} [Keyed ρ κ] [DecidableEq κ] {P : ρ → Prop} {t t' : Table ρ} {r : ρ}

omit [DecidableEq κ] in
theorem ChangesOnly.refl (t : Table ρ) : ChangesOnly P t t := ⟨fun _ hr => .inl hr, fun _ hr => .inl hr⟩

theorem ChangesOnly.insert (h : t.insert? r = some t') (hr : P r) : ChangesOnly P t t' where
  kept x hx := .inl (Table.mem_of_mem_insert? h hx)
  written x hx := by
    rcases (Table.mem_insert? h).1 hx with hx | rfl
    · exact .inl hx
    · exact .inr hr

theorem ChangesOnly.update {f : Rewrite ρ} (hr : r ∈ t) (hP : P r) (hf : P (f r)) :
    ChangesOnly P t (t.update (Keyed.key r) f) where
  kept x hx := by
    by_cases hk : (Keyed.key x : κ) = Keyed.key r
    · exact .inr (Table.eq_of_key hx hr hk ▸ hP)
    · exact .inl (Table.mem_update_of_ne hx hk)
  written x hx := by
    rcases Table.of_mem_update hr hx with rfl | ⟨hx, -⟩
    · exact .inr hf
    · exact .inl hx

end ChangesOnly

/-- A transaction writes content of one brand for one subject and says so in the log, and for drafts
only new drafts. -/
structure Contained (purpose : Purpose) (w brand : Uuid) (subject : String) (s s' : Store) : Prop where
  assets : ChangesOnly (fun a : MediaAsset => a.tenant = w ∧ a.brand = brand) s.assets s'.assets
  posts : ChangesOnly (fun p : Post => p.tenant = w ∧ p.brand = brand) s.posts s'.posts
  variants : ChangesOnly (fun v : PostVariant =>
    ∃ p ∈ s'.posts, p.id = v.post ∧ p.tenant = w ∧ p.brand = brand) s.variants s'.variants
  publications : ChangesOnly (fun q : Publication => q.tenant = w ∧ q.brand = brand) s.publications
    s'.publications
  /-- whatever is written has its entry -/
  audit : s' = s ∨ ∃ e, s'.audit = s.audit ++ [e] ∧ e.tenant = w ∧ e.brand = some brand ∧
    e.actorId = subject
  /-- nothing else is written: no workspace, membership, connection, attempt or approval link -/
  rest : { s' with
    assets := s.assets
    posts := s.posts
    variants := s.variants
    publications := s.publications
    audit := s.audit } = s
  /-- a credential for drafts leaves every post and its variants as they are, and adds drafts of its
  subject -/
  drafts : purpose = .draft → s'.publications = s.publications ∧
    ((∀ p ∈ s.posts, p ∈ s'.posts) ∧
      ∀ p ∈ s'.posts, p ∈ s.posts ∨ (p.state = .draft ∧ p.createdBySubject = subject)) ∧
    (∀ v ∈ s.variants, v ∈ s'.variants) ∧
      ∀ v ∈ s'.variants, v ∈ s.variants ∨ ∀ p ∈ s.posts, p.id ≠ v.post

section Contained

variable {env : Env} {publisher : Option Publisher} {purpose : Purpose} {w brand : Uuid}
  {subject : String} {s s' : Store} {c : Command}

theorem Contained.refl (s : Store) : Contained purpose w brand subject s s where
  assets := .refl _
  posts := .refl _
  variants := .refl _
  publications := .refl _
  audit := .inl rfl
  rest := rfl
  drafts _ := ⟨rfl, ⟨fun _ hp => hp, fun _ hp => .inl hp⟩, fun _ hv => hv, fun _ hv => .inl hv⟩

/-- **A command within reach writes what is within reach.** -/
theorem Effect.contained {x : World} {r : Reply} (h : Effect env x c r s s')
    (within : c.Within purpose w brand subject s) : Contained purpose w brand subject s s' := by
  have hrefl : Contained purpose w brand subject s s := .refl s
  cases h with
  | uploadIntended _ _ insert =>
    obtain ⟨rfl, rfl, rfl⟩ := within
    exact { hrefl with
      assets := .insert insert ⟨rfl, rfl⟩
      audit := .inr ⟨_, rfl, rfl, rfl, rfl⟩ }
  | @confirmed _ _ _ _ row _ mem id owner =>
    obtain ⟨rfl, rfl, a, ha, haid, -, habrand⟩ := within
    obtain rfl : a = row := Table.eq_of_key ha mem (haid.trans id.symm)
    subst id habrand
    exact { hrefl with
      assets := .update mem ⟨owner, rfl⟩ ⟨owner, rfl⟩
      audit := .inr ⟨_, rfl, rfl, rfl, rfl⟩ }
  | drafted _ insert _ insertVariant =>
    obtain ⟨rfl, rfl, rfl⟩ := within
    exact { hrefl with
      posts := .insert insert ⟨rfl, rfl⟩
      variants := .insert insertVariant ⟨_, Table.mem_self_insert? insert, rfl, rfl, rfl⟩
      audit := .inr ⟨_, rfl, rfl, rfl, rfl⟩
      drafts := fun _ => by
        refine ⟨rfl, ⟨fun p hp => Table.mem_of_mem_insert? insert hp, fun p hp => ?_⟩,
          fun v hv => Table.mem_of_mem_insert? insertVariant hv, fun v hv => ?_⟩
        · rcases (Table.mem_insert? insert).1 hp with hp | rfl
          · exact .inl hp
          · exact .inr ⟨rfl, rfl⟩
        · rcases (Table.mem_insert? insertVariant).1 hv with hv | rfl
          · exact .inl hv
          · exact .inr (Table.fresh_of_insert? insert) }
  | approved mem id owner =>
    obtain ⟨rfl, rfl, rfl, rfl⟩ := within
    subst id
    exact { hrefl with
      posts := .update mem owner owner
      variants := ⟨fun v hv => .inl hv, fun v hv => .inl hv⟩
      audit := .inr ⟨_, rfl, rfl, rfl, rfl⟩
      drafts := nofun }
  | scheduled _ _ insert =>
    obtain ⟨rfl, rfl, rfl, rfl⟩ := within
    exact { hrefl with
      publications := .insert insert ⟨rfl, rfl⟩
      audit := .inr ⟨_, rfl, rfl, rfl, rfl⟩
      drafts := nofun }
  | alreadyConfirmed | draftReplayed | alreadyApproved | publicationReplayed => exact hrefl
  | _ => exact within.elim

end Contained

/-! ### The runs -/

/-- The processes hold commands that meet `Q`, and none is connecting an account. -/
def Carries (Q : Store → Command → Prop) (s : Sys) (w : ℕ → Prop) : Prop :=
  ∀ k t, w k → s.tickets k = some t → ∃ c, t = .admitted c ∧ Q s.store c

section Runs

variable {env : Env} {publisher : Option Publisher} {Q : Store → Command → Prop} {s s' : Sys}
  {w : ℕ → Prop} {credential : Credential} {l : Label} {o : Output}

/-- A step of the relay keeps it so, if what the credential asks for meets `Q`. -/
theorem Carries.next (h : Carries Q s w)
    (stable : ∀ c, Evolves s.store s'.store → Q s.store c → Q s'.store c)
    (consumes : ∀ raw, ¬ Q s.store (.consumeOAuthState raw))
    (hnext : Relay.next env publisher s l = some (s', o))
    (asks : ∀ k request p c, l = .receive k credential request →
      admitRequest env s.clock credential request s.store = .ok (p, .command c) → Q s.store c) :
    Carries Q s' (carry credential w (.sys l)) := by
  have hstep := next_step hnext
  intro k t hw hticket
  -- a process that holds its ticket from before holds it for the credential if it did so before
  have hbefore : s.tickets k = some t → w k := by
    intro hheld
    have hbusy : (s.tickets k).isSome = true := by rw [hheld]; rfl
    cases l with
    | receive k' credential' request =>
      by_cases hk : k = k'
      · subst hk
        simp only [Relay.next, hbusy, if_true] at hnext
        cases hnext
      · exact (Function.update_of_ne hk _ _).mp hw
    | receivePublic k' request =>
      by_cases hk : k = k'
      · subst hk
        simp only [Relay.next, hbusy, if_true] at hnext
        cases hnext
      · exact (Function.update_of_ne hk _ _).mp hw
    | _ => exact hw
  cases hstep.ticketOrigin hticket with
  | held hheld =>
    obtain ⟨c, rfl, hQ⟩ := h k t (hbefore hheld) hheld
    exact ⟨c, rfl, stable c hstep.evolves hQ⟩
  | @received _ _ _ _ c admission =>
    have hcredential : _ = credential := (Function.update_self k _ _).mp hw
    subst hcredential
    exact ⟨c, rfl, stable c hstep.evolves (asks _ _ _ _ rfl admission)⟩
  | receivedPublic => exact ((Function.update_self k _ _).mp hw).elim
  | identified ticket =>
    obtain ⟨_, hconnecting, -⟩ := h k _ hw ticket
    cases hconnecting
  | consumed =>
    obtain ⟨c, ticket, ⟨_, -, rfl, -⟩ | ⟨r, store, hrun, rfl, -⟩⟩ := next_commit hnext
    · change Function.update s.tickets k none k = _ at hticket
      rw [Function.update_self] at hticket
      cases hticket
    · change Function.update s.tickets k r.ticket k = _ at hticket
      rw [Function.update_self] at hticket
      cases runCommand_effect hrun with
      | oauthConsumed =>
        obtain ⟨_, hadmitted, hQ⟩ := h k _ hw ticket
        cases hadmitted
        exact (consumes _ hQ).elim
      | _ => cases hticket

/-- The command that issues credentials writes memberships only. -/
theorem issue_memberships {slugs : Slugs} {jwt : JwtSettings} {now : Time} {id jti : Uuid}
    {options : IngestOptions} {claims : List (String × Json)} {s s' : Store}
    (h : issueDraftIngestToken slugs jwt now id jti options s = .ok (claims, s')) :
    ∃ memberships, s' = { s with memberships } := by
  unfold issueDraftIngestToken at h
  split at h
  · cases h
  split at h
  · cases h
  obtain ⟨t, ht, heq⟩ := map_eq_ok.1 h
  cases heq
  unfold ingestMembership at ht
  split at ht
  · split at ht
    · cases ht
    · split at ht <;> cases ht
      exact ⟨_, rfl⟩
  · split at ht
    · cases ht
    · split at ht <;> cases ht <;> exact ⟨_, rfl⟩

/-- What the credential holds at the end of a run is within its reach. -/
theorem carries_within {slugs : Slugs} {jwt : JwtSettings} {b : Sys} {options : IngestOptions}
    {brand : Brand} {issuedAt : Time} {jti : Uuid} {es : List (IngestLabel × IngestOutput)}
    (run : Trail (ingestion env publisher slugs jwt) b es s) :
    Carries (fun t c => c.Within options.purpose brand.workspace brand.id options.subject t) s
      (Carried (verifiedCredential (ingestClaims jwt issuedAt jti brand options)) es) := by
  refine run.invariant_fold (I := fun s w => Carries _ s w) (fun r w e t hr hstep => ?_)
    fun _ _ hw => hw.elim
  obtain ⟨⟨l⟩ | ⟨options', id', jti'⟩, o⟩ := e
  · obtain ⟨⟨t', o'⟩, hnext, heq⟩ := Option.map_eq_some_iff.1 hstep
    cases heq
    refine hr.next (fun c hgrows hc => hc.mono hgrows.assets) (fun _ hc => hc) hnext ?_
    rintro k request p c rfl admission
    obtain ⟨hauth, hscope, hhandle⟩ := admitRequest_eq_ok admission
    rw [authenticate_ingest] at hauth
    cases hauth
    obtain ⟨_, hcommand, hwithin⟩ := handle_within hscope hhandle
    cases hcommand
    exact hwithin
  · change ingestNext env publisher slugs jwt r (.issue options' id' jti') = _ at hstep
    simp only [ingestNext] at hstep
    split at hstep <;> cases hstep
    · exact hr
    · obtain ⟨memberships, rfl⟩ := issue_memberships ‹_›
      intro k t hw hticket
      obtain ⟨c, rfl, hc⟩ := hr k t hw hticket
      exact ⟨c, rfl, hc.mono (.refl MediaAsset.Becomes.refl _)⟩

end Runs

/-- **A task credential is contained**, in every run and whatever the other users of the workspace do:
it reads nothing, and every transaction of a process that acts on it writes content of its brand for
its subject; a credential for drafts leaves every post and publication as it is. -/
theorem credential_contained {env : Env} {publisher : Option Publisher} {slugs : Slugs}
    {jwt : JwtSettings} {a b s : Sys} {options : IngestOptions} {id jti : Uuid}
    {claims : List (String × Json)} {es : List (IngestLabel × IngestOutput)}
    (issued : (ingestion env publisher slugs jwt).step a
      (.issue options id jti, .issued (.ok claims)) b)
    (run : Trail (ingestion env publisher slugs jwt) b es s) :
    ∃ brand, slugBrand slugs options.workspaceSlug options.brandSlug a.store = .ok brand ∧
      (∀ k request response, (.sys (.receive k (verifiedCredential claims) request),
        .sys (.response (.ok response))) ∉ es) ∧
      ∀ k draws s' o, Carried (verifiedCredential claims) es k →
        next env publisher s (.commit k draws) = some (s', o) →
          Contained options.purpose brand.workspace brand.id options.subject s.store s'.store := by
  obtain ⟨brand, hbrand, rfl⟩ : ∃ brand,
      slugBrand slugs options.workspaceSlug options.brandSlug a.store = .ok brand ∧
        claims = ingestClaims jwt a.clock jti brand options := by
    change ingestNext env publisher slugs jwt a (.issue options id jti) = _ at issued
    simp only [ingestNext] at issued
    split at issued <;> cases issued
    exact (issue_frame ‹_›).2.2
  refine ⟨brand, hbrand, fun k request response hmem => ?_, fun k draws s' o hcarried hnext => ?_⟩
  · obtain ⟨fs, gs, rfl⟩ := List.append_of_mem hmem
    obtain ⟨t, -, hrest⟩ := Trail.append_iff.1 run
    obtain ⟨u, hstep, -⟩ := Trail.cons_iff.1 hrest
    obtain ⟨⟨t', o'⟩, hnext, heq⟩ := Option.map_eq_some_iff.1 hstep
    cases heq
    cases next_step hnext with
    | answered admission =>
      obtain ⟨hauth, hscope, hhandle⟩ := admitRequest_eq_ok admission
      rw [authenticate_ingest] at hauth
      cases hauth
      obtain ⟨_, hcommand, -⟩ := handle_within hscope hhandle
      cases hcommand
  · obtain ⟨c, ticket, ⟨_, -, rfl, -⟩ | ⟨r, store, hrun, rfl, -⟩⟩ := next_commit hnext
    · exact .refl s.store
    · obtain ⟨_, hadmitted, hwithin⟩ := carries_within run k _ hcarried ticket
      cases hadmitted
      exact (runCommand_effect hrun).contained hwithin

/-- The credential is about to approve the post that it has drafted. -/
theorem credential_contained_sample : ∃ es s s' o,
    Carried (verifiedCredential Sample.claims) es 0 ∧
      next Sample.env none s (.commit 0 (Sample.draws 0)) = some (s', o) ∧
      Contained .schedule Sample.workspace Sample.brand "task:content" s.store s'.store := by
  obtain ⟨es, s, run, labels, hs⟩ := exists_of_runLabels
    (show ((runLabels (ingestNext Sample.env none Sample.taskSlugs Sample.jwt) (fun _ _ => true)
      (Sample.taskDrafting ++ Sample.taskApproving) Sample.issued).any fun x =>
        Sample.approvesOf "task:content" x.2) = true by decide +kernel)
  obtain ⟨s', _, _, _, _, _, _, hnext, -⟩ := Sample.exists_of_approvesOf hs
  have hcarried := Sample.carried_of_taskApproving labels
  obtain ⟨brand, hbrand, -, hcontained⟩ := credential_contained Sample.issued_step run.of_guarded
  have hself : slugBrand Sample.taskSlugs Sample.options.workspaceSlug Sample.options.brandSlug
      Sample.start.store = .ok ⟨Sample.brand, Sample.workspace, "Brand", "UTC", true⟩ := by rfl
  rw [hself] at hbrand
  cases hbrand
  exact ⟨es, s, s', _, hcarried, hnext, hcontained _ _ _ _ hcarried hnext⟩

end Relay
