import Relay.Administration
import Relay.Containment
import Relay.Timing

/-!
# From an empty database to a working credential

An administrator sets up the workspace, hands each task a credential for its brand, and leaves.

* `requested`, `Provided`: what a run of `provision_content_workspace` is asked for, and that it is there;
* `provision_complete`: once such a run is at its end it is there for good, whatever other runs and
  the relay do meanwhile, and a credential is refused for its days or its subject only;
* `Offered`: what a credential for a brand is good for, by the rows of the store;
* `credential_reach`: that is what it gets, no less and no more, in every later state until it expires.
-/

namespace Relay

open Relational Sequence Transition

/-! ### What the command is asked for -/

/-- What a run of the command is asked for, and the users there were at its commits so far. -/
structure Asked where
  options : ProvisionOptions
  users : List (Table User)

/-- What the run `k` of the command is asked for, unless it has failed or been stopped. -/
def requested (k : ℕ) (r : Option Asked) : OfficeLabel × OfficeOutput → Option Asked
  | (.provision k' _ options, .printed _) => if k' = k then some ⟨options, []⟩ else r
  | (.provision k' _ _, .failed _) => if k' = k then none else r
  | (.proceed k' _ users, .printed _) =>
    if k' = k then r.map fun a => { a with users := users :: a.users } else r
  | (.proceed k' _ _, .failed _) => if k' = k then none else r
  | (.stop k', _) => if k' = k then none else r
  | _ => r

/-- The brand of an option is there and active. -/
def Directory.HasBrand (d : Directory) (workspaceSlug raw : String) : Prop :=
  ∃ slug name i title, parseBrand raw = .ok (slug, name) ∧
    d.brands (workspaceSlug, slug) = some (i, title, true)

/-- The user that had this name when one of the tables was read is an active owner. -/
def Directory.HasOwner (d : Directory) (users : List (Table User)) (workspaceSlug username : String) :
    Prop :=
  ∃ t ∈ users, ∃ user i, t.find? (fun u => u.username = username) = some user ∧
    d.members (workspaceSlug, panelSubject user.id) = some (i, .owner, true)

/-- Everything that is asked for is there. -/
structure Provided (d : Directory) (a : Asked) : Prop where
  workspace : ∃ i name, d.workspaces a.options.workspaceSlug = some (i, name, true)
  brands : ∀ raw ∈ a.options.brand, d.HasBrand a.options.workspaceSlug raw
  owner : ∀ username, a.options.ownerUsername = some username → username ≠ "" →
    d.HasOwner a.users a.options.workspaceSlug username

/-- Everything but what is left of a run is there. -/
structure Underway (d : Directory) (a : Asked) (p : Provision) : Prop where
  slug : p.workspaceSlug = a.options.workspaceSlug
  workspace : ∃ i name, d.workspaces a.options.workspaceSlug = some (i, name, true)
  brands : ∃ made, a.options.brand = made ++ p.brand ∧
    ∀ raw ∈ made, d.HasBrand a.options.workspaceSlug raw
  owner : ∀ username, a.options.ownerUsername = some username →
    p.ownerUsername = some username ∨ d.HasOwner a.users a.options.workspaceSlug username

section Provided

variable {d d' : Directory} {a : Asked} {p : Provision} {users : List (Table User)}
  {workspaceSlug raw username : String}

theorem Directory.HasBrand.mono (h : d.HasBrand workspaceSlug raw) (lives : d.Lives d') :
    d'.HasBrand workspaceSlug raw := by
  obtain ⟨slug, name, i, title, hparse, hbrand⟩ := h
  obtain ⟨⟨title', active⟩, hbrand', hactive⟩ := lives.brands _ _ _ hbrand
  obtain rfl : active = true := hactive rfl
  exact ⟨slug, name, i, title', hparse, hbrand'⟩

theorem Directory.HasOwner.mono (h : d.HasOwner users workspaceSlug username) (lives : d.Lives d') :
    d'.HasOwner users workspaceSlug username := by
  obtain ⟨t, ht, user, i, hname, hmember⟩ := h
  obtain ⟨⟨role, active⟩, hmember', hactive, hrole⟩ := lives.members _ _ _ hmember
  obtain rfl : active = true := hactive rfl
  obtain rfl : role = .owner := hrole.elim id id
  exact ⟨t, ht, user, i, hname, hmember'⟩

/-- Tables that are read later change nothing. -/
theorem Directory.HasOwner.cons (h : d.HasOwner users workspaceSlug username) (t : Table User) :
    d.HasOwner (t :: users) workspaceSlug username := by
  obtain ⟨t', ht, howner⟩ := h
  exact ⟨t', List.mem_cons_of_mem _ ht, howner⟩

theorem Directory.Lives.workspace_active {i : Uuid} {name : String} (lives : d.Lives d')
    (h : d.workspaces workspaceSlug = some (i, name, true)) :
    ∃ name', d'.workspaces workspaceSlug = some (i, name', true) := by
  obtain ⟨⟨name', active⟩, h', hactive⟩ := lives.workspaces _ _ _ h
  obtain rfl : active = true := hactive rfl
  exact ⟨name', h'⟩

theorem Provided.mono (h : Provided d a) (lives : d.Lives d') : Provided d' a where
  workspace := by
    obtain ⟨i, name, hworkspace⟩ := h.workspace
    obtain ⟨name', hworkspace'⟩ := lives.workspace_active hworkspace
    exact ⟨i, name', hworkspace'⟩
  brands raw hraw := (h.brands raw hraw).mono lives
  owner username husername hne := (h.owner username husername hne).mono lives

theorem Underway.mono (h : Underway d a p) (lives : d.Lives d') : Underway d' a p where
  slug := h.slug
  workspace := by
    obtain ⟨i, name, hworkspace⟩ := h.workspace
    obtain ⟨name', hworkspace'⟩ := lives.workspace_active hworkspace
    exact ⟨i, name', hworkspace'⟩
  brands := by
    obtain ⟨made, hmade, hbrands⟩ := h.brands
    exact ⟨made, hmade, fun raw hraw => (hbrands raw hraw).mono lives⟩
  owner username husername := (h.owner username husername).imp_right fun howner => howner.mono lives

end Provided

/-- What a commit of the command prints, and what is left after it. -/
theorem Provision.next_eq_ok {env : Env} {id : Uuid} {users : Table User} {p p' : Provision}
    {r r' : Registry} {line : SavedLine} (h : p.next env id users r = some (.ok (line, p', r'))) :
    (∃ raw rest slug name created i, p.brand = raw :: rest ∧ parseBrand raw = .ok (slug, name) ∧
      line = ⟨.brand p.workspaceSlug slug name, created, i⟩ ∧ p' = { p with brand := rest }) ∨
    (∃ username user created i, p.brand = [] ∧ p.ownerUsername = some username ∧
      users.find? (fun u => u.username = username) = some user ∧
      line = ⟨.owner p.workspaceSlug user, created, i⟩ ∧ p' = { p with ownerUsername := none }) := by
  unfold Provision.next at h
  split at h
  · rename_i raw rest hbrands
    obtain ⟨⟨slug, name⟩, hparse, h⟩ := bind_eq_ok.1 (Option.some.inj h)
    obtain ⟨⟨⟨b, created⟩, r⟩, -, heq⟩ := bind_eq_ok.1 h
    cases heq
    exact .inl ⟨raw, rest, slug, name, created, b.id, hbrands, hparse, rfl, rfl⟩
  · rename_i hbrands
    split at h
    · cases h
    split at h
    · cases h
    rename_i username howner hne
    have hnext := Option.some.inj h
    unfold Provision.nextOwner at hnext
    split at hnext
    · cases hnext
    rename_i user huser
    obtain ⟨⟨⟨m, created⟩, r⟩, -, heq⟩ := bind_eq_ok.1 hnext
    cases heq
    exact .inr ⟨username, user, created, m.id, hbrands, howner, huser, rfl, rfl⟩

/-- When the command is at its end. -/
theorem Provision.next_eq_none {env : Env} {id : Uuid} {users : Table User} {p : Provision}
    {r : Registry} (h : p.next env id users r = none) :
    p.brand = [] ∧ ∀ username, p.ownerUsername = some username → username = "" := by
  unfold Provision.next at h
  split at h
  · cases h
  rename_i hbrands
  refine ⟨hbrands, fun username howner => ?_⟩
  simp only [howner] at h
  split at h
  · assumption
  · cases h

/-- What is left of a run after its next commit. -/
theorem Underway.next {env : Env} {id : Uuid} {users : Table User} {d d' : Directory} {a : Asked}
    {p p' : Provision} {r r' : Registry} {line : SavedLine} (h : Underway d a p) (lives : d.Lives d')
    (shows : d'.Shows line) (hnext : p.next env id users r = some (.ok (line, p', r'))) :
    Underway d' { a with users := users :: a.users } p' := by
  obtain ⟨hslug, hworkspace, ⟨made, hmade, hall⟩, howner⟩ := h.mono lives
  rcases Provision.next_eq_ok hnext with
    ⟨raw, rest, slug, name, created, i, hbrands, hparse, rfl, rfl⟩ |
      ⟨username, user, created, i, -, hasked, huser, rfl, rfl⟩
  · have hthere : d'.HasBrand a.options.workspaceSlug raw := ⟨slug, name, i, name, hparse, hslug ▸ shows⟩
    refine ⟨hslug, hworkspace, ⟨made ++ [raw], by rw [hmade, hbrands, List.append_assoc]; rfl, ?_⟩,
      fun username husername => (howner username husername).imp_right fun hthere => hthere.cons users⟩
    intro x hx
    rcases List.mem_append.1 hx with hx | hx
    · exact hall x hx
    · rw [List.mem_singleton.1 hx]
      exact hthere
  · refine ⟨hslug, hworkspace, ⟨made, hmade, hall⟩, fun username' husername => .inr ?_⟩
    rcases howner username' husername with hleft | hthere
    · rw [hasked] at hleft
      cases hleft
      exact ⟨users, List.mem_cons_self, user, i, huser, hslug ▸ shows⟩
    · exact hthere.cons users

/-! ### A run of the command -/

/-- What the run `k` was asked for is there, but for what is left of it. -/
def KeepsRequest (k : ℕ) (o : Office) (r : Option Asked) : Prop :=
  ∀ a, r = some a →
    match o.provisions k with
    | none => Provided o.directory a
    | some p => Underway o.directory a p

section Run

variable {env : Env} {publisher : Option Publisher} {jwt : JwtSettings} {o o' : Office} {k : ℕ}
  {r : Option Asked}

/-- A step that does not concern the run. -/
theorem KeepsRequest.frame (h : KeepsRequest k o r) (lives : o.directory.Lives o'.directory)
    (same : o'.provisions k = o.provisions k) : KeepsRequest k o' r := by
  intro a hr
  have hold := h a hr
  rw [same]
  split at hold
  · exact hold.mono lives
  · exact hold.mono lives

theorem keepsRequest_none (k : ℕ) (o : Office) : KeepsRequest k o none := fun _ hr => by cases hr

/-- A step of the run `k'` of the command, which may be another one. -/
theorem KeepsRequest.of_run {k' : ℕ} {asked : Option Asked} (h : KeepsRequest k o r)
    (lives : o.directory.Lives o'.directory) (other : k' ≠ k → o'.provisions k = o.provisions k)
    (own : k' = k → KeepsRequest k o' asked) :
    KeepsRequest k o' (if k' = k then asked else r) := by
  split
  · rename_i hk
    exact own hk
  · rename_i hk
    exact h.frame lives (other hk)

/-- The run after its first commit. -/
theorem keepsRequest_begin {id : Uuid} {options : ProvisionOptions} {store : Registry} {line : SavedLine}
    {p : Provision} {r' : Registry} (hbegin : beginProvision id options store = .ok (line, p, r'))
    (shows : o.directory.Shows line) (left : o.provisions k = some p) :
    KeepsRequest k o (some ⟨options, []⟩) := by
  obtain ⟨⟨⟨w, created⟩, r'⟩, -, heq⟩ := bind_eq_ok.1 hbegin
  cases heq
  intro a heq
  cases heq
  rw [left]
  exact ⟨rfl, ⟨_, _, shows⟩, ⟨[], rfl, fun _ hraw => absurd hraw List.not_mem_nil⟩,
    fun username husername => .inl husername⟩

/-- The run at its end. -/
theorem KeepsRequest.ended {id : Uuid} {users : Table User} {p : Provision} (h : KeepsRequest k o r)
    (left : o.provisions k = some p) (last : p.next env id users o.registry = none) :
    KeepsRequest k (o.setProvision k none) r := by
  intro a hr
  have hold := h a hr
  have hnone : (o.setProvision k none).provisions k = none := Function.update_self _ _ _
  rw [left] at hold
  rw [hnone]
  -- nothing is left of the run
  obtain ⟨hbrands, howner⟩ := Provision.next_eq_none last
  obtain ⟨made, hmade, hall⟩ := hold.brands
  rw [hbrands, List.append_nil] at hmade
  refine ⟨hold.workspace, fun raw hraw => hall raw (hmade ▸ hraw), fun username husername hne => ?_⟩
  exact (hold.owner username husername).resolve_left fun hleft => hne (howner username hleft)

/-- **One step of the office** for a run of the command. -/
theorem KeepsRequest.step (h : KeepsRequest k o r) (valid : o.Valid) {l : OfficeLabel}
    {out : OfficeOutput} (hnext : officeNext env publisher jwt o l = some (o', out)) :
    KeepsRequest k o' (requested k r (l, out)) := by
  obtain ⟨-, hstep⟩ := office_step valid hnext
  have hlives := hstep.lives
  have hother : ∀ {k' : ℕ} (r' : Registry) (p : Option Provision), k' ≠ k →
      ((o.write r').setProvision k' p).provisions k = o.provisions k :=
    fun _ _ hk => Function.update_of_ne (Ne.symm hk) _ _
  have hself : ∀ (r' : Registry) (p : Option Provision),
      ((o.write r').setProvision k p).provisions k = p := fun _ _ => Function.update_self _ _ _
  cases l with
  | managed l =>
    obtain ⟨⟨m, output⟩, -, heq⟩ := Option.map_eq_some_iff.1 hnext
    cases heq
    exact h.frame hlives rfl
  | provision k' id options =>
    simp only [officeNext, Option.ite_none_left_eq_some, Option.some.injEq] at hnext
    obtain ⟨-, hnext⟩ := hnext
    cases hbegin : beginProvision id options o.registry with
    | error e =>
      rw [hbegin] at hnext
      cases hnext
      exact h.of_run hlives (hother o.registry none) fun _ => keepsRequest_none k _
    | ok x =>
      obtain ⟨line, p, r'⟩ := x
      rw [hbegin] at hnext
      cases hnext
      refine h.of_run hlives (hother r' (some p)) ?_
      rintro rfl
      exact keepsRequest_begin hbegin hstep.shows (hself r' (some p))
  | proceed k' id users =>
    obtain ⟨p, hp, hnext⟩ := Option.map_eq_some_iff.1 hnext
    cases hresult : p.next env id users o.registry with
    | none =>
      simp only [hresult] at hnext
      cases hnext
      by_cases hk : k' = k
      · subst hk
        exact h.ended hp hresult
      · exact h.frame hlives (hother o.registry none hk)
    | some result =>
      simp only [hresult] at hnext
      cases result with
      | error e =>
        cases hnext
        exact h.of_run hlives (hother o.registry none) fun _ => keepsRequest_none k _
      | ok x =>
        obtain ⟨line, p', r'⟩ := x
        cases hnext
        refine h.of_run hlives (hother r' (some p')) ?_
        rintro rfl a hr
        obtain ⟨a, ha, rfl⟩ := Option.map_eq_some_iff.1 hr
        have hold := h a ha
        rw [hp] at hold
        rw [hself]
        exact hold.next hlives hstep.shows hresult
  | stop k' =>
    cases hnext
    exact h.of_run hlives (hother o.registry none) fun _ => keepsRequest_none k _
  | issue options id jti =>
    simp only [officeNext] at hnext
    split at hnext <;> cases hnext <;> exact h.frame hlives rfl
  | list workspaceSlug brandSlug =>
    cases hnext
    exact h.frame hlives rfl

/-- **What a run of the command was asked for is there once it is at its end, and stays there**; the
command that issues credentials then refuses one for a brand of the run exactly for its days, for
another role of its subject, or for what the database makes of a new membership. -/
theorem provision_complete (valid : o.Valid) {es : List (OfficeLabel × OfficeOutput)}
    (h : Trail (office env publisher jwt) o es o') {a : Asked}
    (asked : es.foldl (requested k) none = some a) (ended : o'.provisions k = none) :
    Provided o'.directory a ∧
      ∀ (q : IngestOptions) (id jti : Uuid) (e : IngestFailure),
        q.workspaceSlug = a.options.workspaceSlug →
        (∃ raw ∈ a.options.brand, ∃ name, parseBrand raw = .ok (q.brandSlug, name)) →
        (issueDraftIngestToken o'.slugs jwt o'.managed.sys.clock id jti q o'.managed.sys.store = .error e ↔
          o'.registry.Refused id q e) := by
  have hkeeps : o'.Valid ∧ KeepsRequest k o' (es.foldl (requested k) none) :=
    h.invariant_fold (I := fun o r => o.Valid ∧ KeepsRequest k o r)
      (fun o r e o' hI hstep => ⟨(office_step hI.1 hstep).1, hI.2.step hI.1 hstep⟩)
      ⟨valid, keepsRequest_none k o⟩
  have hprovided := hkeeps.2 a asked
  rw [ended] at hprovided
  refine ⟨hprovided, fun q id jti e hslug hbrand => ?_⟩
  obtain ⟨raw, hraw, name, hparse⟩ := hbrand
  obtain ⟨i, title, hworkspace⟩ := hprovided.workspace
  obtain ⟨slug, name', j, title', hparse', hthere⟩ := hprovided.brands raw hraw
  obtain ⟨rfl, -⟩ : q.brandSlug = slug ∧ name = name' := by simpa using hparse.symm.trans hparse'
  have hactive : o'.directory.active q.workspaceSlug q.brandSlug = true := by
    simp [Directory.active, hslug, hworkspace, hthere]
  exact Registry.issue_error_iff hkeeps.1.registry hactive

end Run

namespace Sample

/-- A credential whose subject is too long for its column. -/
def longSubject : IngestOptions := { ingestOptions with subject := String.ofList (List.replicate 256 'x') }

end Sample

/-- The run of the command that sets up two brands, and a credential that the database refuses. -/
theorem provision_complete_sample : ∃ (o : Office) (a : Asked), a.options = Sample.provisionOptions ∧
    Provided o.directory a ∧
    issueDraftIngestToken o.slugs Sample.jwt o.managed.sys.clock (.ofNat 6) (.ofNat 7) Sample.longSubject
      o.managed.sys.store = .error (.database .dataError) := by
  obtain ⟨es, o, run, -, hend⟩ := exists_of_runLabels
    (show ((runLabels (officeNext Sample.env none Sample.jwt) (fun _ _ => true) Sample.provisioning
      Sample.emptyOffice).any fun x => (x.1.foldl (requested 0) none).any
        (fun a => a.options = Sample.provisionOptions) && (x.2.provisions 0).isNone &&
          (x.2.directory.members (Sample.longSubject.workspaceSlug, Sample.longSubject.subject)).isNone) =
      true by decide +kernel)
  simp only [Bool.and_eq_true, Option.any_eq_true, decide_eq_true_eq, Option.isNone_iff_eq_none] at hend
  obtain ⟨⟨⟨a, hasked, hoptions⟩, hended⟩, hmember⟩ := hend
  obtain ⟨hprovided, hrefused⟩ :=
    provision_complete Sample.emptyOffice_valid run.of_guarded hasked hended
  refine ⟨o, a, hoptions, hprovided, (hrefused _ _ _ _ (by rw [hoptions]; rfl) ?_).2
    (.unfit (by decide) (.long hmember (by decide +kernel)))⟩
  rw [hoptions]
  exact ⟨"tavisasuite: TavisaSuite", by decide, "TavisaSuite", by decide⟩

/-! ### What a credential is good for -/

/-- A request of a credential that is within its reach, and the command it comes to. -/
inductive Offered (purpose : Purpose) (w brand : Uuid) (subject : String) (now : Time) (s : Store) :
    ApiRequest → Command → Prop
  | upload {data : MediaUploadIntentData} {upload : MediaUpload} (valid : data.validate = .ok upload)
      (names : data.brandId = brand) :
      Offered purpose w brand subject now s (.createUploadIntent data)
        (.createMediaUploadIntent w brand subject upload)
  | confirm {a : MediaAsset} (mem : a ∈ s.assets) (owner : a.tenant = w ∧ a.brand = brand) :
      Offered purpose w brand subject now s (.confirmUpload a.id) (.confirmMediaUpload a.id w subject)
  | draft {header : Option String} {key : String} {data : PostCreateData} {payload : PostPayload}
      (idempotencyKey : idempotencyHeader header = .ok key) (valid : data.validate = .ok payload)
      (names : payload.brandId = brand) :
      Offered purpose w brand subject now s (.createPost header data)
        (.createPostDraft w brand subject key payload)
  | approve {q : Post} (schedules : purpose = .schedule) (mem : q ∈ s.posts)
      (owner : q.tenant = w ∧ q.brand = brand) :
      Offered purpose w brand subject now s (.approvePost q.id) (.approvePost q.id w brand subject)
  | schedule {header : Option String} {key : String} {data d : PublicationCreateData} {v : PostVariant}
      {q : Post} {c : ChannelConnection} {a : SocialAccount} (schedules : purpose = .schedule)
      (idempotencyKey : idempotencyHeader header = .ok key) (valid : data.validate now = .ok d)
      (variant : v ∈ s.variants ∧ v.id = d.postVariantId) (post : q ∈ s.posts ∧ q.id = v.post)
      (postOwner : q.tenant = w ∧ q.brand = brand)
      (connection : c ∈ s.connections ∧ c.id = d.channelConnectionId)
      (account : a ∈ s.accounts ∧ a.id = c.socialAccount) (accountOwner : a.tenant = w ∧ a.brand = brand) :
      Offered purpose w brand subject now s (.createPublication header data)
        (.schedulePublication
          { tenant := w
            brand
            subject
            postVariant := v
            post := q
            channelConnection := c
            socialAccount := a
            scheduledFor := d.scheduledFor
            idempotencyKey := key })

/-- The workspace and the brand are active, and so is the subject, in a role that may edit. -/
structure InService (w brand : Uuid) (subject : String) (s : Store) : Prop where
  workspace : ∃ t ∈ s.tenants, t.id = w ∧ t.isActive = true
  brand : ∃ b ∈ s.brands, b.id = brand ∧ b.workspace = w ∧ b.isActive = true
  member : ∃ m ∈ s.memberships, m.workspace = w ∧ m.subject = subject ∧ m.role ∈ editorRoles ∧
    m.isActive = true

section Reach

variable {env : Env} {now : Time} {purpose : Purpose} {w brand : Uuid} {subject : String} {s : Store}
  {r : ApiRequest} {c : Command}

theorem InService.getTenant (h : InService w brand subject s) :
    ∃ t, getTenant (credentialPrincipal purpose w brand subject) s = .ok t ∧ t.id = w := by
  obtain ⟨t, ht, rfl, hactive⟩ := h.workspace
  refine ⟨t, orNotFound_eq_ok.2 (Table.find?_of_key ht ?_ fun x hx => ?_), rfl⟩
  · simp [credentialPrincipal, hactive]
  · rw [Bool.and_eq_true, decide_eq_true_eq] at hx
    exact hx.1

theorem InService.getBrand (h : InService w brand subject s) :
    ∃ b, getBrand (credentialPrincipal purpose w brand subject) brand.text s = .ok b ∧ b.id = brand := by
  obtain ⟨t, ht, htid⟩ : ∃ t, Relay.getTenant (credentialPrincipal purpose w brand subject) s = .ok t ∧
      t.id = w := h.getTenant
  obtain ⟨b, hb, rfl, hworkspace, hactive⟩ := h.brand
  refine ⟨b, bind_eq_ok.2 ⟨b.id, by rw [Uuid.parse_text]; rfl, ?_⟩, rfl⟩
  have hmem : b.id ∈ (credentialPrincipal purpose w b.id subject).brandIds := List.mem_singleton_self _
  rw [if_neg (not_not.2 hmem)]
  refine bind_eq_ok.2 ⟨t, ht, orNotFound_eq_ok.2 (Table.find?_of_key hb ?_ fun x hx => ?_)⟩
  · simp [hworkspace, htid, hactive]
  · simp only [Bool.and_eq_true, decide_eq_true_eq] at hx
    exact hx.1.1

/-- The views that write are open to the credential for what its purpose is. -/
theorem InService.permitted (h : InService w brand subject s) (hopen : Open purpose r) :
    hasRelayScope r.route.1 r.route.2 (credentialPrincipal purpose w brand subject) s = true := by
  obtain ⟨m, hm, hworkspace, hsubject, hrole, hactive⟩ := h.member
  have hrow : holdsRole (credentialPrincipal purpose w brand subject) editorRoles s = true := by
    rw [holdsRole, Option.isSome_iff_ne_none, Ne, Table.find?_eq_none]
    intro hnone
    exact hnone m hm (by simp [credentialPrincipal, hworkspace, hsubject, hrole, hactive])
  cases hopen with
  | approvePost schedules | createPublication schedules =>
    subst schedules
    exact Bool.and_eq_true_iff.2 ⟨rfl, hrow⟩
  | _ => cases purpose <;> exact Bool.and_eq_true_iff.2 ⟨rfl, hrow⟩

/-- What is within reach is open. -/
theorem Offered.opened (h : Offered purpose w brand subject now s r c) : Open purpose r := by
  cases h with
  | upload => exact .createUploadIntent _
  | confirm => exact .confirmUpload _
  | draft => exact .createPost _ _
  | approve schedules => exact .approvePost schedules _
  | schedule schedules => exact .createPublication schedules _ _

/-- What is within reach is admitted. -/
theorem handle_of_offered (served : InService w brand subject s)
    (h : Offered purpose w brand subject now s r c) :
    handle env now (credentialPrincipal purpose w brand subject) s r = .ok (.command c) := by
  obtain ⟨t, ht, htid⟩ : ∃ t, getTenant (credentialPrincipal purpose w brand subject) s = .ok t ∧
      t.id = w := served.getTenant
  obtain ⟨b, hb, hbid⟩ : ∃ b, getBrand (credentialPrincipal purpose w brand subject) brand.text s = .ok b ∧
      b.id = brand := served.getBrand
  have hnamed : ∀ id, id = brand →
      getBrand (credentialPrincipal purpose w brand subject) id.text s = .ok b := by
    rintro _ rfl
    exact hb
  have hmem : brand ∈ (credentialPrincipal purpose w brand subject).brandIds := List.mem_singleton_self _
  have hpost : ∀ q ∈ s.posts, q.tenant = w → q.brand = brand →
      visiblePost (credentialPrincipal purpose w brand subject) t q.id s = .ok q := by
    intro q hq htenant hbrand
    refine orNotFound_eq_ok.2 (Table.find?_of_key hq (by simp [htenant, htid, hbrand, hmem]) fun x hx => ?_)
    simp only [Bool.and_eq_true, decide_eq_true_eq] at hx
    exact hx.1.1
  cases h with
  | upload valid names =>
    refine bind_eq_ok.2 ⟨_, valid, bind_eq_ok.2 ⟨b, hnamed _ names, bind_eq_ok.2 ⟨t, ht, ?_⟩⟩⟩
    rw [htid, hbid]
    rfl
  | @confirm a mem owner =>
    have hfind : (s.assets.find? fun x => x.id = a.id && x.tenant = t.id &&
        decide (x.brand ∈ (credentialPrincipal purpose w brand subject).brandIds)) = some a := by
      refine Table.find?_of_key mem (by simp [owner, htid, hmem]) fun x hx => ?_
      simp only [Bool.and_eq_true, decide_eq_true_eq] at hx
      exact hx.1.1
    refine bind_eq_ok.2 ⟨t, ht, bind_eq_ok.2 ⟨a, orNotFound_eq_ok.2 hfind, ?_⟩⟩
    rw [htid]
    rfl
  | draft idempotencyKey valid names =>
    refine bind_eq_ok.2 ⟨_, idempotencyKey, bind_eq_ok.2 ⟨_, valid, bind_eq_ok.2 ⟨b,
      hnamed _ names, bind_eq_ok.2 ⟨t, ht, ?_⟩⟩⟩⟩
    rw [htid, hbid]
    rfl
  | approve _ mem owner =>
    refine bind_eq_ok.2 ⟨t, ht, bind_eq_ok.2 ⟨_, hpost _ mem owner.1 owner.2,
      bind_eq_ok.2 ⟨b, hnamed _ owner.2, ?_⟩⟩⟩
    rw [htid, hbid]
    rfl
  | @schedule header key data d v q c a _ idempotencyKey valid variant post postOwner connection account
      accountOwner =>
    have hvariant : visibleVariant (credentialPrincipal purpose w brand subject) t d.postVariantId s =
        .ok (v, q) := by
      rw [← variant.2]
      exact visibleVariant_of variant.1 post.1 post.2 (postOwner.1.trans htid.symm) (postOwner.2 ▸ hmem)
    have hconnection : brandConnection t q.brand d.channelConnectionId s = .ok (c, a) := by
      rw [← connection.2, postOwner.2, ← accountOwner.2]
      exact brandConnection_of connection.1 account.1 account.2 (accountOwner.1.trans htid.symm)
    refine bind_eq_ok.2 ⟨_, idempotencyKey, bind_eq_ok.2 ⟨d, valid, bind_eq_ok.2 ⟨t, ht,
      bind_eq_ok.2 ⟨(v, q), hvariant, bind_eq_ok.2 ⟨(c, a), hconnection,
        bind_eq_ok.2 ⟨b, hnamed _ postOwner.2, ?_⟩⟩⟩⟩⟩⟩
    rw [htid, hbid]
    rfl

/-- What is admitted is within reach. -/
theorem offered_of_handle {a : Admission} (hopen : Open purpose r)
    (h : handle env now (credentialPrincipal purpose w brand subject) s r = .ok a) :
    ∃ c, a = .command c ∧ Offered purpose w brand subject now s r c := by
  cases hopen with
  | createUploadIntent data =>
    obtain ⟨upload, hvalid, h⟩ := bind_eq_ok.1 h
    obtain ⟨b, hb, h⟩ := bind_eq_ok.1 h
    obtain ⟨t, ht, h⟩ := bind_eq_ok.1 h
    cases h
    have hnames : data.brandId = brand := (getBrand_eq_ok hb).1.symm.trans (getBrand_credential hb)
    rw [getTenant_credential ht, getBrand_credential hb]
    exact ⟨_, rfl, .upload hvalid hnames⟩
  | confirmUpload asset =>
    obtain ⟨t, ht, h⟩ := bind_eq_ok.1 h
    obtain ⟨row, hrow, h⟩ := bind_eq_ok.1 h
    cases h
    have hf := orNotFound_eq_ok.1 hrow
    obtain ⟨⟨rfl, howner⟩, hbrand⟩ : (row.id = asset ∧ row.tenant = t.id) ∧ row.brand ∈ [brand] := by
      simpa [credentialPrincipal] using Table.find?_some hf
    rw [getTenant_credential ht] at howner ⊢
    exact ⟨_, rfl, .confirm (Table.mem_of_find? hf) ⟨howner, List.mem_singleton.1 hbrand⟩⟩
  | createPost key data =>
    obtain ⟨header, hheader, h⟩ := bind_eq_ok.1 h
    obtain ⟨payload, hvalid, h⟩ := bind_eq_ok.1 h
    obtain ⟨b, hb, h⟩ := bind_eq_ok.1 h
    obtain ⟨t, ht, h⟩ := bind_eq_ok.1 h
    cases h
    have hnames : payload.brandId = brand := (getBrand_eq_ok hb).1.symm.trans (getBrand_credential hb)
    rw [getTenant_credential ht, getBrand_credential hb]
    exact ⟨_, rfl, .draft hheader hvalid hnames⟩
  | approvePost schedules post =>
    obtain ⟨t, ht, h⟩ := bind_eq_ok.1 h
    obtain ⟨q, hq, h⟩ := bind_eq_ok.1 h
    obtain ⟨b, hb, h⟩ := bind_eq_ok.1 h
    cases h
    obtain ⟨hmem, rfl, howner, hbrand⟩ := visiblePost_eq_ok hq
    rw [getTenant_credential ht] at howner ⊢
    rw [getBrand_credential hb]
    exact ⟨_, rfl, .approve schedules hmem ⟨howner, List.mem_singleton.1 hbrand⟩⟩
  | createPublication schedules key data =>
    obtain ⟨header, hheader, h⟩ := bind_eq_ok.1 h
    obtain ⟨d, hvalid, h⟩ := bind_eq_ok.1 h
    obtain ⟨t, ht, h⟩ := bind_eq_ok.1 h
    obtain ⟨⟨v, q⟩, hvariant, h⟩ := bind_eq_ok.1 h
    obtain ⟨⟨c, x⟩, hconnection, h⟩ := bind_eq_ok.1 h
    obtain ⟨b, hb, h⟩ := bind_eq_ok.1 h
    cases h
    obtain ⟨hv, hvid, hq, hqid, howner, hbrand⟩ := visibleVariant_eq_ok hvariant
    obtain ⟨hc, hcid, hx, hxid, hxowner, hxbrand⟩ := brandConnection_eq_ok hconnection
    have hof : q.brand = brand := List.mem_singleton.1 hbrand
    rw [getTenant_credential ht] at howner hxowner ⊢
    rw [getBrand_credential hb]
    exact ⟨_, rfl, .schedule schedules hheader hvalid ⟨hv, hvid⟩ ⟨hq, hqid⟩ ⟨howner, hof⟩ ⟨hc, hcid⟩
      ⟨hx, hxid⟩ ⟨hxowner, hxbrand.trans hof⟩⟩

/-- **The views admit of the credential what its purpose is**, and nothing else. -/
theorem admitHandler_credential (served : InService w brand subject s) {a : Admission} :
    admitHandler env now (credentialPrincipal purpose w brand subject) r s = .ok a ↔
      ∃ c, a = .command c ∧ Offered purpose w brand subject now s r c := by
  unfold admitHandler
  constructor
  · intro h
    split at h
    · rename_i hscope
      exact offered_of_handle (open_of_hasRelayScope hscope) h
    · cases h
  · rintro ⟨c, rfl, hoffered⟩
    rw [if_pos (served.permitted hoffered.opened)]
    exact handle_of_offered served hoffered

end Reach

/-- What the directory tells of the three is there in the tables. -/
theorem inService_of_directory {r : Registry} (valid : r.Valid) {workspaceSlug brandSlug subject : String}
    {w brand i : Uuid} {name title : String} {role : MembershipRole}
    (workspace : r.directory.workspaces workspaceSlug = some (w, name, true))
    (found : r.directory.brands (workspaceSlug, brandSlug) = some (brand, title, true))
    (member : r.directory.members (workspaceSlug, subject) = some (i, role, true))
    (edits : role ∈ editorRoles) : InService w brand subject r.store := by
  obtain ⟨t, ht, -, rfl, htvalue⟩ := valid.workspaces.book_eq_some.1 workspace
  obtain ⟨b, hb, hcolumns, rfl, hbvalue⟩ := valid.brands.book_eq_some.1
    ((Book.under_of workspace).symm.trans found)
  obtain ⟨m, hm, hkeys, -, hmvalue⟩ := valid.members.book_eq_some.1
    ((Book.under_of workspace).symm.trans member)
  obtain rfl : m.role = role := congrArg Prod.fst hmvalue
  exact ⟨⟨t, ht, rfl, congrArg Prod.snd htvalue⟩,
    ⟨b, hb, rfl, congrArg Prod.fst hcolumns, congrArg Prod.snd hbvalue⟩,
    ⟨m, hm, congrArg Prod.fst hkeys, congrArg Prod.snd hkeys, edits, congrArg Prod.snd hmvalue⟩⟩

/-! ### Until it expires -/

/-- The moment at which a credential expires that is issued at `issuedAt`: a whole second. -/
def IngestOptions.expiresAt (o : IngestOptions) (issuedAt : Time) : Time :=
  Time.numericDate (issuedAt + Relay.days o.days) * seconds 1

section Expiry

variable {env : Env} {publisher : Option Publisher} {jwt : JwtSettings} {o o' : Office}

theorem numericDate_le (t : Time) : t.numericDate * seconds 1 ≤ t :=
  Int.ediv_mul_le t (by decide)

/-- What a token that is issued decodes to at a later moment. -/
theorem JwtModule.Dates.decode {m : JwtModule} {issuedAt now : Time} {jti : Uuid} {brand : Brand}
    {q : IngestOptions} (dates : m.Dates (ingestClaims jwt issuedAt jti brand q)) (later : issuedAt ≤ now) :
    m.decode now (m.encode (ingestClaims jwt issuedAt jti brand q)) =
      if q.expiresAt issuedAt ≤ now then none else some (ingestClaims jwt issuedAt jti brand q) :=
  dates _ _ now rfl rfl ((numericDate_le issuedAt).trans later)

theorem managedNext_clock_le {slugs : Slugs} {m m' : Managed} {l : ManagedLabel} {out : ManagedOutput}
    (h : managedNext env publisher slugs m l = some (m', out)) : m.sys.clock ≤ m'.sys.clock := by
  cases managedNext_step h with
  | sys step => exact (next_step step).clock_le
  | _ => exact le_rfl

/-- No step of the office turns back the clock. -/
theorem office_clock_le {l : OfficeLabel} {out : OfficeOutput}
    (h : officeNext env publisher jwt o l = some (o', out)) :
    o.managed.sys.clock ≤ o'.managed.sys.clock := by
  have hcommit : ∀ {k : ℕ} {x : Except ProvisionFailure (SavedLine × Provision × Registry)},
      o.commit k x = (o', out) → o.managed.sys.clock ≤ o'.managed.sys.clock := by
    intro k x hx
    cases x <;> cases hx <;> exact le_rfl
  cases l with
  | managed l =>
    obtain ⟨⟨m, output⟩, hnext, heq⟩ := Option.map_eq_some_iff.1 h
    cases heq
    exact managedNext_clock_le hnext
  | provision k id options =>
    simp only [officeNext, Option.ite_none_left_eq_some, Option.some.injEq] at h
    exact hcommit h.2
  | proceed k id users =>
    obtain ⟨p, -, h⟩ := Option.map_eq_some_iff.1 h
    split at h
    · cases h
      exact le_rfl
    · exact hcommit h
  | issue options id jti =>
    simp only [officeNext] at h
    split at h <;> cases h <;> exact le_rfl
  | stop => cases h; exact le_rfl
  | list => cases h; exact le_rfl

/-- What a credential that is issued is for, and when it was. -/
theorem issued_credential (valid : o.Valid) {options : IngestOptions} {id jti : Uuid}
    {claims : List (String × Json)}
    (h : officeNext env publisher jwt o (.issue options id jti) = some (o', .issued (.ok claims))) :
    ∃ brand name title i, claims = ingestClaims jwt o.managed.sys.clock jti brand options ∧
      o'.managed.sys.clock = o.managed.sys.clock ∧
      o'.directory.workspaces options.workspaceSlug = some (brand.workspace, name, true) ∧
      o'.directory.brands (options.workspaceSlug, options.brandSlug) = some (brand.id, title, true) ∧
      o'.directory.members (options.workspaceSlug, options.subject) = some (i, .contentCreator, true) := by
  simp only [officeNext] at h
  split at h <;> cases h
  rename_i store hissue
  obtain ⟨-, -, brand, i, name, title, created, hworkspace, hbrand, hwrites, hframe, rfl⟩ :=
    o.registry.issue_ok valid.registry hissue
  have hdirectory : (o.write ⟨store, o.slugs⟩).directory =
      { o.directory with members := (⟨store, o.registry.slugs⟩ : Registry).directory.members } := hframe
  rw [hdirectory]
  exact ⟨brand, name, title, i, rfl, rfl, hworkspace, hbrand, hwrites.found⟩

end Expiry

/-- **A credential works, for its purpose and its brand only**, in every state after it is issued,
whatever the relay and the commands have done meanwhile: until it expires the requests it gets
through are exactly those within its reach, and then it gets none through. -/
theorem credential_reach {env : Env} {publisher : Option Publisher} {jwt : JwtSettings} {o o₁ o₂ : Office}
    (valid : o.Valid) {options : IngestOptions} {id jti : Uuid} {claims : List (String × Json)}
    (issued : (office env publisher jwt).step o (.issue options id jti, .issued (.ok claims)) o₁)
    {m : JwtModule} (dates : m.Dates claims)
    {es : List (OfficeLabel × OfficeOutput)} (run : Trail (office env publisher jwt) o₁ es o₂) :
    ∃ w brand name title, o₂.directory.workspaces options.workspaceSlug = some (w, name, true) ∧
      o₂.directory.brands (options.workspaceSlug, options.brandSlug) = some (brand, title, true) ∧
      ∀ r, (o₂.managed.sys.clock < options.expiresAt o.managed.sys.clock → ∀ p a,
          admitRequest env o₂.managed.sys.clock (m.credential o₂.managed.sys.clock (m.encode claims)) r
              o₂.managed.sys.store = .ok (p, a) ↔
            p = credentialPrincipal options.purpose w brand options.subject ∧ ∃ c, a = .command c ∧
              Offered options.purpose w brand options.subject o₂.managed.sys.clock o₂.managed.sys.store r c) ∧
        (options.expiresAt o.managed.sys.clock ≤ o₂.managed.sys.clock →
          admitRequest env o₂.managed.sys.clock (m.credential o₂.managed.sys.clock (m.encode claims)) r
              o₂.managed.sys.store =
            .error (.authenticationFailed "Invalid or expired service credential.")) := by
  obtain ⟨valid₁, -⟩ := office_step valid issued
  obtain ⟨brand, name, title, i, rfl, hclock, hworkspace, hbrand, hmember⟩ := issued_credential valid issued
  obtain ⟨valid₂, htrail⟩ := administration_refines_trail valid₁ run
  have hlater : o.managed.sys.clock ≤ o₂.managed.sys.clock := by
    rw [← hclock]
    exact run.relates (I := fun _ => True) (R := fun a b => a.managed.sys.clock ≤ b.managed.sys.clock)
      (fun _ => le_rfl) le_trans (fun _ _ _ _ _ => trivial) (fun _ _ _ _ h => office_clock_le h) trivial
  have hlives := Directory.lives htrail
  obtain ⟨name', hworkspace'⟩ := hlives.workspace_active hworkspace
  obtain ⟨⟨title', active⟩, hbrand', hactive⟩ := hlives.brands _ _ _ hbrand
  obtain rfl : active = true := hactive rfl
  obtain ⟨⟨role, mactive⟩, hmember', hmactive, hrole⟩ := hlives.members _ _ _ hmember
  obtain rfl : mactive = true := hmactive rfl
  have hedits : role ∈ editorRoles := by
    rcases hrole with hrole | hrole
    · rw [show role = .contentCreator from hrole]
      decide
    · rw [show role = .owner from hrole]
      decide
  have hserved : InService brand.workspace brand.id options.subject o₂.managed.sys.store :=
    inService_of_directory valid₂.registry hworkspace' hbrand' hmember' hedits
  refine ⟨brand.workspace, brand.id, name', title', hworkspace', hbrand', fun r =>
    ⟨fun hvalid p a => ?_, fun hexpired => ?_⟩⟩
  · rw [JwtModule.credential, dates.decode hlater, if_neg (not_le.2 hvalid), ← admitHandler_credential hserved]
    unfold admitRequest
    rw [← verifiedCredential, authenticate_ingest]
    constructor
    · intro h
      obtain ⟨x, hx, heq⟩ := map_eq_ok.1 h
      cases heq
      exact ⟨rfl, hx⟩
    · rintro ⟨rfl, ha⟩
      exact map_eq_ok.2 ⟨a, ha, rfl⟩
  · rw [JwtModule.credential, dates.decode hlater, if_pos hexpired]
    rfl

namespace Sample

/-- The next step issues a credential. -/
def issuesNext (o : Office) : Bool :=
  match officeNext env none jwt o (.issue ingestOptions (.ofNat 6) (.ofNat 7)) with
  | some (_, .issued (.ok _)) => true
  | _ => false

theorem exists_of_issuesNext {o : Office} (h : issuesNext o = true) : ∃ claims o₁,
    (office env none jwt).step o (.issue ingestOptions (.ofNat 6) (.ofNat 7), .issued (.ok claims)) o₁ := by
  unfold issuesNext at h
  split at h
  · rename_i o₁ claims hnext
    exact ⟨claims, o₁, hnext⟩
  · cases h

/-- An image for a brand. -/
def portrait (brand : Uuid) : MediaUploadIntentData := ⟨brand, "a.png", "image/png", 1, none⟩

theorem portrait_valid (brand : Uuid) :
    (portrait brand).validate = .ok ⟨"a.png", "image/png", 1, ""⟩ := by
  have hsame : (portrait brand).validate = (portrait (.ofNat 0)).validate := rfl
  rw [hsame]
  decide +kernel

/-- One token, which stands for some claims until they expire. -/
def jwtModule (claims : List (String × Json)) : JwtModule where
  encode _ := "token"
  decode now _ :=
    match Json.get claims "exp" with
    | some (.int exp) => if exp * seconds 1 ≤ now then none else some claims
    | _ => none

theorem jwtModule_dates (claims : List (String × Json)) : (jwtModule claims).Dates claims := by
  intro iat exp now _ hexp _
  simp only [jwtModule, hexp]

/-- Time passes. -/
theorem advances (o : Office) (duration : ℕ) : ∃ es o', Trail (office env none jwt) o es o' ∧
    o'.managed.sys.clock = o.managed.sys.clock + duration :=
  ⟨[(.managed (.sys (.advance duration)), .managed (.sys .silent))], _, .single rfl, rfl⟩

end Sample

/-- The credential for one of two brands may upload an image for it on its last day, and not after it. -/
theorem credential_reach_sample : ∃ (o o' : Office) (token : String) (m : JwtModule) (p : RelayPrincipal)
    (c : Command) (brand : Uuid), o.managed.sys.clock = days 14 - 1 ∧ o'.managed.sys.clock = days 14 ∧
    admitRequest Sample.env o.managed.sys.clock (m.credential o.managed.sys.clock token)
      (.createUploadIntent (Sample.portrait brand)) o.managed.sys.store = .ok (p, .command c) ∧
    admitRequest Sample.env o'.managed.sys.clock (m.credential o'.managed.sys.clock token)
      (.createUploadIntent (Sample.portrait brand)) o'.managed.sys.store =
        .error (.authenticationFailed "Invalid or expired service credential.") := by
  obtain ⟨es, o, run, -, hissues⟩ := exists_of_runLabels
    (show ((runLabels (officeNext Sample.env none Sample.jwt) (fun _ _ => true) Sample.provisioning
      Sample.emptyOffice).any fun x => x.2.managed.sys.clock = 0 && Sample.issuesNext x.2) = true by
        decide +kernel)
  obtain ⟨hclock, hissues⟩ := Bool.and_eq_true_iff.1 hissues
  replace hclock := of_decide_eq_true hclock
  obtain ⟨valid, -⟩ := administration_refines_trail Sample.emptyOffice_valid run.of_guarded
  obtain ⟨claims, o₁, hissued⟩ := Sample.exists_of_issuesNext hissues
  obtain ⟨-, -, -, -, -, hsame, -⟩ := issued_credential valid hissued
  obtain ⟨fs, o₂, hrun, hclock₂⟩ := Sample.advances o₁ (14 * 24 * 3600 * 1000000 - 1)
  obtain ⟨gs, o₃, hrun', hclock₃⟩ := Sample.advances o₁ (14 * 24 * 3600 * 1000000)
  rw [hsame, hclock] at hclock₂ hclock₃
  obtain ⟨w, brand, _, _, -, -, hreach⟩ :=
    credential_reach valid hissued (Sample.jwtModule_dates claims) hrun
  obtain ⟨_, _, _, _, -, -, hexpired⟩ :=
    credential_reach valid hissued (Sample.jwtModule_dates claims) hrun'
  refine ⟨o₂, o₃, _, Sample.jwtModule claims, _, _, brand, hclock₂, hclock₃, ((hreach _).1 ?_ _ _).2
    ⟨rfl, _, rfl, .upload (Sample.portrait_valid brand) rfl⟩, (hexpired _).2 ?_⟩
  · rw [hclock, hclock₂]
    decide
  · rw [hclock, hclock₃]
    decide

end Relay
