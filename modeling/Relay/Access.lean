import Relay.Evolution

/-!
# What the views have checked

* `Provisioned`, `RelayPrincipal.Covers`: a brand exists in its workspace, and is within reach of
  a principal;
* `Admitted p s c`: what a tenant-scoped view has checked at the store `s` before it submits the
  command `c` for `p`, `Answered`: what it shows without a command, `handle_eq_ok`;
* `admitRequest_eq_ok`, `admitPublic_command`: what precedes a handler, and what the public views
  submit.
-/

namespace Relay

open Relational Sequence

/-! ### Brands within reach -/

/-- The brand exists and its workspace is the tenant. -/
def Provisioned (s : Store) (tenant brand : Uuid) : Prop :=
  ∃ b ∈ s.brands, b.id = brand ∧ b.workspace = tenant

/-- The tenant is the workspace of the principal and the brand is one of its brands there. -/
structure RelayPrincipal.Covers (p : RelayPrincipal) (s : Store) (tenant brand : Uuid) : Prop where
  workspace : tenant = p.workspaceId
  brandIds : brand ∈ p.brandIds
  provisioned : Provisioned s tenant brand

theorem Provisioned.mono {s s' : Store} (h : Evolves s s') {tenant brand : Uuid}
    (k : Provisioned s tenant brand) : Provisioned s' tenant brand := by
  obtain ⟨b, hb, hid, hworkspace⟩ := k
  exact ⟨b, h.brands.symm ▸ hb, hid, hworkspace⟩

theorem RelayPrincipal.Covers.mono {p : RelayPrincipal} {s s' : Store} (h : Evolves s s')
    {tenant brand : Uuid} (k : p.Covers s tenant brand) : p.Covers s' tenant brand :=
  { k with provisioned := k.provisioned.mono h }

/-! ### The checks of the views -/

section Checks

variable {p : RelayPrincipal} {s : Store} {tenant : Tenant}

theorem orNotFound_eq_ok {α : Type} {x : Option α} {a : α} : orNotFound x = .ok a ↔ x = some a := by
  cases x <;> simp [orNotFound]

theorem getTenant_eq_ok (h : getTenant p s = .ok tenant) :
    tenant ∈ s.tenants ∧ tenant.id = p.workspaceId ∧ tenant.isActive = true := by
  have hf := orNotFound_eq_ok.1 h
  exact ⟨Table.mem_of_find? hf, by simpa using Table.find?_some hf⟩

theorem getBrand_eq_ok {brandId : Uuid} {brand : Brand} (h : getBrand p brandId.text s = .ok brand) :
    brand.id = brandId ∧ p.Covers s p.workspaceId brandId := by
  obtain ⟨id, hid, h⟩ := bind_eq_ok.1 h
  rw [orNotFound_eq_ok, Uuid.parse_text, Option.some.injEq] at hid
  subst hid
  split at h
  · cases h
  rename_i hmem
  obtain ⟨tenant, htenant, h⟩ := bind_eq_ok.1 h
  have hf := orNotFound_eq_ok.1 h
  obtain ⟨⟨hid, hworkspace⟩, -⟩ : (brand.id = brandId ∧ brand.workspace = tenant.id) ∧ _ := by
    simpa using Table.find?_some hf
  refine ⟨hid, rfl, not_not.1 hmem, brand, Table.mem_of_find? hf, hid, ?_⟩
  rw [hworkspace, (getTenant_eq_ok htenant).2.1]

/-- A brand named by any text is one of the principal's. -/
theorem getBrand_covers {brandId : String} {brand : Brand} (h : getBrand p brandId s = .ok brand) :
    p.Covers s p.workspaceId brand.id := by
  obtain ⟨id, hid, -⟩ := bind_eq_ok.1 h
  have htext : getBrand p id.text s = .ok brand := by
    rw [orNotFound_eq_ok] at hid
    rw [← h]
    simp only [getBrand, hid, Uuid.parse_text]
  obtain ⟨rfl, hcovers⟩ := getBrand_eq_ok htext
  exact hcovers

theorem visiblePost_eq_ok {postId : Uuid} {post : Post}
    (h : visiblePost p tenant postId s = .ok post) :
    post ∈ s.posts ∧ post.id = postId ∧ post.tenant = tenant.id ∧ post.brand ∈ p.brandIds := by
  have hf := orNotFound_eq_ok.1 h
  exact ⟨Table.mem_of_find? hf, by simpa [and_assoc] using Table.find?_some hf⟩

theorem visibleVariant_eq_ok {variantId : Uuid} {variant : PostVariant} {post : Post}
    (h : visibleVariant p tenant variantId s = .ok (variant, post)) :
    variant ∈ s.variants ∧ variant.id = variantId ∧ post ∈ s.posts ∧ post.id = variant.post ∧
      post.tenant = tenant.id ∧ post.brand ∈ p.brandIds := by
  obtain ⟨v, hv, h⟩ := bind_eq_ok.1 h
  obtain ⟨q, hq, h⟩ := bind_eq_ok.1 h
  split at h
  · rename_i howner
    cases h
    obtain ⟨hv, hvid⟩ := Table.get?_eq_some.1 (orNotFound_eq_ok.1 hv)
    obtain ⟨hq, hqid⟩ := Table.get?_eq_some.1 (orNotFound_eq_ok.1 hq)
    exact ⟨hv, hvid, hq, hqid, howner⟩
  · cases h

theorem brandConnection_eq_ok {brand connectionId : Uuid} {connection : ChannelConnection}
    {account : SocialAccount}
    (h : brandConnection tenant brand connectionId s = .ok (connection, account)) :
    connection ∈ s.connections ∧ connection.id = connectionId ∧ account ∈ s.accounts ∧
      account.id = connection.socialAccount ∧ account.tenant = tenant.id ∧ account.brand = brand := by
  obtain ⟨c, hc, h⟩ := bind_eq_ok.1 h
  obtain ⟨a, ha, h⟩ := bind_eq_ok.1 h
  split at h
  · rename_i howner
    cases h
    obtain ⟨hc, hcid⟩ := Table.get?_eq_some.1 (orNotFound_eq_ok.1 hc)
    obtain ⟨ha, haid⟩ := Table.get?_eq_some.1 (orNotFound_eq_ok.1 ha)
    exact ⟨hc, hcid, ha, haid, howner⟩
  · cases h

/-- The tenant of a principal of the same workspace, when no workspace has changed. -/
theorem getTenant_same {p' : RelayPrincipal} {s' : Store} (htenants : s'.tenants = s.tenants)
    (hworkspace : p'.workspaceId = p.workspaceId) : getTenant p' s' = getTenant p s := by
  unfold getTenant
  rw [htenants, hworkspace]

/-- The brand, for a principal that has it too. -/
theorem getBrand_same {p' : RelayPrincipal} {s' : Store} {brandId : Uuid} {brand : Brand}
    (htenants : s'.tenants = s.tenants) (hbrands : s'.brands = s.brands)
    (hworkspace : p'.workspaceId = p.workspaceId) (hmem : brandId ∈ p'.brandIds)
    (h : getBrand p brandId.text s = .ok brand) : getBrand p' brandId.text s' = .ok brand := by
  obtain ⟨id, hid, h⟩ := bind_eq_ok.1 h
  rw [orNotFound_eq_ok, Uuid.parse_text, Option.some.injEq] at hid
  subst hid
  split at h
  · cases h
  refine bind_eq_ok.2 ⟨brandId, by rw [Uuid.parse_text]; rfl, ?_⟩
  rw [if_neg (not_not.2 hmem), getTenant_same htenants hworkspace, hbrands]
  exact h

theorem visibleVariant_of {variant : PostVariant} {post : Post} (hv : variant ∈ s.variants)
    (hp : post ∈ s.posts) (hof : post.id = variant.post) (htenant : post.tenant = tenant.id)
    (hbrand : post.brand ∈ p.brandIds) :
    visibleVariant p tenant variant.id s = .ok (variant, post) := by
  have hv' : s.variants.get? variant.id = some variant := Table.get?_key hv
  have hp' : s.posts.get? variant.post = some post := hof ▸ Table.get?_key hp
  refine bind_eq_ok.2 ⟨variant, orNotFound_eq_ok.2 hv', bind_eq_ok.2 ⟨post, ?_, ?_⟩⟩
  · exact orNotFound_eq_ok.2 hp'
  · exact if_pos ⟨htenant, hbrand⟩

theorem brandConnection_of {connection : ChannelConnection} {account : SocialAccount}
    (hc : connection ∈ s.connections) (ha : account ∈ s.accounts)
    (hof : account.id = connection.socialAccount) (htenant : account.tenant = tenant.id) :
    brandConnection tenant account.brand connection.id s = .ok (connection, account) := by
  have hc' : s.connections.get? connection.id = some connection := Table.get?_key hc
  have ha' : s.accounts.get? connection.socialAccount = some account := hof ▸ Table.get?_key ha
  refine bind_eq_ok.2 ⟨connection, orNotFound_eq_ok.2 hc', bind_eq_ok.2 ⟨account, ?_, ?_⟩⟩
  · exact orNotFound_eq_ok.2 ha'
  · exact if_pos ⟨htenant, rfl⟩

end Checks

/-! ### Admitted commands -/

/-- The rows of a scheduling call, as they were at `s`. -/
structure Loaded (s : Store) (call : ScheduleCall) : Prop where
  postVariant : call.postVariant ∈ s.variants
  post : call.post ∈ s.posts
  postOf : call.post.id = call.postVariant.post
  channelConnection : call.channelConnection ∈ s.connections
  socialAccount : call.socialAccount ∈ s.accounts
  accountOf : call.socialAccount.id = call.channelConnection.socialAccount

/-- What a tenant-scoped view has checked before it submits a command. -/
inductive Admitted (p : RelayPrincipal) (s : Store) : Command → Prop
  | createMediaUploadIntent {tenant brand : Uuid} {subject : String} {upload : MediaUpload}
      (covers : p.Covers s tenant brand) :
      Admitted p s (.createMediaUploadIntent tenant brand subject upload)
  | confirmMediaUpload {asset : MediaAsset} {tenant : Uuid} {subject : String} (mem : asset ∈ s.assets)
      (owner : asset.tenant = p.workspaceId) (brand : asset.brand ∈ p.brandIds) :
      Admitted p s (.confirmMediaUpload asset.id tenant subject)
  | createPostDraft {tenant : Uuid} {subject key : String} {payload : PostPayload}
      (covers : p.Covers s tenant payload.brandId) :
      Admitted p s (.createPostDraft tenant payload.brandId subject key payload)
  | approvePost {post tenant brand : Uuid} {subject : String} (covers : p.Covers s tenant brand) :
      Admitted p s (.approvePost post tenant brand subject)
  | requestApproval {tenant brand post : Uuid} {subject : String} {days : ℤ}
      (covers : p.Covers s tenant brand) : Admitted p s (.requestApproval tenant brand post subject days)
  | revokeApproval {request : ApprovalRequest} {subject : String} (mem : request ∈ s.approvals)
      (brand : request.brand ∈ p.brandIds) :
      Admitted p s (.revokeApproval request.id p.workspaceId subject)
  | schedulePublication {call : ScheduleCall} (loaded : Loaded s call)
      (covers : p.Covers s call.tenant call.brand) (postOwner : call.post.tenant = call.tenant ∧
        call.post.brand = call.brand) : Admitted p s (.schedulePublication call)
  | startMetaOAuth {tenant brand : Uuid} {subject : String} (covers : p.Covers s tenant brand) :
      Admitted p s (.startMetaOAuth tenant brand subject)

/-! ### Answers -/

/-- The body of a response shows the data of a post. -/
def Data.Shows (d : PostData) : Data → Prop
  | .posts data => d ∈ data
  | .post data => data = d
  | .approvalPage _ data => data = d
  | _ => False

/-- The body of a response shows the data of a publication. -/
def Data.ShowsPublication (d : PublicationData) : Data → Prop
  | .publications data => d ∈ data
  | .publication data => data = d
  | _ => False

/-- The body of a response shows the data of an asset. -/
def Data.ShowsAsset (d : MediaAssetData) : Data → Prop
  | .uploadIntent data _ _ => data = d
  | .mediaAsset data => data = d
  | _ => False

/-- The body of a response shows the data of an approval request. -/
def Data.ShowsApproval (d : ApprovalRequestData) : Data → Prop
  | .approvalLink data _ => data = d
  | .approvalPage data _ => data = d
  | .approvalRequest data => data = d
  | _ => False

/-- The principal sees the post. -/
structure RelayPrincipal.SeesPost (p : RelayPrincipal) (s : Store) (q : Post) : Prop where
  mem : q ∈ s.posts
  tenant : q.tenant = p.workspaceId
  brand : q.brand ∈ p.brandIds

/-- The principal sees the publication. -/
structure RelayPrincipal.SeesPublication (p : RelayPrincipal) (s : Store) (q : Publication) : Prop where
  mem : q ∈ s.publications
  tenant : q.tenant = p.workspaceId
  brand : q.brand ∈ p.brandIds

/-- The principal sees the connection, which belongs to the account. -/
structure RelayPrincipal.SeesConnection (p : RelayPrincipal) (s : Store) (c : ChannelConnection)
    (a : SocialAccount) : Prop where
  connection : c ∈ s.connections
  account : a ∈ s.accounts ∧ a.id = c.socialAccount
  tenant : a.tenant = p.workspaceId
  brand : a.brand ∈ p.brandIds

/-- What a tenant-scoped view answers without a command. -/
inductive Answered (p : RelayPrincipal) (now : Time) (s : Store) : Data → Prop
  | summary {tenant : Tenant} (id : tenant.id = p.workspaceId) :
      Answered p now s (.summary (panelSummary p tenant now s))
  | posts {posts : List Post} (sees : ∀ q ∈ posts, p.SeesPost s q) :
      Answered p now s (.posts (posts.map (postData s)))
  | post {q : Post} (sees : p.SeesPost s q) : Answered p now s (.post (postData s q))
  | publications {publications : List Publication} (sees : ∀ q ∈ publications, p.SeesPublication s q) :
      Answered p now s (.publications (publications.map publicationData))
  | publication {q : Publication} (sees : p.SeesPublication s q) :
      Answered p now s (.publication (publicationData q))
  | connections {connections : List (ChannelConnection × SocialAccount)}
      (sees : ∀ c ∈ connections, p.SeesConnection s c.1 c.2) :
      Answered p now s (.connections (connections.map fun c => channelConnectionData c.1 c.2))

section Visible

variable {p : RelayPrincipal} {s : Store} {tenant : Tenant}

theorem sees_of_visiblePublications (hid : tenant.id = p.workspaceId) {q : Publication}
    (h : q ∈ visiblePublications p tenant s) : p.SeesPublication s q := by
  obtain ⟨hmem, howner⟩ := Table.mem_where.1 h
  simp only [Bool.and_eq_true, decide_eq_true_eq] at howner
  exact ⟨hmem, howner.1.trans hid, howner.2⟩

theorem sees_of_visibleConnections (hid : tenant.id = p.workspaceId)
    {c : ChannelConnection × SocialAccount} (h : c ∈ visibleConnections p tenant s) :
    p.SeesConnection s c.1 c.2 := by
  obtain ⟨connection, hmem, hc⟩ := List.mem_filterMap.1 h
  split at hc
  · rename_i account haccount
    split at hc
    · rename_i howner
      cases hc
      obtain ⟨ha, haid⟩ := Table.get?_eq_some.1 haccount
      exact ⟨hmem, ⟨ha, haid⟩, howner.1.trans hid, howner.2⟩
    · cases hc
  · cases hc

end Visible

/-- How a request that is not refused goes on. -/
inductive Handled (p : RelayPrincipal) (now : Time) (s : Store) : Admission → Prop
  | command {c : Command} (admitted : Admitted p s c) : Handled p now s (.command c)
  | answer {data : Data} (answered : Answered p now s data) : Handled p now s (.answer ⟨200, data⟩)

/-- **The handlers check what they show and submit**, in an active workspace. -/
theorem handle_eq_ok {env : Env} {now : Time} {p : RelayPrincipal} {s : Store} {r : ApiRequest}
    {a : Admission} (h : handle env now p s r = .ok a) :
    (∃ tenant, getTenant p s = .ok tenant) ∧ Handled p now s a := by
  cases r with
  | panelSummary =>
    obtain ⟨tenant, htenant, h⟩ := bind_eq_ok.1 h
    cases h
    exact ⟨⟨_, htenant⟩, .answer (.summary (getTenant_eq_ok htenant).2.1)⟩
  | listPosts brandId =>
    obtain ⟨tenant, htenant, h⟩ := bind_eq_ok.1 h
    obtain ⟨brand, -, h⟩ := bind_eq_ok.1 h
    cases h
    refine ⟨⟨_, htenant⟩, .answer (.posts fun q hq => ?_)⟩
    obtain ⟨hmem, howner⟩ := Table.mem_where.1 (mem_orderBy.1 (List.mem_of_mem_take hq))
    simp only [Bool.and_eq_true, decide_eq_true_eq] at howner
    exact ⟨hmem, howner.1.1.trans (getTenant_eq_ok htenant).2.1, howner.1.2⟩
  | createPost key data =>
    obtain ⟨key, -, h⟩ := bind_eq_ok.1 h
    obtain ⟨payload, -, h⟩ := bind_eq_ok.1 h
    obtain ⟨brand, hbrand, h⟩ := bind_eq_ok.1 h
    obtain ⟨tenant, htenant, h⟩ := bind_eq_ok.1 h
    cases h
    obtain ⟨hid, hcovers⟩ := getBrand_eq_ok hbrand
    refine ⟨⟨_, htenant⟩, .command ?_⟩
    rw [hid, (getTenant_eq_ok htenant).2.1]
    exact .createPostDraft hcovers
  | getPost postId =>
    obtain ⟨tenant, htenant, h⟩ := bind_eq_ok.1 h
    obtain ⟨post, hpost, h⟩ := bind_eq_ok.1 h
    cases h
    obtain ⟨hmem, -, hptenant, hpbrand⟩ := visiblePost_eq_ok hpost
    exact ⟨⟨_, htenant⟩, .answer (.post
      ⟨hmem, hptenant.trans (getTenant_eq_ok htenant).2.1, hpbrand⟩)⟩
  | createUploadIntent data =>
    obtain ⟨upload, -, h⟩ := bind_eq_ok.1 h
    obtain ⟨brand, hbrand, h⟩ := bind_eq_ok.1 h
    obtain ⟨tenant, htenant, h⟩ := bind_eq_ok.1 h
    cases h
    refine ⟨⟨_, htenant⟩, .command ?_⟩
    rw [(getTenant_eq_ok htenant).2.1]
    exact .createMediaUploadIntent (getBrand_covers hbrand)
  | confirmUpload assetId =>
    obtain ⟨tenant, htenant, h⟩ := bind_eq_ok.1 h
    obtain ⟨asset, hasset, h⟩ := bind_eq_ok.1 h
    cases h
    have hf := orNotFound_eq_ok.1 hasset
    obtain ⟨⟨-, howner⟩, hbrand⟩ : (asset.id = assetId ∧ asset.tenant = tenant.id) ∧
        asset.brand ∈ p.brandIds := by simpa using Table.find?_some hf
    refine ⟨⟨_, htenant⟩, .command ?_⟩
    rw [(getTenant_eq_ok htenant).2.1] at howner
    exact .confirmMediaUpload (Table.mem_of_find? hf) howner hbrand
  | approvePost postId =>
    obtain ⟨tenant, htenant, h⟩ := bind_eq_ok.1 h
    obtain ⟨post, -, h⟩ := bind_eq_ok.1 h
    obtain ⟨brand, hbrand, h⟩ := bind_eq_ok.1 h
    cases h
    refine ⟨⟨_, htenant⟩, .command ?_⟩
    rw [(getTenant_eq_ok htenant).2.1]
    exact .approvePost (getBrand_covers hbrand)
  | requestApproval postId days =>
    obtain ⟨tenant, htenant, h⟩ := bind_eq_ok.1 h
    obtain ⟨post, -, h⟩ := bind_eq_ok.1 h
    obtain ⟨days, -, h⟩ := bind_eq_ok.1 h
    obtain ⟨brand, hbrand, h⟩ := bind_eq_ok.1 h
    cases h
    refine ⟨⟨_, htenant⟩, .command ?_⟩
    rw [(getTenant_eq_ok htenant).2.1]
    exact .requestApproval (getBrand_covers hbrand)
  | revokeApproval requestId =>
    obtain ⟨tenant, htenant, h⟩ := bind_eq_ok.1 h
    obtain ⟨request, hrequest, h⟩ := bind_eq_ok.1 h
    cases h
    have hf := orNotFound_eq_ok.1 hrequest
    have hbrand : request.brand ∈ p.brandIds := by
      have := Table.find?_some hf
      simp only [Bool.and_eq_true, decide_eq_true_eq] at this
      exact this.2
    refine ⟨⟨_, htenant⟩, .command ?_⟩
    rw [(getTenant_eq_ok htenant).2.1]
    exact .revokeApproval (Table.mem_of_find? hf) hbrand
  | listPublications brandId =>
    obtain ⟨tenant, htenant, h⟩ := bind_eq_ok.1 h
    obtain ⟨brand, -, h⟩ := bind_eq_ok.1 h
    cases h
    refine ⟨⟨_, htenant⟩, .answer (.publications fun q hq => ?_)⟩
    exact sees_of_visiblePublications (getTenant_eq_ok htenant).2.1
      (List.mem_of_mem_filter (mem_orderBy.1 (List.mem_of_mem_take hq)))
  | createPublication key data =>
    obtain ⟨key, -, h⟩ := bind_eq_ok.1 h
    obtain ⟨data, -, h⟩ := bind_eq_ok.1 h
    obtain ⟨tenant, htenant, h⟩ := bind_eq_ok.1 h
    obtain ⟨⟨variant, post⟩, hvariant, h⟩ := bind_eq_ok.1 h
    obtain ⟨⟨connection, account⟩, hconnection, h⟩ := bind_eq_ok.1 h
    obtain ⟨brand, hbrand, h⟩ := bind_eq_ok.1 h
    cases h
    obtain ⟨hv, -, hp, hpid, hptenant, -⟩ := visibleVariant_eq_ok hvariant
    obtain ⟨hc, -, ha, haid, -, -⟩ := brandConnection_eq_ok hconnection
    obtain ⟨hid, hcovers⟩ := getBrand_eq_ok hbrand
    refine ⟨⟨_, htenant⟩, .command
      (.schedulePublication ⟨hv, hp, hpid, hc, ha, haid⟩ ?_ ⟨hptenant, hid.symm⟩)⟩
    dsimp only
    rw [hid, (getTenant_eq_ok htenant).2.1]
    exact hcovers
  | getPublication publicationId =>
    obtain ⟨tenant, htenant, h⟩ := bind_eq_ok.1 h
    obtain ⟨publication, hpublication, h⟩ := bind_eq_ok.1 h
    cases h
    have hf := orNotFound_eq_ok.1 hpublication
    obtain ⟨⟨-, howner⟩, hbrand⟩ : (publication.id = publicationId ∧
        publication.tenant = tenant.id) ∧ publication.brand ∈ p.brandIds := by
      simpa using Table.find?_some hf
    exact ⟨⟨_, htenant⟩, .answer (.publication
      ⟨Table.mem_of_find? hf, howner.trans (getTenant_eq_ok htenant).2.1, hbrand⟩)⟩
  | startMetaOAuth data =>
    obtain ⟨brandId, -, h⟩ := bind_eq_ok.1 h
    obtain ⟨tenant, htenant, h⟩ := bind_eq_ok.1 h
    obtain ⟨brand, hbrand, h⟩ := bind_eq_ok.1 h
    cases h
    refine ⟨⟨_, htenant⟩, .command ?_⟩
    rw [(getTenant_eq_ok htenant).2.1]
    exact .startMetaOAuth (getBrand_covers hbrand)
  | listConnections brandId =>
    obtain ⟨tenant, htenant, h⟩ := bind_eq_ok.1 h
    obtain ⟨brand, -, h⟩ := bind_eq_ok.1 h
    cases h
    refine ⟨⟨_, htenant⟩, .answer (.connections fun c hc => ?_)⟩
    exact sees_of_visibleConnections (getTenant_eq_ok htenant).2.1
      (List.mem_of_mem_filter (mem_orderBy.1 hc))

/-- Only a POST of a publication schedules. -/
theorem handle_schedules {env : Env} {now : Time} {p : RelayPrincipal} {s : Store} {r : ApiRequest}
    {call : ScheduleCall} (h : handle env now p s r = .ok (.command (.schedulePublication call))) :
    ∃ key data, r = .createPublication key data := by
  cases r with
  | createPublication key data => exact ⟨key, data, rfl⟩
  | _ => simp [handle, bind_eq_ok] at h

/-- Only a POST of an approval approves. -/
theorem handle_approves {env : Env} {now : Time} {p : RelayPrincipal} {s : Store} {r : ApiRequest}
    {post tenant brand : Uuid} {subject : String}
    (h : handle env now p s r = .ok (.command (.approvePost post tenant brand subject))) :
    ∃ postId, r = .approvePost postId := by
  cases r with
  | approvePost postId => exact ⟨postId, rfl⟩
  | _ => simp [handle, bind_eq_ok] at h

/-- A view submits admitted commands only. -/
theorem handle_admitted {env : Env} {now : Time} {p : RelayPrincipal} {s : Store} {r : ApiRequest}
    {c : Command} (h : handle env now p s r = .ok (.command c)) : Admitted p s c := by
  obtain ⟨-, ⟨hadmitted⟩ | _⟩ := handle_eq_ok h
  exact hadmitted

/-- A view answers with what the principal sees. -/
theorem handle_answered {env : Env} {now : Time} {p : RelayPrincipal} {s : Store} {r : ApiRequest}
    {a : Response} (h : handle env now p s r = .ok (.answer a)) : Answered p now s a.data := by
  obtain ⟨-, _ | ⟨hanswered⟩⟩ := handle_eq_ok h
  exact hanswered

/-- The call of a POST whose checks are passed. -/
theorem createPublication_of (env : Env) (now : Time) {p : RelayPrincipal} {s : Store}
    {key : Option String} {idempotencyKey : String} (data : PublicationCreateData) {tenant : Tenant}
    {brand : Brand} {postVariant : PostVariant} {post : Post} {channelConnection : ChannelConnection}
    {socialAccount : SocialAccount} (header : idempotencyHeader key = .ok idempotencyKey)
    (future : now < data.scheduledFor) (htenant : getTenant p s = .ok tenant)
    (hvariant : visibleVariant p tenant data.postVariantId s = .ok (postVariant, post))
    (hconnection : brandConnection tenant post.brand data.channelConnectionId s =
      .ok (channelConnection, socialAccount))
    (hbrand : getBrand p post.brand.text s = .ok brand) :
    handle env now p s (.createPublication key data) = .ok (.command (.schedulePublication
      { tenant := tenant.id
        brand := brand.id
        subject := p.subject
        postVariant, post, channelConnection, socialAccount
        scheduledFor := data.scheduledFor
        idempotencyKey })) := by
  have hvalid : data.validate now = .ok data := if_neg (not_le.2 future)
  exact bind_eq_ok.2 ⟨_, header, bind_eq_ok.2 ⟨_, hvalid, bind_eq_ok.2 ⟨_, htenant,
    bind_eq_ok.2 ⟨_, hvariant, bind_eq_ok.2 ⟨_, hconnection,
      bind_eq_ok.2 ⟨_, hbrand, rfl⟩⟩⟩⟩⟩⟩

/-! ### Admitted requests -/

/-- What precedes the handler of an admitted request. -/
theorem admitRequest_eq_ok {env : Env} {now : Time} {credential : Credential} {r : ApiRequest}
    {s : Store} {p : RelayPrincipal} {a : Admission}
    (h : admitRequest env now credential r s = .ok (p, a)) :
    authenticate env s credential = .ok p ∧ hasRelayScope r.route.1 r.route.2 p s = true ∧
      handle env now p s r = .ok a := by
  unfold admitRequest at h
  split at h
  · cases h
  · cases h
  · rename_i q hq
    unfold admitHandler at h
    split at h
    · rename_i hscope
      cases hhandle : handle env now q s r with
      | error e => rw [hhandle] at h; cases h
      | ok b =>
        rw [hhandle] at h
        cases h
        exact ⟨hq, hscope, hhandle⟩
    · cases h

/-- A credential stands for the same principal while workspaces, brands and memberships stay. -/
theorem authenticate_same {env : Env} {s s' : Store} (htenants : s'.tenants = s.tenants)
    (hbrands : s'.brands = s.brands) (hmemberships : s'.memberships = s.memberships)
    (credential : Credential) : authenticate env s' credential = authenticate env s credential := by
  cases credential with
  | service decoded => rfl
  | panel userId workspaceId =>
    simp only [authenticate, panelPrincipal, activeMemberships, htenants, hbrands, hmemberships]

theorem hasRelayScope_same {v : ViewPolicy} {m : Method} {p : RelayPrincipal} {s s' : Store}
    (hmemberships : s'.memberships = s.memberships) :
    hasRelayScope v m p s' = hasRelayScope v m p s := by
  simp only [hasRelayScope, holdsRole, hmemberships]

/-- A request that passes what precedes its handler goes on as the handler says. -/
theorem admitRequest_of {env : Env} {now : Time} {credential : Credential} {r : ApiRequest}
    {s : Store} {p : RelayPrincipal} (hp : authenticate env s credential = .ok p)
    (hscope : hasRelayScope r.route.1 r.route.2 p s = true) :
    admitRequest env now credential r s = (handle env now p s r).map fun a => (p, a) := by
  unfold admitRequest
  rw [hp]
  dsimp only
  unfold admitHandler
  rw [if_pos hscope]

/-- A public view submits the decision of a link or the state of a callback. -/
theorem admitPublic_command {env : Env} {now : Time} {r : PublicRequest} {s : Store} {c : Command}
    (h : admitPublic env now r s = .ok (.command c)) :
    (∃ token decision comment authorLabel, c = .decideApproval token decision comment authorLabel) ∨
      ∃ rawState, c = .consumeOAuthState rawState := by
  cases r with
  | approvalLink token =>
    unfold admitPublic at h
    dsimp only at h
    split at h
    · cases h
    · obtain ⟨post, -, h⟩ := bind_eq_ok.1 h
      cases h
  | approvalDecision token data =>
    obtain ⟨d, -, h⟩ := bind_eq_ok.1 h
    cases h
    exact .inl ⟨_, _, _, _, rfl⟩
  | metaOAuthCallback code state =>
    unfold admitPublic at h
    dsimp only at h
    split at h
    · cases h
    · cases h
      exact .inr ⟨_, rfl⟩

end Relay
