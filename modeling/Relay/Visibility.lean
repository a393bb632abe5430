import Relay.Panel
import Relay.Workspaces

/-!
# What a workspace sees of the store

* `handle_only`: the view of a principal answers as if the rows of its workspace were all there are;
* `authenticate_only`, `hasRelayScope_only`: and so do the checks before it;
* `respond_only`, `admitPublic_only`: and the response to a command and the page of a link.
-/

namespace Relay

open Relational Sequence

variable {s : Store} {w : Uuid} {p : RelayPrincipal}

/-! ### Rows by their identifiers -/

theorem getTenant_only (hp : p.workspaceId = w) : getTenant p (s.only w) = getTenant p s := by
  unfold getTenant
  rw [show (s.only w).tenants = s.tenants.restrict fun t => t.id = w from rfl,
    Table.find?_restrict_of fun t _ ht => by simp_all]

theorem getBrand_only (hp : p.workspaceId = w) (brandId : String) :
    getBrand p brandId (s.only w) = getBrand p brandId s := by
  unfold getBrand
  cases orNotFound (Uuid.parse brandId) with
  | error e => rfl
  | ok id =>
    change (if _ then _ else _) = if _ then _ else _
    split
    · rfl
    · rw [getTenant_only hp]
      cases ht : getTenant p s with
      | error e => rfl
      | ok tenant =>
        obtain ⟨-, hid, -⟩ := getTenant_eq_ok ht
        change orNotFound _ = orNotFound _
        rw [show (s.only w).brands = s.brands.restrict fun b => b.workspace = w from rfl,
          Table.find?_restrict_of fun b _ hb => by simp_all]

theorem brandFilter_only (hp : p.workspaceId = w) (brandId : Option String) :
    brandFilter p brandId (s.only w) = brandFilter p brandId s := by
  unfold brandFilter
  cases brandId with
  | none => rfl
  | some text => simp only [getBrand_only hp]

variable {tenant : Tenant}

theorem visiblePost_only (ht : tenant.id = w) (postId : Uuid) :
    visiblePost p tenant postId (s.only w) = visiblePost p tenant postId s := by
  unfold visiblePost
  rw [show (s.only w).posts = s.posts.restrict fun q => q.tenant = w from rfl,
    Table.find?_restrict_of fun q _ hq => by simp_all]

theorem visiblePublications_only (ht : tenant.id = w) :
    visiblePublications p tenant (s.only w) = visiblePublications p tenant s :=
  Table.where_restrict_of fun q _ hq => by simp_all

theorem postTenant_key {q : Post} (hq : q ∈ s.posts) : s.postTenant q.id = some q.tenant :=
  Table.view_key hq

/-- A look-up in the accounts of the workspace. -/
theorem accounts_get?_only (id : Uuid) :
    (s.only w).accounts.get? id = if s.accountTenant id = some w then s.accounts.get? id else none := by
  rw [show (s.only w).accounts = s.accounts.restrict fun a => a.tenant = w from rfl, Table.get?_restrict]
  unfold Store.accountTenant Table.view
  cases s.accounts.get? id with
  | none => rfl
  | some a => by_cases ha : a.tenant = w <;> simp [Option.filter, ha]

theorem posts_get?_only (id : Uuid) :
    (s.only w).posts.get? id = if s.postTenant id = some w then s.posts.get? id else none := by
  rw [show (s.only w).posts = s.posts.restrict fun q => q.tenant = w from rfl, Table.get?_restrict]
  unfold Store.postTenant Table.view
  cases s.posts.get? id with
  | none => rfl
  | some q => by_cases hq : q.tenant = w <;> simp [Option.filter, hq]

theorem variants_get?_only (id : Uuid) :
    (s.only w).variants.get? id = (s.variants.get? id).filter fun v => s.postTenant v.post = some w :=
  Table.get?_restrict

theorem connections_get?_only (id : Uuid) : (s.only w).connections.get? id =
    (s.connections.get? id).filter fun c => s.accountTenant c.socialAccount = some w :=
  Table.get?_restrict

theorem visibleConnections_only (ht : tenant.id = w) :
    visibleConnections p tenant (s.only w) = visibleConnections p tenant s := by
  unfold visibleConnections
  rw [show (s.only w).connections.rows =
    s.connections.rows.filter fun c => s.accountTenant c.socialAccount = some w from rfl,
    List.filterMap_filter]
  refine List.filterMap_congr fun c _ => ?_
  rw [accounts_get?_only]
  by_cases hc : s.accountTenant c.socialAccount = some w
  · simp [hc]
  · rw [if_neg (by simpa using hc)]
    cases ha : s.accounts.get? c.socialAccount with
    | none => rfl
    | some a =>
      have hne : a.tenant ≠ w := by
        intro he
        refine hc ?_
        unfold Store.accountTenant Table.view
        rw [ha, ← he]
        rfl
      dsimp only
      rw [if_neg fun h => hne (h.1.trans ht)]

theorem visibleVariant_only (ht : tenant.id = w) (variantId : Uuid) :
    visibleVariant p tenant variantId (s.only w) = visibleVariant p tenant variantId s := by
  unfold visibleVariant
  rw [variants_get?_only]
  cases s.variants.get? variantId with
  | none => rfl
  | some v =>
    by_cases hv : s.postTenant v.post = some w
    · rw [show (some v).filter (fun v => decide (s.postTenant v.post = some w)) = some v by
        simp [Option.filter, hv]]
      change orNotFound ((s.only w).posts.get? v.post) >>= _ = _
      rw [posts_get?_only, if_pos hv]
      rfl
    · rw [show (some v).filter (fun v => decide (s.postTenant v.post = some w)) = none by
        simp [Option.filter, hv]]
      cases hq : s.posts.get? v.post with
      | none => simp [orNotFound, hq, bind, Except.bind]
      | some q =>
        have hne : ¬ (q.tenant = tenant.id ∧ q.brand ∈ p.brandIds) := by
          rintro ⟨he, -⟩
          refine hv ?_
          unfold Store.postTenant Table.view
          rw [hq, ← ht, ← he]
          rfl
        simp [orNotFound, hq, bind, Except.bind, hne]

theorem brandConnection_only (ht : tenant.id = w) (brand connectionId : Uuid) :
    brandConnection tenant brand connectionId (s.only w) = brandConnection tenant brand connectionId s := by
  unfold brandConnection
  rw [connections_get?_only]
  cases s.connections.get? connectionId with
  | none => rfl
  | some c =>
    by_cases hc : s.accountTenant c.socialAccount = some w
    · rw [show (some c).filter (fun c => decide (s.accountTenant c.socialAccount = some w)) = some c by
        simp [Option.filter, hc]]
      change orNotFound ((s.only w).accounts.get? c.socialAccount) >>= _ = _
      rw [accounts_get?_only, if_pos hc]
      rfl
    · rw [show (some c).filter (fun c => decide (s.accountTenant c.socialAccount = some w)) = none by
        simp [Option.filter, hc]]
      cases ha : s.accounts.get? c.socialAccount with
      | none => simp [orNotFound, ha, bind, Except.bind]
      | some a =>
        have hne : ¬ (a.tenant = tenant.id ∧ a.brand = brand) := by
          rintro ⟨he, -⟩
          refine hc ?_
          unfold Store.accountTenant Table.view
          rw [ha, ← ht, ← he]
          rfl
        simp [orNotFound, ha, bind, Except.bind, hne]

/-! ### What responses show -/

theorem orderedMediaAssets_only (hs : Coherent s) {v : PostVariant} (hv : v ∈ s.variants)
    (hw : s.postTenant v.post = some w) : orderedMediaAssets (s.only w) v = orderedMediaAssets s v := by
  unfold orderedMediaAssets
  rw [attachedAssets_only hs hv hw]

theorem defaultVariant_only {q : Post} (hq : q ∈ s.posts) (hw : q.tenant = w) :
    defaultVariant (s.only w) q.id = defaultVariant s q.id := by
  unfold defaultVariant
  rw [show (s.only w).variants = s.variants.restrict fun v => s.postTenant v.post = some w from rfl,
    Table.where_restrict_of fun v _ hv => ?_]
  rw [of_decide_eq_true hv, postTenant_key hq, hw]
  exact decide_eq_true rfl

theorem mem_of_defaultVariant {q : Uuid} {v : PostVariant} (h : defaultVariant s q = some v) :
    v ∈ s.variants ∧ v.post = q := by
  have hmem := Table.mem_where.1 (mem_orderBy.1 (List.mem_of_mem_head? h))
  exact ⟨hmem.1, of_decide_eq_true hmem.2⟩

theorem postData_only (hs : Coherent s) {q : Post} (hq : q ∈ s.posts) (hw : q.tenant = w) :
    postData (s.only w) q = postData s q := by
  unfold postData
  rw [defaultVariant_only hq hw]
  cases hv : defaultVariant s q.id with
  | none => rfl
  | some v =>
    obtain ⟨hmem, hpost⟩ := mem_of_defaultVariant hv
    dsimp only
    rw [orderedMediaAssets_only hs hmem (by rw [hpost, postTenant_key hq, hw])]

theorem recentPublication_only (hs : Coherent s) {q : Publication} (hq : q ∈ s.publications)
    (hw : q.tenant = w) : recentPublication (s.only w) q = recentPublication s q := by
  obtain ⟨hvariant, hconnection, hpost⟩ := publication_rows hs hq hw
  unfold recentPublication
  rw [hvariant, hconnection]
  cases hv : s.variants.get? q.postVariant with
  | none => rfl
  | some v =>
    obtain ⟨hmem, hid⟩ := Table.get?_eq_some.1 hv
    change ((s.only w).posts.get? v.post >>= _) = (s.posts.get? v.post >>= _)
    rw [posts_get?_only, if_pos (hpost v hmem hid)]

theorem panelSummary_only (hs : Coherent s) (ht : tenant.id = w) (now : Time) :
    panelSummary p tenant now (s.only w) = panelSummary p tenant now s := by
  unfold panelSummary
  dsimp only
  rw [visiblePublications_only ht, visibleConnections_only ht]
  congr 2
  refine List.filterMap_congr fun q hq => ?_
  have hmem := Table.mem_where.1 (mem_orderBy.1 hq)
  refine recentPublication_only hs hmem.1 ?_
  rw [← ht]
  exact of_decide_eq_true (Bool.and_eq_true_iff.1 hmem.2).1

theorem approvalRequestData_only (r : ApprovalRequest) (hr : s.requestWorkspace r.id = some w) :
    approvalRequestData (s.only w) r = approvalRequestData s r := by
  unfold approvalRequestData
  rw [show (s.only w).comments =
    s.comments.restrict fun c => s.requestWorkspace c.approvalRequest = some w from rfl,
    Table.where_restrict_of fun c _ hc => ?_]
  rw [of_decide_eq_true hc, hr]
  exact decide_eq_true rfl

/-! ### Requests -/

theorem bind_congr_ok {ε α β : Type} {x : Except ε α} {f g : α → Except ε β}
    (h : ∀ a, x = .ok a → f a = g a) : (x >>= f) = (x >>= g) := by
  cases x with
  | error e => rfl
  | ok a => exact h a rfl

/-- **A view answers and goes on as if the rows of the workspace were all there are.** -/
theorem handle_only {env : Env} {now : Time} (hs : Coherent s) (hp : p.workspaceId = w)
    (r : ApiRequest) : handle env now p (s.only w) r = handle env now p s r := by
  have hid : ∀ {tenant : Tenant}, getTenant p s = .ok tenant → tenant.id = w := fun h =>
    (getTenant_eq_ok h).2.1.trans hp
  cases r with
  | panelSummary =>
    simp only [handle, getTenant_only hp]
    refine bind_congr_ok fun tenant ht => ?_
    rw [panelSummary_only hs (hid ht)]
  | listPosts brandId =>
    simp only [handle, getTenant_only hp, brandFilter_only hp]
    refine bind_congr_ok fun tenant ht => bind_congr_ok fun brand _ => ?_
    have hid := hid ht
    rw [show (s.only w).posts = s.posts.restrict fun q => q.tenant = w from rfl,
      Table.where_restrict_of fun q _ hq => by simp_all]
    congr 4
    refine List.map_congr_left fun q hq => ?_
    have hmem := Table.mem_where.1 (mem_orderBy.1 (List.mem_of_mem_take hq))
    refine postData_only hs hmem.1 ?_
    simp_all
  | createPost idempotencyKey data =>
    simp only [handle, getTenant_only hp, getBrand_only hp]
  | getPost postId =>
    simp only [handle, getTenant_only hp]
    refine bind_congr_ok fun tenant ht => ?_
    rw [visiblePost_only (hid ht)]
    refine bind_congr_ok fun q hq => ?_
    obtain ⟨hmem, -, htenant, -⟩ := visiblePost_eq_ok hq
    rw [postData_only hs hmem (htenant.trans (hid ht))]
  | createUploadIntent data =>
    simp only [handle, getTenant_only hp, getBrand_only hp]
  | confirmUpload mediaAssetId =>
    simp only [handle, getTenant_only hp]
    refine bind_congr_ok fun tenant ht => ?_
    have hid := hid ht
    rw [show (s.only w).assets = s.assets.restrict fun a => a.tenant = w from rfl,
      Table.find?_restrict_of fun a _ ha => by simp_all]
  | approvePost postId =>
    simp only [handle, getTenant_only hp, getBrand_only hp]
    refine bind_congr_ok fun tenant ht => ?_
    rw [visiblePost_only (hid ht)]
  | requestApproval postId expiresInDays =>
    simp only [handle, getTenant_only hp, getBrand_only hp]
    refine bind_congr_ok fun tenant ht => ?_
    rw [visiblePost_only (hid ht)]
  | revokeApproval approvalRequestId =>
    simp only [handle, getTenant_only hp]
    refine bind_congr_ok fun tenant ht => ?_
    have hid := hid ht
    simp only [hid, brands_get?_only]
    rw [show (s.only w).approvals = s.approvals.restrict fun r => s.brandWorkspace r.brand = some w
      from rfl, Table.find?_restrict_of fun r _ hr => ?_]
    simp only [Bool.and_eq_true] at hr
    exact decide_eq_true (brandWorkspace_of_any hr.1.2)
  | listPublications brandId =>
    simp only [handle, getTenant_only hp, brandFilter_only hp]
    refine bind_congr_ok fun tenant ht => ?_
    rw [visiblePublications_only (hid ht)]
  | createPublication idempotencyKey data =>
    simp only [handle, getTenant_only hp, getBrand_only hp]
    refine bind_congr_ok fun key _ => bind_congr_ok fun data _ => bind_congr_ok fun tenant ht => ?_
    simp only [visibleVariant_only (hid ht), brandConnection_only (hid ht)]
  | getPublication publicationId =>
    simp only [handle, getTenant_only hp]
    refine bind_congr_ok fun tenant ht => ?_
    have hid := hid ht
    rw [show (s.only w).publications = s.publications.restrict fun q => q.tenant = w from rfl,
      Table.find?_restrict_of fun q _ hq => by simp_all]
  | startMetaOAuth data =>
    simp only [handle, getTenant_only hp, getBrand_only hp]
  | listConnections brandId =>
    simp only [handle, getTenant_only hp, brandFilter_only hp]
    refine bind_congr_ok fun tenant ht => ?_
    rw [visibleConnections_only (hid ht)]

/-! ### Principals -/

theorem hasRelayScope_only (hp : p.workspaceId = w) (v : ViewPolicy) (m : Method) :
    hasRelayScope v m p (s.only w) = hasRelayScope v m p s := by
  unfold hasRelayScope
  have hrole : ∀ roles, holdsRole p roles (s.only w) = holdsRole p roles s := by
    intro roles
    unfold holdsRole
    rw [show (s.only w).memberships = s.memberships.restrict fun m => m.workspace = w from rfl,
      Table.find?_restrict_of fun m _ hm => by simp_all]
  simp only [hrole]

theorem activeMemberships_only (subject : String) :
    activeMemberships subject (s.only w) =
      (activeMemberships subject s).filter fun m => m.1.workspace = w := by
  unfold activeMemberships
  rw [show (s.only w).memberships = s.memberships.restrict fun m => m.workspace = w from rfl,
    Table.where_restrict]
  unfold Table.where
  rw [List.filter_filterMap, List.filterMap_filter, List.filterMap_filter]
  refine List.filterMap_congr fun m _ => ?_
  rw [show (s.only w).tenants = s.tenants.restrict fun t => t.id = w from rfl, Table.get?_restrict]
  by_cases hm : m.workspace = w
  · cases hactive : (m.subject = subject && m.isActive) with
    | false => simp_all
    | true =>
      cases ht : s.tenants.get? m.workspace with
      | none => simp_all
      | some t =>
        have hid : t.id = w := (Table.key_of_get? ht).trans hm
        simp_all [Option.filter]
  · cases ht : s.tenants.get? m.workspace <;> simp [hm, Option.filter]

theorem name_total (a b : Membership × Tenant) :
    decide (a.2.name ≤ b.2.name) = true ∨ decide (b.2.name ≤ a.2.name) = true := by
  simpa using String.le_total a.2.name b.2.name

theorem name_trans (a b c : Membership × Tenant) (h : decide (a.2.name ≤ b.2.name) = true)
    (k : decide (b.2.name ≤ c.2.name) = true) : decide (a.2.name ≤ c.2.name) = true := by
  rw [decide_eq_true_eq] at *
  exact String.le_trans h k

/-- A choice that falls on a membership of the workspace falls on it among those alone. -/
theorem chosen_only {memberships : List (Membership × Tenant)} {named : Option Uuid}
    {x : Membership × Tenant} (h : chosen memberships named = some x) (hx : x.1.workspace = w) :
    chosen (memberships.filter fun m => m.1.workspace = w) named = some x := by
  have hfirst : (orderBy (fun a b => a.2.name ≤ b.2.name) memberships).head? = some x →
      (orderBy (fun a b => a.2.name ≤ b.2.name)
        (memberships.filter fun m => m.1.workspace = w)).head? = some x := fun hh =>
    head?_orderBy_filter name_total name_trans hh (decide_eq_true hx)
  cases named with
  | none => exact hfirst h
  | some id =>
    have hbits : ∀ m : Membership × Tenant, decide (m.1.workspace = id) = true →
        m.1.workspace = id := fun m hm => of_decide_eq_true hm
    by_cases hid : id = w
    · have hsame : ((memberships.filter fun m => m.1.workspace = w).filter fun m =>
          m.1.workspace = id) = memberships.filter fun m => m.1.workspace = id := by
        rw [List.filter_filter, hid]
        simp
      unfold chosen at h ⊢
      rw [Option.bind_some, hsame]
      rw [Option.bind_some] at h
      rcases Option.or_eq_some_iff.1 h with h | ⟨hnone, h⟩
      · rw [h]
        rfl
      · rw [hnone]
        exact hfirst h
    · have hempty : ((memberships.filter fun m => m.1.workspace = w).filter fun m =>
          m.1.workspace = id) = [] := by
        rw [List.filter_eq_nil_iff]
        intro m hm hmid
        exact hid ((hbits m hmid).symm.trans (of_decide_eq_true (List.mem_filter.1 hm).2))
      unfold chosen at h ⊢
      rw [Option.bind_some, hempty]
      rw [Option.bind_some] at h
      rcases Option.or_eq_some_iff.1 h with h | ⟨-, h⟩
      · have hmem := (List.mem_filter.1 (mem_orderBy.1 (List.mem_of_mem_head? h))).2
        exact absurd ((hbits x hmem).symm.trans hx) hid
      · exact hfirst h

/-- The workspace that the text in a session names. -/
def namedWorkspace : Option String → Except AuthenticationError (Option Uuid)
  | none => .ok none
  | some text =>
    match Uuid.parse text with
    | none => .error (.unhandled "ValidationError")
    | some workspaceId => .ok (some workspaceId)

theorem requestedMembership_named (memberships : List (Membership × Tenant)) (text : Option String) :
    requestedMembership memberships text = (namedWorkspace text).map fun named => named.bind fun id =>
      (orderBy (fun a b : Membership × Tenant => a.1.id.bits ≤ b.1.id.bits)
        (memberships.filter fun m => m.1.workspace = id)).head? := by
  unfold requestedMembership namedWorkspace
  cases text with
  | none => rfl
  | some text =>
    dsimp only
    cases Uuid.parse text <;> rfl

/-- The principal of a chosen membership. -/
theorem panelPrincipal_ok_iff {userId : ℕ} {text : Option String} : panelPrincipal userId text s = .ok p ↔
    ∃ named m t, namedWorkspace text = .ok named ∧
      chosen (activeMemberships (panelSubject userId) s) named = some (m, t) ∧ t.isActive = true ∧
      p = ⟨panelSubject userId, m.workspace,
        (s.brands.where fun b => b.workspace = t.id && b.isActive).map (·.id), roleScopes m.role⟩ := by
  unfold panelPrincipal
  dsimp only
  rw [requestedMembership_named]
  cases namedWorkspace text with
  | error e => simp [Except.map, bind, Except.bind]
  | ok named =>
    change principalOf userId s (chosen (activeMemberships (panelSubject userId) s) named) = _ ↔ _
    cases hc : chosen (activeMemberships (panelSubject userId) s) named with
    | none => simp [hc, principalOf]
    | some x =>
      obtain ⟨m, t⟩ := x
      unfold principalOf
      dsimp only
      by_cases ht : t.isActive = true
      · rw [if_neg (not_not.2 ht)]
        constructor
        · intro h
          cases h
          exact ⟨named, m, t, rfl, hc, ht, rfl⟩
        · rintro ⟨named', m', t', hn, hc', -, rfl⟩
          cases hn
          rw [hc] at hc'
          cases hc'
          rfl
      · rw [if_pos ht]
        constructor
        · intro h
          cases h
        · rintro ⟨named', m', t', hn, hc', ht', -⟩
          cases hn
          rw [hc] at hc'
          cases hc'
          exact absurd ht' ht

theorem panelPrincipal_only {userId : ℕ} {text : Option String} (h : panelPrincipal userId text s = .ok p)
    (hp : p.workspaceId = w) : panelPrincipal userId text (s.only w) = .ok p := by
  obtain ⟨named, m, t, hnamed, hc, ht, rfl⟩ := panelPrincipal_ok_iff.1 h
  have hm : m.workspace = w := hp
  refine panelPrincipal_ok_iff.2 ⟨named, m, t, hnamed, ?_, ht, ?_⟩
  · rw [activeMemberships_only]
    exact chosen_only hc hm
  · have hid : t.id = w := by
      obtain ⟨-, -, hid⟩ := mem_activeMemberships.1 (mem_of_chosen hc)
      exact hid.trans hm
    rw [show (s.only w).brands = s.brands.restrict fun b => b.workspace = w from rfl,
      Table.where_restrict_of fun b _ hb => by simp_all]

theorem authenticate_only {env : Env} {credential : Credential}
    (h : authenticate env s credential = .ok p) (hp : p.workspaceId = w) :
    authenticate env (s.only w) credential = .ok p := by
  cases credential with
  | service decoded => exact h
  | panel userId text => exact panelPrincipal_only h hp

/-- A request of a principal of the workspace. -/
theorem admitRequest_only {env : Env} {now : Time} {credential : Credential} {r : ApiRequest}
    (hs : Coherent s) (h : authenticate env s credential = .ok p) (hp : p.workspaceId = w) :
    admitRequest env now credential r (s.only w) = admitRequest env now credential r s := by
  unfold admitRequest
  rw [h, authenticate_only h hp]
  unfold admitHandler
  dsimp only
  rw [hasRelayScope_only hp, handle_only hs hp]

/-! ### Links and responses -/

theorem requestWorkspace_key {r : ApprovalRequest} (hr : r ∈ s.approvals) :
    s.requestWorkspace r.id = s.brandWorkspace r.brand := by
  unfold Store.requestWorkspace
  rw [show s.approvals.view (·.brand) r.id = some r.brand from Table.view_key hr]
  rfl

/-- The post of a request of the workspace is the workspace's. -/
theorem post_of_request (hs : Coherent s) {request : ApprovalRequest} (hr : request ∈ s.approvals)
    (hw : s.brandWorkspace request.brand = some w) {q : Post} (hq : s.posts.get? request.post = some q) :
    q ∈ s.posts ∧ q.tenant = w := by
  obtain ⟨hmem, hid⟩ := Table.get?_eq_some.1 hq
  obtain ⟨q', hq', hid', hbrand⟩ := hs.approvals request hr
  obtain rfl : q' = q := Table.eq_of_key hq' hmem (hid'.trans hid.symm)
  have hworkspace := brand_workspace_of_post hs hq'
  rw [← hbrand, hw] at hworkspace
  exact ⟨hmem, (Option.some.inj hworkspace).symm⟩

theorem admitLink_only {env : Env} {now : Time} {token : String} {request : ApprovalRequest}
    (hs : Coherent s) (hfound : findApproval env token s = some request)
    (hw : s.brandWorkspace request.brand = some w) :
    admitPublic env now (.approvalLink token) (s.only w) = admitPublic env now (.approvalLink token) s := by
  have hmem := Table.mem_of_find? hfound
  obtain ⟨hpost, -, hrequest⟩ := request_rows hs hmem hw
  have hfound' : findApproval env token (s.only w) = some request :=
    Table.find?_restrict_some hfound (decide_eq_true hw)
  unfold admitPublic getActiveApprovalRequest
  dsimp only
  rw [hfound, hfound']
  dsimp only
  by_cases hopen : request.revokedAt ≠ none ∨ request.expiresAt ≤ now
  · rw [if_pos hopen]
  · rw [if_neg hopen]
    dsimp only
    rw [hpost]
    refine bind_congr_ok fun q hq => ?_
    obtain ⟨hq, htenant⟩ := post_of_request hs hmem hw (orNotFound_eq_ok.1 hq)
    rw [postData_only hs hq htenant, approvalRequestData_only request hrequest]

/-- **The response to a command of the workspace shows rows of the workspace alone.** -/
theorem respond_only {env : Env} {x : World} {c : Command} {r : Reply} {s' : Store}
    (hs : Coherent s) (hs' : Coherent s') (hw : c.workspace env s = some w)
    (effect : Effect env x c r s s') : respond (s'.only w) r = respond s' r := by
  have hpost : ∀ {q : Post}, q ∈ s'.posts → q.tenant = w → postData (s'.only w) q = postData s' q :=
    postData_only hs'
  cases effect with
  | draftReplayed found =>
    have hrow := Table.find?_some found
    rw [Bool.and_eq_true, decide_eq_true_eq, decide_eq_true_eq] at hrow
    simp only [respond, hpost (Table.mem_of_find? found) (hrow.1.trans (Option.some.inj hw))]
  | drafted _ insert =>
    simp only [respond, hpost (Table.mem_self_insert? insert) (Option.some.inj hw)]
  | alreadyApproved mem _ owner =>
    simp only [respond, hpost mem (owner.1.trans (Option.some.inj hw))]
  | approved mem id owner =>
    simp only [respond, hpost (Table.mem_update_self mem id) (owner.1.trans (Option.some.inj hw))]
  | @approvalRequested tenant brand post _ _ _ row approvals request mem _ owner _ request_eq _ insert =>
    have hbrand : s.brandWorkspace request.brand = some w := by
      have hrow := brand_workspace_of_post hs mem
      rw [owner.2, owner.1] at hrow
      rw [request_eq]
      exact hrow.trans hw
    have hmem : request ∈ approvals := Table.mem_self_insert? insert
    simp only [respond]
    rw [approvalRequestData_only]
    exact (requestWorkspace_key hmem).trans hbrand
  | @decided rawToken _ d _ _ _ request post brand comments found =>
    have hmem := Table.mem_of_find? found
    have hbrand : s.brandWorkspace request.brand = some w := by
      obtain ⟨request', hfound, hbrand⟩ := Option.bind_eq_some_iff.1 hw
      rwa [Option.some.inj (found.symm.trans hfound)]
    simp only [respond]
    rw [approvalRequestData_only]
    exact (requestWorkspace_key (Table.mem_update_self hmem rfl)).trans hbrand
  | _ => rfl

end Relay
