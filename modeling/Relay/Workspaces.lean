import Relay.Attempts
import Relay.Coherence
import Relay.Constraints
import Relay.Library.Simulation

/-!
# One workspace of the store

* `Store.only`: the rows that belong to a workspace;
* `Rooted`: the references by which variants, connections, attempts, requests and comments belong
  to one, in every reachable state (`rooted_of_reachable`);
* `runCommand_only`: a command of a workspace does to its rows, whatever the others are, what it
  does where they are all there is;
* `Effect.only`: the command of another one leaves them as they are.
-/

namespace Relay

open Relational Transition

/-! ### Who owns a row -/

namespace Store

def brandWorkspace (s : Store) : Uuid → Option Uuid := s.brands.view (·.workspace)

def postTenant (s : Store) : Uuid → Option Uuid := s.posts.view (·.tenant)

def accountTenant (s : Store) : Uuid → Option Uuid := s.accounts.view (·.tenant)

def publicationTenant (s : Store) : Uuid → Option Uuid := s.publications.view (·.tenant)

/-- The workspace of an approval request, by its brand. -/
def requestWorkspace (s : Store) (request : Uuid) : Option Uuid :=
  (s.approvals.view (·.brand) request).bind s.brandWorkspace

/-- The rows of one workspace. -/
def only (s : Store) (w : Uuid) : Store where
  tenants := s.tenants.restrict fun t => t.id = w
  brands := s.brands.restrict fun b => b.workspace = w
  memberships := s.memberships.restrict fun m => m.workspace = w
  posts := s.posts.restrict fun p => p.tenant = w
  variants := s.variants.restrict fun v => s.postTenant v.post = some w
  assets := s.assets.restrict fun a => a.tenant = w
  accounts := s.accounts.restrict fun a => a.tenant = w
  connections := s.connections.restrict fun c => s.accountTenant c.socialAccount = some w
  oauthStates := s.oauthStates.restrict fun o => o.tenant = w
  publications := s.publications.restrict fun q => q.tenant = w
  attempts := s.attempts.restrict fun a => s.publicationTenant a.publication = some w
  approvals := s.approvals.restrict fun r => s.brandWorkspace r.brand = some w
  comments := s.comments.restrict fun c => s.requestWorkspace c.approvalRequest = some w
  audit := s.audit.filter fun e => e.tenant = w

end Store

/-- The rows by which others belong to a workspace are there. -/
structure Rooted (s : Store) : Prop where
  variants : ∀ v ∈ s.variants, ∃ p ∈ s.posts, p.id = v.post
  connections : ∀ c ∈ s.connections, ∃ a ∈ s.accounts, a.id = c.socialAccount
  attempts : ∀ a ∈ s.attempts, ∃ q ∈ s.publications, q.id = a.publication
  comments : ∀ c ∈ s.comments, ∃ r ∈ s.approvals, r.id = c.approvalRequest

variable {s s' : Store} {w : Uuid}

/-! ### Changes of the store, seen from a workspace -/

section Changes

theorem only_log_own {e : AuditLog} (h : e.tenant = w) : (s.log e).only w = (s.only w).log e := by
  have haudit : (s.log e).only w =
      { s.only w with audit := (s.audit ++ [e]).filter fun e => e.tenant = w } := rfl
  rw [haudit, List.filter_append, List.filter_cons, if_pos (decide_eq_true h)]
  rfl

theorem only_log_other {e : AuditLog} (h : e.tenant ≠ w) : (s.log e).only w = s.only w := by
  have haudit : (s.log e).only w =
      { s.only w with audit := (s.audit ++ [e]).filter fun e => e.tenant = w } := rfl
  rw [haudit, List.filter_append, List.filter_cons, if_neg (by simpa using h), List.filter_nil,
    List.append_nil]
  rfl

/-- New rows of a table that no other row belongs by. -/
theorem only_posts {posts : Table Post}
    (h : ∀ v ∈ s.variants, posts.view (·.tenant) v.post = s.postTenant v.post) :
    ({ s with posts } : Store).only w =
      { s.only w with posts := posts.restrict fun p => p.tenant = w } := by
  unfold Store.only
  congr 1
  refine Table.restrict_congr fun v hv => ?_
  change decide (posts.view (·.tenant) v.post = some w) = _
  rw [h v hv]

theorem only_accounts {accounts : Table SocialAccount}
    (h : ∀ c ∈ s.connections, accounts.view (·.tenant) c.socialAccount = s.accountTenant c.socialAccount) :
    ({ s with accounts } : Store).only w =
      { s.only w with accounts := accounts.restrict fun a => a.tenant = w } := by
  unfold Store.only
  congr 1
  refine Table.restrict_congr fun c hc => ?_
  change decide (accounts.view (·.tenant) c.socialAccount = some w) = _
  rw [h c hc]

theorem only_publications {publications : Table Publication}
    (h : ∀ a ∈ s.attempts, publications.view (·.tenant) a.publication = s.publicationTenant a.publication) :
    ({ s with publications } : Store).only w =
      { s.only w with publications := publications.restrict fun q => q.tenant = w } := by
  unfold Store.only
  congr 1
  refine Table.restrict_congr fun a ha => ?_
  change decide (publications.view (·.tenant) a.publication = some w) = _
  rw [h a ha]

theorem only_approvals {approvals : Table ApprovalRequest}
    (h : ∀ c ∈ s.comments, approvals.view (·.brand) c.approvalRequest =
      s.approvals.view (·.brand) c.approvalRequest) :
    ({ s with approvals } : Store).only w =
      { s.only w with
        approvals := approvals.restrict fun r => s.brandWorkspace r.brand = some w } := by
  unfold Store.only
  congr 1
  refine Table.restrict_congr fun c hc => ?_
  change decide ((approvals.view (·.brand) c.approvalRequest).bind s.brandWorkspace = some w) = _
  rw [h c hc]
  rfl

end Changes

/-! ### The commands of the workspace -/

/-- The errors of a unique constraint, which ranges over the rows of all workspaces. -/
def ServiceError.OfConstraint (e : ServiceError) : Prop :=
  e = .integrityError ∨ e = .transactionManagementError

/-- A unique constraint fails, and what was drawn for the row is `taken`. -/
def Clash (taken : Prop) (e : ServiceError) : Prop := e.OfConstraint ∧ taken

/-- `y` is the outcome `x` of a transaction as the workspace sees it, unless what the transaction
draws is `taken`. -/
def SeenBy (w : Uuid) (taken : Prop) {α : Type} (x y : Except ServiceError (α × Store)) : Prop :=
  Agrees (Clash taken) (fun a => (a.1, a.2.only w)) x y

variable {taken taken' : Prop}

theorem Agrees.or_taken {α β : Type} {f : α → β} {x : Except ServiceError α} {y : Except ServiceError β}
    (h : Agrees (Clash taken) f x y) (himp : taken → taken') : Agrees (Clash taken') f x y :=
  h.mono fun _ => And.imp_right himp

theorem create_only {ρ : Type} [Keyed ρ Uuid] {t : Table ρ} {r : ρ} {p : ρ → Bool} (hr : p r = true) :
    Agrees (Clash (t.Outside p (key r))) (·.restrict p) (create t r) (create (t.restrict p) r) := by
  unfold create
  cases h : t.insert? r with
  | none =>
    rcases Table.restrict_insert?_none (p := p) h with h | houtside
    · rw [h]
      exact .error _
    · exact .lost_error ⟨.inl rfl, houtside⟩
  | some t' =>
    rw [Table.restrict_insert h hr]
    exact .ok rfl

theorem SeenBy.returned {α : Type} {a : α} {t : Store} (h : s'.only w = t) :
    SeenBy w taken (.ok (a, s')) (.ok (a, t)) := by
  rw [← h]
  exact .ok rfl

theorem SeenBy.logged {α : Type} {a : α} {t : Store} {e : AuditLog} (he : e.tenant = w)
    (h : s'.only w = t) : SeenBy w taken (.ok (a, s'.log e)) (.ok (a, t.log e)) :=
  SeenBy.returned (h ▸ only_log_own he)

section Services

variable {env : Env} {now : Time}

theorem createMediaUploadIntent_only {signer : Signer} {id brand : Uuid} {subject : String}
    {upload : MediaUpload} :
    SeenBy w (s.assets.Outside (fun a => a.tenant = w) id)
      (createMediaUploadIntent env signer now id w brand subject upload s)
      (createMediaUploadIntent env signer now id w brand subject upload (s.only w)) := by
  unfold createMediaUploadIntent
  split
  · exact .error _
  split
  · exact .error _
  refine Agrees.bind (create_only (by simp [newMediaAsset])) fun assets _ => ?_
  split
  · exact .error _
  · exact .error _
  · exact SeenBy.logged rfl rfl

theorem only_setUploadState {asset : Uuid} {state : UploadState} :
    (s.setUploadState now asset state).only w = (s.only w).setUploadState now asset state := by
  have hassets : (s.setUploadState now asset state).only w = { s.only w with
      assets := (s.assets.update asset ⟨fun a => { a with uploadState := state, updatedAt := now },
        fun _ => rfl⟩).restrict fun a => a.tenant = w } := rfl
  rw [hassets, Table.restrict_update fun _ => rfl]
  rfl

theorem confirmMediaUpload_only {head : HeadObject} {asset : Uuid} {subject : String} :
    SeenBy w False (confirmMediaUpload env head now asset w subject s)
      (confirmMediaUpload env head now asset w subject (s.only w)) := by
  unfold confirmMediaUpload atomic confirmMediaUploadBody
  have hfind : (s.only w).assets.find? (fun a => a.id = asset && a.tenant = w) =
      s.assets.find? fun a => a.id = asset && a.tenant = w :=
    Table.find?_restrict_of fun a _ ha => by simp_all
  rw [hfind]
  cases s.assets.find? fun a => a.id = asset && a.tenant = w with
  | none => exact .error _
  | some row =>
    dsimp only
    split_ifs
    · exact SeenBy.returned rfl
    · exact .error _
    · cases head row.storageKey with
      | error e => exact .error _
      | ok metadata =>
        dsimp only
        split_ifs
        · exact .error _
        · exact SeenBy.logged rfl only_setUploadState
    · exact .error _

/-- The post of a key is found among the posts of its workspace. -/
theorem findPost_only (key : String) : findPost w key (s.only w) = findPost w key s :=
  Table.find?_restrict_of fun p _ hp => by simp_all

theorem readyAssetsForPost_only {brand : Uuid} {assetIds : List Uuid} :
    readyAssetsForPost w brand assetIds (s.only w) = readyAssetsForPost w brand assetIds s := by
  unfold readyAssetsForPost
  dsimp only
  rw [show (s.only w).assets = s.assets.restrict fun a => a.tenant = w from rfl,
    Table.where_restrict_of fun a _ ha => by simp_all]

theorem Agrees.afterIntegrityError {α β : Type} {f : α → β} {x : Except ServiceError α}
    {y : Except ServiceError β} (h : Agrees (Clash taken) f x y) :
    Agrees (Clash taken) f (afterIntegrityError x) (afterIntegrityError y) := by
  cases x with
  | ok a =>
    obtain rfl : y = .ok (f a) := h
    exact .ok rfl
  | error e =>
    rcases h with ⟨rfl | rfl, htaken⟩ | rfl
    · exact .lost_error ⟨.inr rfl, htaken⟩
    · exact .lost_error ⟨.inr rfl, htaken⟩
    · by_cases he : e = .integrityError
      · rw [he]
        exact .error _
      · have hsame : ∀ {γ : Type}, Relay.afterIntegrityError (.error e : Except ServiceError γ) = .error e := by
          intro γ
          unfold Relay.afterIntegrityError
          split <;> simp_all
        rw [hsame, hsame]
        exact .error _

theorem createPostRow_only {post : Post} (h : post.tenant = w) :
    Agrees (Clash (s.posts.Outside (fun p => p.tenant = w) post.id)) (·.restrict fun p => p.tenant = w)
      (createPostRow s post) (createPostRow (s.only w) post) := by
  unfold createPostRow
  rw [h, findPost_only]
  split
  · exact .error _
  · exact create_only (by simpa using h)

theorem createPostRow_insert {post : Post} {posts : Table Post} (h : createPostRow s post = .ok posts) :
    s.posts.insert? post = some posts := by
  unfold createPostRow at h
  split at h
  · cases h
  · exact create_eq_ok.1 h

/-- A row of a part is looked up there. -/
theorem get?_restrict_of_mem {ρ : Type} [Keyed ρ Uuid] {t : Table ρ} {q : ρ → Bool} {r : ρ} (hr : r ∈ t)
    (hq : q r = true) : (t.restrict q).get? (key r) = t.get? (key r) := by
  rw [Table.get?_restrict, Table.get?_key hr]
  simp [Option.filter, hq]

/-- The columns of the rows that were there. -/
theorem view_insert?_of_mem {ρ α : Type} [Keyed ρ Uuid] {t t' : Table ρ} {r : ρ} {column : ρ → α}
    (h : t.insert? r = some t') {k : Uuid} (hk : ∃ x ∈ t, key x = k) :
    t'.view column k = t.view column k := by
  obtain ⟨x, hx, rfl⟩ := hk
  rw [Table.view_insert? h, Function.update_of_ne (Table.fresh_of_insert? h x hx)]

theorem Rooted.only_variants (hs : Rooted s) {post : Post} {posts : Table Post}
    (h : s.posts.insert? post = some posts) :
    (s.only w).variants = s.variants.restrict fun v => posts.view (·.tenant) v.post = some w := by
  refine Table.restrict_congr fun v hv => ?_
  rw [view_insert?_of_mem h (hs.variants v hv)]
  rfl

theorem createPostDraft_only (hs : Rooted s) {ids : PostIds} {brand : Uuid} {subject key : String}
    {payload : PostPayload} :
    SeenBy w (s.posts.Outside (fun p => p.tenant = w) ids.post ∨
        s.variants.Outside (fun v => s.postTenant v.post = some w) ids.variant)
      (createPostDraft env now ids w brand subject key payload s)
      (createPostDraft env now ids w brand subject key payload (s.only w)) := by
  unfold createPostDraft
  rw [findPost_only]
  cases hf : findPost w key s with
  | some existing =>
    dsimp only
    unfold replayPost
    split_ifs
    · exact .error _
    · exact SeenBy.returned rfl
  | none =>
    dsimp only
    refine Agrees.afterIntegrityError ?_
    unfold insertPostDraft
    refine Agrees.bind (Agrees.or_taken (createPostRow_only rfl) .inl) fun posts hposts => ?_
    have hinsert := createPostRow_insert hposts
    rw [readyAssetsForPost_only]
    refine Agrees.bind (f := id) ?_ fun media _ => ?_
    · cases readyAssetsForPost w brand payload.mediaAssetIds s with
      | ok media => exact .ok rfl
      | error e => exact .error e
    rw [hs.only_variants hinsert]
    refine Agrees.bind (Agrees.or_taken (create_only ?_) fun htaken => .inr ?_) fun variants _ => ?_
    · exact decide_eq_true (Table.view_key (Table.mem_self_insert? hinsert))
    · obtain ⟨v, hv, hid, hout⟩ := htaken
      refine ⟨v, hv, hid, ?_⟩
      dsimp only at hout ⊢
      rwa [view_insert?_of_mem hinsert (hs.variants v hv)] at hout
    · exact SeenBy.logged rfl rfl

theorem getPost_only {post brand : Uuid} : getPost post w brand (s.only w) = getPost post w brand s := by
  unfold getPost
  rw [show (s.only w).posts = s.posts.restrict fun p => p.tenant = w from rfl,
    Table.find?_restrict_of fun p _ hp => by simp_all]

theorem only_setPostState {post : Uuid} {state : LifecycleState} :
    (s.setPostState now post state).only w = (s.only w).setPostState now post state := by
  refine (only_posts fun v _ => ?_).trans ?_
  · exact congrFun (Table.view_update_same fun _ => rfl) _
  · rw [Table.restrict_update fun _ => rfl]
    rfl

theorem approvePost_only {post brand : Uuid} {subject : String} :
    SeenBy w False (approvePost now post w brand subject s)
      (approvePost now post w brand subject (s.only w)) := by
  unfold approvePost
  rw [getPost_only]
  cases getPost post w brand s with
  | error e => exact .error e
  | ok row =>
    change SeenBy w False (if _ then _ else _) (if _ then _ else _)
    split_ifs
    · exact SeenBy.returned rfl
    · exact .error _
    · exact SeenBy.logged rfl only_setPostState

theorem brand_workspace_of_post (hs : Coherent s) {p : Post} (hp : p ∈ s.posts) :
    s.brandWorkspace p.brand = some p.tenant := by
  obtain ⟨b, hb, hid, hworkspace⟩ := hs.posts p hp
  rw [← hid, ← hworkspace]
  exact Table.view_key hb

theorem only_insertApproval (hs : Rooted s) {request : ApprovalRequest}
    {approvals : Table ApprovalRequest} (h : s.approvals.insert? request = some approvals) :
    ({ s with approvals } : Store).only w = { s.only w with
      approvals := approvals.restrict fun r => s.brandWorkspace r.brand = some w } :=
  only_approvals fun c hc => view_insert?_of_mem h (hs.comments c hc)

/-- A row that is created after a look-up for one with the same unique column. -/
theorem createUnique_only {ρ : Type} [Keyed ρ Uuid] {t : Table ρ} {r : ρ} {p q : ρ → Bool}
    (hr : p r = true) :
    Agrees (Clash (t.Outside p (key r) ∨ ∃ x ∈ t, p x = false ∧ q x = true)) (·.restrict p)
      (if (t.find? q).isSome then .error .integrityError else create t r)
      (if ((t.restrict p).find? q).isSome then .error .integrityError else create (t.restrict p) r) := by
  cases hfound : t.find? q with
  | none =>
    have hnone : (t.restrict p).find? q = none :=
      Table.find?_eq_none.2 fun x hx => Table.find?_eq_none.1 hfound x (Table.mem_restrict.1 hx).1
    rw [hnone]
    exact Agrees.or_taken (create_only hr) .inl
  | some x =>
    cases hp : p x with
    | true =>
      rw [Table.find?_restrict_some hfound hp]
      exact .error _
    | false =>
      exact .lost_error ⟨.inl rfl, .inr ⟨x, Table.mem_of_find? hfound, hp, Table.find?_some hfound⟩⟩

theorem createApprovalRow_only {request : ApprovalRequest}
    (h : s.brandWorkspace request.brand = some w) :
    Agrees (Clash (s.approvals.Outside (fun r => s.brandWorkspace r.brand = some w) request.id ∨
        ∃ r ∈ s.approvals, s.brandWorkspace r.brand ≠ some w ∧ r.tokenDigest = request.tokenDigest))
      (·.restrict fun r => s.brandWorkspace r.brand = some w)
      (createApprovalRow s request) (createApprovalRow (s.only w) request) := by
  refine Agrees.or_taken (createUnique_only (decide_eq_true h)) (Or.imp_right ?_)
  rintro ⟨r, hr, hp, hq⟩
  exact ⟨r, hr, of_decide_eq_false hp, of_decide_eq_true hq⟩

theorem createApprovalRow_insert {request : ApprovalRequest} {approvals : Table ApprovalRequest}
    (h : createApprovalRow s request = .ok approvals) : s.approvals.insert? request = some approvals := by
  unfold createApprovalRow at h
  split at h
  · cases h
  · exact create_eq_ok.1 h

theorem requestApproval_only (hs : Rooted s) (hcoherent : Coherent s) {id brand post : Uuid}
    {rawToken subject : String} {expiresInDays : ℤ} :
    SeenBy w (s.approvals.Outside (fun r => s.brandWorkspace r.brand = some w) id ∨
        ∃ r ∈ s.approvals, s.brandWorkspace r.brand ≠ some w ∧ r.tokenDigest = env.sha256 rawToken)
      (requestApproval env now id rawToken w brand post subject expiresInDays s)
      (requestApproval env now id rawToken w brand post subject expiresInDays (s.only w)) := by
  unfold requestApproval
  rw [getPost_only]
  cases hpost : getPost post w brand s with
  | error e => exact .error e
  | ok row =>
    obtain ⟨hrow, -, htenant, hbrand⟩ := getPost_eq_ok hpost
    have hworkspace : s.brandWorkspace brand = some w := by
      rw [← hbrand, ← htenant]
      exact brand_workspace_of_post hcoherent hrow
    refine Agrees.ite (fun _ => .error _) fun _ => ?_
    refine Agrees.bind (createApprovalRow_only hworkspace) fun approvals happrovals => ?_
    refine SeenBy.logged rfl ?_
    have honly := only_insertApproval (w := w) hs (createApprovalRow_insert happrovals)
    split
    · rw [only_setPostState, honly]
    · exact honly

theorem startMetaOAuth_only {id brand : Uuid} {rawState subject : String} :
    SeenBy w (s.oauthStates.Outside (fun o => o.tenant = w) id ∨
        ∃ o ∈ s.oauthStates, o.tenant ≠ w ∧ o.stateDigest = env.sha256 rawState)
      (startMetaOAuth env now id rawState w brand subject s)
      (startMetaOAuth env now id rawState w brand subject (s.only w)) := by
  unfold startMetaOAuth
  refine Agrees.bind (f := (·.restrict fun o => o.tenant = w)) ?_ fun oauthStates _ => ?_
  · refine Agrees.or_taken (createUnique_only (decide_eq_true rfl)) (Or.imp_right ?_)
    rintro ⟨o, ho, hp, hq⟩
    exact ⟨o, ho, of_decide_eq_false hp, of_decide_eq_true hq⟩
  · split_ifs
    · exact SeenBy.returned rfl
    · exact .error _

/-- A change of approval requests that keeps their brands. -/
theorem only_updateApproval {id : Uuid} {f : Rewrite ApprovalRequest} (hf : ∀ r, (f r).brand = r.brand) :
    (s.updateApproval id f).only w = (s.only w).updateApproval id f := by
  refine (only_approvals fun c _ => ?_).trans ?_
  · exact congrFun (Table.view_update_same hf) _
  · rw [Table.restrict_update fun r => by rw [hf]]
    rfl

theorem brands_get?_only (brand : Uuid) :
    ((s.only w).brands.get? brand).any (fun b => b.workspace = w) =
      (s.brands.get? brand).any fun b => b.workspace = w := by
  rw [show (s.only w).brands = s.brands.restrict fun b => b.workspace = w from rfl, Table.get?_restrict]
  cases s.brands.get? brand with
  | none => rfl
  | some b => by_cases hb : b.workspace = w <;> simp [Option.filter, hb]

theorem brandWorkspace_of_any {brand : Uuid}
    (h : (s.brands.get? brand).any (fun b => b.workspace = w) = true) : s.brandWorkspace brand = some w := by
  obtain ⟨b, hb, hw⟩ := (Option.any_eq_true _ _).1 h
  unfold Store.brandWorkspace Table.view
  rw [hb, ← of_decide_eq_true hw]
  rfl

theorem revokeApproval_only {id : Uuid} {subject : String} :
    SeenBy w False (revokeApproval now id w subject s)
      (revokeApproval now id w subject (s.only w)) := by
  unfold revokeApproval
  have hfind : ((s.only w).approvals.find? fun a => a.id = id &&
      ((s.only w).brands.get? a.brand).any fun b => b.workspace = w) =
      s.approvals.find? fun a => a.id = id && (s.brands.get? a.brand).any fun b => b.workspace = w := by
    simp only [brands_get?_only]
    exact Table.find?_restrict_of fun a _ ha =>
      decide_eq_true (brandWorkspace_of_any (Bool.and_eq_true_iff.1 ha).2)
  rw [hfind]
  cases s.approvals.find? fun a => a.id = id && (s.brands.get? a.brand).any fun b => b.workspace = w with
  | none => exact .error _
  | some request =>
    dsimp only
    split_ifs
    · exact .error _
    · exact SeenBy.logged rfl (only_updateApproval fun _ => rfl)

theorem createComment_only {id request : Uuid} {authorLabel comment : String}
    (h : s.requestWorkspace request = some w) :
    Agrees (Clash (s.comments.Outside (fun c => s.requestWorkspace c.approvalRequest = some w) id))
      (·.only w) (createComment s now id request authorLabel comment)
      (createComment (s.only w) now id request authorLabel comment) := by
  unfold createComment
  split_ifs
  · exact .ok rfl
  · refine Agrees.bind (create_only (decide_eq_true h)) fun comments _ => ?_
    exact .ok rfl

/-- The rows of a found request are rows of its workspace. -/
theorem request_rows (hs : Coherent s) {request : ApprovalRequest} (hr : request ∈ s.approvals)
    (hw : s.brandWorkspace request.brand = some w) :
    (s.only w).posts.get? request.post = s.posts.get? request.post ∧
      (s.only w).brands.get? request.brand = s.brands.get? request.brand ∧
      s.requestWorkspace request.id = some w := by
  obtain ⟨p, hp, hid, hbrand⟩ := hs.approvals request hr
  have htenant : p.tenant = w := by
    have := brand_workspace_of_post hs hp
    rw [← hbrand, hw] at this
    exact (Option.some.inj this).symm
  obtain ⟨b, hb, hbw⟩ := Option.map_eq_some_iff.1 hw
  refine ⟨?_, ?_, ?_⟩
  · rw [show (s.only w).posts = s.posts.restrict fun p => p.tenant = w from rfl, Table.get?_restrict,
      ← hid, show s.posts.get? p.id = some p from Table.get?_key hp]
    simp [Option.filter, htenant]
  · rw [show (s.only w).brands = s.brands.restrict fun b => b.workspace = w from rfl,
      Table.get?_restrict, hb]
    simp [Option.filter, hbw]
  · unfold Store.requestWorkspace
    rw [show s.approvals.view (·.brand) request.id = some request.brand from Table.view_key hr]
    exact hw

theorem only_decided {request post : Uuid} {d : ApprovalDecision} {state : LifecycleState} :
    ((s.updateApproval request ⟨(·.decide now d), fun _ => rfl⟩).setPostState now post state).only w =
      ((s.only w).updateApproval request ⟨(·.decide now d), fun _ => rfl⟩).setPostState now post state := by
  rw [only_setPostState, only_updateApproval fun _ => rfl]

theorem requestWorkspace_decided {request post : Uuid} {d : ApprovalDecision} {state : LifecycleState} :
    ((s.updateApproval request ⟨(·.decide now d), fun _ => rfl⟩).setPostState now post
      state).requestWorkspace = s.requestWorkspace := by
  funext id
  exact congrArg (Option.bind · s.brandWorkspace) (congrFun (Table.view_update_same fun _ => rfl) id)

theorem decideApproval_only (hs : Coherent s) {commentId : Uuid} {rawToken comment authorLabel : String}
    {decision : DecisionText} {request : ApprovalRequest}
    (hfound : findApproval env rawToken s = some request) (hw : s.brandWorkspace request.brand = some w) :
    SeenBy w (s.comments.Outside (fun c => s.requestWorkspace c.approvalRequest = some w) commentId)
      (decideApproval env now commentId rawToken decision comment authorLabel s)
      (decideApproval env now commentId rawToken decision comment authorLabel (s.only w)) := by
  obtain ⟨hpost, hbrand, hrequest⟩ := request_rows hs (Table.mem_of_find? hfound) hw
  have hfound' : findApproval env rawToken (s.only w) = some request :=
    Table.find?_restrict_some hfound (decide_eq_true hw)
  obtain ⟨b, hb, hbw⟩ := Option.map_eq_some_iff.1 hw
  unfold decideApproval
  rw [hfound, hfound']
  dsimp only
  refine Agrees.ite (fun _ => .error _) fun _ => Agrees.ite (fun _ => .error _) fun _ => ?_
  cases decision.decision? with
  | none => exact .error _
  | some d =>
    refine Agrees.ite (fun _ => .error _) fun _ => ?_
    rw [hpost, hbrand, hb]
    cases s.posts.get? request.post with
    | none => exact .error _
    | some post =>
      refine Agrees.ite (fun _ => .error _) fun _ => ?_
      rw [← only_decided]
      refine Agrees.bind (Agrees.or_taken (createComment_only ?_) ?_) fun s' _ => SeenBy.logged hbw rfl
      · rw [requestWorkspace_decided]
        exact hrequest
      · rw [requestWorkspace_decided]
        exact id

/-- The assets of a variant of the workspace are the workspace's. -/
theorem attachedAssets_only (hs : Coherent s) {v : PostVariant} (hv : v ∈ s.variants)
    (hw : s.postTenant v.post = some w) : attachedAssets (s.only w) v.id = attachedAssets s v.id := by
  have hv' : v ∈ (s.only w).variants := Table.mem_restrict.2 ⟨hv, decide_eq_true hw⟩
  obtain ⟨p, ⟨hp, hid⟩, -, hready⟩ := hs.variants v hv
  have htenant : p.tenant = w := by
    have hview : s.postTenant p.id = some p.tenant := Table.view_key hp
    rw [hid, hw] at hview
    exact (Option.some.inj hview).symm
  rw [attachedAssets_eq hv, attachedAssets_eq hv']
  refine Table.where_restrict_of fun a ha hmem => decide_eq_true ?_
  obtain ⟨a', ha', hid', -, ht, -⟩ := hready a.id (of_decide_eq_true hmem)
  rw [← htenant, ← ht, Table.eq_of_key ha' ha hid']

/-- The variant that a call remembers is one of the workspace of its post. -/
theorem Remembered.postTenant {call : ScheduleCall} (h : Remembered s call) :
    s.postTenant call.postVariant.post = some call.post.tenant := by
  obtain ⟨p, hp, state, updatedAt, heq, -⟩ := h.post
  have hview : s.postTenant p.id = some p.tenant := Table.view_key hp
  rwa [heq, h.postOf] at hview

theorem checkSchedule_only (hs : Coherent s) {call : ScheduleCall} (hcall : Remembered s call)
    (hw : call.tenant = w) : checkSchedule call (s.only w) = checkSchedule call s := by
  unfold checkSchedule
  by_cases hpost : call.post.tenant ≠ call.tenant ∨ call.post.brand ≠ call.brand
  · simp only [if_pos hpost]
  · have htenant : call.post.tenant = w := by
      rw [← hw]
      exact not_not.1 fun h => hpost (.inl h)
    rw [attachedAssets_only hs hcall.postVariant (by rw [hcall.postTenant, htenant])]

theorem findPublication_only (key : String) :
    findPublication w key (s.only w) = findPublication w key s :=
  Table.find?_restrict_of fun q _ hq => by simp_all

theorem createPublicationRow_only {publication : Publication} (h : publication.tenant = w) :
    Agrees (Clash (s.publications.Outside (fun q => q.tenant = w) publication.id))
      (·.restrict fun q => q.tenant = w)
      (createPublicationRow s publication) (createPublicationRow (s.only w) publication) := by
  unfold createPublicationRow
  rw [h, findPublication_only]
  split
  · exact .error _
  · exact create_only (by simpa using h)

theorem createPublicationRow_insert {publication : Publication} {publications : Table Publication}
    (h : createPublicationRow s publication = .ok publications) :
    s.publications.insert? publication = some publications := by
  unfold createPublicationRow at h
  split at h
  · cases h
  · exact create_eq_ok.1 h

theorem schedulePublication_only (hs : Rooted s) (hcoherent : Coherent s) {id : Uuid}
    {call : ScheduleCall} (hcall : Remembered s call) (hw : call.tenant = w) :
    SeenBy w (s.publications.Outside (fun q => q.tenant = w) id) (schedulePublication env now id call s)
      (schedulePublication env now id call (s.only w)) := by
  unfold schedulePublication
  rw [hw, findPublication_only, checkSchedule_only hcoherent hcall hw]
  cases findPublication w call.idempotencyKey s with
  | some existing =>
    dsimp only
    unfold replayPublication
    split_ifs
    · exact .error _
    · exact SeenBy.returned rfl
  | none =>
    dsimp only
    cases checkSchedule call s with
    | error e => exact .error e
    | ok _ =>
      refine Agrees.afterIntegrityError ?_
      unfold insertPublication
      refine Agrees.bind (createPublicationRow_only hw) fun publications hpublications => ?_
      refine SeenBy.logged hw (only_publications fun a ha => ?_)
      exact view_insert?_of_mem (createPublicationRow_insert hpublications) (hs.attempts a ha)

theorem consumeOAuthState_only {rawState : String} {state : OAuthState}
    (hfound : s.oauthStates.find? (fun o => o.stateDigest = env.sha256 rawState) = some state)
    (hw : state.tenant = w) :
    SeenBy w False (consumeOAuthState env now rawState s)
      (consumeOAuthState env now rawState (s.only w)) := by
  have hfound' : (s.only w).oauthStates.find? (fun o => o.stateDigest = env.sha256 rawState) =
      some state := Table.find?_restrict_some hfound (decide_eq_true hw)
  unfold consumeOAuthState
  rw [hfound, hfound']
  refine Agrees.ite (fun _ => .error _) fun _ => SeenBy.returned ?_
  have honly : ({ s with oauthStates := s.oauthStates.update state.id ⟨(·.use now), fun _ => rfl⟩ } :
      Store).only w = { s.only w with
        oauthStates := (s.oauthStates.update state.id ⟨(·.use now), fun _ => rfl⟩).restrict fun o =>
          o.tenant = w } := rfl
  rw [honly, Table.restrict_update fun _ => rfl]
  rfl

theorem upsertConnection_only {id account : Uuid} {draw : FernetDraw} {token : MetaToken}
    {c : MetaConnection}
    (hw : s.accountTenant account = some w) :
    Agrees (Clash (s.connections.Outside (fun c => s.accountTenant c.socialAccount = some w) id))
      (·.only w) (upsertConnection env now id draw account token c s)
      (upsertConnection env now id draw account token c (s.only w)) := by
  unfold upsertConnection
  cases encryptToken env draw c.accessToken with
  | none => exact .error _
  | some encrypted =>
    refine Agrees.ite (fun _ => .error _) fun _ => ?_
    have hfind : ((s.only w).connections.find? fun row => row.socialAccount = account &&
        row.channel = c.channel && row.providerChannelId = c.providerChannelId) =
        s.connections.find? fun row => row.socialAccount = account && row.channel = c.channel &&
          row.providerChannelId = c.providerChannelId :=
      Table.find?_restrict_of fun row _ hrow => by simp_all
    rw [hfind]
    cases s.connections.find? fun row => row.socialAccount = account && row.channel = c.channel &&
        row.providerChannelId = c.providerChannelId with
    | some row =>
      refine .ok ?_
      change _ = { s.only w with
        connections := (s.connections.update row.id
          ⟨(·.refresh now token encrypted c), fun _ => rfl⟩).restrict fun row =>
            s.accountTenant row.socialAccount = some w }
      rw [Table.restrict_update fun _ => rfl]
      rfl
    | none => exact Agrees.bind (create_only (decide_eq_true hw)) fun connections _ => .ok rfl

theorem upsertConnections_only {ids : ℕ → Uuid} {ciphers : ℕ → FernetDraw} {account : Uuid}
    {token : MetaToken} {cs : List MetaConnection} (hw : s.accountTenant account = some w) :
    Agrees (Clash (∃ n < cs.length,
        s.connections.Outside (fun c => s.accountTenant c.socialAccount = some w) (ids n)))
      (·.only w) (upsertConnections env now account token ids ciphers cs s)
      (upsertConnections env now account token ids ciphers cs (s.only w)) := by
  induction cs generalizing s ids ciphers with
  | nil => exact .ok rfl
  | cons c cs ih =>
    refine Agrees.bind (Agrees.or_taken (upsertConnection_only hw) fun htaken =>
      ⟨0, Nat.succ_pos _, htaken⟩) fun t ht => ?_
    obtain ⟨connections, rfl, hsaved⟩ := upsertConnection_saved ht
    refine Agrees.or_taken (ih hw) ?_
    rintro ⟨n, hn, row, hrow, hid, hout⟩
    refine ⟨n + 1, Nat.succ_lt_succ hn, ?_⟩
    -- the rows of others are those that there were
    rcases hsaved.origin row hrow with ⟨row', hrow', _, _, _, _, _, _, rfl⟩ | hnew
    · exact ⟨row', hrow', hid, hout⟩
    · exact absurd (hnew ▸ hw) (of_decide_eq_false hout)

theorem upsertAccount_only (hs : Rooted s) {id brand : Uuid} {identity : MetaIdentity} :
    SeenBy w (s.accounts.Outside (fun a => a.tenant = w) id) (upsertAccount now id w brand identity s)
      (upsertAccount now id w brand identity (s.only w)) := by
  unfold upsertAccount
  refine Agrees.ite (fun _ => .error _) fun _ => ?_
  have hfind : ((s.only w).accounts.find? fun a => a.tenant = w && a.brand = brand &&
      a.provider = .metaProvider && a.providerAccountId = identity.providerAccountId) =
      s.accounts.find? fun a => a.tenant = w && a.brand = brand && a.provider = .metaProvider &&
        a.providerAccountId = identity.providerAccountId :=
    Table.find?_restrict_of fun a _ ha => by simp_all
  have hfind' : findAccount w identity.providerAccountId (s.only w) =
      findAccount w identity.providerAccountId s :=
    Table.find?_restrict_of fun a _ ha => by simp_all
  rw [hfind, hfind']
  cases s.accounts.find? fun a => a.tenant = w && a.brand = brand && a.provider = .metaProvider &&
      a.providerAccountId = identity.providerAccountId with
  | some account =>
    refine SeenBy.returned ((only_accounts fun c _ => ?_).trans ?_)
    · exact congrFun (Table.view_update_same fun _ => rfl) _
    · rw [Table.restrict_update fun _ => rfl]
      rfl
  | none =>
    refine Agrees.ite (fun _ => .error _) fun _ => ?_
    refine Agrees.bind (create_only (decide_eq_true rfl)) fun accounts haccounts => ?_
    refine SeenBy.returned (only_accounts fun c hc => ?_)
    exact view_insert?_of_mem (create_eq_ok.1 haccounts) (hs.connections c hc)

theorem persistMetaConnections_only (hs : Rooted s) {ids : ℕ → Uuid} {ciphers : ℕ → FernetDraw}
    {brand : Uuid} {subject : String} {token : MetaToken} {identity : MetaIdentity} :
    SeenBy w (s.accounts.Outside (fun a => a.tenant = w) (ids 0) ∨
        ∃ n < identity.connections.length,
          s.connections.Outside (fun c => s.accountTenant c.socialAccount = some w) (ids (n + 1)))
      (persistMetaConnections env now ids ciphers w brand subject token identity s)
      (persistMetaConnections env now ids ciphers w brand subject token identity (s.only w)) := by
  unfold persistMetaConnections
  refine Agrees.bind (Agrees.or_taken (upsertAccount_only hs) .inl) fun x hx => ?_
  obtain ⟨account, t⟩ := x
  obtain ⟨accounts, rfl, hsaved⟩ := upsertAccount_saved hx
  have hw : ({ s with accounts } : Store).accountTenant account.id = some w := by
    rw [← hsaved.owner.1]
    exact Table.view_key hsaved.mem
  refine Agrees.bind (Agrees.or_taken (upsertConnections_only hw) fun htaken => .inr ?_) fun u _ =>
    SeenBy.logged rfl rfl
  obtain ⟨n, hn, row, hrow, hid, hout⟩ := htaken
  refine ⟨n, hn, row, hrow, hid, ?_⟩
  have howner : ({ s with accounts } : Store).accountTenant row.socialAccount =
      s.accountTenant row.socialAccount := by
    obtain ⟨a, ha, haid⟩ := hs.connections row hrow
    obtain ⟨a', ha', becomes⟩ := hsaved.grows a ha
    have hbefore : s.accountTenant a.id = some a.tenant := Table.view_key ha
    have hafter : accounts.view (·.tenant) a'.id = some a'.tenant := Table.view_key ha'
    obtain ⟨_, _, rfl⟩ := becomes
    rw [← haid, hbefore]
    exact hafter
  dsimp only at hout ⊢
  rwa [howner] at hout

end Services

/-! ### The references of reachable states -/

section References

variable {env : Env} {publisher : Option Publisher}

theorem decideApproval_comments {now : Time} {id : Uuid} {rawToken comment authorLabel : String}
    {decision : DecisionText} {r : ApprovalRequest}
    (h : decideApproval env now id rawToken decision comment authorLabel s = .ok (r, s')) :
    s'.comments = s.comments ∨ ∃ request c, findApproval env rawToken s = some request ∧
      c.approvalRequest = request.id ∧ s.comments.insert? c = some s'.comments := by
  unfold decideApproval at h
  split at h
  · cases h
  rename_i request hf
  split at h
  · cases h
  split at h
  · cases h
  split at h
  · cases h
  dsimp only at h
  split at h
  · cases h
  split at h
  · split at h
    · cases h
    obtain ⟨t, ht, h⟩ := bind_eq_ok.1 h
    cases h
    unfold createComment at ht
    split at ht
    · cases ht
      exact .inl rfl
    · obtain ⟨comments, hins, ht⟩ := bind_eq_ok.1 ht
      cases ht
      exact .inr ⟨request, _, hf, rfl, create_eq_ok.1 hins⟩
  · cases h

/-- What a command does to the comments. -/
theorem runCommand_comments {x : World} {c : Command} {r : Reply}
    (h : runCommand env x c s = .ok (r, s')) :
    s'.comments = s.comments ∨ ∃ rawToken decision comment authorLabel request row,
      c = .decideApproval rawToken decision comment authorLabel ∧
      findApproval env rawToken s = some request ∧ row.approvalRequest = request.id ∧
      s.comments.insert? row = some s'.comments := by
  have heffect := runCommand_effect h
  cases heffect with
  | decided =>
    obtain ⟨a, hcall, -⟩ := reply_eq_ok.1 h
    rcases decideApproval_comments hcall with hc | ⟨request, row, hf, hid, hins⟩
    · exact .inl hc
    · exact .inr ⟨_, _, _, _, request, row, rfl, hf, hid, hins⟩
  | _ => exact .inl rfl

theorem Claimed.comments {started now : Time} {attemptId : Uuid} {claim : Claim}
    (h : Claimed started now attemptId claim s s') : s'.comments = s.comments := by
  cases h
  rfl

theorem Finished.comments {now : Time} {claim : Claim} {result : Except DeliveryError String}
    {answer : String} (h : Finished env now claim result answer s s') : s'.comments = s.comments := by
  cases h <;> rfl

/-- A request of a comment lives on. -/
theorem Evolves.request (h : Evolves s s') {id : Uuid} (hr : ∃ r ∈ s.approvals, r.id = id) :
    ∃ r ∈ s'.approvals, r.id = id := by
  obtain ⟨r, hr, rfl⟩ := hr
  obtain ⟨r', hr', _, _, _, _, rfl, -⟩ := h.approvals r hr
  exact ⟨_, hr', rfl⟩

theorem comments_of_reachable {s : Sys} (h : Reachable (relay env publisher) s) :
    ∀ c ∈ s.store.comments, ∃ r ∈ s.store.approvals, r.id = c.approvalRequest := by
  refine Reachable.invariant (I := fun s => ∀ c ∈ s.store.comments,
    ∃ r ∈ s.store.approvals, r.id = c.approvalRequest) ?_ ?_ h
  · rintro s ⟨tenants, brands, memberships, clock, rfl⟩ c hc
    exact absurd hc (Table.not_mem_empty c)
  · rintro s ⟨l, o⟩ t hs hstep c hc
    refine (next_step hstep).evolves.request ?_
    have hsame : t.store.comments = s.store.comments →
        ∃ r ∈ s.store.approvals, r.id = c.approvalRequest := fun he => hs c (he ▸ hc)
    rcases next_store hstep with he | ⟨x, command, r, -, hrun⟩ | ⟨_, _, claim, hclaim⟩ |
      ⟨claim, result, answer, hfinish⟩
    · exact hsame (by rw [he])
    · rcases runCommand_comments hrun with he | ⟨_, _, _, _, request, row, -, hf, hid, hins⟩
      · exact hsame he
      · rcases (Table.mem_insert? hins).1 hc with hc | rfl
        · exact hs c hc
        · exact ⟨request, Table.mem_of_find? hf, hid.symm⟩
    · exact hsame hclaim.comments
    · exact hsame hfinish.comments

theorem rooted_of_reachable {s : Sys} (h : Reachable (relay env publisher) s) : Rooted s.store where
  variants v hv := by
    obtain ⟨p, hp, -⟩ := (coherent_of_reachable h).variants v hv
    exact ⟨p, hp⟩
  connections := (coherent_of_reachable h).connections
  attempts := (delivering_of_reachable h).owned
  comments := comments_of_reachable h

end References

/-! ### All commands -/

/-- The workspace that a command names; a command with a token names none. -/
def Command.tenant : Command → Option Uuid
  | .createMediaUploadIntent tenant .. => some tenant
  | .confirmMediaUpload _ tenant _ => some tenant
  | .createPostDraft tenant .. => some tenant
  | .approvePost _ tenant .. => some tenant
  | .requestApproval tenant .. => some tenant
  | .decideApproval .. => none
  | .revokeApproval _ tenant _ => some tenant
  | .schedulePublication call => some call.tenant
  | .startMetaOAuth tenant .. => some tenant
  | .consumeOAuthState _ => none
  | .persistMetaConnections tenant .. => some tenant

/-- The workspace in which a command acts; a token that nothing was issued for has none. -/
def Command.workspace (env : Env) (s : Store) : Command → Option Uuid
  | .decideApproval rawToken .. =>
    (findApproval env rawToken s).bind fun r => s.brandWorkspace r.brand
  | .consumeOAuthState rawState =>
    (s.oauthStates.find? fun o => o.stateDigest = env.sha256 rawState).map (·.tenant)
  | c => c.tenant

/-- What a command draws is taken: a row of another workspace has an identifier that was drawn for a
row, or the digest of a token that was drawn to be given out. -/
def Command.DrawnTwice (env : Env) (x : Draws) (w : Uuid) (s : Store) : Command → Prop
  | .createMediaUploadIntent .. => s.assets.Outside (fun a => a.tenant = w) (x.ids 0)
  | .createPostDraft .. => s.posts.Outside (fun p => p.tenant = w) (x.ids 0) ∨
      s.variants.Outside (fun v => s.postTenant v.post = some w) (x.ids 1)
  | .requestApproval .. => s.approvals.Outside (fun r => s.brandWorkspace r.brand = some w) (x.ids 0) ∨
      ∃ r ∈ s.approvals, s.brandWorkspace r.brand ≠ some w ∧ r.tokenDigest = env.sha256 x.rawToken
  | .decideApproval .. =>
      s.comments.Outside (fun c => s.requestWorkspace c.approvalRequest = some w) (x.ids 0)
  | .schedulePublication _ => s.publications.Outside (fun q => q.tenant = w) (x.ids 0)
  | .startMetaOAuth .. => s.oauthStates.Outside (fun o => o.tenant = w) (x.ids 0) ∨
      ∃ o ∈ s.oauthStates, o.tenant ≠ w ∧ o.stateDigest = env.sha256 x.rawToken
  | .persistMetaConnections _ _ _ _ identity => s.accounts.Outside (fun a => a.tenant = w) (x.ids 0) ∨
      ∃ n < identity.connections.length,
        s.connections.Outside (fun c => s.accountTenant c.socialAccount = some w) (x.ids (n + 1))
  | .confirmMediaUpload .. | .approvePost .. | .revokeApproval .. | .consumeOAuthState _ => False

theorem SeenBy.reply {α : Type} {f : α → Reply} {x y : Except ServiceError (α × Store)}
    (h : SeenBy w taken x y) : SeenBy w taken (reply f x) (reply f y) :=
  Agrees.map h fun _ _ => rfl

/-- **A command does to the rows of its workspace what it does where they are all there is**, unless
it fails on a unique constraint and what it draws is taken. -/
theorem runCommand_only {env : Env} {x : World} {c : Command} (hs : Rooted s) (hcoherent : Coherent s)
    (hsound : Sound s c) (hw : c.workspace env s = some w) :
    SeenBy w (c.DrawnTwice env x.toDraws w s) (runCommand env x c s) (runCommand env x c (s.only w)) := by
  cases c with
  | createMediaUploadIntent tenant =>
    obtain rfl : tenant = w := Option.some.inj hw
    exact createMediaUploadIntent_only.reply
  | confirmMediaUpload asset tenant =>
    obtain rfl : tenant = w := Option.some.inj hw
    exact confirmMediaUpload_only.reply
  | createPostDraft tenant =>
    obtain rfl : tenant = w := Option.some.inj hw
    exact (createPostDraft_only hs).reply
  | approvePost post tenant =>
    obtain rfl : tenant = w := Option.some.inj hw
    exact approvePost_only.reply
  | requestApproval tenant =>
    obtain rfl : tenant = w := Option.some.inj hw
    exact (requestApproval_only hs hcoherent).reply
  | decideApproval rawToken =>
    obtain ⟨request, hfound, hw⟩ := Option.bind_eq_some_iff.1 hw
    exact (decideApproval_only hcoherent hfound hw).reply
  | revokeApproval request tenant =>
    obtain rfl : tenant = w := Option.some.inj hw
    exact revokeApproval_only.reply
  | schedulePublication call =>
    exact (schedulePublication_only hs hcoherent hsound.2 (Option.some.inj hw)).reply
  | startMetaOAuth tenant =>
    obtain rfl : tenant = w := Option.some.inj hw
    exact startMetaOAuth_only.reply
  | consumeOAuthState rawState =>
    obtain ⟨state, hfound, hw⟩ := Option.map_eq_some_iff.1 hw
    exact (consumeOAuthState_only hfound hw).reply
  | persistMetaConnections tenant =>
    obtain rfl : tenant = w := Option.some.inj hw
    exact (persistMetaConnections_only hs).reply

/-! ### Commands of other workspaces -/

section Others

variable {env : Env} {now : Time}

theorem upsertAccount_other (hs : Rooted s) {id tenant brand : Uuid} {identity : MetaIdentity}
    {account : SocialAccount} (hw : tenant ≠ w)
    (h : upsertAccount now id tenant brand identity s = .ok (account, s')) : s'.only w = s.only w := by
  unfold upsertAccount at h
  split at h
  · cases h
  split at h
  · rename_i row hf
    have htenant : row.tenant ≠ w := by
      have hrow := Table.find?_some hf
      simp only [Bool.and_eq_true, decide_eq_true_eq] at hrow
      exact hrow.1.1.1 ▸ hw
    cases h
    refine (only_accounts fun c _ => congrFun (Table.view_update_same fun _ => rfl) _).trans ?_
    rw [show row.id = key row from rfl, Table.restrict_update_of_not (Table.mem_of_find? hf)
      (decide_eq_false htenant) fun _ => rfl]
    rfl
  · split at h
    · cases h
    · obtain ⟨accounts, hins, h⟩ := bind_eq_ok.1 h
      rw [create_eq_ok] at hins
      cases h
      refine (only_accounts fun c hc => view_insert?_of_mem hins (hs.connections c hc)).trans ?_
      rw [Table.restrict_insert_of_not hins (decide_eq_false hw)]
      rfl

theorem upsertConnection_other {id account : Uuid} {draw : FernetDraw} {token : MetaToken}
    {c : MetaConnection} (hw : s.accountTenant account ≠ some w)
    (h : upsertConnection env now id draw account token c s = .ok s') : s'.only w = s.only w := by
  unfold upsertConnection at h
  split at h
  · cases h
  rename_i encrypted _
  split at h
  · cases h
  split at h
  · rename_i row hf
    have haccount : row.socialAccount = account := by
      have hrow := Table.find?_some hf
      simp only [Bool.and_eq_true, decide_eq_true_eq] at hrow
      exact hrow.1.1
    cases h
    change { s.only w with
      connections := (s.connections.update (key row)
        ⟨(·.refresh now token encrypted c), fun _ => rfl⟩).restrict fun row =>
          s.accountTenant row.socialAccount = some w } = _
    rw [Table.restrict_update_of_not (Table.mem_of_find? hf)
      (decide_eq_false (haccount ▸ hw)) fun _ => rfl]
    rfl
  · obtain ⟨connections, hins, h⟩ := bind_eq_ok.1 h
    rw [create_eq_ok] at hins
    cases h
    change { s.only w with
      connections := connections.restrict fun row => s.accountTenant row.socialAccount = some w } = _
    rw [Table.restrict_insert_of_not hins (decide_eq_false hw)]
    rfl

theorem upsertConnections_other {ids : ℕ → Uuid} {ciphers : ℕ → FernetDraw} {account : Uuid}
    {token : MetaToken} {cs : List MetaConnection} (hw : s.accountTenant account ≠ some w)
    (h : upsertConnections env now account token ids ciphers cs s = .ok s') : s'.only w = s.only w := by
  induction cs generalizing s ids ciphers with
  | nil => cases h; rfl
  | cons c cs ih =>
    obtain ⟨t, ht, h⟩ := bind_eq_ok.1 h
    have hfirst := upsertConnection_other hw ht
    obtain ⟨connections, rfl, -⟩ := upsertConnection_saved ht
    have hw' : ({ s with connections } : Store).accountTenant account ≠ some w := hw
    exact (ih hw' h).trans hfirst

theorem persistMetaConnections_other (hs : Rooted s) {ids : ℕ → Uuid} {ciphers : ℕ → FernetDraw}
    {tenant brand : Uuid} {subject : String} {token : MetaToken} {identity : MetaIdentity}
    {account : SocialAccount} (hw : tenant ≠ w)
    (h : persistMetaConnections env now ids ciphers tenant brand subject token identity s =
      .ok (account, s')) : s'.only w = s.only w := by
  obtain ⟨⟨a, t⟩, ha, h⟩ := bind_eq_ok.1 h
  obtain ⟨u, hu, h⟩ := bind_eq_ok.1 h
  cases h
  have hfirst := upsertAccount_other hs hw ha
  obtain ⟨accounts, rfl, hsaved⟩ := upsertAccount_saved ha
  have haccount : ({ s with accounts } : Store).accountTenant account.id = some tenant := by
    rw [← hsaved.owner.1]
    exact Table.view_key hsaved.mem
  rw [only_log_other hw, upsertConnections_other (by rw [haccount]; simpa using hw) hu, hfirst]

theorem setPostState_other {p : Post} (hp : p ∈ s.posts) (hw : p.tenant ≠ w) {state : LifecycleState} :
    (s.setPostState now p.id state).only w = s.only w := by
  refine (only_posts fun v _ => congrFun (Table.view_update_same fun _ => rfl) _).trans ?_
  rw [show p.id = key p from rfl, Table.restrict_update_of_not hp (decide_eq_false hw) fun _ => rfl]
  rfl

theorem updateApproval_other {r : ApprovalRequest} (hr : r ∈ s.approvals)
    (hw : s.brandWorkspace r.brand ≠ some w) {f : Rewrite ApprovalRequest}
    (hf : ∀ r, (f r).brand = r.brand) : (s.updateApproval r.id f).only w = s.only w := by
  refine (only_approvals fun c _ => congrFun (Table.view_update_same hf) _).trans ?_
  rw [show r.id = key r from rfl,
    Table.restrict_update_of_not hr (decide_eq_false hw) fun r => by rw [hf]]
  rfl

theorem insertComment_other {row : ApprovalComment} {comments : Table ApprovalComment}
    (hins : s.comments.insert? row = some comments)
    (hw : s.requestWorkspace row.approvalRequest ≠ some w) :
    ({ s with comments } : Store).only w = s.only w := by
  unfold Store.only
  congr 1
  exact Table.restrict_insert_of_not hins (decide_eq_false hw)

/-- The post and the brand of another workspace's request. -/
theorem request_rows_other (hs : Coherent s) {request : ApprovalRequest} {post : Post} {brand : Brand}
    (hr : request ∈ s.approvals) (hw : s.brandWorkspace request.brand ≠ some w)
    (hpost : s.posts.get? request.post = some post) (hbrand : s.brands.get? request.brand = some brand) :
    brand.workspace ≠ w ∧ post ∈ s.posts ∧ post.tenant ≠ w ∧ s.requestWorkspace request.id ≠ some w := by
  obtain ⟨p, hp, hid, hpb⟩ := hs.approvals request hr
  obtain ⟨hmem, hpid⟩ := Table.get?_eq_some.1 hpost
  obtain rfl : p = post := Table.eq_of_key hp hmem (hid.trans hpid.symm)
  refine ⟨fun he => hw ?_, hp, fun he => hw ?_, ?_⟩
  · unfold Store.brandWorkspace Table.view
    rw [hbrand, ← he]
    rfl
  · rw [hpb, brand_workspace_of_post hs hp, he]
  · unfold Store.requestWorkspace
    rw [show s.approvals.view (·.brand) request.id = some request.brand from Table.view_key hr]
    exact hw

theorem decideApproval_other (hs : Coherent s) {x : World} {rawToken comment authorLabel : String}
    {decision : DecisionText} {r : Reply}
    (hw : ((findApproval env rawToken s).bind fun r => s.brandWorkspace r.brand) ≠ some w)
    (h : runCommand env x (.decideApproval rawToken decision comment authorLabel) s = .ok (r, s')) :
    s'.only w = s.only w := by
  have hcomments := runCommand_comments h
  have heffect := runCommand_effect h
  cases heffect with
  | @decided _ _ d _ _ _ request post brand comments found _ _ _ _ _ _ postRow _ brandRow =>
    rw [found] at hw
    have hmem := Table.mem_of_find? found
    obtain ⟨hbrand, hpost, htenant, howner⟩ := request_rows_other hs hmem hw postRow brandRow
    have hid : post.id = request.post := Table.key_of_get? postRow
    have honly : (((s.updateApproval request.id ⟨(·.decide x.now d), fun _ => rfl⟩).setPostState x.now
        post.id (if d = .approved then .approved else .draft)).only w) = s.only w := by
      rw [setPostState_other (s := s.updateApproval request.id ⟨(·.decide x.now d), fun _ => rfl⟩)
        hpost htenant, updateApproval_other hmem hw fun _ => rfl]
    rw [only_log_other hbrand, ← hid]
    rcases hcomments with hc | ⟨_, _, _, _, request', row, hcommand, hf, hrow, hins⟩
    · have hsame : comments = s.comments := hc
      rw [hsame]
      exact honly
    · cases hcommand
      obtain rfl : request = request' := Option.some.inj (found.symm.trans hf)
      rw [← honly]
      refine insertComment_other hins ?_
      rw [requestWorkspace_decided, hrow]
      exact howner

theorem setUploadState_other {a : MediaAsset} (ha : a ∈ s.assets) (hw : a.tenant ≠ w)
    {state : UploadState} : (s.setUploadState now a.id state).only w = s.only w := by
  unfold Store.only
  congr 1
  exact Table.restrict_update_of_not ha (decide_eq_false hw) fun _ => rfl

theorem drafted_other (hs : Rooted s) {post : Post} {posts : Table Post} {v : PostVariant}
    {variants : Table PostVariant} (hpost : s.posts.insert? post = some posts)
    (hvariant : s.variants.insert? v = some variants) (hof : v.post = post.id) (hw : post.tenant ≠ w) :
    ({ s with posts, variants } : Store).only w = s.only w := by
  have hview : posts.view (·.tenant) v.post ≠ some w := by
    rw [hof, show posts.view (·.tenant) post.id = some post.tenant from
      Table.view_key (Table.mem_self_insert? hpost)]
    exact fun he => hw (Option.some.inj he)
  have hposts := Table.restrict_insert_of_not hpost (p := fun p => p.tenant = w) (decide_eq_false hw)
  have hvariants := Table.restrict_insert_of_not hvariant
    (p := fun v => posts.view (·.tenant) v.post = some w) (decide_eq_false hview)
  have honly : ({ s with posts, variants } : Store).only w = { s.only w with
      posts := posts.restrict fun p => p.tenant = w
      variants := variants.restrict fun v => posts.view (·.tenant) v.post = some w } := rfl
  rw [honly, hposts, hvariants, ← hs.only_variants hpost]
  rfl

theorem insertApproval_other (hs : Rooted s) {request : ApprovalRequest}
    {approvals : Table ApprovalRequest} (hins : s.approvals.insert? request = some approvals)
    (hw : s.brandWorkspace request.brand ≠ some w) :
    ({ s with approvals } : Store).only w = s.only w := by
  rw [only_insertApproval hs hins, Table.restrict_insert_of_not hins (decide_eq_false hw)]
  rfl

/-- **A command of another workspace leaves the rows of a workspace as they are.** -/
theorem runCommand_other {x : World} {c : Command} {r : Reply} (hs : Rooted s) (hcoherent : Coherent s)
    (hconstrained : Constrained s) (hw : c.workspace env s ≠ some w)
    (h : runCommand env x c s = .ok (r, s')) : s'.only w = s.only w := by
  have heffect := runCommand_effect h
  have hne : ∀ {tenant : Uuid}, some tenant ≠ some w → tenant ≠ w := fun hw he => hw (congrArg some he)
  cases heffect with
  | alreadyConfirmed => rfl
  | draftReplayed => rfl
  | alreadyApproved => rfl
  | publicationReplayed => rfl
  | uploadIntended _ _ insert =>
    have hw := hne hw
    rw [only_log_other hw]
    unfold Store.only
    congr 1
    exact Table.restrict_insert_of_not insert (decide_eq_false hw)
  | confirmed mem id owner =>
    have hw := hne hw
    rw [only_log_other hw, ← id, setUploadState_other mem (owner ▸ hw)]
  | drafted _ insert _ insertVariant =>
    have hw := hne hw
    rw [only_log_other hw, drafted_other hs insert insertVariant rfl hw]
  | approved mem id owner =>
    have hw := hne hw
    rw [only_log_other hw, ← id, setPostState_other mem (owner.1 ▸ hw)]
  | @approvalRequested tenant brand post _ _ _ row approvals request mem id owner _ request_eq _ insert =>
    have hw := hne hw
    have hbrand : s.brandWorkspace request.brand ≠ some w := by
      have hrow := brand_workspace_of_post hcoherent mem
      rw [owner.2, owner.1] at hrow
      rw [request_eq, show (newApprovalRequest env x.now (x.ids 0) x.rawToken brand post _ _).brand = brand
        from rfl, hrow]
      exact fun he => hw (Option.some.inj he)
    have honly := insertApproval_other hs insert hbrand
    rw [only_log_other hw, ← honly, ← id]
    split
    · rfl
    · exact setPostState_other (s := { s with approvals }) mem (owner.1 ▸ hw)
  | decided => exact decideApproval_other hcoherent hw h
  | @revoked id tenant _ _ request mem request_id owner =>
    have hw := hne hw
    obtain ⟨b, hb, hworkspace⟩ := owner
    have hbrand : s.brandWorkspace request.brand ≠ some w := by
      unfold Store.brandWorkspace Table.view
      rw [hb, Option.map_some, hworkspace]
      exact fun he => hw (Option.some.inj he)
    rw [only_log_other hw, ← request_id, updateApproval_other mem hbrand fun _ => rfl]
  | scheduled _ _ insert =>
    have hw := hne hw
    rw [only_log_other hw]
    refine (only_publications fun a ha => view_insert?_of_mem insert (hs.attempts a ha)).trans ?_
    rw [Table.restrict_insert_of_not insert (decide_eq_false hw)]
    rfl
  | oauthStarted insert =>
    unfold Store.only
    congr 1
    exact Table.restrict_insert_of_not insert (decide_eq_false (hne hw))
  | @oauthConsumed rawState _ row mem digest =>
    have hfound : s.oauthStates.find? (fun o => o.stateDigest = env.sha256 rawState) = some row :=
      hconstrained.oauthStates.find? (fun o => by rw [decide_eq_true_eq, digest]) mem
    have hw : ((s.oauthStates.find? fun o => o.stateDigest = env.sha256 rawState).map (·.tenant)) ≠
      some w := hw
    rw [hfound] at hw
    unfold Store.only
    congr 1
    exact Table.restrict_update_of_not mem (decide_eq_false (hne hw)) fun _ => rfl
  | connected =>
    obtain ⟨account, hcall, -⟩ := reply_eq_ok.1 h
    exact persistMetaConnections_other hs (hne hw) hcall

end Others

/-! ### Workers -/

section Workers

variable {env : Env} {now : Time}

theorem publicationTenant_key {q : Publication} (hq : q ∈ s.publications) :
    s.publicationTenant q.id = some q.tenant := Table.view_key hq

theorem only_updatePublication {id : Uuid} {f : Rewrite Publication} (hf : ∀ q, (f q).tenant = q.tenant) :
    (s.updatePublication id f).only w = (s.only w).updatePublication id f := by
  refine (only_publications fun a _ => congrFun (Table.view_update_same hf) _).trans ?_
  rw [Table.restrict_update fun q => by rw [hf]]
  rfl

theorem only_updateAttempt {id : Uuid} {f : Rewrite PublicationAttempt}
    (hf : ∀ a, (f a).publication = a.publication) :
    (s.updateAttempt id f).only w = (s.only w).updateAttempt id f := by
  change { s.only w with
    attempts := (s.attempts.update id f).restrict fun a => s.publicationTenant a.publication = some w } = _
  rw [Table.restrict_update fun a => by rw [hf]]
  rfl

theorem attemptsOf_only {q : Uuid} (hq : s.publicationTenant q = some w) :
    attemptsOf (s.only w) q = attemptsOf s q :=
  Table.where_restrict_of fun a _ ha => by
    rw [of_decide_eq_true ha, hq]
    exact decide_eq_true rfl

theorem createAttemptRow_only {attempt : PublicationAttempt}
    (hq : s.publicationTenant attempt.publication = some w) :
    Agrees (Clash (s.attempts.Outside (fun a => s.publicationTenant a.publication = some w) attempt.id))
      (·.restrict fun a => s.publicationTenant a.publication = some w) (createAttemptRow s attempt)
      (createAttemptRow (s.only w) attempt) := by
  unfold createAttemptRow
  have hfind : ((s.only w).attempts.find? fun a => a.publication = attempt.publication &&
      a.attemptNumber = attempt.attemptNumber) = s.attempts.find? fun a =>
        a.publication = attempt.publication && a.attemptNumber = attempt.attemptNumber :=
    Table.find?_restrict_of fun a _ ha => by
      rw [of_decide_eq_true (Bool.and_eq_true_iff.1 ha).1, hq]
      exact decide_eq_true rfl
  rw [hfind]
  exact Agrees.ite (fun _ => .error _) fun _ => create_only (decide_eq_true hq)

/-- The variant and the connection of a publication are its workspace's. -/
theorem publication_rows (hs : Coherent s) {q : Publication} (hq : q ∈ s.publications) (hw : q.tenant = w) :
    (s.only w).variants.get? q.postVariant = s.variants.get? q.postVariant ∧
      (s.only w).connections.get? q.channelConnection = s.connections.get? q.channelConnection ∧
      ∀ v ∈ s.variants, v.id = q.postVariant → s.postTenant v.post = some w := by
  obtain ⟨v, p, c, a, h⟩ := hs.deliveries q hq
  obtain ⟨hv, hvid⟩ := h.variant
  obtain ⟨hp, hpid⟩ := h.post
  obtain ⟨hc, hcid⟩ := h.connection
  obtain ⟨ha, haid⟩ := h.account
  have hpt : s.postTenant v.post = some w := by
    rw [← hpid, ← hw, ← h.postOwner.1]
    exact Table.view_key hp
  have hat : s.accountTenant c.socialAccount = some w := by
    rw [← haid, ← hw, ← h.accountOwner.1]
    exact Table.view_key ha
  refine ⟨?_, ?_, fun v' hv' hid => ?_⟩
  · rw [← hvid]
    exact get?_restrict_of_mem hv (decide_eq_true hpt)
  · rw [← hcid]
    exact get?_restrict_of_mem hc (decide_eq_true hat)
  · rwa [Table.eq_of_key hv' hv (hid.trans hvid.symm)]

theorem claimPublication_only (hs : Coherent s) {started : Time} {attemptId publicationId : Uuid}
    (hw : s.publicationTenant publicationId = some w) :
    SeenBy w (s.attempts.Outside (fun a => s.publicationTenant a.publication = some w) attemptId)
      (claimPublication started now attemptId publicationId s)
      (claimPublication started now attemptId publicationId (s.only w)) := by
  have htenant : ∀ q ∈ s.publications, q.id = publicationId → q.tenant = w := by
    intro q hq hid
    have hview := publicationTenant_key hq
    rw [hid, hw] at hview
    exact (Option.some.inj hview).symm
  have hfind : ((s.only w).publications.find? fun p => p.id = publicationId && p.due started) =
      s.publications.find? fun p => p.id = publicationId && p.due started :=
    Table.find?_restrict_of fun q hq hp =>
      decide_eq_true (htenant q hq (of_decide_eq_true (Bool.and_eq_true_iff.1 hp).1))
  unfold claimPublication
  rw [hfind]
  cases hf : s.publications.find? fun p => p.id = publicationId && p.due started with
  | none => exact SeenBy.returned rfl
  | some q =>
    have hq := Table.mem_of_find? hf
    obtain ⟨hid, -⟩ : q.id = publicationId ∧ q.due started = true := by
      simpa using Table.find?_some hf
    obtain ⟨hvariant, hconnection, -⟩ := publication_rows hs hq (htenant q hq hid)
    dsimp only
    rw [hvariant, hconnection, hid, attemptsOf_only hw]
    cases s.variants.get? q.postVariant with
    | none => exact SeenBy.returned rfl
    | some v =>
      cases s.connections.get? q.channelConnection with
      | none => exact SeenBy.returned rfl
      | some c =>
        refine Agrees.bind (createAttemptRow_only hw) fun attempts _ => SeenBy.returned ?_
        exact only_updatePublication fun _ => rfl

theorem Claimed.other {started : Time} {attemptId : Uuid} {claim : Claim}
    (h : Claimed started now attemptId claim s s') (hw : claim.publication.tenant ≠ w) :
    s'.only w = s.only w := by
  cases h with
  | @claimed _ q _ _ attempt attempts mem _ _ _ attempt_eq insert =>
    have hq : s.publicationTenant attempt.publication ≠ some w := by
      rw [attempt_eq, show (newAttempt started now attemptId q.id _).publication = q.id from rfl,
        publicationTenant_key mem]
      exact fun he => hw (Option.some.inj he)
    rw [only_updatePublication fun _ => rfl]
    have hattempts : ({ s with attempts } : Store).only w = s.only w := by
      unfold Store.only
      congr 1
      exact Table.restrict_insert_of_not insert (decide_eq_false hq)
    rw [hattempts]
    unfold Store.updatePublication
    congr 1
    refine Table.update_of_forall_ne fun r hr hk => hw ?_
    obtain ⟨hr, htenant⟩ := Table.mem_restrict.1 hr
    obtain rfl : r = q := Table.eq_of_key hr mem hk
    exact of_decide_eq_true htenant

/-- The rows of a claim of the workspace. -/
theorem held_rows {claim : Claim} (h : Held s claim) (hw : claim.publication.tenant = w) :
    (s.only w).publications.get? claim.publication.id = s.publications.get? claim.publication.id ∧
      (s.only w).attempts.get? claim.attempt.id = s.attempts.get? claim.attempt.id := by
  obtain ⟨hattempt, hof⟩ := h.mem_attempts
  refine ⟨get?_restrict_of_mem h.publication (decide_eq_true hw), get?_restrict_of_mem hattempt ?_⟩
  rw [hof, publicationTenant_key h.publication, hw]
  exact decide_eq_true rfl

theorem finish_only {claim : Claim} {result : Except DeliveryError String} (h : Held s claim)
    (hw : claim.publication.tenant = w) :
    SeenBy w False (finish env now claim result s) (finish env now claim result (s.only w)) := by
  obtain ⟨hpublication, hattempt⟩ := held_rows h hw
  have hp : s.publications.get? claim.publication.id = some claim.publication :=
    Table.get?_key h.publication
  have ha : s.attempts.get? claim.attempt.id = some claim.attempt := Table.get?_key h.mem_attempts.1
  have hfailure : ∀ error transient, SeenBy w False (finishFailure env now claim error transient s)
      (finishFailure env now claim error transient (s.only w)) := by
    intro error transient
    unfold finishFailure
    rw [hpublication, hattempt, hp, ha]
    refine Agrees.ite (fun _ => .error _) fun _ => SeenBy.logged hw ?_
    rw [only_updatePublication fun _ => rfl, only_updateAttempt fun _ => rfl]
  unfold finish
  split
  · unfold finishPublished
    rw [hpublication, hattempt, hp, ha]
    refine Agrees.ite (fun _ => .error _) fun _ => SeenBy.logged hw ?_
    rw [only_updatePublication fun _ => rfl, only_updateAttempt fun _ => rfl]
  · exact .error _
  · exact hfailure _ _
  · exact hfailure _ _

theorem Finished.other {claim : Claim} {result : Except DeliveryError String} {answer : String}
    (h : Finished env now claim result answer s s') (hheld : Held s claim)
    (hw : claim.publication.tenant ≠ w) : s'.only w = s.only w := by
  have hp : s.publications.get? claim.publication.id = some claim.publication :=
    Table.get?_key hheld.publication
  obtain ⟨hattempt, hof⟩ := hheld.mem_attempts
  have hupdates : ∀ (f : Rewrite PublicationAttempt) (g : Rewrite Publication),
      (∀ a, (f a).publication = a.publication) → (∀ q, (g q).tenant = q.tenant) →
      ((s.updateAttempt claim.attempt.id f).updatePublication claim.publication.id g).only w =
        s.only w := by
    intro f g hf hg
    rw [only_updatePublication hg, only_updateAttempt hf]
    have hattempts : (s.only w).attempts.update claim.attempt.id f = (s.only w).attempts := by
      refine Table.update_of_forall_ne fun a ha hk => hw ?_
      obtain ⟨ha, hpred⟩ := Table.mem_restrict.1 ha
      rw [Table.eq_of_key ha hattempt hk, hof, publicationTenant_key hheld.publication] at hpred
      exact Option.some.inj (of_decide_eq_true hpred)
    have hpublications : (s.only w).publications.update claim.publication.id g =
        (s.only w).publications := by
      refine Table.update_of_forall_ne fun q hq hk => hw ?_
      obtain ⟨hq, hpred⟩ := Table.mem_restrict.1 hq
      rw [Table.eq_of_key hq hheld.publication hk] at hpred
      exact of_decide_eq_true hpred
    unfold Store.updatePublication Store.updateAttempt
    rw [hattempts, hpublications]
  cases h with
  | published publicationRow =>
    obtain rfl := Option.some.inj (hp.symm.trans publicationRow)
    rw [only_log_other hw, hupdates _ _ (fun _ => rfl) fun _ => rfl]
  | failed publicationRow =>
    obtain rfl := Option.some.inj (hp.symm.trans publicationRow)
    rw [only_log_other hw, hupdates _ _ (fun _ => rfl) fun _ => rfl]

end Workers

end Relay
