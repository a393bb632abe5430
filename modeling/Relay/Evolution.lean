import Relay.Steps

/-!
# How the store evolves

`StoreStep A s s'` is one commit of the system, where `A` says which commands callers submit.
Whatever is committed, rows live on with their immutable columns, and what is decided stays
decided:

* `Evolves`: the preorder between a store and any later one, `StoreStep.evolves`;
* `StoreStep.post_origin` and its companions: a row of the later store is an old one, or it is
  as its command made it;
* `SysStep.store`, `Trail.evolves`: a step of the system commits at most once, so the store
  evolves along every run.
-/

namespace Relay

open Relational Sequence Transition

/-- One commit. -/
inductive StoreStep (env : Env) (A : Store → Command → Prop) : Store → Store → Prop
  | command {w : World} {c : Command} {r : Reply} {s s' : Store} (admitted : A s c)
      (effect : Effect env w c r s s') : StoreStep env A s s'
  | claimed {started now : Time} {attemptId : Uuid} {claim : Claim} {s s' : Store}
      (claimed : Claimed started now attemptId claim s s') : StoreStep env A s s'
  | finished {now : Time} {claim : Claim} {result : Except DeliveryError String} {answer : String}
      {s s' : Store} (finished : Finished env now claim result answer s s') : StoreStep env A s s'

/-! ### Rows live on -/

/-- An OAuth state changes by its use only, once. -/
def OAuthState.Becomes (o o' : OAuthState) : Prop :=
  ∃ usedAt updatedAt, o' = { o with usedAt, updatedAt } ∧ (o.usedAt ≠ none → usedAt = o.usedAt)

/-- A publication keeps its owner, content, channel and key. -/
def Publication.Becomes (p p' : Publication) : Prop :=
  ∃ scheduledFor state providerPublicationId lastErrorCode lastErrorMessage updatedAt,
    p' = { p with
      scheduledFor, state, providerPublicationId, lastErrorCode, lastErrorMessage, updatedAt }

/-- An attempt keeps its publication, number and start. -/
def PublicationAttempt.Becomes (a a' : PublicationAttempt) : Prop :=
  ∃ completedAt outcome errorCode errorMessage updatedAt,
    a' = { a with completedAt, outcome, errorCode, errorMessage, updatedAt }

/-- A request keeps its post, token and expiry; a decision or a revocation is final. -/
def ApprovalRequest.Becomes (r r' : ApprovalRequest) : Prop :=
  ∃ revokedAt decidedAt decision updatedAt,
    r' = { r with revokedAt, decidedAt, decision, updatedAt } ∧
      (r.decision ≠ .pending ∨ r.revokedAt ≠ none →
        revokedAt = r.revokedAt ∧ decidedAt = r.decidedAt ∧ decision = r.decision)

theorem OAuthState.Becomes.refl (o : OAuthState) : o.Becomes o := ⟨o.usedAt, o.updatedAt, rfl, fun _ => rfl⟩

theorem OAuthState.Becomes.trans {a b c : OAuthState} (h : a.Becomes b) (k : b.Becomes c) :
    a.Becomes c := by
  obtain ⟨u, _, rfl, h⟩ := h
  obtain ⟨v, _, rfl, k⟩ := k
  refine ⟨_, _, rfl, fun ha => ?_⟩
  have hu := h ha
  rw [k (by simpa [hu] using ha)]
  exact hu

theorem Publication.Becomes.refl (p : Publication) : p.Becomes p :=
  ⟨_, _, _, _, _, _, rfl⟩

theorem Publication.Becomes.trans {p q r : Publication} (h : p.Becomes q) (k : q.Becomes r) :
    p.Becomes r := by
  obtain ⟨_, _, _, _, _, _, rfl⟩ := h
  obtain ⟨_, _, _, _, _, _, rfl⟩ := k
  exact ⟨_, _, _, _, _, _, rfl⟩

theorem PublicationAttempt.Becomes.refl (a : PublicationAttempt) : a.Becomes a :=
  ⟨_, _, _, _, _, rfl⟩

theorem PublicationAttempt.Becomes.trans {a b c : PublicationAttempt} (h : a.Becomes b)
    (k : b.Becomes c) : a.Becomes c := by
  obtain ⟨_, _, _, _, _, rfl⟩ := h
  obtain ⟨_, _, _, _, _, rfl⟩ := k
  exact ⟨_, _, _, _, _, rfl⟩

theorem ApprovalRequest.Becomes.refl (r : ApprovalRequest) : r.Becomes r :=
  ⟨_, _, _, _, rfl, fun _ => ⟨rfl, rfl, rfl⟩⟩

theorem ApprovalRequest.Becomes.trans {a b c : ApprovalRequest} (h : a.Becomes b)
    (k : b.Becomes c) : a.Becomes c := by
  obtain ⟨_, _, _, _, rfl, h⟩ := h
  obtain ⟨_, _, _, _, rfl, k⟩ := k
  refine ⟨_, _, _, _, rfl, fun ha => ?_⟩
  obtain ⟨rfl, rfl, rfl⟩ := h ha
  exact k ha

/-- What any later store keeps of a store. -/
structure Evolves (s s' : Store) : Prop where
  tenants : s'.tenants = s.tenants
  brands : s'.brands = s.brands
  memberships : s'.memberships = s.memberships
  posts : s.posts.Grows Post.Becomes s'.posts
  variants : s.variants.Grows Eq s'.variants
  assets : s.assets.Grows MediaAsset.Becomes s'.assets
  accounts : s.accounts.Grows SocialAccount.Becomes s'.accounts
  connections : s.connections.Grows ChannelConnection.Becomes s'.connections
  oauthStates : s.oauthStates.Grows OAuthState.Becomes s'.oauthStates
  publications : s.publications.Grows Publication.Becomes s'.publications
  attempts : s.attempts.Grows PublicationAttempt.Becomes s'.attempts
  approvals : s.approvals.Grows ApprovalRequest.Becomes s'.approvals
  audit : s.audit <+: s'.audit

theorem Evolves.refl (s : Store) : Evolves s s where
  tenants := rfl
  brands := rfl
  memberships := rfl
  posts := .refl Post.Becomes.refl _
  variants := .refl (fun _ => rfl) _
  assets := .refl MediaAsset.Becomes.refl _
  accounts := .refl SocialAccount.Becomes.refl _
  connections := .refl ChannelConnection.Becomes.refl _
  oauthStates := .refl OAuthState.Becomes.refl _
  publications := .refl Publication.Becomes.refl _
  attempts := .refl PublicationAttempt.Becomes.refl _
  approvals := .refl ApprovalRequest.Becomes.refl _
  audit := List.prefix_rfl

theorem Evolves.trans {s t u : Store} (h : Evolves s t) (k : Evolves t u) : Evolves s u where
  tenants := k.tenants.trans h.tenants
  brands := k.brands.trans h.brands
  memberships := k.memberships.trans h.memberships
  posts := h.posts.trans Post.Becomes.trans k.posts
  variants := h.variants.trans Eq.trans k.variants
  assets := h.assets.trans MediaAsset.Becomes.trans k.assets
  accounts := h.accounts.trans SocialAccount.Becomes.trans k.accounts
  connections := h.connections.trans ChannelConnection.Becomes.trans k.connections
  oauthStates := h.oauthStates.trans OAuthState.Becomes.trans k.oauthStates
  publications := h.publications.trans Publication.Becomes.trans k.publications
  attempts := h.attempts.trans PublicationAttempt.Becomes.trans k.attempts
  approvals := h.approvals.trans ApprovalRequest.Becomes.trans k.approvals
  audit := h.audit.trans k.audit

theorem Evolves.log (s : Store) (entry : AuditLog) : Evolves s (s.log entry) :=
  { Evolves.refl s with audit := List.prefix_append _ _ }

/-- The state of a post is set to one that keeps it approved. -/
theorem Evolves.setPostState {s : Store} {now : Time} {post : Uuid} {state : LifecycleState}
    (h : ∀ p ∈ s.posts, p.id = post → p.state = .approved → state = .approved) :
    Evolves s (s.setPostState now post state) :=
  { Evolves.refl s with
    posts := .update Post.Becomes.refl fun p hp hid => ⟨_, _, rfl, h p hp hid⟩ }

theorem Evolves.updateApproval {s : Store} {id : Uuid} {f : Rewrite ApprovalRequest}
    (h : ∀ r ∈ s.approvals, r.id = id → r.Becomes (f r)) : Evolves s (s.updateApproval id f) :=
  { Evolves.refl s with approvals := .update ApprovalRequest.Becomes.refl h }

theorem Evolves.updatePublication {s : Store} {id : Uuid} {f : Rewrite Publication}
    (h : ∀ p : Publication, p.Becomes (f p)) : Evolves s (s.updatePublication id f) :=
  { Evolves.refl s with publications := .update Publication.Becomes.refl fun p _ _ => h p }

theorem Evolves.updateAttempt {s : Store} {id : Uuid} {f : Rewrite PublicationAttempt}
    (h : ∀ a : PublicationAttempt, a.Becomes (f a)) : Evolves s (s.updateAttempt id f) :=
  { Evolves.refl s with attempts := .update PublicationAttempt.Becomes.refl fun a _ _ => h a }

/-- A row with the key of a member is that member. -/
theorem Post.eq_of_id {s : Store} {p q : Post} (hp : p ∈ s.posts) (hq : q ∈ s.posts)
    (h : p.id = q.id) : p = q := Table.eq_of_key hp hq h

/-- The effect of a command keeps what any later store keeps. -/
theorem Effect.evolves {env : Env} {w : World} {c : Command} {r : Reply} {s s' : Store}
    (h : Effect env w c r s s') : Evolves s s' := by
  cases h with
  | uploadIntended _ _ insert =>
    refine .trans ?_ (.log _ _)
    exact { Evolves.refl s with assets := .insert MediaAsset.Becomes.refl insert }
  | alreadyConfirmed => exact .refl s
  | confirmed =>
    refine .trans ?_ (.log _ _)
    exact
      { Evolves.refl s with
        assets := .update MediaAsset.Becomes.refl fun a _ _ => ⟨_, _, rfl, fun _ => rfl⟩ }
  | draftReplayed => exact .refl s
  | drafted _ insert _ insertVariant =>
    refine .trans ?_ (.log _ _)
    exact
      { Evolves.refl s with
        posts := .insert Post.Becomes.refl insert
        variants := .insert (fun _ => rfl) insertVariant }
  | alreadyApproved => exact .refl s
  | approved => exact .trans (.setPostState fun _ _ _ _ => rfl) (.log _ _)
  | @approvalRequested _ _ _ _ _ _ row approvals _ mem id _ state _ _ insert =>
    refine .trans ?_ (.log _ _)
    have hpending : Evolves s (s.setPostState w.now row.id .pendingApproval) := by
      refine .setPostState fun p hp hid happroved => ?_
      rw [Post.eq_of_id hp mem hid] at happroved
      rcases state with h | h <;> simp [h] at happroved
    refine
      { Evolves.refl s with
        approvals := .insert ApprovalRequest.Becomes.refl insert
        posts := ?_ }
    dsimp only
    split
    · exact (Evolves.refl s).posts
    · exact id ▸ hpending.posts
  | @decided _ _ d _ _ _ request post brand comments found open' _ pending _ _ _ postRow state _ =>
    have hrequest : request ∈ s.approvals := Table.mem_of_find? found
    have hdecided : Evolves s (s.updateApproval request.id ⟨(·.decide w.now d), fun _ => rfl⟩) := by
      refine .updateApproval fun a ha hid => ?_
      have ha' : a = request := Table.eq_of_key ha hrequest hid
      subst ha'
      exact ⟨_, _, _, _, rfl, fun hfinal => by simp [pending, open'] at hfinal⟩
    refine .trans (hdecided.trans ?_) (.log _ _)
    have hstate : Evolves (s.updateApproval request.id ⟨(·.decide w.now d), fun _ => rfl⟩)
        ((s.updateApproval request.id ⟨(·.decide w.now d), fun _ => rfl⟩).setPostState w.now request.post
          (if d = ApprovalDecision.approved then .approved else .draft)) := by
      refine .setPostState fun p hp hid happroved => ?_
      obtain ⟨hpost, hkey⟩ := Table.get?_eq_some.1 postRow
      have hp' : p = post := Post.eq_of_id hp hpost (hid.trans hkey.symm)
      rw [hp', state] at happroved
      cases happroved
    exact { hstate with }
  | @revoked _ _ _ _ request mem request_id _ open' pending =>
    refine .trans (.updateApproval fun a ha hid => ?_) (.log _ _)
    have ha' : a = request := Table.eq_of_key ha mem (hid.trans request_id.symm)
    subst ha'
    exact ⟨_, _, _, _, rfl, fun hfinal => by simp [pending, open'] at hfinal⟩
  | publicationReplayed => exact .refl s
  | scheduled _ _ insert =>
    refine .trans ?_ (.log _ _)
    exact { Evolves.refl s with publications := .insert Publication.Becomes.refl insert }
  | oauthStarted insert =>
    exact { Evolves.refl s with oauthStates := .insert OAuthState.Becomes.refl insert }
  | @oauthConsumed _ _ row mem _ unused _ =>
    refine
      { Evolves.refl s with
        oauthStates := .update OAuthState.Becomes.refl fun o ho hid => ⟨_, _, rfl, fun hused => ?_⟩ }
    rw [Table.eq_of_key ho mem hid] at hused
    exact absurd unused hused
  | connected accountSaved connectionsSaved =>
    refine .trans ?_ (.log _ _)
    exact
      { Evolves.refl s with
        accounts := accountSaved.grows
        connections := connectionsSaved.grows }

theorem StoreStep.evolves {env : Env} {A : Store → Command → Prop} {s s' : Store}
    (h : StoreStep env A s s') : Evolves s s' := by
  cases h with
  | command _ effect => exact effect.evolves
  | claimed claimed =>
    obtain ⟨-, -, -, -, rfl, insert⟩ := claimed
    refine .trans ?_ (.updatePublication fun p => ⟨_, _, _, _, _, _, rfl⟩)
    exact { Evolves.refl s with attempts := .insert PublicationAttempt.Becomes.refl insert }
  | finished finished =>
    cases finished with
    | published =>
      exact .trans (.trans (.updateAttempt fun a => ⟨_, _, _, _, _, rfl⟩)
        (.updatePublication fun p => ⟨_, _, _, _, _, _, rfl⟩)) (.log _ _)
    | failed =>
      exact .trans (.trans (.updateAttempt fun a => ⟨_, _, _, _, _, rfl⟩)
        (.updatePublication fun p => ⟨_, _, _, _, _, _, rfl⟩)) (.log _ _)

/-! ### Where rows come from -/

section Origins

variable {env : Env} {A : Store → Command → Prop} {s s' : Store}

/-- A commit leaves the variants alone, or adds the variant of a post that is drafted. -/
theorem StoreStep.variants (h : StoreStep env A s s') :
    (s'.variants = s.variants ∧ ∀ p' ∈ s'.posts, ∃ p ∈ s.posts, p.Becomes p') ∨
      ∃ now postId id tenant brand subject key payload media,
        A s (.createPostDraft tenant brand subject key payload) ∧
        DraftImages tenant brand payload.mediaAssetIds s media ∧
        s.posts.insert? (newPost env now postId tenant brand subject key payload) = some s'.posts ∧
        s.variants.insert? (newVariant now id
          (newPost env now postId tenant brand subject key payload) media) = some s'.variants := by
  have hold : ∀ p' ∈ s'.posts, (∃ p ∈ s.posts, p.id = p'.id) → ∃ p ∈ s.posts, p.Becomes p' :=
    fun p' hp' ⟨p, hp, hid⟩ => ⟨p, hp,
      h.evolves.posts.related (fun hR => by obtain ⟨_, _, rfl, -⟩ := hR; rfl) hp hp' hid⟩
  have hset : ∀ {now post state}, ∀ p' ∈ (s.setPostState now post state).posts,
      ∃ p ∈ s.posts, p.id = p'.id := fun p' hp' => Table.exists_key_of_mem_update hp'
  cases h with
  | command admitted effect =>
    cases effect with
    | drafted _ insert images insertVariant =>
      exact .inr ⟨_, _, _, _, _, _, _, _, _, admitted, images, insert, insertVariant⟩
    | approved => exact .inl ⟨rfl, fun p' hp' => hold p' hp' (hset p' hp')⟩
    | approvalRequested =>
      refine .inl ⟨rfl, fun p' hp' => hold p' hp' ?_⟩
      change p' ∈ ite _ _ _ at hp'
      split at hp'
      · exact ⟨p', hp', rfl⟩
      · exact hset p' hp'
    | decided => exact .inl ⟨rfl, fun p' hp' => hold p' hp' (hset p' hp')⟩
    | _ => exact .inl ⟨rfl, fun p' hp' => ⟨p', hp', .refl p'⟩⟩
  | claimed claimed =>
    cases claimed
    exact .inl ⟨rfl, fun p' hp' => ⟨p', hp', .refl p'⟩⟩
  | finished finished =>
    cases finished <;> exact .inl ⟨rfl, fun p' hp' => ⟨p', hp', .refl p'⟩⟩

theorem StoreStep.post_origin (h : StoreStep env A s s') {p' : Post} (hp' : p' ∈ s'.posts) :
    (∃ p ∈ s.posts, p.Becomes p') ∨ ∃ now id tenant brand subject key payload,
      A s (.createPostDraft tenant brand subject key payload) ∧
        p' = newPost env now id tenant brand subject key payload := by
  rcases h.variants with ⟨-, hposts⟩ | ⟨_, _, _, _, _, _, _, _, _, hadmitted, -, hinsert, -⟩
  · exact .inl (hposts p' hp')
  · rcases (Table.mem_insert? hinsert).1 hp' with hp' | rfl
    · exact .inl ⟨p', hp', .refl p'⟩
    · exact .inr ⟨_, _, _, _, _, _, _, hadmitted, rfl⟩

theorem StoreStep.variant_origin (h : StoreStep env A s s') {v : PostVariant} (hv : v ∈ s'.variants) :
    v ∈ s.variants ∨ ∃ now postId id tenant brand subject key payload media,
      A s (.createPostDraft tenant brand subject key payload) ∧
        DraftImages tenant brand payload.mediaAssetIds s media ∧
        newPost env now postId tenant brand subject key payload ∈ s'.posts ∧
        v = newVariant now id (newPost env now postId tenant brand subject key payload) media := by
  rcases h.variants with
    ⟨hsame, -⟩ | ⟨_, _, _, _, _, _, _, _, _, hadmitted, himages, hinsert, hinsert'⟩
  · exact .inl (hsame ▸ hv)
  · rcases (Table.mem_insert? hinsert').1 hv with hv | rfl
    · exact .inl hv
    · exact .inr ⟨_, _, _, _, _, _, _, _, _, hadmitted, himages, Table.mem_self_insert? hinsert, rfl⟩

theorem StoreStep.asset_origin (h : StoreStep env A s s') {a' : MediaAsset} (ha' : a' ∈ s'.assets) :
    (∃ a ∈ s.assets, a.Becomes a') ∨ ∃ now id tenant brand subject upload,
      A s (.createMediaUploadIntent tenant brand subject upload) ∧
        a' = newMediaAsset env now id tenant brand upload := by
  have hold : ∀ a ∈ s.assets, a.id = a'.id → ∃ a ∈ s.assets, a.Becomes a' := fun a ha hid =>
    ⟨a, ha, h.evolves.assets.related (fun hR => by obtain ⟨_, _, rfl, -⟩ := hR; rfl) ha ha' hid⟩
  cases h with
  | command admitted effect =>
    cases effect with
    | uploadIntended _ _ insert =>
      rcases (Table.mem_insert? insert).1 ha' with ha' | rfl
      · exact .inl (hold a' ha' rfl)
      · exact .inr ⟨_, _, _, _, _, _, admitted, rfl⟩
    | confirmed =>
      obtain ⟨a, ha, hid⟩ := Table.exists_key_of_mem_update ha'
      exact .inl (hold a ha hid)
    | _ => exact .inl (hold a' ha' rfl)
  | claimed claimed => cases claimed; exact .inl (hold a' ha' rfl)
  | finished finished => cases finished <;> exact .inl (hold a' ha' rfl)

theorem StoreStep.account_origin (h : StoreStep env A s s') {a' : SocialAccount}
    (ha' : a' ∈ s'.accounts) :
    (∃ a ∈ s.accounts, a.Becomes a') ∨ ∃ tenant brand subject token identity,
      A s (.persistMetaConnections tenant brand subject token identity) ∧
        a'.tenant = tenant ∧ a'.brand = brand := by
  have hold : a' ∈ s.accounts → ∃ a ∈ s.accounts, a.Becomes a' := fun h => ⟨a', h, .refl a'⟩
  cases h with
  | command admitted effect =>
    cases effect with
    | connected accountSaved =>
      rcases accountSaved.origin a' ha' with h | rfl
      · exact .inl h
      · exact .inr ⟨_, _, _, _, _, admitted, accountSaved.owner⟩
    | _ => exact .inl (hold ha')
  | claimed claimed => cases claimed; exact .inl (hold ha')
  | finished finished => cases finished <;> exact .inl (hold ha')

theorem StoreStep.connection_origin (h : StoreStep env A s s') {c' : ChannelConnection}
    (hc' : c' ∈ s'.connections) :
    (∃ c ∈ s.connections, c.Becomes c') ∨ ∃ a ∈ s'.accounts, c'.socialAccount = a.id := by
  have hold : c' ∈ s.connections → ∃ c ∈ s.connections, c.Becomes c' := fun h => ⟨c', h, .refl c'⟩
  cases h with
  | command admitted effect =>
    cases effect with
    | connected accountSaved connectionsSaved =>
      rcases connectionsSaved.origin c' hc' with h | h
      · exact .inl h
      · exact .inr ⟨_, accountSaved.mem, h⟩
    | _ => exact .inl (hold hc')
  | claimed claimed => cases claimed; exact .inl (hold hc')
  | finished finished => cases finished <;> exact .inl (hold hc')

theorem StoreStep.oauthState_origin (h : StoreStep env A s s') {o' : OAuthState}
    (ho' : o' ∈ s'.oauthStates) :
    (∃ o ∈ s.oauthStates, o.Becomes o') ∨ ∃ now id rawState tenant brand subject,
      A s (.startMetaOAuth tenant brand subject) ∧
        o' = newOAuthState env now id rawState tenant brand subject := by
  have hold : ∀ o ∈ s.oauthStates, o.id = o'.id → ∃ o ∈ s.oauthStates, o.Becomes o' :=
    fun o ho hid => ⟨o, ho,
      h.evolves.oauthStates.related (fun hR => by obtain ⟨_, _, rfl, -⟩ := hR; rfl) ho ho' hid⟩
  cases h with
  | command admitted effect =>
    cases effect with
    | oauthStarted insert =>
      rcases (Table.mem_insert? insert).1 ho' with ho' | rfl
      · exact .inl (hold o' ho' rfl)
      · exact .inr ⟨_, _, _, _, _, _, admitted, rfl⟩
    | oauthConsumed =>
      obtain ⟨o, ho, hid⟩ := Table.exists_key_of_mem_update ho'
      exact .inl (hold o ho hid)
    | _ => exact .inl (hold o' ho' rfl)
  | claimed claimed => cases claimed; exact .inl (hold o' ho' rfl)
  | finished finished => cases finished <;> exact .inl (hold o' ho' rfl)

theorem StoreStep.publication_origin (h : StoreStep env A s s') {p' : Publication}
    (hp' : p' ∈ s'.publications) :
    (∃ p ∈ s.publications, p.Becomes p') ∨ ∃ now id call,
      A s (.schedulePublication call) ∧ checkSchedule call s = .ok () ∧
        p' = newPublication env now id call := by
  have hold : ∀ p ∈ s.publications, p.id = p'.id → ∃ p ∈ s.publications, p.Becomes p' :=
    fun p hp hid => ⟨p, hp, h.evolves.publications.related
      (fun hR => by obtain ⟨_, _, _, _, _, _, rfl⟩ := hR; rfl) hp hp' hid⟩
  have hset : ∀ {id f}, p' ∈ s.publications.update id f → ∃ p ∈ s.publications, p.Becomes p' := by
    intro id f hmem
    obtain ⟨p, hp, hid⟩ := Table.exists_key_of_mem_update hmem
    exact hold p hp hid
  cases h with
  | command admitted effect =>
    cases effect with
    | scheduled _ checked insert =>
      rcases (Table.mem_insert? insert).1 hp' with hp' | rfl
      · exact .inl (hold p' hp' rfl)
      · exact .inr ⟨_, _, _, admitted, checked, rfl⟩
    | _ => exact .inl (hold p' hp' rfl)
  | claimed claimed => cases claimed; exact .inl (hset hp')
  | finished finished => cases finished <;> exact .inl (hset hp')

theorem StoreStep.approval_origin (h : StoreStep env A s s') {r' : ApprovalRequest}
    (hr' : r' ∈ s'.approvals) :
    (∃ r ∈ s.approvals, r.Becomes r') ∨ ∃ now id rawToken tenant brand post subject days p,
      A s (.requestApproval tenant brand post subject days) ∧
        p ∈ s.posts ∧ p.id = post ∧ p.brand = brand ∧
        r' = newApprovalRequest env now id rawToken brand post subject days := by
  have hold : ∀ r ∈ s.approvals, r.id = r'.id → ∃ r ∈ s.approvals, r.Becomes r' :=
    fun r hr hid => ⟨r, hr, h.evolves.approvals.related
      (fun hR => by obtain ⟨_, _, _, _, rfl, -⟩ := hR; rfl) hr hr' hid⟩
  have hset : ∀ {id f}, r' ∈ s.approvals.update id f → ∃ r ∈ s.approvals, r.Becomes r' := by
    intro id f hmem
    obtain ⟨r, hr, hid⟩ := Table.exists_key_of_mem_update hmem
    exact hold r hr hid
  cases h with
  | command admitted effect =>
    cases effect with
    | approvalRequested mem id owner _ request_eq _ insert =>
      rcases (Table.mem_insert? insert).1 hr' with hr' | hnew
      · exact .inl (hold r' hr' rfl)
      · exact .inr ⟨_, _, _, _, _, _, _, _, _, admitted, mem, id, owner.2, hnew.trans request_eq⟩
    | decided => exact .inl (hset hr')
    | revoked => exact .inl (hset hr')
    | _ => exact .inl (hold r' hr' rfl)
  | claimed claimed => cases claimed; exact .inl (hold r' hr' rfl)
  | finished finished => cases finished <;> exact .inl (hold r' hr' rfl)

end Origins

/-! ### Steps of the system -/

section System

variable {env : Env} {publisher : Option Publisher} {s s' : Sys} {o : Output}

/-- The command waits in a web process. -/
def Sys.Waits (s : Sys) (c : Command) : Prop := ∃ k, s.tickets k = some (.admitted c)

/-- A step of the system leaves the store alone or commits once. -/
theorem SysStep.store {l : Label} (h : SysStep env publisher s l s' o) :
    s'.store = s.store ∨ StoreStep env (fun _ => s.Waits) s.store s'.store := by
  cases h with
  | committed ticket effect => exact .inr (.command ⟨_, ticket⟩ effect)
  | claimed _ _ claimed => exact .inr (.claimed claimed)
  | finished _ finished => exact .inr (.finished finished)
  | _ => exact .inl rfl

/-- The same with the transaction of the service. -/
theorem next_store {l : Label} (h : next env publisher s l = some (s', o)) :
    s'.store = s.store ∨
      (∃ w c r, s.Waits c ∧ runCommand env w c s.store = .ok (r, s'.store)) ∨
      (∃ started attempt claim, Claimed started s.clock attempt claim s.store s'.store) ∨
      ∃ claim result answer, Finished env s.clock claim result answer s.store s'.store := by
  have hstep := next_step h
  cases hstep with
  | @committed k draws c r store ticket =>
    simp only [next, ticket, Sys.commit, Option.some.injEq] at h
    split at h
    · simp at h
    · rename_i hrun
      rename_i reply after
      have hstore : after = store := congrArg (fun x => x.1.store) h
      exact .inr (.inl ⟨_, c, reply, ⟨k, ticket⟩, hstore ▸ hrun⟩)
  | claimed _ _ claimed => exact .inr (.inr (.inl ⟨_, _, _, claimed⟩))
  | finished _ finished => exact .inr (.inr (.inr ⟨_, _, _, finished⟩))
  | _ => exact .inl rfl

theorem SysStep.evolves {l : Label} (h : SysStep env publisher s l s' o) :
    Evolves s.store s'.store := by
  rcases h.store with h | h
  · exact h ▸ .refl _
  · exact h.evolves

/-- Along a run the store evolves. -/
theorem Trail.evolves {es : List (Label × Output)} (h : Trail (relay env publisher) s es s') :
    Evolves s.store s'.store := by
  refine Trail.relates (I := fun _ => True) (R := fun a b => Evolves a.store b.store)
    (fun s => .refl s.store) Evolves.trans ?_ ?_ h trivial
  · exact fun _ _ _ _ _ => trivial
  · exact fun _ _ _ _ h => (next_step h).evolves

end System

end Relay
