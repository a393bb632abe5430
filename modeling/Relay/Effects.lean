import Relay.Model.Command
import Relay.Model.Delivery

/-!
# What a transaction can do

`Effect env w c r s s'` lists, command by command, every way in which the transaction of `c` can
commit: its reply `r` and the store `s'` it leaves, with the guards it has passed.  `Claimed` and
`Finished` do the same for the two commits of a worker.  All invariants are case analyses over
these relations, so none of them looks at the code of a service again.

* `runCommand_effect`: the services commit as `Effect` says;
* `claimPublication_claimed`, `finish_finished`: the worker commits as `Claimed` and `Finished` say.
-/

namespace Relay

open Relational Sequence

/-! ### How rows change -/

/-- A post keeps everything but its state, and stays approved. -/
def Post.Becomes (p p' : Post) : Prop :=
  ∃ state updatedAt, p' = { p with state, updatedAt } ∧ (p.state = .approved → state = .approved)

/-- An asset keeps everything but its upload state, and stays ready. -/
def MediaAsset.Becomes (a a' : MediaAsset) : Prop :=
  ∃ uploadState updatedAt, a' = { a with uploadState, updatedAt } ∧
    (a.uploadState = .ready → uploadState = .ready)

/-- An account changes its name only. -/
def SocialAccount.Becomes (a a' : SocialAccount) : Prop :=
  ∃ displayName updatedAt, a' = { a with displayName, updatedAt }

/-- A connection keeps its account and the channel it stands for. -/
def ChannelConnection.Becomes (c c' : ChannelConnection) : Prop :=
  ∃ displayName encryptedAccessToken tokenExpiresAt grantedScopes isActive updatedAt,
    c' = { c with displayName, encryptedAccessToken, tokenExpiresAt, grantedScopes, isActive, updatedAt }

theorem Post.Becomes.refl (p : Post) : p.Becomes p := ⟨p.state, p.updatedAt, rfl, id⟩

theorem Post.Becomes.trans {p q r : Post} (h : p.Becomes q) (k : q.Becomes r) : p.Becomes r := by
  obtain ⟨_, _, rfl, h⟩ := h
  obtain ⟨_, _, rfl, k⟩ := k
  exact ⟨_, _, rfl, fun hp => k (h hp)⟩

theorem MediaAsset.Becomes.refl (a : MediaAsset) : a.Becomes a :=
  ⟨a.uploadState, a.updatedAt, rfl, id⟩

theorem MediaAsset.Becomes.trans {a b c : MediaAsset} (h : a.Becomes b) (k : b.Becomes c) :
    a.Becomes c := by
  obtain ⟨_, _, rfl, h⟩ := h
  obtain ⟨_, _, rfl, k⟩ := k
  exact ⟨_, _, rfl, fun ha => k (h ha)⟩

theorem SocialAccount.Becomes.refl (a : SocialAccount) : a.Becomes a :=
  ⟨a.displayName, a.updatedAt, rfl⟩

theorem SocialAccount.Becomes.trans {a b c : SocialAccount} (h : a.Becomes b) (k : b.Becomes c) :
    a.Becomes c := by
  obtain ⟨_, _, rfl⟩ := h
  obtain ⟨_, _, rfl⟩ := k
  exact ⟨_, _, rfl⟩

theorem ChannelConnection.Becomes.refl (c : ChannelConnection) : c.Becomes c :=
  ⟨c.displayName, c.encryptedAccessToken, c.tokenExpiresAt, c.grantedScopes, c.isActive,
    c.updatedAt, rfl⟩

theorem ChannelConnection.Becomes.trans {a b c : ChannelConnection} (h : a.Becomes b)
    (k : b.Becomes c) : a.Becomes c := by
  obtain ⟨_, _, _, _, _, _, rfl⟩ := h
  obtain ⟨_, _, _, _, _, _, rfl⟩ := k
  exact ⟨_, _, _, _, _, _, rfl⟩

/-! ### The effects of commands -/

/-- The images of a draft: the distinct identifiers asked for, as ready assets of the brand. -/
structure DraftImages (tenant brand : Uuid) (assetIds : List Uuid) (s : Store)
    (media : List MediaAsset) : Prop where
  ids : media.map (·.id) = fromKeys assetIds
  ready : ∀ a ∈ media, a ∈ s.assets ∧ a.tenant = tenant ∧ a.brand = brand ∧ a.uploadState = .ready
  count : media.length ≤ maxPostImages

/-- What `persist_meta_connections` leaves of the accounts. -/
structure AccountSaved (tenant brand : Uuid) (account : SocialAccount) (t t' : Table SocialAccount) :
    Prop where
  grows : t.Grows SocialAccount.Becomes t'
  origin : ∀ a' ∈ t', (∃ a ∈ t, a.Becomes a') ∨ a' = account
  mem : account ∈ t'
  owner : account.tenant = tenant ∧ account.brand = brand

/-- What it leaves of the connections. -/
structure ConnectionsSaved (account : Uuid) (t t' : Table ChannelConnection) : Prop where
  grows : t.Grows ChannelConnection.Becomes t'
  origin : ∀ c' ∈ t', (∃ c ∈ t, c.Becomes c') ∨ c'.socialAccount = account

/-- The commits of a command: reply, store before and store after. -/
inductive Effect (env : Env) (w : World) : Command → Reply → Store → Store → Prop
  | uploadIntended {tenant brand : Uuid} {subject : String} {upload : MediaUpload} {s : Store}
      {assets : Table MediaAsset} {url : String}
      (supported : upload.contentType ∈ supportedImageTypes)
      (size : 0 < upload.sizeBytes ∧ upload.sizeBytes ≤ maxImageBytes)
      (insert : s.assets.insert? (newMediaAsset env w.now (w.ids 0) tenant brand upload) =
        some assets) :
      Effect env w (.createMediaUploadIntent tenant brand subject upload)
        (.uploadIntent ⟨newMediaAsset env w.now (w.ids 0) tenant brand upload, url⟩) s
        ({ s with assets }.log (serviceEvent tenant brand subject "media.upload_intent_created"
          "media_asset" (w.ids 0) [("content_type", .str upload.contentType),
            ("size_bytes", .int upload.sizeBytes)]))
  | alreadyConfirmed {asset tenant : Uuid} {subject : String} {s : Store} {row : MediaAsset}
      (mem : row ∈ s.assets) (id : row.id = asset) (owner : row.tenant = tenant)
      (ready : row.uploadState = .ready) :
      Effect env w (.confirmMediaUpload asset tenant subject) (.confirmed row) s s
  | confirmed {asset tenant : Uuid} {subject : String} {s : Store} {row : MediaAsset}
      {metadata : ObjectMetadata} (mem : row ∈ s.assets) (id : row.id = asset)
      (owner : row.tenant = tenant) (pending : row.uploadState = .pending)
      (object : w.head row.storageKey = .ok metadata) (same : metadata.mismatch row = false) :
      Effect env w (.confirmMediaUpload asset tenant subject)
        (.confirmed { row with uploadState := .ready, updatedAt := w.now }) s
        ((s.setUploadState w.now asset .ready).log (serviceEvent tenant row.brand subject
          "media.upload_confirmed" "media_asset" asset [("content_type", .str row.contentType),
            ("size_bytes", .int row.sizeBytes)]))
  | draftReplayed {tenant brand : Uuid} {subject key : String} {payload : PostPayload} {s : Store}
      {row : Post} (found : findPost tenant key s = some row)
      (same : row.requestFingerprint = requestFingerprint env payload.toFields) :
      Effect env w (.createPostDraft tenant brand subject key payload) (.post ⟨row, false⟩) s s
  | drafted {tenant brand : Uuid} {subject key : String} {payload : PostPayload} {s : Store}
      {posts : Table Post} {variants : Table PostVariant} {media : List MediaAsset}
      (unused : findPost tenant key s = none)
      (insert : s.posts.insert? (newPost env w.now (w.ids 0) tenant brand subject key payload) =
        some posts)
      (images : DraftImages tenant brand payload.mediaAssetIds s media)
      (insertVariant : s.variants.insert? (newVariant w.now (w.ids 1)
        (newPost env w.now (w.ids 0) tenant brand subject key payload) media) = some variants) :
      Effect env w (.createPostDraft tenant brand subject key payload)
        (.post ⟨newPost env w.now (w.ids 0) tenant brand subject key payload, true⟩) s
        ({ s with posts, variants }.log (serviceEvent tenant brand subject "post.draft_created"
          "post" (w.ids 0) [("idempotency_key", .str key)]))
  | alreadyApproved {post tenant brand : Uuid} {subject : String} {s : Store} {row : Post}
      (mem : row ∈ s.posts) (id : row.id = post) (owner : row.tenant = tenant ∧ row.brand = brand)
      (state : row.state = .approved) :
      Effect env w (.approvePost post tenant brand subject) (.approved row) s s
  | approved {post tenant brand : Uuid} {subject : String} {s : Store} {row : Post}
      (mem : row ∈ s.posts) (id : row.id = post) (owner : row.tenant = tenant ∧ row.brand = brand)
      (state : row.state = .draft ∨ row.state = .pendingApproval) :
      Effect env w (.approvePost post tenant brand subject)
        (.approved { row with state := .approved, updatedAt := w.now }) s
        ((s.setPostState w.now post .approved).log
          (serviceEvent tenant brand subject "post.approved" "post" post []))
  | approvalRequested {tenant brand post : Uuid} {subject : String} {days : ℤ} {s : Store} {row : Post}
      {approvals : Table ApprovalRequest} {request : ApprovalRequest}
      (mem : row ∈ s.posts) (id : row.id = post) (owner : row.tenant = tenant ∧ row.brand = brand)
      (state : row.state = .draft ∨ row.state = .pendingApproval)
      (request_eq : request =
        newApprovalRequest env w.now (w.ids 0) w.rawToken brand post subject days)
      (unused : findApproval env w.rawToken s = none)
      (insert : s.approvals.insert? request = some approvals) :
      Effect env w (.requestApproval tenant brand post subject days)
        (.approvalLink ⟨request, approvalUrl env w.rawToken⟩) s
        ({ s with
            approvals
            posts :=
              if row.state = LifecycleState.pendingApproval then s.posts
              else (s.setPostState w.now post .pendingApproval).posts }.log
          (serviceEvent tenant brand subject "approval.requested" "approval_request" request.id
            [("post_id", .str post.text), ("expires_at", .str request.expiresAt.isoformat)]))
  | decided {rawToken : String} {decision : DecisionText} {d : ApprovalDecision}
      {comment authorLabel : String} {s : Store} {request : ApprovalRequest} {post : Post}
      {brand : Brand} {comments : Table ApprovalComment}
      (found : findApproval env rawToken s = some request) (open' : request.revokedAt = none)
      (unexpired : w.now < request.expiresAt) (pending : request.decision = .pending)
      (supported : decision.decision? = some d)
      (commented : d = .changesRequested → ∃ c ∈ comments, c.approvalRequest = request.id ∧
        c.body = comment ∧ comment ≠ "")
      (kept : ∀ c ∈ s.comments, c ∈ comments)
      (postRow : s.posts.get? request.post = some post) (state : post.state = .pendingApproval)
      (brandRow : s.brands.get? request.brand = some brand) :
      Effect env w (.decideApproval rawToken decision comment authorLabel)
        (.decided (request.decide w.now d)) s
        ({ ((s.updateApproval request.id ⟨(·.decide w.now d), fun _ => rfl⟩).setPostState w.now
            request.post (if d = ApprovalDecision.approved then .approved else .draft)) with comments }.log
          (decisionEvent brand request request.post d))
  | revoked {id tenant : Uuid} {subject : String} {s : Store} {request : ApprovalRequest}
      (mem : request ∈ s.approvals) (request_id : request.id = id)
      (owner : ∃ b, s.brands.get? request.brand = some b ∧ b.workspace = tenant)
      (open' : request.revokedAt = none) (pending : request.decision = .pending) :
      Effect env w (.revokeApproval id tenant subject) (.revoked (request.revoke w.now)) s
        ((s.updateApproval id ⟨(·.revoke w.now), fun _ => rfl⟩).log
          (serviceEvent tenant request.brand subject "approval.revoked" "approval_request" id
            [("post_id", .str request.post.text)]))
  | publicationReplayed {call : ScheduleCall} {s : Store} {row : Publication}
      (found : findPublication call.tenant call.idempotencyKey s = some row)
      (same : row.requestFingerprint = requestFingerprint env call.payload) :
      Effect env w (.schedulePublication call) (.publication ⟨row, false⟩) s s
  | scheduled {call : ScheduleCall} {s : Store} {publications : Table Publication}
      (unused : findPublication call.tenant call.idempotencyKey s = none)
      (checked : checkSchedule call s = .ok ())
      (insert : s.publications.insert? (newPublication env w.now (w.ids 0) call) =
        some publications) :
      Effect env w (.schedulePublication call)
        (.publication ⟨newPublication env w.now (w.ids 0) call, true⟩) s
        ({ s with publications }.log (serviceEvent call.tenant call.brand call.subject
          "publication.scheduled" "publication" (w.ids 0)
          [("idempotency_key", .str call.idempotencyKey)]))
  | oauthStarted {tenant brand : Uuid} {subject : String} {s : Store} {oauthStates : Table OAuthState}
      (insert : s.oauthStates.insert?
        (newOAuthState env w.now (w.ids 0) w.rawToken tenant brand subject) = some oauthStates) :
      Effect env w (.startMetaOAuth tenant brand subject)
        (.authorization (authorizationUrl env.toSettings w.rawToken)) s { s with oauthStates }
  | oauthConsumed {rawState : String} {s : Store} {row : OAuthState} (mem : row ∈ s.oauthStates)
      (digest : row.stateDigest = env.sha256 rawState) (unused : row.usedAt = none)
      (unexpired : w.now < row.expiresAt) :
      Effect env w (.consumeOAuthState rawState) (.oauthState (row.use w.now)) s
        { s with oauthStates := s.oauthStates.update row.id ⟨(·.use w.now), fun _ => rfl⟩ }
  | connected {tenant brand : Uuid} {subject : String} {token : MetaToken} {identity : MetaIdentity}
      {s : Store} {account : SocialAccount} {accounts : Table SocialAccount}
      {connections : Table ChannelConnection}
      (accountSaved : AccountSaved tenant brand account s.accounts accounts)
      (connectionsSaved : ConnectionsSaved account.id s.connections connections) :
      Effect env w (.persistMetaConnections tenant brand subject token identity)
        (.socialAccount account) s
        ({ s with accounts, connections }.log (serviceEvent tenant brand subject
          "meta.connection_created" "social_account" account.id
          [("connection_count", .int identity.connections.length)]))

/-! ### The services commit so -/

section Services

variable {env : Env} {w : World} {s s' : Store} {r : Reply}

/-- A reply is a result under its name. -/
theorem reply_eq_ok {α : Type} {f : α → Reply} {x : Except ServiceError (α × Store)} :
    reply f x = .ok (r, s') ↔ ∃ a, x = .ok (a, s') ∧ r = f a := by
  cases x with
  | error e => simp [reply, Except.map]
  | ok y =>
    obtain ⟨a, t⟩ := y
    simp only [reply, Except.map, Except.ok.injEq, Prod.mk.injEq]
    constructor
    · rintro ⟨rfl, rfl⟩; exact ⟨a, ⟨rfl, rfl⟩, rfl⟩
    · rintro ⟨b, ⟨rfl, rfl⟩, rfl⟩; exact ⟨rfl, rfl⟩

theorem createMediaUploadIntent_effect {tenant brand : Uuid} {subject : String} {upload : MediaUpload}
    (hr : runCommand env w (.createMediaUploadIntent tenant brand subject upload) s = .ok (r, s')) :
    Effect env w (.createMediaUploadIntent tenant brand subject upload) r s s' := by
  obtain ⟨intent, h, rfl⟩ := reply_eq_ok.1 hr
  unfold createMediaUploadIntent at h
  split at h
  · cases h
  rename_i hvalid
  split at h
  · cases h
  obtain ⟨assets, hassets, h⟩ := bind_eq_ok.1 h
  rw [create_eq_ok] at hassets
  rw [not_or, not_not, not_not] at hvalid
  split at h
  · cases h
  · cases h
  · cases h
    exact .uploadIntended hvalid.1 hvalid.2 hassets

theorem confirmMediaUpload_effect {asset tenant : Uuid} {subject : String}
    (hr : runCommand env w (.confirmMediaUpload asset tenant subject) s = .ok (r, s')) :
    Effect env w (.confirmMediaUpload asset tenant subject) r s s' := by
  obtain ⟨row, h, rfl⟩ := reply_eq_ok.1 hr
  unfold confirmMediaUpload atomic confirmMediaUploadBody at h
  cases hf : s.assets.find? fun a => a.id = asset && a.tenant = tenant with
  | none => simp [hf] at h
  | some a =>
    have hmem := Table.mem_of_find? hf
    obtain ⟨rfl, rfl⟩ : a.id = asset ∧ a.tenant = tenant := by simpa using Table.find?_some hf
    simp only [hf] at h
    by_cases hready : a.uploadState = .ready
    · simp only [hready, if_true, Except.ok.injEq, Prod.mk.injEq] at h
      obtain ⟨rfl, rfl⟩ := h
      exact .alreadyConfirmed hmem rfl rfl hready
    · rw [if_neg hready] at h
      by_cases hpending : a.uploadState = .pending
      · rw [if_neg (not_not.2 hpending)] at h
        split at h
        · rename_i hbody
          split at hbody
          · simp at hbody
          split at hbody
          · simp at hbody
          · rename_i metadata hobject
            split at hbody
            · simp at hbody
            · rename_i hsame
              simp only [Prod.mk.injEq, Except.ok.injEq] at hbody h
              obtain ⟨rfl, rfl⟩ := hbody
              obtain ⟨rfl, rfl⟩ := h
              exact .confirmed hmem rfl rfl hpending hobject (by simpa using hsame)
        · cases h
      · simp [hpending] at h

/-- The images that `ready_assets_for_post` returns. -/
theorem draftImages_of_ready {tenant brand : Uuid} {ids : List Uuid} {media : List MediaAsset}
    (h : readyAssetsForPost tenant brand ids s = .ok media) : DraftImages tenant brand ids s media := by
  unfold readyAssetsForPost at h
  simp only at h
  split at h
  · cases h
  rename_i hmax
  split at h
  · cases h
  rename_i hlen
  simp only [Except.ok.injEq] at h
  subst h
  set rows := s.assets.where fun a => decide (a.id ∈ fromKeys ids) && a.tenant = tenant &&
    a.brand = brand && a.uploadState = .ready with hrows
  have hmem : ∀ a ∈ rows, a ∈ s.assets ∧ a.id ∈ fromKeys ids ∧ a.tenant = tenant ∧
      a.brand = brand ∧ a.uploadState = .ready := by
    intro a ha
    simpa [hrows, and_assoc] using ha
  -- as many distinct rows as distinct keys: every key has its row
  have hkeys : (rows.map (·.id)).Nodup := s.assets.nodup.sublist (List.filter_sublist.map _)
  have hsub : rows.map (·.id) ⊆ fromKeys ids := by
    intro k hk
    obtain ⟨a, ha, rfl⟩ := List.mem_map.1 hk
    exact (hmem a ha).2.1
  have hperm : (rows.map (·.id)).Perm (fromKeys ids) :=
    (hkeys.subperm hsub).perm_of_length_le (by rw [List.length_map, not_not.1 hlen])
  have hids : (lookups (fun a : MediaAsset => a.id) rows (fromKeys ids)).map (·.id) = fromKeys ids :=
    map_lookups fun k hk => by simpa using hperm.mem_iff.2 hk
  refine ⟨hids, fun a ha => ?_, ?_⟩
  · obtain ⟨h₁, -, h₂⟩ := hmem a (mem_of_mem_lookups ha).1
    exact ⟨h₁, h₂⟩
  · have := congrArg List.length hids
    rw [List.length_map] at this
    omega

/-- The recovery branch does not succeed. -/
theorem afterIntegrityError_eq_ok {α : Type} {x : Except ServiceError α} {a : α} :
    afterIntegrityError x = .ok a ↔ x = .ok a := by
  unfold afterIntegrityError
  split <;> simp

/-- The insertion of a draft. -/
theorem insertPostDraft_eq_ok {now : Time} {ids : PostIds} {tenant brand : Uuid} {subject key : String}
    {payload : PostPayload} {result : CreatePostResult}
    (h : insertPostDraft env now ids tenant brand subject key payload s = .ok (result, s')) :
    ∃ posts media variants,
      findPost tenant key s = none ∧
      s.posts.insert? (newPost env now ids.post tenant brand subject key payload) = some posts ∧
      readyAssetsForPost tenant brand payload.mediaAssetIds s = .ok media ∧
      s.variants.insert? (newVariant now ids.variant
        (newPost env now ids.post tenant brand subject key payload) media) = some variants ∧
      result = ⟨newPost env now ids.post tenant brand subject key payload, true⟩ ∧
      s' = { s with posts, variants }.log (serviceEvent tenant brand subject "post.draft_created"
        "post" ids.post [("idempotency_key", .str key)]) := by
  obtain ⟨posts, hposts, h⟩ := bind_eq_ok.1 h
  obtain ⟨media, hmedia, h⟩ := bind_eq_ok.1 h
  obtain ⟨variants, hvariants, h⟩ := bind_eq_ok.1 h
  cases h
  unfold createPostRow at hposts
  split at hposts
  · cases hposts
  · rename_i hnone
    rw [Bool.not_eq_true, Option.isSome_eq_false_iff, Option.isNone_iff_eq_none] at hnone
    exact ⟨posts, media, variants, hnone, create_eq_ok.1 hposts, hmedia, create_eq_ok.1 hvariants,
      rfl, rfl⟩

theorem createPostDraft_effect {tenant brand : Uuid} {subject key : String} {payload : PostPayload}
    (hr : runCommand env w (.createPostDraft tenant brand subject key payload) s = .ok (r, s')) :
    Effect env w (.createPostDraft tenant brand subject key payload) r s s' := by
  obtain ⟨result, h, rfl⟩ := reply_eq_ok.1 hr
  unfold createPostDraft at h
  cases hf : findPost tenant key s with
  | some row =>
    simp only [hf, replayPost] at h
    split at h
    · cases h
    · rename_i hsame
      cases h
      exact .draftReplayed hf (not_not.1 hsame)
  | none =>
    simp only [hf] at h
    obtain ⟨posts, media, variants, -, hposts, hmedia, hvariants, rfl, rfl⟩ :=
      insertPostDraft_eq_ok (afterIntegrityError_eq_ok.1 h)
    exact .drafted hf hposts (draftImages_of_ready hmedia) hvariants

theorem getPost_eq_ok {post tenant brand : Uuid} {p : Post} (h : getPost post tenant brand s = .ok p) :
    p ∈ s.posts ∧ p.id = post ∧ p.tenant = tenant ∧ p.brand = brand := by
  unfold getPost at h
  split at h
  · rename_i hf
    cases h
    refine ⟨Table.mem_of_find? hf, ?_⟩
    simpa [and_assoc] using Table.find?_some hf
  · cases h

theorem approvePost_effect {post tenant brand : Uuid} {subject : String}
    (hr : runCommand env w (.approvePost post tenant brand subject) s = .ok (r, s')) :
    Effect env w (.approvePost post tenant brand subject) r s s' := by
  obtain ⟨row, hcall, rfl⟩ := reply_eq_ok.1 hr
  obtain ⟨p, hp, h⟩ := bind_eq_ok.1 hcall
  obtain ⟨hmem, rfl, howner⟩ := getPost_eq_ok hp
  split at h
  · rename_i happroved
    cases h
    exact .alreadyApproved hmem rfl howner happroved
  split at h
  · cases h
  · rename_i hstate
    cases h
    exact .approved hmem rfl howner (by simpa [or_iff_not_imp_left] using hstate)

theorem requestApproval_effect {tenant brand post : Uuid} {subject : String} {days : ℤ}
    (hr : runCommand env w (.requestApproval tenant brand post subject days) s = .ok (r, s')) :
    Effect env w (.requestApproval tenant brand post subject days) r s s' := by
  obtain ⟨link, hcall, rfl⟩ := reply_eq_ok.1 hr
  obtain ⟨p, hp, h⟩ := bind_eq_ok.1 hcall
  obtain ⟨hmem, rfl, howner⟩ := getPost_eq_ok hp
  split at h
  · cases h
  rename_i hstate
  obtain ⟨approvals, hins, h⟩ := bind_eq_ok.1 h
  unfold createApprovalRow at hins
  split at hins
  · cases hins
  rename_i hunused
  have hnone : findApproval env w.rawToken s = none := Option.not_isSome_iff_eq_none.1 hunused
  have hst : p.state = .draft ∨ p.state = .pendingApproval := by
    simpa [or_iff_not_imp_left] using hstate
  have heffect : Effect env w (.requestApproval tenant brand p.id subject days) _ s _ :=
    .approvalRequested hmem rfl howner hst rfl hnone (create_eq_ok.1 hins)
  rcases hst with hdraft | hpending
  · simp only [hdraft] at h heffect
    cases h
    exact heffect
  · simp only [hpending] at h heffect
    cases h
    exact heffect

/-- What becomes of the comments with a decision. -/
theorem createComment_eq_ok {now : Time} {id request : Uuid} {authorLabel comment : String}
    (h : createComment s now id request authorLabel comment = .ok s') :
    ∃ comments, s' = { s with comments } ∧ (∀ c ∈ s.comments, c ∈ comments) ∧
      (comment ≠ "" → ∃ c ∈ comments, c.approvalRequest = request ∧ c.body = comment) := by
  unfold createComment at h
  split at h
  · rename_i hempty
    cases h
    exact ⟨s.comments, rfl, fun _ hc => hc, fun hne => absurd hempty hne⟩
  · obtain ⟨comments, hins, h⟩ := bind_eq_ok.1 h
    rw [create_eq_ok] at hins
    cases h
    exact ⟨comments, rfl, fun _ hc => Table.mem_of_mem_insert? hins hc,
      fun _ => ⟨_, Table.mem_self_insert? hins, rfl, rfl⟩⟩

theorem decideApproval_effect {rawToken comment authorLabel : String} {decision : DecisionText}
    (hr : runCommand env w (.decideApproval rawToken decision comment authorLabel) s = .ok (r, s')) :
    Effect env w (.decideApproval rawToken decision comment authorLabel) r s s' := by
  obtain ⟨request, hcall, rfl⟩ := reply_eq_ok.1 hr
  unfold decideApproval at hcall
  cases hf : findApproval env rawToken s with
  | none => simp [hf] at hcall
  | some row =>
    simp only [hf] at hcall
    split at hcall
    · cases hcall
    rename_i hopen
    split at hcall
    · cases hcall
    rename_i hpending
    cases hd : decision.decision? with
    | none => simp [hd] at hcall
    | some d =>
      simp only [hd] at hcall
      split at hcall
      · cases hcall
      rename_i hcomment
      split at hcall
      · rename_i post brand hpost hbrand
        split at hcall
        · cases hcall
        rename_i hstate
        obtain ⟨t, ht, hcall⟩ := bind_eq_ok.1 hcall
        obtain ⟨comments, rfl, hkept, hnew⟩ := createComment_eq_ok ht
        obtain ⟨hrevoked, hexpiry⟩ := not_or.1 hopen
        have hcommented : d = .changesRequested → ∃ c ∈ comments, c.approvalRequest = row.id ∧
            c.body = comment ∧ comment ≠ "" := by
          intro hd
          have hne : comment ≠ "" := fun he => hcomment ⟨hd, he⟩
          obtain ⟨c, hc, h₁, h₂⟩ := hnew hne
          exact ⟨c, hc, h₁, h₂, hne⟩
        have hid : post.id = row.post := Table.key_of_get? hpost
        cases hcall
        rw [hid]
        exact .decided hf (not_not.1 hrevoked) (not_le.1 hexpiry) (not_not.1 hpending) hd hcommented
          hkept hpost (not_not.1 hstate) hbrand
      · cases hcall

theorem revokeApproval_effect {id tenant : Uuid} {subject : String}
    (hr : runCommand env w (.revokeApproval id tenant subject) s = .ok (r, s')) :
    Effect env w (.revokeApproval id tenant subject) r s s' := by
  obtain ⟨request, hcall, rfl⟩ := reply_eq_ok.1 hr
  unfold revokeApproval at hcall
  split at hcall
  · cases hcall
  rename_i row hf
  obtain ⟨rfl, hany⟩ : row.id = id ∧ ((s.brands.get? row.brand).any fun b => b.workspace = tenant) := by
    simpa using Table.find?_some hf
  obtain ⟨b, hb, htenant⟩ := (Option.any_eq_true _ _).1 hany
  split at hcall
  · cases hcall
  rename_i hopen
  obtain ⟨hrevoked, hpending⟩ := not_or.1 hopen
  cases hcall
  exact .revoked (Table.mem_of_find? hf) rfl ⟨b, hb, by simpa using htenant⟩ (not_not.1 hrevoked)
    (not_not.1 hpending)

/-- The insertion of a publication. -/
theorem insertPublication_eq_ok {now : Time} {id : Uuid} {call : ScheduleCall}
    {result : SchedulePublicationResult}
    (h : insertPublication env now id call s = .ok (result, s')) :
    ∃ publications,
      findPublication call.tenant call.idempotencyKey s = none ∧
      s.publications.insert? (newPublication env now id call) = some publications ∧
      result = ⟨newPublication env now id call, true⟩ ∧
      s' = { s with publications }.log (serviceEvent call.tenant call.brand call.subject
        "publication.scheduled" "publication" id [("idempotency_key", .str call.idempotencyKey)]) := by
  obtain ⟨publications, hpublications, h⟩ := bind_eq_ok.1 h
  cases h
  unfold createPublicationRow at hpublications
  split at hpublications
  · cases hpublications
  · rename_i hnone
    rw [Bool.not_eq_true, Option.isSome_eq_false_iff, Option.isNone_iff_eq_none] at hnone
    exact ⟨publications, hnone, create_eq_ok.1 hpublications, rfl, rfl⟩

theorem schedulePublication_effect {call : ScheduleCall}
    (hr : runCommand env w (.schedulePublication call) s = .ok (r, s')) :
    Effect env w (.schedulePublication call) r s s' := by
  obtain ⟨result, hcall, rfl⟩ := reply_eq_ok.1 hr
  unfold schedulePublication at hcall
  cases hf : findPublication call.tenant call.idempotencyKey s with
  | some row =>
    simp only [hf, replayPublication] at hcall
    split at hcall
    · cases hcall
    · rename_i hsame
      cases hcall
      exact .publicationReplayed hf (not_not.1 hsame)
  | none =>
    simp only [hf] at hcall
    obtain ⟨⟨⟩, hchecked, hcall⟩ := bind_eq_ok.1 hcall
    obtain ⟨publications, -, hpublications, rfl, rfl⟩ :=
      insertPublication_eq_ok (afterIntegrityError_eq_ok.1 hcall)
    exact .scheduled hf hchecked hpublications

theorem startMetaOAuth_effect {tenant brand : Uuid} {subject : String}
    (hr : runCommand env w (.startMetaOAuth tenant brand subject) s = .ok (r, s')) :
    Effect env w (.startMetaOAuth tenant brand subject) r s s' := by
  obtain ⟨url, hcall, rfl⟩ := reply_eq_ok.1 hr
  obtain ⟨oauthStates, hins, hcall⟩ := bind_eq_ok.1 hcall
  split at hcall
  · cases hcall
  unfold createOAuthRow at hins
  split at hins
  · cases hins
  · cases hcall
    exact .oauthStarted (create_eq_ok.1 hins)

theorem consumeOAuthState_effect {rawState : String}
    (hr : runCommand env w (.consumeOAuthState rawState) s = .ok (r, s')) :
    Effect env w (.consumeOAuthState rawState) r s s' := by
  obtain ⟨row, hcall, rfl⟩ := reply_eq_ok.1 hr
  unfold consumeOAuthState at hcall
  split at hcall
  · cases hcall
  rename_i o hf
  split at hcall
  · cases hcall
  rename_i hopen
  obtain ⟨hused, hexpiry⟩ := not_or.1 hopen
  cases hcall
  exact .oauthConsumed (Table.mem_of_find? hf) (by simpa using Table.find?_some hf)
    (not_not.1 hused) (not_le.1 hexpiry)

theorem ConnectionsSaved.refl (account : Uuid) (t : Table ChannelConnection) :
    ConnectionsSaved account t t :=
  ⟨.refl ChannelConnection.Becomes.refl t, fun c hc => .inl ⟨c, hc, .refl c⟩⟩

theorem ConnectionsSaved.trans {account : Uuid} {t t' t'' : Table ChannelConnection}
    (h : ConnectionsSaved account t t') (k : ConnectionsSaved account t' t'') :
    ConnectionsSaved account t t'' where
  grows := h.grows.trans ChannelConnection.Becomes.trans k.grows
  origin c'' hc'' := by
    rcases k.origin c'' hc'' with ⟨c', hc', hbecomes⟩ | hnew
    · rcases h.origin c' hc' with ⟨c, hc, hbecomes'⟩ | hnew
      · exact .inl ⟨c, hc, hbecomes'.trans hbecomes⟩
      · obtain ⟨_, _, _, _, _, _, rfl⟩ := hbecomes
        exact .inr hnew
    · exact .inr hnew

theorem upsertConnection_saved {now : Time} {id account : Uuid} {draw : FernetDraw} {token : MetaToken}
    {c : MetaConnection} (h : upsertConnection env now id draw account token c s = .ok s') :
    ∃ connections, s' = { s with connections } ∧
      ConnectionsSaved account s.connections connections := by
  unfold upsertConnection at h
  split at h
  · cases h
  rename_i encrypted _
  split at h
  · cases h
  split at h
  · cases h
    have hbecomes : ∀ r : ChannelConnection, r.Becomes (r.refresh now token encrypted c) :=
      fun r => ⟨_, _, _, _, _, _, rfl⟩
    refine ⟨_, rfl, .update ChannelConnection.Becomes.refl fun r _ _ => hbecomes r, fun c' hc' => ?_⟩
    obtain ⟨r, hr, rfl⟩ := Table.mem_update.1 hc'
    refine .inl ⟨r, hr, ?_⟩
    split
    · exact hbecomes r
    · exact .refl r
  · obtain ⟨connections, hins, h⟩ := bind_eq_ok.1 h
    rw [create_eq_ok] at hins
    cases h
    refine ⟨_, rfl, .insert ChannelConnection.Becomes.refl hins, fun c' hc' => ?_⟩
    rcases (Table.mem_insert? hins).1 hc' with hc' | rfl
    · exact .inl ⟨c', hc', .refl c'⟩
    · exact .inr rfl

theorem upsertConnections_saved {now : Time} {account : Uuid} {token : MetaToken} {ids : ℕ → Uuid}
    {ciphers : ℕ → FernetDraw} {cs : List MetaConnection}
    (h : upsertConnections env now account token ids ciphers cs s = .ok s') :
    ∃ connections, s' = { s with connections } ∧
      ConnectionsSaved account s.connections connections := by
  induction cs generalizing s ids ciphers with
  | nil => cases h; exact ⟨_, rfl, .refl account _⟩
  | cons c cs ih =>
    obtain ⟨t, ht, h⟩ := bind_eq_ok.1 h
    obtain ⟨connections, rfl, hfirst⟩ := upsertConnection_saved ht
    obtain ⟨connections', rfl, hrest⟩ := ih h
    exact ⟨connections', rfl, hfirst.trans hrest⟩

theorem upsertAccount_saved {now : Time} {id tenant brand : Uuid} {identity : MetaIdentity}
    {account : SocialAccount} (h : upsertAccount now id tenant brand identity s = .ok (account, s')) :
    ∃ accounts, s' = { s with accounts } ∧ AccountSaved tenant brand account s.accounts accounts := by
  unfold upsertAccount at h
  split at h
  · cases h
  split at h
  · rename_i row hf
    have hmem := Table.mem_of_find? hf
    obtain ⟨htenant, hbrand⟩ : row.tenant = tenant ∧ row.brand = brand := by
      have := Table.find?_some hf
      simp only [Bool.and_eq_true, decide_eq_true_eq] at this
      exact this.1.1
    cases h
    have hbecomes : ∀ a : SocialAccount, a.Becomes (a.rename now identity.displayName) :=
      fun a => ⟨_, _, rfl⟩
    refine ⟨_, rfl, .update SocialAccount.Becomes.refl fun a _ _ => hbecomes a, fun a' ha' => ?_,
      Table.mem_update_self hmem rfl, htenant, hbrand⟩
    obtain ⟨a, ha, rfl⟩ := Table.mem_update.1 ha'
    refine .inl ⟨a, ha, ?_⟩
    split
    · exact hbecomes a
    · exact .refl a
  · split at h
    · cases h
    · obtain ⟨accounts, hins, h⟩ := bind_eq_ok.1 h
      rw [create_eq_ok] at hins
      cases h
      refine ⟨_, rfl, .insert SocialAccount.Becomes.refl hins, fun a' ha' => ?_,
        Table.mem_self_insert? hins, rfl, rfl⟩
      rcases (Table.mem_insert? hins).1 ha' with ha' | rfl
      · exact .inl ⟨a', ha', .refl a'⟩
      · exact .inr rfl

theorem persistMetaConnections_effect {tenant brand : Uuid} {subject : String} {token : MetaToken}
    {identity : MetaIdentity}
    (hr : runCommand env w (.persistMetaConnections tenant brand subject token identity) s =
      .ok (r, s')) :
    Effect env w (.persistMetaConnections tenant brand subject token identity) r s s' := by
  obtain ⟨account, hcall, rfl⟩ := reply_eq_ok.1 hr
  obtain ⟨⟨a, t⟩, ha, hcall⟩ := bind_eq_ok.1 hcall
  obtain ⟨u, hu, hcall⟩ := bind_eq_ok.1 hcall
  obtain ⟨accounts, rfl, hsaved⟩ := upsertAccount_saved ha
  obtain ⟨connections, rfl, hsaved'⟩ := upsertConnections_saved hu
  cases hcall
  exact .connected hsaved hsaved'

/-- **The services commit as `Effect` says.** -/
theorem runCommand_effect {c : Command} (h : runCommand env w c s = .ok (r, s')) :
    Effect env w c r s s' := by
  cases c with
  | createMediaUploadIntent => exact createMediaUploadIntent_effect h
  | confirmMediaUpload => exact confirmMediaUpload_effect h
  | createPostDraft => exact createPostDraft_effect h
  | approvePost => exact approvePost_effect h
  | requestApproval => exact requestApproval_effect h
  | decideApproval => exact decideApproval_effect h
  | revokeApproval => exact revokeApproval_effect h
  | schedulePublication => exact schedulePublication_effect h
  | startMetaOAuth => exact startMetaOAuth_effect h
  | consumeOAuthState => exact consumeOAuthState_effect h
  | persistMetaConnections => exact persistMetaConnections_effect h

end Services

/-! ### The commits of a worker -/

/-- The commit of a claim. -/
inductive Claimed (started now : Time) (attemptId : Uuid) : Claim → Store → Store → Prop
  | claimed {s : Store} {publication : Publication} {postVariant : PostVariant}
      {channelConnection : ChannelConnection} {attempt : PublicationAttempt}
      {attempts : Table PublicationAttempt} (mem : publication ∈ s.publications)
      (due : publication.due started = true)
      (variantRow : s.variants.get? publication.postVariant = some postVariant)
      (connectionRow : s.connections.get? publication.channelConnection = some channelConnection)
      (attempt_eq : attempt = newAttempt started now attemptId publication.id
        ((attemptsOf s publication.id).length + 1))
      (insert : s.attempts.insert? attempt = some attempts) :
      Claimed started now attemptId
        ⟨publication.claimed now, postVariant, channelConnection, attempt⟩ s
        ({ s with attempts }.updatePublication publication.id ⟨(·.claimed now), fun _ => rfl⟩)

/-- The variant and the connection that a claim hands to its worker. -/
theorem Claimed.content {started now : Time} {attemptId : Uuid} {claim : Claim} {s s' : Store}
    (h : Claimed started now attemptId claim s s') :
    (claim.postVariant ∈ s'.variants ∧ claim.postVariant.id = claim.publication.postVariant) ∧
      claim.channelConnection ∈ s'.connections ∧
        claim.channelConnection.id = claim.publication.channelConnection := by
  cases h with
  | claimed _ _ variantRow connectionRow =>
    exact ⟨Table.get?_eq_some.1 variantRow, Table.get?_eq_some.1 connectionRow⟩

/-- The commit of an outcome, with the answer of the call. -/
inductive Finished (env : Env) (now : Time) (claim : Claim) :
    Except DeliveryError String → String → Store → Store → Prop
  | published {s : Store} {publication : Publication} {attempt : PublicationAttempt}
      {providerPublicationId : String}
      (publicationRow : s.publications.get? claim.publication.id = some publication)
      (attemptRow : s.attempts.get? claim.attempt.id = some attempt)
      (fits : fitsVarchar 255 providerPublicationId = true) :
      Finished env now claim (.ok providerPublicationId) "published" s
        (((s.updateAttempt claim.attempt.id ⟨(·.succeeded now), fun _ => rfl⟩).updatePublication
          claim.publication.id ⟨(·.succeeded now providerPublicationId), fun _ => rfl⟩).log
          (workerEvent publication "publication.published"
            [("attempt", .int attempt.attemptNumber)]))
  | failed {s : Store} {publication : Publication} {attempt : PublicationAttempt}
      {error : DeliveryError} {shouldRetry : Bool}
      (publicationRow : s.publications.get? claim.publication.id = some publication)
      (attemptRow : s.attempts.get? claim.attempt.id = some attempt)
      (retry : shouldRetry = true ↔ (∃ m, error = .metaPublishTransientError m) ∧
        (attempt.attemptNumber : ℤ) < env.relayPublicationMaxAttempts) :
      Finished env now claim (.error error) (if shouldRetry then "retry_scheduled" else "failed") s
        (((s.updateAttempt claim.attempt.id
          ⟨(·.failed now error shouldRetry), fun _ => rfl⟩).updatePublication claim.publication.id
            ⟨(·.failed now error attempt.attemptNumber shouldRetry), fun _ => rfl⟩).log
          (workerEvent publication
            (if shouldRetry then "publication.retry_scheduled" else "publication.failed")
            [("attempt", .int attempt.attemptNumber), ("error_code", .str error.className)]))

section Worker

variable {env : Env} {s s' : Store}

theorem claimPublication_claimed {started now : Time} {attemptId publicationId : Uuid}
    {o : Option Claim} (h : claimPublication started now attemptId publicationId s = .ok (o, s')) :
    (o = none ∧ s' = s) ∨ ∃ claim, o = some claim ∧ claim.publication.id = publicationId ∧
      Claimed started now attemptId claim s s' := by
  unfold claimPublication at h
  split at h
  · cases h; exact .inl ⟨rfl, rfl⟩
  rename_i publication hf
  have hmem := Table.mem_of_find? hf
  obtain ⟨hid, hdue⟩ : publication.id = publicationId ∧ publication.due started = true := by
    simpa using Table.find?_some hf
  split at h
  · rename_i postVariant channelConnection hvariant hconnection
    obtain ⟨attempts, hins, h⟩ := bind_eq_ok.1 h
    unfold createAttemptRow at hins
    split at hins
    · cases hins
    · cases h
      exact .inr ⟨_, rfl, hid, .claimed hmem hdue hvariant hconnection rfl (create_eq_ok.1 hins)⟩
  · cases h; exact .inl ⟨rfl, rfl⟩

theorem finishFailure_finished {now : Time} {claim : Claim} {error : DeliveryError}
    {transient : Bool} {answer : String}
    (htransient : transient = true ↔ ∃ m, error = .metaPublishTransientError m)
    (h : finishFailure env now claim error transient s = .ok (answer, s')) :
    Finished env now claim (.error error) answer s s' := by
  unfold finishFailure at h
  split at h
  · rename_i publication attempt hp ha
    dsimp only at h
    split at h
    · cases h
    · cases h
      have hpid : publication.id = claim.publication.id := Table.key_of_get? hp
      have haid : attempt.id = claim.attempt.id := Table.key_of_get? ha
      rw [hpid, haid]
      exact .failed hp ha (by rw [Bool.and_eq_true, htransient, decide_eq_true_iff])
  · cases h

theorem finish_finished {now : Time} {claim : Claim} {result : Except DeliveryError String}
    {answer : String} (h : finish env now claim result s = .ok (answer, s')) :
    Finished env now claim result answer s s' := by
  unfold finish at h
  split at h
  · rename_i provider
    unfold finishPublished at h
    split at h
    · rename_i publication attempt hp ha
      split at h
      · cases h
      · rename_i hfits
        cases h
        have hpid : publication.id = claim.publication.id := Table.key_of_get? hp
        have haid : attempt.id = claim.attempt.id := Table.key_of_get? ha
        rw [hpid, haid]
        exact .published hp ha (not_not.1 hfits)
    · cases h
  · cases h
  · exact finishFailure_finished (by simp) h
  · rename_i error huncaught htransient
    refine finishFailure_finished ?_ h
    simp only [Bool.false_eq_true, false_iff]
    rintro ⟨m, rfl⟩
    exact htransient m rfl

end Worker

end Relay
