import Relay.Attempts
import Relay.ClientApproval
import Relay.Coherence

/-!
# What is published is what was drafted, shown and approved

The text of a draft is copied into its variant, and its images are kept as a list of identifiers
beside an unordered relation.

* `Composed`: every post has one variant, which shows its text and its images in their order;
* `Shows`, `Drafts`, `Approves`, `Schedules`: what the events of a run say about a post;
* `published_as_approved`: where body, images and approval of a publication come from.
-/

namespace Relay

open Relational Sequence Transition

/-! ### The content of a post -/

/-- Every post has one variant, with its text; a variant lists its images in order. -/
structure Composed (s : Store) : Prop where
  alone : ∀ v ∈ s.variants, ∀ w ∈ s.variants, v.post = w.post → v = w
  variant : ∀ p ∈ s.posts, ∃ v ∈ s.variants, v.post = p.id ∧ v.body = p.body
  order : ∀ v ∈ s.variants, v.mediaAssetOrder = v.mediaAssets.map Uuid.text

section Content

variable {env : Env} {s s' : Store} {v : PostVariant} {p : Post}

theorem Composed.step {A : Store → Command → Prop} (h : Composed s) (hs : Coherent s)
    (hstep : StoreStep env A s s') : Composed s' := by
  rcases hstep.variants with
    ⟨hsame, hposts⟩ | ⟨_, postId, _, _, _, _, _, _, media, -, -, hinsert, hinsert'⟩
  · refine ⟨hsame ▸ h.alone, fun p' hp' => ?_, hsame ▸ h.order⟩
    obtain ⟨p, hp, _, _, rfl, -⟩ := hposts p' hp'
    exact hsame ▸ h.variant p hp
  · -- the variants that are there belong to other posts
    have hother : ∀ v ∈ s.variants, v.post ≠ postId := by
      intro v hv hpost
      obtain ⟨p, hp⟩ := hs.variants v hv
      exact Table.fresh_of_insert? hinsert p hp.post.1 (hp.post.2.trans hpost)
    refine ⟨fun v hv w hw hpost => ?_, fun p hp => ?_, fun v hv => ?_⟩
    · rcases (Table.mem_insert? hinsert').1 hv with hv | rfl <;>
        rcases (Table.mem_insert? hinsert').1 hw with hw | rfl
      · exact h.alone v hv w hw hpost
      · exact absurd hpost (hother v hv)
      · exact absurd hpost.symm (hother w hw)
      · rfl
    · rcases (Table.mem_insert? hinsert).1 hp with hp | rfl
      · obtain ⟨v, hv, hvariant⟩ := h.variant p hp
        exact ⟨v, Table.mem_of_mem_insert? hinsert' hv, hvariant⟩
      · exact ⟨_, Table.mem_self_insert? hinsert', rfl, rfl⟩
    · rcases (Table.mem_insert? hinsert').1 hv with hv | rfl
      · exact h.order v hv
      · exact (List.map_map (g := Uuid.text) (l := media)).symm

theorem composed_of_reachable {publisher : Option Publisher} {s : Sys}
    (h : Reachable (relay env publisher) s) : Composed s.store := by
  refine h.induct (I := fun s => Composed s.store) ?_ fun s e t hr hs hstep => ?_
  · rintro _ ⟨tenants, brands, memberships, clock, rfl⟩
    exact ⟨fun v hv => absurd hv (Table.not_mem_empty v), fun p hp => absurd hp (Table.not_mem_empty p),
      fun v hv => absurd hv (Table.not_mem_empty v)⟩
  · rcases (next_step hstep).store with hsame | hcommit
    · exact hsame ▸ hs
    · exact hs.step (coherent_of_reachable hr) hcommit

/-- The images of a variant that lists them come in the order of the list. -/
theorem orderedMediaAssets_listed (hv : v ∈ s.variants)
    (order : v.mediaAssetOrder = v.mediaAssets.map Uuid.text)
    (attached : ∀ id ∈ v.mediaAssets, ∃ a ∈ s.assets, a.id = id) :
    (orderedMediaAssets s v).map (·.id) = v.mediaAssets := by
  unfold orderedMediaAssets
  rw [attachedAssets_eq hv, order]
  dsimp only
  set assets := orderBy (fun a b : MediaAsset => createdLe a.toTimeStampedUUIDModel
    b.toTimeStampedUUIDModel) (s.assets.where fun a => decide (a.id ∈ v.mediaAssets)) with hassets
  set ordered := lookups (fun a : MediaAsset => a.id.text) assets (v.mediaAssets.map Uuid.text)
    with hordered
  have hmem : ∀ a, a ∈ assets ↔ a ∈ s.assets ∧ a.id ∈ v.mediaAssets := by
    intro a
    rw [hassets, mem_orderBy, Table.mem_where, decide_eq_true_iff]
  have htexts : ordered.map (fun a => a.id.text) = v.mediaAssets.map Uuid.text := by
    refine map_lookups fun k hk => ?_
    obtain ⟨id, hid, rfl⟩ := List.mem_map.1 hk
    obtain ⟨a, ha, rfl⟩ := attached id hid
    exact ⟨a, (hmem a).2 ⟨ha, hid⟩, rfl⟩
  have hids : ordered.map (·.id) = v.mediaAssets :=
    List.map_injective_iff.2 Uuid.text_injective (by rw [List.map_map]; exact htexts)
  -- every attached asset is listed, so none is left over
  have hrest : (assets.filter fun a => !ordered.any fun b => b.id = a.id) = [] := by
    rw [List.filter_eq_nil_iff]
    intro a ha
    obtain ⟨b, hb, hid⟩ := List.mem_map.1 (hids ▸ ((hmem a).1 ha).2)
    simpa using ⟨b, hb, hid⟩
  rw [hrest, List.append_nil]
  exact hids

/-- The images of a stored variant come in the order in which the variant lists them. -/
theorem Composed.images (h : Composed s) (hs : Coherent s) (hv : v ∈ s.variants) :
    (orderedMediaAssets s v).map (·.id) = v.mediaAssets := by
  obtain ⟨p, hp⟩ := hs.variants v hv
  refine orderedMediaAssets_listed hv (h.order v hv) fun id hid => ?_
  obtain ⟨a, ha, hid, -⟩ := hp.ready id hid
  exact ⟨a, ha, hid⟩

/-- The variant of a post is its default variant. -/
theorem Composed.defaultVariant (h : Composed s) (hv : v ∈ s.variants) :
    defaultVariant s v.post = some v := by
  unfold Relay.defaultVariant
  have hall : ∀ w ∈ orderBy (fun a b : PostVariant => a.createdAt ≤ b.createdAt)
      (s.variants.where fun w => w.post = v.post), w = v := by
    intro w hw
    rw [mem_orderBy, Table.mem_where, decide_eq_true_iff] at hw
    exact h.alone w hw.1 v hv hw.2
  cases hl : orderBy (fun a b : PostVariant => a.createdAt ≤ b.createdAt)
      (s.variants.where fun w => w.post = v.post) with
  | nil =>
    have : v ∈ ([] : List PostVariant) := by
      rw [← hl, mem_orderBy, Table.mem_where, decide_eq_true_iff]
      exact ⟨hv, rfl⟩
    cases this
  | cons w l => rw [List.head?_cons, hall w (by rw [hl]; simp)]

/-- What `PostSerializer` shows of a post is what its variant has. -/
theorem Composed.postData (h : Composed s) (hs : Coherent s)
    (hp : ∃ q ∈ s.posts, q.id = p.id ∧ q.body = p.body) :
    ∃ v ∈ s.variants, v.post = p.id ∧ (postData s p).body = v.body ∧
      (postData s p).mediaAssetIds = v.mediaAssets := by
  obtain ⟨q, hq, hid, hbody⟩ := hp
  obtain ⟨v, hv, hpost, hvbody⟩ := h.variant q hq
  have hdefault : Relay.defaultVariant s p.id = some v := by
    rw [← hid, ← hpost]
    exact h.defaultVariant hv
  refine ⟨v, hv, hpost.trans hid, hbody.symm.trans hvbody.symm, ?_⟩
  unfold Relay.postData
  rw [hdefault]
  exact h.images hs hv

end Content

/-! ### What events say of a post -/

/-- The event shows the data of a post to its reader. -/
inductive Shows (d : PostData) : Output → Prop
  | response {r : Response} (shown : r.data.Shows d) : Shows d (.response (.ok r))
  | committed {c : Command} {reply : Reply} {r : Response} (shown : r.data.Shows d) :
      Shows d (.committed c reply (some (.ok r)))

/-- The event drafts a post. -/
inductive Drafts (post : Uuid) (payload : PostPayload) : Output → Prop
  | drafted {tenant brand : Uuid} {subject key : String} {row : Post}
      {response : Option (Except ApiError Response)} (id : row.id = post) :
      Drafts post payload (.committed (.createPostDraft tenant brand subject key payload)
        (.post ⟨row, true⟩) response)

/-- The event approves a post: staff do, or its link is decided so. -/
inductive Approves (post : Uuid) : Output → Prop
  | byStaff {tenant brand : Uuid} {subject : String} {row : Post}
      {response : Option (Except ApiError Response)} :
      Approves post (.committed (.approvePost post tenant brand subject) (.approved row) response)
  | byLink {rawToken comment authorLabel : String} {request : ApprovalRequest}
      {response : Option (Except ApiError Response)} (of : request.post = post)
      (decision : request.decision = .approved) :
      Approves post (.committed (.decideApproval rawToken .approved comment authorLabel)
        (.decided request) response)

/-- The event schedules a publication. -/
inductive Schedules (publication : Uuid) : Output → Prop
  | scheduled {call : ScheduleCall} {row : Publication}
      {response : Option (Except ApiError Response)} (id : row.id = publication) :
      Schedules publication (.committed (.schedulePublication call) (.publication ⟨row, true⟩) response)

section Events

variable {env : Env} {publisher : Option Publisher} {s s' : Sys} {l : Label} {o : Output}

/-- A tenant-scoped view shows posts of the store. -/
theorem Answered.shows {now : Time} {p : RelayPrincipal} {t : Store} {data : Data} {d : PostData}
    (h : Answered p now t data) (hd : data.Shows d) : ∃ q ∈ t.posts, d = postData t q := by
  cases h with
  | posts sees =>
    obtain ⟨q, hq, rfl⟩ := List.mem_map.1 hd
    exact ⟨q, (sees q hq).mem, rfl⟩
  | post sees => exact ⟨_, sees.mem, hd.symm⟩
  | _ => exact hd.elim

/-- The page of a link shows a post of the store. -/
theorem admitPublic_shows {now : Time} {t : Store} {r : PublicRequest} {a : Response} {d : PostData}
    (h : admitPublic env now r t = .ok (.answer a)) (hd : a.data.Shows d) :
    ∃ q ∈ t.posts, d = postData t q := by
  cases r with
  | approvalLink token =>
    unfold admitPublic at h
    dsimp only at h
    split at h
    · cases h
    · obtain ⟨post, hpost, h⟩ := bind_eq_ok.1 h
      cases h
      exact ⟨post, Table.mem_of_get? (orNotFound_eq_ok.1 hpost), hd.symm⟩
  | approvalDecision token data =>
    obtain ⟨decision, -, h⟩ := bind_eq_ok.1 h
    cases h
  | metaOAuthCallback code state =>
    unfold admitPublic at h
    dsimp only at h
    split at h <;> cases h

/-- The response to a command shows a post of the store that it leaves. -/
theorem Effect.shows {w : World} {c : Command} {r : Reply} {t t' : Store} {a : Response}
    {d : PostData} (h : Effect env w c r t t') (hr : respond t' r = some (.ok a))
    (hd : a.data.Shows d) : ∃ p, (∃ q ∈ t'.posts, q.id = p.id ∧ q.body = p.body) ∧ d = postData t' p := by
  have hkeep : ∀ q ∈ t.posts, ∃ q' ∈ t'.posts, q'.id = q.id ∧ q'.body = q.body := by
    intro q hq
    obtain ⟨_, hq', _, _, rfl, -⟩ := h.evolves.posts q hq
    exact ⟨_, hq', rfl, rfl⟩
  cases h with
  | draftReplayed found =>
    cases hr
    exact ⟨_, hkeep _ (Table.mem_of_find? found), hd.symm⟩
  | drafted _ insert =>
    cases hr
    exact ⟨_, ⟨_, Table.mem_self_insert? insert, rfl, rfl⟩, hd.symm⟩
  | alreadyApproved mem =>
    cases hr
    exact ⟨_, hkeep _ mem, hd.symm⟩
  | @approved _ _ _ _ _ row mem =>
    cases hr
    obtain ⟨q, hq, hkept⟩ := hkeep row mem
    exact ⟨{ row with state := .approved, updatedAt := w.now }, ⟨q, hq, hkept⟩, hd.symm⟩
  | _ => cases hr <;> exact hd.elim

/-- What an event shows of a post is what its variant has. -/
theorem SysStep.shows (hstep : SysStep env publisher s l s' o) (hs : Composed s.store)
    (hs' : Composed s'.store) (hcoherent : Coherent s.store) (hcoherent' : Coherent s'.store)
    {d : PostData} (hd : Shows d o) : ∃ v ∈ s'.store.variants, v.post = d.id ∧ d.body = v.body ∧
      d.mediaAssetIds = v.mediaAssets := by
  have hold : (∃ q ∈ s.store.posts, d = postData s.store q) → s'.store = s.store →
      ∃ v ∈ s'.store.variants, v.post = d.id ∧ d.body = v.body ∧ d.mediaAssetIds = v.mediaAssets := by
    rintro ⟨q, hq, rfl⟩ hsame
    rw [hsame]
    exact hs.postData hcoherent ⟨q, hq, rfl, rfl⟩
  cases hstep with
  | answered admission =>
    cases hd with
    | response shown => exact hold ((handle_answered (admitRequest_eq_ok admission).2.2).shows shown) rfl
  | answeredPublic admission =>
    cases hd with
    | response shown => exact hold (admitPublic_shows admission shown) rfl
  | @committed k draws c r store ticket effect =>
    generalize hresponse : respond store r = response at hd
    cases hd with
    | committed shown =>
      obtain ⟨p, hp, rfl⟩ := effect.shows hresponse shown
      exact hs'.postData hcoherent' hp
  | _ => cases hd

/-- The event at which a variant turns up drafts its post. -/
theorem SysStep.drafts (hstep : SysStep env publisher s l s' o) {v : PostVariant}
    (hnew : v ∉ s.store.variants) (hv : v ∈ s'.store.variants) : ∃ payload, Drafts v.post payload o ∧
      v.body = payload.body ∧ v.mediaAssets = fromKeys payload.mediaAssetIds := by
  cases hstep with
  | committed _ effect =>
    cases effect with
    | drafted _ _ images insertVariant =>
      rcases (Table.mem_insert? insertVariant).1 hv with hv | rfl
      · exact absurd hv hnew
      · exact ⟨_, .drafted rfl, rfl, images.ids⟩
    | _ => exact absurd hv hnew
  | claimed _ _ claimed => cases claimed; exact absurd hv hnew
  | finished _ finished => cases finished <;> exact absurd hv hnew
  | _ => exact absurd hv hnew

/-- The command by which a post becomes approved approves it. -/
theorem Effect.approves {w : World} {c : Command} {r : Reply} {t t' : Store}
    {response : Option (Except ApiError Response)} (h : Effect env w c r t t') {post : Uuid}
    (hbefore : stateOf t post ≠ some .approved) (hafter : stateOf t' post = some .approved) :
    Approves post (.committed c r response) := by
  -- the post whose state is set is the one that becomes approved
  have hset : ∀ {u : Store} {now id state}, stateOf t id ≠ none →
      u.posts = (t.setPostState now id state).posts → stateOf u post = some .approved →
      post = id ∧ state = .approved := by
    intro u now id state hid hu hpost
    rw [stateOf_setPostState hid hu, Function.update_apply] at hpost
    split at hpost
    · exact ⟨‹_›, Option.some.inj hpost⟩
    · exact absurd hpost hbefore
  have hsame : ∀ {u : Store}, u.posts = t.posts → stateOf u post = stateOf t post := by
    intro u hu
    rw [stateOf, hu, stateOf]
  cases h with
  | drafted _ insert =>
    rw [stateOf_insert insert rfl, Function.update_apply] at hafter
    split at hafter
    · cases hafter
    · exact absurd hafter hbefore
  | @approved id _ _ _ _ row mem hid =>
    have hrow : stateOf t id ≠ none := by simp [← hid, stateOf_mem mem]
    obtain ⟨rfl, -⟩ := hset hrow rfl hafter
    exact .byStaff
  | @approvalRequested _ _ id _ _ _ row _ _ mem hid =>
    have hrow : stateOf t id ≠ none := by simp [← hid, stateOf_mem mem]
    by_cases hpending : row.state = .pendingApproval
    · exact absurd ((hsame (if_pos hpending)).symm.trans hafter) hbefore
    · obtain ⟨-, hstate⟩ := hset hrow (if_neg hpending) hafter
      cases hstate
  | @decided _ decision d _ _ _ request _ _ _ _ _ _ _ supported _ _ postRow =>
    obtain ⟨hpost, hstate⟩ := hset (by simp [stateOf, postRow]) rfl hafter
    cases decision with
    | approved =>
      cases supported
      exact .byLink hpost.symm rfl
    | changesRequested =>
      cases supported
      cases hstate
    | other => cases supported
  | _ => exact absurd hafter hbefore

/-- The event at which a post becomes approved approves it. -/
theorem SysStep.approves (hstep : SysStep env publisher s l s' o) {post : Uuid}
    (hbefore : stateOf s.store post ≠ some .approved)
    (hafter : stateOf s'.store post = some .approved) : Approves post o := by
  cases hstep with
  | committed _ effect => exact effect.approves hbefore hafter
  | claimed _ _ claimed => cases claimed; exact absurd hafter hbefore
  | finished _ finished => cases finished <;> exact absurd hafter hbefore
  | _ => exact absurd hafter hbefore

/-- The event at which a publication turns up schedules it, for an approved post. -/
theorem SysStep.schedules (hstep : SysStep env publisher s l s' o) (hs : SoundSys s) {q : Publication}
    (hnew : ∀ p ∈ s.store.publications, p.id ≠ q.id) (hq : q ∈ s'.store.publications) :
    Schedules q.id o ∧ ∃ v ∈ s.store.variants, v.id = q.postVariant ∧
      stateOf s.store v.post = some .approved := by
  have hsame : q ∈ s.store.publications → False := fun h => hnew q h rfl
  have hrewritten : ∀ {id f}, q ∈ s.store.publications.update id f → False := by
    intro id f h
    obtain ⟨p, hp, hid⟩ := Table.exists_key_of_mem_update h
    exact hnew p hp hid
  cases hstep with
  | committed ticket effect =>
    cases effect with
    | @scheduled call _ _ _ checked insert =>
      rcases (Table.mem_insert? insert).1 hq with hq | rfl
      · exact (hsame hq).elim
      · obtain ⟨-, hcall⟩ := hs.tickets _ _ ticket
        obtain ⟨p, hp, _, _, rfl, hstays⟩ := hcall.post
        obtain ⟨-, -, happroved, -⟩ := checkSchedule_eq_ok checked
        refine ⟨.scheduled rfl, call.postVariant, hcall.postVariant, rfl, ?_⟩
        rw [← hcall.postOf]
        exact (stateOf_mem hp).trans (congrArg some (hstays happroved))
    | _ => exact (hsame hq).elim
  | claimed _ _ claimed => cases claimed; exact (hrewritten hq).elim
  | finished _ finished => cases finished <;> exact (hrewritten hq).elim
  | _ => exact (hsame hq).elim

end Events

/-! ### From the draft to the publisher -/

/-- The rows a worker holds: a publication and its variant, as they are in the store. -/
theorem holds_postVariant {env : Env} {publisher : Option Publisher} {s : Sys}
    (h : Reachable (relay env publisher) s) {k : ℕ} {id : Uuid} {claim : Claim}
    (hk : s.Holds k id claim) : claim.postVariant ∈ s.store.variants ∧
      claim.postVariant.id = claim.publication.postVariant := by
  refine h.induct (I := fun s => ∀ k id claim, s.Holds k id claim →
    claim.postVariant ∈ s.store.variants ∧
      claim.postVariant.id = claim.publication.postVariant) ?_ ?_ k id claim hk
  · rintro _ ⟨tenants, brands, memberships, clock, rfl⟩ k id claim ⟨_, hworker, -⟩
    cases hworker
  · intro s e t _ hs hstep k id claim hk
    rcases (next_step hstep).holds hk with hk | ⟨-, -, started, attempt, hclaimed⟩
    · obtain ⟨hv, hid⟩ := hs k id claim hk
      obtain ⟨_, hv', rfl⟩ := (next_step hstep).evolves.variants _ hv
      exact ⟨hv', hid⟩
    · exact hclaimed.content.1

/-- The publisher is called with what was drafted, shown and approved: `es` are the events before,
from `s₀` on. -/
structure AsApproved (env : Env) (publisher : Option Publisher) (s₀ : Sys) (es : List (Label × Output))
    (signer : Signer) (claim : Claim) (media : List MediaAsset) (call : PublishCall)
    (payload : PostPayload) : Prop where
  /-- the content is that of the variant of the publication -/
  variant : claim.postVariant.id = claim.publication.postVariant
  /-- its post was drafted with this payload -/
  drafted : ∃ e ∈ es, Drafts claim.postVariant.post payload e.2
  body : call.body = payload.body
  images : media.map (·.id) = fromKeys payload.mediaAssetIds
  urls : imageUrls env.toSettings signer media = .ok call.imageUrls
  /-- every event that has shown the post has shown this -/
  shown : ∀ e ∈ es, ∀ d, Shows d e.2 → d.id = claim.postVariant.post →
    d.body = payload.body ∧ d.mediaAssetIds = fromKeys payload.mediaAssetIds
  /-- the post was approved before the publication was scheduled, and in every state since -/
  approved : ∃ es₁ e es₂ e' es₃, es = es₁ ++ e :: (es₂ ++ e' :: es₃) ∧
    Approves claim.postVariant.post e.2 ∧ Schedules claim.publication.id e'.2 ∧
    ∀ fs gs t, es₂ ++ e' :: es₃ = fs ++ gs → Trail (relay env publisher) s₀ (es₁ ++ e :: fs) t →
      stateOf t.store claim.postVariant.post = some .approved

/-- The arguments of the publisher. -/
theorem publishArguments_eq_ok {env : Env} {publisher : Option Publisher} {signer : Signer}
    {claim : Claim} {media : List MediaAsset} {call : PublishCall}
    (h : publishArguments env publisher signer claim media = .ok call) :
    call.body = claim.postVariant.body ∧ imageUrls env.toSettings signer media = .ok call.imageUrls := by
  unfold publishArguments at h
  split at h
  · cases h
  split at h
  · cases h
  split at h
  · cases h
  · cases hurls : imageUrls env.toSettings signer media with
    | error e => rw [hurls] at h; cases h
    | ok urls =>
      rw [hurls] at h
      cases h
      exact ⟨rfl, rfl⟩

/-- The call of a claim has the token and the connection of the claim. -/
theorem publishArguments_token {env : Env} {publisher : Option Publisher} {signer : Signer}
    {claim : Claim} {media : List MediaAsset} {call : PublishCall}
    (h : publishArguments env publisher signer claim media = .ok call) :
    call.connection = claim.channelConnection ∧
      decryptToken env claim.channelConnection.encryptedAccessToken = .ok call.accessToken := by
  unfold publishArguments at h
  split at h
  · cases h
  split at h
  · cases h
  split at h
  · cases h
  · rename_i token htoken
    obtain ⟨urls, -, h⟩ := bind_eq_ok.1 h
    cases h
    exact ⟨rfl, htoken⟩

section Runs

variable {env : Env} {publisher : Option Publisher} {s₀ s : Sys} {es : List (Label × Output)}
  {v : PostVariant}

/-- An approved post stays approved. -/
theorem Evolves.approved {t t' : Store} (h : Evolves t t') {post : Uuid}
    (hstate : stateOf t post = some .approved) : stateOf t' post = some .approved := by
  obtain ⟨p, hp, rfl, happroved⟩ := stateOf_eq_some hstate
  obtain ⟨_, hp', _, _, rfl, hstays⟩ := h.posts p hp
  exact (stateOf_mem hp').trans (congrArg some (hstays happroved))

/-- Every variant has its draft. -/
theorem exists_draft (h₀ : (relay env publisher).start s₀) (tr : Trail (relay env publisher) s₀ es s)
    (hv : v ∈ s.store.variants) : ∃ payload, (∃ e ∈ es, Drafts v.post payload e.2) ∧
      v.body = payload.body ∧ v.mediaAssets = fromKeys payload.mediaAssetIds := by
  have hnone : v ∉ s₀.store.variants := by
    obtain ⟨tenants, brands, memberships, clock, rfl⟩ := h₀
    exact Table.not_mem_empty v
  obtain ⟨es₁, e, es₂, a, b, rfl, -, ha, hstep, hb, -⟩ :=
    tr.exists_switch (P := fun s => v ∈ s.store.variants) hnone hv
  obtain ⟨payload, hdrafts, hcontent⟩ := (next_step hstep).drafts ha hb
  exact ⟨payload, ⟨e, by simp, hdrafts⟩, hcontent⟩

/-- Every event that has shown a post has shown its variant. -/
theorem shown_of_trail (h₀ : (relay env publisher).start s₀)
    (tr : Trail (relay env publisher) s₀ es s) (hv : v ∈ s.store.variants) {e : Label × Output}
    (he : e ∈ es) {d : PostData} (hd : Shows d e.2) (hpost : d.id = v.post) :
    d.body = v.body ∧ d.mediaAssetIds = v.mediaAssets := by
  obtain ⟨es₁, es₂, rfl⟩ := List.append_of_mem he
  obtain ⟨a, before, hrest⟩ := Trail.append_iff.1 tr
  obtain ⟨b, hstep, after⟩ := Trail.cons_iff.1 hrest
  have ha : Reachable (relay env publisher) a := ⟨s₀, es₁, h₀, before⟩
  have hb := ha.step hstep
  obtain ⟨w, hw, hwpost, hbody, himages⟩ := (next_step hstep).shows (composed_of_reachable ha)
    (composed_of_reachable hb) (coherent_of_reachable ha) (coherent_of_reachable hb) hd
  obtain ⟨_, hw', rfl⟩ := (Trail.evolves after).variants w hw
  have hwv := (composed_of_reachable (hb.trail after)).alone w hw' v hv (hwpost.trans hpost)
  exact hwv ▸ ⟨hbody, himages⟩

/-- The post of a publication was approved before, and ever since. -/
theorem exists_approval (h₀ : (relay env publisher).start s₀)
    (tr : Trail (relay env publisher) s₀ es s) {q : Publication} (hq : q ∈ s.store.publications)
    (hv : v ∈ s.store.variants) (hid : v.id = q.postVariant) :
    ∃ es₁ e es₂ e' es₃, es = es₁ ++ e :: (es₂ ++ e' :: es₃) ∧ Approves v.post e.2 ∧
      Schedules q.id e'.2 ∧ ∀ fs gs t, es₂ ++ e' :: es₃ = fs ++ gs →
        Trail (relay env publisher) s₀ (es₁ ++ e :: fs) t → stateOf t.store v.post = some .approved := by
  have hnone : (¬ ∃ p ∈ s₀.store.publications, p.id = q.id) ∧
      stateOf s₀.store v.post ≠ some .approved := by
    obtain ⟨tenants, brands, memberships, clock, rfl⟩ := h₀
    exact ⟨fun ⟨p, hp, _⟩ => Table.not_mem_empty p hp, (fun h => by cases h)⟩
  -- the publication turns up when it is scheduled
  obtain ⟨ds, e', es₃, a, b, rfl, before, ha, hstep, ⟨p, hp, hpq⟩, after⟩ :=
    tr.exists_switch (P := fun s => ∃ p ∈ s.store.publications, p.id = q.id) hnone.1 ⟨q, hq, rfl⟩
  have hreach : Reachable (relay env publisher) a := ⟨s₀, ds, h₀, before⟩
  obtain ⟨hschedules, w, hw, hwid, happroved⟩ := (next_step hstep).schedules (soundSys_of_reachable hreach)
    (fun p' hp' hid' => ha ⟨p', hp', hid'.trans hpq⟩) hp
  have hwv : w = v := by
    obtain ⟨_, hw', rfl⟩ := ((next_step hstep).evolves.trans (Trail.evolves after)).variants w hw
    obtain ⟨_, hp', _, _, _, _, _, _, rfl⟩ := (Trail.evolves after).publications p hp
    obtain rfl := Table.eq_of_key hp' hq hpq
    exact Table.eq_of_key hw' hv (hwid.trans hid.symm)
  subst hwv
  -- its post has become approved before
  obtain ⟨es₁, e, es₂, c, d, rfl, before', hc, hstep', hd, -⟩ :=
    before.exists_switch (P := fun s => stateOf s.store w.post = some .approved) hnone.2 happroved
  refine ⟨es₁, e, es₂, e', es₃, by simp, (next_step hstep').approves hc hd, hpq ▸ hschedules,
    fun fs gs t _ trail => ?_⟩
  obtain ⟨c', trail', hrest⟩ := Trail.append_iff.1 trail
  obtain ⟨d', hstep'', trail''⟩ := Trail.cons_iff.1 hrest
  have hdet : ∀ s e t t', (relay env publisher).step s e t → (relay env publisher).step s e t' → t = t' := by
    intro s e t t' h h'
    exact (Prod.mk.inj (Option.some.inj (h.symm.trans h'))).1
  obtain rfl := Trail.unique hdet before' trail'
  obtain rfl := hdet _ _ _ _ hstep' hstep''
  exact (Trail.evolves trail'').approved hd

end Runs

/-- **What is published is what was drafted, shown and approved.** -/
theorem published_as_approved {env : Env} {publisher : Option Publisher} {s₀ s s' : Sys}
    {es : List (Label × Output)} {l : Label} {claim : Claim} {media : List MediaAsset}
    {call : PublishCall} (h₀ : (relay env publisher).start s₀) (tr : Trail (relay env publisher) s₀ es s)
    (step : (relay env publisher).step s (l, .publishing claim media call) s') :
    ∃ k signer payload, l = .prepare k signer ∧
      AsApproved env publisher s₀ es signer claim media call payload := by
  have hreach : Reachable (relay env publisher) s := ⟨s₀, es, h₀, tr⟩
  have hstep := next_step step
  generalize ho : Output.publishing claim media call = o at hstep
  cases hstep with
  | @prepared k publication claim signer call worker arguments =>
    cases ho
    have hk : s.Holds k publication claim := ⟨_, worker, rfl⟩
    obtain ⟨hv, hid⟩ := holds_postVariant hreach hk
    obtain ⟨-, hheld⟩ := (delivering_of_reachable hreach).held _ _ _ hk
    obtain ⟨payload, hdrafted, hbody, himages⟩ := exists_draft h₀ tr hv
    obtain ⟨hcall, hurls⟩ := publishArguments_eq_ok arguments
    refine ⟨k, signer, payload, rfl, hid, hdrafted, hcall.trans hbody, ?_, hurls,
      fun e he d hd hpost => ?_, exists_approval h₀ tr hheld.publication hv hid⟩
    · rw [(composed_of_reachable hreach).images (coherent_of_reachable hreach) hv, himages]
    · rw [← hbody, ← himages]
      exact shown_of_trail h₀ tr hv he hd hpost
  | _ => cases ho

/-- A call of the publisher with the text of the draft. -/
def Sample.publishesHello : Output → Bool
  | .publishing _ _ call => call.body = "Hello"
  | _ => false

/-- A publication whose publisher is called. -/
theorem published_as_approved_sample : ∃ es signer claim media call payload, call.body = "Hello" ∧
    AsApproved Sample.env none Sample.start es signer claim media call payload := by
  obtain ⟨es, s, tr, hs⟩ := exists_of_execute
    (show ((execute Sample.env none (Sample.scheduled .metaFacebookPage ++ Sample.claiming 60000000 60)
      Sample.start).any fun x => (next Sample.env none x.2 (.prepare 0 (Sample.draws 0).signer)).any
        fun y => Sample.publishesHello y.2) = true by decide +kernel)
  obtain ⟨⟨s', o⟩, hstep, ho⟩ := (Option.any_eq_true _ _).1 hs
  cases o with
  | publishing claim media call =>
    obtain ⟨k, signer, payload, -, h⟩ := published_as_approved (Sample.start_isStart none) tr hstep
    exact ⟨es, signer, claim, media, call, payload, of_decide_eq_true ho, h⟩
  | _ => cases ho

end Relay
