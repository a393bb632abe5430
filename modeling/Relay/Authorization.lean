import Relay.Coherence
import Relay.Fingerprints

/-!
# Authorization

The filter on workspace and brands is written anew in every view, replays find their row by
tenant and key alone, and responses show rows that are reached through others.

* `Authorized`: workspace, role and scope behind a request that is not refused;
* `Row.Within`: the row belongs to the workspace of a principal and to one of its brands;
* `Fingerprinted`: what the fingerprint of a row says of its brand and its variant;
* `authorization_soundness`: what requests return, create and modify is within.
-/

namespace Relay

open Relational Sequence Transition

/-! ### Rows within reach -/

/-- A row of content. -/
inductive Row
  | post (row : Post)
  | variant (row : PostVariant)
  | asset (row : MediaAsset)
  | approval (row : ApprovalRequest)
  | publication (row : Publication)
  | connection (row : ChannelConnection)

/-- The row is in the store. -/
def Row.In (s : Store) : Row → Prop
  | post row => row ∈ s.posts
  | variant row => row ∈ s.variants
  | asset row => row ∈ s.assets
  | approval row => row ∈ s.approvals
  | publication row => row ∈ s.publications
  | connection row => row ∈ s.connections

/-- The row belongs to the workspace of the principal and to one of its brands there. -/
def Row.Within (p : RelayPrincipal) (s : Store) : Row → Prop
  | post row => p.Covers s row.tenant row.brand
  | variant row => ∃ q ∈ s.posts, q.id = row.post ∧ p.Covers s q.tenant q.brand
  | asset row => p.Covers s row.tenant row.brand
  | approval row => ∃ q ∈ s.posts, q.id = row.post ∧ row.brand = q.brand ∧ p.Covers s q.tenant q.brand
  | publication row => p.Covers s row.tenant row.brand
  | connection row => ∃ a ∈ s.accounts, a.id = row.socialAccount ∧ p.Covers s a.tenant a.brand

/-- The rows of the store that a response shows, by their identifiers or through a publication. -/
inductive Returned (s : Store) : Data → Row → Prop
  | post {data : Data} {d : PostData} {q : Post} (shown : data.Shows d) (mem : q ∈ s.posts)
      (id : q.id = d.id) : Returned s data (.post q)
  | postVariant {data : Data} {d : PostData} {v : PostVariant} (shown : data.Shows d)
      (mem : v ∈ s.variants) (id : d.defaultVariantId = some v.id) : Returned s data (.variant v)
  | postAsset {data : Data} {d : PostData} {a : MediaAsset} (shown : data.Shows d)
      (mem : a ∈ s.assets) (id : a.id ∈ d.mediaAssetIds) : Returned s data (.asset a)
  | asset {data : Data} {d : MediaAssetData} {a : MediaAsset} (shown : data.ShowsAsset d)
      (mem : a ∈ s.assets) (id : a.id = d.id) : Returned s data (.asset a)
  | approval {data : Data} {d : ApprovalRequestData} {r : ApprovalRequest}
      (shown : data.ShowsApproval d) (mem : r ∈ s.approvals) (id : r.id = d.id) :
      Returned s data (.approval r)
  | approvalPost {data : Data} {d : ApprovalRequestData} {q : Post} (shown : data.ShowsApproval d)
      (mem : q ∈ s.posts) (id : q.id = d.postId) : Returned s data (.post q)
  | publication {data : Data} {d : PublicationData} {q : Publication}
      (shown : data.ShowsPublication d) (mem : q ∈ s.publications) (id : q.id = d.id) :
      Returned s data (.publication q)
  | publicationVariant {data : Data} {d : PublicationData} {v : PostVariant}
      (shown : data.ShowsPublication d) (mem : v ∈ s.variants) (id : v.id = d.postVariantId) :
      Returned s data (.variant v)
  | publicationConnection {data : Data} {d : PublicationData} {c : ChannelConnection}
      (shown : data.ShowsPublication d) (mem : c ∈ s.connections) (id : c.id = d.channelConnectionId) :
      Returned s data (.connection c)
  | connection {data : List ChannelConnectionData} {d : ChannelConnectionData} {c : ChannelConnection}
      (shown : d ∈ data) (mem : c ∈ s.connections) (id : c.id = d.id) :
      Returned s (.connections data) (.connection c)
  | recent {data : SummaryData} {d : RecentPublication} {q : Publication}
      (shown : d ∈ data.recentPublications) (mem : q ∈ s.publications) (id : q.id = d.id) :
      Returned s (.summary data) (.publication q)
  | recentVariant {data : SummaryData} {d : RecentPublication} {q : Publication} {v : PostVariant}
      (shown : d ∈ data.recentPublications) (publication : q ∈ s.publications) (id : q.id = d.id)
      (mem : v ∈ s.variants) (variant : v.id = q.postVariant) : Returned s (.summary data) (.variant v)
  | recentPost {data : SummaryData} {d : RecentPublication} {q : Publication} {v : PostVariant}
      {post : Post} (shown : d ∈ data.recentPublications) (publication : q ∈ s.publications)
      (id : q.id = d.id) (variant : v ∈ s.variants ∧ v.id = q.postVariant) (mem : post ∈ s.posts)
      (of : post.id = v.post) : Returned s (.summary data) (.post post)
  | recentConnection {data : SummaryData} {d : RecentPublication} {q : Publication}
      {c : ChannelConnection} (shown : d ∈ data.recentPublications) (publication : q ∈ s.publications)
      (id : q.id = d.id) (mem : c ∈ s.connections) (connection : c.id = q.channelConnection) :
      Returned s (.summary data) (.connection c)

/-! ### What is reached through other rows -/

section Nested

variable {p : RelayPrincipal} {s : Store}

theorem mem_of_orderedMediaAssets {v : PostVariant} {a : MediaAsset} (hv : v ∈ s.variants)
    (h : a ∈ orderedMediaAssets s v) : a ∈ s.assets ∧ a.id ∈ v.mediaAssets := by
  have hattached : a ∈ attachedAssets s v.id := by
    unfold orderedMediaAssets at h
    rcases List.mem_append.1 h with h | h
    · exact mem_orderBy.1 (mem_of_mem_lookups h).1
    · exact mem_orderBy.1 (List.mem_of_mem_filter h)
  rw [attachedAssets_eq hv, Table.mem_where, decide_eq_true_iff] at hattached
  exact hattached

/-- The variant and the images that are shown of a post belong where it belongs. -/
theorem Coherent.postData_within (h : Coherent s) {q q' : Post} (hq : q ∈ s.posts)
    (hcovers : p.Covers s q.tenant q.brand) (hid : q'.id = q.id) :
    (∀ v ∈ s.variants, (postData s q').defaultVariantId = some v.id → Row.Within p s (.variant v)) ∧
      ∀ a ∈ s.assets, a.id ∈ (postData s q').mediaAssetIds → Row.Within p s (.asset a) := by
  have hdefault : ∀ w, defaultVariant s q'.id = some w → w ∈ s.variants ∧ w.post = q.id := by
    intro w hw
    have hmem := mem_orderBy.1 (List.mem_of_mem_head? hw)
    rw [Table.mem_where, decide_eq_true_iff] at hmem
    exact ⟨hmem.1, hmem.2.trans hid⟩
  refine ⟨fun v hv hvid => ?_, fun a ha haid => ?_⟩
  · obtain ⟨w, hw, hwid⟩ := Option.map_eq_some_iff.1 hvid
    obtain ⟨hwmem, hwpost⟩ := hdefault w hw
    obtain rfl : w = v := Table.eq_of_key hwmem hv hwid
    exact ⟨q, hq, hwpost.symm, hcovers⟩
  · unfold postData at haid
    cases hw : defaultVariant s q'.id with
    | none => rw [hw] at haid; cases haid
    | some w =>
      rw [hw] at haid
      obtain ⟨hwmem, hwpost⟩ := hdefault w hw
      obtain ⟨b, hb, hba⟩ := List.mem_map.1 haid
      obtain ⟨hbmem, hbw⟩ := mem_of_orderedMediaAssets hwmem hb
      obtain rfl : b = a := Table.eq_of_key hbmem ha hba
      obtain ⟨r, hr⟩ := h.variants w hwmem
      obtain rfl : r = q := Table.eq_of_key hr.post.1 hq (hr.post.2.trans hwpost)
      obtain ⟨c, hc, hcid, -, htenant, hbrand⟩ := hr.ready b.id hbw
      obtain rfl : c = b := Table.eq_of_key hc hbmem hcid
      change p.Covers s c.tenant c.brand
      rw [htenant, hbrand]
      exact hcovers

/-- Variant, post and connection of a publication belong where it belongs. -/
theorem Coherent.publication_within (h : Coherent s) {q : Publication} (hq : q ∈ s.publications)
    (hcovers : p.Covers s q.tenant q.brand) :
    (∀ v ∈ s.variants, v.id = q.postVariant → Row.Within p s (.variant v) ∧
      ∀ r ∈ s.posts, r.id = v.post → Row.Within p s (.post r)) ∧
    ∀ c ∈ s.connections, c.id = q.channelConnection → Row.Within p s (.connection c) := by
  obtain ⟨v, r, c, a, hcoherent⟩ := h.deliveries q hq
  have hr : p.Covers s r.tenant r.brand := by
    rw [hcoherent.postOwner.1, hcoherent.postOwner.2]
    exact hcovers
  refine ⟨fun v' hv' hid => ?_, fun c' hc' hid => ?_⟩
  · obtain rfl : v' = v := Table.eq_of_key hv' hcoherent.variant.1 (hid.trans hcoherent.variant.2.symm)
    refine ⟨⟨r, hcoherent.post.1, hcoherent.post.2, hr⟩, fun r' hr' hid' => ?_⟩
    obtain rfl : r' = r := Table.eq_of_key hr' hcoherent.post.1 (hid'.trans hcoherent.post.2.symm)
    exact hr
  · obtain rfl : c' = c :=
      Table.eq_of_key hc' hcoherent.connection.1 (hid.trans hcoherent.connection.2.symm)
    refine ⟨a, hcoherent.account.1, hcoherent.account.2, ?_⟩
    rw [hcoherent.accountOwner.1, hcoherent.accountOwner.2]
    exact hcovers

/-- The post that is shown is within. -/
def PostData.Within (p : RelayPrincipal) (s : Store) (d : PostData) : Prop :=
  ∃ q ∈ s.posts, p.Covers s q.tenant q.brand ∧ ∃ q' : Post, q'.id = q.id ∧ d = postData s q'

/-- The asset that is shown is within. -/
def MediaAssetData.Within (p : RelayPrincipal) (s : Store) (d : MediaAssetData) : Prop :=
  ∃ a ∈ s.assets, p.Covers s a.tenant a.brand ∧ d.id = a.id

/-- The approval request that is shown is within. -/
def ApprovalRequestData.Within (p : RelayPrincipal) (s : Store) (d : ApprovalRequestData) : Prop :=
  ∃ r ∈ s.approvals, Row.Within p s (.approval r) ∧ d.id = r.id ∧ d.postId = r.post

/-- The publication that is shown is within. -/
def PublicationData.Within (p : RelayPrincipal) (s : Store) (d : PublicationData) : Prop :=
  ∃ q ∈ s.publications, p.Covers s q.tenant q.brand ∧ d = publicationData q

/-- The rows a response shows directly are within. -/
def Confined (p : RelayPrincipal) (s : Store) : Data → Prop
  | .summary data => ∀ r ∈ data.recentPublications, ∃ q ∈ s.publications,
      p.Covers s q.tenant q.brand ∧ r.id = q.id
  | .posts data => ∀ d ∈ data, d.Within p s
  | .post data => data.Within p s
  | .uploadIntent asset _ _ => asset.Within p s
  | .mediaAsset data => data.Within p s
  | .approvalLink data _ => data.Within p s
  | .approvalPage data post => data.Within p s ∧ post.Within p s
  | .approvalRequest data => data.Within p s
  | .publications data => ∀ d ∈ data, d.Within p s
  | .publication data => data.Within p s
  | .connections data => ∀ d ∈ data, ∃ c ∈ s.connections, Row.Within p s (.connection c) ∧ d.id = c.id
  | .authorization _ => True
  | .noContent => True

theorem Confined.post {data : Data} (h : Confined p s data) {d : PostData} (hd : data.Shows d) :
    d.Within p s := by
  cases data with
  | posts => exact h d hd
  | post => exact hd ▸ h
  | approvalPage => exact hd ▸ h.2
  | _ => exact hd.elim

theorem Confined.asset {data : Data} (h : Confined p s data) {d : MediaAssetData}
    (hd : data.ShowsAsset d) : d.Within p s := by
  cases data with
  | uploadIntent | mediaAsset => exact hd ▸ h
  | _ => exact hd.elim

theorem Confined.approval {data : Data} (h : Confined p s data) {d : ApprovalRequestData}
    (hd : data.ShowsApproval d) : d.Within p s := by
  cases data with
  | approvalLink | approvalRequest => exact hd ▸ h
  | approvalPage => exact hd ▸ h.1
  | _ => exact hd.elim

theorem Confined.publication {data : Data} (h : Confined p s data) {d : PublicationData}
    (hd : data.ShowsPublication d) : d.Within p s := by
  cases data with
  | publications => exact h d hd
  | publication => exact hd ▸ h
  | _ => exact hd.elim

/-- Then every row it shows is within. -/
theorem Confined.within {data : Data} (h : Confined p s data) (hs : Coherent s) {row : Row}
    (hrow : Returned s data row) : row.Within p s := by
  cases hrow with
  | post shown mem id =>
    obtain ⟨q, hq, hcovers, q', hid, rfl⟩ := h.post shown
    obtain rfl := Table.eq_of_key mem hq (id.trans hid)
    exact hcovers
  | postVariant shown mem id =>
    obtain ⟨q, hq, hcovers, q', hid, rfl⟩ := h.post shown
    exact (hs.postData_within hq hcovers hid).1 _ mem id
  | postAsset shown mem id =>
    obtain ⟨q, hq, hcovers, q', hid, rfl⟩ := h.post shown
    exact (hs.postData_within hq hcovers hid).2 _ mem id
  | asset shown mem id =>
    obtain ⟨a, ha, hcovers, hid⟩ := h.asset shown
    obtain rfl := Table.eq_of_key mem ha (id.trans hid)
    exact hcovers
  | approval shown mem id =>
    obtain ⟨r, hr, hwithin, hid, -⟩ := h.approval shown
    obtain rfl := Table.eq_of_key mem hr (id.trans hid)
    exact hwithin
  | approvalPost shown mem id =>
    obtain ⟨r, hr, ⟨q, hq, hqid, -, hcovers⟩, -, hid⟩ := h.approval shown
    obtain rfl := Table.eq_of_key mem hq (id.trans (hid.trans hqid.symm))
    exact hcovers
  | publication shown mem id =>
    obtain ⟨q, hq, hcovers, rfl⟩ := h.publication shown
    obtain rfl := Table.eq_of_key mem hq id
    exact hcovers
  | publicationVariant shown mem id =>
    obtain ⟨q, hq, hcovers, rfl⟩ := h.publication shown
    exact ((hs.publication_within hq hcovers).1 _ mem id).1
  | publicationConnection shown mem id =>
    obtain ⟨q, hq, hcovers, rfl⟩ := h.publication shown
    exact (hs.publication_within hq hcovers).2 _ mem id
  | connection shown mem id =>
    obtain ⟨c, hc, hwithin, hid⟩ := h _ shown
    obtain rfl := Table.eq_of_key mem hc (id.trans hid)
    exact hwithin
  | recent shown mem id =>
    obtain ⟨q, hq, hcovers, hid⟩ := h _ shown
    obtain rfl := Table.eq_of_key mem hq (id.trans hid)
    exact hcovers
  | recentVariant shown publication id mem variant =>
    obtain ⟨q, hq, hcovers, hid⟩ := h _ shown
    obtain rfl := Table.eq_of_key publication hq (id.trans hid)
    exact ((hs.publication_within hq hcovers).1 _ mem variant).1
  | recentPost shown publication id variant mem of =>
    obtain ⟨q, hq, hcovers, hid⟩ := h _ shown
    obtain rfl := Table.eq_of_key publication hq (id.trans hid)
    exact ((hs.publication_within hq hcovers).1 _ variant.1 variant.2).2 _ mem of
  | recentConnection shown publication id mem connection =>
    obtain ⟨q, hq, hcovers, hid⟩ := h _ shown
    obtain rfl := Table.eq_of_key publication hq (id.trans hid)
    exact (hs.publication_within hq hcovers).2 _ mem connection

end Nested

/-! ### Answers -/

section Answers

variable {p : RelayPrincipal} {s : Store}

theorem RelayPrincipal.SeesPost.covers {q : Post} (h : p.SeesPost s q) (hs : Coherent s) :
    p.Covers s q.tenant q.brand := ⟨h.tenant, h.brand, hs.posts q h.mem⟩

theorem RelayPrincipal.SeesPublication.covers {q : Publication} (h : p.SeesPublication s q)
    (hs : Coherent s) : p.Covers s q.tenant q.brand := ⟨h.tenant, h.brand, hs.publications q h.mem⟩

theorem RelayPrincipal.SeesConnection.within {c : ChannelConnection} {a : SocialAccount}
    (h : p.SeesConnection s c a) (hs : Coherent s) : Row.Within p s (.connection c) :=
  ⟨a, h.account.1, h.account.2, h.tenant, h.brand, hs.accounts a h.account.1⟩

/-- The recent publications of the summary are among those the principal sees. -/
theorem exists_of_recentPublications {tenant : Tenant} {now : Time} {r : RecentPublication}
    (hid : tenant.id = p.workspaceId) (h : r ∈ (panelSummary p tenant now s).recentPublications) :
    ∃ q, p.SeesPublication s q ∧ r.id = q.id := by
  obtain ⟨q, hq, hr⟩ := List.mem_filterMap.1 (List.mem_of_mem_take h)
  refine ⟨q, sees_of_visiblePublications hid (mem_orderBy.1 hq), ?_⟩
  unfold recentPublication at hr
  simp only [Option.bind_eq_bind, Option.bind_eq_some_iff] at hr
  obtain ⟨v, -, post, -, c, -, hr⟩ := hr
  cases hr
  rfl

theorem Answered.confined {now : Time} {data : Data} (h : Answered p now s data) (hs : Coherent s) :
    Confined p s data := by
  have hposts : ∀ q, p.SeesPost s q → (postData s q).Within p s :=
    fun q hq => ⟨q, hq.mem, hq.covers hs, q, rfl, rfl⟩
  have hpublications : ∀ q, p.SeesPublication s q → (publicationData q).Within p s :=
    fun q hq => ⟨q, hq.mem, hq.covers hs, rfl⟩
  cases h with
  | summary hid =>
    intro r hr
    obtain ⟨q, hq, hrid⟩ := exists_of_recentPublications hid hr
    exact ⟨q, hq.mem, hq.covers hs, hrid⟩
  | posts sees =>
    intro d hd
    obtain ⟨q, hq, rfl⟩ := List.mem_map.1 hd
    exact hposts q (sees q hq)
  | post sees => exact hposts _ sees
  | publications sees =>
    intro d hd
    obtain ⟨q, hq, rfl⟩ := List.mem_map.1 hd
    exact hpublications q (sees q hq)
  | publication sees => exact hpublications _ sees
  | connections sees =>
    intro d hd
    obtain ⟨c, hc, rfl⟩ := List.mem_map.1 hd
    exact ⟨c.1, (sees c hc).connection, (sees c hc).within hs, rfl⟩

end Answers

/-! ### Fingerprints -/

/-- A row with a fingerprint has the brand, or the variant, that the fingerprint is of. -/
structure Fingerprinted (env : Env) (s : Store) : Prop where
  posts : ∀ q ∈ s.posts, ∃ payload : PostPayload,
    q.requestFingerprint = requestFingerprint env payload.toFields ∧ q.brand = payload.brandId
  publications : ∀ q ∈ s.publications, ∃ call : ScheduleCall,
    q.requestFingerprint = requestFingerprint env call.payload ∧ q.postVariant = call.postVariant.id

theorem Fingerprinted.step {env : Env} {A : Store → Command → Prop} {s s' : Store}
    (h : Fingerprinted env s) (hA : ∀ c, A s c → Sound s c) (hstep : StoreStep env A s s') :
    Fingerprinted env s' where
  posts q hq := by
    rcases hstep.post_origin hq with ⟨p, hp, _, _, rfl, -⟩ | ⟨_, _, _, _, _, _, _, hadmitted, rfl⟩
    · exact h.posts p hp
    · exact ⟨_, rfl, (hA _ hadmitted).2⟩
  publications q hq := by
    rcases hstep.publication_origin hq with
      ⟨p, hp, _, _, _, _, _, _, rfl⟩ | ⟨_, _, _, -, -, rfl⟩
    · exact h.publications p hp
    · exact ⟨_, rfl, rfl⟩

theorem fingerprinted_of_reachable {env : Env} {publisher : Option Publisher} {s : Sys}
    (h : Reachable (relay env publisher) s) : Fingerprinted env s.store := by
  refine h.induct (I := fun s => Fingerprinted env s.store) ?_ fun s e t hr hs hstep => ?_
  · rintro _ ⟨tenants, brands, memberships, clock, rfl⟩
    exact ⟨fun q hq => absurd hq (Table.not_mem_empty q), fun q hq => absurd hq (Table.not_mem_empty q)⟩
  · rcases (next_step hstep).store with hsame | hcommit
    · exact hsame ▸ hs
    · exact hs.step (fun c ⟨k, hk⟩ => (soundSys_of_reachable hr).tickets k _ hk) hcommit

/-! ### Commands -/

/-- The row a reply is about. -/
def Reply.row : Reply → Option Row
  | uploadIntent intent => some (.asset intent.asset)
  | confirmed row => some (.asset row)
  | post result => some (.post result.post)
  | approved row => some (.post row)
  | approvalLink link => some (.approval link.request)
  | decided row => some (.approval row)
  | revoked row => some (.approval row)
  | publication result => some (.publication result.publication)
  | authorization _ => none
  | oauthState _ => none
  | socialAccount _ => none

section Commands

variable {env : Env} {w : World} {p : RelayPrincipal} {c : Command} {r : Reply} {s₀ s t : Store}

/-- The rows that a commit creates or modifies, and the row it replies, are within. -/
structure CommitsWithin (p : RelayPrincipal) (r : Reply) (s t : Store) : Prop where
  written : ∀ row : Row, row.In t → ¬ row.In s → row.Within p t
  replied : ∀ row, r.row = some row → row.In t ∧ row.Within p t

/-- A post that is written by setting its state has the owner it had. -/
theorem covers_of_setPostState {now : Time} {post : Uuid} {state : LifecycleState} {row q : Post}
    (hrow : row ∈ s.posts) (hid : row.id = post) (covers : p.Covers t row.tenant row.brand)
    (hin : q ∈ (s.setPostState now post state).posts) (hout : q ∉ s.posts) :
    p.Covers t q.tenant q.brand := by
  subst hid
  rcases Table.of_mem_update hrow hin with rfl | ⟨hq, -⟩
  · exact covers
  · exact absurd hq hout

/-- A service that changes nothing. -/
theorem CommitsWithin.same (h : ∀ row, r.row = some row → row.In s ∧ row.Within p s) :
    CommitsWithin p r s s := ⟨fun _ hin hout => absurd hin hout, h⟩

/-- The post of a repeated request has the brand of the request. -/
theorem covers_of_draftReplayed {tenant : Uuid} {key : String} {payload : PostPayload} {row : Post}
    (hf : Fingerprinted env s) (hsha : Function.Injective env.sha256)
    (covers : p.Covers s tenant payload.brandId) (found : findPost tenant key s = some row)
    (same : row.requestFingerprint = requestFingerprint env payload.toFields) :
    row ∈ s.posts ∧ p.Covers s row.tenant row.brand := by
  have hmem : row ∈ s.posts := Table.mem_of_find? found
  obtain ⟨htenant, -⟩ : row.tenant = _ ∧ row.idempotencyKey = _ := by
    simpa using Table.find?_some found
  obtain ⟨stored, hstored, hbrand⟩ := hf.posts row hmem
  obtain rfl := PostPayload.eq_of_requestFingerprint hsha (hstored.symm.trans same)
  refine ⟨hmem, ?_⟩
  rw [htenant, hbrand]
  exact covers

/-- The publication of a repeated request is of the post of the request. -/
theorem covers_of_publicationReplayed {call : ScheduleCall} {row : Publication} (hs₀ : Evolves s₀ s)
    (hs : Coherent s) (hf : Fingerprinted env s) (hsha : Function.Injective env.sha256)
    (loaded : Loaded s₀ call) (covers : p.Covers s call.tenant call.brand)
    (postOwner : call.post.tenant = call.tenant ∧ call.post.brand = call.brand)
    (hmem : row ∈ s.publications)
    (same : row.requestFingerprint = requestFingerprint env call.payload) :
    p.Covers s row.tenant row.brand := by
  obtain ⟨stored, hstored, hvariant⟩ := hf.publications row hmem
  obtain ⟨hid, -⟩ := RequestPayload.schedule.inj
    (ScheduleCall.eq_of_requestFingerprint hsha (hstored.symm.trans same))
  -- the variant of the stored publication is the one asked for, and so is its post
  obtain ⟨v, q, c, a, hcoherent⟩ := hs.deliveries row hmem
  obtain ⟨_, hv, rfl⟩ := hs₀.variants _ loaded.postVariant
  obtain ⟨_, hq, _, _, rfl, -⟩ := hs₀.posts _ loaded.post
  obtain rfl := Table.eq_of_key hcoherent.variant.1 hv (hcoherent.variant.2.trans (hvariant.trans hid))
  obtain rfl := Table.eq_of_key hcoherent.post.1 hq (hcoherent.post.2.trans loaded.postOf.symm)
  rw [← hcoherent.postOwner.1, ← hcoherent.postOwner.2]
  change p.Covers s call.post.tenant call.post.brand
  rw [postOwner.1, postOwner.2]
  exact covers

/-- The post of a link, whatever becomes of the link. -/
theorem within_of_link {request row : ApprovalRequest} (hs₀ : Evolves s₀ s) (hs : Coherent s)
    (mem : request ∈ s₀.approvals) (brand : request.brand ∈ p.brandIds) (row_mem : row ∈ s.approvals)
    (row_id : row.id = request.id)
    (owner : ∃ b, s.brands.get? row.brand = some b ∧ b.workspace = p.workspaceId)
    {row' : ApprovalRequest} (hst : Evolves s t) (hpost : row'.post = row.post)
    (hbrand' : row'.brand = row.brand) : Row.Within p t (.approval row') := by
  obtain ⟨b, hb, hworkspace⟩ := owner
  obtain ⟨hbmem, hbid⟩ := Table.get?_eq_some.1 hb
  -- the link is the one the view has loaded
  have hbrand : row.brand = request.brand := by
    obtain ⟨_, hrequest, _, _, _, _, rfl, -⟩ := hs₀.approvals request mem
    rw [Table.eq_of_key row_mem hrequest row_id]
  obtain ⟨q, hq, hqid, hqbrand⟩ := hs.approvals row row_mem
  obtain ⟨b', hb', hbid', hworkspace'⟩ := hs.posts q hq
  obtain rfl : b' = b := Table.eq_of_key hb' hbmem (hbid'.trans (hqbrand.symm.trans hbid.symm))
  have hcovers : p.Covers s q.tenant q.brand :=
    ⟨hworkspace'.symm.trans hworkspace, hqbrand ▸ hbrand ▸ brand, b', hb', hbid', hworkspace'⟩
  obtain ⟨_, hq', _, _, rfl, -⟩ := hst.posts q hq
  exact ⟨_, hq', hqid.trans hpost.symm, hbrand'.trans hqbrand, hcovers.mono hst⟩

/-- **The transaction of an admitted command stays within.** -/
theorem Effect.within (h : Effect env w c r s t) (hadmitted : Admitted p s₀ c) (hs₀ : Evolves s₀ s)
    (hs : Coherent s) (hf : Fingerprinted env s) (hsha : Function.Injective env.sha256) :
    CommitsWithin p r s t := by
  have ht : Evolves s₀ t := hs₀.trans h.evolves
  have hst : Evolves s t := h.evolves
  cases hadmitted with
  | createMediaUploadIntent covers =>
    cases h with
    | uploadIntended _ _ insert =>
      refine ⟨?_, ?_⟩
      · rintro (x | x | x | x | x | x) hin hout
        case asset =>
          obtain rfl := Table.eq_of_mem_insert? insert hin hout
          exact covers.mono ht
        all_goals exact absurd hin hout
      · rintro _ ⟨⟩
        exact ⟨Table.mem_self_insert? insert, covers.mono ht⟩
  | @confirmMediaUpload asset _ _ mem owner brand =>
    have hcovers : ∀ a ∈ s.assets, a.id = asset.id → p.Covers s a.tenant a.brand := by
      intro a ha hid
      have hprovisioned := hs.assets a ha
      obtain ⟨_, ha', _, _, rfl, -⟩ := hs₀.assets asset mem
      obtain rfl := Table.eq_of_key ha ha' hid
      exact ⟨owner, brand, hprovisioned⟩
    cases h with
    | alreadyConfirmed mem id =>
      refine .same ?_
      rintro _ ⟨⟩
      exact ⟨mem, hcovers _ mem id⟩
    | confirmed mem id =>
      refine ⟨?_, ?_⟩
      · rintro (x | x | x | x | x | x) hin hout
        case asset =>
          obtain rfl := Table.eq_of_mem_update mem (id ▸ hin) hout
          exact (hcovers _ mem id).mono hst
        all_goals exact absurd hin hout
      · rintro _ ⟨⟩
        exact ⟨id ▸ Table.mem_update_self mem rfl, (hcovers _ mem id).mono hst⟩
  | createPostDraft covers =>
    cases h with
    | draftReplayed found same =>
      refine .same ?_
      rintro _ ⟨⟩
      exact covers_of_draftReplayed hf hsha (covers.mono hs₀) found same
    | drafted _ insert _ insertVariant =>
      refine ⟨?_, ?_⟩
      · rintro (x | x | x | x | x | x) hin hout
        case post =>
          obtain rfl := Table.eq_of_mem_insert? insert hin hout
          exact covers.mono ht
        case variant =>
          obtain rfl := Table.eq_of_mem_insert? insertVariant hin hout
          exact ⟨_, Table.mem_self_insert? insert, rfl, covers.mono ht⟩
        all_goals exact absurd hin hout
      · rintro _ ⟨⟩
        exact ⟨Table.mem_self_insert? insert, covers.mono ht⟩
  | approvePost covers =>
    cases h with
    | alreadyApproved mem id owner =>
      obtain ⟨rfl, rfl⟩ := owner
      refine .same ?_
      rintro _ ⟨⟩
      exact ⟨mem, covers.mono hs₀⟩
    | approved mem id owner =>
      obtain ⟨rfl, rfl⟩ := owner
      refine ⟨?_, ?_⟩
      · rintro (x | x | x | x | x | x) hin hout
        case post =>
          exact covers_of_setPostState mem id (covers.mono ht) hin hout
        all_goals exact absurd hin hout
      · rintro _ ⟨⟩
        exact ⟨id ▸ Table.mem_update_self mem rfl, covers.mono ht⟩
  | requestApproval covers =>
    cases h with
    | @approvalRequested _ _ _ _ _ _ row _ request mem id owner _ request_eq _ insert =>
      obtain ⟨rfl, rfl⟩ := owner
      have hpost : request.post = row.id ∧ request.brand = row.brand := by
        rw [request_eq, ← id]
        exact ⟨rfl, rfl⟩
      obtain ⟨row', hrow', _, _, hbecomes, -⟩ := hst.posts row mem
      have hwithin : Row.Within p _ (.approval request) :=
        ⟨row', hrow', by rw [hbecomes, hpost.1], by rw [hbecomes, hpost.2], by
          rw [hbecomes]
          exact covers.mono ht⟩
      refine ⟨?_, ?_⟩
      · rintro (x | x | x | x | x | x) hin hout
        case post =>
          change x ∈ ite _ _ _ at hin
          split at hin
          · exact absurd hin hout
          · exact covers_of_setPostState mem id (covers.mono ht) hin hout
        case approval =>
          obtain rfl := Table.eq_of_mem_insert? insert hin hout
          exact hwithin
        all_goals exact absurd hin hout
      · rintro _ ⟨⟩
        exact ⟨Table.mem_self_insert? insert, hwithin⟩
  | @revokeApproval request subject mem brand =>
    cases h with
    | revoked row_mem row_id owner =>
      refine ⟨?_, ?_⟩
      · rintro (x | x | x | x | x | x) hin hout
        case approval =>
          obtain rfl := Table.eq_of_mem_update row_mem (row_id ▸ hin) hout
          exact within_of_link hs₀ hs mem brand row_mem row_id owner hst rfl rfl
        all_goals exact absurd hin hout
      · rintro _ ⟨⟩
        exact ⟨row_id ▸ Table.mem_update_self row_mem rfl,
          within_of_link hs₀ hs mem brand row_mem row_id owner hst rfl rfl⟩
  | @schedulePublication call loaded covers postOwner =>
    cases h with
    | publicationReplayed found same =>
      refine .same ?_
      rintro _ ⟨⟩
      have hmem := Table.mem_of_find? found
      exact ⟨hmem, covers_of_publicationReplayed hs₀ hs hf hsha loaded (covers.mono hs₀) postOwner
        hmem same⟩
    | scheduled _ _ insert =>
      refine ⟨?_, ?_⟩
      · rintro (x | x | x | x | x | x) hin hout
        case publication =>
          obtain rfl := Table.eq_of_mem_insert? insert hin hout
          exact covers.mono ht
        all_goals exact absurd hin hout
      · rintro _ ⟨⟩
        exact ⟨Table.mem_self_insert? insert, covers.mono ht⟩
  | startMetaOAuth covers =>
    cases h with
    | oauthStarted =>
      refine ⟨fun x hin hout => ?_, fun _ hrow => (by cases hrow)⟩
      cases x <;> exact absurd hin hout

/-- A response shows the row that the reply is about. -/
theorem CommitsWithin.confined (h : CommitsWithin p r s t) {a : Response}
    (hr : respond t r = some (.ok a)) : Confined p t a.data := by
  have hrow := h.replied
  cases r with
  | uploadIntent | confirmed =>
    cases hr
    obtain ⟨hin, hwithin⟩ := hrow _ rfl
    exact ⟨_, hin, hwithin, rfl⟩
  | post | approved =>
    cases hr
    obtain ⟨hin, hwithin⟩ := hrow _ rfl
    exact ⟨_, hin, hwithin, _, rfl, rfl⟩
  | approvalLink | decided =>
    cases hr
    obtain ⟨hin, hwithin⟩ := hrow _ rfl
    exact ⟨_, hin, hwithin, rfl, rfl⟩
  | publication =>
    cases hr
    obtain ⟨hin, hwithin⟩ := hrow _ rfl
    exact ⟨_, hin, hwithin, rfl⟩
  | revoked | authorization =>
    cases hr
    trivial
  | oauthState | socialAccount => cases hr

end Commands

/-! ### Requests -/

/-- The workspace of the principal is active, its subject has a role there that the view allows for
the method, and it has the scope that the view requires for it. -/
structure Authorized (p : RelayPrincipal) (r : ApiRequest) (s : Store) : Prop where
  workspace : ∃ t ∈ s.tenants, t.id = p.workspaceId ∧ t.isActive = true
  role : ∃ roles, r.route.1.rolesFor r.route.2 = some roles ∧ ∃ m ∈ s.memberships,
    m.workspace = p.workspaceId ∧ m.subject = p.subject ∧ m.isActive = true ∧ m.role ∈ roles
  scope : ∃ scope, r.route.1.scopeFor r.route.2 = some scope ∧ scope ∈ p.scopes

/-- Every route names a scope and the roles that may use it. -/
theorem exists_policy (r : ApiRequest) : ∃ scope roles,
    r.route.1.scopeFor r.route.2 = some scope ∧ r.route.1.rolesFor r.route.2 = some roles := by
  cases r <;> exact ⟨_, _, rfl, rfl⟩

theorem admitRequest_authorized {env : Env} {now : Time} {credential : Credential} {r : ApiRequest}
    {s : Store} {p : RelayPrincipal} {a : Admission}
    (h : admitRequest env now credential r s = .ok (p, a)) : Authorized p r s := by
  obtain ⟨-, hpermission, hhandle⟩ := admitRequest_eq_ok h
  obtain ⟨⟨tenant, htenant⟩, -⟩ := handle_eq_ok hhandle
  obtain ⟨scope, roles, hscope, hroles⟩ := exists_policy r
  unfold hasRelayScope at hpermission
  rw [hscope, hroles, Bool.and_eq_true, Option.all_some, Option.all_some, decide_eq_true_iff]
    at hpermission
  obtain ⟨m, hm⟩ := Option.isSome_iff_exists.1 hpermission.2
  have hmember := Table.find?_some hm
  simp only [Bool.and_eq_true, decide_eq_true_eq] at hmember
  obtain ⟨⟨⟨hworkspace, hsubject⟩, hrole⟩, hactive⟩ := hmember
  exact ⟨⟨tenant, getTenant_eq_ok htenant⟩,
    ⟨roles, hroles, m, Table.mem_of_find? hm, hworkspace, hsubject, hactive, hrole⟩,
    ⟨scope, hscope, hpermission.1⟩⟩

/-- **Authorization soundness.**  A request that is not refused is authorized.  What it answers is
within reach of its principal; and if it runs a command, at whatever later state, so are the rows
that the command creates or modifies and those that its response shows. -/
theorem authorization_soundness {env : Env} {publisher : Option Publisher}
    (hsha : Function.Injective env.sha256) {s : Sys} (hs : Reachable (relay env publisher) s)
    {credential : Credential} {request : ApiRequest} {p : RelayPrincipal} {a : Admission}
    (h : admitRequest env s.clock credential request s.store = .ok (p, a)) :
    Authorized p request s.store ∧
      (∀ response, a = .answer response →
        ∀ row, Returned s.store response.data row → row.Within p s.store) ∧
      ∀ c, a = .command c → ∀ es s', Trail (relay env publisher) s es s' →
        ∀ w reply t, runCommand env w c s'.store = .ok (reply, t) →
          (∀ row : Row, row.In t → ¬ row.In s'.store → row.Within p t) ∧
          ∀ response, respond t reply = some (.ok response) →
            ∀ row, Returned t response.data row → row.Within p t := by
  obtain ⟨-, -, hhandle⟩ := admitRequest_eq_ok h
  refine ⟨admitRequest_authorized h, ?_, ?_⟩
  · rintro response rfl row hrow
    have hcoherent := coherent_of_reachable hs
    exact ((handle_answered hhandle).confined hcoherent).within hcoherent hrow
  · rintro c rfl es s' tr w reply t hrun
    have hadmitted := handle_admitted hhandle
    have hreach := hs.trail tr
    have hevolves := Trail.evolves tr
    have heffect := runCommand_effect hrun
    have hcoherent : Coherent t := by
      refine (coherent_of_reachable hreach).step (A := fun _ c' => c' = c) ?_ (.command rfl heffect)
      rintro _ rfl
      exact hadmitted.sound.mono hevolves
    have hwithin := heffect.within hadmitted hevolves (coherent_of_reachable hreach)
      (fingerprinted_of_reachable hreach) hsha
    exact ⟨hwithin.written, fun response hr row => (hwithin.confined hr).within hcoherent⟩

/-- The owner of the workspace reads a post. -/
theorem authorization_soundness_sample : ∃ (s : Sys) (p : RelayPrincipal),
    p.workspaceId = Sample.workspace ∧ Authorized p (.getPost Sample.post) s.store := by
  obtain ⟨es, s, tr, hs⟩ := exists_of_execute
    (show ((execute Sample.env none Sample.drafting Sample.start).any fun x =>
      match admitRequest Sample.env x.2.clock (.panel 1 none) (.getPost Sample.post) x.2.store with
      | .ok (p, _) => p.workspaceId = Sample.workspace
      | .error _ => false) = true by decide +kernel)
  have hreach : Reachable (relay Sample.env none) s := ⟨_, es, Sample.start_isStart none, tr⟩
  cases h : admitRequest Sample.env s.clock (.panel 1 none) (.getPost Sample.post) s.store with
  | error e => simp [h] at hs
  | ok x =>
    obtain ⟨p, a⟩ := x
    simp only [h, decide_eq_true_eq] at hs
    exact ⟨s, p, hs, (authorization_soundness Sample.sha256_injective hreach h).1⟩

end Relay
