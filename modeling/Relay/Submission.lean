import Relay.Carousel
import Relay.Vault

/-!
# One item of a manifest

The requests of `Submit-RelayItem` against a server in good health: images, draft, approval and a
publication for each connection.

* `createPost_returns`, `approvePost_returns`, `createPublication_returns`: one request each;
* `Submitted`: the post of an item and its publications are in the store;
* `submitItem_returns`: an item whose keys are unused is submitted;
* `submitItem_raises`: an item that has its post already is refused.
-/

namespace Relay

open Relational Sequence Transition Exchange

/-! ### Keys -/

section Keys

variable {env : Env}

theorem relayIdempotencyKey_injective (hsha : Function.Injective env.sha256) {kind value value' : String}
    (h : relayIdempotencyKey env kind value = relayIdempotencyKey env kind value') :
    value = value' := by
  have hdigest : env.sha256 (kind ++ ":" ++ value) = env.sha256 (kind ++ ":" ++ value') :=
    (String.append_right_inj _).1 h
  exact (String.append_right_inj _).1 (hsha hdigest)

theorem notMem_toString {x : Char} (hx : x.isDigit = false) (n : ℕ) : x ∉ (toString n).toList := by
  intro h
  have hdigits : x ∈ Nat.toDigits 10 n := by
    rw [← Nat.toList_repr]
    exact h
  have hdigit := Nat.isDigit_of_mem_toDigits (by decide) (by decide) hdigits
  rw [hx] at hdigit
  cases hdigit

/-- The number of a connection is what follows the last colon. -/
theorem publicationKey_injective (hsha : Function.Injective env.sha256) {itemKey itemKey' : String}
    {i j : ℕ} (h : publicationKey env itemKey i = publicationKey env itemKey' j) :
    itemKey = itemKey' ∧ i = j := by
  have hchars := congrArg String.toList (relayIdempotencyKey_injective hsha h)
  simp only [String.toList_append, List.append_assoc] at hchars
  obtain ⟨hkey, hindex⟩ := Text.append_separator_inj (notMem_toString rfl i) (notMem_toString rfl j)
    hchars
  have hdigits : Nat.toDigits 10 i = Nat.toDigits 10 j := by
    rw [← Nat.toList_repr, ← Nat.toList_repr]
    exact hindex
  refine ⟨String.toList_inj.1 hkey, ?_⟩
  rw [← Nat.ofDigitChars_ten_toDigits (n := i), hdigits, Nat.ofDigitChars_ten_toDigits]

/-- The keys of the script are accepted, unless they are too long. -/
theorem idempotencyHeader_of {kind value : String}
    (hlength : (relayIdempotencyKey env kind value).length ≤ 255) :
    idempotencyHeader (some (relayIdempotencyKey env kind value)) =
      .ok (relayIdempotencyKey env kind value) := by
  have hne : relayIdempotencyKey env kind value ≠ "" := by
    intro heq
    have hlist := congrArg String.toList heq
    simp [relayIdempotencyKey] at hlist
  exact if_neg (not_or.2 ⟨hne, not_lt.2 hlength⟩)

end Keys

section Item

variable {env : Env} {publisher : Option Publisher} {ttl : ℤ} {claims : Claims} {c : ProfileConfig}
  {p : RelayPrincipal} {tenant : Tenant} {brand : Brand} {d : Depot}
  {deadline : Time} {m : Workstation}

/-! ### Images -/

/-- **The images of an item are uploaded**, in their order and under new identifiers. -/
theorem getRelayMediaAssets_returns (served : Served env publisher ttl claims c p tenant brand d)
    {paths : List String}
    (fits : ∀ path ∈ paths, ∃ file contentType, ImageFits m path file contentType) :
    Ends (Hosts env ttl claims (Healthy ttl deadline)) d (getRelayMediaAssets m c paths)
      (fun ids d' => Uploaded d d' ∧ List.Forall₂ (Pictures m tenant.id c.brandId d') paths ids ∧
        ids.Nodup ∧ ∀ id ∈ ids, ∀ a ∈ d.sys.store.assets, a.id ≠ id)
      fun _ _ => False := by
  induction paths generalizing d with
  | nil => exact ends_pure ⟨.refl d, .nil, .nil, fun id hid => absurd hid List.not_mem_nil⟩
  | cons path paths ih =>
    obtain ⟨file, contentType, hfits⟩ := fits path List.mem_cons_self
    refine (served.ends (getRelayMediaAsset_returns served hfits)).bind fun id d₁ h₁ => ?_
    obtain ⟨⟨huploaded, hpictures, hfresh⟩, served₁, keeps₁⟩ := h₁
    refine (ih served₁ fun x hx => fits x (List.mem_cons_of_mem _ hx)).bind fun ids d₂ h₂ =>
      ends_pure ?_
    obtain ⟨huploaded₂, hpictures₂, hnodup, hfresh₂⟩ := h₂
    refine ⟨huploaded.trans huploaded₂, .cons ?_ hpictures₂, List.nodup_cons.2 ⟨?_, hnodup⟩, ?_⟩
    · exact hpictures.mono huploaded₂.keeps huploaded₂.objects
    · -- the first asset was there before the others
      intro hid
      obtain ⟨asset, hasset, himage⟩ := hpictures
      exact hfresh₂ id hid asset himage.mem hasset
    · intro x hx a ha
      rcases List.mem_cons.1 hx with rfl | hx
      · exact hfresh a ha
      · obtain ⟨_, ha₁, _, _, rfl, -⟩ := keeps₁.evolves.assets a ha
        have hne := hfresh₂ x hx _ ha₁
        exact hne

/-! ### The draft -/

/-- What the draft of an item is made of, once it is validated. -/
def ManifestItem.payload (c : ProfileConfig) (item : ManifestItem) (ids : List Uuid) : PostPayload :=
  ⟨c.brandId, some (trim item.title), item.body, ids⟩

/-- The serializers take title and body. -/
structure TextFits (item : ManifestItem) : Prop where
  title : (trim item.title).length ≤ 255 ∧ '\x00' ∉ (trim item.title).toList
  body : item.body ≠ "" ∧ '\x00' ∉ item.body.toList

theorem TextFits.validate {item : ManifestItem} {ids : List Uuid} (h : TextFits item)
    (hlength : ids.length ≤ 10) :
    PostCreateData.validate ⟨c.brandId, some item.title, item.body, some ids⟩ =
      .ok (item.payload c ids) := by
  have htitle : optionalField (charField "title" true (some 255)) (some item.title) =
      .ok (some (trim item.title)) := by
    simp [optionalField, charField, untrimmedField, not_lt.2 h.title.1, h.title.2, Except.map]
  have hbody : untrimmedField "body" false item.body = .ok item.body := by
    simp [untrimmedField, h.body.1, h.body.2]
  refine bind_eq_ok.2 ⟨_, htitle, bind_eq_ok.2 ⟨_, hbody, ?_⟩⟩
  exact if_neg (not_lt.2 hlength)

/-- The row of the draft of an item. -/
def itemPost (env : Env) (now : Time) (id tenant : Uuid) (subject : String) (c : ProfileConfig)
    (item : ManifestItem) (ids : List Uuid) : Post :=
  newPost env now id tenant c.brandId subject (postKey env item.id) (item.payload c ids)

/-- What the handler of the posts submits. -/
theorem handle_createPost {s : Store} (now : Time) {item : ManifestItem} {ids : List Uuid}
    (serving : Serving env claims c p tenant brand s) (fits : TextFits item) (hlength : ids.length ≤ 10)
    (hkey : (postKey env item.id).length ≤ 255) :
    handle env now p s (.createPost (some (postKey env item.id))
      ⟨c.brandId, some item.title, item.body, some ids⟩) = .ok (.command (.createPostDraft tenant.id
        c.brandId p.subject (postKey env item.id) (item.payload c ids))) := by
  refine bind_eq_ok.2 ⟨_, idempotencyHeader_of hkey, bind_eq_ok.2 ⟨_, fits.validate hlength,
    bind_eq_ok.2 ⟨_, serving.covered, bind_eq_ok.2 ⟨_, serving.workspace, ?_⟩⟩⟩⟩
  rw [serving.brand_eq.1]
  rfl

/-- The draft of an item whose key is unused. -/
theorem createPost_returns {item : ManifestItem} {ids : List Uuid}
    (serving : Serving env claims c p tenant brand d.sys.store) (fits : TextFits item)
    (hkey : (postKey env item.id).length ≤ 255) (hnodup : ids.Nodup) (hlength : ids.length ≤ 10)
    (images : ∀ id ∈ ids, ∃ path, Pictures m tenant.id c.brandId d path id)
    (unused : findPost tenant.id (postKey env item.id) d.sys.store = none) :
    Ends (Hosts env ttl claims (Healthy ttl deadline)) d
      (invokeRelayJson (.createPost (some (postKey env item.id))
        ⟨c.brandId, some item.title, item.body, some ids⟩))
      (fun data d' => ∃ now id post v posts variants entry,
        post = itemPost env now id tenant.id p.subject c item ids ∧
        v.post = post.id ∧ v.body = item.body ∧ v.mediaAssets = ids ∧
        d.sys.store.posts.insert? post = some posts ∧ d.sys.store.variants.insert? v = some variants ∧
        d'.sys.store = { d.sys.store with posts, variants }.log entry ∧ d'.objects = d.objects ∧
        data = .post (postData d'.sys.store post))
      fun _ _ => False := by
  refine invoke_returns fun turn healthy => ?_
  obtain ⟨media, hmedia, hids⟩ : ∃ media,
      readyAssetsForPost tenant.id c.brandId ids d.sys.store = .ok media ∧ media.map (·.id) = ids := by
    have hkeys : fromKeys ids = ids := fromKeys_eq_self hnodup
    obtain ⟨media, hmedia, hids⟩ := readyAssetsForPost_ok (s := d.sys.store) (hkeys ▸ hlength)
      fun id hid => by
        obtain ⟨path, asset, hasset, himage⟩ := images id hid
        exact ⟨asset, himage.mem, hasset, himage.owner.1, himage.owner.2, himage.ready⟩
    exact ⟨media, hmedia, hids.trans hkeys⟩
  set post := itemPost env (d.advance turn.wait).sys.clock (turn.draws.ids 0) tenant.id p.subject c item
    ids with hpost
  obtain ⟨posts, hposts⟩ : ∃ posts, d.sys.store.posts.insert? post = some posts :=
    Table.insert?_isSome healthy.newPost
  obtain ⟨variants, hvariants⟩ : ∃ variants, d.sys.store.variants.insert? (newVariant
      (d.advance turn.wait).sys.clock (turn.draws.ids 1) post media) = some variants :=
    Table.insert?_isSome healthy.newVariant
  have hrun := createPostDraft_ok (s := (d.advance turn.wait).sys.store)
    (w := ⟨{ turn.draws with head := (d.advance turn.wait).head turn.draws.head },
      (d.advance turn.wait).sys.clock⟩) unused hmedia hposts hvariants
  have hadmit := admitRequest_command serving ⟨rfl, by simp [ApiRequest.route]⟩
    (handle_createPost (d.advance turn.wait).sys.clock serving fits hlength hkey)
  exact ⟨_, _, answer_committed hadmit hrun, _, _, post, _, posts, variants, _, hpost, rfl, rfl, hids,
    hposts, hvariants, rfl, rfl, rfl⟩

/-- The draft of an item that has its post with another fingerprint. -/
theorem createPost_raises {item : ManifestItem} {ids : List Uuid} {existing : Post}
    {φ : Data → Depot → Prop} (serving : Serving env claims c p tenant brand d.sys.store)
    (fits : TextFits item) (hkey : (postKey env item.id).length ≤ 255) (hlength : ids.length ≤ 10)
    (found : findPost tenant.id (postKey env item.id) d.sys.store = some existing)
    (other : existing.requestFingerprint ≠ requestFingerprint env (item.payload c ids).toFields) :
    Ends (Hosts env ttl claims (Healthy ttl deadline)) d
      (invokeRelayJson (.createPost (some (postKey env item.id))
        ⟨c.brandId, some item.title, item.body, some ids⟩)) φ
      fun e d' => e = .httpResponse .idempotencyConflict ∧ d'.sys.store = d.sys.store := by
  refine invoke_raises fun turn healthy => ?_
  have hrun : runCommand env ⟨{ turn.draws with head := (d.advance turn.wait).head turn.draws.head },
      (d.advance turn.wait).sys.clock⟩ (.createPostDraft tenant.id c.brandId p.subject
        (postKey env item.id) (item.payload c ids)) (d.advance turn.wait).sys.store =
          .error .idempotencyConflict := by
    have hfound : findPost tenant.id (postKey env item.id) (d.advance turn.wait).sys.store =
        some existing := found
    simp only [runCommand, createPostDraft, hfound, replayPost, if_pos other]
    rfl
  have hadmit := admitRequest_command serving ⟨rfl, by simp [ApiRequest.route]⟩
    (handle_createPost (d.advance turn.wait).sys.clock serving fits hlength hkey)
  exact ⟨_, _, answer_refused hadmit hrun, rfl, rfl⟩

/-! ### Approval and publications -/

/-- The approval of a draft. -/
theorem approvePost_returns {post : Post} (serving : Serving env claims c p tenant brand d.sys.store)
    (mem : post ∈ d.sys.store.posts) (owner : post.tenant = tenant.id ∧ post.brand = c.brandId)
    (draft : post.state = .draft) :
    Ends (Hosts env ttl claims (Healthy ttl deadline)) d (invokeRelayJson (.approvePost post.id))
      (fun data d' => ∃ now entry,
        d'.sys.store = (d.sys.store.setPostState now post.id .approved).log entry ∧
        d'.objects = d.objects ∧
        data = .post (postData d'.sys.store { post with state := .approved, updatedAt := now }))
      fun _ _ => False := by
  refine invoke_returns fun turn healthy => ?_
  have hvisible : visiblePost p tenant post.id (d.advance turn.wait).sys.store = .ok post := by
    refine orNotFound_eq_ok.2 (Table.find?_of_key mem (by simp [owner, serving.brand_eq.2]) ?_)
    intro q hq
    obtain ⟨⟨hid, -⟩, -⟩ : (q.id = post.id ∧ q.tenant = tenant.id) ∧ q.brand ∈ p.brandIds := by
      simpa using hq
    exact hid
  have hhandle : handle env (d.advance turn.wait).sys.clock p (d.advance turn.wait).sys.store
      (.approvePost post.id) =
        .ok (.command (.approvePost post.id tenant.id brand.id p.subject)) :=
    bind_eq_ok.2 ⟨_, serving.workspace, bind_eq_ok.2 ⟨_, hvisible,
      bind_eq_ok.2 ⟨brand, by rw [owner.2]; exact serving.covered, rfl⟩⟩⟩
  have hget : getPost post.id tenant.id brand.id (d.advance turn.wait).sys.store = .ok post := by
    have hfind : ((d.advance turn.wait).sys.store.posts.find? fun q =>
        q.id = post.id && q.tenant = tenant.id && q.brand = brand.id) = some post := by
      refine Table.find?_of_key mem (by simp [owner, serving.brand_eq.1]) fun q hq => ?_
      obtain ⟨⟨hid, -⟩, -⟩ : (q.id = post.id ∧ q.tenant = tenant.id) ∧ q.brand = brand.id := by
        simpa using hq
      exact hid
    unfold getPost
    rw [hfind]
  have hrun : runCommand env ⟨{ turn.draws with head := (d.advance turn.wait).head turn.draws.head },
      (d.advance turn.wait).sys.clock⟩ (.approvePost post.id tenant.id brand.id p.subject)
      (d.advance turn.wait).sys.store =
        .ok (.approved { post with state := .approved, updatedAt := (d.advance turn.wait).sys.clock },
          (d.sys.store.setPostState (d.advance turn.wait).sys.clock post.id .approved).log
            (serviceEvent tenant.id brand.id p.subject "post.approved" "post" post.id [])) := by
    refine reply_eq_ok.2 ⟨_, bind_eq_ok.2 ⟨post, hget, ?_⟩, rfl⟩
    rw [if_neg (by simp [draft]), if_neg (by simp [draft])]
    rfl
  have hadmit := admitRequest_command serving ⟨rfl, by simp [ApiRequest.route]⟩ hhandle
  exact ⟨_, _, answer_committed hadmit hrun, _, _, rfl, rfl, rfl⟩

/-- A scheduling call of a coherent store passes its checks. -/
theorem checkSchedule_ok {s : Store} {call : ScheduleCall} (h : Coherent s)
    (hv : call.postVariant ∈ s.variants)
    (post : call.post.tenant = call.tenant ∧ call.post.brand = call.brand)
    (account : call.socialAccount.tenant = call.tenant ∧ call.socialAccount.brand = call.brand)
    (active : call.channelConnection.isActive = true) (approved : call.post.state = .approved)
    (images : 1 ≤ call.postVariant.mediaAssets.length ∧ call.postVariant.mediaAssets.length ≤ 10) :
    checkSchedule call s = .ok () := by
  obtain ⟨q, hcoherent⟩ := h.variants _ hv
  have hready : (attachedAssets s call.postVariant.id).any (fun a => a.uploadState ≠ .ready) = false := by
    rw [List.any_eq_false]
    intro a ha
    rw [attachedAssets_eq hv, Table.mem_where, decide_eq_true_iff] at ha
    obtain ⟨b, hb, hid, hstate, -⟩ := hcoherent.ready a.id ha.2
    rw [← Table.eq_of_key hb ha.1 hid]
    simp [hstate]
  have hlength := hcoherent.length_attached hv
  unfold checkSchedule
  rw [if_neg (by simp [post]), if_neg (by simp [account, active]), if_neg (by simp [approved]),
    if_neg]
  rw [hready, hlength]
  simp [images]

theorem schedulePublication_ok {w : World} {s : Store} (call : ScheduleCall)
    {publications : Table Publication}
    (unused : findPublication call.tenant call.idempotencyKey s = none)
    (checked : checkSchedule call s = .ok ())
    (insert : s.publications.insert? (newPublication env w.now (w.ids 0) call) = some publications) :
    runCommand env w (.schedulePublication call) s =
      .ok (.publication ⟨newPublication env w.now (w.ids 0) call, true⟩,
        { s with publications }.log (serviceEvent call.tenant call.brand call.subject
          "publication.scheduled" "publication" (w.ids 0)
          [("idempotency_key", .str call.idempotencyKey)])) := by
  refine reply_eq_ok.2 ⟨⟨newPublication env w.now (w.ids 0) call, true⟩, ?_, rfl⟩
  have hrow : createPublicationRow s (newPublication env w.now (w.ids 0) call) = .ok publications := by
    unfold createPublicationRow
    have hnone : findPublication (newPublication env w.now (w.ids 0) call).tenant
        (newPublication env w.now (w.ids 0) call).idempotencyKey s = none := unused
    rw [hnone]
    exact create_eq_ok.2 insert
  have hinsert : insertPublication env w.now (w.ids 0) call s = .ok
      (⟨newPublication env w.now (w.ids 0) call, true⟩, { s with publications }.log (serviceEvent
        call.tenant call.brand call.subject "publication.scheduled" "publication" (w.ids 0)
        [("idempotency_key", .str call.idempotencyKey)])) := bind_eq_ok.2 ⟨_, hrow, rfl⟩
  unfold schedulePublication
  rw [unused]
  refine bind_eq_ok.2 ⟨(), checked, ?_⟩
  rw [hinsert]
  rfl

/-- A publication of an approved post under a new key. -/
theorem createPublication_returns {post : Post} {v : PostVariant} {itemKey : String} {index : ℕ}
    {connectionId : Uuid} {date : Time} (served : Served env publisher ttl claims c p tenant brand d)
    (hpost : post ∈ d.sys.store.posts) (hv : v ∈ d.sys.store.variants) (hof : post.id = v.post)
    (owner : post.tenant = tenant.id ∧ post.brand = c.brandId) (approved : post.state = .approved)
    (images : 1 ≤ v.mediaAssets.length ∧ v.mediaAssets.length ≤ 10)
    (hconnection : connectionId ∈ c.connectionIds) (future : deadline ≤ date)
    (hkey : (publicationKey env itemKey index).length ≤ 255)
    (unused : findPublication tenant.id (publicationKey env itemKey index) d.sys.store = none) :
    Ends (Hosts env ttl claims (Healthy ttl deadline)) d
      (invokeRelayJson (.createPublication (some (publicationKey env itemKey index))
        ⟨v.id, connectionId, date⟩))
      (fun _ d' => ∃ q publications entry, q.idempotencyKey = publicationKey env itemKey index ∧
        q.postVariant = v.id ∧ q.channelConnection = connectionId ∧ q.scheduledFor = date ∧
        d.sys.store.publications.insert? q = some publications ∧
        d'.sys.store = { d.sys.store with publications }.log entry ∧ d'.objects = d.objects)
      fun _ _ => False := by
  refine invoke_returns fun turn healthy => ?_
  have serving := served.serving
  obtain ⟨connection, hc, rfl, hactive, account, ha, hac, htenant, hbrand⟩ :=
    serving.connections connectionId hconnection
  have hvariant : visibleVariant p tenant v.id (d.advance turn.wait).sys.store = .ok (v, post) :=
    visibleVariant_of hv hpost hof owner.1 (owner.2 ▸ serving.brand_eq.2)
  have hchannel : brandConnection tenant post.brand connection.id (d.advance turn.wait).sys.store =
      .ok (connection, account) := by
    rw [owner.2, ← hbrand]
    exact brandConnection_of hc ha hac htenant
  have hcovered : getBrand p post.brand.text (d.advance turn.wait).sys.store = .ok brand := by
    rw [owner.2]
    exact serving.covered
  have hhandle := createPublication_of env (d.advance turn.wait).sys.clock ⟨v.id, connection.id, date⟩
    (idempotencyHeader_of hkey) (lt_of_lt_of_le healthy.early future) serving.workspace hvariant
    hchannel hcovered
  set call : ScheduleCall :=
    { tenant := tenant.id
      brand := brand.id
      subject := p.subject
      postVariant := v
      post := post
      channelConnection := connection
      socialAccount := account
      scheduledFor := date
      idempotencyKey := publicationKey env itemKey index } with hcall
  have hchecked : checkSchedule call d.sys.store = .ok () := by
    have hbrandId := serving.brand_eq.1
    exact checkSchedule_ok (coherent_of_reachable (sys_reachable served.reachable)) hv
      ⟨owner.1, owner.2.trans hbrandId.symm⟩ ⟨htenant, hbrand.trans hbrandId.symm⟩ hactive approved
      images
  obtain ⟨publications, hinsert⟩ : ∃ publications, d.sys.store.publications.insert?
      (newPublication env (d.advance turn.wait).sys.clock (turn.draws.ids 0) call) =
        some publications := Table.insert?_isSome healthy.newPublication
  have hrun := schedulePublication_ok (s := (d.advance turn.wait).sys.store)
    (w := ⟨{ turn.draws with head := (d.advance turn.wait).head turn.draws.head },
      (d.advance turn.wait).sys.clock⟩) call unused hchecked hinsert
  have hadmit := admitRequest_command serving ⟨rfl, by simp [ApiRequest.route]⟩ hhandle
  exact ⟨_, _, answer_committed hadmit hrun, _, publications, _, rfl, rfl, rfl, rfl, hinsert, rfl, rfl⟩

/-- What scheduling on these connections adds, from a connection number on. -/
structure Scheduled (env : Env) (itemKey : String) (v : PostVariant) (date : Time)
    (connectionIds : List Uuid) (d d' : Depot) (qs : List Publication) : Prop where
  rows : d'.sys.store.publications.rows = d.sys.store.publications.rows ++ qs
  channels : qs.map (·.channelConnection) = connectionIds
  columns : ∀ q ∈ qs, q.postVariant = v.id ∧ q.scheduledFor = date ∧
    ∃ i, q.idempotencyKey = publicationKey env itemKey i
  posts : d'.sys.store.posts = d.sys.store.posts
  variants : d'.sys.store.variants = d.sys.store.variants
  objects : d'.objects = d.objects

/-- **The publications of an approved post**, one for each connection of the profile. -/
theorem schedulePublications_returns (hsha : Function.Injective env.sha256) {post : Post}
    {v : PostVariant} {itemKey : String} {date : Time} {connectionIds : List Uuid} {n : ℕ}
    (served : Served env publisher ttl claims c p tenant brand d)
    (hpost : post ∈ d.sys.store.posts) (hv : v ∈ d.sys.store.variants) (hof : post.id = v.post)
    (owner : post.tenant = tenant.id ∧ post.brand = c.brandId) (approved : post.state = .approved)
    (images : 1 ≤ v.mediaAssets.length ∧ v.mediaAssets.length ≤ 10) (future : deadline ≤ date)
    (hconnections : ∀ id ∈ connectionIds, id ∈ c.connectionIds)
    (hkey : ∀ i, n ≤ i → i < n + connectionIds.length →
      (publicationKey env itemKey i).length ≤ 255)
    (unused : ∀ i, n ≤ i → findPublication tenant.id (publicationKey env itemKey i) d.sys.store = none) :
    Ends (Hosts env ttl claims (Healthy ttl deadline)) d
      (schedulePublications env itemKey (some v.id) date n connectionIds)
      (fun _ d' => ∃ qs, Scheduled env itemKey v date connectionIds d d' qs)
      fun _ _ => False := by
  induction connectionIds generalizing d n with
  | nil =>
    exact ends_pure ⟨[], (List.append_nil _).symm, rfl, fun q hq => absurd hq List.not_mem_nil, rfl, rfl,
      rfl⟩
  | cons connectionId connectionIds ih =>
    refine (served.ends (createPublication_returns served hpost hv hof owner approved images
      (hconnections _ List.mem_cons_self) future (hkey n le_rfl (by simp)) (unused n le_rfl))).bind
        fun data d₁ h₁ => ?_
    obtain ⟨⟨q, publications, entry, hqkey, hqv, hqc, hqd, hinsert, hstore, hobjects⟩, served₁,
      keeps₁⟩ := h₁
    have hposts₁ : d₁.sys.store.posts = d.sys.store.posts := by rw [hstore]; rfl
    have hvariants₁ : d₁.sys.store.variants = d.sys.store.variants := by rw [hstore]; rfl
    have hrows : d₁.sys.store.publications.rows = d.sys.store.publications.rows ++ [q] := by
      rw [hstore]
      exact Table.rows_insert? hinsert
    -- the new row has the key of this number only
    have hunused : ∀ i, n + 1 ≤ i →
        findPublication tenant.id (publicationKey env itemKey i) d₁.sys.store = none := by
      intro i hi
      refine Table.find?_eq_none.2 fun x hx hfound => ?_
      rw [Bool.and_eq_true, decide_eq_true_iff, decide_eq_true_iff] at hfound
      rw [Table.mem_def, hrows, List.mem_append, List.mem_singleton] at hx
      rcases hx with hx | rfl
      · exact Table.find?_eq_none.1 (unused i (by omega)) x hx (by simp [hfound])
      · have heq := (publicationKey_injective hsha (hqkey.symm.trans hfound.2)).2
        omega
    refine (ih served₁ (hposts₁ ▸ hpost) (hvariants₁ ▸ hv)
      (fun id hid => hconnections id (List.mem_cons_of_mem _ hid))
      (fun i hi hlt => hkey i (by omega) (by rw [List.length_cons]; omega)) hunused).bind
        fun datas d₂ h₂ => ends_pure ?_
    obtain ⟨qs, h₂⟩ := h₂
    refine ⟨q :: qs, ?_, ?_, fun x hx => ?_, h₂.posts.trans hposts₁, h₂.variants.trans hvariants₁,
      h₂.objects.trans hobjects⟩
    · rw [h₂.rows, hrows, List.append_assoc]
      rfl
    · rw [List.map_cons, h₂.channels, hqc]
    · rcases List.mem_cons.1 hx with rfl | hx
      · exact ⟨hqv, hqd, n, hqkey⟩
      · exact h₂.columns x hx

/-! ### The item -/

/-- The script and the server take the item, on every connection of the profile, until the
deadline. -/
structure ItemFits (env : Env) (m : Workstation) (c : ProfileConfig) (deadline : Time)
    (item : ManifestItem) : Prop where
  id : isNullOrWhiteSpace item.id = false
  scheduled : isNullOrWhiteSpace item.scheduledFor = false
  body : isNullOrWhiteSpace item.body = false
  text : TextFits item
  count : 1 ≤ item.paths.length ∧ item.paths.length ≤ 10
  images : ∀ path ∈ item.paths.map m.resolve, ∃ file contentType, ImageFits m path file contentType
  date : ∃ date, m.parseDate item.scheduledFor = some date ∧ deadline ≤ date
  postKey : (postKey env item.id).length ≤ 255
  publicationKeys : ∀ i ≤ c.connectionIds.length, (publicationKey env item.id i).length ≤ 255

/-- No post has the key of the item. -/
def Unposted (env : Env) (tenant : Uuid) (item : ManifestItem) (s : Store) : Prop :=
  findPost tenant (postKey env item.id) s = none

/-- No publication has a key of the item. -/
def Unpublished (env : Env) (tenant : Uuid) (item : ManifestItem) (s : Store) : Prop :=
  ∀ i, findPublication tenant (publicationKey env item.id i) s = none

/-- The post of an item and its publications are in the store. -/
structure Submitted (env : Env) (m : Workstation) (c : ProfileConfig) (tenant : Uuid)
    (item : ManifestItem) (d : Depot) (post : Post) (v : PostVariant) (qs : List Publication) :
    Prop where
  mem : post ∈ d.sys.store.posts
  key : post.tenant = tenant ∧ post.idempotencyKey = postKey env item.id
  text : post.title = trim item.title ∧ post.body = item.body
  variant : v ∈ d.sys.store.variants ∧ v.post = post.id ∧ v.body = item.body
  images : List.Forall₂ (Pictures m tenant c.brandId d) (item.paths.map m.resolve) v.mediaAssets
  publications : ∀ q, q ∈ d.sys.store.publications ∧ q.postVariant = v.id ↔ q ∈ qs
  nodup : qs.Nodup
  channels : qs.map (·.channelConnection) = c.connectionIds
  dates : ∀ q ∈ qs, m.parseDate item.scheduledFor = some q.scheduledFor

/-- What submitting an item adds: rows under its keys, and publications of a new variant. -/
structure Adds (env : Env) (item : ManifestItem) (d d' : Depot) : Prop where
  keeps : Keeps d d'
  objects : ∀ a ∈ d.sys.store.assets, d'.objects a.storageKey = d.objects a.storageKey
  posts : ∀ q ∈ d'.sys.store.posts,
    (∃ r ∈ d.sys.store.posts, r.tenant = q.tenant ∧ r.idempotencyKey = q.idempotencyKey) ∨
      q.idempotencyKey = Relay.postKey env item.id
  publications : ∀ q ∈ d'.sys.store.publications, q ∈ d.sys.store.publications ∨
    (∃ i, q.idempotencyKey = publicationKey env item.id i) ∧
      ∀ v ∈ d.sys.store.variants, v.id ≠ q.postVariant

/-- What the requests of an item have made of `d`. -/
structure Written (env : Env) (m : Workstation) (c : ProfileConfig) (tenant : Uuid) (item : ManifestItem)
    (date : Time) (d d' : Depot) (post : Post) (v : PostVariant) (qs : List Publication) : Prop where
  keeps : Keeps d d'
  objects : ∀ a ∈ d.sys.store.assets, d'.objects a.storageKey = d.objects a.storageKey
  mem : post ∈ d'.sys.store.posts
  posts : ∀ q ∈ d'.sys.store.posts, q = post ∨
    ∃ r ∈ d.sys.store.posts, r.tenant = q.tenant ∧ r.idempotencyKey = q.idempotencyKey
  key : post.tenant = tenant ∧ post.idempotencyKey = postKey env item.id
  text : post.title = trim item.title ∧ post.body = item.body
  variant : v ∈ d'.sys.store.variants ∧ v.post = post.id ∧ v.body = item.body
  fresh : ∀ w ∈ d.sys.store.variants, w.id ≠ v.id
  images : List.Forall₂ (Pictures m tenant c.brandId d') (item.paths.map m.resolve) v.mediaAssets
  rows : d'.sys.store.publications.rows = d.sys.store.publications.rows ++ qs
  columns : ∀ q ∈ qs, q.postVariant = v.id ∧ q.scheduledFor = date ∧
    ∃ i, q.idempotencyKey = publicationKey env item.id i
  channels : qs.map (·.channelConnection) = c.connectionIds

section Written

variable {tenant : Uuid} {item : ManifestItem} {date : Time} {d d' : Depot} {post : Post}
  {v : PostVariant} {qs : List Publication}

theorem Written.adds (h : Written env m c tenant item date d d' post v qs) : Adds env item d d' := by
  refine ⟨h.keeps, h.objects, fun q hq => ?_, fun q hq => ?_⟩
  · rcases h.posts q hq with rfl | hold
    · exact .inr h.key.2
    · exact .inl hold
  · rw [Table.mem_def, h.rows, List.mem_append] at hq
    rcases hq with hq | hq
    · exact .inl hq
    · obtain ⟨hqv, -, hqkey⟩ := h.columns q hq
      exact .inr ⟨hqkey, fun w hw => hqv ▸ h.fresh w hw⟩

theorem Written.submitted (h : Written env m c tenant item date d d' post v qs)
    (coherent : Coherent d.sys.store) (hdate : m.parseDate item.scheduledFor = some date) :
    Submitted env m c tenant item d' post v qs := by
  have hids : (d'.sys.store.publications.rows.map (·.id)).Nodup := d'.sys.store.publications.nodup
  rw [h.rows, List.map_append] at hids
  refine ⟨h.mem, h.key, h.text, h.variant, h.images, fun q => ?_,
    (List.nodup_append.1 hids).2.1.of_map _, h.channels, fun q hq => ?_⟩
  · rw [Table.mem_def, h.rows, List.mem_append]
    constructor
    · rintro ⟨hq | hq, hqv⟩
      · -- the publications that were there are of other variants
        obtain ⟨w, _, _, _, hcoherent⟩ := coherent.deliveries q hq
        exact absurd (hcoherent.variant.2.trans hqv) (h.fresh w hcoherent.variant.1)
      · exact hq
    · exact fun hq => ⟨.inr hq, (h.columns q hq).1⟩
  · rw [(h.columns q hq).2.1]
    exact hdate

end Written

/-- **An item whose keys are unused is submitted.** -/
theorem submitItem_returns (hsha : Function.Injective env.sha256)
    (served : Served env publisher ttl claims c p tenant brand d) (hconnections : c.connectionIds ≠ [])
    {item : ManifestItem} (fits : ItemFits env m c deadline item)
    (unposted : Unposted env tenant.id item d.sys.store)
    (unpublished : Unpublished env tenant.id item d.sys.store) :
    Ends (Hosts env ttl claims (Healthy ttl deadline)) d (submitItem env m c item)
      (fun _ d' => Adds env item d d' ∧ ∃ post v qs, Submitted env m c tenant.id item d' post v qs)
      fun _ _ => False := by
  obtain ⟨date, hdate, hfuture⟩ := fits.date
  have hcount : ¬ ((item.paths.map m.resolve).length < 1 ∨ 10 < (item.paths.map m.resolve).length) := by
    have := fits.count
    rw [List.length_map]
    omega
  simp only [submitItem, submitRelayItem, fits.id, fits.scheduled, fits.body, Bool.false_eq_true,
    if_false, if_neg hcount, hdate, if_neg hconnections]
  refine (served.ends (getRelayMediaAssets_returns served fits.images)).bind fun ids d₁ h₁ => ?_
  obtain ⟨⟨huploaded, hpictures, hnodup, -⟩, served₁, keeps₁⟩ := h₁
  have hlength : ids.length = item.paths.length := by
    rw [← hpictures.length_eq, List.length_map]
  -- the draft
  have himages : ∀ id ∈ ids, ∃ path, Pictures m tenant.id c.brandId d₁ path id := by
    intro id hid
    obtain ⟨path, -, hpath⟩ := exists_of_forall₂ hpictures hid
    exact ⟨path, hpath⟩
  have hunposted : findPost tenant.id (postKey env item.id) d₁.sys.store = none := by
    unfold findPost
    rw [huploaded.posts]
    exact unposted
  refine (served₁.ends (createPost_returns served₁.serving fits.text fits.postKey hnodup
    (hlength ▸ fits.count.2) himages hunposted)).bind fun data d₂ h₂ => ?_
  obtain ⟨⟨now, id, post, v, posts, variants, entry, hpost, hvpost, hvbody, hvids, hinsert, hinsert',
    hstore₂, hobjects₂, rfl⟩, served₂, keeps₂⟩ := h₂
  have hmem₂ : post ∈ d₂.sys.store.posts := by
    rw [hstore₂]
    exact Table.mem_self_insert? hinsert
  have hv₂ : v ∈ d₂.sys.store.variants := by
    rw [hstore₂]
    exact Table.mem_self_insert? hinsert'
  have howner : post.tenant = tenant.id ∧ post.brand = c.brandId := hpost ▸ ⟨rfl, rfl⟩
  -- the approval
  simp only [Data.asPost, pure_bind]
  refine (served₂.ends (approvePost_returns served₂.serving hmem₂ howner (hpost ▸ rfl))).bind
    fun data d₃ h₃ => ?_
  obtain ⟨⟨now', entry', hstore₃, hobjects₃, rfl⟩, served₃, keeps₃⟩ := h₃
  set approved : Post := { post with state := .approved, updatedAt := now' } with happroved
  have hmem₃ : approved ∈ d₃.sys.store.posts := by
    rw [hstore₃]
    exact Table.mem_update_self hmem₂ rfl
  have hv₃ : v ∈ d₃.sys.store.variants := by
    rw [hstore₃]
    exact hv₂
  have hdefault : (postData d₃.sys.store approved).defaultVariantId = some v.id := by
    have hvariant : defaultVariant d₃.sys.store approved.id = some v := by
      rw [show approved.id = v.post from hvpost.symm]
      exact (composed_of_reachable (sys_reachable served₃.reachable)).defaultVariant hv₃
    simp only [postData, hvariant, Option.map_some]
  -- the publications
  have hpublications₃ : d₃.sys.store.publications = d.sys.store.publications := by
    rw [hstore₃, ← huploaded.publications]
    change d₂.sys.store.publications = _
    rw [hstore₂]
    rfl
  have hunpublished : ∀ i, 1 ≤ i →
      findPublication tenant.id (publicationKey env item.id i) d₃.sys.store = none := by
    intro i _
    unfold findPublication
    rw [hpublications₃]
    exact unpublished i
  simp only [pure_bind, hdefault]
  refine (served₃.ends (schedulePublications_returns hsha served₃ hmem₃ hv₃ hvpost.symm howner rfl
    (hvids ▸ hlength ▸ fits.count) hfuture (fun id hid => hid)
    (fun i _ hi => fits.publicationKeys i (by omega)) hunpublished)).bind fun datas d₄ h₄ => ends_pure ?_
  obtain ⟨⟨qs, hscheduled⟩, served₄, keeps₄⟩ := h₄
  have hkeeps : Keeps d₁ d₄ := (keeps₂.trans keeps₃).trans keeps₄
  have hobjects : d₄.objects = d₁.objects := by
    rw [hscheduled.objects, hobjects₃, hobjects₂]
  have hkey : post.tenant = tenant.id ∧ post.idempotencyKey = postKey env item.id := hpost ▸ ⟨rfl, rfl⟩
  have htext : post.title = trim item.title ∧ post.body = item.body := hpost ▸ ⟨rfl, rfl⟩
  have hwritten : Written env m c tenant.id item date d d₄ approved v qs := by
    refine ⟨keeps₁.trans hkeeps, fun a ha => ?_, ?_, fun q hq => ?_, hkey, htext,
      ⟨?_, hvpost, hvbody⟩, ?_, ?_, ?_, hscheduled.columns, hscheduled.channels⟩
    · rw [hobjects]
      exact huploaded.objects a ha
    · rw [hscheduled.posts]
      exact hmem₃
    · -- a post of the end is one of the start, or the new one, which has been approved
      rw [hscheduled.posts, hstore₃] at hq
      rcases Table.of_mem_update hmem₂ hq with rfl | ⟨hq, hne⟩
      · exact .inl rfl
      · rw [hstore₂] at hq
        rcases (Table.mem_insert? hinsert).1 hq with hq | rfl
        · exact .inr ⟨q, huploaded.posts ▸ hq, rfl, rfl⟩
        · exact absurd rfl hne
    · rw [hscheduled.variants]
      exact hv₃
    · rw [← huploaded.variants]
      exact Table.fresh_of_insert? hinsert'
    · rw [hvids]
      exact hpictures.imp fun path id hid => hid.mono hkeeps fun a _ => by rw [hobjects]
    · rw [hscheduled.rows, hpublications₃]
  exact ⟨hwritten.adds, approved, v, qs, hwritten.submitted
    (coherent_of_reachable (sys_reachable served.reachable)) hdate⟩

/-! ### An item that has its post -/

/-- The fingerprint of a post is of images that are in the store. -/
def Illustrated (env : Env) (s : Store) : Prop :=
  ∀ q ∈ s.posts, ∃ payload : PostPayload,
    q.requestFingerprint = requestFingerprint env payload.toFields ∧
      ∀ id ∈ payload.mediaAssetIds, ∃ a ∈ s.assets, a.id = id

theorem Illustrated.step {A : Store → Command → Prop} {s s' : Store} (h : Illustrated env s)
    (hstep : StoreStep env A s s') : Illustrated env s' := by
  have hassets : ∀ id, (∃ a ∈ s.assets, a.id = id) → ∃ a ∈ s'.assets, a.id = id := by
    rintro _ ⟨a, ha, rfl⟩
    obtain ⟨_, ha', _, _, rfl, -⟩ := hstep.evolves.assets a ha
    exact ⟨_, ha', rfl⟩
  have hold : ∀ q ∈ s.posts, ∃ payload : PostPayload,
      q.requestFingerprint = requestFingerprint env payload.toFields ∧
        ∀ id ∈ payload.mediaAssetIds, ∃ a ∈ s'.assets, a.id = id := by
    intro q hq
    obtain ⟨payload, hfingerprint, himages⟩ := h q hq
    exact ⟨payload, hfingerprint, fun id hid => hassets id (himages id hid)⟩
  intro q' hq'
  rcases hstep.variants with
    ⟨-, hposts⟩ | ⟨_, _, _, _, _, _, _, payload, media, -, himages, hinsert, -⟩
  · obtain ⟨q, hq, _, _, rfl, -⟩ := hposts q' hq'
    exact hold q hq
  · rcases (Table.mem_insert? hinsert).1 hq' with hq | rfl
    · exact hold q' hq
    · refine ⟨payload, rfl, fun id hid => hassets id ?_⟩
      rw [← mem_fromKeys, ← himages.ids, List.mem_map] at hid
      obtain ⟨a, ha, rfl⟩ := hid
      exact ⟨a, (himages.ready a ha).1, rfl⟩

theorem illustrated_of_reachable {s : Sys} (h : Reachable (relay env publisher) s) :
    Illustrated env s.store := by
  refine h.invariant (I := fun s => Illustrated env s.store) ?_ fun s e t hs hstep => ?_
  · rintro _ ⟨tenants, brands, memberships, clock, rfl⟩ q hq
    exact absurd hq (Table.not_mem_empty q)
  · rcases (next_step hstep).store with hsame | hcommit
    · exact hsame ▸ hs
    · exact hs.step hcommit

/-- **An item that has its post is refused**: its images are uploaded again, and the payload with
the new identifiers has another fingerprint. -/
theorem submitItem_raises (hsha : Function.Injective env.sha256)
    (served : Served env publisher ttl claims c p tenant brand d) {item : ManifestItem}
    (fits : ItemFits env m c deadline item) (posted : ¬ Unposted env tenant.id item d.sys.store) :
    Ends (Hosts env ttl claims (Healthy ttl deadline)) d (submitItem env m c item)
      (fun _ _ => False) fun e _ => e = .httpResponse .idempotencyConflict := by
  have hcount : ¬ ((item.paths.map m.resolve).length < 1 ∨ 10 < (item.paths.map m.resolve).length) := by
    have := fits.count
    rw [List.length_map]
    omega
  obtain ⟨existing, hfound⟩ := Option.ne_none_iff_exists'.1 posted
  simp only [submitItem, submitRelayItem, fits.id, fits.scheduled, fits.body, Bool.false_eq_true,
    if_false, if_neg hcount]
  refine ((served.ends (getRelayMediaAssets_returns served fits.images)).mono (fun _ _ h => h)
    fun _ _ h => h.elim).bind fun ids d₁ h₁ => ?_
  obtain ⟨⟨huploaded, hpictures, -, hfresh⟩, served₁, -⟩ := h₁
  have hlength : ids.length = item.paths.length := by
    rw [← hpictures.length_eq, List.length_map]
  have hfound₁ : findPost tenant.id (postKey env item.id) d₁.sys.store = some existing := by
    unfold findPost
    rw [huploaded.posts]
    exact hfound
  have hother : existing.requestFingerprint ≠ requestFingerprint env (item.payload c ids).toFields := by
    intro heq
    obtain ⟨payload, hfingerprint, himages⟩ :=
      illustrated_of_reachable (sys_reachable served.reachable) existing (Table.mem_of_find? hfound)
    have hids : payload.mediaAssetIds = ids := congrArg PostPayload.mediaAssetIds
      (PostPayload.eq_of_requestFingerprint hsha (hfingerprint.symm.trans heq))
    obtain ⟨id, hid⟩ : ∃ id, id ∈ ids := by
      refine List.exists_mem_of_length_pos ?_
      have := fits.count
      omega
    obtain ⟨a, ha, hasset⟩ := himages id (hids ▸ hid)
    exact hfresh id hid a ha hasset
  refine ((createPost_raises (φ := fun _ _ => False) served₁.serving fits.text fits.postKey
    (hlength ▸ fits.count.2) hfound₁ hother).mono (fun _ _ h => h) fun _ _ he => he.1).bind
      fun data d₂ h₂ => h₂.elim

end Item

end Relay
