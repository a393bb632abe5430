import Relay.Provenance

/-!
# The order of the images of a post

The images of a variant are a relation without an order, beside a list of texts.

* `readyAssetsForPost_cases`: which lists of images a draft may have;
* `drafted_images`: a draft shows its images in the order of the request;
* `orderedMediaAssets_slides`: a variant shows each of its images once, those of the list first.
-/

namespace Relay

open Relational Sequence

/-- A READY asset of the brand. -/
def ReadyAsset (tenant brand : Uuid) (s : Store) (id : Uuid) : Prop :=
  ∃ a ∈ s.assets, a.id = id ∧ a.tenant = tenant ∧ a.brand = brand ∧ a.uploadState = .ready

/-- What a variant shows: each asset once, first those that its list names, in the order of the list,
and then the others, in the order of their creation. -/
structure Slides (v : PostVariant) (attached media : List MediaAsset) : Prop where
  perm : media.Perm attached
  nodup : (media.map (·.id)).Nodup
  order : ∃ named rest, media = named ++ rest ∧
    named.map (·.id.text) = v.mediaAssetOrder.filter (fun text => attached.any fun a => a.id.text = text) ∧
    (∀ a ∈ rest, a.id.text ∉ v.mediaAssetOrder) ∧
    rest.Pairwise fun a b => createdLe a.toTimeStampedUUIDModel b.toTimeStampedUUIDModel = true

section Ready

variable {tenant brand : Uuid} {ids : List Uuid} {s : Store}

/-- Ready assets of the brand, in the order of their identifiers. -/
theorem readyAssetsForPost_ok (hlength : (fromKeys ids).length ≤ maxPostImages)
    (hready : ∀ id ∈ ids, ReadyAsset tenant brand s id) :
    ∃ media, readyAssetsForPost tenant brand ids s = .ok media ∧ media.map (·.id) = fromKeys ids := by
  set rows := s.assets.where fun a => decide (a.id ∈ fromKeys ids) && a.tenant = tenant &&
    a.brand = brand && a.uploadState = .ready with hrows
  have hkeys : (rows.map (·.id)).Nodup := s.assets.nodup.sublist (List.filter_sublist.map _)
  have hperm : (rows.map (·.id)).Perm (fromKeys ids) := by
    rw [List.perm_ext_iff_of_nodup hkeys (nodup_fromKeys ids)]
    intro id
    rw [List.mem_map]
    constructor
    · rintro ⟨a, ha, rfl⟩
      have hrow := (Table.mem_where.1 ha).2
      simp only [Bool.and_eq_true, decide_eq_true_eq] at hrow
      exact hrow.1.1.1
    · intro hid
      obtain ⟨a, ha, rfl, htenant, hbrand, hstate⟩ := hready id (mem_fromKeys.1 hid)
      exact ⟨a, Table.mem_where.2 ⟨ha, by simpa [htenant, hbrand, hstate] using hid⟩, rfl⟩
  have hcount : rows.length = (fromKeys ids).length := by simpa using hperm.length_eq
  refine ⟨lookups (·.id) rows (fromKeys ids), ?_, ?_⟩
  · unfold readyAssetsForPost
    simp only
    rw [if_neg (not_lt.2 hlength), if_neg (not_not.2 hcount)]
  · exact map_lookups fun k hk => by simpa using hperm.mem_iff.2 hk

/-- The function refuses a list, or it returns its images. -/
theorem readyAssetsForPost_cases (tenant brand : Uuid) (ids : List Uuid) (s : Store) :
    (readyAssetsForPost tenant brand ids s = .error .invalidMediaAsset ∧
      (maxPostImages < (fromKeys ids).length ∨ ∃ id ∈ ids, ¬ ReadyAsset tenant brand s id)) ∨
    (∃ media, readyAssetsForPost tenant brand ids s = .ok media ∧ media.map (·.id) = fromKeys ids ∧
      (fromKeys ids).length ≤ maxPostImages ∧ ∀ id ∈ ids, ReadyAsset tenant brand s id) := by
  cases hmedia : readyAssetsForPost tenant brand ids s with
  | ok media =>
    have himages := draftImages_of_ready hmedia
    refine .inr ⟨media, rfl, himages.ids, ?_, fun id hid => ?_⟩
    · rw [← himages.ids, List.length_map]
      exact himages.count
    · rw [← mem_fromKeys, ← himages.ids] at hid
      obtain ⟨a, ha, rfl⟩ := List.mem_map.1 hid
      obtain ⟨hmem, hready⟩ := himages.ready a ha
      exact ⟨a, hmem, rfl, hready⟩
  | error e =>
    have he : e = .invalidMediaAsset := by
      unfold readyAssetsForPost at hmedia
      simp only at hmedia
      split at hmedia
      · exact (Except.error.inj hmedia).symm
      · split at hmedia
        · exact (Except.error.inj hmedia).symm
        · cases hmedia
    refine .inl ⟨by rw [he], ?_⟩
    by_contra hnone
    push Not at hnone
    obtain ⟨media, hok, -⟩ := readyAssetsForPost_ok hnone.1 hnone.2
    rw [hok] at hmedia
    cases hmedia

end Ready

/-! ### The order of a draft -/

section Draft

variable {env : Env} {w : World} {tenant brand : Uuid} {subject key : String} {payload : PostPayload}
  {s s' : Store} {v : PostVariant}

/-- The draft of a key that no post has. -/
theorem createPostDraft_ok {media : List MediaAsset} {posts : Table Post} {variants : Table PostVariant}
    (unused : findPost tenant key s = none)
    (images : readyAssetsForPost tenant brand payload.mediaAssetIds s = .ok media)
    (insert : s.posts.insert? (newPost env w.now (w.ids 0) tenant brand subject key payload) = some posts)
    (insertVariant : s.variants.insert? (newVariant w.now (w.ids 1)
      (newPost env w.now (w.ids 0) tenant brand subject key payload) media) = some variants) :
    runCommand env w (.createPostDraft tenant brand subject key payload) s =
      .ok (.post ⟨newPost env w.now (w.ids 0) tenant brand subject key payload, true⟩,
        { s with posts, variants }.log (serviceEvent tenant brand subject "post.draft_created" "post"
          (w.ids 0) [("idempotency_key", .str key)])) := by
  set post := newPost env w.now (w.ids 0) tenant brand subject key payload with hpost
  refine reply_eq_ok.2 ⟨⟨post, true⟩, ?_, rfl⟩
  have hposts : createPostRow s post = .ok posts := by
    unfold createPostRow
    have hnone : findPost post.tenant post.idempotencyKey s = none := unused
    rw [hnone]
    exact create_eq_ok.2 insert
  unfold createPostDraft
  rw [unused]
  have hinsert : insertPostDraft env w.now ⟨w.ids 0, w.ids 1⟩ tenant brand subject key payload s =
      .ok (⟨post, true⟩, { s with posts, variants }.log (serviceEvent tenant brand subject
        "post.draft_created" "post" (w.ids 0) [("idempotency_key", .str key)])) :=
    bind_eq_ok.2 ⟨_, hposts, bind_eq_ok.2 ⟨_, images, bind_eq_ok.2 ⟨_, create_eq_ok.2 insertVariant,
      rfl⟩⟩⟩
  simp only [hinsert]
  rfl

/-- Good images and two fresh identifiers make a draft of it. -/
theorem exists_createPostDraft (unused : findPost tenant key s = none)
    (freshPost : ∀ p ∈ s.posts, p.id ≠ w.ids 0) (freshVariant : ∀ v ∈ s.variants, v.id ≠ w.ids 1)
    (hlength : (fromKeys payload.mediaAssetIds).length ≤ maxPostImages)
    (hready : ∀ id ∈ payload.mediaAssetIds, ReadyAsset tenant brand s id) :
    ∃ post s', runCommand env w (.createPostDraft tenant brand subject key payload) s =
      .ok (.post ⟨post, true⟩, s') := by
  obtain ⟨media, hmedia, -⟩ := readyAssetsForPost_ok hlength hready
  obtain ⟨posts, hposts⟩ : ∃ posts, s.posts.insert?
      (newPost env w.now (w.ids 0) tenant brand subject key payload) = some posts :=
    Table.insert?_isSome freshPost
  obtain ⟨variants, hvariants⟩ : ∃ variants, s.variants.insert? (newVariant w.now (w.ids 1)
      (newPost env w.now (w.ids 0) tenant brand subject key payload) media) = some variants :=
    Table.insert?_isSome freshVariant
  exact ⟨_, _, createPostDraft_ok unused hmedia hposts hvariants⟩

/-- **A draft shows its images in the order of the request.** -/
theorem drafted_images {post : Post}
    (h : runCommand env w (.createPostDraft tenant brand subject key payload) s =
      .ok (.post ⟨post, true⟩, s')) :
    ∃ v ∈ s'.variants, v.post = post.id ∧
      (orderedMediaAssets s' v).map (·.id) = fromKeys payload.mediaAssetIds := by
  cases createPostDraft_effect h with
  | drafted _ _ images insertVariant =>
    have hv := Table.mem_self_insert? insertVariant
    refine ⟨_, hv, rfl, (orderedMediaAssets_listed hv ?_ fun id hid => ?_).trans images.ids⟩
    · exact (List.map_map (g := Uuid.text)).symm
    · obtain ⟨a, ha, rfl⟩ := List.mem_map.1 hid
      exact ⟨a, (images.ready a ha).1, rfl⟩

end Draft

/-! ### The order of any variant -/

/-- The comparison of the query is total. -/
theorem createdLe_total (a b : TimeStampedUUIDModel) : createdLe a b = true ∨ createdLe b a = true := by
  simp only [createdLe, Bool.or_eq_true, Bool.and_eq_true, decide_eq_true_eq]
  rcases lt_trichotomy a.createdAt b.createdAt with h | h | h
  · exact .inl (.inl h)
  · rcases BitVec.le_total a.id.bits b.id.bits with hid | hid
    · exact .inl (.inr ⟨h, hid⟩)
    · exact .inr (.inr ⟨h.symm, hid⟩)
  · exact .inr (.inl h)

theorem createdLe_trans (a b c : TimeStampedUUIDModel) (hab : createdLe a b = true)
    (hbc : createdLe b c = true) : createdLe a c = true := by
  simp only [createdLe, Bool.or_eq_true, Bool.and_eq_true, decide_eq_true_eq] at hab hbc ⊢
  rcases hab with hab | ⟨hab, hid⟩ <;> rcases hbc with hbc | ⟨hbc, hid'⟩
  · exact .inl (hab.trans hbc)
  · exact .inl (hbc ▸ hab)
  · exact .inl (hab ▸ hbc)
  · exact .inr ⟨hab.trans hbc, BitVec.le_trans hid hid'⟩

/-- Every asset is attached once. -/
theorem attachedAssets_nodup (s : Store) (id : Uuid) : ((attachedAssets s id).map (·.id)).Nodup := by
  unfold attachedAssets
  split
  · exact List.nodup_nil
  · exact s.assets.nodup.sublist (List.filter_sublist.map _)

/-- **A variant shows each of its images once**, those of its list first and in its order. -/
theorem orderedMediaAssets_slides {s : Store} {v : PostVariant} (hlist : v.mediaAssetOrder.Nodup) :
    Slides v (attachedAssets s v.id) (orderedMediaAssets s v) := by
  set rows := orderBy (fun a b : MediaAsset => createdLe a.toTimeStampedUUIDModel b.toTimeStampedUUIDModel)
    (attachedAssets s v.id) with hrows
  set named := lookups (fun a : MediaAsset => a.id.text) rows v.mediaAssetOrder with hnamed
  have hperm : rows.Perm (attachedAssets s v.id) := orderBy_perm _ _
  have hids : (rows.map (·.id)).Nodup := (hperm.map _).nodup_iff.2 (attachedAssets_nodup s v.id)
  have htexts : (rows.map fun a : MediaAsset => a.id.text).Nodup := by
    have := hids.map Uuid.text_injective
    rwa [List.map_map] at this
  -- an asset is left over when its text is not in the list
  have hrest : (rows.filter fun a => !named.any fun b => b.id = a.id) =
      rows.filter fun a => !decide (a.id.text ∈ v.mediaAssetOrder) := by
    refine List.filter_congr fun a ha => ?_
    congr 1
    rw [Bool.eq_iff_iff, List.any_eq_true, decide_eq_true_eq]
    constructor
    · rintro ⟨b, hb, hid⟩
      rw [decide_eq_true_eq] at hid
      rw [← hid]
      exact (mem_of_mem_lookups hb).2
    · intro hmem
      exact ⟨a, mem_lookups htexts ha hmem, by simp⟩
  have heq : orderedMediaAssets s v =
      named ++ rows.filter fun a => !decide (a.id.text ∈ v.mediaAssetOrder) := by
    rw [← hrest]
    rfl
  have hall : (orderedMediaAssets s v).Perm rows := by
    rw [heq]
    exact lookups_append_perm htexts hlist
  refine ⟨hall.trans hperm, (hall.map _).nodup_iff.2 hids, named, _, heq, ?_, fun a ha => ?_, ?_⟩
  · rw [hnamed, map_lookups_filter]
    refine List.filter_congr fun text _ => ?_
    rw [Bool.eq_iff_iff, List.any_eq_true, List.any_eq_true]
    simp only [hperm.mem_iff]
  · simpa using (List.mem_filter.1 ha).2
  · have hsorted : rows.Pairwise fun a b =>
        createdLe a.toTimeStampedUUIDModel b.toTimeStampedUUIDModel = true :=
      pairwise_orderBy (fun a b => createdLe_total a.toTimeStampedUUIDModel b.toTimeStampedUUIDModel)
        (fun a b c => createdLe_trans a.toTimeStampedUUIDModel b.toTimeStampedUUIDModel
          c.toTimeStampedUUIDModel) _
    exact hsorted.sublist List.filter_sublist

/-! ### The round trip -/

/-- **A carousel keeps its order**: a list of images is refused exactly when it is too long or has an
image that is not ready, a draft shows its list, and any other variant shows each image once. -/
theorem carousel_order (env : Env) :
    (∀ (tenant brand : Uuid) (ids : List Uuid) (s : Store),
      (readyAssetsForPost tenant brand ids s = .error .invalidMediaAsset ↔
        10 < (fromKeys ids).length ∨ ∃ id ∈ ids, ¬ ReadyAsset tenant brand s id) ∧
      ∀ media, readyAssetsForPost tenant brand ids s = .ok media → media.map (·.id) = fromKeys ids) ∧
    (∀ (w : World) (tenant brand : Uuid) (subject key : String) (payload : PostPayload) (s : Store),
      (findPost tenant key s = none → (∀ p ∈ s.posts, p.id ≠ w.ids 0) →
        (∀ v ∈ s.variants, v.id ≠ w.ids 1) → (fromKeys payload.mediaAssetIds).length ≤ 10 →
        (∀ id ∈ payload.mediaAssetIds, ReadyAsset tenant brand s id) →
        ∃ post s', runCommand env w (.createPostDraft tenant brand subject key payload) s =
          .ok (.post ⟨post, true⟩, s')) ∧
      ∀ post s', runCommand env w (.createPostDraft tenant brand subject key payload) s =
        .ok (.post ⟨post, true⟩, s') →
        ∃ v ∈ s'.variants, v.post = post.id ∧
          (orderedMediaAssets s' v).map (·.id) = fromKeys payload.mediaAssetIds) ∧
    ∀ (s : Store) (v : PostVariant), v.mediaAssetOrder.Nodup →
      Slides v (attachedAssets s v.id) (orderedMediaAssets s v) := by
  refine ⟨fun tenant brand ids s => ?_, fun w tenant brand subject key payload s => ⟨?_, ?_⟩,
    fun s v => orderedMediaAssets_slides⟩
  · rcases readyAssetsForPost_cases tenant brand ids s with
      ⟨herror, hbad⟩ | ⟨media, hok, hids, hlength, hready⟩
    · rw [herror]
      exact ⟨iff_of_true rfl hbad, fun media hmedia => by cases hmedia⟩
    · rw [hok]
      refine ⟨iff_of_false (fun h => by cases h) ?_, fun media' hmedia => by cases hmedia; exact hids⟩
      rintro (hlong | ⟨id, hid, hnot⟩)
      · exact absurd hlong (not_lt.2 hlength)
      · exact hnot (hready id hid)
  · exact exists_createPostDraft
  · exact fun post s' h => drafted_images h

namespace Sample

/-- An image that is ready, created at a moment. -/
def slide (n : ℕ) (created : Time) : MediaAsset :=
  ⟨⟨.ofNat n, created, created⟩, workspace, brand, "", "image/png", 1, "", .ready⟩

/-- A variant that lists one of its two images, and one text more. -/
def legacyVariant : PostVariant :=
  ⟨⟨.ofNat 63, 0, 0⟩, .ofNat 64, "", [.ofNat 61, .ofNat 62], ["", (Uuid.ofNat 62).text]⟩

/-- Two images, and a variant that has them. -/
def album : Store :=
  { start.store with
    assets := ⟨[slide 61 1, slide 62 2], by decide⟩
    variants := ⟨[legacyVariant], by decide⟩ }

/-- A draft of the two images in the order of the author, the second one twice. -/
def albumPayload : PostPayload := ⟨brand, none, "", [.ofNat 62, .ofNat 61, .ofNat 62]⟩

theorem album_ready : ∀ id ∈ albumPayload.mediaAssetIds, ReadyAsset workspace brand album id := by
  intro id hid
  simp only [albumPayload, List.mem_cons, List.not_mem_nil, or_false] at hid
  rcases hid with rfl | rfl | rfl
  · exact ⟨slide 62 2, by decide, rfl, rfl, rfl, rfl⟩
  · exact ⟨slide 61 1, by decide, rfl, rfl, rfl, rfl⟩
  · exact ⟨slide 62 2, by decide, rfl, rfl, rfl, rfl⟩

end Sample

/-- The draft is made, and the variant without a complete list shows its images. -/
theorem carousel_order_sample :
    (∃ post s', runCommand Sample.env ⟨Sample.draws 20, 3⟩ (.createPostDraft Sample.workspace Sample.brand
        "" "k" Sample.albumPayload) Sample.album = .ok (.post ⟨post, true⟩, s') ∧
      ∃ v ∈ s'.variants, v.post = post.id ∧
        (orderedMediaAssets s' v).map (·.id) = [.ofNat 62, .ofNat 61]) ∧
    Slides Sample.legacyVariant (attachedAssets Sample.album Sample.legacyVariant.id)
      (orderedMediaAssets Sample.album Sample.legacyVariant) := by
  obtain ⟨-, hdraft, hslides⟩ := carousel_order Sample.env
  obtain ⟨hok, hshows⟩ := hdraft ⟨Sample.draws 20, 3⟩ Sample.workspace Sample.brand "" "k"
    Sample.albumPayload Sample.album
  obtain ⟨post, s', h⟩ := hok rfl (by decide) (by decide) (by decide) Sample.album_ready
  obtain ⟨v, hv, hpost, himages⟩ := hshows post s' h
  exact ⟨⟨post, s', h, v, hv, hpost, himages.trans (by decide)⟩, hslides _ _ (by decide)⟩

end Relay
