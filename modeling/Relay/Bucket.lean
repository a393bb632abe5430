import Relay.Authorization
import Relay.Provenance

/-!
# The bucket

Objects live in a bucket beside the database.  An upload intent gives out a signed URL, which lets
its holder write the object of one key until it expires; the URL fixes the content type and, if a
checksum was declared, the checksum, but not the size.  A confirmation looks at the object once.

* `Depot`, `depot`: the relay with its bucket;
* `storageKey_injective`: no two assets share a key;
* `Shelved`: what the bucket holds was written through the grants of its assets;
* `delivered_object`: the object of an image that is delivered has the content type of the asset,
  and is the object that was confirmed unless it was written again afterwards.
-/

namespace Relay

open Relational Transition

/-! ### The relay with its bucket -/

/-- An object of the bucket. -/
structure StoredObject where
  size : ℕ
  contentType : String
  /-- the metadata `sha256` -/
  sha256 : Option String
  deriving DecidableEq

/-- What `head_object` tells of it. -/
def StoredObject.metadata (o : StoredObject) : ObjectMetadata := ⟨some o.size, some o.contentType, o.sha256⟩

/-- A signed upload URL and what it lets its holder do: `presigned_upload_url`. -/
structure UploadGrant where
  url : String
  storageKey : String
  contentType : String
  checksum : String
  expiresAt : Time
  deriving DecidableEq

/-- The bucket accepts a PUT of the object with the URL. -/
def UploadGrant.admits (g : UploadGrant) (now : Time) (o : StoredObject) : Bool :=
  now < g.expiresAt && o.contentType = g.contentType &&
    (g.checksum = "" || o.sha256 = some g.checksum)

/-- The relay, the objects of its bucket, and the upload URLs it has signed. -/
structure Depot where
  sys : Sys
  objects : String → Option StoredObject
  grants : List UploadGrant

inductive DepotLabel
  | sys (label : Label)
  /-- the holder of an upload URL writes an object -/
  | put (grant : UploadGrant) (object : StoredObject)

inductive DepotOutput
  | sys (output : Output)
  | stored (storageKey : String)

/-- What `head_object` answers, where `fault` tells which requests raise. -/
def Depot.head (d : Depot) (fault : HeadObject) : HeadObject := fun key =>
  match fault key, d.objects key with
  | .error className, _ => .error className
  | .ok _, some o => .ok o.metadata
  | .ok _, none => .error "ClientError"

/-- The storage client of a transaction sees the bucket. -/
def Depot.label (d : Depot) : Label → Label
  | .commit k draws => .commit k { draws with head := d.head draws.head }
  | l => l

/-- The upload URL that a step has signed; `ttl` is `RELAY_MEDIA_URL_TTL_SECONDS`. -/
def signedGrant (ttl : ℤ) (now : Time) : Output → Option UploadGrant
  | .committed _ (.uploadIntent intent) _ =>
    some ⟨intent.uploadUrl, intent.asset.storageKey, intent.asset.contentType, intent.asset.checksum,
      now + seconds ttl⟩
  | _ => none

/-- One step, if the label applies. -/
def depotNext (env : Env) (publisher : Option Publisher) (ttl : ℤ) (d : Depot) :
    DepotLabel → Option (Depot × DepotOutput)
  | .sys l =>
    (next env publisher d.sys (d.label l)).map fun x =>
      ({ d with sys := x.1, grants := d.grants ++ (signedGrant ttl d.sys.clock x.2).toList }, .sys x.2)
  | .put g o =>
    if g ∈ d.grants ∧ g.admits d.sys.clock o then
      some ({ d with objects := Function.update d.objects g.storageKey (some o) }, .stored g.storageKey)
    else none

/-- The relay over an empty bucket. -/
def depot (env : Env) (publisher : Option Publisher) (ttl : ℤ) : Machine Depot (DepotLabel × DepotOutput) :=
  .ofLabels (fun d => (relay env publisher).start d.sys ∧ d.objects = (fun _ => none) ∧ d.grants = [])
    (depotNext env publisher ttl)

section Steps

variable {env : Env} {publisher : Option Publisher} {ttl : ℤ} {d d' : Depot}
  {e : DepotLabel × DepotOutput}

/-- A step of the depot is a step of the relay that may sign a URL, or a PUT. -/
theorem depot_step (h : (depot env publisher ttl).step d e d') :
    (∃ l o, e = (.sys l, .sys o) ∧ (relay env publisher).step d.sys (d.label l, o) d'.sys ∧
        d'.objects = d.objects ∧ d'.grants = d.grants ++ (signedGrant ttl d.sys.clock o).toList) ∨
      ∃ g o, e = (.put g o, .stored g.storageKey) ∧ g ∈ d.grants ∧ g.admits d.sys.clock o = true ∧
        d' = { d with objects := Function.update d.objects g.storageKey (some o) } := by
  obtain ⟨⟨l⟩ | ⟨g, o⟩, out⟩ := e
  · obtain ⟨⟨s', o⟩, hnext, heq⟩ := Option.map_eq_some_iff.1 h
    cases heq
    exact .inl ⟨l, o, rfl, hnext, rfl, rfl⟩
  · have hput := (Option.ite_none_right_eq_some.1 h)
    obtain ⟨⟨hg, hadmits⟩, heq⟩ := hput
    cases heq
    exact .inr ⟨g, o, rfl, hg, hadmits, rfl⟩

/-- The relay of a depot runs as a relay. -/
theorem sys_reachable (h : Reachable (depot env publisher ttl) d) :
    Reachable (relay env publisher) d.sys := by
  refine h.invariant (I := fun d => Reachable (relay env publisher) d.sys) ?_ ?_
  · rintro d ⟨hstart, -, -⟩
    exact .of_start hstart
  · intro d e d' hd hstep
    rcases depot_step hstep with ⟨l, o, -, hsys, -, -⟩ | ⟨g, o, -, -, -, rfl⟩
    · exact hd.step hsys
    · exact hd

end Steps

/-! ### Storage keys -/

theorem length_uuid_text (u : Uuid) : u.text.toList.length = 36 := by
  have hdigits : u.digits.length = 32 := Text.length_hex 32 _
  simp [Uuid.text, Uuid.chars, hdigits]

/-- Texts of equal lengths between the same texts are equal. -/
theorem append_between {p q q' : List Char} {u u' : Uuid}
    (h : p ++ (u.text.toList ++ q) = p ++ (u'.text.toList ++ q')) : u = u' ∧ q = q' := by
  obtain ⟨htext, hrest⟩ := List.append_inj (List.append_cancel_left h)
    ((length_uuid_text u).trans (length_uuid_text u').symm)
  exact ⟨Uuid.text_injective (String.toList_inj.1 htext), hrest⟩

theorem storageKey_toList (env : Env) (tenant brand asset : Uuid) (filename : String) :
    (storageKey env tenant brand asset filename).toList =
      "relay/workspaces/".toList ++ (tenant.text.toList ++ ("/brands/".toList ++ (brand.text.toList ++
        ("/assets/".toList ++ (asset.text.toList ++ ("/".toList ++
          (safeFilename env filename).toList)))))) := by
  unfold storageKey
  rw [String.toList_append, String.toList_append, String.toList_append, String.toList_append,
    String.toList_append, String.toList_append, String.toList_append]
  simp only [List.append_assoc]

theorem storageKey_injective {env : Env} {tenant brand asset tenant' brand' asset' : Uuid}
    {filename filename' : String}
    (h : storageKey env tenant brand asset filename = storageKey env tenant' brand' asset' filename') :
    asset = asset' := by
  have hchars := congrArg String.toList h
  rw [storageKey_toList, storageKey_toList] at hchars
  exact (append_between (append_between (append_between hchars).2).2).1

/-! ### What the bucket holds -/

section Shelves

variable {env : Env} {publisher : Option Publisher} {ttl : ℤ}

/-- Every asset is stored under its own identifier. -/
theorem storageKey_of_reachable {s : Sys} (h : Reachable (relay env publisher) s) :
    ∀ a ∈ s.store.assets, ∃ filename, a.storageKey = storageKey env a.tenant a.brand a.id filename := by
  refine h.invariant (I := fun s => ∀ a ∈ s.store.assets,
    ∃ filename, a.storageKey = storageKey env a.tenant a.brand a.id filename) ?_ ?_
  · rintro _ ⟨tenants, brands, memberships, clock, rfl⟩ a ha
    exact absurd ha (Table.not_mem_empty a)
  · intro s e t hs hstep a' ha'
    rcases (next_step hstep).store with hsame | hcommit
    · exact hs a' (hsame ▸ ha')
    · rcases hcommit.asset_origin ha' with ⟨a, ha, hbecomes⟩ | ⟨_, _, _, _, _, upload, -, rfl⟩
      · obtain ⟨_, _, rfl, -⟩ := hbecomes
        exact hs a ha
      · exact ⟨upload.filename, rfl⟩

/-- No two assets share a key. -/
theorem asset_of_storageKey {s : Sys} (h : Reachable (relay env publisher) s) {a a' : MediaAsset}
    (ha : a ∈ s.store.assets) (ha' : a' ∈ s.store.assets) (hkey : a.storageKey = a'.storageKey) :
    a = a' := by
  obtain ⟨filename, hstored⟩ := storageKey_of_reachable h a ha
  obtain ⟨filename', hstored'⟩ := storageKey_of_reachable h a' ha'
  exact Table.eq_of_key ha ha' (storageKey_injective (hstored.symm.trans (hkey.trans hstored')))

/-- The grants are those of the assets, and the objects were written through grants. -/
structure Shelved (d : Depot) : Prop where
  grants : ∀ g ∈ d.grants, ∃ a ∈ d.sys.store.assets,
    a.storageKey = g.storageKey ∧ a.contentType = g.contentType
  objects : ∀ key o, d.objects key = some o →
    ∃ g ∈ d.grants, g.storageKey = key ∧ o.contentType = g.contentType

/-- The URL that a step signs is for the asset that it announces. -/
theorem signedGrant_asset {s s' : Sys} {l : Label} {o : Output} {g : UploadGrant}
    (h : (relay env publisher).step s (l, o) s') (hg : signedGrant ttl s.clock o = some g) :
    ∃ a ∈ s'.store.assets, a.storageKey = g.storageKey ∧ a.contentType = g.contentType := by
  have hstep := next_step h
  cases hstep with
  | committed ticket effect =>
    cases effect with
    | uploadIntended _ _ insert =>
      cases hg
      exact ⟨_, Table.mem_self_insert? insert, rfl, rfl⟩
    | _ => cases hg
  | _ => cases hg

theorem Shelved.step {d d' : Depot} {e : DepotLabel × DepotOutput} (h : Shelved d)
    (hstep : (depot env publisher ttl).step d e d') : Shelved d' := by
  rcases depot_step hstep with ⟨l, o, -, hsys, hobjects, hgrants⟩ | ⟨g, o, -, hg, hadmits, rfl⟩
  · constructor
    · intro g hg
      rw [hgrants] at hg
      rcases List.mem_append.1 hg with hg | hg
      · obtain ⟨a, ha, hkey, htype⟩ := h.grants g hg
        obtain ⟨a', ha', hbecomes⟩ := (next_step hsys).evolves.assets a ha
        obtain ⟨_, _, rfl, -⟩ := hbecomes
        exact ⟨_, ha', hkey, htype⟩
      · exact signedGrant_asset hsys (Option.mem_toList.1 hg)
    · intro key o hkey
      rw [hobjects] at hkey
      obtain ⟨g, hg, hrest⟩ := h.objects key o hkey
      exact ⟨g, hgrants ▸ List.mem_append_left _ hg, hrest⟩
  · refine ⟨h.grants, fun key o' hkey => ?_⟩
    dsimp only at hkey
    rw [Function.update_apply] at hkey
    split at hkey
    · rename_i hk
      cases hkey
      have htype : o.contentType = g.contentType := by
        simp only [UploadGrant.admits, Bool.and_eq_true, decide_eq_true_eq] at hadmits
        exact hadmits.1.2
      exact ⟨g, hg, hk.symm, htype⟩
    · exact h.objects key o' hkey

theorem shelved_of_reachable {d : Depot} (h : Reachable (depot env publisher ttl) d) : Shelved d := by
  refine h.invariant ?_ fun _ _ _ hd hstep => hd.step hstep
  rintro d ⟨-, hobjects, hgrants⟩
  refine ⟨fun g hg => ?_, fun key o hkey => ?_⟩
  · rw [hgrants] at hg
    cases hg
  · rw [hobjects] at hkey
    cases hkey

/-- The object of an asset has the content type of the asset. -/
theorem contentType_of_object {d : Depot} (h : Reachable (depot env publisher ttl) d) {a : MediaAsset}
    {o : StoredObject} (ha : a ∈ d.sys.store.assets) (ho : d.objects a.storageKey = some o) :
    o.contentType = a.contentType := by
  have hshelved := shelved_of_reachable h
  obtain ⟨g, hg, hkey, htype⟩ := hshelved.objects _ _ ho
  obtain ⟨a', ha', hkey', htype'⟩ := hshelved.grants g hg
  rw [asset_of_storageKey (sys_reachable h) ha ha' (hkey.symm.trans hkey'.symm), htype, htype']

end Shelves

/-! ### Confirmation -/

/-- An asset is ready after a transaction that was not before: its object was looked at. -/
theorem Effect.confirms {env : Env} {w : World} {c : Command} {r : Reply} {s s' : Store}
    (h : Effect env w c r s s') {a' : MediaAsset} (ha' : a' ∈ s'.assets)
    (ready : a'.uploadState = .ready) :
    (∃ a ∈ s.assets, a.id = a'.id ∧ a.uploadState = .ready) ∨
      ∃ row ∈ s.assets, ∃ tenant subject confirmed metadata, row.Becomes a' ∧
        c = .confirmMediaUpload row.id tenant subject ∧ r = .confirmed confirmed ∧
        w.head row.storageKey = .ok metadata ∧ metadata.mismatch row = false := by
  cases h with
  | uploadIntended _ _ insert =>
    rcases (Table.mem_insert? insert).1 ha' with ha' | rfl
    · exact .inl ⟨a', ha', rfl, ready⟩
    · cases ready
  | @confirmed asset tenant subject _ row metadata mem id _ _ object same =>
    subst id
    rcases Table.of_mem_update mem ha' with rfl | ⟨ha', -⟩
    · exact .inr ⟨row, mem, tenant, subject, _, metadata, ⟨_, _, rfl, fun _ => rfl⟩, rfl, rfl, object,
        same⟩
    · exact .inl ⟨a', ha', rfl, ready⟩
  | _ => exact .inl ⟨a', ha', rfl, ready⟩

section Confirmation

variable {env : Env} {publisher : Option Publisher} {ttl : ℤ} {d d' : Depot}
  {es : List (DepotLabel × DepotOutput)}

/-- An object that `head_object` finds. -/
theorem head_eq_ok {fault : HeadObject} {key : String} {metadata : ObjectMetadata}
    (h : d.head fault key = .ok metadata) : ∃ o, d.objects key = some o ∧ metadata = o.metadata := by
  unfold Depot.head at h
  split at h
  · cases h
  · rename_i hobject
    cases h
    exact ⟨_, hobject, rfl⟩
  · cases h

/-- The event is the confirmation of an asset. -/
def Confirms (asset : Uuid) (e : DepotLabel × DepotOutput) : Prop :=
  ∃ k draws tenant subject row response, e = (.sys (.commit k draws),
    .sys (.committed (.confirmMediaUpload asset tenant subject) (.confirmed row) response))

/-- Only the transactions of web processes touch the assets. -/
theorem next_assets {s s' : Sys} {l : Label} {o : Output} (h : next env publisher s l = some (s', o))
    (hl : ∀ k draws, l ≠ .commit k draws) : s'.store.assets = s.store.assets := by
  cases next_step h with
  | refused => exact absurd rfl (hl _ _)
  | committed => exact absurd rfl (hl _ _)
  | claimed _ _ claimed => cases claimed; rfl
  | finished _ finished => cases finished <;> rfl
  | _ => rfl

/-- The step after which an asset is ready. -/
theorem depot_confirms {e : DepotLabel × DepotOutput} (hstep : (depot env publisher ttl).step d e d')
    {a : MediaAsset} (ha : a ∈ d'.sys.store.assets) (ready : a.uploadState = .ready)
    (unready : ¬ ∃ x ∈ d.sys.store.assets, x.id = a.id ∧ x.uploadState = .ready) :
    Confirms a.id e ∧ d'.objects = d.objects ∧
      ∃ o, d.objects a.storageKey = some o ∧ o.metadata.mismatch a = false := by
  rcases depot_step hstep with ⟨l, out, rfl, hsys, hobjects, -⟩ | ⟨g, o, -, -, -, rfl⟩
  swap
  · exact absurd ⟨a, ha, rfl, ready⟩ unready
  have hsame : d'.sys.store.assets ≠ d.sys.store.assets := fun h =>
    unready ⟨a, h ▸ ha, rfl, ready⟩
  cases l with
  | commit k draws =>
    obtain ⟨c, -, ⟨_, -, hstate, -⟩ | ⟨r, store, hrun, hstate, rfl⟩⟩ := next_commit hsys
    · exact absurd (by rw [hstate]; rfl) hsame
    · rw [hstate] at ha
      rcases (runCommand_effect hrun).confirms ha ready with
        hold | ⟨row, -, tenant, subject, confirmed, metadata, hbecomes, rfl, rfl, hhead, hmatch⟩
      · exact absurd hold unready
      · obtain ⟨o, ho, rfl⟩ := head_eq_ok hhead
        obtain ⟨_, _, rfl, -⟩ := hbecomes
        exact ⟨⟨k, draws, tenant, subject, confirmed, _, rfl⟩, hobjects, o, ho, hmatch⟩
  | _ => exact absurd (next_assets hsys fun k draws h => by cases h) hsame

/-- Without a PUT of the key, its object stays. -/
theorem object_kept (h : Trail (depot env publisher ttl) d es d') {key : String}
    (noPut : ∀ x ∈ es, x.2 ≠ .stored key) : d'.objects key = d.objects key := by
  induction h with
  | stay => rfl
  | move head _ ih =>
    rw [ih fun x hx => noPut x (List.mem_cons_of_mem _ hx)]
    rcases depot_step head with ⟨_, _, -, -, hobjects, -⟩ | ⟨g, o, rfl, -, -, rfl⟩
    · rw [hobjects]
    · have hkey : key ≠ g.storageKey := by
        rintro rfl
        exact noPut _ List.mem_cons_self rfl
      exact Function.update_of_ne hkey _ _

/-- Objects are replaced, but not removed. -/
theorem object_remains (h : Trail (depot env publisher ttl) d es d') {key : String}
    (ho : ∃ o, d.objects key = some o) : ∃ o, d'.objects key = some o := by
  refine h.invariant (I := fun d => ∃ o, d.objects key = some o) (fun d e d' ho hstep => ?_) ho
  rcases depot_step hstep with ⟨_, _, -, -, hobjects, -⟩ | ⟨g, o, -, -, -, rfl⟩
  · rw [hobjects]
    exact ho
  · by_cases hkey : key = g.storageKey
    · exact ⟨o, by rw [hkey]; exact Function.update_self _ _ _⟩
    · obtain ⟨o', ho'⟩ := ho
      exact ⟨o', (Function.update_of_ne hkey _ _).trans ho'⟩

/-- Along a run of the depot the store evolves. -/
theorem depot_evolves (h : Trail (depot env publisher ttl) d es d') :
    Evolves d.sys.store d'.sys.store := by
  refine h.relates (I := fun _ => True) (R := fun a b => Evolves a.sys.store b.sys.store)
    (fun d => .refl d.sys.store) Evolves.trans (fun _ _ _ _ _ => trivial) (fun d e d' _ hstep => ?_) trivial
  rcases depot_step hstep with ⟨_, _, -, hsys, -, -⟩ | ⟨_, _, -, -, -, rfl⟩
  · exact (next_step hsys).evolves
  · exact .refl _

end Confirmation

/-! ### Delivery -/

/-- A worker is about to hand Meta a URL of the asset. -/
def Hands (env : Env) (s : Sys) (a : MediaAsset) : Prop :=
  ∃ k publication claim q rest signer url,
    s.workers k = some ⟨publication, .publishing claim (.ask q rest)⟩ ∧
    a ∈ orderedMediaAssets s.store claim.postVariant ∧
    publishableImageUrl env.toSettings signer a = .ok url ∧
    (q.field "url" = some url ∨ q.field "image_url" = some url)

/-- The object of an asset, after the run `es`, against what was confirmed. -/
structure Verified (env : Env) (publisher : Option Publisher) (ttl : ℤ) (d₀ : Depot)
    (es : List (DepotLabel × DepotOutput)) (d : Depot) (a : MediaAsset) : Prop where
  /-- there is an object, with the content type of the asset -/
  contentType : ∃ o, d.objects a.storageKey = some o ∧ o.contentType = a.contentType
  /-- a confirmation has found an object of the size announced, which is still there if the key was
  not written after that -/
  confirmed : ∃ es₁ e es₂ d₁ o, es = es₁ ++ e :: es₂ ∧ Trail (depot env publisher ttl) d₀ es₁ d₁ ∧
    Confirms a.id e ∧ d₁.objects a.storageKey = some o ∧ o.size = a.sizeBytes ∧
    o.metadata.mismatch a = false ∧
    ((∀ x ∈ es₂, x.2 ≠ .stored a.storageKey) → d.objects a.storageKey = some o)

/-- **The object of an image that Meta is handed has the content type of its asset, and it is the
object that was confirmed, with its size, unless it was written again after that.** -/
theorem delivered_object {env : Env} {publisher : Option Publisher} {ttl : ℤ} {d₀ d : Depot}
    {es : List (DepotLabel × DepotOutput)} {a : MediaAsset}
    (start : (depot env publisher ttl).start d₀) (run : Trail (depot env publisher ttl) d₀ es d)
    (hands : Hands env d.sys a) : Verified env publisher ttl d₀ es d a := by
  have hreach : Reachable (depot env publisher ttl) d := (Reachable.of_start start).trail run
  obtain ⟨k, publication, claim, q, rest, -, -, worker, hmedia, -⟩ := hands
  -- what a worker delivers is ready
  obtain ⟨hv, -⟩ := holds_postVariant (sys_reachable hreach) ⟨_, worker, rfl⟩
  obtain ⟨ha, hid⟩ := mem_of_orderedMediaAssets hv hmedia
  have hready : a.uploadState = .ready := by
    obtain ⟨_, hcoherent⟩ := (coherent_of_reachable (sys_reachable hreach)).variants _ hv
    obtain ⟨a', ha', hid', hready, -⟩ := hcoherent.ready _ hid
    rw [Table.eq_of_key ha ha' hid'.symm]
    exact hready
  -- it was made ready by a confirmation
  have hnone : ¬ ∃ x ∈ d₀.sys.store.assets, x.id = a.id ∧ x.uploadState = .ready := by
    obtain ⟨⟨_, _, _, _, hsys⟩, -, -⟩ := start
    rintro ⟨x, hx, -⟩
    rw [hsys] at hx
    exact Table.not_mem_empty x hx
  obtain ⟨es₁, e, es₂, d₁, d₂, rfl, before, hunready, hstep, ⟨x, hx, hxid, hxready⟩, after⟩ :=
    run.exists_switch (P := fun d => ∃ x ∈ d.sys.store.assets, x.id = a.id ∧ x.uploadState = .ready)
      hnone ⟨a, ha, rfl, hready⟩
  obtain ⟨hconfirms, hobjects, o, ho, hmatch⟩ := depot_confirms hstep hx hxready (hxid.symm ▸ hunready)
  -- since then the asset has kept its key, its type and its size
  obtain ⟨_, _, rfl, -⟩ : x.Becomes a :=
    (depot_evolves after).assets.related (fun hR => by obtain ⟨_, _, rfl, -⟩ := hR; rfl) hx ha hxid
  have hsize : o.size = x.sizeBytes := by
    have hparts := hmatch
    simp only [ObjectMetadata.mismatch, Bool.or_eq_false_iff] at hparts
    simpa [StoredObject.metadata] using hparts.1.1
  constructor
  · obtain ⟨o', ho'⟩ := object_remains after ⟨o, by rw [hobjects]; exact ho⟩
    exact ⟨o', ho', contentType_of_object hreach ha ho'⟩
  · refine ⟨es₁, e, es₂, d₁, o, rfl, before, hconfirms, ho, hsize, hmatch, fun noPut => ?_⟩
    rw [object_kept after noPut, hobjects]
    exact ho

namespace Sample

/-- An empty bucket. -/
def emptyDepot : Depot := ⟨start, fun _ => none, []⟩

theorem emptyDepot_isStart : (depot env none 900).start emptyDepot := ⟨start_isStart none, rfl, rfl⟩

/-- The URL for the image. -/
def imageGrant : UploadGrant :=
  ⟨"https://b2.example/" ++ storageKey env workspace brand asset "a.png",
    storageKey env workspace brand asset "a.png", "image/png", "", seconds 900⟩

/-- An image of `n` bytes is written. -/
def putting (n : ℕ) : List DepotLabel := [.put imageGrant ⟨n, "image/png", none⟩]

/-- An image of one byte is announced, written and confirmed. -/
def confirming : List DepotLabel :=
  (panel (.createUploadIntent ⟨brand, "a.png", "image/png", 1, none⟩) 10).map .sys ++ putting 1 ++
    (panel (.confirmUpload asset) 0).map .sys

/-- It is posted, approved and scheduled, and after a minute a worker calls the publisher. -/
def delivering : List DepotLabel :=
  (panel (.createPost (some "k") ⟨brand, none, "Hello", some [asset]⟩) 20 ++
    panel (.approvePost post) 0 ++ connecting .metaFacebookPage ++ scheduling ++
    claiming 60000000 60 ++ [Label.prepare 0 (draws 0).signer]).map .sys

/-- The first worker is about to hand over the URL of an asset that meets `p`. -/
def handsOver (p : MediaAsset → Bool) (s : Sys) : Bool :=
  match s.workers 0 with
  | some ⟨_, .publishing claim (.ask q _)⟩ =>
    (orderedMediaAssets s.store claim.postVariant).any fun a =>
      p a && decide (q.field "url" = some ("https://b2.example/" ++ a.storageKey))
  | _ => false

theorem exists_of_handsOver {p : MediaAsset → Bool} {s : Sys} (h : handsOver p s = true) :
    ∃ a, Hands env s a ∧ p a = true := by
  unfold handsOver at h
  split at h
  · rename_i publication claim q rest worker
    obtain ⟨a, ha, hp⟩ := List.any_eq_true.1 h
    rw [Bool.and_eq_true, decide_eq_true_iff] at hp
    have hurl : publishableImageUrl env.toSettings (draws 0).signer a =
        .ok ("https://b2.example/" ++ a.storageKey) := rfl
    exact ⟨a, ⟨0, publication, claim, q, rest, _, _, worker, ha, hurl, .inl hp.2⟩, hp.1⟩
  · cases h

end Sample

/-- An image that is written once. -/
theorem delivered_object_sample : ∃ es d a, Hands Sample.env d.sys a ∧
    Verified Sample.env none 900 Sample.emptyDepot es d a := by
  obtain ⟨es, d, run, -, hd⟩ := exists_of_runLabels
    (show ((runLabels (depotNext Sample.env none 900) (fun _ _ => true)
      (Sample.confirming ++ Sample.delivering) Sample.emptyDepot).any fun x =>
        Sample.handsOver (fun _ => true) x.2.sys) = true by decide +kernel)
  obtain ⟨a, hands, -⟩ := Sample.exists_of_handsOver hd
  exact ⟨es, d, a, hands, delivered_object Sample.emptyDepot_isStart run.of_guarded hands⟩

/-- An image that is written again, with two bytes, after its confirmation. -/
theorem delivered_unverified : ¬ ∀ (env : Env) (publisher : Option Publisher) (ttl : ℤ) (d₀ d : Depot)
    (es : List (DepotLabel × DepotOutput)) (a : MediaAsset), (depot env publisher ttl).start d₀ →
    Trail (depot env publisher ttl) d₀ es d → Hands env d.sys a →
    ∃ o, d.objects a.storageKey = some o ∧ o.size = a.sizeBytes ∧ o.contentType = a.contentType := by
  intro h
  obtain ⟨es, d, run, -, hd⟩ := exists_of_runLabels
    (show ((runLabels (depotNext Sample.env none 900) (fun _ _ => true)
      (Sample.confirming ++ Sample.putting 2 ++ Sample.delivering) Sample.emptyDepot).any fun x =>
        Sample.handsOver (fun a => (x.2.objects a.storageKey).any fun o => o.size ≠ a.sizeBytes)
          x.2.sys) = true by decide +kernel)
  obtain ⟨a, hands, ha⟩ := Sample.exists_of_handsOver hd
  obtain ⟨o, ho, hsize, -⟩ := h _ _ _ _ _ _ a Sample.emptyDepot_isStart run.of_guarded hands
  rw [ho, Option.any_some, decide_eq_true_iff] at ha
  exact ha hsize

end Relay
