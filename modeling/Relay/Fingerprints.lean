import Relay.Model.Services

/-!
# What a fingerprint is taken of

`request_fingerprint` hashes the JSON text of a dictionary, compact and with sorted keys, in which a
value that JSON does not know is replaced by its `str`.

* `PayloadValue`, `RequestPayload`: the values that the callers put into the dictionary, and the
  dictionaries that they build;
* `canonicalOf_eq_iff_of_typed`: the text determines a dictionary whose values have the types that go
  with their keys;
* `canonicalOf_eq_iff`: the dictionaries of the callers are such;
* `PostPayload.eq_of_requestFingerprint`, `ScheduleCall.eq_of_requestFingerprint`: what a digest tells.
-/

namespace Relay

/-! ### Dictionaries -/

/-- A value of a dictionary that is fingerprinted. -/
inductive PayloadValue
  | uuid (value : Uuid)
  | str (value : String)
  | uuids (values : List Uuid)
  deriving DecidableEq

/-- The value as `json.dumps(..., default=str)` writes it. -/
def PayloadValue.toJson : PayloadValue → Json
  | uuid value => .str value.text
  | str value => .str value
  | uuids values => .arr (values.map fun i => .str i.text)

/-- The text that `request_fingerprint` hashes, of a dictionary in the order of its insertions. -/
def canonicalOf (d : List (String × PayloadValue)) : String :=
  canonical (d.map fun f => (f.1, f.2.toJson))

/-- A payload that is fingerprinted: the data of a draft, or of a publication. -/
inductive RequestPayload
  | draft (payload : PostPayload)
  | schedule (postVariant channelConnection : Uuid) (scheduledFor : String)
  deriving DecidableEq

/-- The dictionary of a payload. -/
def RequestPayload.entries : RequestPayload → List (String × PayloadValue)
  | draft p =>
    ("brand_id", .uuid p.brandId) :: ((p.title.map fun t => ("title", PayloadValue.str t)).toList ++
      [("body", .str p.body), ("media_asset_ids", .uuids p.mediaAssetIds)])
  | schedule postVariant channelConnection scheduledFor =>
    [("post_variant_id", .str postVariant.text),
      ("channel_connection_id", .str channelConnection.text), ("scheduled_for", .str scheduledFor)]

theorem PostPayload.canonical_toFields (p : PostPayload) :
    canonical p.toFields = canonicalOf (RequestPayload.draft p).entries := by
  rcases p with ⟨brandId, title, body, mediaAssetIds⟩
  cases title <;> rfl

/-- The payload of a call of `schedule_publication`. -/
def ScheduleCall.request (c : ScheduleCall) : RequestPayload :=
  .schedule c.postVariant.id c.channelConnection.id c.scheduledFor.isoformat

theorem ScheduleCall.canonical_payload (c : ScheduleCall) :
    canonical c.payload = canonicalOf c.request.entries := rfl

/-! ### Values and their keys -/

/-- The value has the type that the callers give to the values of the key. -/
def PayloadValue.Fits (key : String) : PayloadValue → Prop
  | uuid _ => key = "brand_id"
  | uuids _ => key = "media_asset_ids"
  | str _ => key ≠ "brand_id" ∧ key ≠ "media_asset_ids"

/-- Under one key the coercion of UUIDs to texts loses nothing. -/
theorem PayloadValue.eq_of_toJson {key : String} {v w : PayloadValue} (hv : v.Fits key)
    (hw : w.Fits key) (h : v.toJson = w.toJson) : v = w := by
  cases v with
  | uuid a =>
    cases w with
    | uuid b => rw [Uuid.text_injective (Json.str.inj h)]
    | str t => exact absurd hv hw.1
    | uuids bs => cases h
  | str s =>
    cases w with
    | uuid b => exact absurd hw hv.1
    | str t => rw [Json.str.inj h]
    | uuids bs => cases h
  | uuids as =>
    cases w with
    | uuid b => cases h
    | str t => cases h
    | uuids bs =>
      have hids : as = bs := List.map_injective_iff.2
        (fun x y hxy => Uuid.text_injective (Json.str.inj hxy)) (Json.arr.inj h)
      rw [hids]

theorem PayloadValue.textual (v : PayloadValue) : v.toJson.Textual := by
  cases v <;> simp [toJson, Json.Textual]

/-- A dictionary: distinct keys, with the types that go with them. -/
structure Typed (d : List (String × PayloadValue)) : Prop where
  nodup : (d.map Prod.fst).Nodup
  fits : ∀ f ∈ d, f.2.Fits f.1

theorem Typed.perm {d e : List (String × PayloadValue)} (h : d.Perm e) (he : Typed e) : Typed d where
  nodup := (h.map Prod.fst).nodup_iff.2 he.nodup
  fits f hf := he.fits f (h.mem_iff.1 hf)

theorem RequestPayload.typed (p : RequestPayload) : Typed p.entries := by
  cases p with
  | draft p =>
    rcases p with ⟨brandId, title, body, mediaAssetIds⟩
    cases title <;> exact ⟨by simp [entries], by simp [entries, PayloadValue.Fits]⟩
  | schedule v c t => exact ⟨by simp [entries], by simp [entries, PayloadValue.Fits]⟩

theorem Typed.fits_of_lookup {d : List (String × PayloadValue)} (hd : Typed d) {key : String}
    {v : PayloadValue} (h : d.lookup key = some v) : v.Fits key := by
  obtain ⟨before, after, rfl, -⟩ := List.lookup_eq_some_iff.1 h
  exact hd.fits (key, v) (by simp)

theorem get_toJson (d : List (String × PayloadValue)) (key : String) :
    Json.get (d.map fun f => (f.1, f.2.toJson)) key = (d.lookup key).map PayloadValue.toJson := by
  induction d with
  | nil => rfl
  | cons f d ih =>
    obtain ⟨k, v⟩ := f
    by_cases hkey : k = key
    · subst hkey
      simp [Json.get]
    · have hne : (key == k) = false := by simpa using Ne.symm hkey
      rw [List.lookup_cons, hne, ← ih]
      simp [Json.get, hkey]

/-- **The text determines a dictionary**, up to the order of its keys, and nothing else does. -/
theorem canonicalOf_eq_iff_of_typed {d e : List (String × PayloadValue)} (hd : Typed d) (he : Typed e) :
    canonicalOf d = canonicalOf e ↔ ∀ key, d.lookup key = e.lookup key := by
  have hkeys : ∀ d : List (String × PayloadValue),
      (d.map fun f => (f.1, f.2.toJson)).map Prod.fst = d.map Prod.fst := fun d => by
    rw [List.map_map]
    rfl
  have htextual : ∀ d : List (String × PayloadValue),
      ∀ f ∈ d.map fun f => (f.1, f.2.toJson), f.2.Textual := by
    rintro d f hf
    obtain ⟨g, -, rfl⟩ := List.mem_map.1 hf
    exact g.2.textual
  have hget := Json.dumps_sortFields_inj (by rw [hkeys]; exact hd.nodup) (by rw [hkeys]; exact he.nodup)
    (htextual d) (htextual e)
  rw [canonicalOf, canonicalOf, canonical, canonical, String.ofList_inj, hget]
  refine forall_congr' fun key => ?_
  rw [get_toJson, get_toJson]
  constructor
  · intro h
    cases hv : d.lookup key with
    | none =>
      rw [hv, Option.map_none, eq_comm, Option.map_eq_none_iff] at h
      exact h.symm
    | some v =>
      rw [hv, Option.map_some, eq_comm, Option.map_eq_some_iff] at h
      obtain ⟨w, hw, hvw⟩ := h
      rw [hw, PayloadValue.eq_of_toJson (he.fits_of_lookup hw) (hd.fits_of_lookup hv) hvw]
  · intro h
    rw [h]

/-! ### The payloads of the callers -/

/-- Whatever the order of their keys, two payloads have one text exactly when they are equal as
dictionaries. -/
theorem canonicalOf_eq_iff {p q : RequestPayload} {d e : List (String × PayloadValue)}
    (hd : d.Perm p.entries) (he : e.Perm q.entries) :
    canonicalOf d = canonicalOf e ↔ ∀ key, d.lookup key = e.lookup key :=
  canonicalOf_eq_iff_of_typed (p.typed.perm hd) (q.typed.perm he)

namespace Sample

/-- A draft with a quotation mark, a backslash, a control character and others beyond ASCII. -/
def quotedDraft : RequestPayload :=
  .draft ⟨.ofNat 2, some "\\ \" \x07", "é\n日本", [.ofNat 10, .ofNat 11]⟩

/-- The same draft without its quotation mark. -/
def unquotedDraft : RequestPayload :=
  .draft ⟨.ofNat 2, some "\\  \x07", "é\n日本", [.ofNat 10, .ofNat 11]⟩

/-- The quoted draft in the reverse order of its keys, beside itself and the other one. -/
theorem canonicalOf_eq_iff_sample :
    (∀ key, quotedDraft.entries.reverse.lookup key = quotedDraft.entries.lookup key) ∧
      canonicalOf quotedDraft.entries.reverse ≠ canonicalOf unquotedDraft.entries := by
  constructor
  · exact (canonicalOf_eq_iff (List.reverse_perm _) (.refl _)).1 (by decide +kernel)
  · intro h
    have htitle := (canonicalOf_eq_iff (List.reverse_perm _) (.refl _)).1 h "title"
    exact absurd htitle (by decide +kernel)

end Sample

theorem lookup_draft (p : PostPayload) :
    (RequestPayload.draft p).entries.lookup "brand_id" = some (.uuid p.brandId) ∧
      (RequestPayload.draft p).entries.lookup "title" = p.title.map .str ∧
      (RequestPayload.draft p).entries.lookup "body" = some (.str p.body) ∧
      (RequestPayload.draft p).entries.lookup "media_asset_ids" = some (.uuids p.mediaAssetIds) := by
  rcases p with ⟨brandId, title, body, mediaAssetIds⟩
  cases title <;> exact ⟨rfl, rfl, rfl, rfl⟩

theorem lookup_schedule (postVariant channelConnection : Uuid) (scheduledFor : String) :
    (RequestPayload.schedule postVariant channelConnection scheduledFor).entries.lookup
        "post_variant_id" = some (.str postVariant.text) ∧
      (RequestPayload.schedule postVariant channelConnection scheduledFor).entries.lookup
        "channel_connection_id" = some (.str channelConnection.text) ∧
      (RequestPayload.schedule postVariant channelConnection scheduledFor).entries.lookup
        "scheduled_for" = some (.str scheduledFor) := ⟨rfl, rfl, rfl⟩

theorem draft_eq_of_lookup {p q : PostPayload}
    (h : ∀ key, (RequestPayload.draft p).entries.lookup key = (RequestPayload.draft q).entries.lookup key) :
    p = q := by
  obtain ⟨hbrand, htitle, hbody, hids⟩ := lookup_draft p
  obtain ⟨hbrand', htitle', hbody', hids'⟩ := lookup_draft q
  rw [h] at hbrand htitle hbody hids
  have brand : p.brandId = q.brandId := by simpa using hbrand.symm.trans hbrand'
  have title : p.title = q.title :=
    Option.map_injective (fun s t => PayloadValue.str.inj) (htitle.symm.trans htitle')
  have body : p.body = q.body := by simpa using hbody.symm.trans hbody'
  have ids : p.mediaAssetIds = q.mediaAssetIds := by simpa using hids.symm.trans hids'
  cases p
  cases q
  simp only at brand title body ids
  rw [brand, title, body, ids]

/-- The dictionary determines the payload. -/
theorem RequestPayload.eq_of_lookup {p q : RequestPayload}
    (h : ∀ key, p.entries.lookup key = q.entries.lookup key) : p = q := by
  cases p with
  | draft p =>
    cases q with
    | draft q => rw [draft_eq_of_lookup h]
    | schedule v c t => cases (lookup_draft p).1.symm.trans (h "brand_id")
  | schedule v c t =>
    cases q with
    | draft q => cases (h "brand_id").trans (lookup_draft q).1
    | schedule v' c' t' =>
      obtain ⟨hvariant, hconnection, hdate⟩ := lookup_schedule v c t
      obtain ⟨hvariant', hconnection', hdate'⟩ := lookup_schedule v' c' t'
      rw [h] at hvariant hconnection hdate
      have variant : v.text = v'.text := by simpa using hvariant.symm.trans hvariant'
      have connection : c.text = c'.text := by simpa using hconnection.symm.trans hconnection'
      have date : t = t' := by simpa using hdate.symm.trans hdate'
      rw [Uuid.text_injective variant, Uuid.text_injective connection, date]

/-! ### Digests -/

section Digests

variable {env : Env}

theorem RequestPayload.eq_of_sha256 (hsha : Function.Injective env.sha256) {p q : RequestPayload}
    (h : env.sha256 (canonicalOf p.entries) = env.sha256 (canonicalOf q.entries)) : p = q :=
  eq_of_lookup ((canonicalOf_eq_iff_of_typed p.typed q.typed).1 (hsha h))

/-- A digest determines the body of a draft. -/
theorem PostPayload.eq_of_requestFingerprint (hsha : Function.Injective env.sha256) {a b : PostPayload}
    (h : requestFingerprint env a.toFields = requestFingerprint env b.toFields) : a = b := by
  rw [requestFingerprint, requestFingerprint, canonical_toFields, canonical_toFields] at h
  exact RequestPayload.draft.inj (RequestPayload.eq_of_sha256 hsha h)

/-- A digest determines what is to be published, where and when. -/
theorem ScheduleCall.eq_of_requestFingerprint (hsha : Function.Injective env.sha256)
    {a b : ScheduleCall} (h : requestFingerprint env a.payload = requestFingerprint env b.payload) :
    a.request = b.request := by
  rw [requestFingerprint, requestFingerprint, canonical_payload, canonical_payload] at h
  exact RequestPayload.eq_of_sha256 hsha h

end Digests

end Relay
