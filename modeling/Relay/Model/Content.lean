import Relay.Library.Sequence
import Relay.Model.Records

/-!
# Media assets: `content/storage.py`, `content/delivery.py`, `content/services.py`

The object-storage client is a parameter of each function that calls it: what it answers, or the
exception it raises.
-/

namespace Relay

open Relational Sequence

/-! ### `content/storage.py` -/

/-- Why no signed URL is returned. -/
inductive StorageError
  | objectStorageNotConfigured
  /-- an exception of the storage client -/
  | other (className : String)
  deriving DecidableEq

/-- What `boto3` does with a request to sign: a URL, or the name of the exception it raises. -/
abbrev Signer := (storageKey : String) → Except String String

/-- All settings that `b2_client` requires are present. -/
def Settings.b2Configured (c : Settings) : Bool :=
  [c.b2EndpointUrl, c.b2Region, c.b2ApplicationKeyId, c.b2ApplicationKey, c.b2Bucket].all (· ≠ "")

/-- `presigned_download_url` and `presigned_upload_url`, for the storage client's answers. -/
def presignedUrl (c : Settings) (signer : Signer) (storageKey : String) :
    Except StorageError String :=
  if c.b2Configured then
    match signer storageKey with
    | .ok url => .ok url
    | .error className => .error (.other className)
  else .error .objectStorageNotConfigured

/-! ### `content/delivery.py` -/

/-- The exceptions of `publishable_image_url`. -/
inductive DeliveryUrlError
  | mediaDeliveryUnavailable (message : String)
  | other (className : String)
  deriving DecidableEq

/-- The URL by which Meta fetches one image. -/
def publishableImageUrl (c : Settings) (signer : Signer) (asset : MediaAsset) :
    Except DeliveryUrlError String :=
  match presignedUrl c signer asset.storageKey with
  | .ok url => .ok url
  | .error .objectStorageNotConfigured =>
    let baseUrl := rstripSlash c.relayMediaPublicBaseUrl
    if baseUrl ≠ "" then .ok (baseUrl ++ "/" ++ Text.quote asset.storageKey)
    else .error (.mediaDeliveryUnavailable "Media delivery is not configured.")
  | .error (.other className) => .error (.other className)

/-! ### `content/services.py` -/

def supportedImageTypes : List String := ["image/jpeg", "image/png"]

def maxImageBytes : ℕ := 10 * 1024 * 1024

def maxPostImages : ℕ := 10

/-- `_safe_filename`. -/
def safeFilename (env : Env) (filename : String) : String :=
  let name := Text.strip Text.isSpace (Text.pathName filename.toList)
  if name = [] then "image"
  else
    let kept := (name.filter fun c => env.alphanumeric c || c = '.' || c = '-' || c = '_').take 120
    if kept = [] then "image" else String.ofList kept

/-- `checksum.lower()`; the checksums that are accepted are hexadecimal. -/
def lowerChecksum (checksum : String) : String := String.ofList (checksum.toList.map Char.toLower)

/-- A non-empty checksum must be 64 hexadecimal digits. -/
def validChecksum (checksum : String) : Bool :=
  checksum = "" || (checksum.length = 64 &&
    (lowerChecksum checksum).toList.all fun c => "0123456789abcdef".toList.contains c)

/-- The opaque key under which an asset is stored. -/
def storageKey (env : Env) (tenant brand asset : Uuid) (filename : String) : String :=
  "relay/workspaces/" ++ tenant.text ++ "/brands/" ++ brand.text ++ "/assets/" ++ asset.text ++
    "/" ++ safeFilename env filename

/-- The arguments of an upload intent. -/
structure MediaUpload where
  filename : String
  contentType : String
  sizeBytes : ℕ
  checksum : String
  deriving DecidableEq

structure MediaUploadIntent where
  asset : MediaAsset
  uploadUrl : String
  deriving DecidableEq

/-- The row of an announced asset. -/
def newMediaAsset (env : Env) (now : Time) (id tenant brand : Uuid) (upload : MediaUpload) :
    MediaAsset :=
  { TimeStampedUUIDModel.new id now with
    tenant, brand
    storageKey := storageKey env tenant brand id upload.filename
    contentType := upload.contentType
    sizeBytes := upload.sizeBytes
    checksum := lowerChecksum upload.checksum
    uploadState := .pending }

/-- `create_media_upload_intent`. -/
def createMediaUploadIntent (env : Env) (signer : Signer) (now : Time) (assetId : Uuid)
    (tenant brand : Uuid) (subject : String) (upload : MediaUpload) (s : Store) :
    Except ServiceError (MediaUploadIntent × Store) :=
  if upload.contentType ∉ supportedImageTypes ∨
      ¬ (0 < upload.sizeBytes ∧ upload.sizeBytes ≤ maxImageBytes) then .error .invalidMediaAsset
  else if ¬ validChecksum upload.checksum then .error .invalidMediaAsset
  else do
    let asset := newMediaAsset env now assetId tenant brand upload
    let assets ← create s.assets asset
    match presignedUrl env.toSettings signer asset.storageKey with
    | .error .objectStorageNotConfigured => .error .mediaUploadUnavailable
    | .error (.other className) => .error (.other className)
    | .ok uploadUrl =>
      .ok (⟨asset, uploadUrl⟩, { s with assets }.log
        (serviceEvent tenant brand subject "media.upload_intent_created" "media_asset" asset.id
          [("content_type", .str upload.contentType), ("size_bytes", .int upload.sizeBytes)]))

/-- The parts of a `head_object` answer that are read. -/
structure ObjectMetadata where
  contentLength : Option ℕ
  contentType : Option String
  sha256 : Option String
  deriving DecidableEq

/-- What the storage client does with `head_object`: metadata, or an exception. -/
abbrev HeadObject := (storageKey : String) → Except String ObjectMetadata

/-- `text.split(";", 1)[0].lower()`. -/
def mediaType (contentType : String) : String :=
  String.ofList ((contentType.toList.takeWhile (· ≠ ';')).map Char.toLower)

/-- The object is not the one that was announced. -/
def ObjectMetadata.mismatch (m : ObjectMetadata) (asset : MediaAsset) : Bool :=
  let remoteChecksum := lowerChecksum (m.sha256.getD "")
  m.contentLength ≠ some asset.sizeBytes || mediaType (m.contentType.getD "") ≠ asset.contentType ||
    (asset.checksum ≠ "" && remoteChecksum ≠ "" && remoteChecksum ≠ asset.checksum)

/-- Sets the upload state of an asset. -/
def Store.setUploadState (s : Store) (now : Time) (asset : Uuid) (state : UploadState) : Store :=
  { s with
    assets := s.assets.update asset
      ⟨fun a => { a with uploadState := state, updatedAt := now }, fun _ => rfl⟩ }

/-- The body of `confirm_media_upload`: its outcome and what it has written by then. -/
def confirmMediaUploadBody (env : Env) (head : HeadObject) (now : Time) (assetId tenant : Uuid)
    (subject : String) (s : Store) : Except ServiceError MediaAsset × Store :=
  match s.assets.find? fun a => a.id = assetId && a.tenant = tenant with
  | none => (.error .doesNotExist, s)
  | some asset =>
    if asset.uploadState = .ready then (.ok asset, s)
    else if asset.uploadState ≠ .pending then (.error .invalidMediaAsset, s)
    else if ¬ env.b2Configured then (.error .mediaUploadUnavailable, s)
    else match head asset.storageKey with
    | .error _ => (.error .mediaUploadUnavailable, s)
    | .ok metadata =>
      if metadata.mismatch asset then
        (.error .invalidMediaAsset, s.setUploadState now asset.id .failed)
      else
        (.ok { asset with uploadState := .ready, updatedAt := now },
          (s.setUploadState now asset.id .ready).log
            (serviceEvent tenant asset.brand subject "media.upload_confirmed" "media_asset" asset.id
              [("content_type", .str asset.contentType), ("size_bytes", .int asset.sizeBytes)]))

/-- `transaction.atomic` around a body: what it wrote is kept only when it returns. -/
def atomic {α : Type} (body : Store → Except ServiceError α × Store) (s : Store) :
    Except ServiceError (α × Store) :=
  match body s with
  | (.ok a, s') => .ok (a, s')
  | (.error e, _) => .error e

/-- `confirm_media_upload`. -/
def confirmMediaUpload (env : Env) (head : HeadObject) (now : Time) (assetId tenant : Uuid)
    (subject : String) (s : Store) : Except ServiceError (MediaAsset × Store) :=
  atomic (confirmMediaUploadBody env head now assetId tenant subject) s

/-- `ready_assets_for_post`. -/
def readyAssetsForPost (tenant brand : Uuid) (assetIds : List Uuid) (s : Store) :
    Except ServiceError (List MediaAsset) :=
  let normalizedIds := fromKeys assetIds
  let assets := s.assets.where fun a =>
    decide (a.id ∈ normalizedIds) && a.tenant = tenant && a.brand = brand && a.uploadState = .ready
  if maxPostImages < normalizedIds.length then .error .invalidMediaAsset
  else if assets.length ≠ normalizedIds.length then .error .invalidMediaAsset
  else .ok (lookups (·.id) assets normalizedIds)

/-- The comparison of `order_by("created_at", "id")`. -/
def createdLe (a b : TimeStampedUUIDModel) : Bool :=
  a.createdAt < b.createdAt || (a.createdAt = b.createdAt && a.id.bits ≤ b.id.bits)

/-- The assets the many-to-many table attaches to a variant. -/
def attachedAssets (s : Store) (variant : Uuid) : List MediaAsset :=
  match s.variants.get? variant with
  | none => []
  | some v => s.assets.where fun a => decide (a.id ∈ v.mediaAssets)

/-- `ordered_media_assets`, for a variant as it was loaded. -/
def orderedMediaAssets (s : Store) (variant : PostVariant) : List MediaAsset :=
  let assets := orderBy (fun a b : MediaAsset => createdLe a.toTimeStampedUUIDModel b.toTimeStampedUUIDModel)
    (attachedAssets s variant.id)
  let ordered := lookups (fun a : MediaAsset => a.id.text) assets variant.mediaAssetOrder
  ordered ++ assets.filter fun a => !ordered.any fun b => b.id = a.id

end Relay
