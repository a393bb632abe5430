import Relay.Library.Exchange
import Relay.Model.Views

/-!
# The client of the task vault: `tools/relay-task-vault.ps1`

`SubmitBatch` sends the items of a manifest one after another: the images, the draft, its approval
and a publication for each connection of the profile.  The script stops at the first error
(`$ErrorActionPreference = "Stop"`).  What the workstation does with paths, files and dates is a
parameter.

* `getRelayMediaAsset`, `submitRelayItem`, `submitBatch`: the functions of the script;
* `postKey`, `publicationKey`: the idempotency keys it derives from the identifier of an item.
-/

namespace Relay

open Exchange

/-! ### The workstation and the manifest -/

/-- A file, as `Get-Item` and `Get-FileHash` show it. -/
structure VaultFile where
  name : String
  length : ℕ
  /-- the hash in lower case -/
  checksum : String
  deriving DecidableEq

/-- What the script asks of its machine. -/
structure Workstation where
  /-- the file at a path, if there is one -/
  file : (path : String) → Option VaultFile
  /-- a rooted path, or the path in the directory of the manifest -/
  resolve : (path : String) → String
  /-- `[DateTimeOffset]::Parse(text)` -/
  parseDate : (text : String) → Option Time

/-- What the profile keeps besides the token: `Get-ProfileConfig`. -/
structure ProfileConfig where
  brandId : Uuid
  connectionIds : List Uuid

/-- An item of the manifest. -/
structure ManifestItem where
  id : String
  title : String
  body : String
  imagePaths : List String
  imagePath : String
  scheduledFor : String
  deriving DecidableEq

/-- `[char]::IsWhiteSpace`. -/
def isNetSpace (c : Char) : Bool := Text.isSpace c && !(28 ≤ c.toNat && c.toNat ≤ 31)

/-- `[string]::IsNullOrWhiteSpace(text)`. -/
def isNullOrWhiteSpace (text : String) : Bool := text.toList.all isNetSpace

/-- `[IO.Path]::GetExtension(path).ToLowerInvariant()`; nothing after a last dot is no extension. -/
def pathExtension (path : String) : String :=
  let name := (path.toList.reverse.takeWhile fun c => c ≠ '\\' && c ≠ '/' && c ≠ ':').reverse
  let last := (name.reverse.takeWhile (· ≠ '.')).reverse
  if last.length = name.length ∨ last = [] then ""
  else String.ofList ('.' :: last.map Char.toLower)

/-- The content type of the extension. -/
def pathContentType (path : String) : Option String :=
  match pathExtension path with
  | ".jpg" => some "image/jpeg"
  | ".jpeg" => some "image/jpeg"
  | ".png" => some "image/png"
  | _ => none

/-! ### Requests -/

/-- What the script sends. -/
inductive VaultRequest
  /-- `Invoke-RelayJson` -/
  | api (request : ApiRequest)
  /-- `Invoke-WebRequest -Method Put` of a file -/
  | put (url : String) (headers : List (String × String)) (contentType : String) (file : VaultFile)

/-- What it hears. -/
inductive VaultAnswer
  | json (answer : Except ApiError Response)
  | stored
  | failed

/-- Why the script stops. -/
inductive VaultError
  /-- `throw "..."` -/
  | thrown (message : String)
  /-- `[DateTimeOffset]::Parse` raises -/
  | formatException
  /-- an answer that is no success, or none -/
  | httpResponse (error : ApiError)
  | webRequest
  deriving DecidableEq

/-- The script, as a client that stops at its first error. -/
abbrev VaultCall := Call VaultError VaultRequest VaultAnswer

/-- `Invoke-RelayJson`: the body of the answer. -/
def invokeRelayJson (request : ApiRequest) : VaultCall Data := do
  let answer ← Call.send (.api request)
  match answer with
  | .json (.ok response) => pure response.data
  | .json (.error e) => throw (.httpResponse e)
  | _ => throw .webRequest

/-- The post in a body. -/
def Data.asPost : Data → VaultCall PostData
  | .post data => pure data
  | _ => throw .webRequest

/-- `Get-RelayIdempotencyKey`. -/
def relayIdempotencyKey (env : Env) (kind value : String) : String :=
  "relay-" ++ kind ++ "-" ++ env.sha256 (kind ++ ":" ++ value)

/-- The key of the post of an item. -/
def postKey (env : Env) (itemKey : String) : String := relayIdempotencyKey env "post" itemKey

/-- The key of the publication of an item on its connection number `index`, counted from one. -/
def publicationKey (env : Env) (itemKey : String) (index : ℕ) : String :=
  relayIdempotencyKey env "publication" (itemKey ++ ":" ++ toString index)

/-! ### The functions of the script -/

/-- The `PUT` of `Get-RelayMediaAsset`; the content type is sent on its own. -/
def putImage (url : String) (headers : List (String × String)) (contentType : String)
    (file : VaultFile) : VaultCall Unit := do
  let answer ← Call.send
    (.put url (headers.filter fun h => h.1 ≠ "Content-Type") contentType file)
  match answer with
  | .stored => pure ()
  | _ => throw .webRequest

/-- `Get-RelayMediaAsset`: the identifier of the asset. -/
def getRelayMediaAsset (m : Workstation) (c : ProfileConfig) (path : String) : VaultCall Uuid :=
  match m.file path with
  | none => throw (.thrown ("No existe la imagen '" ++ path ++ "'."))
  | some file =>
    match pathContentType path with
    | none => throw (.thrown "Solo se admiten imágenes JPG, JPEG o PNG.")
    | some contentType =>
      if 10 * 1024 * 1024 < file.length then
        throw (.thrown ("La imagen '" ++ path ++ "' supera el límite de 10 MiB."))
      else do
        let intent ← invokeRelayJson (.createUploadIntent
          ⟨c.brandId, file.name, contentType, file.length, some file.checksum⟩)
        match intent with
        | .uploadIntent asset uploadUrl uploadHeaders => do
          putImage uploadUrl uploadHeaders contentType file
          let _ ← invokeRelayJson (.confirmUpload asset.id)
          pure asset.id
        | _ => throw .webRequest

/-- The assets of the images, in their order. -/
def getRelayMediaAssets (m : Workstation) (c : ProfileConfig) : List String → VaultCall (List Uuid)
  | [] => pure []
  | path :: paths => do
    let assetId ← getRelayMediaAsset m c path
    let assetIds ← getRelayMediaAssets m c paths
    pure (assetId :: assetIds)

/-- The publications of the connections, from the one with this number on. -/
def schedulePublications (env : Env) (itemKey : String) (defaultVariantId : Option Uuid)
    (scheduledFor : Time) : ℕ → List Uuid → VaultCall (List Data)
  | _, [] => pure []
  | connectionIndex, connectionId :: connectionIds =>
    match defaultVariantId with
    | none => throw (.httpResponse (.validation "post_variant_id" "This field may not be null."))
    | some postVariantId => do
      let publication ← invokeRelayJson (.createPublication
        (some (publicationKey env itemKey connectionIndex))
        ⟨postVariantId, connectionId, scheduledFor⟩)
      let publications ← schedulePublications env itemKey defaultVariantId scheduledFor
        (connectionIndex + 1) connectionIds
      pure (publication :: publications)

/-- What `Submit-RelayItem` returns. -/
structure SubmittedItem where
  id : Uuid
  state : LifecycleState
  title : String
  publications : List Data

/-- `Submit-RelayItem` with an `-ItemKey`. -/
def submitRelayItem (env : Env) (m : Workstation) (c : ProfileConfig)
    (itemTitle itemBody : String) (itemImagePaths : List String) (itemScheduleFor itemKey : String) :
    VaultCall SubmittedItem :=
  if isNullOrWhiteSpace itemBody then throw (.thrown "Cada contenido requiere texto.")
  else if itemImagePaths.length < 1 ∨ 10 < itemImagePaths.length then
    throw (.thrown "Cada contenido requiere entre una y diez imágenes.")
  else do
    let assetIds ← getRelayMediaAssets m c itemImagePaths
    let created ← invokeRelayJson (.createPost (some (postKey env itemKey))
      ⟨c.brandId, some itemTitle, itemBody, some assetIds⟩)
    let post ← created.asPost
    if isNullOrWhiteSpace itemScheduleFor then pure ⟨post.id, post.state, post.title, []⟩
    else
      match m.parseDate itemScheduleFor with
      | none => throw .formatException
      | some scheduledFor =>
        if c.connectionIds = [] then
          throw (.thrown ("El perfil no tiene canales configurados. " ++
            "Vuelve a ejecutar Set con -ConnectionId para Facebook e Instagram."))
        else do
          let answer ← invokeRelayJson (.approvePost post.id)
          let approved ← answer.asPost
          let publications ← schedulePublications env itemKey approved.defaultVariantId scheduledFor 1
            c.connectionIds
          pure ⟨post.id, approved.state, post.title, publications⟩

/-- The images of an item: `image_path` where `image_paths` is empty. -/
def ManifestItem.paths (item : ManifestItem) : List String :=
  if item.imagePaths = [] ∧ item.imagePath ≠ "" then [item.imagePath] else item.imagePaths

/-- One turn of the loop over the items. -/
def submitItem (env : Env) (m : Workstation) (c : ProfileConfig) (item : ManifestItem) :
    VaultCall SubmittedItem :=
  if isNullOrWhiteSpace item.id then
    throw (.thrown "Cada item del manifiesto requiere un id estable.")
  else if isNullOrWhiteSpace item.scheduledFor then
    throw (.thrown "Cada item del manifiesto requiere scheduled_for.")
  else
    submitRelayItem env m c item.title item.body (item.paths.map m.resolve) item.scheduledFor item.id

/-- The loop over the items. -/
def submitItems (env : Env) (m : Workstation) (c : ProfileConfig) :
    List ManifestItem → VaultCall (List SubmittedItem)
  | [] => pure []
  | item :: items => do
    let result ← submitItem env m c item
    let results ← submitItems env m c items
    pure (result :: results)

/-- `SubmitBatch`, for the items of a manifest that could be read. -/
def submitBatch (env : Env) (m : Workstation) (c : ProfileConfig) (items : List ManifestItem) :
    VaultCall (List SubmittedItem) :=
  if items = [] then throw (.thrown "El manifiesto no contiene items.")
  else submitItems env m c items

example : pathContentType "C:\\posts\\July.JPEG" = some "image/jpeg" := by decide +kernel

end Relay
