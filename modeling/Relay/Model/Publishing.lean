import Relay.Library.Exchange
import Relay.Model.Social

/-!
# Publishing at Meta: `social/publishing.py`

`MetaPublishingClient.publish_images` is a client of the Graph API: a tree of requests that goes
on by the answers.  Every exception it raises is a `DeliveryError`; those that the delivery code
does not catch are `uncaught`, with their class name.
-/

namespace Relay

open Exchange

/-! ### Requests and answers -/

/-- The edges of a Graph API node that are posted to. -/
inductive Edge
  | photos
  | feed
  | media
  | mediaPublish
  deriving DecidableEq

def Edge.text : Edge → String
  | photos => "photos"
  | feed => "feed"
  | media => "media"
  | mediaPublish => "media_publish"

/-- What the client sends: `client.post(graph_url + "/{node}/{edge}", data=data)` or
`client.get(graph_url + "/{node}", params=params)`. -/
inductive MetaRequest
  | post (node : String) (edge : Edge) (data : List (String × String))
  | get (node : String) (params : List (String × String))
  deriving DecidableEq

namespace MetaRequest

/-- The URL of a request. -/
def url (c : Settings) : MetaRequest → String
  | post node edge _ => c.graphUrl ++ "/" ++ node ++ "/" ++ edge.text
  | get node _ => c.graphUrl ++ "/" ++ node

/-- A field of the form or of the query. -/
def field (name : String) : MetaRequest → Option String
  | post _ _ data => (data.find? fun f => f.1 = name).map Prod.snd
  | get _ params => (params.find? fun f => f.1 = name).map Prod.snd

/-- The request makes a post that the public sees: a photo that is not uploaded unpublished, a
feed story, or the publication of a container. -/
def visible : MetaRequest → Bool
  | r@(post _ .photos _) => r.field "published" ≠ some "false"
  | post _ .feed _ => true
  | post _ .media _ => false
  | post _ .mediaPublish _ => true
  | get _ _ => false

end MetaRequest

/-- The body of a response, as `response.json()` reads it. -/
inductive Body
  | json (value : Json)
  /-- `response.json()` raises `ValueError` -/
  | invalid

/-- What the HTTP client does with a request. -/
inductive Answer
  /-- `httpx.RequestError` -/
  | requestError
  | response (status : ℕ) (body : Body)

instance : Inhabited Answer := ⟨.requestError⟩

/-! ### Exceptions -/

/-- The exceptions of one delivery. -/
inductive DeliveryError
  | metaPublishTransientError (message : String)
  | metaPublishPermanentError (message : String)
  | mediaDeliveryUnavailable (message : String)
  | metaConfigurationError (message : String)
  | tokenEncryptionError (message : String)
  /-- an exception that the delivery code does not name -/
  | uncaught (className : String)
  deriving DecidableEq

namespace DeliveryError

/-- `error.__class__.__name__`. -/
def className : DeliveryError → String
  | metaPublishTransientError _ => "MetaPublishTransientError"
  | metaPublishPermanentError _ => "MetaPublishPermanentError"
  | mediaDeliveryUnavailable _ => "MediaDeliveryUnavailable"
  | metaConfigurationError _ => "MetaConfigurationError"
  | tokenEncryptionError _ => "TokenEncryptionError"
  | uncaught name => name

/-- `str(error)`. -/
def message : DeliveryError → String
  | metaPublishTransientError m => m
  | metaPublishPermanentError m => m
  | mediaDeliveryUnavailable m => m
  | metaConfigurationError m => m
  | tokenEncryptionError m => m
  | uncaught _ => ""

end DeliveryError

/-- A client of Meta that may raise. -/
abbrev MetaCall := Call DeliveryError MetaRequest Answer

/-! ### One request -/

/-- The messages with which a request fails. -/
structure Messages where
  unreachable : String
  temporary : String
  rejected : String
  invalid : String

/-- How an answer is read: its JSON body, or the failure it stands for. -/
def Messages.read (m : Messages) : Answer → Except DeliveryError Json
  | .requestError => .error (.metaPublishTransientError m.unreachable)
  | .response status body =>
    if status = 429 ∨ 500 ≤ status then .error (.metaPublishTransientError m.temporary)
    else if 400 ≤ status then .error (.metaPublishPermanentError m.rejected)
    else match body with
    | .json value => .ok value
    | .invalid => .error (.metaPublishPermanentError m.invalid)

/-- Sends a request and reads its answer; a URL that httpx does not accept raises before
anything is sent. -/
def request (env : Env) (m : Messages) (r : MetaRequest) : MetaCall Json :=
  if env.urlAccepted (r.url env.toSettings) then do
    let answer ← Call.send r
    ExceptT.mk (.done (m.read answer))
  else throw (.uncaught "InvalidURL")

def postMessages : Messages where
  unreachable := "Meta could not be reached."
  temporary := "Meta temporarily rejected the request."
  rejected := "Meta rejected the publication request."
  invalid := "Meta returned an invalid publication response."

def pollMessages : Messages where
  unreachable := "Meta could not check the Instagram media."
  temporary := "Meta temporarily rejected the Instagram media check."
  rejected := "Meta rejected the Instagram media container."
  invalid := "Meta returned an invalid Instagram media status."

/-- `payload.get(key)` of whatever `response.json()` returned: only an object has `get`. -/
def getField (payload : Json) (key : String) : Except DeliveryError (Option Json) :=
  match payload with
  | .obj fields => .ok (Json.get fields key)
  | _ => .error (.uncaught "AttributeError")

/-- `_id`. -/
def payloadId (env : Env) (payload : Json) : Except DeliveryError String := do
  match ← getField payload "id" with
  | some value =>
    if value.truthy then .ok (value.str' env.printable)
    else .error (.metaPublishPermanentError "Meta did not return a publication identifier.")
  | none => .error (.metaPublishPermanentError "Meta did not return a publication identifier.")

theorem payloadId_obj {env : Env} {fields : List (String × Json)} :
    payloadId env (.obj fields) =
      match Json.get fields "id" with
      | some value =>
        if value.truthy then .ok (value.str' env.printable)
        else .error (.metaPublishPermanentError "Meta did not return a publication identifier.")
      | none => .error (.metaPublishPermanentError "Meta did not return a publication identifier.") :=
  rfl

theorem payloadId_of_not_obj {env : Env} {payload : Json} (h : ∀ fields, payload ≠ .obj fields) :
    payloadId env payload = .error (.uncaught "AttributeError") := by
  cases payload with
  | obj fields => exact absurd rfl (h fields)
  | _ => rfl

/-- `_id(_post(...))`: the identifier answered to a request. -/
def postForId (env : Env) (node : String) (edge : Edge) (data : List (String × String)) :
    MetaCall String := do
  let payload ← request env postMessages (.post node edge data)
  ExceptT.mk (.done (payloadId env payload))

/-- The status of a container. -/
def containerStatus (env : Env) (payload : Json) : Except DeliveryError String := do
  let status ← getField payload "status_code"
  .ok ((status.getD (.str "")).str' env.printable)

/-- The status check of a container. -/
def pollRequest (creationId accessToken : String) : MetaRequest :=
  .get creationId [("fields", "status_code"), ("access_token", accessToken)]

/-- `_wait_for_instagram_container`, for the number of polls left. -/
def waitForInstagramContainer (env : Env) (creationId accessToken : String) : ℕ → MetaCall Unit
  | 0 => throw (.metaPublishTransientError "Instagram media is still processing; Relay will retry.")
  | polls + 1 => do
    let payload ← request env pollMessages (pollRequest creationId accessToken)
    let status ← ExceptT.mk (.done (containerStatus env payload))
    if status = "FINISHED" then pure ()
    else if status = "ERROR" ∨ status = "EXPIRED" then
      throw (.metaPublishPermanentError "Meta could not process the Instagram image.")
    else waitForInstagramContainer env creationId accessToken polls

/-- The number of polls for one container. -/
def maxPolls : ℕ := 5

/-! ### The four ways to publish -/

/-- The single image of a Facebook page. -/
def publishFacebookImage (env : Env) (channelId accessToken body imageUrl : String) :
    MetaCall String :=
  postForId env channelId .photos
    [("url", imageUrl), ("caption", body), ("access_token", accessToken)]

/-- The uploads of a Facebook carousel. -/
def uploadPhotos (env : Env) (channelId accessToken : String) : List String → MetaCall (List String)
  | [] => pure []
  | imageUrl :: imageUrls => do
    let mediaId ← postForId env channelId .photos
      [("url", imageUrl), ("published", "false"), ("access_token", accessToken)]
    let mediaIds ← uploadPhotos env channelId accessToken imageUrls
    pure (mediaId :: mediaIds)

/-- `json.dumps([{"media_fbid": media_id} for media_id in media_ids])`. -/
def attachedMedia (mediaIds : List String) : String :=
  String.ofList (Json.dumps .default (.arr (mediaIds.map fun i => .obj [("media_fbid", .str i)])))

/-- `_publish_facebook_carousel`. -/
def publishFacebookCarousel (env : Env) (channelId accessToken body : String)
    (imageUrls : List String) : MetaCall String := do
  let mediaIds ← uploadPhotos env channelId accessToken imageUrls
  postForId env channelId .feed
    [("message", body), ("attached_media", attachedMedia mediaIds), ("access_token", accessToken)]

/-- A container that is created and waited for. -/
def finishedContainer (env : Env) (channelId accessToken : String) (data : List (String × String)) :
    MetaCall String := do
  let creationId ← postForId env channelId .media data
  waitForInstagramContainer env creationId accessToken maxPolls
  pure creationId

/-- `media_publish` of a container. -/
def publishContainer (env : Env) (channelId accessToken creationId : String) : MetaCall String :=
  postForId env channelId .mediaPublish
    [("creation_id", creationId), ("access_token", accessToken)]

/-- The single image of an Instagram account. -/
def publishInstagramImage (env : Env) (channelId accessToken body imageUrl : String) :
    MetaCall String := do
  let creationId ← finishedContainer env channelId accessToken
    [("image_url", imageUrl), ("caption", body), ("access_token", accessToken)]
  publishContainer env channelId accessToken creationId

/-- The children of an Instagram carousel. -/
def createChildren (env : Env) (channelId accessToken : String) :
    List String → MetaCall (List String)
  | [] => pure []
  | imageUrl :: imageUrls => do
    let childId ← finishedContainer env channelId accessToken
      [("image_url", imageUrl), ("is_carousel_item", "true"), ("access_token", accessToken)]
    let childIds ← createChildren env channelId accessToken imageUrls
    pure (childId :: childIds)

/-- `_publish_instagram_carousel`. -/
def publishInstagramCarousel (env : Env) (channelId accessToken body : String)
    (imageUrls : List String) : MetaCall String := do
  let childIds ← createChildren env channelId accessToken imageUrls
  let creationId ← finishedContainer env channelId accessToken
    [("media_type", "CAROUSEL"), ("children", ",".intercalate childIds), ("caption", body),
      ("access_token", accessToken)]
  publishContainer env channelId accessToken creationId

/-- The arguments of `publish_images`. -/
structure PublishCall where
  connection : ChannelConnection
  accessToken : String
  body : String
  imageUrls : List String
  deriving DecidableEq

/-- `MetaPublishingClient.publish_images`; the result is the provider's publication identifier. -/
def publishImages (env : Env) (call : PublishCall) : MetaCall String :=
  let channelId := call.connection.providerChannelId
  match call.connection.channel, call.imageUrls with
  | _, [] => throw (.metaPublishPermanentError
      "A Meta publication must contain between one and ten images.")
  | channel, imageUrl :: imageUrls =>
    if 10 < (imageUrl :: imageUrls).length then
      throw (.metaPublishPermanentError
        "A Meta publication must contain between one and ten images.")
    else match channel with
    | .metaFacebookPage =>
      if 1 < (imageUrl :: imageUrls).length then
        publishFacebookCarousel env channelId call.accessToken call.body (imageUrl :: imageUrls)
      else publishFacebookImage env channelId call.accessToken call.body imageUrl
    | .metaInstagramBusinessAccount =>
      if 1 < (imageUrl :: imageUrls).length then
        publishInstagramCarousel env channelId call.accessToken call.body (imageUrl :: imageUrls)
      else publishInstagramImage env channelId call.accessToken call.body imageUrl
    | .other _ => throw (.metaPublishPermanentError "Unsupported Meta channel.")

/-- Anything with the `publish_images` of the `Publisher` protocol. -/
abbrev Publisher := PublishCall → MetaCall String

end Relay
