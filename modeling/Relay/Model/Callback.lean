import Relay.Model.Publishing
import Relay.Model.Views

/-!
# The OAuth callback: `MetaOAuthClient.connect`, `complete_meta_oauth`, `MetaOAuthCallbackView`

The OAuth client indexes into whatever Meta answers, so that the values it finds are JSON values
until they reach the encryption and the database.  The callback consumes its state, asks Meta, and
persists what it has found, each step after the commit of the one before.

* `MetaOAuthClient.connect`: the client, as a tree of requests;
* `persistDiscovered`: `persist_meta_connections` on what the client has found;
* `metaOAuthCallback`: the view, with what it has committed.
-/

namespace Relay

open Exchange

/-! ### What the client finds -/

/-- A `MetaConnection` with the values Meta has answered. -/
structure DiscoveredConnection where
  channel : Channel
  providerChannelId : Json
  displayName : Json
  accessToken : Json

/-- A `MetaIdentity` with the values Meta has answered. -/
structure DiscoveredIdentity where
  providerAccountId : Json
  displayName : Json
  connections : List DiscoveredConnection

/-- A `MetaToken` with the value Meta has answered. -/
structure DiscoveredToken where
  accessToken : Json
  expiresAt : Option Time

/-- The exceptions of `connect`. -/
inductive MetaOAuthError
  | metaProviderError
  /-- an exception that the view does not name -/
  | uncaught (className : String)
  deriving DecidableEq

/-- `client.get(graph_url + path, params=params)`. -/
structure GraphGet where
  path : String
  params : List (String × Json)

/-- What the client uses of other packages. -/
structure OAuthPackages where
  /-- httpx builds the request instead of raising `InvalidURL`. -/
  accepted : GraphGet → Bool
  /-- `unicodedata.decimal` -/
  decimal : Char → Option ℕ

/-- A client of the Graph API that may raise. -/
abbrev OAuthCall := Call MetaOAuthError GraphGet Answer

/-- `value[key]`. -/
def subscript (value : Json) (key : String) : Except MetaOAuthError Json :=
  match value with
  | .obj fields =>
    match Json.get fields key with
    | some v => .ok v
    | none => .error (.uncaught "KeyError")
  | _ => .error (.uncaught "TypeError")

/-- `value.get(key, default)`. -/
def getOr (value : Json) (key : String) (default : Json) : Except MetaOAuthError Json :=
  match value with
  | .obj fields => .ok ((Json.get fields key).getD default)
  | _ => .error (.uncaught "AttributeError")

/-- What a `for` loop over the value goes through. -/
def loopItems (value : Json) : Except MetaOAuthError (List Json) :=
  match iterate value with
  | some items => .ok items
  | none => .error (.uncaught "TypeError")

/-- `timezone.now() + timedelta(seconds=seconds)`. -/
def expiryAfter (now : Time) (n : ℤ) : Except MetaOAuthError Time :=
  let day := n / 86400
  if day < -999999999 ∨ 999999999 < day then .error (.uncaught "OverflowError")
  -- the years 1 to 9999
  else if now + seconds n < days (-719162) ∨ days 2932897 ≤ now + seconds n then
    .error (.uncaught "OverflowError")
  else .ok (now + seconds n)

/-- `expires_at` of the long-lived token. -/
def tokenExpiry (p : OAuthPackages) (now : Time) (expiresIn : Json) :
    Except MetaOAuthError (Option Time) :=
  match expiresIn with
  | .null => .ok none
  | value =>
    match value.toInt p.decimal with
    | .ok n => (expiryAfter now n).map some
    | .error className => .error (.uncaught className)

/-! ### `MetaOAuthClient` -/

namespace MetaOAuthClient

/-- How `_request` reads an answer: `raise_for_status` raises for every status but 2xx. -/
def read : Answer → Except MetaOAuthError Json
  | .requestError => .error .metaProviderError
  | .response status body =>
    if status < 200 ∨ 300 ≤ status then .error .metaProviderError
    else match body with
    | .json value => .ok value
    | .invalid => .error .metaProviderError

/-- `_request`. -/
def request (p : OAuthPackages) (q : GraphGet) : OAuthCall Json :=
  if p.accepted q then do
    let answer ← Call.send q
    ExceptT.mk (.done (read answer))
  else throw (.uncaught "InvalidURL")

/-- The parameters of the first token request. -/
def codeRequest (c : Settings) (code : String) : GraphGet :=
  ⟨"/oauth/access_token", [("client_id", .str c.metaAppId), ("client_secret", .str c.metaAppSecret),
    ("redirect_uri", .str c.metaRedirectUri), ("code", .str code)]⟩

/-- The parameters of the second one, for the short-lived token. -/
def exchangeRequest (c : Settings) (accessToken : Json) : GraphGet :=
  ⟨"/oauth/access_token", [("grant_type", .str "fb_exchange_token"), ("client_id", .str c.metaAppId),
    ("client_secret", .str c.metaAppSecret), ("fb_exchange_token", accessToken)]⟩

def profileRequest (accessToken : Json) : GraphGet :=
  ⟨"/me", [("fields", .str "id,name"), ("access_token", accessToken)]⟩

def pagesRequest (accessToken : Json) : GraphGet :=
  ⟨"/me/accounts", [("fields", .str "id,name,access_token,instagram_business_account\x7bid,username\x7d"),
    ("access_token", accessToken)]⟩

/-- The connections of one page. -/
def pageConnections (page : Json) : Except MetaOAuthError (List DiscoveredConnection) := do
  let pageToken ← getOr page "access_token" .null
  if ¬ pageToken.truthy then .ok []
  else
    let pageId ← subscript page "id"
    let name ← getOr page "name" (.str "")
    let facebook : DiscoveredConnection := ⟨.metaFacebookPage, pageId, name, pageToken⟩
    let instagram ← getOr page "instagram_business_account" .null
    if instagram.truthy then
      let instagramId ← subscript instagram "id"
      let username ← getOr instagram "username" name
      .ok [facebook, ⟨.metaInstagramBusinessAccount, instagramId, username, pageToken⟩]
    else .ok [facebook]

/-- What `_discover_identity` makes of the two answers. -/
def identityOf (profile pages : Json) : Except MetaOAuthError DiscoveredIdentity := do
  let data ← getOr pages "data" (.arr [])
  let pages ← loopItems data
  let connections ← pages.mapM pageConnections
  let accountId ← subscript profile "id"
  let name ← getOr profile "name" (.str "")
  .ok ⟨accountId, name, connections.flatten⟩

/-- `_discover_identity`. -/
def discoverIdentity (p : OAuthPackages) (accessToken : Json) : OAuthCall DiscoveredIdentity := do
  let profile ← request p (profileRequest accessToken)
  let pages ← request p (pagesRequest accessToken)
  ExceptT.mk (.done (identityOf profile pages))

/-- `connect`, whose clock shows `now` after the last answer. -/
def connect (c : Settings) (p : OAuthPackages) (now : Time) (code : String) :
    OAuthCall (DiscoveredToken × DiscoveredIdentity) := do
  let shortLived ← request p (codeRequest c code)
  let shortToken ← ExceptT.mk (.done (subscript shortLived "access_token"))
  let longLived ← request p (exchangeRequest c shortToken)
  let accessToken ← ExceptT.mk (.done (subscript longLived "access_token"))
  let identity ← discoverIdentity p accessToken
  let expiresIn ← ExceptT.mk (.done (getOr longLived "expires_in" .null))
  let expiresAt ← ExceptT.mk (.done (tokenExpiry p now expiresIn))
  pure (⟨accessToken, expiresAt⟩, identity)

end MetaOAuthClient

/-! ### `persist_meta_connections` of JSON values -/

/-- The text that a character column stores of a value; `none` is `NULL`. -/
def columnText (env : Env) : Json → Option String
  | .null => none
  | value => some (value.str' env.printable)

/-- The texts that two columns of `n` characters store; they may not be `NULL`. -/
def columnTexts (env : Env) (n : ℕ) (a b : Json) : Except ServiceError (String × String) :=
  let a := columnText env a
  let b := columnText env b
  if ¬ a.all (fitsVarchar n) ∨ ¬ b.all (fitsVarchar n) then .error .dataError
  else match a, b with
  | some a, some b => .ok (a, b)
  | _, _ => .error .integrityError

/-- The connection that is stored; `encrypt_token` comes first, and wants a string. -/
def DiscoveredConnection.stored (env : Env) (draw : FernetDraw) (c : DiscoveredConnection) :
    Except ServiceError MetaConnection :=
  match c.accessToken with
  | .str accessToken =>
    match encryptToken env draw accessToken with
    | none => .error .tokenEncryptionError
    | some _ => (columnTexts env 255 c.providerChannelId c.displayName).map fun t =>
      ⟨c.channel, t.1, t.2, accessToken⟩
  | _ => .error .tokenEncryptionError

/-- The token that is stored. -/
def DiscoveredToken.stored (env : Env) (t : DiscoveredToken) : MetaToken :=
  ⟨t.accessToken.str' env.printable, t.expiresAt⟩

/-- The loop of `persist_meta_connections`. -/
def upsertDiscovered (env : Env) (now : Time) (account : Uuid) (token : MetaToken) :
    (ℕ → Uuid) → (ℕ → FernetDraw) → List DiscoveredConnection → Store → Except ServiceError Store
  | _, _, [], s => .ok s
  | ids, ciphers, c :: cs, s => do
    let c ← c.stored env (ciphers 0)
    let s ← upsertConnection env now (ids 0) (ciphers 0) account token c s
    upsertDiscovered env now account token (fun n => ids (n + 1)) (fun n => ciphers (n + 1)) cs s

/-- `persist_meta_connections` of what the client has found. -/
def persistDiscovered (env : Env) (now : Time) (ids : ℕ → Uuid) (ciphers : ℕ → FernetDraw)
    (tenant brand : Uuid) (subject : String) (token : DiscoveredToken) (identity : DiscoveredIdentity)
    (s : Store) : Except ServiceError (SocialAccount × Store) := do
  let t ← columnTexts env 255 identity.providerAccountId identity.displayName
  let (account, s) ← upsertAccount now (ids 0) tenant brand ⟨t.1, t.2, []⟩ s
  let s ← upsertDiscovered env now account.id (token.stored env) (fun n => ids (n + 1)) ciphers
    identity.connections s
  .ok (account, s.log
    (serviceEvent tenant brand subject "meta.connection_created" "social_account" account.id
      [("connection_count", .int identity.connections.length)]))

/-! ### `MetaOAuthCallbackView.get` -/

/-- A transaction of a callback that was committed. -/
inductive CallbackCommit
  | consumed (state : OAuthState)
  | connected (account : SocialAccount)

/-- How a callback ends. -/
structure CallbackEnd where
  answer : Except ApiError Response
  commits : List CallbackCommit
  store : Store

/-- The moments of one callback, what Meta answers, and what is drawn. -/
structure CallbackWorld extends OAuthPackages where
  consumedAt : Time
  answers : ℕ → Answer
  connectedAt : Time
  persistedAt : Time
  ids : ℕ → Uuid
  ciphers : ℕ → FernetDraw

/-- The end of the callback that has consumed its state. -/
def finishCallback (env : Env) (w : CallbackWorld) (code : String) (state : OAuthState) (s : Store) :
    CallbackEnd :=
  if ¬ env.metaConfigured then ⟨.error .metaConfiguration, [.consumed state], s⟩
  else
    match (MetaOAuthClient.connect env.toSettings w.toOAuthPackages w.connectedAt code).result
      w.answers with
    | .error .metaProviderError => ⟨.error .metaConnection, [.consumed state], s⟩
    | .error (.uncaught className) =>
      ⟨.error (.unhandled (.other className)), [.consumed state], s⟩
    | .ok (token, identity) =>
      match persistDiscovered env w.persistedAt w.ids w.ciphers state.tenant state.brand state.subject
        token identity s with
      | .error .tokenEncryptionError => ⟨.error .metaConfiguration, [.consumed state], s⟩
      | .error e => ⟨.error (.unhandled e), [.consumed state], s⟩
      -- the session is written, then the name `redirect` is looked up, which is not imported
      | .ok (account, s) =>
        ⟨.error (.unhandled (.other "NameError")), [.consumed state, .connected account], s⟩

/-- `MetaOAuthCallbackView.get` with `complete_meta_oauth`. -/
def metaOAuthCallback (env : Env) (w : CallbackWorld) (code state : Option String) (s : Store) :
    CallbackEnd :=
  if code.getD "" = "" ∨ state.getD "" = "" then
    ⟨.error (.validation "detail" "Both code and state are required."), [], s⟩
  else
    match consumeOAuthState env w.consumedAt (state.getD "") s with
    | .error .invalidOAuthState =>
      ⟨.error (.validation "state" "Invalid, expired or already used OAuth state."), [], s⟩
    | .error e => ⟨.error (.unhandled e), [], s⟩
    | .ok (state, s) => finishCallback env w (code.getD "") state s

end Relay
