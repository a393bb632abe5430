import Relay.Model.Records

/-!
# Meta accounts: `social/crypto.py`, `social/meta.py`, `social/services.py`

Connecting an account takes three steps with commits between them: the OAuth state is consumed,
Meta is asked for the identity behind the code, and the accounts and connections found are
persisted.  What Meta answers is a parameter of the last step.
-/

namespace Relay

open Relational

/-! ### `social/crypto.py` -/

/-- `encrypt_token`, for the draw of the cipher; `none` is `TokenEncryptionError`. -/
def encryptToken (env : Env) (draw : FernetDraw) (token : String) : Option String :=
  if env.fernet.accepts env.tokenEncryptionKey then
    some (env.fernet.encrypt env.tokenEncryptionKey draw token)
  else none

/-- `decrypt_token`, with the message of its `TokenEncryptionError`. -/
def decryptToken (env : Env) (ciphertext : String) : Except String String :=
  if env.fernet.accepts env.tokenEncryptionKey then
    match env.fernet.decrypt env.tokenEncryptionKey ciphertext with
    | some token => .ok token
    | none => .error "Stored token material cannot be decrypted."
  else .error "Token encryption is not configured."

/-- What Fernet reads is what was encrypted under the same key. -/
def Env.Deciphers (env : Env) : Prop :=
  ∀ key draw token, env.fernet.accepts key = true →
    env.fernet.decrypt key (env.fernet.encrypt key draw token) = some token

theorem decryptToken_of_encrypted {env : Env} (deciphers : env.Deciphers) {draw : FernetDraw}
    {token ciphertext : String} (h : encryptToken env draw token = some ciphertext) :
    decryptToken env ciphertext = .ok token := by
  unfold encryptToken at h
  split at h
  · rename_i haccepts
    unfold decryptToken
    rw [if_pos haccepts, ← Option.some.inj h, deciphers _ _ _ haccepts]
  · cases h

/-! ### `social/meta.py` -/

/-- `get_meta_settings` finds all its settings. -/
def Settings.metaConfigured (c : Settings) : Bool :=
  [c.metaAppId, c.metaAppSecret, c.metaRedirectUri, c.metaGraphVersion].all (· ≠ "")

/-- `MetaSettings.graph_url`. -/
def Settings.graphUrl (c : Settings) : String := "https://graph.facebook.com/" ++ c.metaGraphVersion

structure MetaToken where
  accessToken : String
  expiresAt : Option Time
  deriving DecidableEq

structure MetaConnection where
  channel : Channel
  providerChannelId : String
  displayName : String
  accessToken : String
  deriving DecidableEq

structure MetaIdentity where
  providerAccountId : String
  displayName : String
  connections : List MetaConnection
  deriving DecidableEq

/-- `MetaOAuthClient.scopes`. -/
def metaOAuthScopes : List String :=
  ["public_profile", "pages_show_list", "pages_read_engagement", "pages_manage_posts",
    "instagram_basic", "instagram_content_publish"]

/-- `MetaOAuthClient.authorization_url`. -/
def authorizationUrl (c : Settings) (state : String) : String :=
  "https://www.facebook.com/" ++ c.metaGraphVersion ++ "/dialog/oauth?" ++ Text.urlencode
    [("client_id", c.metaAppId), ("redirect_uri", c.metaRedirectUri), ("state", state),
      ("response_type", "code"), ("scope", ",".intercalate metaOAuthScopes)]

/-! ### `social/services.py` -/

/-- `OAuthState.objects.create`, with the unique constraint on the digest. -/
def createOAuthRow (s : Store) (state : OAuthState) : Except ServiceError (Table OAuthState) :=
  if (s.oauthStates.find? fun o => o.stateDigest = state.stateDigest).isSome then
    .error .integrityError
  else create s.oauthStates state

/-- The row of an OAuth state. -/
def newOAuthState (env : Env) (now : Time) (id : Uuid) (rawState : String) (tenant brand : Uuid)
    (subject : String) : OAuthState :=
  { TimeStampedUUIDModel.new id now with
    tenant, brand, subject
    stateDigest := env.sha256 rawState
    expiresAt := now + minutes 10
    usedAt := none }

/-- `start_meta_oauth`, for the identifier and the state text drawn: the authorization URL. -/
def startMetaOAuth (env : Env) (now : Time) (id : Uuid) (rawState : String) (tenant brand : Uuid)
    (subject : String) (s : Store) : Except ServiceError (String × Store) := do
  let oauthStates ← createOAuthRow s (newOAuthState env now id rawState tenant brand subject)
  if ¬ env.metaConfigured then .error .metaConfigurationError
  else .ok (authorizationUrl env.toSettings rawState, { s with oauthStates })

/-- A state that is used. -/
def OAuthState.use (o : OAuthState) (now : Time) : OAuthState :=
  { o with usedAt := some now, updatedAt := now }

/-- `consume_oauth_state`. -/
def consumeOAuthState (env : Env) (now : Time) (rawState : String) (s : Store) :
    Except ServiceError (OAuthState × Store) :=
  match s.oauthStates.find? fun o => o.stateDigest = env.sha256 rawState with
  | none => .error .invalidOAuthState
  | some state =>
    if state.usedAt ≠ none ∨ state.expiresAt ≤ now then .error .invalidOAuthState
    else
      .ok (state.use now,
        { s with oauthStates := s.oauthStates.update state.id ⟨(·.use now), fun _ => rfl⟩ })

/-- The accounts of a tenant with a provider account, over which the constraint
`unique_social_account_per_tenant` ranges. -/
def findAccount (tenant : Uuid) (providerAccountId : String) (s : Store) : Option SocialAccount :=
  s.accounts.find? fun a => a.tenant = tenant && a.provider = .metaProvider &&
    a.providerAccountId = providerAccountId

/-- The row of a new account. -/
def newSocialAccount (now : Time) (id tenant brand : Uuid) (identity : MetaIdentity) :
    SocialAccount :=
  { TimeStampedUUIDModel.new id now with
    tenant, brand
    provider := .metaProvider
    providerAccountId := identity.providerAccountId
    displayName := identity.displayName }

/-- An account under the name Meta now gives. -/
def SocialAccount.rename (a : SocialAccount) (now : Time) (displayName : String) : SocialAccount :=
  { a with displayName := displayName, updatedAt := now }

/-- `SocialAccount.objects.update_or_create(...)`, for the identifier drawn. -/
def upsertAccount (now : Time) (id tenant brand : Uuid) (identity : MetaIdentity) (s : Store) :
    Except ServiceError (SocialAccount × Store) :=
  if ¬ fitsVarchar 255 identity.providerAccountId ∨ ¬ fitsVarchar 255 identity.displayName then
    .error .dataError
  else match s.accounts.find? fun a => a.tenant = tenant && a.brand = brand &&
      a.provider = .metaProvider && a.providerAccountId = identity.providerAccountId with
  | some account =>
    .ok (account.rename now identity.displayName,
      { s with
        accounts := s.accounts.update account.id ⟨(·.rename now identity.displayName), fun _ => rfl⟩ })
  | none =>
    if (findAccount tenant identity.providerAccountId s).isSome then .error .integrityError
    else do
      let account := newSocialAccount now id tenant brand identity
      let accounts ← create s.accounts account
      .ok (account, { s with accounts })

/-- The text of a channel, as the column stores it. -/
def Channel.text : Channel → String
  | metaFacebookPage => "META_FACEBOOK_PAGE"
  | metaInstagramBusinessAccount => "META_INSTAGRAM_BUSINESS_ACCOUNT"
  | other t => t

/-- The row of a new connection. -/
def newChannelConnection (now : Time) (id account : Uuid) (token : MetaToken) (encrypted : String)
    (c : MetaConnection) : ChannelConnection :=
  { TimeStampedUUIDModel.new id now with
    socialAccount := account
    channel := c.channel
    providerChannelId := c.providerChannelId
    displayName := c.displayName
    encryptedAccessToken := encrypted
    tokenExpiresAt := token.expiresAt
    grantedScopes := metaOAuthScopes
    isActive := true }

/-- A connection found again. -/
def ChannelConnection.refresh (row : ChannelConnection) (now : Time) (token : MetaToken)
    (encrypted : String) (c : MetaConnection) : ChannelConnection :=
  { row with
    displayName := c.displayName, encryptedAccessToken := encrypted
    tokenExpiresAt := token.expiresAt, grantedScopes := metaOAuthScopes
    isActive := true, updatedAt := now }

/-- `ChannelConnection.objects.update_or_create(...)` of one discovered connection. -/
def upsertConnection (env : Env) (now : Time) (id : Uuid) (draw : FernetDraw) (account : Uuid)
    (token : MetaToken) (c : MetaConnection) (s : Store) : Except ServiceError Store :=
  match encryptToken env draw c.accessToken with
  | none => .error .tokenEncryptionError
  | some encrypted =>
    if ¬ fitsVarchar 64 c.channel.text ∨ ¬ fitsVarchar 255 c.providerChannelId ∨
        ¬ fitsVarchar 255 c.displayName then .error .dataError
    else
      match s.connections.find? fun row => row.socialAccount = account && row.channel = c.channel &&
          row.providerChannelId = c.providerChannelId with
      | some row =>
        .ok
          { s with
            connections := s.connections.update row.id
              ⟨(·.refresh now token encrypted c), fun _ => rfl⟩ }
      | none => do
        let connections ← create s.connections (newChannelConnection now id account token encrypted c)
        .ok { s with connections }

/-- The loop over the discovered connections; `ids` and `ciphers` are the identifiers and the
draws of the cipher. -/
def upsertConnections (env : Env) (now : Time) (account : Uuid) (token : MetaToken) :
    (ℕ → Uuid) → (ℕ → FernetDraw) → List MetaConnection → Store → Except ServiceError Store
  | _, _, [], s => .ok s
  | ids, ciphers, c :: cs, s => do
    let s ← upsertConnection env now (ids 0) (ciphers 0) account token c s
    upsertConnections env now account token (fun n => ids (n + 1)) (fun n => ciphers (n + 1)) cs s

/-- `persist_meta_connections`; `ids` and `ciphers` are drawn. -/
def persistMetaConnections (env : Env) (now : Time) (ids : ℕ → Uuid) (ciphers : ℕ → FernetDraw)
    (tenant brand : Uuid) (subject : String) (token : MetaToken) (identity : MetaIdentity) (s : Store) :
    Except ServiceError (SocialAccount × Store) := do
  let (account, s) ← upsertAccount now (ids 0) tenant brand identity s
  let s ← upsertConnections env now account.id token (fun n => ids (n + 1)) ciphers
    identity.connections s
  .ok (account, s.log
    (serviceEvent tenant brand subject "meta.connection_created" "social_account" account.id
      [("connection_count", .int identity.connections.length)]))

end Relay
