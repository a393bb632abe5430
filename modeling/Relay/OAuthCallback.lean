import Relay.Connections
import Relay.Model.Callback

/-!
# What the answer of the OAuth callback tells

A callback ends in one of many places, some of them exceptions that nobody catches.  Its answer is
to tell whether it has connected anything.

* `connect_result`: how the OAuth client ends, answer after answer;
* `ProviderFails`, `Discovers`: the answers with which it fails as the view expects, and with which
  it finds an identity;
* `persistDiscovered_refused`: when the encryption stops the last transaction;
* `Tells`, `callback_tells_iff`: the answer tells what was done exactly where the callback is refused
  in one of the ways the view names;
* `metaOAuthCallback_trail`: a callback that connects is a run of the relay.
-/

namespace Relay

open Relational Transition Exchange

/-! ### The OAuth client -/

/-- The JSON body of a success. -/
def Answer.body : Answer → Option Json
  | .response status (.json value) => if status < 200 ∨ 300 ≤ status then none else some value
  | _ => none

/-- The access token in a successful answer. -/
def Answer.accessToken (a : Answer) : Option Json :=
  match a.body with
  | some (.obj fields) => Json.get fields "access_token"
  | _ => none

section Client

variable {c : Settings} {p : OAuthPackages} {now : Time} {code : String} {answers : ℕ → Answer}

theorem read_eq (a : Answer) : MetaOAuthClient.read a =
    match a.body with
    | some value => .ok value
    | none => .error .metaProviderError := by
  cases a with
  | requestError => rfl
  | response status body =>
    cases body with
    | json value =>
      simp only [MetaOAuthClient.read, Answer.body]
      split <;> rfl
    | invalid =>
      simp only [MetaOAuthClient.read, Answer.body]
      split <;> rfl

/-- What a request comes to, for its answer. -/
def sent (p : OAuthPackages) (q : GraphGet) (a : Answer) : Except MetaOAuthError Json :=
  if p.accepted q then MetaOAuthClient.read a else .error (.uncaught "InvalidURL")

theorem request_bind {α : Type} (q : GraphGet) (f : Json → OAuthCall α) :
    Call.result (MetaOAuthClient.request p q >>= f) answers =
      sent p q (answers 0) >>= fun v => Call.result (f v) fun n => answers (n + 1) := by
  unfold MetaOAuthClient.request sent
  split
  · exact result_send_bind q MetaOAuthClient.read f
  · rfl

/-- **How `connect` ends**, as a computation on the answers. -/
theorem connect_result :
    Call.result (MetaOAuthClient.connect c p now code) answers = (do
      let shortLived ← sent p (MetaOAuthClient.codeRequest c code) (answers 0)
      let shortToken ← subscript shortLived "access_token"
      let longLived ← sent p (MetaOAuthClient.exchangeRequest c shortToken) (answers 1)
      let accessToken ← subscript longLived "access_token"
      let profile ← sent p (MetaOAuthClient.profileRequest accessToken) (answers 2)
      let pages ← sent p (MetaOAuthClient.pagesRequest accessToken) (answers 3)
      let identity ← MetaOAuthClient.identityOf profile pages
      let expiresIn ← getOr longLived "expires_in" .null
      let expiresAt ← tokenExpiry p now expiresIn
      .ok (⟨accessToken, expiresAt⟩, identity)) := by
  unfold MetaOAuthClient.connect MetaOAuthClient.discoverIdentity
  simp only [bind_assoc, request_bind, result_done_bind, result_pure]

theorem sent_eq_ok {q : GraphGet} {a : Answer} {v : Json} :
    sent p q a = .ok v ↔ p.accepted q = true ∧ a.body = some v := by
  unfold sent
  rw [read_eq]
  by_cases h : p.accepted q = true
  · cases a.body <;> simp [h]
  · simp [h]

theorem sent_eq_provider {q : GraphGet} {a : Answer} :
    sent p q a = .error .metaProviderError ↔ p.accepted q = true ∧ a.body = none := by
  unfold sent
  rw [read_eq]
  by_cases h : p.accepted q = true
  · cases a.body <;> simp [h]
  · simp [h]

/-- An access token is found in a successful answer. -/
theorem accessToken_eq_some {a : Answer} {t : Json} :
    a.accessToken = some t ↔ ∃ v, a.body = some v ∧ subscript v "access_token" = .ok t := by
  unfold Answer.accessToken subscript
  cases a.body with
  | none => simp
  | some v =>
    cases v with
    | obj fields => cases h : Json.get fields "access_token" <;> simp [h]
    | _ => simp

/-! The values inside the answers raise no `MetaProviderError`. -/

theorem subscript_ne (v : Json) (key : String) : subscript v key ≠ .error .metaProviderError := by
  unfold subscript
  split
  · split <;> simp
  · simp

theorem getOr_ne (v : Json) (key : String) (d : Json) : getOr v key d ≠ .error .metaProviderError := by
  unfold getOr
  split <;> simp

theorem loopItems_ne (v : Json) : loopItems v ≠ .error .metaProviderError := by
  unfold loopItems
  split <;> simp

theorem tokenExpiry_ne (v : Json) : tokenExpiry p now v ≠ .error .metaProviderError := by
  unfold tokenExpiry
  split
  · simp
  · split
    · unfold expiryAfter
      dsimp only
      split_ifs <;> simp [Except.map]
    · simp

theorem pageConnections_ne (page : Json) :
    MetaOAuthClient.pageConnections page ≠ .error .metaProviderError := by
  unfold MetaOAuthClient.pageConnections
  simp only [ne_eq, bind_eq_error, getOr_ne, false_or, not_exists, not_and]
  intro token _
  split
  · simp
  · simp only [bind_eq_error, subscript_ne, getOr_ne, false_or, not_exists, not_and]
    intro pageId _ name _ instagram _
    split
    · simp [bind_eq_error, subscript_ne, getOr_ne]
    · simp

theorem mapM_pageConnections_ne (pages : List Json) :
    pages.mapM MetaOAuthClient.pageConnections ≠ .error .metaProviderError := by
  induction pages with
  | nil => simp [pure, Except.pure]
  | cons page pages ih =>
    rw [List.mapM_cons]
    simp only [ne_eq, bind_eq_error, pageConnections_ne, ih, false_or, not_exists, not_and]
    intro connections _ rest _
    simp [pure, Except.pure]

theorem identityOf_ne (profile pages : Json) :
    MetaOAuthClient.identityOf profile pages ≠ .error .metaProviderError := by
  unfold MetaOAuthClient.identityOf
  simp only [ne_eq, bind_eq_error, getOr_ne, loopItems_ne, mapM_pageConnections_ne, subscript_ne,
    false_or, not_exists, not_and]
  intro data _ items _ connections _ accountId _ name _
  simp

/-- The first answer has the short-lived token. -/
def HasShortToken (c : Settings) (p : OAuthPackages) (code : String) (answers : ℕ → Answer)
    (t : Json) : Prop :=
  p.accepted (MetaOAuthClient.codeRequest c code) = true ∧ (answers 0).accessToken = some t

/-- The second answer has the long-lived token. -/
def HasLongToken (c : Settings) (p : OAuthPackages) (code : String) (answers : ℕ → Answer)
    (t : Json) : Prop :=
  ∃ short, HasShortToken c p code answers short ∧
    p.accepted (MetaOAuthClient.exchangeRequest c short) = true ∧ (answers 1).accessToken = some t

/-- A request is not answered by a JSON body with a status of success, and the earlier ones are
answered by what the client needs. -/
inductive ProviderFails (c : Settings) (p : OAuthPackages) (code : String) (answers : ℕ → Answer) :
    Prop
  | code (accepted : p.accepted (MetaOAuthClient.codeRequest c code) = true)
      (failed : (answers 0).body = none)
  | exchange {t : Json} (short : HasShortToken c p code answers t)
      (accepted : p.accepted (MetaOAuthClient.exchangeRequest c t) = true)
      (failed : (answers 1).body = none)
  | profile {t : Json} (long : HasLongToken c p code answers t)
      (accepted : p.accepted (MetaOAuthClient.profileRequest t) = true)
      (failed : (answers 2).body = none)
  | pages {t profile : Json} (long : HasLongToken c p code answers t)
      (acceptedProfile : p.accepted (MetaOAuthClient.profileRequest t) = true)
      (answered : (answers 2).body = some profile)
      (accepted : p.accepted (MetaOAuthClient.pagesRequest t) = true)
      (failed : (answers 3).body = none)

/-- The four answers tell an identity, and until when its token holds. -/
structure Discovers (c : Settings) (p : OAuthPackages) (now : Time) (code : String)
    (answers : ℕ → Answer) (token : DiscoveredToken) (identity : DiscoveredIdentity) : Prop where
  long : HasLongToken c p code answers token.accessToken
  accepted : p.accepted (MetaOAuthClient.profileRequest token.accessToken) = true ∧
    p.accepted (MetaOAuthClient.pagesRequest token.accessToken) = true
  identity : ∃ profile pages, (answers 2).body = some profile ∧ (answers 3).body = some pages ∧
    MetaOAuthClient.identityOf profile pages = .ok identity
  expiry : ∃ longLived expiresIn, (answers 1).body = some longLived ∧
    getOr longLived "expires_in" .null = .ok expiresIn ∧
    tokenExpiry p now expiresIn = .ok token.expiresAt

/-- **`connect` raises `MetaProviderError` exactly where Meta fails.** -/
theorem connect_eq_provider :
    Call.result (MetaOAuthClient.connect c p now code) answers = .error .metaProviderError ↔
      ProviderFails c p code answers := by
  rw [connect_result]
  simp only [bind_eq_error, sent_eq_provider, sent_eq_ok, subscript_ne, identityOf_ne, getOr_ne,
    tokenExpiry_ne, false_or]
  constructor
  · rintro (⟨h, hf⟩ | ⟨v, ⟨h, hv⟩, t, ht, ⟨h', hf⟩ | ⟨v', ⟨h', hv'⟩, u, hu, hrest⟩⟩)
    · exact .code h hf
    · exact .exchange ⟨h, accessToken_eq_some.2 ⟨v, hv, ht⟩⟩ h' hf
    · have hlong : HasLongToken c p code answers u :=
        ⟨t, ⟨h, accessToken_eq_some.2 ⟨v, hv, ht⟩⟩, h', accessToken_eq_some.2 ⟨v', hv', hu⟩⟩
      rcases hrest with ⟨h₂, hf⟩ | ⟨profile, ⟨h₂, hprofile⟩, ⟨h₃, hf⟩ | ⟨_, _, _, _, _, _, _, _, hok⟩⟩
      · exact .profile hlong h₂ hf
      · exact .pages hlong h₂ hprofile h₃ hf
      · cases hok
  · intro h
    cases h with
    | code accepted failed => exact .inl ⟨accepted, failed⟩
    | exchange short accepted failed =>
      obtain ⟨h, hshort⟩ := short
      obtain ⟨v, hv, ht⟩ := accessToken_eq_some.1 hshort
      exact .inr ⟨v, ⟨h, hv⟩, _, ht, .inl ⟨accepted, failed⟩⟩
    | profile long accepted failed =>
      obtain ⟨t, ⟨h, hshort⟩, h', hlong⟩ := long
      obtain ⟨v, hv, ht⟩ := accessToken_eq_some.1 hshort
      obtain ⟨v', hv', hu⟩ := accessToken_eq_some.1 hlong
      exact .inr ⟨v, ⟨h, hv⟩, t, ht, .inr ⟨v', ⟨h', hv'⟩, _, hu, .inl ⟨accepted, failed⟩⟩⟩
    | pages long acceptedProfile answered accepted failed =>
      obtain ⟨t, ⟨h, hshort⟩, h', hlong⟩ := long
      obtain ⟨v, hv, ht⟩ := accessToken_eq_some.1 hshort
      obtain ⟨v', hv', hu⟩ := accessToken_eq_some.1 hlong
      exact .inr ⟨v, ⟨h, hv⟩, t, ht, .inr ⟨v', ⟨h', hv'⟩, _, hu,
        .inr ⟨_, ⟨acceptedProfile, answered⟩, .inl ⟨accepted, failed⟩⟩⟩⟩

/-- **`connect` returns exactly what the answers tell.** -/
theorem connect_eq_ok {token : DiscoveredToken} {identity : DiscoveredIdentity} :
    Call.result (MetaOAuthClient.connect c p now code) answers = .ok (token, identity) ↔
      Discovers c p now code answers token identity := by
  rw [connect_result]
  simp only [bind_eq_ok, sent_eq_ok]
  constructor
  · rintro ⟨v, ⟨h, hv⟩, t, ht, v', ⟨h', hv'⟩, u, hu, profile, ⟨h₂, hprofile⟩, pages, ⟨h₃, hpages⟩,
      found, hfound, expiresIn, hexpires, expiresAt, hexpiry, heq⟩
    cases heq
    exact ⟨⟨t, ⟨h, accessToken_eq_some.2 ⟨v, hv, ht⟩⟩, h', accessToken_eq_some.2 ⟨v', hv', hu⟩⟩,
      ⟨h₂, h₃⟩, ⟨profile, pages, hprofile, hpages, hfound⟩, ⟨v', expiresIn, hv', hexpires, hexpiry⟩⟩
  · intro h
    obtain ⟨t, ⟨h₀, hshort⟩, h₁, hlong⟩ := h.long
    obtain ⟨v, hv, ht⟩ := accessToken_eq_some.1 hshort
    obtain ⟨v', hv', hu⟩ := accessToken_eq_some.1 hlong
    obtain ⟨profile, pages, hprofile, hpages, hfound⟩ := h.identity
    obtain ⟨longLived, expiresIn, hlongLived, hexpires, hexpiry⟩ := h.expiry
    rw [hv'] at hlongLived
    cases hlongLived
    exact ⟨v, ⟨h₀, hv⟩, t, ht, v', ⟨h₁, hv'⟩, _, hu, profile, ⟨h.accepted.1, hprofile⟩, pages,
      ⟨h.accepted.2, hpages⟩, identity, hfound, expiresIn, hexpires, _, hexpiry, rfl⟩

end Client

/-! ### The last transaction -/

/-- `encrypt_token` returns for the token of the connection. -/
def DiscoveredConnection.Encryptable (env : Env) (c : DiscoveredConnection) : Prop :=
  env.fernet.accepts env.tokenEncryptionKey = true ∧ ∃ text, c.accessToken = .str text

/-- What is stored of the connection, whatever the cipher draws. -/
def DiscoveredConnection.Stores (env : Env) (c : DiscoveredConnection) (d : MetaConnection) : Prop :=
  ∀ draw, c.stored env draw = .ok d

/-- The connection can be stored. -/
def DiscoveredConnection.Storable (env : Env) (c : DiscoveredConnection) : Prop :=
  ∃ d, c.Stores env d ∧ d.fits = true

/-- The account can be stored, and so can the connections before one that cannot be encrypted. -/
def Unencryptable (env : Env) (tenant brand : Uuid) (identity : DiscoveredIdentity) (s : Store) :
    Prop :=
  (∃ id name, columnTexts env 255 identity.providerAccountId identity.displayName = .ok (id, name) ∧
    Alone tenant brand ⟨id, name, []⟩ s) ∧
  ∃ before c after, identity.connections = before ++ c :: after ∧
    (∀ d ∈ before, d.Storable env) ∧ ¬ c.Encryptable env

section Persist

variable {env : Env} {now : Time} {ids : ℕ → Uuid} {ciphers : ℕ → FernetDraw} {draw : FernetDraw}
  {tenant brand account : Uuid} {subject : String} {token : MetaToken} {s s' : Store}

theorem columnTexts_ne (n : ℕ) (a b : Json) :
    columnTexts env n a b ≠ .error .tokenEncryptionError := by
  unfold columnTexts
  dsimp only
  split
  · simp
  · split <;> simp

theorem fits_of_columnTexts {n : ℕ} {a b : Json} {x y : String}
    (h : columnTexts env n a b = .ok (x, y)) : fitsVarchar n x = true ∧ fitsVarchar n y = true := by
  unfold columnTexts at h
  dsimp only at h
  split at h
  · cases h
  rename_i hfits
  split at h
  · rename_i a b ha hb
    cases h
    rw [ha, hb] at hfits
    simpa using hfits
  · cases h

/-- The draw does not matter for what is stored. -/
theorem stored_draw (c : DiscoveredConnection) (draw draw' : FernetDraw) :
    c.stored env draw = c.stored env draw' := by
  unfold DiscoveredConnection.stored encryptToken
  cases c.accessToken with
  | str text =>
    by_cases haccepts : env.fernet.accepts env.tokenEncryptionKey = true
    · simp only [haccepts, if_true]
    · simp only [haccepts]
      rfl
  | _ => rfl

theorem stores_of_stored {c : DiscoveredConnection} {d : MetaConnection} (h : c.stored env draw = .ok d) :
    c.Stores env d := fun draw' => (stored_draw c draw' draw).trans h

/-- What is stored of a connection: its token as it is, and the texts of the columns. -/
theorem stored_eq_ok {c : DiscoveredConnection} {d : MetaConnection} (h : c.stored env draw = .ok d) :
    c.Encryptable env := by
  unfold DiscoveredConnection.stored encryptToken at h
  split at h
  · rename_i text htext
    by_cases haccepts : env.fernet.accepts env.tokenEncryptionKey = true
    · exact ⟨haccepts, text, htext⟩
    · simp only [haccepts] at h
      cases h
  · cases h

theorem stored_eq_token {c : DiscoveredConnection} :
    c.stored env draw = .error .tokenEncryptionError ↔ ¬ c.Encryptable env := by
  unfold DiscoveredConnection.stored DiscoveredConnection.Encryptable encryptToken
  cases htoken : c.accessToken with
  | str text =>
    by_cases haccepts : env.fernet.accepts env.tokenEncryptionKey = true
    · have hne : columnTexts env 255 c.providerChannelId c.displayName ≠
          .error .tokenEncryptionError := columnTexts_ne _ _ _
      simp only [haccepts, if_true, true_and]
      refine iff_of_false ?_ fun hno => hno ⟨text, rfl⟩
      cases htexts : columnTexts env 255 c.providerChannelId c.displayName with
      | ok t => simp [Except.map]
      | error e =>
        rw [htexts] at hne
        simpa [Except.map] using hne
    · simp [haccepts]
  | _ => simp

/-- After the encryption only the database refuses. -/
theorem upsertConnection_ne {id : Uuid} {c : MetaConnection}
    (accepts : env.fernet.accepts env.tokenEncryptionKey = true) :
    upsertConnection env now id draw account token c s ≠ .error .tokenEncryptionError := by
  unfold upsertConnection encryptToken
  simp only [accepts, if_true]
  split
  · simp
  · split
    · simp
    · simp only [ne_eq, bind_eq_error, create]
      split <;> simp

/-- A loop over connections that can be stored comes first. -/
theorem upsertDiscovered_append {before rest : List DiscoveredConnection} {ds : List MetaConnection}
    (h : List.Forall₂ (DiscoveredConnection.Stores env) before ds) :
    upsertDiscovered env now account token ids ciphers (before ++ rest) s =
      upsertConnections env now account token ids ciphers ds s >>= fun s =>
        upsertDiscovered env now account token (fun n => ids (n + before.length))
          (fun n => ciphers (n + before.length)) rest s := by
  induction h generalizing ids ciphers s with
  | nil => rfl
  | @cons c d _ _ hc _ ih =>
    rw [List.cons_append, upsertDiscovered, hc (ciphers 0)]
    simp only [upsertConnections, bind_assoc]
    change (upsertConnection env now (ids 0) (ciphers 0) account token d s >>= _) = _
    congr 1
    funext s
    rw [ih]
    simp only [List.length_cons, Nat.add_assoc]

/-- Connections that can be stored, as they are stored. -/
theorem exists_stored {cs : List DiscoveredConnection} (h : ∀ c ∈ cs, c.Storable env) :
    ∃ ds, List.Forall₂ (DiscoveredConnection.Stores env) cs ds ∧ ∀ d ∈ ds, d.fits = true := by
  induction cs with
  | nil => exact ⟨[], .nil, fun d hd => by cases hd⟩
  | cons c cs ih =>
    obtain ⟨d, hd, hfits⟩ := h c List.mem_cons_self
    obtain ⟨ds, hds, hrest⟩ := ih fun c hc => h c (List.mem_cons_of_mem _ hc)
    refine ⟨d :: ds, .cons hd hds, fun e he => ?_⟩
    rcases List.mem_cons.1 he with rfl | he
    · exact hfits
    · exact hrest e he

/-- The loop is stopped by the encryption at the first token that cannot be encrypted. -/
theorem of_upsertDiscovered_token {cs : List DiscoveredConnection}
    (h : upsertDiscovered env now account token ids ciphers cs s = .error .tokenEncryptionError) :
    ∃ before c after, cs = before ++ c :: after ∧ (∀ d ∈ before, d.Storable env) ∧
      ¬ c.Encryptable env := by
  induction cs generalizing ids ciphers s with
  | nil => cases h
  | cons c cs ih =>
    rcases bind_eq_error.1 h with hstored | ⟨d, hd, h⟩
    · refine ⟨[], c, cs, rfl, ?_, stored_eq_token.1 hstored⟩
      intro d hd
      cases hd
    · rcases bind_eq_error.1 h with hupsert | ⟨t, ht, h⟩
      · exact absurd hupsert (upsertConnection_ne (stored_eq_ok hd).1)
      · obtain ⟨before, x, after, rfl, hbefore, hx⟩ := ih h
        refine ⟨c :: before, x, after, rfl, fun y hy => ?_, hx⟩
        rcases List.mem_cons.1 hy with rfl | hy
        · exact ⟨d, stores_of_stored hd, (of_upsertConnection ht).2⟩
        · exact hbefore y hy

theorem upsertDiscovered_token {before after : List DiscoveredConnection} {c : DiscoveredConnection}
    (storable : ∀ d ∈ before, d.Storable env) (bad : ¬ c.Encryptable env)
    (distinct : ∀ j < before.length, ∀ i < j, ids i ≠ ids j)
    (fresh : ∀ i < before.length, ∀ x ∈ s.connections, x.id ≠ ids i) :
    upsertDiscovered env now account token ids ciphers (before ++ c :: after) s =
      .error .tokenEncryptionError := by
  obtain ⟨ds, hds, hfits⟩ := exists_stored storable
  have haccepts : ds ≠ [] → env.fernet.accepts env.tokenEncryptionKey = true := by
    intro hne
    cases hds with
    | nil => exact absurd rfl hne
    | cons hd _ => exact (stored_eq_ok (hd (ciphers 0))).1
  have hlength := hds.length_eq
  obtain ⟨t, ht⟩ : ∃ t, upsertConnections env now account token ids ciphers ds s = .ok t :=
    upsertConnections_ok haccepts hfits (hlength ▸ distinct) (hlength ▸ fresh)
  rw [upsertDiscovered_append hds, bind_eq_error]
  exact .inr ⟨t, ht, bind_eq_error.2 (.inl (stored_eq_token.2 bad))⟩

/-- The account that a discovered one is stored as, in the terms of `upsertAccount`. -/
theorem upsertAccount_ne {id : Uuid} {identity : MetaIdentity} :
    upsertAccount now id tenant brand identity s ≠ .error .tokenEncryptionError := by
  unfold upsertAccount
  split
  · simp
  · split
    · simp
    · split
      · simp
      · simp only [ne_eq, bind_eq_error, create]
        split <;> simp

/-- **The encryption stops the last transaction exactly where a token cannot be encrypted** that
comes after connections that can be stored, of an account that can be stored. -/
theorem persistDiscovered_refused {token : DiscoveredToken} {identity : DiscoveredIdentity}
    (hs : Constrained s) (fresh : FreshIds identity.connections.length ids s) :
    persistDiscovered env now ids ciphers tenant brand subject token identity s =
        .error .tokenEncryptionError ↔ Unencryptable env tenant brand identity s := by
  constructor
  · intro h
    rcases bind_eq_error.1 h with htexts | ⟨⟨id, name⟩, htexts, h⟩
    · exact absurd htexts (columnTexts_ne _ _ _)
    rcases bind_eq_error.1 h with haccount | ⟨⟨a, t⟩, haccount, h⟩
    · exact absurd haccount upsertAccount_ne
    rcases bind_eq_error.1 h with hloop | ⟨u, -, h⟩
    · have halone := (upsertAccount_upserted hs haccount).2.1
      exact ⟨⟨id, name, htexts, halone⟩, of_upsertDiscovered_token hloop⟩
    · cases h
  · rintro ⟨⟨id, name, htexts, halone⟩, before, c, after, hlist, hbefore, hbad⟩
    obtain ⟨hid, hname⟩ := fits_of_columnTexts htexts
    obtain ⟨a, t, haccount⟩ : ∃ a t, upsertAccount now (ids 0) tenant brand ⟨id, name, []⟩ s =
        .ok (a, t) := upsertAccount_ok (by simp [MetaIdentity.fits, hid, hname]) halone fresh.accounts
    obtain ⟨accounts, rfl, -⟩ := upsertAccount_saved haccount
    have hlength : before.length ≤ identity.connections.length := by
      rw [hlist, List.length_append]
      omega
    refine bind_eq_error.2 (.inr ⟨(id, name), htexts, bind_eq_error.2 (.inr ⟨_, haccount,
      bind_eq_error.2 (.inl ?_)⟩)⟩)
    rw [hlist]
    refine upsertDiscovered_token hbefore hbad (fun j hj i hi => ?_) fun i hi => ?_
    · exact fresh.distinct (j + 1) (by omega) (i + 1) (by omega)
    · exact fresh.connections (i + 1) (by omega)

/-- A loop that succeeds has stored the connections as they are stored. -/
theorem of_upsertDiscovered {cs : List DiscoveredConnection}
    (h : upsertDiscovered env now account token ids ciphers cs s = .ok s') :
    ∃ ds, List.Forall₂ (DiscoveredConnection.Stores env) cs ds ∧
      upsertConnections env now account token ids ciphers ds s = .ok s' := by
  induction cs generalizing ids ciphers s with
  | nil => exact ⟨[], .nil, h⟩
  | cons c cs ih =>
    obtain ⟨d, hd, h⟩ := bind_eq_ok.1 h
    obtain ⟨t, ht, h⟩ := bind_eq_ok.1 h
    obtain ⟨ds, hds, hrest⟩ := ih h
    exact ⟨d :: ds, .cons (stores_of_stored hd) hds, bind_eq_ok.2 ⟨t, ht, hrest⟩⟩

/-- What is persisted is an identity of texts, as `persist_meta_connections` takes it. -/
theorem persistDiscovered_stored {token : DiscoveredToken} {identity : DiscoveredIdentity}
    {account : SocialAccount}
    (h : persistDiscovered env now ids ciphers tenant brand subject token identity s =
      .ok (account, s')) :
    ∃ stored, persistMetaConnections env now ids ciphers tenant brand subject (token.stored env) stored
      s = .ok (account, s') := by
  obtain ⟨⟨id, name⟩, -, h⟩ := bind_eq_ok.1 h
  obtain ⟨⟨a, t⟩, haccount, h⟩ := bind_eq_ok.1 h
  obtain ⟨u, hloop, h⟩ := bind_eq_ok.1 h
  obtain ⟨ds, hds, hconnections⟩ := of_upsertDiscovered hloop
  rw [hds.length_eq] at h
  exact ⟨⟨id, name, ds⟩, bind_eq_ok.2 ⟨(a, t), haccount, bind_eq_ok.2 ⟨u, hconnections, h⟩⟩⟩

end Persist

/-! ### The state -/

/-- The callback may use the state. -/
def OAuthState.Usable (env : Env) (now : Time) (rawState : String) (o : OAuthState) : Prop :=
  o.stateDigest = env.sha256 rawState ∧ o.usedAt = none ∧ now < o.expiresAt

/-- A usable state is used, and without one nothing happens. -/
theorem consumeOAuthState_cases (env : Env) (now : Time) (rawState : String) {s : Store}
    (hs : Constrained s) :
    (∃ o ∈ s.oauthStates, o.Usable env now rawState ∧ ∃ t,
        consumeOAuthState env now rawState s = .ok (o.use now, t) ∧ Constrained t ∧
          t.accounts = s.accounts ∧ t.connections = s.connections) ∨
      (∀ o ∈ s.oauthStates, ¬ o.Usable env now rawState) ∧
        consumeOAuthState env now rawState s = .error .invalidOAuthState := by
  unfold consumeOAuthState
  cases hfound : s.oauthStates.find? fun o => o.stateDigest = env.sha256 rawState with
  | none =>
    refine .inr ⟨fun o ho usable => ?_, rfl⟩
    exact Table.find?_eq_none.1 hfound o ho (by simp [usable.1])
  | some o =>
    have ho := Table.mem_of_find? hfound
    have hdigest : o.stateDigest = env.sha256 rawState := by simpa using Table.find?_some hfound
    by_cases hbad : o.usedAt ≠ none ∨ o.expiresAt ≤ now
    · refine .inr ⟨fun o' ho' usable => ?_, if_pos hbad⟩
      -- the digest is unique
      have hsame : o' = o := hs.oauthStates o' ho' o ho (usable.1.trans hdigest.symm)
      subst hsame
      rcases hbad with hused | hexpired
      · exact hused usable.2.1
      · exact absurd usable.2.2 (not_lt.2 hexpired)
    · rw [not_or, not_not, not_le] at hbad
      refine .inl ⟨o, ho, ⟨hdigest, hbad⟩, _, if_neg ?_, ?_, rfl, rfl⟩
      · rw [not_or, not_not, not_le]
        exact hbad
      · exact { hs with oauthStates := hs.oauthStates.update fun _ => rfl }

/-! ### The answer -/

/-- The answer of a callback tells what it did at the store `s`. -/
structure Tells (s : Store) (e : CallbackEnd) : Prop where
  /-- it redirects and has connected what its state was for, or refuses and has connected nothing -/
  way : (∃ r state account, e.answer = .ok r ∧ r.status = 302 ∧
        e.commits = [.consumed state, .connected account] ∧ account.tenant = state.tenant ∧
        account.brand = state.brand) ∨
      ∃ error : ApiError, e.answer = .error error ∧
        (error.status = 400 ∨ error.status = 502 ∨ error.status = 503) ∧
        e.store.accounts = s.accounts ∧ e.store.connections = s.connections
  handled : ∀ error, e.answer ≠ .error (.unhandled error)
  /-- connections are committed if and only if it redirects -/
  commits : (∃ account, .connected account ∈ e.commits) ↔ ∃ r, e.answer = .ok r ∧ r.status = 302

/-- The callback is refused in one of the ways the view names. -/
inductive Refused (env : Env) (w : CallbackWorld) (code state : Option String) (s : Store) : Prop
  | parameters (missing : code.getD "" = "" ∨ state.getD "" = "")
  | state (unusable : ∀ o ∈ s.oauthStates, ¬ o.Usable env w.consumedAt (state.getD ""))
  | configuration (missing : env.metaConfigured = false)
  | provider (fails : ProviderFails env.toSettings w.toOAuthPackages (code.getD "") w.answers)
  | encryption {o : OAuthState} {token : DiscoveredToken} {identity : DiscoveredIdentity}
      (row : o ∈ s.oauthStates) (usable : o.Usable env w.consumedAt (state.getD ""))
      (discovers : Discovers env.toSettings w.toOAuthPackages w.connectedAt (code.getD "") w.answers
        token identity)
      (bad : Unencryptable env o.tenant o.brand identity s)

section Answer

variable {env : Env} {w : CallbackWorld} {s t : Store} {e : CallbackEnd}

theorem tells_of_refusal {error : ApiError} (answer : e.answer = .error error)
    (status : error.status = 400 ∨ error.status = 502 ∨ error.status = 503)
    (accounts : e.store.accounts = s.accounts) (connections : e.store.connections = s.connections)
    (commits : ∀ account, .connected account ∉ e.commits) : Tells s e where
  way := .inr ⟨error, answer, status, accounts, connections⟩
  handled error' h := by
    rw [answer] at h
    cases h
    -- an unhandled exception is a 500
    rcases status with h | h | h <;> cases h
  commits := by
    constructor
    · rintro ⟨account, h⟩
      exact absurd h (commits account)
    · rintro ⟨r, h, -⟩
      rw [answer] at h
      cases h

theorem not_tells {error : ServiceError} (answer : e.answer = .error (.unhandled error)) :
    ¬ Tells s e := fun h => h.handled error answer

/-- **After the state is consumed, the answer tells what was done if Meta is not configured, if it
fails, or if the encryption stops the last transaction.** -/
theorem finishCallback_tells_iff {code : String} {o : OAuthState} (ht : Constrained t)
    (accounts : t.accounts = s.accounts) (connections : t.connections = s.connections)
    (fresh : ∀ token identity, Discovers env.toSettings w.toOAuthPackages w.connectedAt code
      w.answers token identity → FreshIds identity.connections.length w.ids t) :
    Tells s (finishCallback env w code o t) ↔ env.metaConfigured = false ∨
      ProviderFails env.toSettings w.toOAuthPackages code w.answers ∨
      ∃ token identity, Discovers env.toSettings w.toOAuthPackages w.connectedAt code w.answers token
        identity ∧ Unencryptable env o.tenant o.brand identity t := by
  have hprovider : Call.result (MetaOAuthClient.connect env.toSettings w.toOAuthPackages w.connectedAt
      code) w.answers = .error .metaProviderError ↔
        ProviderFails env.toSettings w.toOAuthPackages code w.answers := connect_eq_provider
  unfold finishCallback
  by_cases hconfigured : env.metaConfigured = true
  swap
  · rw [if_pos hconfigured]
    refine iff_of_true ?_ (.inl (Bool.not_eq_true _ ▸ hconfigured))
    exact tells_of_refusal rfl (.inr (.inr rfl)) accounts connections (by simp)
  rw [if_neg (not_not.2 hconfigured), hconfigured, ← hprovider]
  simp only [Bool.true_eq_false, false_or, ← connect_eq_ok]
  cases hconnect : Call.result (MetaOAuthClient.connect env.toSettings w.toOAuthPackages w.connectedAt
    code) w.answers with
  | error error =>
    cases error with
    | metaProviderError =>
      refine iff_of_true ?_ (.inl rfl)
      exact tells_of_refusal rfl (.inr (.inl rfl)) accounts connections (by simp)
    | uncaught className => exact iff_of_false (not_tells rfl) (by simp)
  | ok x =>
    obtain ⟨token, identity⟩ := x
    have hrefused : persistDiscovered env w.persistedAt w.ids w.ciphers o.tenant o.brand o.subject token identity
        t = .error .tokenEncryptionError ↔ Unencryptable env o.tenant o.brand identity t :=
      persistDiscovered_refused ht (fresh token identity (connect_eq_ok.1 hconnect))
    have hright : ((Except.ok (token, identity) : Except MetaOAuthError _) = .error .metaProviderError ∨
        ∃ token' identity', (Except.ok (token, identity) : Except MetaOAuthError _) =
          .ok (token', identity') ∧ Unencryptable env o.tenant o.brand identity' t) ↔
        Unencryptable env o.tenant o.brand identity t := by simp
    rw [hright, ← hrefused]
    dsimp only
    cases persistDiscovered env w.persistedAt w.ids w.ciphers o.tenant o.brand o.subject token identity t with
    | ok x => exact iff_of_false (not_tells rfl) (by simp)
    | error error =>
      by_cases hencryption : error = .tokenEncryptionError
      · subst hencryption
        refine iff_of_true ?_ rfl
        exact tells_of_refusal rfl (.inr (.inr rfl)) accounts connections (by simp)
      · refine iff_of_false ?_ (by simpa using hencryption)
        cases error <;> first | exact not_tells rfl | exact absurd rfl hencryption

end Answer

/-- **The answer of the callback tells what it did exactly where the callback is refused**: for
missing parameters or an unusable state, for missing settings, for a failure of Meta, or for a token
that cannot be encrypted. -/
theorem callback_tells_iff {env : Env} {publisher : Option Publisher} {s : Sys} {w : CallbackWorld}
    {code state : Option String} (reachable : Reachable (relay env publisher) s)
    (fresh : ∀ token identity, Discovers env.toSettings w.toOAuthPackages w.connectedAt
      (code.getD "") w.answers token identity → FreshIds identity.connections.length w.ids s.store) :
    Tells s.store (metaOAuthCallback env w code state s.store) ↔ Refused env w code state s.store := by
  have hs := constrained_of_reachable reachable
  unfold metaOAuthCallback
  by_cases hparameters : code.getD "" = "" ∨ state.getD "" = ""
  · rw [if_pos hparameters]
    exact iff_of_true (tells_of_refusal rfl (.inl rfl) rfl rfl (by simp)) (.parameters hparameters)
  rw [if_neg hparameters]
  rcases consumeOAuthState_cases env w.consumedAt (state.getD "") hs with
    ⟨o, ho, husable, t, hconsume, ht, haccounts, hconnections⟩ | ⟨hunusable, hconsume⟩
  swap
  · rw [hconsume]
    exact iff_of_true (tells_of_refusal rfl (.inl rfl) rfl rfl (by simp)) (.state hunusable)
  rw [hconsume]
  dsimp only
  rw [finishCallback_tells_iff ht haccounts hconnections fun token identity hdiscovers => by
    obtain ⟨hdistinct, hnew, hnewConnections⟩ := fresh token identity hdiscovers
    exact ⟨hdistinct, haccounts ▸ hnew, hconnections ▸ hnewConnections⟩]
  have hsameBad : ∀ identity, Unencryptable env o.tenant o.brand identity t ↔
      Unencryptable env o.tenant o.brand identity s.store := by
    intro identity
    unfold Unencryptable Alone
    rw [haccounts]
  constructor
  · rintro (hmissing | hfails | ⟨token, identity, hdiscovers, hbad⟩)
    · exact .configuration hmissing
    · exact .provider hfails
    · exact .encryption ho husable hdiscovers ((hsameBad identity).1 hbad)
  · intro h
    cases h with
    | parameters missing => exact absurd missing hparameters
    | state unusable => exact absurd husable (unusable o ho)
    | configuration missing => exact .inl missing
    | provider fails => exact .inr (.inl fails)
    | encryption row usable discovers bad =>
      -- the digest is unique, so this is the state that is consumed
      have hsame := hs.oauthStates _ row o ho (usable.1.trans husable.1.symm)
      subst hsame
      exact .inr (.inr ⟨_, _, discovers, (hsameBad _).2 bad⟩)

namespace Sample

/-- A JSON body with status 200. -/
def ok (value : Json) : Answer := .response 200 (.json value)

/-- Meta's four answers, where the page has this token. -/
def metaAnswers (pageToken : Json) : ℕ → Answer
  | 0 => ok (.obj [("access_token", .str "short")])
  | 1 => ok (.obj [("access_token", .str "long"), ("expires_in", .int 5184000)])
  | 2 => ok (.obj [("id", .str "1"), ("name", .str "Me")])
  | _ => ok (.obj [("data", .arr [.obj [("id", .str "page"), ("name", .str "Page"),
      ("access_token", pageToken)]])])

/-- A callback that hears these answers. -/
def callbackWorld (pageToken : Json) : CallbackWorld where
  accepted _ := true
  decimal _ := none
  consumedAt := 0
  answers := metaAnswers pageToken
  connectedAt := 0
  persistedAt := 0
  ids k := .ofNat (40 + k)
  ciphers k := ⟨.ofNat _ k, 0⟩

/-- A state is issued: the callback that hears of a token that is no text is refused, and the one
that hears of a text raises `NameError` after it has connected the page. -/
theorem issuedState : ∃ s : Sys, Reachable (relay env none) s ∧
    FreshIds 1 (callbackWorld (.int 7)).ids s.store ∧
    (metaOAuthCallback env (callbackWorld (.int 7)) (some "code") (some "token") s.store).answer =
      .error .metaConfiguration ∧
    (metaOAuthCallback env (callbackWorld (.str "page token")) (some "code") (some "token")
      s.store).answer = .error (.unhandled (.other "NameError")) := by
  obtain ⟨es, s, tr, hs⟩ := exists_of_execute
    (show ((execute env none (panel (.startMetaOAuth (.obj [("brand_id", .str brand.text)])) 30)
      start).any fun x => decide
        (FreshIds 1 (callbackWorld (.int 7)).ids x.2.store ∧
          (metaOAuthCallback env (callbackWorld (.int 7)) (some "code") (some "token")
            x.2.store).answer = .error .metaConfiguration ∧
          (metaOAuthCallback env (callbackWorld (.str "page token")) (some "code") (some "token")
            x.2.store).answer = .error (.unhandled (.other "NameError")))) = true by decide +kernel)
  exact ⟨s, (Reachable.of_start (start_isStart none)).trail tr, of_decide_eq_true hs⟩

end Sample

/-- A page whose token is a number. -/
theorem callback_tells_iff_sample : ∃ s : Sys, Reachable (relay Sample.env none) s ∧
    (Tells s.store (metaOAuthCallback Sample.env (Sample.callbackWorld (.int 7)) (some "code")
      (some "token") s.store) ↔
    Refused Sample.env (Sample.callbackWorld (.int 7)) (some "code") (some "token") s.store) := by
  obtain ⟨s, hreach, hfresh, -, -⟩ := Sample.issuedState
  refine ⟨s, hreach, callback_tells_iff hreach fun token identity hdiscovers => ?_⟩
  have hlength : (Call.result (MetaOAuthClient.connect Sample.env.toSettings
      (Sample.callbackWorld (.int 7)).toOAuthPackages (Sample.callbackWorld (.int 7)).connectedAt
      ((some "code").getD "")) (Sample.callbackWorld (.int 7)).answers).map
        (fun x => x.2.connections.length) = .ok 1 := by
    decide +kernel
  have hidentity : identity.connections.length = 1 := by
    rw [connect_eq_ok.2 hdiscovers] at hlength
    simpa [Except.map] using hlength
  rw [hidentity]
  exact hfresh

/-- A page with its token: it is connected, and then the view raises `NameError`. -/
theorem callback_not_tells : ¬ ∀ (env : Env) (publisher : Option Publisher) (s : Sys),
    Reachable (relay env publisher) s → ∀ (w : CallbackWorld) (code state : Option String),
      Tells s.store (metaOAuthCallback env w code state s.store) := by
  intro h
  obtain ⟨s, hreach, -, -, hanswer⟩ := Sample.issuedState
  exact not_tells hanswer (h Sample.env none s hreach _ _ _)

/-! ### The callback in the system -/

/-- What a callback that connects has done. -/
theorem finishCallback_connects {env : Env} {w : CallbackWorld} {code : String} {o : OAuthState}
    {t : Store} {account : SocialAccount}
    (h : .connected account ∈ (finishCallback env w code o t).commits) :
    ∃ token identity account', persistMetaConnections env w.persistedAt w.ids w.ciphers o.tenant o.brand
      o.subject token identity t = .ok (account', (finishCallback env w code o t).store) := by
  unfold finishCallback at h ⊢
  by_cases hconfigured : env.metaConfigured = true
  swap
  · rw [if_pos hconfigured] at h
    simp at h
  rw [if_neg (not_not.2 hconfigured)] at h ⊢
  cases hconnect : Call.result (MetaOAuthClient.connect env.toSettings w.toOAuthPackages w.connectedAt
    code) w.answers with
  | error error =>
    rw [hconnect] at h
    cases error <;> simp at h
  | ok x =>
    obtain ⟨token, identity⟩ := x
    rw [hconnect] at h
    dsimp only at h ⊢
    cases hpersist : persistDiscovered env w.persistedAt w.ids w.ciphers o.tenant o.brand o.subject token
      identity t with
    | error error =>
      rw [hpersist] at h
      cases error <;> simp at h
    | ok y =>
      obtain ⟨account', u⟩ := y
      obtain ⟨stored, hstored⟩ := persistDiscovered_stored hpersist
      exact ⟨_, stored, account', hstored⟩

/-- The labels of a callback that connects: the web process receives the request, commits, hears of
the identity, and commits again after a while. -/
def callbackLabels (k : ℕ) (code state : Option String) (draws : Draws) (token : MetaToken)
    (identity : MetaIdentity) (d : ℕ) : List Label :=
  [.receivePublic k (.metaOAuthCallback code state), .commit k draws, .identify k token identity,
    .advance d, .commit k draws]

/-- **A callback that connects is a run of the relay.** -/
theorem metaOAuthCallback_trail {env : Env} {publisher : Option Publisher} {s : Sys} {k d : ℕ}
    {w : CallbackWorld} {code state : Option String} {account : SocialAccount} {draws : Draws}
    (free : s.tickets k = none) (clock : w.consumedAt = s.clock) (later : w.persistedAt = s.clock + d)
    (drawn : draws.ids = w.ids) (enciphered : draws.ciphers = w.ciphers)
    (connects : .connected account ∈ (metaOAuthCallback env w code state s.store).commits) :
    ∃ token identity es s', es.map Prod.fst = callbackLabels k code state draws token identity d ∧
      Trail (relay env publisher) s es s' ∧
      s'.store = (metaOAuthCallback env w code state s.store).store := by
  unfold metaOAuthCallback at connects ⊢
  by_cases hparameters : code.getD "" = "" ∨ state.getD "" = ""
  · rw [if_pos hparameters] at connects
    simp at connects
  rw [if_neg hparameters] at connects ⊢
  cases hconsume : consumeOAuthState env w.consumedAt (state.getD "") s.store with
  | error e =>
    rw [hconsume] at connects
    cases e <;> simp at connects
  | ok x =>
    obtain ⟨o, t⟩ := x
    rw [hconsume] at connects
    dsimp only at connects ⊢
    obtain ⟨token, identity, account', hpersist⟩ := finishCallback_connects connects
    rw [clock] at hconsume
    generalize finishCallback env w (code.getD "") o t = e at hpersist ⊢
    -- the states that the steps lead through
    let consuming := s.setTicket k (some (.admitted (.consumeOAuthState (state.getD ""))))
    let asking := { consuming with store := t }.setTicket k (some (.connecting o))
    let persisting := asking.setTicket k (some (.admitted
      (.persistMetaConnections o.tenant o.brand o.subject token identity)))
    let later' : Sys := { persisting with clock := s.clock + d }
    have hreceive : next env publisher s (.receivePublic k (.metaOAuthCallback code state)) =
        some (consuming, .silent) := by
      simp only [next, free, admitPublic, if_neg hparameters, Sys.admitted, Option.isSome_none]
      rfl
    have hconsuming : next env publisher consuming (.commit k draws) = some (asking,
        .committed (.consumeOAuthState (state.getD "")) (.oauthState o) none) := by
      have hticket : consuming.tickets k = some (.admitted (.consumeOAuthState (state.getD ""))) :=
        Function.update_self _ _ _
      have hrun : consumeOAuthState env consuming.clock (state.getD "") consuming.store = .ok (o, t) :=
        hconsume
      simp only [next, hticket, Sys.commit, runCommand, hrun]
      rfl
    have hasking : next env publisher asking (.identify k token identity) =
        some (persisting, .silent) := by
      have hticket : asking.tickets k = some (.connecting o) := Function.update_self _ _ _
      simp only [next, hticket]
      rfl
    have hpersisting : next env publisher later' (.commit k draws) = some
        ({ later' with store := e.store }.setTicket k none,
          .committed (.persistMetaConnections o.tenant o.brand o.subject token identity)
            (.socialAccount account') (respond e.store (.socialAccount account'))) := by
      have hticket : later'.tickets k = some (.admitted
          (.persistMetaConnections o.tenant o.brand o.subject token identity)) :=
        Function.update_self _ _ _
      have hrun : persistMetaConnections env later'.clock draws.ids draws.ciphers o.tenant o.brand
          o.subject token identity later'.store = .ok (account', e.store) := by
        rw [drawn, enciphered]
        rw [later] at hpersist
        exact hpersist
      simp only [next, hticket, Sys.commit, runCommand, hrun]
      rfl
    have hrun : Trail (relay env publisher) s
        [(.receivePublic k (.metaOAuthCallback code state), .silent),
          (.commit k draws, .committed (.consumeOAuthState (state.getD "")) (.oauthState o) none),
          (.identify k token identity, .silent), (.advance d, .silent),
          (.commit k draws, .committed
            (.persistMetaConnections o.tenant o.brand o.subject token identity)
            (.socialAccount account') (respond e.store (.socialAccount account')))]
        ({ later' with store := e.store }.setTicket k none) := by
      refine .move (t := consuming) hreceive (.move (t := asking) hconsuming ?_)
      refine .move (t := persisting) hasking (.move (t := later') ?_ (.move hpersisting (.stay _)))
      rfl
    exact ⟨token, identity, _, _, rfl, hrun, rfl⟩

end Relay
