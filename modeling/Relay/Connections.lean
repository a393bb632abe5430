import Relay.Library.Upsert
import Relay.Coherence
import Relay.Constraints

/-!
# Connecting a Meta identity to a brand

`persist_meta_connections` upserts the account, then the connections one after another.  The
account is looked up in the brand, but the database keeps it unique in the workspace.

* `upsertConnections_writes`: the loop as a sequence of writes under the channel;
* `Connected`: what the claim of a connected identity comes to;
* `connects_iff`: it holds exactly where no other brand of the workspace has the account, the
  tokens can be encrypted and the texts fit their columns.
-/

namespace Relay

open Relational Transition

/-! ### The connections -/

/-- The columns that tell the connections of a store apart. -/
def ChannelConnection.columns (c : ChannelConnection) : Uuid × Channel × String :=
  (c.socialAccount, c.channel, c.providerChannelId)

/-- The same of a connection that Meta has told, under an account. -/
def MetaConnection.columns (account : Uuid) (c : MetaConnection) : Uuid × Channel × String :=
  (account, c.channel, c.providerChannelId)

/-- The columns can hold what Meta has told. -/
def MetaConnection.fits (c : MetaConnection) : Bool :=
  fitsVarchar 64 c.channel.text && fitsVarchar 255 c.providerChannelId && fitsVarchar 255 c.displayName

/-- The row stands for the channel as Meta has told it. -/
structure ChannelConnection.Carries (env : Env) (token : MetaToken) (c : MetaConnection)
    (row : ChannelConnection) : Prop where
  displayName : row.displayName = c.displayName
  accessToken : ∃ draw, encryptToken env draw c.accessToken = some row.encryptedAccessToken
  expiry : row.tokenExpiresAt = token.expiresAt
  scopes : row.grantedScopes = metaOAuthScopes
  active : row.isActive = true

/-- What an upsert may write over an earlier row. -/
structure Upserted (env : Env) (account : Uuid) (token : MetaToken) (c : MetaConnection)
    (old : Option ChannelConnection) (row : ChannelConnection) : Prop where
  columns : row.columns = c.columns account
  carries : row.Carries env token c
  lives : ∀ x, old = some x → x.Becomes row

/-- No two connections stand for one channel of an account. -/
theorem Constrained.columns {s : Store} (h : Constrained s) :
    s.connections.Unique ChannelConnection.columns := h.connections

section Loop

variable {env : Env} {now : Time} {account : Uuid} {token : MetaToken} {s s' : Store}

/-- The look-up of a channel. -/
theorem findConnection (c : MetaConnection) :
    (s.connections.find? fun row => row.socialAccount = account && row.channel = c.channel &&
      row.providerChannelId = c.providerChannelId) =
        s.connections.select ChannelConnection.columns (c.columns account) := by
  unfold Table.select
  congr 1
  funext row
  simp [ChannelConnection.columns, MetaConnection.columns, Bool.and_assoc]

theorem upsertConnection_writes {id : Uuid} {draw : FernetDraw} {c : MetaConnection}
    (h : upsertConnection env now id draw account token c s = .ok s') (hs : Constrained s) :
    ∃ row, Upserted env account token c
        (s.connections.select ChannelConnection.columns (c.columns account)) row ∧
      s'.connections.select ChannelConnection.columns =
        Function.update (s.connections.select ChannelConnection.columns) (c.columns account)
          (some row) := by
  have hs' := upsertConnection_constrained h hs
  unfold upsertConnection at h
  split at h
  · cases h
  rename_i encrypted hencrypted
  split at h
  · cases h
  rw [findConnection] at h
  split at h
  · rename_i row hfound
    obtain ⟨hrow, hcolumns⟩ := hs.columns.select_eq_some.1 hfound
    cases h
    refine ⟨row.refresh now token encrypted c, ⟨hcolumns, ⟨rfl, ⟨_, hencrypted⟩, rfl, rfl, rfl⟩, ?_⟩, ?_⟩
    · intro x hx
      rw [hfound] at hx
      cases hx
      exact ⟨_, _, _, _, _, _, rfl⟩
    · rw [← hcolumns]
      exact hs.columns.select_update (fun _ => rfl) hrow
  · rename_i hnone
    obtain ⟨connections, hinsert, h⟩ := bind_eq_ok.1 h
    cases h
    refine ⟨newChannelConnection now id account token encrypted c,
      ⟨rfl, ⟨rfl, ⟨_, hencrypted⟩, rfl, rfl, rfl⟩, fun x hx => ?_⟩, ?_⟩
    · rw [hnone] at hx
      cases hx
    · exact hs'.columns.select_insert (create_eq_ok.1 hinsert)

/-- **The loop writes the channels of the list**, in its order. -/
theorem upsertConnections_writes {ids : ℕ → Uuid} {ciphers : ℕ → FernetDraw} {cs : List MetaConnection}
    (h : upsertConnections env now account token ids ciphers cs s = .ok s') (hs : Constrained s) :
    Writes (MetaConnection.columns account) (Upserted env account token) cs
      (s.connections.select ChannelConnection.columns)
      (s'.connections.select ChannelConnection.columns) := by
  induction cs generalizing s ids ciphers with
  | nil => cases h; exact .nil _
  | cons c cs ih =>
    obtain ⟨t, ht, h⟩ := bind_eq_ok.1 h
    obtain ⟨row, hrow, hselect⟩ := upsertConnection_writes ht hs
    have hrest := ih h (upsertConnection_constrained ht hs)
    rw [hselect] at hrest
    exact .cons hrow hrest

/-- What an upsert of a connection needs. -/
theorem upsertConnection_ok {id : Uuid} {draw : FernetDraw} {c : MetaConnection}
    (accepts : env.fernet.accepts env.tokenEncryptionKey = true) (fits : c.fits = true)
    (fresh : ∀ x ∈ s.connections, x.id ≠ id) :
    ∃ s', upsertConnection env now id draw account token c s = .ok s' ∧
      ∀ x ∈ s'.connections, x.id = id ∨ ∃ y ∈ s.connections, y.id = x.id := by
  obtain ⟨⟨hchannel, hid⟩, hname⟩ : (_ ∧ _) ∧ _ := by
    simpa only [MetaConnection.fits, Bool.and_eq_true] using fits
  have hencrypted : encryptToken env draw c.accessToken =
      some (env.fernet.encrypt env.tokenEncryptionKey draw c.accessToken) := if_pos accepts
  simp only [upsertConnection, hencrypted, hchannel, hid, hname, not_true_eq_false, or_self, if_false]
  rw [findConnection]
  cases hselect : s.connections.select ChannelConnection.columns (c.columns account) with
  | some row =>
    exact ⟨_, rfl, fun x hx => .inr (Table.exists_key_of_mem_update hx)⟩
  | none =>
    obtain ⟨connections, hinsert⟩ := Table.insert?_isSome (t := s.connections)
      (r := newChannelConnection now id account token
        (env.fernet.encrypt env.tokenEncryptionKey draw c.accessToken) c) fresh
    refine ⟨{ s with connections }, ?_, fun x hx => ?_⟩
    · exact bind_eq_ok.2 ⟨connections, create_eq_ok.2 hinsert, rfl⟩
    · rcases (Table.mem_insert? hinsert).1 hx with hx | rfl
      · exact .inr ⟨x, hx, rfl⟩
      · exact .inl rfl

/-- What the loop needs. -/
theorem upsertConnections_ok {ids : ℕ → Uuid} {ciphers : ℕ → FernetDraw} {cs : List MetaConnection}
    (accepts : cs ≠ [] → env.fernet.accepts env.tokenEncryptionKey = true)
    (fits : ∀ c ∈ cs, c.fits = true) (distinct : ∀ j < cs.length, ∀ i < j, ids i ≠ ids j)
    (fresh : ∀ i < cs.length, ∀ x ∈ s.connections, x.id ≠ ids i) :
    ∃ s', upsertConnections env now account token ids ciphers cs s = .ok s' := by
  induction cs generalizing s ids ciphers with
  | nil => exact ⟨s, rfl⟩
  | cons c cs ih =>
    obtain ⟨t, ht, hids⟩ : ∃ t, upsertConnection env now (ids 0) (ciphers 0) account token c s = .ok t ∧
        ∀ x ∈ t.connections, x.id = ids 0 ∨ ∃ y ∈ s.connections, y.id = x.id :=
      upsertConnection_ok (accepts (List.cons_ne_nil _ _)) (fits c List.mem_cons_self)
        (fresh 0 (Nat.succ_pos _))
    -- the identifiers that are left are new to the store after the first upsert
    have hfresh : ∀ i < cs.length, ∀ x ∈ t.connections, x.id ≠ ids (i + 1) := by
      intro i hi x hx
      rcases hids x hx with hid | ⟨y, hy, hid⟩
      · rw [hid]
        exact distinct (i + 1) (Nat.succ_lt_succ hi) 0 (Nat.succ_pos i)
      · rw [← hid]
        exact fresh (i + 1) (Nat.succ_lt_succ hi) y hy
    obtain ⟨s', hs'⟩ : ∃ s', upsertConnections env now account token (fun n => ids (n + 1))
        (fun n => ciphers (n + 1)) cs t = .ok s' :=
      ih (fun _ => accepts (List.cons_ne_nil _ _)) (fun d hd => fits d (List.mem_cons_of_mem _ hd))
        (fun j hj i hi => distinct (j + 1) (Nat.succ_lt_succ hj) (i + 1) (Nat.succ_lt_succ hi)) hfresh
    exact ⟨s', bind_eq_ok.2 ⟨t, ht, hs'⟩⟩

/-- An upsert that succeeds has encrypted the token, and the texts have fitted. -/
theorem of_upsertConnection {id : Uuid} {draw : FernetDraw} {c : MetaConnection}
    (h : upsertConnection env now id draw account token c s = .ok s') :
    env.fernet.accepts env.tokenEncryptionKey = true ∧ c.fits = true := by
  unfold upsertConnection encryptToken at h
  split at h
  · cases h
  rename_i hencrypted
  split at h
  · cases h
  rename_i hcolumns
  refine ⟨?_, by simpa [MetaConnection.fits, and_assoc] using hcolumns⟩
  by_contra hrefused
  rw [if_neg hrefused] at hencrypted
  cases hencrypted

/-- A loop that succeeds has encrypted every token, and every text has fitted. -/
theorem of_upsertConnections {ids : ℕ → Uuid} {ciphers : ℕ → FernetDraw} {cs : List MetaConnection}
    (h : upsertConnections env now account token ids ciphers cs s = .ok s') :
    (cs ≠ [] → env.fernet.accepts env.tokenEncryptionKey = true) ∧ ∀ c ∈ cs, c.fits = true := by
  induction cs generalizing s ids ciphers with
  | nil => exact ⟨fun h => absurd rfl h, fun c hc => by cases hc⟩
  | cons c cs ih =>
    obtain ⟨t, ht, h⟩ := bind_eq_ok.1 h
    obtain ⟨haccepts, hfits⟩ := of_upsertConnection ht
    refine ⟨fun _ => haccepts, fun d hd => ?_⟩
    rcases List.mem_cons.1 hd with rfl | hd
    · exact hfits
    · exact (ih h).2 d hd

end Loop

/-! ### The account -/

/-- The account of an identity in a brand. -/
def SocialAccount.StandsFor (brand : Uuid) (identity : MetaIdentity) (a : SocialAccount) : Prop :=
  a.brand = brand ∧ a.provider = .metaProvider ∧ a.providerAccountId = identity.providerAccountId

/-- The texts of an identity fit the columns of an account. -/
def MetaIdentity.fits (identity : MetaIdentity) : Bool :=
  fitsVarchar 255 identity.providerAccountId && fitsVarchar 255 identity.displayName

/-- No other brand of the workspace has the account. -/
def Alone (tenant brand : Uuid) (identity : MetaIdentity) (s : Store) : Prop :=
  ∀ a ∈ s.accounts, a.tenant = tenant → a.provider = .metaProvider →
    a.providerAccountId = identity.providerAccountId → a.brand = brand

section Account

variable {now : Time} {id tenant brand : Uuid} {identity : MetaIdentity} {s s' : Store}
  {account : SocialAccount}

/-- What the upsert of the account leaves: the account, and the others as they were. -/
structure AccountUpserted (tenant brand : Uuid) (identity : MetaIdentity) (account : SocialAccount)
    (t t' : Table SocialAccount) : Prop where
  mem : account ∈ t'
  owner : account.tenant = tenant
  stands : account.StandsFor brand identity
  name : account.displayName = identity.displayName
  others : ∀ a, a.id ≠ account.id → (a ∈ t' ↔ a ∈ t)
  lives : ∀ a ∈ t, a.id = account.id → a.Becomes account
  found : ∀ a ∈ t, a.tenant = tenant → a.StandsFor brand identity → a.id = account.id

theorem upsertAccount_upserted (hs : Constrained s)
    (h : upsertAccount now id tenant brand identity s = .ok (account, s')) :
    identity.fits = true ∧ Alone tenant brand identity s ∧
      AccountUpserted tenant brand identity account s.accounts s'.accounts := by
  unfold upsertAccount at h
  split at h
  · cases h
  rename_i hfits
  refine ⟨by simpa [MetaIdentity.fits] using hfits, ?_⟩
  split at h
  · rename_i row hfound
    have hrow := Table.mem_of_find? hfound
    obtain ⟨⟨⟨htenant, hbrand⟩, hprovider⟩, hid⟩ : ((row.tenant = tenant ∧ row.brand = brand) ∧
        row.provider = .metaProvider) ∧ row.providerAccountId = identity.providerAccountId := by
      simpa using Table.find?_some hfound
    -- the constraint leaves no other account of the workspace
    have honly : ∀ a ∈ s.accounts, a.tenant = tenant → a.provider = .metaProvider →
        a.providerAccountId = identity.providerAccountId → a = row := by
      intro a ha h₁ h₂ h₃
      exact hs.accounts a ha row hrow (by simp only [h₁, h₂, h₃, htenant, hprovider, hid])
    cases h
    refine ⟨fun a ha h₁ h₂ h₃ => (honly a ha h₁ h₂ h₃) ▸ hbrand,
      Table.mem_update_self hrow rfl, htenant, ⟨hbrand, hprovider, hid⟩, rfl, fun a ha =>
        ⟨fun hmem => ?_, fun hmem => Table.mem_update_of_ne hmem ha⟩, fun a ha haid => ?_, ?_⟩
    · rcases Table.of_mem_update hrow hmem with rfl | ⟨hmem, -⟩
      · exact absurd rfl ha
      · exact hmem
    · rw [Table.eq_of_key ha hrow haid]
      exact ⟨_, _, rfl⟩
    · intro a ha howner hstands
      rw [honly a ha howner hstands.2.1 hstands.2.2]
      rfl
  · rename_i hmissing
    split at h
    · cases h
    · rename_i hnone
      obtain ⟨accounts, hinsert, h⟩ := bind_eq_ok.1 h
      rw [create_eq_ok] at hinsert
      rw [Bool.not_eq_true, Option.isSome_eq_false_iff, Option.isNone_iff_eq_none] at hnone
      have hno : ∀ a ∈ s.accounts, a.tenant = tenant → a.provider = .metaProvider →
          a.providerAccountId = identity.providerAccountId → False := by
        intro a ha h₁ h₂ h₃
        exact Table.find?_eq_none.1 hnone a ha (by simp [h₁, h₂, h₃])
      cases h
      refine ⟨fun a ha h₁ h₂ h₃ => (hno a ha h₁ h₂ h₃).elim, Table.mem_self_insert? hinsert, rfl,
         ⟨rfl, rfl, rfl⟩, rfl, fun a ha => ⟨fun hmem => ?_, Table.mem_of_mem_insert? hinsert⟩,
        fun a ha haid => ?_, fun a ha howner hstands => (hno a ha howner hstands.2.1 hstands.2.2).elim⟩
      · rcases (Table.mem_insert? hinsert).1 hmem with hmem | rfl
        · exact hmem
        · exact absurd rfl ha
      · exact absurd haid (Table.fresh_of_insert? hinsert a ha)

/-- What the upsert of the account needs. -/
theorem upsertAccount_ok (fits : identity.fits = true) (alone : Alone tenant brand identity s)
    (fresh : ∀ a ∈ s.accounts, a.id ≠ id) :
    ∃ account s', upsertAccount now id tenant brand identity s = .ok (account, s') := by
  obtain ⟨hid, hname⟩ : _ ∧ _ := by simpa only [MetaIdentity.fits, Bool.and_eq_true] using fits
  simp only [upsertAccount, hid, hname, not_true_eq_false, or_self, if_false]
  split
  · exact ⟨_, _, rfl⟩
  · rename_i hmissing
    have hnone : findAccount tenant identity.providerAccountId s = none := by
      refine Table.find?_eq_none.2 fun a ha hfound => Table.find?_eq_none.1 hmissing a ha ?_
      obtain ⟨⟨h₁, h₂⟩, h₃⟩ : (a.tenant = tenant ∧ a.provider = .metaProvider) ∧
          a.providerAccountId = identity.providerAccountId := by simpa using hfound
      simp [h₁, h₃, alone a ha h₁ h₂ h₃]
    obtain ⟨accounts, hinsert⟩ := Table.insert?_isSome (t := s.accounts)
      (r := newSocialAccount now id tenant brand identity) fresh
    rw [hnone]
    exact ⟨_, _, bind_eq_ok.2 ⟨accounts, create_eq_ok.2 hinsert, rfl⟩⟩

end Account

/-! ### The identity -/

/-- The identifiers drawn are new, and `n + 1` of them distinct. -/
structure FreshIds (n : ℕ) (ids : ℕ → Uuid) (s : Store) : Prop where
  distinct : ∀ j ≤ n, ∀ i < j, ids i ≠ ids j
  accounts : ∀ a ∈ s.accounts, a.id ≠ ids 0
  connections : ∀ i ≤ n, ∀ c ∈ s.connections, c.id ≠ ids i

/-- The identity is connected to the brand: one account, one connection for each channel as it was
last told, and everything of other brands as it was. -/
structure Connected (env : Env) (tenant brand : Uuid) (token : MetaToken) (identity : MetaIdentity)
    (account : SocialAccount) (s s' : Store) : Prop where
  owner : account.tenant = tenant
  name : account.displayName = identity.displayName
  unique : ∀ a, a ∈ s'.accounts ∧ a.StandsFor brand identity ↔ a = account
  connection : ∀ c ∈ identity.connections,
    ∃! row, row ∈ s'.connections ∧ row.columns = c.columns account.id
  carries : ∀ before c after, identity.connections = before ++ c :: after →
    (∀ d ∈ after, d.columns account.id ≠ c.columns account.id) →
    ∀ row ∈ s'.connections, row.columns = c.columns account.id → row.Carries env token c
  otherAccounts : ∀ a : SocialAccount, a.brand ≠ brand → (a ∈ s'.accounts ↔ a ∈ s.accounts)
  otherConnections : ∀ a ∈ s'.accounts, a.brand ≠ brand → ∀ row : ChannelConnection,
    row.socialAccount = a.id → (row ∈ s'.connections ↔ row ∈ s.connections)

/-- An account but for the time of its last change. -/
def SocialAccount.untimed (a : SocialAccount) : SocialAccount := { a with updatedAt := 0 }

/-- What a connection holds but for the time of its last change: its columns, and what its token
reads as. -/
def ChannelConnection.legible (env : Env) (c : ChannelConnection) :
    ChannelConnection × Except String String :=
  ({ c with updatedAt := 0, encryptedAccessToken := "" }, decryptToken env c.encryptedAccessToken)

/-- The same accounts and connections, but for the times of their last changes and for how their
tokens are encrypted. -/
def SameConnections (env : Env) (s s' : Store) : Prop :=
  s'.accounts.view SocialAccount.untimed = s.accounts.view SocialAccount.untimed ∧
    s'.connections.view (·.legible env) = s.connections.view (·.legible env)

section Identity

variable {env : Env} {now : Time} {ids : ℕ → Uuid} {ciphers : ℕ → FernetDraw} {tenant brand : Uuid} {subject : String}
  {token : MetaToken} {identity : MetaIdentity} {s s' : Store} {account : SocialAccount}

/-- The parts of a call of `persist_meta_connections` that returns. -/
structure Persisted (env : Env) (tenant brand : Uuid) (token : MetaToken) (identity : MetaIdentity)
    (account : SocialAccount) (s s' : Store) : Prop where
  fits : identity.fits = true
  alone : Alone tenant brand identity s
  encryption : identity.connections ≠ [] → env.fernet.accepts env.tokenEncryptionKey = true
  columns : ∀ c ∈ identity.connections, c.fits = true
  upserted : AccountUpserted tenant brand identity account s.accounts s'.accounts
  connections : Writes (MetaConnection.columns account.id) (Upserted env account.id token)
    identity.connections (s.connections.select ChannelConnection.columns)
    (s'.connections.select ChannelConnection.columns)

theorem persistMetaConnections_persisted
    (h : persistMetaConnections env now ids ciphers tenant brand subject token identity s =
      .ok (account, s')) (hs : Constrained s) :
    Persisted env tenant brand token identity account s s' := by
  obtain ⟨⟨a, t⟩, ht, h⟩ := bind_eq_ok.1 h
  obtain ⟨u, hu, h⟩ := bind_eq_ok.1 h
  cases h
  obtain ⟨hfits, halone, haccount⟩ := upsertAccount_upserted hs ht
  obtain ⟨hencryption, hcolumns⟩ := of_upsertConnections hu
  have hwrites := upsertConnections_writes hu (upsertAccount_constrained ht hs)
  obtain ⟨accounts, rfl, -⟩ := upsertAccount_saved ht
  obtain ⟨connections, rfl, -⟩ := upsertConnections_saved hu
  exact ⟨hfits, halone, hencryption, hcolumns, haccount, hwrites⟩

/-- What `persist_meta_connections` needs. -/
structure Connectable (env : Env) (tenant brand : Uuid) (identity : MetaIdentity) (s : Store) :
    Prop where
  alone : Alone tenant brand identity s
  encryption : identity.connections ≠ [] → env.fernet.accepts env.tokenEncryptionKey = true
  account : identity.fits = true
  connections : ∀ c ∈ identity.connections, c.fits = true

theorem persistMetaConnections_ok (h : Connectable env tenant brand identity s)
    (fresh : FreshIds identity.connections.length ids s) :
    ∃ account s', persistMetaConnections env now ids ciphers tenant brand subject token identity s =
      .ok (account, s') := by
  obtain ⟨account, t, ht⟩ : ∃ account t, upsertAccount now (ids 0) tenant brand identity s =
      .ok (account, t) := upsertAccount_ok h.account h.alone fresh.accounts
  obtain ⟨accounts, rfl, -⟩ := upsertAccount_saved ht
  obtain ⟨u, hu⟩ : ∃ u, upsertConnections env now account.id token (fun n => ids (n + 1)) ciphers
      identity.connections { s with accounts } = .ok u := by
    refine upsertConnections_ok h.encryption h.connections (fun j hj i hi => ?_) fun i hi => ?_
    · exact fresh.distinct (j + 1) hj (i + 1) (Nat.succ_lt_succ hi)
    · exact fresh.connections (i + 1) hi
  exact ⟨_, _, bind_eq_ok.2 ⟨_, ht, bind_eq_ok.2 ⟨_, hu, rfl⟩⟩⟩

theorem Persisted.connectable (h : Persisted env tenant brand token identity account s s') :
    Connectable env tenant brand identity s := ⟨h.alone, h.encryption, h.fits, h.columns⟩

/-- What a call that returns has done. -/
theorem Persisted.connected (h : Persisted env tenant brand token identity account s s')
    (hs : Constrained s) (hs' : Constrained s')
    (owned : ∀ a ∈ s.accounts, Provisioned s a.tenant a.brand) (provisioned : Provisioned s tenant brand) :
    Connected env tenant brand token identity account s s' := by
  have honly : ∀ a ∈ s'.accounts, a.id = account.id → a = account := fun a ha hid =>
    Table.eq_of_key ha h.upserted.mem hid
  have hbrand : ∀ a ∈ s'.accounts, a.brand ≠ brand → a.id ≠ account.id := by
    intro a ha hother hid
    rw [honly a ha hid] at hother
    exact hother h.upserted.stands.1
  refine
    { owner := h.upserted.owner
      name := h.upserted.name
      unique := fun a => ⟨fun h => ?_, ?_⟩
      connection := fun c hc => ?_
      carries := fun before c after hlist hlast row hrow hcolumns => ?_
      otherAccounts := fun a hother => ⟨fun ha => ?_, fun ha => ?_⟩
      otherConnections := fun a ha hother row hrow => ?_ }
  · obtain ⟨ha, hstands⟩ := h
    by_cases hid : a.id = account.id
    · exact honly a ha hid
    · -- an older account of the brand belongs to its workspace, and was found
      have hold : a ∈ s.accounts := (h.upserted.others a hid).1 ha
      have htenant : a.tenant = tenant := by
        obtain ⟨b, hb, hbid, hworkspace⟩ := owned a hold
        obtain ⟨b', hb', hbid', hworkspace'⟩ := provisioned
        rw [← hworkspace, ← hworkspace',
          Table.eq_of_key hb hb' (hbid.trans (hstands.1.trans hbid'.symm))]
      exact absurd (h.upserted.found a hold htenant hstands) hid
  · rintro rfl
    exact ⟨h.upserted.mem, h.upserted.stands⟩
  · obtain ⟨before, d, after, hlist, hd, hlast⟩ : ∃ before d after,
        identity.connections = before ++ d :: after ∧ d.columns account.id = c.columns account.id ∧
          ∀ e ∈ after, e.columns account.id ≠ c.columns account.id := exists_last ⟨c, hc, rfl⟩
    obtain ⟨old, row, hrow, hselect⟩ := h.connections.last hlist (fun k hk => by rw [hd]; exact hlast k hk)
    rw [hd] at hselect
    refine ⟨row, hs'.columns.select_eq_some.1 hselect, fun x hx => ?_⟩
    exact Option.some.inj ((hs'.columns.select_eq_some.2 hx).symm.trans hselect)
  · obtain ⟨old, row', hrow', hselect⟩ := h.connections.last hlist hlast
    obtain rfl : row = row' :=
      Option.some.inj ((hs'.columns.select_eq_some.2 ⟨hrow, hcolumns⟩).symm.trans hselect)
    exact hrow'.carries
  · exact (h.upserted.others a (hbrand a ha hother)).1 ha
  · refine (h.upserted.others a fun hid => ?_).2 ha
    obtain ⟨_, _, hbecomes⟩ := h.upserted.lives a ha hid
    have hsame : account.brand = a.brand := by rw [hbecomes]
    exact hother (hsame.symm.trans h.upserted.stands.1)
  · have helsewhere : ∀ c ∈ identity.connections, c.columns account.id ≠ row.columns := by
      intro c _ hcolumns
      exact hbrand a ha hother (hrow.symm.trans (congrArg Prod.fst hcolumns).symm)
    rw [hs'.columns.mem_iff_select, h.connections.other helsewhere, hs.columns.mem_iff_select]

/-- A row that carries a token reads as it. -/
theorem ChannelConnection.Carries.decrypts (deciphers : env.Deciphers) {c : MetaConnection}
    {row : ChannelConnection} (h : row.Carries env token c) :
    decryptToken env row.encryptedAccessToken = .ok c.accessToken := by
  obtain ⟨draw, hencrypted⟩ := h.accessToken
  exact decryptToken_of_encrypted deciphers hencrypted

/-- A row that carries the same as before holds the same. -/
theorem legible_of_carries (deciphers : env.Deciphers) {c : MetaConnection}
    {row row' : ChannelConnection} (hrow : row.Carries env token c) (hrow' : row'.Carries env token c)
    (h : row.Becomes row') : row'.legible env = row.legible env := by
  have htoken := (hrow'.decrypts deciphers).trans (hrow.decrypts deciphers).symm
  obtain ⟨_, _, _, _, _, _, rfl⟩ := h
  have hcolumns := hrow'.displayName.trans hrow.displayName.symm
  have hexpiry := hrow'.expiry.trans hrow.expiry.symm
  have hscopes := hrow'.scopes.trans hrow.scopes.symm
  have hactive := hrow'.active.trans hrow.active.symm
  dsimp only at hcolumns hexpiry hscopes hactive
  simp only [ChannelConnection.legible, htoken, hcolumns, hexpiry, hscopes, hactive]

/-- The same call once more changes the times, and encrypts the tokens anew. -/
theorem Persisted.again (deciphers : env.Deciphers) {s'' : Store} {account' : SocialAccount}
    (h : Persisted env tenant brand token identity account s s')
    (h' : Persisted env tenant brand token identity account' s' s'')
    (hs' : Constrained s') (hs'' : Constrained s'') : SameConnections env s' s'' := by
  have hid : account.id = account'.id :=
    h'.upserted.found account h.upserted.mem h.upserted.owner h.upserted.stands
  refine ⟨funext fun k => ?_, hs''.columns.view_eq hs'.columns ?_ fun k => ?_⟩
  · by_cases hk : k = account.id
    · obtain ⟨_, _, hbecomes⟩ := h'.upserted.lives account h.upserted.mem hid
      have hsame : account'.untimed = account.untimed := by
        have hname := h'.upserted.name.trans h.upserted.name.symm
        rw [hbecomes] at hname ⊢
        simp only at hname
        rw [hname]
        rfl
      have hview' : s''.accounts.view SocialAccount.untimed account'.id = some account'.untimed :=
        Table.view_key h'.upserted.mem
      have hview : s'.accounts.view SocialAccount.untimed account.id = some account.untimed :=
        Table.view_key h.upserted.mem
      rw [hk, hview, hid, hview', hsame]
    · have hget : s''.accounts.get? k = s'.accounts.get? k := by
        refine Option.ext fun a => ?_
        rw [Table.get?_eq_some, Table.get?_eq_some]
        refine and_congr_left fun hak => h'.upserted.others a fun ha => hk ?_
        exact hak.symm.trans (ha.trans hid.symm)
      simp only [Table.view, hget]
  · intro x y hxy
    have hids : (x.legible env).1.id = (y.legible env).1.id := by rw [hxy]
    exact hids
  · by_cases hk : ∃ c ∈ identity.connections, c.columns account.id = k
    · obtain ⟨before, c, after, hlist, rfl, hlast⟩ := exists_last hk
      obtain ⟨_, row, hrow, hselect⟩ := h.connections.last hlist hlast
      obtain ⟨row', hselect', hbecomes⟩ :=
        h'.connections.lives ChannelConnection.Becomes.refl ChannelConnection.Becomes.trans
          (fun hW => hW.lives _ rfl) hselect
      obtain ⟨_, row'', hrow'', hselect''⟩ := h'.connections.last hlist (hid ▸ hlast)
      rw [← hid, hselect'] at hselect''
      cases hselect''
      rw [hselect, hselect', Option.map_some, Option.map_some,
        legible_of_carries deciphers hrow.carries hrow''.carries hbecomes]
    · rw [h'.connections.other fun c hc hck => hk ⟨c, hc, by rw [hid]; exact hck⟩]

end Identity

/-- The identity gets connected to the brand, and the same call once more, with other draws, leaves
the same accounts and connections. -/
def Connects (env : Env) (now : Time) (ids : ℕ → Uuid) (ciphers : ℕ → FernetDraw) (tenant brand : Uuid)
    (subject : String) (token : MetaToken) (identity : MetaIdentity) (s : Store) : Prop :=
  ∃ account s', persistMetaConnections env now ids ciphers tenant brand subject token identity s =
      .ok (account, s') ∧ Connected env tenant brand token identity account s s' ∧
    ∀ now' ids' ciphers', FreshIds identity.connections.length ids' s' → ∃ account' s'',
      persistMetaConnections env now' ids' ciphers' tenant brand subject token identity s' =
        .ok (account', s'') ∧ SameConnections env s' s''

section Decide

variable {env : Env} {tenant brand : Uuid} {identity : MetaIdentity} {ids : ℕ → Uuid} {n : ℕ} {s : Store}

instance : Decidable (Provisioned s tenant brand) :=
  inferInstanceAs (Decidable (∃ b ∈ s.brands.rows, b.id = brand ∧ b.workspace = tenant))

instance : Decidable (Alone tenant brand identity s) :=
  inferInstanceAs (Decidable (∀ a ∈ s.accounts.rows, a.tenant = tenant → a.provider = .metaProvider →
    a.providerAccountId = identity.providerAccountId → a.brand = brand))

instance : Decidable (Connectable env tenant brand identity s) :=
  decidable_of_iff
    (Alone tenant brand identity s ∧
      (identity.connections ≠ [] → env.fernet.accepts env.tokenEncryptionKey = true) ∧
      identity.fits = true ∧ ∀ c ∈ identity.connections, c.fits = true)
    ⟨fun h => ⟨h.1, h.2.1, h.2.2.1, h.2.2.2⟩,
      fun h => ⟨h.alone, h.encryption, h.account, h.connections⟩⟩

instance : Decidable (FreshIds n ids s) :=
  decidable_of_iff
    ((∀ j ≤ n, ∀ i < j, ids i ≠ ids j) ∧ (∀ a ∈ s.accounts.rows, a.id ≠ ids 0) ∧
      ∀ i ≤ n, ∀ c ∈ s.connections.rows, c.id ≠ ids i)
    ⟨fun h => ⟨h.1, h.2.1, h.2.2⟩, fun h => ⟨h.distinct, h.accounts, h.connections⟩⟩

end Decide

namespace Sample

/-- A second brand of the workspace. -/
def otherBrand : Uuid := .ofNat 5

/-- The workspace with both brands. -/
def brands : Table Brand :=
  ((Table.empty.insert? (⟨brand, workspace, "Brand", "UTC", true⟩ : Brand)).bind fun t =>
    t.insert? ⟨otherBrand, workspace, "Other", "UTC", true⟩).getD ∅

/-- No content, no account, two brands. -/
def twoBrands : Sys :=
  { start with store := { start.store with brands } }

theorem twoBrands_isStart : (relay env none).start twoBrands := ⟨_, _, _, _, rfl⟩

/-- The account that `connecting` connects to the first brand, with one page told twice. -/
def identity : MetaIdentity :=
  ⟨"1", "Me", [⟨.metaFacebookPage, "page", "Page", "old"⟩, ⟨.metaFacebookPage, "page", "Page", "new"⟩]⟩

/-- After the account is connected to the first brand: the first brand can be connected once more,
but the second cannot. -/
theorem connected_once : ∃ s : Sys, Reachable (relay env none) s ∧
    FreshIds identity.connections.length (fun k => .ofNat (60 + k)) s.store ∧
    Provisioned s.store workspace brand ∧ Connectable env workspace brand identity s.store ∧
    Provisioned s.store workspace otherBrand ∧ ¬ Alone workspace otherBrand identity s.store := by
  obtain ⟨es, s, tr, hs⟩ := exists_of_execute
    (show ((execute env none (connecting .metaFacebookPage) twoBrands).any fun x => decide
      (FreshIds identity.connections.length (fun k => .ofNat (60 + k)) x.2.store ∧
        Provisioned x.2.store workspace brand ∧ Connectable env workspace brand identity x.2.store ∧
        Provisioned x.2.store workspace otherBrand ∧
        ¬ Alone workspace otherBrand identity x.2.store)) = true by decide +kernel)
  exact ⟨s, (Reachable.of_start twoBrands_isStart).trail tr, of_decide_eq_true hs⟩

end Sample

end Relay
