import Relay.Evolution

/-!
# Unique constraints

The second keys that the database keeps unique: idempotency keys, digests, accounts and channels.

* `Constrained`: the constraints hold;
* `runCommand_constrained`: every service keeps them;
* `constrained_of_reachable`: they hold in every state of the system.
-/

namespace Relay

open Relational Transition

/-- The unique constraints of the models. -/
structure Constrained (s : Store) : Prop where
  posts : s.posts.Unique fun p => (p.tenant, p.idempotencyKey)
  accounts : s.accounts.Unique fun a => (a.tenant, a.provider, a.providerAccountId)
  connections : s.connections.Unique fun c => (c.socialAccount, c.channel, c.providerChannelId)
  oauthStates : s.oauthStates.Unique (·.stateDigest)
  publications : s.publications.Unique fun p => (p.tenant, p.idempotencyKey)
  approvals : s.approvals.Unique (·.tokenDigest)

theorem Constrained.provisioned (tenants : Table Tenant) (brands : Table Brand)
    (memberships : Table Membership) : Constrained (.provisioned tenants brands memberships) where
  posts := .empty
  accounts := .empty
  connections := .empty
  oauthStates := .empty
  publications := .empty
  approvals := .empty

section Services

variable {env : Env} {s s' : Store}

/-- The post of a key. -/
theorem Constrained.findPost (h : Constrained s) {p : Post} (hp : p ∈ s.posts) :
    findPost p.tenant p.idempotencyKey s = some p :=
  h.posts.find? (fun x => by simp) hp

/-- The publication of a key. -/
theorem findPublication_of_unique (h : s.publications.Unique fun p => (p.tenant, p.idempotencyKey))
    {p : Publication} (hp : p ∈ s.publications) :
    findPublication p.tenant p.idempotencyKey s = some p :=
  h.find? (fun x => by simp) hp

theorem upsertAccount_constrained {now : Time} {id tenant brand : Uuid} {identity : MetaIdentity}
    {account : SocialAccount} (h : upsertAccount now id tenant brand identity s = .ok (account, s'))
    (hs : Constrained s) : Constrained s' := by
  unfold upsertAccount at h
  split at h
  · cases h
  split at h
  · cases h
    exact { hs with accounts := hs.accounts.update fun _ => rfl }
  · split at h
    · cases h
    · rename_i hnone
      obtain ⟨accounts, hins, h⟩ := bind_eq_ok.1 h
      cases h
      refine { hs with accounts := hs.accounts.insert (create_eq_ok.1 hins) fun x hx heq => ?_ }
      rw [Bool.not_eq_true, Option.isSome_eq_false_iff, Option.isNone_iff_eq_none] at hnone
      exact Table.find?_eq_none.1 hnone x hx (by simpa [newSocialAccount] using heq)

theorem upsertConnection_constrained {now : Time} {id account : Uuid} {draw : FernetDraw}
    {token : MetaToken} {c : MetaConnection}
    (h : upsertConnection env now id draw account token c s = .ok s') (hs : Constrained s) :
    Constrained s' := by
  unfold upsertConnection at h
  split at h
  · cases h
  split at h
  · cases h
  split at h
  · cases h
    exact { hs with connections := hs.connections.update fun _ => rfl }
  · rename_i hnone
    obtain ⟨connections, hins, h⟩ := bind_eq_ok.1 h
    cases h
    refine { hs with connections := hs.connections.insert (create_eq_ok.1 hins) fun x hx heq => ?_ }
    exact Table.find?_eq_none.1 hnone x hx (by simpa [newChannelConnection, and_assoc] using heq)

theorem upsertConnections_constrained {now : Time} {account : Uuid} {token : MetaToken}
    {ids : ℕ → Uuid} {ciphers : ℕ → FernetDraw} {cs : List MetaConnection}
    (h : upsertConnections env now account token ids ciphers cs s = .ok s') (hs : Constrained s) :
    Constrained s' := by
  induction cs generalizing s ids ciphers with
  | nil => cases h; exact hs
  | cons c cs ih =>
    obtain ⟨t, ht, h⟩ := bind_eq_ok.1 h
    exact ih h (upsertConnection_constrained ht hs)

theorem persistMetaConnections_constrained {now : Time} {ids : ℕ → Uuid} {ciphers : ℕ → FernetDraw}
    {tenant brand : Uuid} {subject : String} {token : MetaToken} {identity : MetaIdentity}
    {account : SocialAccount}
    (h : persistMetaConnections env now ids ciphers tenant brand subject token identity s =
      .ok (account, s')) (hs : Constrained s) : Constrained s' := by
  obtain ⟨⟨a, t⟩, haccount, hrest⟩ := bind_eq_ok.1 h
  obtain ⟨u, hconnections, hlog⟩ := bind_eq_ok.1 hrest
  cases hlog
  exact { upsertConnections_constrained hconnections (upsertAccount_constrained haccount hs) with }

/-- **Every service keeps the constraints.** -/
theorem runCommand_constrained {w : World} {c : Command} {r : Reply}
    (h : runCommand env w c s = .ok (r, s')) (hs : Constrained s) : Constrained s' := by
  cases c with
  | persistMetaConnections tenant brand subject token identity =>
    obtain ⟨account, hcall, rfl⟩ := reply_eq_ok.1 h
    exact persistMetaConnections_constrained hcall hs
  | startMetaOAuth tenant brand subject =>
    obtain ⟨url, hcall, rfl⟩ := reply_eq_ok.1 h
    obtain ⟨oauthStates, hins, hcall⟩ := bind_eq_ok.1 hcall
    split at hcall
    · cases hcall
    unfold createOAuthRow at hins
    split at hins
    · cases hins
    · rename_i hnone
      cases hcall
      refine { hs with oauthStates := hs.oauthStates.insert (create_eq_ok.1 hins) fun x hx heq => ?_ }
      rw [Bool.not_eq_true, Option.isSome_eq_false_iff, Option.isNone_iff_eq_none] at hnone
      exact Table.find?_eq_none.1 hnone x hx (by simpa using heq)
  | createMediaUploadIntent => cases runCommand_effect h; exact { hs with }
  | confirmMediaUpload => cases runCommand_effect h <;> exact { hs with }
  | createPostDraft =>
    cases runCommand_effect h with
    | draftReplayed => exact hs
    | drafted unused insert =>
      refine { hs with posts := hs.posts.insert insert fun x hx heq => ?_ }
      exact Table.find?_eq_none.1 unused x hx (by simpa [newPost] using heq)
  | approvePost =>
    cases runCommand_effect h with
    | alreadyApproved => exact hs
    | approved => exact { hs with posts := hs.posts.update fun _ => rfl }
  | requestApproval =>
    cases runCommand_effect h with
    | approvalRequested _ _ _ _ request_eq unused insert =>
      refine { hs with posts := ?_, approvals := hs.approvals.insert insert fun x hx heq => ?_ }
      · dsimp only [Store.log]
        split
        · exact hs.posts
        · exact hs.posts.update fun _ => rfl
      · rw [request_eq] at heq
        exact Table.find?_eq_none.1 unused x hx (by simpa [newApprovalRequest] using heq)
  | decideApproval =>
    cases runCommand_effect h
    exact { hs with
      posts := hs.posts.update fun _ => rfl, approvals := hs.approvals.update fun _ => rfl }
  | revokeApproval =>
    cases runCommand_effect h
    exact { hs with approvals := hs.approvals.update fun _ => rfl }
  | schedulePublication =>
    cases runCommand_effect h with
    | publicationReplayed => exact hs
    | scheduled unused _ insert =>
      refine { hs with publications := hs.publications.insert insert fun x hx heq => ?_ }
      exact Table.find?_eq_none.1 unused x hx (by simpa [newPublication] using heq)
  | consumeOAuthState =>
    cases runCommand_effect h
    exact { hs with oauthStates := hs.oauthStates.update fun _ => rfl }

theorem Claimed.constrained {started now : Time} {attempt : Uuid} {claim : Claim}
    (h : Claimed started now attempt claim s s') (hs : Constrained s) : Constrained s' := by
  cases h
  exact { hs with publications := hs.publications.update fun _ => rfl }

theorem Finished.constrained {now : Time} {claim : Claim} {result : Except DeliveryError String}
    {answer : String} (h : Finished env now claim result answer s s') (hs : Constrained s) :
    Constrained s' := by
  cases h <;> exact { hs with publications := hs.publications.update fun _ => rfl }

/-- The keys of publications stay unique, whatever the other tables hold. -/
theorem StoreStep.publicationKeys {A : Store → Command → Prop} (h : StoreStep env A s s')
    (hs : s.publications.Unique fun p => (p.tenant, p.idempotencyKey)) :
    s'.publications.Unique fun p => (p.tenant, p.idempotencyKey) := by
  cases h with
  | command _ effect =>
    cases effect with
    | scheduled unused _ insert =>
      refine hs.insert insert fun x hx heq => ?_
      exact Table.find?_eq_none.1 unused x hx (by simpa [newPublication] using heq)
    | _ => exact hs
  | claimed claimed =>
    cases claimed
    exact hs.update fun _ => rfl
  | finished finished => cases finished <;> exact hs.update fun _ => rfl

end Services

section System

variable {env : Env} {publisher : Option Publisher} {s s' : Sys} {l : Label} {o : Output}

theorem next_constrained (h : next env publisher s l = some (s', o)) (hs : Constrained s.store) :
    Constrained s'.store := by
  rcases next_store h with hsame | ⟨w, c, r, -, hrun⟩ | ⟨_, _, _, hclaimed⟩ | ⟨_, _, _, hfinished⟩
  · exact hsame ▸ hs
  · exact runCommand_constrained hrun hs
  · exact hclaimed.constrained hs
  · exact hfinished.constrained hs

/-- **The constraints hold in every state of the system.** -/
theorem constrained_of_reachable (h : Reachable (relay env publisher) s) : Constrained s.store := by
  refine h.invariant (I := fun s => Constrained s.store) ?_ fun _ _ _ hs hstep =>
    next_constrained hstep hs
  rintro _ ⟨tenants, brands, memberships, clock, rfl⟩
  exact .provisioned tenants brands memberships

end System

end Relay
