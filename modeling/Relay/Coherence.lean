import Relay.Access
import Relay.Execution

/-!
# Workspaces and brands fit together

No foreign key ties the tenant of a row to the workspace of its brand, or a publication to the
brand of its post and of its channel; the views and services do.

* `Coherent`: what they keep of a store, `Coherent.step`;
* `Sound`: what has been checked for a command that waits for its transaction, and still holds
  when the transaction comes, `Sound.mono`;
* `coherence`: every state of the system is coherent.
-/

namespace Relay

open Relational Sequence Transition

/-! ### Coherent stores -/

/-- The images of a variant: ready assets of the tenant and the brand of its post. -/
structure CoherentVariant (s : Store) (v : PostVariant) (p : Post) : Prop where
  post : p ∈ s.posts ∧ p.id = v.post
  nodup : v.mediaAssets.Nodup
  ready : ∀ id ∈ v.mediaAssets, ∃ a ∈ s.assets, a.id = id ∧ a.uploadState = .ready ∧
    a.tenant = p.tenant ∧ a.brand = p.brand

/-- The content and the channel of a publication. -/
structure CoherentPublication (s : Store) (q : Publication) (v : PostVariant) (p : Post)
    (c : ChannelConnection) (a : SocialAccount) : Prop where
  variant : v ∈ s.variants ∧ v.id = q.postVariant
  post : p ∈ s.posts ∧ p.id = v.post
  connection : c ∈ s.connections ∧ c.id = q.channelConnection
  account : a ∈ s.accounts ∧ a.id = c.socialAccount
  postOwner : p.tenant = q.tenant ∧ p.brand = q.brand
  accountOwner : a.tenant = q.tenant ∧ a.brand = q.brand
  approved : p.state = .approved
  images : 1 ≤ v.mediaAssets.length ∧ v.mediaAssets.length ≤ 10

/-- How the rows of a store fit together. -/
structure Coherent (s : Store) : Prop where
  posts : ∀ p ∈ s.posts, Provisioned s p.tenant p.brand
  assets : ∀ a ∈ s.assets, Provisioned s a.tenant a.brand
  accounts : ∀ a ∈ s.accounts, Provisioned s a.tenant a.brand
  oauthStates : ∀ o ∈ s.oauthStates, Provisioned s o.tenant o.brand
  publications : ∀ q ∈ s.publications, Provisioned s q.tenant q.brand
  approvals : ∀ r ∈ s.approvals, ∃ p ∈ s.posts, p.id = r.post ∧ r.brand = p.brand
  variants : ∀ v ∈ s.variants, ∃ p, CoherentVariant s v p
  connections : ∀ c ∈ s.connections, ∃ a ∈ s.accounts, a.id = c.socialAccount
  deliveries : ∀ q ∈ s.publications, ∃ v p c a, CoherentPublication s q v p c a

/-- Content and channel of a publication stay what they are. -/
theorem CoherentVariant.mono {s s' : Store} (h : Evolves s s') {v : PostVariant} {p : Post}
    (k : CoherentVariant s v p) : ∃ p', CoherentVariant s' v p' := by
  obtain ⟨p', hp', hbecomes⟩ := h.posts p k.post.1
  obtain ⟨_, _, rfl, -⟩ := hbecomes
  refine ⟨_, ⟨hp', k.post.2⟩, k.nodup, fun id hid => ?_⟩
  obtain ⟨a, ha, hid, hready, howner⟩ := k.ready id hid
  obtain ⟨a', ha', hbecomes⟩ := h.assets a ha
  obtain ⟨_, _, rfl, hstays⟩ := hbecomes
  exact ⟨_, ha', hid, hstays hready, howner⟩

theorem CoherentPublication.mono {s s' : Store} (h : Evolves s s') {q q' : Publication}
    {v : PostVariant} {p : Post} {c : ChannelConnection} {a : SocialAccount}
    (k : CoherentPublication s q v p c a) (hq : q.Becomes q') :
    ∃ v p c a, CoherentPublication s' q' v p c a := by
  obtain ⟨_, _, _, _, _, _, rfl⟩ := hq
  obtain ⟨_, hv, rfl⟩ := h.variants v k.variant.1
  obtain ⟨_, hp, hpost⟩ := h.posts p k.post.1
  obtain ⟨_, hc, hconnection⟩ := h.connections c k.connection.1
  obtain ⟨_, ha, haccount⟩ := h.accounts a k.account.1
  obtain ⟨_, _, rfl, hstays⟩ := hpost
  obtain ⟨_, _, _, _, _, _, rfl⟩ := hconnection
  obtain ⟨_, _, rfl⟩ := haccount
  exact ⟨_, _, _, _, ⟨hv, k.variant.2⟩, ⟨hp, k.post.2⟩, ⟨hc, k.connection.2⟩, ⟨ha, k.account.2⟩,
    k.postOwner, k.accountOwner, hstays k.approved, k.images⟩

/-! ### Commands that wait -/

/-- The rows a scheduling call has loaded live on. -/
structure Remembered (s : Store) (call : ScheduleCall) : Prop where
  postVariant : call.postVariant ∈ s.variants
  post : ∃ p ∈ s.posts, call.post.Becomes p
  postOf : call.post.id = call.postVariant.post
  channelConnection : ∃ c ∈ s.connections, call.channelConnection.Becomes c
  socialAccount : ∃ a ∈ s.accounts, call.socialAccount.Becomes a
  accountOf : call.socialAccount.id = call.channelConnection.socialAccount

/-- What has been checked for a command and holds until its transaction. -/
def Sound (s : Store) : Command → Prop
  | .createMediaUploadIntent tenant brand _ _ => Provisioned s tenant brand
  | .createPostDraft tenant brand _ _ payload =>
    Provisioned s tenant brand ∧ brand = payload.brandId
  | .schedulePublication call => Provisioned s call.tenant call.brand ∧ Remembered s call
  | .startMetaOAuth tenant brand _ => Provisioned s tenant brand
  | .persistMetaConnections tenant brand _ _ _ => Provisioned s tenant brand
  | _ => True

theorem Remembered.mono {s s' : Store} (h : Evolves s s') {call : ScheduleCall}
    (k : Remembered s call) : Remembered s' call where
  postVariant := by
    obtain ⟨_, hv, rfl⟩ := h.variants _ k.postVariant
    exact hv
  post := by
    obtain ⟨p, hp, hbecomes⟩ := k.post
    obtain ⟨p', hp', hbecomes'⟩ := h.posts p hp
    exact ⟨p', hp', hbecomes.trans hbecomes'⟩
  postOf := k.postOf
  channelConnection := by
    obtain ⟨c, hc, hbecomes⟩ := k.channelConnection
    obtain ⟨c', hc', hbecomes'⟩ := h.connections c hc
    exact ⟨c', hc', hbecomes.trans hbecomes'⟩
  socialAccount := by
    obtain ⟨a, ha, hbecomes⟩ := k.socialAccount
    obtain ⟨a', ha', hbecomes'⟩ := h.accounts a ha
    exact ⟨a', ha', hbecomes.trans hbecomes'⟩
  accountOf := k.accountOf

theorem Sound.mono {s s' : Store} (h : Evolves s s') {c : Command} (k : Sound s c) : Sound s' c := by
  cases c with
  | schedulePublication call => exact ⟨k.1.mono h, k.2.mono h⟩
  | createPostDraft => exact ⟨k.1.mono h, k.2⟩
  | createMediaUploadIntent | startMetaOAuth | persistMetaConnections =>
    exact Provisioned.mono h k
  | _ => trivial

/-- What a view admits is sound. -/
theorem Admitted.sound {p : RelayPrincipal} {s : Store} {c : Command} (h : Admitted p s c) :
    Sound s c := by
  cases h with
  | createMediaUploadIntent covers => exact covers.provisioned
  | createPostDraft covers => exact ⟨covers.provisioned, rfl⟩
  | startMetaOAuth covers => exact covers.provisioned
  | schedulePublication loaded covers =>
    exact ⟨covers.provisioned, loaded.postVariant, ⟨_, loaded.post, .refl _⟩, loaded.postOf,
      ⟨_, loaded.channelConnection, .refl _⟩, ⟨_, loaded.socialAccount, .refl _⟩, loaded.accountOf⟩
  | _ => trivial

/-! ### One commit -/

/-- The checks of a scheduling call. -/
theorem checkSchedule_eq_ok {call : ScheduleCall} {s : Store} (h : checkSchedule call s = .ok ()) :
    (call.post.tenant = call.tenant ∧ call.post.brand = call.brand) ∧
      (call.socialAccount.tenant = call.tenant ∧ call.socialAccount.brand = call.brand) ∧
      call.post.state = .approved ∧ 1 ≤ (attachedAssets s call.postVariant.id).length ∧
      (attachedAssets s call.postVariant.id).length ≤ 10 := by
  unfold checkSchedule at h
  dsimp only at h
  split at h
  · cases h
  rename_i hpost
  split at h
  · cases h
  rename_i haccount
  split at h
  · cases h
  rename_i hstate
  split at h
  · cases h
  rename_i hmedia
  simp only [not_or, not_not] at hpost haccount hstate hmedia
  exact ⟨hpost, ⟨haccount.1, haccount.2.1⟩, hstate, hmedia.1⟩

/-- The assets attached to a variant of the store. -/
theorem attachedAssets_eq {s : Store} {v : PostVariant} (hv : v ∈ s.variants) :
    attachedAssets s v.id = s.assets.where fun a => decide (a.id ∈ v.mediaAssets) := by
  have hget : s.variants.get? v.id = some v := Table.get?_key hv
  unfold attachedAssets
  rw [hget]

/-- The assets of a variant are as many as its identifiers. -/
theorem CoherentVariant.length_attached {s : Store} {v : PostVariant} {p : Post}
    (h : CoherentVariant s v p) (hv : v ∈ s.variants) :
    (attachedAssets s v.id).length = v.mediaAssets.length := by
  have hnodup : ((attachedAssets s v.id).map (·.id)).Nodup := by
    rw [attachedAssets_eq hv]
    exact s.assets.nodup.sublist (List.filter_sublist.map _)
  have hids : ((attachedAssets s v.id).map (·.id)).Perm v.mediaAssets := by
    rw [List.perm_ext_iff_of_nodup hnodup h.nodup, attachedAssets_eq hv]
    intro id
    rw [List.mem_map]
    constructor
    · rintro ⟨a, ha, rfl⟩
      simpa using (Table.mem_where.1 ha).2
    · intro hid
      obtain ⟨a, ha, rfl, -⟩ := h.ready id hid
      exact ⟨a, Table.mem_where.2 ⟨ha, by simpa using hid⟩, rfl⟩
  simpa using hids.length_eq

/-- A publication that is scheduled from rows that live on is coherent. -/
theorem Coherent.scheduled {s s' : Store} (h : Coherent s) (hs : Evolves s s') {env : Env}
    {now : Time} {id : Uuid} {call : ScheduleCall} (hcall : Remembered s call)
    (hchecked : checkSchedule call s = .ok ()) :
    ∃ v p c a, CoherentPublication s' (newPublication env now id call) v p c a := by
  obtain ⟨hpost, haccount, happroved, hmin, hmax⟩ := checkSchedule_eq_ok hchecked
  obtain ⟨p, hp, _, _, rfl, hstays⟩ := hcall.post
  obtain ⟨c, hc, _, _, _, _, _, _, rfl⟩ := hcall.channelConnection
  obtain ⟨a, ha, _, _, rfl⟩ := hcall.socialAccount
  obtain ⟨p', hvariant⟩ := h.variants _ hcall.postVariant
  rw [hvariant.length_attached hcall.postVariant] at hmin hmax
  have hcoherent : CoherentPublication s (newPublication env now id call) call.postVariant _ _ _ :=
    ⟨⟨hcall.postVariant, rfl⟩, ⟨hp, hcall.postOf⟩, ⟨hc, rfl⟩, ⟨ha, hcall.accountOf⟩, hpost, haccount,
      hstays happroved, hmin, hmax⟩
  exact hcoherent.mono hs (.refl _)

/-- **Every commit keeps the store coherent, when the commands are sound.** -/
theorem Coherent.step {env : Env} {A : Store → Command → Prop} {s s' : Store} (h : Coherent s)
    (hA : ∀ c, A s c → Sound s c) (hstep : StoreStep env A s s') : Coherent s' where
  posts p' hp' := by
    rcases hstep.post_origin hp' with ⟨p, hp, _, _, rfl, -⟩ | ⟨_, _, _, _, _, _, _, hadmitted, rfl⟩
    · exact (h.posts p hp).mono hstep.evolves
    · exact Provisioned.mono hstep.evolves (hA _ hadmitted).1
  assets a' ha' := by
    rcases hstep.asset_origin ha' with ⟨a, ha, _, _, rfl, -⟩ | ⟨_, _, _, _, _, _, hadmitted, rfl⟩
    · exact (h.assets a ha).mono hstep.evolves
    · exact Provisioned.mono hstep.evolves (hA _ hadmitted)
  accounts a' ha' := by
    rcases hstep.account_origin ha' with ⟨a, ha, _, _, rfl⟩ | ⟨_, _, _, _, _, hadmitted, rfl, rfl⟩
    · exact (h.accounts a ha).mono hstep.evolves
    · exact Provisioned.mono hstep.evolves (hA _ hadmitted)
  oauthStates o' ho' := by
    rcases hstep.oauthState_origin ho' with ⟨o, ho, _, _, rfl, -⟩ | ⟨_, _, _, _, _, _, hadmitted, rfl⟩
    · exact (h.oauthStates o ho).mono hstep.evolves
    · exact Provisioned.mono hstep.evolves (hA _ hadmitted)
  publications q' hq' := by
    rcases hstep.publication_origin hq' with ⟨q, hq, _, _, _, _, _, _, rfl⟩ | ⟨_, _, _, hadmitted, -, rfl⟩
    · exact (h.publications q hq).mono hstep.evolves
    · exact Provisioned.mono hstep.evolves (hA _ hadmitted).1
  approvals r' hr' := by
    have hkeep : ∀ p ∈ s.posts, ∃ p' ∈ s'.posts, p'.id = p.id ∧ p'.brand = p.brand := by
      intro p hp
      obtain ⟨_, hp', _, _, rfl, -⟩ := hstep.evolves.posts p hp
      exact ⟨_, hp', rfl, rfl⟩
    rcases hstep.approval_origin hr' with
      ⟨r, hr, _, _, _, _, rfl, -⟩ | ⟨_, _, _, _, _, _, _, _, p, -, hp, rfl, rfl, rfl⟩
    · obtain ⟨p, hp, hid, hbrand⟩ := h.approvals r hr
      obtain ⟨p', hp', hid', hbrand'⟩ := hkeep p hp
      exact ⟨p', hp', hid'.trans hid, hbrand.trans hbrand'.symm⟩
    · obtain ⟨p', hp', hid', hbrand'⟩ := hkeep p hp
      exact ⟨p', hp', hid', hbrand'.symm⟩
  variants v hv := by
    rcases hstep.variant_origin hv with
      hv | ⟨now, postId, _, _, _, _, _, payload, media, -, himages, hpost, rfl⟩
    · obtain ⟨p, hp⟩ := h.variants v hv
      exact hp.mono hstep.evolves
    · refine ⟨_, ⟨hpost, rfl⟩, ?_, fun id hid => ?_⟩
      · change (media.map (·.id)).Nodup
        rw [himages.ids]
        exact nodup_fromKeys _
      · obtain ⟨a, ha, rfl⟩ := List.mem_map.1 hid
        obtain ⟨hmem, rfl, rfl, hready⟩ := himages.ready a ha
        obtain ⟨_, ha', _, _, rfl, hstays⟩ := hstep.evolves.assets a hmem
        exact ⟨_, ha', rfl, hstays hready, rfl, rfl⟩
  connections c' hc' := by
    rcases hstep.connection_origin hc' with ⟨c, hc, _, _, _, _, _, _, rfl⟩ | ⟨a, ha, hid⟩
    · obtain ⟨a, ha, hid⟩ := h.connections c hc
      obtain ⟨_, ha', _, _, rfl⟩ := hstep.evolves.accounts a ha
      exact ⟨_, ha', hid⟩
    · exact ⟨a, ha, hid.symm⟩
  deliveries q' hq' := by
    rcases hstep.publication_origin hq' with ⟨q, hq, hbecomes⟩ | ⟨_, _, _, hadmitted, hchecked, rfl⟩
    · obtain ⟨v, p, c, a, hcoherent⟩ := h.deliveries q hq
      exact hcoherent.mono hstep.evolves hbecomes
    · exact h.scheduled hstep.evolves (hA _ hadmitted).2 hchecked

/-! ### Every run -/

/-- What has been checked for a ticket. -/
def Ticket.Sound (s : Store) : Ticket → Prop
  | .admitted c => Relay.Sound s c
  | .connecting o => Provisioned s o.tenant o.brand

theorem Ticket.Sound.mono {s s' : Store} (h : Evolves s s') {t : Ticket} (k : t.Sound s) :
    t.Sound s' := by
  cases t with
  | admitted c => exact Relay.Sound.mono h k
  | connecting o => exact Provisioned.mono h k

/-- The store is coherent, and what web processes hold is sound. -/
structure SoundSys (s : Sys) : Prop where
  coherent : Coherent s.store
  tickets : ∀ k t, s.tickets k = some t → t.Sound s.store

section Run

variable {env : Env} {publisher : Option Publisher} {s s' : Sys} {l : Label} {o : Output}

/-- A web process holds what it held before, or what the step has checked. -/
theorem SysStep.ticket (hstep : SysStep env publisher s l s' o) (h : Coherent s.store)
    (hs : ∀ k t, s.tickets k = some t → t.Sound s.store) {k : ℕ} {t : Ticket}
    (ht : s'.tickets k = some t) : s.tickets k = some t ∨ t.Sound s.store := by
  have hset : ∀ {r : Sys} {k' : ℕ} {t' : Option Ticket}, (r.setTicket k' t').tickets k = some t →
      r.tickets k = some t ∨ t' = some t := by
    intro r k' t' hset
    unfold Sys.setTicket at hset
    simp only [Function.update_apply] at hset
    split at hset
    · exact .inr hset
    · exact .inl hset
  cases hstep with
  | admitted admission =>
    obtain ⟨-, -, hhandle⟩ := admitRequest_eq_ok admission
    rcases hset ht with h | hnew
    · exact .inl h
    · cases hnew; exact .inr (handle_admitted hhandle).sound
  | admittedPublic admission =>
    rcases hset ht with h | hnew
    · exact .inl h
    · cases hnew
      rcases admitPublic_command admission with ⟨_, _, _, _, rfl⟩ | ⟨_, rfl⟩ <;> exact .inr trivial
  | refused | abandoned =>
    rcases hset ht with h | hnew
    · exact .inl h
    · cases hnew
  | committed _ effect =>
    rcases hset ht with h | hnew
    · exact .inl h
    · cases effect with
      | oauthConsumed mem =>
        cases hnew
        have hprovisioned := h.oauthStates _ mem
        exact .inr hprovisioned
      | _ => cases hnew
  | identified ticket =>
    rcases hset ht with h | hnew
    · exact .inl h
    · cases hnew
      have hprovisioned := hs _ _ ticket
      exact .inr hprovisioned
  | _ => exact .inl ht

theorem SoundSys.step (h : SoundSys s) (hstep : SysStep env publisher s l s' o) : SoundSys s' where
  coherent := by
    rcases hstep.store with hsame | hcommit
    · exact hsame ▸ h.coherent
    · exact h.coherent.step (fun c ⟨k, hk⟩ => h.tickets k _ hk) hcommit
  tickets k t ht := by
    rcases hstep.ticket h.coherent h.tickets ht with hold | hnew
    · exact (h.tickets k t hold).mono hstep.evolves
    · exact hnew.mono hstep.evolves

theorem SoundSys.initial (tenants : Table Tenant) (brands : Table Brand)
    (memberships : Table Membership) (clock : Time) :
    SoundSys (.initial tenants brands memberships clock) where
  coherent :=
    { posts := fun p hp => absurd hp (Table.not_mem_empty p)
      assets := fun a ha => absurd ha (Table.not_mem_empty a)
      accounts := fun a ha => absurd ha (Table.not_mem_empty a)
      oauthStates := fun o ho => absurd ho (Table.not_mem_empty o)
      publications := fun q hq => absurd hq (Table.not_mem_empty q)
      approvals := fun r hr => absurd hr (Table.not_mem_empty r)
      variants := fun v hv => absurd hv (Table.not_mem_empty v)
      connections := fun c hc => absurd hc (Table.not_mem_empty c)
      deliveries := fun q hq => absurd hq (Table.not_mem_empty q) }
  tickets _ _ ht := by cases ht

theorem soundSys_of_reachable (h : Reachable (relay env publisher) s) : SoundSys s := by
  refine h.invariant ?_ fun _ _ _ hs hstep => hs.step (next_step hstep)
  rintro _ ⟨tenants, brands, memberships, clock, rfl⟩
  exact .initial tenants brands memberships clock

/-- The store of a reachable state is coherent. -/
theorem coherent_of_reachable (h : Reachable (relay env publisher) s) : Coherent s.store :=
  (soundSys_of_reachable h).coherent

end Run

/-- **Workspace and brand of every row agree, in every state of the system.** -/
theorem coherence {env : Env} {publisher : Option Publisher} {s : Sys}
    (h : Reachable (relay env publisher) s) : Coherent s.store := coherent_of_reachable h

/-- A coherent store with a publication in it. -/
theorem coherence_sample : ∃ s : Sys, (∃ q ∈ s.store.publications, q.id = Sample.publication) ∧
    Coherent s.store := by
  obtain ⟨es, s, tr, hs⟩ : ∃ es s, Trail (relay Sample.env none) Sample.start es s ∧
      (s.store.publications.rows.any fun q => q.id = Sample.publication) = true :=
    exists_of_execute (show ((execute Sample.env none (Sample.scheduled .metaFacebookPage)
      Sample.start).any fun x => x.2.store.publications.rows.any fun q =>
        q.id = Sample.publication) = true by decide +kernel)
  obtain ⟨q, hq, hid⟩ := List.any_eq_true.1 hs
  exact ⟨s, ⟨q, hq, of_decide_eq_true hid⟩, coherence ⟨_, es, Sample.start_isStart none, tr⟩⟩

end Relay
