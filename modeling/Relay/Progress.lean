import Relay.DoublePublication
import Relay.Provenance
import Relay.Settlement

/-!
# What becomes of a publication that has been taken up

The dispatcher takes up what is scheduled, and only the worker that has claimed a publication takes
it on from there.

* `CanSettle`: the system's own steps can bring a publication to its end;
* `Rejects`: an exchange that Meta can end by rejecting whatever is asked next;
* `canSettle_of_scheduled`: what is scheduled can be brought to its end, however many other
  publications are due before it;
* `Abandoned.trail`: what is being published in no worker's hands stays so;
* `delivery_progress`: both, and what is being published in the hands of a worker.
-/

namespace Relay

open Relational Sequence Transition Exchange Staged

/-! ### The system's own steps -/

/-- The steps of the clock, the dispatcher and the workers. -/
def Label.own : Label → Bool
  | .advance _ | .dispatch | .start _ _ | .claim _ _ | .prepare _ _ | .exchange _ _ | .finish _ => true
  | _ => false

/-- The publication is published or failed. -/
def Sys.Ended (id : Uuid) (s : Sys) : Prop :=
  ∃ p ∈ s.store.publications, p.id = id ∧ (p.state = .published ∨ p.state = .failed)

/-- Finitely many of the system's own steps can end the publication. -/
def CanSettle (env : Env) (id : Uuid) (s : Sys) : Prop :=
  CanReach (relay env none) (fun e => e.1.own = true) (Sys.Ended id) s

/-- The worker holds its publication, and its exchange has not ended in what cannot be recorded. -/
def Phase.Alive : Phase → Prop
  | .begun _ => False
  | .claimed _ => True
  | .publishing _ (.ask _ _) => True
  | .publishing _ (.done r) => recordable r = true

/-- A worker delivers the publication. -/
def Sys.Delivers (s : Sys) (id : Uuid) : Prop :=
  ∃ k phase, s.workers k = some ⟨id, phase⟩ ∧ phase.Alive

/-- The edge to which a publication on the channel posts first, if it posts at all. -/
def Channel.firstEdge : Channel → Option Edge
  | .metaFacebookPage => some .photos
  | .metaInstagramBusinessAccount => some .media
  | .other _ => none

/-- httpx accepts the URL to which a publication on the connection posts first. -/
def ChannelConnection.Postable (env : Env) (c : ChannelConnection) : Prop :=
  ∀ edge ∈ c.channel.firstEdge,
    env.urlAccepted ((MetaRequest.post c.providerChannelId edge []).url env.toSettings) = true

/-- The same of the connection of a publication. -/
def Publication.Postable (env : Env) (p : Publication) (s : Store) : Prop :=
  ∃ c ∈ s.connections, c.id = p.channelConnection ∧ c.Postable env

/-- There are identifiers for one more attempt of every publication. -/
def Sys.Room (s : Sys) : Prop :=
  s.store.attempts.rows.length + s.store.publications.rows.length ≤ 2 ^ 128

/-! ### Rejections -/

/-- The failure is recorded, and nothing is tried again. -/
def DeliveryError.final : DeliveryError → Bool
  | .metaPublishTransientError _ => false
  | e => e.recorded

/-- The answer by which Meta rejects a request. -/
def rejection : Answer := .response 400 .invalid

/-- A rejection ends the exchange for good. -/
abbrev Rejects {α : Type} : Exchange MetaRequest Answer (Except DeliveryError α) → Prop :=
  Each fun _ rest => ∃ e, rest rejection = .done (.error e) ∧ e.final = true

/-- A request comes first. -/
def Sends {α : Type} (t : Exchange MetaRequest Answer α) : Prop := ∃ q rest, t = .ask q rest

section Client

variable {env : Env} {α β : Type}

theorem Rejects.bind {p : MetaCall α} {f : α → MetaCall β} (hp : Rejects p.run)
    (hf : ∀ a, Rejects (f a).run) : Rejects (p >>= f).run := by
  rw [ExceptT.run_bind]
  refine Each.bind hp (fun q rest h => ?_) fun x => ?_
  · obtain ⟨e, hrest, hfinal⟩ := h
    exact ⟨e, by dsimp only; rw [hrest]; rfl, hfinal⟩
  · cases x with
    | ok a => exact hf a
    | error e => trivial

theorem rejects_request {m : Messages} (hm : m = postMessages ∨ m = pollMessages) (q : MetaRequest) :
    Rejects (request env m q).run := by
  have hfinal : (DeliveryError.metaPublishPermanentError m.rejected).final = true := by
    rcases hm with rfl | rfl <;> decide
  unfold request
  split
  · exact ⟨⟨_, rfl, hfinal⟩, fun _ => trivial⟩
  · trivial

theorem rejects_postForId {node : String} {edge : Edge} {data : List (String × String)} :
    Rejects (postForId env node edge data).run :=
  Rejects.bind (rejects_request (.inl rfl) _) fun _ => trivial

theorem rejects_waitForInstagramContainer {creationId accessToken : String} {n : ℕ} :
    Rejects (waitForInstagramContainer env creationId accessToken n).run := by
  induction n with
  | zero => trivial
  | succ n ih =>
    refine Rejects.bind (rejects_request (.inr rfl) _) fun payload => Rejects.bind trivial fun status => ?_
    split
    · trivial
    · split
      · trivial
      · exact ih

theorem rejects_finishedContainer {node accessToken : String} {data : List (String × String)} :
    Rejects (finishedContainer env node accessToken data).run :=
  Rejects.bind rejects_postForId fun _ =>
    Rejects.bind rejects_waitForInstagramContainer fun _ => trivial

/-- The same call once for each element of a list. -/
theorem rejects_gather {f : String → MetaCall String} (hf : ∀ u, Rejects (f u).run) (l : List String) :
    Rejects (gather f l).run := by
  induction l with
  | nil => trivial
  | cons u l ih => exact Rejects.bind (hf u) fun _ => Rejects.bind ih fun _ => trivial

theorem rejects_publishImages (env : Env) (call : PublishCall) :
    Rejects (publishImages env call).run := by
  unfold publishImages
  dsimp only
  split
  · trivial
  split
  · trivial
  split
  · split
    · unfold publishFacebookCarousel
      rw [uploadPhotos_eq]
      exact Rejects.bind (rejects_gather (fun _ => rejects_postForId) _) fun _ => rejects_postForId
    · exact rejects_postForId
  · split
    · unfold publishInstagramCarousel
      rw [createChildren_eq]
      exact Rejects.bind (rejects_gather (fun _ => rejects_finishedContainer) _) fun _ =>
        Rejects.bind rejects_finishedContainer fun _ => rejects_postForId
    · exact Rejects.bind rejects_finishedContainer fun _ => rejects_postForId
  · trivial

theorem Sends.bind {p : MetaCall α} {f : α → MetaCall β} (h : Sends p.run) : Sends (p >>= f).run := by
  obtain ⟨q, rest, h⟩ := h
  rw [ExceptT.run_bind, h]
  exact ⟨q, _, rfl⟩

theorem sends_postForId {node : String} {edge : Edge} {data : List (String × String)}
    (accepted : env.urlAccepted ((MetaRequest.post node edge []).url env.toSettings) = true) :
    Sends (postForId env node edge data).run := by
  refine Sends.bind ?_
  have hurl : env.urlAccepted ((MetaRequest.post node edge data).url env.toSettings) = true := accepted
  unfold request
  rw [if_pos hurl]
  exact ⟨_, _, rfl⟩

theorem sends_finishedContainer {node accessToken : String} {data : List (String × String)}
    (accepted : env.urlAccepted ((MetaRequest.post node .media []).url env.toSettings) = true) :
    Sends (finishedContainer env node accessToken data).run :=
  Sends.bind (sends_postForId accepted)

/-- The client sends a request first, or refuses what it is called with. -/
theorem sends_publishImages (call : PublishCall) (postable : call.connection.Postable env) :
    Sends (publishImages env call).run ∨
      ∃ e, (publishImages env call).run = .done (.error e) ∧ e.final = true := by
  have hrefused : ∀ message, fitsText message = true →
      ∃ e, (throw (.metaPublishPermanentError message) : MetaCall String).run = .done (.error e) ∧
        e.final = true :=
    fun message htext => ⟨_, rfl, htext⟩
  unfold ChannelConnection.Postable at postable
  unfold publishImages
  dsimp only
  cases call.imageUrls with
  | nil => exact .inr (hrefused _ (by decide))
  | cons imageUrl imageUrls =>
    dsimp only
    split
    · exact .inr (hrefused _ (by decide))
    cases hchannel : call.connection.channel with
    | metaFacebookPage =>
      have hphotos := postable .photos (by rw [hchannel]; rfl)
      dsimp only
      split
      · exact .inl (Sends.bind (Sends.bind (sends_postForId hphotos)))
      · exact .inl (sends_postForId hphotos)
    | metaInstagramBusinessAccount =>
      have hmedia := postable .media (by rw [hchannel]; rfl)
      dsimp only
      split
      · exact .inl (Sends.bind (Sends.bind (sends_finishedContainer hmedia)))
      · exact .inl (Sends.bind (sends_finishedContainer hmedia))
    | other => exact .inr (hrefused _ (by decide))

/-- A storage client that signs every image. -/
def signsAll : Signer := fun _ => .ok ""

/-- With that storage client an image has a URL unless none is configured. -/
theorem publishableImageUrl_signsAll (c : Settings) (asset : MediaAsset) :
    (∃ url, publishableImageUrl c signsAll asset = .ok url) ∨
      publishableImageUrl c signsAll asset =
        .error (.mediaDeliveryUnavailable "Media delivery is not configured.") := by
  unfold publishableImageUrl presignedUrl signsAll
  by_cases hconfigured : c.b2Configured = true
  · exact .inl ⟨"", by simp [hconfigured]⟩
  · by_cases hbase : rstripSlash c.relayMediaPublicBaseUrl = ""
    · exact .inr (by simp [hconfigured, hbase])
    · exact .inl ⟨_, by simp [hconfigured, hbase]; rfl⟩

theorem final_of_imageUrls {c : Settings} {media : List MediaAsset} {e : DeliveryError}
    (h : imageUrls c signsAll media = .error e) : e.final = true := by
  induction media generalizing e with
  | nil => cases h
  | cons a media ih =>
    unfold imageUrls at h
    rcases publishableImageUrl_signsAll c a with ⟨url, hurl⟩ | hunavailable
    · rw [hurl] at h
      rcases bind_eq_error.1 h with h | ⟨urls, -, h⟩
      · exact ih h
      · cases h
    · rw [hunavailable] at h
      cases h
      decide

/-- Only final failures keep the client from being called. -/
theorem final_of_publishArguments {claim : Claim} {media : List MediaAsset} {e : DeliveryError}
    (h : publishArguments env none signsAll claim media = .error e) : e.final = true := by
  unfold publishArguments at h
  split at h
  · cases h; decide
  · split at h
    · cases h; decide
    · split at h
      · rename_i message hdecrypt
        cases h
        exact decryptToken_recorded hdecrypt
      · rcases bind_eq_error.1 h with h | ⟨urls, -, h⟩
        · exact final_of_imageUrls h
        · cases h

end Client

/-! ### Workers -/

section Workers

variable {env : Env} {s s' : Sys} {l : Label} {o : Output} {k : ℕ} {id : Uuid} {claim : Claim}
  {rest : Exchange MetaRequest Answer (Except DeliveryError String)}

/-- Where what a worker has left of its exchange comes from: it had it before, it has just called
the client or failed to, or Meta has just answered. -/
theorem SysStep.residual (hstep : SysStep env none s l s' o)
    (hk : s'.workers k = some ⟨id, .publishing claim rest⟩) :
    s.workers k = some ⟨id, .publishing claim rest⟩ ∨ (∃ e, rest = .done (.error e)) ∨
      (∃ call, rest = (publishImages env call).run) ∨
      ∃ q before a, s.workers k = some ⟨id, .publishing claim (.ask q before)⟩ ∧ rest = before a := by
  cases hstep with
  | started | claimed =>
    rw [workers_goOn] at hk
    split at hk
    · cases hk
    · exact .inl hk
  | claimRaised | claimMissed | finishRaised | finished | killed =>
    rw [workers_stop] at hk
    split at hk
    · cases hk
    · exact .inl hk
  | unprepared =>
    rw [workers_goOn] at hk
    split at hk
    · cases hk
      exact .inr (.inl ⟨_, rfl⟩)
    · exact .inl hk
  | prepared =>
    rw [workers_goOn] at hk
    split at hk
    · cases hk
      exact .inr (.inr (.inl ⟨_, rfl⟩))
    · exact .inl hk
  | exchanged worker =>
    rw [workers_goOn] at hk
    split at hk
    · rename_i hkk
      cases hk
      exact .inr (.inr (.inr ⟨_, _, _, hkk ▸ worker, rfl⟩))
    · exact .inl hk
  | _ => exact .inl hk

/-- Meta can end the exchange of every worker by a rejection. -/
theorem rejects_of_reachable (h : Reachable (relay env none) s) :
    ∀ k id claim rest, s.workers k = some ⟨id, .publishing claim rest⟩ → Rejects rest := by
  refine h.invariant (I := fun s => ∀ k id claim rest,
    s.workers k = some ⟨id, .publishing claim rest⟩ → Rejects rest) (fun s hs => ?_) fun s e s' hs hstep => ?_
  · obtain ⟨tenants, brands, memberships, clock, rfl⟩ := hs
    intro k id claim rest hk
    cases hk
  · intro k id claim rest hk
    rcases (next_step hstep).residual hk with hk | ⟨e, rfl⟩ | ⟨call, rfl⟩ | ⟨q, before, a, hask, rfl⟩
    · exact hs k id claim rest hk
    · trivial
    · exact rejects_publishImages env call
    · exact (hs k id claim _ hask).2 a

/-- Only finitely many workers are at work. -/
theorem idle_of_reachable (h : Reachable (relay env none) s) : ∃ n, ∀ k, n ≤ k → s.workers k = none := by
  refine h.invariant (I := fun s => ∃ n, ∀ k, n ≤ k → s.workers k = none) (fun s hs => ?_)
    fun s e s' hs hstep => ?_
  · obtain ⟨tenants, brands, memberships, clock, rfl⟩ := hs
    exact ⟨0, fun _ _ => rfl⟩
  · obtain ⟨l, o⟩ := e
    obtain ⟨n, hn⟩ := hs
    have hgoOn : ∀ {t : Sys} {k : ℕ} {id : Uuid} {phase : Phase}, t.workers = s.workers →
        ∃ n, ∀ k', n ≤ k' → (t.goOn k id phase).workers k' = none := by
      intro t k id phase ht
      refine ⟨max n (k + 1), fun k' hk' => ?_⟩
      rw [workers_goOn, if_neg (by omega), ht]
      exact hn k' (by omega)
    have hstop : ∀ {t : Sys} {k : ℕ}, t.workers = s.workers →
        ∃ n, ∀ k', n ≤ k' → (t.setWorker k none).workers k' = none := by
      intro t k ht
      refine ⟨n, fun k' hk' => ?_⟩
      rw [workers_stop, ht, hn k' hk', ite_self]
    cases next_step hstep with
    | started | claimed | unprepared | prepared | exchanged => exact hgoOn rfl
    | claimRaised | claimMissed | finishRaised | finished | killed => exact hstop rfl
    | _ => exact ⟨n, hn⟩

/-- There is an identifier that a short list does not have. -/
theorem exists_fresh_id {l : List Uuid} (h : l.length < 2 ^ 128) : ∃ id, id ∉ l := by
  by_contra hall
  have hsub : (List.range (2 ^ 128)).map Uuid.ofNat ⊆ l := fun id _ => by
    by_contra hid
    exact hall ⟨id, hid⟩
  have hnodup : ((List.range (2 ^ 128)).map Uuid.ofNat).Nodup := by
    refine List.Nodup.map_on (fun a ha b hb hab => ?_) List.nodup_range
    have hbits := congrArg (fun u : Uuid => u.bits.toNat) hab
    simp only [Uuid.ofNat, BitVec.toNat_ofNat] at hbits
    rw [List.mem_range] at ha hb
    rwa [Nat.mod_eq_of_lt ha, Nat.mod_eq_of_lt hb] at hbits
  have hle := (hnodup.subperm hsub).length_le
  rw [List.length_map, List.length_range] at hle
  omega

end Workers

/-! ### The connection of a publication -/

section Postable

variable {env : Env} {s s' : Sys} {es : List (Label × Output)} {p : Publication} {k : ℕ} {id : Uuid}
  {claim : Claim}

/-- A connection keeps its channel. -/
theorem ChannelConnection.Becomes.postable {c c' : ChannelConnection} (h : c.Becomes c') :
    c'.Postable env ↔ c.Postable env := by
  obtain ⟨_, _, _, _, _, _, rfl⟩ := h
  rfl

theorem Publication.Postable.trail (h : p.Postable env s.store) (tr : Trail (relay env none) s es s') :
    p.Postable env s'.store := by
  obtain ⟨c, hc, hid, hpostable⟩ := h
  obtain ⟨c', hc', hbecomes⟩ := (Trail.evolves tr).connections c hc
  refine ⟨c', hc', ?_, hbecomes.postable.2 hpostable⟩
  obtain ⟨_, _, _, _, _, _, rfl⟩ := hbecomes
  exact hid

/-- The connection of a claim is the one of its publication, as it was when the claim was made. -/
theorem claimed_connection (h : Reachable (relay env none) s) : ∀ k id claim, s.Holds k id claim →
    claim.channelConnection.id = claim.publication.channelConnection ∧
      ∃ c ∈ s.store.connections, claim.channelConnection.Becomes c := by
  refine h.invariant (I := fun s => ∀ k id claim, s.Holds k id claim →
    claim.channelConnection.id = claim.publication.channelConnection ∧
      ∃ c ∈ s.store.connections, claim.channelConnection.Becomes c) (fun s hs => ?_)
    fun s e s' hs hstep k id claim hk => ?_
  · obtain ⟨tenants, brands, memberships, clock, rfl⟩ := hs
    rintro k id claim ⟨_, hworker, -⟩
    cases hworker
  · rcases (next_step hstep).holds hk with hk | ⟨-, -, _, _, hclaimed⟩
    · obtain ⟨hid, c, hc, hbecomes⟩ := hs k id claim hk
      obtain ⟨c', hc', hbecomes'⟩ := (next_step hstep).evolves.connections c hc
      exact ⟨hid, c', hc', hbecomes.trans hbecomes'⟩
    · obtain ⟨-, hc, hid⟩ := hclaimed.content
      exact ⟨hid, _, hc, .refl _⟩

theorem claim_postable (h : Reachable (relay env none) s) (hk : s.Holds k id claim)
    (postable : claim.publication.Postable env s.store) : claim.channelConnection.Postable env := by
  obtain ⟨hid, c, hc, hbecomes⟩ := claimed_connection h k id claim hk
  obtain ⟨c', hc', hid', hpostable⟩ := postable
  have hkey : c.id = claim.channelConnection.id := by
    obtain ⟨_, _, _, _, _, _, rfl⟩ := hbecomes
    rfl
  rw [Table.eq_of_key hc' hc (hid'.trans (hid.symm.trans hkey.symm))] at hpostable
  exact hbecomes.postable.1 hpostable

end Postable

/-! ### Runs of the system's own steps -/

section Runs

variable {env : Env} {s : Sys} {p : Publication} {k : ℕ} {id : Uuid} {claim : Claim}

theorem workers_goOn_self {phase : Phase} : (s.goOn k id phase).workers k = some ⟨id, phase⟩ := by
  rw [workers_goOn, if_pos rfl]

/-! What the worker of a phase can do next. -/

theorem step_start (htask : id ∈ s.tasks) (hidle : s.workers k = none) :
    (relay env none).step s (.start k id, .silent) (s.goOn k id (.begun s.clock)) :=
  if_pos ⟨htask, by rw [hidle]; rfl⟩

theorem step_claim {started : Time} {attempt : Uuid} {store : Store}
    (hk : s.workers k = some ⟨id, .begun started⟩)
    (h : claimPublication started s.clock attempt id s.store = .ok (some claim, store)) :
    (relay env none).step s (.claim k attempt, .claimed claim)
      ({ s with store }.goOn k id (.claimed claim)) := by
  change next env none s (.claim k attempt) = _
  simp only [next, hk, Sys.claim, h]

theorem step_prepare (hk : s.workers k = some ⟨id, .claimed claim⟩) (signer : Signer) :
    ∃ o, (relay env none).step s (.prepare k signer, o)
      (s.goOn k id (.publishing claim (deliver env none signer claim s.store))) := by
  change ∃ o, next env none s (.prepare k signer) = _
  cases harguments : publishArguments env none signer claim
      (orderedMediaAssets s.store claim.postVariant) with
  | error e => exact ⟨.silent, by simp only [next, hk, Sys.prepare, deliver, harguments]⟩
  | ok call =>
    exact ⟨.publishing claim (orderedMediaAssets s.store claim.postVariant) call,
      by simp only [next, hk, Sys.prepare, deliver, harguments]⟩

theorem step_exchange {q : MetaRequest}
    {rest : Answer → Exchange MetaRequest Answer (Except DeliveryError String)}
    (hk : s.workers k = some ⟨id, .publishing claim (.ask q rest)⟩) (a : Answer) :
    (relay env none).step s (.exchange k ⟨false, a⟩, .exchanged claim q ⟨false, a⟩)
      (s.goOn k id (.publishing claim (rest a))) := by
  change next env none s (.exchange k ⟨false, a⟩) = _
  simp only [next, hk]
  rfl

theorem step_finish {result : Except DeliveryError String} {answer : String} {store : Store}
    (hk : s.workers k = some ⟨id, .publishing claim (.done result)⟩)
    (h : finish env s.clock claim result s.store = .ok (answer, store)) :
    (relay env none).step s (.finish k, .returned id answer) ({ s with store }.setWorker k none) := by
  change next env none s (.finish k) = _
  simp only [next, hk, Sys.finish, h]

/-- The dispatcher lists a due publication, and a worker that is idle claims it. -/
theorem exists_claim_trail (h : Reachable (relay env none) s) (hp : p ∈ s.store.publications)
    (hdue : p.due s.clock = true) (hlisted : p.id ∈ dispatchDuePublications s.clock s.store)
    (hroom : s.store.attempts.rows.length < 2 ^ 128) :
    ∃ es t k claim attempt, (∀ e ∈ es, Label.own e.1 = true) ∧ Trail (relay env none) s es t ∧
      t.workers k = some ⟨p.id, .claimed claim⟩ ∧ t.clock = s.clock ∧ claim.publication.id = p.id ∧
      Claimed s.clock s.clock attempt claim s.store t.store := by
  obtain ⟨n, hidle⟩ := idle_of_reachable h
  obtain ⟨attempt, hattempt⟩ := exists_fresh_id (l := s.store.attempts.rows.map (·.id))
    (by simpa using hroom)
  have hfresh : ∀ a ∈ s.store.attempts, a.id ≠ attempt := fun a ha heq =>
    hattempt (heq ▸ List.mem_map_of_mem ha)
  obtain ⟨v, _, c, _, hcoherent⟩ := (coherent_of_reachable h).deliveries p hp
  obtain ⟨claim, store, hclaim, -, hid, -⟩ := (delivering_of_reachable h).exists_claim hp hdue
    (Table.get?_eq_some.2 hcoherent.variant) (Table.get?_eq_some.2 hcoherent.connection) hfresh s.clock
  have hclaimed : Claimed s.clock s.clock attempt claim s.store store := by
    rcases claimPublication_claimed hclaim with ⟨hnone, -⟩ | ⟨_, hsome, -, hclaimed⟩
    · cases hnone
    · cases hsome
      exact hclaimed
  set s₁ : Sys := { s with tasks := s.tasks ++ dispatchDuePublications s.clock s.store }
  have hdispatch : (relay env none).step s (.dispatch, .dispatched _) s₁ := rfl
  have hstart : (relay env none).step s₁ (.start n p.id, .silent) (s₁.goOn n p.id (.begun s.clock)) :=
    step_start (List.mem_append_right _ hlisted) (hidle n le_rfl)
  exact ⟨_, _, n, claim, attempt, by simp [Label.own],
    .move hdispatch (.move hstart (.single (step_claim workers_goOn_self hclaim))), workers_goOn_self,
    rfl, hid, hclaimed⟩

/-- What ends in something that can be recorded is recorded. -/
theorem exists_finish_step (h : Reachable (relay env none) s) {result : Except DeliveryError String}
    (hk : s.workers k = some ⟨id, .publishing claim (.done result)⟩) (hr : recordable result = true) :
    ∃ answer t, (relay env none).step s (.finish k, .returned id answer) t ∧
      t.store.attempts.rows.length = s.store.attempts.rows.length ∧
      t.store.publications.rows.length = s.store.publications.rows.length ∧
      ∃ p ∈ t.store.publications, p.id = id ∧ (p.state = .published ∨ p.state = .failed ∨
        (p.state = .scheduled ∧ ∃ m, result = .error (.metaPublishTransientError m))) := by
  obtain ⟨rfl, hheld⟩ := (delivering_of_reachable h).held k id claim ⟨_, hk, rfl⟩
  obtain ⟨answer, store, hfinish, -⟩ := hheld.finish_ok hr s.clock env
  obtain ⟨f, g, hfg, hpublications, hattempts, hretry, -⟩ := (finish_finished hfinish).rows hheld
  refine ⟨answer, _, step_finish hk hfinish, ?_, ?_, g claim.publication, ?_, g.keeps _, ?_⟩
  · change store.attempts.rows.length = _
    rw [hattempts]
    exact List.length_map _
  · change store.publications.rows.length = _
    rw [hpublications]
    exact List.length_map _
  · exact hpublications ▸ Table.mem_update_self hheld.publication rfl
  · rw [hfg.state _ claim.attempt]
    cases ho : (f claim.attempt).outcome with
    | blank => exact absurd ho (hfg.outcome _)
    | retry => exact .inr (.inr ⟨rfl, hretry ho⟩)
    | published => exact .inl rfl
    | failed => exact .inr (.inl rfl)

/-- A final failure ends the publication. -/
theorem canSettle_of_final (h : Reachable (relay env none) s) {e : DeliveryError}
    (hk : s.workers k = some ⟨id, .publishing claim (.done (.error e))⟩) (hfinal : e.final = true) :
    CanSettle env id s := by
  have hr : recordable (.error e) = true := by
    cases e with
    | metaPublishTransientError => cases hfinal
    | _ => exact hfinal
  obtain ⟨answer, t, hstep, -, -, p, hp, hid, hstate⟩ := exists_finish_step h hk hr
  refine ⟨_, t, ?_, .single hstep, p, hp, hid, ?_⟩
  · simp [Label.own]
  · rcases hstate with hstate | hstate | ⟨-, m, hm⟩
    · exact .inl hstate
    · exact .inr hstate
    · cases hm
      cases hfinal

/-- A request that Meta rejects ends the publication. -/
theorem canSettle_of_sends (h : Reachable (relay env none) s) {q : MetaRequest}
    {rest : Answer → Exchange MetaRequest Answer (Except DeliveryError String)}
    (hk : s.workers k = some ⟨id, .publishing claim (.ask q rest)⟩) : CanSettle env id s := by
  obtain ⟨⟨e, hrest, hfinal⟩, -⟩ := rejects_of_reachable h k id claim _ hk
  have hstep := @step_exchange env _ _ _ _ _ _ hk rejection
  rw [hrest] at hstep
  exact CanReach.of_trail (by simp [Label.own]) (.single hstep)
    (canSettle_of_final (h.step hstep) workers_goOn_self hfinal)

/-- The exchange of a worker whose images are all signed begins with a request, or ends in a final
failure at once. -/
theorem deliver_signsAll (postable : claim.channelConnection.Postable env) (t : Store) :
    Sends (deliver env none signsAll claim t) ∨
      ∃ e, deliver env none signsAll claim t = .done (.error e) ∧ e.final = true := by
  unfold deliver
  split
  · rename_i e harguments
    exact .inr ⟨e, rfl, final_of_publishArguments harguments⟩
  · rename_i call harguments
    refine sends_publishImages call ?_
    rw [(publishArguments_token harguments).1]
    exact postable

/-- A worker that has claimed a publication can end it. -/
theorem canSettle_of_claimed (postable : claim.channelConnection.Postable env)
    (h : Reachable (relay env none) s) (hk : s.workers k = some ⟨id, .claimed claim⟩) :
    CanSettle env id s := by
  obtain ⟨o, hstep⟩ := step_prepare hk signsAll
  have hreach := h.step hstep
  refine CanReach.of_trail (by simp [Label.own]) (.single hstep) ?_
  rcases deliver_signsAll postable s.store with ⟨q, rest, hsends⟩ | ⟨e, hends, hfinal⟩
  · rw [hsends] at hreach ⊢
    exact canSettle_of_sends hreach workers_goOn_self
  · rw [hends] at hreach ⊢
    exact canSettle_of_final hreach workers_goOn_self hfinal

/-- The dispatcher lists some due publication, if there is one. -/
theorem exists_listed {t : Store} {now : Time} (hp : p ∈ t.publications) (hdue : p.due now = true) :
    ∃ q ∈ t.publications, q.due now = true ∧ q.id ∈ dispatchDuePublications now t := by
  have hmem : p ∈ t.publications.where (·.due now) := Table.mem_where.2 ⟨hp, hdue⟩
  have hhead := @exists_head?_orderBy _ fun a b : Publication => decide (a.scheduledFor ≤ b.scheduledFor)
  obtain ⟨q, hq, hfirst⟩ := hhead hmem
  obtain ⟨hq, hqdue⟩ := Table.mem_where.1 hq
  obtain ⟨rest, hrest⟩ := List.head?_eq_some_iff.1 hfirst
  refine ⟨q, hq, hqdue, ?_⟩
  unfold dispatchDuePublications
  rw [hrest, List.take_succ_cons, List.map_cons]
  exact List.mem_cons_self

/-- The publications that wait for their time. -/
def waiting (t : Store) : List Publication := t.publications.where (·.state = .scheduled)

/-- A claim takes its publication from those that wait, and leaves the others as they are. -/
theorem Claimed.waiting {started now : Time} {attempt : Uuid} {t t' : Store}
    (h : Claimed started now attempt claim t t') :
    (waiting t').length + 1 = (waiting t).length ∧
      t'.attempts.rows.length = t.attempts.rows.length + 1 ∧
      ∀ q ∈ t.publications, q.id ≠ claim.publication.id → q ∈ t'.publications := by
  obtain ⟨r, hr, hdue, hclaim, -, hpublications, hinsert⟩ := h.rows
  have hid : claim.publication.id = r.id := by rw [hclaim]; rfl
  have hscheduled : r.state = .scheduled := (Publication.due_iff.1 hdue).1
  refine ⟨?_, ?_, fun q hq hne => ?_⟩
  · unfold Relay.waiting
    have hcount := Table.length_where_update (f := ⟨(·.claimed now), fun _ => rfl⟩)
      (fun q : Publication => decide (q.state = .scheduled)) hr
    rw [if_pos (decide_eq_true hscheduled), if_neg (by simp [Publication.claimed]), Nat.add_zero] at hcount
    rw [hpublications]
    exact hcount
  · rw [Table.rows_insert? hinsert, List.length_append, List.length_singleton]
  · rw [hpublications]
    exact Table.mem_update_of_ne hq (hid ▸ hne)

/-- A publication that is due can be brought to its end: each time the dispatcher lists another one, a
worker claims that one, and fewer are left that wait. -/
theorem canSettle_of_due (h : Reachable (relay env none) s) (hp : p ∈ s.store.publications)
    (postable : p.Postable env s.store) (hdue : p.due s.clock = true)
    (room : s.store.attempts.rows.length + (waiting s.store).length ≤ 2 ^ 128) :
    CanSettle env p.id s := by
  refine CanReach.of_measure (I := fun s => Reachable (relay env none) s ∧ p ∈ s.store.publications ∧
    p.Postable env s.store ∧ p.due s.clock = true ∧
      s.store.attempts.rows.length + (waiting s.store).length ≤ 2 ^ 128)
    (fun s => (waiting s.store).length) (fun s hs => ?_) ⟨h, hp, postable, hdue, room⟩
  obtain ⟨h, hp, postable, hdue, room⟩ := hs
  have hwaits : p ∈ waiting s.store :=
    Table.mem_where.2 ⟨hp, decide_eq_true (Publication.due_iff.1 hdue).1⟩
  have hpos := List.length_pos_of_mem hwaits
  obtain ⟨q, hq, hqdue, hlisted⟩ := exists_listed hp hdue
  obtain ⟨es, t, k, claim, attempt, hown, tr, hworker, hclock, hid, hclaimed⟩ :=
    exists_claim_trail h hq hqdue hlisted (by omega)
  obtain ⟨hwaiting, hattempts, hothers⟩ := hclaimed.waiting
  by_cases hpq : p.id = q.id
  · have hclaim : claim.publication.channelConnection = p.channelConnection := by
      obtain ⟨r, hr, -, hclaim, -⟩ := hclaimed.rows
      have hr' : r.id = p.id := by
        rw [hpq, ← hid, hclaim]
        rfl
      rw [hclaim, ← Table.eq_of_key hr hp hr']
      rfl
    have hpostable : claim.channelConnection.Postable env := by
      refine claim_postable (h.trail tr) ⟨_, hworker, rfl⟩ ?_
      unfold Publication.Postable
      rw [hclaim]
      exact postable.trail tr
    obtain ⟨fs, r, hown', tr', hended⟩ := canSettle_of_claimed hpostable (h.trail tr) (hpq ▸ hworker)
    exact CanReach.of_trail hown tr ⟨fs, r, hown', tr', .inl hended⟩
  · refine CanReach.of_trail hown tr (.of_goal (.inr ⟨⟨h.trail tr, ?_, postable.trail tr, hclock ▸ hdue,
      ?_⟩, ?_⟩))
    · exact hothers p hp (hid ▸ hpq)
    · omega
    · omega

/-- A publication that is scheduled can be brought to its end. -/
theorem canSettle_of_scheduled (h : Reachable (relay env none) s) (room : s.Room)
    (hp : p ∈ s.store.publications) (postable : p.Postable env s.store) (hstate : p.state = .scheduled) :
    CanSettle env p.id s := by
  -- the clock advances to the time of the publication
  set duration := (p.scheduledFor - s.clock).toNat with hduration
  have hstep : (relay env none).step s (.advance duration, .silent)
      { s with clock := s.clock + duration } := rfl
  refine CanReach.of_trail (by simp [Label.own]) (.single hstep)
    (canSettle_of_due (h.step hstep) hp postable ?_ ?_)
  · have hlate : ∀ a b : ℤ, a ≤ b + ((a - b).toNat : ℤ) := by omega
    exact Publication.due_iff.2 ⟨hstate, hlate _ _⟩
  · have hle : (waiting s.store).length ≤ s.store.publications.rows.length := List.length_filter_le _ _
    unfold Sys.Room at room
    exact (Nat.add_le_add_left hle _).trans room

/-- A publication that a worker delivers can be brought to its end. -/
theorem canSettle_of_delivers (h : Reachable (relay env none) s) (room : s.Room)
    (hp : p ∈ s.store.publications) (postable : p.Postable env s.store) (hs : s.Delivers p.id) :
    CanSettle env p.id s := by
  obtain ⟨k, phase, hk, halive⟩ := hs
  match phase, halive with
  | .claimed claim, _ =>
    refine canSettle_of_claimed (claim_postable h ⟨_, hk, rfl⟩ ?_) h hk
    obtain ⟨hid, hheld⟩ := (delivering_of_reachable h).held k p.id claim ⟨_, hk, rfl⟩
    rw [Table.eq_of_key hheld.publication hp hid]
    exact postable
  | .publishing claim (.ask q rest), _ => exact canSettle_of_sends h hk
  | .publishing claim (.done result), hr =>
    obtain ⟨answer, t, hstep, hattempts, hpublications, q, hq, hid, hstate⟩ := exists_finish_step h hk hr
    refine CanReach.of_trail (by simp [Label.own]) (.single hstep) ?_
    rcases hstate with hstate | hstate | ⟨hstate, -⟩
    · exact .of_goal ⟨q, hq, hid, .inl hstate⟩
    · exact .of_goal ⟨q, hq, hid, .inr hstate⟩
    · rw [← hid]
      refine canSettle_of_scheduled (h.step hstep) ?_ hq ?_ hstate
      · unfold Sys.Room at room ⊢
        rwa [hattempts, hpublications]
      · have hconnection : q.channelConnection = p.channelConnection := by
          obtain ⟨_, hq', _, _, _, _, _, _, rfl⟩ := (next_step hstep).evolves.publications p hp
          rw [Table.eq_of_key hq hq' hid]
        unfold Publication.Postable
        rw [hconnection]
        exact postable.trail (.single hstep)

end Runs

/-! ### Publications in no worker's hands -/

/-- The publication is being published, and no worker holds it. -/
structure Abandoned (p : Publication) (s : Sys) : Prop where
  mem : p ∈ s.store.publications
  publishing : p.state = .publishing
  unheld : ∀ k claim, ¬ s.Holds k p.id claim

section Abandoned

variable {env : Env} {s s' : Sys} {l : Label} {o : Output} {p : Publication}

theorem Abandoned.step (h : Abandoned p s) (hs : Delivering s)
    (hstep : SysStep env none s l s' o) : Abandoned p s' := by
  -- what is claimed was waiting
  have hclaimed : ∀ {started attempt claim store},
      Claimed started s.clock attempt claim s.store store → claim.publication.id ≠ p.id := by
    intro started attempt claim store hclaimed hid
    obtain ⟨q, hq, hdue, hclaim, -⟩ := hclaimed.rows
    have hqid : q.id = p.id := by rw [← hid, hclaim]; rfl
    have hscheduled := (Publication.due_iff.1 hdue).1
    rw [Table.eq_of_key hq h.mem hqid, h.publishing] at hscheduled
    cases hscheduled
  refine ⟨?_, h.publishing, fun k claim hk => ?_⟩
  · cases hstep.touched hs h.mem with
    | kept mem => exact mem
    | claimed _ due =>
      have hscheduled := (Publication.due_iff.1 due).1
      rw [h.publishing] at hscheduled
      cases hscheduled
    | concluded worker => exact absurd worker (h.unheld _ _)
  · rcases hstep.holds hk with hk | ⟨-, hid, started, attempt, claimed⟩
    · exact h.unheld k claim hk
    · exact hclaimed claimed hid

/-- Whatever happens later, it stays so. -/
theorem Abandoned.trail {es : List (Label × Output)} {t : Sys} (h : Abandoned p s)
    (hs : Delivering s) (tr : Trail (relay env none) s es t) : Abandoned p t := by
  refine (tr.invariant (I := fun s => Delivering s ∧ Abandoned p s) (fun s e t hs hstep => ?_) ⟨hs, h⟩).2
  exact ⟨hs.1.step (next_step hstep), hs.2.step hs.1 (next_step hstep)⟩

/-- It is not published and does not fail. -/
theorem Abandoned.not_canSettle (h : Abandoned p s) (hs : Delivering s) : ¬ CanSettle env p.id s := by
  rintro ⟨es, t, -, tr, q, hq, hid, hstate⟩
  have hp := h.trail hs tr
  rw [Table.eq_of_key hq hp.mem hid, hp.publishing] at hstate
  rcases hstate with hstate | hstate <;> cases hstate

end Abandoned

/-- **What can still be delivered.**  From every state of the system, whichever workers have died, what
is scheduled and what a worker delivers can be brought to its end by the system's own steps, if httpx
accepts the URL to which it posts first; what is being published in no worker's hands stays as it is
for good. -/
theorem delivery_progress {env : Env} {s : Sys} (h : Reachable (relay env none) s) (room : s.Room)
    {p : Publication} (hp : p ∈ s.store.publications) :
    (p.state = .scheduled → p.Postable env s.store → CanSettle env p.id s) ∧
      (p.state = .publishing → s.Delivers p.id → p.Postable env s.store → CanSettle env p.id s) ∧
      (p.state = .publishing → (∀ k claim, ¬ s.Holds k p.id claim) →
        ∀ es t, Trail (relay env none) s es t → p ∈ t.store.publications) := by
  refine ⟨fun hstate postable => ?_, fun _ hs postable => ?_, fun hstate hheld es t tr => ?_⟩
  · exact canSettle_of_scheduled h room hp postable hstate
  · exact canSettle_of_delivers h room hp postable hs
  · exact (Abandoned.trail ⟨hp, hstate, hheld⟩ (delivering_of_reachable h) tr).mem

open Sample in
/-- A publication that has just been scheduled. -/
theorem delivery_progress_sample : ∃ s : Sys, ∃ p ∈ s.store.publications,
    p.state = .scheduled ∧ CanSettle env p.id s := by
  obtain ⟨es, s, tr, hs⟩ := exists_of_execute (show ((execute env none (scheduled .metaFacebookPage)
    start).any fun x => decide (x.2.store.attempts.rows.length + x.2.store.publications.rows.length ≤ 1) &&
      x.2.store.publications.rows.any fun p => p.state = .scheduled) = true by decide +kernel)
  rw [Bool.and_eq_true, decide_eq_true_eq] at hs
  obtain ⟨hroom, hs⟩ := hs
  obtain ⟨p, hp, hstate⟩ := List.any_eq_true.1 hs
  have hstate : p.state = .scheduled := of_decide_eq_true hstate
  have hreach : Reachable (relay env none) s := ⟨_, es, start_isStart none, tr⟩
  have hpostable : p.Postable env s.store := by
    obtain ⟨v, _, c, _, hcoherent⟩ := (coherent_of_reachable hreach).deliveries p hp
    exact ⟨c, hcoherent.connection.1, hcoherent.connection.2, fun _ _ => rfl⟩
  exact ⟨s, p, hp, hstate,
    (delivery_progress hreach (hroom.trans (by norm_num)) hp).1 hstate hpostable⟩

open Sample in
/-- A worker dies between its claim and its outcome. -/
theorem not_canSettle : ¬ ∀ (env : Env) (s : Sys), Reachable (relay env none) s →
    ∀ p ∈ s.store.publications, p.state = .scheduled ∨ p.state = .publishing → CanSettle env p.id s := by
  intro h
  obtain ⟨es, s, tr, hs⟩ := exists_of_execute (show ((execute env none (scheduled .metaFacebookPage ++
    claiming 60000000 60) start).any fun x => (x.2.workers 0).any fun w => w.phase.claim?.isSome &&
      x.2.store.publications.rows.any fun p => p.state = .publishing && p.id = w.publication) = true by
    decide +kernel)
  obtain ⟨w, hw, hs⟩ := (Option.any_eq_true _ _).1 hs
  rw [Bool.and_eq_true] at hs
  obtain ⟨claim, hclaim⟩ := Option.isSome_iff_exists.1 hs.1
  obtain ⟨p, hp, hs⟩ := List.any_eq_true.1 hs.2
  rw [Bool.and_eq_true, decide_eq_true_eq, decide_eq_true_eq] at hs
  have hreach : Reachable (relay env none) s := ⟨_, es, start_isStart none, tr⟩
  have hholds : s.Holds 0 p.id claim := ⟨w.phase, by rw [hs.2]; exact hw, hclaim⟩
  have hkill : (relay env none).step s (.kill 0, .silent) (s.setWorker 0 none) := rfl
  have habandoned : Abandoned p (s.setWorker 0 none) := by
    refine ⟨hp, hs.1, fun k claim' hk => ?_⟩
    obtain ⟨hne, hk⟩ := holds_stop.1 hk
    exact hne ((delivering_of_reachable hreach).alone _ _ _ _ _ hk hholds)
  exact habandoned.not_canSettle (delivering_of_reachable (hreach.step hkill))
    (h env _ (hreach.step hkill) p hp (.inr hs.1))

end Relay
