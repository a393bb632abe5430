import Relay.Attempts
import Relay.Coherence
import Relay.MetaProtocol

/-!
# How a delivery ends

A call of `publish_due_publication` that has claimed its publication either records an outcome or
ends in an exception that escapes, with the attempt open for good.

* `deliverySettles`: the configurations, storage answers and Meta answers with which an outcome is
  recorded;
* `claimPublication_ok`, `Held.finish_ok`, `Held.finish_error`: when the two transactions of a call
  commit;
* `claimed_delivery_settled`: an outcome is recorded in exactly these cases.
-/

namespace Relay

open Relational Sequence Transition Exchange Staged

/-! ### The ends of a call -/

/-- What the call returns for the outcome of its attempt. -/
def Outcome.answer : Outcome → String
  | .blank => ""
  | .retry => "retry_scheduled"
  | .published => "published"
  | .failed => "failed"

/-- The attempt is completed, and the answer and the publication say how. -/
def Settled (publication attempt : Uuid) (r : Except ServiceError String × Store) : Prop :=
  ∃ a ∈ r.2.attempts, ∃ p ∈ r.2.publications, a.id = attempt ∧ a.publication = publication ∧
    p.id = publication ∧ a.completedAt ≠ none ∧ a.outcome ≠ .blank ∧ p.state = a.outcome.state ∧
    r.1 = .ok a.outcome.answer

/-- An exception escapes; the publication is being published and its attempt is open. -/
def Stranded (publication attempt : Uuid) (r : Except ServiceError String × Store) : Prop :=
  ∃ a ∈ r.2.attempts, ∃ p ∈ r.2.publications, a.id = attempt ∧ a.publication = publication ∧
    p.id = publication ∧ a.completedAt = none ∧ p.state = .publishing ∧ ∃ e, r.1 = .error e

/-- The delivery code catches the exception, and its text can be stored. -/
def DeliveryError.recorded : DeliveryError → Bool
  | .uncaught _ => false
  | e => fitsText e.message

/-- The outcome can be recorded. -/
def recordable : Except DeliveryError String → Bool
  | .ok providerPublicationId => fitsVarchar 255 providerPublicationId
  | .error e => e.recorded

/-! ### The answers with which an outcome is recorded -/

/-- The edges that are posted to, in order, for a number of images. -/
def edges : Channel → ℕ → List Edge
  | .metaFacebookPage, n => if 1 < n then List.replicate n .photos ++ [.feed] else [.photos]
  | .metaInstagramBusinessAccount, n =>
    if 1 < n then List.replicate (n + 1) .media ++ [.mediaPublish] else [.media, .mediaPublish]
  | .other _, _ => []

/-- A request whose answer is read by `read`: its URL is accepted, the answer is no JSON value without
`get`, and all is well after what is read from it. -/
def requestSettles {α : Type} (env : Env) (m : Messages) (q : MetaRequest)
    (read : Json → Except DeliveryError α) (goOn : α → (ℕ → Answer) → Bool)
    (answers : ℕ → Answer) : Bool :=
  env.urlAccepted (q.url env.toSettings) &&
    match m.read (answers 0) with
    | .error _ => true
    | .ok payload =>
      match read payload with
      | .error e => e.recorded
      | .ok x => goOn x fun n => answers (n + 1)

/-- A post whose identifier is read. -/
def postSettles (env : Env) (node : String) (edge : Edge) : (String → (ℕ → Answer) → Bool) →
    (ℕ → Answer) → Bool :=
  requestSettles env postMessages (.post node edge []) (payloadId env)

/-- The polls of a container, for the number of polls left. -/
def pollsSettle (env : Env) (creationId : String) (goOn : (ℕ → Answer) → Bool) :
    ℕ → (ℕ → Answer) → Bool
  | 0, _ => true
  | polls + 1, answers =>
    requestSettles env pollMessages (.get creationId []) (containerStatus env) (fun status rest =>
      if status = "FINISHED" then goOn rest
      else if status = "ERROR" ∨ status = "EXPIRED" then true
      else pollsSettle env creationId goOn polls rest) answers

/-- A post that others follow, with the polls of the container it makes. -/
def edgeSettles (env : Env) (node : String) (edge : Edge) (goOn : (ℕ → Answer) → Bool) :
    (ℕ → Answer) → Bool :=
  postSettles env node edge fun id rest =>
    if edge = .media then pollsSettle env id goOn maxPolls rest else goOn rest

/-- The exchange with Meta, by the edges that are posted to; the last identifier can be stored. -/
def exchangeSettles (env : Env) (node : String) : List Edge → (ℕ → Answer) → Bool
  | [] => fun _ => true
  | [edge] => postSettles env node edge fun id _ => fitsVarchar 255 id
  | edge :: edges => edgeSettles env node edge (exchangeSettles env node edges)

/-- The whole delivery: nothing is asked for, or the storage client signs every image and the exchange
is well. -/
def deliverySettles (env : Env) (w : DeliveryWorld) (connection : ChannelConnection)
    (media : List MediaAsset) : Bool :=
  let answered := exchangeSettles env connection.providerChannelId
    (edges connection.channel media.length) w.answers
  if ¬ (1 ≤ media.length ∧ media.length ≤ 10) ∨ ¬ env.metaConfigured ∨
      ¬ (decryptToken env connection.encryptedAccessToken).toBool then true
  else if env.b2Configured then (media.all fun a => (w.signer a.storageKey).toBool) && answered
  else rstripSlash env.relayMediaPublicBaseUrl = "" || answered

/-! ### The exchange -/

section Exchange

variable {env : Env} {α : Type} {answers : ℕ → Answer}

/-- Against the answers, the client ends in a value that meets `φ` or in a failure that can be
recorded. -/
abbrev Settles (φ : α → (ℕ → Answer) → Prop) (p : MetaCall α) (answers : ℕ → Answer) : Prop :=
  Meets φ (fun e => e.recorded = true) p.run answers

/-- The failures that an answer stands for have texts that can be stored. -/
theorem Messages.recorded_of_read {m : Messages} (hm : m = postMessages ∨ m = pollMessages)
    {a : Answer} {e : DeliveryError} (h : m.read a = .error e) : e.recorded = true := by
  have htexts : fitsText m.unreachable = true ∧ fitsText m.temporary = true ∧
      fitsText m.rejected = true ∧ fitsText m.invalid = true := by
    rcases hm with rfl | rfl <;> decide
  obtain ⟨hunreachable, htemporary, hrejected, hinvalid⟩ := htexts
  unfold Messages.read at h
  split at h
  · cases h; exact hunreachable
  · split at h
    · cases h; exact htemporary
    · split at h
      · cases h; exact hrejected
      · split at h
        · cases h
        · cases h; exact hinvalid

/-- A request and the reading of its answer. -/
theorem request_settles {m : Messages} (hm : m = postMessages ∨ m = pollMessages) {q q' : MetaRequest}
    (hq : q.url env.toSettings = q'.url env.toSettings) {read : Json → Except DeliveryError α}
    {φ : α → (ℕ → Answer) → Prop} {goOn : α → (ℕ → Answer) → Bool}
    (hφ : ∀ x rest, φ x rest ↔ goOn x rest = true) :
    Settles φ (request env m q >>= fun payload => ExceptT.mk (.done (read payload))) answers ↔
      requestSettles env m q' read goOn answers = true := by
  unfold Settles request requestSettles
  rw [meets_bind, ← hq]
  cases hurl : env.urlAccepted (q.url env.toSettings) with
  | false => simp [DeliveryError.recorded]
  | true =>
    rw [if_pos rfl, meets_bind, meets_send]
    cases hread : m.read (answers 0) with
    | error e => simp [Messages.recorded_of_read hm hread]
    | ok payload =>
      simp only [ExceptT.run_mk, Bool.true_and]
      cases hr : read payload with
      | error e => simp [hr]
      | ok x => simp [hr, hφ]

theorem postForId_settles {node : String} {edge : Edge} {data : List (String × String)}
    {φ : String → (ℕ → Answer) → Prop} {goOn : String → (ℕ → Answer) → Bool}
    (hφ : ∀ id rest, φ id rest ↔ goOn id rest = true) :
    Settles φ (postForId env node edge data) answers ↔
      postSettles env node edge goOn answers = true :=
  request_settles (.inl rfl) rfl hφ

theorem waitForInstagramContainer_settles {creationId accessToken : String} {n : ℕ}
    {φ : Unit → (ℕ → Answer) → Prop} {goOn : (ℕ → Answer) → Bool}
    (hφ : ∀ rest, φ () rest ↔ goOn rest = true) :
    Settles φ (waitForInstagramContainer env creationId accessToken n) answers ↔
      pollsSettle env creationId goOn n answers = true := by
  induction n generalizing answers with
  | zero => exact iff_of_true (show fitsText _ = true by decide) rfl
  | succ n ih =>
    rw [waitForInstagramContainer, ← bind_assoc, Settles, meets_bind, pollsSettle]
    have hurl : (pollRequest creationId accessToken).url env.toSettings =
      (MetaRequest.get creationId []).url env.toSettings := rfl
    refine request_settles (.inr rfl) hurl fun status rest => ?_
    split
    · exact hφ rest
    · split
      · exact iff_of_true (show fitsText _ = true by decide) rfl
      · exact ih

theorem edge_settles {node : String} {edge : Edge} (hedge : edge ≠ .media)
    {data : List (String × String)} {φ : String → (ℕ → Answer) → Prop} {goOn : (ℕ → Answer) → Bool}
    (hφ : ∀ id rest, φ id rest ↔ goOn rest = true) :
    Settles φ (postForId env node edge data) answers ↔
      edgeSettles env node edge goOn answers = true := by
  refine postForId_settles fun id rest => ?_
  rw [if_neg hedge]
  exact hφ id rest

theorem finishedContainer_settles {node accessToken : String} {data : List (String × String)}
    {φ : String → (ℕ → Answer) → Prop} {goOn : (ℕ → Answer) → Bool}
    (hφ : ∀ id rest, φ id rest ↔ goOn rest = true) :
    Settles φ (finishedContainer env node accessToken data) answers ↔
      edgeSettles env node .media goOn answers = true := by
  rw [finishedContainer, Settles, meets_bind]
  refine postForId_settles fun id rest => ?_
  rw [if_pos rfl, meets_bind]
  exact waitForInstagramContainer_settles fun rest => hφ id rest

/-- The same edge once for each element of a list. -/
theorem gather_settles {node : String} {edge : Edge} {f : String → MetaCall String}
    (hf : ∀ u {φ : String → (ℕ → Answer) → Prop} {goOn : (ℕ → Answer) → Bool} {answers},
      (∀ id rest, φ id rest ↔ goOn rest = true) →
        (Settles φ (f u) answers ↔ edgeSettles env node edge goOn answers = true))
    {last : Edge} {tail : List Edge} (l : List String) {φ : List String → (ℕ → Answer) → Prop}
    (hφ : ∀ ids rest, φ ids rest ↔ exchangeSettles env node (last :: tail) rest = true) :
    Settles φ (gather f l) answers ↔
      exchangeSettles env node (List.replicate l.length edge ++ last :: tail) answers = true := by
  induction l generalizing answers φ with
  | nil => exact hφ [] answers
  | cons u l ih =>
    have hcons : exchangeSettles env node (List.replicate (u :: l).length edge ++ last :: tail) =
        edgeSettles env node edge
          (exchangeSettles env node (List.replicate l.length edge ++ last :: tail)) := by
      cases l <;> rfl
    rw [gather, Settles, meets_bind, hcons]
    refine hf u fun id rest => ?_
    rw [meets_bind]
    exact ih fun ids rest => hφ (id :: ids) rest

/-- **The client settles exactly when the exchange does.** -/
theorem publishImages_settles {call : PublishCall} (hmin : 1 ≤ call.imageUrls.length)
    (hmax : call.imageUrls.length ≤ 10) :
    Settles (fun id _ => fitsVarchar 255 id = true) (publishImages env call) answers ↔
      exchangeSettles env call.connection.providerChannelId
        (edges call.connection.channel call.imageUrls.length) answers = true := by
  unfold publishImages
  dsimp only
  split
  · rename_i hnil
    rw [hnil] at hmin
    cases hmin
  rename_i imageUrl imageUrls hcons
  rw [if_neg (by rw [← hcons]; omega), ← hcons]
  split
  · rename_i hchannel
    rw [hchannel, edges]
    split
    · rename_i hmany
      rw [publishFacebookCarousel, uploadPhotos_eq, Settles, meets_bind]
      exact gather_settles (fun u => edge_settles (by decide)) _ fun ids rest =>
        postForId_settles fun id rest => Iff.rfl
    · exact postForId_settles fun id rest => Iff.rfl
  · rename_i hchannel
    rw [hchannel, edges]
    split
    · rename_i hmany
      rw [publishInstagramCarousel, createChildren_eq, Settles, meets_bind, List.replicate_succ']
      rw [List.append_assoc]
      refine gather_settles (fun u => finishedContainer_settles) _ fun ids rest => ?_
      rw [meets_bind]
      exact finishedContainer_settles fun id rest => postForId_settles fun id rest => Iff.rfl
    · rw [publishInstagramImage, Settles, meets_bind]
      exact finishedContainer_settles fun id rest => postForId_settles fun id rest => Iff.rfl
  · rename_i hchannel
    rw [hchannel]
    exact iff_of_true (show fitsText _ = true by decide) rfl

end Exchange

/-! ### The delivery -/

section Delivery

variable {c : Settings} {signer : Signer} {media : List MediaAsset}

theorem imageUrls_ok (h : ∀ a ∈ media, ∃ url, publishableImageUrl c signer a = .ok url) :
    ∃ urls, imageUrls c signer media = .ok urls ∧ urls.length = media.length := by
  induction media with
  | nil => exact ⟨[], rfl, rfl⟩
  | cons a media ih =>
    obtain ⟨url, hurl⟩ := h a List.mem_cons_self
    obtain ⟨urls, hurls, hlength⟩ := ih fun b hb => h b (List.mem_cons_of_mem _ hb)
    refine ⟨url :: urls, ?_, congrArg (· + 1) hlength⟩
    rw [imageUrls, hurl, hurls]
    rfl

/-- An exception of the storage client escapes. -/
theorem imageUrls_raises (hconfigured : c.b2Configured = true)
    (h : ¬ ∀ a ∈ media, (signer a.storageKey).toBool = true) :
    ∃ className, imageUrls c signer media = .error (.uncaught className) := by
  induction media with
  | nil => exact absurd (fun a ha => by cases ha) h
  | cons a media ih =>
    cases hsigned : signer a.storageKey with
    | error className =>
      refine ⟨className, ?_⟩
      rw [imageUrls, publishableImageUrl, presignedUrl, if_pos hconfigured, hsigned]
    | ok url =>
      -- the exception comes from a later image
      have hrest : ¬ ∀ b ∈ media, (signer b.storageKey).toBool = true := by
        intro hall
        refine h fun b hb => ?_
        rcases List.mem_cons.1 hb with rfl | hb
        · rw [hsigned]; rfl
        · exact hall b hb
      obtain ⟨className, hraised⟩ := ih hrest
      refine ⟨className, ?_⟩
      rw [imageUrls, publishableImageUrl, presignedUrl, if_pos hconfigured, hsigned]
      dsimp only
      rw [hraised]
      rfl

theorem recordable_iff {r : Except DeliveryError String} :
    recordable r = true ↔ (∀ id, r = .ok id → fitsVarchar 255 id = true) ∧
      ∀ e, r = .error e → e.recorded = true := by
  cases r <;> simp [recordable]

/-- The failures before anything is asked for can be recorded. -/
theorem decryptToken_recorded {env : Env} {ciphertext message : String}
    (h : decryptToken env ciphertext = .error message) :
    (DeliveryError.tokenEncryptionError message).recorded = true := by
  have hcases : message = "Stored token material cannot be decrypted." ∨
      message = "Token encryption is not configured." := by
    unfold decryptToken at h
    split at h
    · split at h
      · cases h
      · cases h; exact .inl rfl
    · cases h; exact .inr rfl
  rcases hcases with rfl | rfl <;> decide

section Deliver

variable {env : Env} {w : DeliveryWorld} {claim : Claim} {s : Store}

/-- Nothing is sent. -/
theorem deliver_of_error {e : DeliveryError} (h : publishArguments env none w.signer claim
    (orderedMediaAssets s claim.postVariant) = .error e) :
    recordable ((deliver env none w.signer claim s).exec w.answers).2 = e.recorded := by
  rw [deliver, h]
  rfl

/-- The arguments of the publisher are there. -/
theorem deliver_of_ok {call : PublishCall} (h : publishArguments env none w.signer claim
    (orderedMediaAssets s claim.postVariant) = .ok call) (hmin : 1 ≤ call.imageUrls.length)
    (hmax : call.imageUrls.length ≤ 10) :
    recordable ((deliver env none w.signer claim s).exec w.answers).2 =
      exchangeSettles env call.connection.providerChannelId
        (edges call.connection.channel call.imageUrls.length) w.answers := by
  rw [deliver, h, Bool.eq_iff_iff, recordable_iff, ← publishImages_settles hmin hmax]
  exact meets_exec.symm

/-- The failures before anything is asked for. -/
theorem publishArguments_unsent {media : List MediaAsset}
    (h : ¬ (1 ≤ media.length ∧ media.length ≤ 10) ∨ ¬ env.metaConfigured = true ∨
      ¬ (decryptToken env claim.channelConnection.encryptedAccessToken).toBool = true) :
    ∃ e, publishArguments env none w.signer claim media = .error e ∧ e.recorded = true := by
  by_cases hcount : 1 ≤ media.length ∧ media.length ≤ 10
  swap
  · exact ⟨_, if_pos hcount, show fitsText _ = true by decide⟩
  by_cases hmeta : env.metaConfigured = true
  swap
  · refine ⟨.metaConfigurationError "Meta OAuth is not configured.", ?_,
      show fitsText _ = true by decide⟩
    rw [publishArguments, if_neg (not_not.2 hcount), if_pos ⟨rfl, hmeta⟩]
  have htoken := (h.resolve_left (not_not.2 hcount)).resolve_left (not_not.2 hmeta)
  cases hdecrypted : decryptToken env claim.channelConnection.encryptedAccessToken with
  | error message =>
    refine ⟨.tokenEncryptionError message, ?_, decryptToken_recorded hdecrypted⟩
    rw [publishArguments, if_neg (not_not.2 hcount), if_neg (by simp [hmeta]), hdecrypted]
  | ok accessToken => exact absurd (by rw [hdecrypted]; rfl) htoken

/-- Otherwise the images are asked for. -/
theorem publishArguments_asked {media : List MediaAsset}
    (hcount : 1 ≤ media.length ∧ media.length ≤ 10) (hmeta : env.metaConfigured = true)
    (htoken : (decryptToken env claim.channelConnection.encryptedAccessToken).toBool = true) :
    ∃ accessToken, publishArguments env none w.signer claim media =
      (imageUrls env.toSettings w.signer media).map fun urls =>
        ⟨claim.channelConnection, accessToken, claim.postVariant.body, urls⟩ := by
  cases hdecrypted : decryptToken env claim.channelConnection.encryptedAccessToken with
  | error message => rw [hdecrypted] at htoken; cases htoken
  | ok accessToken =>
    refine ⟨accessToken, ?_⟩
    rw [publishArguments, if_neg (not_not.2 hcount), if_neg (by simp [hmeta]), hdecrypted]
    cases imageUrls env.toSettings w.signer media <;> rfl

/-- **The outcome of a delivery can be recorded exactly when it settles.** -/
theorem deliver_recordable :
    recordable ((deliver env none w.signer claim s).exec w.answers).2 =
      deliverySettles env w claim.channelConnection (orderedMediaAssets s claim.postVariant) := by
  set media := orderedMediaAssets s claim.postVariant with hmedia
  unfold deliverySettles
  split
  · rename_i hunsent
    obtain ⟨e, harguments, hrecorded⟩ := publishArguments_unsent hunsent
    exact (deliver_of_error harguments).trans hrecorded
  rename_i hasked
  rw [not_or, not_or, not_not, not_not, not_not] at hasked
  obtain ⟨hcount, hmeta, htoken⟩ := hasked
  obtain ⟨accessToken, harguments⟩ := publishArguments_asked (w := w) hcount hmeta htoken
  -- the exchange, when there is a URL for each image
  have hsent : (∀ a ∈ media, ∃ url, publishableImageUrl env.toSettings w.signer a = .ok url) →
      recordable ((deliver env none w.signer claim s).exec w.answers).2 =
        exchangeSettles env claim.channelConnection.providerChannelId
          (edges claim.channelConnection.channel media.length) w.answers := by
    intro hall
    obtain ⟨urls, hurls, hlength⟩ := imageUrls_ok hall
    rw [hurls] at harguments
    rw [← hlength] at hcount ⊢
    exact deliver_of_ok harguments hcount.1 hcount.2
  split
  · rename_i hconfigured
    by_cases hsigned : ∀ a ∈ media, (w.signer a.storageKey).toBool = true
    · rw [List.all_eq_true.2 hsigned, Bool.true_and]
      refine hsent fun a ha => ?_
      have ha' := hsigned a ha
      rw [publishableImageUrl, presignedUrl, if_pos hconfigured]
      cases hs : w.signer a.storageKey with
      | error className => rw [hs] at ha'; cases ha'
      | ok url => exact ⟨url, rfl⟩
    · obtain ⟨className, hraised⟩ := imageUrls_raises hconfigured hsigned
      rw [hraised] at harguments
      rw [deliver_of_error harguments, Bool.eq_false_iff.2 fun hall => hsigned (List.all_eq_true.1 hall)]
      rfl
  · rename_i hconfigured
    have hurl : ∀ a, publishableImageUrl env.toSettings w.signer a =
        if rstripSlash env.relayMediaPublicBaseUrl ≠ "" then
          .ok (rstripSlash env.relayMediaPublicBaseUrl ++ "/" ++ Text.quote a.storageKey)
        else .error (.mediaDeliveryUnavailable "Media delivery is not configured.") := by
      intro a
      rw [publishableImageUrl, presignedUrl, if_neg hconfigured]
    by_cases hbase : rstripSlash env.relayMediaPublicBaseUrl = ""
    · obtain ⟨a, rest, hrest⟩ := List.exists_cons_of_length_pos hcount.1
      rw [hrest, imageUrls, hurl, if_neg (not_not.2 hbase)] at harguments
      rw [deliver_of_error (hrest ▸ harguments), hbase]
      exact (show fitsText _ = true by decide)
    · rw [decide_eq_false hbase, Bool.false_or]
      exact hsent fun a _ => ⟨_, by rw [hurl, if_pos hbase]⟩

end Deliver

end Delivery

/-! ### The two transactions -/

section Transactions

variable {s : Store} {claim : Claim}

/-- A due publication is claimed. -/
theorem claimPublication_ok {p : Publication} {v : PostVariant} {c : ChannelConnection}
    {started : Time} {attemptId : Uuid} (hp : p ∈ s.publications) (hdue : p.due started = true)
    (hv : s.variants.get? p.postVariant = some v)
    (hc : s.connections.get? p.channelConnection = some c)
    (hattempted : Attempted p.state (attemptsOf s p.id)) (hfresh : ∀ a ∈ s.attempts, a.id ≠ attemptId)
    (now : Time) : ∃ attempts, claimPublication started now attemptId p.id s =
      .ok (some ⟨p.claimed now, v, c, newAttempt started now attemptId p.id
          ((attemptsOf s p.id).length + 1)⟩,
        { s with attempts }.updatePublication p.id ⟨(·.claimed now), fun _ => rfl⟩) := by
  have hfound : (s.publications.find? fun q => q.id = p.id && q.due started) = some p := by
    refine Table.find?_of_key hp (by simp [hdue]) fun q hq => ?_
    simp only [Bool.and_eq_true, decide_eq_true_eq] at hq
    exact hq.1
  set attempt := newAttempt started now attemptId p.id ((attemptsOf s p.id).length + 1)
  -- the number is one that no attempt of the publication has
  have hunused : (s.attempts.find? fun a => a.publication = attempt.publication &&
      a.attemptNumber = attempt.attemptNumber) = none := by
    rw [Table.find?_eq_none]
    intro a ha hnumber
    rw [Bool.and_eq_true, decide_eq_true_eq, decide_eq_true_eq] at hnumber
    have hpublication : a.publication = p.id := hnumber.1
    have hmem : a ∈ attemptsOf s p.id := Table.mem_where.2 ⟨ha, decide_eq_true hpublication⟩
    have hrange : a.attemptNumber ∈ List.range' 1 (attemptsOf s p.id).length :=
      hattempted.numbered ▸ List.mem_map_of_mem hmem
    have hlt : a.attemptNumber = (attemptsOf s p.id).length + 1 := hnumber.2
    rw [List.mem_range'_1, hlt] at hrange
    omega
  obtain ⟨attempts, hattempts⟩ := Table.insert?_isSome (t := s.attempts) (r := attempt) hfresh
  refine ⟨attempts, ?_⟩
  have hcreate : createAttemptRow s attempt = .ok attempts := by
    rw [createAttemptRow, hunused]
    exact create_eq_ok.2 hattempts
  rw [claimPublication, hfound]
  dsimp only
  rw [hv, hc]
  dsimp only
  rw [hcreate]
  rfl

section Held

variable {result : Except DeliveryError String}

theorem Held.rows (h : Held s claim) : s.publications.get? claim.publication.id = some claim.publication ∧
    s.attempts.get? claim.attempt.id = some claim.attempt :=
  ⟨Table.get?_key h.publication, Table.get?_key h.mem_attempts.1⟩

theorem Held.finishPublished_ok (h : Held s claim) {id : String} (hid : fitsVarchar 255 id = true)
    (now : Time) :
    ∃ answer t, finishPublished now claim id s = .ok (answer, t) ∧
      Settled claim.publication.id claim.attempt.id (.ok answer, t) := by
  rw [finishPublished, h.rows.1, h.rows.2]
  dsimp only
  rw [if_neg (not_not.2 hid)]
  refine ⟨_, _, rfl, claim.attempt.succeeded now, ?_, claim.publication.succeeded now id, ?_, rfl,
    h.mem_attempts.2, rfl, Option.some_ne_none _, ?_, rfl, rfl⟩
  · exact Table.mem_update_self h.mem_attempts.1 rfl
  · exact Table.mem_update_self h.publication rfl
  · exact fun ho => by cases ho

theorem Held.finishFailure_ok (h : Held s claim) {error : DeliveryError}
    (htext : fitsText error.message = true) (transient : Bool) (now : Time) (env : Env) :
    ∃ answer t, finishFailure env now claim error transient s = .ok (answer, t) ∧
      Settled claim.publication.id claim.attempt.id (.ok answer, t) := by
  rw [finishFailure, h.rows.1, h.rows.2]
  dsimp only
  rw [if_neg (not_not.2 htext)]
  -- the answer, the attempt and the publication depend on the retry in the same way
  generalize (transient && decide ((claim.attempt.attemptNumber : ℤ) <
    env.relayPublicationMaxAttempts)) = retry
  refine ⟨_, _, rfl, claim.attempt.failed now error retry, ?_,
    claim.publication.failed now error claim.attempt.attemptNumber retry, ?_, rfl,
    h.mem_attempts.2, rfl, Option.some_ne_none _, ?_, ?_, ?_⟩
  · exact Table.mem_update_self h.mem_attempts.1 rfl
  · exact Table.mem_update_self h.publication rfl
  · cases retry <;> exact fun ho => by cases ho
  · cases retry <;> rfl
  · cases retry <;> rfl

/-- An outcome that can be recorded is. -/
theorem Held.finish_ok (h : Held s claim) (hr : recordable result = true) (now : Time) (env : Env) :
    ∃ answer t, finish env now claim result s = .ok (answer, t) ∧
      Settled claim.publication.id claim.attempt.id (.ok answer, t) := by
  cases result with
  | ok id => exact h.finishPublished_ok hr now
  | error e =>
    cases e with
    | uncaught => cases hr
    | metaPublishTransientError => exact h.finishFailure_ok hr true now env
    | _ => exact h.finishFailure_ok hr false now env

/-- Any other ends in an exception. -/
theorem Held.finish_error (h : Held s claim) (hr : recordable result = false) (now : Time) (env : Env) :
    ∃ e, finish env now claim result s = .error e := by
  have hfailure : ∀ {error : DeliveryError} {transient : Bool}, fitsText error.message = false →
      ∃ e, finishFailure env now claim error transient s = .error e := by
    intro error transient htext
    rw [finishFailure, h.rows.1, h.rows.2]
    exact ⟨_, if_pos (by simp [htext])⟩
  cases result with
  | ok id =>
    have hid : fitsVarchar 255 id = false := hr
    change ∃ e, finishPublished now claim id s = .error e
    rw [finishPublished, h.rows.1, h.rows.2]
    exact ⟨_, if_pos (by simp [hid])⟩
  | error e =>
    cases e with
    | uncaught className => exact ⟨_, rfl⟩
    | _ => exact hfailure hr

end Held

end Transactions

/-! ### Every claimed delivery -/

/-- A due publication is claimed, in every state in which publications and attempts fit together. -/
theorem Delivering.exists_claim {s : Sys} (hs : Delivering s) {started : Time} {attempt : Uuid}
    {p : Publication} {v : PostVariant} {c : ChannelConnection} (hp : p ∈ s.store.publications)
    (hdue : p.due started = true) (hv : s.store.variants.get? p.postVariant = some v)
    (hc : s.store.connections.get? p.channelConnection = some c)
    (hfresh : ∀ a ∈ s.store.attempts, a.id ≠ attempt) (now : Time) :
    ∃ claim t, claimPublication started now attempt p.id s.store = .ok (some claim, t) ∧
      Held t claim ∧ claim.publication.id = p.id ∧ claim.attempt.id = attempt ∧
      claim.attempt.completedAt = none ∧ claim.postVariant = v ∧ claim.channelConnection = c ∧
      orderedMediaAssets t v = orderedMediaAssets s.store v := by
  obtain ⟨attempts, hclaim⟩ := claimPublication_ok hp hdue hv hc (hs.attempted p hp) hfresh now
  rcases claimPublication_claimed hclaim with ⟨hnone, -⟩ | ⟨claim, hsome, hid, hclaimed⟩
  · cases hnone
  cases hsome
  have hheld := ((hs.claimed hclaimed).held 0 _ _ ⟨_, Function.update_self .., rfl⟩).2
  exact ⟨_, _, hclaim, hheld, hid, rfl, rfl, rfl, rfl, rfl⟩

/-- A call that claims its publication is settled or stranded, as its outcome can be recorded. -/
theorem settled_or_stranded {env : Env} {w : DeliveryWorld} {publication : Uuid} {s t : Store}
    {claim : Claim}
    (hclaim : claimPublication w.started w.claimedAt w.attemptId publication s = .ok (some claim, t))
    (hheld : Held t claim) (hpublication : claim.publication.id = publication)
    (hattempt : claim.attempt.id = w.attemptId) (hopen : claim.attempt.completedAt = none) :
    (recordable ((deliver env none w.signer claim t).exec w.answers).2 = true →
        Settled publication w.attemptId (publishDuePublication env none w publication s)) ∧
      (recordable ((deliver env none w.signer claim t).exec w.answers).2 = false →
        Stranded publication w.attemptId (publishDuePublication env none w publication s)) := by
  rw [publishDuePublication, hclaim, ← hpublication, ← hattempt]
  dsimp only
  constructor
  · intro hr
    obtain ⟨answer, t', hfinish, hsettled⟩ := hheld.finish_ok hr w.finishedAt env
    rw [hfinish]
    exact hsettled
  · intro hr
    obtain ⟨e, hraised⟩ := hheld.finish_error hr w.finishedAt env
    rw [hraised]
    exact ⟨claim.attempt, hheld.mem_attempts.1, claim.publication, hheld.publication, rfl,
      hheld.mem_attempts.2, rfl, hopen, hheld.publishing, e, rfl⟩

theorem Settled.not_stranded {publication attempt : Uuid} {r : Except ServiceError String × Store}
    (h : Settled publication attempt r) : ¬ Stranded publication attempt r := by
  obtain ⟨a, -, p, -, -, -, -, -, -, -, hok⟩ := h
  rintro ⟨a', -, p', -, -, -, -, -, -, e, herror⟩
  rw [hok] at herror
  cases herror

/-- **When a claimed delivery is settled.**  In every state of the system and for every deployment
that delivers, a call for a due publication records an outcome exactly when the delivery settles;
otherwise it leaves the publication as being published, with an open attempt. -/
theorem claimed_delivery_settled {env env' : Env} {publisher : Option Publisher} {s : Sys}
    (h : Reachable (relay env' publisher) s) {w : DeliveryWorld} {p : Publication}
    (hp : p ∈ s.store.publications) (hdue : p.due w.started = true)
    (hfresh : ∀ a ∈ s.store.attempts, a.id ≠ w.attemptId) :
    ∃ v c, s.store.variants.get? p.postVariant = some v ∧
      s.store.connections.get? p.channelConnection = some c ∧
      (Settled p.id w.attemptId (publishDuePublication env none w p.id s.store) ↔
        deliverySettles env w c (orderedMediaAssets s.store v) = true) ∧
      (Stranded p.id w.attemptId (publishDuePublication env none w p.id s.store) ↔
        deliverySettles env w c (orderedMediaAssets s.store v) = false) := by
  have hs := delivering_of_reachable h
  obtain ⟨v, _, c, _, hcoherent⟩ := (coherent_of_reachable h).deliveries p hp
  have hv : s.store.variants.get? p.postVariant = some v := Table.get?_eq_some.2 hcoherent.variant
  have hc : s.store.connections.get? p.channelConnection = some c :=
    Table.get?_eq_some.2 hcoherent.connection
  refine ⟨v, c, hv, hc, ?_⟩
  obtain ⟨claim, t, hclaim, hheld, hid, hattempt, hopen, rfl, rfl, hmedia⟩ :=
    hs.exists_claim hp hdue hv hc hfresh w.claimedAt
  obtain ⟨hsettled, hstranded⟩ := settled_or_stranded hclaim hheld hid hattempt hopen
  rw [deliver_recordable, hmedia] at hsettled hstranded
  cases hsettles : deliverySettles env w claim.channelConnection
      (orderedMediaAssets s.store claim.postVariant) with
  | true => exact ⟨iff_of_true (hsettled hsettles) rfl,
      iff_of_false (hsettled hsettles).not_stranded (fun h => by cases h)⟩
  | false => exact ⟨iff_of_false (fun h => h.not_stranded (hstranded hsettles)) Bool.false_ne_true,
      iff_of_true (hstranded hsettles) rfl⟩

namespace Sample

/-- The call of the worker for the sample publication: Meta answers with this. -/
def delivery (answer : Answer) : DeliveryWorld where
  started := minutes 1
  claimedAt := minutes 1
  finishedAt := minutes 1
  attemptId := .ofNat 60
  signer := (draws 0).signer
  answers _ := answer

end Sample

open Sample in
/-- Meta accepts the post and answers with a JSON array: `AttributeError` escapes, and the
publication stays as being published, with an open attempt. -/
theorem stranded_delivery : ∃ s : Sys, ∃ p : Publication,
    Reachable (relay env none) s ∧ p ∈ s.store.publications ∧
    p.due (minutes 1) = true ∧ ¬ Settled p.id (.ofNat 60) (publishDuePublication env none
      (delivery (.response 200 (.json (.arr [])))) p.id s.store) := by
  obtain ⟨es, s, tr, hs⟩ := exists_of_execute (show ((execute env none (scheduled .metaFacebookPage)
    start).any fun x => x.2.store.publications.rows.any fun p => p.due (minutes 1) &&
      (publishDuePublication env none (delivery (.response 200 (.json (.arr [])))) p.id
        x.2.store).1.toBool == false) = true by decide +kernel)
  obtain ⟨p, hp, hp'⟩ := List.any_eq_true.1 hs
  rw [Bool.and_eq_true, beq_iff_eq] at hp'
  refine ⟨s, p, ⟨_, es, start_isStart none, tr⟩, hp, hp'.1, ?_⟩
  rintro ⟨a, -, q, -, -, -, -, -, -, -, hok⟩
  rw [hok] at hp'
  cases hp'.2

open Sample in
/-- Meta answers with an identifier, and the delivery is settled. -/
theorem claimed_delivery_settled_sample : ∃ s : Sys, ∃ p : Publication, p ∈ s.store.publications ∧
    Settled p.id (.ofNat 60) (publishDuePublication env none
      (delivery (.response 200 (.json (.obj [("id", .str "1")])))) p.id s.store) := by
  obtain ⟨es, s, tr, hs⟩ := exists_of_execute (show ((execute env none (scheduled .metaFacebookPage)
    start).any fun x => x.2.store.attempts.rows.isEmpty &&
      x.2.store.publications.rows.any fun p => p.due (minutes 1) &&
        (x.2.store.variants.rows.all fun v => x.2.store.connections.rows.all fun c =>
          deliverySettles env (delivery (.response 200 (.json (.obj [("id", .str "1")])))) c
            (orderedMediaAssets x.2.store v))) = true by decide +kernel)
  rw [Bool.and_eq_true, List.isEmpty_iff] at hs
  obtain ⟨p, hp, hp'⟩ := List.any_eq_true.1 hs.2
  rw [Bool.and_eq_true] at hp'
  have hreach : Reachable (relay env none) s := ⟨_, es, start_isStart none, tr⟩
  have hfresh : ∀ a ∈ s.store.attempts, a.id ≠ .ofNat 60 := fun a ha => by
    rw [Table.mem_def, hs.1] at ha
    cases ha
  obtain ⟨v, c, hv, hc, hsettled, -⟩ := claimed_delivery_settled hreach hp hp'.1 hfresh
    (w := delivery (.response 200 (.json (.obj [("id", .str "1")]))))
  refine ⟨s, p, hp, hsettled.2 ?_⟩
  exact List.all_eq_true.1 (List.all_eq_true.1 hp'.2 v (Table.mem_of_get? hv)) c (Table.mem_of_get? hc)

end Relay
