import Relay.Execution
import Relay.Library.Staged

/-!
# The requests of one publication

`publish_images` works in stages: each posts once, and a container is then polled until it is
finished.  The last stage makes the post that the public sees.

* `Planned`: which stage follows the identifiers answered so far;
* `publishImages_follows`: the client goes by these stages;
* `meta_request_protocol`: the order of the requests in every trace.
-/

namespace Relay

open Exchange Staged

/-! ### One request -/

/-- The identifier in the answer to a post, or the failure it stands for. -/
def answeredId (env : Env) (a : Answer) : Except DeliveryError String := do
  let payload ← postMessages.read a
  payloadId env payload

/-- The status in the answer to a poll, or the failure it stands for. -/
def answeredStatus (env : Env) (a : Answer) : Except DeliveryError String := do
  let payload ← pollMessages.read a
  containerStatus env payload

section Requests

variable {env : Env} {tr : List (MetaRequest × Answer)}

theorem request_calls {m : Messages} {q : MetaRequest} {r : Except DeliveryError Json}
    (h : Calls (request env m q) tr r) :
    (tr = [] ∧ ∃ e, r = .error e) ∨ ∃ a, tr = [(q, a)] ∧ r = m.read a := by
  unfold request at h
  split at h
  · simp only [calls_bind, calls_send, calls_done] at h
    rcases h with ⟨e, -, a, -, h⟩ | ⟨_, a, _, rfl, ⟨_, rfl, ha⟩, rfl, rfl⟩
    · cases h
    · cases ha; exact .inr ⟨a, rfl, rfl⟩
  · obtain ⟨rfl, rfl⟩ := calls_throw.1 h
    exact .inl ⟨rfl, _, rfl⟩

/-- A request whose answer is read further. -/
theorem request_bind_calls {α : Type} {m : Messages} {q : MetaRequest}
    {f : Json → Except DeliveryError α} {r : Except DeliveryError α}
    (h : Calls (request env m q >>= fun payload => ExceptT.mk (.done (f payload))) tr r) :
    (tr = [] ∧ ∃ e, r = .error e) ∨ ∃ a, tr = [(q, a)] ∧ r = (m.read a >>= f) := by
  rcases calls_bind.1 h with ⟨e, rfl, hreq⟩ | ⟨tr₁, payload, tr₂, rfl, hreq, hf⟩
  · rcases request_calls hreq with ⟨rfl, -⟩ | ⟨a, rfl, ha⟩
    · exact .inl ⟨rfl, e, rfl⟩
    · exact .inr ⟨a, rfl, by rw [← ha]; rfl⟩
  · obtain ⟨rfl, rfl⟩ := calls_done.1 hf
    rcases request_calls hreq with ⟨-, e, he⟩ | ⟨a, rfl, ha⟩
    · cases he
    · exact .inr ⟨a, rfl, by rw [← ha]; rfl⟩

theorem postForId_calls {node : String} {edge : Edge} {data : List (String × String)}
    {r : Except DeliveryError String} (h : Calls (postForId env node edge data) tr r) :
    (tr = [] ∧ ∃ e, r = .error e) ∨ ∃ a, tr = [(.post node edge data, a)] ∧ r = answeredId env a :=
  request_bind_calls h

/-- The poll says that the container is neither broken nor gone. -/
def Processing (env : Env) (a : Answer) : Prop :=
  ∃ status, answeredStatus env a = .ok status ∧ status ≠ "ERROR" ∧ status ≠ "EXPIRED"

/-- The polls of a container: as many as are left at most, all the same request; when the wait
returns, none failed and the container is finished. -/
theorem waitForInstagramContainer_calls {creationId accessToken : String} {n : ℕ}
    {r : Except DeliveryError Unit}
    (h : Calls (waitForInstagramContainer env creationId accessToken n) tr r) :
    ∃ polls : List Answer, tr = polls.map (fun a => (pollRequest creationId accessToken, a)) ∧
      polls.length ≤ n ∧ (r = .ok () → (∀ a ∈ polls, Processing env a) ∧
        ∃ a ∈ polls, answeredStatus env a = .ok "FINISHED") := by
  induction n generalizing tr with
  | zero =>
    obtain ⟨rfl, rfl⟩ := calls_throw.1 h
    exact ⟨[], rfl, le_rfl, fun hr => by cases hr⟩
  | succ n ih =>
    rw [waitForInstagramContainer, ← bind_assoc] at h
    rcases calls_bind.1 h with ⟨e, rfl, hreq⟩ | ⟨tr₁, status, tr₂, rfl, hreq, hrest⟩
    · rcases request_bind_calls hreq with ⟨rfl, -⟩ | ⟨a, rfl, -⟩
      · exact ⟨[], rfl, Nat.zero_le _, fun hr => by cases hr⟩
      · exact ⟨[a], rfl, Nat.succ_le_succ (Nat.zero_le n), fun hr => by cases hr⟩
    · rcases request_bind_calls hreq with ⟨-, e, he⟩ | ⟨a, rfl, ha⟩
      · cases he
      have hstatus : answeredStatus env a = .ok status := ha.symm
      split at hrest
      · rename_i hfinished
        subst hfinished
        obtain ⟨rfl, rfl⟩ := calls_pure.1 hrest
        refine ⟨[a], rfl, Nat.succ_le_succ (Nat.zero_le n), fun _ => ⟨fun b hb => ?_, a, by simp, hstatus⟩⟩
        obtain rfl : b = a := by simpa using hb
        exact ⟨_, hstatus, by decide, by decide⟩
      · split at hrest
        · obtain ⟨rfl, rfl⟩ := calls_throw.1 hrest
          exact ⟨[a], rfl, Nat.succ_le_succ (Nat.zero_le n), fun hr => by cases hr⟩
        · rename_i hfailed
          obtain ⟨polls, rfl, hlen, hok⟩ := ih hrest
          refine ⟨a :: polls, rfl, Nat.succ_le_succ hlen, fun hr => ?_⟩
          obtain ⟨hall, b, hb, hfinished⟩ := hok hr
          refine ⟨fun c hc => ?_, b, List.mem_cons_of_mem _ hb, hfinished⟩
          rcases List.mem_cons.1 hc with rfl | hc
          · exact ⟨status, hstatus, not_or.1 hfailed⟩
          · exact hall c hc

/-- A container: its post, then its polls. -/
theorem finishedContainer_calls {channelId accessToken : String} {data : List (String × String)}
    {r : Except DeliveryError String} (h : Calls (finishedContainer env channelId accessToken data) tr r) :
    (tr = [] ∧ ∃ e, r = .error e) ∨ ∃ a id, ∃ polls : List Answer,
      tr = (.post channelId .media data, a) :: polls.map (fun p => (pollRequest id accessToken, p)) ∧
        polls.length ≤ maxPolls ∧ (polls ≠ [] → answeredId env a = .ok id) ∧
        ∀ i, r = .ok i → i = id ∧ answeredId env a = .ok id ∧ (∀ p ∈ polls, Processing env p) ∧
          ∃ p ∈ polls, answeredStatus env p = .ok "FINISHED" := by
  rcases calls_bind.1 h with ⟨e, rfl, hpost⟩ | ⟨tr₁, id, tr₂, rfl, hpost, hrest⟩
  · rcases postForId_calls hpost with ⟨rfl, -⟩ | ⟨a, rfl, -⟩
    · exact .inl ⟨rfl, e, rfl⟩
    · exact .inr ⟨a, "", [], rfl, Nat.zero_le _, fun hne => absurd rfl hne, fun i hr => by cases hr⟩
  · rcases postForId_calls hpost with ⟨-, e, he⟩ | ⟨a, rfl, ha⟩
    · cases he
    refine .inr ⟨a, id, ?_⟩
    rcases calls_bind.1 hrest with ⟨e, rfl, hwait⟩ | ⟨tr₃, _, tr₄, rfl, hwait, hpure⟩
    · obtain ⟨polls, rfl, hlen, -⟩ := waitForInstagramContainer_calls hwait
      exact ⟨polls, rfl, hlen, fun _ => ha.symm, fun i hr => by cases hr⟩
    · obtain ⟨rfl, rfl⟩ := calls_pure.1 hpure
      obtain ⟨polls, rfl, hlen, hok⟩ := waitForInstagramContainer_calls hwait
      refine ⟨polls, by simp, hlen, fun _ => ha.symm, fun i hr => ?_⟩
      cases hr
      exact ⟨rfl, ha.symm, hok rfl⟩

end Requests

/-! ### The stages -/

/-- What one stage posts; a container is polled afterwards. -/
inductive Stage
  | post (edge : Edge) (data : List (String × String))
  | container (data : List (String × String))

/-- The post of a stage. -/
def Stage.request (call : PublishCall) : Stage → MetaRequest
  | post edge data => .post call.connection.providerChannelId edge data
  | container data => .post call.connection.providerChannelId .media data

/-- The client of a stage. -/
def Stage.call (env : Env) (call : PublishCall) : Stage → MetaCall String
  | post edge data => postForId env call.connection.providerChannelId edge data
  | container data =>
    finishedContainer env call.connection.providerChannelId call.accessToken data

/-- The upload of one image of a Facebook carousel. -/
def uploadStage (call : PublishCall) (imageUrl : String) : Stage :=
  .post .photos [("url", imageUrl), ("published", "false"), ("access_token", call.accessToken)]

/-- The child of one image of an Instagram carousel. -/
def childStage (call : PublishCall) (imageUrl : String) : Stage :=
  .container
    [("image_url", imageUrl), ("is_carousel_item", "true"), ("access_token", call.accessToken)]

/-- The publication of a container. -/
def publishStage (call : PublishCall) (creationId : String) : Stage :=
  .post .mediaPublish [("creation_id", creationId), ("access_token", call.accessToken)]

/-- Which stage follows the identifiers answered so far. -/
inductive Planned (call : PublishCall) : List String → Stage → Prop
  | facebookImage {imageUrl : String} (channel : call.connection.channel = .metaFacebookPage)
      (images : call.imageUrls = [imageUrl]) :
      Planned call [] (.post .photos
        [("url", imageUrl), ("caption", call.body), ("access_token", call.accessToken)])
  | upload {ids : List String} {imageUrl : String}
      (channel : call.connection.channel = .metaFacebookPage) (many : 1 < call.imageUrls.length)
      (image : call.imageUrls[ids.length]? = some imageUrl) :
      Planned call ids (uploadStage call imageUrl)
  | feed {ids : List String} (channel : call.connection.channel = .metaFacebookPage)
      (many : 1 < call.imageUrls.length) (all : ids.length = call.imageUrls.length) :
      Planned call ids (.post .feed
        [("message", call.body), ("attached_media", attachedMedia ids),
          ("access_token", call.accessToken)])
  | instagramImage {imageUrl : String}
      (channel : call.connection.channel = .metaInstagramBusinessAccount)
      (images : call.imageUrls = [imageUrl]) :
      Planned call [] (.container
        [("image_url", imageUrl), ("caption", call.body), ("access_token", call.accessToken)])
  | publishImage {creationId imageUrl : String}
      (channel : call.connection.channel = .metaInstagramBusinessAccount)
      (images : call.imageUrls = [imageUrl]) : Planned call [creationId] (publishStage call creationId)
  | child {ids : List String} {imageUrl : String}
      (channel : call.connection.channel = .metaInstagramBusinessAccount)
      (many : 1 < call.imageUrls.length) (image : call.imageUrls[ids.length]? = some imageUrl) :
      Planned call ids (childStage call imageUrl)
  | carousel {ids : List String} (channel : call.connection.channel = .metaInstagramBusinessAccount)
      (many : 1 < call.imageUrls.length) (all : ids.length = call.imageUrls.length) :
      Planned call ids (.container
        [("media_type", "CAROUSEL"), ("children", ",".intercalate ids), ("caption", call.body),
          ("access_token", call.accessToken)])
  | publishCarousel {ids : List String} {creationId : String}
      (channel : call.connection.channel = .metaInstagramBusinessAccount)
      (many : 1 < call.imageUrls.length) (all : ids.length = call.imageUrls.length) :
      Planned call (ids ++ [creationId]) (publishStage call creationId)

/-- The stages of `publish_images`. -/
def stages (env : Env) (call : PublishCall) :
    Protocol DeliveryError MetaRequest Answer String Stage where
  next := Planned call
  call := Stage.call env call

/-- The number of stages. -/
def stageCount (call : PublishCall) : ℕ :=
  match call.connection.channel with
  | .metaFacebookPage => if 1 < call.imageUrls.length then call.imageUrls.length + 1 else 1
  | .metaInstagramBusinessAccount => if 1 < call.imageUrls.length then call.imageUrls.length + 2 else 2
  | .other _ => 0

/-- The post of the last stage is the visible one. -/
theorem Planned.place {call : PublishCall} {ids : List String} {st : Stage} (h : Planned call ids st) :
    ids.length < stageCount call ∧
      ((st.request call).visible = true ↔ ids.length + 1 = stageCount call) := by
  have hlt : ∀ {n : ℕ} {u}, call.imageUrls[n]? = some u → n < call.imageUrls.length := fun h =>
    (List.getElem?_eq_some_iff.1 h).1
  cases h with
  | facebookImage channel images =>
    simp [stageCount, channel, images, Stage.request, MetaRequest.visible, MetaRequest.field]
  | upload channel many image =>
    have := hlt image
    simp [stageCount, channel, many, uploadStage, Stage.request, MetaRequest.visible,
      MetaRequest.field]
    omega
  | feed channel many all =>
    simp [stageCount, channel, many, all, Stage.request, MetaRequest.visible]
  | instagramImage channel images =>
    simp [stageCount, channel, images, Stage.request, MetaRequest.visible]
  | publishImage channel images =>
    simp [stageCount, channel, images, publishStage, Stage.request, MetaRequest.visible]
  | child channel many image =>
    have := hlt image
    simp [stageCount, channel, many, childStage, Stage.request, MetaRequest.visible]
    omega
  | carousel channel many all =>
    simp [stageCount, channel, many, all, Stage.request, MetaRequest.visible]
  | publishCarousel channel many all =>
    simp [stageCount, channel, many, all, publishStage, Stage.request, MetaRequest.visible]

/-- Every stage but the last is followed by another. -/
theorem exists_planned {call : PublishCall} (hmin : 1 ≤ call.imageUrls.length) {ids : List String}
    (h : ids.length < stageCount call) : ∃ st, Planned call ids st := by
  unfold stageCount at h
  by_cases hmany : 1 < call.imageUrls.length
  · simp only [hmany, if_true] at h
    split at h
    · rename_i hchannel
      rcases Nat.lt_succ_iff_lt_or_eq.1 h with hlt | hall
      · exact ⟨_, .upload hchannel hmany (List.getElem?_eq_getElem hlt)⟩
      · exact ⟨_, .feed hchannel hmany hall⟩
    · rename_i hchannel
      rcases lt_trichotomy ids.length call.imageUrls.length with hlt | hall | hgt
      · exact ⟨_, .child hchannel hmany (List.getElem?_eq_getElem hlt)⟩
      · exact ⟨_, .carousel hchannel hmany hall⟩
      · rcases ids.eq_nil_or_concat with rfl | ⟨init, id, rfl⟩
        · cases hgt
        · rw [List.concat_eq_append, List.length_append, List.length_singleton] at h hgt
          rw [List.concat_eq_append]
          exact ⟨_, .publishCarousel hchannel hmany (by omega)⟩
    · cases h
  · obtain ⟨imageUrl, himages⟩ := List.length_eq_one_iff.1 (by omega : call.imageUrls.length = 1)
    simp only [hmany, if_false] at h
    split at h
    · rename_i hchannel
      obtain rfl : ids = [] := List.length_eq_zero_iff.1 (by omega)
      exact ⟨_, .facebookImage hchannel himages⟩
    · rename_i hchannel
      rcases ids with _ | ⟨id, _ | ⟨_, _⟩⟩
      · exact ⟨_, .instagramImage hchannel himages⟩
      · exact ⟨_, .publishImage hchannel himages⟩
      · simp at h
    · cases h

/-- No stage follows a visible post. -/
theorem Planned.last {call : PublishCall} {ids : List String} {st : Stage} (h : Planned call ids st)
    (hv : (st.request call).visible = true) (i : String) (st' : Stage) :
    ¬ Planned call (ids ++ [i]) st' := by
  intro h'
  have hcount := h.place.2.1 hv
  have hlt := h'.place.1
  rw [List.length_append, List.length_singleton] at hlt
  omega

/-! ### The client goes by the stages -/

section Follows

variable {env : Env} {call : PublishCall} {tr : List (MetaRequest × Answer)}
  {r : Except DeliveryError String}

/-- The uploads of a Facebook carousel are gathered. -/
theorem uploadPhotos_eq (l : List String) :
    uploadPhotos env call.connection.providerChannelId call.accessToken l =
      gather (fun u => (stages env call).call (uploadStage call u)) l := by
  induction l with
  | nil => rfl
  | cons u l ih => rw [uploadPhotos, ih]; rfl

/-- The children of an Instagram carousel are gathered. -/
theorem createChildren_eq (l : List String) :
    createChildren env call.connection.providerChannelId call.accessToken l =
      gather (fun u => (stages env call).call (childStage call u)) l := by
  induction l with
  | nil => rfl
  | cons u l ih => rw [createChildren, ih]; rfl

/-- **`publish_images` goes by its stages**; for a channel it does not know it requests nothing. -/
theorem publishImages_follows (hmin : 1 ≤ call.imageUrls.length) (hmax : call.imageUrls.length ≤ 10)
    (h : Calls (publishImages env call) tr r) :
    (tr = [] ∧ ∃ e, r = .error e) ∨ Follows (stages env call) [] tr r := by
  unfold publishImages at h
  dsimp only at h
  split at h
  · rename_i hnil
    rw [hnil] at hmin
    cases hmin
  rename_i imageUrl imageUrls hcons
  rw [if_neg (by rw [← hcons]; omega)] at h
  rw [← hcons] at h
  have hsingle : ¬ 1 < call.imageUrls.length → call.imageUrls = [imageUrl] := by
    intro hlen
    rw [hcons] at hlen ⊢
    simpa using hlen
  split at h
  · rename_i hchannel
    right
    split at h
    · rename_i hmany
      rw [publishFacebookCarousel, uploadPhotos_eq] at h
      refine .gather call.imageUrls [] (fun ids u hu => .upload hchannel hmany hu) rfl
        (fun ids tr r hlen hfeed => ?_) h
      exact .last (.feed hchannel hmany hlen) (Planned.last (.feed hchannel hmany hlen) rfl) hfeed
    · rename_i hmany
      have hplanned := Planned.facebookImage hchannel (hsingle hmany)
      exact .last hplanned
        (hplanned.last (by simp [Stage.request, MetaRequest.visible, MetaRequest.field])) h
  · rename_i hchannel
    right
    split at h
    · rename_i hmany
      rw [publishInstagramCarousel, createChildren_eq] at h
      refine .gather call.imageUrls [] (fun ids u hu => .child hchannel hmany hu) rfl
        (fun ids tr r hlen hrest => ?_) h
      refine .bind (.carousel hchannel hmany hlen) (fun i tr r hpublish => ?_) hrest
      have hplanned : Planned call (ids ++ [i]) _ := .publishCarousel hchannel hmany hlen
      exact .last hplanned (hplanned.last rfl) hpublish
    · rename_i hmany
      refine .bind (.instagramImage hchannel (hsingle hmany)) (fun i tr r hpublish => ?_) h
      have hplanned : Planned call [i] _ := .publishImage hchannel (hsingle hmany)
      exact .last hplanned (hplanned.last rfl) hpublish
  · obtain ⟨rfl, rfl⟩ := calls_throw.1 h
    exact .inl ⟨rfl, _, rfl⟩

end Follows

/-! ### The order of requests -/

/-- The exchange has not failed. -/
def Succeeded (env : Env) (x : MetaRequest × Answer) : Prop :=
  match x.1 with
  | .post _ _ _ => ∃ id, answeredId env x.2 = .ok id
  | .get _ _ => Processing env x.2

/-- A poll of the container has found it finished. -/
def FinishedIn (env : Env) (call : PublishCall) (tr : List (MetaRequest × Answer)) (id : String) :
    Prop :=
  ∃ a, (pollRequest id call.accessToken, a) ∈ tr ∧ answeredStatus env a = .ok "FINISHED"

/-- A post that was answered with an identifier, and polls for it. -/
def Block (env : Env) (call : PublishCall) (q : MetaRequest) (id : String)
    (b : List (MetaRequest × Answer)) : Prop :=
  ∃ a, ∃ polls : List Answer,
    b = (q, a) :: polls.map (fun p => (pollRequest id call.accessToken, p)) ∧
      answeredId env a = .ok id

/-- The exchanges have gathered one identifier for each URL, in the order of the URLs. -/
structure Gathered (env : Env) (call : PublishCall) (stage : String → Stage) (ids : List String)
    (tr : List (MetaRequest × Answer)) : Prop where
  count : ids.length = call.imageUrls.length
  blocks : ∃ bs : List (List (MetaRequest × Answer)), tr = bs.flatten ∧
    List.Forall₂ (fun u b => Block env call ((stage u.1).request call) u.2 b)
      (call.imageUrls.zip ids) bs

/-- The protocol that a trace with an outcome keeps. -/
structure RequestProtocol (env : Env) (call : PublishCall) (tr : List (MetaRequest × Answer))
    (r : Except DeliveryError String) : Prop where
  /-- a visible post is the last request, and the only one; all before it have succeeded -/
  visible : ∀ pre x post, tr = pre ++ x :: post → x.1.visible = true →
    post = [] ∧ ∀ y ∈ pre, y.1.visible = false ∧ Succeeded env y
  /-- a Facebook story lists one uploaded photo for each URL -/
  attached : ∀ pre x post node data, tr = pre ++ x :: post → x.1 = .post node .feed data →
    ∃ ids, x.1.field "attached_media" = some (attachedMedia ids) ∧
      Gathered env call (uploadStage call) ids pre
  /-- an Instagram carousel lists one finished child for each URL -/
  children : ∀ pre x post children, tr = pre ++ x :: post → x.1.field "children" = some children →
    ∃ ids, children = ",".intercalate ids ∧ Gathered env call (childStage call) ids pre ∧
      ∀ id ∈ ids, FinishedIn env call pre id
  /-- a container is published when it is finished -/
  creation : ∀ pre x post id, tr = pre ++ x :: post → x.1.field "creation_id" = some id →
    FinishedIn env call pre id
  /-- each post is followed by at most five polls, of the container it has made -/
  polls : ∃ bs : List (List (MetaRequest × Answer)), tr = bs.flatten ∧ ∀ b ∈ bs,
    ∃ node edge data a id, ∃ polls : List Answer,
      b = (.post node edge data, a) :: polls.map (fun p => (pollRequest id call.accessToken, p)) ∧
        polls.length ≤ 5 ∧ (polls ≠ [] → edge = .media ∧ answeredId env a = .ok id)
  /-- the identifier returned is the answer to the visible post -/
  returned : ∀ id, r = .ok id → ∃ pre x, tr = pre ++ [x] ∧ x.1.visible = true ∧
    answeredId env x.2 = .ok id
  /-- a failure is the answer to the visible post, or nothing visible is requested -/
  raised : ∀ e, r = .error e → (∀ x ∈ tr, x.1.visible = false) ∨ ∃ pre x, tr = pre ++ [x] ∧
    x.1.visible = true ∧ answeredId env x.2 = .error e

/-- The exchanges of one stage. -/
structure StageRun (env : Env) (st : Stage) (a : Answer) (id : String) (polls : List Answer)
    (r : Except DeliveryError String) : Prop where
  few : polls.length ≤ 5
  polled : polls ≠ [] → (∃ data, st = .container data) ∧ answeredId env a = .ok id
  returned : ∀ i, r = .ok i → i = id ∧ answeredId env a = .ok id ∧ ∀ p ∈ polls, Processing env p
  finished : ∀ i data, r = .ok i → st = .container data →
    ∃ p ∈ polls, answeredStatus env p = .ok "FINISHED"
  posted : ∀ edge data, st = .post edge data → polls = [] ∧ r = answeredId env a

section Order

variable {env : Env} {call : PublishCall} {st : Stage} {b tr : List (MetaRequest × Answer)}
  {r : Except DeliveryError String} {ids ids' : List String}

theorem stage_runs (h : Calls ((stages env call).call st) b r) : (b = [] ∧ ∃ e, r = .error e) ∨
    ∃ a id, ∃ polls : List Answer,
      b = (st.request call, a) :: polls.map (fun p => (pollRequest id call.accessToken, p)) ∧
        StageRun env st a id polls r := by
  cases st with
  | post edge data =>
    rcases postForId_calls h with h | ⟨a, rfl, rfl⟩
    · exact .inl h
    · refine .inr ⟨a, (answeredId env a).toOption.getD "", [], rfl, Nat.zero_le _,
        fun hne => absurd rfl hne, fun i hi => ?_, fun _ _ _ hst => ?_,
        fun _ _ _ => ⟨rfl, rfl⟩⟩
      · rw [hi]
        exact ⟨rfl, rfl, by simp⟩
      · cases hst
  | container data =>
    rcases finishedContainer_calls h with h | ⟨a, id, polls, rfl, hlen, hid, hok⟩
    · exact .inl h
    · refine .inr ⟨a, id, polls, rfl, hlen, fun hne => ⟨⟨data, rfl⟩, hid hne⟩, fun i hi => ?_,
        fun i _ hi _ => (hok i hi).2.2.2, fun _ _ hst => by cases hst⟩
      obtain ⟨hi, ha, hall, -⟩ := hok i hi
      exact ⟨hi, ha, hall⟩

/-- The exchanges of a stage that returns have succeeded. -/
theorem stage_succeeded {i : String} (h : Calls ((stages env call).call st) b (.ok i)) :
    ∀ y ∈ b, Succeeded env y := by
  rcases stage_runs h with ⟨-, e, he⟩ | ⟨a, id, polls, rfl, hrun⟩
  · cases he
  obtain ⟨rfl, ha, hall⟩ := hrun.returned i rfl
  intro y hy
  rcases List.mem_cons.1 hy with rfl | hy
  · cases st <;> exact ⟨i, ha⟩
  · obtain ⟨p, hp, rfl⟩ := List.mem_map.1 hy
    exact hall p hp

/-- In an Instagram publication, every stage but the last makes a container. -/
theorem Planned.container (h : Planned call ids st)
    (channel : call.connection.channel = .metaInstagramBusinessAccount)
    (hlast : ids.length + 1 ≠ stageCount call) : ∃ data, st = .container data := by
  have hv : (st.request call).visible = false := by
    rw [Bool.eq_false_iff]
    exact fun hv => hlast (h.place.2.1 hv)
  cases h with
  | instagramImage => exact ⟨_, rfl⟩
  | child => exact ⟨_, rfl⟩
  | carousel => exact ⟨_, rfl⟩
  | facebookImage h | upload h | feed h => rw [h] at channel; cases channel
  | publishImage | publishCarousel => cases hv

/-- An identifier that an Instagram publication has gathered is that of a finished container. -/
theorem finishedIn_of_advances {bs : List (List (MetaRequest × Answer))} {ids : List String}
    (h : Advances (stages env call) [] bs ids)
    (channel : call.connection.channel = .metaInstagramBusinessAccount)
    (hlast : ids.length < stageCount call) : ∀ id ∈ ids, FinishedIn env call bs.flatten id := by
  intro id hid
  rcases h.exists_stage hid with hnil | ⟨ids₁, st, b, hpre, hnext, hrun, hsub⟩
  · cases hnil
  have hlen : ids₁.length + 1 ≠ stageCount call := by
    have := hpre.length_le
    rw [List.length_append, List.length_singleton] at this
    omega
  obtain ⟨data, rfl⟩ := hnext.container channel hlen
  rcases stage_runs hrun with ⟨-, e, he⟩ | ⟨a, id', polls, rfl, hstage⟩
  · cases he
  obtain ⟨rfl, -, -⟩ := hstage.returned id rfl
  obtain ⟨p, hp, hfinished⟩ := hstage.finished id data rfl rfl
  exact ⟨p, hsub _ (List.mem_cons_of_mem _ (List.mem_map.2 ⟨p, hp, rfl⟩)), hfinished⟩

/-- Stages over the images gather an identifier for each. -/
theorem gathered_of_advances {stage : String → Stage} {bs : List (List (MetaRequest × Answer))}
    (hstage : ∀ ids st, Planned call ids st → ids.length < call.imageUrls.length →
      ∃ u, call.imageUrls[ids.length]? = some u ∧ st = stage u)
    (h : Advances (stages env call) ids bs ids') (hlen : ids'.length = call.imageUrls.length) :
    List.Forall₂ (fun u b => Block env call ((stage u.1).request call) u.2 b)
      ((call.imageUrls.zip ids').drop ids.length) bs := by
  induction h with
  | stay ids =>
    rw [List.drop_eq_nil_of_le (by simp [hlen])]
    exact .nil
  | @stage ids ids' st b i bs next run rest ih =>
    obtain ⟨t, ht⟩ := rest.isPrefix
    have hlt : ids.length < call.imageUrls.length := by
      rw [← hlen, ← ht]
      simp only [List.length_append, List.length_singleton]
      omega
    obtain ⟨u, hu, rfl⟩ := hstage ids st next hlt
    have hi : ids'[ids.length]? = some i := by rw [← ht]; simp
    have hzip : (call.imageUrls.zip ids')[ids.length]? = some (u, i) := by
      rw [List.getElem?_zip_eq_some]
      exact ⟨hu, hi⟩
    rw [List.drop_eq_getElem?_toList_append, hzip]
    refine .cons ?_ (by simpa using ih hlen)
    rcases stage_runs run with ⟨-, e, he⟩ | ⟨a, id, polls, rfl, hrun⟩
    · cases he
    obtain ⟨rfl, ha, -⟩ := hrun.returned i rfl
    exact ⟨a, polls, rfl, ha⟩

/-- An exchange of a run is the post of a stage, with the polls that follow it, or a poll. -/
theorem position_cases {pre post before after rest : List (MetaRequest × Answer)}
    {x : MetaRequest × Answer} {bs : List (List (MetaRequest × Answer))}
    {res : Except DeliveryError String}
    (h : Position (stages env call) ids pre x post r bs ids' st before after rest res) :
    (∃ a id, ∃ polls : List Answer, x = (st.request call, a) ∧ pre = bs.flatten ∧
      after = polls.map (fun p => (pollRequest id call.accessToken, p)) ∧
        StageRun env st a id polls res) ∨ ∃ id, x.1 = pollRequest id call.accessToken := by
  rcases stage_runs h.run with ⟨hnil, -⟩ | ⟨a, id, polls, hb, hrun⟩
  · simp at hnil
  cases before with
  | nil =>
    obtain ⟨rfl, rfl⟩ : x = (st.request call, a) ∧ after = _ := by simpa using hb
    exact .inl ⟨a, id, polls, rfl, by simpa using h.pre_eq, rfl, hrun⟩
  | cons y before =>
    obtain ⟨-, htail⟩ : y = _ ∧ before ++ x :: after = _ := by simpa using hb
    have hx : x ∈ polls.map (fun p => (pollRequest id call.accessToken, p)) :=
      htail ▸ List.mem_append_right _ List.mem_cons_self
    obtain ⟨p, -, rfl⟩ := List.mem_map.1 hx
    exact .inr ⟨id, rfl⟩

/-- A visible post ends the trace. -/
theorem visible_last (h : Follows (stages env call) [] tr r)
    {pre post : List (MetaRequest × Answer)} {x : MetaRequest × Answer} (ht : tr = pre ++ x :: post)
    (hv : x.1.visible = true) :
    post = [] ∧ r = answeredId env x.2 ∧ ∀ y ∈ pre, Succeeded env y := by
  obtain ⟨bs, ids', st, before, after, rest, res, hpos⟩ := h.position ht
  rcases position_cases hpos with ⟨a, id, polls, rfl, hpre, hafter, hrun⟩ | ⟨id, hpoll⟩
  · have hplanned : Planned call ids' st := hpos.next
    have hsucceeded : ∀ y ∈ pre, Succeeded env y := by
      rw [hpre]
      exact hpos.advances.forall_mem fun _ _ _ _ _ hcall => stage_succeeded hcall
    cases st with
    | container => cases hv
    | post edge data =>
      obtain ⟨rfl, hres⟩ := hrun.posted edge data rfl
      have hpost : post = rest := by simpa [hafter] using hpos.post_eq
      cases ha : answeredId env a with
      | error e =>
        obtain ⟨hrest, hr⟩ := hpos.failed e (hres.trans ha)
        exact ⟨hpost.trans hrest, hr, hsucceeded⟩
      | ok i =>
        obtain ⟨hrest, init, j, hij, hr⟩ :=
          (hpos.goes_on i (hres.trans ha)).ended (hplanned.last hv i)
        obtain ⟨-, rfl⟩ : ids' = init ∧ i = j := by simpa using hij
        exact ⟨hpost.trans hrest, hr, hsucceeded⟩
  · rw [hpoll] at hv
    cases hv

/-- The request of a stage other than a story, a carousel or a publication has no such field. -/
theorem Planned.children (h : Planned call ids st) {children : String}
    (hf : (st.request call).field "children" = some children) :
    call.connection.channel = .metaInstagramBusinessAccount ∧ 1 < call.imageUrls.length ∧
      ids.length = call.imageUrls.length ∧ children = ",".intercalate ids := by
  cases h with
  | carousel channel many all =>
    refine ⟨channel, many, all, ?_⟩
    simpa [Stage.request, MetaRequest.field] using hf.symm
  | _ => simp [uploadStage, childStage, publishStage, Stage.request, MetaRequest.field] at hf

theorem Planned.creation (h : Planned call ids st) {id : String}
    (hf : (st.request call).field "creation_id" = some id) :
    call.connection.channel = .metaInstagramBusinessAccount ∧ id ∈ ids := by
  cases h with
  | publishImage channel =>
    refine ⟨channel, ?_⟩
    simpa [publishStage, Stage.request, MetaRequest.field] using hf.symm
  | @publishCarousel _ creationId channel =>
    refine ⟨channel, ?_⟩
    have : id = creationId := by simpa [publishStage, Stage.request, MetaRequest.field] using hf.symm
    simp [this]
  | _ => simp [uploadStage, childStage, Stage.request, MetaRequest.field] at hf

theorem Planned.attached (h : Planned call ids st) {node : String} {data : List (String × String)}
    (hf : st.request call = .post node .feed data) :
    call.connection.channel = .metaFacebookPage ∧ 1 < call.imageUrls.length ∧
      ids.length = call.imageUrls.length ∧
      (st.request call).field "attached_media" = some (attachedMedia ids) := by
  cases h with
  | feed channel many all => exact ⟨channel, many, all, by simp [Stage.request, MetaRequest.field]⟩
  | _ => simp [uploadStage, childStage, publishStage, Stage.request] at hf

/-- The stage of an image in a carousel. -/
theorem Planned.image_facebook (channel : call.connection.channel = .metaFacebookPage)
    (many : 1 < call.imageUrls.length) (h : Planned call ids st)
    (hlt : ids.length < call.imageUrls.length) :
    ∃ u, call.imageUrls[ids.length]? = some u ∧ st = uploadStage call u := by
  cases h with
  | upload _ _ image => exact ⟨_, image, rfl⟩
  | facebookImage _ images => rw [images] at many; exact absurd many (lt_irrefl _)
  | feed _ _ all => exact absurd all hlt.ne
  | instagramImage h | publishImage h | child h | carousel h | publishCarousel h =>
    rw [channel] at h; cases h

theorem Planned.image_instagram (channel : call.connection.channel = .metaInstagramBusinessAccount)
    (many : 1 < call.imageUrls.length) (h : Planned call ids st)
    (hlt : ids.length < call.imageUrls.length) :
    ∃ u, call.imageUrls[ids.length]? = some u ∧ st = childStage call u := by
  cases h with
  | child _ _ image => exact ⟨_, image, rfl⟩
  | instagramImage _ images | publishImage _ images =>
    rw [images] at many; exact absurd many (lt_irrefl _)
  | carousel _ _ all => exact absurd all hlt.ne
  | publishCarousel _ _ all =>
    rw [List.length_append] at hlt
    omega
  | facebookImage h | upload h | feed h => rw [channel] at h; cases h

end Order

/-- **The requests of one publication keep the protocol**, whatever is answered. -/
theorem meta_request_protocol {env : Env} {call : PublishCall} {tr : List (MetaRequest × Answer)}
    {r : Except DeliveryError String} (hmin : 1 ≤ call.imageUrls.length)
    (hmax : call.imageUrls.length ≤ 10) (h : Calls (publishImages env call) tr r) :
    RequestProtocol env call tr r := by
  rcases publishImages_follows hmin hmax h with ⟨rfl, e, rfl⟩ | h
  · refine ⟨fun pre _ _ ht => ?_, fun pre _ _ _ _ ht => ?_, fun pre _ _ _ ht => ?_,
      fun pre _ _ _ ht => ?_, ⟨[], rfl, by simp⟩, fun _ hr => ?_, fun _ _ => .inl (by simp)⟩
    · simp at ht
    · simp at ht
    · simp at ht
    · simp at ht
    · cases hr
  refine ⟨fun pre x post ht hv => ?_, fun pre x post node data ht hx => ?_,
    fun pre x post children ht hx => ?_, fun pre x post id ht hx => ?_, ?_, fun id hr => ?_,
    fun e hr => ?_⟩
  · obtain ⟨hpost, -, hsucceeded⟩ := visible_last h ht hv
    refine ⟨hpost, fun y hy => ⟨?_, hsucceeded y hy⟩⟩
    rw [Bool.eq_false_iff]
    intro hvy
    obtain ⟨pre₁, pre₂, rfl⟩ := List.append_of_mem hy
    have := (visible_last h (ht.trans (by rw [List.append_assoc]; rfl)) hvy).1
    simp at this
  · obtain ⟨bs, ids, st, before, after, rest, res, hpos⟩ := h.position ht
    rcases position_cases hpos with ⟨a, id, polls, rfl, rfl, -, -⟩ | ⟨id, hpoll⟩
    · obtain ⟨channel, many, all, hfield⟩ := Planned.attached hpos.next hx
      exact ⟨ids, hfield, all, bs, rfl, gathered_of_advances
        (fun _ _ hst hlt => hst.image_facebook channel many hlt) hpos.advances all⟩
    · rw [hpoll] at hx; cases hx
  · obtain ⟨bs, ids, st, before, after, rest, res, hpos⟩ := h.position ht
    rcases position_cases hpos with ⟨a, id, polls, rfl, rfl, -, -⟩ | ⟨id, hpoll⟩
    · obtain ⟨channel, many, all, rfl⟩ := Planned.children hpos.next hx
      exact ⟨ids, rfl, ⟨all, bs, rfl, gathered_of_advances
        (fun _ _ hst hlt => hst.image_instagram channel many hlt) hpos.advances all⟩,
        finishedIn_of_advances hpos.advances channel (Planned.place hpos.next).1⟩
    · rw [hpoll] at hx; cases hx
  · obtain ⟨bs, ids, st, before, after, rest, res, hpos⟩ := h.position ht
    rcases position_cases hpos with ⟨a, id', polls, rfl, rfl, -, -⟩ | ⟨id', hpoll⟩
    · obtain ⟨channel, hid⟩ := Planned.creation hpos.next hx
      exact finishedIn_of_advances hpos.advances channel (Planned.place hpos.next).1 id hid
    · rw [hpoll] at hx; cases hx
  · obtain ⟨bs, rfl, hbs⟩ := h.blocks
    refine ⟨bs.filter (!·.isEmpty), (List.flatten_filter_not_isEmpty).symm, fun b hb => ?_⟩
    obtain ⟨hb, hne⟩ := List.mem_filter.1 hb
    obtain ⟨ids, st, res, -, hcall⟩ := hbs b hb
    rcases stage_runs hcall with ⟨rfl, -⟩ | ⟨a, id, polls, rfl, hrun⟩
    · simp at hne
    · cases st with
      | post edge data =>
        exact ⟨_, edge, data, a, id, polls, rfl, hrun.few,
          fun hne => absurd (hrun.posted edge data rfl).1 hne⟩
      | container data =>
        exact ⟨_, .media, data, a, id, polls, rfl, hrun.few, fun hne => ⟨rfl, (hrun.polled hne).2⟩⟩
  · rcases h.returned hr with ⟨-, init, hnil, -⟩ | ⟨ids, st, b, tr₁, rfl, hnext, hcall, hnone⟩
    · simp at hnil
    have hplanned : Planned call ids st := hnext
    -- no stage follows, so all have been made and this is the visible one
    have hv : (st.request call).visible = true := by
      rw [hplanned.place.2]
      by_contra hcount
      obtain ⟨st', hst'⟩ := exists_planned hmin
        (by rw [List.length_append, List.length_singleton]; have := hplanned.place.1; omega :
          (ids ++ [id]).length < stageCount call)
      exact hnone st' hst'
    rcases stage_runs hcall with ⟨-, e, he⟩ | ⟨a, id', polls, rfl, hrun⟩
    · cases he
    cases st with
    | container => cases hv
    | post edge data =>
      obtain ⟨rfl, hanswer⟩ := hrun.posted edge data rfl
      exact ⟨tr₁, _, rfl, hv, hanswer.symm⟩
  · by_cases hex : ∃ x ∈ tr, x.1.visible = true
    · obtain ⟨x, hx, hv⟩ := hex
      obtain ⟨pre, post, ht⟩ := List.append_of_mem hx
      obtain ⟨rfl, hanswer, -⟩ := visible_last h ht hv
      exact .inr ⟨pre, x, ht, hv, hanswer.symm.trans hr⟩
    · refine .inl fun x hx => ?_
      rw [Bool.eq_false_iff]
      exact fun hv => hex ⟨x, hx, hv⟩

namespace Sample

/-- An Instagram carousel of two images. -/
def carouselCall : PublishCall where
  connection :=
    { id := connection, createdAt := 0, updatedAt := 0, socialAccount := .ofNat 40
      channel := .metaInstagramBusinessAccount, providerChannelId := "17", displayName := ""
      encryptedAccessToken := "", tokenExpiresAt := none, grantedScopes := [], isActive := true }
  accessToken := "token"
  body := "Hello"
  imageUrls := ["https://b2.example/a", "https://b2.example/b"]

/-- Identifiers for the posts, and containers that are finished at their first poll. -/
def carouselAnswers (n : ℕ) : Answer :=
  .response 200 (.json (if n % 2 = 1 then .obj [("status_code", .str "FINISHED")]
    else .obj [("id", .int (n + 1))]))

end Sample

open Sample in
/-- Seven requests, the last of them answered with the identifier returned. -/
theorem meta_request_protocol_sample : ∃ tr, tr.length = 7 ∧
    RequestProtocol env carouselCall tr (.ok "7") := by
  refine ⟨(exec (publishImages env carouselCall).run carouselAnswers).1, by decide +kernel, ?_⟩
  have hok : (exec (publishImages env carouselCall).run carouselAnswers).2 = .ok "7" := by
    decide +kernel
  exact meta_request_protocol (by decide) (by decide) (hok ▸ runs_exec _ carouselAnswers)

end Relay
