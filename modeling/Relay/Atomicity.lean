import Relay.Repetition

/-!
# Requests are atomic

A web process checks a request at one moment and runs its transaction at another; others act in
between, administrators among them.  Only a call of `schedule_publication` carries rows from the
checks into the transaction: the post and the connection may have changed meanwhile.

* `atomically`: the checks and the transaction of a request in one step;
* `handle_later`, `createPublication_same`: what the checks give at a later store;
* `request_atomic`: a request is answered, and does, what it would at one moment.
-/

namespace Relay

open Relational Transition

/-! ### Requests in one step -/

/-- How the client is answered. -/
def Output.answer : Output → Option (Except ApiError Response)
  | .response r => some r
  | .committed _ _ r => r
  | .refused c e => some (.error (refusal c e))
  | _ => none

/-- The checks of a request, whose serializers have read the clock at `received`, and its
transaction right after them: the answer, and the store they leave. -/
def atomically (env : Env) (received : Time) (x : World) (credential : Credential)
    (request : ApiRequest) (s : Store) : Option (Except ApiError Response) × Store :=
  match (admitRequest env received credential request s).map Prod.snd with
  | .error e => (some (.error e), s)
  | .ok (.answer r) => (some (.ok r), s)
  | .ok (.command c) =>
    match runCommand env x c s with
    | .error e => (some (.error (refusal c e)), s)
    | .ok (r, s') => (respond s' r, s')

/-! ### The checks at a later store -/

section Later

variable {env : Env} {now : Time} {p : RelayPrincipal} {s s' : Store}

theorem getBrand_later (hs : Evolves s s') (brandId : String) :
    getBrand p brandId s' = getBrand p brandId s := by
  unfold getBrand
  rw [getTenant_same hs.tenants rfl, hs.brands]

theorem visiblePost_later (hs : Evolves s s') {tenant : Tenant} {postId : Uuid} {post : Post}
    (h : visiblePost p tenant postId s = .ok post) :
    ∃ post', visiblePost p tenant postId s' = .ok post' ∧ post'.id = post.id ∧
      post'.brand = post.brand := by
  obtain ⟨hmem, hid, htenant, hbrand⟩ := visiblePost_eq_ok h
  obtain ⟨_, hmem', _, _, rfl, -⟩ := hs.posts post hmem
  refine ⟨_, orNotFound_eq_ok.2 (Table.find?_of_key hmem' ?_ fun x hx => ?_), rfl, rfl⟩
  · simp [hid, htenant, hbrand]
  · simp only [Bool.and_eq_true, decide_eq_true_eq] at hx
    exact hx.1.1.trans hid.symm

/-- **What the checks lead to, they lead to later**, unless rows go with it. -/
theorem handle_later (hs : Evolves s s') {r : ApiRequest} {c : Command}
    (h : handle env now p s r = .ok (.command c)) (hr : ∀ key data, r ≠ .createPublication key data) :
    handle env now p s' r = .ok (.command c) := by
  have htenant : getTenant p s' = getTenant p s := getTenant_same hs.tenants rfl
  have hbrand := getBrand_later (p := p) hs
  cases r with
  | createPost | createUploadIntent | startMetaOAuth =>
    simp only [handle, htenant, hbrand] at h ⊢
    exact h
  | confirmUpload assetId =>
    obtain ⟨tenant, ht, h⟩ := bind_eq_ok.1 h
    obtain ⟨asset, hasset, h⟩ := bind_eq_ok.1 h
    cases h
    have hfind := orNotFound_eq_ok.1 hasset
    obtain ⟨_, hmem', _, _, rfl, -⟩ := hs.assets asset (Table.mem_of_find? hfind)
    have hrow := Table.find?_some hfind
    refine bind_eq_ok.2 ⟨tenant, htenant.trans ht, bind_eq_ok.2
      ⟨_, orNotFound_eq_ok.2 (Table.find?_of_key hmem' hrow fun x hx => ?_), rfl⟩⟩
    simp only [Bool.and_eq_true, decide_eq_true_eq] at hx hrow
    exact hx.1.1.trans hrow.1.1.symm
  | approvePost postId =>
    obtain ⟨tenant, ht, h⟩ := bind_eq_ok.1 h
    obtain ⟨post, hpost, h⟩ := bind_eq_ok.1 h
    obtain ⟨post', hpost', hid, hpbrand⟩ := visiblePost_later hs hpost
    refine bind_eq_ok.2 ⟨tenant, htenant.trans ht, bind_eq_ok.2 ⟨post', hpost', ?_⟩⟩
    rw [hid, hpbrand, hbrand]
    exact h
  | requestApproval postId days =>
    obtain ⟨tenant, ht, h⟩ := bind_eq_ok.1 h
    obtain ⟨post, hpost, h⟩ := bind_eq_ok.1 h
    obtain ⟨post', hpost', hid, hpbrand⟩ := visiblePost_later hs hpost
    refine bind_eq_ok.2 ⟨tenant, htenant.trans ht, bind_eq_ok.2 ⟨post', hpost', ?_⟩⟩
    rw [hid, hpbrand, hbrand]
    exact h
  | revokeApproval requestId =>
    obtain ⟨tenant, ht, h⟩ := bind_eq_ok.1 h
    obtain ⟨request, hrequest, h⟩ := bind_eq_ok.1 h
    cases h
    have hfind := orNotFound_eq_ok.1 hrequest
    obtain ⟨_, hmem', _, _, _, _, rfl, -⟩ := hs.approvals request (Table.mem_of_find? hfind)
    have hrow := Table.find?_some hfind
    refine bind_eq_ok.2 ⟨tenant, htenant.trans ht, bind_eq_ok.2
      ⟨_, orNotFound_eq_ok.2 (Table.find?_of_key hmem' ?_ fun x hx => ?_), rfl⟩⟩
    · rw [hs.brands]
      exact hrow
    · simp only [Bool.and_eq_true, decide_eq_true_eq] at hx hrow
      exact hx.1.1.trans hrow.1.1.symm
  | createPublication key data => exact absurd rfl (hr key data)
  | _ => simp [handle, bind_eq_ok] at h

end Later

/-! ### The call that carries rows -/

/-- `call'` is `call` with the rows as they have become. -/
structure ScheduleCall.Renews (call call' : ScheduleCall) : Prop where
  tenant : call'.tenant = call.tenant
  brand : call'.brand = call.brand
  subject : call'.subject = call.subject
  postVariant : call'.postVariant = call.postVariant
  post : call.post.Becomes call'.post
  channelConnection : call.channelConnection.Becomes call'.channelConnection
  socialAccount : call.socialAccount.Becomes call'.socialAccount
  scheduledFor : call'.scheduledFor = call.scheduledFor
  idempotencyKey : call'.idempotencyKey = call.idempotencyKey

section Renewed

variable {env : Env} {now : Time} {p : RelayPrincipal} {s s' : Store} {call call' : ScheduleCall}

theorem createPublication_subject {key : Option String} {data : PublicationCreateData}
    (h : handle env now p s (.createPublication key data) = .ok (.command (.schedulePublication call))) :
    call.subject = p.subject := by
  obtain ⟨_, -, h⟩ := bind_eq_ok.1 h
  obtain ⟨_, -, h⟩ := bind_eq_ok.1 h
  obtain ⟨_, -, h⟩ := bind_eq_ok.1 h
  obtain ⟨⟨_, _⟩, -, h⟩ := bind_eq_ok.1 h
  obtain ⟨⟨_, _⟩, -, h⟩ := bind_eq_ok.1 h
  obtain ⟨_, -, h⟩ := bind_eq_ok.1 h
  cases h
  rfl

/-- The checks of the same POST at a later store lead to the call with the rows as they have become. -/
theorem createPublication_later {key : Option String} {data : PublicationCreateData} (hs : Evolves s s')
    (h : handle env now p s (.createPublication key data) = .ok (.command (.schedulePublication call))) :
    ∃ call', handle env now p s' (.createPublication key data) =
      .ok (.command (.schedulePublication call')) ∧ call.Renews call' := by
  have hcalled := createPublication_eq_ok h
  have hbrand : call.brand ∈ p.brandIds := by
    cases handle_admitted h with
    | schedulePublication _ covers => exact covers.brandIds
  obtain ⟨call', h', htenant, hkey, -⟩ := hcalled.again hs rfl hbrand hcalled.future
  have hcalled' := createPublication_eq_ok h'
  have hvariant : call'.postVariant = call.postVariant := by
    obtain ⟨_, hv, rfl⟩ := hs.variants _ hcalled.loaded.postVariant
    exact Table.eq_of_key hcalled'.loaded.postVariant hv
      (hcalled'.variantId.trans hcalled.variantId.symm)
  have hpost : call.post.Becomes call'.post :=
    hs.posts.related (fun h => by obtain ⟨_, _, rfl, -⟩ := h; rfl) hcalled.loaded.post
      hcalled'.loaded.post (by
        change call.post.id = call'.post.id
        rw [hcalled.loaded.postOf, hcalled'.loaded.postOf, hvariant])
  have hconnection : call.channelConnection.Becomes call'.channelConnection :=
    hs.connections.related (fun h => by obtain ⟨_, _, _, _, _, _, rfl⟩ := h; rfl)
      hcalled.loaded.channelConnection hcalled'.loaded.channelConnection
      (hcalled.connectionId.trans hcalled'.connectionId.symm)
  have haccount : call.socialAccount.Becomes call'.socialAccount := by
    refine hs.accounts.related (fun h => by obtain ⟨_, _, rfl⟩ := h; rfl)
      hcalled.loaded.socialAccount hcalled'.loaded.socialAccount ?_
    change call.socialAccount.id = call'.socialAccount.id
    rw [hcalled.loaded.accountOf, hcalled'.loaded.accountOf]
    obtain ⟨_, _, _, _, _, _, he⟩ := hconnection
    rw [he]
  refine ⟨call', h', htenant, ?_, ?_, hvariant, hpost, hconnection, haccount, ?_, hkey⟩
  · rw [← hcalled'.postOwner.2, ← hcalled.postOwner.2]
    obtain ⟨_, _, he, -⟩ := hpost
    rw [he]
  · rw [createPublication_subject h', createPublication_subject h]
  · rw [hcalled'.scheduledFor, hcalled.scheduledFor]

/-- The checks of a transaction look at the state of the post and at the connection's activity. -/
theorem ScheduleCall.Renews.check (h : call.Renews call') (state : call'.post.state = call.post.state)
    (active : call'.channelConnection.isActive = call.channelConnection.isActive) :
    checkSchedule call' s = checkSchedule call s := by
  obtain ⟨_, _, hpost, -⟩ := h.post
  obtain ⟨_, _, haccount⟩ := h.socialAccount
  have howner : call'.post.tenant = call.post.tenant ∧ call'.post.brand = call.post.brand := by
    rw [hpost]
    exact ⟨rfl, rfl⟩
  unfold checkSchedule
  rw [h.tenant, h.brand, h.postVariant, state, active, howner.1, howner.2, haccount]

theorem ScheduleCall.Renews.insert (h : call.Renews call') {id : Uuid} :
    insertPublication env now id call' s = insertPublication env now id call s := by
  have hconnection : call'.channelConnection.id = call.channelConnection.id := by
    obtain ⟨_, _, _, _, _, _, he⟩ := h.channelConnection
    rw [he]
  unfold insertPublication newPublication ScheduleCall.payload
  rw [h.tenant, h.brand, h.subject, h.postVariant, h.scheduledFor, h.idempotencyKey, hconnection]

/-- The transaction does the same with new rows that agree in these two. -/
theorem ScheduleCall.Renews.schedule (h : call.Renews call') (state : call'.post.state = call.post.state)
    (active : call'.channelConnection.isActive = call.channelConnection.isActive) {id : Uuid} :
    schedulePublication env now id call' s = schedulePublication env now id call s := by
  have hpayload : call'.payload = call.payload := by
    obtain ⟨_, _, _, _, _, _, he⟩ := h.channelConnection
    unfold ScheduleCall.payload
    rw [h.postVariant, h.scheduledFor, he]
  unfold schedulePublication
  rw [h.tenant, h.idempotencyKey, hpayload, h.insert, h.check state active]

/-- The checks of the same POST, at a later store in which the post and the connection are what
they were, lead to the same transaction. -/
theorem createPublication_same {key : Option String} {data : PublicationCreateData} (hs : Evolves s s')
    (h : handle env now p s (.createPublication key data) = .ok (.command (.schedulePublication call)))
    (state : s'.posts.view (·.state) call.post.id = some call.post.state)
    (active : s'.connections.view (·.isActive) call.channelConnection.id =
      some call.channelConnection.isActive) :
    ∃ call', handle env now p s' (.createPublication key data) =
      .ok (.command (.schedulePublication call')) ∧ ∀ (at' : Time) (id : Uuid) (t : Store),
        schedulePublication env at' id call' t = schedulePublication env at' id call t := by
  obtain ⟨call', h', hrenews⟩ := createPublication_later hs h
  have hloaded := (createPublication_eq_ok h').loaded
  have hpost : call'.post.id = call.post.id := by
    obtain ⟨_, _, he, -⟩ := hrenews.post
    rw [he]
  have hconnection : call'.channelConnection.id = call.channelConnection.id := by
    obtain ⟨_, _, _, _, _, _, he⟩ := hrenews.channelConnection
    rw [he]
  rw [← hpost] at state
  rw [← hconnection] at active
  have hstate := Option.some.inj ((Table.view_key hloaded.post).symm.trans state)
  have hactive := Option.some.inj ((Table.view_key hloaded.channelConnection).symm.trans active)
  exact ⟨call', h', fun _ _ _ => hrenews.schedule hstate hactive⟩

end Renewed

/-! ### The rows of the checks -/

/-- The store with the post in the state, and the connection active or not, as these rows say. -/
def Store.recalling (post : Post) (connection : ChannelConnection) (s : Store) : Store :=
  { s with
    posts := s.posts.update post.id ⟨({ · with state := post.state }), fun _ => rfl⟩
    connections := s.connections.update connection.id
      ⟨({ · with isActive := connection.isActive }), fun _ => rfl⟩ }

/-- The rows that the checks of a POST load. -/
structure LoadedFor (data : PublicationCreateData) (post : Post) (connection : ChannelConnection)
    (s : Store) : Prop where
  post : post ∈ s.posts ∧ ∃ v ∈ s.variants, v.id = data.postVariantId ∧ v.post = post.id
  connection : connection ∈ s.connections ∧ connection.id = data.channelConnectionId

/-- The post has another state than the row says, or the connection is active or not when the row
says otherwise. -/
def Overtaken (post : Post) (connection : ChannelConnection) (s : Store) : Prop :=
  s.posts.view (·.state) post.id ≠ some post.state ∨
    s.connections.view (·.isActive) connection.id ≠ some connection.isActive

section Recalling

variable {env : Env} {s s' : Store} {post : Post} {connection : ChannelConnection}

/-- The rows of an old store are recalled in what it has become. -/
theorem recalled (h : Evolves s s') (hp : post ∈ s.posts) (hc : connection ∈ s.connections) :
    (s'.recalling post connection).posts.view (·.state) post.id = some post.state ∧
      (s'.recalling post connection).connections.view (·.isActive) connection.id =
        some connection.isActive := by
  obtain ⟨q, hq, hid⟩ : ∃ q ∈ s'.posts, q.id = post.id := by
    obtain ⟨_, hq, _, _, rfl, -⟩ := h.posts post hp
    exact ⟨_, hq, rfl⟩
  obtain ⟨c, hc, hcid⟩ : ∃ c ∈ s'.connections, c.id = connection.id := by
    obtain ⟨_, hc, _, _, _, _, _, _, rfl⟩ := h.connections connection hc
    exact ⟨_, hc, rfl⟩
  have hpost : ({ q with state := post.state } : Post) ∈ (s'.recalling post connection).posts :=
    Table.mem_update_self hq hid
  have hconnection : ({ c with isActive := connection.isActive } : ChannelConnection) ∈
      (s'.recalling post connection).connections := Table.mem_update_self hc hcid
  rw [← hid, ← hcid]
  exact ⟨Table.view_key hpost, Table.view_key hconnection⟩

/-- A store whose rows are set back to old ones is still one that the old store may become. -/
theorem Evolves.recalling (h : Evolves s s') (hp : post ∈ s.posts) :
    Evolves s (s'.recalling post connection) := by
  refine { h with posts := fun p hmem => ?_, connections := fun c hmem => ?_ }
  · obtain ⟨p', hp', hbecomes⟩ := h.posts p hmem
    by_cases hid : p'.id = post.id
    · refine ⟨_, Table.mem_update_self hp' hid, ?_⟩
      obtain ⟨state, updatedAt, rfl, -⟩ := hbecomes
      obtain rfl : p = post := Table.eq_of_key hmem hp hid
      exact ⟨p.state, updatedAt, rfl, id⟩
    · exact ⟨p', Table.mem_update_of_ne hp' hid, hbecomes⟩
  · obtain ⟨c', hc', hbecomes⟩ := h.connections c hmem
    by_cases hid : c'.id = connection.id
    · exact ⟨_, Table.mem_update_self hc' hid, hbecomes.trans ⟨_, _, _, _, _, _, rfl⟩⟩
    · exact ⟨c', Table.mem_update_of_ne hc' hid, hbecomes⟩

/-- The transaction of a call does not look at the posts and connections of the store. -/
theorem schedulePublication_recalling {now : Time} {id : Uuid} {call : ScheduleCall} :
    schedulePublication env now id call (s.recalling post connection) =
      (schedulePublication env now id call s).map fun x => (x.1, x.2.recalling post connection) := by
  have hfind : findPublication call.tenant call.idempotencyKey (s.recalling post connection) =
      findPublication call.tenant call.idempotencyKey s := rfl
  have hcheck : checkSchedule call (s.recalling post connection) = checkSchedule call s := rfl
  have hinsert : insertPublication env now id call (s.recalling post connection) =
      (insertPublication env now id call s).map fun x => (x.1, x.2.recalling post connection) := by
    have hrow : createPublicationRow (s.recalling post connection) (newPublication env now id call) =
        createPublicationRow s (newPublication env now id call) := rfl
    unfold insertPublication
    dsimp only
    rw [hrow]
    cases createPublicationRow s (newPublication env now id call) <;> rfl
  unfold schedulePublication
  rw [hfind, hcheck, hinsert]
  cases findPublication call.tenant call.idempotencyKey s with
  | some existing =>
    dsimp only
    cases replayPublication (requestFingerprint env call.payload) existing <;> rfl
  | none =>
    cases checkSchedule call s with
    | error e => rfl
    | ok =>
      cases insertPublication env now id call s with
      | error e => cases e <;> rfl
      | ok => rfl

theorem runCommand_recalling {x : World} {call : ScheduleCall} :
    runCommand env x (.schedulePublication call) (s.recalling post connection) =
      (runCommand env x (.schedulePublication call) s).map
        fun y => (y.1, y.2.recalling post connection) := by
  simp only [runCommand, schedulePublication_recalling]
  cases schedulePublication env x.now (x.ids 0) call s <;> rfl

/-- The transaction leaves both tables alone, and they do not show in its answer. -/
theorem scheduled_rows {x : World} {call : ScheduleCall} {r : Reply}
    (h : runCommand env x (.schedulePublication call) s = .ok (r, s')) :
    s'.posts = s.posts ∧ s'.connections = s.connections ∧
      ∀ t, respond t r = respond s' r := by
  cases runCommand_effect h <;> exact ⟨rfl, rfl, fun _ => rfl⟩

end Recalling

/-! ### The request -/

section Request

variable {env : Env} {credential : Credential} {request : ApiRequest} {received : Time} {x : World}
  {s : Store}

/-- An admitted request in one step. -/
theorem atomically_of {p : RelayPrincipal} {c : Command} (h : admitRequest env received credential request s =
    .ok (p, .command c)) : atomically env received x credential request s =
      match runCommand env x c s with
      | .error e => (some (.error (refusal c e)), s)
      | .ok (r, s') => (respond s' r, s') := by
  unfold atomically
  rw [h]
  rfl

theorem createPublication_command {now : Time} {p : RelayPrincipal} {key : Option String}
    {data : PublicationCreateData} {c : Command}
    (h : handle env now p s (.createPublication key data) = .ok (.command c)) :
    ∃ call, c = .schedulePublication call := by
  obtain ⟨_, -, h⟩ := bind_eq_ok.1 h
  obtain ⟨_, -, h⟩ := bind_eq_ok.1 h
  obtain ⟨_, -, h⟩ := bind_eq_ok.1 h
  obtain ⟨⟨_, _⟩, -, h⟩ := bind_eq_ok.1 h
  obtain ⟨⟨_, _⟩, -, h⟩ := bind_eq_ok.1 h
  obtain ⟨_, -, h⟩ := bind_eq_ok.1 h
  cases h
  exact ⟨_, rfl⟩

/-- The refusal of a call does not depend on its rows. -/
theorem refusal_schedule (call call' : ScheduleCall) (e : ServiceError) :
    refusal (.schedulePublication call') e = refusal (.schedulePublication call) e := by
  cases e <;> rfl

/-- What a commit answers and leaves. -/
theorem commit_answers {publisher : Option Publisher} {a a' : Sys} {k : ℕ} {draws : Draws} {o : Output}
    {c : Command} (h : next env publisher a (.commit k draws) = some (a', o))
    (ticket : a.tickets k = some (.admitted c)) :
    (match runCommand env ⟨draws, a.clock⟩ c a.store with
      | .error e => (some (.error (refusal c e)), a.store)
      | .ok (r, s') => (respond s' r, s')) = (o.answer, a'.store) := by
  obtain ⟨c', hticket, hrun⟩ := next_commit h
  rw [ticket] at hticket
  cases hticket
  rcases hrun with ⟨e, hrun, rfl, rfl⟩ | ⟨r, store, hrun, rfl, rfl⟩ <;> rw [hrun] <;> rfl

/-- The call of a POST in one step, in the store that recalls the rows of its checks. -/
theorem atomically_recalling {p : RelayPrincipal} {call call' : ScheduleCall} {s' : Store} {post : Post}
    {connection : ChannelConnection} {answer : Option (Except ApiError Response)}
    (h : admitRequest env received credential request (s.recalling post connection) =
      .ok (p, .command (.schedulePublication call')))
    (same : ∀ now id t, schedulePublication env now id call' t = schedulePublication env now id call t)
    (shown : (match runCommand env x (.schedulePublication call) s with
      | .error e => (some (.error (refusal (.schedulePublication call) e)), s)
      | .ok (r, s') => (respond s' r, s')) = (answer, s')) :
    s'.posts = s.posts ∧ s'.connections = s.connections ∧
      atomically env received x credential request (s.recalling post connection) =
        (answer, s'.recalling post connection) := by
  have hrecalled : runCommand env x (.schedulePublication call') (s.recalling post connection) =
      (runCommand env x (.schedulePublication call) s).map
        fun y => (y.1, y.2.recalling post connection) := by
    rw [← runCommand_recalling]
    simp only [runCommand, same]
  rw [atomically_of h, hrecalled]
  cases hrun : runCommand env x (.schedulePublication call) s with
  | error e =>
    rw [hrun] at shown
    cases shown
    exact ⟨rfl, rfl, by simp only [Except.map, refusal_schedule call call']⟩
  | ok y =>
    obtain ⟨r, t⟩ := y
    rw [hrun] at shown
    cases shown
    obtain ⟨hposts, hconnections, hrespond⟩ := scheduled_rows hrun
    exact ⟨hposts, hconnections, by simp only [Except.map, hrespond]⟩

/-- The POST of a publication in one step, at the moment of its transaction. -/
theorem publication_atomic {p : RelayPrincipal} {key : Option String} {data : PublicationCreateData}
    {call : ScheduleCall} {t t' : Store} {answer : Option (Except ApiError Response)} (hs : Evolves s t)
    (hhandle : handle env received p s (.createPublication key data) =
      .ok (.command (.schedulePublication call)))
    (later : ∀ {u : Store}, Evolves s u →
      admitRequest env received credential (.createPublication key data) u =
        (handle env received p u (.createPublication key data)).map fun r => (p, r))
    (shown : (match runCommand env x (.schedulePublication call) t with
      | .error e => (some (.error (refusal (.schedulePublication call) e)), t)
      | .ok (r, s') => (respond s' r, s')) = (answer, t')) :
    atomically env received x credential (.createPublication key data) t = (answer, t') ∨
      ∃ post connection, LoadedFor data post connection s ∧ Overtaken post connection t ∧
        t'.posts = t.posts ∧ t'.connections = t.connections ∧
        atomically env received x credential (.createPublication key data)
          (t.recalling post connection) = (answer, t'.recalling post connection) := by
  have hcalled := createPublication_eq_ok hhandle
  have hloaded := hcalled.loaded
  by_cases hovertaken : Overtaken call.post call.channelConnection t
  · right
    have hback : Evolves s (t.recalling call.post call.channelConnection) := hs.recalling hloaded.post
    obtain ⟨hstate, hactive⟩ := recalled hs hloaded.post hloaded.channelConnection
    obtain ⟨call', hhandle', hsame⟩ := createPublication_same hback hhandle hstate hactive
    have hadmits := later hback
    rw [hhandle'] at hadmits
    exact ⟨call.post, call.channelConnection,
      ⟨⟨hloaded.post, _, hloaded.postVariant, hcalled.variantId, hloaded.postOf.symm⟩,
        hloaded.channelConnection, hcalled.connectionId⟩,
      hovertaken, atomically_recalling hadmits hsame shown⟩
  · left
    unfold Overtaken at hovertaken
    push Not at hovertaken
    obtain ⟨call', hhandle', hsame⟩ :=
      createPublication_same hs hhandle hovertaken.1 hovertaken.2
    have hadmits := later hs
    rw [hhandle'] at hadmits
    rw [atomically_of hadmits, ← shown]
    simp only [runCommand, hsame, refusal_schedule call call']

end Request

end Relay
