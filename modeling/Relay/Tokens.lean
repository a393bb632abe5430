import Relay.Connections
import Relay.Library.Journal
import Relay.MetaProtocol
import Relay.Provenance

/-!
# Where the token of a request comes from

An OAuth callback stores an encrypted token for each channel that Meta has listed, over the one that
was stored before.  Days later a worker decrypts the token of the channel of its publication and
sends it with every request.

* `givesToken`: the token that an event of a run gives to a channel;
* `Enciphered`: the store holds the token that each channel was given last;
* `publishImages_asks`: the requests of one publication go out with its token, to its channel;
* `sent_with_latest_token`: every request carries the token that Meta gave last for its channel.
-/

namespace Relay

open Exchange Journal Relational Transition

/-! ### The tokens of a run -/

/-- The token that an identity gives to a channel of an account: its last entry counts. -/
def MetaIdentity.tokenFor (identity : MetaIdentity) (account : Uuid) (columns : Uuid × Channel × String) :
    Option String :=
  ((identity.connections.filter fun c => c.columns account = columns).map (·.accessToken)).getLast?

/-- The token that an event gives to a channel: it does if it commits `persist_meta_connections`. -/
def givesToken (columns : Uuid × Channel × String) : Label × Output → Option String
  | (_, .committed (.persistMetaConnections _ _ _ _ identity) (.socialAccount account) _) =>
    identity.tokenFor account.id columns
  | _ => none

/-- The connections hold the tokens that a run has given them last. -/
def Enciphered (env : Env) (es : List (Label × Output)) (s : Store) : Prop :=
  ∀ row ∈ s.connections, ∃ token, replay givesToken es row.columns = some token ∧
    ∃ draw, encryptToken env draw token = some row.encryptedAccessToken

section Identity

variable {identity : MetaIdentity} {account : Uuid} {columns : Uuid × Channel × String}

theorem tokenFor_last {before after : List MetaConnection} {c : MetaConnection}
    (h : identity.connections = before ++ c :: after)
    (hlast : ∀ d ∈ after, d.columns account ≠ c.columns account) :
    identity.tokenFor account (c.columns account) = some c.accessToken := by
  have hafter : (after.filter fun d => d.columns account = c.columns account) = [] :=
    List.filter_eq_nil_iff.2 fun d hd => by simpa using hlast d hd
  unfold MetaIdentity.tokenFor
  rw [h, List.filter_append, List.filter_cons, if_pos (by simp), hafter]
  simp

theorem tokenFor_none (h : ∀ c ∈ identity.connections, c.columns account ≠ columns) :
    identity.tokenFor account columns = none := by
  unfold MetaIdentity.tokenFor
  rw [List.filter_eq_nil_iff.2 fun c hc => by simpa using h c hc]
  rfl

theorem mem_of_tokenFor {token : String} (h : identity.tokenFor account columns = some token) :
    ∃ c ∈ identity.connections, c.columns account = columns ∧ c.accessToken = token := by
  obtain ⟨c, hc, rfl⟩ := List.mem_map.1 (List.mem_of_getLast? h)
  obtain ⟨hc, hcolumns⟩ := List.mem_filter.1 hc
  exact ⟨c, hc, of_decide_eq_true hcolumns, rfl⟩

end Identity

section Runs

variable {env : Env} {publisher : Option Publisher} {s s' : Sys} {es : List (Label × Output)}

/-- A callback that connects gives each of its channels the token that it stores. -/
theorem Enciphered.connected {tenant brand : Uuid} {token : MetaToken} {identity : MetaIdentity}
    {account : SocialAccount} {store store' : Store} (h : Enciphered env es store)
    (hs : Constrained store) (hs' : Constrained store')
    (persisted : Persisted env tenant brand token identity account store store') {l : Label}
    {subject : String} {response : Option (Except ApiError Response)} :
    Enciphered env (es ++ [(l, .committed (.persistMetaConnections tenant brand subject token identity)
      (.socialAccount account) response)]) store' := by
  intro row hrow
  have hselect := hs'.columns.mem_iff_select.1 hrow
  rw [replay_append]
  change ∃ t, (identity.tokenFor account.id row.columns).or (replay givesToken es row.columns) = some t ∧ _
  by_cases hgiven : ∃ c ∈ identity.connections, c.columns account.id = row.columns
  · obtain ⟨before, c, after, hsplit, hcolumns, hlast⟩ := exists_last hgiven
    obtain ⟨old, row', hupserted, hwritten⟩ := persisted.connections.last hsplit
      fun d hd => hcolumns ▸ hlast d hd
    rw [hcolumns, hselect] at hwritten
    cases hwritten
    refine ⟨c.accessToken, ?_, hupserted.carries.accessToken⟩
    rw [← hcolumns, tokenFor_last hsplit fun d hd => hcolumns ▸ hlast d hd]
    rfl
  · push Not at hgiven
    rw [persisted.connections.other hgiven] at hselect
    rw [tokenFor_none hgiven, Option.none_or]
    exact h row (hs.columns.mem_iff_select.2 hselect)

/-- An event that is not such a commit gives nothing, and changes no token. -/
theorem Enciphered.frame {store store' : Store} (h : Enciphered env es store) {e : Label × Output}
    (same : store'.connections = store.connections) (none : ∀ k, givesToken k e = none) :
    Enciphered env (es ++ [e]) store' := by
  intro row hrow
  rw [replay_silent none]
  exact h row (same ▸ hrow)

theorem Enciphered.step (h : Enciphered env es s.store) (hs : Reachable (relay env publisher) s)
    {l : Label} {o : Output} (hstep : (relay env publisher).step s (l, o) s') :
    Enciphered env (es ++ [(l, o)]) s'.store := by
  have hconstrained' := constrained_of_reachable (hs.step hstep)
  have hsys := next_step hstep
  cases hsys with
  | @committed k draws _ _ store ticket effect =>
    obtain ⟨c, -, ⟨_, -, -, ho⟩ | ⟨r, store', hrun, hs', ho⟩⟩ := next_commit hstep
    · cases ho
    obtain ⟨rfl, rfl, -⟩ := Output.committed.inj ho
    have hstore : store = store' := congrArg Sys.store hs'
    rw [← hstore] at hrun
    cases effect with
    | connected =>
      obtain ⟨_, hcall, ha⟩ := reply_eq_ok.1 hrun
      cases ha
      exact h.connected (constrained_of_reachable hs) hconstrained'
        (persistMetaConnections_persisted hcall (constrained_of_reachable hs))
    | _ => exact h.frame rfl fun _ => rfl
  | claimed _ _ claimed => cases claimed; exact h.frame rfl fun _ => rfl
  | finished _ finished => cases finished <;> exact h.frame rfl fun _ => rfl
  | _ => exact h.frame rfl fun _ => rfl

/-- The connections of every state hold the tokens of the run that leads there. -/
theorem enciphered_of_trail {s₀ : Sys} (start : (relay env publisher).start s₀)
    (h : Trail (relay env publisher) s₀ es s) : Enciphered env es s.store := by
  have hinit : Enciphered env [] s₀.store := by
    obtain ⟨tenants, brands, memberships, clock, rfl⟩ := start
    exact fun row hrow => absurd hrow (Table.not_mem_empty row)
  have hfold : Enciphered env (es.foldl (fun es e => es ++ [e]) []) s.store :=
    Reachable.induct_fold (I := fun s es => Enciphered env es s.store)
      (fun _ _ _ _ hr hi hstep => hi.step hr hstep) (Reachable.of_start start) hinit h
  simpa [← List.flatMap_def] using hfold

end Runs

/-! ### The requests of one publication -/

/-- The request goes out with a token, and posts to no other node than the one given. -/
structure MetaRequest.Carries (accessToken node : String) (q : MetaRequest) : Prop where
  accessToken : q.field "access_token" = some accessToken
  node : ∀ node' edge data, q = .post node' edge data → node' = node

section Requests

variable {env : Env} {accessToken channelId : String}

theorem asks_request {m : Messages} {q : MetaRequest} (h : q.Carries accessToken channelId) :
    Asks (MetaRequest.Carries accessToken channelId) (request env m q) := by
  unfold request
  split
  · exact (asks_send h).bind fun _ => asks_done _
  · exact asks_throw _

/-- The fields of a post end with the token. -/
theorem asks_postForId {edge : Edge} {data : List (String × String)}
    (h : (data.find? fun f => f.1 = "access_token").map Prod.snd = some accessToken) :
    Asks (MetaRequest.Carries accessToken channelId) (postForId env channelId edge data) := by
  have hcarries : (MetaRequest.post channelId edge data).Carries accessToken channelId :=
    ⟨h, by rintro _ _ _ ⟨⟩; rfl⟩
  exact (asks_request hcarries).bind fun _ => asks_done _

theorem asks_wait (creationId : String) (polls : ℕ) :
    Asks (MetaRequest.Carries accessToken channelId)
      (waitForInstagramContainer env creationId accessToken polls) := by
  induction polls with
  | zero => exact asks_throw _
  | succ polls ih =>
    have hcarries : (pollRequest creationId accessToken).Carries accessToken channelId :=
      ⟨rfl, by rintro _ _ _ ⟨⟩⟩
    refine (asks_request hcarries).bind fun _ => (asks_done _).bind fun status => ?_
    split
    · exact asks_pure _
    split
    · exact asks_throw _
    · exact ih

theorem asks_uploadPhotos (imageUrls : List String) :
    Asks (MetaRequest.Carries accessToken channelId) (uploadPhotos env channelId accessToken imageUrls) := by
  induction imageUrls with
  | nil => exact asks_pure _
  | cons imageUrl imageUrls ih =>
    exact (asks_postForId rfl).bind fun _ => ih.bind fun _ => asks_pure _

theorem asks_finishedContainer {data : List (String × String)}
    (h : (data.find? fun f => f.1 = "access_token").map Prod.snd = some accessToken) :
    Asks (MetaRequest.Carries accessToken channelId) (finishedContainer env channelId accessToken data) :=
  (asks_postForId h).bind fun creationId => (asks_wait creationId _).bind fun _ => asks_pure _

theorem asks_createChildren (imageUrls : List String) :
    Asks (MetaRequest.Carries accessToken channelId)
      (createChildren env channelId accessToken imageUrls) := by
  induction imageUrls with
  | nil => exact asks_pure _
  | cons imageUrl imageUrls ih =>
    exact (asks_finishedContainer rfl).bind fun _ => ih.bind fun _ => asks_pure _

/-- **A publication is sent with the token of its call, to the channel of its call.** -/
theorem publishImages_asks (call : PublishCall) :
    Asks (MetaRequest.Carries call.accessToken call.connection.providerChannelId)
      (publishImages env call) := by
  unfold publishImages
  dsimp only
  split
  · exact asks_throw _
  split
  · exact asks_throw _
  split
  · split
    · exact (asks_uploadPhotos _).bind fun _ => asks_postForId rfl
    · exact asks_postForId rfl
  · split
    · exact (asks_createChildren _).bind fun _ => (asks_finishedContainer rfl).bind fun _ =>
        asks_postForId rfl
    · exact (asks_finishedContainer rfl).bind fun _ => asks_postForId rfl
  · exact asks_throw _

end Requests

/-! ### Workers -/

/-- What a worker has still to send carries the token of its claim, to the channel of its claim. -/
def Sending (env : Env) (s : Sys) : Prop :=
  ∀ k publication claim rest, s.workers k = some ⟨publication, .publishing claim rest⟩ →
    ∀ token, decryptToken env claim.channelConnection.encryptedAccessToken = .ok token →
      Each (fun q _ => q.Carries token claim.channelConnection.providerChannelId) rest

section Workers

variable {env : Env} {s s' : Sys}

theorem Sending.step {l : Label} {o : Output} (h : Sending env s) (hstep : SysStep env none s l s' o) :
    Sending env s' := by
  intro k publication claim rest hk token htoken
  have hsame : ∀ {k'}, (s.setWorker k' none).workers k = some ⟨publication, .publishing claim rest⟩ →
      Each (fun q _ => q.Carries token claim.channelConnection.providerChannelId) rest := fun hk => by
    rcases worker_of_setWorker hk with ⟨-, hnone⟩ | hk
    · cases hnone
    · exact h _ _ _ _ hk token htoken
  cases hstep with
  | started | claimed =>
    rcases worker_of_setWorker hk with ⟨-, hx⟩ | hk
    · cases hx
    · exact h _ _ _ _ hk token htoken
  | unprepared =>
    rcases worker_of_setWorker hk with ⟨-, hx⟩ | hk
    · cases hx
      trivial
    · exact h _ _ _ _ hk token htoken
  | @prepared _ _ _ _ call _ harguments =>
    rcases worker_of_setWorker hk with ⟨-, hx⟩ | hk
    · cases hx
      obtain ⟨hconnection, hcall⟩ := publishArguments_token harguments
      rw [htoken] at hcall
      cases hcall
      rw [← hconnection]
      exact (publishImages_asks call).each
    · exact h _ _ _ _ hk token htoken
  | exchanged worker =>
    rcases worker_of_setWorker hk with ⟨-, hx⟩ | hk
    · cases hx
      exact (h _ _ _ _ worker token htoken).2 _
    · exact h _ _ _ _ hk token htoken
  | claimRaised | claimMissed | finishRaised | finished | killed => exact hsame hk
  | _ => exact h _ _ _ _ hk token htoken

theorem sending_of_reachable (h : Reachable (relay env none) s) : Sending env s := by
  refine h.invariant ?_ fun _ _ _ hs hstep => hs.step (next_step hstep)
  rintro _ ⟨tenants, brands, memberships, clock, rfl⟩ k publication claim rest hk
  cases hk

end Workers

/-! ### From Meta to Meta -/

/-- The last event that gave a token to the channel of the claim gave this one.  It was a callback for
the brand of the publication, under the account of the channel, and the token is that of the last
entry in which Meta listed the channel. -/
structure GivenLast (es : List (Label × Output)) (claim : Claim) (accessToken : String) : Prop where
  given : ∃ before k draws subject token identity account response after,
    es = before ++ (.commit k draws, .committed (.persistMetaConnections claim.publication.tenant
      claim.publication.brand subject token identity) (.socialAccount account) response) :: after ∧
    account.id = claim.channelConnection.socialAccount ∧
    identity.tokenFor account.id claim.channelConnection.columns = some accessToken ∧
    ∀ e ∈ after, givesToken claim.channelConnection.columns e = none

section Provenance

variable {env : Env} {publisher : Option Publisher} {s₀ a b s s' : Sys} {es : List (Label × Output)}
  {claim : Claim}

theorem Claimed.connections {started now : Time} {attempt : Uuid} {store store' : Store}
    (h : Claimed started now attempt claim store store') : store'.connections = store.connections := by
  cases h
  rfl

/-- The rows of a claim when it is made: its connection is the one of its publication's brand. -/
theorem claimed_rows (hb : Reachable (relay env publisher) b) {k : ℕ} {id : Uuid} {started now : Time}
    {attempt : Uuid} (holds : b.Holds k id claim) (claimed : Claimed started now attempt claim a.store b.store) :
    claim.channelConnection ∈ a.store.connections ∧ ∃ account ∈ b.store.accounts,
      account.id = claim.channelConnection.socialAccount ∧
      account.tenant = claim.publication.tenant ∧ account.brand = claim.publication.brand := by
  obtain ⟨-, hc, hcid⟩ := claimed.content
  have hheld := ((delivering_of_reachable hb).held k id claim holds).2
  obtain ⟨v, p, c, account, h⟩ := (coherent_of_reachable hb).deliveries _ hheld.publication
  obtain rfl : c = claim.channelConnection :=
    Table.eq_of_key h.connection.1 hc (h.connection.2.trans hcid.symm)
  exact ⟨claimed.connections ▸ hc, account, h.account.1, h.account.2, h.accountOwner⟩

/-- The event that has given a token, for the brand of the publication that uses it. -/
theorem givenLast_of_replay (start : (relay env publisher).start s₀)
    (run : Trail (relay env publisher) s₀ es a) (later : Evolves a.store b.store) {accessToken : String}
    (given : replay givesToken es claim.channelConnection.columns = some accessToken)
    (hb : ∃ account ∈ b.store.accounts, account.id = claim.channelConnection.socialAccount ∧
      account.tenant = claim.publication.tenant ∧ account.brand = claim.publication.brand) :
    GivenLast es claim accessToken := by
  obtain ⟨before, ⟨l, o⟩, after, rfl, hgives, hafter⟩ := replay_eq_some.1 given
  obtain ⟨x, hbefore, hrest⟩ := Trail.append_iff.1 run
  obtain ⟨y, hstep, htail⟩ := Trail.cons_iff.1 hrest
  have hx := (Reachable.of_start start).trail hbefore
  have hsys := next_step hstep
  cases hsys with
  | @committed k draws _ _ store ticket effect =>
    obtain ⟨c, -, ⟨_, -, -, ho⟩ | ⟨r, store', hrun, hs', ho⟩⟩ := next_commit hstep
    · cases ho
    obtain ⟨rfl, rfl, -⟩ := Output.committed.inj ho
    have hstore : store = store' := congrArg Sys.store hs'
    rw [← hstore] at hrun
    have hevolves : Evolves store b.store := (Trail.evolves htail).trans later
    cases effect with
    | @connected tenant brand subject token identity _ account =>
      have hgiven : identity.tokenFor account.id claim.channelConnection.columns = some accessToken := hgives
      obtain ⟨c, -, hcolumns, -⟩ := mem_of_tokenFor hgiven
      have haccount : account.id = claim.channelConnection.socialAccount := congrArg Prod.fst hcolumns
      -- the account as it is when the claim is made
      obtain ⟨_, hcall, ha⟩ := reply_eq_ok.1 hrun
      cases ha
      have hupserted := (persistMetaConnections_persisted hcall (constrained_of_reachable hx)).upserted
      obtain ⟨_, hmem, _, _, rfl⟩ := hevolves.accounts account hupserted.mem
      obtain ⟨account', hmem', hid', htenant', hbrand'⟩ := hb
      obtain rfl := Table.eq_of_key hmem hmem' (haccount.trans hid'.symm)
      have htenant : tenant = claim.publication.tenant := hupserted.owner.symm.trans htenant'
      have hbrand : brand = claim.publication.brand := hupserted.stands.1.symm.trans hbrand'
      exact ⟨before, k, draws, subject, token, identity, account, _, after, by rw [htenant, hbrand],
        haccount, hgiven, hafter⟩
    | _ => cases hgives
  | _ => cases hgives

end Provenance

/-- **Every request to Meta carries the token that Meta gave last for its channel**, before the
publication was claimed, to a callback for the brand of the publication; and it posts to no other
channel. -/
theorem sent_with_latest_token {env : Env} (deciphers : env.Deciphers) {s₀ s s' : Sys}
    {es : List (Label × Output)} {k : ℕ} {act : MetaAct} {claim : Claim} {q : MetaRequest}
    (start : (relay env none).start s₀) (run : Trail (relay env none) s₀ es s)
    (sent : (relay env none).step s (.exchange k act, .exchanged claim q act) s') :
    ∃ es₁ e es₂ token, es = es₁ ++ e :: es₂ ∧ e.2 = .claimed claim ∧ GivenLast es₁ claim token ∧
      q.Carries token claim.channelConnection.providerChannelId := by
  have hs := (Reachable.of_start start).trail run
  cases next_step sent with
  | @exchanged k publication claim q rest act worker =>
    have hholds : s.Holds k publication claim := ⟨_, worker, rfl⟩
    have hidle : ¬ s₀.Holds k publication claim := by
      obtain ⟨tenants, brands, memberships, clock, rfl⟩ := start
      rintro ⟨_, hworker, -⟩
      cases hworker
    -- the step at which the worker comes to hold the claim
    obtain ⟨es₁, ⟨l, o⟩, es₂, a, b, rfl, before, hnot, hstep, hhas, -⟩ :=
      run.exists_switch (P := fun s => s.Holds k publication claim) hidle hholds
    have ha := (Reachable.of_start start).trail before
    rcases (next_step hstep).holds hhas with hhas | ⟨rfl, -, started, attempt, hclaimed⟩
    · exact absurd hhas hnot
    obtain ⟨hconnection, haccount⟩ := claimed_rows (ha.step hstep) hhas hclaimed
    obtain ⟨token, hgiven, _, hencrypted⟩ := enciphered_of_trail start before _ hconnection
    have hdecrypted := decryptToken_of_encrypted deciphers hencrypted
    refine ⟨es₁, _, es₂, token, rfl, rfl, ?_, ?_⟩
    · exact givenLast_of_replay start before (next_step hstep).evolves hgiven haccount
    · exact (sending_of_reachable hs _ _ _ _ worker token hdecrypted).1

namespace Sample

/-- The worker sends a request. -/
def sends (s : Sys) : Bool :=
  match next env none s (.exchange 0 ⟨true, .requestError⟩) with
  | some (_, .exchanged _ q _) => q.field "access_token" = some "page token"
  | _ => false

theorem exists_of_sends {s : Sys} (h : sends s = true) : ∃ s' claim q,
    (relay env none).step s
      (.exchange 0 ⟨true, .requestError⟩, .exchanged claim q ⟨true, .requestError⟩) s' ∧
    q.field "access_token" = some "page token" := by
  unfold sends at h
  split at h
  · rename_i s' claim q act hnext
    obtain rfl : act = ⟨true, .requestError⟩ := by
      cases next_step hnext
      rfl
    exact ⟨s', claim, q, hnext, of_decide_eq_true h⟩
  · cases h

end Sample

/-- The token of the page that the callback has connected. -/
theorem sent_with_latest_token_sample : ∃ es s s' claim q,
    Trail (relay Sample.env none) Sample.start es s ∧
    (relay Sample.env none).step s
      (.exchange 0 ⟨true, .requestError⟩, .exchanged claim q ⟨true, .requestError⟩) s' ∧
    q.field "access_token" = some "page token" ∧
    ∃ es₁ e es₂ token, es = es₁ ++ e :: es₂ ∧ e.2 = .claimed claim ∧ GivenLast es₁ claim token ∧
      q.Carries token claim.channelConnection.providerChannelId := by
  obtain ⟨es, s, run, hs⟩ := exists_of_execute (show ((execute Sample.env none
    (Sample.scheduled .metaFacebookPage ++ Sample.claiming 60000000 60 ++
      [.prepare 0 (Sample.draws 0).signer]) Sample.start).any fun x => Sample.sends x.2) = true by
        decide +kernel)
  obtain ⟨s', claim, q, sent, htoken⟩ := Sample.exists_of_sends hs
  exact ⟨es, s, s', claim, q, run, sent, htoken,
    sent_with_latest_token Sample.deciphers ⟨_, _, _, _, rfl⟩ run sent⟩

end Relay
