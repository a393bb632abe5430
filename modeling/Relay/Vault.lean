import Relay.Bucket
import Relay.Library.Session
import Relay.Model.TaskVault
import Relay.Uploads

/-!
# The server of the task vault

The script of the task vault talks to the relay and to its bucket.  A request to the API is the
receipt of a web process and its transaction; a `PUT` writes the object of the URL it names.

* `host`: what the relay and its bucket do with a request of the script;
* `host_trail`: it is a run of the depot;
* `Healthy`: the turns of a server in good health;
* one lemma for each request of the script: what the answer tells and what the store becomes.
-/

namespace Relay

open Relational Transition Exchange

/-! ### The server -/

/-- What the server meets in one turn: how long the request takes, what its transaction draws, and
whether the bucket refuses. -/
structure Turn where
  wait : ℕ
  draws : Draws
  refused : Bool

/-- The bearer token of the profile is a service credential, which `jwt.decode` made this of. -/
abbrev Claims := Option (List (String × Json))

/-- Time passes. -/
def Depot.advance (d : Depot) (n : ℕ) : Depot :=
  { d with sys := { d.sys with clock := d.sys.clock + n } }

/-- The upload URL that a reply has signed. -/
def Reply.grant (ttl : ℤ) (now : Time) : Reply → Option UploadGrant
  | .uploadIntent intent =>
    some ⟨intent.uploadUrl, intent.asset.storageKey, intent.asset.contentType, intent.asset.checksum,
      now + seconds ttl⟩
  | _ => none

/-- The answer to an API request.  Only the OAuth callback has a reply without response. -/
def Depot.answer (env : Env) (ttl : ℤ) (claims : Claims) (draws : Draws) (r : ApiRequest) (d : Depot) :
    Except ApiError Response × Depot :=
  match admitRequest env d.sys.clock (.service claims) r d.sys.store with
  | .error e => (.error e, d)
  | .ok (_, .answer a) => (.ok a, d)
  | .ok (_, .command c) =>
    match runCommand env ⟨{ draws with head := d.head draws.head }, d.sys.clock⟩ c d.sys.store with
    | .error e => (.error (refusal c e), d)
    | .ok (reply, store) =>
      ((respond store reply).getD (.ok ⟨200, .noContent⟩),
        { d with
          sys := { d.sys with store }
          grants := d.grants ++ (reply.grant ttl d.sys.clock).toList })

/-- The object that a `PUT` carries. -/
def putObject (headers : List (String × String)) (contentType : String) (file : VaultFile) :
    StoredObject :=
  ⟨file.length, contentType, headers.lookup "x-amz-meta-sha256"⟩

/-- The grant of a URL that was signed, if it has not expired and admits the object. -/
def Depot.grantOf (url : String) (o : StoredObject) (d : Depot) : Option UploadGrant :=
  d.grants.find? fun g => decide (g.url = url) && g.admits d.sys.clock o

/-- What the relay and its bucket do with a request. -/
def host (env : Env) (ttl : ℤ) (claims : Claims) (turn : Turn) (d : Depot) :
    VaultRequest → VaultAnswer × Depot
  | .api r =>
    let x := (d.advance turn.wait).answer env ttl claims turn.draws r
    (.json x.1, x.2)
  | .put url headers contentType file =>
    let d := d.advance turn.wait
    let object := putObject headers contentType file
    match d.grantOf url object with
    | some g =>
      if turn.refused then (.failed, d)
      else (.stored, { d with objects := Function.update d.objects g.storageKey (some object) })
    | none => (.failed, d)

/-- The server whose turns meet a condition. -/
def Hosts (env : Env) (ttl : ℤ) (claims : Claims) (good : Depot → VaultRequest → Turn → Prop) (d : Depot)
    (q : VaultRequest) (x : VaultAnswer) (d' : Depot) : Prop :=
  ∃ turn, good d q turn ∧ host env ttl claims turn d q = (x, d')

/-! ### The server as a run of the depot -/

/-- The process whose ticket a step may write. -/
def Label.process : Label → ℕ
  | .receive k _ _ => k
  | .receivePublic k _ => k
  | .commit k _ => k
  | .identify k _ _ => k
  | _ => 0

section Trails

variable {env : Env} {publisher : Option Publisher} {ttl : ℤ} {claims : Claims} {d d' : Depot}

/-- In every state that is reached, some web process is idle. -/
theorem exists_idle {s : Sys} (h : Reachable (relay env publisher) s) : ∃ k, s.tickets k = none := by
  obtain ⟨n, hn⟩ : ∃ n, ∀ k t, s.tickets k = some t → k < n := by
    refine h.invariant (I := fun s => ∃ n, ∀ k t, s.tickets k = some t → k < n) ?_ ?_
    · rintro _ ⟨_, _, _, _, rfl⟩
      exact ⟨0, fun k t ht => by cases ht⟩
    · rintro s ⟨l, o⟩ s' ⟨n, hn⟩ hstep
      refine ⟨n + l.process + 1, fun k t ht => ?_⟩
      cases (next_step hstep).ticketOrigin ht with
      | held ticket =>
        have := hn k t ticket
        omega
      | _ => simp only [Label.process]; omega
  refine ⟨n, Option.eq_none_iff_forall_ne_some.2 fun t ht => ?_⟩
  exact absurd (hn n t ht) (lt_irrefl n)

/-- The commands of the API are done with one transaction. -/
theorem ticket_of_admitted {p : RelayPrincipal} {s t t' : Store} {c : Command} {w : World} {r : Reply}
    (h : Admitted p s c) (hrun : runCommand env w c t = .ok (r, t')) : r.ticket = none := by
  cases h <;> obtain ⟨x, -, rfl⟩ := reply_eq_ok.1 hrun <;> rfl

/-- The receipt of a request and its transaction are steps of the depot. -/
theorem answer_trail {k : ℕ} {draws : Draws} {r : ApiRequest} (idle : d.sys.tickets k = none) :
    ∃ es, Trail (depot env publisher ttl) d es (d.answer env ttl claims draws r).2 := by
  have hreceive : ∀ x, admitRequest env d.sys.clock (.service claims) r d.sys.store = x →
      next env publisher d.sys (.receive k (.service claims) r) =
        some (d.sys.admitted k (x.map Prod.snd)) := by
    rintro _ rfl
    simp only [next, idle, Option.isSome_none]
    rfl
  unfold Depot.answer
  split
  · exact ⟨[], .stay d⟩
  · exact ⟨[], .stay d⟩
  · rename_i p c hadmit
    obtain ⟨-, -, hhandle⟩ := admitRequest_eq_ok hadmit
    let waiting : Depot := { d with sys := d.sys.setTicket k (some (.admitted c)) }
    have hticket : waiting.sys.tickets k = some (.admitted c) := Function.update_self _ _ _
    have hfirst : (depot env publisher ttl).step d (.sys (.receive k (.service claims) r),
        .sys .silent) waiting := by
      change depotNext env publisher ttl d _ = _
      simp only [depotNext, Depot.label, hreceive _ hadmit]
      simp [Sys.admitted, Except.map, signedGrant, waiting]
    split
    · exact ⟨[], .stay d⟩
    · rename_i reply store hrun
      have hnone : reply.ticket = none := ticket_of_admitted (handle_admitted hhandle) hrun
      refine ⟨_, .move hfirst (.move (e := (.sys (.commit k draws), .sys (.committed c reply
        (respond store reply)))) ?_ (.stay _))⟩
      have hcommit : next env publisher waiting.sys
          (.commit k { draws with head := waiting.head draws.head }) =
            some ({ waiting.sys with store }.setTicket k none, .committed c reply
              (respond store reply)) := by
        have hrun' : runCommand env ⟨{ draws with head := waiting.head draws.head },
            waiting.sys.clock⟩ c waiting.sys.store = .ok (reply, store) := hrun
        simp only [next, hticket, Sys.commit, hrun', hnone]
      change depotNext env publisher ttl waiting _ = _
      simp only [depotNext, Depot.label, hcommit]
      cases reply <;> simp [signedGrant, Reply.grant, Sys.setTicket, idle, waiting]

/-- **What the server does with a request is a run of the depot.** -/
theorem host_trail (h : Reachable (depot env publisher ttl) d) (turn : Turn) (q : VaultRequest) :
    ∃ es, Trail (depot env publisher ttl) d es (host env ttl claims turn d q).2 := by
  obtain ⟨k, idle⟩ := exists_idle (sys_reachable h)
  have hadvance : (depot env publisher ttl).step d
      (.sys (.advance turn.wait), .sys .silent) (d.advance turn.wait) := by
    change depotNext env publisher ttl d _ = _
    simp [depotNext, Depot.label, next, Depot.advance, signedGrant]
  cases q with
  | api r =>
    obtain ⟨es, hanswer⟩ : ∃ es, Trail (depot env publisher ttl) (d.advance turn.wait) es
        ((d.advance turn.wait).answer env ttl claims turn.draws r).2 := answer_trail idle
    exact ⟨_, .move hadvance hanswer⟩
  | put url headers contentType file =>
    simp only [host]
    split
    · rename_i g hgrant
      split
      · exact ⟨_, .move hadvance (.stay _)⟩
      · obtain ⟨hg, hadmits⟩ : g ∈ d.grants ∧
            g.admits (d.advance turn.wait).sys.clock (putObject headers contentType file) = true := by
          have hfound := List.find?_some hgrant
          rw [Bool.and_eq_true] at hfound
          exact ⟨List.mem_of_find?_eq_some hgrant, hfound.2⟩
        refine ⟨_, .move hadvance (.move (e := (.put g (putObject headers contentType file),
          .stored g.storageKey)) ?_ (.stay _))⟩
        exact if_pos ⟨hg, hadmits⟩
    · exact ⟨_, .move hadvance (.stay _)⟩

variable {good : Depot → VaultRequest → Turn → Prop} {q : VaultRequest} {x : VaultAnswer}

theorem Hosts.reachable (h : Hosts env ttl claims good d q x d')
    (hd : Reachable (depot env publisher ttl) d) : Reachable (depot env publisher ttl) d' := by
  obtain ⟨turn, -, hturn⟩ := h
  obtain ⟨es, htrail⟩ := host_trail hd turn q
  rw [hturn] at htrail
  exact hd.trail htrail

theorem Hosts.evolves (h : Hosts env ttl claims good d q x d')
    (hd : Reachable (depot env publisher ttl) d) : Evolves d.sys.store d'.sys.store := by
  obtain ⟨turn, -, hturn⟩ := h
  obtain ⟨es, htrail⟩ := host_trail hd turn q
  rw [hturn] at htrail
  exact depot_evolves htrail

/-! ### What stays -/

/-- What no request of the script takes away. -/
structure Keeps (d d' : Depot) : Prop where
  evolves : Evolves d.sys.store d'.sys.store
  publications : ∀ q ∈ d.sys.store.publications, q ∈ d'.sys.store.publications
  connections : d'.sys.store.connections = d.sys.store.connections
  accounts : d'.sys.store.accounts = d.sys.store.accounts

theorem Keeps.refl (d : Depot) : Keeps d d := ⟨.refl _, fun _ hq => hq, rfl, rfl⟩

theorem Keeps.trans {d'' : Depot} (h : Keeps d d') (k : Keeps d' d'') : Keeps d d'' where
  evolves := h.evolves.trans k.evolves
  publications q hq := k.publications q (h.publications q hq)
  connections := k.connections.trans h.connections
  accounts := k.accounts.trans h.accounts

/-- The commands of the API add publications, and leave channels to the OAuth callback. -/
theorem Effect.keeps {p : RelayPrincipal} {s t t' : Store} {c : Command} {w : World} {r : Reply}
    (h : Admitted p s c) (effect : Effect env w c r t t') :
    (∀ q ∈ t.publications, q ∈ t'.publications) ∧ t'.connections = t.connections ∧
      t'.accounts = t.accounts := by
  cases effect with
  | scheduled _ _ insert => exact ⟨fun q hq => Table.mem_of_mem_insert? insert hq, rfl, rfl⟩
  | connected => cases h
  | _ => exact ⟨fun q hq => hq, rfl, rfl⟩

theorem Hosts.keeps (h : Hosts env ttl claims good d q x d')
    (hd : Reachable (depot env publisher ttl) d) : Keeps d d' := by
  have hevolves := h.evolves hd
  obtain ⟨turn, -, hturn⟩ := h
  suffices hrest : (∀ q ∈ d.sys.store.publications, q ∈ d'.sys.store.publications) ∧
      d'.sys.store.connections = d.sys.store.connections ∧
      d'.sys.store.accounts = d.sys.store.accounts from ⟨hevolves, hrest.1, hrest.2.1, hrest.2.2⟩
  cases q with
  | api r =>
    obtain ⟨-, rfl⟩ := Prod.mk.inj hturn
    unfold Depot.answer
    split
    · exact ⟨fun q hq => hq, rfl, rfl⟩
    · exact ⟨fun q hq => hq, rfl, rfl⟩
    · rename_i hadmit
      obtain ⟨-, -, hhandle⟩ := admitRequest_eq_ok hadmit
      split
      · exact ⟨fun q hq => hq, rfl, rfl⟩
      · exact (runCommand_effect ‹_›).keeps (handle_admitted hhandle)
  | put url headers contentType file =>
    simp only [host] at hturn
    split at hturn
    · split at hturn <;> obtain ⟨-, rfl⟩ := Prod.mk.inj hturn <;> exact ⟨fun q hq => hq, rfl, rfl⟩
    · obtain ⟨-, rfl⟩ := Prod.mk.inj hturn
      exact ⟨fun q hq => hq, rfl, rfl⟩

end Trails

/-! ### A server in good health -/

/-- A turn of a server in good health: a `PUT` comes before its URL expires and everything before
the deadline, the identifiers are new, and the storage client signs, shows and stores objects.  What
it signs may be another URL in each turn, but no URL that was signed for another key. -/
structure Healthy (ttl : ℤ) (deadline : Time) (d : Depot) (q : VaultRequest) (turn : Turn) : Prop where
  prompt : ∀ url headers contentType file, q = .put url headers contentType file →
    (turn.wait : ℤ) < seconds ttl
  early : d.sys.clock + turn.wait < deadline
  signs : ∀ key, ∃ url, turn.draws.signer key = .ok url ∧
    ∀ g ∈ d.grants, g.url = url → g.storageKey = key
  shows : ∀ key, ∃ metadata, turn.draws.head key = .ok metadata
  stores : turn.refused = false
  newAsset : ∀ a ∈ d.sys.store.assets, a.id ≠ turn.draws.ids 0
  newPost : ∀ q ∈ d.sys.store.posts, q.id ≠ turn.draws.ids 0
  newVariant : ∀ v ∈ d.sys.store.variants, v.id ≠ turn.draws.ids 1
  newPublication : ∀ q ∈ d.sys.store.publications, q.id ≠ turn.draws.ids 0

/-- The relay lets the profile do its work: the token stands for a principal of the workspace with
the scopes and the brand, the storage is configured, and the connections are active connections of
the brand. -/
structure Serving (env : Env) (claims : Claims) (c : ProfileConfig) (p : RelayPrincipal)
    (tenant : Tenant) (brand : Brand) (s : Store) : Prop where
  principal : authenticateService env claims = .ok p
  workspace : getTenant p s = .ok tenant
  covered : getBrand p c.brandId.text s = .ok brand
  permitted : ∀ v ∈ [mediaUploadIntentView, mediaUploadConfirmView, postCollectionView,
    postApprovalView, publicationCollectionView], hasRelayScope v .post p s = true
  storage : env.b2Configured = true
  connections : ∀ id ∈ c.connectionIds, ∃ connection ∈ s.connections, connection.id = id ∧
    connection.isActive = true ∧ ∃ account ∈ s.accounts, account.id = connection.socialAccount ∧
      account.tenant = tenant.id ∧ account.brand = c.brandId

section Serving

variable {env : Env} {claims : Claims} {c : ProfileConfig} {p : RelayPrincipal} {tenant : Tenant}
  {brand : Brand} {d d' : Depot}

theorem Serving.brand_eq {s : Store} (h : Serving env claims c p tenant brand s) :
    brand.id = c.brandId ∧ c.brandId ∈ p.brandIds := by
  have hbrand := getBrand_eq_ok h.covered
  exact ⟨hbrand.1, hbrand.2.brandIds⟩

/-- The relay goes on to serve the profile while nobody touches its channels. -/
theorem Serving.mono (h : Serving env claims c p tenant brand d.sys.store) (keeps : Keeps d d') :
    Serving env claims c p tenant brand d'.sys.store where
  principal := h.principal
  workspace := (getTenant_same keeps.evolves.tenants rfl).trans h.workspace
  covered := getBrand_same keeps.evolves.tenants keeps.evolves.brands rfl h.brand_eq.2 h.covered
  permitted v hv := (hasRelayScope_same keeps.evolves.memberships).trans (h.permitted v hv)
  storage := h.storage
  connections := by
    rw [keeps.connections, keeps.accounts]
    exact h.connections

/-- A depot that serves the profile. -/
structure Served (env : Env) (publisher : Option Publisher) (ttl : ℤ) (claims : Claims)
    (c : ProfileConfig) (p : RelayPrincipal) (tenant : Tenant) (brand : Brand) (d : Depot) : Prop where
  reachable : Reachable (depot env publisher ttl) d
  serving : Serving env claims c p tenant brand d.sys.store

/-- Whatever a client asks, the depot goes on to serve the profile. -/
theorem Served.ends {publisher : Option Publisher} {ttl : ℤ}
    {good : Depot → VaultRequest → Turn → Prop} {α : Type} {call : VaultCall α}
    {φ : α → Depot → Prop} {ψ : VaultError → Depot → Prop}
    (served : Served env publisher ttl claims c p tenant brand d)
    (h : Ends (Hosts env ttl claims good) d call φ ψ) : Ends (Hosts env ttl claims good) d call
      (fun a t => φ a t ∧ Served env publisher ttl claims c p tenant brand t ∧ Keeps d t) ψ := by
  refine (h.invariant (fun s q x t hs hstep => ?_) ⟨served, .refl d⟩).mono (fun _ _ ha => ha)
    fun _ _ he => he.1
  obtain ⟨hserved, hkeeps⟩ := hs
  have hnext := hstep.keeps hserved.reachable
  exact ⟨⟨hstep.reachable hserved.reachable, hserved.serving.mono hnext⟩, hkeeps.trans hnext⟩

end Serving

/-- The client and the server take the image. -/
structure ImageFits (m : Workstation) (path : String) (file : VaultFile) (contentType : String) :
    Prop where
  found : m.file path = some file
  typed : pathContentType path = some contentType
  size : 0 < file.length ∧ file.length ≤ 10 * 1024 * 1024
  name : (trim file.name).length ≤ 255 ∧ trim file.name ≠ "" ∧ '\x00' ∉ (trim file.name).toList
  checksum : file.checksum.length = 64 ∧ ∀ x ∈ file.checksum.toList, x ∈ "0123456789abcdef".toList

/-- What the client asks to upload, once it is validated. -/
def imageUpload (file : VaultFile) (contentType : String) : MediaUpload :=
  ⟨trim file.name, contentType, file.length, file.checksum⟩

section Images

variable {m : Workstation} {path : String} {file : VaultFile} {contentType : String}

theorem ImageFits.supported (h : ImageFits m path file contentType) :
    contentType = "image/jpeg" ∨ contentType = "image/png" := by
  have htyped := h.typed
  unfold pathContentType at htyped
  split at htyped <;> cases htyped <;> simp

/-- A hexadecimal digit in lower case is left as it is by all that reads it. -/
theorem checksum_digits {x : Char} (h : x ∈ "0123456789abcdef".toList) :
    Text.isSpace x = false ∧ x ≠ '\x00' ∧ (Uuid.digitValue x).isSome = true ∧ x.toLower = x := by
  have hall : ("0123456789abcdef".toList.all fun x => Text.isSpace x = false ∧ x ≠ '\x00' ∧
      (Uuid.digitValue x).isSome = true ∧ x.toLower = x) = true := by decide +kernel
  exact of_decide_eq_true (List.all_eq_true.1 hall x h)

theorem ImageFits.lowerChecksum (h : ImageFits m path file contentType) :
    lowerChecksum file.checksum = file.checksum := by
  unfold Relay.lowerChecksum
  rw [List.map_congr_left fun x hx => (checksum_digits (h.checksum.2 x hx)).2.2.2, List.map_id',
    String.ofList_toList]

theorem ImageFits.checksum_ne (h : ImageFits m path file contentType) : file.checksum ≠ "" := by
  have hlength := h.checksum.1
  rintro heq
  rw [heq] at hlength
  exact absurd hlength (by decide)

theorem ImageFits.validChecksum (h : ImageFits m path file contentType) :
    validChecksum file.checksum = true := by
  have hall : file.checksum.toList.all (fun c => "0123456789abcdef".toList.contains c) = true := by
    rw [List.all_eq_true]
    intro x hx
    exact List.contains_iff_mem.2 (h.checksum.2 x hx)
  unfold Relay.validChecksum
  rw [h.lowerChecksum, hall, h.checksum.1]
  simp

/-- The object of an image. -/
def imageObject (file : VaultFile) (contentType : String) : StoredObject :=
  ⟨file.length, contentType, some file.checksum⟩

/-- The asset announced for an image. -/
def announced (env : Env) (now : Time) (id tenant brand : Uuid) (file : VaultFile)
    (contentType : String) : MediaAsset :=
  newMediaAsset env now id tenant brand (imageUpload file contentType)

/-- The object of an image is the one announced. -/
theorem ImageFits.no_mismatch (h : ImageFits m path file contentType) (env : Env) (now : Time)
    (id tenant brand : Uuid) : (imageObject file contentType).metadata.mismatch
      (announced env now id tenant brand file contentType) = false := by
  have htype : mediaType contentType = contentType := by
    rcases h.supported with rfl | rfl <;> decide
  have hchecksum : (announced env now id tenant brand file contentType).checksum = file.checksum :=
    h.lowerChecksum
  simp only [ObjectMetadata.mismatch, imageObject, StoredObject.metadata, Option.getD_some, htype,
    h.lowerChecksum, hchecksum]
  simp [announced, newMediaAsset, imageUpload]

/-- What the client sends of an image is valid. -/
theorem ImageFits.validate (h : ImageFits m path file contentType) (brandId : Uuid) :
    MediaUploadIntentData.validate ⟨brandId, file.name, contentType, file.length, some file.checksum⟩ =
      .ok (imageUpload file contentType) := by
  obtain ⟨hlength, hempty, hnul⟩ := h.name
  have hfilename : charField "filename" false (some 255) file.name = .ok (trim file.name) := by
    simp [charField, untrimmedField, hempty, hnul, not_lt.2 hlength]
  have hchoice : choiceField "content_type" ["image/jpeg", "image/png"] contentType =
      .ok contentType := if_pos (by simpa using h.supported)
  have hsize : integerField "size_bytes" 1 (10 * 1024 * 1024) file.length = .ok file.length := by
    have := h.size
    unfold integerField
    rw [if_neg (by omega), if_neg (by omega)]
  have htrim : trim file.checksum = file.checksum := by
    unfold trim
    rw [Text.strip_of_forall fun x hx => (checksum_digits (h.checksum.2 x hx)).1, String.ofList_toList]
  have hnot : '\x00' ∉ file.checksum.toList := fun hx => (checksum_digits (h.checksum.2 _ hx)).2.1 rfl
  have hchecksum : charField "checksum" true (some 64) file.checksum = .ok file.checksum := by
    simp [charField, untrimmedField, htrim, hnot, h.checksum.1]
  have hmatches : matchesChecksum file.checksum = true := by
    simp only [matchesChecksum, h.checksum.1, decide_true, Bool.true_and, List.all_eq_true]
    exact fun x hx => (checksum_digits (h.checksum.2 x hx)).2.2.1
  refine bind_eq_ok.2 ⟨_, hfilename, bind_eq_ok.2 ⟨_, hchoice, bind_eq_ok.2 ⟨_, hsize,
    bind_eq_ok.2 ⟨_, hchecksum, ?_⟩⟩⟩⟩
  rw [if_neg fun hbad => hbad.2 hmatches]
  rfl

end Images

/-! ### What the server answers -/

section Answers

variable {env : Env} {ttl : ℤ} {claims : Claims} {c : ProfileConfig} {p : RelayPrincipal}
  {tenant : Tenant} {brand : Brand} {d : Depot} {draws : Draws}
  {deadline : Time} {r : ApiRequest} {φ : Data → Depot → Prop} {ψ : VaultError → Depot → Prop}

/-- A request that succeeds in every turn returns its body. -/
theorem invoke_returns (h : ∀ turn, Healthy ttl deadline d (.api r) turn → ∃ a d',
      (d.advance turn.wait).answer env ttl claims turn.draws r = (.ok a, d') ∧ φ a.data d') :
    Ends (Hosts env ttl claims (Healthy ttl deadline)) d (invokeRelayJson r) φ ψ := by
  refine ends_bind (ends_send fun x t hx => ?_)
  obtain ⟨turn, healthy, hturn⟩ := hx
  obtain ⟨a, d', hanswer, hφ⟩ := h turn healthy
  obtain ⟨rfl, rfl⟩ := Prod.mk.inj hturn
  rw [hanswer]
  exact ends_pure hφ

/-- A request that is refused in every turn raises. -/
theorem invoke_raises (h : ∀ turn, Healthy ttl deadline d (.api r) turn → ∃ e d',
      (d.advance turn.wait).answer env ttl claims turn.draws r = (.error e, d') ∧
        ψ (.httpResponse e) d') :
    Ends (Hosts env ttl claims (Healthy ttl deadline)) d (invokeRelayJson r) φ ψ := by
  refine ends_bind (ends_send fun x t hx => ?_)
  obtain ⟨turn, healthy, hturn⟩ := hx
  obtain ⟨e, d', hanswer, hψ⟩ := h turn healthy
  obtain ⟨rfl, rfl⟩ := Prod.mk.inj hturn
  rw [hanswer]
  exact ends_throw hψ

/-- A command that a request submits. -/
theorem admitRequest_command {s : Store} {now : Time} {command : Command}
    (serving : Serving env claims c p tenant brand s)
    (permitted : r.route.2 = .post ∧ r.route.1 ∈ [mediaUploadIntentView, mediaUploadConfirmView,
      postCollectionView, postApprovalView, publicationCollectionView])
    (handled : handle env now p s r = .ok (.command command)) :
    admitRequest env now (.service claims) r s = .ok (p, .command command) := by
  have hprincipal : authenticate env s (.service claims) = .ok p := serving.principal
  rw [admitRequest_of hprincipal (permitted.1 ▸ serving.permitted _ permitted.2), handled]
  rfl

/-- The answer to a request whose command commits. -/
theorem answer_committed {command : Command} {reply : Reply} {store : Store}
    (admitted : admitRequest env d.sys.clock (.service claims) r d.sys.store =
      .ok (p, .command command))
    (committed : runCommand env ⟨{ draws with head := d.head draws.head }, d.sys.clock⟩ command
      d.sys.store = .ok (reply, store)) :
    d.answer env ttl claims draws r = ((respond store reply).getD (.ok ⟨200, .noContent⟩),
      { d with
        sys := { d.sys with store }
        grants := d.grants ++ (reply.grant ttl d.sys.clock).toList }) := by
  simp only [Depot.answer, admitted, committed]

/-- The answer to a request whose command is rolled back. -/
theorem answer_refused {command : Command} {e : ServiceError}
    (admitted : admitRequest env d.sys.clock (.service claims) r d.sys.store =
      .ok (p, .command command))
    (refused : runCommand env ⟨{ draws with head := d.head draws.head }, d.sys.clock⟩ command
      d.sys.store = .error e) :
    d.answer env ttl claims draws r = (.error (refusal command e), d) := by
  simp only [Depot.answer, admitted, refused]

end Answers

/-! ### Images -/

section Uploads

variable {env : Env} {ttl : ℤ} {claims : Claims} {c : ProfileConfig} {p : RelayPrincipal}
  {tenant : Tenant} {brand : Brand} {d : Depot} {deadline : Time}
  {m : Workstation} {path : String} {file : VaultFile} {contentType : String}

theorem createMediaUploadIntent_ok {w : World} {s : Store} {assets : Table MediaAsset}
    (subject : String) {url : String} (fits : ImageFits m path file contentType)
    (insert : s.assets.insert? (announced env w.now (w.ids 0) tenant.id c.brandId file contentType) =
      some assets)
    (signed : presignedUrl env.toSettings w.signer
      (announced env w.now (w.ids 0) tenant.id c.brandId file contentType).storageKey = .ok url) :
    runCommand env w (.createMediaUploadIntent tenant.id c.brandId subject
      (imageUpload file contentType)) s =
        .ok (.uploadIntent ⟨announced env w.now (w.ids 0) tenant.id c.brandId file contentType, url⟩,
          { s with assets }.log (serviceEvent tenant.id c.brandId subject
            "media.upload_intent_created" "media_asset" (w.ids 0)
            [("content_type", .str contentType), ("size_bytes", .int file.length)])) := by
  have hsize : 0 < file.length ∧ file.length ≤ maxImageBytes := fits.size
  have htype : contentType ∈ supportedImageTypes := by
    simpa [supportedImageTypes] using fits.supported
  have hvalid : ¬ ¬ validChecksum (imageUpload file contentType).checksum = true :=
    not_not.2 fits.validChecksum
  refine reply_eq_ok.2 ⟨⟨announced env w.now (w.ids 0) tenant.id c.brandId file contentType, url⟩, ?_, rfl⟩
  unfold createMediaUploadIntent
  rw [if_neg (by simp [imageUpload, htype, hsize]), if_neg hvalid]
  refine bind_eq_ok.2 ⟨assets, create_eq_ok.2 insert, ?_⟩
  unfold announced at signed
  simp only [signed]
  rfl

/-- An upload intent: the asset is announced, and its URL is signed. -/
theorem uploadIntent_returns (serving : Serving env claims c p tenant brand d.sys.store)
    (fits : ImageFits m path file contentType) :
    Ends (Hosts env ttl claims (Healthy ttl deadline)) d
      (invokeRelayJson (.createUploadIntent
        ⟨c.brandId, file.name, contentType, file.length, some file.checksum⟩))
      (fun data d' => ∃ id assets entry asset url,
        asset = announced env d'.sys.clock id tenant.id c.brandId file contentType ∧
        d.sys.store.assets.insert? asset = some assets ∧
        d'.sys.store = { d.sys.store with assets }.log entry ∧ d'.objects = d.objects ∧
        ⟨url, asset.storageKey, contentType, file.checksum, d'.sys.clock + seconds ttl⟩ ∈ d'.grants ∧
        (∀ g ∈ d'.grants, g.url = url → g.storageKey = asset.storageKey) ∧
        data = .uploadIntent (mediaAssetData asset) url
          [("Content-Type", contentType), ("x-amz-meta-sha256", file.checksum)])
      fun _ _ => False := by
  refine invoke_returns fun turn healthy => ?_
  set asset := announced env (d.advance turn.wait).sys.clock (turn.draws.ids 0) tenant.id c.brandId
    file contentType with hasset
  obtain ⟨assets, hinsert⟩ : ∃ assets, d.sys.store.assets.insert? asset = some assets :=
    Table.insert?_isSome healthy.newAsset
  have hchecksum : asset.checksum = file.checksum := fits.lowerChecksum
  have hhandle : handle env (d.advance turn.wait).sys.clock p (d.advance turn.wait).sys.store
      (.createUploadIntent ⟨c.brandId, file.name, contentType, file.length, some file.checksum⟩) =
        .ok (.command (.createMediaUploadIntent tenant.id brand.id p.subject
          (imageUpload file contentType))) :=
    bind_eq_ok.2 ⟨_, fits.validate c.brandId, bind_eq_ok.2 ⟨_, serving.covered,
      bind_eq_ok.2 ⟨_, serving.workspace, rfl⟩⟩⟩
  obtain ⟨url, hsigned, hnames⟩ := healthy.signs asset.storageKey
  have hurl : presignedUrl env.toSettings turn.draws.signer asset.storageKey = .ok url := by
    simp [presignedUrl, serving.storage, hsigned]
  have hrun := createMediaUploadIntent_ok (s := (d.advance turn.wait).sys.store)
    (w := ⟨{ turn.draws with head := (d.advance turn.wait).head turn.draws.head },
      (d.advance turn.wait).sys.clock⟩) p.subject fits hinsert hurl
  rw [serving.brand_eq.1] at hhandle
  have hadmit := admitRequest_command serving ⟨rfl, by simp [ApiRequest.route]⟩ hhandle
  have hgrant : Reply.grant ttl (d.advance turn.wait).sys.clock (.uploadIntent ⟨asset, url⟩) =
      some ⟨url, asset.storageKey, contentType, asset.checksum,
        (d.advance turn.wait).sys.clock + seconds ttl⟩ := rfl
  refine ⟨_, _, answer_committed hadmit hrun, _, assets, _, asset, url, hasset, hinsert, rfl, rfl,
    ?_, fun g hg hgurl => ?_, ?_⟩
  · refine List.mem_append_right _ (Option.mem_toList.2 ?_)
    rw [hgrant, hchecksum]
  · rcases List.mem_append.1 hg with hg | hg
    · exact hnames g hg hgurl
    · rw [hgrant] at hg
      rw [List.mem_singleton.1 hg]
  · have hne : asset.checksum ≠ "" := hchecksum ▸ fits.checksum_ne
    rw [if_pos hne, hchecksum]
    rfl

/-- The `PUT` of an image: its object is written. -/
theorem putImage_returns {url key : String}
    (granted : ⟨url, key, contentType, file.checksum, d.sys.clock + seconds ttl⟩ ∈ d.grants)
    (names : ∀ g ∈ d.grants, g.url = url → g.storageKey = key) :
    Ends (Hosts env ttl claims (Healthy ttl deadline)) d
      (putImage url [("Content-Type", contentType), ("x-amz-meta-sha256", file.checksum)]
        contentType file)
      (fun _ d' => d'.sys.store = d.sys.store ∧
        d'.objects = Function.update d.objects key (some (imageObject file contentType)))
      fun _ _ => False := by
  refine ends_bind (ends_send fun x t hx => ?_)
  obtain ⟨turn, healthy, hturn⟩ := hx
  have hprompt := healthy.prompt _ _ _ _ rfl
  have hobject : putObject (List.filter (fun h : String × String => h.1 ≠ "Content-Type")
      [("Content-Type", contentType), ("x-amz-meta-sha256", file.checksum)]) contentType file =
        imageObject file contentType := rfl
  obtain ⟨g, hgrant, hkey⟩ : ∃ g, (d.advance turn.wait).grantOf url (imageObject file contentType) =
      some g ∧ g.storageKey = key := by
    have hsome : ((d.advance turn.wait).grantOf url (imageObject file contentType)).isSome = true := by
      refine List.find?_isSome.2 ⟨_, granted, ?_⟩
      have hclock : (d.advance turn.wait).sys.clock < d.sys.clock + seconds ttl :=
        Int.add_lt_add_left hprompt _
      simp [UploadGrant.admits, imageObject, hclock]
    obtain ⟨g, hg⟩ := Option.isSome_iff_exists.1 hsome
    have hfound := List.find?_some hg
    rw [Bool.and_eq_true, decide_eq_true_iff] at hfound
    exact ⟨g, hg, names g (List.mem_of_find?_eq_some hg) hfound.1⟩
  simp only [host, hobject, hgrant, healthy.stores, hkey] at hturn
  obtain ⟨rfl, rfl⟩ := Prod.mk.inj hturn
  exact ends_pure ⟨rfl, rfl⟩

/-- The confirmation of an image whose object is written. -/
theorem confirmUpload_returns (asset : MediaAsset)
    (serving : Serving env claims c p tenant brand d.sys.store) (mem : asset ∈ d.sys.store.assets)
    (owner : asset.tenant = tenant.id ∧ asset.brand = c.brandId) (pending : asset.uploadState = .pending)
    (object : ∃ o, d.objects asset.storageKey = some o ∧ o.metadata.mismatch asset = false) :
    Ends (Hosts env ttl claims (Healthy ttl deadline)) d
      (invokeRelayJson (.confirmUpload asset.id))
      (fun _ d' => d'.objects = d.objects ∧ ∃ now entry,
        d'.sys.store = (d.sys.store.setUploadState now asset.id .ready).log entry)
      fun _ _ => False := by
  refine invoke_returns fun turn healthy => ?_
  obtain ⟨o, hobject, hmatch⟩ := object
  have hfind : ((d.advance turn.wait).sys.store.assets.find? fun a =>
      a.id = asset.id && a.tenant = tenant.id && decide (a.brand ∈ p.brandIds)) = some asset := by
    refine Table.find?_of_key mem (by simp [owner, serving.brand_eq.2]) fun a ha => ?_
    obtain ⟨⟨hid, -⟩, -⟩ : (a.id = asset.id ∧ a.tenant = tenant.id) ∧ a.brand ∈ p.brandIds := by
      simpa using ha
    exact hid
  have hhandle : handle env (d.advance turn.wait).sys.clock p (d.advance turn.wait).sys.store
      (.confirmUpload asset.id) = .ok (.command (.confirmMediaUpload asset.id tenant.id p.subject)) :=
    bind_eq_ok.2 ⟨_, serving.workspace, bind_eq_ok.2 ⟨_, orNotFound_eq_ok.2 hfind, rfl⟩⟩
  have hhead : (d.advance turn.wait).head turn.draws.head asset.storageKey = .ok o.metadata := by
    obtain ⟨metadata, hshown⟩ := healthy.shows asset.storageKey
    have hobject' : (d.advance turn.wait).objects asset.storageKey = some o := hobject
    simp only [Depot.head, hshown, hobject']
  have hrun := confirm_match p.subject (s := (d.advance turn.wait).sys.store)
    (w := ⟨{ turn.draws with head := (d.advance turn.wait).head turn.draws.head },
      (d.advance turn.wait).sys.clock⟩) mem pending serving.storage hhead hmatch
  rw [owner.1] at hrun
  have hadmit := admitRequest_command serving ⟨rfl, by simp [ApiRequest.route]⟩ hhandle
  exact ⟨_, _, answer_committed hadmit hrun, rfl, _, _, rfl⟩

/-- Nothing but uploads. -/
structure Uploaded (d d' : Depot) : Prop where
  keeps : Keeps d d'
  posts : d'.sys.store.posts = d.sys.store.posts
  variants : d'.sys.store.variants = d.sys.store.variants
  publications : d'.sys.store.publications = d.sys.store.publications
  objects : ∀ a ∈ d.sys.store.assets, d'.objects a.storageKey = d.objects a.storageKey

theorem Uploaded.refl (d : Depot) : Uploaded d d := ⟨.refl d, rfl, rfl, rfl, fun _ _ => rfl⟩

theorem Uploaded.trans {d' d'' : Depot} (h : Uploaded d d') (k : Uploaded d' d'') :
    Uploaded d d'' where
  keeps := h.keeps.trans k.keeps
  posts := k.posts.trans h.posts
  variants := k.variants.trans h.variants
  publications := k.publications.trans h.publications
  objects a ha := by
    obtain ⟨_, ha', _, _, rfl, -⟩ := h.keeps.evolves.assets a ha
    exact (k.objects _ ha').trans (h.objects a ha)

/-- The asset has the image of the path: it is ready, in the brand, and its object is in the bucket. -/
structure HasImage (m : Workstation) (tenant brand : Uuid) (d : Depot) (path : String)
    (asset : MediaAsset) : Prop where
  mem : asset ∈ d.sys.store.assets
  owner : asset.tenant = tenant ∧ asset.brand = brand
  ready : asset.uploadState = .ready
  image : ∃ file contentType, m.file path = some file ∧ pathContentType path = some contentType ∧
    asset.contentType = contentType ∧ asset.sizeBytes = file.length ∧ asset.checksum = file.checksum ∧
    d.objects asset.storageKey = some (imageObject file contentType)

/-- The asset with this identifier has the image of the path. -/
def Pictures (m : Workstation) (tenant brand : Uuid) (d : Depot) (path : String) (id : Uuid) : Prop :=
  ∃ asset, asset.id = id ∧ HasImage m tenant brand d path asset

theorem Pictures.mono {d' : Depot} {tenant brand id : Uuid} (h : Pictures m tenant brand d path id)
    (keeps : Keeps d d')
    (objects : ∀ a ∈ d.sys.store.assets, d'.objects a.storageKey = d.objects a.storageKey) :
    Pictures m tenant brand d' path id := by
  obtain ⟨a, hid, ⟨mem, owner, ready, file, contentType, hfile, htype, hcolumns⟩⟩ := h
  obtain ⟨_, mem', _, _, rfl, hstays⟩ := keeps.evolves.assets a mem
  have hobject := objects a mem
  refine ⟨_, ?_, ⟨mem', owner, hstays ready, file, contentType, hfile, htype, hcolumns.1,
    hcolumns.2.1, hcolumns.2.2.1, ?_⟩⟩
  · exact hid
  · exact hobject.trans hcolumns.2.2.2

/-- **An image is uploaded** under a new identifier. -/
theorem getRelayMediaAsset_returns {publisher : Option Publisher}
    (served : Served env publisher ttl claims c p tenant brand d)
    (fits : ImageFits m path file contentType) :
    Ends (Hosts env ttl claims (Healthy ttl deadline)) d (getRelayMediaAsset m c path)
      (fun id d' => Uploaded d d' ∧ Pictures m tenant.id c.brandId d' path id ∧
        ∀ a ∈ d.sys.store.assets, a.id ≠ id)
      fun _ _ => False := by
  unfold getRelayMediaAsset
  have hsize := fits.size.2
  simp only [fits.found, fits.typed, if_neg (not_lt.2 hsize)]
  refine (served.ends (uploadIntent_returns served.serving fits)).bind fun data d₁ h₁ => ?_
  obtain ⟨⟨id, assets, entry, asset, url, hasset, hinsert, hstore₁, hobjects₁, hgrant, hnames, rfl⟩,
    served₁, keeps₁⟩ := h₁
  have hmem₁ : asset ∈ d₁.sys.store.assets := by
    rw [hstore₁]
    exact Table.mem_self_insert? hinsert
  refine (served₁.ends (putImage_returns hgrant hnames)).bind fun _ d₂ h₂ => ?_
  obtain ⟨⟨hstore₂, hobjects₂⟩, served₂, keeps₂⟩ := h₂
  have hobject : d₂.objects asset.storageKey = some (imageObject file contentType) := by
    rw [hobjects₂, Function.update_self]
  have hmatch : (imageObject file contentType).metadata.mismatch asset = false := by
    rw [hasset]
    exact fits.no_mismatch _ _ _ _ _
  refine (served₂.ends (confirmUpload_returns asset served₂.serving
    (hstore₂ ▸ hmem₁) (hasset ▸ ⟨rfl, rfl⟩) (hasset ▸ rfl) ⟨_, hobject, hmatch⟩)).bind
      fun _ d₃ h₃ => ends_pure ?_
  obtain ⟨⟨hobjects₃, now, entry', hstore₃⟩, served₃, keeps₃⟩ := h₃
  rw [hstore₂] at hstore₃
  refine ⟨⟨(keeps₁.trans keeps₂).trans keeps₃, ?_, ?_, ?_, fun a ha => ?_⟩,
    ⟨{ asset with uploadState := .ready, updatedAt := now }, rfl, ?_⟩,
    Table.fresh_of_insert? hinsert⟩
  · rw [hstore₃, hstore₁]; rfl
  · rw [hstore₃, hstore₁]; rfl
  · rw [hstore₃, hstore₁]; rfl
  · -- no asset that was there has the key of the new one
    have hne : a.storageKey ≠ asset.storageKey := by
      intro hkey
      have ha₁ : a ∈ d₁.sys.store.assets := by
        rw [hstore₁]
        exact Table.mem_of_mem_insert? hinsert ha
      have heq := asset_of_storageKey (sys_reachable served₁.reachable) ha₁ hmem₁ hkey
      exact Table.fresh_of_insert? hinsert a ha (by rw [heq])
    rw [hobjects₃, hobjects₂, Function.update_of_ne hne, hobjects₁]
  · have hcolumns : asset.contentType = contentType ∧ asset.sizeBytes = file.length ∧
        asset.checksum = file.checksum := hasset ▸ ⟨rfl, rfl, fits.lowerChecksum⟩
    refine ⟨?_, hasset ▸ ⟨rfl, rfl⟩, rfl, file, contentType, fits.found, fits.typed, hcolumns.1,
      hcolumns.2.1, hcolumns.2.2, ?_⟩
    · rw [hstore₃]
      exact Table.mem_update_self hmem₁ rfl
    · rw [hobjects₃]
      exact hobject

end Uploads

end Relay
