import Relay.Constraints
import Relay.OwnContent
import Relay.Submission

/-!
# A batch that is submitted twice

A first run of `SubmitBatch` is cut off anywhere; a second one meets a server in good health.

* `submitItems_returns`, `submitItems_raises`: the second run, by the posts it finds;
* `Opened`, `submitBatch_cut`: what the first run leaves;
* `InPlace`: an item has one post, with its text, images and date, and one publication for each
  connection;
* `resubmits_iff`: the second run completes and leaves the items in place if and only if the first
  one has left no post of an item (and the profile names no connection twice).
-/

namespace Relay

open Relational Sequence Transition Exchange

section Batch

variable {env : Env} {publisher : Option Publisher} {ttl : ℤ} {claims : Claims} {c : ProfileConfig}
  {p : RelayPrincipal} {tenant : Tenant} {brand : Brand} {d d' : Depot}
  {deadline : Time} {m : Workstation}

/-! ### The items of a batch -/

/-- What happens beside the rows of an item that is submitted already. -/
structure Beside (d d' : Depot) : Prop where
  keeps : Keeps d d'
  objects : ∀ a ∈ d.sys.store.assets, d'.objects a.storageKey = d.objects a.storageKey
  publications : ∀ q ∈ d'.sys.store.publications,
    q ∈ d.sys.store.publications ∨ ∀ v ∈ d.sys.store.variants, v.id ≠ q.postVariant

theorem Beside.refl (d : Depot) : Beside d d := ⟨.refl d, fun _ _ => rfl, fun _ hq => .inl hq⟩

theorem Adds.beside {item : ManifestItem} (h : Adds env item d d') : Beside d d' :=
  ⟨h.keeps, h.objects, fun q hq => (h.publications q hq).imp id And.right⟩

theorem Beside.trans {d'' : Depot} (h : Beside d d') (k : Beside d' d'') : Beside d d'' where
  keeps := h.keeps.trans k.keeps
  objects a ha := by
    obtain ⟨_, ha', _, _, rfl, -⟩ := h.keeps.evolves.assets a ha
    exact (k.objects _ ha').trans (h.objects a ha)
  publications q hq := by
    rcases k.publications q hq with hq | hnew
    · exact h.publications q hq
    · refine .inr fun v hv => ?_
      obtain ⟨_, hv', rfl⟩ := h.keeps.evolves.variants v hv
      exact hnew _ hv'

/-- An item that is submitted stays so. -/
theorem Submitted.mono {tenant : Uuid} {item : ManifestItem} {post : Post} {v : PostVariant}
    {qs : List Publication} (h : Submitted env m c tenant item d post v qs) (hd : Beside d d') :
    ∃ post', Submitted env m c tenant item d' post' v qs := by
  obtain ⟨_, hpost, _, _, rfl, -⟩ := hd.keeps.evolves.posts post h.mem
  obtain ⟨_, hv, rfl⟩ := hd.keeps.evolves.variants v h.variant.1
  refine ⟨_, hpost, h.key, h.text, ⟨hv, h.variant.2⟩, ?_, fun q => ?_, h.nodup, h.channels, h.dates⟩
  · exact h.images.imp fun path id hid => hid.mono hd.keeps hd.objects
  · rw [← h.publications q]
    constructor
    · rintro ⟨hq, hqv⟩
      rcases hd.publications q hq with hq | hnew
      · exact ⟨hq, hqv⟩
      · exact absurd hqv.symm (hnew _ h.variant.1)
    · exact fun hq => ⟨hd.keeps.publications q hq.1, hq.2⟩

/-- The keys of another item stay unused. -/
theorem Adds.unposted {tenant : Uuid} {item other : ManifestItem}
    (hsha : Function.Injective env.sha256) (h : Adds env item d d') (hne : other.id ≠ item.id)
    (unposted : Unposted env tenant other d.sys.store) : Unposted env tenant other d'.sys.store := by
  refine Table.find?_eq_none.2 fun q hq hfound => ?_
  rw [Bool.and_eq_true, decide_eq_true_iff, decide_eq_true_iff] at hfound
  rcases h.posts q hq with ⟨r, hr, htenant, hkey⟩ | hkey
  · exact Table.find?_eq_none.1 unposted r hr (by simp [htenant, hkey, hfound])
  · exact hne (relayIdempotencyKey_injective hsha (hfound.2.symm.trans hkey))

theorem Adds.unpublished {tenant : Uuid} {item other : ManifestItem}
    (hsha : Function.Injective env.sha256) (h : Adds env item d d') (hne : other.id ≠ item.id)
    (unpublished : Unpublished env tenant other d.sys.store) :
    Unpublished env tenant other d'.sys.store := by
  intro i
  refine Table.find?_eq_none.2 fun q hq hfound => ?_
  rw [Bool.and_eq_true, decide_eq_true_iff, decide_eq_true_iff] at hfound
  rcases h.publications q hq with hq | ⟨⟨j, hkey⟩, -⟩
  · exact Table.find?_eq_none.1 (unpublished i) q hq (by simp [hfound])
  · exact hne (publicationKey_injective hsha (hfound.2.symm.trans hkey)).1

/-- **A batch whose keys are unused is submitted.** -/
theorem submitItems_returns (hsha : Function.Injective env.sha256)
    (served : Served env publisher ttl claims c p tenant brand d) (hconnections : c.connectionIds ≠ [])
    {items : List ManifestItem} (ids : (items.map (·.id)).Nodup)
    (fits : ∀ item ∈ items, ItemFits env m c deadline item)
    (unposted : ∀ item ∈ items, Unposted env tenant.id item d.sys.store)
    (unpublished : ∀ item ∈ items, Unpublished env tenant.id item d.sys.store) :
    Ends (Hosts env ttl claims (Healthy ttl deadline)) d (submitItems env m c items)
      (fun _ d' => Beside d d' ∧
        ∀ item ∈ items, ∃ post v qs, Submitted env m c tenant.id item d' post v qs)
      fun _ _ => False := by
  induction items generalizing d with
  | nil => exact ends_pure ⟨.refl d, fun item hitem => absurd hitem List.not_mem_nil⟩
  | cons item items ih =>
    obtain ⟨hid, ids⟩ := List.nodup_cons.1 ids
    refine (served.ends (submitItem_returns hsha served hconnections
      (fits item List.mem_cons_self) (unposted item List.mem_cons_self)
      (unpublished item List.mem_cons_self))).bind fun result d₁ h₁ => ?_
    obtain ⟨⟨hadds, hsubmitted⟩, served₁, -⟩ := h₁
    have hne : ∀ other ∈ items, other.id ≠ item.id := by
      rintro other hother heq
      have hmem : other.id ∈ items.map (·.id) := List.mem_map_of_mem hother
      rw [heq] at hmem
      exact hid hmem
    refine (ih served₁ ids (fun x hx => fits x (List.mem_cons_of_mem _ hx))
      (fun x hx => hadds.unposted hsha (hne x hx) (unposted x (List.mem_cons_of_mem _ hx)))
      (fun x hx => hadds.unpublished hsha (hne x hx) (unpublished x (List.mem_cons_of_mem _ hx)))).bind
        fun results d₂ h₂ => ends_pure ?_
    obtain ⟨hbeside, hitems⟩ := h₂
    refine ⟨hadds.beside.trans hbeside, fun x hx => ?_⟩
    rcases List.mem_cons.1 hx with rfl | hx
    · obtain ⟨post, v, qs, h⟩ := hsubmitted
      obtain ⟨post', h'⟩ := h.mono hbeside
      exact ⟨post', v, qs, h'⟩
    · exact hitems x hx

/-- A post of an item stays. -/
theorem posted_mono {tenant : Uuid} {item : ManifestItem} {s s' : Store} (h : Evolves s s')
    (posted : ¬ Unposted env tenant item s) : ¬ Unposted env tenant item s' := by
  intro hnone
  obtain ⟨q, hq⟩ := Option.ne_none_iff_exists'.1 posted
  have hfound := Table.find?_some hq
  obtain ⟨_, hq', _, _, rfl, -⟩ := h.posts q (Table.mem_of_find? hq)
  exact Table.find?_eq_none.1 hnone _ hq' hfound

/-- **A batch one of whose items has its post does not complete.** -/
theorem submitItems_raises (hsha : Function.Injective env.sha256)
    (served : Served env publisher ttl claims c p tenant brand d) {items : List ManifestItem}
    (fits : ∀ item ∈ items, ItemFits env m c deadline item)
    (posted : ∃ item ∈ items, ¬ Unposted env tenant.id item d.sys.store) :
    Ends (Hosts env ttl claims (Healthy ttl deadline)) d (submitItems env m c items)
      (fun _ _ => False) fun _ _ => True := by
  induction items generalizing d with
  | nil =>
    obtain ⟨item, hitem, -⟩ := posted
    cases hitem
  | cons item items ih =>
    by_cases hitem : Unposted env tenant.id item d.sys.store
    · -- some later item has its post, and still has it when its turn comes
      obtain ⟨other, hother, hposted⟩ := posted
      have hlater : other ∈ items := by
        rcases List.mem_cons.1 hother with rfl | hother
        · exact absurd hitem hposted
        · exact hother
      have hany : Ends (Hosts env ttl claims (Healthy ttl deadline)) d (submitItem env m c item)
          (fun _ _ => True) fun _ _ => True := fun _ _ _ => ⟨fun _ _ => trivial, fun _ _ => trivial⟩
      refine (served.ends hany).bind fun result d₁ h₁ => ?_
      obtain ⟨-, served₁, keeps₁⟩ := h₁
      refine (ih served₁ (fun x hx => fits x (List.mem_cons_of_mem _ hx))
        ⟨other, hlater, posted_mono keeps₁.evolves hposted⟩).bind fun _ _ h => h.elim
    · refine ((submitItem_raises hsha served (fits item List.mem_cons_self) hitem).mono
        (fun _ _ h => h) fun _ _ _ => trivial).bind fun _ _ h => h.elim

/-! ### What the first run leaves -/

/-- Any other request leaves the publications as they are. -/
theorem Hosts.publications {good : Depot → VaultRequest → Turn → Prop} {q : VaultRequest}
    {x : VaultAnswer} (h : Hosts env ttl claims good d q x d')
    (hq : ∀ key data, q ≠ .api (.createPublication key data)) :
    d'.sys.store.publications = d.sys.store.publications := by
  obtain ⟨turn, -, hturn⟩ := h
  cases q with
  | api r =>
    obtain ⟨-, rfl⟩ := Prod.mk.inj hturn
    unfold Depot.answer
    split
    · rfl
    · rfl
    · rename_i hadmit
      obtain ⟨-, -, hhandle⟩ := admitRequest_eq_ok hadmit
      split
      · rfl
      · cases runCommand_effect ‹_› with
        | scheduled =>
          obtain ⟨key, data, rfl⟩ := handle_schedules hhandle
          exact absurd rfl (hq key data)
        | _ => rfl
  | put url headers contentType file =>
    simp only [host] at hturn
    split at hturn
    · split at hturn <;> obtain ⟨-, rfl⟩ := Prod.mk.inj hturn <;> rfl
    · obtain ⟨-, rfl⟩ := Prod.mk.inj hturn
      rfl

/-- After a POST of a post that succeeds, the key has its post. -/
theorem answer_created {draws : Draws} {key : String} {data : PostCreateData} {response : Response}
    (principal : authenticateService env claims = .ok p)
    (workspace : getTenant p d.sys.store = .ok tenant)
    (h : d.answer env ttl claims draws (.createPost (some key) data) = (.ok response, d')) :
    findPost tenant.id key d'.sys.store ≠ none := by
  unfold Depot.answer at h
  split at h
  · cases h
  · -- the view does not answer by itself
    rename_i hadmit
    obtain ⟨-, -, hhandle⟩ := admitRequest_eq_ok hadmit
    simp [handle, bind_eq_ok] at hhandle
  · rename_i p' command hadmit
    obtain ⟨hprincipal, -, hhandle⟩ := admitRequest_eq_ok hadmit
    obtain rfl : p = p' := Except.ok.inj (principal.symm.trans hprincipal)
    obtain ⟨key', hkey', hhandle⟩ := bind_eq_ok.1 hhandle
    obtain ⟨payload, -, hhandle⟩ := bind_eq_ok.1 hhandle
    obtain ⟨brand', -, hhandle⟩ := bind_eq_ok.1 hhandle
    obtain ⟨tenant', htenant', hhandle⟩ := bind_eq_ok.1 hhandle
    obtain rfl : tenant = tenant' := Except.ok.inj (workspace.symm.trans htenant')
    cases hhandle
    obtain rfl : key = key' := by
      unfold idempotencyHeader at hkey'
      split at hkey'
      · cases hkey'
      · split at hkey' <;> cases hkey'
        rename_i heq _
        exact Option.some.inj heq
    split at h
    · cases h
    · rename_i reply store hrun
      obtain ⟨-, rfl⟩ := Prod.mk.inj h
      cases runCommand_effect hrun with
      | draftReplayed found => exact fun hnone => Option.some_ne_none _ (found.symm.trans hnone)
      | drafted _ insert =>
        exact fun hnone => Table.find?_eq_none.1 hnone _ (Table.mem_self_insert? insert) (by simp [newPost])

/-- What a run of the script has left so far: publications only if an item has its post. -/
structure Opened (env : Env) (publisher : Option Publisher) (ttl : ℤ) (p : RelayPrincipal)
    (tenant : Tenant) (items : List ManifestItem) (publications : Table Publication) (d : Depot) :
    Prop where
  reachable : Reachable (depot env publisher ttl) d
  workspace : getTenant p d.sys.store = .ok tenant
  posted : (∃ item ∈ items, ¬ Unposted env tenant.id item d.sys.store) ∨
    d.sys.store.publications = publications

section Opened

variable {good : Depot → VaultRequest → Turn → Prop} {items : List ManifestItem}
  {publications : Table Publication}

/-- A request that schedules nothing keeps it so, and any request once an item has its post. -/
theorem Opened.host (h : Opened env publisher ttl p tenant items publications d) {q : VaultRequest}
    {x : VaultAnswer} (hstep : Hosts env ttl claims good d q x d')
    (hq : (∃ item ∈ items, ¬ Unposted env tenant.id item d.sys.store) ∨
      ∀ key data, q ≠ .api (.createPublication key data)) :
    Opened env publisher ttl p tenant items publications d' := by
  have hevolves := hstep.evolves h.reachable
  have hposted : (∃ item ∈ items, ¬ Unposted env tenant.id item d.sys.store) →
      ∃ item ∈ items, ¬ Unposted env tenant.id item d'.sys.store := by
    rintro ⟨item, hitem, hposted⟩
    exact ⟨item, hitem, posted_mono hevolves hposted⟩
  refine ⟨hstep.reachable h.reachable, (getTenant_same hevolves.tenants rfl).trans h.workspace, ?_⟩
  rcases hq with hp | hq
  · exact .inl (hposted hp)
  · exact h.posted.imp hposted fun hsame => (hstep.publications hq).trans hsame

theorem Opened.invoke (h : Opened env publisher ttl p tenant items publications d) (r : ApiRequest)
    (hr : (∃ item ∈ items, ¬ Unposted env tenant.id item d.sys.store) ∨
      ∀ key data, r ≠ .createPublication key data) :
    Always (Hosts env ttl claims good) d (invokeRelayJson r).run
      (Opened env publisher ttl p tenant items publications) := by
  have hr' : (∃ item ∈ items, ¬ Unposted env tenant.id item d.sys.store) ∨
      ∀ key data, VaultRequest.api r ≠ .api (.createPublication key data) :=
    hr.imp id fun hr key data heq => hr key data (VaultRequest.api.inj heq)
  refine always_bind (always_send h fun x t ht => h.host ht hr') fun x t _ hopened => ?_
  cases x with
  | json answer => cases answer <;> exact always_done hopened
  | _ => exact always_done hopened

theorem Opened.putImage (h : Opened env publisher ttl p tenant items publications d) (url : String)
    (headers : List (String × String)) (contentType : String) (file : VaultFile) :
    Always (Hosts env ttl claims good) d (putImage url headers contentType file).run
      (Opened env publisher ttl p tenant items publications) := by
  refine always_bind (always_send h fun x t ht => h.host ht (.inr fun _ _ heq => by cases heq))
    fun x t _ hopened => ?_
  cases x <;> exact always_done hopened

/-- The upload of an image schedules nothing. -/
theorem Opened.getRelayMediaAsset (h : Opened env publisher ttl p tenant items publications d)
    (path : String) : Always (Hosts env ttl claims good) d (getRelayMediaAsset m c path).run
      (Opened env publisher ttl p tenant items publications) := by
  unfold Relay.getRelayMediaAsset
  split
  · exact always_done h
  split
  · exact always_done h
  split
  · exact always_done h
  refine always_bind (h.invoke _ (.inr fun _ _ heq => by cases heq)) fun intent t _ hopened => ?_
  split
  · refine always_bind (hopened.putImage _ _ _ _) fun _ u _ hopened => ?_
    exact always_bind (hopened.invoke _ (.inr fun _ _ heq => by cases heq))
      fun _ v _ hopened => always_done hopened
  · exact always_done hopened

theorem Opened.getRelayMediaAssets (h : Opened env publisher ttl p tenant items publications d)
    (paths : List String) : Always (Hosts env ttl claims good) d (getRelayMediaAssets m c paths).run
      (Opened env publisher ttl p tenant items publications) := by
  induction paths generalizing d with
  | nil => exact always_done h
  | cons path paths ih =>
    refine always_bind (h.getRelayMediaAsset path) fun id t _ hopened => ?_
    exact always_bind (ih hopened) fun ids u _ hopened => always_done hopened

/-- A request that returns was answered with success. -/
theorem invoke_answered (r : ApiRequest) :
    Ends (Hosts env ttl claims good) d (invokeRelayJson r)
      (fun _ t => ∃ (turn : Turn) (response : Response),
        (d.advance turn.wait).answer env ttl claims turn.draws r = (.ok response, t))
      fun _ _ => True := by
  refine ends_bind (ends_send fun x t hx => ?_)
  obtain ⟨turn, -, hturn⟩ := hx
  obtain ⟨rfl, rfl⟩ := Prod.mk.inj hturn
  cases hanswer : ((d.advance turn.wait).answer env ttl claims turn.draws r).1 with
  | ok response => exact ends_pure ⟨turn, response, Prod.ext hanswer rfl⟩
  | error e => exact ends_throw trivial

/-- One item schedules only after its post is there. -/
theorem Opened.submitItem (h : Opened env publisher ttl p tenant items publications d)
    (principal : authenticateService env claims = .ok p) {item : ManifestItem} (hitem : item ∈ items) :
    Always (Hosts env ttl claims good) d (submitItem env m c item).run
      (Opened env publisher ttl p tenant items publications) := by
  unfold Relay.submitItem
  split
  · exact always_done h
  split
  · exact always_done h
  unfold submitRelayItem
  split
  · exact always_done h
  split
  · exact always_done h
  refine always_bind (h.getRelayMediaAssets _) fun ids t _ hopened => ?_
  refine always_bind (hopened.invoke _ (.inr fun _ _ heq => by cases heq)) fun data u hu hopened₁ => ?_
  obtain ⟨turn, response, hanswer⟩ := (invoke_answered _ _ _ hu).1 data rfl
  have hposted : ∃ item ∈ items, ¬ Unposted env tenant.id item u.sys.store :=
    ⟨item, hitem, answer_created (d := t.advance turn.wait) principal hopened.workspace hanswer⟩
  -- from here on the item has its post
  refine fun v hv => (always_of_invariant (P := fun t => Opened env publisher ttl p tenant items
    publications t ∧ ∃ item ∈ items, ¬ Unposted env tenant.id item t.sys.store) ⟨hopened₁, hposted⟩
      (fun t q x t' ht hstep => ?_) v hv).1
  obtain ⟨hopened, hposted⟩ := ht
  refine ⟨hopened.host hstep (.inl hposted), ?_⟩
  obtain ⟨item, hitem, hposted⟩ := hposted
  exact ⟨item, hitem, posted_mono (hstep.evolves hopened.reachable) hposted⟩

theorem Opened.submitItems (h : Opened env publisher ttl p tenant items publications d)
    (principal : authenticateService env claims = .ok p) {rest : List ManifestItem}
    (hrest : ∀ item ∈ rest, item ∈ items) :
    Always (Hosts env ttl claims good) d (submitItems env m c rest).run
      (Opened env publisher ttl p tenant items publications) := by
  induction rest generalizing d with
  | nil => exact always_done h
  | cons item rest ih =>
    refine always_bind (h.submitItem principal (hrest item List.mem_cons_self)) fun _ t _ hopened => ?_
    exact always_bind (ih hopened fun x hx => hrest x (List.mem_cons_of_mem _ hx))
      fun _ u _ hopened => always_done hopened

/-- **Wherever a batch is cut off**, it has left no publication, or the post of an item. -/
theorem submitBatch_cut (h : Reachable (depot env publisher ttl) d)
    (principal : authenticateService env claims = .ok p)
    (workspace : getTenant p d.sys.store = .ok tenant)
    (cut : Cut (Hosts env ttl claims good) (submitBatch env m c items).run d d') :
    Opened env publisher ttl p tenant items d.sys.store.publications d' := by
  have hopened : Opened env publisher ttl p tenant items d.sys.store.publications d :=
    ⟨h, workspace, .inr rfl⟩
  unfold submitBatch at cut
  split at cut
  · exact always_done hopened d' cut
  · exact hopened.submitItems principal (fun _ hitem => hitem) d' cut

end Opened

/-! ### Both runs -/

/-- An item is in place: it has exactly one post, with its text and its images in order, and
exactly one publication for each connection of the profile, at its date. -/
structure InPlace (env : Env) (m : Workstation) (c : ProfileConfig) (tenant : Uuid)
    (item : ManifestItem) (d : Depot) (post : Post) (v : PostVariant) : Prop where
  mem : post ∈ d.sys.store.posts ∧ post.tenant = tenant ∧ post.idempotencyKey = postKey env item.id
  only : ∀ q ∈ d.sys.store.posts, q.tenant = tenant → q.idempotencyKey = postKey env item.id → q = post
  text : post.title = trim item.title ∧ post.body = item.body
  variant : v ∈ d.sys.store.variants ∧ v.post = post.id ∧ v.body = item.body
  onlyVariant : ∀ w ∈ d.sys.store.variants, w.post = post.id → w = v
  images : List.Forall₂ (Pictures m tenant c.brandId d) (item.paths.map m.resolve)
    ((orderedMediaAssets d.sys.store v).map (·.id))
  publications : ∀ id ∈ c.connectionIds,
    ∃! q, q ∈ d.sys.store.publications ∧ q.postVariant = v.id ∧ q.channelConnection = id
  dates : ∀ q ∈ d.sys.store.publications, q.postVariant = v.id →
    q.channelConnection ∈ c.connectionIds ∧ m.parseDate item.scheduledFor = some q.scheduledFor

section InPlace

variable {item : ManifestItem} {post : Post} {v : PostVariant} {qs : List Publication}

/-- An item that is submitted is in place, if no connection is named twice. -/
theorem Submitted.inPlace (h : Submitted env m c tenant.id item d post v qs)
    (hd : Reachable (depot env publisher ttl) d) (hnodup : c.connectionIds.Nodup) :
    InPlace env m c tenant.id item d post v := by
  have hsys := sys_reachable hd
  have hcomposed := composed_of_reachable hsys
  refine ⟨⟨h.mem, h.key⟩, fun q hq htenant hkey => ?_, h.text, h.variant, fun w hw hpost => ?_, ?_,
    fun id hid => ?_, fun q hq hqv => ?_⟩
  · refine (constrained_of_reachable hsys).posts q hq post h.mem ?_
    dsimp only
    rw [htenant, hkey, h.key.1, h.key.2]
  · exact hcomposed.alone w hw v h.variant.1 (hpost.trans h.variant.2.1.symm)
  · rw [hcomposed.images (coherent_of_reachable hsys) h.variant.1]
    exact h.images
  · rw [← h.channels] at hid hnodup
    obtain ⟨q, hq, rfl⟩ := List.mem_map.1 hid
    obtain ⟨hmem, hqv⟩ := (h.publications q).2 hq
    refine ⟨q, ⟨hmem, hqv, rfl⟩, fun q' hq' => ?_⟩
    have hq'' := (h.publications q').1 ⟨hq'.1, hq'.2.1⟩
    exact List.inj_on_of_nodup_map hnodup hq'' hq hq'.2.2
  · have hq' := (h.publications q).1 ⟨hq, hqv⟩
    exact ⟨h.channels ▸ List.mem_map_of_mem hq', h.dates q hq'⟩

/-- If it is in place, the profile names no connection twice. -/
theorem Submitted.nodup_of_inPlace (h : Submitted env m c tenant.id item d post v qs) {post' : Post}
    {v' : PostVariant} (hplace : InPlace env m c tenant.id item d post' v') : c.connectionIds.Nodup := by
  obtain rfl : post = post' := hplace.only post h.mem h.key.1 h.key.2
  obtain rfl : v = v' := hplace.onlyVariant v h.variant.1 h.variant.2.1
  rw [← h.channels]
  refine h.nodup.map_on fun x hx y hy hxy => ?_
  obtain ⟨hxmem, hxv⟩ := (h.publications x).2 hx
  obtain ⟨hymem, hyv⟩ := (h.publications y).2 hy
  have hchannel : x.channelConnection ∈ c.connectionIds := h.channels ▸ List.mem_map_of_mem hx
  exact (hplace.publications _ hchannel).unique ⟨hxmem, hxv, rfl⟩ ⟨hymem, hyv, hxy.symm⟩

end InPlace

end Batch

/-- Two runs of a batch: the manifest has distinct items with future dates, whose publication keys
are new to the workspace; a first run, of which any request may fail, is cut off anywhere, and a
second one meets a server in good health. -/
structure TwoRuns (env : Env) (publisher : Option Publisher) (ttl : ℤ) (claims : Claims)
    (c : ProfileConfig) (p : RelayPrincipal) (tenant : Tenant) (brand : Brand)
    (deadline : Time) (m : Workstation) (items : List ManifestItem) (d₀ d₁ d₂ : Depot)
    (r : Except VaultError (List SubmittedItem)) : Prop where
  nonempty : items ≠ []
  ids : (items.map (·.id)).Nodup
  fits : ∀ item ∈ items, ItemFits env m c deadline item
  connections : c.connectionIds ≠ []
  start : Reachable (depot env publisher ttl) d₀
  unpublished : ∀ item ∈ items, Unpublished env tenant.id item d₀.sys.store
  first : Cut (Hosts env ttl claims fun _ _ _ => True) (submitBatch env m c items).run d₀ d₁
  serving : Serving env claims c p tenant brand d₁.sys.store
  second : Serves (Hosts env ttl claims (Healthy ttl deadline)) (submitBatch env m c items).run
    d₁ r d₂

namespace Sample

/-- The workspace with its owner and the subject of a task. -/
def taskStart : Depot where
  sys := .initial start.store.tenants start.store.brands
    ((start.store.memberships.insert? ⟨.ofNat 4, workspace, "task:content", .contentCreator, true⟩).getD
      ∅) 0
  objects := fun _ => none
  grants := []

theorem taskStart_isStart : (depot env none 900).start taskStart := ⟨⟨_, _, _, _, rfl⟩, rfl, rfl⟩

/-- A channel is connected there. -/
def taskDepot : Depot :=
  ((runLabels (depotNext env none 900) (fun _ _ => true)
    ((connecting .metaFacebookPage).map .sys) taskStart).map Prod.snd).getD taskStart

theorem taskDepot_reachable : Reachable (depot env none 900) taskDepot := by
  obtain ⟨x, hx⟩ : ∃ x, runLabels (depotNext env none 900) (fun _ _ => true)
      ((connecting .metaFacebookPage).map .sys) taskStart = some x := by
    have hsome : (runLabels (depotNext env none 900) (fun _ _ => true)
        ((connecting .metaFacebookPage).map .sys) taskStart).isSome = true := by decide +kernel
    exact Option.isSome_iff_exists.1 hsome
  have htrail : Trail (depot env none 900) taskStart x.1 x.2 := (trail_of_runLabels hx).of_guarded
  have heq : taskDepot = x.2 := by
    unfold taskDepot
    rw [hx]
    rfl
  rw [heq]
  exact ⟨taskStart, x.1, taskStart_isStart, htrail⟩

/-- The profile of the task. -/
def profile : ProfileConfig := ⟨brand, [connection]⟩

/-- The principal of its token. -/
def taskPrincipal : RelayPrincipal := ⟨"task:content", workspace, [brand], Purpose.schedule.scopes⟩

def studio : Tenant := ⟨workspace, "Studio", true⟩

def studioBrand : Brand := ⟨brand, workspace, "Brand", "UTC", true⟩

/-- The URL of a key, with what it is signed with. -/
def signedUrl (n : ℕ) (key : String) : String := "https://b2.example/" ++ (key ++ "?" ++ toString n)

/-- Whatever it is signed with, the URL names its key. -/
theorem key_of_signedUrl {n n' : ℕ} {key key' : String} (h : signedUrl n key = signedUrl n' key') :
    key = key' := by
  have hchars := congrArg String.toList ((String.append_right_inj _).1 h)
  simp only [String.toList_append, List.append_assoc] at hchars
  exact String.toList_inj.1
    (Text.append_separator_inj (notMem_toString rfl n) (notMem_toString rfl n') hchars).1

/-- An image of one byte. -/
def image : VaultFile := ⟨"a.png", 1, String.ofList (List.replicate 64 '0')⟩

/-- A machine with one image, where every date is a minute after the epoch. -/
def workstation : Workstation := ⟨fun path => if path = "a.png" then some image else none, id,
  fun _ => some (minutes 1)⟩

/-- A batch of one item. -/
def batch : List ManifestItem := [⟨"1", "Title", "Hello", ["a.png"], "", "1970-01-01T00:01:00Z"⟩]

/-- A turn that takes a second, draws the identifiers from `n` on and signs URLs of its own. -/
def turn (n : ℕ) : Turn :=
  ⟨1000000, { draws n with signer := fun key => .ok (signedUrl n key) }, false⟩

/-- The turn is one of a server in good health. -/
def healthy (deadline : Time) (d : Depot) (n : ℕ) (_ : VaultRequest) : Bool :=
  d.sys.clock + 1000000 < deadline && (d.sys.store.assets.rows.all fun a => a.id ≠ .ofNat n) &&
    (d.sys.store.posts.rows.all fun q => q.id ≠ .ofNat n) &&
    (d.sys.store.variants.rows.all fun v => v.id ≠ .ofNat (n + 1)) &&
    (d.sys.store.publications.rows.all fun q => q.id ≠ .ofNat n) &&
    d.grants.all fun g => (List.range 12).any fun k => g.url = signedUrl k g.storageKey

/-- The server with that turn. -/
def respond (d : Depot) (n : ℕ) (q : VaultRequest) : VaultAnswer × Depot :=
  host env 900 (some claims) (turn n) d q

theorem hosts_of_healthy {deadline : Time} (d : Depot) (n : ℕ) (q : VaultRequest)
    (h : healthy deadline d n q = true) :
    Hosts env 900 (some claims) (Healthy 900 deadline) d q (respond d n q).1 (respond d n q).2 := by
  simp only [healthy, Bool.and_eq_true, List.all_eq_true, decide_eq_true_eq] at h
  obtain ⟨⟨⟨⟨⟨hearly, hassets⟩, hposts⟩, hvariants⟩, hpublications⟩, hgrants⟩ := h
  refine ⟨turn n, ⟨fun _ _ _ _ _ => ?_, hearly, fun key => ⟨_, rfl, fun g hg hurl => ?_⟩,
    fun _ => ⟨_, rfl⟩, rfl, hassets, hposts, hvariants, hpublications⟩, rfl⟩
  · change ((1000000 : ℕ) : ℤ) < seconds 900
    decide
  · obtain ⟨k, -, hk⟩ := List.any_eq_true.1 (hgrants g hg)
    exact key_of_signedUrl ((of_decide_eq_true hk).symm.trans hurl)

theorem serving : Serving env (some claims) profile taskPrincipal studio studioBrand
    taskDepot.sys.store := by
  have hprincipal : authenticate env taskDepot.sys.store (verifiedCredential claims) = .ok taskPrincipal :=
    authenticate_ingest
  have hworkspace : getTenant taskPrincipal taskDepot.sys.store = .ok studio := by decide +kernel
  have hcovered : getBrand taskPrincipal profile.brandId.text taskDepot.sys.store = .ok studioBrand := by
    decide +kernel
  have hpermitted : ∀ v ∈ [mediaUploadIntentView, mediaUploadConfirmView, postCollectionView,
      postApprovalView, publicationCollectionView],
      hasRelayScope v .post taskPrincipal taskDepot.sys.store = true := by decide +kernel
  have hrow : ∃ row ∈ taskDepot.sys.store.connections.rows, row.id = connection ∧
      row.isActive = true ∧ ∃ account ∈ taskDepot.sys.store.accounts.rows,
        account.id = row.socialAccount ∧ account.tenant = studio.id ∧ account.brand = profile.brandId := by
    decide +kernel
  refine ⟨hprincipal, hworkspace, hcovered, hpermitted, by decide, fun id hid => ?_⟩
  rw [List.mem_singleton.1 hid]
  exact hrow

theorem batch_fits : ∀ item ∈ batch, ItemFits env workstation profile (minutes 1) item := by
  intro item hitem
  rw [List.mem_singleton.1 hitem]
  have hchecksum : image.checksum.length = 64 ∧
      (image.checksum.toList.all fun x => "0123456789abcdef".toList.contains x) = true := by
    decide +kernel
  have himage : ImageFits workstation "a.png" image "image/png" :=
    ⟨rfl, by decide +kernel, by decide, by decide +kernel, hchecksum.1, fun x hx =>
      List.contains_iff_mem.1 (List.all_eq_true.1 hchecksum.2 x hx)⟩
  refine ⟨by decide, by decide, by decide, ⟨by decide +kernel, by decide +kernel⟩, by decide, ?_,
    ⟨minutes 1, rfl, le_rfl⟩, by decide +kernel, by decide +kernel⟩
  intro path hpath
  rw [List.mem_singleton.1 hpath]
  exact ⟨image, "image/png", himage⟩

/-- The run ended in a rejected key. -/
def conflicts : Except VaultError (List SubmittedItem) → Bool
  | .ok _ => false
  | .error e => e = .httpResponse .idempotencyConflict

/-- The first run is cut off after as many requests as there are numbers, and the second one is
served with those numbers. -/
theorem exists_twoRuns (first second : List ℕ)
    (P : Except VaultError (List SubmittedItem) × Depot → Bool)
    (h : ((serve respond (healthy (minutes 1)) second (submitBatch env workstation profile batch).run
      (cutAfter respond first (submitBatch env workstation profile batch).run taskDepot)).any P) = true) :
    ∃ r d₂, TwoRuns env none 900 (some claims) profile taskPrincipal studio studioBrand (minutes 1)
      workstation batch taskDepot
      (cutAfter respond first (submitBatch env workstation profile batch).run taskDepot) d₂ r ∧
        P (r, d₂) = true := by
  obtain ⟨r, d₂, hserves, hP⟩ := exists_of_serve hosts_of_healthy h
  have hcut : Cut (Hosts env 900 (some claims) fun _ _ _ => True)
      (submitBatch env workstation profile batch).run taskDepot
      (cutAfter respond first (submitBatch env workstation profile batch).run taskDepot) :=
    cut_of_cutAfter (fun d n q => ⟨turn n, trivial, rfl⟩) first _ taskDepot
  obtain ⟨-, hkeeps⟩ := hcut.invariant
    (I := fun d => Reachable (depot env none 900) d ∧ Keeps taskDepot d)
    (fun s q x t hs hstep => ⟨hstep.reachable hs.1, hs.2.trans (hstep.keeps hs.1)⟩)
    ⟨taskDepot_reachable, .refl taskDepot⟩
  refine ⟨r, d₂, ⟨by decide, by decide, batch_fits, by decide, taskDepot_reachable,
    fun item _ i => ?_, hcut, serving.mono hkeeps, hserves⟩, hP⟩
  have hempty : taskDepot.sys.store.publications.rows = [] := by decide +kernel
  refine Table.find?_eq_none.2 fun q hq => ?_
  rw [Table.mem_def, hempty] at hq
  cases hq

end Sample

end Relay
