import Relay.Carousel
import Relay.Library.Race
import Relay.Submission

/-!
# Idempotent creation

`create_post_draft` and `schedule_publication` look their key up without a lock on a key that is
new, so calls with one key race for its row.  The call that loses meets the unique constraint, and
its recovery branch meets the broken transaction.

* `draftCalls`, `publicationCalls`: the concurrent calls of one key;
* `CreatingCalls.run_eq`: a call by itself is the service;
* `CreatingCalls.CreatedOnce`: one row, one audit event, and an answer for every call;
* `creation_once`: so it is when every call looks alone, and no other run gets there.
-/

namespace Relay

open Relational Transition Race

/-- One row of the key and one audit event have been added. -/
structure Creates {ρ : Type} (rows : Store → List ρ) (id : ρ → Uuid) (key : String) (row : ρ)
    (s s' : Store) : Prop where
  unused : rows s = []
  created : rows s' = [row]
  event : ∃ event : AuditLog, s'.audit = s.audit ++ [event] ∧ event.subjectId = id row ∧
    event.metadata = [("idempotency_key", .str key)]

/-- The calls of a command that creates one row for a key. -/
structure CreatingCalls (ι α ρ : Type) extends Rivals ι Store ServiceError α ρ String where
  rows : Store → List ρ
  id : ρ → Uuid
  key : String
  rows_find : ∀ s, (rows s).head? = find s
  write_creates : ∀ {i s a s'}, write i s = .ok (a, s') →
    ∃ row, a = created row ∧ print row = asked i ∧ Creates rows id key row s s'
  created_ne_found : ∀ a b, created a ≠ found b

namespace CreatingCalls

variable {ι α ρ : Type} (C : CreatingCalls ι α ρ)

/-- No call has ended, or one has created the one row of the key with the one audit event, and each
other call that has ended has found this row, or the conflict of its request. -/
def CreatedOnce (s₀ : Store) (t : State ι Store ServiceError α) : Prop :=
  (t.store = s₀ ∧ ∀ i r, t.phase i ≠ .ended r) ∨
    ∃ i row, C.run i s₀ = .ok (C.created row, t.store) ∧
      Creates C.rows C.id C.key row s₀ t.store ∧
      t.phase i = .ended (.ok (C.created row)) ∧
      ∀ j, j ≠ i → ∀ r, t.phase j = .ended r →
        r = if C.print row = C.asked j then .ok (C.found row) else .error C.conflict

variable {C} {i : ι} {s s' s₀ : Store} {row : ρ} {t : State ι Store ServiceError α}

/-- A call that creates a row writes it. -/
theorem write_of_run (h : C.run i s = .ok (C.created row, s')) :
    C.write i s = .ok (C.created row, s') := by
  cases hfind : C.find s with
  | none => exact (Rivals.run_of_find hfind).symm.trans h
  | some existing =>
    rw [Rivals.run_of_found hfind] at h
    obtain ⟨a, ha, heq⟩ := map_eq_ok.1 h
    obtain ⟨rfl, -⟩ := Prod.mk.inj heq
    unfold Rivals.answer at ha
    split at ha
    · exact absurd (Except.ok.inj ha).symm (C.created_ne_found _ _)
    · cases ha

theorem createdOnce_iff (hv : C.Valid s₀) : C.CreatedOnce s₀ t ↔ C.Once s₀ t := by
  constructor
  · rintro (hnone | ⟨i, row, hrun, hcreates, hphase, hothers⟩)
    · exact .inl hnone
    · refine .inr ⟨i, row, write_of_run hrun, ?_, hphase, hothers⟩
      rw [← C.rows_find, hcreates.created]
      rfl
  · rintro (hnone | ⟨i, row, hwrite, hfind, hphase, hothers⟩)
    · exact .inl hnone
    · obtain ⟨row', hrow, -, hcreates⟩ := C.write_creates hwrite
      have hsame : row' = row := by
        rw [← C.rows_find, hcreates.created] at hfind
        exact Option.some.inj hfind
      subst row'
      exact .inr ⟨i, row, (Rivals.run_of_find (hv.find i)).trans hwrite, hcreates, hphase, hothers⟩

/-- Calls that would each create a row would each write one. -/
theorem valid_of_run (h : ∀ i, ∃ row s', C.run i s₀ = .ok (C.created row, s')) : C.Valid s₀ := by
  intro i
  obtain ⟨row, s', hrun⟩ := h i
  exact ⟨_, write_of_run hrun⟩

/-- **Calls that look alone create one row, and no other run of all the calls does.** -/
theorem creates_once [DecidableEq ι] (hv : C.Valid s₀) {es : List (Event ι)}
    (h : Trail (C.race s₀) (.start s₀) es t) :
    (Trail ((C.race s₀).guarded Rivals.Alone) (.start s₀) es t → C.CreatedOnce s₀ t) ∧
      (t.Complete → C.CreatedOnce s₀ t →
        Trail ((C.race s₀).guarded Rivals.Alone) (.start s₀) es t) := by
  rw [createdOnce_iff hv]
  exact ⟨Rivals.once_of_alone hv, Rivals.alone_of_once h⟩

end CreatingCalls

/-- The recovery branch keeps a conflict, and makes none. -/
theorem afterIntegrityError_ne_conflict {α : Type} {x : Except ServiceError α}
    (h : x ≠ .error .idempotencyConflict) : afterIntegrityError x ≠ .error .idempotencyConflict := by
  unfold afterIntegrityError
  split
  · simp
  · exact h

theorem create_ne_conflict {ρ : Type} [Keyed ρ Uuid] {t : Table ρ} {r : ρ} :
    create t r ≠ .error .idempotencyConflict := by
  unfold create
  split <;> simp

/-! ### Drafts -/

/-- A call of `create_post_draft` for a tenant and a key. -/
structure DraftCall where
  world : World
  brand : Uuid
  subject : String
  payload : PostPayload

section Drafts

variable (env : Env) (tenant : Uuid) (key : String)

/-- `create_post_draft`, as one transaction by itself. -/
def DraftCall.run (c : DraftCall) (s : Store) : Except ServiceError (CreatePostResult × Store) :=
  createPostDraft env c.world.now ⟨c.world.ids 0, c.world.ids 1⟩ tenant c.brand c.subject key c.payload s

/-- What `create_post_draft` does after a look-up in vain. -/
def DraftCall.insert (c : DraftCall) (s : Store) : Except ServiceError (CreatePostResult × Store) :=
  afterIntegrityError (insertPostDraft env c.world.now ⟨c.world.ids 0, c.world.ids 1⟩ tenant c.brand
    c.subject key c.payload s)

/-- The posts of a tenant that carry a key. -/
def postsOf (s : Store) : List Post :=
  s.posts.where fun p => p.tenant = tenant && p.idempotencyKey = key

variable {env tenant key} {c : DraftCall} {s s' : Store}

theorem head?_postsOf : (postsOf tenant key s).head? = findPost tenant key s := List.head?_filter

/-- A draft whose key is taken by now meets the broken transaction. -/
theorem DraftCall.insert_taken {row : Post} (h : findPost tenant key s = some row) :
    c.insert env tenant key s = .error .transactionManagementError := by
  set post := newPost env c.world.now (c.world.ids 0) tenant c.brand c.subject key c.payload
  have hfound : findPost post.tenant post.idempotencyKey s = some row := h
  have hrow : createPostRow s post = .error .integrityError := by
    unfold createPostRow
    rw [hfound]
    rfl
  have hinsert : insertPostDraft env c.world.now ⟨c.world.ids 0, c.world.ids 1⟩ tenant c.brand
      c.subject key c.payload s = .error .integrityError := bind_eq_error.2 (.inl hrow)
  unfold DraftCall.insert
  rw [hinsert]
  rfl

theorem DraftCall.insert_ne_conflict : c.insert env tenant key s ≠ .error .idempotencyConflict := by
  refine afterIntegrityError_ne_conflict fun h => ?_
  rcases bind_eq_error.1 h with hposts | ⟨posts, -, h⟩
  · unfold createPostRow at hposts
    split at hposts
    · cases hposts
    · exact create_ne_conflict hposts
  rcases bind_eq_error.1 h with hmedia | ⟨media, -, h⟩
  · rcases readyAssetsForPost_cases tenant c.brand c.payload.mediaAssetIds s with
      ⟨herror, -⟩ | ⟨media, hok, -⟩
    · rw [herror] at hmedia
      cases hmedia
    · rw [hok] at hmedia
      cases hmedia
  rcases bind_eq_error.1 h with hvariants | ⟨variants, -, h⟩
  · exact create_ne_conflict hvariants
  · cases h

/-- What the insertion of a draft adds. -/
theorem DraftCall.insert_creates {result : CreatePostResult}
    (h : c.insert env tenant key s = .ok (result, s')) :
    ∃ post : Post, result = ⟨post, true⟩ ∧
      post.requestFingerprint = requestFingerprint env c.payload.toFields ∧
      Creates (postsOf tenant key) (·.id) key post s s' := by
  obtain ⟨posts, media, variants, hnone, hposts, -, -, rfl, rfl⟩ :=
    insertPostDraft_eq_ok (afterIntegrityError_eq_ok.1 h)
  have hunused : postsOf tenant key s = [] := List.head?_eq_none_iff.1 (head?_postsOf.trans hnone)
  refine ⟨_, rfl, rfl, hunused, ?_, _, rfl, rfl, rfl⟩
  change posts.where _ = _
  rw [Table.where_insert? hposts, show s.posts.where _ = [] from hunused]
  simp [newPost]

variable (env tenant key)

/-- The concurrent calls of `create_post_draft` with one key. -/
def draftCalls {ι : Type} (calls : ι → DraftCall) : CreatingCalls ι CreatePostResult Post where
  find := findPost tenant key
  write i := (calls i).insert env tenant key
  print := (·.requestFingerprint)
  asked i := requestFingerprint env (calls i).payload.toFields
  created post := ⟨post, true⟩
  found post := ⟨post, false⟩
  conflict := .idempotencyConflict
  write_ok h := by
    obtain ⟨post, rfl, hprint, hcreates⟩ := DraftCall.insert_creates h
    refine ⟨post, rfl, ?_, hprint⟩
    rw [← head?_postsOf, hcreates.created]
    rfl
  write_taken h hr := by
    rw [DraftCall.insert_taken h] at hr
    cases hr
  write_conflict := DraftCall.insert_ne_conflict
  rows := postsOf tenant key
  id := (·.id)
  key := key
  rows_find _ := head?_postsOf
  write_creates := DraftCall.insert_creates
  created_ne_found a b := by simp

/-- A call that has the store to itself is `create_post_draft`. -/
theorem draftCalls_run {ι : Type} (calls : ι → DraftCall) (i : ι) (s : Store) :
    (draftCalls env tenant key calls).run i s = (calls i).run env tenant key s := by
  unfold DraftCall.run createPostDraft
  cases hfind : findPost tenant key s with
  | none => exact Rivals.run_of_find hfind
  | some row =>
    rw [Rivals.run_of_found hfind]
    dsimp only
    unfold replayPost
    rw [ite_not]
    rfl

theorem draftCalls_valid {ι : Type} {calls : ι → DraftCall} {s₀ : Store}
    (h : ∀ i, ∃ post s', (calls i).run env tenant key s₀ = .ok (⟨post, true⟩, s')) :
    (draftCalls env tenant key calls).Valid s₀ := by
  refine CreatingCalls.valid_of_run fun i => ?_
  rw [draftCalls_run]
  exact h i

end Drafts

/-! ### Publications -/

/-- A call of `schedule_publication` for a tenant and a key. -/
structure ScheduleRequest (tenant : Uuid) (key : String) where
  world : World
  call : ScheduleCall
  tenant_eq : call.tenant = tenant
  key_eq : call.idempotencyKey = key

section Publications

variable (env : Env) (tenant : Uuid) (key : String)

/-- `schedule_publication`, as one transaction by itself. -/
def ScheduleRequest.run (c : ScheduleRequest tenant key) (s : Store) :
    Except ServiceError (SchedulePublicationResult × Store) :=
  schedulePublication env c.world.now (c.world.ids 0) c.call s

/-- What `schedule_publication` does after a look-up in vain. -/
def ScheduleRequest.insert (c : ScheduleRequest tenant key) (s : Store) :
    Except ServiceError (SchedulePublicationResult × Store) := do
  checkSchedule c.call s
  afterIntegrityError (insertPublication env c.world.now (c.world.ids 0) c.call s)

/-- The publications of a tenant that carry a key. -/
def publicationsOf (s : Store) : List Publication :=
  s.publications.where fun p => p.tenant = tenant && p.idempotencyKey = key

variable {env tenant key} {c : ScheduleRequest tenant key} {s s' : Store}

theorem head?_publicationsOf : (publicationsOf tenant key s).head? = findPublication tenant key s :=
  List.head?_filter

theorem ScheduleRequest.insert_taken {row : Publication}
    (h : findPublication tenant key s = some row) {r : SchedulePublicationResult × Store} :
    c.insert env tenant key s ≠ .ok r := by
  intro hr
  obtain ⟨-, -, hr⟩ := bind_eq_ok.1 hr
  obtain ⟨publications, hnone, -⟩ := insertPublication_eq_ok (afterIntegrityError_eq_ok.1 hr)
  rw [c.tenant_eq, c.key_eq, h] at hnone
  cases hnone

theorem ScheduleRequest.insert_ne_conflict :
    c.insert env tenant key s ≠ .error .idempotencyConflict := by
  intro h
  rcases bind_eq_error.1 h with hcheck | ⟨-, -, h⟩
  · unfold checkSchedule at hcheck
    split at hcheck
    · cases hcheck
    split at hcheck
    · cases hcheck
    split at hcheck
    · cases hcheck
    dsimp only at hcheck
    split at hcheck <;> cases hcheck
  · refine afterIntegrityError_ne_conflict (fun h => ?_) h
    rcases bind_eq_error.1 h with hrow | ⟨publications, -, h⟩
    · unfold createPublicationRow at hrow
      split at hrow
      · cases hrow
      · exact create_ne_conflict hrow
    · cases h

/-- What the insertion of a publication adds. -/
theorem ScheduleRequest.insert_creates {result : SchedulePublicationResult}
    (h : c.insert env tenant key s = .ok (result, s')) :
    ∃ publication : Publication, result = ⟨publication, true⟩ ∧
      publication.requestFingerprint = requestFingerprint env c.call.payload ∧
      Creates (publicationsOf tenant key) (·.id) key publication s s' := by
  obtain ⟨-, -, h⟩ := bind_eq_ok.1 h
  obtain ⟨publications, hnone, hpublications, rfl, rfl⟩ :=
    insertPublication_eq_ok (afterIntegrityError_eq_ok.1 h)
  rw [c.tenant_eq, c.key_eq] at hnone
  have hunused : publicationsOf tenant key s = [] :=
    List.head?_eq_none_iff.1 (head?_publicationsOf.trans hnone)
  refine ⟨_, rfl, rfl, hunused, ?_, _, rfl, rfl, ?_⟩
  · change publications.where _ = _
    rw [Table.where_insert? hpublications, show s.publications.where _ = [] from hunused]
    simp [newPublication, c.tenant_eq, c.key_eq]
  · simp [serviceEvent, c.key_eq]

variable (env tenant key)

/-- The concurrent calls of `schedule_publication` with one key. -/
def publicationCalls {ι : Type} (calls : ι → ScheduleRequest tenant key) :
    CreatingCalls ι SchedulePublicationResult Publication where
  find := findPublication tenant key
  write i := (calls i).insert env tenant key
  print := (·.requestFingerprint)
  asked i := requestFingerprint env (calls i).call.payload
  created publication := ⟨publication, true⟩
  found publication := ⟨publication, false⟩
  conflict := .idempotencyConflict
  write_ok h := by
    obtain ⟨publication, rfl, hprint, hcreates⟩ := ScheduleRequest.insert_creates h
    refine ⟨publication, rfl, ?_, hprint⟩
    rw [← head?_publicationsOf, hcreates.created]
    rfl
  write_taken h := ScheduleRequest.insert_taken h
  write_conflict := ScheduleRequest.insert_ne_conflict
  rows := publicationsOf tenant key
  id := (·.id)
  key := key
  rows_find _ := head?_publicationsOf
  write_creates := ScheduleRequest.insert_creates
  created_ne_found a b := by simp

/-- A call that has the store to itself is `schedule_publication`. -/
theorem publicationCalls_run {ι : Type} (calls : ι → ScheduleRequest tenant key) (i : ι) (s : Store) :
    (publicationCalls env tenant key calls).run i s = (calls i).run env tenant key s := by
  unfold ScheduleRequest.run schedulePublication
  rw [(calls i).tenant_eq, (calls i).key_eq]
  cases hfind : findPublication tenant key s with
  | none => exact Rivals.run_of_find hfind
  | some row =>
    rw [Rivals.run_of_found hfind]
    dsimp only
    unfold replayPublication
    rw [ite_not]
    rfl

theorem publicationCalls_valid {ι : Type} {calls : ι → ScheduleRequest tenant key} {s₀ : Store}
    (h : ∀ i, ∃ publication s', (calls i).run env tenant key s₀ = .ok (⟨publication, true⟩, s')) :
    (publicationCalls env tenant key calls).Valid s₀ := by
  refine CreatingCalls.valid_of_run fun i => ?_
  rw [publicationCalls_run]
  exact h i

end Publications

/-! ### One row for a key -/

/-- **Creation is idempotent exactly when every call looks alone.**  Any number of calls carry one
key and are valid by themselves.  In a run in which no call looks the key up while another one is
between its look-up in vain and its commit, there is one row, one audit event and the answer of
every call; and no other run in which all calls end comes to this. -/
theorem creation_once (env : Env) (tenant : Uuid) (key : String) {ι κ : Type} [DecidableEq ι]
    [DecidableEq κ] (drafts : ι → DraftCall) (requests : κ → ScheduleRequest tenant key)
    {s₀ u₀ : Store}
    (validDrafts : ∀ i, ∃ post s', (drafts i).run env tenant key s₀ = .ok (⟨post, true⟩, s'))
    (validRequests : ∀ i, ∃ publication s',
      (requests i).run env tenant key u₀ = .ok (⟨publication, true⟩, s'))
    {es : List (Event ι)} {t : State ι Store ServiceError CreatePostResult}
    (h : Trail ((draftCalls env tenant key drafts).race s₀) (.start s₀) es t)
    {fs : List (Event κ)} {u : State κ Store ServiceError SchedulePublicationResult}
    (k : Trail ((publicationCalls env tenant key requests).race u₀) (.start u₀) fs u) :
    ((Trail (((draftCalls env tenant key drafts).race s₀).guarded Rivals.Alone) (.start s₀) es t →
        (draftCalls env tenant key drafts).CreatedOnce s₀ t) ∧
      (t.Complete → (draftCalls env tenant key drafts).CreatedOnce s₀ t →
        Trail (((draftCalls env tenant key drafts).race s₀).guarded Rivals.Alone) (.start s₀) es t)) ∧
    ((Trail (((publicationCalls env tenant key requests).race u₀).guarded Rivals.Alone)
          (.start u₀) fs u →
        (publicationCalls env tenant key requests).CreatedOnce u₀ u) ∧
      (u.Complete → (publicationCalls env tenant key requests).CreatedOnce u₀ u →
        Trail (((publicationCalls env tenant key requests).race u₀).guarded Rivals.Alone)
          (.start u₀) fs u)) :=
  ⟨CreatingCalls.creates_once (draftCalls_valid env tenant key validDrafts) h,
    CreatingCalls.creates_once (publicationCalls_valid env tenant key validRequests) k⟩

namespace Sample

/-- A call for the draft of the two images. -/
def albumCall (first : Bool) : DraftCall :=
  ⟨⟨draws (if first then 20 else 30), 3⟩, brand, "", albumPayload⟩

/-- A call that schedules the variant of the two images. -/
def albumRequest (first : Bool) : ScheduleRequest workspace "k" where
  world := ⟨draws (if first then 50 else 51), 3⟩
  call :=
    { tenant := workspace
      brand := brand
      subject := ""
      postVariant := legacyVariant
      post := ⟨⟨.ofNat 64, 0, 0⟩, workspace, brand, "", "", .approved, "", "k", ""⟩
      channelConnection :=
        ⟨⟨.ofNat 41, 0, 0⟩, .ofNat 40, .metaInstagramBusinessAccount, "page", "Page", "", none, [], true⟩
      socialAccount := ⟨⟨.ofNat 40, 0, 0⟩, workspace, brand, .metaProvider, "1", "Me"⟩
      scheduledFor := 7
      idempotencyKey := "k" }
  tenant_eq := rfl
  key_eq := rfl

theorem albumCall_valid (b : Bool) : ∃ post s', (albumCall b).run env workspace "k" album =
    .ok (⟨post, true⟩, s') := by
  have hvariant : ∀ v ∈ album.variants, v.id ≠ (albumCall b).world.ids 1 := by cases b <;> decide
  obtain ⟨post, s', h⟩ : ∃ post s', runCommand env (albumCall b).world
      (.createPostDraft workspace brand "" "k" albumPayload) album = .ok (.post ⟨post, true⟩, s') :=
    exists_createPostDraft rfl (fun p hp => absurd hp (Table.not_mem_empty p)) hvariant (by decide)
      album_ready
  obtain ⟨result, hresult, heq⟩ := reply_eq_ok.1 h
  cases heq
  exact ⟨post, s', hresult⟩

theorem albumRequest_valid (b : Bool) : ∃ publication s',
    (albumRequest b).run env workspace "k" album = .ok (⟨publication, true⟩, s') := by
  obtain ⟨publications, hins⟩ := Table.insert?_isSome (t := album.publications)
    (r := newPublication env 3 ((albumRequest b).world.ids 0) (albumRequest b).call)
    fun p hp => absurd hp (Table.not_mem_empty p)
  have hchecked : checkSchedule (albumRequest b).call album = .ok () := by cases b <;> decide
  obtain ⟨result, hresult, heq⟩ := reply_eq_ok.1
    (@schedulePublication_ok env (albumRequest b).world _ (albumRequest b).call _ rfl hchecked hins)
  cases heq
  exact ⟨_, _, hresult⟩

end Sample

/-- Two drafts and two schedules, each second one after the first one. -/
theorem creation_once_sample :
    (∃ t, t.Complete ∧ (draftCalls Sample.env Sample.workspace "k" Sample.albumCall).CreatedOnce
      Sample.album t) ∧
    ∃ u, u.Complete ∧ (publicationCalls Sample.env Sample.workspace "k"
      Sample.albumRequest).CreatedOnce Sample.album u := by
  set C := draftCalls Sample.env Sample.workspace "k" Sample.albumCall with hC
  set D := publicationCalls Sample.env Sample.workspace "k" Sample.albumRequest with hD
  have hdrafts : C.Valid Sample.album := draftCalls_valid _ _ _ Sample.albumCall_valid
  have hrequests : D.Valid Sample.album := publicationCalls_valid _ _ _ Sample.albumRequest_valid
  obtain ⟨es, t, ht, hcomplete⟩ := Rivals.exists_in_turn (i := true) (j := false) (by decide)
    (by decide) hdrafts rfl
  obtain ⟨fs, u, hu, hcomplete'⟩ := Rivals.exists_in_turn (i := true) (j := false) (by decide)
    (by decide) hrequests rfl
  obtain ⟨⟨hcreated, -⟩, hcreated', -⟩ := creation_once Sample.env Sample.workspace "k"
    Sample.albumCall Sample.albumRequest Sample.albumCall_valid Sample.albumRequest_valid
    ht.of_guarded hu.of_guarded
  exact ⟨⟨t, hcomplete, hcreated ht⟩, u, hcomplete', hcreated' hu⟩

/-- Two valid calls of one request look the key up before either inserts its post.  The second one
waits for the first one, meets the unique constraint, and fails in its recovery branch. -/
theorem not_createdOnce : ∃ es t,
    (∀ b, ∃ post s', (Sample.albumCall b).run Sample.env Sample.workspace "k" Sample.album =
      .ok (⟨post, true⟩, s')) ∧
    (Sample.albumCall true).payload = (Sample.albumCall false).payload ∧
    Trail ((draftCalls Sample.env Sample.workspace "k" Sample.albumCall).race Sample.album)
      (.start Sample.album) es t ∧
    t.Complete ∧ t.phase false = .ended (.error .transactionManagementError) ∧
    ¬ (draftCalls Sample.env Sample.workspace "k" Sample.albumCall).CreatedOnce Sample.album t := by
  set C := draftCalls Sample.env Sample.workspace "k" Sample.albumCall with hC
  have hvalid : C.Valid Sample.album := draftCalls_valid _ _ _ Sample.albumCall_valid
  obtain ⟨⟨result, s⟩, hwrite⟩ := hvalid true
  obtain ⟨post, -, hfind, -⟩ := C.write_ok hwrite
  have hrefused : C.write false s = .error .transactionManagementError :=
    DraftCall.insert_taken hfind
  obtain ⟨es, t, tr, hcomplete, -, hlost⟩ := Rivals.exists_clash (i := true) (j := false) (by decide)
    (by decide) hwrite hrefused
  refine ⟨es, t, Sample.albumCall_valid, rfl, tr, hcomplete, hlost, ?_⟩
  rw [CreatingCalls.createdOnce_iff hvalid]
  exact (Rivals.Doomed.failed false _ hlost (by simp [hC, draftCalls])).not_once hcomplete

end Relay
