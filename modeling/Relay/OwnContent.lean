import Relay.Repetition
import Relay.Model.Ingestion

/-!
# What a schedule credential acts on

A credential for a content task may approve posts and schedule them.  The views check its brand,
but not who has created the post.

* `ingestion`: the relay with the command that issues such credentials;
* `Carried`: the web processes that hold a command of a credential;
* `ActsOn`: what the credential approves and schedules;
* `acts_on_own_content`: it is the subject's own while the credential asks for nothing else.
-/

namespace Relay

open Relational Transition

/-! ### The relay with its command -/

inductive IngestLabel
  | sys (label : Label)
  /-- `issue_draft_ingest_token` -/
  | issue (options : IngestOptions) (id jti : Uuid)

inductive IngestOutput
  | sys (output : Output)
  /-- the claims of the token that is printed -/
  | issued (result : Except IngestFailure (List (String × Json)))

/-- One step, if the label applies. -/
def ingestNext (env : Env) (publisher : Option Publisher) (slugs : Slugs) (jwt : JwtSettings) (s : Sys) :
    IngestLabel → Option (Sys × IngestOutput)
  | .sys l => (next env publisher s l).map fun x => (x.1, .sys x.2)
  | .issue options id jti =>
    match issueDraftIngestToken slugs jwt s.clock id jti options s.store with
    | .error e => some (s, .issued (.error e))
    | .ok (claims, store) => some ({ s with store }, .issued (.ok claims))

/-- The relay with the command. -/
def ingestion (env : Env) (publisher : Option Publisher) (slugs : Slugs) (jwt : JwtSettings) :
    Machine Sys (IngestLabel × IngestOutput) :=
  .ofLabels (relay env publisher).start (ingestNext env publisher slugs jwt)

/-! ### The credential -/

/-- The credential of a request whose token `jwt.decode` has verified, for these claims; up to what
moment it does so is `JwtModule.Dates`. -/
def verifiedCredential (claims : List (String × Json)) : Credential := .service (some claims)

/-- A token that is issued authenticates its subject, for its brand and with its scopes, while it is
verified. -/
theorem authenticate_ingest {env : Env} {s : Store} {jwt : JwtSettings} {now : Time} {jti : Uuid}
    {brand : Brand} {o : IngestOptions} :
    authenticate env s (verifiedCredential (ingestClaims jwt now jti brand o)) =
      .ok ⟨o.subject, brand.workspace, [brand.id], o.purpose.scopes⟩ := by
  have hprincipal : servicePrincipal env (ingestClaims jwt now jti brand o) =
      some ⟨o.subject, brand.workspace, [brand.id], o.purpose.scopes⟩ := by
    cases hpurpose : o.purpose <;>
      simp [servicePrincipal, ingestClaims, Json.get, uuidOf, iterate, Json.str', hashable, textOf,
        Purpose.scopes, hpurpose]
  simp only [authenticate, verifiedCredential, authenticateService, Option.bind_some, hprincipal]

/-- The web processes that hold a command of the credential, after one more step. -/
def carry (credential : Credential) (w : ℕ → Prop) : IngestLabel → ℕ → Prop
  | .sys (.receive k credential' _) => Function.update w k (credential' = credential)
  | .sys (.receivePublic k _) => Function.update w k False
  | _ => w

/-- The web processes that hold a command of the credential, at the end of a run. -/
def Carried (credential : Credential) (es : List (IngestLabel × IngestOutput)) : ℕ → Prop :=
  es.foldl (fun w e => carry credential w e.1) fun _ => False

/-- What the credential approves next, and that for which it creates a publication, meets `P`. -/
structure ActsOn (env : Env) (publisher : Option Publisher) (P : Post → Prop) (carried : ℕ → Prop)
    (s : Sys) : Prop where
  approves : ∀ k draws s' post tenant brand subject row response, carried k →
    next env publisher s (.commit k draws) =
      some (s', .committed (.approvePost post tenant brand subject) (.approved row) response) → P row
  schedules : ∀ k draws s' call q response, carried k →
    next env publisher s (.commit k draws) =
      some (s', .committed (.schedulePublication call) (.publication ⟨q, true⟩) response) →
    ∃ v ∈ s'.store.variants, v.id = q.postVariant ∧ ∃ p ∈ s'.store.posts, p.id = v.post ∧ P p

/-- A request approves or schedules only posts that meet `Q`. -/
def Names (Q : Post → Prop) (s : Store) : ApiRequest → Prop
  | .approvePost id => ∀ p ∈ s.posts, p.id = id → Q p
  | .createPublication _ data =>
    ∀ v ∈ s.variants, v.id = data.postVariantId → ∀ p ∈ s.posts, p.id = v.post → Q p
  | _ => True

/-- Whatever the credential asks for is the content of the subject. -/
def AsksForOwn (credential : Credential) (subject : String) (s : Sys) :
    IngestLabel × IngestOutput → Prop
  | (.sys (.receive _ credential' request), _) =>
    credential' = credential → Names (fun p => p.createdBySubject = subject) s.store request
  | _ => True

/-! ### What its commands act on -/

/-- A command approves or schedules only posts that meet `P`. -/
def Command.On (P : Post → Prop) (s : Store) : Command → Prop
  | .approvePost post _ _ _ => ∃ q ∈ s.posts, q.id = post ∧ P q
  | .schedulePublication call =>
    call.postVariant ∈ s.variants ∧ ∃ q ∈ s.posts, q.id = call.postVariant.post ∧ P q
  | _ => True

section Acts

variable {env : Env} {publisher : Option Publisher} {P Q : Post → Prop}

/-- A handler checks the brand of the post, and no more. -/
theorem handle_on {now : Time} {p : RelayPrincipal} {s : Store} {r : ApiRequest} {c : Command}
    (h : handle env now p s r = .ok (.command c)) (names : Names Q s r) :
    c.On (fun q => Q q ∧ q.brand ∈ p.brandIds) s := by
  cases c with
  | approvePost =>
    obtain ⟨postId, rfl⟩ := handle_approves h
    obtain ⟨tenant, -, h⟩ := bind_eq_ok.1 h
    obtain ⟨post, hpost, h⟩ := bind_eq_ok.1 h
    obtain ⟨brand, -, h⟩ := bind_eq_ok.1 h
    cases h
    obtain ⟨hmem, hid, -, hbrand⟩ := visiblePost_eq_ok hpost
    exact ⟨post, hmem, rfl, names post hmem hid, hbrand⟩
  | schedulePublication call =>
    obtain ⟨key, data, rfl⟩ := handle_schedules h
    have hcalled := createPublication_eq_ok h
    have hloaded := hcalled.loaded
    obtain ⟨brand, hbrand, -⟩ := hcalled.brand
    obtain ⟨hid, hcovers⟩ := getBrand_eq_ok hbrand
    exact ⟨hloaded.postVariant, call.post, hloaded.post, hloaded.postOf,
      names call.postVariant hloaded.postVariant hcalled.variantId call.post hloaded.post hloaded.postOf,
      hcovers.brandIds⟩
  | _ => trivial

/-- Posts live on, so a command that waits acts on the same ones. -/
theorem Command.On.mono {s s' : Store} {c : Command} (stable : ∀ p p' : Post, p.Becomes p' → P p → P p')
    (posts : s.posts.Grows Post.Becomes s'.posts) (variants : s.variants.Grows Eq s'.variants)
    (h : c.On P s) : c.On P s' := by
  have hpost : ∀ id, (∃ q ∈ s.posts, q.id = id ∧ P q) → ∃ q ∈ s'.posts, q.id = id ∧ P q := by
    rintro _ ⟨q, hq, rfl, hP⟩
    obtain ⟨q', hq', hbecomes⟩ := posts q hq
    have hP' := stable q q' hbecomes hP
    obtain ⟨_, _, rfl, -⟩ := hbecomes
    exact ⟨_, hq', rfl, hP'⟩
  cases c with
  | approvePost post tenant brand subject => exact hpost post h
  | schedulePublication call =>
    obtain ⟨_, hv, rfl⟩ := variants _ h.1
    exact ⟨hv, hpost _ h.2⟩
  | _ => trivial

/-- The commands of the credential act on posts that meet `P`. -/
def CarriesOn (P : Post → Prop) (s : Sys) (w : ℕ → Prop) : Prop :=
  ∀ k c, w k → s.tickets k = some (.admitted c) → c.On P s.store

/-- A step of the relay keeps it so, if what the credential asks for meets `P`. -/
theorem CarriesOn.next {s s' : Sys} {w : ℕ → Prop} {credential : Credential} {l : Label} {o : Output}
    (h : CarriesOn P s w) (stable : ∀ p p' : Post, p.Becomes p' → P p → P p')
    (hnext : next env publisher s l = some (s', o))
    (asks : ∀ k request p c, l = .receive k credential request →
      admitRequest env s.clock credential request s.store = .ok (p, .command c) → c.On P s.store) :
    CarriesOn P s' (carry credential w (.sys l)) := by
  have hstep := next_step hnext
  have hgrows := hstep.evolves
  intro k c hw hticket
  refine Command.On.mono stable hgrows.posts hgrows.variants ?_
  -- a process that holds its command from before holds it for the credential if it did so before
  have hbefore : s.tickets k = some (.admitted c) → w k := by
    intro hheld
    have hbusy : (s.tickets k).isSome = true := by rw [hheld]; rfl
    cases l with
    | receive k' credential' request =>
      by_cases hk : k = k'
      · subst hk
        simp only [Relay.next, hbusy, if_true] at hnext
        cases hnext
      · exact (Function.update_of_ne hk _ _).mp hw
    | receivePublic k' request =>
      by_cases hk : k = k'
      · subst hk
        simp only [Relay.next, hbusy, if_true] at hnext
        cases hnext
      · exact (Function.update_of_ne hk _ _).mp hw
    | _ => exact hw
  cases hstep.ticketOrigin hticket with
  | held hheld => exact h k c (hbefore hheld) hheld
  | received admission =>
    have hcredential : _ = credential := (Function.update_self k _ _).mp hw
    subst hcredential
    exact asks _ _ _ _ rfl admission
  | receivedPublic admission => exact ((Function.update_self k _ _).mp hw).elim
  | identified ticket => trivial

/-- The command that issues credentials lets posts and web processes be. -/
theorem issue_frame {slugs : Slugs} {jwt : JwtSettings} {now : Time} {id jti : Uuid}
    {options : IngestOptions} {claims : List (String × Json)} {s s' : Store}
    (h : issueDraftIngestToken slugs jwt now id jti options s = .ok (claims, s')) :
    s'.posts = s.posts ∧ s'.variants = s.variants ∧ ∃ brand,
      slugBrand slugs options.workspaceSlug options.brandSlug s = .ok brand ∧
        claims = ingestClaims jwt now jti brand options := by
  unfold issueDraftIngestToken at h
  split at h
  · cases h
  split at h
  · cases h
  rename_i brand hbrand
  obtain ⟨t, ht, heq⟩ := map_eq_ok.1 h
  cases heq
  unfold ingestMembership at ht
  split at ht
  · split at ht
    · cases ht
    · split at ht <;> cases ht
      exact ⟨rfl, rfl, brand, hbrand, rfl⟩
  · split at ht
    · cases ht
    · split at ht <;> cases ht <;> exact ⟨rfl, rfl, brand, hbrand, rfl⟩

/-- What the credential holds at the end of a run, it acts on. -/
theorem CarriesOn.actsOn {s : Sys} {w : ℕ → Prop} (h : CarriesOn P s w)
    (stable : ∀ p p' : Post, p.Becomes p' → P p → P p') : ActsOn env publisher P w s := by
  constructor
  · intro k draws s' post tenant brand subject row response hw hnext
    obtain ⟨c, ticket, ⟨_, -, -, hout⟩ | ⟨r, store, hrun, -, hout⟩⟩ := next_commit hnext
    · cases hout
    cases hout
    obtain ⟨q, hq, hid, hP⟩ := h k _ hw ticket
    cases runCommand_effect hrun with
    | alreadyApproved mem id =>
      rw [Post.eq_of_id mem hq (id.trans hid.symm)]
      exact hP
    | approved mem id =>
      rw [Post.eq_of_id mem hq (id.trans hid.symm)]
      exact stable q _ ⟨_, _, rfl, fun _ => rfl⟩ hP
  · intro k draws s' call q response hw hnext
    obtain ⟨c, ticket, ⟨_, -, -, hout⟩ | ⟨r, store, hrun, rfl, hout⟩⟩ := next_commit hnext
    · cases hout
    cases hout
    obtain ⟨hvariant, post, hpost, hof, hP⟩ := h k _ hw ticket
    cases runCommand_effect hrun with
    | scheduled => exact ⟨_, hvariant, rfl, post, hpost, hof, hP⟩

end Acts

/-- **A schedule credential acts on the content of its subject and its brand** in every run in which
it is asked for nothing else; the brand is checked, the subject is not. -/
theorem acts_on_own_content {env : Env} {publisher : Option Publisher} {slugs : Slugs}
    {jwt : JwtSettings} {a b s : Sys} {options : IngestOptions} {id jti : Uuid}
    {claims : List (String × Json)} {es : List (IngestLabel × IngestOutput)}
    (issued : (ingestion env publisher slugs jwt).step a
      (.issue options id jti, .issued (.ok claims)) b)
    (run : Trail ((ingestion env publisher slugs jwt).guarded
      (AsksForOwn (verifiedCredential claims) options.subject)) b es s) :
    ∃ brand, slugBrand slugs options.workspaceSlug options.brandSlug a.store = .ok brand ∧
      ActsOn env publisher (fun p => p.createdBySubject = options.subject ∧ p.brand = brand.id)
        (Carried (verifiedCredential claims) es) s := by
  obtain ⟨brand, hbrand, rfl⟩ : ∃ brand,
      slugBrand slugs options.workspaceSlug options.brandSlug a.store = .ok brand ∧
        claims = ingestClaims jwt a.clock jti brand options := by
    change ingestNext env publisher slugs jwt a (.issue options id jti) = _ at issued
    simp only [ingestNext] at issued
    split at issued <;> cases issued
    exact (issue_frame ‹_›).2.2
  refine ⟨brand, hbrand, ?_⟩
  set credential := verifiedCredential (ingestClaims jwt a.clock jti brand options) with hcredential
  set P : Post → Prop := fun p => p.createdBySubject = options.subject ∧ p.brand = brand.id with hP
  have stable : ∀ p p' : Post, p.Becomes p' → P p → P p' := by
    rintro p _ ⟨_, _, rfl, -⟩ h
    exact h
  refine CarriesOn.actsOn ?_ stable
  refine run.invariant_fold (I := fun s w => CarriesOn P s w) (fun r w e t hr hstep => ?_)
    fun _ _ hw => hw.elim
  obtain ⟨hasks, hstep⟩ := hstep
  obtain ⟨⟨l⟩ | ⟨options', id', jti'⟩, o⟩ := e
  · obtain ⟨⟨t', o'⟩, hnext, heq⟩ := Option.map_eq_some_iff.1 hstep
    cases heq
    refine hr.next stable hnext ?_
    rintro k request p c rfl admission
    obtain ⟨hauth, -, hhandle⟩ := admitRequest_eq_ok admission
    -- the only brand of the principal is the brand of the token
    have hp : p.brandIds = [brand.id] := by
      rw [hcredential, authenticate_ingest] at hauth
      cases hauth
      rfl
    have hon := handle_on hhandle (hasks rfl)
    simpa only [hp, List.mem_singleton] using hon
  · change ingestNext env publisher slugs jwt r (.issue options' id' jti') = _ at hstep
    simp only [ingestNext] at hstep
    split at hstep <;> cases hstep
    · exact hr
    · obtain ⟨hposts, hvariants, -⟩ := issue_frame ‹_›
      intro k c hw hticket
      have hon := hr k c hw hticket
      refine hon.mono stable ?_ ?_
      · exact hposts ▸ .refl Post.Becomes.refl _
      · exact hvariants ▸ .refl (fun _ => rfl) _

namespace Sample

/-- The slugs of the workspace and the brand. -/
def taskSlugs : Slugs := ⟨fun _ => "studio", fun _ => "brand"⟩

def jwt : JwtSettings := ⟨"relay", "relay"⟩

/-- A credential for two weeks. -/
def options : IngestOptions := ⟨"studio", "brand", "task:content", 14, .schedule⟩

/-- The claims of its token. -/
def claims : List (String × Json) :=
  ingestClaims jwt 0 (.ofNat 71) ⟨brand, workspace, "Brand", "UTC", true⟩ options

/-- The credential drafts a post. -/
def taskDrafting : List IngestLabel :=
  [.sys (.receive 0 (verifiedCredential claims) (.createPost (some "k") ⟨brand, none, "Hello", none⟩)),
    .sys (.commit 0 (draws 20))]

/-- The owner drafts the post. -/
def ownerDrafting : List IngestLabel :=
  (panel (.createPost (some "k") ⟨brand, none, "Hello", none⟩) 20).map .sys

/-- The credential asks to approve the post. -/
def taskApproving : List IngestLabel :=
  [.sys (.receive 0 (verifiedCredential claims) (.approvePost post))]

/-- An approval is asked for a post of the subject only, and no publication. -/
def asksForOwn (subject : String) (s : Sys) : IngestLabel → Bool
  | .sys (.receive _ _ (.approvePost id)) =>
    s.store.posts.rows.all fun p => p.id ≠ id || p.createdBySubject = subject
  | .sys (.receive _ _ (.createPublication _ _)) => false
  | _ => true

theorem asksForOwn_spec {credential : Credential} {subject : String} {s : Sys}
    {e : IngestLabel × IngestOutput} (h : asksForOwn subject s e.1 = true) :
    AsksForOwn credential subject s e := by
  obtain ⟨⟨l⟩ | _, o⟩ := e
  · cases l with
    | receive k credential' request =>
      intro _
      cases request with
      | approvePost id =>
        intro p hp hid
        have hp' := List.all_eq_true.1 h p hp
        simpa [hid] using hp'
      | createPublication => cases h
      | _ => trivial
    | _ => trivial
  · trivial

/-- The next transaction of the first web process approves a post of the subject. -/
def approvesOf (subject : String) (s : Sys) : Bool :=
  match next env none s (.commit 0 (draws 0)) with
  | some (_, .committed (.approvePost _ _ _ _) (.approved row) _) => row.createdBySubject = subject
  | _ => false

theorem exists_of_approvesOf {subject : String} {s : Sys} (h : approvesOf subject s = true) :
    ∃ s' post tenant brand caller row response, next env none s (.commit 0 (draws 0)) =
      some (s', .committed (.approvePost post tenant brand caller) (.approved row) response) ∧
        row.createdBySubject = subject := by
  unfold approvesOf at h
  split at h
  · rename_i hnext
    exact ⟨_, _, _, _, _, _, _, hnext, of_decide_eq_true h⟩
  · cases h

/-- The command, at the start. -/
def issuing : IngestLabel := .issue options (.ofNat 70) (.ofNat 71)

/-- The system after it. -/
def issued : Sys := ((ingestNext env none taskSlugs jwt start issuing).map Prod.fst).getD start

theorem issued_step :
    (ingestion env none taskSlugs jwt).step start (issuing, .issued (.ok claims)) issued := by
  rfl

/-- The first web process holds the command of the credential. -/
theorem carried_of_taskApproving {ls : List IngestLabel} {es : List (IngestLabel × IngestOutput)}
    (h : es.map Prod.fst = ls ++ taskApproving) : Carried (verifiedCredential claims) es 0 := by
  have hfold : Carried (verifiedCredential claims) es = (es.map Prod.fst).foldl
      (carry (verifiedCredential claims)) fun _ => False := List.foldl_map.symm
  rw [hfold, h, List.foldl_append]
  have hself : ∀ w : ℕ → Prop, taskApproving.foldl (carry (verifiedCredential claims)) w 0 := by
    intro w
    have hcarry : taskApproving.foldl (carry (verifiedCredential claims)) w =
        Function.update w 0 (verifiedCredential claims = verifiedCredential claims) := rfl
    rw [hcarry, Function.update_self]
  exact hself _

end Sample

/-- The credential approves the post that it has drafted. -/
theorem acts_on_own_content_sample : ∃ es s k draws s' post tenant brand caller row response,
    Carried (verifiedCredential Sample.claims) es k ∧
      next Sample.env none s (.commit k draws) =
        some (s', .committed (.approvePost post tenant brand caller) (.approved row) response) ∧
      row.createdBySubject = "task:content" := by
  obtain ⟨es, s, run, labels, hs⟩ := exists_of_runLabels
    (show ((runLabels (ingestNext Sample.env none Sample.taskSlugs Sample.jwt)
      (Sample.asksForOwn "task:content") (Sample.taskDrafting ++ Sample.taskApproving)
      Sample.issued).any fun x => Sample.approvesOf "task:content" x.2) = true by decide +kernel)
  obtain ⟨s', post, tenant, brand, caller, row, response, hnext, -⟩ := Sample.exists_of_approvesOf hs
  have hcarried := Sample.carried_of_taskApproving labels
  obtain ⟨_, -, hacts⟩ := acts_on_own_content Sample.issued_step
    (run.guarded_imp fun _ _ => Sample.asksForOwn_spec)
  exact ⟨es, s, 0, _, s', post, tenant, brand, caller, row, response, hcarried, hnext,
    (hacts.approves _ _ _ _ _ _ _ _ _ hcarried hnext).1⟩

/-- The credential approves a post that the owner of the workspace has drafted. -/
theorem acts_on_others_content : ¬ ∀ (env : Env) (publisher : Option Publisher) (slugs : Slugs)
    (jwt : JwtSettings) (a b s : Sys) (options : IngestOptions) (id jti : Uuid)
    (claims : List (String × Json)) (es : List (IngestLabel × IngestOutput)),
    Reachable (ingestion env publisher slugs jwt) a →
    (ingestion env publisher slugs jwt).step a (.issue options id jti, .issued (.ok claims)) b →
    options.purpose = .schedule → Trail (ingestion env publisher slugs jwt) b es s →
    ∃ brand, slugBrand slugs options.workspaceSlug options.brandSlug a.store = .ok brand ∧
      ActsOn env publisher (fun p => p.createdBySubject = options.subject ∧ p.brand = brand.id)
        (Carried (verifiedCredential claims) es) s := by
  intro h
  obtain ⟨es, s, run, labels, hs⟩ := exists_of_runLabels
    (show ((runLabels (ingestNext Sample.env none Sample.taskSlugs Sample.jwt) (fun _ _ => true)
      (Sample.ownerDrafting ++ Sample.taskApproving) Sample.issued).any fun x =>
        Sample.approvesOf "user:1" x.2) = true by decide +kernel)
  obtain ⟨s', post, tenant, brand, caller, row, response, hnext, hother⟩ :=
    Sample.exists_of_approvesOf hs
  obtain ⟨_, -, hacts⟩ := h _ _ _ _ _ _ _ _ _ _ _ _ (.of_start (Sample.start_isStart none))
    Sample.issued_step rfl run.of_guarded
  have hown := (hacts.approves _ _ _ _ _ _ _ _ _ (Sample.carried_of_taskApproving labels) hnext).1
  rw [hother] at hown
  exact absurd hown (by decide)

end Relay
