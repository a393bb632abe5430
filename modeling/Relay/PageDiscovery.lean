import Relay.OAuthCallback

/-!
# The pages that the discovery finds

The Graph API delivers the pages that a user manages as a chain of result pages, each with a link to
the next one in `paging.next`.  The client reads the first.

* `ManagedPage`, `Describes`: a page, and the JSON object that the API describes it by;
* `Linked`, `Delivers`: the result pages that the API answers and would answer to the links;
* `identityOf_lists`: the connections of the result page that is read, in its order;
* `discoversPages_iff`: when they are those of all the pages.
-/

namespace Relay

open Exchange

/-! ### Managed pages -/

/-- A page that the Meta user manages. -/
structure ManagedPage where
  id : String
  accessToken : Option String
  /-- the identifier of the business account linked -/
  instagram : Option String
  deriving DecidableEq

namespace ManagedPage

/-- The connections of a page: channel, identifier and token. -/
def channels (page : ManagedPage) : List (Channel × Json × Json) :=
  match page.accessToken with
  | none => []
  | some token =>
    (.metaFacebookPage, .str page.id, .str token) ::
      (page.instagram.map fun account =>
        (.metaInstagramBusinessAccount, .str account, .str token)).toList

/-- The object with these fields describes the page; what is absent may also be empty or `null`. -/
structure Describes (page : ManagedPage) (fields : List (String × Json)) : Prop where
  id : Json.get fields "id" = some (.str page.id)
  accessToken : match page.accessToken with
    | none => ((Json.get fields "access_token").getD .null).truthy = false
    | some token => Json.get fields "access_token" = some (.str token) ∧ token ≠ ""
  instagram : match page.instagram with
    | none => ((Json.get fields "instagram_business_account").getD .null).truthy = false
    | some account => ∃ details,
      Json.get fields "instagram_business_account" = some (.obj details) ∧
        Json.get details "id" = some (.str account)

theorem channels_eq_nil {page : ManagedPage} : page.channels = [] ↔ page.accessToken = none := by
  unfold channels
  cases page.accessToken <;> simp

end ManagedPage

/-- What a connection found is, apart from its name. -/
def DiscoveredConnection.key (c : DiscoveredConnection) : Channel × Json × Json :=
  (c.channel, c.providerChannelId, c.accessToken)

/-! ### Result pages -/

/-- A result page lists the pages. -/
def Lists (body : Json) (pages : List ManagedPage) : Prop :=
  ∃ fields items, body = .obj fields ∧ Json.get fields "data" = some (.arr items) ∧
    List.Forall₂ (fun page item => ∃ entry, item = .obj entry ∧ page.Describes entry) pages items

/-- `paging.next` of a result page. -/
def nextLink : Json → Option String
  | .obj fields =>
    match Json.get fields "paging" with
    | some (.obj paging) =>
      match Json.get paging "next" with
      | some (.str url) => some url
      | _ => none
    | _ => none
  | _ => none

/-- From an answer on, the API delivers these result pages; `follow` answers the links. -/
inductive Linked (follow : String → Answer) : Answer → List (List ManagedPage) → Prop
  | last {a : Answer} {body : Json} {pages : List ManagedPage} (read : a.body = some body)
      (lists : Lists body pages) (ends : nextLink body = none) : Linked follow a [pages]
  | more {a : Answer} {body : Json} {pages : List ManagedPage} {url : String}
      {rest : List (List ManagedPage)} (read : a.body = some body) (lists : Lists body pages)
      (link : nextLink body = some url) (tail : Linked follow (follow url) rest) :
      Linked follow a (pages :: rest)

/-- The answers to the requests of the discovery, by an API that lists at most `limit` pages at
once: a profile, and the first of the result pages. -/
structure Delivers (follow : String → Answer) (limit : ℕ) (answers : ℕ → Answer)
    (results : List (List ManagedPage)) : Prop where
  profile : ∃ fields id, (answers 0).body = some (.obj fields) ∧
    Json.get fields "id" = some (.str id)
  linked : Linked follow (answers 1) results
  bounded : ∀ pages ∈ results, pages.length ≤ limit

/-- The discovery returns an identity with the connections of these pages, in their order. -/
def DiscoversPages (p : OAuthPackages) (accessToken : Json) (answers : ℕ → Answer)
    (pages : List ManagedPage) : Prop :=
  ∃ identity, (MetaOAuthClient.discoverIdentity p accessToken).result answers = .ok identity ∧
    identity.connections.map (·.key) = pages.flatMap ManagedPage.channels

section Discovery

variable {p : OAuthPackages} {accessToken : Json} {answers : ℕ → Answer}

theorem ok_bind {ε α β : Type} (a : α) (f : α → Except ε β) : (Except.ok a >>= f) = f a := rfl

theorem getOr_obj (fields : List (String × Json)) (key : String) (d : Json) :
    getOr (.obj fields) key d = .ok ((Json.get fields key).getD d) := rfl

theorem subscript_obj {fields : List (String × Json)} {key : String} {v : Json}
    (h : Json.get fields key = some v) : subscript (.obj fields) key = .ok v := by
  simp only [subscript, h]

/-- What becomes of one page. -/
theorem pageConnections_describes {page : ManagedPage} {fields : List (String × Json)}
    (h : page.Describes fields) :
    ∃ cs, MetaOAuthClient.pageConnections (.obj fields) = .ok cs ∧ cs.map (·.key) = page.channels := by
  obtain ⟨hid, htoken, hinstagram⟩ := h
  unfold MetaOAuthClient.pageConnections ManagedPage.channels
  simp only [getOr_obj, ok_bind, subscript_obj hid]
  cases ht : page.accessToken with
  | none =>
    rw [ht] at htoken
    exact ⟨[], if_pos (by simp [htoken]), rfl⟩
  | some token =>
    rw [ht] at htoken
    obtain ⟨htoken, hne⟩ := htoken
    have htruthy : (Json.str token).truthy = true := by simp [Json.truthy, hne]
    simp only [htoken, Option.getD_some, htruthy, not_true_eq_false, if_false]
    cases hi : page.instagram with
    | none =>
      rw [hi] at hinstagram
      exact ⟨_, if_neg (by simp [hinstagram]), rfl⟩
    | some account =>
      rw [hi] at hinstagram
      obtain ⟨details, hdetails, haccount⟩ := hinstagram
      -- an object with an entry is no empty object
      have hfull : (Json.obj details).truthy = true := by
        cases details with
        | nil => cases haccount
        | cons d ds => rfl
      simp only [hdetails, Option.getD_some, hfull, if_true, subscript_obj haccount, getOr_obj, ok_bind]
      exact ⟨_, rfl, rfl⟩

/-- What becomes of the pages of a list. -/
theorem mapM_pageConnections {pages : List ManagedPage} {items : List Json}
    (h : List.Forall₂ (fun page item => ∃ entry, item = .obj entry ∧ page.Describes entry) pages items) :
    ∃ css, items.mapM MetaOAuthClient.pageConnections = .ok css ∧
      css.flatten.map (·.key) = pages.flatMap ManagedPage.channels := by
  induction h with
  | nil => exact ⟨[], rfl, rfl⟩
  | cons head _ ih =>
    obtain ⟨entry, rfl, hdescribes⟩ := head
    obtain ⟨cs, hcs, hkeys⟩ := pageConnections_describes hdescribes
    obtain ⟨css, hcss, hrest⟩ := ih
    refine ⟨cs :: css, ?_, ?_⟩
    · rw [List.mapM_cons, hcs, hcss]
      rfl
    · rw [List.flatten_cons, List.map_append, hkeys, hrest, List.flatMap_cons]

/-- **The connections of a result page** are those of its pages, in their order. -/
theorem identityOf_lists {fields : List (String × Json)} {id : String} {body : Json}
    {pages : List ManagedPage} (hid : Json.get fields "id" = some (.str id)) (h : Lists body pages) :
    ∃ identity, MetaOAuthClient.identityOf (.obj fields) body = .ok identity ∧
      identity.connections.map (·.key) = pages.flatMap ManagedPage.channels := by
  obtain ⟨entries, items, rfl, hdata, hitems⟩ := h
  obtain ⟨css, hcss, hkeys⟩ := mapM_pageConnections hitems
  have hloop : loopItems (.arr items) = .ok items := rfl
  refine ⟨⟨.str id, (Json.get fields "name").getD (.str ""), css.flatten⟩, ?_, hkeys⟩
  unfold MetaOAuthClient.identityOf
  simp only [getOr_obj, ok_bind, hdata, Option.getD_some, hloop, hcss, subscript_obj hid]

/-- How the discovery ends: its two requests are for the profile and for the first result page. -/
theorem discoverIdentity_result :
    (MetaOAuthClient.discoverIdentity p accessToken).result answers = (do
      let profile ← sent p (MetaOAuthClient.profileRequest accessToken) (answers 0)
      let pages ← sent p (MetaOAuthClient.pagesRequest accessToken) (answers 1)
      MetaOAuthClient.identityOf profile pages) := by
  unfold MetaOAuthClient.discoverIdentity
  simp only [request_bind, result_done]

/-- The first answer lists the first of the result pages. -/
theorem Linked.first {follow : String → Answer} {a : Answer} {results : List (List ManagedPage)}
    (h : Linked follow a results) :
    ∃ body pages, a.body = some body ∧ results.head? = some pages ∧ Lists body pages := by
  cases h with
  | last read lists _ => exact ⟨_, _, read, rfl, lists⟩
  | more read lists _ _ => exact ⟨_, _, read, rfl, lists⟩

/-- **The discovery loses nothing exactly when every page after the first result page is without an
access token.** -/
theorem discoversPages_iff {follow : String → Answer} {limit : ℕ} {results : List (List ManagedPage)}
    (delivers : Delivers follow limit answers results)
    (profileAccepted : p.accepted (MetaOAuthClient.profileRequest accessToken) = true)
    (pagesAccepted : p.accepted (MetaOAuthClient.pagesRequest accessToken) = true) :
    DiscoversPages p accessToken answers results.flatten ↔
      ∀ pages ∈ results.tail, ∀ page ∈ pages, page.accessToken = none := by
  obtain ⟨fields, id, hprofile, hid⟩ := delivers.profile
  obtain ⟨body, first, hbody, hfirst, hlists⟩ := delivers.linked.first
  obtain ⟨identity, hidentity, hkeys⟩ := identityOf_lists hid hlists
  obtain ⟨rest, rfl⟩ : ∃ rest, results = first :: rest := List.head?_eq_some_iff.1 hfirst
  have hresult : (MetaOAuthClient.discoverIdentity p accessToken).result answers = .ok identity := by
    rw [discoverIdentity_result, sent_eq_ok.2 ⟨profileAccepted, hprofile⟩,
      sent_eq_ok.2 ⟨pagesAccepted, hbody⟩]
    exact hidentity
  have hrest : DiscoversPages p accessToken answers (first :: rest).flatten ↔
      rest.flatten.flatMap ManagedPage.channels = [] := by
    unfold DiscoversPages
    rw [hresult, List.flatten_cons, List.flatMap_append]
    constructor
    · rintro ⟨_, heq, hall⟩
      cases heq
      rw [hkeys] at hall
      exact List.self_eq_append_right.1 hall
    · intro hnil
      exact ⟨identity, rfl, by rw [hnil, List.append_nil, hkeys]⟩
  rw [hrest, List.flatMap_eq_nil_iff, List.tail_cons]
  simp only [ManagedPage.channels_eq_nil, List.mem_flatten]
  constructor
  · intro h pages hpages page hpage
    exact h page ⟨pages, hpages, hpage⟩
  · rintro h page ⟨pages, hpages, hpage⟩
    exact h pages hpages page hpage

end Discovery

namespace Sample

def gallery : ManagedPage := ⟨"101", some "token-101", some "1784"⟩

def annex (token : Option String) : ManagedPage := ⟨"102", token, none⟩

def galleryEntry : List (String × Json) :=
  [("id", .str "101"), ("name", .str "Gallery"), ("access_token", .str "token-101"),
    ("instagram_business_account", .obj [("id", .str "1784"), ("username", .str "gallery")])]

def annexEntry (token : Option String) : List (String × Json) :=
  ("id", .str "102") :: (token.map fun t => ("access_token", .str t)).toList

/-- The profile, and the first of two result pages. -/
def discoveryAnswers : ℕ → Answer
  | 0 => .response 200 (.json (.obj [("id", .str "7"), ("name", .str "Jorge")]))
  | _ => .response 200 (.json (.obj [("data", .arr [.obj galleryEntry]),
    ("paging", .obj [("next", .str "/me/accounts?after=101")])]))

/-- The second result page. -/
def discoveryFollow (token : Option String) : String → Answer := fun _ =>
  .response 200 (.json (.obj [("data", .arr [.obj (annexEntry token)]), ("paging", .obj [])]))

theorem discovery_delivers (token : Option String) (h : token ≠ some "") :
    Delivers (discoveryFollow token) 1 discoveryAnswers [[gallery], [annex token]] where
  profile := ⟨_, "7", rfl, rfl⟩
  linked := by
    have hgallery : gallery.Describes galleryEntry :=
      ⟨rfl, ⟨rfl, by decide⟩, ⟨_, rfl, rfl⟩⟩
    have hannex : (annex token).Describes (annexEntry token) := by
      cases token with
      | none => exact ⟨rfl, rfl, rfl⟩
      | some t => exact ⟨rfl, ⟨rfl, fun ht => h (congrArg some ht)⟩, rfl⟩
    exact .more rfl ⟨_, _, rfl, rfl, .cons ⟨_, rfl, hgallery⟩ .nil⟩ rfl
      (.last rfl ⟨_, _, rfl, rfl, .cons ⟨_, rfl, hannex⟩ .nil⟩ rfl)
  bounded := by simp

end Sample

theorem discoversPages_iff_sample :
    DiscoversPages ⟨fun _ => true, fun _ => none⟩ (.str "user-token") Sample.discoveryAnswers
      [[Sample.gallery], [Sample.annex none]].flatten := by
  refine (discoversPages_iff (Sample.discovery_delivers none (by simp)) rfl rfl).2 ?_
  simp [Sample.annex]

/-- The second of two result pages has a page with an access token. -/
theorem not_discoversPages : ¬ ∀ (p : OAuthPackages) (accessToken : Json) (follow : String → Answer)
    (limit : ℕ) (answers : ℕ → Answer) (results : List (List ManagedPage)),
    Delivers follow limit answers results →
    p.accepted (MetaOAuthClient.profileRequest accessToken) = true →
    p.accepted (MetaOAuthClient.pagesRequest accessToken) = true →
    DiscoversPages p accessToken answers results.flatten := by
  intro h
  obtain ⟨identity, hresult, hkeys⟩ := h ⟨fun _ => true, fun _ => none⟩ (.str "user-token") _ _ _ _
    (Sample.discovery_delivers (some "token-102") (by simp)) rfl rfl
  -- what the discovery returns, by evaluation
  have hfound : (MetaOAuthClient.discoverIdentity ⟨fun _ => true, fun _ => none⟩
      (.str "user-token")).result Sample.discoveryAnswers =
        .ok ⟨.str "7", .str "Jorge",
          [⟨.metaFacebookPage, .str "101", .str "Gallery", .str "token-101"⟩,
            ⟨.metaInstagramBusinessAccount, .str "1784", .str "gallery", .str "token-101"⟩]⟩ := by
    rw [discoverIdentity_result]
    rfl
  rw [hfound] at hresult
  cases hresult
  simp [Sample.gallery, Sample.annex, ManagedPage.channels] at hkeys

end Relay
