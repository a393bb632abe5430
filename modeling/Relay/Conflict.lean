import Relay.Constraints
import Relay.Submission

/-!
# One key, two drafts

A second POST with the idempotency key of a post is compared with the first by a digest of its
body.  The draft is made of a reading of that body: a title that is left out is blank, and an
image that is named twice is shown once.

* `PostPayload.draft`: the draft that a body asks for, `creates_draft`;
* `TellsApart`: the second POST is refused exactly when it asks for another draft;
* `tellsApart_iff`: so it is unless the two bodies ask for one draft in two ways.
-/

namespace Relay

open Relational Sequence Transition

/-! ### Drafts -/

/-- What a draft shows: its brand, its texts and its images in their order. -/
structure Draft where
  brand : Uuid
  title : String
  body : String
  images : List Uuid
  deriving DecidableEq

/-- The draft that a body asks for. -/
def PostPayload.draft (p : PostPayload) : Draft where
  brand := p.brandId
  title := p.title.getD ""
  body := p.body
  images := fromKeys p.mediaAssetIds

/-- The post and its variant show the draft. -/
structure Draft.Shown (d : Draft) (post : Post) (v : PostVariant) : Prop where
  brand : post.brand = d.brand
  title : post.title = d.title
  body : post.body = d.body ∧ v.body = d.body
  ofPost : v.post = post.id
  images : v.mediaAssets = d.images ∧ v.mediaAssetOrder = d.images.map (·.text)

section Drafts

variable {env : Env} {w : World} {tenant : Uuid} {subject key : String} {payload : PostPayload}
  {s s' : Store}

/-- The draft that a call creates is the one its body asks for. -/
theorem creates_draft {post : Post}
    (h : runCommand env w (.createPostDraft tenant payload.brandId subject key payload) s =
      .ok (.post ⟨post, true⟩, s')) :
    post ∈ s'.posts ∧ ∃ v ∈ s'.variants, payload.draft.Shown post v := by
  cases createPostDraft_effect h with
  | drafted _ insert images insertVariant =>
    refine ⟨Table.mem_self_insert? insert, _, Table.mem_self_insert? insertVariant, ?_⟩
    have hids := images.ids
    refine ⟨rfl, rfl, ⟨rfl, rfl⟩, rfl, hids, ?_⟩
    show List.map _ _ = List.map _ (fromKeys payload.mediaAssetIds)
    rw [← hids, List.map_map]
    rfl

end Drafts

/-! ### The second POST -/

/-- The call of the second POST with a key. -/
def repeatedDraft (tenant : Uuid) (key : String) (payload : PostPayload) (subject : String) : Command :=
  .createPostDraft tenant payload.brandId subject key payload

/-- Whoever sends the second body, and whenever its transaction comes: it conflicts exactly when it
asks for another draft than the first, and otherwise gets the post of the first. -/
def TellsApart (env : Env) (tenant : Uuid) (key : String) (first second : PostPayload) (post : Uuid)
    (s : Store) : Prop :=
  ∀ (w : World) (subject : String),
    (runCommand env w (repeatedDraft tenant key second subject) s = .error .idempotencyConflict ↔
      first.draft ≠ second.draft) ∧
    (first.draft = second.draft → ∃ q ∈ s.posts, q.id = post ∧
      runCommand env w (repeatedDraft tenant key second subject) s = .ok (.post ⟨q, false⟩, s))

/-- The two bodies leave the title out or not, and they name the same images equally often. -/
def SameForm (first second : PostPayload) : Prop :=
  first.title.isSome = second.title.isSome ∧ first.mediaAssetIds = second.mediaAssetIds

section Second

variable {env : Env} {publisher : Option Publisher} {first : PostPayload}

/-- Bodies that ask for one draft in one form are equal. -/
theorem eq_of_draft {second : PostPayload} (same : first.draft = second.draft)
    (form : SameForm first second) :
    first = second := by
  obtain ⟨hsome, hids⟩ := form
  obtain ⟨b₁, t₁, x₁, i₁⟩ := first
  obtain ⟨b₂, t₂, x₂, i₂⟩ := second
  simp only [PostPayload.draft, Draft.mk.injEq] at same
  obtain ⟨rfl, htitle, rfl, -⟩ := same
  simp only at hsome hids htitle
  rw [hids]
  cases t₁ with
  | none =>
    cases t₂ with
    | none => rfl
    | some => cases hsome
  | some =>
    cases t₂ with
    | none => cases hsome
    | some =>
      obtain rfl := htitle
      rfl

/-- A post answers every later call with its key, by the digest of its body. -/
theorem repeatedDraft_run {a b t : Sys} {k : ℕ} {draws : Draws} {tenant : Uuid} {subject key : String}
    {q : Post} {response : Option (Except ApiError Response)} {es : List (Label × Output)}
    (reachable : Reachable (relay env publisher) a)
    (created : (relay env publisher).step a (.commit k draws,
      .committed (repeatedDraft tenant key first subject) (.post ⟨q, true⟩) response) b)
    (later : Trail (relay env publisher) b es t) (second : PostPayload) (w : World) (subject' : String) :
    ∃ q' ∈ t.store.posts, q'.id = q.id ∧
      runCommand env w (repeatedDraft tenant key second subject') t.store =
        if requestFingerprint env first.toFields = requestFingerprint env second.toFields
        then .ok (.post ⟨q', false⟩, t.store) else .error .idempotencyConflict := by
  obtain ⟨hq, htenant, hkey, hsame⟩ : q ∈ b.store.posts ∧ q.tenant = tenant ∧
      q.idempotencyKey = key ∧ q.requestFingerprint = requestFingerprint env first.toFields := by
    cases next_step created with
    | committed _ effect =>
      cases effect with
      | drafted _ insert => exact ⟨Table.mem_self_insert? insert, rfl, rfl, rfl⟩
  -- the post lives on, with its key and its digest
  obtain ⟨q', hq', hid, htenant', hkey', hsame'⟩ : ∃ q' ∈ t.store.posts, q'.id = q.id ∧
      q'.tenant = q.tenant ∧ q'.idempotencyKey = q.idempotencyKey ∧
      q'.requestFingerprint = q.requestFingerprint := by
    obtain ⟨_, hq', _, _, rfl, -⟩ := (Trail.evolves later).posts q hq
    exact ⟨_, hq', rfl, rfl, rfl, rfl⟩
  have hfound := (constrained_of_reachable ((reachable.step created).trail later)).findPost hq'
  rw [htenant', hkey', htenant, hkey] at hfound
  refine ⟨q', hq', hid, ?_⟩
  simp only [repeatedDraft, runCommand, createPostDraft, hfound, replayPost, hsame', hsame]
  by_cases heq : requestFingerprint env first.toFields = requestFingerprint env second.toFields
  · rw [if_pos heq, if_neg (not_not.2 heq)]
    rfl
  · rw [if_neg heq, if_pos heq]
    rfl

end Second

/-- **The key tells two bodies apart by their drafts exactly when they do not ask for one draft in
two forms**: a title left out and a blank one, or images named a different number of times. -/
theorem tellsApart_iff {env : Env} {publisher : Option Publisher} {a b t : Sys} {k : ℕ}
    {draws : Draws} {tenant : Uuid} {subject key : String}
    {first second : PostPayload} {q : Post} {response : Option (Except ApiError Response)}
    {es : List (Label × Output)} (hsha : Function.Injective env.sha256)
    (reachable : Reachable (relay env publisher) a)
    (created : (relay env publisher).step a (.commit k draws,
      .committed (repeatedDraft tenant key first subject) (.post ⟨q, true⟩) response) b)
    (later : Trail (relay env publisher) b es t) :
    TellsApart env tenant key first second q.id t.store ↔
      (first.draft = second.draft → SameForm first second) := by
  constructor
  · intro h same
    obtain ⟨q', -, -, hrun⟩ := repeatedDraft_run reachable created later second ⟨draws, t.clock⟩
      subject
    obtain ⟨-, hreplayed⟩ := h ⟨draws, t.clock⟩ subject
    obtain ⟨_, -, -, hok⟩ := hreplayed same
    rw [hok] at hrun
    split at hrun
    · rename_i heq
      obtain rfl := PostPayload.eq_of_requestFingerprint hsha heq
      exact ⟨rfl, rfl⟩
    · cases hrun
  · intro form w subject'
    obtain ⟨q', hq', hid, hrun⟩ := repeatedDraft_run reachable created later second w subject'
    by_cases same : first.draft = second.draft
    · have heq : first = second := eq_of_draft same (form same)
      rw [heq, if_pos rfl] at hrun
      refine ⟨iff_of_false ?_ (not_not.2 same), fun _ => ⟨q', hq', hid, hrun⟩⟩
      rw [hrun]
      simp
    · have hne : ¬ requestFingerprint env first.toFields = requestFingerprint env second.toFields :=
        fun heq => same (congrArg PostPayload.draft (PostPayload.eq_of_requestFingerprint hsha heq))
      rw [if_neg hne] at hrun
      exact ⟨iff_of_true hrun same, fun h => absurd h same⟩

namespace Sample

/-- A body without images. -/
def textPayload (title : Option String) : PostPayload := ⟨brand, title, "Hello", []⟩

/-- The POST of such a body. -/
def postingText (title : Option String) : ApiRequest :=
  .createPost (some "k") ⟨brand, title, "Hello", none⟩

/-- The POST is admitted and creates a post. -/
def createsDraft (payload : PostPayload) : List (Label × Output) → Bool
  | [_, (.commit 0 _, .committed (.createPostDraft tenant brand subject key payload')
      (.post ⟨_, true⟩) _)] =>
    tenant = workspace && brand = payload.brandId && subject = panelSubject 1 && key = "k" &&
      payload' = payload
  | _ => false

/-- The POST without a title is admitted and creates a post. -/
theorem exists_drafted : ∃ a draws q response b, Reachable (relay env none) a ∧
    (relay env none).step a (.commit 0 draws, .committed
      (repeatedDraft workspace "k" (textPayload none) (panelSubject 1)) (.post ⟨q, true⟩) response) b := by
  obtain ⟨es, b, tr, hes⟩ : ∃ es b, Trail (relay env none) start es b ∧
      createsDraft (textPayload none) es = true :=
    exists_of_execute (show ((execute env none (panel (postingText none) 20) start).any fun x =>
      createsDraft (textPayload none) x.1) = true by decide +kernel)
  unfold createsDraft at hes
  split at hes
  · rename_i e draws tenant brand' subject key payload' q response
    simp only [Bool.and_eq_true, decide_eq_true_eq] at hes
    obtain ⟨⟨⟨⟨rfl, rfl⟩, rfl⟩, rfl⟩, rfl⟩ := hes
    obtain ⟨a, hreceive, tr⟩ := Trail.cons_iff.1 tr
    obtain ⟨_, hcommit, hend⟩ := Trail.cons_iff.1 tr
    obtain rfl := Trail.nil_iff.1 hend
    exact ⟨a, draws, q, response, _, (Reachable.of_start (start_isStart none)).step hreceive, hcommit⟩
  · cases hes

end Sample

/-- A body with another title is told from the one that has created the post. -/
theorem tellsApart_iff_sample : ∃ post s,
    (Sample.textPayload none).draft ≠ (Sample.textPayload (some "News")).draft ∧
    TellsApart Sample.env Sample.workspace "k" (Sample.textPayload none)
      (Sample.textPayload (some "News")) post s := by
  obtain ⟨a, draws, q, response, b, hr, hcommit⟩ := Sample.exists_drafted
  have hdrafts : (Sample.textPayload none).draft ≠ (Sample.textPayload (some "News")).draft := by decide
  exact ⟨q.id, b.store, hdrafts,
    (tellsApart_iff Sample.sha256_injective hr hcommit (.stay b)).2 fun same => absurd same hdrafts⟩

/-- A blank title where the first POST has left it out. -/
theorem not_tellsApart : ¬ ∀ (env : Env) (publisher : Option Publisher) (a b t : Sys) (k : ℕ)
    (draws : Draws) (tenant : Uuid) (subject key : String) (data data' : PostCreateData)
    (first second : PostPayload) (q : Post) (response : Option (Except ApiError Response))
    (es : List (Label × Output)), Function.Injective env.sha256 → data.validate = .ok first →
    data'.validate = .ok second → Reachable (relay env publisher) a →
    (relay env publisher).step a (.commit k draws,
      .committed (repeatedDraft tenant key first subject) (.post ⟨q, true⟩) response) b →
    Trail (relay env publisher) b es t →
    TellsApart env tenant key first second q.id t.store := by
  intro h
  obtain ⟨a, draws, q, response, b, hr, hcommit⟩ := Sample.exists_drafted
  have hapart := h Sample.env none a b b 0 draws Sample.workspace (panelSubject 1) "k"
    ⟨Sample.brand, none, "Hello", none⟩ ⟨Sample.brand, some "", "Hello", none⟩ (Sample.textPayload none)
    (Sample.textPayload (some "")) q response [] Sample.sha256_injective (by decide +kernel)
    (by decide +kernel) hr hcommit (.stay b)
  -- the second digest is another one
  obtain ⟨q', -, -, hrun⟩ := repeatedDraft_run hr hcommit (.stay b) (Sample.textPayload (some ""))
    ⟨draws, b.clock⟩ "user:1"
  have hne : ¬ requestFingerprint Sample.env (Sample.textPayload none).toFields =
      requestFingerprint Sample.env (Sample.textPayload (some "")).toFields := fun heq =>
    absurd (PostPayload.eq_of_requestFingerprint Sample.sha256_injective heq) (by decide)
  rw [if_neg hne] at hrun
  exact absurd rfl ((hapart ⟨draws, b.clock⟩ "user:1").1.1 hrun)

end Relay
