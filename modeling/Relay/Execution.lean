import Relay.Steps

/-!
# Runs by evaluation

* `execute`: the run along a list of labels, `exists_of_execute`, and `executeIf`, whose steps all
  meet a condition;
* `Sample`: a workspace with one brand, and the labels by which a post is drafted, approved,
  scheduled and delivered there.
-/

namespace Relay

open Relational Transition

/-- The run along a list of labels, if each applies and meets a condition. -/
def executeIf (env : Env) (publisher : Option Publisher) (ok : Sys → Label → Bool) :
    List Label → Sys → Option (List (Label × Output) × Sys)
  | [], s => some ([], s)
  | l :: ls, s =>
    if ok s l then
      match next env publisher s l with
      | none => none
      | some (t, o) => (executeIf env publisher ok ls t).map fun x => ((l, o) :: x.1, x.2)
    else none

/-- The run along a list of labels, if each applies. -/
def execute (env : Env) (publisher : Option Publisher) :
    List Label → Sys → Option (List (Label × Output) × Sys) :=
  executeIf env publisher fun _ _ => true

section Execute

variable {env : Env} {publisher : Option Publisher} {ok : Sys → Label → Bool} {ls : List Label}
  {s s' : Sys} {es : List (Label × Output)} {p : List (Label × Output) × Sys → Bool}

theorem trail_of_executeIf (h : executeIf env publisher ok ls s = some (es, s')) :
    Trail ((relay env publisher).guarded fun s e => ok s e.1 = true) s es s' := by
  induction ls generalizing s es with
  | nil => cases h; exact .stay _
  | cons l ls ih =>
    unfold executeIf at h
    split at h
    · rename_i hok
      split at h
      · cases h
      · rename_i t o hnext
        obtain ⟨⟨fs, r⟩, hrest, heq⟩ := Option.map_eq_some_iff.1 h
        cases heq
        exact .move ⟨hok, hnext⟩ (ih hrest)
    · cases h

/-- A run under a condition that is found by evaluation. -/
theorem exists_of_executeIf (h : ((executeIf env publisher ok ls s).any p) = true) :
    ∃ es s', Trail ((relay env publisher).guarded fun s e => ok s e.1 = true) s es s' ∧
      p (es, s') = true := by
  obtain ⟨⟨es, s'⟩, hrun, hp⟩ := (Option.any_eq_true _ _).1 h
  exact ⟨es, s', trail_of_executeIf hrun, hp⟩

/-- A run that is found by evaluation. -/
theorem exists_of_execute (h : ((execute env publisher ls s).any p) = true) :
    ∃ es s', Trail (relay env publisher) s es s' ∧ p (es, s') = true := by
  obtain ⟨es, s', tr, hp⟩ := exists_of_executeIf h
  exact ⟨es, s', tr.of_guarded, hp⟩

end Execute

namespace Sample

/-! ### A workspace -/

def workspace : Uuid := .ofNat 1
def brand : Uuid := .ofNat 2
def asset : Uuid := .ofNat 10
def post : Uuid := .ofNat 20
def variant : Uuid := .ofNat 21
def connection : Uuid := .ofNat 41
def publication : Uuid := .ofNat 50

/-- The draft. -/
def payload : PostPayload := ⟨brand, none, "Hello", [asset]⟩

/-- The fields under which the publication is fingerprinted. -/
def schedule : List (String × Json) :=
  [("post_variant_id", .str variant.text), ("channel_connection_id", .str connection.text),
    ("scheduled_for", .str (minutes 1).isoformat)]

/-- The digests of the texts that the runs hash. -/
def digests : List (String × String) :=
  [("token", "3c469e9d6c5875d37a43f353d4f88e61fcf812c66eee3457465a40b0da4153e0"),
    (canonical payload.toFields, "d58f9a6c629d903af62cf9f46ec68304dc86e81089d5f06680dee655ed545bcd"),
    (canonical schedule, "fda2e5bef105fc0f7d6e789471d4c38df000d5e91767f6f8cb664f38042740fb")]

/-- SHA-256 on these texts, and a text that is no digest on any other. -/
def sha256 (text : String) : String :=
  ((digests.find? fun d => d.1 = text).map Prod.snd).getD ("-" ++ text)

/-- No two texts have one digest. -/
theorem sha256_injective : Function.Injective sha256 := by
  have hnodup : (digests.map Prod.snd).Nodup := by decide +kernel
  have hdigest : ∀ d ∈ digests, d.2.toList.head? ≠ some '-' := by decide +kernel
  have hnone : ∀ {a b}, (digests.find? fun d => d.1 = a) = none →
      (digests.find? fun d => d.1 = b).isSome → sha256 a ≠ sha256 b := by
    intro a b ha hb heq
    obtain ⟨d, hd⟩ := Option.isSome_iff_exists.1 hb
    simp only [sha256, ha, hd, Option.map_none, Option.getD_none, Option.map_some,
      Option.getD_some] at heq
    exact hdigest d (List.mem_of_find?_eq_some hd) (by rw [← heq]; simp)
  intro a b hab
  cases ha : digests.find? fun d => d.1 = a with
  | none =>
    cases hb : digests.find? fun d => d.1 = b with
    | none =>
      simp only [sha256, ha, hb, Option.map_none, Option.getD_none] at hab
      exact String.toList_inj.1 (by simpa using congrArg String.toList hab)
    | some e => exact absurd hab (hnone ha (by rw [hb]; rfl))
  | some d =>
    cases hb : digests.find? fun d => d.1 = b with
    | none => exact absurd hab.symm (hnone hb (by rw [ha]; rfl))
    | some e =>
      simp only [sha256, ha, hb, Option.map_some, Option.getD_some] at hab
      have hde : d = e := List.inj_on_of_nodup_map hnodup (List.mem_of_find?_eq_some ha)
        (List.mem_of_find?_eq_some hb) hab
      have hda : d.1 = a := by simpa using List.find?_some ha
      have heb : e.1 = b := by simpa using List.find?_some hb
      rw [← hda, ← heb, hde]

/-- A cipher whose texts depend on its draws, and that reads back what it has written. -/
def fernet : FernetModule where
  accepts _ := true
  encrypt _ draw token := String.ofList ('g' :: (if draw.iv = 0 then '0' else '1') :: token.toList)
  decrypt _ text :=
    match text.toList with
    | 'g' :: _ :: token => some (String.ofList token)
    | _ => none

/-- A deployment whose publications are attempted twice. -/
def env : Env where
  tokenEncryptionKey := "key"
  metaAppId := "app"
  metaAppSecret := "secret"
  metaRedirectUri := "https://relay.example/callback/"
  metaGraphVersion := "v23.0"
  relayPublicApiUrl := "https://relay.example"
  relayMediaPublicBaseUrl := ""
  b2EndpointUrl := "https://b2.example"
  b2Region := "eu"
  b2Bucket := "media"
  b2ApplicationKeyId := "id"
  b2ApplicationKey := "secret"
  relayPublicationMaxAttempts := 2
  sha256 := sha256
  fernet := fernet
  urlAccepted _ := true
  printable _ := true
  alphanumeric := Char.isAlphanum

/-- An empty store with one workspace, one brand and the user 1 as its owner. -/
def start : Sys :=
  .initial ((Table.empty.insert? ⟨workspace, "Studio", true⟩).getD ∅)
    ((Table.empty.insert? ⟨brand, workspace, "Brand", "UTC", true⟩).getD ∅)
    ((Table.empty.insert? ⟨.ofNat 3, workspace, panelSubject 1, .owner, true⟩).getD ∅) 0

theorem deciphers : env.Deciphers := by
  intro key draw token _
  simp [env, fernet]

theorem start_isStart (publisher : Option Publisher) : (relay env publisher).start start :=
  ⟨_, _, _, _, rfl⟩

/-! ### What happens there -/

/-- Identifiers from `n` on, and a storage client that finds every object. -/
def draws (n : ℕ) : Draws where
  ids k := .ofNat (n + k)
  rawToken := "token"
  ciphers k := ⟨.ofNat _ (n + k), 0⟩
  signer key := .ok ("https://b2.example/" ++ key)
  head _ := .ok ⟨some 1, some "image/png", none⟩

/-- The owner makes a request that runs a command. -/
def panel (request : ApiRequest) (n : ℕ) : List Label :=
  [.receive 0 (.panel 1 none) request, .commit 0 (draws n)]

/-- A post with one image is drafted and approved. -/
def drafting : List Label :=
  panel (.createUploadIntent ⟨brand, "a.png", "image/png", 1, none⟩) 10 ++
    panel (.confirmUpload asset) 0 ++
    panel (.createPost (some "k") ⟨brand, none, "Hello", some [asset]⟩) 20 ++
    panel (.approvePost post) 0

/-- A channel is connected. -/
def connecting (channel : Channel) : List Label :=
  panel (.startMetaOAuth (.obj [("brand_id", .str brand.text)])) 30 ++
    [.receivePublic 0 (.metaOAuthCallback (some "code") (some "token")), .commit 0 (draws 0),
      .identify 0 ⟨"user token", none⟩ ⟨"1", "Me", [⟨channel, "page", "Page", "page token"⟩]⟩,
      .commit 0 (draws 40)]

/-- The post is scheduled. -/
def scheduling : List Label :=
  panel (.createPublication (some "k") ⟨variant, connection, minutes 1⟩) 50

/-- The publication is dispatched when it is due, and a worker claims it. -/
def claiming (wait attempt : ℕ) : List Label :=
  [.advance wait, .dispatch, .start 0 publication, .claim 0 (.ofNat attempt)]

/-- The worker makes one request, which is answered so, and records the outcome. -/
def exchanging (act : MetaAct) : List Label :=
  [.prepare 0 (draws 0).signer, .exchange 0 act, .finish 0]

/-- Everything up to the schedule. -/
def scheduled (channel : Channel) : List Label :=
  drafting ++ connecting channel ++ scheduling

end Sample

end Relay
