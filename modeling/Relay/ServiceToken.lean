import Relay.Execution

/-!
# Who a service token stands for

The `Authorization` header of a request is any sequence of bytes, and the claims of a token that
verifies are any JSON values.

* `isBearer_iff`: the scheme compared as a text, and as bytes;
* `isSome_servicePrincipal`: the claims that make a principal;
* `authenticate_cases`: what `authenticate` can do with a header;
* `failsClosed_iff`: when nothing but `AuthenticationFailed` is raised.
-/

namespace Relay

open RelayServiceJWTAuthentication

/-! ### The scheme -/

/-- The bytes of `Bearer`, in any case. -/
def IsBearer (scheme : List UInt8) : Prop :=
  scheme.map Text.lowerByte = "bearer".toList.map Text.byte

/-- No byte beyond ASCII takes part in a text that equals the keyword without regard to case. -/
theorem isBearer_iff {scheme : List UInt8} :
    IsBearer scheme ↔ ∃ text, Text.decode scheme = some text ∧ Text.lower text = Text.lower keyword := by
  have hall : ("bearer".toList.all fun d => 97 ≤ d.toNat ∧ d.toNat ≤ 122 ∧ d ≠ 'i' ∧ d ≠ 'k') = true := by
    decide
  have hplain : ∀ d ∈ "bearer".toList, Text.IsPlainLower d := by
    intro d hd
    simpa [Text.IsPlainLower] using List.all_eq_true.1 hall d hd
  have hkeyword : Text.lower keyword = String.ofList "bearer".toList := by decide
  rw [hkeyword]
  exact (Text.exists_decode_lower_iff hplain).symm

/-! ### The claims -/

/-- The claims name a workspace and a collection of brands by UUIDs, and their scopes, unless there
are none, are a collection of values that can be in a set. -/
structure NamesTenant (env : Env) (payload : List (String × Json)) : Prop where
  workspace : ∃ value, Json.get payload "workspace_id" = some value ∧ (uuidOf env value).isSome
  brands : ∃ value entries, Json.get payload "brand_ids" = some value ∧ iterate value = some entries ∧
    ∀ entry ∈ entries, (uuidOf env entry).isSome
  scopes : ∃ items, iterate ((Json.get payload "scopes").getD (.arr [])) = some items ∧
    ∀ item ∈ items, hashable item = true

theorem isSome_mapM {α β : Type} {f : α → Option β} {l : List α} :
    (l.mapM f).isSome ↔ ∀ a ∈ l, (f a).isSome := by
  induction l with
  | nil => simp
  | cons a l ih =>
    rw [List.mapM_cons, List.forall_mem_cons, ← ih]
    cases f a <;> cases l.mapM f <;> simp

/-- The claims of a token that verifies make a principal exactly when they name a tenant. -/
theorem isSome_servicePrincipal {env : Env} (claims : VerifiedClaims) :
    (servicePrincipal env claims.payload).isSome ↔ NamesTenant env claims.payload := by
  constructor
  · intro h
    obtain ⟨p, hp⟩ := Option.isSome_iff_exists.1 h
    simp only [servicePrincipal, Option.bind_eq_bind, Option.bind_eq_some_iff] at hp
    obtain ⟨sub, -, parsed, hworkspace, workspaceId, hid, entries, ⟨brands, hbrandIds, hiterate⟩,
      brandIds, hparsed, items, hitems, hhashable⟩ := hp
    obtain ⟨value, hvalue, rfl⟩ := Option.map_eq_some_iff.1 hworkspace
    split at hhashable
    · rename_i hall
      exact ⟨⟨value, hvalue, by rw [hid]; rfl⟩,
        ⟨brands, entries, hbrandIds, hiterate, isSome_mapM.1 (by rw [hparsed]; rfl)⟩,
        ⟨items, hitems, List.all_eq_true.1 hall⟩⟩
    · cases hhashable
  · rintro ⟨⟨value, hvalue, hid⟩, ⟨brands, entries, hbrandIds, hiterate, hentries⟩, ⟨items, hitems, hall⟩⟩
    obtain ⟨sub, hsub⟩ := Option.isSome_iff_exists.1 (claims.required "sub" (by simp))
    obtain ⟨workspaceId, hid⟩ := Option.isSome_iff_exists.1 hid
    obtain ⟨brandIds, hparsed⟩ := Option.isSome_iff_exists.1 (isSome_mapM.2 hentries)
    simpa [servicePrincipal, hsub, hvalue, hid, hbrandIds, hiterate, hparsed, hitems] using hall

/-! ### The header -/

/-- The header is the keyword and a token that verifies, and its claims name a tenant. -/
def Acceptable (env : Env) (jwtDecode : List UInt8 → Option VerifiedClaims) (header : List UInt8) :
    Prop :=
  ∃ scheme token claims, Text.words isSpaceByte header = [scheme, token] ∧ IsBearer scheme ∧
    jwtDecode token = some claims ∧ NamesTenant env claims.payload

section Header

variable {env : Env} {jwtDecode : List UInt8 → Option VerifiedClaims} {header scheme token : List UInt8}

theorem acceptable_iff (hwords : Text.words isSpaceByte header = [scheme, token]) :
    Acceptable env jwtDecode header ↔
      IsBearer scheme ∧ ∃ claims, jwtDecode token = some claims ∧ NamesTenant env claims.payload := by
  constructor
  · rintro ⟨scheme', token', claims, hwords', hbearer, hclaims, hnames⟩
    obtain ⟨rfl, rfl⟩ : scheme = scheme' ∧ token = token' := by
      simpa using hwords.symm.trans hwords'
    exact ⟨hbearer, claims, hclaims, hnames⟩
  · rintro ⟨hbearer, claims, hclaims, hnames⟩
    exact ⟨scheme, token, claims, hwords, hbearer, hclaims, hnames⟩

variable (env jwtDecode) in
/-- One token, or three and more, are refused. -/
theorem authenticate_of_not_pair (hne : Text.words isSpaceByte header ≠ [])
    (hpair : ∀ scheme token, Text.words isSpaceByte header ≠ [scheme, token]) :
    RelayServiceJWTAuthentication.authenticate env jwtDecode header =
      .error (.authenticationFailed "Invalid authorization header.") := by
  unfold RelayServiceJWTAuthentication.authenticate
  split
  · exact absurd ‹_› hne
  · exact absurd ‹_› (hpair _ _)
  · rfl

variable (env jwtDecode) in
/-- What becomes of a token behind the keyword. -/
theorem authenticate_of_isBearer (hwords : Text.words isSpaceByte header = [scheme, token])
    (hbearer : IsBearer scheme) :
    (∃ claims p, jwtDecode token = some claims ∧ servicePrincipal env claims.payload = some p ∧
      RelayServiceJWTAuthentication.authenticate env jwtDecode header = .ok (some (p, claims.payload))) ∨
    ((∀ claims, jwtDecode token = some claims → ¬ NamesTenant env claims.payload) ∧
      RelayServiceJWTAuthentication.authenticate env jwtDecode header =
        .error (.authenticationFailed "Invalid or expired service credential.")) := by
  obtain ⟨text, hdecode, hlower⟩ := isBearer_iff.1 hbearer
  unfold RelayServiceJWTAuthentication.authenticate authenticateService
  simp only [hwords, hdecode, hlower, ne_eq, not_true_eq_false, if_false]
  cases hclaims : jwtDecode token with
  | none => exact .inr ⟨by simp, rfl⟩
  | some claims =>
    simp only [Option.map_some, Option.bind_some, Option.some.injEq]
    cases hp : servicePrincipal env claims.payload with
    | none =>
      refine .inr ⟨?_, rfl⟩
      rintro _ rfl
      rw [← isSome_servicePrincipal, hp]
      decide
    | some p => exact .inl ⟨claims, p, rfl, hp, rfl⟩

/-- **What `authenticate` does with a header**: the one exception that is not caught comes from a
scheme that is no text. -/
theorem authenticate_cases (env : Env) (jwtDecode : List UInt8 → Option VerifiedClaims)
    (header : List UInt8) :
    (Text.words isSpaceByte header = [] ∧
      RelayServiceJWTAuthentication.authenticate env jwtDecode header = .ok none) ∨
    (Acceptable env jwtDecode header ∧
      ∃ result, RelayServiceJWTAuthentication.authenticate env jwtDecode header = .ok (some result)) ∨
    (∃ scheme token, Text.words isSpaceByte header = [scheme, token] ∧ Text.decode scheme = none ∧
      RelayServiceJWTAuthentication.authenticate env jwtDecode header =
        .error (.unhandled "UnicodeDecodeError")) ∨
    (Text.words isSpaceByte header ≠ [] ∧ ¬ Acceptable env jwtDecode header ∧
      (∀ scheme token, Text.words isSpaceByte header = [scheme, token] → (Text.decode scheme).isSome) ∧
      ∃ detail, RelayServiceJWTAuthentication.authenticate env jwtDecode header =
        .error (.authenticationFailed detail)) := by
  by_cases hnil : Text.words isSpaceByte header = []
  · left
    exact ⟨hnil, by simp [RelayServiceJWTAuthentication.authenticate, hnil]⟩
  right
  by_cases hpair : ∃ scheme token, Text.words isSpaceByte header = [scheme, token]
  · obtain ⟨scheme, token, hwords⟩ := hpair
    cases hdecode : Text.decode scheme with
    | none =>
      right; left
      exact ⟨scheme, token, hwords, hdecode, by
        simp [RelayServiceJWTAuthentication.authenticate, hwords, hdecode]⟩
    | some text =>
      have htext : ∀ scheme' token', Text.words isSpaceByte header = [scheme', token'] →
          (Text.decode scheme').isSome := by
        intro scheme' token' hwords'
        obtain ⟨rfl, rfl⟩ : scheme = scheme' ∧ token = token' := by
          simpa using hwords.symm.trans hwords'
        rw [hdecode]
        rfl
      by_cases hbearer : IsBearer scheme
      · rcases authenticate_of_isBearer env jwtDecode hwords hbearer with
          ⟨claims, p, hclaims, hp, hresult⟩ | ⟨hnot, hresult⟩
        · left
          have hnames := (isSome_servicePrincipal claims).1 (by rw [hp]; rfl)
          exact ⟨(acceptable_iff hwords).2 ⟨hbearer, claims, hclaims, hnames⟩, _, hresult⟩
        · right; right
          refine ⟨hnil, ?_, htext, _, hresult⟩
          rw [acceptable_iff hwords]
          rintro ⟨-, claims, hclaims, hnames⟩
          exact hnot claims hclaims hnames
      · right; right
        refine ⟨hnil, fun h => hbearer ((acceptable_iff hwords).1 h).1, htext,
          "Invalid authorization header.", ?_⟩
        have hlower : Text.lower text ≠ Text.lower keyword := fun h =>
          hbearer (isBearer_iff.2 ⟨text, hdecode, h⟩)
        simp [RelayServiceJWTAuthentication.authenticate, hwords, hdecode, hlower]
  · right; right
    refine ⟨hnil, ?_, fun scheme token hwords => absurd ⟨scheme, token, hwords⟩ hpair, _,
      authenticate_of_not_pair env jwtDecode hnil fun scheme token hwords =>
        hpair ⟨scheme, token, hwords⟩⟩
    rintro ⟨scheme, token, claims, hwords, -⟩
    exact hpair ⟨scheme, token, hwords⟩

/-- No principal without a header, a principal for an acceptable one, and otherwise
`AuthenticationFailed`. -/
structure FailsClosed (env : Env) (jwtDecode : List UInt8 → Option VerifiedClaims)
    (header : List UInt8) : Prop where
  blank : RelayServiceJWTAuthentication.authenticate env jwtDecode header = .ok none ↔
    ∀ b ∈ header, isSpaceByte b = true
  principal : (∃ result,
      RelayServiceJWTAuthentication.authenticate env jwtDecode header = .ok (some result)) ↔
    Acceptable env jwtDecode header
  refused : ∀ e, RelayServiceJWTAuthentication.authenticate env jwtDecode header = .error e →
    ∃ detail, e = .authenticationFailed detail

/-- **Authentication fails closed**, and with `AuthenticationFailed`, exactly when the header is not a
pair of tokens of which the first is no text. -/
theorem failsClosed_iff (env : Env) (jwtDecode : List UInt8 → Option VerifiedClaims)
    (header : List UInt8) : FailsClosed env jwtDecode header ↔
      ∀ scheme token, Text.words isSpaceByte header = [scheme, token] →
        (Text.decode scheme).isSome := by
  constructor
  · intro h scheme token hwords
    rcases authenticate_cases env jwtDecode header with ⟨hnil, -⟩ | ⟨hacc, -⟩ |
      ⟨scheme', token', -, -, hresult⟩ | ⟨-, -, htext, -⟩
    · cases hwords.symm.trans hnil
    · obtain ⟨text, hdecode, -⟩ := isBearer_iff.1 ((acceptable_iff hwords).1 hacc).1
      rw [hdecode]
      rfl
    · obtain ⟨detail, hdetail⟩ := h.refused _ hresult
      cases hdetail
    · exact htext scheme token hwords
  · intro htext
    have hnone : Acceptable env jwtDecode header → Text.words isSpaceByte header ≠ [] := by
      rintro ⟨scheme, token, claims, hwords, -⟩
      rw [hwords]
      simp
    rcases authenticate_cases env jwtDecode header with ⟨hnil, hresult⟩ |
      ⟨hacc, result, hresult⟩ | ⟨scheme, token, hwords, hdecode, -⟩ | ⟨hne, hnot, -, detail, hresult⟩
    · exact
        { blank := by simp [hresult, ← Text.words_eq_nil, hnil]
          principal := by
            rw [hresult]
            exact iff_of_false (by simp) fun hacc => hnone hacc hnil
          refused := by simp [hresult] }
    · exact
        { blank := by simp [hresult, ← Text.words_eq_nil, hnone hacc]
          principal := iff_of_true ⟨result, hresult⟩ hacc
          refused := by simp [hresult] }
    · have := htext scheme token hwords
      rw [hdecode] at this
      cases this
    · exact
        { blank := by simp [hresult, ← Text.words_eq_nil, hne]
          principal := by
            rw [hresult]
            exact iff_of_false (by simp) hnot
          refused := by simp [hresult] }

end Header

namespace Sample

/-- A first token with a byte that starts no character of UTF-8. -/
def garbledHeader : List UInt8 := [0xff, 32, 120]

/-- The garbled header ends in a `UnicodeDecodeError`. -/
theorem not_failsClosed : ¬ ∀ (env : Env) jwtDecode header, FailsClosed env jwtDecode header := by
  intro h
  have hwords : Text.words isSpaceByte garbledHeader = [[0xff], [120]] := by decide
  have hdecode : Text.decode [0xff] = none := by decide
  have hraises : RelayServiceJWTAuthentication.authenticate env (fun _ => none) garbledHeader =
      .error (.unhandled "UnicodeDecodeError") := by
    simp [RelayServiceJWTAuthentication.authenticate, hwords, hdecode]
  obtain ⟨detail, hdetail⟩ := (h env (fun _ => none) garbledHeader).refused _ hraises
  cases hdetail

end Sample

end Relay
