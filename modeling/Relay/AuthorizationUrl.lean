import Relay.Library.Query
import Relay.OAuthCallback
import Relay.SingleUse

/-!
# The authorization URL

`start_meta_oauth` stores the digest of a text that it has drawn and sends the browser to Meta with
the text in the query of the URL.  Meta reads the query, asks the user, and sends the browser back
with the same text, which the callback looks up by its digest.

* `consumes`: the callbacks of a run that use a text;
* `AwaitsCallback`: what a callback with a text finds, at any later moment;
* `authorization_round_trip`: what Meta reads from the URL, and what a callback does with it.
-/

namespace Relay

open Relational Transition

/-- An event in which a callback uses the state of a text. -/
def consumes (raw : String) : Label × Output → Bool
  | (.commit _ _, .committed (.consumeOAuthState raw') _ _) => raw' = raw
  | _ => false

/-- At a moment after the run `fs`, the state of a text stands for `g` until `deadline`. -/
structure AwaitsCallback (env : Env) (publisher : Option Publisher) (g : Grant) (deadline : Time)
    (raw : String) (fs : List (Label × Output)) (s : Sys) : Prop where
  /-- the view takes the text -/
  taken : ∀ k code, s.tickets k = none → code ≠ "" → raw ≠ "" →
    next env publisher s (.receivePublic k (.metaOAuthCallback (some code) (some raw))) =
      some (s.setTicket k (some (.admitted (.consumeOAuthState raw))), .silent)
  /-- in time, the first callback connects for `g` -/
  accepted : ∀ k draws, s.tickets k = some (.admitted (.consumeOAuthState raw)) →
    (∀ e ∈ fs, consumes raw e = false) → s.clock < deadline → ∃ o store, o.grant = g ∧
      next env publisher s (.commit k draws) =
        some (Sys.setTicket { s with store } k (some (.connecting o)),
          .committed (.consumeOAuthState raw) (.oauthState o) none)
  /-- any later one is refused -/
  refused : ∀ k draws, s.tickets k = some (.admitted (.consumeOAuthState raw)) →
    (∃ e ∈ fs, consumes raw e = true) ∨ deadline ≤ s.clock →
      next env publisher s (.commit k draws) =
        some (s.setTicket k none, .refused (.consumeOAuthState raw) .invalidOAuthState)

/-- The books count the callbacks that use a text. -/
theorem exchanges_observe (b : Callbacks) (e : Label × Output) (raw : String) :
    (b.observe e).exchanges raw = b.exchanges raw + if consumes raw e then 1 else 0 := by
  have hpersist : ∀ k, (b.persist k).exchanges = b.exchanges := by
    intro k
    unfold Callbacks.persist
    split <;> rfl
  unfold Callbacks.observe consumes
  split
  · simp
  · rename_i raw' _ _
    by_cases hraw : raw' = raw
    · simp [hraw]
    · simp [hraw, Function.update_of_ne (Ne.symm hraw)]
  · simp [hpersist]
  · simp [hpersist]
  · rename_i hconsume _ _
    split
    · exact absurd rfl (hconsume _ _ _ _ _)
    · simp

theorem exchanges_foldl (b : Callbacks) (es : List (Label × Output)) (raw : String) :
    (es.foldl Callbacks.observe b).exchanges raw = b.exchanges raw + es.countP (consumes raw) := by
  induction es generalizing b with
  | nil => rfl
  | cons e es ih =>
    rw [List.foldl_cons, ih, exchanges_observe, List.countP_cons]
    omega

section Run

variable {env : Env} {publisher : Option Publisher} {s₀ s₁ s₂ s : Sys} {es fs : List (Label × Output)}
  {k : ℕ} {draws : Draws} {tenant brand : Uuid} {subject url : String}
  {response : Option (Except ApiError Response)}

/-- What `start_meta_oauth` has stored and answered. -/
theorem issued_row
    (h : next env publisher s₁ (.commit k draws) = some (s₂,
      .committed (.startMetaOAuth tenant brand subject) (.authorization url) response)) :
    url = authorizationUrl env.toSettings draws.rawToken ∧
      newOAuthState env s₁.clock (draws.ids 0) draws.rawToken tenant brand subject ∈
        s₂.store.oauthStates := by
  obtain ⟨c, -, ⟨e, -, -, heq⟩ | ⟨r, store, hrun, rfl, heq⟩⟩ := next_commit h
  · cases heq
  cases heq
  cases runCommand_effect hrun with
  | oauthStarted insert => exact ⟨rfl, Table.mem_self_insert? insert⟩

/-- The state still stands at any later moment, and is unused unless a callback has used it. -/
theorem later_row (start : (relay env publisher).start s₀) (run : Trail (relay env publisher) s₀ es s₁)
    {o : OAuthState} {e : Label × Output} (issued : (relay env publisher).step s₁ e s₂)
    (later : Trail (relay env publisher) s₂ fs s) (injective : Function.Injective env.sha256)
    (ho : o ∈ s₂.store.oauthStates) (digest : o.stateDigest = env.sha256 draws.rawToken)
    (unused : o.usedAt = none) :
    ∃ o' ∈ s.store.oauthStates, o'.stateDigest = o.stateDigest ∧ o'.grant = o.grant ∧
      o'.expiresAt = o.expiresAt ∧
        (o'.usedAt = none ↔ ∀ e ∈ fs, consumes draws.rawToken e = false) := by
  have hrun₂ := run.append (.single issued)
  have hrun := hrun₂.append later
  have hbooked₂ := booked_of_run start hrun₂ injective
  have hbooked := booked_of_run start hrun injective
  have hs₂ := constrained_of_reachable (Reachable.trail (.of_start start) hrun₂)
  have hs := constrained_of_reachable (Reachable.trail (.of_start start) hrun)
  have hzero : (callbacks (es ++ [e])).exchanges draws.rawToken = 0 :=
    (hbooked₂.issued_of injective hs₂ ho digest).2.1 unused
  have hcount : (callbacks (es ++ [e] ++ fs)).exchanges draws.rawToken =
      fs.countP (consumes draws.rawToken) := by
    unfold callbacks at hzero ⊢
    rw [List.foldl_append, exchanges_foldl, hzero, Nat.zero_add]
  obtain ⟨o', ho', usedAt, updatedAt, rfl, -⟩ := (Trail.evolves later).oauthStates o ho
  refine ⟨_, ho', rfl, rfl, rfl, ?_⟩
  rw [(hbooked.issued_of injective hs ho' digest).2, hcount, List.countP_eq_zero]
  simp only [Bool.not_eq_true]

/-- **Meta reads from the authorization URL what was put there, and the text that it sends back with
the browser connects for the brand that asked**: once, and in the ten minutes after the request. -/
theorem authorization_round_trip (start : (relay env publisher).start s₀)
    (run : Trail (relay env publisher) s₀ es s₁)
    (issued : (relay env publisher).step s₁ (.commit k draws,
      .committed (.startMetaOAuth tenant brand subject) (.authorization url) response) s₂)
    (later : Trail (relay env publisher) s₂ fs s) (injective : Function.Injective env.sha256) :
    ∃ query state, url = "https://www.facebook.com/" ++ env.metaGraphVersion ++ "/dialog/oauth?" ++
        query ∧
      Query.parse query = some [("client_id", env.metaAppId), ("redirect_uri", env.metaRedirectUri),
        ("state", state), ("response_type", "code"), ("scope", ",".intercalate metaOAuthScopes)] ∧
      AwaitsCallback env publisher ⟨tenant, brand, subject⟩ (s₁.clock + minutes 10) state fs s := by
  obtain ⟨hurl, hrow⟩ := issued_row issued
  obtain ⟨o, ho, hdigest, hgrant, hexpiry, hused⟩ :=
    later_row start run issued later injective hrow rfl rfl
  have hs := constrained_of_reachable (Reachable.trail (.of_start start)
    ((run.append (.single issued)).append later))
  have hself : ∀ o' ∈ s.store.oauthStates, o'.stateDigest = env.sha256 draws.rawToken → o' = o :=
    fun o' ho' hdigest' => hs.oauthStates o' ho' o ho (hdigest'.trans hdigest.symm)
  refine ⟨_, draws.rawToken, hurl, Query.parse_urlencode _, ?_, ?_, ?_⟩
  · intro k code hfree hcode hraw
    have hgiven : ¬ ((some code).getD "" = "" ∨ (some draws.rawToken).getD "" = "") :=
      not_or.2 ⟨hcode, hraw⟩
    simp only [next, hfree, admitPublic, if_neg hgiven]
    rfl
  · intro k draws' ticket hfirst hclock
    rcases consumeOAuthState_cases env s.clock draws.rawToken hs with
      ⟨o', ho', husable, store, hconsume, -⟩ | ⟨hunusable, -⟩
    · have hsame : o' = o := hself o' ho' husable.1
      subst hsame
      refine ⟨o'.use s.clock, store, hgrant, ?_⟩
      simp only [next, ticket, Sys.commit, runCommand, hconsume]
      rfl
    · exact absurd ⟨hdigest, hused.2 hfirst, hexpiry ▸ hclock⟩ (hunusable o ho)
  · intro k draws' ticket hlate
    have hrefused : consumeOAuthState env s.clock draws.rawToken s.store = .error .invalidOAuthState := by
      rcases consumeOAuthState_cases env s.clock draws.rawToken hs with
        ⟨o', ho', husable, -⟩ | ⟨-, hconsume⟩
      · have hsame : o' = o := hself o' ho' husable.1
        subst hsame
        rcases hlate with ⟨e, he, hconsumes⟩ | hexpired
        · rw [hused.1 husable.2.1 e he] at hconsumes
          cases hconsumes
        · exact absurd husable.2.2 (not_lt.2 (hexpiry ▸ hexpired))
      · exact hconsume
    simp only [next, ticket, Sys.commit, runCommand, hrefused]
    rfl

end Run

namespace Sample

/-- The browser comes back. -/
def returns : Label := .receivePublic 0 (.metaOAuthCallback (some "code") (some "token"))

/-- A state is issued, and a process takes the callback. -/
def goesRound (s : Sys) : Bool :=
  match next env none s (.commit 0 (draws 30)) with
  | some (s₂, .committed (.startMetaOAuth ..) (.authorization _) _) =>
    match next env none s₂ returns with
    | some (s₃, .silent) => decide (s₃.clock < s.clock + minutes 10)
    | _ => false
  | _ => false

theorem exists_of_goesRound {s : Sys} (h : goesRound s = true) :
    ∃ tenant brand subject url response s₂ s₃,
      (relay env none).step s (.commit 0 (draws 30),
        .committed (.startMetaOAuth tenant brand subject) (.authorization url) response) s₂ ∧
      (relay env none).step s₂ (returns, .silent) s₃ ∧ s₃.clock < s.clock + minutes 10 := by
  unfold goesRound at h
  split at h
  · rename_i s₂ tenant brand subject url response hcommit
    split at h
    · rename_i s₃ hreturn
      exact ⟨tenant, brand, subject, url, response, s₂, s₃, hcommit, hreturn, of_decide_eq_true h⟩
    · cases h
  · cases h

end Sample

/-- The callback comes back in time. -/
theorem authorization_round_trip_sample : ∃ (s s₃ : Sys) (tenant brand : Uuid)
    (subject query state : String), s₃.clock < s.clock + minutes 10 ∧ Query.parse query = some
      [("client_id", "app"), ("redirect_uri", "https://relay.example/callback/"), ("state", state),
        ("response_type", "code"), ("scope", ",".intercalate metaOAuthScopes)] ∧
    AwaitsCallback Sample.env none ⟨tenant, brand, subject⟩ (s.clock + minutes 10) state
      [(Sample.returns, .silent)] s₃ := by
  obtain ⟨es, s, run, hs⟩ := exists_of_execute (show ((execute Sample.env none
    [.receive 0 (.panel 1 none) (.startMetaOAuth (.obj [("brand_id", .str Sample.brand.text)]))]
      Sample.start).any fun x => Sample.goesRound x.2) = true by decide +kernel)
  obtain ⟨tenant, brand, subject, url, response, s₂, s₃, issued, later, hclock⟩ :=
    Sample.exists_of_goesRound hs
  obtain ⟨query, state, -, hquery, hawaits⟩ := authorization_round_trip (Sample.start_isStart none) run
    issued (.single later) Sample.sha256_injective
  exact ⟨s, s₃, tenant, brand, subject, query, state, hclock, hquery, hawaits⟩

end Relay
