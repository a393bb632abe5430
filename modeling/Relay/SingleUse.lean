import Relay.Access
import Relay.Connections

/-!
# The OAuth state is used once

A callback consumes its state, asks Meta for the identity, and persists what Meta has told; other
callbacks may run between these steps, and each step may be the last.  An observer of the commits
keeps the books: what was issued under a text, how often it was exchanged and persisted.

* `Callbacks`: the books, and `Booked`: how they stand with the state of the system;
* `Booked.step`: every step keeps them so;
* `oauth_state_single_use`: each issued state is exchanged at most once and persisted at most once,
  for the tenant and the brand it was issued for.
-/

namespace Relay

open Relational Transition

/-! ### The books -/

/-- Whom a state is issued for. -/
structure Grant where
  tenant : Uuid
  brand : Uuid
  subject : String
  deriving DecidableEq

/-- What the commits tell of the states. -/
structure Callbacks where
  /-- the grant of a state text -/
  issued : String → Option Grant
  /-- how often the callbacks with a text have gone on to `MetaOAuthClient.connect` -/
  exchanges : String → ℕ
  /-- how often they have run `persist_meta_connections`, successfully or not -/
  persists : String → ℕ
  /-- the text that a web process has consumed last -/
  serving : ℕ → Option String

namespace Callbacks

/-- Nothing is issued. -/
def empty : Callbacks := ⟨fun _ => none, fun _ => 0, fun _ => 0, fun _ => none⟩

/-- A process has run `persist_meta_connections`. -/
def persist (b : Callbacks) (k : ℕ) : Callbacks :=
  match b.serving k with
  | some raw => { b with persists := Function.update b.persists raw (b.persists raw + 1) }
  | none => b

/-- One more event. -/
def observe (b : Callbacks) : Label × Output → Callbacks
  | (.commit _ draws, .committed (.startMetaOAuth tenant brand subject) _ _) =>
    { b with issued := Function.update b.issued draws.rawToken (some ⟨tenant, brand, subject⟩) }
  | (.commit k _, .committed (.consumeOAuthState raw) _ _) =>
    { b with
      exchanges := Function.update b.exchanges raw (b.exchanges raw + 1)
      serving := Function.update b.serving k (some raw) }
  | (.commit k _, .committed (.persistMetaConnections ..) _ _) => b.persist k
  | (.commit k _, .refused (.persistMetaConnections ..) _) => b.persist k
  | _ => b

end Callbacks

/-- The books after a run. -/
def callbacks (es : List (Label × Output)) : Callbacks := es.foldl Callbacks.observe .empty

/-- Whom an OAuth state is for. -/
def OAuthState.grant (o : OAuthState) : Grant := ⟨o.tenant, o.brand, o.subject⟩

/-- Whom a web process connects, between its use of a state and its last transaction. -/
def Ticket.grant : Ticket → Option Grant
  | .connecting state => some state.grant
  | .admitted (.persistMetaConnections tenant brand subject _ _) => some ⟨tenant, brand, subject⟩
  | .admitted _ => none

/-- How the books stand with the state of the system. -/
structure Booked (env : Env) (s : Sys) (b : Callbacks) : Prop where
  row : ∀ raw g, b.issued raw = some g → ∃ o ∈ s.store.oauthStates,
    o.stateDigest = env.sha256 raw ∧ o.grant = g ∧ (o.usedAt = none ↔ b.exchanges raw = 0)
  known : ∀ o ∈ s.store.oauthStates, ∃ raw g, b.issued raw = some g ∧ o.stateDigest = env.sha256 raw
  exchanges : ∀ raw, b.exchanges raw ≤ 1
  issued : ∀ raw, b.exchanges raw ≠ 0 → ∃ g, b.issued raw = some g
  persists : ∀ raw, b.persists raw ≤ b.exchanges raw
  serving : ∀ k t g, s.tickets k = some t → t.grant = some g → ∃ raw, b.serving k = some raw ∧
    b.issued raw = some g ∧ b.exchanges raw = 1 ∧ b.persists raw = 0
  alone : ∀ k t g k' t' g', s.tickets k = some t → t.grant = some g → s.tickets k' = some t' →
    t'.grant = some g' → b.serving k = b.serving k' → k = k'

theorem Booked.initial {env : Env} {s : Sys} (states : s.store.oauthStates = ∅)
    (tickets : ∀ k, s.tickets k = none) : Booked env s .empty where
  row _ _ h := by cases h
  known o ho := absurd (states ▸ ho) (Table.not_mem_empty o)
  exchanges _ := Nat.zero_le 1
  issued _ h := absurd rfl h
  persists _ := le_rfl
  serving k t g h := by rw [tickets k] at h; cases h
  alone k t g k' t' g' h := by rw [tickets k] at h; cases h

/-- A step that leaves the states alone and lets no process connect that has not. -/
theorem Booked.frame {env : Env} {s s' : Sys} {b : Callbacks} (h : Booked env s b)
    (states : s'.store.oauthStates = s.store.oauthStates)
    (tickets : ∀ k t g, s'.tickets k = some t → t.grant = some g →
      ∃ t', s.tickets k = some t' ∧ t'.grant = some g) : Booked env s' b where
  row := states ▸ h.row
  known := states ▸ h.known
  exchanges := h.exchanges
  issued := h.issued
  persists := h.persists
  serving k t g ht hg := by
    obtain ⟨t', ht', hg'⟩ := tickets k t g ht hg
    exact h.serving k t' g ht' hg'
  alone k t g k' t' g' ht hg ht' hg' := by
    obtain ⟨u, hu, hug⟩ := tickets k t g ht hg
    obtain ⟨u', hu', hug'⟩ := tickets k' t' g' ht' hg'
    exact h.alone k u g k' u' g' hu hug hu' hug'

/-! ### Every step is booked -/

section Steps

variable {env : Env} {s s' : Sys} {b : Callbacks} {k : ℕ}

/-- The tickets of other processes stay. -/
theorem ticket_of_ne {t u : Option Ticket} {k' : ℕ} (tickets : s'.tickets = Function.update s.tickets k t)
    (h : s'.tickets k' = u) (hk : k' ≠ k) : s.tickets k' = u := by
  rw [tickets, Function.update_of_ne hk] at h
  exact h

/-- A process is done, and has not connected anything. -/
theorem Booked.done (h : Booked env s b) (states : s'.store.oauthStates = s.store.oauthStates)
    {t : Option Ticket} (tickets : s'.tickets = Function.update s.tickets k t)
    (idle : ∀ u, t = some u → u.grant = none) : Booked env s' b := by
  refine h.frame states fun k' u g hu hg => ?_
  by_cases hk : k' = k
  · subst hk
    rw [tickets, Function.update_self] at hu
    rw [idle u hu] at hg
    cases hg
  · exact ⟨u, ticket_of_ne tickets hu hk, hg⟩

/-- A process has run its last transaction. -/
theorem Booked.persisted (h : Booked env s b) (states : s'.store.oauthStates = s.store.oauthStates)
    (tickets : s'.tickets = Function.update s.tickets k none) {t : Ticket} {g : Grant}
    (ht : s.tickets k = some t) (hg : t.grant = some g) : Booked env s' (b.persist k) := by
  obtain ⟨raw, hserving, -, hexchanges, hpersists⟩ := h.serving k t g ht hg
  have hbook : b.persist k = { b with persists := Function.update b.persists raw 1 } := by
    simp only [Callbacks.persist, hserving, hpersists]
  rw [hbook]
  -- the process that is done is not looked at any more
  have hne : ∀ k' u, s'.tickets k' = some u → k' ≠ k := by
    rintro k' u hu rfl
    rw [tickets, Function.update_self] at hu
    cases hu
  refine
    { row := states ▸ h.row
      known := states ▸ h.known
      exchanges := h.exchanges
      issued := h.issued
      persists := fun raw' => ?_
      serving := fun k' u g' hu hg' => ?_
      alone := fun k₁ u₁ g₁ k₂ u₂ g₂ h₁ hg₁ h₂ hg₂ => ?_ }
  · dsimp only
    by_cases hraw : raw' = raw
    · simp [hraw, hexchanges]
    · rw [Function.update_of_ne hraw]
      exact h.persists raw'
  · have hk := hne k' u hu
    have hu' := ticket_of_ne tickets hu hk
    obtain ⟨raw', hserving', hissued', hexchanges', hpersists'⟩ := h.serving k' u g' hu' hg'
    have hraw : raw' ≠ raw := by
      rintro rfl
      exact hk (h.alone k' u g' k t g hu' hg' ht hg (hserving'.trans hserving.symm))
    exact ⟨raw', hserving', hissued', hexchanges', (Function.update_of_ne hraw _ _).trans hpersists'⟩
  · exact h.alone k₁ u₁ g₁ k₂ u₂ g₂ (ticket_of_ne tickets h₁ (hne k₁ u₁ h₁)) hg₁
      (ticket_of_ne tickets h₂ (hne k₂ u₂ h₂)) hg₂

/-- A text that finds a state is the text that it was issued under. -/
theorem Booked.issued_of (h : Booked env s b) (injective : Function.Injective env.sha256)
    (hs : Constrained s.store) {o : OAuthState} {raw : String} (ho : o ∈ s.store.oauthStates)
    (digest : o.stateDigest = env.sha256 raw) :
    b.issued raw = some o.grant ∧ (o.usedAt = none ↔ b.exchanges raw = 0) := by
  obtain ⟨raw', g, hissued, hdigest⟩ := h.known o ho
  obtain rfl : raw' = raw := injective (hdigest.symm.trans digest)
  obtain ⟨o', ho', hdigest', hgrant, hused⟩ := h.row _ g hissued
  obtain rfl : o' = o := hs.oauthStates o' ho' o ho (hdigest'.trans hdigest.symm)
  exact ⟨hissued.trans (by rw [hgrant]), hused⟩

/-- A process that begins with a text that no other one serves is alone with it. -/
theorem Booked.alone_update (h : Booked env s b) {t : Option Ticket} {v : Option String}
    (tickets : s'.tickets = Function.update s.tickets k t)
    (unserved : ∀ k' u g, s.tickets k' = some u → u.grant = some g → b.serving k' ≠ v) {k₁ k₂ : ℕ}
    {u₁ u₂ : Ticket} {g₁ g₂ : Grant} (h₁ : s'.tickets k₁ = some u₁) (hg₁ : u₁.grant = some g₁)
    (h₂ : s'.tickets k₂ = some u₂) (hg₂ : u₂.grant = some g₂)
    (same : Function.update b.serving k v k₁ = Function.update b.serving k v k₂) : k₁ = k₂ := by
  by_cases hk₁ : k₁ = k <;> by_cases hk₂ : k₂ = k
  · rw [hk₁, hk₂]
  · rw [hk₁, Function.update_self, Function.update_of_ne hk₂] at same
    exact absurd same.symm (unserved k₂ u₂ g₂ (ticket_of_ne tickets h₂ hk₂) hg₂)
  · rw [hk₂, Function.update_self, Function.update_of_ne hk₁] at same
    exact absurd same (unserved k₁ u₁ g₁ (ticket_of_ne tickets h₁ hk₁) hg₁)
  · rw [Function.update_of_ne hk₁, Function.update_of_ne hk₂] at same
    exact h.alone k₁ u₁ g₁ k₂ u₂ g₂ (ticket_of_ne tickets h₁ hk₁) hg₁ (ticket_of_ne tickets h₂ hk₂)
      hg₂ same

/-- A callback has used a state, and goes on to the exchange. -/
theorem Booked.consumed (h : Booked env s b) (injective : Function.Injective env.sha256)
    (hs : Constrained s.store) {now : Time} {o : OAuthState} {raw : String}
    (ho : o ∈ s.store.oauthStates) (digest : o.stateDigest = env.sha256 raw) (unused : o.usedAt = none)
    (states : s'.store.oauthStates =
      s.store.oauthStates.update o.id ⟨(·.use now), fun _ => rfl⟩)
    (tickets : s'.tickets = Function.update s.tickets k (some (.connecting (o.use now)))) :
    Booked env s' { b with
      exchanges := Function.update b.exchanges raw (b.exchanges raw + 1)
      serving := Function.update b.serving k (some raw) } := by
  obtain ⟨hissued, hused⟩ := h.issued_of injective hs ho digest
  have hexchanges : b.exchanges raw = 0 := hused.1 unused
  have hpersists : b.persists raw = 0 := Nat.eq_zero_of_le_zero (hexchanges ▸ h.persists raw)
  -- the text of another callback is another text
  have hother : ∀ raw', b.exchanges raw' = 1 → raw' ≠ raw := by
    rintro raw' h' rfl
    omega
  refine
    { row := fun raw' g hg => ?_
      known := fun x hx => ?_
      exchanges := fun raw' => ?_
      issued := fun raw' h' => ?_
      persists := fun raw' => ?_
      serving := fun k' u g hu hg => ?_
      alone := fun k₁ u₁ g₁ k₂ u₂ g₂ h₁ hg₁ h₂ hg₂ heq => ?_ }
  · obtain ⟨x, hx, hdigest, hgrant, hx0⟩ := h.row raw' g hg
    by_cases hid : x.id = o.id
    · obtain rfl : x = o := Table.eq_of_key hx ho hid
      obtain rfl : raw' = raw := injective (hdigest.symm.trans digest)
      refine ⟨x.use now, states ▸ Table.mem_update_self hx rfl, hdigest, hgrant, ?_⟩
      simp [OAuthState.use]
    · have hraw : raw' ≠ raw := by
        rintro rfl
        exact hid (by rw [hs.oauthStates x hx o ho (hdigest.trans digest.symm)])
      refine ⟨x, states ▸ Table.mem_update_of_ne hx hid, hdigest, hgrant, ?_⟩
      dsimp only
      rw [Function.update_of_ne hraw]
      exact hx0
  · rw [states] at hx
    rcases Table.of_mem_update ho hx with rfl | ⟨hx, -⟩
    · exact ⟨raw, _, hissued, digest⟩
    · exact h.known x hx
  · dsimp only
    by_cases hraw : raw' = raw
    · simp [hraw, hexchanges]
    · rw [Function.update_of_ne hraw]
      exact h.exchanges raw'
  · dsimp only at h'
    by_cases hraw : raw' = raw
    · exact ⟨_, hraw ▸ hissued⟩
    · rw [Function.update_of_ne hraw] at h'
      exact h.issued raw' h'
  · dsimp only
    by_cases hraw : raw' = raw
    · rw [hraw, Function.update_self]
      exact Nat.le_succ_of_le (h.persists raw)
    · rw [Function.update_of_ne hraw]
      exact h.persists raw'
  · by_cases hk : k' = k
    · subst hk
      rw [tickets, Function.update_self] at hu
      cases hu
      cases hg
      exact ⟨raw, Function.update_self _ _ _, hissued, by simp [hexchanges], hpersists⟩
    · obtain ⟨raw', hserving, hissued', hexchanges', hpersists'⟩ :=
        h.serving k' u g (ticket_of_ne tickets hu hk) hg
      exact ⟨raw', (Function.update_of_ne hk _ _).trans hserving, hissued',
        (Function.update_of_ne (hother raw' hexchanges') _ _).trans hexchanges', hpersists'⟩
  · exact h.alone_update tickets (v := some raw) (fun k' u g hu hg hraw => by
      -- a process that connects already serves a text that is used
      obtain ⟨raw', hserving, -, hexchanges', -⟩ := h.serving k' u g hu hg
      exact hother raw' hexchanges' (Option.some.inj (hserving.symm.trans hraw)))
      h₁ hg₁ h₂ hg₂ heq

/-- A state is issued. -/
theorem Booked.started (h : Booked env s b) (hs' : Constrained s'.store) {now : Time} {id : Uuid}
    {raw subject : String} {tenant brand : Uuid}
    (insert : s.store.oauthStates.insert? (newOAuthState env now id raw tenant brand subject) =
      some s'.store.oauthStates) (tickets : s'.tickets = Function.update s.tickets k none) :
    Booked env s' { b with issued := Function.update b.issued raw (some ⟨tenant, brand, subject⟩) } := by
  -- the digest is unique, so no state was issued under this text before
  have hnone : b.issued raw = none := by
    rw [Option.eq_none_iff_forall_ne_some]
    intro g hg
    obtain ⟨o, ho, hdigest, -⟩ := h.row raw g hg
    have heq := hs'.oauthStates o (Table.mem_of_mem_insert? insert ho) _ (Table.mem_self_insert? insert)
      hdigest
    exact Table.fresh_of_insert? insert o ho (by rw [heq])
  have hexchanges : b.exchanges raw = 0 := by
    by_contra hne
    obtain ⟨g, hg⟩ := h.issued raw hne
    rw [hnone] at hg
    cases hg
  have hissued : ∀ raw' g, b.issued raw' = some g →
      Function.update b.issued raw (some ⟨tenant, brand, subject⟩) raw' = some g := by
    intro raw' g hg
    have hraw : raw' ≠ raw := by
      rintro rfl
      rw [hnone] at hg
      cases hg
    exact (Function.update_of_ne hraw _ _).trans hg
  have hold : ∀ k' u g, s'.tickets k' = some u → u.grant = some g → s.tickets k' = some u := by
    intro k' u g hu hg
    by_cases hk : k' = k
    · subst hk
      rw [tickets, Function.update_self] at hu
      cases hu
    · exact ticket_of_ne tickets hu hk
  refine
    { row := fun raw' g hg => ?_
      known := fun x hx => ?_
      exchanges := h.exchanges
      issued := fun raw' h' => ?_
      persists := h.persists
      serving := fun k' u g hu hg => ?_
      alone := fun k₁ u₁ g₁ k₂ u₂ g₂ h₁ hg₁ h₂ hg₂ =>
        h.alone k₁ u₁ g₁ k₂ u₂ g₂ (hold k₁ u₁ g₁ h₁ hg₁) hg₁ (hold k₂ u₂ g₂ h₂ hg₂) hg₂ }
  · dsimp only at hg
    by_cases hraw : raw' = raw
    · rw [hraw, Function.update_self] at hg
      cases hg
      exact ⟨_, Table.mem_self_insert? insert, by rw [hraw]; rfl, rfl,
        iff_of_true rfl (hraw ▸ hexchanges)⟩
    · rw [Function.update_of_ne hraw] at hg
      obtain ⟨o, ho, ho'⟩ := h.row raw' g hg
      exact ⟨o, Table.mem_of_mem_insert? insert ho, ho'⟩
  · rcases (Table.mem_insert? insert).1 hx with hx | rfl
    · obtain ⟨raw', g, hg, hdigest⟩ := h.known x hx
      exact ⟨raw', g, hissued raw' g hg, hdigest⟩
    · exact ⟨raw, _, Function.update_self _ _ _, rfl⟩
  · obtain ⟨g, hg⟩ := h.issued raw' h'
    exact ⟨g, hissued raw' g hg⟩
  · obtain ⟨raw', hserving, hg', hrest⟩ := h.serving k' u g (hold k' u g hu hg) hg
    exact ⟨raw', hserving, hissued raw' g hg', hrest⟩

/-- The views submit no command that connects. -/
theorem grant_of_admitted {p : RelayPrincipal} {store : Store} {c : Command} (h : Admitted p store c) :
    (Ticket.admitted c).grant = none := by cases h <;> rfl

end Steps

section System

variable {env : Env} {publisher : Option Publisher} {s s' : Sys} {b : Callbacks}

/-- A transaction is booked. -/
theorem Booked.commit {k : ℕ} {draws : Draws} {o : Output} (h : Booked env s b)
    (injective : Function.Injective env.sha256) (hs : Constrained s.store) (hs' : Constrained s'.store)
    (hstep : next env publisher s (.commit k draws) = some (s', o)) :
    Booked env s' (b.observe (.commit k draws, o)) := by
  obtain ⟨c, ticket, ⟨e, -, rfl, rfl⟩ | ⟨r, store, hrun, rfl, rfl⟩⟩ := next_commit hstep
  · cases c with
    | persistMetaConnections tenant brand subject token identity =>
      exact h.persisted rfl rfl ticket rfl
    | _ => exact h.done rfl rfl fun u hu => by cases hu
  · cases c with
    | startMetaOAuth tenant brand subject =>
      cases runCommand_effect hrun with
      | oauthStarted insert => exact h.started hs' insert rfl
    | consumeOAuthState raw =>
      cases runCommand_effect hrun with
      | oauthConsumed mem digest unused => exact h.consumed injective hs mem digest unused rfl rfl
    | persistMetaConnections tenant brand subject token identity =>
      cases runCommand_effect hrun with
      | connected => exact h.persisted rfl rfl ticket rfl
    | createMediaUploadIntent =>
      cases runCommand_effect hrun
      exact h.done rfl rfl fun u hu => by cases hu
    | confirmMediaUpload =>
      cases runCommand_effect hrun <;> exact h.done rfl rfl fun u hu => by cases hu
    | createPostDraft =>
      cases runCommand_effect hrun <;> exact h.done rfl rfl fun u hu => by cases hu
    | approvePost =>
      cases runCommand_effect hrun <;> exact h.done rfl rfl fun u hu => by cases hu
    | requestApproval =>
      cases runCommand_effect hrun
      exact h.done rfl rfl fun u hu => by cases hu
    | decideApproval =>
      cases runCommand_effect hrun
      exact h.done rfl rfl fun u hu => by cases hu
    | revokeApproval =>
      cases runCommand_effect hrun
      exact h.done rfl rfl fun u hu => by cases hu
    | schedulePublication =>
      cases runCommand_effect hrun <;> exact h.done rfl rfl fun u hu => by cases hu

/-- **Every step is booked.** -/
theorem Booked.step {e : Label × Output} (h : Booked env s b)
    (injective : Function.Injective env.sha256) (hs : Constrained s.store)
    (hstep : (relay env publisher).step s e s') : Booked env s' (b.observe e) := by
  have hs' : Constrained s'.store := next_constrained hstep hs
  obtain ⟨l, o⟩ := e
  have hsys := next_step hstep
  cases l with
  | commit k draws => exact h.commit injective hs hs' hstep
  | receive k credential request =>
    cases hsys with
    | admitted admission =>
      obtain ⟨-, -, hhandle⟩ := admitRequest_eq_ok admission
      refine h.done rfl rfl fun u hu => ?_
      cases hu
      exact grant_of_admitted (handle_admitted hhandle)
    | _ => exact h
  | receivePublic k request =>
    cases hsys with
    | admittedPublic admission =>
      refine h.done rfl rfl fun u hu => ?_
      cases hu
      rcases admitPublic_command admission with ⟨_, _, _, _, rfl⟩ | ⟨_, rfl⟩ <;> rfl
    | _ => exact h
  | identify k token identity =>
    cases hsys with
    | identified ticket =>
      -- the process goes on with the state it has used
      refine h.frame rfl fun k' u g hu hg => ?_
      by_cases hk : k' = k
      · subst hk
        change Function.update s.tickets k' _ k' = some u at hu
        rw [Function.update_self] at hu
        cases hu
        exact ⟨_, ticket, hg⟩
      · exact ⟨u, ticket_of_ne rfl hu hk, hg⟩
  | abandon k =>
    cases hsys
    exact h.done rfl rfl fun u hu => by cases hu
  | claim k attempt =>
    cases hsys with
    | claimed _ _ claimed =>
      cases claimed
      exact h.frame rfl fun k t g ht hg => ⟨t, ht, hg⟩
    | _ => exact h.frame rfl fun k t g ht hg => ⟨t, ht, hg⟩
  | finish k =>
    cases hsys with
    | finished _ finished => cases finished <;> exact h.frame rfl fun k t g ht hg => ⟨t, ht, hg⟩
    | _ => exact h.frame rfl fun k t g ht hg => ⟨t, ht, hg⟩
  | _ => cases hsys <;> exact h.frame rfl fun k t g ht hg => ⟨t, ht, hg⟩

/-- The books stand so after every run. -/
theorem booked_of_run {s₀ : Sys} {es : List (Label × Output)} (start : (relay env publisher).start s₀)
    (run : Trail (relay env publisher) s₀ es s) (injective : Function.Injective env.sha256) :
    Booked env s (callbacks es) := by
  refine Reachable.induct_fold (I := fun s b => Booked env s b)
    (fun s b e t hreach hb hstep => hb.step injective (constrained_of_reachable hreach) hstep)
    (.of_start start) ?_ run
  obtain ⟨_, _, _, _, rfl⟩ := start
  exact .initial rfl fun _ => rfl

/-- A text without a state, or whose state has expired or is used, is refused. -/
theorem consume_refused {k : ℕ} {raw : String} (h : Booked env s b)
    (injective : Function.Injective env.sha256) (hs : Constrained s.store)
    (ticket : s.tickets k = some (.admitted (.consumeOAuthState raw)))
    (bad : b.issued raw = none ∨ b.exchanges raw ≠ 0 ∨
      ∀ o ∈ s.store.oauthStates, o.stateDigest = env.sha256 raw → o.expiresAt ≤ s.clock)
    (draws : Draws) :
    next env publisher s (.commit k draws) =
      some (s.setTicket k none, .refused (.consumeOAuthState raw) .invalidOAuthState) := by
  have hrefused : consumeOAuthState env s.clock raw s.store = .error .invalidOAuthState := by
    unfold consumeOAuthState
    cases hfound : s.store.oauthStates.find? fun o => o.stateDigest = env.sha256 raw with
    | none => rfl
    | some o =>
      have ho := Table.mem_of_find? hfound
      have hdigest : o.stateDigest = env.sha256 raw := by simpa using Table.find?_some hfound
      obtain ⟨hissued, hused⟩ := h.issued_of injective hs ho hdigest
      refine if_pos ?_
      rcases bad with hnone | hexchanged | hexpired
      · rw [hnone] at hissued
        cases hissued
      · exact .inl fun hunused => hexchanged (hused.1 hunused)
      · exact .inr (hexpired o ho hdigest)
  simp only [next, ticket, Sys.commit, runCommand, hrefused]
  rfl

/-- What the last transaction of a callback writes belongs to the tenant and the brand. -/
theorem persist_written {k : ℕ} {draws : Draws} {tenant brand : Uuid} {subject : String}
    {token : MetaToken} {identity : MetaIdentity} {r : Reply}
    {response : Option (Except ApiError Response)} (hs : Constrained s.store)
    (hstep : next env publisher s (.commit k draws) =
      some (s', .committed (.persistMetaConnections tenant brand subject token identity) r response)) :
    s.tickets k = some (.admitted (.persistMetaConnections tenant brand subject token identity)) ∧
      (∀ a ∈ s'.store.accounts, a ∈ s.store.accounts ∨ (a.tenant = tenant ∧ a.brand = brand)) ∧
      ∀ c ∈ s'.store.connections, c ∈ s.store.connections ∨
        ∃ a ∈ s'.store.accounts, a.id = c.socialAccount ∧ a.tenant = tenant ∧ a.brand = brand := by
  have hs' : Constrained s'.store := next_constrained hstep hs
  obtain ⟨c, ticket, ⟨e, -, -, heq⟩ | ⟨r', store, hrun, rfl, heq⟩⟩ := next_commit hstep
  · cases heq
  cases heq
  obtain ⟨account, hcall, -⟩ := reply_eq_ok.1 hrun
  have hpersisted := persistMetaConnections_persisted hcall hs
  have howner := hpersisted.upserted.owner
  have hbrand := hpersisted.upserted.stands.1
  refine ⟨ticket, fun a ha => ?_, fun c hc => ?_⟩
  · by_cases hid : a.id = account.id
    · rw [Table.eq_of_key ha hpersisted.upserted.mem hid]
      exact .inr ⟨howner, hbrand⟩
    · exact .inl ((hpersisted.upserted.others a hid).1 ha)
  · by_cases hid : c.socialAccount = account.id
    · exact .inr ⟨account, hpersisted.upserted.mem, hid.symm, howner, hbrand⟩
    · have helsewhere : ∀ d ∈ identity.connections, d.columns account.id ≠ c.columns :=
        fun d _ hcolumns => hid (congrArg Prod.fst hcolumns).symm
      refine .inl (hs.columns.mem_iff_select.2 ?_)
      rw [← hpersisted.connections.other helsewhere]
      exact hs'.columns.mem_iff_select.1 hc

end System

/-! ### Single use -/

/-- The states are used once, after a run `es` that has led to `s`. -/
structure SingleUse (env : Env) (publisher : Option Publisher) (es : List (Label × Output)) (s : Sys) :
    Prop where
  /-- at most one exchange, and a persist after an exchange only -/
  once : ∀ raw, (callbacks es).exchanges raw ≤ 1 ∧
    (callbacks es).persists raw ≤ (callbacks es).exchanges raw
  /-- from the exchange on, the state is used -/
  used : ∀ raw, (callbacks es).exchanges raw ≠ 0 →
    ∃ o ∈ s.store.oauthStates, o.stateDigest = env.sha256 raw ∧ o.usedAt ≠ none
  /-- a callback with an unknown, used or expired state ends with its first transaction -/
  refused : ∀ k raw, s.tickets k = some (.admitted (.consumeOAuthState raw)) →
    ((callbacks es).issued raw = none ∨ (callbacks es).exchanges raw ≠ 0 ∨
      ∀ o ∈ s.store.oauthStates, o.stateDigest = env.sha256 raw → o.expiresAt ≤ s.clock) →
    ∀ draws, next env publisher s (.commit k draws) =
      some (s.setTicket k none, .refused (.consumeOAuthState raw) .invalidOAuthState)
  /-- what a callback writes belongs to the tenant and the brand its state was issued for -/
  binding : ∀ k draws s' tenant brand subject token identity r response,
    next env publisher s (.commit k draws) =
      some (s', .committed (.persistMetaConnections tenant brand subject token identity) r response) →
    ∃ raw, (callbacks es).serving k = some raw ∧
      (callbacks es).issued raw = some ⟨tenant, brand, subject⟩ ∧
      (∀ a ∈ s'.store.accounts, a ∈ s.store.accounts ∨ (a.tenant = tenant ∧ a.brand = brand)) ∧
      ∀ c ∈ s'.store.connections, c ∈ s.store.connections ∨
        ∃ a ∈ s'.store.accounts, a.id = c.socialAccount ∧ a.tenant = tenant ∧ a.brand = brand

/-- **Each issued state is used at most once, and for whom it was issued**, whatever callbacks run
beside each other and wherever they stop. -/
theorem oauth_state_single_use {env : Env} {publisher : Option Publisher} {s₀ s : Sys}
    {es : List (Label × Output)} (start : (relay env publisher).start s₀)
    (run : Trail (relay env publisher) s₀ es s) (injective : Function.Injective env.sha256) :
    SingleUse env publisher es s := by
  have hbooked := booked_of_run start run injective
  have hs := constrained_of_reachable (Reachable.trail (.of_start start) run)
  refine ⟨fun raw => ⟨hbooked.exchanges raw, hbooked.persists raw⟩, fun raw hraw => ?_,
    fun k raw ticket bad draws => consume_refused hbooked injective hs ticket bad draws,
    fun k draws s' tenant brand subject token identity r response hstep => ?_⟩
  · obtain ⟨g, hg⟩ := hbooked.issued raw hraw
    obtain ⟨o, ho, hdigest, -, hused⟩ := hbooked.row raw g hg
    exact ⟨o, ho, hdigest, fun hunused => hraw (hused.1 hunused)⟩
  · obtain ⟨ticket, haccounts, hconnections⟩ := persist_written hs hstep
    obtain ⟨raw, hserving, hissued, -⟩ := hbooked.serving k _ _ ticket rfl
    exact ⟨raw, hserving, hissued, haccounts, hconnections⟩

/-- A run in which one state is exchanged and persisted. -/
theorem oauth_state_single_use_sample : ∃ es s, (callbacks es).exchanges "token" = 1 ∧
    (callbacks es).persists "token" = 1 ∧ SingleUse Sample.env none es s := by
  obtain ⟨es, s, run, hs⟩ := exists_of_execute
    (show ((execute Sample.env none (Sample.connecting .metaFacebookPage) Sample.start).any fun x =>
      decide ((callbacks x.1).exchanges "token" = 1 ∧ (callbacks x.1).persists "token" = 1)) = true
      by decide +kernel)
  obtain ⟨hexchanges, hpersists⟩ := of_decide_eq_true hs
  exact ⟨es, s, hexchanges, hpersists,
    oauth_state_single_use (Sample.start_isStart none) run Sample.sha256_injective⟩

end Relay
