import Relay.Execution
import Relay.Model.Panel

/-!
# Which workspace and which brand the panel shows

A browser session names a workspace and a brand; every view of the panel reads them back.

* `chosen`: the membership that `panel_principal` takes, `panelPrincipal_eq_ok`;
* `finds_iff`: a user with an active workspace gets one, unless the choice falls on an inactive one;
* `context_differs`: the views behind the authentication never get the context that the login gets;
* `switches_iff`: which texts `PanelWorkspaceView` answers by the workspace and the brand they name.
-/

namespace Relay

open Relational Sequence

/-! ### The choice of a workspace -/

theorem mem_activeMemberships {subject : String} {s : Store} {m : Membership} {w : Tenant} :
    (m, w) ∈ activeMemberships subject s ↔
      (m ∈ s.memberships ∧ m.subject = subject ∧ m.isActive = true) ∧ w ∈ s.tenants ∧ w.id = m.workspace := by
  unfold activeMemberships
  rw [List.mem_filterMap]
  constructor
  · rintro ⟨m', hm', h⟩
    obtain ⟨w', hw', heq⟩ := Option.map_eq_some_iff.1 h
    cases heq
    obtain ⟨hmem, hactive⟩ := Table.mem_where.1 hm'
    rw [Bool.and_eq_true, decide_eq_true_eq] at hactive
    exact ⟨⟨hmem, hactive.1, hactive.2⟩, Table.get?_eq_some.1 hw'⟩
  · rintro ⟨⟨hmem, hsubject, hactive⟩, hw⟩
    exact ⟨m, Table.mem_where.2 ⟨hmem, by simp [hsubject, hactive]⟩,
      by rw [Table.get?_eq_some.2 hw]; rfl⟩

/-- The workspace that the session names, if `panel_principal` can read it. -/
def Session.namedWorkspace (session : Session) : Except AuthenticationError (Option Uuid) :=
  match filterText session.relayWorkspaceId with
  | .error e => .error e
  | .ok none => .ok none
  | .ok (some text) =>
    match Uuid.parse text with
    | some id => .ok (some id)
    | none => .error (.unhandled "ValidationError")

/-- The membership in the workspace named, or else the first one by the name of its workspace. -/
def chosen (memberships : List (Membership × Tenant)) (named : Option Uuid) :
    Option (Membership × Tenant) :=
  (named.bind fun id => (orderBy (fun a b : Membership × Tenant => a.1.id.bits ≤ b.1.id.bits)
    (memberships.filter fun m => m.1.workspace = id)).head?).or
      (orderBy (fun a b : Membership × Tenant => a.2.name ≤ b.2.name) memberships).head?

section Choice

variable {session session' : Session} {userId : ℕ} {s : Store} {p : RelayPrincipal}
  {named : Option Uuid} {memberships : List (Membership × Tenant)} {m : Membership} {w : Tenant}

theorem mem_of_chosen (h : chosen memberships named = some (m, w)) : (m, w) ∈ memberships := by
  rcases Option.or_eq_some_iff.1 h with h | ⟨-, h⟩
  · obtain ⟨id, -, h⟩ := Option.bind_eq_some_iff.1 h
    exact (List.mem_filter.1 (mem_orderBy.1 (List.mem_of_head? h))).1
  · exact mem_orderBy.1 (List.mem_of_head? h)

/-- The workspace named is taken wherever there is a membership in it. -/
theorem chosen_named {id : Uuid} (h : (m, w) ∈ memberships) (hid : m.workspace = id) :
    ∃ m' w', chosen memberships (some id) = some (m', w') ∧ (m', w') ∈ memberships ∧
      m'.workspace = id := by
  have hmem : (m, w) ∈ memberships.filter fun m => m.1.workspace = id :=
    List.mem_filter.2 ⟨h, by simpa using hid⟩
  obtain ⟨x, hx, hfirst⟩ : ∃ x ∈ memberships.filter fun m => m.1.workspace = id,
      (orderBy (fun a b : Membership × Tenant => a.1.id.bits ≤ b.1.id.bits)
        (memberships.filter fun m => m.1.workspace = id)).head? = some x := exists_head?_orderBy hmem
  obtain ⟨hmember, hworkspace⟩ := List.mem_filter.1 hx
  refine ⟨x.1, x.2, ?_, hmember, by simpa using hworkspace⟩
  unfold chosen
  rw [Option.bind_some, hfirst]
  rfl

/-- Otherwise the first one is. -/
theorem chosen_unnamed (h : ∀ x ∈ memberships, named ≠ some x.1.workspace) :
    chosen memberships named =
      (orderBy (fun a b : Membership × Tenant => a.2.name ≤ b.2.name) memberships).head? := by
  unfold chosen
  cases named with
  | none => rfl
  | some id =>
    have hnil : (memberships.filter fun m => m.1.workspace = id) = [] := by
      rw [List.filter_eq_nil_iff]
      intro x hx heq
      exact h x hx (by rw [of_decide_eq_true heq])
    rw [Option.bind_some, hnil]
    rfl

/-- The principal of a membership in an active workspace. -/
def principalOf (userId : ℕ) (s : Store) :
    Option (Membership × Tenant) → Except AuthenticationError RelayPrincipal
  | none => .error (.authenticationFailed "This user does not have access to a Relay workspace.")
  | some (membership, workspace) =>
    if ¬ workspace.isActive then
      .error (.authenticationFailed "This user does not have access to a Relay workspace.")
    else
      .ok
        { subject := panelSubject userId
          workspaceId := membership.workspace
          brandIds := (s.brands.where fun b => b.workspace = workspace.id && b.isActive).map (·.id)
          scopes := roleScopes membership.role }

/-- `panel_principal` reads the session, chooses a membership and writes the session. -/
theorem panelPrincipal_eq : session.panelPrincipal userId s =
    (session.namedWorkspace >>= fun named =>
      principalOf userId s (chosen (activeMemberships (panelSubject userId) s) named) >>= fun p =>
        .ok (p, { session with relayWorkspaceId := some (.str p.workspaceId.text) })) := by
  unfold Session.panelPrincipal Session.namedWorkspace
  cases Session.filterText session.relayWorkspaceId with
  | error e => rfl
  | ok text =>
    cases text with
    | none => rfl
    | some text =>
      show (Relay.panelPrincipal userId (some text) s >>= fun p => Except.ok (p, _)) = _
      cases hparse : Uuid.parse text with
      | none =>
        have hprincipal : Relay.panelPrincipal userId (some text) s =
            .error (.unhandled "ValidationError") := by
          simp only [Relay.panelPrincipal, requestedMembership, hparse]
          rfl
        rw [hprincipal]
        simp only [hparse]
        rfl
      | some id =>
        have hprincipal : Relay.panelPrincipal userId (some text) s =
            principalOf userId s (chosen (activeMemberships (panelSubject userId) s) (some id)) := by
          simp only [Relay.panelPrincipal, requestedMembership, hparse]
          rfl
        rw [hprincipal]
        simp only [hparse]
        rfl

/-- **When `panel_principal` succeeds**, and with what. -/
theorem panelPrincipal_eq_ok : session.panelPrincipal userId s = .ok (p, session') ↔
    ∃ named m w, session.namedWorkspace = .ok named ∧
      chosen (activeMemberships (panelSubject userId) s) named = some (m, w) ∧ w.isActive = true ∧
      p = ⟨panelSubject userId, m.workspace,
        (s.brands.where fun b => b.workspace = w.id && b.isActive).map (·.id), roleScopes m.role⟩ ∧
      session' = { session with relayWorkspaceId := some (.str p.workspaceId.text) } := by
  rw [panelPrincipal_eq]
  simp only [bind_eq_ok]
  constructor
  · rintro ⟨named, hnamed, q, hq, h⟩
    cases h
    cases hchosen : chosen (activeMemberships (panelSubject userId) s) named with
    | none => rw [hchosen] at hq; cases hq
    | some x =>
      obtain ⟨m, w⟩ := x
      rw [hchosen] at hq
      by_cases hactive : w.isActive = true
      · simp only [principalOf, if_neg (not_not.2 hactive)] at hq
        cases hq
        exact ⟨named, m, w, hnamed, hchosen, hactive, rfl, rfl⟩
      · simp only [principalOf, if_pos hactive] at hq
        cases hq
  · rintro ⟨named, m, w, hnamed, hchosen, hactive, rfl, rfl⟩
    refine ⟨named, hnamed, _, ?_, rfl⟩
    rw [hchosen]
    exact if_neg (not_not.2 hactive)

end Choice

/-! ### A user with an active workspace -/

/-- The user has an active membership in some active workspace. -/
def HasWorkspace (userId : ℕ) (s : Store) : Prop :=
  ∃ m w, (m, w) ∈ activeMemberships (panelSubject userId) s ∧ w.isActive = true

/-- The principal is the user's in an active workspace, the one of the session if the user may have
it, and the session names that workspace. -/
structure Resolved (userId : ℕ) (session : Session) (s : Store) (p : RelayPrincipal)
    (session' : Session) : Prop where
  subject : p.subject = panelSubject userId
  membership : ∃ m w, (m, w) ∈ activeMemberships (panelSubject userId) s ∧ w.isActive = true ∧
    p.workspaceId = w.id ∧ p.scopes = roleScopes m.role
  preferred : ∀ m w, (m, w) ∈ activeMemberships (panelSubject userId) s → w.isActive = true →
    session.namedWorkspace = .ok (some w.id) → p.workspaceId = w.id
  brands : ∀ id, id ∈ p.brandIds ↔
    ∃ b ∈ s.brands, b.id = id ∧ b.workspace = p.workspaceId ∧ b.isActive = true
  named : session' = { session with relayWorkspaceId := some (.str p.workspaceId.text) }

/-- `panel_principal` succeeds exactly for a user with an active workspace, and then resolves it. -/
def Finds (userId : ℕ) (session : Session) (s : Store) : Prop :=
  ((∃ p session', session.panelPrincipal userId s = .ok (p, session')) ↔ HasWorkspace userId s) ∧
    ∀ p session', session.panelPrincipal userId s = .ok (p, session') →
      Resolved userId session s p session'

/-- The session can be read, and what the choice falls on is active: the workspace that it names if
the user is a member there, and the first of the user's workspaces by name if not. -/
def ChoiceActive (userId : ℕ) (session : Session) (s : Store) : Prop :=
  ∃ named, session.namedWorkspace = .ok named ∧
    ((∃ m w, (m, w) ∈ activeMemberships (panelSubject userId) s ∧ named = some w.id ∧
        w.isActive = true) ∨
      ((∀ x ∈ activeMemberships (panelSubject userId) s, named ≠ some x.2.id) ∧
        ∃ m w, (orderBy (fun a b : Membership × Tenant => a.2.name ≤ b.2.name)
          (activeMemberships (panelSubject userId) s)).head? = some (m, w) ∧ w.isActive = true))

section Finds

variable {session session' : Session} {userId : ℕ} {s : Store} {p : RelayPrincipal}

/-- A membership determines its workspace. -/
theorem workspace_eq {subject : String} {m m' : Membership} {w w' : Tenant}
    (h : (m, w) ∈ activeMemberships subject s) (h' : (m', w') ∈ activeMemberships subject s)
    (hid : m.workspace = m'.workspace) : w = w' := by
  obtain ⟨-, hw, hwid⟩ := mem_activeMemberships.1 h
  obtain ⟨-, hw', hwid'⟩ := mem_activeMemberships.1 h'
  exact Table.eq_of_key hw hw' (hwid.trans (hid.trans hwid'.symm))

/-- What `panel_principal` returns is resolved. -/
theorem resolved_of_ok (h : session.panelPrincipal userId s = .ok (p, session')) :
    Resolved userId session s p session' := by
  obtain ⟨named, m, w, hnamed, hchosen, hactive, rfl, rfl⟩ := panelPrincipal_eq_ok.1 h
  have hmem := mem_of_chosen hchosen
  obtain ⟨-, -, hid⟩ := mem_activeMemberships.1 hmem
  refine ⟨rfl, ⟨m, w, hmem, hactive, hid.symm, rfl⟩, fun m' w' hmem' _ hsession => ?_, fun id => ?_, rfl⟩
  · rw [hnamed] at hsession
    cases hsession
    obtain ⟨m₁, w₁, hchosen', -, hworkspace⟩ :=
      chosen_named hmem' (mem_activeMemberships.1 hmem').2.2.symm
    rw [hchosen] at hchosen'
    cases hchosen'
    exact hworkspace
  · show id ∈ List.map _ _ ↔ _
    rw [List.mem_map]
    constructor
    · rintro ⟨b, hb, rfl⟩
      obtain ⟨hb, hof⟩ := Table.mem_where.1 hb
      rw [Bool.and_eq_true, decide_eq_true_eq] at hof
      exact ⟨b, hb, rfl, hof.1.trans hid, hof.2⟩
    · rintro ⟨b, hb, rfl, hof, hbactive⟩
      exact ⟨b, Table.mem_where.2 ⟨hb, by simp [hof, hid, hbactive]⟩, rfl⟩

/-- **When `panel_principal` succeeds**, by the tables and the session. -/
theorem panelPrincipal_succeeds :
    (∃ p session', session.panelPrincipal userId s = .ok (p, session')) ↔
      ChoiceActive userId session s := by
  constructor
  · rintro ⟨p, session', h⟩
    obtain ⟨named, m, w, hnamed, hchosen, hactive, -, -⟩ := panelPrincipal_eq_ok.1 h
    have hmem := mem_of_chosen hchosen
    by_cases hmember : ∃ x ∈ activeMemberships (panelSubject userId) s, named = some x.2.id
    · obtain ⟨⟨m', w'⟩, hmem', rfl⟩ := hmember
      obtain ⟨m₁, w₁, hchosen', -, hworkspace⟩ :=
        chosen_named hmem' (mem_activeMemberships.1 hmem').2.2.symm
      rw [hchosen] at hchosen'
      cases hchosen'
      refine ⟨_, hnamed, .inl ⟨m, w, hmem, ?_, hactive⟩⟩
      rw [(mem_activeMemberships.1 hmem).2.2, hworkspace]
    · have hother : ∀ x ∈ activeMemberships (panelSubject userId) s, named ≠ some x.2.id :=
        fun x hx heq => hmember ⟨x, hx, heq⟩
      refine ⟨named, hnamed, .inr ⟨hother, m, w, ?_, hactive⟩⟩
      rw [← hchosen, chosen_unnamed]
      intro x hx
      rw [← (mem_activeMemberships.1 (show (x.1, x.2) ∈ _ from hx)).2.2]
      exact hother x hx
  · rintro ⟨named, hnamed, ⟨m, w, hmem, rfl, hactive⟩ | ⟨hother, m, w, hfirst, hactive⟩⟩
    · obtain ⟨m', w', hchosen, hmem', hworkspace⟩ :=
        chosen_named hmem (mem_activeMemberships.1 hmem).2.2.symm
      obtain rfl : w = w' := workspace_eq hmem hmem'
        ((mem_activeMemberships.1 hmem).2.2.symm.trans hworkspace.symm)
      exact ⟨_, _, panelPrincipal_eq_ok.2 ⟨_, m', w, hnamed, hchosen, hactive, rfl, rfl⟩⟩
    · refine ⟨_, _, panelPrincipal_eq_ok.2 ⟨named, m, w, hnamed, ?_, hactive, rfl, rfl⟩⟩
      rw [chosen_unnamed, hfirst]
      intro x hx
      rw [← (mem_activeMemberships.1 (show (x.1, x.2) ∈ _ from hx)).2.2]
      exact hother x hx

end Finds

/-- **A user with an active workspace gets one exactly when the choice does not fall on an inactive
one**, which hides the others. -/
theorem finds_iff {userId : ℕ} {session : Session} {s : Store} :
    Finds userId session s ↔ (HasWorkspace userId s → ChoiceActive userId session s) := by
  constructor
  · intro h hworkspace
    exact panelPrincipal_succeeds.1 (h.1.2 hworkspace)
  · intro h
    refine ⟨⟨?_, fun hworkspace => panelPrincipal_succeeds.2 (h hworkspace)⟩, fun p session' hok =>
      resolved_of_ok hok⟩
    rintro ⟨p, session', hok⟩
    obtain ⟨m, w, hmem, hactive, -⟩ := (resolved_of_ok hok).membership
    exact ⟨m, w, hmem, hactive⟩

namespace Sample

/-- A user with two workspaces, of which the first by name is inactive. -/
def studios : Store :=
  .provisioned ⟨[⟨.ofNat 61, "Alpha", false⟩, ⟨.ofNat 62, "Beta", true⟩], by decide⟩ ∅
    ⟨[⟨.ofNat 63, .ofNat 61, panelSubject 1, .owner, true⟩,
      ⟨.ofNat 64, .ofNat 62, panelSubject 1, .owner, true⟩], by decide⟩

end Sample

/-- The workspace that comes first by name is inactive. -/
theorem not_finds : ¬ ∀ (userId : ℕ) (session : Session) (s : Store), Finds userId session s := by
  intro h
  have hworkspace : HasWorkspace 1 Sample.studios := by
    refine ⟨⟨.ofNat 64, .ofNat 62, panelSubject 1, .owner, true⟩, ⟨.ofNat 62, "Beta", true⟩,
      mem_activeMemberships.2 ⟨⟨?_, rfl, rfl⟩, ?_, rfl⟩, rfl⟩
    · exact List.mem_cons_of_mem _ List.mem_cons_self
    · exact List.mem_cons_of_mem _ List.mem_cons_self
  obtain ⟨p, session', hok⟩ := (h 1 .empty Sample.studios).1.2 hworkspace
  have hfails : (Session.empty.panelPrincipal 1 Sample.studios).toOption.isNone = true := by
    decide +kernel
  rw [hok] at hfails
  cases hfails

/-! ### The context by every entry point -/

/-- The view behind the authentication, where REST framework has put a principal in the place of the
user, gives what the login gives: the same context and the same session. -/
def SameContext (users : Table User) (user : User) (principal : RelayPrincipal) (session : Session)
    (s : Store) : Prop :=
  panelMe users principal session s = panelLogin users (some user) session s

section Context

variable {users : Table User} {user : User} {session session' : Session} {s : Store}
  {p : RelayPrincipal}

/-- The rows that a query for a key of a constraint finds. -/
theorem membership_rows {m : Membership} (hm : m ∈ s.memberships) (hactive : m.isActive = true)
    (unique : s.memberships.Unique fun m => (m.workspace, m.subject)) :
    (s.memberships.where fun x => x.workspace = m.workspace && x.subject = m.subject && x.isActive) =
      [m] := by
  have hnodup : (s.memberships.where fun x =>
      x.workspace = m.workspace && x.subject = m.subject && x.isActive).Nodup :=
    (List.Nodup.of_map _ s.memberships.nodup).filter _
  have hall : ∀ x ∈ s.memberships.where fun x =>
      x.workspace = m.workspace && x.subject = m.subject && x.isActive, x = m := by
    intro x hx
    obtain ⟨hx, hcolumns⟩ := Table.mem_where.1 hx
    simp only [Bool.and_eq_true, decide_eq_true_eq] at hcolumns
    exact unique x hx m hm (Prod.ext hcolumns.1.1 hcolumns.1.2)
  have hself : m ∈ s.memberships.where fun x =>
      x.workspace = m.workspace && x.subject = m.subject && x.isActive :=
    Table.mem_where.2 ⟨hm, by simp [hactive]⟩
  refine List.perm_singleton.1 ((List.perm_ext_iff_of_nodup hnodup (List.nodup_singleton m)).2 fun x => ?_)
  rw [List.mem_singleton]
  exact ⟨hall x, fun heq => heq ▸ hself⟩

/-- `panel_context` once the user and the principal are found: only the first entries of the
dictionary depend on what `request._request.user` is. -/
theorem panelContext_eq (unique : s.memberships.Unique fun m => (m.workspace, m.subject))
    (hp : session.panelPrincipal user.id s = .ok (p, session')) :
    ∃ workspace membership, ∀ requestUser given, contextUser users session given = .ok user →
      panelContext users requestUser given session s =
        (contextData requestUser p workspace membership session' s,
          session'.chooseBrand (contextBrands p s)) := by
  have hresolved := resolved_of_ok hp
  obtain ⟨m, w, hmem, hactive, hid, -⟩ := hresolved.membership
  obtain ⟨⟨hm, hsubject, hmactive⟩, hw, hwid⟩ := mem_activeMemberships.1 hmem
  refine ⟨w, m, fun requestUser given hgiven => ?_⟩
  have hworkspace : (s.tenants.find? fun x => x.id = p.workspaceId && x.isActive) = some w := by
    refine Table.find?_of_key hw (by simp [hid, hactive]) fun x hx => ?_
    rw [Bool.and_eq_true, decide_eq_true_eq] at hx
    exact hx.1.trans hid
  have hmembership := membership_rows hm hmactive unique
  rw [hsubject, ← hresolved.subject, ← hwid] at hmembership
  simp only [panelContext, hgiven, hp, hworkspace, hmembership]

/-- A login keeps the session of the same user. -/
theorem login_of_loggedIn (loggedIn : session.authUserId = some user.id) : session.login user = session := by
  unfold Session.login
  rw [if_pos (.inr loggedIn), ← loggedIn]

/-- What the login gives to an active user is what `panel_context` gives. -/
theorem panelLogin_of {context : PanelContext} (loggedIn : session.authUserId = some user.id)
    (active : user.isActive = true)
    (h : panelContext users (.django user) (some user) session s = (.ok context, session')) :
    panelLogin users (some user) session s = (.ok context, session') := by
  simp only [panelLogin, active, not_true_eq_false, if_false, login_of_loggedIn loggedIn, h]

end Context

/-- **No view behind the authentication gets the context that the login gets**: it raises where the
dictionary begins, since a principal has no user name. -/
theorem context_differs {users : Table User} {user : User} {principal : RelayPrincipal}
    {session : Session} {s : Store} (mem : user ∈ users) (loggedIn : session.authUserId = some user.id)
    (unique : s.memberships.Unique fun m => (m.workspace, m.subject))
    (resolves : ∃ p session', session.panelPrincipal user.id s = .ok (p, session')) :
    ¬ SameContext users user principal session s ∧
      (panelMe users principal session s).1 = .error (.unhandled "AttributeError") ∧
      (∀ before workspaceId brandId w b, checkSwitch principal.subject workspaceId brandId s = .ok (w, b) →
        session = { before with relayWorkspaceId := some (.str w.text), relayBrandId := b.map .str } →
        (panelWorkspace users principal workspaceId brandId before s).1 =
          .error (.unhandled "AttributeError")) ∧
      ∃ context, (panelContext users (.django user) (some user) session s).1 = .ok context ∧
        (user.isActive = true → (panelLogin users (some user) session s).1 = .ok context) := by
  obtain ⟨p, session', hp⟩ := resolves
  obtain ⟨w, m, heq⟩ := @panelContext_eq users _ _ _ _ _ unique hp
  have huser : contextUser users session none = .ok user := by
    have hget : session.authUserId.bind users.get? = some user := by
      rw [loggedIn]
      exact Table.get?_key mem
    simp only [contextUser, hget]
  have hview := heq (.principal principal) none huser
  have hlogin := heq (.django user) (some user) rfl
  have hraises : (panelContext users (.principal principal) none session s).1 =
      .error (.unhandled "AttributeError") := by
    rw [hview]
    rfl
  obtain ⟨context, hcontext⟩ : ∃ context, panelContext users (.django user) (some user) session s =
      (.ok context, session'.chooseBrand (contextBrands p s)) := by
    rw [hlogin]
    exact ⟨_, rfl⟩
  have hactive : user.isActive = true → panelLogin users (some user) session s =
      (.ok context, session'.chooseBrand (contextBrands p s)) := fun h => panelLogin_of loggedIn h hcontext
  refine ⟨fun hsame => ?_, hraises, ?_, context, congrArg Prod.fst hcontext, fun h =>
    congrArg Prod.fst (hactive h)⟩
  · change (panelMe users principal session s).1 = _ at hraises
    rw [hsame] at hraises
    cases hstate : user.isActive with
    | true =>
      rw [hactive hstate] at hraises
      cases hraises
    | false =>
      simp only [panelLogin, hstate, Bool.false_eq_true, not_false_eq_true, if_true] at hraises
      cases hraises
  · rintro before workspaceId brandId w b hcheck rfl
    simp only [panelWorkspace, hcheck]
    exact hraises

namespace Sample

def jorge : User := ⟨1, "jorge", "", true⟩

def panelUsers : Table User := ⟨[jorge], by decide⟩

/-- A brand whose identifier has a letter. -/
def laterBrand : Brand := ⟨.ofNat 0xb, workspace, "Later", "UTC", true⟩

/-- A workspace with two brands, and the user as its owner. -/
def shop : Store :=
  .provisioned ⟨[⟨workspace, "Studio", true⟩], by decide⟩
    ⟨[⟨brand, workspace, "Brand", "UTC", true⟩, laterBrand], by decide⟩
    ⟨[⟨.ofNat 3, workspace, panelSubject 1, .owner, true⟩], by decide⟩

/-- The session after the login. -/
def browser : Session := ⟨some 1, none, none⟩

theorem shop_unique : shop.memberships.Unique fun m => (m.workspace, m.subject) := by
  intro a ha b hb _
  exact (List.mem_singleton.1 ha).trans (List.mem_singleton.1 hb).symm

/-- The session resolves to the workspace. -/
theorem browser_resolves : ∃ p session', browser.panelPrincipal jorge.id shop = .ok (p, session') := by
  refine panelPrincipal_succeeds.2 ⟨none, rfl, .inr ⟨fun _ _ => by simp,
    ⟨.ofNat 3, workspace, panelSubject 1, .owner, true⟩, ⟨workspace, "Studio", true⟩, ?_, rfl⟩⟩
  decide +kernel

end Sample

theorem context_differs_sample :
    (panelMe Sample.panelUsers ⟨"user:1", Sample.workspace, [], []⟩ Sample.browser Sample.shop).1 =
      .error (.unhandled "AttributeError") :=
  (context_differs List.mem_cons_self rfl Sample.shop_unique Sample.browser_resolves).2.1

/-- The first page after the login. -/
theorem not_sameContext : ¬ ∀ (users : Table User) (user : User) (principal : RelayPrincipal)
    (session : Session) (s : Store), user ∈ users → user.isActive = true →
    session.authUserId = some user.id →
    (s.memberships.Unique fun m => (m.workspace, m.subject)) →
    (∃ p session', session.panelPrincipal user.id s = .ok (p, session')) →
    SameContext users user principal session s := by
  intro h
  have hsame := h Sample.panelUsers Sample.jorge ⟨"user:1", Sample.workspace, [], []⟩ Sample.browser
    Sample.shop List.mem_cons_self rfl rfl Sample.shop_unique Sample.browser_resolves
  have hview : (panelMe Sample.panelUsers ⟨"user:1", Sample.workspace, [], []⟩ Sample.browser
      Sample.shop).1.toOption.isNone = true := by decide +kernel
  have hlogin : (panelLogin Sample.panelUsers (some Sample.jorge) Sample.browser
      Sample.shop).1.toOption.isNone = false := by decide +kernel
  rw [hsame, hlogin] at hview
  cases hview

/-! ### The switch to another workspace and brand -/

/-- The session selects what the texts name: the workspace that `panel_principal` resolves, and the
brand that `panel_context` chooses, which is the first one by name where none is asked for. -/
def Selects (userId : ℕ) (s : Store) (workspaceId brandId : Option String) (session : Session) :
    Prop :=
  ∃ workspace, Uuid.parse (workspaceId.getD "") = some workspace ∧
    ∃ p session', session.panelPrincipal userId s = .ok (p, session') ∧ p.workspaceId = workspace ∧
      if brandId.getD "" = "" then
        session.activeBrand (contextBrands p s) = (contextBrands p s).head?
      else ∃ brand, Uuid.parse (brandId.getD "") = some brand ∧
        ∃ row, session.activeBrand (contextBrands p s) = some row ∧ row.id = brand

/-- `PanelWorkspaceView.post` refuses with 400 or 404 and leaves the session as it was, or it leaves
one that selects what was asked for. -/
def Switches (users : Table User) (userId : ℕ) (principal : RelayPrincipal)
    (workspaceId brandId : Option String) (session : Session) (s : Store) : Prop :=
  ((∃ e, (panelWorkspace users principal workspaceId brandId session s).1 = .error e ∧
      (e.status = 400 ∨ e.status = 404)) ∧
    (panelWorkspace users principal workspaceId brandId session s).2 = session) ∨
    Selects userId s workspaceId brandId (panelWorkspace users principal workspaceId brandId session s).2

/-- The active brands of a workspace, by name. -/
def brandsByName (workspace : Uuid) (s : Store) : List Brand :=
  orderBy (fun a b : Brand => a.name ≤ b.name) (s.brands.where fun b => b.workspace = workspace && b.isActive)

/-- No workspace is asked for, or a UUID that is none of the user's, or one of them with no brand,
with a UUID that is none of its brands, or with a brand that is written in its canonical form or
comes first by name. -/
def Readable (subject : String) (s : Store) (workspaceId brandId : Option String) : Prop :=
  workspaceId.getD "" = "" ∨ ∃ workspace, Uuid.parse (workspaceId.getD "") = some workspace ∧
    (findMembership subject workspace s = none ∨ brandId.getD "" = "" ∨
      ∃ brand, Uuid.parse (brandId.getD "") = some brand ∧
        (hasBrand workspace brand s = false ∨ brandId.getD "" = brand.text ∨
          ∃ row, (brandsByName workspace s).head? = some row ∧ row.id = brand))

section Switch

variable {users : Table User} {user : User} {session session' : Session} {s : Store}
  {p q : RelayPrincipal} {w : Uuid} {bs : List Brand} {workspaceId brandId : Option String}

/-- The choice of a brand is there to stay. -/
theorem activeBrand_chooseBrand : (session.chooseBrand bs).activeBrand bs = session.activeBrand bs := by
  unfold Session.chooseBrand
  split
  · rename_i b hnone hhead
    obtain ⟨rest, rfl⟩ : ∃ rest, bs = b :: rest := by
      cases bs with
      | nil => cases hhead
      | cons c rest => cases hhead; exact ⟨rest, rfl⟩
    have hnames : Session.namesBrand { session with relayBrandId := some (.str b.id.text) } b = true := by
      simp [Session.namesBrand]
    simp only [Session.activeBrand, hnone, List.find?_cons, hnames, List.head?_cons, Option.some_or,
      Option.none_or]
  · rfl

theorem chooseBrand_workspace : (session.chooseBrand bs).relayWorkspaceId = session.relayWorkspaceId := by
  unfold Session.chooseBrand
  split <;> rfl

/-- A session that names a workspace of the user resolves to it, and stays as it is. -/
theorem panelPrincipal_of_named {userId : ℕ} {m : Membership} {t : Tenant}
    (hmem : (m, t) ∈ activeMemberships (panelSubject userId) s) (hid : m.workspace = w)
    (hactive : t.isActive = true) (hnamed : session.relayWorkspaceId = some (.str w.text)) :
    ∃ p, session.panelPrincipal userId s = .ok (p, session) ∧ p.workspaceId = w := by
  have hnamed' : session.namedWorkspace = .ok (some w) := by
    simp only [Session.namedWorkspace, hnamed, Session.filterText, Uuid.parse_text]
  obtain ⟨m', t', hchosen, hmem', hid'⟩ := chosen_named hmem hid
  obtain rfl : t = t' := workspace_eq hmem hmem' (hid.trans hid'.symm)
  refine ⟨_, panelPrincipal_eq_ok.2 ⟨_, m', t, hnamed', hchosen, hactive, rfl, ?_⟩, hid'⟩
  rw [← hid'] at hnamed
  rw [← hnamed]

/-- The brands of the context are the active ones of the workspace. -/
theorem contextBrands_eq {userId : ℕ} (h : session.panelPrincipal userId s = .ok (p, session')) :
    contextBrands p s = brandsByName p.workspaceId s := by
  have hbrands := (resolved_of_ok h).brands
  unfold contextBrands brandsByName Table.where
  refine congrArg _ (List.filter_congr fun b hb => ?_)
  rw [Bool.eq_iff_iff, decide_eq_true_eq, hbrands, Bool.and_eq_true, decide_eq_true_eq]
  constructor
  · rintro ⟨b', hb', hid, hof⟩
    obtain rfl := Table.eq_of_key hb' hb hid
    exact hof
  · intro hof
    exact ⟨b, hb, rfl, hof⟩

/-- What `panel_context` leaves for a view behind the authentication, whatever it raises. -/
theorem panelContext_outcome (huser : contextUser users session none = .ok user)
    (hp : session.panelPrincipal user.id s = .ok (p, session)) :
    ((panelContext users (.principal q) none session s).2 = session ∨
      (panelContext users (.principal q) none session s).2 = session.chooseBrand (contextBrands p s)) ∧
      ∀ e, (panelContext users (.principal q) none session s).1 = .error e → e.status = 500 := by
  simp only [panelContext, huser, hp]
  split
  · exact ⟨.inl rfl, fun e he => by cases he; rfl⟩
  · split
    · exact ⟨.inl rfl, fun e he => by cases he; rfl⟩
    · exact ⟨.inl rfl, fun e he => by cases he; rfl⟩
    · exact ⟨.inr rfl, fun e he => by cases he; rfl⟩

theorem findMembership_eq_some {subject : String} {m : Membership} {t : Tenant}
    (h : findMembership subject w s = some (m, t)) :
    (m, t) ∈ activeMemberships subject s ∧ m.workspace = w ∧ t.isActive = true := by
  obtain ⟨hmem, hof⟩ := List.mem_filter.1 (mem_orderBy.1 (List.mem_of_head? h))
  rw [Bool.and_eq_true, decide_eq_true_eq] at hof
  exact ⟨hmem, hof⟩

/-- **After the checks**, the view selects the workspace, and its brand is the one that the text of
the request names, or the first one by name. -/
theorem panelWorkspace_selects {brand : Option String} (mem : user ∈ users)
    (loggedIn : session.authUserId = some user.id) (subject : q.subject = panelSubject user.id)
    {m : Membership} {t : Tenant} (found : findMembership q.subject w s = some (m, t))
    (checked : checkSwitch q.subject workspaceId brandId s = .ok (w, brand)) :
    (∀ e, (panelWorkspace users q workspaceId brandId session s).1 = .error e → e.status = 500) ∧
      ∃ p session', (panelWorkspace users q workspaceId brandId session s).2.panelPrincipal user.id s =
          .ok (p, session') ∧ p.workspaceId = w ∧ contextBrands p s = brandsByName w s ∧
        (panelWorkspace users q workspaceId brandId session s).2.activeBrand (brandsByName w s) =
          Session.activeBrand ⟨some user.id, some (.str w.text), brand.map .str⟩ (brandsByName w s) := by
  obtain ⟨hmem, hid, hactive⟩ := findMembership_eq_some found
  rw [subject] at hmem
  have hview : panelWorkspace users q workspaceId brandId session s =
      panelContext users (.principal q) none ⟨some user.id, some (.str w.text), brand.map .str⟩ s := by
    simp only [panelWorkspace, checked, loggedIn]
  have huser : contextUser users ⟨some user.id, some (.str w.text), brand.map .str⟩ none = .ok user := by
    have hget : (some user.id).bind users.get? = some user := Table.get?_key mem
    simp only [contextUser, hget]
  obtain ⟨p, hp, hpw⟩ := panelPrincipal_of_named hmem hid hactive
    (show (Session.mk (some user.id) (some (.str w.text)) (brand.map .str)).relayWorkspaceId = _ from rfl)
  have hbrands : contextBrands p s = brandsByName w s := by rw [contextBrands_eq hp, hpw]
  obtain ⟨hleft, herror⟩ := panelContext_outcome (q := q) huser hp
  rw [hview]
  refine ⟨herror, ?_⟩
  rw [hbrands] at hleft
  rcases hleft with hleft | hleft <;> rw [hleft]
  · exact ⟨p, _, hp, hpw, hbrands, rfl⟩
  · obtain ⟨p', hp', hpw'⟩ := panelPrincipal_of_named hmem hid hactive
      (show (Session.chooseBrand ⟨some user.id, some (.str w.text), brand.map .str⟩
        (brandsByName w s)).relayWorkspaceId = _ from chooseBrand_workspace)
    refine ⟨p', _, hp', hpw', ?_, activeBrand_chooseBrand⟩
    rw [contextBrands_eq hp', hpw']

/-- A brand of the workspace is chosen when its canonical text is stored, and otherwise only if it
comes first. -/
theorem activeBrand_iff (userId : ℕ) {text : String} {brand : Uuid} (hparse : Uuid.parse text = some brand)
    (hbrand : hasBrand w brand s = true) :
    (∃ row, Session.activeBrand ⟨some userId, some (.str w.text), some (.str text)⟩ (brandsByName w s) =
        some row ∧ row.id = brand) ↔
      (text = brand.text ∨ ∃ row, (brandsByName w s).head? = some row ∧ row.id = brand) := by
  have hnames : ∀ b : Brand, Session.namesBrand ⟨some userId, some (.str w.text), some (.str text)⟩ b =
      decide (b.id.text = text) := fun _ => rfl
  unfold Session.activeBrand
  by_cases hcanonical : text = brand.text
  · refine iff_of_true ?_ (.inl hcanonical)
    obtain ⟨row, hrow, hof⟩ := List.any_eq_true.1 hbrand
    simp only [Bool.and_eq_true, decide_eq_true_eq] at hof
    have hmem : row ∈ brandsByName w s :=
      mem_orderBy.2 (Table.mem_where.2 ⟨hrow, by simp [hof.1.2, hof.2]⟩)
    cases hfind : (brandsByName w s).find? (Session.namesBrand
        ⟨some userId, some (.str w.text), some (.str text)⟩) with
    | none =>
      have hnot := List.find?_eq_none.1 hfind row hmem
      rw [hnames, decide_eq_true_eq, hof.1.1] at hnot
      exact absurd hcanonical.symm hnot
    | some b =>
      have hb := List.find?_some hfind
      rw [hnames, decide_eq_true_eq, hcanonical] at hb
      exact ⟨b, rfl, Uuid.text_injective hb⟩
  · have hfind : (brandsByName w s).find? (Session.namesBrand
        ⟨some userId, some (.str w.text), some (.str text)⟩) = none := by
      refine List.find?_eq_none.2 fun b _ hb => hcanonical ?_
      rw [hnames, decide_eq_true_eq] at hb
      rw [← hb, Uuid.parse_text] at hparse
      rw [← hb, Option.some.inj hparse]
    rw [hfind, Option.none_or]
    simp [hcanonical]

/-- How the checks end: they refuse, they raise at a malformed text, or they go on without a brand
or with one of the workspace. -/
inductive Checked (subject : String) (s : Store) (workspaceId brandId : Option String) : Prop
  | refused {e : PanelError} (check : checkSwitch subject workspaceId brandId s = .error e)
      (status : e.status = 400 ∨ e.status = 404) (readable : Readable subject s workspaceId brandId)
  | raised (check : checkSwitch subject workspaceId brandId s = .error (.unhandled "ValidationError"))
      (malformed : Uuid.parse (workspaceId.getD "") = none ∨
        brandId.getD "" ≠ "" ∧ Uuid.parse (brandId.getD "") = none)
      (unreadable : ¬ Readable subject s workspaceId brandId)
  | unbranded {w : Uuid} {m : Membership} {t : Tenant} (named : Uuid.parse (workspaceId.getD "") = some w)
      (found : findMembership subject w s = some (m, t)) (blank : brandId.getD "" = "")
      (check : checkSwitch subject workspaceId brandId s = .ok (w, none))
  | branded {w b : Uuid} {m : Membership} {t : Tenant} {text : String}
      (nonblank : workspaceId.getD "" ≠ "") (named : Uuid.parse (workspaceId.getD "") = some w)
      (found : findMembership subject w s = some (m, t)) (given : brandId = some text) (text_ne : text ≠ "")
      (brand : Uuid.parse text = some b) (ofWorkspace : hasBrand w b s = true)
      (check : checkSwitch subject workspaceId brandId s = .ok (w, some text))

theorem checkSwitch_cases (subject : String) (s : Store) (workspaceId brandId : Option String) :
    Checked subject s workspaceId brandId := by
  by_cases hblank : workspaceId.getD "" = ""
  · exact .refused (e := .validation "workspace_id" "This field is required.") (if_pos hblank)
      (.inl rfl) (.inl hblank)
  cases hparse : Uuid.parse (workspaceId.getD "") with
  | none =>
    refine .raised ?_ (.inl hparse) (by simp [Readable, hblank, hparse])
    simp only [checkSwitch, if_neg hblank, uuidFilter, hparse]
    rfl
  | some w =>
    cases hfound : findMembership subject w s with
    | none =>
      refine .refused (e := .notFound) ?_ (.inr rfl) (.inr ⟨w, hparse, .inl hfound⟩)
      simp only [checkSwitch, if_neg hblank, uuidFilter, hparse, bind, Except.bind, hfound]
    | some x =>
      obtain ⟨m, t⟩ := x
      have hmw : m.workspace = w := (findMembership_eq_some hfound).2.1
      by_cases hnobrand : brandId.getD "" = ""
      · refine .unbranded hparse hfound hnobrand ?_
        simp only [checkSwitch, if_neg hblank, uuidFilter, hparse, bind, Except.bind, hfound,
          if_pos hnobrand, hmw]
      obtain ⟨text, rfl⟩ : ∃ text, brandId = some text := by
        cases brandId with
        | none => exact absurd rfl hnobrand
        | some text => exact ⟨text, rfl⟩
      rw [Option.getD_some] at hnobrand
      cases hparseb : Uuid.parse text with
      | none =>
        refine .raised ?_ (.inr ⟨hnobrand, hparseb⟩) ?_
        · simp only [checkSwitch, if_neg hblank, uuidFilter, hparse, bind, Except.bind, hfound,
            Option.getD_some, if_neg hnobrand, hparseb]
        · simp [Readable, hblank, hparse, hfound, hnobrand, hparseb]
      | some b =>
        by_cases hhas : hasBrand w b s = true
        · refine .branded hblank hparse hfound rfl hnobrand hparseb hhas ?_
          simp only [checkSwitch, if_neg hblank, uuidFilter, hparse, bind, Except.bind, hfound,
            Option.getD_some, if_neg hnobrand, hparseb, hmw, hhas, if_true]
        · refine .refused (e := .notFound) ?_ (.inr rfl)
            (.inr ⟨w, hparse, .inr (.inr ⟨b, hparseb, .inl (by simpa using hhas)⟩)⟩)
          simp only [checkSwitch, if_neg hblank, uuidFilter, hparse, bind, Except.bind, hfound,
            Option.getD_some, if_neg hnobrand, hparseb, hmw, if_neg hhas]

end Switch

/-- **Switching selects exactly what was asked for when the texts are readable**: a malformed text
raises instead of being refused, and a brand that is not written in its canonical form is lost. -/
theorem switches_iff {users : Table User} {user : User} {session₀ session : Session} {s : Store}
    {principal : RelayPrincipal} {workspaceId brandId : Option String} (mem : user ∈ users)
    (loggedIn : session₀.authUserId = some user.id)
    (authenticated : session₀.panelPrincipal user.id s = .ok (principal, session)) :
    Switches users user.id principal workspaceId brandId session s ↔
      Readable principal.subject s workspaceId brandId := by
  have hresolved := resolved_of_ok authenticated
  have hloggedIn : session.authUserId = some user.id := by rw [hresolved.named, ← loggedIn]
  have hrefused : ∀ e, checkSwitch principal.subject workspaceId brandId s = .error e →
      panelWorkspace users principal workspaceId brandId session s = (.error e, session) := by
    intro e he
    simp only [panelWorkspace, he]
  unfold Switches
  cases checkSwitch_cases principal.subject s workspaceId brandId with
  | refused check status readable =>
    rw [hrefused _ check]
    exact iff_of_true (.inl ⟨⟨_, rfl, status⟩, rfl⟩) readable
  | raised check malformed unreadable =>
    rw [hrefused _ check]
    refine iff_of_false ?_ unreadable
    rintro (⟨⟨e, he, hstatus⟩, -⟩ | ⟨w, hw, p, session', -, -, hbrand⟩)
    · cases he
      simp [PanelError.status] at hstatus
    · rcases malformed with hnone | ⟨hne, hnone⟩
      · rw [hnone] at hw
        cases hw
      · rw [if_neg hne, hnone] at hbrand
        obtain ⟨b, hb, -⟩ := hbrand
        cases hb
  | @unbranded w m t named found blank check =>
    obtain ⟨-, p, session', hp, hpw, hbrands, hactive⟩ :=
      panelWorkspace_selects mem hloggedIn hresolved.subject found check
    refine iff_of_true (.inr ⟨w, named, p, session', hp, hpw, ?_⟩) (.inr ⟨w, named, .inr (.inl blank)⟩)
    rw [if_pos blank, hbrands, hactive]
    -- no brand is stored, so none is found by its text
    have hfind : (brandsByName w s).find? (Session.namesBrand
        ⟨some user.id, some (.str w.text), none⟩) = none :=
      List.find?_eq_none.2 fun b _ => by simp [Session.namesBrand]
    show ((brandsByName w s).find? _).or _ = _
    rw [Option.map_none, hfind, Option.none_or]
  | @branded w b m t text nonblank named found given text_ne brand ofWorkspace check =>
    subst given
    obtain ⟨herror, p, session', hp, hpw, hbrands, hactive⟩ :=
      panelWorkspace_selects mem hloggedIn hresolved.subject found check
    have hchoice := activeBrand_iff user.id brand ofWorkspace
    constructor
    · rintro (⟨⟨e, he, hstatus⟩, -⟩ | ⟨w', hw', p', session'', hp', -, hbrand⟩)
      · rw [herror e he] at hstatus
        simp at hstatus
      · rw [hp] at hp'
        cases hp'
        rw [Option.getD_some, if_neg text_ne, hbrands, hactive] at hbrand
        obtain ⟨b', hb', hrow⟩ := hbrand
        rw [brand] at hb'
        cases hb'
        exact .inr ⟨w, named, .inr (.inr ⟨b, brand, .inr (hchoice.1 hrow)⟩)⟩
    · rintro (hblank | ⟨w', hw', hnone | hblank | ⟨b', hb', hof⟩⟩)
      · exact absurd hblank nonblank
      · rw [named] at hw'
        cases hw'
        rw [found] at hnone
        cases hnone
      · exact absurd hblank text_ne
      · rw [named] at hw'
        cases hw'
        rw [Option.getD_some, brand] at hb'
        cases hb'
        refine .inr ⟨w, named, p, session', hp, hpw, ?_⟩
        rw [Option.getD_some, if_neg text_ne, hbrands, hactive]
        exact ⟨b, brand, hchoice.2 (hof.resolve_left (by simp [ofWorkspace]))⟩

namespace Sample

theorem jorge_member : findMembership (panelSubject 1) workspace shop =
    some (⟨.ofNat 3, workspace, panelSubject 1, .owner, true⟩, ⟨workspace, "Studio", true⟩) := by
  decide +kernel

/-- The upper-case spelling of the second brand passes the checks. -/
theorem upper_checked : checkSwitch (panelSubject 1) (some workspace.text)
    (some "00000000-0000-0000-0000-00000000000B") shop =
      .ok (workspace, some "00000000-0000-0000-0000-00000000000B") := by
  decide +kernel

end Sample

/-- A switch to the workspace, without a brand. -/
theorem switches_iff_sample : ∃ principal session,
    Switches Sample.panelUsers 1 principal (some Sample.workspace.text) none session Sample.shop := by
  obtain ⟨principal, session, h⟩ := Sample.browser_resolves
  refine ⟨principal, session,
    (switches_iff (show Sample.jorge ∈ Sample.panelUsers from List.mem_cons_self) rfl h).2
      (.inr ⟨Sample.workspace, ?_, ?_⟩)⟩
  · exact Uuid.parse_text _
  · exact .inr (.inl rfl)

/-- The second brand, in upper case: the session names it, and shows the first one. -/
theorem not_switches : ¬ ∀ (users : Table User) (user : User) (session₀ session : Session) (s : Store)
    (principal : RelayPrincipal) (workspaceId brandId : Option String), user ∈ users →
    session₀.authUserId = some user.id →
    session₀.panelPrincipal user.id s = .ok (principal, session) →
    Switches users user.id principal workspaceId brandId session s := by
  intro h
  have hupper : Uuid.parse "00000000-0000-0000-0000-00000000000B" = some Sample.laterBrand.id := by
    decide +kernel
  obtain ⟨principal, session, hresolved⟩ := Sample.browser_resolves
  have hsubject := (resolved_of_ok hresolved).subject
  obtain ⟨herror, p, session', hp, -, hbrands, hactive⟩ :=
    panelWorkspace_selects (show Sample.jorge ∈ Sample.panelUsers from List.mem_cons_self)
      (show session.authUserId = some Sample.jorge.id by rw [(resolved_of_ok hresolved).named]; rfl) hsubject
      (by rw [hsubject]; exact Sample.jorge_member) (by rw [hsubject]; exact Sample.upper_checked)
  have hfirst : (brandsByName Sample.workspace Sample.shop).head?.map (·.id) = some Sample.brand := by
    decide +kernel
  rcases h Sample.panelUsers Sample.jorge Sample.browser session Sample.shop principal
    (some Sample.workspace.text) (some "00000000-0000-0000-0000-00000000000B") List.mem_cons_self rfl
    hresolved with ⟨⟨e, he, hstatus⟩, -⟩ | ⟨w, -, p', session'', hp', -, hbrand⟩
  · rw [herror e he] at hstatus
    simp at hstatus
  · rw [hp] at hp'
    cases hp'
    rw [Option.getD_some, if_neg (by decide), hupper, hbrands, hactive] at hbrand
    obtain ⟨b, hb, hrow⟩ := hbrand
    cases hb
    -- the stored text is not the canonical one, so only the first brand could be chosen
    rcases (activeBrand_iff _ hupper (by decide +kernel)).1 hrow with htext | ⟨row, hrow, hid⟩
    · exact absurd htext (by decide +kernel)
    · rw [hrow, Option.map_some, hid] at hfirst
      exact absurd hfirst (by decide)

end Relay
