import Relay.Deactivation
import Relay.Directory
import Relay.OwnContent

/-!
# Administration while the relay runs

Administrators set up workspaces and brands, issue credentials and revoke connections next to each
other and to the relay.

* `office`: the relay with every command, any number of runs of each under way;
* `Directory.Step`, `bookkeeping`: what the commands do by names alone, `Directory.lives`;
* `administration_refines`: every run of the office is, by names, a run of the directory.
-/

namespace Relay

open Relational Sequence Transition

/-! ### The relay with its commands -/

/-- The relay and the runs of the commands. -/
structure Office where
  managed : Managed
  slugs : Slugs
  provisions : ℕ → Option Provision

inductive OfficeLabel
  /-- the relay, or `revoke_promoted_meta_connections` -/
  | managed (label : ManagedLabel)
  /-- `provision_content_workspace` begins, with a new identifier at hand -/
  | provision (run : ℕ) (id : Uuid) (options : ProvisionOptions)
  /-- it goes on to its next commit, for the users there are -/
  | proceed (run : ℕ) (id : Uuid) (users : Table User)
  /-- it stops where it is -/
  | stop (run : ℕ)
  /-- `issue_draft_ingest_token` -/
  | issue (options : IngestOptions) (id jti : Uuid)
  /-- `list_brand_connections` -/
  | list (workspaceSlug brandSlug : String)

inductive OfficeOutput
  | managed (output : ManagedOutput)
  | printed (line : SavedLine)
  | failed (failure : ProvisionFailure)
  /-- a run of the command has done all -/
  | done
  /-- the claims of the token that is printed -/
  | issued (result : Except IngestFailure (List (String × Json)))
  | listed (result : Except CommandFailure Listing)
  | silent

namespace Office

/-- The tables and the slugs. -/
def registry (o : Office) : Registry := ⟨o.managed.sys.store, o.slugs⟩

/-- A commit of a command. -/
def write (o : Office) (r : Registry) : Office :=
  { o with managed := { o.managed with sys := { o.managed.sys with store := r.store } }, slugs := r.slugs }

/-- What a run of the command becomes. -/
def setProvision (o : Office) (k : ℕ) (p : Option Provision) : Office :=
  { o with provisions := Function.update o.provisions k p }

/-- A run of the command commits, or ends. -/
def commit (o : Office) (k : ℕ) :
    Except ProvisionFailure (SavedLine × Provision × Registry) → Office × OfficeOutput
  | .error e => (o.setProvision k none, .failed e)
  | .ok (line, p, r) => ((o.write r).setProvision k (some p), .printed line)

end Office

/-- One step, if the label applies. -/
def officeNext (env : Env) (publisher : Option Publisher) (jwt : JwtSettings) (o : Office) :
    OfficeLabel → Option (Office × OfficeOutput)
  | .managed l =>
    (managedNext env publisher o.slugs o.managed l).map fun x => ({ o with managed := x.1 }, .managed x.2)
  | .provision k id options =>
    if (o.provisions k).isSome then none
    else some (o.commit k (beginProvision id options o.registry))
  | .proceed k id users =>
    (o.provisions k).map fun p =>
      match p.next env id users o.registry with
      | none => (o.setProvision k none, .done)
      | some result => o.commit k result
  | .stop k => some (o.setProvision k none, .silent)
  | .issue options id jti =>
    match issueDraftIngestToken o.slugs jwt o.managed.sys.clock id jti options o.managed.sys.store with
    | .error e => some (o, .issued (.error e))
    | .ok (claims, store) => some (o.write ⟨store, o.slugs⟩, .issued (.ok claims))
  | .list workspaceSlug brandSlug =>
    some (o, .listed (listBrandConnections o.slugs workspaceSlug brandSlug o.managed.sys.store))

/-! ### Runs of the directory -/

/-- The output tells of no change of the directory. -/
def OfficeOutput.quiet : OfficeOutput → Bool
  | printed _ => false
  | issued _ => false
  | _ => true

/-- What a step of the office does to the directory. -/
inductive Directory.Step (jwt : JwtSettings) : Directory → OfficeLabel × OfficeOutput → Directory → Prop
  | quiet {d : Directory} {e : OfficeLabel × OfficeOutput} (quiet : e.2.quiet = true) : Step jwt d e d
  | workspace {d : Directory} {k : ℕ} {new i : Uuid} {o : ProvisionOptions} {created : Bool}
      {workspaces : Book String Uuid (String × Bool)}
      (writes : d.workspaces.Writes o.workspaceSlug i (o.workspaceName, true) created workspaces) :
      Step jwt d
        (.provision k new o, .printed ⟨.workspace o.workspaceSlug o.workspaceName, created, i⟩)
        { d with workspaces }
  | brand {d : Directory} {k : ℕ} {new i : Uuid} {users : Table User} {w slug name : String} {created : Bool}
      {brands : Book (String × String) Uuid (String × Bool)} (known : (d.workspaces w).isSome)
      (writes : d.brands.Writes (w, slug) i (name, true) created brands) :
      Step jwt d (.proceed k new users, .printed ⟨.brand w slug name, created, i⟩) { d with brands }
  | owner {d : Directory} {k : ℕ} {new i : Uuid} {users : Table User} {w : String} {user : User}
      {created : Bool} {members : Book (String × String) Uuid (MembershipRole × Bool)}
      (mem : user ∈ users) (known : (d.workspaces w).isSome)
      (writes : d.members.Writes (w, panelSubject user.id) i (.owner, true) created members) :
      Step jwt d (.proceed k new users, .printed ⟨.owner w user, created, i⟩) { d with members }
  | issued {d : Directory} {o : IngestOptions} {new jti i : Uuid} {now : Time} {created : Bool}
      {brand : Brand} {name title : String}
      {members : Book (String × String) Uuid (MembershipRole × Bool)}
      (accepted : d.refusal o = none)
      (workspace : d.workspaces o.workspaceSlug = some (brand.workspace, name, true))
      (found : d.brands (o.workspaceSlug, o.brandSlug) = some (brand.id, title, true))
      (writes : d.members.Writes (o.workspaceSlug, o.subject) i (.contentCreator, true) created members) :
      Step jwt d (.issue o new jti, .issued (.ok (ingestClaims jwt now jti brand o))) { d with members }
  | refused {d : Directory} {o : IngestOptions} {new jti : Uuid} {e : IngestFailure}
      (reason : d.refusal o = some e ∨ d.refusal o = none ∧ ∃ error, e = .database error) :
      Step jwt d (.issue o new jti, .issued (.error e)) d

/-- What stands under a name stays active. -/
def StaysActive (v v' : String × Bool) : Prop := v.2 = true → v'.2 = true

/-- A member stays active and keeps the role, or becomes an owner. -/
def StaysMember (v v' : MembershipRole × Bool) : Prop :=
  (v.2 = true → v'.2 = true) ∧ (v'.1 = v.1 ∨ v'.1 = .owner)

theorem StaysMember.trans {a b c : MembershipRole × Bool} (h : StaysMember a b) (k : StaysMember b c) :
    StaysMember a c := by
  refine ⟨fun ha => k.1 (h.1 ha), ?_⟩
  rcases k.2 with hrole | hrole
  · rw [hrole]
    exact h.2
  · exact .inr hrole

/-- What any later directory keeps of a directory. -/
structure Directory.Lives (d d' : Directory) : Prop where
  workspaces : d.workspaces.Lives StaysActive d'.workspaces
  brands : d.brands.Lives StaysActive d'.brands
  members : d.members.Lives StaysMember d'.members

namespace Directory

variable {jwt : JwtSettings} {d d' d'' : Directory} {e : OfficeLabel × OfficeOutput}

theorem Lives.refl (d : Directory) : d.Lives d where
  workspaces := .refl (fun _ => id) _
  brands := .refl (fun _ => id) _
  members := .refl (fun _ => ⟨id, .inl rfl⟩) _

theorem Lives.trans (h : d.Lives d') (k : d'.Lives d'') : d.Lives d'' where
  workspaces := h.workspaces.trans (fun hab hbc ha => hbc (hab ha)) k.workspaces
  brands := h.brands.trans (fun hab hbc ha => hbc (hab ha)) k.brands
  members := h.members.trans StaysMember.trans k.members

/-- Every step keeps identifiers and activity. -/
theorem Step.lives (h : Step jwt d e d') : d.Lives d' := by
  cases h with
  | quiet => exact .refl d
  | refused => exact .refl d
  | workspace writes =>
    exact { Lives.refl d with workspaces := writes.lives (fun _ => id) fun _ _ _ => rfl }
  | brand _ writes =>
    exact { Lives.refl d with brands := writes.lives (fun _ => id) fun _ _ _ => rfl }
  | owner _ _ writes =>
    exact { Lives.refl d with
      members := writes.lives (fun _ => ⟨id, .inl rfl⟩) fun _ _ => ⟨fun _ => rfl, .inr rfl⟩ }
  | issued accepted _ _ writes =>
    have hcreator := (refusal_eq_none.1 accepted).2.2
    exact { Lives.refl d with
      members := writes.lives (fun _ => ⟨id, .inl rfl⟩) fun c hc =>
        ⟨fun _ => rfl, .inl (hcreator _ hc).symm⟩ }

/-- What a line tells is there. -/
def Shows (d : Directory) (line : SavedLine) : Prop :=
  match line.saved with
  | .workspace slug name => d.workspaces slug = some (line.id, name, true)
  | .brand workspaceSlug slug name => d.brands (workspaceSlug, slug) = some (line.id, name, true)
  | .owner workspaceSlug user =>
    d.members (workspaceSlug, panelSubject user.id) = some (line.id, .owner, true)

/-- What is printed is there. -/
theorem Step.shows {l : OfficeLabel} {line : SavedLine} (h : Step jwt d (l, .printed line) d') :
    d'.Shows line := by
  cases h with
  | quiet hquiet => cases hquiet
  | workspace writes => exact writes.found
  | brand _ writes => exact writes.found
  | owner _ _ writes => exact writes.found

/-- What a credential that is issued is for. -/
theorem Step.credential {o : IngestOptions} {new jti : Uuid} {claims : List (String × Json)}
    (h : Step jwt d (.issue o new jti, .issued (.ok claims)) d') :
    ∃ brand now name title i, claims = ingestClaims jwt now jti brand o ∧
      d'.workspaces o.workspaceSlug = some (brand.workspace, name, true) ∧
      d'.brands (o.workspaceSlug, o.brandSlug) = some (brand.id, title, true) ∧
      d'.members (o.workspaceSlug, o.subject) = some (i, .contentCreator, true) := by
  cases h with
  | quiet hquiet => cases hquiet
  | issued _ workspace found writes => exact ⟨_, _, _, _, _, rfl, workspace, found, writes.found⟩

end Directory

/-- The runs of the directory. -/
def bookkeeping (jwt : JwtSettings) : Machine Directory (OfficeLabel × OfficeOutput) where
  start _ := True
  step := Directory.Step jwt

/-- Along a run of the directory it lives on. -/
theorem Directory.lives {jwt : JwtSettings} {d d' : Directory} {es : List (OfficeLabel × OfficeOutput)}
    (h : Trail (bookkeeping jwt) d es d') : d.Lives d' :=
  h.relates (I := fun _ => True) Lives.refl Lives.trans (fun _ _ _ _ _ => trivial)
    (fun d e d' _ hstep => (show Directory.Step jwt d e d' from hstep).lives) trivial

/-! ### Every run -/

/-- The directory of the office. -/
def Office.directory (o : Office) : Directory := o.registry.directory

/-- The constraints hold, and what runs of the command have saved is there. -/
structure Office.Valid (o : Office) : Prop where
  registry : o.registry.Valid
  provisions : ∀ k p, o.provisions k = some p →
    ∃ v, o.directory.workspaces p.workspaceSlug = some (p.workspace, v)

/-- The office, from tables that meet the constraints. -/
def office (env : Env) (publisher : Option Publisher) (jwt : JwtSettings) :
    Machine Office (OfficeLabel × OfficeOutput) :=
  .ofLabels (fun o => ∃ m slugs, (managed env publisher slugs).start m ∧ o = ⟨m, slugs, fun _ => none⟩ ∧
    o.registry.Valid) (officeNext env publisher jwt)

section Run

variable {env : Env} {publisher : Option Publisher} {jwt : JwtSettings} {o o' : Office}

/-- The relay and the revocations let workspaces, brands and members be. -/
theorem managedNext_rows {slugs : Slugs} {m m' : Managed} {l : ManagedLabel} {out : ManagedOutput}
    (h : managedNext env publisher slugs m l = some (m', out)) :
    m'.sys.store.tenants = m.sys.store.tenants ∧ m'.sys.store.brands = m.sys.store.brands ∧
      m'.sys.store.memberships = m.sys.store.memberships := by
  have hevolves := managedNext_evolves h
  exact ⟨hevolves.tenants, hevolves.brands, hevolves.memberships⟩

/-- Such a step is of no concern for the directory. -/
theorem Registry.frame {r r' : Registry} (hslugs : r'.slugs = r.slugs)
    (hrows : r'.store.tenants = r.store.tenants ∧ r'.store.brands = r.store.brands ∧
      r'.store.memberships = r.store.memberships) :
    (r.Valid → r'.Valid) ∧ r'.directory = r.directory := by
  obtain ⟨htenants, hbrands, hmemberships⟩ := hrows
  obtain ⟨hcolumn, hworkspaces⟩ := workspaces_congr htenants (congrArg Slugs.workspace hslugs)
  obtain ⟨hcolumns, hbooks⟩ := brands_congr hbrands (congrArg Slugs.brand hslugs)
  constructor
  · intro valid
    refine ⟨?_, ?_, hmemberships ▸ valid.members, ?_, ?_⟩
    · rw [hcolumn, htenants]
      exact valid.workspaces
    · rw [hcolumns, hbrands]
      exact valid.brands
    · rw [hbrands, htenants]
      exact valid.brandOf
    · rw [hmemberships, htenants]
      exact valid.memberOf
  · unfold directory
    rw [hworkspaces, hbooks, members_congr hmemberships]

/-- A commit of a command, after which its run stands at `p`. -/
theorem Office.Valid.commit (valid : o.Valid) {r : Registry} (hr : r.Valid)
    (lives : o.directory.Lives r.directory) {k : ℕ} {p : Option Provision}
    (saved : ∀ q, p = some q → ∃ v, r.directory.workspaces q.workspaceSlug = some (q.workspace, v)) :
    ((o.write r).setProvision k p).Valid where
  registry := hr
  provisions k' q hq := by
    have hset : Function.update o.provisions k p k' = some q := hq
    by_cases hk : k' = k
    · subst hk
      rw [Function.update_self] at hset
      exact saved q hset
    · rw [Function.update_of_ne hk] at hset
      obtain ⟨v, hv⟩ := valid.provisions k' q hset
      obtain ⟨v', hv', -⟩ := lives.workspaces _ _ _ hv
      exact ⟨v', hv'⟩

/-- A run of the command that ends. -/
theorem Office.Valid.end (valid : o.Valid) (k : ℕ) : (o.setProvision k none).Valid :=
  valid.commit valid.registry (.refl _) fun _ hq => by cases hq

/-- The first commit of the command. -/
theorem provision_step (valid : o.Valid) {k : ℕ} {id : Uuid} {options : ProvisionOptions}
    {line : SavedLine} {p : Provision} {r : Registry}
    (h : beginProvision id options o.registry = .ok (line, p, r)) :
    ((o.write r).setProvision k (some p)).Valid ∧
      Directory.Step jwt o.directory (.provision k id options, .printed line) r.directory := by
  obtain ⟨⟨⟨w, created⟩, r⟩, hupsert, heq⟩ := bind_eq_ok.1 h
  cases heq
  obtain ⟨hr, hwrites, hframe⟩ := Registry.upsertWorkspace_writes valid.registry hupsert
  have hstep : Directory.Step jwt o.directory (.provision k id options,
      .printed ⟨.workspace options.workspaceSlug options.workspaceName, created, w.id⟩) r.directory := by
    rw [hframe]
    exact .workspace hwrites
  exact ⟨valid.commit hr hstep.lives fun q hq => by cases hq; exact ⟨_, hwrites.found⟩, hstep⟩

/-- The commits that follow. -/
theorem proceed_step (valid : o.Valid) {k : ℕ} {id : Uuid} {users : Table User} {p p' : Provision}
    {line : SavedLine} {r : Registry} (hp : o.provisions k = some p)
    (h : p.next env id users o.registry = some (.ok (line, p', r))) :
    ((o.write r).setProvision k (some p')).Valid ∧
      Directory.Step jwt o.directory (.proceed k id users, .printed line) r.directory := by
  obtain ⟨v, hv⟩ := valid.provisions k p hp
  obtain ⟨w, hw, hslug, hid, -⟩ := valid.registry.workspaces.book_eq_some.1 hv
  change w.id = p.workspace at hid
  have hknown : (o.directory.workspaces p.workspaceSlug).isSome := by rw [hv]; rfl
  unfold Provision.next at h
  split at h
  · rename_i raw rest hbrands
    obtain ⟨⟨slug, name⟩, hparse, h⟩ := bind_eq_ok.1 (Option.some.inj h)
    obtain ⟨⟨⟨b, created⟩, r⟩, hupsert, heq⟩ := bind_eq_ok.1 h
    cases heq
    rw [← hid] at hupsert
    obtain ⟨hr, hwrites, hframe⟩ := Registry.upsertBrand_writes valid.registry hw hupsert
    rw [hslug] at hwrites
    have hstep : Directory.Step jwt o.directory (.proceed k id users,
        .printed ⟨.brand p.workspaceSlug slug name, created, b.id⟩) r.directory := by
      rw [hframe]
      exact .brand hknown hwrites
    refine ⟨valid.commit hr hstep.lives fun q hq => ?_, hstep⟩
    cases hq
    obtain ⟨v', hv', -⟩ := hstep.lives.workspaces _ _ _ hv
    exact ⟨v', hv'⟩
  · split at h
    · cases h
    split at h
    · cases h
    rename_i username howner hne
    have hnext := Option.some.inj h
    unfold Provision.nextOwner at hnext
    split at hnext
    · cases hnext
    rename_i user huser
    obtain ⟨⟨⟨m, created⟩, r⟩, hupsert, heq⟩ := bind_eq_ok.1 hnext
    cases heq
    rw [← hid] at hupsert
    obtain ⟨hr, hwrites, hframe⟩ := Registry.upsertOwner_writes valid.registry hw hupsert
    rw [hslug] at hwrites
    have hstep : Directory.Step jwt o.directory (.proceed k id users,
        .printed ⟨.owner p.workspaceSlug user, created, m.id⟩) r.directory := by
      rw [hframe]
      exact .owner (Table.mem_of_find? huser) hknown hwrites
    refine ⟨valid.commit hr hstep.lives fun q hq => ?_, hstep⟩
    cases hq
    obtain ⟨v', hv', -⟩ := hstep.lives.workspaces _ _ _ hv
    exact ⟨v', hv'⟩

/-- **What one step of the office does to the directory.** -/
theorem office_step (valid : o.Valid) {l : OfficeLabel} {out : OfficeOutput}
    (h : officeNext env publisher jwt o l = some (o', out)) :
    o'.Valid ∧ Directory.Step jwt o.directory (l, out) o'.directory := by
  cases l with
  | managed l =>
    obtain ⟨⟨m, output⟩, hnext, heq⟩ := Option.map_eq_some_iff.1 h
    cases heq
    obtain ⟨hvalid, hdirectory⟩ : (o.registry.Valid → (⟨m, o.slugs, o.provisions⟩ : Office).registry.Valid) ∧
        (⟨m, o.slugs, o.provisions⟩ : Office).directory = o.directory :=
      Registry.frame rfl (managedNext_rows hnext)
    refine ⟨⟨hvalid valid.registry, ?_⟩, ?_⟩
    · rw [hdirectory]
      exact valid.provisions
    · rw [hdirectory]
      exact .quiet rfl
  | provision k id options =>
    simp only [officeNext, Option.ite_none_left_eq_some, Option.some.injEq] at h
    obtain ⟨-, h⟩ := h
    cases hbegin : beginProvision id options o.registry with
    | error e =>
      rw [hbegin] at h
      cases h
      exact ⟨valid.end k, .quiet rfl⟩
    | ok x =>
      obtain ⟨line, p, r⟩ := x
      rw [hbegin] at h
      cases h
      exact provision_step valid hbegin
  | proceed k id users =>
    obtain ⟨p, hp, h⟩ := Option.map_eq_some_iff.1 h
    cases hnext : p.next env id users o.registry with
    | none =>
      simp only [hnext] at h
      cases h
      exact ⟨valid.end k, .quiet rfl⟩
    | some result =>
      simp only [hnext] at h
      cases result with
      | error e =>
        cases h
        exact ⟨valid.end k, .quiet rfl⟩
      | ok x =>
        obtain ⟨line, p', r⟩ := x
        cases h
        exact proceed_step valid hp hnext
  | stop k =>
    cases h
    exact ⟨valid.end k, .quiet rfl⟩
  | issue options id jti =>
    simp only [officeNext] at h
    split at h
    · rename_i e hissue
      cases h
      exact ⟨valid, .refused (o.registry.issue_error valid.registry hissue)⟩
    · rename_i claims store hissue
      cases h
      obtain ⟨hvalid, haccepted, brand, i, name, title, created, hworkspace, hbrand, hwrites, hframe, rfl⟩ :=
        o.registry.issue_ok valid.registry hissue
      have hstep : Directory.Step jwt o.directory
          (.issue options id jti, .issued (.ok (ingestClaims jwt o.managed.sys.clock jti brand options)))
          (o.write ⟨store, o.slugs⟩).directory := by
        change Directory.Step jwt _ _ (⟨store, o.registry.slugs⟩ : Registry).directory
        rw [hframe]
        exact .issued haccepted hworkspace hbrand hwrites
      refine ⟨⟨hvalid, fun k p hp => ?_⟩, hstep⟩
      obtain ⟨v, hv⟩ := valid.provisions k p hp
      obtain ⟨v', hv', -⟩ := hstep.lives.workspaces _ _ _ hv
      exact ⟨v', hv'⟩
  | list workspaceSlug brandSlug =>
    cases h
    exact ⟨valid, .quiet rfl⟩

/-- Every run of the office is one of the directory. -/
theorem administration_refines_trail (valid : o.Valid) {es : List (OfficeLabel × OfficeOutput)}
    (h : Trail (office env publisher jwt) o es o') :
    o'.Valid ∧ Trail (bookkeeping jwt) o.directory es o'.directory := by
  induction h with
  | stay => exact ⟨valid, .stay _⟩
  | move head _ ih =>
    obtain ⟨hvalid, hstep⟩ := office_step valid head
    obtain ⟨hvalid', htrail⟩ := ih hvalid
    exact ⟨hvalid', .move hstep htrail⟩

/-- **Administration refines the directory**: every run of the office is, by names, a run of the
directory, which shows the same and in which names keep their identifiers. -/
theorem administration_refines (valid : o.Valid) {es : List (OfficeLabel × OfficeOutput)}
    (h : Trail (office env publisher jwt) o es o') :
    o'.Valid ∧ Trail (bookkeeping jwt) o.directory es o'.directory ∧ o.directory.Lives o'.directory := by
  obtain ⟨hvalid, htrail⟩ := administration_refines_trail valid h
  exact ⟨hvalid, htrail, Directory.lives htrail⟩

end Run

namespace Sample

/-- The users of the project. -/
def officeUsers : Table User := ⟨[⟨1, "jorge", "", true⟩], by decide⟩

/-- An office without workspaces. -/
def emptyOffice : Office :=
  ⟨⟨.initial ∅ ∅ ∅ 0, fun _ => none⟩, ⟨fun _ => "", fun _ => ""⟩, fun _ => none⟩

theorem emptyOffice_valid : emptyOffice.Valid where
  registry := ⟨Table.Unique.empty, Table.Unique.empty, Table.Unique.empty, fun _ hb => absurd hb
    (Table.not_mem_empty _), fun _ hm => absurd hm (Table.not_mem_empty _)⟩
  provisions _ _ hp := by cases hp

/-- A workspace with two brands and an owner. -/
def provisionOptions : ProvisionOptions :=
  ⟨"alya-content", "AleyaCloud", ["aleyacloud:AleyaCloud", "tavisasuite: TavisaSuite"], some "jorge"⟩

/-- The command, to its end. -/
def provisioning : List OfficeLabel :=
  [.provision 0 (.ofNat 1) provisionOptions, .proceed 0 (.ofNat 2) officeUsers,
    .proceed 0 (.ofNat 3) officeUsers, .proceed 0 (.ofNat 4) officeUsers,
    .proceed 0 (.ofNat 5) officeUsers]

/-- The options of a credential for one of the brands. -/
def ingestOptions : IngestOptions := ⟨"alya-content", "tavisasuite", "task:content", 14, .schedule⟩

/-- A credential is issued. -/
def issues (e : OfficeLabel × OfficeOutput) : Bool :=
  match e.2 with
  | .issued (.ok _) => true
  | _ => false

end Sample

/-- A workspace is set up and a credential issued for one of its brands. -/
theorem administration_refines_sample : ∃ (es : List (OfficeLabel × OfficeOutput)) (o' : Office),
    es.any Sample.issues = true ∧ o'.Valid ∧
    Trail (bookkeeping Sample.jwt) Sample.emptyOffice.directory es o'.directory := by
  obtain ⟨es, o', run, -, hissued⟩ := exists_of_runLabels
    (show ((runLabels (officeNext Sample.env none Sample.jwt) (fun _ _ => true)
      (Sample.provisioning ++ [.issue Sample.ingestOptions (.ofNat 6) (.ofNat 7)])
      Sample.emptyOffice).any fun x => x.1.any Sample.issues) = true by decide +kernel)
  obtain ⟨hvalid, htrail, -⟩ := administration_refines Sample.emptyOffice_valid run.of_guarded
  exact ⟨es, o', hissued, hvalid, htrail⟩

end Relay
