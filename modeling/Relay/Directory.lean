import Relay.Library.Book
import Relay.Model.Administration

/-!
# The directory of workspaces, brands and members

Whatever the commands of administrators do to rows, what it comes to is told by names: which
workspaces there are, which brands they have and who belongs to them.

* `Directory`: what there is, by names; `Directory.refusal`: why a credential is refused;
* `Registry.directory`, `Registry.Valid`: the directory of the tables, which the constraints make one;
* `Registry.upsertWorkspace_writes` and its companions: each upsert writes one entry;
* `Registry.issue_ok`, `Registry.issue_error`, `Registry.issue_error_iff`: what issuing a credential
  does by names.
-/

namespace Relay

open Relational

/-! ### The directory -/

/-- Workspaces, brands and members by name: with its identifier, a workspace or a brand has its name
and whether it is active, a member a role and whether it is active. -/
structure Directory where
  workspaces : Book String Uuid (String × Bool)
  brands : Book (String × String) Uuid (String × Bool)
  members : Book (String × String) Uuid (MembershipRole × Bool)

namespace Directory

/-- Workspace and brand are active. -/
def active (d : Directory) (workspaceSlug brandSlug : String) : Bool :=
  ((d.workspaces workspaceSlug).any fun e => e.2.2) &&
    (d.brands (workspaceSlug, brandSlug)).any fun e => e.2.2

/-- Why a credential is refused. -/
def refusal (d : Directory) (o : IngestOptions) : Option IngestFailure :=
  if ¬ (1 ≤ o.days ∧ o.days ≤ 30) then
    some (.command (.commandError "--days must be between 1 and 30."))
  else if ¬ d.active o.workspaceSlug o.brandSlug then
    some (.command (.commandError "Active workspace/brand combination was not found."))
  else if (d.members (o.workspaceSlug, o.subject)).any fun e => e.2.1 ≠ .contentCreator then
    some (.command (.commandError ("The supplied subject already belongs to this workspace " ++
      "with a different role. Use a dedicated task: subject.")))
  else none

variable {d : Directory}

/-- When no reason speaks against a credential. -/
theorem refusal_eq_none {o : IngestOptions} : d.refusal o = none ↔
    (1 ≤ o.days ∧ o.days ≤ 30) ∧ d.active o.workspaceSlug o.brandSlug = true ∧
      ∀ e, d.members (o.workspaceSlug, o.subject) = some e → e.2.1 = .contentCreator := by
  unfold refusal
  split
  · rename_i hdays
    exact ⟨fun h => (Option.some_ne_none _ h).elim, fun h => absurd h.1 hdays⟩
  rename_i hdays
  split
  · rename_i hactive
    exact ⟨fun h => (Option.some_ne_none _ h).elim, fun h => absurd h.2.1 hactive⟩
  rename_i hactive
  split
  · rename_i hother
    obtain ⟨e, he, hrole⟩ := Option.any_eq_true _ _ |>.1 hother
    exact ⟨fun h => (Option.some_ne_none _ h).elim, fun h => absurd (h.2.2 e he) (of_decide_eq_true hrole)⟩
  · rename_i hother
    refine ⟨fun _ => ⟨not_not.1 hdays, not_not.1 hactive, fun e he => ?_⟩, fun _ => rfl⟩
    by_contra hrole
    exact hother (Option.any_eq_true _ _ |>.2 ⟨e, he, decide_eq_true hrole⟩)

end Directory

/-! ### The directory of the tables -/

namespace Registry

/-- The columns by which workspaces are looked up. -/
def workspaceColumn (r : Registry) (w : Tenant) : String := r.slugs.workspace w.id

def brandColumns (r : Registry) (b : Brand) : Uuid × String := (b.workspace, r.slugs.brand b.id)

/-- What the tables tell by the slugs of workspaces. -/
def workspaces (r : Registry) : Book String Uuid (String × Bool) :=
  r.store.tenants.book r.workspaceColumn fun w => (w.name, w.isActive)

/-- The same within workspaces, by their identifiers. -/
def brands (r : Registry) : Book (Uuid × String) Uuid (String × Bool) :=
  r.store.brands.book r.brandColumns fun b => (b.name, b.isActive)

def members (r : Registry) : Book (Uuid × String) Uuid (MembershipRole × Bool) :=
  r.store.memberships.book (fun m => (m.workspace, m.subject)) fun m => (m.role, m.isActive)

/-- What the tables tell by names. -/
def directory (r : Registry) : Directory where
  workspaces := r.workspaces
  brands := .under r.workspaces r.brands
  members := .under r.workspaces r.members

/-- The constraints and foreign keys of the tables. -/
structure Valid (r : Registry) : Prop where
  workspaces : r.store.tenants.Unique r.workspaceColumn
  brands : r.store.brands.Unique r.brandColumns
  members : r.store.memberships.Unique fun m => (m.workspace, m.subject)
  brandOf : ∀ b ∈ r.store.brands, ∃ w ∈ r.store.tenants, w.id = b.workspace
  memberOf : ∀ m ∈ r.store.memberships, ∃ w ∈ r.store.tenants, w.id = m.workspace

end Registry

section Upserts

/-- What an upsert does to its table. -/
theorem updateOrCreate_eq_ok {ρ : Type} [Keyed ρ Uuid] {t t' : Table ρ} {found : Option ρ} {f : Rewrite ρ}
    {new row : ρ} {fits fitsKey created : Bool}
    (h : updateOrCreate t found f new fits fitsKey = .ok ((row, created), t')) :
    (∃ x, found = some x ∧ row = f x ∧ created = false ∧ t' = t.update (key x) f) ∨
      (found = none ∧ row = new ∧ created = true ∧ t.insert? new = some t') := by
  unfold updateOrCreate at h
  split at h
  · cases h
  split at h
  · cases h
    exact .inl ⟨_, rfl, rfl, rfl, rfl⟩
  · split at h
    · cases h
    split at h
    · rename_i t₁ hcreate
      cases h
      exact .inr ⟨rfl, rfl, rfl, create_eq_ok.1 hcreate⟩
    · cases h

/-- An upsert by unique columns writes one entry of the book, where the columns of a new row may be
known from then on only. -/
theorem updateOrCreate_writes {ρ α β : Type} [Keyed ρ Uuid] [DecidableEq α] {t t' : Table ρ}
    {columns columns' : ρ → α} {value : ρ → β} {a : α} {b : β} {f : Rewrite ρ} {new row : ρ}
    {fits fitsKey created : Bool}
    (h : updateOrCreate t (t.select columns a) f new fits fitsKey = .ok ((row, created), t'))
    (unique : t.Unique columns) (same : ∀ x, columns (f x) = columns x)
    (old : created = false → columns' = columns)
    (fresh : created = true → columns' new = a ∧ ∀ x : ρ, (key x : Uuid) ≠ key new → columns' x = columns x)
    (rewritten : ∀ x, value (f x) = b) (made : value new = b) :
    t'.Unique columns' ∧
      (t.book columns value).Writes a (key row) b created (t'.book columns' value) := by
  rcases updateOrCreate_eq_ok h with ⟨x, hfound, rfl, rfl, rfl⟩ | ⟨hnone, rfl, rfl, hinsert⟩
  · obtain ⟨hx, rfl⟩ := unique.select_eq_some.1 hfound
    rw [old rfl, f.keeps, ← rewritten x]
    exact ⟨unique.update same, unique.book_update same hx⟩
  · obtain ⟨rfl, hsame⟩ := fresh rfl
    have hrows : ∀ x ∈ t, columns' x = columns x := fun x hx =>
      hsame x (Table.fresh_of_insert? hinsert x hx)
    rw [← made]
    exact ⟨(unique.select_create hinsert hrows hnone).1, unique.book_create hinsert hrows hnone⟩

/-- The rows there were live on in the table, and a new one is the row that is saved. -/
theorem updateOrCreate_keys {ρ : Type} [Keyed ρ Uuid] {t t' : Table ρ} {found : Option ρ} {f : Rewrite ρ}
    {new row : ρ} {fits fitsKey created : Bool}
    (h : updateOrCreate t found f new fits fitsKey = .ok ((row, created), t')) :
    (∀ x ∈ t, ∃ x' ∈ t', (key x' : Uuid) = key x) ∧ ∀ x' ∈ t', x' = new ∨ ∃ x ∈ t, x' = x ∨ x' = f x := by
  rcases updateOrCreate_eq_ok h with ⟨x, -, -, -, rfl⟩ | ⟨-, -, -, hinsert⟩
  · refine ⟨fun y hy => Table.exists_update_of_mem hy, fun y hy => .inr ?_⟩
    obtain ⟨z, hz, rfl⟩ := Table.mem_update.1 hy
    refine ⟨z, hz, ?_⟩
    split
    · exact .inr rfl
    · exact .inl rfl
  · refine ⟨fun y hy => ⟨y, Table.mem_of_mem_insert? hinsert hy, rfl⟩, fun y hy => ?_⟩
    rcases (Table.mem_insert? hinsert).1 hy with hy | rfl
    · exact .inr ⟨y, hy, .inl rfl⟩
    · exact .inl rfl

namespace Registry

variable {r r' : Registry} {id workspace : Uuid} {slug name subject : String} {created : Bool}

/-- A workspace that is unknown has neither brands nor members. -/
theorem Valid.within_none (valid : r.Valid) (h : ∀ w ∈ r.store.tenants, w.id ≠ id) (m : String) :
    r.brands (id, m) = none ∧ r.members (id, m) = none := by
  constructor
  · refine Option.eq_none_iff_forall_not_mem.2 fun ⟨i, v⟩ hi => ?_
    obtain ⟨b, hb, hcolumns, -⟩ := valid.brands.book_eq_some.1 hi
    obtain ⟨w, hw, hid⟩ := valid.brandOf b hb
    exact h w hw (hid.trans (congrArg Prod.fst hcolumns))
  · refine Option.eq_none_iff_forall_not_mem.2 fun ⟨i, v⟩ hi => ?_
    obtain ⟨x, hx, hcolumns, -⟩ := valid.members.book_eq_some.1 hi
    obtain ⟨w, hw, hid⟩ := valid.memberOf x hx
    exact h w hw (hid.trans (congrArg Prod.fst hcolumns))

/-- What the upsert of a workspace changes. -/
theorem upsertWorkspace_eq_ok {w : Tenant} (h : r.upsertWorkspace id slug name = .ok ((w, created), r')) :
    ∃ tenants, updateOrCreate r.store.tenants (r.store.tenants.select r.workspaceColumn slug)
        ⟨fun w => { w with name, isActive := true }, fun _ => rfl⟩ ⟨id, name, true⟩
        (fitsVarchar 200 name) (fitsVarchar 50 slug) = .ok ((w, created), tenants) ∧
      r'.store = { r.store with tenants } ∧ r'.slugs.brand = r.slugs.brand ∧
      r'.slugs.workspace = if created then Function.update r.slugs.workspace id slug else r.slugs.workspace := by
  obtain ⟨⟨⟨w, created⟩, tenants⟩, hupsert, heq⟩ := bind_eq_ok.1 h
  cases heq
  refine ⟨tenants, hupsert, rfl, ?_, ?_⟩
  · cases created <;> rfl
  · cases created <;> rfl

theorem upsertBrand_eq_ok {b : Brand}
    (h : r.upsertBrand id workspace slug name = .ok ((b, created), r')) :
    ∃ brands, updateOrCreate r.store.brands (r.store.brands.select r.brandColumns (workspace, slug))
        ⟨fun b => { b with name, isActive := true }, fun _ => rfl⟩ ⟨id, workspace, name, "UTC", true⟩
        (fitsVarchar 200 name) (fitsVarchar 50 slug) = .ok ((b, created), brands) ∧
      r'.store = { r.store with brands } ∧ r'.slugs.workspace = r.slugs.workspace ∧
      r'.slugs.brand = if created then Function.update r.slugs.brand id slug else r.slugs.brand := by
  obtain ⟨⟨⟨b, created⟩, brands⟩, hupsert, heq⟩ := bind_eq_ok.1 h
  cases heq
  refine ⟨brands, hupsert, rfl, ?_, ?_⟩
  · cases created <;> rfl
  · cases created <;> rfl

/-- Two registries that have the same brands and slugs of brands. -/
theorem brands_congr (hrows : r'.store.brands = r.store.brands) (hslugs : r'.slugs.brand = r.slugs.brand) :
    r'.brandColumns = r.brandColumns ∧ r'.brands = r.brands := by
  have hcolumns : r'.brandColumns = r.brandColumns := by
    funext b
    exact congrArg (Prod.mk b.workspace) (congrFun hslugs b.id)
  exact ⟨hcolumns, by unfold brands; rw [hcolumns, hrows]⟩

theorem workspaces_congr (hrows : r'.store.tenants = r.store.tenants)
    (hslugs : r'.slugs.workspace = r.slugs.workspace) :
    r'.workspaceColumn = r.workspaceColumn ∧ r'.workspaces = r.workspaces := by
  have hcolumns : r'.workspaceColumn = r.workspaceColumn := by
    funext w
    exact congrFun hslugs w.id
  exact ⟨hcolumns, by unfold workspaces; rw [hcolumns, hrows]⟩

theorem members_congr (hrows : r'.store.memberships = r.store.memberships) : r'.members = r.members := by
  unfold members
  rw [hrows]

/-- **The upsert of a workspace** writes one entry of the directory. -/
theorem upsertWorkspace_writes (valid : r.Valid) {w : Tenant}
    (h : r.upsertWorkspace id slug name = .ok ((w, created), r')) :
    r'.Valid ∧ r.workspaces.Writes slug w.id (name, true) created r'.workspaces ∧
      r'.directory = { r.directory with workspaces := r'.workspaces } := by
  obtain ⟨tenants, hupsert, hstore, hbrand, hworkspace⟩ := upsertWorkspace_eq_ok h
  have htenants : r'.store.tenants = tenants := by rw [hstore]
  have hbrands : r'.store.brands = r.store.brands := by rw [hstore]
  have hmemberships : r'.store.memberships = r.store.memberships := by rw [hstore]
  obtain ⟨hkeys, -⟩ := updateOrCreate_keys hupsert
  obtain ⟨hcolumns, hsame⟩ := brands_congr hbrands hbrand
  obtain ⟨hunique, hwrites⟩ : r'.store.tenants.Unique r'.workspaceColumn ∧
      r.workspaces.Writes slug w.id (name, true) created r'.workspaces := by
    unfold workspaces
    rw [htenants]
    refine updateOrCreate_writes hupsert valid.workspaces (fun _ => rfl) (fun hcreated => ?_)
      (fun hcreated => ?_) (fun _ => rfl) rfl
    · funext x
      simp only [workspaceColumn, hworkspace, hcreated, Bool.false_eq_true, if_false]
    · simp only [workspaceColumn, hworkspace, hcreated, if_true]
      exact ⟨Function.update_self _ _ _, fun x hx => Function.update_of_ne hx _ _⟩
  have hlives : ∀ {i : Uuid}, (∃ x ∈ r.store.tenants, x.id = i) → ∃ x ∈ r'.store.tenants, x.id = i := by
    rintro _ ⟨x, hx, rfl⟩
    rw [htenants]
    exact hkeys x hx
  refine ⟨⟨hunique, by rw [hcolumns, hbrands]; exact valid.brands, hmemberships ▸ valid.members,
    fun b hb => hlives (valid.brandOf b (hbrands ▸ hb)),
    fun m hm => hlives (valid.memberOf m (hmemberships ▸ hm))⟩, hwrites, ?_⟩
  -- nothing stands within a new workspace
  have hempty : created = true → ∀ m, r.brands (w.id, m) = none ∧ r.members (w.id, m) = none := by
    intro hcreated
    refine valid.within_none fun x hx hid => ?_
    exact (hwrites.new hcreated).2 _ _ (valid.workspaces.book_of_mem hx) hid
  unfold directory
  rw [hsame, members_congr hmemberships, hwrites.under_eq fun hcreated m => (hempty hcreated m).1,
    hwrites.under_eq fun hcreated m => (hempty hcreated m).2]

/-- **The upsert of a brand**, in a workspace that is known by a slug. -/
theorem upsertBrand_writes (valid : r.Valid) {w : Tenant} {b : Brand} (hw : w ∈ r.store.tenants)
    (h : r.upsertBrand id w.id slug name = .ok ((b, created), r')) :
    r'.Valid ∧ r.directory.brands.Writes (r.workspaceColumn w, slug) b.id (name, true) created
        r'.directory.brands ∧
      r'.directory = { r.directory with brands := r'.directory.brands } := by
  obtain ⟨brands, hupsert, hstore, hworkspace, hbrand⟩ := upsertBrand_eq_ok h
  have htenants : r'.store.tenants = r.store.tenants := by rw [hstore]
  have hbrands : r'.store.brands = brands := by rw [hstore]
  have hmemberships : r'.store.memberships = r.store.memberships := by rw [hstore]
  obtain ⟨-, hrows⟩ := updateOrCreate_keys hupsert
  obtain ⟨hcolumns, hsame⟩ := workspaces_congr htenants hworkspace
  obtain ⟨hunique, hwrites⟩ : r'.store.brands.Unique r'.brandColumns ∧
      r.brands.Writes (w.id, slug) b.id (name, true) created r'.brands := by
    unfold Registry.brands
    rw [hbrands]
    refine updateOrCreate_writes hupsert valid.brands (fun _ => rfl) (fun hcreated => ?_)
      (fun hcreated => ?_) (fun _ => rfl) rfl
    · funext x
      simp only [brandColumns, hbrand, hcreated, Bool.false_eq_true, if_false]
    · simp only [brandColumns, hbrand, hcreated, if_true]
      exact ⟨Prod.ext rfl (Function.update_self _ _ _),
        fun x hx => Prod.ext rfl (Function.update_of_ne hx _ _)⟩
  refine ⟨⟨by rw [hcolumns, htenants]; exact valid.workspaces, hunique, hmemberships ▸ valid.members,
    fun x hx => ?_, fun m hm => htenants ▸ valid.memberOf m (hmemberships ▸ hm)⟩, ?_, ?_⟩
  · rw [htenants]
    rcases hrows x (hbrands ▸ hx) with rfl | ⟨y, hy, rfl | rfl⟩
    · exact ⟨w, hw, rfl⟩
    · exact valid.brandOf _ hy
    · exact valid.brandOf y hy
  · unfold directory
    rw [hsame]
    exact hwrites.under (valid.workspaces.book_of_mem hw) valid.workspaces.book_distinct
  · unfold directory
    rw [hsame, members_congr hmemberships]

/-- **The upsert of an owner**, in such a workspace. -/
theorem upsertOwner_writes (valid : r.Valid) {w : Tenant} {m : Membership} (hw : w ∈ r.store.tenants)
    (h : r.upsertOwner id w.id subject = .ok ((m, created), r')) :
    r'.Valid ∧ r.directory.members.Writes (r.workspaceColumn w, subject) m.id (.owner, true) created
        r'.directory.members ∧
      r'.directory = { r.directory with members := r'.directory.members } := by
  obtain ⟨⟨⟨m, created⟩, memberships⟩, hupsert, heq⟩ := bind_eq_ok.1 h
  cases heq
  obtain ⟨-, hrows⟩ := updateOrCreate_keys hupsert
  obtain ⟨hunique, hwrites⟩ : memberships.Unique (fun m => (m.workspace, m.subject)) ∧
      r.members.Writes (w.id, subject) m.id (.owner, true) created
        (⟨{ r.store with memberships }, r.slugs⟩ : Registry).members :=
    updateOrCreate_writes hupsert valid.members (fun _ => rfl) (fun _ => rfl)
      (fun _ => ⟨rfl, fun _ _ => rfl⟩) (fun _ => rfl) rfl
  refine ⟨⟨valid.workspaces, valid.brands, hunique, valid.brandOf, fun x hx => ?_⟩,
    hwrites.under (valid.workspaces.book_of_mem hw) valid.workspaces.book_distinct, rfl⟩
  rcases hrows x hx with rfl | ⟨y, hy, rfl | rfl⟩
  · exact ⟨w, hw, rfl⟩
  · exact valid.memberOf _ hy
  · exact valid.memberOf y hy

end Registry

end Upserts

/-! ### Issuing a credential -/

/-- Why a subject with this entry gets no membership that serves: it has another role, or it is new
and its name is too long for the column or the identifier drawn is taken. -/
inductive Unfit (entry : Option (Uuid × MembershipRole × Bool)) (subject : String) (taken : Prop) :
    IngestFailure → Prop
  | role {i : Uuid} {role : MembershipRole} {active : Bool} (member : entry = some (i, role, active))
      (other : role ≠ .contentCreator) :
      Unfit entry subject taken (.command (.commandError ("The supplied subject already belongs to this " ++
        "workspace with a different role. Use a dedicated task: subject.")))
  | long (new : entry = none) (long : ¬ fitsVarchar 255 subject) :
      Unfit entry subject taken (.database .dataError)
  | taken (new : entry = none) (fits : fitsVarchar 255 subject) (used : taken) :
      Unfit entry subject taken (.database .integrityError)

/-- Why a credential for a brand in use is refused. -/
inductive Registry.Refused (r : Registry) (id : Uuid) (o : IngestOptions) : IngestFailure → Prop
  | days (outside : ¬ (1 ≤ o.days ∧ o.days ≤ 30)) :
      Refused r id o (.command (.commandError "--days must be between 1 and 30."))
  | unfit {e : IngestFailure} (inside : 1 ≤ o.days ∧ o.days ≤ 30)
      (cause : Unfit (r.directory.members (o.workspaceSlug, o.subject)) o.subject
        (∃ m ∈ r.store.memberships, m.id = id) e) : Refused r id o e

namespace Registry

variable {r r' : Registry} {workspaceSlug brandSlug : String} {b : Brand}

/-- The rows that the look-up by two slugs finds. -/
theorem mem_slugBrand {b : Brand} :
    (b ∈ r.store.brands.where fun b => r.slugs.brand b.id = brandSlug && b.isActive &&
      (r.store.tenants.get? b.workspace).any fun t => r.slugs.workspace t.id = workspaceSlug && t.isActive) ↔
    b ∈ r.store.brands ∧ r.slugs.brand b.id = brandSlug ∧ b.isActive = true ∧
      ∃ w ∈ r.store.tenants, w.id = b.workspace ∧ r.slugs.workspace w.id = workspaceSlug ∧ w.isActive = true := by
  rw [Table.mem_where]
  simp only [Bool.and_eq_true, decide_eq_true_eq, Option.any_eq_true]
  constructor
  · rintro ⟨hb, ⟨hslug, hactive⟩, w, hw, hcolumns⟩
    obtain ⟨hw, hid⟩ := Table.get?_eq_some.1 hw
    exact ⟨hb, hslug, hactive, w, hw, hid, hcolumns⟩
  · rintro ⟨hb, hslug, hactive, w, hw, hid, hcolumns⟩
    exact ⟨hb, ⟨hslug, hactive⟩, w, Table.get?_eq_some.2 ⟨hw, hid⟩, hcolumns⟩

/-- What the look-up finds stands under the two slugs. -/
theorem entries_of_row (valid : r.Valid)
    (h : b ∈ r.store.brands.where fun b => r.slugs.brand b.id = brandSlug && b.isActive &&
      (r.store.tenants.get? b.workspace).any fun t =>
        r.slugs.workspace t.id = workspaceSlug && t.isActive) :
    ∃ name, r.directory.workspaces workspaceSlug = some (b.workspace, name, true) ∧
      r.directory.brands (workspaceSlug, brandSlug) = some (b.id, b.name, true) := by
  obtain ⟨hb, rfl, hactive, w, hw, hid, rfl, hwactive⟩ := mem_slugBrand.1 h
  have hworkspace : r.directory.workspaces (r.slugs.workspace w.id) = some (b.workspace, w.name, true) := by
    rw [← hid, ← hwactive]
    exact valid.workspaces.book_of_mem hw
  refine ⟨w.name, hworkspace, ?_⟩
  rw [← hactive]
  exact (Book.under_of hworkspace).trans (valid.brands.book_of_mem hb)

/-- The row that the look-up returns is the one that it finds. -/
theorem row_of_slugBrand (h : slugBrand r.slugs workspaceSlug brandSlug r.store = .ok b) :
    b ∈ r.store.brands.where fun b => r.slugs.brand b.id = brandSlug && b.isActive &&
      (r.store.tenants.get? b.workspace).any fun t =>
        r.slugs.workspace t.id = workspaceSlug && t.isActive := by
  unfold slugBrand at h
  split at h
  · cases h
  · rename_i brand hrows
    cases h
    rw [hrows]
    exact List.mem_singleton_self _
  · cases h

theorem of_slugBrand (valid : r.Valid) (h : slugBrand r.slugs workspaceSlug brandSlug r.store = .ok b) :
    ∃ name, r.directory.workspaces workspaceSlug = some (b.workspace, name, true) ∧
      r.directory.brands (workspaceSlug, brandSlug) = some (b.id, b.name, true) :=
  entries_of_row valid (row_of_slugBrand h)

/-- An active brand of an active workspace is found, as the one that it is. -/
theorem slugBrand_of_active (valid : r.Valid)
    (h : r.directory.active workspaceSlug brandSlug = true) :
    ∃ b, slugBrand r.slugs workspaceSlug brandSlug r.store = .ok b := by
  unfold Directory.active at h
  simp only [Bool.and_eq_true, Option.any_eq_true] at h
  obtain ⟨⟨⟨i, name, wactive⟩, hworkspace, rfl⟩, ⟨j, title, active⟩, hbrand, rfl⟩ := h
  obtain ⟨w, hw, rfl, rfl, hwvalue⟩ := valid.workspaces.book_eq_some.1 hworkspace
  obtain ⟨b, hb, hcolumns, rfl, hvalue⟩ := valid.brands.book_eq_some.1
    ((Book.under_of hworkspace).symm.trans hbrand)
  have hof : b.workspace = w.id := congrArg Prod.fst hcolumns
  have hslug : r.slugs.brand b.id = brandSlug := congrArg Prod.snd hcolumns
  have hwactive : w.isActive = true := congrArg Prod.snd hwvalue
  have hactive : b.isActive = true := congrArg Prod.snd hvalue
  -- the constraint leaves no other row
  have hrows := Table.where_eq_singleton hb (p := fun b => r.slugs.brand b.id = brandSlug && b.isActive &&
      (r.store.tenants.get? b.workspace).any fun t =>
        r.slugs.workspace t.id = r.workspaceColumn w && t.isActive)
    (Table.mem_where.1 (mem_slugBrand.2 ⟨hb, hslug, hactive, w, hw, hof.symm, rfl, hwactive⟩)).2
    fun x hx hp => ?_
  · exact ⟨b, by unfold slugBrand; rw [hrows]⟩
  · obtain ⟨-, hxslug, -, w', hw', hid, hcolumn, -⟩ := mem_slugBrand.1 (Table.mem_where.2 ⟨hx, hp⟩)
    obtain rfl : w' = w := valid.workspaces w' hw' w hw hcolumn
    exact valid.brands x hx b hb (Prod.ext (hid.symm.trans hof.symm) (hxslug.trans hslug.symm))

/-- What a look-up that fails raises. -/
theorem slugBrand_of_not_active (valid : r.Valid)
    (h : r.directory.active workspaceSlug brandSlug = false) :
    slugBrand r.slugs workspaceSlug brandSlug r.store =
      .error (.commandError "Active workspace/brand combination was not found.") := by
  have hnone : (r.store.brands.where fun b => r.slugs.brand b.id = brandSlug && b.isActive &&
      (r.store.tenants.get? b.workspace).any fun t =>
        r.slugs.workspace t.id = workspaceSlug && t.isActive) = [] := by
    refine List.eq_nil_iff_forall_not_mem.2 fun b hb => ?_
    obtain ⟨name, hworkspace, hbrand⟩ := entries_of_row valid hb
    simp [Directory.active, hworkspace, hbrand] at h
  unfold slugBrand
  rw [hnone]

/-- The look-up of a membership. -/
theorem findMembership {subject : String} :
    (r.store.memberships.find? fun m => m.workspace = b.workspace && m.subject = subject) =
      r.store.memberships.select (fun m => (m.workspace, m.subject)) (b.workspace, subject) := by
  unfold Table.select
  congr 1
  funext m
  simp

/-- The membership that a credential gets. -/
theorem ingestMembership_ok (valid : r.Valid) {id : Uuid} {subject : String} {s : Store}
    (workspace : ∃ w ∈ r.store.tenants, w.id = b.workspace)
    (h : ingestMembership id b subject r.store = .ok s) :
    (⟨s, r.slugs⟩ : Registry).Valid ∧ s = { r.store with memberships := s.memberships } ∧
      (∀ e, r.members (b.workspace, subject) = some e → e.2.1 = .contentCreator) ∧
      ∃ i created, r.members.Writes (b.workspace, subject) i (.contentCreator, true) created
        (⟨s, r.slugs⟩ : Registry).members := by
  unfold ingestMembership at h
  rw [findMembership] at h
  split at h
  · rename_i hnone
    split at h
    · cases h
    split at h
    · rename_i memberships hinsert
      cases h
      refine ⟨⟨valid.workspaces, valid.brands, (valid.members.select_create hinsert (fun _ _ => rfl) hnone).1,
        valid.brandOf, fun m hm => ?_⟩, rfl, fun e he => ?_, id, true,
        valid.members.book_create hinsert (fun _ _ => rfl) hnone⟩
      · rcases (Table.mem_insert? hinsert).1 hm with hm | rfl
        · exact valid.memberOf m hm
        · exact workspace
      · simp [members, Table.book, hnone] at he
    · cases h
  · rename_i m hm
    obtain ⟨hmem, hcolumns⟩ := valid.members.select_eq_some.1 hm
    have hentry : r.members (b.workspace, subject) = some (m.id, m.role, m.isActive) := by
      rw [← hcolumns]
      exact valid.members.book_of_mem hmem
    split at h
    · cases h
    rename_i hrole
    rw [not_not] at hrole
    have hcreator : ∀ e, r.members (b.workspace, subject) = some e → e.2.1 = .contentCreator := by
      intro e he
      rw [hentry] at he
      cases he
      exact hrole
    split at h
    · rename_i hactive
      cases h
      rw [hrole, hactive] at hentry
      exact ⟨valid, rfl, hcreator, m.id, false, .rewrite hentry⟩
    · cases h
      have hwrites : r.members.Writes (m.workspace, m.subject) m.id (m.role, true) false
          ((r.store.memberships.update m.id ⟨fun m => { m with isActive := true }, fun _ => rfl⟩).book
            (fun m => (m.workspace, m.subject)) fun m => (m.role, m.isActive)) :=
        valid.members.book_update (f := ⟨fun m => { m with isActive := true }, fun _ => rfl⟩)
          (fun _ => rfl) hmem
      rw [hcolumns] at hwrites
      refine ⟨⟨valid.workspaces, valid.brands, valid.members.update fun _ => rfl, valid.brandOf, fun x hx => ?_⟩,
        rfl, hcreator, m.id, false, ?_⟩
      · obtain ⟨y, hy, rfl⟩ := Table.mem_update.1 hx
        obtain ⟨w, hw, hid⟩ := valid.memberOf y hy
        refine ⟨w, hw, ?_⟩
        split <;> exact hid
      · rw [← hrole]
        exact hwrites

/-- A new subject gets no membership. -/
theorem ingestMembership_new_iff {id : Uuid} {subject : String} {e : IngestFailure}
    (unknown : r.store.memberships.select (fun m => (m.workspace, m.subject)) (b.workspace, subject) = none) :
    ingestMembership id b subject r.store = .error e ↔
      Unfit (r.members (b.workspace, subject)) subject (∃ m ∈ r.store.memberships, m.id = id) e := by
  unfold ingestMembership
  rw [findMembership, unknown]
  have new : r.members (b.workspace, subject) = none := by simp [members, Table.book, unknown]
  dsimp only
  split
  · rename_i hlong
    constructor
    · intro h
      cases h
      exact .long new hlong
    · intro h
      cases h with
      | role member => cases new.symm.trans member
      | long => rfl
      | taken _ fits => exact absurd fits hlong
  · rename_i hfits
    cases hinsert : r.store.memberships.insert? ⟨id, b.workspace, subject, .contentCreator, true⟩ with
    | some memberships =>
      have hfresh := Table.fresh_of_insert? hinsert
      constructor
      · intro h
        cases h
      · intro h
        cases h with
        | role member => cases new.symm.trans member
        | long _ hlong => exact absurd hlong hfits
        | taken _ _ used =>
          obtain ⟨m, hm, hid⟩ := used
          exact absurd hid (hfresh m hm)
    | none =>
      have htaken : ∃ m ∈ r.store.memberships, m.id = id := by
        by_contra hall
        obtain ⟨t, ht⟩ := Table.insert?_isSome
          (r := (⟨id, b.workspace, subject, .contentCreator, true⟩ : Membership))
          fun m hm hid => hall ⟨m, hm, hid⟩
        rw [hinsert] at ht
        cases ht
      constructor
      · intro h
        cases h
        exact .taken new (not_not.1 hfits) htaken
      · intro h
        cases h with
        | role member => cases new.symm.trans member
        | long _ hlong => exact absurd hlong hfits
        | taken => rfl

/-- A member gets none for its role only. -/
theorem ingestMembership_member_iff (valid : r.Valid) {id : Uuid} {subject : String} {e : IngestFailure}
    {m : Membership}
    (known : r.store.memberships.select (fun m => (m.workspace, m.subject)) (b.workspace, subject) = some m) :
    ingestMembership id b subject r.store = .error e ↔
      Unfit (r.members (b.workspace, subject)) subject (∃ m ∈ r.store.memberships, m.id = id) e := by
  unfold ingestMembership
  rw [findMembership, known]
  have member : r.members (b.workspace, subject) = some (m.id, m.role, m.isActive) := by
    obtain ⟨hmem, hcolumns⟩ := valid.members.select_eq_some.1 known
    rw [← hcolumns]
    exact valid.members.book_of_mem hmem
  dsimp only
  split
  · rename_i hrole
    constructor
    · intro h
      cases h
      exact .role member hrole
    · intro h
      cases h with
      | role => rfl
      | long new | taken new => cases member.symm.trans new
  · rename_i hrole
    constructor
    · intro h
      split at h <;> cases h
    · intro h
      cases h with
      | role again other =>
        cases member.symm.trans again
        exact absurd other hrole
      | long new | taken new => cases member.symm.trans new

/-- The membership that a credential does not get. -/
theorem ingestMembership_error_iff (valid : r.Valid) {id : Uuid} {subject : String} {e : IngestFailure} :
    ingestMembership id b subject r.store = .error e ↔
      Unfit (r.members (b.workspace, subject)) subject (∃ m ∈ r.store.memberships, m.id = id) e := by
  cases hfind : r.store.memberships.select (fun m => (m.workspace, m.subject)) (b.workspace, subject) with
  | none => exact ingestMembership_new_iff hfind
  | some m => exact ingestMembership_member_iff valid hfind

/-- **What the command that issues a credential does**, where it succeeds. -/
theorem issue_ok (valid : r.Valid) {jwt : JwtSettings} {now : Time} {id jti : Uuid} {o : IngestOptions}
    {claims : List (String × Json)} {s : Store}
    (h : issueDraftIngestToken r.slugs jwt now id jti o r.store = .ok (claims, s)) :
    (⟨s, r.slugs⟩ : Registry).Valid ∧ r.directory.refusal o = none ∧
      ∃ brand i name title created,
        r.directory.workspaces o.workspaceSlug = some (brand.workspace, name, true) ∧
        r.directory.brands (o.workspaceSlug, o.brandSlug) = some (brand.id, title, true) ∧
        r.directory.members.Writes (o.workspaceSlug, o.subject) i (.contentCreator, true) created
          (⟨s, r.slugs⟩ : Registry).directory.members ∧
        (⟨s, r.slugs⟩ : Registry).directory =
          { r.directory with members := (⟨s, r.slugs⟩ : Registry).directory.members } ∧
        claims = ingestClaims jwt now jti brand o := by
  unfold issueDraftIngestToken at h
  split at h
  · cases h
  rename_i hdays
  split at h
  · cases h
  rename_i brand hbrand
  obtain ⟨t, hmembership, heq⟩ := map_eq_ok.1 h
  cases heq
  obtain ⟨name, hworkspace, hfound⟩ := of_slugBrand valid hbrand
  have hactive : r.directory.active o.workspaceSlug o.brandSlug = true := by
    simp [Directory.active, hworkspace, hfound]
  have hrow : ∃ w ∈ r.store.tenants, w.id = brand.workspace := by
    obtain ⟨w, hw, -, hid, -⟩ := valid.workspaces.book_eq_some.1 hworkspace
    exact ⟨w, hw, hid⟩
  obtain ⟨hvalid, hframe, hcreator, i, created, hwrites⟩ := ingestMembership_ok valid hrow hmembership
  have hsame : (⟨s, r.slugs⟩ : Registry).workspaces = r.workspaces ∧
      (⟨s, r.slugs⟩ : Registry).brands = r.brands := by
    rw [hframe]
    exact ⟨rfl, rfl⟩
  refine ⟨hvalid, ?_, brand, i, name, brand.name, created, hworkspace, hfound, ?_, ?_, rfl⟩
  · have hmember : (r.directory.members (o.workspaceSlug, o.subject)).any
        (fun e => e.2.1 ≠ .contentCreator) = false := by
      rw [show r.directory.members (o.workspaceSlug, o.subject) = _ from Book.under_of hworkspace]
      cases he : r.members (brand.workspace, o.subject) with
      | none => rfl
      | some e => simp [hcreator e he]
    simp only [Directory.refusal, hdays, hactive, hmember, not_true_eq_false, if_false, Bool.false_eq_true]
  · unfold directory
    rw [hsame.1]
    exact hwrites.under hworkspace valid.workspaces.book_distinct
  · unfold directory
    rw [hsame.1, hsame.2]

/-- **Where it fails**, the directory tells why, unless the database refuses the new membership. -/
theorem issue_error (valid : r.Valid) {jwt : JwtSettings} {now : Time} {id jti : Uuid} {o : IngestOptions}
    {e : IngestFailure} (h : issueDraftIngestToken r.slugs jwt now id jti o r.store = .error e) :
    r.directory.refusal o = some e ∨ r.directory.refusal o = none ∧ ∃ error, e = .database error := by
  unfold issueDraftIngestToken at h
  split at h
  · rename_i hdays
    cases h
    exact .inl (by simp only [Directory.refusal, hdays, not_false_eq_true, if_true])
  rename_i hdays
  cases hactive : r.directory.active o.workspaceSlug o.brandSlug with
  | false =>
    rw [slugBrand_of_not_active valid hactive] at h
    cases h
    exact .inl (by simp only [Directory.refusal, hdays, hactive, Bool.false_eq_true, not_false_eq_true,
      if_true, if_false])
  | true =>
    obtain ⟨brand, hbrand⟩ := slugBrand_of_active valid hactive
    obtain ⟨name, hworkspace, -⟩ := of_slugBrand valid hbrand
    have hmember : r.directory.members (o.workspaceSlug, o.subject) =
        r.members (brand.workspace, o.subject) := Book.under_of hworkspace
    simp only [hbrand] at h
    cases hmembership : ingestMembership id brand o.subject r.store with
    | ok s => rw [hmembership] at h; cases h
    | error e =>
      rw [hmembership] at h
      cases h
      have hcause := (ingestMembership_error_iff valid).1 hmembership
      rw [← hmember] at hcause
      simp only [Directory.refusal, hdays, hactive, not_true_eq_false, if_false]
      cases hcause with
      | role member other => exact .inl (by rw [member]; simp [other])
      | long new => exact .inr ⟨by rw [new]; rfl, _, rfl⟩
      | taken new => exact .inr ⟨by rw [new]; rfl, _, rfl⟩

/-- **Why it fails for a brand in use**: for its days, for another role of the subject, or because the
database refuses the new membership. -/
theorem issue_error_iff (valid : r.Valid) {jwt : JwtSettings} {now : Time} {id jti : Uuid}
    {o : IngestOptions} {e : IngestFailure} (active : r.directory.active o.workspaceSlug o.brandSlug = true) :
    issueDraftIngestToken r.slugs jwt now id jti o r.store = .error e ↔ r.Refused id o e := by
  obtain ⟨brand, hbrand⟩ := slugBrand_of_active valid active
  obtain ⟨name, hworkspace, -⟩ := of_slugBrand valid hbrand
  have hmember : r.directory.members (o.workspaceSlug, o.subject) =
      r.members (brand.workspace, o.subject) := Book.under_of hworkspace
  unfold issueDraftIngestToken
  split
  · rename_i hdays
    constructor
    · intro h
      cases h
      exact .days hdays
    · intro h
      cases h with
      | days => rfl
      | unfit inside => exact absurd inside hdays
  · rename_i hdays
    simp only [hbrand]
    constructor
    · intro h
      cases hmembership : ingestMembership id brand o.subject r.store with
      | ok s => rw [hmembership] at h; cases h
      | error e =>
        rw [hmembership] at h
        cases h
        exact .unfit (not_not.1 hdays) (hmember ▸ (ingestMembership_error_iff valid).1 hmembership)
    · intro h
      cases h with
      | days outside => exact absurd outside hdays
      | unfit _ cause =>
        rw [hmember] at cause
        rw [(ingestMembership_error_iff valid).2 cause]
        rfl

end Registry

end Relay
