import Relay.Model.App
import Relay.Panel

/-!
# The brand that the panel composes for

The switcher's choice reaches the panel by the context and the header's by the local state of the
panel, which a context of the same workspace does not replace.

* `panelContext_selects`: what the server answers is a `Context`;
* `Choices`: the brand chosen last, as an observer of the events tells it;
* `Held`: the panel holds one brand, the one chosen last;
* `showsChoice_iff`: along which runs the panel shows the brand chosen last.
-/

namespace Relay

open Relational Sequence Transition

/-! ### What the server answers -/

section Answers

variable {session session' : Session} {s : Store} {c : PanelContext}

theorem Session.activeBrand_mem {brands : List Brand} {b : Brand}
    (h : session.activeBrand brands = some b) : b ∈ brands := by
  rcases Option.or_eq_some_iff.1 h with h | ⟨-, h⟩
  · exact List.mem_of_find?_eq_some h
  · exact List.mem_of_head? h

theorem Session.activeBrand_eq_none {brands : List Brand} (h : session.activeBrand brands = none) :
    brands = [] :=
  List.head?_eq_none_iff.1 (Option.or_eq_none_iff.1 h).2

theorem contextData_selects {requestUser : RequestUser} {principal : RelayPrincipal}
    {workspace : Tenant} {membership : Membership}
    (h : contextData requestUser principal workspace membership session s = .ok c) : c.Selects := by
  unfold contextData at h
  cases huser : requestUser.getUsername with
  | error e => rw [huser] at h; cases h
  | ok username =>
    cases hname : requestUser.displayName with
    | error e => rw [huser, hname] at h; cases h
    | ok displayName =>
      rw [huser, hname] at h
      cases h
      constructor
      · intro b hb
        obtain ⟨brand, hactive, rfl⟩ := Option.map_eq_some_iff.1 hb
        simp only [List.map_map, List.mem_map]
        exact ⟨brand, Session.activeBrand_mem hactive, rfl⟩
      · intro hnone
        have hbrands := Session.activeBrand_eq_none (Option.map_eq_none_iff.1 hnone)
        simp only [hbrands, List.map_nil]

/-- Every context that `panel_context` returns selects a brand wherever there is one. -/
theorem panelContext_selects {users : Table User} {requestUser : RequestUser} {given : Option User}
    (h : panelContext users requestUser given session s = (.ok c, session')) : c.Selects := by
  unfold panelContext at h
  split at h
  · cases h
  · split at h
    · cases h
    · split at h
      · cases h
      · split at h
        · cases h
        · cases h
        · exact contextData_selects (congrArg Prod.fst h)

end Answers

/-! ### Choices -/

/-- What an observer of the screen knows of the choices. -/
structure Choices where
  /-- the brand of the most recent choice that is neither in flight nor refused -/
  latest : Option Uuid
  /-- the brand that the switcher has asked for, while no choice has been made after it -/
  asked : Option Uuid

namespace Choices

/-- Before the first choice. -/
def none : Choices := ⟨.none, .none⟩

def observe (choices : Choices) : App.Event → Choices
  | .choose _ brand => { choices with asked := some brand }
  | .answered _ => ⟨choices.asked.or choices.latest, .none⟩
  | .refused => { choices with asked := .none }
  | .header brand => ⟨some brand, .none⟩

/-- The brand of the most recent choice, when the answer awaited arrives. -/
def answered (choices : Choices) : Option Uuid := choices.asked.or choices.latest

end Choices

/-- The screen with the observer of its choices. -/
structure Screen where
  app : App
  choices : Choices

namespace Screen

def next (s : Screen) (e : App.Event) : Option Screen :=
  (s.app.next e).map fun app => ⟨app, s.choices.observe e⟩

/-- The screen from a login on. -/
def machine : Machine Screen App.Event :=
  .ofNext (fun s => ∃ context, s = ⟨.mount context, .none⟩) next

/-- The panel composes for the brand chosen last, and shows the data of that brand. -/
def ShowsChoice (s : Screen) : Prop :=
  ∀ b, s.choices.latest = some b →
    s.app.brand.map (·.id) = some b ∧ s.app.panel.refreshed = some b

/-- The condition on an answer of the server: one of another workspace selects the brand chosen
last, and at one of the same workspace the panel holds that brand already. -/
def Keeps (s : Screen) : App.Event → Prop
  | .answered context => ∀ b, s.choices.answered = some b →
    if context.workspace.1 = s.app.context.workspace.1 then
      s.app.panel.brandId = some b ∧ b ∈ context.brands.map (·.id)
    else context.selectedBrandId = some b
  | _ => True

end Screen

/-! ### The brand of the panel -/

section Brand

variable {c : PanelContext} {b : Uuid} {panel : Panel}

/-- A brand that the context lists is the one shown. -/
theorem PanelContext.brand_listed (h : b ∈ c.brands.map (·.id)) :
    (c.brand (some b)).map (·.id) = some b := by
  obtain ⟨item, hitem, hid⟩ := List.mem_map.1 h
  have hsome : (c.brands.find? fun item => some item.id = some b).isSome := by
    rw [List.find?_isSome]
    exact ⟨item, hitem, by simpa using hid⟩
  obtain ⟨found, hfound⟩ := Option.isSome_iff_exists.1 hsome
  have hfid := List.find?_some hfound
  unfold PanelContext.brand
  rw [hfound, Option.some_or, Option.map_some]
  simpa using hfid

/-- The brand shown is listed. -/
theorem PanelContext.brand_mem {brandId : Option Uuid} (h : (c.brand brandId).map (·.id) = some b) :
    b ∈ c.brands.map (·.id) := by
  obtain ⟨item, hitem, rfl⟩ := Option.map_eq_some_iff.1 h
  refine List.mem_map_of_mem ?_
  rcases Option.or_eq_some_iff.1 hitem with hitem | ⟨-, hitem⟩
  · exact List.mem_of_find?_eq_some hitem
  · exact List.mem_of_head? hitem

/-- `panel` holds one brand: its own, the one shown and the one refreshed last. -/
structure Panel.Holds (panel : Panel) (c : PanelContext) (b : Option Uuid) : Prop where
  brandId : panel.brandId = b
  shown : (c.brand panel.brandId).map (·.id) = b
  refreshed : panel.refreshed = b

theorem Panel.holds_refresh (h : b ∈ c.brands.map (·.id)) (hpanel : panel.brandId = some b) :
    (panel.refresh c).Holds c (some b) := by
  have hshown : (c.brand panel.brandId).map (·.id) = some b := by
    rw [hpanel]
    exact PanelContext.brand_listed h
  obtain ⟨item, hitem, hid⟩ := Option.map_eq_some_iff.1 hshown
  unfold Panel.refresh
  simp only [hitem]
  exact ⟨hpanel, hshown, congrArg some hid⟩

/-- A panel that is mounted holds the brand that the context selects. -/
theorem Panel.holds_mount (h : c.Selects) : (Panel.mount c).Holds c c.selectedBrandId := by
  unfold Panel.mount PanelContext.initialBrandId
  cases hsel : c.selectedBrandId with
  | some b => exact Panel.holds_refresh (h.listed b hsel) rfl
  | none =>
    have hbrands := h.chosen hsel
    constructor <;> simp [Panel.refresh, PanelContext.brand, hbrands]

/-- A panel whose brand is chosen in its header holds that brand. -/
theorem Panel.holds_setBrandId (h : b ∈ c.brands.map (·.id))
    (hother : (c.brand panel.brandId).map (·.id) ≠ some b) :
    (panel.setBrandId c b).Holds c (some b) := by
  have hne : panel.brandId ≠ some b := by
    intro heq
    exact hother (heq ▸ PanelContext.brand_listed h)
  unfold Panel.setBrandId
  rw [if_neg hne]
  exact Panel.holds_refresh h rfl

/-- A panel that is kept under another context shows the brand it holds if that context lists it. -/
theorem Panel.Holds.kept {c' : PanelContext} (h : panel.Holds c (some b))
    (hb : b ∈ c'.brands.map (·.id)) : panel.Holds c' (some b) :=
  ⟨h.brandId, h.brandId ▸ PanelContext.brand_listed hb, h.refreshed⟩

end Brand

/-! ### Runs -/

namespace Screen

/-- Along a run: the panel holds the brand chosen last, and an answer is awaited after a choice. -/
structure Held (s : Screen) : Prop where
  holds : ∃ b, s.app.panel.Holds s.app.context.toPanelContext b ∧
    ∀ c, s.choices.latest = some c → b = some c
  awaited : s.app.switching = true → s.choices.answered ≠ none

section Steps

variable {s s' : Screen}

theorem Held.showsChoice (h : s.Held) : s.ShowsChoice := by
  obtain ⟨b, hholds, hlatest⟩ := h.holds
  intro c hc
  obtain rfl := hlatest c hc
  exact ⟨hholds.shown, hholds.refreshed⟩

theorem held_mount (context : Context) : Held ⟨.mount context, .none⟩ where
  holds := ⟨_, Panel.holds_mount context.selects, fun _ h => by cases h⟩
  awaited h := by cases h

/-- What an answer that meets the condition leaves: the panel holds the brand chosen last. -/
theorem Held.answered {context : Context} (h : s.Held) (hs : s.app.switching = true)
    (hk : s.Keeps (.answered context)) :
    Held ⟨{ s.app.setContext context with switching := false }, s.choices.observe (.answered context)⟩ := by
  obtain ⟨b, hb⟩ := Option.ne_none_iff_exists'.1 (h.awaited hs)
  have hk := hk b hb
  refine ⟨⟨some b, ?_, fun c hc => hb.symm.trans hc⟩, fun hswitching => by cases hswitching⟩
  unfold App.setContext
  split at hk
  · rename_i hsame
    obtain ⟨hpanel, hlisted⟩ := hk
    obtain ⟨b', hholds, -⟩ := h.holds
    obtain rfl : b' = some b := hholds.brandId.symm.trans hpanel
    rw [if_pos hsame]
    exact hholds.kept hlisted
  · rename_i hother
    rw [if_neg hother]
    have hmount := Panel.holds_mount context.selects
    rwa [hk] at hmount

/-- A step that meets the condition keeps `Held`. -/
theorem Held.step {e : App.Event} (h : s.Held) (hk : s.Keeps e) (hs : s.next e = some s') : s'.Held := by
  obtain ⟨app, happ, rfl⟩ := Option.map_eq_some_iff.1 hs
  cases e with
  | choose workspace brand =>
    obtain ⟨-, happ⟩ := Option.ite_none_right_eq_some.1 happ
    cases happ
    exact ⟨h.holds, fun _ => by simp [Choices.answered, Choices.observe]⟩
  | answered context =>
    obtain ⟨hswitching, happ⟩ := Option.ite_none_right_eq_some.1 happ
    cases happ
    exact h.answered hswitching hk
  | refused =>
    obtain ⟨-, happ⟩ := Option.ite_none_right_eq_some.1 happ
    cases happ
    exact ⟨h.holds, fun hswitching => by cases hswitching⟩
  | header brand =>
    obtain ⟨⟨hlisted, hother⟩, happ⟩ := Option.ite_none_right_eq_some.1 happ
    cases happ
    refine ⟨⟨some brand, Panel.holds_setBrandId hlisted hother, fun c hc => hc⟩, fun _ => ?_⟩
    simp [Choices.answered, Choices.observe]

/-- An answer after which the panel shows the brand chosen last meets the condition. -/
theorem Held.keeps_of_showsChoice {e : App.Event} (h : s.Held) (hs : s.next e = some s')
    (hshows : s'.ShowsChoice) : s.Keeps e := by
  cases e with
  | choose => trivial
  | refused => trivial
  | header => trivial
  | answered context =>
    obtain ⟨app, happ, rfl⟩ := Option.map_eq_some_iff.1 hs
    obtain ⟨-, happ⟩ := Option.ite_none_right_eq_some.1 happ
    cases happ
    intro b hb
    obtain ⟨hshown, hrefreshed⟩ := hshows b hb
    obtain ⟨b', hholds, -⟩ := h.holds
    unfold App.setContext at hshown hrefreshed
    unfold App.brand at hshown
    split
    · rename_i hsame
      rw [if_pos hsame] at hshown hrefreshed
      -- the brand refreshed last is the one that the panel still holds
      have hpanel : s.app.panel.brandId = some b :=
        hholds.brandId.trans (hholds.refreshed.symm.trans hrefreshed)
      exact ⟨hpanel, PanelContext.brand_mem hshown⟩
    · rename_i hother
      rw [if_neg hother] at hshown
      exact (Panel.holds_mount context.selects).shown.symm.trans hshown

end Steps

theorem held_of_reachable {s : Screen} (h : Reachable (machine.guarded Keeps) s) : s.Held := by
  refine h.invariant (fun s hs => ?_) fun s e t hs hstep => ?_
  · obtain ⟨context, rfl⟩ := hs
    exact held_mount context
  · obtain ⟨hk, hnext⟩ := hstep
    exact hs.step hk hnext

/-- **The panel shows the brand chosen last** in every state of a run whose answers meet the condition,
and a step from there keeps it so exactly if it meets the condition. -/
theorem showsChoice_iff {s : Screen} (h : Reachable (machine.guarded Keeps) s) :
    s.ShowsChoice ∧ ∀ e s', machine.step s e s' → (s'.ShowsChoice ↔ s.Keeps e) := by
  have hheld := held_of_reachable h
  refine ⟨hheld.showsChoice, fun e s' hstep => ?_⟩
  constructor
  · exact hheld.keeps_of_showsChoice hstep
  · intro hk
    exact (hheld.step hk hstep).showsChoice

end Screen

namespace Sample

/-- The context of a workspace with two brands. -/
def studioContext (selected : Uuid) (h : selected ∈ [Uuid.ofNat 0xa, Uuid.ofNat 0xb]) : Context where
  username := "jorge"
  displayName := "jorge"
  workspace := (workspace, "Studio")
  workspaces := [⟨workspace, "Studio", [(.ofNat 0xa, "Almond"), (.ofNat 0xb, "Basil")]⟩]
  selectedBrandId := some selected
  role := .owner
  scopes := []
  brands := [⟨.ofNat 0xa, "Almond", "UTC"⟩, ⟨.ofNat 0xb, "Basil", "UTC"⟩]
  selects := ⟨fun b hb => by cases hb; exact h, fun hnone => by cases hnone⟩

end Sample

namespace Screen

open Sample

/-- A brand chosen in the header, and then in the switcher. -/
theorem showsChoice_iff_sample : ∃ s : Screen, s.choices.latest = some (.ofNat 0xb) ∧
    s.app.context.selectedBrandId = some (.ofNat 0xb) ∧ s.ShowsChoice := by
  have hkeeps : Keeps ⟨⟨studioContext (.ofNat 0xa) (by decide),
      ⟨some (.ofNat 0xb), some (.ofNat 0xb)⟩, true⟩, ⟨some (.ofNat 0xb), some (.ofNat 0xb)⟩⟩
      (.answered (studioContext (.ofNat 0xb) (by decide))) := by
    intro b hb
    cases hb
    exact ⟨rfl, by decide⟩
  have hrun : Trail (machine.guarded Keeps) ⟨.mount (studioContext (.ofNat 0xa) (by decide)), .none⟩
      [.header (.ofNat 0xb), .choose workspace (.ofNat 0xb),
        .answered (studioContext (.ofNat 0xb) (by decide))]
      ⟨⟨studioContext (.ofNat 0xb) (by decide), ⟨some (.ofNat 0xb), some (.ofNat 0xb)⟩, false⟩,
        ⟨some (.ofNat 0xb), none⟩⟩ :=
    .move ⟨trivial, rfl⟩ (.move ⟨trivial, rfl⟩ (.move ⟨hkeeps, rfl⟩ (.stay _)))
  exact ⟨_, rfl, rfl, (showsChoice_iff ⟨_, _, ⟨_, rfl⟩, hrun⟩).1⟩

/-- The switcher's choice of another brand of the workspace shown does not reach the panel. -/
theorem not_showsChoice : ¬ ∀ s, Reachable machine s → s.ShowsChoice := by
  intro h
  have hrun : Trail machine ⟨.mount (studioContext (.ofNat 0xa) (by decide)), .none⟩
      [.choose workspace (.ofNat 0xb), .answered (studioContext (.ofNat 0xb) (by decide))]
      ⟨⟨studioContext (.ofNat 0xb) (by decide), ⟨some (.ofNat 0xa), some (.ofNat 0xa)⟩, false⟩,
        ⟨some (.ofNat 0xb), none⟩⟩ :=
    .move rfl (.move rfl (.stay _))
  have hshows := h _ ⟨_, _, ⟨_, rfl⟩, hrun⟩ (.ofNat 0xb) rfl
  exact absurd hshows.2 (by decide)

end Screen

end Relay
