import Relay.Library.Transition
import Relay.Model.Panel

/-!
# The screen of the panel: `frontend/src/App.tsx`

A user chooses brands in two places.  The context switcher asks the server, which answers a context
with a selected brand; the header of the panel sets the local state of the panel.  Of React it is
assumed that a component whose key is unchanged keeps its state when its properties change, that one
whose key changes is mounted afresh, that an effect runs after mounting and whenever a dependency
has changed, and that a `select` whose value is none of its options shows the first of them.

* `Context`: what the server answers;
* `Panel`: the local state of the panel, with the brand of its last `refresh`;
* `App`, `App.next`: the screen and what an event makes of it.
-/

namespace Relay

open Transition

/-! ### The context -/

/-- The server selects a brand among those of the context, wherever there is one. -/
structure PanelContext.Selects (context : PanelContext) : Prop where
  listed : ∀ b, context.selectedBrandId = some b → b ∈ context.brands.map (·.id)
  chosen : context.selectedBrandId = none → context.brands = []

/-- A context that the server has answered (`Context`). -/
structure Context extends PanelContext where
  selects : toPanelContext.Selects

namespace PanelContext

/-- `context.brands.find((item) => item.id === brandId) ?? context.brands[0]`; no brand stands for
the empty text. -/
def brand (context : PanelContext) (brandId : Option Uuid) : Option ContextBrand :=
  (context.brands.find? fun item => some item.id = brandId).or context.brands.head?

/-- `context.selected_brand_id ?? context.brands[0]?.id ?? ""`. -/
def initialBrandId (context : PanelContext) : Option Uuid :=
  context.selectedBrandId.or (context.brands.head?.map (·.id))

/-- The options of `ContextSwitcher`, each the identifiers of a workspace and of a brand. -/
def options (context : PanelContext) : List (Uuid × Uuid) :=
  context.workspaces.flatMap fun workspace => workspace.brands.map fun brand => (workspace.id, brand.1)

/-- The option that `ContextSwitcher` shows: the one of `selectedValue`, or the first one. -/
def shownOption (context : PanelContext) : Option (Uuid × Uuid) :=
  (context.options.find? fun option =>
    option.1 = context.workspace.1 ∧ some option.2 = context.selectedBrandId).or context.options.head?

end PanelContext

/-! ### The panel -/

/-- The local state of `Panel`, with the brand whose data its effect has last asked for. -/
structure Panel where
  brandId : Option Uuid
  refreshed : Option Uuid
  deriving DecidableEq

namespace Panel

/-- `refresh`, which does nothing without a brand. -/
def refresh (panel : Panel) (context : PanelContext) : Panel :=
  match context.brand panel.brandId with
  | none => panel
  | some brand => { panel with refreshed := some brand.id }

/-- The panel after it is mounted. -/
def mount (context : PanelContext) : Panel :=
  refresh ⟨context.initialBrandId, none⟩ context

/-- `setBrandId`, with the effect that depends on it. -/
def setBrandId (panel : Panel) (context : PanelContext) (brandId : Uuid) : Panel :=
  if panel.brandId = some brandId then panel
  else refresh { panel with brandId := some brandId } context

end Panel

/-! ### The screen -/

/-- The state of `App` with its two components; `switching` while the switcher awaits an answer. -/
structure App where
  context : Context
  panel : Panel
  switching : Bool

namespace App

/-- The screen after a login. -/
def mount (context : Context) : App := ⟨context, .mount context.toPanelContext, false⟩

/-- The brand that `Panel` gives to `Composer` and that its `refresh` reads. -/
def brand (app : App) : Option ContextBrand := app.context.brand app.panel.brandId

/-- `setContext`: the key of `Panel` is the identifier of the workspace. -/
def setContext (app : App) (context : Context) : App :=
  if context.workspace.1 = app.context.workspace.1 then { app with context }
  else { app with context, panel := .mount context.toPanelContext }

/-- What happens on the screen. -/
inductive Event
  /-- the user takes another option of the switcher, which posts it -/
  | choose (workspace brand : Uuid)
  /-- the server answers the switcher with a context -/
  | answered (context : Context)
  /-- the request of the switcher fails -/
  | refused
  /-- the user takes another brand in the header of the panel -/
  | header (brand : Uuid)

/-- The screen after an event, if it can happen there. -/
def next (app : App) : Event → Option App
  | .choose workspace brand =>
    if app.switching = false ∧ (workspace, brand) ∈ app.context.options ∧
        app.context.shownOption ≠ some (workspace, brand) then
      some { app with switching := true }
    else none
  | .answered context =>
    if app.switching then some { app.setContext context with switching := false } else none
  | .refused => if app.switching then some { app with switching := false } else none
  | .header brand =>
    if brand ∈ app.context.brands.map (·.id) ∧ app.brand.map (·.id) ≠ some brand then
      some { app with panel := app.panel.setBrandId app.context.toPanelContext brand }
    else none

end App

end Relay
