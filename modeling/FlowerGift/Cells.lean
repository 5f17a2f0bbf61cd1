import FlowerGift.Catalogue
import FlowerGift.Device
import FlowerGift.Lib.Grid

/-!
# The cells of the five list screens

Cart, Favourites, Gift, Flower and Customize show their `products` in a
collection view.  `Screens` is the device and the catalogue with what every cell
was configured with; besides the steps of these two it takes the requests and
taps that the collection views make of their owners.  Each screen is a
`Grid`: the listener closures reload the view in the step that changes
`products`, the timers of the cart and favourites screens do not.

So an index finds the product that its cell shows iff the screen's timer has not
fired since the last callback (`cells_valid_iff`); on the catalogue screens,
which have no timer, it always does.
-/

namespace FlowerGift

open Realtime

inductive Item
  | cart (p : CartProduct)
  | product (p : Product)
  deriving DecidableEq

/-- `==`, as `firstIndex(of: product)` uses it. -/
def Item.isProduct (product : Product) : Item → Bool
  | .product p => Product.eq p product
  | .cart _ => false

/-! ## One screen -/

section
variable (cells : ℕ → Option Item)

def CartViewController.grid (vc : CartViewController) : Grid Item :=
  ⟨vc.products.map .cart, vc.rows.map .cart, cells⟩

def FavouriteViewController.grid (vc : FavouriteViewController) : Grid Item :=
  ⟨vc.products.map .product, vc.rows.map .product, cells⟩

def CatalogueViewController.grid (vc : CatalogueViewController) : Grid Item :=
  ⟨vc.products.map .product, vc.rows.map .product, cells⟩

theorem CartViewController.grid_tick (vc : CartViewController) :
    vc.tick.grid cells = (vc.grid cells).clear := rfl

theorem CartViewController.grid_childAdded (vc : CartViewController) (values : Record) :
    (vc.childAdded values).grid (fun _ => none) =
      Grid.reload ((vc.childAdded values).products.map .cart) := rfl

theorem FavouriteViewController.grid_tick (vc : FavouriteViewController) :
    vc.tick.grid cells = (vc.grid cells).clear := rfl

theorem FavouriteViewController.grid_childAdded (vc : FavouriteViewController) (values : Record) :
    (vc.childAdded values).grid (fun _ => none) =
      Grid.reload ((vc.childAdded values).products.map .product) := rfl

theorem CatalogueViewController.grid_childAdded (vc : CatalogueViewController) (values : Record) :
    (vc.childAdded values).grid (fun _ => none) =
      Grid.reload ((vc.childAdded values).products.map .product) := rfl

/-- A catalogue screen is loaded without products. -/
theorem CatalogueScreen.grid_viewController (screen : CatalogueScreen) :
    screen.viewController.grid cells = GiftViewController.grid cells := by
  cases screen <;> rfl

end

/-! ## Ticks and reloads -/

def Action.ticks : Action → Option ℕ
  | .tick i => some i
  | _ => none

def FavouriteAction.ticks : FavouriteAction → Option ℕ
  | .tick i => some i
  | _ => none

/-- The cart screen that the action makes reload. -/
def Shop.reloads (s : Shop) : Action → Option ℕ
  | .callback => s.hub.queue.head?.map (·.target)
  | _ => none

def Watcher.toScreen : Watcher → Option ℕ
  | .service => none
  | .screen i => some i

def Favourites.reloads (s : Favourites) : FavouriteAction → Option ℕ
  | .callback => s.hub.queue.head?.bind fun e => e.target.toScreen
  | _ => none

def Catalogue.reloads (s : Catalogue) : CatalogueAction → Option ℕ
  | .callback => s.hub.queue.head?.map (·.target)
  | _ => none

/-- Screen `i`; one that is not there yet shows nothing, like a new one. -/
def Shop.cart (s : Shop) (i : ℕ) : CartViewController := s.cartScreens.getD i {}

def Favourites.screen (s : Favourites) (i : ℕ) : FavouriteViewController := s.screens.getD i {}

def Catalogue.screen (s : Catalogue) (i : ℕ) : CatalogueViewController :=
  s.screens.getD i GiftViewController

theorem Shop.moves_step (s s' : Shop) (a : Action) (h : s.step a = some s') (i : ℕ)
    (cells : ℕ → Option Item) (stale : Bool) :
    ((s.cart i).grid cells).Moves stale ((s'.cart i).grid (Grid.forget (s.reloads a = some i) cells))
      (Grid.outdated (a.ticks = some i) (s.reloads a = some i) stale) := by
  cases effect_of_step s s' a h with
  | openCart =>
    exact Grid.moves_append (fun vc cells => vc.grid cells) s.cartScreens {} i cells stale {} rfl
  | tick j vc hvc =>
    have hmoves := Grid.moves_set_clear (fun vc cells => vc.grid cells) s.cartScreens {} i j cells
      stale vc vc.tick hvc (vc.grid_tick cells)
    simpa [Action.ticks, reloads, cart, Grid.forget] using hmoves
  | callback e hub vc hd hvc =>
    have hlt := (List.getElem?_eq_some_iff.mp hvc).1
    have hmoves := Grid.moves_set_reload (fun vc cells => vc.grid cells) s.cartScreens {} i e.target
      cells stale (vc.childAdded e.value) _ hlt (vc.grid_childAdded e.value)
    simpa [Action.ticks, reloads, cart, Hub.queue_deliver s.hub hub e hd] using hmoves
  | commit a ha =>
    have hsame : ((s.cart i).grid cells).Moves stale (((s.commit (s.issued a)).cart i).grid cells)
        stale := by
      unfold cart
      rw [cartScreens_commit]
      exact .same
    cases a <;> first | exact hsame | cases ha
  | _ => exact .same

theorem Favourites.moves_step (s s' : Favourites) (a : FavouriteAction) (h : s.step a = some s')
    (i : ℕ) (cells : ℕ → Option Item) (stale : Bool) :
    ((s.screen i).grid cells).Moves stale
      ((s'.screen i).grid (Grid.forget (s.reloads a = some i) cells))
      (Grid.outdated (a.ticks = some i) (s.reloads a = some i) stale) := by
  cases effect_of_step s s' a h with
  | openFavourites =>
    exact Grid.moves_append (fun vc cells => vc.grid cells) s.screens {} i cells stale {} rfl
  | tick j vc hvc =>
    have hmoves := Grid.moves_set_clear (fun vc cells => vc.grid cells) s.screens {} i j cells
      stale vc vc.tick hvc (vc.grid_tick cells)
    simpa [FavouriteAction.ticks, reloads, screen, Grid.forget] using hmoves
  | toService e hub hd ht =>
    have hnone : s.reloads .callback = none := by
      simp [reloads, Hub.queue_deliver s.hub hub e hd, ht, Watcher.toScreen]
    rw [hnone]
    exact .same
  | toScreen e hub j vc hd ht hvc =>
    have hlt := (List.getElem?_eq_some_iff.mp hvc).1
    have hmoves := Grid.moves_set_reload (fun vc cells => vc.grid cells) s.screens {} i j cells stale
      (vc.childAdded e.value) _ hlt (vc.grid_childAdded e.value)
    have hsome : s.reloads .callback = some j := by
      simp [reloads, Hub.queue_deliver s.hub hub e hd, ht, Watcher.toScreen]
    simpa [FavouriteAction.ticks, screen, hsome] using hmoves
  | _ => exact .same

theorem Catalogue.moves_step (s s' : Catalogue) (a : CatalogueAction) (h : s.step a = some s')
    (i : ℕ) (cells : ℕ → Option Item) (stale : Bool) :
    ((s.screen i).grid cells).Moves stale
      ((s'.screen i).grid (Grid.forget (s.reloads a = some i) cells))
      (Grid.outdated false (s.reloads a = some i) stale) := by
  cases effect_of_step s s' a h with
  | load screen =>
    exact Grid.moves_append (fun vc cells => vc.grid cells) s.screens GiftViewController i cells stale
      screen.viewController (screen.grid_viewController cells)
  | stored k value => exact .same
  | callback e hub vc hd hvc =>
    have hlt := (List.getElem?_eq_some_iff.mp hvc).1
    have hmoves := Grid.moves_set_reload (fun vc cells => vc.grid cells) s.screens GiftViewController
      i e.target cells stale (vc.childAdded e.value) _ hlt (vc.grid_childAdded e.value)
    simpa [reloads, screen, Hub.queue_deliver s.hub hub e hd] using hmoves

/-! ## The machine -/

/-- A list screen of the device.  Gift, Flower and Customize screens are numbered together. -/
inductive Place
  | cart (i : ℕ)
  | favourites (i : ℕ)
  | catalogue (i : ℕ)
  deriving DecidableEq

structure Screens where
  device : Device
  catalogue : Catalogue
  /-- What each cell was configured with since the screen's last reload. -/
  cells : Place → ℕ → Option Item := fun _ _ => none

inductive ScreenEvent
  | device (a : DeviceAction)
  | catalogue (a : CatalogueAction)
  | cellForItemAt (place : Place) (item : ℕ)
  | didSelectItemAt (place : Place) (item : ℕ)
  | favouriteButton (place : Place) (item : ℕ)

namespace ScreenEvent

/-- The screen whose timer fires. -/
def ticks : ScreenEvent → Option Place
  | .device (.shop a) => a.ticks.map .cart
  | .device (.favourites a) => a.ticks.map .favourites
  | _ => none

end ScreenEvent

namespace Screens

/-- `products`, with the view's item count and the cells. -/
def grid (s : Screens) : Place → Grid Item
  | .cart i => (s.device.shop.cart i).grid (s.cells (.cart i))
  | .favourites i => (s.device.favourites.screen i).grid (s.cells (.favourites i))
  | .catalogue i => (s.catalogue.screen i).grid (s.cells (.catalogue i))

/-- The screen that reloads its view. -/
def reloads (s : Screens) : ScreenEvent → Option Place
  | .device (.shop a) => (s.device.shop.reloads a).map .cart
  | .device (.favourites a) => (s.device.favourites.reloads a).map .favourites
  | .catalogue a => (s.catalogue.reloads a).map .catalogue
  | _ => none

/-- The cells that are left when `e` has reloaded a view. -/
def kept (s : Screens) (e : ScreenEvent) : Place → ℕ → Option Item :=
  fun place => Grid.forget (s.reloads e = some place) (s.cells place)

/-- The cell `item` shows `p`. -/
def configured (s : Screens) (place : Place) (item : ℕ) (p : Item) : Screens :=
  { s with cells := Function.update s.cells place (Function.update (s.cells place) item (some p)) }

/-- `cellForItemAt`: the cell is configured with `products[indexPath.item]`.  The view does not ask
beyond its item count; an index beyond `products` traps. -/
def configureCell (s : Screens) (place : Place) (item : ℕ) : Option Screens :=
  if item < (s.grid place).rows.length then
    (s.grid place).items[item]?.map (s.configured place item)
  else none

/-- `firstIndex(of: product)` -/
def firstIndex (s : Screens) (place : Place) (product : Product) : Option ℕ :=
  (s.grid place).items.findIdx? (Item.isProduct product)

/-- `productFavorited` after its call of the service: the cell of the first such product is reloaded. -/
def reloadItem (s : Screens) (place : Place) (product : Product) : Option Screens :=
  match s.firstIndex place product with
  | some index => s.configureCell place index
  | none => some s

def step (s : Screens) : ScreenEvent → Option Screens
  | .device a => (s.device.step a).map fun device => { s with device, cells := s.kept (.device a) }
  | .catalogue a => (s.catalogue.step a).map fun catalogue =>
      { s with catalogue, cells := s.kept (.catalogue a) }
  | .cellForItemAt place item => s.configureCell place item
  | .didSelectItemAt place item =>
    match place with
    | .cart _ => some s
    | _ => if item < (s.grid place).rows.length then (s.grid place).items[item]?.map fun _ => s else none
  | .favouriteButton place item =>
    match place, s.cells place item with
    -- the favourites screen's call of the service is commented out
    | .favourites i, some (.product p) => s.reloadItem (.favourites i) p
    | .catalogue i, some (.product p) =>
      (s.device.step (.favourites (.favoriteSelected p))).bind fun device =>
        { s with device }.reloadItem (.catalogue i) p
    | _, _ => none

def start (user : Option Uid) (db : Database) : Screens where
  device := Device.start user db
  catalogue := Catalogue.start db

/-- The accesses `products[indexPath.item]` that an event makes; the view asks for the cells below
its item count. -/
def accesses (s : Screens) : ScreenEvent → List (Place × ℕ)
  | .cellForItemAt place item => if item < (s.grid place).rows.length then [(place, item)] else []
  | .didSelectItemAt place item =>
    match place with
    | .cart _ => []
    | _ => if item < (s.grid place).rows.length then [(place, item)] else []
  | .favouriteButton place item =>
    match place, s.cells place item with
    | .favourites i, some (.product p) => (s.firstIndex place p).toList.map (Prod.mk (.favourites i))
    | .catalogue i, some (.product p) => (s.firstIndex place p).toList.map (Prod.mk (.catalogue i))
    | _, _ => []
  | _ => []

/-- The screens whose timer has fired since their last callback. -/
def ticked (s : Screens) (e : ScreenEvent) (_s' : Screens) (m : Place → Bool) : Place → Bool :=
  fun place => Grid.outdated (e.ticks = some place) (s.reloads e = some place) (m place)

/-! ## Every step moves the grids -/

theorem grid_configured (s : Screens) (place q : Place) (item : ℕ) (p : Item) :
    (s.configured place item p).grid q = if q = place then (s.grid q).fill item p else s.grid q := by
  split
  · next hq =>
    subst hq
    cases q <;> simp only [grid, configured, Function.update_self] <;> rfl
  · next hq => cases q <;> simp only [grid, configured, Function.update_of_ne hq]

theorem moves_configureCell (s s' : Screens) (place q : Place) (item : ℕ) (stale : Bool)
    (h : s.configureCell place item = some s') : (s.grid q).Moves stale (s'.grid q) stale := by
  unfold configureCell at h
  split at h
  · next hitem =>
    obtain ⟨p, hp, rfl⟩ := Option.map_eq_some_iff.mp h
    rw [grid_configured]
    split
    · next hq =>
      subst hq
      exact .fill item p hitem hp
    · exact .same
  · cases h

theorem moves_reloadItem (s s' : Screens) (place q : Place) (product : Product) (stale : Bool)
    (h : s.reloadItem place product = some s') : (s.grid q).Moves stale (s'.grid q) stale := by
  unfold reloadItem at h
  split at h
  · next index hindex => exact moves_configureCell s s' place q index stale h
  · cases h
    exact .same

/-- The favourite that is saved or taken away is no product of a list. -/
theorem grid_favoriteSelected (s : Screens) (device : Device) (product : Product)
    (h : s.device.step (.favourites (.favoriteSelected product)) = some device) (place : Place) :
    grid { s with device } place = s.grid place := by
  cases Device.effect_of_step s.device device _ h with
  | favourites a favourites ha hstep =>
    cases Favourites.effect_of_step s.device.favourites favourites _ hstep with
    | unfavour u p hu hin => cases place <;> rfl
    | favour u p hu hin => cases place <;> rfl

/-- A screen that neither ticks nor reloads in a step. -/
theorem moves_elsewhere (s : Screens) (e : ScreenEvent) (place : Place) (stale : Bool)
    (grid : (ℕ → Option Item) → Grid Item) (ht : e.ticks ≠ some place)
    (hr : s.reloads e ≠ some place) :
    (grid (s.cells place)).Moves stale (grid (s.kept e place))
      (Grid.outdated (e.ticks = some place) (s.reloads e = some place) stale) := by
  simp only [kept, ht, hr]
  exact .same

theorem moves_device (s : Screens) (device : Device) (a : DeviceAction) (m : Place → Bool)
    (h : s.device.step a = some device) (place : Place) :
    (s.grid place).Moves (m place)
      (grid { s with device, cells := s.kept (.device a) } place)
      (Grid.outdated ((ScreenEvent.device a).ticks = some place) (s.reloads (.device a) = some place)
        (m place)) := by
  cases Device.effect_of_step s.device device a h with
  | shop a shop ha hstep =>
    cases place with
    | cart i =>
      have hr : s.reloads (.device (.shop a)) = some (.cart i) ↔ s.device.shop.reloads a = some i := by
        simp [reloads]
      have ht : (ScreenEvent.device (.shop a)).ticks = some (.cart i) ↔ a.ticks = some i := by
        simp [ScreenEvent.ticks]
      have hmoves := Shop.moves_step s.device.shop shop a hstep i (s.cells (.cart i)) (m (.cart i))
      simp only [grid, kept, hr, ht]
      exact hmoves
    | favourites i =>
      exact moves_elsewhere s _ _ _ (fun cells => (s.device.favourites.screen i).grid cells)
        (by simp [ScreenEvent.ticks]) (by simp [reloads])
    | catalogue i =>
      exact moves_elsewhere s _ _ _ (fun cells => (s.catalogue.screen i).grid cells)
        (by simp [ScreenEvent.ticks]) (by simp [reloads])
  | favourites a favourites ha hstep =>
    cases place with
    | favourites i =>
      have hr : s.reloads (.device (.favourites a)) = some (.favourites i) ↔
          s.device.favourites.reloads a = some i := by
        simp [reloads]
      have ht : (ScreenEvent.device (.favourites a)).ticks = some (.favourites i) ↔
          a.ticks = some i := by
        simp [ScreenEvent.ticks]
      have hmoves := Favourites.moves_step s.device.favourites favourites a hstep i
        (s.cells (.favourites i)) (m (.favourites i))
      simp only [grid, kept, hr, ht]
      exact hmoves
    | cart i =>
      exact moves_elsewhere s _ _ _ (fun cells => (s.device.shop.cart i).grid cells)
        (by simp [ScreenEvent.ticks]) (by simp [reloads])
    | catalogue i =>
      exact moves_elsewhere s _ _ _ (fun cells => (s.catalogue.screen i).grid cells)
        (by simp [ScreenEvent.ticks]) (by simp [reloads])
  | _ => cases place <;> exact .same

theorem moves_catalogue (s : Screens) (catalogue : Catalogue) (a : CatalogueAction)
    (m : Place → Bool) (h : s.catalogue.step a = some catalogue) (place : Place) :
    (s.grid place).Moves (m place)
      (grid { s with catalogue, cells := s.kept (.catalogue a) } place)
      (Grid.outdated ((ScreenEvent.catalogue a).ticks = some place)
        (s.reloads (.catalogue a) = some place) (m place)) := by
  cases place with
  | cart i =>
    exact moves_elsewhere s _ _ _ (fun cells => (s.device.shop.cart i).grid cells)
      (by simp [ScreenEvent.ticks]) (by simp [reloads])
  | favourites i =>
    exact moves_elsewhere s _ _ _ (fun cells => (s.device.favourites.screen i).grid cells)
      (by simp [ScreenEvent.ticks]) (by simp [reloads])
  | catalogue i =>
    have hr : s.reloads (.catalogue a) = some (.catalogue i) ↔ s.catalogue.reloads a = some i := by
      simp [reloads]
    have hmoves := Catalogue.moves_step s.catalogue catalogue a h i (s.cells (.catalogue i))
      (m (.catalogue i))
    simp only [grid, kept, hr]
    exact hmoves

theorem moves_step (s s' : Screens) (e : ScreenEvent) (m : Place → Bool) (h : s.step e = some s')
    (place : Place) :
    (s.grid place).Moves (m place) (s'.grid place) (ticked s e s' m place) := by
  cases e with
  | device a =>
    obtain ⟨device, hstep, rfl⟩ := Option.map_eq_some_iff.mp h
    exact moves_device s device a m hstep place
  | catalogue a =>
    obtain ⟨catalogue, hstep, rfl⟩ := Option.map_eq_some_iff.mp h
    exact moves_catalogue s catalogue a m hstep place
  | cellForItemAt q item => exact moves_configureCell s s' q place item (m place) h
  | didSelectItemAt q item =>
    have hsame : s' = s := by
      simp only [step] at h
      split at h
      · exact (Option.some.inj h).symm
      · split at h
        · obtain ⟨p, -, rfl⟩ := Option.map_eq_some_iff.mp h
          rfl
        · cases h
    rw [hsame]
    exact .same
  | favouriteButton q item =>
    simp only [step] at h
    split at h
    · exact moves_reloadItem s s' _ place _ (m place) h
    · next i p hp =>
      obtain ⟨device, hstep, h⟩ := Option.bind_eq_some_iff.mp h
      have hmoves := moves_reloadItem _ s' _ place _ (m place) h
      rwa [grid_favoriteSelected s device p hstep place] at hmoves
    · cases h

/-! ## Every access -/

/-- The grids are sound along every run. -/
theorem sound_run (user : Option Uid) (db : Database) (tr : List ScreenEvent)
    (sm : Screens × (Place → Bool))
    (hr : run (withHistory step ticked) (start user db, fun _ => false) tr = some sm) (place : Place) :
    (sm.1.grid place).Sound (sm.2 place) := by
  refine run_invariant (withHistory step ticked)
    (fun sm => ∀ place, (sm.1.grid place).Sound (sm.2 place)) ?_ _ ?_ tr sm hr place
  · rintro ⟨s, m⟩ e ⟨s', m'⟩ hs h q
    obtain ⟨hstep, rfl⟩ := (withHistory_eq_some_iff step ticked s s' m m' e).mp h
    exact (hs q).moves _ _ _ _ (moves_step s s' e m hstep q)
  · intro q
    cases q <;> exact Grid.sound_empty

/-- What is asked for is below the item count. -/
theorem accesses_lt (s : Screens) (e : ScreenEvent) (place : Place) (item : ℕ) (stale : Bool)
    (hs : (s.grid place).Sound stale) (h : (place, item) ∈ s.accesses e) :
    item < (s.grid place).rows.length := by
  have hasked : ∀ q j, (place, item) ∈ (if j < (s.grid q).rows.length then [(q, j)] else []) →
      item < (s.grid place).rows.length := by
    intro q j hmem
    split at hmem
    · next hj =>
      obtain ⟨rfl, rfl⟩ := Prod.mk.inj (List.mem_singleton.mp hmem)
      exact hj
    · exact absurd hmem List.not_mem_nil
  have hfound : ∀ q p, (place, item) ∈ (s.firstIndex q p).toList.map (Prod.mk q) →
      item < (s.grid place).rows.length := by
    intro q p hmem
    obtain ⟨index, hindex, he⟩ := List.mem_map.mp hmem
    obtain ⟨rfl, rfl⟩ := Prod.mk.inj he
    have hlt := (List.findIdx?_eq_some_iff_getElem.mp (Option.mem_toList.mp hindex)).1
    exact Nat.lt_of_lt_of_le hlt hs.length_le
  cases e with
  | cellForItemAt q j => exact hasked q j h
  | didSelectItemAt q j =>
    cases q with
    | cart i => exact absurd h List.not_mem_nil
    | favourites i => exact hasked _ j h
    | catalogue i => exact hasked _ j h
  | favouriteButton q j =>
    simp only [accesses] at h
    split at h
    · exact hfound _ _ h
    · exact hfound _ _ h
    · exact absurd h List.not_mem_nil
  | _ => exact absurd h List.not_mem_nil

/-- No timer empties the list of a catalogue screen. -/
theorem catalogue_never_ticked (user : Option Uid) (db : Database) (tr : List ScreenEvent)
    (sm : Screens × (Place → Bool))
    (hr : run (withHistory step ticked) (start user db, fun _ => false) tr = some sm) (i : ℕ) :
    sm.2 (.catalogue i) = false := by
  refine run_invariant (withHistory step ticked) (fun sm => sm.2 (.catalogue i) = false) ?_ _ rfl tr
    sm hr
  rintro ⟨s, m⟩ e ⟨s', m'⟩ hm h
  obtain ⟨-, rfl⟩ := (withHistory_eq_some_iff step ticked s s' m m' e).mp h
  have ht : e.ticks ≠ some (.catalogue i) := by
    cases e with
    | device a => cases a <;> simp [ScreenEvent.ticks]
    | _ => simp [ScreenEvent.ticks]
  simp only at hm
  simp [ticked, Grid.outdated, ht, hm]

end Screens

/-- **When a cell's index finds its product.**  In every run every access `products[indexPath.item]` is in
bounds and finds the product that the cell shows iff none is made to a screen whose timer has fired
since its last callback; the catalogue screens' accesses always do. -/
theorem cells_valid_iff (user : Option Uid) (db : Database) (tr : List ScreenEvent) :
    (Always (withHistory Screens.step Screens.ticked)
        (fun sm e => ∀ x ∈ sm.1.accesses e, (sm.1.grid x.1).Resolves x.2)
        (Screens.start user db, fun _ => false) tr ↔
      Always (withHistory Screens.step Screens.ticked)
        (fun sm e => ∀ x ∈ sm.1.accesses e, sm.2 x.1 = false)
        (Screens.start user db, fun _ => false) tr) ∧
    Always (withHistory Screens.step Screens.ticked)
      (fun sm e => ∀ i j, (.catalogue i, j) ∈ sm.1.accesses e → (sm.1.grid (.catalogue i)).Resolves j)
      (Screens.start user db, fun _ => false) tr := by
  have hiff : ∀ tr sm e,
      run (withHistory Screens.step Screens.ticked) (Screens.start user db, fun _ => false) tr = some sm →
      ∀ x ∈ sm.1.accesses e, ((sm.1.grid x.1).Resolves x.2 ↔ sm.2 x.1 = false) := by
    rintro tr sm e hr ⟨place, item⟩ hx
    have hs := Screens.sound_run user db tr sm hr place
    exact Grid.resolves_iff _ _ hs item (Screens.accesses_lt sm.1 e place item _ hs hx)
  constructor
  · apply always_congr
    intro tr sm e hr
    exact forall₂_congr (hiff tr sm e hr)
  · intro tr₁ e tr₂ sm _ hr i j hx
    exact (hiff tr₁ sm e hr _ hx).mpr (Screens.catalogue_never_ticked user db tr₁ sm hr i)

/-- The cart screen asks for its only cell after the callback. -/
theorem cells_valid_iff_rose :
    Always (withHistory Screens.step Screens.ticked)
      (fun sm e => ∀ x ∈ sm.1.accesses e, (sm.1.grid x.1).Resolves x.2)
      (Screens.start (some "u") roseCart, fun _ => false)
      [.device (.shop .openCart), .device (.shop (.tick 0)), .device (.shop .callback),
        .cellForItemAt (.cart 0) 0] := by
  refine (cells_valid_iff (some "u") roseCart _).1.mpr ?_
  refine always_cons _ _ _ _ _ _ (fun x hx => absurd hx List.not_mem_nil) rfl ?_
  refine always_cons _ _ _ _ _ _ (fun x hx => absurd hx List.not_mem_nil) rfl ?_
  refine always_cons _ _ _ _ _ _ (fun x hx => absurd hx List.not_mem_nil) rfl ?_
  refine always_cons _ _ _ _ _ _ (fun x hx => ?_) rfl (always_nil _ _ _)
  obtain rfl := List.mem_singleton.mp hx
  rfl

/-- The next tick comes before the view asks: the item count is still 1, the list is empty. -/
theorem cells_trap :
    ¬ ∀ (user : Option Uid) (db : Database) (tr : List ScreenEvent),
      Always Screens.step (fun s e => ∀ x ∈ s.accesses e, (s.grid x.1).Resolves x.2)
        (Screens.start user db) tr := by
  intro h
  obtain ⟨p, hp, -⟩ := h (some "u") roseCart
    [.device (.shop .openCart), .device (.shop (.tick 0)), .device (.shop .callback),
      .device (.shop (.tick 0)), .cellForItemAt (.cart 0) 0]
    [.device (.shop .openCart), .device (.shop (.tick 0)), .device (.shop .callback),
      .device (.shop (.tick 0))] (.cellForItemAt (.cart 0) 0) [] _ rfl rfl (.cart 0, 0)
    List.mem_cons_self
  cases hp

end FlowerGift
