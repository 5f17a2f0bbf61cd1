import FlowerGift.Database
import FlowerGift.Lib.Hub
import FlowerGift.Lib.Run

/-!
# The catalogue screens

Gift, Flower and Customize have the same `fetchProducts`, apart from the
category each of them keeps: one child-added listener per loaded screen, whose
closure appends a child of that category and reloads the view.  `Catalogue` is
the node `Products` with the listeners and the loaded screens; the node is
written by others only (`stored`: a child is added, changed or removed).

What a screen has been told of are the children found when it was loaded and
those added since, each as it was then (`tell`).  With no callback pending for
it, a screen lists the children of its category among these, and so the current
ones as long as none has been changed or removed (`catalogue_lists_told`).
-/

namespace FlowerGift

open Realtime

/-! ## The screens -/

/-- The product of a catalogue child. -/
def Product.ofCatalogue (values : Record) : Product where
  name := values.string "productName" ""
  id := values.int "productId" 0
  img := values.string "image" ""
  category := values.string "category" ""
  desc := values.string "description" ""
  price := values.int "price" 0

inductive CatalogueScreen
  | gift
  | flower
  | customize
  deriving DecidableEq

/-- The category that the screen's `fetchProducts` keeps. -/
def CatalogueScreen.type : CatalogueScreen → String
  | .gift => "gift"
  | .flower => "flower"
  | .customize => "bouquet"

theorem CatalogueScreen.type_inj (a b : CatalogueScreen) : a.type = b.type ↔ a = b := by
  cases a <;> cases b <;> decide

/-- `rows` is what the collection view shows, `products` as of the last `reloadData`. -/
structure CatalogueViewController where
  screen : CatalogueScreen
  products : List Product := []
  rows : List Product := []
  deriving DecidableEq

def GiftViewController : CatalogueViewController := { screen := .gift }

def FlowerViewController : CatalogueViewController := { screen := .flower }

def CustomizeViewController : CatalogueViewController := { screen := .customize }

/-- A screen as it is loaded. -/
def CatalogueScreen.viewController : CatalogueScreen → CatalogueViewController
  | .gift => GiftViewController
  | .flower => FlowerViewController
  | .customize => CustomizeViewController

/-- The closure that `fetchProducts` registers. -/
def CatalogueViewController.childAdded (vc : CatalogueViewController) (values : Record) :
    CatalogueViewController :=
  let newProduct := Product.ofCatalogue values
  let products := if newProduct.category == vc.screen.type then vc.products ++ [newProduct]
    else vc.products
  { vc with products, rows := products }

/-- The children of the screen's category. -/
def CatalogueScreen.listed (screen : CatalogueScreen) (children : List Record) : List Product :=
  (children.map Product.ofCatalogue).filter fun p => p.category == screen.type

theorem CatalogueScreen.listed_append (screen : CatalogueScreen) (l₁ l₂ : List Record) :
    screen.listed (l₁ ++ l₂) = screen.listed l₁ ++ screen.listed l₂ := by
  simp [listed]

theorem CatalogueViewController.products_childAdded (vc : CatalogueViewController)
    (values : Record) :
    (vc.childAdded values).products = vc.products ++ vc.screen.listed [values] := by
  unfold childAdded CatalogueScreen.listed
  by_cases h : (Product.ofCatalogue values).category == vc.screen.type
  · simp [h]
  · simp [h]

/-! ## The machine -/

structure Catalogue where
  db : Database
  /-- Listeners on `Products`, for the screen of that index. -/
  hub : Hub Unit ℕ Key Record := {}
  screens : List CatalogueViewController := []

inductive CatalogueAction
  | load (screen : CatalogueScreen)
  | stored (k : Key) (value : Option Record)
  | callback

namespace Catalogue

/-- A screen is loaded: its `fetchProducts` adds a listener. -/
def loaded (s : Catalogue) (screen : CatalogueScreen) : Catalogue :=
  { s with
    screens := s.screens ++ [screen.viewController]
    hub := s.hub.observe () s.screens.length s.db.products }

def step (s : Catalogue) (a : CatalogueAction) : Option Catalogue :=
  match a with
  | .load screen => some (s.loaded screen)
  | .stored k value =>
    let db := s.db.setValue (.product k) value
    some { s with db, hub := s.hub.changed () s.db.products db.products }
  | .callback => s.hub.deliver.bind fun (e, hub) => s.screens[e.target]?.map fun vc =>
      { s with screens := s.screens.set e.target (vc.childAdded e.value), hub }

def start (db : Database) : Catalogue := { db }

/-- The steps of `step`, one case per kind of effect. -/
inductive Effect (s : Catalogue) : CatalogueAction → Catalogue → Prop
  | load (screen : CatalogueScreen) : Effect s (.load screen) (s.loaded screen)
  | stored (k : Key) (value : Option Record) :
    Effect s (.stored k value)
      { s with
        db := s.db.setValue (.product k) value
        hub := s.hub.changed () s.db.products (s.db.products.put k value) }
  | callback (e : Event Unit ℕ Key Record) (hub : Hub Unit ℕ Key Record)
    (vc : CatalogueViewController) (hd : s.hub.deliver = some (e, hub))
    (hvc : s.screens[e.target]? = some vc) :
    Effect s .callback { s with screens := s.screens.set e.target (vc.childAdded e.value), hub }

theorem effect_of_step (s s' : Catalogue) (a : CatalogueAction) (h : s.step a = some s') :
    Effect s a s' := by
  cases a with
  | load screen => cases h; exact .load screen
  | stored k value => cases h; exact .stored k value
  | callback =>
    obtain ⟨⟨e, hub⟩, hd, h⟩ := Option.bind_eq_some_iff.mp h
    obtain ⟨vc, hvc, rfl⟩ := Option.map_eq_some_iff.mp h
    exact .callback e hub vc hd hvc

/-- Listeners and callbacks are for screens that have been loaded. -/
structure Sound (s : Catalogue) : Prop where
  listeners : ∀ l ∈ s.hub.listeners, l.2 < s.screens.length
  queue : ∀ e ∈ s.hub.queue, e.target < s.screens.length

theorem sound_step (s s' : Catalogue) (a : CatalogueAction) (h : s.step a = some s')
    (hs : Sound s) : Sound s' := by
  cases effect_of_step s s' a h with
  | load screen =>
    constructor
    · intro l hl
      show l.2 < (s.screens ++ [screen.viewController]).length
      rw [List.length_append, List.length_singleton]
      rcases List.mem_append.mp hl with hl | hl
      · have := hs.listeners l hl
        omega
      · rw [List.mem_singleton.mp hl]
        omega
    · intro e he
      show e.target < (s.screens ++ [screen.viewController]).length
      rw [List.length_append, List.length_singleton]
      rcases Hub.mem_queue_observe _ _ _ _ e he with he | ⟨-, ht, -⟩
      · have := hs.queue e he
        omega
      · omega
  | stored k value =>
    refine ⟨hs.listeners, fun e he => ?_⟩
    rcases Hub.mem_queue_changed _ _ _ _ e he with he | ⟨-, hl, -⟩
    · exact hs.queue e he
    · exact hs.listeners _ hl
  | callback e hub vc hd hvc =>
    constructor
    · intro l hl
      show l.2 < (s.screens.set e.target (vc.childAdded e.value)).length
      rw [List.length_set]
      rw [Hub.listeners_deliver s.hub hub e hd] at hl
      exact hs.listeners l hl
    · intro e' he'
      show e'.target < (s.screens.set e.target (vc.childAdded e.value)).length
      rw [List.length_set]
      exact hs.queue e' (Hub.mem_queue_deliver s.hub hub e e' hd he')

theorem sound_run (db : Database) (tr : List CatalogueAction) (s : Catalogue)
    (hr : run step (start db) tr = some s) : Sound s :=
  run_invariant step Sound (fun s a s' hs h => sound_step s s' a h hs) (start db)
    ⟨fun _ hl => (nomatch hl), fun _ he => (nomatch he)⟩ tr s hr

/-! ## What a screen has been told of -/

/-- The children that a step adds, with their values. -/
def tell (s : Catalogue) (a : CatalogueAction) (s' : Catalogue) (told : List Record) : List Record :=
  match a with
  | .stored _ _ => told ++ (Hub.added s.db.products s'.db.products).map Prod.snd
  | _ => told

/-- Screen `i` has one listener; what it lists and what is pending for it is what it was told of. -/
structure Follows (i : ℕ) (screen : CatalogueScreen) (s : Catalogue) (told : List Record) : Prop where
  listens : s.hub.count () i = 1
  lists : ∃ vc, s.screens[i]? = some vc ∧ vc.screen = screen ∧
    vc.products ++ screen.listed ((s.hub.pendingFor i).map fun e => e.value) = screen.listed told

theorem screen_viewController (screen : CatalogueScreen) : screen.viewController.screen = screen := by
  cases screen <;> rfl

theorem products_viewController (screen : CatalogueScreen) : screen.viewController.products = [] := by
  cases screen <;> rfl

/-- A screen that is just loaded is told of the children that are there. -/
theorem follows_loaded (s : Catalogue) (screen : CatalogueScreen) (hs : Sound s) :
    Follows s.screens.length screen (s.loaded screen) s.db.products.values := by
  have hcount : s.hub.count () s.screens.length = 0 := by
    unfold Hub.count
    rw [List.count_eq_zero]
    intro hl
    exact absurd (hs.listeners _ hl) (lt_irrefl _)
  have hpending : s.hub.pendingFor s.screens.length = [] := by
    unfold Hub.pendingFor
    rw [List.filter_eq_nil_iff]
    intro e he
    have := hs.queue e he
    simp only [decide_eq_true_eq]
    omega
  constructor
  · show (s.hub.observe () s.screens.length s.db.products).count () s.screens.length = 1
    rw [Hub.count_observe, hcount]
    simp
  · refine ⟨screen.viewController, by simp [loaded], screen_viewController screen, ?_⟩
    rw [products_viewController]
    show [] ++ screen.listed (((s.hub.observe () s.screens.length s.db.products).pendingFor
      s.screens.length).map fun e => e.value) = _
    rw [Hub.pendingFor_observe_self, hpending]
    simp [SortedMap.values, Function.comp_def]

theorem follows_step (i : ℕ) (screen : CatalogueScreen) (s s' : Catalogue) (a : CatalogueAction)
    (told : List Record) (h : s.step a = some s') (hf : Follows i screen s told) :
    Follows i screen s' (tell s a s' told) := by
  obtain ⟨hlistens, vc, hvc, hscreen, hlists⟩ := hf
  have hi : i < s.screens.length := (List.getElem?_eq_some_iff.mp hvc).1
  cases effect_of_step s s' a h with
  | load screen' =>
    have hne : s.screens.length ≠ i := by omega
    refine ⟨?_, vc, ?_, hscreen, ?_⟩
    · show (s.hub.observe () s.screens.length s.db.products).count () i = 1
      rw [Hub.count_observe, if_neg fun hh => hne hh.2, hlistens]
    · show (s.screens ++ [screen'.viewController])[i]? = some vc
      rw [List.getElem?_append_left hi, hvc]
    · show vc.products ++ screen.listed (((s.hub.observe () s.screens.length
        s.db.products).pendingFor i).map fun e => e.value) = screen.listed told
      rw [Hub.pendingFor_observe_of_ne _ _ _ _ _ hne, hlists]
  | stored k value =>
    refine ⟨hlistens, vc, hvc, hscreen, ?_⟩
    have hpending : ((s.hub.changed () s.db.products (s.db.products.put k value)).pendingFor i).map
        (fun e => e.value) = ((s.hub.pendingFor i).map fun e => e.value) ++
          (Hub.added s.db.products (s.db.products.put k value)).map Prod.snd := by
      rw [Hub.pendingFor_changed, hlistens, List.map_append, List.map_flatMap]
      congr 1
      rw [List.map_eq_flatMap]
      rfl
    show vc.products ++ screen.listed (((s.hub.changed () s.db.products
      (s.db.products.put k value)).pendingFor i).map fun e => e.value) = screen.listed (told ++ _)
    rw [hpending, screen.listed_append, ← List.append_assoc, hlists, screen.listed_append]
    rfl
  | callback e hub vc' hd hvc' =>
    by_cases he : e.target = i
    · -- one more of the pending children is listed
      subst he
      rw [hvc] at hvc'
      cases hvc'
      refine ⟨?_, vc.childAdded e.value, ?_, hscreen, ?_⟩
      · show hub.count () e.target = 1
        rw [Hub.count_deliver s.hub hub e () e.target hd, hlistens]
      · show (s.screens.set e.target (vc.childAdded e.value))[e.target]? = _
        rw [List.getElem?_set_self hi]
      · rw [Hub.pendingFor_deliver_self s.hub hub e hd, List.map_cons] at hlists
        rw [vc.products_childAdded, hscreen, List.append_assoc, ← screen.listed_append]
        exact hlists
    · refine ⟨?_, vc, ?_, hscreen, ?_⟩
      · show hub.count () i = 1
        rw [Hub.count_deliver s.hub hub e () i hd, hlistens]
      · show (s.screens.set e.target (vc'.childAdded e.value))[i]? = _
        rw [List.getElem?_set_ne he, hvc]
      · show vc.products ++ screen.listed ((hub.pendingFor i).map fun e => e.value) = _
        rw [← Hub.pendingFor_deliver_of_ne s.hub hub e i hd he]
        exact hlists

/-- No child that is there is stored again or taken away. -/
def Adds (s : Catalogue) (a : CatalogueAction) : Prop :=
  match a with
  | .stored k _ => s.db.products.get k = none
  | _ => True

/-- While children are only added, what a screen was told of are the current children. -/
theorem told_step (s s' : Catalogue) (a : CatalogueAction) (told : List Record)
    (h : s.step a = some s') (ha : Adds s a) (ht : told.Perm s.db.products.values) :
    (tell s a s' told).Perm s'.db.products.values := by
  cases effect_of_step s s' a h with
  | load screen => exact ht
  | stored k value =>
    show (told ++ (Hub.added s.db.products (s.db.products.put k value)).map Prod.snd).Perm
      (s.db.products.put k value).values
    cases value with
    | none =>
      have herase : s.db.products.put k none = s.db.products := s.db.products.erase_of_get_none k ha
      rw [herase, Hub.added_self, List.map_nil, List.append_nil]
      exact ht
    | some r =>
      have hinsert := (s.db.products.entries_insert_perm_erase k r).map Prod.snd
      rw [s.db.products.erase_of_get_none k ha] at hinsert
      rw [show s.db.products.put k (some r) = s.db.products.insert k r from rfl,
        Hub.added_insert_of_none _ _ _ ha]
      exact (ht.append_right [r]).trans ((List.perm_append_singleton r _).trans hinsert.symm)
  | callback e hub vc hd hvc => exact ht

end Catalogue

/-- **What a catalogue screen lists.**  In every run, for every screen loaded in it, with no callback
pending for the screen: its list consists of the children of its category among those found at the
load and those added since, as they were then; if children were only added since the load, these are
the current children, each once. -/
theorem catalogue_lists_told (db : Database) (tr₁ : List CatalogueAction) (s₁ : Catalogue)
    (h₁ : run Catalogue.step (Catalogue.start db) tr₁ = some s₁) (screen : CatalogueScreen)
    (tr₂ : List CatalogueAction) (s : Catalogue) (told : List Record)
    (h₂ : run (withHistory Catalogue.step Catalogue.tell)
      (s₁.loaded screen, s₁.db.products.values) tr₂ = some (s, told))
    (hp : s.hub.pendingFor s₁.screens.length = []) :
    ∃ vc, s.screens[s₁.screens.length]? = some vc ∧ vc.products = screen.listed told ∧
      (∀ p ∈ vc.products, ∀ screen' : CatalogueScreen, p.category = screen'.type → screen' = screen) ∧
      (Always Catalogue.step Catalogue.Adds (s₁.loaded screen) tr₂ →
        vc.products.Perm (screen.listed s.db.products.values)) := by
  have hsound := Catalogue.sound_run db tr₁ s₁ h₁
  obtain ⟨-, vc, hvc, hscreen, hlists⟩ : Catalogue.Follows s₁.screens.length screen s told := by
    refine run_invariant (withHistory Catalogue.step Catalogue.tell)
      (fun sm => Catalogue.Follows s₁.screens.length screen sm.1 sm.2) ?_ _
      (Catalogue.follows_loaded s₁ screen hsound) tr₂ (s, told) h₂
    rintro ⟨t, m⟩ a ⟨t', m'⟩ hf h
    obtain ⟨hstep, rfl⟩ := (withHistory_eq_some_iff _ _ t t' m m' a).mp h
    exact Catalogue.follows_step _ _ t t' a m hstep hf
  have hproducts : vc.products = screen.listed told := by
    rw [hp, List.map_nil] at hlists
    simpa [CatalogueScreen.listed] using hlists
  refine ⟨vc, hvc, hproducts, fun p hmem screen' hcategory => ?_, fun hadds => ?_⟩
  · rw [hproducts] at hmem
    have htype := (List.mem_filter.mp hmem).2
    rw [beq_iff_eq, hcategory] at htype
    exact (screen'.type_inj screen).mp htype
  · have htold : told.Perm s.db.products.values := by
      refine run_induction_of_always (withHistory Catalogue.step Catalogue.tell)
        (fun sm a => Catalogue.Adds sm.1 a) _ (fun _ sm => sm.2.Perm sm.1.db.products.values)
        (List.Perm.refl _) ?_ tr₂ (s, told) ?_ h₂
      · rintro _ ⟨t, m⟩ a ⟨t', m'⟩ - ht ha h
        obtain ⟨hstep, rfl⟩ := (withHistory_eq_some_iff _ _ t t' m m' a).mp h
        exact Catalogue.told_step t t' a m hstep ha ht
      · rintro tra a trb ⟨t, m⟩ htr ht
        exact hadds tra a trb t htr (run_withHistory _ _ _ _ tra _ ht)
    rw [hproducts]
    exact (htold.map _).filter _

/-- A catalogue with one gift. -/
def mugRecord (price : ℤ) : Record :=
  [("productId", .int 7), ("productName", .str "Mug"), ("image", .str "mug"),
    ("category", .str "gift"), ("description", .str "White"), ("price", .int price)]

def mugCatalogue : Database := Database.empty.setValue (.product ⟨"m"⟩) (some (mugRecord 12))

theorem catalogue_lists_told_mug :
    ∃ vc, ((Catalogue.start mugCatalogue).loaded .gift).step .callback =
        some ⟨mugCatalogue, ⟨[((), 0)], []⟩, [vc]⟩ ∧
      vc.products.Perm (CatalogueScreen.gift.listed mugCatalogue.products.values) := by
  obtain ⟨vc, hvc, -, -, hmirror⟩ := catalogue_lists_told mugCatalogue [] _ rfl .gift [.callback]
    _ _ rfl rfl
  cases hvc
  exact ⟨_, rfl, hmirror (always_of_forall _ (fun a => a = .callback) _ _ (by simp) |>.mono _ _ _ _ _
    (by rintro t a rfl; trivial))⟩

/-- A price that is changed after the screen was loaded is not followed. -/
theorem catalogue_keeps_old_price :
    ¬ ∀ (db : Database) (tr : List CatalogueAction) (s : Catalogue) (i : ℕ)
      (vc : CatalogueViewController), run Catalogue.step (Catalogue.start db) tr = some s →
      s.screens[i]? = some vc → s.hub.queue = [] →
      vc.products.Perm (vc.screen.listed s.db.products.values) := by
  intro h
  have hx := h mugCatalogue [.load .gift, .callback, .stored ⟨"m"⟩ (some (mugRecord 15))] _ 0 _ rfl
    rfl rfl
  revert hx
  decide

end FlowerGift
