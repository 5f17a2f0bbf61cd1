import FlowerGift.Cells
import FlowerGift.Lib.Marks

/-!
# The hearts of the catalogue screens

A cell of Gift, Flower or Customize draws its heart from the cache when it is
configured: all cells of a screen when a callback of `Products` reloads it, and
after a tap the first one with the tapped id.  `CatalogueHearts` is the catalogue
with the favourites and the hearts as they were last drawn.

A callback of the cache draws nothing.  So the hearts of a screen are right
whenever no reload of it is to come, iff every action that changes the cache is
one that the screen need not show, or shows at its only row with that id
(`hearts_follow_iff`).
-/

namespace FlowerGift

open Realtime

structure CatalogueHearts where
  favourites : Favourites
  catalogue : Catalogue
  /-- The hearts of each catalogue screen, `true` where `heart.fill` was drawn. -/
  drawn : ℕ → List Bool := fun _ => []

inductive HeartEvent
  | viewDidLoad (screen : CatalogueScreen)
  | stored (k : Key) (value : Option Record)
  | productAdded
  | favourites (a : FavouriteAction)
  | favouriteButton (i item : ℕ)

namespace CatalogueHearts

/-- `reloadData` in the callback of `Products`: every cell of the screen is configured. -/
def reloadData (s : CatalogueHearts) (catalogue : Catalogue) : ℕ → List Bool :=
  match s.catalogue.reloads .callback with
  | some i => Function.update s.drawn i
      ((catalogue.screen i).rows.map s.favourites.service.contains)
  | none => s.drawn

/-- `productFavorited` after its call of the service: the first cell with an equal product is
configured with the product at its index. -/
def reloadItem (s : CatalogueHearts) (service : UserService) (i : ℕ) (product : Product) : List Bool :=
  match (s.catalogue.screen i).products.findIdx? fun p => Product.eq p product with
  | some index => (s.drawn i).set index
      (((s.catalogue.screen i).products[index]?).any service.contains)
  | none => s.drawn i

def step (s : CatalogueHearts) : HeartEvent → Option CatalogueHearts
  | .viewDidLoad screen =>
    (s.catalogue.step (.load screen)).bind fun catalogue =>
      (s.favourites.step .getCurrentUser).map fun favourites =>
        { favourites, catalogue, drawn := Function.update s.drawn s.catalogue.screens.length [] }
  | .stored k value => (s.catalogue.step (.stored k value)).map fun catalogue => { s with catalogue }
  | .productAdded => (s.catalogue.step .callback).map fun catalogue =>
      { s with catalogue, drawn := s.reloadData catalogue }
  | .favourites a => (s.favourites.step a).map fun favourites => { s with favourites }
  | .favouriteButton i item =>
    (s.catalogue.screen i).rows[item]?.bind fun product =>
      (s.favourites.step (.favoriteSelected product)).map fun favourites =>
        { s with
          favourites
          drawn := Function.update s.drawn i (s.reloadItem favourites.service i product) }

def start (user : Option Uid) (db : Database) : CatalogueHearts where
  favourites := Favourites.start user db
  catalogue := Catalogue.start db

/-- The ids that screen `i` shows, in the order of its rows. -/
def ids (s : CatalogueHearts) (i : ℕ) : List ℤ := (s.catalogue.screen i).rows.map (·.id)

/-- Every displayed heart is filled iff the cache contains a product with the cell's id. -/
def HeartsRight (i : ℕ) (s : CatalogueHearts) : Prop :=
  s.drawn i = (s.catalogue.screen i).rows.map s.favourites.service.contains

instance (i : ℕ) (s : CatalogueHearts) : Decidable (HeartsRight i s) :=
  inferInstanceAs (Decidable (_ = _))

/-- No callback of `Products` is to come that would reload screen `i`. -/
def Loaded (i : ℕ) (s : CatalogueHearts) : Prop := s.catalogue.hub.pendingFor i = []

/-- What the action does to the cache concerns none of the shown ids. -/
def Unseen (s : CatalogueHearts) (ids : List ℤ) : FavouriteAction → Prop
  | .callback => ∀ e ∈ s.favourites.hub.queue.head?, e.target = .service →
      s.favourites.cached (Product.ofSnapshot e.value).id ∨ (Product.ofSnapshot e.value).id ∉ ids
  | .favoriteSelected product => product.id ∉ ids
  | .signOut => ∀ id ∈ ids, ¬ s.favourites.cached id
  | _ => True

/-- A change of the cache finds a reload of screen `i` still to come, concerns no id that the screen
shows, or is a tap on the only row of the screen with that id. -/
def Shown (i : ℕ) (s : CatalogueHearts) (e : HeartEvent) : Prop :=
  ¬ Loaded i s ∨
  match e with
  | .favourites a => s.Unseen (s.ids i) a
  | .favouriteButton j item => ∀ p, (s.catalogue.screen j).rows[item]? = some p →
      if j = i then (s.ids i).count p.id ≤ 1 else p.id ∉ s.ids i
  | _ => True

/-! ## The cache -/

/-- The cache contains a product with that id. -/
def has (service : UserService) (id : ℤ) : Bool := decide (id ∈ service.favourites.map (·.id))

theorem contains_eq (service : UserService) (p : Product) : service.contains p = has service p.id := by
  rw [Bool.eq_iff_iff, service.contains_iff, has, decide_eq_true_eq]

/-- The hearts are the marks of the rows under the cache. -/
theorem map_contains (service : UserService) (l : List Product) :
    l.map service.contains = marks (·.id) (has service) l :=
  List.map_congr_left fun p _ => contains_eq service p

/-- A tap turns the tapped id and no other. -/
theorem has_favoriteSelected (f f' : Favourites) (p : Product)
    (h : f.step (.favoriteSelected p) = some f') :
    has f'.service p.id ≠ has f.service p.id ∧
      ∀ id, id ≠ p.id → has f'.service id = has f.service id := by
  cases Favourites.effect_of_step f f' _ h with
  | unfavour u p hu hin =>
    simp only [has, Favourites.mem_filter_ids]
    constructor
    · simp [hin]
    · intro id hid
      simp [hid]
  | favour u p hu hin =>
    simp only [has, List.map_append, List.map_cons, List.map_nil, List.mem_append,
      List.mem_singleton]
    constructor
    · simp [hin]
    · intro id hid
      simp [hid]

/-- Which shown ids an action of the favourites leaves alone in the cache. -/
theorem unseen_iff (s : CatalogueHearts) (f : Favourites) (a : FavouriteAction) (ids : List ℤ)
    (h : s.favourites.step a = some f) :
    (∀ id ∈ ids, has s.favourites.service id = has f.service id) ↔ s.Unseen ids a := by
  have hflip : ∀ p, s.favourites.step (.favoriteSelected p) = some f →
      ((∀ id ∈ ids, has s.favourites.service id = has f.service id) ↔ p.id ∉ ids) := by
    intro p hp
    obtain ⟨hne, heq⟩ := has_favoriteSelected s.favourites f p hp
    constructor
    · exact fun hsame hmem => hne (hsame _ hmem).symm
    · exact fun hmem id hid => (heq id fun he => hmem (he ▸ hid)).symm
  cases a with
  | favoriteSelected p => exact hflip p h
  | signOut =>
    cases h
    simp [Unseen, has, Favourites.cached, UserService.logoutUser]
  | callback =>
    cases Favourites.effect_of_step s.favourites f _ h with
    | toService e hub hd ht =>
      have hq := Hub.queue_deliver s.favourites.hub hub e hd
      simp only [Unseen, hq, List.head?_cons, Option.mem_some, forall_eq', ht, true_implies, has,
        UserService.childAdded, List.map_append, List.map_cons, List.map_nil, List.mem_append,
        List.mem_singleton, decide_eq_decide]
      constructor
      · intro h
        by_contra hnot
        obtain ⟨hc, hmem⟩ := not_or.mp hnot
        exact hc ((h _ (not_not.mp hmem)).mpr (Or.inr rfl))
      · rintro h id hid
        refine ⟨Or.inl, fun hin => hin.elim (fun hc => hc) ?_⟩
        rintro rfl
        exact h.elim (fun hc => hc) fun hmem => absurd hid hmem
    | toScreen e hub i vc hd ht hvc =>
      have hq := Hub.queue_deliver s.favourites.hub hub e hd
      simp [Unseen, hq, ht]
  | _ =>
    refine iff_of_true (fun id _ => ?_) trivial
    cases Favourites.effect_of_step s.favourites f _ h <;> rfl

/-! ## What a step can do -/

/-- The steps of `step`, one case per kind of effect. -/
inductive Effect (s : CatalogueHearts) : HeartEvent → CatalogueHearts → Prop
  | viewDidLoad (screen : CatalogueScreen) (favourites : Favourites)
    (h : s.favourites.step .getCurrentUser = some favourites) :
    Effect s (.viewDidLoad screen)
      { favourites
        catalogue := s.catalogue.loaded screen
        drawn := Function.update s.drawn s.catalogue.screens.length [] }
  | stored (k : Key) (value : Option Record) :
    Effect s (.stored k value)
      { s with
        catalogue := { s.catalogue with
          db := s.catalogue.db.setValue (.product k) value
          hub := s.catalogue.hub.changed () s.catalogue.db.products
            (s.catalogue.db.products.put k value) } }
  | productAdded (e : Event Unit ℕ Key Record) (hub : Hub Unit ℕ Key Record)
    (vc : CatalogueViewController) (hd : s.catalogue.hub.deliver = some (e, hub))
    (hvc : s.catalogue.screens[e.target]? = some vc) :
    Effect s .productAdded
      { s with
        catalogue := { s.catalogue with
          screens := s.catalogue.screens.set e.target (vc.childAdded e.value), hub }
        drawn := Function.update s.drawn e.target
          ((vc.childAdded e.value).rows.map s.favourites.service.contains) }
  | favourites (a : FavouriteAction) (favourites : Favourites)
    (h : s.favourites.step a = some favourites) : Effect s (.favourites a) { s with favourites }
  | favouriteButton (i item : ℕ) (product : Product) (favourites : Favourites)
    (hp : (s.catalogue.screen i).rows[item]? = some product)
    (h : s.favourites.step (.favoriteSelected product) = some favourites) :
    Effect s (.favouriteButton i item)
      { s with
        favourites
        drawn := Function.update s.drawn i (s.reloadItem favourites.service i product) }

theorem effect_of_step (s s' : CatalogueHearts) (e : HeartEvent) (h : s.step e = some s') :
    Effect s e s' := by
  cases e with
  | viewDidLoad screen =>
    simp only [step, Catalogue.step, Option.bind_some, Option.map_eq_some_iff] at h
    obtain ⟨favourites, hf, rfl⟩ := h
    exact .viewDidLoad screen favourites hf
  | stored k value =>
    simp only [step, Catalogue.step, Option.map_some, Option.some.injEq] at h
    exact h ▸ .stored k value
  | productAdded =>
    simp only [step, Option.map_eq_some_iff] at h
    obtain ⟨catalogue, hc, rfl⟩ := h
    cases Catalogue.effect_of_step _ _ _ hc with
    | callback e hub vc hd hvc =>
      have hlt := (List.getElem?_eq_some_iff.mp hvc).1
      have hdrawn : s.reloadData
          ⟨s.catalogue.db, hub, s.catalogue.screens.set e.target (vc.childAdded e.value)⟩ =
          Function.update s.drawn e.target
            ((vc.childAdded e.value).rows.map s.favourites.service.contains) := by
        simp [reloadData, Catalogue.reloads, Catalogue.screen, hlt,
          Hub.queue_deliver s.catalogue.hub hub e hd]
      rw [hdrawn]
      exact .productAdded e hub vc hd hvc
  | favourites a =>
    simp only [step, Option.map_eq_some_iff] at h
    obtain ⟨favourites, hf, rfl⟩ := h
    exact .favourites a favourites hf
  | favouriteButton i item =>
    simp only [step, Option.bind_eq_some_iff, Option.map_eq_some_iff] at h
    obtain ⟨product, hp, favourites, hf, rfl⟩ := h
    exact .favouriteButton i item product favourites hp hf

/-! ## The rows and the drawn hearts -/

/-- Every screen shows the products it has. -/
def Reloaded (s : CatalogueHearts) : Prop := ∀ vc ∈ s.catalogue.screens, vc.rows = vc.products

theorem rows_eq (s : CatalogueHearts) (i : ℕ) (hs : Reloaded s) :
    (s.catalogue.screen i).rows = (s.catalogue.screen i).products := by
  unfold Catalogue.screen
  rw [List.getD_eq_getElem?_getD]
  cases hvc : s.catalogue.screens[i]? with
  | none => rfl
  | some vc => exact hs vc (List.mem_of_getElem? hvc)

/-- A catalogue action in which the rows of screen `i` stay as they are, and no fewer callbacks are to
come for it. -/
structure Keeps (i : ℕ) (c c' : Catalogue) : Prop where
  rows : (c'.screen i).rows = (c.screen i).rows
  loaded : c'.hub.pendingFor i = [] → c.hub.pendingFor i = []

theorem keeps_loaded (c : Catalogue) (screen : CatalogueScreen) (i : ℕ) (hi : i ≠ c.screens.length) :
    Keeps i c (c.loaded screen) := by
  constructor
  · unfold Catalogue.screen Catalogue.loaded
    rw [List.getD_eq_getElem?_getD, List.getD_eq_getElem?_getD]
    rcases Nat.lt_or_gt_of_ne hi with hlt | hgt
    · rw [List.getElem?_append_left hlt]
    · rw [List.getElem?_eq_none (by simp; omega), List.getElem?_eq_none (by omega)]
  · intro h
    rwa [Catalogue.loaded, Hub.pendingFor_observe_of_ne _ _ _ _ _ (Ne.symm hi)] at h

theorem keeps_stored (c : Catalogue) (db : Database) (new : Children) (i : ℕ) :
    Keeps i c { c with db, hub := c.hub.changed () c.db.products new } := by
  refine ⟨rfl, fun h => ?_⟩
  rw [Hub.pendingFor_changed] at h
  exact (List.append_eq_nil_iff.mp h).1

theorem keeps_callback (c : Catalogue) (e : Event Unit ℕ Key Record) (hub : Hub Unit ℕ Key Record)
    (vc : CatalogueViewController) (i : ℕ) (hd : c.hub.deliver = some (e, hub)) (hi : e.target ≠ i) :
    Keeps i c { c with screens := c.screens.set e.target vc, hub } := by
  constructor
  · unfold Catalogue.screen
    rw [List.getD_eq_getElem?_getD, List.getD_eq_getElem?_getD, List.getElem?_set_ne hi]
  · intro h
    rw [Hub.pendingFor_deliver_of_ne c.hub hub e i hd hi]
    exact h

theorem reloaded_step (s s' : CatalogueHearts) (e : HeartEvent) (h : s.step e = some s')
    (hs : Reloaded s) : Reloaded s' := by
  cases effect_of_step s s' e h with
  | viewDidLoad screen f hf =>
    refine forall_mem_concat _ _ _ hs ?_
    cases screen <;> rfl
  | productAdded e hub vc hd hvc => exact forall_mem_set _ _ _ _ hs rfl
  | stored k value => exact hs
  | favourites a f hf => exact hs
  | favouriteButton i item p f hp hf => exact hs

/-- Hearts that stay as they are drawn stay right iff the cache says the same of the shown ids. -/
theorem heartsRight_iff (i : ℕ) (s s' : CatalogueHearts) (hs : HeartsRight i s)
    (hrows : (s'.catalogue.screen i).rows = (s.catalogue.screen i).rows)
    (hdrawn : s'.drawn i = s.drawn i) :
    HeartsRight i s' ↔ ∀ id ∈ s.ids i, has s.favourites.service id = has s'.favourites.service id := by
  unfold HeartsRight at hs ⊢
  rw [hdrawn, hrows, hs, map_contains, map_contains, marks_eq_iff]
  exact Iff.rfl

/-- After a tap the first row with the tapped id is marked anew. -/
theorem reloadItem_eq (s : CatalogueHearts) (service : UserService) (i : ℕ) (p : Product)
    (hs : Reloaded s) :
    s.reloadItem service i p =
      remark (·.id) p.id (has service p.id) (s.catalogue.screen i).rows (s.drawn i) := by
  have heq : (fun q => Product.eq q p) = fun q => decide (q.id = p.id) := by
    funext q
    rw [Bool.eq_iff_iff, Product.eq_iff, decide_eq_true_eq]
  unfold reloadItem remark
  rw [rows_eq s i hs, heq]
  cases hn : (s.catalogue.screen i).products.findIdx? fun q => decide (q.id = p.id) with
  | none => rfl
  | some n =>
    obtain ⟨hlt, hid, -⟩ := List.findIdx?_eq_some_iff_getElem.mp hn
    rw [decide_eq_true_eq] at hid
    simp only [List.getElem?_eq_getElem hlt, Option.any_some, contains_eq, hid]

/-- A step of the catalogue that keeps the rows and the hearts of screen `i`. -/
theorem right_of_keeps (i : ℕ) (s s' : CatalogueHearts) (hc : Keeps i s.catalogue s'.catalogue)
    (hdrawn : s'.drawn i = s.drawn i)
    (hservice : s'.favourites.service = s.favourites.service) (h : Loaded i s → HeartsRight i s) :
    Loaded i s' → HeartsRight i s' := by
  intro hl
  rw [heartsRight_iff i s s' (h (hc.loaded hl)) hc.rows hdrawn, hservice]
  exact fun _ _ => rfl

/-- A step of the favourites changes what is right only if a reload of the screen is not to come. -/
theorem right_iff_of_loaded (i : ℕ) (s s' : CatalogueHearts) (hc : s'.catalogue = s.catalogue)
    (C : Prop) (h : Loaded i s → (HeartsRight i s' ↔ C)) :
    (Loaded i s' → HeartsRight i s') ↔ ¬ Loaded i s ∨ C := by
  have hl : Loaded i s' ↔ Loaded i s := by rw [Loaded, Loaded, hc]
  rw [hl]
  by_cases hloaded : Loaded i s
  · simp [hloaded, h hloaded]
  · simp [hloaded]

theorem right_step (i : ℕ) (s s' : CatalogueHearts) (e : HeartEvent) (h : s.step e = some s')
    (hs : Reloaded s) (hright : Loaded i s → HeartsRight i s) :
    (Loaded i s' → HeartsRight i s') ↔ Shown i s e := by
  cases effect_of_step s s' e h with
  | viewDidLoad screen f hf =>
    refine iff_of_true ?_ (Or.inr trivial)
    have hservice : f.service = s.favourites.service := by
      cases Favourites.effect_of_step s.favourites f _ hf
      rfl
    by_cases hi : i = s.catalogue.screens.length
    · intro _
      subst hi
      cases screen <;> simp [HeartsRight, Catalogue.screen, Catalogue.loaded,
        CatalogueScreen.viewController, GiftViewController, FlowerViewController,
        CustomizeViewController]
    · exact right_of_keeps i s _ (keeps_loaded s.catalogue screen i hi) (Function.update_of_ne hi _ _)
        hservice hright
  | stored k value =>
    exact iff_of_true (right_of_keeps i s _ (keeps_stored s.catalogue _ _ i) rfl rfl hright)
      (Or.inr trivial)
  | productAdded e hub vc hd hvc =>
    refine iff_of_true ?_ (Or.inr trivial)
    by_cases hi : e.target = i
    · -- all cells are configured anew
      intro _
      subst hi
      have hlt := (List.getElem?_eq_some_iff.mp hvc).1
      simp [HeartsRight, Catalogue.screen, hlt]
    · exact right_of_keeps i s _ (keeps_callback s.catalogue e hub _ i hd hi)
        (Function.update_of_ne (Ne.symm hi) _ _) rfl hright
  | favourites a f hf =>
    refine right_iff_of_loaded i s ⟨f, s.catalogue, s.drawn⟩ rfl _ fun hl => ?_
    exact (heartsRight_iff i s ⟨f, s.catalogue, s.drawn⟩ (hright hl) rfl rfl).trans
      (unseen_iff s f a (s.ids i) hf)
  | favouriteButton j item p f hp hf =>
    refine right_iff_of_loaded i s
      ⟨f, s.catalogue, Function.update s.drawn j (s.reloadItem f.service j p)⟩ rfl _ fun hl => ?_
    obtain ⟨hne, heq⟩ := has_favoriteSelected s.favourites f p hf
    simp only [hp, Option.some.injEq, forall_eq']
    by_cases hj : j = i
    · -- the first row with the id is drawn anew
      subst hj
      rw [if_pos rfl]
      simp only [HeartsRight, Function.update_self]
      rw [reloadItem_eq s f.service j p hs, hright hl, map_contains, map_contains]
      exact remark_marks_iff _ _ _ _ hne heq _
    · rw [if_neg hj]
      exact (heartsRight_iff i s ⟨f, s.catalogue, _⟩ (hright hl) rfl
        (Function.update_of_ne (Ne.symm hj) _ _)).trans
          (unseen_iff s f (.favoriteSelected p) (s.ids i) hf)

end CatalogueHearts

/-- **When the hearts of a catalogue screen follow the favourites.**  In every run from the opened
app, for every screen `i`: as long as every change of the cache finds a reload of the screen still to
come, concerns no id that the screen shows, or is a tap on its only row with that id, the hearts are right
in every state with no callback pending.  They are right whenever no reload is to come, iff every
change is such a one. -/
theorem hearts_follow_iff (user : Option Uid) (db : Database) (i : ℕ) (tr : List HeartEvent)
    (s : CatalogueHearts) (hr : run CatalogueHearts.step (CatalogueHearts.start user db) tr = some s) :
    (Always CatalogueHearts.step (CatalogueHearts.Shown i) (CatalogueHearts.start user db) tr →
      Throughout CatalogueHearts.step (CatalogueHearts.start user db)
        (fun t => t.favourites.hub.queue = [] → t.catalogue.hub.queue = [] → t.HeartsRight i) tr) ∧
      (Throughout CatalogueHearts.step (CatalogueHearts.start user db)
          (fun t => t.Loaded i → t.HeartsRight i) tr ↔
        Always CatalogueHearts.step (CatalogueHearts.Shown i) (CatalogueHearts.start user db) tr) := by
  have hiff := throughout_iff_always CatalogueHearts.step CatalogueHearts.Reloaded
    (fun t => t.Loaded i → t.HeartsRight i) (CatalogueHearts.Shown i)
    (CatalogueHearts.start user db) (fun _ hvc => (nomatch hvc))
    (fun t e t' hs h => CatalogueHearts.reloaded_step t t' e h hs) (fun _ => rfl)
    (fun t e t' hs hright h => CatalogueHearts.right_step i t t' e h hs hright) tr s hr
  refine ⟨fun hshown => ?_, hiff⟩
  rintro tr₁ tr₂ t htr ht - hidle
  exact hiff.mpr hshown tr₁ tr₂ t htr ht (Hub.pendingFor_of_idle _ _ hidle)

/-- A tap on the only gift. -/
theorem hearts_follow_iff_mug :
    ∃ s, run CatalogueHearts.step (CatalogueHearts.start (some "u") mugCatalogue)
        [.viewDidLoad .gift, .productAdded, .favouriteButton 0 0] = some s ∧
      s.drawn 0 = [true] ∧ s.HeartsRight 0 := by
  refine ⟨_, rfl, rfl, ?_⟩
  refine (hearts_follow_iff (some "u") mugCatalogue 0
    [.viewDidLoad .gift, .productAdded, .favouriteButton 0 0] _ rfl).2.mpr ?_ _ [] _
    (List.append_nil _).symm rfl rfl
  refine always_cons _ _ _ _ _ _ (Or.inr trivial) rfl ?_
  refine always_cons _ _ _ _ _ _ (Or.inr trivial) rfl ?_
  refine always_cons _ _ _ _ _ _ (Or.inr ?_) rfl (always_nil _ _ _)
  rintro p hp
  cases hp
  decide

/-- The mug is a favourite. -/
def mugFavourite : Database :=
  mugCatalogue.setValue (.favourite "u" (stringId 7))
    (some (Product.ofCatalogue (mugRecord 12)).favouriteRecord)

/-- The gifts are drawn before the favourites arrive. -/
theorem hearts_stale :
    ¬ ∀ (user : Option Uid) (db : Database) (i : ℕ) (tr : List HeartEvent) (s : CatalogueHearts),
      run CatalogueHearts.step (CatalogueHearts.start user db) tr = some s →
      s.favourites.hub.queue = [] → s.catalogue.hub.queue = [] → s.HeartsRight i := by
  intro h
  have hx := h (some "u") mugFavourite 0 [.viewDidLoad .gift, .productAdded, .favourites .callback] _
    rfl rfl rfl
  revert hx
  decide

end FlowerGift
