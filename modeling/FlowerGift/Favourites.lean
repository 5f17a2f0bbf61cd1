import FlowerGift.Database
import FlowerGift.Lib.Hub
import FlowerGift.Lib.Run

/-!
# Favourites: the shared cache, its listeners and the taps

`UserService` is one object for the whole app; its list `favourites` is filled
by the callbacks of every `getCurrentUser` so far and by the taps themselves.
`Favourites` is the state of one device with the database client's listeners on
the `favourite` nodes, the cache and the favourites screens; `step` performs one
action and answers `none` where the code traps (`favoriteSelected` unwraps the
user id) or there is nothing to act on.

    s.waiting       what the cache still has to receive
    waiting_save    saving a favourite: one callback per listener if it is new
    hub_drop        taking one away is not heard of
-/

namespace FlowerGift

open Realtime

/-! ## The cache -/

structure UserService where
  favourites : List Product := []
  deriving DecidableEq

namespace UserService

/-- The closure that `getCurrentUser` registers. -/
def childAdded (service : UserService) (values : Record) : UserService where
  favourites := service.favourites ++ [Product.ofSnapshot values]

/-- `favourites.contains(product)`, by `Product.==`. -/
def contains (service : UserService) (product : Product) : Bool :=
  service.favourites.any fun p => Product.eq p product

/-- `favoriteSelected`, for the user id that it unwraps. -/
def favoriteSelected (service : UserService) (userID : Uid) (product : Product) :
    UserService × Write :=
  if service.contains product then
    (⟨service.favourites.filter fun p => !Product.eq p product⟩,
      .removeValue (.favourite userID (stringId product.id)))
  else
    (⟨service.favourites ++ [product]⟩,
      .setValue (.favourite userID (stringId product.id)) product.favouriteRecord)

def logoutUser (_service : UserService) : UserService where
  favourites := []

theorem contains_iff (service : UserService) (product : Product) :
    service.contains product = true ↔ product.id ∈ service.favourites.map (·.id) := by
  unfold contains
  rw [List.any_eq_true, List.mem_map]
  simp only [Product.eq_iff]

end UserService

/-! ## The favourites screen and the product page's heart -/

/-- `rows` is what the collection view shows, `products` as of the last `reloadData`. -/
structure FavouriteViewController where
  products : List Product := []
  rows : List Product := []
  deriving DecidableEq

namespace FavouriteViewController

/-- The timer's closure up to the registration of the listener. -/
def tick (vc : FavouriteViewController) : FavouriteViewController := { vc with products := [] }

/-- The closure that `fetchFavProducts` registers. -/
def childAdded (vc : FavouriteViewController) (values : Record) : FavouriteViewController where
  products := vc.products ++ [Product.ofSnapshot values]
  rows := vc.products ++ [Product.ofSnapshot values]

end FavouriteViewController

/-- The heart after a tap, and the writes of the tap. -/
structure HeartTap where
  isSelected : Bool
  image : String
  writes : List Write

/-- `FavouriteButton` of the product page: it saves when the heart becomes unselected. -/
def ProductDetailViewController.favouriteButton (page : ProductDetailViewController)
    (user : Option Uid) (isSelected : Bool) : HeartTap :=
  if !isSelected then ⟨true, "heart", []⟩
  else
    ⟨false, "heart.fill",
      match user with
      | some userID => [.setValue (.favourite userID (stringId page.id)) page.favouriteRecord]
      | none => []⟩

def rose : Product := ⟨"Rose", 1, "rose", "Flower", "Red", 30⟩

/-- The product that a product page shows. -/
def ProductDetailViewController.product (page : ProductDetailViewController) : Product :=
  ⟨page.name, page.id, page.img, page.category, page.dec, page.price⟩

/-! ## The machine -/

/-- Who listens on a `favourite` node. -/
inductive Watcher
  | service
  | screen (i : ℕ)
  deriving DecidableEq

structure Favourites where
  currentUser : Option Uid
  db : Database
  hub : Hub Uid Watcher Key Record := {}
  service : UserService := {}
  screens : List FavouriteViewController := []

inductive FavouriteAction
  | signIn (u : Uid)
  | signOut
  | getCurrentUser
  | favoriteSelected (product : Product)
  | favouriteButton (page : ProductDetailViewController) (isSelected : Bool)
  | remoteSet (u : Uid) (product : Product)
  | remoteRemove (u : Uid) (id : ℤ)
  | openFavourites
  | tick (i : ℕ)
  | callback
  deriving DecidableEq

namespace Favourites

/-- One write on the local copy; the listeners of a `favourite` node hear of a new entry. -/
def write (s : Favourites) (w : Write) : Favourites :=
  let db := w.apply s.db
  { s with
    db
    hub := match w.ref with
      | .favourite u _ => s.hub.changed u (s.db.favourite u) (db.favourite u)
      | _ => s.hub }

/-- The listener that `getCurrentUser` (for the cache) or `fetchFavProducts` (for a screen) adds. -/
def fetch (s : Favourites) (t : Watcher) : Hub Uid Watcher Key Record :=
  match s.currentUser with
  | some userID => s.hub.observe userID t (s.db.favourite userID)
  | none => s.hub

/-- The callback runs. -/
def receive (s : Favourites) (e : Event Uid Watcher Key Record) : Option Favourites :=
  match e.target with
  | .service => some { s with service := s.service.childAdded e.value }
  | .screen i => s.screens[i]?.map fun vc =>
      { s with screens := s.screens.set i (vc.childAdded e.value) }

def step (s : Favourites) (a : FavouriteAction) : Option Favourites :=
  match a with
  | .signIn u => some { s with currentUser := some u }
  | .signOut => some { s with currentUser := none, service := s.service.logoutUser }
  | .getCurrentUser => some { s with hub := s.fetch .service }
  | .favoriteSelected product => s.currentUser.map fun userID =>
      let (service, w) := s.service.favoriteSelected userID product
      { s.write w with service }
  | .favouriteButton page isSelected =>
      some ((page.favouriteButton s.currentUser isSelected).writes.foldl write s)
  | .remoteSet u product =>
      some (s.write (.setValue (.favourite u (stringId product.id)) product.favouriteRecord))
  | .remoteRemove u id => some (s.write (.removeValue (.favourite u (stringId id))))
  | .openFavourites => some { s with screens := s.screens ++ [{}] }
  | .tick i => s.screens[i]?.map fun vc =>
      { s with screens := s.screens.set i vc.tick, hub := s.fetch (.screen i) }
  | .callback => s.hub.deliver.bind fun (e, hub) => { s with hub }.receive e

/-- The app as it is opened. -/
def start (user : Option Uid) (db : Database) : Favourites := { currentUser := user, db }

/-- What the cache still has to receive. -/
def waiting (s : Favourites) : List Product :=
  (s.hub.pendingFor .service).map fun e => Product.ofSnapshot e.value

/-- A favourite of `product` is saved under `favourite/u`. -/
def save (s : Favourites) (u : Uid) (product : Product) : Favourites :=
  s.write (.setValue (.favourite u (stringId product.id)) product.favouriteRecord)

/-- `favourite/u` loses the entry of `id`. -/
def drop (s : Favourites) (u : Uid) (id : ℤ) : Favourites :=
  s.write (.removeValue (.favourite u (stringId id)))

/-! ## Saving and dropping -/

section
variable (s : Favourites) (u : Uid)

theorem favourite_save (product : Product) (u' : Uid) :
    (s.save u product).db.favourite u' =
      if u' = u then (s.db.favourite u).insert (stringId product.id) product.favouriteRecord
      else s.db.favourite u' :=
  s.db.favourite_setValue_favourite u u' _ _

theorem favourite_drop (id : ℤ) (u' : Uid) :
    (s.drop u id).db.favourite u' =
      if u' = u then (s.db.favourite u).erase (stringId id) else s.db.favourite u' :=
  s.db.favourite_setValue_favourite u u' _ _

theorem hub_save (product : Product) :
    (s.save u product).hub = s.hub.changed u (s.db.favourite u)
      ((s.db.favourite u).insert (stringId product.id) product.favouriteRecord) := by
  show s.hub.changed u (s.db.favourite u) ((s.save u product).db.favourite u) = _
  rw [favourite_save, if_pos rfl]

/-- A removal is not heard of. -/
theorem hub_drop (id : ℤ) : (s.drop u id).hub = s.hub := by
  show s.hub.changed u (s.db.favourite u) ((s.drop u id).db.favourite u) = _
  rw [favourite_drop, if_pos rfl]
  exact Hub.changed_of_added_nil _ _ _ _ (Hub.added_erase _ _)

@[simp] theorem count_save (product : Product) (n : Uid) (t : Watcher) :
    (s.save u product).hub.count n t = s.hub.count n t := by
  rw [hub_save, Hub.count_changed]

@[simp] theorem listeners_save (product : Product) :
    (s.save u product).hub.listeners = s.hub.listeners := by
  rw [hub_save, Hub.listeners_changed]

/-- Saving a favourite that is not there yet is heard of once per listener. -/
theorem waiting_save (product : Product) :
    (s.save u product).waiting = s.waiting ++
      if ((s.db.favourite u).get (stringId product.id)).isSome then []
      else List.replicate (s.hub.count u .service) product := by
  unfold waiting
  rw [hub_save, Hub.pendingFor_changed, List.map_append]
  congr 1
  cases hg : (s.db.favourite u).get (stringId product.id) with
  | some r => simp [Hub.added_insert_of_some _ _ _ r hg]
  | none => simp [Hub.added_insert_of_none _ _ _ hg]

theorem waiting_drop (id : ℤ) : (s.drop u id).waiting = s.waiting := by
  unfold waiting
  rw [hub_drop]

/-- A new listener of the cache makes it receive all that is there. -/
theorem waiting_fetch_service (hu : s.currentUser = some u) :
    waiting { s with hub := s.fetch .service } =
      s.waiting ++ (s.db.favourite u).values.map Product.ofSnapshot := by
  simp only [waiting, fetch, hu, Hub.pendingFor_observe_self, List.map_append, List.map_map,
    SortedMap.values, Function.comp_def]

/-- Listeners of the screens are nothing to the cache. -/
theorem waiting_fetch_screen (i : ℕ) (screens : List FavouriteViewController) :
    waiting { s with screens, hub := s.fetch (.screen i) } = s.waiting := by
  unfold waiting fetch
  split
  · simp only [Hub.pendingFor_observe_of_ne _ _ _ _ _ (nofun : Watcher.screen i ≠ .service)]
  · rfl

end

/-! ## What a step can do -/

/-- The steps of `step`, one case per kind of effect. -/
inductive Effect (s : Favourites) : FavouriteAction → Favourites → Prop
  | signIn (u : Uid) : Effect s (.signIn u) { s with currentUser := some u }
  | signOut : Effect s .signOut { s with currentUser := none, service := s.service.logoutUser }
  | getCurrentUser : Effect s .getCurrentUser { s with hub := s.fetch .service }
  | unfavour (u : Uid) (product : Product) (hu : s.currentUser = some u)
    (hin : product.id ∈ s.service.favourites.map (·.id)) :
    Effect s (.favoriteSelected product)
      { s.drop u product.id with
        service := ⟨s.service.favourites.filter fun p => !Product.eq p product⟩ }
  | favour (u : Uid) (product : Product) (hu : s.currentUser = some u)
    (hin : product.id ∉ s.service.favourites.map (·.id)) :
    Effect s (.favoriteSelected product)
      { s.save u product with service := ⟨s.service.favourites ++ [product]⟩ }
  | heart (u : Uid) (page : ProductDetailViewController) (isSelected : Bool)
    (hu : s.currentUser = some u) : Effect s (.favouriteButton page isSelected) (s.save u page.product)
  | noHeart (page : ProductDetailViewController) (isSelected : Bool) :
    Effect s (.favouriteButton page isSelected) s
  | remoteSet (u : Uid) (product : Product) : Effect s (.remoteSet u product) (s.save u product)
  | remoteRemove (u : Uid) (id : ℤ) : Effect s (.remoteRemove u id) (s.drop u id)
  | openFavourites : Effect s .openFavourites { s with screens := s.screens ++ [{}] }
  | tick (i : ℕ) (vc : FavouriteViewController) (hvc : s.screens[i]? = some vc) :
    Effect s (.tick i) { s with screens := s.screens.set i vc.tick, hub := s.fetch (.screen i) }
  | toService (e : Event Uid Watcher Key Record) (hub : Hub Uid Watcher Key Record)
    (hd : s.hub.deliver = some (e, hub)) (ht : e.target = .service) :
    Effect s .callback { s with hub, service := s.service.childAdded e.value }
  | toScreen (e : Event Uid Watcher Key Record) (hub : Hub Uid Watcher Key Record) (i : ℕ)
    (vc : FavouriteViewController) (hd : s.hub.deliver = some (e, hub)) (ht : e.target = .screen i)
    (hvc : s.screens[i]? = some vc) :
    Effect s .callback { s with hub, screens := s.screens.set i (vc.childAdded e.value) }

theorem effect_of_step (s s' : Favourites) (a : FavouriteAction) (h : s.step a = some s') :
    Effect s a s' := by
  cases a with
  | signIn u => cases h; exact .signIn u
  | signOut => cases h; exact .signOut
  | getCurrentUser => cases h; exact .getCurrentUser
  | favoriteSelected product =>
    obtain ⟨u, hu, rfl⟩ := Option.map_eq_some_iff.mp h
    by_cases hin : product.id ∈ s.service.favourites.map (·.id)
    · have hc := (s.service.contains_iff product).mpr hin
      simp only [UserService.favoriteSelected, hc, if_true]
      exact .unfavour u product hu hin
    · have hc : ¬ s.service.contains product = true := fun hc =>
        hin ((s.service.contains_iff product).mp hc)
      simp only [UserService.favoriteSelected, hc]
      exact .favour u product hu hin
  | favouriteButton page isSelected =>
    cases h
    cases isSelected with
    | false => exact .noHeart page false
    | true =>
      cases hu : s.currentUser with
      | none => exact .noHeart page true
      | some u => exact .heart u page true hu
  | remoteSet u product => cases h; exact .remoteSet u product
  | remoteRemove u id => cases h; exact .remoteRemove u id
  | openFavourites => cases h; exact .openFavourites
  | tick i =>
    obtain ⟨vc, hvc, rfl⟩ := Option.map_eq_some_iff.mp h
    exact .tick i vc hvc
  | callback =>
    obtain ⟨⟨e, hub⟩, hd, h⟩ := Option.bind_eq_some_iff.mp h
    simp only [receive] at h
    split at h
    · next ht => cases h; exact .toService e hub hd ht
    · next i ht =>
      obtain ⟨vc, hvc, rfl⟩ := Option.map_eq_some_iff.mp h
      exact .toScreen e hub i vc hd ht hvc

end Favourites

end FlowerGift
