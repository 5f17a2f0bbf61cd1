import FlowerGift.CartEntries
import FlowerGift.Cells
import FlowerGift.FavouriteOwners

/-!
# From the catalogue to the cart

A product page is opened for a product that a catalogue or favourites screen
lists, and what its buttons write carries the page's id and price.  `Storefront`
is the device with the catalogue and the open pages; every action that names a
product takes it from a page or a cell.  Another device of the app writes for a
child that has been in the catalogue.

The decoders never fail: an id or a price that a child does not store as an
integer is 0.  With `childId` and `childPrice` for the two, every listed product,
every cart and favourites entry and every order line carries those of one child,
and a key belongs to the children with one id (`storefront_carries`).
-/

namespace FlowerGift

open Realtime

/-! ## Products that actions name -/

def Action.brings : Action → List Product
  | .cartButton page | .remoteSet _ page => [page.product]
  | _ => []

def FavouriteAction.brings : FavouriteAction → List Product
  | .favoriteSelected product | .remoteSet _ product => [product]
  | .favouriteButton page _ => [page.product]
  | _ => []

def DeviceAction.brings : DeviceAction → List Product
  | .shop a => a.brings
  | .favourites a => a.brings
  | _ => []

/-! ## Records that carry a product -/

section
variable (G : Product → Prop)

/-- A record of `cart`, `favourite` or `orders` was written for a product of `G`. -/
def Carries : Ref → Record → Prop
  | .cart _ k, v => ∃ page : ProductDetailViewController,
      G page.product ∧ k = stringId page.id ∧ v = page.cartRecord
  | .favourite _ k, v => ∃ p, G p ∧ k = stringId p.id ∧ v = p.favouriteRecord
  | .order _ _ k, v => ∃ (clock : Clock) (o : UUID) (page : ProductDetailViewController),
      G page.product ∧ k = stringId page.id ∧
        v = PaymentViewController.orderLine clock o page.cartProduct
  | _, _ => True

def InCart (p : CartProduct) : Prop := ∃ page : ProductDetailViewController,
  G page.product ∧ p = page.cartProduct

structure Shop.Carry (s : Shop) : Prop where
  db : ∀ r v, s.db.get r = some v → Carries G r v
  queue : ∀ e ∈ s.hub.queue, Carries G (.cart e.node e.key) e.value
  cart : ∀ vc ∈ s.cartScreens, ∀ p ∈ vc.products, InCart G p
  shipping : ∀ vc ∈ s.shippingScreens, ∀ p ∈ vc.products, InCart G p
  payment : ∀ vc ∈ s.paymentScreens, ∀ p ∈ vc.products, InCart G p

structure Favourites.Carry (s : Favourites) : Prop where
  db : ∀ r v, s.db.get r = some v → Carries G r v
  queue : ∀ e ∈ s.hub.queue, Carries G (.favourite e.node e.key) e.value
  screens : ∀ vc ∈ s.screens, ∀ p ∈ vc.products, G p

/-- What an action writes is for a product that it names, or for one on the payment screen. -/
theorem Shop.carries_issued (s : Shop) (a : Action) (hs : s.Carry G) (ha : ∀ p ∈ a.brings, G p)
    (r : Ref) (v : Record) (hw : Write.setValue r v ∈ s.issued a) : Carries G r v := by
  have hpage : ∀ u (page : ProductDetailViewController), G page.product →
      Write.setValue r v = .setValue (.cart u (stringId page.id)) page.cartRecord →
      Carries G r v := by
    intro u page hg heq
    cases heq
    exact ⟨page, hg, rfl, rfl⟩
  cases a with
  | cartButton page =>
    simp only [issued, ProductDetailViewController.cartButton] at hw
    split at hw
    · exact hpage _ page (ha _ List.mem_cons_self) (List.mem_singleton.mp hw)
    · cases hw
  | remoteSet u page => exact hpage u page (ha _ List.mem_cons_self) (List.mem_singleton.mp hw)
  | button n clock o =>
    simp only [issued] at hw
    split at hw
    · next vc hvc =>
      cases hu : s.currentUser with
      | none => simp only [hu, PaymentViewController.button] at hw; cases hw
      | some u =>
        rw [hu, button_writes] at hw
        obtain ⟨p, hp, heq | heq⟩ := mem_rounds u clock o vc.products _ hw
        · cases heq
          obtain ⟨page, hg, rfl⟩ := hs.payment vc (List.mem_of_getElem? hvc) p hp
          exact ⟨clock, o, page, hg, rfl, rfl⟩
        · cases heq
    · cases hw
  | removeItem product =>
    simp only [issued, CartViewController.removeItem, PaymentViewController.removeItem] at hw
    split at hw
    · cases List.mem_singleton.mp hw
    · cases hw
  | remoteRemove u id => cases List.mem_singleton.mp hw
  | _ => cases hw

theorem Shop.carry_step (s s' : Shop) (a : Action) (h : s.step a = some s')
    (ha : ∀ p ∈ a.brings, G p) (hs : s.Carry G) : s'.Carry G := by
  have hdb : ∀ r v, s'.db.get r = some v → Carries G r v := by
    intro r v hv
    rw [db_step s s' a h] at hv
    rcases get_applyAll_or_mem _ _ r v hv with hv | hw
    · exact hs.db r v hv
    · exact carries_issued G s a hs ha r v hw
  have hqueue : ∀ e ∈ s'.hub.queue, Carries G (.cart e.node e.key) e.value := by
    intro e he
    rcases mem_queue_step s s' a h e he with he | hv
    · exact hs.queue e he
    · exact hdb _ _ hv
  obtain ⟨-, hold, hcart, hshipping, hpayment⟩ := hs
  cases effect_of_step s s' a h with
  | signIn u => exact ⟨hdb, hqueue, hcart, hshipping, hpayment⟩
  | signOut => exact ⟨hdb, hqueue, hcart, hshipping, hpayment⟩
  | openCart =>
    exact ⟨hdb, hqueue, forall_mem_concat _ _ _ hcart fun p hp => (nomatch hp), hshipping, hpayment⟩
  | tick i vc₀ hvc₀ =>
    exact ⟨hdb, hqueue, forall_mem_set _ _ _ _ hcart fun p hp => (nomatch hp), hshipping, hpayment⟩
  | callback e hub vc₀ hd hvc₀ =>
    refine ⟨hdb, hqueue, forall_mem_set _ _ _ _ hcart ?_, hshipping, hpayment⟩
    refine forall_mem_concat _ _ _ (hcart vc₀ (List.mem_of_getElem? hvc₀)) ?_
    -- the delivered entry was written for a page
    obtain ⟨page, hg, -, hv⟩ := hold e (Hub.mem_queue_of_deliver s.hub hub e hd)
    exact ⟨page, hg, by rw [hv, ofSnapshot_cartRecord]⟩
  | commit a ha =>
    refine ⟨hdb, hqueue, ?_, ?_, ?_⟩
    · rw [cartScreens_commit]
      exact hcart
    · rw [shippingScreens_commit]
      exact hshipping
    · rw [paymentScreens_commit]
      exact hpayment
  | buyButton i vc₀ hvc₀ =>
    exact ⟨hdb, hqueue, hcart,
      forall_mem_concat _ _ _ hshipping (hcart vc₀ (List.mem_of_getElem? hvc₀)), hpayment⟩
  | shippingBuyButton j vc₀ hvc₀ =>
    exact ⟨hdb, hqueue, hcart, hshipping,
      forall_mem_concat _ _ _ hpayment (hshipping vc₀ (List.mem_of_getElem? hvc₀))⟩

theorem Favourites.carry_save (s : Favourites) (u : Uid) (p : Product) (hp : G p) (hs : s.Carry G)
    (r : Ref) (v : Record) (hv : (s.save u p).db.get r = some v) : Carries G r v := by
  have hget : (s.save u p).db.get r =
      if r = .favourite u (stringId p.id) then some p.favouriteRecord else s.db.get r :=
    s.db.get_setValue _ r _
  rw [hget] at hv
  split at hv
  · next hr =>
    rw [hr, ← Option.some.inj hv]
    exact ⟨p, hp, rfl, rfl⟩
  · exact hs.db r v hv

theorem Favourites.carry_drop (s : Favourites) (u : Uid) (id : ℤ) (hs : s.Carry G) (r : Ref)
    (v : Record) (hv : (s.drop u id).db.get r = some v) : Carries G r v := by
  have hget : (s.drop u id).db.get r =
      if r = .favourite u (stringId id) then none else s.db.get r :=
    s.db.get_setValue _ r _
  rw [hget] at hv
  split at hv
  · cases hv
  · exact hs.db r v hv

theorem Favourites.carry_step (s s' : Favourites) (a : FavouriteAction) (h : s.step a = some s')
    (ha : ∀ p ∈ a.brings, G p) (hs : s.Carry G) : s'.Carry G := by
  have hdb : ∀ r v, s'.db.get r = some v → Carries G r v := by
    cases effect_of_step s s' a h with
    | unfavour u p hu hin => exact carry_drop G s u p.id hs
    | favour u p hu hin => exact carry_save G s u p (ha p List.mem_cons_self) hs
    | heart u page isSelected hu => exact carry_save G s u _ (ha _ List.mem_cons_self) hs
    | remoteSet u p => exact carry_save G s u p (ha p List.mem_cons_self) hs
    | remoteRemove u id => exact carry_drop G s u id hs
    | _ => exact hs.db
  have hqueue : ∀ e ∈ s'.hub.queue, Carries G (.favourite e.node e.key) e.value := by
    intro e he
    rcases mem_queue_step s s' a h e he with he | hv
    · exact hs.queue e he
    · exact hdb _ _ hv
  refine ⟨hdb, hqueue, ?_⟩
  cases effect_of_step s s' a h with
  | openFavourites => exact forall_mem_concat _ _ _ hs.screens fun p hp => (nomatch hp)
  | tick i vc₀ hvc₀ => exact forall_mem_set _ _ _ _ hs.screens fun p hp => (nomatch hp)
  | toScreen e hub i vc₀ hd ht hvc₀ =>
    refine forall_mem_set _ _ _ _ hs.screens ?_
    refine forall_mem_concat _ _ _ (hs.screens vc₀ (List.mem_of_getElem? hvc₀)) ?_
    -- the delivered favourite was saved for a product
    obtain ⟨q, hg, -, hv⟩ := hs.queue e (Hub.mem_queue_of_deliver s.hub hub e hd)
    rw [hv, ofSnapshot_favouriteRecord]
    exact hg
  | _ => exact hs.screens

structure Device.Carry (s : Device) : Prop where
  shop : s.shop.Carry G
  favourites : s.favourites.Carry G

theorem Device.carry_step (s s' : Device) (a : DeviceAction) (h : s.step a = some s')
    (ha : ∀ p ∈ a.brings, G p) (hs : s.Carry G) : s'.Carry G := by
  obtain ⟨hshop, hfavourites⟩ := hs
  cases effect_of_step s s' a h with
  | signIn u =>
    exact ⟨⟨hshop.db, hshop.queue, hshop.cart, hshop.shipping, hshop.payment⟩,
      ⟨hfavourites.db, hfavourites.queue, hfavourites.screens⟩⟩
  | signOut =>
    exact ⟨⟨hshop.db, hshop.queue, hshop.cart, hshop.shipping, hshop.payment⟩,
      ⟨hfavourites.db, hfavourites.queue, hfavourites.screens⟩⟩
  | shop a shop hswitch hstep =>
    have hshop' := Shop.carry_step G s.shop shop a hstep ha hshop
    exact ⟨hshop', hshop'.db, hfavourites.queue, hfavourites.screens⟩
  | favourites a favourites hswitch hstep =>
    have hfavourites' := Favourites.carry_step G s.favourites favourites a hstep ha hfavourites
    exact ⟨⟨hfavourites'.db, hshop.queue, hshop.cart, hshop.shipping, hshop.payment⟩, hfavourites'⟩
  | closeCart i hi => exact ⟨hshop, hfavourites⟩
  | closeFavourites i hi => exact ⟨hshop, hfavourites⟩

end

/-- What is carried is for a product of a larger set, too. -/
theorem Carries.mono (G H : Product → Prop) (hGH : ∀ p, G p → H p) (r : Ref) (v : Record)
    (h : Carries G r v) : Carries H r v := by
  cases r with
  | cart u k =>
    obtain ⟨page, hg, hk⟩ := h
    exact ⟨page, hGH _ hg, hk⟩
  | favourite u k =>
    obtain ⟨p, hg, hk⟩ := h
    exact ⟨p, hGH _ hg, hk⟩
  | order u o k =>
    obtain ⟨clock, uid, page, hg, hk⟩ := h
    exact ⟨clock, uid, page, hGH _ hg, hk⟩
  | _ => trivial

theorem InCart.mono (G H : Product → Prop) (hGH : ∀ p, G p → H p) (p : CartProduct)
    (h : InCart G p) : InCart H p := by
  obtain ⟨page, hg, hp⟩ := h
  exact ⟨page, hGH _ hg, hp⟩

theorem Device.Carry.mono (G H : Product → Prop) (hGH : ∀ p, G p → H p) (s : Device)
    (h : s.Carry G) : s.Carry H where
  shop :=
    { db := fun r v hv => (h.shop.db r v hv).mono G H hGH r v
      queue := fun e he => (h.shop.queue e he).mono G H hGH _ _
      cart := fun vc hvc p hp => (h.shop.cart vc hvc p hp).mono G H hGH p
      shipping := fun vc hvc p hp => (h.shop.shipping vc hvc p hp).mono G H hGH p
      payment := fun vc hvc p hp => (h.shop.payment vc hvc p hp).mono G H hGH p }
  favourites :=
    { db := fun r v hv => (h.favourites.db r v hv).mono G H hGH r v
      queue := fun e he => (h.favourites.queue e he).mono G H hGH _ _
      screens := fun vc hvc p hp => hGH p (h.favourites.screens vc hvc p hp) }

/-! ## Children of the catalogue -/

/-- The id that the app takes from a child: the stored integer, or 0. -/
def childId (values : Record) : ℤ := (asInt (values.lookup "productId")).getD 0

/-- The price that the app takes from a child: the stored integer, or 0. -/
def childPrice (values : Record) : ℤ := (asInt (values.lookup "price")).getD 0

theorem id_ofCatalogue (values : Record) : (Product.ofCatalogue values).id = childId values := rfl

theorem price_ofCatalogue (values : Record) : (Product.ofCatalogue values).price = childPrice values :=
  rfl

/-- The product of one of the children. -/
def OfChild (told : List Record) (p : Product) : Prop := ∃ values ∈ told, p = Product.ofCatalogue values

/-- The child that an action stores. -/
def CatalogueAction.tells : CatalogueAction → List Record
  | .stored _ value => value.toList
  | _ => []

structure Catalogue.Sourced (told : List Record) (s : Catalogue) : Prop where
  db : ∀ k v, s.db.products.get k = some v → v ∈ told
  queue : ∀ e ∈ s.hub.queue, e.value ∈ told
  products : ∀ vc ∈ s.screens, ∀ p ∈ vc.products, OfChild told p
  rows : ∀ vc ∈ s.screens, ∀ p ∈ vc.rows, OfChild told p

theorem OfChild.append (told more : List Record) (p : Product) (h : OfChild told p) :
    OfChild (told ++ more) p := by
  obtain ⟨values, hv, hp⟩ := h
  exact ⟨values, List.mem_append_left _ hv, hp⟩

/-- A screen appends a product of the child that it is told of, or none. -/
theorem CatalogueViewController.ofChild_childAdded (vc : CatalogueViewController) (told : List Record)
    (values : Record) (hv : values ∈ told) (h : ∀ p ∈ vc.products, OfChild told p) :
    ∀ p ∈ (vc.childAdded values).products, OfChild told p := by
  rw [products_childAdded, List.forall_mem_append]
  refine ⟨h, fun p hp => ?_⟩
  obtain ⟨values', hv', rfl⟩ := List.mem_map.mp (List.mem_of_mem_filter hp)
  rw [List.mem_singleton.mp hv']
  exact ⟨values, hv, rfl⟩

theorem Catalogue.sourced_step (told : List Record) (s s' : Catalogue) (a : CatalogueAction)
    (h : s.step a = some s') (hs : Sourced told s) : Sourced (told ++ a.tells) s' := by
  have hproducts : ∀ vc ∈ s.screens, ∀ p ∈ vc.products, OfChild (told ++ a.tells) p :=
    fun vc hvc p hp => (hs.products vc hvc p hp).append told _ p
  have hrows : ∀ vc ∈ s.screens, ∀ p ∈ vc.rows, OfChild (told ++ a.tells) p :=
    fun vc hvc p hp => (hs.rows vc hvc p hp).append told _ p
  have hqueue : ∀ e ∈ s.hub.queue, e.value ∈ told ++ a.tells :=
    fun e he => List.mem_append_left _ (hs.queue e he)
  have hdb : ∀ k v, s.db.products.get k = some v → v ∈ told ++ a.tells :=
    fun k v hv => List.mem_append_left _ (hs.db k v hv)
  cases effect_of_step s s' a h with
  | load screen =>
    refine ⟨hdb, fun e he => ?_, forall_mem_concat _ _ _ hproducts ?_,
      forall_mem_concat _ _ _ hrows ?_⟩
    · rcases Hub.mem_queue_observe _ _ _ _ e he with he | ⟨-, -, hg⟩
      · exact hqueue e he
      · exact hdb _ _ hg
    · cases screen <;> exact fun p hp => (nomatch hp)
    · cases screen <;> exact fun p hp => (nomatch hp)
  | stored k value =>
    have hput : ∀ k' v, (s.db.products.put k value).get k' = some v →
        v ∈ told ++ (CatalogueAction.stored k value).tells := by
      intro k' v hv
      rw [SortedMap.get_put] at hv
      split at hv
      · exact List.mem_append_right _ (Option.mem_toList.mpr hv)
      · exact hdb k' v hv
    refine ⟨hput, fun e he => ?_, hproducts, hrows⟩
    rcases Hub.mem_queue_changed _ _ _ _ e he with he | ⟨-, -, hg, -⟩
    · exact hqueue e he
    · exact hput _ _ hg
  | callback e hub vc hd hvc =>
    have hadded : ∀ p ∈ (vc.childAdded e.value).products, OfChild (told ++ []) p :=
      vc.ofChild_childAdded _ e.value (hqueue e (Hub.mem_queue_of_deliver s.hub hub e hd))
        (hproducts vc (List.mem_of_getElem? hvc))
    exact ⟨hdb, fun e' he' => hqueue e' (Hub.mem_queue_deliver s.hub hub e e' hd he'),
      forall_mem_set _ _ _ _ hproducts hadded, forall_mem_set _ _ _ _ hrows hadded⟩

/-! ## The machine -/

structure Storefront where
  device : Device
  catalogue : Catalogue
  /-- The product pages that have been opened. -/
  pages : List ProductDetailViewController := []
  /-- The children that have been under `Products` so far. -/
  told : List Record

inductive StorefrontEvent
  | device (a : DeviceAction)
  | catalogue (a : CatalogueAction)
  | didSelectItemAt (place : Place) (item : ℕ)
  | stepper (j : ℕ) (b : Stepper)
  | cartButton (j : ℕ)
  | favouriteButton (j : ℕ) (isSelected : Bool)
  | productFavorited (i item : ℕ)
  | remoteCart (u : Uid) (child : ℕ) (count : ℤ)
  | remoteFavourite (u : Uid) (child : ℕ)

namespace Storefront

/-- `products` of the screen. -/
def products (s : Storefront) : Place → List Product
  | .cart _ => []
  | .favourites i => (s.device.favourites.screen i).products
  | .catalogue i => (s.catalogue.screen i).products

def perform (s : Storefront) (a : DeviceAction) : Option Storefront :=
  (s.device.step a).map fun device => { s with device }

def step (s : Storefront) : StorefrontEvent → Option Storefront
  | .device a =>
    -- an action that names a product is one of the events below
    if a.brings = [] then s.perform a else none
  | .catalogue a => (s.catalogue.step a).map fun catalogue =>
      { s with catalogue, told := s.told ++ a.tells }
  | .didSelectItemAt place item => (s.products place)[item]?.map fun product =>
      { s with pages := s.pages ++ [.opened product] }
  | .stepper j b => s.pages[j]?.map fun page => { s with pages := s.pages.set j (b.press page) }
  | .cartButton j => s.pages[j]?.bind fun page => s.perform (.shop (.cartButton page))
  | .favouriteButton j isSelected => s.pages[j]?.bind fun page =>
      s.perform (.favourites (.favouriteButton page isSelected))
  | .productFavorited i item => (s.catalogue.screen i).rows[item]?.bind fun product =>
      s.perform (.favourites (.favoriteSelected product))
  | .remoteCart u child count => s.told[child]?.bind fun values =>
      s.perform (.shop (.remoteSet u
        { ProductDetailViewController.opened (.ofCatalogue values) with count }))
  | .remoteFavourite u child => s.told[child]?.bind fun values =>
      s.perform (.favourites (.remoteSet u (.ofCatalogue values)))

/-- The app as it is opened, with any catalogue and no carts, favourites and orders yet. -/
def start (user : Option Uid) (products : Children) : Storefront where
  device := Device.start user { Database.empty with products }
  catalogue := Catalogue.start { Database.empty with products }
  told := products.values

/-- Whatever carries a product carries that of a child. -/
structure Sound (s : Storefront) : Prop where
  catalogue : s.catalogue.Sourced s.told
  device : s.device.Carry (OfChild s.told)
  pages : ∀ page ∈ s.pages, OfChild s.told page.product

theorem sound_perform (s s' : Storefront) (a : DeviceAction) (h : s.perform a = some s')
    (ha : ∀ p ∈ a.brings, OfChild s.told p) (hs : Sound s) : Sound s' := by
  obtain ⟨device, hstep, rfl⟩ := Option.map_eq_some_iff.mp h
  exact ⟨hs.catalogue, Device.carry_step _ s.device device a hstep ha hs.device, hs.pages⟩

/-- The screens list products of children. -/
theorem ofChild_products (s : Storefront) (hs : Sound s) (place : Place) (p : Product)
    (hp : p ∈ s.products place) : OfChild s.told p := by
  cases place with
  | cart i => cases hp
  | favourites i =>
    simp only [products, Favourites.screen, List.getD_eq_getElem?_getD] at hp
    cases hvc : s.device.favourites.screens[i]? with
    | none => rw [hvc] at hp; cases hp
    | some vc =>
      rw [hvc] at hp
      exact hs.device.favourites.screens vc (List.mem_of_getElem? hvc) p hp
  | catalogue i =>
    simp only [products, Catalogue.screen, List.getD_eq_getElem?_getD] at hp
    cases hvc : s.catalogue.screens[i]? with
    | none => rw [hvc] at hp; cases hp
    | some vc =>
      rw [hvc] at hp
      exact hs.catalogue.products vc (List.mem_of_getElem? hvc) p hp

theorem ofChild_rows (s : Storefront) (hs : Sound s) (i : ℕ) (p : Product)
    (hp : p ∈ (s.catalogue.screen i).rows) : OfChild s.told p := by
  simp only [Catalogue.screen, List.getD_eq_getElem?_getD] at hp
  cases hvc : s.catalogue.screens[i]? with
  | none => rw [hvc] at hp; cases hp
  | some vc =>
    rw [hvc] at hp
    exact hs.catalogue.rows vc (List.mem_of_getElem? hvc) p hp

theorem sound_step (s s' : Storefront) (e : StorefrontEvent) (h : s.step e = some s') (hs : Sound s) :
    Sound s' := by
  cases e with
  | device a =>
    simp only [step] at h
    split at h
    · next ha => exact sound_perform s s' a h (by simp [ha]) hs
    · cases h
  | catalogue a =>
    obtain ⟨catalogue, hstep, rfl⟩ := Option.map_eq_some_iff.mp h
    exact ⟨Catalogue.sourced_step s.told s.catalogue catalogue a hstep hs.catalogue,
      hs.device.mono _ _ (fun p hp => hp.append s.told _ p),
      fun page hpage => (hs.pages page hpage).append s.told _ _⟩
  | didSelectItemAt place item =>
    obtain ⟨p, hp, rfl⟩ := Option.map_eq_some_iff.mp h
    exact ⟨hs.catalogue, hs.device, forall_mem_concat _ _ _ hs.pages
      (ofChild_products s hs place p (List.mem_of_getElem? hp))⟩
  | stepper j b =>
    obtain ⟨page, hpage, rfl⟩ := Option.map_eq_some_iff.mp h
    refine ⟨hs.catalogue, hs.device, forall_mem_set _ _ _ _ hs.pages ?_⟩
    rw [b.press_eq page]
    exact hs.pages page (List.mem_of_getElem? hpage)
  | cartButton j =>
    obtain ⟨page, hpage, h⟩ := Option.bind_eq_some_iff.mp h
    exact sound_perform s s' _ h
      (List.forall_mem_singleton.mpr (hs.pages page (List.mem_of_getElem? hpage))) hs
  | favouriteButton j isSelected =>
    obtain ⟨page, hpage, h⟩ := Option.bind_eq_some_iff.mp h
    exact sound_perform s s' _ h
      (List.forall_mem_singleton.mpr (hs.pages page (List.mem_of_getElem? hpage))) hs
  | productFavorited i item =>
    obtain ⟨p, hp, h⟩ := Option.bind_eq_some_iff.mp h
    exact sound_perform s s' _ h
      (List.forall_mem_singleton.mpr (ofChild_rows s hs i p (List.mem_of_getElem? hp))) hs
  | remoteCart u child count =>
    obtain ⟨values, hv, h⟩ := Option.bind_eq_some_iff.mp h
    exact sound_perform s s' _ h
      (List.forall_mem_singleton.mpr ⟨values, List.mem_of_getElem? hv, rfl⟩) hs
  | remoteFavourite u child =>
    obtain ⟨values, hv, h⟩ := Option.bind_eq_some_iff.mp h
    exact sound_perform s s' _ h
      (List.forall_mem_singleton.mpr ⟨values, List.mem_of_getElem? hv, rfl⟩) hs

theorem sound_start (user : Option Uid) (products : Children) : Sound (start user products) where
  catalogue :=
    { db := fun k v hv => List.mem_map.mpr ⟨(k, v), (products.get_eq_some_iff k v).mp hv, rfl⟩
      queue := fun e he => (nomatch he)
      products := fun vc hvc => (nomatch hvc)
      rows := fun vc hvc => (nomatch hvc) }
  device := by
    have hdb : ∀ r v, ({ Database.empty with products } : Database).get r = some v →
        Carries (OfChild products.values) r v := by
      intro r v hv
      cases r with
      | product k => trivial
      | user u => trivial
      | cart u k => cases hv
      | favourite u k => cases hv
      | order u o k => cases hv
    exact ⟨⟨hdb, fun e he => (nomatch he), fun vc hvc => (nomatch hvc), fun vc hvc => (nomatch hvc),
      fun vc hvc => (nomatch hvc)⟩, hdb, fun e he => (nomatch he), fun vc hvc => (nomatch hvc)⟩
  pages := fun page hpage => (nomatch hpage)

theorem sound_run (user : Option Uid) (products : Children) (tr : List StorefrontEvent)
    (s : Storefront) (hr : run step (start user products) tr = some s) : Sound s :=
  run_invariant step Sound (fun s e s' hs h => sound_step s s' e h hs) _ (sound_start user products)
    tr s hr

/-- The record at key `k` was written for a child, and the key is that of the children with its id. -/
structure EntryOf (s : Storefront) (values : Record) (k : Key) (v : Record) : Prop where
  told : values ∈ s.told
  productId : v.lookup "productId" = some (.int (childId values))
  shared : ∀ values' ∈ s.told,
    k = stringId (Product.ofCatalogue values').id ↔ childId values' = childId values

theorem entryOf_page (s : Storefront) (page : ProductDetailViewController) (values : Record)
    (k : Key) (v : Record) (hv : values ∈ s.told) (hpage : page.product = Product.ofCatalogue values)
    (hk : k = stringId page.id) (hid : v.lookup "productId" = some (.int page.id)) :
    EntryOf s values k v := by
  have hpageId : page.id = childId values := congrArg Product.id hpage
  refine ⟨hv, hpageId ▸ hid, fun values' _ => ?_⟩
  rw [hk, stringId_inj, hpageId]
  exact eq_comm

end Storefront

/-- **What the shop sells.**  In every run from the opened app, whatever the catalogue stores: a listed
product has the id and the price of a child that has been in the catalogue, the stored integers or 0
where there is none; every entry of `cart`, `favourite` and `orders` was written for such a child, at its
price, and its key belongs to exactly the children with the same id. -/
theorem storefront_carries (user : Option Uid) (products : Children) (tr : List StorefrontEvent)
    (s : Storefront) (hr : run Storefront.step (Storefront.start user products) tr = some s) :
    (∀ i, ∀ p ∈ (s.catalogue.screen i).rows, ∃ values ∈ s.told,
      p.id = childId values ∧ p.price = childPrice values) ∧
    (∀ u k v, (s.device.shop.db.cart u).get k = some v → ∃ values qty, s.EntryOf values k v ∧
      v.lookup "price" = some (.int (childPrice values)) ∧ v.lookup "qty" = some (.int qty) ∧
        v.lookup "subtotal" = some (.int (qty * childPrice values))) ∧
    (∀ u k v, (s.device.shop.db.favourite u).get k = some v → ∃ values, s.EntryOf values k v ∧
      v.lookup "price" = some (.int (childPrice values))) ∧
    (∀ u o k v, (s.device.shop.db.order u o).get k = some v → ∃ values qty, s.EntryOf values k v ∧
      v.lookup "qty" = some (.int qty) ∧
        v.lookup "subtotal" = some (.int (qty * childPrice values))) := by
  have hs := Storefront.sound_run user products tr s hr
  have hprice : ∀ (page : ProductDetailViewController) (values : Record),
      page.product = Product.ofCatalogue values → page.price = childPrice values :=
    fun page values hpage => congrArg Product.price hpage
  refine ⟨fun i p hp => ?_, fun u k v hv => ?_, fun u k v hv => ?_, fun u o k v hv => ?_⟩
  · obtain ⟨values, hv, rfl⟩ := Storefront.ofChild_rows s hs i p hp
    exact ⟨values, hv, id_ofCatalogue values, price_ofCatalogue values⟩
  · obtain ⟨page, ⟨values, hvalues, hpage⟩, hk, rfl⟩ := hs.device.shop.db (.cart u k) v hv
    refine ⟨values, page.count, s.entryOf_page page values k _ hvalues hpage hk rfl, ?_⟩
    rw [← hprice page values hpage]
    exact ⟨rfl, rfl, rfl⟩
  · obtain ⟨p, ⟨values, hvalues, rfl⟩, hk, rfl⟩ := hs.device.shop.db (.favourite u k) v hv
    exact ⟨values, s.entryOf_page (.opened (.ofCatalogue values)) values k _ hvalues rfl hk rfl, rfl⟩
  · obtain ⟨clock, uid, page, ⟨values, hvalues, hpage⟩, hk, rfl⟩ := hs.device.shop.db (.order u o k) v hv
    refine ⟨values, page.count, s.entryOf_page page values k _ hvalues hpage hk rfl, ?_⟩
    rw [← hprice page values hpage]
    exact ⟨rfl, rfl⟩

theorem storefront_carries_mug :
    ∃ s, run Storefront.step (Storefront.start (some "u") mugCatalogue.products)
        [.catalogue (.load .gift), .catalogue .callback, .didSelectItemAt (.catalogue 0) 0,
          .stepper 0 .plus, .cartButton 0] = some s ∧
      (s.device.shop.db.cart "u").get (stringId 7) ≠ none ∧
      ∀ u k v, (s.device.shop.db.cart u).get k = some v → ∃ values qty, s.EntryOf values k v ∧
        v.lookup "price" = some (.int (childPrice values)) ∧ v.lookup "qty" = some (.int qty) ∧
          v.lookup "subtotal" = some (.int (qty * childPrice values)) :=
  ⟨_, rfl, by decide, (storefront_carries (some "u") mugCatalogue.products
    [.catalogue (.load .gift), .catalogue .callback, .didSelectItemAt (.catalogue 0) 0,
      .stepper 0 .plus, .cartButton 0] _ rfl).2.1⟩

/-- Two gifts without an integer id and price. -/
def unpricedGifts : Children :=
  (SortedMap.insert ∅ ⟨"a"⟩ [("productName", .str "Mug"), ("category", .str "gift"),
    ("price", .str "12")]).insert ⟨"b"⟩
      [("productName", .str "Card"), ("category", .str "gift"), ("productId", .str "2")]

/-- Both are listed with id 0 and price 0. -/
theorem storefront_makes_up_ids :
    ¬ ∀ (user : Option Uid) (products : Children) (tr : List StorefrontEvent) (s : Storefront),
      run Storefront.step (Storefront.start user products) tr = some s →
      (∀ i, ∀ p ∈ (s.catalogue.screen i).rows, ∃ values ∈ s.told,
        asInt (values.lookup "productId") = some p.id ∧ asInt (values.lookup "price") = some p.price) := by
  intro h
  have hx := h none unpricedGifts [.catalogue (.load .gift), .catalogue .callback] _ rfl 0
  revert hx
  decide

end FlowerGift
