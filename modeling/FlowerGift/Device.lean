import FlowerGift.CartScreen
import FlowerGift.FavouriteCache

/-!
# The whole device: screens that open and close, and the listeners they leave

A `Device` is the shop and the favourites of one device, with one signed-in user
and one local copy of the database, and the cart and favourites screens that are
open.  A closed screen stays alive, since its repeating timer keeps it.

Listeners are registered by the ticks of the two polling screens and by every
`getCurrentUser`, and nothing removes one (`Shop.live_step`,
`Favourites.live_step`).  So their number stays within the number of open
screens exactly along the runs in which every registration still has room, a
screen is closed only when there is room to spare and nobody signs out with a
listener left (`listeners_bounded_iff`).
-/

namespace FlowerGift

open Realtime

/-- The actions that register a listener on `cart/u`. -/
def Action.fetches : Action → Bool
  | .tick _ => true
  | _ => false

/-- The actions that register a listener on `favourite/u`. -/
def FavouriteAction.fetches : FavouriteAction → Bool
  | .getCurrentUser | .tick _ => true
  | _ => false

theorem Shop.live_step (s s' : Shop) (a : Action) (h : s.step a = some s') (u : Uid) :
    s'.hub.live u = s.hub.live u + if a.fetches ∧ s.currentUser = some u then 1 else 0 := by
  cases effect_of_step s s' a h with
  | tick i vc hvc =>
    show (s.fetchCartProducts i).live u = _
    unfold fetchCartProducts
    cases hu : s.currentUser with
    | none => simp
    | some userID => simp [Hub.live_observe, Action.fetches]
  | callback e hub vc hd hvc =>
    show hub.live u = _
    unfold Hub.live
    rw [Hub.listeners_deliver s.hub hub e hd]
    simp [Action.fetches]
  | commit a ha =>
    unfold Hub.live
    rw [listeners_commit]
    cases a <;> first | (simp [Action.fetches]; done) | cases ha
  | _ => simp [Action.fetches]

theorem Favourites.live_step (s s' : Favourites) (a : FavouriteAction) (h : s.step a = some s')
    (u : Uid) :
    s'.hub.live u = s.hub.live u + if a.fetches ∧ s.currentUser = some u then 1 else 0 := by
  have hfetch : ∀ t, (s.fetch t).live u = s.hub.live u + if s.currentUser = some u then 1 else 0 := by
    intro t
    unfold fetch
    cases hu : s.currentUser with
    | none => simp
    | some userID => simp [Hub.live_observe]
  have hsave : ∀ u' p, (s.save u' p).hub.live u = s.hub.live u := by
    intro u' p
    unfold Hub.live
    rw [listeners_save]
  have hdeliver : ∀ e hub, s.hub.deliver = some (e, hub) → hub.live u = s.hub.live u := by
    intro e hub hd
    unfold Hub.live
    rw [Hub.listeners_deliver s.hub hub e hd]
  cases effect_of_step s s' a h with
  | getCurrentUser =>
    show (s.fetch .service).live u = _
    simp [hfetch, FavouriteAction.fetches]
  | tick i vc hvc =>
    show (s.fetch (.screen i)).live u = _
    simp [hfetch, FavouriteAction.fetches]
  | unfavour u' product hu hin =>
    show (s.drop u' product.id).hub.live u = _
    simp [hub_drop, FavouriteAction.fetches]
  | favour u' product hu hin =>
    show (s.save u' product).hub.live u = _
    simp [hsave, FavouriteAction.fetches]
  | heart u' page isSelected hu => simp [hsave, FavouriteAction.fetches]
  | remoteSet u' product => simp [hsave, FavouriteAction.fetches]
  | remoteRemove u' id => simp [hub_drop, FavouriteAction.fetches]
  | toService e hub hd ht =>
    show hub.live u = _
    simp [hdeliver e hub hd, FavouriteAction.fetches]
  | toScreen e hub i vc hd ht hvc =>
    show hub.live u = _
    simp [hdeliver e hub hd, FavouriteAction.fetches]
  | _ => simp [FavouriteAction.fetches]

/-! ## The machine -/

structure Device where
  shop : Shop
  favourites : Favourites
  /-- The cart screens that are open. -/
  openCarts : List ℕ := []
  /-- The favourites screens that are open. -/
  openFavourites : List ℕ := []

inductive DeviceAction
  | signIn (u : Uid)
  | signOut
  | shop (a : Action)
  | favourites (a : FavouriteAction)
  | closeCart (i : ℕ)
  | closeFavourites (i : ℕ)

/-- The action that opens a cart screen. -/
def Action.opens : Action → Bool
  | .openCart => true
  | _ => false

/-- The action that opens a favourites screen. -/
def FavouriteAction.opens : FavouriteAction → Bool
  | .openFavourites => true
  | _ => false

namespace Device

/-- One local copy of the database: the shop's writes reach it. -/
def withShop (s : Device) (shop : Shop) : Device :=
  { s with shop, favourites := { s.favourites with db := shop.db } }

def withFavourites (s : Device) (favourites : Favourites) : Device :=
  { s with favourites, shop := { s.shop with db := favourites.db } }

def step (s : Device) (a : DeviceAction) : Option Device :=
  match a with
  | .signIn u => (s.shop.step (.signIn u)).bind fun shop =>
      (s.favourites.step (.signIn u)).map fun favourites => { s with shop, favourites }
  | .signOut => (s.shop.step .signOut).bind fun shop =>
      (s.favourites.step .signOut).map fun favourites => { s with shop, favourites }
  | .shop a =>
    -- a change of user concerns both parts
    if a.switches then none
    else (s.shop.step a).map fun shop => { s.withShop shop with
      openCarts := if a.opens then s.openCarts ++ [s.shop.cartScreens.length] else s.openCarts }
  | .favourites a =>
    if a.switches then none
    else (s.favourites.step a).map fun favourites => { s.withFavourites favourites with
      openFavourites := if a.opens then s.openFavourites ++ [s.favourites.screens.length]
        else s.openFavourites }
  | .closeCart i =>
    if i ∈ s.openCarts then some { s with openCarts := s.openCarts.erase i } else none
  | .closeFavourites i =>
    if i ∈ s.openFavourites then some { s with openFavourites := s.openFavourites.erase i } else none

/-- The app as it is opened. -/
def start (user : Option Uid) (db : Database) : Device where
  shop := Shop.start user db
  favourites := Favourites.start user db

/-! ## Listeners and open screens -/

/-- The users who have signed out since they last signed in. -/
def departed (s : Device) (a : DeviceAction) (_s' : Device) (out : List Uid) : List Uid :=
  match a with
  | .signIn u => out.filter fun v => v ≠ u
  | .signOut => s.shop.currentUser.toList ++ out
  | _ => out

/-- The listeners stay within the open screens, and none is left for a user who has signed out. -/
structure Bounded (so : Device × List Uid) : Prop where
  cart : ∀ u, so.1.shop.hub.live u ≤ so.1.openCarts.length
  favourite : ∀ u, so.1.favourites.hub.live u ≤ 1 + so.1.openFavourites.length
  departed : ∀ u ∈ so.2, so.1.shop.hub.live u = 0 ∧ so.1.favourites.hub.live u = 0

/-- There is room for the listener that is registered, or for the screen that is closed, and nobody
signs out with a listener left. -/
def HasRoom (so : Device × List Uid) (a : DeviceAction) : Prop :=
  let s := so.1
  match a with
  | .signIn _ => True
  | .signOut => ∀ u, s.shop.currentUser = some u →
      s.shop.hub.live u = 0 ∧ s.favourites.hub.live u = 0
  | .shop a => a.fetches = true → ∀ u, s.shop.currentUser = some u →
      s.shop.hub.live u < s.openCarts.length
  | .favourites a => a.fetches = true → ∀ u, s.shop.currentUser = some u →
      s.favourites.hub.live u < 1 + s.openFavourites.length
  | .closeCart _ => ∀ u, s.shop.hub.live u < s.openCarts.length
  | .closeFavourites _ => ∀ u, s.favourites.hub.live u < 1 + s.openFavourites.length

/-- Both parts have the same user, who has not signed out. -/
structure Joint (so : Device × List Uid) : Prop where
  user : so.1.favourites.currentUser = so.1.shop.currentUser
  present : ∀ u ∈ so.2, so.1.shop.currentUser ≠ some u

/-- The steps of `step`, one case per kind of effect. -/
inductive Effect (s : Device) : DeviceAction → Device → Prop
  | signIn (u : Uid) :
    Effect s (.signIn u)
      { s with
        shop := { s.shop with currentUser := some u }
        favourites := { s.favourites with currentUser := some u } }
  | signOut :
    Effect s .signOut
      { s with
        shop := { s.shop with currentUser := none }
        favourites := { s.favourites with
          currentUser := none, service := s.favourites.service.logoutUser } }
  | shop (a : Action) (shop : Shop) (ha : a.switches = false) (hstep : s.shop.step a = some shop) :
    Effect s (.shop a) { s.withShop shop with
      openCarts := if a.opens then s.openCarts ++ [s.shop.cartScreens.length] else s.openCarts }
  | favourites (a : FavouriteAction) (favourites : Favourites) (ha : a.switches = false)
    (hstep : s.favourites.step a = some favourites) :
    Effect s (.favourites a) { s.withFavourites favourites with
      openFavourites := if a.opens then s.openFavourites ++ [s.favourites.screens.length]
        else s.openFavourites }
  | closeCart (i : ℕ) (hi : i ∈ s.openCarts) :
    Effect s (.closeCart i) { s with openCarts := s.openCarts.erase i }
  | closeFavourites (i : ℕ) (hi : i ∈ s.openFavourites) :
    Effect s (.closeFavourites i) { s with openFavourites := s.openFavourites.erase i }

theorem effect_of_step (s s' : Device) (a : DeviceAction) (h : s.step a = some s') : Effect s a s' := by
  cases a with
  | signIn u => cases h; exact .signIn u
  | signOut => cases h; exact .signOut
  | shop a =>
    simp only [step] at h
    split at h
    · cases h
    · next ha =>
      obtain ⟨shop, hstep, rfl⟩ := Option.map_eq_some_iff.mp h
      exact .shop a shop (by simpa using ha) hstep
  | favourites a =>
    simp only [step] at h
    split at h
    · cases h
    · next ha =>
      obtain ⟨favourites, hstep, rfl⟩ := Option.map_eq_some_iff.mp h
      exact .favourites a favourites (by simpa using ha) hstep
  | closeCart i =>
    simp only [step] at h
    split at h
    · next hi => cases h; exact .closeCart i hi
    · cases h
  | closeFavourites i =>
    simp only [step] at h
    split at h
    · next hi => cases h; exact .closeFavourites i hi
    · cases h

theorem joint_step (s s' : Device) (a : DeviceAction) (out : List Uid) (h : s.step a = some s')
    (hj : Joint (s, out)) : Joint (s', departed s a s' out) := by
  cases effect_of_step s s' a h with
  | signIn u =>
    refine ⟨rfl, fun v hv hvu => ?_⟩
    have hne : v ≠ u := by simpa using (List.mem_filter.mp hv).2
    exact hne (Option.some.inj hvu).symm
  | signOut => exact ⟨rfl, fun v _ hv => (nomatch hv)⟩
  | shop a shop ha hstep =>
    have huser : shop.currentUser = s.shop.currentUser := by
      rw [Shop.currentUser_step s.shop shop a hstep]
      cases a <;> first | rfl | cases ha
    exact ⟨hj.user.trans huser.symm, fun u hu => huser ▸ hj.present u hu⟩
  | favourites a favourites ha hstep =>
    have huser := Favourites.currentUser_step s.favourites favourites a ha hstep
    exact ⟨huser.trans hj.user, hj.present⟩
  | closeCart i hi => exact ⟨hj.user, hj.present⟩
  | closeFavourites i hi => exact ⟨hj.user, hj.present⟩

/-- One more listener for the signed-in user fits in where there is room; a screen that is opened
(`n ≤ n'`) registers none. -/
theorem room_iff (live live' : Uid → ℕ) (user : Option Uid) (fetches : Bool) (n n' : ℕ)
    (hlive : ∀ u, live' u = live u + if fetches ∧ user = some u then 1 else 0)
    (hle : n ≤ n') (hn : fetches = true → n' = n) (hb : ∀ u, live u ≤ n) :
    (∀ u, live' u ≤ n') ↔ (fetches = true → ∀ u, user = some u → live u < n) := by
  constructor
  · intro h hf u hu
    have h1 := h u
    rw [hlive, if_pos ⟨hf, hu⟩, hn hf] at h1
    exact h1
  · intro hroom u
    have hbu := hb u
    rw [hlive]
    split
    · next hfu =>
      have hlt := hroom hfu.1 u hfu.2
      omega
    · omega

/-- A screen is closed. -/
theorem close_iff (live : Uid → ℕ) (n n' : ℕ) (hn : n = n' + 1) :
    (∀ u, live u ≤ n') ↔ ∀ u, live u < n := by
  subst hn
  exact forall_congr' fun u => Nat.lt_succ_iff.symm

/-- A step keeps the bounds exactly if it finds room. -/
theorem bounded_step_iff (s s' : Device) (a : DeviceAction) (out : List Uid) (h : s.step a = some s')
    (hj : Joint (s, out)) (hb : Bounded (s, out)) :
    Bounded (s', departed s a s' out) ↔ HasRoom (s, out) a := by
  obtain ⟨hcart, hfavourite, hdeparted⟩ := hb
  cases effect_of_step s s' a h with
  | signIn u =>
    refine ⟨fun _ => trivial, fun _ => ⟨hcart, hfavourite, fun v hv => ?_⟩⟩
    exact hdeparted v (List.mem_of_mem_filter hv)
  | signOut =>
    constructor
    · rintro ⟨-, -, hgone⟩ u hu
      exact hgone u (List.mem_append_left _ (Option.mem_toList.mpr hu))
    · intro hroom
      refine ⟨hcart, hfavourite, fun v hv => ?_⟩
      rcases List.mem_append.mp hv with hv | hv
      · exact hroom v (Option.mem_toList.mp hv)
      · exact hdeparted v hv
  | shop a shop ha hstep =>
    have hlive := Shop.live_step s.shop shop a hstep
    -- who has signed out is not the one who gets a listener
    have hgone : ∀ u ∈ out, shop.hub.live u = 0 ∧ s.favourites.hub.live u = 0 := by
      intro u hu
      rw [hlive, if_neg fun hh => hj.present u hu hh.2]
      exact hdeparted u hu
    have hroom := room_iff s.shop.hub.live shop.hub.live s.shop.currentUser a.fetches
      s.openCarts.length
      (if a.opens then s.openCarts ++ [s.shop.cartScreens.length] else s.openCarts).length
      hlive (by split <;> simp) (fun hf => by cases a <;> first | rfl | cases hf) hcart
    exact ⟨fun hb' => hroom.mp hb'.cart, fun hr => ⟨hroom.mpr hr, hfavourite, hgone⟩⟩
  | favourites a favourites ha hstep =>
    have hlive := Favourites.live_step s.favourites favourites a hstep
    have huser : s.favourites.currentUser = s.shop.currentUser := hj.user
    rw [huser] at hlive
    have hgone : ∀ u ∈ out, s.shop.hub.live u = 0 ∧ favourites.hub.live u = 0 := by
      intro u hu
      rw [hlive, if_neg fun hh => hj.present u hu hh.2]
      exact hdeparted u hu
    have hroom := room_iff s.favourites.hub.live favourites.hub.live s.shop.currentUser a.fetches
      (1 + s.openFavourites.length)
      (1 + (if a.opens then s.openFavourites ++ [s.favourites.screens.length]
        else s.openFavourites).length)
      hlive (by split <;> simp) (fun hf => by cases a <;> first | rfl | cases hf) hfavourite
    exact ⟨fun hb' => hroom.mp hb'.favourite, fun hr => ⟨hcart, hroom.mpr hr, hgone⟩⟩
  | closeCart i hi =>
    have hlen := List.length_erase_of_mem hi
    have hpos := List.length_pos_of_mem hi
    have hclose := close_iff s.shop.hub.live s.openCarts.length (s.openCarts.erase i).length (by omega)
    exact ⟨fun hb' => hclose.mp hb'.cart, fun hr => ⟨hclose.mpr hr, hfavourite, hdeparted⟩⟩
  | closeFavourites i hi =>
    have hlen := List.length_erase_of_mem hi
    have hpos := List.length_pos_of_mem hi
    have hclose := close_iff s.favourites.hub.live (1 + s.openFavourites.length)
      (1 + (s.openFavourites.erase i).length) (by omega)
    exact ⟨fun hb' => hclose.mp hb'.favourite, fun hr => ⟨hcart, hclose.mpr hr, hdeparted⟩⟩

end Device

/-- **When the listeners are bounded.**  All along a run there are at most as many listeners on a cart
as open cart screens, at most one more on a favourites node than open favourites screens, and none for
a user who has signed out, iff every step of the run finds room. -/
theorem listeners_bounded_iff (user : Option Uid) (db : Database) (tr : List DeviceAction)
    (so : Device × List Uid)
    (hr : run (withHistory Device.step Device.departed) (Device.start user db, []) tr = some so) :
    Throughout (withHistory Device.step Device.departed) (Device.start user db, []) Device.Bounded tr ↔
      Always (withHistory Device.step Device.departed) Device.HasRoom (Device.start user db, []) tr := by
  refine throughout_iff_always (withHistory Device.step Device.departed) Device.Joint Device.Bounded
    Device.HasRoom _ ?_ ?_ ?_ ?_ tr so hr
  · exact ⟨rfl, fun _ hu => absurd hu List.not_mem_nil⟩
  · rintro ⟨s, out⟩ a ⟨s', out'⟩ hj h
    obtain ⟨hstep, rfl⟩ := (withHistory_eq_some_iff _ _ s s' out out' a).mp h
    exact Device.joint_step s s' a out hstep hj
  · exact ⟨fun _ => Nat.le_refl 0, fun _ => Nat.zero_le _, fun _ hu => absurd hu List.not_mem_nil⟩
  · rintro ⟨s, out⟩ a ⟨s', out'⟩ hj hb h
    obtain ⟨hstep, rfl⟩ := (withHistory_eq_some_iff _ _ s s' out out' a).mp h
    exact Device.bounded_step_iff s s' a out hstep hj hb

/-- One cart screen, one tick; the listener is still there when the screen is left open. -/
theorem listeners_bounded_iff_tick :
    Throughout (withHistory Device.step Device.departed) (Device.start (some "u") Database.empty, [])
      Device.Bounded [.shop .openCart, .shop (.tick 0)] := by
  refine (listeners_bounded_iff (some "u") Database.empty _ _ rfl).mpr ?_
  refine always_cons _ _ _ _ _ _ (fun hf => absurd hf Bool.false_ne_true) rfl ?_
  refine always_cons _ _ _ _ _ _ (fun _ u hu => ?_) rfl (always_nil _ _ _)
  show 0 < 1
  omega

/-- The second tick of a cart screen leaves two listeners on the cart. -/
theorem listeners_pile_up :
    ¬ ∀ (user : Option Uid) (db : Database) (tr : List DeviceAction) (s : Device) (u : Uid),
      run Device.step (Device.start user db) tr = some s →
      s.shop.hub.live u ≤ s.openCarts.length := by
  intro h
  have hx := h (some "u") Database.empty [.shop .openCart, .shop (.tick 0), .shop (.tick 0)] _ "u" rfl
  revert hx
  decide

end FlowerGift
