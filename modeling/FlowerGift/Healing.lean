import FlowerGift.CartScreen
import FlowerGift.FavouriteScreens

/-!
# The polling screens heal

A cart screen never drops a listener and its list may hold anything: entries
that were removed, entries that came once per listener.  Still one tick is
enough.  If it finds no callback of the screen pending, and afterwards neither
a tick of that screen nor a change of a cart comes in between, the list is
`cart/u` in key order as soon as no callback is pending again; older listeners
hear nothing of what is there already (`Shop.Heals`).  The favourites screens poll
`favourite/u` the same way (`Favourites.Heals`), which gives `screens_heal`.

`Undisturbed` steps only `Settle` the view (`view_settles`), so the list follows
from `View.shown_after_tick`; every callback is for a screen that is there
(`attached_step`), so the queue can always be emptied (`exists_drain`).
-/

namespace FlowerGift

open Realtime

namespace Shop

/-! ## The queue can be emptied -/

/-- No tick of screen `i` and no change of a cart. -/
def Undisturbed (i : ℕ) (s : Shop) (a : Action) : Prop :=
  a ≠ .tick i ∧ ∀ s', s.step a = some s' → s'.db.cart = s.db.cart

/-- Every waiting callback runs, oldest first. -/
def drain (s : Shop) : Option Shop :=
  run step s (List.replicate s.hub.queue.length .callback)

/-- The listeners and callbacks are for screens that are there. -/
def Attached (s : Shop) : Prop := s.hub.Addressed fun i => i < s.cartScreens.length

section
variable (s s' : Shop) (a : Action)

/-- Where no cart changes nobody is told anything. -/
theorem hub_commit_of_cart_eq (h : (s.commit (s.issued a)).db.cart = s.db.cart) :
    (s.commit (s.issued a)).hub = s.hub := by
  rcases issued_setsCart s a with hset | ⟨w, hw⟩
  · exact hub_commit s _ hset
  · rw [hw, commit_singleton] at h ⊢
    simp only [write]
    split
    · next u k hr =>
      have hu : (w.apply s.db).cart u = s.db.cart u := congrFun h u
      rw [hu, Hub.changed_self]
    · rfl

/-- A button, or another device, that changes no cart makes nobody hear anything. -/
theorem hub_step_of_cart_eq (ha : a.writes = true) (h : s.step a = some s')
    (hcart : s'.db.cart = s.db.cart) : s'.hub = s.hub := by
  cases effect_of_step s s' a h with
  | commit a ha => exact hub_commit_of_cart_eq s a hcart
  | _ => cases ha

theorem cartScreens_length_step (h : s.step a = some s') :
    s.cartScreens.length ≤ s'.cartScreens.length := by
  cases effect_of_step s s' a h with
  | openCart =>
    rw [List.length_append]
    exact Nat.le_add_right _ _
  | tick i vc hvc => exact (List.length_set ..).ge
  | callback e hub vc hd hvc => exact (List.length_set ..).ge
  | commit a ha => rw [cartScreens_commit]
  | _ => exact le_rfl

theorem addressed_write (P : ℕ → Prop) (w : Write) (h : s.hub.Addressed P) :
    (s.write w).hub.Addressed P := by
  simp only [write]
  split
  · exact h.changed P s.hub _ _ _
  · exact h

theorem attached_step (h : s.step a = some s') (hs : s.Attached) : s'.Attached := by
  have hmono : s.hub.Addressed fun i => i < s'.cartScreens.length :=
    hs.mono _ _ _ fun t ht => Nat.lt_of_lt_of_le ht (cartScreens_length_step s s' a h)
  cases effect_of_step s s' a h with
  | tick i vc hvc =>
    have hi : i < s.cartScreens.length := (List.getElem?_eq_some_iff.mp hvc).1
    simp only [Attached, fetchCartProducts]
    split
    · apply hmono.observe
      rw [List.length_set]
      exact hi
    · exact hmono
  | callback e hub vc hd hvc => exact hmono.deliver _ s.hub hub e hd
  | commit a ha =>
    unfold Attached
    rcases issued_setsCart s a with hset | ⟨w, hw⟩
    · rw [hub_commit s _ hset]
      exact hmono
    · rw [hw, commit_singleton] at hmono ⊢
      exact s.addressed_write _ w hmono
  | _ => exact hmono

end

/-- A waiting callback finds its screen. -/
theorem exists_callback (s : Shop) (e : Event Uid ℕ Key Record) (hub : Hub Uid ℕ Key Record)
    (hs : s.Attached) (hd : s.hub.deliver = some (e, hub)) :
    ∃ s', s.step .callback = some s' ∧ s'.Attached ∧ s'.db = s.db ∧ s'.currentUser = s.currentUser ∧
      s'.hub = hub := by
  obtain ⟨vc, hvc⟩ : ∃ vc, s.cartScreens[e.target]? = some vc :=
    ⟨_, List.getElem?_eq_getElem (hs.queue e (Hub.mem_queue_of_deliver s.hub hub e hd))⟩
  have hstep : s.step .callback = some { s with
      cartScreens := s.cartScreens.set e.target (vc.childAdded e.value), hub } := by
    simp only [step, hd, Option.bind_some, hvc, Option.map_some]
  exact ⟨_, hstep, attached_step s _ .callback hstep hs, rfl, rfl, rfl⟩

/-- The queue can be emptied; the database and the user stay. -/
theorem exists_drain (s : Shop) (hs : s.Attached) :
    ∃ s', s.drain = some s' ∧ s'.hub.queue = [] ∧ s'.Attached ∧ s'.db = s.db ∧
      s'.currentUser = s.currentUser := by
  have hnext : ∀ (t : Shop) e hub, (t.Attached ∧ t.db = s.db ∧ t.currentUser = s.currentUser) →
      t.hub.deliver = some (e, hub) → ∃ t' : Shop, t.step .callback = some t' ∧
        (t'.Attached ∧ t'.db = s.db ∧ t'.currentUser = s.currentUser) ∧ t'.hub = hub := by
    rintro t e hub ⟨ht, hdb, hu⟩ hd
    obtain ⟨t', hst, ht', hdb', hu', hhub⟩ := exists_callback t e hub ht hd
    exact ⟨t', hst, ⟨ht', hdb'.trans hdb, hu'.trans hu⟩, hhub⟩
  obtain ⟨s', hr, ⟨ha, hdb, hu⟩, hq⟩ := Hub.exists_drained step .callback Shop.hub _ hnext s
    ⟨hs, rfl, rfl⟩
  exact ⟨s', hr, hq, ha, hdb, hu⟩

/-! ## One tick of a cart screen -/

section
variable (u : Uid) (i : ℕ)

/-- While it is not disturbed, a screen only receives what was on its way. -/
theorem view_settles (s s' : Shop) (a : Action) (h : s.step a = some s') (ha : a ≠ .tick i)
    (hcart : s'.db.cart u = s.db.cart u) (hhub : a.writes = true → s'.hub = s.hub) :
    (s.view u i).Settles (s'.view u i) := by
  have hsame : s'.view u i = s.view u i → (s.view u i).Settles (s'.view u i) := by
    intro hv
    rw [hv]
    exact .same
  cases effect_of_step s s' a h with
  | openCart => exact hsame (view_openCart u i s)
  | tick j vc hvc => exact hsame (view_tick_of_ne u i s j vc fun hj => ha (hj ▸ rfl))
  | callback e hub vc hd hvc =>
    by_cases he : e.target = i
    · subst he
      obtain ⟨rest, hq, hv⟩ := view_callback_self u s e hub vc hd hvc
      rw [hv]
      exact .deliver _ rest hq
    · exact hsame (view_callback_of_ne u i s e hub vc hd he)
  | commit a hwrites =>
    apply hsame
    simp only [view, Database.cartProducts, hcart, hhub hwrites, cartScreens_commit]
  | _ => exact .same

/-- The screen lists `cart/u`: its entries in key order, each once, and their sum. -/
structure ShowsCart (db : Database) (vc : CartViewController) : Prop where
  content : vc.products = (db.cartProducts u).values
  once : (vc.products.map (·.id)).Nodup
  total : vc.total = (((db.cartProducts u).values.map (·.subTotal)).sum : ℤ)

/-- A tick of cart screen `i` heals it.  `settles`: the tick finds no callback of the screen pending, and
then nothing disturbs it.  `drains`: emptying the queue, a tick and emptying it again is always
possible and comes out right. -/
structure Heals (s : Shop) : Prop where
  settles : s.hub.pendingFor i = [] → ∀ s₁ tr s₂, s.step (.tick i) = some s₁ →
    Always step (Undisturbed i) s₁ tr → run step s₁ tr = some s₂ → s₂.hub.pendingFor i = [] →
      ∃ vc, s₂.cartScreens[i]? = some vc ∧ ShowsCart u s.db vc
  drains : ∃ s₁ s₂ s₃ vc, s.drain = some s₁ ∧ s₁.step (.tick i) = some s₂ ∧ s₂.drain = some s₃ ∧
    s₃.hub.queue = [] ∧ s₃.cartScreens[i]? = some vc ∧ ShowsCart u s.db vc

theorem showsCart_of_values (db : Database) (vc : CartViewController) (hw : CartWritten (db.cart u))
    (hv : vc.products = (db.cartProducts u).values) (ht : vc.Totalled) : ShowsCart u db vc where
  content := hv
  once := SettledCart.ids_nodup ⟨hw, hv ▸ List.Perm.refl _⟩
  total := by
    unfold CartViewController.Totalled at ht
    rw [ht, hv]

/-- What the steps of a run keep, for the screens to heal. -/
structure Sound (s : Shop) : Prop where
  attached : s.Attached
  totalled : ∀ vc ∈ s.cartScreens, vc.Totalled
  written : CartWritten (s.db.cart u)

theorem sound_run (s₀ s : Shop) (tr : List Action) (h₀ : Sound u s₀) (hr : run step s₀ tr = some s) :
    Sound u s := by
  refine run_invariant step (Sound u) (fun s a s' hs h => ?_) s₀ h₀ tr s hr
  exact ⟨attached_step s s' a h hs.attached, totalled_step s s' a h hs.totalled,
    written_step u s s' a h hs.written⟩

/-- Screens are never closed. -/
theorem cartScreens_length_run (s s' : Shop) (tr : List Action) (hr : run step s tr = some s') :
    s.cartScreens.length ≤ s'.cartScreens.length :=
  run_invariant step (fun t => s.cartScreens.length ≤ t.cartScreens.length)
    (fun t a t' ht h => ht.trans (cartScreens_length_step t t' a h)) s le_rfl tr s' hr

/-- A tick that finds nothing pending, then anything that does not disturb the screen. -/
theorem showsCart_after_tick (s s₁ s₂ : Shop) (tr : List Action) (hs : Sound u s)
    (hu : s.currentUser = some u) (hp : s.hub.pendingFor i = []) (htick : s.step (.tick i) = some s₁)
    (hc : Always step (Undisturbed i) s₁ tr) (hr : run step s₁ tr = some s₂)
    (hp' : s₂.hub.pendingFor i = []) :
    ∃ vc, s₂.cartScreens[i]? = some vc ∧ ShowsCart u s.db vc := by
  obtain ⟨vc₀, hvc₀, rfl⟩ := Option.map_eq_some_iff.mp htick
  have hi : i < s.cartScreens.length := (List.getElem?_eq_some_iff.mp hvc₀).1
  have hlen := cartScreens_length_run _ s₂ tr hr
  rw [List.length_set] at hlen
  obtain ⟨vc, hvc⟩ : ∃ vc, s₂.cartScreens[i]? = some vc := ⟨_, List.getElem?_eq_getElem (by omega)⟩
  have hshown : (s₂.view u i).shown = (s.db.cartProducts u).values := by
    refine View.shown_after_tick step (Undisturbed i) (fun t => t.view u i) ?_ s _ s₂ tr ?_
      (view_tick_self u i s vc₀ hu hvc₀) hc hr ?_
    · intro t a t' ht h
      exact view_settles u i t t' a h ht.1 (congrFun (ht.2 t' h) u) fun hwrites =>
        hub_step_of_cart_eq t t' a hwrites h (ht.2 t' h)
    · simp only [view, hp, List.map_nil]
    · simp only [view, hp', List.map_nil]
  have hproducts : vc.products = (s.db.cartProducts u).values := by
    rw [← hshown]
    simp only [view, hvc, Option.map_some, Option.getD_some]
  have hs₂ := sound_run u _ s₂ (.tick i :: tr) hs (by rw [run, htick]; exact hr)
  exact ⟨vc, hvc, showsCart_of_values u s.db vc hs.written hproducts
    (hs₂.totalled vc (List.mem_of_getElem? hvc))⟩

/-- Callbacks change no cart. -/
theorem always_callbacks (s : Shop) (n : ℕ) :
    Always step (Undisturbed i) s (List.replicate n .callback) := by
  refine Always.mono step (fun _ a => a = .callback) _ s _ ?_
    (always_of_forall step _ s _ fun a ha => List.eq_of_mem_replicate ha)
  rintro t a rfl
  exact ⟨by rintro ⟨⟩, fun t' h => congrArg Database.cart (db_step t t' .callback h)⟩

theorem heals (s : Shop) (vc : CartViewController) (hs : Sound u s) (hu : s.currentUser = some u)
    (hvc : s.cartScreens[i]? = some vc) : Heals u i s := by
  refine ⟨fun hp s₁ tr s₂ htick hc hr hp' =>
    showsCart_after_tick u i s s₁ s₂ tr hs hu hp htick hc hr hp', ?_⟩
  -- empty the queue, tick, empty the queue again
  obtain ⟨s₁, hd₁, hq₁, ha₁, hdb₁, hu₁⟩ := exists_drain s hs.attached
  have hlen := cartScreens_length_run s s₁ _ hd₁
  have hi : i < s.cartScreens.length := (List.getElem?_eq_some_iff.mp hvc).1
  obtain ⟨s₂, htick⟩ : ∃ s₂, s₁.step (.tick i) = some s₂ :=
    ⟨_, Option.map_eq_some_iff.mpr ⟨_, List.getElem?_eq_getElem (by omega), rfl⟩⟩
  obtain ⟨s₃, hd₃, hq₃, -, -, -⟩ := exists_drain s₂ (attached_step s₁ s₂ _ htick ha₁)
  have hs₁ := sound_run u s s₁ _ hs hd₁
  obtain ⟨vc₃, hvc₃, hshows⟩ := showsCart_after_tick u i s₁ s₂ s₃ _ hs₁ (hu₁.trans hu)
    (Hub.pendingFor_of_idle _ _ hq₁) htick (always_callbacks i s₂ _) hd₃
    (Hub.pendingFor_of_idle _ _ hq₃)
  exact ⟨s₁, s₂, s₃, vc₃, hd₁, htick, hd₃, hq₃, hvc₃, hdb₁ ▸ hshows⟩

end

end Shop

/-! ## Both kinds of screen -/

/-- **The polling screens heal themselves.**  In every state reached from a start where `cart/u`
(`favourite/u`) was written by the app only, every cart screen (favourites screen) of a device on
which `u` is signed in heals with one tick. -/
theorem screens_heal (u : Uid) (i : ℕ) :
    (∀ (user : Option Uid) (db : Database) (tr : List Action) (s : Shop) (vc : CartViewController),
      CartWritten (db.cart u) → run Shop.step (Shop.start user db) tr = some s →
      s.currentUser = some u → s.cartScreens[i]? = some vc → Shop.Heals u i s) ∧
    (∀ (user : Option Uid) (db : Database) (tr : List FavouriteAction) (s : Favourites)
      (vc : FavouriteViewController), FavouriteWritten (db.favourite u) →
      run Favourites.step (Favourites.start user db) tr = some s → s.currentUser = some u →
      s.screens[i]? = some vc → Favourites.Heals u i s) := by
  constructor
  · intro user db tr s vc hdb hr hu hvc
    have hstart : Shop.Sound u (Shop.start user db) :=
      ⟨Hub.addressed_empty _, Shop.totalled_start user db, hdb⟩
    exact Shop.heals u i s vc (Shop.sound_run u _ s tr hstart hr) hu hvc
  · intro user db tr s vc hdb hr hu hvc
    have hstart : Favourites.Sound u (Favourites.start user db) := ⟨Hub.addressed_empty _, hdb⟩
    exact Favourites.heals u i s vc (Favourites.sound_run u _ s tr hstart hr) hu hvc

/-- Two ticks in a row: both listeners deliver the rose, the list holds it twice, and still heals. -/
theorem screens_heal_rose :
    (∃ s, run Shop.step (Shop.start (some "u") roseCart)
        [.openCart, .tick 0, .tick 0, .callback, .callback] = some s ∧
      s.cartScreens.map (·.products) = [[rosePage.cartProduct, rosePage.cartProduct]] ∧
      Shop.Heals "u" 0 s) ∧
    (∃ s, run Favourites.step (Favourites.start (some "u") Database.empty)
        [.openFavourites, .remoteSet "u" rose, .tick 0, .tick 0, .callback, .callback] = some s ∧
      s.screens.map (·.products) = [[rose, rose]] ∧ Favourites.Heals "u" 0 s) :=
  ⟨⟨_, rfl, rfl, (screens_heal "u" 0).1 (some "u") roseCart
      [.openCart, .tick 0, .tick 0, .callback, .callback] _ _ (roseCart_written "u") rfl rfl rfl⟩,
    ⟨_, rfl, rfl, (screens_heal "u" 0).2 (some "u") Database.empty
      [.openFavourites, .remoteSet "u" rose, .tick 0, .tick 0, .callback, .callback] _ _
      favouriteWritten_empty rfl rfl rfl⟩⟩

end FlowerGift
