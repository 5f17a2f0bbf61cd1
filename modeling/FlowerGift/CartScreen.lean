import FlowerGift.Shop

/-!
# What a cart screen shows

While one user `u` is signed in, cart screen `i` is a polling view of `cart/u`
(`Shop.view`): every step of the shop is a tick, a delivery or an update of that
view (`view_tick_self`, `view_callback_self`, `view_commit`), so the history variable of
`Realtime.View` can be kept along every run (`watch`, `tracks_run`).

Buy hands over exactly the current entries of `cart/u` iff, with no callback
pending, the history is intact and the entries still are the recorded ones
(`buy_snapshot_iff`).  The bill matches the list in any case, whatever any client
stores in the carts (`total_of_listed`).
-/

namespace FlowerGift

open Realtime

/-- The actions that change the user. -/
def Action.switches : Action → Bool
  | .signIn _ | .signOut => true
  | _ => false

namespace Shop

/-- Cart screen `i` as a view of `cart/u`. -/
def view (s : Shop) (u : Uid) (i : ℕ) : View Key CartProduct where
  source := s.db.cartProducts u
  listeners := s.hub.count u i
  pending := (s.hub.pendingFor i).map fun e => CartProduct.ofSnapshot e.value
  shown := (s.cartScreens[i]?.map (·.products)).getD []

/-- `u` alone uses the device. -/
structure Alone (u : Uid) (s : Shop) : Prop where
  user : s.currentUser = some u
  listeners : ∀ l ∈ s.hub.listeners, l.1 = u

/-- `u` alone uses the device, and `cart/u` holds what `CartButton` writes. -/
structure Solo (u : Uid) (s : Shop) : Prop where
  user : s.currentUser = some u
  listeners : ∀ l ∈ s.hub.listeners, l.1 = u
  written : CartWritten (s.db.cart u)

/-! ## The carts hold what `CartButton` writes -/

theorem written_applyAll (u : Uid) (ws : List Write) (db : Database) (h : CartWritten (db.cart u))
    (hws : ∀ w ∈ ws, w.setsCart → ∃ u page,
      w = .setValue (.cart u (stringId page.id)) (ProductDetailViewController.cartRecord page)) :
    CartWritten ((applyAll db ws).cart u) := by
  induction ws generalizing db with
  | nil => exact h
  | cons w ws ih =>
    refine ih (w.apply db) ?_ fun w' hw' => hws w' (List.mem_cons_of_mem _ hw')
    cases w with
    | setValue r value =>
      cases r with
      | cart u' k =>
        obtain ⟨u₀, page, he⟩ := hws _ List.mem_cons_self trivial
        cases he
        rw [Write.apply, Database.cart_setValue_cart]
        split
        · next hu =>
          rw [← hu]
          exact h.put _ _ _ fun r hr => ⟨page, rfl, (Option.some.inj hr).symm⟩
        · exact h
      | _ => exact h
    | removeValue r =>
      cases r with
      | cart u' k =>
        rw [Write.apply, Database.removeValue, Database.cart_setValue_cart]
        split
        · next hu =>
          rw [← hu]
          exact h.put _ _ _ (by rintro r ⟨⟩)
        · exact h
      | _ => exact h

theorem written_step (u : Uid) (s s' : Shop) (a : Action) (h : s.step a = some s')
    (hw : CartWritten (s.db.cart u)) : CartWritten (s'.db.cart u) := by
  rw [db_step s s' a h]
  refine written_applyAll u _ _ hw fun w hmem hset => ?_
  cases issues_of_mem s a w hmem with
  | entry u page hone => exact ⟨u, page, rfl⟩
  | removal u k => exact hset.elim
  | line n clock o vc p u => exact hset.elim

/-! ## One user -/

theorem solo_start (u : Uid) (db : Database) (h : CartWritten (db.cart u)) :
    Solo u (start (some u) db) where
  user := rfl
  listeners := fun _ hl => (nomatch hl)
  written := h

theorem alone_step (u : Uid) (s s' : Shop) (a : Action) (ha : a.switches = false)
    (h : s.step a = some s') (hs : Alone u s) : Alone u s' := by
  constructor
  · rw [currentUser_step s s' a h, ← hs.user]
    cases a <;> first | rfl | cases ha
  · cases effect_of_step s s' a h with
    | tick i vc hvc =>
      intro l hl
      simp only [fetchCartProducts, hs.user, Hub.observe, List.mem_append, List.mem_singleton] at hl
      rcases hl with hl | rfl
      · exact hs.listeners l hl
      · rfl
    | callback e hub vc hd hvc =>
      rw [Hub.listeners_deliver s.hub hub e hd]
      exact hs.listeners
    | commit a ha =>
      rw [listeners_commit]
      exact hs.listeners
    | _ => exact hs.listeners

theorem solo_step (u : Uid) (s s' : Shop) (a : Action) (ha : a.switches = false)
    (h : s.step a = some s') (hs : Solo u s) : Solo u s' := by
  obtain ⟨huser, hlisteners⟩ := alone_step u s s' a ha h ⟨hs.user, hs.listeners⟩
  exact ⟨huser, hlisteners, written_step u s s' a h hs.written⟩

/-- There is no listener on another user's cart. -/
theorem Solo.count_of_ne (u u' : Uid) (s : Shop) (i : ℕ) (hs : Solo u s) (hu : u' ≠ u) :
    s.hub.count u' i = 0 := by
  unfold Hub.count
  rw [List.count_eq_zero]
  exact fun hl => hu (hs.listeners _ hl)

/-! ## Every step is a step of the view -/

variable (u : Uid) (i : ℕ)

/-- A new screen lists nothing, like one that is not there. -/
theorem view_openCart (s : Shop) :
    view { s with cartScreens := s.cartScreens ++ [{}] } u i = s.view u i := by
  apply View.ext
  · rfl
  · rfl
  · rfl
  · exact getD_map_append CartViewController.products s.cartScreens {} rfl i

theorem view_tick_self (s : Shop) (vc : CartViewController) (hu : s.currentUser = some u)
    (hvc : s.cartScreens[i]? = some vc) :
    view { s with cartScreens := s.cartScreens.set i vc.tick, hub := s.fetchCartProducts i } u i =
      (s.view u i).tick := by
  have hi : i < s.cartScreens.length := (List.getElem?_eq_some_iff.mp hvc).1
  have hhub : s.fetchCartProducts i = s.hub.observe u i (s.db.cart u) := by
    simp only [fetchCartProducts, hu]
  apply View.ext
  · rfl
  · simp only [view, hhub, View.tick, Hub.count_observe, and_self, if_true]
  · simp only [view, hhub, View.tick, Hub.pendingFor_observe_self, List.map_append, List.map_map,
      Database.cartProducts, SortedMap.mapVal, SortedMap.values, Function.comp_def]
  · simp [view, View.tick, hi]

theorem view_tick_of_ne (s : Shop) (j : ℕ) (vc : CartViewController) (hj : j ≠ i) :
    view { s with cartScreens := s.cartScreens.set j vc.tick, hub := s.fetchCartProducts j } u i =
      s.view u i := by
  unfold fetchCartProducts
  split
  · apply View.ext
    · rfl
    · simp only [view, Hub.count_observe, hj, and_false, if_false, Nat.add_zero]
    · simp only [view, Hub.pendingFor_observe_of_ne _ _ _ _ _ hj]
    · simp [view, hj]
  · simp [view, hj]

theorem view_callback_self (s : Shop) (e : Event Uid ℕ Key Record) (hub : Hub Uid ℕ Key Record)
    (vc : CartViewController) (hd : s.hub.deliver = some (e, hub))
    (hvc : s.cartScreens[e.target]? = some vc) :
    ∃ rest, (s.view u e.target).pending = CartProduct.ofSnapshot e.value :: rest ∧
      view { s with cartScreens := s.cartScreens.set e.target (vc.childAdded e.value), hub } u e.target =
        (s.view u e.target).deliver (CartProduct.ofSnapshot e.value) rest := by
  obtain ⟨hi, hget⟩ := List.getElem?_eq_some_iff.mp hvc
  refine ⟨(hub.pendingFor e.target).map fun e => CartProduct.ofSnapshot e.value, ?_, ?_⟩
  · simp only [view, Hub.pendingFor_deliver_self s.hub hub e hd, List.map_cons]
  · apply View.ext
    · rfl
    · exact Hub.count_deliver s.hub hub e u e.target hd
    · rfl
    · simp [view, View.deliver, hi, hget]

theorem view_callback_of_ne (s : Shop) (e : Event Uid ℕ Key Record) (hub : Hub Uid ℕ Key Record)
    (vc : CartViewController) (hd : s.hub.deliver = some (e, hub)) (he : e.target ≠ i) :
    view { s with cartScreens := s.cartScreens.set e.target (vc.childAdded e.value), hub } u i =
      s.view u i := by
  apply View.ext
  · rfl
  · exact Hub.count_deliver s.hub hub e u i hd
  · simp only [view, Hub.pendingFor_deliver_of_ne s.hub hub e i hd he]
  · simp [view, he]

theorem view_write (s : Shop) (w : Write) (hs : Solo u s) :
    (s.write w).view u i = (s.view u i).update ((s.write w).db.cartProducts u) := by
  have hsame : ∀ db : Database, db.cart u = s.db.cart u →
      (s.view u i).arrivals (db.cartProducts u) = [] := by
    intro db hdb
    apply View.arrivals_of_added_nil
    simp only [view, Database.cartProducts, hdb, Hub.added_self]
  have hpend : ∀ r : Ref, w.ref = r → ((s.write w).hub.pendingFor i).map
      (fun e => CartProduct.ofSnapshot e.value) =
        (s.view u i).pending ++ (s.view u i).arrivals ((s.write w).db.cartProducts u) := by
    intro r hr
    cases r with
    | cart u' k =>
      have hub : (s.write w).hub = s.hub.changed u' (s.db.cart u') ((s.write w).db.cart u') := by
        simp only [write, hr]
      rw [hub, Hub.pendingFor_changed, List.map_append]
      congr 1
      by_cases hu : u' = u
      · subst hu
        simp only [View.arrivals, view, Database.cartProducts, Hub.added_mapVal, List.map_flatMap,
          List.flatMap_map, List.map_replicate]
      · -- nobody listens to the other user's cart, and `cart/u` stays
        rw [hs.count_of_ne u u' s i hu]
        have hcart : (s.write w).db.cart u = s.db.cart u := by
          cases w <;> simp only [Write.ref] at hr <;> subst hr <;>
            simp [Write.apply, Database.removeValue, Ne.symm hu]
        rw [hsame _ hcart]
        simp
    | _ =>
      have hcart : (s.write w).db.cart u = s.db.cart u := by
        cases w <;> simp only [Write.ref] at hr <;> subst hr <;> rfl
      rw [hsame _ hcart, List.append_nil]
      simp only [write, hr, view]
  apply View.ext
  · rfl
  · simp only [view, View.update, Hub.count, (s.write_frame w).2.2.2.2]
  · exact hpend w.ref rfl
  · rfl

/-- Removals and writes outside the carts are one update of the view. -/
theorem view_commit_of_not_setsCart (s : Shop) (ws : List Write) (hws : ∀ w ∈ ws, ¬ w.setsCart) :
    (s.commit ws).view u i = (s.view u i).update ((s.commit ws).db.cartProducts u) := by
  have harr : (s.view u i).arrivals ((s.commit ws).db.cartProducts u) = [] := by
    apply View.arrivals_of_added_nil
    simp only [view, Database.cartProducts, Hub.added_mapVal, List.map_eq_nil_iff]
    rw [List.eq_nil_iff_forall_not_mem]
    rintro ⟨k, r⟩ he
    obtain ⟨h1, h2⟩ := (Hub.mem_added_iff _ _ k r).mp he
    rw [db_commit] at h1
    rw [get_cart_of_not_setsCart u k r ws s.db hws h1] at h2
    cases h2
  apply View.ext
  · rfl
  · simp only [view, View.update, hub_commit s ws hws]
  · simp only [View.update, harr, List.append_nil]
    simp only [view, hub_commit s ws hws]
  · simp only [view, View.update, cartScreens_commit]

theorem view_commit (s : Shop) (a : Action) (hs : Solo u s) :
    (s.commit (s.issued a)).view u i =
      (s.view u i).update ((s.commit (s.issued a)).db.cartProducts u) := by
  rcases issued_setsCart s a with hset | ⟨w, hw⟩
  · exact view_commit_of_not_setsCart u i s _ hset
  · rw [hw, commit_singleton]
    exact view_write u i s w hs

/-! ## The history of a screen -/

/-- What the last tick of screen `i` stands for, along a run of user `u`. -/
def watch (s : Shop) (a : Action) (s' : Shop) (since : Option (List CartProduct)) :
    Option (List CartProduct) :=
  match a with
  | .tick j => if j = i then (s.view u i).trackTick else since
  | _ => (s.view u i).trackUpdate (s'.db.cartProducts u) since

/-- A step that leaves the view alone leaves its history alone. -/
theorem tracks_of_view_eq (s s' : Shop) (since : Option (List CartProduct))
    (hv : s'.view u i = s.view u i) (ht : View.Tracks CartProduct.key (s.view u i) since) :
    View.Tracks CartProduct.key (s'.view u i)
      ((s.view u i).trackUpdate (s'.db.cartProducts u) since) := by
  have hsource : s'.db.cartProducts u = (s.view u i).source := congrArg View.source hv
  rw [hsource, View.trackUpdate_self, hv]
  exact ht

theorem tracks_step (s s' : Shop) (a : Action) (since : Option (List CartProduct))
    (ha : a.switches = false) (h : s.step a = some s') (hs : Solo u s)
    (ht : View.Tracks CartProduct.key (s.view u i) since) :
    View.Tracks CartProduct.key (s'.view u i) (watch u i s a s' since) := by
  cases effect_of_step s s' a h with
  | signIn u' => cases ha
  | signOut => cases ha
  | openCart => exact tracks_of_view_eq u i s _ since (view_openCart u i s) ht
  | tick j vc hvc =>
    by_cases hj : j = i
    · subst hj
      rw [view_tick_self u j s vc hs.user hvc]
      simp only [watch, if_true]
      exact View.tracks_tick CartProduct.key _ since ht
    · rw [view_tick_of_ne u i s j vc hj]
      simp only [watch, hj, if_false]
      exact ht
  | callback e hub vc hd hvc =>
    by_cases he : e.target = i
    · subst he
      obtain ⟨rest, hq, hv⟩ := view_callback_self u s e hub vc hd hvc
      have hwatch : watch u e.target s .callback
          { s with cartScreens := s.cartScreens.set e.target (vc.childAdded e.value), hub } since =
            since := View.trackUpdate_self (s.view u e.target) since
      rw [hwatch, hv]
      exact View.tracks_deliver CartProduct.key _ since _ rest hq ht
    · exact tracks_of_view_eq u i s _ since (view_callback_of_ne u i s e hub vc hd he) ht
  | commit a hwrites =>
    have hwatch : watch u i s a (s.commit (s.issued a)) since =
        (s.view u i).trackUpdate ((s.commit (s.issued a)).db.cartProducts u) since := by
      cases a <;> first | rfl | cases hwrites
    have hkeyed := (solo_step u s _ a ha h hs).written.keyed _ u
    rw [hwatch, view_commit u i s a hs]
    exact View.tracks_update CartProduct.key _ _ since hkeyed ht
  | buyButton j vc hvc => exact tracks_of_view_eq u i s _ since rfl ht
  | shippingBuyButton j vc hvc => exact tracks_of_view_eq u i s _ since rfl ht

/-- Along every run of one user the history tracks the screen. -/
theorem tracks_run (db : Database) (hdb : CartWritten (db.cart u)) (tr : List Action)
    (htr : ∀ a ∈ tr, a.switches = false) (s : Shop) (since : Option (List CartProduct))
    (hr : run (withHistory step (watch u i)) (start (some u) db, some []) tr = some (s, since)) :
    Solo u s ∧ View.Tracks CartProduct.key (s.view u i) since := by
  have hstart := solo_start u db hdb
  refine run_induction_of_always (withHistory step (watch u i)) (fun _ a => a.switches = false)
    (start (some u) db, some [])
    (fun _ sm => Solo u sm.1 ∧ View.Tracks CartProduct.key (sm.1.view u i) sm.2)
    ⟨hstart, View.tracks_start CartProduct.key _ (hdb.keyed db u)⟩ ?_ tr (s, since)
    (always_of_forall _ _ _ tr htr) hr
  rintro _ ⟨t, m⟩ a ⟨t', m'⟩ - ⟨hs, ht⟩ ha h
  obtain ⟨hstep, rfl⟩ := (withHistory_eq_some_iff step (watch u i) t t' m m' a).mp h
  exact ⟨solo_step u t t' a ha hstep hs, tracks_step u i t t' a m ha hstep hs ht⟩

end Shop

/-- The way of a cart to its payment screen. -/
def toPayment : List Action := [.openCart, .tick 0, .callback, .buyButton 0, .shippingBuyButton 0]

/-! ## What Buy hands over -/

/-- Shipping was given the current entries of `cart/u`, each once, and their sum. -/
structure ExactSnapshot (db : Database) (u : Uid) (vc : ShippingViewController) : Prop where
  content : vc.products.Perm (db.cartProducts u).values
  once : (vc.products.map (·.id)).Nodup
  bill : vc.subtotal = (((db.cartProducts u).values.map (·.subTotal)).sum : ℤ)

/-- The list decides: ids are distinct and the bill is right as soon as the entries are. -/
theorem exactSnapshot_iff (db : Database) (u : Uid) (vc : CartViewController)
    (hdb : CartWritten (db.cart u)) (htotal : vc.Totalled) :
    ExactSnapshot db u vc.prepare.viewDidLoad ↔ vc.products.Perm (db.cartProducts u).values := by
  constructor
  · exact fun h => h.content
  · intro h
    have hids : (vc.products.map (·.id)).Nodup := SettledCart.ids_nodup ⟨hdb, h⟩
    refine ⟨h, hids, ?_⟩
    have hsum := (h.map (·.subTotal)).sum_eq
    unfold CartViewController.Totalled at htotal
    rw [← hsum, ← htotal]
    rfl

/-- **When Buy hands over the cart.**  In every run of one user, with no callback pending for the
screen, Shipping is given exactly the current cart iff the history of the screen is intact and the
entries it recorded are the current ones; with a callback pending and the history intact it is not. -/
theorem buy_snapshot_iff (u : Uid) (db : Database) (hdb : CartWritten (db.cart u)) (i : ℕ)
    (tr : List Action) (htr : ∀ a ∈ tr, a.switches = false) (s : Shop)
    (since : Option (List CartProduct))
    (hr : run (withHistory Shop.step (Shop.watch u i)) (Shop.start (some u) db, some []) tr =
      some (s, since))
    (vc : CartViewController) (hvc : s.cartScreens[i]? = some vc) :
    (s.hub.pendingFor i = [] → (ExactSnapshot s.db u vc.prepare.viewDidLoad ↔
      ∃ l, since = some l ∧ l.Perm (s.db.cartProducts u).values)) ∧
    (s.hub.pendingFor i ≠ [] → since ≠ none → ¬ ExactSnapshot s.db u vc.prepare.viewDidLoad) := by
  obtain ⟨hs, ht⟩ := Shop.tracks_run u i db hdb tr htr s since hr
  have hrun := run_withHistory Shop.step (Shop.watch u i) _ _ tr _ hr
  have htotal := Shop.totalled_run _ s tr (Shop.totalled_start (some u) db) hrun vc
    (List.mem_of_getElem? hvc)
  have hshown : (s.view u i).shown = vc.products := by
    simp only [Shop.view, hvc, Option.map_some, Option.getD_some]
  rw [exactSnapshot_iff s.db u vc hs.written htotal, ← hshown]
  constructor
  · intro hp
    refine View.shown_perm_iff CartProduct.key (s.view u i) since ht ?_
    simp only [Shop.view, hp, List.map_nil]
  · intro hp hn
    obtain ⟨l, rfl⟩ := Option.ne_none_iff_exists'.mp hn
    refine View.not_perm_of_pending CartProduct.key (s.view u i) l ht ?_
    simpa only [Shop.view, ne_eq, List.map_eq_nil_iff] using hp

/-- Tick, callback, Buy. -/
theorem buy_snapshot_iff_rose :
    ExactSnapshot roseCart "u" (CartViewController.prepare ⟨[rosePage.cartProduct], 60,
      [rosePage.cartProduct], "$60"⟩).viewDidLoad :=
  ((buy_snapshot_iff "u" roseCart (roseCart_written "u") 0 [.openCart, .tick 0, .callback] (by decide)
    _ _ rfl _ rfl).1 rfl).mpr ⟨[rosePage.cartProduct], rfl, List.Perm.refl _⟩

/-- Buy is pressed after the tick has emptied the list and before its callback: nothing is handed
over, while the cart holds an item. -/
theorem buy_snapshot_stale :
    ¬ ∀ (u : Uid) (db : Database) (i : ℕ) (tr : List Action) (s : Shop) (vc : CartViewController),
      CartWritten (db.cart u) → (∀ a ∈ tr, a.switches = false) →
      run Shop.step (Shop.start (some u) db) tr = some s → s.cartScreens[i]? = some vc →
      ExactSnapshot s.db u vc.prepare.viewDidLoad := by
  intro h
  have hx := h "u" roseCart 0 [.openCart, .tick 0] _ _ (roseCart_written "u") (by decide) rfl rfl
  have hlen := hx.content.length_eq
  revert hlen
  decide

/-! ## The running total -/

/-- An action of the app, or any client that stores a record at (or takes it from) any cart entry. -/
inductive ShopEvent
  | app (a : Action)
  | stored (u : Uid) (k : Key) (value : Option Record)

/-- The subtotal that a shipping screen was given is the sum over the products it was given. -/
def ShippingViewController.Billed (vc : ShippingViewController) : Prop :=
  vc.subtotal = ((vc.products.map (·.subTotal)).sum : ℤ)

theorem billed_prepare (vc : CartViewController) (h : vc.Totalled) : vc.prepare.Billed := by
  unfold CartViewController.Totalled at h
  unfold ShippingViewController.Billed
  rw [← show vc.total = (vc.prepare.products.map (·.subTotal)).sum from h]
  rfl

namespace Shop

def stepAny (s : Shop) : ShopEvent → Option Shop
  | .app a => s.step a
  | .stored u k (some value) => some (s.write (.setValue (.cart u k) value))
  | .stored u k none => some (s.write (.removeValue (.cart u k)))

/-- Totals and bills are right. -/
structure Tallied (s : Shop) : Prop where
  cart : ∀ vc ∈ s.cartScreens, vc.Totalled
  shipping : ∀ vc ∈ s.shippingScreens, vc.Billed

theorem tallied_step (s s' : Shop) (a : Action) (h : s.step a = some s') (hs : Tallied s) :
    Tallied s' := by
  refine ⟨totalled_step s s' a h hs.cart, ?_⟩
  cases effect_of_step s s' a h with
  | buyButton i vc hvc =>
    exact forall_mem_concat _ _ _ hs.shipping
      (billed_prepare vc (hs.cart vc (List.mem_of_getElem? hvc)))
  | commit a ha =>
    rw [shippingScreens_commit]
    exact hs.shipping
  | _ => exact hs.shipping

theorem tallied_stepAny (s s' : Shop) (e : ShopEvent) (h : s.stepAny e = some s') (hs : Tallied s) :
    Tallied s' := by
  have hwrite : ∀ w, Tallied (s.write w) := fun w => ⟨hs.cart, hs.shipping⟩
  cases e with
  | app a => exact tallied_step s s' a h hs
  | stored u k value =>
    cases value with
    | some value =>
      cases h
      exact hwrite _
    | none =>
      cases h
      exact hwrite _

theorem tallied_run (user : Option Uid) (db : Database) (tr : List ShopEvent) (s : Shop)
    (hr : run stepAny (start user db) tr = some s) : Tallied s :=
  run_invariant stepAny Tallied (fun t e t' ht h => tallied_stepAny t t' e h ht) _
    ⟨totalled_start user db, fun _ hvc => absurd hvc List.not_mem_nil⟩ tr s hr

end Shop

/-- **The running total.**  Whatever is stored in the carts, the total of every cart screen is the sum of
the subtotals it lists in every state of every run; so what Buy would hand over there agrees with
itself, and so does what every Buy of the run handed over. -/
theorem total_of_listed (user : Option Uid) (db : Database) (tr : List ShopEvent) (s : Shop)
    (hr : run Shop.stepAny (Shop.start user db) tr = some s) :
    (∀ vc ∈ s.cartScreens, vc.total = (vc.products.map (·.subTotal)).sum ∧
      vc.prepare.products = vc.products ∧
      vc.prepare.subtotal = ((vc.prepare.products.map (·.subTotal)).sum : ℤ)) ∧
    ∀ vc ∈ s.shippingScreens, vc.subtotal = ((vc.products.map (·.subTotal)).sum : ℤ) := by
  have hs := Shop.tallied_run user db tr s hr
  exact ⟨fun vc hvc => ⟨hs.cart vc hvc, rfl, billed_prepare vc (hs.cart vc hvc)⟩, hs.shipping⟩

/-- A stored subtotal of any sign, delivered by two listeners, and Buy. -/
theorem total_of_listed_odd :
    ∃ s, run Shop.stepAny (Shop.start (some "u") Database.empty)
        [.app .openCart, .app (.tick 0), .app (.tick 0), .stored "u" ⟨"x"⟩ (some [("subtotal", .int (-7))]),
          .app .callback, .app .callback, .app (.buyButton 0)] = some s ∧
      s.cartScreens.map (·.total) = [-14] ∧
      ∀ vc ∈ s.shippingScreens, vc.subtotal = ((vc.products.map (·.subTotal)).sum : ℤ) :=
  ⟨_, rfl, rfl, (total_of_listed (some "u") Database.empty
    [.app .openCart, .app (.tick 0), .app (.tick 0), .stored "u" ⟨"x"⟩ (some [("subtotal", .int (-7))]),
      .app .callback, .app .callback, .app (.buyButton 0)] _ rfl).2⟩

end FlowerGift
