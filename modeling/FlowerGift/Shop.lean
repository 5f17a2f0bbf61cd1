import FlowerGift.Checkout
import FlowerGift.Payment
import FlowerGift.Lib.Run
import FlowerGift.Lib.Polling

/-!
# The shop: users, carts and checkout as one step machine

A `Shop` is the state of one device: who is signed in, the local copy of the
database, the database client's listeners and callbacks, and every cart,
shipping and payment screen that is still alive (the repeating timer and the
navigation stack keep them).  `step` performs one action: a tick of a screen's
timer, the oldest callback, a button, a write by another device, a change of
user.  It answers `none` where there is nothing to act on.

What an action writes is `Issues`, what a step can do is `Effect`; from these, component by
component:

    s'.db = applyAll s.db (s.issued a)                                   (db_step)
    a cart screen stays, is emptied by its tick, or gets one product     (cartScreens_step)
    shipping and payment screens only grow                               (shipping_step, payment_step)
    a new callback is for a cart entry that is there now                 (mem_queue_step)

The first load of `cart/u` from the server reaches the local copy the way
another device's additions do (`remoteSet`).
-/

namespace FlowerGift

open Realtime

/-! ## Lists of screens -/

theorem forall_mem_concat {β : Type} (Q : β → Prop) (l : List β) (b : β) (hl : ∀ x ∈ l, Q x)
    (hb : Q b) : ∀ x ∈ l ++ [b], Q x := by
  rw [List.forall_mem_append]
  exact ⟨hl, List.forall_mem_singleton.mpr hb⟩

theorem forall_mem_set {β : Type} (Q : β → Prop) (l : List β) (i : ℕ) (b : β) (hl : ∀ x ∈ l, Q x)
    (hb : Q b) : ∀ x ∈ l.set i b, Q x := by
  intro x hx
  obtain hold | hnew := List.mem_or_eq_of_mem_set hx
  · exact hl x hold
  · exact hnew ▸ hb

/-! ## The machine -/

structure Shop where
  currentUser : Option Uid
  db : Database
  /-- Listeners on `cart/u`, for the cart screen of that index. -/
  hub : Hub Uid ℕ Key Record := {}
  cartScreens : List CartViewController := []
  shippingScreens : List ShippingViewController := []
  paymentScreens : List PaymentViewController := []

inductive Action
  | signIn (u : Uid)
  | signOut
  | openCart
  | tick (i : ℕ)
  | callback
  | cartButton (page : ProductDetailViewController)
  | removeItem (product : CartProduct)
  | remoteSet (u : Uid) (page : ProductDetailViewController)
  | remoteRemove (u : Uid) (id : ℤ)
  | buyButton (i : ℕ)
  | shippingBuyButton (j : ℕ)
  | button (k : ℕ) (clock : Clock) (uid : UUID)

/-- The actions that issue writes. -/
def Action.writes : Action → Bool
  | .cartButton _ | .removeItem _ | .remoteSet _ _ | .remoteRemove _ _ | .button _ _ _ => true
  | _ => false

/-- A press of Continue. -/
def Action.continues : Action → Bool
  | .button _ _ _ => true
  | _ => false

/-- The write creates or overwrites a cart entry. -/
def Write.setsCart : Write → Prop
  | .setValue (.cart _ _) _ => True
  | _ => False

namespace Shop

/-! ## Steps -/

/-- One write on the local copy; the listeners of a cart hear of a new entry. -/
def write (s : Shop) (w : Write) : Shop :=
  let db := w.apply s.db
  { s with
    db
    hub := match w.ref with
      | .cart u _ => s.hub.changed u (s.db.cart u) (db.cart u)
      | _ => s.hub }

def commit (s : Shop) (ws : List Write) : Shop := ws.foldl write s

/-- `fetchCartProducts` of screen `i`: one more listener on the current user's cart. -/
def fetchCartProducts (s : Shop) (i : ℕ) : Hub Uid ℕ Key Record :=
  match s.currentUser with
  | some userID => s.hub.observe userID i (s.db.cart userID)
  | none => s.hub

/-- The writes of an action. -/
def issued (s : Shop) : Action → List Write
  | .cartButton page => (page.cartButton s.currentUser).writes
  | .removeItem product => CartViewController.removeItem s.currentUser product
  | .remoteSet u page => [.setValue (.cart u (stringId page.id)) page.cartRecord]
  | .remoteRemove u id => [.removeValue (.cart u (stringId id))]
  | .button k clock uid =>
    match s.paymentScreens[k]? with
    | some vc => (vc.button s.currentUser clock uid).writes
    | none => []
  | _ => []

def step (s : Shop) (a : Action) : Option Shop :=
  match a with
  | .signIn u => some { s with currentUser := some u }
  | .signOut => some { s with currentUser := none }
  | .openCart => some { s with cartScreens := s.cartScreens ++ [{}] }
  | .tick i => s.cartScreens[i]?.map fun vc =>
      { s with cartScreens := s.cartScreens.set i vc.tick, hub := s.fetchCartProducts i }
  | .callback => s.hub.deliver.bind fun (e, hub) => s.cartScreens[e.target]?.map fun vc =>
      { s with cartScreens := s.cartScreens.set e.target (vc.childAdded e.value), hub }
  | .cartButton _ => some (s.commit (s.issued a))
  | .removeItem _ => some (s.commit (s.issued a))
  | .remoteSet _ _ => some (s.commit (s.issued a))
  | .remoteRemove _ _ => some (s.commit (s.issued a))
  | .buyButton i => s.cartScreens[i]?.map fun vc =>
      { s with shippingScreens := s.shippingScreens ++ [vc.prepare.viewDidLoad] }
  | .shippingBuyButton j => s.shippingScreens[j]?.map fun vc =>
      { s with paymentScreens := s.paymentScreens ++ [vc.prepare] }
  | .button k _ _ => s.paymentScreens[k]?.map fun _ => s.commit (s.issued a)

/-- The app as it is opened: a user signed in or not, no screen yet. -/
def start (user : Option Uid) (db : Database) : Shop := { currentUser := user, db }

/-! ## Writing -/

@[simp] theorem commit_nil (s : Shop) : s.commit [] = s := rfl

@[simp] theorem commit_cons (s : Shop) (w : Write) (ws : List Write) :
    s.commit (w :: ws) = (s.write w).commit ws := rfl

theorem commit_singleton (s : Shop) (w : Write) : s.commit [w] = s.write w := rfl

@[simp] theorem db_write (s : Shop) (w : Write) : (s.write w).db = w.apply s.db := rfl

/-- A write leaves everything but the database and the queue alone. -/
theorem write_frame (s : Shop) (w : Write) :
    (s.write w).currentUser = s.currentUser ∧ (s.write w).cartScreens = s.cartScreens ∧
      (s.write w).shippingScreens = s.shippingScreens ∧
      (s.write w).paymentScreens = s.paymentScreens ∧
      (s.write w).hub.listeners = s.hub.listeners := by
  refine ⟨rfl, rfl, rfl, rfl, ?_⟩
  unfold write
  split <;> rfl

theorem commit_frame (s : Shop) (ws : List Write) :
    (s.commit ws).db = applyAll s.db ws ∧ (s.commit ws).currentUser = s.currentUser ∧
      (s.commit ws).cartScreens = s.cartScreens ∧
      (s.commit ws).shippingScreens = s.shippingScreens ∧
      (s.commit ws).paymentScreens = s.paymentScreens ∧
      (s.commit ws).hub.listeners = s.hub.listeners := by
  induction ws generalizing s with
  | nil => exact ⟨rfl, rfl, rfl, rfl, rfl, rfl⟩
  | cons w ws ih =>
    obtain ⟨h1, h2, h3, h4, h5, h6⟩ := ih (s.write w)
    obtain ⟨w1, w2, w3, w4, w5⟩ := s.write_frame w
    rw [commit_cons, applyAll_cons]
    exact ⟨h1, h2.trans w1, h3.trans w2, h4.trans w3, h5.trans w4, h6.trans w5⟩

@[simp] theorem db_commit (s : Shop) (ws : List Write) : (s.commit ws).db = applyAll s.db ws :=
  (s.commit_frame ws).1

@[simp] theorem currentUser_commit (s : Shop) (ws : List Write) :
    (s.commit ws).currentUser = s.currentUser := (s.commit_frame ws).2.1

@[simp] theorem cartScreens_commit (s : Shop) (ws : List Write) :
    (s.commit ws).cartScreens = s.cartScreens := (s.commit_frame ws).2.2.1

@[simp] theorem shippingScreens_commit (s : Shop) (ws : List Write) :
    (s.commit ws).shippingScreens = s.shippingScreens := (s.commit_frame ws).2.2.2.1

@[simp] theorem paymentScreens_commit (s : Shop) (ws : List Write) :
    (s.commit ws).paymentScreens = s.paymentScreens := (s.commit_frame ws).2.2.2.2.1

@[simp] theorem listeners_commit (s : Shop) (ws : List Write) :
    (s.commit ws).hub.listeners = s.hub.listeners := (s.commit_frame ws).2.2.2.2.2

/-- Nobody hears of a removal, or of a write outside the carts. -/
theorem hub_write (s : Shop) (w : Write) (hw : ¬ w.setsCart) : (s.write w).hub = s.hub := by
  cases w with
  | setValue r value =>
    cases r with
    | cart u k => exact absurd trivial hw
    | _ => rfl
  | removeValue r =>
    cases r with
    | cart u k =>
      apply Hub.changed_of_added_nil
      simp [Write.apply, Database.removeValue, SortedMap.put]
    | _ => rfl

theorem hub_commit (s : Shop) (ws : List Write) (hws : ∀ w ∈ ws, ¬ w.setsCart) :
    (s.commit ws).hub = s.hub := by
  induction ws generalizing s with
  | nil => rfl
  | cons w ws ih =>
    rw [commit_cons, ih _ fun w' hw' => hws w' (List.mem_cons_of_mem _ hw'),
      hub_write s w (hws w List.mem_cons_self)]

/-- Without such a write an entry found afterwards was there before. -/
theorem get_cart_of_not_setsCart (u : Uid) (k : Key) (r : Record) (ws : List Write) (db : Database)
    (hws : ∀ w ∈ ws, ¬ w.setsCart) (h : ((applyAll db ws).cart u).get k = some r) :
    (db.cart u).get k = some r := by
  induction ws generalizing db with
  | nil => exact h
  | cons w ws ih =>
    have h1 := ih (w.apply db) (fun w' hw' => hws w' (List.mem_cons_of_mem _ hw')) h
    have hw := hws w List.mem_cons_self
    cases w with
    | setValue r' value =>
      cases r' with
      | cart u' k' => exact absurd trivial hw
      | _ => exact h1
    | removeValue r' =>
      have h2 : ((db.removeValue r').get (.cart u k)) = some r := h1
      rw [Database.removeValue, Database.get_setValue] at h2
      split at h2
      · cases h2
      · exact h2

/-! ## What an action writes -/

/-- The writes of an action: a cart entry (then nothing else), the removal of one, or, for Continue
by `u`, the line of a listed product. -/
inductive Issues (s : Shop) (a : Action) : Write → Prop
  | entry (u : Uid) (page : ProductDetailViewController)
    (hone : s.issued a = [.setValue (.cart u (stringId page.id)) page.cartRecord]) :
    Issues s a (.setValue (.cart u (stringId page.id)) page.cartRecord)
  | removal (u : Uid) (k : Key) : Issues s a (.removeValue (.cart u k))
  | line (n : ℕ) (clock : Clock) (o : UUID) (vc : PaymentViewController) (p : CartProduct) (u : Uid)
    (ha : a = .button n clock o) (hu : s.currentUser = some u)
    (hvc : s.paymentScreens[n]? = some vc) (hp : p ∈ vc.products) :
    Issues s a (.setValue (.order u o.key p.key) (PaymentViewController.orderLine clock o p))

theorem issues_of_mem (s : Shop) (a : Action) (w : Write) (hw : w ∈ s.issued a) : Issues s a w := by
  cases a with
  | cartButton page =>
    cases hu : s.currentUser with
    | none => simp only [issued, ProductDetailViewController.cartButton, hu] at hw; cases hw
    | some u =>
      have hone : s.issued (.cartButton page) =
          [.setValue (.cart u (stringId page.id)) page.cartRecord] := by
        simp only [issued, ProductDetailViewController.cartButton, hu]
      rw [hone, List.mem_singleton] at hw
      exact hw ▸ .entry u page hone
  | removeItem product =>
    simp only [issued, CartViewController.removeItem, PaymentViewController.removeItem] at hw
    split at hw
    · exact List.mem_singleton.mp hw ▸ .removal _ _
    · cases hw
  | remoteSet u page => exact List.mem_singleton.mp hw ▸ .entry u page rfl
  | remoteRemove u id => exact List.mem_singleton.mp hw ▸ .removal _ _
  | button n clock o =>
    cases hvc : s.paymentScreens[n]? with
    | none => simp only [issued, hvc] at hw; cases hw
    | some vc =>
      cases hu : s.currentUser with
      | none => simp only [issued, hvc, hu, PaymentViewController.button] at hw; cases hw
      | some u =>
        simp only [issued, hvc, hu, button_writes] at hw
        obtain ⟨p, hp, rfl | rfl⟩ := mem_rounds u clock o vc.products w hw
        · exact .line n clock o vc p u rfl hu hvc hp
        · exact .removal _ _
  | _ => cases hw

/-- An action that sets a cart entry does nothing else. -/
theorem issued_setsCart (s : Shop) (a : Action) :
    (∀ w ∈ s.issued a, ¬ w.setsCart) ∨ ∃ w, s.issued a = [w] := by
  by_cases hset : ∀ w ∈ s.issued a, ¬ w.setsCart
  · exact Or.inl hset
  · right
    push Not at hset
    obtain ⟨w, hw, hset⟩ := hset
    cases issues_of_mem s a w hw with
    | entry u page hone => exact ⟨_, hone⟩
    | removal u k => exact hset.elim
    | line n clock o vc p u => exact hset.elim

/-! ## What a step can do -/

/-- The steps of `step`, one case per kind of effect. -/
inductive Effect (s : Shop) : Action → Shop → Prop
  | signIn (u : Uid) : Effect s (.signIn u) { s with currentUser := some u }
  | signOut : Effect s .signOut { s with currentUser := none }
  | openCart : Effect s .openCart { s with cartScreens := s.cartScreens ++ [{}] }
  | tick (i : ℕ) (vc : CartViewController) (hvc : s.cartScreens[i]? = some vc) :
    Effect s (.tick i)
      { s with cartScreens := s.cartScreens.set i vc.tick, hub := s.fetchCartProducts i }
  | callback (e : Event Uid ℕ Key Record) (hub : Hub Uid ℕ Key Record) (vc : CartViewController)
    (hd : s.hub.deliver = some (e, hub)) (hvc : s.cartScreens[e.target]? = some vc) :
    Effect s .callback
      { s with cartScreens := s.cartScreens.set e.target (vc.childAdded e.value), hub }
  | commit (a : Action) (ha : a.writes = true) : Effect s a (s.commit (s.issued a))
  | buyButton (i : ℕ) (vc : CartViewController) (hvc : s.cartScreens[i]? = some vc) :
    Effect s (.buyButton i)
      { s with shippingScreens := s.shippingScreens ++ [vc.prepare.viewDidLoad] }
  | shippingBuyButton (j : ℕ) (vc : ShippingViewController) (hvc : s.shippingScreens[j]? = some vc) :
    Effect s (.shippingBuyButton j) { s with paymentScreens := s.paymentScreens ++ [vc.prepare] }

theorem effect_of_step (s s' : Shop) (a : Action) (h : s.step a = some s') : Effect s a s' := by
  cases a with
  | signIn u => cases h; exact .signIn u
  | signOut => cases h; exact .signOut
  | openCart => cases h; exact .openCart
  | tick i =>
    obtain ⟨vc, hvc, rfl⟩ := Option.map_eq_some_iff.mp h
    exact .tick i vc hvc
  | callback =>
    obtain ⟨⟨e, hub⟩, hd, h⟩ := Option.bind_eq_some_iff.mp h
    obtain ⟨vc, hvc, rfl⟩ := Option.map_eq_some_iff.mp h
    exact .callback e hub vc hd hvc
  | cartButton page => cases h; exact .commit _ rfl
  | removeItem product => cases h; exact .commit _ rfl
  | remoteSet u page => cases h; exact .commit _ rfl
  | remoteRemove u id => cases h; exact .commit _ rfl
  | buyButton i =>
    obtain ⟨vc, hvc, rfl⟩ := Option.map_eq_some_iff.mp h
    exact .buyButton i vc hvc
  | shippingBuyButton j =>
    obtain ⟨vc, hvc, rfl⟩ := Option.map_eq_some_iff.mp h
    exact .shippingBuyButton j vc hvc
  | button k clock uid =>
    obtain ⟨vc, hvc, rfl⟩ := Option.map_eq_some_iff.mp h
    exact .commit _ rfl

theorem db_step (s s' : Shop) (a : Action) (h : s.step a = some s') :
    s'.db = applyAll s.db (s.issued a) := by
  cases effect_of_step s s' a h with
  | commit a ha => exact s.db_commit _
  | _ => rfl

/-- Only the actions that issue writes change the database. -/
theorem db_run (s s' : Shop) (tr : List Action) (htr : ∀ a ∈ tr, a.writes = false)
    (hr : run step s tr = some s') : s'.db = s.db := by
  refine run_induction_of_always step (fun _ a => a.writes = false) s (fun _ t => t.db = s.db) rfl
    (fun _ t a t' _ ht ha h => ?_) tr s' (always_of_forall step _ s tr htr) hr
  rw [db_step t t' a h, ← ht]
  cases a <;> first | rfl | cases ha

/-- A press of Continue by `u`. -/
theorem step_button (s s' : Shop) (k : ℕ) (clock : Clock) (o : UUID) (u : Uid)
    (vc : PaymentViewController) (hu : s.currentUser = some u)
    (hvc : s.paymentScreens[k]? = some vc) (h : s.step (.button k clock o) = some s') :
    s.issued (.button k clock o) = vc.products.flatMap (roundWrites u clock o) ∧
      s'.db = applyAll s.db (vc.products.flatMap (roundWrites u clock o)) := by
  have hissued : s.issued (.button k clock o) = vc.products.flatMap (roundWrites u clock o) := by
    simp only [issued, hvc, hu, button_writes]
  exact ⟨hissued, hissued ▸ db_step s s' _ h⟩

theorem currentUser_step (s s' : Shop) (a : Action) (h : s.step a = some s') :
    s'.currentUser = match a with
      | .signIn u => some u
      | .signOut => none
      | _ => s.currentUser := by
  cases effect_of_step s s' a h with
  | commit a ha =>
    rw [currentUser_commit]
    cases a <;> first | rfl | cases ha
  | _ => rfl

/-- Screens of the checkout are never lost or changed. -/
theorem shipping_step (s s' : Shop) (a : Action) (h : s.step a = some s') :
    s.shippingScreens <+: s'.shippingScreens := by
  cases effect_of_step s s' a h with
  | commit a ha => rw [shippingScreens_commit]
  | buyButton i vc hvc => exact List.prefix_append _ _
  | _ => exact List.prefix_rfl

theorem payment_step (s s' : Shop) (a : Action) (h : s.step a = some s') :
    s.paymentScreens <+: s'.paymentScreens := by
  cases effect_of_step s s' a h with
  | commit a ha => rw [paymentScreens_commit]
  | shippingBuyButton j vc hvc => exact List.prefix_append _ _
  | _ => exact List.prefix_rfl

/-- A cart screen after a step is an old one, a new one, or the result of a tick or a callback. -/
theorem cartScreens_step (s s' : Shop) (a : Action) (h : s.step a = some s')
    (vc : CartViewController) (hvc : vc ∈ s'.cartScreens) :
    vc ∈ s.cartScreens ∨ vc = {} ∨
      ∃ vc₀ ∈ s.cartScreens, vc = vc₀.tick ∨ ∃ values, vc = vc₀.childAdded values := by
  cases effect_of_step s s' a h with
  | commit a ha =>
    rw [cartScreens_commit] at hvc
    exact Or.inl hvc
  | openCart =>
    rcases List.mem_append.mp hvc with hvc | hvc
    · exact Or.inl hvc
    · exact Or.inr (Or.inl (List.mem_singleton.mp hvc))
  | tick i vc₀ hvc₀ =>
    rcases List.mem_or_eq_of_mem_set hvc with hvc | rfl
    · exact Or.inl hvc
    · exact Or.inr (Or.inr ⟨vc₀, List.mem_of_getElem? hvc₀, Or.inl rfl⟩)
  | callback e hub vc₀ hd hvc₀ =>
    rcases List.mem_or_eq_of_mem_set hvc with hvc | rfl
    · exact Or.inl hvc
    · exact Or.inr (Or.inr ⟨vc₀, List.mem_of_getElem? hvc₀, Or.inr ⟨e.value, rfl⟩⟩)
  | _ => exact Or.inl hvc

theorem totalled_step (s s' : Shop) (a : Action) (h : s.step a = some s')
    (hs : ∀ vc ∈ s.cartScreens, vc.Totalled) : ∀ vc ∈ s'.cartScreens, vc.Totalled := by
  intro vc hvc
  rcases cartScreens_step s s' a h vc hvc with hvc | rfl | ⟨vc₀, hvc₀, rfl | ⟨values, rfl⟩⟩
  · exact hs vc hvc
  · rfl
  · exact vc₀.totalled_tick
  · exact vc₀.totalled_childAdded values (hs vc₀ hvc₀)

/-- Every cart screen of a run shows the total of the products it lists. -/
theorem totalled_run (s₀ s : Shop) (tr : List Action) (h₀ : ∀ vc ∈ s₀.cartScreens, vc.Totalled)
    (hr : run step s₀ tr = some s) : ∀ vc ∈ s.cartScreens, vc.Totalled :=
  run_invariant step (fun s => ∀ vc ∈ s.cartScreens, vc.Totalled)
    (fun s a s' hs h => totalled_step s s' a h hs) s₀ h₀ tr s hr

theorem totalled_start (user : Option Uid) (db : Database) :
    ∀ vc ∈ (start user db).cartScreens, vc.Totalled :=
  fun _ hvc => absurd hvc List.not_mem_nil

theorem shipping_run (s s' : Shop) (tr : List Action) (hr : run step s tr = some s') :
    s.shippingScreens <+: s'.shippingScreens :=
  run_invariant step (fun t => s.shippingScreens <+: t.shippingScreens)
    (fun t a t' ht ha => ht.trans (shipping_step t t' a ha)) s List.prefix_rfl tr s' hr

theorem payment_run (s s' : Shop) (tr : List Action) (hr : run step s tr = some s') :
    s.paymentScreens <+: s'.paymentScreens :=
  run_invariant step (fun t => s.paymentScreens <+: t.paymentScreens)
    (fun t a t' ht ha => ht.trans (payment_step t t' a ha)) s List.prefix_rfl tr s' hr

/-- Every new callback is for an entry that its cart has after the step. -/
theorem mem_queue_step (s s' : Shop) (a : Action) (h : s.step a = some s')
    (e : Event Uid ℕ Key Record) (he : e ∈ s'.hub.queue) :
    e ∈ s.hub.queue ∨ (s'.db.cart e.node).get e.key = some e.value := by
  cases effect_of_step s s' a h with
  | tick i vc hvc =>
    simp only [fetchCartProducts] at he
    split at he
    · rcases Hub.mem_queue_observe _ _ _ _ e he with he | ⟨hn, -, hg⟩
      · exact Or.inl he
      · exact Or.inr (hn ▸ hg)
    · exact Or.inl he
  | callback e' hub vc hd hvc =>
    exact Or.inl (Hub.mem_queue_deliver s.hub hub e' e hd he)
  | commit a ha =>
    have hwrite : ∀ w, e ∈ (s.write w).hub.queue →
        e ∈ s.hub.queue ∨ ((s.write w).db.cart e.node).get e.key = some e.value := by
      intro w he
      simp only [write] at he
      split at he
      · rcases Hub.mem_queue_changed _ _ _ _ e he with he | ⟨hn, -, hg, -⟩
        · exact Or.inl he
        · exact Or.inr (hn ▸ hg)
      · exact Or.inl he
    rcases issued_setsCart s a with hset | ⟨w, hw⟩
    · rw [hub_commit s _ hset] at he
      exact Or.inl he
    · rw [hw, commit_singleton] at he ⊢
      exact hwrite w he
  | _ => exact Or.inl he

end Shop

end FlowerGift
