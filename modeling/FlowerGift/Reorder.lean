import FlowerGift.CartScreen

/-!
# How often an item is ordered

Each addition of an item to `cart/u` pays for one order of it: along a run of
one user, as long as Continue is pressed only while the item is still in the
cart,

    db.orderCount u id + db.inCart u id ≤ number of additions          (paid_run)

(`ordered_at_most_once`).  A payment screen keeps its list after the order is
placed, so a second press of Continue orders the same items again
(`ordered_twice`).
-/

namespace FlowerGift

open Realtime

/-- The orders of `u` with a line for `id`. -/
def Database.orderCount (db : Database) (u : Uid) (id : ℤ) : ℕ :=
  (db.orders u).values.countP fun lines => (lines.get (stringId id)).isSome

/-- `1` while `id` is in `cart/u`. -/
def Database.inCart (db : Database) (u : Uid) (id : ℤ) : ℕ :=
  if ((db.cart u).get (stringId id)).isSome then 1 else 0

/-- The action adds `id` to `cart/u`, for the signed-in user `u`. -/
def Action.adds (u : Uid) (id : ℤ) : Action → Bool
  | .cartButton page => page.id = id
  | .remoteSet u' page => u' = u ∧ page.id = id
  | _ => false

namespace Database

variable (db : Database) (u : Uid) (id : ℤ)

/-! ## Single writes -/

theorem orderCount_setOrder (u' : Uid) (o k : Key) (r : Record) :
    (db.setValue (.order u' o k) (some r)).orderCount u id ≤
      db.orderCount u id +
        if k = stringId id ∧ (db.order u o).get (stringId id) = none then 1 else 0 := by
  unfold orderCount
  by_cases hu : u = u'
  · subst hu
    have horders : (db.setValue (.order u o k) (some r)).orders u =
        (db.orders u).insert o ((db.order u o).insert k r) := by
      simp [setValue, SortedMap.put]
    have hcount := (db.orders u).countP_values_insert o ((db.order u o).insert k r)
      fun lines => (lines.get (stringId id)).isSome
    rw [horders]
    have hold : (((db.orders u).get o).map fun lines =>
        if (lines.get (stringId id)).isSome then 1 else 0).getD 0 =
          if ((db.order u o).get (stringId id)).isSome then 1 else 0 := by
      unfold order
      cases (db.orders u).get o <;> simp
    rw [hold, SortedMap.get_insert] at hcount
    by_cases hk : stringId id = k
    · subst hk
      cases hg : (db.order u o).get (stringId id) with
      | none =>
        simp only [hg, Option.isSome_none, Option.isSome_some, if_true, and_self] at hcount ⊢
        exact Nat.le_of_eq hcount
      | some w =>
        simp only [hg, Option.isSome_some, if_true] at hcount
        omega
    · rw [if_neg hk] at hcount
      omega
  · have horders : (db.setValue (.order u' o k) (some r)).orders u = db.orders u :=
      Function.update_of_ne hu _ _
    rw [horders]
    omega

theorem inCart_le_one : db.inCart u id ≤ 1 := by
  unfold inCart
  split <;> omega

theorem inCart_setCart (u' : Uid) (k : Key) (r : Record) :
    (db.setValue (.cart u' k) (some r)).inCart u id ≤
      db.inCart u id + if u' = u ∧ k = stringId id then 1 else 0 := by
  by_cases hk : u' = u ∧ k = stringId id
  · rw [if_pos hk]
    have := (db.setValue (.cart u' k) (some r)).inCart_le_one u id
    omega
  · have hget : (db.setValue (.cart u' k) (some r)).get (.cart u (stringId id)) =
        db.get (.cart u (stringId id)) := by
      rw [get_setValue, if_neg]
      intro he
      cases he
      exact hk ⟨rfl, rfl⟩
    have hsame : (db.setValue (.cart u' k) (some r)).inCart u id = db.inCart u id := by
      unfold inCart
      exact congrArg (fun v : Option Record => if v.isSome then 1 else 0) hget
    omega

theorem inCart_removeCart (u' : Uid) (k : Key) :
    (db.removeValue (.cart u' k)).inCart u id ≤ db.inCart u id := by
  have hget := db.get_setValue (.cart u' k) (.cart u (stringId id)) none
  unfold inCart
  have hleft : ((db.removeValue (.cart u' k)).cart u).get (stringId id) =
      if Ref.cart u (stringId id) = .cart u' k then none else (db.cart u).get (stringId id) := hget
  rw [hleft]
  split <;> simp

/-! ## The loop of `button` -/

/-- One press of Continue creates at most one order with the item, and none unless it is listed. -/
theorem orderCount_continue (clock : Clock) (o : UUID) (ps : List CartProduct) :
    (applyAll db (ps.flatMap (roundWrites u clock o))).orderCount u id ≤
      db.orderCount u id +
        if stringId id ∈ ps.map CartProduct.key ∧ (db.order u o.key).get (stringId id) = none
        then 1 else 0 := by
  induction ps generalizing db with
  | nil => exact Nat.le_add_right _ _
  | cons p ps ih =>
    have hset : (applyAll db (roundWrites u clock o p)).orderCount u id ≤ db.orderCount u id +
        if p.key = stringId id ∧ (db.order u o.key).get (stringId id) = none then 1 else 0 :=
      db.orderCount_setOrder u id u o.key p.key _
    have hget := get_order_continue u clock o [p] db (stringId id)
    rw [List.flatMap_singleton] at hget
    have hrest := ih (applyAll db (roundWrites u clock o p))
    have hline : ((applyAll db (roundWrites u clock o p)).order u o.key).get (stringId id) =
        if p.key = stringId id then some (PaymentViewController.orderLine clock o p)
        else (db.order u o.key).get (stringId id) := by
      refine hget.trans ?_
      simp only [lastAt, Option.none_or]
      split <;> rfl
    rw [List.flatMap_cons, applyAll_append, List.map_cons]
    rw [hline] at hrest
    by_cases hp : p.key = stringId id
    · -- the first line for the item: later ones overwrite it
      simp only [hp, if_true, reduceCtorEq, and_false, if_false, List.mem_cons, true_or,
        true_and, Nat.add_zero] at hset hrest ⊢
      omega
    · simp only [hp, Ne.symm hp, if_false, false_and, List.mem_cons, false_or,
        Nat.add_zero] at hset hrest ⊢
      omega

theorem inCart_continue (clock : Clock) (o : UUID) (ps : List CartProduct) :
    (applyAll db (ps.flatMap (roundWrites u clock o))).inCart u id =
      if stringId id ∈ ps.map CartProduct.key then 0 else db.inCart u id := by
  have hget : ((applyAll db (ps.flatMap (roundWrites u clock o))).cart u).get (stringId id) =
      if stringId id ∈ ps.map CartProduct.key then none else (db.cart u).get (stringId id) :=
    get_cart_continue u clock o ps db (stringId id)
  unfold inCart
  rw [hget]
  split <;> rfl

end Database

/-! ## Runs -/

namespace Shop

/-- Continue is pressed on a screen that lists `id` only while `id` is in `cart/u`. -/
def PaidFor (u : Uid) (id : ℤ) (s : Shop) (a : Action) : Prop :=
  ∀ k clock o vc, a = .button k clock o → s.paymentScreens[k]? = some vc →
    id ∈ vc.products.map (·.id) → (s.db.cart u).get (stringId id) ≠ none

variable (u : Uid) (id : ℤ)

theorem mem_keys_iff (ps : List CartProduct) :
    stringId id ∈ ps.map CartProduct.key ↔ id ∈ ps.map (·.id) := by
  simp only [List.mem_map, CartProduct.key, stringId_inj]

theorem paidFor_of_not_continues (s : Shop) (a : Action) (ha : a.continues = false) :
    PaidFor u id s a := by
  rintro k clock o vc rfl
  cases ha

/-- Every step keeps the balance of orders, cart and additions. -/
theorem paid_step (s s' : Shop) (a : Action) (hu : s.currentUser = some u) (hc : PaidFor u id s a)
    (h : s.step a = some s') :
    s'.db.orderCount u id + s'.db.inCart u id ≤
      s.db.orderCount u id + s.db.inCart u id + if a.adds u id then 1 else 0 := by
  rw [db_step s s' a h]
  cases a with
  | cartButton page =>
    have hin := s.db.inCart_setCart u id u (stringId page.id) page.cartRecord
    simp only [issued, ProductDetailViewController.cartButton, hu, Action.adds, stringId_inj,
      true_and, decide_eq_true_eq] at hin ⊢
    rw [Nat.add_assoc]
    exact Nat.add_le_add_left hin _
  | remoteSet u' page =>
    have hin := s.db.inCart_setCart u id u' (stringId page.id) page.cartRecord
    simp only [issued, Action.adds, stringId_inj, decide_eq_true_eq] at hin ⊢
    rw [Nat.add_assoc]
    exact Nat.add_le_add_left hin _
  | removeItem product =>
    have hin := s.db.inCart_removeCart u id u (stringId product.id)
    simp only [issued, CartViewController.removeItem, PaymentViewController.removeItem, hu]
    exact Nat.add_le_add_left hin _
  | remoteRemove u' id' =>
    exact Nat.add_le_add_left (s.db.inCart_removeCart u id u' (stringId id')) _
  | button k clock o =>
    obtain ⟨vc, hvc, -⟩ := Option.map_eq_some_iff.mp h
    rw [(step_button s s' k clock o u vc hu hvc h).1]
    have hcount := s.db.orderCount_continue u id clock o vc.products
    have hin := s.db.inCart_continue u id clock o vc.products
    by_cases hk : stringId id ∈ vc.products.map CartProduct.key
    · -- the item leaves the cart and enters at most one order
      have hone : s.db.inCart u id = 1 := by
        have hne := hc k clock o vc rfl hvc ((mem_keys_iff id vc.products).mp hk)
        exact if_pos (Option.isSome_iff_ne_none.mpr hne)
      rw [if_pos hk] at hin
      split at hcount <;> omega
    · rw [if_neg hk] at hin
      rw [if_neg fun hh => hk hh.1] at hcount
      omega
  | _ => exact Nat.le_add_right _ _

theorem paid_run (db : Database) (hcart : db.cart u = ∅) (horders : db.orders u = ∅)
    (tr : List Action) (s : Shop) (htr : ∀ a ∈ tr, a.switches = false)
    (hc : Always step (PaidFor u id) (start (some u) db) tr)
    (hr : run step (start (some u) db) tr = some s) :
    s.currentUser = some u ∧
      s.db.orderCount u id + s.db.inCart u id ≤ tr.countP (Action.adds u id) := by
  refine run_induction_of_always step (fun t a => a.switches = false ∧ PaidFor u id t a) _
    (fun tr s => s.currentUser = some u ∧
      s.db.orderCount u id + s.db.inCart u id ≤ tr.countP (Action.adds u id)) ?_ ?_ tr s
    ((always_of_forall step (fun a => a.switches = false) _ tr htr).and _ _ _ _ _ hc) hr
  · refine ⟨rfl, ?_⟩
    simp [start, Database.orderCount, Database.inCart, hcart, horders, SortedMap.values]
  · rintro tr t a t' - ⟨hu, hle⟩ ⟨ha, hpaid⟩ h
    refine ⟨?_, ?_⟩
    · rw [currentUser_step t t' a h, ← hu]
      cases a <;> first | rfl | cases ha
    · have hstep := paid_step u id t t' a hu hpaid h
      rw [List.countP_append, List.countP_singleton]
      omega

end Shop

/-- **When an item is ordered at most once per addition.**  In every run of one user that starts
with an empty cart and no orders, and in which Continue is pressed on a screen that lists the item
only while the item is in the cart, the orders with a line for it never exceed its additions. -/
theorem ordered_at_most_once (u : Uid) (db : Database) (hcart : db.cart u = ∅)
    (horders : db.orders u = ∅) (id : ℤ) (tr : List Action) (s : Shop)
    (htr : ∀ a ∈ tr, a.switches = false)
    (hc : Always Shop.step (Shop.PaidFor u id) (Shop.start (some u) db) tr)
    (hr : run Shop.step (Shop.start (some u) db) tr = some s) :
    s.db.orderCount u id ≤ tr.countP (Action.adds u id) := by
  have h := (Shop.paid_run u id db hcart horders tr s htr hc hr).2
  omega

/-- One addition and its way to Continue. -/
def oneCheckout : List Action :=
  (.cartButton rosePage :: toPayment) ++ [.button 0 ⟨9, 30, 0⟩ someOrder]

theorem ordered_at_most_once_rose :
    ∃ s, run Shop.step (Shop.start (some "u") Database.empty) oneCheckout = some s ∧
      s.db.orderCount "u" 1 ≤ oneCheckout.countP (Action.adds "u" 1) := by
  refine ⟨_, rfl, ordered_at_most_once "u" Database.empty rfl rfl 1 oneCheckout _ (by decide) ?_ rfl⟩
  refine always_append Shop.step _ (Shop.start (some "u") Database.empty) _
    (.cartButton rosePage :: toPayment) [.button 0 ⟨9, 30, 0⟩ someOrder] ?_ rfl ?_
  · exact (always_of_forall _ (fun a : Action => a.continues = false) _ _ (by decide)).mono _ _ _ _ _
      (Shop.paidFor_of_not_continues "u" 1)
  · refine always_cons _ _ _ _ _ _ ?_ rfl (always_nil _ _ _)
    intro k clock o vc _ _ _
    decide

def laterOrder : UUID := ⟨"7D444840-9DC0-11D1-B245-5FFDCE74FAD2", by decide⟩

/-- Continue, back, Continue: the payment screen still lists the item. -/
theorem ordered_twice :
    ¬ ∀ (u : Uid) (db : Database) (id : ℤ) (tr : List Action) (s : Shop), db.cart u = ∅ →
      db.orders u = ∅ → (∀ a ∈ tr, a.switches = false) →
      run Shop.step (Shop.start (some u) db) tr = some s →
      s.db.orderCount u id ≤ tr.countP (Action.adds u id) := by
  intro h
  have hx := h "u" Database.empty 1 (oneCheckout ++ [.button 0 ⟨9, 31, 0⟩ laterOrder]) _ rfl rfl
    (by decide) rfl
  revert hx
  decide +kernel

end FlowerGift
