import FlowerGift.CartScreen

/-!
# From Buy to Continue

Buy copies the list of a cart screen into a shipping screen, Shipping's Buy into
a payment screen, and Continue works off that copy, whatever happened to the cart
in between (`payment_of_buy`).  Hence, for every run through the three screens:

* the bill equals the sum of the order's lines iff the replaced entries of the
  captured list add up to nothing (`bill_matches_iff`); an intact history of the
  cart screen is enough (`bill_matches_of_intact`);
* the deleted cart entries are the ordered ones iff the captured entries are
  still in the cart (`continue_orders_current_iff`).
-/

namespace FlowerGift

open Realtime

namespace Shop

/-! ## The captured list -/

/-- A screen keeps its place when screens are added. -/
theorem getElem?_of_isPrefix {β : Type} (l l' : List β) (n : ℕ) (b : β) (h : l <+: l')
    (hb : l[n]? = some b) : l'[n]? = some b := by
  obtain ⟨r, rfl⟩ := h
  rw [List.getElem?_append_left (List.getElem?_eq_some_iff.mp hb).1, hb]

/-- The list at Buy reaches the payment screen, whatever else happens on the way. -/
theorem payment_of_buy (s s₁ s₂ : Shop) (i : ℕ) (vc : CartViewController) (tr₁ tr₂ : List Action)
    (hvc : s.cartScreens[i]? = some vc) (h₁ : run step s (.buyButton i :: tr₁) = some s₁)
    (h₂ : run step s₁ (.shippingBuyButton s.shippingScreens.length :: tr₂) = some s₂) :
    s₂.shippingScreens[s.shippingScreens.length]? = some vc.prepare.viewDidLoad ∧
      s₂.paymentScreens[s₁.paymentScreens.length]? = some ⟨vc.products⟩ := by
  obtain ⟨t, ht, htr₁⟩ := Option.bind_eq_some_iff.mp h₁
  obtain ⟨t', ht', htr₂⟩ := Option.bind_eq_some_iff.mp h₂
  have hbuy : t.shippingScreens[s.shippingScreens.length]? = some vc.prepare.viewDidLoad := by
    obtain ⟨vc', hvc', rfl⟩ := Option.map_eq_some_iff.mp ht
    rw [hvc] at hvc'
    cases hvc'
    exact List.getElem?_concat_length
  have hship := getElem?_of_isPrefix _ _ _ _ (shipping_run t s₁ tr₁ htr₁) hbuy
  have hpay : t'.paymentScreens[s₁.paymentScreens.length]? = some ⟨vc.products⟩ := by
    obtain ⟨vc', hvc', rfl⟩ := Option.map_eq_some_iff.mp ht'
    rw [hship] at hvc'
    cases hvc'
    exact List.getElem?_concat_length
  exact ⟨getElem?_of_isPrefix _ _ _ _ (shipping_run s₁ s₂ _ h₂) hship,
    getElem?_of_isPrefix _ _ _ _ (payment_run t' s₂ tr₂ htr₂) hpay⟩

end Shop

/-! ## The bill -/

/-- **When the bill matches the order.**  In every run through Buy, Shipping and Continue, whatever
happens in between, the subtotal of the shipping screen is the sum of the lines of the new order iff
the entries of the captured list that a later entry with the same id replaces add up to zero. -/
theorem bill_matches_iff (user : Option Uid) (db : Database) (tr tr₁ tr₂ : List Action)
    (s s₁ s₂ s' : Shop) (hr : run Shop.step (Shop.start user db) tr = some s) (i : ℕ)
    (vc : CartViewController) (hvc : s.cartScreens[i]? = some vc)
    (h₁ : run Shop.step s (.buyButton i :: tr₁) = some s₁)
    (h₂ : run Shop.step s₁ (.shippingBuyButton s.shippingScreens.length :: tr₂) = some s₂)
    (u : Uid) (hu : s₂.currentUser = some u) (clock : Clock) (o : UUID)
    (hfresh : s₂.db.order u o.key = ∅)
    (h₃ : s₂.step (.button s₁.paymentScreens.length clock o) = some s')
    (ship : ShippingViewController)
    (hship : s₂.shippingScreens[s.shippingScreens.length]? = some ship) :
    ship.subtotal = (linesTotal (s'.db.order u o.key) : ℤ) ↔
      ((shadowed CartProduct.key vc.products).map (·.subTotal)).sum = 0 := by
  obtain ⟨hship', hpay⟩ := Shop.payment_of_buy s s₁ s₂ i vc tr₁ tr₂ hvc h₁ h₂
  rw [hship'] at hship
  cases hship
  have hdb := (Shop.step_button s₂ s' _ clock o u _ hu hpay h₃).2
  have htotal := Shop.totalled_run _ s tr (Shop.totalled_start user db) hr vc
    (List.mem_of_getElem? hvc)
  have hlines := linesTotal_continue u clock o vc.products s₂.db hfresh
  rw [← hdb] at hlines
  have hsplit := ((kept_append_shadowed CartProduct.key vc.products).map (·.subTotal)).sum_eq
  rw [List.map_append, List.sum_append] at hsplit
  unfold CartViewController.Totalled at htotal
  have hsub : vc.prepare.viewDidLoad.subtotal = (vc.total : ℚ) := rfl
  rw [hsub, Int.cast_inj, hlines, htotal, ← hsplit]
  omega

/-- One tick and its callback, then the way through the three screens. -/
theorem bill_matches_iff_rose :
    (ShippingViewController.viewDidLoad ⟨60, 0, 10, 0, [rosePage.cartProduct]⟩).subtotal = ((60 : ℤ) : ℚ) :=
  (bill_matches_iff (some "u") roseCart [.openCart, .tick 0, .callback] [] [] _ _ _ _ rfl 0 _ rfl rfl
    rfl "u" rfl ⟨9, 30, 0⟩ someOrder rfl rfl _ rfl).mpr rfl

def lilyPage : ProductDetailViewController := ⟨"Lily", "lily", "White", 20, 2, "Flower", 1⟩

/-- Two ticks leave two listeners, so the item that another device adds is listed and billed twice
and ordered once. -/
theorem bill_exceeds_order :
    ¬ ∀ (u : Uid) (db : Database) (tr : List Action) (s s₂ s' : Shop) (i : ℕ)
      (vc : CartViewController) (clock : Clock) (o : UUID),
      CartWritten (db.cart u) → (∀ a ∈ tr, a.switches = false) →
      run Shop.step (Shop.start (some u) db) tr = some s → s.cartScreens[i]? = some vc →
      run Shop.step s [.buyButton i, .shippingBuyButton s.shippingScreens.length] = some s₂ →
      s₂.db.order u o.key = ∅ →
      s₂.step (.button s.paymentScreens.length clock o) = some s' →
      vc.prepare.viewDidLoad.subtotal = (linesTotal (s'.db.order u o.key) : ℤ) := by
  intro h
  have hx := h "u" roseCart [.openCart, .tick 0, .callback, .tick 0, .callback,
    .remoteSet "u" lilyPage, .callback, .callback] _ _ _ 0 _ ⟨9, 30, 0⟩ someOrder (roseCart_written "u")
    (by decide) rfl rfl rfl rfl rfl
  have hx' := Int.cast_inj.mp hx
  revert hx'
  decide +kernel

/-- With an intact history of the cart screen no entry of its list is replaced. -/
theorem bill_matches_of_intact (u : Uid) (db : Database) (hdb : CartWritten (db.cart u)) (i : ℕ)
    (tr : List Action) (htr : ∀ a ∈ tr, a.switches = false) (s : Shop) (since : List CartProduct)
    (hr : run (withHistory Shop.step (Shop.watch u i)) (Shop.start (some u) db, some []) tr =
      some (s, some since))
    (vc : CartViewController) (hvc : s.cartScreens[i]? = some vc) :
    shadowed CartProduct.key vc.products = [] := by
  obtain ⟨-, ht⟩ := Shop.tracks_run u i db hdb tr htr s (some since) hr
  have hnd := View.log_keys_nodup CartProduct.key _ since ht
  have hshown : (s.view u i).shown = vc.products := by
    simp only [Shop.view, hvc, Option.map_some, Option.getD_some]
  rw [hshown, List.map_append] at hnd
  exact shadowed_of_nodup CartProduct.key _ hnd.of_append_left

/-! ## The order and the cart -/

/-- Continue writes lines for listed ids only. -/
theorem mem_keys_of_line (u : Uid) (clock : Clock) (o : UUID) (ps : List CartProduct) (k : Key)
    (line : Record) (h : Write.setValue (.order u o.key k) line ∈
      ps.flatMap (roundWrites u clock o)) : k ∈ ps.map CartProduct.key := by
  obtain ⟨p, hp, he | he⟩ := mem_rounds u clock o ps _ h
  · cases he
    exact List.mem_map_of_mem hp
  · cases he

/-- The entries that Continue deletes have listed ids. -/
theorem mem_keys_of_deleted (u : Uid) (clock : Clock) (o : UUID) (ps : List CartProduct)
    (db : Database) (k : Key) (entry : Record) (hentry : (db.cart u).get k = some entry)
    (hgone : ((applyAll db (ps.flatMap (roundWrites u clock o))).cart u).get k = none) :
    k ∈ ps.map CartProduct.key := by
  by_contra hk
  have hstays : ((applyAll db (ps.flatMap (roundWrites u clock o))).cart u).get k =
      (db.cart u).get k := (get_cart_continue u clock o ps db k).trans (if_neg hk)
  rw [hstays, hentry] at hgone
  cases hgone

/-- **When Continue orders what it deletes.**  In every run through Buy, Shipping and Continue,
whatever happens in between, every deleted cart entry agrees in quantity and subtotal with its order
line and no line is written for an id that is no longer in the cart iff, for every id of the captured
list, the cart still has an entry with the captured quantity and subtotal. -/
theorem continue_orders_current_iff (s s₁ s₂ s' : Shop) (i : ℕ) (vc : CartViewController)
    (tr₁ tr₂ : List Action) (hvc : s.cartScreens[i]? = some vc)
    (h₁ : run Shop.step s (.buyButton i :: tr₁) = some s₁)
    (h₂ : run Shop.step s₁ (.shippingBuyButton s.shippingScreens.length :: tr₂) = some s₂)
    (u : Uid) (hu : s₂.currentUser = some u) (clock : Clock) (o : UUID)
    (h₃ : s₂.step (.button s₁.paymentScreens.length clock o) = some s') :
    ((∀ k entry, (s₂.db.cart u).get k = some entry → (s'.db.cart u).get k = none →
        ∃ line, (s'.db.order u o.key).get k = some line ∧
          line.lookup "qty" = entry.lookup "qty" ∧
          line.lookup "subtotal" = entry.lookup "subtotal") ∧
      ∀ k line, Write.setValue (.order u o.key k) line ∈
        s₂.issued (.button s₁.paymentScreens.length clock o) → (s₂.db.cart u).get k ≠ none) ↔
    ∀ k p, lastAt CartProduct.key vc.products k = some p →
      ∃ entry, (s₂.db.cart u).get k = some entry ∧
        entry.lookup "qty" = some (.int p.qty) ∧
        entry.lookup "subtotal" = some (.int p.subTotal) := by
  obtain ⟨-, hpay⟩ := Shop.payment_of_buy s s₁ s₂ i vc tr₁ tr₂ hvc h₁ h₂
  obtain ⟨hissued, hdb⟩ := Shop.step_button s₂ s' _ clock o u _ hu hpay h₃
  rw [hissued, hdb]
  have hline := get_order_of_last u clock o vc.products s₂.db
  constructor
  · rintro ⟨hdel, hwritten⟩ k p hp
    obtain ⟨hmem, rfl⟩ := lastAt_eq_some CartProduct.key _ k p hp
    have hk : p.key ∈ vc.products.map CartProduct.key := List.mem_map_of_mem hmem
    have hne : (s₂.db.cart u).get p.key ≠ none := by
      apply hwritten p.key (PaymentViewController.orderLine clock o p)
      exact List.mem_flatMap.mpr ⟨p, hmem, List.mem_cons_self⟩
    obtain ⟨entry, hentry⟩ := Option.ne_none_iff_exists'.mp hne
    have hgone := (get_cart_continue u clock o vc.products s₂.db p.key).trans (if_pos hk)
    obtain ⟨line, hl, hqty, hsub⟩ := hdel p.key entry hentry hgone
    rw [hline p.key p hp] at hl
    cases hl
    exact ⟨entry, hentry, hqty.symm, hsub.symm⟩
  · intro hcur
    refine ⟨fun k entry hentry hgone => ?_, fun k line hmem => ?_⟩
    · have hk := mem_keys_of_deleted u clock o vc.products s₂.db k entry hentry hgone
      obtain ⟨p, hp⟩ := exists_lastAt_of_mem_keys CartProduct.key _ k hk
      obtain ⟨entry', hentry', hqty, hsub⟩ := hcur k p hp
      rw [hentry] at hentry'
      cases hentry'
      exact ⟨_, hline k p hp, hqty.symm, hsub.symm⟩
    · have hk := mem_keys_of_line u clock o vc.products k line hmem
      obtain ⟨p, hp⟩ := exists_lastAt_of_mem_keys CartProduct.key _ k hk
      obtain ⟨entry, hentry, -⟩ := hcur k p hp
      rw [hentry]
      exact Option.some_ne_none entry

theorem continue_orders_current_iff_rose :
    ((PaymentViewController.orderLine ⟨9, 30, 0⟩ someOrder rosePage.cartProduct).lookup "qty") =
      rosePage.cartRecord.lookup "qty" := by
  have h := (continue_orders_current_iff ⟨some "u", roseCart, {}, [⟨[rosePage.cartProduct], 60,
    [rosePage.cartProduct], "$60"⟩], [], []⟩ _ _ _ 0 _ [] [] rfl rfl rfl "u" rfl ⟨9, 30, 0⟩ someOrder
    rfl).mpr (by
      intro k p hp
      obtain ⟨hmem, rfl⟩ := lastAt_eq_some CartProduct.key _ k p hp
      rw [List.mem_singleton.mp hmem]
      exact ⟨rosePage.cartRecord, rfl, rfl, rfl⟩)
  obtain ⟨line, hl, hqty, -⟩ := h.1 (stringId 1) rosePage.cartRecord rfl rfl
  cases hl
  exact hqty

/-- Between Buy and Continue another device changes the quantity: the entry that is deleted is not
the one that is ordered. -/
theorem continue_orders_stale :
    ¬ ∀ (u : Uid) (db : Database) (tr tr₁ tr₂ : List Action) (s s₁ s₂ s' : Shop) (i : ℕ)
      (clock : Clock) (o : UUID), CartWritten (db.cart u) →
      run Shop.step (Shop.start (some u) db) tr = some s →
      run Shop.step s (.buyButton i :: tr₁) = some s₁ →
      run Shop.step s₁ (.shippingBuyButton s.shippingScreens.length :: tr₂) = some s₂ →
      s₂.currentUser = some u →
      s₂.step (.button s₁.paymentScreens.length clock o) = some s' →
      ∀ k entry, (s₂.db.cart u).get k = some entry → (s'.db.cart u).get k = none →
        ∃ line, (s'.db.order u o.key).get k = some line ∧
          line.lookup "qty" = entry.lookup "qty" ∧
          line.lookup "subtotal" = entry.lookup "subtotal" := by
  intro h
  obtain ⟨line, hl, hqty, -⟩ := h "u" roseCart [.openCart, .tick 0, .callback]
    [.remoteSet "u" { rosePage with count := 5 }] [] _ _ _ _ 0 ⟨9, 30, 0⟩ someOrder (roseCart_written "u")
    rfl rfl rfl rfl rfl (stringId 1) _ rfl rfl
  cases hl
  revert hqty
  decide

end FlowerGift
