import FlowerGift.CartScreen

/-!
# Whose cart an order line comes from

The user id is read when Continue is pressed, the products were captured when
callbacks of older listeners ran, so an order can hold another user's items.
A history variable keeps, for every listed product, the user whose cart
delivered it (`Origins`); along every run such a product was an entry of that
user's cart at an earlier time (`traced_run`).  Therefore

    at every Continue, only products of the signed-in user are listed →
      every line written under orders/v was an entry of cart/v before
                                                          (order_line_provenance)
-/

namespace FlowerGift

open Realtime

/-- For every screen, the users whose carts delivered the listed products. -/
structure Origins where
  cart : ℕ → List Uid := fun _ => []
  shipping : ℕ → List Uid := fun _ => []
  payment : ℕ → List Uid := fun _ => []

namespace Shop

def origins (s : Shop) (a : Action) (_s' : Shop) (m : Origins) : Origins :=
  match a with
  | .openCart => { m with cart := Function.update m.cart s.cartScreens.length [] }
  | .tick i => { m with cart := Function.update m.cart i [] }
  | .callback =>
    match s.hub.deliver with
    | some (e, _) => { m with cart := Function.update m.cart e.target (m.cart e.target ++ [e.node]) }
    | none => m
  | .buyButton i =>
    { m with shipping := Function.update m.shipping s.shippingScreens.length (m.cart i) }
  | .shippingBuyButton j =>
    { m with payment := Function.update m.payment s.paymentScreens.length (m.shipping j) }
  | _ => m

section
variable (user : Option Uid) (db : Database)

/-- `cart/w` held the record at some time of the run. -/
def WasIn (tr : List Action) (w : Uid) (r : Record) : Prop :=
  Once step (start user db) (fun t => ∃ k, (t.db.cart w).get k = some r) tr

/-- The product was decoded from a record that `cart/w` held at some time of the run. -/
def From (tr : List Action) (p : CartProduct) (w : Uid) : Prop :=
  ∃ r, WasIn user db tr w r ∧ p = CartProduct.ofSnapshot r

/-- Every waiting callback and every listed product comes from a cart of an earlier time. -/
structure Traced (tr : List Action) (s : Shop) (m : Origins) : Prop where
  queue : ∀ e ∈ s.hub.queue, WasIn user db tr e.node e.value
  cart : ∀ i vc, s.cartScreens[i]? = some vc →
    List.Forall₂ (From user db tr) vc.products (m.cart i)
  shipping : ∀ j vc, s.shippingScreens[j]? = some vc →
    List.Forall₂ (From user db tr) vc.products (m.shipping j)
  payment : ∀ k vc, s.paymentScreens[k]? = some vc →
    List.Forall₂ (From user db tr) vc.products (m.payment k)

/-! ## More time only adds to what was in a cart -/

theorem From.append (tr : List Action) (a : Action) (ps : List CartProduct) (ws : List Uid)
    (h : List.Forall₂ (From user db tr) ps ws) :
    List.Forall₂ (From user db (tr ++ [a])) ps ws := by
  refine h.imp ?_
  rintro p w ⟨r, hr, hp⟩
  exact ⟨r, hr.append step _ _ tr [a], hp⟩

theorem Traced.append (tr : List Action) (a : Action) (s : Shop) (m : Origins)
    (h : Traced user db tr s m) : Traced user db (tr ++ [a]) s m where
  queue := fun e he => (h.queue e he).append step _ _ tr [a]
  cart := fun i vc hvc => From.append user db tr a _ _ (h.cart i vc hvc)
  shipping := fun j vc hvc => From.append user db tr a _ _ (h.shipping j vc hvc)
  payment := fun k vc hvc => From.append user db tr a _ _ (h.payment k vc hvc)

/-! ## Lists of screens -/

/-- Screen `i` and what is kept about it are replaced together. -/
theorem traced_set {β γ : Type} (R : β → γ → Prop) (l : List β) (m : ℕ → γ) (i : ℕ) (b : β) (c : γ)
    (h : ∀ n x, l[n]? = some x → R x (m n)) (hb : R b c) :
    ∀ n x, (l.set i b)[n]? = some x → R x (Function.update m i c n) := by
  intro n x hx
  rw [List.getElem?_set] at hx
  by_cases hn : i = n
  · subst hn
    rw [if_pos rfl] at hx
    split at hx
    · cases hx
      rw [Function.update_self]
      exact hb
    · cases hx
  · rw [if_neg hn] at hx
    rw [Function.update_of_ne (Ne.symm hn)]
    exact h n x hx

/-- A screen is added with what is kept about it. -/
theorem traced_concat {β γ : Type} (R : β → γ → Prop) (l : List β) (m : ℕ → γ) (b : β) (c : γ)
    (h : ∀ n x, l[n]? = some x → R x (m n)) (hb : R b c) :
    ∀ n x, (l ++ [b])[n]? = some x → R x (Function.update m l.length c n) := by
  intro n x hx
  rw [List.getElem?_append] at hx
  split at hx
  · next hn =>
    rw [Function.update_of_ne (Nat.ne_of_lt hn)]
    exact h n x hx
  · have hlt := (List.getElem?_eq_some_iff.mp hx).1
    rw [List.length_singleton] at hlt
    obtain rfl : n = l.length := by omega
    rw [Nat.sub_self] at hx
    cases hx
    rw [Function.update_self]
    exact hb

/-! ## Every step keeps the trace -/

theorem traced_step (tr : List Action) (s s' : Shop) (a : Action) (m : Origins)
    (hr : run step (start user db) tr = some s) (h : s.step a = some s')
    (ht : Traced user db tr s m) : Traced user db (tr ++ [a]) s' (origins s a s' m) := by
  have hrun : run step (start user db) (tr ++ [a]) = some s' :=
    (run_snoc step _ s' tr a).mpr ⟨s, hr, h⟩
  have hqueue : ∀ e ∈ s'.hub.queue, WasIn user db (tr ++ [a]) e.node e.value := by
    intro e he
    rcases mem_queue_step s s' a h e he with he | hg
    · exact (ht.queue e he).append step _ _ tr [a]
    · exact once_now step _ s' _ _ hrun ⟨e.key, hg⟩
  have ht' := ht.append user db tr a
  cases effect_of_step s s' a h with
  | signIn u => exact ⟨hqueue, ht'.cart, ht'.shipping, ht'.payment⟩
  | signOut => exact ⟨hqueue, ht'.cart, ht'.shipping, ht'.payment⟩
  | openCart =>
    exact ⟨hqueue, traced_concat _ _ _ _ _ ht'.cart List.Forall₂.nil, ht'.shipping, ht'.payment⟩
  | tick i vc₀ hvc₀ =>
    exact ⟨hqueue, traced_set _ _ _ _ _ _ ht'.cart List.Forall₂.nil, ht'.shipping, ht'.payment⟩
  | callback e hub vc₀ hd hvc₀ =>
    have horigins : origins s .callback
        { s with cartScreens := s.cartScreens.set e.target (vc₀.childAdded e.value), hub } m =
          { m with cart := Function.update m.cart e.target (m.cart e.target ++ [e.node]) } := by
      simp only [origins, hd]
    rw [horigins]
    refine ⟨hqueue, traced_set _ _ _ _ _ _ ht'.cart ?_, ht'.shipping, ht'.payment⟩
    -- the delivered record was in the cart of the listener's node
    have hmem := Hub.mem_queue_of_deliver s.hub hub e hd
    exact List.rel_append (ht'.cart e.target vc₀ hvc₀)
      (List.Forall₂.cons ⟨e.value, ht'.queue e hmem, rfl⟩ List.Forall₂.nil)
  | commit a ha =>
    have horigins : origins s a (s.commit (s.issued a)) m = m := by
      cases a <;> first | rfl | cases ha
    rw [horigins]
    refine ⟨hqueue, ?_, ?_, ?_⟩
    · rw [cartScreens_commit]
      exact ht'.cart
    · rw [shippingScreens_commit]
      exact ht'.shipping
    · rw [paymentScreens_commit]
      exact ht'.payment
  | buyButton i vc₀ hvc₀ =>
    exact ⟨hqueue, ht'.cart, traced_concat _ _ _ _ _ ht'.shipping (ht'.cart i vc₀ hvc₀), ht'.payment⟩
  | shippingBuyButton j vc₀ hvc₀ =>
    exact ⟨hqueue, ht'.cart, ht'.shipping,
      traced_concat _ _ _ _ _ ht'.payment (ht'.shipping j vc₀ hvc₀)⟩

theorem traced_run (tr : List Action) (s : Shop) (m : Origins)
    (hr : run (withHistory step origins) (start user db, {}) tr = some (s, m)) :
    Traced user db tr s m := by
  refine run_induction (withHistory step origins) (start user db, {})
    (fun tr sm => Traced user db tr sm.1 sm.2) ?_ ?_ tr (s, m) hr
  · exact ⟨fun e he => (nomatch he), fun i vc hvc => (nomatch hvc), fun j vc hvc => (nomatch hvc),
      fun k vc hvc => (nomatch hvc)⟩
  · rintro tr ⟨t, n⟩ a ⟨t', n'⟩ hrun ht h
    obtain ⟨hstep, rfl⟩ := (withHistory_eq_some_iff step origins t t' n n' a).mp h
    exact traced_step user db tr t t' a n (run_withHistory step origins _ _ tr _ hrun) hstep ht

end

/-- At a press of Continue every listed product was delivered from the cart of the signed-in user. -/
def OwnProducts (sm : Shop × Origins) (a : Action) : Prop :=
  ∀ k clock o v, a = .button k clock o → sm.1.currentUser = some v → ∀ w ∈ sm.2.payment k, w = v

theorem ownProducts_of_not_continues (sm : Shop × Origins) (a : Action) (ha : a.continues = false) :
    OwnProducts sm a := by
  rintro k clock o v rfl
  cases ha

theorem written_run (user : Option Uid) (db : Database) (hdb : ∀ u, CartWritten (db.cart u))
    (tr : List Action) (s : Shop) (hr : run step (start user db) tr = some s) (u : Uid) :
    CartWritten (s.db.cart u) :=
  run_invariant step (fun s => CartWritten (s.db.cart u))
    (fun s a s' hs h => written_step u s s' a h hs) _ (hdb u) tr s hr

end Shop

/-- **When order lines come from the user's own cart.**  In every run, with any changes of user, in
which Continue is pressed only on products delivered from the signed-in user's cart, every line
written under `orders/v` carries the id, quantity and subtotal of a record that `cart/v` held at an
earlier time. -/
theorem order_line_provenance (user : Option Uid) (db : Database)
    (hdb : ∀ u, CartWritten (db.cart u)) (tr : List Action)
    (hc : Always (withHistory Shop.step Shop.origins) Shop.OwnProducts
      (Shop.start user db, {}) tr)
    (tr₁ tr₂ : List Action) (a : Action) (s : Shop) (htr : tr = tr₁ ++ a :: tr₂)
    (hr : run Shop.step (Shop.start user db) tr₁ = some s) (v : Uid) (o k : Key) (line : Record)
    (hline : Write.setValue (.order v o k) line ∈ s.issued a) :
    ∃ entry, Shop.WasIn user db tr₁ v entry ∧
      ∀ field ∈ ["productId", "qty", "subtotal"], line.lookup field = entry.lookup field := by
  -- only Continue writes order lines
  obtain ⟨n, clock, uid, vc, p, rfl, hu, hvc, hp, rfl⟩ : ∃ n clock uid vc p, a = .button n clock uid ∧
      s.currentUser = some v ∧ s.paymentScreens[n]? = some vc ∧ p ∈ vc.products ∧
        line = PaymentViewController.orderLine clock uid p := by
    cases Shop.issues_of_mem s a _ hline with
    | line n clock uid vc p u ha hu hvc hp => exact ⟨n, clock, uid, vc, p, ha, hu, hvc, hp, rfl⟩
  obtain ⟨m, hm⟩ := exists_withHistory Shop.step Shop.origins _ s {} tr₁ hr
  have hown := hc tr₁ _ tr₂ (s, m) htr hm n clock uid v rfl hu
  have htraced := (Shop.traced_run user db tr₁ s m hm).payment n vc hvc
  -- the product's owner is the signed-in user
  obtain ⟨i, hi, rfl⟩ := List.mem_iff_getElem.mp hp
  have hlen : i < (m.payment n).length := htraced.length_eq ▸ hi
  obtain ⟨r, hr', hpr⟩ := htraced.get hi hlen
  have hw : (m.payment n)[i] = v := hown _ (List.getElem_mem hlen)
  rw [List.get_eq_getElem, hw] at hr'
  refine ⟨r, hr', ?_⟩
  obtain ⟨tr', tr'', t, -, ht, k', hg⟩ := hr'
  obtain ⟨page, -, rfl⟩ := Shop.written_run user db hdb tr' t ht v k' r hg
  rw [List.get_eq_getElem, ofSnapshot_cartRecord] at hpr
  rw [hpr]
  intro field hf
  simp only [List.mem_cons, List.not_mem_nil, or_false] at hf
  rcases hf with rfl | rfl | rfl <;> rfl

theorem order_line_provenance_rose :
    ∃ entry, Shop.WasIn (some "u") roseCart toPayment "u" entry ∧
      ∀ field ∈ ["productId", "qty", "subtotal"],
        (PaymentViewController.orderLine ⟨9, 30, 0⟩ someOrder rosePage.cartProduct).lookup field =
          entry.lookup field := by
  refine order_line_provenance (some "u") roseCart roseCart_written
    (toPayment ++ [.button 0 ⟨9, 30, 0⟩ someOrder]) ?_ toPayment [] _ _ rfl rfl "u" someOrder.key
    (stringId 1) _ List.mem_cons_self
  refine always_append _ _ _ _ toPayment _ ?_ rfl (always_cons _ _ _ _ _ _ ?_ rfl (always_nil _ _ _))
  · exact (always_of_forall _ (fun a => a.continues = false) _ toPayment (by decide)).mono _ _ _ _ _
      Shop.ownProducts_of_not_continues
  · intro k clock o v ha hu w hw
    cases ha
    cases hu
    exact List.mem_singleton.mp hw

/-- `v` signs in over the session of `u` and presses Continue on the screen that `u` left: the items
of `u` are ordered for `v`, whose cart was never anything but empty. -/
theorem order_line_of_other_user :
    ¬ ∀ (user : Option Uid) (db : Database) (tr : List Action) (a : Action) (s : Shop) (v : Uid)
      (o k : Key) (line : Record), (∀ u, CartWritten (db.cart u)) →
      run Shop.step (Shop.start user db) tr = some s →
      Write.setValue (.order v o k) line ∈ s.issued a →
      ∃ entry, Shop.WasIn user db tr v entry ∧
        ∀ field ∈ ["productId", "qty", "subtotal"], line.lookup field = entry.lookup field := by
  intro h
  obtain ⟨entry, ⟨tr₁, tr₂, t, htr, ht, k, hg⟩, -⟩ := h (some "u") roseCart
    (toPayment ++ [.signIn "v"]) (.button 0 ⟨9, 30, 0⟩ someOrder) _ "v" someOrder.key (stringId 1) _
    roseCart_written rfl List.mem_cons_self
  -- nothing on the way writes to the database, so the cart of `v` is that of the start
  have hsilent : ∀ a ∈ toPayment ++ [Action.signIn "v"], a.writes = false := by decide
  have hdb := Shop.db_run _ t tr₁ (fun a ha => hsilent a (htr ▸ List.mem_append_left _ ha)) ht
  rw [hdb] at hg
  have hempty : (Shop.start (some "u") roseCart).db.cart "v" = ∅ := roseCart_cart "v"
  rw [hempty] at hg
  cases hg

end FlowerGift
