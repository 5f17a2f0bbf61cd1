import FlowerGift.Checkout
import FlowerGift.Lib.LastWrite
import FlowerGift.Lib.Polling

/-!
# What a press of Continue does to the database

`PaymentViewController.button` writes one order line per listed product, keyed
`String(id)`, and removes the cart entry with that key.  Applied to any database
(`get_order_continue`, `get_cart_continue`, `get_other_continue`):

    orders/u/o/k   the line of the last listed product with key k, if there is one
    cart/u/k       gone, if a listed product has key k
    the rest       unchanged

From a settled cart, with all writes accepted, the order is the cart and the
cart is empty (`button_conserves`).  The two writes of a product are accepted or
rejected independently, so a product is in exactly one of cart and order iff the
server decides both alike (`button_atomic_iff`).
-/

namespace FlowerGift

open Realtime

/-- The key of a product's cart entry and of its order line. -/
def CartProduct.key (p : CartProduct) : Key := stringId p.id

/-- Every entry was written by the product page's `CartButton`. -/
def CartWritten (m : Children) : Prop :=
  ∀ k r, m.get k = some r → ∃ page : ProductDetailViewController, k = stringId page.id ∧ r = page.cartRecord

/-- `cart/u` as `fetchCartProducts` decodes it. -/
def Database.cartProducts (db : Database) (u : Uid) : SortedMap Key CartProduct :=
  (db.cart u).mapVal CartProduct.ofSnapshot

theorem CartWritten.keyed (db : Database) (u : Uid) (h : CartWritten (db.cart u)) :
    Keyed CartProduct.key (db.cartProducts u) := by
  intro k p hp
  rw [Database.cartProducts, SortedMap.get_mapVal] at hp
  obtain ⟨r, hr, rfl⟩ := Option.map_eq_some_iff.mp hp
  obtain ⟨page, rfl, rfl⟩ := h k r hr
  rfl

theorem cartWritten_empty : CartWritten ∅ := fun _ _ h => (nomatch h)

theorem CartWritten.put (m : Children) (h : CartWritten m) (k : Key) (v : Option Record)
    (hv : ∀ r, v = some r → ∃ page : ProductDetailViewController, k = stringId page.id ∧ r = page.cartRecord) :
    CartWritten (m.put k v) := by
  intro k' r hr
  rw [SortedMap.get_put] at hr
  split at hr
  · next hk => exact hk ▸ hv r hr
  · exact h k' r hr

/-! ## The loop of `button` -/

/-- The writes of one round of the loop. -/
def roundWrites (u : Uid) (clock : Clock) (o : UUID) (p : CartProduct) : List Write :=
  [.setValue (.order u o.key p.key) (PaymentViewController.orderLine clock o p),
    .removeValue (.cart u p.key)]

theorem button_writes (vc : PaymentViewController) (u : Uid) (clock : Clock) (o : UUID) :
    (vc.button (some u) clock o).writes = vc.products.flatMap (roundWrites u clock o) := rfl

section
variable (u : Uid) (clock : Clock) (o : UUID)

/-- Every write of the loop belongs to the round of one product. -/
theorem mem_rounds (ps : List CartProduct) (w : Write)
    (hw : w ∈ ps.flatMap (roundWrites u clock o)) :
    ∃ p ∈ ps, w = .setValue (.order u o.key p.key) (PaymentViewController.orderLine clock o p) ∨
      w = .removeValue (.cart u p.key) := by
  obtain ⟨p, hp, hw⟩ := List.mem_flatMap.mp hw
  simp only [roundWrites, List.mem_cons, List.not_mem_nil, or_false] at hw
  exact ⟨p, hp, hw⟩

/-- `orders/u/o/k` is the line of the last product with key `k`. -/
theorem get_order_continue (ps : List CartProduct) (db : Database) (k : Key) :
    (applyAll db (ps.flatMap (roundWrites u clock o))).get (.order u o.key k) =
      ((lastAt CartProduct.key ps k).map (PaymentViewController.orderLine clock o)).or
        (db.get (.order u o.key k)) := by
  induction ps generalizing db with
  | nil => rfl
  | cons p ps ih =>
    have hround : (applyAll db (roundWrites u clock o p)).get (.order u o.key k) =
        if k = p.key then some (PaymentViewController.orderLine clock o p)
        else db.get (.order u o.key k) := by
      simp [roundWrites, Write.apply, Database.removeValue, Database.get_setValue]
    rw [List.flatMap_cons, applyAll_append, ih, hround, lastAt]
    cases lastAt CartProduct.key ps k with
    | some q => simp
    | none =>
      by_cases hk : k = p.key
      · simp [hk]
      · simp [hk, Ne.symm hk]

theorem get_order_of_last (ps : List CartProduct) (db : Database) (k : Key) (p : CartProduct)
    (hp : lastAt CartProduct.key ps k = some p) :
    ((applyAll db (ps.flatMap (roundWrites u clock o))).order u o.key).get k =
      some (PaymentViewController.orderLine clock o p) := by
  refine (get_order_continue u clock o ps db k).trans ?_
  rw [hp, Option.map_some, Option.some_or]

/-- With a fresh order id the lines are those of the loop. -/
theorem get_order_fresh (ps : List CartProduct) (db : Database) (hfresh : db.order u o.key = ∅)
    (k : Key) :
    ((applyAll db (ps.flatMap (roundWrites u clock o))).order u o.key).get k =
      (lastAt CartProduct.key ps k).map (PaymentViewController.orderLine clock o) := by
  have h := get_order_continue u clock o ps db k
  have hnone : db.get (.order u o.key k) = none := by
    rw [Database.get, hfresh]
    rfl
  rw [hnone, Option.or_none] at h
  exact h

/-- `cart/u/k` is removed if a product has key `k`. -/
theorem get_cart_continue (ps : List CartProduct) (db : Database) (k : Key) :
    (applyAll db (ps.flatMap (roundWrites u clock o))).get (.cart u k) =
      if k ∈ ps.map CartProduct.key then none else db.get (.cart u k) := by
  induction ps generalizing db with
  | nil => rfl
  | cons p ps ih =>
    have hround : (applyAll db (roundWrites u clock o p)).get (.cart u k) =
        if k = p.key then none else db.get (.cart u k) := by
      simp [roundWrites, Write.apply, Database.removeValue, Database.get_setValue]
    rw [List.flatMap_cons, applyAll_append, ih, hround, List.map_cons]
    by_cases hk : k = p.key
    · simp [hk]
    · simp [hk]

/-- Every record outside `orders/u/o` and `cart/u` stays. -/
theorem get_other_continue (ps : List CartProduct) (db : Database) (r : Ref)
    (ho : ∀ k, r ≠ .order u o.key k) (hc : ∀ k, r ≠ .cart u k) :
    (applyAll db (ps.flatMap (roundWrites u clock o))).get r = db.get r := by
  apply get_applyAll_of_ne
  intro w hw
  obtain ⟨p, -, rfl | rfl⟩ := mem_rounds u clock o ps w hw
  · exact (ho p.key).symm
  · exact (hc p.key).symm

end

/-! ## Checkout of a settled cart -/

/-- `products` is the decoded content of `cart/u`, whose entries the app wrote. -/
structure SettledCart (db : Database) (u : Uid) (products : List CartProduct) : Prop where
  written : CartWritten (db.cart u)
  content : products.Perm (db.cartProducts u).values

namespace SettledCart

variable {db : Database} {u : Uid} {products : List CartProduct}

theorem keys_perm (h : SettledCart db u products) :
    (products.map CartProduct.key).Perm (db.cart u).keys := by
  have hk := (h.written.keyed db u).values_map
  have hkeys : (db.cartProducts u).keys = (db.cart u).keys := SortedMap.keys_mapVal _ _
  rw [← hkeys, ← hk]
  exact h.content.map _

theorem keys_nodup (h : SettledCart db u products) : (products.map CartProduct.key).Nodup :=
  h.keys_perm.nodup_iff.mpr (db.cart u).keys_nodup

theorem ids_nodup (h : SettledCart db u products) : (products.map (·.id)).Nodup := by
  have hkeys : ((products.map (·.id)).map stringId).Nodup := by
    rw [List.map_map]
    exact h.keys_nodup
  exact hkeys.of_map

/-- A listed product comes from the entry at its key. -/
theorem get_of_mem (h : SettledCart db u products) (p : CartProduct) (hp : p ∈ products) :
    ∃ page : ProductDetailViewController, p = page.cartProduct ∧
      (db.cart u).get p.key = some page.cartRecord := by
  obtain ⟨k, hk⟩ := (SortedMap.mem_values_iff _ p).mp (h.content.mem_iff.mp hp)
  rw [Database.cartProducts, SortedMap.get_mapVal] at hk
  obtain ⟨r, hr, rfl⟩ := Option.map_eq_some_iff.mp hk
  obtain ⟨page, rfl, rfl⟩ := h.written k r hr
  exact ⟨page, rfl, hr⟩

/-- Every entry is listed. -/
theorem mem_of_get (h : SettledCart db u products) (k : Key) (r : Record)
    (hr : (db.cart u).get k = some r) :
    ∃ page : ProductDetailViewController, k = stringId page.id ∧ r = page.cartRecord ∧
      page.cartProduct ∈ products := by
  obtain ⟨page, rfl, rfl⟩ := h.written k r hr
  refine ⟨page, rfl, rfl, h.content.mem_iff.mpr ?_⟩
  rw [SortedMap.mem_values_iff]
  exact ⟨stringId page.id, by rw [Database.cartProducts, SortedMap.get_mapVal, hr]; rfl⟩

end SettledCart

/-- The fields that an order line shares with its cart entry. -/
def sharedFields : List String :=
  ["productId", "productName", "productImage", "category", "qty", "subtotal"]

/-- The lines of the new order are those of the kept products. -/
theorem order_entries_perm (u : Uid) (clock : Clock) (o : UUID) (ps : List CartProduct)
    (db : Database) (hfresh : db.order u o.key = ∅) :
    ((applyAll db (ps.flatMap (roundWrites u clock o))).order u o.key).entries.Perm
      ((kept CartProduct.key ps).map fun p =>
        (p.key, PaymentViewController.orderLine clock o p)) := by
  apply entries_perm_kept
  exact get_order_fresh u clock o ps db hfresh

/-- The sum of the `subtotal` fields of a list of lines. -/
def linesTotal (lines : Children) : ℤ := (lines.values.map fun line => line.int "subtotal" 0).sum

/-- What the new order adds up to. -/
theorem linesTotal_continue (u : Uid) (clock : Clock) (o : UUID) (ps : List CartProduct)
    (db : Database) (hfresh : db.order u o.key = ∅) :
    linesTotal ((applyAll db (ps.flatMap (roundWrites u clock o))).order u o.key) =
      ((kept CartProduct.key ps).map (·.subTotal)).sum := by
  have hp := order_entries_perm u clock o ps db hfresh
  have hsum := (hp.map fun e => e.2.int "subtotal" 0).sum_eq
  unfold linesTotal SortedMap.values
  rw [List.map_map] at hsum ⊢
  exact hsum

/-- **Conservation.**  Continue on a settled cart, all writes accepted: the new order holds exactly
one line per cart entry with the entry's fields, the cart is empty, the amounts agree and nothing
else changes. -/
theorem button_conserves (db : Database) (u : Uid) (vc : PaymentViewController) (clock : Clock)
    (o : UUID) (hcart : SettledCart db u vc.products) (hfresh : db.order u o.key = ∅) :
    let ws := (vc.button (some u) clock o).writes
    let db' := settle db ws (List.replicate ws.length true)
    (∀ k, (db'.order u o.key).get k ≠ none ↔ (db.cart u).get k ≠ none) ∧
    (∀ k entry, (db.cart u).get k = some entry → ∃ id line, k = stringId id ∧
      (db'.order u o.key).get k = some line ∧ line.lookup "productId" = some (.int id) ∧
      (∀ field ∈ sharedFields, line.lookup field = entry.lookup field) ∧
      line.lookup "orderId" = some (.str o.str)) ∧
    db'.cart u = ∅ ∧
    linesTotal (db'.order u o.key) = (vc.products.map (·.subTotal)).sum ∧
    ∀ r, (∀ k, r ≠ .order u o.key k) → (∀ k, r ≠ .cart u k) → db'.get r = db.get r := by
  intro ws db'
  have hdb : db' = applyAll db (vc.products.flatMap (roundWrites u clock o)) := settle_all db ws
  rw [hdb]
  have horder : ∀ k, ((applyAll db (vc.products.flatMap (roundWrites u clock o))).order u o.key).get k =
      (lastAt CartProduct.key vc.products k).map (PaymentViewController.orderLine clock o) :=
    get_order_fresh u clock o vc.products db hfresh
  refine ⟨fun k => ?_, fun k entry he => ?_, ?_, ?_, fun r => get_other_continue u clock o _ db r⟩
  · rw [horder, ne_eq, Option.map_eq_none_iff, lastAt_eq_none_iff, not_not,
      hcart.keys_perm.mem_iff, SortedMap.mem_keys_iff, Option.isSome_iff_ne_none]
  · obtain ⟨page, rfl, rfl, hmem⟩ := hcart.mem_of_get k entry he
    have hlast := lastAt_of_nodup CartProduct.key _ hcart.keys_nodup _ hmem
    refine ⟨page.id, PaymentViewController.orderLine clock o page.cartProduct, rfl, ?_, rfl, ?_, rfl⟩
    · rw [horder]
      exact congrArg (Option.map _) hlast
    · intro field hf
      simp only [sharedFields, List.mem_cons, List.not_mem_nil, or_false] at hf
      rcases hf with rfl | rfl | rfl | rfl | rfl | rfl <;> rfl
  · apply SortedMap.ext_get
    intro k
    have h := get_cart_continue u clock o vc.products db k
    rw [SortedMap.get_empty]
    refine Eq.trans h ?_
    by_cases hk : k ∈ vc.products.map CartProduct.key
    · rw [if_pos hk]
    · rw [if_neg hk]
      rw [hcart.keys_perm.mem_iff, SortedMap.mem_keys_iff, Option.not_isSome_iff_eq_none] at hk
      exact hk
  · rw [linesTotal_continue u clock o _ db hfresh]
    have hperm := kept_append_shadowed CartProduct.key vc.products
    rw [shadowed_of_nodup _ _ hcart.keys_nodup, List.append_nil] at hperm
    exact (hperm.map _).sum_eq

/-- A product page, a database with that one cart entry of one user, and an order id. -/
def rosePage : ProductDetailViewController := ⟨"Rose", "rose", "Red", 30, 1, "Flower", 2⟩

def roseCart : Database := Database.empty.setValue (.cart "u" (stringId 1)) (some rosePage.cartRecord)

def someOrder : UUID := ⟨"6BA7B810-9DAD-11D1-80B4-00C04FD430C8", by decide⟩

theorem roseCart_cart (u : Uid) :
    roseCart.cart u = if u = "u" then SortedMap.put ∅ (stringId 1) (some rosePage.cartRecord) else ∅ := by
  simp [roseCart, Database.empty]

theorem roseCart_written (u : Uid) : CartWritten (roseCart.cart u) := by
  rw [roseCart_cart]
  split
  · apply CartWritten.put _ cartWritten_empty
    intro r hr
    cases hr
    exact ⟨rosePage, rfl, rfl⟩
  · exact cartWritten_empty

theorem roseCart_settled : SettledCart roseCart "u" [rosePage.cartProduct] where
  written := roseCart_written "u"
  content := by decide

theorem button_conserves_rose :
    let ws := (PaymentViewController.button ⟨[rosePage.cartProduct]⟩ (some "u") ⟨9, 30, 0⟩ someOrder).writes
    (settle roseCart ws (List.replicate ws.length true)).cart "u" = ∅ :=
  (button_conserves roseCart "u" ⟨[rosePage.cartProduct]⟩ ⟨9, 30, 0⟩ someOrder roseCart_settled
    rfl).2.2.1

/-! ## Rejected writes -/

/-- The server's verdicts on the two writes of each round. -/
def verdicts (outcomes : List (Bool × Bool)) : List Bool := outcomes.flatMap fun a => [a.1, a.2]

section
variable (u : Uid) (clock : Clock) (o : UUID)

theorem settle_cons (p : CartProduct) (ps : List CartProduct) (a : Bool × Bool)
    (outcomes : List (Bool × Bool)) (db : Database) :
    settle db ((p :: ps).flatMap (roundWrites u clock o)) (verdicts (a :: outcomes)) =
      settle (settle db (roundWrites u clock o p) [a.1, a.2]) (ps.flatMap (roundWrites u clock o))
        (verdicts outcomes) := by
  rw [List.flatMap_cons, verdicts, List.flatMap_cons]
  exact settle_append db _ _ _ _ rfl

theorem get_order_round (p : CartProduct) (a : Bool × Bool) (db : Database) (k : Key) :
    (settle db (roundWrites u clock o p) [a.1, a.2]).get (.order u o.key k) =
      if a.1 ∧ k = p.key then some (PaymentViewController.orderLine clock o p)
      else db.get (.order u o.key k) := by
  rcases a with ⟨_ | _, _ | _⟩ <;>
    simp [settle, roundWrites, Write.apply, Database.removeValue, Database.get_setValue]

theorem get_cart_round (p : CartProduct) (a : Bool × Bool) (db : Database) :
    (settle db (roundWrites u clock o p) [a.1, a.2]).get (.cart u p.key) =
      if a.2 then none else db.get (.cart u p.key) := by
  rcases a with ⟨_ | _, _ | _⟩ <;>
    simp [settle, roundWrites, Write.apply, Database.removeValue, Database.get_setValue]

/-- The rounds of the other products leave the two records of `p` alone. -/
theorem ref_ne_of_not_mem (ps : List CartProduct) (p : CartProduct) (r : Ref)
    (hr : r = .order u o.key p.key ∨ r = .cart u p.key) (h : p.key ∉ ps.map CartProduct.key) :
    ∀ w ∈ ps.flatMap (roundWrites u clock o), w.ref ≠ r := by
  intro w hw he
  obtain ⟨q, hq, hw⟩ := mem_rounds u clock o ps w hw
  have hkey : q.key = p.key := by
    rcases hr with rfl | rfl <;> rcases hw with rfl | rfl <;>
      simp only [Write.ref, Ref.order.injEq, Ref.cart.injEq, reduceCtorEq] at he
    · exact he.2.2
    · exact he.2
  exact h (hkey ▸ List.mem_map_of_mem hq)

/-- The products whose order line is accepted. -/
def acceptedLines (ps : List CartProduct) (outcomes : List (Bool × Bool)) : List CartProduct :=
  ((ps.zip outcomes).filter fun e => e.2.1).map Prod.fst

/-- `orders/u/o/k` is the line of the last product with key `k` whose line is accepted. -/
theorem get_order_settle (ps : List CartProduct) (outcomes : List (Bool × Bool)) (db : Database)
    (k : Key) :
    (settle db (ps.flatMap (roundWrites u clock o)) (verdicts outcomes)).get (.order u o.key k) =
      ((lastAt CartProduct.key (acceptedLines ps outcomes) k).map
        (PaymentViewController.orderLine clock o)).or (db.get (.order u o.key k)) := by
  induction ps generalizing outcomes db with
  | nil => cases outcomes <;> rfl
  | cons p ps ih =>
    cases outcomes with
    | nil => rfl
    | cons a outcomes =>
      rw [settle_cons, ih, get_order_round]
      cases ha : a.1 with
      | false => simp [acceptedLines, ha]
      | true =>
        have hcons : acceptedLines (p :: ps) (a :: outcomes) = p :: acceptedLines ps outcomes := by
          simp [acceptedLines, ha]
        rw [hcons, lastAt]
        cases lastAt CartProduct.key (acceptedLines ps outcomes) k with
        | some q => simp
        | none =>
          by_cases hk : k = p.key
          · simp [hk]
          · simp [hk, Ne.symm hk]

/-- With distinct keys, each product's two records are decided by its own two verdicts. -/
theorem get_settle (ps : List CartProduct) (outcomes : List (Bool × Bool)) (db : Database)
    (hnd : (ps.map CartProduct.key).Nodup) (p : CartProduct) (a : Bool × Bool)
    (hmem : (p, a) ∈ ps.zip outcomes) :
    let db' := settle db (ps.flatMap (roundWrites u clock o)) (verdicts outcomes)
    (db'.get (.order u o.key p.key) =
      if a.1 then some (PaymentViewController.orderLine clock o p)
      else db.get (.order u o.key p.key)) ∧
    db'.get (.cart u p.key) = if a.2 then none else db.get (.cart u p.key) := by
  induction ps generalizing outcomes db with
  | nil => cases hmem
  | cons q ps ih =>
    cases outcomes with
    | nil => cases hmem
    | cons b outcomes =>
      rw [List.map_cons, List.nodup_cons] at hnd
      rw [List.zip_cons_cons, List.mem_cons] at hmem
      intro db'
      have hdb : db' = settle (settle db (roundWrites u clock o q) [b.1, b.2])
          (ps.flatMap (roundWrites u clock o)) (verdicts outcomes) := settle_cons u clock o q ps b outcomes db
      rw [hdb]
      rcases hmem with he | hmem
      · -- the head: the later rounds do not touch it
        cases he
        rw [get_settle_of_ne _ _ _ _ (ref_ne_of_not_mem u clock o ps p _ (Or.inl rfl) hnd.1),
          get_settle_of_ne _ _ _ _ (ref_ne_of_not_mem u clock o ps p _ (Or.inr rfl) hnd.1)]
        refine ⟨?_, get_cart_round u clock o p a db⟩
        rw [get_order_round u clock o p a db p.key]
        simp
      · have hp : p ∈ ps := (List.of_mem_zip hmem).1
        have hq : q.key ∉ [p].map CartProduct.key := by
          intro h
          rw [List.map_singleton, List.mem_singleton] at h
          exact hnd.1 (h ▸ List.mem_map_of_mem hp)
        have hne : ∀ r, r = .order u o.key p.key ∨ r = .cart u p.key →
            (settle db (roundWrites u clock o q) [b.1, b.2]).get r = db.get r := by
          intro r hr
          apply get_settle_of_ne
          have h := ref_ne_of_not_mem u clock o [q] p r hr (by
            rw [List.map_singleton, List.mem_singleton] at hq ⊢
            exact Ne.symm hq)
          rwa [List.flatMap_singleton] at h
        have h := ih outcomes (settle db (roundWrites u clock o q) [b.1, b.2]) hnd.2 hmem
        rw [hne _ (Or.inl rfl), hne _ (Or.inr rfl)] at h
        exact h

end

/-- **When Continue is atomic.**  Once all verdicts are known, every product of the settled cart is
in exactly one of the cart and the new order iff its two writes were decided alike. -/
theorem button_atomic_iff (db : Database) (u : Uid) (vc : PaymentViewController) (clock : Clock)
    (o : UUID) (hcart : SettledCart db u vc.products) (hfresh : db.order u o.key = ∅)
    (outcomes : List (Bool × Bool)) (hlen : outcomes.length = vc.products.length) :
    let db' := settle db (vc.button (some u) clock o).writes (verdicts outcomes)
    (∀ p ∈ vc.products,
      ((db'.cart u).get p.key ≠ none ↔ (db'.order u o.key).get p.key = none)) ↔
    ∀ a ∈ outcomes, a.1 = a.2 := by
  intro db'
  have hiff : ∀ p a, (p, a) ∈ vc.products.zip outcomes →
      (((db'.cart u).get p.key ≠ none ↔ (db'.order u o.key).get p.key = none) ↔ a.1 = a.2) := by
    intro p a hmem
    obtain ⟨horder, hcart'⟩ := get_settle u clock o vc.products outcomes db hcart.keys_nodup p a hmem
    obtain ⟨page, -, hget⟩ := hcart.get_of_mem p (List.of_mem_zip hmem).1
    have h1 : (db'.order u o.key).get p.key =
        if a.1 then some (PaymentViewController.orderLine clock o p) else none := by
      refine horder.trans ?_
      rw [Database.get, hfresh, SortedMap.get_empty]
    have h2 : (db'.cart u).get p.key = if a.2 then none else some page.cartRecord := by
      refine hcart'.trans ?_
      rw [Database.get, hget]
    rw [h1, h2]
    rcases a with ⟨_ | _, _ | _⟩ <;> simp
  constructor
  · intro h a ha
    obtain ⟨i, hi, rfl⟩ := List.mem_iff_getElem.mp ha
    have hip : i < vc.products.length := hlen ▸ hi
    have hmem : (vc.products[i], outcomes[i]) ∈ vc.products.zip outcomes :=
      List.mem_iff_getElem.mpr ⟨i, by simp [hi, hip], by simp⟩
    exact (hiff _ _ hmem).mp (h _ (List.getElem_mem hip))
  · intro h p hp
    obtain ⟨i, hip, rfl⟩ := List.mem_iff_getElem.mp hp
    have hi : i < outcomes.length := hlen ▸ hip
    have hmem : (vc.products[i], outcomes[i]) ∈ vc.products.zip outcomes :=
      List.mem_iff_getElem.mpr ⟨i, by simp [hi, hip], by simp⟩
    exact (hiff _ _ hmem).mpr (h _ (List.getElem_mem hi))

theorem button_atomic_iff_rose :
    let db' := settle roseCart
      (PaymentViewController.button ⟨[rosePage.cartProduct]⟩ (some "u") ⟨9, 30, 0⟩ someOrder).writes
      (verdicts [(true, true)])
    ∀ p ∈ [rosePage.cartProduct],
      (db'.cart "u").get p.key ≠ none ↔ (db'.order "u" someOrder.key).get p.key = none :=
  (button_atomic_iff roseCart "u" ⟨[rosePage.cartProduct]⟩ ⟨9, 30, 0⟩ someOrder roseCart_settled rfl
    [(true, true)] rfl).mpr (by decide)

/-- The order line is rejected, the removal accepted: the product is lost from both. -/
theorem button_not_atomic :
    ¬ ∀ (db : Database) (u : Uid) (vc : PaymentViewController) (clock : Clock) (o : UUID)
      (outcomes : List (Bool × Bool)), SettledCart db u vc.products → db.order u o.key = ∅ →
      outcomes.length = vc.products.length →
      let db' := settle db (vc.button (some u) clock o).writes (verdicts outcomes)
      ∀ p ∈ vc.products,
        (db'.cart u).get p.key ≠ none ↔ (db'.order u o.key).get p.key = none := by
  intro h
  have hx := h roseCart "u" ⟨[rosePage.cartProduct]⟩ ⟨9, 30, 0⟩ someOrder [(false, true)]
    roseCart_settled rfl rfl rosePage.cartProduct List.mem_cons_self
  revert hx
  decide

end FlowerGift
