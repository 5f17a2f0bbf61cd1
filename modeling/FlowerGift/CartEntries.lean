import FlowerGift.CartScreen

/-!
# What a sequence of adds and removals leaves in the cart

Each `CartButton` press writes the page's product, with the quantity that the
stepper shows, under the key of its id; each `removeItem` takes the key away.
So the cart is the map of the last operations, and the cart screen's decoder
gives each added product back as it was added last (`cart_last_writer`).  The
stepper keeps the quantity between 1 and 20 (`count_stepped`).
-/

namespace FlowerGift

open Realtime

/-! ## The stepper -/

inductive Stepper
  | minus
  | plus

def Stepper.press (page : ProductDetailViewController) : Stepper → ProductDetailViewController
  | .minus => page.minusButton
  | .plus => page.plusButton

/-- The page of a product after these presses. -/
def Product.stepped (product : Product) (presses : List Stepper) : ProductDetailViewController :=
  presses.foldl Stepper.press (ProductDetailViewController.opened product)

/-- A press changes the quantity only. -/
theorem Stepper.press_eq (page : ProductDetailViewController) (b : Stepper) :
    b.press page = { page with count := (b.press page).count } := by
  cases b with
  | minus =>
    show page.minusButton = { page with count := page.minusButton.count }
    unfold ProductDetailViewController.minusButton
    split <;> rfl
  | plus =>
    show page.plusButton = { page with count := page.plusButton.count }
    unfold ProductDetailViewController.plusButton
    split <;> rfl

theorem Stepper.count_press (page : ProductDetailViewController) (b : Stepper) (h1 : 1 ≤ page.count)
    (h20 : page.count ≤ 20) : 1 ≤ (b.press page).count ∧ (b.press page).count ≤ 20 := by
  cases b with
  | minus =>
    show 1 ≤ page.minusButton.count ∧ page.minusButton.count ≤ 20
    unfold ProductDetailViewController.minusButton
    split
    · simp
    · show 1 ≤ page.count - 1 ∧ page.count - 1 ≤ 20
      omega
  | plus =>
    show 1 ≤ page.plusButton.count ∧ page.plusButton.count ≤ 20
    unfold ProductDetailViewController.plusButton
    split
    · simp
    · show 1 ≤ page.count + 1 ∧ page.count + 1 ≤ 20
      omega

theorem Product.stepped_snoc (product : Product) (presses : List Stepper) (b : Stepper) :
    product.stepped (presses ++ [b]) = b.press (product.stepped presses) := by
  unfold stepped
  rw [List.foldl_append]
  rfl

theorem Product.stepped_eq (product : Product) (presses : List Stepper) :
    product.stepped presses =
      { ProductDetailViewController.opened product with count := (product.stepped presses).count } := by
  induction presses using List.reverseRecOn with
  | nil => rfl
  | append_singleton presses b ih => rw [stepped_snoc, Stepper.press_eq, ih]

/-- The quantity stays between 1 and 20. -/
theorem Product.count_stepped (product : Product) (presses : List Stepper) :
    1 ≤ (product.stepped presses).count ∧ (product.stepped presses).count ≤ 20 := by
  induction presses using List.reverseRecOn with
  | nil =>
    show (1 : ℤ) ≤ 1 ∧ (1 : ℤ) ≤ 20
    omega
  | append_singleton presses b ih =>
    rw [stepped_snoc]
    exact b.count_press _ ih.1 ih.2

/-! ## Adds and removals -/

inductive CartOperation
  | add (product : Product) (presses : List Stepper)
  | remove (product : CartProduct)

namespace CartOperation

def id : CartOperation → ℤ
  | .add product _ => product.id
  | .remove product => product.id

/-- The writes of an operation by `u`. -/
def writes (u : Uid) : CartOperation → List Write
  | .add product presses => ((product.stepped presses).cartButton (some u)).writes
  | .remove product => CartViewController.removeItem (some u) product

/-- What the operation leaves at its key. -/
def record : CartOperation → Option Record
  | .add product presses => some (product.stepped presses).cartRecord
  | .remove _ => none

/-- The entry that an add is meant to make. -/
def entry : CartOperation → Option CartProduct
  | .add product presses =>
    let qty := (product.stepped presses).count
    some ⟨product.name, product.id, product.img, product.category, product.desc, product.price, qty,
      qty * product.price⟩
  | .remove _ => none

theorem ofSnapshot_record (op : CartOperation) : op.record.map CartProduct.ofSnapshot = op.entry := by
  cases op with
  | add product presses =>
    show some (product.stepped presses).cartProduct = _
    rw [Product.stepped_eq]
    rfl
  | remove product => rfl

theorem id_stepped (product : Product) (presses : List Stepper) :
    (product.stepped presses).id = product.id := by
  rw [Product.stepped_eq]
  rfl

theorem apply_writes (u : Uid) (op : CartOperation) (db : Database) :
    applyAll db (op.writes u) = db.setValue (.cart u (stringId op.id)) op.record := by
  cases op with
  | add product presses =>
    show db.setValue (.cart u (stringId (product.stepped presses).id)) _ = _
    rw [id_stepped]
    rfl
  | remove product => rfl

/-- At every id the last operation decides. -/
theorem get_operations (u : Uid) (ops : List CartOperation) (db : Database) (i : ℤ) :
    ((applyAll db (ops.flatMap (writes u))).cart u).get (stringId i) =
      match lastAt id ops i with
      | some op => op.record
      | none => (db.cart u).get (stringId i) := by
  induction ops generalizing db with
  | nil => rfl
  | cons op ops ih =>
    rw [List.flatMap_cons, applyAll_append, ih, apply_writes, lastAt]
    cases lastAt id ops i with
    | some op' => rfl
    | none =>
      rw [Database.cart_setValue_cart, if_pos rfl, SortedMap.get_put, Option.none_or]
      by_cases hi : op.id = i
      · rw [if_pos (by rw [hi]), if_pos hi]
      · rw [if_neg fun hk => hi ((stringId_inj i op.id).mp hk).symm, if_neg hi]

end CartOperation

/-- **The cart is a last-writer map that round-trips.** -/
theorem cart_last_writer (u : Uid) (db : Database) (hempty : db.cart u = ∅)
    (ops : List CartOperation) :
    let cart := ((applyAll db (ops.flatMap (CartOperation.writes u))).cart u).values.map
      CartProduct.ofSnapshot
    (∀ i, (cart.filter fun p => p.id = i) =
      ((lastAt CartOperation.id ops i).bind CartOperation.entry).toList) ∧
    ∀ p ∈ cart, 1 ≤ p.qty ∧ p.qty ≤ 20 ∧ p.subTotal = p.qty * p.price := by
  intro cart
  have hwritten : CartWritten ((applyAll db (ops.flatMap (CartOperation.writes u))).cart u) := by
    refine Shop.written_applyAll u _ db (hempty ▸ cartWritten_empty) fun w hw hset => ?_
    obtain ⟨op, -, hw⟩ := List.mem_flatMap.mp hw
    cases op with
    | add product presses =>
      rw [List.mem_singleton.mp hw]
      exact ⟨u, _, rfl⟩
    | remove product =>
      rw [List.mem_singleton.mp hw] at hset
      exact hset.elim
  have hcart : cart = ((applyAll db (ops.flatMap (CartOperation.writes u))).cartProducts u).values :=
    (SortedMap.values_mapVal _ _).symm
  have hfilter : ∀ i, (cart.filter fun p => p.id = i) =
      ((lastAt CartOperation.id ops i).bind CartOperation.entry).toList := by
    intro i
    have hkey : (cart.filter fun p => p.id = i) = cart.filter fun p => p.key = stringId i := by
      apply List.filter_congr
      intro p _
      rw [decide_eq_decide]
      exact (stringId_inj p.id i).symm
    rw [hkey, hcart, (hwritten.keyed _ u).filter_values, Database.cartProducts, SortedMap.get_mapVal,
      CartOperation.get_operations, hempty]
    cases lastAt CartOperation.id ops i with
    | none => rfl
    | some op => rw [Option.bind_some, ← op.ofSnapshot_record]
  refine ⟨hfilter, fun p hp => ?_⟩
  -- `p` is the entry that the last operation on its id has made
  have hmem : p ∈ cart.filter fun q => q.id = p.id := List.mem_filter.mpr ⟨hp, by simp⟩
  rw [hfilter, Option.mem_toList, Option.bind_eq_some_iff] at hmem
  obtain ⟨op, -, hentry⟩ := hmem
  cases op with
  | add product presses =>
    cases hentry
    obtain ⟨h1, h20⟩ := product.count_stepped presses
    exact ⟨h1, h20, rfl⟩
  | remove product => cases hentry

/-- A Rose added, added again with quantity 2, and a Lily added and removed. -/
theorem cart_last_writer_rose :
    let rose : Product := ⟨"Rose", 1, "rose", "Flower", "Red", 30⟩
    let lily : Product := ⟨"Lily", 2, "lily", "Flower", "White", 20⟩
    let ops : List CartOperation := [.add rose [], .add lily [.plus], .add rose [.plus, .plus, .minus],
      .remove ⟨"Lily", 2, "lily", "Flower", "White", 20, 2, 40⟩]
    let cart := ((applyAll Database.empty (ops.flatMap (CartOperation.writes "u"))).cart "u").values.map
      CartProduct.ofSnapshot
    (cart.filter fun p => p.id = 1) = [⟨"Rose", 1, "rose", "Flower", "Red", 30, 2, 60⟩] :=
  (cart_last_writer "u" Database.empty rfl _).1 1

end FlowerGift
