import FlowerGift.Key

/-!
# Stored records and the app's product types

A record of the database is a dictionary of named values (`Record`).  The app
reads a field with a conditional cast and a default (`values?["qty"] as? Int ?? 1`),
so decoding never fails.  The three product types, the records written for them
and the decoders of the listener closures are below, field by field; two round
trips connect them:

    CartProduct.ofSnapshot page.cartRecord = page.cartProduct     (ofSnapshot_cartRecord)
    Product.ofSnapshot p.favouriteRecord = p                      (ofSnapshot_favouriteRecord)

Integers are unbounded: Swift traps on overflow, and a run that traps ends
there.
-/

namespace FlowerGift

/-- A value of a stored dictionary: `int` is a number stored as an integer, which is one of 64 bits, and
`double` any other number.  `other` is a nested dictionary or array. -/
inductive Value
  | str (s : String)
  | int (n : ℤ)
  | double (q : ℚ)
  | bool (b : Bool)
  | other
  deriving DecidableEq

/-- A stored dictionary.  A child that is no dictionary reads like the empty one. -/
abbrev Record := List (String × Value)

/-- `as? String` -/
def asString : Option Value → Option String
  | some (.str s) => some s
  | _ => none

/-- `as? Int`: numbers that are exactly a 64-bit integer; an `int` is one already. -/
def asInt : Option Value → Option ℤ
  | some (.int n) => some n
  | some (.double q) =>
    if q.den = 1 ∧ -9223372036854775808 ≤ q.num ∧ q.num < 9223372036854775808 then some q.num else none
  | some (.bool b) => some (if b then 1 else 0)
  | _ => none

/-- `values?[field] as? String ?? default` -/
def Record.string (values : Record) (field : String) (default : String) : String :=
  (asString (values.lookup field)).getD default

/-- `values?[field] as? Int ?? default` -/
def Record.int (values : Record) (field : String) (default : ℤ) : ℤ :=
  (asInt (values.lookup field)).getD default

/-! ## Product types -/

structure Product where
  name : String
  id : ℤ
  img : String
  category : String
  desc : String
  price : ℤ
  deriving DecidableEq

/-- `Product.==` compares ids only. -/
def Product.eq (lhs rhs : Product) : Bool := lhs.id == rhs.id

structure CartProduct where
  name : String
  id : ℤ
  img : String
  category : String
  desc : String
  price : ℤ
  qty : ℤ
  subTotal : ℤ
  deriving DecidableEq

structure OrderProduct where
  name : String
  id : ℤ
  orderId : String
  img : String
  category : String
  qty : ℤ
  subTotal : ℤ
  orderDate : String
  orderTime : String
  deriving DecidableEq

/-- The product page: the product's fields as handed over by the previous screen, and the stepper. -/
structure ProductDetailViewController where
  name : String
  img : String
  dec : String
  price : ℤ
  id : ℤ
  category : String
  count : ℤ := 1
  deriving DecidableEq

/-! ## The decoders of the listener closures -/

/-- `fetchCartProducts` -/
def CartProduct.ofSnapshot (values : Record) : CartProduct where
  name := values.string "productName" ""
  id := values.int "productId" 0
  img := values.string "productImage" ""
  category := values.string "category" ""
  desc := values.string "description" ""
  price := values.int "price" 0
  qty := values.int "qty" 1
  subTotal := values.int "subtotal" 1

/-- `getCurrentUser` and `fetchFavProducts` -/
def Product.ofSnapshot (values : Record) : Product where
  name := values.string "productName" ""
  id := values.int "productId" 0
  img := values.string "productImage" ""
  category := values.string "category" ""
  desc := values.string "description" ""
  price := values.int "price" 0

/-! ## The records the app writes -/

/-- The value of `CartButton`'s `setValue`. -/
def ProductDetailViewController.cartRecord (page : ProductDetailViewController) : Record :=
  [("productId", .int page.id), ("productName", .str page.name), ("productImage", .str page.img),
    ("description", .str page.dec), ("price", .int page.price), ("category", .str page.category),
    ("qty", .int page.count), ("subtotal", .int (page.count * page.price))]

/-- The value of the product page's favourite `setValue`. -/
def ProductDetailViewController.favouriteRecord (page : ProductDetailViewController) : Record :=
  [("productId", .int page.id), ("productName", .str page.name), ("productImage", .str page.img),
    ("description", .str page.dec), ("price", .int page.price), ("category", .str page.category)]

/-- The value of `favoriteSelected`'s `setValue`. -/
def Product.favouriteRecord (product : Product) : Record :=
  [("productId", .int product.id), ("productName", .str product.name),
    ("productImage", .str product.img), ("description", .str product.desc),
    ("price", .int product.price), ("category", .str product.category)]

/-- The value of the order line's `setValue`; `orderdOn` is what the server's clock gave. -/
def CartProduct.orderRecord (product : CartProduct) (orderdOn : ℤ) (orderTime uid : String) : Record :=
  [("productId", .int product.id), ("productName", .str product.name),
    ("productImage", .str product.img), ("category", .str product.category),
    ("qty", .int product.qty), ("subtotal", .int product.subTotal), ("orderdOn", .int orderdOn),
    ("orderTime", .str orderTime), ("orderId", .str uid)]

/-! ## Round trips -/

/-- The cart entry that the page's `CartButton` stands for. -/
def ProductDetailViewController.cartProduct (page : ProductDetailViewController) : CartProduct :=
  ⟨page.name, page.id, page.img, page.category, page.dec, page.price, page.count,
    page.count * page.price⟩

@[simp] theorem ofSnapshot_cartRecord (page : ProductDetailViewController) :
    CartProduct.ofSnapshot page.cartRecord = page.cartProduct := rfl

@[simp] theorem ofSnapshot_favouriteRecord (p : Product) :
    Product.ofSnapshot p.favouriteRecord = p := rfl

theorem Product.eq_iff (p q : Product) : Product.eq p q = true ↔ p.id = q.id := by
  simp [Product.eq]

end FlowerGift
