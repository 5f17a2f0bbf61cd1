import FlowerGift.Database

/-!
# The checkout screens

The product page's `CartButton`, the cart, shipping and payment controllers, and the steps of each that do not
touch the database client: what a timer tick and a listener callback do to the
cart screen, what `prepare` hands to the next screen, and the writes that a
press of Continue issues (`PaymentViewController.button`).

`products` and `total` of the cart screen change together
(`totalled_tick`, `totalled_childAdded`): the total is the sum of the listed subtotals.
-/

namespace FlowerGift

open Realtime

/-! ## What a button reads and does -/

/-- A time-based UUID as `uuid_unparse` prints it. -/
structure UUID where
  str : String
  length_eq : str.length = 36

/-- The order id as a key under `orders/u`. -/
def UUID.key (uid : UUID) : Key := ⟨uid.str⟩

/-- What a button reads of the clock: hour and minute here, and the server's timestamp. -/
structure Clock where
  hour : ℕ
  minutes : ℕ
  timestamp : ℤ

/-- What a press of a button does: the writes it issues, in order, and the message it shows. -/
structure Response where
  writes : List Write
  message : String

/-! ## Product page -/

namespace ProductDetailViewController

/-- The page of a product; `viewDidLoad` sets `count = 1`. -/
def opened (product : Product) : ProductDetailViewController where
  name := product.name
  img := product.img
  dec := product.desc
  price := product.price
  id := product.id
  category := product.category

def minusButton (page : ProductDetailViewController) : ProductDetailViewController :=
  if page.count ≤ 1 then { page with count := 1 } else { page with count := page.count - 1 }

def plusButton (page : ProductDetailViewController) : ProductDetailViewController :=
  if 20 ≤ page.count then { page with count := 20 } else { page with count := page.count + 1 }

end ProductDetailViewController

/-- `CartButton`; the toast comes up whether or not somebody is signed in. -/
def ProductDetailViewController.cartButton (page : ProductDetailViewController) (user : Option Uid) :
    Response where
  writes :=
    match user with
    | some userID => [.setValue (.cart userID (stringId page.id)) page.cartRecord]
    | none => []
  message := "added to add to cart"

/-! ## Payment -/

structure PaymentViewController where
  products : List CartProduct := []

namespace PaymentViewController

/-- The removal of one cart entry, by key. -/
def removeItem (user : Option Uid) (product : CartProduct) : List Write :=
  match user with
  | some userID => [.removeValue (.cart userID (stringId product.id))]
  | none => []

/-- The order line of one product. -/
def orderLine (clock : Clock) (uid : UUID) (product : CartProduct) : Record :=
  product.orderRecord clock.timestamp (toString clock.hour ++ ":" ++ toString clock.minutes) uid.str

/-- `Button`: an order line and a cart removal for each product; the alert comes up regardless. -/
def button (vc : PaymentViewController) (user : Option Uid) (clock : Clock) (uid : UUID) : Response where
  writes :=
    match user with
    | some userID => vc.products.flatMap fun product =>
        .setValue (.order userID uid.key (stringId product.id)) (orderLine clock uid product) ::
          removeItem user product
    | none => []
  message := "Order placed successfully"

end PaymentViewController

/-! ## Shipping -/

/-- `Double` is taken exactly: `Double(total)` is the integer itself, as it is up to `2 ^ 53`. -/
structure ShippingViewController where
  subtotal : ℚ := 0
  tax : ℚ := 0
  cost : ℚ := 10
  totalPrice : ℚ := 0
  products : List CartProduct := []

namespace ShippingViewController

def viewDidLoad (vc : ShippingViewController) : ShippingViewController :=
  { vc with
    tax := vc.subtotal * (15 / 100)
    totalPrice := vc.subtotal * (15 / 100) + vc.cost + vc.subtotal }

/-- `prepare` for the segue `goToPayment`. -/
def prepare (vc : ShippingViewController) : PaymentViewController where
  products := vc.products

end ShippingViewController

/-! ## Cart -/

/-- The cart screen; `rows` is what the collection view shows, `products` as of the last
`reloadData`, and the label starts with the storyboard's text. -/
structure CartViewController where
  products : List CartProduct := []
  total : ℤ := 0
  rows : List CartProduct := []
  subTotalLabel : String := "$255"
  deriving DecidableEq

namespace CartViewController

/-- The timer's closure up to the registration of the listener: the list is emptied, and
`fetchCartProducts` starts with `total = 0`. -/
def tick (vc : CartViewController) : CartViewController := { vc with products := [], total := 0 }

/-- The closure that `fetchCartProducts` registers. -/
def childAdded (vc : CartViewController) (values : Record) : CartViewController :=
  let newProduct := CartProduct.ofSnapshot values
  { products := vc.products ++ [newProduct]
    total := vc.total + newProduct.subTotal
    rows := vc.products ++ [newProduct]
    subTotalLabel := "$" ++ toString (vc.total + newProduct.subTotal) }

/-- The same body as on the payment screen. -/
def removeItem (user : Option Uid) (product : CartProduct) : List Write :=
  PaymentViewController.removeItem user product

/-- `prepare` for the segue `goToShipping`. -/
def prepare (vc : CartViewController) : ShippingViewController :=
  { products := vc.products, subtotal := (vc.total : ℚ) }

@[simp] theorem products_tick (vc : CartViewController) : vc.tick.products = [] := rfl

@[simp] theorem products_childAdded (vc : CartViewController) (values : Record) :
    (vc.childAdded values).products = vc.products ++ [CartProduct.ofSnapshot values] := rfl

/-- The total is the sum of the listed subtotals. -/
def Totalled (vc : CartViewController) : Prop := vc.total = (vc.products.map (·.subTotal)).sum

theorem totalled_tick (vc : CartViewController) : vc.tick.Totalled := rfl

theorem totalled_childAdded (vc : CartViewController) (values : Record) (h : vc.Totalled) :
    (vc.childAdded values).Totalled := by
  unfold Totalled at h ⊢
  rw [products_childAdded, List.map_append, List.sum_append, ← h]
  simp [childAdded]

end CartViewController

end FlowerGift
