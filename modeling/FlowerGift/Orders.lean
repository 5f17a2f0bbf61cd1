import FlowerGift.Payment

/-!
# The orders screen

`fetchOrderProducts` observes the value of `orders/u`, but its callback only
prints: it walks over all lines, asks each of them for `productName` through key
value coding and keeps nothing.  The one product that the screen lists is a
constant, appended when the screen loads.

    (vc.load user kvc snapshots).products = [placeholder]                    (products_load)
    every line under orders/u was written by Continue                        (lines_run)

Since an order id is a UUID and the constant's is not, the list is never the
stored lines (`orders_never_read_back`).
-/

namespace FlowerGift

open Realtime

structure OrdersViewController where
  total : ℤ := 0
  products : List OrderProduct := []
  rows : List OrderProduct := []
  deriving DecidableEq

namespace OrdersViewController

/-- The product that `fetchOrderProducts` makes up. -/
def newProduct : OrderProduct := ⟨"name", 0, "hjgb", "img", "type", 9, 90, "gfg", "ghgh"⟩

/-- `ss.value(forKey:)`, key value coding on a snapshot object: `none` where it raises.  A `FIRDataSnapshot`
has no `productName`, so the real one raises, and the closure runs through only without stored lines. -/
abbrev KeyValueCoding := Record → String → Option (Option Value)

/-- The closure that `fetchOrderProducts` registers, for one value of `orders/u`. -/
def valueChanged (vc : OrdersViewController) (kvc : KeyValueCoding)
    (snapshot : SortedMap Key Children) : Option OrdersViewController := do
  for childSnapshot in snapshot.values do
    for ss in childSnapshot.values do
      let _name ← kvc ss "productName"
  return vc

def fetchOrderProducts (vc : OrdersViewController) (user : Option Uid) : OrdersViewController :=
  match user with
  | some _ =>
    { total := 0, products := vc.products ++ [newProduct], rows := vc.products ++ [newProduct] }
  | none => { vc with total := 0 }

def viewDidLoad (vc : OrdersViewController) (user : Option Uid) : OrdersViewController :=
  { vc with products := [] }.fetchOrderProducts user

/-- The screen loads, and its callback runs for each value of `orders/u` in turn. -/
def load (vc : OrdersViewController) (user : Option Uid) (kvc : KeyValueCoding)
    (snapshots : List (SortedMap Key Children)) : Option OrdersViewController :=
  snapshots.foldlM (fun vc snapshot => vc.valueChanged kvc snapshot) (vc.viewDidLoad user)

theorem valueChanged_eq (vc vc' : OrdersViewController) (kvc : KeyValueCoding)
    (snapshot : SortedMap Key Children) (h : vc.valueChanged kvc snapshot = some vc') : vc' = vc := by
  unfold valueChanged at h
  obtain ⟨_, _, h⟩ := Option.bind_eq_some_iff.mp h
  cases h
  rfl

/-- Whatever values arrive, the list is the one constant. -/
theorem products_load (vc vc' : OrdersViewController) (u : Uid) (kvc : KeyValueCoding)
    (snapshots : List (SortedMap Key Children)) (h : vc.load (some u) kvc snapshots = some vc') :
    vc'.products = [newProduct] := by
  have hkeep : ∀ (snapshots : List (SortedMap Key Children)) (vc₀ : OrdersViewController),
      snapshots.foldlM (fun vc snapshot => vc.valueChanged kvc snapshot) vc₀ = some vc' → vc' = vc₀ := by
    intro snapshots
    induction snapshots with
    | nil =>
      intro vc₀ h
      cases h
      rfl
    | cons snapshot snapshots ih =>
      intro vc₀ h
      rw [List.foldlM_cons] at h
      obtain ⟨vc₁, h₁, h⟩ := Option.bind_eq_some_iff.mp h
      rw [ih vc₁ h, valueChanged_eq vc₀ vc₁ kvc snapshot h₁]
  rw [hkeep snapshots _ h]
  rfl

end OrdersViewController

/-! ## The stored lines -/

/-- A press of Continue with all writes accepted. -/
structure Checkout where
  products : List CartProduct
  clock : Clock
  uid : UUID

/-- The database after the checkouts of `u`. -/
def checkouts (u : Uid) (db : Database) (cs : List Checkout) : Database :=
  cs.foldl (fun db c =>
    applyAll db (PaymentViewController.button ⟨c.products⟩ (some u) c.clock c.uid).writes) db

/-- All lines under `orders/u`. -/
def Database.lines (db : Database) (u : Uid) : List Record :=
  (db.orders u).values.flatMap fun order => order.values

theorem mem_lines_iff (db : Database) (u : Uid) (line : Record) :
    line ∈ db.lines u ↔ ∃ o k, (db.order u o).get k = some line := by
  simp only [Database.lines, List.mem_flatMap, SortedMap.mem_values_iff, Database.order]
  constructor
  · rintro ⟨order, ⟨o, ho⟩, k, hk⟩
    refine ⟨o, k, ?_⟩
    rw [ho]
    exact hk
  · rintro ⟨o, k, hk⟩
    cases ho : (db.orders u).get o with
    | none => rw [ho] at hk; cases hk
    | some order =>
      rw [ho] at hk
      exact ⟨order, ⟨o, ho⟩, k, hk⟩

/-- Every line under `orders/u` is one that Continue writes. -/
def LinesWritten (db : Database) (u : Uid) : Prop :=
  ∀ o k line, (db.order u o).get k = some line →
    ∃ clock uid p, line = PaymentViewController.orderLine clock uid p

theorem lines_step (u : Uid) (db : Database) (c : Checkout) (h : LinesWritten db u) :
    LinesWritten (applyAll db (PaymentViewController.button ⟨c.products⟩ (some u) c.clock c.uid).writes)
      u := by
  intro o k line hl
  rw [button_writes] at hl
  by_cases ho : o = c.uid.key
  · subst ho
    have hget := get_order_continue u c.clock c.uid c.products db k
    rw [show (applyAll db _).get (.order u c.uid.key k) = some line from hl] at hget
    cases hp : lastAt CartProduct.key c.products k with
    | some p =>
      rw [hp, Option.map_some, Option.some_or] at hget
      exact ⟨c.clock, c.uid, p, Option.some.inj hget⟩
    | none =>
      rw [hp, Option.map_none, Option.none_or] at hget
      exact h _ k line hget.symm
  · have hget := get_other_continue u c.clock c.uid c.products db (.order u o k)
      (fun k' he => ho (by cases he; rfl)) nofun
    exact h o k line (hget.symm.trans hl)

theorem lines_run (u : Uid) (db : Database) (cs : List Checkout) (h : LinesWritten db u) :
    LinesWritten (checkouts u db cs) u := by
  induction cs generalizing db with
  | nil => exact h
  | cons c cs ih => exact ih _ (lines_step u db c h)

/-! ## Reading back -/

/-- The fields that a line and its product on the screen share. -/
def lineFields (line : Record) : String × ℤ × String × String × String × ℤ × ℤ :=
  (line.string "productName" "", line.int "productId" 0, line.string "orderId" "",
    line.string "productImage" "", line.string "category" "", line.int "qty" 1,
    line.int "subtotal" 1)

def OrderProduct.fields (p : OrderProduct) : String × ℤ × String × String × String × ℤ × ℤ :=
  (p.name, p.id, p.orderId, p.img, p.category, p.qty, p.subTotal)

/-- The screen lists exactly one product per stored line, with the line's fields. -/
def ReadsBack (vc : OrdersViewController) (db : Database) (u : Uid) : Prop :=
  (vc.products.map OrderProduct.fields).Perm ((db.lines u).map lineFields)

/-- **The orders screen never reads back.**  For every sequence of checkouts of a user without
earlier orders and every behaviour of key value coding under which the callbacks run through, what
the screen lists is not what is stored. -/
theorem orders_never_read_back (u : Uid) (db : Database) (horders : db.orders u = ∅)
    (cs : List Checkout) (kvc : OrdersViewController.KeyValueCoding)
    (snapshots : List (SortedMap Key Children)) (vc₀ vc : OrdersViewController)
    (hload : vc₀.load (some u) kvc snapshots = some vc) :
    ¬ ReadsBack vc (checkouts u db cs) u := by
  intro h
  unfold ReadsBack at h
  rw [OrdersViewController.products_load vc₀ vc u kvc snapshots hload] at h
  have hstart : LinesWritten db u := by
    intro o k line hl
    rw [Database.order, horders] at hl
    cases hl
  -- the constant would have to be a stored line, whose order id is a UUID
  have hmem := h.mem_iff.mp List.mem_cons_self
  obtain ⟨line, hline, hfields⟩ := List.mem_map.mp hmem
  obtain ⟨o, k, hl⟩ := (mem_lines_iff _ u line).mp hline
  obtain ⟨clock, uid, p, rfl⟩ := lines_run u db cs hstart o k line hl
  have hid : uid.str = "hjgb" := congrArg (fun f => f.2.2.1) hfields
  have hlen := uid.length_eq
  rw [hid] at hlen
  revert hlen
  decide

/-- Key value coding raises, but with no order it is never asked. -/
theorem orders_never_read_back_empty :
    ¬ ReadsBack ⟨0, [OrdersViewController.newProduct], [OrdersViewController.newProduct]⟩
      (checkouts "u" Database.empty []) "u" :=
  orders_never_read_back "u" Database.empty rfl [] (fun _ _ => none) [∅] {} _ rfl

/-- A user without orders is shown a product that nobody ordered. -/
theorem orders_show_constant :
    ¬ ∀ (u : Uid) (db : Database) (cs : List Checkout) (kvc : OrdersViewController.KeyValueCoding)
      (vc : OrdersViewController), db.orders u = ∅ → (cs.map (·.uid.str)).Nodup →
      OrdersViewController.load {} (some u) kvc [(checkouts u db cs).orders u] = some vc →
      ReadsBack vc (checkouts u db cs) u := by
  intro h
  have hx := h "u" Database.empty [] (fun _ _ => none)
    ⟨0, [OrdersViewController.newProduct], [OrdersViewController.newProduct]⟩ rfl List.nodup_nil rfl
  have hlen := hx.length_eq
  revert hlen
  decide

end FlowerGift
