import FlowerGift.Records
import FlowerGift.Lib.SortedMap

/-!
# The realtime database

The nodes the app uses, each a map of records (the orders of a user: a map of
maps), and the references to single records.  `setValue` acts on the local
copy, `removeValue` is `setValue` of nothing; a record that is not referenced is
left alone:

    (db.setValue r v).get r' = if r' = r then v else db.get r'        (get_setValue)

A button press issues a list of writes.  The local copy applies them at once;
the server then accepts or rejects each of them, and a rejected write is rolled
back, the others stand (`settle`).
-/

namespace FlowerGift

open Realtime

abbrev Uid := String

/-- The children of a node: records in key order. -/
abbrev Children := SortedMap Key Record

structure Database where
  products : Children
  cart : Uid → Children
  favourite : Uid → Children
  orders : Uid → SortedMap Key Children
  users : Uid → Option Record

/-- The path of one record. -/
inductive Ref
  | product (k : Key)
  | cart (u : Uid) (k : Key)
  | favourite (u : Uid) (k : Key)
  | order (u : Uid) (o k : Key)
  | user (u : Uid)
  deriving DecidableEq

namespace Database

def empty : Database := ⟨∅, fun _ => ∅, fun _ => ∅, fun _ => ∅, fun _ => none⟩

/-- The lines of `orders/u/o`. -/
def order (db : Database) (u : Uid) (o : Key) : Children := ((db.orders u).get o).getD ∅

def get (db : Database) : Ref → Option Record
  | .product k => db.products.get k
  | .cart u k => (db.cart u).get k
  | .favourite u k => (db.favourite u).get k
  | .order u o k => (db.order u o).get k
  | .user u => db.users u

/-- `setValue`: the record becomes `v`; `none` is the client's `setValue:nil`. -/
def setValue (db : Database) (r : Ref) (v : Option Record) : Database :=
  match r with
  | .product k => { db with products := db.products.put k v }
  | .cart u k => { db with cart := Function.update db.cart u ((db.cart u).put k v) }
  | .favourite u k => { db with favourite := Function.update db.favourite u ((db.favourite u).put k v) }
  | .order u o k =>
    -- the app never removes a line, so no order is left without lines
    { db with
      orders := Function.update db.orders u ((db.orders u).insert o ((db.order u o).put k v)) }
  | .user u => { db with users := Function.update db.users u v }

def removeValue (db : Database) (r : Ref) : Database := db.setValue r none

theorem order_setValue (db : Database) (r : Ref) (v : Option Record) (u : Uid) (o : Key) :
    (db.setValue r v).order u o =
      match r with
      | .order u' o' k => if u = u' ∧ o = o' then (db.order u o).put k v else db.order u o
      | _ => db.order u o := by
  cases r with
  | order u' o' k =>
    simp only [setValue, order]
    by_cases hu : u = u'
    · subst hu
      simp only [Function.update_self, SortedMap.get_insert, true_and]
      by_cases ho : o = o'
      · subst ho
        simp
      · simp [ho]
    · rw [Function.update_of_ne hu, if_neg fun h => hu h.1]
  | _ => rfl

@[simp] theorem cart_setValue_cart (db : Database) (u u' : Uid) (k : Key) (v : Option Record) :
    (db.setValue (.cart u k) v).cart u' = if u' = u then (db.cart u).put k v else db.cart u' := by
  simp only [setValue, Function.update_apply]

@[simp] theorem favourite_setValue_favourite (db : Database) (u u' : Uid) (k : Key)
    (v : Option Record) : (db.setValue (.favourite u k) v).favourite u' =
      if u' = u then (db.favourite u).put k v else db.favourite u' := by
  simp only [setValue, Function.update_apply]

theorem get_setValue (db : Database) (r r' : Ref) (v : Option Record) :
    (db.setValue r v).get r' = if r' = r then v else db.get r' := by
  cases r' with
  | product k' =>
    cases r with
    | product k => simpa [setValue, get] using db.products.get_put k k' v
    | _ => rfl
  | cart u' k' =>
    cases r with
    | cart u k =>
      simp only [get, cart_setValue_cart, Ref.cart.injEq]
      split
      · next hu => simp [hu, SortedMap.get_put]
      · next hu => simp [hu]
    | _ => rfl
  | favourite u' k' =>
    cases r with
    | favourite u k =>
      simp only [get, favourite_setValue_favourite, Ref.favourite.injEq]
      split
      · next hu => simp [hu, SortedMap.get_put]
      · next hu => simp [hu]
    | _ => rfl
  | order u' o' k' =>
    simp only [get, order_setValue]
    cases r with
    | order u o k =>
      simp only [Ref.order.injEq]
      by_cases ho : u' = u ∧ o' = o
      · obtain ⟨rfl, rfl⟩ := ho
        simp [SortedMap.get_put]
      · rw [if_neg ho, if_neg fun h => ho ⟨h.1, h.2.1⟩]
    | _ => simp
  | user u' =>
    cases r with
    | user u => simp [setValue, get, Function.update_apply]
    | _ => rfl

end Database

/-! ## Writes and their outcome -/

inductive Write
  | setValue (r : Ref) (value : Record)
  | removeValue (r : Ref)

def Write.ref : Write → Ref
  | .setValue r _ => r
  | .removeValue r => r

def Write.apply (db : Database) : Write → Database
  | .setValue r value => db.setValue r (some value)
  | .removeValue r => db.removeValue r

/-- All writes, in the order they were issued. -/
def applyAll (db : Database) (ws : List Write) : Database := ws.foldl Write.apply db

/-- The local copy once the server's verdict on every write is known. -/
def settle (db : Database) (ws : List Write) (accepted : List Bool) : Database :=
  applyAll db (((ws.zip accepted).filter Prod.snd).map Prod.fst)

@[simp] theorem applyAll_nil (db : Database) : applyAll db [] = db := rfl

@[simp] theorem applyAll_cons (db : Database) (w : Write) (ws : List Write) :
    applyAll db (w :: ws) = applyAll (w.apply db) ws := rfl

theorem applyAll_append (db : Database) (ws₁ ws₂ : List Write) :
    applyAll db (ws₁ ++ ws₂) = applyAll (applyAll db ws₁) ws₂ := List.foldl_append

/-- A record that no write refers to is left alone. -/
theorem get_applyAll_of_ne (ws : List Write) (db : Database) (r : Ref) (h : ∀ w ∈ ws, w.ref ≠ r) :
    (applyAll db ws).get r = db.get r := by
  induction ws generalizing db with
  | nil => rfl
  | cons w ws ih =>
    rw [applyAll_cons, ih _ fun w' hw' => h w' (List.mem_cons_of_mem _ hw')]
    have hne : r ≠ w.ref := (h w List.mem_cons_self).symm
    cases w with
    | setValue r' value => exact (db.get_setValue r' r _).trans (if_neg hne)
    | removeValue r' => exact (db.get_setValue r' r _).trans (if_neg hne)

/-- A record that is there afterwards was there before or was written. -/
theorem get_applyAll_or_mem (ws : List Write) (db : Database) (r : Ref) (v : Record)
    (h : (applyAll db ws).get r = some v) : db.get r = some v ∨ .setValue r v ∈ ws := by
  induction ws generalizing db with
  | nil => exact Or.inl h
  | cons w ws ih =>
    rcases ih (w.apply db) h with h | h
    · cases w with
      | setValue r' value =>
        rw [Write.apply, Database.get_setValue] at h
        split at h
        · next hr =>
          rw [hr, ← Option.some.inj h]
          exact Or.inr List.mem_cons_self
        · exact Or.inl h
      | removeValue r' =>
        rw [Write.apply, Database.removeValue, Database.get_setValue] at h
        split at h
        · cases h
        · exact Or.inl h
    · exact Or.inr (List.mem_cons_of_mem w h)

theorem settle_append (db : Database) (ws₁ ws₂ : List Write) (accepted₁ accepted₂ : List Bool)
    (h : ws₁.length = accepted₁.length) :
    settle db (ws₁ ++ ws₂) (accepted₁ ++ accepted₂) = settle (settle db ws₁ accepted₁) ws₂ accepted₂ := by
  unfold settle
  rw [List.zip_append h, List.filter_append, List.map_append, applyAll_append]

/-- The verdicts do not matter for a record that no write refers to. -/
theorem get_settle_of_ne (ws : List Write) (accepted : List Bool) (db : Database) (r : Ref)
    (h : ∀ w ∈ ws, w.ref ≠ r) : (settle db ws accepted).get r = db.get r := by
  apply get_applyAll_of_ne
  intro w hw
  obtain ⟨⟨w', a⟩, hmem, rfl⟩ := List.mem_map.mp hw
  exact h w' (List.of_mem_zip (List.mem_of_mem_filter hmem)).1

/-- When every write is accepted the local copy was right at once. -/
theorem settle_all (db : Database) (ws : List Write) :
    settle db ws (List.replicate ws.length true) = applyAll db ws := by
  unfold settle
  congr 1
  induction ws with
  | nil => rfl
  | cons w ws ih => simpa [List.replicate_succ] using ih

end FlowerGift
