import Mathlib

/-!
# Database keys and their order

A child of a database node has a string key.  The children of a node are listed
in the order of the database client (`FUtilities compareKey:toKey:`): keys that
read as 32-bit integers first, by value and then by length, then the other keys
letter by letter.  `Key` carries that order, so `SortedMap Key _` lists its
entries the way a snapshot does.  It tells any two names apart, and takes letters
by code point; where the client does the same is `ChildKey` in `Client.ChildKey`.

The app keys a product by `String(id)` (`stringId`), which is injective
(`stringId_inj`).
-/

namespace FlowerGift

structure Key where
  name : String

/-- The value of a string of decimal digits. -/
def digitsValue : List Char → ℤ → Option ℤ
  | [], n => some n
  | c :: cs, n => if '0' ≤ c ∧ c ≤ '9' then digitsValue cs (n * 10 + (c.toNat - '0'.toNat)) else none

/-- The string as a 32-bit integer: an optional `-` and decimal digits, at most 11 letters. -/
def tryParseStringToInt (str : List Char) : Option ℤ :=
  if str.length > 11 ∨ str.length = 0 then none
  else
    let value := match str with
      | '-' :: [] => none
      | '-' :: digits => (digitsValue digits 0).map fun n => -n
      | digits => digitsValue digits 0
    value.filter fun n => -2147483648 ≤ n ∧ n ≤ 2147483647

/-- What two keys are compared by: integers come first, by value and length; the letters last. -/
def Key.rank (k : Key) : ℕ ×ₗ ℤ ×ₗ ℕ ×ₗ List Char :=
  let str := k.name.toList
  match tryParseStringToInt str with
  | some n => toLex (0, toLex (n, toLex (str.length, str)))
  | none => toLex (1, toLex (0, toLex (0, str)))

theorem Key.rank_injective : Function.Injective Key.rank := by
  rintro ⟨a⟩ ⟨b⟩ h
  have hl : a.toList = b.toList := by
    unfold Key.rank at h
    cases ha : tryParseStringToInt a.toList <;> cases hb : tryParseStringToInt b.toList <;>
      simp_all
  rw [String.toList_inj.mp hl]

instance : LinearOrder Key := LinearOrder.lift' Key.rank Key.rank_injective

/-- `String(id)`. -/
def stringId (id : ℤ) : Key := ⟨toString id⟩

theorem stringId_inj (a b : ℤ) : stringId a = stringId b ↔ a = b := by
  constructor
  · intro h
    have hr : a.repr = b.repr := congrArg Key.name h
    exact Int.repr_injective hr
  · intro h
    rw [h]

example : stringId 2 < stringId 10 := by decide

example : stringId (-3) < ⟨"rose"⟩ := by decide

end FlowerGift
