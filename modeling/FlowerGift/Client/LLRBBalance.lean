import FlowerGift.Client.LLRBNode

/-!
# The balance of the search tree

`Balanced t c n`: the three invariants of the tree's header.  No red node has a
red child, every path meets the same number `n` of black nodes, only a left
child is red; `c` is the color of the root.

The steps of an insertion or a removal break the invariants for a moment, in
two ways that the next `fixUp` (or the recoloring of the root) repairs:
`Leaning`, a red root over a red left child, and `RightRed`, a black root over a
red right child.  A removal from a subtree with a red link at its root (`Ready`)
keeps the number of black nodes and never turns a black root red (`Kept`).
-/

namespace FlowerGift

namespace LLRBNode

variable {κ ν : Type}

inductive Balanced : LLRBNode κ ν → LLRBColor → ℕ → Prop
  | empty : Balanced emptyNode BLACK 0
  | red {k : κ} {v : ν} {l r : LLRBNode κ ν} {n : ℕ} :
      Balanced l BLACK n → Balanced r BLACK n → Balanced (valueNode k v RED l r) RED n
  | black {k : κ} {v : ν} {l r : LLRBNode κ ν} {c : LLRBColor} {n : ℕ} :
      Balanced l c n → Balanced r BLACK n → Balanced (valueNode k v BLACK l r) BLACK (n + 1)

/-- A red root whose left child may be red. -/
inductive Leaning : LLRBNode κ ν → ℕ → Prop
  | mk {k : κ} {v : ν} {l r : LLRBNode κ ν} {c : LLRBColor} {n : ℕ} :
      Balanced l c n → Balanced r BLACK n → Leaning (valueNode k v RED l r) n

/-- A black root whose right child is red. -/
inductive RightRed : LLRBNode κ ν → ℕ → Prop
  | mk {k : κ} {v : ν} {l r : LLRBNode κ ν} {n : ℕ} :
      Balanced l BLACK n → Balanced r RED n → RightRed (valueNode k v BLACK l r) (n + 1)

/-- The root is balanced once it is colored black. -/
def Rootable (t : LLRBNode κ ν) : Prop := ∃ n, Balanced (t.withColor BLACK) BLACK n

/-- A red link at the root, where a removal may start. -/
def Ready (t : LLRBNode κ ν) : Prop := t.isRed = true ∨ t.left.isRed = true

/-- What a removal leaves of a tree with root color `c` and `n` black nodes on every path. -/
def Kept (c : LLRBColor) (n : ℕ) (t : LLRBNode κ ν) : Prop :=
  ∃ c', Balanced t c' n ∧ (c = BLACK → c' = BLACK)

theorem Balanced.isRed_eq (t : LLRBNode κ ν) (c : LLRBColor) (n : ℕ) (h : Balanced t c n) :
    t.isRed = c := by
  cases h <;> rfl

theorem Balanced.isEmpty_eq (t : LLRBNode κ ν) (n : ℕ) (h : Balanced t BLACK (n + 1)) :
    t.isEmpty = false := by
  cases h
  rfl

theorem Balanced.eq_emptyNode (t : LLRBNode κ ν) (h : Balanced t BLACK 0) : t = emptyNode := by
  cases h
  rfl

theorem Balanced.rootable (t : LLRBNode κ ν) (c : LLRBColor) (n : ℕ) (h : Balanced t c n) :
    Rootable t := by
  cases h with
  | empty => exact ⟨0, Balanced.empty⟩
  | red hl hr => exact ⟨_, Balanced.black hl hr⟩
  | black hl hr => exact ⟨_, Balanced.black hl hr⟩

theorem Leaning.rootable (t : LLRBNode κ ν) (n : ℕ) (h : Leaning t n) : Rootable t := by
  cases h with
  | mk hl hr => exact ⟨_, Balanced.black hl hr⟩

theorem Kept.rootable (c : LLRBColor) (n : ℕ) (t : LLRBNode κ ν) (h : Kept c n t) : Rootable t := by
  obtain ⟨c', hb, -⟩ := h
  exact hb.rootable t c' n

theorem Balanced.kept (t : LLRBNode κ ν) (c : LLRBColor) (n : ℕ) (h : Balanced t c n) :
    Kept c n t := ⟨c, h, id⟩

theorem kept_black (t : LLRBNode κ ν) (n : ℕ) (h : Kept BLACK n t) : Balanced t BLACK n := by
  obtain ⟨c', hb, hc⟩ := h
  exact hc rfl ▸ hb

/-! ## `fixUp` on balanced children -/

section FixUp

variable (k : κ) (v : ν) (c : LLRBColor) (l r : LLRBNode κ ν) (n : ℕ)

/-- Nothing to repair: the right child is black. -/
theorem fixUp_of_black (cl : LLRBColor) (hl : Balanced l cl n) (hr : Balanced r BLACK n) :
    (valueNode k v c l r).fixUp = valueNode k v c l r := by
  have hred := hr.isRed_eq
  have hleft : (l.isRed && l.left.isRed) = false := by
    cases hl with
    | empty => rfl
    | red hll _ => exact hll.isRed_eq
    | black => rfl
  simp [fixUp, hred, hleft]

/-- Two red children take the color of their parent. -/
theorem fixUp_of_red_red (hl : Balanced l RED n) (hr : Balanced r RED n) :
    (valueNode k v c l r).fixUp = valueNode k v (!c) (l.withColor BLACK) (r.withColor BLACK) := by
  have hlr := hl.isRed_eq
  have hrr := hr.isRed_eq
  have hleft : l.left.isRed = false := by
    cases hl with
    | red hll _ => exact hll.isRed_eq
  simp [fixUp, hlr, hrr, hleft, colorFlip]

/-- A lone red child on the right moves to the left. -/
theorem fixUp_of_black_red (hl : Balanced l BLACK n) (hr : Balanced r RED n) :
    ∃ rk rv rl rr, (valueNode k v c l r).fixUp = valueNode rk rv c (valueNode k v RED l rl) rr ∧
      Balanced rl BLACK n ∧ Balanced rr BLACK n := by
  have hlb := hl.isRed_eq
  cases hr with
  | @red rk rv rl rr _ hrl hrr =>
    have hrb := hrr.isRed_eq
    refine ⟨rk, rv, rl, rr, ?_, hrl, hrr⟩
    simp [fixUp, hlb, hrb, rotateLeft]

end FixUp

theorem Balanced.recolored (t : LLRBNode κ ν) (n : ℕ) (h : Balanced t RED n) :
    Balanced (t.withColor BLACK) BLACK (n + 1) := by
  cases h with
  | red hl hr => exact Balanced.black hl hr

/-- Below a black node any two balanced children are repaired. -/
theorem fixUp_black (k : κ) (v : ν) (l r : LLRBNode κ ν) (cl cr : LLRBColor) (n : ℕ)
    (hl : Balanced l cl n) (hr : Balanced r cr n) :
    ∃ c, Balanced (valueNode k v BLACK l r).fixUp c (n + 1) ∧ (cl = BLACK → c = BLACK) := by
  cases cr with
  | false =>
    rw [fixUp_of_black k v BLACK l r n cl hl hr]
    exact ⟨BLACK, Balanced.black hl hr, fun _ => rfl⟩
  | true =>
    cases cl with
    | false =>
      obtain ⟨rk, rv, rl, rr, heq, hrl, hrr⟩ := fixUp_of_black_red k v BLACK l r n hl hr
      rw [heq]
      exact ⟨BLACK, Balanced.black (Balanced.red hl hrl) hrr, fun _ => rfl⟩
    | true =>
      rw [fixUp_of_red_red k v BLACK l r n hl hr]
      exact ⟨RED, Balanced.red (hl.recolored l n) (hr.recolored r n), fun h => by cases h⟩

/-- Below a red node a red child is left for the parent to repair; two of them rise. -/
theorem fixUp_red (k : κ) (v : ν) (l r : LLRBNode κ ν) (cl cr : LLRBColor) (n : ℕ)
    (hl : Balanced l cl n) (hr : Balanced r cr n) :
    Leaning (valueNode k v RED l r).fixUp n ∨
      cl = RED ∧ cr = RED ∧ Balanced (valueNode k v RED l r).fixUp BLACK (n + 1 + 1) := by
  cases cr with
  | false =>
    rw [fixUp_of_black k v RED l r n cl hl hr]
    exact Or.inl (Leaning.mk hl hr)
  | true =>
    cases cl with
    | false =>
      obtain ⟨rk, rv, rl, rr, heq, hrl, hrr⟩ := fixUp_of_black_red k v RED l r n hl hr
      rw [heq]
      exact Or.inl (Leaning.mk (Balanced.red hl hrl) hrr)
    | true =>
      rw [fixUp_of_red_red k v RED l r n hl hr]
      exact Or.inr ⟨rfl, rfl, Balanced.black (hl.recolored l n) (hr.recolored r n)⟩

/-- Two red links in a row on the left are turned over a black node. -/
theorem fixUp_leaning (k : κ) (v : ν) (l r : LLRBNode κ ν) (n : ℕ) (hl : Leaning l n)
    (hr : Balanced r BLACK n) : ∃ c, Balanced (valueNode k v BLACK l r).fixUp c (n + 1) := by
  have hrb := hr.isRed_eq
  cases hl with
  | @mk lk lv ll lr cl _ hll hlr =>
    cases cl with
    | false =>
      obtain ⟨c, hb, -⟩ := fixUp_black k v _ r RED BLACK n (Balanced.red hll hlr) hr
      exact ⟨c, hb⟩
    | true =>
      have hllr := hll.isRed_eq
      have heq : (valueNode k v BLACK (valueNode lk lv RED ll lr) r).fixUp =
          valueNode lk lv RED (ll.withColor BLACK) (valueNode k v BLACK lr r) := by
        simp [fixUp, hrb, hllr, rotateRight, colorFlip, withColor]
      rw [heq]
      exact ⟨RED, Balanced.red (hll.recolored ll n) (Balanced.black hlr hr)⟩

end LLRBNode

end FlowerGift
