import Mathlib.Algebra.Group.Nat.Defs
import FlowerGift.Lib.Ascending

/-!
# The nodes of the client's search tree

`FLLRBEmptyNode` and `FLLRBValueNode`: a left-leaning red-black tree.  The
children of every database node are kept in one once they are many.

A message to `nil` answers zero, so the missing `left` of an empty node is
modelled as empty; `copyWith` on an empty node is the empty node, so a rotation
towards an empty child would lose the node.  `fixUp` and the two moves only
rotate towards a red child: they keep the listing (`entries_fixUp`,
`entries_moveRedLeft`, `entries_moveRedRight`) of every tree, balanced or not.
-/

namespace FlowerGift

open Realtime

/-- `FLLRBColor`, a boxed Boolean: `RED` is true, `BLACK` is false. -/
abbrev LLRBColor := Bool

abbrev RED : LLRBColor := true

abbrev BLACK : LLRBColor := false

inductive LLRBNode (κ ν : Type)
  | emptyNode
  | valueNode (key : κ) (value : ν) (color : LLRBColor) (left right : LLRBNode κ ν)
  deriving DecidableEq, Repr

namespace LLRBNode

variable {κ ν : Type}

def isEmpty : LLRBNode κ ν → Bool
  | emptyNode => true
  | valueNode .. => false

def isRed : LLRBNode κ ν → Bool
  | emptyNode => false
  | valueNode _ _ color _ _ => color

def left : LLRBNode κ ν → LLRBNode κ ν
  | emptyNode => emptyNode
  | valueNode _ _ _ l _ => l

def right : LLRBNode κ ν → LLRBNode κ ν
  | emptyNode => emptyNode
  | valueNode _ _ _ _ r => r

section Fields

variable (k : κ) (v : ν) (c : LLRBColor) (l r : LLRBNode κ ν)

@[simp] theorem isRed_valueNode : (valueNode k v c l r).isRed = c := rfl

@[simp] theorem left_valueNode : (valueNode k v c l r).left = l := rfl

@[simp] theorem right_valueNode : (valueNode k v c l r).right = r := rfl

@[simp] theorem isEmpty_valueNode : (valueNode k v c l r).isEmpty = false := rfl

end Fields

@[simp] theorem isRed_emptyNode : (emptyNode : LLRBNode κ ν).isRed = false := rfl

@[simp] theorem isEmpty_emptyNode : (emptyNode : LLRBNode κ ν).isEmpty = true := rfl

def count : LLRBNode κ ν → ℕ
  | emptyNode => 0
  | valueNode _ _ _ l r => l.count + 1 + r.count

/-- `copyWith:withValue:withColor:withLeft:withRight:` with one argument given, for each of them. -/
def withColor : LLRBNode κ ν → LLRBColor → LLRBNode κ ν
  | emptyNode, _ => emptyNode
  | valueNode k v _ l r, c => valueNode k v c l r

def withLeft : LLRBNode κ ν → LLRBNode κ ν → LLRBNode κ ν
  | emptyNode, _ => emptyNode
  | valueNode k v c _ r, l => valueNode k v c l r

def withRight : LLRBNode κ ν → LLRBNode κ ν → LLRBNode κ ν
  | emptyNode, _ => emptyNode
  | valueNode k v c l _, r => valueNode k v c l r

/-! ## Traversals -/

/-- `inorderTraversal:`; the action reads and writes the variables `σ` its block captures, and stops
the traversal by answering true. -/
def inorderTraversal {σ : Type} (action : κ → ν → σ → Bool × σ) : LLRBNode κ ν → σ → Bool × σ
  | emptyNode, s => (false, s)
  | valueNode k v _ l r, s =>
    match l.inorderTraversal action s with
    | (true, s) => (true, s)
    | (false, s) =>
      match action k v s with
      | (true, s) => (true, s)
      | (false, s) => r.inorderTraversal action s

def reverseTraversal {σ : Type} (action : κ → ν → σ → Bool × σ) : LLRBNode κ ν → σ → Bool × σ
  | emptyNode, s => (false, s)
  | valueNode k v _ l r, s =>
    match r.reverseTraversal action s with
    | (true, s) => (true, s)
    | (false, s) =>
      match action k v s with
      | (true, s) => (true, s)
      | (false, s) => l.reverseTraversal action s

/-- The entries in the order a traversal meets them. -/
def entries : LLRBNode κ ν → List (κ × ν)
  | emptyNode => []
  | valueNode k v _ l r => l.entries ++ (k, v) :: r.entries

/-! ## Rotations -/

/-- `colorFlip`; the color of an empty child stays nil. -/
def colorFlip : LLRBNode κ ν → LLRBNode κ ν
  | emptyNode => emptyNode
  | valueNode k v c l r => valueNode k v (!c) (l.withColor (!l.isRed)) (r.withColor (!r.isRed))

/-- `rotateLeft`: `copyWith` is sent to the right child, so an empty one is the answer. -/
def rotateLeft : LLRBNode κ ν → LLRBNode κ ν
  | valueNode k v c l (valueNode rk rv _ rl rr) => valueNode rk rv c (valueNode k v RED l rl) rr
  | _ => emptyNode

def rotateRight : LLRBNode κ ν → LLRBNode κ ν
  | valueNode k v c (valueNode lk lv _ ll lr) r => valueNode lk lv c ll (valueNode k v RED lr r)
  | _ => emptyNode

def fixUp (n : LLRBNode κ ν) : LLRBNode κ ν :=
  let n := if n.right.isRed && !n.left.isRed then n.rotateLeft else n
  let n := if n.left.isRed && n.left.left.isRed then n.rotateRight else n
  if n.left.isRed && n.right.isRed then n.colorFlip else n

def moveRedLeft (n : LLRBNode κ ν) : LLRBNode κ ν :=
  let n := n.colorFlip
  if n.right.left.isRed then ((n.withRight n.right.rotateRight).rotateLeft).colorFlip else n

def moveRedRight (n : LLRBNode κ ν) : LLRBNode κ ν :=
  let n := n.colorFlip
  if n.left.left.isRed then n.rotateRight.colorFlip else n

/-! ### What they keep -/

@[simp] theorem entries_withColor (n : LLRBNode κ ν) (c : LLRBColor) :
    (n.withColor c).entries = n.entries := by
  cases n <;> rfl

theorem isEmpty_of_isRed (n : LLRBNode κ ν) (h : n.isRed = true) : n.isEmpty = false := by
  cases n with
  | emptyNode => cases h
  | valueNode => rfl

/-- The number of nodes is the number of entries. -/
theorem length_entries (n : LLRBNode κ ν) : n.entries.length = n.count := by
  induction n with
  | emptyNode => rfl
  | valueNode k v c l r ihl ihr =>
    simp only [entries, count, List.length_append, List.length_cons, ihl, ihr]
    omega

theorem count_eq (n n' : LLRBNode κ ν) (h : n'.entries = n.entries) : n'.count = n.count := by
  rw [← length_entries, ← length_entries, h]

theorem entries_colorFlip (n : LLRBNode κ ν) : n.colorFlip.entries = n.entries := by
  cases n with
  | emptyNode => rfl
  | valueNode => simp only [colorFlip, entries, entries_withColor]

theorem entries_rotateLeft (n : LLRBNode κ ν) (h : n.right.isEmpty = false) :
    n.rotateLeft.entries = n.entries := by
  match n with
  | emptyNode => cases h
  | valueNode _ _ _ _ emptyNode => cases h
  | valueNode _ _ _ _ (valueNode ..) => simp [rotateLeft, entries]

theorem entries_rotateRight (n : LLRBNode κ ν) (h : n.left.isEmpty = false) :
    n.rotateRight.entries = n.entries := by
  match n with
  | emptyNode => cases h
  | valueNode _ _ _ emptyNode _ => cases h
  | valueNode _ _ _ (valueNode ..) _ => simp [rotateRight, entries]

theorem isEmpty_rotateRight (n : LLRBNode κ ν) (h : n.left.isEmpty = false) :
    n.rotateRight.isEmpty = false := by
  match n with
  | emptyNode => cases h
  | valueNode _ _ _ emptyNode _ => cases h
  | valueNode _ _ _ (valueNode ..) _ => rfl

theorem entries_withRight (n r : LLRBNode κ ν) (h : r.entries = n.right.entries) :
    (n.withRight r).entries = n.entries := by
  cases n with
  | emptyNode => rfl
  | valueNode => simp only [withRight, entries, h, right]

theorem right_withRight (n r : LLRBNode κ ν) (h : n.right.isEmpty = false) :
    (n.withRight r).right = r := by
  cases n with
  | emptyNode => cases h
  | valueNode => rfl

theorem isEmpty_of_left (n : LLRBNode κ ν) (h : n.left.isEmpty = false) : n.isEmpty = false := by
  cases n with
  | emptyNode => cases h
  | valueNode => rfl

/-- A step taken under a condition keeps the listing if it does so where the condition holds. -/
theorem entries_ite (b : Bool) (n n' : LLRBNode κ ν) (h : b = true → n'.entries = n.entries) :
    (if b then n' else n).entries = n.entries := by
  cases b with
  | false => rfl
  | true => exact h rfl

theorem entries_fixUp (n : LLRBNode κ ν) : n.fixUp.entries = n.entries := by
  unfold fixUp
  rw [entries_ite _ _ _ fun _ => entries_colorFlip _]
  rw [entries_ite _ _ _ fun h =>
    entries_rotateRight _ (isEmpty_of_isRed _ (Bool.and_eq_true_iff.mp h).1)]
  exact entries_ite _ _ _ fun h =>
    entries_rotateLeft _ (isEmpty_of_isRed _ (Bool.and_eq_true_iff.mp h).1)

theorem entries_moveRedLeft (n : LLRBNode κ ν) : n.moveRedLeft.entries = n.entries := by
  unfold moveRedLeft
  rw [entries_ite _ _ _ ?_]
  · exact entries_colorFlip n
  · intro h
    have hleft := isEmpty_of_isRed _ h
    have hright := isEmpty_of_left _ hleft
    rw [entries_colorFlip, entries_rotateLeft, entries_withRight]
    · exact entries_rotateRight _ hleft
    · rw [right_withRight _ _ hright]
      exact isEmpty_rotateRight _ hleft

theorem entries_moveRedRight (n : LLRBNode κ ν) : n.moveRedRight.entries = n.entries := by
  unfold moveRedRight
  rw [entries_ite _ _ _ ?_]
  · exact entries_colorFlip n
  · intro h
    have hleft := isEmpty_of_left _ (isEmpty_of_isRed _ h)
    rw [entries_colorFlip]
    exact entries_rotateRight _ hleft

/-! ## Looking up -/

/-- `min`. -/
def min : LLRBNode κ ν → LLRBNode κ ν
  | emptyNode => emptyNode
  | valueNode k v c l r => if l.isEmpty then valueNode k v c l r else l.min

/-- The key property, nil for the empty node. -/
def key : LLRBNode κ ν → Option κ
  | emptyNode => none
  | valueNode k _ _ _ _ => some k

def minKey (n : LLRBNode κ ν) : Option κ := n.min.key

def maxKey : LLRBNode κ ν → Option κ
  | emptyNode => none
  | valueNode k _ _ _ r => if r.isEmpty then some k else r.maxKey

/-! ## Inserting and removing -/

section Order

variable [LinearOrder κ]

def insertKey (aKey : κ) (aValue : ν) : LLRBNode κ ν → LLRBNode κ ν
  | emptyNode => valueNode aKey aValue RED emptyNode emptyNode
  | valueNode k v c l r =>
    let n := match compare aKey k with
      | .lt => valueNode k v c (l.insertKey aKey aValue) r
      | .eq => valueNode k aValue c l r
      | .gt => valueNode k v c l (r.insertKey aKey aValue)
    n.fixUp

end Order

/-! The removals descend into a subtree of the rotated node, so the number of nodes is what gets
smaller. -/

theorem count_fixUp (n : LLRBNode κ ν) : n.fixUp.count = n.count := count_eq _ _ n.entries_fixUp

theorem count_moveRedLeft (n : LLRBNode κ ν) : n.moveRedLeft.count = n.count :=
  count_eq _ _ n.entries_moveRedLeft

theorem count_moveRedRight (n : LLRBNode κ ν) : n.moveRedRight.count = n.count :=
  count_eq _ _ n.entries_moveRedRight

theorem count_rotateRight (n : LLRBNode κ ν) (h : n.left.isRed = true) :
    n.rotateRight.count = n.count :=
  count_eq _ _ (n.entries_rotateRight (isEmpty_of_isRed _ h))

theorem count_ite (b : Bool) (n n' : LLRBNode κ ν) (h : b = true → n'.count = n.count) :
    (if b then n' else n).count = n.count := by
  cases b with
  | false => rfl
  | true => exact h rfl

/-- A child of what a node was rotated into is smaller than the node. -/
theorem left_count_lt (k : κ) (v : ν) (c : LLRBColor) (l r n : LLRBNode κ ν)
    (h : n.count = (valueNode k v c l r).count) : n.left.count < (valueNode k v c l r).count := by
  cases n with
  | emptyNode => simp only [left, count]; omega
  | valueNode => simp only [left, count] at h ⊢; omega

theorem right_count_lt (k : κ) (v : ν) (c : LLRBColor) (l r n : LLRBNode κ ν)
    (h : n.count = (valueNode k v c l r).count) : n.right.count < (valueNode k v c l r).count := by
  cases n with
  | emptyNode => simp only [right, count]; omega
  | valueNode => simp only [right, count] at h ⊢; omega

def removeMin : LLRBNode κ ν → LLRBNode κ ν
  | emptyNode => emptyNode
  | valueNode k v c l r =>
    if l.isEmpty then emptyNode
    else
      let n := valueNode k v c l r
      let n := if !n.left.isRed && !n.left.left.isRed then n.moveRedLeft else n
      (n.withLeft n.left.removeMin).fixUp
termination_by n => n.count
decreasing_by exact left_count_lt _ _ _ _ _ _ (count_ite _ _ _ fun _ => count_moveRedLeft _)

theorem count_withLeft_le (n l : LLRBNode κ ν) (h : l.count ≤ n.left.count) :
    (n.withLeft l).count ≤ n.count := by
  cases n with
  | emptyNode => exact le_refl _
  | valueNode => simp only [withLeft, count, left] at h ⊢; omega

theorem count_removeMin_le (n : LLRBNode κ ν) : n.removeMin.count ≤ n.count := by
  induction n using removeMin.induct with
  | case1 => simp [removeMin]
  | case2 k v c l r h => 
    rw [removeMin, if_pos h]
    exact Nat.zero_le _
  | case3 k v c l r h n n' ih =>
    rw [removeMin, if_neg h, count_fixUp]
    have hn : n'.count = n.count := count_ite _ _ _ fun _ => count_moveRedLeft _
    exact hn ▸ count_withLeft_le n' _ ih

/-- `copyWith` with the key and value of another node; what that node lacks stays. -/
def withEntry : LLRBNode κ ν → LLRBNode κ ν → LLRBNode κ ν
  | valueNode _ _ c l r, valueNode k v _ _ _ => valueNode k v c l r
  | n, _ => n

theorem right_withEntry (n m : LLRBNode κ ν) : (n.withEntry m).right = n.right := by
  cases n <;> cases m <;> rfl

/-- The node turned so that a removal to its right meets a red link. -/
theorem count_turned (n : LLRBNode κ ν) (b : Bool) :
    (if b then (if n.left.isRed then n.rotateRight else n).moveRedRight
      else if n.left.isRed then n.rotateRight else n).count = n.count := by
  rw [count_ite _ _ _ fun _ => count_moveRedRight _]
  exact count_ite _ _ _ fun h => count_rotateRight _ h

/-- The right child is no larger once its smallest node has moved up. -/
theorem right_count_le_of_raised (n : LLRBNode κ ν) (h : ¬ n.right.isEmpty = true) :
    ((n.withEntry n.right.min).withRight n.right.removeMin).right.count ≤ n.right.count := by
  rw [right_withRight _ _ (by simpa [right_withEntry] using h)]
  exact count_removeMin_le _

def remove [LinearOrder κ] (aKey : κ) : LLRBNode κ ν → LLRBNode κ ν
  | emptyNode => emptyNode
  | valueNode k v c l r =>
    let n := valueNode k v c l r
    if compare aKey k = .lt then
      let n := if !n.left.isEmpty && !n.left.isRed && !n.left.left.isRed then n.moveRedLeft else n
      (n.withLeft (n.left.remove aKey)).fixUp
    else
      let n := if n.left.isRed then n.rotateRight else n
      let n := if !n.right.isEmpty && !n.right.isRed && !n.right.left.isRed then n.moveRedRight else n
      if n.key.any (compare aKey · = .eq) then
        if n.right.isEmpty then emptyNode
        else
          let n := (n.withEntry n.right.min).withRight n.right.removeMin
          (n.withRight (n.right.remove aKey)).fixUp
      else (n.withRight (n.right.remove aKey)).fixUp
termination_by n => n.count
decreasing_by
  · exact left_count_lt _ _ _ _ _ _ (count_ite _ _ _ fun _ => count_moveRedLeft _)
  · next h =>
    exact lt_of_le_of_lt (right_count_le_of_raised _ h)
      (right_count_lt _ _ _ _ _ _ (count_turned _ _))
  · exact right_count_lt _ _ _ _ _ _ (count_turned _ _)

end LLRBNode

end FlowerGift
