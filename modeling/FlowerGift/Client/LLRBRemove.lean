import FlowerGift.Client.LLRBInsert

/-!
# Removing from the search tree

`remove` walks down to the key and turns every node on the way so that the
child it enters has a red link (`TurnedLeft`, `TurnedRight`: the forms a turned
node can have); going back up, `fixUp` puts the node in order again
(`TurnedLeft.kept`, `TurnedRight.kept`).  The root itself may lack a red link:
then it can come back as a red node over a red child, which coloring it black
repairs.

A node found is replaced by its successor, the minimum of the right subtree, and
the removal then goes on for the same key in that subtree, where it is no more:
such a walk down the left edge keeps everything (`remove_of_below`).
-/

namespace FlowerGift

open Realtime

namespace LLRBNode

variable {κ ν : Type}

/-- The black nodes on a path through a node of color `c` over children with `h` of them. -/
def heightUnder (c : LLRBColor) (h : ℕ) : ℕ := if c = RED then h else h + 1

theorem balanced_over (k : κ) (v : ν) (c cl : LLRBColor) (l r : LLRBNode κ ν) (h : ℕ)
    (hl : Balanced l cl h) (hr : Balanced r BLACK h) (hc : c = RED → cl = BLACK) :
    Balanced (valueNode k v c l r) c (heightUnder c h) := by
  cases c with
  | true =>
    obtain rfl := hc rfl
    exact Balanced.red hl hr
  | false => exact Balanced.black hl hr

theorem Balanced.children (k : κ) (v : ν) (c : LLRBColor) (l r : LLRBNode κ ν) (n : ℕ)
    (hb : Balanced (valueNode k v c l r) c n) :
    ∃ cl h, n = heightUnder c h ∧ Balanced l cl h ∧ Balanced r BLACK h ∧ (c = RED → cl = BLACK) := by
  cases hb with
  | red hl hr => exact ⟨BLACK, _, rfl, hl, hr, fun _ => rfl⟩
  | black hl hr => exact ⟨_, _, rfl, hl, hr, fun hc => (by cases hc)⟩

/-! ## Turned for a descent to the left -/

/-- A node whose left child is ready.  The `c` and `h` of the node it was, `q` says whether that one
had a red link. -/
inductive TurnedLeft (q : Prop) : LLRBColor → ℕ → LLRBNode κ ν → Prop
  | red {k : κ} {v : ν} {a b : LLRBNode κ ν} {h : ℕ} :
      Balanced a RED h → Balanced b BLACK h → TurnedLeft q BLACK h (valueNode k v BLACK a b)
  | lent {k : κ} {v : ν} {c : LLRBColor} {a b : LLRBNode κ ν} {h : ℕ} :
      Balanced a BLACK h → a.left.isRed = true → Balanced b BLACK h →
      TurnedLeft q c h (valueNode k v c a b)
  | split {k : κ} {v : ν} {c : LLRBColor} {a b : LLRBNode κ ν} {h : ℕ} :
      (q → c = RED) → Balanced a RED h → Balanced b RED h →
      TurnedLeft q c (h + 1) (valueNode k v (!c) a b)

/-- With no red link on the left, one is lent by the right child or both children turn red. -/
theorem turnedLeft_moveRedLeft (q : Prop) (k : κ) (v : ν) (c : LLRBColor) (l r : LLRBNode κ ν) (h : ℕ)
    (hl : Balanced l BLACK (h + 1)) (hll : l.left.isRed = false) (hr : Balanced r BLACK (h + 1))
    (hq : q → c = RED) : TurnedLeft q c (h + 1) (valueNode k v c l r).moveRedLeft := by
  cases hl with
  | @black lk lv ll lr cl _ hll' hlr =>
    obtain rfl : cl = BLACK := hll'.isRed_eq.symm.trans hll
    cases hr with
    | @black rk rv rl rr cr _ hrl hrr =>
      cases hrl with
      | empty =>
        exact TurnedLeft.split hq (Balanced.red hll' hlr) (Balanced.red Balanced.empty hrr)
      | black hrll hrlr =>
        exact TurnedLeft.split hq (Balanced.red hll' hlr)
          (Balanced.red (Balanced.black hrll hrlr) hrr)
      | @red rlk rlv rll rlr _ hrll hrlr =>
        have heq : (valueNode k v c (valueNode lk lv BLACK ll lr)
            (valueNode rk rv BLACK (valueNode rlk rlv RED rll rlr) rr)).moveRedLeft =
            valueNode rlk rlv c (valueNode k v BLACK (valueNode lk lv RED ll lr) rll)
              (valueNode rk rv BLACK rlr rr) := by
          simp [moveRedLeft, colorFlip, rotateLeft, rotateRight, withRight, withColor]
        rw [heq]
        exact TurnedLeft.lent (Balanced.black (Balanced.red hll' hlr) hrll) rfl
          (Balanced.black hrlr hrr)

/-- The node a removal turns a node into before it enters the left child. -/
def turnLeft (n : LLRBNode κ ν) : LLRBNode κ ν :=
  if !n.left.isRed && !n.left.left.isRed then n.moveRedLeft else n

theorem entries_turnLeft (n : LLRBNode κ ν) : n.turnLeft.entries = n.entries :=
  entries_ite _ _ _ fun _ => entries_moveRedLeft _

/-- A node that comes down to the left keeps its entry there. -/
theorem root_turnLeft (k : κ) (v : ν) (c : LLRBColor) (l r : LLRBNode κ ν) :
    (valueNode k v c l r).turnLeft.key = some k ∨
      (k, v) ∈ (valueNode k v c l r).turnLeft.left.entries := by
  unfold turnLeft
  split
  · match r with
    | emptyNode => exact Or.inl rfl
    | valueNode _ _ _ emptyNode _ => exact Or.inl rfl
    | valueNode _ _ _ (valueNode _ _ rlc _ _) _ =>
      cases rlc with
      | false => exact Or.inl rfl
      | true =>
        right
        simp [moveRedLeft, colorFlip, rotateLeft, rotateRight, withRight, withColor, entries]
  · exact Or.inl rfl

theorem turnedLeft (k : κ) (v : ν) (c : LLRBColor) (l r : LLRBNode κ ν) (n : ℕ)
    (hb : Balanced (valueNode k v c l r) c n) (hl : l.isEmpty = false) :
    ∃ h, n = heightUnder c h ∧
      TurnedLeft (Ready (valueNode k v c l r)) c h (valueNode k v c l r).turnLeft := by
  obtain ⟨cl, h, rfl, hbl, hbr, hc⟩ := hb.children
  refine ⟨h, rfl, ?_⟩
  have hred := hbl.isRed_eq
  unfold turnLeft
  cases cl with
  | true =>
    obtain rfl : c = BLACK := by
      cases c with
      | false => rfl
      | true => cases hc rfl
    rw [if_neg (by simp [hred])]
    exact TurnedLeft.red hbl hbr
  | false =>
    by_cases hll : l.left.isRed = true
    · rw [if_neg (by simp [hll])]
      exact TurnedLeft.lent hbl hll hbr
    · rw [Bool.not_eq_true] at hll
      rw [if_pos (by simp [hred, hll])]
      cases hbl with
      | empty => cases hl
      | black hbll hblr =>
        apply turnedLeft_moveRedLeft _ k v c _ r _ (Balanced.black hbll hblr) hll hbr
        rintro (hq | hq)
        · exact hq
        · cases hq

/-- The node after a removal below its left child, `a'` being what is left of the child. -/
theorem TurnedLeft.kept (q : Prop) (c : LLRBColor) (h : ℕ) (t a' : LLRBNode κ ν)
    (ht : TurnedLeft q c h t)
    (ha : ∀ cl m, Balanced t.left cl m → Ready t.left → Kept cl m a') :
    (q → Kept c (heightUnder c h) (t.withLeft a').fixUp) ∧ Rootable (t.withLeft a').fixUp := by
  have of_kept : ∀ t' : LLRBNode κ ν, Kept c (heightUnder c h) t' →
      (q → Kept c (heightUnder c h) t') ∧ Rootable t' :=
    fun t' hk => ⟨fun _ => hk, hk.rootable⟩
  cases ht with
  | @red k v a b _ hba hbb =>
    obtain ⟨c', hb', -⟩ := ha RED h hba (Or.inl hba.isRed_eq)
    apply of_kept
    simp only [withLeft]
    rw [fixUp_of_black k v BLACK a' b h c' hb' hbb]
    exact (balanced_over k v BLACK c' a' b h hb' hbb (fun hc => by cases hc)).kept
  | @lent k v _ a b _ hba hal hbb =>
    have hb' := kept_black a' h (ha BLACK h hba (Or.inr hal))
    apply of_kept
    simp only [withLeft]
    rw [fixUp_of_black k v c a' b h BLACK hb' hbb]
    exact (balanced_over k v c BLACK a' b h hb' hbb fun _ => rfl).kept
  | @split k v _ a b m hq hba hbb =>
    obtain ⟨c', hb', -⟩ := ha RED m hba (Or.inl hba.isRed_eq)
    simp only [withLeft]
    cases c with
    | true =>
      obtain ⟨c'', hb'', -⟩ := fixUp_black k v a' b c' RED m hb' hbb
      exact of_kept _ ⟨c'', hb'', fun hc => by cases hc⟩
    | false =>
      refine ⟨fun hq' => absurd (hq hq') Bool.false_ne_true, ?_⟩
      rcases fixUp_red k v a' b c' RED m hb' hbb with hlean | ⟨-, -, hb''⟩
      · exact hlean.rootable
      · exact hb''.rootable

/-! ## Turned for a descent to the right -/

/-- What a removal may enter on the right. -/
def Enterable (t : LLRBNode κ ν) (c : LLRBColor) (n : ℕ) : Prop :=
  Balanced t c n ∧ Ready t ∨ c = BLACK ∧ RightRed t n

theorem Balanced.not_rightRed (t : LLRBNode κ ν) (c : LLRBColor) (n m : ℕ) (hb : Balanced t c n) :
    ¬ RightRed t m := by
  intro hr
  cases hr with
  | mk _ hred =>
    cases hb with
    | black _ hblack => cases hred.isRed_eq.symm.trans hblack.isRed_eq

theorem Enterable.of_balanced (t : LLRBNode κ ν) (c c' : LLRBColor) (n n' : ℕ) (hb : Balanced t c n)
    (he : Enterable t c' n') : Balanced t c' n' ∧ Ready t := by
  rcases he with he | ⟨-, hr⟩
  · exact he
  · exact absurd hr (hb.not_rightRed t c n n')

/-- A node whose right child can be entered: the node that was at the root with the entry `(k, v)` is
there still or has become the root of the right child. -/
inductive TurnedRight (q : Prop) (k : κ) (v : ν) : LLRBColor → ℕ → LLRBNode κ ν → Prop
  | red {a b : LLRBNode κ ν} {h : ℕ} :
      Balanced a BLACK h → Balanced b RED h → TurnedRight q k v BLACK h (valueNode k v BLACK a b)
  | rotated {k' : κ} {v' : ν} {a bl br : LLRBNode κ ν} {h : ℕ} :
      Balanced a BLACK h → Balanced (valueNode k v RED bl br) RED h →
      TurnedRight q k v BLACK h (valueNode k' v' BLACK a (valueNode k v RED bl br))
  | lent {c : LLRBColor} {a b : LLRBNode κ ν} {h : ℕ} :
      Balanced a BLACK h → Balanced b BLACK h → b.left.isRed = true →
      TurnedRight q k v c h (valueNode k v c a b)
  | borrowed {k' : κ} {v' : ν} {c : LLRBColor} {a bl br : LLRBNode κ ν} {h : ℕ} :
      Balanced a BLACK h → RightRed (valueNode k v BLACK bl br) h →
      TurnedRight q k v c h (valueNode k' v' c a (valueNode k v BLACK bl br))
  | split {c : LLRBColor} {a b : LLRBNode κ ν} {h : ℕ} :
      (q → c = RED) → Balanced a RED h → Balanced b RED h →
      TurnedRight q k v c (h + 1) (valueNode k v (!c) a b)

/-- With no red link on the right, one is borrowed from the left or both children turn red. -/
theorem turnedRight_moveRedRight (q : Prop) (k : κ) (v : ν) (c : LLRBColor) (l r : LLRBNode κ ν)
    (h : ℕ) (hl : Balanced l BLACK (h + 1)) (hrl : r.left.isRed = false)
    (hr : Balanced r BLACK (h + 1)) (hq : q → c = RED) :
    TurnedRight q k v c (h + 1) (valueNode k v c l r).moveRedRight := by
  cases hr with
  | @black rk rv rl rr cr _ hrl' hrr =>
    obtain rfl : cr = BLACK := hrl'.isRed_eq.symm.trans hrl
    cases hl with
    | @black lk lv ll lr cl _ hll hlr =>
      cases hll with
      | empty =>
        exact TurnedRight.split hq (Balanced.red Balanced.empty hlr) (Balanced.red hrl' hrr)
      | black hlll hllr =>
        exact TurnedRight.split hq (Balanced.red (Balanced.black hlll hllr) hlr)
          (Balanced.red hrl' hrr)
      | @red llk llv lll llr _ hlll hllr =>
        have heq : (valueNode k v c (valueNode lk lv BLACK (valueNode llk llv RED lll llr) lr)
            (valueNode rk rv BLACK rl rr)).moveRedRight =
            valueNode lk lv c (valueNode llk llv BLACK lll llr)
              (valueNode k v BLACK lr (valueNode rk rv RED rl rr)) := by
          simp [moveRedRight, colorFlip, rotateRight, withColor]
        rw [heq]
        exact TurnedRight.borrowed (Balanced.black hlll hllr)
          (RightRed.mk hlr (Balanced.red hrl' hrr))

/-- The node `remove` turns a node into before it looks to the right. -/
def turnRight (n : LLRBNode κ ν) : LLRBNode κ ν :=
  let n := if n.left.isRed then n.rotateRight else n
  if !n.right.isEmpty && !n.right.isRed && !n.right.left.isRed then n.moveRedRight else n

theorem entries_turnRight (n : LLRBNode κ ν) : n.turnRight.entries = n.entries := by
  unfold turnRight
  rw [entries_ite _ _ _ fun _ => entries_moveRedRight _]
  exact entries_ite _ _ _ fun h => entries_rotateRight _ (isEmpty_of_isRed _ h)

theorem turnedRight (k : κ) (v : ν) (c : LLRBColor) (l r : LLRBNode κ ν) (n : ℕ)
    (hb : Balanced (valueNode k v c l r) c n) (hne : l.isEmpty = false ∨ r.isEmpty = false) :
    ∃ h, n = heightUnder c h ∧ TurnedRight (Ready (valueNode k v c l r)) k v c h
      (valueNode k v c l r).turnRight := by
  obtain ⟨cl, h, rfl, hbl, hbr, hc⟩ := hb.children
  refine ⟨h, rfl, ?_⟩
  have hred := hbl.isRed_eq
  have hblack := hbr.isRed_eq
  unfold turnRight
  cases hbl with
  | @red lk lv ll lr _ hll hlr =>
    obtain rfl : c = BLACK := by
      cases c with
      | false => rfl
      | true => cases hc rfl
    exact TurnedRight.rotated hll (Balanced.red hlr hbr)
  | empty =>
    cases hbr with
    | empty => rcases hne with hne | hne <;> cases hne
  | @black lk lv ll lr cl _ hll hlr =>
    have hbl := Balanced.black (k := lk) (v := lv) hll hlr
    by_cases hrl : r.left.isRed = true
    · simpa [hrl] using TurnedRight.lent hbl hbr hrl
    · rw [Bool.not_eq_true] at hrl
      have hturn := turnedRight_moveRedRight (Ready (valueNode k v c (valueNode lk lv BLACK ll lr) r))
        k v c _ r _ hbl hrl hbr ?_
      · simpa [hrl, hblack, hbr.isEmpty_eq] using hturn
      · rintro (hq | hq)
        · exact hq
        · cases hq

/-- A black root over a red right child is entered as it is. -/
theorem RightRed.turned (k : κ) (v : ν) (c : LLRBColor) (l r : LLRBNode κ ν) (n : ℕ)
    (hr : RightRed (valueNode k v c l r) n) :
    c = BLACK ∧ ∃ h, n = heightUnder BLACK h ∧ TurnedRight True k v BLACK h (valueNode k v c l r).turnRight := by
  cases hr with
  | @mk _ _ _ _ h hl hred =>
    refine ⟨rfl, h, rfl, ?_⟩
    have hturn : (valueNode k v BLACK l r).turnRight = valueNode k v BLACK l r := by
      simp [turnRight, hl.isRed_eq, hred.isRed_eq]
    rw [hturn]
    exact TurnedRight.red hl hred

/-- The node after a removal below its right child, `b'` being what is left of the child. -/
theorem TurnedRight.kept (q : Prop) (k : κ) (v : ν) (c : LLRBColor) (h : ℕ) (t b' : LLRBNode κ ν)
    (ht : TurnedRight q k v c h t) (hb : ∀ cr m, Enterable t.right cr m → Kept cr m b') :
    (q → Kept c (heightUnder c h) (t.withRight b').fixUp) ∧ Rootable (t.withRight b').fixUp := by
  have of_kept : ∀ t' : LLRBNode κ ν, Kept c (heightUnder c h) t' →
      (q → Kept c (heightUnder c h) t') ∧ Rootable t' :=
    fun t' hk => ⟨fun _ => hk, hk.rootable⟩
  -- over a black left child the right child may come back in either color
  have of_red : ∀ k' v' a, c = BLACK → Balanced a BLACK h → Kept RED h b' →
      Kept c (heightUnder c h) (valueNode k' v' BLACK a b').fixUp := by
    rintro k' v' a rfl ha ⟨c', hb', -⟩
    obtain ⟨c'', hb'', hc''⟩ := fixUp_black k' v' a b' BLACK c' h ha hb'
    exact ⟨c'', hb'', fun _ => hc'' rfl⟩
  have of_black : ∀ k' v' a, Balanced a BLACK h → Kept BLACK h b' →
      Kept c (heightUnder c h) (valueNode k' v' c a b').fixUp := by
    intro k' v' a ha hb'
    have hb'' := kept_black b' h hb'
    rw [fixUp_of_black k' v' c a b' h BLACK ha hb'']
    exact (balanced_over k' v' c BLACK a b' h ha hb'' fun _ => rfl).kept
  cases ht with
  | red ha hbb =>
    exact of_kept _ (of_red _ _ _ rfl ha (hb RED h (Or.inl ⟨hbb, Or.inl hbb.isRed_eq⟩)))
  | rotated ha hbb =>
    exact of_kept _ (of_red _ _ _ rfl ha (hb RED h (Or.inl ⟨hbb, Or.inl hbb.isRed_eq⟩)))
  | lent ha hbb hbl =>
    exact of_kept _ (of_black _ _ _ ha (hb BLACK h (Or.inl ⟨hbb, Or.inr hbl⟩)))
  | borrowed ha hbb =>
    exact of_kept _ (of_black _ _ _ ha (hb BLACK h (Or.inr ⟨rfl, hbb⟩)))
  | @split _ a b m hq hba hbb =>
    obtain ⟨c', hb', -⟩ := hb RED m (Or.inl ⟨hbb, Or.inl hbb.isRed_eq⟩)
    simp only [withRight]
    cases c with
    | true =>
      obtain ⟨c'', hb'', -⟩ := fixUp_black k v a b' RED c' m hba hb'
      exact of_kept _ ⟨c'', hb'', fun hc => by cases hc⟩
    | false =>
      refine ⟨fun hq' => absurd (hq hq') Bool.false_ne_true, ?_⟩
      rcases fixUp_red k v a b' RED c' m hba hb' with hlean | ⟨-, -, hb''⟩
      · exact hlean.rootable
      · exact hb''.rootable

/-! ## The two descents -/

theorem removeMin_of_left (k : κ) (v : ν) (c : LLRBColor) (l r : LLRBNode κ ν)
    (hl : l.isEmpty = false) :
    (valueNode k v c l r).removeMin =
      ((valueNode k v c l r).turnLeft.withLeft (valueNode k v c l r).turnLeft.left.removeMin).fixUp := by
  rw [removeMin, if_neg (by simp [hl])]
  rfl

theorem min_eq (t : LLRBNode κ ν) (h : t.isEmpty = false) :
    ∃ k v c l r, t.min = valueNode k v c l r ∧ t.entries.head? = some (k, v) := by
  induction t with
  | emptyNode => cases h
  | valueNode k v c l r ihl _ =>
    cases l with
    | emptyNode => exact ⟨k, v, c, emptyNode, r, rfl, rfl⟩
    | valueNode lk lv lc ll lr =>
      obtain ⟨k', v', c', l', r', hmin, hhead⟩ := ihl rfl
      refine ⟨k', v', c', l', r', hmin, ?_⟩
      rw [entries, List.head?_append, hhead]
      rfl

theorem isEmpty_iff (t : LLRBNode κ ν) : t.isEmpty = true ↔ t.entries = [] := by
  cases t <;> simp [entries]

/-- The child a turned node is entered by is smaller than the node was. -/
theorem TurnedLeft.node (q : Prop) (c : LLRBColor) (h : ℕ) (t : LLRBNode κ ν)
    (ht : TurnedLeft q c h t) :
    ∃ k v c' a b, t = valueNode k v c' a b ∧ a.isEmpty = false ∧
      ∃ cl m, Balanced a cl m ∧ Ready a := by
  cases ht with
  | red ha _ =>
    exact ⟨_, _, _, _, _, rfl, isEmpty_of_isRed _ ha.isRed_eq, RED, _, ha, Or.inl ha.isRed_eq⟩
  | lent ha hal _ =>
    exact ⟨_, _, _, _, _, rfl, isEmpty_of_left _ (isEmpty_of_isRed _ hal), BLACK, _, ha, Or.inr hal⟩
  | split _ ha _ =>
    exact ⟨_, _, _, _, _, rfl, isEmpty_of_isRed _ ha.isRed_eq, RED, _, ha, Or.inl ha.isRed_eq⟩

/-- Where the entry `(k, v)` is after the turn, and that the right child can be entered. -/
theorem TurnedRight.node (q : Prop) (k : κ) (v : ν) (c : LLRBColor) (h : ℕ) (t : LLRBNode κ ν)
    (ht : TurnedRight q k v c h t) :
    ∃ k' v' c' a b, t = valueNode k' v' c' a b ∧ b.isEmpty = false ∧
      (k' = k ∧ (∃ cr m, Balanced b cr m ∧ Ready b) ∧
          (∀ k₁ v₁, TurnedRight q k₁ v₁ c h (valueNode k₁ v₁ c' a b)) ∨
        (k, v) ∈ b.entries ∧ b.key = some k ∧ ∃ cr m, Enterable b cr m) := by
  cases ht with
  | red ha hb =>
    exact ⟨_, _, _, _, _, rfl, isEmpty_of_isRed _ hb.isRed_eq,
      Or.inl ⟨rfl, ⟨_, _, hb, Or.inl hb.isRed_eq⟩, fun k₁ v₁ => TurnedRight.red ha hb⟩⟩
  | rotated ha hb =>
    exact ⟨_, _, _, _, _, rfl, rfl,
      Or.inr ⟨by simp [entries], rfl, _, _, Or.inl ⟨hb, Or.inl rfl⟩⟩⟩
  | lent ha hb hbl =>
    exact ⟨_, _, _, _, _, rfl, isEmpty_of_left _ (isEmpty_of_isRed _ hbl),
      Or.inl ⟨rfl, ⟨_, _, hb, Or.inr hbl⟩, fun k₁ v₁ => TurnedRight.lent ha hb hbl⟩⟩
  | borrowed ha hb =>
    exact ⟨_, _, _, _, _, rfl, rfl,
      Or.inr ⟨by simp [entries], rfl, _, _, Or.inr ⟨rfl, hb⟩⟩⟩
  | split hq ha hb =>
    exact ⟨_, _, _, _, _, rfl, isEmpty_of_isRed _ hb.isRed_eq,
      Or.inl ⟨rfl, ⟨_, _, hb, Or.inl hb.isRed_eq⟩, fun k₁ v₁ => TurnedRight.split hq ha hb⟩⟩

/-! ## Removing the minimum -/

/-- A ready tree without its minimum. -/
theorem removeMin_spec (t : LLRBNode κ ν) (c : LLRBColor) (n : ℕ) (hb : Balanced t c n)
    (hr : Ready t) : t.removeMin.entries = t.entries.tail ∧ Kept c n t.removeMin := by
  induction hn : t.count using Nat.strongRecOn generalizing t c n with
  | ind m ih =>
    cases t with
    | emptyNode => rcases hr with hr | hr <;> cases hr
    | valueNode k v c₀ l r =>
      obtain rfl : c₀ = c := hb.isRed_eq
      by_cases hl : l.isEmpty = true
      · rw [removeMin, if_pos hl]
        obtain ⟨cl, h, rfl, hbl, hbr, hc⟩ := hb.children
        cases hbl with
        | red => cases hl
        | black => cases hl
        | empty =>
          obtain rfl := hbr.eq_emptyNode
          refine ⟨rfl, ?_⟩
          rcases hr with hr | hr
          · obtain rfl : c₀ = RED := hr
            exact ⟨BLACK, Balanced.empty, fun _ => rfl⟩
          · cases hr
      · rw [Bool.not_eq_true] at hl
        obtain ⟨h, rfl, ht⟩ := turnedLeft k v c₀ l r n hb hl
        have hent := entries_turnLeft (valueNode k v c₀ l r)
        have hcount := count_eq _ _ hent
        rw [removeMin_of_left k v c₀ l r hl]
        generalize (valueNode k v c₀ l r).turnLeft = t at ht hent hcount ⊢
        have spec : ∀ cl m', Balanced t.left cl m' → Ready t.left →
            t.left.removeMin.entries = t.left.entries.tail ∧ Kept cl m' t.left.removeMin :=
          fun cl m' hbl hrl => ih _ (hn ▸ left_count_lt k v c₀ l r t hcount) _ cl m' hbl hrl rfl
        refine ⟨?_, (ht.kept _ _ _ _ t.left.removeMin fun cl m' hbl hrl => (spec cl m' hbl hrl).2).1 hr⟩
        obtain ⟨k', v', c', a, b, rfl, hne, cl, m', hbl, hrl⟩ := ht.node
        rw [entries_fixUp, ← hent]
        simp only [withLeft, entries, left_valueNode] at spec ⊢
        rw [(spec cl m' hbl hrl).1]
        cases hae : a.entries with
        | nil => simp [(isEmpty_iff a).mpr hae] at hne
        | cons e l => rfl

/-! ## Removing a key -/

variable [LinearOrder κ]

theorem remove_emptyNode (aKey : κ) : (emptyNode : LLRBNode κ ν).remove aKey = emptyNode := by
  rw [remove]

theorem remove_of_lt (aKey k : κ) (v : ν) (c : LLRBColor) (l r : LLRBNode κ ν) (h : aKey < k)
    (hl : l.isEmpty = false) :
    (valueNode k v c l r).remove aKey = ((valueNode k v c l r).turnLeft.withLeft
      ((valueNode k v c l r).turnLeft.left.remove aKey)).fixUp := by
  rw [remove, if_pos (compare_lt_iff_lt.mpr h)]
  simp [hl, turnLeft]

theorem key_any_iff (n : LLRBNode κ ν) (aKey : κ) :
    n.key.any (compare aKey · = .eq) = true ↔ n.key = some aKey := by
  cases n with
  | emptyNode => simp [key]
  | valueNode k _ _ _ _ =>
    simp only [key, Option.any_some, decide_eq_true_eq, Option.some.injEq, compare_eq_iff_eq]
    exact eq_comm

theorem remove_of_not_lt (aKey k : κ) (v : ν) (c : LLRBColor) (l r : LLRBNode κ ν) (h : ¬ aKey < k) :
    (valueNode k v c l r).remove aKey =
      if (valueNode k v c l r).turnRight.key = some aKey then
        if (valueNode k v c l r).turnRight.right.isEmpty then emptyNode
        else (((valueNode k v c l r).turnRight.withEntry (valueNode k v c l r).turnRight.right.min).withRight
          ((valueNode k v c l r).turnRight.right.removeMin.remove aKey)).fixUp
      else ((valueNode k v c l r).turnRight.withRight
        ((valueNode k v c l r).turnRight.right.remove aKey)).fixUp := by
  have hturn : (valueNode k v c l r).remove aKey =
      let n := (valueNode k v c l r).turnRight
      if n.key.any (compare aKey · = .eq) then
        if n.right.isEmpty then emptyNode
        else
          let n := (n.withEntry n.right.min).withRight n.right.removeMin
          (n.withRight (n.right.remove aKey)).fixUp
      else (n.withRight (n.right.remove aKey)).fixUp := by
    rw [remove, if_neg fun hlt => h (compare_lt_iff_lt.mp hlt)]
    rfl
  rw [hturn]
  generalize (valueNode k v c l r).turnRight = n
  simp only [key_any_iff]
  by_cases hr : n.right.isEmpty = true
  · rw [if_pos hr, if_pos hr]
  · rw [if_neg hr, if_neg hr, right_withRight _ _ (by simpa [right_withEntry] using hr)]
    generalize n.withEntry n.right.min = n'
    cases n' <;> rfl

/-- Where the key is below all others the walk runs down the left edge and back without a trace. -/
theorem remove_of_below (t : LLRBNode κ ν) (c : LLRBColor) (n : ℕ) (aKey : κ) (hb : Balanced t c n)
    (hk : ∀ e ∈ t.entries, aKey < e.1) :
    (t.remove aKey).entries = t.entries ∧ Balanced (t.remove aKey) c n := by
  induction hn : t.count using Nat.strongRecOn generalizing t c n with
  | ind m ih =>
    cases t with
    | emptyNode =>
      rw [remove_emptyNode]
      exact ⟨rfl, hb⟩
    | valueNode k v c₀ l r =>
      obtain rfl : c₀ = c := hb.isRed_eq
      have hlt : aKey < k := hk (k, v) (by simp [entries])
      by_cases hl : l.isEmpty = true
      · obtain ⟨cl, h, rfl, hbl, hbr, hc⟩ := hb.children
        have heq : (valueNode k v c₀ l r).remove aKey = (valueNode k v c₀ l r).fixUp := by
          rw [remove, if_pos (compare_lt_iff_lt.mpr hlt)]
          cases l with
          | emptyNode => simp [remove_emptyNode, withLeft]
          | valueNode => cases hl
        rw [heq, fixUp_of_black k v c₀ l r h cl hbl hbr]
        exact ⟨rfl, hb⟩
      · rw [Bool.not_eq_true] at hl
        obtain ⟨h, rfl, ht⟩ := turnedLeft k v c₀ l r n hb hl
        have hent := entries_turnLeft (valueNode k v c₀ l r)
        have hcount := count_eq _ _ hent
        rw [remove_of_lt aKey k v c₀ l r hlt hl, entries_fixUp, ← hent]
        rw [← hent] at hk
        generalize (valueNode k v c₀ l r).turnLeft = t at ht hk hcount ⊢
        have spec : ∀ cl m', Balanced t.left cl m' → (∀ e ∈ t.left.entries, aKey < e.1) →
            (t.left.remove aKey).entries = t.left.entries ∧ Balanced (t.left.remove aKey) cl m' :=
          fun cl m' hbl hkl => ih _ (hn ▸ left_count_lt k v c₀ l r t hcount) _ cl m' hbl hkl rfl
        obtain ⟨k', v', c', a, b, rfl, -, cl, m', hbl, -⟩ := ht.node
        simp only [withLeft, left_valueNode, entries, List.mem_append] at spec hk ⊢
        have hka : ∀ e ∈ a.entries, aKey < e.1 := fun e he => hk e (Or.inl he)
        refine ⟨by rw [(spec cl m' hbl hka).1], ?_⟩
        cases ht with
        | red ha hbb =>
          have ha' := (spec _ _ ha hka).2
          rw [fixUp_of_black k' v' BLACK _ b h RED ha' hbb]
          exact Balanced.black ha' hbb
        | lent ha _ hbb =>
          have ha' := (spec _ _ ha hka).2
          rw [fixUp_of_black k' v' c₀ _ b h BLACK ha' hbb]
          exact balanced_over k' v' c₀ BLACK _ b h ha' hbb fun _ => rfl
        | split _ ha hbb =>
          have ha' := (spec _ _ ha hka).2
          rw [fixUp_of_red_red k' v' (!c₀) _ b _ ha' hbb, Bool.not_not]
          exact balanced_over k' v' c₀ BLACK _ _ _ (ha'.recolored _ _) (hbb.recolored _ _) fun _ => rfl

/-- `remove` does its work on a tree it may enter. -/
def Removes (aKey : κ) (t : LLRBNode κ ν) : Prop :=
  ∀ c n, Enterable t c n → (RightRed t n → ∀ k, t.key = some k → k ≤ aKey) → Ascending t.entries →
    (∃ v, (aKey, v) ∈ t.entries) →
    (t.remove aKey).entries = below aKey t.entries ++ above aKey t.entries ∧ Kept c n (t.remove aKey)

theorem remove_step_left (aKey k : κ) (v : ν) (c : LLRBColor) (l r : LLRBNode κ ν) (n : ℕ)
    (hb : Balanced (valueNode k v c l r) c n) (hlt : aKey < k)
    (hs : Ascending (valueNode k v c l r).entries) (hm : ∃ v', (aKey, v') ∈ (valueNode k v c l r).entries)
    (ih : ∀ s : LLRBNode κ ν, s.count < (valueNode k v c l r).count → Removes aKey s) :
    ((valueNode k v c l r).remove aKey).entries = below aKey (valueNode k v c l r).entries ++
        above aKey (valueNode k v c l r).entries ∧
      (Ready (valueNode k v c l r) → Kept c n ((valueNode k v c l r).remove aKey)) ∧
      Rootable ((valueNode k v c l r).remove aKey) := by
  obtain ⟨v', hmem⟩ := hm
  have hl : l.isEmpty = false := by
    have hmem' : (aKey, v') ∈ l.entries := mem_left_of_lt _ _ (k, v) hs _ hmem hlt
    cases l with
    | emptyNode => cases hmem'
    | valueNode => rfl
  obtain ⟨h, rfl, ht⟩ := turnedLeft k v c l r n hb hl
  have hent := entries_turnLeft (valueNode k v c l r)
  have hcount := count_eq _ _ hent
  have hroot := root_turnLeft k v c l r
  rw [remove_of_lt aKey k v c l r hlt hl, entries_fixUp, ← hent]
  rw [← hent] at hs hmem
  generalize (valueNode k v c l r).turnLeft = t at ht hs hmem hcount hroot ⊢
  have spec := ih t.left (left_count_lt k v c l r t hcount)
  obtain ⟨k', w, c', a, b, rfl, -, cl, m, hbl, hrl⟩ := ht.node
  have hs' : Ascending (a.entries ++ (k', w) :: b.entries) := hs
  have hp := (ascending_pivot_iff _ _ _).mp hs'
  have hlt' : aKey < k' := by
    rcases hroot with hroot | hroot
    · rw [Option.some.inj hroot]
      exact hlt
    · exact lt_trans hlt (hp.2.2.1 (k, v) hroot)
  have hma : ∃ v', (aKey, v') ∈ a.entries := ⟨v', mem_left_of_lt _ _ (k', w) hs' _ hmem hlt'⟩
  have enter : ∀ cl m, Balanced a cl m → Ready a →
      (a.remove aKey).entries = below aKey a.entries ++ above aKey a.entries ∧
        Kept cl m (a.remove aKey) := fun cl m hba hra =>
    spec cl m (Or.inl ⟨hba, hra⟩) (fun hrr => absurd hrr (hba.not_rightRed a cl m m)) hp.1 hma
  refine ⟨?_, ht.kept _ _ _ _ _ fun cl m hba hra => (enter cl m hba hra).2⟩
  rw [withLeft, left_valueNode, entries, entries, (enter cl m hbl hrl).1,
    below_of_lt aKey _ _ _ hs' hlt', above_of_lt aKey _ _ _ hs' hlt', List.append_assoc]

/-- The entry itself goes: its successor takes its place, and is taken out to the right. -/
theorem remove_here (q : Prop) (k : κ) (w : ν) (c c' : LLRBColor) (a b : LLRBNode κ ν) (h : ℕ) (cr : LLRBColor)
    (m : ℕ) (hbb : Balanced b cr m) (hrb : Ready b) (hbe : b.isEmpty = false)
    (hs : Ascending (a.entries ++ (k, w) :: b.entries))
    (hany : ∀ k₁ v₁, TurnedRight q k₁ v₁ c h (valueNode k₁ v₁ c' a b)) :
    (((valueNode k w c' a b).withEntry b.min).withRight (b.removeMin.remove k)).fixUp.entries =
        below k (valueNode k w c' a b).entries ++ above k (valueNode k w c' a b).entries ∧
      (q → Kept c (heightUnder c h)
        (((valueNode k w c' a b).withEntry b.min).withRight (b.removeMin.remove k)).fixUp) ∧
      Rootable (((valueNode k w c' a b).withEntry b.min).withRight (b.removeMin.remove k)).fixUp := by
  have hp := (ascending_pivot_iff _ _ _).mp hs
  obtain ⟨mk, mv, mc, ml, mr, hmin, hhead⟩ := min_eq b hbe
  have hcons : b.entries = (mk, mv) :: b.entries.tail := (List.cons_head?_tail hhead).symm
  -- below the successor there is nothing, so the removal walks down the left edge
  have low : ∀ cr m, Balanced b cr m → (b.removeMin.remove k).entries = b.entries.tail ∧
      Kept cr m (b.removeMin.remove k) := by
    intro cr m hbb
    obtain ⟨htail, c'', hb'', hc''⟩ := removeMin_spec b cr m hbb hrb
    have hbelow : ∀ e ∈ b.removeMin.entries, k < e.1 := by
      intro e he
      rw [htail] at he
      exact hp.2.2.2 e (List.mem_of_mem_tail he)
    obtain ⟨heq, hbal⟩ := remove_of_below b.removeMin c'' m k hb'' hbelow
    exact ⟨heq.trans htail, c'', hbal, hc''⟩
  have hkept := (hany mk mv).kept q mk mv c h _ (b.removeMin.remove k) fun cr' m' he =>
    (low cr' m' (he.of_balanced b cr cr' m m' hbb).1).2
  rw [hmin]
  refine ⟨?_, hkept⟩
  have hbelow : below k (valueNode k w c' a b).entries = a.entries := below_of_eq _ _ _ hs
  have habove : above k (valueNode k w c' a b).entries = b.entries := above_of_eq _ _ _ hs
  rw [entries_fixUp, hbelow, habove, hcons]
  simp only [withEntry, withRight, entries, (low cr m hbb).1]

theorem remove_step_right (q : Prop) (aKey k : κ) (v : ν) (c : LLRBColor) (l r : LLRBNode κ ν) (h : ℕ)
    (ht : TurnedRight q k v c h (valueNode k v c l r).turnRight) (hge : ¬ aKey < k)
    (hs : Ascending (valueNode k v c l r).entries) (hm : ∃ v', (aKey, v') ∈ (valueNode k v c l r).entries)
    (ih : ∀ s : LLRBNode κ ν, s.count < (valueNode k v c l r).count → Removes aKey s) :
    ((valueNode k v c l r).remove aKey).entries = below aKey (valueNode k v c l r).entries ++
        above aKey (valueNode k v c l r).entries ∧
      (q → Kept c (heightUnder c h) ((valueNode k v c l r).remove aKey)) ∧
      Rootable ((valueNode k v c l r).remove aKey) := by
  obtain ⟨v', hmem⟩ := hm
  have hent := entries_turnRight (valueNode k v c l r)
  have hcount := count_eq _ _ hent
  rw [remove_of_not_lt aKey k v c l r hge, ← hent]
  rw [← hent] at hs hmem
  generalize (valueNode k v c l r).turnRight = t at ht hs hmem hcount ⊢
  have spec := ih t.right (right_count_lt k v c l r t hcount)
  obtain ⟨k', w, c', a, b, rfl, hbe, hnode⟩ := ht.node
  have hs' : Ascending (a.entries ++ (k', w) :: b.entries) := hs
  have hp := (ascending_pivot_iff _ _ _).mp hs'
  rw [right_valueNode] at spec
  by_cases hk : k' = aKey
  · subst hk
    have hkey : (valueNode k' w c' a b).key = some k' := rfl
    have hne : ¬ (valueNode k' w c' a b).right.isEmpty = true := by simp [hbe]
    rw [if_pos hkey, if_neg hne, right_valueNode]
    rcases hnode with ⟨rfl, ⟨cr, m, hbb, hrb⟩, hany⟩ | ⟨hkb, -⟩
    · exact remove_here q k' w c c' a b h cr m hbb hrb hbe hs' hany
    · exact absurd (hp.2.2.2 (k, v) hkb) hge
  · have hkey : ¬ (valueNode k' w c' a b).key = some aKey := fun h => hk (Option.some.inj h)
    rw [if_neg hkey, right_valueNode]
    have hgt : k' < aKey := by
      have hle : k' ≤ k := by
        rcases hnode with ⟨rfl, -⟩ | ⟨hkb, -⟩
        · exact le_refl _
        · exact le_of_lt (hp.2.2.2 (k, v) hkb)
      exact lt_of_le_of_ne (le_trans hle (not_lt.mp hge)) hk
    have hmb : ∃ v', (aKey, v') ∈ b.entries := ⟨v', mem_right_of_gt _ _ (k', w) hs' _ hmem hgt⟩
    have enter : ∀ cr m, Enterable b cr m →
        (b.remove aKey).entries = below aKey b.entries ++ above aKey b.entries ∧
          Kept cr m (b.remove aKey) := by
      intro cr m he
      refine spec cr m he ?_ hp.2.1 hmb
      intro hrr k₁ hk₁
      rcases hnode with ⟨-, ⟨cr', m', hbb, -⟩, -⟩ | ⟨-, hkey, -⟩
      · exact absurd hrr (hbb.not_rightRed b cr' m' m)
      · rw [hkey] at hk₁
        exact Option.some.inj hk₁ ▸ not_lt.mp hge
    refine ⟨?_, ht.kept _ _ _ _ _ _ _ fun cr m he => (enter cr m he).2⟩
    obtain ⟨cr, m, he⟩ : ∃ cr m, Enterable b cr m := by
      rcases hnode with ⟨-, ⟨cr, m, hbb⟩, -⟩ | ⟨-, -, he⟩
      · exact ⟨cr, m, Or.inl hbb⟩
      · exact he
    have hbelow : below aKey (valueNode k' w c' a b).entries =
        a.entries ++ (k', w) :: below aKey b.entries := below_of_gt aKey _ _ _ hs' hgt
    have habove : above aKey (valueNode k' w c' a b).entries = above aKey b.entries :=
      above_of_gt aKey _ _ _ hs' hgt
    rw [entries_fixUp, hbelow, habove]
    simp only [withRight, entries, (enter cr m he).1, List.append_assoc, List.cons_append]

/-- A lone node goes away. -/
theorem remove_lone (k : κ) (v : ν) (c : LLRBColor) :
    (valueNode k v c emptyNode emptyNode).remove k = emptyNode := by
  have hkey : (valueNode k v c emptyNode emptyNode).turnRight.key = some k := rfl
  have hright : (valueNode k v c emptyNode emptyNode).turnRight.right.isEmpty = true := rfl
  rw [remove_of_not_lt _ _ _ _ _ _ (lt_irrefl _), if_pos hkey, if_pos hright]

/-- One step of a removal from a balanced tree, whether its root has a red link or not. -/
theorem remove_step (aKey k : κ) (v : ν) (c : LLRBColor) (l r : LLRBNode κ ν) (n : ℕ)
    (hb : Balanced (valueNode k v c l r) c n) (hs : Ascending (valueNode k v c l r).entries)
    (hm : ∃ v', (aKey, v') ∈ (valueNode k v c l r).entries)
    (ih : ∀ s : LLRBNode κ ν, s.count < (valueNode k v c l r).count → Removes aKey s) :
    ((valueNode k v c l r).remove aKey).entries = below aKey (valueNode k v c l r).entries ++
        above aKey (valueNode k v c l r).entries ∧
      (Ready (valueNode k v c l r) → Kept c n ((valueNode k v c l r).remove aKey)) ∧
      Rootable ((valueNode k v c l r).remove aKey) := by
  by_cases hlt : aKey < k
  · exact remove_step_left aKey k v c l r n hb hlt hs hm ih
  · by_cases hne : l.isEmpty = false ∨ r.isEmpty = false
    · obtain ⟨h, rfl, ht⟩ := turnedRight k v c l r n hb hne
      exact remove_step_right _ aKey k v c l r h ht hlt hs hm ih
    · rw [not_or, Bool.not_eq_false, Bool.not_eq_false] at hne
      have hl : l = emptyNode := by
        cases l with
        | emptyNode => rfl
        | valueNode => cases hne.1
      have hr : r = emptyNode := by
        cases r with
        | emptyNode => rfl
        | valueNode => cases hne.2
      subst hl hr
      obtain ⟨v', hmem⟩ := hm
      obtain ⟨rfl, rfl⟩ : aKey = k ∧ v' = v := by simpa [entries] using hmem
      rw [remove_lone]
      refine ⟨by simp [entries, below, above], ?_, 0, Balanced.empty⟩
      rintro (hc | hc)
      · obtain rfl : c = RED := hc
        cases hb with
        | red hl _ =>
          cases hl
          exact ⟨BLACK, Balanced.empty, fun _ => rfl⟩
      · cases hc

/-- Every tree a removal may enter loses exactly the key and keeps its black nodes. -/
theorem removes (aKey : κ) (t : LLRBNode κ ν) : Removes aKey t := by
  induction hn : t.count using Nat.strongRecOn generalizing t with
  | ind m ih =>
    intro c n he hkey hs hm
    cases t with
    | emptyNode =>
      obtain ⟨v, hv⟩ := hm
      cases hv
    | valueNode k v c₀ l r =>
      have smaller : ∀ s : LLRBNode κ ν, s.count < (valueNode k v c₀ l r).count → Removes aKey s :=
        fun s hlt => ih _ (hn ▸ hlt) s rfl
      rcases he with ⟨hb, hr⟩ | ⟨rfl, hr⟩
      · obtain rfl : c₀ = c := hb.isRed_eq
        obtain ⟨hent, hkept, -⟩ := remove_step aKey k v c₀ l r n hb hs hm smaller
        exact ⟨hent, hkept hr⟩
      · obtain ⟨rfl, h, rfl, ht⟩ := hr.turned
        have hge : ¬ aKey < k := not_lt.mpr (hkey hr k rfl)
        obtain ⟨hent, hkept, -⟩ := remove_step_right True aKey k v BLACK l r h ht hge hs hm smaller
        exact ⟨hent, hkept trivial⟩

/-- A balanced tree loses exactly the key, and its root only has to be colored black. -/
theorem remove_spec (aKey : κ) (t : LLRBNode κ ν) (c : LLRBColor) (n : ℕ) (hb : Balanced t c n)
    (hs : Ascending t.entries) (hm : ∃ v, (aKey, v) ∈ t.entries) :
    (t.remove aKey).entries = below aKey t.entries ++ above aKey t.entries ∧
      Rootable (t.remove aKey) := by
  cases t with
  | emptyNode =>
    obtain ⟨v, hv⟩ := hm
    cases hv
  | valueNode k v c₀ l r =>
    obtain rfl : c₀ = c := hb.isRed_eq
    obtain ⟨hent, -, hroot⟩ := remove_step aKey k v c₀ l r n hb hs hm fun s _ => removes aKey s
    exact ⟨hent, hroot⟩

end LLRBNode

end FlowerGift
