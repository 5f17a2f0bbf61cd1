import FlowerGift.Client.LLRBBalance

/-!
# Inserting into the search tree

`insertKey` lists the new entry at its place (`entries_insertKey`) and, from a
balanced tree, leaves one whose root only has to be colored black
(`rootable_insertKey`).
-/

namespace FlowerGift

open Realtime

namespace LLRBNode

variable {κ ν : Type} [LinearOrder κ]

theorem entries_insertKey (t : LLRBNode κ ν) (k : κ) (v : ν) (h : Ascending t.entries) :
    (t.insertKey k v).entries = below k t.entries ++ (k, v) :: above k t.entries := by
  induction t with
  | emptyNode => rfl
  | valueNode k' v' c l r ihl ihr =>
    have hp := (ascending_pivot_iff l.entries r.entries (k', v')).mp h
    rw [insertKey, entries_fixUp]
    simp only [entries] at h ⊢
    cases hcmp : compare k k' with
    | lt =>
      have hk : k < k' := compare_lt_iff_lt.mp hcmp
      rw [below_of_lt k _ _ _ h hk, above_of_lt k _ _ _ h hk]
      simp only [entries, ihl hp.1, List.append_assoc, List.cons_append]
    | eq =>
      obtain rfl : k = k' := compare_eq_iff_eq.mp hcmp
      rw [below_of_eq _ _ _ h, above_of_eq _ _ _ h]
      rfl
    | gt =>
      have hk : k' < k := compare_gt_iff_gt.mp hcmp
      rw [below_of_gt k _ _ _ h hk, above_of_gt k _ _ _ h hk]
      simp only [entries, ihr hp.2.1, List.append_assoc, List.cons_append]

/-- Inserting below a red root may leave it with a red left child, below a black root it keeps the
balance and the number of black nodes. -/
theorem insertKey_balance (t : LLRBNode κ ν) (c : LLRBColor) (n : ℕ) (k : κ) (v : ν)
    (h : Balanced t c n) :
    (c = RED → Leaning (t.insertKey k v) n) ∧
      (c = BLACK → ∃ c', Balanced (t.insertKey k v) c' n) := by
  induction h with
  | empty => exact ⟨fun hc => (by cases hc), fun _ => ⟨RED, Balanced.red Balanced.empty Balanced.empty⟩⟩
  | @red k' v' l r n hl hr ihl ihr =>
    refine ⟨fun _ => ?_, fun hc => (by cases hc)⟩
    rw [insertKey]
    cases compare k k' with
    | lt =>
      obtain ⟨c', hl'⟩ := ihl.2 rfl
      rcases fixUp_red k' v' _ r c' BLACK n hl' hr with h | ⟨-, hc, -⟩
      · exact h
      · cases hc
    | eq =>
      rcases fixUp_red k' v l r BLACK BLACK n hl hr with h | ⟨hc, -⟩
      · exact h
      · cases hc
    | gt =>
      obtain ⟨c', hr'⟩ := ihr.2 rfl
      rcases fixUp_red k' v' l _ BLACK c' n hl hr' with h | ⟨hc, -⟩
      · exact h
      · cases hc
  | @black k' v' l r c n hl hr ihl ihr =>
    refine ⟨fun hc => (by cases hc), fun _ => ?_⟩
    rw [insertKey]
    cases compare k k' with
    | lt =>
      cases c with
      | true => exact fixUp_leaning k' v' _ r n (ihl.1 rfl) hr
      | false =>
        obtain ⟨c', hl'⟩ := ihl.2 rfl
        obtain ⟨c'', hb, -⟩ := fixUp_black k' v' _ r c' BLACK n hl' hr
        exact ⟨c'', hb⟩
    | eq =>
      obtain ⟨c', hb, -⟩ := fixUp_black k' v l r c BLACK n hl hr
      exact ⟨c', hb⟩
    | gt =>
      obtain ⟨cr, hr'⟩ := ihr.2 rfl
      obtain ⟨c', hb, -⟩ := fixUp_black k' v' l _ c cr n hl hr'
      exact ⟨c', hb⟩

theorem rootable_insertKey (t : LLRBNode κ ν) (c : LLRBColor) (n : ℕ) (k : κ) (v : ν)
    (h : Balanced t c n) : Rootable (t.insertKey k v) := by
  cases c with
  | true => exact ((insertKey_balance t RED n k v h).1 rfl).rootable
  | false =>
    obtain ⟨c', hb⟩ := (insertKey_balance t BLACK n k v h).2 rfl
    exact hb.rootable

end LLRBNode

end FlowerGift
