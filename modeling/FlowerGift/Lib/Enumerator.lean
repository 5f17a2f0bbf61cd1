import Mathlib.Data.List.Basic

/-!
# Enumerators

An enumerator answers `nextObject` again and again: an object and its own next
state, or nothing.  `Lists next remaining` says that what it still has to give is
the list `remaining`, in the terms of one call; then the answers to any number
of calls are that list, and nothing for ever after it (`answers_eq`).
-/

namespace Realtime

variable {σ α : Type}

/-- The answers to the next `n` calls. -/
def answers (next : σ → Option α × σ) : ℕ → σ → List (Option α)
  | 0, _ => []
  | n + 1, s => (next s).1 :: answers next n (next s).2

/-- One call gives the first remaining object away, and nothing else changes. -/
structure Lists (next : σ → Option α × σ) (remaining : σ → List α) : Prop where
  gives (s : σ) : (next s).1 = (remaining s).head?
  leaves (s : σ) : remaining (next s).2 = (remaining s).tail

theorem answers_eq (next : σ → Option α × σ) (remaining : σ → List α) (h : Lists next remaining)
    (n : ℕ) (s : σ) : answers next n s = (List.range n).map ((remaining s)[·]?) := by
  induction n generalizing s with
  | zero => rfl
  | succ n ih =>
    rw [answers, ih, h.gives, h.leaves, List.range_succ_eq_map, List.map_cons, List.map_map,
      List.head?_eq_getElem?]
    congr 1
    apply List.map_congr_left
    intro i _
    exact List.getElem?_tail

end Realtime
