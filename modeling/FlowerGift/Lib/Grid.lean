import Mathlib.Logic.Function.Basic
import Mathlib.Data.List.GetD

/-!
# An array shown in cells

A collection view shows an array that its owner changes on his own.  A `Grid`
is both: the array (`items`), the array as of the last reload (`rows`, so
`rows.length` is the number of cells), and what each cell was filled with since
then.  Between two reloads the view asks for, and accepts taps on, the cells
below `rows.length`, and the owner answers from `items`:

* `reload`: the array is set and the view told at once;
* `clear`: the array is emptied and the view not told;
* `fill`: cell `j` is filled from the array.

`Sound stale` is kept by all of these (`Sound.moves`), where `stale` says that
the last of `reload` and `clear` was a `clear`.  A cell finds its item iff the
grid is not stale (`resolves_iff`).

A program has many grids: owners in a list, each with the grid that it makes of
its cells (`moves_append`, `moves_set_clear`, `moves_set_reload`).
-/

namespace Realtime

structure Grid (α : Type) where
  items : List α := []
  rows : List α := []
  cells : ℕ → Option α := fun _ => none

namespace Grid

variable {α : Type} (g : Grid α)

def reload (items : List α) : Grid α where
  items
  rows := items

def clear : Grid α := { g with items := [] }

def fill (j : ℕ) (a : α) : Grid α := { g with cells := Function.update g.cells j (some a) }

/-- The array has an item at `j`, and it is the one that cell `j` shows. -/
def Resolves (j : ℕ) : Prop :=
  ∃ a, g.items[j]? = some a ∧ g.rows[j]? = some a ∧ ∀ b, g.cells j = some b → b = a

/-- The steps of a grid, with the flag that it is stale. -/
inductive Moves (stale : Bool) : Grid α → Bool → Prop
  | same : Moves stale g stale
  | clear : Moves stale g.clear true
  | reload (items : List α) : Moves stale (Grid.reload items) false
  | fill (j : ℕ) (a : α) (hj : j < g.rows.length) (ha : g.items[j]? = some a) :
    Moves stale (g.fill j a) stale

structure Sound (stale : Bool) : Prop where
  fresh : stale = false → g.items = g.rows
  gone : stale = true → g.items = []
  cells : ∀ j a, g.cells j = some a → g.rows[j]? = some a

theorem sound_empty : Sound ({} : Grid α) false where
  fresh := fun _ => rfl
  gone := fun _ => rfl
  cells := fun _ _ h => absurd h (Option.some_ne_none _).symm

theorem Sound.moves (g' : Grid α) (stale stale' : Bool) (hs : g.Sound stale)
    (h : g.Moves stale g' stale') : g'.Sound stale' := by
  cases h with
  | same => exact hs
  | clear => exact ⟨fun h => absurd h.symm Bool.false_ne_true, fun _ => rfl, hs.cells⟩
  | reload items =>
    exact ⟨fun _ => rfl, fun h => absurd h Bool.false_ne_true,
      fun _ _ h => absurd h (Option.some_ne_none _).symm⟩
  | fill j a hj ha =>
    refine ⟨hs.fresh, hs.gone, fun k b hb => ?_⟩
    simp only [fill] at hb ⊢
    by_cases hk : k = j
    · subst hk
      rw [Function.update_self] at hb
      cases hb
      -- a stale array is empty, so it cannot have filled the cell
      cases hstale : stale with
      | false => rw [← hs.fresh hstale, ha]
      | true =>
        rw [hs.gone hstale] at ha
        cases ha
    · rw [Function.update_of_ne hk] at hb
      exact hs.cells k b hb

theorem Sound.length_le (stale : Bool) (hs : g.Sound stale) : g.items.length ≤ g.rows.length := by
  cases stale with
  | false => exact Nat.le_of_eq (congrArg List.length (hs.fresh rfl))
  | true =>
    rw [hs.gone rfl]
    exact Nat.zero_le _

/-- **A cell finds its item iff the grid is not stale.** -/
theorem resolves_iff (stale : Bool) (hs : g.Sound stale) (j : ℕ) (hj : j < g.rows.length) :
    g.Resolves j ↔ stale = false := by
  constructor
  · rintro ⟨a, ha, -, -⟩
    by_contra hstale
    rw [hs.gone (by simpa using hstale)] at ha
    cases ha
  · intro hstale
    have hrow : g.rows[j]? = some g.rows[j] := List.getElem?_eq_getElem hj
    refine ⟨g.rows[j], ?_, hrow, fun b hb => ?_⟩
    · rw [hs.fresh hstale, hrow]
    · exact Option.some.inj ((hs.cells j b hb).symm.trans hrow)

/-! ## A list of owners -/

/-- The cells after a step: a reload asks for all of them anew. -/
def forget (reloaded : Bool) (cells : ℕ → Option α) : ℕ → Option α :=
  if reloaded then fun _ => none else cells

/-- The flag after a step. -/
def outdated (cleared reloaded stale : Bool) : Bool :=
  if cleared then true else if reloaded then false else stale

section
variable {β : Type} (grid : β → (ℕ → Option α) → Grid α) (owners : List β) (blank : β)
  (i j : ℕ) (cells : ℕ → Option α) (stale : Bool)

/-- A new owner shows what one that is not there shows. -/
theorem moves_append (b : β) (hb : grid b cells = grid blank cells) :
    (grid (owners.getD i blank) cells).Moves stale (grid ((owners ++ [b]).getD i blank) cells)
      stale := by
  have hsame : grid ((owners ++ [b]).getD i blank) cells = grid (owners.getD i blank) cells := by
    by_cases hi : i < owners.length
    · rw [List.getD_append _ _ _ _ hi]
    · rw [List.getD_append_right _ _ _ _ (by omega), List.getD_eq_default owners _ (by omega)]
      cases i - owners.length with
      | zero => exact hb
      | succ n => rfl
  rw [hsame]
  exact .same

theorem getD_set (b : β) (hj : j < owners.length) :
    (owners.set j b).getD i blank = if j = i then b else owners.getD i blank := by
  rw [List.getD_eq_getElem?_getD, List.getD_eq_getElem?_getD, List.getElem?_set]
  by_cases hji : j = i
  · rw [if_pos hji, if_pos hji, if_pos hj]
    rfl
  · rw [if_neg hji, if_neg hji]

/-- Owner `j` empties his array. -/
theorem moves_set_clear (b b' : β) (hj : owners[j]? = some b)
    (hclear : grid b' cells = (grid b cells).clear) :
    (grid (owners.getD i blank) cells).Moves stale (grid ((owners.set j b').getD i blank) cells)
      (outdated (j = i) false stale) := by
  obtain ⟨hlt, hget⟩ := List.getElem?_eq_some_iff.mp hj
  rw [getD_set owners blank i j b' hlt]
  by_cases hji : j = i
  · subst hji
    rw [if_pos rfl, hclear, List.getD_eq_getElem _ _ hlt, hget]
    simpa [outdated] using Moves.clear
  · rw [if_neg hji]
    simpa [outdated, hji] using Moves.same

/-- Owner `j` sets his array and reloads. -/
theorem moves_set_reload (b' : β) (items : List α) (hlt : j < owners.length)
    (hreload : grid b' (fun _ => none) = Grid.reload items) :
    (grid (owners.getD i blank) cells).Moves stale
      (grid ((owners.set j b').getD i blank) (forget (j = i) cells)) (outdated false (j = i) stale) := by
  rw [getD_set owners blank i j b' hlt]
  by_cases hji : j = i
  · subst hji
    simpa [outdated, forget, hreload] using Moves.reload items
  · simpa [outdated, forget, hji] using Moves.same

end

end Grid

end Realtime
