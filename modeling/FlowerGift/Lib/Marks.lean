import Mathlib.Data.List.Basic

/-!
# Marks that are drawn now and then

Every item of a list carries a mark: what a predicate said of its key when the
mark was drawn (`marks`).  The predicate changes later; the marks do not, until
they are drawn again, all of them or that of the first item with a key (`remark`).

When the predicate `p` has become `q`:

    marks key p l = marks key q l ↔ they agree on the keys of l     (marks_eq_iff)
    marking the first item with k anew makes all marks right iff
      k occurs at most once, if `p` and `q` differ at k only        (remark_marks_iff)
-/

namespace Realtime

variable {α κ : Type} (key : α → κ)

def marks (p : κ → Bool) (l : List α) : List Bool := l.map fun a => p (key a)

theorem marks_cons (p : κ → Bool) (a : α) (l : List α) :
    marks key p (a :: l) = p (key a) :: marks key p l := rfl

theorem marks_eq_iff (p q : κ → Bool) (l : List α) :
    marks key p l = marks key q l ↔ ∀ k ∈ l.map key, p k = q k := by
  unfold marks
  rw [List.map_inj_left, List.forall_mem_map]

variable [DecidableEq κ]

/-- The first item with key `k` gets the mark `v`. -/
def remark (k : κ) (v : Bool) (l : List α) (ms : List Bool) : List Bool :=
  match l.findIdx? fun a => key a = k with
  | some n => ms.set n v
  | none => ms

/-- The first item with another key keeps its mark. -/
theorem remark_cons_of_ne (k : κ) (v m : Bool) (a : α) (l : List α) (ms : List Bool) (h : key a ≠ k) :
    remark key k v (a :: l) (m :: ms) = m :: remark key k v l ms := by
  unfold remark
  rw [List.findIdx?_cons, if_neg (by simpa using h)]
  cases l.findIdx? fun a => key a = k <;> rfl

theorem remark_cons_self (v m : Bool) (a : α) (l : List α) (ms : List Bool) :
    remark key (key a) v (a :: l) (m :: ms) = v :: ms := by
  unfold remark
  rw [List.findIdx?_cons, if_pos (by simp)]
  rfl

theorem remark_marks_iff (p q : κ → Bool) (k : κ) (hk : q k ≠ p k) (hq : ∀ k', k' ≠ k → q k' = p k')
    (l : List α) :
    remark key k (q k) l (marks key p l) = marks key q l ↔ (l.map key).count k ≤ 1 := by
  induction l with
  | nil => simp [remark, marks]
  | cons a l ih =>
    rw [List.map_cons, List.count_cons]
    by_cases ha : key a = k
    · -- the first one is marked anew, so the others must not have the key
      subst ha
      have hrest : marks key p l = marks key q l ↔ key a ∉ l.map key := by
        rw [marks_eq_iff]
        constructor
        · exact fun h hmem => hk (h _ hmem).symm
        · exact fun h k' hk' => (hq k' fun he => h (he ▸ hk')).symm
      have hstep : remark key (key a) (q (key a)) (a :: l) (marks key p (a :: l)) =
          q (key a) :: marks key p l := remark_cons_self key _ _ a l _
      rw [hstep, marks_cons, List.cons_inj_right, hrest, ← List.count_eq_zero]
      simp
    · have hstep : remark key k (q k) (a :: l) (marks key p (a :: l)) =
          q (key a) :: remark key k (q k) l (marks key p l) := by
        rw [hq _ ha]
        exact remark_cons_of_ne key k _ _ a l _ ha
      rw [hstep, if_neg (by simpa using ha), Nat.add_zero, ← ih]
      exact List.cons_inj_right _

end Realtime
