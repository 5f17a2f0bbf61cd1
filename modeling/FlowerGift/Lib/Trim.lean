import Mathlib.Data.List.DropRight

/-!
# Trimming both ends of a list

`trim p l` drops the longest prefix and the longest suffix of letters in `p`.

    trim p l = [] ↔ ∀ a ∈ l, p a                                   (trim_eq_nil_iff)
    trim p l = l ↔ the first and the last letter are not in p      (trim_eq_self_iff)
    the first and the last letter of trim p l are not in p         (bare_trim)
-/

namespace Texts

variable {α : Type} (p : α → Bool)

def trim (l : List α) : List α := (l.dropWhile p).rdropWhile p

theorem trim_eq_nil_iff (l : List α) : trim p l = [] ↔ ∀ a ∈ l, p a = true := by
  unfold trim
  rw [List.rdropWhile_eq_nil_iff]
  constructor
  · intro h a ha
    rw [← List.takeWhile_append_dropWhile (p := p) (l := l), List.mem_append] at ha
    rcases ha with ha | ha
    · exact List.mem_takeWhile_imp ha
    · exact h a ha
  · intro h a ha
    exact h a ((List.dropWhile_suffix p).subset ha)

/-- Neither end of the list is in `p`. -/
def Bare (l : List α) : Prop :=
  (∀ a, l.head? = some a → p a = false) ∧ ∀ a, l.getLast? = some a → p a = false

instance (l : List α) : Decidable (Bare p l) :=
  decidable_of_iff ((l.head?.all fun a => !p a) ∧ (l.getLast?.all fun a => !p a)) (by
    unfold Bare
    cases l.head? <;> cases l.getLast? <;> simp)

theorem trim_eq_self_iff (l : List α) : trim p l = l ↔ Bare p l := by
  cases l with
  | nil => simp [trim, Bare]
  | cons b l =>
    constructor
    · intro h
      -- both drops only shorten, so neither of them does anything
      have hpre := List.rdropWhile_prefix p (l := (b :: l).dropWhile p)
      have hlen := hpre.length_le
      rw [show ((b :: l).dropWhile p).rdropWhile p = b :: l from h] at hlen
      have hdrop : (b :: l).dropWhile p = b :: l :=
        (List.dropWhile_suffix p).eq_of_length_le hlen
      have hhead : p b = false := by
        by_contra hb
        rw [List.dropWhile_cons_of_pos (by simpa using hb)] at hdrop
        have := (List.dropWhile_suffix p (l := l)).length_le
        rw [hdrop, List.length_cons] at this
        omega
      refine ⟨fun a ha => ?_, fun a ha => ?_⟩
      · cases ha
        exact hhead
      · unfold trim at h
        rw [hdrop, List.rdropWhile_eq_self_iff] at h
        obtain ⟨hne, rfl⟩ := List.mem_getLast?_eq_getLast ha
        simpa using h hne
    · rintro ⟨hhead, hlast⟩
      have hb : p b = false := hhead b rfl
      unfold trim
      rw [List.dropWhile_cons_of_neg (by simp [hb]), List.rdropWhile_eq_self_iff]
      intro hne
      have := hlast _ (List.getLast?_eq_some_getLast hne)
      simp [this]

theorem bare_trim (l : List α) : Bare p (trim p l) := by
  refine ⟨fun a ha => ?_, fun a ha => ?_⟩
  · -- the trimmed list is a prefix of the one without its leading letters in `p`
    have hpre : trim p l <+: l.dropWhile p := List.rdropWhile_prefix p (l.dropWhile p)
    obtain ⟨rest, hrest⟩ := hpre
    obtain ⟨tail, htail⟩ := List.head?_eq_some_iff.mp ha
    have hhead := List.head?_dropWhile_not p l
    simpa [← hrest, htail] using hhead
  · obtain ⟨hne, rfl⟩ := List.mem_getLast?_eq_getLast ha
    have hlast := List.rdropWhile_last_not p (l.dropWhile p) hne
    rwa [Bool.not_eq_true] at hlast

end Texts
