import FlowerGift.Lib.SortedMap

/-!
# Ascending lists of entries

A search tree, a pair of parallel arrays and a `SortedMap` all list their
entries in strictly ascending key order.  What they do to an entry is said by
the part of the list `below` its key and the part `above` it:

    (m.insert k v).entries = below k m.entries ++ (k, v) :: above k m.entries
    (m.erase k).entries    = below k m.entries ++ above k m.entries

For a list around a pivot entry, `l ++ e :: r`, the two parts are computed from
the side of the pivot the key falls on (`below_of_lt`, `below_of_gt` and the
like): this is what one comparison of a search decides.
-/

namespace Realtime

variable {κ ν μ : Type} [LinearOrder κ]

/-- Strictly ascending in the key. -/
def Ascending (l : List (κ × ν)) : Prop := l.Pairwise fun a b => a.1 < b.1

def below (k : κ) (l : List (κ × ν)) : List (κ × ν) := l.filter fun e => e.1 < k

def above (k : κ) (l : List (κ × ν)) : List (κ × ν) := l.filter fun e => k < e.1

@[simp] theorem ascending_nil : Ascending ([] : List (κ × ν)) := List.Pairwise.nil

theorem mem_below_iff (k : κ) (l : List (κ × ν)) (e : κ × ν) :
    e ∈ below k l ↔ e ∈ l ∧ e.1 < k := by
  simp [below, List.mem_filter]

theorem mem_above_iff (k : κ) (l : List (κ × ν)) (e : κ × ν) :
    e ∈ above k l ↔ e ∈ l ∧ k < e.1 := by
  simp [above, List.mem_filter]

theorem below_eq_self (k : κ) (l : List (κ × ν)) (h : ∀ e ∈ l, e.1 < k) : below k l = l := by
  unfold below
  rw [List.filter_eq_self]
  intro e he
  simpa using h e he

theorem below_eq_nil (k : κ) (l : List (κ × ν)) (h : ∀ e ∈ l, k ≤ e.1) : below k l = [] := by
  unfold below
  rw [List.filter_eq_nil_iff]
  intro e he
  simpa using h e he

theorem above_eq_self (k : κ) (l : List (κ × ν)) (h : ∀ e ∈ l, k < e.1) : above k l = l := by
  unfold above
  rw [List.filter_eq_self]
  intro e he
  simpa using h e he

theorem above_eq_nil (k : κ) (l : List (κ × ν)) (h : ∀ e ∈ l, e.1 ≤ k) : above k l = [] := by
  unfold above
  rw [List.filter_eq_nil_iff]
  intro e he
  simpa using h e he

/-! ## Around a pivot -/

/-- A list around a pivot: both sides ascend, the pivot lies strictly between them. -/
theorem ascending_pivot_iff (l r : List (κ × ν)) (e : κ × ν) :
    Ascending (l ++ e :: r) ↔
      Ascending l ∧ Ascending r ∧ (∀ a ∈ l, a.1 < e.1) ∧ ∀ b ∈ r, e.1 < b.1 := by
  unfold Ascending
  rw [List.pairwise_append, List.pairwise_cons]
  constructor
  · rintro ⟨hl, ⟨her, hr⟩, hlr⟩
    exact ⟨hl, hr, fun a ha => hlr a ha e List.mem_cons_self, her⟩
  · rintro ⟨hl, hr, hle, her⟩
    refine ⟨hl, ⟨her, hr⟩, fun a ha b hb => ?_⟩
    rcases List.mem_cons.mp hb with rfl | hb
    · exact hle a ha
    · exact lt_trans (hle a ha) (her b hb)

section Pivot

variable (k : κ) (l r : List (κ × ν)) (e : κ × ν)

theorem below_of_lt (h : Ascending (l ++ e :: r)) (hk : k < e.1) :
    below k (l ++ e :: r) = below k l := by
  obtain ⟨-, -, -, her⟩ := (ascending_pivot_iff l r e).mp h
  have hr : below k (e :: r) = [] := by
    apply below_eq_nil
    intro b hb
    rcases List.mem_cons.mp hb with rfl | hb
    · exact le_of_lt hk
    · exact le_of_lt (lt_trans hk (her b hb))
  unfold below at hr ⊢
  rw [List.filter_append, hr, List.append_nil]

theorem above_of_lt (h : Ascending (l ++ e :: r)) (hk : k < e.1) :
    above k (l ++ e :: r) = above k l ++ e :: r := by
  obtain ⟨-, -, -, her⟩ := (ascending_pivot_iff l r e).mp h
  have hr : above k (e :: r) = e :: r := by
    apply above_eq_self
    intro b hb
    rcases List.mem_cons.mp hb with rfl | hb
    · exact hk
    · exact lt_trans hk (her b hb)
  unfold above at hr ⊢
  rw [List.filter_append, hr]

theorem below_of_gt (h : Ascending (l ++ e :: r)) (hk : e.1 < k) :
    below k (l ++ e :: r) = l ++ e :: below k r := by
  obtain ⟨-, -, hle, -⟩ := (ascending_pivot_iff l r e).mp h
  have hl : below k l = l := below_eq_self k l fun a ha => lt_trans (hle a ha) hk
  unfold below at hl ⊢
  rw [List.filter_append, hl, List.filter_cons, if_pos (by simpa using hk)]

theorem above_of_gt (h : Ascending (l ++ e :: r)) (hk : e.1 < k) :
    above k (l ++ e :: r) = above k r := by
  obtain ⟨-, -, hle, -⟩ := (ascending_pivot_iff l r e).mp h
  have hl : above k l = [] := above_eq_nil k l fun a ha => le_of_lt (lt_trans (hle a ha) hk)
  have hek : ¬ k < e.1 := lt_asymm hk
  unfold above at hl ⊢
  rw [List.filter_append, hl, List.nil_append, List.filter_cons, if_neg (by simpa using hek)]

theorem below_of_eq (h : Ascending (l ++ e :: r)) : below e.1 (l ++ e :: r) = l := by
  obtain ⟨-, -, hle, her⟩ := (ascending_pivot_iff l r e).mp h
  have hl : below e.1 l = l := below_eq_self e.1 l hle
  have hr : below e.1 (e :: r) = [] := by
    apply below_eq_nil
    intro b hb
    rcases List.mem_cons.mp hb with rfl | hb
    · exact le_refl _
    · exact le_of_lt (her b hb)
  unfold below at hl hr ⊢
  rw [List.filter_append, hl, hr, List.append_nil]

theorem above_of_eq (h : Ascending (l ++ e :: r)) : above e.1 (l ++ e :: r) = r := by
  obtain ⟨-, -, hle, her⟩ := (ascending_pivot_iff l r e).mp h
  have hl : above e.1 l = [] := above_eq_nil e.1 l fun a ha => le_of_lt (hle a ha)
  have hr : above e.1 r = r := above_eq_self e.1 r her
  unfold above at hl hr ⊢
  rw [List.filter_append, hl, List.nil_append, List.filter_cons,
    if_neg (by simp), hr]

/-- A key of the list that is smaller than the pivot's is on the left, and so on. -/
theorem mem_left_of_lt (h : Ascending (l ++ e :: r)) (a : κ × ν) (ha : a ∈ l ++ e :: r)
    (hk : a.1 < e.1) : a ∈ l := by
  obtain ⟨-, -, -, her⟩ := (ascending_pivot_iff l r e).mp h
  rcases List.mem_append.mp ha with ha | ha
  · exact ha
  · rcases List.mem_cons.mp ha with rfl | ha
    · exact absurd hk (lt_irrefl _)
    · exact absurd hk (lt_asymm (her a ha))

theorem mem_right_of_gt (h : Ascending (l ++ e :: r)) (a : κ × ν) (ha : a ∈ l ++ e :: r)
    (hk : e.1 < a.1) : a ∈ r := by
  obtain ⟨-, -, hle, -⟩ := (ascending_pivot_iff l r e).mp h
  rcases List.mem_append.mp ha with ha | ha
  · exact absurd hk (lt_asymm (hle a ha))
  · rcases List.mem_cons.mp ha with rfl | ha
    · exact absurd hk (lt_irrefl _)
    · exact ha

theorem eq_pivot_of_eq (h : Ascending (l ++ e :: r)) (a : κ × ν) (ha : a ∈ l ++ e :: r)
    (hk : a.1 = e.1) : a = e := by
  obtain ⟨-, -, hle, her⟩ := (ascending_pivot_iff l r e).mp h
  rcases List.mem_append.mp ha with ha | ha
  · exact absurd hk (ne_of_lt (hle a ha))
  · rcases List.mem_cons.mp ha with rfl | ha
    · rfl
    · exact absurd hk.symm (ne_of_lt (her a ha))

end Pivot

/-! ## Putting an entry in and taking it out -/

theorem Ascending.below (l : List (κ × ν)) (h : Ascending l) (k : κ) :
    Ascending (Realtime.below k l) :=
  List.Pairwise.filter _ h

theorem Ascending.above (l : List (κ × ν)) (h : Ascending l) (k : κ) :
    Ascending (Realtime.above k l) :=
  List.Pairwise.filter _ h

theorem ascending_insert (l : List (κ × ν)) (h : Ascending l) (k : κ) (v : ν) :
    Ascending (below k l ++ (k, v) :: above k l) := by
  rw [ascending_pivot_iff]
  exact ⟨h.below l k, h.above l k, fun a ha => ((mem_below_iff k l a).mp ha).2,
    fun b hb => ((mem_above_iff k l b).mp hb).2⟩

theorem below_append_above (l : List (κ × ν)) (h : Ascending l) (k : κ) :
    below k l ++ above k l = l.filter fun e => e.1 ≠ k := by
  induction l with
  | nil => rfl
  | cons e l ih =>
    have hp : Ascending ([] ++ e :: l) := h
    obtain ⟨-, hl, -, her⟩ := (ascending_pivot_iff [] l e).mp hp
    rcases lt_trichotomy k e.1 with hk | hk | hk
    · have hb : below k (e :: l) = [] := below_of_lt k [] l e hp hk
      have ha : above k (e :: l) = e :: l := above_of_lt k [] l e hp hk
      rw [hb, ha, List.nil_append, eq_comm, List.filter_eq_self]
      intro a hmem
      rcases List.mem_cons.mp hmem with rfl | hmem
      · simpa using hk.ne'
      · simpa using (lt_trans hk (her a hmem)).ne'
    · subst hk
      have hb : below e.1 (e :: l) = [] := below_of_eq [] l e hp
      have ha : above e.1 (e :: l) = l := above_of_eq [] l e hp
      rw [hb, ha, List.nil_append, List.filter_cons, if_neg (by simp), eq_comm, List.filter_eq_self]
      intro a hmem
      simpa using (her a hmem).ne'
    · have hb : below k (e :: l) = e :: below k l := below_of_gt k [] l e hp hk
      have ha : above k (e :: l) = above k l := above_of_gt k [] l e hp hk
      rw [hb, ha, List.filter_cons, if_pos (by simpa using hk.ne), List.cons_append, ih hl]

/-- Where a key is, the list splits at its entry. -/
theorem eq_below_cons_above (l : List (κ × ν)) (h : Ascending l) (k : κ) (v : ν) (hm : (k, v) ∈ l) :
    l = below k l ++ (k, v) :: above k l := by
  obtain ⟨a, b, rfl⟩ := List.append_of_mem hm
  rw [below_of_eq a b (k, v) h, above_of_eq a b (k, v) h]

/-- Where a key is not, the list splits all the same. -/
theorem eq_below_append_above (l : List (κ × ν)) (h : Ascending l) (k : κ) (hm : ∀ v, (k, v) ∉ l) :
    l = below k l ++ above k l := by
  rw [below_append_above l h k, eq_comm, List.filter_eq_self]
  rintro ⟨k', v⟩ he
  have hne : k' ≠ k := by
    rintro rfl
    exact hm v he
  simpa using hne

theorem ascending_erase (l : List (κ × ν)) (h : Ascending l) (k : κ) :
    Ascending (below k l ++ above k l) := by
  rw [below_append_above l h k]
  exact List.Pairwise.filter _ h

/-- Two ascending lists with the same members are the same list. -/
theorem Ascending.ext (l₁ l₂ : List (κ × ν)) (h₁ : Ascending l₁) (h₂ : Ascending l₂)
    (h : ∀ e, e ∈ l₁ ↔ e ∈ l₂) : l₁ = l₂ := by
  have nodup : ∀ l : List (κ × ν), Ascending l → l.Nodup := fun l hl =>
    hl.imp fun hab heq => absurd (congrArg Prod.fst heq) hab.ne
  have hperm := (List.perm_ext_iff_of_nodup (nodup l₁ h₁) (nodup l₂ h₂)).mpr h
  exact hperm.eq_of_pairwise (fun a b _ _ hab hba => absurd hab (lt_asymm hba)) h₁ h₂

namespace SortedMap

theorem entries_insert (m : SortedMap κ ν) (k : κ) (v : ν) :
    (m.insert k v).entries = below k m.entries ++ (k, v) :: above k m.entries := by
  apply Ascending.ext _ _ (m.insert k v).sorted (ascending_insert m.entries m.sorted k v)
  intro e
  rw [(m.entries_insert_perm_erase k v).mem_iff, List.mem_append, List.mem_cons, List.mem_cons,
    mem_erase_iff, mem_below_iff, mem_above_iff]
  constructor
  · rintro (he | ⟨he, hne⟩)
    · exact Or.inr (Or.inl he)
    · rcases lt_or_gt_of_ne hne with hlt | hgt
      · exact Or.inl ⟨he, hlt⟩
      · exact Or.inr (Or.inr ⟨he, hgt⟩)
  · rintro (⟨he, hlt⟩ | he | ⟨he, hgt⟩)
    · exact Or.inr ⟨he, hlt.ne⟩
    · exact Or.inl he
    · exact Or.inr ⟨he, hgt.ne'⟩

theorem entries_erase (m : SortedMap κ ν) (k : κ) :
    (m.erase k).entries = below k m.entries ++ above k m.entries :=
  (below_append_above m.entries m.sorted k).symm

/-- One update of a map. -/
inductive Update (κ ν : Type)
  | insert (k : κ) (v : ν)
  | erase (k : κ)

def update (m : SortedMap κ ν) : Update κ ν → SortedMap κ ν
  | .insert k v => m.insert k v
  | .erase k => m.erase k

/-- An implementation whose single updates are those of the map it stands for follows the map along
any list of updates. -/
theorem foldl_update {δ : Type} (toMap : δ → SortedMap κ ν) (step : δ → Update κ ν → δ)
    (h : ∀ d u, toMap (step d u) = (toMap d).update u) (d : δ) (us : List (Update κ ν)) :
    toMap (us.foldl step d) = us.foldl update (toMap d) :=
  (List.foldl_hom toMap fun d u => (h d u).symm).symm

/-- Maps with the same entries are equal. -/
theorem ext_entries (m₁ m₂ : SortedMap κ ν) (h : m₁.entries = m₂.entries) : m₁ = m₂ := by
  cases m₁
  cases m₂
  cases h
  rfl

end SortedMap

end Realtime
