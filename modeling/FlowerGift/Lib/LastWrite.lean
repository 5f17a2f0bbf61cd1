import FlowerGift.Lib.SortedMap

/-!
# Last writer wins

A list of items is written into a map one after the other, each at its own key,
so a later item replaces an earlier one with the same key.  `lastAt key l k` is
the item that ends up at `k`; `kept key l` are the items that stay and
`shadowed key l` those that are replaced:

    (kept key l ++ shadowed key l).Perm l                          (kept_append_shadowed)
    a ∈ kept key l ↔ lastAt key l (key a) = some a                 (mem_kept_iff)
    (∀ k, m.get k = (lastAt key l k).map f) →
      m.entries.Perm ((kept key l).map fun a => (key a, f a))      (entries_perm_kept)
-/

namespace Realtime

variable {α κ ν : Type} [DecidableEq κ] (key : α → κ)

def lastAt : List α → κ → Option α
  | [], _ => none
  | a :: l, k => (lastAt l k).or (if key a = k then some a else none)

def kept : List α → List α
  | [] => []
  | a :: l => if key a ∈ l.map key then kept l else a :: kept l

def shadowed : List α → List α
  | [] => []
  | a :: l => if key a ∈ l.map key then a :: shadowed l else shadowed l

theorem lastAt_eq_some (l : List α) (k : κ) (a : α) (h : lastAt key l k = some a) :
    a ∈ l ∧ key a = k := by
  induction l with
  | nil => cases h
  | cons b l ih =>
    rw [lastAt] at h
    cases hl : lastAt key l k with
    | some c =>
      rw [hl, Option.some_or] at h
      cases h
      exact ⟨List.mem_cons_of_mem _ (ih hl).1, (ih hl).2⟩
    | none =>
      rw [hl, Option.none_or] at h
      split at h
      · next hk =>
        cases h
        exact ⟨List.mem_cons_self, hk⟩
      · cases h

theorem lastAt_eq_none_iff (l : List α) (k : κ) : lastAt key l k = none ↔ k ∉ l.map key := by
  induction l with
  | nil => simp [lastAt]
  | cons b l ih =>
    rw [lastAt, Option.or_eq_none_iff, ih, List.map_cons, List.mem_cons, not_or]
    constructor
    · rintro ⟨h1, h2⟩
      refine ⟨fun hk => ?_, h1⟩
      rw [if_pos hk.symm] at h2
      cases h2
    · rintro ⟨h1, h2⟩
      exact ⟨h2, if_neg (Ne.symm h1)⟩

theorem exists_lastAt (l : List α) (a : α) (h : a ∈ l) : ∃ b, lastAt key l (key a) = some b := by
  rw [← Option.ne_none_iff_exists']
  intro hn
  exact (lastAt_eq_none_iff key l _).mp hn (List.mem_map_of_mem h)

theorem exists_lastAt_of_mem_keys (l : List α) (k : κ) (h : k ∈ l.map key) :
    ∃ a, lastAt key l k = some a := by
  obtain ⟨a, ha, rfl⟩ := List.mem_map.mp h
  exact exists_lastAt key l a ha

/-- Items with distinct keys are all last at their key. -/
theorem lastAt_of_nodup (l : List α) (hnd : (l.map key).Nodup) (a : α) (h : a ∈ l) :
    lastAt key l (key a) = some a := by
  obtain ⟨b, hb⟩ := exists_lastAt key l a h
  obtain ⟨hmem, hkey⟩ := lastAt_eq_some key l _ b hb
  rw [hb, List.inj_on_of_nodup_map hnd hmem h hkey]

theorem kept_append_shadowed (l : List α) : (kept key l ++ shadowed key l).Perm l := by
  induction l with
  | nil => exact List.Perm.refl _
  | cons a l ih =>
    rw [kept, shadowed]
    split
    · exact List.perm_middle.trans (ih.cons a)
    · exact ih.cons a

theorem mem_of_mem_kept (l : List α) (a : α) (h : a ∈ kept key l) : a ∈ l :=
  (kept_append_shadowed key l).mem_iff.mp (List.mem_append_left _ h)

theorem kept_keys_nodup (l : List α) : ((kept key l).map key).Nodup := by
  induction l with
  | nil => exact List.nodup_nil
  | cons a l ih =>
    rw [kept]
    split
    · exact ih
    · next hk =>
      rw [List.map_cons, List.nodup_cons]
      refine ⟨fun h => hk ?_, ih⟩
      obtain ⟨b, hb, hba⟩ := List.mem_map.mp h
      exact hba ▸ List.mem_map_of_mem (mem_of_mem_kept key l b hb)

theorem mem_kept_iff (l : List α) (a : α) : a ∈ kept key l ↔ lastAt key l (key a) = some a := by
  induction l with
  | nil => simp [kept, lastAt]
  | cons b l ih =>
    rw [kept, lastAt]
    by_cases hm : key b ∈ l.map key
    · rw [if_pos hm, ih]
      cases hl : lastAt key l (key a) with
      | some c => rw [Option.some_or]
      | none =>
        rw [Option.none_or, if_neg]
        rintro hk
        exact (lastAt_eq_none_iff key l _).mp hl (hk ▸ hm)
    · rw [if_neg hm, List.mem_cons, ih]
      by_cases hk : key b = key a
      · have hn : lastAt key l (key a) = none := (lastAt_eq_none_iff key l _).mpr (hk ▸ hm)
        simp [hn, hk, eq_comm]
      · rw [if_neg hk, Option.or_none]
        exact ⟨fun h => h.resolve_left fun e => hk (by rw [e]), Or.inr⟩

theorem shadowed_of_nodup (l : List α) (hnd : (l.map key).Nodup) : shadowed key l = [] := by
  induction l with
  | nil => rfl
  | cons a l ih =>
    rw [List.map_cons, List.nodup_cons] at hnd
    rw [shadowed, if_neg hnd.1, ih hnd.2]

/-- A map that holds, at every key, the last item written there consists of the kept items. -/
theorem entries_perm_kept {κ : Type} [LinearOrder κ] (key : α → κ) (f : α → ν) (l : List α)
    (m : SortedMap κ ν) (h : ∀ k, m.get k = (lastAt key l k).map f) :
    m.entries.Perm ((kept key l).map fun a => (key a, f a)) := by
  have hnd : ((kept key l).map fun a => (key a, f a)).Nodup := by
    apply List.Nodup.of_map Prod.fst
    rw [List.map_map]
    exact kept_keys_nodup key l
  apply (List.perm_ext_iff_of_nodup m.entries_nodup hnd).mpr
  rintro ⟨k, v⟩
  rw [← m.get_eq_some_iff, h, Option.map_eq_some_iff, List.mem_map]
  constructor
  · rintro ⟨a, ha, rfl⟩
    have hk := (lastAt_eq_some key l k a ha).2
    subst hk
    exact ⟨a, (mem_kept_iff key l a).mpr ha, rfl⟩
  · rintro ⟨a, ha, he⟩
    cases he
    exact ⟨a, (mem_kept_iff key l a).mp ha, rfl⟩

end Realtime
