import Mathlib.Data.List.Sort
import Mathlib.Data.List.Perm.Basic

/-!
# Maps that list their entries in key order

`SortedMap κ ν` is a finite map kept as the list of its entries, strictly
increasing in the key (the field `sorted`), so a key occurs at most once and
two maps with the same lookups are equal (`ext_get`).

    (m.insert k v).get k = some v                       (get_insert_self)
    k' ≠ k → (m.insert k v).get k' = m.get k'           (get_insert_of_ne)
    (m.erase k).get k = none                            (get_erase_self)
    m.get k = some v ↔ (k, v) ∈ m.entries               (get_eq_some_iff)

Listing in key order is what a reader of the map sees; sums over the entries
follow the permutations `entries_insert_perm_erase` and `entries_erase_perm`.
-/

namespace Realtime

/-- A finite map, its entries in strictly increasing key order. -/
structure SortedMap (κ ν : Type) [LinearOrder κ] where
  entries : List (κ × ν)
  sorted : entries.Pairwise (fun a b => a.1 < b.1)

namespace SortedMap

variable {κ ν μ : Type} [LinearOrder κ]

instance : EmptyCollection (SortedMap κ ν) := ⟨⟨[], List.Pairwise.nil⟩⟩

/-! ## Operations -/

/-- The value at `k`. -/
def get (m : SortedMap κ ν) (k : κ) : Option ν :=
  (m.entries.find? fun e => e.1 = k).map Prod.snd

def keys (m : SortedMap κ ν) : List κ := m.entries.map Prod.fst

/-- The values in key order. -/
def values (m : SortedMap κ ν) : List ν := m.entries.map Prod.snd

def erase (m : SortedMap κ ν) (k : κ) : SortedMap κ ν where
  entries := m.entries.filter fun e => e.1 ≠ k
  sorted := m.sorted.filter _

/-- `insert` puts the new entry at its place among the entries of the other keys. -/
def insertEntry (k : κ) (v : ν) (l : List (κ × ν)) : List (κ × ν) :=
  l.orderedInsert (fun a b => a.1 ≤ b.1) (k, v)

theorem insertEntry_sorted (k : κ) (v : ν) (l : List (κ × ν))
    (hl : l.Pairwise (fun a b => a.1 < b.1)) (hk : ∀ e ∈ l, e.1 ≠ k) :
    (insertEntry k v l).Pairwise (fun a b => a.1 < b.1) := by
  induction l with
  | nil => simp [insertEntry]
  | cons e l ih =>
    rw [List.pairwise_cons] at hl
    have hek : e.1 ≠ k := hk e List.mem_cons_self
    have hrest : ∀ e ∈ l, e.1 ≠ k := fun e he => hk e (List.mem_cons_of_mem _ he)
    unfold insertEntry at ih ⊢
    rw [List.orderedInsert_cons]
    by_cases hle : k ≤ e.1
    · rw [if_pos hle]
      have hlt : k < e.1 := lt_of_le_of_ne hle (Ne.symm hek)
      refine List.pairwise_cons.mpr ⟨fun a ha => ?_, List.pairwise_cons.mpr hl⟩
      rcases List.mem_cons.mp ha with rfl | ha
      · exact hlt
      · exact lt_trans hlt (hl.1 a ha)
    · rw [if_neg hle]
      refine List.pairwise_cons.mpr ⟨fun a ha => ?_, ih hl.2 hrest⟩
      rcases (List.mem_orderedInsert _).mp ha with rfl | ha
      · exact not_le.mp hle
      · exact hl.1 a ha

def insert (m : SortedMap κ ν) (k : κ) (v : ν) : SortedMap κ ν where
  entries := insertEntry k v (m.erase k).entries
  sorted := insertEntry_sorted k v _ (m.erase k).sorted (by
    intro e he
    simpa using (List.mem_filter.mp he).2)

/-- The value at `k` becomes `v`; `none` takes the key away. -/
def put (m : SortedMap κ ν) (k : κ) : Option ν → SortedMap κ ν
  | some v => m.insert k v
  | none => m.erase k

/-- The same keys, every value mapped. -/
def mapVal (f : ν → μ) (m : SortedMap κ ν) : SortedMap κ μ where
  entries := m.entries.map fun e => (e.1, f e.2)
  sorted := List.pairwise_map.mpr m.sorted

/-! ## Lookups -/

theorem keys_nodup (m : SortedMap κ ν) : m.keys.Nodup :=
  List.pairwise_map.mpr (m.sorted.imp fun h => ne_of_lt h)

theorem entries_nodup (m : SortedMap κ ν) : m.entries.Nodup := List.Nodup.of_map _ m.keys_nodup

theorem entry_unique (m : SortedMap κ ν) (k : κ) (v w : ν) (hv : (k, v) ∈ m.entries)
    (hw : (k, w) ∈ m.entries) : v = w :=
  congrArg Prod.snd (List.inj_on_of_nodup_map m.keys_nodup hv hw rfl)

theorem get_eq_some_iff (m : SortedMap κ ν) (k : κ) (v : ν) :
    m.get k = some v ↔ (k, v) ∈ m.entries := by
  unfold get
  constructor
  · intro h
    obtain ⟨⟨k', v'⟩, hf, rfl⟩ := Option.map_eq_some_iff.mp h
    have hk : k' = k := by simpa using List.find?_some hf
    exact hk ▸ List.mem_of_find?_eq_some hf
  · intro h
    cases hf : m.entries.find? (fun e => e.1 = k) with
    | none => exact absurd (List.find?_eq_none.mp hf (k, v) h) (by simp)
    | some e =>
      have hk : e.1 = k := by simpa using List.find?_some hf
      have he : (k, e.2) ∈ m.entries := hk ▸ List.mem_of_find?_eq_some hf
      simp [m.entry_unique k e.2 v he h]

theorem get_eq_none_iff (m : SortedMap κ ν) (k : κ) :
    m.get k = none ↔ ∀ v, (k, v) ∉ m.entries := by
  constructor
  · intro h v hv
    rw [(m.get_eq_some_iff k v).mpr hv] at h
    cases h
  · intro h
    cases hg : m.get k with
    | none => rfl
    | some v => exact absurd ((m.get_eq_some_iff k v).mp hg) (h v)

theorem mem_keys_iff (m : SortedMap κ ν) (k : κ) : k ∈ m.keys ↔ (m.get k).isSome := by
  unfold keys
  rw [Option.isSome_iff_exists, List.mem_map]
  constructor
  · rintro ⟨⟨k', v⟩, he, rfl⟩
    exact ⟨v, (m.get_eq_some_iff k' v).mpr he⟩
  · rintro ⟨v, hv⟩
    exact ⟨(k, v), (m.get_eq_some_iff k v).mp hv, rfl⟩

/-- Maps with the same lookups are equal. -/
theorem ext_get (m₁ m₂ : SortedMap κ ν) (h : ∀ k, m₁.get k = m₂.get k) : m₁ = m₂ := by
  have hmem : ∀ e, e ∈ m₁.entries ↔ e ∈ m₂.entries := by
    rintro ⟨k, v⟩
    rw [← get_eq_some_iff, ← get_eq_some_iff, h k]
  have hperm := (List.perm_ext_iff_of_nodup m₁.entries_nodup m₂.entries_nodup).mpr hmem
  have heq : m₁.entries = m₂.entries :=
    hperm.eq_of_pairwise (fun a b _ _ hab hba => absurd hab (lt_asymm hba)) m₁.sorted m₂.sorted
  cases m₁; cases m₂; cases heq; rfl

@[simp] theorem entries_empty : (∅ : SortedMap κ ν).entries = [] := rfl

@[simp] theorem get_empty (k : κ) : (∅ : SortedMap κ ν).get k = none := rfl

theorem mem_erase_iff (m : SortedMap κ ν) (k : κ) (e : κ × ν) :
    e ∈ (m.erase k).entries ↔ e ∈ m.entries ∧ e.1 ≠ k := by
  simp [erase, List.mem_filter]

theorem entries_insert_perm_erase (m : SortedMap κ ν) (k : κ) (v : ν) :
    (m.insert k v).entries.Perm ((k, v) :: (m.erase k).entries) :=
  List.perm_orderedInsert _ _ _

@[simp] theorem get_erase_self (m : SortedMap κ ν) (k : κ) : (m.erase k).get k = none := by
  rw [get_eq_none_iff]
  intro v hv
  exact ((m.mem_erase_iff k _).mp hv).2 rfl

@[simp] theorem get_erase_of_ne (m : SortedMap κ ν) (k k' : κ) (h : k' ≠ k) :
    (m.erase k).get k' = m.get k' := by
  apply Option.ext
  intro v
  rw [get_eq_some_iff, get_eq_some_iff, mem_erase_iff]
  exact ⟨fun he => he.1, fun he => ⟨he, h⟩⟩

@[simp] theorem get_insert_self (m : SortedMap κ ν) (k : κ) (v : ν) :
    (m.insert k v).get k = some v := by
  rw [get_eq_some_iff, (m.entries_insert_perm_erase k v).mem_iff]
  exact List.mem_cons_self

@[simp] theorem get_insert_of_ne (m : SortedMap κ ν) (k k' : κ) (v : ν) (h : k' ≠ k) :
    (m.insert k v).get k' = m.get k' := by
  apply Option.ext
  intro w
  rw [get_eq_some_iff, get_eq_some_iff, (m.entries_insert_perm_erase k v).mem_iff, List.mem_cons,
    mem_erase_iff]
  constructor
  · rintro (he | he)
    · exact absurd (congrArg Prod.fst he) h
    · exact he.1
  · intro he
    exact Or.inr ⟨he, h⟩

theorem get_insert (m : SortedMap κ ν) (k k' : κ) (v : ν) :
    (m.insert k v).get k' = if k' = k then some v else m.get k' := by
  by_cases h : k' = k
  · rw [if_pos h, h, get_insert_self]
  · rw [if_neg h, get_insert_of_ne _ _ _ _ h]

theorem get_erase (m : SortedMap κ ν) (k k' : κ) :
    (m.erase k).get k' = if k' = k then none else m.get k' := by
  by_cases h : k' = k
  · rw [if_pos h, h, get_erase_self]
  · rw [if_neg h, get_erase_of_ne _ _ _ h]

theorem get_put (m : SortedMap κ ν) (k k' : κ) (v : Option ν) :
    (m.put k v).get k' = if k' = k then v else m.get k' := by
  cases v with
  | none => exact m.get_erase k k'
  | some v => exact m.get_insert k k' v

theorem erase_of_get_none (m : SortedMap κ ν) (k : κ) (h : m.get k = none) : m.erase k = m := by
  apply ext_get
  intro k'
  rw [get_erase]
  split
  · next hk => rw [hk, h]
  · rfl

/-- Erasing a key that is there takes exactly one entry away. -/
theorem entries_erase_perm (m : SortedMap κ ν) (k : κ) (v : ν) (h : m.get k = some v) :
    m.entries.Perm ((k, v) :: (m.erase k).entries) := by
  apply (List.perm_ext_iff_of_nodup m.entries_nodup _).mpr
  · rintro ⟨k', v'⟩
    rw [List.mem_cons, mem_erase_iff]
    constructor
    · intro he
      by_cases hk : k' = k
      · left
        have hv := m.entry_unique k' v' v he (hk ▸ (m.get_eq_some_iff k v).mp h)
        rw [hk, hv]
      · exact Or.inr ⟨he, hk⟩
    · rintro (he | he)
      · exact he ▸ (m.get_eq_some_iff k v).mp h
      · exact he.1
  · refine List.nodup_cons.mpr ⟨fun he => ?_, (m.erase k).entries_nodup⟩
    exact ((m.mem_erase_iff k _).mp he).2 rfl

/-- Putting a value at a key exchanges what the key counted for. -/
theorem countP_values_insert (m : SortedMap κ ν) (k : κ) (v : ν) (p : ν → Bool) :
    (m.insert k v).values.countP p + ((m.get k).map fun w => if p w then 1 else 0).getD 0 =
      m.values.countP p + if p v then 1 else 0 := by
  have hnew : (m.insert k v).values.countP p = (m.erase k).values.countP p + if p v then 1 else 0 := by
    have hp := (m.entries_insert_perm_erase k v).map Prod.snd
    exact (hp.countP_eq p).trans List.countP_cons
  cases hg : m.get k with
  | none =>
    rw [m.erase_of_get_none k hg] at hnew
    simpa using hnew
  | some w =>
    have hp := (m.entries_erase_perm k w hg).map Prod.snd
    have hold : m.values.countP p = (m.erase k).values.countP p + if p w then 1 else 0 :=
      (hp.countP_eq p).trans List.countP_cons
    rw [hnew, hold, Option.map_some, Option.getD_some]
    omega

@[simp] theorem get_mapVal (f : ν → μ) (m : SortedMap κ ν) (k : κ) :
    (m.mapVal f).get k = (m.get k).map f := by
  apply Option.ext
  intro w
  rw [get_eq_some_iff, Option.map_eq_some_iff]
  simp only [mapVal, List.mem_map, Prod.mk.injEq]
  constructor
  · rintro ⟨⟨k', v⟩, he, rfl, rfl⟩
    exact ⟨v, (m.get_eq_some_iff k' v).mpr he, rfl⟩
  · rintro ⟨v, hv, rfl⟩
    exact ⟨(k, v), (m.get_eq_some_iff k v).mp hv, rfl, rfl⟩

@[simp] theorem keys_mapVal (f : ν → μ) (m : SortedMap κ ν) : (m.mapVal f).keys = m.keys := by
  simp [mapVal, keys]

@[simp] theorem values_mapVal (f : ν → μ) (m : SortedMap κ ν) :
    (m.mapVal f).values = m.values.map f := by
  simp [mapVal, values]

theorem mem_values_iff (m : SortedMap κ ν) (v : ν) : v ∈ m.values ↔ ∃ k, m.get k = some v := by
  unfold values
  rw [List.mem_map]
  constructor
  · rintro ⟨⟨k, w⟩, he, rfl⟩
    exact ⟨k, (m.get_eq_some_iff k w).mpr he⟩
  · rintro ⟨k, hk⟩
    exact ⟨(k, v), (m.get_eq_some_iff k v).mp hk, rfl⟩

theorem values_eq_nil_iff (m : SortedMap κ ν) : m.values = [] ↔ m = ∅ := by
  unfold values
  rw [List.map_eq_nil_iff]
  constructor
  · intro h
    cases m
    cases h
    rfl
  · rintro rfl
    rfl

end SortedMap

end Realtime
