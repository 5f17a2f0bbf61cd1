import FlowerGift.Client.TreeBuilder
import Mathlib.Data.List.Induction

/-!
# The sorted dictionary on two arrays

`FArraySortedDictionary`: the sorted keys and, place by place, their values; at
most 25 of them.  A key is looked for by walking along the keys (`findKey`), a
new one goes where the walk would have met it (`findInsertPositionForKey`); both
places are the number of smaller keys (`findKey_of_mem`,
`findInsertPositionForKey_eq`), so an update cuts the arrays where the map of the
entries is cut.
-/

namespace FlowerGift

open Realtime

/-- `SORTED_DICTIONARY_ARRAY_TO_RB_TREE_SIZE_THRESHOLD`. -/
def SORTED_DICTIONARY_ARRAY_TO_RB_TREE_SIZE_THRESHOLD : ℕ := 25

structure ArraySortedDictionary (κ ν : Type) [LinearOrder κ] where
  keys : List κ
  values : List ν
  length_values : values.length = keys.length
  ascending : keys.Pairwise (· < ·)
  small : keys.length ≤ SORTED_DICTIONARY_ARRAY_TO_RB_TREE_SIZE_THRESHOLD

namespace ArraySortedDictionary

variable {κ ν : Type} [LinearOrder κ]

/-- `findInsertPositionForKey:`; the position starts at the keys given. -/
def findInsertPositionForKey (key : κ) : List κ → ℕ
  | [] => 0
  | k :: ks => if compare k key = .lt then findInsertPositionForKey key ks + 1 else 0

/-- `findKey:`, `none` for `NSNotFound`. -/
def findKey (key : κ) : List κ → Option ℕ
  | [] => none
  | k :: ks =>
    match compare key k with
    | .eq => some 0
    | .lt => none
    | .gt => (findKey key ks).map (· + 1)

theorem findInsertPositionForKey_eq (key : κ) (es : List (κ × ν)) (h : Ascending es) :
    findInsertPositionForKey key (es.map Prod.fst) = (below key es).length := by
  induction es with
  | nil => rfl
  | cons e es ih =>
    have hp : Ascending ([] ++ e :: es) := h
    obtain ⟨-, hes, -, her⟩ := (ascending_pivot_iff [] es e).mp hp
    rw [List.map_cons, findInsertPositionForKey]
    by_cases hk : e.1 < key
    · have hbelow : below key (e :: es) = e :: below key es := below_of_gt key [] es e hp hk
      rw [if_pos (compare_lt_iff_lt.mpr hk), ih hes, hbelow, List.length_cons]
    · have hbelow : below key (e :: es) = [] := by
        apply below_eq_nil
        intro b hb
        rcases List.mem_cons.mp hb with rfl | hb
        · exact not_lt.mp hk
        · exact le_trans (not_lt.mp hk) (le_of_lt (her b hb))
      rw [if_neg fun hlt => hk (compare_lt_iff_lt.mp hlt), hbelow, List.length_nil]

theorem findKey_of_mem (key : κ) (v : ν) (es : List (κ × ν)) (h : Ascending es)
    (hm : (key, v) ∈ es) : findKey key (es.map Prod.fst) = some (below key es).length := by
  induction es with
  | nil => cases hm
  | cons e es ih =>
    have hp : Ascending ([] ++ e :: es) := h
    obtain ⟨-, hes, -, her⟩ := (ascending_pivot_iff [] es e).mp hp
    rw [List.map_cons, findKey]
    cases hcmp : compare key e.1 with
    | lt =>
      have hk : key < e.1 := compare_lt_iff_lt.mp hcmp
      cases mem_left_of_lt [] es e hp (key, v) hm hk
    | eq =>
      obtain rfl : key = e.1 := compare_eq_iff_eq.mp hcmp
      have hbelow : below e.1 (e :: es) = [] := below_of_eq [] es e hp
      simp only [hbelow, List.length_nil]
    | gt =>
      have hk : e.1 < key := compare_gt_iff_gt.mp hcmp
      have hbelow : below key (e :: es) = e :: below key es := below_of_gt key [] es e hp hk
      simp only [ih hes (mem_right_of_gt [] es e hp (key, v) hm hk), hbelow, Option.map_some,
        List.length_cons]

theorem findKey_of_not_mem (key : κ) (ks : List κ) (hm : key ∉ ks) : findKey key ks = none := by
  induction ks with
  | nil => rfl
  | cons k ks ih =>
    rw [List.mem_cons, not_or] at hm
    rw [findKey]
    cases hcmp : compare key k with
    | lt => rfl
    | eq => exact absurd (compare_eq_iff_eq.mp hcmp) hm.1
    | gt => simp only [ih hm.2, Option.map_none]

/-! ## The entries -/

/-- Keys and values, place by place. -/
def entries (d : ArraySortedDictionary κ ν) : List (κ × ν) := d.keys.zip d.values

@[simp] theorem map_fst_entries (d : ArraySortedDictionary κ ν) : d.entries.map Prod.fst = d.keys :=
  List.map_fst_zip (le_of_eq d.length_values.symm)

@[simp] theorem map_snd_entries (d : ArraySortedDictionary κ ν) : d.entries.map Prod.snd = d.values :=
  List.map_snd_zip (le_of_eq d.length_values)

theorem entries_ascending (d : ArraySortedDictionary κ ν) : Ascending d.entries := by
  have h := d.ascending
  rw [← map_fst_entries] at h
  exact List.pairwise_map.mp h

/-- The map a dictionary stands for. -/
def toMap (d : ArraySortedDictionary κ ν) : SortedMap κ ν := ⟨d.entries, d.entries_ascending⟩

theorem findKey_eq_none_iff (d : ArraySortedDictionary κ ν) (key : κ) :
    findKey key d.keys = none ↔ ∀ v, (key, v) ∉ d.entries := by
  constructor
  · intro h v hm
    rw [← map_fst_entries, findKey_of_mem key v d.entries d.entries_ascending hm] at h
    cases h
  · intro h
    apply findKey_of_not_mem
    rw [← map_fst_entries, List.mem_map]
    rintro ⟨⟨k, v⟩, hm, rfl⟩
    exact h v hm

theorem findKey_eq_some (d : ArraySortedDictionary κ ν) (key : κ) (pos : ℕ)
    (h : findKey key d.keys = some pos) :
    pos = (below key d.entries).length ∧ ∃ v, (key, v) ∈ d.entries := by
  by_cases hm : ∃ v, (key, v) ∈ d.entries
  · obtain ⟨v, hv⟩ := hm
    rw [← map_fst_entries, findKey_of_mem key v d.entries d.entries_ascending hv] at h
    exact ⟨(Option.some.inj h).symm, v, hv⟩
  · rw [not_exists] at hm
    rw [(d.findKey_eq_none_iff key).mpr hm] at h
    cases h

/-! ## Cutting the arrays -/

section Cut

variable {α β : Type} (f : α → β) (l r : List α) (a b : α)

theorem map_insertIdx_length :
    ((l ++ r).map f).insertIdx l.length (f a) = (l ++ a :: r).map f := by
  induction l with
  | nil => rfl
  | cons c l ih => exact congrArg (f c :: ·) ih

theorem map_set_length :
    ((l ++ b :: r).map f).set l.length (f a) = (l ++ a :: r).map f := by
  induction l with
  | nil => rfl
  | cons c l ih => exact congrArg (f c :: ·) ih

theorem map_eraseIdx_length :
    ((l ++ b :: r).map f).eraseIdx l.length = (l ++ r).map f := by
  induction l with
  | nil => rfl
  | cons c l ih => exact congrArg (f c :: ·) ih

theorem map_getElem?_length : ((l ++ b :: r).map f)[l.length]? = some (f b) := by
  have hlen : (l.map f).length = l.length := List.length_map f
  rw [List.map_append, List.map_cons, ← hlen, List.getElem?_append_right (le_refl _), Nat.sub_self,
    List.getElem?_cons_zero]

end Cut

/-- Arrays that hold an ascending list of at most 25 entries. -/
structure Holds (ks : List κ) (vs : List ν) (es : List (κ × ν)) : Prop where
  keys : ks = es.map Prod.fst
  values : vs = es.map Prod.snd
  ascending : Ascending es
  small : es.length ≤ SORTED_DICTIONARY_ARRAY_TO_RB_TREE_SIZE_THRESHOLD

/-- `initWithComparator:keys:values:` for arrays that hold such a list. -/
def ofArrays (ks : List κ) (vs : List ν) (h : ∃ es, Holds ks vs es) : ArraySortedDictionary κ ν where
  keys := ks
  values := vs
  length_values := by
    obtain ⟨es, rfl, rfl, -, -⟩ := h
    rw [List.length_map, List.length_map]
  ascending := by
    obtain ⟨es, rfl, rfl, h, -⟩ := h
    exact List.pairwise_map.mpr h
  small := by
    obtain ⟨es, rfl, rfl, -, h⟩ := h
    rwa [List.length_map]

theorem entries_ofArrays (ks : List κ) (vs : List ν) (es : List (κ × ν)) (h : Holds ks vs es) :
    (ofArrays ks vs ⟨es, h⟩).entries = es := by
  obtain ⟨rfl, rfl, -, -⟩ := h
  exact (List.zip_of_prod rfl rfl).symm

theorem length_entries (d : ArraySortedDictionary κ ν) : d.entries.length = d.keys.length := by
  rw [← map_fst_entries, List.length_map]

/-- A new key goes between the smaller and the larger ones. -/
theorem holds_new (d : ArraySortedDictionary κ ν) (key : κ) (value : ν)
    (hnew : findKey key d.keys = none)
    (hroom : d.keys.length < SORTED_DICTIONARY_ARRAY_TO_RB_TREE_SIZE_THRESHOLD) :
    Holds (d.keys.insertIdx (findInsertPositionForKey key d.keys) key)
      (d.values.insertIdx (findInsertPositionForKey key d.keys) value)
      (below key d.entries ++ (key, value) :: above key d.entries) := by
  have hsplit := eq_below_append_above d.entries d.entries_ascending key
    ((d.findKey_eq_none_iff key).mp hnew)
  have hpos := findInsertPositionForKey_eq key d.entries d.entries_ascending
  have hlength := congrArg List.length hsplit
  rw [map_fst_entries] at hpos
  rw [length_entries, List.length_append] at hlength
  rw [hpos]
  refine ⟨?_, ?_, ascending_insert _ d.entries_ascending key value, ?_⟩
  · rw [← map_insertIdx_length, ← hsplit, map_fst_entries]
  · rw [← map_insertIdx_length, ← hsplit, map_snd_entries]
  · rw [List.length_append, List.length_cons]
    omega

theorem holds_replaced (d : ArraySortedDictionary κ ν) (key : κ) (value : ν) (pos : ℕ)
    (hfound : findKey key d.keys = some pos) :
    Holds (d.keys.set pos key) (d.values.set pos value)
      (below key d.entries ++ (key, value) :: above key d.entries) := by
  obtain ⟨rfl, v, hm⟩ := d.findKey_eq_some key pos hfound
  have hsplit := eq_below_cons_above d.entries d.entries_ascending key v hm
  have hlength := congrArg List.length hsplit
  rw [length_entries, List.length_append, List.length_cons] at hlength
  refine ⟨?_, ?_, ascending_insert _ d.entries_ascending key value, ?_⟩
  · rw [← map_set_length Prod.fst _ _ (key, value) (key, v), ← hsplit, map_fst_entries]
  · rw [← map_set_length Prod.snd _ _ (key, value) (key, v), ← hsplit, map_snd_entries]
  · rw [List.length_append, List.length_cons, ← hlength]
    exact d.small

theorem holds_removed (d : ArraySortedDictionary κ ν) (key : κ) (pos : ℕ)
    (hfound : findKey key d.keys = some pos) :
    Holds (d.keys.eraseIdx pos) (d.values.eraseIdx pos)
      (below key d.entries ++ above key d.entries) := by
  obtain ⟨rfl, v, hm⟩ := d.findKey_eq_some key pos hfound
  have hsplit := eq_below_cons_above d.entries d.entries_ascending key v hm
  have hlength := congrArg List.length hsplit
  have hsmall := d.small
  rw [length_entries, List.length_append, List.length_cons] at hlength
  refine ⟨?_, ?_, ascending_erase _ d.entries_ascending key, ?_⟩
  · rw [← map_eraseIdx_length Prod.fst _ _ (key, v), ← hsplit, map_fst_entries]
  · rw [← map_eraseIdx_length Prod.snd _ _ (key, v), ← hsplit, map_snd_entries]
  · rw [List.length_append]
    omega

/-! ## Reading -/

def get (d : ArraySortedDictionary κ ν) (key : κ) : Option ν :=
  (findKey key d.keys).bind fun pos => d.values[pos]?

def contains (d : ArraySortedDictionary κ ν) (key : κ) : Bool := (findKey key d.keys).isSome

def getPredecessorKey (d : ArraySortedDictionary κ ν) (key : κ) : Except NSException (Option κ) :=
  match findKey key d.keys with
  | none =>
    .error ⟨"NSInternalInconsistencyException", "Can't get predecessor key for non-existent key"⟩
  | some pos => .ok (if pos = 0 then none else d.keys[pos - 1]?)

def isEmpty (d : ArraySortedDictionary κ ν) : Bool := d.keys.length = 0

def count (d : ArraySortedDictionary κ ν) : ℕ := d.keys.length

def minKey (d : ArraySortedDictionary κ ν) : Option κ := d.keys.head?

def maxKey (d : ArraySortedDictionary κ ν) : Option κ := d.keys.getLast?

/-- The loop of `enumerateKeysAndObjectsReverse:usingBlock:` over the places still to visit. -/
def visit {σ : Type} (d : ArraySortedDictionary κ ν) (block : κ → ν → σ → Bool × σ) :
    List ℕ → σ → σ
  | [], s => s
  | i :: places, s =>
    match d.keys[i]?, d.values[i]? with
    | some key, some value =>
      match block key value s with
      | (true, s) => s
      | (false, s) => d.visit block places s
    | _, _ => s

def enumerateKeysAndObjects {σ : Type} (d : ArraySortedDictionary κ ν) (reverse : Bool)
    (block : κ → ν → σ → Bool × σ) (s : σ) : σ :=
  if reverse then d.visit block (List.range d.keys.length).reverse s
  else d.visit block (List.range d.keys.length) s

theorem get_of_mem (d : ArraySortedDictionary κ ν) (key : κ) (v : ν) (hm : (key, v) ∈ d.entries) :
    d.get key = some v := by
  have hsplit := eq_below_cons_above d.entries d.entries_ascending key v hm
  have hvalue := map_getElem?_length Prod.snd (below key d.entries) (above key d.entries) (key, v)
  have hfound := findKey_of_mem key v d.entries d.entries_ascending hm
  rw [← hsplit, map_snd_entries] at hvalue
  rw [map_fst_entries] at hfound
  rw [get, hfound, Option.bind_some, hvalue]

theorem get_eq (d : ArraySortedDictionary κ ν) (key : κ) : d.get key = d.toMap.get key := by
  cases hv : d.toMap.get key with
  | some v => exact d.get_of_mem key v ((SortedMap.get_eq_some_iff _ _ _).mp hv)
  | none =>
    rw [get, (d.findKey_eq_none_iff key).mpr ((SortedMap.get_eq_none_iff _ _).mp hv), Option.bind_none]

theorem contains_eq (d : ArraySortedDictionary κ ν) (key : κ) :
    d.contains key = (d.toMap.get key).isSome := by
  rw [← get_eq]
  cases hfound : findKey key d.keys with
  | none => rw [contains, get, hfound, Option.bind_none, Option.isSome_none, Option.isSome_none]
  | some pos =>
    obtain ⟨-, v, hm⟩ := d.findKey_eq_some key pos hfound
    rw [contains, hfound, d.get_of_mem key v hm, Option.isSome_some, Option.isSome_some]

/-- The key one place before. -/
theorem getPredecessorKey_of_mem (d : ArraySortedDictionary κ ν) (key : κ) (v : ν)
    (hm : (key, v) ∈ d.entries) :
    d.getPredecessorKey key = .ok ((below key d.entries).getLast?.map Prod.fst) := by
  have hsplit := eq_below_cons_above d.entries d.entries_ascending key v hm
  have hfound := findKey_of_mem key v d.entries d.entries_ascending hm
  rw [map_fst_entries] at hfound
  rw [getPredecessorKey, hfound]
  refine congrArg Except.ok ?_
  generalize hb : below key d.entries = b at hsplit ⊢
  cases b using List.reverseRecOn with
  | nil => simp
  | append_singleton b e =>
    have hkey := map_getElem?_length Prod.fst b ((key, v) :: above key d.entries) e
    rw [List.append_assoc, List.singleton_append] at hsplit
    rw [← hsplit, map_fst_entries] at hkey
    simp [hkey]

theorem minKey_eq (d : ArraySortedDictionary κ ν) :
    d.minKey = d.entries.head?.map Prod.fst := by
  rw [minKey, ← map_fst_entries, List.head?_map]

theorem maxKey_eq (d : ArraySortedDictionary κ ν) :
    d.maxKey = d.entries.getLast?.map Prod.fst := by
  rw [maxKey, ← map_fst_entries, List.getLast?_map]

/-- Visiting places is visiting the entries there. -/
theorem visit_eq {σ : Type} (d : ArraySortedDictionary κ ν) (block : κ → ν → σ → Bool × σ)
    (places : List ℕ) (es : List (κ × ν)) (h : places.map (d.entries[·]?) = es.map some) (s : σ) :
    d.visit block places s = (LLRBNode.enumerate block es s).2 := by
  induction places generalizing es s with
  | nil =>
    obtain rfl := List.map_eq_nil_iff.mp h.symm
    rfl
  | cons i places ih =>
    cases es with
    | nil => cases h
    | cons e es =>
      rw [List.map_cons, List.map_cons, List.cons.injEq] at h
      have hkey : d.keys[i]? = some e.1 := by
        rw [← map_fst_entries, List.getElem?_map, h.1]
        rfl
      have hvalue : d.values[i]? = some e.2 := by
        rw [← map_snd_entries, List.getElem?_map, h.1]
        rfl
      simp only [visit, LLRBNode.enumerate, hkey, hvalue]
      rcases block e.1 e.2 s with ⟨_ | _, s'⟩
      · exact ih es h.2 s'
      · rfl

theorem enumerateKeysAndObjects_eq {σ : Type} (d : ArraySortedDictionary κ ν) (reverse : Bool)
    (block : κ → ν → σ → Bool × σ) (s : σ) :
    d.enumerateKeysAndObjects reverse block s =
      (LLRBNode.enumerate block (if reverse then d.entries.reverse else d.entries) s).2 := by
  have hrange : (List.range d.keys.length).map (d.entries[·]?) = d.entries.map some := by
    rw [← d.length_entries]
    apply List.ext_getElem?
    intro i
    rw [List.getElem?_map, List.getElem?_map]
    by_cases hi : i < d.entries.length
    · rw [List.getElem?_range hi, List.getElem?_eq_getElem hi]
      exact congrArg some (List.getElem?_eq_getElem hi)
    · rw [List.getElem?_eq_none (by rw [List.length_range]; omega),
        List.getElem?_eq_none (Nat.le_of_not_lt hi)]
      rfl
  cases reverse with
  | false => exact d.visit_eq block _ _ hrange s
  | true =>
    refine d.visit_eq block _ _ ?_ s
    rw [List.map_reverse, hrange, ← List.map_reverse]
    rfl

end ArraySortedDictionary

end FlowerGift
