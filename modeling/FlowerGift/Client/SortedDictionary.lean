import FlowerGift.Client.ArrayDictionary
import Mathlib.Data.List.Perm.Subperm

/-!
# The sorted dictionary of the client

`FImmutableSortedDictionary`: two arrays while there are at most 25 entries, a
search tree from the 26th key on.  The change happens inside `insertKey`, which
builds the tree from the arrays and the new entry; there is no way back.

Either way the dictionary stands for a map, and what it answers depends on the
map only:

    (d.insertKey k v).toMap = d.toMap.insert k v        (toMap_insertKey)
    (d.removeKey k).toMap = d.toMap.erase k             (toMap_removeKey)
    d.isEqual d' = true ↔ d.toMap = d'.toMap            (isEqual_iff)
-/

namespace FlowerGift

open Realtime

variable {κ ν : Type} [LinearOrder κ]

/-! ## From a dictionary -/

theorem rootFromDictionary_valid (dictionary : NSDictionary κ ν) (h : dictionary.count + 1 < 2 ^ 32)
    (root : LLRBNode κ ν) (hr : LLRBNode.rootFromDictionary dictionary = .ok root) :
    root.entries = dictionary.toMap.entries ∧ ∃ n, root.Balanced BLACK n := by
  obtain ⟨root', hr', hent, hb⟩ := LLRBNode.rootFromDictionary_spec dictionary h
  obtain rfl : root' = root := Except.ok.inj (hr'.symm.trans hr)
  exact ⟨hent, _, hb⟩

/-- `fromDictionary:withComparator:`; it does not throw. -/
def TreeSortedDictionary.fromDictionary (dictionary : NSDictionary κ ν)
    (h : dictionary.count + 1 < 2 ^ 32) : TreeSortedDictionary κ ν :=
  match hr : LLRBNode.rootFromDictionary dictionary with
  | .ok root =>
    { root := root
      ascending := by
        rw [(rootFromDictionary_valid dictionary h root hr).1]
        exact dictionary.toMap.sorted
      balanced := (rootFromDictionary_valid dictionary h root hr).2 }
  | .error e => by
    exfalso
    obtain ⟨root, hr', -⟩ := LLRBNode.rootFromDictionary_spec dictionary h
    rw [hr'] at hr
    cases hr

theorem TreeSortedDictionary.toMap_fromDictionary (dictionary : NSDictionary κ ν)
    (h : dictionary.count + 1 < 2 ^ 32) :
    (fromDictionary dictionary h).toMap = dictionary.toMap := by
  obtain ⟨root, hr, hent, -⟩ := LLRBNode.rootFromDictionary_spec dictionary h
  apply SortedMap.ext_entries
  unfold fromDictionary
  split
  · next root' hr' =>
    exact (rootFromDictionary_valid dictionary h root' hr').1
  · next e hr' =>
    rw [hr] at hr'
    cases hr'

/-- `fromDictionary:withComparator:` of `FArraySortedDictionary`, the two arrays. -/
def ArraySortedDictionary.arraysFromDictionary (dictionary : NSDictionary κ ν) :
    Except NSException (List κ × List ν) :=
  let keys := dictionary.keys.insertionSort (· ≤ ·)
  if keys.IsChain (· < ·) then
    match keys.mapM dictionary.objectForKey with
    | some values => .ok (keys, values)
    | none => .error ⟨"NSInvalidArgumentException", "object cannot be nil"⟩
  else
    .error ⟨"NSInvalidArgumentException",
      "Can't create FImmutableSortedDictionary with keys with same ordering!"⟩

theorem ArraySortedDictionary.arraysFromDictionary_spec (dictionary : NSDictionary κ ν) :
    arraysFromDictionary dictionary =
      .ok (dictionary.toMap.entries.map Prod.fst, dictionary.toMap.entries.map Prod.snd) := by
  have hkeys := dictionary.keys_sortedEntries
  have hchain : (dictionary.keys.insertionSort (· ≤ ·)).IsChain (· < ·) := by
    rw [← hkeys, List.isChain_iff_pairwise]
    exact List.pairwise_map.mpr dictionary.sortedEntries_ascending
  have hvalues : ∀ es : List (κ × ν), (∀ e ∈ es, e ∈ dictionary.entries) →
      (es.map Prod.fst).mapM dictionary.objectForKey = some (es.map Prod.snd) := by
    intro es hes
    induction es with
    | nil => rfl
    | cons e es ih =>
      have hv := dictionary.objectForKey_of_mem e.1 e.2 (hes e List.mem_cons_self)
      simp [hv, ih fun e' he' => hes e' (List.mem_cons_of_mem _ he')]
  unfold arraysFromDictionary
  rw [if_pos hchain, ← hkeys,
    hvalues dictionary.sortedEntries fun e he => (dictionary.mem_sortedEntries e).mp he]
  rfl

theorem ArraySortedDictionary.holds_fromDictionary (dictionary : NSDictionary κ ν)
    (h : dictionary.count ≤ SORTED_DICTIONARY_ARRAY_TO_RB_TREE_SIZE_THRESHOLD) :
    Holds (dictionary.toMap.entries.map Prod.fst) (dictionary.toMap.entries.map Prod.snd)
      dictionary.toMap.entries :=
  ⟨rfl, rfl, dictionary.toMap.sorted, le_of_eq_of_le (List.length_insertionSort _ _) h⟩

def ArraySortedDictionary.fromDictionary (dictionary : NSDictionary κ ν)
    (h : dictionary.count ≤ SORTED_DICTIONARY_ARRAY_TO_RB_TREE_SIZE_THRESHOLD) :
    ArraySortedDictionary κ ν :=
  match hr : arraysFromDictionary dictionary with
  | .ok (keys, values) => ofArrays keys values (by
      rw [arraysFromDictionary_spec] at hr
      cases hr
      exact ⟨_, holds_fromDictionary dictionary h⟩)
  | .error e => by
    exfalso
    rw [arraysFromDictionary_spec] at hr
    cases hr

theorem ArraySortedDictionary.toMap_fromDictionary (dictionary : NSDictionary κ ν)
    (h : dictionary.count ≤ SORTED_DICTIONARY_ARRAY_TO_RB_TREE_SIZE_THRESHOLD) :
    (fromDictionary dictionary h).toMap = dictionary.toMap := by
  apply SortedMap.ext_entries
  unfold fromDictionary
  split
  · next keys values hr =>
    rw [arraysFromDictionary_spec] at hr
    cases hr
    exact entries_ofArrays _ _ _ (holds_fromDictionary dictionary h)
  · next e hr =>
    rw [arraysFromDictionary_spec] at hr
    cases hr

/-! ## The dictionary -/

/-- The two subclasses of `FImmutableSortedDictionary`. -/
inductive ImmutableSortedDictionary (κ ν : Type) [LinearOrder κ]
  | array (d : ArraySortedDictionary κ ν)
  | tree (d : TreeSortedDictionary κ ν)

namespace ArraySortedDictionary

/-- `initWithComparator:`. -/
def init : ArraySortedDictionary κ ν := ofArrays [] [] ⟨[], rfl, rfl, ascending_nil, Nat.zero_le _⟩

theorem toMap_init : (init : ArraySortedDictionary κ ν).toMap = ∅ := rfl

/-- The mutable dictionary that `insertKey` fills with the arrays and the new entry. -/
def extended (d : ArraySortedDictionary κ ν) (key : κ) (value : ν) (hnew : findKey key d.keys = none) :
    NSDictionary κ ν where
  entries := d.entries ++ [(key, value)]
  nodup := by
    rw [List.map_append, List.nodup_append]
    refine ⟨List.pairwise_map.mpr (d.entries_ascending.imp fun h => h.ne), by simp, ?_⟩
    rintro k hk k' hk' rfl
    obtain ⟨⟨k, v⟩, hm, rfl⟩ := List.mem_map.mp hk
    obtain rfl : k = key := by simpa using hk'
    exact (d.findKey_eq_none_iff k).mp hnew v hm

theorem count_extended (d : ArraySortedDictionary κ ν) (key : κ) (value : ν)
    (hnew : findKey key d.keys = none) : (d.extended key value hnew).count + 1 < 2 ^ 32 := by
  have hsmall := d.small
  have hlength := d.length_entries
  simp only [NSDictionary.count, extended, List.length_append, List.length_singleton]
  unfold SORTED_DICTIONARY_ARRAY_TO_RB_TREE_SIZE_THRESHOLD at hsmall
  omega

theorem toMap_extended (d : ArraySortedDictionary κ ν) (key : κ) (value : ν)
    (hnew : findKey key d.keys = none) :
    (d.extended key value hnew).toMap = d.toMap.insert key value := by
  apply SortedMap.ext_entries
  rw [SortedMap.entries_insert]
  refine Ascending.ext _ _ (SortedMap.sorted _) (ascending_insert _ d.entries_ascending key value) ?_
  intro e
  have hsplit := eq_below_append_above d.entries d.entries_ascending key
    ((d.findKey_eq_none_iff key).mp hnew)
  have hmem : e ∈ d.entries ↔ e ∈ below key d.entries ∨ e ∈ above key d.entries := by
    conv_lhs => rw [hsplit, List.mem_append]
  refine ((d.extended key value hnew).mem_sortedEntries e).trans ?_
  simp only [extended, toMap, List.mem_append, List.mem_cons, List.not_mem_nil, or_false, hmem]
  tauto

def insertKey (d : ArraySortedDictionary κ ν) (key : κ) (value : ν) : ImmutableSortedDictionary κ ν :=
  match hpos : findKey key d.keys with
  | none =>
    if hroom : d.count ≥ SORTED_DICTIONARY_ARRAY_TO_RB_TREE_SIZE_THRESHOLD then
      .tree (.fromDictionary (d.extended key value hpos) (d.count_extended key value hpos))
    else
      .array (ofArrays (d.keys.insertIdx (findInsertPositionForKey key d.keys) key)
        (d.values.insertIdx (findInsertPositionForKey key d.keys) value)
        ⟨_, d.holds_new key value hpos (Nat.lt_of_not_le hroom)⟩)
  | some pos =>
    .array (ofArrays (d.keys.set pos key) (d.values.set pos value)
      ⟨_, d.holds_replaced key value pos hpos⟩)

def removeKey (d : ArraySortedDictionary κ ν) (key : κ) : ArraySortedDictionary κ ν :=
  match hpos : findKey key d.keys with
  | none => d
  | some pos => ofArrays (d.keys.eraseIdx pos) (d.values.eraseIdx pos) ⟨_, d.holds_removed key pos hpos⟩

theorem toMap_removeKey (d : ArraySortedDictionary κ ν) (key : κ) :
    (d.removeKey key).toMap = d.toMap.erase key := by
  unfold removeKey
  split
  · next hpos =>
    rw [SortedMap.erase_of_get_none]
    exact (SortedMap.get_eq_none_iff _ _).mpr ((d.findKey_eq_none_iff key).mp hpos)
  · next pos hpos =>
    apply SortedMap.ext_entries
    rw [SortedMap.entries_erase]
    exact entries_ofArrays _ _ _ (d.holds_removed key pos hpos)

end ArraySortedDictionary

namespace ImmutableSortedDictionary

/-- The map a dictionary stands for. -/
def toMap : ImmutableSortedDictionary κ ν → SortedMap κ ν
  | array d => d.toMap
  | tree d => d.toMap

/-- `dictionaryWithComparator:`. -/
def empty : ImmutableSortedDictionary κ ν := array .init

def fromDictionary (dictionary : NSDictionary κ ν) (h : dictionary.count + 1 < 2 ^ 32) :
    ImmutableSortedDictionary κ ν :=
  if hsmall : dictionary.count ≤ SORTED_DICTIONARY_ARRAY_TO_RB_TREE_SIZE_THRESHOLD then
    array (.fromDictionary dictionary hsmall)
  else tree (.fromDictionary dictionary h)

def insertKey (d : ImmutableSortedDictionary κ ν) (aKey : κ) (aValue : ν) :
    ImmutableSortedDictionary κ ν :=
  match d with
  | array d => d.insertKey aKey aValue
  | tree d => tree (d.insertKey aKey aValue)

def removeKey (d : ImmutableSortedDictionary κ ν) (aKey : κ) : ImmutableSortedDictionary κ ν :=
  match d with
  | array d => array (d.removeKey aKey)
  | tree d => tree (d.removeKey aKey)

def get (d : ImmutableSortedDictionary κ ν) (key : κ) : Option ν :=
  match d with
  | array d => d.get key
  | tree d => d.get key

def contains (d : ImmutableSortedDictionary κ ν) (key : κ) : Bool :=
  match d with
  | array d => d.contains key
  | tree d => d.contains key

def getPredecessorKey (d : ImmutableSortedDictionary κ ν) (key : κ) : Except NSException (Option κ) :=
  match d with
  | array d => d.getPredecessorKey key
  | tree d => d.getPredecessorKey key

def isEmpty : ImmutableSortedDictionary κ ν → Bool
  | array d => d.isEmpty
  | tree d => d.isEmpty

def count : ImmutableSortedDictionary κ ν → ℕ
  | array d => d.count
  | tree d => d.count

def minKey : ImmutableSortedDictionary κ ν → Option κ
  | array d => d.minKey
  | tree d => d.minKey

def maxKey : ImmutableSortedDictionary κ ν → Option κ
  | array d => d.maxKey
  | tree d => d.maxKey

def enumerateKeysAndObjects {σ : Type} (d : ImmutableSortedDictionary κ ν) (reverse : Bool)
    (block : κ → ν → σ → Bool × σ) (s : σ) : σ :=
  match d with
  | array d => d.enumerateKeysAndObjects reverse block s
  | tree d => d.enumerateKeysAndObjects reverse block s

/-- `isEqual:`; the enumeration stops at the first entry the other dictionary lacks. -/
def isEqual [DecidableEq ν] (self other : ImmutableSortedDictionary κ ν) : Bool :=
  if self.count != other.count then false
  else
    self.enumerateKeysAndObjects false (fun key value isEqual =>
      let isEqual := isEqual && (other.get key = some value)
      (!isEqual, isEqual)) true

/-! ## The map decides -/

@[simp] theorem toMap_empty : (empty : ImmutableSortedDictionary κ ν).toMap = ∅ := rfl

theorem toMap_fromDictionary (dictionary : NSDictionary κ ν) (h : dictionary.count + 1 < 2 ^ 32) :
    (fromDictionary dictionary h).toMap = dictionary.toMap := by
  unfold fromDictionary
  split
  · exact ArraySortedDictionary.toMap_fromDictionary dictionary _
  · exact TreeSortedDictionary.toMap_fromDictionary dictionary h

@[simp] theorem toMap_insertKey (d : ImmutableSortedDictionary κ ν) (aKey : κ) (aValue : ν) :
    (d.insertKey aKey aValue).toMap = d.toMap.insert aKey aValue := by
  cases d with
  | tree d => exact d.toMap_insertKey aKey aValue
  | array d =>
    simp only [insertKey, ArraySortedDictionary.insertKey]
    split
    · next hpos =>
      split
      · exact (TreeSortedDictionary.toMap_fromDictionary _ _).trans (d.toMap_extended aKey aValue hpos)
      · next hroom =>
        apply SortedMap.ext_entries
        rw [SortedMap.entries_insert]
        exact ArraySortedDictionary.entries_ofArrays _ _ _
          (d.holds_new aKey aValue hpos (Nat.lt_of_not_le hroom))
    · next pos hpos =>
      apply SortedMap.ext_entries
      rw [SortedMap.entries_insert]
      exact ArraySortedDictionary.entries_ofArrays _ _ _ (d.holds_replaced aKey aValue pos hpos)

@[simp] theorem toMap_removeKey (d : ImmutableSortedDictionary κ ν) (aKey : κ) :
    (d.removeKey aKey).toMap = d.toMap.erase aKey := by
  cases d with
  | tree d => exact d.toMap_removeKey aKey
  | array d => exact d.toMap_removeKey aKey

theorem get_eq (d : ImmutableSortedDictionary κ ν) (key : κ) : d.get key = d.toMap.get key := by
  cases d with
  | tree d => exact d.get_eq key
  | array d => exact d.get_eq key

theorem contains_eq (d : ImmutableSortedDictionary κ ν) (key : κ) :
    d.contains key = (d.toMap.get key).isSome := by
  cases d with
  | tree d => exact congrArg Option.isSome (d.get_eq key)
  | array d => exact d.contains_eq key

theorem count_eq (d : ImmutableSortedDictionary κ ν) : d.count = d.toMap.entries.length := by
  cases d with
  | tree d => exact d.root.length_entries.symm
  | array d => exact d.length_entries.symm

theorem minKey_eq (d : ImmutableSortedDictionary κ ν) :
    d.minKey = d.toMap.entries.head?.map Prod.fst := by
  cases d with
  | tree d => exact d.root.minKey_eq
  | array d => exact d.minKey_eq

theorem maxKey_eq (d : ImmutableSortedDictionary κ ν) :
    d.maxKey = d.toMap.entries.getLast?.map Prod.fst := by
  cases d with
  | tree d => exact d.root.maxKey_eq
  | array d => exact d.maxKey_eq

theorem getPredecessorKey_of_mem (d : ImmutableSortedDictionary κ ν) (key : κ) (v : ν)
    (hm : (key, v) ∈ d.toMap.entries) :
    d.getPredecessorKey key = .ok ((below key d.toMap.entries).getLast?.map Prod.fst) := by
  cases d with
  | tree d =>
    exact (d.root.predecessorKey_of_mem key v none d.ascending hm).trans
      (congrArg Except.ok (Option.or_none))
  | array d => exact d.getPredecessorKey_of_mem key v hm

theorem enumerateKeysAndObjects_eq {σ : Type} (d : ImmutableSortedDictionary κ ν) (reverse : Bool)
    (block : κ → ν → σ → Bool × σ) (s : σ) :
    d.enumerateKeysAndObjects reverse block s = (LLRBNode.enumerate block
      (if reverse then d.toMap.entries.reverse else d.toMap.entries) s).2 := by
  cases d with
  | tree d =>
    cases reverse with
    | false => exact congrArg Prod.snd (d.root.inorderTraversal_eq block s)
    | true => exact congrArg Prod.snd (d.root.reverseTraversal_eq block s)
  | array d => exact d.enumerateKeysAndObjects_eq reverse block s

theorem getPredecessorKey_of_not_mem (d : ImmutableSortedDictionary κ ν) (key : κ)
    (hm : ∀ v, (key, v) ∉ d.toMap.entries) : ∃ e, d.getPredecessorKey key = .error e := by
  cases d with
  | tree d => exact ⟨_, d.root.predecessorKey_of_not_mem key none hm⟩
  | array d =>
    refine ⟨⟨"NSInternalInconsistencyException",
      "Can't get predecessor key for non-existent key"⟩, ?_⟩
    simp only [getPredecessorKey, ArraySortedDictionary.getPredecessorKey,
      (d.findKey_eq_none_iff key).mpr hm]

/-- A key that is there has the last smaller key as its predecessor, the first one nil; for any other
key both kinds throw. -/
theorem getPredecessorKey_eq_ok_iff (d : ImmutableSortedDictionary κ ν) (key : κ) (p : Option κ) :
    d.getPredecessorKey key = .ok p ↔
      (d.toMap.get key).isSome ∧ p = (below key d.toMap.entries).getLast?.map Prod.fst := by
  cases hg : d.toMap.get key with
  | none =>
    obtain ⟨e, he⟩ := d.getPredecessorKey_of_not_mem key ((SortedMap.get_eq_none_iff _ _).mp hg)
    simp [he]
  | some v =>
    rw [d.getPredecessorKey_of_mem key v ((SortedMap.get_eq_some_iff _ _ _).mp hg)]
    simp [eq_comm]

/-! ### Equality -/

/-- The enumeration of `isEqual:` answers whether the other dictionary has every entry. -/
theorem enumerate_isEqual [DecidableEq ν] (other : ImmutableSortedDictionary κ ν)
    (es : List (κ × ν)) :
    (LLRBNode.enumerate (fun key value isEqual =>
      let isEqual := isEqual && (other.get key = some value)
      (!isEqual, isEqual)) es true).2 = true ↔ ∀ e ∈ es, other.toMap.get e.1 = some e.2 := by
  induction es with
  | nil => simp [LLRBNode.enumerate]
  | cons e es ih =>
    simp only [LLRBNode.enumerate, Bool.true_and, List.forall_mem_cons, other.get_eq]
    by_cases he : other.toMap.get e.1 = some e.2
    · rw [decide_eq_true he]
      simpa [he, other.get_eq] using ih
    · simp [he]

/-- Dictionaries are equal exactly when their maps are, arrays and trees alike. -/
theorem isEqual_iff [DecidableEq ν] (self other : ImmutableSortedDictionary κ ν) :
    self.isEqual other = true ↔ self.toMap = other.toMap := by
  unfold isEqual
  rw [self.count_eq, other.count_eq, enumerateKeysAndObjects_eq]
  by_cases hc : self.toMap.entries.length = other.toMap.entries.length
  · rw [if_neg (by simpa using hc)]
    rw [if_neg Bool.false_ne_true, enumerate_isEqual]
    constructor
    · intro h
      have hsub : self.toMap.entries ⊆ other.toMap.entries := fun e he =>
        (SortedMap.get_eq_some_iff _ _ _).mp (h e he)
      have hperm := (List.subperm_of_subset self.toMap.entries_nodup hsub).perm_of_length_le (le_of_eq hc.symm)
      exact SortedMap.ext_entries _ _ (Ascending.ext _ _ self.toMap.sorted other.toMap.sorted
        fun e => hperm.mem_iff)
    · intro h e he
      exact h ▸ (SortedMap.get_eq_some_iff _ _ _).mpr he
  · rw [if_pos (by simpa using hc)]
    constructor
    · intro h
      cases h
    · intro h
      exact absurd (congrArg (fun m => m.entries.length) h) hc

/-! ### Runs of updates -/

def update (d : ImmutableSortedDictionary κ ν) : SortedMap.Update κ ν → ImmutableSortedDictionary κ ν
  | .insert k v => d.insertKey k v
  | .erase k => d.removeKey k

theorem toMap_update (d : ImmutableSortedDictionary κ ν) (u : SortedMap.Update κ ν) :
    (d.update u).toMap = d.toMap.update u := by
  cases u with
  | insert k v => exact d.toMap_insertKey k v
  | erase k => exact d.toMap_removeKey k

def isArray : ImmutableSortedDictionary κ ν → Bool
  | array _ => true
  | tree _ => false

theorem length_array (d : ImmutableSortedDictionary κ ν) (h : d.isArray = true) :
    d.toMap.entries.length ≤ SORTED_DICTIONARY_ARRAY_TO_RB_TREE_SIZE_THRESHOLD := by
  cases d with
  | array d => exact le_of_eq_of_le d.length_entries d.small
  | tree d => cases h

/-- Inserting makes a tree of the arrays exactly when the map gets a 26th entry. -/
theorem isArray_insertKey (d : ArraySortedDictionary κ ν) (k : κ) (v : ν) :
    ((array d).insertKey k v).isArray = true ↔ (d.toMap.insert k v).entries.length ≤
      SORTED_DICTIONARY_ARRAY_TO_RB_TREE_SIZE_THRESHOLD := by
  constructor
  · intro h
    have hlength := length_array _ h
    rwa [toMap_insertKey] at hlength
  · intro h
    simp only [insertKey, ArraySortedDictionary.insertKey]
    split
    · next hpos =>
      -- a new key: one entry more than there are keys
      have hsplit := eq_below_append_above d.entries d.entries_ascending k
        ((d.findKey_eq_none_iff k).mp hpos)
      have hlength := congrArg List.length hsplit
      rw [d.length_entries, List.length_append] at hlength
      rw [SortedMap.entries_insert, List.length_append, List.length_cons] at h
      have hroom : ¬ d.count ≥ SORTED_DICTIONARY_ARRAY_TO_RB_TREE_SIZE_THRESHOLD := by
        change ¬ d.keys.length ≥ _
        change (below k d.entries).length + ((above k d.entries).length + 1) ≤ _ at h
        omega
      rw [dif_neg hroom]
      rfl
    · rfl

theorem isArray_update (d : ArraySortedDictionary κ ν) (u : SortedMap.Update κ ν) :
    ((array d).update u).isArray = true ↔ (d.toMap.update u).entries.length ≤
      SORTED_DICTIONARY_ARRAY_TO_RB_TREE_SIZE_THRESHOLD := by
  cases u with
  | insert k v => exact isArray_insertKey d k v
  | erase k =>
    have hlength := length_array ((array d).removeKey k) rfl
    rw [toMap_removeKey] at hlength
    exact ⟨fun _ => hlength, fun _ => rfl⟩

theorem isArray_foldl_tree (us : List (SortedMap.Update κ ν)) (d : TreeSortedDictionary κ ν) :
    (us.foldl update (tree d)).isArray = false := by
  induction us generalizing d with
  | nil => rfl
  | cons u us ih =>
    cases u with
    | insert k v => exact ih (d.insertKey k v)
    | erase k => exact ih (d.removeKey k)

/-- Along a run of updates the arrays last exactly as long as no map had more than 25 entries. -/
theorem isArray_foldl_update (us : List (SortedMap.Update κ ν)) (d : ArraySortedDictionary κ ν) :
    (us.foldl update (array d)).isArray = true ↔
      ∀ us' : List (SortedMap.Update κ ν), us' <+: us →
        (us'.foldl SortedMap.update d.toMap).entries.length ≤
          SORTED_DICTIONARY_ARRAY_TO_RB_TREE_SIZE_THRESHOLD := by
  induction us generalizing d with
  | nil =>
    refine ⟨fun _ us' h => ?_, fun _ => rfl⟩
    rw [List.prefix_nil.mp h]
    exact length_array (array d) rfl
  | cons u us ih =>
    have hmap := (array d).toMap_update u
    have harray := isArray_update d u
    rw [List.foldl_cons]
    cases hd' : (array d).update u with
    | array d' =>
      rw [hd'] at hmap
      have hmap : d'.toMap = d.toMap.update u := hmap
      rw [ih d', hmap]
      constructor
      · intro h us' hus'
        rcases List.prefix_cons_iff.mp hus' with rfl | ⟨us'', rfl, hus''⟩
        · exact length_array (array d) rfl
        · rw [List.foldl_cons]
          exact h us'' hus''
      · intro h us' hus'
        have hlength := h (u :: us') (List.cons_prefix_cons.mpr ⟨rfl, hus'⟩)
        rwa [List.foldl_cons] at hlength
    | tree d' =>
      rw [hd'] at harray
      refine ⟨fun h => ?_, fun h => ?_⟩
      · rw [isArray_foldl_tree] at h
        cases h
      · have hlength := h [u] (List.cons_prefix_cons.mpr ⟨rfl, List.nil_prefix⟩)
        cases harray.mpr hlength

/-- After any updates the dictionary answers as the map with the same updates does. -/
theorem foldl_update_answers (d : ImmutableSortedDictionary κ ν) (us : List (SortedMap.Update κ ν)) :
    let d' := us.foldl update d
    let m := us.foldl SortedMap.update d.toMap
    (∀ key, d'.get key = m.get key) ∧ (∀ key, d'.contains key = (m.get key).isSome) ∧
      d'.count = m.entries.length ∧ d'.minKey = m.keys.head? ∧ d'.maxKey = m.keys.getLast? ∧
      ∀ (σ : Type) (reverse : Bool) (block : κ → ν → σ → Bool × σ) (s : σ),
        d'.enumerateKeysAndObjects reverse block s =
          (LLRBNode.enumerate block (if reverse then m.entries.reverse else m.entries) s).2 := by
  intro d' m
  have hm : d'.toMap = m := SortedMap.foldl_update toMap update toMap_update d us
  rw [← hm]
  refine ⟨d'.get_eq, d'.contains_eq, d'.count_eq, ?_, ?_, fun σ => d'.enumerateKeysAndObjects_eq⟩
  · rw [d'.minKey_eq, SortedMap.keys, List.head?_map]
  · rw [d'.maxKey_eq, SortedMap.keys, List.getLast?_map]

end ImmutableSortedDictionary

end FlowerGift
