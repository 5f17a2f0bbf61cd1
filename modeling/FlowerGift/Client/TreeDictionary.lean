import FlowerGift.Client.LLRBRemove

/-!
# The sorted dictionary on a search tree

`FTreeSortedDictionary`: a root that is colored black after every update.  The
invariants of the header are fields, so an update that broke the order or the
balance could not be written; `check` is the source's own test of the balance.

A dictionary stands for the map of its entries (`toMap`): its operations are
those of `SortedMap`, along any sequence of updates (`toMap_update`).
-/

namespace FlowerGift

open Realtime

namespace LLRBNode

variable {κ ν : Type}

/-! ## The source's check of the balance -/

/-- Why `check` throws; the last reason carries what its text shows. -/
inductive CheckError (ν : Type)
  | redChild
  | rightRed
  | blackDepth (value : ν) (color : LLRBColor) (left right : ℕ)
  deriving DecidableEq, Repr

def CheckError.reason (describe : ν → String) : CheckError ν → String
  | redChild => "Red node has a red child"
  | rightRed => "Right child is red"
  | blackDepth value color left right =>
    "(" ++ describe value ++ " -> " ++ (if color then "red" else "black") ++ ")blackDepth: " ++
      toString left ++ " ; self.right check: " ++ toString right

def check : LLRBNode κ ν → Except (CheckError ν) ℕ
  | emptyNode => .ok 0
  | valueNode _ v c l r =>
    if c && l.isRed then .error .redChild
    else if r.isRed then .error .rightRed
    else do
      let blackDepth ← l.check
      let right ← r.check
      if blackDepth != right then .error (.blackDepth v c blackDepth right)
      else .ok (blackDepth + if c then 0 else 1)

/-- `checkMaxDepth`, of a tree that is not empty: `FLLRBEmptyNode` has none. -/
def checkMaxDepth (t : LLRBNode κ ν) : Except (CheckError ν) Bool := do
  let blackDepth ← t.check
  return 2 ^ blackDepth ≤ t.count + 1

theorem check_of_balanced (t : LLRBNode κ ν) (c : LLRBColor) (n : ℕ) (h : Balanced t c n) :
    t.check = .ok n := by
  induction h with
  | empty => rfl
  | red hl hr ihl ihr => simp [check, hl.isRed_eq, hr.isRed_eq, ihl, ihr, bind, Except.bind]
  | black hl hr ihl ihr => simp [check, hr.isRed_eq, ihl, ihr, bind, Except.bind]

/-! ## The depth -/

/-- A tree with `n` black nodes on every path has at least `2 ^ n - 1` nodes. -/
theorem Balanced.two_pow_le (t : LLRBNode κ ν) (c : LLRBColor) (n : ℕ) (h : Balanced t c n) :
    2 ^ n ≤ t.count + 1 := by
  induction h with
  | empty => simp
  | red _ _ ihl ihr => simp only [count]; omega
  | black _ _ ihl ihr => rw [Nat.pow_succ]; simp only [count]; omega

/-- The keys the loop of `get` compares with, from the root down (`isSome_get_iff`). -/
def comparisons [LinearOrder κ] (key : κ) : LLRBNode κ ν → List κ
  | emptyNode => []
  | valueNode k _ _ l r =>
    match compare key k with
    | .eq => [k]
    | .lt => k :: l.comparisons key
    | .gt => k :: r.comparisons key

theorem Balanced.comparisons_le [LinearOrder κ] (t : LLRBNode κ ν) (c : LLRBColor) (n : ℕ) (key : κ)
    (h : Balanced t c n) : (t.comparisons key).length ≤ 2 * n + if c then 1 else 0 := by
  induction h with
  | empty => simp [comparisons]
  | @red k _ _ _ n _ _ ihl ihr =>
    simp only [comparisons]
    cases compare key k <;> simp at ihl ihr ⊢ <;> omega
  | @black k _ _ _ c n _ _ ihl ihr =>
    simp only [comparisons]
    cases compare key k <;> cases c <;> simp at ihl ihr ⊢ <;> omega

/-! ## Looking up -/

/-- The loop of `get`. -/
def get [LinearOrder κ] (key : κ) : LLRBNode κ ν → Option ν
  | emptyNode => none
  | valueNode k v _ l r =>
    match compare key k with
    | .eq => some v
    | .lt => l.get key
    | .gt => r.get key

/-- The loop ends at the last key it compared with: it answers if that one is the key looked for. -/
theorem isSome_get_iff [LinearOrder κ] (t : LLRBNode κ ν) (key : κ) :
    (t.get key).isSome = true ↔ (t.comparisons key).getLast? = some key := by
  induction t with
  | emptyNode => simp [get, comparisons]
  | valueNode k v c l r ihl ihr =>
    have hlast : ∀ ks : List κ, k ≠ key → ((k :: ks).getLast? = some key ↔ ks.getLast? = some key) := by
      intro ks hne
      cases ks with
      | nil => simpa using hne
      | cons k' ks => rw [List.getLast?_cons_cons]
    rcases lt_trichotomy key k with hlt | rfl | hgt
    · have hcmp : compare key k = .lt := compare_lt_iff_lt.mpr hlt
      simp only [get, comparisons, hcmp]
      rw [ihl, hlast _ hlt.ne']
    · simp [get, comparisons]
    · have hcmp : compare key k = .gt := compare_gt_iff_gt.mpr hgt
      simp only [get, comparisons, hcmp]
      rw [ihr, hlast _ hgt.ne]

theorem get_eq_some_iff [LinearOrder κ] (t : LLRBNode κ ν) (key : κ) (v : ν)
    (hs : Ascending t.entries) : t.get key = some v ↔ (key, v) ∈ t.entries := by
  induction t with
  | emptyNode => simp [get, entries]
  | valueNode k w c l r ihl ihr =>
    simp only [entries] at hs ⊢
    obtain ⟨hl, hr, -⟩ := (ascending_pivot_iff _ _ _).mp hs
    rw [get]
    cases hcmp : compare key k with
    | lt =>
      have hk : key < k := compare_lt_iff_lt.mp hcmp
      exact (ihl hl).trans ⟨List.mem_append_left _, fun h => mem_left_of_lt _ _ (k, w) hs _ h hk⟩
    | eq =>
      obtain rfl : key = k := compare_eq_iff_eq.mp hcmp
      simp only [Option.some.injEq]
      constructor
      · rintro rfl
        simp
      · intro h
        exact (congrArg Prod.snd (eq_pivot_of_eq _ _ (key, w) hs _ h rfl)).symm
    | gt =>
      have hk : k < key := compare_gt_iff_gt.mp hcmp
      exact (ihr hr).trans ⟨fun h => List.mem_append_right _ (List.mem_cons_of_mem _ h),
        fun h => mem_right_of_gt _ _ (k, w) hs _ h hk⟩

theorem minKey_eq (t : LLRBNode κ ν) : t.minKey = t.entries.head?.map Prod.fst := by
  cases t with
  | emptyNode => rfl
  | valueNode k v c l r =>
    obtain ⟨k', v', c', l', r', hmin, hhead⟩ := min_eq (valueNode k v c l r) rfl
    rw [minKey, hmin, hhead]
    rfl

theorem exists_getLast (k : κ) (v : ν) (c : LLRBColor) (l r : LLRBNode κ ν) :
    ∃ e, (valueNode k v c l r).entries.getLast? = some e := by
  rw [entries, List.getLast?_append, List.getLast?_cons]
  exact ⟨_, rfl⟩

theorem maxKey_eq (t : LLRBNode κ ν) : t.maxKey = t.entries.getLast?.map Prod.fst := by
  induction t with
  | emptyNode => rfl
  | valueNode k v c l r _ ihr =>
    rw [maxKey, entries, List.getLast?_append]
    cases r with
    | emptyNode => simp [entries]
    | valueNode rk rv rc rl rr =>
      obtain ⟨e, he⟩ := exists_getLast rk rv rc rl rr
      rw [if_neg (by simp), ihr, List.getLast?_cons, he]
      rfl

end LLRBNode

/-- What a method throws. -/
structure NSException where
  name : String
  reason : String
  deriving DecidableEq, Repr

namespace LLRBNode

variable {κ ν : Type} [LinearOrder κ]

/-- The loop of `getPredecessorKey`; its inner loop runs as `maxKey` does. -/
def predecessorKey (key : κ) : LLRBNode κ ν → Option κ → Except NSException (Option κ)
  | emptyNode, _ => .error ⟨"NonexistentKey", "getPredecessorKey called with nonexistent key."⟩
  | valueNode k _ _ l r, rightParent =>
    match compare key k with
    | .eq => .ok (if !l.isEmpty then l.maxKey else rightParent)
    | .lt => l.predecessorKey key rightParent
    | .gt => r.predecessorKey key (some k)

/-- The last key below a key that is there; `rightParent` stands in where the subtree has none. -/
theorem predecessorKey_of_mem (t : LLRBNode κ ν) (key : κ) (v : ν) (rightParent : Option κ)
    (hs : Ascending t.entries) (hm : (key, v) ∈ t.entries) :
    t.predecessorKey key rightParent =
      .ok (((below key t.entries).getLast?.map Prod.fst).or rightParent) := by
  induction t generalizing rightParent with
  | emptyNode => cases hm
  | valueNode k w c l r ihl ihr =>
    simp only [entries] at hs hm ⊢
    obtain ⟨hl, hr, -⟩ := (ascending_pivot_iff _ _ _).mp hs
    rw [predecessorKey]
    cases hcmp : compare key k with
    | lt =>
      have hk : key < k := compare_lt_iff_lt.mp hcmp
      rw [below_of_lt key _ _ _ hs hk]
      exact ihl _ hl (mem_left_of_lt _ _ (k, w) hs _ hm hk)
    | eq =>
      obtain rfl : key = k := compare_eq_iff_eq.mp hcmp
      rw [below_of_eq _ _ (key, w) hs]
      cases l with
      | emptyNode => rfl
      | valueNode lk lv lc ll lr =>
        obtain ⟨e, he⟩ := exists_getLast lk lv lc ll lr
        simp [maxKey_eq, he]
    | gt =>
      have hk : k < key := compare_gt_iff_gt.mp hcmp
      rw [below_of_gt key _ _ _ hs hk, List.getLast?_append]
      simp only [ihr _ hr (mem_right_of_gt _ _ (k, w) hs _ hm hk), List.getLast?_cons]
      cases (below key r.entries).getLast? <;> rfl

theorem predecessorKey_of_not_mem (t : LLRBNode κ ν) (key : κ) (rightParent : Option κ)
    (hm : ∀ v, (key, v) ∉ t.entries) :
    t.predecessorKey key rightParent =
      .error ⟨"NonexistentKey", "getPredecessorKey called with nonexistent key."⟩ := by
  induction t generalizing rightParent with
  | emptyNode => rfl
  | valueNode k w c l r ihl ihr =>
    simp only [entries, List.mem_append, List.mem_cons, not_or] at hm
    rw [predecessorKey]
    cases hcmp : compare key k with
    | lt => exact ihl _ fun v => (hm v).1
    | eq =>
      obtain rfl : key = k := compare_eq_iff_eq.mp hcmp
      exact absurd rfl (hm w).2.1
    | gt => exact ihr _ fun v => (hm v).2.2

/-! ## Enumerating -/

/-- Calling an action on one entry after the other until it answers true. -/
def enumerate {κ ν σ : Type} (action : κ → ν → σ → Bool × σ) : List (κ × ν) → σ → Bool × σ
  | [], s => (false, s)
  | e :: es, s =>
    match action e.1 e.2 s with
    | (true, s) => (true, s)
    | (false, s) => enumerate action es s

theorem enumerate_append {κ ν σ : Type} (action : κ → ν → σ → Bool × σ) (l₁ l₂ : List (κ × ν))
    (s : σ) :
    enumerate action (l₁ ++ l₂) s =
      match enumerate action l₁ s with
      | (true, s) => (true, s)
      | (false, s) => enumerate action l₂ s := by
  induction l₁ generalizing s with
  | nil => rfl
  | cons e l ih =>
    simp only [List.cons_append, enumerate]
    rcases action e.1 e.2 s with ⟨_ | _, s'⟩
    · exact ih s'
    · rfl

omit [LinearOrder κ] in
theorem inorderTraversal_eq {σ : Type} (action : κ → ν → σ → Bool × σ) (t : LLRBNode κ ν) (s : σ) :
    t.inorderTraversal action s = enumerate action t.entries s := by
  induction t generalizing s with
  | emptyNode => rfl
  | valueNode k v c l r ihl ihr =>
    rw [inorderTraversal, entries, enumerate_append, ihl]
    rcases enumerate action l.entries s with ⟨_ | _, s'⟩
    · simp only [enumerate]
      rcases action k v s' with ⟨_ | _, s''⟩
      · exact ihr s''
      · rfl
    · rfl

omit [LinearOrder κ] in
theorem reverseTraversal_eq {σ : Type} (action : κ → ν → σ → Bool × σ) (t : LLRBNode κ ν) (s : σ) :
    t.reverseTraversal action s = enumerate action t.entries.reverse s := by
  induction t generalizing s with
  | emptyNode => rfl
  | valueNode k v c l r ihl ihr =>
    rw [reverseTraversal, entries, List.reverse_append, List.reverse_cons, List.append_assoc,
      enumerate_append, ihr]
    rcases enumerate action r.entries.reverse s with ⟨_ | _, s'⟩
    · simp only [enumerate, List.singleton_append]
      rcases action k v s' with ⟨_ | _, s''⟩
      · exact ihl s''
      · rfl
    · rfl

end LLRBNode

/-! ## The dictionary -/

structure TreeSortedDictionary (κ ν : Type) [LinearOrder κ] where
  root : LLRBNode κ ν
  ascending : Ascending root.entries
  balanced : ∃ n, root.Balanced BLACK n

namespace TreeSortedDictionary

variable {κ ν : Type} [LinearOrder κ]

/-- `initWithComparator:`. -/
def init : TreeSortedDictionary κ ν := ⟨.emptyNode, ascending_nil, 0, .empty⟩

/-- The map a dictionary stands for. -/
def toMap (d : TreeSortedDictionary κ ν) : SortedMap κ ν := ⟨d.root.entries, d.ascending⟩

def insertKey (d : TreeSortedDictionary κ ν) (aKey : κ) (aValue : ν) : TreeSortedDictionary κ ν where
  root := (d.root.insertKey aKey aValue).withColor BLACK
  ascending := by
    rw [LLRBNode.entries_withColor, d.root.entries_insertKey aKey aValue d.ascending]
    exact ascending_insert _ d.ascending aKey aValue
  balanced := by
    obtain ⟨n, h⟩ := d.balanced
    exact d.root.rootable_insertKey BLACK n aKey aValue h

def get (d : TreeSortedDictionary κ ν) (key : κ) : Option ν := d.root.get key

def contains (d : TreeSortedDictionary κ ν) (key : κ) : Bool := (d.get key).isSome

theorem get_eq (d : TreeSortedDictionary κ ν) (key : κ) : d.get key = d.toMap.get key := by
  apply Option.ext
  intro v
  rw [SortedMap.get_eq_some_iff]
  exact d.root.get_eq_some_iff key v d.ascending

theorem remove_spec (d : TreeSortedDictionary κ ν) (aKey : κ) (h : d.contains aKey = true) :
    (d.root.remove aKey).entries = below aKey d.root.entries ++ above aKey d.root.entries ∧
      (d.root.remove aKey).Rootable := by
  obtain ⟨n, hb⟩ := d.balanced
  obtain ⟨v, hv⟩ := Option.isSome_iff_exists.mp h
  exact d.root.remove_spec aKey BLACK n hb d.ascending
    ⟨v, (d.root.get_eq_some_iff aKey v d.ascending).mp hv⟩

/-- `removeKey:`; nothing is removed where the key is not there. -/
def removeKey (d : TreeSortedDictionary κ ν) (aKey : κ) : TreeSortedDictionary κ ν :=
  if h : d.contains aKey = true then
    { root := (d.root.remove aKey).withColor BLACK
      ascending := by
        rw [LLRBNode.entries_withColor, (d.remove_spec aKey h).1]
        exact ascending_erase _ d.ascending aKey
      balanced := (d.remove_spec aKey h).2 }
  else d

def getPredecessorKey (d : TreeSortedDictionary κ ν) (key : κ) : Except NSException (Option κ) :=
  d.root.predecessorKey key none

def isEmpty (d : TreeSortedDictionary κ ν) : Bool := d.root.isEmpty

def count (d : TreeSortedDictionary κ ν) : ℕ := d.root.count

def minKey (d : TreeSortedDictionary κ ν) : Option κ := d.root.minKey

def maxKey (d : TreeSortedDictionary κ ν) : Option κ := d.root.maxKey

/-- `enumerateKeysAndObjectsReverse:usingBlock:`; the block answers its variables and `stop`. -/
def enumerateKeysAndObjects {σ : Type} (d : TreeSortedDictionary κ ν) (reverse : Bool)
    (block : κ → ν → σ → Bool × σ) (s : σ) : σ :=
  if reverse then (d.root.reverseTraversal block s).2 else (d.root.inorderTraversal block s).2

@[simp] theorem toMap_init : (init : TreeSortedDictionary κ ν).toMap = ∅ := rfl

@[simp] theorem toMap_insertKey (d : TreeSortedDictionary κ ν) (aKey : κ) (aValue : ν) :
    (d.insertKey aKey aValue).toMap = d.toMap.insert aKey aValue := by
  apply SortedMap.ext_entries
  rw [SortedMap.entries_insert]
  exact (LLRBNode.entries_withColor _ _).trans (d.root.entries_insertKey aKey aValue d.ascending)

@[simp] theorem toMap_removeKey (d : TreeSortedDictionary κ ν) (aKey : κ) :
    (d.removeKey aKey).toMap = d.toMap.erase aKey := by
  unfold removeKey
  by_cases h : d.contains aKey = true
  · rw [dif_pos h]
    apply SortedMap.ext_entries
    rw [SortedMap.entries_erase]
    exact (LLRBNode.entries_withColor _ _).trans (d.remove_spec aKey h).1
  · rw [dif_neg h, SortedMap.erase_of_get_none]
    rw [← get_eq]
    exact Option.not_isSome_iff_eq_none.mp h

/-! ### Runs of updates -/

def update (d : TreeSortedDictionary κ ν) : SortedMap.Update κ ν → TreeSortedDictionary κ ν
  | .insert k v => d.insertKey k v
  | .erase k => d.removeKey k

theorem toMap_update (d : TreeSortedDictionary κ ν) (u : SortedMap.Update κ ν) :
    (d.update u).toMap = d.toMap.update u := by
  cases u with
  | insert k v => exact d.toMap_insertKey k v
  | erase k => exact d.toMap_removeKey k

/-- After any updates of a tree: the map with the same updates, and a tree that `check` accepts and, if
it is not empty, is no deeper than `checkMaxDepth` allows. -/
theorem foldl_update_checked (d : TreeSortedDictionary κ ν) (us : List (SortedMap.Update κ ν)) :
    (us.foldl update d).toMap = us.foldl SortedMap.update d.toMap ∧
      (∃ n, (us.foldl update d).root.check = .ok n) ∧
      ((us.foldl update d).root.isEmpty = false → (us.foldl update d).root.checkMaxDepth = .ok true) := by
  refine ⟨SortedMap.foldl_update toMap update toMap_update d us, ?_⟩
  obtain ⟨n, hb⟩ := (us.foldl update d).balanced
  have hcheck := LLRBNode.check_of_balanced _ _ n hb
  refine ⟨⟨n, hcheck⟩, fun _ => ?_⟩
  rw [LLRBNode.checkMaxDepth, hcheck]
  exact congrArg Except.ok (decide_eq_true (hb.two_pow_le))

/-- A lookup compares with at most `2 ⌊log₂ (n + 1)⌋` of the `n` keys. -/
theorem comparisons_le_log (d : TreeSortedDictionary κ ν) (key : κ) :
    (d.root.comparisons key).length ≤ 2 * (d.count + 1).log2 := by
  obtain ⟨n, hb⟩ := d.balanced
  have hpath := hb.comparisons_le _ _ _ key
  have hlog : n ≤ (d.count + 1).log2 := (Nat.le_log2 (Nat.succ_ne_zero _)).mpr hb.two_pow_le
  have hzero : (if BLACK = true then 1 else 0) = 0 := rfl
  omega

end TreeSortedDictionary

end FlowerGift
