import FlowerGift.Client.SortedDictionary
import FlowerGift.Lib.Enumerator

/-!
# The key enumerators of the sorted dictionary

`FArraySortedDictionaryEnumerator` is a position in the array of keys,
`FTreeSortedDictionaryEnumerator` a stack of nodes: the nodes whose key and
further side are still to come, the next one on top.  Both give the keys from
the start key on, in either direction:

    keyEnumeratorFrom s            the keys not below `s`, ascending
    reverseKeyEnumeratorFrom s     the keys not above `s`, descending

The tree's `reverseKeyEnumerator` gives nothing at all.  Without a start key the
comparison stands at 1, and going in reverse flips it, so every node is skipped
as lying before the start.
-/

namespace FlowerGift

open Realtime

variable {κ ν : Type}

/-! ## Over the arrays -/

/-- `FArraySortedDictionaryEnumerator`; Foundation's enumerators of an array are the same thing. -/
structure ArraySortedDictionaryEnumerator (κ : Type) where
  pos : ℤ
  reverse : Bool
  keys : List κ

namespace ArraySortedDictionaryEnumerator

def nextObject (self : ArraySortedDictionaryEnumerator κ) :
    Option κ × ArraySortedDictionaryEnumerator κ :=
  let pos := self.pos
  if pos ≥ 0 ∧ pos < self.keys.length then
    (self.keys[pos.toNat]?, { self with pos := if self.reverse then pos - 1 else pos + 1 })
  else (none, self)

def remaining (self : ArraySortedDictionaryEnumerator κ) : List κ :=
  if self.pos < 0 then []
  else if self.reverse then
    if self.pos < self.keys.length then (self.keys.take (self.pos.toNat + 1)).reverse else []
  else self.keys.drop self.pos.toNat

theorem nextObject_done (self : ArraySortedDictionaryEnumerator κ)
    (h : ¬ (self.pos ≥ 0 ∧ self.pos < self.keys.length)) :
    self.nextObject = (none, self) ∧ self.remaining = [] := by
  refine ⟨if_neg h, ?_⟩
  unfold remaining
  by_cases hneg : self.pos < 0
  · rw [if_pos hneg]
  · have hend : ¬ self.pos < self.keys.length := by omega
    rw [if_neg hneg, if_neg hend, List.drop_of_length_le (by omega), ite_self]

theorem nextObject_forward (keys : List κ) (n : ℕ) (h : n < keys.length) :
    (⟨n, false, keys⟩ : ArraySortedDictionaryEnumerator κ).nextObject =
      (keys[n]?, ⟨n + 1, false, keys⟩) := by
  have hn : (n : ℤ) ≥ 0 ∧ (n : ℤ) < keys.length := by omega
  simp [nextObject, hn]

theorem nextObject_reverse (keys : List κ) (n : ℕ) (h : n < keys.length) :
    (⟨n, true, keys⟩ : ArraySortedDictionaryEnumerator κ).nextObject =
      (keys[n]?, ⟨n - 1, true, keys⟩) := by
  have hn : (n : ℤ) ≥ 0 ∧ (n : ℤ) < keys.length := by omega
  simp [nextObject, hn]

theorem remaining_forward (keys : List κ) (n : ℕ) :
    (⟨n, false, keys⟩ : ArraySortedDictionaryEnumerator κ).remaining = keys.drop n := by
  have hn : ¬ (n : ℤ) < 0 := by omega
  simp [remaining, hn]

theorem remaining_reverse (keys : List κ) (n : ℕ) (h : n ≤ keys.length) :
    (⟨n - 1, true, keys⟩ : ArraySortedDictionaryEnumerator κ).remaining = (keys.take n).reverse := by
  cases n with
  | zero => rfl
  | succ n =>
    have hn : ¬ (n : ℤ) < 0 := by omega
    have hlt : n < keys.length := h
    simp [remaining, hn, hlt]

theorem lists : Lists nextObject (remaining : ArraySortedDictionaryEnumerator κ → List κ) := by
  have step : ∀ self : ArraySortedDictionaryEnumerator κ,
      self.nextObject.1 = self.remaining.head? ∧
        self.nextObject.2.remaining = self.remaining.tail := by
    rintro ⟨pos, reverse, keys⟩
    by_cases hpos : pos ≥ 0 ∧ pos < keys.length
    · obtain ⟨n, rfl⟩ := Int.eq_ofNat_of_zero_le hpos.1
      have hn : n < keys.length := by omega
      cases reverse with
      | false =>
        rw [nextObject_forward keys n hn, remaining_forward, List.head?_drop, List.tail_drop]
        exact ⟨rfl, remaining_forward keys (n + 1)⟩
      | true =>
        have hlast : (⟨n, true, keys⟩ : ArraySortedDictionaryEnumerator κ).remaining =
            keys[n] :: (keys.take n).reverse := by
          rw [show (n : ℤ) = ((n + 1 : ℕ) : ℤ) - 1 by omega, remaining_reverse keys (n + 1) hn,
            List.take_succ_eq_append_getElem hn, List.reverse_append]
          rfl
        rw [nextObject_reverse keys n hn, hlast, List.getElem?_eq_getElem hn]
        exact ⟨rfl, remaining_reverse keys n (le_of_lt hn)⟩
    · obtain ⟨hnext, hrem⟩ := nextObject_done ⟨pos, reverse, keys⟩ hpos
      rw [hnext]
      exact ⟨by rw [hrem]; rfl, by rw [hrem]; rfl⟩
  exact ⟨fun self => (step self).1, fun self => (step self).2⟩

end ArraySortedDictionaryEnumerator

/-! ## Over the tree -/

namespace LLRBNode

/-- The keys of a tree in the direction of an enumeration. -/
def listing (reverse : Bool) (t : LLRBNode κ ν) : List κ :=
  (if reverse then t.entries.reverse else t.entries).map Prod.fst

theorem listing_valueNode (reverse : Bool) (k : κ) (v : ν) (c : LLRBColor) (l r : LLRBNode κ ν) :
    (valueNode k v c l r).listing reverse =
      (if reverse then r else l).listing reverse ++ k :: (if reverse then l else r).listing reverse := by
  cases reverse <;> simp [listing, entries]

end LLRBNode

/-- `FTreeSortedDictionaryEnumerator`, the top of the stack first. -/
structure TreeSortedDictionaryEnumerator (κ ν : Type) where
  stack : List (LLRBNode κ ν)
  isReverse : Bool
  full : ∀ node ∈ stack, node.isEmpty = false

namespace TreeSortedDictionaryEnumerator

open LLRBNode

/-- The loop of `nextObject` from `node` on. -/
def pushNodes (reverse : Bool) : LLRBNode κ ν → List (LLRBNode κ ν) → List (LLRBNode κ ν)
  | .emptyNode, stack => stack
  | .valueNode k v c l r, stack =>
    if reverse then pushNodes reverse r (.valueNode k v c l r :: stack)
    else pushNodes reverse l (.valueNode k v c l r :: stack)

theorem full_pushNodes (reverse : Bool) (node : LLRBNode κ ν) (stack : List (LLRBNode κ ν))
    (h : ∀ n ∈ stack, n.isEmpty = false) : ∀ n ∈ pushNodes reverse node stack, n.isEmpty = false := by
  induction node generalizing stack with
  | emptyNode => exact h
  | valueNode k v c l r ihl ihr =>
    have hpush : ∀ n ∈ LLRBNode.valueNode k v c l r :: stack, n.isEmpty = false :=
      List.forall_mem_cons.mpr ⟨rfl, h⟩
    unfold pushNodes
    split
    · exact ihr _ hpush
    · exact ihl _ hpush

def nextObject :
    TreeSortedDictionaryEnumerator κ ν → Option κ × TreeSortedDictionaryEnumerator κ ν
  | ⟨[], reverse, full⟩ => (none, ⟨[], reverse, full⟩)
  | ⟨node :: stack, reverse, full⟩ =>
    (node.key,
      { stack := pushNodes reverse (if reverse then node.left else node.right) stack
        isReverse := reverse
        full := full_pushNodes reverse _ stack fun n hn => full n (List.mem_cons_of_mem node hn) })

/-- The keys a stack still holds: of each node its key, then the further side. -/
def pending (reverse : Bool) (stack : List (LLRBNode κ ν)) : List κ :=
  stack.flatMap fun node =>
    node.key.toList ++ (if reverse then node.left else node.right).listing reverse

def remaining (self : TreeSortedDictionaryEnumerator κ ν) : List κ := pending self.isReverse self.stack

theorem pending_pushNodes (reverse : Bool) (node : LLRBNode κ ν) (stack : List (LLRBNode κ ν)) :
    pending reverse (pushNodes reverse node stack) = node.listing reverse ++ pending reverse stack := by
  induction node generalizing stack with
  | emptyNode => cases reverse <;> rfl
  | valueNode k v c l r ihl ihr =>
    rw [listing_valueNode, List.append_assoc, List.cons_append]
    unfold pushNodes
    cases reverse with
    | false => exact ihl _
    | true => exact ihr _

theorem lists : Lists nextObject (remaining : TreeSortedDictionaryEnumerator κ ν → List κ) := by
  have step : ∀ self : TreeSortedDictionaryEnumerator κ ν,
      self.nextObject.1 = self.remaining.head? ∧
        self.nextObject.2.remaining = self.remaining.tail := by
    rintro ⟨stack, reverse, full⟩
    cases stack with
    | nil => exact ⟨rfl, rfl⟩
    | cons node stack =>
      cases node with
      | emptyNode => cases full .emptyNode List.mem_cons_self
      | valueNode k v c l r => exact ⟨rfl, pending_pushNodes reverse _ stack⟩
  exact ⟨fun self => (step self).1, fun self => (step self).2⟩

/-! ### The initializer -/

section Start

variable [LinearOrder κ]

/-- The initializer's `cmp` for a node with key `k`. -/
def startOrder (startKey : Option κ) (reverse : Bool) (k : κ) : Ordering :=
  let cmp := match startKey with
    | some startKey => compare k startKey
    | none => .gt
  -- flip the comparison if we're going in reverse
  if reverse then cmp.swap else cmp

/-- The loop of the initializer from `node` on. -/
def startStack (startKey : Option κ) (reverse : Bool) :
    LLRBNode κ ν → List (LLRBNode κ ν) → List (LLRBNode κ ν)
  | .emptyNode, stack => stack
  | .valueNode k v c l r, stack =>
    match startOrder startKey reverse k with
    | .lt => if reverse then startStack startKey reverse l stack else startStack startKey reverse r stack
    | .eq => .valueNode k v c l r :: stack
    | .gt =>
      if reverse then startStack startKey reverse r (.valueNode k v c l r :: stack)
      else startStack startKey reverse l (.valueNode k v c l r :: stack)

theorem full_startStack (startKey : Option κ) (reverse : Bool) (node : LLRBNode κ ν)
    (stack : List (LLRBNode κ ν)) (h : ∀ n ∈ stack, n.isEmpty = false) :
    ∀ n ∈ startStack startKey reverse node stack, n.isEmpty = false := by
  induction node generalizing stack with
  | emptyNode => exact h
  | valueNode k v c l r ihl ihr =>
    have hpush : ∀ n ∈ LLRBNode.valueNode k v c l r :: stack, n.isEmpty = false :=
      List.forall_mem_cons.mpr ⟨rfl, h⟩
    unfold startStack
    cases startOrder startKey reverse k with
    | lt =>
      cases reverse with
      | false => exact ihr stack h
      | true => exact ihl stack h
    | eq => exact hpush
    | gt =>
      cases reverse with
      | false => exact ihl _ hpush
      | true => exact ihr _ hpush

/-- `initWithImmutableSortedDictionary:startKey:isReverse:`. -/
def init (aDict : TreeSortedDictionary κ ν) (startKey : Option κ) (reverse : Bool) :
    TreeSortedDictionaryEnumerator κ ν where
  stack := startStack startKey reverse aDict.root []
  isReverse := reverse
  full := full_startStack startKey reverse aDict.root [] (by simp)

/-- Whether `a` comes before `b` in the direction of an enumeration. -/
def Precedes (reverse : Bool) (a b : κ) : Prop := if reverse then b < a else a < b

instance (reverse : Bool) (a b : κ) : Decidable (Precedes reverse a b) := by
  unfold Precedes
  infer_instance

theorem Precedes.trans (reverse : Bool) (a b c : κ) (hab : Precedes reverse a b)
    (hbc : Precedes reverse b c) : Precedes reverse a c := by
  cases reverse with
  | false => exact lt_trans hab hbc
  | true => exact lt_trans hbc hab

theorem Precedes.asymm (reverse : Bool) (a b : κ) (hab : Precedes reverse a b) :
    ¬ Precedes reverse b a := by
  cases reverse with
  | false => exact lt_asymm hab
  | true => exact lt_asymm hab

theorem precedes_of_startOrder_lt (s : κ) (reverse : Bool) (k : κ)
    (h : startOrder (some s) reverse k = .lt) : Precedes reverse k s := by
  cases reverse with
  | false => exact compare_lt_iff_lt.mp h
  | true => exact compare_gt_iff_gt.mp (Ordering.swap_eq_lt.mp h)

theorem eq_of_startOrder_eq (s : κ) (reverse : Bool) (k : κ)
    (h : startOrder (some s) reverse k = .eq) : k = s := by
  cases reverse with
  | false => exact compare_eq_iff_eq.mp h
  | true => exact compare_eq_iff_eq.mp (Ordering.swap_eq_eq.mp h)

theorem precedes_of_startOrder_gt (s : κ) (reverse : Bool) (k : κ)
    (h : startOrder (some s) reverse k = .gt) : Precedes reverse s k := by
  cases reverse with
  | false => exact compare_gt_iff_gt.mp h
  | true => exact compare_lt_iff_lt.mp (Ordering.swap_eq_gt.mp h)

/-- With a start key the stack holds the keys that do not come before it. -/
theorem pending_startStack (s : κ) (reverse : Bool) (node : LLRBNode κ ν)
    (stack : List (LLRBNode κ ν)) (h : (node.listing reverse).Pairwise (Precedes reverse)) :
    pending reverse (startStack (some s) reverse node stack) =
      (node.listing reverse).filter (fun k => ¬ Precedes reverse k s) ++ pending reverse stack := by
  induction node generalizing stack with
  | emptyNode => cases reverse <;> rfl
  | valueNode k v c l r ihl ihr =>
    rw [listing_valueNode] at h ⊢
    obtain ⟨hnear, hrest, hacross⟩ := List.pairwise_append.mp h
    obtain ⟨hk, hfar⟩ := List.pairwise_cons.mp hrest
    -- the nearer side goes when the key does not come after the start
    have hnone (hks : k = s ∨ Precedes reverse k s) :
        ((if reverse then r else l).listing reverse).filter (fun k => ¬ Precedes reverse k s) = [] := by
      rw [List.filter_eq_nil_iff]
      intro a ha
      have hak := hacross a ha k List.mem_cons_self
      rcases hks with rfl | hks
      · simpa using hak
      · simpa using hak.trans reverse a k s hks
    -- the further side stays when the key does not come before the start
    have hall (hsk : s = k ∨ Precedes reverse s k) :
        ((if reverse then l else r).listing reverse).filter (fun k => ¬ Precedes reverse k s) =
          (if reverse then l else r).listing reverse := by
      rw [List.filter_eq_self]
      intro a ha
      have hka := hk a ha
      rcases hsk with rfl | hsk
      · simpa using hka.asymm reverse s a
      · simpa using (hsk.trans reverse s k a hka).asymm reverse s a
    rw [List.filter_append]
    unfold startStack
    cases hcmp : startOrder (some s) reverse k with
    | lt =>
      have hks := precedes_of_startOrder_lt s reverse k hcmp
      rw [hnone (Or.inr hks), List.filter_cons_of_neg (by simpa using hks)]
      cases reverse with
      | false => exact ihr stack hfar
      | true => exact ihl stack hfar
    | eq =>
      obtain rfl := eq_of_startOrder_eq s reverse k hcmp
      have hself : ¬ Precedes reverse k k := fun hkk => hkk.asymm reverse k k hkk
      rw [hnone (Or.inl rfl), List.filter_cons_of_pos (by simpa using hself), hall (Or.inl rfl)]
      rfl
    | gt =>
      have hsk := precedes_of_startOrder_gt s reverse k hcmp
      rw [List.filter_cons_of_pos (by simpa using hsk.asymm reverse s k), hall (Or.inr hsk),
        List.append_assoc]
      cases reverse with
      | false => exact ihl _ hnear
      | true => exact ihr _ hnear

/-- Without one, forward, it holds all keys; -/
theorem pending_startStack_none (node : LLRBNode κ ν) (stack : List (LLRBNode κ ν)) :
    pending false (startStack none false node stack) = node.listing false ++ pending false stack := by
  induction node generalizing stack with
  | emptyNode => rfl
  | valueNode k v c l r ihl ihr =>
    rw [listing_valueNode, List.append_assoc]
    exact ihl _

/-- and in reverse none: every node counts as lying before the start. -/
theorem startStack_none_reverse (node : LLRBNode κ ν) (stack : List (LLRBNode κ ν)) :
    startStack none true node stack = stack := by
  induction node generalizing stack with
  | emptyNode => rfl
  | valueNode k v c l r ihl ihr => exact ihl stack

end Start

end TreeSortedDictionaryEnumerator

/-! ## Over either -/

inductive KeyEnumerator (κ ν : Type)
  | array (e : ArraySortedDictionaryEnumerator κ)
  | tree (e : TreeSortedDictionaryEnumerator κ ν)

namespace KeyEnumerator

def nextObject : KeyEnumerator κ ν → Option κ × KeyEnumerator κ ν
  | array e => (e.nextObject.1, array e.nextObject.2)
  | tree e => (e.nextObject.1, tree e.nextObject.2)

def remaining : KeyEnumerator κ ν → List κ
  | array e => e.remaining
  | tree e => e.remaining

theorem lists : Lists nextObject (remaining : KeyEnumerator κ ν → List κ) := by
  constructor
  · intro e
    cases e with
    | array e => exact ArraySortedDictionaryEnumerator.lists.gives e
    | tree e => exact TreeSortedDictionaryEnumerator.lists.gives e
  · intro e
    cases e with
    | array e => exact ArraySortedDictionaryEnumerator.lists.leaves e
    | tree e => exact TreeSortedDictionaryEnumerator.lists.leaves e

end KeyEnumerator

variable [LinearOrder κ]

namespace ArraySortedDictionary

def keyEnumeratorFrom (d : ArraySortedDictionary κ ν) (startKey : κ) :
    ArraySortedDictionaryEnumerator κ :=
  ⟨findInsertPositionForKey startKey d.keys, false, d.keys⟩

def reverseKeyEnumeratorFrom (d : ArraySortedDictionary κ ν) (startKey : κ) :
    ArraySortedDictionaryEnumerator κ :=
  let startPos := findInsertPositionForKey startKey d.keys
  match d.keys[startPos]? with
  | some k => ⟨if compare k startKey ≠ .eq then startPos - 1 else startPos, true, d.keys⟩
  | none => ⟨startPos - 1, true, d.keys⟩

end ArraySortedDictionary

namespace ImmutableSortedDictionary

def keyEnumerator : ImmutableSortedDictionary κ ν → KeyEnumerator κ ν
  | array d => .array ⟨0, false, d.keys⟩
  | tree d => .tree (.init d none false)

def keyEnumeratorFrom (d : ImmutableSortedDictionary κ ν) (startKey : κ) : KeyEnumerator κ ν :=
  match d with
  | array d => .array (d.keyEnumeratorFrom startKey)
  | tree d => .tree (.init d (some startKey) false)

def reverseKeyEnumerator : ImmutableSortedDictionary κ ν → KeyEnumerator κ ν
  | array d => .array ⟨d.keys.length - 1, true, d.keys⟩
  | tree d => .tree (.init d none true)

def reverseKeyEnumeratorFrom (d : ImmutableSortedDictionary κ ν) (startKey : κ) :
    KeyEnumerator κ ν :=
  match d with
  | array d => .array (d.reverseKeyEnumeratorFrom startKey)
  | tree d => .tree (.init d (some startKey) true)

/-! ### The keys on either side of a start -/

/-- The keys in order: those below `s`, `s` itself if it is one of them, those above. -/
theorem keys_split (m : SortedMap κ ν) (s : κ) :
    m.keys = (below s m.entries).map Prod.fst ++
      ((m.get s).map fun _ => s).toList ++ (above s m.entries).map Prod.fst := by
  cases hg : m.get s with
  | none =>
    have h := eq_below_append_above m.entries m.sorted s ((m.get_eq_none_iff s).mp hg)
    simpa [SortedMap.keys] using congrArg (List.map Prod.fst) h
  | some v =>
    have h := eq_below_cons_above m.entries m.sorted s v ((m.get_eq_some_iff s v).mp hg)
    simpa [SortedMap.keys] using congrArg (List.map Prod.fst) h

theorem lt_of_mem_below (m : SortedMap κ ν) (s k : κ) (h : k ∈ (below s m.entries).map Prod.fst) :
    k < s := by
  obtain ⟨e, he, rfl⟩ := List.mem_map.mp h
  exact ((mem_below_iff s _ e).mp he).2

theorem lt_of_mem_above (m : SortedMap κ ν) (s k : κ) (h : k ∈ (above s m.entries).map Prod.fst) :
    s < k := by
  obtain ⟨e, he, rfl⟩ := List.mem_map.mp h
  exact ((mem_above_iff s _ e).mp he).2

theorem eq_of_mem_start (m : SortedMap κ ν) (s k : κ)
    (h : k ∈ ((m.get s).map fun _ => s).toList) : k = s := by
  obtain ⟨_, -, rfl⟩ := Option.map_eq_some_iff.mp (Option.mem_toList.mp h)
  rfl

theorem keys_filter_ge (m : SortedMap κ ν) (s : κ) : m.keys.filter (s ≤ ·) =
    ((m.get s).map fun _ => s).toList ++ (above s m.entries).map Prod.fst := by
  have hbelow : ((below s m.entries).map Prod.fst).filter (s ≤ ·) = [] := by
    rw [List.filter_eq_nil_iff]
    intro k hk
    simpa using lt_of_mem_below m s k hk
  have hrest : (((m.get s).map fun _ => s).toList ++ (above s m.entries).map Prod.fst).filter (s ≤ ·) =
      ((m.get s).map fun _ => s).toList ++ (above s m.entries).map Prod.fst := by
    rw [List.filter_eq_self]
    intro k hk
    rcases List.mem_append.mp hk with hk | hk
    · simpa using le_of_eq (eq_of_mem_start m s k hk).symm
    · simpa using le_of_lt (lt_of_mem_above m s k hk)
  rw [keys_split m s, List.append_assoc, List.filter_append, hbelow, hrest, List.nil_append]

theorem keys_filter_le (m : SortedMap κ ν) (s : κ) : m.keys.filter (· ≤ s) =
    (below s m.entries).map Prod.fst ++ ((m.get s).map fun _ => s).toList := by
  have habove : ((above s m.entries).map Prod.fst).filter (· ≤ s) = [] := by
    rw [List.filter_eq_nil_iff]
    intro k hk
    simpa using lt_of_mem_above m s k hk
  have hrest : ((below s m.entries).map Prod.fst ++ ((m.get s).map fun _ => s).toList).filter (· ≤ s) =
      (below s m.entries).map Prod.fst ++ ((m.get s).map fun _ => s).toList := by
    rw [List.filter_eq_self]
    intro k hk
    rcases List.mem_append.mp hk with hk | hk
    · simpa using le_of_lt (lt_of_mem_below m s k hk)
    · simpa using le_of_eq (eq_of_mem_start m s k hk)
  rw [keys_split m s, List.filter_append, habove, hrest, List.append_nil]

/-! ### What the enumerators give -/

end ImmutableSortedDictionary

theorem ArraySortedDictionary.remaining_keyEnumeratorFrom (d : ArraySortedDictionary κ ν)
    (startKey : κ) :
    (d.keyEnumeratorFrom startKey).remaining = d.toMap.keys.filter (startKey ≤ ·) := by
  have hpos : findInsertPositionForKey startKey d.keys =
      ((below startKey d.entries).map Prod.fst).length := by
    rw [← map_fst_entries, findInsertPositionForKey_eq startKey _ d.entries_ascending,
      List.length_map]
  have hkeys : d.keys = _ := (map_fst_entries d).symm.trans
    (ImmutableSortedDictionary.keys_split d.toMap startKey)
  unfold keyEnumeratorFrom
  rw [ArraySortedDictionaryEnumerator.remaining_forward, hpos,
    ImmutableSortedDictionary.keys_filter_ge]
  conv_lhs => rw [hkeys]
  rw [List.append_assoc]
  exact List.drop_left

theorem ArraySortedDictionary.remaining_reverseKeyEnumeratorFrom (d : ArraySortedDictionary κ ν)
    (startKey : κ) :
    (d.reverseKeyEnumeratorFrom startKey).remaining =
      (d.toMap.keys.filter (· ≤ startKey)).reverse := by
  have hpos : findInsertPositionForKey startKey d.keys =
      ((below startKey d.entries).map Prod.fst).length := by
    rw [← map_fst_entries, findInsertPositionForKey_eq startKey _ d.entries_ascending,
      List.length_map]
  have hkeys : d.keys = (below startKey d.entries).map Prod.fst ++
      ((d.toMap.get startKey).map fun _ => startKey).toList ++
        (above startKey d.entries).map Prod.fst :=
    (map_fst_entries d).symm.trans (ImmutableSortedDictionary.keys_split d.toMap startKey)
  have hstart : d.reverseKeyEnumeratorFrom startKey =
      ⟨(((below startKey d.entries).map Prod.fst ++
        ((d.toMap.get startKey).map fun _ => startKey).toList).length : ℤ) - 1, true, d.keys⟩ := by
    simp only [reverseKeyEnumeratorFrom]
    rw [hpos]
    cases hg : d.toMap.get startKey with
    | some v =>
      have hat : d.keys[((below startKey d.entries).map Prod.fst).length]? = some startKey := by
        rw [hkeys, hg, List.append_assoc, List.getElem?_append_right (le_refl _), Nat.sub_self]
        rfl
      simp only [hat, compare_eq_iff_eq.mpr rfl]
      simp
    | none =>
      rw [hg] at hkeys
      have hat : d.keys[((below startKey d.entries).map Prod.fst).length]? =
          ((above startKey d.entries).map Prod.fst).head? := by
        rw [hkeys, List.append_assoc, List.getElem?_append_right (le_refl _), Nat.sub_self,
          List.head?_eq_getElem?]
        rfl
      simp only [hat]
      cases ha : ((above startKey d.entries).map Prod.fst).head? with
      | none => simp
      | some k =>
        have hk : startKey < k :=
          ImmutableSortedDictionary.lt_of_mem_above d.toMap startKey k (List.mem_of_head? ha)
        have hne : compare k startKey ≠ .eq := fun h => hk.ne' (compare_eq_iff_eq.mp h)
        simp [hne]
  rw [hstart, ArraySortedDictionaryEnumerator.remaining_reverse,
    ImmutableSortedDictionary.keys_filter_le]
  · conv_lhs => rw [hkeys, List.take_left]
    rfl
  · rw [hkeys]
    exact (List.prefix_append _ _).length_le

theorem TreeSortedDictionary.listing_precedes (d : TreeSortedDictionary κ ν) (reverse : Bool) :
    (d.root.listing reverse).Pairwise (TreeSortedDictionaryEnumerator.Precedes reverse) := by
  have h : (d.root.entries.map Prod.fst).Pairwise (· < ·) := List.pairwise_map.mpr d.ascending
  cases reverse with
  | false => exact h
  | true =>
    rw [LLRBNode.listing, if_pos rfl, List.map_reverse]
    exact List.pairwise_reverse.mpr h

theorem TreeSortedDictionary.remaining_init (d : TreeSortedDictionary κ ν) (startKey : κ)
    (reverse : Bool) :
    (TreeSortedDictionaryEnumerator.init d (some startKey) reverse).remaining =
      (d.root.listing reverse).filter
        fun k => ¬ TreeSortedDictionaryEnumerator.Precedes reverse k startKey := by
  have h := TreeSortedDictionaryEnumerator.pending_startStack startKey reverse d.root []
    (d.listing_precedes reverse)
  exact h.trans (List.append_nil _)

namespace ImmutableSortedDictionary

theorem remaining_keyEnumerator (d : ImmutableSortedDictionary κ ν) :
    d.keyEnumerator.remaining = d.toMap.keys := by
  cases d with
  | array d =>
    exact (ArraySortedDictionaryEnumerator.remaining_forward d.keys 0).trans d.map_fst_entries.symm
  | tree d =>
    exact (TreeSortedDictionaryEnumerator.pending_startStack_none d.root []).trans
      (List.append_nil _)

theorem remaining_keyEnumeratorFrom (d : ImmutableSortedDictionary κ ν) (startKey : κ) :
    (d.keyEnumeratorFrom startKey).remaining = d.toMap.keys.filter (startKey ≤ ·) := by
  cases d with
  | array d => exact d.remaining_keyEnumeratorFrom startKey
  | tree d =>
    refine (d.remaining_init startKey false).trans (List.filter_congr fun k _ => ?_)
    simp [TreeSortedDictionaryEnumerator.Precedes]

theorem remaining_reverseKeyEnumeratorFrom (d : ImmutableSortedDictionary κ ν) (startKey : κ) :
    (d.reverseKeyEnumeratorFrom startKey).remaining =
      (d.toMap.keys.filter (· ≤ startKey)).reverse := by
  cases d with
  | array d => exact d.remaining_reverseKeyEnumeratorFrom startKey
  | tree d =>
    refine (d.remaining_init startKey true).trans ?_
    rw [← List.filter_reverse]
    refine (List.filter_congr fun k _ => ?_).trans (congrArg (List.filter _) List.map_reverse)
    simp [TreeSortedDictionaryEnumerator.Precedes]

/-- Between them the enumerators from a start key give, call after call, the keys on either side of
it; arrays and trees alike. -/
theorem answers_enumeratorFrom (d : ImmutableSortedDictionary κ ν) (startKey : κ) (n : ℕ) :
    answers KeyEnumerator.nextObject n (d.keyEnumeratorFrom startKey) =
        (List.range n).map ((d.toMap.keys.filter (startKey ≤ ·))[·]?) ∧
      answers KeyEnumerator.nextObject n (d.reverseKeyEnumeratorFrom startKey) =
        (List.range n).map ((d.toMap.keys.filter (· ≤ startKey)).reverse[·]?) := by
  constructor
  · rw [answers_eq _ _ KeyEnumerator.lists, remaining_keyEnumeratorFrom]
  · rw [answers_eq _ _ KeyEnumerator.lists, remaining_reverseKeyEnumeratorFrom]

/-- Without a start key the two kinds agree forwards only: in reverse a tree gives nothing. -/
theorem answers_reverseKeyEnumerator (d : ImmutableSortedDictionary κ ν) (n : ℕ) :
    answers KeyEnumerator.nextObject n d.keyEnumerator =
        (List.range n).map (d.toMap.keys[·]?) ∧
      answers KeyEnumerator.nextObject n d.reverseKeyEnumerator =
        if d.isArray then (List.range n).map (d.toMap.keys.reverse[·]?)
        else List.replicate n none := by
  refine ⟨by rw [answers_eq _ _ KeyEnumerator.lists, remaining_keyEnumerator], ?_⟩
  rw [answers_eq _ _ KeyEnumerator.lists]
  cases d with
  | array d =>
    have h : (array d).reverseKeyEnumerator.remaining = d.toMap.keys.reverse := by
      refine (ArraySortedDictionaryEnumerator.remaining_reverse d.keys _ (le_refl _)).trans ?_
      rw [List.take_length]
      exact congrArg List.reverse d.map_fst_entries.symm
    rw [h]
    rfl
  | tree d =>
    have h : (tree d).reverseKeyEnumerator.remaining = [] :=
      congrArg (TreeSortedDictionaryEnumerator.pending true)
        (TreeSortedDictionaryEnumerator.startStack_none_reverse d.root [])
    rw [h]
    simp [isArray, List.map_const']

end ImmutableSortedDictionary

end FlowerGift
