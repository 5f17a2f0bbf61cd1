import FlowerGift.Client.TreeDictionary
import Mathlib.Data.Nat.Bitwise

/-!
# Building a search tree at once

`fromDictionary:withComparator:` of `FTreeSortedDictionary` sorts the keys and
builds the tree from the top of the sorted list downwards.  The number of keys
is written in base {1, 2}; a digit at place `h` stands for one or two pennants of
`2 ^ h` keys: a node over a full tree on its right (`buildBalancedTree_spec`),
the rest of the keys going to its left.

    rootFrom12List of n keys lists them all and is balanced with ⌊log₂ (n + 1)⌋ black nodes

The number of keys passes through a 32-bit integer, so the statement is about
dictionaries with fewer than 2³² - 1 keys.
-/

namespace FlowerGift

open Realtime

/-- An `NSDictionary`: its entries in the order it enumerates them, which is any order. -/
structure NSDictionary (κ ν : Type) where
  entries : List (κ × ν)
  nodup : (entries.map Prod.fst).Nodup

namespace NSDictionary

variable {κ ν : Type}

def count (d : NSDictionary κ ν) : ℕ := d.entries.length

def keys (d : NSDictionary κ ν) : List κ := d.entries.map Prod.fst

def objectForKey [DecidableEq κ] (d : NSDictionary κ ν) (key : κ) : Option ν :=
  (d.entries.find? fun e => e.1 = key).map Prod.snd

theorem objectForKey_of_mem [DecidableEq κ] (d : NSDictionary κ ν) (k : κ) (v : ν)
    (h : (k, v) ∈ d.entries) : d.objectForKey k = some v := by
  unfold objectForKey
  cases hf : d.entries.find? (fun e => e.1 = k) with
  | none => exact absurd (List.find?_eq_none.mp hf (k, v) h) (by simp)
  | some e =>
    have hk : e.1 = k := by simpa using List.find?_some hf
    have he : e = (k, v) := List.inj_on_of_nodup_map d.nodup (List.mem_of_find?_eq_some hf) h hk
    rw [he, Option.map_some]

end NSDictionary

namespace LLRBNode

variable {κ ν : Type}

/-! ## The digits -/

/-- `log_base2`: the rounded quotient of two logarithms is exact for 32-bit numbers. -/
def log_base2 (num : ℕ) : ℕ := num.log2

/-- `Base1_2List`. -/
structure Base1_2List where
  bits : ℕ
  count : ℕ
  current : ℕ

def bit_mask (x : ℕ) : ℕ := if x ≥ 32 then 2 ^ 32 - 1 else 2 ^ x - 1

def base1_2List_new (length : ℕ) : Base1_2List :=
  let num := (length % 2 ^ 32 + 1) % 2 ^ 32
  let count := log_base2 num % 2 ^ 16
  { bits := num &&& bit_mask count
    count := count
    current := (count + (2 ^ 16 - 1)) % 2 ^ 16 }

/-- `base1_2List_next`: whether the next digit is a one, and the iterator one bit further down. -/
def base1_2List_next (list : Base1_2List) : Bool × Base1_2List :=
  (list.bits &&& (1 <<< list.current) = 0,
    ⟨list.bits, list.count, (list.current + (2 ^ 16 - 1)) % 2 ^ 16⟩)

/-! ## The tree

`none` stands for the exception of an index outside of the array. -/

/-- `buildBalancedTree:dictionary:subArrayStartIndex:length:`. -/
def buildBalancedTree (keys : List κ) (dictionary : κ → Option ν) (startIndex length : ℕ) :
    Option (LLRBNode κ ν) :=
  -- the unsigned difference is huge where it would be negative
  let n := if startIndex ≤ keys.length then Nat.min (keys.length - startIndex) length else length
  if n = 0 then some emptyNode
  else if n = 1 then do
    let key ← keys[startIndex]?
    let value ← dictionary key
    some (valueNode key value BLACK emptyNode emptyNode)
  else do
    let middle := n / 2
    let left ← buildBalancedTree keys dictionary startIndex middle
    let right ← buildBalancedTree keys dictionary (startIndex + middle + 1) middle
    let key ← keys[startIndex + middle]?
    let value ← dictionary key
    some (valueNode key value BLACK left right)
termination_by length
decreasing_by
  all_goals
    have hn : n ≤ length := by
      simp only [n]
      split
      · exact Nat.min_le_right _ _
      · exact le_refl _
    omega

/-- `node.left = pennant`, `node` being the pennant attached last: the end of the left edge. -/
def attachPennant : LLRBNode κ ν → LLRBNode κ ν → LLRBNode κ ν
  | emptyNode, pennant => pennant
  | valueNode k v c l r, pennant => valueNode k v c (l.attachPennant pennant) r

/-- The block `buildPennant`; it captures `root` and `index`. -/
def buildPennant (keyList : List κ) (dictionary : κ → Option ν) (color : LLRBColor) (chunkSize : ℕ)
    (s : LLRBNode κ ν × ℕ) : Option (LLRBNode κ ν × ℕ) := do
  guard (chunkSize ≤ s.2)
  let index := s.2 - chunkSize
  let startIndex := index + 1
  let key ← keyList[index]?
  let value ← dictionary key
  let childTree ← buildBalancedTree keyList dictionary startIndex (chunkSize - 1)
  some (s.1.attachPennant (valueNode key value color emptyNode childTree), index)

/-- One round of the loop of `rootFrom12List:keyList:dictionary:`. -/
def attachDigit (keyList : List κ) (dictionary : κ → Option ν)
    (s : Base1_2List × LLRBNode κ ν × ℕ) (i : ℕ) : Option (Base1_2List × LLRBNode κ ν × ℕ) := do
  let (isOne, list) := base1_2List_next s.1
  let chunkSize := 2 ^ (list.count - (i + 1))
  let t ← buildPennant keyList dictionary BLACK chunkSize s.2
  if isOne then some (list, t)
  else
    let t ← buildPennant keyList dictionary RED chunkSize t
    some (list, t)

def rootFrom12List (list : Base1_2List) (keyList : List κ) (dictionary : κ → Option ν) :
    Option (LLRBNode κ ν) :=
  ((List.range list.count).foldlM (attachDigit keyList dictionary)
    (list, emptyNode, keyList.length)).map fun s => s.2.1

/-- `fromDictionary:withComparator:`. -/
def rootFromDictionary [LinearOrder κ] (dictionary : NSDictionary κ ν) :
    Except NSException (LLRBNode κ ν) :=
  let sortedKeyList := dictionary.keys.insertionSort (· ≤ ·)
  if sortedKeyList.IsChain (· < ·) then
    let list := base1_2List_new sortedKeyList.length
    match rootFrom12List list sortedKeyList dictionary.objectForKey with
    | some root => .ok root
    | none => .error ⟨"NSRangeException", ""⟩
  else
    .error ⟨"NSInvalidArgumentException",
      "Can't create FImmutableSortedDictionary with keys with same ordering!"⟩

/-! ## Full trees -/

/-- A slice around the entry at place `s + m`. -/
theorem slice_pivot (es : List (κ × ν)) (s m m' : ℕ) (e : κ × ν) (he : es[s + m]? = some e) :
    (es.drop s).take (m + 1 + m') = (es.drop s).take m ++ e :: (es.drop (s + m + 1)).take m' := by
  obtain ⟨hlt, rfl⟩ := List.getElem?_eq_some_iff.mp he
  rw [Nat.add_assoc, List.take_add, List.drop_drop, List.drop_eq_getElem_cons hlt, Nat.add_comm 1 m',
    List.take_succ_cons]

section Build

variable (es : List (κ × ν)) (dictionary : κ → Option ν)

theorem getElem?_keys (i : ℕ) (e : κ × ν) (he : es[i]? = some e) :
    (es.map Prod.fst)[i]? = some e.1 := by
  rw [List.getElem?_map, he]
  rfl

omit es in
theorem buildBalancedTree_zero (keys : List κ) (s : ℕ) :
    buildBalancedTree keys dictionary s 0 = some emptyNode := by
  rw [buildBalancedTree]
  simp

omit es in
/-- An odd length is halved around the key in the middle; a single key is the case `m = 0`. -/
theorem buildBalancedTree_odd (keys : List κ) (s m : ℕ) (h : s + (m + 1 + m) ≤ keys.length) :
    buildBalancedTree keys dictionary s (m + 1 + m) = (do
      let left ← buildBalancedTree keys dictionary s m
      let right ← buildBalancedTree keys dictionary (s + m + 1) m
      let key ← keys[s + m]?
      let value ← dictionary key
      some (valueNode key value BLACK left right)) := by
  have hmin : Nat.min (keys.length - s) (m + 1 + m) = m + 1 + m := Nat.min_eq_right (by omega)
  have hmiddle : (m + 1 + m) / 2 = m := by omega
  rw [buildBalancedTree, if_pos (by omega : s ≤ keys.length), hmin, hmiddle]
  cases m with
  | zero => simp [buildBalancedTree_zero]
  | succ m => rw [if_neg (by omega), if_neg (by omega)]

/-- A slice of `2 ^ h - 1` keys becomes a full tree of black nodes. -/
theorem buildBalancedTree_spec (hd : ∀ e ∈ es, dictionary e.1 = some e.2) (h startIndex : ℕ)
    (hfit : startIndex + (2 ^ h - 1) ≤ es.length) :
    ∃ t, buildBalancedTree (es.map Prod.fst) dictionary startIndex (2 ^ h - 1) = some t ∧
      Balanced t BLACK h ∧ t.entries = (es.drop startIndex).take (2 ^ h - 1) := by
  induction h generalizing startIndex with
  | zero => exact ⟨emptyNode, buildBalancedTree_zero _ _ _, Balanced.empty, by simp [entries]⟩
  | succ h ih =>
    -- the slice is a left half, the entry in the middle and a right half
    have hpow : 2 ^ (h + 1) - 1 = (2 ^ h - 1) + 1 + (2 ^ h - 1) := by
      have := Nat.one_le_two_pow (n := h)
      rw [Nat.pow_succ]
      omega
    obtain ⟨e, he⟩ : ∃ e, es[startIndex + (2 ^ h - 1)]? = some e :=
      ⟨es.get ⟨startIndex + (2 ^ h - 1), by omega⟩, List.getElem?_eq_getElem _⟩
    have hval : dictionary e.1 = some e.2 := hd e (List.mem_of_getElem? he)
    obtain ⟨l, hl, hbl, hel⟩ := ih startIndex (by omega)
    obtain ⟨r, hr, hbr, her⟩ := ih (startIndex + (2 ^ h - 1) + 1) (by omega)
    refine ⟨valueNode e.1 e.2 BLACK l r, ?_, Balanced.black hbl hbr, ?_⟩
    · rw [hpow, buildBalancedTree_odd dictionary _ _ _ (by rw [List.length_map]; omega), hl, hr]
      simp only [bind, Option.bind, getElem?_keys es _ e he, hval]
    · rw [hpow, slice_pivot es startIndex _ _ e he, entries, hel, her]

/-! ## Pennants -/

omit es dictionary in
theorem attachPennant_assoc (t p q : LLRBNode κ ν) :
    (t.attachPennant p).attachPennant q = t.attachPennant (p.attachPennant q) := by
  induction t with
  | emptyNode => rfl
  | valueNode k v c l r ihl _ => simp only [attachPennant, ihl]

omit es dictionary in
@[simp] theorem attachPennant_emptyNode (t : LLRBNode κ ν) : t.attachPennant emptyNode = t := by
  induction t with
  | emptyNode => rfl
  | valueNode k v c l r ihl _ => simp only [attachPennant, ihl]

/-- A pennant takes the last `2 ^ h` of the entries that are left: one, and a full tree of those
after it. -/
theorem buildPennant_spec (hd : ∀ e ∈ es, dictionary e.1 = some e.2) (color : LLRBColor) (h : ℕ)
    (t : LLRBNode κ ν) (index : ℕ) (hfit : 2 ^ h ≤ index) (hindex : index ≤ es.length) :
    ∃ e child, buildPennant (es.map Prod.fst) dictionary color (2 ^ h) (t, index) =
        some (t.attachPennant (valueNode e.1 e.2 color emptyNode child), index - 2 ^ h) ∧
      Balanced child BLACK h ∧
      es.take index = es.take (index - 2 ^ h) ++ e :: child.entries := by
  have hpos := Nat.one_le_two_pow (n := h)
  obtain ⟨e, he⟩ : ∃ e, es[index - 2 ^ h]? = some e :=
    ⟨es.get ⟨index - 2 ^ h, by omega⟩, List.getElem?_eq_getElem _⟩
  have hval : dictionary e.1 = some e.2 := hd e (List.mem_of_getElem? he)
  obtain ⟨child, hchild, hb, hent⟩ :=
    buildBalancedTree_spec es dictionary hd h (index - 2 ^ h + 1) (by omega)
  refine ⟨e, child, ?_, hb, ?_⟩
  · simp [buildPennant, guard, hfit, getElem?_keys es _ e he, hval, hchild]
  · have hsum : index = index - 2 ^ h + 1 + (2 ^ h - 1) := by omega
    have hslice := slice_pivot es 0 (index - 2 ^ h) (2 ^ h - 1) e (by simpa using he)
    rw [hent]
    simpa [← hsum] using hslice

/-- The number a place and the lower places stand for; a zero bit counts one, a one bit two. -/
def worth (bits r : ℕ) : ℕ := 2 ^ r - 1 + bits % 2 ^ r

omit es dictionary in
theorem worth_succ (bits r : ℕ) :
    worth bits (r + 1) = worth bits r + 2 ^ r + if bits.testBit r then 2 ^ r else 0 := by
  have hmod : bits % 2 ^ (r + 1) = bits % 2 ^ r + 2 ^ r * (bits.testBit r).toNat := by
    rw [Nat.mod_pow_succ, Nat.toNat_testBit]
  have hpos := Nat.one_le_two_pow (n := r)
  unfold worth
  rw [hmod, Nat.pow_succ]
  cases bits.testBit r <;> simp <;> omega

omit es dictionary in
/-- The iterator reads the bit it stands at. -/
theorem base1_2List_next_fst (list : Base1_2List) :
    (base1_2List_next list).1 = !list.bits.testBit list.current := by
  have hpos := Nat.two_pow_pos list.current
  unfold base1_2List_next
  rw [Nat.one_shiftLeft, Nat.and_two_pow]
  cases list.bits.testBit list.current <;> simp

/-- One digit gives one pennant or two, and leaves the end of the left edge for the lower digits. -/
theorem attachDigit_spec (hd : ∀ e ∈ es, dictionary e.1 = some e.2) (r i : ℕ) (list : Base1_2List)
    (t : LLRBNode κ ν) (hcount : i + (r + 1) = list.count) (hcurrent : list.current = r)
    (hfit : worth list.bits (r + 1) ≤ es.length) :
    ∃ hang : LLRBNode κ ν → LLRBNode κ ν,
      attachDigit (es.map Prod.fst) dictionary (list, t, worth list.bits (r + 1)) i =
        some (⟨list.bits, list.count, (r + (2 ^ 16 - 1)) % 2 ^ 16⟩, t.attachPennant (hang emptyNode),
          worth list.bits r) ∧
      (∀ rest, (hang emptyNode).attachPennant rest = hang rest) ∧
      (∀ rest, Balanced rest BLACK r → Balanced (hang rest) BLACK (r + 1)) ∧
      ∀ rest, rest.entries = es.take (worth list.bits r) →
        (hang rest).entries = es.take (worth list.bits (r + 1)) := by
  have hpos := Nat.one_le_two_pow (n := r)
  have hworth := worth_succ list.bits r
  generalize hbit : list.bits.testBit r = bit at hworth
  obtain ⟨e, child, hpennant, hb, hent⟩ := buildPennant_spec es dictionary hd BLACK r t
    (worth list.bits (r + 1)) (by omega) hfit
  have hone : (base1_2List_next list).1 = !bit := by
    rw [base1_2List_next_fst, hcurrent, hbit]
  have hnext : (base1_2List_next list).2 = ⟨list.bits, list.count, (r + (2 ^ 16 - 1)) % 2 ^ 16⟩ := by
    rw [← hcurrent, base1_2List_next]
  have hchunk : list.count - (i + 1) = r := by omega
  cases bit with
  | false =>
    -- one pennant, the rest to its left
    have hworth : worth list.bits (r + 1) = worth list.bits r + 2 ^ r := by simpa using hworth
    rw [show worth list.bits (r + 1) - 2 ^ r = worth list.bits r by omega] at hpennant hent
    refine ⟨fun rest => valueNode e.1 e.2 BLACK rest child, ?_, fun _ => rfl,
      fun rest hrest => Balanced.black hrest hb, fun rest hrest => ?_⟩
    · simp [attachDigit, hone, hnext, hchunk, hpennant]
    · rw [hent, entries, hrest]
  | true =>
    -- a black pennant over a red one
    have hworth : worth list.bits (r + 1) = worth list.bits r + 2 ^ r + 2 ^ r := by
      simpa using hworth
    rw [show worth list.bits (r + 1) - 2 ^ r = worth list.bits r + 2 ^ r by omega]
      at hpennant hent
    obtain ⟨e', child', hpennant', hb', hent'⟩ := buildPennant_spec es dictionary hd RED r
      (t.attachPennant (valueNode e.1 e.2 BLACK emptyNode child)) (worth list.bits r + 2 ^ r)
      (by omega) (by omega)
    rw [Nat.add_sub_cancel] at hpennant' hent'
    refine ⟨fun rest => valueNode e.1 e.2 BLACK (valueNode e'.1 e'.2 RED rest child') child, ?_, fun _ => rfl,
      fun rest hrest => Balanced.black (Balanced.red hrest hb') hb, fun rest hrest => ?_⟩
    · rw [attachPennant_assoc] at hpennant'
      simp [attachDigit, hone, hnext, hchunk, hpennant, hpennant', attachPennant]
    · rw [hent, hent', entries, entries, hrest]

/-- Whatever is built from the digits still to come goes to the end of the left edge. -/
theorem foldlM_attachDigit (hd : ∀ e ∈ es, dictionary e.1 = some e.2) (r i : ℕ) (list : Base1_2List)
    (t : LLRBNode κ ν) (hcount : i + r = list.count)
    (hcurrent : list.current = (r + (2 ^ 16 - 1)) % 2 ^ 16) (hr : r < 2 ^ 16)
    (hfit : worth list.bits r ≤ es.length) :
    ∃ list' rest, (List.range' i r).foldlM (attachDigit (es.map Prod.fst) dictionary)
        (list, t, worth list.bits r) = some (list', t.attachPennant rest, 0) ∧
      Balanced rest BLACK r ∧ rest.entries = es.take (worth list.bits r) := by
  induction r generalizing i list t with
  | zero =>
    refine ⟨list, emptyNode, ?_, Balanced.empty, ?_⟩
    · simp [worth, Nat.mod_one]
    · simp [worth, entries, Nat.mod_one]
  | succ r ih =>
    have hlower : worth list.bits r ≤ worth list.bits (r + 1) := by
      rw [worth_succ, Nat.add_assoc]
      exact Nat.le_add_right _ _
    obtain ⟨hang, hdigit, hroom, hbalanced, hentries⟩ :=
      attachDigit_spec es dictionary hd r i list t hcount (by omega) hfit
    obtain ⟨list', rest, hfold, hbrest, herest⟩ := ih (i + 1)
      ⟨list.bits, list.count, (r + (2 ^ 16 - 1)) % 2 ^ 16⟩ (t.attachPennant (hang emptyNode))
      ((Nat.add_right_comm i 1 r).trans hcount) rfl (by omega) (hlower.trans hfit)
    refine ⟨list', hang rest, ?_, hbalanced rest hbrest, hentries rest herest⟩
    rw [attachPennant_assoc, hroom] at hfold
    rw [List.range'_succ, List.foldlM_cons, hdigit]
    exact hfold

omit es dictionary in
/-- The number of keys is what all the digits stand for. -/
theorem worth_base1_2List_new (n : ℕ) (h : n + 1 < 2 ^ 32) :
    (base1_2List_new n).count = (n + 1).log2 ∧ (n + 1).log2 < 2 ^ 16 ∧
      (base1_2List_new n).current = ((base1_2List_new n).count + (2 ^ 16 - 1)) % 2 ^ 16 ∧
      worth (base1_2List_new n).bits (n + 1).log2 = n := by
  have hne : n + 1 ≠ 0 := Nat.succ_ne_zero n
  have hlog : (n + 1).log2 < 32 := (Nat.log2_lt hne).mpr h
  have hnum : (n % 2 ^ 32 + 1) % 2 ^ 32 = n + 1 := by omega
  have hcount : (n + 1).log2 % 2 ^ 16 = (n + 1).log2 := by omega
  have hlow := Nat.log2_self_le hne
  have hhigh := Nat.lt_log2_self (n := n + 1)
  refine ⟨?_, by omega, rfl, ?_⟩
  · rw [base1_2List_new, log_base2, hnum, hcount]
  · have hmask : bit_mask (n + 1).log2 = 2 ^ (n + 1).log2 - 1 := if_neg (by omega)
    rw [base1_2List_new, log_base2, hnum, hcount, hmask, Nat.and_two_pow_sub_one_eq_mod, worth,
      Nat.mod_mod, Nat.mod_eq_sub_mod hlow, Nat.mod_eq_of_lt (by rw [Nat.pow_succ] at hhigh; omega)]
    have hpos := Nat.one_le_two_pow (n := (n + 1).log2)
    omega

/-- The whole list becomes a tree: all entries, in order, under a black root. -/
theorem rootFrom12List_spec (hd : ∀ e ∈ es, dictionary e.1 = some e.2) (h : es.length + 1 < 2 ^ 32) :
    ∃ root, rootFrom12List (base1_2List_new es.length) (es.map Prod.fst) dictionary = some root ∧
      Balanced root BLACK (es.length + 1).log2 ∧ root.entries = es := by
  obtain ⟨hcount, hlt, hcurrent, hworth⟩ := worth_base1_2List_new es.length h
  rw [hcount] at hcurrent
  obtain ⟨list', rest, hfold, hb, hent⟩ := foldlM_attachDigit es dictionary hd (es.length + 1).log2 0
    (base1_2List_new es.length) emptyNode (by omega) hcurrent hlt (le_of_eq hworth)
  rw [hworth] at hfold hent
  refine ⟨rest, ?_, hb, by rw [hent, List.take_length]⟩
  rw [rootFrom12List, hcount, List.range_eq_range', List.length_map, hfold]
  rfl

end Build

end LLRBNode

/-! ## Dictionaries -/

namespace NSDictionary

variable {κ ν : Type} [LinearOrder κ]

/-- The entries in key order. -/
def sortedEntries (d : NSDictionary κ ν) : List (κ × ν) :=
  d.entries.insertionSort fun a b => a.1 ≤ b.1

theorem mem_sortedEntries (d : NSDictionary κ ν) (e : κ × ν) : e ∈ d.sortedEntries ↔ e ∈ d.entries :=
  (List.perm_insertionSort _ d.entries).mem_iff

theorem keys_sortedEntries (d : NSDictionary κ ν) :
    d.sortedEntries.map Prod.fst = d.keys.insertionSort (· ≤ ·) :=
  List.map_insertionSort _ _ Prod.fst d.entries fun _ _ _ _ => Iff.rfl

theorem sortedEntries_ascending (d : NSDictionary κ ν) : Ascending d.sortedEntries := by
  have hle : d.sortedEntries.Pairwise fun a b => a.1 ≤ b.1 := List.pairwise_insertionSort _ _
  have hne : d.sortedEntries.Pairwise fun a b => a.1 ≠ b.1 := by
    have hn := ((List.perm_insertionSort (fun a b : κ × ν => a.1 ≤ b.1) d.entries).map
      Prod.fst).nodup_iff.mpr d.nodup
    exact List.pairwise_map.mp hn
  exact (hle.and hne).imp fun h => lt_of_le_of_ne h.1 h.2

/-- The map a dictionary stands for. -/
def toMap (d : NSDictionary κ ν) : SortedMap κ ν := ⟨d.sortedEntries, d.sortedEntries_ascending⟩

theorem get_toMap (d : NSDictionary κ ν) (key : κ) : d.toMap.get key = d.objectForKey key := by
  cases hv : d.objectForKey key with
  | some v =>
    rw [SortedMap.get_eq_some_iff]
    obtain ⟨⟨k, w⟩, hf, rfl⟩ := Option.map_eq_some_iff.mp hv
    have hk : k = key := by simpa using List.find?_some hf
    exact (d.mem_sortedEntries _).mpr (hk ▸ List.mem_of_find?_eq_some hf)
  | none =>
    rw [SortedMap.get_eq_none_iff]
    intro v hm
    rw [d.objectForKey_of_mem key v ((d.mem_sortedEntries _).mp hm)] at hv
    cases hv

end NSDictionary

/-- No exception: the tree lists the dictionary in key order, whatever order it enumerates its entries
in. -/
theorem LLRBNode.rootFromDictionary_spec {κ ν : Type} [LinearOrder κ] (d : NSDictionary κ ν)
    (h : d.count + 1 < 2 ^ 32) :
    ∃ root, LLRBNode.rootFromDictionary d = .ok root ∧ root.entries = d.toMap.entries ∧
      root.Balanced BLACK (d.count + 1).log2 := by
  have hlength : d.sortedEntries.length = d.count := List.length_insertionSort _ _
  have hd : ∀ e ∈ d.sortedEntries, d.objectForKey e.1 = some e.2 := fun e he =>
    d.objectForKey_of_mem e.1 e.2 ((d.mem_sortedEntries e).mp he)
  obtain ⟨root, hroot, hb, hent⟩ :=
    LLRBNode.rootFrom12List_spec d.sortedEntries d.objectForKey hd (hlength ▸ h)
  refine ⟨root, ?_, hent, hlength ▸ hb⟩
  have hchain : (d.keys.insertionSort (· ≤ ·)).IsChain (· < ·) := by
    rw [← d.keys_sortedEntries, List.isChain_iff_pairwise]
    exact List.pairwise_map.mpr d.sortedEntries_ascending
  have hlen : (d.keys.insertionSort (· ≤ ·)).length = d.sortedEntries.length := by
    rw [← d.keys_sortedEntries, List.length_map]
  simp only [LLRBNode.rootFromDictionary]
  rw [if_pos hchain, hlen, ← d.keys_sortedEntries, hroot]

/-- The tree does not depend on the order the dictionary enumerates its entries in; `check` counts
`⌊log₂ (n + 1)⌋` black nodes in it. -/
theorem rootFromDictionary_perm {κ ν : Type} [LinearOrder κ] (d d' : NSDictionary κ ν)
    (hperm : d.entries.Perm d'.entries) (h : d.count + 1 < 2 ^ 32) :
    ∃ root, LLRBNode.rootFromDictionary d = .ok root ∧ LLRBNode.rootFromDictionary d' = .ok root ∧
      root.entries = d.toMap.entries ∧ root.check = .ok (d.count + 1).log2 := by
  obtain ⟨root, hroot, hent, hb⟩ := LLRBNode.rootFromDictionary_spec d h
  refine ⟨root, hroot, ?_, hent, LLRBNode.check_of_balanced _ _ _ hb⟩
  have hkeys : d'.keys.insertionSort (· ≤ ·) = d.keys.insertionSort (· ≤ ·) := by
    rw [← d'.keys_sortedEntries, ← d.keys_sortedEntries]
    refine congrArg _ (Ascending.ext _ _ d'.sortedEntries_ascending d.sortedEntries_ascending ?_)
    intro e
    rw [d'.mem_sortedEntries, d.mem_sortedEntries, hperm.mem_iff]
  have hvalues : d'.objectForKey = d.objectForKey := by
    funext key
    rw [← d'.get_toMap, ← d.get_toMap]
    apply Option.ext
    intro v
    rw [SortedMap.get_eq_some_iff, SortedMap.get_eq_some_iff]
    exact (d'.mem_sortedEntries _).trans (hperm.mem_iff.symm.trans (d.mem_sortedEntries _).symm)
  rw [← hroot]
  simp only [LLRBNode.rootFromDictionary, hkeys, hvalues]

theorem rootFromDictionary_perm_two :
    ∃ root, LLRBNode.rootFromDictionary (⟨[(2, "b"), (1, "a")], by decide⟩ : NSDictionary ℕ String) = .ok root ∧
      LLRBNode.rootFromDictionary ⟨[(1, "a"), (2, "b")], by decide⟩ = .ok root ∧
      root.entries = [(1, "a"), (2, "b")] := by
  obtain ⟨root, h, h', hent, -⟩ := rootFromDictionary_perm (⟨[(2, "b"), (1, "a")], by decide⟩ : NSDictionary ℕ String)
    ⟨[(1, "a"), (2, "b")], by decide⟩ (List.Perm.swap _ _ _) (by decide)
  exact ⟨root, h, h', hent.trans (by decide)⟩

end FlowerGift
