import FlowerGift.Client.Node

/-!
# Trees of values by path

`FImmutableTree`: a value or none at each path, the children of a tree ordered
by their names.  A lookup along a path asks for the first value it meets
(`findRootMostValueAndPath`); what it says about the trees that `setValue` and
`setTree` make is `find_setValue`, `find_setTree` and `find_setTree_empty`.
-/

namespace FlowerGift

open Realtime

inductive ImmutableTree (τ : Type)
  | node (value : Option τ) (children : List (TreeKey × ImmutableTree τ))

namespace ImmutableTree

variable {τ : Type}

def value : ImmutableTree τ → Option τ
  | node value _ => value

def children : ImmutableTree τ → List (TreeKey × ImmutableTree τ)
  | node _ children => children

/-- `initWithValue:`. -/
def initWithValue (value : Option τ) : ImmutableTree τ := node value []

def empty : ImmutableTree τ := initWithValue none

def isEmpty (self : ImmutableTree τ) : Bool := self.value.isNone && self.children.isEmpty

/-! ## Children by name -/

section Names

variable {ν : Type}

def get (front : TreeKey) (children : List (TreeKey × ν)) : Option ν :=
  (children.find? fun e => e.1 = front).map Prod.snd

def removeKey (front : TreeKey) (children : List (TreeKey × ν)) : List (TreeKey × ν) :=
  children.filter fun e => e.1 ≠ front

def insertKey (front : TreeKey) (child : ν) (children : List (TreeKey × ν)) : List (TreeKey × ν) :=
  SortedMap.insertEntry front child (removeKey front children)

@[simp] theorem get_nil (name : TreeKey) : get name ([] : List (TreeKey × ν)) = none := rfl

theorem get_cons (name : TreeKey) (e : TreeKey × ν) (children : List (TreeKey × ν)) :
    get name (e :: children) = if e.1 = name then some e.2 else get name children := by
  unfold get
  by_cases h : e.1 = name
  · simp [h]
  · simp [h]

theorem get_removeKey (front name : TreeKey) (children : List (TreeKey × ν)) :
    get name (removeKey front children) = if name = front then none else get name children := by
  induction children with
  | nil => simp [removeKey]
  | cons e children ih =>
    unfold removeKey at ih ⊢
    by_cases he : e.1 = front
    · rw [List.filter_cons_of_neg (by simpa using he), ih, get_cons]
      by_cases hn : name = front
      · rw [if_pos hn, if_pos hn]
      · rw [if_neg hn, if_neg hn, if_neg fun h => hn (h.symm.trans he)]
    · rw [List.filter_cons_of_pos (by simpa using he), get_cons, get_cons, ih]
      by_cases hn : name = front
      · rw [if_pos hn, if_pos hn, if_neg fun h => he (h.trans hn)]
      · rw [if_neg hn, if_neg hn]

theorem get_insertKey (front name : TreeKey) (child : ν) (children : List (TreeKey × ν)) :
    get name (insertKey front child children) =
      if name = front then some child else get name children := by
  have hother : ∀ l : List (TreeKey × ν), (∀ e ∈ l, e.1 ≠ front) →
      get name (SortedMap.insertEntry front child l) =
        if name = front then some child else get name l := by
    intro l hl
    induction l with
    | nil => simp [SortedMap.insertEntry, get_cons, eq_comm]
    | cons e l ih =>
      obtain ⟨he, hrest⟩ := List.forall_mem_cons.mp hl
      unfold SortedMap.insertEntry at ih ⊢
      rw [List.orderedInsert_cons]
      split
      · rw [get_cons]
        exact if_congr eq_comm rfl rfl
      · rw [get_cons, get_cons, ih hrest]
        by_cases hen : e.1 = name
        · rw [if_pos hen, if_pos hen, if_neg fun h => he (hen.trans h)]
        · rw [if_neg hen, if_neg hen]
  unfold insertKey
  rw [hother _ fun e he => by simpa using (List.mem_filter.mp he).2, get_removeKey]
  by_cases hn : name = front
  · rw [if_pos hn, if_pos hn]
  · rw [if_neg hn, if_neg hn, if_neg hn]

end Names

/-! ## Along a path -/

/-- The child to go into; a missing one is the empty tree. -/
def childOrEmpty (self : ImmutableTree τ) (front : ChildKey) : ImmutableTree τ :=
  (get ⟨front⟩ self.children).getD empty

def findRootMostMatchingPath (self : ImmutableTree τ) (relativePath : List ChildKey) (predicate : τ → Bool) :
    Option (List ChildKey × τ) :=
  match self.value.filter predicate, relativePath with
  | some value, _ => some ([], value)
  | none, [] => none
  | none, front :: path =>
    match get ⟨front⟩ self.children with
    | some child =>
      (child.findRootMostMatchingPath path predicate).map fun found => (front :: found.1, found.2)
    | none => none

def findRootMostValueAndPath (self : ImmutableTree τ) (relativePath : List ChildKey) :
    Option (List ChildKey × τ) :=
  self.findRootMostMatchingPath relativePath fun _ => true

def subtreeAtPath (self : ImmutableTree τ) : List ChildKey → ImmutableTree τ
  | [] => self
  | front :: path =>
    match get ⟨front⟩ self.children with
    | some childTree => childTree.subtreeAtPath path
    | none => empty

def setValue (self : ImmutableTree τ) (newValue : Option τ) : List ChildKey → ImmutableTree τ
  | [] => node newValue self.children
  | front :: path =>
    let child := self.childOrEmpty front
    node self.value (insertKey ⟨front⟩ (child.setValue newValue path) self.children)

def setTree (self : ImmutableTree τ) (newTree : ImmutableTree τ) : List ChildKey → ImmutableTree τ
  | [] => newTree
  | front :: path =>
    let newChild := (self.childOrEmpty front).setTree newTree path
    let newChildren := if newChild.isEmpty then removeKey ⟨front⟩ self.children
      else insertKey ⟨front⟩ newChild self.children
    node self.value newChildren

/-! ### The first value on a path -/

theorem find_value (v : τ) (children : List (TreeKey × ImmutableTree τ)) (path : List ChildKey) :
    (node (some v) children).findRootMostValueAndPath path = some ([], v) := by
  unfold findRootMostValueAndPath findRootMostMatchingPath
  rfl

theorem find_nil (children : List (TreeKey × ImmutableTree τ)) :
    (node none children).findRootMostValueAndPath [] = none := by
  unfold findRootMostValueAndPath findRootMostMatchingPath
  rfl

theorem find_cons (children : List (TreeKey × ImmutableTree τ)) (front : ChildKey) (path : List ChildKey) :
    (node none children).findRootMostValueAndPath (front :: path) =
      ((get ⟨front⟩ children).bind fun child => child.findRootMostValueAndPath path).map
        fun found => (front :: found.1, found.2) := by
  show findRootMostMatchingPath (node none children) (front :: path) (fun _ => true) = _
  unfold findRootMostMatchingPath
  simp only [value, Option.filter_none, ImmutableTree.children]
  cases get ⟨front⟩ children with
  | none => rfl
  | some child => rfl

@[simp] theorem find_empty (path : List ChildKey) :
    (empty : ImmutableTree τ).findRootMostValueAndPath path = none := by
  cases path with
  | nil => exact find_nil []
  | cons front path => exact find_cons [] front path

/-- The same in terms of the child, there or not. -/
theorem find_cons_child (children : List (TreeKey × ImmutableTree τ)) (front : ChildKey) (path : List ChildKey) :
    (node none children).findRootMostValueAndPath (front :: path) =
      (((node none children).childOrEmpty front).findRootMostValueAndPath path).map
        fun found => (front :: found.1, found.2) := by
  rw [find_cons, childOrEmpty, ImmutableTree.children]
  cases get ⟨front⟩ children with
  | none => rw [Option.getD_none, find_empty]; rfl
  | some child => rfl

/-- The value found lies on the path, and it is found along every path that leads on from it. -/
theorem find_leads (self : ImmutableTree τ) (q p : List ChildKey) (v : τ)
    (h : self.findRootMostValueAndPath q = some (p, v)) :
    p <+: q ∧ ∀ r, p <+: r → self.findRootMostValueAndPath r = some (p, v) := by
  induction q generalizing self p with
  | nil =>
    obtain ⟨value, children⟩ := self
    cases value with
    | none => rw [find_nil] at h; cases h
    | some value =>
      rw [find_value] at h
      cases h
      exact ⟨List.nil_prefix, fun r _ => find_value v children r⟩
  | cons front path ih =>
    obtain ⟨value, children⟩ := self
    cases value with
    | some value =>
      rw [find_value] at h
      cases h
      exact ⟨List.nil_prefix, fun r _ => find_value v children r⟩
    | none =>
      rw [find_cons_child] at h
      obtain ⟨⟨p', v'⟩, hfound, heq⟩ := Option.map_eq_some_iff.mp h
      cases heq
      obtain ⟨hp', hon⟩ := ih _ p' hfound
      refine ⟨List.cons_prefix_cons.mpr ⟨rfl, hp'⟩, ?_⟩
      rintro r ⟨t, rfl⟩
      rw [List.cons_append, find_cons_child, hon (p' ++ t) (List.prefix_append p' t)]
      rfl

theorem childOrEmpty_insertKey (value : Option τ) (children : List (TreeKey × ImmutableTree τ))
    (front k : ChildKey) (child : ImmutableTree τ) :
    (node value (insertKey ⟨front⟩ child children)).childOrEmpty k =
      if k = front then child else (node value children).childOrEmpty k := by
  have hname : TreeKey.mk k = ⟨front⟩ ↔ k = front := by
    rw [TreeKey.mk.injEq]
  simp only [childOrEmpty, ImmutableTree.children, get_insertKey, hname]
  split <;> rfl

theorem childOrEmpty_removeKey (value : Option τ) (children : List (TreeKey × ImmutableTree τ))
    (front k : ChildKey) : (node value (removeKey ⟨front⟩ children)).childOrEmpty k =
      if k = front then empty else (node value children).childOrEmpty k := by
  have hname : TreeKey.mk k = ⟨front⟩ ↔ k = front := by
    rw [TreeKey.mk.injEq]
  simp only [childOrEmpty, ImmutableTree.children, get_removeKey, hname]
  split <;> rfl

/-- Setting the value that a path meets first. -/
theorem find_setValue (self : ImmutableTree τ) (path p : List ChildKey) (v v' : τ)
    (h : self.findRootMostValueAndPath path = some (p, v)) (q : List ChildKey) :
    (self.setValue (some v') p).findRootMostValueAndPath q =
      if p <+: q then some (p, v') else self.findRootMostValueAndPath q := by
  induction path generalizing self p q with
  | nil =>
    obtain ⟨value, children⟩ := self
    cases value with
    | none => rw [find_nil] at h; cases h
    | some value =>
      rw [find_value] at h
      cases h
      rw [if_pos List.nil_prefix]
      exact find_value v' children q
  | cons front path ih =>
    obtain ⟨value, children⟩ := self
    cases value with
    | some value =>
      rw [find_value] at h
      cases h
      rw [if_pos List.nil_prefix]
      exact find_value v' children q
    | none =>
      rw [find_cons_child] at h
      obtain ⟨⟨p', v''⟩, hfound, heq⟩ := Option.map_eq_some_iff.mp h
      cases heq
      have hset : (node none children).setValue (some v') (front :: p') =
          node none (insertKey ⟨front⟩
            (((node none children).childOrEmpty front).setValue (some v') p') children) := rfl
      rw [hset]
      cases q with
      | nil =>
        rw [find_nil, find_nil, if_neg fun h => List.cons_ne_nil _ _ (List.prefix_nil.mp h)]
      | cons k q =>
        rw [find_cons_child, childOrEmpty_insertKey]
        by_cases hk : k = front
        · subst hk
          rw [if_pos rfl, ih _ p' hfound q, find_cons_child]
          by_cases hpq : p' <+: q
          · rw [if_pos hpq, if_pos (List.cons_prefix_cons.mpr ⟨rfl, hpq⟩)]
            rfl
          · rw [if_neg hpq, if_neg fun h => hpq (List.cons_prefix_cons.mp h).2]
        · rw [if_neg hk, if_neg fun h => hk (List.cons_prefix_cons.mp h).1.symm, ← find_cons_child]

theorem isEmpty_of_find (self : ImmutableTree τ) (q : List ChildKey)
    (h : self.findRootMostValueAndPath q ≠ none) : self.isEmpty = false := by
  obtain ⟨value, children⟩ := self
  cases value with
  | some value => rfl
  | none =>
    cases children with
    | cons e children => rfl
    | nil => exact absurd (find_empty q) h

/-- Putting a tree with a value where the path meets none. -/
theorem find_setTree (self : ImmutableTree τ) (path : List ChildKey) (a : τ)
    (h : self.findRootMostValueAndPath path = none) (q : List ChildKey) :
    (self.setTree (initWithValue (some a)) path).findRootMostValueAndPath q =
      if path <+: q then some (path, a) else self.findRootMostValueAndPath q := by
  induction path generalizing self q with
  | nil =>
    rw [if_pos List.nil_prefix]
    exact find_value a [] q
  | cons front path ih =>
    obtain ⟨value, children⟩ := self
    cases value with
    | some value => rw [find_value] at h; cases h
    | none =>
      rw [find_cons_child, Option.map_eq_none_iff] at h
      have hnew := ih _ h
      have hfull : (((node none children).childOrEmpty front).setTree
          (initWithValue (some a)) path).isEmpty = false := by
        apply isEmpty_of_find _ path
        rw [hnew path, if_pos List.prefix_rfl]
        exact Option.some_ne_none _
      have hset : (node none children).setTree (initWithValue (some a)) (front :: path) =
          node none (insertKey ⟨front⟩ (((node none children).childOrEmpty front).setTree
            (initWithValue (some a)) path) children) := by
        simp only [setTree, hfull]
        rfl
      rw [hset]
      cases q with
      | nil =>
        rw [find_nil, find_nil, if_neg fun h => List.cons_ne_nil _ _ (List.prefix_nil.mp h)]
      | cons k q =>
        rw [find_cons_child, childOrEmpty_insertKey]
        by_cases hk : k = front
        · subst hk
          rw [if_pos rfl, hnew q, find_cons_child]
          by_cases hpq : path <+: q
          · rw [if_pos hpq, if_pos (List.cons_prefix_cons.mpr ⟨rfl, hpq⟩)]
            rfl
          · rw [if_neg hpq, if_neg fun h => hpq (List.cons_prefix_cons.mp h).2]
        · rw [if_neg hk, if_neg fun h => hk (List.cons_prefix_cons.mp h).1.symm, ← find_cons_child]

theorem eq_empty_of_isEmpty (self : ImmutableTree τ) (h : self.isEmpty = true) : self = empty := by
  obtain ⟨value, children⟩ := self
  cases value with
  | some value => cases h
  | none =>
    cases children with
    | cons e children => cases h
    | nil => rfl

theorem childOrEmpty_setTree (self newTree : ImmutableTree τ) (front k : ChildKey) (path : List ChildKey) :
    (self.setTree newTree (front :: path)).childOrEmpty k =
      if k = front then (self.childOrEmpty front).setTree newTree path else self.childOrEmpty k := by
  obtain ⟨value, children⟩ := self
  rw [setTree]
  split
  · next hempty =>
    rw [eq_empty_of_isEmpty _ hempty]
    exact childOrEmpty_removeKey value children front k
  · exact childOrEmpty_insertKey value children front k _

open Classical in
/-- Putting the empty tree takes away what lies at and below the path, unless a value lies above. -/
theorem find_setTree_empty (self : ImmutableTree τ) (path q : List ChildKey) :
    (self.setTree empty path).findRootMostValueAndPath q =
      if path <+: q ∧ ∀ r, r <+: path → r ≠ path → self.findRootMostValueAndPath r = none then none
      else self.findRootMostValueAndPath q := by
  induction path generalizing self q with
  | nil =>
    have hno : ∀ r : List ChildKey, r <+: [] → r ≠ [] → self.findRootMostValueAndPath r = none :=
      fun r hr hne => absurd (List.prefix_nil.mp hr) hne
    rw [if_pos (And.intro List.nil_prefix hno)]
    exact find_empty q
  | cons front path ih =>
    obtain ⟨value, children⟩ := self
    cases value with
    | some value =>
      have habove : ¬ ∀ r, r <+: front :: path → r ≠ front :: path →
          (node (some value) children).findRootMostValueAndPath r = none := by
        intro hno
        have h := hno [] List.nil_prefix (List.cons_ne_nil front path).symm
        rw [find_value] at h
        cases h
      rw [if_neg fun h => habove h.2, find_value]
      exact find_value value _ q
    | none =>
      have habove : (∀ r, r <+: front :: path → r ≠ front :: path →
          (node none children).findRootMostValueAndPath r = none) ↔
          ∀ r, r <+: path → r ≠ path →
            ((node none children).childOrEmpty front).findRootMostValueAndPath r = none := by
        constructor
        · intro h r hr hne
          have hr' := h (front :: r) (List.cons_prefix_cons.mpr ⟨rfl, hr⟩)
            fun heq => hne (List.cons.inj heq).2
          rwa [find_cons_child, Option.map_eq_none_iff] at hr'
        · intro h r hr hne
          cases r with
          | nil => exact find_nil children
          | cons k r =>
            obtain ⟨hk, hr'⟩ := List.cons_prefix_cons.mp hr
            subst hk
            rw [find_cons_child, h r hr' fun heq => hne (heq ▸ rfl)]
            rfl
      obtain ⟨children', hset⟩ : ∃ children',
          (node none children).setTree empty (front :: path) = node none children' := ⟨_, rfl⟩
      have hchild := (node none children).childOrEmpty_setTree empty front
      rw [if_congr (and_congr_right' habove) rfl rfl]
      cases q with
      | nil =>
        rw [hset, find_nil, find_nil, ite_self]
      | cons k q =>
        have hk := hchild k path
        rw [hset] at hk ⊢
        rw [find_cons_child, hk, find_cons_child]
        by_cases hkf : k = front
        · subst hkf
          rw [if_pos rfl, ih]
          by_cases hq : path <+: q ∧ ∀ r, r <+: path → r ≠ path →
              ((node none children).childOrEmpty k).findRootMostValueAndPath r = none
          · rw [if_pos hq, if_pos ⟨List.cons_prefix_cons.mpr ⟨rfl, hq.1⟩, hq.2⟩]
            rfl
          · rw [if_neg hq, if_neg fun h => hq ⟨(List.cons_prefix_cons.mp h.1).2, h.2⟩]
        · rw [if_neg hkf, if_neg fun h => hkf (List.cons_prefix_cons.mp h.1).1.symm]

/-! ## The order of the children -/

/-- The children of every subtree are listed by ascending names. -/
inductive Sorted : ImmutableTree τ → Prop
  | node (value : Option τ) (children : List (TreeKey × ImmutableTree τ))
      (sorted : children.Pairwise fun a b => a.1 < b.1)
      (sub : ∀ e ∈ children, Sorted e.2) : Sorted (.node value children)

theorem sorted_initWithValue (value : Option τ) : (initWithValue value).Sorted :=
  .node value [] List.Pairwise.nil (by simp)

section Sorted

variable (value : Option τ) (children : List (TreeKey × ImmutableTree τ)) (front : ChildKey)
  (h : (ImmutableTree.node value children).Sorted)

include h

theorem Sorted.pairwise : children.Pairwise fun a b => a.1 < b.1 := by
  cases h with
  | node _ _ sorted _ => exact sorted

theorem Sorted.of_mem : ∀ e ∈ children, e.2.Sorted := by
  cases h with
  | node _ _ _ sub => exact sub

theorem Sorted.childOrEmpty : ((ImmutableTree.node value children).childOrEmpty front).Sorted := by
  unfold ImmutableTree.childOrEmpty ImmutableTree.get ImmutableTree.children
  cases hf : children.find? (fun e => e.1 = ⟨front⟩) with
  | none => exact sorted_initWithValue none
  | some e => exact h.of_mem value children e (List.mem_of_find?_eq_some hf)

theorem Sorted.removeKey (value' : Option τ) (name : TreeKey) :
    (ImmutableTree.node value' (ImmutableTree.removeKey name children)).Sorted :=
  .node value' _ (h.pairwise.filter _) fun e he => h.of_mem value children e (List.mem_of_mem_filter he)

theorem Sorted.insertKey (value' : Option τ) (name : TreeKey) (child : ImmutableTree τ)
    (hc : child.Sorted) : (ImmutableTree.node value' (ImmutableTree.insertKey name child children)).Sorted := by
  refine .node value' _ ?_ fun e he => ?_
  · exact SortedMap.insertEntry_sorted name child _ (h.pairwise.filter _)
      fun e he => by simpa using (List.mem_filter.mp he).2
  · rcases (List.mem_orderedInsert _).mp he with rfl | he
    · exact hc
    · exact h.of_mem value children e (List.mem_of_mem_filter he)

end Sorted

theorem Sorted.setValue (self : ImmutableTree τ) (newValue : Option τ) (path : List ChildKey)
    (h : self.Sorted) : (self.setValue newValue path).Sorted := by
  induction path generalizing self with
  | nil =>
    obtain ⟨value, children⟩ := self
    exact .node newValue children h.pairwise (h.of_mem value children)
  | cons front path ih =>
    obtain ⟨value, children⟩ := self
    exact h.insertKey value children value ⟨front⟩ _ (ih _ (h.childOrEmpty value children front))

theorem Sorted.setTree (self newTree : ImmutableTree τ) (path : List ChildKey) (h : self.Sorted)
    (hnew : newTree.Sorted) : (self.setTree newTree path).Sorted := by
  induction path generalizing self with
  | nil => exact hnew
  | cons front path ih =>
    obtain ⟨value, children⟩ := self
    have hchild := ih _ (h.childOrEmpty value children front)
    rw [ImmutableTree.setTree]
    split
    · exact h.removeKey value children value ⟨front⟩
    · exact h.insertKey value children value ⟨front⟩ _ hchild

/-! ## Every value -/

mutual

/-- `forEachPathSoFar:withBlock:`, the calls of the block. -/
def forEachPathSoFar : ImmutableTree τ → List ChildKey → List (List ChildKey × τ)
  | node value children, pathSoFar =>
    forEachOfChildren children pathSoFar ++ (value.map fun value => (pathSoFar, value)).toList

def forEachOfChildren : List (TreeKey × ImmutableTree τ) → List ChildKey → List (List ChildKey × τ)
  | [], _ => []
  | (childKey, childTree) :: children, pathSoFar =>
    forEachPathSoFar childTree (pathSoFar ++ [childKey.name]) ++ forEachOfChildren children pathSoFar

end

/-- The paths with a value and their values, in the order `forEach:` meets them. -/
def forEach (self : ImmutableTree τ) : List (List ChildKey × τ) := self.forEachPathSoFar []

end ImmutableTree

end FlowerGift
