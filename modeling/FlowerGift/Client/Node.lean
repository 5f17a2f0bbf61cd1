import FlowerGift.Client.ChildKey
import FlowerGift.Lib.Ascending
import FlowerGift.Lib.Document

/-!
# Snapshots of the database

`FLeafNode` and `FChildrenNode`: a leaf with a value, or children in key order.
A node without children is the empty node, and no child of a node is empty, so
writing the empty node somewhere removes what is there, and a node that loses
its last child goes with it.  `Node` carries this (`sound`).  The app sets no
priorities: a node here has none, and no name is `.priority` (`ChildKey`), so the
branches for it are left out.

A path is given by its components.  What a node holds at each path is `doc`;
nodes with the same `doc` are equal (`ext_doc`), and writing into a node is
writing into its document:

    (n.updateChild p a).doc = n.doc.write p a.doc       (doc_updateChild)
-/

namespace FlowerGift

open Realtime

inductive RawNode (α : Type)
  | leafNode (value : α)
  | childrenNode (children : List (ChildKey × RawNode α))

/-- The children have ascending keys, and none of them is empty. -/
inductive RawNode.Sound {α : Type} : RawNode α → Prop
  | leafNode (value : α) : Sound (.leafNode value)
  | childrenNode (children : List (ChildKey × RawNode α))
      (sorted : children.Pairwise fun a b => a.1 < b.1)
      (nonempty : ∀ e ∈ children, e.2 ≠ .childrenNode [])
      (sound : ∀ e ∈ children, Sound e.2) : Sound (.childrenNode children)

structure Node (α : Type) where
  raw : RawNode α
  sound : raw.Sound

namespace Node

variable {α : Type}

def leafNode (value : α) : Node α := ⟨.leafNode value, .leafNode value⟩

/-- `[FEmptyNode emptyNode]`. -/
def emptyNode : Node α := ⟨.childrenNode [], .childrenNode [] List.Pairwise.nil (by simp) (by simp)⟩

def isLeafNode (self : Node α) : Bool :=
  match self.raw with
  | .leafNode _ => true
  | .childrenNode _ => false

def isEmpty (self : Node α) : Bool :=
  match self.raw with
  | .leafNode _ => false
  | .childrenNode children => children.isEmpty

/-- The value of a leaf. -/
def leafValue (self : Node α) : Option α :=
  match self.raw with
  | .leafNode value => some value
  | .childrenNode _ => none

theorem sound_of_mem (children : List (ChildKey × RawNode α)) (h : (RawNode.childrenNode children).Sound) :
    ∀ e ∈ children, e.2.Sound := by
  cases h with
  | childrenNode _ _ _ sound => exact sound

theorem sorted_of_sound (children : List (ChildKey × RawNode α))
    (h : (RawNode.childrenNode children).Sound) : children.Pairwise fun a b => a.1 < b.1 := by
  cases h with
  | childrenNode _ sorted _ _ => exact sorted

/-- `children`; a leaf has none. -/
def children : Node α → SortedMap ChildKey (Node α)
  | ⟨.leafNode _, _⟩ => ∅
  | ⟨.childrenNode children, h⟩ =>
    { entries := children.pmap (fun e he => (e.1, ⟨e.2, he⟩)) (sound_of_mem children h)
      sorted := by
        rw [List.pairwise_pmap]
        exact (sorted_of_sound children h).imp fun hab _ _ => hab }

/-- `initWithChildren:`. -/
def ofChildren (m : SortedMap ChildKey (Node α)) (h : ∀ e ∈ m.entries, e.2.isEmpty = false) : Node α where
  raw := .childrenNode (m.entries.map fun e => (e.1, e.2.raw))
  sound := by
    refine .childrenNode _ (List.pairwise_map.mpr m.sorted) ?_ ?_
    · intro e he heq
      obtain ⟨e', he', rfl⟩ := List.mem_map.mp he
      have hne := h e' he'
      have hraw : e'.2.raw = .childrenNode [] := heq
      rw [isEmpty, hraw] at hne
      cases hne
    · intro e he
      obtain ⟨e', -, rfl⟩ := List.mem_map.mp he
      exact e'.2.sound

theorem isEmpty_of_mem (self : Node α) : ∀ e ∈ self.children.entries, e.2.isEmpty = false := by
  obtain ⟨raw, sound⟩ := self
  cases sound with
  | leafNode value => simp [children]
  | childrenNode cs sorted nonempty sound =>
    intro e he
    obtain ⟨e', he', rfl⟩ := List.mem_pmap.mp he
    have hne := nonempty e' he'
    unfold isEmpty
    split
    · rfl
    · next cs' hcs =>
      cases cs' with
      | nil => exact absurd hcs hne
      | cons _ _ => rfl

@[simp] theorem children_ofChildren (m : SortedMap ChildKey (Node α))
    (h : ∀ e ∈ m.entries, e.2.isEmpty = false) : (ofChildren m h).children = m := by
  have hent : (ofChildren m h).children.entries = m.entries := by
    simp only [ofChildren, children, List.pmap_map]
    exact List.ext_getElem (by simp) (by simp)
  exact SortedMap.ext_entries _ _ hent

theorem ofChildren_children (self : Node α) (h : self.isLeafNode = false) :
    ofChildren self.children self.isEmpty_of_mem = self := by
  obtain ⟨raw, sound⟩ := self
  cases raw with
  | leafNode value => cases h
  | childrenNode cs => simp [ofChildren, children, List.map_pmap]

@[simp] theorem isLeafNode_ofChildren (m : SortedMap ChildKey (Node α))
    (h : ∀ e ∈ m.entries, e.2.isEmpty = false) : (ofChildren m h).isLeafNode = false := rfl

@[simp] theorem leafValue_ofChildren (m : SortedMap ChildKey (Node α))
    (h : ∀ e ∈ m.entries, e.2.isEmpty = false) : (ofChildren m h).leafValue = none := rfl

theorem isEmpty_iff (self : Node α) : self.isEmpty = true ↔ self = emptyNode := by
  obtain ⟨raw, sound⟩ := self
  cases raw with
  | leafNode value => simp [isEmpty, emptyNode]
  | childrenNode cs => cases cs <;> simp [isEmpty, emptyNode]

@[simp] theorem isEmpty_emptyNode : (emptyNode : Node α).isEmpty = true := rfl

@[simp] theorem children_emptyNode : (emptyNode : Node α).children = ∅ := rfl

/-- A leaf, or children with the statement for each of them. -/
@[elab_as_elim] theorem induction {P : Node α → Prop} (leafNode : ∀ value, P (leafNode value))
    (ofChildren : ∀ m h, (∀ e ∈ m.entries, P e.2) → P (ofChildren m h)) (self : Node α) : P self := by
  have hsize : ∀ n (self : Node α), sizeOf self.raw = n → P self := by
    intro n
    induction n using Nat.strongRecOn with
    | _ n ih =>
      rintro ⟨raw, sound⟩ rfl
      cases raw with
      | leafNode value => exact leafNode value
      | childrenNode cs =>
        rw [← ofChildren_children ⟨.childrenNode cs, sound⟩ rfl]
        refine ofChildren _ _ fun e he => ih _ ?_ e.2 rfl
        obtain ⟨e', he', rfl⟩ := List.mem_pmap.mp he
        have hlt := List.sizeOf_lt_of_mem he'
        have hpair : sizeOf e' = 1 + sizeOf e'.1 + sizeOf e'.2 := rfl
        show sizeOf e'.2 < sizeOf (RawNode.childrenNode cs)
        rw [RawNode.childrenNode.sizeOf_spec]
        omega
  exact hsize _ self rfl

/-! ## Children -/

def getImmediateChild (self : Node α) (childName : ChildKey) : Node α :=
  (self.children.get childName).getD emptyNode

def getChild (self : Node α) : List ChildKey → Node α
  | [] => self
  | front :: path =>
    if self.isLeafNode then emptyNode else (self.getImmediateChild front).getChild path

def newChildren (self : Node α) (childName : ChildKey) (newChildNode : Node α) : SortedMap ChildKey (Node α) :=
  if newChildNode.isEmpty then self.children.erase childName
  else self.children.insert childName newChildNode

theorem newChildren_nonempty (self : Node α) (childName : ChildKey) (newChildNode : Node α) :
    ∀ e ∈ (self.newChildren childName newChildNode).entries, e.2.isEmpty = false := by
  intro e he
  unfold newChildren at he
  split at he
  · exact self.isEmpty_of_mem e ((SortedMap.mem_erase_iff _ _ _).mp he).1
  · next hne =>
    rw [(SortedMap.entries_insert_perm_erase _ _ _).mem_iff, List.mem_cons] at he
    rcases he with rfl | he
    · simpa using hne
    · exact self.isEmpty_of_mem e ((SortedMap.mem_erase_iff _ _ _).mp he).1

/-- `updateImmediateChild:withNewChild:`; a leaf without the new child stays a leaf, with it its value
goes. -/
def updateImmediateChild (self : Node α) (childName : ChildKey) (newChildNode : Node α) : Node α :=
  if self.isLeafNode && newChildNode.isEmpty then self
  else if (self.newChildren childName newChildNode).entries.isEmpty then emptyNode
  else
    ofChildren (self.newChildren childName newChildNode)
      (self.newChildren_nonempty childName newChildNode)

def updateChild (self : Node α) (path : List ChildKey) (newChildNode : Node α) : Node α :=
  match path with
  | [] => newChildNode
  | front :: path =>
    if self.isLeafNode then
      if newChildNode.isEmpty then self
      else self.updateImmediateChild front (emptyNode.updateChild path newChildNode)
    else self.updateImmediateChild front ((self.getImmediateChild front).updateChild path newChildNode)

/-! ## What they hold -/

@[simp] theorem getImmediateChild_emptyNode (childName : ChildKey) :
    (emptyNode : Node α).getImmediateChild childName = emptyNode := rfl

theorem getImmediateChild_of_leaf (self : Node α) (childName : ChildKey) (h : self.isLeafNode = true) :
    self.getImmediateChild childName = emptyNode := by
  obtain ⟨raw, sound⟩ := self
  cases raw with
  | leafNode value => rfl
  | childrenNode cs => cases h

theorem get_children (self : Node α) (k : ChildKey) : self.children.get k =
    if (self.getImmediateChild k).isEmpty then none else some (self.getImmediateChild k) := by
  unfold getImmediateChild
  cases hg : self.children.get k with
  | none => rfl
  | some c =>
    have hne := self.isEmpty_of_mem (k, c) ((SortedMap.get_eq_some_iff _ _ _).mp hg)
    rw [Option.getD_some, hne]
    rfl

@[simp] theorem getChild_nil (self : Node α) : self.getChild [] = self := rfl

theorem getChild_cons (self : Node α) (front : ChildKey) (path : List ChildKey) :
    self.getChild (front :: path) = (self.getImmediateChild front).getChild path := by
  rw [getChild]
  split
  · next h =>
    rw [self.getImmediateChild_of_leaf front h]
    induction path with
    | nil => rfl
    | cons k path ih => exact ih
  · rfl

theorem getChild_append (self : Node α) (p q : List ChildKey) :
    self.getChild (p ++ q) = (self.getChild p).getChild q := by
  induction p generalizing self with
  | nil => rfl
  | cons k p ih => rw [List.cons_append, getChild_cons, ih, getChild_cons]

/-- The leaves of a node, by their paths. -/
def doc (self : Node α) : Doc ChildKey α := fun p => (self.getChild p).leafValue

theorem doc_getChild (self : Node α) (p : List ChildKey) : (self.getChild p).doc = self.doc.sub p := by
  funext q
  rw [doc, ← getChild_append]
  rfl

theorem doc_cons (self : Node α) (k : ChildKey) (p : List ChildKey) :
    self.doc (k :: p) = (self.getImmediateChild k).doc p := by
  rw [doc, getChild_cons]
  rfl

theorem doc_getImmediateChild (self : Node α) (k : ChildKey) :
    (self.getImmediateChild k).doc = self.doc.sub [k] := by
  funext p
  exact (self.doc_cons k p).symm

@[simp] theorem doc_emptyNode : (emptyNode : Node α).doc = Doc.empty := by
  funext p
  induction p with
  | nil => rfl
  | cons k p ih => rwa [doc_cons]

/-- A node that is not empty holds a leaf. -/
theorem exists_leaf (self : Node α) (h : self.isEmpty = false) : ∃ p v, self.doc p = some v := by
  induction self using Node.induction with
  | leafNode value => exact ⟨[], value, rfl⟩
  | ofChildren m hm ih =>
    cases hent : m.entries with
    | nil =>
      have hempty : (ofChildren m hm).isEmpty = true := by simp [ofChildren, isEmpty, hent]
      rw [hempty] at h
      cases h
    | cons e es =>
      have he : e ∈ m.entries := hent ▸ List.mem_cons_self
      obtain ⟨p, v, hv⟩ := ih e he (hm e he)
      refine ⟨e.1 :: p, v, ?_⟩
      rw [doc_cons, getImmediateChild, children_ofChildren, (m.get_eq_some_iff e.1 e.2).mpr he]
      exact hv

theorem doc_eq_empty_iff (self : Node α) : self.doc = Doc.empty ↔ self.isEmpty = true := by
  constructor
  · intro h
    by_contra hne
    obtain ⟨p, v, hv⟩ := self.exists_leaf (by simpa using hne)
    rw [h] at hv
    cases hv
  · intro h
    rw [(self.isEmpty_iff).mp h, doc_emptyNode]

theorem leafValue_eq_some_iff (self : Node α) (v : α) :
    self.leafValue = some v ↔ self = leafNode v := by
  obtain ⟨raw, sound⟩ := self
  cases raw <;> simp [leafValue, leafNode]

theorem isLeafNode_eq (self : Node α) : self.isLeafNode = self.leafValue.isSome := by
  obtain ⟨raw, sound⟩ := self
  cases raw <;> rfl

/-- Nodes that hold the same leaves are equal. -/
theorem ext_doc (self other : Node α) (h : self.doc = other.doc) : self = other := by
  induction self using Node.induction generalizing other with
  | leafNode value =>
    have hv : other.leafValue = some value := (congrFun h []).symm
    exact ((other.leafValue_eq_some_iff value).mp hv).symm
  | ofChildren m hm ih =>
    have hleaf : other.isLeafNode = false := by
      rw [isLeafNode_eq, ← show (ofChildren m hm).leafValue = other.leafValue from congrFun h []]
      rfl
    have hget : ∀ k, m.get k = other.children.get k := by
      intro k
      have hdoc : ((ofChildren m hm).getImmediateChild k).doc = (other.getImmediateChild k).doc := by
        funext p
        rw [← doc_cons, ← doc_cons, h]
      have hm' : (ofChildren m hm).children.get k = m.get k := by rw [children_ofChildren]
      rw [← hm', get_children, get_children]
      cases hg : m.get k with
      | none =>
        have hnone : (ofChildren m hm).getImmediateChild k = emptyNode := by
          rw [getImmediateChild, hm', hg]
          rfl
        rw [hnone, doc_emptyNode] at hdoc
        rw [hnone, ((other.getImmediateChild k).doc_eq_empty_iff).mp hdoc.symm]
        rfl
      | some c =>
        have hsome : (ofChildren m hm).getImmediateChild k = c := by
          rw [getImmediateChild, hm', hg]
          rfl
        rw [hsome] at hdoc ⊢
        have hc : c = other.getImmediateChild k := ih (k, c) ((m.get_eq_some_iff k c).mp hg) _ hdoc
        rw [← hc]
    rw [← other.ofChildren_children hleaf]
    obtain rfl : m = other.children := SortedMap.ext_get _ _ hget
    rfl

/-! ## What writing changes -/

theorem getImmediateChild_updateImmediateChild (self : Node α) (k k' : ChildKey) (c : Node α) :
    (self.updateImmediateChild k c).getImmediateChild k' =
      if k' = k then c else self.getImmediateChild k' := by
  have hget : (self.newChildren k c).get k' =
      if k' = k then (if c.isEmpty then none else some c) else self.children.get k' := by
    unfold newChildren
    split
    · exact SortedMap.get_erase _ _ _
    · exact SortedMap.get_insert _ _ _ _
  have hnew : ((self.newChildren k c).get k').getD emptyNode =
      if k' = k then c else self.getImmediateChild k' := by
    rw [hget]
    by_cases hk : k' = k
    · rw [if_pos hk, if_pos hk]
      by_cases hc : c.isEmpty = true
      · rw [if_pos hc, (c.isEmpty_iff).mp hc]
        rfl
      · rw [if_neg hc]
        rfl
    · rw [if_neg hk, if_neg hk]
      rfl
  unfold updateImmediateChild
  split
  · next hleaf =>
    rw [Bool.and_eq_true] at hleaf
    rw [self.getImmediateChild_of_leaf k' hleaf.1, (c.isEmpty_iff).mp hleaf.2, ite_self]
  · split
    · next hnil =>
      have hzero : (self.newChildren k c).get k' = none := by
        rw [SortedMap.get_eq_none_iff, List.isEmpty_iff.mp hnil]
        simp
      rw [← hnew, hzero]
      rfl
    · rw [← hnew, getImmediateChild, children_ofChildren]

theorem leafValue_updateImmediateChild (self : Node α) (k : ChildKey) (c : Node α) :
    (self.updateImmediateChild k c).leafValue = if c.isEmpty then self.leafValue else none := by
  unfold updateImmediateChild
  cases hc : c.isEmpty with
  | false =>
    rw [Bool.and_false, if_neg Bool.false_ne_true, if_neg Bool.false_ne_true]
    split
    · rfl
    · rfl
  | true =>
    rw [Bool.and_true, if_pos rfl]
    cases hleaf : self.isLeafNode with
    | true => rfl
    | false =>
      have hnone : self.leafValue = none := by
        rw [isLeafNode_eq] at hleaf
        simpa using hleaf
      rw [if_neg Bool.false_ne_true, hnone]
      split
      · rfl
      · rfl

theorem emptyNode_updateChild (path : List ChildKey) :
    (emptyNode : Node α).updateChild path emptyNode = emptyNode := by
  induction path with
  | nil => rfl
  | cons k path ih =>
    show updateImmediateChild emptyNode k (updateChild emptyNode path emptyNode) = emptyNode
    rw [ih]
    rfl

/-- Leaf or not, `updateChild` goes down one child. -/
theorem updateChild_cons (self : Node α) (front : ChildKey) (path : List ChildKey) (a : Node α) :
    self.updateChild (front :: path) a =
      self.updateImmediateChild front ((self.getImmediateChild front).updateChild path a) := by
  rw [updateChild]
  split
  · next hleaf =>
    rw [self.getImmediateChild_of_leaf front hleaf]
    split
    · next ha =>
      rw [(a.isEmpty_iff).mp ha, emptyNode_updateChild, updateImmediateChild, hleaf]
      rfl
    · rfl
  · rfl

theorem isEmpty_emptyNode_updateChild (path : List ChildKey) (a : Node α) :
    ((emptyNode : Node α).updateChild path a).isEmpty = a.isEmpty := by
  induction path with
  | nil => rfl
  | cons k path ih =>
    cases ha : a.isEmpty with
    | true => rw [(a.isEmpty_iff).mp ha, emptyNode_updateChild, isEmpty_emptyNode]
    | false =>
      by_contra hne
      have hempty := ((emptyNode.updateChild (k :: path) a).isEmpty_iff).mp (by simpa using hne)
      have hchild := getImmediateChild_updateImmediateChild emptyNode k k
        ((emptyNode.getImmediateChild k).updateChild path a)
      rw [← updateChild_cons, hempty, if_pos rfl, getImmediateChild_emptyNode] at hchild
      rw [← hchild, ha] at ih
      cases ih

/-- Writing into a node is writing into its document. -/
theorem doc_updateChild (self : Node α) (p : List ChildKey) (a : Node α) :
    (self.updateChild p a).doc = self.doc.write p a.doc := by
  classical
  induction p generalizing self with
  | nil => exact (Doc.write_nil self.doc a.doc).symm
  | cons k p ih =>
    funext q
    cases q with
    | nil =>
      rw [Doc.write_above _ _ _ _ List.nil_prefix (List.cons_ne_nil k p).symm, doc, getChild_nil,
        updateChild_cons, leafValue_updateImmediateChild]
      cases hleaf : self.isLeafNode with
      | true =>
        rw [self.getImmediateChild_of_leaf k hleaf, isEmpty_emptyNode_updateChild]
        exact if_congr a.doc_eq_empty_iff.symm rfl rfl
      | false =>
        have hnone : self.leafValue = none := by
          rw [isLeafNode_eq] at hleaf
          simpa using hleaf
        have hnil : self.doc [] = none := hnone
        rw [hnone, hnil, ite_self, ite_self]
    | cons k' q =>
      rw [doc_cons, updateChild_cons, getImmediateChild_updateImmediateChild]
      by_cases hk : k' = k
      · subst hk
        rw [if_pos rfl, ih, doc_getImmediateChild]
        have h := congrFun (Doc.sub_write_above self.doc (k' :: p) [k'] a.doc ⟨p, rfl⟩) q
        exact h.symm
      · have hapart : Apart (k :: p) (k' :: q) := by
          refine ⟨fun h => ?_, fun h => ?_⟩
          · exact hk (List.cons_prefix_cons.mp h).1.symm
          · exact hk (List.cons_prefix_cons.mp h).1
        rw [if_neg hk, Doc.write_apart _ _ _ _ hapart, ← doc_cons]

theorem getChild_updateChild_self (self : Node α) (p : List ChildKey) (a : Node α) :
    (self.updateChild p a).getChild p = a := by
  apply ext_doc
  rw [doc_getChild, doc_updateChild, Doc.sub_write_below _ _ _ _ List.prefix_rfl, List.drop_length,
    Doc.sub_nil]

/-- What is read after a write: below the path what was written, above it the same write seen from
there, and apart from it what was there. -/
theorem getChild_updateChild (self : Node α) (p q : List ChildKey) (a : Node α) :
    (self.updateChild p a).getChild q =
      if p <+: q then a.getChild (q.drop p.length)
      else if q <+: p then (self.getChild q).updateChild (p.drop q.length) a
      else self.getChild q := by
  apply ext_doc
  rw [doc_getChild, doc_updateChild]
  by_cases hpq : p <+: q
  · rw [if_pos hpq, Doc.sub_write_below _ _ _ _ hpq, doc_getChild]
  · by_cases hqp : q <+: p
    · rw [if_neg hpq, if_pos hqp, Doc.sub_write_above _ _ _ _ hqp, doc_updateChild, doc_getChild]
    · rw [if_neg hpq, if_neg hqp, Doc.sub_write_apart _ _ _ _ ⟨hpq, hqp⟩, doc_getChild]

end Node

end FlowerGift
