import FlowerGift.Client.ImmutableTree

/-!
# Writes that are pending together

`FCompoundWrite`: a tree with the node written at each path.  A write below
another one is folded into its node, so what the writes say about a path is told
by the first value on the way to it; `overlay` reads a compound write as the
overlay it stands for.

    (w.addWrite a p).overlay = w.overlay.add p a.doc             (overlay_addWrite)
    (w.removeWriteAtPath p).overlay = w.overlay.remove p         (overlay_removeWriteAtPath)
    (w.applyToNode n).doc = w.overlay.apply n.doc                (doc_applyToNode)
    (w.childCompoundWriteAtPath p).overlay = w.overlay.sub p     (overlay_childCompoundWriteAtPath)
-/

namespace FlowerGift

open Realtime

variable {α : Type}

structure CompoundWrite (α : Type) where
  writeTree : ImmutableTree (Node α)
  sorted : writeTree.Sorted

namespace CompoundWrite

def emptyWrite : CompoundWrite α := ⟨.initWithValue none, ImmutableTree.sorted_initWithValue none⟩

def addWrite (self : CompoundWrite α) (node : Node α) (path : List ChildKey) : CompoundWrite α :=
  if path.isEmpty then ⟨.initWithValue (some node), ImmutableTree.sorted_initWithValue (some node)⟩
  else
    match self.writeTree.findRootMostValueAndPath path with
    | some (rootMostPath, rootMostValue) =>
      let relativePath := path.drop rootMostPath.length
      let value := rootMostValue.updateChild relativePath node
      ⟨self.writeTree.setValue (some value) rootMostPath, self.sorted.setValue _ _ _⟩
    | none =>
      ⟨self.writeTree.setTree (.initWithValue (some node)) path,
        self.sorted.setTree _ _ _ (ImmutableTree.sorted_initWithValue (some node))⟩

/-- The paths and nodes `enumerateWrites:` goes through. -/
def enumerateWrites (self : CompoundWrite α) : List (List ChildKey × Node α) := self.writeTree.forEach

def addCompoundWrite (self compoundWrite : CompoundWrite α) (path : List ChildKey) : CompoundWrite α :=
  compoundWrite.enumerateWrites.foldl
    (fun newWrite write => newWrite.addWrite write.2 (path ++ write.1)) self

def removeWriteAtPath (self : CompoundWrite α) (path : List ChildKey) : CompoundWrite α :=
  if path.isEmpty then emptyWrite
  else
    ⟨self.writeTree.setTree .empty path,
      self.sorted.setTree _ _ _ (ImmutableTree.sorted_initWithValue none)⟩

/-- The node written at a path, told by the first value on the way. -/
def completeNode (writeTree : ImmutableTree (Node α)) (path : List ChildKey) : Option (Node α) :=
  match writeTree.findRootMostValueAndPath path with
  | some (rootMostPath, rootMostValue) => some (rootMostValue.getChild (path.drop rootMostPath.length))
  | none => none

def completeNodeAtPath (self : CompoundWrite α) (path : List ChildKey) : Option (Node α) :=
  completeNode self.writeTree path

def hasCompleteWriteAtPath (self : CompoundWrite α) (path : List ChildKey) : Bool :=
  (self.completeNodeAtPath path).isSome

def isEmpty (self : CompoundWrite α) : Bool := self.writeTree.isEmpty

theorem sorted_subtreeAtPath (t : ImmutableTree (Node α)) (path : List ChildKey) (h : t.Sorted) :
    (t.subtreeAtPath path).Sorted := by
  induction path generalizing t with
  | nil => exact h
  | cons front path ih =>
    obtain ⟨value, children⟩ := t
    have hchild := h.childOrEmpty value children front
    rw [ImmutableTree.subtreeAtPath]
    unfold ImmutableTree.childOrEmpty at hchild
    cases hg : ImmutableTree.get ⟨front⟩ (ImmutableTree.node value children).children with
    | none => exact ImmutableTree.sorted_initWithValue none
    | some childTree =>
      rw [hg] at hchild
      exact ih childTree hchild

def childCompoundWriteAtPath (self : CompoundWrite α) (path : List ChildKey) : CompoundWrite α :=
  if path.isEmpty then self
  else
    match self.completeNodeAtPath path with
    | some shadowingNode =>
      ⟨.initWithValue (some shadowingNode), ImmutableTree.sorted_initWithValue (some shadowingNode)⟩
    | none => ⟨self.writeTree.subtreeAtPath path, sorted_subtreeAtPath _ path self.sorted⟩

mutual

/-- `applySubtreeWrite:atPath:toNode:`; no child is `.priority`, which would be kept for the end. -/
def applySubtreeWrite : ImmutableTree (Node α) → List ChildKey → Node α → Node α
  | .node (some value) _, relativePath, node => node.updateChild relativePath value
  | .node none children, relativePath, node => applyChildWrites children relativePath node

def applyChildWrites : List (TreeKey × ImmutableTree (Node α)) → List ChildKey → Node α → Node α
  | [], _, node => node
  | (childKey, childTree) :: children, relativePath, node =>
    applyChildWrites children relativePath
      (applySubtreeWrite childTree (relativePath ++ [childKey.name]) node)

end

def applyToNode (self : CompoundWrite α) (node : Node α) : Node α :=
  applySubtreeWrite self.writeTree [] node

/-! ## The overlay -/

/-- What the tree says about each path. -/
def treeOverlay (t : ImmutableTree (Node α)) : Overlay ChildKey α := fun q => (completeNode t q).map Node.doc

def overlay (self : CompoundWrite α) : Overlay ChildKey α := treeOverlay self.writeTree

theorem completeNode_some (t : ImmutableTree (Node α)) (q p : List ChildKey) (v : Node α)
    (h : t.findRootMostValueAndPath q = some (p, v)) :
    completeNode t q = some (v.getChild (q.drop p.length)) := by
  simp only [completeNode, h]

theorem completeNode_none (t : ImmutableTree (Node α)) (q : List ChildKey)
    (h : t.findRootMostValueAndPath q = none) : completeNode t q = none := by
  simp only [completeNode, h]

theorem treeOverlay_some (t : ImmutableTree (Node α)) (q p : List ChildKey) (v : Node α)
    (h : t.findRootMostValueAndPath q = some (p, v)) :
    treeOverlay t q = some (v.doc.sub (q.drop p.length)) := by
  rw [treeOverlay, completeNode_some t q p v h, Option.map_some, Node.doc_getChild]

theorem treeOverlay_none (t : ImmutableTree (Node α)) (q : List ChildKey)
    (h : t.findRootMostValueAndPath q = none) : treeOverlay t q = none := by
  rw [treeOverlay, completeNode_none t q h, Option.map_none]

@[simp] theorem overlay_emptyWrite : (emptyWrite : CompoundWrite α).overlay = Overlay.empty := by
  funext q
  exact treeOverlay_none _ q (ImmutableTree.find_empty q)

theorem treeOverlay_congr (t t' : ImmutableTree (Node α)) (q : List ChildKey)
    (h : t.findRootMostValueAndPath q = t'.findRootMostValueAndPath q) :
    treeOverlay t q = treeOverlay t' q := by
  unfold treeOverlay completeNode
  rw [h]

/-- Folding a write into the node that was written above it. -/
theorem treeOverlay_setValue (t : ImmutableTree (Node α)) (p s : List ChildKey) (v node : Node α)
    (h : t.findRootMostValueAndPath (p ++ s) = some (p, v)) :
    treeOverlay (t.setValue (some (v.updateChild s node)) p) =
      (treeOverlay t).add (p ++ s) node.doc := by
  funext q
  obtain ⟨-, hon⟩ := t.find_leads (p ++ s) p v h
  have hset := t.find_setValue (p ++ s) p v (v.updateChild s node) h q
  by_cases hpq : p <+: q
  · rw [if_pos hpq] at hset
    have hold := hon q hpq
    obtain ⟨r, rfl⟩ := hpq
    have hsome : treeOverlay t (p ++ r) = some (v.doc.sub r) := by
      rw [treeOverlay_some _ _ p v hold, List.drop_left]
    rw [treeOverlay_some _ _ p _ hset, List.drop_left, Node.doc_updateChild]
    by_cases hsr : s <+: r
    · rw [Doc.sub_write_below _ s r _ hsr,
        Overlay.add_below _ _ _ _ ((List.prefix_append_right_inj p).mpr hsr), List.length_append,
        ← List.drop_drop, List.drop_left]
    · have hne : ¬ p ++ s <+: p ++ r := fun hpre => hsr ((List.prefix_append_right_inj p).mp hpre)
      by_cases hrs : r <+: s
      · rw [Doc.sub_write_above _ s r _ hrs, Overlay.add_above _ _ _ _
          ((List.prefix_append_right_inj p).mpr hrs) fun heq => hne (heq ▸ List.prefix_rfl), hsome,
          Option.map_some, List.length_append, ← List.drop_drop, List.drop_left]
      · rw [Doc.sub_write_apart _ s r _ ⟨hsr, hrs⟩, Overlay.add_apart _ _ _ _
          ⟨hne, fun hpre => hrs ((List.prefix_append_right_inj p).mp hpre)⟩, hsome]
  · rw [if_neg hpq] at hset
    rw [treeOverlay_congr _ t q hset]
    have hsq : ¬ p ++ s <+: q := fun hpre => hpq ((List.prefix_append p s).trans hpre)
    by_cases hqp : q <+: p ++ s
    · have hnone : t.findRootMostValueAndPath q = none := by
        by_contra hsome
        obtain ⟨⟨p', v'⟩, hq⟩ := Option.ne_none_iff_exists'.mp hsome
        obtain ⟨hp'q, hon'⟩ := t.find_leads q p' v' hq
        have heq := h.symm.trans (hon' (p ++ s) (hp'q.trans hqp))
        cases heq
        exact hpq hp'q
      rw [Overlay.add_above _ _ _ _ hqp fun heq => hsq (heq ▸ List.prefix_rfl),
        treeOverlay_none t q hnone]
      rfl
    · rw [Overlay.add_apart _ _ _ _ ⟨hsq, hqp⟩]

/-- A write with no other one above it. -/
theorem treeOverlay_setTree (t : ImmutableTree (Node α)) (path : List ChildKey) (node : Node α)
    (h : t.findRootMostValueAndPath path = none) :
    treeOverlay (t.setTree (.initWithValue (some node)) path) = (treeOverlay t).add path node.doc := by
  funext q
  have hset := t.find_setTree path node h q
  by_cases hpq : path <+: q
  · rw [if_pos hpq] at hset
    rw [Overlay.add_below _ _ _ _ hpq]
    exact treeOverlay_some _ q path node hset
  · rw [if_neg hpq] at hset
    rw [treeOverlay_congr _ t q hset]
    by_cases hqp : q <+: path
    · have hnone : t.findRootMostValueAndPath q = none := by
        by_contra hsome
        obtain ⟨⟨p', v'⟩, hq⟩ := Option.ne_none_iff_exists'.mp hsome
        obtain ⟨hp'q, hon'⟩ := t.find_leads q p' v' hq
        have heq := h.symm.trans (hon' path (hp'q.trans hqp))
        cases heq
      rw [Overlay.add_above _ _ _ _ hqp fun heq => hpq (heq ▸ List.prefix_rfl),
        treeOverlay_none t q hnone]
      rfl
    · rw [Overlay.add_apart _ _ _ _ ⟨hpq, hqp⟩]

theorem overlay_addWrite (self : CompoundWrite α) (node : Node α) (path : List ChildKey) :
    (self.addWrite node path).overlay = self.overlay.add path node.doc := by
  unfold addWrite
  split
  · next hnil =>
    rw [List.isEmpty_iff.mp hnil]
    funext q
    rw [Overlay.add_below _ [] q _ List.nil_prefix]
    exact treeOverlay_some _ q [] node (ImmutableTree.find_value node [] q)
  · split
    · next p v hfind =>
      obtain ⟨s, rfl⟩ := (self.writeTree.find_leads path p v hfind).1
      have h := treeOverlay_setValue self.writeTree p s v node hfind
      simp only [overlay, List.drop_left]
      exact h
    · next hfind => exact treeOverlay_setTree self.writeTree path node hfind

theorem overlay_addCompoundWrite (self compoundWrite : CompoundWrite α) (path : List ChildKey) :
    (self.addCompoundWrite compoundWrite path).overlay =
      (compoundWrite.enumerateWrites.map fun write => (path ++ write.1, write.2.doc)).foldl
        (fun w e => w.add e.1 e.2) self.overlay := by
  unfold addCompoundWrite
  rw [List.foldl_map]
  induction compoundWrite.enumerateWrites generalizing self with
  | nil => rfl
  | cons write writes ih => rw [List.foldl_cons, ih, List.foldl_cons, overlay_addWrite]

theorem overlay_removeWriteAtPath (self : CompoundWrite α) (path : List ChildKey) :
    (self.removeWriteAtPath path).overlay = self.overlay.remove path := by
  classical
  have habove : (∀ r, r <+: path → r ≠ path → self.writeTree.findRootMostValueAndPath r = none) ↔
      ¬ ∃ r, r <+: path ∧ r ≠ path ∧ self.overlay r ≠ none := by
    constructor
    · rintro h ⟨r, hr, hne, hsome⟩
      exact hsome (treeOverlay_none _ r (h r hr hne))
    · intro h r hr hne
      by_contra hsome
      obtain ⟨⟨p', v'⟩, hq⟩ := Option.ne_none_iff_exists'.mp hsome
      refine h ⟨r, hr, hne, ?_⟩
      rw [overlay, treeOverlay_some _ r p' v' hq]
      exact Option.some_ne_none _
  have hset : ∀ q, treeOverlay (self.writeTree.setTree .empty path) q =
      self.overlay.remove path q := by
    intro q
    have hfind := self.writeTree.find_setTree_empty path q
    by_cases hcov : ∃ r, r <+: path ∧ r ≠ path ∧ self.overlay r ≠ none
    · rw [Overlay.remove, if_pos hcov]
      rw [if_neg fun h => habove.mp h.2 hcov] at hfind
      exact treeOverlay_congr _ _ q hfind
    · rw [Overlay.remove, if_neg hcov]
      by_cases hpq : path <+: q
      · rw [if_pos ⟨hpq, habove.mpr hcov⟩] at hfind
        rw [if_pos hpq]
        exact treeOverlay_none _ q hfind
      · rw [if_neg fun h => hpq h.1] at hfind
        rw [if_neg hpq]
        exact treeOverlay_congr _ _ q hfind
  funext q
  unfold removeWriteAtPath
  split
  · next hnil =>
    rw [List.isEmpty_iff.mp hnil] at hset ⊢
    exact hset q
  · exact hset q

/-! ## Laying over a node -/

/-- A tree without a value of its own says below a child what the child says. -/
theorem treeOverlay_cons (children : List (TreeKey × ImmutableTree (Node α))) (front : ChildKey)
    (q : List ChildKey) : treeOverlay (.node none children) (front :: q) =
      treeOverlay ((ImmutableTree.node none children).childOrEmpty front) q := by
  have hfind := ImmutableTree.find_cons_child children front q
  cases hc : ((ImmutableTree.node none children).childOrEmpty front).findRootMostValueAndPath q with
  | none =>
    rw [hc] at hfind
    rw [treeOverlay_none _ q hc, treeOverlay_none _ _ hfind]
  | some found =>
    obtain ⟨p, v⟩ := found
    rw [hc] at hfind
    rw [treeOverlay_some _ q p v hc, treeOverlay_some _ _ (front :: p) v hfind]
    rfl

/-- A child is laid over first, its siblings after it. -/
theorem shift_treeOverlay_cons (childKey : TreeKey) (childTree : ImmutableTree (Node α))
    (children : List (TreeKey × ImmutableTree (Node α))) (path : List ChildKey)
    (h : ∀ e ∈ children, childKey < e.1) :
    Overlay.shift path (treeOverlay (.node none ((childKey, childTree) :: children))) =
      fun q => (Overlay.shift (path ++ [childKey.name]) (treeOverlay childTree) q).or
        (Overlay.shift path (treeOverlay (.node none children)) q) := by
  funext q
  by_cases hq : path <+: q
  · obtain ⟨r, rfl⟩ := hq
    rw [Overlay.shift_append, Overlay.shift_append]
    cases r with
    | nil =>
      have hno : ¬ path ++ [childKey.name] <+: path ++ [] := by
        intro hpre
        have hle := hpre.length_le
        simp only [List.length_append, List.length_cons, List.length_nil] at hle
        omega
      rw [Overlay.shift_eq_none _ _ _ hno, treeOverlay_none _ [] (ImmutableTree.find_nil _),
        treeOverlay_none _ [] (ImmutableTree.find_nil _)]
      rfl
    | cons k r =>
      rw [treeOverlay_cons, treeOverlay_cons]
      by_cases hk : childKey = ⟨k⟩
      · subst hk
        have hchild : (ImmutableTree.node none ((⟨k⟩, childTree) :: children)).childOrEmpty k =
            childTree := by
          simp [ImmutableTree.childOrEmpty, ImmutableTree.children, ImmutableTree.get_cons]
        have habsent : ImmutableTree.get ⟨k⟩ children = none := by
          unfold ImmutableTree.get
          rw [Option.map_eq_none_iff, List.find?_eq_none]
          intro e he
          simpa using (h e he).ne'
        have hnone : (ImmutableTree.node none children).childOrEmpty k = .empty := by
          simp [ImmutableTree.childOrEmpty, ImmutableTree.children, habsent]
        have hpath : path ++ k :: r = path ++ [k] ++ r := by simp
        rw [hchild, hnone, treeOverlay_none _ r (ImmutableTree.find_empty r), hpath,
          Overlay.shift_append, Option.or_none]
      · have hchild : (ImmutableTree.node none ((childKey, childTree) :: children)).childOrEmpty k =
            (ImmutableTree.node none children).childOrEmpty k := by
          simp [ImmutableTree.childOrEmpty, ImmutableTree.children, ImmutableTree.get_cons, hk]
        have hno : ¬ path ++ [childKey.name] <+: path ++ k :: r := by
          intro hpre
          rw [List.prefix_append_right_inj, List.cons_prefix_cons] at hpre
          exact hk (congrArg TreeKey.mk hpre.1)
        rw [hchild, Overlay.shift_eq_none _ _ _ hno, Option.none_or]
  · have hno : ¬ path ++ [childKey.name] <+: q := fun hpre => hq ((List.prefix_append _ _).trans hpre)
    rw [Overlay.shift_eq_none _ _ _ hno, Overlay.shift_eq_none _ _ _ hq, Overlay.shift_eq_none _ _ _ hq]
    rfl

theorem apart_siblings (childKey : TreeKey) (childTree : ImmutableTree (Node α))
    (children : List (TreeKey × ImmutableTree (Node α))) (path : List ChildKey)
    (h : ∀ e ∈ children, childKey < e.1) (p q : List ChildKey)
    (hp : Overlay.shift (path ++ [childKey.name]) (treeOverlay childTree) p ≠ none)
    (hq : Overlay.shift path (treeOverlay (.node none children)) q ≠ none) : Apart p q := by
  obtain ⟨r, rfl⟩ := Overlay.le_of_shift _ _ _ hp
  obtain ⟨s, rfl⟩ := Overlay.le_of_shift _ _ _ hq
  rw [Overlay.shift_append] at hq
  cases s with
  | nil => exact absurd (treeOverlay_none _ [] (ImmutableTree.find_nil _)) hq
  | cons k s =>
    rw [treeOverlay_cons] at hq
    have hk : k ≠ childKey.name := by
      rintro rfl
      have habsent : ImmutableTree.get childKey children = none := by
        unfold ImmutableTree.get
        rw [Option.map_eq_none_iff, List.find?_eq_none]
        intro e he
        simpa using (h e he).ne'
      apply hq
      simp only [ImmutableTree.childOrEmpty, ImmutableTree.children, habsent, Option.getD_none]
      exact treeOverlay_none _ s (ImmutableTree.find_empty s)
    rw [List.append_assoc, List.singleton_append]
    refine ⟨fun hpre => ?_, fun hpre => ?_⟩
    · rw [List.prefix_append_right_inj, List.cons_prefix_cons] at hpre
      exact hk hpre.1.symm
    · rw [List.prefix_append_right_inj, List.cons_prefix_cons] at hpre
      exact hk hpre.1

mutual

theorem doc_applySubtreeWrite : (t : ImmutableTree (Node α)) → (path : List ChildKey) → (n : Node α) →
    t.Sorted → (applySubtreeWrite t path n).doc = (Overlay.shift path (treeOverlay t)).apply n.doc
  | .node (some value) children, path, n, _ => by
    have hone : Overlay.shift path (treeOverlay (.node (some value) children)) =
        Overlay.empty.add path value.doc := by
      classical
      funext q
      by_cases hq : path <+: q
      · obtain ⟨r, rfl⟩ := hq
        rw [Overlay.shift_append, Overlay.add_below _ _ _ _ (List.prefix_append path r),
          List.drop_left]
        exact treeOverlay_some _ r [] value (ImmutableTree.find_value value children r)
      · rw [Overlay.shift, if_neg hq]
        exact (Overlay.layer_eq_none [(path, value.doc)] q (by simpa using hq)).symm
    rw [hone, Overlay.apply_single]
    exact n.doc_updateChild path value
  | .node none children, path, n, h => by
    exact doc_applyChildWrites children path n h

theorem doc_applyChildWrites : (children : List (TreeKey × ImmutableTree (Node α))) →
    (path : List ChildKey) → (n : Node α) → (ImmutableTree.node none children).Sorted →
    (applyChildWrites children path n).doc =
      (Overlay.shift path (treeOverlay (.node none children))).apply n.doc
  | [], path, n, _ => by
    have hnone : Overlay.shift path (treeOverlay (.node none [])) = (Overlay.empty : Overlay ChildKey α) := by
      funext q
      by_contra hsome
      obtain ⟨r, rfl⟩ := Overlay.le_of_shift _ _ _ hsome
      rw [Overlay.shift_append] at hsome
      exact hsome (treeOverlay_none _ r (ImmutableTree.find_empty r))
    rw [hnone, Overlay.apply_empty]
    rfl
  | (childKey, childTree) :: children, path, n, h => by
    have hsorted := List.pairwise_cons.mp h.pairwise
    have hchild : childTree.Sorted := h.of_mem _ _ (childKey, childTree) List.mem_cons_self
    have hrest : (ImmutableTree.node none children).Sorted :=
      .node none children hsorted.2 fun e he => h.of_mem _ _ e (List.mem_cons_of_mem _ he)
    have hlt : ∀ e ∈ children, childKey < e.1 := hsorted.1
    rw [applyChildWrites, doc_applyChildWrites children path _ hrest,
      doc_applySubtreeWrite childTree (path ++ [childKey.name]) n hchild,
      shift_treeOverlay_cons childKey childTree children path hlt]
    exact Overlay.apply_apply _ _ n.doc (apart_siblings childKey childTree children path hlt)

end

theorem doc_applyToNode (self : CompoundWrite α) (n : Node α) :
    (self.applyToNode n).doc = self.overlay.apply n.doc := by
  have h := doc_applySubtreeWrite self.writeTree [] n self.sorted
  rwa [Overlay.shift_nil] at h

/-! ## Seen from a path -/

theorem treeOverlay_subtreeAtPath (t : ImmutableTree (Node α)) (path : List ChildKey)
    (h : t.findRootMostValueAndPath path = none) :
    treeOverlay (t.subtreeAtPath path) = (treeOverlay t).sub path := by
  induction path generalizing t with
  | nil => rfl
  | cons front path ih =>
    obtain ⟨value, children⟩ := t
    cases value with
    | some value => rw [ImmutableTree.find_value] at h; cases h
    | none =>
      rw [ImmutableTree.find_cons_child, Option.map_eq_none_iff] at h
      have hsub : (ImmutableTree.node none children).subtreeAtPath (front :: path) =
          ((ImmutableTree.node none children).childOrEmpty front).subtreeAtPath path := by
        rw [ImmutableTree.subtreeAtPath, ImmutableTree.childOrEmpty]
        cases ImmutableTree.get ⟨front⟩ (ImmutableTree.node none children).children with
        | some childTree => rfl
        | none =>
          rw [Option.getD_none]
          cases path with
          | nil => rfl
          | cons k path => rfl
      rw [hsub, ih _ h]
      funext q
      exact (treeOverlay_cons children front (path ++ q)).symm

/-- What is known at a path is known, cut down, below it. -/
theorem overlay_append (self : CompoundWrite α) (p q : List ChildKey) (d : Doc ChildKey α)
    (h : self.overlay p = some d) : self.overlay (p ++ q) = some (d.sub q) := by
  cases hf : self.writeTree.findRootMostValueAndPath p with
  | none =>
    rw [overlay, treeOverlay_none _ p hf] at h
    cases h
  | some found =>
    obtain ⟨p', v⟩ := found
    obtain ⟨hp', hon⟩ := self.writeTree.find_leads p p' v hf
    rw [overlay, treeOverlay_some _ p p' v hf] at h
    rw [overlay, treeOverlay_some _ (p ++ q) p' v (hon _ (hp'.trans (List.prefix_append p q))),
      List.drop_append_of_le_length hp'.length_le, ← Doc.sub_sub, Option.some.inj h]

theorem completeNodeAtPath_doc (self : CompoundWrite α) (path : List ChildKey) :
    (self.completeNodeAtPath path).map Node.doc = self.overlay path := rfl

theorem overlay_childCompoundWriteAtPath (self : CompoundWrite α) (path : List ChildKey) :
    (self.childCompoundWriteAtPath path).overlay = self.overlay.sub path := by
  unfold childCompoundWriteAtPath
  split
  · next hnil =>
    rw [List.isEmpty_iff.mp hnil]
    rfl
  · split
    · next node hnode =>
      have hknown : self.overlay path = some node.doc := by
        rw [← completeNodeAtPath_doc, hnode]
        rfl
      funext q
      rw [Overlay.sub, self.overlay_append path q node.doc hknown]
      exact treeOverlay_some _ q [] node (ImmutableTree.find_value node [] q)
    · next hnone =>
      refine treeOverlay_subtreeAtPath self.writeTree path ?_
      cases hf : self.writeTree.findRootMostValueAndPath path with
      | none => rfl
      | some found =>
        rw [completeNodeAtPath, completeNode_some _ path found.1 found.2 hf] at hnone
        cases hnone

end CompoundWrite

end FlowerGift
