import FlowerGift.Client.WriteTree

/-!
# What the views are given

The methods of `FWriteTree` by which a view of the data is computed: from the
data the server sent for a path, if it did, and the visible writes.  What they
are to answer is the visible writes laid over the server's whole data, seen
from the path (`view`); they only know the part of the server's data below the
path, or nothing of it.

With the server's part at hand the answer is the view; without, an answer comes
exactly when the view does not depend on the server's data
(`calculateCompleteEventCacheAtPath_iff`).
-/

namespace FlowerGift

open Realtime

variable {α : Type}

theorem ImmutableTree.get_eq_some_iff {τ : Type} (children : List (TreeKey × τ))
    (h : children.Pairwise fun a b => a.1 < b.1) (name : TreeKey) (child : τ) :
    ImmutableTree.get name children = some child ↔ (name, child) ∈ children := by
  induction children with
  | nil => simp
  | cons e children ih =>
    obtain ⟨hlt, hrest⟩ := List.pairwise_cons.mp h
    rw [ImmutableTree.get_cons, List.mem_cons]
    by_cases he : e.1 = name
    · have hno : (name, child) ∉ children := fun hmem => (hlt _ hmem).ne he
      rw [if_pos he, Option.some.injEq, or_iff_left hno, ← he, Prod.ext_iff]
      simp [eq_comm]
    · have hne : (name, child) ≠ e := fun h => he (h ▸ rfl)
      rw [if_neg he, ih hrest, or_iff_right hne]

/-- The children after a list of updates in which every child named `k` is `c`. -/
theorem Node.getImmediateChild_foldl (l : List (ChildKey × Node α)) (node : Node α) (k : ChildKey) (c : Node α)
    (h : ∀ child ∈ l, child.1 = k → child.2 = c) :
    (l.foldl (fun node child => node.updateImmediateChild child.1 child.2) node).getImmediateChild k =
      if ∃ child ∈ l, child.1 = k then c else node.getImmediateChild k := by
  induction l generalizing node with
  | nil => simp
  | cons child l ih =>
    obtain ⟨hchild, hl⟩ := List.forall_mem_cons.mp h
    rw [List.foldl_cons, ih _ hl, Node.getImmediateChild_updateImmediateChild]
    by_cases hex : ∃ child ∈ l, child.1 = k
    · rw [if_pos hex, if_pos (hex.imp fun _ h => ⟨List.mem_cons_of_mem _ h.1, h.2⟩)]
    · rw [if_neg hex]
      by_cases hk : child.1 = k
      · rw [if_pos hk.symm, if_pos ⟨child, List.mem_cons_self, hk⟩, hchild hk]
      · rw [if_neg fun h => hk h.symm, if_neg]
        rintro ⟨child', hmem, hk'⟩
        rcases List.mem_cons.mp hmem with rfl | hmem
        · exact hk hk'
        · exact hex ⟨child', hmem, hk'⟩

/-! ## Compound writes -/

namespace CompoundWrite

/-- The children that are known whole. -/
def completeChildren (self : CompoundWrite α) : List (ChildKey × Node α) :=
  match self.writeTree with
  | .node (some value) _ => value.children.entries
  | .node none children => children.filterMap fun child => child.2.value.map fun value => (child.1.name, value)

theorem mem_completeChildren (self : CompoundWrite α) (hroot : self.completeNodeAtPath [] = none)
    (k : ChildKey) (node : Node α) :
    (k, node) ∈ self.completeChildren ↔ self.completeNodeAtPath [k] = some node := by
  obtain ⟨⟨value, children⟩, hsorted⟩ := self
  cases value with
  | some value =>
    rw [completeNodeAtPath, completeNode_some _ [] [] value (ImmutableTree.find_value _ _ _)] at hroot
    cases hroot
  | none =>
    have hget := ImmutableTree.get_eq_some_iff children hsorted.pairwise ⟨k⟩
    simp only [completeChildren, completeNodeAtPath, completeNode, ImmutableTree.find_cons,
      List.mem_filterMap]
    constructor
    · rintro ⟨⟨name, childTree⟩, hmem, hvalue⟩
      obtain ⟨v, hv, heq⟩ := Option.map_eq_some_iff.mp hvalue
      cases heq
      obtain ⟨value, grandchildren⟩ := childTree
      obtain rfl : value = some node := hv
      rw [(hget _).mpr hmem, Option.bind_some, ImmutableTree.find_value]
      rfl
    · intro h
      cases hc : ImmutableTree.get ⟨k⟩ children with
      | none =>
        rw [hc] at h
        cases h
      | some childTree =>
        obtain ⟨value, grandchildren⟩ := childTree
        rw [hc, Option.bind_some] at h
        cases value with
        | none =>
          rw [ImmutableTree.find_nil] at h
          cases h
        | some value =>
          rw [ImmutableTree.find_value] at h
          cases h
          exact ⟨_, (hget _).mp hc, rfl⟩

/-- A compound write seen from a path, laid over what is there. -/
theorem applyToNode_getChild (self : CompoundWrite α) (node : Node α) (path : List ChildKey) :
    (self.childCompoundWriteAtPath path).applyToNode (node.getChild path) =
      (self.applyToNode node).getChild path := by
  apply Node.ext_doc
  rw [doc_applyToNode, overlay_childCompoundWriteAtPath, Node.doc_getChild, Overlay.apply_sub,
    Node.doc_getChild, doc_applyToNode]

theorem overlay_of_complete (self : CompoundWrite α) (path : List ChildKey) (node : Node α)
    (h : self.completeNodeAtPath path = some node) : self.overlay path = some node.doc := by
  rw [← completeNodeAtPath_doc, h, Option.map_some]

/-- What is known whole at a path shows there whatever the writes are laid over. -/
theorem getChild_of_complete (self : CompoundWrite α) (path : List ChildKey) (shadowingNode : Node α)
    (h : self.completeNodeAtPath path = some shadowingNode) (node : Node α) :
    (self.applyToNode node).getChild path = shadowingNode := by
  apply Node.ext_doc
  funext q
  have hq := self.overlay_append path q _ (self.overlay_of_complete path shadowingNode h)
  rw [Node.doc_getChild, doc_applyToNode, Doc.sub, Overlay.apply_some _ _ _ _ hq, Doc.sub,
    List.append_nil]

theorem completeNodeAtPath_childCompoundWriteAtPath (self : CompoundWrite α) (p q : List ChildKey) :
    (self.childCompoundWriteAtPath p).completeNodeAtPath q = self.completeNodeAtPath (p ++ q) := by
  apply Option.map_injective Node.ext_doc
  rw [completeNodeAtPath_doc, completeNodeAtPath_doc, overlay_childCompoundWriteAtPath]
  rfl

theorem overlay_of_isEmpty (self : CompoundWrite α) (h : self.isEmpty = true) :
    self.overlay = Overlay.empty := by
  funext q
  have hempty := ImmutableTree.eq_empty_of_isEmpty self.writeTree h
  exact treeOverlay_none _ q (hempty ▸ ImmutableTree.find_empty q)

theorem applyToNode_of_isEmpty (self : CompoundWrite α) (h : self.isEmpty = true) (node : Node α) :
    self.applyToNode node = node := by
  apply Node.ext_doc
  rw [doc_applyToNode, self.overlay_of_isEmpty h, Overlay.apply_empty]

theorem find_of_incomplete (self : CompoundWrite α) (path : List ChildKey)
    (h : self.completeNodeAtPath path = none) :
    self.writeTree.findRootMostValueAndPath path = none := by
  cases hf : self.writeTree.findRootMostValueAndPath path with
  | none => rfl
  | some found =>
    rw [completeNodeAtPath, completeNode_some _ path found.1 found.2 hf] at h
    cases h

/-- Below a path that is not known whole, the writes leave some child alone. -/
theorem exists_untouched (self : CompoundWrite α) (path : List ChildKey)
    (h : self.completeNodeAtPath path = none) : ∃ k, ∀ q, self.overlay (path ++ k :: q) = none := by
  have hsub := treeOverlay_subtreeAtPath self.writeTree path (self.find_of_incomplete path h)
  have hroot : treeOverlay (self.writeTree.subtreeAtPath path) [] = none := by
    rw [hsub, Overlay.sub, List.append_nil]
    exact treeOverlay_none _ path (self.find_of_incomplete path h)
  cases hnode : self.writeTree.subtreeAtPath path with
  | node value children =>
    rw [hnode] at hsub hroot
    cases value with
    | some value =>
      rw [treeOverlay_some _ [] [] value (ImmutableTree.find_value value children [])] at hroot
      cases hroot
    | none =>
      obtain ⟨k, hk⟩ := Infinite.exists_notMem_finset (children.map fun child => child.1.name).toFinset
      refine ⟨k, fun q => ?_⟩
      have habsent : ImmutableTree.get ⟨k⟩ children = none := by
        unfold ImmutableTree.get
        rw [Option.map_eq_none_iff, List.find?_eq_none]
        intro child hchild hname
        apply hk
        rw [List.mem_toFinset]
        exact List.mem_map.mpr ⟨child, hchild, congrArg TreeKey.name (of_decide_eq_true hname)⟩
      have hbelow : treeOverlay (.node none children) (k :: q) = none := by
        rw [treeOverlay_cons, ImmutableTree.childOrEmpty, ImmutableTree.children, habsent]
        exact treeOverlay_none _ q (ImmutableTree.find_empty q)
      rw [hsub] at hbelow
      exact hbelow

/-- So there the result depends on what the writes are laid over. -/
theorem exists_getChild_ne [Inhabited α] (self : CompoundWrite α) (path : List ChildKey)
    (h : self.completeNodeAtPath path = none) :
    ∃ node, (self.applyToNode node).getChild path ≠ (self.applyToNode .emptyNode).getChild path := by
  obtain ⟨k, hk⟩ := self.exists_untouched path h
  refine ⟨Node.emptyNode.updateChild (path ++ [k]) (.leafNode default), fun heq => ?_⟩
  have hleaf : ∀ node : Node α, ((self.applyToNode node).getChild path).doc [k] =
      node.doc (path ++ [k]) := by
    classical
    intro node
    rw [Node.doc_getChild, doc_applyToNode, Doc.sub, Overlay.apply_none _ _ _ (hk []), if_neg]
    rintro ⟨q, ⟨r, rfl⟩, a, ha, -⟩
    rw [List.append_assoc, List.singleton_append, hk r] at ha
    cases ha
  have hdoc := congrArg (fun node => Node.doc node [k]) heq
  simp only [hleaf, Node.doc_updateChild, Node.doc_emptyNode] at hdoc
  rw [Doc.write_below _ _ _ _ List.prefix_rfl, List.drop_length] at hdoc
  cases hdoc

end CompoundWrite

namespace WriteTree

/-- What the views are to show: the visible writes over the whole of the server's data.  They can differ
from the writes still pending. -/
def view (self : WriteTree α) (server : Node α) (path : List ChildKey) : Node α :=
  (self.visibleWrites.applyToNode server).getChild path

/-- `completeWriteDataAtPath:`, and `shadowingWriteAtPath:`. -/
def completeWriteDataAtPath (self : WriteTree α) (path : List ChildKey) : Option (Node α) :=
  self.visibleWrites.completeNodeAtPath path

/-- The records that count: visible or asked for, and not excluded. -/
def counts (writeIdsToExclude : Option (List ℤ)) (includeHiddenWrites : Bool)
    (record : WriteRecord α) : Bool :=
  (record.visible || includeHiddenWrites) &&
    !(writeIdsToExclude.any fun ids => decide (record.writeId ∈ ids))

/-- The filter of `calculateCompleteEventCacheAtPath`. -/
def eventCacheFilter (treePath : List ChildKey) (writeIdsToExclude : Option (List ℤ))
    (includeHiddenWrites : Bool) (record : WriteRecord α) : Bool :=
  counts writeIdsToExclude includeHiddenWrites record &&
    (record.path.isPrefixOf treePath || treePath.isPrefixOf record.path)

def calculateCompleteEventCacheAtPath (self : WriteTree α) (treePath : List ChildKey)
    (completeServerCache : Option (Node α)) (writeIdsToExclude : Option (List ℤ))
    (includeHiddenWrites : Bool) : Option (Node α) :=
  if writeIdsToExclude.isNone && !includeHiddenWrites then
    match self.visibleWrites.completeNodeAtPath treePath with
    | some shadowingNode => some shadowingNode
    | none =>
      let subMerge := self.visibleWrites.childCompoundWriteAtPath treePath
      if subMerge.isEmpty then completeServerCache
      else if completeServerCache.isNone && !subMerge.hasCompleteWriteAtPath [] then none
      else some (subMerge.applyToNode (completeServerCache.getD .emptyNode))
  else
    let merge := self.visibleWrites.childCompoundWriteAtPath treePath
    if !includeHiddenWrites && merge.isEmpty then completeServerCache
    else if !includeHiddenWrites && completeServerCache.isNone && !merge.hasCompleteWriteAtPath [] then
      none
    else
      let mergeAtPath := layerTreeFromWrites self.allWrites
        (eventCacheFilter treePath writeIdsToExclude includeHiddenWrites) treePath
      some (mergeAtPath.applyToNode (completeServerCache.getD .emptyNode))

/-- A leaf, and nil for `completeServerChildren`, have no children to enumerate. -/
def calculateCompleteEventChildrenAtPath (self : WriteTree α) (treePath : List ChildKey)
    (completeServerChildren : Option (Node α)) : Node α :=
  match self.visibleWrites.completeNodeAtPath treePath with
  | some topLevelSet =>
    topLevelSet.children.entries.foldl (fun completeChildren child =>
      completeChildren.updateImmediateChild child.1 child.2) .emptyNode
  | none =>
    let merge := self.visibleWrites.childCompoundWriteAtPath treePath
    let serverChildren := completeServerChildren.getD .emptyNode
    let completeChildren := serverChildren.children.entries.foldl (fun completeChildren child =>
      let childMerge := merge.childCompoundWriteAtPath [child.1]
      completeChildren.updateImmediateChild child.1 (childMerge.applyToNode child.2)) .emptyNode
    merge.completeChildren.foldl (fun completeChildren child =>
      completeChildren.updateImmediateChild child.1 child.2) completeChildren

def calculateEventCacheAfterServerOverwriteAtPath (self : WriteTree α) (treePath childPath : List ChildKey)
    (existingEventSnap existingServerSnap : Option (Node α)) : Except NSException (Option (Node α)) :=
  if existingEventSnap.isNone && existingServerSnap.isNone then
    .error ⟨"NSInternalInconsistencyException",
      "Either existingEventSnap or existingServerSanp must exist."⟩
  else
    let path := treePath ++ childPath
    if self.visibleWrites.hasCompleteWriteAtPath path then .ok none
    else
      let childMerge := self.visibleWrites.childCompoundWriteAtPath path
      -- a message to nil answers nil
      let serverChild := existingServerSnap.map fun snap => snap.getChild childPath
      if childMerge.isEmpty then .ok serverChild
      else .ok (serverChild.map childMerge.applyToNode)

/-- `FCacheNode`. -/
structure CacheNode (α : Type) where
  node : Node α
  isFullyInitialized : Bool
  isFiltered : Bool

def CacheNode.isCompleteForChild (self : CacheNode α) (childKey : ChildKey) : Bool :=
  (self.isFullyInitialized && !self.isFiltered) || !(self.node.getImmediateChild childKey).isEmpty

def calculateCompleteChildAtPath (self : WriteTree α) (treePath : List ChildKey) (childKey : ChildKey)
    (existingServerCache : CacheNode α) : Option (Node α) :=
  let path := treePath ++ [childKey]
  match self.visibleWrites.completeNodeAtPath path with
  | some shadowingNode => some shadowingNode
  | none =>
    if existingServerCache.isCompleteForChild childKey then
      let childMerge := self.visibleWrites.childCompoundWriteAtPath path
      some (childMerge.applyToNode (existingServerCache.node.getImmediateChild childKey))
    else none

/-! ## With and without the server's data -/

theorem applyToNode_childCompoundWriteAtPath (self : WriteTree α) (server : Node α) (path : List ChildKey) :
    (self.visibleWrites.childCompoundWriteAtPath path).applyToNode (server.getChild path) =
      self.view server path := self.visibleWrites.applyToNode_getChild server path

theorem view_of_isEmpty (self : WriteTree α) (server : Node α) (path : List ChildKey)
    (h : (self.visibleWrites.childCompoundWriteAtPath path).isEmpty = true) :
    self.view server path = server.getChild path := by
  rw [← applyToNode_childCompoundWriteAtPath, CompoundWrite.applyToNode_of_isEmpty _ h]

theorem calculateCompleteEventCacheAtPath_server (self : WriteTree α) (treePath : List ChildKey)
    (server : Node α) :
    self.calculateCompleteEventCacheAtPath treePath (some (server.getChild treePath)) none false =
      some (self.view server treePath) := by
  unfold calculateCompleteEventCacheAtPath
  simp only [Option.isNone_none, Bool.not_false, Bool.and_self, if_true]
  cases hshadow : self.visibleWrites.completeNodeAtPath treePath with
  | some shadowingNode =>
    exact congrArg some (self.visibleWrites.getChild_of_complete treePath shadowingNode hshadow server).symm
  | none =>
    simp only [Option.isNone_some, Bool.false_and, Bool.false_eq_true, if_false, Option.getD_some]
    split
    · next hempty => rw [self.view_of_isEmpty server treePath hempty]
    · rw [applyToNode_childCompoundWriteAtPath]

/-- Without the server's data only what is known whole is answered. -/
theorem calculateCompleteEventCacheAtPath_nil (self : WriteTree α) (treePath : List ChildKey) :
    self.calculateCompleteEventCacheAtPath treePath none none false =
      self.completeWriteDataAtPath treePath := by
  unfold calculateCompleteEventCacheAtPath completeWriteDataAtPath
  simp only [Option.isNone_none, Bool.not_false, Bool.and_self, if_true]
  cases hshadow : self.visibleWrites.completeNodeAtPath treePath with
  | some shadowingNode => rfl
  | none =>
    have hincomplete : (self.visibleWrites.childCompoundWriteAtPath treePath).hasCompleteWriteAtPath []
        = false := by
      rw [CompoundWrite.hasCompleteWriteAtPath,
        CompoundWrite.completeNodeAtPath_childCompoundWriteAtPath, List.append_nil, hshadow,
        Option.isSome_none]
    simp [hincomplete]

theorem view_of_complete (self : WriteTree α) (path : List ChildKey) (node : Node α)
    (h : self.completeWriteDataAtPath path = some node) (server : Node α) :
    self.view server path = node := self.visibleWrites.getChild_of_complete path node h server

/-- The view of a path depends on the server exactly when the writes do not know the whole of it. -/
theorem view_const_iff [Inhabited α] (self : WriteTree α) (path : List ChildKey) (node : Node α) :
    self.completeWriteDataAtPath path = some node ↔ ∀ server, self.view server path = node := by
  constructor
  · exact self.view_of_complete path node
  · intro h
    cases hshadow : self.completeWriteDataAtPath path with
    | none =>
      obtain ⟨server, hne⟩ := self.visibleWrites.exists_getChild_ne path hshadow
      exact absurd ((h server).trans (h .emptyNode).symm) hne
    | some shadowingNode =>
      rw [← h .emptyNode, self.view_of_complete path shadowingNode hshadow]

/-- With the server's data for a path, what is answered is the view; without, an answer comes exactly
when the view is the same whatever the server has, and then it is the view. -/
theorem calculateCompleteEventCacheAtPath_iff [Inhabited α] (self : WriteTree α) (treePath : List ChildKey) :
    (∀ server, self.calculateCompleteEventCacheAtPath treePath (some (server.getChild treePath)) none
      false = some (self.view server treePath)) ∧
    ∀ node, self.calculateCompleteEventCacheAtPath treePath none none false = some node ↔
      ∀ server, self.view server treePath = node := by
  refine ⟨self.calculateCompleteEventCacheAtPath_server treePath, fun node => ?_⟩
  rw [calculateCompleteEventCacheAtPath_nil]
  exact self.view_const_iff treePath node

/-! ## Child by child -/

theorem view_append (self : WriteTree α) (server : Node α) (path q : List ChildKey) :
    self.view server (path ++ q) = (self.view server path).getChild q := Node.getChild_append _ path q

theorem getChild_singleton (node : Node α) (k : ChildKey) : node.getChild [k] = node.getImmediateChild k := by
  rw [Node.getChild_cons, Node.getChild_nil]

theorem mem_children_entries (node : Node α) (k : ChildKey) :
    (∃ child ∈ node.children.entries, child.1 = k) ↔ (node.getImmediateChild k).isEmpty = false := by
  have hget := node.get_children k
  constructor
  · rintro ⟨⟨k', c⟩, hmem, rfl⟩
    rw [Node.getImmediateChild, (SortedMap.get_eq_some_iff _ _ _).mpr hmem]
    exact node.isEmpty_of_mem _ hmem
  · intro h
    rw [h, if_neg Bool.false_ne_true] at hget
    exact ⟨_, (SortedMap.get_eq_some_iff _ _ _).mp hget, rfl⟩

theorem eq_getImmediateChild_of_mem (node : Node α) (k : ChildKey) :
    ∀ child ∈ node.children.entries, child.1 = k → child.2 = node.getImmediateChild k := by
  rintro ⟨k', c⟩ hmem rfl
  rw [Node.getImmediateChild, (SortedMap.get_eq_some_iff _ _ _).mpr hmem]
  rfl

/-- The children of a node, each changed and put into a new node. -/
theorem getImmediateChild_foldl_children (node : Node α) (laid : ChildKey → Node α → Node α) (k : ChildKey) :
    (node.children.entries.foldl (fun completeChildren child => completeChildren.updateImmediateChild child.1
        (laid child.1 child.2)) (Node.emptyNode : Node α)).getImmediateChild k =
      if (node.getImmediateChild k).isEmpty then .emptyNode else laid k (node.getImmediateChild k) := by
  have hfold := Node.getImmediateChild_foldl (node.children.entries.map fun child =>
    (child.1, laid child.1 child.2)) .emptyNode k (laid k (node.getImmediateChild k)) (by
      intro child' hmem hk
      obtain ⟨child, hchild, rfl⟩ := List.mem_map.mp hmem
      rw [← eq_getImmediateChild_of_mem node k child hchild hk, ← hk])
  have hmap : (∃ child ∈ node.children.entries.map fun child => (child.1, laid child.1 child.2), child.1 = k) ↔
      (node.getImmediateChild k).isEmpty = false := by
    rw [← mem_children_entries]
    simp [List.mem_map]
  rw [List.foldl_map] at hfold
  rw [hfold]
  by_cases hempty : (node.getImmediateChild k).isEmpty = true
  · rw [if_neg fun h => Bool.false_ne_true ((hmap.mp h).symm.trans hempty), if_pos hempty,
      Node.getImmediateChild_emptyNode]
  · rw [if_pos (hmap.mpr (by simpa using hempty)), if_neg hempty]

/-- The children that the writes know whole, put into a node. -/
theorem getImmediateChild_foldl_completeChildren (merge : CompoundWrite α)
    (hroot : merge.completeNodeAtPath [] = none) (node : Node α) (k : ChildKey) :
    (merge.completeChildren.foldl (fun completeChildren child =>
        completeChildren.updateImmediateChild child.1 child.2) node).getImmediateChild k =
      (merge.completeNodeAtPath [k]).getD (node.getImmediateChild k) := by
  rw [Node.getImmediateChild_foldl merge.completeChildren node k
    ((merge.completeNodeAtPath [k]).getD .emptyNode) (by
      rintro ⟨k', child⟩ hmem rfl
      rw [(merge.mem_completeChildren hroot k' child).mp hmem]
      rfl)]
  cases hk : merge.completeNodeAtPath [k] with
  | some child =>
    rw [if_pos ⟨_, (merge.mem_completeChildren hroot k child).mpr hk, rfl⟩, Option.getD_some, Option.getD_some]
  | none =>
    rw [if_neg, Option.getD_none]
    rintro ⟨⟨k', child⟩, hmem, rfl⟩
    rw [(merge.mem_completeChildren hroot k' child).mp hmem] at hk
    cases hk

/-- The children the views start from: those of the view, except where the server has nothing and
the writes are not the whole child. -/
theorem getImmediateChild_calculateCompleteEventChildrenAtPath (self : WriteTree α)
    (treePath : List ChildKey) (server : Node α) (k : ChildKey) :
    (self.calculateCompleteEventChildrenAtPath treePath
        (some (server.getChild treePath))).getImmediateChild k =
      if (server.getChild (treePath ++ [k])).isEmpty ∧
          self.completeWriteDataAtPath (treePath ++ [k]) = none then .emptyNode
      else self.view server (treePath ++ [k]) := by
  unfold calculateCompleteEventChildrenAtPath completeWriteDataAtPath
  cases hshadow : self.visibleWrites.completeNodeAtPath treePath with
  | some topLevelSet =>
    have hknown : self.visibleWrites.completeNodeAtPath (treePath ++ [k]) ≠ none := by
      intro hnone
      have hov := self.visibleWrites.overlay_append treePath [k] _
        (self.visibleWrites.overlay_of_complete treePath topLevelSet hshadow)
      rw [← CompoundWrite.completeNodeAtPath_doc, hnone] at hov
      cases hov
    rw [if_neg fun h => hknown h.2, view_append, view,
      self.visibleWrites.getChild_of_complete treePath topLevelSet hshadow, getChild_singleton]
    refine (getImmediateChild_foldl_children topLevelSet (fun _ child => child) k).trans ?_
    split
    · next hempty => exact ((Node.isEmpty_iff _).mp hempty).symm
    · rfl
  | none =>
    have hwhole := CompoundWrite.completeNodeAtPath_childCompoundWriteAtPath self.visibleWrites treePath
    generalize hm : self.visibleWrites.childCompoundWriteAtPath treePath = merge at hwhole
    have hlaid : (merge.childCompoundWriteAtPath [k]).applyToNode
        ((server.getChild treePath).getImmediateChild k) = self.view server (treePath ++ [k]) := by
      rw [← getChild_singleton, CompoundWrite.applyToNode_getChild, ← hm,
        CompoundWrite.applyToNode_getChild, view_append]
      rfl
    have hroot : merge.completeNodeAtPath [] = none := by rw [hwhole, List.append_nil, hshadow]
    have hserver := getImmediateChild_foldl_children (server.getChild treePath)
      (fun k child => (merge.childCompoundWriteAtPath [k]).applyToNode child) k
    rw [hlaid] at hserver
    simp only [Option.getD_some]
    rw [getImmediateChild_foldl_completeChildren merge hroot, hserver, ← hwhole [k], Node.getChild_append,
      getChild_singleton]
    cases hk : merge.completeNodeAtPath [k] with
    | some node =>
      rw [Option.getD_some, if_neg fun h => Option.some_ne_none _ h.2, view]
      exact (self.visibleWrites.getChild_of_complete _ node ((hwhole [k]).symm.trans hk) server).symm
    | none =>
      rw [Option.getD_none]
      by_cases hempty : ((server.getChild treePath).getImmediateChild k).isEmpty = true
      · rw [if_pos hempty, if_pos ⟨hempty, rfl⟩]
      · rw [if_neg hempty, if_neg fun h => hempty h.1]

/-! ## After news from the server -/

/-- When the server overwrites what is at a path, the views are given what is there now, or nil if
what it wrote cannot be seen. -/
theorem calculateEventCacheAfterServerOverwriteAtPath_iff [Inhabited α] (self : WriteTree α)
    (treePath childPath : List ChildKey) (existingEventSnap : Option (Node α)) (server : Node α) :
    ∃ snap, self.calculateEventCacheAfterServerOverwriteAtPath treePath childPath existingEventSnap
        (some (server.getChild treePath)) = .ok snap ∧
      (∀ node, snap = some node → node = self.view server (treePath ++ childPath)) ∧
      (snap = none ↔ ∀ server', self.view server' (treePath ++ childPath) =
        self.view server (treePath ++ childPath)) := by
  unfold calculateEventCacheAfterServerOverwriteAtPath
  simp only [Option.isNone_some, Bool.and_false, Bool.false_eq_true, if_false, Option.map_some,
    ← Node.getChild_append, applyToNode_childCompoundWriteAtPath]
  have hconst := self.view_const_iff (treePath ++ childPath) (self.view server (treePath ++ childPath))
  rw [CompoundWrite.hasCompleteWriteAtPath]
  cases hshadow : self.visibleWrites.completeNodeAtPath (treePath ++ childPath) with
  | some node =>
    rw [completeWriteDataAtPath, hshadow, self.view_of_complete _ node hshadow server] at hconst
    refine ⟨none, rfl, by simp, fun _ => ?_, fun _ => rfl⟩
    rw [self.view_of_complete _ node hshadow server]
    exact hconst.mp rfl
  | none =>
    rw [completeWriteDataAtPath, hshadow] at hconst
    have hno := fun h => Option.some_ne_none _ (hconst.mpr h).symm
    rw [Option.isSome_none, if_neg Bool.false_ne_true]
    split
    · next hempty =>
      refine ⟨_, rfl, fun node h => ?_, fun h => absurd h (Option.some_ne_none _), fun h => (hno h).elim⟩
      rw [self.view_of_isEmpty server _ hempty]
      exact (Option.some.inj h).symm
    · exact ⟨_, rfl, fun node h => (Option.some.inj h).symm, fun h => absurd h (Option.some_ne_none _),
        fun h => (hno h).elim⟩

theorem calculateCompleteChildAtPath_eq (self : WriteTree α) (treePath : List ChildKey) (childKey : ChildKey)
    (cache : CacheNode α) (server : Node α)
    (h : server.getChild (treePath ++ [childKey]) = cache.node.getImmediateChild childKey) :
    self.calculateCompleteChildAtPath treePath childKey cache =
      if cache.isCompleteForChild childKey then some (self.view server (treePath ++ [childKey]))
      else self.completeWriteDataAtPath (treePath ++ [childKey]) := by
  simp only [calculateCompleteChildAtPath, ← h, applyToNode_childCompoundWriteAtPath,
    completeWriteDataAtPath]
  cases hshadow : self.visibleWrites.completeNodeAtPath (treePath ++ [childKey]) with
  | none => rfl
  | some node =>
    rw [self.view_of_complete _ node hshadow server]
    exact (ite_self _).symm

/-- From a cache that may lack children: a child is answered exactly when the cache and the writes
settle it, and then it is the view's. -/
theorem calculateCompleteChildAtPath_iff [Inhabited α] (self : WriteTree α) (treePath : List ChildKey)
    (childKey : ChildKey) (cache : CacheNode α) (node : Node α) :
    self.calculateCompleteChildAtPath treePath childKey cache = some node ↔
      ∀ server : Node α, (cache.isCompleteForChild childKey = true →
        server.getChild (treePath ++ [childKey]) = cache.node.getImmediateChild childKey) →
          self.view server (treePath ++ [childKey]) = node := by
  let path := treePath ++ [childKey]
  let server₀ := Node.emptyNode.updateChild path (cache.node.getImmediateChild childKey)
  have hserver₀ : server₀.getChild path = cache.node.getImmediateChild childKey :=
    Node.getChild_updateChild_self .emptyNode path _
  by_cases hc : cache.isCompleteForChild childKey = true
  · have heq := fun server h => self.calculateCompleteChildAtPath_eq treePath childKey cache server h
    simp only [hc, if_true] at heq
    constructor
    · intro h server hserver
      rw [heq server (hserver hc)] at h
      exact Option.some.inj h
    · intro h
      rw [heq server₀ hserver₀, h server₀ fun _ => hserver₀]
  · rw [self.calculateCompleteChildAtPath_eq treePath childKey cache server₀ hserver₀, if_neg hc,
      self.view_const_iff path node]
    exact forall_congr' fun server => ⟨fun h _ => h, fun h => h fun hcomplete => absurd hcomplete hc⟩

/-! ## Leaving writes out, letting hidden ones in -/

/-- A record that is neither at, above nor below the path is layered as nothing. -/
theorem layerTreeFromWrites_and (records : List (WriteRecord α)) (filter : WriteRecord α → Bool)
    (treePath : List ChildKey) :
    layerTreeFromWrites records (fun record => filter record &&
        (record.path.isPrefixOf treePath || treePath.isPrefixOf record.path)) treePath =
      layerTreeFromWrites records filter treePath := by
  rw [layerTreeFromWrites_eq, layerTreeFromWrites_eq, List.foldl_filter, List.foldl_filter]
  congr 1
  funext compoundWrite record
  by_cases hf : filter record = true
  · rw [if_pos hf, hf, Bool.true_and]
    split
    · rfl
    · next hno =>
      rw [Bool.or_eq_true, not_or] at hno
      unfold layerRecord
      cases record.content with
      | overwrite node => exact (if_neg hno.2).trans (if_neg hno.1) |>.symm
      | merge changes => exact (if_neg hno.2).trans (if_neg hno.1) |>.symm
  · rw [if_neg hf, if_neg (by simp [hf])]

/-- Where nothing visible is pending, what is left of it does not show either. -/
theorem layer_of_isEmpty (self : WriteTree α) (h : self.Layered) (writeIdsToExclude : Option (List ℤ))
    (treePath : List ChildKey)
    (hempty : (self.visibleWrites.childCompoundWriteAtPath treePath).isEmpty = true) :
    (Overlay.layer (docWrites ((self.allWrites.filter (counts writeIdsToExclude false)).flatMap
      WriteRecord.writes))).sub treePath = Overlay.empty := by
  have hsub := CompoundWrite.overlay_of_isEmpty _ hempty
  rw [CompoundWrite.overlay_childCompoundWriteAtPath, h.overlay] at hsub
  funext q
  apply Overlay.layer_eq_none
  intro e he hle
  obtain ⟨write, hw, rfl⟩ := List.mem_map.mp he
  obtain ⟨r, hr, hw⟩ := List.mem_flatMap.mp hw
  obtain ⟨hr, hcounts⟩ := List.mem_filter.mp hr
  have hvis : r.visible = true := by
    rw [counts, Bool.or_false, Bool.and_eq_true] at hcounts
    exact hcounts.1
  have hmem := List.mem_map_of_mem (f := fun write : List ChildKey × Node α => (write.1, write.2.doc))
    ((mem_pendingWrites self.allWrites write).mpr ⟨r, hr, hvis, hw⟩)
  exact Overlay.layer_ne_none _ (treePath ++ q) ⟨_, hmem, hle⟩ (congrFun hsub q)

/-- Whatever is left out or let in: with the server's data for a path, the records that count are
laid over it in the order they were issued, as long as none of them is a merge strictly above. -/
theorem calculateCompleteEventCacheAtPath_of_run (ops : List (Op α)) (self : WriteTree α)
    (hops : Always step Allowed init ops) (hrun : run step init ops = some self) (treePath : List ChildKey)
    (writeIdsToExclude : Option (List ℤ)) (includeHiddenWrites : Bool) (server : Node α)
    (hmerge : NoMergeAbove (self.allWrites.filter (counts writeIdsToExclude includeHiddenWrites))
      treePath)
    (hopen : ∀ write ∈ self.allWrites.flatMap WriteRecord.writes, Overlay.Open server.doc write.1) :
    self.calculateCompleteEventCacheAtPath treePath (some (server.getChild treePath))
        writeIdsToExclude includeHiddenWrites =
      some ((((self.allWrites.filter (counts writeIdsToExclude includeHiddenWrites)).flatMap
        WriteRecord.writes).foldl (fun node write => node.updateChild write.1 write.2)
          server).getChild treePath) := by
  have h := layered_of_run ops self hops hrun
  generalize hkept : self.allWrites.filter (counts writeIdsToExclude includeHiddenWrites) = kept
    at hmerge
  have hkeptopen : ∀ write ∈ kept.flatMap WriteRecord.writes, Overlay.Open server.doc write.1 := by
    intro write hw
    obtain ⟨r, hr, hw⟩ := List.mem_flatMap.mp hw
    rw [← hkept] at hr
    exact hopen write (List.mem_flatMap.mpr ⟨r, List.mem_of_mem_filter hr, hw⟩)
  by_cases hdefault : writeIdsToExclude = none ∧ includeHiddenWrites = false
  · obtain ⟨rfl, rfl⟩ := hdefault
    have hpending : kept.flatMap WriteRecord.writes = pendingWrites self.allWrites := by
      rw [← hkept, pendingWrites]
      congr 2
      funext record
      simp [counts]
    have hview := applyToNode_eq_foldl self.visibleWrites _ [] h.overlay server (hpending ▸ hkeptopen)
    rw [Node.getChild_nil, Node.getChild_nil] at hview
    rw [calculateCompleteEventCacheAtPath_server, view, hpending, hview]
  · have hlayer := overlay_layerTree self.allWrites (counts writeIdsToExclude includeHiddenWrites)
      treePath (hkept.symm ▸ hmerge)
    rw [hkept] at hlayer
    have hlaid := applyToNode_eq_foldl _ _ treePath hlayer server hkeptopen
    have hbranch : (writeIdsToExclude.isNone && !includeHiddenWrites) = false := by
      rw [← Bool.not_eq_true, Bool.and_eq_true, Option.isNone_iff_eq_none, Bool.not_eq_true']
      exact hdefault
    unfold calculateCompleteEventCacheAtPath
    simp only [hbranch, Bool.false_eq_true, if_false, Option.isNone_some, Bool.and_false,
      Bool.false_and, Option.getD_some]
    split
    · next hempty =>
      rw [Bool.and_eq_true, Bool.not_eq_true'] at hempty
      obtain ⟨rfl, hempty⟩ := hempty
      have hnone := self.layer_of_isEmpty h writeIdsToExclude treePath hempty
      rw [hkept] at hnone
      rw [← applyToNode_eq_foldl .emptyWrite _ treePath
        (CompoundWrite.overlay_emptyWrite.trans hnone.symm) server hkeptopen]
      exact congrArg some (CompoundWrite.applyToNode_of_isEmpty _ rfl _).symm
    · show some ((layerTreeFromWrites self.allWrites (fun record =>
        counts writeIdsToExclude includeHiddenWrites record &&
          (record.path.isPrefixOf treePath || treePath.isPrefixOf record.path)) treePath).applyToNode
            (server.getChild treePath)) = _
      rw [layerTreeFromWrites_and, hlaid]

/-- Without the second of two pending writes. -/
theorem calculateCompleteEventCacheAtPath_of_run_two :
    ∃ self : WriteTree ℕ, run step init [.addOverwrite [.cart] (.leafNode 1) 0 true,
        .addOverwrite [.cart] (.leafNode 2) 1 true] = some self ∧
      self.calculateCompleteEventCacheAtPath [.cart] (some .emptyNode) (some [1]) false =
        some (.leafNode 1) := by
  refine ⟨_, rfl, (calculateCompleteEventCacheAtPath_of_run [.addOverwrite [.cart] (.leafNode 1) 0 true,
    .addOverwrite [.cart] (.leafNode (2 : ℕ)) 1 true] _
    (always_cons _ _ _ _ _ _ trivial rfl (always_cons _ _ _ _ _ _ trivial rfl (always_nil _ _ _))) rfl
    [.cart] (some [1]) false .emptyNode ?_ ?_).trans ?_⟩
  · intro r hr merge hc
    rcases List.mem_cons.mp (List.mem_of_mem_filter hr) with rfl | hr
    · cases hc
    · obtain rfl := List.mem_singleton.mp hr
      cases hc
  · intro write _ q _ _
    rw [Node.doc_emptyNode]
    rfl
  · exact congrArg some (Node.getChild_updateChild_self .emptyNode [.cart] (.leafNode 1))

end WriteTree

end FlowerGift
