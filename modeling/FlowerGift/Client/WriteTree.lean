import FlowerGift.Client.CompoundWrite
import FlowerGift.Client.TreeDictionary
import FlowerGift.Lib.Run

/-!
# The pending writes of the client

`FWriteTree`: the writes the server has not answered yet, in the order they were
issued (`allWrites`), and the visible ones laid over each other
(`visibleWrites`), which is what every view of the data is computed from.  A
write is taken out when its answer comes, whatever the answer is.

The two say the same as long as each write that is taken out can be told apart
from the others (`Removable`): `layered_of_run`.  Then a view shows the server's
data with the visible pending writes on top, in order, if no leaf of the server
lies strictly above one of them: `applyToNode_of_run`.

`removeWriteId` does not look for an earlier write above the one it takes out,
and rebuilding lets the hidden writes in; see `visibleWrites_kept` and
`hidden_shown`.
-/

namespace FlowerGift

open Realtime

variable {α : Type}

/-! ## Records -/

/-- What a record writes: one of `overwrite` and `merge` is nil. -/
inductive WriteContent (α : Type)
  | overwrite (node : Node α)
  | merge (changes : CompoundWrite α)

/-- `FWriteRecord`. -/
structure WriteRecord (α : Type) where
  path : List ChildKey
  content : WriteContent α
  writeId : ℤ
  visible : Bool

namespace WriteRecord

/-- The single writes of a record, where `enumerateWrites` meets them. -/
def writes (self : WriteRecord α) : List (List ChildKey × Node α) :=
  match self.content with
  | .overwrite node => [(self.path, node)]
  | .merge changes => changes.enumerateWrites.map fun write => (self.path ++ write.1, write.2)

/-- `record:containsPath:`. -/
def containsPath (self : WriteRecord α) (path : List ChildKey) : Bool :=
  match self.content with
  | .overwrite _ => self.path.isPrefixOf path
  | .merge changes => changes.enumerateWrites.any fun write => (self.path ++ write.1).isPrefixOf path

theorem containsPath_iff (self : WriteRecord α) (path : List ChildKey) :
    self.containsPath path = true ↔ ∃ write ∈ self.writes, write.1 <+: path := by
  unfold containsPath writes
  cases self.content with
  | overwrite node => simp [List.isPrefixOf_iff_prefix]
  | merge changes =>
    simp only [List.any_eq_true, List.isPrefixOf_iff_prefix, List.mem_map, exists_exists_and_eq_and]

theorem path_le_of_mem (self : WriteRecord α) : ∀ write ∈ self.writes, self.path <+: write.1 := by
  unfold writes
  cases self.content with
  | overwrite node => simp
  | merge changes =>
    intro write hw
    obtain ⟨w, -, rfl⟩ := List.mem_map.mp hw
    exact List.prefix_append _ _

end WriteRecord

/-! ## The tree -/

structure WriteTree (α : Type) where
  visibleWrites : CompoundWrite α
  allWrites : List (WriteRecord α)
  lastWriteId : ℤ

namespace WriteTree

def init : WriteTree α := ⟨.emptyWrite, [], -1⟩

def addOverwriteAtPath (self : WriteTree α) (path : List ChildKey) (newData : Node α) (writeId : ℤ)
    (visible : Bool) : Except NSException (WriteTree α) :=
  if writeId > self.lastWriteId then
    .ok
      { visibleWrites := if visible then self.visibleWrites.addWrite newData path
          else self.visibleWrites
        allWrites := self.allWrites ++ [⟨path, .overwrite newData, writeId, visible⟩]
        lastWriteId := writeId }
  else
    .error ⟨"NSInternalInconsistencyException", "Stacking an older write on top of a newer one"⟩

def addMergeAtPath (self : WriteTree α) (path : List ChildKey) (changedChildren : CompoundWrite α)
    (writeId : ℤ) : Except NSException (WriteTree α) :=
  if writeId > self.lastWriteId then
    .ok
      { visibleWrites := self.visibleWrites.addCompoundWrite changedChildren path
        allWrites := self.allWrites ++ [⟨path, .merge changedChildren, writeId, true⟩]
        lastWriteId := writeId }
  else .error ⟨"NSInternalInconsistencyException", "Stacking an older merge on top of newer one"⟩

/-- A record in the loop of `layerTreeFromWrites`. -/
def layerRecord (treeRoot : List ChildKey) (compoundWrite : CompoundWrite α) (record : WriteRecord α) :
    CompoundWrite α :=
  match record.content with
  | .overwrite overwrite =>
    if treeRoot.isPrefixOf record.path then
      compoundWrite.addWrite overwrite (record.path.drop treeRoot.length)
    else if record.path.isPrefixOf treeRoot then
      compoundWrite.addWrite (overwrite.getChild (treeRoot.drop record.path.length)) []
    else compoundWrite
  | .merge merge =>
    if treeRoot.isPrefixOf record.path then
      compoundWrite.addCompoundWrite merge (record.path.drop treeRoot.length)
    else if record.path.isPrefixOf treeRoot then
      let relativePath := treeRoot.drop record.path.length
      if relativePath.isEmpty then compoundWrite.addCompoundWrite merge []
      else
        match merge.completeNodeAtPath relativePath with
        | some child => compoundWrite.addWrite (child.getChild relativePath.tail) []
        | none => compoundWrite
    else compoundWrite

/-- `layerTreeFromWrites:filter:treeRoot:`. -/
def layerTreeFromWrites (writes : List (WriteRecord α)) (filter : WriteRecord α → Bool)
    (treeRoot : List ChildKey) : CompoundWrite α :=
  writes.foldl (fun compoundWrite record =>
    if filter record then layerRecord treeRoot compoundWrite record else compoundWrite) .emptyWrite

/-- `defaultFilter`: it lets every record pass, the hidden ones too. -/
def defaultFilter : WriteRecord α → Bool := fun _ => true

def resetTree (self : WriteTree α) : WriteTree α where
  visibleWrites := layerTreeFromWrites self.allWrites defaultFilter []
  allWrites := self.allWrites
  lastWriteId := (self.allWrites.getLast?.map WriteRecord.writeId).getD (-1)

/-- The loop of `removeWriteId` from the last record down, each with its index: whether the removed
write still counts as visible, and whether another write lies at or below its path. -/
def overlapLoop (writeToRemove : WriteRecord α) (index : ℕ) :
    List (WriteRecord α × ℕ) → Bool → Bool → Bool × Bool
  | [], removedWriteWasVisible, overlaps => (removedWriteWasVisible, overlaps)
  | (currentWrite, i) :: rest, removedWriteWasVisible, overlaps =>
    if removedWriteWasVisible then
      if currentWrite.visible then
        if i ≥ index ∧ currentWrite.containsPath writeToRemove.path = true then
          overlapLoop writeToRemove index rest false overlaps
        else if writeToRemove.path.isPrefixOf currentWrite.path then
          overlapLoop writeToRemove index rest true true
        else overlapLoop writeToRemove index rest true overlaps
      else overlapLoop writeToRemove index rest true overlaps
    else (false, overlaps)

/-- `removeWriteId:`, with whether the write may have been visible. -/
def removeWriteId (self : WriteTree α) (writeId : ℤ) : Except NSException (Bool × WriteTree α) :=
  match self.allWrites.findIdx? (fun record => record.writeId = writeId) with
  | none =>
    .error ⟨"NSInternalInconsistencyException",
      "[FWriteTree removeWriteId:] called with nonexistent writeId."⟩
  | some index =>
    match self.allWrites[index]? with
    | none => .error ⟨"NSRangeException", "index beyond bounds"⟩
    | some writeToRemove =>
      let self := { self with allWrites := self.allWrites.eraseIdx index }
      let (removedWriteWasVisible, overlaps) :=
        overlapLoop writeToRemove index self.allWrites.zipIdx.reverse writeToRemove.visible false
      if !removedWriteWasVisible then .ok (false, self)
      else if overlaps then .ok (true, self.resetTree)
      else
        match writeToRemove.content with
        | .overwrite _ =>
          .ok (true, { self with
            visibleWrites := self.visibleWrites.removeWriteAtPath writeToRemove.path })
        | .merge merge =>
          .ok (true, { self with
            visibleWrites := merge.enumerateWrites.foldl (fun visibleWrites write =>
              visibleWrites.removeWriteAtPath (writeToRemove.path ++ write.1)) self.visibleWrites })

def removeAllWrites (self : WriteTree α) : List (WriteRecord α) × WriteTree α :=
  (self.allWrites, { self with visibleWrites := .emptyWrite, allWrites := [] })

/-! ## The visible writes as one overlay -/

/-- The single writes of the visible records, in order. -/
def pendingWrites (records : List (WriteRecord α)) : List (List ChildKey × Node α) :=
  (records.filter WriteRecord.visible).flatMap WriteRecord.writes

def docWrites (writes : List (List ChildKey × Node α)) : List (List ChildKey × Doc ChildKey α) :=
  writes.map fun write => (write.1, write.2.doc)

theorem docWrites_append (ws₁ ws₂ : List (List ChildKey × Node α)) :
    docWrites (ws₁ ++ ws₂) = docWrites ws₁ ++ docWrites ws₂ := List.map_append

theorem pendingWrites_append (rs₁ rs₂ : List (WriteRecord α)) :
    pendingWrites (rs₁ ++ rs₂) = pendingWrites rs₁ ++ pendingWrites rs₂ := by
  simp only [pendingWrites, List.filter_append, List.flatMap_append]

theorem mem_pendingWrites (records : List (WriteRecord α)) (write : List ChildKey × Node α) :
    write ∈ pendingWrites records ↔ ∃ r ∈ records, r.visible = true ∧ write ∈ r.writes := by
  simp only [pendingWrites, List.mem_flatMap, List.mem_filter]
  constructor
  · rintro ⟨r, ⟨hr, hv⟩, hw⟩
    exact ⟨r, hr, hv, hw⟩
  · rintro ⟨r, hr, hv, hw⟩
    exact ⟨r, ⟨hr, hv⟩, hw⟩

theorem pendingWrites_of_visible (records : List (WriteRecord α))
    (h : ∀ r ∈ records, r.visible = true) :
    pendingWrites records = records.flatMap WriteRecord.writes := by
  rw [pendingWrites, List.filter_eq_self.mpr h]

/-- The record laid over a compound write, as adding it does. -/
theorem overlay_addRecord (w : CompoundWrite α) (record : WriteRecord α) :
    (match record.content with
      | .overwrite overwrite => w.addWrite overwrite record.path
      | .merge merge => w.addCompoundWrite merge record.path).overlay =
      (docWrites record.writes).foldl (fun w e => w.add e.1 e.2) w.overlay := by
  unfold WriteRecord.writes docWrites
  cases record.content with
  | overwrite node => exact w.overlay_addWrite node record.path
  | merge changes =>
    rw [List.map_map]
    exact w.overlay_addCompoundWrite changes record.path

theorem layerTreeFromWrites_eq (writes : List (WriteRecord α)) (filter : WriteRecord α → Bool)
    (treeRoot : List ChildKey) : layerTreeFromWrites writes filter treeRoot =
      (writes.filter filter).foldl (layerRecord treeRoot) .emptyWrite := by
  rw [List.foldl_filter]
  rfl

/-- No merge starts strictly above the path. -/
def NoMergeAbove (records : List (WriteRecord α)) (treeRoot : List ChildKey) : Prop :=
  ∀ r ∈ records, ∀ merge, r.content = .merge merge → r.path <+: treeRoot → r.path = treeRoot

/-- A record seen from the path at which it is layered. -/
theorem overlay_layerRecord (treeRoot : List ChildKey) (w : CompoundWrite α) (record : WriteRecord α)
    (above : Overlay ChildKey α) (hw : w.overlay = above.sub treeRoot)
    (h : ∀ merge, record.content = .merge merge → record.path <+: treeRoot → record.path = treeRoot) :
    (layerRecord treeRoot w record).overlay =
      ((docWrites record.writes).foldl (fun w e => w.add e.1 e.2) above).sub treeRoot := by
  unfold layerRecord
  by_cases hbelow : treeRoot <+: record.path
  · obtain ⟨rest, hrest⟩ := hbelow
    have hpre : treeRoot.isPrefixOf record.path = true := by
      rw [← hrest, List.isPrefixOf_iff_prefix]
      exact List.prefix_append treeRoot rest
    cases hc : record.content with
    | overwrite node =>
      simp only [hpre, if_true, WriteRecord.writes, hc, docWrites, List.map_cons, List.map_nil,
        List.foldl_cons, List.foldl_nil]
      rw [CompoundWrite.overlay_addWrite, hw, ← hrest, List.drop_left, Overlay.sub_add_below]
    | merge changes =>
      simp only [hpre, if_true, WriteRecord.writes, hc, docWrites, List.map_map]
      rw [CompoundWrite.overlay_addCompoundWrite, hw, ← hrest, List.drop_left,
        ← Overlay.sub_foldl_add_below, List.map_map]
      simp only [Function.comp_def, List.append_assoc]
  · have hpre : treeRoot.isPrefixOf record.path = false := by
      rw [← Bool.not_eq_true, List.isPrefixOf_iff_prefix]
      exact hbelow
    by_cases habove : record.path <+: treeRoot
    · have hpre' : record.path.isPrefixOf treeRoot = true := List.isPrefixOf_iff_prefix.mpr habove
      cases hc : record.content with
      | overwrite node =>
        obtain ⟨rest, hrest⟩ := habove
        simp only [hpre, hpre', Bool.false_eq_true, if_false, if_true, WriteRecord.writes, hc,
          docWrites, List.map_cons, List.map_nil, List.foldl_cons, List.foldl_nil]
        rw [CompoundWrite.overlay_addWrite, hw, ← hrest, List.drop_left, Overlay.sub_add_above,
          Node.doc_getChild]
      | merge changes =>
        have heq := h changes hc habove
        exact absurd (heq ▸ List.prefix_rfl) hbelow
    · have hpre' : record.path.isPrefixOf treeRoot = false := by
        rw [← Bool.not_eq_true, List.isPrefixOf_iff_prefix]
        exact habove
      have hapart : Apart record.path treeRoot := ⟨habove, hbelow⟩
      rw [Overlay.sub_foldl_add_apart _ _ treeRoot fun e he => ?_, ← hw]
      · cases record.content with
        | overwrite node => simp only [hpre, hpre', Bool.false_eq_true, if_false]
        | merge changes => simp only [hpre, hpre', Bool.false_eq_true, if_false]
      · obtain ⟨write, hmem, rfl⟩ := List.mem_map.mp he
        exact (hapart.symm.extend _ _ _ (record.path_le_of_mem write hmem)).symm

/-- Layered at a path, the records that pass the filter lie over each other in order, as seen from
there. -/
theorem overlay_layerTree (records : List (WriteRecord α)) (filter : WriteRecord α → Bool)
    (treeRoot : List ChildKey) (h : NoMergeAbove (records.filter filter) treeRoot) :
    (layerTreeFromWrites records filter treeRoot).overlay =
      (Overlay.layer (docWrites ((records.filter filter).flatMap WriteRecord.writes))).sub treeRoot := by
  have hrun : ∀ (kept : List (WriteRecord α)) (w : CompoundWrite α) (above : Overlay ChildKey α),
      NoMergeAbove kept treeRoot → w.overlay = above.sub treeRoot →
        (kept.foldl (layerRecord treeRoot) w).overlay =
          ((docWrites (kept.flatMap WriteRecord.writes)).foldl (fun w e => w.add e.1 e.2) above).sub
            treeRoot := by
    intro kept
    induction kept with
    | nil => exact fun w above _ hw => hw
    | cons record kept ih =>
      intro w above hkept hw
      rw [List.foldl_cons, List.flatMap_cons, docWrites_append, List.foldl_append]
      exact ih _ _ (fun r hr => hkept r (List.mem_cons_of_mem _ hr))
        (overlay_layerRecord treeRoot w record above hw (hkept record List.mem_cons_self))
  rw [layerTreeFromWrites_eq]
  exact hrun _ _ Overlay.empty h CompoundWrite.overlay_emptyWrite

theorem noMergeAbove_nil (records : List (WriteRecord α)) : NoMergeAbove records [] :=
  fun _ _ _ _ hle => List.prefix_nil.mp hle

/-! ## Taking a write out -/

/-- The loop looks for a later write that covers the removed one, and for any other at or below it. -/
theorem overlapLoop_spec (writeToRemove : WriteRecord α) (index : ℕ) (l : List (WriteRecord α × ℕ))
    (v o : Bool) :
    (overlapLoop writeToRemove index l v o).1 = (v && !(l.any fun c => c.1.visible &&
        (decide (c.2 ≥ index) && c.1.containsPath writeToRemove.path))) ∧
      ((overlapLoop writeToRemove index l v o).1 = true →
        (overlapLoop writeToRemove index l v o).2 =
          (o || l.any fun c => c.1.visible && writeToRemove.path.isPrefixOf c.1.path)) := by
  induction l generalizing v o with
  | nil => simp [overlapLoop]
  | cons c l ih =>
    obtain ⟨currentWrite, i⟩ := c
    cases v with
    | false => simp [overlapLoop]
    | true =>
      rw [overlapLoop, if_pos rfl]
      cases hvis : currentWrite.visible with
      | false =>
        rw [if_neg Bool.false_ne_true]
        simpa [hvis] using ih true o
      | true =>
        rw [if_pos rfl]
        by_cases hcov : i ≥ index ∧ currentWrite.containsPath writeToRemove.path = true
        · rw [if_pos hcov]
          have h := (ih false o).1
          rw [Bool.false_and] at h
          simp [h, hvis, hcov]
        · rw [if_neg hcov]
          have hno : (decide (i ≥ index) && currentWrite.containsPath writeToRemove.path) = false := by
            rw [← Bool.not_eq_true, Bool.and_eq_true, decide_eq_true_eq]
            exact hcov
          cases hpre : writeToRemove.path.isPrefixOf currentWrite.path with
          | false => simpa [hvis, hno, hpre] using ih true o
          | true => simpa [hvis, hno, hpre] using ih true true

theorem any_zipIdx (l : List (WriteRecord α)) (n : ℕ) (p : WriteRecord α → Bool) :
    ((l.zipIdx n).any fun c => p c.1) = l.any p := by
  have h := List.any_map (l := l.zipIdx n) (f := Prod.fst) (p := p)
  rw [List.zipIdx_map_fst] at h
  exact h.symm

/-- Of the records before and after an index, only those after it have an index from there on. -/
theorem any_zipIdx_ge (es ls : List (WriteRecord α)) (p : WriteRecord α → Bool) :
    ((es ++ ls).zipIdx.any fun c => c.1.visible && (decide (c.2 ≥ es.length) && p c.1)) =
      ls.any fun r => r.visible && p r := by
  have hes : (es.zipIdx.any fun c => c.1.visible && (decide (c.2 ≥ es.length) && p c.1)) = false := by
    rw [List.any_eq_false]
    rintro ⟨r, i⟩ hri
    have hi : i < 0 + es.length := List.snd_lt_add_of_mem_zipIdx hri
    simp [show ¬ i ≥ es.length by omega]
  have hls : ((ls.zipIdx (0 + es.length)).any fun c =>
      c.1.visible && (decide (c.2 ≥ es.length) && p c.1)) =
        ((ls.zipIdx (0 + es.length)).any fun c => c.1.visible && p c.1) := by
    rw [Bool.eq_iff_iff, List.any_eq_true, List.any_eq_true]
    refine exists_congr fun c => and_congr_right fun hc => ?_
    have hi : 0 + es.length ≤ c.2 := List.le_snd_of_mem_zipIdx hc
    simp [show c.2 ≥ es.length by omega]
  rw [List.zipIdx_append, List.any_append, hes, hls, Bool.false_or]
  exact any_zipIdx ls _ fun r => r.visible && p r

/-- What `removeWriteId` does with the record `w` between the records `es` and `ls`. -/
theorem removeWriteId_eq (self : WriteTree α) (es ls : List (WriteRecord α)) (w : WriteRecord α)
    (hall : self.allWrites = es ++ w :: ls) (hid : ∀ e ∈ es, e.writeId ≠ w.writeId) :
    self.removeWriteId w.writeId =
      let self := { self with allWrites := es ++ ls }
      if !(w.visible && !(ls.any fun r => r.visible && r.containsPath w.path)) then .ok (false, self)
      else if (es ++ ls).any fun r => r.visible && w.path.isPrefixOf r.path then
        .ok (true, self.resetTree)
      else
        match w.content with
        | .overwrite _ =>
          .ok (true, { self with visibleWrites := self.visibleWrites.removeWriteAtPath w.path })
        | .merge merge =>
          .ok (true, { self with
            visibleWrites := merge.enumerateWrites.foldl (fun visibleWrites write =>
              visibleWrites.removeWriteAtPath (w.path ++ write.1)) self.visibleWrites }) := by
  have hidx : (es ++ w :: ls).findIdx? (fun record => record.writeId = w.writeId) = some es.length := by
    rw [List.findIdx?_append]
    have hes : es.findIdx? (fun record => record.writeId = w.writeId) = none := by
      rw [List.findIdx?_eq_none_iff]
      intro e he
      simpa using hid e he
    simp [hes, List.findIdx?_cons]
  have hget : (es ++ w :: ls)[es.length]? = some w := by simp
  have herase : (es ++ w :: ls).eraseIdx es.length = es ++ ls := by
    rw [List.eraseIdx_append_of_length_le (le_refl _), Nat.sub_self]
    rfl
  obtain ⟨hone, htwo⟩ := overlapLoop_spec w es.length (es ++ ls).zipIdx.reverse w.visible false
  rw [List.any_reverse, any_zipIdx_ge es ls fun r => r.containsPath w.path] at hone
  rw [List.any_reverse, any_zipIdx (es ++ ls) 0 fun r => r.visible && w.path.isPrefixOf r.path,
    Bool.false_or] at htwo
  unfold removeWriteId
  simp only [hall, hidx, hget, herase]
  rw [hone]
  cases hvis : (w.visible && !(ls.any fun r => r.visible && r.containsPath w.path)) with
  | false => rfl
  | true => rw [htwo (hone.trans hvis)]

/-- The visible writes are the visible records laid over each other, and the records are numbered in
the order they were issued. -/
structure Layered (t : WriteTree α) : Prop where
  overlay : t.visibleWrites.overlay = Overlay.layer (docWrites (pendingWrites t.allWrites))
  numbered : t.allWrites.Pairwise fun a b => a.writeId < b.writeId
  last : ∀ r ∈ t.allWrites, r.writeId ≤ t.lastWriteId

/-- A visible write can be taken out alone: nothing pending is hidden; an earlier record that touches
its path, above or below, starts at or below the path; and so does a later one that touches it below. -/
def Removable (self : WriteTree α) (writeId : ℤ) : Prop :=
  ∀ es w ls, self.allWrites = es ++ w :: ls → w.writeId = writeId → w.visible = true →
    (∀ r ∈ es ++ ls, r.visible = true) ∧
      (∀ r ∈ es, ∀ write ∈ r.writes, ¬ Apart w.path write.1 → w.path <+: r.path) ∧
        ∀ r ∈ ls, ∀ write ∈ r.writes, w.path <+: write.1 → w.path <+: r.path

theorem layered_init : (init : WriteTree α).Layered :=
  ⟨CompoundWrite.overlay_emptyWrite, List.Pairwise.nil, by simp [init]⟩

theorem layered_add (self : WriteTree α) (h : self.Layered) (record : WriteRecord α)
    (visibleWrites : CompoundWrite α) (hid : record.writeId > self.lastWriteId)
    (hov : visibleWrites.overlay =
      (docWrites (pendingWrites [record])).foldl (fun w e => w.add e.1 e.2) self.visibleWrites.overlay) :
    (WriteTree.mk visibleWrites (self.allWrites ++ [record]) record.writeId).Layered := by
  refine ⟨?_, ?_, ?_⟩
  · show visibleWrites.overlay = Overlay.layer (docWrites (pendingWrites (self.allWrites ++ [record])))
    rw [hov, h.overlay, pendingWrites_append, docWrites_append, Overlay.layer_append]
  · refine List.pairwise_append.mpr ⟨h.numbered, List.pairwise_singleton _ _, ?_⟩
    intro a ha b hb
    rw [List.mem_singleton.mp hb]
    exact lt_of_le_of_lt (h.last a ha) hid
  · intro r hr
    rcases List.mem_append.mp hr with hr | hr
    · exact le_of_lt (lt_of_le_of_lt (h.last r hr) hid)
    · rw [List.mem_singleton.mp hr]

theorem layered_addOverwriteAtPath (self t : WriteTree α) (h : self.Layered) (path : List ChildKey)
    (newData : Node α) (writeId : ℤ) (visible : Bool)
    (ht : self.addOverwriteAtPath path newData writeId visible = .ok t) : t.Layered := by
  unfold addOverwriteAtPath at ht
  split at ht
  · next hid =>
    cases ht
    refine self.layered_add h ⟨path, .overwrite newData, writeId, visible⟩ _ hid ?_
    cases visible with
    | true => exact self.visibleWrites.overlay_addWrite newData path
    | false => rfl
  · cases ht

theorem layered_addMergeAtPath (self t : WriteTree α) (h : self.Layered) (path : List ChildKey)
    (changedChildren : CompoundWrite α) (writeId : ℤ)
    (ht : self.addMergeAtPath path changedChildren writeId = .ok t) : t.Layered := by
  unfold addMergeAtPath at ht
  split at ht
  · next hid =>
    cases ht
    refine self.layered_add h ⟨path, .merge changedChildren, writeId, true⟩ _ hid ?_
    rw [pendingWrites_of_visible _ (by simp), List.flatMap_singleton, ← overlay_addRecord]
  · cases ht

theorem layered_resetTree (self : WriteTree α)
    (hnum : self.allWrites.Pairwise fun a b => a.writeId < b.writeId)
    (hvis : ∀ r ∈ self.allWrites, r.visible = true) : self.resetTree.Layered := by
  refine ⟨?_, hnum, ?_⟩
  · have h := overlay_layerTree self.allWrites defaultFilter [] (noMergeAbove_nil _)
    have hall : self.allWrites.filter defaultFilter = self.allWrites := List.filter_eq_self.mpr fun r _ => rfl
    rw [hall, ← pendingWrites_of_visible _ hvis] at h
    exact h
  · intro r hr
    have hr : r ∈ self.allWrites := hr
    obtain ⟨init, last, hsnoc⟩ : ∃ init last, self.allWrites = init ++ [last] := by
      rcases List.eq_nil_or_concat self.allWrites with hnil | ⟨init, last, hsnoc⟩
      · rw [hnil] at hr
        cases hr
      · exact ⟨init, last, by rw [hsnoc, List.concat_eq_append]⟩
    show r.writeId ≤ (self.allWrites.getLast?.map WriteRecord.writeId).getD (-1)
    rw [hsnoc] at hnum hr ⊢
    rw [List.getLast?_concat, Option.map_some, Option.getD_some]
    rcases List.mem_append.mp hr with hr | hr
    · exact le_of_lt ((List.pairwise_append.mp hnum).2.2 r hr last List.mem_cons_self)
    · rw [List.mem_singleton.mp hr]

/-- A number that is pending splits the records at the one that has it. -/
theorem split_of_removeWriteId (self t : WriteTree α) (writeId : ℤ) (b : Bool)
    (ht : self.removeWriteId writeId = .ok (b, t)) :
    ∃ es w ls, self.allWrites = es ++ w :: ls ∧ w.writeId = writeId ∧
      ∀ e ∈ es, e.writeId ≠ w.writeId := by
  cases hidx : self.allWrites.findIdx? (fun record => record.writeId = writeId) with
  | none =>
    unfold removeWriteId at ht
    rw [hidx] at ht
    cases ht
  | some index =>
    obtain ⟨hlt, hid, hbefore⟩ := List.findIdx?_eq_some_iff_getElem.mp hidx
    have hid : self.allWrites[index].writeId = writeId := by simpa using hid
    refine ⟨self.allWrites.take index, self.allWrites[index], self.allWrites.drop (index + 1), ?_, hid, ?_⟩
    · rw [← List.drop_eq_getElem_cons hlt, List.take_append_drop]
    · intro e he
      obtain ⟨i, hi, rfl⟩ := List.mem_take_iff_getElem.mp he
      have hne := hbefore i (by omega)
      rw [hid]
      simpa using hne

section Middle

variable (es ls : List (WriteRecord α)) (w : WriteRecord α)
  (hes : ∀ r ∈ es, ∀ write ∈ r.writes, ¬ Apart w.path write.1 → w.path <+: r.path)

include hes

/-- A write that a later one covers leaves no trace. -/
theorem layer_middle_covered (hcov : ∃ r ∈ ls, r.visible = true ∧ r.containsPath w.path = true) :
    Overlay.layer (docWrites (pendingWrites es) ++ docWrites w.writes ++ docWrites (pendingWrites ls)) =
      Overlay.layer (docWrites (pendingWrites (es ++ ls))) := by
  rw [pendingWrites_append, docWrites_append]
  apply Overlay.layer_covered _ _ _ w.path
  · intro e he hle
    obtain ⟨write, hw, rfl⟩ := List.mem_map.mp he
    obtain ⟨r, hr, -, hw⟩ := (mem_pendingWrites es write).mp hw
    have hpath := hes r hr write hw fun hapart => hapart.2 hle
    exact hle.eq_of_length_le (hpath.trans (r.path_le_of_mem write hw)).length_le
  · intro e he
    obtain ⟨write, hw, rfl⟩ := List.mem_map.mp he
    exact w.path_le_of_mem write hw
  · obtain ⟨r, hr, hvis, hc⟩ := hcov
    obtain ⟨write, hw, hle⟩ := (r.containsPath_iff w.path).mp hc
    exact ⟨_, List.mem_map_of_mem ((mem_pendingWrites ls write).mpr ⟨r, hr, hvis, hw⟩), hle⟩

/-- A write that no other one touches can be taken away by its paths. -/
theorem remove_middle (hls : ∀ r ∈ ls, ∀ write ∈ r.writes, w.path <+: write.1 → w.path <+: r.path)
    (hcov : ¬ ∃ r ∈ ls, r.visible = true ∧ r.containsPath w.path = true)
    (hother : ¬ ∃ r ∈ es ++ ls, r.visible = true ∧ w.path <+: r.path) :
    (w.writes.map Prod.fst).foldl Overlay.remove
      (Overlay.layer (docWrites (pendingWrites es) ++ docWrites w.writes ++ docWrites (pendingWrites ls))) =
        Overlay.layer (docWrites (pendingWrites (es ++ ls))) := by
  have hpaths : w.writes.map Prod.fst = (docWrites w.writes).map Prod.fst := by
    rw [docWrites, List.map_map]
    rfl
  rw [hpaths, pendingWrites_append, docWrites_append]
  apply Overlay.remove_layer _ _ _ w.path
  · intro e he
    obtain ⟨write, hw, rfl⟩ := List.mem_map.mp he
    obtain ⟨r, hr, hvis, hw⟩ := (mem_pendingWrites es write).mp hw
    by_contra hno
    exact hother ⟨r, List.mem_append_left ls hr, hvis, hes r hr write hw hno⟩
  · intro e he
    obtain ⟨write, hw, rfl⟩ := List.mem_map.mp he
    exact w.path_le_of_mem write hw
  · intro e he
    obtain ⟨write, hw, rfl⟩ := List.mem_map.mp he
    obtain ⟨r, hr, hvis, hw⟩ := (mem_pendingWrites ls write).mp hw
    refine ⟨fun hle => ?_, fun hle => ?_⟩
    · exact hother ⟨r, List.mem_append_right es hr, hvis, hls r hr write hw hle⟩
    · exact hcov ⟨r, hr, hvis, (r.containsPath_iff w.path).mpr ⟨write, hw, hle⟩⟩

end Middle

theorem overlay_removeWrites (w : CompoundWrite α) (writes : List (List ChildKey × Node α)) (path : List ChildKey) :
    (writes.foldl (fun visibleWrites write => visibleWrites.removeWriteAtPath (path ++ write.1)) w).overlay =
      ((writes.map fun write => (path ++ write.1, write.2)).map Prod.fst).foldl Overlay.remove w.overlay := by
  induction writes generalizing w with
  | nil => rfl
  | cons write writes ih =>
    rw [List.foldl_cons, ih, CompoundWrite.overlay_removeWriteAtPath]
    rfl

theorem any_covers_iff (rs : List (WriteRecord α)) (path : List ChildKey) :
    (rs.any fun r => r.visible && r.containsPath path) = true ↔
      ∃ r ∈ rs, r.visible = true ∧ r.containsPath path = true := by
  simp only [List.any_eq_true, Bool.and_eq_true]

theorem any_overlaps_iff (rs : List (WriteRecord α)) (path : List ChildKey) :
    (rs.any fun r => r.visible && path.isPrefixOf r.path) = true ↔
      ∃ r ∈ rs, r.visible = true ∧ path <+: r.path := by
  simp only [List.any_eq_true, Bool.and_eq_true, List.isPrefixOf_iff_prefix]

/-- Taking a removable write out keeps the two in step. -/
theorem layered_removeWriteId (self t : WriteTree α) (h : self.Layered) (writeId : ℤ) (b : Bool)
    (hrem : self.Removable writeId) (ht : self.removeWriteId writeId = .ok (b, t)) : t.Layered := by
  obtain ⟨es, w, ls, hall, rfl, hid⟩ := self.split_of_removeWriteId t writeId b ht
  have hrem := hrem es w ls hall rfl
  have hnum : (es ++ ls).Pairwise fun a b => a.writeId < b.writeId := by
    have hnum := h.numbered
    rw [hall] at hnum
    exact hnum.sublist ((List.sublist_cons_self w ls).append_left es)
  have hlast : ∀ r ∈ es ++ ls, r.writeId ≤ self.lastWriteId := by
    intro r hr
    apply h.last
    rw [hall]
    exact ((List.sublist_cons_self w ls).append_left es).subset hr
  have hov := h.overlay
  rw [hall, pendingWrites_append, show w :: ls = [w] ++ ls from rfl, pendingWrites_append,
    docWrites_append, docWrites_append, ← List.append_assoc] at hov
  rw [self.removeWriteId_eq es ls w hall hid] at ht
  cases hvis : w.visible with
  | false =>
    -- a hidden write was never laid over anything
    rw [hvis, Bool.false_and] at ht
    obtain ⟨-, rfl⟩ := Prod.mk.inj (Except.ok.inj ht)
    refine ⟨hov.trans ?_, hnum, hlast⟩
    have hnone : pendingWrites [w] = [] := by simp [pendingWrites, hvis]
    rw [hnone, pendingWrites_append, docWrites_append]
    simp [docWrites]
  | true =>
    obtain ⟨hall', hes, hls⟩ := hrem hvis
    have hone : pendingWrites [w] = w.writes := by
      rw [pendingWrites_of_visible _ (by simpa using hvis), List.flatMap_singleton]
    rw [hone] at hov
    rw [hvis, Bool.true_and, Bool.not_not] at ht
    by_cases hcov : ∃ r ∈ ls, r.visible = true ∧ r.containsPath w.path = true
    · simp only [(any_covers_iff ls w.path).mpr hcov, if_true] at ht
      obtain ⟨-, rfl⟩ := Prod.mk.inj (Except.ok.inj ht)
      exact ⟨hov.trans (layer_middle_covered es ls w hes hcov), hnum, hlast⟩
    · have hcov' := Bool.eq_false_iff.mpr fun h => hcov ((any_covers_iff ls w.path).mp h)
      simp only [hcov', Bool.false_eq_true, if_false] at ht
      by_cases hother : ∃ r ∈ es ++ ls, r.visible = true ∧ w.path <+: r.path
      · simp only [(any_overlaps_iff (es ++ ls) w.path).mpr hother, if_true] at ht
        obtain ⟨-, rfl⟩ := Prod.mk.inj (Except.ok.inj ht)
        exact layered_resetTree _ hnum hall'
      · have hother' := Bool.eq_false_iff.mpr fun h => hother ((any_overlaps_iff (es ++ ls) w.path).mp h)
        simp only [hother', Bool.false_eq_true, if_false] at ht
        have hgone := remove_middle es ls w hes hls hcov hother
        rw [← hov] at hgone
        cases hc : w.content with
        | overwrite node =>
          simp only [hc] at ht
          obtain ⟨-, rfl⟩ := Prod.mk.inj (Except.ok.inj ht)
          refine ⟨?_, hnum, hlast⟩
          rw [WriteRecord.writes, hc] at hgone
          exact (CompoundWrite.overlay_removeWriteAtPath _ _).trans hgone
        | merge changes =>
          simp only [hc] at ht
          obtain ⟨-, rfl⟩ := Prod.mk.inj (Except.ok.inj ht)
          refine ⟨?_, hnum, hlast⟩
          rw [WriteRecord.writes, hc] at hgone
          exact (overlay_removeWrites self.visibleWrites changes.enumerateWrites w.path).trans hgone

theorem layered_removeAllWrites (self : WriteTree α) : self.removeAllWrites.2.Layered :=
  ⟨CompoundWrite.overlay_emptyWrite, List.Pairwise.nil, by simp [removeAllWrites]⟩

/-! ## Runs -/

/-- What the client does with its pending writes. -/
inductive Op (α : Type)
  | addOverwrite (path : List ChildKey) (newData : Node α) (writeId : ℤ) (visible : Bool)
  | addMerge (path : List ChildKey) (changedChildren : CompoundWrite α) (writeId : ℤ)
  | remove (writeId : ℤ)
  | removeAll

/-- One operation; `none` where an assertion fails. -/
def step (self : WriteTree α) : Op α → Option (WriteTree α)
  | .addOverwrite path newData writeId visible =>
    (self.addOverwriteAtPath path newData writeId visible).toOption
  | .addMerge path changedChildren writeId =>
    (self.addMergeAtPath path changedChildren writeId).toOption
  | .remove writeId => (self.removeWriteId writeId).toOption.map Prod.snd
  | .removeAll => some self.removeAllWrites.2

/-- A write is taken out only where it can be told apart. -/
def Allowed (self : WriteTree α) : Op α → Prop
  | .remove writeId => self.Removable writeId
  | _ => True

theorem layered_step (self t : WriteTree α) (op : Op α) (h : self.Layered) (hop : self.Allowed op)
    (ht : self.step op = some t) : t.Layered := by
  have hok : ∀ {β : Type} (e : Except NSException β) (b : β), e.toOption = some b → e = .ok b := by
    intro β e b he
    cases e with
    | error _ => cases he
    | ok b' => exact congrArg Except.ok (Option.some.inj he)
  cases op with
  | addOverwrite path newData writeId visible =>
    exact self.layered_addOverwriteAtPath t h path newData writeId visible (hok _ t ht)
  | addMerge path changedChildren writeId =>
    exact self.layered_addMergeAtPath t h path changedChildren writeId (hok _ t ht)
  | remove writeId =>
    obtain ⟨⟨b, t'⟩, hr, rfl⟩ := Option.map_eq_some_iff.mp ht
    exact self.layered_removeWriteId t' h writeId b hop (hok _ (b, t') hr)
  | removeAll =>
    obtain rfl := Option.some.inj ht
    exact self.layered_removeAllWrites

theorem layered_of_run (ops : List (Op α)) (t : WriteTree α)
    (hops : Always step Allowed init ops) (ht : run step init ops = some t) : t.Layered :=
  run_induction_of_always step Allowed init (fun _ t => t.Layered) layered_init
    (fun _ s op s' _ h hop hs => s.layered_step s' op h hop hs) ops t hops ht

theorem doc_foldl_updateChild (ws : List (List ChildKey × Node α)) (node : Node α) :
    (ws.foldl (fun node write => node.updateChild write.1 write.2) node).doc =
      (docWrites ws).foldl (fun d e => d.write e.1 e.2) node.doc := by
  induction ws generalizing node with
  | nil => rfl
  | cons write ws ih =>
    rw [List.foldl_cons, ih, Node.doc_updateChild]
    rfl

/-- Writes laid over the server's data, seen from a path: the same as writing them one after the other,
if the server has no leaf strictly above a written path. -/
theorem applyToNode_eq_foldl (merge : CompoundWrite α) (ws : List (List ChildKey × Node α))
    (treePath : List ChildKey) (hov : merge.overlay = (Overlay.layer (docWrites ws)).sub treePath)
    (server : Node α) (hopen : ∀ write ∈ ws, Overlay.Open server.doc write.1) :
    merge.applyToNode (server.getChild treePath) =
      (ws.foldl (fun node write => node.updateChild write.1 write.2) server).getChild treePath := by
  have hopen' : ∀ e ∈ docWrites ws, Overlay.Open server.doc e.1 := by
    intro e he
    obtain ⟨write, hw, rfl⟩ := List.mem_map.mp he
    exact hopen write hw
  apply Node.ext_doc
  rw [CompoundWrite.doc_applyToNode, hov, Node.doc_getChild, Overlay.apply_sub,
    Overlay.apply_layer _ _ hopen', Node.doc_getChild, doc_foldl_updateChild]

/-- In a run that takes out only writes that can be told apart, whatever the order, a view of the
server's data shows the visible writes still pending on top of it, in the order they were issued, if the
server has no leaf strictly above one of them. -/
theorem applyToNode_of_run (ops : List (Op α)) (t : WriteTree α)
    (hops : Always step Allowed init ops) (ht : run step init ops = some t) (server : Node α)
    (hopen : ∀ write ∈ pendingWrites t.allWrites, Overlay.Open server.doc write.1) :
    t.visibleWrites.applyToNode server =
      (pendingWrites t.allWrites).foldl (fun node write => node.updateChild write.1 write.2) server :=
  applyToNode_eq_foldl t.visibleWrites _ [] (layered_of_run ops t hops ht).overlay server hopen

/-- Two values written to the same place, the first one answered. -/
theorem applyToNode_of_run_two :
    ∃ t : WriteTree ℕ, run step init
        [.addOverwrite [] (.leafNode 1) 0 true, .addOverwrite [] (.leafNode 2) 1 true, .remove 0] = some t ∧
      t.visibleWrites.applyToNode .emptyNode = (pendingWrites t.allWrites).foldl
        (fun node write => node.updateChild write.1 write.2) .emptyNode := by
  refine ⟨_, rfl, applyToNode_of_run [.addOverwrite [] (.leafNode 1) 0 true,
    .addOverwrite [] (.leafNode 2) 1 true, .remove 0] _ ?_ rfl .emptyNode ?_⟩
  · refine always_cons _ _ _ _ _ _ trivial rfl (always_cons _ _ _ _ _ _ trivial rfl
      (always_cons _ _ _ _ _ _ ?_ rfl (always_nil _ _ _)))
    intro es w ls hall hid _
    rcases es with _ | ⟨e, es⟩
    · cases hall
      simp [WriteRecord.writes]
    · obtain ⟨he, hrest⟩ := List.cons.inj hall
      rcases es with _ | ⟨e', es⟩
      · cases hrest
        cases hid
      · exact absurd (List.cons.inj hrest).2.symm (List.append_ne_nil_of_right_ne_nil es (List.cons_ne_nil w ls))
  · intro write hw q hq hne
    obtain rfl : write = ([], .leafNode 2) := List.mem_singleton.mp hw
    exact absurd (List.prefix_nil.mp hq) hne

/-! ### What goes wrong otherwise -/

section Wrong

variable (ops : List (Op α)) (self : WriteTree α) (hops : Always step Allowed init ops)
  (hrun : run step init ops = some self) (es ls : List (WriteRecord α)) (w : WriteRecord α)
  (hall : self.allWrites = es ++ w :: ls)

include hops hrun hall

theorem writeId_ne_of_run : ∀ e ∈ es, e.writeId ≠ w.writeId := by
  have hnum := (layered_of_run ops self hops hrun).numbered
  rw [hall] at hnum
  exact fun e he => ((List.pairwise_append.mp hnum).2.2 e he w List.mem_cons_self).ne

/-- After such a run, an overwrite below an earlier visible one is taken out first: no other visible write
starts at or below its path, no later one covers it.  Its record goes, and every view still shows it. -/
theorem visibleWrites_kept (node : Node α) (hvis : w.visible = true) (hw : w.content = .overwrite node)
    (habove : ∃ e ∈ es, e.visible = true ∧ ∃ write ∈ e.writes, write.1 <+: w.path ∧ write.1 ≠ w.path)
    (hcov : ¬ ∃ r ∈ ls, r.visible = true ∧ r.containsPath w.path = true)
    (hother : ¬ ∃ r ∈ es ++ ls, r.visible = true ∧ w.path <+: r.path) :
    ∃ t, self.removeWriteId w.writeId = .ok (true, t) ∧ t.allWrites = es ++ ls ∧
      ∀ server, t.visibleWrites.applyToNode server = self.visibleWrites.applyToNode server := by
  have hcov' := Bool.eq_false_iff.mpr fun h => hcov ((any_covers_iff ls w.path).mp h)
  have hother' := Bool.eq_false_iff.mpr fun h => hother ((any_overlaps_iff (es ++ ls) w.path).mp h)
  refine ⟨{ self with
      allWrites := es ++ ls
      visibleWrites := self.visibleWrites.removeWriteAtPath w.path }, ?_, rfl, fun server => ?_⟩
  · rw [self.removeWriteId_eq es ls w hall (writeId_ne_of_run ops self hops hrun es ls w hall)]
    simp only [hvis, hcov', hother', hw]
    rfl
  · apply Node.ext_doc
    obtain ⟨e, he, hev, write, hwrite, hle, hne⟩ := habove
    have hmem : write ∈ pendingWrites self.allWrites := by
      rw [hall, pendingWrites_append]
      exact List.mem_append_left _ ((mem_pendingWrites es write).mpr ⟨e, he, hev, hwrite⟩)
    have hknown : self.visibleWrites.overlay write.1 ≠ none := by
      rw [(layered_of_run ops self hops hrun).overlay]
      exact Overlay.layer_ne_none _ write.1 ⟨_, List.mem_map_of_mem hmem, List.prefix_rfl⟩
    rw [CompoundWrite.doc_applyToNode, CompoundWrite.doc_applyToNode,
      CompoundWrite.overlay_removeWriteAtPath,
      Overlay.remove_covered _ w.path write.1 hle hne hknown]

/-- After such a run, taking out a visible write that no later one covers, while another visible one lies
at or below its path, lays the hidden writes over the data too: the views then show every record. -/
theorem hidden_shown (hvis : w.visible = true)
    (hcov : ¬ ∃ r ∈ ls, r.visible = true ∧ r.containsPath w.path = true)
    (hother : ∃ r ∈ es ++ ls, r.visible = true ∧ w.path <+: r.path) :
    ∃ t, self.removeWriteId w.writeId = .ok (true, t) ∧ t.allWrites = es ++ ls ∧
      ∀ server : Node α,
        (∀ write ∈ (es ++ ls).flatMap WriteRecord.writes, Overlay.Open server.doc write.1) →
        t.visibleWrites.applyToNode server = ((es ++ ls).flatMap WriteRecord.writes).foldl
          (fun node write => node.updateChild write.1 write.2) server := by
  have hcov' := Bool.eq_false_iff.mpr fun h => hcov ((any_covers_iff ls w.path).mp h)
  have hother' := (any_overlaps_iff (es ++ ls) w.path).mpr hother
  refine ⟨resetTree { self with allWrites := es ++ ls }, ?_, rfl, fun server hopen => ?_⟩
  · rw [self.removeWriteId_eq es ls w hall (writeId_ne_of_run ops self hops hrun es ls w hall)]
    simp only [hvis, hcov', hother']
    rfl
  · have hlayer := overlay_layerTree (es ++ ls) defaultFilter [] (noMergeAbove_nil _)
    have hpass : (es ++ ls).filter defaultFilter = es ++ ls := List.filter_eq_self.mpr fun r _ => rfl
    rw [hpass] at hlayer
    exact applyToNode_eq_foldl _ _ [] hlayer server hopen

end Wrong

/-- A value written over a whole database that is still pending, and answered first. -/
theorem visibleWrites_kept_below :
    ∃ self : WriteTree ℕ, run step init [.addOverwrite [] (.leafNode 1) 0 true,
        .addOverwrite [.cart] (.leafNode 2) 1 true] = some self ∧
      ∃ t, self.removeWriteId 1 = .ok (true, t) ∧ t.allWrites = self.allWrites.take 1 ∧
        ∀ server, t.visibleWrites.applyToNode server = self.visibleWrites.applyToNode server := by
  refine ⟨_, rfl, visibleWrites_kept [.addOverwrite [] (.leafNode 1) 0 true,
    .addOverwrite [.cart] (.leafNode 2) 1 true] _ ?_ rfl [⟨[], .overwrite (.leafNode 1), 0, true⟩] []
    ⟨[.cart], .overwrite (.leafNode 2), 1, true⟩ rfl _ rfl rfl ?_ (by simp) (by simp)⟩
  · exact always_cons _ _ _ _ _ _ trivial rfl (always_cons _ _ _ _ _ _ trivial rfl (always_nil _ _ _))
  · exact ⟨_, List.mem_singleton_self _, rfl, _, List.mem_singleton_self _, List.nil_prefix, by simp⟩

/-- A hidden value, one over the whole database, and one below that. -/
theorem hidden_shown_below :
    ∃ self : WriteTree ℕ, run step init [.addOverwrite [.cart] (.leafNode 1) 0 false,
        .addOverwrite [] (.leafNode 2) 1 true, .addOverwrite [.users] (.leafNode 3) 2 true] =
          some self ∧
      ∃ t, self.removeWriteId 1 = .ok (true, t) ∧ t.visibleWrites.applyToNode .emptyNode =
        (Node.emptyNode.updateChild [.cart] (.leafNode 1)).updateChild [.users] (.leafNode 3) := by
  refine ⟨_, rfl, ?_⟩
  obtain ⟨t, ht, -, hshown⟩ := hidden_shown
    [.addOverwrite [.cart] (.leafNode 1) 0 false, .addOverwrite [] (.leafNode 2) 1 true,
      .addOverwrite [.users] (.leafNode 3) 2 true] _
    (always_cons _ _ _ _ _ _ trivial rfl (always_cons _ _ _ _ _ _ trivial rfl
      (always_cons _ _ _ _ _ _ trivial rfl (always_nil _ _ _)))) rfl
    [⟨[.cart], .overwrite (.leafNode 1), 0, false⟩] [⟨[.users], .overwrite (.leafNode 3), 2, true⟩]
    ⟨[], .overwrite (.leafNode (2 : ℕ)), 1, true⟩ rfl rfl
    (by
      rintro ⟨r, hr, -, hc⟩
      obtain rfl := List.mem_singleton.mp hr
      cases hc)
    ⟨_, List.mem_append_right _ (List.mem_singleton_self _), rfl, List.nil_prefix⟩
  refine ⟨t, ht, hshown .emptyNode fun write hw q _ _ => ?_⟩
  rw [Node.doc_emptyNode]
  rfl

end WriteTree

end FlowerGift
