import FlowerGift.Key
import FlowerGift.Client.TreeDictionary

/-!
# Paths

`FPath`: the pieces of a path and how many of them are already taken off the
front.  No piece is empty or has a slash in it (the field `sound`), since every
path comes from cutting a string at its slashes.  What a path stands for is the
list of the pieces left, `components`; each method is an operation on that list:

    (p.child q).components = p.components ++ q.components     (components_child)
    p.contains q ↔ p.components is a prefix of q.components   (contains_iff)
    initWith p.wireFormat is p again                          (initWith_wireFormat)
-/

namespace FlowerGift

structure Path where
  pieces : List String
  pieceNum : ℕ
  sound : ∀ piece ∈ pieces, piece ≠ "" ∧ '/' ∉ piece.toList

namespace Path

/-! ## Cutting at the slashes -/

/-- `componentsSeparatedByString:@"/"`. -/
def componentsSeparatedBySlash (path : String) : List String :=
  (path.toList.splitOn '/').map String.ofList

/-- The loop of `initWith:` over the pieces. -/
def newPieces (path : String) : List String :=
  (componentsSeparatedBySlash path).filter fun piece => piece.length > 0

theorem not_mem_of_mem_splitOn (l w : List Char) (h : w ∈ l.splitOn '/') : '/' ∉ w := by
  induction l generalizing w with
  | nil =>
    obtain rfl : w = [] := by simpa using h
    simp
  | cons c l ih =>
    rw [List.splitOn_cons_eq_if_modifyHead] at h
    obtain ⟨v, vs, hv⟩ := List.exists_cons_of_ne_nil (List.splitOn_ne_nil '/' l)
    by_cases hc : c = '/'
    · rw [if_pos (by simpa using hc)] at h
      rcases List.mem_cons.mp h with rfl | h
      · simp
      · exact ih w h
    · rw [if_neg (by simpa using hc), hv, List.modifyHead_cons] at h
      rcases List.mem_cons.mp h with rfl | h
      · rw [List.mem_cons, not_or]
        exact ⟨Ne.symm hc, ih v (hv ▸ List.mem_cons_self)⟩
      · exact ih w (hv ▸ List.mem_cons_of_mem v h)

theorem newPieces_sound (path : String) : ∀ piece ∈ newPieces path, piece ≠ "" ∧ '/' ∉ piece.toList := by
  intro piece hp
  obtain ⟨hmem, hlen⟩ := List.mem_filter.mp hp
  obtain ⟨w, hw, rfl⟩ := List.mem_map.mp hmem
  refine ⟨fun hempty => ?_, ?_⟩
  · rw [hempty] at hlen
    simp at hlen
  · simpa using not_mem_of_mem_splitOn path.toList w hw

/-- A slash cuts a string in two. -/
theorem newPieces_append_slash (s t : String) :
    newPieces (s ++ "/" ++ t) = newPieces s ++ newPieces t := by
  have hcut : (s ++ "/" ++ t).toList = s.toList ++ '/' :: t.toList := by simp
  simp only [newPieces, componentsSeparatedBySlash, hcut, List.splitOn_append_cons_self,
    List.map_append, List.filter_append]

theorem newPieces_piece (piece : String) (h : piece ≠ "" ∧ '/' ∉ piece.toList) :
    newPieces piece = [piece] := by
  have hlen : piece.length > 0 := by
    rw [gt_iff_lt, Nat.pos_iff_ne_zero]
    intro h0
    exact h.1 (String.length_eq_zero_iff.mp h0)
  simp [newPieces, componentsSeparatedBySlash, List.splitOn_eq_singleton h.2, hlen]

theorem newPieces_empty : newPieces "" = [] := by decide

/-- Joining pieces with slashes and cutting again gives them back. -/
theorem newPieces_foldl (ps : List String) (s : String)
    (h : ∀ piece ∈ ps, piece ≠ "" ∧ '/' ∉ piece.toList) :
    newPieces (ps.foldl (fun s piece => s ++ "/" ++ piece) s) = newPieces s ++ ps := by
  induction ps generalizing s with
  | nil => simp
  | cons p ps ih =>
    obtain ⟨hp, hps⟩ := List.forall_mem_cons.mp h
    rw [List.foldl_cons, ih _ hps, newPieces_append_slash, newPieces_piece p hp, List.append_assoc]
    rfl

/-! ## The methods -/

def initWith (path : String) : Path := ⟨newPieces path, 0, newPieces_sound path⟩

/-- The pieces not taken off yet. -/
def rest (self : Path) : List String := self.pieces.drop self.pieceNum

theorem rest_sound (self : Path) : ∀ piece ∈ self.rest, piece ≠ "" ∧ '/' ∉ piece.toList :=
  fun piece h => self.sound piece (List.mem_of_mem_drop h)

/-- What a path stands for. -/
def components (self : Path) : List Key := self.rest.map Key.mk

def getFront (self : Path) : Option String :=
  if self.pieceNum ≥ self.pieces.length then none else self.pieces[self.pieceNum]?

def length (self : Path) : ℕ := self.pieces.length - self.pieceNum

def popFront (self : Path) : Path :=
  { self with
    pieceNum := if self.pieceNum < self.pieces.length then self.pieceNum + 1 else self.pieceNum }

def isEmpty (self : Path) : Bool := self.pieceNum ≥ self.pieces.length

def empty : Path := initWith ""

def toStringWithTrailingSlash (self : Path) (trailingSlash : Bool) : String :=
  let pathString := self.rest.foldl (fun s piece => s ++ "/" ++ piece) ""
  if pathString.length = 0 then "/"
  else if trailingSlash then pathString ++ "/" else pathString

def wireFormat (self : Path) : String :=
  match self.rest with
  | [] => "/"
  -- no slash before the first piece
  | piece :: pieces => pieces.foldl (fun s piece => s ++ "/" ++ piece) piece

def parent (self : Path) : Option Path :=
  if self.pieceNum ≥ self.pieces.length then none
  else some ⟨self.rest.dropLast, 0, fun piece h => self.rest_sound piece (List.mem_of_mem_dropLast h)⟩

def child (self childPathObj : Path) : Path :=
  ⟨self.rest ++ childPathObj.rest, 0, fun piece h =>
    (List.mem_append.mp h).elim (self.rest_sound piece) (childPathObj.rest_sound piece)⟩

/-- The loop of `contains:`; the lengths have been compared before. -/
def startsWith : List String → List String → Bool
  | [], _ => true
  | _ :: _, [] => false
  | thisSeg :: these, otherSeg :: others => if thisSeg ≠ otherSeg then false else startsWith these others

def contains (self other : Path) : Bool :=
  if self.length > other.length then false else startsWith self.rest other.rest

def isEqual (self other : Path) : Bool :=
  if self.length ≠ other.length then false else startsWith self.rest other.rest

theorem length_popFront (self : Path) (h : self.getFront ≠ none) :
    self.popFront.length < self.length := by
  unfold getFront at h
  have hlt : self.pieceNum < self.pieces.length := by
    by_contra hge
    exact h (if_pos (Nat.le_of_not_lt hge))
  simp only [length, popFront, if_pos hlt]
  omega

/-- `relativePathFrom:to:`. -/
def relativePathFrom (outer inner : Path) : Except NSException Path :=
  match _h : outer.getFront with
  | none => .ok inner
  | some outerFront =>
    if inner.getFront = some outerFront then relativePathFrom outer.popFront inner.popFront
    else
      .error ⟨"FirebaseDatabaseInternalError", "innerPath (" ++ inner.toStringWithTrailingSlash false ++
        ") is not within outerPath (" ++ outer.toStringWithTrailingSlash false ++ ")"⟩
termination_by outer.length
decreasing_by exact outer.length_popFront (by simp [_h])

/-! ## What they do to the components -/

theorem getFront_eq (self : Path) : self.getFront = self.rest.head? := by
  unfold getFront rest
  rw [List.head?_drop]
  split
  · next h => rw [List.getElem?_eq_none h]
  · rfl

theorem rest_popFront (self : Path) : self.popFront.rest = self.rest.tail := by
  unfold popFront rest
  rw [List.tail_drop]
  split
  · rfl
  · next h =>
    have hle : self.pieces.length ≤ self.pieceNum := Nat.le_of_not_lt h
    rw [List.drop_of_length_le hle, List.drop_of_length_le (Nat.le_succ_of_le hle)]

theorem length_eq (self : Path) : self.length = self.rest.length := (List.length_drop).symm

theorem rest_child (self childPathObj : Path) :
    (self.child childPathObj).rest = self.rest ++ childPathObj.rest := rfl

theorem startsWith_iff (these others : List String) :
    startsWith these others = true ↔ these <+: others := by
  induction these generalizing others with
  | nil => simp [startsWith]
  | cons a these ih =>
    cases others with
    | nil => simp [startsWith]
    | cons b others =>
      rw [startsWith, List.cons_prefix_cons]
      by_cases hab : a = b
      · simp [hab, ih]
      · simp [hab]

theorem contains_iff_rest (self other : Path) : self.contains other = true ↔ self.rest <+: other.rest := by
  unfold contains
  rw [length_eq, length_eq]
  split
  · next h =>
    refine ⟨fun h => (Bool.false_ne_true h).elim, fun hp => ?_⟩
    exact absurd hp.length_le (Nat.not_le_of_gt h)
  · exact startsWith_iff _ _

theorem isEqual_iff_rest (self other : Path) : self.isEqual other = true ↔ self.rest = other.rest := by
  unfold isEqual
  rw [length_eq, length_eq]
  split
  · next h =>
    exact ⟨fun h => (Bool.false_ne_true h).elim, fun heq => absurd (congrArg List.length heq) h⟩
  · next h =>
    rw [startsWith_iff]
    exact ⟨fun hp => hp.eq_of_length (not_not.mp h), fun heq => heq ▸ List.prefix_rfl⟩

theorem mk_injective : Function.Injective Key.mk := fun _ _ h => congrArg Key.name h

theorem components_child (self childPathObj : Path) :
    (self.child childPathObj).components = self.components ++ childPathObj.components :=
  List.map_append

theorem components_popFront (self : Path) : self.popFront.components = self.components.tail := by
  rw [components, rest_popFront, List.map_tail]
  rfl

theorem components_parent (self : Path) : self.parent.map components =
    if self.components = [] then none else some self.components.dropLast := by
  have hrest : self.components = [] ↔ self.pieceNum ≥ self.pieces.length := by
    rw [components, List.map_eq_nil_iff, rest, List.drop_eq_nil_iff]
  unfold parent
  by_cases h : self.pieceNum ≥ self.pieces.length
  · rw [if_pos h, if_pos (hrest.mpr h)]
    rfl
  · rw [if_neg h, if_neg (fun hnil => h (hrest.mp hnil))]
    exact congrArg some (List.map_dropLast)

theorem contains_iff (self other : Path) :
    self.contains other = true ↔ self.components <+: other.components := by
  rw [contains_iff_rest, components, components, List.prefix_map_iff_of_injective mk_injective]

theorem isEqual_iff_components (self other : Path) :
    self.isEqual other = true ↔ self.components = other.components := by
  rw [isEqual_iff_rest, components, components, (List.map_injective_iff.mpr mk_injective).eq_iff]

theorem rest_initWith (path : String) : (initWith path).rest = newPieces path := rfl

/-- A path can be read back from its wire format, and from how it is shown. -/
theorem initWith_wireFormat (self : Path) : (initWith self.wireFormat).isEqual self = true ∧
    ∀ slash, (initWith (self.toStringWithTrailingSlash slash)).isEqual self = true := by
  have hslash : newPieces "/" = [] := by decide
  have hsound := self.rest_sound
  refine ⟨?_, fun slash => ?_⟩
  · rw [isEqual_iff_rest, rest_initWith, wireFormat]
    cases hrest : self.rest with
    | nil => exact hslash
    | cons piece pieces =>
      rw [hrest] at hsound
      obtain ⟨hp, hps⟩ := List.forall_mem_cons.mp hsound
      exact (newPieces_foldl pieces piece hps).trans (by rw [newPieces_piece piece hp]; rfl)
  · rw [isEqual_iff_rest, rest_initWith]
    have hshown := newPieces_foldl self.rest "" hsound
    rw [newPieces_empty, List.nil_append] at hshown
    unfold toStringWithTrailingSlash
    simp only
    split
    · next hlen =>
      -- nothing was joined: no piece is left
      rw [String.length_eq_zero_iff.mp hlen, newPieces_empty] at hshown
      exact hslash.trans hshown
    · split
      · have h := newPieces_append_slash (self.rest.foldl (fun s piece => s ++ "/" ++ piece) "") ""
        rw [String.append_empty, newPieces_empty, List.append_nil] at h
        exact h.trans hshown
      · exact hshown

theorem relativePathFrom_rest (outer inner : Path) :
    (∃ r, relativePathFrom outer inner = .ok r ∧ inner.rest = outer.rest ++ r.rest) ∨
      (∃ e, relativePathFrom outer inner = .error e) ∧ ¬ outer.rest <+: inner.rest := by
  induction hn : outer.rest generalizing outer inner with
  | nil =>
    left
    have hfront : outer.getFront = none := by rw [getFront_eq, hn, List.head?_nil]
    refine ⟨inner, ?_, rfl⟩
    rw [relativePathFrom]
    split
    · rfl
    · next h => rw [hfront] at h; cases h
  | cons piece pieces ih =>
    have hfront : outer.getFront = some piece := by rw [getFront_eq, hn, List.head?_cons]
    have hpop : outer.popFront.rest = pieces := by rw [rest_popFront, hn, List.tail_cons]
    rw [relativePathFrom]
    split
    · next h => rw [hfront] at h; cases h
    · next front h =>
      obtain rfl : piece = front := Option.some.inj (hfront.symm.trans h)
      split
      · next hin =>
        rw [getFront_eq] at hin
        obtain ⟨tail, htail⟩ : ∃ tail, inner.rest = piece :: tail := List.head?_eq_some_iff.mp hin
        have hinner : inner.popFront.rest = tail := by rw [rest_popFront, htail, List.tail_cons]
        rcases ih outer.popFront inner.popFront hpop with ⟨r, hr, hcat⟩ | ⟨herr, hno⟩
        · left
          refine ⟨r, hr, ?_⟩
          rw [htail, List.cons_append, ← hcat, hinner]
        · right
          refine ⟨herr, fun hp => hno ?_⟩
          rw [htail, List.cons_prefix_cons] at hp
          rw [hinner]
          exact hp.2
      · next hin =>
        right
        refine ⟨⟨_, rfl⟩, fun hp => hin ?_⟩
        obtain ⟨t, ht⟩ := hp
        rw [getFront_eq, ← ht]
        rfl

/-- What leads from a path to one below it; from any other path the method throws. -/
theorem relativePathFrom_child (outer inner : Path) :
    if outer.contains inner then
      ∃ r, relativePathFrom outer inner = .ok r ∧ (outer.child r).isEqual inner = true
    else ∃ e, relativePathFrom outer inner = .error e := by
  rcases relativePathFrom_rest outer inner with ⟨r, hr, hcat⟩ | ⟨herr, hno⟩
  · have hc : outer.contains inner = true := by
      rw [contains_iff_rest, hcat]
      exact List.prefix_append _ _
    rw [if_pos hc]
    refine ⟨r, hr, ?_⟩
    rw [isEqual_iff_rest, rest_child, hcat]
  · have hc : ¬ outer.contains inner = true := fun h => hno ((contains_iff_rest outer inner).mp h)
    rw [if_neg hc]
    exact herr

end Path

end FlowerGift
