import FlowerGift.Key

/-!
# Names of children

The client looks children up by two comparators: a node keeps them by
`FUtilities compareKey:toKey:`, a tree of writes by `FUtilities stringComparator`.
Neither is equality of strings.  `compareKey:` finds `-0` and `00` the same, both
read as 0 with two letters; `stringComparator` compares without
`NSLiteralSearch`, so it finds a composed letter the same as the letter and its
accent; and a child named `.priority` is the priority of the node.

`ChildKey` is a name with none of this: ASCII letters, not `.priority`, not a
negative zero.  There both comparators agree with equality, and `compareKey:` is
the order of `Key`:

    compareKey a.key.name b.key.name = cmp a b                   (compareKey_eq)
-/

namespace FlowerGift

/-- The UTF-16 units of a letter. -/
def unichars (c : Char) : List ℕ :=
  if c.toNat < 0x10000 then [c.toNat]
  else [0xD800 + (c.toNat - 0x10000) / 0x400, 0xDC00 + (c.toNat - 0x10000) % 0x400]

/-- What `characterAtIndex:` and `length` see of a string. -/
def characters (str : String) : List ℕ := str.toList.flatMap unichars

/-- `compareKey:toKey:`.  The objects `minName` and `maxName`, which name no child, are left out. -/
def compareKey (a b : String) : Ordering :=
  match tryParseStringToInt a.toList, tryParseStringToInt b.toList with
  | some aAsInt, some bAsInt =>
    if aAsInt > bAsInt then .gt
    else if aAsInt < bAsInt then .lt
    else if (characters a).length > (characters b).length then .gt
    else if (characters a).length < (characters b).length then .lt
    else .eq
  | some _, none => .lt
  | none, some _ => .gt
  -- NSLiteralSearch
  | none, none => cmp (characters a) (characters b)

/-- A `-` before zeros. -/
def isNegativeZero (str : List Char) : Bool :=
  str.head? = some '-' && tryParseStringToInt str = some 0

/-- A name that both comparators find the same as itself only, and that is not the priority. -/
def Key.isPlain (k : Key) : Bool :=
  (k.name.toList.all fun c => decide (c.toNat < 128)) && k.name != ".priority" &&
    !isNegativeZero k.name.toList

structure ChildKey where
  key : Key
  plain : key.isPlain = true

namespace ChildKey

theorem key_injective : Function.Injective ChildKey.key := by
  rintro ⟨a, ha⟩ ⟨b, hb⟩ h
  cases h
  rfl

instance : LinearOrder ChildKey := LinearOrder.lift' ChildKey.key key_injective

theorem ascii (k : ChildKey) : ∀ c ∈ k.key.name.toList, c.toNat < 128 := by
  have h := k.plain
  simp only [Key.isPlain, Bool.and_eq_true, List.all_eq_true, decide_eq_true_eq] at h
  exact h.1.1

theorem not_negativeZero (k : ChildKey) : isNegativeZero k.key.name.toList = false := by
  have h := k.plain
  simp only [Key.isPlain, Bool.and_eq_true, Bool.not_eq_true'] at h
  exact h.2

/-! ## Numbers -/

theorem digitsValue_nonneg (cs : List Char) (n v : ℤ) (hn : 0 ≤ n)
    (h : digitsValue cs n = some v) : 0 ≤ v := by
  induction cs generalizing n with
  | nil =>
    obtain rfl := Option.some.inj h
    exact hn
  | cons c cs ih =>
    rw [digitsValue] at h
    split at h
    · next hc =>
      have hle : '0'.toNat ≤ c.toNat := hc.1
      exact ih _ (by omega) h
    · cases h

/-- Digits of one length are told apart by their value. -/
theorem digitsValue_inj (cs ds : List Char) (n m v : ℤ) (hlen : cs.length = ds.length)
    (hc : digitsValue cs n = some v) (hd : digitsValue ds m = some v) : n = m ∧ cs = ds := by
  induction cs generalizing ds n m with
  | nil =>
    obtain rfl := List.length_eq_zero_iff.mp hlen.symm
    exact ⟨Option.some.inj (hc.trans hd.symm), rfl⟩
  | cons c cs ih =>
    cases ds with
    | nil => cases hlen
    | cons d ds =>
      rw [digitsValue] at hc hd
      split at hc
      · next hcd =>
        split at hd
        · next hdd =>
          obtain ⟨hacc, rfl⟩ := ih ds _ _ (Nat.succ.inj hlen) hc hd
          have hc₀ : '0'.toNat ≤ c.toNat := hcd.1
          have hc₉ : c.toNat ≤ '9'.toNat := hcd.2
          have hd₀ : '0'.toNat ≤ d.toNat := hdd.1
          have hd₉ : d.toNat ≤ '9'.toNat := hdd.2
          have h₀ : '0'.toNat = 48 := rfl
          have h₉ : '9'.toNat = 57 := rfl
          have hcd : c.toNat = d.toNat := by omega
          obtain rfl := Char.toNat_inj.mp hcd
          exact ⟨by omega, rfl⟩
        · cases hd
      · cases hc

/-- The digits of a number, with its sign. -/
theorem tryParse_eq_some (str : List Char) (n : ℤ) (h : tryParseStringToInt str = some n) :
    (∃ digits m, str = '-' :: digits ∧ digitsValue digits 0 = some m ∧ n = -m) ∨
      (str.head? ≠ some '-' ∧ digitsValue str 0 = some n) := by
  unfold tryParseStringToInt at h
  split at h
  · cases h
  · obtain ⟨hvalue, -⟩ := Option.filter_eq_some_iff.mp h
    split at hvalue
    · cases hvalue
    · next digits _ _ =>
      obtain ⟨m, hm, rfl⟩ := Option.map_eq_some_iff.mp hvalue
      exact Or.inl ⟨digits, m, rfl, hm, rfl⟩
    · next digits _ hneg =>
      refine Or.inr ⟨fun hhead => ?_, hvalue⟩
      cases str with
      | nil => cases hhead
      | cons c cs =>
        obtain rfl := Option.some.inj hhead
        exact hneg cs rfl

/-- Numbers of one value and one length differ in the sign of zero only. -/
theorem tryParse_inj (a b : List Char) (n : ℤ) (hlen : a.length = b.length)
    (ha : tryParseStringToInt a = some n) (hb : tryParseStringToInt b = some n)
    (hza : isNegativeZero a = false) (hzb : isNegativeZero b = false) : a = b := by
  have hsign : ∀ (as bs : List Char) (m : ℤ), as = '-' :: bs → digitsValue bs 0 = some m →
      tryParseStringToInt as = some (-m) → isNegativeZero as = false → 0 < m := by
    rintro as bs m rfl hm has hz
    refine lt_of_le_of_ne (digitsValue_nonneg bs 0 m le_rfl hm) ?_
    rintro rfl
    rw [neg_zero] at has
    simp [isNegativeZero, has] at hz
  rcases tryParse_eq_some a n ha with ⟨as, m, rfl, hm, rfl⟩ | ⟨-, hm⟩
  · rcases tryParse_eq_some b _ hb with ⟨bs, m', rfl, hm', heq⟩ | ⟨-, hm'⟩
    · obtain rfl : m = m' := neg_inj.mp heq
      rw [(digitsValue_inj as bs 0 0 m (Nat.succ.inj hlen) hm hm').2]
    · have hpos := hsign _ as m rfl hm ha hza
      have hnonneg := digitsValue_nonneg b 0 _ le_rfl hm'
      omega
  · rcases tryParse_eq_some b n hb with ⟨bs, m', rfl, hm', rfl⟩ | ⟨-, hm'⟩
    · have hpos := hsign _ bs m' rfl hm' hb hzb
      have hnonneg := digitsValue_nonneg a 0 _ le_rfl hm
      omega
    · exact (digitsValue_inj a b 0 0 n hlen hm hm').2

/-! ## Comparing -/

theorem characters_of_ascii (str : String) (h : ∀ c ∈ str.toList, c.toNat < 128) :
    characters str = str.toList.map Char.toNat := by
  unfold characters
  rw [List.map_eq_flatMap]
  refine List.flatMap_congr fun c hc => ?_
  exact if_pos (lt_trans (h c hc) (by decide))

theorem length_characters (k : ChildKey) :
    (characters k.key.name).length = k.key.name.toList.length := by
  rw [characters_of_ascii _ k.ascii, List.length_map]

/-- Letter by letter, the units compare as the letters. -/
theorem compares_characters (a b : ChildKey) :
    (cmp (characters a.key.name) (characters b.key.name)).Compares
      a.key.name.toList b.key.name.toList := by
  have hmono : StrictMono (List.map Char.toNat) := fun _ _ h => List.map_lt (fun _ _ h => h) h
  rw [characters_of_ascii _ a.ascii, characters_of_ascii _ b.ascii, cmp, cmpUsing]
  rcases lt_trichotomy a.key.name.toList b.key.name.toList with h | h | h
  · rw [if_pos (hmono h)]
    exact h
  · rw [h, if_neg (lt_irrefl _), if_neg (lt_irrefl _)]
    rfl
  · rw [if_neg (hmono h).asymm, if_pos (hmono h)]
    exact h

theorem lt_iff_rank (a b : ChildKey) : a < b ↔ a.key.rank < b.key.rank := Iff.rfl

theorem eq_of_letters (a b : ChildKey) (h : a.key.name.toList = b.key.name.toList) : a = b :=
  key_injective (congrArg Key.mk (String.toList_inj.mp h))

theorem rank_of_some (k : Key) (n : ℤ) (h : tryParseStringToInt k.name.toList = some n) :
    k.rank = toLex (0, toLex (n, toLex (k.name.toList.length, k.name.toList))) := by
  simp only [Key.rank, h]

theorem rank_of_none (k : Key) (h : tryParseStringToInt k.name.toList = none) :
    k.rank = toLex (1, toLex (0, toLex (0, k.name.toList))) := by
  simp only [Key.rank, h]

/-- Numbers come in the order of their values, and then of their lengths. -/
theorem lt_of_numbers (a b : ChildKey) (n m : ℤ) (ha : tryParseStringToInt a.key.name.toList = some n)
    (hb : tryParseStringToInt b.key.name.toList = some m)
    (h : n < m ∨ n = m ∧ a.key.name.toList.length < b.key.name.toList.length) : a < b := by
  rw [lt_iff_rank, rank_of_some _ n ha, rank_of_some _ m hb]
  rcases h with h | ⟨rfl, h⟩ <;> simp [Prod.Lex.toLex_lt_toLex, h]

/-- Numbers come before other names. -/
theorem lt_of_number (a b : ChildKey) (n : ℤ) (ha : tryParseStringToInt a.key.name.toList = some n)
    (hb : tryParseStringToInt b.key.name.toList = none) : a < b := by
  rw [lt_iff_rank, rank_of_some _ n ha, rank_of_none _ hb]
  exact Prod.Lex.toLex_lt_toLex.mpr (Or.inl Nat.zero_lt_one)

/-- Other names come in the order of their letters. -/
theorem lt_of_letters (a b : ChildKey) (ha : tryParseStringToInt a.key.name.toList = none)
    (hb : tryParseStringToInt b.key.name.toList = none) (h : a.key.name.toList < b.key.name.toList) :
    a < b := by
  rw [lt_iff_rank, rank_of_none _ ha, rank_of_none _ hb]
  simpa [Prod.Lex.toLex_lt_toLex] using h

theorem compares_compareKey (a b : ChildKey) :
    (compareKey a.key.name b.key.name).Compares a b := by
  unfold compareKey
  cases ha : tryParseStringToInt a.key.name.toList with
  | some n =>
    cases hb : tryParseStringToInt b.key.name.toList with
    | some m =>
      simp only [length_characters]
      rcases lt_trichotomy n m with hnm | rfl | hnm
      · rw [if_neg hnm.asymm, if_pos hnm]
        exact lt_of_numbers a b n m ha hb (Or.inl hnm)
      · rw [if_neg (lt_irrefl n), if_neg (lt_irrefl n)]
        rcases lt_trichotomy a.key.name.toList.length b.key.name.toList.length with hl | hl | hl
        · rw [if_neg hl.asymm, if_pos hl]
          exact lt_of_numbers a b n n ha hb (Or.inr ⟨rfl, hl⟩)
        · rw [hl, if_neg (lt_irrefl _), if_neg (lt_irrefl _)]
          exact eq_of_letters a b
            (tryParse_inj _ _ n hl ha hb a.not_negativeZero b.not_negativeZero)
        · rw [if_pos hl]
          exact lt_of_numbers b a n n hb ha (Or.inr ⟨rfl, hl⟩)
      · rw [if_pos hnm]
        exact lt_of_numbers b a m n hb ha (Or.inl hnm)
    | none => exact lt_of_number a b n ha hb
  | none =>
    cases hb : tryParseStringToInt b.key.name.toList with
    | some m => exact lt_of_number b a m hb ha
    | none =>
      have hcmp := compares_characters a b
      show (cmp (characters a.key.name) (characters b.key.name)).Compares a b
      revert hcmp
      cases cmp (characters a.key.name) (characters b.key.name) with
      | lt => exact fun h => lt_of_letters a b ha hb h
      | eq => exact fun h => eq_of_letters a b h
      | gt => exact fun h => lt_of_letters b a hb ha h

/-- The comparator of nodes is the order of keys, and finds the same only what is equal. -/
theorem compareKey_eq (a b : ChildKey) : compareKey a.key.name b.key.name = cmp a b :=
  (compares_compareKey a b).cmp_eq.symm

example : compareKey "-0" "00" = .eq := by decide

/-- `stringComparator`, where `compare:` of ASCII names goes letter by letter. -/
def stringComparator (a b : ChildKey) : Ordering := cmp (characters a.key.name) (characters b.key.name)

/-! ## Numbers as names -/

theorem digitsValue_eq (cs : List Char) (n : ℕ) (v : ℤ) (h : digitsValue cs n = some v) :
    v = Nat.ofDigitChars 10 cs n := by
  induction cs generalizing n with
  | nil => exact (Option.some.inj h).symm
  | cons c cs ih =>
    rw [digitsValue] at h
    split at h
    · next hc =>
      have hle : '0'.toNat ≤ c.toNat := hc.1
      have hacc : (n : ℤ) * 10 + (c.toNat - '0'.toNat) = ((10 * n + (c.toNat - '0'.toNat) : ℕ) : ℤ) := by
        omega
      rw [hacc] at h
      exact ih _ h
    · cases h

theorem digit_of_toDigits (n : ℕ) : ∀ c ∈ Nat.toDigits 10 n, 48 ≤ c.toNat ∧ c.toNat ≤ 57 := by
  intro c hc
  have hd := Nat.isDigit_of_mem_toDigits (by decide) (by decide) hc
  simpa [Char.isDigit, UInt32.le_iff_toNat_le] using hd

theorem isPlain_of_digits (k : Key)
    (hk : ∀ c ∈ k.name.toList, c = '-' ∨ 48 ≤ c.toNat ∧ c.toNat ≤ 57)
    (hz : isNegativeZero k.name.toList = false) : k.isPlain = true := by
  have hascii : (k.name.toList.all fun c => decide (c.toNat < 128)) = true := by
    rw [List.all_eq_true]
    intro c hc
    rcases hk c hc with rfl | ⟨-, hle⟩
    · decide
    · exact decide_eq_true (by omega)
  have hne : k.name ≠ ".priority" := by
    intro h
    have hdot : '.' ∈ k.name.toList := by
      rw [h]
      decide
    rcases hk '.' hdot with h | ⟨h, -⟩
    · cases h
    · exact absurd h (by decide)
  simp [Key.isPlain, hascii, hne, hz]

/-- The names `String(id)` are such names. -/
theorem isPlain_stringId (id : ℤ) : (stringId id).isPlain = true := by
  cases id with
  | ofNat n =>
    have hname : (stringId (Int.ofNat n)).name.toList = Nat.toDigits 10 n := Nat.toList_repr
    apply isPlain_of_digits
    · rw [hname]
      exact fun c hc => Or.inr (digit_of_toDigits n c hc)
    · rw [hname, isNegativeZero, Bool.and_eq_false_iff]
      left
      rw [decide_eq_false_iff_not]
      intro hhead
      have hmem := digit_of_toDigits n '-' (List.mem_of_mem_head? hhead)
      exact absurd hmem.1 (by decide)
  | negSucc n =>
    have hname : (stringId (Int.negSucc n)).name.toList = '-' :: Nat.toDigits 10 (n + 1) := by
      have hrepr : (stringId (Int.negSucc n)).name = "-" ++ (n + 1).repr := rfl
      rw [hrepr, String.toList_append, Nat.toList_repr]
      rfl
    apply isPlain_of_digits
    · rw [hname]
      exact List.forall_mem_cons.mpr ⟨Or.inl rfl, fun c hc => Or.inr (digit_of_toDigits (n + 1) c hc)⟩
    · rw [hname, isNegativeZero, Bool.and_eq_false_iff]
      right
      rw [decide_eq_false_iff_not]
      intro hzero
      rcases tryParse_eq_some _ 0 hzero with ⟨digits, m, heq, hm, hneg⟩ | ⟨hhead, -⟩
      · obtain rfl := (List.cons.inj heq).2
        have hvalue := digitsValue_eq _ 0 m hm
        rw [Nat.ofDigitChars_ten_toDigits] at hvalue
        omega
      · exact hhead rfl

instance : Infinite ChildKey :=
  Infinite.of_injective (fun id : ℤ => ⟨stringId id, isPlain_stringId id⟩) fun a b h =>
    (stringId_inj a b).mp (congrArg ChildKey.key h)

/-- Children of the root, under which the app keeps its data. -/
def cart : ChildKey := ⟨⟨"cart"⟩, by decide⟩

def users : ChildKey := ⟨⟨"users"⟩, by decide⟩

end ChildKey

/-- A name in the order of `stringComparator`. -/
structure TreeKey where
  name : ChildKey

namespace TreeKey

theorem letters_injective : Function.Injective fun k : TreeKey => k.name.key.name.toList := by
  rintro ⟨a⟩ ⟨b⟩ h
  have hname : a.key.name = b.key.name := String.toList_inj.mp h
  obtain rfl := ChildKey.key_injective (congrArg Key.mk hname)
  rfl

instance : LinearOrder TreeKey := LinearOrder.lift' _ letters_injective

/-- The comparator of trees is their order, and finds the same only what is equal. -/
theorem stringComparator_eq (a b : ChildKey) : a.stringComparator b = cmp (TreeKey.mk a) ⟨b⟩ := by
  have hcmp := ChildKey.compares_characters a b
  refine (Ordering.Compares.cmp_eq ?_).symm
  show (cmp (characters a.key.name) (characters b.key.name)).Compares (TreeKey.mk a) ⟨b⟩
  revert hcmp
  cases cmp (characters a.key.name) (characters b.key.name) with
  | lt => exact id
  | eq => exact fun h => congrArg TreeKey.mk (ChildKey.eq_of_letters a b h)
  | gt => exact id

end TreeKey

end FlowerGift
