import FlowerGift.Catalogue
import FlowerGift.Checkout
import FlowerGift.Toggle

/-!
# The heart of the product page

The page draws its heart when it is opened, from the cache and the product that
it was handed, and at every tap.  A tap saves the favourite when the heart
becomes unselected and never takes one away, and Favourites hands over no
product, so that the page asks the cache for the default product's id 1.

So what is drawn follows `favourite/u` iff the id that the page asks for and the
id that it shows are favourites alike, and there are at most two taps, or one on
a favourite (`heart_follows_iff`).
-/

namespace FlowerGift

open Realtime

/-! ## The page -/

/-- The button `Favourite`. -/
structure HeartButton where
  isSelected : Bool := false
  image : String := ""
  deriving DecidableEq

/-- The product page with the product it was handed and its heart. -/
structure ProductPage where
  page : ProductDetailViewController
  product : Product := ⟨"", 1, "", "", "", 1⟩
  favourite : HeartButton := {}
  deriving DecidableEq

/-- The screens that open the page. -/
inductive Opener
  | catalogue (screen : CatalogueScreen)
  | favourites
  deriving DecidableEq

/-- `prepare` after `didSelectItemAt`; that of `FavouriteViewController` leaves `product` as it is. -/
def Opener.prepare (opener : Opener) (selected : Product) : ProductPage :=
  match opener with
  | .catalogue _ => { page := .opened selected, product := selected }
  | .favourites => { page := .opened selected }

/-- `viewDidLoad`, as far as the heart goes. -/
def ProductPage.viewDidLoad (vc : ProductPage) (service : UserService) : ProductPage :=
  if service.contains vc.product then { vc with favourite := ⟨true, "heart.fill"⟩ }
  else { vc with favourite := ⟨false, "heart"⟩ }

/-! ## Taps and callbacks -/

structure OpenPage where
  favourites : Favourites
  vc : ProductPage

inductive PageEvent
  | favouriteButton
  | callback
  deriving DecidableEq

def PageEvent.taps : PageEvent → Bool
  | .favouriteButton => true
  | .callback => false

namespace OpenPage

def step (s : OpenPage) : PageEvent → Option OpenPage
  | .favouriteButton =>
    let tap := s.vc.page.favouriteButton s.favourites.currentUser s.vc.favourite.isSelected
    (s.favourites.step (.favouriteButton s.vc.page s.vc.favourite.isSelected)).map fun favourites =>
      ⟨favourites, { s.vc with favourite := ⟨tap.isSelected, tap.image⟩ }⟩
  | .callback => (s.favourites.step .callback).map fun favourites => { s with favourites }

/-- The page once it is opened for `selected`. -/
def opened (favourites : Favourites) (opener : Opener) (selected : Product) : OpenPage where
  favourites := favourites
  vc := (opener.prepare selected).viewDidLoad favourites.service

/-- The heart is drawn filled iff `favourite/u` has the product that is shown. -/
def Follows (u : Uid) (s : OpenPage) : Prop :=
  s.vc.favourite.image = "heart.fill" ↔ s.favourites.saved u s.vc.page.id

/-- A tap on an unselected heart only draws, one on a selected heart saves. -/
inductive Effect (u : Uid) (s : OpenPage) : PageEvent → OpenPage → Prop
  | draw (hsel : s.vc.favourite.isSelected = false) :
    Effect u s .favouriteButton ⟨s.favourites, { s.vc with favourite := ⟨true, "heart"⟩ }⟩
  | save (hsel : s.vc.favourite.isSelected = true) :
    Effect u s .favouriteButton
      ⟨s.favourites.save u s.vc.page.product, { s.vc with favourite := ⟨false, "heart.fill"⟩ }⟩
  | callback (favourites : Favourites) (h : s.favourites.step .callback = some favourites) :
    Effect u s .callback { s with favourites }

theorem effect_of_step (u : Uid) (s s' : OpenPage) (e : PageEvent)
    (hu : s.favourites.currentUser = some u) (h : s.step e = some s') : Effect u s e s' := by
  cases e with
  | favouriteButton =>
    cases hsel : s.vc.favourite.isSelected with
    | false =>
      simp only [step, Favourites.step, ProductDetailViewController.favouriteButton, hsel,
        Bool.not_false, if_true, List.foldl_nil, Option.map_some, Option.some.injEq] at h
      exact h ▸ .draw hsel
    | true =>
      simp only [step, Favourites.step, ProductDetailViewController.favouriteButton, hsel, hu,
        Bool.not_true, Bool.false_eq_true, if_false, List.foldl_cons, List.foldl_nil,
        Option.map_some, Option.some.injEq] at h
      exact h ▸ .save hsel
  | callback =>
    obtain ⟨favourites, hstep, rfl⟩ := Option.map_eq_some_iff.mp h
    exact .callback favourites hstep

/-! ## Counting the taps -/

/-- The heart after `k` taps: each turns `isSelected`, and what is drawn is the opposite of it. -/
def selectedAfter (selected : Bool) (k : ℕ) : Bool := selected == (k % 2 == 0)

def filledAfter (selected : Bool) (k : ℕ) : Bool :=
  if k = 0 then selected else !selectedAfter selected k

/-- The number of taps it takes to save: the first that leaves the heart unselected. -/
def tapsToSave (selected : Bool) : ℕ := if selected then 1 else 2

theorem selectedAfter_succ (selected : Bool) (k : ℕ) :
    selectedAfter selected (k + 1) = !selectedAfter selected k := by
  unfold selectedAfter
  rcases Nat.mod_two_eq_zero_or_one k with hk | hk
  · rw [hk, show (k + 1) % 2 = 1 by omega]
    cases selected <;> rfl
  · rw [hk, show (k + 1) % 2 = 0 by omega]
    cases selected <;> rfl

/-- A tap that leaves the heart selected is none that has to save. -/
theorem tapsToSave_le_succ (selected : Bool) (k : ℕ) (h : selectedAfter selected k = false) :
    tapsToSave selected ≤ k + 1 ↔ tapsToSave selected ≤ k := by
  cases selected <;> simp [selectedAfter, tapsToSave] at h ⊢ <;> omega

theorem tapsToSave_le_of_selected (selected : Bool) (k : ℕ) (h : selectedAfter selected k = true) :
    tapsToSave selected ≤ k + 1 := by
  cases selected with
  | true => exact Nat.le_add_left 1 k
  | false =>
    simp only [selectedAfter, beq_iff_eq] at h
    simp only [tapsToSave, Bool.false_eq_true, if_false]
    have : k % 2 ≠ 0 := by simpa using h
    omega

/-- After `k` taps on a page for `id` that was opened with the heart `selected` or not. -/
structure Tapped (u : Uid) (id : ℤ) (selected : Bool) (before : Prop) (k : ℕ) (s : OpenPage) : Prop where
  user : s.favourites.currentUser = some u
  page : s.vc.page.id = id
  isSelected : s.vc.favourite.isSelected = selectedAfter selected k
  image : s.vc.favourite.image = if filledAfter selected k then "heart.fill" else "heart"
  saved : s.favourites.saved u id ↔ before ∨ tapsToSave selected ≤ k

theorem tapped_step (u : Uid) (id : ℤ) (selected : Bool) (before : Prop) (k : ℕ) (s s' : OpenPage)
    (e : PageEvent) (h : s.step e = some s') (hs : Tapped u id selected before k s) :
    Tapped u id selected before (k + if e.taps then 1 else 0) s' := by
  obtain ⟨huser, hpage, hselected, himage, hsaved⟩ := hs
  cases effect_of_step u s s' e huser h with
  | draw hsel =>
    have hk : selectedAfter selected k = false := hselected.symm.trans hsel
    have hk' : selectedAfter selected (k + 1) = true := by rw [selectedAfter_succ, hk]; rfl
    refine ⟨huser, hpage, hk'.symm, ?_, hsaved.trans (or_congr_right ?_)⟩
    · simp [PageEvent.taps, filledAfter, hk']
    · exact (tapsToSave_le_succ selected k hk).symm
  | save hsel =>
    have hk : selectedAfter selected k = true := hselected.symm.trans hsel
    have hk' : selectedAfter selected (k + 1) = false := by rw [selectedAfter_succ, hk]; rfl
    refine ⟨huser, hpage, hk'.symm, ?_, ?_⟩
    · simp [PageEvent.taps, filledAfter, hk']
    · have hnow : (s.favourites.save u s.vc.page.product).saved u id :=
        (Favourites.saved_save s.favourites u _ id u).mpr (Or.inl ⟨rfl, hpage⟩)
      exact iff_of_true hnow (Or.inr (tapsToSave_le_of_selected selected k hk))
  | callback favourites hstep =>
    have hu : favourites.currentUser = some u := by
      rw [← huser]
      exact Favourites.currentUser_step s.favourites favourites .callback rfl hstep
    have hdb : favourites.db = s.favourites.db := (Favourites.log_callback _ _ hstep).2.2
    refine ⟨hu, hpage, hselected, himage, ?_⟩
    unfold Favourites.saved at hsaved ⊢
    rw [hdb]
    exact hsaved

/-- The page as it is opened. -/
theorem tapped_opened (u : Uid) (s : Favourites) (opener : Opener) (p : Product)
    (hu : s.currentUser = some u) :
    Tapped u p.id (s.service.contains (opener.prepare p).product) (s.saved u p.id) 0
      (opened s opener p) := by
  have hid : (opener.prepare p).page.id = p.id := by cases opener <;> rfl
  have hzero : ¬ tapsToSave (s.service.contains (opener.prepare p).product) ≤ 0 := by
    unfold tapsToSave
    split <;> omega
  unfold opened ProductPage.viewDidLoad
  split
  · next hc =>
    exact ⟨hu, hid, by rw [hc]; rfl, by rw [hc]; rfl, by rw [hc]; simp [tapsToSave]⟩
  · next hc =>
    rw [Bool.not_eq_true] at hc
    exact ⟨hu, hid, by rw [hc]; rfl, by rw [hc]; rfl, by rw [hc]; simp [tapsToSave]⟩

/-- What is drawn after `k` taps is right as long as `k` stays below the first tap that should have
taken the favourite away. -/
theorem filledAfter_iff (selected : Bool) (before : Prop) (k : ℕ) :
    (∀ j, j ≤ k → (filledAfter selected j = true ↔ before ∨ tapsToSave selected ≤ j)) ↔
      (selected = true ↔ before) ∧ k ≤ tapsToSave selected := by
  have hpos : ¬ tapsToSave selected ≤ 0 := by cases selected <;> decide
  have hlast : filledAfter selected (tapsToSave selected + 1) = false := by cases selected <;> rfl
  constructor
  · intro h
    constructor
    · have h₀ := h 0 (Nat.zero_le k)
      rwa [or_iff_left hpos] at h₀
    · by_contra hk
      have hnext := (h (tapsToSave selected + 1) (by omega)).mpr (Or.inr (Nat.le_succ _))
      rw [hlast] at hnext
      cases hnext
  · rintro ⟨hselected, hk⟩ j hj
    cases selected with
    | true =>
      have hb : before := hselected.mp rfl
      have hj' : j = 0 ∨ j = 1 := by
        simp only [tapsToSave, if_true] at hk
        omega
      rcases hj' with rfl | rfl
      · exact iff_of_true rfl (Or.inl hb)
      · exact iff_of_true rfl (Or.inl hb)
    | false =>
      have hb : ¬ before := fun hb => Bool.noConfusion (hselected.mpr hb)
      have hj' : j = 0 ∨ j = 1 ∨ j = 2 := by
        simp only [tapsToSave, Bool.false_eq_true, if_false] at hk
        omega
      rw [or_iff_right hb]
      rcases hj' with rfl | rfl | rfl <;> decide

end OpenPage

/-- **When the page's heart follows the favourites.**  However the callbacks run between the taps: the
heart is drawn filled iff `favourite/u` has the product shown, after the opening and after every
tap, iff the product that the page was handed is a favourite just when the one it shows is, and there is
at most one tap on a favourite, at most two on anything else. -/
theorem heart_follows_iff (u : Uid) (opener : Opener) (p : Product) (s : Favourites)
    (hu : s.currentUser = some u) (hagree : ∀ id, s.cached id ↔ s.saved u id)
    (tr : List PageEvent) (s' : OpenPage)
    (hr : run OpenPage.step (OpenPage.opened s opener p) tr = some s') :
    Throughout OpenPage.step (OpenPage.opened s opener p) (OpenPage.Follows u) tr ↔
      (s.saved u (opener.prepare p).product.id ↔ s.saved u p.id) ∧
        (s.saved u p.id → tr.countP PageEvent.taps ≤ 1) ∧
        (¬ s.saved u p.id → tr.countP PageEvent.taps ≤ 2) := by
  have hselected : s.service.contains (opener.prepare p).product = true ↔
      s.saved u (opener.prepare p).product.id := by
    rw [UserService.contains_iff, ← hagree]
    exact Iff.rfl
  rw [throughout_iff_count OpenPage.step PageEvent.taps
    (OpenPage.Tapped u p.id (s.service.contains (opener.prepare p).product) (s.saved u p.id))
    (OpenPage.Follows u)
    (fun k => OpenPage.filledAfter (s.service.contains (opener.prepare p).product) k = true ↔
      s.saved u p.id ∨ OpenPage.tapsToSave (s.service.contains (opener.prepare p).product) ≤ k)
    _ (OpenPage.tapped_opened u s opener p hu)
    (fun k t e t' ht h => OpenPage.tapped_step u _ _ _ k t t' e h ht) ?_ tr s' hr,
    OpenPage.filledAfter_iff, hselected]
  · refine and_congr_right fun hsame => ?_
    rw [hsame] at hselected
    by_cases hsaved : s.saved u p.id
    · simp [OpenPage.tapsToSave, hselected.mpr hsaved, hsaved]
    · have hfalse : s.service.contains (opener.prepare p).product = false := by
        rw [← Bool.not_eq_true, hselected]
        exact hsaved
      simp [OpenPage.tapsToSave, hfalse, hsaved]
  · intro k t ht
    unfold OpenPage.Follows
    rw [ht.page, ht.saved, ht.image]
    apply iff_congr _ Iff.rfl
    cases OpenPage.filledAfter (s.service.contains (opener.prepare p).product) k <;> decide

theorem agrees_start (u : Uid) (id : ℤ) :
    (Favourites.start (some u) Database.empty).cached id ↔
      (Favourites.start (some u) Database.empty).saved u id := by
  refine iff_of_false List.not_mem_nil fun h => h ?_
  rfl

/-- The first tap only draws, the second one saves. -/
theorem heart_follows_iff_rose :
    ∃ s', run OpenPage.step (OpenPage.opened (Favourites.start (some "u") Database.empty)
        (.catalogue .gift) rose) [.favouriteButton, .favouriteButton] = some s' ∧
      s'.vc.favourite = ⟨false, "heart.fill"⟩ ∧
      Throughout OpenPage.step (OpenPage.opened (Favourites.start (some "u") Database.empty)
        (.catalogue .gift) rose) (OpenPage.Follows "u") [.favouriteButton, .favouriteButton] :=
  ⟨_, rfl, rfl, (heart_follows_iff "u" (.catalogue .gift) rose
    (Favourites.start (some "u") Database.empty) rfl (agrees_start "u")
    [.favouriteButton, .favouriteButton] _ rfl).mpr
      ⟨Iff.rfl, fun hs => absurd ((agrees_start "u" 1).mpr hs) List.not_mem_nil, fun _ => by decide⟩⟩

/-- The third tap draws the heart empty and leaves the favourite where it is. -/
theorem heart_wrong :
    ¬ ∀ (u : Uid) (opener : Opener) (p : Product) (s : Favourites) (tr : List PageEvent)
      (s' : OpenPage), s.currentUser = some u → (∀ id, s.cached id ↔ s.saved u id) →
      run OpenPage.step (OpenPage.opened s opener p) tr = some s' →
      Throughout OpenPage.step (OpenPage.opened s opener p) (OpenPage.Follows u) tr := by
  intro h
  have hx := h "u" (.catalogue .gift) rose (Favourites.start (some "u") Database.empty)
    [.favouriteButton, .favouriteButton, .favouriteButton] _ rfl (agrees_start "u") rfl
  have hsaved : ((Favourites.start (some "u") Database.empty).save "u" rose).saved "u" 1 :=
    (Favourites.saved_save _ "u" rose 1 "u").mpr (Or.inl ⟨rfl, rfl⟩)
  have hfilled := (hx [.favouriteButton, .favouriteButton, .favouriteButton] [] _ rfl rfl).mpr hsaved
  revert hfilled
  decide

end FlowerGift
