import FlowerGift.Accounts
import FlowerGift.Favourites
import FlowerGift.Payment

/-!
# What is shown and what is stored

CartButton, Continue, Update and the heart of a cell each issue their writes and
calls and show their message at once.  `Session` is who is signed in, with the
database and the cache; `press` is what a press shows and the session once all
verdicts of the server and of Firebase Auth are known, `none` where an unwrapped
user id is nil.

A press is honest if it does not trap and, where it shows its success message,
what it reports is stored.  The message depends on none of this, so a press is
honest iff the user is signed in, the accepted writes leave the record that was
to be stored, and the list of Continue is not empty (`honest_iff`).
-/

namespace FlowerGift

open Realtime

structure Session where
  user : Option (Uid × Account)
  db : Database
  service : UserService := {}

inductive SessionAction
  | signIn (u : Uid) (account : Account)
  | signOut
  | favouriteAdded (values : Record)
  | elsewhere (w : Write)
  | cartButton (page : ProductDetailViewController) (accepted : Bool)
  | button (vc : PaymentViewController) (clock : Clock) (uid : UUID) (outcomes : List (Bool × Bool))
  | updateButton (vc : UserViewController) (ok : AuthCall → Bool) (passwordFirst accepted : Bool)
  | favoriteSelected (product : Product) (accepted : Bool)

/-- What a press shows, and the session once everything has completed. -/
structure Outcome where
  message : Option String := none
  session : Session

namespace Session

def uid (s : Session) : Option Uid := s.user.map Prod.fst

/-- The calls and the writes of a form have completed, the calls in either order. -/
def complete (s : Session) (response : FormResponse) (ok : AuthCall → Bool)
    (passwordFirst accepted : Bool) : Session :=
  let calls := if passwordFirst then response.calls.reverse else response.calls
  { s with
    user := s.user.map fun (u, account) => (u, account.complete calls ok)
    db := settle s.db response.writes [accepted] }

def press (s : Session) : SessionAction → Option Outcome
  | .signIn u account => some { session := { s with user := some (u, account) } }
  | .signOut => some { session := { s with user := none, service := s.service.logoutUser } }
  | .favouriteAdded values => some { session := { s with service := s.service.childAdded values } }
  | .elsewhere w => some { session := { s with db := w.apply s.db } }
  | .cartButton page accepted =>
    let response := page.cartButton s.uid
    some ⟨some response.message, { s with db := settle s.db response.writes [accepted] }⟩
  | .button vc clock uid outcomes =>
    let response := vc.button s.uid clock uid
    some ⟨some response.message, { s with db := settle s.db response.writes (verdicts outcomes) }⟩
  | .updateButton vc ok passwordFirst accepted =>
    (vc.updateButton s.user).map fun response =>
      ⟨response.alert.map Prod.snd, s.complete response ok passwordFirst accepted⟩
  | .favoriteSelected product accepted => s.uid.map fun userID =>
      let (service, w) := s.service.favoriteSelected userID product
      { session := { s with service, db := settle s.db [w] [accepted] } }

def step (s : Session) (a : SessionAction) : Option Session := (s.press a).map (·.session)

/-! ## Honest presses -/

/-- The message by which a press reports success. -/
def success : SessionAction → Option String
  | .cartButton _ _ => some "added to add to cart"
  | .button _ _ _ _ => some "Order placed successfully"
  | .updateButton _ _ _ _ => some "Profile Updated"
  | _ => none

/-- What a press reports is stored: the cart entry, the order with every product of the list, the
profile with both credentials. -/
def Stored (s : Session) : SessionAction → Prop
  | .cartButton page _ => ∃ u, s.uid = some u ∧
      s.db.get (.cart u (stringId page.id)) = some page.cartRecord
  | .button vc clock o _ => vc.products ≠ [] ∧ ∃ u, s.uid = some u ∧ ∀ p ∈ vc.products,
      s.db.get (.order u o.key p.key) = some (PaymentViewController.orderLine clock o p)
  | .updateButton vc _ _ _ => ∃ u, s.user = some (u, ⟨vc.email, vc.password⟩) ∧
      s.db.get (.user u) = some vc.record
  | _ => True

/-- The press does not trap, and shows its success message only if what it reports is stored. -/
def Honest (s : Session) (a : SessionAction) : Prop :=
  ∃ outcome, s.press a = some outcome ∧
    ∀ message, success a = some message → outcome.message = some message → outcome.session.Stored a

/-- The line that `orders/u/o/k` has in the end is that of `p`: of the last product of the list with key
`k` whose line is accepted, or the one that was there. -/
def LineLands (s : Session) (u : Uid) (vc : PaymentViewController) (clock : Clock) (o : UUID)
    (outcomes : List (Bool × Bool)) (p : CartProduct) : Prop :=
  match lastAt CartProduct.key (acceptedLines vc.products outcomes) p.key with
  | some q => PaymentViewController.orderLine clock o q = PaymentViewController.orderLine clock o p
  | none => s.db.get (.order u o.key p.key) = some (PaymentViewController.orderLine clock o p)

/-- When a press is honest. -/
def Kept (s : Session) : SessionAction → Prop
  | .cartButton page accepted => ∃ u, s.uid = some u ∧
      (accepted = true ∨ s.db.get (.cart u (stringId page.id)) = some page.cartRecord)
  | .button vc clock o outcomes => vc.products ≠ [] ∧ ∃ u, s.uid = some u ∧
      ∀ p ∈ vc.products, s.LineLands u vc clock o outcomes p
  | .updateButton vc ok _ accepted => vc.validateFields = none → ∃ u account,
      s.user = some (u, account) ∧
      (accepted = true ∨ s.db.get (.user u) = some vc.record) ∧
      (account.email = vc.email ∨ ok (.updateEmail vc.email) = true) ∧
      (account.password = vc.password ∨ ok (.updatePassword vc.password) = true)
  | .favoriteSelected _ _ => ∃ u, s.uid = some u
  | _ => True

/-- One write and its verdict. -/
theorem get_settle_one (db : Database) (r : Ref) (v : Record) (accepted : Bool) :
    (settle db [.setValue r v] [accepted]).get r = some v ↔ accepted = true ∨ db.get r = some v := by
  cases accepted with
  | false => simp [settle]
  | true => simp [settle, Write.apply, Database.get_setValue]

/-- The email is set unless it is that already. -/
theorem email_set_iff (old new : String) (set : Bool) :
    (if old ≠ new ∧ set then new else old) = new ↔ old = new ∨ set = true := by
  by_cases h : old = new
  · simp [h]
  · cases set <;> simp [h]

theorem password_set_iff (old new : String) (set : Bool) :
    (if set then new else old) = new ↔ old = new ∨ set = true := by
  cases set <;> simp

/-- A press that does not trap and shows its success message. -/
theorem honest_iff_stored (s : Session) (a : SessionAction) (outcome : Outcome) (message : String)
    (h : s.press a = some outcome) (hsuccess : success a = some message)
    (hmessage : outcome.message = some message) : Honest s a ↔ outcome.session.Stored a := by
  unfold Honest
  rw [h]
  simp [hsuccess, hmessage]

theorem honest_cartButton (s : Session) (page : ProductDetailViewController) (accepted : Bool) :
    Honest s (.cartButton page accepted) ↔ Kept s (.cartButton page accepted) := by
  rw [honest_iff_stored s _ _ _ rfl rfl rfl]
  show (∃ u, s.uid = some u ∧ _) ↔ ∃ u, s.uid = some u ∧ _
  refine exists_congr fun u => and_congr_right fun hu => ?_
  simp only [ProductDetailViewController.cartButton, hu]
  exact get_settle_one s.db _ _ accepted

theorem honest_button (s : Session) (vc : PaymentViewController) (clock : Clock) (o : UUID)
    (outcomes : List (Bool × Bool)) :
    Honest s (.button vc clock o outcomes) ↔ Kept s (.button vc clock o outcomes) := by
  rw [honest_iff_stored s _ _ _ rfl rfl rfl]
  show (vc.products ≠ [] ∧ ∃ u, s.uid = some u ∧ _) ↔ vc.products ≠ [] ∧ ∃ u, s.uid = some u ∧ _
  refine and_congr_right fun _ => exists_congr fun u => and_congr_right fun hu =>
    forall_congr' fun p => forall_congr' fun _ => ?_
  rw [hu, button_writes, get_order_settle]
  unfold LineLands
  cases lastAt CartProduct.key (acceptedLines vc.products outcomes) p.key with
  | none => rfl
  | some q => simp

theorem honest_updateButton (s : Session) (vc : UserViewController) (ok : AuthCall → Bool)
    (passwordFirst accepted : Bool) :
    Honest s (.updateButton vc ok passwordFirst accepted) ↔
      Kept s (.updateButton vc ok passwordFirst accepted) := by
  cases hvalid : vc.validateFields with
  | some error =>
    -- what is shown is the error
    have hpress : s.press (.updateButton vc ok passwordFirst accepted) =
        some ⟨some error, s.complete { alert := some ("Error", error) } ok passwordFirst accepted⟩ := by
      simp only [press, UserViewController.updateButton, hvalid, Option.map_some]
    have hne : error ≠ "Profile Updated" := by
      rw [validateTexts_eq_some _ error hvalid]
      decide
    refine iff_of_true ⟨_, hpress, ?_⟩ fun hnone => ?_
    · rintro message hsuccess hmessage
      cases hsuccess
      exact absurd (Option.some.inj hmessage) hne
    · rw [hvalid] at hnone
      cases hnone
  | none =>
    cases hu : s.user with
    | none =>
      -- `userID!` traps
      simp [Honest, Kept, press, UserViewController.updateButton, hvalid, hu]
    | some member =>
      obtain ⟨u, account⟩ := member
      have hpress : s.press (.updateButton vc ok passwordFirst accepted) =
          some ⟨some "Profile Updated", s.complete ⟨vc.updateCalls account,
            [.setValue (.user u) vc.record], some ("success", "Profile Updated")⟩ ok passwordFirst
              accepted⟩ := by
        rw [press, hu, vc.updateButton_of_valid u account hvalid]
        rfl
      rw [honest_iff_stored s _ _ _ hpress rfl rfl]
      have hcalls : (if passwordFirst then (vc.updateCalls account).reverse
          else vc.updateCalls account).Perm (vc.updateCalls account) := by
        split
        · exact List.reverse_perm _
        · exact List.Perm.refl _
      simp only [Stored, complete, hu, Option.map_some, Option.some.injEq, Prod.mk.injEq,
        vc.complete_updateCalls account _ hcalls ok, Account.mk.injEq, Kept, hvalid, true_implies]
      constructor
      · rintro ⟨u', ⟨rfl, hemail, hpassword⟩, hprofile⟩
        exact ⟨u, account, ⟨rfl, rfl⟩, (get_settle_one s.db _ _ accepted).mp hprofile,
          (email_set_iff _ _ _).mp hemail, (password_set_iff _ _ _).mp hpassword⟩
      · rintro ⟨u', account', ⟨rfl, rfl⟩, hprofile, hemail, hpassword⟩
        exact ⟨u, ⟨rfl, (email_set_iff _ _ _).mpr hemail, (password_set_iff _ _ _).mpr hpassword⟩,
          (get_settle_one s.db _ _ accepted).mpr hprofile⟩

theorem honest_favoriteSelected (s : Session) (product : Product) (accepted : Bool) :
    Honest s (.favoriteSelected product accepted) ↔ Kept s (.favoriteSelected product accepted) := by
  cases hu : s.uid with
  | none => simp [Honest, Kept, press, hu]
  | some u => simp [Honest, Kept, press, hu, success]

theorem honest_iff (s : Session) (a : SessionAction) : Honest s a ↔ Kept s a := by
  cases a with
  | cartButton page accepted => exact honest_cartButton s page accepted
  | button vc clock o outcomes => exact honest_button s vc clock o outcomes
  | updateButton vc ok passwordFirst accepted => exact honest_updateButton s vc ok passwordFirst accepted
  | favoriteSelected product accepted => exact honest_favoriteSelected s product accepted
  | _ => exact iff_of_true ⟨_, rfl, fun _ h => (nomatch h)⟩ trivial

end Session

/-- **When presses are honest.**  In every run, with any sign-ins and sign-outs and any verdicts, every
press is honest iff every press meets `Kept`: the user is signed in; the write of the cart entry or the
profile is accepted or changes nothing; the list of Continue is not empty and the line that lands for each
product is its own; each credential is accepted or the old one. -/
theorem presses_honest_iff (s : Session) (tr : List SessionAction) :
    Always Session.step Session.Honest s tr ↔ Always Session.step Session.Kept s tr :=
  always_congr Session.step Session.Honest Session.Kept s (fun _ t a _ => t.honest_iff a) tr

/-- Signed out, Continue reports an order that nobody has placed. -/
theorem order_reported_unplaced :
    ¬ ∀ (s : Session) (tr : List SessionAction), Always Session.step Session.Honest s tr := by
  intro h
  obtain ⟨outcome, hpress, hstored⟩ := h ⟨none, Database.empty, {}⟩
    [.button ⟨[rosePage.cartProduct]⟩ ⟨9, 30, 0⟩ someOrder [(true, true)]] [] _ [] _ rfl rfl
  cases hpress
  obtain ⟨-, u, hu, -⟩ := hstored _ rfl rfl
  cases hu

end FlowerGift
