import FlowerGift.Database
import FlowerGift.Lib.Trim

/-!
# Accounts: the sign-up, sign-in and profile forms

Firebase Auth keeps the credentials of an account, `users/u` keeps the profile
with a copy of them.  Each form trims and checks its texts on its own; a press
of its button answers with the calls to Firebase Auth, the database writes and
the alert that it causes (`FormResponse`).  The calls complete later, in any
order, each successfully or not (`Account.complete`).

Texts are in one canonical form, so that Swift's comparison of strings is
equality.  The texts of the storyboard are part of the program
(`UserViewController.storyboard`).
-/

namespace FlowerGift

open Texts

/-! ## Texts -/

/-- `.whitespacesAndNewlines`: general category Z, U+0009 to U+000D, and U+0085. -/
def isWhitespaceOrNewline (c : Char) : Bool :=
  let n := c.toNat
  (9 ≤ n && n ≤ 13) || n == 0x20 || n == 0x85 || n == 0xA0 || n == 0x1680 ||
    (0x2000 ≤ n && n ≤ 0x200A) || n == 0x2028 || n == 0x2029 || n == 0x202F || n == 0x205F ||
    n == 0x3000

/-- `trimmingCharacters(in: .whitespacesAndNewlines)` -/
def trimmingCharacters (text : String) : String :=
  String.ofList (trim isWhitespaceOrNewline text.toList)

/-- Whitespace and newlines only. -/
def Blank (text : String) : Prop := ∀ c ∈ text.toList, isWhitespaceOrNewline c = true

/-- No whitespace or newline at either end. -/
def Tight (text : String) : Prop := Bare isWhitespaceOrNewline text.toList

instance (text : String) : Decidable (Blank text) := inferInstanceAs (Decidable (∀ c ∈ _, _))

instance (text : String) : Decidable (Tight text) := inferInstanceAs (Decidable (Bare _ _))

theorem trimmingCharacters_eq_empty_iff (text : String) :
    trimmingCharacters text = "" ↔ Blank text := by
  unfold trimmingCharacters Blank
  rw [← String.toList_inj, String.toList_ofList, String.toList_empty, trim_eq_nil_iff]

theorem trimmingCharacters_eq_self_iff (text : String) :
    trimmingCharacters text = text ↔ Tight text := by
  unfold trimmingCharacters Tight
  rw [← String.toList_inj, String.toList_ofList, trim_eq_self_iff]

/-- `validateFields` of every form: the texts in the order in which they are checked. -/
def validateTexts (texts : List String) : Option String :=
  if texts.any fun text => trimmingCharacters text == "" then some "Please fill in all fields"
  else none

theorem validateTexts_eq_none_iff (texts : List String) :
    validateTexts texts = none ↔ ∀ text ∈ texts, ¬ Blank text := by
  unfold validateTexts
  split
  · next h =>
    obtain ⟨text, htext, hblank⟩ := List.any_eq_true.mp h
    rw [beq_iff_eq, trimmingCharacters_eq_empty_iff] at hblank
    exact ⟨fun hn => (nomatch hn), fun hall => absurd hblank (hall text htext)⟩
  · next h =>
    refine ⟨fun _ text htext hblank => h ?_, fun _ => rfl⟩
    rw [List.any_eq_true]
    exact ⟨text, htext, beq_iff_eq.mpr ((trimmingCharacters_eq_empty_iff text).mpr hblank)⟩

theorem validateTexts_eq_some (texts : List String) (error : String)
    (h : validateTexts texts = some error) : error = "Please fill in all fields" := by
  unfold validateTexts at h
  split at h
  · exact (Option.some.inj h).symm
  · cases h

/-! ## Firebase Auth -/

structure Account where
  email : String
  password : String
  deriving DecidableEq

inductive AuthCall
  | createUser (withEmail password : String)
  | signIn (withEmail password : String)
  | updateEmail (email : String)
  | updatePassword (password : String)
  deriving DecidableEq

/-- The account that a successful `createUser` makes. -/
def AuthCall.creates : AuthCall → Option Account
  | .createUser email password => some ⟨email, password⟩
  | _ => none

namespace Account

/-- A successful call sets exactly the given string. -/
def apply (account : Account) : AuthCall → Account
  | .updateEmail email => { account with email }
  | .updatePassword password => { account with password }
  | _ => account

/-- The account after the calls have completed, those of `ok` successfully. -/
def complete (account : Account) (calls : List AuthCall) (ok : AuthCall → Bool) : Account :=
  (calls.filter ok).foldl apply account

end Account

/-- What a press of a form's button causes; the alert is title and message. -/
structure FormResponse where
  calls : List AuthCall := []
  writes : List Write := []
  alert : Option (String × String) := none

/-- The value of both `setValue`s under `users`. -/
def profileRecord (firstName lastName phoneNumber email password : String) : Record :=
  [("firstName", .str firstName), ("lastName", .str lastName), ("phoneNumber", .str phoneNumber),
    ("email", .str email), ("password", .str password)]

/-! ## Sign-up and sign-in -/

structure SignUpViewController where
  fName : String
  lName : String
  email : String
  phoneNumber : String
  password : String

namespace SignUpViewController

def validateFields (vc : SignUpViewController) : Option String :=
  validateTexts [vc.fName, vc.lName, vc.email, vc.phoneNumber, vc.password]

def signUpButton (vc : SignUpViewController) : FormResponse :=
  match vc.validateFields with
  | some error => { alert := some ("Error", error) }
  | none => { calls := [.createUser (trimmingCharacters vc.email) (trimmingCharacters vc.password)] }

/-- The completion of `createUser`, with the error's text or the new user's id. -/
def created (vc : SignUpViewController) : Except String Uid → FormResponse
  | .error err => { alert := some ("Error", err) }
  | .ok uid =>
    { writes := [.setValue (.user uid) (profileRecord (trimmingCharacters vc.fName)
        (trimmingCharacters vc.lName) (trimmingCharacters vc.phoneNumber)
        (trimmingCharacters vc.email) (trimmingCharacters vc.password))] }

end SignUpViewController

structure SignInViewController where
  email : String
  password : String

namespace SignInViewController

def validateFields (vc : SignInViewController) : Option String :=
  validateTexts [vc.email, vc.password]

def signinButton (vc : SignInViewController) : FormResponse :=
  match vc.validateFields with
  | some error => { alert := some ("Error", error) }
  | none => { calls := [.signIn (trimmingCharacters vc.email) (trimmingCharacters vc.password)] }

end SignInViewController

/-! ## The profile -/

/-- The texts of the five fields. -/
structure UserViewController where
  name : String
  lName : String
  email : String
  phone : String
  password : String
  deriving DecidableEq

namespace UserViewController

/-- The texts that the scene in `Main.storyboard` gives the fields. -/
def storyboard : UserViewController where
  name := "first Name"
  lName := "last name"
  email := "username@example.com"
  phone := "+1 000 000 0000"
  password := "************"

/-- The closure of `observeSingleEvent`; a profile that is not there reads like an empty one. -/
def loaded (snapshot : Option Record) : UserViewController :=
  let value := snapshot.getD []
  { name := value.string "firstName" ""
    lName := value.string "lastName" ""
    email := value.string "email" ""
    phone := value.string "phoneNumber" ""
    password := value.string "password" "" }

def validateFields (vc : UserViewController) : Option String :=
  validateTexts [vc.name, vc.lName, vc.email, vc.phone, vc.password]

/-- The record of `updateButton`'s `setValue`. -/
def record (vc : UserViewController) : Record :=
  profileRecord (trimmingCharacters vc.name) (trimmingCharacters vc.lName)
    (trimmingCharacters vc.phone) (trimmingCharacters vc.email) (trimmingCharacters vc.password)

/-- The calls of `updateButton`: they take the texts as they are. -/
def updateCalls (vc : UserViewController) (account : Account) : List AuthCall :=
  (if account.email ≠ vc.email then [.updateEmail vc.email] else []) ++ [.updatePassword vc.password]

/-- `updateButton`; `none` is the trap at `userID!`. -/
def updateButton (vc : UserViewController) (user : Option (Uid × Account)) : Option FormResponse :=
  match vc.validateFields with
  | some error => some { alert := some ("Error", error) }
  | none => user.map fun (userID, account) =>
    { calls := vc.updateCalls account
      writes := [.setValue (.user userID) vc.record]
      alert := some ("success", "Profile Updated") }

theorem updateButton_of_valid (vc : UserViewController) (u : Uid) (account : Account)
    (h : vc.validateFields = none) :
    vc.updateButton (some (u, account)) = some
      ⟨vc.updateCalls account, [.setValue (.user u) vc.record], some ("success", "Profile Updated")⟩ := by
  unfold updateButton
  rw [h]
  rfl

/-- The two calls touch different credentials, so the order of their completion does not matter. -/
theorem complete_updateCalls (vc : UserViewController) (account : Account) (calls : List AuthCall)
    (hcalls : calls.Perm (vc.updateCalls account)) (ok : AuthCall → Bool) :
    account.complete calls ok =
      ⟨if account.email ≠ vc.email ∧ ok (.updateEmail vc.email) then vc.email else account.email,
        if ok (.updatePassword vc.password) then vc.password else account.password⟩ := by
  have hcomm : ∀ x ∈ calls.filter ok, ∀ y ∈ calls.filter ok, ∀ z : Account,
      (z.apply x).apply y = (z.apply y).apply x := by
    have hkind : ∀ x ∈ calls.filter ok,
        x = .updateEmail vc.email ∨ x = .updatePassword vc.password := by
      intro x hx
      have hmem := hcalls.mem_iff.mp (List.mem_of_mem_filter hx)
      simp only [updateCalls, List.mem_append, List.mem_ite_nil_right, List.mem_singleton] at hmem
      exact hmem.imp (fun h => h.2) id
    intro x hx y hy z
    rcases hkind x hx with rfl | rfl <;> rcases hkind y hy with rfl | rfl <;> rfl
  have hperm : account.complete calls ok = account.complete (vc.updateCalls account) ok :=
    (hcalls.filter ok).foldl_eq' hcomm account
  rw [hperm]
  unfold Account.complete updateCalls
  by_cases he : account.email ≠ vc.email
  · cases h1 : ok (.updateEmail vc.email) <;> cases h2 : ok (.updatePassword vc.password) <;>
      simp [he, h1, h2, Account.apply]
  · cases h2 : ok (.updatePassword vc.password) <;> simp [he, h2, Account.apply]

end UserViewController

end FlowerGift
