import FlowerGift.Accounts
import FlowerGift.Lib.Run

/-!
# The profile form, the profile and the account

`updateButton` writes the trimmed texts into `users/u` and gives the texts as
they are to Firebase Auth, without waiting for either.  Three questions about it:

* pressed without an edit, what does it change?  Before the profile has been
  loaded the fields hold the storyboard's texts (`unedited_update_iff`);
* do profile and account agree once all calls have completed?  A text that was
  set must be tight, a text that was not must be the old one
  (`profile_agrees_iff`);
* does the text that was typed sign in again?  The sign-in form trims it, so it
  must be tight, unless it was typed at sign-up (`sign_in_iff`).
-/

namespace FlowerGift

open Realtime

/-- A field of `users/u`. -/
def Database.profileField (db : Database) (u : Uid) (field : String) : Option Value :=
  (db.users u).bind fun r => r.lookup field

/-- The profile holds the credentials of the account. -/
def Agrees (profile : Option Record) (account : Account) : Prop :=
  ∃ r, profile = some r ∧ r.lookup "email" = some (.str account.email) ∧
    r.lookup "password" = some (.str account.password)

/-! ## Fields of a profile -/

def profileFields : List String := ["firstName", "lastName", "phoneNumber", "email", "password"]

/-- The profile has exactly the five fields, each a text without whitespace at its ends. -/
def ExactProfile (profile : Option Record) : Prop :=
  (∀ field ∈ profileFields, ∃ text, (profile.bind fun r => r.lookup field) = some (.str text) ∧
    Tight text) ∧
  ∀ field, field ∉ profileFields → (profile.bind fun r => r.lookup field) = none

namespace UserViewController

def texts (vc : UserViewController) : List String :=
  [vc.name, vc.lName, vc.email, vc.phone, vc.password]

theorem validateFields_eq_none_iff (vc : UserViewController) :
    vc.validateFields = none ↔ ∀ text ∈ vc.texts, ¬ Blank text := validateTexts_eq_none_iff _

/-- What Update writes when the loaded texts are left as they are. -/
theorem lookup_record_loaded (profile : Option Record) (field : String) :
    (loaded profile).record.lookup field =
      if field ∈ profileFields then
        some (.str (trimmingCharacters ((profile.getD []).string field "")))
      else none := by
  by_cases hf : field ∈ profileFields
  · rw [if_pos hf]
    simp only [profileFields, List.mem_cons, List.not_mem_nil, or_false] at hf
    rcases hf with rfl | rfl | rfl | rfl | rfl <;> rfl
  · rw [if_neg hf]
    simp only [profileFields, List.mem_cons, List.not_mem_nil, or_false, not_or] at hf
    obtain ⟨h1, h2, h3, h4, h5⟩ := hf
    simp [record, profileRecord, List.lookup, beq_false_of_ne, h1, h2, h3, h4, h5]

/-- It is the profile itself iff that is exact. -/
theorem record_loaded_eq_iff (profile : Option Record) :
    (∀ field, (loaded profile).record.lookup field = profile.bind fun r => r.lookup field) ↔
      ExactProfile profile := by
  have hstring : ∀ field text, (profile.bind fun r => r.lookup field) = some (.str text) →
      (profile.getD []).string field "" = text := by
    intro field text h
    obtain ⟨r, rfl, hr⟩ := Option.bind_eq_some_iff.mp h
    show (asString (r.lookup field)).getD "" = text
    rw [hr]
    rfl
  constructor
  · intro h
    refine ⟨fun field hf => ?_, fun field hf => ?_⟩
    · have hl := h field
      rw [lookup_record_loaded, if_pos hf] at hl
      have htrim := hstring field _ hl.symm
      refine ⟨_, hl.symm, ?_⟩
      rw [← htrim]
      exact (trimmingCharacters_eq_self_iff _).mp htrim.symm
    · rw [← h field, lookup_record_loaded, if_neg hf]
  · rintro ⟨hin, hout⟩ field
    rw [lookup_record_loaded]
    split
    · next hf =>
      obtain ⟨text, htext, htight⟩ := hin field hf
      rw [htext, hstring field text htext, (trimmingCharacters_eq_self_iff text).mpr htight]
    · next hf => exact (hout field hf).symm

end UserViewController

/-! ## Update without an edit -/

/-- How far the load of the profile is when Update is pressed. -/
inductive Load
  | waiting
  | failed
  | filled

/-- The form that nobody has edited. -/
def UserViewController.unedited (load : Load) (profile : Option Record) : UserViewController :=
  match load with
  | .filled => loaded profile
  | _ => storyboard

/-- When an unedited Update is harmless; `accepted` is the server's verdict on the write. -/
def Harmless (db : Database) (u : Uid) (account : Account) (ok : AuthCall → Bool) (accepted : Bool) :
    Load → Prop
  | .filled => accepted = false ∨ (∃ text ∈ (UserViewController.loaded (db.users u)).texts, Blank text) ∨
      ExactProfile (db.users u)
  | _ => (accepted = false ∨
        ∀ field, db.profileField u field = UserViewController.storyboard.record.lookup field) ∧
      (account.email = "username@example.com" ∨ ok (.updateEmail "username@example.com") = false) ∧
      (account.password = "************" ∨ ok (.updatePassword "************") = false)

/-- What the write of a profile leaves of the fields. -/
theorem profileField_settle (db : Database) (u : Uid) (r : Record) (accepted : Bool) (field : String) :
    (settle db [.setValue (.user u) r] [accepted]).profileField u field =
      if accepted then r.lookup field else db.profileField u field := by
  cases accepted <;>
    simp [settle, Database.profileField, Write.apply, Database.setValue]

/-- What a press of Update with valid texts leaves as it was. -/
theorem update_unchanged_iff (u : Uid) (db : Database) (account : Account) (vc : UserViewController)
    (hvalid : vc.validateFields = none) (response : FormResponse)
    (hpress : vc.updateButton (some (u, account)) = some response) (calls : List AuthCall)
    (hcalls : calls.Perm response.calls) (ok : AuthCall → Bool) (accepted : Bool) :
    ((∀ field, (settle db response.writes [accepted]).profileField u field = db.profileField u field) ∧
      account.complete calls ok = account) ↔
      (accepted = false ∨ ∀ field, db.profileField u field = vc.record.lookup field) ∧
        (account.email = vc.email ∨ ok (.updateEmail vc.email) = false) ∧
        (account.password = vc.password ∨ ok (.updatePassword vc.password) = false) := by
  rw [vc.updateButton_of_valid u account hvalid] at hpress
  cases hpress
  apply and_congr
  · simp only [profileField_settle]
    cases accepted <;> simp [eq_comm]
  · rw [vc.complete_updateCalls account calls hcalls ok]
    obtain ⟨email, password⟩ := account
    simp only [Account.mk.injEq]
    cases ok (.updateEmail vc.email) <;> cases ok (.updatePassword vc.password) <;>
      by_cases he : email = vc.email <;> by_cases hp : password = vc.password <;>
      simp [he, hp, eq_comm]

/-- The storyboard's texts pass the check. -/
theorem validateFields_storyboard : UserViewController.storyboard.validateFields = none := by decide

/-- **When an unedited Update changes nothing.**  `accepted` and `ok` are the verdicts on the write
and on the calls to Firebase Auth, which complete in any order. -/
theorem unedited_update_iff (u : Uid) (db : Database) (account : Account)
    (hmatch : Agrees (db.users u) account) (load : Load) (response : FormResponse)
    (hpress : (UserViewController.unedited load (db.users u)).updateButton (some (u, account)) =
      some response)
    (calls : List AuthCall) (hcalls : calls.Perm response.calls) (ok : AuthCall → Bool)
    (accepted : Bool) :
    ((∀ field, (settle db response.writes [accepted]).profileField u field = db.profileField u field) ∧
      account.complete calls ok = account) ↔ Harmless db u account ok accepted load := by
  have hstoryboard := fun hpress => update_unchanged_iff u db account UserViewController.storyboard
    validateFields_storyboard response hpress calls hcalls ok accepted
  cases load with
  | waiting => exact hstoryboard hpress
  | failed => exact hstoryboard hpress
  | filled =>
    obtain ⟨r, hr, hemail, hpassword⟩ := hmatch
    have hcredentials : account.email = (UserViewController.loaded (db.users u)).email ∧
        account.password = (UserViewController.loaded (db.users u)).password := by
      rw [hr]
      constructor
      · show _ = (asString (r.lookup "email")).getD ""
        rw [hemail]
        rfl
      · show _ = (asString (r.lookup "password")).getD ""
        rw [hpassword]
        rfl
    cases hvalid : (UserViewController.loaded (db.users u)).validateFields with
    | none =>
      rw [update_unchanged_iff u db account _ hvalid response hpress calls hcalls ok accepted]
      have hexact := UserViewController.record_loaded_eq_iff (db.users u)
      have hblank := (UserViewController.validateFields_eq_none_iff _).mp hvalid
      have hno : ¬ ∃ text ∈ (UserViewController.loaded (db.users u)).texts, Blank text :=
        fun ⟨text, htext, hb⟩ => hblank text htext hb
      simp only [Harmless, hcredentials.1, hcredentials.2, true_or, and_true, hno, false_or,
        ← hexact, Database.profileField, eq_comm]
    | some error =>
      -- the alert is all that happens
      have hresponse : response = { alert := some ("Error", error) } := by
        simp only [UserViewController.updateButton, UserViewController.unedited, hvalid] at hpress
        exact (Option.some.inj hpress).symm
      subst hresponse
      have hblank : ∃ text ∈ (UserViewController.loaded (db.users u)).texts, Blank text := by
        by_contra hno
        have hnone := (UserViewController.validateFields_eq_none_iff _).mpr
          fun text htext hb => hno ⟨text, htext, hb⟩
        rw [hvalid] at hnone
        cases hnone
      rw [List.Perm.eq_nil hcalls]
      exact ⟨fun _ => Or.inr (Or.inl hblank), fun _ => ⟨fun _ => rfl, rfl⟩⟩

/-- A member with a profile and the credentials in it. -/
def annForm : UserViewController := ⟨"Ann", "Lee", "ann@mail.org", "+1 555 0100", "tulip7"⟩

def ann : Account := ⟨"ann@mail.org", "tulip7"⟩

def annProfile : Database := Database.empty.setValue (.user "u") (some annForm.record)

theorem annProfile_agrees : Agrees (annProfile.users "u") ann := ⟨annForm.record, rfl, rfl, rfl⟩

theorem annProfile_exact : ExactProfile (annProfile.users "u") := by
  rw [← UserViewController.record_loaded_eq_iff]
  exact fun field => rfl

/-- After the load Update writes back what is there. -/
theorem unedited_update_iff_ann :
    (settle annProfile [.setValue (.user "u") annForm.record] [true]).profileField "u" "email" =
        annProfile.profileField "u" "email" ∧
      ann.complete [.updatePassword "tulip7"] (fun _ => true) = ann :=
  ((unedited_update_iff "u" annProfile ann annProfile_agrees .filled _ rfl _ (List.Perm.refl _)
    (fun _ => true) true).mpr (Or.inr (Or.inr annProfile_exact))).imp_left fun h => h "email"

/-- Update is pressed before the profile has been loaded: the storyboard's texts are saved. -/
theorem unedited_update_overwrites :
    ¬ ∀ (u : Uid) (db : Database) (account : Account) (load : Load) (response : FormResponse)
      (calls : List AuthCall) (ok : AuthCall → Bool) (accepted : Bool),
      Agrees (db.users u) account →
      (UserViewController.unedited load (db.users u)).updateButton (some (u, account)) = some response →
      calls.Perm response.calls →
      (∀ field, (settle db response.writes [accepted]).profileField u field =
        db.profileField u field) ∧ account.complete calls ok = account := by
  intro h
  have hx := (h "u" annProfile ann .waiting _ _ (fun _ => true) true annProfile_agrees rfl
    (List.Perm.refl _)).2
  revert hx
  decide

/-! ## Profile and account after an update -/

/-- Where a credential ends up in both systems: the text that was set is tight, and the text that
was not is, trimmed, what the account had. -/
def Lands (text old : String) (set : Bool) : Prop :=
  if set then Tight text else trimmingCharacters text = old

instance (text old : String) (set : Bool) : Decidable (Lands text old set) :=
  inferInstanceAs (Decidable (if set then _ else _))

theorem lands_iff (text old : String) (set : Bool) :
    Lands text old set ↔ trimmingCharacters text = if set then text else old := by
  unfold Lands
  cases set
  · simp
  · simp [trimmingCharacters_eq_self_iff]

/-- **When profile and account agree after an update.**  The write is accepted, the calls complete
in any order, those of `ok` successfully. -/
theorem profile_agrees_iff (u : Uid) (db : Database) (account : Account) (vc : UserViewController)
    (hvalid : vc.validateFields = none) (response : FormResponse)
    (hpress : vc.updateButton (some (u, account)) = some response) (calls : List AuthCall)
    (hcalls : calls.Perm response.calls) (ok : AuthCall → Bool) :
    Agrees ((applyAll db response.writes).users u) (account.complete calls ok) ↔
      Lands vc.email account.email (account.email ≠ vc.email ∧ ok (.updateEmail vc.email)) ∧
      Lands vc.password account.password (ok (.updatePassword vc.password)) := by
  rw [vc.updateButton_of_valid u account hvalid] at hpress
  cases hpress
  have hprofile : (applyAll db [.setValue (.user u) vc.record]).users u = some vc.record := by
    simp [Write.apply, Database.setValue]
  rw [hprofile, vc.complete_updateCalls account calls hcalls ok, lands_iff, lands_iff]
  simp only [decide_eq_true_eq]
  constructor
  · rintro ⟨r, hr, hemail, hpassword⟩
    cases hr
    exact ⟨Value.str.inj (Option.some.inj hemail), Value.str.inj (Option.some.inj hpassword)⟩
  · rintro ⟨hemail, hpassword⟩
    exact ⟨vc.record, rfl, congrArg (fun text => some (Value.str text)) hemail,
      congrArg (fun text => some (Value.str text)) hpassword⟩

theorem profile_agrees_iff_ann :
    Agrees ((applyAll annProfile [.setValue (.user "u") annForm.record]).users "u")
      (ann.complete [.updatePassword "tulip7"] fun _ => true) :=
  (profile_agrees_iff "u" annProfile ann annForm (by decide) _ rfl _ (List.Perm.refl _)
    fun _ => true).mpr (by decide)

/-- A blank after the new password: the account keeps it, the profile does not. -/
theorem profile_disagrees :
    ¬ ∀ (u : Uid) (db : Database) (account : Account) (vc : UserViewController)
      (response : FormResponse) (calls : List AuthCall) (ok : AuthCall → Bool),
      Agrees (db.users u) account → vc.validateFields = none →
      vc.updateButton (some (u, account)) = some response → calls.Perm response.calls →
      Agrees ((applyAll db response.writes).users u) (account.complete calls ok) := by
  intro h
  obtain ⟨r, hr, -, hpassword⟩ := h "u" annProfile ann { annForm with password := "tulip8 " } _ _
    (fun _ => true) annProfile_agrees (by decide) rfl (List.Perm.refl _)
  cases hr
  revert hpassword
  decide

/-! ## Signing in with the texts that were typed -/

/-- An accepted update; `none` where validation refuses it. -/
def Account.update (u : Uid) (account : Account) (vc : UserViewController) : Option Account :=
  match vc.validateFields with
  | some _ => none
  | none => (vc.updateButton (some (u, account))).map fun response =>
      account.complete response.calls fun _ => true

/-- The account then has the texts as they were typed. -/
theorem Account.update_eq_some_iff (u : Uid) (account account' : Account) (vc : UserViewController) :
    account.update u vc = some account' ↔
      vc.validateFields = none ∧ account' = ⟨vc.email, vc.password⟩ := by
  unfold update
  cases hvalid : vc.validateFields with
  | some error => simp
  | none =>
    rw [vc.updateButton_of_valid u account hvalid]
    simp only [Option.map_some, Option.some.injEq,
      vc.complete_updateCalls account _ (List.Perm.refl _), and_true, if_true, true_and]
    rw [eq_comm]
    by_cases he : account.email = vc.email
    · simp [he]
    · simp [he]

/-- The sign-in form with the texts last typed into the sign-up or the profile form. -/
def SignInViewController.retyped (signUp : SignUpViewController) (updates : List UserViewController) :
    SignInViewController :=
  match updates.getLast? with
  | some vc => ⟨vc.email, vc.password⟩
  | none => ⟨signUp.email, signUp.password⟩

/-- Texts that are not blank go to Firebase Auth trimmed. -/
theorem SignInViewController.signs_in_iff (vc : SignInViewController) (account : Account)
    (hemail : ¬ Blank vc.email) (hpassword : ¬ Blank vc.password) :
    (vc.validateFields = none ∧
      vc.signinButton.calls = [.signIn account.email account.password]) ↔
      trimmingCharacters vc.email = account.email ∧ trimmingCharacters vc.password = account.password := by
  have hvalid : vc.validateFields = none := by
    rw [validateFields, validateTexts_eq_none_iff]
    intro text htext
    simp only [List.mem_cons, List.not_mem_nil, or_false] at htext
    rcases htext with rfl | rfl
    · exact hemail
    · exact hpassword
  simp [signinButton, hvalid]

/-- A sign-up that creates an account has credentials that are not blank, and gives them trimmed. -/
theorem SignUpViewController.created_account (vc : SignUpViewController) (account : Account)
    (h : vc.signUpButton.calls.filterMap AuthCall.creates = [account]) :
    ¬ Blank vc.email ∧ ¬ Blank vc.password ∧
      account = ⟨trimmingCharacters vc.email, trimmingCharacters vc.password⟩ := by
  cases hvalid : vc.validateFields with
  | some error => simp [signUpButton, hvalid] at h
  | none =>
    have hblank := (validateTexts_eq_none_iff _).mp hvalid
    simp only [signUpButton, hvalid, List.filterMap_cons, AuthCall.creates, List.filterMap_nil,
      List.cons.injEq, and_true] at h
    exact ⟨hblank _ (by simp), hblank _ (by simp), h.symm⟩

/-- **When the typed texts sign in.**  After a sign-up and any number of updates, all accepted. -/
theorem sign_in_iff (u : Uid) (signUp : SignUpViewController) (account₀ : Account)
    (hsignUp : signUp.signUpButton.calls.filterMap AuthCall.creates = [account₀])
    (updates : List UserViewController) (account : Account)
    (hr : run (Account.update u) account₀ updates = some account) :
    ((SignInViewController.retyped signUp updates).validateFields = none ∧
      (SignInViewController.retyped signUp updates).signinButton.calls =
        [.signIn account.email account.password]) ↔
      ∀ vc, updates.getLast? = some vc → Tight vc.email ∧ Tight vc.password := by
  cases updates using List.reverseRecOn with
  | nil =>
    -- sign-up trims as sign-in does
    cases hr
    obtain ⟨hemail, hpassword, haccount⟩ := signUp.created_account account₀ hsignUp
    have hretyped : SignInViewController.retyped signUp [] = ⟨signUp.email, signUp.password⟩ := rfl
    rw [hretyped, SignInViewController.signs_in_iff ⟨signUp.email, signUp.password⟩ account₀ hemail
      hpassword, haccount]
    simp
  | append_singleton updates vc =>
    -- the last update alone decides
    obtain ⟨account', -, hstep⟩ := (run_snoc _ _ _ _ _).mp hr
    obtain ⟨hvalid, rfl⟩ := (account'.update_eq_some_iff u account vc).mp hstep
    have hblank := (vc.validateFields_eq_none_iff).mp hvalid
    have hemail : ¬ Blank vc.email := hblank _ (by simp [UserViewController.texts])
    have hpassword : ¬ Blank vc.password := hblank _ (by simp [UserViewController.texts])
    have hretyped : SignInViewController.retyped signUp (updates ++ [vc]) =
        ⟨vc.email, vc.password⟩ := by
      simp [SignInViewController.retyped]
    rw [hretyped, SignInViewController.signs_in_iff ⟨vc.email, vc.password⟩ _ hemail hpassword,
      trimmingCharacters_eq_self_iff, trimmingCharacters_eq_self_iff]
    simp

def annSignUp : SignUpViewController := ⟨"Ann", "Lee", " ann@mail.org", "+1 555 0100", "tulip7"⟩

/-- The blank before the e-mail does no harm at sign-up. -/
theorem sign_in_iff_ann :
    (SignInViewController.retyped annSignUp [annForm]).signinButton.calls =
      [.signIn "ann@mail.org" "tulip7"] :=
  ((sign_in_iff "u" annSignUp ann rfl [annForm] ann rfl).mpr
    (by rintro vc ⟨⟩; decide)).2

/-- A blank after the password that an update has set: signing in sends it without. -/
theorem sign_in_refused :
    ¬ ∀ (u : Uid) (signUp : SignUpViewController) (account₀ account : Account)
      (updates : List UserViewController),
      signUp.signUpButton.calls.filterMap AuthCall.creates = [account₀] →
      run (Account.update u) account₀ updates = some account →
      (SignInViewController.retyped signUp updates).validateFields = none ∧
        (SignInViewController.retyped signUp updates).signinButton.calls =
          [.signIn account.email account.password] := by
  intro h
  have hx := (h "u" annSignUp ann _ [{ annForm with password := "tulip8 " }] rfl rfl).2
  revert hx
  decide

end FlowerGift
