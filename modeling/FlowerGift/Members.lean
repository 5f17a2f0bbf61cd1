import FlowerGift.Profile

/-!
# The stored profiles

`Members` is the node `users` with the two forms that write to it.  A press of
the sign-up button may start a `createUser` call; the profile is written when it
completes, whatever has happened in between.  An update writes at once.

Both forms check their texts with `validateTexts` and write them trimmed, so a
record under `users` has five texts that are not empty and have no whitespace at
their ends (`Normal`), and a form writes iff none of its texts is blank
(`profiles_normal`).
-/

namespace FlowerGift

open Realtime Texts

/-! ## The texts of a form and its record -/

/-- Some character is neither whitespace nor newline. -/
def Filled (text : String) : Prop := ∃ c ∈ text.toList, isWhitespaceOrNewline c = false

instance (text : String) : Decidable (Filled text) := inferInstanceAs (Decidable (∃ c ∈ _, _))

theorem not_blank_iff (text : String) : ¬ Blank text ↔ Filled text := by
  unfold Blank Filled
  push Not
  simp only [ne_eq, Bool.not_eq_true]

theorem tight_trimmingCharacters (text : String) : Tight (trimmingCharacters text) := by
  unfold Tight trimmingCharacters
  rw [String.toList_ofList]
  exact bare_trim isWhitespaceOrNewline text.toList

/-- The five fields are there, each a text that is not empty and tight. -/
def Normal (r : Record) : Prop :=
  ∀ field ∈ profileFields, ∃ text, r.lookup field = some (.str text) ∧ text ≠ "" ∧ Tight text

theorem normal_profileRecord (firstName lastName phoneNumber email password : String)
    (h : ∀ text ∈ [firstName, lastName, phoneNumber, email, password], Filled text) :
    Normal (profileRecord (trimmingCharacters firstName) (trimmingCharacters lastName)
      (trimmingCharacters phoneNumber) (trimmingCharacters email) (trimmingCharacters password)) := by
  have htext : ∀ text, Filled text →
      trimmingCharacters text ≠ "" ∧ Tight (trimmingCharacters text) := by
    intro text hf
    refine ⟨?_, tight_trimmingCharacters text⟩
    rw [Ne, trimmingCharacters_eq_empty_iff, not_blank_iff]
    exact hf
  simp only [List.mem_cons, List.not_mem_nil, or_false, forall_eq_or_imp, forall_eq] at h
  obtain ⟨h1, h2, h3, h4, h5⟩ := h
  intro field hf
  simp only [profileFields, List.mem_cons, List.not_mem_nil, or_false] at hf
  rcases hf with rfl | rfl | rfl | rfl | rfl
  · exact ⟨_, rfl, htext firstName h1⟩
  · exact ⟨_, rfl, htext lastName h2⟩
  · exact ⟨_, rfl, htext phoneNumber h3⟩
  · exact ⟨_, rfl, htext email h4⟩
  · exact ⟨_, rfl, htext password h5⟩

namespace SignUpViewController

def texts (vc : SignUpViewController) : List String :=
  [vc.fName, vc.lName, vc.email, vc.phoneNumber, vc.password]

theorem calls_ne_nil_iff (vc : SignUpViewController) :
    vc.signUpButton.calls ≠ [] ↔ ∀ text ∈ vc.texts, Filled text := by
  have hvalid : vc.validateFields = none ↔ ∀ text ∈ vc.texts, Filled text := by
    simp only [← not_blank_iff]
    exact validateTexts_eq_none_iff vc.texts
  rw [← hvalid]
  unfold signUpButton
  cases vc.validateFields <;> simp

/-- What the completion of a call writes. -/
theorem writes_created (vc : SignUpViewController) (h : ∀ text ∈ vc.texts, Filled text)
    (result : Except String Uid) (w : Write) (hw : w ∈ (vc.created result).writes) :
    ∃ u r, w = .setValue (.user u) r ∧ Normal r := by
  cases result with
  | error err => exact absurd hw List.not_mem_nil
  | ok u =>
    refine ⟨u, _, List.mem_singleton.mp hw, normal_profileRecord _ _ _ _ _ fun text htext => h text ?_⟩
    simp only [texts, List.mem_cons, List.not_mem_nil, or_false] at htext ⊢
    tauto

end SignUpViewController

namespace UserViewController

theorem validateFields_eq_none_iff_filled (vc : UserViewController) :
    vc.validateFields = none ↔ ∀ text ∈ vc.texts, Filled text := by
  rw [vc.validateFields_eq_none_iff]
  simp only [not_blank_iff]

theorem normal_record (vc : UserViewController) (h : ∀ text ∈ vc.texts, Filled text) :
    Normal vc.record := by
  refine normal_profileRecord _ _ _ _ _ fun text htext => h text ?_
  simp only [texts, List.mem_cons, List.not_mem_nil, or_false] at htext ⊢
  tauto

end UserViewController

/-! ## The machine -/

structure Members where
  db : Database
  /-- The current user, with the credentials of its account. -/
  user : Option (Uid × Account)
  /-- The presses of the sign-up button: the form while its `createUser` call is on its way. -/
  creating : List (Option SignUpViewController) := []

inductive MemberAction
  | signUpButton (vc : SignUpViewController)
  | created (i : ℕ) (result : Except String Uid)
  | updateButton (vc : UserViewController)
  | signIn (u : Uid) (account : Account)
  | signOut

/-- No completion of the call of press `i`. -/
def MemberAction.spares (i : ℕ) : MemberAction → Prop
  | .created j _ => j ≠ i
  | _ => True

namespace Members

/-- The writes of an action. -/
def issued (s : Members) : MemberAction → List Write
  | .created i result =>
    match s.creating[i]? with
    | some (some vc) => (vc.created result).writes
    | _ => []
  | .updateButton vc =>
    match vc.updateButton s.user with
    | some response => response.writes
    | none => []
  | _ => []

/-- The form that waits for its call, if the press has started one. -/
def pressed (vc : SignUpViewController) : Option SignUpViewController :=
  if vc.signUpButton.calls = [] then none else some vc

/-- A successful `createUser` signs the new user in. -/
def signedUp (s : Members) (vc : SignUpViewController) : Except String Uid → Option (Uid × Account)
  | .error _ => s.user
  | .ok u => some (u, ⟨trimmingCharacters vc.email, trimmingCharacters vc.password⟩)

def step (s : Members) (a : MemberAction) : Option Members :=
  match a with
  | .signUpButton vc => some { s with creating := s.creating ++ [pressed vc] }
  | .created i result => s.creating[i]?.bind fun waiting => waiting.map fun vc =>
      { db := applyAll s.db (s.issued a)
        user := s.signedUp vc result
        creating := s.creating.set i none }
  | .updateButton vc => (vc.updateButton s.user).map fun _ =>
      { s with db := applyAll s.db (s.issued a) }
  | .signIn u account => some { s with user := some (u, account) }
  | .signOut => some { s with user := none }

def start (user : Option (Uid × Account)) (db : Database) : Members := { db, user }

/-- Only filled forms wait for their call. -/
def Sound (s : Members) : Prop :=
  ∀ (i : ℕ) (vc : SignUpViewController), s.creating[i]? = some (some vc) →
    ∀ text ∈ vc.texts, Filled text

theorem pressed_eq_some (vc vc' : SignUpViewController) (h : pressed vc = some vc') :
    vc' = vc ∧ ∀ text ∈ vc.texts, Filled text := by
  unfold pressed at h
  split at h
  · cases h
  · next hcalls =>
    cases h
    exact ⟨rfl, vc.calls_ne_nil_iff.mp hcalls⟩

theorem sound_step (s s' : Members) (a : MemberAction) (h : s.step a = some s') (hs : Sound s) :
    Sound s' := by
  cases a with
  | signUpButton vc =>
    cases h
    intro i vc' hvc'
    rw [List.getElem?_append] at hvc'
    split at hvc'
    · exact hs i vc' hvc'
    · obtain ⟨rfl, hfilled⟩ := pressed_eq_some vc vc'
        (List.mem_singleton.mp (List.mem_of_getElem? hvc')).symm
      exact hfilled
  | created j result =>
    obtain ⟨waiting, -, h⟩ := Option.bind_eq_some_iff.mp h
    obtain ⟨vc, -, rfl⟩ := Option.map_eq_some_iff.mp h
    intro i vc' hvc'
    rw [List.getElem?_set] at hvc'
    split at hvc'
    · split at hvc' <;> cases hvc'
    · exact hs i vc' hvc'
  | updateButton vc =>
    obtain ⟨response, -, rfl⟩ := Option.map_eq_some_iff.mp h
    exact hs
  | signIn u account =>
    cases h
    exact hs
  | signOut =>
    cases h
    exact hs

/-- Every write is a normal record under `users`. -/
theorem writes_normal (s : Members) (hs : Sound s) (a : MemberAction) (w : Write)
    (hw : w ∈ s.issued a) : ∃ u r, w = .setValue (.user u) r ∧ Normal r := by
  cases a with
  | created i result =>
    simp only [issued] at hw
    split at hw
    · next vc hvc => exact vc.writes_created (hs i vc hvc) result w hw
    · exact absurd hw List.not_mem_nil
  | updateButton vc =>
    simp only [issued] at hw
    split at hw
    · next response hpress =>
      unfold UserViewController.updateButton at hpress
      split at hpress
      · cases hpress
        exact absurd hw List.not_mem_nil
      · next hvalid =>
        obtain ⟨⟨u, account⟩, -, rfl⟩ := Option.map_eq_some_iff.mp hpress
        exact ⟨u, vc.record, List.mem_singleton.mp hw,
          vc.normal_record (vc.validateFields_eq_none_iff_filled.mp hvalid)⟩
    · exact absurd hw List.not_mem_nil
  | _ => exact absurd hw List.not_mem_nil

theorem db_step (s s' : Members) (a : MemberAction) (h : s.step a = some s') :
    s'.db = applyAll s.db (s.issued a) := by
  cases a with
  | created i result =>
    obtain ⟨waiting, -, h⟩ := Option.bind_eq_some_iff.mp h
    obtain ⟨vc, -, rfl⟩ := Option.map_eq_some_iff.mp h
    rfl
  | updateButton vc =>
    obtain ⟨response, -, rfl⟩ := Option.map_eq_some_iff.mp h
    rfl
  | _ => cases h; rfl

/-- Every record under `users` was there before or is normal. -/
def Stored (db : Database) (s : Members) : Prop :=
  ∀ u r, s.db.users u = some r → db.users u = some r ∨ Normal r

theorem stored_applyAll (db db' : Database) (ws : List Write)
    (hws : ∀ w ∈ ws, ∃ u r, w = .setValue (.user u) r ∧ Normal r)
    (h : ∀ u r, db'.users u = some r → db.users u = some r ∨ Normal r) :
    ∀ u r, (applyAll db' ws).users u = some r → db.users u = some r ∨ Normal r := by
  induction ws generalizing db' with
  | nil => exact h
  | cons w ws ih =>
    refine ih (w.apply db') (fun w' hw' => hws w' (List.mem_cons_of_mem _ hw')) fun u r hr => ?_
    obtain ⟨u', r', rfl, hnormal⟩ := hws w List.mem_cons_self
    simp only [Write.apply, Database.setValue, Function.update_apply] at hr
    split at hr
    · cases hr
      exact Or.inr hnormal
    · exact h u r hr

theorem stored_step (db : Database) (s s' : Members) (a : MemberAction) (h : s.step a = some s')
    (hs : Sound s) (hdb : Stored db s) : Stored db s' := by
  unfold Stored
  rw [db_step s s' a h]
  exact stored_applyAll db s.db _ (s.writes_normal hs a) hdb

/-! ## The call of a press -/

/-- What press `i` has started waits until it completes. -/
theorem waits_step (s s' : Members) (a : MemberAction) (i : ℕ) (waiting : Option SignUpViewController)
    (h : s.step a = some s') (ha : a.spares i) (hi : s.creating[i]? = some waiting) :
    s'.creating[i]? = some waiting := by
  cases a with
  | signUpButton vc =>
    cases h
    rw [List.getElem?_append_left (List.getElem?_eq_some_iff.mp hi).1, hi]
  | created j result =>
    obtain ⟨waiting', -, h⟩ := Option.bind_eq_some_iff.mp h
    obtain ⟨vc, -, rfl⟩ := Option.map_eq_some_iff.mp h
    rw [List.getElem?_set_ne ha, hi]
  | updateButton vc =>
    obtain ⟨response, -, rfl⟩ := Option.map_eq_some_iff.mp h
    exact hi
  | signIn u account =>
    cases h
    exact hi
  | signOut =>
    cases h
    exact hi

theorem waits_run (s s' : Members) (vc : SignUpViewController) (tr : List MemberAction)
    (t : Members) (h : s.step (.signUpButton vc) = some s') (hr : run step s' tr = some t)
    (htr : ∀ a ∈ tr, a.spares s.creating.length) :
    t.creating[s.creating.length]? = some (pressed vc) := by
  cases h
  refine run_induction_of_always step (fun _ (a : MemberAction) => a.spares s.creating.length) _
    (fun _ t => t.creating[s.creating.length]? = some (pressed vc)) List.getElem?_concat_length ?_ tr t
    (always_of_forall step _ _ tr htr) hr
  rintro _ x a x' - hx ha hstep
  exact waits_step x x' a _ _ hstep ha hx

/-- An update writes iff the texts are filled and somebody is signed in. -/
theorem issued_updateButton_iff (s : Members) (vc : UserViewController) :
    s.issued (.updateButton vc) ≠ [] ↔ (∀ text ∈ vc.texts, Filled text) ∧ s.user ≠ none := by
  rw [← vc.validateFields_eq_none_iff_filled]
  simp only [issued, UserViewController.updateButton]
  cases hvalid : vc.validateFields with
  | some error => simp
  | none =>
    cases hu : s.user with
    | none => simp
    | some member => simp

/-- A completion writes iff the call was started and has succeeded. -/
theorem issued_created_iff (s : Members) (vc : SignUpViewController) (i : ℕ)
    (result : Except String Uid) (hi : s.creating[i]? = some (pressed vc)) :
    s.issued (.created i result) ≠ [] ↔
      (∀ text ∈ vc.texts, Filled text) ∧ ∃ u, result = .ok u := by
  rw [← vc.calls_ne_nil_iff]
  simp only [issued, hi, pressed]
  by_cases hcalls : vc.signUpButton.calls = []
  · simp [hcalls]
  · cases result with
    | error err => simp [hcalls, SignUpViewController.created]
    | ok u => simp [hcalls, SignUpViewController.created]

end Members

/-- **Stored profiles are complete and trimmed.**  In every run every write of the forms stores a normal
record, so that every record under `users` is normal unless it was there at the start; an update writes
iff its five texts are filled and somebody is signed in, and a press of the sign-up button, whenever
its call completes, iff its five texts are filled and the account was created. -/
theorem profiles_normal (user : Option (Uid × Account)) (db : Database) (tr : List MemberAction)
    (s : Members) (hr : run Members.step (Members.start user db) tr = some s) :
    (∀ a, ∀ w ∈ s.issued a, ∃ u r, w = .setValue (.user u) r ∧ Normal r) ∧
    (∀ u r, s.db.users u = some r → db.users u = some r ∨ Normal r) ∧
    (∀ vc : UserViewController, s.issued (.updateButton vc) ≠ [] ↔
      (∀ text ∈ vc.texts, Filled text) ∧ s.user ≠ none) ∧
    ∀ (vc : SignUpViewController) (s' : Members) (tr' : List MemberAction) (t : Members)
      (result : Except String Uid), s.step (.signUpButton vc) = some s' →
      run Members.step s' tr' = some t →
      (∀ a ∈ tr', a.spares s.creating.length) →
      (t.issued (.created s.creating.length result) ≠ [] ↔
        (∀ text ∈ vc.texts, Filled text) ∧ ∃ u, result = .ok u) := by
  obtain ⟨hsound, hstored⟩ : Members.Sound s ∧ Members.Stored db s := by
    refine run_invariant Members.step (fun s => Members.Sound s ∧ Members.Stored db s) ?_ _ ?_ tr s hr
    · rintro t a t' ⟨hsound, hstored⟩ h
      exact ⟨Members.sound_step t t' a h hsound, Members.stored_step db t t' a h hsound hstored⟩
    · exact ⟨fun i vc hvc => (nomatch hvc), fun u r hu => Or.inl hu⟩
  refine ⟨fun a w hw => s.writes_normal hsound a w hw, hstored, s.issued_updateButton_iff, ?_⟩
  intro vc s' tr' t result h hr' htr'
  exact t.issued_created_iff vc _ result (Members.waits_run s s' vc tr' t h hr' htr')

/-- Ann signs up, changes her profile and is the only one with a record. -/
theorem profiles_normal_ann :
    ∃ s, run Members.step (Members.start none Database.empty)
        [.signUpButton annSignUp, .created 0 (.ok "u"), .updateButton { annForm with phone := " 7 " }] =
          some s ∧ (s.db.users "u").bind (·.lookup "phoneNumber") = some (.str "7") ∧
      ∀ r, s.db.users "u" = some r → Normal r := by
  refine ⟨_, rfl, by decide, fun r hr => ?_⟩
  have h := (profiles_normal none Database.empty [.signUpButton annSignUp, .created 0 (.ok "u"),
    .updateButton { annForm with phone := " 7 " }] _ rfl).2.1 "u" r hr
  exact h.resolve_left nofun

end FlowerGift
