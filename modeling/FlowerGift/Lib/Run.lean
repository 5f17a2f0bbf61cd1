import Mathlib.Data.List.Induction

/-!
# Runs of a partial step function

`run step s tr` performs the actions of `tr` one after the other; it is `none`
as soon as an action is not possible (the step function answers `none`).

* `run_induction`: what holds of the start with the empty trace, and is passed
  on by one more action, holds of every run (a fact about trace and state).
* `run_invariant`: the same for a fact about the state only.
* `Always step C s tr`: every step of the run is taken where `C` allows it, and
  `run_induction_of_always` is the induction along such runs.
* `Throughout step s P tr`: `P` holds in every state of the run; `throughout_iff_always` turns a fact
  that a step keeps exactly under `C` into one about whole runs.
* `throughout_iff_count` is the same for a fact that the number of certain actions so far decides.
* `Once step s P tr`: `P` held at some time of the run.
* `run_drain`: an action that uses up one of finitely many things can be repeated until none is left.
* `withHistory step h`: the same runs with a history variable, updated by `h`
  from the state before, the action and the state after.  It reads the run and
  never steers it (`run_withHistory`, `exists_withHistory`).
-/

namespace Realtime

variable {σ α η : Type}

def run (step : σ → α → Option σ) : σ → List α → Option σ
  | s, [] => some s
  | s, a :: tr => (step s a).bind fun s' => run step s' tr

theorem run_append (step : σ → α → Option σ) (s : σ) (tr₁ tr₂ : List α) :
    run step s (tr₁ ++ tr₂) = (run step s tr₁).bind fun s' => run step s' tr₂ := by
  induction tr₁ generalizing s with
  | nil => rfl
  | cons a tr ih =>
    simp only [List.cons_append, run]
    cases step s a with
    | none => rfl
    | some s' => exact ih s'

theorem run_snoc (step : σ → α → Option σ) (s s' : σ) (tr : List α) (a : α) :
    run step s (tr ++ [a]) = some s' ↔ ∃ t, run step s tr = some t ∧ step t a = some s' := by
  rw [run_append, Option.bind_eq_some_iff]
  simp [run]

/-- Induction along a run: `P tr s` speaks of the actions so far and the state they lead to. -/
theorem run_induction (step : σ → α → Option σ) (s₀ : σ) (P : List α → σ → Prop) (h₀ : P [] s₀)
    (hstep : ∀ tr s a s', run step s₀ tr = some s → P tr s → step s a = some s' → P (tr ++ [a]) s') :
    ∀ tr s, run step s₀ tr = some s → P tr s := by
  intro tr
  induction tr using List.reverseRecOn with
  | nil =>
    intro s hr
    cases hr
    exact h₀
  | append_singleton tr a ih =>
    intro s' hr
    obtain ⟨s, hs, ha⟩ := (run_snoc step s₀ s' tr a).mp hr
    exact hstep tr s a s' hs (ih s hs) ha

/-- A fact of the start state that every step keeps holds in every state reached. -/
theorem run_invariant (step : σ → α → Option σ) (Inv : σ → Prop)
    (hstep : ∀ s a s', Inv s → step s a = some s' → Inv s') (s₀ : σ) (h₀ : Inv s₀) (tr : List α)
    (s : σ) (hr : run step s₀ tr = some s) : Inv s :=
  run_induction step s₀ (fun _ => Inv) h₀ (fun _ s a s' _ hi ha => hstep s a s' hi ha) tr s hr

/-- An action that is possible while there is something left, and uses up one thing each time, can be
repeated until nothing is left. -/
theorem run_drain (step : σ → α → Option σ) (a : α) (size : σ → ℕ) (Inv : σ → Prop)
    (hstep : ∀ s, Inv s → size s ≠ 0 → ∃ s', step s a = some s' ∧ Inv s' ∧ size s = size s' + 1)
    (s : σ) (h : Inv s) :
    ∃ s', run step s (List.replicate (size s) a) = some s' ∧ Inv s' ∧ size s' = 0 := by
  induction hn : size s generalizing s with
  | zero => exact ⟨s, rfl, h, hn⟩
  | succ n ih =>
    obtain ⟨t, hst, ht, hsize⟩ := hstep s h (by omega)
    obtain ⟨s', hr, hs', hz⟩ := ih t ht (by omega)
    refine ⟨s', ?_, hs', hz⟩
    rw [List.replicate_succ, run, hst]
    exact hr

/-! ## Runs whose steps meet a condition -/

/-- Every action of the run is taken in a state that meets `C`. -/
def Always (step : σ → α → Option σ) (C : σ → α → Prop) (s : σ) (tr : List α) : Prop :=
  ∀ tr₁ a tr₂ t, tr = tr₁ ++ a :: tr₂ → run step s tr₁ = some t → C t a

theorem always_nil (step : σ → α → Option σ) (C : σ → α → Prop) (s : σ) : Always step C s [] := by
  intro tr₁ a tr₂ t htr _
  exact absurd htr.symm (List.append_ne_nil_of_right_ne_nil tr₁ (List.cons_ne_nil a tr₂))

theorem always_cons (step : σ → α → Option σ) (C : σ → α → Prop) (s s' : σ) (a : α) (tr : List α)
    (hc : C s a) (hs : step s a = some s') (h : Always step C s' tr) : Always step C s (a :: tr) := by
  intro tr₁ b tr₂ t htr ht
  cases tr₁ with
  | nil =>
    cases htr
    cases ht
    exact hc
  | cons a' tr₁ =>
    cases htr
    rw [run, hs, Option.bind_some] at ht
    exact h tr₁ b tr₂ t rfl ht

/-- A condition on the actions only. -/
theorem always_of_forall (step : σ → α → Option σ) (p : α → Prop) (s : σ) (tr : List α)
    (h : ∀ a ∈ tr, p a) : Always step (fun _ a => p a) s tr := by
  intro tr₁ a tr₂ t htr _
  exact h a (htr ▸ List.mem_append_right _ List.mem_cons_self)

theorem Always.and (step : σ → α → Option σ) (C D : σ → α → Prop) (s : σ) (tr : List α)
    (hc : Always step C s tr) (hd : Always step D s tr) :
    Always step (fun s a => C s a ∧ D s a) s tr :=
  fun tr₁ a tr₂ t htr ht => ⟨hc tr₁ a tr₂ t htr ht, hd tr₁ a tr₂ t htr ht⟩

theorem Always.mono (step : σ → α → Option σ) (C D : σ → α → Prop) (s : σ) (tr : List α)
    (h : ∀ t a, C t a → D t a) (hc : Always step C s tr) : Always step D s tr :=
  fun tr₁ a tr₂ t htr ht => h t a (hc tr₁ a tr₂ t htr ht)

/-- Two conditions that say the same in every state that can be reached. -/
theorem always_congr (step : σ → α → Option σ) (C D : σ → α → Prop) (s : σ)
    (h : ∀ tr t a, run step s tr = some t → (C t a ↔ D t a)) (tr : List α) :
    Always step C s tr ↔ Always step D s tr := by
  constructor
  · intro hc tr₁ a tr₂ t htr ht
    exact (h tr₁ t a ht).mp (hc tr₁ a tr₂ t htr ht)
  · intro hd tr₁ a tr₂ t htr ht
    exact (h tr₁ t a ht).mpr (hd tr₁ a tr₂ t htr ht)

theorem Always.of_append (step : σ → α → Option σ) (C : σ → α → Prop) (s : σ) (tr tr' : List α)
    (h : Always step C s (tr ++ tr')) : Always step C s tr := by
  intro tr₁ a tr₂ t htr ht
  exact h tr₁ a (tr₂ ++ tr') t (by rw [htr, List.append_assoc, List.cons_append]) ht

/-- Two runs in a row. -/
theorem always_append (step : σ → α → Option σ) (C : σ → α → Prop) (s t : σ) (tr tr' : List α)
    (h : Always step C s tr) (hr : run step s tr = some t) (h' : Always step C t tr') :
    Always step C s (tr ++ tr') := by
  induction tr generalizing s with
  | nil =>
    cases hr
    exact h'
  | cons a tr ih =>
    obtain ⟨s', hs, hr⟩ := Option.bind_eq_some_iff.mp hr
    refine always_cons step C s s' a _ (h [] a tr s rfl rfl) hs (ih s' ?_ hr)
    intro tr₁ b tr₂ t' htr ht'
    refine h (a :: tr₁) b tr₂ t' (by rw [htr, List.cons_append]) ?_
    rw [run, hs]
    exact ht'

theorem Always.last (step : σ → α → Option σ) (C : σ → α → Prop) (s t : σ) (tr : List α) (a : α)
    (h : Always step C s (tr ++ [a])) (ht : run step s tr = some t) : C t a :=
  h tr a [] t rfl ht

theorem run_induction_of_always (step : σ → α → Option σ) (C : σ → α → Prop) (s₀ : σ)
    (P : List α → σ → Prop) (h₀ : P [] s₀)
    (hstep : ∀ tr s a s', run step s₀ tr = some s → P tr s → C s a → step s a = some s' →
      P (tr ++ [a]) s') (tr : List α) (s : σ) (hc : Always step C s₀ tr)
    (hr : run step s₀ tr = some s) : P tr s := by
  have h := run_induction step s₀ (fun tr s => Always step C s₀ tr → P tr s) (fun _ => h₀)
    (fun tr s a s' hr ih ha hc => hstep tr s a s' hr (ih (hc.of_append step C s₀ tr [a]))
      (hc.last step C s₀ s tr a hr) ha)
  exact h tr s hr hc

/-- A fact of the start state that every allowed step keeps holds wherever a step is taken. -/
theorem Always.inv (step : σ → α → Option σ) (C : σ → α → Prop) (Inv : σ → Prop) (s : σ)
    (tr : List α) (hc : Always step C s tr) (h₀ : Inv s)
    (hstep : ∀ s a s', Inv s → C s a → step s a = some s' → Inv s') :
    Always step (fun t a => C t a ∧ Inv t) s tr := by
  intro tr₁ a tr₂ t htr ht
  refine ⟨hc tr₁ a tr₂ t htr ht, ?_⟩
  subst htr
  exact run_induction_of_always step C s (fun _ => Inv) h₀
    (fun _ t a t' _ hi ha h => hstep t a t' hi ha h) tr₁ t (hc.of_append step C s tr₁ (a :: tr₂)) ht

/-! ## What holds all along a run -/

/-- `P` holds in every state that the run goes through. -/
def Throughout (step : σ → α → Option σ) (s : σ) (P : σ → Prop) (tr : List α) : Prop :=
  ∀ tr₁ tr₂ t, tr = tr₁ ++ tr₂ → run step s tr₁ = some t → P t

/-- A fact that a step keeps exactly where `C` allows the step holds all along a run iff every step
of it is taken where `C` allows it; `J` is what holds of every run anyway. -/
theorem throughout_iff_always (step : σ → α → Option σ) (J P : σ → Prop) (C : σ → α → Prop) (s₀ : σ)
    (hJ₀ : J s₀) (hJ : ∀ s a s', J s → step s a = some s' → J s') (h₀ : P s₀)
    (hstep : ∀ s a s', J s → P s → step s a = some s' → (P s' ↔ C s a)) (tr : List α) (s : σ)
    (hr : run step s₀ tr = some s) :
    Throughout step s₀ P tr ↔ Always step C s₀ tr := by
  constructor
  · intro h tr₁ a tr₂ t htr ht
    -- the run goes on, so the step from `t` is possible
    rw [htr, run_append, ht, Option.bind_some, run, Option.bind_eq_some_iff] at hr
    obtain ⟨t', hta, -⟩ := hr
    have hP := h tr₁ (a :: tr₂) t htr ht
    have hP' := h (tr₁ ++ [a]) tr₂ t' (by rw [htr, List.append_assoc, List.singleton_append])
      ((run_snoc step s₀ t' tr₁ a).mpr ⟨t, ht, hta⟩)
    exact (hstep t a t' (run_invariant step J hJ s₀ hJ₀ tr₁ t ht) hP hta).mp hP'
  · rintro hc tr₁ tr₂ t rfl ht
    have h : P t ∧ J t := by
      refine run_induction_of_always step C s₀ (fun _ t => P t ∧ J t) ⟨h₀, hJ₀⟩ ?_ tr₁ t
        (hc.of_append step C s₀ tr₁ tr₂) ht
      rintro _ u a u' - ⟨hp, hj⟩ hca hu
      exact ⟨(hstep u a u' hj hp hu).mpr hca, hJ u a u' hj hu⟩
    exact h.1

/-- Every number up to that of the `p` actions is reached by a prefix. -/
theorem exists_prefix_countP (p : α → Bool) (tr : List α) (k : ℕ) (hk : k ≤ tr.countP p) :
    ∃ tr₁ tr₂, tr = tr₁ ++ tr₂ ∧ tr₁.countP p = k := by
  induction tr using List.reverseRecOn with
  | nil => exact ⟨[], [], rfl, (Nat.le_zero.mp hk).symm⟩
  | append_singleton tr a ih =>
    by_cases hlt : k ≤ tr.countP p
    · obtain ⟨tr₁, tr₂, rfl, hcount⟩ := ih hlt
      exact ⟨tr₁, tr₂ ++ [a], List.append_assoc _ _ _, hcount⟩
    · refine ⟨tr ++ [a], [], (List.append_nil _).symm, ?_⟩
      rw [List.countP_append, List.countP_singleton] at hk ⊢
      split at hk
      · next ha =>
        rw [if_pos ha]
        omega
      · omega

/-- Where the number of `p` actions so far decides `P`, it holds all along a run iff it does for every
number up to that of the run. -/
theorem throughout_iff_count (step : σ → α → Option σ) (p : α → Bool) (J : ℕ → σ → Prop)
    (P : σ → Prop) (R : ℕ → Prop) (s₀ : σ) (h₀ : J 0 s₀)
    (hstep : ∀ k s a s', J k s → step s a = some s' → J (k + if p a then 1 else 0) s')
    (hR : ∀ k s, J k s → (P s ↔ R k)) (tr : List α) (s : σ) (hr : run step s₀ tr = some s) :
    Throughout step s₀ P tr ↔ ∀ k, k ≤ tr.countP p → R k := by
  have hJ : ∀ tr t, run step s₀ tr = some t → J (tr.countP p) t := by
    refine run_induction step s₀ (fun tr t => J (tr.countP p) t) h₀ fun tr t a t' _ ht h => ?_
    rw [List.countP_append, List.countP_singleton]
    exact hstep _ t a t' ht h
  constructor
  · intro h k hk
    obtain ⟨tr₁, tr₂, rfl, rfl⟩ := exists_prefix_countP p tr k hk
    rw [run_append, Option.bind_eq_some_iff] at hr
    obtain ⟨t, ht, -⟩ := hr
    exact (hR _ t (hJ tr₁ t ht)).mp (h tr₁ tr₂ t rfl ht)
  · rintro h tr₁ tr₂ t rfl ht
    refine (hR _ t (hJ tr₁ t ht)).mpr (h _ ?_)
    rw [List.countP_append]
    exact Nat.le_add_right _ _

/-! ## What held at some time of a run -/

/-- `P` held in a state that the run went through. -/
def Once (step : σ → α → Option σ) (s : σ) (P : σ → Prop) (tr : List α) : Prop :=
  ∃ tr₁ tr₂ t, tr = tr₁ ++ tr₂ ∧ run step s tr₁ = some t ∧ P t

theorem once_now (step : σ → α → Option σ) (s t : σ) (P : σ → Prop) (tr : List α)
    (hr : run step s tr = some t) (h : P t) : Once step s P tr :=
  ⟨tr, [], t, (List.append_nil tr).symm, hr, h⟩

/-- More actions do not undo it. -/
theorem Once.append (step : σ → α → Option σ) (s : σ) (P : σ → Prop) (tr tr' : List α)
    (h : Once step s P tr) : Once step s P (tr ++ tr') := by
  obtain ⟨tr₁, tr₂, t, rfl, ht, hp⟩ := h
  exact ⟨tr₁, tr₂ ++ tr', t, List.append_assoc _ _ _, ht, hp⟩

/-! ## History variables -/

/-- The step of `step`, with a history variable that `h` updates. -/
def withHistory (step : σ → α → Option σ) (h : σ → α → σ → η → η) :
    σ × η → α → Option (σ × η) :=
  fun sm a => (step sm.1 a).map fun s' => (s', h sm.1 a s' sm.2)

theorem withHistory_eq_some_iff (step : σ → α → Option σ) (h : σ → α → σ → η → η) (s s' : σ)
    (m m' : η) (a : α) :
    withHistory step h (s, m) a = some (s', m') ↔ step s a = some s' ∧ m' = h s a s' m := by
  simp only [withHistory, Option.map_eq_some_iff, Prod.mk.injEq]
  constructor
  · rintro ⟨t, ht, rfl, rfl⟩
    exact ⟨ht, rfl⟩
  · rintro ⟨ht, rfl⟩
    exact ⟨s', ht, rfl, rfl⟩

/-- Forgetting the history variable gives a run of the step function itself. -/
theorem run_withHistory (step : σ → α → Option σ) (h : σ → α → σ → η → η) (s : σ) (m : η)
    (tr : List α) (sm : σ × η) (hr : run (withHistory step h) (s, m) tr = some sm) :
    run step s tr = some sm.1 := by
  refine run_induction (withHistory step h) (s, m) (fun tr sm => run step s tr = some sm.1) rfl ?_
    tr sm hr
  rintro tr ⟨t, n⟩ a ⟨t', n'⟩ - ht ha
  exact (run_snoc step s t' tr a).mpr ⟨t, ht, ((withHistory_eq_some_iff step h t t' n n' a).mp ha).1⟩

/-- Every run carries its history variable. -/
theorem exists_withHistory (step : σ → α → Option σ) (h : σ → α → σ → η → η) (s s' : σ) (m : η)
    (tr : List α) (hr : run step s tr = some s') :
    ∃ m', run (withHistory step h) (s, m) tr = some (s', m') := by
  refine run_induction step s
    (fun tr s' => ∃ m', run (withHistory step h) (s, m) tr = some (s', m')) ⟨m, rfl⟩ ?_ tr s' hr
  rintro tr t a t' - ⟨n, hn⟩ ha
  exact ⟨h t a t' n, (run_snoc _ _ _ _ _).mpr
    ⟨(t, n), hn, (withHistory_eq_some_iff step h t t' n _ a).mpr ⟨ha, rfl⟩⟩⟩

end Realtime
