import FlowerGift.Healing

/-!
# What a cart screen displays

The rows of the collection view and the label change in the callbacks only: a
tick empties the list and refreshes nothing.  From a tick on a screen therefore
displays what it did before until the first callback, and from then on its list
(`Refreshed`).  Once everything has settled the list is `cart/u`
(`View.shown_after_tick`), so the display is right iff the cart has an entry to
call back for, or nothing has ever been displayed (`display_settles_iff`).
-/

namespace FlowerGift

open Realtime

/-- The events that change the user. -/
def ShopEvent.switches : ShopEvent → Bool
  | .app a => a.switches
  | .stored _ _ _ => false

theorem Database.cartProducts_values_eq_nil_iff (db : Database) (u : Uid) :
    (db.cartProducts u).values = [] ↔ db.cart u = ∅ := by
  rw [cartProducts, SortedMap.values_mapVal, List.map_eq_nil_iff, SortedMap.values_eq_nil_iff]

namespace Shop

/-- Screen `i` displays an entry. -/
def Displays (i : ℕ) (s : Shop) : Prop := ∃ vc, s.cartScreens[i]? = some vc ∧ vc.rows ≠ []

/-- The rows are the entries of `cart/u`, and the label is their sum if anything was ever `shown`. -/
def DisplaysCart (u : Uid) (i : ℕ) (shown : Prop) (s : Shop) : Prop :=
  ∃ vc, s.cartScreens[i]? = some vc ∧ vc.rows = (s.db.cartProducts u).values ∧
    (shown → vc.subTotalLabel = "$" ++ toString ((s.db.cartProducts u).values.map (·.subTotal)).sum)

/-- No tick of screen `i` and no change of `cart/u`. -/
def Resting (u : Uid) (i : ℕ) (s : Shop) (e : ShopEvent) : Prop :=
  e ≠ .app (.tick i) ∧ ∀ s', s.stepAny e = some s' → s'.db.cart u = s.db.cart u

/-- A record stored at a cart entry, or taken from it, is one write. -/
theorem stepAny_stored (s s' : Shop) (u : Uid) (k : Key) (value : Option Record)
    (h : s.stepAny (.stored u k value) = some s') : ∃ w : Write, s' = s.write w := by
  cases value with
  | some value => exact ⟨_, (Option.some.inj h).symm⟩
  | none => exact ⟨_, (Option.some.inj h).symm⟩

theorem displays_iff (i : ℕ) (s : Shop) (vc : CartViewController)
    (hvc : s.cartScreens[i]? = some vc) : Displays i s ↔ vc.rows ≠ [] := by
  unfold Displays
  simp only [hvc, Option.some.injEq, exists_eq_left']

theorem alone_stepAny (u : Uid) (s s' : Shop) (e : ShopEvent) (he : e.switches = false)
    (h : s.stepAny e = some s') (hs : Alone u s) : Alone u s' := by
  cases e with
  | app a => exact alone_step u s s' a he h hs
  | stored u' k value =>
    obtain ⟨w, rfl⟩ := stepAny_stored s s' u' k value h
    refine ⟨hs.user, ?_⟩
    rw [(s.write_frame w).2.2.2.2]
    exact hs.listeners

theorem alone_run (u : Uid) (db : Database) (tr : List ShopEvent) (s : Shop)
    (htr : ∀ e ∈ tr, e.switches = false) (hr : run stepAny (start (some u) db) tr = some s) :
    Alone u s :=
  run_induction_of_always stepAny (fun _ e => e.switches = false) _ (fun _ t => Alone u t)
    ⟨rfl, fun _ hl => absurd hl List.not_mem_nil⟩
    (fun _ t e t' _ ht he h => alone_stepAny u t t' e he h ht) tr s
    (always_of_forall stepAny (fun e => ShopEvent.switches e = false) _ tr htr) hr

/-! ## One screen -/

/-- A step that is no tick of screen `i` leaves it alone or delivers to it. -/
theorem screen_stepAny (i : ℕ) (s s' : Shop) (e : ShopEvent) (he : e ≠ .app (.tick i))
    (h : s.stepAny e = some s') (vc : CartViewController) (hvc : s.cartScreens[i]? = some vc) :
    s'.cartScreens[i]? = some vc ∨ ∃ values, s'.cartScreens[i]? = some (vc.childAdded values) := by
  have hi : i < s.cartScreens.length := (List.getElem?_eq_some_iff.mp hvc).1
  cases e with
  | stored u k value =>
    obtain ⟨w, rfl⟩ := stepAny_stored s s' u k value h
    exact Or.inl hvc
  | app a =>
    cases effect_of_step s s' a h with
    | openCart =>
      left
      rw [List.getElem?_append_left hi, hvc]
    | tick j vc' hvc' =>
      left
      rw [List.getElem?_set_ne (by rintro rfl; exact he rfl), hvc]
    | callback e hub vc' hd hvc' =>
      by_cases hj : e.target = i
      · subst hj
        rw [hvc] at hvc'
        cases hvc'
        exact Or.inr ⟨e.value, List.getElem?_set_self hi⟩
      · left
        rw [List.getElem?_set_ne hj, hvc]
    | commit a ha =>
      left
      rw [cartScreens_commit, hvc]
    | _ => exact Or.inl hvc

/-- Rows are replaced, never taken away. -/
theorem displays_step (i : ℕ) (s s' : Shop) (e : ShopEvent) (h : s.stepAny e = some s')
    (hs : Displays i s) : Displays i s' := by
  obtain ⟨vc, hvc, hrows⟩ := hs
  by_cases he : e = .app (.tick i)
  · subst he
    obtain ⟨vc', hvc', rfl⟩ := Option.map_eq_some_iff.mp h
    rw [hvc] at hvc'
    cases hvc'
    exact ⟨vc.tick, List.getElem?_set_self (List.getElem?_eq_some_iff.mp hvc).1, hrows⟩
  · rcases screen_stepAny i s s' e he h vc hvc with hvc' | ⟨values, hvc'⟩
    · exact ⟨vc, hvc', hrows⟩
    · exact ⟨_, hvc', List.append_ne_nil_of_right_ne_nil _ (List.cons_ne_nil _ _)⟩

theorem displays_run (i : ℕ) (s s' : Shop) (tr : List ShopEvent) (hr : run stepAny s tr = some s')
    (hs : Displays i s) : Displays i s' :=
  run_invariant stepAny (Displays i) (fun t e t' ht h => displays_step i t t' e h ht) s hs tr s' hr

/-- Something has been displayed iff something still is. -/
theorem once_displays_iff (i : ℕ) (s s' : Shop) (tr : List ShopEvent)
    (hr : run stepAny s tr = some s') : Once stepAny s (Displays i) tr ↔ Displays i s' := by
  constructor
  · rintro ⟨tr₁, tr₂, t, rfl, ht, hd⟩
    rw [run_append, ht] at hr
    exact displays_run i t s' tr₂ hr hd
  · exact once_now stepAny s s' (Displays i) tr hr

/-- Since the tick of `vc₀`: nothing came and the display is still that of `vc₀`, or it is that of
the list. -/
inductive Refreshed (vc₀ vc : CartViewController) : Prop
  | waiting (hproducts : vc.products = []) (hrows : vc.rows = vc₀.rows)
  | shown (hproducts : vc.products ≠ []) (hrows : vc.rows = vc.products)
    (hlabel : vc.subTotalLabel = "$" ++ toString vc.total)

theorem refreshed_tick (vc₀ : CartViewController) : Refreshed vc₀ vc₀.tick := .waiting rfl rfl

theorem refreshed_childAdded (vc₀ vc : CartViewController) (values : Record) :
    Refreshed vc₀ (vc.childAdded values) :=
  .shown (List.append_ne_nil_of_right_ne_nil _ (List.cons_ne_nil _ _)) rfl rfl

theorem refreshed_run (i : ℕ) (vc₀ : CartViewController) (s s' : Shop) (tr : List ShopEvent)
    (hs : s.cartScreens[i]? = some vc₀.tick)
    (hc : Always stepAny (fun _ e => e ≠ .app (.tick i)) s tr) (hr : run stepAny s tr = some s') :
    ∃ vc, s'.cartScreens[i]? = some vc ∧ Refreshed vc₀ vc := by
  refine run_induction_of_always stepAny (fun _ e => e ≠ .app (.tick i)) s
    (fun _ t => ∃ vc, t.cartScreens[i]? = some vc ∧ Refreshed vc₀ vc)
    ⟨_, hs, refreshed_tick vc₀⟩ ?_ tr s' hc hr
  rintro _ t e t' - ⟨vc, hvc, hrefreshed⟩ he h
  rcases screen_stepAny i t t' e he h vc hvc with hvc' | ⟨values, hvc'⟩
  · exact ⟨vc, hvc', hrefreshed⟩
  · exact ⟨_, hvc', refreshed_childAdded vc₀ vc values⟩

/-! ## The list -/

/-- While `u` is alone nobody hears of a write that leaves `cart/u` as it is. -/
theorem hub_write_of_cart_eq (u : Uid) (s : Shop) (w : Write) (hs : Alone u s)
    (hcart : (s.write w).db.cart u = s.db.cart u) : (s.write w).hub = s.hub := by
  simp only [write]
  split
  · next u' k hr =>
    by_cases hu : u' = u
    · subst hu
      have hsame : (w.apply s.db).cart u' = s.db.cart u' := hcart
      rw [hsame, Hub.changed_self]
    · exact Hub.changed_of_deaf _ _ _ _ fun l hl he => hu (he.symm.trans (hs.listeners l hl))
  · rfl

theorem settles_stepAny (u : Uid) (i : ℕ) (s s' : Shop) (e : ShopEvent) (h : s.stepAny e = some s')
    (hs : Alone u s) (he : e ≠ .app (.tick i)) (hcart : s'.db.cart u = s.db.cart u) :
    (s.view u i).Settles (s'.view u i) := by
  cases e with
  | stored u' k value =>
    obtain ⟨w, rfl⟩ := stepAny_stored s s' u' k value h
    have hview : (s.write w).view u i = s.view u i := by
      simp only [view, Database.cartProducts, hcart, hub_write_of_cart_eq u s w hs hcart,
        (s.write_frame w).2.1]
    rw [hview]
    exact .same
  | app a =>
    refine view_settles u i s s' a h (fun ha => he (ha ▸ rfl)) hcart fun hwrites => ?_
    cases effect_of_step s s' a h with
    | commit a ha =>
      rcases issued_setsCart s a with hset | ⟨w, hw⟩
      · exact hub_commit s _ hset
      · rw [hw, commit_singleton] at hcart ⊢
        exact hub_write_of_cart_eq u s w hs hcart
    | _ => cases hwrites

/-- Wherever a step is taken after the tick, `u` is alone and `cart/u` is as it was. -/
theorem resting_alone (u : Uid) (i : ℕ) (s : Shop) (tr : List ShopEvent) (hs : Alone u s)
    (htr : ∀ e ∈ tr, e.switches = false) (hc : Always stepAny (Resting u i) s tr) :
    Always stepAny (fun t e => (Resting u i t e ∧ e.switches = false) ∧
      (Alone u t ∧ t.db.cart u = s.db.cart u)) s tr := by
  refine (hc.and stepAny _ _ s tr (always_of_forall stepAny _ s tr htr)).inv stepAny _
    (fun t => Alone u t ∧ t.db.cart u = s.db.cart u) s tr ⟨hs, rfl⟩ ?_
  rintro t e t' ⟨ht, hcart⟩ ⟨hrest, hswitch⟩ h
  exact ⟨alone_stepAny u t t' e hswitch h ht, (hrest.2 t' h).trans hcart⟩

theorem cart_resting (u : Uid) (i : ℕ) (s s' : Shop) (tr : List ShopEvent)
    (hc : Always stepAny (Resting u i) s tr) (hr : run stepAny s tr = some s') :
    s'.db.cart u = s.db.cart u := by
  refine run_induction_of_always stepAny (Resting u i) s (fun _ t => t.db.cart u = s.db.cart u) rfl
    ?_ tr s' hc hr
  intro _ t e t' _ ht he h
  exact (he.2 t' h).trans ht

/-- The screen once a tick has settled: it lists `cart/u`, and displays that or what it did before. -/
theorem settled_screen (u : Uid) (i : ℕ) (s₁ t s : Shop) (tr : List ShopEvent) (hs₁ : Alone u s₁)
    (hp₁ : s₁.hub.pendingFor i = []) (htick : s₁.stepAny (.app (.tick i)) = some t)
    (htr : ∀ e ∈ tr, e.switches = false) (hc : Always stepAny (Resting u i) t tr)
    (hr : run stepAny t tr = some s) (hp : s.hub.pendingFor i = []) :
    ∃ vc₀ vc, s₁.cartScreens[i]? = some vc₀ ∧ s.cartScreens[i]? = some vc ∧ Refreshed vc₀ vc ∧
      vc.products = (s₁.db.cartProducts u).values := by
  have ht := alone_stepAny u s₁ t (.app (.tick i)) rfl htick hs₁
  obtain ⟨vc₀, hvc₀, rfl⟩ := Option.map_eq_some_iff.mp htick
  have hi : i < s₁.cartScreens.length := (List.getElem?_eq_some_iff.mp hvc₀).1
  obtain ⟨vc, hvc, hrefreshed⟩ := refreshed_run i vc₀ _ s tr (List.getElem?_set_self hi)
    (hc.mono stepAny _ _ _ tr fun _ _ h => h.1) hr
  refine ⟨vc₀, vc, hvc₀, hvc, hrefreshed, ?_⟩
  have hshown : (s.view u i).shown = (s₁.db.cartProducts u).values := by
    refine View.shown_after_tick stepAny _ (fun t => t.view u i) ?_ s₁ _ s tr ?_
      (view_tick_self u i s₁ vc₀ hs₁.user hvc₀) (resting_alone u i _ tr ht htr hc) hr ?_
    · rintro t e t' ⟨⟨hrest, -⟩, halone, -⟩ h
      exact settles_stepAny u i t t' e h halone hrest.1 (hrest.2 t' h)
    · simp only [view, hp₁, List.map_nil]
    · simp only [view, hp, List.map_nil]
  rw [← hshown]
  simp only [view, hvc, Option.map_some, Option.getD_some]

end Shop

/-- **What the cart screen displays.**  In every run of one user, whatever any client stores in the
carts: after a tick that found no callback pending, while `cart/u` rests and once no callback is
pending again, the rows are the entries of `cart/u` and the label, if anything was ever displayed, is
their sum, iff `cart/u` has an entry or nothing was displayed before the tick. -/
theorem display_settles_iff (u : Uid) (db : Database) (i : ℕ) (tr₁ tr₂ : List ShopEvent)
    (s₁ t s : Shop) (htr₁ : ∀ e ∈ tr₁, e.switches = false) (htr₂ : ∀ e ∈ tr₂, e.switches = false)
    (h₁ : run Shop.stepAny (Shop.start (some u) db) tr₁ = some s₁)
    (hp₁ : s₁.hub.pendingFor i = []) (htick : s₁.stepAny (.app (.tick i)) = some t)
    (hc : Always Shop.stepAny (Shop.Resting u i) t tr₂) (hr : run Shop.stepAny t tr₂ = some s)
    (hp : s.hub.pendingFor i = []) :
    s.DisplaysCart u i (Once Shop.stepAny (Shop.start (some u) db) (Shop.Displays i)
      (tr₁ ++ .app (.tick i) :: tr₂)) ↔
    s₁.db.cart u ≠ ∅ ∨ ¬ Once Shop.stepAny (Shop.start (some u) db) (Shop.Displays i) tr₁ := by
  have hrun : run Shop.stepAny (Shop.start (some u) db) (tr₁ ++ .app (.tick i) :: tr₂) = some s := by
    rw [run_append, h₁, Option.bind_some, run, htick]
    exact hr
  rw [Shop.once_displays_iff i _ s _ hrun, Shop.once_displays_iff i _ s₁ tr₁ h₁]
  have hs₁ := Shop.alone_run u db tr₁ s₁ htr₁ h₁
  have htally := Shop.tallied_run (some u) db _ s hrun
  obtain ⟨vc₀, vc, hvc₀, hvc, hrefreshed, hproducts⟩ :=
    Shop.settled_screen u i s₁ t s tr₂ hs₁ hp₁ htick htr₂ hc hr hp
  have hcart : s.db.cartProducts u = s₁.db.cartProducts u := by
    have ht : t.db = s₁.db := by
      obtain ⟨_, -, rfl⟩ := Option.map_eq_some_iff.mp htick
      rfl
    unfold Database.cartProducts
    rw [Shop.cart_resting u i t s tr₂ hc hr, ht]
  have htotal : vc.total = ((s.db.cartProducts u).values.map (·.subTotal)).sum := by
    have h : vc.Totalled := htally.cart vc (List.mem_of_getElem? hvc)
    unfold CartViewController.Totalled at h
    rw [h, hproducts, hcart]
  have hempty := s₁.db.cartProducts_values_eq_nil_iff u
  unfold Shop.DisplaysCart
  rw [Shop.displays_iff i s vc hvc, Shop.displays_iff i s₁ vc₀ hvc₀, not_not, hcart]
  cases hrefreshed with
  | waiting hnil hrows =>
    -- the cart is empty, and what was displayed before the tick still is
    have hvalues : (s₁.db.cartProducts u).values = [] := hproducts.symm.trans hnil
    rw [hvalues, ← hrows]
    constructor
    · rintro ⟨c, hc', hnone, -⟩
      rw [hvc] at hc'
      cases hc'
      exact Or.inr hnone
    · rintro (hne | hnone)
      · exact absurd (hempty.mp hvalues) hne
      · exact ⟨vc, hvc, hnone, fun h => absurd hnone h⟩
  | shown hne hrows hlabel =>
    have hcartne : s₁.db.cart u ≠ ∅ := fun he => hne (hproducts.trans (hempty.mpr he))
    refine ⟨fun _ => Or.inl hcartne, fun _ => ⟨vc, hvc, hrows.trans hproducts, fun _ => ?_⟩⟩
    rw [hlabel, htotal, hcart]

/-- Two ticks with a record stored in between; the second one refreshes the display. -/
theorem display_settles_iff_rose :
    ∃ s vc, run Shop.stepAny (Shop.start (some "u") Database.empty)
        [.app .openCart, .app (.tick 0), .stored "u" ⟨"7"⟩ (some [("subtotal", .int 40)]),
          .app .callback, .app (.tick 0), .app .callback] = some s ∧
      s.cartScreens[0]? = some vc ∧ vc.rows = (s.db.cartProducts "u").values ∧
      vc.subTotalLabel = "$40" := by
  obtain ⟨vc, hvc, hrows, -⟩ := (display_settles_iff "u" Database.empty 0
    [.app .openCart, .app (.tick 0), .stored "u" ⟨"7"⟩ (some [("subtotal", .int 40)]), .app .callback]
    [.app .callback] _ _ _ (by decide) (by decide) rfl rfl rfl
    (always_cons _ _ _ _ _ _ ⟨nofun, fun s' h => by cases h; rfl⟩ rfl (always_nil _ _ _)) rfl
    rfl).mpr (Or.inl fun h => by
      have hget := congrArg (fun m => m.get ⟨"7"⟩) h
      revert hget
      decide)
  refine ⟨_, vc, rfl, hvc, hrows, ?_⟩
  cases hvc
  rfl

/-- The last entry is deleted: the next tick has nothing to call back for, so the rows and the label
stay. -/
theorem display_stale :
    ¬ ∀ (u : Uid) (db : Database) (i : ℕ) (tr₁ tr₂ : List ShopEvent) (s₁ t s : Shop),
      (∀ e ∈ tr₁ ++ tr₂, e.switches = false) →
      run Shop.stepAny (Shop.start (some u) db) tr₁ = some s₁ → s₁.hub.pendingFor i = [] →
      s₁.stepAny (.app (.tick i)) = some t → Always Shop.stepAny (Shop.Resting u i) t tr₂ →
      run Shop.stepAny t tr₂ = some s → s.hub.pendingFor i = [] →
      s.DisplaysCart u i (Once Shop.stepAny (Shop.start (some u) db) (Shop.Displays i)
        (tr₁ ++ .app (.tick i) :: tr₂)) := by
  intro h
  obtain ⟨vc, hvc, hrows, -⟩ := h "u" roseCart 0
    [.app .openCart, .app (.tick 0), .app .callback, .app (.removeItem rosePage.cartProduct)] [] _ _ _
    (by decide) rfl rfl rfl (always_nil _ _ _) rfl rfl
  cases hvc
  revert hrows
  decide

end FlowerGift
