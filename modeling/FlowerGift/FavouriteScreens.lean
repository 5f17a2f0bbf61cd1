import FlowerGift.FavouriteCache
import FlowerGift.Lib.Polling

/-!
# What a favourites screen shows

A favourites screen is a polling view of `favourite/u` (`Favourites.view`), where
`u` is whoever is signed in at its ticks.  Every callback finds the cache or its
screen (`attached_step`), so the queue can always be emptied (`exists_drain`).
A step that is no tick of the screen and changes no favourite only `Settles` the
view (`view_settles`), so one tick that finds no callback of the screen pending
heals its list (`heals`).
-/

namespace FlowerGift

open Realtime

namespace Favourites

/-! ## The queue can be emptied -/

/-- No tick of screen `i` and no change of the favourites. -/
def Undisturbed (i : ℕ) (s : Favourites) (a : FavouriteAction) : Prop :=
  a ≠ .tick i ∧ ∀ s', s.step a = some s' → s'.db.favourite = s.db.favourite

def drain (s : Favourites) : Option Favourites :=
  run step s (List.replicate s.hub.queue.length .callback)

/-- The cache is always there, a screen once it was opened. -/
def hears (s : Favourites) : Watcher → Prop
  | .service => True
  | .screen i => i < s.screens.length

def Attached (s : Favourites) : Prop := s.hub.Addressed s.hears

/-- Favourites screen `i` as a view of `favourite/u`. -/
def view (s : Favourites) (u : Uid) (i : ℕ) : View Key Product where
  source := (s.db.favourite u).mapVal Product.ofSnapshot
  listeners := s.hub.count u (.screen i)
  pending := (s.hub.pendingFor (.screen i)).map fun e => Product.ofSnapshot e.value
  shown := (s.screens[i]?.map (·.products)).getD []

theorem screens_length_step (s s' : Favourites) (a : FavouriteAction) (h : s.step a = some s') :
    s.screens.length ≤ s'.screens.length := by
  cases effect_of_step s s' a h with
  | openFavourites =>
    rw [List.length_append]
    exact Nat.le_add_right _ _
  | tick i vc hvc => exact (List.length_set ..).ge
  | toScreen e hub i vc hd ht hvc => exact (List.length_set ..).ge
  | _ => exact le_rfl

theorem screens_length_run (s s' : Favourites) (tr : List FavouriteAction)
    (hr : run step s tr = some s') : s.screens.length ≤ s'.screens.length :=
  run_invariant step (fun t => s.screens.length ≤ t.screens.length)
    (fun t a t' ht h => ht.trans (screens_length_step t t' a h)) s le_rfl tr s' hr

theorem attached_step (s s' : Favourites) (a : FavouriteAction) (h : s.step a = some s')
    (hs : s.Attached) : s'.Attached := by
  have hmono : s.hub.Addressed s'.hears := by
    refine hs.mono _ _ _ fun t ht => ?_
    cases t with
    | service => trivial
    | screen i => exact Nat.lt_of_lt_of_le ht (screens_length_step s s' a h)
  have hsave : ∀ u p, (s.save u p).hub.Addressed s'.hears := by
    intro u p
    rw [hub_save]
    exact hmono.changed _ _ _ _ _
  have hfetch : ∀ t, s'.hears t → (s.fetch t).Addressed s'.hears := by
    intro t ht
    unfold fetch
    split
    · exact hmono.observe _ _ _ _ _ ht
    · exact hmono
  cases effect_of_step s s' a h with
  | getCurrentUser => exact hfetch .service trivial
  | unfavour u p hu hin =>
    show (s.drop u p.id).hub.Addressed _
    rw [hub_drop]
    exact hmono
  | favour u p hu hin => exact hsave u p
  | heart u page sel hu => exact hsave u _
  | remoteSet u p => exact hsave u p
  | remoteRemove u id =>
    show (s.drop u id).hub.Addressed _
    rw [hub_drop]
    exact hmono
  | tick i vc hvc =>
    apply hfetch
    show i < (s.screens.set i vc.tick).length
    rw [List.length_set]
    exact (List.getElem?_eq_some_iff.mp hvc).1
  | toService e hub hd ht => exact hmono.deliver _ s.hub hub e hd
  | toScreen e hub i vc hd ht hvc => exact hmono.deliver _ s.hub hub e hd
  | _ => exact hmono

/-- A waiting callback finds the cache or its screen. -/
theorem exists_callback (s : Favourites) (e : Event Uid Watcher Key Record)
    (hub : Hub Uid Watcher Key Record) (hs : s.Attached) (hd : s.hub.deliver = some (e, hub)) :
    ∃ s', s.step .callback = some s' ∧ s'.Attached ∧ s'.db = s.db ∧ s'.currentUser = s.currentUser ∧
      s'.hub = hub := by
  have hhears := hs.queue e (Hub.mem_queue_of_deliver s.hub hub e hd)
  obtain ⟨s', hstep, hdb, hu, hhub⟩ : ∃ s', s.step .callback = some s' ∧ s'.db = s.db ∧
      s'.currentUser = s.currentUser ∧ s'.hub = hub := by
    simp only [step, hd, Option.bind_some, receive]
    cases ht : e.target with
    | service => exact ⟨_, rfl, rfl, rfl, rfl⟩
    | screen i =>
      rw [ht] at hhears
      have hvc := List.getElem?_eq_getElem (l := s.screens) hhears
      simp only [hvc, Option.map_some]
      exact ⟨_, rfl, rfl, rfl, rfl⟩
  exact ⟨s', hstep, attached_step s s' .callback hstep hs, hdb, hu, hhub⟩

theorem exists_drain (s : Favourites) (hs : s.Attached) :
    ∃ s', s.drain = some s' ∧ s'.hub.queue = [] ∧ s'.Attached ∧ s'.db = s.db ∧
      s'.currentUser = s.currentUser := by
  have hnext : ∀ (t : Favourites) e hub,
      (t.Attached ∧ t.db = s.db ∧ t.currentUser = s.currentUser) → t.hub.deliver = some (e, hub) →
        ∃ t' : Favourites, t.step .callback = some t' ∧
          (t'.Attached ∧ t'.db = s.db ∧ t'.currentUser = s.currentUser) ∧ t'.hub = hub := by
    rintro t e hub ⟨ht, hdb, hu⟩ hd
    obtain ⟨t', hst, ht', hdb', hu', hhub⟩ := exists_callback t e hub ht hd
    exact ⟨t', hst, ⟨ht', hdb'.trans hdb, hu'.trans hu⟩, hhub⟩
  obtain ⟨s', hr, ⟨ha, hdb, hu⟩, hq⟩ := Hub.exists_drained step .callback Favourites.hub _ hnext s
    ⟨hs, rfl, rfl⟩
  exact ⟨s', hr, hq, ha, hdb, hu⟩

/-! ## One tick of a favourites screen -/

section
variable (u : Uid) (i : ℕ)

theorem view_tick_self (s : Favourites) (vc : FavouriteViewController) (hu : s.currentUser = some u)
    (hvc : s.screens[i]? = some vc) :
    view { s with screens := s.screens.set i vc.tick, hub := s.fetch (.screen i) } u i =
      (s.view u i).tick := by
  have hi : i < s.screens.length := (List.getElem?_eq_some_iff.mp hvc).1
  have hhub : s.fetch (.screen i) = s.hub.observe u (.screen i) (s.db.favourite u) := by
    simp only [fetch, hu]
  apply View.ext
  · rfl
  · simp only [view, hhub, View.tick, Hub.count_observe, and_self, if_true]
  · simp only [view, hhub, View.tick, Hub.pendingFor_observe_self, List.map_append, List.map_map,
      SortedMap.mapVal, SortedMap.values, Function.comp_def]
  · simp [view, FavouriteViewController.tick, View.tick, hi]

/-- A new listener of somebody else. -/
theorem view_fetch_of_ne (s : Favourites) (t : Watcher) (screens : List FavouriteViewController)
    (ht : t ≠ .screen i) (hscreen : screens[i]? = s.screens[i]?) :
    view { s with screens, hub := s.fetch t } u i = s.view u i := by
  unfold fetch
  split
  · apply View.ext
    · rfl
    · simp only [view, Hub.count_observe, ht, and_false, if_false, Nat.add_zero]
    · simp only [view, Hub.pendingFor_observe_of_ne _ _ _ _ _ ht]
    · simp only [view, hscreen]
  · simp only [view, hscreen]

theorem view_openFavourites (s : Favourites) :
    view { s with screens := s.screens ++ [{}] } u i = s.view u i := by
  apply View.ext
  · rfl
  · rfl
  · rfl
  · exact getD_map_append FavouriteViewController.products s.screens {} rfl i

theorem view_toScreen_self (s : Favourites) (e : Event Uid Watcher Key Record)
    (hub : Hub Uid Watcher Key Record) (vc : FavouriteViewController)
    (hd : s.hub.deliver = some (e, hub)) (ht : e.target = .screen i)
    (hvc : s.screens[i]? = some vc) :
    ∃ rest, (s.view u i).pending = Product.ofSnapshot e.value :: rest ∧
      view { s with hub, screens := s.screens.set i (vc.childAdded e.value) } u i =
        (s.view u i).deliver (Product.ofSnapshot e.value) rest := by
  obtain ⟨hi, hget⟩ := List.getElem?_eq_some_iff.mp hvc
  have hq := Hub.pendingFor_deliver_self s.hub hub e hd
  rw [ht] at hq
  refine ⟨(hub.pendingFor (.screen i)).map fun e => Product.ofSnapshot e.value, ?_, ?_⟩
  · simp only [view, hq, List.map_cons]
  · apply View.ext
    · rfl
    · exact Hub.count_deliver s.hub hub e u (.screen i) hd
    · rfl
    · simp [view, FavouriteViewController.childAdded, View.deliver, hi, hget]

/-- A callback for somebody else. -/
theorem view_deliver_of_ne (s : Favourites) (e : Event Uid Watcher Key Record)
    (hub : Hub Uid Watcher Key Record) (service : UserService)
    (screens : List FavouriteViewController) (hd : s.hub.deliver = some (e, hub))
    (ht : e.target ≠ .screen i) (hscreen : screens[i]? = s.screens[i]?) :
    view { s with hub, service, screens } u i = s.view u i := by
  apply View.ext
  · rfl
  · exact Hub.count_deliver s.hub hub e u (.screen i) hd
  · simp only [view, Hub.pendingFor_deliver_of_ne s.hub hub e _ hd ht]
  · simp only [view, hscreen]

/-- A write that changes no favourite is not heard of. -/
theorem view_write (s : Favourites) (w : Write) (service : UserService)
    (h : (s.write w).db.favourite = s.db.favourite) :
    view { s.write w with service } u i = s.view u i := by
  have hhub : (s.write w).hub = s.hub := by
    simp only [write]
    split
    · next u' k hr =>
      have hu' : (w.apply s.db).favourite u' = s.db.favourite u' := congrFun h u'
      rw [hu', Hub.changed_self]
    · rfl
  simp only [view, hhub, h]
  rfl

theorem view_settles (s s' : Favourites) (a : FavouriteAction) (h : s.step a = some s')
    (ha : a ≠ .tick i) (hfav : s'.db.favourite = s.db.favourite) :
    (s.view u i).Settles (s'.view u i) := by
  have hsame : s'.view u i = s.view u i → (s.view u i).Settles (s'.view u i) := by
    intro hv
    rw [hv]
    exact .same
  cases effect_of_step s s' a h with
  | getCurrentUser => exact hsame (view_fetch_of_ne u i s .service s.screens (by rintro ⟨⟩) rfl)
  | unfavour u' p hu hin => exact hsame (view_write u i s _ _ hfav)
  | favour u' p hu hin => exact hsame (view_write u i s _ _ hfav)
  | heart u' page sel hu => exact hsame (view_write u i s _ s.service hfav)
  | remoteSet u' p => exact hsame (view_write u i s _ s.service hfav)
  | remoteRemove u' id => exact hsame (view_write u i s _ s.service hfav)
  | openFavourites => exact hsame (view_openFavourites u i s)
  | tick j vc hvc =>
    have hj : j ≠ i := fun hj => ha (hj ▸ rfl)
    exact hsame (view_fetch_of_ne u i s (.screen j) _ (fun ht => hj (Watcher.screen.inj ht))
      (List.getElem?_set_ne hj))
  | toService e hub hd ht =>
    refine hsame (view_deliver_of_ne u i s e hub _ s.screens hd ?_ rfl)
    rw [ht]
    rintro ⟨⟩
  | toScreen e hub j vc hd ht hvc =>
    by_cases hj : j = i
    · subst hj
      obtain ⟨rest, hq, hv⟩ := view_toScreen_self u j s e hub vc hd ht hvc
      rw [hv]
      exact .deliver _ rest hq
    · refine hsame (view_deliver_of_ne u i s e hub s.service _ hd ?_ (List.getElem?_set_ne hj))
      rw [ht]
      exact fun ht => hj (Watcher.screen.inj ht)
  | _ => exact .same

/-- The screen lists `favourite/u`: its entries in key order, each once. -/
structure ShowsFavourites (db : Database) (vc : FavouriteViewController) : Prop where
  content : vc.products = ((db.favourite u).mapVal Product.ofSnapshot).values
  once : (vc.products.map (·.id)).Nodup

/-- A tick of favourites screen `i` heals it. -/
structure Heals (s : Favourites) : Prop where
  settles : s.hub.pendingFor (.screen i) = [] → ∀ s₁ tr s₂, s.step (.tick i) = some s₁ →
    Always step (Undisturbed i) s₁ tr → run step s₁ tr = some s₂ →
      s₂.hub.pendingFor (.screen i) = [] →
        ∃ vc, s₂.screens[i]? = some vc ∧ ShowsFavourites u s.db vc
  drains : ∃ s₁ s₂ s₃ vc, s.drain = some s₁ ∧ s₁.step (.tick i) = some s₂ ∧ s₂.drain = some s₃ ∧
    s₃.hub.queue = [] ∧ s₃.screens[i]? = some vc ∧ ShowsFavourites u s.db vc

theorem favourites_ids_nodup (db : Database) (hw : FavouriteWritten (db.favourite u)) :
    ((((db.favourite u).mapVal Product.ofSnapshot).values).map (·.id)).Nodup := by
  have hkeyed : Keyed (fun p : Product => stringId p.id)
      ((db.favourite u).mapVal Product.ofSnapshot) := by
    intro k p hp
    rw [SortedMap.get_mapVal] at hp
    obtain ⟨r, hr, rfl⟩ := Option.map_eq_some_iff.mp hp
    obtain ⟨q, rfl, rfl⟩ := hw k r hr
    rfl
  have hkeys : ((((db.favourite u).mapVal Product.ofSnapshot).values.map (·.id)).map stringId).Nodup := by
    rw [List.map_map]
    exact hkeyed.values_map ▸ SortedMap.keys_nodup _
  exact hkeys.of_map

structure Sound (s : Favourites) : Prop where
  attached : s.Attached
  written : FavouriteWritten (s.db.favourite u)

theorem sound_run (s₀ s : Favourites) (tr : List FavouriteAction) (h₀ : Sound u s₀)
    (hr : run step s₀ tr = some s) : Sound u s := by
  refine run_invariant step (Sound u) (fun s a s' hs h => ?_) s₀ h₀ tr s hr
  exact ⟨attached_step s s' a h hs.attached, written_step u s s' a h hs.written⟩

theorem showsFavourites_after_tick (s s₁ s₂ : Favourites) (tr : List FavouriteAction)
    (hs : Sound u s) (hu : s.currentUser = some u) (hp : s.hub.pendingFor (.screen i) = [])
    (htick : s.step (.tick i) = some s₁) (hc : Always step (Undisturbed i) s₁ tr)
    (hr : run step s₁ tr = some s₂) (hp' : s₂.hub.pendingFor (.screen i) = []) :
    ∃ vc, s₂.screens[i]? = some vc ∧ ShowsFavourites u s.db vc := by
  obtain ⟨vc₀, hvc₀, rfl⟩ := Option.map_eq_some_iff.mp htick
  have hi : i < s.screens.length := (List.getElem?_eq_some_iff.mp hvc₀).1
  have hlen := screens_length_run _ s₂ tr hr
  rw [List.length_set] at hlen
  obtain ⟨vc, hvc⟩ : ∃ vc, s₂.screens[i]? = some vc := ⟨_, List.getElem?_eq_getElem (by omega)⟩
  have hshown : (s₂.view u i).shown = ((s.db.favourite u).mapVal Product.ofSnapshot).values := by
    refine View.shown_after_tick step (Undisturbed i) (fun t => t.view u i) ?_ s _ s₂ tr ?_
      (view_tick_self u i s vc₀ hu hvc₀) hc hr ?_
    · intro t a t' ht h
      exact view_settles u i t t' a h ht.1 (ht.2 t' h)
    · simp only [view, hp, List.map_nil]
    · simp only [view, hp', List.map_nil]
  have hproducts : vc.products = ((s.db.favourite u).mapVal Product.ofSnapshot).values := by
    rw [← hshown]
    simp only [view, hvc, Option.map_some, Option.getD_some]
  exact ⟨vc, hvc, hproducts, hproducts ▸ favourites_ids_nodup u s.db hs.written⟩

/-- Callbacks change no favourite. -/
theorem always_callbacks (s : Favourites) (n : ℕ) :
    Always step (Undisturbed i) s (List.replicate n .callback) := by
  refine Always.mono step (fun _ a => a = .callback) _ s _ ?_
    (always_of_forall step _ s _ fun a ha => List.eq_of_mem_replicate ha)
  rintro t a rfl
  refine ⟨by rintro ⟨⟩, fun t' h => ?_⟩
  cases effect_of_step t t' .callback h with
  | toService e hub hd ht => rfl
  | toScreen e hub j vc hd ht hvc => rfl

theorem heals (s : Favourites) (vc : FavouriteViewController) (hs : Sound u s)
    (hu : s.currentUser = some u) (hvc : s.screens[i]? = some vc) : Heals u i s := by
  refine ⟨fun hp s₁ tr s₂ htick hc hr hp' =>
    showsFavourites_after_tick u i s s₁ s₂ tr hs hu hp htick hc hr hp', ?_⟩
  obtain ⟨s₁, hd₁, hq₁, ha₁, hdb₁, hu₁⟩ := exists_drain s hs.attached
  have hlen := screens_length_run s s₁ _ hd₁
  have hi : i < s.screens.length := (List.getElem?_eq_some_iff.mp hvc).1
  obtain ⟨s₂, htick⟩ : ∃ s₂, s₁.step (.tick i) = some s₂ :=
    ⟨_, Option.map_eq_some_iff.mpr ⟨_, List.getElem?_eq_getElem (by omega), rfl⟩⟩
  obtain ⟨s₃, hd₃, hq₃, -, -, -⟩ := exists_drain s₂ (attached_step s₁ s₂ _ htick ha₁)
  have hs₁ := sound_run u s s₁ _ hs hd₁
  obtain ⟨vc₃, hvc₃, hshows⟩ := showsFavourites_after_tick u i s₁ s₂ s₃ _ hs₁ (hu₁.trans hu)
    (Hub.pendingFor_of_idle _ _ hq₁) htick (always_callbacks i s₂ _) hd₃
    (Hub.pendingFor_of_idle _ _ hq₃)
  exact ⟨s₁, s₂, s₃, vc₃, hd₁, htick, hd₃, hq₃, hvc₃, hdb₁ ▸ hshows⟩

end

end Favourites

end FlowerGift
