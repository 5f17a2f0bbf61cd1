import FlowerGift.Favourites

/-!
# The favourites cache and the database

For one user `u` and one product id, the cache and its pending callbacks speak
only of saved favourites (`Coherent.sound`), and once `getCurrentUser` has been
called every saved favourite is cached or announced (`Coherent.complete`).  Every
step keeps this if a favourite is not taken away behind the cache's back
(`Calm`): another device removes it while it is not cached or announced, and the
tap that removes it finds no callback for it pending.  Hence in the quiet states
of such runs the cache holds exactly the saved ids (`cache_coherent`).
-/

namespace FlowerGift

open Realtime

/-- The actions that change the user. -/
def FavouriteAction.switches : FavouriteAction → Bool
  | .signIn _ | .signOut => true
  | _ => false

/-- Every entry was written for a product, at the key of its id. -/
def FavouriteWritten (m : Children) : Prop :=
  ∀ k r, m.get k = some r → ∃ p : Product, k = stringId p.id ∧ r = p.favouriteRecord

theorem FavouriteWritten.insert (m : Children) (h : FavouriteWritten m) (p : Product) :
    FavouriteWritten (m.insert (stringId p.id) p.favouriteRecord) := by
  intro k r hr
  rw [SortedMap.get_insert] at hr
  split at hr
  · next hk => exact ⟨p, hk, (Option.some.inj hr).symm⟩
  · exact h k r hr

theorem FavouriteWritten.erase (m : Children) (h : FavouriteWritten m) (k : Key) :
    FavouriteWritten (m.erase k) := by
  intro k' r hr
  rw [SortedMap.get_erase] at hr
  split at hr
  · cases hr
  · exact h k' r hr

theorem favouriteWritten_empty : FavouriteWritten ∅ := by
  intro k r h
  cases h

namespace Favourites

theorem written_save (u u' : Uid) (s : Favourites) (p : Product)
    (h : FavouriteWritten (s.db.favourite u)) : FavouriteWritten ((s.save u' p).db.favourite u) := by
  rw [favourite_save]
  split
  · next hu =>
    rw [← hu]
    exact h.insert _ p
  · exact h

theorem written_drop (u u' : Uid) (s : Favourites) (id : ℤ)
    (h : FavouriteWritten (s.db.favourite u)) : FavouriteWritten ((s.drop u' id).db.favourite u) := by
  rw [favourite_drop]
  split
  · next hu =>
    rw [← hu]
    exact h.erase _ _
  · exact h

theorem written_step (u : Uid) (s s' : Favourites) (a : FavouriteAction) (h : s.step a = some s')
    (hw : FavouriteWritten (s.db.favourite u)) : FavouriteWritten (s'.db.favourite u) := by
  cases effect_of_step s s' a h with
  | unfavour u' p hu hin => exact written_drop u u' s p.id hw
  | favour u' p hu hin => exact written_save u u' s p hw
  | heart u' page sel hu => exact written_save u u' s _ hw
  | remoteSet u' p => exact written_save u u' s p hw
  | remoteRemove u' id => exact written_drop u u' s id hw
  | _ => exact hw

theorem currentUser_step (s s' : Favourites) (a : FavouriteAction)
    (ha : a.switches = false) (h : s.step a = some s') : s'.currentUser = s.currentUser := by
  cases effect_of_step s s' a h with
  | signIn u => cases ha
  | signOut => cases ha
  | _ => rfl

/-! ## Cached, announced, saved -/

def cached (s : Favourites) (id : ℤ) : Prop := id ∈ s.service.favourites.map (·.id)

/-- A callback for `id` is on its way to the cache. -/
def announced (s : Favourites) (id : ℤ) : Prop := id ∈ s.waiting.map (·.id)

def saved (s : Favourites) (u : Uid) (id : ℤ) : Prop :=
  (s.db.favourite u).get (stringId id) ≠ none

instance (s : Favourites) (id : ℤ) : Decidable (s.cached id) := inferInstanceAs (Decidable (id ∈ _))

instance (s : Favourites) (id : ℤ) : Decidable (s.announced id) :=
  inferInstanceAs (Decidable (id ∈ _))

section
variable (s : Favourites) (u : Uid) (p : Product) (id : ℤ)

theorem saved_save (u' : Uid) :
    (s.save u p).saved u' id ↔ (u' = u ∧ p.id = id) ∨ s.saved u' id := by
  unfold saved
  rw [favourite_save]
  by_cases hu : u' = u
  · subst hu
    by_cases hid : p.id = id
    · subst hid
      simp
    · have hk : stringId id ≠ stringId p.id := fun h => hid ((stringId_inj id p.id).mp h).symm
      simp [SortedMap.get_insert_of_ne _ _ _ _ hk, hid]
  · simp [hu]

theorem saved_drop (u' : Uid) (id₀ : ℤ) :
    (s.drop u id₀).saved u' id ↔ ¬ (u' = u ∧ id₀ = id) ∧ s.saved u' id := by
  unfold saved
  rw [favourite_drop]
  by_cases hu : u' = u
  · subst hu
    by_cases hid : id₀ = id
    · subst hid
      simp
    · have hk : stringId id ≠ stringId id₀ := fun h => hid ((stringId_inj id id₀).mp h).symm
      simp [SortedMap.get_erase_of_ne _ _ _ hk, hid]
  · simp [hu]

theorem announced_save :
    (s.save u p).announced id ↔
      s.announced id ∨ (p.id = id ∧ 0 < s.hub.count u .service ∧ ¬ s.saved u id) := by
  unfold announced
  rw [waiting_save, List.map_append, List.mem_append]
  by_cases hid : p.id = id
  · subst hid
    cases hg : (s.db.favourite u).get (stringId p.id) with
    | some r => simp [saved, hg]
    | none => simp [saved, hg, Nat.pos_iff_ne_zero]
  · constructor
    · rintro (h | h)
      · exact Or.inl h
      · exfalso
        split at h
        · cases h
        · obtain ⟨q, hq, hqid⟩ := List.mem_map.mp h
          exact hid ((List.eq_of_mem_replicate hq) ▸ hqid)
    · rintro (h | h)
      · exact Or.inl h
      · exact absurd h.1 hid

theorem announced_drop (id₀ : ℤ) : (s.drop u id₀).announced id ↔ s.announced id := by
  unfold announced
  rw [waiting_drop]

end

/-! ## Coherence -/

/-- `u` alone uses the device; the cache and its callbacks agree with `favourite/u` about `id`. -/
structure Coherent (u : Uid) (id : ℤ) (s : Favourites) : Prop where
  user : s.currentUser = some u
  listeners : ∀ l ∈ s.hub.listeners, l.1 = u
  written : FavouriteWritten (s.db.favourite u)
  sound : s.cached id ∨ s.announced id → s.saved u id
  complete : 0 < s.hub.count u .service → s.saved u id → s.cached id ∨ s.announced id

/-- `id` is not taken away behind the cache's back. -/
def Calm (u : Uid) (id : ℤ) (s : Favourites) (a : FavouriteAction) : Prop :=
  match a with
  | .favoriteSelected p => p.id = id → s.cached id → ¬ s.announced id
  | .remoteRemove u' id' => u' = u → id' = id → ¬ (s.cached id ∨ s.announced id)
  | _ => True

variable (u : Uid) (id : ℤ)

theorem coherent_start (db : Database) (h : FavouriteWritten (db.favourite u)) :
    Coherent u id (start (some u) db) where
  user := rfl
  listeners := fun _ hl => (nomatch hl)
  written := h
  sound := by
    rintro (h | h)
    · cases h
    · cases h
  complete := fun h => absurd h (Nat.lt_irrefl 0)

theorem coherent_save (s : Favourites) (u' : Uid) (p : Product) (h : Coherent u id s) :
    Coherent u id (s.save u' p) := by
  refine ⟨h.user, ?_, written_save u u' s p h.written, ?_, ?_⟩
  · rw [listeners_save]
    exact h.listeners
  · intro hk
    rw [saved_save]
    rcases hk with hk | hk
    · exact Or.inr (h.sound (Or.inl hk))
    · rcases (announced_save s u' p id).mp hk with hk | ⟨hid, hl, -⟩
      · exact Or.inr (h.sound (Or.inr hk))
      · -- a callback of a listener, and all listeners are on `favourite/u`
        have hmem := List.count_pos_iff.mp hl
        exact Or.inl ⟨(h.listeners _ hmem).symm, hid⟩
  · intro hl hs
    rw [count_save] at hl
    rw [announced_save]
    by_cases hold : s.saved u id
    · rcases h.complete hl hold with hk | hk
      · exact Or.inl hk
      · exact Or.inr (Or.inl hk)
    · rcases (saved_save s u' p id u).mp hs with ⟨rfl, hid⟩ | hs
      · exact Or.inr (Or.inr ⟨hid, hl, hold⟩)
      · exact absurd hs hold

/-- Taking an entry away is fine for `id` when the cache no longer speaks of it. -/
theorem coherent_drop (s : Favourites) (u' : Uid) (id' : ℤ) (service : UserService)
    (h : Coherent u id s)
    (hkeep : ¬ (u' = u ∧ id' = id) → (id ∈ service.favourites.map (·.id) ↔ s.cached id))
    (hgone : u' = u → id' = id → id ∉ service.favourites.map (·.id) ∧ ¬ s.announced id) :
    Coherent u id { s.drop u' id' with service } := by
  have hsaved : saved { s.drop u' id' with service } u id ↔ ¬ (u = u' ∧ id' = id) ∧ s.saved u id :=
    saved_drop s u' id u id'
  have hannounced : announced { s.drop u' id' with service } id ↔ s.announced id :=
    announced_drop s u' id id'
  refine ⟨h.user, ?_, written_drop u u' s id' h.written, ?_, ?_⟩
  · show ∀ l ∈ (s.drop u' id').hub.listeners, l.1 = u
    rw [hub_drop]
    exact h.listeners
  · intro hk
    rw [hannounced] at hk
    rw [hsaved]
    by_cases hit : u' = u ∧ id' = id
    · obtain ⟨h1, h2⟩ := hgone hit.1 hit.2
      rcases hk with hk | hk
      · exact absurd hk h1
      · exact absurd hk h2
    · refine ⟨fun hh => hit ⟨hh.1.symm, hh.2⟩, h.sound ?_⟩
      rcases hk with hk | hk
      · exact Or.inl ((hkeep hit).mp hk)
      · exact Or.inr hk
  · intro hl hs
    have hl' : 0 < s.hub.count u .service := by
      have hc : (s.drop u' id').hub.count u .service = s.hub.count u .service := by rw [hub_drop]
      exact hc ▸ hl
    obtain ⟨hit, hs⟩ := hsaved.mp hs
    rw [hannounced]
    rcases h.complete hl' hs with hk | hk
    · exact Or.inl ((hkeep fun hh => hit ⟨hh.1.symm, hh.2⟩).mpr hk)
    · exact Or.inr hk

/-- A new listener is on the node of the user who is signed in. -/
theorem listeners_fetch (s : Favourites) (t : Watcher) (hu : s.currentUser = some u)
    (hl : ∀ l ∈ s.hub.listeners, l.1 = u) : ∀ l ∈ (s.fetch t).listeners, l.1 = u := by
  intro l hmem
  simp only [fetch, hu, Hub.observe, List.mem_append, List.mem_singleton] at hmem
  rcases hmem with hmem | rfl
  · exact hl l hmem
  · rfl

theorem coherent_getCurrentUser (s : Favourites) (h : Coherent u id s) :
    Coherent u id { s with hub := s.fetch .service } := by
  have hannounced : announced { s with hub := s.fetch .service } id ↔ s.announced id ∨ s.saved u id := by
    unfold announced
    rw [waiting_fetch_service s u h.user, List.map_append, List.mem_append, List.map_map]
    refine or_congr Iff.rfl ?_
    rw [List.mem_map]
    constructor
    · rintro ⟨r, hr, rfl⟩
      obtain ⟨k, hk⟩ := (SortedMap.mem_values_iff _ r).mp hr
      obtain ⟨p, rfl, rfl⟩ := h.written k r hk
      show (s.db.favourite u).get (stringId p.id) ≠ none
      rw [hk]
      exact Option.some_ne_none _
    · intro hs
      obtain ⟨r, hr⟩ := Option.ne_none_iff_exists'.mp hs
      obtain ⟨p, hk, rfl⟩ := h.written _ r hr
      refine ⟨p.favouriteRecord, (SortedMap.mem_values_iff _ _).mpr ⟨_, hr⟩, ?_⟩
      exact ((stringId_inj id p.id).mp hk).symm
  refine ⟨h.user, listeners_fetch u s .service h.user h.listeners, h.written, fun hk => ?_,
    fun _ hs => ?_⟩
  · rw [hannounced] at hk
    rcases hk with hk | hk | hk
    · exact h.sound (Or.inl hk)
    · exact h.sound (Or.inr hk)
    · exact hk
  · exact Or.inr (hannounced.mpr (Or.inr hs))

theorem coherent_tick (s : Favourites) (i : ℕ) (screens : List FavouriteViewController)
    (h : Coherent u id s) : Coherent u id { s with screens, hub := s.fetch (.screen i) } := by
  have hfetch : s.fetch (.screen i) = s.hub.observe u (.screen i) (s.db.favourite u) := by
    simp only [fetch, h.user]
  have hannounced : announced { s with screens, hub := s.fetch (.screen i) } id ↔ s.announced id := by
    unfold announced
    rw [waiting_fetch_screen]
  refine ⟨h.user, listeners_fetch u s (.screen i) h.user h.listeners, h.written, fun hk => ?_,
    fun hl hs => ?_⟩
  · rw [hannounced] at hk
    exact h.sound hk
  · rw [hannounced]
    refine h.complete ?_ hs
    have hcount : (s.fetch (.screen i)).count u .service = s.hub.count u .service := by
      rw [hfetch, Hub.count_observe, if_neg (by rintro ⟨-, ⟨⟩⟩), Nat.add_zero]
    exact hcount ▸ hl

/-- A delivery moves what the callback announces into the cache. -/
theorem coherent_toService (s : Favourites) (e : Event Uid Watcher Key Record)
    (hub : Hub Uid Watcher Key Record) (hd : s.hub.deliver = some (e, hub))
    (ht : e.target = .service) (h : Coherent u id s) :
    Coherent u id { s with hub, service := s.service.childAdded e.value } := by
  have hq := Hub.pendingFor_deliver_self s.hub hub e hd
  rw [ht] at hq
  have hwaiting : s.waiting = Product.ofSnapshot e.value ::
      (hub.pendingFor .service).map fun e => Product.ofSnapshot e.value := by
    unfold waiting
    rw [hq, List.map_cons]
  have hknown : (cached { s with hub, service := s.service.childAdded e.value } id ∨
      announced { s with hub, service := s.service.childAdded e.value } id) ↔
        (s.cached id ∨ s.announced id) := by
    unfold cached announced
    rw [hwaiting]
    simp only [UserService.childAdded, waiting, List.map_append, List.map_cons, List.map_nil,
      List.mem_append, List.mem_cons, List.not_mem_nil, or_false, or_assoc]
  refine ⟨h.user, ?_, h.written, fun hk => h.sound (hknown.mp hk), fun hl hs => ?_⟩
  · show ∀ l ∈ hub.listeners, l.1 = u
    rw [Hub.listeners_deliver s.hub hub e hd]
    exact h.listeners
  · refine hknown.mpr (h.complete ?_ hs)
    have hcount := Hub.count_deliver s.hub hub e u .service hd
    exact hcount ▸ hl

theorem coherent_toScreen (s : Favourites) (e : Event Uid Watcher Key Record)
    (hub : Hub Uid Watcher Key Record) (screens : List FavouriteViewController)
    (hd : s.hub.deliver = some (e, hub)) (ht : e.target ≠ .service) (h : Coherent u id s) :
    Coherent u id { s with hub, screens } := by
  have hannounced : announced { s with hub, screens } id ↔ s.announced id := by
    unfold announced waiting
    rw [Hub.pendingFor_deliver_of_ne s.hub hub e .service hd ht]
  refine ⟨h.user, ?_, h.written, fun hk => ?_, fun hl hs => ?_⟩
  · show ∀ l ∈ hub.listeners, l.1 = u
    rw [Hub.listeners_deliver s.hub hub e hd]
    exact h.listeners
  · rw [hannounced] at hk
    exact h.sound hk
  · rw [hannounced]
    have hcount := Hub.count_deliver s.hub hub e u .service hd
    exact h.complete (hcount ▸ hl) hs

theorem mem_filter_ids (ps : List Product) (product : Product) :
    id ∈ (ps.filter fun p => !Product.eq p product).map (·.id) ↔
      id ∈ ps.map (·.id) ∧ id ≠ product.id := by
  simp only [List.mem_map, List.mem_filter, Product.eq, Bool.not_eq_true', beq_eq_false_iff_ne]
  constructor
  · rintro ⟨p, ⟨hp, hne⟩, rfl⟩
    exact ⟨⟨p, hp, rfl⟩, hne⟩
  · rintro ⟨⟨p, hp, rfl⟩, hne⟩
    exact ⟨p, ⟨hp, hne⟩, rfl⟩

theorem coherent_step (s s' : Favourites) (a : FavouriteAction) (ha : a.switches = false)
    (hc : Calm u id s a) (h : s.step a = some s') (hs : Coherent u id s) : Coherent u id s' := by
  cases effect_of_step s s' a h with
  | signIn u' => cases ha
  | signOut => cases ha
  | getCurrentUser => exact coherent_getCurrentUser u id s hs
  | unfavour u' product hu hin =>
    have hu' : u' = u := Option.some.inj (hu.symm.trans hs.user)
    refine coherent_drop u id s u' product.id _ hs (fun hit => ?_) (fun _ hid => ?_)
    · rw [mem_filter_ids]
      exact ⟨fun hh => hh.1, fun hh => ⟨hh, fun he => hit ⟨hu', he.symm⟩⟩⟩
    · rw [mem_filter_ids]
      exact ⟨fun hh => hh.2 hid.symm, hc hid (hid ▸ hin)⟩
  | favour u' product hu hin =>
    have hu' : u' = u := Option.some.inj (hu.symm.trans hs.user)
    have hsave := coherent_save u id s u' product hs
    refine ⟨hsave.user, hsave.listeners, hsave.written, fun hk => ?_, fun hl hk => ?_⟩
    · rcases hk with hk | hk
      · rw [cached, List.map_append, List.mem_append] at hk
        rcases hk with hk | hk
        · exact hsave.sound (Or.inl hk)
        · -- the tapped product itself is saved by the same tap
          have hid : product.id = id := (List.mem_singleton.mp hk).symm
          exact (saved_save s u' product id u).mpr (Or.inl ⟨hu'.symm, hid⟩)
      · exact hsave.sound (Or.inr hk)
    · rcases hsave.complete hl hk with hk | hk
      · left
        rw [cached, List.map_append, List.mem_append]
        exact Or.inl hk
      · exact Or.inr hk
  | heart u' page isSelected hu => exact coherent_save u id s u' page.product hs
  | noHeart page isSelected => exact hs
  | remoteSet u' product => exact coherent_save u id s u' product hs
  | remoteRemove u' id' =>
    refine coherent_drop u id s u' id' s.service hs (fun _ => Iff.rfl) (fun hu hid => ?_)
    exact not_or.mp (hc hu hid)
  | openFavourites => exact ⟨hs.user, hs.listeners, hs.written, hs.sound, hs.complete⟩
  | tick i vc hvc => exact coherent_tick u id s i _ hs
  | toService e hub hd ht => exact coherent_toService u id s e hub hd ht hs
  | toScreen e hub i vc hd ht hvc => exact coherent_toScreen u id s e hub _ hd (ht ▸ nofun) hs

/-- A listener of the cache is never taken away, and `getCurrentUser` adds one. -/
theorem listening_step (s s' : Favourites) (a : FavouriteAction) (hu : s.currentUser = some u)
    (h : s.step a = some s') (hl : 0 < s.hub.count u .service ∨ a = .getCurrentUser) :
    0 < s'.hub.count u .service := by
  cases effect_of_step s s' a h with
  | getCurrentUser =>
    show 0 < (s.fetch .service).count u .service
    simp only [fetch, hu, Hub.count_observe, and_self, if_true]
    omega
  | tick i vc hvc =>
    show 0 < (s.fetch (.screen i)).count u .service
    simp only [fetch, hu, Hub.count_observe]
    have := hl.resolve_right (by rintro ⟨⟩)
    omega
  | unfavour u' product hu' hin =>
    show 0 < (s.drop u' product.id).hub.count u .service
    rw [hub_drop]
    exact hl.resolve_right (by rintro ⟨⟩)
  | remoteRemove u' id' =>
    rw [hub_drop]
    exact hl.resolve_right (by rintro ⟨⟩)
  | favour u' product hu' hin =>
    show 0 < (s.save u' product).hub.count u .service
    rw [count_save]
    exact hl.resolve_right (by rintro ⟨⟩)
  | heart u' page isSelected hu' =>
    rw [count_save]
    exact hl.resolve_right (by rintro ⟨⟩)
  | remoteSet u' product =>
    rw [count_save]
    exact hl.resolve_right (by rintro ⟨⟩)
  | toService e hub hd ht =>
    show 0 < hub.count u .service
    rw [Hub.count_deliver s.hub hub e u .service hd]
    exact hl.resolve_right (by rintro ⟨⟩)
  | toScreen e hub i vc hd ht hvc =>
    show 0 < hub.count u .service
    rw [Hub.count_deliver s.hub hub e u .service hd]
    exact hl.resolve_right (by rintro ⟨⟩)
  | _ => exact hl.resolve_right (by rintro ⟨⟩)

theorem coherent_run (db : Database) (hdb : FavouriteWritten (db.favourite u))
    (tr : List FavouriteAction) (s : Favourites) (htr : ∀ a ∈ tr, a.switches = false)
    (hc : Always step (Calm u id) (start (some u) db) tr)
    (hr : run step (start (some u) db) tr = some s) :
    Coherent u id s ∧ (.getCurrentUser ∈ tr → 0 < s.hub.count u .service) := by
  refine run_induction_of_always step (fun t a => a.switches = false ∧ Calm u id t a) _
    (fun tr s => Coherent u id s ∧ (.getCurrentUser ∈ tr → 0 < s.hub.count u .service)) ?_ ?_ tr s
    ((always_of_forall step (fun a => a.switches = false) _ tr htr).and _ _ _ _ _ hc) hr
  · exact ⟨coherent_start u id db hdb, fun h => (nomatch h)⟩
  · rintro tr t a t' - ⟨ht, hl⟩ ⟨ha, hcalm⟩ h
    refine ⟨coherent_step u id t t' a ha hcalm h ht, fun hmem => ?_⟩
    apply listening_step u t t' a ht.user h
    rcases List.mem_append.mp hmem with hmem | hmem
    · exact Or.inl (hl hmem)
    · exact Or.inr (List.mem_singleton.mp hmem).symm

end Favourites

/-- **When the cache agrees with the database.**  In every run of one user with at least one
`getCurrentUser` in which `id` is not taken away behind the cache's back, `id` is cached iff it is
saved, in every state in which no callback of the cache is pending. -/
theorem cache_coherent (u : Uid) (db : Database) (hdb : FavouriteWritten (db.favourite u)) (id : ℤ)
    (tr : List FavouriteAction) (s : Favourites) (htr : ∀ a ∈ tr, a.switches = false)
    (hget : .getCurrentUser ∈ tr)
    (hc : Always Favourites.step (Favourites.Calm u id) (Favourites.start (some u) db) tr)
    (hr : run Favourites.step (Favourites.start (some u) db) tr = some s)
    (hp : s.hub.pendingFor .service = []) :
    id ∈ s.service.favourites.map (·.id) ↔ (s.db.favourite u).get (stringId id) ≠ none := by
  obtain ⟨hs, hl⟩ := Favourites.coherent_run u id db hdb tr s htr hc hr
  have hquiet : ¬ s.announced id := by
    unfold Favourites.announced Favourites.waiting
    rw [hp]
    exact List.not_mem_nil
  constructor
  · exact fun hk => hs.sound (Or.inl hk)
  · exact fun hk => (hs.complete (hl hget) hk).resolve_right hquiet

/-- A tap and its callback. -/
theorem cache_coherent_rose :
    ∃ s, run Favourites.step (Favourites.start (some "u") Database.empty)
        [.getCurrentUser, .favoriteSelected rose, .callback] = some s ∧
      (1 ∈ s.service.favourites.map (·.id) ↔ (s.db.favourite "u").get (stringId 1) ≠ none) := by
  refine ⟨_, rfl, cache_coherent "u" Database.empty (fun _ _ h => nomatch h) 1
    [.getCurrentUser, .favoriteSelected rose, .callback] _ (by decide) (by decide) ?_ rfl rfl⟩
  refine always_cons _ _ _ _ _ _ trivial rfl ?_
  refine always_cons _ _ _ _ _ _ (fun _ h => nomatch h) rfl ?_
  exact always_cons _ _ _ _ _ _ trivial rfl (always_nil _ _ _)

/-- The second tap removes the favourite before the callback of the first one has run: the callback
puts it back into the cache. -/
theorem cache_incoherent :
    ¬ ∀ (u : Uid) (db : Database) (id : ℤ) (tr : List FavouriteAction) (s : Favourites),
      FavouriteWritten (db.favourite u) → (∀ a ∈ tr, a.switches = false) →
      .getCurrentUser ∈ tr →
      run Favourites.step (Favourites.start (some u) db) tr = some s →
      s.hub.pendingFor .service = [] →
      (id ∈ s.service.favourites.map (·.id) ↔ (s.db.favourite u).get (stringId id) ≠ none) := by
  intro h
  have hx := h "u" Database.empty 1
    [.getCurrentUser, .favoriteSelected rose, .favoriteSelected rose, .callback] _
    (fun _ _ h => nomatch h) (by decide) (by decide) rfl rfl
  revert hx
  decide

end FlowerGift
