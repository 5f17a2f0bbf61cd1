import FlowerGift.Favourites

/-!
# Whose favourites the cache holds

A history variable pairs every cached product with a user: the one on whose
`favourite` node the delivering listener sits, or the one signed in at the tap
(`owners`).  `owners_run` says that it is the cache with these users written to
it, and what the users mean.  The cache never holds another user's product in
any state of a run iff at every step

* a user signs in only over a cache of their own products, and
* a callback of the cache runs only while its node's user, or nobody, is signed in

(`cache_isolated_iff`).  Only `logoutUser` empties the cache, and only the menu calls it.
-/

namespace FlowerGift

open Realtime

namespace Favourites

/-- The cached products with the users they were obtained for. -/
def owners (s : Favourites) (a : FavouriteAction) (_s' : Favourites) (m : List (Product × Uid)) :
    List (Product × Uid) :=
  match a with
  | .signOut => []
  | .favoriteSelected product =>
    match s.currentUser with
    | some u =>
      if s.service.contains product then m.filter fun e => !Product.eq e.1 product
      else m ++ [(product, u)]
    | none => m
  | .callback =>
    match s.hub.deliver with
    | some (e, _) =>
      if e.target = .service then m ++ [(Product.ofSnapshot e.value, e.node)] else m
    | none => m
  | _ => m

section
variable (user : Option Uid) (db : Database)

/-- `favourite/w` held the record at some time of the run. -/
def WasFavourite (tr : List FavouriteAction) (w : Uid) (r : Record) : Prop :=
  Once step (start user db) (fun t => ∃ k, (t.db.favourite w).get k = some r) tr

/-- The product was tapped while `w` was signed in. -/
def Tapped (tr : List FavouriteAction) (w : Uid) (product : Product) : Prop :=
  ∃ tr₁ tr₂ t, tr = tr₁ ++ .favoriteSelected product :: tr₂ ∧
    run step (start user db) tr₁ = some t ∧ t.currentUser = some w

/-- The product was obtained from `favourite/w` or from a tap of `w`. -/
def Obtained (tr : List FavouriteAction) (product : Product) (w : Uid) : Prop :=
  (∃ r, WasFavourite user db tr w r ∧ product = Product.ofSnapshot r) ∨ Tapped user db tr w product

/-- The history variable is the cache, and every user in it means what it should. -/
structure Owned (tr : List FavouriteAction) (s : Favourites) (m : List (Product × Uid)) : Prop where
  cache : m.map Prod.fst = s.service.favourites
  queue : ∀ e ∈ s.hub.queue, WasFavourite user db tr e.node e.value
  obtained : ∀ e ∈ m, Obtained user db tr e.1 e.2

theorem Obtained.append (tr : List FavouriteAction) (a : FavouriteAction) (product : Product)
    (w : Uid) (h : Obtained user db tr product w) : Obtained user db (tr ++ [a]) product w := by
  rcases h with ⟨r, hr, hp⟩ | ⟨tr₁, tr₂, t, rfl, ht, hu⟩
  · exact Or.inl ⟨r, hr.append step _ _ tr [a], hp⟩
  · exact Or.inr ⟨tr₁, tr₂ ++ [a], t, by simp, ht, hu⟩

end

/-! ## New callbacks are for favourites that are there -/

theorem mem_queue_fetch (s : Favourites) (t : Watcher) (e : Event Uid Watcher Key Record)
    (he : e ∈ (s.fetch t).queue) :
    e ∈ s.hub.queue ∨ (s.db.favourite e.node).get e.key = some e.value := by
  unfold fetch at he
  split at he
  · rcases Hub.mem_queue_observe _ _ _ _ e he with he | ⟨hn, -, hg⟩
    · exact Or.inl he
    · exact Or.inr (hn ▸ hg)
  · exact Or.inl he

theorem mem_queue_save (s : Favourites) (u : Uid) (product : Product)
    (e : Event Uid Watcher Key Record) (he : e ∈ (s.save u product).hub.queue) :
    e ∈ s.hub.queue ∨ ((s.save u product).db.favourite e.node).get e.key = some e.value := by
  rw [hub_save] at he
  rcases Hub.mem_queue_changed _ _ _ _ e he with he | ⟨hn, -, hg, -⟩
  · exact Or.inl he
  · right
    rw [favourite_save, if_pos hn]
    exact hg

theorem mem_queue_step (s s' : Favourites) (a : FavouriteAction) (h : s.step a = some s')
    (e : Event Uid Watcher Key Record) (he : e ∈ s'.hub.queue) :
    e ∈ s.hub.queue ∨ (s'.db.favourite e.node).get e.key = some e.value := by
  cases effect_of_step s s' a h with
  | getCurrentUser => exact mem_queue_fetch s .service e he
  | tick i vc hvc => exact mem_queue_fetch s (.screen i) e he
  | favour u product hu hin => exact mem_queue_save s u product e he
  | heart u page isSelected hu => exact mem_queue_save s u page.product e he
  | remoteSet u product => exact mem_queue_save s u product e he
  | unfavour u product hu hin =>
    have hq : (s.drop u product.id).hub.queue = s.hub.queue := by rw [hub_drop]
    exact Or.inl (hq ▸ he)
  | remoteRemove u id =>
    rw [hub_drop] at he
    exact Or.inl he
  | toService e' hub hd ht => exact Or.inl (Hub.mem_queue_deliver s.hub hub e' e hd he)
  | toScreen e' hub i vc hd ht hvc => exact Or.inl (Hub.mem_queue_deliver s.hub hub e' e hd he)
  | _ => exact Or.inl he

/-! ## The history variable along a run -/

section
variable (s s' : Favourites) (u : Uid) (product : Product) (e : Event Uid Watcher Key Record)
  (hub : Hub Uid Watcher Key Record) (m : List (Product × Uid))

theorem owners_unfavour (hu : s.currentUser = some u)
    (hin : product.id ∈ s.service.favourites.map (·.id)) :
    owners s (.favoriteSelected product) s' m = m.filter fun e => !Product.eq e.1 product := by
  simp only [owners, hu, (s.service.contains_iff product).mpr hin, if_true]

theorem owners_favour (hu : s.currentUser = some u)
    (hin : product.id ∉ s.service.favourites.map (·.id)) :
    owners s (.favoriteSelected product) s' m = m ++ [(product, u)] := by
  have hc : ¬ s.service.contains product = true := fun hc =>
    hin ((s.service.contains_iff product).mp hc)
  simp only [owners, hu, if_neg hc]

theorem owners_toService (hd : s.hub.deliver = some (e, hub)) (ht : e.target = .service) :
    owners s .callback s' m = m ++ [(Product.ofSnapshot e.value, e.node)] := by
  simp only [owners, hd, ht, if_true]

theorem owners_toScreen (i : ℕ) (hd : s.hub.deliver = some (e, hub)) (ht : e.target = .screen i) :
    owners s .callback s' m = m := by
  simp only [owners, hd, ht, if_neg (nofun : Watcher.screen i ≠ .service)]

end

theorem owned_step (user : Option Uid) (db : Database) (tr : List FavouriteAction)
    (s s' : Favourites) (a : FavouriteAction) (m : List (Product × Uid))
    (hr : run step (start user db) tr = some s) (h : s.step a = some s')
    (hm : Owned user db tr s m) : Owned user db (tr ++ [a]) s' (owners s a s' m) := by
  have hrun : run step (start user db) (tr ++ [a]) = some s' :=
    (run_snoc step _ s' tr a).mpr ⟨s, hr, h⟩
  have hqueue : ∀ e ∈ s'.hub.queue, WasFavourite user db (tr ++ [a]) e.node e.value := by
    intro e he
    rcases mem_queue_step s s' a h e he with he | hg
    · exact (hm.queue e he).append step _ _ tr [a]
    · exact once_now step _ s' _ _ hrun ⟨e.key, hg⟩
  have hold : ∀ e ∈ m, Obtained user db (tr ++ [a]) e.1 e.2 := fun e he =>
    (hm.obtained e he).append user db tr a e.1 e.2
  cases effect_of_step s s' a h with
  | signOut => exact ⟨rfl, hqueue, fun e he => (nomatch he)⟩
  | unfavour u product hu hin =>
    rw [owners_unfavour s _ u product m hu hin]
    refine ⟨?_, hqueue, fun e he => hold e (List.mem_of_mem_filter he)⟩
    show _ = s.service.favourites.filter fun p => !Product.eq p product
    rw [← hm.cache, List.filter_map]
    rfl
  | favour u product hu hin =>
    rw [owners_favour s _ u product m hu hin]
    refine ⟨?_, hqueue, fun e he => ?_⟩
    · show _ = s.service.favourites ++ [product]
      rw [List.map_append, hm.cache]
      rfl
    · rcases List.mem_append.mp he with he | he
      · exact hold e he
      · rw [List.mem_singleton.mp he]
        exact Or.inr ⟨tr, [], s, rfl, hr, hu⟩
  | toService e hub hd ht =>
    rw [owners_toService s _ e hub m hd ht]
    refine ⟨?_, hqueue, fun e' he' => ?_⟩
    · show _ = s.service.favourites ++ [Product.ofSnapshot e.value]
      rw [List.map_append, hm.cache]
      rfl
    · rcases List.mem_append.mp he' with he' | he'
      · exact hold e' he'
      · -- the delivered record was a favourite of the node's user
        rw [List.mem_singleton.mp he']
        have hmem := Hub.mem_queue_of_deliver s.hub hub e hd
        exact Or.inl ⟨e.value, (hm.queue e hmem).append step _ _ tr _, rfl⟩
  | toScreen e hub i vc hd ht hvc =>
    rw [owners_toScreen s _ e hub m i hd ht]
    exact ⟨hm.cache, hqueue, hold⟩
  | _ => exact ⟨hm.cache, hqueue, hold⟩

theorem owners_run (user : Option Uid) (db : Database) (tr : List FavouriteAction) (s : Favourites)
    (m : List (Product × Uid))
    (hr : run (withHistory step owners) (start user db, []) tr = some (s, m)) :
    Owned user db tr s m := by
  refine run_induction (withHistory step owners) (start user db, [])
    (fun tr sm => Owned user db tr sm.1 sm.2) ?_ ?_ tr (s, m) hr
  · exact ⟨rfl, fun e he => (nomatch he), fun e he => (nomatch he)⟩
  · rintro tr ⟨t, n⟩ a ⟨t', n'⟩ hrun ht h
    obtain ⟨hstep, rfl⟩ := (withHistory_eq_some_iff step owners t t' n n' a).mp h
    exact owned_step user db tr t t' a n (run_withHistory step owners _ _ tr _ hrun) hstep ht

/-! ## Isolation -/

/-- A user signs in only over their own products, and a callback of the cache runs only while its
node's user, or nobody, is signed in. -/
def OwnFavourites (sm : Favourites × List (Product × Uid)) (a : FavouriteAction) : Prop :=
  match a with
  | .signIn v => ∀ e ∈ sm.2, e.2 = v
  | .callback => ∀ e hub v, sm.1.hub.deliver = some (e, hub) → e.target = .service →
      sm.1.currentUser = some v → e.node = v
  | _ => True

/-- All cached products are the signed-in user's own. -/
def Isolated (sm : Favourites × List (Product × Uid)) : Prop :=
  ∀ v, sm.1.currentUser = some v → ∀ e ∈ sm.2, e.2 = v

theorem isolated_step (s s' : Favourites) (a : FavouriteAction) (m : List (Product × Uid))
    (h : s.step a = some s') (hc : OwnFavourites (s, m) a) (hi : Isolated (s, m)) :
    Isolated (s', owners s a s' m) := by
  cases effect_of_step s s' a h with
  | signIn u =>
    rintro v hv e he
    cases hv
    exact hc e he
  | signOut => exact fun v hv => (nomatch hv)
  | unfavour u product hu hin =>
    rintro v hv e he
    rw [owners_unfavour s _ u product m hu hin] at he
    exact hi v hv e (List.mem_of_mem_filter he)
  | favour u product hu hin =>
    rintro v hv e he
    rw [owners_favour s _ u product m hu hin] at he
    rcases List.mem_append.mp he with he | he
    · exact hi v hv e he
    · rw [List.mem_singleton.mp he]
      exact Option.some.inj (hu.symm.trans hv)
  | toService e' hub hd ht =>
    rintro v hv e he
    rw [owners_toService s _ e' hub m hd ht] at he
    rcases List.mem_append.mp he with he | he
    · exact hi v hv e he
    · rw [List.mem_singleton.mp he]
      exact hc e' hub v hd ht hv
  | toScreen e' hub i vc hd ht hvc =>
    rintro v hv e he
    rw [owners_toScreen s _ e' hub m i hd ht] at he
    exact hi v hv e he
  | _ => exact fun v hv e he => hi v hv e he

/-- A step that breaks the condition puts another user's product into the cache of the signed-in
user. -/
theorem own_of_isolated (s s' : Favourites) (a : FavouriteAction) (m : List (Product × Uid))
    (h : s.step a = some s') (hi : Isolated (s', owners s a s' m)) : OwnFavourites (s, m) a := by
  cases a with
  | signIn v =>
    cases h
    exact hi v rfl
  | callback =>
    intro e hub v hd ht hv
    have hstep : s.step .callback = some { s with hub, service := s.service.childAdded e.value } := by
      simp only [step, hd, Option.bind_some, receive, ht]
    rw [owners_toService s s' e hub m hd ht] at hi
    rw [hstep] at h
    cases h
    exact hi v hv (Product.ofSnapshot e.value, e.node) (List.mem_append_right _ List.mem_cons_self)
  | _ => trivial

end Favourites

/-- **When the cache is isolated.**  Along every run, with any changes of user, the history variable
is the cache with the users its products were obtained for; and in all states of the run the
signed-in user finds only products of their own iff every step meets the condition. -/
theorem cache_isolated_iff (user : Option Uid) (db : Database) (tr : List FavouriteAction)
    (s : Favourites) (m : List (Product × Uid))
    (hr : run (withHistory Favourites.step Favourites.owners) (Favourites.start user db, []) tr =
      some (s, m)) :
    (m.map Prod.fst = s.service.favourites ∧
      ∀ e ∈ m, Favourites.Obtained user db tr e.1 e.2) ∧
    ((∀ tr₁ tr₂ sm, tr = tr₁ ++ tr₂ →
        run (withHistory Favourites.step Favourites.owners) (Favourites.start user db, []) tr₁ =
          some sm → Favourites.Isolated sm) ↔
      Always (withHistory Favourites.step Favourites.owners) Favourites.OwnFavourites
        (Favourites.start user db, []) tr) := by
  have howned := Favourites.owners_run user db tr s m hr
  refine ⟨⟨howned.cache, howned.obtained⟩, ?_⟩
  refine throughout_iff_always (withHistory Favourites.step Favourites.owners) (fun _ => True)
    Favourites.Isolated Favourites.OwnFavourites _ trivial (fun _ _ _ _ _ => trivial) ?_ ?_ tr _ hr
  · exact fun v _ e he => absurd he List.not_mem_nil
  · rintro ⟨t, n⟩ a ⟨t', n'⟩ - hi h
    obtain ⟨hstep, rfl⟩ := (withHistory_eq_some_iff Favourites.step Favourites.owners _ _ _ _ _).mp h
    exact ⟨Favourites.own_of_isolated t t' a n hstep,
      fun hown => Favourites.isolated_step t t' a n hstep hown hi⟩

/-- A database with one favourite of `u`. -/
def roseFavourite : Database :=
  Database.empty.setValue (.favourite "u" (stringId 1))
    (some rose.favouriteRecord)

/-- Load, sign out through the menu, sign in as somebody else. -/
theorem cache_isolated_iff_rose :
    ∃ sm, run (withHistory Favourites.step Favourites.owners) (Favourites.start (some "u") roseFavourite, [])
      [.getCurrentUser, .callback, .signOut, .signIn "v"] = some sm ∧ Favourites.Isolated sm := by
  refine ⟨_, rfl, (cache_isolated_iff (some "u") roseFavourite
    [.getCurrentUser, .callback, .signOut, .signIn "v"] _ _ rfl).2.mpr ?_ _ []
      _ (List.append_nil _).symm rfl⟩
  refine always_cons _ _ _ _ _ _ trivial rfl ?_
  refine always_cons _ _ _ _ _ _ ?_ rfl ?_
  · intro e hub v hd _ hv
    cases hd
    cases hv
    rfl
  refine always_cons _ _ _ _ _ _ trivial rfl ?_
  exact always_cons _ _ _ _ _ _ (fun e he => nomatch he) rfl (always_nil _ _ _)

/-- `v` signs in over the session of `u`: the cache still holds what was loaded for `u`. -/
theorem cache_of_other_user :
    ¬ ∀ (user : Option Uid) (db : Database) (tr : List FavouriteAction)
      (sm : Favourites × List (Product × Uid)),
      run (withHistory Favourites.step Favourites.owners) (Favourites.start user db, []) tr = some sm →
      Favourites.Isolated sm := by
  intro h
  have hx := h (some "u") roseFavourite [.getCurrentUser, .callback, .signIn "v"] _ rfl "v" rfl
    (rose, "u") List.mem_cons_self
  revert hx
  decide

end FlowerGift
