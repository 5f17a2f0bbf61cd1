import FlowerGift.FavouriteScreens

/-!
# Toggling a favourite

`toggle p` is a tap on the heart of `p` with all callbacks that it causes.  If
the cache and `favourite/u` agree on the ids (`Agrees`), a tap on a favourite
takes away every copy from the cache and the entry from the database, and
nobody is told; a tap on anything else adds one copy to the cache and the entry,
and every listener of the cache adds one more (`Taps`).  Either way
they agree again with exactly the membership of `p` flipped (`toggle_flips`), and
a second toggle restores the favourites (`favoriteSelected_twice`).

At no time is anything else touched (`Framed`): the other products of the cache
keep their order and their copies, the other records their value.
-/

namespace FlowerGift

open Realtime

/-- Every entry sits at the key of the id that it is read with. -/
def FavouriteKeyed (m : Children) : Prop :=
  ∀ k r, m.get k = some r → stringId (Product.ofSnapshot r).id = k

theorem FavouriteKeyed.insert (m : Children) (h : FavouriteKeyed m) (p : Product) :
    FavouriteKeyed (m.insert (stringId p.id) p.favouriteRecord) := by
  intro k r hr
  rw [SortedMap.get_insert] at hr
  split at hr
  · next hk =>
    cases hr
    exact hk.symm
  · exact h k r hr

theorem FavouriteKeyed.erase (m : Children) (h : FavouriteKeyed m) (k : Key) :
    FavouriteKeyed (m.erase k) := by
  intro k' r hr
  rw [SortedMap.get_erase] at hr
  split at hr
  · cases hr
  · exact h k' r hr

namespace Favourites

/-- `favoriteSelected(p)`, then all callbacks. -/
def toggle (s : Favourites) (p : Product) : Option Favourites :=
  (s.step (.favoriteSelected p)).bind drain

/-- `u` is signed in, nothing is on its way, and the cache and `favourite/u` agree on the ids. -/
structure Agrees (u : Uid) (s : Favourites) : Prop where
  user : s.currentUser = some u
  idle : s.hub.queue = []
  attached : s.Attached
  keyed : FavouriteKeyed (s.db.favourite u)
  agree : ∀ id, s.cached id ↔ s.saved u id

/-- Only `p` may have changed since `s`. -/
structure Framed (u : Uid) (p : Product) (s t : Favourites) : Prop where
  cache : (t.service.favourites.filter fun q => q.id ≠ p.id) =
    s.service.favourites.filter fun q => q.id ≠ p.id
  records : ∀ r, r ≠ .favourite u (stringId p.id) → t.db.get r = s.db.get r

theorem Framed.trans (u : Uid) (p : Product) (s t t' : Favourites) (h : Framed u p s t)
    (h' : Framed u p t t') : Framed u p s t' where
  cache := h'.cache.trans h.cache
  records := fun r hr => (h'.records r hr).trans (h.records r hr)

/-! ## The callbacks -/

theorem waiting_of_idle (t : Favourites) (hq : t.hub.queue = []) : t.waiting = [] := by
  unfold waiting
  rw [Hub.pendingFor_of_idle _ _ hq, List.map_nil]

/-- What the cache holds and what it still has to receive, taken together, stay the same. -/
theorem log_callback (t t' : Favourites) (h : t.step .callback = some t') :
    t'.service.favourites ++ t'.waiting = t.service.favourites ++ t.waiting ∧
      t'.waiting <:+ t.waiting ∧ t'.db = t.db := by
  cases effect_of_step t t' .callback h with
  | toService e hub hd ht =>
    have hq := Hub.pendingFor_deliver_self t.hub hub e hd
    rw [ht] at hq
    refine ⟨?_, ?_, rfl⟩
    · simp only [waiting, hq, UserService.childAdded, List.map_cons, List.append_assoc,
        List.singleton_append]
    · simp only [waiting, hq, List.map_cons]
      exact List.suffix_cons _ _
  | toScreen e hub i vc hd ht hvc =>
    have hq := Hub.pendingFor_deliver_of_ne t.hub hub e .service hd (by rw [ht]; rintro ⟨⟩)
    refine ⟨?_, ?_, rfl⟩
    · simp only [waiting, hq]
    · simp only [waiting, hq]
      exact List.suffix_rfl

theorem log_callbacks (t t' : Favourites) (n : ℕ)
    (hr : run step t (List.replicate n .callback) = some t') :
    t'.service.favourites ++ t'.waiting = t.service.favourites ++ t.waiting ∧
      t'.waiting <:+ t.waiting ∧ t'.db = t.db := by
  refine run_induction_of_always step (fun _ a => a = .callback) t
    (fun _ x => x.service.favourites ++ x.waiting = t.service.favourites ++ t.waiting ∧
      x.waiting <:+ t.waiting ∧ x.db = t.db)
    ⟨rfl, List.suffix_rfl, rfl⟩ ?_ _ t'
    (always_of_forall step _ t _ fun a ha => List.eq_of_mem_replicate ha) hr
  rintro _ x a x' - ⟨hlog, hsuffix, hdb⟩ rfl h
  obtain ⟨hlog', hsuffix', hdb'⟩ := log_callback x x' h
  exact ⟨hlog'.trans hlog, hsuffix'.trans hsuffix, hdb'.trans hdb⟩

/-! ## One tap -/

section
variable (u : Uid) (p : Product) (s : Favourites)

/-- What a tap on `p` leads to: the list that the cache ends up with, and the database. -/
inductive Taps : List Product → Database → Prop
  | unfavour (hin : s.cached p.id) :
    Taps (s.service.favourites.filter fun q => q.id ≠ p.id) (s.drop u p.id).db
  | favour (hin : ¬ s.cached p.id) :
    Taps (s.service.favourites ++ List.replicate (1 + s.hub.count u .service) p) (s.save u p).db

/-- Right after the tap the callbacks on their way to the cache are for `p`. -/
theorem tapped (hs : Agrees u s) :
    ∃ t, s.step (.favoriteSelected p) = some t ∧ t.Attached ∧ t.currentUser = some u ∧
      (∀ q ∈ t.waiting, q = p) ∧ Taps u p s (t.service.favourites ++ t.waiting) t.db := by
  obtain ⟨t, ht⟩ : ∃ t, s.step (.favoriteSelected p) = some t := by
    simp only [step, hs.user, Option.map_some]
    exact ⟨_, rfl⟩
  have hwaiting := s.waiting_of_idle hs.idle
  refine ⟨t, ht, attached_step s t _ ht hs.attached, ?_⟩
  cases effect_of_step s t _ ht with
  | unfavour u' p hu hin =>
    obtain rfl : u' = u := Option.some.inj (hu.symm.trans hs.user)
    have hdrop := (waiting_drop s u' p.id).trans hwaiting
    have hlog : (s.service.favourites.filter fun q => !Product.eq q p) ++ (s.drop u' p.id).waiting =
        s.service.favourites.filter fun q => q.id ≠ p.id := by
      rw [hdrop, List.append_nil]
      apply List.filter_congr
      intro q _
      by_cases hq : q.id = p.id <;> simp [Product.eq, hq]
    refine ⟨hu, ?_, hlog ▸ .unfavour hin⟩
    intro q hq
    have hmem : q ∈ (s.drop u' p.id).waiting := hq
    rw [hdrop] at hmem
    exact absurd hmem List.not_mem_nil
  | favour u' p hu hin =>
    obtain rfl : u' = u := Option.some.inj (hu.symm.trans hs.user)
    have hnew : (s.db.favourite u').get (stringId p.id) = none := by
      by_contra hsaved
      exact hin ((hs.agree p.id).mpr hsaved)
    have hsave := waiting_save s u' p
    rw [hwaiting, hnew, List.nil_append] at hsave
    have hlog : (s.service.favourites ++ [p]) ++ (s.save u' p).waiting =
        s.service.favourites ++ List.replicate (1 + s.hub.count u' .service) p := by
      rw [hsave, Nat.add_comm, List.replicate_succ, List.append_assoc]
      rfl
    refine ⟨hu, ?_, hlog ▸ .favour hin⟩
    intro q hq
    have hmem : q ∈ (s.save u' p).waiting := hq
    rw [hsave] at hmem
    exact List.eq_of_mem_replicate hmem

/-- The other products keep their order and their copies. -/
theorem Taps.filter (l : List Product) (db : Database) (h : Taps u p s l db) :
    (l.filter fun q => q.id ≠ p.id) = s.service.favourites.filter fun q => q.id ≠ p.id := by
  cases h with
  | unfavour hin => rw [List.filter_filter, List.filter_congr fun q _ => Bool.and_self _]
  | favour hin =>
    rw [List.filter_append, List.append_right_eq_self, List.filter_eq_nil_iff]
    intro q hq
    simp [List.eq_of_mem_replicate hq]

theorem Taps.get (l : List Product) (db : Database) (h : Taps u p s l db) (r : Ref)
    (hr : r ≠ .favourite u (stringId p.id)) : db.get r = s.db.get r := by
  cases h with
  | unfavour hin => exact (s.db.get_setValue _ r _).trans (if_neg hr)
  | favour hin => exact (s.db.get_setValue _ r _).trans (if_neg hr)

/-- From the tap on, as long as callbacks run, only `p` is touched. -/
theorem framed_of_run (t : Favourites) (n : ℕ) (hs : Agrees u s)
    (hr : run step s (.favoriteSelected p :: List.replicate n .callback) = some t) :
    Framed u p s t := by
  obtain ⟨t₀, ht₀, -, -, hwaiting, htaps⟩ := tapped u p s hs
  rw [run, ht₀, Option.bind_some] at hr
  obtain ⟨hlog, hsuffix, hdb⟩ := log_callbacks t₀ t n hr
  rw [← hlog, ← hdb] at htaps
  refine ⟨?_, htaps.get u p s _ _⟩
  have hnil : (t.waiting.filter fun q => q.id ≠ p.id) = [] := by
    rw [List.filter_eq_nil_iff]
    intro q hq
    simp [hwaiting q (hsuffix.subset hq)]
  have hfilter := htaps.filter u p s _ _
  rwa [List.filter_append, hnil, List.append_nil] at hfilter

/-- The state once all callbacks have run. -/
theorem exists_toggle (hs : Agrees u s) :
    ∃ t, s.toggle p = some t ∧ t.hub.queue = [] ∧ t.Attached ∧ t.currentUser = some u ∧
      Taps u p s t.service.favourites t.db := by
  obtain ⟨t₀, ht₀, hattached, hu, -, htaps⟩ := tapped u p s hs
  obtain ⟨t, hd, hq, ha, hdb, hu'⟩ := exists_drain t₀ hattached
  obtain ⟨hlog, -, -⟩ := log_callbacks t₀ t _ hd
  rw [t.waiting_of_idle hq, List.append_nil] at hlog
  refine ⟨t, ?_, hq, ha, hu'.trans hu, ?_⟩
  · rw [toggle, ht₀]
    exact hd
  · rw [hlog, hdb]
    exact htaps

/-- The membership of `p` has changed, and no other. -/
structure Flips (t : Favourites) : Prop where
  cached : ∀ id, t.cached id ↔ if id = p.id then ¬ s.cached id else s.cached id
  saved : ∀ id, t.saved u id ↔ if id = p.id then ¬ s.saved u id else s.saved u id

/-- The ids of the cache after the tap. -/
theorem Taps.mem_ids (l : List Product) (db : Database) (h : Taps u p s l db) (id : ℤ) :
    id ∈ l.map (·.id) ↔ if id = p.id then ¬ s.cached id else s.cached id := by
  by_cases hid : id = p.id
  · subst hid
    rw [if_pos rfl]
    cases h with
    | unfavour hin => simp [hin]
    | favour hin => simp [hin]
  · rw [if_neg hid]
    -- the list restricted to other products is the old one
    have hfilter := congrArg (fun ps => id ∈ ps.map (·.id)) (h.filter u p s)
    have hmem : ∀ ps : List Product,
        id ∈ (ps.filter fun q => q.id ≠ p.id).map (·.id) ↔ id ∈ ps.map (·.id) := by
      intro ps
      simp only [List.mem_map, List.mem_filter, decide_eq_true_eq]
      constructor
      · rintro ⟨q, ⟨hq, -⟩, hqid⟩
        exact ⟨q, hq, hqid⟩
      · rintro ⟨q, hq, rfl⟩
        exact ⟨q, ⟨hq, hid⟩, rfl⟩
    show id ∈ l.map (·.id) ↔ id ∈ s.service.favourites.map (·.id)
    simpa only [hmem, eq_iff_iff] using hfilter

/-- The ids of `favourite/u` after the tap. -/
theorem Taps.saved (hs : Agrees u s) (l : List Product) (db : Database) (h : Taps u p s l db)
    (id : ℤ) : (db.favourite u).get (stringId id) ≠ none ↔
      if id = p.id then ¬ s.saved u id else s.saved u id := by
  by_cases hid : id = p.id
  · subst hid
    rw [if_pos rfl, ← hs.agree]
    cases h with
    | unfavour hin =>
      rw [favourite_drop, if_pos rfl]
      simp [hin]
    | favour hin =>
      rw [favourite_save, if_pos rfl]
      simp [hin]
  · have hr : Ref.favourite u (stringId id) ≠ .favourite u (stringId p.id) := by
      rw [Ne, Ref.favourite.injEq, stringId_inj]
      exact fun h => hid h.2
    have hget : (db.favourite u).get (stringId id) = (s.db.favourite u).get (stringId id) :=
      h.get u p s l db _ hr
    rw [if_neg hid, hget]
    exact Iff.rfl

theorem Taps.keyed (hs : Agrees u s) (l : List Product) (db : Database) (h : Taps u p s l db) :
    FavouriteKeyed (db.favourite u) := by
  cases h with
  | unfavour hin =>
    rw [favourite_drop, if_pos rfl]
    exact hs.keyed.erase _ _
  | favour hin =>
    rw [favourite_save, if_pos rfl]
    exact hs.keyed.insert _ p

/-- One toggle flips the membership of `p`, in the cache and in the database. -/
theorem toggle_flips (hs : Agrees u s) :
    ∃ t, s.toggle p = some t ∧ Agrees u t ∧ Flips u p s t ∧ Framed u p s t := by
  obtain ⟨t, ht, hq, hattached, hu, htaps⟩ := exists_toggle u p s hs
  have hcached := htaps.mem_ids u p s _ _
  have hsaved := htaps.saved u p s hs _ _
  refine ⟨t, ht, ⟨hu, hq, hattached, htaps.keyed u p s hs _ _, fun id => ?_⟩, ⟨hcached, hsaved⟩,
    ⟨htaps.filter u p s _ _, htaps.get u p s _ _⟩⟩
  unfold cached Favourites.saved
  rw [hcached id, hsaved id]
  split
  · rw [hs.agree id]
  · exact hs.agree id

end

/-- **Toggling twice.**  For any number of listeners and any cache that agrees with `favourite/u` on the
ids, a toggle of `p` flips exactly its membership and a second one restores the favourites, in the
cache and in the database; on the way nothing but `p` is touched. -/
theorem favoriteSelected_twice (u : Uid) (p : Product) (s : Favourites) (hs : Agrees u s) :
    ∃ s₁ s₂, s.toggle p = some s₁ ∧ s₁.toggle p = some s₂ ∧
      Agrees u s₁ ∧ Flips u p s s₁ ∧
      Agrees u s₂ ∧ (∀ id, (s₂.cached id ↔ s.cached id) ∧ (s₂.saved u id ↔ s.saved u id)) ∧
      (∀ n t, run step s (.favoriteSelected p :: List.replicate n .callback) = some t →
        Framed u p s t) ∧
      ∀ n t, run step s₁ (.favoriteSelected p :: List.replicate n .callback) = some t →
        Framed u p s t := by
  obtain ⟨s₁, ht₁, hs₁, hflip₁, hframe₁⟩ := toggle_flips u p s hs
  obtain ⟨s₂, ht₂, hs₂, hflip₂, -⟩ := toggle_flips u p s₁ hs₁
  refine ⟨s₁, s₂, ht₁, ht₂, hs₁, hflip₁, hs₂, fun id => ⟨?_, ?_⟩, fun n t hr => ?_, fun n t hr => ?_⟩
  · rw [hflip₂.cached, hflip₁.cached]
    split
    · exact not_not
    · exact Iff.rfl
  · rw [hflip₂.saved, hflip₁.saved]
    split
    · exact not_not
    · exact Iff.rfl
  · exact framed_of_run u p s t n hs hr
  · exact hframe₁.trans u p s s₁ t (framed_of_run u p s₁ t n hs₁ hr)

def tulip : Product := ⟨"Tulip", 2, "tulip", "Flower", "Yellow", 20⟩

/-- Two listeners of the cache, one of a screen; the tulip is a favourite, cached twice. -/
def tulips : Favourites where
  currentUser := some "u"
  db := Database.empty.setValue (.favourite "u" (stringId 2)) (some tulip.favouriteRecord)
  hub := { listeners := [("u", .service), ("u", .screen 0), ("u", .service)] }
  service := ⟨[tulip, tulip]⟩
  screens := [{}]

theorem agrees_tulips : Agrees "u" tulips where
  user := rfl
  idle := rfl
  attached := by
    refine ⟨?_, fun _ he => absurd he List.not_mem_nil⟩
    simp [tulips, hears]
  keyed := FavouriteKeyed.insert ∅ (fun _ _ h => by cases h) tulip
  agree := by
    intro id
    have hsaved := saved_save (start (some "u") Database.empty) "u" tulip id "u"
    show id ∈ [2, 2] ↔ (save (start (some "u") Database.empty) "u" tulip).saved "u" id
    rw [hsaved]
    simp [saved, start, Database.empty, tulip, eq_comm]

theorem favoriteSelected_twice_rose :
    ∃ s₁ s₂, tulips.toggle rose = some s₁ ∧ s₁.toggle rose = some s₂ ∧
      s₁.service.favourites = [tulip, tulip, rose, rose, rose] ∧
      ∀ id, (s₂.cached id ↔ tulips.cached id) ∧ (s₂.saved "u" id ↔ tulips.saved "u" id) := by
  obtain ⟨s₁, s₂, h₁, h₂, -, -, -, h, -⟩ := favoriteSelected_twice "u" rose tulips agrees_tulips
  have hcache : (tulips.toggle rose).map (·.service.favourites) =
      some [tulip, tulip, rose, rose, rose] := rfl
  rw [h₁] at hcache
  exact ⟨s₁, s₂, h₁, h₂, Option.some.inj hcache, h⟩

end Favourites

end FlowerGift
