import FlowerGift.Lib.Hub
import FlowerGift.Lib.Run

/-!
# A screen that polls a node

A `View` shows the children of a node (`source`).  A `tick` empties the list
and registers one more child-added listener, whose callbacks append to the
list; older listeners stay, so a child added later is appended once per
listener.  Nothing tells the view about overwritten or removed children.

The history variable `since : Option (List α)` is the list that the callbacks
of the last tick stand for: the children at that tick, and those added after
it while exactly one listener was live.  It is lost (`none`) when the tick
found callbacks pending, when a child leaves the node, or when a child is
added under several listeners.  Then, once no callback is pending,

    v.shown.Perm v.source.values ↔ ∃ l, since = some l ∧ l.Perm v.source.values
                                                                (shown_perm_iff)

so the list is right exactly if the history is intact and the children still
are what they were then.

A view heals: if a tick finds no callback pending and only deliveries follow
(`Settles`), the list is the children in key order once no callback is pending
again, whatever was listed before (`shown_after_tick`).
-/

set_option linter.unusedSectionVars false

namespace Realtime

variable {κ α : Type} [LinearOrder κ]

/-- Every child sits at the key that it determines. -/
def Keyed (key : α → κ) (m : SortedMap κ α) : Prop := ∀ k a, m.get k = some a → key a = k

theorem Keyed.values_map (key : α → κ) (m : SortedMap κ α) (h : Keyed key m) :
    m.values.map key = m.keys := by
  unfold SortedMap.values SortedMap.keys
  rw [List.map_map]
  apply List.map_congr_left
  rintro ⟨k, a⟩ he
  exact h k a ((m.get_eq_some_iff k a).mpr he)

/-- At most one child has a given key. -/
theorem Keyed.filter_values [DecidableEq κ] (key : α → κ) (m : SortedMap κ α) (h : Keyed key m)
    (k : κ) : (m.values.filter fun a => key a = k) = (m.get k).toList := by
  have hentries : (m.values.filter fun a => key a = k) =
      (m.entries.filter fun e => e.1 = k).map Prod.snd := by
    unfold SortedMap.values
    rw [List.filter_map]
    congr 1
    apply List.filter_congr
    rintro ⟨k', a⟩ he
    have hkey : key a = k' := h k' a ((m.get_eq_some_iff k' a).mpr he)
    simp [hkey]
  rw [hentries]
  cases hg : m.get k with
  | none =>
    have hnil : (m.entries.filter fun e => e.1 = k) = [] := by
      rw [List.filter_eq_nil_iff]
      rintro ⟨k', a⟩ he
      rw [decide_eq_true_eq]
      rintro rfl
      exact (m.get_eq_none_iff k').mp hg a he
    rw [hnil]
    rfl
  | some a =>
    have hrest : ((m.erase k).entries.filter fun e => e.1 = k) = [] := by
      rw [List.filter_eq_nil_iff]
      intro e he
      simpa using ((m.mem_erase_iff k e).mp he).2
    have hperm := (m.entries_erase_perm k a hg).filter fun e => e.1 = k
    rw [List.filter_cons, if_pos (by simp), hrest] at hperm
    rw [hperm.eq_singleton]
    rfl

/-- An owner that is added with an empty list shows what one that is not there shows. -/
theorem getD_map_append {β : Type} (list : β → List α) (owners : List β) (b : β) (hb : list b = [])
    (i : ℕ) : ((owners ++ [b])[i]?.map list).getD [] = (owners[i]?.map list).getD [] := by
  by_cases hi : i < owners.length
  · rw [List.getElem?_append_left hi]
  · rw [List.getElem?_append_right (by omega), List.getElem?_eq_none (l := owners) (by omega)]
    cases i - owners.length with
    | zero => exact hb
    | succ n => rfl

/-- A view: the node it watches, its live listeners, the callbacks on their way, its list. -/
@[ext] structure View (κ α : Type) [LinearOrder κ] where
  source : SortedMap κ α
  listeners : Nat
  pending : List α
  shown : List α

namespace View

/-! ## Steps -/

def tick (v : View κ α) : View κ α where
  source := v.source
  listeners := v.listeners + 1
  pending := v.pending ++ v.source.values
  shown := []

/-- The oldest pending callback runs. -/
def deliver (v : View κ α) (a : α) (rest : List α) : View κ α :=
  { v with pending := rest, shown := v.shown ++ [a] }

/-- One callback per new child and live listener. -/
def arrivals (v : View κ α) (new : SortedMap κ α) : List α :=
  (Hub.added v.source new).flatMap fun e => List.replicate v.listeners e.2

def update (v : View κ α) (new : SortedMap κ α) : View κ α where
  source := new
  listeners := v.listeners
  pending := v.pending ++ v.arrivals new
  shown := v.shown

/-! ## The history variable -/

/-- Some child of `old` is gone in `new`. -/
def lost (old new : SortedMap κ α) : Bool := old.keys.any fun k => (new.get k).isNone

def trackTick (v : View κ α) : Option (List α) :=
  if v.pending.isEmpty then some v.source.values else none

def trackUpdate (v : View κ α) (new : SortedMap κ α) (since : Option (List α)) :
    Option (List α) :=
  if 0 < v.listeners ∧ (lost v.source new ∨ 2 ≤ v.listeners ∧ Hub.added v.source new ≠ []) then none
  else since.map fun l => l ++ v.arrivals new

/-- Something was delivered twice, or stands for a child that is no longer there. -/
def Spoilt (key : α → κ) (v : View κ α) : Prop :=
  ¬ ((v.shown ++ v.pending).map key).Nodup ∨
    ∃ a ∈ v.shown ++ v.pending, v.source.get (key a) = none

/-- What the history variable says about the view. -/
structure Tracks (key : α → κ) (v : View κ α) (since : Option (List α)) : Prop where
  keyed : Keyed key v.source
  idle : v.listeners = 0 → v.shown = [] ∧ v.pending = [] ∧ since = some []
  log : ∀ l, since = some l → v.shown ++ v.pending = l
  cover : ∀ l, since = some l → 0 < v.listeners → (l.map key).Perm v.source.keys
  spoilt : since = none → v.Spoilt key

theorem lost_eq_false_iff (old new : SortedMap κ α) :
    lost old new = false ↔ ∀ k, old.get k ≠ none → new.get k ≠ none := by
  unfold lost
  rw [List.any_eq_false]
  constructor
  · intro h k hk
    have hm := h k ((old.mem_keys_iff k).mpr (Option.isSome_iff_ne_none.mpr hk))
    simpa using hm
  · intro h k hk
    have := h k (Option.isSome_iff_ne_none.mp ((old.mem_keys_iff k).mp hk))
    simpa using this

/-- When no child is lost, the new keys are the old ones and those added. -/
theorem keys_perm_of_not_lost (old new : SortedMap κ α) (h : lost old new = false) :
    new.keys.Perm (old.keys ++ (Hub.added old new).map Prod.fst) := by
  rw [lost_eq_false_iff] at h
  have hadd : ((Hub.added old new).map Prod.fst).Nodup :=
    new.keys_nodup.sublist (List.filter_sublist.map _)
  have hmem : ∀ k, k ∈ (Hub.added old new).map Prod.fst ↔ new.get k ≠ none ∧ old.get k = none := by
    intro k
    rw [List.mem_map]
    constructor
    · rintro ⟨⟨k', a⟩, he, rfl⟩
      obtain ⟨h1, h2⟩ := (Hub.mem_added_iff old new k' a).mp he
      exact ⟨by rw [h1]; simp, h2⟩
    · rintro ⟨h1, h2⟩
      obtain ⟨a, ha⟩ := Option.ne_none_iff_exists'.mp h1
      exact ⟨(k, a), (Hub.mem_added_iff old new k a).mpr ⟨ha, h2⟩, rfl⟩
  apply (List.perm_ext_iff_of_nodup new.keys_nodup _).mpr
  · intro k
    rw [List.mem_append, hmem, old.mem_keys_iff, new.mem_keys_iff, Option.isSome_iff_ne_none,
      Option.isSome_iff_ne_none]
    constructor
    · intro hk
      by_cases ho : old.get k = none
      · exact Or.inr ⟨hk, ho⟩
      · exact Or.inl ho
    · rintro (hk | ⟨hk, _⟩)
      · exact h k hk
      · exact hk
  · apply List.Nodup.append old.keys_nodup hadd
    intro k hk hk'
    exact Option.isSome_iff_ne_none.mp ((old.mem_keys_iff k).mp hk) ((hmem k).mp hk').2

/-- A change that adds no child reaches no listener. -/
theorem arrivals_of_added_nil (v : View κ α) (new : SortedMap κ α)
    (h : Hub.added v.source new = []) : v.arrivals new = [] := by
  unfold arrivals
  rw [h, List.flatMap_nil]

@[simp] theorem update_self (v : View κ α) : v.update v.source = v := by
  simp [update, v.arrivals_of_added_nil v.source (Hub.added_self _)]

@[simp] theorem trackUpdate_self (v : View κ α) (since : Option (List α)) :
    v.trackUpdate v.source since = since := by
  have hlost : lost v.source v.source = false :=
    (lost_eq_false_iff v.source v.source).mpr fun _ hk => hk
  simp [trackUpdate, hlost, v.arrivals_of_added_nil v.source (Hub.added_self _)]

theorem arrivals_of_zero (v : View κ α) (new : SortedMap κ α) (h : v.listeners = 0) :
    v.arrivals new = [] := by
  unfold arrivals
  rw [h]
  simp

theorem arrivals_of_one (v : View κ α) (new : SortedMap κ α) (h : v.listeners = 1) :
    v.arrivals new = (Hub.added v.source new).map Prod.snd := by
  unfold arrivals
  rw [h, List.map_eq_flatMap]
  rfl

theorem mem_arrivals (v : View κ α) (new : SortedMap κ α) (k : κ) (a : α) (hl : 0 < v.listeners)
    (ha : (k, a) ∈ Hub.added v.source new) : a ∈ v.arrivals new := by
  unfold arrivals
  rw [List.mem_flatMap]
  exact ⟨(k, a), ha, List.mem_replicate.mpr ⟨by omega, rfl⟩⟩

/-- An arrival under two listeners comes twice. -/
theorem arrivals_dup (key : α → κ) (v : View κ α) (new : SortedMap κ α) (hl : 2 ≤ v.listeners)
    (hne : Hub.added v.source new ≠ []) : ¬ ((v.arrivals new).map key).Nodup := by
  unfold arrivals
  obtain ⟨e, rest, he⟩ := List.exists_cons_of_ne_nil hne
  rw [he, List.flatMap_cons, List.map_append, List.map_replicate]
  intro hnd
  have h1 := List.nodup_replicate.mp hnd.of_append_left
  omega

/-! ## The history variable tracks the view -/

theorem tracks_start (key : α → κ) (m : SortedMap κ α) (h : Keyed key m) :
    Tracks key ⟨m, 0, [], []⟩ (some []) where
  keyed := h
  idle := fun _ => ⟨rfl, rfl, rfl⟩
  log := fun l hl => by cases hl; rfl
  cover := fun _ _ hl => absurd hl (Nat.lt_irrefl 0)
  spoilt := fun h => by cases h

theorem tracks_tick (key : α → κ) (v : View κ α) (since : Option (List α))
    (h : Tracks key v since) : Tracks key v.tick v.trackTick := by
  refine ⟨h.keyed, fun hl => absurd hl (Nat.succ_ne_zero _), fun l hl => ?_, fun l hl _ => ?_,
    fun hn => ?_⟩
  · unfold trackTick at hl
    split at hl
    · next hp =>
      rw [List.isEmpty_iff] at hp
      cases hl
      simp [tick, hp]
    · cases hl
  · unfold trackTick at hl
    split at hl
    · cases hl
      rw [h.keyed.values_map]
      exact List.Perm.refl _
    · cases hl
  · -- a callback was pending: its child is gone, or the new listener delivers it once more
    unfold trackTick at hn
    split at hn
    · cases hn
    · next hp =>
      rw [List.isEmpty_iff] at hp
      obtain ⟨a, rest, hq⟩ := List.exists_cons_of_ne_nil hp
      cases hg : v.source.get (key a) with
      | none =>
        right
        exact ⟨a, by simp [tick, hq], hg⟩
      | some b =>
        left
        have hb : b ∈ v.source.values := (v.source.mem_values_iff b).mpr ⟨key a, hg⟩
        have hkey : key b = key a := h.keyed _ _ hg
        intro hnd
        simp only [tick, hq, List.nil_append, List.cons_append, List.map_cons, List.map_append,
          List.nodup_cons, List.mem_append] at hnd
        exact hnd.1 (Or.inr (List.mem_map.mpr ⟨b, hb, hkey⟩))

theorem tracks_deliver (key : α → κ) (v : View κ α) (since : Option (List α)) (a : α)
    (rest : List α) (hq : v.pending = a :: rest) (h : Tracks key v since) :
    Tracks key (v.deliver a rest) since := by
  have hlog : (v.deliver a rest).shown ++ (v.deliver a rest).pending = v.shown ++ v.pending := by
    simp [deliver, hq]
  refine ⟨h.keyed, fun hl => ?_, fun l hl => ?_, h.cover, fun hn => ?_⟩
  · have := (h.idle hl).2.1
    rw [hq] at this
    cases this
  · rw [hlog]
    exact h.log l hl
  · unfold Spoilt
    rw [hlog]
    exact h.spoilt hn

/-- Once spoilt, a view stays so under every change of its node. -/
theorem spoilt_update (key : α → κ) (v : View κ α) (new : SortedMap κ α) (hnew : Keyed key new)
    (hl : 0 < v.listeners) (h : v.Spoilt key) : (v.update new).Spoilt key := by
  have hlog : (v.update new).shown ++ (v.update new).pending =
      (v.shown ++ v.pending) ++ v.arrivals new := (List.append_assoc _ _ _).symm
  unfold Spoilt
  rw [hlog, List.map_append]
  rcases h with h | ⟨a, ha, hg⟩
  · exact Or.inl fun hnd => h hnd.of_append_left
  · cases hn : new.get (key a) with
    | none => exact Or.inr ⟨a, List.mem_append_left _ ha, hn⟩
    | some b =>
      -- the child was added again, so it is delivered a second time
      left
      have hb := mem_arrivals v new (key a) b hl ((Hub.mem_added_iff _ _ _ _).mpr ⟨hn, hg⟩)
      intro hnd
      exact (List.nodup_append.mp hnd).2.2 _ (List.mem_map_of_mem ha) _
        (List.mem_map_of_mem hb) (hnew _ _ hn).symm

/-- Where one listener is left to hear of the new children, each of them is delivered once. -/
theorem arrivals_keys (key : α → κ) (v : View κ α) (new : SortedMap κ α) (hnew : Keyed key new)
    (hpos : 0 < v.listeners) (hone : ¬ (2 ≤ v.listeners ∧ Hub.added v.source new ≠ [])) :
    (v.arrivals new).map key = (Hub.added v.source new).map Prod.fst := by
  by_cases h : v.listeners = 1
  · rw [v.arrivals_of_one new h, List.map_map]
    apply List.map_congr_left
    rintro ⟨k, a⟩ he
    exact hnew k a ((Hub.mem_added_iff _ _ _ _).mp he).1
  · have hnil : Hub.added v.source new = [] := by
      by_contra hc
      exact hone ⟨by omega, hc⟩
    simp [arrivals, hnil]

theorem tracks_update (key : α → κ) (v : View κ α) (new : SortedMap κ α) (since : Option (List α))
    (hnew : Keyed key new) (h : Tracks key v since) :
    Tracks key (v.update new) (v.trackUpdate new since) := by
  have hlog : (v.update new).shown ++ (v.update new).pending =
      (v.shown ++ v.pending) ++ v.arrivals new := (List.append_assoc _ _ _).symm
  by_cases hd : 0 < v.listeners ∧ (lost v.source new ∨ 2 ≤ v.listeners ∧ Hub.added v.source new ≠ [])
  · have hnone : v.trackUpdate new since = none := if_pos hd
    rw [hnone]
    obtain ⟨hl, hd⟩ := hd
    refine ⟨hnew, fun h0 => absurd h0 (Nat.ne_of_gt hl), fun l hs => (nomatch hs),
      fun l hs => (nomatch hs), fun _ => ?_⟩
    cases since with
    | none => exact spoilt_update key v new hnew hl (h.spoilt rfl)
    | some l =>
      unfold Spoilt
      rw [hlog]
      rcases hd with hlost | ⟨h2, hne⟩
      · -- the lost child is in the log, since the log covers the children
        right
        obtain ⟨k, hk, hkn⟩ := List.any_eq_true.mp hlost
        have hcov := (h.cover l rfl hl).mem_iff.mpr hk
        obtain ⟨a, ha, rfl⟩ := List.mem_map.mp hcov
        rw [← h.log l rfl] at ha
        exact ⟨a, List.mem_append_left _ ha, Option.isNone_iff_eq_none.mp hkn⟩
      · left
        rw [List.map_append]
        exact fun hnd => arrivals_dup key v new h2 hne hnd.of_append_right
  · have hsome : v.trackUpdate new since = since.map fun l => l ++ v.arrivals new := if_neg hd
    rw [hsome]
    refine ⟨hnew, fun hl => ?_, fun l hl => ?_, fun l hl hpos => ?_, fun hn => ?_⟩
    · obtain ⟨h1, h2, h3⟩ := h.idle hl
      simp [update, h1, h2, h3, v.arrivals_of_zero new hl]
    · obtain ⟨l₀, hl₀, rfl⟩ := Option.map_eq_some_iff.mp hl
      rw [hlog, h.log l₀ hl₀]
    · -- no child was lost: the keys grow by those added, each delivered once
      obtain ⟨l₀, hl₀, rfl⟩ := Option.map_eq_some_iff.mp hl
      have hpos' : 0 < v.listeners := hpos
      have hnl : lost v.source new = false := by
        by_contra hc
        exact hd ⟨hpos', Or.inl (by simpa using hc)⟩
      have hkeys := arrivals_keys key v new hnew hpos' fun h => hd ⟨hpos', Or.inr h⟩
      rw [List.map_append, hkeys]
      exact ((h.cover l₀ hl₀ hpos').append_right _).trans
        (keys_perm_of_not_lost v.source new hnl).symm
    · have hs : since = none := Option.map_eq_none_iff.mp hn
      by_cases hl : 0 < v.listeners
      · exact spoilt_update key v new hnew hl (h.spoilt hs)
      · have := (h.idle (by omega)).2.2
        rw [hs] at this
        cases this

/-! ## What the history variable decides -/

theorem not_perm_of_spoilt (key : α → κ) (v : View κ α) (hk : Keyed key v.source)
    (hp : v.pending = []) (h : v.Spoilt key) : ¬ v.shown.Perm v.source.values := by
  intro hperm
  have hkeys : (v.shown.map key).Perm v.source.keys := by
    rw [← hk.values_map]
    exact hperm.map key
  unfold Spoilt at h
  rw [hp, List.append_nil] at h
  rcases h with h | ⟨a, ha, hg⟩
  · exact h (hkeys.nodup_iff.mpr v.source.keys_nodup)
  · have hm := (v.source.mem_keys_iff _).mp (hkeys.mem_iff.mp (List.mem_map_of_mem ha))
    rw [hg] at hm
    cases hm

/-- **The list is right exactly if the history is intact.**  With no callback pending, the list
shows the children iff the history variable is there and they still are what it recorded. -/
theorem shown_perm_iff (key : α → κ) (v : View κ α) (since : Option (List α))
    (h : Tracks key v since) (hp : v.pending = []) :
    v.shown.Perm v.source.values ↔ ∃ l, since = some l ∧ l.Perm v.source.values := by
  have hlog : ∀ l, since = some l → v.shown = l := by
    intro l hl
    have := h.log l hl
    rwa [hp, List.append_nil] at this
  constructor
  · intro hperm
    cases hs : since with
    | none => exact absurd hperm (not_perm_of_spoilt key v h.keyed hp (h.spoilt hs))
    | some l => exact ⟨l, rfl, hlog l hs ▸ hperm⟩
  · rintro ⟨l, hl, hperm⟩
    rw [hlog l hl]
    exact hperm

/-- While a callback is pending an intact history means that a child is still missing. -/
theorem not_perm_of_pending (key : α → κ) (v : View κ α) (l : List α)
    (h : Tracks key v (some l)) (hp : v.pending ≠ []) : ¬ v.shown.Perm v.source.values := by
  intro hperm
  have hpos : 0 < v.listeners := by
    by_contra hl
    exact hp (h.idle (by omega)).2.1
  have hlen := (h.cover l rfl hpos).length_eq
  have hlog := congrArg List.length (h.log l rfl)
  have hshown := hperm.length_eq
  have hpend := List.length_pos_of_ne_nil hp
  simp only [List.length_map, SortedMap.keys, SortedMap.values, List.length_append] at hlen hlog hshown
  omega

/-- While the history is intact no key is delivered twice. -/
theorem log_keys_nodup (key : α → κ) (v : View κ α) (l : List α) (h : Tracks key v (some l)) :
    ((v.shown ++ v.pending).map key).Nodup := by
  rw [h.log l rfl]
  by_cases hl : 0 < v.listeners
  · exact (h.cover l rfl hl).nodup_iff.mpr v.source.keys_nodup
  · have := (h.idle (by omega)).2.2
    cases this
    exact List.nodup_nil

/-! ## Healing -/

/-- What a step that is no tick and no change of the node does to a view. -/
inductive Settles (v : View κ α) : View κ α → Prop
  | same : Settles v v
  | deliver (a : α) (rest : List α) (hp : v.pending = a :: rest) : Settles v (v.deliver a rest)

/-- The list and what is still to come, taken together, stay the same. -/
theorem Settles.log (v v' : View κ α) (h : v.Settles v') :
    v'.shown ++ v'.pending = v.shown ++ v.pending := by
  cases h with
  | same => rfl
  | deliver a rest hp => rw [hp, View.deliver, List.append_assoc, List.singleton_append]

section
variable {σ β : Type} (step : σ → β → Option σ) (C : σ → β → Prop) (view : σ → View κ α)
  (hstep : ∀ s b s', C s b → step s b = some s' → (view s).Settles (view s'))

include hstep in
theorem log_run (s s' : σ) (tr : List β) (hc : Always step C s tr) (hr : run step s tr = some s') :
    (view s').shown ++ (view s').pending = (view s).shown ++ (view s).pending := by
  refine run_induction_of_always step C s (fun _ t => (view t).shown ++ (view t).pending =
    (view s).shown ++ (view s).pending) rfl ?_ tr s' hc hr
  intro _ t b t' _ ht hb h
  rw [(hstep t b t' hb h).log, ht]

include hstep in
/-- **One tick heals the list.** -/
theorem shown_after_tick (s₁ s₂ s₃ : σ) (tr : List β) (hp : (view s₁).pending = [])
    (htick : view s₂ = (view s₁).tick) (hc : Always step C s₂ tr) (hr : run step s₂ tr = some s₃)
    (hp' : (view s₃).pending = []) : (view s₃).shown = (view s₁).source.values := by
  have hlog := log_run step C view hstep s₂ s₃ tr hc hr
  rw [hp', List.append_nil, htick, tick, hp] at hlog
  exact hlog

end

end View

end Realtime
