import FlowerGift.Lib.Run
import FlowerGift.Lib.SortedMap

/-!
# Child-added listeners and their callback queue

A realtime database tells the listeners of a node about its children through
callbacks that run later, first in first out, on one queue.  A `Hub` holds the
listeners (node and target, in registration order, never removed unless the
client removes them) and the queue:

* `observe n t m`: one more listener on `n`, and one callback per child `m`
  already has, in key order;
* `deliver`: the oldest callback leaves the queue to run;
* `changed n old new`: the children of `n` went from `old` to `new`; every
  listener on `n` gets one callback per key that was not there before.
  Overwritten and removed children give none.

What one target still has to receive is `pendingFor`; `pendingFor_observe_self`,
`pendingFor_changed` and `pendingFor_deliver_self` say what each operation does to it.
`Addressed P` says that only targets that meet `P` are told anything, and
`exists_drained` that a queue can be emptied if its oldest callback can always run.
-/

set_option linter.unusedSectionVars false

namespace Realtime

/-- A callback waiting on the queue: the child `key ↦ value` of `node`, for `target`. -/
structure Event (ι τ κ ν : Type) where
  node : ι
  target : τ
  key : κ
  value : ν

structure Hub (ι τ κ ν : Type) where
  listeners : List (ι × τ) := []
  queue : List (Event ι τ κ ν) := []

namespace Hub

variable {ι τ κ ν : Type} [DecidableEq ι] [DecidableEq τ] [LinearOrder κ]

def observe (h : Hub ι τ κ ν) (n : ι) (t : τ) (m : SortedMap κ ν) : Hub ι τ κ ν where
  listeners := h.listeners ++ [(n, t)]
  queue := h.queue ++ m.entries.map fun e => ⟨n, t, e.1, e.2⟩

/-- The entries of `new` at keys that `old` does not have, in key order. -/
def added (old new : SortedMap κ ν) : List (κ × ν) :=
  new.entries.filter fun e => (old.get e.1).isNone

def changed (h : Hub ι τ κ ν) (n : ι) (old new : SortedMap κ ν) : Hub ι τ κ ν where
  listeners := h.listeners
  queue := h.queue ++ (added old new).flatMap fun e =>
    (h.listeners.filter fun l => l.1 = n).map fun l => ⟨n, l.2, e.1, e.2⟩

/-- The oldest callback, and the hub without it. -/
def deliver (h : Hub ι τ κ ν) : Option (Event ι τ κ ν × Hub ι τ κ ν) :=
  match h.queue with
  | [] => none
  | e :: queue => some (e, { h with queue })

/-- The callbacks still to come for `t`, oldest first. -/
def pendingFor (h : Hub ι τ κ ν) (t : τ) : List (Event ι τ κ ν) :=
  h.queue.filter fun e => e.target = t

/-- The number of live listeners of `t` on `n`. -/
def count (h : Hub ι τ κ ν) (n : ι) (t : τ) : Nat := h.listeners.count (n, t)

/-- The number of live listeners on `n`. -/
def live (h : Hub ι τ κ ν) (n : ι) : Nat := h.listeners.countP fun l => l.1 = n

/-! ## New children -/

theorem mem_added_iff (old new : SortedMap κ ν) (k : κ) (v : ν) :
    (k, v) ∈ added old new ↔ new.get k = some v ∧ old.get k = none := by
  unfold added
  rw [List.mem_filter, ← SortedMap.get_eq_some_iff, Option.isNone_iff_eq_none]

@[simp] theorem added_self (m : SortedMap κ ν) : added m m = [] := by
  rw [List.eq_nil_iff_forall_not_mem]
  rintro ⟨k, v⟩ he
  obtain ⟨h1, h2⟩ := (mem_added_iff m m k v).mp he
  rw [h1] at h2
  cases h2

@[simp] theorem added_erase (m : SortedMap κ ν) (k : κ) : added m (m.erase k) = [] := by
  rw [List.eq_nil_iff_forall_not_mem]
  rintro ⟨k', v⟩ he
  obtain ⟨h1, h2⟩ := (mem_added_iff _ _ k' v).mp he
  rw [SortedMap.get_erase] at h1
  split at h1
  · cases h1
  · rw [h1] at h2; cases h2

/-- Overwriting a child adds none. -/
theorem added_insert_of_some (m : SortedMap κ ν) (k : κ) (v w : ν) (h : m.get k = some w) :
    added m (m.insert k v) = [] := by
  rw [List.eq_nil_iff_forall_not_mem]
  rintro ⟨k', v'⟩ he
  obtain ⟨h1, h2⟩ := (mem_added_iff _ _ k' v').mp he
  rw [SortedMap.get_insert] at h1
  split at h1
  · next hk => rw [hk, h] at h2; cases h2
  · rw [h1] at h2; cases h2

theorem added_insert_of_none (m : SortedMap κ ν) (k : κ) (v : ν) (h : m.get k = none) :
    added m (m.insert k v) = [(k, v)] := by
  have hnd : (added m (m.insert k v)).Nodup := (m.insert k v).entries_nodup.filter _
  apply List.perm_singleton.mp
  apply (List.perm_ext_iff_of_nodup hnd (List.nodup_singleton _)).mpr
  rintro ⟨k', v'⟩
  rw [mem_added_iff, SortedMap.get_insert, List.mem_singleton, Prod.mk.injEq]
  constructor
  · rintro ⟨h1, h2⟩
    split at h1
    · next hk => exact ⟨hk, (Option.some.inj h1).symm⟩
    · rw [h1] at h2; cases h2
  · rintro ⟨rfl, rfl⟩
    exact ⟨if_pos rfl, h⟩

theorem added_mapVal {μ : Type} (f : ν → μ) (old new : SortedMap κ ν) :
    added (old.mapVal f) (new.mapVal f) = (added old new).map fun e => (e.1, f e.2) := by
  unfold added
  have hnew : (new.mapVal f).entries = new.entries.map fun e => (e.1, f e.2) := rfl
  rw [hnew, List.filter_map]
  congr 1
  apply List.filter_congr
  intro e _
  simp

/-! ## What one target has to receive -/

@[simp] theorem listeners_changed (h : Hub ι τ κ ν) (n : ι) (old new : SortedMap κ ν) :
    (h.changed n old new).listeners = h.listeners := rfl

/-- A change that adds no child is not heard of. -/
theorem changed_of_added_nil (h : Hub ι τ κ ν) (n : ι) (old new : SortedMap κ ν)
    (hn : added old new = []) : h.changed n old new = h := by
  simp [changed, hn]

@[simp] theorem changed_self (h : Hub ι τ κ ν) (n : ι) (m : SortedMap κ ν) : h.changed n m m = h :=
  h.changed_of_added_nil n m m (added_self m)

/-- A change of a node that nobody listens on is not heard of. -/
theorem changed_of_deaf (h : Hub ι τ κ ν) (n : ι) (old new : SortedMap κ ν)
    (hn : ∀ l ∈ h.listeners, l.1 ≠ n) : h.changed n old new = h := by
  have hnone : (h.listeners.filter fun l => l.1 = n) = [] := by
    rw [List.filter_eq_nil_iff]
    intro l hl
    simpa using hn l hl
  have hqueue : (added old new).flatMap (fun _ => ([] : List (Event ι τ κ ν))) = [] :=
    List.flatMap_eq_nil_iff.mpr fun _ _ => rfl
  simp [changed, hnone, hqueue]

theorem count_observe (h : Hub ι τ κ ν) (n n' : ι) (t t' : τ) (m : SortedMap κ ν) :
    (h.observe n' t' m).count n t = h.count n t + if n' = n ∧ t' = t then 1 else 0 := by
  unfold count observe
  rw [List.count_append, List.count_singleton]
  simp only [beq_iff_eq, Prod.mk.injEq]

@[simp] theorem count_changed (h : Hub ι τ κ ν) (n n' : ι) (t : τ) (old new : SortedMap κ ν) :
    (h.changed n' old new).count n t = h.count n t := rfl

theorem live_observe (h : Hub ι τ κ ν) (n n' : ι) (t : τ) (m : SortedMap κ ν) :
    (h.observe n' t m).live n = h.live n + if n' = n then 1 else 0 := by
  unfold live observe
  rw [List.countP_append, List.countP_singleton]
  simp only [decide_eq_true_eq]

/-- An empty queue holds nothing for anybody. -/
theorem pendingFor_of_idle (h : Hub ι τ κ ν) (t : τ) (hq : h.queue = []) : h.pendingFor t = [] := by
  unfold pendingFor
  rw [hq, List.filter_nil]

theorem pendingFor_observe_self (h : Hub ι τ κ ν) (n : ι) (t : τ) (m : SortedMap κ ν) :
    (h.observe n t m).pendingFor t =
      h.pendingFor t ++ m.entries.map fun e => ⟨n, t, e.1, e.2⟩ := by
  unfold pendingFor observe
  rw [List.filter_append]
  congr 1
  rw [List.filter_eq_self]
  intro e he
  obtain ⟨e', _, rfl⟩ := List.mem_map.mp he
  simp

theorem pendingFor_observe_of_ne (h : Hub ι τ κ ν) (n : ι) (t t' : τ) (m : SortedMap κ ν)
    (ht : t' ≠ t) : (h.observe n t' m).pendingFor t = h.pendingFor t := by
  unfold pendingFor observe
  rw [List.filter_append, List.append_right_eq_self, List.filter_eq_nil_iff]
  intro e he
  obtain ⟨e', _, rfl⟩ := List.mem_map.mp he
  simpa using ht

/-- The listeners of `t` on `n`, each mapped to the same event. -/
theorem events_of_listeners (ls : List (ι × τ)) (n : ι) (t : τ) (e : κ × ν) :
    (((ls.filter fun l => l.1 = n).map fun l => (⟨n, l.2, e.1, e.2⟩ : Event ι τ κ ν)).filter
      fun ev => ev.target = t) = List.replicate (ls.count (n, t)) ⟨n, t, e.1, e.2⟩ := by
  induction ls with
  | nil => rfl
  | cons l ls ih =>
    obtain ⟨n', t'⟩ := l
    rw [List.count_cons, List.filter_cons]
    by_cases hn : n' = n
    · subst hn
      by_cases ht : t' = t
      · subst ht
        simp [ih, List.replicate_succ]
      · simp [ih, ht]
    · simp [ih, hn]

/-- A change gives `t` one callback per new child and listener it has on the node. -/
theorem pendingFor_changed (h : Hub ι τ κ ν) (n : ι) (t : τ) (old new : SortedMap κ ν) :
    (h.changed n old new).pendingFor t = h.pendingFor t ++
      (added old new).flatMap fun e => List.replicate (h.count n t) ⟨n, t, e.1, e.2⟩ := by
  unfold pendingFor changed count
  rw [List.filter_append, List.filter_flatMap]
  congr 1
  apply List.flatMap_congr
  intro e _
  exact events_of_listeners h.listeners n t e

theorem deliver_eq_some_iff (h h' : Hub ι τ κ ν) (e : Event ι τ κ ν) :
    h.deliver = some (e, h') ↔ h.queue = e :: h'.queue ∧ h'.listeners = h.listeners := by
  obtain ⟨ls, q⟩ := h
  obtain ⟨ls', q'⟩ := h'
  cases q with
  | nil => simp [deliver]
  | cons e' q =>
    simp only [deliver, Option.some.injEq, Prod.mk.injEq, mk.injEq, List.cons.injEq]
    constructor
    · rintro ⟨rfl, rfl, rfl⟩
      exact ⟨⟨rfl, rfl⟩, rfl⟩
    · rintro ⟨⟨rfl, rfl⟩, rfl⟩
      exact ⟨rfl, rfl, rfl⟩

theorem queue_deliver (h h' : Hub ι τ κ ν) (e : Event ι τ κ ν) (hd : h.deliver = some (e, h')) :
    h.queue = e :: h'.queue := ((deliver_eq_some_iff h h' e).mp hd).1

theorem listeners_deliver (h h' : Hub ι τ κ ν) (e : Event ι τ κ ν)
    (hd : h.deliver = some (e, h')) : h'.listeners = h.listeners :=
  ((deliver_eq_some_iff h h' e).mp hd).2

theorem mem_queue_of_deliver (h h' : Hub ι τ κ ν) (e : Event ι τ κ ν)
    (hd : h.deliver = some (e, h')) : e ∈ h.queue := by
  rw [queue_deliver h h' e hd]
  exact List.mem_cons_self

theorem mem_queue_deliver (h h' : Hub ι τ κ ν) (e e' : Event ι τ κ ν)
    (hd : h.deliver = some (e, h')) (he : e' ∈ h'.queue) : e' ∈ h.queue := by
  rw [queue_deliver h h' e hd]
  exact List.mem_cons_of_mem _ he

/-- The oldest callback of the queue is the oldest one of its target. -/
theorem pendingFor_deliver_self (h h' : Hub ι τ κ ν) (e : Event ι τ κ ν)
    (hd : h.deliver = some (e, h')) : h.pendingFor e.target = e :: h'.pendingFor e.target := by
  unfold pendingFor
  rw [queue_deliver h h' e hd, List.filter_cons, if_pos (by simp)]

theorem pendingFor_deliver_of_ne (h h' : Hub ι τ κ ν) (e : Event ι τ κ ν) (t : τ)
    (hd : h.deliver = some (e, h')) (ht : e.target ≠ t) : h.pendingFor t = h'.pendingFor t := by
  unfold pendingFor
  rw [queue_deliver h h' e hd, List.filter_cons, if_neg (by simpa using ht)]

theorem count_deliver (h h' : Hub ι τ κ ν) (e : Event ι τ κ ν) (n : ι) (t : τ)
    (hd : h.deliver = some (e, h')) : h'.count n t = h.count n t := by
  unfold count
  rw [listeners_deliver h h' e hd]

/-- Every callback that `observe` queues is for a child that is there. -/
theorem mem_queue_observe (h : Hub ι τ κ ν) (n : ι) (t : τ) (m : SortedMap κ ν)
    (e : Event ι τ κ ν) (he : e ∈ (h.observe n t m).queue) :
    e ∈ h.queue ∨ (e.node = n ∧ e.target = t ∧ m.get e.key = some e.value) := by
  rcases List.mem_append.mp he with he | he
  · exact Or.inl he
  · obtain ⟨e', he', rfl⟩ := List.mem_map.mp he
    exact Or.inr ⟨rfl, rfl, (m.get_eq_some_iff _ _).mpr he'⟩

/-- Every callback that `changed` queues is for a child of the new state that was not there, and
for a listener of that node. -/
theorem mem_queue_changed (h : Hub ι τ κ ν) (n : ι) (old new : SortedMap κ ν)
    (e : Event ι τ κ ν) (he : e ∈ (h.changed n old new).queue) :
    e ∈ h.queue ∨ (e.node = n ∧ (n, e.target) ∈ h.listeners ∧ new.get e.key = some e.value ∧
      old.get e.key = none) := by
  rcases List.mem_append.mp he with he | he
  · exact Or.inl he
  · obtain ⟨⟨k, v⟩, hkv, he⟩ := List.mem_flatMap.mp he
    obtain ⟨⟨n', t⟩, hl, rfl⟩ := List.mem_map.mp he
    obtain ⟨hmem, hn⟩ := List.mem_filter.mp hl
    obtain ⟨h1, h2⟩ := (mem_added_iff old new k v).mp hkv
    have hn : n' = n := by simpa using hn
    exact Or.inr ⟨rfl, hn ▸ hmem, h1, h2⟩

/-! ## Who is addressed -/

/-- Every listener and every callback is for a target that meets `P`. -/
structure Addressed (P : τ → Prop) (h : Hub ι τ κ ν) : Prop where
  listeners : ∀ l ∈ h.listeners, P l.2
  queue : ∀ e ∈ h.queue, P e.target

section
variable (P : τ → Prop) (h : Hub ι τ κ ν)

theorem addressed_empty : Addressed P ({} : Hub ι τ κ ν) where
  listeners := fun _ hl => absurd hl List.not_mem_nil
  queue := fun _ he => absurd he List.not_mem_nil

theorem Addressed.mono (Q : τ → Prop) (hP : h.Addressed P) (hPQ : ∀ t, P t → Q t) :
    h.Addressed Q where
  listeners := fun l hl => hPQ l.2 (hP.listeners l hl)
  queue := fun e he => hPQ e.target (hP.queue e he)

theorem Addressed.observe (n : ι) (t : τ) (m : SortedMap κ ν) (hP : h.Addressed P) (ht : P t) :
    (h.observe n t m).Addressed P := by
  refine ⟨fun l hl => ?_, fun e he => ?_⟩
  · rcases List.mem_append.mp hl with hl | hl
    · exact hP.listeners l hl
    · exact List.mem_singleton.mp hl ▸ ht
  · rcases mem_queue_observe h n t m e he with he | ⟨-, he, -⟩
    · exact hP.queue e he
    · exact he ▸ ht

theorem Addressed.changed (n : ι) (old new : SortedMap κ ν) (hP : h.Addressed P) :
    (h.changed n old new).Addressed P := by
  refine ⟨hP.listeners, fun e he => ?_⟩
  rcases mem_queue_changed h n old new e he with he | ⟨-, hl, -, -⟩
  · exact hP.queue e he
  · exact hP.listeners _ hl

theorem Addressed.deliver (h' : Hub ι τ κ ν) (e : Event ι τ κ ν) (hP : h.Addressed P)
    (hd : h.deliver = some (e, h')) : h'.Addressed P := by
  refine ⟨?_, fun e' he' => hP.queue e' (mem_queue_deliver h h' e e' hd he')⟩
  rw [listeners_deliver h h' e hd]
  exact hP.listeners

end

/-! ## Emptying the queue -/

/-- While a callback waits, the oldest one can be taken out. -/
theorem exists_deliver (h : Hub ι τ κ ν) (hq : h.queue.length ≠ 0) :
    ∃ e h', h.deliver = some (e, h') ∧ h.queue.length = h'.queue.length + 1 := by
  obtain ⟨e, queue, he⟩ := List.exists_cons_of_length_pos (Nat.pos_of_ne_zero hq)
  refine ⟨e, { h with queue }, ?_, ?_⟩
  · simp only [Hub.deliver, he]
  · rw [he, List.length_cons]

/-- A system that can always run the oldest callback can run all of them. -/
theorem exists_drained {σ α : Type} (step : σ → α → Option σ) (callback : α)
    (hub : σ → Hub ι τ κ ν) (Inv : σ → Prop)
    (hstep : ∀ s e h', Inv s → (hub s).deliver = some (e, h') →
      ∃ s', step s callback = some s' ∧ Inv s' ∧ hub s' = h') (s : σ) (h : Inv s) :
    ∃ s', run step s (List.replicate (hub s).queue.length callback) = some s' ∧ Inv s' ∧
      (hub s').queue = [] := by
  have hnext : ∀ t, Inv t → (hub t).queue.length ≠ 0 → ∃ t', step t callback = some t' ∧ Inv t' ∧
      (hub t).queue.length = (hub t').queue.length + 1 := by
    intro t ht hq
    obtain ⟨e, h', hd, hlen⟩ := (hub t).exists_deliver hq
    obtain ⟨t', hst, ht', rfl⟩ := hstep t e h' ht hd
    exact ⟨t', hst, ht', hlen⟩
  obtain ⟨s', hr, hs', hz⟩ := run_drain step callback (fun t => (hub t).queue.length) Inv hnext s h
  exact ⟨s', hr, hs', List.length_eq_zero_iff.mp hz⟩

end Hub

end Realtime
