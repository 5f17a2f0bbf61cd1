import Mathlib.Data.List.Infix
import Mathlib.Data.Option.Basic

/-!
# Documents and writes over them

A document is what it has at each path: a leaf or nothing (`Doc`).  Writing a
document at a path replaces what is at and below the path; a leaf above gives
way, unless what is written is the empty document:

    (d.write p a).sub q = a.sub (q - p)             if `p` is a prefix of `q`
                          (d.sub q).write (p - q) a if `q` is a prefix of `p`
                          d.sub q                   otherwise       (sub_write)

An overlay is what a set of pending writes says about each path: a whole
document, or nothing for sure.  `layer` builds it write by write, and laying it
over a document is writing one after the other, as long as the document has no
leaf strictly above a written path (`apply_layer`).

Taking writes out of the middle again: `layer_covered` for writes that a later
one covers, `remove_layer` for writes that no other one touches.
-/

namespace Realtime

variable {κ α : Type}

/-! ## Paths -/

section Paths

variable (p q r : List κ)

/-- Neither path leads on from the other. -/
def Apart (p q : List κ) : Prop := ¬ p <+: q ∧ ¬ q <+: p

theorem Apart.symm (h : Apart p q) : Apart q p := ⟨h.2, h.1⟩

theorem Apart.extend (h : Apart p q) (hr : q <+: r) : Apart p r := by
  refine ⟨fun hpr => ?_, fun hrp => h.2 (hr.trans hrp)⟩
  rcases List.prefix_or_prefix_of_prefix hpr hr with hpq | hqp
  · exact h.1 hpq
  · exact h.2 hqp

end Paths

/-! ## Documents -/

/-- What a document has at each path. -/
abbrev Doc (κ α : Type) := List κ → Option α

namespace Doc

def empty : Doc κ α := fun _ => none

/-- What is at and below `p`. -/
def sub (d : Doc κ α) (p : List κ) : Doc κ α := fun q => d (p ++ q)

open Classical in
/-- `a` takes the place of what is at and below `p`. -/
noncomputable def write (d : Doc κ α) (p : List κ) (a : Doc κ α) : Doc κ α := fun q =>
  if p <+: q then a (q.drop p.length)
  else if q <+: p ∧ a ≠ empty then none
  else d q

@[simp] theorem sub_nil (d : Doc κ α) : d.sub [] = d := rfl

@[simp] theorem sub_empty (p : List κ) : (empty : Doc κ α).sub p = empty := rfl

theorem sub_sub (d : Doc κ α) (p q : List κ) : (d.sub p).sub q = d.sub (p ++ q) := by
  funext r
  simp [sub, List.append_assoc]

section Write

variable (d : Doc κ α) (p q : List κ) (a : Doc κ α)

theorem write_below (h : p <+: q) : d.write p a q = a (q.drop p.length) := if_pos h

open Classical in
theorem write_above (h : q <+: p) (hne : q ≠ p) :
    d.write p a q = if a = empty then d q else none := by
  have hpq : ¬ p <+: q := fun hpq => hne (h.eq_of_length_le hpq.length_le)
  unfold write
  rw [if_neg hpq]
  by_cases ha : a = empty
  · rw [if_neg fun h => h.2 ha, if_pos ha]
  · rw [if_pos ⟨h, ha⟩, if_neg ha]

theorem write_apart (h : Apart p q) : d.write p a q = d q := by
  unfold write
  rw [if_neg h.1, if_neg fun hq => h.2 hq.1]

@[simp] theorem write_nil : d.write [] a = a := by
  funext q
  exact write_below d [] q a List.nil_prefix

/-- At or below the path what is written shows, -/
theorem sub_write_below (h : p <+: q) : (d.write p a).sub q = a.sub (q.drop p.length) := by
  funext r
  obtain ⟨s, rfl⟩ := h
  have hp : p <+: p ++ s ++ r := ⟨s ++ r, (List.append_assoc p s r).symm⟩
  rw [sub, write_below d _ _ a hp, sub, List.append_assoc, List.drop_left, List.drop_left]

open Classical in
/-- above it the same write seen from there, -/
theorem sub_write_above (h : q <+: p) : (d.write p a).sub q = (d.sub q).write (p.drop q.length) a := by
  funext r
  obtain ⟨s, rfl⟩ := h
  have hdrop : (q ++ r).drop (q ++ s).length = r.drop s.length := by
    rw [List.length_append, List.drop_append, List.drop_of_length_le (Nat.le_add_right _ _),
      Nat.add_sub_cancel_left, List.nil_append]
  show (d.write (q ++ s) a) (q ++ r) = (d.sub q).write ((q ++ s).drop q.length) a r
  rw [List.drop_left]
  exact if_congr (List.prefix_append_right_inj q) (congrArg a hdrop)
    (if_congr (and_congr_left' (List.prefix_append_right_inj q)) rfl rfl)

/-- and apart from it nothing changes. -/
theorem sub_write_apart (h : Apart p q) : (d.write p a).sub q = d.sub q := by
  funext r
  exact write_apart d p (q ++ r) a (h.extend p q (q ++ r) (List.prefix_append q r))

end Write

end Doc

/-! ## Overlays -/

/-- What pending writes say about each path: the whole document there, or nothing for sure. -/
abbrev Overlay (κ α : Type) := List κ → Option (Doc κ α)

namespace Overlay

open Doc

def empty : Overlay κ α := fun _ => none

open Classical in
/-- One more write: it decides at and below its path, and shows in what is known above. -/
noncomputable def add (w : Overlay κ α) (p : List κ) (a : Doc κ α) : Overlay κ α := fun q =>
  if p <+: q then some (a.sub (q.drop p.length))
  else if q <+: p then (w q).map fun d => d.write (p.drop q.length) a
  else w q

open Classical in
/-- The overlay laid over a document. -/
noncomputable def apply (w : Overlay κ α) (d : Doc κ α) : Doc κ α := fun q =>
  match w q with
  | some a => a []
  | none => if ∃ q', q <+: q' ∧ ∃ a, w q' = some a ∧ a ≠ Doc.empty then none else d q

/-- What the overlay says at and below `p`. -/
def sub (w : Overlay κ α) (p : List κ) : Overlay κ α := fun q => w (p ++ q)

theorem apply_some (w : Overlay κ α) (d a : Doc κ α) (q : List κ) (h : w q = some a) :
    w.apply d q = a [] := by
  simp only [apply, h]

open Classical in
theorem apply_none (w : Overlay κ α) (d : Doc κ α) (q : List κ) (h : w q = none) :
    w.apply d q =
      if ∃ q', q <+: q' ∧ ∃ a, w q' = some a ∧ a ≠ Doc.empty then none else d q := by
  simp only [apply, h]

open Classical in
/-- Taking away what is at and below `p`; where something above decides, nothing happens. -/
noncomputable def remove (w : Overlay κ α) (p : List κ) : Overlay κ α :=
  if ∃ r, r <+: p ∧ r ≠ p ∧ w r ≠ none then w else fun q => if p <+: q then none else w q

/-- The writes, one over the other. -/
noncomputable def layer (ws : List (List κ × Doc κ α)) : Overlay κ α :=
  ws.foldl (fun w e => w.add e.1 e.2) empty

section Add

variable (w : Overlay κ α) (p q : List κ) (a : Doc κ α)

theorem add_below (h : p <+: q) : w.add p a q = some (a.sub (q.drop p.length)) := if_pos h

theorem add_above (h : q <+: p) (hne : q ≠ p) :
    w.add p a q = (w q).map fun d => d.write (p.drop q.length) a := by
  have hpq : ¬ p <+: q := fun hpq => hne (h.eq_of_length_le hpq.length_le)
  unfold add
  rw [if_neg hpq, if_pos h]

theorem add_apart (h : Apart p q) : w.add p a q = w q := by
  unfold add
  rw [if_neg h.1, if_neg h.2]

/-- What a write leaves known at a path depends on that path only. -/
theorem add_congr (w' : Overlay κ α) (h : w q = w' q) : w.add p a q = w'.add p a q := by
  unfold add
  rw [h]

end Add

theorem foldl_add_congr (ws : List (List κ × Doc κ α)) (w w' : Overlay κ α) (q : List κ)
    (h : w q = w' q) : ws.foldl (fun w e => w.add e.1 e.2) w q =
      ws.foldl (fun w e => w.add e.1 e.2) w' q := by
  induction ws generalizing w w' with
  | nil => exact h
  | cons e ws ih => exact ih _ _ (add_congr w e.1 q e.2 w' h)

/-- Writes that neither cover a path nor show in what is known there leave it alone. -/
theorem foldl_add_unseen (ws : List (List κ × Doc κ α)) (w : Overlay κ α) (q : List κ)
    (h : ∀ e ∈ ws, ¬ e.1 <+: q) (hq : w q = none ∨ ∀ e ∈ ws, ¬ q <+: e.1) :
    ws.foldl (fun w e => w.add e.1 e.2) w q = w q := by
  induction ws generalizing w with
  | nil => rfl
  | cons e ws ih =>
    obtain ⟨he, hws⟩ := List.forall_mem_cons.mp h
    have hone : w.add e.1 e.2 q = w q := by
      by_cases hqe : q <+: e.1
      · rcases hq with hq | hq
        · rw [add_above w e.1 q e.2 hqe fun hne => he (hne ▸ List.prefix_rfl), hq, Option.map_none]
        · exact absurd hqe (hq e List.mem_cons_self)
      · exact add_apart w e.1 q e.2 ⟨he, hqe⟩
    rw [List.foldl_cons, ih _ hws, hone]
    rw [hone]
    exact hq.imp_right fun hq e' he' => hq e' (List.mem_cons_of_mem e he')

theorem layer_append (us ws : List (List κ × Doc κ α)) :
    layer (us ++ ws) = ws.foldl (fun w e => w.add e.1 e.2) (layer us) := List.foldl_append

/-- A path that no write covers is not known. -/
theorem layer_eq_none (ws : List (List κ × Doc κ α)) (q : List κ) (h : ∀ e ∈ ws, ¬ e.1 <+: q) :
    layer ws q = none := foldl_add_unseen ws empty q h (Or.inl rfl)

theorem add_ne_none (w : Overlay κ α) (p q : List κ) (a : Doc κ α) (h : w q ≠ none ∨ p <+: q) :
    w.add p a q ≠ none := by
  by_cases hpq : p <+: q
  · rw [add_below w p q a hpq]
    exact Option.some_ne_none _
  · have hw := h.resolve_right hpq
    by_cases hqp : q <+: p
    · rw [add_above w p q a hqp fun hne => hpq (hne ▸ List.prefix_rfl)]
      exact fun hmap => hw (Option.map_eq_none_iff.mp hmap)
    · rwa [add_apart w p q a ⟨hpq, hqp⟩]

/-- A path that some write covers is known. -/
theorem layer_ne_none (ws : List (List κ × Doc κ α)) (q : List κ) (h : ∃ e ∈ ws, e.1 <+: q) :
    layer ws q ≠ none := by
  have hrun : ∀ (ws : List (List κ × Doc κ α)) (w : Overlay κ α),
      (w q ≠ none ∨ ∃ e ∈ ws, e.1 <+: q) → ws.foldl (fun w e => w.add e.1 e.2) w q ≠ none := by
    intro ws
    induction ws with
    | nil =>
      rintro w (hw | ⟨e, he, -⟩)
      · exact hw
      · cases he
    | cons e ws ih =>
      intro w hw
      rw [List.foldl_cons]
      apply ih
      rcases hw with hw | ⟨e', he', hq⟩
      · exact Or.inl (add_ne_none w e.1 q e.2 (Or.inl hw))
      · rcases List.mem_cons.mp he' with rfl | he'
        · exact Or.inl (add_ne_none w e'.1 q e'.2 (Or.inr hq))
        · exact Or.inr ⟨e', he', hq⟩
  exact hrun ws empty (Or.inr h)

/-- A write seen from a path at or above it, -/
theorem sub_add_below (w : Overlay κ α) (p s : List κ) (a : Doc κ α) :
    (w.add (p ++ s) a).sub p = (w.sub p).add s a := by
  funext q
  show w.add (p ++ s) a (p ++ q) = (w.sub p).add s a q
  have hiff : p ++ s <+: p ++ q ↔ s <+: q := List.prefix_append_right_inj p
  have hiff' : p ++ q <+: p ++ s ↔ q <+: s := List.prefix_append_right_inj p
  by_cases hsq : s <+: q
  · rw [add_below _ _ _ _ (hiff.mpr hsq), add_below _ _ _ _ hsq, List.length_append,
      ← List.drop_drop, List.drop_left]
  · by_cases hqs : q <+: s
    · have hne : q ≠ s := fun h => hsq (h ▸ List.prefix_rfl)
      rw [add_above _ _ _ _ (hiff'.mpr hqs) fun h => hne (List.append_cancel_left h),
        add_above _ _ _ _ hqs hne, List.length_append, ← List.drop_drop, List.drop_left]
      rfl
    · rw [add_apart _ _ _ _ ⟨fun h => hsq (hiff.mp h), fun h => hqs (hiff'.mp h)⟩,
        add_apart _ _ _ _ ⟨hsq, hqs⟩]
      rfl

/-- from a path below it, -/
theorem sub_add_above (w : Overlay κ α) (p s : List κ) (a : Doc κ α) :
    (w.add p a).sub (p ++ s) = (w.sub (p ++ s)).add [] (a.sub s) := by
  funext q
  show w.add p a (p ++ s ++ q) = _
  have hp : p <+: p ++ s ++ q := ⟨s ++ q, (List.append_assoc p s q).symm⟩
  rw [add_below _ _ _ _ hp, add_below _ _ _ _ List.nil_prefix, Doc.sub_sub, List.append_assoc,
    List.drop_left]
  rfl

/-- and from a path apart from it. -/
theorem sub_add_apart (w : Overlay κ α) (p q : List κ) (a : Doc κ α) (h : Apart p q) :
    (w.add p a).sub q = w.sub q := by
  funext r
  exact add_apart w p (q ++ r) a (h.extend p q (q ++ r) (List.prefix_append q r))

/-- The same for a list of writes. -/
theorem sub_foldl_add_below (ws : List (List κ × Doc κ α)) (w : Overlay κ α) (p : List κ) :
    ((ws.map fun e => (p ++ e.1, e.2)).foldl (fun w e => w.add e.1 e.2) w).sub p =
      ws.foldl (fun w e => w.add e.1 e.2) (w.sub p) := by
  induction ws generalizing w with
  | nil => rfl
  | cons e ws ih => rw [List.map_cons, List.foldl_cons, ih, sub_add_below, List.foldl_cons]

theorem sub_foldl_add_apart (ws : List (List κ × Doc κ α)) (w : Overlay κ α) (q : List κ)
    (h : ∀ e ∈ ws, Apart e.1 q) : (ws.foldl (fun w e => w.add e.1 e.2) w).sub q = w.sub q := by
  induction ws generalizing w with
  | nil => rfl
  | cons e ws ih =>
    obtain ⟨he, hws⟩ := List.forall_mem_cons.mp h
    rw [List.foldl_cons, ih _ hws, sub_add_apart w e.1 q e.2 he]

/-! ### Laying over a document -/

/-- No leaf of the document lies strictly above the path. -/
def Open (d : Doc κ α) (p : List κ) : Prop := ∀ q, q <+: p → q ≠ p → d q = none

open Classical in
theorem apply_add (w : Overlay κ α) (d : Doc κ α) (p : List κ) (a : Doc κ α) (h : Open d p) :
    (w.add p a).apply d = (w.apply d).write p a := by
  funext q
  by_cases hpq : p <+: q
  · rw [write_below _ p q a hpq]
    rw [apply_some _ d _ q (add_below w p q a hpq), Doc.sub, List.append_nil]
  · by_cases hqp : q <+: p
    · have hne : q ≠ p := fun hne => hpq (hne ▸ List.prefix_rfl)
      have hdrop : p.drop q.length ≠ [] := by
        intro hnil
        exact hne (hqp.eq_of_length_le (List.drop_eq_nil_iff.mp hnil))
      rw [write_above _ p q a hqp hne]
      cases hw : w q with
      | some e =>
        simp only [apply, add_above w p q a hqp hne, hw, Option.map_some]
        rw [write_above e _ [] a List.nil_prefix hdrop.symm]
      | none => simp [apply, add_above w p q a hqp hne, hw, h q hqp hne]
    · have hapart : Apart p q := ⟨hpq, hqp⟩
      rw [write_apart _ p q a hapart]
      have hbelow (q' : List κ) (hq' : q <+: q') : w.add p a q' = w q' :=
        add_apart w p q' a (hapart.extend p q q' hq')
      cases hw : w q with
      | some e => simp only [apply, hbelow q List.prefix_rfl, hw]
      | none =>
        simp only [apply, hbelow q List.prefix_rfl, hw]
        exact if_congr (exists_congr fun q' => and_congr_right fun hq' => by rw [hbelow q' hq'])
          rfl rfl

@[simp] theorem apply_empty (d : Doc κ α) : (empty : Overlay κ α).apply d = d := by
  funext q
  simp [apply, empty]

/-- Laying the writes over a document is writing one after the other. -/
theorem apply_layer (ws : List (List κ × Doc κ α)) (d : Doc κ α) (h : ∀ e ∈ ws, Open d e.1) :
    (layer ws).apply d = ws.foldl (fun d e => d.write e.1 e.2) d := by
  have hrun : ∀ w : Overlay κ α, (ws.foldl (fun w e => w.add e.1 e.2) w).apply d =
      ws.foldl (fun d e => d.write e.1 e.2) (w.apply d) := by
    induction ws with
    | nil => exact fun w => rfl
    | cons e ws ih =>
      intro w
      obtain ⟨he, hws⟩ := List.forall_mem_cons.mp h
      rw [List.foldl_cons, ih hws, apply_add w d e.1 e.2 he, List.foldl_cons]
  rw [layer, hrun, apply_empty]

/-- Seen from a path, the overlay laid over the document is its own part laid over its own part. -/
theorem apply_sub (w : Overlay κ α) (d : Doc κ α) (p : List κ) :
    (w.sub p).apply (d.sub p) = (w.apply d).sub p := by
  classical
  funext q
  rw [Doc.sub]
  cases hw : w (p ++ q) with
  | some a => rw [apply_some w d a (p ++ q) hw, apply_some (w.sub p) (d.sub p) a q hw]
  | none =>
    rw [apply_none w d (p ++ q) hw, apply_none (w.sub p) (d.sub p) q hw]
    refine if_congr ⟨?_, ?_⟩ rfl rfl
    · rintro ⟨q', hq', ha⟩
      exact ⟨p ++ q', (List.prefix_append_right_inj p).mpr hq', ha⟩
    · rintro ⟨q', ⟨r, rfl⟩, ha⟩
      exact ⟨q ++ r, List.prefix_append q r, by rwa [sub, ← List.append_assoc]⟩

/-- Two overlays that know nothing about each other's paths are laid one after the other. -/
theorem apply_apply (w₁ w₂ : Overlay κ α) (d : Doc κ α)
    (h : ∀ p q, w₁ p ≠ none → w₂ q ≠ none → Apart p q) :
    w₂.apply (w₁.apply d) = apply (fun q => (w₁ q).or (w₂ q)) d := by
  classical
  funext q
  cases h₂ : w₂ q with
  | some a =>
    have h₁ : w₁ q = none := by
      by_contra hne
      exact (h q q hne (by simp [h₂])).1 List.prefix_rfl
    rw [apply_some w₂ _ a q h₂, apply_some _ d a q (by simp [h₁, h₂])]
  | none =>
    rw [apply_none w₂ _ q h₂]
    cases h₁ : w₁ q with
    | some a =>
      have hno : ¬ ∃ q', q <+: q' ∧ ∃ b, w₂ q' = some b ∧ b ≠ Doc.empty := by
        rintro ⟨q', hq', b, hb, -⟩
        exact (h q q' (by simp [h₁]) (by simp [hb])).1 hq'
      rw [if_neg hno, apply_some w₁ d a q h₁, apply_some _ d a q (by simp [h₁])]
    | none =>
      have hiff : (∃ q', q <+: q' ∧ ∃ b, (w₁ q').or (w₂ q') = some b ∧ b ≠ Doc.empty) ↔
          (∃ q', q <+: q' ∧ ∃ b, w₂ q' = some b ∧ b ≠ Doc.empty) ∨
            ∃ q', q <+: q' ∧ ∃ b, w₁ q' = some b ∧ b ≠ Doc.empty := by
        constructor
        · rintro ⟨q', hq', b, hb, hne⟩
          rcases Option.or_eq_some_iff.mp hb with hb | ⟨-, hb⟩
          · exact Or.inr ⟨q', hq', b, hb, hne⟩
          · exact Or.inl ⟨q', hq', b, hb, hne⟩
        · rintro (⟨q', hq', b, hb, hne⟩ | ⟨q', hq', b, hb, hne⟩)
          · have hnone : w₁ q' = none := by
              by_contra hsome
              exact (h q' q' hsome (by simp [hb])).1 List.prefix_rfl
            exact ⟨q', hq', b, by simp [hnone, hb], hne⟩
          · exact ⟨q', hq', b, by simp [hb], hne⟩
      rw [apply_none w₁ d q h₁, apply_none _ d q (by simp [h₁, h₂]), if_congr hiff rfl rfl]
      by_cases hb₂ : ∃ q', q <+: q' ∧ ∃ b, w₂ q' = some b ∧ b ≠ Doc.empty
      · rw [if_pos hb₂, if_pos (Or.inl hb₂)]
      · rw [if_neg hb₂, if_congr (or_iff_right hb₂) rfl rfl]

/-- A single write over a document. -/
theorem apply_single (p : List κ) (a d : Doc κ α) : (empty.add p a).apply d = d.write p a := by
  classical
  funext q
  have hnone (q : List κ) (hq : ¬ p <+: q) : (empty : Overlay κ α).add p a q = none :=
    layer_eq_none [(p, a)] q (by simpa using hq)
  by_cases hpq : p <+: q
  · rw [apply_some _ d _ q (add_below empty p q a hpq), write_below d p q a hpq, Doc.sub,
      List.append_nil]
  · rw [apply_none _ d q (hnone q hpq)]
    have hbelow : (∃ q', q <+: q' ∧ ∃ b, (empty : Overlay κ α).add p a q' = some b ∧ b ≠ Doc.empty) →
        q <+: p ∧ a ≠ Doc.empty := by
      rintro ⟨q', hq', b, hb, hne⟩
      have hpq' : p <+: q' := by
        by_contra hno
        rw [hnone q' hno] at hb
        cases hb
      rw [add_below _ p q' a hpq'] at hb
      refine ⟨(List.prefix_or_prefix_of_prefix hpq' hq').resolve_left hpq, ?_⟩
      rintro rfl
      exact hne (Option.some.inj hb).symm
    by_cases hqp : q <+: p ∧ a ≠ Doc.empty
    · have hat : (empty : Overlay κ α).add p a p = some a := by
        rw [add_below _ p p a List.prefix_rfl, List.drop_length, Doc.sub_nil]
      rw [if_pos ⟨p, hqp.1, a, hat, hqp.2⟩, write, if_neg hpq, if_pos hqp]
    · rw [if_neg fun h => hqp (hbelow h), write, if_neg hpq, if_neg hqp]

open Classical in
/-- The overlay moved below `p`. -/
noncomputable def shift (p : List κ) (w : Overlay κ α) : Overlay κ α := fun q =>
  if p <+: q then w (q.drop p.length) else none

theorem shift_append (p q : List κ) (w : Overlay κ α) : shift p w (p ++ q) = w q := by
  rw [shift, if_pos (List.prefix_append p q), List.drop_left]

theorem shift_eq_none (p q : List κ) (w : Overlay κ α) (h : ¬ p <+: q) : shift p w q = none := if_neg h

theorem le_of_shift (p q : List κ) (w : Overlay κ α) (h : shift p w q ≠ none) : p <+: q := by
  by_contra hno
  exact h (shift_eq_none p q w hno)

@[simp] theorem shift_nil (w : Overlay κ α) : shift [] w = w := by
  funext q
  exact shift_append [] q w

/-! ### Taking writes out -/

/-- Writes at and below `p` leave no trace once a later write covers `p`, unless an earlier one lies
strictly above `p`. -/
theorem layer_covered (es bs ls : List (List κ × Doc κ α)) (p : List κ)
    (hes : ∀ e ∈ es, e.1 <+: p → e.1 = p) (hbs : ∀ b ∈ bs, p <+: b.1)
    (hls : ∃ l ∈ ls, l.1 <+: p) : layer (es ++ bs ++ ls) = layer (es ++ ls) := by
  have hoff : ∀ q, ¬ p <+: q → layer (es ++ bs) q = layer es q := by
    intro q hq
    rw [layer_append]
    refine foldl_add_unseen bs (layer es) q (fun b hb hbq => hq ((hbs b hb).trans hbq)) ?_
    by_cases hqp : q <+: p
    · refine Or.inl (layer_eq_none es q fun e he heq => ?_)
      have hep := hes e he (heq.trans hqp)
      exact hq (hep ▸ heq)
    · refine Or.inr fun b hb hqb => ?_
      rcases List.prefix_or_prefix_of_prefix (hbs b hb) hqb with hpq | hqp'
      · exact hq hpq
      · exact hqp hqp'
  have hrun : ∀ (ls : List (List κ × Doc κ α)) (w w' : Overlay κ α),
      (∀ q, ¬ p <+: q → w q = w' q) → (∃ l ∈ ls, l.1 <+: p) →
        ls.foldl (fun w e => w.add e.1 e.2) w = ls.foldl (fun w e => w.add e.1 e.2) w' := by
    intro ls
    induction ls with
    | nil =>
      rintro w w' - ⟨l, hl, -⟩
      cases hl
    | cons l ls ih =>
      intro w w' hagree hcover
      rw [List.foldl_cons, List.foldl_cons]
      by_cases hlp : l.1 <+: p
      · -- from here on the two agree everywhere
        congr 1
        funext q
        by_cases hpq : p <+: q
        · rw [add_below w l.1 q l.2 (hlp.trans hpq), add_below w' l.1 q l.2 (hlp.trans hpq)]
        · exact add_congr w l.1 q l.2 w' (hagree q hpq)
      · obtain ⟨l', hl', hl'p⟩ := hcover
        rcases List.mem_cons.mp hl' with rfl | hl'
        · exact absurd hl'p hlp
        · exact ih _ _ (fun q hq => add_congr w l.1 q l.2 w' (hagree q hq)) ⟨l', hl', hl'p⟩
  rw [layer_append (es ++ bs) ls, layer_append es ls]
  exact hrun ls _ _ hoff hls

section Remove

variable (w : Overlay κ α) (p q : List κ)

theorem remove_eq : w.remove p q = none ∨ w.remove p q = w q := by
  classical
  unfold remove
  split
  · exact Or.inr rfl
  · by_cases hpq : p <+: q
    · exact Or.inl (if_pos hpq)
    · exact Or.inr (if_neg hpq)

theorem remove_outside (h : ¬ p <+: q) : w.remove p q = w q := by
  unfold remove
  split
  · rfl
  · exact if_neg h

theorem remove_below (hp : ∀ r, r <+: p → r ≠ p → w r = none) (h : p <+: q) :
    w.remove p q = none := by
  have hno : ¬ ∃ r, r <+: p ∧ r ≠ p ∧ w r ≠ none := by
    rintro ⟨r, hr, hne, hw⟩
    exact hw (hp r hr hne)
  rw [remove, if_neg hno]
  exact if_pos h

/-- Where something strictly above the path decides, taking away at the path does nothing. -/
theorem remove_covered (r : List κ) (hr : r <+: p) (hne : r ≠ p) (hw : w r ≠ none) :
    w.remove p = w := if_pos ⟨r, hr, hne, hw⟩

end Remove

theorem foldl_remove_eq (ps : List (List κ)) (w : Overlay κ α) (q : List κ) :
    ps.foldl remove w q = none ∨ ps.foldl remove w q = w q := by
  induction ps generalizing w with
  | nil => exact Or.inr rfl
  | cons p ps ih =>
    rw [List.foldl_cons]
    rcases ih (w.remove p) with h | h
    · exact Or.inl h
    · exact (remove_eq w p q).imp h.trans h.trans

theorem foldl_remove_outside (ps : List (List κ)) (w : Overlay κ α) (q : List κ)
    (h : ∀ p ∈ ps, ¬ p <+: q) : ps.foldl remove w q = w q := by
  induction ps generalizing w with
  | nil => rfl
  | cons p ps ih =>
    obtain ⟨hp, hps⟩ := List.forall_mem_cons.mp h
    exact (ih (w.remove p) hps).trans (remove_outside w p q hp)

/-- What lies at or below one of the paths goes, if whatever is known above one of them is itself
known from one of them. -/
theorem foldl_remove_below (ps : List (List κ)) (w : Overlay κ α) (q : List κ)
    (h : ∀ p ∈ ps, ∀ r, r <+: p → r ≠ p → w r ≠ none → ∃ p' ∈ ps, p' <+: r) (p : List κ)
    (hp : p ∈ ps) (hpq : p <+: q) : ps.foldl remove w q = none := by
  -- the shortest of the paths that lead to `q` finds nothing above it
  induction hn : p.length using Nat.strongRecOn generalizing p with
  | _ n ih =>
    by_cases hcov : ∃ r, r <+: p ∧ r ≠ p ∧ w r ≠ none
    · obtain ⟨r, hr, hne, hw⟩ := hcov
      obtain ⟨p', hp', hp'r⟩ := h p hp r hr hne hw
      have hshort : p'.length < n := by
        have hrp : r.length < p.length := lt_of_le_of_ne hr.length_le fun heq => hne (hr.eq_of_length heq)
        have hle := hp'r.length_le
        omega
      exact ih p'.length hshort p' hp' (hp'r.trans (hr.trans hpq)) rfl
    · obtain ⟨us, vs, rfl⟩ := List.append_of_mem hp
      have hfree : ∀ r, r <+: p → r ≠ p → us.foldl remove w r = none := by
        intro r hr hne
        have hw : w r = none := by
          by_contra hw
          exact hcov ⟨r, hr, hne, hw⟩
        rcases foldl_remove_eq us w r with hus | hus
        · exact hus
        · exact hus.trans hw
      rw [List.foldl_append, List.foldl_cons]
      have hgone := remove_below (us.foldl remove w) p q hfree hpq
      rcases foldl_remove_eq vs ((us.foldl remove w).remove p) q with hvs | hvs
      · exact hvs
      · exact hvs.trans hgone

/-- Taking the paths of some writes away takes exactly these writes out of the layer, if the others
all lie apart from the path under which they lie. -/
theorem remove_layer (es bs ls : List (List κ × Doc κ α)) (p : List κ)
    (hes : ∀ e ∈ es, Apart p e.1) (hbs : ∀ b ∈ bs, p <+: b.1) (hls : ∀ l ∈ ls, Apart p l.1) :
    (bs.map Prod.fst).foldl remove (layer (es ++ bs ++ ls)) = layer (es ++ ls) := by
  have hothers : ∀ e ∈ es ++ ls, Apart p e.1 := by
    intro e he
    exact (List.mem_append.mp he).elim (hes e) (hls e)
  -- no other write covers a path that lies over or under `p`
  have hnone : ∀ q, ¬ Apart p q → ∀ e ∈ es ++ ls, ¬ e.1 <+: q := fun q hq e he heq =>
    hq ((hothers e he).extend p e.1 q heq)
  have hbelow : ∀ b ∈ bs, ∀ q, q <+: b.1 → ¬ Apart p q := by
    rintro b hb q hqb ⟨hpq, hqp⟩
    rcases List.prefix_or_prefix_of_prefix (hbs b hb) hqb with h | h
    · exact hpq h
    · exact hqp h
  funext q
  by_cases hq : ∃ b ∈ bs, b.1 <+: q
  · obtain ⟨b, hb, hbq⟩ := hq
    have hpq : ¬ Apart p q := fun hapart => hapart.1 ((hbs b hb).trans hbq)
    rw [layer_eq_none (es ++ ls) q (hnone q hpq)]
    refine foldl_remove_below _ _ q ?_ b.1 (List.mem_map_of_mem hb) hbq
    intro p' hp' r hr _ hw
    obtain ⟨b', hb', rfl⟩ := List.mem_map.mp hp'
    by_contra hno
    refine hw (layer_eq_none _ r fun e he her => ?_)
    rcases List.mem_append.mp he with he | he
    · rcases List.mem_append.mp he with he | he
      · exact hnone r (hbelow b' hb' r hr) e (List.mem_append_left ls he) her
      · exact hno ⟨e.1, List.mem_map_of_mem he, her⟩
    · exact hnone r (hbelow b' hb' r hr) e (List.mem_append_right es he) her
  · have hfree : ∀ b ∈ bs, ¬ b.1 <+: q := fun b hb hbq => hq ⟨b, hb, hbq⟩
    have hkeep : ∀ p' ∈ bs.map Prod.fst, ¬ p' <+: q := by
      intro p' hp'
      obtain ⟨b, hb, rfl⟩ := List.mem_map.mp hp'
      exact hfree b hb
    rw [foldl_remove_outside _ _ q hkeep, layer_append (es ++ bs) ls, layer_append es ls]
    refine foldl_add_congr ls _ _ q ?_
    rw [layer_append]
    refine foldl_add_unseen bs (layer es) q hfree ?_
    by_cases hex : ∃ b ∈ bs, q <+: b.1
    · obtain ⟨b, hb, hqb⟩ := hex
      exact Or.inl (layer_eq_none es q fun e he =>
        hnone q (hbelow b hb q hqb) e (List.mem_append_left ls he))
    · exact Or.inr fun b hb hqb => hex ⟨b, hb, hqb⟩

end Overlay

end Realtime
