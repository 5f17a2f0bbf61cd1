import FlowerGift.Lib.Document

/-!
# Writes that may be delivered again

A receiver applies writes to a state.  Each write either leaves what is seen at
a place alone or gives it a value that does not depend on the state (`Assigns`),
so of the writes applied to a state only the last one that touches a place is
seen there.  Then a list of writes may be started again from any point at or
before where it broke off, any number of times: in the end everything looks as
if each write had been applied once (`applied_cons_of_mem`, `applied_of_append`).
-/

namespace Realtime

section Applied

variable {ρ σ : Type} (effect : ρ → σ → σ)

/-- The state after the writes, one after the other. -/
def applied (l : List ρ) (s : σ) : σ := l.foldl (fun s r => effect r s) s

@[simp] theorem applied_nil (s : σ) : applied effect [] s = s := rfl

@[simp] theorem applied_cons (r : ρ) (l : List ρ) (s : σ) :
    applied effect (r :: l) s = applied effect l (effect r s) := rfl

theorem applied_append (l m : List ρ) (s : σ) :
    applied effect (l ++ m) s = applied effect m (applied effect l s) := List.foldl_append

end Applied

variable {ρ σ κ ν : Type} (look : σ → κ → ν)

/-- At every place the operation leaves what is seen there or puts something fixed there. -/
def Assigns (f : σ → σ) : Prop :=
  ∀ k, (∀ s, look (f s) k = look s k) ∨ ∃ v, ∀ s, look (f s) k = v

theorem assigns_id : Assigns look (fun s => s) := fun _ => Or.inl fun _ => rfl

theorem Assigns.comp (f g : σ → σ) (hf : Assigns look f) (hg : Assigns look g) :
    Assigns look (fun s => g (f s)) := by
  intro k
  rcases hg k with hg | ⟨v, hg⟩
  · rcases hf k with hf | ⟨v, hf⟩
    · exact Or.inl fun s => (hg (f s)).trans (hf s)
    · exact Or.inr ⟨v, fun s => (hg (f s)).trans (hf s)⟩
  · exact Or.inr ⟨v, fun s => hg (f s)⟩

section Redelivery

variable (effect : ρ → σ → σ) (h : ∀ r, Assigns look (effect r))

include h

theorem assigns_applied (l : List ρ) : Assigns look (applied effect l) := by
  induction l with
  | nil => exact assigns_id look
  | cons r l ih => exact Assigns.comp look (effect r) (applied effect l) (h r) ih

/-- A write applied once more in front of a list that has it is not seen afterwards. -/
theorem look_applied_of_mem (r : ρ) (l : List ρ) (hr : r ∈ l) (s : σ) (k : κ) :
    look (applied effect l (effect r s)) k = look (applied effect l s) k := by
  induction l generalizing s with
  | nil => cases hr
  | cons a l ih =>
    rcases assigns_applied look effect h l k with hl | ⟨v, hl⟩
    · -- the rest does not touch the place
      rw [applied_cons, applied_cons, hl, hl]
      rcases List.mem_cons.mp hr with rfl | hr
      · rcases h r k with hr | ⟨v, hr⟩
        · rw [hr (effect r s)]
        · rw [hr, hr]
      · rcases h a k with ha | ⟨v, ha⟩
        · rw [ha, ha]
          have hsame := ih hr s
          rwa [hl, hl] at hsame
        · rw [ha, ha]
    · rw [applied_cons, applied_cons, hl, hl]

/-- If a list and its last part give the same, then so does what lies between. -/
theorem look_applied_of_append (l m r : List ρ) (s : σ) (k : κ)
    (hsame : look (applied effect (l ++ m ++ r) s) k = look (applied effect r s) k) :
    look (applied effect (m ++ r) s) k = look (applied effect r s) k := by
  rw [applied_append] at hsame ⊢
  rw [applied_append] at hsame
  rcases assigns_applied look effect h r k with hr | ⟨v, hr⟩
  · rw [hr, hr] at hsame ⊢
    rcases assigns_applied look effect h m k with hm | ⟨v, hm⟩
    · exact hm s
    · rw [hm] at hsame ⊢
      exact hsame
  · rw [hr, hr]

variable (hlook : Function.Injective look)

include hlook

theorem applied_cons_of_mem (r : ρ) (l : List ρ) (hr : r ∈ l) (s : σ) :
    applied effect l (effect r s) = applied effect l s :=
  hlook (funext fun k => look_applied_of_mem look effect h r l hr s k)

theorem applied_of_append (l m r : List ρ) (s : σ)
    (hsame : applied effect (l ++ m ++ r) s = applied effect r s) :
    applied effect (m ++ r) s = applied effect r s :=
  hlook (funext fun k => look_applied_of_append look effect h l m r s k (by rw [hsame]))

end Redelivery

/-! ## Writes into documents -/

theorem Doc.assigns_write {κ α : Type} (p : List κ) (a : Doc κ α) :
    Assigns (fun d : Doc κ α => d) (fun d => d.write p a) := by
  intro q
  by_cases hpq : p <+: q
  · exact Or.inr ⟨_, fun d => d.write_below p q a hpq⟩
  · by_cases hqp : q <+: p
    · have hne : q ≠ p := fun hne => hpq (hne ▸ List.prefix_rfl)
      by_cases ha : a = Doc.empty
      · exact Or.inl fun d => (d.write_above p q a hqp hne).trans (if_pos ha)
      · exact Or.inr ⟨none, fun d => (d.write_above p q a hqp hne).trans (if_neg ha)⟩
    · exact Or.inl fun d => d.write_apart p q a ⟨hpq, hqp⟩

end Realtime
