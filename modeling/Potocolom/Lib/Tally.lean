import Mathlib

/-! # Counts of tasks

A counter that goes up where a task joins and down where one leaves is the number of the
tasks that are in. -/

/-- Exactly `n` tasks satisfy `P`. -/
def Tally {τ : Type} (P : τ → Prop) (n : ℤ) : Prop :=
  ∃ members : Finset τ, (∀ t, t ∈ members ↔ P t) ∧ n = members.card

namespace Tally

variable {τ : Type} {P : τ → Prop} {n : ℤ} {t : τ}

theorem empty (h : ∀ t, ¬ P t) : Tally P 0 :=
  ⟨∅, fun t => by simp [h t], by simp⟩

theorem nonneg (h : Tally P n) : 0 ≤ n := by
  obtain ⟨members, -, rfl⟩ := h
  exact Int.natCast_nonneg _

theorem eq_zero_iff (h : Tally P n) : n = 0 ↔ ∀ t, ¬ P t := by
  obtain ⟨members, hmem, rfl⟩ := h
  simp only [Int.natCast_eq_zero, Finset.card_eq_zero, Finset.eq_empty_iff_forall_notMem, hmem]

/-- Where one task is in, the count is one exactly when no other is. -/
theorem eq_one_iff (h : Tally P n) (ht : P t) : n = 1 ↔ ∀ u, P u → u = t := by
  obtain ⟨members, hmem, rfl⟩ := h
  rw [Nat.cast_eq_one, Finset.card_eq_one]
  constructor
  · rintro ⟨a, rfl⟩ u hu
    rw [← hmem, Finset.mem_singleton] at ht hu
    rw [hu, ht]
  · intro hone
    refine ⟨t, Finset.ext fun u => ?_⟩
    rw [hmem, Finset.mem_singleton]
    constructor
    · exact hone u
    · rintro rfl
      exact ht

theorem pos (h : Tally P n) (ht : P t) : 1 ≤ n := by
  have hnonneg := h.nonneg
  have hzero : n ≠ 0 := fun h0 => h.eq_zero_iff.1 h0 t ht
  omega

/-- A task moves: the count loses it where it was in and gains it where it now is. -/
theorem update [DecidableEq τ] {β : Type} {f : τ → β} {p : β → Bool}
    (h : Tally (fun u => p (f u) = true) n) (t : τ) (x : β) :
    Tally (fun u => p (Function.update f t x u) = true)
      (n - (if p (f t) then 1 else 0) + if p x then 1 else 0) := by
  obtain ⟨members, hmem, rfl⟩ := h
  have herase : ((members.erase t).card : ℤ) = members.card - if p (f t) then 1 else 0 := by
    by_cases ht : t ∈ members
    · have hpos : 0 < members.card := Finset.card_pos.2 ⟨t, ht⟩
      rw [if_pos ((hmem t).1 ht), Finset.card_erase_of_mem ht]
      omega
    · rw [if_neg fun hp => ht ((hmem t).2 hp), Finset.erase_eq_of_notMem ht, sub_zero]
  have hother : ∀ u, u ≠ t → (p (Function.update f t x u) = true ↔ u ∈ members.erase t) := by
    intro u hu
    rw [Function.update_of_ne hu, Finset.mem_erase, hmem]
    exact (and_iff_right hu).symm
  rw [← herase]
  by_cases hx : p x = true
  · refine ⟨insert t (members.erase t), fun u => ?_, ?_⟩
    · by_cases hu : u = t
      · subst hu
        simp [hx]
      · exact (Finset.mem_insert.trans (or_iff_right hu)).trans (hother u hu).symm
    · rw [if_pos hx, Finset.card_insert_of_notMem (Finset.notMem_erase t members)]
      norm_num
  · refine ⟨members.erase t, fun u => ?_, by simp [hx]⟩
    by_cases hu : u = t
    · subst hu
      simp [hx]
    · exact (hother u hu).symm

end Tally
