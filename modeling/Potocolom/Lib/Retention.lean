import Mathlib

/-! # Keeping the newest

Rows come under numbers, in any order. The rows with the largest numbers are kept, up
to a limit, and the floor remembers the largest number that was ever let go. A row is
therefore either kept or at or below the floor. -/

/-- The rows kept, largest number first, and the largest number let go. -/
structure Retention (ρ : Type*) where
  rows : List ρ
  floor : Nat

namespace Retention

variable {ρ : Type*}

/-- Nothing kept, nothing let go. -/
def empty : Retention ρ := ⟨[], 0⟩

variable (number : ρ → Nat) (limit : Nat)

/-- The rows with a new one at its place. -/
def placed (t : Retention ρ) (row : ρ) : List ρ :=
  t.rows.orderedInsert (fun a b => number b ≤ number a) row

/-- Take a row in, and let go what exceeds the limit. -/
def keep (t : Retention ρ) (row : ρ) : Retention ρ where
  rows := (t.placed number row).take limit
  floor := (((t.placed number row).drop limit).map number).foldr max t.floor

variable {number limit} {t : Retention ρ} {row r : ρ}

theorem mem_placed : r ∈ t.placed number row ↔ r = row ∨ r ∈ t.rows := by
  unfold placed
  rw [List.mem_orderedInsert]

theorem length_keep : (t.keep number limit row).rows.length ≤ limit :=
  List.length_take_le ..

/-- What is kept was there before or is new. -/
theorem mem_of_mem_keep (h : r ∈ (t.keep number limit row).rows) : r = row ∨ r ∈ t.rows :=
  mem_placed.1 (List.mem_of_mem_take h)

theorem le_foldr_max (floor : Nat) (numbers : List Nat) : floor ≤ numbers.foldr max floor := by
  induction numbers with
  | nil => exact le_refl _
  | cons n rest ih => exact ih.trans (le_max_right _ _)

theorem le_foldr_max_of_mem {floor n : Nat} {numbers : List Nat} (h : n ∈ numbers) :
    n ≤ numbers.foldr max floor := by
  induction numbers with
  | nil => cases h
  | cons m rest ih =>
    rcases List.mem_cons.1 h with heq | hrest
    · rw [heq]
      exact le_max_left _ _
    · exact (ih hrest).trans (le_max_right _ _)

theorem floor_le_keep : t.floor ≤ (t.keep number limit row).floor := le_foldr_max _ _

/-- What is not kept is at or below the floor. -/
theorem kept_or_below (h : r = row ∨ r ∈ t.rows) :
    r ∈ (t.keep number limit row).rows ∨ number r ≤ (t.keep number limit row).floor := by
  have hplaced : r ∈ t.placed number row := mem_placed.2 h
  rw [← List.take_append_drop limit (t.placed number row), List.mem_append] at hplaced
  rcases hplaced with hkept | hgone
  · exact .inl hkept
  · exact .inr (le_foldr_max_of_mem (List.mem_map_of_mem hgone))

/-- A row under a number of its own keeps the numbers apart. -/
theorem nodup_keep (h : (t.rows.map number).Nodup) (hnew : ∀ r ∈ t.rows, number r ≠ number row) :
    ((t.keep number limit row).rows.map number).Nodup := by
  have hperm : ((t.placed number row).map number).Perm ((row :: t.rows).map number) :=
    (List.perm_orderedInsert _ _ _).map _
  have hplaced : ((t.placed number row).map number).Nodup := by
    rw [hperm.nodup_iff, List.map_cons, List.nodup_cons]
    refine ⟨?_, h⟩
    intro hmem
    obtain ⟨r, hr, heq⟩ := List.mem_map.1 hmem
    exact hnew r hr heq
  exact hplaced.sublist ((List.take_sublist limit _).map number)

/-- With the numbers apart, a row is found under its number. -/
theorem find?_eq_some (h : (t.rows.map number).Nodup) (hr : r ∈ t.rows) :
    t.rows.find? (fun q => number q == number r) = some r := by
  generalize t.rows = rows at h hr
  induction rows with
  | nil => cases hr
  | cons q rest ih =>
    rw [List.map_cons, List.nodup_cons] at h
    rcases List.mem_cons.1 hr with heq | hrest
    · rw [heq]
      exact List.find?_cons_of_pos (by simp)
    · have hne : ¬ number q = number r := by
        intro heq
        exact h.1 (heq ▸ List.mem_map_of_mem hrest)
      rw [List.find?_cons_of_neg (by simpa using hne)]
      exact ih h.2 hrest

end Retention
