import Mathlib

/-! # Relational tables

A table maps primary keys to rows. The keys that may hold a row are listed, and
the list is part of the table, so that a query over all rows is decidable; the
field `mem_keys` says that the list misses no row. -/

/-- A table with primary keys `κ` and rows `ρ`. -/
structure Table (κ ρ : Type*) where
  keys : List κ
  get : κ → Option ρ
  mem_keys : ∀ {k r}, get k = some r → k ∈ keys

namespace Table

variable {κ ρ : Type*}

/-- The table without rows. -/
def empty : Table κ ρ := ⟨[], fun _ => none, by simp⟩

instance : EmptyCollection (Table κ ρ) := ⟨empty⟩

@[simp] theorem get_empty (k : κ) : (∅ : Table κ ρ).get k = none := rfl

section Update

variable [DecidableEq κ]

/-- Write row `r` at key `k`, whether or not the key had a row. -/
def set (t : Table κ ρ) (k : κ) (r : ρ) : Table κ ρ where
  keys := k :: t.keys
  get := Function.update t.get k (some r)
  mem_keys := by
    intro k' r' h
    by_cases hk : k' = k
    · simp [hk]
    · rw [Function.update_of_ne hk] at h
      exact List.mem_cons_of_mem _ (t.mem_keys h)

@[simp] theorem get_set_self (t : Table κ ρ) (k : κ) (r : ρ) : (t.set k r).get k = some r := by
  simp [set]

theorem get_set_of_ne (t : Table κ ρ) {k k' : κ} (r : ρ) (h : k' ≠ k) :
    (t.set k r).get k' = t.get k' := by
  simp [set, Function.update_of_ne h]

theorem get_set (t : Table κ ρ) (k k' : κ) (r : ρ) :
    (t.set k r).get k' = if k' = k then some r else t.get k' := by
  split
  · next h => rw [h, get_set_self]
  · next h => exact get_set_of_ne t r h

end Update

/-- `UPDATE … WHERE p`: rewrite by `f` every row that satisfies `p`. -/
def updateWhere (t : Table κ ρ) (p : κ → ρ → Prop) [∀ k r, Decidable (p k r)] (f : ρ → ρ) :
    Table κ ρ where
  keys := t.keys
  get k := (t.get k).map fun r => if p k r then f r else r
  mem_keys := by
    intro k r h
    obtain ⟨r', hr', -⟩ := Option.map_eq_some_iff.mp h
    exact t.mem_keys hr'

@[simp] theorem get_updateWhere (t : Table κ ρ) (p : κ → ρ → Prop) [∀ k r, Decidable (p k r)]
    (f : ρ → ρ) (k : κ) :
    (t.updateWhere p f).get k = (t.get k).map fun r => if p k r then f r else r := rfl

/-- Rewrite every row by a function of its key. -/
def mapRows (t : Table κ ρ) (f : κ → ρ → ρ) : Table κ ρ where
  keys := t.keys
  get k := (t.get k).map (f k)
  mem_keys := by
    intro k r h
    obtain ⟨r', hr', -⟩ := Option.map_eq_some_iff.mp h
    exact t.mem_keys hr'

@[simp] theorem get_mapRows (t : Table κ ρ) (f : κ → ρ → ρ) (k : κ) :
    (t.mapRows f).get k = (t.get k).map (f k) := rfl

/-- `EXISTS (SELECT 1 … WHERE p)`. -/
def Any (t : Table κ ρ) (p : κ → ρ → Prop) : Prop := ∃ k r, t.get k = some r ∧ p k r

instance (t : Table κ ρ) (p : κ → ρ → Prop) [∀ k r, Decidable (p k r)] : Decidable (t.Any p) :=
  decidable_of_iff (∃ k ∈ t.keys, ∃ r ∈ t.get k, p k r) <| by
    constructor
    · rintro ⟨k, -, r, hr, hp⟩
      exact ⟨k, r, hr, hp⟩
    · rintro ⟨k, r, hr, hp⟩
      exact ⟨k, t.mem_keys hr, r, hr, hp⟩

end Table
