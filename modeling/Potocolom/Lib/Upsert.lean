import Mathlib

/-! # Materialised groups

A grouped query over a list of rows, and the statement that writes its result
into a table with a unique key: a row whose key the table has is merged into the
row there, the others are added, and a batch that names one key twice is refused.

A measure that adds up within each group adds up over the whole query, so it is
conserved where the rows behind a fresh batch of groups are taken away. -/

namespace Upsert

variable {α ρ κ : Type*} [DecidableEq κ]

/-- `SELECT make(key, rows) … GROUP BY key`. -/
def groupBy (key : α → κ) (make : κ → List α → ρ) (rows : List α) : List ρ :=
  (rows.map key).dedup.map fun k => make k (rows.filter fun x => key x = k)

/-- The row of the batch that a row of the table conflicts with, merged into it. -/
def mergeInto (key : ρ → κ) (merge : ρ → ρ → ρ) (batch : List ρ) (row : ρ) : ρ :=
  match batch.find? fun r => key r = key row with
  | some r => merge row r
  | none => row

/-- `INSERT … ON CONFLICT (key) DO UPDATE`: refused where the batch holds a key twice. -/
def upsert (key : ρ → κ) (merge : ρ → ρ → ρ) (table batch : List ρ) : Option (List ρ) :=
  if (batch.map key).Nodup then
    some (table.map (mergeInto key merge batch) ++
      batch.filter fun r => key r ∉ table.map key)
  else none

section groupBy

variable {key : α → κ} {make : κ → List α → ρ} {rows : List α}

@[simp] theorem groupBy_nil : groupBy key make [] = [] := rfl

theorem mem_groupBy {r : ρ} :
    r ∈ groupBy key make rows ↔
      ∃ x ∈ rows, r = make (key x) (rows.filter fun y => key y = key x) := by
  simp only [groupBy, List.mem_map, List.mem_dedup]
  constructor
  · rintro ⟨_, ⟨x, hx, rfl⟩, rfl⟩
    exact ⟨x, hx, rfl⟩
  · rintro ⟨x, hx, rfl⟩
    exact ⟨key x, ⟨x, hx, rfl⟩, rfl⟩

/-- Groups of different keys stay apart under any key that tells the groups' keys apart. -/
theorem nodup_groupBy {κ' : Type*} {key' : ρ → κ'} {f : κ → κ'}
    (hkey : ∀ k xs, key' (make k xs) = f k)
    (hf : ∀ x ∈ rows, ∀ y ∈ rows, f (key x) = f (key y) → key x = key y) :
    ((groupBy key make rows).map key').Nodup := by
  have hmap : (groupBy key make rows).map key' = (rows.map key).dedup.map f := by
    rw [groupBy, List.map_map]
    exact List.map_congr_left fun k _ => hkey k _
  rw [hmap]
  refine List.Nodup.map_on ?_ (List.nodup_dedup _)
  intro a ha b hb hab
  rw [List.mem_dedup, List.mem_map] at ha hb
  rcases ha with ⟨x, hx, rfl⟩
  rcases hb with ⟨y, hy, rfl⟩
  exact hf x hx y hy hab

/-- Splitting rows by their keys loses nothing of a sum. -/
theorem sum_split {M : Type*} [AddCommMonoid M] (m : α → M) {keys : List κ} (hnodup : keys.Nodup)
    (hkeys : ∀ x ∈ rows, key x ∈ keys) :
    (keys.map fun k => ((rows.filter fun x => key x = k).map m).sum).sum = (rows.map m).sum := by
  induction rows with
  | nil => simp
  | cons x rows ih =>
    have hhead : ∀ k, (((x :: rows).filter fun y => key y = k).map m).sum =
        (if k = key x then m x else 0) + ((rows.filter fun y => key y = k).map m).sum := by
      intro k
      by_cases h : key x = k
      · simp [h]
      · have h' : ¬ k = key x := fun e => h e.symm
        simp [h, h']
    have hone : (keys.map fun k => if k = key x then m x else 0).sum = m x := by
      rw [List.sum_map_eq_nsmul_single (key x)]
      · rw [List.count_eq_one_of_mem hnodup (hkeys x (by simp)), one_nsmul, if_pos rfl]
      · intro k hk _
        exact if_neg hk
    simp only [hhead]
    rw [List.sum_map_add, hone, ih fun y hy => hkeys y (by simp [hy])]
    simp

/-- A measure that adds up within a group adds up over the query. -/
theorem sum_groupBy {M : Type*} [AddCommMonoid M] (m : α → M) (μ : ρ → M)
    (hμ : ∀ k xs, (∀ x ∈ xs, key x = k) → μ (make k xs) = (xs.map m).sum) :
    ((groupBy key make rows).map μ).sum = (rows.map m).sum := by
  have hmap : (groupBy key make rows).map μ =
      (rows.map key).dedup.map fun k => ((rows.filter fun x => key x = k).map m).sum := by
    rw [groupBy, List.map_map]
    refine List.map_congr_left fun k _ => hμ k _ ?_
    intro x hx
    simpa using (List.mem_filter.1 hx).2
  rw [hmap]
  refine sum_split m (List.nodup_dedup _) ?_
  intro x hx
  rw [List.mem_dedup]
  exact List.mem_map_of_mem hx

end groupBy

theorem map_eq_self {f : ρ → ρ} {rows : List ρ} (h : ∀ r ∈ rows, f r = r) : rows.map f = rows := by
  calc rows.map f = rows.map id := List.map_congr_left h
    _ = rows := List.map_id rows

section upsert

variable {key : ρ → κ} {merge : ρ → ρ → ρ} {table batch : List ρ}

/-- A batch of keys the table has not seen is added as it is. -/
theorem upsert_fresh (hbatch : (batch.map key).Nodup)
    (hfresh : ∀ r ∈ batch, key r ∉ table.map key) :
    upsert key merge table batch = some (table ++ batch) := by
  have hsame : table.map (mergeInto key merge batch) = table := by
    refine map_eq_self ?_
    intro row hrow
    have hnone : (batch.find? fun r => key r = key row) = none := by
      rw [List.find?_eq_none]
      intro r hr
      have hne := hfresh r hr
      intro heq
      have heq : key r = key row := by simpa using heq
      exact hne (heq ▸ List.mem_map_of_mem hrow)
    simp [mergeInto, hnone]
  have hall : (batch.filter fun r => key r ∉ table.map key) = batch := by
    rw [List.filter_eq_self]
    intro r hr
    simpa using hfresh r hr
  rw [upsert, if_pos hbatch, hsame, hall]

variable {result : List ρ}

theorem mergeInto_key (hmerge : ∀ row r, key r = key row → key (merge row r) = key row)
    (row : ρ) : key (mergeInto key merge batch row) = key row := by
  unfold mergeInto
  split
  · next r hr => exact hmerge row r (by simpa using List.find?_some hr)
  · rfl

/-- Where merging takes everything from the batch, the table holds the rows of the
batch and, of its own, those with other keys. -/
theorem mem_upsert (hmerge : ∀ row r, key r = key row → merge row r = r)
    (h : upsert key merge table batch = some result) {r : ρ} :
    r ∈ result ↔ r ∈ batch ∨ r ∈ table ∧ key r ∉ batch.map key := by
  unfold upsert at h
  split at h
  · next hnodup =>
    cases h
    have hmerged : ∀ row, (∃ r ∈ batch, key r = key row ∧ mergeInto key merge batch row = r) ∨
        (key row ∉ batch.map key ∧ mergeInto key merge batch row = row) := by
      intro row
      unfold mergeInto
      split
      · next r hr =>
        have hkey : key r = key row := by simpa using List.find?_some hr
        exact .inl ⟨r, List.mem_of_find?_eq_some hr, hkey, hmerge row r hkey⟩
      · next hnone =>
        rw [List.find?_eq_none] at hnone
        refine .inr ⟨?_, rfl⟩
        intro hmem
        rcases List.mem_map.1 hmem with ⟨r, hr, hkey⟩
        exact hnone r hr (by simpa using hkey)
    have hunique : ∀ r ∈ batch, ∀ r' ∈ batch, key r = key r' → r = r' := by
      intro r hr r' hr' heq
      exact List.inj_on_of_nodup_map hnodup hr hr' heq
    simp only [List.mem_append, List.mem_map, List.mem_filter]
    constructor
    · rintro (⟨row, hrow, rfl⟩ | ⟨hr, -⟩)
      · rcases hmerged row with ⟨r, hr, -, heq⟩ | ⟨hnot, heq⟩
        · exact .inl (heq ▸ hr)
        · rw [heq]
          exact .inr ⟨hrow, by simpa using hnot⟩
      · exact .inl hr
    · rintro (hr | ⟨hr, hnot⟩)
      · by_cases hmem : key r ∈ table.map key
        · rcases List.mem_map.1 hmem with ⟨row, hrow, hkey⟩
          refine .inl ⟨row, hrow, ?_⟩
          rcases hmerged row with ⟨r', hr', hkey', heq⟩ | ⟨hnot, -⟩
          · rw [heq]
            exact hunique r' hr' r hr (hkey'.trans hkey)
          · rw [hkey] at hnot
            exact absurd (List.mem_map_of_mem hr) hnot
        · exact .inr ⟨hr, by simpa using hmem⟩
      · refine .inl ⟨r, hr, ?_⟩
        rcases hmerged r with ⟨r', hr', hkey', -⟩ | ⟨-, heq⟩
        · exact absurd ⟨r', hr', hkey'⟩ hnot
        · exact heq
  · cases h

/-- Writing a batch that the table already holds changes nothing. -/
theorem upsert_held (hmerge : ∀ row r, key r = key row → merge row r = r)
    (hbatch : (batch.map key).Nodup) (htable : (table.map key).Nodup)
    (hheld : ∀ r ∈ batch, r ∈ table) : upsert key merge table batch = some table := by
  have hsame : table.map (mergeInto key merge batch) = table := by
    refine map_eq_self ?_
    intro row hrow
    unfold mergeInto
    split
    · next r hr =>
      have hkey : key r = key row := by simpa using List.find?_some hr
      rw [hmerge row r hkey]
      exact List.inj_on_of_nodup_map htable (hheld r (List.mem_of_find?_eq_some hr)) hrow hkey
    · rfl
  have hnone : (batch.filter fun r => key r ∉ table.map key) = [] := by
    rw [List.filter_eq_nil_iff]
    intro r hr
    have hmem := List.mem_map_of_mem (f := key) (hheld r hr)
    simpa using hmem
  rw [upsert, if_pos hbatch, hsame, hnone, List.append_nil]

/-- The keys of the table stay distinct. -/
theorem nodup_upsert (hmerge : ∀ row r, key r = key row → key (merge row r) = key row)
    (htable : (table.map key).Nodup) (h : upsert key merge table batch = some result) :
    (result.map key).Nodup := by
  unfold upsert at h
  split at h
  · next hnodup =>
    cases h
    have hold : (table.map (mergeInto key merge batch)).map key = table.map key := by
      rw [List.map_map]
      exact List.map_congr_left fun row _ => mergeInto_key hmerge row
    rw [List.map_append, hold, List.nodup_append]
    refine ⟨htable, hnodup.sublist (List.filter_sublist.map key), ?_⟩
    rintro a ha b hb rfl
    rcases List.mem_map.1 hb with ⟨r, hr, rfl⟩
    have hnot := (List.mem_filter.1 hr).2
    exact absurd ha (by simpa using hnot)
  · cases h

end upsert

end Upsert
