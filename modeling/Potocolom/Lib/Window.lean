import Mathlib

/-! # Windows of numbered rows

A log keeps the rows numbered from just above a floor up to a bound, without a
gap (`Contiguous`). The floor is cumulative: it moves up one position at a time
for as long as the next position is settled (`advance`), and the rows below it
may go. -/

namespace Window

/-! ## Advancing the floor -/

/-- `while floor + 1 < next and settled(floor + 1): floor += 1`, for at most
`fuel` rounds. -/
def advanceBy (settled : Nat → Bool) (next : Nat) : Nat → Nat → Nat
  | 0, floor => floor
  | fuel + 1, floor =>
    if floor + 1 < next ∧ settled (floor + 1) then advanceBy settled next fuel (floor + 1)
    else floor

/-- The loop itself: `next - floor` rounds are always enough. -/
def advance (settled : Nat → Bool) (next floor : Nat) : Nat :=
  advanceBy settled next (next - floor) floor

variable {settled : Nat → Bool} {next : Nat}

theorem le_advanceBy (fuel floor : Nat) : floor ≤ advanceBy settled next fuel floor := by
  induction fuel generalizing floor with
  | zero => exact Nat.le_refl _
  | succ n ih =>
    rw [advanceBy]
    split
    · exact Nat.le_of_succ_le (ih (floor + 1))
    · exact Nat.le_refl _

theorem advanceBy_lt (fuel : Nat) {floor : Nat} (h : floor < next) :
    advanceBy settled next fuel floor < next := by
  induction fuel generalizing floor with
  | zero => exact h
  | succ n ih =>
    rw [advanceBy]
    split
    · next hc => exact ih hc.1
    · exact h

theorem advanceBy_settled (fuel floor : Nat) {q : Nat} (hq : floor < q)
    (hle : q ≤ advanceBy settled next fuel floor) : settled q = true := by
  induction fuel generalizing floor with
  | zero => exact absurd hle (Nat.not_le.mpr hq)
  | succ n ih =>
    rw [advanceBy] at hle
    split at hle
    · next hc =>
      rcases Nat.eq_or_lt_of_le (Nat.succ_le_of_lt hq) with heq | hlt
      · rw [← heq]
        exact hc.2
      · exact ih (floor + 1) hlt hle
    · exact absurd hle (Nat.not_le.mpr hq)

theorem le_advance (floor : Nat) : floor ≤ advance settled next floor := le_advanceBy _ _

theorem advance_lt {floor : Nat} (h : floor < next) : advance settled next floor < next :=
  advanceBy_lt _ h

/-- Everything the floor passed was settled. -/
theorem advance_settled {floor q : Nat} (hq : floor < q) (hle : q ≤ advance settled next floor) :
    settled q = true := advanceBy_settled _ _ hq hle

/-! ## Contiguous rows -/

section Contiguous

variable {ρ : Type*} {key : ρ → Nat} {lo hi : Nat} {rows : List ρ}

/-- The rows are numbered `lo, lo + 1, …, hi - 1`, in this order. -/
def Contiguous (key : ρ → Nat) (lo hi : Nat) (rows : List ρ) : Prop :=
  rows.map key = List.range' lo (hi - lo)

theorem contiguous_nil (n : Nat) : Contiguous key n n [] := by simp [Contiguous]

namespace Contiguous

theorem mem_bounds (h : Contiguous key lo hi rows) {r : ρ} (hr : r ∈ rows) :
    lo ≤ key r ∧ key r < hi := by
  have hk : key r ∈ rows.map key := List.mem_map_of_mem hr
  rw [h, List.mem_range'_1] at hk
  omega

theorem exists_mem (h : Contiguous key lo hi rows) {q : Nat} (hlo : lo ≤ q) (hhi : q < hi) :
    ∃ r ∈ rows, key r = q := by
  have hq : q ∈ rows.map key := by
    rw [h, List.mem_range'_1]
    omega
  exact List.mem_map.mp hq

theorem nodup_keys (h : Contiguous key lo hi rows) : (rows.map key).Nodup := by
  rw [h]
  exact List.nodup_range'

/-- A number names one row. -/
theorem key_inj (h : Contiguous key lo hi rows) {r r' : ρ} (hr : r ∈ rows) (hr' : r' ∈ rows)
    (hk : key r = key r') : r = r' :=
  List.inj_on_of_nodup_map h.nodup_keys hr hr' hk

/-- Looking a number up finds exactly the row it numbers. -/
theorem find?_eq_some_iff (h : Contiguous key lo hi rows) {q : Nat} {r : ρ} :
    rows.find? (fun r => key r == q) = some r ↔ r ∈ rows ∧ key r = q := by
  constructor
  · intro hf
    exact ⟨List.mem_of_find?_eq_some hf, by simpa using List.find?_some hf⟩
  · rintro ⟨hr, hk⟩
    cases hf : rows.find? (fun r => key r == q) with
    | none =>
      rw [List.find?_eq_none] at hf
      exact absurd (beq_iff_eq.mpr hk) (hf r hr)
    | some r' =>
      have hk' : key r' = q := by simpa using List.find?_some hf
      rw [h.key_inj (List.mem_of_find?_eq_some hf) hr (hk'.trans hk.symm)]

theorem append (h : Contiguous key lo hi rows) (hle : lo ≤ hi) {r : ρ} (hr : key r = hi) :
    Contiguous key lo (hi + 1) (rows ++ [r]) := by
  unfold Contiguous at h ⊢
  have hlen : hi + 1 - lo = (hi - lo) + 1 := by omega
  rw [List.map_append, h, hlen, List.range'_concat, List.map_cons, List.map_nil, hr]
  simp only [Nat.one_mul]
  rw [Nat.add_sub_cancel' hle]

/-- Rewriting rows without renumbering them. -/
theorem map (h : Contiguous key lo hi rows) {f : ρ → ρ} (hf : ∀ r ∈ rows, key (f r) = key r) :
    Contiguous key lo hi (rows.map f) := by
  unfold Contiguous at h ⊢
  rw [← h, List.map_map]
  exact List.map_congr_left hf

/-- Dropping exactly the rows below `mid`. -/
theorem filter (h : Contiguous key lo hi rows) {mid : Nat} (hlo : lo ≤ mid) (hhi : mid ≤ hi)
    {p : ρ → Bool} (hp : ∀ r ∈ rows, p r = decide (mid ≤ key r)) :
    Contiguous key mid hi (rows.filter p) := by
  have hcut : (rows.filter p).map key = (rows.map key).filter (fun q => decide (mid ≤ q)) := by
    rw [List.filter_map, List.filter_congr hp]
    rfl
  have hsplit : hi - lo = (mid - lo) + (hi - mid) := by omega
  unfold Contiguous at h ⊢
  rw [hcut, h, hsplit, ← List.range'_append_1, List.filter_append]
  have hlow : (List.range' lo (mid - lo)).filter (fun q => decide (mid ≤ q)) = [] := by
    rw [List.filter_eq_nil_iff]
    intro q hq
    rw [List.mem_range'_1] at hq
    simp only [decide_eq_true_eq]
    omega
  have hhigh : (List.range' (lo + (mid - lo)) (hi - mid)).filter (fun q => decide (mid ≤ q)) =
      List.range' (lo + (mid - lo)) (hi - mid) := by
    rw [List.filter_eq_self]
    intro q hq
    rw [List.mem_range'_1] at hq
    simp only [decide_eq_true_eq]
    omega
  rw [hlow, hhigh, List.nil_append, Nat.add_sub_cancel' hlo]

/-- No row carries a number from the bound on. -/
theorem find?_eq_none (h : Contiguous key lo hi rows) {q : Nat} (hq : hi ≤ q) :
    rows.find? (fun r => key r == q) = none := by
  rw [List.find?_eq_none]
  intro r hr
  have hlt := (h.mem_bounds hr).2
  rw [beq_iff_eq]
  omega

/-- Dropping the first row. -/
theorem tail (h : Contiguous key lo hi rows) : Contiguous key (lo + 1) hi rows.tail := by
  unfold Contiguous at h ⊢
  rw [List.map_tail, h, List.tail_range', Nat.sub_sub]

end Contiguous

end Contiguous

end Window
