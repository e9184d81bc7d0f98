import Mathlib

/-! # What a measurement allows

`slots_from_frame_ms` and `slots_from_batch_curve` of `memory_ladder.py`, and the percentile
that turns samples into a measurement. Times are milliseconds. -/

namespace Potocolom.Engine

/-- The rungs on which a model can be loaded. -/
inductive MemoryRung where
  | full
  | modelOffload
  | groupOffload
deriving DecidableEq, Repr

def realtimeBarMs : Int := 500

/-- The serialized fallback when there is no batch curve. -/
def slotsFromFrameMs (p95Ms configured : Int) : Int :=
  if configured ≤ 0 ∨ p95Ms ≤ 0 then 0
  else if realtimeBarMs < p95Ms then 0
  else min configured (max 1 (realtimeBarMs / p95Ms))

/-- The loop of `slots_from_batch_curve`. -/
def countSlots (configured : Int) (index : Nat) (count : Int) : List Int → Int
  | [] => count
  | p95 :: rest =>
    if configured < index + 1 ∨ p95 ≤ 0 ∨ realtimeBarMs < p95 then count
    else countSlots configured (index + 1) (index + 1) rest

def slotsFromBatchCurve (curve : List Int) (configured : Int) : Int :=
  if configured ≤ 0 ∨ curve = [] then 0 else countSlots configured 0 0 curve

def percentileNearest (values : List ℚ) (pct : ℚ) : ℚ :=
  if values = [] then 0
  else
    let ordered := values.mergeSort (· ≤ ·)
    let rank := max 1 ⌈pct / 100 * ordered.length⌉.toNat
    ordered.getD (min ordered.length rank - 1) 0

/-- `round`: to the nearest integer, from the middle to the even one. -/
def round (q : ℚ) : Int :=
  if q - ⌊q⌋ < 1 / 2 then ⌊q⌋
  else if 1 / 2 < q - ⌊q⌋ then ⌊q⌋ + 1
  else if ⌊q⌋ % 2 = 0 then ⌊q⌋ else ⌊q⌋ + 1

/-- The p95 of the samples, as it is kept. -/
def p95Of (samples : List ℚ) : Int := round (percentileNearest samples 95)

variable {p95 configured : Int} {curve : List Int} {k : Nat}

theorem slotsFromFrameMs_nonneg : 0 ≤ slotsFromFrameMs p95 configured := by
  unfold slotsFromFrameMs
  split_ifs <;> omega

/-- So many serialized frames fit below the bar. -/
theorem le_slotsFromFrameMs (hk : 1 ≤ k) :
    (k : Int) ≤ slotsFromFrameMs p95 configured ↔
      (k : Int) ≤ configured ∧ 0 < p95 ∧ k * p95 ≤ realtimeBarMs := by
  unfold slotsFromFrameMs
  split_ifs with hnone hover
  · constructor
    · omega
    · omega
  · constructor
    · omega
    · rintro ⟨-, hpos, hle⟩
      have hself : p95 ≤ k * p95 := le_mul_of_one_le_left hpos.le (by omega)
      omega
  · have hpos : 0 < p95 := by omega
    have hdiv := Int.le_ediv_iff_mul_le (a := k) (b := realtimeBarMs) hpos
    have hone := Int.le_ediv_iff_mul_le (a := 1) (b := realtimeBarMs) hpos
    constructor
    · intro hle
      exact ⟨by omega, hpos, hdiv.1 (by omega)⟩
    · rintro ⟨hcap, -, hle⟩
      have := hdiv.2 hle
      omega

theorem count_le_countSlots (configured : Int) (curve : List Int) (index : Nat) :
    (index : Int) ≤ countSlots configured index index curve := by
  induction curve generalizing index with
  | nil => exact le_refl _
  | cons x rest ih =>
    rw [countSlots]
    split_ifs
    · exact le_refl _
    · have hnext := ih (index + 1)
      push_cast at hnext
      omega

theorem le_countSlots {index : Nat} (hk : index < k) :
    (k : Int) ≤ countSlots configured index index curve ↔
      (k : Int) ≤ configured ∧ k ≤ index + curve.length ∧
        ∀ x ∈ curve.take (k - index), 0 < x ∧ x ≤ realtimeBarMs := by
  induction curve generalizing index with
  | nil =>
    simp only [countSlots, List.length_nil]
    omega
  | cons p95 rest ih =>
    obtain ⟨m, hm⟩ : ∃ m, k - index = m + 1 := ⟨k - index - 1, by omega⟩
    rw [countSlots, hm, List.take_succ_cons, List.forall_mem_cons, List.length_cons]
    split_ifs with hstop
    · -- the walk ends here, so no further slot is allowed
      constructor
      · omega
      · rintro ⟨hle, -, ⟨hpos, hbar⟩, -⟩
        omega
    · by_cases hlast : k = index + 1
      · obtain rfl : m = 0 := by omega
        have := count_le_countSlots configured rest (index + 1)
        push_cast at this
        constructor
        · intro _
          exact ⟨by omega, by omega, ⟨by omega, by omega⟩, by simp⟩
        · intro _
          omega
      · have hnext := @ih (index + 1) (by omega)
        push_cast at hnext
        rw [hnext, show k - (index + 1) = m by omega]
        constructor
        · rintro ⟨hle, hlen, hrest⟩
          exact ⟨hle, by omega, ⟨by omega, by omega⟩, hrest⟩
        · rintro ⟨hle, hlen, -, hrest⟩
          exact ⟨hle, by omega, hrest⟩

/-- So many entries at the front of the curve stay below the bar. -/
theorem le_slotsFromBatchCurve (hk : 1 ≤ k) :
    (k : Int) ≤ slotsFromBatchCurve curve configured ↔
      (k : Int) ≤ configured ∧ k ≤ curve.length ∧
        ∀ x ∈ curve.take k, 0 < x ∧ x ≤ realtimeBarMs := by
  unfold slotsFromBatchCurve
  split_ifs with hnone
  · rcases hnone with hcap | rfl
    · constructor
      · omega
      · omega
    · simp only [List.length_nil]
      omega
  · have hcount := @le_countSlots configured curve k 0 (by omega)
    simpa using hcount

theorem slotsFromBatchCurve_nonneg : 0 ≤ slotsFromBatchCurve curve configured := by
  unfold slotsFromBatchCurve
  split_ifs
  · exact le_refl _
  · exact_mod_cast count_le_countSlots configured curve 0

end Potocolom.Engine
