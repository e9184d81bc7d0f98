import Potocolom.Lib.BigEndian

/-! # Slices

The part of a list between two positions, where both lie inside it, and the numbers that
parts of a byte list spell, the highest byte first or the lowest. -/

namespace Slice

variable {α : Type} {xs pre mid post : List α} {start stop n : Nat}

/-- The items from `start` to before `stop`. -/
def slice? (xs : List α) (start stop : Nat) : Option (List α) :=
  if start ≤ stop ∧ stop ≤ xs.length then some ((xs.drop start).take (stop - start)) else none

theorem slice?_isSome : (slice? xs start stop).isSome ↔ start ≤ stop ∧ stop ≤ xs.length := by
  unfold slice?
  split <;> simp_all

theorem length_of_slice? (h : slice? xs start stop = some mid) : mid.length = stop - start := by
  unfold slice? at h
  split at h
  · cases h
    rw [List.length_take, List.length_drop]
    omega
  · cases h

/-- Positions behind a prefix are positions in what follows it. -/
theorem slice?_append_right (h : pre.length = n) :
    slice? (pre ++ xs) (n + start) (n + stop) = slice? xs start stop := by
  subst h
  have hbounds : (pre.length + start ≤ pre.length + stop ∧
      pre.length + stop ≤ (pre ++ xs).length) ↔ start ≤ stop ∧ stop ≤ xs.length := by
    rw [List.length_append]
    omega
  have hdrop : (pre ++ xs).drop (pre.length + start) = xs.drop start := by
    rw [List.drop_append, Nat.add_sub_cancel_left, List.drop_eq_nil_of_le (by omega),
      List.nil_append]
  simp only [slice?, hbounds, hdrop, Nat.add_sub_add_left]

/-- What stands behind the slice does not matter. -/
theorem slice?_append_left (h : stop ≤ xs.length) :
    slice? (xs ++ post) start stop = slice? xs start stop := by
  have hbounds : (start ≤ stop ∧ stop ≤ (xs ++ post).length) ↔ start ≤ stop ∧ stop ≤ xs.length := by
    rw [List.length_append]
    omega
  simp only [slice?, hbounds]
  by_cases hstart : start ≤ stop
  · rw [List.drop_append_of_le_length (by omega),
      List.take_append_of_le_length (by rw [List.length_drop]; omega)]
  · simp [hstart]

theorem slice?_zero : slice? xs 0 n = some mid ↔ ∃ post, xs = mid ++ post ∧ mid.length = n := by
  constructor
  · intro h
    have hlength := length_of_slice? h
    unfold slice? at h
    split at h
    · cases h
      exact ⟨xs.drop n, by simp, by simpa using hlength⟩
    · cases h
  · rintro ⟨post, rfl, rfl⟩
    rw [slice?_append_left le_rfl]
    simp [slice?]

/-- A slice that starts behind a prefix starts what follows it. -/
theorem slice?_behind (h : pre.length = n) :
    slice? (pre ++ xs) n (n + stop) = some mid ↔ ∃ post, xs = mid ++ post ∧ mid.length = stop := by
  have hshift : slice? (pre ++ xs) (n + 0) (n + stop) = slice? xs 0 stop := slice?_append_right h
  rw [← slice?_zero, ← hshift, Nat.add_zero]

/-- The slice between two positions cuts the list into what is before, the slice and the
rest. -/
theorem slice?_eq_some :
    slice? xs start stop = some mid ↔
      ∃ pre post, xs = pre ++ (mid ++ post) ∧ pre.length = start ∧ start + mid.length = stop := by
  constructor
  · intro h
    have hbounds := slice?_isSome.1 (Option.isSome_of_mem h)
    have hlength := length_of_slice? h
    have hpre : (xs.take start).length = start := by
      rw [List.length_take]
      omega
    have hshift : slice? (xs.take start ++ xs.drop start) (start + 0) (start + (stop - start)) =
        slice? (xs.drop start) 0 (stop - start) := slice?_append_right hpre
    have hrest : slice? (xs.drop start) 0 (stop - start) = some mid := by
      rw [← hshift, List.take_append_drop, Nat.add_zero, Nat.add_sub_cancel' hbounds.1, h]
    obtain ⟨post, hpost, -⟩ := slice?_zero.1 hrest
    exact ⟨xs.take start, post, by rw [← hpost, List.take_append_drop], hpre, by omega⟩
  · rintro ⟨pre, post, rfl, rfl, rfl⟩
    exact (slice?_behind rfl).2 ⟨post, rfl, rfl⟩

/-- A part of what stands behind a prefix. -/
theorem slice?_part (hpre : pre.length = n) {whole before : List α}
    (hwhole : ∃ after, whole = before ++ (mid ++ after)) (hstart : n + before.length = start)
    (hstop : start + mid.length = stop) : slice? (pre ++ (whole ++ xs)) start stop = some mid := by
  obtain ⟨after, hwhole⟩ := hwhole
  refine slice?_eq_some.2 ⟨pre ++ before, after ++ xs, ?_, ?_, hstop⟩
  · rw [hwhole]
    simp only [List.append_assoc]
  · rw [List.length_append, hpre, hstart]

/-- Slices that meet are one slice. -/
theorem slice?_append {middle : Nat} {more : List α} (h : slice? xs start middle = some mid)
    (hmore : slice? xs middle stop = some more) : slice? xs start stop = some (mid ++ more) := by
  obtain ⟨pre, post, rfl, hpre, hmid⟩ := slice?_eq_some.1 h
  obtain ⟨pre', post', heq, hpre', hmore⟩ := slice?_eq_some.1 hmore
  rw [← List.append_assoc] at heq
  obtain ⟨rfl, rfl⟩ := List.append_inj heq (by rw [List.length_append]; omega)
  refine slice?_eq_some.2 ⟨pre, post', ?_, hpre, ?_⟩
  · rw [List.append_assoc]
  · rw [List.length_append]
    omega

end Slice
