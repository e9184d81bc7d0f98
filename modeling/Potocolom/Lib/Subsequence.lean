import Mathlib

/-! # Longest common subsequences

How the length of a longest common subsequence of two lists follows from those of their
prefixes, one element at a time. -/

namespace Subsequence

variable {α : Type*} {xs ys zs : List α} {a b : α} {n m : Nat}

/-- The longest common subsequences of `xs` and `ys` have length `n`. -/
structure Longest (xs ys : List α) (n : Nat) : Prop where
  attained : ∃ zs : List α, zs.Sublist xs ∧ zs.Sublist ys ∧ zs.length = n
  le : ∀ zs : List α, zs.Sublist xs → zs.Sublist ys → zs.length ≤ n

theorem Longest.unique (hn : Longest xs ys n) (hm : Longest xs ys m) : n = m := by
  obtain ⟨zs, hxs, hys, hlength⟩ := hn.attained
  obtain ⟨zs', hxs', hys', hlength'⟩ := hm.attained
  apply Nat.le_antisymm
  · rw [← hlength]
    exact hm.le zs hxs hys
  · rw [← hlength']
    exact hn.le zs' hxs' hys'

theorem longest_nil_left (ys : List α) : Longest [] ys 0 where
  attained := ⟨[], .slnil, List.nil_sublist ys, rfl⟩
  le zs hzs _ := by simp [List.sublist_nil.1 hzs]

theorem longest_nil_right (xs : List α) : Longest xs [] 0 where
  attained := ⟨[], List.nil_sublist xs, .slnil, rfl⟩
  le zs _ hzs := by simp [List.sublist_nil.1 hzs]

/-! ## One more element -/

theorem sublist_concat :
    zs.Sublist (xs ++ [a]) ↔ zs.Sublist xs ∨ ∃ rest, zs = rest ++ [a] ∧ rest.Sublist xs := by
  rw [List.sublist_append_iff]
  constructor
  · rintro ⟨front, last, rfl, hfront, hlast⟩
    rcases List.sublist_singleton.1 hlast with rfl | rfl
    · exact .inl (by simpa using hfront)
    · exact .inr ⟨front, rfl, hfront⟩
  · rintro (h | ⟨rest, rfl, hrest⟩)
    · exact ⟨zs, [], by simp, h, List.nil_sublist _⟩
    · exact ⟨rest, [a], rfl, hrest, .refl _⟩

/-- Without its last element, a subsequence does not need the last element. -/
theorem sublist_of_concat {c : α} (h : (zs ++ [c]).Sublist (xs ++ [a])) : zs.Sublist xs := by
  rcases sublist_concat.1 h with h | ⟨rest, heq, hrest⟩
  · exact (List.sublist_append_left zs [c]).trans h
  · rw [(List.append_inj' heq rfl).1]
    exact hrest

theorem Longest.concat_same (h : Longest xs ys n) : Longest (xs ++ [a]) (ys ++ [a]) (n + 1) := by
  constructor
  · obtain ⟨zs, hxs, hys, rfl⟩ := h.attained
    exact ⟨zs ++ [a], hxs.append (.refl _), hys.append (.refl _), by simp⟩
  · intro zs hxs hys
    rcases List.eq_nil_or_concat zs with rfl | ⟨front, c, rfl⟩
    · exact Nat.zero_le _
    · rw [List.concat_eq_append] at hxs hys
      have hle := h.le front (sublist_of_concat hxs) (sublist_of_concat hys)
      simpa using hle

theorem Longest.concat_ne (hne : a ≠ b) (hn : Longest xs (ys ++ [b]) n)
    (hm : Longest (xs ++ [a]) ys m) : Longest (xs ++ [a]) (ys ++ [b]) (max n m) := by
  constructor
  · -- the longer of the two is one
    rcases Nat.le_total n m with hle | hle
    · obtain ⟨zs, hxs, hys, hlength⟩ := hm.attained
      exact ⟨zs, hxs, hys.trans (List.sublist_append_left ys [b]), by omega⟩
    · obtain ⟨zs, hxs, hys, hlength⟩ := hn.attained
      exact ⟨zs, hxs.trans (List.sublist_append_left xs [a]), hys, by omega⟩
  · intro zs hxs hys
    rcases sublist_concat.1 hxs with h | ⟨front, rfl, -⟩
    · exact Nat.le_trans (hn.le zs h hys) (Nat.le_max_left n m)
    · -- it ends in `a`, so it does not use the last element of the other list
      rcases sublist_concat.1 hys with h | ⟨rest, heq, -⟩
      · exact Nat.le_trans (hm.le _ hxs h) (Nat.le_max_right n m)
      · have hlast := (List.append_inj' heq rfl).2
        rw [List.singleton_inj] at hlast
        exact absurd hlast hne

end Subsequence
