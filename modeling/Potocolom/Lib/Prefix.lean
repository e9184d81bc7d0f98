import Mathlib

/-! # The shortest prefix that is enough

A loop that takes elements one by one and stops as soon as what it took is enough
returns the shortest prefix that is enough, or everything when no prefix is. -/

namespace Prefix

variable {α : Type*}

/-- Take from `rest`, after `taken`, until what was taken is enough. -/
def takeUntil (enough : List α → Bool) (taken : List α) : List α → List α
  | [] => taken
  | x :: rest =>
    if enough (taken ++ [x]) then taken ++ [x] else takeUntil enough (taken ++ [x]) rest

/-- `ys` is the shortest prefix of `xs` that is enough, or `xs` when none is. -/
structure Shortest (enough : List α → Prop) (xs ys : List α) : Prop where
  isPrefix : ys <+: xs
  stops : enough ys ∨ (ys = xs ∧ ∀ zs, zs <+: xs → ¬ enough zs)
  shortest : ∀ zs, zs <+: xs → enough zs → ys.length ≤ zs.length

theorem shortest_nil {enough : List α → Prop} (xs : List α) (h : enough []) :
    Shortest enough xs [] :=
  ⟨List.nil_prefix, .inl h, fun _ _ _ => Nat.zero_le _⟩

/-- Only what `enough` says of the prefixes matters. -/
theorem Shortest.congr {p q : List α → Prop} {xs ys : List α} (h : Shortest p xs ys)
    (hpq : ∀ zs, zs <+: xs → (p zs ↔ q zs)) : Shortest q xs ys := by
  refine ⟨h.isPrefix, ?_, fun zs hzs hq => h.shortest zs hzs ((hpq zs hzs).2 hq)⟩
  rcases h.stops with hp | ⟨heq, hnone⟩
  · exact .inl ((hpq ys h.isPrefix).1 hp)
  · exact .inr ⟨heq, fun zs hzs hq => hnone zs hzs ((hpq zs hzs).2 hq)⟩

/-- A prefix of `taken ++ xs` is one of `taken`, or it has all of `taken`. -/
theorem prefix_append_cases {taken xs zs : List α} (h : zs <+: taken ++ xs) :
    zs <+: taken ∨ taken.length < zs.length := by
  rcases Nat.lt_or_ge taken.length zs.length with hlt | hge
  · exact .inr hlt
  · exact .inl (List.prefix_of_prefix_length_le h (List.prefix_append _ _) hge)

/-- The loop is right while nothing taken so far is enough. -/
theorem takeUntil_shortest {enough : List α → Bool} {taken : List α} (rest : List α)
    (h : ∀ zs, zs <+: taken → ¬ enough zs = true) :
    Shortest (enough · = true) (taken ++ rest) (takeUntil enough taken rest) := by
  induction rest generalizing taken with
  | nil =>
    rw [takeUntil, List.append_nil]
    refine ⟨List.prefix_refl _, .inr ⟨rfl, h⟩, ?_⟩
    intro zs hzs henough
    exact absurd henough (h zs hzs)
  | cons x rest ih =>
    have hsplit : taken ++ x :: rest = (taken ++ [x]) ++ rest := by simp
    rw [takeUntil, hsplit]
    split
    case isTrue henough =>
      refine ⟨List.prefix_append _ _, .inl henough, ?_⟩
      intro zs hzs hz
      rw [← hsplit] at hzs
      rcases prefix_append_cases hzs with hshort | hlong
      · exact absurd hz (h zs hshort)
      · simpa [Nat.succ_le_iff] using hlong
    case isFalse hnot =>
      apply ih
      intro zs hzs
      -- the new prefix is the only one that was not looked at before
      rcases prefix_append_cases hzs with hshort | hlong
      · exact h zs hshort
      · have hall : zs = taken ++ [x] := hzs.eq_of_length_le (by simpa [Nat.succ_le_iff] using hlong)
        rwa [hall]

theorem takeUntil_nil_shortest {enough : List α → Bool} (xs : List α) (h : ¬ enough [] = true) :
    Shortest (enough · = true) xs (takeUntil enough [] xs) := by
  have hnone : ∀ zs, zs <+: [] → ¬ enough zs = true := by
    intro zs hzs
    rwa [List.prefix_nil.1 hzs]
  exact takeUntil_shortest xs hnone

end Prefix
