import Mathlib

/-! # Runs of a list

A run is a contiguous part of a list of distinct elements. A page from the front can be
merged over a run that it reaches, and a page from behind its last element can be appended
to it; both leave a run. -/

namespace Runs

variable {α : Type*} [DecidableEq α] {a b run front : List α} {c : α} {n : Nat}

/-- What stands behind `c`. -/
def after (c : α) (l : List α) : List α := (l.dropWhile fun x => x ≠ c).tail

theorem after_cons (hfront : c ∉ front) : after c (front ++ c :: b) = b := by
  unfold after
  rw [List.dropWhile_append_of_pos]
  · rw [List.dropWhile_cons_of_neg (by simp)]
    rfl
  · intro x hx
    have hne : x ≠ c := fun heq => hfront (heq ▸ hx)
    simpa using hne

/-- Behind the last element of a run comes what follows the run. -/
theorem after_run (hnodup : (a ++ run ++ b).Nodup) (hlast : run.getLast? = some c) :
    after c (a ++ run ++ b) = b := by
  obtain ⟨init, rfl⟩ : ∃ init, run = init ++ [c] :=
    ⟨run.dropLast, (List.dropLast_append_getLast? c hlast).symm⟩
  have hsplit : a ++ (init ++ [c]) ++ b = (a ++ init) ++ c :: b := by simp
  rw [hsplit] at hnodup ⊢
  apply after_cons
  intro hin
  exact (List.nodup_append.1 hnodup).2.2 c hin c List.mem_cons_self rfl

/-- The page holds the first elements of the run, and no others of it. -/
theorem filter_page (hnodup : (run ++ b).Nodup) (k : Nat) :
    run.filter (fun x => x ∉ (run ++ b).take k) = run.drop k := by
  have hsplit : run.filter (fun x => x ∉ (run ++ b).take k) =
      (run.take k).filter (fun x => x ∉ (run ++ b).take k) ++
        (run.drop k).filter (fun x => x ∉ (run ++ b).take k) := by
    rw [← List.filter_append, List.take_append_drop]
  have htake : (run.take k).filter (fun x => x ∉ (run ++ b).take k) = [] := by
    rw [List.filter_eq_nil_iff]
    intro x hx
    have hin : x ∈ (run ++ b).take k := by
      rw [List.take_append]
      exact List.mem_append_left _ hx
    simpa using hin
  have hdrop : (run.drop k).filter (fun x => x ∉ (run ++ b).take k) = run.drop k := by
    rw [List.filter_eq_self]
    intro x hx
    have hnotin : x ∉ (run ++ b).take k := by
      intro hin
      have hdisjoint : (run ++ b).take k ++ (run ++ b).drop k = run ++ b :=
        List.take_append_drop k _
      rw [← hdisjoint] at hnodup
      have hx' : x ∈ (run ++ b).drop k := by
        rw [List.drop_append]
        exact List.mem_append_left _ hx
      exact (List.nodup_append.1 hnodup).2.2 x hin x hx' rfl
    simpa using hnotin
  rw [hsplit, htake, hdrop, List.nil_append]

/-- A page from the front that reaches the run, with the rest of the run behind it. -/
theorem merged_run (hnodup : (a ++ run ++ b).Nodup) (hle : a.length ≤ n) :
    ((a ++ run ++ b).take n ++ run.filter fun x => x ∉ (a ++ run ++ b).take n) <:+:
      a ++ run ++ b := by
  obtain ⟨k, rfl⟩ := Nat.exists_eq_add_of_le hle
  rw [List.append_assoc] at hnodup ⊢
  have hpage : (a ++ (run ++ b)).take (a.length + k) = a ++ (run ++ b).take k := by
    rw [List.take_append, List.take_of_length_le (by omega), Nat.add_sub_cancel_left]
  have hfilter : run.filter (fun x => x ∉ a ++ (run ++ b).take k) = run.drop k := by
    rw [← filter_page (List.nodup_append.1 hnodup).2.1 k]
    apply List.filter_congr
    intro x hx
    have hnot : x ∉ a := fun hin =>
      (List.nodup_append.1 hnodup).2.2 x hin x (List.mem_append_left _ hx) rfl
    simp [hnot]
  rw [hpage, hfilter]
  by_cases hk : k ≤ run.length
  · -- the page ends within the run
    have hrun : a ++ (run ++ b).take k ++ run.drop k = a ++ run := by
      rw [List.take_append_of_le_length hk, List.append_assoc, List.take_append_drop]
    rw [hrun, ← List.append_assoc]
    exact (List.prefix_append (a ++ run) b).isInfix
  · have hrun : run.drop k = [] := List.drop_eq_nil_of_le (by omega)
    rw [hrun, List.append_nil]
    exact ((List.prefix_append_right_inj a).2 (List.take_prefix k (run ++ b))).isInfix

end Runs
