import Mathlib

/-! # Recursive queries that drop duplicates

`WITH RECURSIVE … UNION`: each round joins the rows that the last round found, and keeps
what was not there before. Where only finitely many rows can come up, it ends, with the rows
reached from the first ones, whatever cycles there are. -/

namespace Closure

/-- The first rows, the rows that a row leads to, and the rows that can come up. -/
structure Query (α : Type*) where
  seed : List α
  next : α → List α
  all : List α
  seed_mem : ∀ x ∈ seed, x ∈ all
  next_mem : ∀ x, ∀ y ∈ next x, y ∈ all

/-- What a query has found, and what its last round found of that. -/
structure Rows (α : Type*) where
  result : List α
  working : List α

namespace Query

variable {α : Type*} [DecidableEq α] (q : Query α)

def start : Rows α := ⟨q.seed.dedup, q.seed.dedup⟩

def round (rows : Rows α) : Rows α :=
  let found := (rows.working.flatMap q.next).dedup.filter fun y => y ∉ rows.result
  ⟨rows.result ++ found, found⟩

/-- Rounds, until one finds nothing; `none` where they do not suffice. -/
def run : Nat → Rows α → Option (List α)
  | _, ⟨result, []⟩ => some result
  | 0, ⟨_, _ :: _⟩ => none
  | fuel + 1, ⟨result, x :: working⟩ => run fuel (q.round ⟨result, x :: working⟩)

/-- `y` is reached from `x`. -/
def Leads (x y : α) : Prop := Relation.ReflTransGen (fun a b => b ∈ q.next a) x y

/-- What holds of the rows between two rounds. -/
structure Sound (rows : Rows α) : Prop where
  nodup : rows.result.Nodup
  all : ∀ x ∈ rows.result, x ∈ q.all
  working : ∀ x ∈ rows.working, x ∈ rows.result
  seed : ∀ x ∈ q.seed, x ∈ rows.result
  reached : ∀ y ∈ rows.result, ∃ x ∈ q.seed, q.Leads x y
  /-- Only what the last round found is still to be joined. -/
  closed : ∀ x ∈ rows.result, x ∉ rows.working → ∀ y ∈ q.next x, y ∈ rows.result

variable {q} {rows : Rows α}

theorem start_sound : q.Sound q.start := by
  constructor
  · exact List.nodup_dedup _
  · intro x hx
    exact q.seed_mem x (List.mem_dedup.1 hx)
  · exact fun x hx => hx
  · exact fun x hx => List.mem_dedup.2 hx
  · exact fun x hx => ⟨x, List.mem_dedup.1 hx, .refl⟩
  · exact fun x hx hnot => absurd hx hnot

theorem mem_found {result working : List α} {y : α} :
    y ∈ (working.flatMap q.next).dedup.filter (fun y => y ∉ result) ↔
      (∃ x ∈ working, y ∈ q.next x) ∧ y ∉ result := by
  simp

theorem Sound.round (h : q.Sound rows) : q.Sound (q.round rows) := by
  constructor
  · rw [Query.round, List.nodup_append]
    refine ⟨h.nodup, (List.nodup_dedup _).filter _, ?_⟩
    rintro a ha b hb rfl
    exact (mem_found.1 hb).2 ha
  · intro y hy
    rcases List.mem_append.1 hy with hy | hy
    · exact h.all y hy
    · obtain ⟨⟨x, -, hnext⟩, -⟩ := mem_found.1 hy
      exact q.next_mem x y hnext
  · exact fun y hy => List.mem_append_right _ hy
  · exact fun x hx => List.mem_append_left _ (h.seed x hx)
  · intro y hy
    rcases List.mem_append.1 hy with hy | hy
    · exact h.reached y hy
    · obtain ⟨⟨x, hx, hnext⟩, -⟩ := mem_found.1 hy
      obtain ⟨s, hs, hleads⟩ := h.reached x (h.working x hx)
      exact ⟨s, hs, hleads.tail hnext⟩
  · intro x hx hnot y hnext
    by_cases hy : y ∈ rows.result
    · exact List.mem_append_left _ hy
    · -- what leads to a row not yet there was found by the last round, and is joined by this one
      have hold : x ∈ rows.result := (List.mem_append.1 hx).resolve_right hnot
      have hworking : x ∈ rows.working := by
        by_contra hout
        exact hy (h.closed x hold hout y hnext)
      exact List.mem_append_right _ (mem_found.2 ⟨⟨x, hworking, hnext⟩, hy⟩)

omit [DecidableEq α] in
/-- When a round finds nothing, the rows are those reached from the first ones. -/
theorem Sound.complete {result : List α} (h : q.Sound ⟨result, []⟩) {y : α} :
    y ∈ result ↔ ∃ x ∈ q.seed, q.Leads x y := by
  constructor
  · exact h.reached y
  · rintro ⟨x, hx, hleads⟩
    induction hleads with
    | refl => exact h.seed x hx
    | tail _ hnext ih => exact h.closed _ ih (by simp) _ hnext

/-- A round that finds something makes the result longer, and it is never longer than the list
of all rows; so the query ends. -/
theorem Sound.run_ends (h : q.Sound rows) {fuel : Nat}
    (hfuel : q.all.length + 1 ≤ fuel + rows.result.length) :
    ∃ result, q.run fuel rows = some result ∧ ∀ y, y ∈ result ↔ ∃ x ∈ q.seed, q.Leads x y := by
  induction fuel generalizing rows with
  | zero =>
    have hlength : rows.result.length ≤ q.all.length :=
      (List.Nodup.subperm h.nodup fun x hx => h.all x hx).length_le
    omega
  | succ fuel ih =>
    rcases rows with ⟨result, _ | ⟨x, working⟩⟩
    · exact ⟨result, rfl, fun y => h.complete⟩
    · rw [Query.run]
      have hround := h.round
      cases hfound : (q.round ⟨result, x :: working⟩).working with
      | nil =>
        have hrows : q.round ⟨result, x :: working⟩ =
            ⟨(q.round ⟨result, x :: working⟩).result, []⟩ := by rw [← hfound]
        rw [hrows] at hround ⊢
        exact ⟨_, by cases fuel <;> rfl, fun y => hround.complete⟩
      | cons y found =>
        apply ih hround
        have hlonger : (q.round ⟨result, x :: working⟩).result.length =
            result.length + (q.round ⟨result, x :: working⟩).working.length :=
          List.length_append
        rw [hfound, List.length_cons] at hlonger
        have : result.length = (Rows.mk result (x :: working)).result.length := rfl
        omega

/-- The query ends, with the rows that the first ones lead to. -/
theorem run_start {fuel : Nat} (hfuel : q.all.length < fuel) :
    ∃ result, q.run fuel q.start = some result ∧
      ∀ y, y ∈ result ↔ ∃ x ∈ q.seed, q.Leads x y :=
  start_sound.run_ends (by omega)

end Query

end Closure
