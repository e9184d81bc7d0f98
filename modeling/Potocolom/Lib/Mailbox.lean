import Mathlib

/-! # A mailbox of one

Inputs carry revisions, and only the newest matters. A mailbox remembers the highest
revision it took and holds at most one that has not gone out; a newer input takes its
place. However inputs, hand-overs and losses interleave, what goes out is in order and
nothing goes out twice. -/

/-- What was taken last, what waits, and what went out, oldest first. -/
structure Mailbox (α : Type*) where
  top : α
  pending : Option α
  out : List α

namespace Mailbox

variable {α : Type*} [Preorder α]

/-- One change of a mailbox. -/
inductive Step (m : Mailbox α) : Mailbox α → Prop where
  | stay : Step m m
  /-- A newer input waits. -/
  | keep {r : α} : m.top < r → Step m { m with top := r, pending := some r }
  /-- A newer input goes straight out, past what waits. -/
  | pass {r : α} : m.top < r → Step m ⟨r, none, m.out ++ [r]⟩
  /-- A newer input is dropped. -/
  | drop {r : α} : m.top < r → Step m { m with top := r }
  /-- What waits goes out. -/
  | flush {r : α} : m.pending = some r → Step m { m with pending := none, out := m.out ++ [r] }
  /-- What waits is lost. -/
  | lose : Step m { m with pending := none }

/-- What went out is in order, and what waits comes after it. -/
structure Ordered (m : Mailbox α) : Prop where
  sorted : m.out.Pairwise (· < ·)
  out_le : ∀ r ∈ m.out, r ≤ m.top
  pending_le : ∀ p ∈ m.pending, p ≤ m.top
  out_lt : ∀ p ∈ m.pending, ∀ r ∈ m.out, r < p

theorem ordered_empty (top : α) : (⟨top, none, []⟩ : Mailbox α).Ordered := by
  constructor <;> simp

/-- Appending something later than everything keeps the order. -/
theorem sorted_append {out : List α} {r : α} (h : out.Pairwise (· < ·)) (hlt : ∀ q ∈ out, q < r) :
    (out ++ [r]).Pairwise (· < ·) := by
  rw [List.pairwise_append]
  refine ⟨h, List.pairwise_singleton _ _, ?_⟩
  intro q hq r' hr'
  rw [List.mem_singleton.1 hr']
  exact hlt q hq

theorem Ordered.step {m m' : Mailbox α} (h : m.Ordered) (hstep : m.Step m') : m'.Ordered := by
  cases hstep with
  | stay => exact h
  | keep hr =>
    constructor
    · exact h.sorted
    · intro q hq
      exact (h.out_le q hq).trans hr.le
    · intro p hp
      cases hp
      exact le_refl _
    · intro p hp q hq
      cases hp
      exact (h.out_le q hq).trans_lt hr
  | pass hr =>
    have hlt : ∀ q ∈ m.out, q < _ := fun q hq => (h.out_le q hq).trans_lt hr
    constructor
    · exact sorted_append h.sorted hlt
    · intro q hq
      rcases List.mem_append.1 hq with hq | hq
      · exact (hlt q hq).le
      · rw [List.mem_singleton.1 hq]
    · intro p hp
      cases hp
    · intro p hp
      cases hp
  | drop hr =>
    constructor
    · exact h.sorted
    · intro q hq
      exact (h.out_le q hq).trans hr.le
    · intro p hp
      exact (h.pending_le p hp).trans hr.le
    · exact h.out_lt
  | flush hp =>
    constructor
    · exact sorted_append h.sorted (h.out_lt _ hp)
    · intro q hq
      rcases List.mem_append.1 hq with hq | hq
      · exact h.out_le q hq
      · rw [List.mem_singleton.1 hq]
        exact h.pending_le _ hp
    · intro p hp'
      cases hp'
    · intro p hp'
      cases hp'
  | lose =>
    constructor
    · exact h.sorted
    · exact h.out_le
    · intro p hp
      cases hp
    · intro p hp
      cases hp

end Mailbox
