import Potocolom.Lib.Machine

/-! # Behaviours without end

A behaviour of a machine is an infinite sequence of states, each of which is the one before
or a step after it. What holds until something else does, and does not hold for ever, leads
to it; so does what leads to itself with a smaller rank. -/

/-- An infinite sequence of steps of `m`, with pauses. -/
structure Machine.Behaviour {σ ℓ : Type*} (m : Machine σ ℓ) where
  state : Nat → σ
  init : m.init (state 0)
  next : ∀ n, state (n + 1) = state n ∨ ∃ l, m.step (state n) l = some (state (n + 1))

namespace Machine.Behaviour

variable {σ ℓ : Type*} {m : Machine σ ℓ} (b : m.Behaviour) {P Q : σ → Prop}

theorem reach (n : Nat) : m.Reach anyStep (b.state n) := by
  induction n with
  | zero => exact .of_init b.init
  | succ n ih =>
    rcases b.next n with heq | ⟨l, hstep⟩
    · rw [heq]
      exact ih
    · exact ih.tail trivial hstep

/-- Some state from the `n`-th on satisfies `Q`. -/
def Leads (n : Nat) (Q : σ → Prop) : Prop := ∃ k, n ≤ k ∧ Q (b.state k)

variable {b} {n : Nat}

theorem Leads.trans (h : b.Leads n P) (hnext : ∀ k, n ≤ k → P (b.state k) → b.Leads k Q) :
    b.Leads n Q := by
  obtain ⟨k, hle, hk⟩ := h
  obtain ⟨k', hle', hk'⟩ := hnext k hle hk
  exact ⟨k', by omega, hk'⟩

/-- What holds until `Q` does, and not for ever, leads to `Q`. -/
theorem leads_of_unless
    (hunless : ∀ k, P (b.state k) → P (b.state (k + 1)) ∨ Q (b.state (k + 1)))
    (hend : b.Leads n fun s => ¬ P s) (h : P (b.state n)) : b.Leads n Q := by
  obtain ⟨k, hle, hnot⟩ := hend
  obtain ⟨d, rfl⟩ := Nat.exists_eq_add_of_le hle
  -- the distance to the state without `P`
  induction d generalizing n with
  | zero => exact absurd h hnot
  | succ d ih =>
    rcases hunless n h with hP | hQ
    · have hnot' : ¬ P (b.state (n + 1 + d)) := by
        rw [Nat.add_right_comm]
        exact hnot
      obtain ⟨k, hle', hk⟩ := ih hP (by omega) hnot'
      exact ⟨k, by omega, hk⟩
    · exact ⟨n + 1, by omega, hQ⟩

/-- Induction on a rank that falls as long as `Q` does not hold. -/
theorem leads_of_rank (rank : σ → Nat)
    (hfall : ∀ k, P (b.state k) →
      b.Leads k fun s => Q s ∨ P s ∧ rank s < rank (b.state k))
    (h : P (b.state n)) : b.Leads n Q := by
  generalize hr : rank (b.state n) = r
  induction r using Nat.strongRecOn generalizing n with
  | _ r ih =>
    obtain ⟨k, hle, hQ | ⟨hP, hlt⟩⟩ := hfall n h
    · exact ⟨k, hle, hQ⟩
    · obtain ⟨k', hle', hk'⟩ := ih _ (hr ▸ hlt) hP rfl
      exact ⟨k', by omega, hk'⟩

/-- No step raises the rank while `P` holds, and some steps, the work, lower it. Where work is
done again and again while `P` holds, it leads to `Q`. -/
theorem leads_of_work (work : ℓ → Prop) (rank : σ → Nat)
    (hstep : ∀ k l t, P (b.state k) → m.step (b.state k) l = some t →
      Q t ∨ P t ∧ rank t ≤ rank (b.state k) ∧ (work l → rank t < rank (b.state k)))
    (hwork : ∀ k, ∃ k', k ≤ k' ∧ (¬ P (b.state k') ∨
      ∃ l, work l ∧ m.step (b.state k') l = some (b.state (k' + 1))))
    (h : P (b.state n)) : b.Leads n Q := by
  refine leads_of_rank rank (fun k hP => ?_) h
  obtain ⟨k', hle, hk'⟩ := hwork k
  obtain ⟨d, rfl⟩ := Nat.exists_eq_add_of_le hle
  -- the distance to the next work
  have hcalm : ∀ e, b.Leads k Q ∨ P (b.state (k + e)) ∧ rank (b.state (k + e)) ≤ rank (b.state k) := by
    intro e
    induction e with
    | zero => exact .inr ⟨hP, Nat.le_refl _⟩
    | succ e ih =>
      rcases ih with hleads | ⟨hPe, hrank⟩
      · exact .inl hleads
      · rcases b.next (k + e) with heq | ⟨l, hl⟩
        · rw [← Nat.add_assoc, heq]
          exact .inr ⟨hPe, hrank⟩
        · rcases hstep _ l _ hPe hl with hQ | ⟨hPt, hrank', -⟩
          · exact .inl ⟨k + e + 1, by omega, hQ⟩
          · exact .inr ⟨hPt, Nat.le_trans hrank' hrank⟩
  rcases hcalm d with hleads | ⟨hPd, hrank⟩
  · obtain ⟨j, hj, hQ⟩ := hleads
    exact ⟨j, hj, .inl hQ⟩
  · rcases hk' with hnot | ⟨l, hl, hlt⟩
    · exact absurd hPd hnot
    · rcases hstep _ l _ hPd hlt with hQ | ⟨hPt, -, hfalls⟩
      · exact ⟨k + d + 1, by omega, .inl hQ⟩
      · exact ⟨k + d + 1, by omega, .inr ⟨hPt, Nat.lt_of_lt_of_le (hfalls hl) hrank⟩⟩

end Machine.Behaviour
