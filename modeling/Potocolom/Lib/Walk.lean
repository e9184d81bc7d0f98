import Potocolom.Lib.Raise

/-! # Loops that leave

A loop whose turn goes on with a new state, leaves with a value, or raises. Every turn that
goes on makes a measure smaller, so the loop ends. Where its turns read the encodings of
tokens from what is left of an input, the loop accepts the inputs that its automaton over
tokens accepts. -/

namespace Walk

open Guard

variable {ε σ α : Type}

structure Loop (ε σ α : Type) where
  turn : σ → Except ε (σ ⊕ α)
  measure : σ → Nat
  progress : ∀ s s', turn s = .ok (.inl s') → measure s' < measure s

/-- The loop from a state on. -/
def Loop.run (loop : Loop ε σ α) (s : σ) : Except ε α :=
  match _h : loop.turn s with
  | .error why => .error why
  | .ok (.inr a) => .ok a
  | .ok (.inl s') => loop.run s'
termination_by loop.measure s
decreasing_by exact loop.progress s s' _h

variable {loop : Loop ε σ α}

theorem run_of_go {s s' : σ} (h : loop.turn s = .ok (.inl s')) : loop.run s = loop.run s' := by
  rw [Loop.run]
  split <;> simp_all

theorem run_of_leave {s : σ} {a : α} (h : loop.turn s = .ok (.inr a)) : loop.run s = .ok a := by
  rw [Loop.run]
  split <;> simp_all

theorem run_of_raise {s : σ} {why : ε} (h : loop.turn s = .error why) :
    loop.run s = .error why := by
  rw [Loop.run]
  split <;> simp_all

/-- The induction over a run: what holds where a turn leaves, and holds before a turn that goes
on when it holds after it, holds of every run that leaves. -/
theorem run_ok {Q : σ → α → Prop} (leave : ∀ s a, loop.turn s = .ok (.inr a) → Q s a)
    (go : ∀ s s' a, loop.turn s = .ok (.inl s') → Q s' a → Q s a) {s : σ} {a : α}
    (h : loop.run s = .ok a) : Q s a := by
  induction hn : loop.measure s using Nat.strongRecOn generalizing s with
  | ind n ih =>
    subst hn
    rcases hturn : loop.turn s with why | s' | b
    · rw [run_of_raise hturn] at h
      cases h
    · rw [run_of_go hturn] at h
      exact go s s' a hturn (ih _ (loop.progress s s' hturn) h rfl)
    · rw [run_of_leave hturn] at h
      cases h
      exact leave s _ hturn

/-- A run raises only what its turns raise from states that satisfy an invariant. -/
theorem run_raises {P : ε → Prop} {I : σ → Prop} (raises : ∀ s, I s → RaisesOnly P (loop.turn s))
    (go : ∀ s s', I s → loop.turn s = .ok (.inl s') → I s') {s : σ} (hs : I s) :
    RaisesOnly P (loop.run s) := by
  induction hn : loop.measure s using Nat.strongRecOn generalizing s with
  | ind n ih =>
    subst hn
    rcases hturn : loop.turn s with why | s' | b
    · rw [run_of_raise hturn, raisesOnly_error]
      exact raises s hs why hturn
    · rw [run_of_go hturn]
      exact ih _ (loop.progress s s' hturn) (go s s' hs hturn) rfl
    · rw [run_of_leave hturn]
      exact raisesOnly_ok b

/-! ## Walks over tokens -/

section Tokens

variable {β τ : Type}

/-- An automaton's way through a list of tokens. -/
inductive Chain (Takes : σ → τ → σ → Prop) : σ → List τ → σ → Prop
  | nil (s : σ) : Chain Takes s [] s
  | cons {s s' s'' : σ} {t : τ} {ts : List τ} (head : Takes s t s') (tail : Chain Takes s' ts s'') :
      Chain Takes s (t :: ts) s''

theorem chain_nil {Takes : σ → τ → σ → Prop} {s s' : σ} : Chain Takes s [] s' ↔ s' = s := by
  constructor
  · rintro ⟨⟩
    rfl
  · rintro rfl
    exact .nil _

theorem chain_cons {Takes : σ → τ → σ → Prop} {s s'' : σ} {t : τ} {ts : List τ} :
    Chain Takes s (t :: ts) s'' ↔ ∃ s', Takes s t s' ∧ Chain Takes s' ts s'' := by
  constructor
  · rintro (_ | ⟨head, tail⟩)
    exact ⟨_, head, tail⟩
  · rintro ⟨s', head, tail⟩
    exact .cons head tail

/-- The loop's turns read encoded tokens: a turn that goes on takes the token that the rest of
the input starts with, and one that leaves does so by what is left. -/
structure Reads (loop : Loop ε σ α) (encode : τ → List β) (Left : σ → List β → Prop)
    (Takes : σ → τ → σ → Prop) (Ends : σ → List β → α → Prop) : Prop where
  go : ∀ {s s' rest}, Left s rest →
    (loop.turn s = .ok (.inl s') ↔ ∃ t rest', rest = encode t ++ rest' ∧ Takes s t s')
  left : ∀ {s s' t rest}, Left s (encode t ++ rest) → Takes s t s' → Left s' rest
  leave : ∀ {s rest a}, Left s rest → (loop.turn s = .ok (.inr a) ↔ Ends s rest a)

variable {encode : τ → List β} {Left : σ → List β → Prop} {Takes : σ → τ → σ → Prop}
variable {Ends : σ → List β → α → Prop}

/-- Such a loop leaves with a value exactly when the rest of the input is the encodings of
tokens that lead its automaton to a state which ends there. -/
theorem Reads.run_iff (reads : Reads loop encode Left Takes Ends) {s : σ} {rest : List β} {a : α}
    (hleft : Left s rest) :
    loop.run s = .ok a ↔ ∃ ts rest' s', rest = ts.flatMap encode ++ rest' ∧
      Chain Takes s ts s' ∧ Ends s' rest' a := by
  constructor
  · intro hrun
    refine run_ok (Q := fun s a => ∀ rest, Left s rest → ∃ ts rest' s',
      rest = ts.flatMap encode ++ rest' ∧ Chain Takes s ts s' ∧ Ends s' rest' a)
      ?_ ?_ hrun rest hleft
    · intro s a hturn rest hleft
      exact ⟨[], rest, s, rfl, .nil s, (reads.leave hleft).1 hturn⟩
    · intro s s' a hturn ih rest hleft
      obtain ⟨t, rest', rfl, htakes⟩ := (reads.go hleft).1 hturn
      obtain ⟨ts, last, s'', rfl, hchain, hends⟩ := ih rest' (reads.left hleft htakes)
      exact ⟨t :: ts, last, s'', by simp, .cons htakes hchain, hends⟩
  · rintro ⟨ts, last, s', rfl, hchain, hends⟩
    induction hchain with
    | nil s => exact run_of_leave ((reads.leave hleft).2 hends)
    | @cons s s' s'' t ts head tail ih =>
      have hfirst : Left s (encode t ++ (ts.flatMap encode ++ last)) := by simpa using hleft
      rw [run_of_go ((reads.go hfirst).2 ⟨t, _, rfl, head⟩)]
      exact ih (reads.left hfirst head) hends

end Tokens

end Walk
