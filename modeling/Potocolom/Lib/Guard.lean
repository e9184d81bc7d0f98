import Mathlib

/-! # Guarded transactions

A transaction is a `do` block in `Except ε`: every refusal throws, and a throw
rolls the transaction back. The two guards below are the only ways such a block
may fail, so a committed transaction can be taken apart into the conditions it
checked (`bind_eq_ok`, `require_eq_ok`, `demand_eq_ok`), without unfolding the
monad. -/

namespace Guard

universe u v

variable {ε : Type u} {α β : Type v}

/-- Go on only if `c` holds; otherwise refuse with `why`. -/
def require (c : Prop) [Decidable c] (why : ε) : Except ε Unit :=
  if c then .ok () else .error why

/-- Take the value out of `x`; refuse with `why` when there is none. -/
def demand (x : Option α) (why : ε) : Except ε α :=
  match x with
  | some a => .ok a
  | none => .error why

@[simp] theorem require_eq_ok {c : Prop} [Decidable c] {why : ε} {u : Unit} :
    require c why = .ok u ↔ c := by
  unfold require
  split <;> simp_all

@[simp] theorem demand_eq_ok {x : Option α} {why : ε} {a : α} :
    demand x why = .ok a ↔ x = some a := by
  cases x <;> simp [demand]

@[simp] theorem bind_eq_ok {x : Except ε α} {f : α → Except ε β} {b : β} :
    (x >>= f) = .ok b ↔ ∃ a, x = .ok a ∧ f a = .ok b := by
  cases x <;> simp [bind, Except.bind]

@[simp] theorem pure_eq_ok {a b : α} : (pure a : Except ε α) = .ok b ↔ a = b := by
  simp [pure, Except.pure]

@[simp] theorem map_eq_ok {x : Except ε α} {f : α → β} {b : β} :
    (f <$> x) = .ok b ↔ ∃ a, x = .ok a ∧ f a = b := by
  cases x <;> simp [Functor.map, Except.map]

@[simp] theorem throw_ne_ok {why : ε} {b : α} : (throw why : Except ε α) = .ok b ↔ False := by
  simp [throw, throwThe, MonadExceptOf.throw]

/-- The state a transaction leaves behind: the committed one, or, when it
refused, the one it started from. -/
def settle {σ : Type*} (x : Except ε (α × σ)) (s : σ) : σ :=
  match x with
  | .ok (_, s') => s'
  | .error _ => s

/-- A settled transaction either committed or changed nothing. -/
theorem settle_cases {σ : Type*} (x : Except ε (α × σ)) (s : σ) :
    (∃ a, x = .ok (a, settle x s)) ∨ settle x s = s := by
  cases x with
  | ok r => exact .inl ⟨r.1, rfl⟩
  | error _ => exact .inr rfl

end Guard
