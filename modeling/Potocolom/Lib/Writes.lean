import Mathlib

/-! # Computations that write as they go

A Python function that assigns to an object and then raises leaves the object as
assigned. `EStateM` has these semantics; the rules below take a postcondition through
such a function, for the return and for the exceptions alike. -/

namespace Writes

universe u

variable {ε σ ρ α : Type u}

/-- Go on with the value of `x`, or raise what it raises. -/
def check (x : Except ε α) : EStateM ε σ α := fun s =>
  match x with
  | .ok a => .ok a s
  | .error why => .error why s

/-- What the object holds. -/
def read : EStateM ε σ σ := fun s => .ok s s

/-- Assign. -/
def write (f : σ → σ) : EStateM ε σ PUnit := fun s => .ok ⟨⟩ (f s)

/-- From `s`, `x` returns with `written` of what is to be seen, or raises what is handled
and leaves `old` to be seen. -/
def Whole (handled : ε → Prop) (view : σ → ρ) (written : ρ → Prop) (old : ρ)
    (x : EStateM ε σ α) (s : σ) : Prop :=
  match x.run s with
  | .ok _ s' => written (view s')
  | .error why s' => handled why ∧ view s' = old

section
variable {handled : ε → Prop} {view : σ → ρ} {written : ρ → Prop} {old : ρ} {s : σ}

theorem whole_check {x : Except ε α} : Whole handled view written old (check x) s ↔
    (∀ a, x = .ok a → written (view s)) ∧ ∀ why, x = .error why → handled why ∧ view s = old := by
  cases x with
  | ok a => simp [Whole, check, EStateM.run]
  | error why => simp [Whole, check, EStateM.run]

/-- What is checked first decides, with nothing written yet. -/
theorem whole_check_bind {β : Type u} {x : Except ε α} {f : α → EStateM ε σ β} :
    Whole handled view written old (check x >>= f) s ↔
      (∀ a, x = .ok a → Whole handled view written old (f a) s) ∧
        ∀ why, x = .error why → handled why ∧ view s = old := by
  cases x with
  | ok a => simp [Whole, check, EStateM.run, bind, EStateM.bind]
  | error why => simp [Whole, check, EStateM.run, bind, EStateM.bind]

theorem whole_read_bind {f : σ → EStateM ε σ α} :
    Whole handled view written old (read >>= f) s ↔ Whole handled view written old (f s) s :=
  Iff.rfl

theorem whole_write {f : σ → σ} :
    Whole handled view written old (write f) s ↔ written (view (f s)) := Iff.rfl

/-- What was written stays, whatever comes after. -/
theorem whole_write_bind {f : σ → σ} {g : PUnit → EStateM ε σ α} :
    Whole handled view written old (write f >>= g) s ↔
      Whole handled view written old (g ⟨⟩) (f s) := Iff.rfl

end

end Writes
