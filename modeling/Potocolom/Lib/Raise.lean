import Potocolom.Lib.Guard

/-! # What a checked computation may raise

A validator is a sequence of checks in `Except ε`. It fails closed when every
exception it raises is one its caller handles. `RaisesOnly P x` says so for the
exceptions that satisfy `P`, and the rules below take it through the checks in
the order they run: a later check matters only on the inputs that pass the
earlier ones. -/

namespace Guard

universe u v

variable {ε : Type u} {α β : Type v} {P : ε → Prop}

/-- Whatever `x` raises satisfies `P`. -/
def RaisesOnly (P : ε → Prop) (x : Except ε α) : Prop := ∀ why, x = .error why → P why

@[simp] theorem raisesOnly_ok (a : α) : RaisesOnly P (.ok a : Except ε α) := by
  intro why h
  cases h

@[simp] theorem raisesOnly_pure (a : α) : RaisesOnly P (pure a : Except ε α) :=
  raisesOnly_ok a

@[simp] theorem raisesOnly_error {why : ε} :
    RaisesOnly P (.error why : Except ε α) ↔ P why := by
  constructor
  · intro h
    exact h why rfl
  · intro h why' heq
    cases heq
    exact h

@[simp] theorem raisesOnly_throw {why : ε} :
    RaisesOnly P (throw why : Except ε α) ↔ P why :=
  raisesOnly_error

/-- A sequence raises what its first part raises, and, where that part succeeds,
what the rest raises. -/
theorem raisesOnly_bind {x : Except ε α} {f : α → Except ε β} :
    RaisesOnly P (x >>= f) ↔ RaisesOnly P x ∧ ∀ a, x = .ok a → RaisesOnly P (f a) := by
  cases x with
  | ok a => simp [bind, Except.bind]
  | error why => simp [bind, Except.bind]

theorem raisesOnly_require {c : Prop} [Decidable c] {why : ε} (h : P why) :
    RaisesOnly P (require c why) := by
  unfold require
  split
  · exact raisesOnly_ok ()
  · exact raisesOnly_error.2 h

theorem raisesOnly_demand {x : Option α} {why : ε} :
    RaisesOnly P (demand x why) ↔ (x = none → P why) := by
  cases x <;> simp [demand]

/-- Make a check only where `c` holds. -/
def onlyIf (c : Prop) [Decidable c] (x : Except ε Unit) : Except ε Unit :=
  if c then x else .ok ()

@[simp] theorem onlyIf_eq_ok {c : Prop} [Decidable c] {x : Except ε Unit} {u : Unit} :
    onlyIf c x = .ok u ↔ (c → x = .ok u) := by
  unfold onlyIf
  split <;> simp_all

theorem raisesOnly_onlyIf {c : Prop} [Decidable c] {x : Except ε Unit} :
    RaisesOnly P (onlyIf c x) ↔ (c → RaisesOnly P x) := by
  unfold onlyIf
  split <;> simp_all

section ForM

variable {ι : Type*} {f : ι → Except ε Unit}

theorem forM_cons (x : ι) (xs : List ι) :
    (x :: xs).forM f = f x >>= fun _ => xs.forM f :=
  rfl

theorem forM_eq_ok {xs : List ι} {u : Unit} :
    xs.forM f = .ok u ↔ ∀ x ∈ xs, f x = .ok () := by
  induction xs with
  | nil => simp [pure, Except.pure]
  | cons x xs ih =>
    rw [forM_cons, bind_eq_ok]
    constructor
    · rintro ⟨⟨⟩, hx, hxs⟩
      simpa [hx] using ih.1 hxs
    · intro h
      exact ⟨(), h x (by simp), ih.2 fun y hy => h y (by simp [hy])⟩

/-- A loop over checks stops at the first that fails: what it raises is raised
at an item all of whose predecessors pass. -/
theorem raisesOnly_forM {xs : List ι} :
    RaisesOnly P (xs.forM f) ↔
      ∀ before x after, xs = before ++ x :: after → (∀ y ∈ before, f y = .ok ()) →
        RaisesOnly P (f x) := by
  induction xs with
  | nil => simp
  | cons x xs ih =>
    rw [forM_cons, raisesOnly_bind]
    constructor
    · rintro ⟨hx, hxs⟩ before y after heq hbefore
      cases before with
      | nil =>
        obtain ⟨rfl, rfl⟩ := List.cons.inj heq
        exact hx
      | cons b before =>
        obtain ⟨rfl, rfl⟩ := List.cons.inj heq
        have hok := hbefore x (by simp)
        exact ih.1 (hxs () hok) before y after rfl fun z hz => hbefore z (by simp [hz])
    · intro h
      refine ⟨h [] x xs rfl (by simp), ?_⟩
      rintro ⟨⟩ hok
      refine ih.2 fun before y after heq hbefore => ?_
      refine h (x :: before) y after (by simp [heq]) ?_
      intro z hz
      rcases List.mem_cons.1 hz with rfl | hz
      · exact hok
      · exact hbefore z hz

theorem raisesOnly_forM_of_all {xs : List ι} (h : ∀ x ∈ xs, RaisesOnly P (f x)) :
    RaisesOnly P (xs.forM f) := by
  rw [raisesOnly_forM]
  intro before x after heq _
  exact h x (by simp [heq])

end ForM

end Guard
