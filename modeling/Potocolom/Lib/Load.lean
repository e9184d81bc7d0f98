import Mathlib

/-! # The load of a server

Clients are numbered from zero, and each is at one server or at none. The load of a
server is the number of its clients; a counter that is moved with every client keeps
equal to it. -/

namespace Load

variable {κ : Type*} [DecidableEq κ]

/-- How many of the first `n` clients are at `w`. -/
def load (place : ℕ → Option κ) (n : ℕ) (w : κ) : ℕ :=
  Nat.count (fun x => place x = some w) n

theorem load_congr {f g : ℕ → Option κ} {n : ℕ} (w : κ) (h : ∀ x < n, f x = g x) :
    load f n w = load g n w := by
  induction n with
  | zero => simp [load]
  | succ n ih =>
    have hprev := ih fun x hx => h x (by omega)
    have hlast := h n (by omega)
    simp only [load, Nat.count_succ] at hprev ⊢
    rw [hprev, hlast]

theorem load_succ (f : ℕ → Option κ) (n : ℕ) (w : κ) :
    load f (n + 1) w = load f n w + if f n = some w then 1 else 0 := by
  simp [load, Nat.count_succ]

/-- Only client `x` moved: the two servers it left and reached account for it. -/
theorem load_move {f g : ℕ → Option κ} {n x : ℕ} (w : κ) (hx : x < n)
    (h : ∀ y, y ≠ x → g y = f y) :
    load g n w + (if f x = some w then 1 else 0) = load f n w + if g x = some w then 1 else 0 := by
  induction n with
  | zero => omega
  | succ n ih =>
    rw [load_succ, load_succ]
    rcases Nat.lt_or_ge x n with hlt | hge
    · have hn : g n = f n := h n (by omega)
      have hprev := ih hlt
      rw [hn]
      omega
    · obtain rfl : x = n := by omega
      have hprev : load g x w = load f x w := load_congr w fun y hy => h y (by omega)
      omega

theorem load_eq_zero {f : ℕ → Option κ} {n : ℕ} {w : κ} (h : ∀ x < n, f x ≠ some w) :
    load f n w = 0 := by
  induction n with
  | zero => simp [load]
  | succ n ih =>
    have hlast := h n (by omega)
    rw [load_succ, ih fun x hx => h x (by omega), if_neg hlast]

/-- Counters that gave one up where `x` was and took one where it is now still count
the clients. -/
theorem counter_move {f g : ℕ → Option κ} {n x : ℕ} {c c' : κ → ℤ} (hx : x < n)
    (h : ∀ y, y ≠ x → g y = f y) (hc : ∀ w, c w = load f n w)
    (hmove : ∀ w, c' w + (if f x = some w then 1 else 0) = c w + if g x = some w then 1 else 0) :
    ∀ w, c' w = load g n w := by
  intro w
  have hload := load_move w hx h
  have hcounter := hmove w
  rw [hc] at hcounter
  split at hload <;> split at hload <;> simp_all <;> omega

end Load
