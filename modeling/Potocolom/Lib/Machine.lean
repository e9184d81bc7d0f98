import Mathlib

/-! # Labelled machines and their runs

A machine is a set of initial states and an executable step: a label names the
action and everything its outcome depends on, and the step answers `none` when
the action cannot be taken. `Reach ok` is reachability by runs whose every step
satisfies `ok`, so a result that needs a condition on the steps states it there.
-/

/-- Initial states and an executable, labelled step. -/
structure Machine (σ ℓ : Type*) where
  init : σ → Prop
  step : σ → ℓ → Option σ

namespace Machine

variable {σ ℓ : Type*} (m : Machine σ ℓ)

/-- The condition every step meets. -/
def anyStep : σ → ℓ → Prop := fun _ _ => True

/-- `m.Path ok s t`: a run from `s` to `t` all of whose steps satisfy `ok`. -/
inductive Path (ok : σ → ℓ → Prop) (s : σ) : σ → Prop where
  | refl : Path ok s s
  | tail {t u : σ} {l : ℓ} : Path ok s t → ok t l → m.step t l = some u → Path ok s u

/-- The states reached from an initial one by steps that satisfy `ok`. -/
def Reach (ok : σ → ℓ → Prop) (s : σ) : Prop :=
  ∃ s₀, m.init s₀ ∧ m.Path ok s₀ s

variable {m} {ok : σ → ℓ → Prop}

theorem Path.trans {s t u : σ} (h₁ : m.Path ok s t) (h₂ : m.Path ok t u) : m.Path ok s u := by
  induction h₂ with
  | refl => exact h₁
  | tail _ hok hstep ih => exact .tail ih hok hstep

theorem Path.mono {ok' : σ → ℓ → Prop} (himp : ∀ s l, ok s l → ok' s l) {s t : σ}
    (h : m.Path ok s t) : m.Path ok' s t := by
  induction h with
  | refl => exact .refl
  | tail _ hok hstep ih => exact .tail ih (himp _ _ hok) hstep

theorem Reach.of_init {s : σ} (h : m.init s) : m.Reach ok s := ⟨s, h, .refl⟩

theorem Reach.tail {s t : σ} {l : ℓ} (h : m.Reach ok s) (hok : ok s l)
    (hstep : m.step s l = some t) : m.Reach ok t := by
  obtain ⟨s₀, h₀, hp⟩ := h
  exact ⟨s₀, h₀, .tail hp hok hstep⟩

theorem Reach.path {s t : σ} (h : m.Reach ok s) (hp : m.Path ok s t) : m.Reach ok t := by
  obtain ⟨s₀, h₀, hp₀⟩ := h
  exact ⟨s₀, h₀, hp₀.trans hp⟩

theorem Reach.mono {ok' : σ → ℓ → Prop} (himp : ∀ s l, ok s l → ok' s l) {s : σ}
    (h : m.Reach ok s) : m.Reach ok' s := by
  obtain ⟨s₀, h₀, hp⟩ := h
  exact ⟨s₀, h₀, hp.mono himp⟩

/-- What one step keeps, a whole run keeps. -/
theorem Path.invariant {I : σ → Prop}
    (hstep : ∀ s l t, I s → ok s l → m.step s l = some t → I t)
    {s t : σ} (h : m.Path ok s t) (hs : I s) : I t := by
  induction h with
  | refl => exact hs
  | tail _ hok ht ih => exact hstep _ _ _ ih hok ht

/-- The invariant rule: true initially and kept by every step, so true of
every reachable state. -/
theorem Reach.invariant {I : σ → Prop} (hinit : ∀ s, m.init s → I s)
    (hstep : ∀ s l t, I s → ok s l → m.step s l = some t → I t)
    {s : σ} (h : m.Reach ok s) : I s := by
  obtain ⟨s₀, h₀, hp⟩ := h
  exact hp.invariant hstep (hinit s₀ h₀)

/-- The invariant rule relative to an invariant already established. -/
theorem Reach.invariant_of {I J : σ → Prop} (hI : ∀ s, m.Reach ok s → I s)
    (hinit : ∀ s, m.init s → J s)
    (hstep : ∀ s l t, I s → J s → ok s l → m.step s l = some t → J t)
    {s : σ} (h : m.Reach ok s) : J s := by
  obtain ⟨s₀, h₀, hp⟩ := h
  induction hp with
  | refl => exact hinit s₀ h₀
  | tail hp hok ht ih => exact hstep _ _ _ (hI _ ⟨s₀, h₀, hp⟩) ih hok ht

/-- A relation every step extends relates both ends of a run. -/
theorem Path.relates {R : σ → σ → Prop} (hrefl : ∀ s, R s s)
    (htrans : ∀ s t u, R s t → R t u → R s u)
    {I : σ → Prop} (hI : ∀ s l t, I s → ok s l → m.step s l = some t → I t)
    (hstep : ∀ s l t, I s → ok s l → m.step s l = some t → R s t)
    {s t : σ} (h : m.Path ok s t) (hs : I s) : R s t := by
  induction h with
  | refl => exact hrefl s
  | tail hp hok ht ih =>
    exact htrans _ _ _ ih (hstep _ _ _ (hp.invariant hI hs) hok ht)

/-! ## Executing a schedule -/

variable (m) in
/-- Run the labels of a schedule in order. -/
def run (s : σ) : List ℓ → Option σ
  | [] => some s
  | l :: ls => (m.step s l).bind fun t => run t ls

variable (m) in
/-- Whether every step of a schedule meets `ok`. -/
def RunOk (ok : σ → ℓ → Prop) (s : σ) : List ℓ → Prop
  | [] => True
  | l :: ls => ok s l ∧ ∀ t, m.step s l = some t → RunOk ok t ls

/-- A schedule can be checked step by step. -/
instance decidableRunOk [∀ s l, Decidable (ok s l)] :
    (s : σ) → (ls : List ℓ) → Decidable (m.RunOk ok s ls)
  | _, [] => isTrue trivial
  | s, l :: ls =>
    match h : m.step s l with
    | none => decidable_of_iff (ok s l) ⟨fun hok => ⟨hok, by simp [h]⟩, And.left⟩
    | some t =>
      have : Decidable (m.RunOk ok t ls) := decidableRunOk t ls
      decidable_of_iff (ok s l ∧ m.RunOk ok t ls) (by simp [RunOk, h])

theorem path_of_run {s t : σ} {ls : List ℓ} (h : m.run s ls = some t)
    (hok : m.RunOk ok s ls) : m.Path ok s t := by
  induction ls generalizing s with
  | nil =>
    obtain rfl : s = t := by simpa [run] using h
    exact .refl
  | cons l ls ih =>
    rw [run, Option.bind_eq_some_iff] at h
    obtain ⟨u, hu, hrest⟩ := h
    exact Path.trans (.tail .refl hok.1 hu) (ih hrest (hok.2 u hu))

theorem path_of_run_any {s t : σ} {ls : List ℓ} (h : m.run s ls = some t) :
    m.Path anyStep s t := by
  induction ls generalizing s with
  | nil =>
    obtain rfl : s = t := by simpa [run] using h
    exact .refl
  | cons l ls ih =>
    rw [run, Option.bind_eq_some_iff] at h
    obtain ⟨u, hu, hrest⟩ := h
    exact Path.trans (.tail .refl trivial hu) (ih hrest)

end Machine
