import Potocolom.Delivery.Machine

/-! # What a step does

One constructor for each step, with what the step found. What happens to a request is said
once for all steps: its future is written while it is pending, and never again. -/

namespace Potocolom.Delivery

variable {p : Pictures} {s t : Worker p} {l : Label p}

inductive Does (s : Worker p) : Label p → Worker p → Prop where
  | hand (batch : List (FrameRequest p)) (hidle : s.executor = .idle) (hne : batch ≠ [])
      (hfresh : ∀ request ∈ batch, request.fresh = true) (hapart : batch.Pairwise Apart) :
      Does s (.hand batch) (s.handed batch)
  | enters (batch : List Nat) (h : s.executor = .entering batch) :
      Does s (.enters none) { s with executor := .rendering batch false }
  | refuses (batch : List Nat) (error : Raised) (h : s.executor = .entering batch) :
      Does s (.enters (some error)) (s.failAll batch error)
  | renders (batch : List Nat) (retried : Bool) (result : Nat → Rendered p)
      (h : s.executor = .rendering batch retried) :
      Does s (.renders (.images result)) (s.rendered batch result)
  | retries (batch : List Nat) (h : s.executor = .rendering batch false) :
      Does s (.renders .outOfMemory) { s with executor := .rendering batch true }
  | fails (batch : List Nat) (retried : Bool) (error : Raised) (outcome : Outcome p)
      (h : s.executor = .rendering batch retried) :
      Does s (.renders outcome) (s.failAll batch error)
  | starts (r : Nat) (image : p.Image) (gpuMs : Nat) (h : s.tasks r = .created image gpuMs) :
      Does s (.starts r) (s.start r image gpuMs)
  | composes (r memory : Nat) (image : p.Image) (gpuMs : Nat)
      (h : s.tasks r = .composing memory image gpuMs) :
      Does s (.composes r) (s.compose r memory image gpuMs)
  | encodes (r : Nat) (memory : Option Nat) (image sketch : p.Image) (gpuMs : Nat)
      (h : s.tasks r = .encoding memory image sketch gpuMs) :
      Does s (.encodes r) (s.encode r memory image sketch gpuMs)
  | returns (batch : List Nat) (h : s.executor = .gathering batch none)
      (hended : ∀ r ∈ batch, (s.tasks r).isEnded = true) :
      Does s .returns { s with executor := .idle }
  | handles (batch : List Nat) (error : Raised) (h : s.executor = .gathering batch (some error)) :
      Does s .handles (s.failAll batch error)
  | closes (batch : List Nat) (hbatch : s.executor.batch = batch) (h : s.executor ≠ .idle)
      (hnot : s.executor ≠ .gathering batch none) :
      Does s .closes { s with executor := .closing batch }
  | stops (batch : List Nat) (h : s.executor = .gathering batch none) :
      Does s .closes (s.stopTasks batch)
  | closed (batch : List Nat) (h : s.executor = .closing batch) :
      Does s .closed (s.cancelAll batch)
  | cancel (r : Nat) (hr : r < s.created) (h : (s.requests r).future.done = false) :
      Does s (.cancel r)
        { s with
          requests := Function.update s.requests r { s.requests r with future := .cancelled } }
  | marks (r : Nat) (hr : r < s.created) (h : (s.requests r).future.done = true) :
      Does s (.marks r)
        { s with
          requests := Function.update s.requests r { s.requests r with cancelled := true } }

theorem step_does (h : step s l = some t) : Does s l t := by
  cases l with
  | hand batch =>
    simp only [step] at h
    split at h
    · next hidle =>
      rw [Option.ite_none_right_eq_some] at h
      obtain ⟨⟨hne, hfresh, hapart⟩, hst⟩ := h
      cases hst
      exact .hand batch hidle hne hfresh hapart
    all_goals cases h
  | enters refused =>
    simp only [step] at h
    split at h
    · next batch hexecutor =>
      cases refused with
      | none =>
        cases h
        exact .enters batch hexecutor
      | some error =>
        cases h
        exact .refuses batch error hexecutor
    all_goals cases h
  | renders outcome =>
    simp only [step] at h
    split at h
    · next batch retried hexecutor =>
      cases outcome with
      | images result =>
        cases h
        exact .renders batch retried result hexecutor
      | outOfMemory =>
        cases retried with
        | false =>
          cases h
          exact .retries batch hexecutor
        | true =>
          cases h
          exact .fails batch true _ _ hexecutor
      | raised error =>
        cases h
        exact .fails batch retried error _ hexecutor
    all_goals cases h
  | starts r =>
    simp only [step] at h
    split at h
    · next image gpuMs htask =>
      cases h
      exact .starts r image gpuMs htask
    all_goals cases h
  | composes r =>
    simp only [step] at h
    split at h
    · next memory image gpuMs htask =>
      cases h
      exact .composes r memory image gpuMs htask
    all_goals cases h
  | encodes r =>
    simp only [step] at h
    split at h
    · next memory image sketch gpuMs htask =>
      cases h
      exact .encodes r memory image sketch gpuMs htask
    all_goals cases h
  | returns =>
    simp only [step] at h
    split at h
    · next batch hexecutor =>
      rw [Option.ite_none_right_eq_some] at h
      obtain ⟨hended, hst⟩ := h
      cases hst
      exact .returns batch hexecutor hended
    all_goals cases h
  | handles =>
    simp only [step] at h
    split at h
    · next batch error hexecutor =>
      cases h
      exact .handles batch error hexecutor
    all_goals cases h
  | closes =>
    simp only [step] at h
    split at h
    · cases h
    · next batch hexecutor =>
      cases h
      apply Does.closes batch <;> rw [hexecutor] <;> simp [Executor.batch]
    · next batch retried hexecutor =>
      cases h
      apply Does.closes batch <;> rw [hexecutor] <;> simp [Executor.batch]
    · next batch hexecutor =>
      cases h
      exact .stops batch hexecutor
    · next batch error hexecutor =>
      cases h
      apply Does.closes batch <;> rw [hexecutor] <;> simp [Executor.batch]
    · cases h
  | closed =>
    simp only [step] at h
    split at h
    · next batch hexecutor =>
      cases h
      exact .closed batch hexecutor
    all_goals cases h
  | cancel r =>
    simp only [step, Option.ite_none_right_eq_some] at h
    obtain ⟨⟨hr, hpending⟩, hst⟩ := h
    cases hst
    exact .cancel r hr hpending
  | marks r =>
    simp only [step, Option.ite_none_right_eq_some] at h
    obtain ⟨⟨hr, hdone⟩, hst⟩ := h
    cases hst
    exact .marks r hr hdone

end Potocolom.Delivery
