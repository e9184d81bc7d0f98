import Potocolom.Worker.Generations

/-! # The revisions a worker answers with

A runner keeps the revision of a canvas frame beside its payload, from `submit` to the
generated frame it sends. So whatever is known of every revision submitted for a session
is true of every revision that comes back for it. -/

namespace Potocolom.Worker

/-- What the task of a runner works on. -/
def Phase.revision? : Phase → Option Nat
  | .rendering revision => some revision
  | .sending revision => some revision
  | _ => none

/-- The revisions a runner holds. -/
def SessionRunner.Holds (runner : SessionRunner) (revision : Nat) : Prop :=
  (∃ payload, runner.pending = some (revision, payload)) ∨ runner.phase.revision? = some revision

/-- Every revision held or sent is one of its session that `known` lists. -/
structure Manager.Sourced (known : Nat → Nat → Prop) (s : Manager) : Prop where
  held : ∀ r revision, (s.rows r).Holds revision → known (s.rows r).session revision
  sent : ∀ x revision, .frame x revision ∈ s.sent → known x revision

variable {known : Nat → Nat → Prop} {s t : Manager} {runner : SessionRunner}

theorem update_holds {params : Params} {revision : Nat}
    (h : (runner.update params).Holds revision) : runner.Holds revision := by
  unfold SessionRunner.update at h
  dsimp only at h
  split at h <;> exact h

theorem close_holds {revision : Nat} (h : runner.close.Holds revision) :
    runner.Holds revision := by
  unfold SessionRunner.close at h
  split at h <;> exact h

/-- What is submitted is the only revision that is new to a runner. -/
theorem submit_holds {new revision : Nat} {payload : List UInt8}
    (h : (runner.submit new payload).Holds revision) :
    runner.Holds revision ∨ revision = new := by
  unfold SessionRunner.submit at h
  split at h
  · exact .inl h
  · rcases h with ⟨payload', hpending⟩ | hphase
    · cases hpending
      exact .inr rfl
    · exact .inl (.inr hphase)

theorem refuse_holds (runner : SessionRunner) {revision : Nat}
    (h : runner.refuse.1.Holds revision) : runner.Holds revision := by
  unfold SessionRunner.refuse at h
  split at h
  all_goals
    rcases h with hpending | hphase
    · exact .inl hpending
    · cases hphase

theorem refuse_frames {x revision : Nat} : .frame x revision ∉ runner.refuse.2 := by
  unfold SessionRunner.refuse
  split <;> simp

/-- The task works on the revision it took, and answers with it. -/
theorem resume_holds {event : TaskEvent} {next : SessionRunner × List Sent}
    (h : runner.resume event = some next) :
    (∀ revision, next.1.Holds revision → runner.Holds revision) ∧
      ∀ x revision, .frame x revision ∈ next.2 → x = runner.session ∧ runner.Holds revision := by
  -- where the task moves on without a frame, only what waits is left
  have hidle : ∀ after : SessionRunner, after.pending = runner.pending →
      after.phase.revision? = none → ∀ revision, after.Holds revision → runner.Holds revision := by
    intro after hpending hphase revision hholds
    rcases hholds with ⟨payload, hpayload⟩ | hrevision
    · rw [hpending] at hpayload
      exact .inl ⟨payload, hpayload⟩
    · rw [hphase] at hrevision
      cases hrevision
  cases event with
  | resident answer =>
    simp only [SessionRunner.resume] at h
    split at h
    · cases h
    split at h
    · split at h
      · cases h
        exact ⟨hidle _ rfl rfl, by simp⟩
      · cases h
        exact ⟨hidle _ rfl rfl, by simp⟩
    · cases h
      exact ⟨fun _ => refuse_holds runner, fun _ _ hframe => absurd hframe refuse_frames⟩
  | announced ok =>
    simp only [SessionRunner.resume] at h
    split at h <;> cases h
    refine ⟨hidle _ rfl ?_, by simp⟩
    dsimp only
    split <;> rfl
  | refused | cancelled =>
    simp only [SessionRunner.resume] at h
    split at h <;> cases h
    exact ⟨hidle _ rfl rfl, by simp⟩
  | arrived =>
    simp only [SessionRunner.resume] at h
    split at h
    · next revision payload _ hpending =>
      cases h
      refine ⟨?_, by simp⟩
      intro revision' hholds
      rcases hholds with ⟨payload', hpayload⟩ | hphase
      · cases hpayload
      · cases hphase
        exact .inl ⟨payload, hpending⟩
    · cases h
  | framed outcome =>
    simp only [SessionRunner.resume] at h
    split at h
    · next revision gpuMs hphase =>
      have hworks : runner.Holds revision := by
        right
        rw [hphase]
        rfl
      split at h
      · cases h
        exact ⟨hidle _ rfl rfl, by simp⟩
      · cases h
        constructor
        · intro revision' hholds
          rcases hholds with hpending | hsending
          · exact .inl hpending
          · cases hsending
            exact hworks
        · intro x revision' hframe
          cases List.mem_singleton.1 hframe
          exact ⟨rfl, hworks⟩
    · split at h
      · cases h
        constructor
        · intro revision' hholds
          exact refuse_holds
            { runner with residencyFailures := runner.residencyFailures + 1 } hholds
        · intro x revision' hframe
          exact absurd hframe refuse_frames
      · cases h
        exact ⟨hidle _ rfl rfl, by simp⟩
    · cases h
      exact ⟨hidle _ rfl rfl, by simp⟩
    · cases h
  | delivered ok =>
    simp only [SessionRunner.resume] at h
    split at h
    · cases h
      refine ⟨hidle _ rfl ?_, by simp⟩
      dsimp only
      split <;> rfl
    · cases h

/-! ## All runners of a connection -/

namespace Manager

theorem Sourced.of_rows (h : s.Sourced known) (hrows : t.rows = s.rows)
    (hsent : ∀ x revision, .frame x revision ∈ t.sent → .frame x revision ∈ s.sent) :
    t.Sourced known := by
  constructor
  · rw [hrows]
    exact h.held
  · intro x revision hframe
    exact h.sent x revision (hsent x revision hframe)

theorem Sourced.setRunner (h : s.Sourced known) (r : Nat) {f : SessionRunner → SessionRunner}
    (hsession : (f (s.rows r)).session = (s.rows r).session)
    (hheld : ∀ revision, (f (s.rows r)).Holds revision → known (s.rows r).session revision) :
    (s.setRunner r f).Sourced known := by
  constructor
  · intro r' revision
    show (Function.update s.rows r (f (s.rows r)) r').Holds revision →
      known (Function.update s.rows r (f (s.rows r)) r').session revision
    by_cases hr : r' = r
    · rw [hr, Function.update_self, hsession]
      exact hheld revision
    · rw [Function.update_of_ne hr]
      exact h.held r' revision
  · exact h.sent

theorem Sourced.retire (h : s.Sourced known) (r : Nat) : (s.retire r).Sourced known := by
  have hset : ({ s with retired := s.retired.insert r } : Manager).Sourced known :=
    h.of_rows rfl fun _ _ => id
  refine hset.setRunner r ?_ fun revision hholds => h.held r revision (close_holds hholds)
  unfold SessionRunner.close
  split <;> rfl

theorem Sourced.create (h : s.Sourced known) (session generation : Nat) (manifest : Manifest)
    (params : Params) :
    (s.create (SessionRunner.new session manifest params generation)).Sourced known := by
  constructor
  · intro r revision
    show (Function.update s.rows s.created _ r).Holds revision →
      known (Function.update s.rows s.created _ r).session revision
    by_cases hr : r = s.created
    · -- a fresh runner holds nothing
      rw [hr, Function.update_self]
      intro hholds
      rcases hholds with ⟨payload, hpending⟩ | hphase
      · cases hpending
      · cases hphase
    · rw [Function.update_of_ne hr]
      exact h.held r revision
  · exact h.sent

theorem Sourced.supersede (h : s.Sourced known) (x generation : Nat) :
    (s.supersede x generation).Sourced known := by
  unfold Manager.supersede
  cases s.runners x with
  | none => exact h.of_rows rfl fun _ _ => id
  | some old =>
    have hpop : (s.pop x).Sourced known := h.of_rows rfl fun _ _ => id
    exact (hpop.retire old).of_rows rfl fun _ _ => id

theorem Sourced.openSession (h : s.Sourced known) (control : Open) (drawn : Int) :
    (s.openSession control drawn).Sourced known := by
  unfold Manager.openSession
  split
  · exact h
  split
  · exact h
  split
  · split
    · next r _ =>
      unfold Manager.resendReady
      split
      · exact h.of_rows rfl fun x revision hframe => by simpa [Manager.send] using hframe
      · exact h
    · exact h
  · dsimp only
    have hsupersede := h.supersede control.session
    split
    · exact hsupersede _
    · exact (hsupersede _).create _ _ _ _

theorem Sourced.updateSession (h : s.Sourced known) (control : Update) :
    (s.updateSession control).Sourced known := by
  unfold Manager.updateSession
  split
  · exact h
  · next r _ =>
    split
    · refine h.setRunner r (SessionRunner.update_keeps _ _).session ?_
      exact fun revision hholds => h.held r revision (update_holds hholds)
    · exact h

theorem Sourced.closeSession (h : s.Sourced known) (control : Close) :
    (s.closeSession control).Sourced known := by
  unfold Manager.closeSession
  split
  · split
    · exact h
    · exact h.of_rows rfl fun _ _ => id
  split
  · have hpop : (s.pop control.session).Sourced known := h.of_rows rfl fun _ _ => id
    exact (hpop.retire _).of_rows rfl fun _ _ => id
  · exact h

theorem Sourced.submit (h : s.Sourced known) (hs : s.FenceInv) {x revision : Nat}
    (payload : List UInt8) (hknown : known x revision) :
    (s.submit x revision payload).Sourced known := by
  unfold Manager.submit
  split
  · exact h
  · next r hr =>
    refine h.setRunner r (SessionRunner.submit_keeps _ _ _).session ?_
    intro revision' hholds
    rcases submit_holds hholds with hold | hnew
    · exact h.held r revision' hold
    · rw [hnew, (hs.owned hr).2]
      exact hknown

theorem Sourced.shutdown (h : s.Sourced known) : s.shutdown.Sourced known := by
  constructor
  · intro r revision
    unfold Manager.shutdown
    dsimp only
    split
    · intro hholds
      have hsession : (s.rows r).close.session = (s.rows r).session := by
        unfold SessionRunner.close
        split <;> rfl
      rw [hsession]
      exact h.held r revision (close_holds hholds)
    · exact h.held r revision
  · exact h.sent

end Manager

/-- A step of the manager keeps to the revisions known, if what it is given is known. -/
theorem step_sourced {action : Action} (h : s.Sourced known) (hs : s.FenceInv)
    (hknown : ∀ x revision payload, action = .submit x revision payload → known x revision)
    (hstep : step s action = some t) : t.Sourced known := by
  cases action with
  | openSession control drawn =>
    simp only [step] at hstep
    split at hstep <;> cases hstep
    exact h.openSession control drawn
  | updateSession control =>
    simp only [step] at hstep
    split at hstep <;> cases hstep
    exact h.updateSession control
  | closeSession control =>
    simp only [step] at hstep
    split at hstep <;> cases hstep
    exact h.closeSession control
  | submit x revision payload =>
    simp only [step] at hstep
    split at hstep <;> cases hstep
    exact h.submit hs payload (hknown x revision payload rfl)
  | runs r event =>
    simp only [step] at hstep
    split at hstep
    · obtain ⟨next, hnext, rfl⟩ := Option.map_eq_some_iff.1 hstep
      obtain ⟨hholds, hframes⟩ := resume_holds hnext
      have hset : (s.setRunner r fun _ => next.1).Sourced known := by
        refine h.setRunner r (SessionRunner.resume_keeps hnext).1.session ?_
        exact fun revision hheld => h.held r revision (hholds revision hheld)
      constructor
      · exact hset.held
      · intro x revision hframe
        rcases List.mem_append.1 hframe with hold | hnew
        · exact h.sent x revision hold
        · obtain ⟨rfl, hheld⟩ := hframes x revision hnew
          exact h.held r revision hheld
    · cases hstep
  | reports r durationMs category score =>
    simp only [step] at hstep
    split at hstep <;> cases hstep
    exact h.of_rows rfl fun x revision hframe => by simpa [Manager.send] using hframe
  | forgets r =>
    simp only [step] at hstep
    split at hstep <;> cases hstep
    exact h.of_rows rfl fun _ _ => id
  | modelsChanged byId =>
    cases hstep
    exact h.of_rows rfl fun _ _ => id
  | shutdown =>
    simp only [step] at hstep
    split at hstep <;> cases hstep
    exact h.shutdown

theorem fresh_sourced (byId : List (String × Manifest)) : (fresh byId).Sourced known := by
  constructor
  · intro r revision hholds
    rcases hholds with ⟨payload, hpending⟩ | hphase
    · cases hpending
    · cases hphase
  · intro x revision hframe
    cases hframe

/-- Knowing more revisions keeps the manager to them. -/
theorem Manager.Sourced.mono {wider : Nat → Nat → Prop} (h : s.Sourced known)
    (hwider : ∀ x revision, known x revision → wider x revision) : s.Sourced wider where
  held r revision hholds := hwider _ _ (h.held r revision hholds)
  sent x revision hframe := hwider _ _ (h.sent x revision hframe)

end Potocolom.Worker
