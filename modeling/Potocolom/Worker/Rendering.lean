import Potocolom.Lib.Mailbox
import Potocolom.Worker.Sessions

/-! # What a runner renders

A runner is a mailbox of one: `submit` puts a newer canvas frame in, and the task
takes it out to render it. Every other step of the manager leaves the frames of a
runner alone, or builds a fresh one. -/

namespace Potocolom.Worker

variable {s s' : Manager} {action : Action} {r : Nat}

/-- A runner as a mailbox of revisions. -/
def SessionRunner.mailbox (runner : SessionRunner) : Mailbox Nat :=
  ⟨runner.acceptedRevision, runner.pending.map Prod.fst, runner.rendered⟩

/-- The frames of a runner go through one step of its mailbox, or it is fresh. -/
def Renders (before after : SessionRunner) : Prop :=
  before.mailbox.Step after.mailbox ∨ after.mailbox = ⟨0, none, []⟩

theorem Renders.of_eq {before after : SessionRunner} (h : after.mailbox = before.mailbox) :
    Renders before after := by
  left
  rw [h]
  exact .stay

theorem submit_renders (runner : SessionRunner) (revision : Nat) (payload : List UInt8) :
    Renders runner (runner.submit revision payload) := by
  unfold SessionRunner.submit
  split
  · exact .of_eq rfl
  · next hnew => exact .inl (.keep (Nat.lt_of_not_le hnew))

theorem update_renders (runner : SessionRunner) (params : Params) :
    Renders runner (runner.update params) := by
  unfold SessionRunner.update
  dsimp only
  split <;> exact .of_eq rfl

theorem close_renders (runner : SessionRunner) : Renders runner runner.close := by
  unfold SessionRunner.close
  split <;> exact .of_eq rfl

theorem refuse_renders (runner : SessionRunner) : Renders runner runner.refuse.1 := by
  unfold SessionRunner.refuse
  split <;> exact .of_eq rfl

/-- The task renders what waits, and only that. -/
theorem resume_renders {runner : SessionRunner} {event : TaskEvent}
    {next : SessionRunner × List Sent} (h : runner.resume event = some next) :
    Renders runner next.1 := by
  cases event with
  | resident answer =>
    simp only [SessionRunner.resume] at h
    split at h
    · cases h
    split at h
    · split at h <;> cases h <;> exact .of_eq rfl
    · cases h
      exact refuse_renders runner
  | announced ok | refused | cancelled =>
    simp only [SessionRunner.resume] at h
    split at h <;> cases h
    exact .of_eq rfl
  | arrived =>
    simp only [SessionRunner.resume] at h
    split at h
    · next revision payload _ hpending =>
      cases h
      refine .inl (.flush ?_)
      show runner.pending.map Prod.fst = some revision
      rw [hpending]
      rfl
    · cases h
  | framed outcome =>
    simp only [SessionRunner.resume] at h
    split at h
    · split at h <;> cases h <;> exact .of_eq rfl
    · split at h
      · cases h
        exact refuse_renders { runner with residencyFailures := runner.residencyFailures + 1 }
      · cases h
        exact .of_eq rfl
    · cases h
      exact .of_eq rfl
    · cases h
  | delivered ok =>
    simp only [SessionRunner.resume] at h
    split at h <;> cases h
    exact .of_eq rfl

/-! ## All runners of a connection -/

theorem Renders.ordered {before after : SessionRunner} (h : Renders before after)
    (hbefore : before.mailbox.Ordered) : after.mailbox.Ordered := by
  rcases h with h | h
  · exact hbefore.step h
  · rw [h]
    exact Mailbox.ordered_empty 0

/-- Every runner the manager ever built is in order. -/
def Manager.AllOrdered (s : Manager) : Prop := ∀ r, (s.rows r).mailbox.Ordered

theorem Manager.AllOrdered.of_rows {t : Manager} (h : s.AllOrdered) (hrows : t.rows = s.rows) :
    t.AllOrdered := by
  intro r
  rw [hrows]
  exact h r

theorem Manager.AllOrdered.setRunner (h : s.AllOrdered) (r : Nat)
    {f : SessionRunner → SessionRunner} (hf : Renders (s.rows r) (f (s.rows r))) :
    (s.setRunner r f).AllOrdered := by
  intro r'
  by_cases hr : r' = r
  · subst hr
    show (Function.update s.rows r' (f (s.rows r')) r').mailbox.Ordered
    rw [Function.update_self]
    exact hf.ordered (h r')
  · show (Function.update s.rows r (f (s.rows r)) r').mailbox.Ordered
    rw [Function.update_of_ne hr]
    exact h r'

theorem Manager.AllOrdered.retire (h : s.AllOrdered) (r : Nat) : (s.retire r).AllOrdered := by
  unfold Manager.retire
  have hsame : ({ s with retired := s.retired.insert r } : Manager).AllOrdered := h.of_rows rfl
  exact hsame.setRunner r (close_renders _)

theorem Manager.AllOrdered.create (h : s.AllOrdered) (session generation : Nat)
    (manifest : Manifest) (params : Params) :
    (s.create (SessionRunner.new session manifest params generation)).AllOrdered := by
  intro r
  by_cases hr : r = s.created
  · subst hr
    show (Function.update s.rows s.created _ s.created).mailbox.Ordered
    rw [Function.update_self]
    exact Mailbox.ordered_empty 0
  · show (Function.update s.rows s.created _ r).mailbox.Ordered
    rw [Function.update_of_ne hr]
    exact h r

theorem Manager.AllOrdered.supersede (h : s.AllOrdered) (x generation : Nat) :
    (s.supersede x generation).AllOrdered := by
  unfold Manager.supersede
  cases s.runners x with
  | none => exact h.of_rows rfl
  | some old =>
    have hpop : (s.pop x).AllOrdered := h.of_rows rfl
    exact (hpop.retire old).of_rows rfl

theorem Manager.AllOrdered.openSession (h : s.AllOrdered) (control : Open) (drawn : Int) :
    (s.openSession control drawn).AllOrdered := by
  unfold Manager.openSession
  split
  · exact h
  split
  · exact h
  split
  · split
    · next r _ =>
      unfold Manager.resendReady
      split
      · exact h.of_rows rfl
      · exact h
    · exact h
  · dsimp only
    have hsupersede := h.supersede control.session
    split
    · exact hsupersede _
    · exact (hsupersede _).create _ _ _ _

theorem Manager.AllOrdered.updateSession (h : s.AllOrdered) (control : Update) :
    (s.updateSession control).AllOrdered := by
  unfold Manager.updateSession
  split
  · exact h
  split
  · exact h.setRunner _ (update_renders _ _)
  · exact h

theorem Manager.AllOrdered.closeSession (h : s.AllOrdered) (control : Close) :
    (s.closeSession control).AllOrdered := by
  unfold Manager.closeSession
  split
  · split
    · exact h
    · exact h.of_rows rfl
  split
  · have hpop : (s.pop control.session).AllOrdered := h.of_rows rfl
    exact (hpop.retire _).of_rows rfl
  · exact h

theorem Manager.AllOrdered.submit (h : s.AllOrdered) (x revision : Nat) (payload : List UInt8) :
    (s.submit x revision payload).AllOrdered := by
  unfold Manager.submit
  split
  · exact h
  · exact h.setRunner _ (submit_renders _ _ _)

theorem Manager.AllOrdered.shutdown (h : s.AllOrdered) : s.shutdown.AllOrdered := by
  intro r
  unfold Manager.shutdown
  dsimp only
  split
  · exact (close_renders _).ordered (h r)
  · exact h r

theorem step_ordered (h : s.AllOrdered) (hstep : step s action = some s') : s'.AllOrdered := by
  cases action with
  | openSession control drawn =>
    simp only [step] at hstep
    split at hstep <;> cases hstep
    exact h.openSession control drawn
  | updateSession control =>
    simp only [step] at hstep
    split at hstep <;> cases hstep
    exact h.updateSession control
  | closeSession control =>
    simp only [step] at hstep
    split at hstep <;> cases hstep
    exact h.closeSession control
  | submit x revision payload =>
    simp only [step] at hstep
    split at hstep <;> cases hstep
    exact h.submit x revision payload
  | runs r event =>
    simp only [step] at hstep
    split at hstep
    · obtain ⟨next, hnext, rfl⟩ := Option.map_eq_some_iff.1 hstep
      have hrunner := h.setRunner r (f := fun _ => next.1) (resume_renders hnext)
      exact hrunner.of_rows rfl
    · cases hstep
  | reports r durationMs category score =>
    simp only [step] at hstep
    split at hstep <;> cases hstep
    exact h.of_rows rfl
  | forgets r =>
    simp only [step] at hstep
    split at hstep <;> cases hstep
    exact h.of_rows rfl
  | modelsChanged byId =>
    cases hstep
    exact h.of_rows rfl
  | shutdown =>
    simp only [step] at hstep
    split at hstep <;> cases hstep
    exact h.shutdown

/-- Whatever reaches the manager, each runner renders ever newer frames. -/
theorem reach_allOrdered (h : machine.Reach Machine.anyStep s) : s.AllOrdered := by
  refine h.invariant (I := Manager.AllOrdered) ?_ fun _ _ _ hordered _ hstep =>
    step_ordered hordered hstep
  rintro _ ⟨byId, rfl⟩ r
  exact Mailbox.ordered_empty 0

end Potocolom.Worker
