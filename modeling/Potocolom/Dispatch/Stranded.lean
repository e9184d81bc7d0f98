import Potocolom.Dispatch.Capacity
import Potocolom.Dispatch.Footing

/-! # No job is stranded

Between the steps of the dispatcher every queued job has its hint, an entry of `lost_jobs` or
one of `inflight`, and every running job one of the latter two, unless a worker reports a job
cancelled that is not, a refused claim drops the entry of another claim of the job that lands,
a dispatch that raised leaves its hint to an entry of an earlier attempt, or the refresh of a
new row raises before its push. -/

namespace Potocolom.Dispatch

open Footing (Safe Staged Published ClearsEarlier)

/-! ## The condition -/

/-- The job is running, or the commit that makes it run is in doubt. -/
def World.Running (s : World) (j : Nat) : Prop :=
  (∃ row, s.rows j = some row ∧ row.state = .running) ∨
    ∃ d, s.doubt j = some d ∧ d.row.state = .running

/-- A dispatch that raises finds no entry of an earlier attempt of the queued job. -/
def World.RaisesSafely (s : World) : Prop :=
  ∀ j e row, s.phase.job = some j → s.inflight.get j = some e → s.rows j = some row →
    row.state = .queued → j ∈ s.lostJobs ∨ row.attempt ≤ e.attempt

/-- A new row is refreshed; a job that a worker reports cancelled is done with; a claim that is
refused leaves no claim of the job that only its entry kept; a dispatch that raises before it
published, or after it gave up, finds no entry of an earlier attempt. -/
def JobsKept (s : World) : Label → Prop
  | .creates _ _ refreshed => refreshed = true
  | .reports j (.cancelled _) => ∀ row, s.rows j = some row → row.state.terminal = true
  | .claims .stale | .claims .refused =>
    ∀ j, s.phase.job = some j → s.Running j → j ∈ s.lostJobs
  | .asks false | .locks false | .publishes false | .uploads false | .prepares .raised
  | .drops .raised | .drops .inDoubt => s.RaisesSafely
  | _ => True

/-! ## Ends of a dispatch -/

section Ends

variable {s t : World} {h : Hint} {skipped : List Hint} {i j : Nat} {r : Option Nat}

/-- The hints that the step still holds go back to the queue. -/
theorem Kept.endStep (hs : ∀ j, s.footing.Safe skipped none j) : Kept (s.endStep skipped) := by
  refine ⟨fun j => (hs j).mono rfl rfl (fun _ ht _ _ => ht) ?_ .inl (fun _ _ he _ _ _ => .inl he)
    ?_ ?_, trivial⟩
  · rintro ⟨h, hmem, rfl⟩
    exact .inl ⟨h, List.mem_append_left _ hmem, rfl⟩
  · rintro ⟨h, hmem, rfl⟩
    exact .inl ⟨h, List.mem_append_right _ hmem, rfl⟩
  · rintro ⟨⟩

/-- The step puts a hint down. -/
theorem Footing.Safe.putDown {f : Footing} (hs : f.Safe (h :: skipped) none j)
    (hjob : f.Hinted h.job ∨ f.Published h.job) : f.Safe skipped none j := by
  refine hs.phase ?_ (by rintro ⟨⟩)
  rintro ⟨h', hmem, rfl⟩
  rcases List.mem_cons.mp hmem with rfl | hmem
  · exact hjob.imp id .inr
  · exact .inr (.inl ⟨h', hmem, rfl⟩)

theorem Kept.dispatched (hs : ∀ j, s.footing.Safe (h :: skipped) none j) {taken : Bool}
    (htaken : taken = true → s.footing.Published h.job) : Kept (s.dispatched h skipped taken) := by
  refine ⟨fun j => ?_, trivial⟩
  cases taken with
  | true => exact (hs j).putDown (.inr (htaken rfl))
  | false =>
    refine (hs j).phase ?_ (by rintro ⟨⟩)
    rintro ⟨h', hmem, rfl⟩
    refine .inr (.inl ⟨h', ?_, rfl⟩)
    change h' ∈ skipped ++ [h]
    rcases List.mem_cons.mp hmem with rfl | hmem
    · exact List.mem_append_right _ (List.mem_singleton_self _)
    · exact List.mem_append_left _ hmem

theorem Kept.dispatchRaised (hs : ∀ j, s.footing.Safe (h :: skipped) none j)
    (hjob : ∀ e, s.inflight.get h.job = some e → s.footing.Published h.job) :
    Kept (s.dispatchRaised h skipped) := by
  unfold World.dispatchRaised
  split
  · next hsome =>
    obtain ⟨e, he⟩ := Option.isSome_iff_exists.mp hsome
    exact Kept.endStep fun j => (hs j).putDown (.inr (hjob e he))
  · -- the hint goes back first
    refine Kept.endStep (s := s.pushHint h) fun j => ?_
    refine (hs j).mono rfl rfl (fun _ ht _ _ => ht) ?_ .inl (fun _ _ he _ _ _ => .inl he) ?_ .inr
    · rintro ⟨h', hmem, rfl⟩
      exact .inl ⟨h', List.mem_append_left _ hmem, rfl⟩
    · rintro ⟨h', hmem, rfl⟩
      rcases List.mem_cons.mp hmem with rfl | hmem
      · exact .inl ⟨h', List.mem_append_right _ (List.mem_singleton_self _), rfl⟩
      · exact .inr (.inl ⟨h', hmem, rfl⟩)

theorem World.RaisesSafely.published (hr : s.RaisesSafely) (hj : s.phase.job = some j)
    (e : Entry) (he : s.inflight.get j = some e) : s.footing.Published j := by
  intro row hrow hstate
  exact (hr j e row hj he hrow hstate).imp id fun hle => ⟨e, he, hle⟩

theorem Kept.requeued (hs : ∀ i, s.footing.Safe [] none i) (caller : Caller) :
    Kept (s.requeued caller) := by
  cases caller with
  | lost left => exact ⟨hs, trivial⟩
  | stalled keys => exact ⟨hs, trivial⟩

/-- A requeue that raises hands its job to `lost_jobs`. -/
theorem Kept.requeueRaised (hs : ∀ i, s.footing.Safe [] (some j) i) (caller : Caller) :
    Kept (s.requeueRaised caller j) := by
  have hlost : ∀ i, Safe ({ s with lostJobs := s.lostJobs ++ [j] } : World).footing [] none i := by
    intro i
    refine (hs i).mono rfl rfl (fun _ ht _ _ => ht) .inl
      (fun hi => .inl (List.mem_append_left _ hi)) (fun _ _ he _ _ _ => .inl he)
      (fun hp => .inr (.inl hp)) fun hi => .inl ?_
    obtain rfl := Option.some.inj hi
    exact List.mem_append_right _ (List.mem_singleton_self _)
  cases caller with
  | lost left => exact ⟨hlost, trivial⟩
  | stalled keys => exact ⟨hlost, trivial⟩

/-- What a requeue holds besides its own job. -/
theorem Footing.Safe.notRequeued {f : Footing} {parked : List Hint}
    (hs : f.Safe parked (some j) i) (hne : i ≠ j) : f.Safe parked none i := by
  refine hs.phase (fun hp => .inr (.inl hp)) fun hi => ?_
  exact absurd (Option.some.inj hi).symm hne

end Ends

/-! ## The pass over `lost_jobs` and the sweep -/

section Requeue

variable {s t : World} {j : Nat}

theorem Kept.begins (hk : Kept s) (hstep : s.begins = some t) : Kept t := by
  unfold World.begins at hstep
  split at hstep
  · next hphase =>
    cases hstep
    have hsafe := hk.safe
    rw [hphase] at hsafe
    exact ⟨hsafe, trivial⟩
  · cases hstep

theorem Kept.recovers (hk : Kept s) (hstep : s.recovers = some t) : Kept t := by
  have hsafe := hk.safe
  unfold World.recovers at hstep
  split at hstep
  · next hphase =>
    cases hstep
    rw [hphase] at hsafe
    exact ⟨hsafe, trivial⟩
  · next left hphase =>
    rw [hphase] at hsafe
    split at hstep
    · cases hstep
    · next j rest hlost =>
      cases hstep
      -- the popped job is the one that the step requeues
      refine ⟨fun i => (hsafe i).mono rfl rfl (fun _ ht _ _ => ht) .inl (fun hi => ?_)
        (fun _ _ he _ _ _ => .inl he) (fun hp => .inr (.inl hp)) (by rintro ⟨⟩), trivial⟩
      have hi : i ∈ s.lostJobs := hi
      rw [hlost] at hi
      rcases List.mem_cons.mp hi with rfl | hi
      · exact .inr rfl
      · exact .inl hi
  · cases hstep

/-- The job's row at the end of its requeue: no requeue is needed any more. -/
theorem Kept.requeuedOver (hsafe : ∀ i, s.footing.Safe [] (some j) i) (hover : s.footing.Over j)
    (caller : Caller) : Kept (s.requeued caller) := by
  refine Kept.requeued (fun i => ?_) caller
  by_cases hij : i = j
  · subst hij
    exact .ofOver hover ((hsafe i).doubt_none hover)
  · exact (hsafe i).notRequeued hij

/-- A requeue that pushed its hint. -/
theorem Kept.requeuedQueued (row : Row) (hsafe : ∀ i, i ≠ j → s.footing.Safe [] none i)
    (hrow : s.rows j = some row) (hstate : row.state = .queued) (hdoubt : s.doubt j = none)
    (hclears : s.footing.ClearsEarlier j row.attempt) (createdAt : Nat) (caller : Caller) :
    Kept ((s.pushHint ⟨createdAt, j⟩).requeued caller) := by
  refine Kept.requeued (fun i => ?_) caller
  by_cases hij : i = j
  · subst hij
    exact .ofQueued hrow hstate hdoubt
      (.inl ⟨⟨createdAt, i⟩, List.mem_append_right _ (List.mem_singleton_self _), rfl⟩) hclears
  · refine (hsafe i hij).mono rfl rfl (fun _ ht _ _ => ht) ?_ .inl (fun _ _ he _ _ _ => .inl he)
      (fun hp => .inr (.inl hp)) .inr
    rintro ⟨h, hmem, rfl⟩
    exact .inl ⟨h, List.mem_append_left _ hmem, rfl⟩

/-- A write whose COMMIT raised, with the job still in hand. -/
theorem Footing.Safe.leaveInDoubt {parked : List Hint} {r : Option Nat} {row new : Row}
    {c : Option Command} (hs : s.footing.Safe parked r j) (hrow : s.rows j = some row)
    (hactive : row.state.terminal = false) (hattempt : row.attempt ≤ new.attempt)
    (hrunning : new.state = .running → new.attempt ≤ row.attempt ∧
      (s.footing.Tracked j new.attempt ∨ r = some j))
    (hqueued : new.state = .queued → row.state ≠ .queued ∧ (j ∈ s.lostJobs ∨ r = some j)) :
    (s.leaveInDoubt j new c).footing.Safe parked r j := by
  have hd : ∀ d, (s.leaveInDoubt j new c).footing.doubt j = some d → d = ⟨new, c⟩ := by
    intro d hd
    have hd : Function.update s.doubt j (some ⟨new, c⟩) j = some d := hd
    rw [Function.update_self] at hd
    exact (Option.some.inj hd).symm
  refine ⟨hs.queued, hs.running, fun d hdoubt => ?_, fun d row' hdoubt hrow' hstate => ?_,
    fun d row' hdoubt hrow' hstate => ?_, hs.clearing⟩
  · obtain rfl := hd d hdoubt
    exact ⟨row, hrow, hactive, hattempt⟩
  · obtain rfl := hd d hdoubt
    obtain rfl := Option.some.inj (hrow.symm.trans hrow')
    exact hrunning hstate
  · obtain rfl := hd d hdoubt
    obtain rfl := Option.some.inj (hrow.symm.trans hrow')
    exact hqueued hstate

theorem Footing.Safe.leaveInDoubt_other {parked : List Hint} {r : Option Nat} {i : Nat} {new : Row}
    {c : Option Command} (hs : s.footing.Safe parked r i) (hne : i ≠ j) :
    (s.leaveInDoubt j new c).footing.Safe parked r i :=
  hs.other rfl (Function.update_of_ne hne _ _)

theorem Footing.Safe.write_other {parked : List Hint} {r : Option Nat} {i : Nat} {new : Row}
    {c : Option Command} (hs : s.footing.Safe parked r i) (hne : i ≠ j) :
    (s.write j new c).footing.Safe parked r i :=
  hs.other (Function.update_of_ne hne _ _) rfl

/-- The job is done with. -/
theorem Footing.Safe.write_over {parked : List Hint} {r : Option Nat} {new : Row}
    {c : Option Command} (hdoubt : s.doubt j = none) (hnew : new.state.terminal = true) :
    (s.write j new c).footing.Safe parked r j := by
  refine .ofOver (fun row hrow => ?_) hdoubt
  have hrow : Function.update s.rows j (some new) j = some row := hrow
  rw [Function.update_self] at hrow
  rw [← Option.some.inj hrow]
  exact hnew

theorem Kept.requeues {a : Answer} (hk : Kept s) (hstep : s.requeues a = some t) : Kept t := by
  have hsafe := hk.safe
  have hstaged := hk.staged
  unfold World.requeues at hstep
  split at hstep
  · next caller j hphase =>
    rw [hphase] at hsafe
    have hsafe : ∀ i, s.footing.Safe [] (some j) i := hsafe
    split at hstep
    · cases hstep
      exact Kept.requeueRaised hsafe caller
    split at hstep
    · next hunlocked =>
      split at hstep
      · next hrow =>
        cases hstep
        refine Kept.requeuedOver hsafe (fun row hrow' => ?_) caller
        cases hrow.symm.trans hrow'
      · next row hrow =>
        split at hstep
        · next hterminal =>
          cases hstep
          refine Kept.requeuedOver hsafe (fun row' hrow' => ?_) caller
          rwa [← Option.some.inj (hrow.symm.trans hrow')]
        next hactive =>
        have hactive : row.state.terminal = false := by simpa using hactive
        have hclears := (hsafe j).clearsEarlier hrow hactive
        split at hstep
        · next hqueued =>
          cases hstep
          exact Kept.requeuedQueued row (fun i hij => (hsafe i).notRequeued hij) hrow hqueued
            hunlocked.1 hclears row.createdAt caller
        next hqueued =>
        split at hstep
        · next hfirst =>
          cases hstep
          have hraised : ∀ d : Option Command,
              Kept ((s.leaveInDoubt j { row with attempt := 2, state := .queued } d).requeueRaised
                caller j) := by
            intro d
            refine Kept.requeueRaised (fun i => ?_) caller
            by_cases hij : i = j
            · subst hij
              exact (hsafe i).leaveInDoubt hrow hactive (by rw [hfirst]; exact Nat.le_succ 1)
                (by rintro ⟨⟩)
                fun _ => ⟨hqueued, .inr rfl⟩
            · exact (hsafe i).leaveInDoubt_other hij
          cases a with
          | landed =>
            refine Kept.requeuedQueued { row with attempt := 2, state := .queued }
              (fun i hij => ((hsafe i).write_other hij).notRequeued hij) (Function.update_self _ _ _)
              rfl hunlocked.1 (fun u hu hj hc => ?_) _ caller
            have := hclears u hu hj hc
            change u.current.attempt < 2
            omega
          | inDoubt => exact hraised none
          | raised => exact Kept.requeueRaised hsafe caller
        · cases hstep
          exact ⟨hsafe, trivial⟩
    · cases hstep
  · next caller j hphase =>
    rw [hphase] at hsafe
    have hsafe : ∀ i, s.footing.Safe [] (some j) i := hsafe
    split at hstep
    · cases hstep
      exact Kept.requeueRaised hsafe caller
    split at hstep
    · next hunlocked =>
      split at hstep
      · next hrow =>
        cases hstep
        refine Kept.requeuedOver hsafe (fun row hrow' => ?_) caller
        cases hrow.symm.trans hrow'
      · next row hrow =>
        split at hstep
        · next hterminal =>
          cases hstep
          refine Kept.requeuedOver hsafe (fun row' hrow' => ?_) caller
          rwa [← Option.some.inj (hrow.symm.trans hrow')]
        next hactive =>
        have hactive : row.state.terminal = false := by simpa using hactive
        cases hstep
        cases a with
        | landed =>
          refine ⟨fun i => ?_, fun row' hrow' => ?_⟩
          · by_cases hij : i = j
            · subst hij
              exact Footing.Safe.write_over (c := none) hunlocked.1 rfl
            · exact (hsafe i).write_other (c := none) hij
          · have hrow' : Function.update s.rows j (some _) j = some row' := hrow'
            rw [Function.update_self] at hrow'
            rw [← Option.some.inj hrow']
            rfl
        | inDoubt =>
          refine Kept.requeueRaised (fun i => ?_) caller
          by_cases hij : i = j
          · subst hij
            exact (hsafe i).leaveInDoubt hrow hactive le_rfl (by rintro ⟨⟩) (by rintro ⟨⟩)
          · exact (hsafe i).leaveInDoubt_other hij
        | raised => exact Kept.requeueRaised hsafe caller
    · cases hstep
  · next caller j hphase =>
    rw [hphase] at hsafe hstaged
    have hsafe : ∀ i, s.footing.Safe [] (some j) i := hsafe
    split at hstep
    · cases hstep
      exact Kept.requeuedOver hsafe hstaged caller
    · cases hstep
      exact Kept.requeueRaised hsafe caller
  · cases hstep

theorem Kept.sweeps {stalled : Bool} (hk : Kept s) (hstep : s.sweeps stalled = some t) :
    Kept t := by
  have hsafe := hk.safe
  unfold World.sweeps at hstep
  split at hstep
  · next hphase =>
    cases hstep
    rw [hphase] at hsafe
    exact ⟨hsafe, trivial⟩
  · next j keys hphase =>
    rw [hphase] at hsafe
    have hsafe : ∀ i, s.footing.Safe [] none i := hsafe
    split at hstep
    · cases hstep
      exact ⟨hsafe, trivial⟩
    · next e he =>
      split at hstep
      · cases hstep
        refine ⟨fun i => (hsafe i).mono rfl rfl (fun _ ht _ _ => ht) .inl .inl
          (fun e' row he' _ _ _ => ?_) (fun hp => .inr (.inl hp)) (by rintro ⟨⟩), trivial⟩
        by_cases hij : i = j
        · exact .inr (.inr (congrArg some hij.symm))
        · exact .inl ((Ordered.get_erase_of_ne hij).trans he')
      · cases hstep
        refine ⟨fun i => (hsafe i).entries fun e' row he' _ _ _ => ?_, trivial⟩
        rw [Ordered.get_put, Ordered.get_erase]
        split
        · next hij =>
          rw [hij] at he'
          exact he.symm.trans he'
        · exact he'
  · cases hstep

end Requeue

/-! ## The dispatch of one job -/

section Dispatch

variable {s t : World} {h : Hint} {skipped : List Hint} {j w : Nat}

theorem Kept.scans (hk : Kept s) (hstep : s.scans = some t) : Kept t := by
  have hsafe := hk.safe
  unfold World.scans at hstep
  split at hstep
  · next skipped hphase =>
    rw [hphase] at hsafe
    split at hstep
    · split at hstep
      · cases hstep
        exact Kept.endStep hsafe
      · next h _ =>
        cases hstep
        refine ⟨fun j => (hsafe j).mono rfl rfl (fun _ ht _ _ => ht) ?_ .inl
          (fun _ _ he _ _ _ => .inl he) ?_ .inr, trivial⟩
        · rintro ⟨h', hmem, rfl⟩
          by_cases heq : h' = h
          · exact .inr (.inl ⟨h', heq ▸ List.mem_cons_self, rfl⟩)
          · exact .inl ⟨h', (List.mem_erase_of_ne heq).mpr hmem, rfl⟩
        · rintro ⟨h', hmem, rfl⟩
          exact .inr (.inl ⟨h', List.mem_cons_of_mem _ hmem, rfl⟩)
    · cases hstep
      exact Kept.endStep hsafe
  · cases hstep

/-- A job without a queued row does not need its hint. -/
theorem Footing.published_of_not_queued {f : Footing}
    (hrow : ∀ row, f.rows j = some row → row.state ≠ .queued) : f.Published j :=
  fun row hr hstate => absurd hstate (hrow row hr)

theorem Kept.asks {answered : Bool} (hk : Kept s) (hok : JobsKept s (.asks answered))
    (hstep : s.asks answered = some t) : Kept t := by
  have hsafe := hk.safe
  unfold World.asks at hstep
  split at hstep
  · next h skipped hphase =>
    rw [hphase] at hsafe
    split at hstep
    · split at hstep
      · next hrow =>
        cases hstep
        refine Kept.dispatched hsafe fun _ => Footing.published_of_not_queued fun row hr => ?_
        cases hrow.symm.trans hr
      · split at hstep
        · cases hstep
          exact Kept.dispatched hsafe (by rintro ⟨⟩)
        · split at hstep <;> cases hstep <;> exact ⟨hsafe, trivial⟩
    · next hraised =>
      cases hstep
      obtain rfl : answered = false := by simpa using hraised
      exact Kept.dispatchRaised hsafe (World.RaisesSafely.published hok (by rw [hphase]; rfl))
  · cases hstep

theorem Kept.locks {answered : Bool} (hk : Kept s) (hok : JobsKept s (.locks answered))
    (hstep : s.locks answered = some t) : Kept t := by
  have hsafe := hk.safe
  unfold World.locks at hstep
  split at hstep
  · next h skipped hphase =>
    rw [hphase] at hsafe
    split at hstep
    · split at hstep
      · next hunlocked =>
        split at hstep
        · next hrow =>
          cases hstep
          refine Kept.dispatched hsafe fun _ => Footing.published_of_not_queued fun row hr => ?_
          cases hrow.symm.trans hr
        · next row hrow =>
          split at hstep
          · next hqueued =>
            split at hstep
            · cases hstep
              exact Kept.dispatched hsafe (by rintro ⟨⟩)
            · cases hstep
              exact ⟨hsafe, row, hrow, hqueued, hunlocked.1⟩
          · next hqueued =>
            cases hstep
            refine Kept.dispatched hsafe fun _ => Footing.published_of_not_queued fun row' hr => ?_
            rwa [← Option.some.inj (hrow.symm.trans hr)]
      · cases hstep
    · next hraised =>
      cases hstep
      obtain rfl : answered = false := by simpa using hraised
      exact Kept.dispatchRaised hsafe (World.RaisesSafely.published hok (by rw [hphase]; rfl))
  · cases hstep

/-- A new entry of the job, at its attempt. -/
theorem Footing.Safe.track {parked : List Hint} {i attempt : Nat} {n : Option Nat}
    (hs : s.footing.Safe parked none i) (hj : i = j → s.footing.ReadAs j attempt) :
    (s.track j w attempt n).footing.Safe parked none i := by
  by_cases hij : i = j
  · subst hij
    have hread := hj rfl
    have htracked : ∀ a, a ≤ attempt → (s.track i w attempt n).footing.Tracked i a :=
      fun a ha => .inr ⟨⟨s.idents, w, attempt, n⟩, Ordered.get_put_self, ha⟩
    refine ⟨fun row hrow hstate => .inr (.inl (htracked _ ?_)), fun row hrow hstate =>
      .inl (htracked _ ?_), hs.doubt, fun d row hd hrow hstate =>
      ⟨(hs.doubtRunning d row hd hrow hstate).1, .inl (htracked _ ?_)⟩, hs.doubtQueued,
      hs.clearing⟩
    · exact hread.1 row hrow (JobState.active_iff.mpr (.inl hstate))
    · exact hread.1 row hrow (JobState.active_iff.mpr (.inr hstate))
    · exact hread.2 d hd (JobState.active_iff.mpr (.inr hstate))
  · exact hs.entries fun e row he _ _ _ => (Ordered.get_put_of_ne hij).trans he

theorem Kept.publishes {answered : Bool} (hk : Kept s) (hok : JobsKept s (.publishes answered))
    (hstep : s.publishes answered = some t) : Kept t := by
  have hsafe := hk.safe
  have hstaged := hk.staged
  unfold World.publishes at hstep
  split at hstep
  · next h skipped w hphase =>
    rw [hphase] at hsafe hstaged
    split at hstep
    · split at hstep
      · cases hstep
      · next row hrow =>
        have hlocked : s.footing.Locked h.job := hstaged
        obtain ⟨row', hrow', hqueued, hdoubt⟩ := hlocked
        obtain rfl := Option.some.inj (hrow.symm.trans hrow')
        have hread : s.footing.ReadAs h.job row.attempt := by
          refine ⟨fun row' hr _ => ?_, fun d hd => ?_⟩
          · rw [Option.some.inj (hrow.symm.trans hr)]
          · cases hdoubt.symm.trans hd
        dsimp only at hstep
        cases hstep
        refine ⟨fun i => (hsafe i).track fun _ => hread, ?_⟩
        have hpublished : (s.track h.job w row.attempt none).footing.Locked h.job ∧
            (s.track h.job w row.attempt none).footing.Published h.job := by
          refine ⟨⟨row, hrow, hqueued, hdoubt⟩, fun row' hr _ => .inr ⟨_, Ordered.get_put_self, ?_⟩⟩
          rw [← Option.some.inj (hrow.symm.trans hr)]
        by_cases hsource : row.hasSource
        · simp only [hsource, if_true]
          exact hpublished
        · simp only [hsource]
          exact hpublished
    · next hraised =>
      cases hstep
      obtain rfl : answered = false := by simpa using hraised
      exact Kept.dispatchRaised hsafe (World.RaisesSafely.published hok (by rw [hphase]; rfl))
  · cases hstep

/-- The lock's job, when its entry is gone: its hint is still held. -/
theorem Footing.Locked.untrack (hlocked : s.footing.Locked h.job)
    (hsafe : ∀ i, s.footing.Safe (h :: skipped) none i) (w i : Nat) :
    (s.untrack h.job w).footing.Safe (h :: skipped) none i := by
  by_cases hij : i = h.job
  · subst hij
    obtain ⟨row, hrow, hqueued, hdoubt⟩ := hlocked
    refine .ofQueued hrow hqueued hdoubt (.inr (.inr (.inl ⟨h, List.mem_cons_self, rfl⟩))) ?_
    exact (hsafe h.job).clearsEarlier hrow (JobState.active_iff.mpr (.inl hqueued))
  · exact (hsafe i).entries fun e row he _ _ _ => (Ordered.get_erase_of_ne hij).trans he

theorem Kept.fetches {a : SourceAnswer} (hk : Kept s) (hstep : s.fetches a = some t) :
    Kept t := by
  have hsafe := hk.safe
  have hstaged := hk.staged
  unfold World.fetches at hstep
  split at hstep
  · next h skipped e hphase =>
    rw [hphase] at hsafe hstaged
    cases a with
    | found =>
      cases hstep
      exact ⟨hsafe, hstaged⟩
    | missing =>
      cases hstep
      exact ⟨Footing.Locked.untrack hstaged.1 hsafe e.worker, hstaged.1⟩
    | raised =>
      cases hstep
      exact Kept.dispatchRaised hsafe fun _ _ => hstaged.2
  · cases hstep

theorem Kept.drops {a : Answer} (hk : Kept s) (hok : JobsKept s (.drops a))
    (hstep : s.drops a = some t) : Kept t := by
  have hsafe := hk.safe
  have hstaged := hk.staged
  unfold World.drops at hstep
  split at hstep
  · next h skipped hphase =>
    rw [hphase] at hsafe hstaged
    have hjob : s.phase.job = some h.job := by rw [hphase]; rfl
    split at hstep
    · cases hstep
    · next row hrow =>
      obtain ⟨row', hrow', hqueued, hdoubt⟩ : s.footing.Locked h.job := hstaged
      obtain rfl := Option.some.inj (hrow.symm.trans hrow')
      have hactive := JobState.active_iff.mpr (.inl hqueued)
      cases hstep
      cases a with
      | landed =>
        refine Kept.dispatched (fun i => ?_) fun _ => Footing.published_of_not_queued fun row' hr => ?_
        · by_cases hij : i = h.job
          · subst hij
            exact Footing.Safe.write_over hdoubt rfl
          · exact (hsafe i).write_other hij
        · have hr : Function.update s.rows h.job (some _) h.job = some row' := hr
          rw [Function.update_self] at hr
          rw [← Option.some.inj hr]
          exact JobState.noConfusion
      | inDoubt =>
        refine Kept.dispatchRaised (fun i => ?_) (World.RaisesSafely.published hok hjob)
        by_cases hij : i = h.job
        · subst hij
          exact (hsafe h.job).leaveInDoubt hrow hactive le_rfl (by rintro ⟨⟩) (by rintro ⟨⟩)
        · exact (hsafe i).leaveInDoubt_other hij
      | raised => exact Kept.dispatchRaised hsafe (World.RaisesSafely.published hok hjob)
  · cases hstep

theorem Kept.sends {sent : Bool} (hk : Kept s) (hstep : s.sends sent = some t) : Kept t := by
  have hsafe := hk.safe
  have hstaged := hk.staged
  unfold World.sends at hstep
  split at hstep
  · next h skipped e hphase =>
    rw [hphase] at hsafe hstaged
    split at hstep
    · cases hstep
      exact ⟨hsafe, hstaged⟩
    split at hstep
    · cases hstep
      refine Kept.dispatched (fun i => ?_) (by rintro ⟨⟩)
      exact Footing.Locked.untrack (s := s.forgetWorker e.worker) hstaged.1 hsafe e.worker i
    · -- the entry went with its worker, and the job to `lost_jobs`
      cases hstep
      exact Kept.dispatched (s := s.forgetWorker e.worker) hsafe fun _ => hstaged.2
  · cases hstep

/-- The row of the job starts to run. -/
theorem Footing.Safe.write_running {parked : List Hint} {r : Option Nat} {row new : Row}
    {c : Option Command} (hs : s.footing.Safe parked r j) (hrow : s.rows j = some row)
    (hqueued : row.state = .queued) (hdoubt : s.doubt j = none)
    (hpublished : s.footing.Published j) (hnew : new.state = .running)
    (hattempt : new.attempt = row.attempt) : (s.write j new c).footing.Safe parked r j := by
  refine .ofRunning (Function.update_self _ _ _) hnew hdoubt ?_ ?_
  · rw [hattempt]
    exact hpublished row hrow hqueued
  · rw [hattempt]
    exact hs.clearsEarlier hrow (JobState.active_iff.mpr (.inl hqueued))

theorem Footing.published_write {new : Row} {c : Option Command} (hnew : new.state ≠ .queued) :
    (s.write j new c).footing.Published j := by
  refine Footing.published_of_not_queued fun row hr => ?_
  have hr : Function.update s.rows j (some new) j = some row := hr
  rw [Function.update_self] at hr
  rwa [← Option.some.inj hr]

theorem Kept.commits {a : Answer} (hk : Kept s) (hstep : s.commits a = some t) : Kept t := by
  have hsafe := hk.safe
  have hstaged := hk.staged
  unfold World.commits at hstep
  split at hstep
  · next h skipped e hphase =>
    rw [hphase] at hsafe hstaged
    split at hstep
    · cases hstep
    · next row hrow =>
      obtain ⟨⟨row', hrow', hqueued, hdoubt⟩, hpublished⟩ := hstaged
      obtain rfl := Option.some.inj (hrow.symm.trans hrow')
      have hactive := JobState.active_iff.mpr (.inl hqueued)
      cases hstep
      cases a with
      | landed =>
        refine Kept.dispatched (fun i => ?_) fun _ => Footing.published_write (by rintro ⟨⟩)
        by_cases hij : i = h.job
        · subst hij
          exact (hsafe h.job).write_running hrow hqueued hdoubt hpublished rfl rfl
        · exact (hsafe i).write_other hij
      | inDoubt =>
        refine Kept.dispatchRaised (fun i => ?_) fun _ _ => hpublished
        by_cases hij : i = h.job
        · subst hij
          exact (hsafe h.job).leaveInDoubt hrow hactive le_rfl
            (fun _ => ⟨le_rfl, .inl (hpublished row hrow hqueued)⟩) (by rintro ⟨⟩)
        · exact (hsafe i).leaveInDoubt_other hij
      | raised => exact Kept.dispatchRaised hsafe fun _ _ => hpublished
  · cases hstep

/-! ## `dispatch_protocol6` -/

theorem Kept.prepares {a : PrepareAnswer} (hk : Kept s) (hok : JobsKept s (.prepares a))
    (hstep : s.prepares a = some t) : Kept t := by
  have hsafe := hk.safe
  unfold World.prepares at hstep
  split at hstep
  · next h skipped w hphase =>
    rw [hphase] at hsafe
    cases a with
    | unavailable =>
      cases hstep
      exact Kept.dispatched hsafe (by rintro ⟨⟩)
    | raised =>
      cases hstep
      exact Kept.dispatchRaised hsafe (World.RaisesSafely.published hok (by rw [hphase]; rfl))
    | read source =>
      dsimp only at hstep
      split at hstep
      · split at hstep
        · next hrow =>
          cases hstep
          refine Kept.dispatched hsafe fun _ => Footing.published_of_not_queued fun row hr => ?_
          cases hrow.symm.trans hr
        · next row hrow =>
          split at hstep
          · next hqueued =>
            split at hstep
            · cases hstep
              exact Kept.dispatched hsafe (by rintro ⟨⟩)
            · cases hstep
              refine ⟨hsafe, fun row' hr _ => ?_, fun d hd hactive => ?_⟩
              · rw [Option.some.inj (hrow.symm.trans hr)]
              · -- a commit in doubt is a claim of the same attempt
                rcases JobState.active_iff.mp hactive with hstate | hstate
                · exact absurd hqueued ((hsafe h.job).doubtQueued d row hd hrow hstate).1
                · exact ((hsafe h.job).doubtRunning d row hd hrow hstate).1
          · next hqueued =>
            cases hstep
            refine Kept.dispatched hsafe fun _ => Footing.published_of_not_queued fun row' hr => ?_
            rwa [← Option.some.inj (hrow.symm.trans hr)]
      · cases hstep
  · cases hstep

theorem Kept.uploads {answered : Bool} (hk : Kept s) (hok : JobsKept s (.uploads answered))
    (hstep : s.uploads answered = some t) : Kept t := by
  have hsafe := hk.safe
  have hstaged := hk.staged
  unfold World.uploads at hstep
  split at hstep
  · next h skipped w attempt previous hphase =>
    rw [hphase] at hsafe hstaged
    split at hstep
    · cases hstep
      refine ⟨fun i => (hsafe i).track fun _ => hstaged, fun row hr hqueued => ?_⟩
      refine .inr ⟨⟨s.idents, w, attempt, some (previous + 1)⟩, Ordered.get_put_self, ?_⟩
      exact hstaged.1 row hr (JobState.active_iff.mpr (.inl hqueued))
    · next hraised =>
      cases hstep
      obtain rfl : answered = false := by simpa using hraised
      exact Kept.dispatchRaised hsafe (World.RaisesSafely.published hok (by rw [hphase]; rfl))
  · cases hstep

theorem World.claimOf_eq_some {d : Doubt} (hd : s.claimOf j w = some d) :
    s.Unlocked j ∧ ∃ row i, s.rows j = some row ∧ row.state = .queued ∧ d = World.claim row j i := by
  unfold World.claimOf at hd
  split at hd
  · next hunlocked =>
    split at hd
    · next row i hrow _ =>
      split at hd
      · next hqueued => exact ⟨hunlocked, row, i, hrow, hqueued, (Option.some.inj hd).symm⟩
      · cases hd
    · cases hd
  · cases hd

/-- The refused claim drops its entry. -/
theorem Footing.Safe.clearRefused {parked : List Hint} {i : Nat} {current : Entry}
    (hs : s.footing.Safe (h :: parked) none i) (hrunning : s.Running h.job → h.job ∈ s.lostJobs) :
    (s.clearIfCurrent h.job current).footing.Safe (h :: parked) none i := by
  unfold World.clearIfCurrent
  split
  · by_cases hij : i = h.job
    · subst hij
      refine ⟨fun row hrow hstate => .inr (.inr (.inl ⟨h, List.mem_cons_self, rfl⟩)),
        fun row hrow hstate => .inl (.inl (hrunning (.inl ⟨row, hrow, hstate⟩))), hs.doubt,
        fun d row hd hrow hstate => ⟨(hs.doubtRunning d row hd hrow hstate).1,
          .inl (.inl (hrunning (.inr ⟨d, hd, hstate⟩)))⟩, hs.doubtQueued, hs.clearing⟩
    · exact hs.entries fun e row he _ _ _ => (Ordered.get_erase_of_ne hij).trans he
  · exact hs

theorem World.clearIfCurrent_rows {current : Entry} :
    (s.clearIfCurrent j current).rows = s.rows := by
  unfold World.clearIfCurrent
  split <;> rfl

theorem Kept.claims {a : ClaimAnswer} (hk : Kept s) (hok : JobsKept s (.claims a))
    (hstep : s.claims a = some t) : Kept t := by
  have hsafe := hk.safe
  have hstaged := hk.staged
  unfold World.claims at hstep
  split at hstep
  · next h skipped current previous hphase =>
    have hjob : s.phase.job = some h.job := by rw [hphase]; rfl
    rw [hphase] at hsafe hstaged
    have hpublished : s.footing.Published h.job := hstaged
    cases a with
    | raised =>
      cases hstep
      exact ⟨hsafe, hpublished⟩
    | refused =>
      cases hstep
      exact Kept.dispatched (fun i => (hsafe i).clearRefused (hok h.job hjob)) (by rintro ⟨⟩)
    | stale =>
      dsimp only at hstep
      split at hstep
      · next hstale =>
        cases hstep
        refine Kept.dispatched (fun i => (hsafe i).clearRefused (hok h.job hjob)) fun _ => ?_
        refine Footing.published_of_not_queued fun row hr => hstale.2 row ?_
        rw [← World.clearIfCurrent_rows]
        exact hr
      · cases hstep
    | landed =>
      obtain ⟨d, hd, rfl⟩ := Option.map_eq_some_iff.mp hstep
      obtain ⟨hunlocked, row, i, hrow, hqueued, rfl⟩ := World.claimOf_eq_some hd
      refine ⟨fun i => ?_, Footing.published_write (c := (World.claim row h.job i).command)
        (by rintro ⟨⟩)⟩
      by_cases hij : i = h.job
      · subst hij
        exact (hsafe h.job).write_running (c := (World.claim row h.job i).command) hrow hqueued hunlocked.1 hpublished rfl rfl
      · exact (hsafe i).write_other (c := (World.claim row h.job i).command) hij
    | inDoubt =>
      obtain ⟨d, hd, rfl⟩ := Option.map_eq_some_iff.mp hstep
      obtain ⟨hunlocked, row, i, hrow, hqueued, rfl⟩ := World.claimOf_eq_some hd
      refine ⟨fun i => ?_, hpublished⟩
      by_cases hij : i = h.job
      · subst hij
        exact (hsafe h.job).leaveInDoubt hrow (JobState.active_iff.mpr (.inl hqueued)) le_rfl
          (fun _ => ⟨le_rfl, .inl (hpublished row hrow hqueued)⟩) (by rintro ⟨⟩)
      · exact (hsafe i).leaveInDoubt_other hij
  · cases hstep

theorem Kept.probes {answered : Bool} (hk : Kept s) (hstep : s.probes answered = some t) :
    Kept t := by
  have hsafe := hk.safe
  have hstaged := hk.staged
  unfold World.probes at hstep
  split at hstep
  · next h skipped current previous hphase =>
    rw [hphase] at hsafe hstaged
    split at hstep
    · split at hstep
      · cases hstep
        exact ⟨hsafe, hstaged⟩
      · -- the claim did not commit: `lost_jobs` takes the job
        dsimp only at hstep
        cases hstep
        refine Kept.dispatched (fun i => ?_) fun _ row _ _ =>
          .inl (List.mem_append_right _ (List.mem_singleton_self _))
        by_cases hij : i = h.job
        · subst hij
          unfold World.clearIfCurrent
          split
          · exact (hsafe h.job).ofLost rfl rfl rfl
              (List.mem_append_right _ (List.mem_singleton_self _))
          · exact (hsafe h.job).ofLost rfl rfl rfl
              (List.mem_append_right _ (List.mem_singleton_self _))
        · refine (hsafe i).mono (congrFun World.clearIfCurrent_rows i) ?_ ?_ ?_ ?_ ?_
            (fun hp => .inr (.inl hp)) .inr
          all_goals unfold World.clearIfCurrent
          · split <;> rfl
          · split <;> exact fun _ ht _ _ => ht
          · split <;> exact .inl
          · split <;> exact fun hi => .inl (List.mem_append_left _ hi)
          · split
            · exact fun e row he _ _ _ => .inl ((Ordered.get_erase_of_ne hij).trans he)
            · exact fun e row he _ _ _ => .inl he
    · cases hstep
      exact Kept.dispatched hsafe fun _ => hstaged
  · cases hstep

theorem Kept.delivers (hk : Kept s) (hstep : s.delivers = some t) : Kept t := by
  have hsafe := hk.safe
  have hstaged := hk.staged
  unfold World.delivers at hstep
  split at hstep
  · next hphase =>
    rw [hphase] at hsafe hstaged
    cases hstep
    exact Kept.dispatched hsafe fun _ => hstaged
  · cases hstep

end Dispatch

/-! ## Reports -/

section Reports

variable {s t : World} {i j : Nat} {current : Entry} {task : Task}

/-- An entry of an earlier attempt keeps nothing. -/
theorem Kept.clearIfCurrent (hk : Kept s)
    (hearlier : ∀ row, s.rows j = some row → row.state.terminal = false →
      current.attempt < row.attempt) : Kept (s.clearIfCurrent j current) := by
  unfold World.clearIfCurrent
  split
  · next hcurrent =>
    have hget : ∀ i e row, s.inflight.get i = some e → s.rows i = some row →
        row.state.terminal = false → row.attempt ≤ e.attempt →
        (s.inflight.erase j).get i = some e := by
      intro i e row he hrow hactive hle
      by_cases hij : i = j
      · subst hij
        obtain rfl := Option.some.inj (hcurrent.symm.trans he)
        exact absurd (hearlier row hrow hactive) (Nat.not_lt.mpr hle)
      · exact (Ordered.get_erase_of_ne hij).trans he
    refine ⟨fun i => (hk.safe i).entries (hget i), hk.staged.mono (fun _ _ hl => hl)
      (fun i _ _ hp row hrow hqueued => ?_) (fun _ _ _ hr => hr) fun _ _ ho => ho⟩
    refine (hp row hrow hqueued).imp id ?_
    rintro ⟨e, he, hle⟩
    exact ⟨e, hget i e row he hrow (JobState.active_iff.mpr (.inl hqueued)) hle, hle⟩
  · exact hk

/-- Other reports are in hand. -/
theorem Kept.ofTasks (hk : Kept s) {tasks : List Task}
    (htasks : ∀ u ∈ tasks, u.stage.Clears → u ∈ s.tasks ∨ ∀ row, s.rows u.job = some row →
      row.state.terminal = false → u.current.attempt < row.attempt) :
    Kept { s with tasks := tasks } := by
  refine ⟨fun j => ⟨(hk.safe j).queued, (hk.safe j).running, (hk.safe j).doubt,
    (hk.safe j).doubtRunning, (hk.safe j).doubtQueued, fun u hu hj hclears row hrow hactive => ?_⟩,
    hk.staged⟩
  rcases htasks u hu hclears with hmem | hearlier
  · exact (hk.safe j).clearing u hmem hj hclears row hrow hactive
  · subst hj
    exact hearlier row hrow hactive

theorem Kept.endTask (hk : Kept s) (i : Nat) : Kept (s.endTask i) :=
  hk.ofTasks fun _ hu _ => .inl (List.mem_of_mem_eraseIdx hu)

theorem Kept.setStage (hk : Kept s) (i : Nat) (task : Task) {stage : ReportStage}
    (hclears : stage.Clears → ∀ row, s.rows task.job = some row → row.state.terminal = false →
      task.current.attempt < row.attempt) : Kept (s.setStage i task stage) := by
  refine hk.ofTasks fun u hu hc => ?_
  rcases List.mem_or_eq_of_mem_set hu with hu | rfl
  · exact .inl hu
  · exact .inr (hclears hc)

theorem Kept.addTask (hk : Kept s) {stage : ReportStage}
    (hclears : stage.Clears → ∀ row, s.rows j = some row → row.state.terminal = false →
      current.attempt < row.attempt) :
    Kept { s with tasks := s.tasks ++ [⟨j, current, stage⟩] } := by
  refine hk.ofTasks fun u hu hc => ?_
  rcases List.mem_append.mp hu with hu | hu
  · exact .inl hu
  · obtain rfl := List.mem_singleton.mp hu
    exact .inr (hclears hc)

theorem Kept.reports {r : Report} (hk : Kept s) (hok : JobsKept s (.reports j r))
    (hstep : s.reports j r = some t) : Kept t := by
  unfold World.reports at hstep
  split at hstep
  · cases hstep
  · next current _ =>
    split at hstep
    · cases hstep
    · have hover : ∀ gpuMs, r = .cancelled gpuMs → ∀ row, s.rows j = some row →
          row.state.terminal = false → current.attempt < row.attempt := by
        rintro gpuMs rfl row hrow hactive
        rw [hok row hrow] at hactive
        cases hactive
      split at hstep
      · cases hstep
        exact hk.clearIfCurrent (hover 0 rfl)
      · cases hstep
        exact hk.addTask fun _ => hover _ rfl
      · cases hstep
        exact hk.addTask (by rintro ⟨⟩)
      · cases hstep
        exact hk.addTask (by rintro ⟨⟩)

/-- A report that is about to give its entry up is on an earlier attempt. -/
theorem Kept.earlier (hk : Kept s) (hmem : task ∈ s.tasks) (hclears : task.stage.Clears) :
    ∀ row, s.rows task.job = some row → row.state.terminal = false →
      task.current.attempt < row.attempt :=
  (hk.safe task.job).clearing task hmem rfl hclears

theorem Kept.charges {answered : Bool} (hk : Kept s) (hstep : s.charges i answered = some t) :
    Kept t := by
  unfold World.charges at hstep
  split at hstep
  · next j current htask =>
    split at hstep
    · split at hstep
      · cases hstep
        exact (hk.clearIfCurrent (hk.earlier (List.mem_of_getElem? htask) trivial)).endTask i
      · cases hstep
    · cases hstep
      exact hk.endTask i
  · cases hstep

theorem Kept.inspects {a : InspectAnswer} (hk : Kept s) (hstep : s.inspects i a = some t) :
    Kept t := by
  unfold World.inspects at hstep
  split at hstep
  · split at hstep
    · cases hstep
      exact hk.endTask i
    · cases hstep
      exact hk.setStage i _ (by rintro ⟨⟩)
  · cases hstep

/-- A job that is over needs nothing that a stage of the step relies on. -/
theorem Kept.writeOver {new : Row} (hk : Kept s) (hunlocked : s.Unlocked j)
    (hnew : new.state.terminal = true) : Kept (s.write j new none) := by
  have hover : (s.write j new none).footing.Over j := by
    intro row hrow
    have hrow : Function.update s.rows j (some new) j = some row := hrow
    rw [Function.update_self] at hrow
    rwa [← Option.some.inj hrow]
  have hsame : ∀ i, i ≠ j → (s.write j new none).rows i = s.rows i :=
    fun i hij => Function.update_of_ne hij _ _
  refine ⟨fun i => ?_, hk.staged.mono (fun i hi hl => ?_) (fun i _ _ hp row hrow hqueued => ?_)
    (fun i _ _ hr => ⟨fun row hrow hactive => ?_, hr.2⟩) fun i _ ho row hrow => ?_⟩
  · by_cases hij : i = j
    · subst hij
      exact .ofOver hover hunlocked.1
    · exact (hk.safe i).write_other (c := none) hij
  · have hij : i ≠ j := by
      rintro rfl
      exact hunlocked.2 hi
    obtain ⟨row, hrow, hqueued, hdoubt⟩ := hl
    exact ⟨row, (hsame i hij).trans hrow, hqueued, hdoubt⟩
  · by_cases hij : i = j
    · subst hij
      have := hover row hrow
      rw [hqueued] at this
      cases this
    · exact hp row ((hsame i hij).symm.trans hrow) hqueued
  · by_cases hij : i = j
    · subst hij
      rw [hover row hrow] at hactive
      cases hactive
    · exact hr.1 row ((hsame i hij).symm.trans hrow) hactive
  · by_cases hij : i = j
    · subst hij
      exact hover row hrow
    · exact ho row ((hsame i hij).symm.trans hrow)

/-- The COMMIT of an end of the job raised. -/
theorem Kept.doubtOver {row new : Row} (hk : Kept s) (hunlocked : s.Unlocked j)
    (hrow : s.rows j = some row) (hactive : row.state.terminal = false)
    (hnew : new.state.terminal = true) (hattempt : new.attempt = row.attempt) :
    Kept (s.leaveInDoubt j new none) := by
  have hnot : ∀ x, x.terminal = false → new.state ≠ x := by
    rintro x hx rfl
    rw [hnew] at hx
    cases hx
  refine ⟨fun i => ?_, hk.staged.mono (fun i hi hl => ?_) (fun _ _ _ hp => hp)
    (fun i _ _ hr => ⟨hr.1, fun d hd hd' => ?_⟩) fun _ _ ho => ho⟩
  · by_cases hij : i = j
    · subst hij
      exact (hk.safe i).leaveInDoubt hrow hactive hattempt.ge
        (fun h => absurd h (hnot _ rfl)) fun h => absurd h (hnot _ rfl)
    · exact (hk.safe i).leaveInDoubt_other hij
  · have hij : i ≠ j := by
      rintro rfl
      exact hunlocked.2 hi
    obtain ⟨row, hrow, hqueued, hdoubt⟩ := hl
    exact ⟨row, hrow, hqueued, (Function.update_of_ne hij _ _).trans hdoubt⟩
  · have hd : Function.update s.doubt j (some ⟨new, none⟩) i = some d := hd
    by_cases hij : i = j
    · subst hij
      rw [Function.update_self] at hd
      obtain rfl := Option.some.inj hd
      rw [hnew] at hd'
      cases hd'
    · rw [Function.update_of_ne hij] at hd
      exact hr.2 d hd hd'

theorem Kept.rules {a : Answer} (hk : Kept s) (hstep : s.rules i a = some t) : Kept t := by
  unfold World.rules at hstep
  split at hstep
  · next j current v htask =>
    split at hstep
    · cases hstep
      exact hk.endTask i
    split at hstep
    · next hunlocked =>
      split at hstep
      · next hrow =>
        split at hstep
        · cases hstep
          refine (hk.clearIfCurrent fun row hrow' => ?_).endTask i
          cases hrow.symm.trans hrow'
        · cases hstep
          exact hk.endTask i
      · next row hrow =>
        split at hstep
        · next hlate =>
          split at hstep
          · cases hstep
            refine (hk.clearIfCurrent fun row' hrow' hactive => ?_).endTask i
            obtain rfl := Option.some.inj (hrow.symm.trans hrow')
            rcases hlate with hterminal | hlt
            · rw [hterminal] at hactive
              cases hactive
            · exact hlt
          · cases hstep
            exact hk.endTask i
        · next hlate =>
          cases hstep
          have hactive : row.state.terminal = false := by
            by_contra hterminal
            exact hlate (.inl (by simpa using hterminal))
          have hnew : (World.verdictRow row v).state.terminal = true := by
            cases v <;> rfl
          cases a with
          | landed =>
            refine (hk.writeOver hunlocked hnew).setStage i ⟨j, current, .ruling v⟩
              fun _ row' hrow' hactive' => ?_
            have hrow' : Function.update s.rows j (some (World.verdictRow row v)) j = some row' :=
              hrow'
            rw [Function.update_self] at hrow'
            rw [← Option.some.inj hrow', hnew] at hactive'
            cases hactive'
          | inDoubt => exact (hk.doubtOver hunlocked hrow hactive hnew rfl).endTask i
          | raised => exact hk.endTask i
    · cases hstep
  · cases hstep

theorem Kept.clears (hk : Kept s) (hstep : s.clears i = some t) : Kept t := by
  unfold World.clears at hstep
  split at hstep
  · next j current htask =>
    cases hstep
    exact (hk.clearIfCurrent (hk.earlier (List.mem_of_getElem? htask) trivial)).endTask i
  · cases hstep

end Reports

/-! ## Job rows, workers and deliveries -/

section Environment

variable {s t : World} {j w : Nat}

theorem Kept.creates {row : Row} {refreshed : Bool} (hk : Kept s)
    (hok : JobsKept s (.creates j row refreshed)) (hstep : s.creates j row refreshed = some t) :
    Kept t := by
  obtain rfl : refreshed = true := hok
  unfold World.creates at hstep
  split at hstep
  · next hnew =>
    dsimp only at hstep
    rw [if_pos rfl] at hstep
    cases hstep
    obtain ⟨⟨hrow, hdoubt, -, -, -, htasks, hjob⟩, hqueued, -⟩ := hnew
    have hsame : ∀ i, i ≠ j → (s.write j row none).rows i = s.rows i :=
      fun i hij => Function.update_of_ne hij _ _
    have hbusy : ∀ i, s.phase.job = some i → i ≠ j := by
      rintro i hi rfl
      exact hjob hi
    refine ⟨fun i => ?_, hk.staged.mono (fun i hi hl => ?_) (fun i hi _ hp row' hrow' => ?_)
      (fun i attempt hi hr => ⟨fun row' hrow' => ?_, hr.2⟩) fun i hi ho row' hrow' => ?_⟩
    · by_cases hij : i = j
      · subst hij
        refine .ofQueued (Function.update_self _ _ _) hqueued hdoubt
          (.inl ⟨⟨row.createdAt, i⟩, List.mem_append_right _ (List.mem_singleton_self _), rfl⟩) ?_
        exact fun u hu hju => absurd hju (htasks u hu)
      · refine ((hk.safe i).write_other (c := none) hij).mono rfl rfl (fun _ ht _ _ => ht) ?_ .inl
          (fun _ _ he _ _ _ => .inl he) (fun hp => .inr (.inl hp)) .inr
        rintro ⟨h, hmem, rfl⟩
        exact .inl ⟨h, List.mem_append_left _ hmem, rfl⟩
    · obtain ⟨row', hrow', h⟩ := hl
      exact ⟨row', (hsame i (hbusy i (Phase.job_of_holdsRow hi))).trans hrow', h⟩
    · exact hp row' ((hsame i (hbusy i hi)).symm.trans hrow')
    · exact hr.1 row' ((hsame i (hbusy i hi)).symm.trans hrow')
    · exact ho row' ((hsame i (hbusy i hi)).symm.trans hrow')
  · cases hstep

theorem Kept.cancels {a : Answer} (hk : Kept s) (hstep : s.cancels j a = some t) : Kept t := by
  unfold World.cancels at hstep
  split at hstep
  · next hunlocked =>
    split at hstep
    · cases hstep
    · next row hrow =>
      split at hstep
      · cases hstep
      · next hactive =>
        cases hstep
        cases a with
        | landed => exact hk.writeOver hunlocked rfl
        | inDoubt => exact hk.doubtOver hunlocked hrow (by simpa using hactive) rfl rfl
        | raised => exact hk
  · cases hstep

theorem Kept.deletes (hk : Kept s) (hstep : s.deletes j = some t) : Kept t := by
  unfold World.deletes at hstep
  split at hstep
  · next hunlocked =>
    cases hstep
    have hsame : ∀ i row, Function.update s.rows j none i = some row →
        i ≠ j ∧ s.rows i = some row := by
      intro i row hrow
      by_cases hij : i = j
      · rw [hij, Function.update_self] at hrow
        cases hrow
      · rw [Function.update_of_ne hij] at hrow
        exact ⟨hij, hrow⟩
    refine ⟨fun i => ?_, hk.staged.mono (fun i hi hl => ?_)
      (fun i _ _ hp row hrow => hp row (hsame i row hrow).2)
      (fun i _ _ hr => ⟨fun row hrow => hr.1 row (hsame i row hrow).2, hr.2⟩)
      fun i _ ho row hrow => ho row (hsame i row hrow).2⟩
    · by_cases hij : i = j
      · subst hij
        exact .ofOver (fun row hrow => absurd rfl (hsame i row hrow).1) hunlocked.1
      · exact (hk.safe i).other (Function.update_of_ne hij _ _) rfl
    · have hij : i ≠ j := by
        rintro rfl
        exact hunlocked.2 hi
      obtain ⟨row, hrow, h⟩ := hl
      exact ⟨row, (Function.update_of_ne hij _ _).trans hrow, h⟩
  · cases hstep

/-- PostgreSQL settles a COMMIT that raised: what keeps the job was kept for both outcomes. -/
theorem Kept.resolves {landed : Bool} (hk : Kept s) (hstep : s.resolves j landed = some t) :
    Kept t := by
  unfold World.resolves at hstep
  split at hstep
  · cases hstep
  · next d hd =>
    have hs := hk.safe j
    obtain ⟨row, hrow, hactive, hattempt⟩ := hs.doubt d hd
    have hdoubt : ∀ i d', Function.update s.doubt j none i = some d' →
        i ≠ j ∧ s.doubt i = some d' := by
      intro i d' hd'
      by_cases hij : i = j
      · rw [hij, Function.update_self] at hd'
        cases hd'
      · rw [Function.update_of_ne hij] at hd'
        exact ⟨hij, hd'⟩
    have hnone : Function.update s.doubt j none j = none := Function.update_self _ _ _
    have hlocked : ∀ i, s.footing.Locked i → i ≠ j := by
      rintro i ⟨row', -, -, hnone'⟩ rfl
      cases hd.symm.trans hnone'
    dsimp only at hstep
    cases landed with
    | false =>
      cases hstep
      refine ⟨fun i => ?_, hk.staged.mono (fun i _ hl => ?_) (fun _ _ _ hp => hp)
        (fun i _ _ hr => ⟨hr.1, fun d' hd' => hr.2 d' (hdoubt i d' hd').2⟩) fun _ _ ho => ho⟩
      · refine ⟨(hk.safe i).queued, (hk.safe i).running, fun d' hd' => ?_,
          fun d' row' hd' => ?_, fun d' row' hd' => ?_, (hk.safe i).clearing⟩
        · exact (hk.safe i).doubt d' (hdoubt i d' hd').2
        · exact (hk.safe i).doubtRunning d' row' (hdoubt i d' hd').2
        · exact (hk.safe i).doubtQueued d' row' (hdoubt i d' hd').2
      · obtain ⟨row', hrow', hqueued, hnone'⟩ := hl
        refine ⟨row', hrow', hqueued, ?_⟩
        exact (Function.update_of_ne (hlocked i ⟨row', hrow', hqueued, hnone'⟩) _ _).trans hnone'
    | true =>
      cases hstep
      have hsame : ∀ i, i ≠ j → Function.update s.rows j (some d.row) i = s.rows i :=
        fun i hij => Function.update_of_ne hij _ _
      have hself : ∀ row', Function.update s.rows j (some d.row) j = some row' → row' = d.row := by
        intro row' hrow'
        rw [Function.update_self] at hrow'
        exact (Option.some.inj hrow').symm
      refine ⟨fun i => ?_, hk.staged.mono (fun i _ hl => ?_) (fun i _ hr hp row' hrow' hqueued => ?_)
        (fun i attempt _ hr => ⟨fun row' hrow' hactive' => ?_, fun d' hd' =>
          hr.2 d' (hdoubt i d' hd').2⟩) fun i _ ho row' hrow' => ?_⟩
      · by_cases hij : i = j
        · subst hij
          have hclears : s.footing.ClearsEarlier i d.row.attempt := fun u hu hju hc =>
            (hs.clearsEarlier hrow hactive u hu hju hc).trans_le hattempt
          rcases hstate : d.row.state.terminal with _ | _
          · rcases JobState.active_iff.mp hstate with hqueued | hrunning
            · refine .ofQueued (Function.update_self _ _ _) hqueued hnone ?_ hclears
              rcases (hs.doubtQueued d row hd hrow hqueued).2 with hlost | hr
              · exact .inr (.inl (.inl hlost))
              · exact .inr (.inr (.inr hr))
            · rcases (hs.doubtRunning d row hd hrow hrunning).2 with htracked | hr
              · exact .ofRunning (Function.update_self _ _ _) hrunning hnone htracked hclears
              · refine ⟨fun row' hrow' hq => ?_, fun row' hrow' _ => .inr hr, fun d' hd' => ?_,
                  fun d' row' hd' => ?_, fun d' row' hd' => ?_,
                  fun u hu hju hc row' hrow' _ => ?_⟩
                · rw [hself row' hrow', hrunning] at hq
                  cases hq
                · exact absurd rfl (hdoubt i d' hd').1
                · exact absurd rfl (hdoubt i d' hd').1
                · exact absurd rfl (hdoubt i d' hd').1
                · rw [hself row' hrow']
                  exact hclears u hu hju hc
          · refine .ofOver (fun row' hrow' => ?_) hnone
            rw [hself row' hrow']
            exact hstate
        · exact (hk.safe i).other (hsame i hij) (Function.update_of_ne hij _ _)
      · have hij := hlocked i hl
        obtain ⟨row', hrow', hqueued, hnone'⟩ := hl
        exact ⟨row', (hsame i hij).trans hrow', hqueued,
          (Function.update_of_ne hij _ _).trans hnone'⟩
      · by_cases hij : i = j
        · subst hij
          rw [hself row' hrow'] at hqueued
          rcases (hs.doubtQueued d row hd hrow hqueued).2 with hlost | hreq
          · exact .inl hlost
          · cases hr.symm.trans hreq
        · exact hp row' ((hsame i hij).symm.trans hrow') hqueued
      · by_cases hij : i = j
        · subst hij
          rw [hself row' hrow'] at hactive' ⊢
          exact hr.2 d hd hactive'
        · exact hr.1 row' ((hsame i hij).symm.trans hrow') hactive'
      · by_cases hij : i = j
        · subst hij
          rw [ho row hrow] at hactive
          cases hactive
        · exact ho row' ((hsame i hij).symm.trans hrow')

/-- The jobs of a lost worker move to `lost_jobs`. -/
theorem Kept.loses (hk : Kept s) (hstep : s.loses w = some t) : Kept t := by
  unfold World.loses at hstep
  split at hstep
  · cases hstep
  · cases hstep
    have hget : ∀ j e, s.inflight.get j = some e →
        (s.inflight.filter fun e => decide (e.worker ≠ w)).get j = some e ∨
          j ∈ s.lostJobs ++
            (s.inflight.items.filter fun i => decide (i.2.worker = w)).map Prod.fst := by
      intro j e he
      by_cases hw : e.worker = w
      · refine .inr (List.mem_append_right _ (List.mem_map.mpr ⟨(j, e), ?_, rfl⟩))
        exact List.mem_filter.mpr ⟨Ordered.get_eq_some.mp he, by simpa using hw⟩
      · exact .inl (Ordered.get_filter.mpr ⟨he, by simpa using hw⟩)
    refine ⟨fun j => (hk.safe j).mono rfl rfl (fun _ ht _ _ => ht) .inl
      (fun hj => .inl (List.mem_append_left _ hj))
      (fun e _ he _ _ _ => (hget j e he).imp id .inl) (fun hp => .inr (.inl hp)) .inr,
      hk.staged.mono (fun _ _ hl => hl) (fun j _ _ hp row hrow hqueued => ?_)
        (fun _ _ _ hr => hr) fun _ _ ho => ho⟩
    rcases hp row hrow hqueued with hlost | ⟨e, he, hle⟩
    · exact .inl (List.mem_append_left _ hlost)
    · rcases hget j e he with he | hlost
      · exact .inr ⟨e, he, hle⟩
      · exact .inl hlost

/-- A re-delivered command registers an entry only where there is none. -/
theorem Kept.tracks (hk : Kept s) (hstep : s.tracks w = some t) : Kept t := by
  unfold World.tracks at hstep
  split at hstep
  · next c attempt _ =>
    split at hstep
    · cases hstep
      exact ⟨hk.safe, hk.staged⟩
    · next hnone =>
      have hnone : s.inflight.get c.job = none := by simpa using hnone
      cases hstep
      have hget : ∀ j e, s.inflight.get j = some e → (s.inflight.put c.job
          ⟨s.idents, w, attempt, some c.dispatchSequence⟩).get j = some e := by
        intro j e he
        have hne : j ≠ c.job := by
          rintro rfl
          cases hnone.symm.trans he
        exact (Ordered.get_put_of_ne hne).trans he
      refine ⟨fun j => (hk.safe j).entries fun e _ he _ _ _ => hget j e he,
        hk.staged.mono (fun _ _ hl => hl) (fun j _ _ hp row hrow hqueued => ?_)
          (fun _ _ _ hr => hr) fun _ _ ho => ho⟩
      refine (hp row hrow hqueued).imp id ?_
      rintro ⟨e, he, hle⟩
      exact ⟨e, hget j e he, hle⟩
  · cases hstep

theorem Kept.connects {k : Worker} (hk : Kept s) (hstep : s.connects w k = some t) : Kept t := by
  unfold World.connects at hstep
  split at hstep
  · cases hstep
    exact ⟨hk.safe, hk.staged⟩
  · cases hstep

theorem Kept.kicks {c : Command} (hk : Kept s) (hstep : s.kicks w c = some t) : Kept t := by
  unfold World.kicks at hstep
  split at hstep
  · cases hstep
    exact ⟨hk.safe, hk.staged⟩
  · cases hstep

theorem Kept.reads {answered : Bool} (hk : Kept s) (hstep : s.reads w answered = some t) :
    Kept t := by
  unfold World.reads at hstep
  split at hstep
  · split at hstep
    · cases hstep
      exact ⟨hk.safe, hk.staged⟩
    · split at hstep <;> cases hstep <;> exact ⟨hk.safe, hk.staged⟩
  · cases hstep

end Environment

/-! ## Runs -/

section Runs

variable {s t : World} {l : Label}

theorem Kept.start (hs : Starts s) : Kept s := by
  have hdoubt : ∀ j d, s.footing.doubt j ≠ some d := by
    intro j d hd
    have hd : s.doubt j = some d := hd
    rw [hs.doubt] at hd
    cases hd
  refine ⟨fun j => ⟨fun row hrow hstate => .inl (hs.hinted j row hrow hstate),
    fun row hrow hstate => absurd hstate (hs.settled j row hrow), fun d hd => ?_,
    fun d row hd => ?_, fun d row hd => ?_, fun u hu => ?_⟩, ?_⟩
  · exact absurd hd (hdoubt j d)
  · exact absurd hd (hdoubt j d)
  · exact absurd hd (hdoubt j d)
  · have hu : u ∈ s.tasks := hu
    rw [hs.tasks] at hu
    cases hu
  · rw [hs.idle]
    trivial

/-- The step lemma: a step that meets the condition keeps every job. -/
theorem Kept.step (hk : Kept s) (hok : JobsKept s l) (hstep : step s l = some t) : Kept t := by
  cases l with
  | begins => exact hk.begins hstep
  | recovers => exact hk.recovers hstep
  | requeues a => exact hk.requeues hstep
  | sweeps stalled => exact hk.sweeps hstep
  | scans => exact hk.scans hstep
  | asks answered => exact hk.asks hok hstep
  | locks answered => exact hk.locks hok hstep
  | publishes answered => exact hk.publishes hok hstep
  | fetches a => exact hk.fetches hstep
  | drops a => exact hk.drops hok hstep
  | sends sent => exact hk.sends hstep
  | commits a => exact hk.commits hstep
  | prepares a => exact hk.prepares hok hstep
  | uploads answered => exact hk.uploads hok hstep
  | claims a => exact hk.claims hok hstep
  | probes answered => exact hk.probes hstep
  | delivers => exact hk.delivers hstep
  | reports j r => exact hk.reports hok hstep
  | charges i answered => exact hk.charges hstep
  | inspects i a => exact hk.inspects hstep
  | rules i a => exact hk.rules hstep
  | clears i => exact hk.clears hstep
  | creates j row refreshed => exact hk.creates hok hstep
  | cancels j a => exact hk.cancels hstep
  | deletes j => exact hk.deletes hstep
  | resolves j landed => exact hk.resolves hstep
  | connects w k => exact hk.connects hstep
  | forgets w =>
    cases hstep
    exact ⟨hk.safe, hk.staged⟩
  | loses w => exact hk.loses hstep
  | grants w granted =>
    cases hstep
    exact ⟨hk.safe, hk.staged⟩
  | holdsSlots w n =>
    cases hstep
    exact ⟨hk.safe, hk.staged⟩
  | kicks w c => exact hk.kicks hstep
  | reads w answered => exact hk.reads hstep
  | tracks w => exact hk.tracks hstep
  | retires c =>
    cases hstep
    exact ⟨hk.safe, hk.staged⟩

/-- The run lemma. -/
theorem Kept.run (hs : Starts s) (hpath : machine.Path JobsKept s t) : Kept t :=
  hpath.invariant (I := Kept) (fun _ _ _ hk hok hstep => hk.step hok hstep) (.start hs)

end Runs

/-- **No job is stranded.** In every run whose steps meet the condition, between two steps of
the dispatcher a queued job has a hint, an entry in `lost_jobs` or one in `inflight`, and a
running job has one of the latter two. -/
theorem no_job_stranded {s t : World} (hs : Starts s) (hpath : machine.Path JobsKept s t)
    (hidle : t.phase = .idle) {j : Nat} {row : Row} (hrow : t.rows j = some row) :
    (row.state = .queued →
      (∃ h ∈ t.hints, h.job = j) ∨ j ∈ t.lostJobs ∨ (t.inflight.get j).isSome) ∧
    (row.state = .running → (t.inflight.get j).isSome ∨ j ∈ t.lostJobs) := by
  have hsafe := (Kept.run hs hpath).safe j
  rw [hidle] at hsafe
  have hentry : ∀ attempt, t.footing.Tracked j attempt →
      j ∈ t.lostJobs ∨ (t.inflight.get j).isSome := by
    rintro attempt (hlost | ⟨e, he, -⟩)
    · exact .inl hlost
    · exact .inr (Option.isSome_iff_exists.mpr ⟨e, he⟩)
  constructor
  · intro hstate
    rcases hsafe.queued row hrow hstate with hhint | htracked | ⟨h, hmem, -⟩ | hnone
    · exact .inl hhint
    · exact .inr (hentry _ htracked)
    · cases hmem
    · cases hnone
  · intro hstate
    rcases hsafe.running row hrow hstate with htracked | hnone
    · exact (hentry _ htracked).symm
    · cases hnone

/-! ## Runs of one job -/

section Sample

/-- A worker is lost while the commit after its send is open, and the commit raises: the hint
goes back and `lost_jobs` has the job, so the next step pushes a second hint. Of the two
dispatches that follow, the first leaves its claim in doubt, and the second overwrites the
entry of the first and drops its own when that claim has landed. -/
def strands : List Label :=
  [.connects 4 ⟨none, false, [0], 0, 0⟩, .begins, .recovers, .sweeps false,
    .scans, .asks true, .locks true, .publishes true, .sends true,
    .forgets 4, .loses 4, .commits .raised,
    .connects 6 ⟨some 60, true, [0], 0, 0⟩, .begins, .recovers, .requeues .landed,
    .recovers, .sweeps false,
    .scans, .asks true, .prepares (.read true), .uploads true, .claims .inDoubt, .probes false,
    .scans, .asks true, .prepares (.read true), .uploads true,
    .resolves 1 true, .claims .stale, .scans]

def sampleStranded : World := (machine.run sampleStart strands).getD sampleStart

theorem strands_run : machine.run sampleStart strands = some sampleStranded := rfl

/-- The job runs, and nothing in the process has it. -/
theorem doubted_claim_strands :
    ∃ s t : World, Starts s ∧ machine.Path Machine.anyStep s t ∧ t.phase = .idle ∧
      (t.rows 1).map (·.state) = some .running ∧ t.inflight.get 1 = none ∧ t.lostJobs = [] :=
  ⟨sampleStart, sampleStranded, sampleStart_starts, Machine.path_of_run_any strands_run,
    rfl, rfl, rfl, rfl⟩

/-- A claim that lands. -/
def lands : List Label := picks ++ [.uploads true, .claims .landed, .delivers, .scans]

def sampleLanded : World := (machine.run sampleStart lands).getD sampleStart

theorem lands_run : machine.run sampleStart lands = some sampleLanded := rfl

theorem lands_kept : machine.Path JobsKept sampleStart sampleLanded :=
  Machine.path_of_run lands_run
    ⟨trivial, fun _ _ => ⟨trivial, fun _ _ => ⟨trivial, fun _ _ => ⟨trivial, fun _ _ =>
      ⟨trivial, fun _ _ => ⟨trivial, fun _ _ => ⟨trivial, fun _ _ => ⟨trivial, fun _ _ =>
        ⟨trivial, fun _ _ => ⟨trivial, fun _ _ => ⟨trivial, fun _ _ => trivial⟩⟩⟩⟩⟩⟩⟩⟩⟩⟩⟩

/-- The running job has its entry. -/
theorem no_job_stranded_sample :
    ∃ row, sampleLanded.rows 1 = some row ∧ row.state = .running ∧
      ((row.state = .queued → (∃ h ∈ sampleLanded.hints, h.job = 1) ∨ 1 ∈ sampleLanded.lostJobs ∨
        (sampleLanded.inflight.get 1).isSome) ∧
      (row.state = .running →
        (sampleLanded.inflight.get 1).isSome ∨ 1 ∈ sampleLanded.lostJobs)) :=
  ⟨_, rfl, rfl, no_job_stranded sampleStart_starts lands_kept rfl rfl⟩

end Sample

end Potocolom.Dispatch
