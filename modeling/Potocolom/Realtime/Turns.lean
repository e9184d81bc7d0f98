import Potocolom.Realtime.Placement

/-! # What each coroutine does in its turn

One lemma per function of the scheduler: started where it may start, it leaves the
placement invariant to the next await. -/

namespace Potocolom.Realtime

namespace World

variable {s s' : World} {x y t w : Nat}

/-- The running task `t` holds the placement of `x`. -/
structure Holds (s : World) (t x : Nat) : Prop where
  inv : s.PlacementInv
  running : t < s.spawned
  unowned : s.unowned x
  born : x < s.created
  listed : s.listed x
  unqueued : (s.rows x).state ≠ .queued

/-- What a placement that stops, or answers, leaves to its task. -/
def PlacedOk (t x : Nat) : World × Placed → Prop
  | (s, .suspended attempt) => s.Holds t x ∧ s.TaskOk (.placing .handler x attempt)
  | (s, .returned ok) => s.Holds t x ∧
      (ok = false → (s.rows x).state = .assigning → (s.rows x).worker = none ∧ s.fresh x)

theorem PlacementInv.holds (h : s.PlacementInv) (ht : (s.tasks t).owns x) :
    (s.put t .done).Holds t x where
  inv := by
    apply h.stop
    apply h.lt_spawned
    intro hdone
    rw [hdone] at ht
    exact ht
  running := by
    apply h.lt_spawned
    intro hdone
    rw [hdone] at ht
    exact ht
  unowned := h.unowned_done ht
  born := by
    by_contra hge
    exact ((h.session x).row.unborn (Nat.not_lt.mp hge)).2.2 t ht
  listed := by
    have htask := (h.session x).task t ht
    show s.listed x
    cases htask' : s.tasks t with
    | checking z _ =>
      rw [htask'] at ht htask
      obtain rfl : z = x := ht
      exact htask.2.2.1
    | scheduled caller z =>
      rw [htask'] at ht htask
      obtain rfl : z = x := ht
      cases caller with
      | handler => exact htask.elim
      | admission => exact htask.2.2
      | reassign => exact htask
      | resumeIdle => exact htask.2
    | interrupting z _ | reading z _ =>
      rw [htask'] at ht htask
      obtain rfl : z = x := ht
      exact htask.2
    | placing caller z attempt =>
      rw [htask'] at ht htask
      obtain rfl : z = x := ht
      exact htask.2.1
    | _ =>
      rw [htask'] at ht
      exact ht.elim
  unqueued := fun hq => ((h.session x).row.waiting hq).2 t ht

/-! ## The queue -/

theorem transition_eq_some {expected : List SessionState} {new : SessionState} :
    s.transition x expected new = some s' ↔ ((s.rows x).state ≠ .ended ∧
      (s.rows x).state ∈ expected) ∧ s' = s.setRow x ({ · with state := new }) := by
  unfold transition
  split
  · rename_i hc
    simp [hc, eq_comm]
  · rename_i hc
    simp [hc]

theorem PlacementInv.in_sessions (h : s.PlacementInv) (hended : (s.rows x).state ≠ .ended)
    (hassigning : (s.rows x).state ≠ .assigning) : x ∈ s.sessions := by
  by_contra hnot
  rcases ((h.session x).row.unlisted hnot).2 with hs | hs
  · exact hassigning hs
  · exact hended hs

/-- A re-check has a session that is starting or that a close call took. -/
theorem PlacementInv.not_checking (h : s.PlacementInv) (hended : (s.rows x).state ≠ .ended)
    (hassigning : (s.rows x).state ≠ .assigning) (t : Nat) (answer : Option Bool) :
    s.tasks t ≠ .checking x answer := by
  intro ht
  have htask := (h.session x).task t (by rw [ht]; rfl)
  rw [ht] at htask
  rcases htask.2.2.2 with hs | hs
  · exact hassigning hs
  · exact hended hs

theorem PlacementInv.admitOne (h : s.PlacementInv) : (s.admitOne x).PlacementInv := by
  unfold World.admitOne
  split
  · exact h
  split
  · rename_i s' hs
    rcases transition_eq_some.mp hs with ⟨⟨hended, hq⟩, rfl⟩
    have hqueued : (s.rows x).state = .queued := by simpa using hq
    have hrow := (h.session x).row
    have hwait := hrow.waiting hqueued
    have hnone := hrow.off (.inl hqueued)
    have hx : x ∈ s.sessions := h.in_sessions hended (by simp [hqueued])
    have hself := setRow_rows_self (s := s) (x := x) ({ · with state := .assigning })
    have hinv := h.setAssigning hended hx
    refine hinv.spawn (x := x) rfl hwait.2 (h.born hended) (by rw [hself]; simp) ⟨?_, ?_, .inl hx⟩
    · rw [hself]
      exact hnone
    · intro o ho hox
      rw [hself]
      exact hwait.1 o ho hox
  · exact h

theorem PlacementInv.admitQueued (h : s.PlacementInv) : s.admitQueued.PlacementInv := by
  unfold World.admitQueued
  generalize s.queuedSessions = queue
  induction queue generalizing s with
  | nil => exact h
  | cons x queue ih => exact ih h.admitOne

theorem admitOne_spawned : s.spawned ≤ (s.admitOne x).spawned := by
  unfold World.admitOne
  split
  · exact Nat.le_refl _
  split
  · rename_i s' hs
    rcases transition_eq_some.mp hs with ⟨_, rfl⟩
    exact Nat.le_succ _
  · exact Nat.le_refl _

theorem admitQueued_spawned : s.spawned ≤ s.admitQueued.spawned := by
  unfold World.admitQueued
  generalize s.queuedSessions = queue
  induction queue generalizing s with
  | nil => exact Nat.le_refl _
  | cons x queue ih => exact Nat.le_trans admitOne_spawned ih

/-- The queue takes a session back with a fresh generation and no worker. -/
theorem requeue_ok (h : s.Holds t x)
    (hfree : (s.rows x).state = .assigning → (s.rows x).worker = none ∧ s.fresh x)
    (hs : s.requeue x = some s') : s'.PlacementInv ∧ s'.spawned = s.spawned := by
  unfold World.requeue at hs
  rw [Option.map_eq_some_iff] at hs
  rcases hs with ⟨s₁, hs₁, rfl⟩
  rcases transition_eq_some.mp hs₁ with ⟨⟨hended, ha⟩, rfl⟩
  have hassigning : (s.rows x).state = .assigning := by simpa using ha
  rcases hfree hassigning with ⟨hnone, hfresh⟩
  have hx : x ∈ s.sessions := h.listed.resolve_right hended
  have hinv : (s.setRow x ({ · with state := .queued })).PlacementInv := by
    apply h.inv.setState hended hx
    · exact fun _ => hnone
    · exact fun _ => ⟨hfresh, h.unowned⟩
    · simp
    · refine .inr (.inr ?_)
      intro t answer ht
      exact h.unowned t (by rw [ht]; rfl)
  exact ⟨hinv.setRow rfl rfl rfl rfl, rfl⟩

theorem requeue!_ok (h : s.Holds t x)
    (hfree : (s.rows x).state = .assigning → (s.rows x).worker = none ∧ s.fresh x) :
    (s.requeue! x).PlacementInv ∧ (s.requeue! x).spawned = s.spawned := by
  unfold requeue!
  cases hs : s.requeue x with
  | none => exact ⟨h.inv, rfl⟩
  | some s' => exact requeue_ok h hfree hs

/-! ## Ends -/

theorem release_cases : (s.release x).1 = s.drop x ∨ (s.release x).1 = (s.drop x).admitQueued := by
  unfold release
  split
  · rename_i hnone
    rw [drop_of_none hnone]
    exact .inr rfl
  · split
    · exact .inl rfl
    · exact .inr rfl

theorem release_ok (h : (s.drop x).PlacementInv) :
    (s.release x).1.PlacementInv ∧ s.spawned ≤ (s.release x).1.spawned := by
  have hle := admitQueued_spawned (s := s.drop x)
  rw [drop_spawned] at hle
  rcases release_cases (s := s) (x := x) with hr | hr
  · rw [hr]
    exact ⟨h, by simp⟩
  · rw [hr]
    exact ⟨h.admitQueued, hle⟩

theorem releaseLast_ok (h : (s.drop x).PlacementInv) (ht : t < s.spawned) :
    (s.releaseLast t x).PlacementInv := by
  have hrelease := release_ok h
  unfold releaseLast
  rcases hr : s.release x with ⟨s', awaits⟩
  rw [hr] at hrelease
  have hlt : t < s'.spawned := lt_of_lt_of_le ht hrelease.2
  cases awaits with
  | true => exact hrelease.1.put_free hlt fun _ hy => hy
  | false => exact hrelease.1.put_free hlt fun _ hy => hy

theorem drop_setState {new : SessionState} : (s.setRow x ({ · with state := new })).drop x =
    (s.drop x).setRow x ({ · with state := new }) := by
  cases hw : (s.rows x).worker with
  | none =>
    have hnone : ((s.setRow x ({ · with state := new })).rows x).worker = none := by
      rw [setRow_rows_self]
      exact hw
    rw [drop_of_none hw, drop_of_none hnone]
  | some w =>
    have hsome : ((s.setRow x ({ · with state := new })).rows x).worker = some w := by
      rw [setRow_rows_self]
      exact hw
    rw [drop_of_some hw, drop_of_some hsome]
    simp [World.setRow, setWorker]

theorem drop_unregister : (s.unregister x).drop x = (s.drop x).unregister x := by
  cases hw : (s.rows x).worker with
  | none => rw [drop_of_none hw, drop_of_none (s := s.unregister x) hw]
  | some w =>
    rw [drop_of_some hw, drop_of_some (s := s.unregister x) hw]
    rfl

theorem pop_drop : (s.pop x).drop x = (s.drop x).pop x := by
  rw [pop_eq, pop_eq, drop_setState, drop_unregister]

theorem PlacementInv.pop_drop (h : s.PlacementInv) : ((s.pop x).drop x).PlacementInv := by
  rw [World.pop_drop]
  exact h.drop.pop (by simp)

@[simp] theorem pop_spawned : (s.pop x).spawned = s.spawned := by
  rw [pop_eq]
  rfl

theorem tearDown_ok (h : s.PlacementInv) (ht : t < s.spawned) : (s.tearDown t x).PlacementInv :=
  releaseLast_ok h.pop_drop (by simpa using ht)

/-! ## Placements -/

/-- The worker that takes the session is a registered one. -/
theorem best_mem {ranked : List (Int × Nat)} {chosen : Int × Nat} (h : best ranked = some chosen) :
    chosen ∈ ranked := by
  induction ranked generalizing chosen with
  | nil => simp [best] at h
  | cons first rest ih =>
    unfold best at h
    split at h
    · rename_i other hother
      split at h
      · obtain rfl := Option.some.inj h
        exact List.mem_cons_of_mem _ (ih hother)
      · obtain rfl := Option.some.inj h
        exact List.mem_cons_self
    · obtain rfl := Option.some.inj h
      exact List.mem_cons_self

theorem pickWorker_mem {modelId : String} {excluded : List String}
    (h : s.pickWorker modelId excluded = some w) : w ∈ s.registered := by
  unfold pickWorker at h
  rw [Option.map_eq_some_iff] at h
  rcases h with ⟨⟨_, v⟩, hbest, rfl⟩
  rcases List.mem_filterMap.mp (best_mem hbest) with ⟨v', hv, hrank⟩
  rw [Option.map_eq_some_iff] at hrank
  rcases hrank with ⟨_, _, heq⟩
  simp only [Prod.mk.injEq] at heq
  rw [← heq.2]
  exact hv

theorem place_ok {skipped : List String} (h : s.Holds t x) (hnone : (s.rows x).worker = none)
    (hfresh : s.fresh x) : PlacedOk t x (s.place x skipped) := by
  unfold place
  split
  · rename_i hlive
    split
    · exact ⟨h, fun _ _ => ⟨hnone, hfresh⟩⟩
    · rename_i w hw
      have hattached := h.inv.process.registered w (pickWorker_mem hw)
      have hself := assign_rows_self (s := s) (x := x) (w := w)
      refine ⟨⟨?_, h.running, h.unowned, h.born, .inl hlive.1, ?_⟩, ?_, .inl hlive.1, ?_, ?_⟩
      · exact h.inv.assign h.born hlive.1 hlive.2 hnone hfresh h.unowned hattached
      · rw [hself, hlive.2]
        simp
      · rw [hself]
      · intro hphase
        cases hphase
      · intro v hv
        rw [hself] at hv
        exact (Option.some.inj hv).symm
  · rename_i hnot
    refine ⟨h, fun _ hassigning => ?_⟩
    have hx : x ∈ s.sessions := h.listed.resolve_right (by simp [hassigning])
    exact absurd ⟨hx, hassigning⟩ hnot

/-- The head of the loop is reached with a fresh generation: one of this placement,
since no other can have moved it. -/
theorem assigned_ok {attempt : Attempt} {ok : Bool} (h : s.Holds t x)
    (hstarted : (s.rows x).controlGeneration = attempt.started)
    (hnone : ok = false → (s.rows x).state = .assigning → (s.rows x).worker = none) :
    PlacedOk t x (s.assigned x attempt ok) := by
  unfold assigned
  split
  · exact ⟨h, fun hfalse => by cases hfalse⟩
  split
  · rename_i hgone
    refine ⟨h, fun _ hassigning => ?_⟩
    have hx : x ∈ s.sessions := h.listed.resolve_right (by simp [hassigning])
    rcases hgone with hgone | hgone
    · exact absurd hx hgone
    · exact absurd hassigning hgone
  · rename_i hfailed hhere
    have hok : ok = false := by
      cases ok with
      | false => rfl
      | true => exact absurd (.inl rfl) hfailed
    have hassigning : (s.rows x).state = .assigning := by
      by_contra hnot
      exact hhere (.inr hnot)
    dsimp only
    apply place_ok
    · refine ⟨h.inv.bump h.born (hnone hok hassigning) h.unowned, h.running, h.unowned, h.born,
        ?_, ?_⟩
      · unfold listed
        rw [bump_rows_self]
        exact h.listed
      · rw [bump_rows_self]
        exact h.unqueued
    · rw [bump_rows_self]
      exact hnone hok hassigning
    · exact bump_fresh (h.inv.session x).row

theorem Holds.drop (h : s.Holds t x) : (s.drop x).Holds t x where
  inv := h.inv.drop
  running := by simpa using h.running
  unowned := by simpa [World.unowned] using h.unowned
  born := by simpa using h.born
  listed := by simpa [World.listed] using h.listed
  unqueued := by simpa using h.unqueued

theorem giveUp_ok {attempt : Attempt} (h : s.Holds t x)
    (hstarted : (s.rows x).controlGeneration = attempt.started)
    (hworker : ∀ w, (s.rows x).worker = some w → w = attempt.worker) :
    PlacedOk t x (s.giveUp x attempt) := by
  unfold giveUp
  split
  · dsimp only
    split
    · refine ⟨h.drop, ?_, h.drop.listed, ?_, ?_⟩
      · simpa using hstarted
      · simp
      · simp
    · apply assigned_ok h.drop
      · simpa using hstarted
      · simp
  · rename_i hnot
    apply assigned_ok h hstarted
    intro _ _
    cases hw : (s.rows x).worker with
    | none => rfl
    | some w =>
      obtain rfl := hworker w hw
      exact absurd hw hnot

theorem woken_ok {attempt : Attempt} (h : s.Holds t x)
    (hstarted : (s.rows x).controlGeneration = attempt.started)
    (hworker : ∀ w, (s.rows x).worker = some w → w = attempt.worker) :
    PlacedOk t x (s.woken x attempt) := by
  unfold woken
  rw [if_neg (not_not.mpr hstarted)]
  split
  · rename_i hready
    split
    · rename_i s' hs
      rcases transition_eq_some.mp hs with ⟨⟨hended, _⟩, rfl⟩
      have hx : x ∈ s.sessions := h.listed.resolve_right hended
      have hlive : (s.setRow x ({ · with state := .live })).PlacementInv := by
        apply h.inv.setState hended hx
        · simp
        · simp
        · intro _ w hw
          exact (h.inv.session x).row.ready w hw (.inl hready.1)
        · refine .inr (.inr ?_)
          intro u answer hu
          exact h.unowned u (by rw [hu]; rfl)
      apply assigned_ok
      · refine ⟨hlive.setRow rfl rfl rfl rfl, h.running, h.unowned, h.born, .inl hx, ?_⟩
        simp [World.setRow]
      · simpa [World.setRow] using hstarted
      · simp
    · exact assigned_ok h hstarted (by simp)
  · exact giveUp_ok h hstarted hworker

/-! ## What the caller does with the answer -/

theorem PlacementInv.forward (h : s.PlacementInv) {frame : Nat × Nat} :
    ({ s with forwards := s.forwards ++ [frame] } : World).PlacementInv where
  process := h.process.keep (fun _ => rfl) (fun _ => rfl) rfl rfl rfl (List.Subset.refl _)
    h.process.ended
  session := by
    intro y
    have hu : Untouched s ({ s with forwards := s.forwards ++ [frame] } : World) y :=
      { Untouched.refl s y with }
    exact hu.sessionOk (h.session y)

theorem forwardPending_ok (h : s.PlacementInv) : (s.forwardPending x).PlacementInv := by
  unfold forwardPending
  have hrow : (s.setRow x ({ · with pendingFrame := false })).PlacementInv :=
    h.setRow rfl rfl rfl rfl
  dsimp only
  split
  · exact hrow.forward
  · exact hrow

theorem placed_ok {caller : Caller} {ok : Bool} (h : PlacedOk t x (s, .returned ok)) :
    (s.placed t caller x ok).PlacementInv := by
  rcases h with ⟨hold, hfree⟩
  have hserve : ∀ s : World, s.PlacementInv → t < s.spawned →
      (s.put t (.serving x)).PlacementInv := fun s hs ht => hs.put_free ht fun _ hy => hy
  have hrelease := releaseLast_ok (x := x) hold.inv.drop hold.running
  cases ok with
  | true =>
    cases caller with
    | handler => exact hserve s hold.inv hold.running
    | admission =>
      simp only [placed]
      split
      · exact forwardPending_ok (hold.inv.setRow rfl rfl rfl rfl)
      · exact hrelease
    | reassign =>
      simp only [placed]
      split
      · exact hold.inv
      · exact hrelease
    | resumeIdle =>
      simp only [placed]
      split
      · exact forwardPending_ok hold.inv
      · exact hrelease
  | false =>
    have hqueue := requeue!_ok hold (hfree rfl)
    cases caller with
    | handler => exact hserve _ hqueue.1 (by rw [hqueue.2]; exact hold.running)
    | admission => exact hqueue.1
    | resumeIdle => exact hqueue.1
    | reassign =>
      simp only [placed]
      split
      · rename_i s' hs
        exact (requeue_ok hold (hfree rfl) hs).1.admitQueued
      · exact hold.inv

theorem goOn_ok {caller : Caller} {r : World × Placed} (h : PlacedOk t x r) :
    (goOn t caller x r).PlacementInv := by
  rcases r with ⟨s, ok | attempt⟩
  · exact placed_ok h
  · rcases h with ⟨hold, htask⟩
    exact hold.inv.put hold.running rfl hold.unowned hold.born hold.unqueued htask

/-! ## The placement tasks -/

/-- The task stops at an `await` before its placement. -/
theorem Holds.put (task : Task) (h : s.Holds t x) (hx : task.owns x) (hok : s.TaskOk task) :
    (s.put t task).PlacementInv :=
  h.inv.put h.running hx h.unowned h.born h.unqueued hok

theorem reopen_ok {excluded : List String} (h : s.Holds t x) (hnone : (s.rows x).worker = none) :
    (s.reopen t x excluded).PlacementInv := by
  apply goOn_ok
  apply place_ok
  · refine ⟨h.inv.bump h.born hnone h.unowned, h.running, h.unowned, h.born, ?_, ?_⟩
    · unfold listed
      rw [bump_rows_self]
      exact h.listed
    · rw [bump_rows_self]
      exact h.unqueued
  · rw [bump_rows_self]
    exact hnone
  · exact bump_fresh (h.inv.session x).row

theorem interrupted_ok {excluded : List String} (h : s.Holds t x)
    (hnone : (s.rows x).worker = none) : (s.interrupted t x excluded).PlacementInv := by
  unfold interrupted
  split
  · split
    · exact h.put _ rfl ⟨hnone, h.listed⟩
    · exact reopen_ok h hnone
  · exact h.inv

theorem transition!_ok (h : s.Holds t x) (hlive : (s.rows x).state = .live) :
    (s.transition! x [.live] .assigning).Holds t x := by
  have hx : x ∈ s.sessions := h.listed.resolve_right (by simp [hlive])
  have htransition : s.transition! x [.live] .assigning =
      s.setRow x ({ · with state := .assigning }) := by
    simp [transition!, transition, hlive]
  rw [htransition]
  refine ⟨?_, h.running, h.unowned, h.born, .inl hx, ?_⟩
  · exact h.inv.setAssigning (by simp [hlive]) hx
  · simp [World.setRow]

/-- What `reassign` does with the session's worker. -/
theorem leaveWorker_ok (h : s.Holds t x) :
    (match (s.rows x).worker with
      | some w =>
        let s := s.drop x
        let excluded := [(s.workers w).id]
        if w ∈ s.registered then s.put t (.interrupting x excluded)
        else s.interrupted t x excluded
      | none => s.interrupted t x []).PlacementInv := by
  split
  · have hnone : ((s.drop x).rows x).worker = none := by simp
    dsimp only
    split
    · exact h.drop.put _ rfl ⟨hnone, h.drop.listed⟩
    · exact interrupted_ok h.drop hnone
  · rename_i hnone
    exact interrupted_ok h hnone

theorem reassign_ok (h : s.Holds t x) : (s.reassign t x).PlacementInv := by
  unfold reassign
  split
  · rename_i hlive
    exact leaveWorker_ok (transition!_ok h hlive)
  · rename_i hassigning
    have hsame : s.transition! x [.live] .assigning = s := by
      simp [transition!, transition, hassigning]
    rw [hsame]
    exact leaveWorker_ok h
  · exact h.inv

theorem resumeIdle_ok (h : s.Holds t x) (hnone : (s.rows x).worker = none) :
    (s.resumeIdle t x).PlacementInv := by
  unfold resumeIdle
  split
  · apply goOn_ok
    apply place_ok
    · refine ⟨h.inv.bump h.born hnone h.unowned, h.running, h.unowned, h.born, ?_, ?_⟩
      · unfold listed
        rw [bump_rows_self]
        exact h.listed
      · rw [bump_rows_self]
        exact h.unqueued
    · rw [bump_rows_self]
      exact hnone
    · exact bump_fresh (h.inv.session x).row
  · exact h.inv

end World

end Potocolom.Realtime
