import Potocolom.Edits.Session

/-! # One placement of a session at a time

While no `reassign` and no `resume_idle` is scheduled under an unfinished placement, a
session has at most one coroutine that places it, every open takes a generation above
those before it, and the session is on the worker of its newest open or on none. `top` is
the generation of that open. -/

namespace Potocolom.Settlement

open Edits (Session Task Attempt Worker Action step)
open Realtime (SessionState Caller)

variable {K V : Type} {s n : Session K V} {t top : Nat} {seed : K}

section Definitions

variable (s : Session K V)

/-- No placement of the session is unfinished. -/
def Quiet : Prop := ∀ t < s.spawned, s.tasks t matches .done

/-- An `update_params` that passes its checks on a protocol 6 worker and is refused at
once, so that the session is reassigned. -/
def RefusesUpdate (seed : K) (params : Dict K V) (valid : Dict K V → Bool) : Prop :=
  (params seed).isSome = false ∧ valid params = true ∧
    valid (s.desiredParams.overlay params) = true ∧
    ∃ w, s.worker = some w ∧ (s.workers w).protocolVersion = 6 ∧
      (s.attemptId = none ∨ ¬ ((s.workers w).granted ∧ (s.workers w).registered))

/-- Whenever a step schedules a `reassign` of a live session or a `resume_idle` of an
idle one, no placement of it is unfinished. -/
def Undisturbed (seed : K) : Action K V → Prop
  | .updateParams params valid => RefusesUpdate s seed params valid → s.state = .live → Quiet s
  | .refuses | .sheds => s.state = .live → Quiet s
  | .sessionRefused w generation =>
    s.worker = some w → s.controlGeneration = generation → s.state = .live → Quiet s
  | .finalizes w => s.worker = some w → s.state = .live → Quiet s
  | .resumesIdle => Quiet s
  | _ => True

/-- What a coroutine relies on. -/
def TaskTurn (top : Nat) : Task K V → Prop
  | .done | .scheduled .reassign => True
  | .scheduled .handler | .scheduled .admission => s.worker = none ∧ top < s.controlGeneration
  | .scheduled .resumeIdle | .interrupting _ _ | .reading _ _ | .read _ _ _ => s.worker = none
  | .placing _ attempt => attempt.started = s.controlGeneration ∧
      (∀ w, s.worker = some w → w = attempt.worker) ∧
      (attempt.phase = .abandoning → s.worker = none)

/-- What holds of the session itself. -/
structure RowTurn (top : Nat) : Prop where
  le : top ≤ s.controlGeneration
  held : ∀ w, s.worker = some w → top = s.controlGeneration
  gone : s.isLive = false → s.state = .ended
  off : s.state = .queued ∨ s.state = .idle ∨ s.state = .ended → s.worker = none

/-- What holds between two steps. -/
structure Turn (top : Nat) : Prop where
  row : RowTurn s top
  waiting : s.state = .queued → top < s.controlGeneration ∧ ∀ t, s.tasks t = .done
  born : ∀ t, s.spawned ≤ t → s.tasks t = .done
  one : ∀ t u, s.tasks t ≠ .done → s.tasks u ≠ .done → t = u
  task : ∀ t, TaskTurn s top (s.tasks t)

/-- The task `t` runs, and it is the only one. -/
structure Runs (top t : Nat) : Prop where
  row : RowTurn s top
  active : s.state ≠ .queued
  born : ∀ u, s.spawned ≤ u → s.tasks u = .done
  lt : t < s.spawned
  alone : ∀ u, u ≠ t → s.tasks u = .done

/-- The newest generation opened, after a step. -/
def newest (top : Nat) : Nat := if s.worker.isSome then s.controlGeneration else top

/-- How a step leaves the session: on no worker, on the one it was on, or on one that it
has just opened, at a generation above all earlier ones. -/
structure Moves (top : Nat) (s n : Session K V) : Prop where
  turn : Turn n (newest n top)
  worker : n.worker = none ∨
    (n.worker = s.worker ∧ n.controlGeneration = s.controlGeneration) ∨ top < n.controlGeneration

end Definitions

/-! ## Steps around the placements -/

theorem RowTurn.newest (h : RowTurn s top) : newest s top = top := by
  unfold Settlement.newest
  cases hw : s.worker with
  | none => rfl
  | some w => exact (h.held w hw).symm

theorem Turn.stays (h : Turn n top) (hworker : n.worker = s.worker)
    (hgeneration : n.controlGeneration = s.controlGeneration) : Moves top s n where
  turn := by
    rw [h.row.newest]
    exact h
  worker := .inr (.inl ⟨hworker, hgeneration⟩)

theorem Turn.leaves (h : Turn n top) (hworker : n.worker = none) : Moves top s n where
  turn := by
    rw [h.row.newest]
    exact h
  worker := .inl hworker

/-- All that the turns read. -/
structure Same (s n : Session K V) : Prop where
  state : n.state = s.state
  isLive : n.isLive = s.isLive
  worker : n.worker = s.worker
  controlGeneration : n.controlGeneration = s.controlGeneration
  tasks : n.tasks = s.tasks
  spawned : n.spawned = s.spawned

theorem Same.taskTurn (h : Same s n) {task : Task K V} (hok : TaskTurn s top task) :
    TaskTurn n top task := by
  unfold TaskTurn at hok ⊢
  rw [h.worker, h.controlGeneration]
  exact hok

theorem Same.rowTurn (h : Same s n) (hrow : RowTurn s top) : RowTurn n top := by
  constructor
  · rw [h.controlGeneration]
    exact hrow.le
  · rw [h.worker, h.controlGeneration]
    exact hrow.held
  · rw [h.isLive, h.state]
    exact hrow.gone
  · rw [h.state, h.worker]
    exact hrow.off

theorem Same.turn (h : Same s n) (hturn : Turn s top) : Turn n top := by
  refine ⟨h.rowTurn hturn.row, ?_, ?_, ?_, ?_⟩
  · rw [h.state, h.controlGeneration, h.tasks]
    exact hturn.waiting
  · rw [h.spawned, h.tasks]
    exact hturn.born
  · rw [h.tasks]
    exact hturn.one
  · rw [h.tasks]
    exact fun t => h.taskTurn (hturn.task t)

theorem Same.moves (h : Same s n) (hturn : Turn s top) : Moves top s n :=
  (h.turn hturn).stays h.worker h.controlGeneration

theorem Same.runs (h : Same s n) (hrun : Runs s top t) : Runs n top t := by
  refine ⟨h.rowTurn hrun.row, ?_, ?_, ?_, ?_⟩
  · rw [h.state]
    exact hrun.active
  · rw [h.spawned, h.tasks]
    exact hrun.born
  · rw [h.spawned]
    exact hrun.lt
  · rw [h.tasks]
    exact hrun.alone

/-- An unfinished task runs alone. -/
theorem Turn.runs (h : Turn s top) (ht : s.tasks t ≠ .done) : Runs s top t where
  row := h.row
  active := fun hqueued => ht ((h.waiting hqueued).2 t)
  born := h.born
  lt := by
    by_contra hge
    exact ht (h.born t (Nat.not_lt.mp hge))
  alone := by
    intro u hne
    by_contra hu
    exact hne (h.one u t hu ht)

/-- The running task comes to its next await, or ends. -/
theorem Runs.put (h : Runs s top t) (task : Task K V) (hok : TaskTurn s top task) :
    Turn (s.put t task) top where
  row := ⟨h.row.le, h.row.held, h.row.gone, h.row.off⟩
  waiting := fun hqueued => absurd hqueued h.active
  born := by
    intro u hu
    have hlt := h.lt
    have hle : s.spawned ≤ u := hu
    show Function.update s.tasks t task u = .done
    rw [Function.update_of_ne (by omega)]
    exact h.born u hle
  one := by
    have hother : ∀ u, (s.put t task).tasks u ≠ .done → u = t := by
      intro u hu
      by_contra hne
      apply hu
      show Function.update s.tasks t task u = .done
      rw [Function.update_of_ne hne]
      exact h.alone u hne
    intro u v hu hv
    rw [hother u hu, hother v hv]
  task := by
    intro u
    show TaskTurn s top (Function.update s.tasks t task u)
    by_cases hu : u = t
    · subst hu
      rw [Function.update_self]
      exact hok
    · rw [Function.update_of_ne hu, h.alone u hu]
      trivial

theorem Quiet.done (h : Quiet s) (hturn : Turn s top) (t : Nat) : s.tasks t = .done := by
  by_cases hlt : t < s.spawned
  · have hdone := h t hlt
    cases htask : s.tasks t with
    | done => rfl
    | _ => simp [htask] at hdone
  · exact hturn.born t (Nat.not_lt.mp hlt)

/-- A task is created while none is unfinished. -/
theorem spawn_turn (hrow : RowTurn s top) (hactive : s.state ≠ .queued)
    (hquiet : ∀ t, s.tasks t = .done) (task : Task K V) (hok : TaskTurn s top task) :
    Turn (s.spawn task) top := by
  have hrun : Runs { s with spawned := s.spawned + 1 } top s.spawned :=
    ⟨⟨hrow.le, hrow.held, hrow.gone, hrow.off⟩, hactive, fun u _ => hquiet u, Nat.lt_succ_self _,
      fun u _ => hquiet u⟩
  exact hrun.put task (by
    unfold TaskTurn at hok ⊢
    exact hok)

/-- The state changes, among those of a session that is in the dictionary. -/
theorem RowTurn.state (h : RowTurn s top) {state : SessionState}
    (hended : s.state = .ended → state = .ended)
    (hoff : state = .queued ∨ state = .idle ∨ state = .ended → s.worker = none) :
    RowTurn ({ s with state := state } : Session K V) top where
  le := h.le
  held := h.held
  gone := fun hgone => hended (h.gone hgone)
  off := hoff

theorem RowTurn.detach (h : RowTurn s top) : RowTurn s.detach top where
  le := h.le
  held := fun w hw => by cases hw
  gone := h.gone
  off := fun _ => rfl

theorem RowTurn.advance (h : RowTurn s top) (hnone : s.worker = none) : RowTurn s.advance top where
  le := Nat.le_succ_of_le h.le
  held := by
    intro w hw
    have hw' : s.worker = some w := hw
    rw [hnone] at hw'
    cases hw'
  gone := h.gone
  off := h.off

theorem Runs.detach (h : Runs s top t) : Runs s.detach top t :=
  ⟨h.row.detach, h.active, h.born, h.lt, h.alone⟩

theorem Runs.advance (h : Runs s top t) (hnone : s.worker = none) : Runs s.advance top t :=
  ⟨h.row.advance hnone, h.active, h.born, h.lt, h.alone⟩

theorem Runs.fresh (h : Runs s top t) : top < s.advance.controlGeneration :=
  Nat.lt_succ_of_le h.row.le

/-! ## Placements -/

/-- The callers of `place_session` go on. A session that is queued by them is on no
worker, at a generation not yet opened. -/
theorem finish_turn (h : Runs s top t) (caller : Caller) (placed : Bool)
    (hqueue : placed = false → s.state = .assigning →
      s.worker = none ∧ top < s.controlGeneration) :
    Turn (s.finish t caller placed) top ∧
      ((s.finish t caller placed).worker = none ∨
        (s.finish t caller placed).worker = s.worker ∧
          (s.finish t caller placed).controlGeneration = s.controlGeneration) := by
  have hdone : Turn (s.put t .done) top := h.put .done trivial
  have hquiet : ∀ u, (s.put t .done).tasks u = .done := by
    intro u
    show Function.update s.tasks t .done u = .done
    by_cases hu : u = t
    · subst hu
      rw [Function.update_self]
    · rw [Function.update_of_ne hu]
      exact h.alone u hu
  have hrequeue : placed = false → Turn (s.put t .done).requeue top ∧
      (s.put t .done).requeue.worker = s.worker ∧
      (s.put t .done).requeue.controlGeneration = s.controlGeneration := by
    intro hplaced
    unfold Session.requeue Session.transition
    split
    · rename_i hassigning
      have hstate : s.state = .assigning := hassigning
      have hfree := hqueue hplaced hstate
      refine ⟨⟨hdone.row.state ?_ fun _ => hfree.1, fun _ => ⟨hfree.2, hquiet⟩, hdone.born,
        hdone.one, hdone.task⟩, rfl, rfl⟩
      intro hended
      have hended' : s.state = .ended := hended
      rw [hstate] at hended'
      cases hended'
    · exact ⟨hdone, rfl, rfl⟩
  have hserve : ∀ r : Session K V, Turn r top →
      Turn ({ r with handler := .serving } : Session K V) top := fun r hr =>
    ⟨⟨hr.row.le, hr.row.held, hr.row.gone, hr.row.off⟩, hr.waiting, hr.born, hr.one, hr.task⟩
  have hdetach : Turn (s.put t .done).detach top := by
    refine ⟨hdone.row.detach, hdone.waiting, hdone.born, hdone.one, ?_⟩
    intro u
    have htask : (s.put t .done).detach.tasks u = .done := hquiet u
    rw [htask]
    trivial
  cases placed with
  | true =>
    cases caller with
    | handler => exact ⟨hserve _ hdone, .inr ⟨rfl, rfl⟩⟩
    | admission | reassign | resumeIdle =>
      simp only [Session.finish, if_true]
      split
      · exact ⟨hdone, .inr ⟨rfl, rfl⟩⟩
      · exact ⟨hdetach, .inl rfl⟩
  | false =>
    have hqueued := hrequeue rfl
    cases caller with
    | handler => exact ⟨hserve _ hqueued.1, .inr ⟨hqueued.2.1, hqueued.2.2⟩⟩
    | admission | reassign | resumeIdle => exact ⟨hqueued.1, .inr hqueued.2⟩

/-- A placement of a session on no worker, at a generation not yet opened. -/
theorem place_turn (h : Runs s top t) (hnone : s.worker = none) (hfresh : top < s.controlGeneration)
    {caller : Caller} {choice : Option Nat} (r : Session K V) :
    Moves top r (s.place t caller choice) := by
  have hfinish : ∀ placed : Bool, Moves top r (s.finish t caller placed) := by
    intro placed
    have hend := finish_turn h caller placed fun _ _ => ⟨hnone, hfresh⟩
    apply hend.1.leaves
    rcases hend.2 with hw | ⟨hw, _⟩
    · exact hw
    · rw [hw]
      exact hnone
  unfold Session.place
  split
  · rename_i hlive
    split
    · rename_i w _
      -- the open takes the generation, and the session is on its worker
      have hrow : ∀ opened : Session K V, opened.state = s.state → opened.isLive = s.isLive →
          opened.controlGeneration = s.controlGeneration → opened.worker = some w →
          opened.tasks = s.tasks → opened.spawned = s.spawned →
          Runs opened s.controlGeneration t := by
        intro opened hstate hisLive hgeneration hworker htasks hspawned
        refine ⟨⟨by rw [hgeneration], fun _ _ => hgeneration.symm, ?_, ?_⟩, ?_, ?_, ?_, ?_⟩
        · rw [hisLive, hstate]
          exact h.row.gone
        · rw [hstate, hlive.2]
          rintro (hoff | hoff | hoff) <;> cases hoff
        · rw [hstate]
          exact h.active
        · rw [hspawned, htasks]
          exact h.born
        · rw [hspawned]
          exact h.lt
        · rw [htasks]
          exact h.alone
      have hopened : ∀ (opened : Session K V) (attempt : Attempt K V),
          Runs opened s.controlGeneration t → opened.worker = some w →
          opened.controlGeneration = s.controlGeneration → attempt.worker = w →
          attempt.started = s.controlGeneration → attempt.phase ≠ .abandoning →
          Moves top r (opened.put t (.placing caller attempt)) := by
        intro opened attempt hrun hworker hgeneration hsame hstarted hphase
        have hok : TaskTurn opened s.controlGeneration (.placing caller attempt) := by
          refine ⟨hstarted.trans hgeneration.symm, ?_, fun hp => absurd hp hphase⟩
          intro w' hw'
          rw [hworker] at hw'
          cases hw'
          exact hsame.symm
        have hnew : newest (opened.put t (.placing caller attempt)) top = s.controlGeneration := by
          have hput : (opened.put t (.placing caller attempt)).worker = some w := hworker
          unfold newest
          rw [hput]
          exact hgeneration
        refine ⟨?_, .inr (.inr ?_)⟩
        · rw [hnew]
          exact hrun.put _ hok
        · show top < opened.controlGeneration
          rw [hgeneration]
          exact hfresh
      unfold Session.assign
      dsimp only
      split
      · exact hopened _ _ (hrow _ rfl rfl rfl rfl rfl rfl) rfl rfl rfl rfl (by simp)
      · exact hopened _ _ (hrow _ rfl rfl rfl rfl rfl rfl) rfl rfl rfl rfl (by simp)
    · exact hfinish false
  · exact hfinish _

/-- `place_session` after an `assign` that has left its worker, or made it live. -/
theorem assigned_turn (h : Runs s top t) {caller : Caller} {started : Nat} {ok : Bool}
    {choice : Option Nat} (hstarted : started = s.controlGeneration)
    (hnone : ok = false → s.state ≠ .live → s.worker = none) {r : Session K V}
    (hworker : s.worker = none ∨
      s.worker = r.worker ∧ s.controlGeneration = r.controlGeneration) :
    Moves top r (s.assigned t caller started ok choice) := by
  have hfinish : ∀ placed : Bool, (placed = false → s.state ≠ .assigning) →
      Moves top r (s.finish t caller placed) := by
    intro placed hplaced
    have hend := finish_turn h caller placed
      fun hfalse hassigning => absurd hassigning (hplaced hfalse)
    rcases hend.2 with hw | ⟨hw, hg⟩
    · exact hend.1.leaves hw
    · rcases hworker with hnone | ⟨hsame, hgeneration⟩
      · exact hend.1.leaves (hw.trans hnone)
      · exact hend.1.stays (hw.trans hsame) (hg.trans hgeneration)
  unfold Session.assigned
  split
  · exact hfinish true (by simp)
  rename_i hnot
  split
  · rename_i hgone
    refine hfinish false fun _ hassigning => ?_
    rcases hgone with hgone | hgone
    · have hended := h.row.gone (by simpa using hgone)
      rw [hassigning] at hended
      cases hended
    · exact hgone hassigning
  · have hfree : s.worker = none := by
      apply hnone
      · by_contra hok
        exact hnot (.inl (by simpa using hok))
      · exact fun hlive => hnot (.inr hlive)
    rw [if_pos hstarted.symm]
    exact place_turn (h.advance hfree) hfree h.fresh r

theorem giveUp_turn (h : Runs s top t) {caller : Caller} {attempt : Attempt K V}
    {choice : Option Nat} (hstarted : attempt.started = s.controlGeneration)
    (hheld : ∀ w, s.worker = some w → w = attempt.worker) (r : Session K V) :
    Moves top r (s.giveUp t caller attempt choice) := by
  unfold Session.giveUp
  split
  · apply (h.detach.put _ ?_).leaves rfl
    exact ⟨hstarted, fun w hw => (by cases hw), fun _ => rfl⟩
  · rename_i hnot
    have hnone : s.worker = none := by
      cases hw : s.worker with
      | none => rfl
      | some w =>
        obtain rfl := hheld w hw
        exact absurd hw hnot
    exact assigned_turn h hstarted (fun _ _ => hnone) (.inl hnone)

theorem woken_turn (h : Runs s top t) {caller : Caller} {attempt : Attempt K V}
    {choice : Option Nat} (hstarted : attempt.started = s.controlGeneration)
    (hheld : ∀ w, s.worker = some w → w = attempt.worker) :
    Moves top s (s.woken t caller attempt choice) := by
  unfold Session.woken
  rw [if_neg (not_not_intro hstarted.symm)]
  split
  · have hlive : Runs (s.transition .assigning .live) top t := by
      unfold Session.transition
      split
      · rename_i hassigning
        refine ⟨h.row.state ?_ ?_, by simp, h.born, h.lt, h.alone⟩
        · intro hended
          rw [hassigning] at hended
          cases hended
        · rintro (hoff | hoff | hoff) <;> cases hoff
      · exact h
    have hkept : (s.transition .assigning .live).worker = s.worker ∧
        (s.transition .assigning .live).controlGeneration = s.controlGeneration := by
      unfold Session.transition
      split
      · exact ⟨rfl, rfl⟩
      · exact ⟨rfl, rfl⟩
    exact assigned_turn hlive (hstarted.trans hkept.2.symm) (by simp) (.inr hkept)
  · exact giveUp_turn h hstarted hheld s

theorem reopen_turn (h : Runs s top t) (hnone : s.worker = none) {snapshot : Nat}
    {committed : Option (Dict K V × Nat)} {choice : Option Nat} (r : Session K V) :
    Moves top r (s.reopen t snapshot committed choice) := by
  have hplace : ∀ read : Session K V, Same s read →
      Moves top r (read.advance.place t .reassign choice) := by
    intro read hsame
    have hrun := hsame.runs h
    have hfree : read.worker = none := hsame.worker.trans hnone
    exact place_turn (hrun.advance hfree) hfree hrun.fresh r
  unfold Session.reopen
  dsimp only
  apply hplace
  split
  · split
    · constructor <;> rfl
    · constructor <;> rfl
  · constructor <;> rfl

/-- A created task starts. -/
theorem start_turn (h : Runs s top t) {caller : Caller} {choice : Option Nat}
    (hok : TaskTurn s top (.scheduled caller)) : Moves top s (s.start t caller choice) := by
  cases caller with
  | handler | admission => exact place_turn h hok.1 hok.2 s
  | resumeIdle =>
    have hnone : s.worker = none := hok
    unfold Session.start
    dsimp only
    split
    · exact place_turn (h.advance hnone) hnone h.fresh s
    · exact (h.put .done trivial).stays rfl rfl
  | reassign =>
    unfold Session.start
    dsimp only
    split
    · exact (h.put .done trivial).stays rfl rfl
    · rename_i hstate
      have hnext : Runs ({ s with state := .assigning } : Session K V) top t := by
        refine ⟨h.row.state ?_ ?_, by simp, h.born, h.lt, h.alone⟩
        · intro hended
          exact absurd ⟨by simp [hended], by simp [hended]⟩ hstate
        · rintro (hoff | hoff | hoff) <;> cases hoff
      split
      · apply (hnext.detach.put _ ?_).leaves rfl
        exact rfl
      · rename_i hnone
        split
        · exact (hnext.put (.reading s.controlGeneration s.desiredId) hnone).leaves hnone
        · exact (hnext.put .done trivial).leaves hnone

/-! ## Every step -/

/-- `schedule_reassign`, with no placement unfinished. -/
theorem scheduleReassign_turn (h : Turn s top) (hquiet : s.state = .live → Quiet s) :
    Moves top s s.scheduleReassign := by
  unfold Session.scheduleReassign
  split
  · rename_i hlive
    have hrow : RowTurn ({ s with state := .assigning } : Session K V) top := by
      refine h.row.state ?_ ?_
      · intro hended
        rw [hlive] at hended
        cases hended
      · rintro (hoff | hoff | hoff) <;> cases hoff
    have hspawn : Turn (({ s with state := .assigning } : Session K V).spawn
        (.scheduled .reassign)) top :=
      spawn_turn hrow (by simp) ((hquiet hlive).done h) (.scheduled .reassign) trivial
    exact hspawn.stays rfl rfl
  · exact h.stays rfl rfl

theorem Same.scheduleReassign (hsame : Same s n) (h : Turn s top)
    (hquiet : s.state = .live → Quiet s) : Moves top s n.scheduleReassign := by
  have hquiet' : n.state = .live → Quiet n := by
    unfold Quiet
    rw [hsame.state, hsame.spawned, hsame.tasks]
    exact hquiet
  have hmoves := scheduleReassign_turn (hsame.turn h) hquiet'
  refine ⟨hmoves.turn, ?_⟩
  rw [← hsame.worker, ← hsame.controlGeneration]
  exact hmoves.worker

/-- The session gives up its worker, and does not wait for another. -/
theorem Turn.left (h : Turn s top) {left : Session K V} (hstate : left.state ≠ .queued)
    (hgone : left.isLive = false → left.state = .ended) (hworker : left.worker = none)
    (hgeneration : left.controlGeneration = s.controlGeneration)
    (htasks : left.tasks = s.tasks) (hspawned : left.spawned = s.spawned) : Moves top s left := by
  refine Turn.leaves ⟨⟨?_, ?_, hgone, fun _ => hworker⟩, ?_, ?_, ?_, ?_⟩ hworker
  · rw [hgeneration]
    exact h.row.le
  · intro w hw
    rw [hworker] at hw
    cases hw
  · exact fun hqueued => absurd hqueued hstate
  · rw [hspawned, htasks]
    exact h.born
  · rw [htasks]
    exact h.one
  · intro t
    have hold := h.task t
    rw [htasks]
    cases htask : s.tasks t with
    | done => trivial
    | scheduled caller =>
      rw [htask] at hold
      cases caller with
      | handler | admission =>
        refine ⟨hworker, ?_⟩
        rw [hgeneration]
        exact hold.2
      | reassign => trivial
      | resumeIdle => exact hworker
    | interrupting _ _ | reading _ _ | read _ _ _ => exact hworker
    | placing _ attempt =>
      rw [htask] at hold
      refine ⟨?_, ?_, fun _ => hworker⟩
      · rw [hgeneration]
        exact hold.1
      · intro w hw
        rw [hworker] at hw
        cases hw

/-- What an unfinished task relies on, as it goes on. -/
theorem Turn.at {task : Task K V} (h : Turn s top) (ht : s.tasks t = task) (hne : task ≠ .done) :
    Runs s top t ∧ TaskTurn s top task := by
  refine ⟨h.runs (by rwa [ht]), ?_⟩
  rw [← ht]
  exact h.task t

theorem tearDown_turn (h : Turn s top) : Moves top s s.tearDown :=
  h.left (by simp [Session.tearDown]) (fun _ => rfl) rfl rfl rfl rfl

theorem updateParams_turn {params : Dict K V} {valid : Dict K V → Bool} (h : Turn s top)
    (hquiet : RefusesUpdate s seed params valid → s.state = .live → Quiet s) :
    Moves top s (s.updateParams seed params valid) := by
  unfold Session.updateParams
  split
  · exact h.stays rfl rfl
  rename_i hseed
  split
  · exact h.stays rfl rfl
  rename_i hvalid
  split
  · exact h.stays rfl rfl
  rename_i hmerged
  unfold Session.accept
  dsimp only
  split
  · exact Same.moves (by constructor <;> rfl) h
  · rename_i w hw
    have hworker : s.worker = some w := hw
    split
    · rename_i hprotocol
      have hrefused : (s.attemptId = none ∨
          ¬ ((s.workers w).granted ∧ (s.workers w).registered)) → ∀ t : Session K V, Same s t →
          Moves top s (t.refused (s.desiredParams.overlay params)) := by
        intro hno t hsame
        have hquiet' := hquiet ⟨by simpa using hseed, by simpa using hvalid, by simpa using hmerged,
          w, hworker, hprotocol, hno⟩
        have hbecome : Same s (t.become (s.desiredParams.overlay params)) :=
          ⟨hsame.state, hsame.isLive, hsame.worker, hsame.controlGeneration, hsame.tasks,
            hsame.spawned⟩
        have hmoves := hbecome.scheduleReassign h hquiet'
        exact ⟨Same.turn (by constructor <;> rfl) hmoves.turn, hmoves.worker⟩
      unfold Session.sendUpdate
      split
      · split
        · unfold Session.reserve
          split
          · exact Same.moves (by constructor <;> rfl) h
          split
          · exact Same.moves (by constructor <;> rfl) h
          split
          · exact Same.moves (by constructor <;> rfl) h
          · exact Same.moves (by constructor <;> rfl) h
        · rename_i hno
          exact hrefused (.inr hno) _ (by constructor <;> rfl)
      · rename_i hno
        exact hrefused (.inl hno) _ (by constructor <;> rfl)
    · exact Same.moves (by constructor <;> rfl) h

/-- Every step of an undisturbed run keeps the turns. -/
theorem step_turn {a : Action K V} (h : Turn s top) (hok : Undisturbed s seed a)
    (hstep : step seed s a = some n) : Moves top s n := by
  have hsame : ∀ {n : Session K V}, Same s n → Moves top s n := fun hs => hs.moves h
  have hkeep : ∀ (task : Task K V) {t : Nat}, Runs s top t → TaskTurn s top task →
      Moves top s (s.put t task) := fun task _ hrun htask => (hrun.put task htask).stays rfl rfl
  cases a with
  | updateParams params valid =>
    simp only [step] at hstep
    split at hstep
    · obtain rfl := Option.some.inj hstep
      exact updateParams_turn h hok
    · cases hstep
  | turns =>
    simp only [step] at hstep
    split at hstep
    · split at hstep
      · obtain rfl := Option.some.inj hstep
        exact hsame (by constructor <;> rfl)
      · obtain rfl := Option.some.inj hstep
        unfold Session.reserve
        split
        · exact hsame (by constructor <;> rfl)
        split
        · exact hsame (by constructor <;> rfl)
        split
        · exact hsame (by constructor <;> rfl)
        · exact hsame (by constructor <;> rfl)
    · cases hstep
  | delivers =>
    simp only [step] at hstep
    split at hstep
    · split at hstep
      · obtain rfl := Option.some.inj hstep
        exact hsame (by constructor <;> rfl)
      · obtain rfl := Option.some.inj hstep
        exact hsame (by constructor <;> rfl)
    · cases hstep
  | refuses =>
    simp only [step] at hstep
    split at hstep
    · rename_i edit _
      obtain rfl := Option.some.inj hstep
      have hbecome : Same s (s.become edit.merged) := (by constructor <;> rfl)
      have hmoves := hbecome.scheduleReassign h hok
      exact ⟨Same.turn (by constructor <;> rfl) hmoves.turn, hmoves.worker⟩
    · cases hstep
  | commits =>
    simp only [step] at hstep
    split at hstep
    · split at hstep
      · obtain rfl := Option.some.inj hstep
        exact hsame (by constructor <;> rfl)
      · cases hstep
    · cases hstep
  | mirrors =>
    simp only [step] at hstep
    split at hstep
    · obtain rfl := Option.some.inj hstep
      unfold Session.mirrorDesired
      split
      · exact hsame (by constructor <;> rfl)
      · exact hsame (by constructor <;> rfl)
    · cases hstep
  | delivered | relayed =>
    simp only [step] at hstep
    split at hstep
    · obtain rfl := Option.some.inj hstep
      exact hsame (by constructor <;> rfl)
    · cases hstep
  | resumesIdle =>
    simp only [step] at hstep
    split at hstep
    · split at hstep
      · rename_i hidle
        obtain rfl := Option.some.inj hstep
        have hnone := h.row.off (.inr (.inl hidle))
        have hrow : RowTurn ({ s with state := .assigning } : Session K V) top := by
          refine h.row.state ?_ fun _ => hnone
          intro hended
          rw [hidle] at hended
          cases hended
        have hspawn : Turn (({ s with state := .assigning } : Session K V).spawn
            (.scheduled .resumeIdle)) top :=
          spawn_turn hrow (by simp) (Quiet.done (s := s) hok h) (.scheduled .resumeIdle)
            hnone
        exact hspawn.leaves hnone
      · cases hstep
    · cases hstep
  | leaves =>
    simp only [step] at hstep
    split at hstep
    · obtain rfl := Option.some.inj hstep
      exact tearDown_turn h
    · cases hstep
  | revoked =>
    simp only [step] at hstep
    split at hstep
    · obtain rfl := Option.some.inj hstep
      exact h.left (by simp [Session.log]) (fun _ => rfl) rfl rfl rfl rfl
    · obtain rfl := Option.some.inj hstep
      exact h.left (by simp) (fun _ => rfl) rfl rfl rfl rfl
  | registers worker =>
    obtain rfl := Option.some.inj hstep
    exact hsame (by constructor <;> rfl)
  | grants w granted =>
    obtain rfl := Option.some.inj hstep
    exact hsame (by constructor <;> rfl)
  | occupies w busy =>
    obtain rfl := Option.some.inj hstep
    exact hsame (by constructor <;> rfl)
  | forgets w =>
    obtain rfl := Option.some.inj hstep
    exact hsame (by constructor <;> rfl)
  | closesAdmission w =>
    obtain rfl := Option.some.inj hstep
    exact hsame (by constructor <;> rfl)
  | finalizes w =>
    simp only [step] at hstep
    split at hstep
    · cases hstep
    · obtain rfl := Option.some.inj hstep
      unfold Session.orphan
      split
      · rename_i hw
        split
        · exact hsame (by constructor <;> rfl)
        · exact scheduleReassign_turn h (hok hw)
      · exact h.stays rfl rfl
  | stops =>
    obtain rfl := Option.some.inj hstep
    exact hsame (by constructor <;> rfl)
  | sheds =>
    obtain rfl := Option.some.inj hstep
    exact scheduleReassign_turn h hok
  | sessionReady w generation =>
    simp only [step] at hstep
    split at hstep
    · rename_i hcurrent
      obtain rfl := Option.some.inj hstep
      have hrow : RowTurn ({ s with state := .live } : Session K V) top := by
        refine h.row.state ?_ ?_
        · intro hended
          rw [hcurrent.2.2] at hended
          cases hended
        · rintro (hoff | hoff | hoff) <;> cases hoff
      have hturn : Turn ({ s with state := .live, attemptOk := true } : Session K V) top :=
        ⟨⟨hrow.le, hrow.held, hrow.gone, hrow.off⟩, (by simp), h.born, h.one, h.task⟩
      exact hturn.stays rfl rfl
    · cases hstep
  | sessionRefused w generation =>
    simp only [step] at hstep
    split at hstep
    · rename_i hcurrent
      split at hstep
      · obtain rfl := Option.some.inj hstep
        exact hsame (by constructor <;> rfl)
      · obtain rfl := Option.some.inj hstep
        exact scheduleReassign_turn h (hok hcurrent.1 hcurrent.2)
    · cases hstep
  | releasesIdle =>
    simp only [step] at hstep
    split at hstep
    · rename_i hlive
      obtain rfl := Option.some.inj hstep
      refine h.left (by simp) ?_ rfl rfl rfl rfl
      intro hgone
      have hended := h.row.gone hgone
      rw [hlive] at hended
      cases hended
    · cases hstep
  | admits =>
    simp only [step] at hstep
    split at hstep
    · rename_i hqueued
      obtain rfl := Option.some.inj hstep
      have hnone := h.row.off (.inl hqueued)
      have hfresh := h.waiting hqueued
      have hrow : RowTurn ({ s with state := .assigning } : Session K V) top := by
        refine h.row.state ?_ fun _ => hnone
        intro hended
        rw [hqueued] at hended
        cases hended
      have hspawn : Turn (({ s with state := .assigning } : Session K V).spawn
          (.scheduled .admission)) top :=
        spawn_turn hrow (by simp) hfresh.2 (.scheduled .admission) ⟨hnone, hfresh.1⟩
      exact hspawn.leaves hnone
    · cases hstep
  | endsAttempt generation =>
    obtain rfl := Option.some.inj hstep
    exact hsame (by constructor <;> rfl)
  | starts t choice =>
    simp only [step] at hstep
    split at hstep
    · rename_i caller ht
      obtain rfl := Option.some.inj hstep
      rcases h.at ht (by simp) with ⟨hrun, hok'⟩
      exact start_turn hrun hok'
    · cases hstep
  | interrupted t =>
    simp only [step] at hstep
    split at hstep
    · rename_i generation snapshot ht
      rcases h.at ht (by simp) with ⟨hrun, hnone⟩
      split at hstep
      · obtain rfl := Option.some.inj hstep
        exact hkeep (.reading generation snapshot) hrun hnone
      · obtain rfl := Option.some.inj hstep
        exact hkeep .done hrun trivial
    · cases hstep
  | reads t =>
    simp only [step] at hstep
    split at hstep
    · rename_i generation snapshot ht
      obtain rfl := Option.some.inj hstep
      rcases h.at ht (by simp) with ⟨hrun, hnone⟩
      exact hkeep (.read generation snapshot _) hrun hnone
    · cases hstep
  | reopens t choice =>
    simp only [step] at hstep
    split at hstep
    · rename_i _ snapshot committed ht
      obtain rfl := Option.some.inj hstep
      rcases h.at ht (by simp) with ⟨hrun, hnone⟩
      exact reopen_turn hrun hnone s
    · cases hstep
  | openCommits t =>
    simp only [step] at hstep
    split at hstep
    · rename_i caller attempt ht
      split at hstep
      · obtain rfl := Option.some.inj hstep
        rcases h.at ht (by simp) with ⟨hrun, hstarted, hheld, _⟩
        have hput : Turn (s.put t (.placing caller { attempt with phase := .opened })) top :=
          hrun.put _ ⟨hstarted, hheld, fun hp => (by cases hp)⟩
        exact (Same.turn (n := { s.put t (.placing caller { attempt with phase := .opened }) with
          row := _, attempts := _ }) (by constructor <;> rfl) hput).stays rfl rfl
      · cases hstep
    · cases hstep
  | openSent t =>
    simp only [step] at hstep
    split at hstep
    · rename_i caller attempt ht
      rcases h.at ht (by simp) with ⟨hrun, hstarted, hheld, _⟩
      have hphase : ∀ phase : Edits.Phase, phase ≠ .abandoning →
          Moves top s (s.put t (.placing caller { attempt with phase := phase })) := fun phase hne =>
        hkeep (.placing caller { attempt with phase := phase }) hrun
          ⟨hstarted, hheld, fun hp => absurd hp hne⟩
      split at hstep
      · obtain rfl := Option.some.inj hstep
        unfold Session.sent
        split
        · exact hphase .withdrawing (by simp)
        · exact hphase .waiting (by simp)
      · obtain rfl := Option.some.inj hstep
        unfold Session.sent
        split
        · exact hphase .withdrawing (by simp)
        · exact hphase .waiting (by simp)
      · obtain rfl := Option.some.inj hstep
        exact hphase .waiting (by simp)
      · cases hstep
    · cases hstep
  | openFails t choice =>
    simp only [step] at hstep
    split at hstep
    · rename_i caller attempt ht
      rcases h.at ht (by simp) with ⟨hrun, hstarted, hheld, _⟩
      split at hstep
      · obtain rfl := Option.some.inj hstep
        have hcleared : Same s ({ s with attemptId := none } : Session K V) :=
          (by constructor <;> rfl)
        exact giveUp_turn (hcleared.runs hrun) hstarted hheld s
      · obtain rfl := Option.some.inj hstep
        exact giveUp_turn hrun hstarted hheld s
      · cases hstep
    · cases hstep
  | wakes t choice =>
    simp only [step] at hstep
    split at hstep
    · rename_i caller attempt ht
      rcases h.at ht (by simp) with ⟨hrun, hstarted, hheld, _⟩
      split at hstep
      · obtain rfl := Option.some.inj hstep
        exact woken_turn hrun hstarted hheld
      · cases hstep
    · cases hstep
  | timesOut t choice =>
    simp only [step] at hstep
    split at hstep
    · rename_i caller attempt ht
      rcases h.at ht (by simp) with ⟨hrun, hstarted, hheld, _⟩
      split at hstep
      · obtain rfl := Option.some.inj hstep
        exact giveUp_turn hrun hstarted hheld s
      · cases hstep
    · cases hstep
  | abandoned t choice =>
    simp only [step] at hstep
    split at hstep
    · rename_i caller attempt ht
      rcases h.at ht (by simp) with ⟨hrun, hstarted, hheld, hfree⟩
      split at hstep
      · split at hstep
        · obtain rfl := Option.some.inj hstep
          exact assigned_turn hrun.detach hstarted (fun _ _ => rfl) (.inl rfl)
        · rename_i hnot
          obtain rfl := Option.some.inj hstep
          have hnone : s.worker = none := by
            cases hw : s.worker with
            | none => rfl
            | some w =>
              obtain rfl := hheld w hw
              exact absurd hw hnot
          exact assigned_turn hrun hstarted (fun _ _ => hnone) (.inl hnone)
      · rename_i hphase
        obtain rfl := Option.some.inj hstep
        have hnone := hfree hphase
        exact assigned_turn hrun hstarted (fun _ _ => hnone) (.inl hnone)
      · cases hstep
    · cases hstep
  | raises t =>
    simp only [step] at hstep
    split at hstep
    · rename_i attempt ht
      obtain rfl := Option.some.inj hstep
      rcases h.at ht (by simp) with ⟨hrun, _⟩
      have hdead : Runs s.tearDown top t := by
        have hleft := tearDown_turn h
        have hnew : newest s.tearDown top = top := rfl
        have hturn := hleft.turn
        rw [hnew] at hturn
        exact ⟨hturn.row, by simp [Session.tearDown], hrun.born, hrun.lt, hrun.alone⟩
      exact (hdead.put .done trivial).leaves rfl
    all_goals first
      | (rename_i ht
         obtain rfl := Option.some.inj hstep
         rcases h.at ht (by simp) with ⟨hrun, _⟩
         exact hkeep .done hrun trivial)
      | cases hstep

theorem opened_turn (params : Dict K V) : Turn (Edits.opened params) 0 := by
  refine ⟨⟨Nat.zero_le _, fun w hw => (by cases hw), fun hgone => (by cases hgone), fun _ => rfl⟩,
    fun hqueued => (by cases hqueued), ?_, ?_, ?_⟩
  · intro t ht
    have hpos : t ≠ 0 := by
      have hle : 1 ≤ t := ht
      omega
    exact if_neg hpos
  · have hfirst : ∀ t, (Edits.opened params).tasks t ≠ .done → t = 0 := by
      intro t ht
      by_contra hne
      exact ht (if_neg hne)
    intro t u ht hu
    rw [hfirst t ht, hfirst u hu]
  · intro t
    by_cases ht : t = 0
    · subst ht
      exact ⟨rfl, Nat.zero_lt_one⟩
    · have hdone : (Edits.opened params).tasks t = .done := if_neg ht
      rw [hdone]
      trivial

end Potocolom.Settlement
