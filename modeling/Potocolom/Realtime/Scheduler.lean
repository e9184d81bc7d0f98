import Potocolom.Realtime.Types

/-! # The functions of the scheduler

Each function below is what its namesake does from one `await` to the next. A running
coroutine leaves the world as the next `await` finds it; where it can stop at one, the
result says at which. -/

namespace Potocolom.Realtime

namespace World

variable (s : World)

/-- `session.is_live`: the session is in the dictionary. -/
def isLive (x : Nat) : Prop := x ∈ s.sessions

instance (x : Nat) : Decidable (s.isLive x) := by
  unfold isLive
  infer_instance

/-- Write the row of `x`. -/
def setRow (x : Nat) (f : Session → Session) : World :=
  { s with rows := Function.update s.rows x (f (s.rows x)) }

/-- Write the worker object `w`. -/
def setWorker (w : Nat) (f : Worker → Worker) : World :=
  { s with workers := Function.update s.workers w (f (s.workers w)) }

/-- Where the task `t` stands. -/
def put (t : Nat) (task : Task) : World :=
  { s with tasks := Function.update s.tasks t task }

/-- `asyncio.create_task`. -/
def spawn (task : Task) : World :=
  { s.put s.spawned task with spawned := s.spawned + 1 }

/-- `transition`; `none` when it fails. An ended session absorbs it. -/
def transition (x : Nat) (expected : List SessionState) (new : SessionState) : Option World :=
  if (s.rows x).state ≠ .ended ∧ (s.rows x).state ∈ expected then
    some (s.setRow x ({ · with state := new }))
  else none

/-- `transition`, its answer ignored. -/
def transition! (x : Nat) (expected : List SessionState) (new : SessionState) : World :=
  (s.transition x expected new).getD s

/-- `session.worker = worker` and `worker.slots_in_use += 1`. -/
def take (x w : Nat) : World :=
  (s.setRow x ({ · with worker := some w })).setWorker w
    fun worker => { worker with slotsInUse := worker.slotsInUse + 1 }

/-- `worker.slots_in_use -= 1` and `session.worker = None`, for the session's worker. -/
def drop (x : Nat) : World :=
  match (s.rows x).worker with
  | some w =>
    (s.setRow x ({ · with worker := none })).setWorker w
      fun worker => { worker with slotsInUse := worker.slotsInUse - 1 }
  | none => s

/-- `session.ready.set()`. -/
def setReady (x : Nat) : World :=
  { s.setRow x ({ · with ready := true }) with tasks := fun t => (s.tasks t).wake x }

/-- `session.control_generation += 1`; the parameters reset with it are not kept. -/
def bump (x : Nat) : World :=
  s.setRow x fun row => { row with controlGeneration := row.controlGeneration + 1 }

/-! ## Choosing a worker -/

/-- `session_counts_on_worker`: the models of the sessions on `w`. -/
def modelsOnWorker (w : Nat) (excluding : List Nat) : List String :=
  (s.sessions.filter fun x => (s.rows x).worker = some w ∧ x ∉ excluding).map
    fun x => (s.rows x).modelId

/-- `class_admission_cost`. -/
def classAdmissionCost (worker : Worker) (models : List String) : Nat :=
  (models.dedup.map fun model =>
    let count := models.count model
    match worker.admissionBatchMs.lookup model with
    | some curve => (curve[count - 1]?).getD (realtimeBarMs + 1)
    | none =>
      match worker.admissionP95Ms.bind (·.lookup model) with
      | some p95 => count * p95
      | none => 0).sum

/-- `live_admission_cost`. -/
def liveAdmissionCost (w : Nat) (extra : List String) (excluding : List Nat) : Nat :=
  match (s.workers w).admissionP95Ms with
  | none => 0
  | some _ => classAdmissionCost (s.workers w) (s.modelsOnWorker w excluding ++ extra)

/-- The rank `pick_worker` gives a worker, if it can take the model. -/
def rank (modelId : String) (excludeIds : List String) (w : Nat) : Option Int :=
  let worker := s.workers w
  if worker.id ∈ excludeIds ∨ modelId ∉ worker.models then none
  else
    match worker.admissionP95Ms with
    | none => if 0 < worker.freeSlots then some worker.freeSlots else none
    | some p95 =>
      if modelId ∉ p95.map (·.1) then none
      else
        let cost := s.liveAdmissionCost w [modelId] []
        if cost ≤ realtimeBarMs then some ((realtimeBarMs - cost : Nat) : Int) else none

/-- `max(ranked, key=…)`: the first of the highest. -/
def best : List (Int × Nat) → Option (Int × Nat)
  | [] => none
  | first :: rest =>
    match best rest with
    | some other => if first.1 < other.1 then some other else some first
    | none => some first

/-- `pick_worker`. -/
def pickWorker (modelId : String) (excludeIds : List String) : Option Nat :=
  (best (s.registered.filterMap fun w => (s.rank modelId excludeIds w).map (·, w))).map (·.2)

/-- `model_known`. -/
def modelKnown (modelId : String) : Bool :=
  s.registered.any fun w => decide (modelId ∈ (s.workers w).models)

/-! ## The queue -/

/-- `queued_sessions`. -/
def queuedSessions : List Nat :=
  (s.sessions.filter fun x => (s.rows x).state = .queued).insertionSort
    fun x y => (s.rows x).queuedAt.getD 0 ≤ (s.rows y).queuedAt.getD 0

/-- `requeue`; `none` when it fails. -/
def requeue (x : Nat) : Option World :=
  (s.transition x [.assigning] .queued).map fun s =>
    s.setRow x fun row => { row with queuedAt := some (row.queuedAt.getD s.now) }

/-- One queued session of `admit_queued`. -/
def admitOne (x : Nat) : World :=
  if s.pickWorker (s.rows x).modelId [] = none then s
  else
    match s.transition x [.queued] .assigning with
    | some s => s.spawn (.scheduled .admission x)
    | none => s

/-- `admit_queued`. -/
def admitQueued : World :=
  s.queuedSessions.foldl admitOne s

/-! ## Giving a slot back -/

/-- `release` up to its send; true when it stops there. -/
def release (x : Nat) : World × Bool :=
  match (s.rows x).worker with
  | none => (s.admitQueued, false)
  | some w => if w ∈ s.registered then (s.drop x, true) else ((s.drop x).admitQueued, false)

/-- `release` as the last thing the task `t` does. -/
def releaseLast (t x : Nat) : World :=
  let (s, awaits) := s.release x
  s.put t (if awaits then .releasing else .done)

/-- Take the session out of the dictionary. -/
def unregister (x : Nat) : World := { s with sessions := s.sessions.filter (· ≠ x) }

/-- Take the session out of the dictionary and end it. -/
def pop (x : Nat) : World :=
  (s.unregister x).transition! x [.queued, .assigning, .live, .idle] .ended

/-- `schedule_reassign`. -/
def scheduleReassign (x : Nat) : World :=
  match s.transition x [.live] .assigning with
  | some s => s.spawn (.scheduled .reassign x)
  | none => s

/-- `schedule_resume_idle`. -/
def scheduleResumeIdle (x : Nat) : World :=
  match s.transition x [.idle] .assigning with
  | some s => s.spawn (.scheduled .resumeIdle x)
  | none => s

/-! ## Placing a session -/

end World

/-- Where a placement has got: it answered, or it stands at an `await`. -/
inductive Placed where
  | returned (ok : Bool)
  | suspended (attempt : Attempt)

namespace World

variable (s : World)

/-- `assign` up to the send of its open. -/
def assign (x w : Nat) : World :=
  let s := (s.take x w).setRow x ({ · with ready := false, attemptOk := false })
  { s with opens := s.opens ++ [⟨x, (s.rows x).controlGeneration, w⟩] }

/-- `place_session` from the head of its loop. -/
def place (x : Nat) (skipped : List String) : World × Placed :=
  if s.isLive x ∧ (s.rows x).state = .assigning then
    match s.pickWorker (s.rows x).modelId skipped with
    | none => (s, .returned false)
    | some w =>
      (s.assign x w, .suspended ⟨w, (s.rows x).controlGeneration, skipped, .sending⟩)
  else (s, .returned (decide ((s.rows x).state = .live)))

/-- `place_session` from the answer of `assign`. -/
def assigned (x : Nat) (attempt : Attempt) (ok : Bool) : World × Placed :=
  if ok = true ∨ (s.rows x).state = .live then (s, .returned true)
  else if ¬ s.isLive x ∨ (s.rows x).state ≠ .assigning then (s, .returned false)
  else
    let skipped := (s.workers attempt.worker).id :: attempt.skipped
    let s := if (s.rows x).controlGeneration = attempt.started then s.bump x else s
    s.place x skipped

/-- `assign` gives up: the slot back, if it is still this attempt's, and notice to a
worker that is still connected. -/
def giveUp (x : Nat) (attempt : Attempt) : World × Placed :=
  if (s.rows x).worker = some attempt.worker then
    let s := s.drop x
    if attempt.worker ∈ s.registered then
      (s, .suspended { attempt with phase := .abandoning })
    else s.assigned x attempt false
  else s.assigned x attempt false

/-- `assign` after its wait. -/
def woken (x : Nat) (attempt : Attempt) : World × Placed :=
  if (s.rows x).controlGeneration ≠ attempt.started then
    s.assigned x attempt (decide ((s.rows x).state = .live))
  else if (s.rows x).attemptOk = true ∧ (s.rows x).worker = some attempt.worker then
    match s.transition x [.assigning] .live with
    | some s => (s.setRow x ({ · with assignedAt := s.now })).assigned x attempt true
    | none => s.assigned x attempt true
  else s.giveUp x attempt

/-- Forward the frame that waited for a worker. -/
def forwardPending (x : Nat) : World :=
  let pending := (s.rows x).pendingFrame
  let s := s.setRow x ({ · with pendingFrame := false })
  match pending, (s.rows x).worker with
  | true, some w => { s with forwards := s.forwards ++ [(x, w)] }
  | _, _ => s

/-- `requeue`, its answer ignored. -/
def requeue! (x : Nat) : World := (s.requeue x).getD s

/-- What the caller of `place_session` does with its answer. -/
def placed (t : Nat) (caller : Caller) (x : Nat) (ok : Bool) : World :=
  match caller, ok with
  | .handler, true => s.put t (.serving x)
  | .handler, false => (s.requeue! x).put t (.serving x)
  | .admission, false | .resumeIdle, false => s.requeue! x
  | .reassign, false =>
    match s.requeue x with
    | some s => s.admitQueued
    | none => s
  | .admission, true =>
    if s.isLive x then (s.setRow x ({ · with queuedAt := none })).forwardPending x
    else s.releaseLast t x
  | .resumeIdle, true => if s.isLive x then s.forwardPending x else s.releaseLast t x
  | .reassign, true => if s.isLive x then s else s.releaseLast t x

/-- Go on with the task `t` from where its placement has got. -/
def goOn (t : Nat) (caller : Caller) (x : Nat) (r : World × Placed) : World :=
  match r with
  | (s, .suspended attempt) => s.put t (.placing caller x attempt)
  | (s, .returned ok) => s.placed t caller x ok

/-! ## The placement tasks -/

/-- `reassign` from its new generation on. -/
def reopen (t x : Nat) (excluded : List String) : World :=
  goOn t .reassign x ((s.bump x).place x excluded)

/-- `reassign` after its notice to the old worker. -/
def interrupted (t x : Nat) (excluded : List String) : World :=
  if s.isLive x then
    if (s.rows x).userId.isSome then s.put t (.reading x excluded) else s.reopen t x excluded
  else s

/-- `reassign` from its start. -/
def reassign (t x : Nat) : World :=
  match (s.rows x).state with
  | .live | .assigning =>
    let s := s.transition! x [.live] .assigning
    match (s.rows x).worker with
    | some w =>
      let s := s.drop x
      let excluded := [(s.workers w).id]
      if w ∈ s.registered then s.put t (.interrupting x excluded) else s.interrupted t x excluded
    | none => s.interrupted t x []
  | _ => s

/-- `resume_idle` from its start. -/
def resumeIdle (t x : Nat) : World :=
  if s.isLive x then goOn t .resumeIdle x ((s.bump x).place x []) else s

/-! ## Shedding and losing a worker -/

/-- `over_capacity_sessions`: walk the live sessions, newest first, until the rest
fits. -/
def victims (w : Nat) : List Nat → List Nat → List Nat
  | [], _ => []
  | x :: rest, excluding =>
    if s.liveAdmissionCost w [] (x :: excluding) ≤ realtimeBarMs then [x]
    else x :: victims w rest (x :: excluding)

/-- `over_capacity_sessions`. -/
def overCapacitySessions (w : Nat) : List Nat :=
  if (s.workers w).admissionP95Ms = none ∨ s.liveAdmissionCost w [] [] ≤ realtimeBarMs then []
  else
    s.victims w
      ((s.sessions.filter fun x => (s.rows x).worker = some w ∧ (s.rows x).state = .live).insertionSort
        fun x y => (s.rows y).assignedAt ≤ (s.rows x).assignedAt)
      []

/-- The sessions `_finalize_worker` finds on `w`. -/
def orphaned (w : Nat) : List Nat := s.sessions.filter fun x => (s.rows x).worker = some w

/-- `_finalize_worker` for one of them. -/
def orphan (x : Nat) : World :=
  match (s.rows x).state with
  | .assigning => (s.setRow x ({ · with attemptOk := false })).setReady x
  | .live => s.scheduleReassign x
  | _ => s

/-- `forget_worker`. -/
def forgetWorker (w : Nat) : World := { s with registered := s.registered.filter (· ≠ w) }

/-- The fleet handler on one message. -/
def receive (w : Nat) (m : Message) : World :=
  let row := s.rows m.session
  if s.isLive m.session ∧ row.worker = some w ∧ m.generation = row.controlGeneration then
    match m.answer with
    | .sessionReady =>
      match s.transition m.session [.assigning] .live with
      | some s =>
        (s.setRow m.session ({ · with assignedAt := s.now, attemptOk := true })).setReady m.session
      | none => s
    | .sessionRefused =>
      match row.state with
      | .assigning => (s.setRow m.session ({ · with attemptOk := false })).setReady m.session
      | .live => s.scheduleReassign m.session
      | _ => s
  else s

/-- A cost of a heartbeat: only a higher one counts, and it drops the batch curve. -/
def raiseCost (state : Worker × Bool) (sample : String × Nat) : Worker × Bool :=
  let (worker, raised) := state
  let (model, value) := sample
  match worker.admissionP95Ms with
  | none => (worker, raised)
  | some p95 =>
    match p95.lookup model with
    | some held =>
      if model ∈ worker.models ∧ held < value then
        ({ worker with
            admissionP95Ms :=
              some (p95.map fun entry => if entry.1 = model then (model, value) else entry)
            admissionBatchMs := worker.admissionBatchMs.filter (·.1 ≠ model) }, true)
      else (worker, raised)
    | none => (worker, raised)

/-- The costs of a heartbeat, and whether one rose. -/
def raiseCosts (worker : Worker) (measured : List (String × Nat)) : Worker × Bool :=
  measured.foldl raiseCost (worker, false)

/-! ## Closing sessions -/

end World

/-- The sessions a close call is about: every socket without an account session, or
those of one account, of one account session of it, or of all but one. -/
def CloseCall.matches (call : CloseCall) (row : Session) : Prop :=
  if call.noneMode = true then row.authSessionId = none
  else row.userId = call.userId ∧
    (call.authSessionId = none ∨ row.authSessionId = call.authSessionId) ∧
    (call.keep = none ∨ row.authSessionId ≠ call.keep)

instance (call : CloseCall) (row : Session) : Decidable (call.matches row) := by
  unfold CloseCall.matches
  infer_instance

namespace World

/-- `_close_sessions` from its next session on. -/
def closeNext (t : Nat) (call : CloseCall) (rest : List (Nat × Nat)) (s : World) :
    List Nat → World
  | [] =>
    ({ s with calls := s.calls ++ [⟨call, s.forwards.length, true⟩] } : World).put t
      (if rest = [] then .done else .sweeping rest)
  | x :: pending =>
    let (s, awaits) := (s.pop x).release x
    if awaits then s.put t (.closing call pending rest) else closeNext t call rest s pending

variable (s : World)

/-- A close call from its start: it looks at the dictionary once. -/
def beginClose (t : Nat) (call : CloseCall) (rest : List (Nat × Nat)) : World :=
  let doomed := s.sessions.filter fun x => call.matches (s.rows x)
  closeNext t { call with revoked := s.revoked, accounts := !s.noneMode, doomed := doomed } rest s
    doomed

/-- `close_revoked`. -/
def closeRevoked (t user : Nat) (auth keep : Option Nat) (rest : List (Nat × Nat)) : World :=
  s.beginClose t ⟨false, some user, auth, keep, [], false, []⟩ rest

/-! ## The browser handler -/

/-- The handler from its first placement on. -/
def serve (t x : Nat) : World := goOn t .handler x (s.place x [])

/-- The `finally` of the handler. -/
def tearDown (t x : Nat) : World := (s.pop x).releaseLast t x

/-- Turn away a handshake whose re-check failed. The dictionary's entry is deleted
unconditionally, which raises when a close call has taken it already. -/
def turnAway (x : Nat) : World :=
  if s.isLive x then
    { s.unregister x with handshakes := s.handshakes ++ [(x, .refused closeUnauthorized)] }
  else { s with handshakes := s.handshakes ++ [(x, .keyError)] }

/-- The sessions that count against an account's cap. -/
def held (user : Option Nat) : Nat :=
  (s.sessions.filter fun x => (s.rows x).userId = user ∧ (s.rows x).state ≠ .ended).length

/-- A handshake that has its `open`: the session is registered first and checked
after. -/
def openSession (t : Nat) (user auth : Option Nat) (modelId : String) : World :=
  if s.modelKnown modelId ∧ s.held user < maxRealtimeSessionsPerUser then
    let x := s.created
    let s :=
      { s.setRow x (fun _ => Session.new modelId user auth s.now) with
        created := s.created + 1, sessions := s.sessions ++ [x] }
    match auth with
    | some _ => s.put t (.checking x none)
    | none => if s.noneMode then s.serve t x else s.turnAway x
  else s

/-- A canvas frame in the handler's receive loop. -/
def canvasFrame (x : Nat) : World :=
  let s := s.setRow x ({ · with lastInput := s.now })
  match (s.rows x).state with
  | .idle => (s.setRow x ({ · with pendingFrame := true })).scheduleResumeIdle x
  | .assigning | .queued => s.setRow x ({ · with pendingFrame := true })
  | _ =>
    match (s.rows x).worker with
    | some w =>
      { s.setRow x ({ · with pendingFrame := false }) with forwards := s.forwards ++ [(x, w)] }
    | none => s

end World

end Potocolom.Realtime
