import Potocolom.Lib.Machine
import Potocolom.Lib.Overlay
import Potocolom.Realtime.Types

/-! # A browser session and its live edits

One session of `realtime.py` on workers of protocol 4 to 6: the browser handler with
its `update_params`, the delivery of an `update_session` to a protocol 6 worker, the
placements (`place_session` and `assign` under each of their four callers) and the
row the commands of the session commit to. A coroutine stands at an `await` with the
locals it will still use, and the label chooses which one goes on and what it finds.

Which worker `pick_worker` prefers, the clocks, the canvas frames and the other
sessions are the label's choice too. An exception other than those the coroutines
catch ends a placement, and the session when the handler awaits it. -/

namespace Potocolom.Edits

open Realtime (SessionState Caller)

structure Worker where
  protocolVersion : Nat
  /-- `workers.get(worker.id) is worker`. -/
  registered : Bool
  /-- `has_current_work_grant`. -/
  granted : Bool
  /-- `delivery_admission_open`. -/
  admissionOpen : Bool
  /-- `delivery_task` is the delivery of another command. -/
  busy : Bool
deriving DecidableEq, Repr

variable (K V : Type)

/-- An `update_session` on its way: the snapshot that `mirror_desired` compares, with
the fields of the command it reads. -/
structure Edit where
  number : Nat
  merged : Dict K V
  worker : Nat
  generation : Nat
  attempt : Nat
  /-- `base_desired_revision`. -/
  base : Nat
  /-- `desired_params` when the command was built. -/
  snapshot : Nat

/-- Where the delivery of an edit stands. -/
inductive Delivery where
  /-- Another delivery owns the worker's slot. -/
  | waiting
  /-- The task is created and has not started. -/
  | created
  /-- In `commit_command`. -/
  | preparing
  /-- The transaction is committed, the callback not yet called. -/
  | committed
  /-- The command goes out. -/
  | sending
deriving DecidableEq, Repr

/-- The delivery has not passed its `preparation_boundary`. -/
def Delivery.prepares : Delivery → Bool
  | .created | .preparing | .committed => true
  | .waiting | .sending => false

/-- The browser handler. -/
inductive Handler where
  /-- In its first `place_session`. -/
  | placing
  /-- In its receive loop. -/
  | serving
  /-- In `send_v6_command`. -/
  | editing (edit : Edit K V) (delivery : Delivery)
  /-- Sending an `update_session` to a worker of protocol 4 or 5. -/
  | relaying
  | done

/-- The `await` a placement stands at. -/
inductive Phase where
  /-- In `send_v6_command`, its `open_session` not committed. -/
  | opening
  | opened
  /-- The open goes to a worker of protocol 4 or 5. -/
  | sending
  /-- `session.ready.wait()`. -/
  | waiting
  /-- `abandon_realtime_attempt`, with the slot to be given back after it. -/
  | withdrawing
  /-- `close_abandoned_session`, the slot given back. -/
  | abandoning
deriving DecidableEq, Repr

/-- The locals of `place_session` and of the `assign` it awaits. -/
structure Attempt where
  worker : Nat
  started : Nat
  attemptId : Nat
  params : Dict K V
  phase : Phase

inductive Task where
  | done
  | scheduled (caller : Caller)
  /-- `reassign` in `close_abandoned_session`. -/
  | interrupting (generation snapshot : Nat)
  /-- `reassign` in `read_committed_desired`. -/
  | reading (generation snapshot : Nat)
  /-- The same, with the row it read. -/
  | read (generation snapshot : Nat) (committed : Option (Dict K V × Nat))
  | placing (caller : Caller) (attempt : Attempt K V)

/-- The session in `realtime_sessions`. -/
structure Row where
  generation : Nat
  desiredParams : Dict K V
  desiredRevision : Nat

/-- A row of `realtime_session_attempts`, whose key is the generation. -/
structure AttemptRow where
  attemptId : Nat
  worker : Nat
  /-- `opening` or `running`. -/
  running : Bool

/-- What the log of a session records. -/
inductive Event where
  /-- An `update_params` passed its checks. -/
  | accepted (number : Nat) (params merged : Dict K V)
  /-- `session.desired_params = merged`. -/
  | became (merged : Dict K V)
  /-- An `open_session` was built with these parameters. -/
  | opened (params : Dict K V)
  /-- The browser was sent an error while this edit was on its way. -/
  | error (number : Nat)

structure Session where
  state : SessionState
  /-- `is_live`. -/
  isLive : Bool
  handler : Handler K V
  params : Dict K V
  desiredParams : Dict K V
  /-- Which object `desired_params` is. -/
  desiredId : Nat
  desiredRevision : Nat
  controlGeneration : Nat
  attemptId : Option Nat
  attemptOk : Bool
  worker : Option Nat
  tasks : Nat → Task K V
  spawned : Nat
  workers : Nat → Worker
  attached : Nat
  /-- `_worker_delivery_admission_open`. -/
  admissionOpen : Bool
  row : Option (Row K V)
  attempts : Nat → Option AttemptRow
  /-- The attempt ids and the edits so far. -/
  drawn : Nat
  edits : Nat
  events : List (Event K V)

variable {K V}

namespace Session

variable (s : Session K V)

/-! ## Small pieces -/

def put (t : Nat) (task : Task K V) : Session K V :=
  { s with tasks := Function.update s.tasks t task }

def spawn (task : Task K V) : Session K V :=
  { s with tasks := Function.update s.tasks s.spawned task, spawned := s.spawned + 1 }

def setWorker (w : Nat) (f : Worker → Worker) : Session K V :=
  { s with workers := Function.update s.workers w (f (s.workers w)) }

def log (event : Event K V) : Session K V := { s with events := s.events ++ [event] }

/-- `transition`; a session that fails it stays as it is. -/
def transition (expected new : SessionState) : Session K V :=
  if s.state = expected then { s with state := new } else s

/-- `session.desired_params = params`, a new object. -/
def become (params : Dict K V) : Session K V :=
  ({ s with desiredParams := params, desiredId := s.desiredId + 1 } : Session K V).log
    (.became params)

/-- `schedule_reassign`. -/
def scheduleReassign : Session K V :=
  if s.state = .live then ({ s with state := .assigning } : Session K V).spawn (.scheduled .reassign)
  else s

/-- `requeue`. -/
def requeue : Session K V := s.transition .assigning .queued

/-- `session.worker = None`, with its slot given back. -/
def detach : Session K V := { s with worker := none }

/-- The next generation, opened with the desired parameters. -/
def advance : Session K V :=
  { s with
    controlGeneration := s.controlGeneration + 1
    params := s.desiredParams
    desiredRevision := 1 }

/-- The `finally` of the browser handler. -/
def tearDown : Session K V :=
  { s with isLive := false, state := .ended, worker := none, handler := .done }

/-! ## Edits -/

/-- An update the worker cannot take: the edit rides on the next open. -/
def refused (merged : Dict K V) : Session K V :=
  { (s.become merged).scheduleReassign with handler := .serving }

/-- One turn of `_deliver_pending_worker_command` with `_reserve_worker_delivery`.
Without admission it returns nothing, and so does `send_v6_command`. -/
def reserve (edit : Edit K V) : Session K V :=
  if ¬ s.admissionOpen then { s with handler := .serving }
  else if (s.workers edit.worker).busy then { s with handler := .editing edit .waiting }
  else if ¬ (s.workers edit.worker).admissionOpen then { s with handler := .serving }
  else { s with handler := .editing edit .created }

/-- `send_v6_command` with an `update_session` for the session's own attempt. -/
def sendUpdate (number : Nat) (merged : Dict K V) (w : Nat) : Session K V :=
  match s.attemptId with
  | some attempt =>
    if (s.workers w).granted ∧ (s.workers w).registered then
      s.reserve ⟨number, merged, w, s.controlGeneration, attempt, s.desiredRevision, s.desiredId⟩
    else s.refused merged
  | none => s.refused merged

/-- An `update_params` that passed its checks. -/
def accept (params : Dict K V) : Session K V :=
  let merged := s.desiredParams.overlay params
  let t : Session K V :=
    { s.log (.accepted s.edits params merged) with edits := s.edits + 1 }
  match s.worker with
  | none => ({ t with params := merged } : Session K V).become merged
  | some w =>
    if (s.workers w).protocolVersion = 6 then t.sendUpdate s.edits merged w
    else { ({ t with params := merged } : Session K V).become merged with handler := .relaying }

/-- `update_params` with an object: a seed or an invalid value is told the browser as
an error. `valid` is `validate_param_update` against the manifest of the model. -/
def updateParams (seed : K) (params : Dict K V) (valid : Dict K V → Bool) : Session K V :=
  if (params seed).isSome then s
  else if ¬ valid params then s
  else if ¬ valid (s.desiredParams.overlay params) then s
  else s.accept params

/-- `mirror_desired`. -/
def mirrorDesired (edit : Edit K V) : Session K V :=
  if s.isLive ∧ s.controlGeneration = edit.generation ∧ s.attemptId = some edit.attempt ∧
      s.desiredId = edit.snapshot then
    { s.become edit.merged with desiredRevision := edit.base + 1 }
  else s

/-! ## Placements -/

/-- `assign`, up to its first `await`. -/
def assign (t : Nat) (caller : Caller) (w : Nat) : Session K V :=
  let s : Session K V := { s with worker := some w, attemptOk := false }
  if (s.workers w).protocolVersion = 6 then
    (({ s with attemptId := some s.drawn, drawn := s.drawn + 1 } : Session K V).log
      (.opened s.desiredParams)).put t
        (.placing caller ⟨w, s.controlGeneration, s.drawn, s.desiredParams, .opening⟩)
  else
    (s.log (.opened s.params)).put t
      (.placing caller ⟨w, s.controlGeneration, s.drawn, s.params, .sending⟩)

/-- What the four callers do once `place_session` returned. -/
def finish (t : Nat) (caller : Caller) (placed : Bool) : Session K V :=
  let s := s.put t .done
  match caller with
  | .handler =>
    if placed then { s with handler := .serving } else { s.requeue with handler := .serving }
  | _ => if placed then (if s.isLive then s else s.detach) else s.requeue

/-- `pick_worker` can take it. -/
def pickable (w : Nat) : Bool := (s.workers w).registered && (s.workers w).granted

/-- One turn of the loop of `place_session`. -/
def place (t : Nat) (caller : Caller) (choice : Option Nat) : Session K V :=
  if s.isLive ∧ s.state = .assigning then
    match choice.filter s.pickable with
    | some w => s.assign t caller w
    | none => s.finish t caller false
  else s.finish t caller (s.state = .live)

/-- `place_session` after an `assign`. -/
def assigned (t : Nat) (caller : Caller) (started : Nat) (ok : Bool) (choice : Option Nat) :
    Session K V :=
  if ok ∨ s.state = .live then s.finish t caller true
  else if ¬ s.isLive ∨ s.state ≠ .assigning then s.finish t caller false
  else if s.controlGeneration = started then s.advance.place t caller choice
  else s.place t caller choice

/-- `assign` without an answer: the slot is given back if it is still the session's. -/
def giveUp (t : Nat) (caller : Caller) (attempt : Attempt K V) (choice : Option Nat) :
    Session K V :=
  if s.worker = some attempt.worker then
    s.detach.put t (.placing caller { attempt with phase := .abandoning })
  else s.assigned t caller attempt.started false choice

/-- `assign` after its wait. -/
def woken (t : Nat) (caller : Caller) (attempt : Attempt K V) (choice : Option Nat) :
    Session K V :=
  if s.controlGeneration ≠ attempt.started then
    s.assigned t caller attempt.started (s.state = .live) choice
  else if s.attemptOk ∧ s.worker = some attempt.worker then
    (s.transition .assigning .live).assigned t caller attempt.started true choice
  else s.giveUp t caller attempt choice

/-- `assign` after its `open_session` was handed over. -/
def sent (t : Nat) (caller : Caller) (attempt : Attempt K V) : Session K V :=
  if s.worker ≠ some attempt.worker ∨ ¬ s.isLive then
    s.put t (.placing caller { attempt with phase := .withdrawing })
  else s.put t (.placing caller { attempt with phase := .waiting })

/-- The tail of `reassign`: the committed edit, the next generation, a new worker. -/
def reopen (t : Nat) (snapshot : Nat) (committed : Option (Dict K V × Nat)) (choice : Option Nat) :
    Session K V :=
  let s : Session K V :=
    match committed with
    | some (params, revision) =>
      if s.desiredRevision < revision ∧ s.desiredId = snapshot then
        { s.become params with desiredRevision := revision }
      else s
    | none => s
  s.advance.place t .reassign choice

/-- A created task starts. -/
def start (t : Nat) (caller : Caller) (choice : Option Nat) : Session K V :=
  match caller with
  | .handler | .admission => s.place t caller choice
  | .reassign =>
    if s.state ≠ .live ∧ s.state ≠ .assigning then s.put t .done
    else
      let next : Session K V := { s with state := .assigning }
      match s.worker with
      | some _ => next.detach.put t (.interrupting s.controlGeneration s.desiredId)
      | none =>
        if s.isLive then next.put t (.reading s.controlGeneration s.desiredId)
        else next.put t .done
  | .resumeIdle => if s.isLive then s.advance.place t .resumeIdle choice else s.put t .done

end Session

/-! ## The machine -/

/-- What happens next to the session. -/
inductive Action (K V : Type) where
  /-- The browser sends an `update_params`. -/
  | updateParams (params : Dict K V) (valid : Dict K V → Bool)
  /-- The delivery that the edit waited for ended. -/
  | turns
  /-- The edit's own delivery starts. -/
  | delivers
  /-- `commit_command` raises `CommandRefused`. -/
  | refuses
  | commits
  /-- The callback runs. -/
  | mirrors
  /-- `send_v6_command` returns. -/
  | delivered
  | relayed
  /-- A canvas frame of an idle session. -/
  | resumesIdle
  /-- The browser leaves, or its handler breaks off. -/
  | leaves
  /-- `_close_sessions`. -/
  | revoked
  | registers (worker : Worker)
  | grants (w : Nat) (granted : Bool)
  /-- Another command takes or leaves the worker's slot. -/
  | occupies (w : Nat) (busy : Bool)
  /-- `forget_worker`. -/
  | forgets (w : Nat)
  /-- `close_fenced_worker` or `_finalize_worker` closes the worker's admission. -/
  | closesAdmission (w : Nat)
  /-- `_finalize_worker`, past its boundary. -/
  | finalizes (w : Nat)
  /-- `stop_worker_deliveries`. -/
  | stops
  /-- `schedule_reassign` from a heartbeat. -/
  | sheds
  | sessionReady (w generation : Nat)
  | sessionRefused (w generation : Nat)
  /-- `release_idle_sessions`. -/
  | releasesIdle
  /-- `admit_queued`. -/
  | admits
  /-- The attempt of a generation is ended in the database. -/
  | endsAttempt (generation : Nat)
  | starts (t : Nat) (choice : Option Nat)
  /-- `close_abandoned_session` of a `reassign` ends. -/
  | interrupted (t : Nat)
  /-- `read_committed_desired` reads the row. -/
  | reads (t : Nat)
  /-- It returns. -/
  | reopens (t : Nat) (choice : Option Nat)
  | openCommits (t : Nat)
  /-- The send of an open returns. -/
  | openSent (t : Nat)
  /-- It raises `ProtocolError` or `RuntimeError`. -/
  | openFails (t : Nat) (choice : Option Nat)
  | wakes (t : Nat) (choice : Option Nat)
  | timesOut (t : Nat) (choice : Option Nat)
  /-- The close of an abandoned attempt ends. -/
  | abandoned (t : Nat) (choice : Option Nat)
  /-- Another exception leaves the placement. -/
  | raises (t : Nat)

/-- The edit is being prepared on this worker: `_finalize_worker` waits for it. -/
def Session.preparesOn (s : Session K V) (w : Nat) : Bool :=
  match s.handler with
  | .editing edit delivery =>
    edit.worker = w && delivery.prepares
  | _ => false

/-- `_finalize_worker` at a session of its worker. -/
def Session.orphan (s : Session K V) (w : Nat) : Session K V :=
  if s.worker = some w then
    if s.state = .assigning then { s with attemptOk := false } else s.scheduleReassign
  else s

/-- The update may be committed: the row is at its generation and its base revision,
and its attempt is still open. -/
def Session.current (s : Session K V) (edit : Edit K V) : Bool :=
  match s.row, s.attempts edit.generation with
  | some row, some attempt =>
    row.generation = edit.generation && row.desiredRevision = edit.base &&
      attempt.attemptId = edit.attempt && attempt.worker = edit.worker && attempt.running
  | _, _ => false

/-- One step. -/
def step (seed : K) (s : Session K V) : Action K V → Option (Session K V)
  | .updateParams params valid =>
    match s.handler with
    | .serving => some (s.updateParams seed params valid)
    | _ => none
  | .turns =>
    match s.handler with
    | .editing edit .waiting =>
      if ¬ s.admissionOpen ∨ ¬ (s.workers edit.worker).admissionOpen then
        some { s with handler := .serving }
      else some (s.reserve edit)
    | _ => none
  | .delivers =>
    match s.handler with
    | .editing edit .created =>
      if (s.workers edit.worker).registered then
        some { s with handler := .editing edit .preparing }
      else some { s with handler := .serving }
    | _ => none
  | .refuses =>
    match s.handler with
    | .editing edit .preparing => some (s.refused edit.merged)
    | _ => none
  | .commits =>
    match s.handler with
    | .editing edit .preparing =>
      if s.current edit then
        some
          { s with
            row := some ⟨edit.generation, edit.merged, edit.base + 1⟩
            handler := .editing edit .committed }
      else none
    | _ => none
  | .mirrors =>
    match s.handler with
    | .editing edit .committed =>
      some { s.mirrorDesired edit with handler := .editing edit .sending }
    | _ => none
  | .delivered =>
    match s.handler with
    | .editing _ .sending => some { s with handler := .serving }
    | _ => none
  | .relayed =>
    match s.handler with
    | .relaying => some { s with handler := .serving }
    | _ => none
  | .resumesIdle =>
    match s.handler with
    | .serving =>
      if s.state = .idle then
        some (({ s with state := .assigning } : Session K V).spawn (.scheduled .resumeIdle))
      else none
    | _ => none
  | .leaves =>
    match s.handler with
    | .serving => some s.tearDown
    | _ => none
  | .revoked =>
    let t : Session K V := { s with isLive := false, state := .ended, worker := none }
    match s.handler with
    | .editing edit _ => some (t.log (.error edit.number))
    | _ => some t
  | .registers worker =>
    some
      { s with
        workers := Function.update s.workers s.attached worker, attached := s.attached + 1 }
  | .grants w granted => some (s.setWorker w ({ · with granted := granted }))
  | .occupies w busy => some (s.setWorker w ({ · with busy := busy }))
  | .forgets w => some (s.setWorker w ({ · with registered := false }))
  | .closesAdmission w => some (s.setWorker w ({ · with admissionOpen := false }))
  | .finalizes w =>
    if (s.workers w).registered ∨ (s.workers w).admissionOpen ∨ s.preparesOn w then none
    else some (s.orphan w)
  | .stops => some { s with admissionOpen := false }
  | .sheds => some s.scheduleReassign
  | .sessionReady w generation =>
    if s.worker = some w ∧ s.controlGeneration = generation ∧ s.state = .assigning then
      some { s with state := .live, attemptOk := true }
    else none
  | .sessionRefused w generation =>
    if s.worker = some w ∧ s.controlGeneration = generation then
      if s.state = .assigning then some { s with attemptOk := false } else some s.scheduleReassign
    else none
  | .releasesIdle => if s.state = .live then some { s.detach with state := .idle } else none
  | .admits =>
    if s.state = .queued then
      some (({ s with state := .assigning } : Session K V).spawn (.scheduled .admission))
    else none
  | .endsAttempt generation =>
    some
      { s with
        attempts := Function.update s.attempts generation
          ((s.attempts generation).map ({ · with running := false })) }
  | .starts t choice =>
    match s.tasks t with
    | .scheduled caller => some (s.start t caller choice)
    | _ => none
  | .interrupted t =>
    match s.tasks t with
    | .interrupting generation snapshot =>
      if s.isLive then some (s.put t (.reading generation snapshot)) else some (s.put t .done)
    | _ => none
  | .reads t =>
    match s.tasks t with
    | .reading generation snapshot =>
      some
        (s.put t
          (.read generation snapshot
            ((s.row.filter (·.generation = generation)).map fun row =>
              (row.desiredParams, row.desiredRevision))))
    | _ => none
  | .reopens t choice =>
    match s.tasks t with
    | .read _ snapshot committed => some (s.reopen t snapshot committed choice)
    | _ => none
  | .openCommits t =>
    match s.tasks t with
    | .placing caller attempt =>
      if attempt.phase = .opening ∧ (s.attempts attempt.started).isNone ∧
          (s.row.all fun row => row.generation ≤ attempt.started) then
        some
          { s.put t (.placing caller { attempt with phase := .opened }) with
            row := some ⟨attempt.started, attempt.params, 1⟩
            attempts := Function.update s.attempts attempt.started
              (some ⟨attempt.attemptId, attempt.worker, true⟩) }
      else none
    | _ => none
  | .openSent t =>
    match s.tasks t with
    | .placing caller attempt =>
      match attempt.phase with
      | .opening | .opened => some (s.sent t caller attempt)
      | .sending => some (s.put t (.placing caller { attempt with phase := .waiting }))
      | _ => none
    | _ => none
  | .openFails t choice =>
    match s.tasks t with
    | .placing caller attempt =>
      match attempt.phase with
      | .opening =>
        some (({ s with attemptId := none } : Session K V).giveUp t caller attempt choice)
      | .sending => some (s.giveUp t caller attempt choice)
      | _ => none
    | _ => none
  | .wakes t choice =>
    match s.tasks t with
    | .placing caller attempt =>
      match attempt.phase with
      | .waiting => some (s.woken t caller attempt choice)
      | _ => none
    | _ => none
  | .timesOut t choice =>
    match s.tasks t with
    | .placing caller attempt =>
      match attempt.phase with
      | .waiting => some (s.giveUp t caller attempt choice)
      | _ => none
    | _ => none
  | .abandoned t choice =>
    match s.tasks t with
    | .placing caller attempt =>
      match attempt.phase with
      | .withdrawing =>
        if s.worker = some attempt.worker then
          some (s.detach.assigned t caller attempt.started false choice)
        else some (s.assigned t caller attempt.started false choice)
      | .abandoning => some (s.assigned t caller attempt.started false choice)
      | _ => none
    | _ => none
  | .raises t =>
    match s.tasks t with
    | .placing .handler _ => some (s.tearDown.put t .done)
    | .placing _ _ | .interrupting _ _ | .reading _ _ | .read _ _ _ => some (s.put t .done)
    | _ => none

/-- A session as the handshake leaves it, its handler about to place it. -/
def opened (params : Dict K V) : Session K V where
  state := .assigning
  isLive := true
  handler := .placing
  params := params
  desiredParams := params
  desiredId := 0
  desiredRevision := 1
  controlGeneration := 1
  attemptId := none
  attemptOk := false
  worker := none
  tasks t := if t = 0 then .scheduled .handler else .done
  spawned := 1
  workers _ := ⟨0, false, false, false, false⟩
  attached := 0
  admissionOpen := true
  row := none
  attempts _ := none
  drawn := 0
  edits := 0
  events := []

/-- One browser session, from its `open`. -/
def machine (seed : K) : Machine (Session K V) (Action K V) where
  init s := ∃ params, s = opened params
  step := step seed

end Potocolom.Edits
