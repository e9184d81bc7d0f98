import Potocolom.Lib.Machine
import Potocolom.Realtime.Scheduler

/-! # The scheduler as a machine

A step runs one coroutine from one `await` to the next, or lets the world around the
process act: a worker sends, a browser sends, a revocation commits. Which coroutine
runs, when a send or a wait ends and how, is the label's choice, so that a run is an
interleaving at every `await`. -/

namespace Potocolom.Realtime

/-- What happens next. -/
inductive Action where
  | tick
  /-- `fleet` registers a worker. -/
  | hello (worker : Worker)
  /-- `connected_workers` forgets a worker whose socket is closed. -/
  | prune (w : Nat)
  | workerSends (w : Nat) (m : Message)
  /-- The fleet handler reads the worker's next message. -/
  | fleetReads (w : Nat)
  | heartbeat (w : Nat) (measured : List (String × Nat))
  /-- The fleet handler ends: `_finalize_worker`. -/
  | finalize (w : Nat)
  /-- `admit_queued`, from the sweep or after a registration. -/
  | admitQueued
  /-- `release_idle_sessions` at one session. -/
  | releaseIdle (x : Nat)
  /-- `_handshake_principal`: the account and the account session of the cookie. -/
  | connect (user auth : Option Nat)
  | openSession (t : Nat) (modelId : String)
  /-- The database answers `_still_live`; `alive` is false for an expired session and
  for a failed query. -/
  | recheck (t : Nat) (alive : Bool)
  | recheckAnswered (t : Nat)
  /-- The send of an open ends. -/
  | sent (t : Nat)
  /-- It raises `RuntimeError`. -/
  | sendFails (t : Nat)
  /-- Another exception leaves the placement. -/
  | raises (t : Nat)
  | wakes (t : Nat)
  | timesOut (t : Nat)
  /-- `close_abandoned_session` of an `assign` ends. -/
  | abandoned (t : Nat)
  /-- A created task starts. -/
  | starts (t : Nat)
  /-- `close_abandoned_session` of a `reassign` ends. -/
  | interrupted (t : Nat)
  /-- `read_committed_desired` ends. -/
  | desiredRead (t : Nat)
  /-- The send of a `release` ends. -/
  | released (t : Nat)
  | releaseRaises (t : Nat)
  | canvasFrame (t : Nat)
  /-- The browser leaves, or its handler breaks off. -/
  | disconnect (t : Nat)
  /-- A revocation commits. -/
  | revoke (auths : List Nat)
  /-- Accounts are turned on. -/
  | enableAccounts
  | closeRevoked (user : Nat) (auth keep : Option Nat)
  | closeNoneMode
  | closeDead
  /-- The query of `close_dead_sessions` answers; `expired` ended without being
  revoked. -/
  | deadAnswered (t : Nat) (expired : List Nat)
  | nextDead (t : Nat)
deriving DecidableEq

/-- One step. A task that runs stands nowhere until it awaits again. -/
def step (s : World) : Action → Option World
  | .tick => some { s with now := s.now + 1 }
  | .hello worker =>
    if worker.id ∈ s.registered.map (s.workers · |>.id) then none
    else
      some
        { s.setWorker s.attached (fun _ =>
            { worker with slotsInUse := 0, inbox := [], connected := true }) with
          attached := s.attached + 1, registered := s.registered ++ [s.attached] }
  | .prune w => some (s.forgetWorker w)
  | .workerSends w m =>
    some (s.setWorker w fun worker => { worker with inbox := worker.inbox ++ [m] })
  | .fleetReads w =>
    match (s.workers w).connected, (s.workers w).inbox with
    | true, m :: inbox =>
      let s := s.setWorker w ({ · with inbox := inbox })
      let s : World :=
        match m.answer with
        | .sessionReady =>
          { s with
            readies := s.readies ++ [(⟨w, m.session, m.generation, s.opens.length⟩ : Ready)] }
        | .sessionRefused => s
      some (s.receive w m)
    | _, _ => none
  | .heartbeat w measured =>
    if (s.workers w).connected then
      let (worker, raised) := World.raiseCosts (s.workers w) measured
      let s := s.setWorker w fun _ => worker
      some
        (if raised then (s.overCapacitySessions w).foldl World.scheduleReassign s else s)
    else none
  | .finalize w =>
    if (s.workers w).connected then
      let s := (s.setWorker w ({ · with connected := false })).forgetWorker w
      some ((s.orphaned w).foldl World.orphan s)
    else none
  | .admitQueued => some s.admitQueued
  | .releaseIdle x =>
    if (s.rows x).state = .live ∧ (s.rows x).lastInput + idleReleaseSeconds < s.now then
      some (((s.spawn .done).transition! x [.live] .idle).releaseLast s.spawned x)
    else none
  | .connect user auth =>
    if s.noneMode then some (s.spawn (.opening user none))
    else
      match user, auth with
      | some user, some auth =>
        if auth ∈ s.revoked then none else some (s.spawn (.opening (some user) (some auth)))
      | _, _ => none
  | .openSession t modelId =>
    match s.tasks t with
    | .opening user auth => some ((s.put t .done).openSession t user auth modelId)
    | _ => none
  | .recheck t alive =>
    match s.tasks t with
    | .checking x none =>
      match (s.rows x).authSessionId with
      | some auth => some (s.put t (.checking x (some (alive && decide (auth ∉ s.revoked)))))
      | none => none
    | _ => none
  | .recheckAnswered t =>
    match s.tasks t with
    | .checking x (some true) => some ((s.put t .done).serve t x)
    | .checking x (some false) => some ((s.put t .done).turnAway x)
    | _ => none
  | .sent t =>
    match s.tasks t with
    | .placing caller x attempt =>
      match attempt.phase with
      | .sending =>
        some (s.put t (.placing caller x { attempt with phase := .waiting (s.rows x).ready }))
      | _ => none
    | _ => none
  | .sendFails t =>
    match s.tasks t with
    | .placing caller x attempt =>
      match attempt.phase with
      | .sending => some (World.goOn t caller x ((s.put t .done).giveUp x attempt))
      | _ => none
    | _ => none
  | .raises t =>
    match s.tasks t with
    | .placing .handler x _ => some ((s.put t .done).tearDown t x)
    | .placing _ _ _ | .interrupting _ _ | .reading _ _ | .asking _ => some (s.put t .done)
    | _ => none
  | .wakes t =>
    match s.tasks t with
    | .placing caller x attempt =>
      match attempt.phase with
      | .waiting true => some (World.goOn t caller x ((s.put t .done).woken x attempt))
      | _ => none
    | _ => none
  | .timesOut t =>
    match s.tasks t with
    | .placing caller x attempt =>
      match attempt.phase with
      | .waiting _ => some (World.goOn t caller x ((s.put t .done).giveUp x attempt))
      | _ => none
    | _ => none
  | .abandoned t =>
    match s.tasks t with
    | .placing caller x attempt =>
      match attempt.phase with
      | .abandoning =>
        some (World.goOn t caller x ((s.put t .done).assigned x attempt false))
      | _ => none
    | _ => none
  | .starts t =>
    match s.tasks t with
    | .scheduled .admission x =>
      some (World.goOn t .admission x ((s.put t .done).place x []))
    | .scheduled .reassign x => some ((s.put t .done).reassign t x)
    | .scheduled .resumeIdle x => some ((s.put t .done).resumeIdle t x)
    | _ => none
  | .interrupted t =>
    match s.tasks t with
    | .interrupting x excluded => some ((s.put t .done).interrupted t x excluded)
    | _ => none
  | .desiredRead t =>
    match s.tasks t with
    | .reading x excluded => some ((s.put t .done).reopen t x excluded)
    | _ => none
  | .released t =>
    match s.tasks t with
    | .releasing => some (s.put t .done).admitQueued
    | .closing call pending rest =>
      some (World.closeNext t call rest (s.put t .done).admitQueued pending)
    | _ => none
  | .releaseRaises t =>
    match s.tasks t with
    | .releasing => some (s.put t .done)
    | .closing call _ _ =>
      some
        (({ s with calls := s.calls ++ [⟨call, s.forwards.length, false⟩] } : World).put t .done)
    | _ => none
  | .canvasFrame t =>
    match s.tasks t with
    | .serving x => some (s.canvasFrame x)
    | _ => none
  | .disconnect t =>
    match s.tasks t with
    | .serving x => some ((s.put t .done).tearDown t x)
    | _ => none
  | .revoke auths => some { s with revoked := s.revoked ++ auths }
  | .enableAccounts => some { s with noneMode := false }
  | .closeRevoked user auth keep =>
    some ((s.spawn .done).closeRevoked s.spawned user auth keep [])
  | .closeNoneMode =>
    some ((s.spawn .done).beginClose s.spawned ⟨true, none, none, none, [], false, []⟩ [])
  | .closeDead =>
    some
      (s.spawn
        (.asking
          (s.sessions.filterMap fun x =>
            match (s.rows x).authSessionId, (s.rows x).userId with
            | some auth, some user => some (auth, user)
            | _, _ => none).dedup))
  | .deadAnswered t expired =>
    match s.tasks t with
    | .asking held =>
      some (s.put t (.sweeping (held.filter fun (auth, _) => auth ∈ s.revoked ∨ auth ∈ expired)))
    | _ => none
  | .nextDead t =>
    match s.tasks t with
    | .sweeping [] => some (s.put t .done)
    | .sweeping ((auth, user) :: rest) =>
      some ((s.put t .done).closeRevoked t user (some auth) none rest)
    | _ => none

/-- The process at its start. -/
def World.start (noneMode : Bool) : World where
  now := 0
  workers _ := ⟨"", [], 0, 0, none, [], [], false⟩
  attached := 0
  registered := []
  rows _ := { Session.new "" none none 0 with state := .ended }
  created := 0
  sessions := []
  tasks _ := .done
  spawned := 0
  revoked := []
  noneMode := noneMode
  opens := []
  readies := []
  forwards := []
  handshakes := []
  calls := []

/-- The realtime side of the API, from its start. -/
def realtimeMachine : Machine World Action where
  init s := ∃ noneMode, s = World.start noneMode
  step := step

end Potocolom.Realtime
