import Mathlib

/-! # The realtime scheduler: workers, sessions and coroutines

`realtime.py` for workers of protocol 4 and 5. Worker and session objects are known
by the number of their creation, so that `is` compares numbers; `registered` and
`sessions` are the dictionaries `workers` and `sessions`, in insertion order. A
coroutine is a `Task`: the `await` it stands at, with the local variables it will
still use. A task that runs stands nowhere (`done`). -/

namespace Potocolom.Realtime

/-- `REALTIME_BAR_MS`. -/
def realtimeBarMs : Nat := 500
/-- `IDLE_RELEASE_SECONDS`. -/
def idleReleaseSeconds : Nat := 60
/-- `MAX_REALTIME_SESSIONS_PER_USER`. -/
def maxRealtimeSessionsPerUser : Nat := 2
/-- `CLOSE_UNAUTHORIZED`. -/
def closeUnauthorized : Nat := 4401
/-- `CLOSE_FORBIDDEN`. -/
def closeForbidden : Nat := 4403
/-- `CLOSE_UNKNOWN_MODEL`. -/
def closeUnknownModel : Nat := 4004
/-- `CLOSE_NO_CAPACITY`. -/
def closeNoCapacity : Nat := 4003

/-- A worker's answer to an open. -/
inductive Answer where
  | sessionReady
  | sessionRefused
deriving DecidableEq, Repr

/-- `session_ready` or `session_refused`, for a session and a generation. -/
structure Message where
  answer : Answer
  session : Nat
  generation : Nat
deriving DecidableEq, Repr

structure Worker where
  id : String
  models : List String
  realtimeSlots : Int
  slotsInUse : Int
  /-- `admission_p95_ms`; `none` when the hello had no map. -/
  admissionP95Ms : Option (List (String × Nat))
  admissionBatchMs : List (String × List Nat)
  /-- Sent and not yet read, oldest first. -/
  inbox : List Message
  /-- Its fleet handler still reads. -/
  connected : Bool
deriving DecidableEq, Repr

/-- `free_slots`. -/
def Worker.freeSlots (w : Worker) : Int := w.realtimeSlots - w.slotsInUse

/-- `SessionState`; a session passes through `ending` without an `await`. -/
inductive SessionState where
  | queued
  | assigning
  | live
  | idle
  | ended
deriving DecidableEq, Repr

structure Session where
  modelId : String
  userId : Option Nat
  authSessionId : Option Nat
  worker : Option Nat
  /-- The `asyncio.Event`. -/
  ready : Bool
  state : SessionState
  controlGeneration : Nat
  attemptOk : Bool
  assignedAt : Nat
  queuedAt : Option Nat
  lastInput : Nat
  /-- Whether `pending_frame` holds a frame. -/
  pendingFrame : Bool
deriving DecidableEq, Repr

/-- A fresh `Session`. -/
def Session.new (modelId : String) (userId authSessionId : Option Nat) (now : Nat) : Session :=
  { modelId := modelId, userId := userId, authSessionId := authSessionId, worker := none
    ready := false, state := .assigning, controlGeneration := 1, attemptOk := false
    assignedAt := 0, queuedAt := none, lastInput := now, pendingFrame := false }

/-! ## Coroutines -/

/-- Who awaits `place_session`. -/
inductive Caller where
  /-- The browser handler. -/
  | handler
  /-- `admit`. -/
  | admission
  | reassign
  | resumeIdle
deriving DecidableEq, Repr

/-- The `await` of `assign` that a placement stands at. -/
inductive Phase where
  /-- The open is being sent. -/
  | sending
  /-- `session.ready.wait()`; `woken` once the event has been set under it. -/
  | waiting (woken : Bool)
  /-- `close_abandoned_session`, after the slot was given back. -/
  | abandoning
deriving DecidableEq, Repr

/-- The local variables of `place_session` and of the `assign` it awaits. -/
structure Attempt where
  worker : Nat
  started : Nat
  skipped : List String
  phase : Phase
deriving DecidableEq, Repr

/-- A call of `_close_sessions`: whose sockets it closes, the account sessions that
were revoked when it began, whether accounts were on then, and the sessions it found. -/
structure CloseCall where
  /-- `close_none_mode_sockets`, which binds no account session. -/
  noneMode : Bool
  userId : Option Nat
  authSessionId : Option Nat
  keep : Option Nat
  revoked : List Nat
  accounts : Bool
  doomed : List Nat
deriving DecidableEq, Repr

/-- A coroutine at one of its awaits. -/
inductive Task where
  | done
  /-- A handshake with its principal, waiting for `open`. -/
  | opening (userId authSessionId : Option Nat)
  /-- The registered session is being re-checked; the answer once the database gave
  it. -/
  | checking (x : Nat) (answer : Option Bool)
  /-- The browser handler in its receive loop. -/
  | serving (x : Nat)
  /-- A task created and not started: `admit`, `reassign` or `resume_idle`. -/
  | scheduled (caller : Caller) (x : Nat)
  /-- `reassign` in `close_abandoned_session`; the worker it excludes. -/
  | interrupting (x : Nat) (excluded : List String)
  /-- `reassign` in `read_committed_desired`. -/
  | reading (x : Nat) (excluded : List String)
  | placing (caller : Caller) (x : Nat) (attempt : Attempt)
  /-- `release` sending its `close_session`. -/
  | releasing
  /-- `_close_sessions` awaiting one `release`, the sessions it has still to close,
  and the account sessions its caller has still to close. -/
  | closing (call : CloseCall) (pending : List Nat) (rest : List (Nat × Nat))
  /-- `close_dead_sessions` awaiting its query. -/
  | asking (held : List (Nat × Nat))
  /-- `close_dead_sessions` between two calls of `close_revoked`. -/
  | sweeping (dead : List (Nat × Nat))
deriving DecidableEq, Repr

/-- The task awaits, or will start, a placement of `x`; no other may then start one. -/
def Task.owns (task : Task) (x : Nat) : Prop :=
  match task with
  | .checking y _ | .scheduled _ y | .interrupting y _ | .reading y _ | .placing _ y _ => y = x
  | _ => False

instance (task : Task) (x : Nat) : Decidable (task.owns x) := by
  unfold Task.owns
  split <;> infer_instance

/-- The task is inside `place_session` for `x`. -/
def Task.places (task : Task) (x : Nat) : Prop :=
  match task with
  | .placing _ y _ => y = x
  | _ => False

/-- `Event.set` as a waiting placement of `x` sees it. -/
def Task.wake (x : Nat) : Task → Task
  | .placing caller y attempt =>
    match attempt.phase with
    | .waiting _ =>
      if y = x then .placing caller y { attempt with phase := .waiting true }
      else .placing caller y attempt
    | _ => .placing caller y attempt
  | task => task

/-! ## The process -/

/-- An `open_session` handed to a worker's socket. -/
structure Open where
  session : Nat
  generation : Nat
  worker : Nat
deriving DecidableEq, Repr

/-- A `session_ready` the API read, and how many opens it had sent by then. -/
structure Ready where
  worker : Nat
  session : Nat
  generation : Nat
  opened : Nat
deriving DecidableEq, Repr

/-- How a browser handler ended before it served: a close code, or an exception. -/
inductive HandshakeEnd where
  | refused (code : Nat)
  | keyError
deriving DecidableEq, Repr

/-- A close call that has ended, with the number of frames forwarded by then. -/
structure EndedCall where
  call : CloseCall
  forwarded : Nat
  /-- False when a `release` raised out of it. -/
  completed : Bool
deriving DecidableEq, Repr

/-- The process, and the logs of what it did. -/
structure World where
  now : Nat
  workers : Nat → Worker
  attached : Nat
  /-- The dictionary `workers`. -/
  registered : List Nat
  rows : Nat → Session
  created : Nat
  /-- The dictionary `sessions`. -/
  sessions : List Nat
  tasks : Nat → Task
  spawned : Nat
  /-- The account sessions whose revocation has committed. -/
  revoked : List Nat
  /-- `auth_mode.current() == NONE`. -/
  noneMode : Bool
  opens : List Open
  readies : List Ready
  /-- The frames handed to a worker's socket: session and worker. -/
  forwards : List (Nat × Nat)
  handshakes : List (Nat × HandshakeEnd)
  calls : List EndedCall

end Potocolom.Realtime
