import Potocolom.Lib.BigEndian
import Potocolom.Lib.Machine
import Potocolom.Realtime.Types

/-! # A browser session and its canvas frames

One session of `realtime.py`, byte by byte where a canvas frame is concerned. Three
coroutines forward frames: the browser handler, `resume_idle` and `admit`. Between
their awaits the rest of the process (a placement of either protocol, the fleet
handler, the sweeps, a revocation) changes the state and the worker of the session;
which of them runs next is the label's choice. -/

namespace Potocolom.Frames

open BigEndian
open Realtime (SessionState)

def canvasFrameKind : UInt8 := 0x01
/-- `LEGACY_FRAME_HEADER_BYTES`. -/
def legacyFrameHeaderBytes : Nat := 17
/-- `FRAME_HEADER_BYTES`. -/
def frameHeaderBytes : Nat := 21
/-- `MAX_CANVAS_PAYLOAD_BYTES`. -/
def maxCanvasPayloadBytes : Nat := 1024 * 1024
/-- `FRAME_HEADER_2_VERSION`. -/
def frameHeader2Version : Nat := 5
def closeProtocolViolation : Nat := 4000
def closeUnauthorized : Nat := 4401
/-- `FRAME_TOO_LARGE_INTERVAL_SECONDS`, in milliseconds. -/
def frameTooLargeInterval : Nat := 1000
/-- `IDLE_RELEASE_SECONDS`, in milliseconds. -/
def idleRelease : Nat := 60000

abbrev Bytes := List UInt8

/-- The header width a browser declared in its `open`. -/
inductive FrameHeader where
  | one
  | two
deriving DecidableEq, Repr

/-- `frame_header_bytes`. -/
def FrameHeader.bytes : FrameHeader → Nat
  | .one => legacyFrameHeaderBytes
  | .two => frameHeaderBytes

/-- The revision field of an internal frame. -/
def revisionOf (frame : Bytes) : Nat :=
  fromBytes ((frame.drop legacyFrameHeaderBytes).take 4)

/-- The internal frame of a header 1 frame. -/
def stamp (revision : Nat) (data : Bytes) : Bytes :=
  data.take legacyFrameHeaderBytes ++ toBytes 4 revision ++ data.drop legacyFrameHeaderBytes

structure Worker where
  id : Nat
  protocolVersion : Nat
deriving DecidableEq, Repr

/-- A frame handed to a worker's socket. -/
structure Forward where
  worker : Nat
  revision : Nat
  sent : Bytes
deriving DecidableEq, Repr

/-- What became of a frame whose revision was consumed. -/
inductive Fate where
  /-- It waits in `pending_frame`, or did. -/
  | kept
  | forwarded
  /-- The session had no worker and waited for none. -/
  | dropped
  /-- Its revision did not fit the header. -/
  | raised
deriving DecidableEq, Repr

structure Taken where
  revision : Nat
  fate : Fate
deriving DecidableEq, Repr

/-- Where the browser handler stands, once its session is registered. -/
inductive Handler where
  /-- In its first `place_session`. -/
  | placing
  /-- In its receive loop. -/
  | serving
  | done
deriving DecidableEq, Repr

/-- What waits in the browser's mailbox. -/
inductive Control where
  | frameTooLarge
  | other
deriving DecidableEq, Repr

structure Session where
  id : Bytes
  frameHeader : FrameHeader
  state : SessionState
  worker : Option Worker
  /-- `is_live`: the session is in the dictionary. -/
  isLive : Bool
  handler : Handler
  inputRevision : Nat
  forwardedRevision : Nat
  pendingFrame : Option Bytes
  lastInput : Nat
  frameErrorAfter : Nat
  outControls : List Control
  outClose : Option Nat
  /-- The `resume_idle` tasks and the `admit` tasks that have not ended. -/
  resuming : Nat
  admitting : Nat
  /-- `time.monotonic()`, in milliseconds. -/
  now : Nat
  /-- Every frame forwarded, oldest first. -/
  forwards : List Forward
  /-- Every revision consumed, oldest first. -/
  taken : List Taken
deriving DecidableEq, Repr

namespace Session

variable (s : Session)

/-- `transition`; `none` when it fails. -/
def transition (expected : List SessionState) (new : SessionState) : Option Session :=
  if s.state ≠ .ended ∧ s.state ∈ expected then some { s with state := new } else none

/-- `post`. -/
def post (control : Control) : Session :=
  if s.outClose.isSome then s else { s with outControls := s.outControls ++ [control] }

/-- `post_close`. -/
def postClose (code : Nat) : Session :=
  if s.outClose.isSome then s else { s with outClose := some code }

/-- `post_frame_too_large`. -/
def postFrameTooLarge : Session :=
  if s.now < s.frameErrorAfter ∨ s.outControls ≠ [] then s
  else
    ({ s with frameErrorAfter := s.now + frameTooLargeInterval } : Session).post .frameTooLarge

/-- The `finally` of the handler, with the slot given back. -/
def tearDown : Session :=
  { s with isLive := false, state := .ended, worker := none, handler := .done }

/-- A `ProtocolError` in the receive loop. -/
def protocolError : Session := (s.postClose closeProtocolViolation).tearDown

/-! ## Forwarding -/

/-- `to_worker_frame`: the bytes for this worker. -/
def toWorkerFrame (worker : Worker) (frame : Bytes) : Bytes :=
  if worker.protocolVersion < frameHeader2Version then
    frame.take legacyFrameHeaderBytes ++ frame.drop frameHeaderBytes
  else frame

/-- `worker.ws.send_bytes(to_worker_frame(worker, session, frame))`. -/
def forward (worker : Worker) (frame : Bytes) : Session :=
  { s with
    forwardedRevision := revisionOf frame
    forwards := s.forwards ++ [⟨worker.id, revisionOf frame, toWorkerFrame worker frame⟩] }

/-- `frame, session.pending_frame = session.pending_frame, None`, and the frame goes
to the worker if there is one. -/
def forwardPending : Session :=
  let rest : Session := { s with pendingFrame := none }
  match s.pendingFrame, s.worker with
  | some frame, some worker => rest.forward worker frame
  | _, _ => rest

/-! ## Canvas frames -/

def take (revision : Nat) (fate : Fate) : Session :=
  { s with taken := s.taken ++ [⟨revision, fate⟩] }

/-- `schedule_resume_idle`. -/
def scheduleResumeIdle : Session :=
  match s.transition [.idle] .assigning with
  | some s => { s with resuming := s.resuming + 1 }
  | none => s

/-- `session.last_input = time.monotonic()`. -/
def touch : Session := { s with lastInput := s.now }

/-- `session.pending_frame = frame`. -/
def keep (frame : Bytes) : Session :=
  { s.take (revisionOf frame) .kept with pendingFrame := some frame }

/-- An accepted frame, with its revision already in the session. -/
def accept (frame : Bytes) : Session :=
  match s.state with
  | .idle => (s.touch.keep frame).scheduleResumeIdle
  | .assigning | .queued => s.touch.keep frame
  | _ =>
    match s.worker with
    | some worker =>
      ({ s.touch.take (revisionOf frame) .forwarded with pendingFrame := none } : Session).forward
        worker frame
    | none => s.touch.take (revisionOf frame) .dropped

/-- The frame is a canvas frame of this session. -/
def owns (data : Bytes) : Prop :=
  legacyFrameHeaderBytes ≤ data.length ∧ (data.drop 1).take 16 = s.id ∧
    data.head? = some canvasFrameKind

instance (data : Bytes) : Decidable (s.owns data) := by
  unfold owns
  infer_instance

/-- The frame is over the cap. -/
def oversize (data : Bytes) : Prop :=
  s.frameHeader.bytes + maxCanvasPayloadBytes < data.length

instance (data : Bytes) : Decidable (s.oversize data) := by
  unfold oversize
  infer_instance

/-- A header 2 frame whose revision is not new. -/
def stale (data : Bytes) : Prop :=
  s.frameHeader = .two ∧ revisionOf data ≤ s.inputRevision

instance (data : Bytes) : Decidable (s.stale data) := by
  unfold stale
  infer_instance

/-- `session.input_revision = revision`. -/
def advance (revision : Nat) : Session := { s with inputRevision := revision }

/-- A frame of the right size, its revision read or stamped. The stamp raises
when the revision needs more than four bytes, and that ends the handler. -/
def consume (data : Bytes) : Session :=
  match s.frameHeader with
  | .two => (s.advance (revisionOf data)).accept data
  | .one =>
    let revision := s.inputRevision + 1
    if revision < 2 ^ 32 then (s.advance revision).accept (stamp revision data)
    else ((s.advance revision).take revision .raised).tearDown

/-- A binary message in the receive loop. -/
def binary (data : Bytes) : Session :=
  if ¬ s.owns data then s.protocolError
  else if data.length < s.frameHeader.bytes then s.protocolError
  else if s.oversize data then s.postFrameTooLarge
  else if s.stale data then s
  else s.consume data

end Session

/-! ## The machine -/

/-- What happens next to the session. -/
inductive Action where
  | tick
  /-- The handler's first placement ends: `ready`, or the queue. -/
  | serves (placed : Bool)
  | binary (data : Bytes)
  /-- An `update_params` that passed its checks. -/
  | edits
  /-- The browser leaves, or its handler breaks off. -/
  | leaves
  /-- The browser's writer empties the mailbox. -/
  | writes
  /-- `assign` takes a worker. -/
  | assigns (worker : Worker)
  /-- A worker's `session_ready`, or `assign` after its wait. -/
  | ready
  /-- The worker is given up: by `assign`, by `reassign`, by `release`. -/
  | detaches
  | requeues
  /-- `admit_queued` takes the session from the queue. -/
  | admits
  /-- `resume_idle`, after `place_session` returned. -/
  | resumed (placed : Bool)
  /-- `admit`, after `place_session` returned. -/
  | admitted (placed : Bool)
  /-- A `resume_idle` returns before it places, or raises. -/
  | resumeEnds
  | admissionEnds
  /-- `release_idle_sessions`. -/
  | releasesIdle
  /-- `schedule_reassign`. -/
  | reassigns
  /-- `_close_sessions`. -/
  | revoked
deriving DecidableEq

namespace Session

/-- The tail of `resume_idle` and of `admit`. -/
def settle (s : Session) (placed : Bool) : Session :=
  if placed then
    if s.isLive then s.forwardPending else { s with worker := none }
  else (s.transition [.assigning] .queued).getD s

end Session

/-- One step. -/
def step (s : Session) : Action → Option Session
  | .tick => some { s with now := s.now + 1 }
  | .serves placed =>
    if s.handler = .placing then
      some
        { (if placed then s.post .other else (s.transition [.assigning] .queued).getD s) with
          handler := .serving }
    else none
  | .binary data => if s.handler = .serving then some (s.binary data) else none
  | .edits => if s.handler = .serving then some s.touch else none
  | .leaves => if s.handler = .serving then some s.tearDown else none
  | .writes => some { s with outControls := [] }
  | .assigns worker =>
    if s.isLive ∧ s.state = .assigning then some { s with worker := some worker } else none
  | .ready => s.transition [.assigning] .live
  | .detaches => some { s with worker := none }
  | .requeues => s.transition [.assigning] .queued
  | .admits =>
    (s.transition [.queued] .assigning).map fun s => { s with admitting := s.admitting + 1 }
  | .resumed placed =>
    if 0 < s.resuming then some (({ s with resuming := s.resuming - 1 } : Session).settle placed)
    else none
  | .admitted placed =>
    if 0 < s.admitting then some (({ s with admitting := s.admitting - 1 } : Session).settle placed)
    else none
  | .resumeEnds =>
    if 0 < s.resuming then some { s with resuming := s.resuming - 1 } else none
  | .admissionEnds =>
    if 0 < s.admitting then some { s with admitting := s.admitting - 1 } else none
  | .releasesIdle =>
    if s.lastInput + idleRelease < s.now then
      (s.transition [.live] .idle).map fun s => { s with worker := none }
    else none
  | .reassigns => s.transition [.live] .assigning
  | .revoked => some { (s.postClose closeUnauthorized) with
      isLive := false, state := .ended, worker := none }

/-- A session as the handshake leaves it. -/
def opened (id : Bytes) (frameHeader : FrameHeader) (now : Nat) : Session where
  id := id
  frameHeader := frameHeader
  state := .assigning
  worker := none
  isLive := true
  handler := .placing
  inputRevision := 0
  forwardedRevision := 0
  pendingFrame := none
  lastInput := now
  frameErrorAfter := 0
  outControls := []
  outClose := none
  resuming := 0
  admitting := 0
  now := now
  forwards := []
  taken := []

/-- One browser session, from its `open`. -/
def machine : Machine Session Action where
  init s := ∃ id frameHeader now, id.length = 16 ∧ s = opened id frameHeader now
  step := step

end Potocolom.Frames
