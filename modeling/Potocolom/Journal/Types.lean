import Potocolom.Lib.Table

/-! # Protocol 6 commands: wire messages and tables

The controls that the command journal reads and writes, and the rows of the
tables its transactions touch. A control is a closed shape (`_SHAPES` in
`protocol6.py`), so each kind has exactly the fields of its shape here. -/

namespace Potocolom.Journal

/-- `MAX_SEQUENCE` (`command_subjects.py`): the largest signed 63-bit counter. -/
def maxSequence : Nat := 2 ^ 63 - 1

/-- `MAX_RETAINED_COMMANDS`. -/
def maxRetainedCommands : Nat := 256

/-- `MAX_PENDING_BYTES`. -/
def maxPendingBytes : Nat := 4 * 1024 * 1024

/-- `MAX_SMALL_COMMAND_BYTES`. -/
def maxSmallCommandBytes : Nat := 16 * 1024

/-- `MAX_PARAMETER_COMMAND_BYTES`. -/
def maxParameterCommandBytes : Nat := 1024 * 1024

/-- `CONSUMING_REFUSALS`: the refusal codes that settle a command. -/
def consumingRefusals : List String :=
  ["authority_expired", "authority_mismatch", "attempt_stale", "revision_stale",
   "unsupported_control", "out_of_memory", "model_unavailable", "invalid_params",
   "capacity_unavailable", "dependency_unavailable", "checkpoint_incompatible"]

abbrev Uuid := Nat
/-- A SHA-256 digest as lowercase hex. -/
abbrev Hash := String
/-- A `timestamptz`, as a number of ticks. -/
abbrev Time := Nat
/-- A JSON value the journal carries and compares but never opens. -/
abbrev Params := String

/-- One connection of one worker: the key `(worker_id, incarnation)`. -/
structure Incarnation where
  workerId : String
  incarnation : Uuid
deriving DecidableEq, Repr

/-! ## Controls -/

/-- The five commands the journal carries (`SUBJECT_FIELDS`). -/
inductive CommandKind where
  | openSession
  | updateSession
  | closeSession
  | dispatchJob
  | cancelJob
deriving DecidableEq, Repr

/-- `kind.endswith("session")`. -/
def CommandKind.isSession : CommandKind → Bool
  | .openSession | .updateSession | .closeSession => true
  | .dispatchJob | .cancelJob => false

/-- The fields every command and every acknowledgement has (`_ACK_COMMON`, less
`body_hash`). -/
structure Header where
  workerId : String
  incarnation : Uuid
  region : String
  ownerEpoch : Nat
  leaseId : Uuid
  leaseExpiresAt : Time
  grantNonce : Uuid
  commandSequence : Nat
  commandId : Uuid
deriving DecidableEq, Repr

/-- The incarnation a control is bound to. -/
def Header.worker (h : Header) : Incarnation := ⟨h.workerId, h.incarnation⟩

/-- The fields of a command beyond its header, by kind. -/
inductive CommandFields where
  | openSession (sessionId attemptId : Uuid) (controlGeneration : Nat)
      (modelId : String) (params : Params) (rangeId : Uuid)
  | updateSession (sessionId attemptId : Uuid) (controlGeneration : Nat)
      (modelId : String) (params : Params) (paramsRevision : Nat)
  | closeSession (sessionId attemptId : Uuid) (controlGeneration : Nat)
  | dispatchJob (jobId : Uuid) (dispatchSequence : Nat)
      (modelId : String) (params : Params) (rangeId : Uuid) (dispatchToken : String)
  | cancelJob (jobId : Uuid) (dispatchSequence : Nat) (dispatchToken : String)
deriving DecidableEq, Repr

/-- The subject fields an acknowledgement may carry: one of the closed
`command_ack` shapes. -/
inductive AckSubject where
  | session (sessionId attemptId : Uuid) (controlGeneration : Nat)
  | job (jobId : Uuid) (dispatchSequence : Nat)
  | model (requestId : Uuid) (modelId : String)
  | worker
deriving DecidableEq, Repr

def CommandFields.kind : CommandFields → CommandKind
  | .openSession .. => .openSession
  | .updateSession .. => .updateSession
  | .closeSession .. => .closeSession
  | .dispatchJob .. => .dispatchJob
  | .cancelJob .. => .cancelJob

/-- The fields that `SUBJECT_FIELDS` names for the command's kind. -/
def CommandFields.subject : CommandFields → AckSubject
  | .openSession s a g .. | .updateSession s a g .. | .closeSession s a g => .session s a g
  | .dispatchJob j d .. | .cancelJob j d _ => .job j d

/-- `_command_identity`: the subject and the sequence a command is about. -/
def CommandFields.identity : CommandFields → Uuid × Nat
  | .openSession s _ g .. | .updateSession s _ g .. | .closeSession s _ g => (s, g)
  | .dispatchJob j d .. | .cancelJob j d _ => (j, d)

/-- A worker command as it goes over the wire. -/
structure Command where
  header : Header
  fields : CommandFields
  bodyHash : Hash
deriving DecidableEq, Repr

def Command.kind (c : Command) : CommandKind := c.fields.kind

/-- A `command_ack` as it comes off the wire. -/
structure Ack where
  header : Header
  bodyHash : Hash
  subject : AckSubject
  status : String
  code : Option String
  expectedSequence : Option Nat
deriving DecidableEq, Repr

/-- `_ack_identity_projection`: what an acknowledgement must share with the
command it answers. -/
structure AckIdentity where
  kind : CommandKind
  header : Header
  bodyHash : Hash
  subject : AckSubject
deriving DecidableEq, Repr

/-- Project the identity out of a control's fields. The subject fields named for
`kind` must all be there. -/
def ackIdentityProjection (kind : CommandKind) (header : Header) (bodyHash : Hash)
    (subject : AckSubject) : Except String AckIdentity :=
  match kind.isSession, subject with
  | true, .session .. | false, .job .. => .ok ⟨kind, header, bodyHash, subject⟩
  | _, _ => .error "command acknowledgement identity is incomplete"

/-- A command names every field of its own identity. -/
def Command.ackIdentity (c : Command) : AckIdentity :=
  ⟨c.kind, c.header, c.bodyHash, c.fields.subject⟩

theorem ackIdentityProjection_eq_ok {kind : CommandKind} {header : Header} {bodyHash : Hash}
    {subject : AckSubject} {i : AckIdentity}
    (h : ackIdentityProjection kind header bodyHash subject = .ok i) :
    i = ⟨kind, header, bodyHash, subject⟩ := by
  unfold ackIdentityProjection at h
  split at h <;> first | exact (Except.ok.inj h).symm | cases h

/-- Hashing and sizing of controls (`hashlib.sha256`, `canonical_bytes`): the
journal relies on nothing but their being functions of the control. -/
structure Codec where
  /-- SHA-256 of the canonical body without its `body_hash`. -/
  bodyHash : Header → CommandFields → Hash
  /-- SHA-256 of the canonical identity projection. -/
  identityHash : AckIdentity → Hash
  /-- SHA-256 of a dispatch token. -/
  tokenHash : String → Hash
  /-- `len(canonical_bytes(command))`. -/
  commandBytes : Command → Nat
  /-- `len(canonical_bytes(ack))`. -/
  ackBytes : Ack → Nat
  /-- Whether `preflight_worker_control` takes the command's remaining fields. -/
  admits : Command → Bool

/-! ## Encryption at rest -/

/-- What a stored body is bound to (`_aad`). -/
structure Aad where
  worker : Incarnation
  sequence : Nat
  commandId : Uuid
  bodyHash : Hash
deriving DecidableEq, Repr

/-- A body encrypted under one key version and bound to `aad`. -/
structure Sealed where
  version : Nat
  aad : Aad
  plain : Command
deriving DecidableEq, Repr

/-- The root keys a process holds; `active` encrypts. -/
structure KeyRing where
  versions : List Nat
  active : Nat
  active_mem : active ∈ versions

def KeyRing.encrypt (ring : KeyRing) (plain : Command) (aad : Aad) : Sealed :=
  ⟨ring.active, aad, plain⟩

/-- Decryption needs the key and the very context the body was bound to. -/
def KeyRing.decrypt (ring : KeyRing) (blob : Sealed) (aad : Aad) : Option Command :=
  if blob.version ∈ ring.versions ∧ blob.aad = aad then some blob.plain else none

/-! ## Journal rows -/

inductive RowState where
  | pending
  | acknowledged
  | erased
deriving DecidableEq, Repr

/-- A row of `worker_commands`; its worker is the key it is stored under. -/
structure CommandRow where
  sequence : Nat
  commandId : Uuid
  kind : CommandKind
  bodyHash : Hash
  accountUserId : Option Uuid
  subjectId : Uuid
  subjectSequence : Nat
  ackIdentityHash : Option Hash
  keyVersion : Option Nat
  encryptedBody : Option Sealed
  completeBytes : Nat
  state : RowState
  createdAt : Time
  acknowledgedAt : Option Time
  ackStatus : Option String
  ackCode : Option String
  expectedSequence : Option Nat
  ackBody : Option Ack
deriving DecidableEq, Repr

/-- `SET state = 'erased', …`: what every erasure writes. -/
def CommandRow.erase (r : CommandRow) : CommandRow :=
  { r with
    state := .erased, encryptedBody := none, keyVersion := none, completeBytes := 0
    acknowledgedAt := none, ackStatus := none, ackCode := none, expectedSequence := none
    ackBody := none }

/-- `SET state = 'acknowledged', …` on a pending row. -/
def CommandRow.acknowledge (r : CommandRow) (ack : Ack) (now : Time) : CommandRow :=
  { r with
    state := .acknowledged, encryptedBody := none, keyVersion := none, completeBytes := 0
    acknowledgedAt := some now, ackStatus := some ack.status, ackCode := ack.code
    expectedSequence := none, ackBody := some ack }

/-- `SET state = 'acknowledged', …` on an erased row. -/
def CommandRow.acknowledgeErased (r : CommandRow) (ack : Ack) (now : Time) : CommandRow :=
  { r with
    state := .acknowledged, acknowledgedAt := some now, ackStatus := some ack.status
    ackCode := ack.code, ackBody := some ack }

@[simp] theorem CommandRow.erase_sequence (r : CommandRow) : r.erase.sequence = r.sequence := rfl
@[simp] theorem CommandRow.erase_state (r : CommandRow) : r.erase.state = .erased := rfl
@[simp] theorem CommandRow.acknowledge_sequence (r : CommandRow) (a : Ack) (t : Time) :
    (r.acknowledge a t).sequence = r.sequence := rfl
@[simp] theorem CommandRow.acknowledge_state (r : CommandRow) (a : Ack) (t : Time) :
    (r.acknowledge a t).state = .acknowledged := rfl
@[simp] theorem CommandRow.acknowledgeErased_sequence (r : CommandRow) (a : Ack) (t : Time) :
    (r.acknowledgeErased a t).sequence = r.sequence := rfl
@[simp] theorem CommandRow.acknowledgeErased_state (r : CommandRow) (a : Ack) (t : Time) :
    (r.acknowledgeErased a t).state = .acknowledged := rfl

/-! ## The other tables -/

inductive Role where
  | viewer
  | user
  | admin
deriving DecidableEq, Repr

inductive AccountState where
  | active
  | suspended
  | disabled
  | deletionPending
  | purging
deriving DecidableEq, Repr

structure User where
  role : Role
  state : AccountState
deriving DecidableEq, Repr

/-- A browser sign-in (`sessions`). -/
structure AuthSession where
  userId : Uuid
  idleExpiresAt : Option Time
  absoluteExpiresAt : Time
  revokedAt : Option Time
deriving DecidableEq, Repr

inductive SessionState where
  | queued
  | assigning
  | live
  | idle
  | ending
  | ended
deriving DecidableEq, Repr

/-- A row of `realtime_sessions`; deleting the account clears `userId`. -/
structure RealtimeSession where
  userId : Option Uuid
  authSessionId : Option Uuid
  browserOwnerId : Uuid
  modelId : String
  effectiveParams : Params
  desiredParams : Params
  paramsRevision : Nat
  desiredRevision : Nat
  state : SessionState
  controlGeneration : Nat
  ownerEpoch : Nat
deriving DecidableEq, Repr

inductive AttemptState where
  | opening
  | running
  | ended
deriving DecidableEq, Repr

/-- A row of `realtime_session_attempts`, keyed by session and generation. -/
structure SessionAttempt where
  worker : Incarnation
  ownerEpoch : Nat
  attemptId : Uuid
  state : AttemptState
  rangeId : Option Uuid
  reportSequence : Nat
deriving DecidableEq, Repr

inductive JobState where
  | queued
  | running
  | succeeded
  | failed
  | cancelled
deriving DecidableEq, Repr

/-- A row of `jobs`, as far as its commands read it. -/
structure Job where
  userId : Uuid
  modelId : String
  params : Params
  state : JobState
  attempt : Nat
  currentDispatchSequence : Nat
  sourceAssetId : Option Uuid
deriving DecidableEq, Repr

inductive JobAttemptState where
  | dispatching
  | running
  | completed
  | failed
  | cancelled
deriving DecidableEq, Repr

/-- A row of `job_attempts`, keyed by job and dispatch sequence. -/
structure JobAttempt where
  commandId : Uuid
  worker : Incarnation
  ownerEpoch : Nat
  state : JobAttemptState
  dispatchTokenHash : Hash
  rangeId : Option Uuid
  terminalAt : Option Time
  reportSequence : Nat
deriving DecidableEq, Repr

inductive RangeState where
  | outstanding
  | drained
  | measurementExpired
deriving DecidableEq, Repr

/-- What a physical range measures: a session attempt or a job dispatch. -/
inductive RangeSubject where
  | session (subjectId attemptId : Uuid) (controlGeneration : Nat)
  | job (subjectId : Uuid) (dispatchSequence : Nat)
deriving DecidableEq, Repr

/-- A row of `worker_physical_ranges`. -/
structure PhysicalRange where
  worker : Incarnation
  region : String
  ownerEpoch : Nat
  accountUserId : Uuid
  subject : RangeSubject
  state : RangeState
  reportSequence : Nat
deriving DecidableEq, Repr

/-- A row of `scheduler_leases`. -/
structure Lease where
  ownerId : Uuid
  ownerEpoch : Nat
  leaseId : Uuid
  expiresAt : Time
deriving DecidableEq, Repr

inductive Lifecycle where
  | connecting
  | loading
  | calibrating
  | ready
  | draining
  | ended
deriving DecidableEq, Repr

/-- The columns of `worker_connections` other than the two journal counters. -/
structure Grant where
  transportOwnerId : Uuid
  region : String
  ownerEpoch : Nat
  leaseId : Uuid
  leaseExpiresAt : Time
  grantNonce : Uuid
  grantExpiresAt : Time
  grantReady : Bool
  lifecycle : Lifecycle
  closedAt : Option Time
deriving DecidableEq, Repr

/-- A row of `worker_connections`: the columns above and the journal counters. -/
structure Connection extends Grant where
  nextCommandSequence : Nat
  acknowledgedFloor : Nat
deriving DecidableEq, Repr

/-- A fresh row: the counters' server defaults. -/
def Connection.fresh (g : Grant) : Connection :=
  { g with nextCommandSequence := 1, acknowledgedFloor := 0 }

/-- How the installation signs people in (`auth_mode.py`). -/
inductive AuthMode where
  | unclaimed
  | none
  | accounts
deriving DecidableEq, Repr

/-- Every table the command transactions read except the journal and the
connections. -/
structure Subjects where
  authMode : AuthMode
  localUserId : Option Uuid
  users : Table Uuid User
  authSessions : Table Uuid AuthSession
  sessions : Table Uuid RealtimeSession
  sessionAttempts : Table (Uuid × Nat) SessionAttempt
  jobs : Table Uuid Job
  jobAttempts : Table (Uuid × Nat) JobAttempt
  assets : Table Uuid Uuid
  ranges : Table Uuid PhysicalRange
  receipts : Table (Uuid × Nat) Hash
  leases : Table String Lease

/-- The database the journal's transactions run on. -/
structure Db where
  subjects : Subjects
  connections : Table Incarnation Connection
  /-- `worker_commands`, in `ORDER BY command_sequence`. -/
  journal : Incarnation → List CommandRow

end Potocolom.Journal
