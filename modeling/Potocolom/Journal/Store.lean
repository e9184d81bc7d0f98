import Potocolom.Lib.Window
import Potocolom.Journal.Subjects

/-! # The command store

`command_store.py`: the transactions on `worker_commands` and on the two journal
counters of `worker_connections`. Each is one database transaction: it answers
and commits, or refuses and changes nothing. The rows it locks first cannot
change under it, so a value the source reads twice in one transaction (an
unlocked hint, then the locked row) is read once here. -/

namespace Potocolom.Journal

open Guard

/-- What the process brings to its transactions: hashing and sizing, and the id
under which it owns scheduler leases. -/
structure Api where
  codec : Codec
  schedulerOwnerId : Uuid

/-- `command_size_limit`. -/
def commandSizeLimit (kind : CommandKind) : Nat :=
  match kind with
  | .dispatchJob | .openSession | .updateSession => maxParameterCommandBytes
  | .closeSession | .cancelJob => maxSmallCommandBytes

/-- `validate_message` on a `command_ack`: bound to the connection, signed 63-bit
counters, and a code and an expected sequence exactly where the status asks for
them. -/
def validateAck (ack : Ack) (expected : Incarnation) : Bool :=
  ack.header.worker == expected &&
    decide (1 ≤ ack.header.commandSequence ∧ ack.header.commandSequence ≤ maxSequence) &&
    (ack.status == "accepted" && ack.code.isNone && ack.expectedSequence.isNone ||
      ack.status == "refused" && ack.code.isSome &&
        (ack.code == some "sequence_gap") == ack.expectedSequence.isSome)

/-- The row at `sequence`. -/
def rowAt (rows : List CommandRow) (sequence : Nat) : Option CommandRow :=
  rows.find? (·.sequence == sequence)

/-- `ack["status"] == "accepted"`, or a refusal that settles the command. -/
def Ack.consuming (ack : Ack) : Bool :=
  ack.status == "accepted" || ack.code.any (decide <| · ∈ consumingRefusals)

/-- `set(ack) == required`: the subject fields of the row's kind, and a code
exactly on a refusal. -/
def Ack.shapedFor (ack : Ack) (kind : CommandKind) : Bool :=
  (match kind.isSession, ack.subject with
    | true, .session .. | false, .job .. => true
    | _, _ => false) &&
    (ack.status == "refused") == ack.code.isSome && ack.expectedSequence.isNone

/-- `_ack_identity_hash`. -/
def Ack.identityHash (codec : Codec) (kind : CommandKind) (ack : Ack) : Except String Hash := do
  let identity ← ackIdentityProjection kind ack.header ack.bodyHash ack.subject
  pure (codec.identityHash identity)

/-- `_known_acknowledged`: the row holds an outcome of the very command it was
committed for. -/
def knownAcknowledged (codec : Codec) (worker : Incarnation) (row : CommandRow) : Bool :=
  match row.state, row.ackIdentityHash, row.acknowledgedAt, row.expectedSequence, row.ackBody with
  | .acknowledged, some identityHash, some _, none, some ack =>
    decide (codec.ackBytes ack ≤ maxSmallCommandBytes) && validateAck ack worker &&
      row.ackStatus == some ack.status && ack.code == row.ackCode &&
      ack.expectedSequence.isNone &&
      (ack.status == "accepted" && row.ackCode.isNone ||
        ack.status == "refused" && row.ackCode.any (decide <| · ∈ consumingRefusals)) &&
      ack.shapedFor row.kind && ack.header.commandId == row.commandId &&
      ack.bodyHash == row.bodyHash && ack.header.commandSequence == row.sequence &&
      (match ack.identityHash codec row.kind with
        | .ok h => identityHash == h
        | .error _ => false)
  | _, _, _, _, _ => false

/-- `DELETE … WHERE command_sequence <= :floor AND state = 'acknowledged'`, issued
only when the floor moved. -/
def purge (old floor : Nat) (rows : List CommandRow) : List CommandRow :=
  if old < floor then rows.filter fun r => !(r.sequence ≤ floor && r.state == .acknowledged)
  else rows

/-- `sum(complete_bytes)` over the pending rows. -/
def pendingBytes (rows : List CommandRow) : Nat :=
  ((rows.filter (·.state == .pending)).map (·.completeBytes)).sum

/-- Replace the journal of one worker. -/
def Db.setJournal (db : Db) (worker : Incarnation) (rows : List CommandRow) : Db :=
  { db with journal := Function.update db.journal worker rows }

/-- Replace the connection row of one worker. -/
def Db.setConnection (db : Db) (worker : Incarnation) (c : Connection) : Db :=
  { db with connections := db.connections.set worker c }

/-! ## Committing -/

/-- The arguments of `commit_command`, and what it takes from its surroundings. -/
structure CommitCall where
  worker : Incarnation
  fields : CommandFields
  grantNonce : Uuid
  transportOwnerId : Uuid
  accountUserId : Option Uuid
  sessionContext : Option SessionContext
  jobContext : Option (Option Uuid)
  /-- `uuid.uuid4()`. -/
  commandId : Uuid
  keyRing : Option KeyRing
  now : Time

/-- The command row and the desired parameters `commit_command` committed. -/
structure Committed where
  stored : StoredCommand
  desired : Option (Params × Nat)

/-- The control that is committed for `c` on a connection. -/
def CommitCall.command (codec : Codec) (c : CommitCall) (worker : Connection)
    (fields : CommandFields) : Command :=
  let header : Header :=
    { workerId := c.worker.workerId, incarnation := c.worker.incarnation, region := worker.region
      ownerEpoch := worker.ownerEpoch, leaseId := worker.leaseId
      leaseExpiresAt := worker.leaseExpiresAt, grantNonce := c.grantNonce
      commandSequence := worker.nextCommandSequence, commandId := c.commandId }
  ⟨header, fields, codec.bodyHash header fields⟩

/-- The row inserted for a command. -/
def pendingRow (codec : Codec) (c : CommitCall) (accountUserId : Uuid) (command : Command)
    (sealed : Sealed) : CommandRow where
  sequence := command.header.commandSequence
  commandId := c.commandId
  kind := command.kind
  bodyHash := command.bodyHash
  accountUserId := some accountUserId
  subjectId := command.fields.identity.1
  subjectSequence := command.fields.identity.2
  ackIdentityHash := some (codec.identityHash command.ackIdentity)
  keyVersion := some sealed.version
  encryptedBody := some sealed
  completeBytes := codec.commandBytes command
  state := .pending
  createdAt := c.now
  acknowledgedAt := none
  ackStatus := none
  ackCode := none
  expectedSequence := none
  ackBody := none

/-- What `StoredCommand` keeps of a row. -/
def CommandRow.stored (r : CommandRow) (worker : Incarnation) (body : Option Command) :
    StoredCommand :=
  { worker := worker, sequence := r.sequence, commandId := r.commandId, bodyHash := r.bodyHash
    body := body, createdAt := r.createdAt, accountUserId := r.accountUserId
    subjectId := r.subjectId, subjectSequence := r.subjectSequence
    ackIdentityHash := r.ackIdentityHash }

/-- Some journal holds a row with this command id (the unique constraint). -/
def Db.CommandIdUsed (db : Db) (commandId : Uuid) : Prop :=
  db.connections.Any fun w _ => ∃ r ∈ db.journal w, r.commandId = commandId

instance (db : Db) (commandId : Uuid) : Decidable (db.CommandIdUsed commandId) :=
  inferInstanceAs (Decidable (Table.Any _ _))

/-- The connection, authority and lease under which `commit_command` may write. -/
def commitAuthority (api : Api) (c : CommitCall) (db : Db) (cancelAttempt : Option JobAttempt) :
    Except String Connection := do
  let worker ← demand (db.connections.get c.worker) "worker has no current work grant"
  require (worker.closedAt = none ∧ worker.lifecycle = .ready) "worker has no current work grant"
  let lease ← demand (db.subjects.leases.get worker.region)
    "regional scheduler lease is unavailable"
  require (lease.ownerId = api.schedulerOwnerId) "regional scheduler lease is unavailable"
  require (worker.transportOwnerId = c.transportOwnerId ∧ worker.grantReady)
    "worker has no current work grant"
  require (∀ a ∈ cancelAttempt, a.worker = c.worker ∧ a.ownerEpoch = worker.ownerEpoch)
    "job cancellation owner is stale"
  require (worker.grantNonce = c.grantNonce) "worker grant nonce is stale"
  require (worker.ownerEpoch = lease.ownerEpoch ∧ worker.leaseId = lease.leaseId)
    "worker authority is no longer current"
  require (c.now < lease.expiresAt) "regional scheduler lease has expired"
  require (c.now < worker.grantExpiresAt) "worker grant has expired"
  require (worker.nextCommandSequence < maxSequence) "worker command sequence is exhausted"
  pure worker

/-- `commit_command`. -/
def commitCommand (api : Api) (c : CommitCall) (db : Db) : Except String (Committed × Db) := do
  let accountUserId ← demand c.accountUserId "command account identity is unavailable"
  require (∀ w ∈ db.connections.get c.worker, w.nextCommandSequence < maxSequence)
    "worker command sequence is exhausted"
  let prepared ← prepareCommandSubject api.codec db c.fields accountUserId c.sessionContext
    c.jobContext c.worker c.transportOwnerId c.now
  let worker ← commitAuthority api c db prepared.cancelAttempt
  let locked := db.journal c.worker
  let command := c.command api.codec worker prepared.messageFields
  require (1 ≤ command.fields.identity.2 ∧ command.fields.identity.2 ≤ maxSequence)
    "command subject sequence is invalid"
  require (api.codec.admits command) "command does not match protocol6"
  let size := api.codec.commandBytes command
  require (size ≤ commandSizeLimit command.kind) "command exceeds protocol6 size limit"
  let floor := Window.advance
    (fun q => (rowAt locked q).any (knownAcknowledged api.codec c.worker))
    worker.nextCommandSequence worker.acknowledgedFloor
  let retained := purge worker.acknowledgedFloor floor locked
  require (retained.length < maxRetainedCommands ∧ pendingBytes locked + size ≤ maxPendingBytes)
    "worker command journal is full"
  let keyRing ← demand c.keyRing "worker command key is unavailable"
  let sealed := keyRing.encrypt command
    ⟨c.worker, command.header.commandSequence, c.commandId, command.bodyHash⟩
  let subjects ← applyCommandClaim api.codec prepared.subjects prepared.claim c.worker
    accountUserId c.commandId worker.toGrant
  require (rowAt retained command.header.commandSequence = none ∧ ¬ db.CommandIdUsed c.commandId)
    duplicateKey
  let row := pendingRow api.codec c accountUserId command sealed
  pure
    (⟨row.stored c.worker none, prepared.committedDesired⟩,
      { subjects := subjects
        connections := db.connections.set c.worker
          { worker with
            nextCommandSequence := worker.nextCommandSequence + 1, acknowledgedFloor := floor }
        journal := Function.update db.journal c.worker (retained ++ [row]) })

/-! ## Reading the head -/

/-- `read_exact_pending`: the pending command at `acknowledged_floor + 1`. -/
def readExactPending (api : Api) (worker : Incarnation) (transportOwnerId : Uuid)
    (keyRing : Option KeyRing) (now : Time) (db : Db) : Except String (Option StoredCommand) := do
  let owned := (db.connections.get worker).filter (·.transportOwnerId == transportOwnerId)
  let authority := owned.filter fun w =>
    w.closedAt.isNone && (w.lifecycle == .ready || w.lifecycle == .draining) &&
      (db.subjects.leases.get w.region).any fun lease =>
        lease.ownerEpoch == w.ownerEpoch && lease.leaseId == w.leaseId &&
          decide (now < lease.expiresAt)
  match authority with
  | none =>
    require (∀ w ∈ owned, w.acknowledgedFloor + 1 < w.nextCommandSequence →
        (rowAt (db.journal worker) (w.acknowledgedFloor + 1)).map (·.state) = some .pending)
      "worker command head is unresolved"
    pure none
  | some w =>
    if w.acknowledgedFloor + 1 < w.nextCommandSequence then do
      let row ← demand (rowAt (db.journal worker) (w.acknowledgedFloor + 1))
        "worker command journal has an unresolved gap"
      require (row.state = .pending) "worker command head is unresolved"
      let ring ← demand keyRing "retained worker command cannot be read"
      let blob ← demand row.encryptedBody "retained worker command cannot be read"
      let message ← demand
        (ring.decrypt blob ⟨worker, row.sequence, row.commandId, row.bodyHash⟩)
        "retained worker command cannot be read"
      require (message.header.worker = worker ∧ message.header.ownerEpoch = w.ownerEpoch ∧
          message.header.leaseId = w.leaseId)
        "pending worker command authority is stale"
      require (api.codec.bodyHash message.header message.fields = row.bodyHash)
        "retained worker command failed its body hash"
      require (row.accountUserId ≠ none ∧ (row.subjectId, row.subjectSequence) =
            message.fields.identity ∧
          row.ackIdentityHash = some (api.codec.identityHash message.ackIdentity))
        "retained worker command identity is unavailable"
      pure (some (row.stored worker (some message)))
    else pure none

/-! ## Erasing -/

/-- A row an erasure rewrites. -/
def Selection.erases (sel : Selection) (r : CommandRow) : Bool :=
  sel.selects r && r.state == .pending

/-- Whether an erasure closes worker `w`: it fences it, or erases a row of it. -/
def Selection.closes (sel : Selection) (db : Db) (w : Incarnation) : Bool :=
  sel.fences w || (db.journal w).any sel.erases

/-- `_erase_pending_rows`: erase the selected pending rows and close every worker
that held one or is fenced. -/
def erasePendingRows (sel : Selection) (now : Time) (db : Db) : Db where
  subjects := db.subjects
  connections := db.connections.updateWhere (fun w _ => sel.closes db w = true)
    fun c => { c with closedAt := some (c.closedAt.getD now) }
  journal w := (db.journal w).map fun r => if sel.erases r then r.erase else r

/-- `erase_account_commands`. -/
def eraseAccountCommands (accountUserIds : List Uuid) (now : Time) (db : Db) : Db :=
  erasePendingRows (accountErasureSelection db.subjects accountUserIds) now db

/-- `erase_realtime_commands`. -/
def eraseRealtimeCommands (accountUserId : Uuid) (authSessionIds : Option (List Uuid))
    (keepAuthSessionId : Option Uuid) (now : Time) (db : Db) : Db :=
  erasePendingRows
    (realtimeErasureSelection db.subjects accountUserId authSessionIds keepAuthSessionId) now db

/-- `erase_subject_commands`. -/
def eraseSubjectCommands (accountUserId : Uuid) (kind : SubjectKind) (subjectId : Uuid)
    (subjectSequence : Option Nat) (now : Time) (db : Db) : Except String (Unit × Db) := do
  let sel ← subjectErasureSelection db.subjects accountUserId kind subjectId subjectSequence
  pure ((), erasePendingRows sel now db)

/-- Sixty-four lowercase hex digits. -/
def isDigest (h : Hash) : Bool :=
  h.length == 64 && h.all fun c => decide (c ∈ "0123456789abcdef".toList)

/-- `erase_reported_subject_command`: a physical report settles the one pending
command it answers, and closes no worker. -/
def eraseReportedSubjectCommand (accountUserId : Uuid) (c : ReportedCommand) (db : Db) :
    Except String (Unit × Db) := do
  let rows ← lockReportedCommand db accountUserId c
  match rows with
  | [row] =>
    let identityHash ← demand row.ackIdentityHash "pending command identity is unavailable"
    require (isDigest identityHash) "reported pending command identity changed"
    pure ((), db.setJournal c.worker ((db.journal c.worker).map fun r =>
      if r.sequence == row.sequence && r.state == .pending then r.erase else r))
  | _ => pure ((), db)

/-! ## Registering a delivery -/

/-- `register_delivery`: under the row locks, the head command is handed to the
transport (`register` is its answer). Nothing is written. -/
def registerDelivery (api : Api) (command : StoredCommand) (worker : Incarnation)
    (transportOwnerId : Uuid) (register : Bool) (now : Time) (db : Db) :
    Except String Unit := do
  require (command.worker = worker) "command delivery identity changed"
  let accountUserId ← demand command.accountUserId "command delivery identity changed"
  let body ← demand command.body "command delivery identity changed"
  require (body.header.worker = worker ∧
      api.codec.bodyHash body.header body.fields = command.bodyHash ∧
      some (api.codec.identityHash body.ackIdentity) = command.ackIdentityHash)
    "command delivery body changed"
  let deadlines ← lockDeliverySubject db.subjects accountUserId command.subjectId
    command.subjectSequence body worker transportOwnerId
  let head ← demand (rowAt (db.journal worker) command.sequence) "command is no longer pending"
  require (head.state = .pending ∧ head.commandId = command.commandId ∧
      head.bodyHash = command.bodyHash ∧ head.accountUserId = command.accountUserId ∧
      head.subjectId = command.subjectId ∧ head.subjectSequence = command.subjectSequence ∧
      head.ackIdentityHash = command.ackIdentityHash)
    "command is no longer pending"
  let w ← demand (db.connections.get worker) "worker connection is unavailable"
  let lease ← demand (db.subjects.leases.get w.region) "worker delivery authority is stale"
  require (w.closedAt = none ∧ w.transportOwnerId = transportOwnerId ∧
      lease.ownerId = api.schedulerOwnerId ∧ w.ownerEpoch = lease.ownerEpoch ∧
      w.leaseId = lease.leaseId ∧ w.grantReady ∧ w.lifecycle = .ready)
    "worker delivery authority is stale"
  require (command.sequence = w.acknowledgedFloor + 1)
    "command is not the unresolved journal head"
  require (now < lease.expiresAt ∧ now < w.grantExpiresAt ∧ deadlinesLive deadlines now)
    "worker delivery authority or browser binding expired"
  require register "command delivery registration refused"

/-! ## Acknowledging -/

/-- The parameters an accepted update makes effective. -/
structure Publication where
  accountUserId : Uuid
  subjectId : Uuid
  subjectSequence : Nat
  modelId : String
  params : Params
  paramsRevision : Nat
  attemptId : Uuid
deriving DecidableEq, Repr

/-- The answer of `acknowledge`. -/
structure CommandAckResult where
  recorded : Bool
  obsolete : Bool
  publication : Option Publication
deriving DecidableEq, Repr

/-- `CommandAckResult(False)`. -/
def CommandAckResult.ignored : CommandAckResult := ⟨false, false, none⟩

/-- How `acknowledge` leaves before its end: it raises, or it answers at once
and the transaction has written nothing. -/
inductive AckExit where
  | raised (why : String)
  | answered (result : CommandAckResult)
deriving DecidableEq, Repr

/-- The arguments of `acknowledge`, and what it takes from its surroundings. -/
structure AckCall where
  message : Ack
  expected : Incarnation
  transportOwnerId : Uuid
  keyRing : Option KeyRing
  now : Time

/-- `_ack_matches`: the acknowledgement repeats the command's own fields. -/
def ackMatches (command : Command) (ack : Ack) : Bool :=
  ack.header == command.header && ack.bodyHash == command.bodyHash &&
    ack.subject == command.fields.subject

/-- The conditions under which an accepted update becomes effective. -/
def updatePublishes (db : Subjects) (row : CommandRow) (accountUserId : Uuid) (worker : Incarnation)
    (transportOwnerId : Uuid) (now : Time) (attemptId : Uuid) (modelId : String)
    (revision : Nat) : Bool :=
  match db.sessions.get row.subjectId, db.sessionAttempts.get (row.subjectId, row.subjectSequence)
  with
  | some entity, some attempt =>
    entity.userId == some accountUserId && entity.controlGeneration == row.subjectSequence &&
      entity.modelId == modelId && (entity.state == .live || entity.state == .idle) &&
      entity.browserOwnerId == transportOwnerId &&
      currentPrincipal db accountUserId entity.authSessionId now &&
      decide (entity.paramsRevision < revision) && attempt.worker == worker &&
      attempt.attemptId == attemptId && attempt.state == .running &&
      (attempt.rangeId.bind db.ranges.get).any fun r =>
        r.accountUserId == accountUserId && r.state == .outstanding
  | _, _ => false

/-- Make an accepted update effective, where its session still wants it. -/
def publishUpdate (db : Subjects) (row : CommandRow) (accountUserId : Uuid) (ack : Ack)
    (worker : Incarnation) (transportOwnerId : Uuid) (now : Time) (command : Option Command) :
    Subjects × Option Publication :=
  match command.map Command.fields, db.sessions.get row.subjectId with
  | some (.updateSession _ attemptId _ modelId params revision), some entity =>
    if ack.status = "accepted" ∧ row.kind = .updateSession ∧
        updatePublishes db row accountUserId worker transportOwnerId now attemptId modelId revision
    then
      ({ db with
          sessions := db.sessions.set row.subjectId
            { entity with effectiveParams := params, paramsRevision := revision } },
        some
          { accountUserId := accountUserId, subjectId := row.subjectId
            subjectSequence := row.subjectSequence, modelId := modelId, params := params
            paramsRevision := revision, attemptId := attemptId })
    else (db, none)
  | _, _ => (db, none)

/-- What recording an acknowledgement does to its row and its subject. -/
structure AckEffect where
  row : CommandRow
  subjects : Subjects
  missingKey : Bool
  publication : Option Publication

/-- The command behind a pending row, once its key is found missing or its body
decrypted and compared. -/
def openPending (row : CommandRow) (c : AckCall) : Except AckExit (Option Command) :=
  match c.keyRing, row.keyVersion with
  | some ring, some version =>
    if version ∈ ring.versions then do
      let command ← demand
        (row.encryptedBody.bind (ring.decrypt ·
          ⟨c.expected, row.sequence, row.commandId, row.bodyHash⟩))
        (.raised "pending command cannot be verified")
      require (ackMatches command c.message) (.answered .ignored)
      pure (some command)
    else pure none
  | _, _ => pure none

/-- The branches of `acknowledge` on the state of the row. -/
def recordAck (api : Api) (c : AckCall) (row : CommandRow) (db : Subjects) :
    Except AckExit AckEffect :=
  match row.state with
  | .acknowledged => do
    require (knownAcknowledged api.codec c.expected row ∧ row.ackBody = some c.message)
      (.answered .ignored)
    pure ⟨row, db, false, none⟩
  | .erased => pure ⟨row.acknowledgeErased c.message c.now, db, false, none⟩
  | .pending => do
    let accountUserId ← demand row.accountUserId (.answered .ignored)
    let command ← openPending row c
    let published := publishUpdate db row accountUserId c.message c.expected c.transportOwnerId
      c.now command
    pure ⟨row.acknowledge c.message c.now, published.1, command.isNone, published.2⟩

/-- `acknowledge`, up to how it leaves. -/
def acknowledgeBody (api : Api) (c : AckCall) (db : Db) :
    Except AckExit (CommandAckResult × Db) := do
  require (validateAck c.message c.expected ∧
      api.codec.ackBytes c.message ≤ maxSmallCommandBytes)
    (.raised "command acknowledgement is invalid")
  require c.message.consuming (.answered .ignored)
  let sequence := c.message.header.commandSequence
  let worker ← demand (db.connections.get c.expected) (.answered .ignored)
  require (worker.transportOwnerId = c.transportOwnerId)
    (.raised "command acknowledgement transport is stale")
  let rows := db.journal c.expected
  let row ← demand (rowAt rows sequence)
    (.answered { CommandAckResult.ignored with
      obsolete := decide (sequence ≤ worker.acknowledgedFloor) })
  require (row.commandId = c.message.header.commandId ∧ row.bodyHash = c.message.bodyHash)
    (.answered .ignored)
  let identityHash ← demand row.ackIdentityHash (.answered .ignored)
  require (c.message.identityHash api.codec row.kind = .ok identityHash) (.answered .ignored)
  let effect ← recordAck api c row db.subjects
  -- the loop reads the rows as they were locked; only the acknowledged one counts as new
  let floor := Window.advance
    (fun q => (rowAt rows q).any fun r => r.ackIdentityHash.isSome &&
      (q == sequence || knownAcknowledged api.codec c.expected r))
    worker.nextCommandSequence worker.acknowledgedFloor
  let written := rows.map fun r => if r.sequence == sequence then effect.row else r
  pure
    (⟨true, false, effect.publication⟩,
      { subjects := effect.subjects
        connections := db.connections.set c.expected
          (if effect.missingKey then
            { worker with
              lifecycle := .ended, closedAt := some (worker.closedAt.getD c.now)
              acknowledgedFloor := floor }
          else { worker with acknowledgedFloor := floor })
        journal := Function.update db.journal c.expected
          (purge worker.acknowledgedFloor floor written) })

/-- `acknowledge`. -/
def acknowledge (api : Api) (c : AckCall) (db : Db) : Except String (CommandAckResult × Db) :=
  match acknowledgeBody api c db with
  | .ok answer => .ok answer
  | .error (.answered result) => .ok (result, db)
  | .error (.raised why) => .error why

end Potocolom.Journal
