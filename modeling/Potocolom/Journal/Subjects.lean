import Potocolom.Lib.Guard
import Potocolom.Journal.Types

/-! # Command subjects

`command_subjects.py`: what a command may be committed for, what its commit
claims, and what its delivery requires of the session or job it is about. -/

namespace Potocolom.Journal

open Guard

/-- What a caller of `commit_command` says about the session
(`session_context`). -/
structure SessionContext where
  browserOwnerId : Uuid
  authSessionId : Option Uuid
  modelId : String
  params : Params
  baseDesiredRevision : Option Nat
  desiredRevision : Option Nat
  attemptId : Option Uuid
  terminal : Bool
deriving DecidableEq, Repr

/-- What the transaction inserts for the command's subject. -/
inductive Claim where
  | session (subjectId attemptId : Uuid) (controlGeneration : Nat) (rangeId accountUserId : Uuid)
      (context : SessionContext)
  | job (subjectId : Uuid) (previousDispatchSequence dispatchSequence : Nat) (rangeId : Uuid)
      (dispatchToken : String)
deriving DecidableEq, Repr

/-- The answer of `prepare_command_subject`, with the subject tables it wrote. -/
structure Prepared where
  claim : Option Claim
  cancelAttempt : Option JobAttempt
  messageFields : CommandFields
  committedDesired : Option (Params × Nat)
  subjects : Subjects

/-! ## Browser bindings -/

/-- `current_owner`. -/
def currentOwner (db : Subjects) (accountUserId : Uuid) : Bool :=
  match db.users.get accountUserId with
  | some u => (u.role == .user || u.role == .admin) && u.state == .active
  | none => false

/-- `lock_browser_binding`: the deadlines of the browser binding, if it stands. -/
def lockBrowserBinding (db : Subjects) (accountUserId : Uuid) (authSessionId : Option Uuid) :
    Option (Option Time × Option Time) :=
  if currentOwner db accountUserId then
    match db.authMode, authSessionId with
    | .none, none => if db.localUserId = some accountUserId then some (none, none) else none
    | .accounts, some id =>
      match db.authSessions.get id with
      | some s =>
        if s.userId = accountUserId ∧ s.revokedAt = none then
          some (s.idleExpiresAt, some s.absoluteExpiresAt)
        else none
      | none => none
    | _, _ => none
  else none

/-- Both deadlines, where there are any, lie after `now`. -/
def deadlinesLive (deadlines : Option Time × Option Time) (now : Time) : Bool :=
  deadlines.2.all (fun t => decide (now < t)) && deadlines.1.all (fun t => decide (now < t))

/-- `binding_is_live`. -/
def bindingIsLive (deadlines : Option (Option Time × Option Time)) (now : Time) : Bool :=
  match deadlines with
  | none => false
  | some (_, none) => true
  | some d => deadlinesLive d now

/-- `current_principal`. -/
def currentPrincipal (db : Subjects) (accountUserId : Uuid) (authSessionId : Option Uuid)
    (now : Time) : Bool :=
  bindingIsLive (lockBrowserBinding db accountUserId authSessionId) now

/-! ## Preparing a commit -/

/-- `AND state IN ('opening', 'running')`. -/
def AttemptState.open (s : AttemptState) : Bool := s == .opening || s == .running

/-- The attempt `(session, generation)` named by `attempt_id`, while it is open. -/
def Subjects.openAttempt (db : Subjects) (sessionId : Uuid) (generation : Nat) (attemptId : Uuid) :
    Option SessionAttempt :=
  (db.sessionAttempts.get (sessionId, generation)).filter fun a =>
    a.attemptId == attemptId && a.state.open

/-- The session row, while it is at `generation`. -/
def Subjects.sessionAt (db : Subjects) (sessionId : Uuid) (generation : Nat) :
    Option RealtimeSession :=
  (db.sessions.get sessionId).filter fun s => s.controlGeneration == generation

/-- The branch of `prepare_command_subject` for `open_session`. -/
def prepareOpen (db : Subjects) (accountUserId : Uuid) (context : Option SessionContext)
    (fields : CommandFields) (sessionId attemptId : Uuid) (generation : Nat) (rangeId : Uuid) :
    Except String Prepared := do
  let context ← demand context "session claim identity is unavailable"
  require (∀ existing ∈ db.sessions.get sessionId,
      existing.userId = some accountUserId ∧ existing.browserOwnerId = context.browserOwnerId ∧
        existing.controlGeneration ≤ generation)
    "session claim identity is stale"
  pure
    { claim := some (.session sessionId attemptId generation rangeId accountUserId context)
      cancelAttempt := none, messageFields := fields, committedDesired := none, subjects := db }

/-- The branch of `prepare_command_subject` for `update_session`. -/
def prepareUpdate (db : Subjects) (worker : Incarnation) (accountUserId : Uuid)
    (context : Option SessionContext) (now : Time) (fields : CommandFields)
    (sessionId attemptId : Uuid) (generation : Nat) (modelId : String) (params : Params)
    (paramsRevision : Nat) : Except String Prepared := do
  let context ← demand context "session update identity is unavailable"
  let base ← demand context.baseDesiredRevision "session desired update changed before commit"
  require (1 ≤ base ∧ base < maxSequence ∧ context.desiredRevision = some (base + 1) ∧
      base + 1 < maxSequence ∧ paramsRevision = base + 1 ∧ modelId = context.modelId ∧
      params = context.params)
    "session desired update changed before commit"
  let entity ← demand (db.sessionAt sessionId generation) "session update is stale"
  let attempt ← demand (db.openAttempt sessionId generation attemptId) "session update is stale"
  require (entity.userId = some accountUserId ∧ entity.authSessionId = context.authSessionId ∧
      entity.browserOwnerId = context.browserOwnerId ∧
      currentPrincipal db accountUserId entity.authSessionId now ∧
      entity.modelId = context.modelId ∧ entity.desiredRevision = base ∧
      attempt.worker = worker ∧ some attempt.attemptId = context.attemptId)
    "session update is stale"
  pure
    { claim := none, cancelAttempt := none, messageFields := fields
      committedDesired := some (params, base + 1)
      subjects :=
        { db with
          sessions := db.sessions.set sessionId
            { entity with desiredParams := params, desiredRevision := base + 1 } } }

/-- The branch of `prepare_command_subject` for `close_session`. A terminal close
(the browser left) ends the row once the worker's `session_closed` proves the
runner is gone; an idle release keeps it. `pending` says whether the journal
holds a pending row for the session at this generation. -/
def prepareClose (db : Subjects) (worker : Incarnation) (accountUserId : Uuid)
    (context : Option SessionContext) (expectedTransportOwner : Uuid) (pending : Bool) (now : Time)
    (fields : CommandFields) (sessionId attemptId : Uuid) (generation : Nat) :
    Except String Prepared := do
  let entity ← demand (db.sessionAt sessionId generation) "session close is stale"
  let attempt ← demand (db.openAttempt sessionId generation attemptId) "session close is stale"
  require (entity.userId = some accountUserId ∧ entity.state = .live ∧
      entity.browserOwnerId = expectedTransportOwner ∧
      currentPrincipal db accountUserId entity.authSessionId now ∧ attempt.worker = worker)
    "session close is stale"
  let terminal := context.any (·.terminal)
  require (¬ (terminal ∧ pending)) "session close has a pending command"
  pure
    { claim := none, cancelAttempt := none, messageFields := fields, committedDesired := none
      subjects :=
        { db with
          sessions := db.sessions.set sessionId
            { entity with state := if terminal then .ending else .idle } } }

/-- The branch of `prepare_command_subject` for `dispatch_job`; `jobContext` is
the source asset the caller read, when it names one. -/
def prepareDispatch (db : Subjects) (accountUserId : Uuid) (jobContext : Option (Option Uuid))
    (jobId : Uuid) (modelId : String) (params : Params) (rangeId : Uuid) (dispatchToken : String) :
    Except String Prepared := do
  let job ← demand (db.jobs.get jobId) "job claim is stale"
  require (job.userId = accountUserId ∧ job.state = .queued ∧ job.modelId = modelId ∧
      job.params = params) "job claim is stale"
  require (∀ source ∈ jobContext, source = job.sourceAssetId) "job input changed before claim"
  require (∀ asset ∈ job.sourceAssetId, db.assets.get asset = some accountUserId)
    "job input is unavailable"
  let dispatchSequence := job.currentDispatchSequence + 1
  require (dispatchSequence < maxSequence) "job dispatch sequence is exhausted"
  pure
    { claim := some (.job jobId job.currentDispatchSequence dispatchSequence rangeId dispatchToken)
      cancelAttempt := none
      messageFields := .dispatchJob jobId dispatchSequence modelId params rangeId dispatchToken
      committedDesired := none, subjects := db }

/-- `str.isascii`. -/
def isAscii (s : String) : Bool := s.all fun c => decide (c.toNat < 128)

/-- The branch of `prepare_command_subject` for `cancel_job`. -/
def prepareCancel (codec : Codec) (db : Subjects) (accountUserId : Uuid) (fields : CommandFields)
    (jobId : Uuid) (dispatchSequence : Nat) (dispatchToken : String) :
    Except String Prepared := do
  require (isAscii dispatchToken) "job cancellation identity is unavailable"
  let job ← demand (db.jobs.get jobId) "job cancellation is stale"
  require (job.userId = accountUserId ∧ job.state = .cancelled ∧
      job.currentDispatchSequence = dispatchSequence) "job cancellation is stale"
  let attempt ← demand (db.jobAttempts.get (jobId, dispatchSequence))
    "job cancellation token is stale"
  require (attempt.dispatchTokenHash = codec.tokenHash dispatchToken)
    "job cancellation token is stale"
  pure
    { claim := none, cancelAttempt := some attempt, messageFields := fields
      committedDesired := none, subjects := db }

/-- `EXISTS (SELECT 1 FROM worker_commands …)`: some journal holds a pending row
for `subjectId` at `sequence`. -/
def Db.PendingFor (db : Db) (subjectId : Uuid) (sequence : Nat) : Prop :=
  db.connections.Any fun w _ => ∃ r ∈ db.journal w,
    r.subjectId = subjectId ∧ r.subjectSequence = sequence ∧ r.state = .pending

instance (db : Db) (subjectId : Uuid) (sequence : Nat) :
    Decidable (db.PendingFor subjectId sequence) :=
  inferInstanceAs (Decidable (Table.Any _ _))

/-- `prepare_command_subject`. -/
def prepareCommandSubject (codec : Codec) (db : Db) (fields : CommandFields)
    (accountUserId : Uuid) (sessionContext : Option SessionContext)
    (jobContext : Option (Option Uuid)) (worker : Incarnation) (expectedTransportOwner : Uuid)
    (now : Time) : Except String Prepared :=
  match fields with
  | .openSession sessionId attemptId generation _ _ rangeId =>
    prepareOpen db.subjects accountUserId sessionContext fields sessionId attemptId generation
      rangeId
  | .updateSession sessionId attemptId generation modelId params revision =>
    prepareUpdate db.subjects worker accountUserId sessionContext now fields sessionId attemptId
      generation modelId params revision
  | .closeSession sessionId attemptId generation =>
    prepareClose db.subjects worker accountUserId sessionContext expectedTransportOwner
      (decide (db.PendingFor sessionId generation)) now fields sessionId attemptId generation
  | .dispatchJob jobId _ modelId params rangeId dispatchToken =>
    prepareDispatch db.subjects accountUserId jobContext jobId modelId params rangeId dispatchToken
  | .cancelJob jobId dispatchSequence dispatchToken =>
    prepareCancel codec db.subjects accountUserId fields jobId dispatchSequence dispatchToken

/-! ## Claiming the subject -/

/-- The refusal of an `INSERT` whose key has a row. -/
def duplicateKey : String := "duplicate key value violates unique constraint"

/-- `apply_command_claim`. -/
def applyCommandClaim (codec : Codec) (db : Subjects) (claim : Option Claim) (worker : Incarnation)
    (accountUserId commandId : Uuid) (grant : Grant) : Except String Subjects :=
  match claim with
  | none => pure db
  | some (.session subjectId attemptId generation rangeId owner context) => do
    require (db.ranges.get rangeId = none) "physical range identity is already used"
    let fresh : RealtimeSession :=
      { userId := some owner, authSessionId := context.authSessionId
        browserOwnerId := context.browserOwnerId, modelId := context.modelId
        effectiveParams := context.params, desiredParams := context.params
        paramsRevision := 1, desiredRevision := 1, state := .assigning
        controlGeneration := generation, ownerEpoch := grant.ownerEpoch }
    -- ON CONFLICT (id) DO UPDATE keeps the owner and the browser of the row
    let row := match db.sessions.get subjectId with
      | some existing =>
        { fresh with
          userId := existing.userId, authSessionId := existing.authSessionId
          browserOwnerId := existing.browserOwnerId }
      | none => fresh
    require (db.sessionAttempts.get (subjectId, generation) = none ∧
        ¬ db.sessionAttempts.Any fun _ a => a.attemptId = attemptId) duplicateKey
    pure
      { db with
        sessions := db.sessions.set subjectId row
        sessionAttempts := db.sessionAttempts.set (subjectId, generation)
          { worker := worker, ownerEpoch := grant.ownerEpoch, attemptId := attemptId
            state := .opening, rangeId := some rangeId, reportSequence := 0 }
        ranges := db.ranges.set rangeId
          { worker := worker, region := grant.region, ownerEpoch := grant.ownerEpoch
            accountUserId := accountUserId, subject := .session subjectId attemptId generation
            state := .outstanding, reportSequence := 0 } }
  | some (.job subjectId previous dispatchSequence rangeId dispatchToken) => do
    require (db.ranges.get rangeId = none) "physical range identity is already used"
    require (db.jobAttempts.get (subjectId, dispatchSequence) = none ∧
        ¬ db.jobAttempts.Any fun _ a => a.commandId = commandId) duplicateKey
    let job ← demand (db.jobs.get subjectId) "job claim changed before commit"
    require (job.state = .queued ∧ job.currentDispatchSequence = previous)
      "job claim changed before commit"
    pure
      { db with
        jobAttempts := db.jobAttempts.set (subjectId, dispatchSequence)
          { commandId := commandId, worker := worker, ownerEpoch := grant.ownerEpoch
            state := .dispatching, dispatchTokenHash := codec.tokenHash dispatchToken
            rangeId := some rangeId, terminalAt := none, reportSequence := 0 }
        jobs := db.jobs.set subjectId
          { job with state := .running, currentDispatchSequence := dispatchSequence }
        ranges := db.ranges.set rangeId
          { worker := worker, region := grant.region, ownerEpoch := grant.ownerEpoch
            accountUserId := accountUserId, subject := .job subjectId dispatchSequence
            state := .outstanding, reportSequence := 0 } }

/-! ## Delivering to the subject -/

/-- A command as the store hands it to its callers; `body` is empty unless it
was read back for delivery. -/
structure StoredCommand where
  worker : Incarnation
  sequence : Nat
  commandId : Uuid
  bodyHash : Hash
  body : Option Command
  createdAt : Time
  accountUserId : Option Uuid
  subjectId : Uuid
  subjectSequence : Nat
  ackIdentityHash : Option Hash
deriving DecidableEq, Repr

/-- `expected_state` of a session command. -/
def sessionStateFor : CommandKind → SessionState → Bool
  | .openSession, s => s == .assigning
  | .updateSession, s => s == .live || s == .idle
  | .closeSession, s => s == .idle || s == .ending
  | _, _ => false

/-- `expected_attempt_state` of a session command. -/
def sessionAttemptFor : CommandKind → AttemptState → Bool
  | .openSession, s => s == .opening
  | .updateSession, s | .closeSession, s => s == .running
  | _, _ => false

/-- `expected_state` of a job command. -/
def jobStateFor : CommandKind → JobState → Bool
  | .dispatchJob, s => s == .running
  | .cancelJob, s => s == .cancelled
  | _, _ => false

/-- `expected_attempt_state` of a job command. -/
def jobAttemptFor : CommandKind → JobAttemptState → Bool
  | .dispatchJob, s => s == .dispatching
  | .cancelJob, s => s == .dispatching || s == .running
  | _, _ => false

/-- `model_id` of the kinds whose delivery compares it. -/
def CommandFields.modelId : CommandFields → Option String
  | .openSession _ _ _ m _ _ | .updateSession _ _ _ m _ _ => some m
  | _ => none

/-- The range of a delivered attempt is still the account's and outstanding. -/
def rangeOutstanding (db : Subjects) (rangeId : Option Uuid) (accountUserId : Uuid) : Prop :=
  ∀ id ∈ rangeId, ∃ r ∈ db.ranges.get id, r.accountUserId = accountUserId ∧ r.state = .outstanding

instance (db : Subjects) (rangeId : Option Uuid) (accountUserId : Uuid) :
    Decidable (rangeOutstanding db rangeId accountUserId) :=
  inferInstanceAs (Decidable (∀ id ∈ rangeId, ∃ r ∈ db.ranges.get id, _))

/-- The branch of `lock_delivery_subject` for session commands. -/
def lockDeliverySession (db : Subjects) (accountUserId subjectId : Uuid) (subjectSequence : Nat)
    (body : Command) (attemptId : Uuid) (worker : Incarnation) (transportOwnerId : Uuid) :
    Except String (Option Time × Option Time) := do
  let entity ← demand (db.sessions.get subjectId) "session command is no longer current"
  require (entity.userId = some accountUserId ∧ entity.controlGeneration = subjectSequence)
    "session command is no longer current"
  let deadlines ← demand (lockBrowserBinding db accountUserId entity.authSessionId)
    "session command principal is no longer current"
  require (sessionStateFor body.kind entity.state) "session command state is no longer current"
  require (entity.browserOwnerId = transportOwnerId ∧
      ∀ m ∈ body.fields.modelId, m = entity.modelId)
    "session command principal is no longer current"
  let attempt ← demand (db.openAttempt subjectId subjectSequence attemptId)
    "command attempt is no longer current"
  require (attempt.worker = worker ∧ sessionAttemptFor body.kind attempt.state)
    "command attempt is no longer current"
  require (rangeOutstanding db attempt.rangeId accountUserId)
    "command physical range is no longer current"
  pure deadlines

/-- The branch of `lock_delivery_subject` for job commands. -/
def lockDeliveryJob (db : Subjects) (accountUserId subjectId : Uuid) (subjectSequence : Nat)
    (body : Command) (worker : Incarnation) : Except String (Option Time × Option Time) := do
  let entity ← demand (db.jobs.get subjectId) "job command is no longer current"
  require (entity.userId = accountUserId ∧ entity.currentDispatchSequence = subjectSequence)
    "job command is no longer current"
  require (jobStateFor body.kind entity.state) "job command state is no longer current"
  require (currentOwner db accountUserId) "job command owner is no longer current"
  let attempt ← demand (db.jobAttempts.get (subjectId, subjectSequence))
    "command attempt is no longer current"
  require (attempt.worker = worker ∧ jobAttemptFor body.kind attempt.state)
    "command attempt is no longer current"
  require (rangeOutstanding db attempt.rangeId accountUserId)
    "command physical range is no longer current"
  -- a job has no browser binding
  pure (none, none)

/-- `lock_delivery_subject`: the deadlines of the browser binding. -/
def lockDeliverySubject (db : Subjects) (accountUserId subjectId : Uuid) (subjectSequence : Nat)
    (body : Command) (worker : Incarnation) (transportOwnerId : Uuid) :
    Except String (Option Time × Option Time) :=
  match body.fields.subject with
  | .session _ attemptId _ =>
    lockDeliverySession db accountUserId subjectId subjectSequence body attemptId worker
      transportOwnerId
  | _ => lockDeliveryJob db accountUserId subjectId subjectSequence body worker

/-! ## Selecting rows to erase -/

/-- What an erasure works on: the rows it selects, and the workers it fences
whether or not they hold one. -/
structure Selection where
  selects : CommandRow → Bool
  fences : Incarnation → Bool

/-- `session.state IN ('assigning','live','idle','ending')`. -/
def SessionState.attached (s : SessionState) : Bool :=
  s == .assigning || s == .live || s == .idle || s == .ending

/-- Worker `w` runs an open attempt of a session in `ids` (at `sequence`, when
one is given) whose range belongs to one of `accounts`. -/
def Subjects.RunsSession (db : Subjects) (accounts : List Uuid) (ids : Uuid → Bool)
    (sequence : Option Nat) (w : Incarnation) : Prop :=
  db.sessionAttempts.Any fun key a =>
    ids key.1 ∧ (∀ n ∈ sequence, key.2 = n) ∧ a.worker = w ∧ a.state.open ∧
      (∃ s ∈ db.sessions.get key.1, s.state.attached) ∧
      ∃ id ∈ a.rangeId, ∃ r ∈ db.ranges.get id, r.accountUserId ∈ accounts ∧
        r.subject = .session key.1 a.attemptId key.2

instance (db : Subjects) (accounts : List Uuid) (ids : Uuid → Bool) (sequence : Option Nat)
    (w : Incarnation) : Decidable (db.RunsSession accounts ids sequence w) :=
  inferInstanceAs (Decidable (Table.Any _ _))

/-- Worker `w` runs a dispatch of a job in `ids` (at `sequence`, when one is
given; the job's current one, when `current`) whose range belongs to one of
`accounts`. -/
def Subjects.RunsJob (db : Subjects) (accounts : List Uuid) (ids : Uuid → Bool)
    (sequence : Option Nat) (current : Bool) (w : Incarnation) : Prop :=
  db.jobAttempts.Any fun key a =>
    ids key.1 ∧ (∀ n ∈ sequence, key.2 = n) ∧ a.worker = w ∧ a.state = .dispatching ∧
      (∃ j ∈ db.jobs.get key.1, (j.state = .running ∨ j.state = .cancelled) ∧
        (current → j.currentDispatchSequence = key.2)) ∧
      ∃ id ∈ a.rangeId, ∃ r ∈ db.ranges.get id, r.accountUserId ∈ accounts ∧
        r.subject = .job key.1 key.2

instance (db : Subjects) (accounts : List Uuid) (ids : Uuid → Bool) (sequence : Option Nat)
    (current : Bool) (w : Incarnation) : Decidable (db.RunsJob accounts ids sequence current w) :=
  inferInstanceAs (Decidable (Table.Any _ _))

/-- `account_erasure_selection`. -/
def accountErasureSelection (db : Subjects) (accountUserIds : List Uuid) : Selection where
  selects r := r.accountUserId.any (decide <| · ∈ accountUserIds)
  fences w := decide (db.RunsSession accountUserIds (fun _ => true) none w ∨
    db.RunsJob accountUserIds (fun _ => true) none true w)

/-- The account's session rows that an erasure by sign-in is about. -/
def boundSession (db : Subjects) (accountUserId : Uuid) (authSessionIds : Option (List Uuid))
    (keepAuthSessionId : Option Uuid) (id : Uuid) : Bool :=
  match db.sessions.get id with
  | some s =>
    s.userId == some accountUserId &&
      authSessionIds.all (fun ids => s.authSessionId.any (decide <| · ∈ ids)) &&
      keepAuthSessionId.all (fun keep => s.authSessionId != some keep)
  | none => false

/-- `realtime_erasure_selection`; without a bound session it selects nothing. -/
def realtimeErasureSelection (db : Subjects) (accountUserId : Uuid)
    (authSessionIds : Option (List Uuid)) (keepAuthSessionId : Option Uuid) : Selection where
  selects r := r.accountUserId == some accountUserId && r.kind.isSession &&
    boundSession db accountUserId authSessionIds keepAuthSessionId r.subjectId
  fences w := decide (db.RunsSession [accountUserId]
    (boundSession db accountUserId authSessionIds keepAuthSessionId) none w)

/-- The `kind` argument of an erasure: all kinds of a subject, or one kind. -/
inductive SubjectKind where
  | job
  | session
  | one (kind : CommandKind)
deriving DecidableEq, Repr

/-- `subject_command_kinds`, as a test. -/
def SubjectKind.covers : SubjectKind → CommandKind → Bool
  | .job, k => !k.isSession
  | .session, k => k.isSession
  | .one k', k => k == k'

/-- `"session" if all(item.endswith("_session") …) else "job"`. -/
def SubjectKind.isSession : SubjectKind → Bool
  | .job => false
  | .session => true
  | .one k => k.isSession

/-- `subject_erasure_selection`. -/
def subjectErasureSelection (db : Subjects) (accountUserId : Uuid) (kind : SubjectKind)
    (subjectId : Uuid) (subjectSequence : Option Nat) : Except String Selection := do
  require (∀ n ∈ subjectSequence, 1 ≤ n ∧ n ≤ maxSequence)
    "command erasure subject sequence is invalid"
  pure
    { selects := fun r => r.accountUserId == some accountUserId && kind.covers r.kind &&
        r.subjectId == subjectId && subjectSequence.all (r.subjectSequence == ·)
      fences := fun w =>
        if kind.isSession then
          decide (db.RunsSession [accountUserId] (· == subjectId) subjectSequence w)
        else decide (db.RunsJob [accountUserId] (· == subjectId) subjectSequence false w) }

/-! ## Commands a report settles -/

/-- The physical report that `erase_reported_subject_command` is called with. -/
structure ReportedCommand where
  kind : CommandKind
  subjectId : Uuid
  subjectSequence : Nat
  worker : Incarnation
  rangeId : Uuid
  attemptId : Option Uuid
  reportSequence : Nat
  reportHash : Hash
deriving DecidableEq, Repr

/-- The range a reported command was measured on. -/
def ReportedCommand.subject (c : ReportedCommand) : Option RangeSubject :=
  match c.kind, c.attemptId with
  | .closeSession, some a => some (.session c.subjectId a c.subjectSequence)
  | .dispatchJob, none => some (.job c.subjectId c.subjectSequence)
  | _, _ => none

/-- The proof `lock_reported_command` asks of a closed session: its attempt has
ended, and a row still at this generation is idle or ended. -/
def CloseProof (db : Subjects) (accountUserId : Uuid) (c : ReportedCommand) : Prop :=
  ∃ s ∈ db.sessions.get c.subjectId, s.userId = some accountUserId ∧
    c.subjectSequence ≤ s.controlGeneration ∧
    (s.controlGeneration = c.subjectSequence → s.state = .idle ∨ s.state = .ended) ∧
    ∃ a ∈ db.sessionAttempts.get (c.subjectId, c.subjectSequence), a.state = .ended ∧
      some a.attemptId = c.attemptId ∧ a.worker = c.worker ∧ a.rangeId = some c.rangeId

instance (db : Subjects) (accountUserId : Uuid) (c : ReportedCommand) :
    Decidable (CloseProof db accountUserId c) :=
  inferInstanceAs (Decidable (∃ s ∈ db.sessions.get c.subjectId, _))

/-- The proof `lock_reported_command` asks of a dispatched job. The set of job
states is the source's: it names `completed`, which no job is ever in, and not
`succeeded`. -/
def DispatchProof (db : Subjects) (accountUserId : Uuid) (c : ReportedCommand) : Prop :=
  ∃ j ∈ db.jobs.get c.subjectId, j.userId = accountUserId ∧
    j.currentDispatchSequence = c.subjectSequence ∧
    (j.state = .running ∨ j.state = .failed ∨ j.state = .cancelled) ∧
    ∃ a ∈ db.jobAttempts.get (c.subjectId, c.subjectSequence),
      (a.state = .completed ∨ a.state = .failed ∨ a.state = .cancelled) ∧
      a.terminalAt ≠ none ∧ a.worker = c.worker ∧ a.rangeId = some c.rangeId

instance (db : Subjects) (accountUserId : Uuid) (c : ReportedCommand) :
    Decidable (DispatchProof db accountUserId c) :=
  inferInstanceAs (Decidable (∃ j ∈ db.jobs.get c.subjectId, _))

/-- `lock_reported_command`: the pending rows the report settles. -/
def lockReportedCommand (db : Db) (accountUserId : Uuid) (c : ReportedCommand) :
    Except String (List CommandRow) := do
  require ((c.kind = .closeSession ∨ c.kind = .dispatchJob) ∧
      1 ≤ c.subjectSequence ∧ c.subjectSequence ≤ maxSequence ∧ 1 ≤ c.reportSequence ∧
      c.reportHash.length = 64 ∧ (c.kind = .closeSession ↔ c.attemptId.isSome))
    "reported command identity is invalid"
  require (db.subjects.receipts.get (c.rangeId, c.reportSequence) = some c.reportHash)
    "physical report receipt is unavailable"
  let physical ← demand (db.subjects.ranges.get c.rangeId) "physical report range identity changed"
  require (physical.worker = c.worker ∧ some physical.subject = c.subject)
    "physical report range identity changed"
  if c.kind = .closeSession then
    require (CloseProof db.subjects accountUserId c)
      "session close report is not physically complete"
  else
    require (DispatchProof db.subjects accountUserId c)
      "job terminal report is not physically complete"
  pure ((db.journal c.worker).filter fun r =>
    r.accountUserId == some accountUserId && r.kind == c.kind && r.subjectId == c.subjectId &&
      r.subjectSequence == c.subjectSequence && r.state == .pending)

end Potocolom.Journal
