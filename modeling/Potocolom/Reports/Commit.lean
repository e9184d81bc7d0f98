import Potocolom.Reports.Types

/-! # Committing a worker report

`commit_worker_report` (`worker_authority.py`), one transaction under the account's key.
It checks who reports and of what (`admitReport`), and then answers from a receipt,
refuses a sequence at or below the floor, or records the report (`settleReport`). -/

namespace Potocolom.Reports

open Guard
open Journal (Uuid Hash Time Incarnation RangeSubject Job RealtimeSession ReportedCommand)
open Protocol (Platform Raised preflightWorkerControl)

/-- The exceptions of a report's transaction: all but the first escape the fleet
handler's `except AuthorityUnavailable`. -/
inductive Refusal where
  | authorityUnavailable (message : String)
  | commandRefused (message : String)
  | protocol6 (why : Raised)
deriving DecidableEq

/-- The process a report arrives at. -/
structure Process where
  platform : Platform
  /-- `TRANSPORT_OWNER_ID`. -/
  transportOwnerId : Uuid

/-- A transaction of the command journal refuses with `CommandRefused`. -/
def refused {α : Type} (x : Except String α) : Except Refusal α := x.mapError .commandRefused

/-- A refusal of the wire protocol. -/
def raised {α : Type} (x : Except Raised α) : Except Refusal α := x.mapError .protocol6

/-! ## The checks -/

/-- `SELECT user_id …` of the subject. -/
def Db.owner (db : Db) : RangeSubject → Option Uuid
  | .session sessionId _ _ => (db.core.subjects.sessions.get sessionId).bind (·.userId)
  | .job jobId _ => (db.core.subjects.jobs.get jobId).map (·.userId)

/-- The token of a terminal job report is the dispatch's own. -/
def tokenMatches (platform : Platform) (tokenHash : Hash) : Body → Bool
  | .jobTerminal _ _ _ _ token =>
    token.toList.all (fun c => decide (c.toNat < 128)) && tokenHash == platform.sha256 token.toUTF8
  | _ => true

/-- `lock_report_subject`; the answer is whether the report is about a job's current
dispatch. -/
def lockReportSubject (platform : Platform) (db : Db) (userId : Uuid) (report : Report) :
    Option Bool :=
  match report.body.subject with
  | .session sessionId attemptId generation => do
    let entity ← db.core.subjects.sessions.get sessionId
    guard (entity.userId = some userId)
    let attempt ← db.core.subjects.sessionAttempts.get (sessionId, generation)
    guard (attempt.worker = report.worker ∧ attempt.ownerEpoch = report.ownerEpoch ∧
      attempt.rangeId = some report.rangeId ∧ attempt.attemptId = attemptId)
    pure false
  | .job jobId dispatchSequence => do
    let entity ← db.core.subjects.jobs.get jobId
    guard (entity.userId = userId)
    let attempt ← db.core.subjects.jobAttempts.get (jobId, dispatchSequence)
    guard (attempt.worker = report.worker ∧ attempt.ownerEpoch = report.ownerEpoch ∧
      attempt.rangeId = some report.rangeId ∧
      tokenMatches platform attempt.dispatchTokenHash report.body)
    pure (entity.currentDispatchSequence == dispatchSequence)

/-- What the checks find out. -/
structure Admitted where
  userId : Uuid
  jobIsCurrent : Bool
deriving DecidableEq, Repr

/-- The selection a terminal report without `physical_complete` locks before the lease. -/
def lockErasure (db : Db) (userId : Uuid) : Body → Except String Unit
  | .jobTerminal jobId dispatchSequence _ false _ => do
    let _ ← Journal.subjectErasureSelection db.core.subjects userId .job jobId
      (some dispatchSequence)
    pure ()
  | _ => pure ()

/-- `commit_worker_report` up to the receipt: the identity of the report, its subject, its
range, and the authority it arrived under. -/
def admitReport (p : Process) (now : Time) (transport : Incarnation) (report : Report) (db : Db) :
    Except Refusal Admitted := do
  require (report.worker = transport)
    (.authorityUnavailable "worker report identity is not current")
  let userId ← demand (db.owner report.body.subject)
    (.authorityUnavailable "worker report attempt is unknown")
  let jobIsCurrent ← demand (lockReportSubject p.platform db userId report)
    (.authorityUnavailable "worker report range identity is unknown")
  let physical ← demand (db.core.subjects.ranges.get report.rangeId)
    (.authorityUnavailable "worker report range does not match")
  require (physical.worker = report.worker ∧ physical.subject = report.body.subject)
    (.authorityUnavailable "worker report range does not match")
  refused (lockErasure db userId report.body)
  let lease ← demand (db.core.subjects.leases.get report.region)
    (.authorityUnavailable "worker report authority is stale")
  let current ← demand (db.core.connections.get transport)
    (.authorityUnavailable "worker report authority is stale")
  require (current.transportOwnerId = p.transportOwnerId ∧ current.closedAt = none ∧
      lease.ownerEpoch = current.ownerEpoch ∧ lease.leaseId = current.leaseId ∧
      current.region = report.region)
    (.authorityUnavailable "worker report authority is stale")
  require (now < lease.expiresAt) (.authorityUnavailable "worker report authority has expired")
  pure ⟨userId, jobIsCurrent⟩

/-! ## The writes -/

/-- `terminal_state`. -/
def Verdict.state : Verdict → Journal.JobAttemptState
  | .done .. => .completed
  | .failed _ => .failed
  | .cancelled => .cancelled

/-- The measured and terminal columns of a job attempt. What a verdict says of the output
is written only while its dispatch is the job's current one. -/
def JobReport.write (row : JobReport) (maxima : Measures) (jobIsCurrent : Bool) :
    Body → JobReport
  | .jobTerminal _ _ (.done category score thumbnail fetch load post) true _ =>
    if jobIsCurrent then
      { row with
        measures := maxima
        inputFetchMs := fetch.orElse fun _ => row.inputFetchMs
        loadMs := load.orElse fun _ => row.loadMs
        postprocessMs := post.orElse fun _ => row.postprocessMs
        category := some category, categoryScore := score, hasThumbnail := some thumbnail }
    else { row with measures := maxima }
  | .jobTerminal _ _ (.failed code) true _ =>
    if jobIsCurrent then { row with measures := maxima, failureCode := some code }
    else { row with measures := maxima }
  | _ => { row with measures := maxima }

/-- The attempt row of a job, and what the report ended. -/
def writeAttempt (attempt : Journal.JobAttempt) (sequence : Nat) (now : Time) :
    Body → Journal.JobAttempt
  | .jobTerminal _ _ verdict true _ =>
    { attempt with state := verdict.state, terminalAt := some now, reportSequence := sequence }
  | _ => { attempt with reportSequence := sequence }

/-- The attempt row and the session row of a session report. -/
def writeSession (subjects : Journal.Subjects) (sequence : Nat) (complete : Bool)
    (sessionId : Uuid) (generation : Nat) : Journal.Subjects :=
  { subjects with
    sessionAttempts := subjects.sessionAttempts.updateWhere
      (fun key _ => key = (sessionId, generation))
      fun a => { a with
        reportSequence := sequence
        state := if complete then .ended else a.state }
    sessions := subjects.sessions.updateWhere
      (fun id s => complete = true ∧ id = sessionId ∧ s.controlGeneration = generation ∧
        s.state ≠ .idle)
      fun s => { s with state := .ended } }

/-- The rows of the journal's tables that a report writes. -/
def writeSubjects (subjects : Journal.Subjects) (report : Report) (now : Time) :
    Journal.Subjects :=
  let subjects :=
    { subjects with
      ranges := subjects.ranges.updateWhere (fun id _ => id = report.rangeId)
        fun r => { r with reportSequence := report.reportSequence } }
  match report.body.subject with
  | .session sessionId _ generation =>
    writeSession subjects report.reportSequence report.body.physicalComplete sessionId generation
  | .job jobId dispatchSequence =>
    { subjects with
      jobAttempts := subjects.jobAttempts.updateWhere (fun key _ => key = (jobId, dispatchSequence))
        fun a => writeAttempt a report.reportSequence now report.body }

/-- Every row a report writes: the range, the attempt, the session, and the receipts, of
which the newest `maxReceipts` stay and the rest raise the floor. -/
def Db.write (db : Db) (report : Report) (maxima : Measures) (jobIsCurrent : Bool)
    (ackBody : ByteArray) (now : Time) : Db where
  core := { db.core with subjects := writeSubjects db.core.subjects report now }
  ranges := Function.update db.ranges report.rangeId
    { reportHash := some report.reportHash
      measures := maxima
      receipts := (db.ranges report.rangeId).receipts.keep (·.reportSequence) maxReceipts
        ⟨report.reportSequence, report.reportHash, maxima, ackBody⟩ }
  jobs :=
    match report.body.subject with
    | .job jobId dispatchSequence =>
      Function.update db.jobs (jobId, dispatchSequence)
        ((db.jobs (jobId, dispatchSequence)).write maxima jobIsCurrent report.body)
    | .session .. => db.jobs
  sessions :=
    match report.body.subject with
    | .session sessionId _ generation => Function.update db.sessions (sessionId, generation) maxima
    | .job .. => db.sessions

/-- The receipts of one range as the table `lock_reported_command` queries. -/
def receiptTable (rangeId : Uuid) (receipts : List Receipt) : Table (Uuid × Nat) Hash where
  keys := receipts.map fun r => (rangeId, r.reportSequence)
  get key :=
    if key.1 = rangeId then
      (receipts.find? fun r => r.reportSequence == key.2).map (·.reportHash)
    else none
  mem_keys := by
    intro key hash h
    split at h
    · next hrange =>
      obtain ⟨r, hr, -⟩ := Option.map_eq_some_iff.1 h
      have hkey : r.reportSequence = key.2 := by simpa using List.find?_some hr
      refine List.mem_map.2 ⟨r, List.mem_of_find?_eq_some hr, ?_⟩
      rw [hkey, ← hrange]
    · cases h

/-- The database as the command journal sees it during a report on `rangeId`. -/
def Db.view (db : Db) (rangeId : Uuid) : Journal.Db :=
  { db.core with
    subjects :=
      { db.core.subjects with
        receipts := receiptTable rangeId (db.ranges rangeId).receipts.rows } }

/-- The command that a complete report settles. -/
def Report.command (report : Report) : ReportedCommand :=
  match report.body.subject with
  | .session sessionId attemptId generation =>
    { kind := .closeSession, subjectId := sessionId, subjectSequence := generation
      worker := report.worker, rangeId := report.rangeId, attemptId := some attemptId
      reportSequence := report.reportSequence, reportHash := report.reportHash }
  | .job jobId dispatchSequence =>
    { kind := .dispatchJob, subjectId := jobId, subjectSequence := dispatchSequence
      worker := report.worker, rangeId := report.rangeId, attemptId := none
      reportSequence := report.reportSequence, reportHash := report.reportHash }

/-- The commands that a report erases: the one it settles, or, for a job that ended
without being complete, all of its dispatch. -/
def eraseCommands (db : Db) (userId : Uuid) (report : Report) (now : Time) :
    Except String (Unit × Journal.Db) :=
  match report.body with
  | .sessionClosed _ _ _ true | .jobTerminal _ _ _ true _ =>
    Journal.eraseReportedSubjectCommand userId report.command (db.view report.rangeId)
  | .jobTerminal jobId dispatchSequence _ false _ =>
    Journal.eraseSubjectCommands userId .job jobId (some dispatchSequence) now
      (db.view report.rangeId)
  | _ => pure ((), db.core)

/-! ## The answer -/

/-- How a report was answered. -/
inductive Answer where
  /-- From a receipt. -/
  | repeated (ackBody : ByteArray)
  /-- At or below the floor, without a receipt. -/
  | stale (ackBody : ByteArray)
  | recorded (ackBody : ByteArray) (db : Db)

def Answer.ackBody : Answer → ByteArray
  | .repeated ackBody | .stale ackBody | .recorded ackBody _ => ackBody

/-- The database the transaction commits. -/
def Answer.db (db : Db) : Answer → Db
  | .recorded _ db' => db'
  | _ => db

/-- The receipt of a sequence. -/
def RangeReport.receipt (range : RangeReport) (sequence : Nat) : Option Receipt :=
  range.receipts.rows.find? fun r => r.reportSequence == sequence

/-- A report that has no receipt and lies above the floor. -/
def recordReport (p : Process) (now : Time) (report : Report) (admitted : Admitted) (db : Db) :
    Except Refusal Answer := do
  let maxima := (db.ranges report.rangeId).measures.max report.measures
  let ack := { reportAck report with measures := maxima }
  let ackBody ← raised (preflightWorkerControl p.platform ack.members none none)
  let written := db.write report maxima admitted.jobIsCurrent ackBody now
  let (_, core) ← refused (eraseCommands written admitted.userId report now)
  pure (.recorded ackBody { written with core := { core with subjects := written.core.subjects } })

/-- `commit_worker_report` from the receipt on. -/
def settleReport (p : Process) (now : Time) (report : Report) (admitted : Admitted) (db : Db) :
    Except Refusal Answer := do
  let range := db.ranges report.rangeId
  match range.receipt report.reportSequence with
  | some receipt =>
    require (receipt.reportHash = report.reportHash)
      (.authorityUnavailable "worker report sequence changed bytes")
    pure (.repeated receipt.ackBody)
  | none =>
    if report.reportSequence ≤ range.receipts.floor then
      let ack := { reportAck report with
        measures := range.measures, status := "refused", code := some "stale_report" }
      let ackBody ← raised (preflightWorkerControl p.platform ack.members none none)
      pure (.stale ackBody)
    else recordReport p now report admitted db

/-- `commit_worker_report`, with how it was answered. -/
def answerReport (p : Process) (now : Time) (transport : Incarnation) (report : Report) (db : Db) :
    Except Refusal Answer := do
  let admitted ← admitReport p now transport report db
  settleReport p now report admitted db

/-- `commit_worker_report`: the acknowledgement, and the database it commits. -/
def commitWorkerReport (p : Process) (now : Time) (transport : Incarnation) (report : Report)
    (db : Db) : Except Refusal (ByteArray × Db) := do
  let answer ← answerReport p now transport report db
  pure (answer.ackBody, answer.db db)

end Potocolom.Reports
