import Potocolom.Journal.Store
import Potocolom.Lib.Retention
import Potocolom.Protocol.Validate

/-! # Worker reports and the rows they change

The reports that the fleet handler passes to `commit_worker_report`, as `validate_message`
leaves them, their acknowledgement, and the report columns of the tables. The other
columns are those of the command journal. -/

namespace Potocolom.Reports

open Journal (Uuid Hash Time Incarnation RangeSubject)
open Protocol (Json Members Text)

/-- `str(uuid)`: thirty-two digits in five groups. -/
def uuidText (id : Uuid) : String :=
  let digits := (List.range 32).map fun i => Protocol.hexChar (id / 16 ^ (31 - i) % 16)
  String.ofList (digits.take 8 ++ '-' :: (digits.drop 8).take 4 ++ '-' :: (digits.drop 12).take 4 ++
    '-' :: (digits.drop 16).take 4 ++ '-' :: digits.drop 20)

/-- What a report measures; a job counts images where a session counts frames. -/
structure Measures where
  gpuMs : Nat
  frames : Nat
  durationMs : Nat
deriving DecidableEq, Repr

/-- The larger of both, component by component. -/
def Measures.max (a b : Measures) : Measures :=
  ⟨Nat.max a.gpuMs b.gpuMs, Nat.max a.frames b.frames, Nat.max a.durationMs b.durationMs⟩

/-- How a job ended, with what the report says of it. -/
inductive Verdict where
  | done (category : String) (categoryScore : Option Json) (hasThumbnail : Bool)
      (inputFetchMs loadMs postprocessMs : Option Nat)
  | failed (failureCode : String)
  | cancelled

/-- What is reported of whom. -/
inductive Body where
  | sessionCheckpoint (sessionId attemptId : Uuid) (controlGeneration : Nat)
  | sessionClosed (sessionId attemptId : Uuid) (controlGeneration : Nat) (physicalComplete : Bool)
  | jobCheckpoint (jobId : Uuid) (dispatchSequence : Nat)
  | jobTerminal (jobId : Uuid) (dispatchSequence : Nat) (verdict : Verdict)
      (physicalComplete : Bool) (dispatchToken : String)

structure Report where
  worker : Incarnation
  region : String
  ownerEpoch : Nat
  rangeId : Uuid
  reportSequence : Nat
  reportHash : Hash
  measures : Measures
  body : Body

namespace Body

/-- The range that a report of this subject is about. -/
def subject : Body → RangeSubject
  | .sessionCheckpoint s a g | .sessionClosed s a g _ => .session s a g
  | .jobCheckpoint j d | .jobTerminal j d _ _ _ => .job j d

/-- `report.get("physical_complete", False)`. -/
def physicalComplete : Body → Bool
  | .sessionClosed _ _ _ complete | .jobTerminal _ _ _ complete _ => complete
  | _ => false

end Body

/-! ## The acknowledgement -/

/-- A `checkpoint_ack`: what it repeats of the report, and what it says itself. -/
structure ReportAck where
  report : Report
  measures : Measures
  status : String
  code : Option String

/-- `report_ack`. -/
def reportAck (report : Report) : ReportAck := ⟨report, report.measures, "accepted", none⟩

/-- A text field. -/
def field (name value : String) : Text × Json := (.scalars name, .str (.scalars value))

/-- A counter field. -/
def count (name : String) (value : Nat) : Text × Json := (.scalars name, .int value)

/-- The dict that goes out. -/
def ReportAck.members (ack : ReportAck) : Members :=
  [field "type" "checkpoint_ack",
   field "worker_id" ack.report.worker.workerId,
   field "incarnation" (uuidText ack.report.worker.incarnation),
   field "region" ack.report.region,
   count "owner_epoch" ack.report.ownerEpoch,
   field "range_id" (uuidText ack.report.rangeId),
   count "report_sequence" ack.report.reportSequence,
   field "report_hash" ack.report.reportHash,
   count "gpu_ms" ack.measures.gpuMs,
   count "duration_ms" ack.measures.durationMs,
   field "status" ack.status] ++
  (match ack.report.body.subject with
    | .session sessionId attemptId generation =>
      [field "session_id" (uuidText sessionId),
       field "attempt_id" (uuidText attemptId),
       count "control_generation" generation,
       count "frames" ack.measures.frames]
    | .job jobId dispatchSequence =>
      [field "job_id" (uuidText jobId),
       count "dispatch_sequence" dispatchSequence,
       count "images" ack.measures.frames]) ++
  (match ack.code with
    | some code => [field "code" code]
    | none => [])

/-! ## Rows -/

/-- `OFFSET 256`: as many receipts stay for a range. -/
def maxReceipts : Nat := 256

/-- A row of `worker_report_receipts`, stored under its range. -/
structure Receipt where
  reportSequence : Nat
  reportHash : Hash
  measures : Measures
  ackBody : ByteArray
deriving DecidableEq

/-- The report columns of `worker_physical_ranges` (`report_sequence` is with the other
columns), and the receipts of the range with its `report_floor`. -/
structure RangeReport where
  reportHash : Option Hash
  measures : Measures
  receipts : Retention Receipt

/-- A range as its insert leaves it. -/
def RangeReport.fresh : RangeReport := ⟨none, ⟨0, 0, 0⟩, .empty⟩

/-- The report columns of `job_attempts` (the state, `terminal_at` and `report_sequence`
are with the other columns). -/
structure JobReport where
  measures : Measures
  inputFetchMs : Option Nat
  loadMs : Option Nat
  postprocessMs : Option Nat
  category : Option String
  categoryScore : Option Json
  hasThumbnail : Option Bool
  failureCode : Option String

/-- The database: the tables of the journal, and the report columns beside them. -/
structure Db where
  core : Journal.Db
  ranges : Uuid → RangeReport
  jobs : Uuid × Nat → JobReport
  /-- The measures of `realtime_session_attempts`. -/
  sessions : Uuid × Nat → Measures

end Potocolom.Reports
