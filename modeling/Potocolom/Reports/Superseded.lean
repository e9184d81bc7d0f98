import Potocolom.Reports.Converge

/-! # Reports of a superseded dispatch

A stalled job is dispatched again while its first worker is still connected, and that
worker's verdict arrives. The columns of the attempt are written with care for this
(`is_current`); the erasure of the dispatch's command, at the end of the same
transaction, asks for the job's current dispatch and refuses. -/

namespace Potocolom.Reports

open Guard
open Journal (Uuid Hash Time Incarnation)

/-- A terminal report, complete and with the dispatch's own token, of a dispatch that is
no longer the job's current one, from a worker that is connected and holds the lease. -/
structure Superseded (p : Process) (now : Time) (transport : Incarnation) (report : Report)
    (db : Db) (jobId : Uuid) (dispatchSequence : Nat) : Prop where
  identity : report.worker = transport
  terminal : ∃ verdict token, report.body = .jobTerminal jobId dispatchSequence verdict true token
  job : ∃ j ∈ db.core.subjects.jobs.get jobId, j.currentDispatchSequence ≠ dispatchSequence
  attempt : ∃ a ∈ db.core.subjects.jobAttempts.get (jobId, dispatchSequence),
    a.worker = report.worker ∧ a.ownerEpoch = report.ownerEpoch ∧
      a.rangeId = some report.rangeId ∧ tokenMatches p.platform a.dispatchTokenHash report.body
  range : ∃ r ∈ db.core.subjects.ranges.get report.rangeId,
    r.worker = report.worker ∧ r.subject = .job jobId dispatchSequence
  authority : ∃ lease ∈ db.core.subjects.leases.get report.region,
    ∃ current ∈ db.core.connections.get transport,
      (current.transportOwnerId = p.transportOwnerId ∧ current.closedAt = none ∧
        lease.ownerEpoch = current.ownerEpoch ∧ lease.leaseId = current.leaseId ∧
        current.region = report.region) ∧ now < lease.expiresAt

/-- The job's row and the rows of its current dispatch are the same in both. -/
def SameJob (jobId : Uuid) (db db' : Db) : Prop :=
  db'.core.subjects.jobs.get jobId = db.core.subjects.jobs.get jobId ∧
    ∀ j ∈ db.core.subjects.jobs.get jobId,
      db'.core.subjects.jobAttempts.get (jobId, j.currentDispatchSequence) =
          db.core.subjects.jobAttempts.get (jobId, j.currentDispatchSequence) ∧
        db'.jobs (jobId, j.currentDispatchSequence) = db.jobs (jobId, j.currentDispatchSequence)

/-- The report does no harm: it raises nothing but `AuthorityUnavailable`, and when it is
answered the job and its current dispatch are as they were and it has a receipt. -/
def Harmless (p : Process) (now : Time) (transport : Incarnation) (report : Report) (db : Db)
    (jobId : Uuid) : Prop :=
  match commitWorkerReport p now transport report db with
  | .ok (_, db') =>
    SameJob jobId db db' ∧ ∃ r ∈ (db'.ranges report.rangeId).receipts.rows,
      r.reportSequence = report.reportSequence ∧ r.reportHash = report.reportHash
  | .error (.authorityUnavailable _) => True
  | .error _ => False

variable {p : Process} {now : Time} {transport : Incarnation} {report : Report} {db : Db}
  {jobId : Uuid} {dispatchSequence : Nat}

/-- Every check passes. -/
theorem Superseded.admitted (h : Superseded p now transport report db jobId dispatchSequence) :
    ∃ userId, admitReport p now transport report db = .ok ⟨userId, false⟩ := by
  obtain ⟨verdict, token, hbody⟩ := h.terminal
  obtain ⟨j, hj, hcurrent⟩ := h.job
  obtain ⟨a, ha, hworker, hepoch, hrange, htoken⟩ := h.attempt
  obtain ⟨r, hr, hrangeWorker, hsubject⟩ := h.range
  obtain ⟨lease, hlease, current, hconnection, hauthority, hlive⟩ := h.authority
  have hreported : report.body.subject = .job jobId dispatchSequence := by
    rw [hbody]
    rfl
  have howner : db.owner report.body.subject = some j.userId := by
    rw [hreported, Db.owner, Option.mem_def.1 hj]
    rfl
  have hlocked : lockReportSubject p.platform db j.userId report = some false := by
    unfold lockReportSubject
    rw [hreported]
    simp [Option.mem_def.1 hj, Option.mem_def.1 ha, hworker, hepoch, hrange, htoken, hcurrent]
  have herasure : lockErasure db j.userId report.body = .ok () := by
    rw [hbody]
    rfl
  refine ⟨j.userId, ?_⟩
  simp only [admitReport, bind_eq_ok, require_eq_ok, demand_eq_ok, pure_eq_ok]
  refine ⟨(), h.identity, j.userId, howner, false, hlocked, r, hr, (), ⟨hrangeWorker, ?_⟩, (), ?_,
    lease, hlease, current, hconnection, (), hauthority, (), hlive, rfl⟩
  · rw [hreported, hsubject]
  · rw [herasure]
    rfl

/-- With a receipt for its sequence the report is answered from it, or refused for its
hash. -/
theorem harmless_of_receipt (h : Superseded p now transport report db jobId dispatchSequence)
    {r : Receipt} (hr : r ∈ (db.ranges report.rangeId).receipts.rows)
    (hsequence : r.reportSequence = report.reportSequence) :
    Harmless p now transport report db jobId := by
  obtain ⟨userId, hadmitted⟩ := h.admitted
  obtain ⟨receipt, hreceipt⟩ : ∃ receipt,
      (db.ranges report.rangeId).receipt report.reportSequence = some receipt := by
    refine Option.isSome_iff_exists.1 ?_
    rw [RangeReport.receipt, List.find?_isSome]
    exact ⟨r, hr, by simpa using hsequence⟩
  have hfound : receipt.reportSequence = report.reportSequence := by
    simpa using List.find?_some hreceipt
  unfold Harmless
  rw [commit_repeated hadmitted hreceipt]
  by_cases hhash : receipt.reportHash = report.reportHash
  · rw [if_pos hhash]
    exact ⟨⟨rfl, fun j _ => ⟨rfl, rfl⟩⟩, receipt, List.mem_of_find?_eq_some hreceipt, hfound, hhash⟩
  · rw [if_neg hhash]
    trivial

/-- A report writes no row of `jobs`. -/
theorem writeSubjects_jobs (subjects : Journal.Subjects) :
    (writeSubjects subjects report now).jobs = subjects.jobs := by
  unfold writeSubjects
  dsimp only
  split <;> rfl

/-- The command of a superseded dispatch is not erased: the proof that
`lock_reported_command` asks for names the job's current dispatch. -/
theorem Superseded.eraseCommands (h : Superseded p now transport report db jobId dispatchSequence)
    (maxima : Measures) (ackBody : ByteArray) (userId : Uuid) :
    ∃ why, eraseCommands (db.write report maxima false ackBody now) userId report now =
      .error why := by
  obtain ⟨verdict, token, hbody⟩ := h.terminal
  obtain ⟨j, hj, hcurrent⟩ := h.job
  cases herase : Reports.eraseCommands (db.write report maxima false ackBody now) userId report now
    with
  | error why => exact ⟨why, rfl⟩
  | ok result =>
    exfalso
    have hcommand : report.command.kind = .dispatchJob ∧ report.command.subjectId = jobId ∧
        report.command.subjectSequence = dispatchSequence := by
      unfold Report.command
      rw [hbody]
      exact ⟨rfl, rfl, rfl⟩
    simp only [Reports.eraseCommands, hbody, Journal.eraseReportedSubjectCommand,
      Journal.lockReportedCommand, hcommand.1, bind_eq_ok, reduceCtorEq, if_false,
      require_eq_ok] at herase
    obtain ⟨_, ⟨_, _, _, _, _, _, _, _, _, hproof, _⟩, _⟩ := herase
    obtain ⟨j', hj', _, hcurrent', _⟩ := hproof
    have hsame : j' = j := by
      have hjobs : (writeSubjects db.core.subjects report now).jobs.get jobId = some j' := by
        rw [← hcommand.2.1]
        exact hj'
      rw [writeSubjects_jobs, Option.mem_def.1 hj] at hjobs
      exact (Option.some.inj hjobs).symm
    rw [hsame, hcommand.2.2] at hcurrent'
    exact hcurrent hcurrent'

/-- Without one it is refused with the wrong exception, or answered without a receipt. -/
theorem not_harmless_of_no_receipt
    (h : Superseded p now transport report db jobId dispatchSequence)
    (hnone : ∀ r ∈ (db.ranges report.rangeId).receipts.rows,
      r.reportSequence ≠ report.reportSequence) :
    ¬ Harmless p now transport report db jobId := by
  obtain ⟨userId, hadmitted⟩ := h.admitted
  have hreceipt : (db.ranges report.rangeId).receipt report.reportSequence = none := by
    refine List.find?_eq_none.2 ?_
    intro r hr
    simpa using hnone r hr
  have hanswer : answerReport p now transport report db =
      settleReport p now report ⟨userId, false⟩ db := by
    unfold answerReport
    rw [hadmitted]
    rfl
  unfold Harmless commitWorkerReport
  rw [hanswer, settleReport]
  dsimp only
  rw [hreceipt]
  dsimp only
  by_cases hfloor : report.reportSequence ≤ (db.ranges report.rangeId).receipts.floor
  · -- answered with a refusal that leaves no receipt
    rw [if_pos hfloor]
    cases Protocol.preflightWorkerControl p.platform _ none none with
    | error why => exact id
    | ok ackBody =>
      rintro ⟨_, r, hr, hsequence, _⟩
      exact hnone r hr hsequence
  · rw [if_neg hfloor, recordReport]
    dsimp only
    cases Protocol.preflightWorkerControl p.platform _ none none with
    | error why => exact id
    | ok ackBody =>
      -- recorded, and rolled back by the erasure
      obtain ⟨why, herase⟩ := h.eraseCommands
        ((db.ranges report.rangeId).measures.max report.measures) ackBody userId
      simp only [raised, Except.mapError, bind, Except.bind, refused, herase]
      exact id

/-- A report of a superseded dispatch is harmless exactly when its range already holds a
receipt for its sequence. -/
theorem superseded_harmless_iff (h : Superseded p now transport report db jobId dispatchSequence) :
    Harmless p now transport report db jobId ↔
      ∃ r ∈ (db.ranges report.rangeId).receipts.rows,
        r.reportSequence = report.reportSequence := by
  constructor
  · intro hharmless
    by_contra hnone
    refine not_harmless_of_no_receipt h ?_ hharmless
    intro r hr hsequence
    exact hnone ⟨r, hr, hsequence⟩
  · rintro ⟨r, hr, hsequence⟩
    exact harmless_of_receipt h hr hsequence

/-! ## A job that was dispatched twice -/

def sampleWorker : Incarnation := ⟨"worker", 7⟩

/-- The job's second dispatch is current. -/
def sampleJob : Journal.Job where
  userId := 1
  modelId := "model"
  params := ""
  state := .running
  attempt := 2
  currentDispatchSequence := 2
  sourceAssetId := none

/-- The first dispatch, still on its worker. -/
def sampleAttempt : Journal.JobAttempt where
  commandId := 5
  worker := sampleWorker
  ownerEpoch := 1
  state := .dispatching
  dispatchTokenHash := ""
  rangeId := some 3
  terminalAt := none
  reportSequence := 0

def sampleRange : Journal.PhysicalRange where
  worker := sampleWorker
  region := "region"
  ownerEpoch := 1
  accountUserId := 1
  subject := .job 4 1
  state := .outstanding
  reportSequence := 0

def sampleConnection : Journal.Connection where
  transportOwnerId := 0
  region := "region"
  ownerEpoch := 1
  leaseId := 6
  leaseExpiresAt := 100
  grantNonce := 8
  grantExpiresAt := 100
  grantReady := true
  lifecycle := .ready
  closedAt := none
  nextCommandSequence := 2
  acknowledgedFloor := 1

def sampleSubjects : Journal.Subjects :=
  { emptyCore.subjects with
    jobs := Table.set ∅ 4 sampleJob
    jobAttempts := Table.set ∅ (4, 1) sampleAttempt
    ranges := Table.set ∅ 3 sampleRange
    leases := Table.set ∅ "region" ⟨0, 1, 6, 100⟩ }

/-- The database, with these receipts for the first dispatch. -/
def sampleDb (receipts : List Receipt) : Db where
  core :=
    { emptyCore with
      subjects := sampleSubjects
      connections := Table.set ∅ sampleWorker sampleConnection }
  ranges _ := { RangeReport.fresh with receipts := ⟨receipts, 0⟩ }
  jobs _ := noReport
  sessions _ := ⟨0, 0, 0⟩

/-- The first worker is done. -/
def lateVerdict : Report :=
  { sampleReport with
    body := .jobTerminal 4 1 (.done "other" none false none none none) true "token" }

theorem lateVerdict_superseded (receipts : List Receipt) :
    Superseded ⟨samplePlatform, 0⟩ 0 sampleWorker lateVerdict (sampleDb receipts) 4 1 where
  identity := rfl
  terminal := ⟨_, _, rfl⟩
  job := ⟨sampleJob, rfl, by decide⟩
  attempt := ⟨sampleAttempt, rfl, rfl, rfl, rfl, by decide⟩
  range := ⟨sampleRange, rfl, rfl, rfl⟩
  authority := ⟨⟨0, 1, 6, 100⟩, rfl, sampleConnection, rfl, ⟨rfl, rfl, rfl, rfl, rfl⟩, by decide⟩

/-- A verdict that was recorded while its dispatch was current may come again. -/
theorem superseded_harmless_sample :
    Harmless ⟨samplePlatform, 0⟩ 0 sampleWorker lateVerdict
      (sampleDb [⟨1, lateVerdict.reportHash, lateVerdict.measures, ByteArray.empty⟩]) 4 := by
  refine (superseded_harmless_iff (lateVerdict_superseded _)).2 ?_
  exact ⟨_, List.mem_singleton_self _, rfl⟩

/-- The first verdict of a superseded dispatch is not harmless. -/
theorem late_verdict_refused :
    ¬ ∀ p now transport report db jobId dispatchSequence,
      Superseded p now transport report db jobId dispatchSequence →
        Harmless p now transport report db jobId := by
  intro hall
  have hharmless := hall _ _ _ _ _ _ _ (lateVerdict_superseded [])
  refine not_harmless_of_no_receipt (lateVerdict_superseded []) ?_ hharmless
  intro r hr
  cases hr

end Potocolom.Reports
