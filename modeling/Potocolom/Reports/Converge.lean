import Potocolom.Lib.Machine
import Potocolom.Protocol.Catalogue
import Potocolom.Reports.Commit

/-! # Reports converge

The reports of a physical range arrive in any order and any number of times, on any
connection, while other transactions change every other row. What a range holds is the
maximum of what was committed for it, and each committed report is either answered from
its receipt or lies at or below the floor. -/

namespace Potocolom.Reports

open Guard
open Journal (Uuid Hash Time Incarnation)
open Protocol (Platform)

/-- A report that was committed, and the acknowledgement it got. -/
structure Commit where
  report : Report
  ackBody : ByteArray

/-- The receipt is that of the commit: its sequence, its hash and its acknowledgement. -/
def Receipt.Answers (r : Receipt) (c : Commit) : Prop :=
  r.reportSequence = c.report.reportSequence ∧ r.reportHash = c.report.reportHash ∧
    r.ackBody = c.ackBody

/-- The maxima of the reports, component by component. -/
def maxima (reports : List Report) : Measures :=
  reports.foldl (fun m report => m.max report.measures) ⟨0, 0, 0⟩

/-- The reports of the commits. -/
def reportsOf (committed : List Commit) : List Report := committed.map (·.report)

/-- The database, and the commits of each range, oldest first. -/
structure World where
  db : Db
  committed : Uuid → List Commit

/-- What happens next. -/
inductive Action where
  /-- A report arrives at a process. -/
  | report (transportOwnerId : Uuid) (now : Time) (transport : Incarnation) (report : Report)
  /-- Another transaction. None but `commit_worker_report` writes the report columns of a
  range or a receipt. -/
  | elsewhere (core : Journal.Db) (jobs : Uuid × Nat → JobReport)
      (sessions : Uuid × Nat → Measures)

/-- The commits of every range once `report` was answered. -/
def World.log (s : World) (report : Report) : Except Refusal Answer → Uuid → List Commit
  | .ok (.recorded ackBody _) =>
    Function.update s.committed report.rangeId (s.committed report.rangeId ++ [⟨report, ackBody⟩])
  | _ => s.committed

/-- One step. -/
def step (platform : Platform) (s : World) : Action → Option World
  | .report transportOwnerId now transport report =>
    some
      { db := settle (commitWorkerReport ⟨platform, transportOwnerId⟩ now transport report s.db) s.db
        committed :=
          s.log report (answerReport ⟨platform, transportOwnerId⟩ now transport report s.db) }
  | .elsewhere core jobs sessions => some { s with db := { s.db with core, jobs, sessions } }

/-- Before the first report. -/
def Fresh (s : World) : Prop :=
  (∀ id, s.db.ranges id = .fresh) ∧ ∀ id, s.committed id = []

/-- Reports and other transactions, from before the first report. -/
def machine (platform : Platform) : Machine World Action where
  init := Fresh
  step := step platform

/-! ## One report -/

/-- A receipt or the floor answers; else the report is recorded. -/
inductive Outcome (p : Process) (now : Time) (report : Report) (admitted : Admitted) (db : Db) :
    Answer → Prop where
  | repeated {receipt : Receipt} :
      (db.ranges report.rangeId).receipt report.reportSequence = some receipt →
      receipt.reportHash = report.reportHash →
      Outcome p now report admitted db (.repeated receipt.ackBody)
  | stale {ackBody : ByteArray} :
      (db.ranges report.rangeId).receipt report.reportSequence = none →
      report.reportSequence ≤ (db.ranges report.rangeId).receipts.floor →
      Outcome p now report admitted db (.stale ackBody)
  | recorded {ackBody : ByteArray} {core : Journal.Db} :
      (db.ranges report.rangeId).receipt report.reportSequence = none →
      (db.ranges report.rangeId).receipts.floor < report.reportSequence →
      Outcome p now report admitted db
        (.recorded ackBody
          { db.write report ((db.ranges report.rangeId).measures.max report.measures)
              admitted.jobIsCurrent ackBody now with core })

theorem settleReport_ok {p : Process} {now : Time} {report : Report} {admitted : Admitted}
    {db : Db} {answer : Answer} (h : settleReport p now report admitted db = .ok answer) :
    Outcome p now report admitted db answer := by
  unfold settleReport at h
  dsimp only at h
  split at h
  · next receipt hreceipt =>
    simp only [bind_eq_ok, require_eq_ok, pure_eq_ok] at h
    obtain ⟨_, hhash, rfl⟩ := h
    exact .repeated hreceipt hhash
  · next hreceipt =>
    split at h
    · next hfloor =>
      simp only [bind_eq_ok, pure_eq_ok] at h
      obtain ⟨ackBody, _, rfl⟩ := h
      exact .stale hreceipt hfloor
    · next hfloor =>
      simp only [recordReport, bind_eq_ok, pure_eq_ok] at h
      obtain ⟨ackBody, _, ⟨_, core⟩, _, rfl⟩ := h
      exact .recorded hreceipt (Nat.lt_of_not_le hfloor)

/-- An answer comes from an admitted report. -/
theorem answerReport_ok {p : Process} {now : Time} {transport : Incarnation} {report : Report}
    {db : Db} {answer : Answer} (h : answerReport p now transport report db = .ok answer) :
    ∃ admitted, Outcome p now report admitted db answer := by
  simp only [answerReport, bind_eq_ok] at h
  obtain ⟨admitted, _, hsettle⟩ := h
  exact ⟨admitted, settleReport_ok hsettle⟩

/-- What a report commits: the answer's database, or nothing. -/
theorem settle_commit (p : Process) (now : Time) (transport : Incarnation) (report : Report)
    (db : Db) :
    settle (commitWorkerReport p now transport report db) db =
      match answerReport p now transport report db with
      | .ok answer => answer.db db
      | .error _ => db := by
  unfold commitWorkerReport
  cases answerReport p now transport report db <;> rfl

/-! ## One range -/

/-- What holds of a range and of the reports committed for it. -/
structure RangeInv (range : RangeReport) (committed : List Commit) : Prop where
  measures : range.measures = maxima (reportsOf committed)
  bounded : range.receipts.rows.length ≤ maxReceipts
  apart : (range.receipts.rows.map (·.reportSequence)).Nodup
  logged : ∀ r ∈ range.receipts.rows, ∃ c ∈ committed, r.Answers c
  kept : ∀ c ∈ committed, (∃ r ∈ range.receipts.rows, r.Answers c) ∨
    c.report.reportSequence ≤ range.receipts.floor

theorem RangeInv.fresh : RangeInv .fresh [] := by
  constructor
  · rfl
  · exact Nat.zero_le _
  · exact List.nodup_nil
  · intro r hr
    cases hr
  · intro c hc
    cases hc

theorem maxima_concat (committed : List Commit) (c : Commit) :
    maxima (reportsOf (committed ++ [c])) =
      (maxima (reportsOf committed)).max c.report.measures := by
  unfold maxima reportsOf
  rw [List.map_append, List.foldl_append]
  rfl

theorem Measures.max_right_comm (a b c : Measures) : (a.max b).max c = (a.max c).max b := by
  simp only [Measures.max, Measures.mk.injEq]
  refine ⟨?_, ?_, ?_⟩
  · exact Nat.max_right_comm ..
  · exact Nat.max_right_comm ..
  · exact Nat.max_right_comm ..

/-- The order of the reports does not matter. -/
theorem maxima_perm {xs ys : List Report} (h : xs.Perm ys) : maxima xs = maxima ys := by
  refine h.foldl_eq' ?_ _
  intro c _ d _ m
  exact Measures.max_right_comm ..

/-- A recorded report adds its measures and its receipt; the receipts that go raise the
floor above what they answered. -/
theorem RangeInv.record {range : RangeReport} {committed : List Commit} (h : RangeInv range committed)
    {report : Report} {ackBody : ByteArray} (hnone : range.receipt report.reportSequence = none) :
    RangeInv
      { reportHash := some report.reportHash
        measures := range.measures.max report.measures
        receipts := range.receipts.keep (·.reportSequence) maxReceipts
          ⟨report.reportSequence, report.reportHash, range.measures.max report.measures, ackBody⟩ }
      (committed ++ [⟨report, ackBody⟩]) := by
  have hnew : ∀ r ∈ range.receipts.rows, r.reportSequence ≠ report.reportSequence := by
    intro r hr heq
    have hfind := List.find?_eq_none.1 hnone r hr
    exact hfind (by simpa using heq)
  constructor
  · rw [maxima_concat, h.measures]
  · exact Retention.length_keep
  · exact Retention.nodup_keep h.apart hnew
  · intro r hr
    rcases Retention.mem_of_mem_keep hr with heq | hold
    · refine ⟨⟨report, ackBody⟩, by simp, ?_⟩
      rw [heq]
      exact ⟨rfl, rfl, rfl⟩
    · obtain ⟨c, hc, hanswers⟩ := h.logged r hold
      exact ⟨c, List.mem_append_left _ hc, hanswers⟩
  · intro c hc
    -- the receipt of `c`, old or new, is kept, or its number is at or below the new floor
    have hreceipt : c.report.reportSequence ≤ range.receipts.floor ∨
        ∃ r : Receipt, r.Answers c ∧ (r = ⟨report.reportSequence, report.reportHash,
          range.measures.max report.measures, ackBody⟩ ∨ r ∈ range.receipts.rows) := by
      rcases List.mem_append.1 hc with hold | hnew
      · rcases h.kept c hold with ⟨r, hr, hanswers⟩ | hbelow
        · exact .inr ⟨r, hanswers, .inr hr⟩
        · exact .inl hbelow
      · rw [List.mem_singleton.1 hnew]
        exact .inr ⟨_, ⟨rfl, rfl, rfl⟩, .inl rfl⟩
    rcases hreceipt with hbelow | ⟨r, hanswers, hr⟩
    · exact .inr (hbelow.trans Retention.floor_le_keep)
    · rcases Retention.kept_or_below hr with
        hkept | hbelow
      · exact .inl ⟨r, hkept, hanswers⟩
      · exact .inr (hanswers.1 ▸ hbelow)

/-- A retained receipt is the one that the lookup by its sequence finds. -/
theorem RangeInv.receipt_eq {range : RangeReport} {committed : List Commit}
    (h : RangeInv range committed) {r : Receipt} (hr : r ∈ range.receipts.rows) :
    range.receipt r.reportSequence = some r :=
  Retention.find?_eq_some h.apart hr

/-! ## Every run -/

variable {platform : Platform}

/-- What holds of every range. -/
def Inv (s : World) : Prop := ∀ id, RangeInv (s.db.ranges id) (s.committed id)

/-- A report moves the range it is about: it is recorded there, or nothing changes. -/
theorem step_report {s t : World} {owner : Uuid} {now : Time} {transport : Incarnation}
    {report : Report} (hstep : step platform s (.report owner now transport report) = some t) :
    (t.db.ranges = s.db.ranges ∧ t.committed = s.committed) ∨
      ∃ ackBody, (s.db.ranges report.rangeId).receipt report.reportSequence = none ∧
        t.committed = Function.update s.committed report.rangeId
          (s.committed report.rangeId ++ [⟨report, ackBody⟩]) ∧
        t.db.ranges = Function.update s.db.ranges report.rangeId
          { reportHash := some report.reportHash
            measures := (s.db.ranges report.rangeId).measures.max report.measures
            receipts := (s.db.ranges report.rangeId).receipts.keep (·.reportSequence) maxReceipts
              ⟨report.reportSequence, report.reportHash,
                (s.db.ranges report.rangeId).measures.max report.measures, ackBody⟩ } := by
  obtain rfl := Option.some.inj hstep
  rw [settle_commit]
  cases hanswer : answerReport ⟨platform, owner⟩ now transport report s.db with
  | error why => exact .inl ⟨rfl, rfl⟩
  | ok answer =>
    obtain ⟨admitted, houtcome⟩ := answerReport_ok hanswer
    cases houtcome with
    | repeated _ _ => exact .inl ⟨rfl, rfl⟩
    | stale _ _ => exact .inl ⟨rfl, rfl⟩
    | @recorded ackBody core hnone hfloor => exact .inr ⟨ackBody, hnone, rfl, rfl⟩

theorem step_inv {s t : World} {l : Action} (h : Inv s) (hstep : step platform s l = some t) :
    Inv t := by
  cases l with
  | report owner now transport report =>
    intro id
    rcases step_report hstep with ⟨hranges, hcommitted⟩ | ⟨ackBody, hnone, hcommitted, hranges⟩
    · rw [hranges, hcommitted]
      exact h id
    · rw [hranges, hcommitted]
      by_cases hid : id = report.rangeId
      · subst hid
        rw [Function.update_self, Function.update_self]
        exact (h report.rangeId).record hnone
      · rw [Function.update_of_ne hid, Function.update_of_ne hid]
        exact h id
  | elsewhere core jobs sessions =>
    cases hstep
    exact h

theorem reach_inv {s : World} (h : (machine platform).Reach Machine.anyStep s) : Inv s := by
  refine Machine.Reach.invariant (I := Inv) ?_ ?_ h
  · intro s hs id
    rw [hs.1 id, hs.2 id]
    exact .fresh
  · intro s l t hs _ hstep
    exact step_inv hs hstep

/-- The floor of a range only rises. -/
theorem floor_le_step {s t : World} {l : Action} (hstep : step platform s l = some t) (id : Uuid) :
    (s.db.ranges id).receipts.floor ≤ (t.db.ranges id).receipts.floor := by
  cases l with
  | report owner now transport report =>
    rcases step_report hstep with ⟨hranges, _⟩ | ⟨ackBody, _, _, hranges⟩
    · rw [hranges]
    · rw [hranges]
      by_cases hid : id = report.rangeId
      · subst hid
        rw [Function.update_self]
        exact Retention.floor_le_keep
      · rw [Function.update_of_ne hid]
  | elsewhere core jobs sessions =>
    cases hstep
    exact le_refl _

/-! ## Answers -/

/-- The answer to an admitted report for which there is a receipt. -/
theorem commit_repeated {p : Process} {now : Time} {transport : Incarnation} {report : Report}
    {db : Db} {admitted : Admitted} {r : Receipt}
    (hadmitted : admitReport p now transport report db = .ok admitted)
    (hreceipt : (db.ranges report.rangeId).receipt report.reportSequence = some r) :
    commitWorkerReport p now transport report db =
      if r.reportHash = report.reportHash then .ok (r.ackBody, db)
      else .error (.authorityUnavailable "worker report sequence changed bytes") := by
  have hsettle : settleReport p now report admitted db =
      if r.reportHash = report.reportHash then .ok (.repeated r.ackBody)
      else .error (.authorityUnavailable "worker report sequence changed bytes") := by
    unfold settleReport
    dsimp only
    rw [hreceipt]
    dsimp only
    unfold require
    split <;> rfl
  have hanswer : answerReport p now transport report db = settleReport p now report admitted db := by
    unfold answerReport
    rw [hadmitted]
    rfl
  unfold commitWorkerReport
  rw [hanswer, hsettle]
  split <;> rfl

/-- At or below the floor no report changes anything. -/
theorem commit_stale {p : Process} {now : Time} {transport : Incarnation} {report : Report}
    {db : Db} (hfloor : report.reportSequence ≤ (db.ranges report.rangeId).receipts.floor) :
    settle (commitWorkerReport p now transport report db) db = db := by
  rw [settle_commit]
  cases hanswer : answerReport p now transport report db with
  | error why => rfl
  | ok answer =>
    obtain ⟨admitted, houtcome⟩ := answerReport_ok hanswer
    cases houtcome with
    | repeated hreceipt _ => rfl
    | stale _ _ => rfl
    | recorded _ habove => omega

/-! ## The result -/

/-- What a range holds after any run: the maxima of what was committed for it, at most
256 receipts, each of a committed report and with the acknowledgement that report got,
and a floor that covers every committed report whose receipt is gone. -/
structure Converged (range : RangeReport) (committed : List Commit) : Prop where
  measures : range.measures = maxima (reportsOf committed)
  bounded : range.receipts.rows.length ≤ maxReceipts
  logged : ∀ r ∈ range.receipts.rows, ∃ c ∈ committed, r.Answers c
  kept : ∀ c ∈ committed, (∃ r ∈ range.receipts.rows, r.Answers c) ∨
    c.report.reportSequence ≤ range.receipts.floor

/-- How a report is answered in database `db`: one that has a receipt from it, changing
nothing, or, under another hash, with a refusal; one at or below the floor, with or
without a receipt, changes nothing. -/
structure Answered (p : Process) (db : Db) (now : Time) (transport : Incarnation)
    (report : Report) : Prop where
  same : ∀ admitted, admitReport p now transport report db = .ok admitted →
    ∀ r ∈ (db.ranges report.rangeId).receipts.rows, r.reportSequence = report.reportSequence →
      r.reportHash = report.reportHash →
        commitWorkerReport p now transport report db = .ok (r.ackBody, db)
  other : ∀ admitted, admitReport p now transport report db = .ok admitted →
    ∀ r ∈ (db.ranges report.rangeId).receipts.rows, r.reportSequence = report.reportSequence →
      r.reportHash ≠ report.reportHash →
        commitWorkerReport p now transport report db =
          .error (.authorityUnavailable "worker report sequence changed bytes")
  stale : report.reportSequence ≤ (db.ranges report.rangeId).receipts.floor →
    settle (commitWorkerReport p now transport report db) db = db

theorem Inv.answered {s : World} (h : Inv s) (p : Process) (now : Time) (transport : Incarnation)
    (report : Report) : Answered p s.db now transport report := by
  constructor
  · intro admitted hadmitted r hr hsequence hhash
    have hreceipt := (h report.rangeId).receipt_eq hr
    rw [hsequence] at hreceipt
    rw [commit_repeated hadmitted hreceipt, if_pos hhash]
  · intro admitted hadmitted r hr hsequence hhash
    have hreceipt := (h report.rangeId).receipt_eq hr
    rw [hsequence] at hreceipt
    rw [commit_repeated hadmitted hreceipt, if_neg hhash]
  · exact commit_stale

/-- A database without rows. -/
def emptyCore : Journal.Db where
  subjects :=
    { authMode := .unclaimed, localUserId := none, users := ∅, authSessions := ∅, sessions := ∅
      sessionAttempts := ∅, jobs := ∅, jobAttempts := ∅, assets := ∅, ranges := ∅, receipts := ∅
      leases := ∅ }
  connections := ∅
  journal _ := []

def noReport : JobReport := ⟨⟨0, 0, 0⟩, none, none, none, none, none, none, none⟩

/-- Nothing reported yet. -/
def freshWorld : World where
  db := ⟨emptyCore, fun _ => .fresh, fun _ => noReport, fun _ => ⟨0, 0, 0⟩⟩
  committed _ := []

/-- A checkpoint of a job. -/
def sampleReport : Report where
  worker := ⟨"worker", 7⟩
  region := "region"
  ownerEpoch := 1
  rangeId := 3
  reportSequence := 1
  reportHash := Protocol.hashOf 'a'
  measures := ⟨5, 1, 9⟩
  body := .jobCheckpoint 4 1

def samplePlatform : Platform := ⟨fun _ => "", fun _ => 0, fun _ => "", 1000⟩

end Potocolom.Reports
