import Potocolom.Lib.Machine
import Potocolom.Lib.Ordered

/-! # The job dispatcher

One process dispatches queued jobs to workers. What it shares with everything that runs
between its awaits is the job rows in PostgreSQL, the queue of hints, `lost_jobs`, the
`inflight` table and each worker's count of jobs. The dispatch loop, the worker reports and
the per-worker deliveries are each a stage of their own here, so that a step is what runs
between two awaits. Clocks, storage and object clean-up are left to the label of a step. -/

namespace Potocolom.Dispatch

inductive JobState where
  | queued | running | succeeded | failed | cancelled
  deriving DecidableEq

/-- `TERMINAL_STATES`. -/
def JobState.terminal : JobState → Bool
  | .queued | .running => false
  | .succeeded | .failed | .cancelled => true

/-- A row of `jobs`, with the incarnation that the row of `job_attempts` at its current
dispatch sequence names. -/
structure Row where
  state : JobState
  attempt : Nat
  currentDispatchSequence : Nat
  incarnation : Option Nat
  modelId : Nat
  createdAt : Nat
  hasSource : Bool
  deriving DecidableEq

/-- A `QueueHint`; every hint has the one tier there is. -/
structure Hint where
  enqueuedAt : Nat
  job : Nat
  deriving DecidableEq

/-- An `InFlight` object. `ident` tells two objects apart, as `is` does. -/
structure Entry where
  ident : Nat
  worker : Nat
  attempt : Nat
  dispatchSequence : Option Nat
  deriving DecidableEq

/-- A worker's connection. Only a protocol 6 worker has an incarnation. -/
structure Worker where
  incarnation : Option Nat
  hasCurrentWorkGrant : Bool
  models : List Nat
  slotsInUse : Nat
  jobsInFlight : Nat
  deriving DecidableEq

/-- A pending `dispatch_job` command of a protocol 6 worker. -/
structure Command where
  incarnation : Nat
  job : Nat
  dispatchSequence : Nat
  deriving DecidableEq

/-- A transaction whose COMMIT raised: PostgreSQL still has its row lock, and it will take
these writes or none of them. -/
structure Doubt where
  row : Row
  command : Option Command
  deriving DecidableEq

/-- Where `track_dispatched_command` stands in a worker's delivery task. -/
inductive Tracking where
  | reading (command : Command)
  | judging (command : Command) (attempt : Nat)
  deriving DecidableEq

inductive Report where
  | cancelled (gpuMs : Nat) | done | failed
  deriving DecidableEq

inductive Verdict where
  | done | invalid | failed
  deriving DecidableEq

/-- Where the handling of a report stands in `on_worker_message`. -/
inductive ReportStage where
  | charging
  | inspecting
  | ruling (verdict : Verdict)
  | clearing
  deriving DecidableEq

/-- A report being handled, with the entry that was current when it came. -/
structure Task where
  job : Nat
  current : Entry
  stage : ReportStage
  deriving DecidableEq

/-- What called `requeue_or_fail`: the pass over `lost_jobs`, with the entries left to it, or
the sweep, with the keys left to it. -/
inductive Caller where
  | lost (left : Nat)
  | stalled (keys : List Nat)
  deriving DecidableEq

inductive RequeueStage where
  | locking | failing | purging
  deriving DecidableEq

/-- Where `dispatch` stands, and from `waiting` on where `dispatch_protocol6` does. -/
inductive DispatchStage where
  | asking
  | locking
  | targets (worker : Nat)
  | fetching (entry : Entry)
  | dropping
  | sending (entry : Entry)
  | committing (entry : Entry)
  | waiting (worker : Nat)
  | targeting (worker attempt previousSequence : Nat)
  | claiming (current : Entry) (previousSequence : Nat)
  | probing (current : Entry) (previousSequence : Nat)
  | delivering
  deriving DecidableEq

/-- Where the dispatch loop stands. -/
inductive Phase where
  | idle
  | recovering (left : Nat)
  | requeuing (caller : Caller) (job : Nat) (stage : RequeueStage)
  | sweeping (keys : List Nat)
  | scanning (skipped : List Hint)
  | dispatching (hint : Hint) (skipped : List Hint) (stage : DispatchStage)
  deriving DecidableEq

structure World where
  rows : Nat → Option Row
  doubt : Nat → Option Doubt
  commands : List Command
  hints : List Hint
  lostJobs : List Nat
  inflight : Ordered Nat Entry
  idents : Nat
  workers : Nat → Option Worker
  registered : List Nat
  tracking : Nat → Option Tracking
  tasks : List Task
  phase : Phase

/-! ## Workers -/

/-- `JOB_DISPATCH_DEPTH`. -/
def fullDispatchDepth : Nat := 2

namespace Worker

variable (k : Worker)

def takesJobs : Bool := k.incarnation.isNone || k.hasCurrentWorkGrant

def jobDispatchDepth : Nat := if 0 < k.slotsInUse then 1 else fullDispatchDepth

def hasRoom : Bool := k.takesJobs && decide (k.jobsInFlight < k.jobDispatchDepth)

theorem jobDispatchDepth_le : k.jobDispatchDepth ≤ fullDispatchDepth := by
  unfold jobDispatchDepth fullDispatchDepth
  split <;> omega

end Worker

namespace Phase

/-- The job in hand. -/
def job : Phase → Option Nat
  | .requeuing _ j _ => some j
  | .dispatching h _ _ => some h.job
  | _ => none

/-- The worker picked for the job under dispatch, while its entry is not in `inflight` yet. -/
def picked : Phase → Option Nat
  | .dispatching _ _ (.targets w) | .dispatching _ _ (.waiting w)
  | .dispatching _ _ (.targeting w _ _) => some w
  | _ => none

/-- The job whose row lock the dispatch of an older protocol holds across its awaits. -/
def holdsRow : Phase → Option Nat
  | .dispatching h _ (.targets _) | .dispatching h _ (.fetching _) | .dispatching h _ .dropping
  | .dispatching h _ (.sending _) | .dispatching h _ (.committing _) => some h.job
  | _ => none

theorem job_of_holdsRow {p : Phase} {j : Nat} (h : p.holdsRow = some j) : p.job = some j := by
  unfold holdsRow at h
  split at h
  all_goals first | exact h | cases h

/-- The worker whose delivery task runs `prepare` of `dispatch_protocol6`. -/
def delivery : Phase → Option Nat
  | .dispatching _ _ (.targeting w _ _) => some w
  | .dispatching _ _ (.claiming e _) | .dispatching _ _ (.probing e _) => some e.worker
  | _ => none

/-- The entry whose dispatch token no worker has been sent. -/
def unsent : Phase → Option Entry
  | .dispatching _ _ (.fetching e) | .dispatching _ _ (.claiming e _)
  | .dispatching _ _ (.probing e _) => some e
  | _ => none

end Phase

namespace World

variable (s : World)

def hasRoom (w : Nat) : Bool := (s.workers w).any Worker.hasRoom

/-- The connected workers that can take a job of the model. -/
def candidates (modelId : Nat) : List Nat :=
  s.registered.filter fun w => (s.workers w).any fun k => k.hasRoom && k.models.contains modelId

def pickJobWorker (modelId : Nat) : Option Nat :=
  (s.candidates modelId).argmin fun w => ((s.workers w).map (·.jobsInFlight)).getD 0

def setWorker (w : Nat) (f : Worker → Worker) : World :=
  { s with workers := Function.update s.workers w ((s.workers w).map f) }

def takeJobSlot (w : Nat) : World :=
  s.setWorker w fun k => { k with jobsInFlight := k.jobsInFlight + 1 }

/-- The subtraction stops at zero, as the clamp does. -/
def releaseJobSlot (w : Nat) : World :=
  s.setWorker w fun k => { k with jobsInFlight := k.jobsInFlight - 1 }

/-- A new `InFlight` object, put in the table, and the slot it takes. -/
def track (j w attempt : Nat) (dispatchSequence : Option Nat) : World :=
  takeJobSlot { s with
    inflight := s.inflight.put j ⟨s.idents, w, attempt, dispatchSequence⟩
    idents := s.idents + 1 } w

/-- The pop of an entry and the release of a slot. -/
def untrack (j w : Nat) : World :=
  releaseJobSlot { s with inflight := s.inflight.erase j } w

/-- `clear_if_current`, and `_drop_early_entry`. -/
def clearIfCurrent (j : Nat) (current : Entry) : World :=
  if s.inflight.get j = some current then s.untrack j current.worker else s

/-! ## Rows -/

/-- Nothing holds the lock of the job's row. -/
def Unlocked (j : Nat) : Prop := s.doubt j = none ∧ s.phase.holdsRow ≠ some j

instance (j : Nat) : Decidable (s.Unlocked j) := inferInstanceAs (Decidable (_ ∧ _))

/-- Nothing has the id yet. -/
def Unheard (j : Nat) : Prop :=
  s.rows j = none ∧ s.doubt j = none ∧ (∀ h ∈ s.hints, h.job ≠ j) ∧ j ∉ s.lostJobs ∧
    s.inflight.get j = none ∧ (∀ t ∈ s.tasks, t.job ≠ j) ∧ s.phase.job ≠ some j

instance (j : Nat) : Decidable (s.Unheard j) := inferInstanceAs (Decidable (_ ∧ _))

def write (j : Nat) (row : Row) (command : Option Command) : World :=
  { s with rows := Function.update s.rows j (some row), commands := s.commands ++ command.toList }

def leaveInDoubt (j : Nat) (row : Row) (command : Option Command) : World :=
  { s with doubt := Function.update s.doubt j (some ⟨row, command⟩) }

/-- The next hint of the queue: the oldest job's, then the least id's. -/
def nextHint : Option Hint := s.hints.argmin fun h => toLex (h.enqueuedAt, h.job)

end World

end Potocolom.Dispatch
