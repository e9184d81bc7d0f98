import Potocolom.Lib.Machine
import Potocolom.Journal.Spec

/-! # The regional lease

`worker_authority.py`: the lease a scheduler process holds on a region, the worker
rows that copy it, and the grants derived from both. A transaction is atomic under the
row locks it takes; the clock may advance between any two readings of
`clock_timestamp()`, so each reading is a value of its own. -/

namespace Potocolom.Leases

open Journal Guard

/-- A second, in the microseconds of `clock_timestamp()`. -/
def second : Time := 1000000

/-- `LEASE_SECONDS`. -/
def leaseSeconds : Nat := 10

/-- What a statement adds to its reading for a new expiry. -/
def leaseTime : Time := leaseSeconds * second

/-- An API process, by its `SCHEDULER_OWNER_ID` and its `TRANSPORT_OWNER_ID`. -/
structure Process where
  schedulerOwnerId : Uuid
  transportOwnerId : Uuid
  deriving DecidableEq

/-- A `SchedulerLease`: a row of `scheduler_leases` as a process keeps it. -/
structure SchedulerLease extends Lease where
  region : String
  deriving DecidableEq

/-- A row of `worker_connections`: the columns of the journal's transactions and those
that readiness reads. -/
structure Worker extends Connection where
  envelopeRevision : Nat
  manifests : List String
  deriving DecidableEq

/-! ## The lease row -/

/-- The readings of the acquiring statement, in the order it makes them. -/
structure AcquireClock where
  values : Time
  guard : Time
  epoch : Time
  leaseId : Time
  expires : Time
  deriving DecidableEq

def AcquireClock.After (c : AcquireClock) (now : Time) : Prop :=
  now ≤ c.values ∧ c.values ≤ c.guard ∧ c.guard ≤ c.epoch ∧ c.epoch ≤ c.leaseId ∧
    c.leaseId ≤ c.expires

instance (c : AcquireClock) (now : Time) : Decidable (c.After now) :=
  inferInstanceAs (Decidable (_ ∧ _))

/-- `INSERT … ON CONFLICT (region) DO UPDATE` of `acquire_scheduler_lease`. -/
def acquireRow (p : Process) (leaseId : Uuid) (c : AcquireClock) : Option Lease → Option Lease
  | none => some
      { ownerId := p.schedulerOwnerId, ownerEpoch := 1, leaseId := leaseId
        expiresAt := c.values + leaseTime }
  | some row =>
    if row.ownerId = p.schedulerOwnerId ∨ row.expiresAt ≤ c.guard then
      some
        { ownerId := p.schedulerOwnerId
          ownerEpoch :=
            if row.ownerId = p.schedulerOwnerId ∧ c.epoch < row.expiresAt then row.ownerEpoch
            else row.ownerEpoch + 1
          leaseId :=
            if row.ownerId = p.schedulerOwnerId ∧ c.leaseId < row.expiresAt then row.leaseId
            else leaseId
          expiresAt := c.expires + leaseTime }
    else none

/-- The readings of the renewing statement. -/
structure RenewClock where
  guard : Time
  expires : Time
  deriving DecidableEq

/-- `UPDATE scheduler_leases` of `renew_scheduler_lease`, on the row of its region. -/
def renewRow (p : Process) (lease : SchedulerLease) (c : RenewClock) (row : Lease) :
    Option Lease :=
  if row.ownerId = p.schedulerOwnerId ∧ row.ownerEpoch = lease.ownerEpoch ∧
      row.leaseId = lease.leaseId ∧ c.guard < row.expiresAt then
    some { row with expiresAt := c.expires + leaseTime }
  else none

/-! ## The worker rows -/

/-- The statement that follows both: the lease's workers copy its expiry. -/
def extendWorkers (region : String) (lease : Lease) (workers : Table Incarnation Worker) :
    Table Incarnation Worker :=
  workers.updateWhere
    (fun _ w => w.region = region ∧ w.ownerEpoch = lease.ownerEpoch ∧
      w.leaseId = lease.leaseId ∧ w.closedAt = none)
    fun w => { w with leaseExpiresAt := lease.expiresAt }

/-- `REGION`. -/
def homeRegion : String := "local"

/-- The arguments of `register_worker`, and the readings of its lease check and of its
closing statement. -/
structure RegisterCall where
  worker : Incarnation
  grantNonce : Uuid
  manifests : List String
  device : Option String
  memoryMode : Option String
  leaseAt : Time
  closedAt : Time

/-- `_execution_envelope` answers whether the envelope is ready. -/
def RegisterCall.envelopeReady (c : RegisterCall) : Bool :=
  !c.manifests.isEmpty && c.device.any (· ≠ "") && c.memoryMode.any (· ≠ "")

/-- The row `register_worker` inserts. -/
def RegisterCall.row (c : RegisterCall) (p : Process) (lease : Lease) : Worker :=
  { Connection.fresh
      { transportOwnerId := p.transportOwnerId, region := homeRegion
        ownerEpoch := lease.ownerEpoch, leaseId := lease.leaseId
        leaseExpiresAt := lease.expiresAt, grantNonce := c.grantNonce
        grantExpiresAt := lease.expiresAt, grantReady := false, lifecycle := .connecting
        closedAt := none } with
    envelopeRevision := if c.envelopeReady then 1 else 0
    manifests := c.manifests }

/-- The rows that `register_worker` closes: left behind by the process, or fenced. -/
def closeLeftBehind (c : RegisterCall) (p : Process) (lease : Lease)
    (workers : Table Incarnation Worker) : Table Incarnation Worker :=
  workers.updateWhere
    (fun k w => k.workerId = c.worker.workerId ∧ w.closedAt = none ∧
      (w.transportOwnerId = p.transportOwnerId ∨ w.ownerEpoch ≠ lease.ownerEpoch ∨
        w.leaseId ≠ lease.leaseId))
    fun w => { w with lifecycle := .ended, closedAt := some c.closedAt }

/-- `register_worker`. -/
def registerWorker (p : Process) (c : RegisterCall) (leases : Table String Lease)
    (workers : Table Incarnation Worker) : Except String (Table Incarnation Worker) := do
  let lease ← demand ((leases.get homeRegion).filter fun l => c.leaseAt < l.expiresAt)
    "regional scheduler lease was lost"
  require (lease.ownerId = p.schedulerOwnerId) "regional scheduler lease is held by another owner"
  require (¬ workers.Any fun k _ => k.incarnation = c.worker.incarnation)
    "worker incarnation was already used"
  let workers := closeLeftBehind c p lease workers
  require (¬ workers.Any fun k w => k.workerId = c.worker.workerId ∧ w.closedAt = none)
    "worker id is connected to another owner"
  pure (workers.set c.worker (c.row p lease))

/-- The worker rows that belong to a connection of the process. -/
def ownedWorker (p : Process) (k : Incarnation) (workers : Table Incarnation Worker) :
    Option Worker :=
  (workers.get k).filter fun w => w.transportOwnerId = p.transportOwnerId ∧ w.closedAt = none

/-- `activate_initial_worker`; `blocked` is its query over the running jobs. -/
def activateInitialWorker (p : Process) (k : Incarnation) (blocked : Bool) (at_ : Time)
    (leases : Table String Lease) (workers : Table Incarnation Worker) :
    Option (Table Incarnation Worker) := do
  let lease ← (leases.get homeRegion).filter fun l => at_ < l.expiresAt
  let w ← ownedWorker p k workers
  if w.lifecycle = .connecting ∧ 1 ≤ w.envelopeRevision ∧ w.manifests ≠ [] ∧
      w.ownerEpoch = lease.ownerEpoch ∧ w.leaseId = lease.leaseId ∧ ¬ blocked then
    some (workers.set k { w with lifecycle := .ready })
  else none

/-! ## The grant -/

/-- The readings of the granting statement: of the expiry's condition, of the expiry,
of `grant_ready`, and of the answer. -/
structure GrantClock where
  guard : Time
  expires : Time
  ready : Time
  answer : Time
  deriving DecidableEq

def GrantClock.After (c : GrantClock) (now : Time) : Prop :=
  now ≤ c.guard ∧ c.guard ≤ c.expires ∧ c.expires ≤ c.ready ∧ c.ready ≤ c.answer

instance (c : GrantClock) (now : Time) : Decidable (c.After now) :=
  inferInstanceAs (Decidable (_ ∧ _))

/-- The condition of the granting statement, at one of its readings. -/
def grantable (w : Worker) (lease : Lease) (at_ : Time) : Prop :=
  w.lifecycle = .ready ∧ 0 < w.envelopeRevision ∧ lease.ownerEpoch = w.ownerEpoch ∧
    lease.leaseId = w.leaseId ∧ at_ < lease.expiresAt

instance (w : Worker) (lease : Lease) (at_ : Time) : Decidable (grantable w lease at_) :=
  inferInstanceAs (Decidable (_ ∧ _))

/-- The row that `renew_worker_grant` writes. -/
def grantRow (w : Worker) (lease : Lease) (grantNonce : Uuid) (c : GrantClock) : Worker :=
  { w with
    grantNonce := grantNonce
    leaseExpiresAt := lease.expiresAt
    grantExpiresAt :=
      if grantable w lease c.guard then min lease.expiresAt (c.expires + 10 * second)
      else c.expires
    grantReady := decide (grantable w lease c.ready) }

/-- A `WorkGrant`. -/
structure WorkGrant where
  worker : Incarnation
  region : String
  ownerEpoch : Nat
  leaseId : Uuid
  leaseExpiresAt : Time
  grantNonce : Uuid
  ready : Bool
  remainingMs : Int
  deriving DecidableEq

/-- What the statement returns of the row it wrote. -/
def workGrant (k : Incarnation) (w : Worker) (at_ : Time) : WorkGrant where
  worker := k
  region := w.region
  ownerEpoch := w.ownerEpoch
  leaseId := w.leaseId
  leaseExpiresAt := w.leaseExpiresAt
  grantNonce := w.grantNonce
  ready := w.grantReady
  remainingMs := if w.grantReady then ((w.grantExpiresAt : Int) - at_) * 1000 / second else 0

/-! ## Commands -/

/-- The readings of the statement that compares the two deadlines. -/
structure DeadlineClock where
  lease : Time
  grant : Time
  deriving DecidableEq

/-- What `commit_command` is asked, as far as its authority goes. -/
structure CommandCall where
  worker : Incarnation
  grantNonce : Uuid
  transportOwnerId : Uuid
  commandId : Uuid
  cancelAttempt : Option JobAttempt

/-- The authority checks of `commit_command`. -/
def commitAuthority (p : Process) (c : CommandCall) (clock : DeadlineClock)
    (leases : Table String Lease) (row : Option Connection) : Except String (Connection × Lease) :=
  do
  let worker ← demand row "worker has no current work grant"
  require (worker.closedAt = none ∧ worker.lifecycle = .ready) "worker has no current work grant"
  let lease ← demand (leases.get worker.region) "regional scheduler lease is unavailable"
  require (lease.ownerId = p.schedulerOwnerId) "regional scheduler lease is unavailable"
  require (worker.transportOwnerId = c.transportOwnerId ∧ worker.grantReady)
    "worker has no current work grant"
  require (∀ a ∈ c.cancelAttempt, a.worker = c.worker ∧ a.ownerEpoch = worker.ownerEpoch)
    "job cancellation owner is stale"
  require (worker.grantNonce = c.grantNonce) "worker grant nonce is stale"
  require (worker.ownerEpoch = lease.ownerEpoch ∧ worker.leaseId = lease.leaseId)
    "worker authority is no longer current"
  require (clock.lease < lease.expiresAt) "regional scheduler lease has expired"
  require (clock.grant < worker.grantExpiresAt) "worker grant has expired"
  require (worker.nextCommandSequence < maxSequence) "worker command sequence is exhausted"
  pure (worker, lease)

/-- The header of the command that is committed on a connection. -/
def commandHeader (c : CommandCall) (w : Connection) : Header where
  workerId := c.worker.workerId
  incarnation := c.worker.incarnation
  region := w.region
  ownerEpoch := w.ownerEpoch
  leaseId := w.leaseId
  leaseExpiresAt := w.leaseExpiresAt
  grantNonce := c.grantNonce
  commandSequence := w.nextCommandSequence
  commandId := c.commandId

/-- The statement by which `read_exact_pending` finds its authority. -/
def readAuthority (p : Process) (at_ : Time) (leases : Table String Lease)
    (row : Option Connection) : Option (Connection × Lease) := do
  let w ← row.filter fun w => w.transportOwnerId = p.transportOwnerId ∧ w.closedAt = none ∧
    (w.lifecycle = .ready ∨ w.lifecycle = .draining)
  let lease ← (leases.get w.region).filter fun l =>
    l.ownerEpoch = w.ownerEpoch ∧ l.leaseId = w.leaseId ∧ at_ < l.expiresAt
  some (w, lease)

/-- The authority checks of `register_delivery`. -/
def deliveryAuthority (p : Process) (command : Header) (clock : DeadlineClock)
    (leases : Table String Lease) (row : Option Connection) : Except String (Connection × Lease) :=
  do
  let w ← demand row "worker connection is unavailable"
  let lease ← demand (leases.get w.region) "worker delivery authority is stale"
  require (w.closedAt = none ∧ w.transportOwnerId = p.transportOwnerId ∧
      lease.ownerId = p.schedulerOwnerId ∧ w.ownerEpoch = lease.ownerEpoch ∧
      w.leaseId = lease.leaseId ∧ w.grantReady ∧ w.lifecycle = .ready)
    "worker delivery authority is stale"
  require (command.commandSequence = w.acknowledgedFloor + 1)
    "command is not the unresolved journal head"
  require (clock.lease < lease.expiresAt ∧ clock.grant < w.grantExpiresAt)
    "worker delivery authority or browser binding expired"
  pure (w, lease)

/-! ## The journal's transactions make these checks -/

section journal

variable {api : Api} {p : Process} {db : Db}

/-- `commit_command` with both deadlines at one reading. -/
theorem commitAuthority_of_journal {c : CommitCall} {cancelAttempt : Option JobAttempt}
    {connection : Connection} (hp : p.schedulerOwnerId = api.schedulerOwnerId)
    (h : Journal.commitAuthority api c db cancelAttempt = .ok connection) :
    ∃ lease, commitAuthority p
      ⟨c.worker, c.grantNonce, c.transportOwnerId, c.commandId, cancelAttempt⟩ ⟨c.now, c.now⟩
      db.subjects.leases (db.connections.get c.worker) = .ok (connection, lease) := by
  simp only [Journal.commitAuthority, bind_eq_ok, demand_eq_ok, require_eq_ok, pure_eq_ok] at h
  rcases h with ⟨_, hrow, _, hready, lease, hlease, _, howner, _, htransport, _, hcancel, _,
    hnonce, _, hsame, _, hlive, _, hgrant, _, hsequence, rfl⟩
  refine ⟨lease, ?_⟩
  simp only [commitAuthority, bind_eq_ok, demand_eq_ok, require_eq_ok, pure_eq_ok, hp]
  exact ⟨_, hrow, (), hready, lease, hlease, (), howner, (), htransport, (), hcancel, (), hnonce,
    (), hsame, (), hlive, (), hgrant, (), hsequence, rfl⟩

/-- What `commit_command` commits carries the header given here. -/
theorem commitCommand_authority {c : CommitCall} {db' : Db} {answer : Committed}
    (hp : p.schedulerOwnerId = api.schedulerOwnerId)
    (h : commitCommand api c db = .ok (answer, db')) :
    ∃ cancelAttempt connection lease, commitAuthority p
        ⟨c.worker, c.grantNonce, c.transportOwnerId, c.commandId, cancelAttempt⟩ ⟨c.now, c.now⟩
        db.subjects.leases (db.connections.get c.worker) = .ok (connection, lease) ∧
      ∀ fields, (c.command api.codec connection fields).header = commandHeader
        ⟨c.worker, c.grantNonce, c.transportOwnerId, c.commandId, cancelAttempt⟩ connection := by
  simp only [commitCommand, bind_eq_ok] at h
  rcases h with ⟨_, _, _, _, prepared, _, connection, hauthority, _⟩
  rcases commitAuthority_of_journal hp hauthority with ⟨lease, hlease⟩
  exact ⟨prepared.cancelAttempt, connection, lease, hlease, fun _ => rfl⟩

end journal

end Potocolom.Leases
