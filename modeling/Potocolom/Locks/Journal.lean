import Potocolom.Locks.Keys

/-! # The locks of the journal and the authority

The transactions on sessions, jobs, their attempts and ranges, the command journal, the
scheduler leases and the worker connections, each as the locks it asks for, in the order
of its statements. What a statement finds is a parameter, filtered by the conditions on
which its locks depend. A transaction that is refused stops where it is.

`W` is a worker in one incarnation, in the order of the journal's statements, and `R` a
region. -/

namespace Potocolom.Locks.Journal

inductive Kind where
  | session
  | job
  deriving DecidableEq

/-- A session or a job, with the account it belongs to. -/
structure Subject where
  kind : Kind
  id : Uuid
  owner : UserId
  deriving DecidableEq

/-- An account's key, or a row. Attempts and ranges belong to their subject. -/
inductive Resource (W R : Type*) where
  | account (key : Int)
  | subject (x : Subject)
  | attempt (x : Subject) (number : ℕ)
  | range (x : Subject) (id : Uuid)
  | command (w : W) (sequence : ℕ)
  | lease (region : R)
  | connection (w : W)
  deriving DecidableEq

/-- An attempt, by its control generation or dispatch sequence. -/
structure Attempt (W : Type*) where
  subject : Subject
  number : ℕ
  worker : W
  range : Option Uuid

variable {W R : Type*}

/-- `hold_the_account`. -/
def holdTheAccount (u : UserId) : Resource W R := .account (budgetLock u)

/-- `FOR UPDATE OF session, attempt`. -/
def Attempt.rows (x : Attempt W) : List (Resource W R) :=
  [.subject x.subject, .attempt x.subject x.number]

/-- `lock_attempt_ranges`: the ranges of these accounts, by id. -/
def lockAttemptRanges (accounts : List UserId) (attempts : List (Attempt W)) :
    List (Resource W R) :=
  let found := attempts.filter (·.subject.owner ∈ accounts)
  let ranges := found.filterMap fun x => x.range.map fun id => (x.subject, id)
  (ranges.insertionSort fun x y => x.2 ≤ y.2).map fun x => .range x.1 x.2

/-- What `prepare_command_subject` finds. -/
inductive Prepared where
  /-- The session, where it exists already. -/
  | openSession (existing : Option Subject)
  /-- `update_session` or `close_session`: whether the session's row is of the generation
  asked for, and the attempt. -/
  | session (x : Subject) (current : Bool) (attempt : Option ℕ)
  | dispatchJob (job : Subject)
  | cancelJob (job : Subject) (attempt : Option ℕ)

/-- Whether the command is not refused there. -/
def Prepared.admits (account : UserId) : Prepared → Bool
  | .openSession existing => existing.all (·.owner = account)
  | .session x current attempt => current && attempt.isSome && x.owner = account
  | .dispatchJob job => job.owner = account
  | .cancelJob job attempt => attempt.isSome && job.owner = account

/-- The rows of `prepare_command_subject`. The attempt of a session is asked for before
the session's row is looked at, and the session is written there. -/
def Prepared.locks (account : UserId) : Prepared → List (Resource W R)
  | .openSession existing => existing.toList.map .subject
  | .session x current attempt =>
    (if current then [.subject x] else []) ++ attempt.toList.map (.attempt x) ++
      if (Prepared.session x current attempt).admits account then [.subject x] else []
  | .dispatchJob job => [.subject job]
  | .cancelJob job attempt =>
    [.subject job] ++ if job.owner = account then attempt.toList.map (.attempt job) else []

/-- `apply_command_claim`; what it inserts nobody waits for. -/
def Prepared.claim : Prepared → List (Resource W R)
  | .openSession existing => existing.toList.map .subject
  | .dispatchJob job => [.subject job]
  | .session _ _ _ | .cancelJob _ _ => []

/-- `lock_update_ack_subject`: the subject of a pending `update_session`, with its attempt
and range. -/
def lockUpdateAckSubject : Option (Subject × Option (ℕ × Option Uuid)) → List (Resource W R)
  | none => []
  | some (x, none) => [.subject x]
  | some (x, some (n, range)) => [.subject x, .attempt x n] ++ range.toList.map (.range x)

/-- The lease of the worker's region, then its connection. -/
def authority (region : W → R) (w : W) : List (Resource W R) := [.lease (region w), .connection w]

variable [LinearOrder W]

/-- Rows of the journal, in the order in which its statements lock them. -/
def journal (rows : List (W × ℕ)) : List (Resource W R) :=
  (rows.insertionSort fun x y => toLex x ≤ toLex y).map fun x => .command x.1 x.2

def journalOf (w : W) (sequences : List ℕ) : List (Resource W R) :=
  journal (sequences.map fun n => (w, n))

/-! ## Erasures -/

/-- What an erasure finds: open attempts, the journal's rows it locks, and which of these
it erases. -/
structure Erasure (W : Type*) where
  attempts : List (Attempt W)
  rows : List (W × ℕ)
  pending : W × ℕ → Bool

/-- The workers to fence: those of the erased rows, and those of the attempts. -/
def Erasure.workers (e : Erasure W) : List W :=
  ((e.rows.filter e.pending).map Prod.fst ++ e.attempts.map Attempt.worker).dedup.insertionSort
    (· ≤ ·)

/-- The selection of an erasure: attempts, ranges, rows. -/
def Erasure.selection (e : Erasure W) (accounts : List UserId) : List (Resource W R) :=
  e.attempts.flatMap Attempt.rows ++ lockAttemptRanges accounts e.attempts ++ journal e.rows

/-- The attempts of an erasure are those of the subjects it is about. -/
def Erasure.about (e : Erasure W) (which : Subject → Bool) : Erasure W :=
  { e with attempts := e.attempts.filter (which ·.subject) }

/-- The erasure of one attempt. Its commands are on its own worker, and the attempt is
found while it is open and its subject is attached. -/
structure Reading where
  found : Bool
  sequences : List ℕ
  pending : ℕ → Bool

def Reading.erasure (r : Reading) (x : Attempt W) : Erasure W where
  attempts := if r.found then [x] else []
  rows := r.sequences.map fun n => (x.worker, n)
  pending row := r.pending row.2

/-- Whether the erasure fences the worker. -/
def Reading.fences (r : Reading) : Bool := r.found || r.sequences.any r.pending

variable [LinearOrder R] (region : W → R)

/-- `_erase_pending_rows`, its rows locked. -/
def Erasure.fence (e : Erasure W) : List (Resource W R) :=
  journal (e.rows.filter e.pending) ++
    ((e.workers.map region).dedup.insertionSort (· ≤ ·)).map .lease ++
    e.workers.map .connection

def Erasure.locks (e : Erasure W) (accounts : List UserId) : List (Resource W R) :=
  e.selection accounts ++ e.fence region

/-- `erase_account_commands`, under the accounts' keys. -/
def eraseAccountCommands (accounts : List UserId) (e : Erasure W) : List (Resource W R) :=
  (keysOf accounts).map .account ++ (e.about (·.owner ∈ accounts)).locks region accounts

/-- `erase_realtime_commands`; `bindings` are the sessions it finds. -/
def eraseRealtimeCommands (account : UserId) (bindings : List Subject) (e : Erasure W) :
    List (Resource W R) :=
  let found := bindings.filter (·.owner = account)
  [holdTheAccount account] ++ found.map .subject ++ (e.about (· ∈ found)).locks region [account]

/-- `erase_subject_commands`, under the account's key. -/
def eraseSubjectCommands (account : UserId) (x : Subject) (e : Erasure W) : List (Resource W R) :=
  [holdTheAccount account] ++
    (e.about fun y => y = x ∧ y.owner = account).locks region [account]

/-! ## Commands -/

/-- `commit_command`: the whole journal of the worker, whatever the account. -/
def commitCommand (account : UserId) (prepared : Prepared) (w : W) (sequences : List ℕ)
    (deleted : ℕ → Bool) : List (Resource W R) :=
  [holdTheAccount account] ++ prepared.locks account ++
    if prepared.admits account then
      journalOf w sequences ++ authority region w ++ [.connection w] ++
        journalOf w (sequences.filter deleted) ++ prepared.claim ++ [.connection w]
    else []

/-- `register_delivery`; `attempt` is its number and its range. -/
def registerDelivery (account : UserId) (x : Subject) (attempt : ℕ × Option Uuid) (w : W)
    (sequences : List ℕ) : List (Resource W R) :=
  [holdTheAccount account, .subject x] ++
    if x.owner = account then
      [.attempt x attempt.1] ++ attempt.2.toList.map (.range x) ++ journalOf w sequences ++
        authority region w
    else []

/-- `acknowledge`; `update` is what `lock_update_ack_subject` finds. -/
def acknowledge (account : Option UserId) (update : Option (Subject × Option (ℕ × Option Uuid)))
    (w : W) (sequences : List ℕ) (changed deleted : ℕ → Bool) : List (Resource W R) :=
  account.toList.map holdTheAccount ++
    lockUpdateAckSubject update ++ journalOf w sequences ++ authority region w ++ (update.toList.map fun u => .subject u.1) ++
    journalOf w (sequences.filter changed) ++ [.connection w] ++
    journalOf w (sequences.filter deleted)

/-! ## Reports and endings -/

/-- How a report ends its subject. -/
inductive Completion where
  | none
  /-- It is physically complete: the pending commands of the subject, and which of them
  are still found when the report is stored. -/
  | complete (sequences : List ℕ) (again : ℕ → Bool)
  /-- The report of a finished job that is not physically complete: what the selection
  before the lease finds, and what the erasure after it finds. -/
  | terminal (first second : Reading)

/-- The journal's rows that `commit_worker_report` locks before the lease. -/
def Completion.first (x : Attempt W) : Completion → List (Resource W R)
  | .none => []
  | .complete sequences _ => journalOf x.worker sequences
  | .terminal first _ => (first.erasure x).selection [x.subject.owner]

/-- What `commit_worker_report` asks for once the report is stored. -/
def Completion.second (x : Attempt W) : Completion → List (Resource W R)
  | .none => []
  | .complete sequences again => journalOf x.worker (sequences.filter again)
  | .terminal _ second => (second.erasure x).locks region [x.subject.owner]

/-- Whether the session's row is ended with the report. -/
def Completion.ends (x : Subject) : Completion → Bool
  | .complete _ _ => x.kind = .session
  | .none | .terminal _ _ => false

/-- `commit_worker_report`, for a report that names `reported` as its region. -/
def commitWorkerReport (x : Attempt W) (range : Uuid) (reported : R) (completion : Completion) :
    List (Resource W R) :=
  [holdTheAccount x.subject.owner, .subject x.subject, .attempt x.subject x.number,
      .range x.subject range] ++
    completion.first x ++ [.lease reported, .connection x.worker] ++
    if reported = region x.worker then
      [.range x.subject range, .attempt x.subject x.number] ++
        (if completion.ends x.subject then [.subject x.subject] else []) ++
        [.range x.subject range] ++ completion.second region x
    else []

/-- `end_realtime_session`. -/
def endRealtimeSession (x : Subject) (attempt : Option ℕ) (e : Erasure W) : List (Resource W R) :=
  [holdTheAccount x.owner, .subject x] ++ attempt.toList.map (.attempt x) ++
    (e.about (· = x)).locks region [x.owner] ++ attempt.toList.map (.attempt x) ++ [.subject x]

/-- What `close_worker` finds of an attempt of the worker: the attempt, and later its erasure. -/
structure Closing where
  subject : Subject
  number : ℕ
  range : Option Uuid
  reading : Reading

def Closing.attempt (x : Closing) (w : W) : Attempt W := ⟨x.subject, x.number, w, x.range⟩

/-- An iteration of `close_worker`. -/
def Closing.locks (x : Closing) (w : W) : List (Resource W R) :=
  (x.reading.erasure (x.attempt w)).locks region [x.subject.owner]

/-- `close_worker`; `ended` are the attempts its last update finds. -/
def closeWorker (w : W) (owners : List UserId) (attempts : List Closing)
    (ended : List (Subject × ℕ)) : List (Resource W R) :=
  (keysOf owners).map .account ++ attempts.flatMap (fun x => (x.attempt w).rows) ++
    lockAttemptRanges owners (attempts.map (·.attempt w)) ++
    attempts.flatMap (fun x => x.locks region w) ++ [.connection w] ++
    (ended.map fun x => .attempt x.1 x.2) ++ attempts.map fun x => .subject x.subject

/-! ## Authority -/

/-- `acquire_scheduler_lease` and `renew_scheduler_lease`, which move the deadline of the
connections of the region. -/
def acquireSchedulerLease (r : R) (connections : List W) : List (Resource W R) :=
  [.lease r] ++ (connections.filter (region · = r)).map .connection

/-- `register_worker`: at most one connection of the worker is open. -/
def registerWorker (r : R) (previous : Option W) : List (Resource W R) :=
  [.lease r] ++ previous.toList.map .connection

/-- `update_worker_models`, which asks for the connection whether or not it found a lease. -/
def updateWorkerModels (lease : Option R) (w : W) : List (Resource W R) :=
  lease.toList.map .lease ++ [.connection w, .connection w]

/-- `activate_initial_worker`. -/
def activateInitialWorker (r : R) (w : W) : List (Resource W R) :=
  [.lease r, .connection w, .connection w]

/-- `renew_worker_grant`, its activation apart. -/
def renewWorkerGrant (w : W) : List (Resource W R) := [.connection w]

/-- A transaction, with what its statements find. -/
inductive Transaction (W R : Type*) where
  | commitCommand (account : UserId) (prepared : Prepared) (w : W) (sequences : List ℕ)
      (deleted : ℕ → Bool)
  | registerDelivery (account : UserId) (x : Subject) (attempt : ℕ × Option Uuid) (w : W)
      (sequences : List ℕ)
  | acknowledge (account : Option UserId) (update : Option (Subject × Option (ℕ × Option Uuid)))
      (w : W) (sequences : List ℕ) (changed deleted : ℕ → Bool)
  | commitWorkerReport (x : Attempt W) (range : Uuid) (reported : R) (completion : Completion)
  | endRealtimeSession (x : Subject) (attempt : Option ℕ) (e : Erasure W)
  | closeWorker (w : W) (owners : List UserId) (attempts : List Closing)
      (ended : List (Subject × ℕ))
  | eraseAccountCommands (accounts : List UserId) (e : Erasure W)
  | eraseRealtimeCommands (account : UserId) (bindings : List Subject) (e : Erasure W)
  | eraseSubjectCommands (account : UserId) (x : Subject) (e : Erasure W)
  | acquireSchedulerLease (r : R) (connections : List W)
  | registerWorker (r : R) (previous : Option W)
  | updateWorkerModels (lease : Option R) (w : W)
  | activateInitialWorker (r : R) (w : W)
  | renewWorkerGrant (w : W)

/-- The locks a transaction asks for. -/
def Transaction.locks : Transaction W R → List (Resource W R)
  | .commitCommand account prepared w sequences deleted =>
    Journal.commitCommand region account prepared w sequences deleted
  | .registerDelivery account x attempt w sequences =>
    Journal.registerDelivery region account x attempt w sequences
  | .acknowledge account update w sequences changed deleted =>
    Journal.acknowledge region account update w sequences changed deleted
  | .commitWorkerReport x range reported completion =>
    Journal.commitWorkerReport region x range reported completion
  | .endRealtimeSession x attempt e => Journal.endRealtimeSession region x attempt e
  | .closeWorker w owners attempts ended => Journal.closeWorker region w owners attempts ended
  | .eraseAccountCommands accounts e => Journal.eraseAccountCommands region accounts e
  | .eraseRealtimeCommands account bindings e =>
    Journal.eraseRealtimeCommands region account bindings e
  | .eraseSubjectCommands account x e => Journal.eraseSubjectCommands region account x e
  | .acquireSchedulerLease r connections => Journal.acquireSchedulerLease region r connections
  | .registerWorker r previous => Journal.registerWorker r previous
  | .updateWorkerModels lease w => Journal.updateWorkerModels lease w
  | .activateInitialWorker r w => Journal.activateInitialWorker r w
  | .renewWorkerGrant w => Journal.renewWorkerGrant w

/-! ## The order -/

/-- Attempts and ranges are asked for under their subject. -/
def shelter : Resource W R → Option (Resource W R)
  | .attempt x _ | .range x _ => some (.subject x)
  | _ => none

/-- Keys, subjects, the journal, leases, connections. The odd numbers between them say
that nothing of the next level is held yet. -/
def level : Resource W R → ℕ
  | .account _ => 0
  | .subject _ => 2
  | .command _ _ => 4
  | .lease _ => 6
  | .connection _ => 8
  | .attempt _ _ | .range _ _ => 10

/-- Several subjects are asked for under their owners' keys, several connections under the
leases of their regions. -/
def gate : Resource W R → Option (Resource W R)
  | .subject x => some (holdTheAccount x.owner)
  | .connection w => some (.lease (region w))
  | _ => none

def before : Resource W R → Resource W R → Prop
  | .account k, .account k' => place k < place k'
  | .command w n, .command w' n' => toLex (w, n) < toLex (w', n')
  | .lease r, .lease r' => r < r'
  | _, _ => False

def order : LockOrder (Resource W R) where
  shelter := shelter
  level := level
  gate := gate region
  before := before
  irrefl := by
    intro r h
    cases r <;> first | exact lt_irrefl _ h | exact h
  trans := by
    intro a b c hab hbc
    cases a <;> cases b <;> first | exact hab.elim | skip
    all_goals cases c <;> first | exact hbc.elim | exact lt_trans hab hbc

/-! ## When the order is kept -/

/-- The erasures of `close_worker` ask for the journal in its order: while no erasure has
gone on to the lease, for rows after all those locked, and afterwards only for rows that
are locked. -/
def Orderly (locked : List ℕ) (fenced : Bool) : List Reading → Prop
  | [] => True
  | r :: rest =>
    (∀ n ∈ r.sequences, n ∈ locked ∨ (fenced = false ∧ ∀ k ∈ locked, k < n)) ∧
      Orderly (locked ++ r.sequences) (fenced || r.fences) rest

/-- What the later statements of a transaction find are rows that its earlier ones have
locked: the second reading of the journal by a terminal report; the attempts of
`close_worker`, which are those of the accounts it read, its erasures, and its last
update. -/
def Transaction.Settled : Transaction W R → Prop
  | .commitWorkerReport _ _ _ (.terminal first second) => ∀ n ∈ second.sequences, n ∈ first.sequences
  | .closeWorker _ owners attempts ended =>
    (∀ x ∈ attempts, x.subject.owner ∈ owners) ∧
      Orderly [] false (attempts.map Closing.reading) ∧
      ∀ x ∈ ended, ∃ y ∈ attempts, y.subject = x.1
  | _ => True

end Potocolom.Locks.Journal
