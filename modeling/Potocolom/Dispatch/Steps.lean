import Potocolom.Dispatch.Types

/-! # The dispatcher's steps

A step is what runs between two awaits. An await on PostgreSQL that writes answers in one of
three ways: the write landed, its COMMIT raised and PostgreSQL decides later, or the call
raised before anything was written. A transaction that takes the row lock is one step, taken
when the lock is free, except `dispatch` for the older protocols, which holds the lock until
its socket send has returned. -/

namespace Potocolom.Dispatch

/-- How an await answers. -/
inductive Answer where
  | landed | inDoubt | raised
  deriving DecidableEq

/-- How reading the source asset answers. -/
inductive SourceAnswer where
  | found | missing | raised
  deriving DecidableEq

/-- How the wait for the delivery task of a protocol 6 worker ends: the task never came to
`prepare`, or `prepare` read the row. -/
inductive PrepareAnswer where
  | unavailable | raised | read (source : Bool)
  deriving DecidableEq

/-- How `commit_command` answers a claim. -/
inductive ClaimAnswer where
  | landed | inDoubt | raised | stale | refused
  deriving DecidableEq

inductive InspectAnswer where
  | good | bad | raised
  deriving DecidableEq

inductive Label where
  -- the dispatch loop
  | begins
  | recovers
  | requeues (a : Answer)
  | sweeps (stalled : Bool)
  | scans
  | asks (answered : Bool)
  | locks (answered : Bool)
  | publishes (answered : Bool)
  | fetches (a : SourceAnswer)
  | drops (a : Answer)
  | sends (sent : Bool)
  | commits (a : Answer)
  | prepares (a : PrepareAnswer)
  | uploads (answered : Bool)
  | claims (a : ClaimAnswer)
  | probes (answered : Bool)
  | delivers
  -- reports
  | reports (j : Nat) (r : Report)
  | charges (i : Nat) (answered : Bool)
  | inspects (i : Nat) (a : InspectAnswer)
  | rules (i : Nat) (a : Answer)
  | clears (i : Nat)
  -- job rows
  | creates (j : Nat) (row : Row) (refreshed : Bool)
  | cancels (j : Nat) (a : Answer)
  | deletes (j : Nat)
  | resolves (j : Nat) (landed : Bool)
  -- workers and their deliveries
  | connects (w : Nat) (k : Worker)
  | forgets (w : Nat)
  | loses (w : Nat)
  | grants (w : Nat) (granted : Bool)
  | holdsSlots (w : Nat) (n : Nat)
  | kicks (w : Nat) (c : Command)
  | reads (w : Nat) (answered : Bool)
  | tracks (w : Nat)
  | retires (c : Command)
  deriving DecidableEq

namespace World

variable (s : World)

/-! ## The pass over `lost_jobs` and the sweep -/

/-- The head of the step: one pass over what is in `lost_jobs` now. -/
def begins : Option World :=
  match s.phase with
  | .idle => some { s with phase := .recovering s.lostJobs.length }
  | _ => none

def recovers : Option World :=
  match s.phase with
  | .recovering 0 => some { s with phase := .sweeping s.inflight.keys }
  | .recovering (left + 1) =>
    match s.lostJobs with
    | [] => none
    | j :: rest => some { s with lostJobs := rest, phase := .requeuing (.lost left) j .locking }
  | _ => none

/-- `requeue_or_fail` returned. -/
def requeued (caller : Caller) : World :=
  match caller with
  | .lost left => { s with phase := .recovering left }
  | .stalled keys => { s with phase := .sweeping keys }

/-- `requeue_or_fail` raised: the pass goes on, the sweep ends the step. -/
def requeueRaised (caller : Caller) (j : Nat) : World :=
  match caller with
  | .lost left => { s with lostJobs := s.lostJobs ++ [j], phase := .recovering left }
  | .stalled _ => { s with lostJobs := s.lostJobs ++ [j], phase := .idle }

def pushHint (h : Hint) : World := { s with hints := s.hints ++ [h] }

/-- The end of a transaction that writes one row: what follows when it landed, and what
follows when it raised. -/
def commit (a : Answer) (j : Nat) (row : Row) (landed raised : World → World) : World :=
  match a with
  | .landed => landed (s.write j row none)
  | .inDoubt => raised (s.leaveInDoubt j row none)
  | .raised => raised s

/-- `requeue_or_fail`, and `mark_failed` at its end. -/
def requeues (a : Answer) : Option World :=
  match s.phase with
  | .requeuing caller j .locking =>
    if a = .raised then some (s.requeueRaised caller j)
    else if s.Unlocked j then
      match s.rows j with
      | none => some (s.requeued caller)
      | some row =>
        if row.state.terminal then some (s.requeued caller)
        else if row.state = .queued then
          some ((s.pushHint ⟨row.createdAt, j⟩).requeued caller)
        else if row.attempt = 1 then
          some (s.commit a j { row with attempt := 2, state := .queued }
            (fun t => (t.pushHint ⟨row.createdAt, j⟩).requeued caller)
            (fun t => t.requeueRaised caller j))
        else some { s with phase := .requeuing caller j .failing }
    else none
  | .requeuing caller j .failing =>
    if a = .raised then some (s.requeueRaised caller j)
    else if s.Unlocked j then
      match s.rows j with
      | none => some (s.requeued caller)
      | some row =>
        if row.state.terminal then some (s.requeued caller)
        else some (s.commit a j { row with state := .failed }
          (fun t => { t with phase := .requeuing caller j .purging })
          (fun t => t.requeueRaised caller j))
    else none
  | .requeuing caller j .purging =>
    if a = .landed then some (s.requeued caller) else some (s.requeueRaised caller j)
  | _ => none

/-- `sweep_stalled_jobs`, up to the requeue of a stalled job. -/
def sweeps (stalled : Bool) : Option World :=
  match s.phase with
  | .sweeping [] => some { s with phase := .scanning [] }
  | .sweeping (j :: keys) =>
    match s.inflight.get j with
    | none => some { s with phase := .sweeping keys }
    | some entry =>
      if stalled then
        some { s.untrack j entry.worker with phase := .requeuing (.stalled keys) j .locking }
      else
        some { s with inflight := (s.inflight.erase j).put j entry, phase := .sweeping keys }
  | _ => none

/-! ## The pass over the queue -/

/-- The `finally` of the step: the parked hints go back. -/
def endStep (skipped : List Hint) : World :=
  { s with hints := s.hints ++ skipped, phase := .idle }

def scans : Option World :=
  match s.phase with
  | .scanning skipped =>
    if s.registered.any s.hasRoom then
      match s.nextHint with
      | none => some (s.endStep skipped)
      | some h =>
        some { s with hints := s.hints.erase h, phase := .dispatching h skipped .asking }
    else some (s.endStep skipped)
  | _ => none

/-- `dispatch` returned: without a worker for it, the hint is parked. -/
def dispatched (h : Hint) (skipped : List Hint) (taken : Bool) : World :=
  { s with phase := .scanning (if taken then skipped else skipped ++ [h]) }

/-- `dispatch` raised: the hint goes back unless the job is in `inflight`. -/
def dispatchRaised (h : Hint) (skipped : List Hint) : World :=
  if (s.inflight.get h.job).isSome then s.endStep skipped
  else (s.pushHint h).endStep skipped

def stage (h : Hint) (skipped : List Hint) (stage : DispatchStage) : World :=
  { s with phase := .dispatching h skipped stage }

/-- The unlocked read of the model, and the first pick. -/
def asks (answered : Bool) : Option World :=
  match s.phase with
  | .dispatching h skipped .asking =>
    if answered then
      match s.rows h.job with
      | none => some (s.dispatched h skipped true)
      | some row =>
        match s.pickJobWorker row.modelId with
        | none => some (s.dispatched h skipped false)
        | some w =>
          if (s.workers w).any (·.incarnation.isSome) then some (s.stage h skipped (.waiting w))
          else some (s.stage h skipped .locking)
    else some (s.dispatchRaised h skipped)
  | _ => none

/-- The locked read of the row, and the second pick. -/
def locks (answered : Bool) : Option World :=
  match s.phase with
  | .dispatching h skipped .locking =>
    if answered then
      if s.Unlocked h.job then
        match s.rows h.job with
        | none => some (s.dispatched h skipped true)
        | some row =>
          if row.state = .queued then
            match s.pickJobWorker row.modelId with
            | none => some (s.dispatched h skipped false)
            | some w => some (s.stage h skipped (.targets w))
          else some (s.dispatched h skipped true)
      else none
    else some (s.dispatchRaised h skipped)
  | _ => none

/-- The upload targets are there: the bookkeeping before the send. -/
def publishes (answered : Bool) : Option World :=
  match s.phase with
  | .dispatching h skipped (.targets w) =>
    if answered then
      match s.rows h.job with
      | none => none
      | some row =>
        let entry : Entry := ⟨s.idents, w, row.attempt, none⟩
        some ((s.track h.job w row.attempt none).stage h skipped
          (if row.hasSource then .fetching entry else .sending entry))
    else some (s.dispatchRaised h skipped)
  | _ => none

def fetches (a : SourceAnswer) : Option World :=
  match s.phase with
  | .dispatching h skipped (.fetching entry) =>
    match a with
    | .found => some (s.stage h skipped (.sending entry))
    | .missing => some ((s.untrack h.job entry.worker).stage h skipped .dropping)
    | .raised => some (s.dispatchRaised h skipped)
  | _ => none

/-- The job fails because its source asset is gone. -/
def drops (a : Answer) : Option World :=
  match s.phase with
  | .dispatching h skipped .dropping =>
    match s.rows h.job with
    | none => none
    | some row =>
      some (s.commit a h.job { row with state := .failed }
        (fun t => t.dispatched h skipped true) (fun t => t.dispatchRaised h skipped))
  | _ => none

def forgetWorker (w : Nat) : World := { s with registered := s.registered.filter (· ≠ w) }

/-- The bounded send over the worker's socket. -/
def sends (sent : Bool) : Option World :=
  match s.phase with
  | .dispatching h skipped (.sending entry) =>
    if sent then some (s.stage h skipped (.committing entry))
    else if (s.inflight.get h.job).isSome then
      some (((s.forgetWorker entry.worker).untrack h.job entry.worker).dispatched h skipped false)
    else some ((s.forgetWorker entry.worker).dispatched h skipped true)
  | _ => none

def commits (a : Answer) : Option World :=
  match s.phase with
  | .dispatching h skipped (.committing _) =>
    match s.rows h.job with
    | none => none
    | some row =>
      some (s.commit a h.job { row with state := .running }
        (fun t => t.dispatched h skipped true) (fun t => t.dispatchRaised h skipped))
  | _ => none

/-! ## `dispatch_protocol6` -/

/-- The delivery task of the worker runs no other command. -/
def DeliveryFree (w : Nat) : Prop := s.tracking w = none ∧ s.phase.delivery ≠ some w

instance (w : Nat) : Decidable (s.DeliveryFree w) := inferInstanceAs (Decidable (_ ∧ _))

def prepares (a : PrepareAnswer) : Option World :=
  match s.phase with
  | .dispatching h skipped (.waiting w) =>
    match a with
    | .unavailable => some (s.dispatched h skipped false)
    | .raised => some (s.dispatchRaised h skipped)
    | .read source =>
      if s.DeliveryFree w ∧ w ∈ s.registered then
        match s.rows h.job with
        | none => some (s.dispatched h skipped true)
        | some row =>
          if row.state = .queued then
            if row.hasSource ∧ source = false then some (s.dispatched h skipped false)
            else some (s.stage h skipped (.targeting w row.attempt row.currentDispatchSequence))
          else some (s.dispatched h skipped true)
      else none
  | _ => none

/-- The upload targets are there: the entry is published before the claim. -/
def uploads (answered : Bool) : Option World :=
  match s.phase with
  | .dispatching h skipped (.targeting w attempt previous) =>
    if answered then
      some ((s.track h.job w attempt (some (previous + 1))).stage h skipped
        (.claiming ⟨s.idents, w, attempt, some (previous + 1)⟩ previous))
    else some (s.dispatchRaised h skipped)
  | _ => none

/-- The row and the command that a claim by the incarnation writes. -/
def claim (row : Row) (j i : Nat) : Doubt where
  row := { row with
    state := .running
    currentDispatchSequence := row.currentDispatchSequence + 1
    incarnation := some i }
  command := some ⟨i, j, row.currentDispatchSequence + 1⟩

/-- What the claim of the job writes, where it is not refused. -/
def claimOf (j w : Nat) : Option Doubt :=
  if s.Unlocked j then
    match s.rows j, (s.workers w).bind Worker.incarnation with
    | some row, some i => if row.state = .queued then some (claim row j i) else none
    | _, _ => none
  else none

/-- `commit_command` for the claim. The sequence it returns is the one that the entry was
published with: the row is as it was read, or the claim is stale. -/
def claims (a : ClaimAnswer) : Option World :=
  match s.phase with
  | .dispatching h skipped (.claiming current previous) =>
    match a with
    | .raised => some (s.stage h skipped (.probing current previous))
    | .refused => some ((s.clearIfCurrent h.job current).dispatched h skipped false)
    | .stale =>
      if s.Unlocked h.job ∧ ∀ row, s.rows h.job = some row → row.state ≠ .queued then
        some ((s.clearIfCurrent h.job current).dispatched h skipped true)
      else none
    | .landed => (s.claimOf h.job current.worker).map fun d =>
        (s.write h.job d.row d.command).stage h skipped .delivering
    | .inDoubt => (s.claimOf h.job current.worker).map fun d =>
        (s.leaveInDoubt h.job d.row d.command).stage h skipped (.probing current previous)
  | _ => none

/-- The attempt row of the worker's claim, which only the claim's transaction writes. -/
def claimCommitted (j w previous : Nat) : Bool :=
  (s.rows j).any fun row => row.incarnation.isSome &&
    row.incarnation == (s.workers w).bind Worker.incarnation &&
    decide (previous < row.currentDispatchSequence)

/-- The read of the claim's outcome. -/
def probes (answered : Bool) : Option World :=
  match s.phase with
  | .dispatching h skipped (.probing current previous) =>
    if answered then
      if s.claimCommitted h.job current.worker previous then
        some (s.stage h skipped .delivering)
      else
        let dropped := s.clearIfCurrent h.job current
        some ({ dropped with lostJobs := dropped.lostJobs ++ [h.job] }.dispatched h skipped true)
    else some (s.dispatched h skipped true)
  | _ => none

/-- The delivery that carried the claim ended. -/
def delivers : Option World :=
  match s.phase with
  | .dispatching h skipped .delivering => some (s.dispatched h skipped true)
  | _ => none

/-! ## Reports -/

/-- A report that presents the token of the current entry. Any other report is ignored. -/
def reports (j : Nat) (r : Report) : Option World :=
  match s.inflight.get j with
  | none => none
  | some current =>
    if s.phase.unsent = some current then none
    else match r with
      | .cancelled 0 => some (s.clearIfCurrent j current)
      | .cancelled (_ + 1) => some { s with tasks := s.tasks ++ [⟨j, current, .charging⟩] }
      | .done => some { s with tasks := s.tasks ++ [⟨j, current, .inspecting⟩] }
      | .failed => some { s with tasks := s.tasks ++ [⟨j, current, .ruling .failed⟩] }

/-- The handling of report `i` ends, or goes on at another stage. -/
def endTask (i : Nat) : World := { s with tasks := s.tasks.eraseIdx i }

def setStage (i : Nat) (task : Task) (stage : ReportStage) : World :=
  { s with tasks := s.tasks.set i { task with stage := stage } }

/-- `_charge_cancelled`, and the clearing after it. -/
def charges (i : Nat) (answered : Bool) : Option World :=
  match s.tasks[i]? with
  | some ⟨j, current, .charging⟩ =>
    if answered then
      if s.Unlocked j then some ((s.clearIfCurrent j current).endTask i) else none
    else some (s.endTask i)
  | _ => none

/-- The inspection and the promotion of the output. -/
def inspects (i : Nat) (a : InspectAnswer) : Option World :=
  match s.tasks[i]? with
  | some ⟨j, current, .inspecting⟩ =>
    if a = .raised ∨ s.inflight.get j ≠ some current then some (s.endTask i)
    else some (s.setStage i ⟨j, current, .inspecting⟩
      (.ruling (if a = .good then .done else .invalid)))
  | _ => none

/-- The row that a verdict leaves. -/
def verdictRow (row : Row) (v : Verdict) : Row :=
  { row with state := if v = .done then .succeeded else .failed }

/-- The transaction of a verdict. An entry that no longer owns the row is cleared where the
row was cancelled at its attempt, and where the output was not usable. -/
def rules (i : Nat) (a : Answer) : Option World :=
  match s.tasks[i]? with
  | some ⟨j, current, .ruling v⟩ =>
    if a = .raised then some (s.endTask i)
    else if s.Unlocked j then
      match s.rows j with
      | none =>
        if v = .invalid then some ((s.clearIfCurrent j current).endTask i)
        else some (s.endTask i)
      | some row =>
        if row.state.terminal ∨ current.attempt < row.attempt then
          if v = .invalid ∨
              (v = .done ∧ row.state = .cancelled ∧ row.attempt = current.attempt) then
            some ((s.clearIfCurrent j current).endTask i)
          else some (s.endTask i)
        else
          some (s.commit a j (verdictRow row v)
            (fun t => t.setStage i ⟨j, current, .ruling v⟩ .clearing) (fun t => t.endTask i))
    else none
  | _ => none

def clears (i : Nat) : Option World :=
  match s.tasks[i]? with
  | some ⟨j, current, .clearing⟩ => some ((s.clearIfCurrent j current).endTask i)
  | _ => none

/-! ## Job rows -/

/-- `create_job` from its commit to its push, under a random id. The push waits for the
refresh after the commit, and does not happen when the refresh raises. -/
def creates (j : Nat) (row : Row) (refreshed : Bool) : Option World :=
  if s.Unheard j ∧ row.state = .queued ∧ row.attempt = 1 ∧ row.currentDispatchSequence = 0 then
    let created := s.write j row none
    some (if refreshed then created.pushHint ⟨row.createdAt, j⟩ else created)
  else none

def cancels (j : Nat) (a : Answer) : Option World :=
  if s.Unlocked j then
    match s.rows j with
    | none => none
    | some row =>
      if row.state.terminal then none
      else some (s.commit a j { row with state := .cancelled } (fun t => t) (fun t => t))
  else none

/-- The row goes with its account. -/
def deletes (j : Nat) : Option World :=
  if s.Unlocked j then
    some { s with rows := Function.update s.rows j none }
  else none

/-- PostgreSQL settles a transaction whose COMMIT raised. -/
def resolves (j : Nat) (landed : Bool) : Option World :=
  match s.doubt j with
  | none => none
  | some d =>
    let settled := { s with doubt := Function.update s.doubt j none }
    some (if landed then settled.write j d.row d.command else settled)

/-! ## Workers and their deliveries -/

def connects (w : Nat) (k : Worker) : Option World :=
  if s.workers w = none ∧ k.jobsInFlight = 0 then
    some { s with
      workers := Function.update s.workers w (some k), registered := s.registered ++ [w] }
  else none

/-- `on_worker_lost`, once the worker was forgotten. -/
def loses (w : Nat) : Option World :=
  if w ∈ s.registered then none
  else some { s with
    inflight := s.inflight.filter fun e => e.worker ≠ w
    lostJobs := s.lostJobs ++ (s.inflight.items.filter fun i => i.2.worker = w).map Prod.fst }

def grants (w : Nat) (granted : Bool) : World :=
  s.setWorker w fun k => { k with hasCurrentWorkGrant := granted }

def holdsSlots (w n : Nat) : World := s.setWorker w fun k => { k with slotsInUse := n }

def setTracking (w : Nat) (t : Option Tracking) : World :=
  { s with tracking := Function.update s.tracking w t }

/-- A delivery of the worker reads its pending command. -/
def kicks (w : Nat) (c : Command) : Option World :=
  if s.DeliveryFree w ∧ w ∈ s.registered ∧ c ∈ s.commands ∧
      (s.workers w).bind Worker.incarnation = some c.incarnation then
    some (s.setTracking w (some (.reading c)))
  else none

/-- The read of `track_dispatched_command`. -/
def reads (w : Nat) (answered : Bool) : Option World :=
  match s.tracking w with
  | some (.reading c) =>
    match s.rows c.job with
    | none => some (s.setTracking w none)
    | some row =>
      if answered ∧ row.state = .running ∧ row.currentDispatchSequence = c.dispatchSequence ∧
          row.incarnation = some c.incarnation then
        some (s.setTracking w (some (.judging c row.attempt)))
      else some (s.setTracking w none)
  | _ => none

/-- What `track_dispatched_command` does with what it read. -/
def tracks (w : Nat) : Option World :=
  match s.tracking w with
  | some (.judging c attempt) =>
    if (s.inflight.get c.job).isSome then some (s.setTracking w none)
    else some ((s.track c.job w attempt (some c.dispatchSequence)).setTracking w none)
  | _ => none

/-- A command is acknowledged or erased. -/
def retires (c : Command) : World := { s with commands := s.commands.erase c }

end World

def step (s : World) : Label → Option World
  | .begins => s.begins
  | .recovers => s.recovers
  | .requeues a => s.requeues a
  | .sweeps stalled => s.sweeps stalled
  | .scans => s.scans
  | .asks answered => s.asks answered
  | .locks answered => s.locks answered
  | .publishes answered => s.publishes answered
  | .fetches a => s.fetches a
  | .drops a => s.drops a
  | .sends sent => s.sends sent
  | .commits a => s.commits a
  | .prepares a => s.prepares a
  | .uploads answered => s.uploads answered
  | .claims a => s.claims a
  | .probes answered => s.probes answered
  | .delivers => s.delivers
  | .reports j r => s.reports j r
  | .charges i answered => s.charges i answered
  | .inspects i a => s.inspects i a
  | .rules i a => s.rules i a
  | .clears i => s.clears i
  | .creates j row refreshed => s.creates j row refreshed
  | .cancels j a => s.cancels j a
  | .deletes j => s.deletes j
  | .resolves j landed => s.resolves j landed
  | .connects w k => s.connects w k
  | .forgets w => some (s.forgetWorker w)
  | .loses w => s.loses w
  | .grants w granted => some (s.grants w granted)
  | .holdsSlots w n => some (s.holdsSlots w n)
  | .kicks w c => s.kicks w c
  | .reads w answered => s.reads w answered
  | .tracks w => s.tracks w
  | .retires c => some (s.retires c)

/-- The dispatcher starts after `recover`: no job is running, and every queued job has its
hint. Commands of an earlier process may still be pending. -/
structure Starts (s : World) : Prop where
  idle : s.phase = .idle
  inflight : s.inflight = ∅
  lostJobs : s.lostJobs = []
  doubt : ∀ j, s.doubt j = none
  tasks : s.tasks = []
  workers : ∀ w, s.workers w = none
  registered : s.registered = []
  tracking : ∀ w, s.tracking w = none
  settled : ∀ j row, s.rows j = some row → row.state ≠ .running
  hinted : ∀ j row, s.rows j = some row → row.state = .queued → ∃ h ∈ s.hints, h.job = j

def machine : Machine World Label := ⟨Starts, step⟩

end Potocolom.Dispatch
