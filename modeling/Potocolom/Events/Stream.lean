import Potocolom.Lib.Machine

/-! # The event streams of one job

`jobs.publish` and `generation_events` on one job and all its subscribers. The row is
read by the endpoint (`owned_job`), the queue joins `subscribers` when the response
first runs the generator, and the snapshot is made of the row as it was read. Every
verdict is published right after its commit, by the task that committed it. -/

namespace Potocolom.Events

inductive JobState where
  | queued
  | running
  | succeeded
  | failed
  | cancelled
deriving DecidableEq, Repr

/-- `TERMINAL_STATES`. -/
def JobState.terminal : JobState → Bool
  | .succeeded | .failed | .cancelled => true
  | .queued | .running => false

/-- What `publish` hands out: a state and the event's other fields. -/
structure Event where
  state : JobState
  fields : List (String × String)
deriving DecidableEq, Repr

def Event.terminal (event : Event) : Bool := event.state.terminal

/-- `publish` on one queue. It holds one event: the newest, but never a later one in
place of a terminal one. -/
def publishTo (queue : Option Event) (event : Event) : Option Event :=
  if event.terminal then some event
  else
    match queue with
    | none => some event
    | some queued => if queued.terminal then some queued else some event

/-- Where `generation_events` stands for one client. -/
inductive Phase where
  /-- No request yet. -/
  | idle
  /-- `owned_job` read the row in this state; the generator has not run. -/
  | loaded (state : JobState)
  /-- Subscribed, the snapshot still to be yielded. -/
  | subscribed (state : JobState)
  /-- In the loop. -/
  | waiting
  /-- Returned after a terminal state. -/
  | ended
  /-- The client left, or the generator failed. -/
  | closed
deriving DecidableEq, Repr

/-- The queue is among `subscribers` and the response is open. -/
def Phase.isOpen : Phase → Bool
  | .subscribed _ | .waiting => true
  | _ => false

structure Stream where
  phase : Phase
  queue : Option Event
  /-- The events written to the client, oldest first. -/
  yielded : List Event
deriving DecidableEq, Repr

namespace Stream

/-- `publish` reaches the queues in `subscribers`. -/
def receive (event : Event) (s : Stream) : Stream :=
  if s.phase.isOpen then { s with queue := publishTo s.queue event } else s

/-- Yield an event, and return if it is terminal. -/
def emit (event : Event) (s : Stream) : Stream :=
  { s with
    phase := if event.terminal then .ended else .waiting
    yielded := s.yielded ++ [event] }

end Stream

/-- The job and its streams. -/
structure World where
  /-- The state of the row, as committed. -/
  row : JobState
  /-- A verdict that is committed and still to be published. -/
  due : Option Event
  /-- The verdict that was published. -/
  published : Option Event
  streams : Nat → Stream

/-- What happens next. -/
inductive Action where
  /-- The row moves on without a verdict: dispatched, or queued again. -/
  | moves (state : JobState)
  /-- The verdict is committed, under the lock of the row. -/
  | commits (verdict : Event)
  /-- The task that committed it publishes it. -/
  | publishes
  /-- Progress, or a state that is not terminal, is published. -/
  | progress (event : Event)
  /-- `owned_job`. -/
  | loads (i : Nat)
  | subscribes (i : Nat)
  /-- The snapshot is yielded. -/
  | snapshots (i : Nat)
  /-- `queue.get` answers and the event is yielded. -/
  | delivers (i : Nat)
  /-- Fifteen seconds without an event. -/
  | keepalive (i : Nat)
  | closes (i : Nat)
deriving DecidableEq, Repr

namespace World

/-- `publish`. -/
def publish (w : World) (event : Event) : World :=
  { w with streams := fun i => (w.streams i).receive event }

def setStream (w : World) (i : Nat) (s : Stream) : World :=
  { w with streams := Function.update w.streams i s }

end World

/-- One step. -/
def step (w : World) : Action → Option World
  | .moves state => if w.row.terminal || state.terminal then none else some { w with row := state }
  | .commits verdict =>
    -- every writer locks the row, and none takes it out of a terminal state
    if w.row.terminal || !verdict.terminal then none
    else some { w with row := verdict.state, due := some verdict }
  | .publishes =>
    match w.due with
    | some verdict =>
      some { w.publish verdict with due := none, published := some verdict }
    | none => none
  | .progress event => if event.terminal then none else some (w.publish event)
  | .loads i =>
    match (w.streams i).phase with
    | .idle => some (w.setStream i { w.streams i with phase := .loaded w.row })
    | _ => none
  | .subscribes i =>
    match (w.streams i).phase with
    | .loaded state =>
      some (w.setStream i { w.streams i with phase := .subscribed state, queue := none })
    | _ => none
  | .snapshots i =>
    match (w.streams i).phase with
    | .subscribed state => some (w.setStream i ((w.streams i).emit ⟨state, []⟩))
    | _ => none
  | .delivers i =>
    match (w.streams i).phase, (w.streams i).queue with
    | .waiting, some event =>
      some (w.setStream i ({ w.streams i with queue := none }.emit event))
    | _, _ => none
  | .keepalive i =>
    match (w.streams i).phase with
    | .waiting => some w
    | _ => none
  | .closes i =>
    match (w.streams i).phase with
    | .ended => none
    | _ => some (w.setStream i { w.streams i with phase := .closed })

/-- A job that has no client yet. -/
def created : World where
  row := .queued
  due := none
  published := none
  streams _ := ⟨.idle, none, []⟩

/-- One job, from its creation. -/
def machine : Machine World Action where
  init w := w = created
  step := step

end Potocolom.Events
