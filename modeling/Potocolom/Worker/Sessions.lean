import Potocolom.Lib.Machine

/-! # The worker's session manager

`SessionManager` and `SessionRunner` of the worker's `client.py`, for one connection.
Runner objects are known by the number of their creation; `_runners` maps a session to
the number of its runner. The task of a runner stands at one of the awaits of `_run`. -/

namespace Potocolom.Worker

/-! ## Controls and parameters -/

/-- What `control.get("control_generation")` returns, as far as the code tells it apart. -/
inductive RawGeneration where
  | missing
  | bool (b : Bool)
  | int (n : Int)
  | other
deriving DecidableEq, Repr

/-- `control_generation`. -/
def controlGeneration : RawGeneration → Option Nat
  | .int n => if n < 1 then none else some n.toNat
  | _ => none

/-- A parameter's value, as far as the seed's rules tell it apart. -/
inductive Value where
  | bool (b : Bool)
  | int (n : Int)
  /-- A float that is a whole number. -/
  | whole (n : Int)
  | other (text : String)
deriving DecidableEq, Repr

abbrev Params := List (String × Value)

/-- `d[key] = value`. -/
def setKey (params : Params) (key : String) (value : Value) : Params :=
  if key ∈ params.map Prod.fst then
    params.map fun entry => if entry.1 = key then (key, value) else entry
  else params ++ [(key, value)]

/-- A manifest: its schema's properties, each with its declared default if it has one. -/
structure Manifest where
  id : String
  properties : List (String × Option Value)
deriving DecidableEq, Repr

/-- `Manifest.with_defaults`. -/
def Manifest.withDefaults (manifest : Manifest) (params : Params) : Params :=
  manifest.properties.foldl
    (fun filled property =>
      match property.2 with
      | some value =>
        if property.1 ∈ filled.map Prod.fst then filled else filled ++ [(property.1, value)]
      | none => filled)
    params

/-- `normalise_seed`. -/
def normaliseSeed : Option Value → Option Int
  | some (.int n) => some n
  | some (.whole n) => some n
  | _ => none

/-- `ensure_seed`; `drawn` is what `random.randrange` gives. -/
def ensureSeed (params : Params) (drawn : Int) : Params :=
  match params.lookup "seed" with
  | some (.int _) => params
  | raw => setKey params "seed" (.int ((normaliseSeed raw).getD drawn))

/-! ## Runners -/

/-- Where the task of a runner stands. -/
inductive Phase where
  /-- `engine.ensure_realtime_resident`. -/
  | loading
  /-- Sending `session_ready`. -/
  | announcing
  /-- Sending `session_refused`. -/
  | refusing
  /-- `_arrived.wait()`. -/
  | waiting
  /-- `engine.frame` on the frame with this revision. -/
  | rendering (revision : Nat)
  /-- Sending the generated frame. -/
  | sending (revision : Nat)
  | done
deriving DecidableEq, Repr

/-- A `SessionRunner`. -/
structure SessionRunner where
  session : Nat
  generation : Nat
  manifest : Manifest
  params : Params
  /-- The pending canvas frame. -/
  pending : Option (Nat × List UInt8)
  acceptedRevision : Nat
  dropped : Nat
  frames : Nat
  gpuMs : Nat
  readySent : Bool
  ended : Bool
  cancelRequested : Bool
  residencyFailures : Nat
  phase : Phase
  /-- How often `_task.cancel()` was called. -/
  cancels : Nat
  /-- The revisions handed to `engine.frame`, oldest first. -/
  rendered : List Nat
deriving DecidableEq, Repr

/-- A fresh `SessionRunner`. -/
def SessionRunner.new (session : Nat) (manifest : Manifest) (params : Params)
    (generation : Nat) : SessionRunner :=
  { session := session, generation := generation, manifest := manifest, params := params
    pending := none, acceptedRevision := 0, dropped := 0, frames := 0, gpuMs := 0
    readySent := false, ended := false, cancelRequested := false, residencyFailures := 0
    phase := .loading, cancels := 0, rendered := [] }

namespace SessionRunner

/-- `submit`. -/
def submit (r : SessionRunner) (revision : Nat) (payload : List UInt8) : SessionRunner :=
  if revision ≤ r.acceptedRevision then r
  else
    { r with
      acceptedRevision := revision
      dropped := if r.pending.isSome then r.dropped + 1 else r.dropped
      pending := some (revision, payload) }

/-- `matches_generation`. -/
def matchesGeneration (r : SessionRunner) (generation : Option Nat) : Prop :=
  generation = some r.generation

instance (r : SessionRunner) (generation : Option Nat) :
    Decidable (r.matchesGeneration generation) := by
  unfold matchesGeneration
  infer_instance

/-- `update`. The runner's own parameters have a seed, since `ensure_seed` put one. -/
def update (r : SessionRunner) (params : Params) : SessionRunner :=
  let updated := r.manifest.withDefaults params
  match normaliseSeed (updated.lookup "seed"), r.params.lookup "seed" with
  | some seed, _ => { r with params := setKey updated "seed" (.int seed) }
  | none, some seed => { r with params := setKey updated "seed" seed }
  | none, none => r

/-- `close`. -/
def close (r : SessionRunner) : SessionRunner :=
  if r.cancelRequested then { r with ended := true }
  else { r with ended := true, cancelRequested := true, cancels := r.cancels + 1 }

end SessionRunner

/-! ## The manager -/

/-- The report of `close_report`. -/
structure Report where
  session : Nat
  generation : Nat
  frames : Nat
  gpuMs : Nat
  durationMs : Nat
  category : String
  score : Option String
deriving DecidableEq, Repr

/-- What is handed to the socket. -/
inductive Sent where
  | ready (session generation : Nat)
  | refused (session generation : Nat) (reason : String)
  | closed (report : Report)
  | frame (session revision : Nat)
deriving DecidableEq, Repr

/-- The `SessionManager` of a connection, with every runner it created. -/
structure Manager where
  byId : List (String × Manifest)
  rows : Nat → SessionRunner
  created : Nat
  /-- `_runners`. -/
  runners : Nat → Option Nat
  /-- `_highest_generation`. -/
  highest : Nat → Option Nat
  /-- `_retired`. -/
  retired : List Nat
  /-- The runners whose `close_report` is awaited. -/
  reporting : List Nat
  sent : List Sent
  /-- `shutdown` was called: the control loop has ended. -/
  stopped : Bool

/-- `open_session`. -/
structure Open where
  session : Nat
  generation : RawGeneration
  modelId : String
  params : Option Params
deriving DecidableEq, Repr

/-- `update_session`. -/
structure Update where
  session : Nat
  generation : RawGeneration
  params : Params
deriving DecidableEq, Repr

/-- `close_session`. -/
structure Close where
  session : Nat
  generation : RawGeneration
deriving DecidableEq, Repr

namespace Manager

/-- The runner is a value of `_runners`. -/
def Active (s : Manager) (r : Nat) : Prop := ∃ x, s.runners x = some r

/-- `_highest_generation.get(session_id, 0)`. -/
def highestOf (s : Manager) (x : Nat) : Nat := (s.highest x).getD 0

def setRunner (s : Manager) (r : Nat) (f : SessionRunner → SessionRunner) : Manager :=
  { s with rows := Function.update s.rows r (f (s.rows r)) }

def send (s : Manager) (m : Sent) : Manager := { s with sent := s.sent ++ [m] }

/-- `_retire`, of a runner popped from `_runners`. -/
def retire (s : Manager) (r : Nat) : Manager :=
  ({ s with retired := s.retired.insert r } : Manager).setRunner r SessionRunner.close

/-- `_runners.pop(session_id, None)`. -/
def pop (s : Manager) (x : Nat) : Manager :=
  { s with runners := Function.update s.runners x none }

/-- `resend_ready`. -/
def resendReady (s : Manager) (r : Nat) : Manager :=
  if (s.rows r).readySent ∧ ¬ (s.rows r).ended then
    s.send (.ready (s.rows r).session (s.rows r).generation)
  else s

/-- The runner that `open` builds. -/
def create (s : Manager) (r : SessionRunner) : Manager :=
  { s with
    rows := Function.update s.rows s.created r
    created := s.created + 1
    runners := Function.update s.runners r.session (some s.created) }

/-- `open` of a generation above the highest: the old runner makes room. -/
def supersede (s : Manager) (x generation : Nat) : Manager :=
  let s :=
    match s.runners x with
    | some old => (s.pop x).retire old
    | none => s
  { s with highest := Function.update s.highest x (some generation) }

/-- `open`. -/
def openSession (s : Manager) (control : Open) (drawn : Int) : Manager :=
  match controlGeneration control.generation with
  | none => s
  | some generation =>
    if generation < s.highestOf control.session then s
    else if generation = s.highestOf control.session then
      match s.runners control.session with
      | some r => s.resendReady r
      | none => s
    else
      let s := s.supersede control.session generation
      match s.byId.lookup control.modelId with
      -- `self._by_id[control["model_id"]]` raises
      | none => s
      | some manifest =>
        s.create
          (SessionRunner.new control.session manifest
            (ensureSeed (manifest.withDefaults (control.params.getD [])) drawn) generation)

/-- `update`. -/
def updateSession (s : Manager) (control : Update) : Manager :=
  match s.runners control.session with
  | none => s
  | some r =>
    if (s.rows r).matchesGeneration (controlGeneration control.generation) then
      s.setRunner r (·.update control.params)
    else s

/-- `close`, up to its `close_report`. -/
def closeSession (s : Manager) (control : Close) : Manager :=
  match s.runners control.session with
  | none =>
    match controlGeneration control.generation with
    | none => s
    | some generation =>
      { s with
        highest :=
          Function.update s.highest control.session
            (some (max (s.highestOf control.session) generation)) }
  | some r =>
    if (s.rows r).matchesGeneration (controlGeneration control.generation) then
      let s := (s.pop control.session).retire r
      { s with reporting := s.reporting ++ [r] }
    else s

/-- `submit`. -/
def submit (s : Manager) (x revision : Nat) (payload : List UInt8) : Manager :=
  match s.runners x with
  | none => s
  | some r => s.setRunner r (·.submit revision payload)

/-- `shutdown`, up to its `gather`. -/
def shutdown (s : Manager) : Manager :=
  { s with
    runners := fun _ => none
    highest := fun _ => none
    rows := fun r =>
      if s.runners (s.rows r).session = some r ∨ r ∈ s.retired then (s.rows r).close
      else s.rows r
    stopped := true }

end Manager

/-! ## The machine -/

/-- How `engine.frame` ends. -/
inductive Outcome where
  | generated (gpuMs : Nat)
  | notResident
  | error
deriving DecidableEq, Repr

/-- The await of a runner's task ends. A task with a cancellation pending is left free
to go on, which only adds runs. -/
inductive TaskEvent where
  | resident (answer : Bool)
  | announced (ok : Bool)
  | refused
  /-- The event is set and the pending frame is taken. -/
  | arrived
  | framed (outcome : Outcome)
  | delivered (ok : Bool)
  /-- `CancelledError` lands. -/
  | cancelled
deriving DecidableEq, Repr

namespace SessionRunner

/-- `_refuse`, up to its send. -/
def refuse (r : SessionRunner) : SessionRunner × List Sent :=
  if r.ended then ({ r with phase := .done }, [])
  else
    ({ r with ended := true, phase := .refusing },
      [.refused r.session r.generation "not_resident"])

/-- `_run`, from one await to the next, and what it hands to the socket. -/
def resume (r : SessionRunner) : TaskEvent → Option (SessionRunner × List Sent)
  | .resident answer =>
    if r.phase ≠ .loading then none
    else if answer then
      -- `_ready` sends nothing for a runner that has ended
      if r.ended then some ({ r with phase := .waiting }, [])
      else
        some
          ({ r with readySent := true, phase := .announcing },
            [.ready r.session r.generation])
    else some r.refuse
  | .announced ok =>
    if r.phase ≠ .announcing then none
    else some ({ r with phase := if ok then .waiting else .done }, [])
  | .refused => if r.phase ≠ .refusing then none else some ({ r with phase := .done }, [])
  | .arrived =>
    match r.phase, r.pending with
    | .waiting, some (revision, _) =>
      some
        ({ r with
            pending := none, phase := .rendering revision
            rendered := r.rendered ++ [revision] }, [])
    | _, _ => none
  | .framed outcome =>
    match r.phase, outcome with
    | .rendering revision, .generated gpuMs =>
      let r := { r with residencyFailures := 0, frames := r.frames + 1, gpuMs := r.gpuMs + gpuMs }
      if r.ended then some ({ r with phase := .done }, [])
      else some ({ r with phase := .sending revision }, [.frame r.session revision])
    | .rendering _, .notResident =>
      let r := { r with residencyFailures := r.residencyFailures + 1 }
      if 2 ≤ r.residencyFailures then some r.refuse else some ({ r with phase := .waiting }, [])
    | .rendering _, .error => some ({ r with residencyFailures := 0, phase := .waiting }, [])
    | _, _ => none
  | .delivered ok =>
    match r.phase with
    | .sending _ => some ({ r with phase := if ok then .waiting else .done }, [])
    | _ => none
  | .cancelled => if r.cancelRequested then some ({ r with phase := .done }, []) else none

end SessionRunner

/-- What happens next: a control is handled, a runner's task goes on, the model store
changes the table of models. -/
inductive Action where
  | openSession (control : Open) (drawn : Int)
  | updateSession (control : Update)
  | closeSession (control : Close)
  | submit (x revision : Nat) (payload : List UInt8)
  | runs (r : Nat) (event : TaskEvent)
  /-- `close_report` returns and the report is sent. -/
  | reports (r durationMs : Nat) (category : String) (score : Option String)
  /-- `_forget_retired`, once the runner's task is done. -/
  | forgets (r : Nat)
  | modelsChanged (byId : List (String × Manifest))
  | shutdown
deriving DecidableEq

/-- One step. -/
def step (s : Manager) : Action → Option Manager
  | .openSession control drawn =>
    if s.stopped then none else some (s.openSession control drawn)
  | .updateSession control => if s.stopped then none else some (s.updateSession control)
  | .closeSession control => if s.stopped then none else some (s.closeSession control)
  | .submit x revision payload => if s.stopped then none else some (s.submit x revision payload)
  | .runs r event =>
    if r < s.created then
      ((s.rows r).resume event).map fun next =>
        { s.setRunner r fun _ => next.1 with sent := s.sent ++ next.2 }
    else none
  | .reports r durationMs category score =>
    if r ∈ s.reporting then
      some
        (({ s with reporting := s.reporting.erase r } : Manager).send
          (.closed ⟨(s.rows r).session, (s.rows r).generation, (s.rows r).frames,
            (s.rows r).gpuMs, durationMs, category, score⟩))
    else none
  | .forgets r =>
    if r ∈ s.retired ∧ (s.rows r).phase = .done then
      some { s with retired := s.retired.filter (· ≠ r) }
    else none
  | .modelsChanged byId => some { s with byId := byId }
  | .shutdown => if s.stopped then none else some s.shutdown

/-- A fresh `SessionManager`. -/
def fresh (byId : List (String × Manifest)) : Manager :=
  { byId := byId, rows := fun _ => SessionRunner.new 0 ⟨"", []⟩ [] 0, created := 0
    runners := fun _ => none, highest := fun _ => none, retired := [], reporting := []
    sent := [], stopped := false }

/-- The session manager of one connection. -/
def machine : Machine Manager Action where
  init s := ∃ byId, s = fresh byId
  step := step

end Potocolom.Worker
