import Potocolom.Lib.Machine
import Potocolom.Lib.Ordered

/-! # The frame batch collector

`frame_batch.py` of the worker: sessions submit frames, the frames of one compatibility
class wait in one bucket, and one task hands the buckets to the executor in turn. The
code between two awaits is one step. A submission is known by its number, and so is the
input it brings; a request is known by the number of its creation. -/

namespace Potocolom.FrameBatch

structure CompatKey where
  modelId : String
  steps : Int
  resolution : Int
deriving DecidableEq, Repr

/-- `asyncio.Future`; a result is known by the input it was rendered from. -/
inductive Future where
  | pending
  | result (input : Nat)
  | exception
  | cancelled
deriving DecidableEq, Repr

structure FrameRequest where
  sessionKey : Nat
  compat : CompatKey
  /-- The submission its manifest, parameters, strength and payload are from. -/
  input : Nat
  future : Future
  cancelled : Bool
deriving DecidableEq, Repr

inductive Outcome where
  | returned (input : Nat)
  | raised
  /-- `CancelledError`. -/
  | cancelledError
deriving DecidableEq, Repr

/-- A call of `submit`. -/
inductive Submit where
  /-- It awaits the future of a request; `cancelled` once its own task is. -/
  | awaiting (request : Nat) (cancelled : Bool)
  | ended (outcome : Outcome) (cancelled : Bool)
deriving DecidableEq, Repr

/-- Where `_loop` is suspended. -/
inductive Loop where
  /-- No task has been started. -/
  | stopped
  | waiting
  | sleeping
  | executing (batch : List Nat)
deriving DecidableEq, Repr

/-- The requests of one class, by session. -/
abbrev Bucket := Ordered Nat Nat

structure Collector where
  pending : Ordered CompatKey Bucket
  sessionCompat : Nat → Option CompatKey
  compatRing : List CompatKey
  nextClassIndex : Nat
  work : Bool
  loop : Loop
  /-- Request objects and how many there are. -/
  requests : Nat → FrameRequest
  created : Nat
  submits : List Submit
  /-- The batches handed to the executor, with their classes, in order. -/
  handed : List (CompatKey × List Nat)

namespace Collector

variable (s : Collector)

/-- `_pending_for`. -/
def pendingFor (sessionKey : Nat) : Option Nat :=
  match s.sessionCompat sessionKey with
  | none => none
  | some compat =>
    match s.pending.get compat with
    | none => none
    | some bucket => bucket.get sessionKey

/-- Take a session out of its bucket; a class that empties leaves the ring. -/
def leaveBucket (sessionKey : Nat) (compat : CompatKey) : Collector :=
  match s.pending.get compat with
  | none => s
  | some bucket =>
    let bucket := bucket.erase sessionKey
    if bucket.items = [] then
      { s with
        pending := s.pending.erase compat
        compatRing := s.compatRing.filter fun key => key ≠ compat }
    else { s with pending := s.pending.put compat bucket }

/-- Put a request into the bucket of a class, which joins the ring if it is new. -/
def joinBucket (request sessionKey : Nat) (compat : CompatKey) : Collector :=
  { s with
    sessionCompat := Function.update s.sessionCompat sessionKey (some compat)
    pending := s.pending.put compat (((s.pending.get compat).getD ∅).put sessionKey request)
    compatRing := if compat ∈ s.compatRing then s.compatRing else s.compatRing ++ [compat]
    work := true }

def setRequest (r : Nat) (f : FrameRequest → FrameRequest) : Collector :=
  { s with requests := Function.update s.requests r (f (s.requests r)) }

/-- `_rebucket`. -/
def rebucket (r : Nat) (compat : CompatKey) : Collector :=
  let request := s.requests r
  ((s.leaveBucket request.sessionKey request.compat).setRequest r
    fun request => { request with compat := compat }).joinBucket r request.sessionKey compat

/-- Take out what a session still has in the bucket of its last class. -/
def leaveSession (sessionKey : Nat) : Collector :=
  match s.sessionCompat sessionKey with
  | none => s
  | some oldCompat => s.leaveBucket sessionKey oldCompat

/-- A new request object. -/
def create (request : FrameRequest) : Collector :=
  { s with
    created := s.created + 1
    requests := Function.update s.requests s.created request }

/-- `_enqueue` of a new request. -/
def enqueue (sessionKey input : Nat) (compat : CompatKey) : Collector :=
  ((s.leaveSession sessionKey).create
    ⟨sessionKey, compat, input, .pending, false⟩).joinBucket s.created sessionKey compat

/-- `start`. -/
def start : Collector :=
  match s.loop with
  | .stopped => { s with loop := .waiting }
  | .waiting => s
  | .sleeping => s
  | .executing _ => s

/-- The request that a submission of a session awaits, and the collector with it. -/
def accept (sessionKey : Nat) (compat : CompatKey) : Collector × Nat :=
  let input := s.submits.length
  match s.pendingFor sessionKey with
  | none => (s.enqueue sessionKey input compat, s.created)
  | some existing =>
    if (s.requests existing).future = .pending then
      let updated := s.setRequest existing fun request => { request with input := input }
      if (s.requests existing).compat ≠ compat then (updated.rebucket existing compat, existing)
      else (updated, existing)
    else (s.enqueue sessionKey input compat, s.created)

/-- `submit` until it awaits. -/
def submit (sessionKey : Nat) (compat : CompatKey) : Collector :=
  let (accepted, request) := s.start.accept sessionKey compat
  { accepted with submits := accepted.submits ++ [.awaiting request false] }

/-- The class at an offset of the ring, if its bucket has requests. -/
def classAt (offset : Nat) : Option (Nat × CompatKey × Bucket) :=
  let index := (s.nextClassIndex + offset) % s.compatRing.length
  match s.compatRing[index]? with
  | none => none
  | some compat =>
    match s.pending.get compat with
    | none => none
    | some bucket => if bucket.items = [] then none else some (index, compat, bucket)

/-- `_pick_batch`. -/
def pickBatch : Option (Collector × CompatKey × List Nat) :=
  ((List.range s.compatRing.length).findSome? s.classAt).map fun (index, compat, bucket) =>
    let ring := s.compatRing.filter fun key => key ≠ compat
    ({ s with
        pending := s.pending.erase compat
        compatRing := ring
        nextClassIndex := if ring = [] then 0 else index % ring.length },
      compat, bucket.items.map Prod.snd)

/-- `while self._pending`, to the next await. -/
def serve : Collector :=
  if s.pending.items = [] then { s with loop := .waiting }
  else
    match s.pickBatch with
    | none => { s with loop := .waiting }
    | some (picked, compat, batch) =>
      { picked with loop := .executing batch, handed := s.handed ++ [(compat, batch)] }

/-- Forget the class of a session that has nothing pending. -/
def forget (r : Nat) : Collector :=
  let sessionKey := (s.requests r).sessionKey
  match s.pendingFor sessionKey with
  | none => { s with sessionCompat := Function.update s.sessionCompat sessionKey none }
  | some _ => s

/-- The executor raised: every request still waiting for an answer gets the error. -/
def failRequest (r : Nat) : Collector :=
  let request := s.requests r
  if request.cancelled = false ∧ request.future = .pending then
    s.setRequest r fun request => { request with future := .exception }
  else s

end Collector

inductive Label where
  | submit (sessionKey : Nat) (compat : CompatKey)
  /-- The task of a submission is cancelled. -/
  | cancel (t : Nat)
  /-- A submission whose future is done, or whose task was cancelled, goes on. -/
  | resume (t : Nat)
  /-- `_work.wait()` returns. -/
  | wake
  /-- The collection window is over. -/
  | collect
  /-- The executor answers one request of its batch. -/
  | resolve (r : Nat)
  | refuse (r : Nat)
  /-- It returns. -/
  | finish
  /-- It raises. -/
  | fail
deriving DecidableEq, Repr

/-- What `await future` comes to, once it does. -/
def Future.outcome : Future → Option Outcome
  | .pending => none
  | .result input => some (.returned input)
  | .exception => some .raised
  | .cancelled => some .cancelledError

/-- A task that was cancelled raises whatever its future came to. -/
def Outcome.under (cancelled : Bool) (outcome : Outcome) : Outcome :=
  if cancelled then .cancelledError else outcome

def step (s : Collector) : Label → Option Collector
  | .submit sessionKey compat => some (s.submit sessionKey compat)
  | .cancel t =>
    match s.submits[t]? with
    | some (.awaiting r _) =>
      let marked := { s with submits := s.submits.set t (.awaiting r true) }
      -- a task awaits the shared future itself, so cancelling the one cancels the other
      if (s.requests r).future = .pending then
        some (marked.setRequest r fun request => { request with future := .cancelled })
      else some marked
    | some (.ended _ _) => none
    | none => none
  | .resume t =>
    match s.submits[t]? with
    | some (.awaiting r cancelled) =>
      match (s.requests r).future.outcome with
      | none => none
      | some outcome =>
        let ended := { s with
          submits := s.submits.set t (.ended (outcome.under cancelled) cancelled) }
        if outcome.under cancelled = .cancelledError then
          some (ended.setRequest r fun request => { request with cancelled := true })
        else some ended
    | some (.ended _ _) => none
    | none => none
  | .wake =>
    if s.loop = .waiting ∧ s.work = true then
      if s.pending.items = [] then some { s with work := false }
      else some { s with work := false, loop := .sleeping }
    else none
  | .collect =>
    if s.loop = .sleeping then some { s with work := false }.serve else none
  | .resolve r =>
    match s.loop with
    | .executing batch =>
      if r ∈ batch ∧ (s.requests r).cancelled = false ∧ (s.requests r).future = .pending then
        some (s.setRequest r fun request => { request with future := .result request.input })
      else none
    | .stopped => none
    | .waiting => none
    | .sleeping => none
  | .refuse r =>
    match s.loop with
    | .executing batch => if r ∈ batch then some (s.failRequest r) else none
    | .stopped => none
    | .waiting => none
    | .sleeping => none
  | .finish =>
    match s.loop with
    | .executing batch => some (batch.foldl Collector.forget s).serve
    | .stopped => none
    | .waiting => none
    | .sleeping => none
  | .fail =>
    match s.loop with
    | .executing batch =>
      some (batch.foldl Collector.forget (batch.foldl Collector.failRequest s)).serve
    | .stopped => none
    | .waiting => none
    | .sleeping => none

/-- A collector as it is made. -/
def fresh : Collector where
  pending := ∅
  sessionCompat _ := none
  compatRing := []
  nextClassIndex := 0
  work := false
  loop := .stopped
  requests _ := ⟨0, ⟨"", 0, 0⟩, 0, .cancelled, false⟩
  created := 0
  submits := []
  handed := []

def machine : Machine Collector Label := ⟨fun s => s = fresh, step⟩

end Potocolom.FrameBatch
