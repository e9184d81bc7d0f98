import Potocolom.Delivery.Composite
import Potocolom.Lib.Machine

/-! # The delivery of a batch of frames

`execute_frame_batch` of the worker's engine, the tasks it makes to encode the frames of a
batch, and the loop of the collector that awaits it. The code between two awaits is one step,
and so is what a thread computes. Requests are known by the number of their creation, holders
(`PromptCache`) by a number of their own. -/

namespace Potocolom.Delivery

/-- An exception object. -/
inductive Raised where
  | notResidentError
  | other (object : Nat)
deriving DecidableEq, Repr

variable (p : Pictures)

structure GeneratedFrame where
  data : p.Data
  gpuMs : Nat
  stages : Option p.Stages

/-- `asyncio.Future`. -/
inductive Future where
  | pending
  | result (frame : GeneratedFrame p)
  | exception (error : Raised)
  | cancelled

structure FrameRequest where
  /-- Whether its manifest names a sketch adapter. -/
  t2iAdapter : Bool
  params : Params p
  promptCache : Option Nat
  payload : p.Image
  future : Future p
  cancelled : Bool
  stages : Option p.Stages
  latent : Option p.Latent
  /-- What the composite of its frame raises, and what the encoder does. -/
  compositing : Option Raised
  encoding : Option Raised

/-- The task that encodes the frame of a request. -/
inductive Task where
  /-- There is none, or it has ended. -/
  | ended
  | created (image : p.Image) (gpuMs : Nat)
  /-- It composites over the last frame of a holder. -/
  | composing (memory : Nat) (image : p.Image) (gpuMs : Nat)
  | encoding (memory : Option Nat) (image sketch : p.Image) (gpuMs : Nat)

/-- Where the loop of the collector is suspended. -/
inductive Executor where
  /-- No batch is under way. -/
  | idle
  /-- It waits for the GPU. -/
  | entering (batch : List Nat)
  | rendering (batch : List Nat) (retried : Bool)
  /-- It awaits the tasks; the first exception of a task is raised to it. -/
  | gathering (batch : List Nat) (failure : Option Raised)
  /-- It was cancelled. -/
  | closing (batch : List Nat)
deriving DecidableEq, Repr

structure Worker where
  requests : Nat → FrameRequest p
  created : Nat
  /-- `last_frame` of each holder. -/
  memory : Nat → Option (LastFrame p)
  /-- What the last batch of a request rendered for it. -/
  frameResult : Nat → Option (p.Image × Nat)
  tasks : Nat → Task p
  executor : Executor

/-- What a render of the pipeline gives for one request. -/
structure Rendered where
  image : p.Image
  gpuMs : Nat
  latent : Option p.Latent
  stages : Option p.Stages

inductive Outcome where
  /-- One image for each request of the batch. -/
  | images (rendered : Nat → Rendered p)
  | outOfMemory
  /-- Also what the eviction before a second attempt raises. -/
  | raised (error : Raised)

inductive Label where
  /-- `_pick_batch` gives these requests to the executor. -/
  | hand (batch : List (FrameRequest p))
  /-- The GPU is free; `_require_realtime_resident` refuses or not. -/
  | enters (refused : Option Raised)
  | renders (outcome : Outcome p)
  /-- The task of a request gets its first turn. -/
  | starts (r : Nat)
  | composes (r : Nat)
  | encodes (r : Nat)
  /-- The last task of the batch has ended. -/
  | returns
  /-- The loop handles what a task raised. -/
  | handles
  /-- The loop's task is cancelled, and later resumes. -/
  | closes
  | closed
  /-- Whoever awaits a request is cancelled, and later resumes. -/
  | cancel (r : Nat)
  | marks (r : Nat)

variable {p}

def Future.done : Future p → Bool
  | .pending => false
  | .result _ => true
  | .exception _ => true
  | .cancelled => true

namespace FrameRequest

variable (request : FrameRequest p)

/-- `not request.cancelled and not request.future.done()`. -/
def live : Bool := !request.cancelled && !request.future.done

/-- The holder of a request of an adapter model. -/
def holder : Option Nat := if request.t2iAdapter then request.promptCache else none

/-- `_session_memory`. -/
def sessionMemory : Option Nat := if request.live then request.holder else none

/-- As the collector hands it over: awaited, or cancelled while it waited in its bucket. -/
def fresh : Bool :=
  match request.future with
  | .pending => !request.cancelled
  | .cancelled => true
  | .result _ => false
  | .exception _ => false

def fail (error : Raised) : FrameRequest p :=
  if request.live then { request with future := .exception error } else request

end FrameRequest

/-- The buckets are keyed by session, so no two requests of a batch share a holder. -/
def Apart (a b : FrameRequest p) : Prop := a.promptCache = none ∨ a.promptCache ≠ b.promptCache

instance (a b : FrameRequest p) : Decidable (Apart a b) := inferInstanceAs (Decidable (_ ∨ _))

/-- The requests of the batch under way. -/
def Executor.batch : Executor → List Nat
  | .idle => []
  | .entering batch => batch
  | .rendering batch _ => batch
  | .gathering batch _ => batch
  | .closing batch => batch

def Task.isEnded : Task p → Bool
  | .ended => true
  | .created _ _ => false
  | .composing _ _ _ => false
  | .encoding _ _ _ _ => false

namespace Worker

variable (s : Worker p)

def handed (batch : List (FrameRequest p)) : Worker p :=
  { s with
    requests := fun r =>
      if s.created ≤ r then batch[r - s.created]?.getD (s.requests r) else s.requests r
    created := s.created + batch.length
    executor := .entering (List.range' s.created batch.length) }

/-- Every request of the batch that is still awaited gets the error. -/
def failAll (batch : List Nat) (error : Raised) : Worker p :=
  { s with
    requests := fun r => if r ∈ batch then (s.requests r).fail error else s.requests r
    executor := .idle }

/-- The images are there, and the requests still awaited get their tasks. -/
def rendered (batch : List Nat) (result : Nat → Rendered p) : Worker p :=
  { s with
    requests := fun r =>
      if r ∈ batch then
        { s.requests r with latent := (result r).latent, stages := (result r).stages }
      else s.requests r
    frameResult := fun r =>
      if r ∈ batch then some ((result r).image, (result r).gpuMs) else s.frameResult r
    tasks := fun r =>
      if r ∈ batch ∧ (s.requests r).live then .created (result r).image (result r).gpuMs
      else s.tasks r
    executor := .gathering batch none }

def setTask (r : Nat) (task : Task p) : Worker p :=
  { s with tasks := Function.update s.tasks r task }

/-- `_encode_frame_result` until its first await. -/
def start (r : Nat) (image : p.Image) (gpuMs : Nat) : Worker p :=
  match (s.requests r).sessionMemory with
  | none => s.setTask r (.encoding none image (s.requests r).payload gpuMs)
  | some memory => s.setTask r (.composing memory image gpuMs)

/-- A task ends with an exception, which `gather` passes on if it is the first. -/
def raise (r : Nat) (error : Raised) : Worker p :=
  match s.executor with
  | .gathering batch none =>
    if r ∈ batch then { s.setTask r .ended with executor := .gathering batch (some error) }
    else s.setTask r .ended
  | .gathering _ (some _) => s.setTask r .ended
  | .idle => s.setTask r .ended
  | .entering _ => s.setTask r .ended
  | .rendering _ _ => s.setTask r .ended
  | .closing _ => s.setTask r .ended

def compose (r memory : Nat) (image : p.Image) (gpuMs : Nat) : Worker p :=
  let request := s.requests r
  match request.compositing with
  | some error => s.raise r error
  | none =>
    let (image, sketch) :=
      frameForDelivery (s.memory memory) request.params request.payload image
    s.setTask r (.encoding (some memory) image sketch gpuMs)

/-- `memory.last_frame = LastFrame(…)`, where there is a holder. -/
def remember (memory : Option Nat) (lastFrame : LastFrame p) : Nat → Option (LastFrame p) :=
  match memory with
  | none => s.memory
  | some memory => Function.update s.memory memory (some lastFrame)

/-- The frame is encoded: the end of `_encode_frame_result`. -/
def deliver (r : Nat) (memory : Option Nat) (image sketch : p.Image) (gpuMs : Nat) : Worker p :=
  let request := s.requests r
  if request.live then
    { s.setTask r .ended with
      memory := s.remember memory ⟨sketch, image, request.params, request.latent⟩
      requests := Function.update s.requests r
        { request with future := .result ⟨p.encodeWebp image, gpuMs, request.stages⟩ } }
  else s.setTask r .ended

def encode (r : Nat) (memory : Option Nat) (image sketch : p.Image) (gpuMs : Nat) : Worker p :=
  match (s.requests r).encoding with
  | some error => s.raise r error
  | none => s.deliver r memory image sketch gpuMs

/-- The tasks of the batch are cancelled, and end at their awaits. -/
def stopTasks (batch : List Nat) : Worker p :=
  { s with
    tasks := fun r => if r ∈ batch then .ended else s.tasks r
    executor := .closing batch }

/-- The futures that are left are cancelled. -/
def cancelAll (batch : List Nat) : Worker p :=
  { s with
    requests := fun r =>
      if r ∈ batch ∧ (s.requests r).future.done = false then
        { s.requests r with future := .cancelled }
      else s.requests r
    executor := .idle }

end Worker

def step (s : Worker p) : Label p → Option (Worker p)
  | .hand batch =>
    match s.executor with
    | .idle =>
      if batch ≠ [] ∧ (∀ request ∈ batch, request.fresh) ∧ batch.Pairwise Apart then
        some (s.handed batch)
      else none
    | .entering _ => none
    | .rendering _ _ => none
    | .gathering _ _ => none
    | .closing _ => none
  | .enters refused =>
    match s.executor with
    | .entering batch =>
      match refused with
      | none => some { s with executor := .rendering batch false }
      | some error => some (s.failAll batch error)
    | .idle => none
    | .rendering _ _ => none
    | .gathering _ _ => none
    | .closing _ => none
  | .renders outcome =>
    match s.executor with
    | .rendering batch retried =>
      match outcome with
      | .images result => some (s.rendered batch result)
      | .outOfMemory =>
        if retried then some (s.failAll batch .notResidentError)
        else some { s with executor := .rendering batch true }
      | .raised error => some (s.failAll batch error)
    | .idle => none
    | .entering _ => none
    | .gathering _ _ => none
    | .closing _ => none
  | .starts r =>
    match s.tasks r with
    | .created image gpuMs => some (s.start r image gpuMs)
    | .ended => none
    | .composing _ _ _ => none
    | .encoding _ _ _ _ => none
  | .composes r =>
    match s.tasks r with
    | .composing memory image gpuMs => some (s.compose r memory image gpuMs)
    | .ended => none
    | .created _ _ => none
    | .encoding _ _ _ _ => none
  | .encodes r =>
    match s.tasks r with
    | .encoding memory image sketch gpuMs => some (s.encode r memory image sketch gpuMs)
    | .ended => none
    | .created _ _ => none
    | .composing _ _ _ => none
  | .returns =>
    match s.executor with
    | .gathering batch none =>
      if ∀ r ∈ batch, (s.tasks r).isEnded then some { s with executor := .idle } else none
    | .gathering _ (some _) => none
    | .idle => none
    | .entering _ => none
    | .rendering _ _ => none
    | .closing _ => none
  | .handles =>
    match s.executor with
    | .gathering batch (some error) => some (s.failAll batch error)
    | .gathering _ none => none
    | .idle => none
    | .entering _ => none
    | .rendering _ _ => none
    | .closing _ => none
  | .closes =>
    match s.executor with
    | .idle => none
    | .entering batch => some { s with executor := .closing batch }
    | .rendering batch _ => some { s with executor := .closing batch }
    | .gathering batch none => some (s.stopTasks batch)
    -- `gather` is done, so its tasks are not cancelled with it
    | .gathering batch (some _) => some { s with executor := .closing batch }
    | .closing _ => none
  | .closed =>
    match s.executor with
    | .closing batch => some (s.cancelAll batch)
    | .idle => none
    | .entering _ => none
    | .rendering _ _ => none
    | .gathering _ _ => none
  | .cancel r =>
    if r < s.created ∧ (s.requests r).future.done = false then
      some { s with
        requests := Function.update s.requests r { s.requests r with future := .cancelled } }
    else none
  | .marks r =>
    if r < s.created ∧ (s.requests r).future.done then
      some { s with
        requests := Function.update s.requests r { s.requests r with cancelled := true } }
    else none

/-- No batch has been handed over, and no session has delivered a frame. -/
structure Start (s : Worker p) : Prop where
  created : s.created = 0
  memory : ∀ h, s.memory h = none
  tasks : ∀ r, s.tasks r = .ended
  frameResult : ∀ r, s.frameResult r = none
  executor : s.executor = .idle

variable (p) in
def machine : Machine (Worker p) (Label p) := ⟨Start, step⟩

end Potocolom.Delivery
