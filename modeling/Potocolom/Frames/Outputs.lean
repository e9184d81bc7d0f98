import Potocolom.Frames.Latest
import Potocolom.Worker.Echo

/-! # The way back of a frame

One session with the workers it is placed on. A worker of protocol 5 or later runs the
session manager of `client.py` and answers with the revision it was given. A worker of
protocol 4 is not in the repository: it may render any canvas it was sent, and the fleet
handler stamps what comes back. The browser's writer sends what was posted last. -/

namespace Potocolom.Frames

open BigEndian

/-- `GENERATED_FRAME`. -/
def generatedFrameKind : UInt8 := 0x02

namespace Session

variable (s : Session)

/-- `to_browser_frame`. -/
def toBrowserFrame (frame : Bytes) : Bytes :=
  match s.frameHeader with
  | .one => frame.take legacyFrameHeaderBytes ++ frame.drop frameHeaderBytes
  | .two => frame

/-- What becomes of a binary message of a worker. -/
inductive Relayed where
  | posted (frame : Bytes)
  | dropped
  /-- A `ProtocolError`, which ends the worker's connection. -/
  | refused
deriving DecidableEq, Repr

/-- The fleet handler on a binary message of `worker`. -/
def relay (worker : Worker) (data : Bytes) : Relayed :=
  if data.length < legacyFrameHeaderBytes then .refused
  else if ¬ (s.isLive = true ∧ (data.drop 1).take 16 = s.id ∧ s.worker = some worker) then .dropped
  else if data.head? ≠ some generatedFrameKind then .refused
  else if worker.protocolVersion < frameHeader2Version then
    .posted (s.toBrowserFrame (stamp s.forwardedRevision data))
  else if data.length < frameHeaderBytes then .refused
  else .posted (s.toBrowserFrame data)

/-- The revision of the canvas forwarded last. -/
def newest : Option Nat := s.forwards.getLast?.map (·.revision)

end Session

/-! ## What the workers send -/

/-- The frame a runner sends. -/
def generated (id : Bytes) (revision : Nat) (image : Bytes) : Bytes :=
  generatedFrameKind :: id ++ toBytes 4 revision ++ image

/-- The frame of a worker that knows no revisions. -/
def generatedLegacy (id : Bytes) (image : Bytes) : Bytes := generatedFrameKind :: id ++ image

/-- The canvas frames of the session that a worker's manager is given are those it was
sent. The frames of other sessions are their own. -/
def Feeds (s : Session) (worker : Nat) : Worker.Action → Prop
  | .submit x revision payload =>
    x = fromBytes s.id → ∃ f ∈ s.forwards, f.worker = worker ∧ revisionOf f.sent = revision ∧
      f.sent.drop frameHeaderBytes = payload
  | _ => True

instance (s : Session) (worker : Nat) (action : Worker.Action) :
    Decidable (Feeds s worker action) := by
  cases action <;> unfold Feeds <;> infer_instance

/-! ## The machine -/

/-- A generated frame: who sent it, the revision of the canvas it was rendered from, the
revision forwarded last when it came in, and what the browser gets. -/
structure Output where
  worker : Worker
  source : Nat
  newest : Option Nat
  frame : Bytes
deriving DecidableEq, Repr

structure World where
  session : Session
  /-- The manager at the other end of each connection. -/
  managers : Nat → Worker.Manager
  /-- `out_frame`. -/
  outFrame : Option Output
  /-- What the browser was sent, oldest first. -/
  delivered : List Output

inductive Event where
  | session (action : Action)
  | works (worker : Nat) (action : Worker.Action)
  /-- A frame that a runner sent for this revision comes in. -/
  | relays (worker : Worker) (revision : Nat) (image : Bytes)
  /-- A frame that a worker of protocol 4 rendered from this canvas comes in. -/
  | relaysLegacy (worker : Worker) (canvas : Forward) (image : Bytes)
  /-- The browser's writer takes `out_frame` and sends it. -/
  | delivers
deriving DecidableEq

namespace World

/-- `post_frame`. -/
def postFrame (w : World) (output : Output) : World :=
  if w.session.outClose.isSome then w else { w with outFrame := some output }

/-- A binary message of a worker comes in. -/
def receive (w : World) (worker : Worker) (source : Nat) (data : Bytes) : World :=
  match w.session.relay worker data with
  | .posted frame => w.postFrame ⟨worker, source, w.session.newest, frame⟩
  | _ => w

end World

/-- The protocol each connection agreed on is that of the workers assigned. -/
def Registered (fleet : Nat → Nat) : Action → Prop
  | .assigns worker => worker.protocolVersion = fleet worker.id
  | _ => True

instance (fleet : Nat → Nat) (action : Action) : Decidable (Registered fleet action) := by
  cases action <;> unfold Registered <;> infer_instance

/-- One step. `post_close` drops the frame that waits. -/
def worldStep (fleet : Nat → Nat) (w : World) : Event → Option World
  | .session action =>
    if Registered fleet action then
      (step w.session action).map fun session =>
        { w with
          session := session
          outFrame := if session.outClose.isSome then none else w.outFrame }
    else none
  | .works worker action =>
    if frameHeader2Version ≤ fleet worker ∧ Feeds w.session worker action then
      (Worker.step (w.managers worker) action).map fun manager =>
        { w with managers := Function.update w.managers worker manager }
    else none
  | .relays worker revision image =>
    if worker.protocolVersion = fleet worker.id ∧ frameHeader2Version ≤ fleet worker.id ∧
        .frame (fromBytes w.session.id) revision ∈ (w.managers worker.id).sent then
      some (w.receive worker revision (generated w.session.id revision image))
    else none
  | .relaysLegacy worker canvas image =>
    if worker.protocolVersion = fleet worker.id ∧ fleet worker.id < frameHeader2Version ∧
        canvas ∈ w.session.forwards ∧ canvas.worker = worker.id then
      some (w.receive worker canvas.revision (generatedLegacy w.session.id image))
    else none
  | .delivers =>
    match w.session.outClose, w.outFrame with
    | none, some output =>
      some { w with outFrame := none, delivered := w.delivered ++ [output] }
    | _, _ => none

/-- The session from its `open`, with managers that have done nothing yet. -/
def outputs (fleet : Nat → Nat) : Machine World Event where
  init w := machine.init w.session ∧ (∀ i, Worker.machine.init (w.managers i)) ∧
    w.outFrame = none ∧ w.delivered = []
  step := worldStep fleet

/-! ## What a step of the session hands over -/

variable {s t : Session} {frame data : Bytes} {action : Action} {fleet : Nat → Nat}

/-- Nothing goes out, and the session has the worker it had, or none. -/
structure Quiet (s t : Session) : Prop where
  id : t.id = s.id
  frameHeader : t.frameHeader = s.frameHeader
  forwards : t.forwards = s.forwards
  forwardedRevision : t.forwardedRevision = s.forwardedRevision
  worker : ∀ w ∈ t.worker, w ∈ s.worker

/-- The session forwards at most one canvas, to its worker, and remembers its revision. -/
structure Hands (s t : Session) : Prop where
  id : t.id = s.id
  frameHeader : t.frameHeader = s.frameHeader
  worker : ∀ w ∈ t.worker, w ∈ s.worker
  forwards : t.forwards = s.forwards ∧ t.forwardedRevision = s.forwardedRevision ∨
    ∃ w ∈ s.worker, ∃ frame, t.forwards =
        s.forwards ++ [⟨w.id, revisionOf frame, Session.toWorkerFrame w frame⟩] ∧
      t.forwardedRevision = revisionOf frame

theorem Quiet.refl (s : Session) : Quiet s s := ⟨rfl, rfl, rfl, rfl, fun _ h => h⟩

theorem Quiet.hands (h : Quiet s t) : Hands s t :=
  ⟨h.id, h.frameHeader, h.worker, .inl ⟨h.forwards, h.forwardedRevision⟩⟩

/-- What happened before nothing was forwarded does not matter. -/
theorem Hands.of_quiet {r : Session} (h : Hands r t) (hquiet : Quiet s r) : Hands s t := by
  constructor
  · rw [h.id, hquiet.id]
  · rw [h.frameHeader, hquiet.frameHeader]
  · exact fun w hw => hquiet.worker w (h.worker w hw)
  · rcases h.forwards with ⟨hforwards, hrevision⟩ | ⟨w, hw, frame, hforwards, hrevision⟩
    · left
      rw [hforwards, hrevision, hquiet.forwards, hquiet.forwardedRevision]
      exact ⟨rfl, rfl⟩
    · rw [hquiet.forwards] at hforwards
      exact .inr ⟨w, hquiet.worker w hw, frame, hforwards, hrevision⟩

theorem transition_quiet {expected : List Realtime.SessionState} {new : Realtime.SessionState}
    (h : s.transition expected new = some t) : Quiet s t := by
  rw [transition_eq_some h]
  exact ⟨rfl, rfl, rfl, rfl, fun _ => id⟩

theorem transition_getD_quiet {expected : List Realtime.SessionState}
    {new : Realtime.SessionState} : Quiet s ((s.transition expected new).getD s) := by
  cases h : s.transition expected new with
  | none => exact Quiet.refl s
  | some t => exact transition_quiet h

theorem postClose_quiet (code : Nat) : Quiet s (s.postClose code) := by
  unfold Session.postClose
  split
  · exact Quiet.refl s
  · exact ⟨rfl, rfl, rfl, rfl, fun _ => id⟩

theorem post_quiet (control : Control) : Quiet s (s.post control) := by
  unfold Session.post
  split
  · exact Quiet.refl s
  · exact ⟨rfl, rfl, rfl, rfl, fun _ => id⟩

theorem postFrameTooLarge_quiet : Quiet s s.postFrameTooLarge := by
  unfold Session.postFrameTooLarge
  split
  · exact Quiet.refl s
  · have h := post_quiet (s := { s with frameErrorAfter := s.now + frameTooLargeInterval })
      .frameTooLarge
    exact ⟨h.id, h.frameHeader, h.forwards, h.forwardedRevision, h.worker⟩

theorem tearDown_quiet : Quiet s s.tearDown := by
  refine ⟨rfl, rfl, rfl, rfl, fun w hw => ?_⟩
  cases hw

theorem protocolError_quiet : Quiet s s.protocolError := by
  have h := postClose_quiet (s := s) closeProtocolViolation
  refine ⟨h.id, h.frameHeader, h.forwards, h.forwardedRevision, fun w hw => ?_⟩
  cases hw

theorem scheduleResumeIdle_quiet : Quiet s s.scheduleResumeIdle := by
  unfold Session.scheduleResumeIdle
  split
  · next t h =>
    have hquiet := transition_quiet h
    exact ⟨hquiet.id, hquiet.frameHeader, hquiet.forwards, hquiet.forwardedRevision,
      hquiet.worker⟩
  · exact Quiet.refl s

theorem accept_hands : Hands s (s.accept frame) := by
  unfold Session.accept
  split
  · have hkeep : Quiet s (s.touch.keep frame) := ⟨rfl, rfl, rfl, rfl, fun _ => id⟩
    exact scheduleResumeIdle_quiet.hands.of_quiet hkeep
  · exact ⟨rfl, rfl, fun _ => id, .inl ⟨rfl, rfl⟩⟩
  · exact ⟨rfl, rfl, fun _ => id, .inl ⟨rfl, rfl⟩⟩
  · split
    · next w hw => exact ⟨rfl, rfl, fun _ => id, .inr ⟨w, hw, frame, rfl, rfl⟩⟩
    · exact ⟨rfl, rfl, fun _ => id, .inl ⟨rfl, rfl⟩⟩

theorem binary_hands : Hands s (s.binary data) := by
  unfold Session.binary
  split
  · exact protocolError_quiet.hands
  split
  · exact protocolError_quiet.hands
  split
  · exact postFrameTooLarge_quiet.hands
  split
  · exact (Quiet.refl s).hands
  · have hadvance : ∀ revision, Quiet s (s.advance revision) :=
      fun _ => ⟨rfl, rfl, rfl, rfl, fun _ => id⟩
    unfold Session.consume
    split
    · exact accept_hands.of_quiet (hadvance _)
    · dsimp only
      split
      · exact accept_hands.of_quiet (hadvance _)
      · have htake : Quiet s ((s.advance (s.inputRevision + 1)).take (s.inputRevision + 1)
            .raised) := ⟨rfl, rfl, rfl, rfl, fun _ => id⟩
        exact tearDown_quiet.hands.of_quiet htake

theorem settle_hands (placed : Bool) : Hands s (s.settle placed) := by
  unfold Session.settle
  split
  · split
    · unfold Session.forwardPending
      dsimp only
      split
      · next frame w hframe hw =>
        exact ⟨rfl, rfl, fun _ => id, .inr ⟨w, hw, frame, rfl, rfl⟩⟩
      · exact ⟨rfl, rfl, fun _ => id, .inl ⟨rfl, rfl⟩⟩
    · refine ⟨rfl, rfl, fun w hw => ?_, .inl ⟨rfl, rfl⟩⟩
      cases hw
  · exact transition_getD_quiet.hands

/-- Every step but an assignment forwards at most one canvas to the worker it finds. -/
theorem step_hands (h : step s action = some t) :
    (∃ w, action = .assigns w ∧ t = { s with worker := some w }) ∨ Hands s t := by
  cases action with
  | assigns w =>
    simp only [step] at h
    split at h
    · cases h
      exact .inl ⟨w, rfl, rfl⟩
    · cases h
  | tick | writes =>
    cases h
    exact .inr ⟨rfl, rfl, fun _ => id, .inl ⟨rfl, rfl⟩⟩
  | detaches =>
    cases h
    refine .inr ⟨rfl, rfl, fun w hw => ?_, .inl ⟨rfl, rfl⟩⟩
    cases hw
  | revoked =>
    cases h
    have hclose := postClose_quiet (s := s) closeUnauthorized
    refine .inr ⟨hclose.id, hclose.frameHeader, fun w hw => ?_,
      .inl ⟨hclose.forwards, hclose.forwardedRevision⟩⟩
    cases hw
  | ready | requeues | reassigns => exact .inr (transition_quiet h).hands
  | serves placed =>
    simp only [step] at h
    split at h
    · cases h
      have hplaced : Quiet s
          (if placed then s.post .other else (s.transition [.assigning] .queued).getD s) := by
        split
        · exact post_quiet .other
        · exact transition_getD_quiet
      exact .inr ⟨hplaced.id, hplaced.frameHeader, hplaced.worker,
        .inl ⟨hplaced.forwards, hplaced.forwardedRevision⟩⟩
    · cases h
  | binary data =>
    simp only [step] at h
    split at h
    · cases h
      exact .inr binary_hands
    · cases h
  | edits | resumeEnds | admissionEnds =>
    simp only [step] at h
    split at h
    · cases h
      exact .inr ⟨rfl, rfl, fun _ => id, .inl ⟨rfl, rfl⟩⟩
    · cases h
  | leaves =>
    simp only [step] at h
    split at h
    · cases h
      exact .inr tearDown_quiet.hands
    · cases h
  | admits =>
    obtain ⟨r, hr, rfl⟩ := Option.map_eq_some_iff.1 h
    have hquiet := transition_quiet hr
    exact .inr ⟨hquiet.id, hquiet.frameHeader, hquiet.worker,
      .inl ⟨hquiet.forwards, hquiet.forwardedRevision⟩⟩
  | resumed placed =>
    simp only [step] at h
    split at h
    · cases h
      have hsettle := settle_hands (s := { s with resuming := s.resuming - 1 }) placed
      exact .inr (hsettle.of_quiet ⟨rfl, rfl, rfl, rfl, fun _ => id⟩)
    · cases h
  | admitted placed =>
    simp only [step] at h
    split at h
    · cases h
      have hsettle := settle_hands (s := { s with admitting := s.admitting - 1 }) placed
      exact .inr (hsettle.of_quiet ⟨rfl, rfl, rfl, rfl, fun _ => id⟩)
    · cases h
  | releasesIdle =>
    simp only [step] at h
    split at h
    · obtain ⟨r, hr, rfl⟩ := Option.map_eq_some_iff.1 h
      have hquiet := transition_quiet hr
      refine .inr ⟨hquiet.id, hquiet.frameHeader, fun w hw => ?_,
        .inl ⟨hquiet.forwards, hquiet.forwardedRevision⟩⟩
      cases hw
    · cases h

end Potocolom.Frames
