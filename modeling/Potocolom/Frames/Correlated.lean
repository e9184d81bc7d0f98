import Potocolom.Frames.Outputs

/-! # Which output belongs to which canvas

The revision in the header of a generated frame is that of the canvas it was rendered
from: always with a worker that echoes it, and with a worker of protocol 4 exactly when
no newer canvas was forwarded before its answer came in. -/

namespace Potocolom.Frames

open BigEndian

variable {fleet : Nat → Nat} {s t : Session} {w u : World}

/-! ## Headers -/

theorem revisionOf_lt (frame : Bytes) : revisionOf frame < 2 ^ 32 := by
  have hlt := fromBytes_lt ((frame.drop legacyFrameHeaderBytes).take 4)
  have hlength : ((frame.drop legacyFrameHeaderBytes).take 4).length ≤ 4 := List.length_take_le _ _
  have hpow : 256 ^ ((frame.drop legacyFrameHeaderBytes).take 4).length ≤ 256 ^ 4 :=
    Nat.pow_le_pow_right (by omega) hlength
  unfold revisionOf
  omega

/-- A runner's frame has the revision the runner wrote. -/
theorem revisionOf_generated {id image : Bytes} {revision : Nat} (hid : id.length = 16)
    (hrevision : revision < 2 ^ 32) : revisionOf (generated id revision image) = revision := by
  have hhead : (generatedFrameKind :: id).length = legacyFrameHeaderBytes := by
    rw [List.length_cons, hid]
    rfl
  unfold revisionOf generated
  rw [List.append_assoc, List.drop_left' hhead, List.take_left' (length_toBytes 4 revision)]
  exact fromBytes_toBytes (by omega)

/-- A worker that knows the revision is sent the frame as it is. -/
theorem toWorkerFrame_same {worker : Worker} {frame : Bytes}
    (h : frameHeader2Version ≤ worker.protocolVersion) :
    Session.toWorkerFrame worker frame = frame := by
  unfold Session.toWorkerFrame
  rw [if_neg (Nat.not_lt.2 h)]

/-! ## The invariant -/

/-- A canvas of the session with this revision was sent to this worker. -/
def SentTo (s : Session) (worker : Nat) (x revision : Nat) : Prop :=
  x = fromBytes s.id → ∃ f ∈ s.forwards, f.worker = worker ∧ f.revision = revision

/-- The canvas is one the worker was sent, and the header is right exactly when the
worker echoes revisions or the canvas was the newest. -/
structure Correlated (s : Session) (output : Output) : Prop where
  source : ∃ f ∈ s.forwards, f.worker = output.worker.id ∧ f.revision = output.source
  header : s.frameHeader = .two → (revisionOf output.frame = output.source ↔
    frameHeader2Version ≤ output.worker.protocolVersion ∨ output.newest = some output.source)

/-- What holds of the session, its workers and its frames. -/
structure WorldInv (fleet : Nat → Nat) (w : World) : Prop where
  id : w.session.id.length = 16
  assigned : ∀ worker ∈ w.session.worker, worker.protocolVersion = fleet worker.id
  newest : ∀ revision ∈ w.session.newest, revision = w.session.forwardedRevision
  bounded : w.session.forwardedRevision < 2 ^ 32
  /-- A worker that reads a header is sent the revision. -/
  forwards : ∀ f ∈ w.session.forwards, f.revision < 2 ^ 32 ∧
    (frameHeader2Version ≤ fleet f.worker → revisionOf f.sent = f.revision)
  fenced : ∀ i, (w.managers i).FenceInv
  sourced : ∀ i, (w.managers i).Sourced (SentTo w.session i)
  waiting : ∀ output ∈ w.outFrame, Correlated w.session output
  delivered : ∀ output ∈ w.delivered, Correlated w.session output

theorem Correlated.grow {output : Output} (h : Correlated s output)
    (hheader : t.frameHeader = s.frameHeader) (hforwards : s.forwards ⊆ t.forwards) :
    Correlated t output := by
  constructor
  · obtain ⟨f, hf, hworker, hrevision⟩ := h.source
    exact ⟨f, hforwards hf, hworker, hrevision⟩
  · rw [hheader]
    exact h.header

theorem SentTo.grow {worker x revision : Nat} (h : SentTo s worker x revision)
    (hid : t.id = s.id) (hforwards : s.forwards ⊆ t.forwards) : SentTo t worker x revision := by
  intro hx
  rw [hid] at hx
  obtain ⟨f, hf, hworker, hrevision⟩ := h hx
  exact ⟨f, hforwards hf, hworker, hrevision⟩

/-- A session that forwards nothing, or one canvas to its worker, keeps the invariant. -/
theorem WorldInv.session (h : WorldInv fleet w)
    (hassigned : ∀ worker ∈ t.worker, worker.protocolVersion = fleet worker.id)
    (hid : t.id = w.session.id) (hheader : t.frameHeader = w.session.frameHeader)
    (hforwards : t.forwards = w.session.forwards ∧
        t.forwardedRevision = w.session.forwardedRevision ∨
      ∃ worker ∈ w.session.worker, ∃ frame, t.forwards = w.session.forwards ++
          [⟨worker.id, revisionOf frame, Session.toWorkerFrame worker frame⟩] ∧
        t.forwardedRevision = revisionOf frame) (outFrame : Option Output)
    (hout : ∀ output ∈ outFrame, output ∈ w.outFrame) :
    WorldInv fleet { w with session := t, outFrame := outFrame } := by
  have hgrow : w.session.forwards ⊆ t.forwards := by
    rcases hforwards with ⟨hsame, _⟩ | ⟨worker, _, frame, hsame, _⟩
    · rw [hsame]
      exact List.Subset.refl _
    · rw [hsame]
      exact List.subset_append_left _ _
  constructor
  · rw [hid]
    exact h.id
  · exact hassigned
  · intro revision hrevision
    rcases hforwards with ⟨hsame, hlast⟩ | ⟨worker, _, frame, hsame, hlast⟩
    · unfold Session.newest at hrevision
      dsimp only at hrevision
      rw [hsame] at hrevision
      rw [hlast]
      exact h.newest revision hrevision
    · unfold Session.newest at hrevision
      dsimp only at hrevision
      rw [hsame, List.getLast?_concat] at hrevision
      cases hrevision
      exact hlast.symm
  · rcases hforwards with ⟨_, hlast⟩ | ⟨_, _, frame, _, hlast⟩
    · rw [hlast]
      exact h.bounded
    · rw [hlast]
      exact revisionOf_lt frame
  · intro f hf
    rcases hforwards with ⟨hsame, _⟩ | ⟨worker, hworker, frame, hsame, _⟩
    · rw [hsame] at hf
      exact h.forwards f hf
    · rw [hsame] at hf
      rcases List.mem_append.1 hf with hold | hnew
      · exact h.forwards f hold
      · -- the frame goes out in the form its worker speaks
        rw [List.mem_singleton.1 hnew]
        refine ⟨revisionOf_lt frame, fun hversion => ?_⟩
        rw [← h.assigned worker hworker] at hversion
        exact congrArg revisionOf (toWorkerFrame_same hversion)
  · exact h.fenced
  · intro i
    exact (h.sourced i).mono fun x revision hsent => hsent.grow hid hgrow
  · intro output houtput
    exact (h.waiting output (hout output houtput)).grow hheader hgrow
  · intro output houtput
    exact (h.delivered output houtput).grow hheader hgrow

/-! ## What comes in -/

/-- A posted frame comes from the worker of the session: as it is from a worker that
writes revisions, else with the revision forwarded last. -/
theorem relay_posted {worker : Worker} {data frame : Bytes}
    (h : s.relay worker data = .posted frame) :
    s.worker = some worker ∧ legacyFrameHeaderBytes ≤ data.length ∧
      frame = s.toBrowserFrame
        (if worker.protocolVersion < frameHeader2Version then stamp s.forwardedRevision data
          else data) := by
  unfold Session.relay at h
  split at h
  · cases h
  · next hlength =>
    split at h
    · cases h
    · next howner =>
      have hworker : s.worker = some worker := (Decidable.not_not.1 howner).2.2
      split at h
      · cases h
      split at h
      · next hlegacy =>
        cases h
        rw [if_pos hlegacy]
        exact ⟨hworker, Nat.le_of_not_lt hlength, rfl⟩
      · next hversion =>
        split at h
        · cases h
        · cases h
          rw [if_neg hversion]
          exact ⟨hworker, Nat.le_of_not_lt hlength, rfl⟩

theorem toBrowserFrame_two (h : s.frameHeader = .two) (frame : Bytes) :
    s.toBrowserFrame frame = frame := by
  unfold Session.toBrowserFrame
  rw [h]

/-- A message is kept for the browser if it is correlated; else nothing changes. -/
theorem WorldInv.receive (h : WorldInv fleet w) {worker : Worker} {source : Nat} {data : Bytes}
    (hposted : ∀ frame, w.session.relay worker data = .posted frame →
      Correlated w.session ⟨worker, source, w.session.newest, frame⟩) :
    WorldInv fleet (w.receive worker source data) := by
  unfold World.receive
  split
  · next frame hrelay =>
    unfold World.postFrame
    split
    · exact h
    · constructor
      case waiting =>
        intro output houtput
        cases houtput
        exact hposted frame hrelay
      case id => exact h.id
      case assigned => exact h.assigned
      case newest => exact h.newest
      case bounded => exact h.bounded
      case forwards => exact h.forwards
      case fenced => exact h.fenced
      case sourced => exact h.sourced
      case delivered => exact h.delivered
  · exact h

theorem WorldInv.relays (h : WorldInv fleet w) {worker : Worker} {revision : Nat}
    (hfleet : worker.protocolVersion = fleet worker.id)
    (hversion : frameHeader2Version ≤ fleet worker.id)
    (hsent : .frame (fromBytes w.session.id) revision ∈ (w.managers worker.id).sent)
    (image : Bytes) :
    WorldInv fleet (w.receive worker revision (generated w.session.id revision image)) := by
  refine h.receive fun frame hrelay => ?_
  obtain ⟨_, _, hframe⟩ := relay_posted hrelay
  obtain ⟨f, hf, hworker, hrevision⟩ := (h.sourced worker.id).sent _ _ hsent rfl
  have hechoes : ¬ worker.protocolVersion < frameHeader2Version := by omega
  refine ⟨⟨f, hf, hworker, hrevision⟩, fun hheader => ?_⟩
  rw [if_neg hechoes, toBrowserFrame_two hheader] at hframe
  have hright : revisionOf frame = revision := by
    rw [hframe]
    exact revisionOf_generated h.id (hrevision ▸ (h.forwards f hf).1)
  have hwrites : frameHeader2Version ≤ worker.protocolVersion := by omega
  exact ⟨fun _ => .inl hwrites, fun _ => hright⟩

theorem WorldInv.relaysLegacy (h : WorldInv fleet w) {worker : Worker} {canvas : Forward}
    (hfleet : worker.protocolVersion = fleet worker.id)
    (hversion : fleet worker.id < frameHeader2Version) (hcanvas : canvas ∈ w.session.forwards)
    (hworker : canvas.worker = worker.id) (image : Bytes) :
    WorldInv fleet (w.receive worker canvas.revision (generatedLegacy w.session.id image)) := by
  refine h.receive fun frame hrelay => ?_
  obtain ⟨_, hlength, hframe⟩ := relay_posted hrelay
  have hlegacy : worker.protocolVersion < frameHeader2Version := by omega
  refine ⟨⟨canvas, hcanvas, hworker, rfl⟩, fun hheader => ?_⟩
  rw [if_pos hlegacy, toBrowserFrame_two hheader] at hframe
  have hstamped : revisionOf frame = w.session.forwardedRevision := by
    rw [hframe]
    exact revisionOf_stamp h.bounded hlength
  -- a canvas went out, so there is a newest one, and its revision is the stamp
  have hnewest : w.session.newest = some w.session.forwardedRevision := by
    unfold Session.newest
    cases hlast : w.session.forwards.getLast? with
    | none =>
      rw [List.getLast?_eq_none_iff.1 hlast] at hcanvas
      cases hcanvas
    | some f =>
      have hrevision := h.newest f.revision (by
        unfold Session.newest
        rw [hlast]
        rfl)
      rw [Option.map_some, hrevision]
  show revisionOf frame = canvas.revision ↔ frameHeader2Version ≤ worker.protocolVersion ∨
    w.session.newest = some canvas.revision
  rw [hstamped, hnewest, Option.some.injEq]
  constructor
  · exact .inr
  · rintro (hge | heq)
    · omega
    · exact heq

/-! ## Runs -/

theorem WorldInv.works (h : WorldInv fleet w) {worker : Nat} {action : Worker.Action}
    {manager : Worker.Manager} (hversion : frameHeader2Version ≤ fleet worker)
    (hfeeds : Feeds w.session worker action)
    (hstep : Worker.step (w.managers worker) action = some manager) :
    WorldInv fleet { w with managers := Function.update w.managers worker manager } := by
  have hknown : ∀ x revision payload, action = .submit x revision payload →
      SentTo w.session worker x revision := by
    intro x revision payload haction hx
    rw [haction] at hfeeds
    obtain ⟨f, hf, hworker, hrevision, _⟩ := hfeeds hx
    have hsame := (h.forwards f hf).2 (by rw [hworker]; exact hversion)
    exact ⟨f, hf, hworker, by rw [← hsame, hrevision]⟩
  constructor
  case fenced =>
    intro i
    by_cases hi : i = worker
    · show (Function.update w.managers worker manager i).FenceInv
      rw [hi, Function.update_self]
      exact Worker.step_fenceInv (h.fenced worker) hstep
    · show (Function.update w.managers worker manager i).FenceInv
      rw [Function.update_of_ne hi]
      exact h.fenced i
  case sourced =>
    intro i
    by_cases hi : i = worker
    · show (Function.update w.managers worker manager i).Sourced (SentTo w.session i)
      rw [hi, Function.update_self]
      exact Worker.step_sourced (h.sourced worker) (h.fenced worker) hknown hstep
    · show (Function.update w.managers worker manager i).Sourced (SentTo w.session i)
      rw [Function.update_of_ne hi]
      exact h.sourced i
  case id => exact h.id
  case assigned => exact h.assigned
  case newest => exact h.newest
  case bounded => exact h.bounded
  case forwards => exact h.forwards
  case waiting => exact h.waiting
  case delivered => exact h.delivered

theorem worldStep_inv {event : Event} (h : WorldInv fleet w)
    (hstep : worldStep fleet w event = some u) : WorldInv fleet u := by
  cases event with
  | session action =>
    simp only [worldStep] at hstep
    split at hstep
    · next hregistered =>
      obtain ⟨t, ht, rfl⟩ := Option.map_eq_some_iff.1 hstep
      have hout : ∀ output ∈ (if t.outClose.isSome then none else w.outFrame),
          output ∈ w.outFrame := by
        intro output houtput
        split at houtput
        · cases houtput
        · exact houtput
      rcases step_hands ht with ⟨worker, rfl, rfl⟩ | hhands
      · refine h.session (t := { w.session with worker := some worker }) ?_ rfl rfl
          (.inl ⟨rfl, rfl⟩) _ hout
        intro worker' hworker'
        cases hworker'
        exact hregistered
      · refine h.session ?_ hhands.id hhands.frameHeader hhands.forwards _ hout
        exact fun worker hworker => h.assigned worker (hhands.worker worker hworker)
    · cases hstep
  | works worker action =>
    simp only [worldStep] at hstep
    split at hstep
    · next hguard =>
      obtain ⟨manager, hmanager, rfl⟩ := Option.map_eq_some_iff.1 hstep
      exact h.works hguard.1 hguard.2 hmanager
    · cases hstep
  | relays worker revision image =>
    simp only [worldStep] at hstep
    split at hstep
    · next hguard =>
      cases hstep
      exact h.relays hguard.1 hguard.2.1 hguard.2.2 image
    · cases hstep
  | relaysLegacy worker canvas image =>
    simp only [worldStep] at hstep
    split at hstep
    · next hguard =>
      cases hstep
      exact h.relaysLegacy hguard.1 hguard.2.1 hguard.2.2.1 hguard.2.2.2 image
    · cases hstep
  | delivers =>
    simp only [worldStep] at hstep
    split at hstep
    · next output _ houtput =>
      cases hstep
      constructor
      case waiting =>
        intro output' houtput'
        cases houtput'
      case delivered =>
        intro output' houtput'
        rcases List.mem_append.1 houtput' with hold | hnew
        · exact h.delivered output' hold
        · rw [List.mem_singleton.1 hnew]
          exact h.waiting output houtput
      case id => exact h.id
      case assigned => exact h.assigned
      case newest => exact h.newest
      case bounded => exact h.bounded
      case forwards => exact h.forwards
      case fenced => exact h.fenced
      case sourced => exact h.sourced
    · cases hstep

theorem reach_worldInv (h : (outputs fleet).Reach Machine.anyStep w) : WorldInv fleet w := by
  refine h.invariant (I := WorldInv fleet) ?_ fun _ _ _ hinv _ hstep => worldStep_inv hinv hstep
  rintro w ⟨⟨id, frameHeader, now, hid, hsession⟩, hmanagers, hout, hdelivered⟩
  constructor
  case id =>
    rw [hsession]
    exact hid
  case assigned =>
    rw [hsession]
    intro worker hworker
    cases hworker
  case newest =>
    rw [hsession]
    intro revision hrevision
    cases hrevision
  case bounded =>
    rw [hsession]
    exact Nat.two_pow_pos 32
  case forwards =>
    rw [hsession]
    intro f hf
    cases hf
  case fenced =>
    intro i
    obtain ⟨byId, hfresh⟩ := hmanagers i
    rw [hfresh]
    exact Worker.Manager.fresh_inv byId
  case sourced =>
    intro i
    obtain ⟨byId, hfresh⟩ := hmanagers i
    rw [hfresh]
    exact Worker.fresh_sourced byId
  case waiting =>
    rw [hout]
    intro output houtput
    cases houtput
  case delivered =>
    rw [hdelivered]
    intro output houtput
    cases houtput

/-- A canvas frame of the session. -/
def sampleCanvas (revision : Nat) : Bytes :=
  canvasFrameKind :: sampleId ++ toBytes 4 revision ++ [9]

/-- The first connection speaks protocol 4, the others protocol 5. -/
def sampleFleet (worker : Nat) : Nat := if worker = 0 then 4 else 5

def sampleManifests : List (String × Worker.Manifest) := [("m", ⟨"m", []⟩)]

def sampleWorld : World where
  session := opened sampleId .two 0
  managers _ := Worker.fresh sampleManifests
  outFrame := none
  delivered := []

theorem sampleWorld_init : (outputs sampleFleet).init sampleWorld :=
  ⟨⟨sampleId, .two, 0, rfl, rfl⟩, fun _ => ⟨sampleManifests, rfl⟩, rfl, rfl⟩

/-- The session goes live on a worker, and two canvases go out. -/
def sampleOpening (worker : Worker) : List Event :=
  [.session (.assigns worker), .session .ready, .session (.serves true),
    .session (.binary (sampleCanvas 1)), .session (.binary (sampleCanvas 2))]

/-- A worker of protocol 5 renders the first canvas and answers after the second. -/
def sampleEchoes : List Event :=
  sampleOpening ⟨1, 5⟩ ++
    [.works 1 (.openSession ⟨fromBytes sampleId, .int 1, "m", none⟩ 5),
      .works 1 (.runs 0 (.resident true)), .works 1 (.runs 0 (.announced true)),
      .works 1 (.submit (fromBytes sampleId) 1 [9]), .works 1 (.runs 0 .arrived),
      .works 1 (.submit (fromBytes sampleId) 2 [9]), .works 1 (.runs 0 (.framed (.generated 40))),
      .relays ⟨1, 5⟩ 1 [3], .delivers]

/-- A worker of protocol 4 does the same. -/
def sampleLegacy : List Event :=
  sampleOpening ⟨0, 4⟩ ++
    [.relaysLegacy ⟨0, 4⟩ ⟨0, 1, canvasFrameKind :: sampleId ++ [9]⟩ [3], .delivers]

end Potocolom.Frames
