import Potocolom.Frames.Session
import Potocolom.Lib.Mailbox
import Potocolom.Worker.Rendering

/-! # Latest input wins

A session is a mailbox of one for the canvas frames of its browser, and so is a
runner of the worker for the frames of the session. Each step of either is a step
of a mailbox, whichever coroutine takes it. -/

namespace Potocolom.Frames

open BigEndian
open Realtime (SessionState)

variable {s t : Session} {frame data : Bytes} {action : Action}

/-! ## What a step does to the frames -/

/-- The session as a mailbox of revisions. -/
def Session.mailbox (s : Session) : Mailbox Nat :=
  ⟨s.inputRevision, s.pendingFrame.map revisionOf, s.forwards.map (·.revision)⟩

/-- The fates of a frame that neither waits nor went out. -/
def Fate.gone (fate : Fate) : Prop := fate = .dropped ∨ fate = .raised

/-- The frames are left alone. -/
structure SameFrames (s t : Session) : Prop where
  inputRevision : t.inputRevision = s.inputRevision
  pendingFrame : t.pendingFrame = s.pendingFrame
  forwards : t.forwards = s.forwards
  taken : t.taken = s.taken

/-- What one step can do to the frames of a session. -/
inductive Effect (s t : Session) : Prop where
  | quiet : SameFrames s t → Effect s t
  | kept (frame : Bytes) :
      s.inputRevision < revisionOf frame → t.inputRevision = revisionOf frame →
      t.pendingFrame = some frame → t.forwards = s.forwards →
      t.taken = s.taken ++ [⟨revisionOf frame, .kept⟩] → Effect s t
  | forwarded (frame : Bytes) (worker : Nat) (sent : Bytes) :
      s.inputRevision < revisionOf frame → t.inputRevision = revisionOf frame →
      t.pendingFrame = none → t.forwards = s.forwards ++ [⟨worker, revisionOf frame, sent⟩] →
      t.taken = s.taken ++ [⟨revisionOf frame, .forwarded⟩] → Effect s t
  | gone (revision : Nat) (fate : Fate) :
      s.inputRevision < revision → fate.gone → t.inputRevision = revision →
      t.pendingFrame = s.pendingFrame → t.forwards = s.forwards →
      t.taken = s.taken ++ [⟨revision, fate⟩] → Effect s t
  | flushed (frame : Bytes) (worker : Nat) (sent : Bytes) :
      s.pendingFrame = some frame → t.inputRevision = s.inputRevision →
      t.pendingFrame = none → t.forwards = s.forwards ++ [⟨worker, revisionOf frame, sent⟩] →
      t.taken = s.taken → Effect s t
  | lost :
      t.inputRevision = s.inputRevision → t.pendingFrame = none → t.forwards = s.forwards →
      t.taken = s.taken → Effect s t

theorem SameFrames.refl (s : Session) : SameFrames s s := ⟨rfl, rfl, rfl, rfl⟩

/-- A transition moves the state and nothing else. -/
theorem transition_eq_some {expected : List SessionState} {new : SessionState}
    (h : s.transition expected new = some t) : t = { s with state := new } := by
  unfold Session.transition at h
  split at h
  · exact (Option.some.inj h).symm
  · cases h

theorem transition_getD {expected : List SessionState} {new : SessionState} :
    SameFrames s ((s.transition expected new).getD s) := by
  cases h : s.transition expected new with
  | none => exact SameFrames.refl s
  | some t =>
    rw [transition_eq_some h]
    exact ⟨rfl, rfl, rfl, rfl⟩

theorem postClose_same (code : Nat) : SameFrames s (s.postClose code) := by
  unfold Session.postClose
  split
  · exact SameFrames.refl s
  · exact ⟨rfl, rfl, rfl, rfl⟩

theorem post_same (control : Control) : SameFrames s (s.post control) := by
  unfold Session.post
  split
  · exact SameFrames.refl s
  · exact ⟨rfl, rfl, rfl, rfl⟩

theorem protocolError_same : SameFrames s s.protocolError := by
  have h := postClose_same (s := s) closeProtocolViolation
  exact ⟨h.inputRevision, h.pendingFrame, h.forwards, h.taken⟩

theorem postFrameTooLarge_same : SameFrames s s.postFrameTooLarge := by
  unfold Session.postFrameTooLarge
  split
  · exact SameFrames.refl s
  · have h := post_same (s := { s with frameErrorAfter := s.now + frameTooLargeInterval })
      .frameTooLarge
    exact ⟨h.inputRevision, h.pendingFrame, h.forwards, h.taken⟩

theorem scheduleResumeIdle_same : SameFrames s s.scheduleResumeIdle := by
  unfold Session.scheduleResumeIdle
  split
  · next t h =>
    rw [transition_eq_some h]
    exact ⟨rfl, rfl, rfl, rfl⟩
  · exact SameFrames.refl s

/-! ## Accepting a frame -/

theorem revisionOf_stamp {revision : Nat} (hrevision : revision < 2 ^ 32)
    (hlength : legacyFrameHeaderBytes ≤ data.length) :
    revisionOf (stamp revision data) = revision := by
  unfold revisionOf stamp
  have hhead : (data.take legacyFrameHeaderBytes).length = legacyFrameHeaderBytes := by
    rw [List.length_take]
    omega
  rw [List.append_assoc, List.drop_left' hhead,
    List.take_left' (length_toBytes 4 revision)]
  exact fromBytes_toBytes (by omega)

/-- An accepted frame waits, goes out or is dropped, as the state and the worker
have it. -/
theorem accept_effect (hnew : s.inputRevision < revisionOf frame) :
    Effect s ((s.advance (revisionOf frame)).accept frame) := by
  unfold Session.accept
  split
  · next hidle =>
    have h := scheduleResumeIdle_same (s := (s.advance (revisionOf frame)).touch.keep frame)
    exact .kept frame hnew h.inputRevision h.pendingFrame h.forwards h.taken
  · exact .kept frame hnew rfl rfl rfl rfl
  · exact .kept frame hnew rfl rfl rfl rfl
  · split
    · next worker hworker => exact .forwarded frame worker.id _ hnew rfl rfl rfl rfl
    · exact .gone (revisionOf frame) .dropped hnew (.inl rfl) rfl rfl rfl rfl

theorem consume_effect (howns : s.owns data) (hstale : ¬ s.stale data) :
    Effect s (s.consume data) := by
  unfold Session.consume
  split
  · next hheader =>
    have hnew : s.inputRevision < revisionOf data := by
      by_contra hle
      exact hstale ⟨hheader, Nat.le_of_not_lt hle⟩
    exact accept_effect hnew
  · next hheader =>
    by_cases hfits : s.inputRevision + 1 < 2 ^ 32
    · have hstamp := revisionOf_stamp hfits howns.1
      have hnew : s.inputRevision < revisionOf (stamp (s.inputRevision + 1) data) := by omega
      have heffect := accept_effect hnew
      rw [hstamp] at heffect
      rw [if_pos hfits]
      exact heffect
    · rw [if_neg hfits]
      exact .gone (s.inputRevision + 1) .raised (Nat.lt_succ_self _) (.inr rfl) rfl rfl rfl rfl

/-- An oversize frame or a stale one leaves the frames and the clock of the session
alone, whatever its state. -/
theorem binary_quiet (h : s.oversize data ∨ s.stale data) :
    SameFrames s (s.binary data) ∧ (s.binary data).lastInput = s.lastInput := by
  have hlarge : s.postFrameTooLarge.lastInput = s.lastInput := by
    unfold Session.postFrameTooLarge Session.post
    split
    · rfl
    · split <;> rfl
  have herror : s.protocolError.lastInput = s.lastInput := by
    unfold Session.protocolError Session.postClose Session.tearDown
    split <;> rfl
  unfold Session.binary
  split
  · exact ⟨protocolError_same, herror⟩
  split
  · exact ⟨protocolError_same, herror⟩
  split
  · exact ⟨postFrameTooLarge_same, hlarge⟩
  split
  · exact ⟨SameFrames.refl s, rfl⟩
  · next hoversize hstale =>
    rcases h with h | h
    · exact absurd h hoversize
    · exact absurd h hstale

theorem binary_effect : Effect s (s.binary data) := by
  unfold Session.binary
  split
  · exact .quiet protocolError_same
  · next howns =>
    split
    · exact .quiet protocolError_same
    split
    · exact .quiet postFrameTooLarge_same
    split
    · exact .quiet (SameFrames.refl s)
    · next hstale => exact consume_effect (Decidable.not_not.1 howns) hstale

/-! ## Handing over what waits -/

theorem forwardPending_effect : Effect s s.forwardPending := by
  unfold Session.forwardPending
  cases hpending : s.pendingFrame with
  | none => exact .lost rfl rfl rfl rfl
  | some frame =>
    cases hworker : s.worker with
    | none => exact .lost rfl rfl rfl rfl
    | some worker => exact .flushed frame worker.id _ hpending rfl rfl rfl rfl

theorem settle_effect (placed : Bool) : Effect s (s.settle placed) := by
  unfold Session.settle
  split
  · split
    · exact forwardPending_effect
    · exact .quiet ⟨rfl, rfl, rfl, rfl⟩
  · exact .quiet transition_getD

/-- What happened before the frames were touched does not matter. -/
theorem Effect.of_same {r : Session} (h : Effect r t) (hsame : SameFrames s r) : Effect s t := by
  rcases hsame with ⟨hinput, hpending, hforwards, htaken⟩
  cases h with
  | quiet h =>
    refine .quiet ⟨?_, ?_, ?_, ?_⟩
    · rw [h.inputRevision, hinput]
    · rw [h.pendingFrame, hpending]
    · rw [h.forwards, hforwards]
    · rw [h.taken, htaken]
  | kept frame hnew hrevision hframe hout hlog =>
    rw [hinput] at hnew
    rw [hforwards] at hout
    rw [htaken] at hlog
    exact .kept frame hnew hrevision hframe hout hlog
  | forwarded frame worker sent hnew hrevision hframe hout hlog =>
    rw [hinput] at hnew
    rw [hforwards] at hout
    rw [htaken] at hlog
    exact .forwarded frame worker sent hnew hrevision hframe hout hlog
  | gone revision fate hnew hgone hrevision hframe hout hlog =>
    rw [hinput] at hnew
    rw [hpending] at hframe
    rw [hforwards] at hout
    rw [htaken] at hlog
    exact .gone revision fate hnew hgone hrevision hframe hout hlog
  | flushed frame worker sent hframe hrevision hnone hout hlog =>
    rw [hpending] at hframe
    rw [hinput] at hrevision
    rw [hforwards] at hout
    rw [htaken] at hlog
    exact .flushed frame worker sent hframe hrevision hnone hout hlog
  | lost hrevision hnone hout hlog =>
    rw [hinput] at hrevision
    rw [hforwards] at hout
    rw [htaken] at hlog
    exact .lost hrevision hnone hout hlog

theorem transition_same {expected : List SessionState} {new : SessionState}
    (h : s.transition expected new = some t) : SameFrames s t := by
  rw [transition_eq_some h]
  exact ⟨rfl, rfl, rfl, rfl⟩

theorem step_effect (h : step s action = some t) : Effect s t := by
  cases action with
  | tick | writes | detaches =>
    cases h
    exact .quiet ⟨rfl, rfl, rfl, rfl⟩
  | revoked =>
    cases h
    have hclose := postClose_same (s := s) closeUnauthorized
    exact .quiet ⟨hclose.inputRevision, hclose.pendingFrame, hclose.forwards, hclose.taken⟩
  | ready | requeues | reassigns => exact .quiet (transition_same h)
  | serves placed =>
    simp only [step] at h
    split at h
    · cases h
      have hplaced : SameFrames s
          (if placed then s.post .other else (s.transition [.assigning] .queued).getD s) := by
        split
        · exact post_same .other
        · exact transition_getD
      exact .quiet ⟨hplaced.inputRevision, hplaced.pendingFrame, hplaced.forwards, hplaced.taken⟩
    · cases h
  | binary data =>
    simp only [step] at h
    split at h
    · cases h
      exact binary_effect
    · cases h
  | edits | leaves | assigns _ | resumeEnds | admissionEnds =>
    simp only [step] at h
    split at h
    · cases h
      exact .quiet ⟨rfl, rfl, rfl, rfl⟩
    · cases h
  | admits =>
    obtain ⟨r, hr, rfl⟩ := Option.map_eq_some_iff.1 h
    have hsame := transition_same hr
    exact .quiet ⟨hsame.inputRevision, hsame.pendingFrame, hsame.forwards, hsame.taken⟩
  | resumed placed =>
    simp only [step] at h
    split at h
    · cases h
      have hsettle := settle_effect (s := { s with resuming := s.resuming - 1 }) placed
      exact hsettle.of_same ⟨rfl, rfl, rfl, rfl⟩
    · cases h
  | admitted placed =>
    simp only [step] at h
    split at h
    · cases h
      have hsettle := settle_effect (s := { s with admitting := s.admitting - 1 }) placed
      exact hsettle.of_same ⟨rfl, rfl, rfl, rfl⟩
    · cases h
  | releasesIdle =>
    simp only [step] at h
    split at h
    · obtain ⟨r, hr, rfl⟩ := Option.map_eq_some_iff.1 h
      have hsame := transition_same hr
      exact .quiet ⟨hsame.inputRevision, hsame.pendingFrame, hsame.forwards, hsame.taken⟩
    · cases h

/-! ## The session as a mailbox -/

/-- A step of the session is a step of its mailbox. -/
theorem Effect.mailbox (h : Effect s t) : s.mailbox.Step t.mailbox := by
  unfold Session.mailbox
  cases h with
  | quiet h =>
    rw [h.inputRevision, h.pendingFrame, h.forwards]
    exact .stay
  | kept frame hnew hrevision hframe hout _ =>
    rw [hrevision, hframe, hout]
    exact .keep hnew
  | forwarded frame worker sent hnew hrevision hframe hout _ =>
    rw [hrevision, hframe, hout, List.map_append]
    exact .pass hnew
  | gone revision fate hnew _ hrevision hframe hout _ =>
    rw [hrevision, hframe, hout]
    exact .drop hnew
  | flushed frame worker sent hframe hrevision hnone hout _ =>
    rw [hrevision, hnone, hout, List.map_append]
    refine .flush ?_
    show s.pendingFrame.map revisionOf = some (revisionOf frame)
    rw [hframe]
    rfl
  | lost hrevision hnone hout _ =>
    rw [hrevision, hnone, hout]
    exact .lose

theorem reach_ordered (h : machine.Reach Machine.anyStep s) : s.mailbox.Ordered := by
  refine h.invariant (I := fun s => s.mailbox.Ordered) ?_ fun _ _ _ hordered _ hstep =>
    hordered.step (step_effect hstep).mailbox
  rintro _ ⟨id, frameHeader, now, _, rfl⟩
  exact Mailbox.ordered_empty 0

/-! ## What became of the newer frames -/

/-- The record of the frames taken: in order, up to the session's revision, and
nothing after the frame that waits but what is gone. -/
structure TakenInv (s : Session) : Prop where
  sorted : (s.taken.map (·.revision)).Pairwise (· < ·)
  le : ∀ e ∈ s.taken, e.revision ≤ s.inputRevision
  last : s.inputRevision = 0 ∨ ∃ e ∈ s.taken, e.revision = s.inputRevision
  kept : ∀ frame ∈ s.pendingFrame, ⟨revisionOf frame, .kept⟩ ∈ s.taken
  gone : ∀ frame ∈ s.pendingFrame, ∀ e ∈ s.taken, revisionOf frame < e.revision → e.fate.gone

/-- The record after one more entry. -/
theorem TakenInv.push (h : TakenInv s) {e : Taken} (hnew : s.inputRevision < e.revision)
    (hinput : t.inputRevision = e.revision) (hlog : t.taken = s.taken ++ [e]) :
    (t.taken.map (·.revision)).Pairwise (· < ·) ∧ (∀ e' ∈ t.taken, e'.revision ≤ t.inputRevision) ∧
      ∃ e' ∈ t.taken, e'.revision = t.inputRevision := by
  rw [hlog, hinput]
  refine ⟨?_, ?_, ?_⟩
  · rw [List.map_append]
    refine Mailbox.sorted_append h.sorted fun q hq => ?_
    obtain ⟨e', he', rfl⟩ := List.mem_map.1 hq
    exact (h.le e' he').trans_lt hnew
  · intro e' he'
    rcases List.mem_append.1 he' with he' | he'
    · exact (h.le e' he').trans hnew.le
    · rw [List.mem_singleton.1 he']
  · exact ⟨e, by simp, rfl⟩

theorem TakenInv.of_none (h : TakenInv s) (hinput : t.inputRevision = s.inputRevision)
    (hpending : t.pendingFrame = none) (hlog : t.taken = s.taken) : TakenInv t := by
  constructor
  · rw [hlog]
    exact h.sorted
  · rw [hlog, hinput]
    exact h.le
  · rw [hlog, hinput]
    exact h.last
  · rw [hpending]
    simp
  · rw [hpending]
    simp

theorem TakenInv.effect (h : TakenInv s) (heffect : Effect s t) : TakenInv t := by
  cases heffect with
  | quiet hsame =>
    constructor
    · rw [hsame.taken]
      exact h.sorted
    · rw [hsame.taken, hsame.inputRevision]
      exact h.le
    · rw [hsame.taken, hsame.inputRevision]
      exact h.last
    · rw [hsame.taken, hsame.pendingFrame]
      exact h.kept
    · rw [hsame.taken, hsame.pendingFrame]
      exact h.gone
  | kept frame hnew hrevision hframe _ hlog =>
    obtain ⟨hsorted, hle, hlast⟩ := h.push hnew hrevision hlog
    refine ⟨hsorted, hle, .inr hlast, ?_, ?_⟩
    · intro frame' hframe'
      rw [hframe] at hframe'
      cases hframe'
      rw [hlog]
      simp
    · -- the new frame is the newest of all
      intro frame' hframe' e he hlt
      rw [hframe] at hframe'
      cases hframe'
      have := hle e he
      omega
  | forwarded frame worker sent hnew hrevision hframe _ hlog =>
    obtain ⟨hsorted, hle, hlast⟩ := h.push hnew hrevision hlog
    refine ⟨hsorted, hle, .inr hlast, ?_, ?_⟩
    · rw [hframe]
      simp
    · rw [hframe]
      simp
  | gone revision fate hnew hgone hrevision hframe _ hlog =>
    obtain ⟨hsorted, hle, hlast⟩ := h.push hnew hrevision hlog
    refine ⟨hsorted, hle, .inr hlast, ?_, ?_⟩
    · intro frame' hframe'
      rw [hframe] at hframe'
      rw [hlog]
      exact List.mem_append_left _ (h.kept frame' hframe')
    · intro frame' hframe' e he hlt
      rw [hframe] at hframe'
      rw [hlog] at he
      rcases List.mem_append.1 he with he | he
      · exact h.gone frame' hframe' e he hlt
      · rw [List.mem_singleton.1 he]
        exact hgone
  | flushed frame worker sent _ hrevision hnone _ hlog => exact h.of_none hrevision hnone hlog
  | lost hrevision hnone _ hlog => exact h.of_none hrevision hnone hlog

theorem reach_taken (h : machine.Reach Machine.anyStep s) : TakenInv s := by
  refine h.invariant (I := TakenInv) ?_ fun _ _ _ htaken _ hstep =>
    htaken.effect (step_effect hstep)
  rintro _ ⟨id, frameHeader, now, _, rfl⟩
  constructor <;> simp [opened]

/-- A frame is dropped when the session waits for no worker and has none. -/
theorem binary_dropped {e : Taken} (htaken : (s.binary data).taken = s.taken ++ [e])
    (hdropped : e.fate = .dropped) :
    s.worker = none ∧ s.state ≠ .idle ∧ s.state ≠ .assigning ∧ s.state ≠ .queued := by
  have hsame : ∀ {t : Session}, SameFrames s t → t.taken ≠ s.taken ++ [e] := by
    intro t hsame heq
    rw [hsame.taken] at heq
    simp at heq
  have haccept : ∀ revision frame, ((s.advance revision).accept frame).taken = s.taken ++ [e] →
      s.worker = none ∧ s.state ≠ .idle ∧ s.state ≠ .assigning ∧ s.state ≠ .queued := by
    intro revision frame h
    have hfate : ∀ fate : Fate, s.taken ++ [⟨revisionOf frame, fate⟩] = s.taken ++ [e] →
        fate = .dropped := by
      intro fate heq
      obtain ⟨rfl⟩ : Taken.mk (revisionOf frame) fate = e := by simpa using heq
      exact hdropped
    unfold Session.accept at h
    split at h
    · have hsched := scheduleResumeIdle_same (s := (s.advance revision).touch.keep frame)
      rw [hsched.taken] at h
      cases hfate .kept h
    · cases hfate .kept h
    · cases hfate .kept h
    · next hidle hassigning hqueued =>
      split at h
      · cases hfate .forwarded h
      · next hworker => exact ⟨hworker, hidle, hassigning, hqueued⟩
  unfold Session.binary at htaken
  split at htaken
  · exact absurd htaken (hsame protocolError_same)
  split at htaken
  · exact absurd htaken (hsame protocolError_same)
  split at htaken
  · exact absurd htaken (hsame postFrameTooLarge_same)
  split at htaken
  · exact absurd htaken (hsame (SameFrames.refl s))
  · unfold Session.consume at htaken
    split at htaken
    · exact haccept _ _ htaken
    · dsimp only at htaken
      split at htaken
      · exact haccept _ _ htaken
      · have heq : Taken.mk (s.inputRevision + 1) .raised = e := by
          simpa [Session.tearDown, Session.take, Session.advance] using htaken
        rw [← heq] at hdropped
        cases hdropped

/-! ## End to end -/

def sampleId : Bytes := List.replicate 16 7

/-- A canvas frame of a header 1 browser. -/
def sampleFrame : Bytes := canvasFrameKind :: sampleId ++ [9]

theorem sampleInit : machine.init (opened sampleId .one 0) :=
  ⟨sampleId, .one, 0, rfl, rfl⟩

/-- Queued with a frame, admitted, and drawing on. -/
def sampleActions : List Action :=
  [.serves false, .binary sampleFrame, .admits, .assigns ⟨3, 5⟩, .ready, .admitted true,
   .binary sampleFrame]

end Potocolom.Frames
