import Potocolom.Lib.Machine

/-! # The mailbox of a browser

Any task posts into a session's outbox without waiting; one task, `browser_writer`,
drains it and may be suspended inside every send. Controls keep their order, a frame is
replaced by a newer one, and the first close ends the session after the controls that
were queued before it. -/

namespace Potocolom.Browser

variable {C F : Type*}

/-- A call on the mailbox. -/
inductive Post (C F : Type*) where
  | control (control : C)
  | frame (data : F)
  | close (code : Nat) (message : Option String)
deriving DecidableEq

/-- What the writer hands to the browser's socket. -/
inductive Sent (C F : Type*) where
  | control (control : C)
  | frame (data : F)
  | error (code : Nat) (message : String)
  | close (code : Nat)
deriving DecidableEq

/-- The outbox of a session. -/
structure Session (C F : Type*) where
  outControls : List C
  outFrame : Option F
  outWake : Bool
  outClose : Option (Nat × Option String)

namespace Session

/-- Queue a control; ignored once a close is set. -/
def post (session : Session C F) (control : C) : Session C F :=
  match session.outClose with
  | some _ => session
  | none =>
    { session with outControls := session.outControls ++ [control], outWake := true }

/-- Keep only the newest frame. -/
def postFrame (session : Session C F) (data : F) : Session C F :=
  match session.outClose with
  | some _ => session
  | none => { session with outFrame := some data, outWake := true }

/-- The first close wins. -/
def postClose (session : Session C F) (code : Nat) (message : Option String) : Session C F :=
  match session.outClose with
  | some _ => session
  | none =>
    { session with outClose := some (code, message), outFrame := none, outWake := true }

def receive (session : Session C F) : Post C F → Session C F
  | .control control => session.post control
  | .frame data => session.postFrame data
  | .close code message => session.postClose code message

/-- Something waits to be sent. -/
def Pending (session : Session C F) : Prop :=
  session.outControls ≠ [] ∨ session.outFrame ≠ none ∨ session.outClose ≠ none

end Session

/-- Where `browser_writer` is suspended, or how it ended. -/
inductive Writer where
  | waiting
  | sendingControl
  | sendingFrame
  /-- The code of the close that follows. -/
  | sendingError (code : Nat)
  | sendingClose
  | returned
  | cancelled
deriving DecidableEq

/-- A session, its writer, every call made so far and everything handed to the socket,
oldest first. -/
structure State (C F : Type*) where
  session : Session C F
  writer : Writer
  posts : List (Post C F)
  sent : List (Sent C F)

namespace State

/-- Begin a send: the socket has the message before the writer is suspended. -/
def send (s : State C F) (m : Sent C F) (writer : Writer) : State C F :=
  { s with writer := writer, sent := s.sent ++ [m] }

/-- From the head of `while session.out_controls` to the next suspension. -/
def drain (s : State C F) : State C F :=
  match s.session.outControls with
  | control :: rest =>
    { s with session := { s.session with outControls := rest } }.send
      (.control control) .sendingControl
  | [] =>
    match s.session.outClose with
    | some (code, some message) => s.send (.error code message) (.sendingError code)
    | some (code, none) => s.send (.close code) .sendingClose
    | none =>
      match s.session.outFrame with
      | some frame =>
        { s with session := { s.session with outFrame := none } }.send
          (.frame frame) .sendingFrame
      | none => { s with writer := .waiting }

end State

inductive Label (C F : Type*) where
  | post (call : Post C F)
  /-- `out_wake.wait()` returns. -/
  | wake
  /-- The pending send returns, or fails in a way `safe_send` swallows. -/
  | resume
  | cancel
deriving DecidableEq

/-- A step of the writer's own. -/
def Label.isWriter : Label C F → Bool
  | .wake => true
  | .resume => true
  | .post _ => false
  | .cancel => false

def step (s : State C F) : Label C F → Option (State C F)
  | .post call =>
    some { s with session := s.session.receive call, posts := s.posts ++ [call] }
  | .wake =>
    if s.writer = .waiting ∧ s.session.outWake = true then
      some { s with session := { s.session with outWake := false } }.drain
    else none
  | .resume =>
    match s.writer with
    | .sendingControl => some s.drain
    | .sendingFrame => some { s with writer := .waiting }
    | .sendingError code => some (s.send (.close code) .sendingClose)
    | .sendingClose => some { s with writer := .returned }
    | .waiting => none
    | .returned => none
    | .cancelled => none
  | .cancel =>
    if s.writer = .returned ∨ s.writer = .cancelled then none
    else some { s with writer := .cancelled }

/-- A session as `browser_writer` is started for it. -/
def start : State C F := ⟨⟨[], none, false, none⟩, .waiting, [], []⟩

def machine : Machine (State C F) (Label C F) := ⟨fun s => s = start, step⟩

/-! ## What was posted and what was sent -/

def Post.isClose : Post C F → Bool
  | .close _ _ => true
  | .control _ => false
  | .frame _ => false

def Post.control? : Post C F → Option C
  | .control c => some c
  | .frame _ => none
  | .close _ _ => none

def Post.frame? : Post C F → Option F
  | .frame data => some data
  | .control _ => none
  | .close _ _ => none

def Post.close? : Post C F → Option (Nat × Option String)
  | .close code message => some (code, message)
  | .control _ => none
  | .frame _ => none

def Sent.control? : Sent C F → Option C
  | .control c => some c
  | .frame _ => none
  | .error _ _ => none
  | .close _ => none

def Sent.frame? : Sent C F → Option F
  | .frame data => some data
  | .control _ => none
  | .error _ _ => none
  | .close _ => none

/-- Part of ending the session. -/
def Sent.isClosing : Sent C F → Bool
  | .error _ _ => true
  | .close _ => true
  | .control _ => false
  | .frame _ => false

/-- What a close has the writer send. -/
def closing : Nat × Option String → List (Sent C F)
  | (code, some message) => [.error code message, .close code]
  | (code, none) => [.close code]

/-- The calls before the first close. -/
def beforeClose (posts : List (Post C F)) : List (Post C F) :=
  posts.takeWhile fun call => !call.isClose

def firstClose (posts : List (Post C F)) : Option (Nat × Option String) :=
  posts.findSome? Post.close?

def postedControls (posts : List (Post C F)) : List C :=
  (beforeClose posts).filterMap Post.control?

def postedFrames (posts : List (Post C F)) : List F :=
  (beforeClose posts).filterMap Post.frame?

def sentControls (sent : List (Sent C F)) : List C := sent.filterMap Sent.control?

def sentFrames (sent : List (Sent C F)) : List F := sent.filterMap Sent.frame?

/-- What was sent to end the session. -/
def ending (sent : List (Sent C F)) : List (Sent C F) := sent.filter Sent.isClosing

namespace State

/-- The socket has controls and frames from before the first close, in order, and after
them nothing but that close. -/
structure Faithful (s : State C F) : Prop where
  controls : sentControls s.sent <+: postedControls s.posts
  frames : List.Sublist (sentFrames s.sent) (postedFrames s.posts)
  closed : ending s.sent = [] ∨ ∃ close, firstClose s.posts = some close ∧ ending s.sent <+: closing close
  last : ∃ earlier, s.sent = earlier ++ ending s.sent

/-- The writer can do nothing more, and was not cancelled. -/
def CaughtUp (s : State C F) : Prop :=
  s.writer ≠ .cancelled ∧ ∀ l : Label C F, l.isWriter = true → step s l = none

/-- Nothing that was posted is missing. -/
structure Complete (s : State C F) : Prop where
  controls : sentControls s.sent = postedControls s.posts
  closed : ∀ close, firstClose s.posts = some close → ending s.sent = closing close
  newest : firstClose s.posts = none → (sentFrames s.sent).getLast? = (postedFrames s.posts).getLast?

end State

/-! ## What each step keeps -/

variable {s t : State C F}

/-- What was sent to end the session, as far as the writer has come. -/
def Writer.Ends (session : Session C F) (ending : List (Sent C F)) : Writer → Prop
  | .waiting => ending = []
  | .sendingControl => ending = []
  | .sendingFrame => ending = []
  | .sendingError code => session.outControls = [] ∧
      ∃ message, session.outClose = some (code, some message) ∧ ending = [.error code message]
  | .sendingClose => session.outControls = [] ∧
      ∃ close, session.outClose = some close ∧ ending = closing close
  | .returned => session.outControls = [] ∧
      ∃ close, session.outClose = some close ∧ ending = closing close
  | .cancelled => ending = [] ∨ ∃ close, session.outClose = some close ∧ ending <+: closing close

structure Inv (s : State C F) : Prop where
  close : s.session.outClose = firstClose s.posts
  controls : sentControls s.sent ++ s.session.outControls = postedControls s.posts
  frames : List.Sublist (sentFrames s.sent ++ s.session.outFrame.toList) (postedFrames s.posts)
  newest : firstClose s.posts = none →
    (sentFrames s.sent ++ s.session.outFrame.toList).getLast? = (postedFrames s.posts).getLast?
  ends : s.writer.Ends s.session (ending s.sent)
  last : ∃ earlier, s.sent = earlier ++ ending s.sent
  /-- No lost wake-up. -/
  wake : s.writer = .waiting ∨ s.writer = .sendingFrame → s.session.Pending →
    s.session.outWake = true

theorem start_inv : Inv (Browser.start : State C F) := by
  constructor <;> simp [start, firstClose, sentControls, postedControls, beforeClose,
    sentFrames, postedFrames, ending, Writer.Ends,
    Session.Pending]

/-! ### Posting -/

/-- The log after one more call. -/
def State.log (s : State C F) (call : Post C F) : State C F :=
  { s with session := s.session.receive call, posts := s.posts ++ [call] }

section Posts

variable {posts : List (Post C F)}

theorem firstClose_eq_none : firstClose posts = none ↔ ∀ call ∈ posts, (!call.isClose) = true := by
  rw [firstClose, List.findSome?_eq_none_iff]
  refine forall₂_congr fun call _ => ?_
  cases call <;> simp [Post.close?, Post.isClose]

theorem firstClose_snoc (call : Post C F) :
    firstClose (posts ++ [call]) = (firstClose posts).or call.close? := by
  unfold firstClose
  cases h : posts.findSome? Post.close? <;> simp [List.findSome?_append, h]

/-- Before the first close a call is counted. -/
theorem beforeClose_open (h : firstClose posts = none) (call : Post C F) :
    beforeClose (posts ++ [call]) =
      beforeClose posts ++ [call].takeWhile fun call => !call.isClose := by
  have hall := firstClose_eq_none.1 h
  unfold beforeClose
  rw [List.takeWhile_append_of_pos hall, List.takeWhile_eq_self_iff.2 hall]

theorem postedControls_open (h : firstClose posts = none) (call : Post C F) :
    postedControls (posts ++ [call]) = postedControls posts ++ call.control?.toList := by
  unfold postedControls
  rw [beforeClose_open h, List.filterMap_append]
  cases call <;> simp [Post.isClose, Post.control?]

theorem postedFrames_open (h : firstClose posts = none) (call : Post C F) :
    postedFrames (posts ++ [call]) = postedFrames posts ++ call.frame?.toList := by
  unfold postedFrames
  rw [beforeClose_open h, List.filterMap_append]
  cases call <;> simp [Post.isClose, Post.frame?]

/-- After it, it is not. -/
theorem beforeClose_closed (h : firstClose posts ≠ none) (call : Post C F) :
    beforeClose (posts ++ [call]) = beforeClose posts := by
  unfold beforeClose
  rw [List.takeWhile_append, if_neg]
  intro hlen
  apply h
  apply firstClose_eq_none.2
  exact List.takeWhile_eq_self_iff.1 ((List.takeWhile_prefix _).eq_of_length hlen)

end Posts

/-- A call once a close is set changes nothing. -/
theorem Session.receive_closed {session : Session C F} {close : Nat × Option String}
    (h : session.outClose = some close) (call : Post C F) : session.receive call = session := by
  cases call <;> simp [receive, post, postFrame, postClose, h]

theorem Inv.log_closed (h : Inv s) {close : Nat × Option String}
    (hclose : s.session.outClose = some close) (call : Post C F) : Inv (s.log call) := by
  have hfirst : firstClose s.posts = some close := h.close ▸ hclose
  have hset : firstClose s.posts ≠ none := by simp [hfirst]
  have hbefore := beforeClose_closed hset call
  have hfirst' : firstClose (s.posts ++ [call]) = some close := by
    rw [firstClose_snoc, hfirst]
    rfl
  have hsession : s.session.receive call = s.session := Session.receive_closed hclose call
  unfold State.log
  rw [hsession]
  constructor
  · rw [hclose, hfirst']
  · rw [h.controls, postedControls, postedControls, hbefore]
  · rw [postedFrames, hbefore]
    exact h.frames
  · intro hnone
    rw [hfirst'] at hnone
    cases hnone
  · exact h.ends
  · exact h.last
  · exact h.wake

/-- The writer's own progress does not hang on what is queued, before a close. -/
theorem Writer.Ends.of_open {session session' : Session C F} {ending : List (Sent C F)}
    {writer : Writer} (h : writer.Ends session ending) (hopen : session.outClose = none) :
    writer.Ends session' ending := by
  cases writer with
  | waiting => exact h
  | sendingControl => exact h
  | sendingFrame => exact h
  | sendingError code => obtain ⟨-, _, hc, -⟩ := h; simp [hopen] at hc
  | sendingClose => obtain ⟨-, _, hc, -⟩ := h; simp [hopen] at hc
  | returned => obtain ⟨-, _, hc, -⟩ := h; simp [hopen] at hc
  | cancelled =>
    rcases h with h | ⟨_, hc, -⟩
    · exact .inl h
    · simp [hopen] at hc

theorem Inv.log_open (h : Inv s) (hopen : s.session.outClose = none) (call : Post C F) :
    Inv (s.log call) := by
  have hfirst : firstClose s.posts = none := h.close ▸ hopen
  have hclose : firstClose (s.posts ++ [call]) = call.close? := by
    rw [firstClose_snoc, hfirst, Option.none_or]
  have hcontrols := postedControls_open hfirst call
  have hframes := postedFrames_open hfirst call
  have hends : s.writer.Ends (s.session.receive call) (ending s.sent) := h.ends.of_open hopen
  unfold State.log
  cases call with
  | control control =>
    simp only [Session.receive, Session.post, hopen] at hends ⊢
    constructor
    · rw [hclose]
      rfl
    · rw [hcontrols, ← h.controls, List.append_assoc]
      rfl
    · rw [hframes]
      exact h.frames.trans (List.sublist_append_left _ _)
    · intro _
      rw [hframes]
      simpa [Post.frame?] using h.newest hfirst
    · exact hends
    · exact h.last
    · exact fun _ _ => rfl
  | frame data =>
    simp only [Session.receive, Session.postFrame, hopen] at hends ⊢
    constructor
    · rw [hclose]
      rfl
    · rw [hcontrols, ← h.controls]
      simp [Post.control?]
    · rw [hframes]
      -- the frame that waited is replaced, the ones already sent stay
      exact ((List.sublist_append_left _ _).trans h.frames).append (List.Sublist.refl _)
    · intro _
      rw [hframes]
      simp [Post.frame?]
    · exact hends
    · exact h.last
    · exact fun _ _ => rfl
  | close code message =>
    simp only [Session.receive, Session.postClose, hopen] at hends ⊢
    constructor
    · rw [hclose]
      rfl
    · rw [hcontrols, ← h.controls]
      simp [Post.control?]
    · rw [hframes]
      simpa [Post.frame?] using (List.sublist_append_left _ _).trans h.frames
    · intro hnone
      rw [hclose] at hnone
      cases hnone
    · exact hends
    · exact h.last
    · exact fun _ _ => rfl

theorem Inv.log (h : Inv s) (call : Post C F) : Inv (s.log call) := by
  cases hclose : s.session.outClose with
  | none => exact h.log_open hclose call
  | some close => exact h.log_closed hclose call

/-! ### Sending -/

@[simp] theorem sentControls_snoc (sent : List (Sent C F)) (m : Sent C F) :
    sentControls (sent ++ [m]) = sentControls sent ++ m.control?.toList := by
  cases m <;> simp [sentControls, Sent.control?]

@[simp] theorem sentFrames_snoc (sent : List (Sent C F)) (m : Sent C F) :
    sentFrames (sent ++ [m]) = sentFrames sent ++ m.frame?.toList := by
  cases m <;> simp [sentFrames, Sent.frame?]

/-- Nothing but the end of the session is sent after it has begun. -/
theorem last_snoc {sent : List (Sent C F)} {m : Sent C F}
    (hlast : ∃ earlier, sent = earlier ++ ending sent) (hm : m.isClosing = true ∨ ending sent = []) :
    ∃ earlier, sent ++ [m] = earlier ++ ending (sent ++ [m]) := by
  cases hclosing : m.isClosing with
  | true =>
    obtain ⟨earlier, hearlier⟩ := hlast
    refine ⟨earlier, ?_⟩
    have hend : ending (sent ++ [m]) = ending sent ++ [m] := by
      simp [ending, List.filter_append, hclosing]
    rw [hend, ← List.append_assoc, ← hearlier]
  | false =>
    have hnil : ending sent = [] := by simpa [hclosing] using hm
    have hend : ending (sent ++ [m]) = [] := by
      unfold ending at hnil ⊢
      rw [List.filter_append, hnil]
      simp [hclosing]
    exact ⟨sent ++ [m], by rw [hend, List.append_nil]⟩

/-- The invariant at the head of the inner loop, where nothing is promised of the
wake-up and the session has not ended. -/
structure Draining (s : State C F) : Prop where
  close : s.session.outClose = firstClose s.posts
  controls : sentControls s.sent ++ s.session.outControls = postedControls s.posts
  frames : List.Sublist (sentFrames s.sent ++ s.session.outFrame.toList) (postedFrames s.posts)
  newest : firstClose s.posts = none →
    (sentFrames s.sent ++ s.session.outFrame.toList).getLast? = (postedFrames s.posts).getLast?
  ending : ending s.sent = []

theorem Inv.draining (h : Inv s) (hending : ending s.sent = []) : Draining s :=
  ⟨h.close, h.controls, h.frames, h.newest, hending⟩

theorem Draining.last (h : Draining s) : ∃ earlier, s.sent = earlier ++ Browser.ending s.sent :=
  ⟨s.sent, by rw [h.ending, List.append_nil]⟩

/-- A close is sent once every control is. -/
theorem Draining.send_closing (h : Draining s) {m : Sent C F} {writer : Writer}
    (hm : m.isClosing = true)
    (hends : writer.Ends s.session [m]) (hwriter : writer ≠ .waiting ∧ writer ≠ .sendingFrame) :
    Inv (s.send m writer) := by
  have hcontrol : m.control? = none := by cases m <;> first | rfl | cases hm
  have hframe : m.frame? = none := by cases m <;> first | rfl | cases hm
  have hcontrols : sentControls (s.sent ++ [m]) = sentControls s.sent := by simp [hcontrol]
  have hframes : sentFrames (s.sent ++ [m]) = sentFrames s.sent := by simp [hframe]
  have hending : Browser.ending (s.sent ++ [m]) = [m] := by
    have hnil := h.ending
    unfold Browser.ending at hnil ⊢
    rw [List.filter_append, hnil]
    simp [hm]
  unfold State.send
  constructor
  · exact h.close
  · rw [hcontrols]
    exact h.controls
  · rw [hframes]
    exact h.frames
  · rw [hframes]
    exact h.newest
  · rw [hending]
    exact hends
  · exact last_snoc h.last (.inl hm)
  · intro hwait
    exact absurd hwait (not_or.2 hwriter)

theorem Draining.drain (h : Draining s) : Inv s.drain := by
  have hnil := h.ending
  unfold Browser.ending at hnil
  unfold State.drain
  split
  case h_1 control rest hcontrols =>
    have hposted := h.controls
    rw [hcontrols] at hposted
    unfold State.send
    constructor
    · exact h.close
    · simpa [Sent.control?] using hposted
    · simpa [Sent.frame?] using h.frames
    · simpa [Sent.frame?] using h.newest
    · simp [Writer.Ends, Browser.ending, Sent.isClosing, hnil]
    · exact last_snoc h.last (.inr h.ending)
    · simp
  case h_2 hcontrols =>
    split
    case h_1 code message hclose =>
      exact h.send_closing rfl ⟨hcontrols, message, hclose, rfl⟩ (by simp)
    case h_2 code hclose =>
      exact h.send_closing rfl ⟨hcontrols, _, hclose, rfl⟩ (by simp)
    case h_3 hclose =>
      split
      case h_1 frame hframe =>
        have hframes := h.frames
        have hnewest := h.newest
        rw [hframe] at hframes hnewest
        unfold State.send
        constructor
        · exact h.close
        · simpa [Sent.control?] using h.controls
        · simpa [Sent.frame?] using hframes
        · simpa [Sent.frame?] using hnewest
        · simp [Writer.Ends, Browser.ending, Sent.isClosing, hnil]
        · exact last_snoc h.last (.inr h.ending)
        · -- nothing is left, so nothing need wake the writer
          simp [Session.Pending, hcontrols, hclose]
      case h_2 hframe =>
        constructor
        · exact h.close
        · exact h.controls
        · exact h.frames
        · exact h.newest
        · exact h.ending
        · exact h.last
        · simp [Session.Pending, hcontrols, hclose, hframe]

/-- The close that follows the error message. -/
theorem Inv.send_close (h : Inv s) {code : Nat} (hwriter : s.writer = .sendingError code) :
    Inv (s.send (.close code) .sendingClose) := by
  have hends := h.ends
  rw [hwriter] at hends
  obtain ⟨hcontrols, message, hclose, hending⟩ := hends
  unfold State.send
  constructor
  · exact h.close
  · simpa [Sent.control?] using h.controls
  · simpa [Sent.frame?] using h.frames
  · simpa [Sent.frame?] using h.newest
  · refine ⟨hcontrols, _, hclose, ?_⟩
    unfold ending at hending ⊢
    rw [List.filter_append, hending]
    rfl
  · exact last_snoc h.last (.inl rfl)
  · simp

theorem Writer.Ends.cancel {session : Session C F} {ending : List (Sent C F)} {writer : Writer}
    (h : writer.Ends session ending) : Writer.cancelled.Ends session ending := by
  cases writer with
  | waiting => exact .inl h
  | sendingControl => exact .inl h
  | sendingFrame => exact .inl h
  | sendingError code =>
    obtain ⟨-, message, hclose, rfl⟩ := h
    exact .inr ⟨_, hclose, [.close code], rfl⟩
  | sendingClose =>
    obtain ⟨-, close, hclose, rfl⟩ := h
    exact .inr ⟨close, hclose, List.prefix_refl _⟩
  | returned =>
    obtain ⟨-, close, hclose, rfl⟩ := h
    exact .inr ⟨close, hclose, List.prefix_refl _⟩
  | cancelled => exact h

theorem Inv.step {l : Label C F} (h : Inv s) (hstep : step s l = some t) : Inv t := by
  cases l with
  | post call =>
    cases hstep
    exact h.log call
  | wake =>
    rw [Browser.step, Option.ite_none_right_eq_some] at hstep
    obtain ⟨⟨hwriter, -⟩, hdrain⟩ := hstep
    cases hdrain
    have hends := h.ends
    rw [hwriter] at hends
    -- the event is cleared before the drain, so a post from here on sets it again
    exact Draining.drain ⟨h.close, h.controls, h.frames, h.newest, hends⟩
  | resume =>
    have hends := h.ends
    cases hwriter : s.writer with
    | sendingControl =>
      rw [hwriter] at hends
      simp only [Browser.step, hwriter, Option.some.injEq] at hstep
      exact hstep ▸ (h.draining hends).drain
    | sendingFrame =>
      rw [hwriter] at hends
      simp only [Browser.step, hwriter, Option.some.injEq] at hstep
      subst hstep
      exact ⟨h.close, h.controls, h.frames, h.newest, hends, h.last,
        fun _ => h.wake (.inr hwriter)⟩
    | sendingError code =>
      simp only [Browser.step, hwriter, Option.some.injEq] at hstep
      exact hstep ▸ h.send_close hwriter
    | sendingClose =>
      rw [hwriter] at hends
      simp only [Browser.step, hwriter, Option.some.injEq] at hstep
      subst hstep
      exact ⟨h.close, h.controls, h.frames, h.newest, hends, h.last, by simp⟩
    | waiting => simp [Browser.step, hwriter] at hstep
    | returned => simp [Browser.step, hwriter] at hstep
    | cancelled => simp [Browser.step, hwriter] at hstep
  | cancel =>
    rw [Browser.step, Option.ite_none_left_eq_some] at hstep
    obtain ⟨-, heq⟩ := hstep
    cases heq
    exact ⟨h.close, h.controls, h.frames, h.newest, h.ends.cancel, h.last, by simp⟩

theorem reach_inv (h : machine.Reach Machine.anyStep s) : Inv s := by
  refine h.invariant ?_ ?_
  · intro s hs
    rw [show s = start from hs]
    exact start_inv
  · intro s l t hs _ hstep
    exact hs.step hstep

/-! ## The writer keeps up -/

/-- One send may be of a frame, and no control is sent until it returns. -/
def State.lag (s : State C F) : Nat := if s.writer = .sendingFrame then 1 else 0

theorem State.lag_le (s : State C F) : s.lag ≤ 1 := by
  unfold lag
  split <;> omega

/-- At the head of the inner loop a queued control is sent. -/
theorem State.drain_sends (h : s.session.outControls ≠ []) :
    (sentControls s.drain.sent).length = (sentControls s.sent).length + 1 ∧ s.drain.lag = 0 := by
  unfold State.drain
  cases hcontrols : s.session.outControls with
  | nil => exact absurd hcontrols h
  | cons control rest =>
    simp [State.send, Sent.control?, State.lag]

theorem State.drain_controls (s : State C F) :
    sentControls s.sent <+: sentControls s.drain.sent := by
  unfold State.drain
  split
  · simp [State.send]
  · split
    · simp [State.send]
    · simp [State.send]
    · split
      · simp [State.send]
      · exact List.prefix_refl _

/-- Nothing that was sent is taken back. -/
theorem step_controls {l : Label C F} (hstep : step s l = some t) :
    sentControls s.sent <+: sentControls t.sent := by
  cases l with
  | post call =>
    cases hstep
    exact List.prefix_refl _
  | wake =>
    rw [step, Option.ite_none_right_eq_some] at hstep
    obtain ⟨-, hdrain⟩ := hstep
    cases hdrain
    exact State.drain_controls
      { s with session := { s.session with outWake := false } }
  | resume =>
    cases hwriter : s.writer <;> simp only [step, hwriter, reduceCtorEq, Option.some.injEq] at hstep
    all_goals subst hstep
    · exact State.drain_controls s
    · exact List.prefix_refl _
    · simp [State.send]
    · exact List.prefix_refl _
  | cancel =>
    rw [step, Option.ite_none_left_eq_some] at hstep
    obtain ⟨-, heq⟩ := hstep
    cases heq
    exact List.prefix_refl _

/-- While controls are queued, every step of the writer sends one, or ends the send that
was in the way. -/
theorem Inv.writer_sends {l : Label C F} (h : Inv s) (hstep : Browser.step s l = some t)
    (hl : l.isWriter = true) (hqueued : s.session.outControls ≠ []) :
    (sentControls s.sent).length + 1 + t.lag ≤ (sentControls t.sent).length + s.lag := by
  cases l with
  | post call => cases hl
  | cancel => cases hl
  | wake =>
    rw [Browser.step, Option.ite_none_right_eq_some] at hstep
    obtain ⟨-, hdrain⟩ := hstep
    cases hdrain
    obtain ⟨hlen, hlag⟩ := State.drain_sends
      (s := { s with session := { s.session with outWake := false } }) hqueued
    rw [hlag, hlen]
    simp
  | resume =>
    have hends := h.ends
    cases hwriter : s.writer with
    | sendingControl =>
      simp only [Browser.step, hwriter, Option.some.injEq] at hstep
      subst hstep
      obtain ⟨hlen, hlag⟩ := State.drain_sends hqueued
      rw [hlag, hlen]
      simp
    | sendingFrame =>
      simp only [Browser.step, hwriter, Option.some.injEq] at hstep
      subst hstep
      simp [State.lag, hwriter]
    | sendingError code =>
      rw [hwriter] at hends
      exact absurd hends.1 hqueued
    | sendingClose =>
      rw [hwriter] at hends
      exact absurd hends.1 hqueued
    | waiting => simp [Browser.step, hwriter] at hstep
    | returned => simp [Browser.step, hwriter] at hstep
    | cancelled => simp [Browser.step, hwriter] at hstep

theorem run_controls {ls : List (Label C F)} (hrun : machine.run s ls = some t) :
    sentControls s.sent <+: sentControls t.sent := by
  refine (Machine.path_of_run_any hrun).relates
    (R := fun s t => sentControls s.sent <+: sentControls t.sent)
    (I := fun _ => True) (fun _ => List.prefix_refl _) ?_ (fun _ _ _ _ _ _ => trivial) ?_ trivial
  · intro s t u hst htu
    exact hst.trans htu
  · intro s l t _ _ hstep
    exact step_controls hstep

theorem State.drain_posts (s : State C F) : s.drain.posts = s.posts := by
  unfold State.drain
  split
  · rfl
  · split
    · rfl
    · rfl
    · split <;> rfl

/-- Only a call is logged. -/
theorem step_posts {l : Label C F} (hstep : step s l = some t) :
    t.posts = s.posts ∨ ∃ call, t.posts = s.posts ++ [call] := by
  cases l with
  | post call =>
    cases hstep
    exact .inr ⟨call, rfl⟩
  | wake =>
    rw [step, Option.ite_none_right_eq_some] at hstep
    obtain ⟨-, hdrain⟩ := hstep
    cases hdrain
    exact .inl (State.drain_posts { s with session := { s.session with outWake := false } })
  | resume =>
    left
    cases hwriter : s.writer <;> simp only [step, hwriter, reduceCtorEq, Option.some.injEq] at hstep
    all_goals subst hstep
    · exact State.drain_posts s
    · rfl
    · rfl
    · rfl
  | cancel =>
    rw [step, Option.ite_none_left_eq_some] at hstep
    obtain ⟨-, heq⟩ := hstep
    cases heq
    exact .inl rfl

/-- What was posted before the first close stays so. -/
theorem step_posted {l : Label C F} (hstep : step s l = some t) :
    postedControls s.posts <+: postedControls t.posts := by
  rcases step_posts hstep with hposts | ⟨call, hposts⟩
  · rw [hposts]
  · rw [hposts]
    by_cases hopen : firstClose s.posts = none
    · rw [postedControls_open hopen]
      exact List.prefix_append _ _
    · rw [postedControls, postedControls, beforeClose_closed hopen]

theorem run_posted {ls : List (Label C F)} (hrun : machine.run s ls = some t) :
    postedControls s.posts <+: postedControls t.posts := by
  refine (Machine.path_of_run_any hrun).relates
    (R := fun s t => postedControls s.posts <+: postedControls t.posts)
    (I := fun _ => True) (fun _ => List.prefix_refl _) ?_ (fun _ _ _ _ _ _ => trivial) ?_ trivial
  · intro s t u hst htu
    exact hst.trans htu
  · intro s l t _ _ hstep
    exact step_posted hstep

/-- Along a run without a cancellation, every step of the writer brings the controls
that were queued at its start nearer. -/
theorem run_sends (ls : List (Label C F)) (h : Inv s) (hrun : machine.run s ls = some t)
    (hcancel : .cancel ∉ ls) {n : Nat} (hn : n ≤ (postedControls s.posts).length) :
    n ≤ (sentControls t.sent).length ∨
      (sentControls s.sent).length + ls.countP Label.isWriter ≤
        (sentControls t.sent).length + s.lag := by
  induction ls generalizing s with
  | nil =>
    obtain rfl : s = t := by simpa [Machine.run] using hrun
    right
    simp
  | cons l ls ih =>
    rw [Machine.run, Option.bind_eq_some_iff] at hrun
    obtain ⟨u, hu, hrest⟩ := hrun
    have hu' : step s l = some u := hu
    have hposted := (step_posted hu').length_le
    have hsent := (step_controls hu').length_le
    rcases ih (h.step hu') hrest (List.not_mem_of_not_mem_cons hcancel) (hn.trans hposted)
      with hall | hlen
    · exact .inl hall
    · cases hl : l.isWriter with
      | true =>
        rw [List.countP_cons_of_pos hl]
        by_cases hqueued : s.session.outControls = []
        · -- nothing was queued, so all that was posted had been sent
          have hcontrols := congrArg List.length h.controls
          rw [hqueued, List.append_nil] at hcontrols
          have hrun := (run_controls hrest).length_le
          omega
        · have hstep := h.writer_sends hu' hl hqueued
          omega
      | false =>
        rw [List.countP_cons_of_neg (by simp [hl])]
        have hlag : u.lag = s.lag := by
          cases l with
          | post call => cases hu'; rfl
          | cancel => exact absurd (List.mem_cons_self) hcancel
          | wake => cases hl
          | resume => cases hl
        omega

/-! ### The close is reached -/

/-- How many steps the writer has left once a close is set. -/
def State.rank (s : State C F) : Nat :=
  match s.writer with
  | .waiting => s.session.outControls.length + 3
  | .sendingControl => s.session.outControls.length + 3
  | .sendingFrame => s.session.outControls.length + 4
  | .sendingError _ => 2
  | .sendingClose => 1
  | .returned => 0
  | .cancelled => 0

theorem State.rank_le (s : State C F) : s.rank ≤ s.session.outControls.length + 4 := by
  unfold rank
  split <;> omega

theorem State.drain_rank {close : Nat × Option String} (h : s.session.outClose = some close) :
    s.drain.rank < s.session.outControls.length + 3 ∧ s.drain.session.outClose = some close := by
  unfold State.drain
  cases hcontrols : s.session.outControls with
  | cons control rest => simp [State.send, State.rank, h]
  | nil =>
    obtain ⟨code, message⟩ := close
    cases message <;> simp [State.send, State.rank, h]

/-- Once a close is set, every step of the writer brings its end nearer. -/
theorem step_rank {l : Label C F} (hstep : step s l = some t) (hcancel : l ≠ .cancel)
    {close : Nat × Option String} (h : s.session.outClose = some close) :
    t.rank + (if l.isWriter then 1 else 0) ≤ s.rank ∧ t.session.outClose = some close := by
  cases l with
  | post call =>
    cases hstep
    rw [Session.receive_closed h]
    exact ⟨le_refl _, h⟩
  | cancel => exact absurd rfl hcancel
  | wake =>
    rw [step, Option.ite_none_right_eq_some] at hstep
    obtain ⟨⟨hwriter, -⟩, hdrain⟩ := hstep
    cases hdrain
    obtain ⟨hrank, hclose⟩ := State.drain_rank
      (s := { s with session := { s.session with outWake := false } }) h
    have hs : s.rank = s.session.outControls.length + 3 := by simp [State.rank, hwriter]
    refine ⟨?_, hclose⟩
    rw [hs]
    exact hrank
  | resume =>
    cases hwriter : s.writer <;> simp only [step, hwriter, reduceCtorEq, Option.some.injEq] at hstep
    all_goals subst hstep
    · obtain ⟨hrank, hclose⟩ := State.drain_rank h
      have hs : s.rank = s.session.outControls.length + 3 := by simp [State.rank, hwriter]
      refine ⟨?_, hclose⟩
      rw [hs]
      exact hrank
    · simp [State.rank, hwriter, h, Label.isWriter]
    · simp [State.send, State.rank, hwriter, h, Label.isWriter]
    · simp [State.rank, hwriter, h, Label.isWriter]

theorem run_rank {ls : List (Label C F)} (hrun : machine.run s ls = some t)
    (hcancel : .cancel ∉ ls) {close : Nat × Option String}
    (h : s.session.outClose = some close) : t.rank + ls.countP Label.isWriter ≤ s.rank := by
  induction ls generalizing s with
  | nil =>
    obtain rfl : s = t := by simpa [Machine.run] using hrun
    simp
  | cons l ls ih =>
    rw [Machine.run, Option.bind_eq_some_iff] at hrun
    obtain ⟨u, hu, hrest⟩ := hrun
    obtain ⟨hrank, hclose⟩ := step_rank hu (List.ne_of_not_mem_cons hcancel).symm h
    have hlen := ih hrest (List.not_mem_of_not_mem_cons hcancel) hclose
    rw [List.countP_cons]
    omega

/-! ## The mailbox delivers -/

theorem Inv.faithful (h : Inv s) : s.Faithful where
  controls := h.controls ▸ List.prefix_append _ _
  frames := (List.sublist_append_left _ _).trans h.frames
  closed := by
    have hends := h.ends.cancel
    rw [← h.close]
    exact hends
  last := h.last

/-- A writer that waits has no wake-up it did not take. -/
theorem Inv.complete (h : Inv s) (hidle : s.CaughtUp) : s.Complete := by
  obtain ⟨hcancelled, hstuck⟩ := hidle
  have hends := h.ends
  have hresume := hstuck .resume rfl
  have hcontrols := h.controls
  have hnewest := h.newest
  rw [← h.close] at hnewest
  cases hwriter : s.writer with
  | waiting =>
    have hwake := hstuck .wake rfl
    simp only [Browser.step, hwriter, true_and, ite_eq_right_iff, reduceCtorEq, imp_false] at hwake
    have hpending : ¬ s.session.Pending := fun hp => hwake (h.wake (.inl hwriter) hp)
    unfold Session.Pending at hpending
    push Not at hpending
    obtain ⟨hqueued, hframe, hclose⟩ := hpending
    constructor
    · rwa [hqueued, List.append_nil] at hcontrols
    · intro close hfirst
      rw [← h.close, hclose] at hfirst
      cases hfirst
    · intro _
      have hlast := hnewest hclose
      rwa [hframe, Option.toList_none, List.append_nil] at hlast
  | returned =>
    rw [hwriter] at hends
    obtain ⟨hqueued, close, hclose, hending⟩ := hends
    constructor
    · rwa [hqueued, List.append_nil] at hcontrols
    · intro close' hfirst
      rw [← h.close, hclose] at hfirst
      cases hfirst
      exact hending
    · intro hfirst
      rw [← h.close, hclose] at hfirst
      cases hfirst
  | cancelled => exact absurd hwriter hcancelled
  | sendingControl => simp [Browser.step, hwriter] at hresume
  | sendingFrame => simp [Browser.step, hwriter] at hresume
  | sendingError code => simp [Browser.step, hwriter] at hresume
  | sendingClose => simp [Browser.step, hwriter] at hresume

/-- Whatever the interleaving, the socket is handed the controls posted before the first
close in their order, frames among those posted, and the first close last; a writer that
has caught up has left nothing out, and one that is not cancelled does catch up. -/
theorem mailbox_delivers (h : machine.Reach Machine.anyStep s) :
    s.Faithful ∧ (s.CaughtUp → s.Complete) ∧
      ∀ ls t, machine.run s ls = some t → .cancel ∉ ls →
        (s.session.outControls.length < ls.countP Label.isWriter →
          postedControls s.posts <+: sentControls t.sent) ∧
        (firstClose s.posts ≠ none →
          ls.countP Label.isWriter ≤ s.session.outControls.length + 4) := by
  have hinv := reach_inv h
  refine ⟨hinv.faithful, hinv.complete, ?_⟩
  intro ls t hrun hcancel
  constructor
  · intro hmany
    have hlen := congrArg List.length hinv.controls
    rw [List.length_append] at hlen
    have hall : (postedControls s.posts).length ≤ (sentControls t.sent).length := by
      have hlag := s.lag_le
      rcases run_sends ls hinv hrun hcancel le_rfl with hall | hsent <;> omega
    -- both are prefixes of what has been posted by the end
    have ht := reach_inv (h.path (Machine.path_of_run_any hrun))
    exact List.prefix_of_prefix_length_le (run_posted hrun) ht.faithful.controls hall
  · intro hclosed
    obtain ⟨close, hclose⟩ := Option.ne_none_iff_exists'.1 hclosed
    have hrank := run_rank hrun hcancel (hinv.close.trans hclose)
    have hle := s.rank_le
    omega

/-- Posts land while the writer is suspended in a send, and one after the close. -/
def sampleLabels : List (Label Nat Nat) :=
  [.post (.control 1), .wake, .post (.frame 7), .resume, .post (.frame 8), .resume,
    .post (.control 2), .post (.close 4001 (some "gone")), .post (.control 3), .wake, .resume]

/-- The writer is sending the error message of the close. -/
def sample : State Nat Nat := (machine.run start sampleLabels).getD start

theorem mailbox_delivers_sample :
    sample.Faithful ∧ (sample.CaughtUp → sample.Complete) ∧
      ∀ ls t, machine.run sample ls = some t → .cancel ∉ ls →
        (sample.session.outControls.length < ls.countP Label.isWriter →
          postedControls sample.posts <+: sentControls t.sent) ∧
        (firstClose sample.posts ≠ none →
          ls.countP Label.isWriter ≤ sample.session.outControls.length + 4) := by
  have hrun : machine.run start sampleLabels = some sample := rfl
  have hstart : (machine : Machine (State Nat Nat) (Label Nat Nat)).Reach Machine.anyStep start :=
    Machine.Reach.of_init rfl
  exact mailbox_delivers (hstart.path (Machine.path_of_run_any hrun))

end Potocolom.Browser
