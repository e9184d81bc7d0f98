import Potocolom.Events.Stream

/-! # What a stream delivers

A stream that has subscribed before its job's verdict is published yields it. One whose
row was read before the verdict and whose queue joined after it was published has
neither, and waits for good. -/

namespace Potocolom.Events

/-- The verdict is in the stream's hands: in its queue, or in the snapshot to come. -/
def Stream.HasVerdict (s : Stream) : Prop :=
  (∃ v ∈ s.queue, v.terminal) ∨ ∃ state, s.phase = .subscribed state ∧ state.terminal

/-- The stream has the verdict, or is still to be told it. -/
structure Delivers (w : World) (s : Stream) : Prop where
  /-- A stream that returned yielded the job's state last, and it is terminal. -/
  ended : s.phase = .ended → ∃ e ∈ s.yielded.getLast?, e.terminal ∧ e.state = w.row
  /-- An open stream's job has no verdict yet, or its publication is to come, or the
  stream has it. -/
  undecided : s.phase.isOpen → w.row.terminal → w.due.isSome ∨ s.HasVerdict
  /-- No stream is left waiting for what was published. -/
  told : s.phase.isOpen → w.published.isSome → s.HasVerdict
  /-- Nothing follows a terminal event. -/
  last : ∀ e ∈ s.yielded.dropLast, e.terminal = false

/-- A client that read the row without a verdict subscribes before the verdict is
published. -/
def timely (w : World) : Action → Bool
  | .subscribes i =>
    match (w.streams i).phase with
    | .loaded state => state.terminal || w.published.isNone
    | _ => true
  | _ => true

/-! ## The verdict -/

/-- There is one verdict, and it is committed before it is published. -/
structure World.Decided (w : World) : Prop where
  due : ∀ v ∈ w.due, v.terminal ∧ v.state = w.row ∧ w.published = none
  published : ∀ v ∈ w.published, v.terminal ∧ v.state = w.row
  terminal : w.row.terminal → w.due.isSome ∨ w.published.isSome

/-- The verdicts of a world are the same after a step that touches only streams. -/
theorem World.Decided.of_same {w w' : World} (h : w.Decided) (hrow : w'.row = w.row)
    (hdue : w'.due = w.due) (hpublished : w'.published = w.published) : w'.Decided := by
  constructor
  · rw [hrow, hdue, hpublished]
    exact h.due
  · rw [hrow, hpublished]
    exact h.published
  · rw [hrow, hdue, hpublished]
    exact h.terminal

@[simp] theorem setStream_row (w : World) (i : Nat) (s : Stream) :
    (w.setStream i s).row = w.row := rfl

@[simp] theorem setStream_due (w : World) (i : Nat) (s : Stream) :
    (w.setStream i s).due = w.due := rfl

@[simp] theorem setStream_published (w : World) (i : Nat) (s : Stream) :
    (w.setStream i s).published = w.published := rfl

@[simp] theorem setStream_self (w : World) (i : Nat) (s : Stream) :
    (w.setStream i s).streams i = s := Function.update_self ..

theorem setStream_of_ne {w : World} {i j : Nat} {s : Stream} (h : j ≠ i) :
    (w.setStream i s).streams j = w.streams j := Function.update_of_ne h ..

/-- No row, verdict or publication changes while only a stream does. -/
theorem World.Decided.setStream {w : World} (h : w.Decided) (i : Nat) (s : Stream) :
    (w.setStream i s).Decided := h.of_same rfl rfl rfl

theorem World.Decided.publish {w : World} (h : w.Decided) (event : Event) :
    (w.publish event).Decided := h.of_same rfl rfl rfl

theorem decided_step {w w' : World} {l : Action} (h : w.Decided) (hstep : step w l = some w') :
    w'.Decided := by
  cases l with
  | moves state =>
    simp only [step] at hstep
    split at hstep
    · cases hstep
    · next hopen =>
      cases hstep
      have hrow : w.row.terminal = false := by simp_all
      -- a verdict due or published would have made the row terminal
      have hnone : ∀ v : Event, v.terminal → v.state ≠ w.row := by
        intro v hv heq
        rw [Event.terminal, heq, hrow] at hv
        cases hv
      constructor
      · intro v hv
        exact absurd (h.due v hv).2.1 (hnone v (h.due v hv).1)
      · intro v hv
        exact absurd (h.published v hv).2 (hnone v (h.published v hv).1)
      · intro hterminal
        simp_all
  | commits verdict =>
    simp only [step] at hstep
    split at hstep
    · cases hstep
    · next hopen =>
      cases hstep
      have hrow : w.row.terminal = false := by simp_all
      have hverdict : verdict.terminal = true := by simp_all
      have hunpublished : w.published = none := by
        rw [Option.eq_none_iff_forall_ne_some]
        intro v hv
        have hv' := h.published v hv
        rw [← hv'.2] at hrow
        rw [Event.terminal, hrow] at hv'
        cases hv'.1
      constructor
      · intro v hv
        cases hv
        exact ⟨hverdict, rfl, hunpublished⟩
      · intro v hv
        rw [hunpublished] at hv
        cases hv
      · intro _
        exact .inl rfl
  | publishes =>
    simp only [step] at hstep
    split at hstep
    · next verdict hdue =>
      cases hstep
      have hverdict := h.due verdict hdue
      constructor
      · intro v hv
        cases hv
      · intro v hv
        cases hv
        exact ⟨hverdict.1, hverdict.2.1⟩
      · intro _
        exact .inr rfl
    · cases hstep
  | progress event =>
    simp only [step] at hstep
    split at hstep
    · cases hstep
    · cases hstep
      exact h.publish event
  | loads i | subscribes i | snapshots i | delivers i | closes i =>
    simp only [step] at hstep
    split at hstep <;> cases hstep
    exact h.setStream _ _
  | keepalive i =>
    simp only [step] at hstep
    split at hstep <;> cases hstep
    exact h

/-! ## One stream -/

/-- The state that a stream before its snapshot read. -/
def Phase.read : Phase → Option JobState
  | .loaded state | .subscribed state => some state
  | _ => none

/-- What holds of every stream whose client was timely. -/
structure Keeps (w : World) (s : Stream) : Prop where
  read : ∀ state ∈ s.phase.read, state.terminal → state = w.row
  queued : ∀ v ∈ s.queue, v.terminal → w.published = some v
  told : s.phase.isOpen → w.published.isSome → s.HasVerdict
  ended : s.phase = .ended → ∃ e ∈ s.yielded.getLast?, e.terminal ∧ e.state = w.row
  going : s.phase ≠ .ended → s.phase ≠ .closed → ∀ e ∈ s.yielded, e.terminal = false
  last : ∀ e ∈ s.yielded.dropLast, e.terminal = false

namespace Keeps

variable {w w' : World} {s : Stream}

theorem delivers (hw : w.Decided) (h : Keeps w s) : Delivers w s := by
  constructor
  · exact h.ended
  · intro hopen hterminal
    rcases hw.terminal hterminal with hdue | hpublished
    · exact .inl hdue
    · exact .inr (h.told hopen hpublished)
  · exact h.told
  · exact h.last

/-- Another stream's step changes neither row nor publication. -/
theorem of_same (h : Keeps w s) (hrow : w'.row = w.row) (hpublished : w'.published = w.published) :
    Keeps w' s := by
  constructor
  · rw [hrow]
    exact h.read
  · rw [hpublished]
    exact h.queued
  · rw [hpublished]
    exact h.told
  · rw [hrow]
    exact h.ended
  · exact h.going
  · exact h.last

/-- While the row has no verdict no stream has read or yielded one, so it may change. -/
theorem of_open (h : Keeps w s) (hrow : w.row.terminal = false)
    (hpublished : w'.published = w.published) : Keeps w' s := by
  constructor
  · intro state hstate hterminal
    have heq := h.read state hstate hterminal
    rw [heq, hrow] at hterminal
    cases hterminal
  · rw [hpublished]
    exact h.queued
  · rw [hpublished]
    exact h.told
  · intro hended
    obtain ⟨e, _, hterminal, heq⟩ := h.ended hended
    rw [Event.terminal, heq, hrow] at hterminal
    cases hterminal
  · exact h.going
  · exact h.last

@[simp] theorem receive_phase (event : Event) : (s.receive event).phase = s.phase := by
  unfold Stream.receive
  split <;> rfl

@[simp] theorem receive_yielded (event : Event) : (s.receive event).yielded = s.yielded := by
  unfold Stream.receive
  split <;> rfl

/-- What is not terminal never takes the place of what is. -/
theorem publishTo_terminal {queue : Option Event} {event v : Event} (he : event.terminal = false)
    (hv : v.terminal) : publishTo queue event = some v ↔ queue = some v := by
  have hne : event ≠ v := by
    intro heq
    rw [heq, hv] at he
    cases he
  unfold publishTo
  rw [if_neg (by simp [he])]
  cases queue with
  | none => simpa using hne
  | some queued =>
    dsimp only
    by_cases hq : queued.terminal
    · rw [if_pos hq]
    · rw [if_neg hq]
      constructor
      · intro heq
        exact absurd (Option.some.inj heq) hne
      · intro heq
        rw [Option.some.inj heq] at hq
        exact absurd hv hq

theorem receive_terminal {event v : Event} (he : event.terminal = false) (hv : v.terminal) :
    (s.receive event).queue = some v ↔ s.queue = some v := by
  unfold Stream.receive
  split
  · exact publishTo_terminal he hv
  · exact Iff.rfl

/-- Progress leaves a verdict where it is. -/
theorem progress {event : Event} (h : Keeps w s) (he : event.terminal = false) :
    Keeps w (s.receive event) := by
  constructor
  · rw [receive_phase]
    exact h.read
  · intro v hv hterminal
    exact h.queued v ((receive_terminal he hterminal).1 hv) hterminal
  · rw [receive_phase]
    intro hopen hpublished
    rcases h.told hopen hpublished with ⟨v, hv, hterminal⟩ | ⟨state, hphase, hterminal⟩
    · exact .inl ⟨v, (receive_terminal he hterminal).2 hv, hterminal⟩
    · exact .inr ⟨state, by rw [receive_phase, hphase], hterminal⟩
  · rw [receive_phase, receive_yielded]
    exact h.ended
  · rw [receive_phase, receive_yielded]
    exact h.going
  · rw [receive_yielded]
    exact h.last

/-- The verdict reaches every queue in `subscribers`. -/
theorem verdict {v : Event} (h : Keeps w s) (hv : v.terminal) (hunpublished : w.published = none)
    (hrow : w'.row = w.row) (hpublished : w'.published = some v) : Keeps w' (s.receive v) := by
  have hopen : s.phase.isOpen → (s.receive v).queue = some v := by
    intro hopen
    rw [Stream.receive, if_pos hopen]
    exact if_pos hv
  constructor
  · rw [receive_phase, hrow]
    exact h.read
  · intro u hu hterminal
    rw [hpublished]
    by_cases hphase : s.phase.isOpen
    · rw [hopen hphase] at hu
      exact hu
    · rw [Stream.receive, if_neg hphase] at hu
      have hold := h.queued u hu hterminal
      rw [hunpublished] at hold
      cases hold
  · rw [receive_phase]
    intro hphase _
    exact .inl ⟨v, hopen hphase, hv⟩
  · rw [receive_phase, receive_yielded, hrow]
    exact h.ended
  · rw [receive_phase, receive_yielded]
    exact h.going
  · rw [receive_yielded]
    exact h.last

theorem load (h : Keeps w s) (hphase : s.phase = .idle) :
    Keeps w { s with phase := .loaded w.row } := by
  constructor
  · intro state hstate _
    exact (Option.some.inj hstate).symm
  · exact h.queued
  · intro hopen
    cases hopen
  · intro hended
    cases hended
  · intro _ _
    exact h.going (by simp [hphase]) (by simp [hphase])
  · exact h.last

theorem subscribe {state : JobState} (h : Keeps w s) (hphase : s.phase = .loaded state)
    (htimely : state.terminal ∨ w.published = none) :
    Keeps w { s with phase := .subscribed state, queue := none } := by
  constructor
  · intro state' hstate
    exact h.read state' (by rw [hphase]; exact hstate)
  · intro v hv
    cases hv
  · intro _ hpublished
    rcases htimely with hterminal | hunpublished
    · exact .inr ⟨state, rfl, hterminal⟩
    · rw [hunpublished] at hpublished
      cases hpublished
  · intro hended
    cases hended
  · intro _ _
    exact h.going (by simp [hphase]) (by simp [hphase])
  · exact h.last

/-- An event is yielded by a stream that yielded nothing terminal yet. -/
theorem emit {event : Event} {queue : Option Event}
    (hyielded : ∀ e ∈ s.yielded, e.terminal = false)
    (hrow : event.terminal → event.state = w.row)
    (hqueue : ∀ v ∈ queue, v.terminal → w.published = some v)
    (htold : event.terminal = false → w.published.isSome → ∃ v ∈ queue, v.terminal) :
    Keeps w ({ s with queue := queue }.emit event) := by
  have hgoing : ({ s with queue := queue }.emit event).phase ≠ .ended →
      event.terminal = false := by
    intro hphase
    by_contra hterminal
    exact hphase (if_pos (by simpa using hterminal))
  constructor
  · intro state hstate
    simp only [Stream.emit] at hstate
    split at hstate <;> cases hstate
  · exact hqueue
  · intro hopen hpublished
    have hwaits : event.terminal = false := by
      apply hgoing
      intro hended
      rw [hended] at hopen
      cases hopen
    exact .inl (htold hwaits hpublished)
  · intro hended
    have hterminal : event.terminal := by
      by_contra hwaits
      have hphase : ({ s with queue := queue }.emit event).phase = .waiting := if_neg hwaits
      rw [hphase] at hended
      cases hended
    exact ⟨event, by simp [Stream.emit], hterminal, hrow hterminal⟩
  · intro hphase _ e he
    rcases List.mem_append.1 he with he | he
    · exact hyielded e he
    · rw [List.mem_singleton.1 he]
      exact hgoing hphase
  · intro e he
    apply hyielded
    simpa [Stream.emit] using he

theorem snapshot {state : JobState} (h : Keeps w s) (hphase : s.phase = .subscribed state) :
    Keeps w (s.emit ⟨state, []⟩) := by
  refine emit (h.going (by simp [hphase]) (by simp [hphase])) ?_ h.queued ?_
  · intro hterminal
    exact h.read state (by rw [hphase]; rfl) hterminal
  · intro hwaits hpublished
    have hopen : s.phase.isOpen := by rw [hphase]; rfl
    rcases h.told hopen hpublished with hqueued | ⟨state', hphase', hterminal⟩
    · exact hqueued
    · -- the snapshot itself is not terminal
      rw [hphase] at hphase'
      cases hphase'
      rw [Event.terminal, hterminal] at hwaits
      cases hwaits

theorem deliver {event : Event} (hw : w.Decided) (h : Keeps w s) (hphase : s.phase = .waiting)
    (hqueue : s.queue = some event) : Keeps w ({ s with queue := none }.emit event) := by
  refine emit (h.going (by simp [hphase]) (by simp [hphase])) ?_ ?_ ?_
  · intro hterminal
    exact (hw.published event (h.queued event hqueue hterminal)).2
  · intro v hv
    cases hv
  · -- what is taken from the queue after the publication is the verdict
    intro hwaits hpublished
    rcases h.told (by rw [hphase]; rfl) hpublished with ⟨v, hv, hterminal⟩ | ⟨_, hphase', _⟩
    · rw [hqueue] at hv
      cases hv
      rw [hwaits] at hterminal
      cases hterminal
    · rw [hphase] at hphase'
      cases hphase'

theorem close (h : Keeps w s) : Keeps w { s with phase := .closed } := by
  constructor
  · intro state hstate
    cases hstate
  · exact h.queued
  · intro hopen
    cases hopen
  · intro hended
    cases hended
  · intro _ hclosed
    exact absurd rfl hclosed
  · exact h.last

end Keeps

/-! ## Every run -/

/-- Every stream keeps what it should. -/
def AllKeep (w : World) : Prop := ∀ i, Keeps w (w.streams i)

/-- A step of one stream leaves the others as they were. -/
theorem AllKeep.setStream {w : World} {i : Nat} {s : Stream} (h : AllKeep w) (hs : Keeps w s) :
    AllKeep (w.setStream i s) := by
  intro j
  by_cases hj : j = i
  · subst hj
    rw [setStream_self]
    exact hs.of_same rfl rfl
  · rw [setStream_of_ne hj]
    exact (h j).of_same rfl rfl

theorem allKeep_step {w w' : World} {l : Action} (hw : w.Decided) (h : AllKeep w)
    (hok : timely w l) (hstep : step w l = some w') : AllKeep w' := by
  cases l with
  | moves state =>
    simp only [step] at hstep
    split at hstep <;> cases hstep
    intro i
    exact (h i).of_open (by simp_all) rfl
  | commits verdict =>
    simp only [step] at hstep
    split at hstep <;> cases hstep
    intro i
    exact (h i).of_open (by simp_all) rfl
  | publishes =>
    simp only [step] at hstep
    split at hstep
    · next verdict hdue =>
      cases hstep
      have hverdict := hw.due verdict hdue
      intro i
      exact (h i).verdict hverdict.1 hverdict.2.2 rfl rfl
    · cases hstep
  | progress event =>
    simp only [step] at hstep
    split at hstep <;> cases hstep
    intro i
    have hi : Keeps w ((w.streams i).receive event) := (h i).progress (by simp_all)
    exact hi.of_same rfl rfl
  | loads i =>
    simp only [step] at hstep
    split at hstep
    · next hphase =>
      cases hstep
      exact h.setStream ((h i).load hphase)
    · cases hstep
  | subscribes i =>
    simp only [step] at hstep
    split at hstep
    · next state hphase =>
      cases hstep
      refine h.setStream ((h i).subscribe hphase ?_)
      simpa [timely, hphase] using hok
    · cases hstep
  | snapshots i =>
    simp only [step] at hstep
    split at hstep
    · next state hphase =>
      cases hstep
      exact h.setStream ((h i).snapshot hphase)
    · cases hstep
  | delivers i =>
    simp only [step] at hstep
    split at hstep
    · next event hphase hqueue =>
      cases hstep
      exact h.setStream ((h i).deliver hw hphase hqueue)
    · cases hstep
  | keepalive i =>
    simp only [step] at hstep
    split at hstep <;> cases hstep
    exact h
  | closes i =>
    simp only [step] at hstep
    split at hstep
    · cases hstep
    · cases hstep
      exact h.setStream (h i).close

theorem decided_created : created.Decided := by
  constructor
  · intro v hv
    cases hv
  · intro v hv
    cases hv
  · intro hterminal
    cases hterminal

theorem allKeep_created : AllKeep created := by
  intro i
  constructor
  · intro state hstate
    cases hstate
  · intro v hv
    cases hv
  · intro hopen
    cases hopen
  · intro hended
    cases hended
  · intro _ _ e he
    cases he
  · intro e he
    cases he

theorem reach_decided {ok : World → Action → Prop} {w : World} (h : machine.Reach ok w) :
    w.Decided := by
  refine Machine.Reach.invariant (I := World.Decided) ?_ ?_ h
  · intro s hs
    cases hs
    exact decided_created
  · intro s l t hs _ hstep
    exact decided_step hs hstep

theorem reach_allKeep {w : World} (h : machine.Reach (fun w l => timely w l) w) : AllKeep w := by
  refine Machine.Reach.invariant_of (J := AllKeep) (fun s hs => reach_decided hs) ?_ ?_ h
  · intro s hs
    cases hs
    exact allKeep_created
  · intro s l t hw hs hok hstep
    exact allKeep_step hw hs hok hstep

/-! ## After the publication -/

/-- How a stream changes once the verdict is out. -/
inductive Stream.Late (s : Stream) : Stream → Prop where
  | stay : Stream.Late s s
  | progress {event : Event} : event.terminal = false → Stream.Late s (s.receive event)
  | load {state : JobState} : s.phase = .idle → Stream.Late s { s with phase := .loaded state }
  | subscribe {state : JobState} : s.phase = .loaded state →
      Stream.Late s { s with phase := .subscribed state, queue := none }
  | snapshot {state : JobState} : s.phase = .subscribed state → Stream.Late s (s.emit ⟨state, []⟩)
  | deliver {event : Event} : s.phase = .waiting → s.queue = some event →
      Stream.Late s ({ s with queue := none }.emit event)
  | close : s.phase ≠ .ended → Stream.Late s { s with phase := .closed }

/-- The step of one stream is a late step of each. -/
theorem late_setStream {w : World} {i : Nat} {s : Stream} (hs : (w.streams i).Late s) (j : Nat) :
    (w.streams j).Late ((w.setStream i s).streams j) := by
  by_cases hj : j = i
  · subst hj
    rw [setStream_self]
    exact hs
  · rw [setStream_of_ne hj]
    exact .stay

/-- There is no second verdict: the row is terminal and nothing is due. -/
theorem late_step {w w' : World} {l : Action} (hw : w.Decided) (hpublished : w.published.isSome)
    (hstep : step w l = some w') :
    w'.published = w.published ∧ ∀ j, (w.streams j).Late (w'.streams j) := by
  obtain ⟨u, hu⟩ := Option.isSome_iff_exists.1 hpublished
  have hrow : w.row.terminal = true := by
    have hverdict := hw.published u hu
    rw [← hverdict.2]
    exact hverdict.1
  cases l with
  | moves state | commits verdict =>
    simp [step, hrow] at hstep
  | publishes =>
    simp only [step] at hstep
    split at hstep
    · next verdict hdue =>
      have hunpublished := (hw.due verdict hdue).2.2
      rw [hu] at hunpublished
      cases hunpublished
    · cases hstep
  | progress event =>
    simp only [step] at hstep
    split at hstep <;> cases hstep
    exact ⟨rfl, fun j => .progress (by simp_all)⟩
  | loads i =>
    simp only [step] at hstep
    split at hstep
    · next hphase =>
      cases hstep
      exact ⟨rfl, late_setStream (.load hphase)⟩
    · cases hstep
  | subscribes i =>
    simp only [step] at hstep
    split at hstep
    · next hphase =>
      cases hstep
      exact ⟨rfl, late_setStream (.subscribe hphase)⟩
    · cases hstep
  | snapshots i =>
    simp only [step] at hstep
    split at hstep
    · next hphase =>
      cases hstep
      exact ⟨rfl, late_setStream (.snapshot hphase)⟩
    · cases hstep
  | delivers i =>
    simp only [step] at hstep
    split at hstep
    · next hphase hqueue =>
      cases hstep
      exact ⟨rfl, late_setStream (.deliver hphase hqueue)⟩
    · cases hstep
  | keepalive i =>
    simp only [step] at hstep
    split at hstep <;> cases hstep
    exact ⟨rfl, fun j => .stay⟩
  | closes i =>
    simp only [step] at hstep
    split at hstep
    · cases hstep
    · next hphase =>
      cases hstep
      exact ⟨rfl, late_setStream (.close hphase)⟩

/-- What late steps keep of a stream, a run after the publication keeps. -/
theorem late_run {I : Stream → Prop} (hkeep : ∀ s s', I s → s.Late s' → I s') {w w' : World}
    (hw : w.Decided) (hpublished : w.published.isSome) {i : Nat} (hi : I (w.streams i))
    (hpath : machine.Path Machine.anyStep w w') : I (w'.streams i) := by
  have hall : w'.Decided ∧ w'.published.isSome ∧ I (w'.streams i) := by
    refine Machine.Path.invariant
      (I := fun w => w.Decided ∧ w.published.isSome ∧ I (w.streams i)) ?_ hpath
      ⟨hw, hpublished, hi⟩
    rintro s l t ⟨hs, hout, hkept⟩ _ hstep
    have hlate := late_step hs hout hstep
    exact ⟨decided_step hs hstep, hlate.1 ▸ hout, hkeep _ _ hkept (hlate.2 i)⟩
  exact hall.2.2

/-- A stream that has missed the verdict: open without it, or closed. -/
structure Stream.Missed (s : Stream) : Prop where
  live : s.phase.isOpen ∨ s.phase = .closed
  without : ¬ s.HasVerdict
  yielded : ∀ e ∈ s.yielded, e.terminal = false

theorem Stream.Missed.late {s s' : Stream} (h : s.Missed) (hlate : s.Late s') : s'.Missed := by
  cases hlate with
  | stay => exact h
  | progress he =>
    constructor
    · rw [Keeps.receive_phase]
      exact h.live
    · rintro (⟨v, hv, hterminal⟩ | ⟨state, hphase, hterminal⟩)
      · exact h.without (.inl ⟨v, (Keeps.receive_terminal he hterminal).1 hv, hterminal⟩)
      · rw [Keeps.receive_phase] at hphase
        exact h.without (.inr ⟨state, hphase, hterminal⟩)
    · rw [Keeps.receive_yielded]
      exact h.yielded
  | load hphase =>
    rcases h.live with hlive | hlive
    · rw [hphase] at hlive
      cases hlive
    · rw [hphase] at hlive
      cases hlive
  | subscribe hphase =>
    rcases h.live with hlive | hlive
    · rw [hphase] at hlive
      cases hlive
    · rw [hphase] at hlive
      cases hlive
  | @snapshot state hphase =>
    have hwaits : state.terminal = false := by
      by_contra hterminal
      exact h.without (.inr ⟨state, hphase, by simpa using hterminal⟩)
    have hphase' : (s.emit ⟨state, []⟩).phase = .waiting := if_neg (by simp [Event.terminal, hwaits])
    constructor
    · rw [hphase']
      exact .inl rfl
    · rintro (hqueued | ⟨state', hsubscribed, _⟩)
      · exact h.without (.inl hqueued)
      · rw [hphase'] at hsubscribed
        cases hsubscribed
    · intro e he
      rcases List.mem_append.1 he with he | he
      · exact h.yielded e he
      · rw [List.mem_singleton.1 he]
        exact hwaits
  | @deliver event hphase hqueue =>
    have hwaits : event.terminal = false := by
      by_contra hterminal
      exact h.without (.inl ⟨event, hqueue, by simpa using hterminal⟩)
    have hphase' : ({ s with queue := none }.emit event).phase = .waiting :=
      if_neg (by simp [hwaits])
    constructor
    · rw [hphase']
      exact .inl rfl
    · rintro (⟨v, hv, _⟩ | ⟨state', hsubscribed, _⟩)
      · cases hv
      · rw [hphase'] at hsubscribed
        cases hsubscribed
    · intro e he
      rcases List.mem_append.1 he with he | he
      · exact h.yielded e he
      · rw [List.mem_singleton.1 he]
        exact hwaits
  | close hphase =>
    constructor
    · exact .inr rfl
    · rintro (hqueued | ⟨state, hsubscribed, _⟩)
      · exact h.without (.inl hqueued)
      · cases hsubscribed
    · exact h.yielded

/-- What becomes of a stream whose queue holds `v`, having yielded `events`. -/
inductive Stream.Holds (v : Event) (events : List Event) (s : Stream) : Prop where
  | queued : s.phase = .waiting → s.queue = some v → s.yielded = events → s.Holds v events
  | yielded : s.phase = .ended → s.yielded = events ++ [v] → s.Holds v events
  | left : s.phase = .closed → s.yielded = events → s.Holds v events

/-- Nothing takes the place of a terminal event, and it is the next one yielded. -/
theorem Stream.Holds.late {v : Event} (hv : v.terminal) {events : List Event} {s s' : Stream}
    (h : s.Holds v events) (hlate : s.Late s') : s'.Holds v events := by
  cases hlate with
  | stay => exact h
  | progress he =>
    cases h with
    | queued hphase hqueue hyielded =>
      refine .queued ?_ ((Keeps.receive_terminal he hv).2 hqueue) ?_
      · rw [Keeps.receive_phase, hphase]
      · rw [Keeps.receive_yielded, hyielded]
    | yielded hphase hyielded =>
      refine .yielded ?_ ?_
      · rw [Keeps.receive_phase, hphase]
      · rw [Keeps.receive_yielded, hyielded]
    | left hphase hyielded =>
      refine .left ?_ ?_
      · rw [Keeps.receive_phase, hphase]
      · rw [Keeps.receive_yielded, hyielded]
  | load hphase => cases h <;> simp_all
  | subscribe hphase => cases h <;> simp_all
  | snapshot hphase => cases h <;> simp_all
  | deliver hphase hqueue =>
    cases h with
    | queued _ hqueue' hyielded =>
      rw [hqueue] at hqueue'
      cases hqueue'
      refine .yielded (if_pos hv) ?_
      rw [Stream.emit, hyielded]
    | yielded hphase' _ => simp_all
    | left hphase' _ => simp_all
  | close hphase =>
    cases h with
    | queued _ _ hyielded => exact .left rfl hyielded
    | yielded hphase' _ => exact absurd hphase' hphase
    | left _ hyielded => exact .left rfl hyielded

/-! ## The result -/

/-- In every run whose clients subscribe before the verdict they have not read is
published, each stream delivers it: an open stream has the verdict or is still to be
told it, a stream that returned yielded it last, and once it is queued it is the next
event yielded. A client that subscribes later than that never hears it. -/
theorem verdict_delivered {w : World} (hw : machine.Reach (fun w l => timely w l) w) (i : Nat) :
    Delivers w (w.streams i) ∧
      (∀ v, (w.streams i).phase = .waiting → (w.streams i).queue = some v → v.terminal →
        ∀ w', machine.Path Machine.anyStep w w' →
          (w'.streams i).Holds v (w.streams i).yielded) ∧
      ∀ w', step w (.subscribes i) = some w' → ¬ timely w (.subscribes i) →
        ∀ u, machine.Path Machine.anyStep w' u →
          ¬ Delivers w' (w'.streams i) ∧ (u.streams i).Missed := by
  refine ⟨?_, ?_, ?_⟩
  · exact (reach_allKeep hw i).delivers (reach_decided hw)
  · intro v hphase hqueue hv w' hpath
    have hpublished := (reach_allKeep hw i).queued v hqueue hv
    refine late_run (fun s s' h hlate => h.late hv hlate) (reach_decided hw) ?_
      (.queued hphase hqueue rfl) hpath
    rw [hpublished]
    rfl
  · intro w' hstep hlate u hpath
    have hdecided := decided_step (reach_decided hw) hstep
    simp only [step] at hstep
    split at hstep
    · next state hphase =>
      cases hstep
      simp only [timely, hphase, Bool.or_eq_true, not_or, Bool.not_eq_true] at hlate
      have hpublished : w.published.isSome := by
        cases hp : w.published with
        | none => simp [hp] at hlate
        | some v => rfl
      -- the row was read without a verdict, and the fresh queue has none
      have hmissed : ({ w.streams i with phase := .subscribed state, queue := none } :
          Stream).Missed := by
        constructor
        · exact .inl rfl
        · rintro (⟨v, hv, _⟩ | ⟨state', heq, hterminal⟩)
          · cases hv
          · cases heq
            rw [hlate.1] at hterminal
            cases hterminal
        · exact (reach_allKeep hw i).going (by simp [hphase]) (by simp [hphase])
      have hi : ((w.setStream i { w.streams i with
          phase := .subscribed state, queue := none }).streams i).Missed := by
        rw [setStream_self]
        exact hmissed
      refine ⟨?_, late_run (fun s s' h hs => h.late hs) hdecided hpublished hi hpath⟩
      intro hdelivers
      refine hi.without (hdelivers.told ?_ hpublished)
      rw [setStream_self]
      rfl
    · cases hstep

/-- A client that subscribes while the job runs. -/
def sampleActions : List Action :=
  [.moves .running, .loads 0, .subscribes 0, .commits ⟨.succeeded, []⟩, .publishes,
   .progress ⟨.running, []⟩, .snapshots 0, .delivers 0]

/-- It is told that the job succeeded, last. -/
theorem verdict_delivered_sample :
    ∃ w, machine.run created sampleActions = some w ∧ (w.streams 0).phase = .ended ∧
      ∃ e ∈ (w.streams 0).yielded.getLast?, e.terminal ∧ e.state = .succeeded := by
  obtain ⟨w, hw, hended, hrow⟩ : ∃ w, machine.run created sampleActions = some w ∧
      (w.streams 0).phase = .ended ∧ w.row = .succeeded :=
    ⟨_, rfl, rfl, rfl⟩
  have hok : machine.RunOk (fun w l => timely w l) created sampleActions := by
    decide +kernel
  have hreach : machine.Reach (fun w l => timely w l) w :=
    ⟨created, rfl, Machine.path_of_run hw hok⟩
  have hdelivers := (verdict_delivered hreach 0).1
  obtain ⟨e, he, hterminal, hstate⟩ := hdelivers.ended hended
  exact ⟨w, hw, hended, e, he, hterminal, hstate.trans hrow⟩

/-- The row is read while the job runs, and the generator first runs after the verdict
was published: the stream opens and waits. -/
def lateActions : List Action :=
  [.moves .running, .loads 0, .commits ⟨.succeeded, []⟩, .publishes, .subscribes 0,
   .snapshots 0, .keepalive 0]

theorem verdict_missed :
    ¬ ∀ w, machine.Reach Machine.anyStep w → ∀ i, Delivers w (w.streams i) := by
  intro hall
  obtain ⟨w, hw, hopen, hpublished, hqueue⟩ : ∃ w, machine.run created lateActions = some w ∧
      (w.streams 0).phase = .waiting ∧ w.published.isSome ∧ (w.streams 0).queue = none :=
    ⟨_, rfl, rfl, rfl, rfl⟩
  have hreach : machine.Reach Machine.anyStep w :=
    ⟨created, rfl, Machine.path_of_run_any hw⟩
  have hdelivers := hall w hreach 0
  rcases hdelivers.told (by rw [hopen]; rfl) hpublished with ⟨v, hv, _⟩ | ⟨_, hphase, _⟩
  · rw [hqueue] at hv
    cases hv
  · rw [hopen] at hphase
    cases hphase

end Potocolom.Events
