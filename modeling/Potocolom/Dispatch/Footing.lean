import Potocolom.Dispatch.Steps

/-! # Where a job is kept

A queued job is kept by its hint, by `lost_jobs`, by an entry of `inflight` or by the step that
took its hint; a running job by `lost_jobs`, by an entry or by the requeue that took it from
there. An entry keeps a job only when it is not of an earlier attempt than the row: the verdict
on an earlier attempt gives its entry up and leaves the row alone. -/

namespace Potocolom.Dispatch

/-- What keeping a job depends on. -/
structure Footing where
  rows : Nat → Option Row
  doubt : Nat → Option Doubt
  hints : List Hint
  lostJobs : List Nat
  inflight : Ordered Nat Entry
  tasks : List Task

def World.footing (s : World) : Footing :=
  ⟨s.rows, s.doubt, s.hints, s.lostJobs, s.inflight, s.tasks⟩

/-- The report gives its entry up as soon as it is handled. -/
def ReportStage.Clears : ReportStage → Prop
  | .charging | .clearing => True
  | _ => False

namespace Phase

/-- The hints that the step took from the queue. -/
def parked : Phase → List Hint
  | .scanning skipped => skipped
  | .dispatching h skipped _ => h :: skipped
  | _ => []

/-- The job that the step is requeuing. -/
def requeues : Phase → Option Nat
  | .requeuing _ j _ => some j
  | _ => none

end Phase

namespace Footing

variable (f : Footing)

def Hinted (j : Nat) : Prop := ∃ h ∈ f.hints, h.job = j

/-- The job is in `lost_jobs`, or in `inflight` at this attempt or a later one. -/
def Tracked (j attempt : Nat) : Prop :=
  j ∈ f.lostJobs ∨ ∃ e, f.inflight.get j = some e ∧ attempt ≤ e.attempt

/-- The row is queued, and its lock is the dispatch's. -/
def Locked (j : Nat) : Prop :=
  ∃ row, f.rows j = some row ∧ row.state = .queued ∧ f.doubt j = none

/-- The job does not need its hint. -/
def Published (j : Nat) : Prop :=
  ∀ row, f.rows j = some row → row.state = .queued → f.Tracked j row.attempt

/-- The job is at the attempt that was read, or done with. -/
def ReadAs (j attempt : Nat) : Prop :=
  (∀ row, f.rows j = some row → row.state.terminal = false → row.attempt ≤ attempt) ∧
    ∀ d, f.doubt j = some d → d.row.state.terminal = false → d.row.attempt ≤ attempt

/-- The job is done with. -/
def Over (j : Nat) : Prop := ∀ row, f.rows j = some row → row.state.terminal = true

/-- The job is kept, while a step holds these hints and requeues this job. -/
structure Safe (parked : List Hint) (requeues : Option Nat) (j : Nat) : Prop where
  queued : ∀ row, f.rows j = some row → row.state = .queued →
    f.Hinted j ∨ f.Tracked j row.attempt ∨ (∃ h ∈ parked, h.job = j) ∨ requeues = some j
  running : ∀ row, f.rows j = some row → row.state = .running →
    f.Tracked j row.attempt ∨ requeues = some j
  doubt : ∀ d, f.doubt j = some d →
    ∃ row, f.rows j = some row ∧ row.state.terminal = false ∧ row.attempt ≤ d.row.attempt
  doubtRunning : ∀ d row, f.doubt j = some d → f.rows j = some row → d.row.state = .running →
    d.row.attempt ≤ row.attempt ∧ (f.Tracked j d.row.attempt ∨ requeues = some j)
  doubtQueued : ∀ d row, f.doubt j = some d → f.rows j = some row → d.row.state = .queued →
    row.state ≠ .queued ∧ (j ∈ f.lostJobs ∨ requeues = some j)
  clearing : ∀ t ∈ f.tasks, t.job = j → t.stage.Clears → ∀ row, f.rows j = some row →
    row.state.terminal = false → t.current.attempt < row.attempt

/-- What the stage of the step relies on. -/
def Staged : Phase → Prop
  | .requeuing _ j .purging => f.Over j
  | .dispatching h _ (.targets _) | .dispatching h _ .dropping => f.Locked h.job
  | .dispatching h _ (.fetching _) | .dispatching h _ (.sending _)
  | .dispatching h _ (.committing _) => f.Locked h.job ∧ f.Published h.job
  | .dispatching h _ (.targeting _ attempt _) => f.ReadAs h.job attempt
  | .dispatching h _ (.claiming _ _) | .dispatching h _ (.probing _ _)
  | .dispatching h _ .delivering => f.Published h.job
  | _ => True

end Footing

/-- What holds between two steps. -/
structure Kept (s : World) : Prop where
  safe : ∀ j, s.footing.Safe s.phase.parked s.phase.requeues j
  staged : s.footing.Staged s.phase

/-! ## Rules for one job -/

section Safe

variable {f g : Footing} {p : Phase} {parked parked' : List Hint} {requeues requeues' : Option Nat}
  {j : Nat} {row : Row}

theorem JobState.active_iff {x : JobState} :
    x.terminal = false ↔ x = .queued ∨ x = .running := by
  cases x <;> simp [JobState.terminal]

namespace Footing

/-- A change that keeps the row of the job and takes away what kept the job only for something
else that keeps it. -/
theorem Safe.mono (hs : f.Safe parked requeues j) (hrows : g.rows j = f.rows j)
    (hdoubt : g.doubt j = f.doubt j)
    (htasks : ∀ t ∈ g.tasks, t.job = j → t.stage.Clears → t ∈ f.tasks)
    (hhinted : f.Hinted j → g.Hinted j ∨ (∃ h ∈ parked', h.job = j) ∨ g.Published j)
    (hlost : j ∈ f.lostJobs → j ∈ g.lostJobs ∨ requeues' = some j)
    (hget : ∀ e row, f.inflight.get j = some e → f.rows j = some row →
      row.state.terminal = false → row.attempt ≤ e.attempt →
      g.inflight.get j = some e ∨ j ∈ g.lostJobs ∨ requeues' = some j)
    (hparked : (∃ h ∈ parked, h.job = j) →
      g.Hinted j ∨ (∃ h ∈ parked', h.job = j) ∨ g.Published j)
    (hrequeues : requeues = some j → j ∈ g.lostJobs ∨ requeues' = some j) :
    g.Safe parked' requeues' j := by
  have hor : ∀ attempt, j ∈ g.lostJobs ∨ requeues' = some j →
      g.Tracked j attempt ∨ requeues' = some j := fun attempt h => h.imp .inl id
  have htracked : ∀ row attempt, f.rows j = some row → row.state.terminal = false →
      row.attempt ≤ attempt → f.Tracked j attempt → g.Tracked j attempt ∨ requeues' = some j := by
    rintro row attempt hrow hactive hattempt (h | ⟨e, he, hle⟩)
    · exact hor attempt (hlost h)
    · rcases hget e row he hrow hactive (hattempt.trans hle) with he | h
      · exact .inl (.inr ⟨e, he, hle⟩)
      · exact hor attempt h
  refine ⟨fun row hrow hstate => ?_, fun row hrow hstate => ?_, fun d hd => ?_,
    fun d row hd hrow hstate => ?_, fun d row hd hrow hstate => ?_,
    fun t ht hj hclears row hrow => ?_⟩
  · have hkept : (g.Hinted j ∨ (∃ h ∈ parked', h.job = j) ∨ g.Published j) →
        g.Hinted j ∨ g.Tracked j row.attempt ∨ (∃ h ∈ parked', h.job = j) ∨ requeues' = some j := by
      rintro (h | h | h)
      · exact .inl h
      · exact .inr (.inr (.inl h))
      · exact .inr (.inl (h row hrow hstate))
    rw [hrows] at hrow
    have hactive := JobState.active_iff.mpr (.inl hstate)
    rcases hs.queued row hrow hstate with h | h | h | h
    · exact hkept (hhinted h)
    · rcases htracked row _ hrow hactive le_rfl h with h | h
      · exact .inr (.inl h)
      · exact .inr (.inr (.inr h))
    · exact hkept (hparked h)
    · rcases hor row.attempt (hrequeues h) with h | h
      · exact .inr (.inl h)
      · exact .inr (.inr (.inr h))
  · rw [hrows] at hrow
    have hactive := JobState.active_iff.mpr (.inr hstate)
    rcases hs.running row hrow hstate with h | h
    · exact htracked row _ hrow hactive le_rfl h
    · exact hor _ (hrequeues h)
  · rw [hdoubt] at hd
    rw [hrows]
    exact hs.doubt d hd
  · rw [hdoubt] at hd
    rw [hrows] at hrow
    obtain ⟨hle, h⟩ := hs.doubtRunning d row hd hrow hstate
    refine ⟨hle, ?_⟩
    rcases h with h | h
    · obtain ⟨row', hrow', hactive, hge⟩ := hs.doubt d hd
      exact htracked row' _ hrow' hactive hge h
    · exact hor _ (hrequeues h)
  · rw [hdoubt] at hd
    rw [hrows] at hrow
    obtain ⟨hne, h⟩ := hs.doubtQueued d row hd hrow hstate
    exact ⟨hne, h.elim hlost hrequeues⟩
  · rw [hrows] at hrow
    exact hs.clearing t (htasks t ht hj hclears) hj hclears row hrow

/-- The step moves on; nothing else changes. -/
theorem Safe.phase (hs : f.Safe parked requeues j)
    (hparked : (∃ h ∈ parked, h.job = j) →
      f.Hinted j ∨ (∃ h ∈ parked', h.job = j) ∨ f.Published j)
    (hrequeues : requeues = some j → j ∈ f.lostJobs ∨ requeues' = some j) :
    f.Safe parked' requeues' j :=
  hs.mono rfl rfl (fun _ ht _ _ => ht) .inl .inl (fun _ _ he _ _ _ => .inl he) hparked hrequeues

theorem Safe.doubt_none (hs : f.Safe parked requeues j) (hover : f.Over j) :
    f.doubt j = none := by
  rcases hdoubt : f.doubt j with _ | d
  · rfl
  · obtain ⟨row, hrow, hactive, -⟩ := hs.doubt d hdoubt
    rw [hover row hrow] at hactive
    cases hactive

theorem Safe.ofOver (hover : f.Over j) (hdoubt : f.doubt j = none) :
    f.Safe parked requeues j := by
  refine ⟨fun row hrow hstate => ?_, fun row hrow hstate => ?_, fun d hd => ?_,
    fun d row hd => ?_, fun d row hd => ?_, fun t _ _ _ row hrow hactive => ?_⟩
  · have := hover row hrow
    rw [hstate] at this
    cases this
  · have := hover row hrow
    rw [hstate] at this
    cases this
  · rw [hdoubt] at hd
    cases hd
  · rw [hdoubt] at hd
    cases hd
  · rw [hdoubt] at hd
    cases hd
  · rw [hover row hrow] at hactive
    cases hactive

/-- The reports on the job that give their entries up are on earlier attempts. -/
def ClearsEarlier (f : Footing) (j attempt : Nat) : Prop :=
  ∀ t ∈ f.tasks, t.job = j → t.stage.Clears → t.current.attempt < attempt

theorem Safe.clearsEarlier (hs : f.Safe parked requeues j) (hrow : f.rows j = some row)
    (hactive : row.state.terminal = false) : f.ClearsEarlier j row.attempt :=
  fun t ht hj hclears => hs.clearing t ht hj hclears row hrow hactive

theorem Safe.ofQueued (hrow : f.rows j = some row) (hstate : row.state = .queued)
    (hdoubt : f.doubt j = none)
    (hcover : f.Hinted j ∨ f.Tracked j row.attempt ∨ (∃ h ∈ parked, h.job = j) ∨
      requeues = some j)
    (hclears : f.ClearsEarlier j row.attempt) : f.Safe parked requeues j := by
  refine ⟨fun row' hrow' _ => ?_, fun row' hrow' hstate' => ?_, fun d hd => ?_,
    fun d row hd => ?_, fun d row hd => ?_, fun t ht hj hc row' hrow' _ => ?_⟩
  · obtain rfl := Option.some.inj (hrow.symm.trans hrow')
    exact hcover
  · obtain rfl := Option.some.inj (hrow.symm.trans hrow')
    rw [hstate] at hstate'
    cases hstate'
  · rw [hdoubt] at hd
    cases hd
  · rw [hdoubt] at hd
    cases hd
  · rw [hdoubt] at hd
    cases hd
  · obtain rfl := Option.some.inj (hrow.symm.trans hrow')
    exact hclears t ht hj hc

theorem Safe.ofRunning (hrow : f.rows j = some row) (hstate : row.state = .running)
    (hdoubt : f.doubt j = none) (htracked : f.Tracked j row.attempt)
    (hclears : f.ClearsEarlier j row.attempt) : f.Safe parked requeues j := by
  refine ⟨fun row' hrow' hstate' => ?_, fun row' hrow' _ => ?_, fun d hd => ?_,
    fun d row hd => ?_, fun d row hd => ?_, fun t ht hj hc row' hrow' _ => ?_⟩
  · obtain rfl := Option.some.inj (hrow.symm.trans hrow')
    rw [hstate] at hstate'
    cases hstate'
  · obtain rfl := Option.some.inj (hrow.symm.trans hrow')
    exact .inl htracked
  · rw [hdoubt] at hd
    cases hd
  · rw [hdoubt] at hd
    cases hd
  · rw [hdoubt] at hd
    cases hd
  · obtain rfl := Option.some.inj (hrow.symm.trans hrow')
    exact hclears t ht hj hc

/-- `lost_jobs` keeps a job in every state. -/
theorem Safe.ofLost (hs : f.Safe parked requeues j) (hrows : g.rows j = f.rows j)
    (hdoubt : g.doubt j = f.doubt j) (htasks : g.tasks = f.tasks) (hlost : j ∈ g.lostJobs) :
    g.Safe parked' requeues' j :=
  hs.mono hrows hdoubt (fun _ ht _ _ => htasks ▸ ht)
    (fun _ => .inr (.inr fun _ _ _ => .inl hlost)) (fun _ => .inl hlost)
    (fun _ _ _ _ _ _ => .inr (.inl hlost)) (fun _ => .inr (.inr fun _ _ _ => .inl hlost))
    fun _ => .inl hlost

/-- Another job's row changes. -/
theorem Safe.other (hs : f.Safe parked requeues j) {rows : Nat → Option Row}
    {doubt : Nat → Option Doubt} (hrows : rows j = f.rows j) (hdoubt : doubt j = f.doubt j) :
    Safe { f with rows := rows, doubt := doubt } parked requeues j :=
  hs.mono hrows hdoubt (fun _ ht _ _ => ht) .inl .inl (fun _ _ he _ _ _ => .inl he)
    (fun h => .inr (.inl h)) .inr

/-- Another job's entry changes. -/
theorem Safe.entries (hs : f.Safe parked requeues j) {inflight : Ordered Nat Entry}
    (hget : ∀ e row, f.inflight.get j = some e → f.rows j = some row →
      row.state.terminal = false → row.attempt ≤ e.attempt → inflight.get j = some e) :
    Safe { f with inflight := inflight } parked requeues j :=
  hs.mono rfl rfl (fun _ ht _ _ => ht) .inl .inl
    (fun e row he hrow hactive hle => .inl (hget e row he hrow hactive hle))
    (fun h => .inr (.inl h)) .inr

/-- The books change, the stage of the step does not. -/
theorem Staged.mono (hf : f.Staged p)
    (hlocked : ∀ j, p.holdsRow = some j → f.Locked j → g.Locked j)
    (hpublished : ∀ j, p.job = some j → p.requeues = none → f.Published j → g.Published j)
    (hread : ∀ j attempt, p.job = some j → f.ReadAs j attempt → g.ReadAs j attempt)
    (hover : ∀ j, p.job = some j → f.Over j → g.Over j) : g.Staged p := by
  unfold Staged at hf ⊢
  split
  · exact hover _ rfl hf
  · exact hlocked _ rfl hf
  · exact hlocked _ rfl hf
  · exact ⟨hlocked _ rfl hf.1, hpublished _ rfl rfl hf.2⟩
  · exact ⟨hlocked _ rfl hf.1, hpublished _ rfl rfl hf.2⟩
  · exact ⟨hlocked _ rfl hf.1, hpublished _ rfl rfl hf.2⟩
  · exact hread _ _ rfl hf
  · exact hpublished _ rfl rfl hf
  · exact hpublished _ rfl rfl hf
  · exact hpublished _ rfl rfl hf
  · trivial

end Footing

end Safe

end Potocolom.Dispatch
