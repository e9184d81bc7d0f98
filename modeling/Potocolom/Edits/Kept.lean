import Potocolom.Edits.Updates

/-! # No accepted edit is lost

What one step keeps a run keeps, and with it the law of the edits. -/

namespace Potocolom.Edits

open Realtime (SessionState Caller)

variable {K V : Type} {s t : Session K V} {seed : K}

/-! ## The end of a session -/

/-- A session that is gone owes its edits nothing more. -/
theorem Inv.gone (hinv : Inv s) (hdead : t.isLive = false) (hworker : t.worker = none)
    (hrevision : t.desiredRevision = s.desiredRevision)
    (hgeneration : t.controlGeneration = s.controlGeneration)
    (hid : t.desiredId = s.desiredId) (hevents : t.events = s.events) (hrow : t.row = s.row)
    (hhandler : ∀ edit delivery, s.handler = .editing edit delivery → delivery = .sending)
    (hplacing : ∀ i, t.tasks i = s.tasks i ∧ (s.handler = .placing → i ≠ 0 ∨ t.handler = .placing) ∨
      t.tasks i = .done) : Inv t := by
  have hcore := hinv.core
  have hnot : ¬ t.isLive = true := by
    rw [hdead]
    simp
  refine ⟨⟨fun _ => hworker, ?_, fun hlive => absurd hlive hnot, ?_, fun hlive => absurd hlive hnot,
    ?_⟩, ?_, fun i => ?_⟩
  · rw [hrevision]
    exact hcore.revision
  · rw [hevents]
    exact hcore.carried
  · intro row h
    rw [hrow] at h
    rw [hgeneration]
    exact ⟨(hcore.row row h).1, fun hlive => absurd hlive hnot⟩
  · rw [hevents]
    intro before number params merged after h
    rcases hinv.settled before number params merged after h with hpending | hrest
    · rcases hpending with ⟨_, edit, delivery, h, hsending, _⟩
      exact absurd (hhandler edit delivery h) hsending
    · exact .inr hrest
  · rcases hplacing i with ⟨htask, hfirst⟩ | htask
    · rw [htask]
      exact (hinv.tasks i).change hgeneration hid hfirst (fun hlive => absurd hlive hnot)
        fun hlive => absurd hlive hnot
    · rw [htask]
      trivial

/-- A revocation tells the browser of an edit that is on its way. -/
theorem Inv.revoked (hinv : Inv s) (h : step seed s .revoked = some t) : Inv t := by
  have hcore := hinv.core
  simp only [step] at h
  split at h
  · next edit delivery hhandler =>
    cases h
    refine ⟨⟨fun _ => rfl, hcore.revision, ?_, ?_, ?_, ?_⟩, ?_, fun i => ?_⟩
    · intro hlive
      cases hlive
    · intro before merged after hevents
      rcases became_concat hevents with ⟨_, hevent⟩ | ⟨rest, rfl, hold⟩
      · cases hevent
      · refine (hcore.carried before merged rest hold).concat fun params hopen => ?_
        cases hopen
    · intro hlive
      cases hlive
    · intro row hrow
      refine ⟨(hcore.row row hrow).1, fun hlive => ?_⟩
      cases hlive
    · intro before number params merged after hevents
      refine settled_concat (P := Pending s number merged) (by simp)
        (fun before after hold => hinv.settled before number params merged after hold) ?_ hevents
      rintro ⟨_, edit', delivery', h, _, rfl, _⟩
      rw [hhandler] at h
      cases h
      exact .inr (.inl rfl)
    · refine (hinv.tasks i).change rfl rfl .inr ?_ ?_
      · intro hlive
        cases hlive
      · intro hlive
        cases hlive
  · next hhandler =>
    cases h
    refine hinv.gone rfl rfl rfl rfl rfl rfl rfl ?_ fun i => .inl ⟨rfl, .inr⟩
    intro edit delivery hediting
    exact absurd hediting (hhandler edit delivery)

/-! ## One step -/

theorem step_inv {action : Action K V} (hinv : Inv s) (htime : InTime seed s action)
    (h : step seed s action = some t) : Inv t := by
  cases action with
  | updateParams params valid =>
    simp only [step] at h
    split at h
    · next hserving =>
      cases h
      exact hinv.updateParams hserving htime
    · cases h
  | turns =>
    simp only [step] at h
    split at h
    · next edit hhandler =>
      have hopen := htime edit hhandler
      rw [if_neg (by simp [hopen.1, hopen.2])] at h
      cases h
      unfold Session.reserve
      split
      · next hclosed => exact absurd hopen.1 hclosed
      split
      · exact hinv.delivers hhandler (by simp) (by simp) (by simp)
      split
      · next hclosed => exact absurd hopen.2 hclosed
      · exact hinv.delivers hhandler (by simp) (by simp) (by simp)
    · cases h
  | delivers =>
    simp only [step] at h
    split at h
    · next edit hhandler =>
      rw [if_pos (htime edit hhandler)] at h
      cases h
      exact hinv.delivers hhandler (by simp) (by simp) (by simp)
    · cases h
  | refuses =>
    simp only [step] at h
    split at h
    · next edit hhandler =>
      cases h
      exact hinv.refuses hhandler
    · cases h
  | commits =>
    simp only [step] at h
    split at h
    · next edit hhandler =>
      split at h
      · next hcurrent =>
        cases h
        exact hinv.commits hhandler hcurrent
      · cases h
    · cases h
  | mirrors =>
    simp only [step] at h
    split at h
    · next edit hhandler =>
      cases h
      exact hinv.mirrors hhandler htime
    · cases h
  | delivered =>
    simp only [step] at h
    split at h
    · next edit hhandler =>
      cases h
      refine hinv.rests ?_ (by simp) ?_
      · intro edit' delivery' h
        rw [hhandler] at h
        cases h
        rfl
      · intro hplacing
        rw [hhandler] at hplacing
        cases hplacing
    · cases h
  | relayed =>
    simp only [step] at h
    split at h
    · next hhandler =>
      cases h
      refine hinv.rests ?_ (by simp) ?_
      · intro edit' delivery' h
        rw [hhandler] at h
        cases h
      · intro hplacing
        rw [hhandler] at hplacing
        cases hplacing
    · cases h
  | resumesIdle =>
    simp only [step] at h
    split at h
    · split at h
      · cases h
        exact (hinv.state .assigning).spawn (by simp [TaskOk])
      · cases h
    · cases h
  | leaves =>
    simp only [step] at h
    split at h
    · next hserving =>
      cases h
      refine hinv.gone rfl rfl rfl rfl rfl rfl rfl ?_ fun i => .inl ⟨rfl, ?_⟩
      · intro edit delivery hediting
        rw [hserving] at hediting
        cases hediting
      · intro hplacing
        rw [hserving] at hplacing
        cases hplacing
    · cases h
  | revoked => exact hinv.revoked h
  | registers worker =>
    cases h
    exact hinv.of_same (by constructor <;> rfl) hinv.core.gone fun _ => .inl rfl
  | grants w _ | occupies w _ | forgets w | closesAdmission w =>
    cases h
    exact hinv.setWorker w _
  | finalizes w =>
    simp only [step] at h
    split at h
    · cases h
    · cases h
      exact hinv.orphan w
  | stops | endsAttempt generation =>
    cases h
    exact hinv.of_same (by constructor <;> rfl) hinv.core.gone fun _ => .inl rfl
  | sheds =>
    cases h
    exact hinv.scheduleReassign
  | sessionReady w generation =>
    simp only [step] at h
    split at h
    · cases h
      exact hinv.of_same (by constructor <;> rfl) hinv.core.gone fun _ => .inl rfl
    · cases h
  | sessionRefused w generation =>
    simp only [step] at h
    split at h
    · split at h
      · cases h
        exact hinv.of_same (by constructor <;> rfl) hinv.core.gone fun _ => .inl rfl
      · cases h
        exact hinv.scheduleReassign
    · cases h
  | releasesIdle =>
    simp only [step] at h
    split at h
    · cases h
      exact hinv.detach.state .idle
    · cases h
  | admits =>
    simp only [step] at h
    split at h
    · cases h
      exact (hinv.state .assigning).spawn (by simp [TaskOk])
    · cases h
  | starts i choice =>
    simp only [step] at h
    split at h
    · next caller htask =>
      cases h
      exact hinv.start htask htime
    · cases h
  | interrupted i =>
    simp only [step] at h
    split at h
    · next generation snapshot htask =>
      have hok := hinv.tasks i
      rw [htask] at hok
      split at h
      · cases h
        exact hinv.put hok
      · cases h
        exact hinv.put trivial
    · cases h
  | reads i =>
    simp only [step] at h
    split at h
    · next generation snapshot htask =>
      cases h
      exact hinv.put (hinv.reads htask)
    · cases h
  | reopens i choice =>
    simp only [step] at h
    split at h
    · next generation snapshot committed htask =>
      cases h
      exact hinv.reopen htask htime
    · cases h
  | openCommits i =>
    simp only [step] at h
    split at h
    · next caller attempt htask =>
      split at h
      · cases h
        exact hinv.openCommits (hinv.places htask) _
      · cases h
    · cases h
  | openSent i =>
    simp only [step] at h
    split at h
    · next caller attempt htask =>
      have hplaces := hinv.places htask
      split at h
      · cases h
        exact hinv.sent hplaces
      · cases h
        exact hinv.sent hplaces
      · cases h
        exact hinv.put ⟨hplaces.started_le, hplaces.first⟩
      · cases h
    · cases h
  | openFails i choice =>
    simp only [step] at h
    split at h
    · next caller attempt htask =>
      have hplaces := hinv.places htask
      have hfresh := opensFresh_placing htime htask
      split at h
      · cases h
        have hcleared : Inv ({ s with attemptId := none } : Session K V) :=
          hinv.of_same (by constructor <;> rfl) hinv.core.gone fun _ => .inl rfl
        exact hcleared.giveUp ⟨hplaces.started_le, hplaces.first⟩ hfresh
      · cases h
        exact hinv.giveUp hplaces hfresh
      · cases h
    · cases h
  | wakes i choice =>
    simp only [step] at h
    split at h
    · next caller attempt htask =>
      split at h
      · cases h
        exact hinv.woken (hinv.places htask) (opensFresh_placing htime htask)
      · cases h
    · cases h
  | timesOut i choice =>
    simp only [step] at h
    split at h
    · next caller attempt htask =>
      split at h
      · cases h
        exact hinv.giveUp (hinv.places htask) (opensFresh_placing htime htask)
      · cases h
    · cases h
  | abandoned i choice =>
    simp only [step] at h
    split at h
    · next caller attempt htask =>
      have hplaces := hinv.places htask
      have hfresh := opensFresh_placing htime htask
      split at h
      · split at h
        · cases h
          exact hinv.detach.assigned hplaces.first hfresh
        · cases h
          exact hinv.assigned hplaces.first hfresh
      · cases h
        exact hinv.assigned hplaces.first hfresh
      · cases h
    · cases h
  | raises i =>
    simp only [step] at h
    split at h
    · next attempt htask =>
      rcases (hinv.places htask).first rfl with ⟨rfl, hplacing⟩
      cases h
      refine hinv.gone rfl rfl rfl rfl rfl rfl rfl ?_ fun j => ?_
      · intro edit delivery hediting
        rw [hplacing] at hediting
        cases hediting
      · by_cases hj : j = 0
        · subst hj
          right
          show Function.update s.tasks 0 .done 0 = .done
          exact Function.update_self ..
        · exact .inl ⟨Function.update_of_ne hj _ _, fun _ => .inl hj⟩
    · cases h
      exact hinv.put trivial
    · cases h
      exact hinv.put trivial
    · cases h
      exact hinv.put trivial
    · cases h
      exact hinv.put trivial
    · cases h

/-! ## The law -/

theorem init_inv (params : Dict K V) : Inv (opened params) := by
  refine ⟨⟨fun _ => rfl, Nat.le_refl 1, ?_, ?_, ?_, ?_⟩, ?_, fun i => ?_⟩
  · intro _ before merged after hevents
    cases before <;> cases hevents
  · intro before merged after hevents
    cases before <;> cases hevents
  · intro _ edit delivery h
    cases h
  · intro row hrow
    cases hrow
  · intro before number update merged after hevents
    cases before <;> cases hevents
  · show TaskOk _ i (if i = 0 then _ else _)
    split
    · next hzero => exact fun _ => ⟨hzero, rfl⟩
    · trivial

theorem reach_inv (h : (machine seed).Reach (InTime seed) s) : Inv s := by
  refine h.invariant (I := Inv) ?_ fun _ _ _ hinv htime hstep => step_inv hinv htime hstep
  rintro _ ⟨params, rfl⟩
  exact init_inv params

/-- In every run of a session whose steps are in time, each accepted edit is on its way,
or answered with an error, or its merged parameters became the desired ones and every
open since carries them, but for the keys of later edits. -/
theorem no_edit_lost (h : (machine seed).Reach (InTime seed) s) : NoEditLost s := by
  have hinv := reach_inv h
  intro before number params merged after hevents
  rcases hinv.settled before number params merged after hevents with hpending | herror | hbecame
  · rcases hpending with ⟨_, edit, delivery, hhandler, _, hnumber, _⟩
    exact .inl ⟨edit, delivery, hhandler, hnumber⟩
  · exact .inr (.inl herror)
  · right; right
    obtain ⟨mid, rest, rfl⟩ := List.append_of_mem hbecame
    refine ⟨mid, rest, rfl, ?_⟩
    have hsplit : s.events =
        (before ++ .accepted number params merged :: mid) ++ .became merged :: rest := by
      rw [hevents]
      simp
    exact hinv.core.carried _ merged rest hsplit

/-! ## Two short runs -/

/-- A check of `InTime` that suffices where every placement is on protocol 6. -/
def inTime (s : Session K V) : Action K V → Bool
  | .updateParams _ _ =>
    s.worker.all fun w => s.admissionOpen && ((s.workers w).busy || (s.workers w).admissionOpen)
  | .turns =>
    match s.handler with
    | .editing edit .waiting => s.admissionOpen && (s.workers edit.worker).admissionOpen
    | _ => true
  | .delivers =>
    match s.handler with
    | .editing edit .created => (s.workers edit.worker).registered
    | _ => true
  | .mirrors =>
    match s.handler with
    | .editing edit .committed =>
      s.controlGeneration = edit.generation && s.attemptId = some edit.attempt
    | _ => true
  | .reopens i _ =>
    match s.tasks i with
    | .read generation _ (some _) => s.controlGeneration = generation
    | _ => true
  | .starts _ choice | .openFails _ choice | .wakes _ choice | .timesOut _ choice
  | .abandoned _ choice => choice.all fun w => (s.workers w).protocolVersion = 6
  | _ => true

theorem inTime_sound (s : Session K V) (action : Action K V) (h : inTime s action = true) :
    InTime seed s action := by
  have hfresh : ∀ {i : Nat} {choice : Option Nat},
      (choice.all fun w => (s.workers w).protocolVersion = 6) = true → s.opensFresh i choice := by
    intro i choice hall w hw hversion
    rw [Option.mem_def.1 hw] at hall
    simp [hversion] at hall
  cases action with
  | updateParams params valid =>
    intro w hw _ _ _ _ _ _ _
    simp only [inTime, Option.mem_def.1 hw] at h
    simpa using h
  | turns =>
    intro edit hhandler
    simp only [inTime, hhandler] at h
    simpa using h
  | delivers =>
    intro edit hhandler
    simp only [inTime, hhandler] at h
    exact h
  | mirrors =>
    intro edit hhandler _
    simp only [inTime, hhandler] at h
    simpa using Or.inl (by simpa using h)
  | reopens i choice =>
    intro generation snapshot params revision htask _ _
    simp only [inTime, htask] at h
    simpa using h
  | starts i choice | openFails i choice | wakes i choice | timesOut i choice
  | abandoned i choice => exact hfresh h
  | _ => trivial

/-- A prompt under key 0. -/
def prompt (text : Nat) : Dict Nat Nat := fun k => if k = 0 then some text else none

/-- Open on a worker of protocol 6. -/
def opens : List (Action Nat Nat) :=
  [.registers ⟨6, true, true, true, false⟩, .starts 0 (some 0), .openCommits 0, .openSent 0,
    .sessionReady 0 1, .wakes 0 none]

/-- An edit is committed and mirrored, the worker sheds the session, and a worker of
protocol 5 takes it. -/
def editsAndMoves : List (Action Nat Nat) :=
  opens ++
    [.updateParams (prompt 2) fun _ => true, .delivers, .commits, .mirrors, .delivered,
      .registers ⟨5, true, true, true, false⟩, .sheds, .starts 1 none, .interrupted 1, .reads 1,
      .reopens 1 (some 1)]

/-- The next open carries the edit. -/
theorem no_edit_lost_sample :
    ∃ s, (machine 9).run (opened (prompt 1)) editsAndMoves = some s ∧
      (∃ edited, s.events.getLast? = some (.opened edited) ∧ edited 0 = some 2) ∧
      NoEditLost s := by
  obtain ⟨s, hrun, hlast⟩ : ∃ s, (machine 9).run (opened (prompt 1)) editsAndMoves = some s ∧
      ∃ edited, s.events.getLast? = some (.opened edited) ∧ edited 0 = some 2 :=
    ⟨_, rfl, _, rfl, rfl⟩
  have hok : (machine 9).RunOk (fun s action => inTime s action = true) (opened (prompt 1))
      editsAndMoves := by
    decide +kernel
  have hpath : (machine 9).Path (InTime 9) (opened (prompt 1)) s :=
    (Machine.path_of_run hrun hok).mono inTime_sound
  exact ⟨s, hrun, hlast, no_edit_lost ⟨_, ⟨prompt 1, rfl⟩, hpath⟩⟩

/-- An edit waits for the slot of its worker, and a fence closes the worker under it. -/
def losesEdit : List (Action Nat Nat) :=
  opens ++
    [.occupies 0 true, .updateParams (prompt 2) fun _ => true, .closesAdmission 0, .forgets 0,
      .turns, .finalizes 0, .registers ⟨6, true, true, true, false⟩, .starts 1 none,
      .interrupted 1, .reads 1, .reopens 1 (some 1)]

/-- The edit is gone without a word, and the next worker is opened without it. -/
theorem edit_lost :
    ¬ ∀ s, (machine (9 : Nat)).Reach Machine.anyStep s → NoEditLost (V := Nat) s := by
  intro hall
  obtain ⟨s, hrun, hevents, hhandler⟩ :
      ∃ s, (machine 9).run (opened (prompt 1)) losesEdit = some s ∧
        s.events = [.opened (prompt 1)] ++
          .accepted 0 (prompt 2) ((prompt 1).overlay (prompt 2)) :: [.opened (prompt 1)] ∧
        s.handler = .serving :=
    ⟨_, rfl, rfl, rfl⟩
  have hreach : (machine 9).Reach Machine.anyStep s :=
    ⟨_, ⟨prompt 1, rfl⟩, Machine.path_of_run_any hrun⟩
  rcases hall s hreach _ _ _ _ _ hevents with ⟨edit, delivery, hediting, _⟩ | herror | hbecame
  · rw [hhandler] at hediting
    cases hediting
  · simp at herror
  · rcases hbecame with ⟨mid, rest, hafter, _⟩
    have hmem : Event.became ((prompt 1).overlay (prompt 2)) ∈ [Event.opened (prompt 1)] := by
      rw [hafter]
      simp
    simp at hmem

end Potocolom.Edits
