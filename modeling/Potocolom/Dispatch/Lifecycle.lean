import Potocolom.Dispatch.Verdicts

/-! # The life of a job's row

A job is queued, claimed, queued once more behind a lost attempt, and ended. What the steps make
of its row, of a transaction in doubt on it and of its lock is a machine of its own, of which the
whole dispatcher is an implementation. -/

namespace Potocolom.Dispatch

/-- What one transaction may make of a row. -/
inductive Row.Becomes (row : Row) : Row → Prop where
  /-- The dispatch of an older protocol. -/
  | started (h : row.state = .queued) : Row.Becomes row { row with state := .running }
  | claimed (h : row.state = .queued) (incarnation : Option Nat) :
    Row.Becomes row { row with
      state := .running
      currentDispatchSequence := row.currentDispatchSequence + 1
      incarnation := incarnation }
  | requeued (hstate : row.state = .running) (hattempt : row.attempt = 1) :
    Row.Becomes row { row with attempt := 2, state := .queued }
  | ended (h : row.state.terminal = false) {x : JobState} (hx : x.terminal = true) :
    Row.Becomes row { row with state := x }

/-- A row, what a transaction in doubt makes of it, and whether a dispatch holds its lock. -/
structure Cell where
  row : Option Row
  doubt : Option Row
  held : Prop

namespace Cell

/-- What a step may do to one row; `gone` stands for the deletion of its account. -/
inductive Step (gone : Prop) : Cell → Cell → Prop where
  | stays {c : Cell} {held : Prop} (h : held → c.held) : Step gone c { c with held := held }
  | locks {row : Row} {held held' : Prop} (h : row.state = .queued) :
    Step gone ⟨some row, none, held⟩ ⟨some row, none, held'⟩
  | commits {row row' : Row} {held held' : Prop} (h : row.Becomes row') (hfree : ¬ held') :
    Step gone ⟨some row, none, held⟩ ⟨some row', none, held'⟩
  | doubts {row row' : Row} {held held' : Prop} (h : row.Becomes row') (hfree : ¬ held') :
    Step gone ⟨some row, none, held⟩ ⟨some row, some row', held'⟩
  | lands {row : Option Row} {row' : Row} {held : Prop} :
    Step gone ⟨row, some row', held⟩ ⟨some row', none, held⟩
  | rollsBack {row : Option Row} {row' : Row} {held : Prop} :
    Step gone ⟨row, some row', held⟩ ⟨row, none, held⟩
  | creates {row : Row} {held : Prop} (hstate : row.state = .queued) (hattempt : row.attempt = 1)
    (hsequence : row.currentDispatchSequence = 0) :
    Step gone ⟨none, none, held⟩ ⟨some row, none, held⟩
  | deletes {row : Option Row} {held : Prop} (h : gone) (hfree : ¬ held) :
    Step gone ⟨row, none, held⟩ ⟨none, none, held⟩

/-- A held lock is that of a queued row, and what is in doubt fits the row. -/
structure Sound (c : Cell) : Prop where
  held : c.held → ∃ row, c = ⟨some row, none, c.held⟩ ∧ row.state = .queued
  doubt : ∀ row', c.doubt = some row' → ∃ row, c.row = some row ∧ row.Becomes row'

theorem Step.sound {gone : Prop} {c c' : Cell} (h : Step gone c c') (hc : c.Sound) : c'.Sound := by
  cases h with
  | stays h =>
    refine ⟨fun hheld => ?_, hc.doubt⟩
    obtain ⟨row, hrow, hqueued⟩ := hc.held (h hheld)
    exact ⟨row, by rw [hrow], hqueued⟩
  | locks h => exact ⟨fun _ => ⟨_, rfl, h⟩, fun _ hdoubt => by cases hdoubt⟩
  | commits h hfree => exact ⟨fun hheld => absurd hheld hfree, fun _ hdoubt => by cases hdoubt⟩
  | doubts h hfree =>
    refine ⟨fun hheld => absurd hheld hfree, fun _ hdoubt => ?_⟩
    cases hdoubt
    exact ⟨_, rfl, h⟩
  | lands =>
    refine ⟨fun hheld => ?_, fun _ hdoubt => by cases hdoubt⟩
    obtain ⟨row, hrow, -⟩ := hc.held hheld
    cases hrow
  | rollsBack =>
    refine ⟨fun hheld => ?_, fun _ hdoubt => by cases hdoubt⟩
    obtain ⟨row, hrow, -⟩ := hc.held hheld
    cases hrow
  | creates =>
    refine ⟨fun hheld => ?_, fun _ hdoubt => by cases hdoubt⟩
    obtain ⟨row, hrow, -⟩ := hc.held hheld
    cases hrow
  | deletes h hfree => exact ⟨fun hheld => absurd hheld hfree, fun _ hdoubt => by cases hdoubt⟩

/-- Short of a deletion a row only goes on. -/
theorem Step.leads {gone : Prop} {c c' : Cell} {row : Row} (h : Step gone c c') (hkept : ¬ gone)
    (hc : c.Sound) (hrow : c.row = some row) :
    ∃ row', c'.row = some row' ∧ Relation.ReflTransGen Row.Becomes row row' := by
  cases h with
  | stays => exact ⟨row, hrow, .refl⟩
  | locks => exact ⟨row, hrow, .refl⟩
  | commits h =>
    cases hrow
    exact ⟨_, rfl, .single h⟩
  | doubts => exact ⟨row, hrow, .refl⟩
  | lands =>
    obtain ⟨row₀, hrow₀, hbecomes⟩ := hc.doubt _ rfl
    cases hrow₀.symm.trans hrow
    exact ⟨_, rfl, .single hbecomes⟩
  | rollsBack => exact ⟨row, hrow, .refl⟩
  | creates => cases hrow
  | deletes h => exact absurd h hkept

end Cell

/-! ## What a row comes to -/

section Rows

variable {row row' : Row}

/-- A row that has ended is final. -/
theorem Row.Becomes.active (h : row.Becomes row') : row.state.terminal = false := by
  cases h with
  | started h => rw [h]; rfl
  | claimed h => rw [h]; rfl
  | requeued h => rw [h]; rfl
  | ended h => exact h

theorem eq_of_ended (h : Relation.ReflTransGen Row.Becomes row row')
    (hended : row.state.terminal = true) : row' = row := by
  induction h with
  | refl => rfl
  | tail _ hlast ih =>
    have hactive := hlast.active
    rw [ih, hended] at hactive
    cases hactive

/-- A row is at its first attempt or its second, has not been claimed more often than it was
attempted, and has a claim to come while it is queued. -/
structure Row.Paced (row : Row) : Prop where
  first : 1 ≤ row.attempt
  last : row.attempt ≤ 2
  claims : row.currentDispatchSequence ≤ row.attempt
  queued : row.state = .queued → row.currentDispatchSequence < row.attempt

theorem Row.Becomes.paced (h : row.Becomes row') (hrow : row.Paced) : row'.Paced := by
  obtain ⟨hfirst, hlast, hclaims, hqueued⟩ := hrow
  cases h with
  | started h => exact ⟨hfirst, hlast, hclaims, fun hstate => by cases hstate⟩
  | claimed h => exact ⟨hfirst, hlast, hqueued h, fun hstate => by cases hstate⟩
  | requeued hstate hattempt =>
    have hone : row.currentDispatchSequence ≤ 1 := by omega
    exact ⟨one_le_two, le_rfl, by dsimp only; omega, fun _ => by dsimp only; omega⟩
  | ended h hx =>
    refine ⟨hfirst, hlast, hclaims, fun hstate => ?_⟩
    dsimp only at hstate
    rw [hstate] at hx
    cases hx

/-- The counters of a row only grow, and the rest of what it was created with stays. -/
structure Row.Grows (row row' : Row) : Prop where
  attempt : row.attempt ≤ row'.attempt
  sequence : row.currentDispatchSequence ≤ row'.currentDispatchSequence
  modelId : row'.modelId = row.modelId
  createdAt : row'.createdAt = row.createdAt
  hasSource : row'.hasSource = row.hasSource

theorem Row.Becomes.grows (h : row.Becomes row') : row.Grows row' := by
  cases h with
  | started => exact ⟨le_rfl, le_rfl, rfl, rfl, rfl⟩
  | claimed => exact ⟨le_rfl, Nat.le_succ _, rfl, rfl, rfl⟩
  | requeued _ hattempt => exact ⟨by dsimp only; omega, le_rfl, rfl, rfl, rfl⟩
  | ended => exact ⟨le_rfl, le_rfl, rfl, rfl, rfl⟩

theorem grows_of_leads (h : Relation.ReflTransGen Row.Becomes row row') : row.Grows row' := by
  induction h with
  | refl => exact ⟨le_rfl, le_rfl, rfl, rfl, rfl⟩
  | tail _ hlast ih =>
    obtain ⟨hattempt, hsequence, hmodel, hcreated, hsource⟩ := hlast.grows
    exact ⟨ih.attempt.trans hattempt, ih.sequence.trans hsequence, hmodel.trans ih.modelId,
      hcreated.trans ih.createdAt, hsource.trans ih.hasSource⟩

/-- The pace of a row and of what is in doubt on it. -/
def Cell.Paced (c : Cell) : Prop :=
  (∀ row, c.row = some row → row.Paced) ∧ ∀ row, c.doubt = some row → row.Paced

theorem Cell.Step.paced {gone : Prop} {c c' : Cell} (h : Cell.Step gone c c') (hc : c.Paced) :
    c'.Paced := by
  have hnone : ∀ row, (none : Option Row) = some row → row.Paced := fun _ hrow => by cases hrow
  have hsome : ∀ {row : Row}, row.Paced → ∀ row', some row = some row' → row'.Paced :=
    fun hrow _ heq => Option.some.inj heq ▸ hrow
  cases h with
  | stays => exact hc
  | locks => exact hc
  | commits h => exact ⟨hsome (h.paced (hc.1 _ rfl)), hnone⟩
  | doubts h => exact ⟨hc.1, hsome (h.paced (hc.1 _ rfl))⟩
  | lands => exact ⟨hsome (hc.2 _ rfl), hnone⟩
  | rollsBack => exact ⟨hc.1, hnone⟩
  | creates hstate hattempt hsequence =>
    exact ⟨hsome ⟨by omega, by omega, by omega, fun _ => by omega⟩, hnone⟩
  | deletes => exact ⟨hnone, hnone⟩

end Rows

/-! ## The dispatcher implements it -/

namespace World

variable {s t : World} {j : Nat} {row new : Row} {r : Option Row} {d : Option Doubt}
variable {gone : Nat → Prop}

/-- What the dispatcher has of a row. -/
def cell (s : World) (j : Nat) : Cell :=
  ⟨s.rows j, (s.doubt j).map Doubt.row, s.phase.holdsRow = some j⟩

/-- A step that is one of the lifecycle for every job. -/
def Lives (gone : Nat → Prop) (s t : World) : Prop := ∀ j, Cell.Step (gone j) (s.cell j) (t.cell j)

/-- Rows and transactions in doubt stay, and no lock is taken. -/
structure Leaves (s t : World) : Prop where
  rows : t.rows = s.rows
  doubt : t.doubt = s.doubt
  held : ∀ j, t.phase.holdsRow = some j → s.phase.holdsRow = some j

theorem Leaves.lives (h : Leaves s t) : Lives gone s t := by
  intro j
  have hcell : t.cell j = { s.cell j with held := t.phase.holdsRow = some j } := by
    simp only [cell, h.rows, h.doubt]
  rw [hcell]
  exact .stays (h.held j)

theorem Leaves.trans {u : World} (h : Leaves s t) (h' : Leaves t u) : Leaves s u :=
  ⟨h'.rows.trans h.rows, h'.doubt.trans h.doubt, fun j hj => h.held j (h'.held j hj)⟩

/-- Behind it the dispatch loop holds no lock. -/
structure Frees (s t : World) : Prop where
  rows : t.rows = s.rows
  doubt : t.doubt = s.doubt
  free : t.phase.holdsRow = none

theorem Frees.not_held (h : Frees s t) : t.phase.holdsRow ≠ some j := by
  rw [h.free]
  exact (Option.some_ne_none j).symm

theorem Frees.leaves (h : Frees s t) : Leaves s t :=
  ⟨h.rows, h.doubt, fun _ hj => absurd hj h.not_held⟩

theorem Frees.both (h : Frees s t) : Leaves s t ∧ t.phase.holdsRow ≠ some j := ⟨h.leaves, h.not_held⟩

theorem frees_dispatched (s : World) (h : Hint) (skipped : List Hint) (taken : Bool) :
    Frees s (s.dispatched h skipped taken) := ⟨rfl, rfl, rfl⟩

theorem frees_dispatchRaised (s : World) (h : Hint) (skipped : List Hint) :
    Frees s (s.dispatchRaised h skipped) := by
  unfold dispatchRaised
  split <;> exact ⟨rfl, rfl, rfl⟩

theorem frees_requeued (s : World) (caller : Caller) : Frees s (s.requeued caller) := by
  cases caller <;> exact ⟨rfl, rfl, rfl⟩

theorem frees_requeueRaised (s : World) (caller : Caller) (j : Nat) :
    Frees s (s.requeueRaised caller j) := by
  cases caller <;> exact ⟨rfl, rfl, rfl⟩

theorem leaves_clearIfCurrent (s : World) (j : Nat) (current : Entry) :
    Leaves s (s.clearIfCurrent j current) := by
  unfold clearIfCurrent
  split
  · exact ⟨rfl, rfl, fun _ h => h⟩
  · exact ⟨rfl, rfl, fun _ h => h⟩

theorem cell_eq (hrow : t.rows j = r) (hdoubt : t.doubt j = d) :
    t.cell j = ⟨r, d.map Doubt.row, t.phase.holdsRow = some j⟩ := by
  rw [cell, hrow, hdoubt]

/-- A row that the step leaves alone. -/
theorem stays_of {P : Prop} (hrow : t.rows j = s.rows j) (hdoubt : t.doubt j = s.doubt j)
    (hheld : t.phase.holdsRow = some j → s.phase.holdsRow = some j) :
    Cell.Step P (s.cell j) (t.cell j) := by
  rw [cell_eq hrow hdoubt]
  exact .stays (c := s.cell j) hheld

/-- One row is written, and its lock is free behind that. -/
theorem lives_write (hrow : s.rows j = some row) (hdoubt : s.doubt j = none)
    (hnew : row.Becomes new) (hrows : t.rows = Function.update s.rows j (some new))
    (hdoubts : t.doubt = s.doubt)
    (hheld : ∀ i, t.phase.holdsRow = some i → s.phase.holdsRow = some i)
    (hfree : t.phase.holdsRow ≠ some j) : Lives gone s t := by
  intro i
  by_cases hij : i = j
  · subst hij
    rw [cell_eq hrow hdoubt, cell_eq (by rw [hrows, Function.update_self])
      ((congrFun hdoubts i).trans hdoubt)]
    exact .commits hnew hfree
  · exact stays_of ((congrFun hrows i).trans (Function.update_of_ne hij ..)) (congrFun hdoubts i)
      (hheld i)

/-- One row is left in doubt. -/
theorem lives_doubt {command : Option Command} (hrow : s.rows j = some row)
    (hdoubt : s.doubt j = none) (hnew : row.Becomes new) (hrows : t.rows = s.rows)
    (hdoubts : t.doubt = Function.update s.doubt j (some ⟨new, command⟩))
    (hheld : ∀ i, t.phase.holdsRow = some i → s.phase.holdsRow = some i)
    (hfree : t.phase.holdsRow ≠ some j) : Lives gone s t := by
  intro i
  by_cases hij : i = j
  · subst hij
    rw [cell_eq hrow hdoubt, cell_eq ((congrFun hrows i).trans hrow)
      (by rw [hdoubts, Function.update_self])]
    exact .doubts hnew hfree
  · exact stays_of (congrFun hrows i) ((congrFun hdoubts i).trans (Function.update_of_ne hij ..))
      (hheld i)

/-- A transaction on one row, whatever follows it. -/
theorem lives_commit {a : Answer} {landed raised : World → World} (hrow : s.rows j = some row)
    (hdoubt : s.doubt j = none) (hnew : row.Becomes new)
    (hlanded : ∀ u : World, u.phase = s.phase →
      Leaves u (landed u) ∧ (landed u).phase.holdsRow ≠ some j)
    (hraised : ∀ u : World, u.phase = s.phase →
      Leaves u (raised u) ∧ (raised u).phase.holdsRow ≠ some j) :
    Lives gone s (s.commit a j new landed raised) := by
  cases a with
  | landed =>
    obtain ⟨⟨hrows, hdoubts, hheld⟩, hfree⟩ := hlanded (s.write j new none) rfl
    exact lives_write hrow hdoubt hnew hrows hdoubts hheld hfree
  | inDoubt =>
    obtain ⟨⟨hrows, hdoubts, hheld⟩, hfree⟩ := hraised (s.leaveInDoubt j new none) rfl
    exact lives_doubt hrow hdoubt hnew hrows hdoubts hheld hfree
  | raised => exact (hraised s rfl).1.lives

end World

section Steps

open World

variable {s t : World} {l : Label} {gone : Nat → Prop}

/-- The lock is taken of a queued row. -/
theorem lives_locks {answered : Bool} (hstep : s.locks answered = some t) : Lives gone s t := by
  unfold World.locks at hstep
  split at hstep
  · next h skipped hphase =>
    split at hstep
    · split at hstep
      · next hunlocked =>
        split at hstep
        · cases hstep
          exact (frees_dispatched s h skipped true).leaves.lives
        · next row hrow =>
          split at hstep
          · next hqueued =>
            split at hstep
            · cases hstep
              exact (frees_dispatched s h skipped false).leaves.lives
            · next w _ =>
              cases hstep
              intro j
              by_cases hj : h.job = j
              · subst hj
                rw [cell_eq hrow hunlocked.1, cell_eq (t := s.stage h skipped (.targets w)) hrow
                  hunlocked.1]
                exact .locks hqueued
              · exact stays_of rfl rfl fun hheld => absurd (Option.some.inj hheld) hj
          · cases hstep
            exact (frees_dispatched s h skipped true).leaves.lives
      · cases hstep
    · cases hstep
      exact (frees_dispatchRaised s h skipped).leaves.lives
  · cases hstep

/-- The one requeue of a running job, and the end of a job that was requeued before. -/
theorem lives_requeues {a : Answer} (hstep : s.requeues a = some t) : Lives gone s t := by
  unfold World.requeues at hstep
  split at hstep
  · next caller j hphase =>
    have hpushed : ∀ (u : World) (row : Row),
        Frees u ((u.pushHint ⟨row.createdAt, j⟩).requeued caller) := fun u row =>
      ⟨(frees_requeued _ caller).rows, (frees_requeued _ caller).doubt,
        (frees_requeued _ caller).free⟩
    split at hstep
    · cases hstep
      exact (frees_requeueRaised s caller j).leaves.lives
    split at hstep
    · next hunlocked =>
      split at hstep
      · cases hstep
        exact (frees_requeued s caller).leaves.lives
      · next row hrow =>
        split at hstep
        · cases hstep
          exact (frees_requeued s caller).leaves.lives
        next hactive =>
        split at hstep
        · cases hstep
          exact (hpushed s row).leaves.lives
        next hqueued =>
        split at hstep
        · next hfirst =>
          -- the check of the attempt is only behind those of the state
          have hrunning : row.state = .running := by
            cases hstate : row.state <;> simp_all [JobState.terminal]
          cases hstep
          exact lives_commit hrow hunlocked.1 (.requeued hrunning hfirst)
            (fun u _ => (hpushed u row).both) fun u _ => (frees_requeueRaised u caller j).both
        · cases hstep
          exact Leaves.lives (Frees.leaves ⟨rfl, rfl, rfl⟩)
    · cases hstep
  · next caller j hphase =>
    split at hstep
    · cases hstep
      exact (frees_requeueRaised s caller j).leaves.lives
    split at hstep
    · next hunlocked =>
      split at hstep
      · cases hstep
        exact (frees_requeued s caller).leaves.lives
      · next row hrow =>
        split at hstep
        · cases hstep
          exact (frees_requeued s caller).leaves.lives
        next hactive =>
        cases hstep
        exact lives_commit hrow hunlocked.1 (.ended (by simpa using hactive) rfl)
          (fun u _ => Frees.both ⟨rfl, rfl, rfl⟩) fun u _ => (frees_requeueRaised u caller j).both
    · cases hstep
  · next caller j hphase =>
    split at hstep
    · cases hstep
      exact (frees_requeued s caller).leaves.lives
    · cases hstep
      exact (frees_requeueRaised s caller j).leaves.lives
  · cases hstep

/-- The dispatch holds the lock of a queued row. -/
theorem queued_of_held (hsound : ∀ j, (s.cell j).Sound) {j : Nat} {row : Row}
    (hheld : s.phase.holdsRow = some j) (hrow : s.rows j = some row) :
    row.state = .queued ∧ s.doubt j = none := by
  obtain ⟨row', hcell, hqueued⟩ := (hsound j).held hheld
  have hrow' : s.rows j = some row' := congrArg Cell.row hcell
  have hdoubt : (s.doubt j).map Doubt.row = none := congrArg Cell.doubt hcell
  cases hrow'.symm.trans hrow
  exact ⟨hqueued, Option.map_eq_none_iff.1 hdoubt⟩

/-- The writes of a dispatch that holds the lock. -/
theorem lives_held {a : Answer} {h : Hint} {skipped : List Hint} {row new : Row}
    (hsound : ∀ j, (s.cell j).Sound) (hheld : s.phase.holdsRow = some h.job)
    (hrow : s.rows h.job = some row) (hnew : row.state = .queued → row.Becomes new) :
    Lives gone s (s.commit a h.job new (fun u => u.dispatched h skipped true)
      fun u => u.dispatchRaised h skipped) := by
  obtain ⟨hqueued, hdoubt⟩ := queued_of_held hsound hheld hrow
  exact lives_commit hrow hdoubt (hnew hqueued) (fun u _ => (frees_dispatched u h skipped true).both)
    fun u _ => (frees_dispatchRaised u h skipped).both

/-- A claim is of a queued row whose lock is free. -/
theorem claimOf_becomes {j w : Nat} {d : Doubt} (h : s.claimOf j w = some d) :
    ∃ row, s.rows j = some row ∧ s.doubt j = none ∧ row.Becomes d.row := by
  unfold World.claimOf at h
  split at h
  · next hunlocked =>
    split at h
    · next row i hrow _ =>
      split at h
      · next hqueued =>
        cases h
        exact ⟨row, hrow, hunlocked.1, .claimed hqueued _⟩
      · cases h
    · cases h
  · cases h

theorem lives_claims {a : ClaimAnswer} (hstep : s.claims a = some t) : Lives gone s t := by
  unfold World.claims at hstep
  split at hstep
  · next h skipped current previous hphase =>
    have hdropped : ∀ taken : Bool,
        Leaves s ((s.clearIfCurrent h.job current).dispatched h skipped taken) := fun taken =>
      (leaves_clearIfCurrent s h.job current).trans (frees_dispatched _ h skipped taken).leaves
    cases a with
    | raised =>
      cases hstep
      exact Leaves.lives (Frees.leaves ⟨rfl, rfl, rfl⟩)
    | refused =>
      cases hstep
      exact (hdropped false).lives
    | stale =>
      dsimp only at hstep
      split at hstep
      · cases hstep
        exact (hdropped true).lives
      · cases hstep
    | landed =>
      -- the claim's transaction ends before its worker is told
      obtain ⟨d, hd, rfl⟩ := Option.map_eq_some_iff.1 hstep
      obtain ⟨row, hrow, hdoubt, hbecomes⟩ := claimOf_becomes hd
      exact lives_write hrow hdoubt hbecomes rfl rfl (fun _ hi => by cases hi) (by rintro ⟨⟩)
    | inDoubt =>
      obtain ⟨d, hd, rfl⟩ := Option.map_eq_some_iff.1 hstep
      obtain ⟨row, hrow, hdoubt, hbecomes⟩ := claimOf_becomes hd
      exact lives_doubt hrow hdoubt hbecomes rfl rfl (fun _ hi => by cases hi) (by rintro ⟨⟩)
  · cases hstep

/-- A verdict ends an active row. -/
theorem lives_rules {i : Nat} {a : Answer} (hstep : s.rules i a = some t) : Lives gone s t := by
  have hclear : ∀ (j : Nat) (e : Entry), Leaves s ((s.clearIfCurrent j e).endTask i) := fun j e =>
    (leaves_clearIfCurrent s j e).trans ⟨rfl, rfl, fun _ h => h⟩
  have hend : Leaves s (s.endTask i) := ⟨rfl, rfl, fun _ h => h⟩
  unfold World.rules at hstep
  split at hstep
  · next j current v htask =>
    split at hstep
    · cases hstep
      exact hend.lives
    split at hstep
    · next hunlocked =>
      split at hstep
      · split at hstep
        · cases hstep
          exact (hclear j current).lives
        · cases hstep
          exact hend.lives
      · next row hrow =>
        split at hstep
        · split at hstep
          · cases hstep
            exact (hclear j current).lives
          · cases hstep
            exact hend.lives
        · next hactive =>
          have hactive : row.state.terminal = false := by
            simp only [not_or, Bool.not_eq_true] at hactive
            exact hactive.1
          have hended : (if v = .done then JobState.succeeded else .failed).terminal = true := by
            split <;> rfl
          cases hstep
          exact lives_commit hrow hunlocked.1 (.ended hactive hended)
            (fun u hu => ⟨⟨rfl, rfl, fun _ h => h⟩, hu ▸ hunlocked.2⟩)
            fun u hu => ⟨⟨rfl, rfl, fun _ h => h⟩, hu ▸ hunlocked.2⟩
    · cases hstep
  · cases hstep

theorem lives_creates {j : Nat} {row : Row} {refreshed : Bool}
    (hstep : s.creates j row refreshed = some t) : Lives gone s t := by
  unfold World.creates at hstep
  split at hstep
  · next hnew =>
    obtain ⟨⟨hrow, hdoubt, -⟩, hstate, hattempt, hsequence⟩ := hnew
    have ht : t.rows = Function.update s.rows j (some row) ∧ t.doubt = s.doubt ∧
        t.phase = s.phase := by
      cases hstep
      cases refreshed <;> exact ⟨rfl, rfl, rfl⟩
    obtain ⟨hrows, hdoubts, hphase⟩ := ht
    intro i
    by_cases hij : i = j
    · subst hij
      rw [cell_eq hrow hdoubt, cell_eq (by rw [hrows, Function.update_self])
        ((congrFun hdoubts i).trans hdoubt), hphase]
      exact .creates hstate hattempt hsequence
    · exact stays_of ((congrFun hrows i).trans (Function.update_of_ne hij ..)) (congrFun hdoubts i)
        fun hi => by rwa [hphase] at hi
  · cases hstep

theorem lives_cancels {j : Nat} {a : Answer} (hstep : s.cancels j a = some t) : Lives gone s t := by
  unfold World.cancels at hstep
  split at hstep
  · next hunlocked =>
    split at hstep
    · cases hstep
    · next row hrow =>
      split at hstep
      · cases hstep
      · next hactive =>
        cases hstep
        exact lives_commit hrow hunlocked.1 (.ended (by simpa using hactive) rfl)
          (fun u hu => ⟨⟨rfl, rfl, fun _ h => h⟩, hu ▸ hunlocked.2⟩)
          fun u hu => ⟨⟨rfl, rfl, fun _ h => h⟩, hu ▸ hunlocked.2⟩
  · cases hstep

theorem lives_deletes {j : Nat} (hgone : gone j) (hstep : s.deletes j = some t) :
    Lives gone s t := by
  unfold World.deletes at hstep
  split at hstep
  · next hunlocked =>
    have hset : t.rows = Function.update s.rows j none ∧ t.doubt = s.doubt ∧
        t.phase = s.phase := by
      cases hstep
      exact ⟨rfl, rfl, rfl⟩
    obtain ⟨hrows, hdoubts, hphase⟩ := hset
    intro i
    by_cases hij : i = j
    · subst hij
      rw [cell_eq rfl hunlocked.1, cell_eq (by rw [hrows, Function.update_self])
        ((congrFun hdoubts i).trans hunlocked.1), hphase]
      exact .deletes hgone hunlocked.2
    · exact stays_of ((congrFun hrows i).trans (Function.update_of_ne hij ..)) (congrFun hdoubts i)
        fun hi => by rwa [hphase] at hi
  · cases hstep

/-- A transaction in doubt has landed or not. -/
theorem lives_resolves {j : Nat} {landed : Bool} (hstep : s.resolves j landed = some t) :
    Lives gone s t := by
  unfold World.resolves at hstep
  split at hstep
  · cases hstep
  · next d hdoubt =>
    have hsettled : t.doubt = Function.update s.doubt j none ∧ t.phase = s.phase ∧
        t.rows = if landed then Function.update s.rows j (some d.row) else s.rows := by
      cases hstep
      cases landed <;> exact ⟨rfl, rfl, rfl⟩
    obtain ⟨hdoubts, hphase, hrows⟩ := hsettled
    intro i
    by_cases hij : i = j
    · subst hij
      rw [cell_eq rfl hdoubt, cell_eq rfl (by rw [hdoubts, Function.update_self]), hphase, hrows]
      cases landed with
      | true =>
        rw [if_pos rfl, Function.update_self]
        exact .lands
      | false => exact .rollsBack
    · refine stays_of ?_ ((congrFun hdoubts i).trans (Function.update_of_ne hij ..))
        fun hi => by rwa [hphase] at hi
      rw [hrows]
      cases landed with
      | true => exact Function.update_of_ne hij ..
      | false => rfl

/-- Every step of the dispatcher is a step of the lifecycle for every job. -/
theorem lives_step (hsound : ∀ j, (s.cell j).Sound) (hstep : step s l = some t) :
    Lives (fun j => l = .deletes j) s t := by
  have hclear : ∀ (j : Nat) (e : Entry) (u : World), u.rows = (s.clearIfCurrent j e).rows →
      u.doubt = (s.clearIfCurrent j e).doubt → u.phase = (s.clearIfCurrent j e).phase →
      Leaves s u := fun j e u hrows hdoubt hphase =>
    (leaves_clearIfCurrent s j e).trans ⟨hrows, hdoubt, fun i hi => by rwa [hphase] at hi⟩
  cases l with
  | begins | recovers | sweeps | scans | asks | publishes | fetches | sends | prepares | uploads
  | delivers =>
    refine Leaves.lives ?_
    simp only [step, World.begins, World.recovers, World.scans, World.delivers, World.sweeps,
      World.asks, World.publishes, World.fetches, World.sends, World.prepares, World.uploads] at hstep
    repeat' split at hstep
    all_goals cases hstep
    all_goals first
      | exact Frees.leaves ⟨rfl, rfl, rfl⟩
      | exact (frees_dispatchRaised _ _ _).leaves
      -- the dispatch goes on with the lock
      | exact ⟨rfl, rfl, fun i hi => by rw [‹s.phase = _›]; exact hi⟩
  | probes | reports | charges | inspects | clears | connects | forgets | loses | grants
  | holdsSlots | kicks | reads | tracks | retires =>
    refine Leaves.lives ?_
    simp only [step, World.probes, World.reports, World.charges, World.inspects, World.clears,
      World.connects, World.loses, World.kicks, World.reads, World.tracks] at hstep
    repeat' split at hstep
    all_goals cases hstep
    all_goals first
      | exact Frees.leaves ⟨rfl, rfl, rfl⟩
      | exact ⟨rfl, rfl, fun _ h => h⟩
      | exact hclear _ _ _ rfl rfl rfl
      | exact (leaves_clearIfCurrent _ _ _).trans (Frees.leaves ⟨rfl, rfl, rfl⟩)
  | drops a =>
    simp only [step, World.drops] at hstep
    split at hstep
    · next h skipped hphase =>
      split at hstep
      · cases hstep
      · next row hrow =>
        cases hstep
        exact lives_held hsound (by rw [hphase]; rfl) hrow fun hqueued =>
          .ended (by rw [hqueued]; rfl) rfl
    · cases hstep
  | commits a =>
    simp only [step, World.commits] at hstep
    split at hstep
    · next h skipped _ hphase =>
      split at hstep
      · cases hstep
      · next row hrow =>
        cases hstep
        exact lives_held hsound (by rw [hphase]; rfl) hrow .started
    · cases hstep
  | requeues a => exact lives_requeues hstep
  | locks answered => exact lives_locks hstep
  | claims a => exact lives_claims hstep
  | rules i a => exact lives_rules hstep
  | creates j row refreshed => exact lives_creates hstep
  | cancels j a => exact lives_cancels hstep
  | deletes j => exact lives_deletes rfl hstep
  | resolves j landed => exact lives_resolves hstep

end Steps

/-! ## Runs -/

section Runs

variable {s t : World} {j : Nat} {row : Row}

theorem reach_sound (h : machine.Reach Machine.anyStep s) (j : Nat) : (s.cell j).Sound := by
  refine Machine.Reach.invariant (I := fun s => ∀ j, (s.cell j).Sound) ?_ ?_ h j
  · intro s hs j
    refine ⟨fun hheld => ?_, fun row' hdoubt => ?_⟩
    · simp [World.cell, hs.idle, Phase.holdsRow] at hheld
    · simp [World.cell, hs.doubt j] at hdoubt
  · intro s l t hsound _ hstep j
    exact (lives_step hsound hstep j).sound (hsound j)

/-- While the account of a job lasts, its row only goes on: the rows at both ends of a run are
joined by transactions of the lifecycle, and a row that has ended stays as it is. -/
theorem row_goes_on (hs : machine.Reach Machine.anyStep s)
    (hpath : machine.Path (fun _ l => l ≠ .deletes j) s t) (hrow : s.rows j = some row) :
    ∃ row', t.rows j = some row' ∧ Relation.ReflTransGen Row.Becomes row row' ∧ row.Grows row' ∧
      (row.state.terminal = true → row' = row) := by
  obtain ⟨row', hrow', hleads⟩ :
      ∃ row', t.rows j = some row' ∧ Relation.ReflTransGen Row.Becomes row row' := by
    induction hpath with
    | refl => exact ⟨row, hrow, .refl⟩
    | tail hpath hkept hstep ih =>
      obtain ⟨row₁, hrow₁, hleads⟩ := ih
      have hsound := reach_sound (hs.path (hpath.mono fun _ _ _ => trivial))
      obtain ⟨row₂, hrow₂, hlast⟩ := (lives_step hsound hstep j).leads hkept (hsound j) hrow₁
      exact ⟨row₂, hrow₂, hleads.trans hlast⟩
  exact ⟨row', hrow', hleads, grows_of_leads hleads, eq_of_ended hleads⟩

/-- A job that was cancelled while it ran, and the report of its worker. -/
theorem row_goes_on_sample : ∃ row, sampleJudged.rows 1 = some row ∧ row.state = .cancelled ∧
    sampleSettled.rows 1 = some row := by
  have hrun : machine.run sampleRunning cancelledDone = some sampleJudged := rfl
  have hreach : machine.Reach Machine.anyStep sampleJudged :=
    (sampleRunning_reach.mono fun _ _ _ => trivial).path (Machine.path_of_run_any hrun)
  have hstep : machine.step sampleJudged (.rules 0 .landed) = some sampleSettled := rfl
  obtain ⟨row, hrow, -, -, hfinal⟩ := row_goes_on (j := 1) hreach
    (.tail .refl (by simp) hstep) (rfl : _ = some _)
  exact ⟨_, rfl, rfl, hfinal rfl ▸ hrow⟩

/-- Where it held of the rows at the start, a job is attempted at most twice and claimed at most
once for each attempt. -/
theorem claimed_once_an_attempt {s₀ : World} (hs : Starts s₀)
    (hrows : ∀ j row, s₀.rows j = some row → row.Paced) (hpath : machine.Path Machine.anyStep s₀ s)
    (hrow : s.rows j = some row) : row.Paced := by
  have hinv : (∀ j, (s.cell j).Sound) ∧ ∀ j, (s.cell j).Paced := by
    refine hpath.invariant (I := fun s => (∀ j, (s.cell j).Sound) ∧ ∀ j, (s.cell j).Paced) ?_
      ⟨reach_sound ⟨s₀, hs, .refl⟩, fun j => ⟨hrows j, fun row hdoubt => ?_⟩⟩
    · rintro s l t ⟨hsound, hpaced⟩ - hstep
      have hlives := lives_step hsound hstep
      exact ⟨fun j => (hlives j).sound (hsound j), fun j => (hlives j).paced (hpaced j)⟩
    · simp [World.cell, hs.doubt j] at hdoubt
  exact (hinv.2 j).1 row hrow

theorem claimed_once_an_attempt_sample : ∃ row, sampleSettled.rows 1 = some row ∧ row.Paced := by
  have hrun : machine.run sampleStart (offered ++ [.publishes true, .sends true, .commits .landed] ++
      cancelledDone ++ [.rules 0 .landed]) = some sampleSettled := rfl
  refine ⟨_, rfl, claimed_once_an_attempt sampleStart_starts (fun j row hrow => ?_)
    (Machine.path_of_run_any hrun) (j := 1) rfl⟩
  change (if j = 1 then some _ else none) = some row at hrow
  split at hrow
  · cases hrow
    exact ⟨le_rfl, one_le_two, Nat.zero_le _, fun _ => Nat.one_pos⟩
  · cases hrow

end Runs

end Potocolom.Dispatch
