import Potocolom.Realtime.Runs

/-! # Slots and generations

What the placement invariant says to the outside: a worker's slots in use are the
sessions on it, one placement of a session runs at a time, opens of a session carry
rising generations, and only the newest attempt's worker moves a session. All of it
holds while no placement is disturbed; a placement that is disturbed breaks it. -/

namespace Potocolom.Realtime

namespace World

variable (s : World)

/-- How many sessions have `w` as their worker. -/
def sessionsOn (w : Nat) : Nat := Load.load (fun x => (s.rows x).worker) s.created w

/-- Slots are counted where the sessions are, and a session is placed by one loop. -/
structure SlotsCounted : Prop where
  counted : ∀ w ∈ s.registered, (s.workers w).slotsInUse = s.sessionsOn w
  one : ∀ t t' x, (s.tasks t).places x → (s.tasks t').places x → t = t'

/-- The worker's next message is about the newest attempt of `x`, which is on it. -/
def NewestAttempt (w x : Nat) : Prop :=
  ∃ m inbox, (s.workers w).inbox = m :: inbox ∧ m.session = x ∧ (s.rows x).worker = some w ∧
    (⟨x, m.generation, w⟩ : Open) ∈ s.opens ∧
    ∀ o ∈ s.opens, o.session = x → o.generation ≤ m.generation

/-- Attempts are told apart by their generations, and only the newest one's answers
count. -/
structure GenerationsFenced : Prop where
  rising : s.opens.Pairwise fun o o' => o.session = o'.session → o.generation < o'.generation
  moved : ∀ w s', step s (.fleetReads w) = some s' → ∀ x, s'.rows x ≠ s.rows x →
    s.NewestAttempt w x
  live : ∀ x w, (s.rows x).state = .live → (s.rows x).worker = some w →
    s.answered w x (s.rows x).controlGeneration

end World

namespace World

variable {s s' : World} {x w : Nat}

/-! ## Undisturbed runs -/

theorem Task.owns_of_places {task : Task} (h : task.places x) : task.owns x := by
  cases task <;> simp_all [Task.places, Task.owns]

theorem scheduleReassign_rows {y : Nat} (hne : y ≠ x) :
    (s.scheduleReassign x).rows y = s.rows y := by
  unfold scheduleReassign
  split
  · rename_i s' hs
    rcases transition_eq_some.mp hs with ⟨_, rfl⟩
    show (s.setRow x ({ · with state := .assigning })).rows y = s.rows y
    exact setRow_rows_of_ne _ hne
  · rfl

/-- A message moves at most the session it names, when that is on the sender and at
the message's generation. -/
theorem receive_moves {m : Message} (h : (s.receive w m).rows x ≠ s.rows x) :
    m.session = x ∧ (s.rows x).worker = some w ∧
      m.generation = (s.rows x).controlGeneration := by
  unfold receive at h
  dsimp only at h
  split at h
  case isFalse => exact absurd rfl h
  case isTrue hcurrent =>
    rcases eq_or_ne x m.session with rfl | hne
    · exact ⟨rfl, hcurrent.2⟩
    · have hready : ∀ s : World, (s.setReady m.session).rows x = s.rows x := by
        intro s
        show (s.setRow m.session ({ · with ready := true })).rows x = s.rows x
        exact setRow_rows_of_ne _ hne
      exfalso
      apply h
      split
      · split
        · rename_i s' hs
          rcases transition_eq_some.mp hs with ⟨_, rfl⟩
          rw [hready, setRow_rows_of_ne _ hne, setRow_rows_of_ne _ hne]
        · rfl
      · split
        · rw [hready, setRow_rows_of_ne _ hne]
        · exact scheduleReassign_rows hne
        · rfl

/-- While no placement is disturbed, every worker's slots in use are the sessions on
it, and no session is placed twice at once. -/
theorem slots_counted (h : realtimeMachine.Reach undisturbed s) : s.SlotsCounted := by
  have hinv := run_inv h
  constructor
  · intro w _
    exact hinv.process.slots w
  · intro t t' x ht ht'
    exact (hinv.session x).one t t' (Task.owns_of_places ht) (Task.owns_of_places ht')

/-- While no placement is disturbed, no two attempts of a session share a generation,
and only its newest attempt's worker moves it and makes it live. -/
theorem generations_fenced (h : realtimeMachine.Reach undisturbed s) : s.GenerationsFenced := by
  have hinv := run_inv h
  constructor
  · exact hinv.process.rising
  · intro w s' hstep x hmoved
    simp only [step] at hstep
    split at hstep
    case h_2 => cases hstep
    case h_1 m inbox _ hinbox =>
      obtain rfl := Option.some.inj hstep
      have hrow := (hinv.session x).row
      -- reading a message writes no row
      have hread : ∀ s₁ : World, s₁.rows = s.rows → (s₁.receive w m).rows x ≠ s.rows x →
          m.session = x ∧ (s.rows x).worker = some w ∧
            m.generation = (s.rows x).controlGeneration := by
        intro s₁ hrows hne
        rw [← hrows] at hne ⊢
        exact receive_moves hne
      have hcurrent := by
        apply hread _ _ hmoved
        cases m.answer <;> rfl
      rcases hcurrent with ⟨hx, hw, hg⟩
      refine ⟨m, inbox, hinbox, hx, hw, ?_, ?_⟩
      · rw [hg]
        exact hrow.held w hw
      · rw [hg]
        exact hrow.opened
  · intro x w hlive hw
    exact (hinv.session x).row.ready w hw (.inr hlive)

/-! ## Disturbed runs -/

section Sample

/-- A worker with one slot. -/
def sampleWorker (id : String) : Worker := ⟨id, ["model"], 1, 0, none, [], [], true⟩

/-- Three workers and a browser whose open is being sent to the first of them. -/
def sampleOpened : List Action :=
  [.hello (sampleWorker "a"), .hello (sampleWorker "b"), .hello (sampleWorker "c"),
    .connect (some 1) none, .openSession 0 "model"]

/-- The first worker answers ready and then refuses, while the send is not over. -/
def sampleDisturbed : List Action :=
  sampleOpened ++
    [.workerSends 0 ⟨.sessionReady, 0, 1⟩, .fleetReads 0,
      .workerSends 0 ⟨.sessionRefused, 0, 1⟩, .fleetReads 0, .starts 1, .interrupted 1]

/-- The handler goes on before the reassignment has its new generation. -/
def sampleLeak : List Action :=
  sampleDisturbed ++ [.sent 0, .wakes 0, .desiredRead 1]

/-- The handler goes on after it. -/
def sampleDoubled : List Action :=
  sampleDisturbed ++
    [.desiredRead 1, .sent 0, .sent 1, .workerSends 1 ⟨.sessionRefused, 0, 2⟩, .fleetReads 1,
      .wakes 0]

/-- A placement that is over, and a reassignment after it. -/
def sampleQuiet : List Action :=
  sampleOpened ++
    [.sent 0, .workerSends 0 ⟨.sessionReady, 0, 1⟩, .fleetReads 0, .wakes 0,
      .workerSends 0 ⟨.sessionRefused, 0, 1⟩, .fleetReads 0, .starts 1, .interrupted 1,
      .desiredRead 1, .sent 1, .workerSends 1 ⟨.sessionReady, 0, 2⟩, .fleetReads 1]

/-- Where a schedule ends. -/
def sampleEnd (schedule : List Action) : World :=
  (realtimeMachine.run (World.start true) schedule).getD (World.start true)

theorem sample_init : realtimeMachine.init (World.start true) := ⟨true, rfl⟩

theorem sample_reach (schedule : List Action)
    (h : realtimeMachine.run (World.start true) schedule = some (sampleEnd schedule)) :
    realtimeMachine.Reach Machine.anyStep (sampleEnd schedule) :=
  (Machine.Reach.of_init sample_init).path (Machine.path_of_run_any h)

theorem sampleQuiet_reach : realtimeMachine.Reach undisturbed (sampleEnd sampleQuiet) := by
  have hrun : realtimeMachine.run (World.start true) sampleQuiet = some (sampleEnd sampleQuiet) :=
    rfl
  have hok : realtimeMachine.RunOk undisturbed (World.start true) sampleQuiet := by decide
  exact (Machine.Reach.of_init sample_init).path (Machine.path_of_run hrun hok)

/-- Both loops open the session, and the worker the handler's loop opened it on keeps a
slot counted for nobody. -/
theorem slot_leaks : ¬ ∀ s, realtimeMachine.Reach Machine.anyStep s → s.SlotsCounted := by
  intro hall
  have hreach := sample_reach sampleLeak rfl
  have hregistered : 1 ∈ (sampleEnd sampleLeak).registered := by decide
  have hcounted := (hall _ hreach).counted 1 hregistered
  have huse : ((sampleEnd sampleLeak).workers 1).slotsInUse = 1 := rfl
  have hnone : (sampleEnd sampleLeak).sessionsOn 1 = 0 := by decide
  rw [huse, hnone] at hcounted
  cases hcounted

theorem slots_counted_sample :
    (sampleEnd sampleQuiet).SlotsCounted ∧ (sampleEnd sampleQuiet).sessionsOn 1 = 1 :=
  ⟨slots_counted sampleQuiet_reach, by decide⟩

/-- Two opens of the session carry one generation. -/
theorem generation_doubled :
    ¬ ∀ s, realtimeMachine.Reach Machine.anyStep s → s.GenerationsFenced := by
  intro hall
  have hreach := sample_reach sampleDoubled rfl
  have hrising := (hall _ hreach).rising
  have hopens : (sampleEnd sampleDoubled).opens = [⟨0, 1, 0⟩, ⟨0, 2, 1⟩, ⟨0, 2, 2⟩] := rfl
  rw [hopens] at hrising
  simp at hrising

theorem generations_fenced_sample :
    (sampleEnd sampleQuiet).GenerationsFenced ∧
      (sampleEnd sampleQuiet).opens = [⟨0, 1, 0⟩, ⟨0, 2, 1⟩] ∧
      ((sampleEnd sampleQuiet).rows 0).state = .live :=
  ⟨generations_fenced sampleQuiet_reach, rfl, rfl⟩

end Sample

end World

end Potocolom.Realtime
