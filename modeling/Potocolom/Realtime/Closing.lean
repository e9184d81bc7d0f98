import Potocolom.Realtime.Turns

/-! # What no coroutine does to a socket

Whatever the order of the awaits: a session outside the dictionary is on no worker, and
one that is still being re-checked is on none either. `Follows` says what any stretch
between two awaits leaves to the close calls; every function of the scheduler is such a
stretch. -/

namespace Potocolom.Realtime

namespace World

section Definitions

variable (s : World)

/-- No re-check of `x` is unfinished. -/
def unchecked (x : Nat) : Prop := ∀ t answer, s.tasks t ≠ .checking x answer

/-- A re-check of `x` is unfinished, and has not been answered by yes. -/
def rechecking (x : Nat) : Prop := ∃ t answer, s.tasks t = .checking x answer ∧ answer ≠ some true

/-- What holds of every socket in any interleaving. -/
structure SocketInv : Prop where
  hidden : ∀ x, x ∉ s.sessions → (s.rows x).worker = none
  checked : ∀ t x answer, s.tasks t = .checking x answer → (s.rows x).worker = none ∧
    ((s.rows x).state = .assigning ∨ (s.rows x).state = .ended) ∧
    ∀ t', (s.tasks t').owns x → t' = t
  listed : ∀ x ∈ s.sessions, x < s.created
  unborn : ∀ x, s.created ≤ x → (s.rows x).state = .ended
  owners : ∀ t x, (s.tasks t).owns x → x < s.created
  ended : ∀ t, s.spawned ≤ t → s.tasks t = .done

/-- The task is at work, and no refused re-check. -/
def Runs (t : Nat) : Prop :=
  t < s.spawned ∧ ∀ x answer, s.tasks t = .checking x answer → answer = some true

/-- What a stretch between two awaits leaves to the close calls: it registers nobody,
starts no re-check and no close call, and forwards only frames of registered sessions
that are not being re-checked. -/
structure Follows (s s' : World) : Prop where
  sessions : ∀ x ∈ s'.sessions, x ∈ s.sessions
  userId : ∀ x, (s'.rows x).userId = (s.rows x).userId
  authSessionId : ∀ x, (s'.rows x).authSessionId = (s.rows x).authSessionId
  created : s'.created = s.created
  spawned : s.spawned ≤ s'.spawned
  revoked : s.revoked ⊆ s'.revoked
  noneMode : s'.noneMode = true → s.noneMode = true
  calls : s'.calls = s.calls
  checking : ∀ t x answer, s'.tasks t = .checking x answer → s.tasks t = .checking x answer
  rechecking : ∀ x ∈ s'.sessions, s.rechecking x → s'.rechecking x
  closing : ∀ t call pending rest, s'.tasks t = .closing call pending rest →
    s.tasks t = .closing call pending rest
  forwards : ∃ sent, s'.forwards = s.forwards ++ sent ∧
    ∀ frame ∈ sent, frame.1 ∈ s.sessions ∧ ¬ s.rechecking frame.1

/-- A stretch, and the invariant at its end. -/
structure Goes (s s' : World) : Prop where
  inv : s'.SocketInv
  follows : s.Follows s'

end Definitions

variable {s s' s'' : World} {x y t w : Nat}

/-! ## Stretches -/

theorem Follows.refl (s : World) : s.Follows s where
  sessions := fun _ hx => hx
  userId := fun _ => rfl
  authSessionId := fun _ => rfl
  created := rfl
  spawned := Nat.le_refl _
  revoked := List.Subset.refl _
  noneMode := id
  calls := rfl
  checking := fun _ _ _ ht => ht
  rechecking := fun _ _ hx => hx
  closing := fun _ _ _ _ ht => ht
  forwards := ⟨[], by simp, by simp⟩

theorem Follows.trans (h₁ : s.Follows s') (h₂ : s'.Follows s'') : s.Follows s'' where
  sessions := fun x hx => h₁.sessions x (h₂.sessions x hx)
  userId := fun x => (h₂.userId x).trans (h₁.userId x)
  authSessionId := fun x => (h₂.authSessionId x).trans (h₁.authSessionId x)
  created := h₂.created.trans h₁.created
  spawned := Nat.le_trans h₁.spawned h₂.spawned
  revoked := List.Subset.trans h₁.revoked h₂.revoked
  noneMode := fun hmode => h₁.noneMode (h₂.noneMode hmode)
  calls := h₂.calls.trans h₁.calls
  checking := fun t x answer ht => h₁.checking t x answer (h₂.checking t x answer ht)
  rechecking := fun x hx hr => h₂.rechecking x hx (h₁.rechecking x (h₂.sessions x hx) hr)
  closing := fun t call pending rest ht =>
    h₁.closing t call pending rest (h₂.closing t call pending rest ht)
  forwards := by
    rcases h₁.forwards with ⟨sent₁, hsent₁, hall₁⟩
    rcases h₂.forwards with ⟨sent₂, hsent₂, hall₂⟩
    refine ⟨sent₁ ++ sent₂, by rw [hsent₂, hsent₁, List.append_assoc], ?_⟩
    intro frame hframe
    rcases List.mem_append.mp hframe with hold | hnew
    · exact hall₁ frame hold
    · have hlast := hall₂ frame hnew
      exact ⟨h₁.sessions _ hlast.1, fun hr => hlast.2 (h₁.rechecking _ hlast.1 hr)⟩

theorem Goes.refl (h : s.SocketInv) : s.Goes s := ⟨h, Follows.refl s⟩

theorem Goes.trans (h₁ : s.Goes s') (h₂ : s'.Goes s'') : s.Goes s'' :=
  ⟨h₂.inv, h₁.follows.trans h₂.follows⟩

theorem Follows.unchecked (h : s.Follows s') (hx : s.unchecked x) : s'.unchecked x :=
  fun t answer ht => hx t answer (h.checking t x answer ht)

theorem Follows.runs (h : s.Follows s') (ht : s.Runs t) : s'.Runs t :=
  ⟨lt_of_lt_of_le ht.1 h.spawned, fun x answer hc => ht.2 x answer (h.checking t x answer hc)⟩

/-- A session on a worker is not being re-checked. -/
theorem SocketInv.unchecked_of_worker (h : s.SocketInv) (hw : (s.rows x).worker = some w) :
    s.unchecked x := by
  intro t answer ht
  rw [(h.checked t x answer ht).1] at hw
  cases hw

theorem SocketInv.unchecked_of_state (h : s.SocketInv) (hassigning : (s.rows x).state ≠ .assigning)
    (hended : (s.rows x).state ≠ .ended) : s.unchecked x := by
  intro t answer ht
  rcases (h.checked t x answer ht).2.1 with hs | hs
  · exact hassigning hs
  · exact hended hs

theorem SocketInv.born (h : s.SocketInv) (hx : (s.rows x).state ≠ .ended) : x < s.created := by
  by_contra hge
  exact hx (h.unborn x (Nat.not_lt.mp hge))

/-! ## Writes -/

theorem setRow_goes {f : Session → Session} (h : s.SocketInv)
    (hworker : (f (s.rows x)).worker = (s.rows x).worker)
    (huser : (f (s.rows x)).userId = (s.rows x).userId)
    (hauth : (f (s.rows x)).authSessionId = (s.rows x).authSessionId)
    (hstate : (f (s.rows x)).state = (s.rows x).state ∨ (f (s.rows x)).state = .ended ∨
      ((s.rows x).state ≠ .ended ∧ ((f (s.rows x)).state = .assigning ∨ s.unchecked x))) :
    s.Goes (s.setRow x f) := by
  have hkeep : ∀ y, ((s.setRow x f).rows y).worker = (s.rows y).worker ∧
      ((s.setRow x f).rows y).userId = (s.rows y).userId ∧
      ((s.setRow x f).rows y).authSessionId = (s.rows y).authSessionId := by
    intro y
    rcases eq_or_ne y x with rfl | hne
    · rw [setRow_rows_self]
      exact ⟨hworker, huser, hauth⟩
    · rw [setRow_rows_of_ne _ hne]
      exact ⟨rfl, rfl, rfl⟩
  refine ⟨⟨?_, ?_, h.listed, ?_, h.owners, h.ended⟩, { Follows.refl s with
    userId := fun y => (hkeep y).2.1
    authSessionId := fun y => (hkeep y).2.2 }⟩
  · intro y hy
    rw [(hkeep y).1]
    exact h.hidden y hy
  · intro t y answer ht
    have hold := h.checked t y answer ht
    refine ⟨(hkeep y).1.trans hold.1, ?_, hold.2.2⟩
    rcases eq_or_ne y x with rfl | hne
    · rw [setRow_rows_self]
      rcases hstate with hs | hs | ⟨_, hs | hs⟩
      · rw [hs]
        exact hold.2.1
      · exact .inr hs
      · exact .inl hs
      · exact absurd ht (hs t answer)
    · rw [setRow_rows_of_ne _ hne]
      exact hold.2.1
  · intro y hy
    have hold := h.unborn y hy
    rcases eq_or_ne y x with rfl | hne
    · rw [setRow_rows_self]
      rcases hstate with hs | hs | ⟨hs, _⟩
      · rw [hs]
        exact hold
      · exact hs
      · exact absurd hold hs
    · rw [setRow_rows_of_ne _ hne]
      exact hold

/-- A worker object, the clock, or another part of the world that no socket reads. -/
theorem aside_goes (h : s.SocketInv) (hrows : s'.rows = s.rows) (hsessions : s'.sessions = s.sessions)
    (hcreated : s'.created = s.created) (htasks : s'.tasks = s.tasks)
    (hspawned : s'.spawned = s.spawned) (hrevoked : s.revoked ⊆ s'.revoked)
    (hmode : s'.noneMode = true → s.noneMode = true) (hcalls : s'.calls = s.calls)
    (hforwards : s'.forwards = s.forwards) : s.Goes s' where
  inv := by
    refine ⟨?_, ?_, ?_, ?_, ?_, ?_⟩
    · rw [hsessions, hrows]
      exact h.hidden
    · rw [htasks, hrows]
      exact h.checked
    · rw [hsessions, hcreated]
      exact h.listed
    · rw [hcreated, hrows]
      exact h.unborn
    · rw [htasks, hcreated]
      exact h.owners
    · rw [htasks, hspawned]
      exact h.ended
  follows := by
    refine ⟨?_, ?_, ?_, hcreated, by rw [hspawned], hrevoked, hmode, hcalls, ?_, ?_, ?_,
      ⟨[], by simp [hforwards], by simp⟩⟩
    · rw [hsessions]
      exact fun _ hx => hx
    · rw [hrows]
      exact fun _ => rfl
    · rw [hrows]
      exact fun _ => rfl
    · rw [htasks]
      exact fun _ _ _ ht => ht
    · intro x _ hr
      unfold World.rechecking at hr ⊢
      rw [htasks]
      exact hr
    · rw [htasks]
      exact fun _ _ _ _ ht => ht

theorem drop_goes (h : s.SocketInv) : s.Goes (s.drop x) := by
  cases hw : (s.rows x).worker with
  | none =>
    rw [drop_of_none hw]
    exact Goes.refl h
  | some w =>
    rw [drop_of_some hw]
    have hrow : s.Goes (s.setRow x ({ · with worker := none })) := by
      refine ⟨⟨?_, ?_, h.listed, ?_, h.owners, h.ended⟩, { Follows.refl s with
        userId := ?_
        authSessionId := ?_ }⟩
      · intro y hy
        rcases eq_or_ne y x with rfl | hne
        · rw [setRow_rows_self]
        · rw [setRow_rows_of_ne _ hne]
          exact h.hidden y hy
      · intro t y answer ht
        have hne : y ≠ x := by
          rintro rfl
          exact h.unchecked_of_worker hw t answer ht
        rw [setRow_rows_of_ne _ hne]
        exact h.checked t y answer ht
      · intro y hy
        rcases eq_or_ne y x with rfl | hne
        · rw [setRow_rows_self]
          exact h.unborn y hy
        · rw [setRow_rows_of_ne _ hne]
          exact h.unborn y hy
      · intro y
        rcases eq_or_ne y x with rfl | hne
        · rw [setRow_rows_self]
        · rw [setRow_rows_of_ne _ hne]
      · intro y
        rcases eq_or_ne y x with rfl | hne
        · rw [setRow_rows_self]
        · rw [setRow_rows_of_ne _ hne]
    exact hrow.trans (aside_goes hrow.inv rfl rfl rfl rfl rfl (List.Subset.refl _) id rfl rfl)

/-- A session takes a slot while it is registered and not being re-checked. -/
theorem assign_goes (h : s.SocketInv) (hx : x ∈ s.sessions) (hu : s.unchecked x) :
    s.Goes (s.assign x w) := by
  have hrows : ∀ y, y ≠ x → (s.assign x w).rows y = s.rows y := by
    intro y hne
    simp [World.assign, World.take, World.setRow, World.setWorker, hne]
  refine ⟨⟨?_, ?_, h.listed, ?_, h.owners, h.ended⟩, { Follows.refl s with
    userId := ?_
    authSessionId := ?_ }⟩
  · intro y hy
    rcases eq_or_ne y x with rfl | hne
    · exact absurd hx hy
    · rw [hrows y hne]
      exact h.hidden y hy
  · intro t y answer ht
    have hne : y ≠ x := by
      rintro rfl
      exact hu t answer ht
    rw [hrows y hne]
    exact h.checked t y answer ht
  · intro y hy
    rcases eq_or_ne y x with rfl | hne
    · rw [assign_rows_self]
      exact h.unborn y hy
    · rw [hrows y hne]
      exact h.unborn y hy
  · intro y
    rcases eq_or_ne y x with rfl | hne
    · rw [assign_rows_self]
    · rw [hrows y hne]
  · intro y
    rcases eq_or_ne y x with rfl | hne
    · rw [assign_rows_self]
    · rw [hrows y hne]

/-- A frame goes to the worker its session is on. -/
theorem forward_goes (h : s.SocketInv) (hw : (s.rows x).worker = some w) :
    s.Goes { s with forwards := s.forwards ++ [(x, w)] } where
  inv := ⟨h.hidden, h.checked, h.listed, h.unborn, h.owners, h.ended⟩
  follows := by
    refine { Follows.refl s with forwards := ⟨[(x, w)], rfl, ?_⟩ }
    intro frame hframe
    obtain rfl := List.mem_singleton.mp hframe
    refine ⟨?_, ?_⟩
    · by_contra hnot
      rw [h.hidden x hnot] at hw
      cases hw
    · rintro ⟨t, answer, ht, _⟩
      exact h.unchecked_of_worker hw t answer ht

/-! ## Tasks -/

/-- A running task that comes to its next await leaves the re-checks as they are. -/
theorem checking_put {u : Nat} {answer : Option Bool} (ht : s.Runs t) (hne : answer ≠ some true)
    (hu : s.tasks u = .checking x answer) (task : Task) :
    (s.put t task).tasks u = .checking x answer := by
  rw [put_tasks_of_ne]
  · exact hu
  · rintro rfl
    exact hne (ht.2 x answer hu)

theorem rechecking_put (ht : s.Runs t) (task : Task) (hr : s.rechecking x) :
    (s.put t task).rechecking x := by
  rcases hr with ⟨u, answer, hu, hne⟩
  exact ⟨u, answer, checking_put ht hne hu task, hne⟩

theorem checking_of_put {task : Task} {u : Nat} {answer : Option Bool}
    (hchecking : ∀ x answer, task ≠ .checking x answer)
    (hu : (s.put t task).tasks u = .checking x answer) : s.tasks u = .checking x answer := by
  rcases eq_or_ne u t with rfl | hne
  · rw [put_tasks_self] at hu
    exact absurd hu (hchecking x answer)
  · rw [put_tasks_of_ne _ hne] at hu
    exact hu

theorem SocketInv.put {task : Task} (h : s.SocketInv) (ht : t < s.spawned)
    (hchecking : ∀ x answer, task ≠ .checking x answer)
    (howns : ∀ x, task.owns x → s.unchecked x ∧ x < s.created) : (s.put t task).SocketInv := by
  refine ⟨h.hidden, ?_, h.listed, h.unborn, ?_, ?_⟩
  · intro u x answer hu
    have hu' := checking_of_put hchecking hu
    have hcheck := h.checked u x answer hu'
    refine ⟨hcheck.1, hcheck.2.1, ?_⟩
    intro v hv
    rcases eq_or_ne v t with rfl | hne
    · rw [put_tasks_self] at hv
      exact absurd hu' ((howns x hv).1 u answer)
    · rw [put_tasks_of_ne _ hne] at hv
      exact hcheck.2.2 v hv
  · intro u x hu
    rcases eq_or_ne u t with rfl | hne
    · rw [put_tasks_self] at hu
      exact (howns x hu).2
    · rw [put_tasks_of_ne _ hne] at hu
      exact h.owners u x hu
  · intro u hu
    have hlt : t < u := lt_of_lt_of_le ht hu
    rw [put_tasks_of_ne _ (by omega)]
    exact h.ended u hu

/-- A task comes to its next await. -/
theorem put_goes (task : Task) (h : s.SocketInv) (ht : s.Runs t)
    (hchecking : ∀ x answer, task ≠ .checking x answer)
    (hclosing : ∀ call pending rest, task ≠ .closing call pending rest)
    (howns : ∀ x, task.owns x → s.unchecked x ∧ x < s.created) : s.Goes (s.put t task) := by
  refine ⟨h.put ht.1 hchecking howns, { Follows.refl s with
    checking := fun u x answer hu => checking_of_put hchecking hu
    rechecking := fun x _ hr => rechecking_put ht task hr
    closing := ?_ }⟩
  intro u call pending rest hu
  rcases eq_or_ne u t with rfl | hne
  · rw [put_tasks_self] at hu
    exact absurd hu (hclosing call pending rest)
  · rw [put_tasks_of_ne _ hne] at hu
    exact hu

theorem stop_goes (h : s.SocketInv) (ht : s.Runs t) : s.Goes (s.put t .done) :=
  put_goes .done h ht (by simp) (by simp) fun _ hx => hx.elim

theorem next_goes (h : s.SocketInv) :
    s.Goes { s with spawned := s.spawned + 1 } ∧
      ({ s with spawned := s.spawned + 1 } : World).Runs s.spawned := by
  refine ⟨⟨⟨h.hidden, h.checked, h.listed, h.unborn, h.owners, ?_⟩,
    { Follows.refl s with spawned := Nat.le_succ _ }⟩, Nat.lt_succ_self _, ?_⟩
  · intro t ht
    exact h.ended t (Nat.le_of_succ_le ht)
  · intro x answer ht
    have hdone : s.tasks s.spawned = .done := h.ended _ (Nat.le_refl _)
    have hchecking : s.tasks s.spawned = .checking x answer := ht
    rw [hdone] at hchecking
    cases hchecking

theorem spawn_goes (task : Task) (h : s.SocketInv)
    (hchecking : ∀ x answer, task ≠ .checking x answer)
    (hclosing : ∀ call pending rest, task ≠ .closing call pending rest)
    (howns : ∀ x, task.owns x → s.unchecked x ∧ x < s.created) : s.Goes (s.spawn task) := by
  have hnext := next_goes h
  exact hnext.1.trans (put_goes task hnext.1.inv hnext.2 hchecking hclosing howns)

theorem Task.wake_checking {task : Task} {answer : Option Bool} :
    task.wake x = .checking y answer ↔ task = .checking y answer := by
  unfold Task.wake
  split
  · split
    · split <;> simp
    · simp
  · rfl

theorem Task.wake_closing {task : Task} {call : CloseCall} {pending : List Nat}
    {rest : List (Nat × Nat)} :
    task.wake x = .closing call pending rest ↔ task = .closing call pending rest := by
  unfold Task.wake
  split
  · split
    · split <;> simp
    · simp
  · rfl

theorem setReady_goes (h : s.SocketInv) : s.Goes (s.setReady x) := by
  have hrow : s.Goes (s.setRow x ({ · with ready := true })) :=
    setRow_goes h rfl rfl rfl (.inl rfl)
  refine hrow.trans ⟨⟨hrow.inv.hidden, ?_, hrow.inv.listed, hrow.inv.unborn, ?_, ?_⟩,
    { Follows.refl (s.setRow x ({ · with ready := true })) with
      checking := fun t y answer ht => Task.wake_checking.mp ht
      rechecking := ?_
      closing := fun t call pending rest ht => Task.wake_closing.mp ht }⟩
  · intro t y answer ht
    have hcheck := hrow.inv.checked t y answer (Task.wake_checking.mp ht)
    exact ⟨hcheck.1, hcheck.2.1, fun u hu => hcheck.2.2 u (Task.wake_owns.mp hu)⟩
  · intro t y ht
    exact hrow.inv.owners t y (Task.wake_owns.mp ht)
  · intro t ht
    show (s.tasks t).wake x = .done
    rw [h.ended t ht]
    rfl
  · rintro y _ ⟨t, answer, ht, hne⟩
    exact ⟨t, answer, Task.wake_checking.mpr ht, hne⟩

/-! ## The functions of the scheduler -/

theorem transition_goes {expected : List SessionState} {new : SessionState} (h : s.SocketInv)
    (hs : s.transition x expected new = some s')
    (hnew : new = .assigning ∨ new = .ended ∨ s.unchecked x) : s.Goes s' := by
  rcases transition_eq_some.mp hs with ⟨⟨hended, _⟩, rfl⟩
  refine setRow_goes h rfl rfl rfl ?_
  rcases hnew with hnew | hnew | hu
  · exact .inr (.inr ⟨hended, .inl hnew⟩)
  · exact .inr (.inl hnew)
  · exact .inr (.inr ⟨hended, .inr hu⟩)

/-- A placement of the session is scheduled out of a state in which no re-check is. -/
theorem schedule_goes {caller : Caller} {old : SessionState} (h : s.SocketInv)
    (hs : s.transition x [old] .assigning = some s') (hassigning : old ≠ .assigning)
    (hended : old ≠ .ended) : s.Goes (s'.spawn (.scheduled caller x)) := by
  have hgoes := transition_goes h hs (.inl rfl)
  rcases transition_eq_some.mp hs with ⟨⟨_, hstate⟩, rfl⟩
  have hold : (s.rows x).state = old := by simpa using hstate
  have hu : s.unchecked x := h.unchecked_of_state (by rwa [hold]) (by rwa [hold])
  have hborn : x < s.created := h.born (by rwa [hold])
  apply hgoes.trans
  apply spawn_goes (.scheduled caller x) hgoes.inv
  · simp
  · simp
  · rintro y rfl
    exact ⟨hgoes.follows.unchecked hu, hborn⟩

theorem admitOne_goes (h : s.SocketInv) : s.Goes (s.admitOne x) := by
  unfold admitOne
  split
  · exact Goes.refl h
  split
  · rename_i s' hs
    exact schedule_goes h hs (by simp) (by simp)
  · exact Goes.refl h

/-- What each step of a loop leaves, the loop leaves. -/
theorem foldl_goes {f : World → Nat → World} {xs : List Nat}
    (hf : ∀ (s : World) (x : Nat), s.SocketInv → s.Goes (f s x)) (h : s.SocketInv) : s.Goes (xs.foldl f s) := by
  induction xs generalizing s with
  | nil => exact Goes.refl h
  | cons x xs ih =>
    have hfirst := hf s x h
    exact hfirst.trans (ih hfirst.inv)

theorem admitQueued_goes (h : s.SocketInv) : s.Goes s.admitQueued :=
  foldl_goes (fun _ _ => admitOne_goes) h

theorem scheduleReassign_goes (h : s.SocketInv) : s.Goes (s.scheduleReassign x) := by
  unfold scheduleReassign
  split
  · rename_i s' hs
    exact schedule_goes h hs (by simp) (by simp)
  · exact Goes.refl h

theorem scheduleResumeIdle_goes (h : s.SocketInv) : s.Goes (s.scheduleResumeIdle x) := by
  unfold scheduleResumeIdle
  split
  · rename_i s' hs
    exact schedule_goes h hs (by simp) (by simp)
  · exact Goes.refl h

theorem release_goes (h : s.SocketInv) : s.Goes (s.release x).1 := by
  have hdrop := drop_goes (x := x) h
  rcases release_cases (s := s) (x := x) with hr | hr
  · rw [hr]
    exact hdrop
  · rw [hr]
    exact hdrop.trans (admitQueued_goes hdrop.inv)

/-- The last act of a task is to release. -/
theorem putRelease_goes (h : s.SocketInv) (ht : s.Runs t) (awaits : Bool) :
    s.Goes (s.put t (if awaits then .releasing else .done)) := by
  apply put_goes _ h ht
  · cases awaits <;> simp
  · cases awaits <;> simp
  · intro x hx
    cases awaits <;> exact hx.elim

theorem releaseLast_goes (h : s.SocketInv) (ht : s.Runs t) : s.Goes (s.releaseLast t x) := by
  have hrelease := release_goes (x := x) h
  exact hrelease.trans (putRelease_goes hrelease.inv (hrelease.follows.runs ht) _)

theorem unregister_goes (h : s.SocketInv) (hnone : (s.rows x).worker = none) :
    s.Goes (s.unregister x) where
  inv := by
    refine ⟨?_, h.checked, ?_, h.unborn, h.owners, h.ended⟩
    · intro y hy
      rcases eq_or_ne y x with rfl | hne
      · exact hnone
      · apply h.hidden y
        intro hmem
        exact hy (List.mem_filter.mpr ⟨hmem, by simpa using hne⟩)
    · intro y hy
      exact h.listed y (List.mem_filter.mp hy).1
  follows := { Follows.refl s with
    sessions := fun y hy => (List.mem_filter.mp hy).1
    rechecking := fun _ _ hr => hr }

theorem pop_goes (h : s.SocketInv) (hnone : (s.rows x).worker = none) : s.Goes (s.pop x) := by
  have hunregister := unregister_goes h hnone
  rw [pop_eq]
  exact hunregister.trans (setRow_goes hunregister.inv rfl rfl rfl (.inr (.inl rfl)))

/-- A session taken out of the dictionary is released. -/
theorem popRelease_goes (h : s.SocketInv) :
    s.Goes ((s.pop x).release x).1 ∧ x ∉ ((s.pop x).release x).1.sessions := by
  have hdrop := drop_goes (x := x) h
  have hpop : s.Goes ((s.pop x).drop x) := by
    rw [pop_drop]
    exact hdrop.trans (pop_goes hdrop.inv (by simp))
  have hgone : x ∉ ((s.pop x).drop x).sessions := by
    rw [pop_eq, drop_sessions]
    simp [unregister, World.setRow]
  rcases release_cases (s := s.pop x) (x := x) with hr | hr
  · rw [hr]
    exact ⟨hpop, hgone⟩
  · rw [hr]
    have hqueue := admitQueued_goes hpop.inv
    exact ⟨hpop.trans hqueue, fun hx => hgone (hqueue.follows.sessions x hx)⟩

theorem tearDown_goes (h : s.SocketInv) (ht : s.Runs t) : s.Goes (s.tearDown t x) := by
  have hrelease := (popRelease_goes (x := x) h).1
  exact hrelease.trans (putRelease_goes hrelease.inv (hrelease.follows.runs ht) _)

/-! ## Placements -/

theorem bump_goes (h : s.SocketInv) : s.Goes (s.bump x) := setRow_goes h rfl rfl rfl (.inl rfl)

theorem place_goes {skipped : List String} (h : s.SocketInv) (hu : s.unchecked x) :
    s.Goes (s.place x skipped).1 := by
  unfold place
  split
  · rename_i hlive
    split
    · exact Goes.refl h
    · exact assign_goes h hlive.1 hu
  · exact Goes.refl h

theorem assigned_goes {attempt : Attempt} {ok : Bool} (h : s.SocketInv) (hu : s.unchecked x) :
    s.Goes (s.assigned x attempt ok).1 := by
  unfold assigned
  split
  · exact Goes.refl h
  split
  · exact Goes.refl h
  · dsimp only
    split
    · have hbump := bump_goes (x := x) h
      exact hbump.trans (place_goes hbump.inv (hbump.follows.unchecked hu))
    · exact place_goes h hu

theorem giveUp_goes {attempt : Attempt} (h : s.SocketInv) (hu : s.unchecked x) :
    s.Goes (s.giveUp x attempt).1 := by
  unfold giveUp
  split
  · have hdrop := drop_goes (x := x) h
    dsimp only
    split
    · exact hdrop
    · exact hdrop.trans (assigned_goes hdrop.inv (hdrop.follows.unchecked hu))
  · exact assigned_goes h hu

theorem woken_goes {attempt : Attempt} (h : s.SocketInv) (hu : s.unchecked x) :
    s.Goes (s.woken x attempt).1 := by
  unfold woken
  split
  · exact assigned_goes h hu
  split
  · split
    · rename_i s' hs
      have hlive := transition_goes h hs (.inr (.inr hu))
      have hstamp : s'.Goes (s'.setRow x ({ · with assignedAt := s'.now })) :=
        setRow_goes hlive.inv rfl rfl rfl (.inl rfl)
      have hstart := hlive.trans hstamp
      exact hstart.trans (assigned_goes hstart.inv (hstart.follows.unchecked hu))
    · exact assigned_goes h hu
  · exact giveUp_goes h hu

theorem forwardPending_goes (h : s.SocketInv) : s.Goes (s.forwardPending x) := by
  unfold forwardPending
  have hrow : s.Goes (s.setRow x ({ · with pendingFrame := false })) :=
    setRow_goes h rfl rfl rfl (.inl rfl)
  dsimp only
  split
  · rename_i w _ hw
    exact hrow.trans (forward_goes hrow.inv hw)
  · exact hrow

theorem requeue_goes (h : s.SocketInv) (hu : s.unchecked x) (hs : s.requeue x = some s') :
    s.Goes s' := by
  unfold requeue at hs
  rw [Option.map_eq_some_iff] at hs
  rcases hs with ⟨s₁, hs₁, rfl⟩
  have hqueued := transition_goes h hs₁ (.inr (.inr hu))
  exact hqueued.trans (setRow_goes hqueued.inv rfl rfl rfl (.inl rfl))

theorem requeue!_goes (h : s.SocketInv) (hu : s.unchecked x) : s.Goes (s.requeue! x) := by
  unfold requeue!
  cases hs : s.requeue x with
  | none => exact Goes.refl h
  | some s' => exact requeue_goes h hu hs

theorem serving_goes (h : s.SocketInv) (ht : s.Runs t) : s.Goes (s.put t (.serving x)) :=
  put_goes (.serving x) h ht (by simp) (by simp) fun _ hy => hy.elim

theorem placed_goes {caller : Caller} {ok : Bool} (h : s.SocketInv) (ht : s.Runs t)
    (hu : s.unchecked x) : s.Goes (s.placed t caller x ok) := by
  have hrelease := releaseLast_goes (x := x) h ht
  have hqueue := requeue!_goes h hu
  cases ok with
  | true =>
    cases caller with
    | handler => exact serving_goes h ht
    | admission =>
      simp only [placed]
      split
      · have hrow : s.Goes (s.setRow x ({ · with queuedAt := none })) :=
          setRow_goes h rfl rfl rfl (.inl rfl)
        exact hrow.trans (forwardPending_goes hrow.inv)
      · exact hrelease
    | reassign =>
      simp only [placed]
      split
      · exact Goes.refl h
      · exact hrelease
    | resumeIdle =>
      simp only [placed]
      split
      · exact forwardPending_goes h
      · exact hrelease
  | false =>
    cases caller with
    | handler => exact hqueue.trans (serving_goes hqueue.inv (hqueue.follows.runs ht))
    | admission => exact hqueue
    | resumeIdle => exact hqueue
    | reassign =>
      simp only [placed]
      split
      · rename_i s' hs
        have hone := requeue_goes h hu hs
        exact hone.trans (admitQueued_goes hone.inv)
      · exact Goes.refl h

/-- Wherever a placement has got, its task goes on. -/
theorem goOn_goes {caller : Caller} {r : World × Placed} (hr : s.Goes r.1) (ht : s.Runs t)
    (hu : s.unchecked x) (hborn : x < s.created) : s.Goes (goOn t caller x r) := by
  rcases r with ⟨s', ok | attempt⟩
  · exact hr.trans (placed_goes hr.inv (hr.follows.runs ht) (hr.follows.unchecked hu))
  · apply hr.trans
    apply put_goes (.placing caller x attempt) hr.inv (hr.follows.runs ht)
    · simp
    · simp
    · rintro y rfl
      exact ⟨hr.follows.unchecked hu, by rwa [hr.follows.created]⟩

/-- A task stops before its placement. -/
theorem hold_goes (task : Task) (h : s.SocketInv) (ht : s.Runs t) (hu : s.unchecked x)
    (hborn : x < s.created) (hx : ∀ y, task.owns y → x = y)
    (hchecking : ∀ y answer, task ≠ .checking y answer)
    (hclosing : ∀ call pending rest, task ≠ .closing call pending rest) :
    s.Goes (s.put t task) := by
  apply put_goes task h ht hchecking hclosing
  intro y hy
  obtain rfl := hx y hy
  exact ⟨hu, hborn⟩

theorem reopen_goes {excluded : List String} (h : s.SocketInv) (ht : s.Runs t)
    (hu : s.unchecked x) (hborn : x < s.created) : s.Goes (s.reopen t x excluded) := by
  have hbump := bump_goes (x := x) h
  exact goOn_goes (hbump.trans (place_goes hbump.inv (hbump.follows.unchecked hu))) ht hu hborn

theorem interrupted_goes {excluded : List String} (h : s.SocketInv) (ht : s.Runs t)
    (hu : s.unchecked x) (hborn : x < s.created) : s.Goes (s.interrupted t x excluded) := by
  unfold World.interrupted
  split
  · split
    · exact hold_goes _ h ht hu hborn (fun _ hy => hy) (by simp) (by simp)
    · exact reopen_goes h ht hu hborn
  · exact Goes.refl h

/-- What `reassign` does with the session's worker. -/
theorem leaveWorker_goes (h : s.SocketInv) (ht : s.Runs t) (hu : s.unchecked x)
    (hborn : x < s.created) :
    s.Goes (match (s.rows x).worker with
      | some w =>
        let s := s.drop x
        let excluded := [(s.workers w).id]
        if w ∈ s.registered then s.put t (.interrupting x excluded)
        else s.interrupted t x excluded
      | none => s.interrupted t x []) := by
  split
  · have hdrop := drop_goes (x := x) h
    have ht' := hdrop.follows.runs ht
    have hu' := hdrop.follows.unchecked hu
    have hborn' : x < (s.drop x).created := by simpa using hborn
    dsimp only
    split
    · exact hdrop.trans (hold_goes _ hdrop.inv ht' hu' hborn' (fun _ hy => hy) (by simp)
        (by simp))
    · exact hdrop.trans (interrupted_goes hdrop.inv ht' hu' hborn')
  · exact interrupted_goes h ht hu hborn

theorem reassign_goes (h : s.SocketInv) (ht : s.Runs t) (hu : s.unchecked x)
    (hborn : x < s.created) : s.Goes (s.reassign t x) := by
  have htransition : s.Goes (s.transition! x [.live] .assigning) := by
    unfold transition!
    cases hs : s.transition x [.live] .assigning with
    | none => exact Goes.refl h
    | some s' => exact transition_goes h hs (.inl rfl)
  have hborn' : x < (s.transition! x [.live] .assigning).created := by
    rwa [htransition.follows.created]
  unfold World.reassign
  split
  · exact htransition.trans (leaveWorker_goes htransition.inv (htransition.follows.runs ht)
      (htransition.follows.unchecked hu) hborn')
  · exact htransition.trans (leaveWorker_goes htransition.inv (htransition.follows.runs ht)
      (htransition.follows.unchecked hu) hborn')
  · exact Goes.refl h

theorem resumeIdle_goes (h : s.SocketInv) (ht : s.Runs t) (hu : s.unchecked x)
    (hborn : x < s.created) : s.Goes (s.resumeIdle t x) := by
  unfold World.resumeIdle
  split
  · have hbump := bump_goes (x := x) h
    exact goOn_goes (hbump.trans (place_goes hbump.inv (hbump.follows.unchecked hu))) ht hu hborn
  · exact Goes.refl h

/-! ## Workers -/

theorem orphan_goes (h : s.SocketInv) : s.Goes (s.orphan x) := by
  unfold orphan
  split
  · have hrow : s.Goes (s.setRow x ({ · with attemptOk := false })) :=
      setRow_goes h rfl rfl rfl (.inl rfl)
    exact hrow.trans (setReady_goes hrow.inv)
  · exact scheduleReassign_goes h
  · exact Goes.refl h

theorem receive_goes {m : Message} (h : s.SocketInv) : s.Goes (s.receive w m) := by
  unfold receive
  dsimp only
  split
  case isFalse => exact Goes.refl h
  case isTrue hcurrent =>
    have hu := h.unchecked_of_worker hcurrent.2.1
    split
    · split
      · rename_i s' hs
        have hlive := transition_goes h hs (.inr (.inr hu))
        have hrow : s'.Goes (s'.setRow m.session
            ({ · with assignedAt := s'.now, attemptOk := true })) :=
          setRow_goes hlive.inv rfl rfl rfl (.inl rfl)
        have hstamped := hlive.trans hrow
        exact hstamped.trans (setReady_goes hstamped.inv)
      · exact Goes.refl h
    · split
      · have hrow : s.Goes (s.setRow m.session ({ · with attemptOk := false })) :=
          setRow_goes h rfl rfl rfl (.inl rfl)
        exact hrow.trans (setReady_goes hrow.inv)
      · exact scheduleReassign_goes h
      · exact Goes.refl h

theorem canvasFrame_goes (h : s.SocketInv) : s.Goes (s.canvasFrame x) := by
  have hclock : s.Goes (s.setRow x ({ · with lastInput := s.now })) :=
    setRow_goes h rfl rfl rfl (.inl rfl)
  have hframe : ∀ pending : Bool, s.Goes ((s.setRow x ({ · with lastInput := s.now })).setRow x
      ({ · with pendingFrame := pending })) := fun _ =>
    hclock.trans (setRow_goes hclock.inv rfl rfl rfl (.inl rfl))
  unfold canvasFrame
  dsimp only
  split
  · exact (hframe true).trans (scheduleResumeIdle_goes (hframe true).inv)
  · exact hframe true
  · exact hframe true
  · split
    · rename_i w hw
      refine (hframe false).trans (forward_goes (hframe false).inv ?_)
      rw [setRow_rows_self]
      exact hw
    · exact hclock

end World

end Potocolom.Realtime
