import Potocolom.Realtime.Revocation

/-! # The admission queue

A slot belongs to whichever coroutine next asks for a worker: a browser that has just
connected, a resumed or a reassigned session does not look at the queue. The queue itself
is left in order, and a session keeps its place in it until an attempt has gone live. -/

namespace Potocolom.Realtime

namespace World

section Definitions

variable (s s' : World)

/-- `session.queued_at or 0.0`, the key of `queued_sessions`. -/
def joined (x : Nat) : Nat := (s.rows x).queuedAt.getD 0

/-- A session of the dictionary that waits. -/
def waits (x : Nat) : Prop := x ∈ s.sessions ∧ (s.rows x).state = .queued

/-- `admit` of `x` has been created, as the task `i`, and has not started. -/
def admits (i x : Nat) : Prop := s.tasks i = .scheduled .admission x

/-- The step leaves the queue in order: when it takes `y` from the queue, every session
of the same model that waited with a smaller `queued_at` has ended or was taken before. -/
def TakenInOrder : Prop :=
  ∀ j y, ¬ s.admits j y → s'.admits j y → ∀ x, s.waits x →
    (s.rows x).modelId = (s'.rows y).modelId → s.joined x < s'.joined y →
    (s'.rows x).state = .ended ∨ ∃ i < j, s'.admits i x

/-- The session is live, or its worker has answered the current attempt by ready. -/
def wentLive (x : Nat) : Prop := (s.rows x).state = .live ∨ (s.rows x).attemptOk = true

/-- The step keeps every `queued_at`, save of a session that has gone live. -/
def KeepsPlaces : Prop :=
  ∀ x < s.created, ∀ q, (s.rows x).queuedAt = some q → (s'.rows x).queuedAt = some q ∨
    (s'.rows x).state = .live ∨ (s.rows x).attemptOk = true

/-- A session that was never live nor queued, or has a larger `queued_at`, gets a slot on
no worker that could take a waiting session of its model. -/
def NoOvertaking : Prop :=
  ∀ o, s'.opens = s.opens ++ [o] → ∀ x, s.waits x →
    (s.rows x).modelId = (s'.rows o.session).modelId →
    ((s'.rows o.session).assignedAt = 0 ∧ (s'.rows o.session).queuedAt = none ∨
      s.joined x < s'.joined o.session) →
    s.rank (s.rows x).modelId [] o.worker = none

/-- What holds of the queue from a state on: every step leaves it in order, and a session
keeps its `queued_at` for as long as no attempt of it goes live. -/
structure QueueKept : Prop where
  order : ∀ a s', step s a = some s' → s.TakenInOrder s'
  place : ∀ x < s.created, ∀ q, (s.rows x).queuedAt = some q → ∀ s',
    realtimeMachine.Path (fun r _ => ¬ r.wentLive x) s s' → ¬ s'.wentLive x →
    (s'.rows x).queuedAt = some q

/-- A stretch that takes nobody from the queue save by ending. -/
structure Calm (t : Nat) : Prop where
  created : s'.created = s.created
  spawned : s.spawned ≤ s'.spawned
  kept : ∀ i x, i < s.spawned → i ≠ t → s.admits i x → s'.admits i x
  back : ∀ i x, s'.admits i x → s.admits i x
  ended : ∀ x, (s.rows x).state = .ended → (s'.rows x).state = .ended
  stays : ∀ x, s.waits x → s'.waits x ∨ (s'.rows x).state = .ended
  queuedAt : ∀ x, (s'.rows x).queuedAt = (s.rows x).queuedAt
  modelId : ∀ x, (s'.rows x).modelId = (s.rows x).modelId

/-- Such a stretch that may also register or queue a session. -/
structure Waits : Prop where
  created : s.created ≤ s'.created
  back : ∀ i x, s'.admits i x → s.admits i x
  ended : ∀ x < s.created, (s.rows x).state = .ended → (s'.rows x).state = .ended
  stays : ∀ x < s.created, s.waits x →
    (s'.waits x ∧ (s'.rows x).queuedAt = (s.rows x).queuedAt) ∨ (s'.rows x).state = .ended
  queuedAt : ∀ x < s.created, ∀ q, (s.rows x).queuedAt = some q → (s'.rows x).queuedAt = some q
  modelId : ∀ x < s.created, (s'.rows x).modelId = (s.rows x).modelId

/-- A stretch that takes sessions from the queue, in order. -/
structure Leaves (t : Nat) : Prop where
  created : s'.created = s.created
  spawned : s.spawned ≤ s'.spawned
  kept : ∀ i x, i < s.spawned → i ≠ t → s.admits i x → s'.admits i x
  born : ∀ i x, s'.admits i x → s.admits i x ∨ (s.spawned ≤ i ∧ i < s'.spawned)
  ended : ∀ x, (s.rows x).state = .ended → (s'.rows x).state = .ended
  queuedAt : ∀ x, (s'.rows x).queuedAt = (s.rows x).queuedAt
  modelId : ∀ x, (s'.rows x).modelId = (s.rows x).modelId
  left : ∀ x, s.waits x → s'.waits x ∨ (s'.rows x).state = .ended ∨
    ∃ i, s.spawned ≤ i ∧ i < s'.spawned ∧ s'.admits i x
  order : ∀ j y, ¬ s.admits j y → s'.admits j y → ∀ x, s.waits x →
    (s.rows x).modelId = (s.rows y).modelId → s.joined x < s.joined y →
    (s'.rows x).state = .ended ∨ ∃ i, s.spawned ≤ i ∧ i < j ∧ s'.admits i x

/-- What a step does to the queue. -/
structure Fair : Prop where
  created : s.created ≤ s'.created
  order : ∀ j y, ¬ s.admits j y → s'.admits j y → ∀ x < s.created, s.waits x →
    (s.rows x).modelId = (s'.rows y).modelId → s.joined x < s'.joined y →
    (s'.rows x).state = .ended ∨ ∃ i < j, s'.admits i x
  places : s.KeepsPlaces s'

end Definitions

variable {s s' s'' : World} {x y t w : Nat}

/-! ## Stretches -/

theorem Calm.refl (t : Nat) (s : World) : s.Calm s t where
  created := rfl
  spawned := Nat.le_refl _
  kept := fun _ _ _ _ hi => hi
  back := fun _ _ hi => hi
  ended := fun _ hx => hx
  stays := fun _ hx => .inl hx
  queuedAt := fun _ => rfl
  modelId := fun _ => rfl

theorem Calm.trans (h₁ : s.Calm s' t) (h₂ : s'.Calm s'' t) : s.Calm s'' t where
  created := h₂.created.trans h₁.created
  spawned := Nat.le_trans h₁.spawned h₂.spawned
  kept := fun i x hi hne hx =>
    h₂.kept i x (lt_of_lt_of_le hi h₁.spawned) hne (h₁.kept i x hi hne hx)
  back := fun i x hi => h₁.back i x (h₂.back i x hi)
  ended := fun x hx => h₂.ended x (h₁.ended x hx)
  stays := by
    intro x hx
    rcases h₁.stays x hx with hx | hx
    · exact h₂.stays x hx
    · exact .inr (h₂.ended x hx)
  queuedAt := fun x => (h₂.queuedAt x).trans (h₁.queuedAt x)
  modelId := fun x => (h₂.modelId x).trans (h₁.modelId x)

theorem Calm.waits (h : s.Calm s' t) : s.Waits s' where
  created := Nat.le_of_eq h.created.symm
  back := h.back
  ended := fun x _ => h.ended x
  stays := by
    intro x _ hx
    rcases h.stays x hx with hx | hx
    · exact .inl ⟨hx, h.queuedAt x⟩
    · exact .inr hx
  queuedAt := fun x _ _ hq => (h.queuedAt x).trans hq
  modelId := fun x _ => h.modelId x

theorem Waits.trans (h₁ : s.Waits s') (h₂ : s'.Waits s'') : s.Waits s'' where
  created := Nat.le_trans h₁.created h₂.created
  back := fun i x hi => h₁.back i x (h₂.back i x hi)
  ended := fun x hx hs => h₂.ended x (lt_of_lt_of_le hx h₁.created) (h₁.ended x hx hs)
  stays := by
    intro x hx hs
    have hx' := lt_of_lt_of_le hx h₁.created
    rcases h₁.stays x hx hs with ⟨hs, hq⟩ | hs
    · rcases h₂.stays x hx' hs with ⟨hs, hq'⟩ | hs
      · exact .inl ⟨hs, hq'.trans hq⟩
      · exact .inr hs
    · exact .inr (h₂.ended x hx' hs)
  queuedAt := fun x hx q hq =>
    h₂.queuedAt x (lt_of_lt_of_le hx h₁.created) q (h₁.queuedAt x hx q hq)
  modelId := fun x hx =>
    (h₂.modelId x (lt_of_lt_of_le hx h₁.created)).trans (h₁.modelId x hx)

theorem Calm.leaves (h : s.Calm s' t) : s.Leaves s' t where
  created := h.created
  spawned := h.spawned
  kept := h.kept
  born := fun i x hi => .inl (h.back i x hi)
  ended := h.ended
  queuedAt := h.queuedAt
  modelId := h.modelId
  left := by
    intro x hx
    rcases h.stays x hx with hx | hx
    · exact .inl hx
    · exact .inr (.inl hx)
  order := fun j y hnot hj => absurd (h.back j y hj) hnot

theorem Leaves.joined (h : s.Leaves s' t) (x : Nat) : s'.joined x = s.joined x := by
  unfold World.joined
  rw [h.queuedAt x]

/-- A task that the first stretch creates is still there after the second. -/
theorem Leaves.append (h₁ : s.Leaves s' t) (h₂ : s'.Leaves s'' t)
    (hstill : ∀ i x, s.spawned ≤ i → i < s'.spawned → s'.admits i x → s''.admits i x) :
    s.Leaves s'' t := by
  have hspawned := h₁.spawned
  have hspawned' := h₂.spawned
  refine ⟨h₂.created.trans h₁.created, Nat.le_trans hspawned hspawned', ?_, ?_,
    fun x hx => h₂.ended x (h₁.ended x hx), fun x => (h₂.queuedAt x).trans (h₁.queuedAt x),
    fun x => (h₂.modelId x).trans (h₁.modelId x), ?_, ?_⟩
  · intro i x hi hne hx
    exact h₂.kept i x (by omega) hne (h₁.kept i x hi hne hx)
  · intro i x hi
    rcases h₂.born i x hi with hmid | ⟨hle, hlt⟩
    · rcases h₁.born i x hmid with hold | ⟨hle, hlt⟩
      · exact .inl hold
      · exact .inr ⟨hle, by omega⟩
    · exact .inr ⟨by omega, hlt⟩
  · intro x hx
    rcases h₁.left x hx with hx | hx | ⟨i, hle, hlt, hi⟩
    · rcases h₂.left x hx with hx | hx | ⟨i, hle, hlt, hi⟩
      · exact .inl hx
      · exact .inr (.inl hx)
      · exact .inr (.inr ⟨i, by omega, hlt, hi⟩)
    · exact .inr (.inl (h₂.ended x hx))
    · exact .inr (.inr ⟨i, hle, by omega, hstill i x hle hlt hi⟩)
  · intro j y hnot hj x hx hmodel hlt
    by_cases hmid : s'.admits j y
    · have hborn := (h₁.born j y hmid).resolve_left hnot
      rcases h₁.order j y hnot hmid x hx hmodel hlt with hend | ⟨i, hle, hij, hi⟩
      · exact .inl (h₂.ended x hend)
      · exact .inr ⟨i, hle, hij, hstill i x hle (by omega) hi⟩
    · have hborn := (h₂.born j y hj).resolve_left hmid
      rcases h₁.left x hx with hx' | hend | ⟨i, hle, hi', hi⟩
      · have hmodel' : (s'.rows x).modelId = (s'.rows y).modelId := by
          rw [h₁.modelId x, h₁.modelId y]
          exact hmodel
        have hlt' : s'.joined x < s'.joined y := by
          rw [h₁.joined x, h₁.joined y]
          exact hlt
        rcases h₂.order j y hmid hj x hx' hmodel' hlt' with hend | ⟨i, hle, hij, hi⟩
        · exact .inl hend
        · exact .inr ⟨i, by omega, hij, hi⟩
      · exact .inl (h₂.ended x hend)
      · exact .inr ⟨i, hle, by omega, hstill i x hle hi' hi⟩

theorem Leaves.trans (ht : t < s.spawned) (h₁ : s.Leaves s' t) (h₂ : s'.Leaves s'' t) :
    s.Leaves s'' t := by
  apply h₁.append h₂
  intro i x hle hlt hi
  exact h₂.kept i x hlt (by omega) hi

/-- A step queues first, and takes from the queue after. -/
theorem Waits.fair (h₁ : s.Waits s') (h₂ : s'.Leaves s'' t) : s.Fair s'' where
  created := by
    rw [h₂.created]
    exact h₁.created
  order := by
    intro j y hnot hj x hx hwaits hmodel hlt
    have hmid : ¬ s'.admits j y := fun hmid => hnot (h₁.back j y hmid)
    rcases h₁.stays x hx hwaits with ⟨hwaits', hq⟩ | hend
    · have hmodel' : (s'.rows x).modelId = (s'.rows y).modelId := by
        rw [h₁.modelId x hx, hmodel, h₂.modelId y]
      have hlt' : s'.joined x < s'.joined y := by
        rw [← h₂.joined y]
        unfold World.joined at hlt ⊢
        rwa [hq]
      rcases h₂.order j y hmid hj x hwaits' hmodel' hlt' with hend | ⟨i, _, hij, hi⟩
      · exact .inl hend
      · exact .inr ⟨i, hij, hi⟩
    · exact .inl (h₂.ended x hend)
  places := by
    intro x hx q hq
    rw [h₂.queuedAt x]
    exact .inl (h₁.queuedAt x hx q hq)

/-! ## Writes -/

theorem setRow_calm {f : Session → Session} (hqueued : (f (s.rows x)).queuedAt = (s.rows x).queuedAt)
    (hmodel : (f (s.rows x)).modelId = (s.rows x).modelId)
    (hstate : (f (s.rows x)).state = (s.rows x).state ∨ (f (s.rows x)).state = .ended ∨
      ((s.rows x).state ≠ .ended ∧ (s.rows x).state ≠ .queued)) :
    s.Calm (s.setRow x f) t where
  created := rfl
  spawned := Nat.le_refl _
  kept := fun _ _ _ _ hi => hi
  back := fun _ _ hi => hi
  ended := by
    intro y hy
    rcases eq_or_ne y x with rfl | hne
    · rw [setRow_rows_self]
      rcases hstate with hs | hs | hs
      · rw [hs]
        exact hy
      · exact hs
      · exact absurd hy hs.1
    · rw [setRow_rows_of_ne _ hne]
      exact hy
  stays := by
    intro y hy
    rcases eq_or_ne y x with rfl | hne
    · rcases hstate with hs | hs | hs
      · refine .inl ⟨hy.1, ?_⟩
        rw [setRow_rows_self, hs]
        exact hy.2
      · rw [setRow_rows_self]
        exact .inr hs
      · exact absurd hy.2 hs.2
    · refine .inl ⟨hy.1, ?_⟩
      rw [setRow_rows_of_ne _ hne]
      exact hy.2
  queuedAt := by
    intro y
    rcases eq_or_ne y x with rfl | hne
    · rw [setRow_rows_self]
      exact hqueued
    · rw [setRow_rows_of_ne _ hne]
  modelId := by
    intro y
    rcases eq_or_ne y x with rfl | hne
    · rw [setRow_rows_self]
      exact hmodel
    · rw [setRow_rows_of_ne _ hne]

/-- A worker object, the clock, or a log. -/
theorem aside_calm (hrows : s'.rows = s.rows) (hsessions : s'.sessions = s.sessions)
    (hcreated : s'.created = s.created) (htasks : s'.tasks = s.tasks)
    (hspawned : s'.spawned = s.spawned) : s.Calm s' t where
  created := hcreated
  spawned := Nat.le_of_eq hspawned.symm
  kept := by
    intro i x _ _ hi
    unfold World.admits at hi ⊢
    rwa [htasks]
  back := by
    intro i x hi
    unfold World.admits at hi ⊢
    rwa [htasks] at hi
  ended := by
    rw [hrows]
    exact fun _ hx => hx
  stays := by
    intro x hx
    refine .inl ?_
    unfold World.waits at hx ⊢
    rwa [hsessions, hrows]
  queuedAt := by
    rw [hrows]
    exact fun _ => rfl
  modelId := by
    rw [hrows]
    exact fun _ => rfl

/-- The running task comes to its next await. -/
theorem put_calm {task : Task} (htask : ∀ y, task ≠ .scheduled .admission y) :
    s.Calm (s.put t task) t where
  created := rfl
  spawned := Nat.le_refl _
  kept := by
    intro i y _ hne hi
    unfold World.admits
    rw [put_tasks_of_ne _ hne]
    exact hi
  back := by
    intro i y hi
    unfold World.admits at hi
    rcases eq_or_ne i t with rfl | hne
    · rw [put_tasks_self] at hi
      exact absurd hi (htask y)
    · rw [put_tasks_of_ne _ hne] at hi
      exact hi
  ended := fun _ hx => hx
  stays := fun _ hx => .inl hx
  queuedAt := fun _ => rfl
  modelId := fun _ => rfl

/-- A task other than an admission is created. -/
theorem spawn_calm {task : Task} (htask : ∀ y, task ≠ .scheduled .admission y) :
    s.Calm (s.spawn task) t where
  created := rfl
  spawned := Nat.le_succ _
  kept := by
    intro i y hlt _ hi
    unfold World.admits
    have hother : (s.spawn task).tasks i = s.tasks i := put_tasks_of_ne _ (by omega)
    rw [hother]
    exact hi
  back := by
    intro i y hi
    unfold World.admits at hi
    rcases eq_or_ne i s.spawned with rfl | hne
    · have hself : (s.spawn task).tasks s.spawned = task := put_tasks_self _
      rw [hself] at hi
      exact absurd hi (htask y)
    · have hother : (s.spawn task).tasks i = s.tasks i := put_tasks_of_ne _ hne
      rw [hother] at hi
      exact hi
  ended := fun _ hx => hx
  stays := fun _ hx => .inl hx
  queuedAt := fun _ => rfl
  modelId := fun _ => rfl

theorem drop_calm : s.Calm (s.drop x) t := by
  cases hw : (s.rows x).worker with
  | none =>
    rw [drop_of_none hw]
    exact Calm.refl t s
  | some w =>
    rw [drop_of_some hw]
    have hrow : s.Calm (s.setRow x ({ · with worker := none })) t :=
      setRow_calm rfl rfl (.inl rfl)
    exact hrow.trans (aside_calm rfl rfl rfl rfl rfl)

theorem setReady_calm : s.Calm (s.setReady x) t := by
  have hrow : s.Calm (s.setRow x ({ · with ready := true })) t := setRow_calm rfl rfl (.inl rfl)
  have hwake : ∀ (task : Task) y, task.wake x = .scheduled .admission y ↔
      task = .scheduled .admission y := by
    intro task y
    unfold Task.wake
    split
    · split
      · split <;> simp
      · simp
    · rfl
  refine hrow.trans ⟨rfl, Nat.le_refl _, ?_, ?_, fun _ hy => hy, fun _ hy => .inl hy,
    fun _ => rfl, fun _ => rfl⟩
  · intro i y _ _ hi
    exact (hwake _ y).mpr hi
  · intro i y hi
    exact (hwake _ y).mp hi

theorem transition_calm {old new : SessionState} (hs : s.transition x [old] new = some s')
    (hold : old ≠ .queued) : s.Calm s' t := by
  rcases transition_eq_some.mp hs with ⟨⟨hended, hstate⟩, rfl⟩
  refine setRow_calm rfl rfl (.inr (.inr ⟨hended, ?_⟩))
  have heq : (s.rows x).state = old := by simpa using hstate
  rwa [heq]

/-- A session leaves the dictionary without having waited. -/
theorem unregister_calm (hx : (s.rows x).state ≠ .queued) : s.Calm (s.unregister x) t where
  created := rfl
  spawned := Nat.le_refl _
  kept := fun _ _ _ _ hi => hi
  back := fun _ _ hi => hi
  ended := fun _ hy => hy
  stays := by
    intro y hy
    refine .inl ⟨List.mem_filter.mpr ⟨hy.1, ?_⟩, hy.2⟩
    simp only [ne_eq, decide_not, Bool.not_eq_eq_eq_not, Bool.not_true, decide_eq_false_iff_not]
    rintro rfl
    exact hx hy.2
  queuedAt := fun _ => rfl
  modelId := fun _ => rfl

/-- Taken out of the dictionary and ended, a session leaves the queue. -/
theorem pop_calm : s.Calm (s.pop x) t := by
  have hrows : ∀ y, y ≠ x → (s.pop x).rows y = s.rows y := by
    intro y hne
    rw [pop_eq]
    exact setRow_rows_of_ne _ hne
  have hself : (s.pop x).rows x = { s.rows x with state := .ended } := by
    rw [pop_eq]
    exact setRow_rows_self _
  have htasks : (s.pop x).tasks = s.tasks := by
    rw [pop_eq]
    rfl
  refine ⟨by rw [pop_eq]; rfl, by simp, ?_, ?_, ?_, ?_, ?_, ?_⟩
  · intro i y _ _ hi
    unfold World.admits
    rwa [htasks]
  · intro i y hi
    unfold World.admits at hi
    rwa [htasks] at hi
  · intro y hy
    rcases eq_or_ne y x with rfl | hne
    · rw [hself]
    · rw [hrows y hne]
      exact hy
  · intro y hy
    rcases eq_or_ne y x with rfl | hne
    · rw [hself]
      exact .inr rfl
    · refine .inl ⟨?_, by rw [hrows y hne]; exact hy.2⟩
      rw [pop_eq]
      exact List.mem_filter.mpr ⟨hy.1, by simpa using hne⟩
  · intro y
    rcases eq_or_ne y x with rfl | hne
    · rw [hself]
    · rw [hrows y hne]
  · intro y
    rcases eq_or_ne y x with rfl | hne
    · rw [hself]
    · rw [hrows y hne]

theorem assign_calm : s.Calm (s.assign x w) t := by
  have hrow : s.Calm (s.setRow x ({ · with worker := some w })) t := setRow_calm rfl rfl (.inl rfl)
  have htake : s.Calm (s.take x w) t := hrow.trans (aside_calm rfl rfl rfl rfl rfl)
  have hcleared : s.Calm ((s.take x w).setRow x ({ · with ready := false, attemptOk := false })) t :=
    htake.trans (setRow_calm rfl rfl (.inl rfl))
  exact hcleared.trans (aside_calm rfl rfl rfl rfl rfl)

/-! ## A pass over the queue -/

/-- What `pick_worker` reads. -/
theorem pickWorker_congr {modelId : String} {excluded : List String}
    (hregistered : s'.registered = s.registered) (hworkers : s'.workers = s.workers)
    (hsessions : s'.sessions = s.sessions)
    (hrows : ∀ y, (s'.rows y).worker = (s.rows y).worker ∧ (s'.rows y).modelId = (s.rows y).modelId) :
    s'.pickWorker modelId excluded = s.pickWorker modelId excluded := by
  have hcost : ∀ w extra excluding,
      s'.liveAdmissionCost w extra excluding = s.liveAdmissionCost w extra excluding := by
    intro w extra excluding
    unfold liveAdmissionCost modelsOnWorker
    simp only [hworkers, hsessions, fun y => (hrows y).1, fun y => (hrows y).2]
  have hrank : ∀ w, s'.rank modelId excluded w = s.rank modelId excluded w := by
    intro w
    unfold rank
    simp only [hworkers, hcost]
  unfold pickWorker
  simp only [hregistered, hrank]

/-- The session is left, or taken from the queue and its `admit` created. -/
theorem admitOne_cases :
    (s.admitOne x = s ∧ ((s.rows x).state = .queued → s.pickWorker (s.rows x).modelId [] = none)) ∨
    ((s.rows x).state = .queued ∧ s.pickWorker (s.rows x).modelId [] ≠ none ∧
      s.admitOne x =
        (s.setRow x ({ · with state := .assigning })).spawn (.scheduled .admission x)) := by
  unfold admitOne
  split
  · rename_i hnone
    exact .inl ⟨rfl, fun _ => hnone⟩
  rename_i hsome
  split
  · rename_i s' hs
    rcases transition_eq_some.mp hs with ⟨⟨_, hstate⟩, rfl⟩
    exact .inr ⟨by simpa using hstate, hsome, rfl⟩
  · rename_i hs
    refine .inl ⟨rfl, ?_⟩
    intro hqueued
    simp [transition, hqueued] at hs

theorem admitOne_sessions : (s.admitOne x).sessions = s.sessions := by
  rcases admitOne_cases (s := s) (x := x) with ⟨heq, _⟩ | ⟨_, _, heq⟩
  · rw [heq]
  · rw [heq]
    rfl

theorem admitOne_rows_of_ne (h : y ≠ x) : (s.admitOne x).rows y = s.rows y := by
  rcases admitOne_cases (s := s) (x := x) with ⟨heq, _⟩ | ⟨_, _, heq⟩
  · rw [heq]
  · rw [heq]
    exact setRow_rows_of_ne (s := s) ({ · with state := .assigning }) h

theorem admitOne_rows_self : (s.admitOne x).rows x = s.rows x ∨
    ((s.rows x).state = .queued ∧ (s.admitOne x).rows x = { s.rows x with state := .assigning }) := by
  rcases admitOne_cases (s := s) (x := x) with ⟨heq, _⟩ | ⟨hqueued, _, heq⟩
  · rw [heq]
    exact .inl rfl
  · rw [heq]
    exact .inr ⟨hqueued, setRow_rows_self (s := s) ({ · with state := .assigning })⟩

theorem admitOne_pickWorker {modelId : String} {excluded : List String} :
    (s.admitOne x).pickWorker modelId excluded = s.pickWorker modelId excluded := by
  have hworkers : (s.admitOne x).workers = s.workers ∧ (s.admitOne x).registered = s.registered := by
    rcases admitOne_cases (s := s) (x := x) with ⟨heq, _⟩ | ⟨_, _, heq⟩
    · rw [heq]
      exact ⟨rfl, rfl⟩
    · rw [heq]
      exact ⟨rfl, rfl⟩
  apply pickWorker_congr hworkers.2 hworkers.1 admitOne_sessions
  intro y
  rcases eq_or_ne y x with rfl | hne
  · rcases admitOne_rows_self (s := s) (x := y) with hrow | ⟨_, hrow⟩
    · rw [hrow]
      exact ⟨rfl, rfl⟩
    · rw [hrow]
      exact ⟨rfl, rfl⟩
  · rw [admitOne_rows_of_ne hne]
    exact ⟨rfl, rfl⟩

/-- A session that is looked at and still waits finds no worker. -/
theorem admitOne_skips (h : (s.admitOne x).waits x) :
    s.pickWorker (s.rows x).modelId [] = none := by
  rcases admitOne_cases (s := s) (x := x) with ⟨heq, hnone⟩ | ⟨_, _, heq⟩
  · rw [heq] at h
    exact hnone h.2
  · rw [heq] at h
    have hstate : ((s.setRow x ({ · with state := .assigning })).rows x).state = .queued := h.2
    rw [setRow_rows_self] at hstate
    cases hstate

/-- The session looked at is the first of its model that waits. -/
theorem admitOne_leaves (hfirst : ∀ y, s.waits y → s.joined x ≤ s.joined y ∨
    s.pickWorker (s.rows y).modelId [] = none) : s.Leaves (s.admitOne x) t := by
  rcases admitOne_cases (s := s) (x := x) with ⟨heq, _⟩ | ⟨hqueued, hworker, heq⟩
  · rw [heq]
    exact (Calm.refl t s).leaves
  have hself : (s.admitOne x).tasks s.spawned = .scheduled .admission x := by
    rw [heq]
    exact put_tasks_self (s := s.setRow x ({ · with state := .assigning })) _
  have hothers : ∀ i, i ≠ s.spawned → (s.admitOne x).tasks i = s.tasks i := by
    intro i hne
    rw [heq]
    exact put_tasks_of_ne (s := s.setRow x ({ · with state := .assigning })) _ hne
  have hspawned : (s.admitOne x).spawned = s.spawned + 1 ∧
      (s.admitOne x).created = s.created := by
    rw [heq]
    exact ⟨rfl, rfl⟩
  have hkeeps : ∀ y, ((s.admitOne x).rows y).queuedAt = (s.rows y).queuedAt ∧
      ((s.admitOne x).rows y).modelId = (s.rows y).modelId := by
    intro y
    rcases eq_or_ne y x with rfl | hne
    · rcases admitOne_rows_self (s := s) (x := y) with hrow | ⟨_, hrow⟩
      · rw [hrow]
        exact ⟨rfl, rfl⟩
      · rw [hrow]
        exact ⟨rfl, rfl⟩
    · rw [admitOne_rows_of_ne hne]
      exact ⟨rfl, rfl⟩
  refine ⟨hspawned.2, by omega, ?_, ?_, ?_, fun y => (hkeeps y).1, fun y => (hkeeps y).2, ?_, ?_⟩
  · intro i y hlt _ hi
    unfold World.admits
    rw [hothers i (by omega)]
    exact hi
  · intro i y hi
    rcases eq_or_ne i s.spawned with rfl | hne
    · exact .inr ⟨Nat.le_refl _, by omega⟩
    · unfold World.admits at hi
      rw [hothers i hne] at hi
      exact .inl hi
  · intro y hy
    rcases eq_or_ne y x with rfl | hne
    · rw [hqueued] at hy
      cases hy
    · rw [admitOne_rows_of_ne hne]
      exact hy
  · intro y hy
    rcases eq_or_ne y x with rfl | hne
    · exact .inr (.inr ⟨s.spawned, Nat.le_refl _, by omega, hself⟩)
    · refine .inl ⟨?_, ?_⟩
      · rw [admitOne_sessions]
        exact hy.1
      · rw [admitOne_rows_of_ne hne]
        exact hy.2
  · -- the one task created is that of `x`
    intro j z hnot hj y hy hmodel hlt
    exfalso
    unfold World.admits at hj hnot
    rcases eq_or_ne j s.spawned with rfl | hne
    · rw [hself] at hj
      cases hj
      rcases hfirst y hy with hle | hnone
      · omega
      · rw [hmodel] at hnone
        exact hworker hnone
    · rw [hothers j hne] at hj
      exact hnot hj

/-- A pass takes nobody's `admit` away. -/
theorem pass_admits {xs : List Nat} {i : Nat} (hi : i < s.spawned) (h : s.admits i y) :
    (xs.foldl admitOne s).admits i y := by
  induction xs generalizing s with
  | nil => exact h
  | cons x xs ih =>
    apply ih (lt_of_lt_of_le hi admitOne_spawned)
    rcases admitOne_cases (s := s) (x := x) with ⟨heq, _⟩ | ⟨_, _, heq⟩
    · rw [heq]
      exact h
    · rw [heq]
      have hother : ((s.setRow x ({ · with state := .assigning })).spawn
          (.scheduled .admission x)).tasks i = s.tasks i :=
        put_tasks_of_ne (s := s.setRow x ({ · with state := .assigning })) _ (Nat.ne_of_lt hi)
      unfold World.admits
      rw [hother]
      exact h

/-- The sessions still to be looked at are in order, and one that waits is among them or
finds no worker. -/
theorem pass_leaves {xs : List Nat}
    (hsorted : xs.Pairwise fun x y => s.joined x ≤ s.joined y)
    (hall : ∀ y, s.waits y → y ∈ xs ∨ s.pickWorker (s.rows y).modelId [] = none) :
    s.Leaves (xs.foldl admitOne s) t := by
  induction xs generalizing s with
  | nil => exact (Calm.refl t s).leaves
  | cons x xs ih =>
    have hone : s.Leaves (s.admitOne x) t := by
      apply admitOne_leaves
      intro y hy
      rcases hall y hy with hmem | hnone
      · rcases List.mem_cons.mp hmem with rfl | hmem
        · exact .inl (Nat.le_refl _)
        · exact .inl (List.rel_of_pairwise_cons hsorted hmem)
      · exact .inr hnone
    refine hone.append (ih ?_ ?_) fun i y _ hlt hi =>
      pass_admits (s := s.admitOne x) hlt hi
    · simp only [hone.joined]
      exact hsorted.of_cons
    · intro y hy
      rw [admitOne_pickWorker, hone.modelId y]
      rcases eq_or_ne y x with rfl | hne
      · exact .inr (admitOne_skips hy)
      · have hwaits : s.waits y := by
          unfold World.waits at hy ⊢
          rwa [admitOne_sessions, admitOne_rows_of_ne hne] at hy
        rcases hall y hwaits with hmem | hnone
        · rcases List.mem_cons.mp hmem with rfl | hmem
          · exact absurd rfl hne
          · exact .inl hmem
        · exact .inr hnone

theorem admitQueued_leaves : s.Leaves s.admitQueued t := by
  unfold World.admitQueued
  apply pass_leaves
  · have : Std.Total fun x y => s.joined x ≤ s.joined y := ⟨fun x y => Nat.le_total _ _⟩
    have : IsTrans Nat fun x y => s.joined x ≤ s.joined y := ⟨fun x y z => Nat.le_trans⟩
    exact List.pairwise_insertionSort (fun x y => s.joined x ≤ s.joined y) _
  · intro y hy
    refine .inl ?_
    unfold queuedSessions
    rw [List.mem_insertionSort]
    exact List.mem_filter.mpr ⟨hy.1, by simpa using hy.2⟩

/-! ## Giving a slot back -/

theorem Leaves.lt (h : s.Leaves s' t) (ht : t < s.spawned) : t < s'.spawned :=
  lt_of_lt_of_le ht h.spawned

theorem release_leaves (ht : t < s.spawned) : s.Leaves (s.release x).1 t := by
  have hdrop : s.Leaves (s.drop x) t := drop_calm.leaves
  rcases release_cases (s := s) (x := x) with hr | hr
  · rw [hr]
    exact hdrop
  · rw [hr]
    exact hdrop.trans ht admitQueued_leaves

theorem releaseLast_leaves (ht : t < s.spawned) : s.Leaves (s.releaseLast t x) t := by
  have hrelease := release_leaves (x := x) ht
  have hput : (s.release x).1.Leaves
      ((s.release x).1.put t (if (s.release x).2 then .releasing else .done)) t := by
    apply Calm.leaves
    apply put_calm
    intro y
    split <;> simp
  exact hrelease.trans ht hput

theorem popRelease_leaves (ht : t < s.spawned) : s.Leaves ((s.pop x).release x).1 t := by
  have hpop : s.Leaves (s.pop x) t := pop_calm.leaves
  exact hpop.trans ht (release_leaves (hpop.lt ht))

theorem tearDown_leaves (ht : t < s.spawned) : s.Leaves (s.tearDown t x) t := by
  have hpop : s.Leaves (s.pop x) t := pop_calm.leaves
  exact hpop.trans ht (releaseLast_leaves (hpop.lt ht))

theorem closeNext_leaves {call : CloseCall} {rest : List (Nat × Nat)} {pending : List Nat}
    (ht : t < s.spawned) : s.Leaves (closeNext t call rest s pending) t := by
  induction pending generalizing s with
  | nil =>
    unfold closeNext
    have hlog : s.Calm { s with calls := s.calls ++ [⟨call, s.forwards.length, true⟩] } t :=
      aside_calm rfl rfl rfl rfl rfl
    apply Calm.leaves
    apply hlog.trans
    apply put_calm
    intro y
    split <;> simp
  | cons x pending ih =>
    have hrelease := popRelease_leaves (x := x) ht
    unfold closeNext
    dsimp only
    split
    · exact hrelease.trans ht (put_calm (by simp)).leaves
    · exact hrelease.trans ht (ih (hrelease.lt ht))

theorem beginClose_leaves {call : CloseCall} {rest : List (Nat × Nat)} (ht : t < s.spawned) :
    s.Leaves (s.beginClose t call rest) t := closeNext_leaves ht

/-! ## Scheduling and workers -/

theorem schedule_calm {caller : Caller} {old : SessionState}
    (hs : s.transition x [old] .assigning = some s') (hold : old ≠ .queued)
    (hcaller : caller ≠ .admission) : s.Calm (s'.spawn (.scheduled caller x)) t := by
  refine (transition_calm hs hold).trans (spawn_calm ?_)
  intro y heq
  cases heq
  exact hcaller rfl

theorem scheduleReassign_calm : s.Calm (s.scheduleReassign x) t := by
  unfold scheduleReassign
  split
  · rename_i s' hs
    exact schedule_calm hs (by simp) (by simp)
  · exact Calm.refl t s

theorem scheduleResumeIdle_calm : s.Calm (s.scheduleResumeIdle x) t := by
  unfold scheduleResumeIdle
  split
  · rename_i s' hs
    exact schedule_calm hs (by simp) (by simp)
  · exact Calm.refl t s

theorem foldl_calm {f : World → Nat → World} {xs : List Nat}
    (hf : ∀ (s : World) (x : Nat), s.Calm (f s x) t) : s.Calm (xs.foldl f s) t := by
  induction xs generalizing s with
  | nil => exact Calm.refl t s
  | cons x xs ih => exact (hf s x).trans ih

theorem orphan_calm : s.Calm (s.orphan x) t := by
  unfold orphan
  split
  · have hrow : s.Calm (s.setRow x ({ · with attemptOk := false })) t :=
      setRow_calm rfl rfl (.inl rfl)
    exact hrow.trans setReady_calm
  · exact scheduleReassign_calm
  · exact Calm.refl t s

theorem receive_calm {m : Message} : s.Calm (s.receive w m) t := by
  unfold receive
  dsimp only
  split
  case isFalse => exact Calm.refl t s
  case isTrue =>
    split
    · split
      · rename_i s' hs
        have hlive : s.Calm s' t := transition_calm hs (by simp)
        have hrow : s'.Calm (s'.setRow m.session
            ({ · with assignedAt := s'.now, attemptOk := true })) t :=
          setRow_calm rfl rfl (.inl rfl)
        exact (hlive.trans hrow).trans setReady_calm
      · exact Calm.refl t s
    · split
      · have hrow : s.Calm (s.setRow m.session ({ · with attemptOk := false })) t :=
          setRow_calm rfl rfl (.inl rfl)
        exact hrow.trans setReady_calm
      · exact scheduleReassign_calm
      · exact Calm.refl t s

theorem canvasFrame_calm : s.Calm (s.canvasFrame x) t := by
  have hclock : s.Calm (s.setRow x ({ · with lastInput := s.now })) t :=
    setRow_calm rfl rfl (.inl rfl)
  have hframe : ∀ pending : Bool, s.Calm ((s.setRow x ({ · with lastInput := s.now })).setRow x
      ({ · with pendingFrame := pending })) t := fun _ =>
    hclock.trans (setRow_calm rfl rfl (.inl rfl))
  unfold canvasFrame
  dsimp only
  split
  · exact (hframe true).trans scheduleResumeIdle_calm
  · exact hframe true
  · exact hframe true
  · split
    · exact (hframe false).trans (aside_calm rfl rfl rfl rfl rfl)
    · exact hclock

/-! ## Placements -/

/-- A placement that answers yes for a session that is live, or that its worker has
answered. -/
def AnswersLive (s : World) (x : Nat) (r : World × Placed) : Prop :=
  r.2 = .returned true → (r.1.rows x).state = .live ∨ (s.rows x).attemptOk = true

theorem place_calm {skipped : List String} : s.Calm (s.place x skipped).1 t := by
  unfold place
  split
  · split
    · exact Calm.refl t s
    · exact assign_calm
  · exact Calm.refl t s

theorem place_answers {skipped : List String} : s.AnswersLive x (s'.place x skipped) := by
  unfold place
  split
  · split
    · intro h
      cases h
    · intro h
      cases h
  · intro h
    have hlive : (s'.rows x).state = .live := by simpa using h
    exact .inl hlive

theorem bump_calm : s.Calm (s.bump x) t := setRow_calm rfl rfl (.inl rfl)

theorem assigned_calm {attempt : Attempt} {ok : Bool} : s.Calm (s.assigned x attempt ok).1 t := by
  unfold assigned
  split
  · exact Calm.refl t s
  split
  · exact Calm.refl t s
  · dsimp only
    split
    · exact bump_calm.trans place_calm
    · exact place_calm

theorem assigned_answers {attempt : Attempt} {ok : Bool}
    (h : ok = true → (s'.rows x).state = .live ∨ (s.rows x).attemptOk = true) :
    s.AnswersLive x (s'.assigned x attempt ok) := by
  unfold assigned
  split
  · rename_i hok
    intro _
    rcases hok with hok | hlive
    · exact h hok
    · exact .inl hlive
  split
  · intro h
    cases h
  · exact place_answers

theorem giveUp_calm {attempt : Attempt} : s.Calm (s.giveUp x attempt).1 t := by
  unfold giveUp
  split
  · dsimp only
    split
    · exact drop_calm
    · exact drop_calm.trans assigned_calm
  · exact assigned_calm

theorem giveUp_answers {attempt : Attempt} : s.AnswersLive x (s'.giveUp x attempt) := by
  unfold giveUp
  split
  · dsimp only
    split
    · intro h
      cases h
    · exact assigned_answers (by simp)
  · exact assigned_answers (by simp)

theorem woken_calm {attempt : Attempt} : s.Calm (s.woken x attempt).1 t := by
  unfold woken
  split
  · exact assigned_calm
  split
  · split
    · rename_i s' hs
      have hlive : s.Calm s' t := transition_calm hs (by simp)
      have hstamp : s'.Calm (s'.setRow x ({ · with assignedAt := s'.now })) t :=
        setRow_calm rfl rfl (.inl rfl)
      exact (hlive.trans hstamp).trans assigned_calm
    · exact assigned_calm
  · exact giveUp_calm

theorem woken_answers {attempt : Attempt} (hrow : (s'.rows x).attemptOk = (s.rows x).attemptOk) :
    s.AnswersLive x (s'.woken x attempt) := by
  unfold woken
  split
  · exact assigned_answers (fun h => .inl (by simpa using h))
  split
  · rename_i hok
    have hanswered : (s.rows x).attemptOk = true := hrow ▸ hok.1
    split
    · exact assigned_answers fun _ => .inr hanswered
    · exact assigned_answers fun _ => .inr hanswered
  · exact giveUp_answers

theorem forwardPending_rows (y : Nat) : ((s.forwardPending x).rows y).queuedAt = (s.rows y).queuedAt ∧
    ((s.forwardPending x).rows y).state = (s.rows y).state ∧
    (s.forwardPending x).tasks = s.tasks := by
  have hrow : ((s.setRow x ({ · with pendingFrame := false })).rows y).queuedAt =
      (s.rows y).queuedAt ∧
      ((s.setRow x ({ · with pendingFrame := false })).rows y).state = (s.rows y).state := by
    rcases eq_or_ne y x with rfl | hne
    · rw [setRow_rows_self]
      exact ⟨rfl, rfl⟩
    · rw [setRow_rows_of_ne _ hne]
      exact ⟨rfl, rfl⟩
  unfold forwardPending
  dsimp only
  split
  · exact ⟨hrow.1, hrow.2, rfl⟩
  · exact ⟨hrow.1, hrow.2, rfl⟩

theorem forwardPending_calm : s.Calm (s.forwardPending x) t := by
  have hrow : s.Calm (s.setRow x ({ · with pendingFrame := false })) t :=
    setRow_calm rfl rfl (.inl rfl)
  unfold forwardPending
  dsimp only
  split
  · exact hrow.trans (aside_calm rfl rfl rfl rfl rfl)
  · exact hrow

/-- A session that could not be placed joins the queue, or keeps its place in it. -/
theorem requeue_waits (hs : s.requeue x = some s') : s.Waits s' := by
  unfold requeue at hs
  rw [Option.map_eq_some_iff] at hs
  rcases hs with ⟨s₁, hs₁, rfl⟩
  rcases transition_eq_some.mp hs₁ with ⟨⟨hended, hstate⟩, rfl⟩
  have hassigning : (s.rows x).state = .assigning := by simpa using hstate
  have hrows : ∀ y, y ≠ x → (((s.setRow x ({ · with state := .queued })).setRow x
      fun row => { row with queuedAt := some (row.queuedAt.getD s.now) }).rows y) = s.rows y := by
    intro y hne
    rw [setRow_rows_of_ne _ hne, setRow_rows_of_ne _ hne]
  refine ⟨Nat.le_refl _, fun _ _ hi => hi, ?_, ?_, ?_, ?_⟩
  · intro y _ hy
    rcases eq_or_ne y x with rfl | hne
    · exact absurd hy hended
    · show ((((s.setRow x ({ · with state := .queued })).setRow x
        fun row => { row with queuedAt := some (row.queuedAt.getD s.now) }).rows y)).state = .ended
      rw [hrows y hne]
      exact hy
  · intro y _ hy
    rcases eq_or_ne y x with rfl | hne
    · have hqueued := hy.2
      rw [hassigning] at hqueued
      cases hqueued
    · refine .inl ⟨⟨hy.1, ?_⟩, ?_⟩
      · show ((((s.setRow x ({ · with state := .queued })).setRow x
          fun row => { row with queuedAt := some (row.queuedAt.getD s.now) }).rows y)).state = _
        rw [hrows y hne]
        exact hy.2
      · exact congrArg Session.queuedAt (hrows y hne)
  · intro y _ q hq
    rcases eq_or_ne y x with rfl | hne
    · show ((((s.setRow y ({ · with state := .queued })).setRow y
        fun row => { row with queuedAt := some (row.queuedAt.getD s.now) }).rows y)).queuedAt = _
      rw [setRow_rows_self, setRow_rows_self]
      simp [hq]
    · exact (congrArg Session.queuedAt (hrows y hne)).trans hq
  · intro y _
    rcases eq_or_ne y x with rfl | hne
    · show ((((s.setRow y ({ · with state := .queued })).setRow y
        fun row => { row with queuedAt := some (row.queuedAt.getD s.now) }).rows y)).modelId = _
      rw [setRow_rows_self, setRow_rows_self]
    · exact congrArg Session.modelId (hrows y hne)

theorem requeue!_waits : s.Waits (s.requeue! x) := by
  unfold requeue!
  cases hs : s.requeue x with
  | none => exact (Calm.refl 0 s).waits
  | some s' => exact requeue_waits hs

theorem Waits.only (h : s.Waits s') : s.Fair s' := h.fair (Calm.refl 0 s').leaves

/-- An admission that went live gives up its place. -/
theorem cleared_fair (hw : s.Waits s')
    (hlive : (s'.rows x).state = .live ∨ (s.rows x).attemptOk = true) :
    s.Fair ((s'.setRow x ({ · with queuedAt := none })).forwardPending x) where
  created := by
    rw [(forwardPending_calm (t := 0)).created]
    exact hw.created
  order := by
    intro j y hnot hj
    unfold World.admits at hj
    rw [(forwardPending_rows y).2.2] at hj
    exact absurd (hw.back j y hj) hnot
  places := by
    intro y hy q hq
    have hrows := forwardPending_rows (s := s'.setRow x ({ · with queuedAt := none })) (x := x) y
    rw [hrows.1, hrows.2.1]
    rcases eq_or_ne y x with rfl | hne
    · rw [setRow_rows_self]
      exact .inr hlive
    · rw [setRow_rows_of_ne _ hne]
      exact .inl (hw.queuedAt y hy q hq)

theorem placed_fair {caller : Caller} {ok : Bool} (hw : s.Waits s') (ht : t < s'.spawned)
    (hlive : ok = true → (s'.rows x).state = .live ∨ (s.rows x).attemptOk = true) :
    s.Fair (s'.placed t caller x ok) := by
  have hserving : ∀ s : World, s.Calm (s.put t (.serving x)) t := fun s => put_calm (by simp)
  have hrelease : s.Fair (s'.releaseLast t x) := hw.fair (releaseLast_leaves ht)
  have hqueue := hw.trans (requeue!_waits (x := x))
  cases ok with
  | true =>
    cases caller with
    | handler => exact hw.fair (hserving s').leaves
    | admission =>
      simp only [placed]
      split
      · exact cleared_fair hw (hlive rfl)
      · exact hrelease
    | reassign =>
      simp only [placed]
      split
      · exact hw.only
      · exact hrelease
    | resumeIdle =>
      simp only [placed]
      split
      · exact hw.fair (forwardPending_calm (t := t)).leaves
      · exact hrelease
  | false =>
    cases caller with
    | handler => exact hqueue.fair (hserving _).leaves
    | admission => exact hqueue.only
    | resumeIdle => exact hqueue.only
    | reassign =>
      simp only [placed]
      split
      · rename_i s₁ hs
        exact (hw.trans (requeue_waits hs)).fair (admitQueued_leaves (t := t))
      · exact hw.only

/-- Wherever a placement has got, its task goes on. -/
theorem goOn_fair {caller : Caller} {r : World × Placed} (hw : s.Waits r.1) (ht : t < r.1.spawned)
    (hlive : s.AnswersLive x r) : s.Fair (goOn t caller x r) := by
  rcases r with ⟨s', ok | attempt⟩
  · apply placed_fair hw ht
    rintro rfl
    exact hlive rfl
  · have hput : s'.Calm (s'.put t (.placing caller x attempt)) t := put_calm (by simp)
    exact hw.fair hput.leaves

/-- A placement from its start. -/
theorem startPlace_fair {caller : Caller} {skipped : List String} (hw : s.Waits s')
    (ht : t < s'.spawned) : s.Fair (goOn t caller x (s'.place x skipped)) := by
  have hplace : s'.Calm (s'.place x skipped).1 t := place_calm
  exact goOn_fair (hw.trans hplace.waits) (lt_of_lt_of_le ht hplace.spawned) place_answers

theorem reopen_fair {excluded : List String} (hw : s.Waits s') (ht : t < s'.spawned) :
    s.Fair (s'.reopen t x excluded) := by
  have hbump : s'.Calm (s'.bump x) t := bump_calm
  exact startPlace_fair (hw.trans hbump.waits) ht

theorem interrupted_fair {excluded : List String} (hw : s.Waits s') (ht : t < s'.spawned) :
    s.Fair (s'.interrupted t x excluded) := by
  unfold World.interrupted
  split
  · split
    · have hput : s'.Calm (s'.put t (.reading x excluded)) t := put_calm (by simp)
      exact hw.fair hput.leaves
    · exact reopen_fair hw ht
  · exact hw.only

/-- What `reassign` does with the session's worker. -/
theorem leaveWorker_fair {s₁ : World} (hw : s.Waits s') (ht : t < s'.spawned)
    (hcalm : s'.Calm s₁ t) :
    s.Fair (match (s₁.rows x).worker with
      | some w =>
        let s₁ := s₁.drop x
        let excluded := [(s₁.workers w).id]
        if w ∈ s₁.registered then s₁.put t (.interrupting x excluded)
        else s₁.interrupted t x excluded
      | none => s₁.interrupted t x []) := by
  have ht₁ : t < s₁.spawned := lt_of_lt_of_le ht hcalm.spawned
  split
  · have hdrop : s'.Calm (s₁.drop x) t := hcalm.trans drop_calm
    have hw₁ := hw.trans hdrop.waits
    dsimp only
    split
    · exact hw₁.fair (put_calm (t := t) (by simp)).leaves
    · exact interrupted_fair hw₁ (lt_of_lt_of_le ht hdrop.spawned)
  · exact interrupted_fair (hw.trans hcalm.waits) ht₁

theorem reassign_fair (hw : s.Waits s') (ht : t < s'.spawned) : s.Fair (s'.reassign t x) := by
  have hback : s'.Calm (s'.transition! x [.live] .assigning) t := by
    unfold transition!
    cases hs : s'.transition x [.live] .assigning with
    | none => exact Calm.refl t s'
    | some s₁ => exact transition_calm hs (by simp)
  unfold World.reassign
  split
  · exact leaveWorker_fair hw ht hback
  · exact leaveWorker_fair hw ht hback
  · exact hw.only

theorem resumeIdle_fair (hw : s.Waits s') (ht : t < s'.spawned) : s.Fair (s'.resumeIdle t x) := by
  unfold World.resumeIdle
  split
  · have hbump : s'.Calm (s'.bump x) t := bump_calm
    exact startPlace_fair (hw.trans hbump.waits) ht
  · exact hw.only

/-! ## Handshakes -/

/-- A new session is registered, and the sessions before it are as they were. -/
theorem register_waits (modelId : String) (user auth : Option Nat) :
    s.Waits { s.setRow s.created (fun _ => Session.new modelId user auth s.now) with
      created := s.created + 1, sessions := s.sessions ++ [s.created] } := by
  have hrows : ∀ y, y < s.created → (s.setRow s.created
      (fun _ => Session.new modelId user auth s.now)).rows y = s.rows y := fun y hlt =>
    setRow_rows_of_ne _ (Nat.ne_of_lt hlt)
  refine ⟨Nat.le_succ _, fun _ _ hi => hi, ?_, ?_, ?_, ?_⟩
  · intro y hlt hy
    exact (congrArg Session.state (hrows y hlt)).trans hy
  · intro y hlt hy
    refine .inl ⟨⟨List.mem_append_left _ hy.1, ?_⟩, ?_⟩
    · exact (congrArg Session.state (hrows y hlt)).trans hy.2
    · exact congrArg Session.queuedAt (hrows y hlt)
  · intro y hlt q hq
    exact (congrArg Session.queuedAt (hrows y hlt)).trans hq
  · intro y hlt
    exact congrArg Session.modelId (hrows y hlt)

theorem turnAway_calm (hx : (s.rows x).state ≠ .queued) : s.Calm (s.turnAway x) t := by
  unfold turnAway
  split
  · exact (unregister_calm hx).trans (aside_calm rfl rfl rfl rfl rfl)
  · exact aside_calm rfl rfl rfl rfl rfl

theorem openSession_fair {modelId : String} {user auth : Option Nat} (hw : s.Waits s')
    (ht : t < s'.spawned) : s.Fair (s'.openSession t user auth modelId) := by
  unfold World.openSession
  split
  case isFalse => exact hw.only
  case isTrue =>
    have hregister := hw.trans (register_waits modelId user auth)
    dsimp only
    split
    · exact hregister.fair (put_calm (t := t) (by simp)).leaves
    · split
      · exact startPlace_fair hregister ht
      · -- it is turned away as it was registered, before it could wait
        refine hregister.fair (t := t) (turnAway_calm ?_).leaves
        show ((s'.setRow s'.created
          (fun _ => Session.new modelId user none s'.now)).rows s'.created).state ≠ .queued
        rw [setRow_rows_self]
        simp [Session.new]

/-! ## Every step -/

theorem SocketInv.lt {task : Task} (h : s.SocketInv) (ht : s.tasks t = task) (hne : task ≠ .done) :
    t < s.spawned := by
  by_contra hge
  rw [h.ended t (Nat.not_lt.mp hge)] at ht
  exact hne ht.symm

theorem stop_calm : s.Calm (s.put t .done) t := put_calm (by simp)

theorem heartbeat_calm {measured : List (String × Nat)} :
    s.Calm (if (raiseCosts (s.workers w) measured).2 then
      ((s.setWorker w fun _ => (raiseCosts (s.workers w) measured).1).overCapacitySessions w).foldl
        scheduleReassign (s.setWorker w fun _ => (raiseCosts (s.workers w) measured).1)
      else s.setWorker w fun _ => (raiseCosts (s.workers w) measured).1) t := by
  have hcosts : s.Calm (s.setWorker w fun _ => (raiseCosts (s.workers w) measured).1) t :=
    aside_calm rfl rfl rfl rfl rfl
  split
  · exact hcosts.trans (foldl_calm fun _ _ => scheduleReassign_calm)
  · exact hcosts

/-- Every step of every interleaving keeps the queue. -/
theorem step_fair {a : Action} (h : s.SocketInv) (hstep : step s a = some s') : s.Fair s' := by
  have hcalm : ∀ {s' : World}, s.Calm s' s.spawned → s.Fair s' := fun hc => hc.waits.only
  have hspawned : s.Calm (s.spawn .done) s.spawned := spawn_calm (by simp)
  have hrun : s.spawned < (s.spawn .done).spawned := Nat.lt_succ_self _
  have hstop : ∀ t, s.Waits (s.put t .done) := fun t => (stop_calm (t := t)).waits
  cases a with
  | tick =>
    obtain rfl := Option.some.inj hstep
    exact hcalm (aside_calm rfl rfl rfl rfl rfl)
  | hello worker =>
    simp only [step] at hstep
    split at hstep
    · cases hstep
    · obtain rfl := Option.some.inj hstep
      exact hcalm (aside_calm rfl rfl rfl rfl rfl)
  | prune w =>
    obtain rfl := Option.some.inj hstep
    exact hcalm (aside_calm rfl rfl rfl rfl rfl)
  | workerSends w m =>
    obtain rfl := Option.some.inj hstep
    exact hcalm (aside_calm rfl rfl rfl rfl rfl)
  | fleetReads w =>
    simp only [step] at hstep
    split at hstep
    · rename_i m inbox _ _
      obtain rfl := Option.some.inj hstep
      apply hcalm
      refine Calm.trans ?_ receive_calm
      split
      · exact aside_calm rfl rfl rfl rfl rfl
      · exact aside_calm rfl rfl rfl rfl rfl
    · cases hstep
  | heartbeat w measured =>
    simp only [step] at hstep
    split at hstep
    · obtain rfl := Option.some.inj hstep
      exact hcalm heartbeat_calm
    · cases hstep
  | finalize w =>
    simp only [step] at hstep
    split at hstep
    · obtain rfl := Option.some.inj hstep
      have hlost : s.Calm ((s.setWorker w ({ · with connected := false })).forgetWorker w)
          s.spawned := aside_calm rfl rfl rfl rfl rfl
      exact hcalm (hlost.trans (foldl_calm fun _ _ => orphan_calm))
    · cases hstep
  | admitQueued =>
    obtain rfl := Option.some.inj hstep
    exact (Calm.refl 0 s).waits.fair (admitQueued_leaves (t := 0))
  | releaseIdle x =>
    simp only [step] at hstep
    split at hstep
    · obtain rfl := Option.some.inj hstep
      have hidle : (s.spawn .done).Calm ((s.spawn .done).transition! x [.live] .idle)
          s.spawned := by
        unfold transition!
        cases hs : (s.spawn .done).transition x [.live] .idle with
        | none => exact Calm.refl _ _
        | some s' => exact transition_calm hs (by simp)
      exact (hspawned.trans hidle).waits.fair
        (releaseLast_leaves (lt_of_lt_of_le hrun hidle.spawned))
    · cases hstep
  | connect user auth =>
    simp only [step] at hstep
    split at hstep
    · obtain rfl := Option.some.inj hstep
      exact hcalm (spawn_calm (by simp))
    split at hstep
    · split at hstep
      · cases hstep
      · obtain rfl := Option.some.inj hstep
        exact hcalm (spawn_calm (by simp))
    · cases hstep
  | openSession t modelId =>
    simp only [step] at hstep
    split at hstep
    · rename_i user auth ht
      obtain rfl := Option.some.inj hstep
      exact openSession_fair (hstop t) (h.lt ht (by simp))
    · cases hstep
  | recheck t alive =>
    simp only [step] at hstep
    split at hstep
    · split at hstep
      · obtain rfl := Option.some.inj hstep
        exact (put_calm (t := t) (by simp)).waits.only
      · cases hstep
    · cases hstep
  | recheckAnswered t =>
    simp only [step] at hstep
    split at hstep
    · rename_i x ht
      obtain rfl := Option.some.inj hstep
      exact startPlace_fair (hstop t) (h.lt ht (by simp))
    · rename_i x ht
      obtain rfl := Option.some.inj hstep
      refine (hstop t).fair (t := t) (turnAway_calm ?_).leaves
      have hcheck := (h.checked t x (some false) ht).2.1
      have hrow : ((s.put t .done).rows x).state = (s.rows x).state := rfl
      rw [hrow]
      rcases hcheck with hs | hs
      · simp [hs]
      · simp [hs]
    · cases hstep
  | sent t =>
    simp only [step] at hstep
    split at hstep
    · split at hstep
      · obtain rfl := Option.some.inj hstep
        exact (put_calm (t := t) (by simp)).waits.only
      · cases hstep
    · cases hstep
  | sendFails t =>
    simp only [step] at hstep
    split at hstep
    · rename_i caller x attempt ht
      split at hstep
      · obtain rfl := Option.some.inj hstep
        have hgive : (s.put t .done).Calm ((s.put t .done).giveUp x attempt).1 t := giveUp_calm
        exact goOn_fair ((hstop t).trans hgive.waits)
          (lt_of_lt_of_le (h.lt ht (by simp)) hgive.spawned) giveUp_answers
      · cases hstep
    · cases hstep
  | raises t =>
    simp only [step] at hstep
    split at hstep
    · rename_i x _ ht
      obtain rfl := Option.some.inj hstep
      exact (hstop t).fair (tearDown_leaves (h.lt ht (by simp)))
    all_goals first
      | (obtain rfl := Option.some.inj hstep
         exact (hstop t).only)
      | cases hstep
  | wakes t =>
    simp only [step] at hstep
    split at hstep
    · rename_i caller x attempt ht
      split at hstep
      · obtain rfl := Option.some.inj hstep
        have hwake : (s.put t .done).Calm ((s.put t .done).woken x attempt).1 t := woken_calm
        exact goOn_fair ((hstop t).trans hwake.waits)
          (lt_of_lt_of_le (h.lt ht (by simp)) hwake.spawned) (woken_answers rfl)
      · cases hstep
    · cases hstep
  | timesOut t =>
    simp only [step] at hstep
    split at hstep
    · rename_i caller x attempt ht
      split at hstep
      · obtain rfl := Option.some.inj hstep
        have hgive : (s.put t .done).Calm ((s.put t .done).giveUp x attempt).1 t := giveUp_calm
        exact goOn_fair ((hstop t).trans hgive.waits)
          (lt_of_lt_of_le (h.lt ht (by simp)) hgive.spawned) giveUp_answers
      · cases hstep
    · cases hstep
  | abandoned t =>
    simp only [step] at hstep
    split at hstep
    · rename_i caller x attempt ht
      split at hstep
      · obtain rfl := Option.some.inj hstep
        have hassigned : (s.put t .done).Calm ((s.put t .done).assigned x attempt false).1 t :=
          assigned_calm
        exact goOn_fair ((hstop t).trans hassigned.waits)
          (lt_of_lt_of_le (h.lt ht (by simp)) hassigned.spawned) (assigned_answers (by simp))
      · cases hstep
    · cases hstep
  | starts t =>
    simp only [step] at hstep
    split at hstep
    · rename_i x ht
      obtain rfl := Option.some.inj hstep
      exact startPlace_fair (hstop t) (h.lt ht (by simp))
    · rename_i x ht
      obtain rfl := Option.some.inj hstep
      exact reassign_fair (hstop t) (h.lt ht (by simp))
    · rename_i x ht
      obtain rfl := Option.some.inj hstep
      exact resumeIdle_fair (hstop t) (h.lt ht (by simp))
    · cases hstep
  | interrupted t =>
    simp only [step] at hstep
    split at hstep
    · rename_i x excluded ht
      obtain rfl := Option.some.inj hstep
      exact interrupted_fair (hstop t) (h.lt ht (by simp))
    · cases hstep
  | desiredRead t =>
    simp only [step] at hstep
    split at hstep
    · rename_i x excluded ht
      obtain rfl := Option.some.inj hstep
      exact reopen_fair (hstop t) (h.lt ht (by simp))
    · cases hstep
  | released t =>
    simp only [step] at hstep
    split at hstep
    · obtain rfl := Option.some.inj hstep
      exact (hstop t).fair (admitQueued_leaves (t := t))
    · rename_i call pending rest ht
      obtain rfl := Option.some.inj hstep
      have hlt : t < (s.put t .done).spawned := h.lt ht (by simp)
      have hpass : (s.put t .done).Leaves (s.put t .done).admitQueued t := admitQueued_leaves
      exact (hstop t).fair (hpass.trans hlt (closeNext_leaves (hpass.lt hlt)))
    · cases hstep
  | releaseRaises t =>
    simp only [step] at hstep
    split at hstep
    · obtain rfl := Option.some.inj hstep
      exact (hstop t).only
    · rename_i call pending rest ht
      obtain rfl := Option.some.inj hstep
      have hlog : s.Calm { s with calls := s.calls ++ [⟨call, s.forwards.length, false⟩] } t :=
        aside_calm rfl rfl rfl rfl rfl
      exact (hlog.trans stop_calm).waits.only
    · cases hstep
  | canvasFrame t =>
    simp only [step] at hstep
    split at hstep
    · obtain rfl := Option.some.inj hstep
      exact hcalm canvasFrame_calm
    · cases hstep
  | disconnect t =>
    simp only [step] at hstep
    split at hstep
    · rename_i x ht
      obtain rfl := Option.some.inj hstep
      exact (hstop t).fair (tearDown_leaves (h.lt ht (by simp)))
    · cases hstep
  | revoke auths =>
    obtain rfl := Option.some.inj hstep
    exact hcalm (aside_calm rfl rfl rfl rfl rfl)
  | enableAccounts =>
    obtain rfl := Option.some.inj hstep
    exact hcalm (aside_calm rfl rfl rfl rfl rfl)
  | closeRevoked user auth keep =>
    obtain rfl := Option.some.inj hstep
    exact hspawned.waits.fair (beginClose_leaves hrun)
  | closeNoneMode =>
    obtain rfl := Option.some.inj hstep
    exact hspawned.waits.fair (beginClose_leaves hrun)
  | closeDead =>
    obtain rfl := Option.some.inj hstep
    exact hcalm (spawn_calm (by simp))
  | deadAnswered t expired =>
    simp only [step] at hstep
    split at hstep
    · obtain rfl := Option.some.inj hstep
      exact (put_calm (t := t) (by simp)).waits.only
    · cases hstep
  | nextDead t =>
    simp only [step] at hstep
    split at hstep
    · obtain rfl := Option.some.inj hstep
      exact (hstop t).only
    · rename_i auth user rest ht
      obtain rfl := Option.some.inj hstep
      exact (hstop t).fair (beginClose_leaves (h.lt ht (by simp)))
    · cases hstep

theorem step_inOrder {a : Action} (h : s.SocketInv) (hstep : step s a = some s') :
    s.TakenInOrder s' := by
  intro j y hnot hj x hx hmodel hlt
  exact (step_fair h hstep).order j y hnot hj x (h.listed x hx.1) hx hmodel hlt

/-- Along a run in which no attempt of a session goes live, it keeps its place. -/
theorem run_place {q : Nat} (h : realtimeMachine.Reach Machine.anyStep s) (hx : x < s.created)
    (hq : (s.rows x).queuedAt = some q)
    (hrun : realtimeMachine.Path (fun r _ => ¬ r.wentLive x) s s') (hend : ¬ s'.wentLive x) :
    (s'.rows x).queuedAt = some q := by
  have hplace : x < s'.created ∧ ((s'.rows x).queuedAt = some q ∨ s'.wentLive x) := by
    clear hend
    induction hrun with
    | refl => exact ⟨hx, .inl hq⟩
    | @tail r u a hpath hdead hstep ih =>
      have hreach := h.path (hpath.mono fun _ _ _ => trivial)
      have hfair := step_fair (run_closeInv hreach).socket hstep
      have hq' := ih.2.resolve_right hdead
      refine ⟨lt_of_lt_of_le ih.1 hfair.created, ?_⟩
      rcases hfair.places x ih.1 q hq' with hkept | hlive | hready
      · exact .inl hkept
      · exact .inr (.inl hlive)
      · exact absurd (.inr hready) hdead
  exact hplace.2.resolve_right hend

/-- In every interleaving, the queue is left in order and every place is kept. -/
theorem queue_kept (h : realtimeMachine.Reach Machine.anyStep s) : s.QueueKept where
  order := fun _ _ hstep => step_inOrder (run_closeInv h).socket hstep
  place := fun _ hx _ hq _ hrun hend => run_place h hx hq hrun hend

section Sample

/-- One worker with one slot: the first browser is live on it, the second waits, and the
first leaves while its `close_session` is being sent. -/
def sampleFreed : List Action :=
  [.hello ⟨"a", ["model"], 1, 0, none, [], [], true⟩, .connect none none, .openSession 0 "model",
    .sent 0, .workerSends 0 ⟨.sessionReady, 0, 1⟩, .fleetReads 0, .wakes 0, .connect none none,
    .openSession 1 "model", .disconnect 0, .connect none none]

/-- The pass of the queue takes the session that waits, and its `admit` is created. -/
def sampleAdmitted : List Action := sampleFreed ++ [.released 0]

/-- Where a schedule of an install without accounts ends. -/
def sampleOpen (schedule : List Action) : World :=
  (realtimeMachine.run (World.start true) schedule).getD (World.start true)

theorem sampleOpen_reach (schedule : List Action)
    (h : realtimeMachine.run (World.start true) schedule = some (sampleOpen schedule)) :
    realtimeMachine.Reach Machine.anyStep (sampleOpen schedule) :=
  (Machine.Reach.of_init (start_init true)).path (Machine.path_of_run_any h)

/-- A third browser takes the freed slot before the queue is looked at. -/
theorem newcomer_overtakes : ¬ ∀ s, realtimeMachine.Reach Machine.anyStep s →
    ∀ a s', step s a = some s' → s.NoOvertaking s' := by
  intro hall
  have hreach := sampleOpen_reach sampleFreed rfl
  have hstep : step (sampleOpen sampleFreed) (.openSession 2 "model") =
      some (sampleOpen (sampleFreed ++ [.openSession 2 "model"])) := rfl
  have hwaits : (sampleOpen sampleFreed).waits 1 := ⟨by decide, rfl⟩
  have hnone := hall _ hreach _ _ hstep ⟨2, 1, 0⟩ rfl 1 hwaits rfl (.inl ⟨rfl, rfl⟩)
  have hsome : (sampleOpen sampleFreed).rank "model" [] 0 = some 1 := by decide
  have hmodel : ((sampleOpen sampleFreed).rows 1).modelId = "model" := rfl
  rw [hmodel, hsome] at hnone
  cases hnone

theorem queue_kept_sample : (sampleOpen sampleFreed).QueueKept ∧
    (sampleOpen sampleFreed).waits 1 ∧ (sampleOpen sampleAdmitted).admits 3 1 :=
  ⟨queue_kept (sampleOpen_reach sampleFreed rfl), ⟨by decide, rfl⟩, rfl⟩

end Sample

end World

end Potocolom.Realtime
