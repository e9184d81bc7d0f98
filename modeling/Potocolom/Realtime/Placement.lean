import Potocolom.Lib.Load
import Potocolom.Realtime.Machine

/-! # One placement at a time

What holds of a session while at most one coroutine places it: its opens carry
rising generations, its slot is counted where it is, and it is live only where its
newest attempt was answered. The invariant is kept by every primitive of the
scheduler under the precondition stated with it. -/

namespace Potocolom.Realtime

/-! ## What the invariant speaks of -/

namespace World

variable (s : World)

/-- No placement of `x` is unfinished or about to start. -/
def settled (x : Nat) : Prop := ∀ t < s.spawned, ¬ (s.tasks t).owns x

instance (x : Nat) : Decidable (s.settled x) := by
  unfold settled
  infer_instance

/-- `settled`, over every task number. -/
def unowned (x : Nat) : Prop := ∀ t, ¬ (s.tasks t).owns x

/-- The generation of `x` is above that of every open sent for it. -/
def fresh (x : Nat) : Prop :=
  ∀ o ∈ s.opens, o.session = x → o.generation < (s.rows x).controlGeneration

/-- A session outside the dictionary has ended. -/
def listed (x : Nat) : Prop := x ∈ s.sessions ∨ (s.rows x).state = .ended

/-- After the open of `x` at generation `g` was sent to `w`, the API read a
`session_ready` of `w` that names `x` and `g`. -/
def answered (w x g : Nat) : Prop :=
  ∃ n, (⟨w, x, g, n⟩ : Ready) ∈ s.readies ∧ (⟨x, g, w⟩ : Open) ∈ s.opens.take n

/-- What holds of the row of `x`. -/
structure RowOk (x : Nat) : Prop where
  opened : ∀ o ∈ s.opens, o.session = x → o.generation ≤ (s.rows x).controlGeneration
  held : ∀ w, (s.rows x).worker = some w → ⟨x, (s.rows x).controlGeneration, w⟩ ∈ s.opens
  ready : ∀ w, (s.rows x).worker = some w →
    (s.rows x).attemptOk = true ∨ (s.rows x).state = .live →
    s.answered w x (s.rows x).controlGeneration
  unlisted : x ∉ s.sessions → (s.rows x).worker = none ∧
    ((s.rows x).state = .assigning ∨ (s.rows x).state = .ended)
  off : (s.rows x).state = .queued ∨ (s.rows x).state = .idle ∨ (s.rows x).state = .ended →
    (s.rows x).worker = none
  waiting : (s.rows x).state = .queued → s.fresh x ∧ s.unowned x
  unborn : s.created ≤ x → (s.rows x).state = .ended ∧ (∀ o ∈ s.opens, o.session ≠ x) ∧
    s.unowned x

/-- What the task that places `x`, or is about to, relies on. -/
def TaskOk : Task → Prop
  | .checking x _ => (s.rows x).worker = none ∧ s.fresh x ∧ s.listed x ∧
      ((s.rows x).state = .assigning ∨ (s.rows x).state = .ended)
  | .scheduled .admission x => (s.rows x).worker = none ∧ s.fresh x ∧ s.listed x
  | .scheduled .handler _ => False
  | .scheduled .reassign x => s.listed x
  | .scheduled .resumeIdle x | .interrupting x _ | .reading x _ =>
      (s.rows x).worker = none ∧ s.listed x
  | .placing _ x attempt => (s.rows x).controlGeneration = attempt.started ∧ s.listed x ∧
      (attempt.phase = .abandoning → (s.rows x).worker = none) ∧
      ∀ w, (s.rows x).worker = some w → w = attempt.worker
  | _ => True

/-- What holds of `x`. -/
structure SessionOk (x : Nat) : Prop where
  row : s.RowOk x
  task : ∀ t, (s.tasks t).owns x → s.TaskOk (s.tasks t)
  one : ∀ t t', (s.tasks t).owns x → (s.tasks t').owns x → t = t'

/-- What holds of the process as a whole. -/
structure ProcessOk : Prop where
  slots : ∀ w, (s.workers w).slotsInUse = Load.load (fun x => (s.rows x).worker) s.created w
  rising : s.opens.Pairwise fun o o' => o.session = o'.session → o.generation < o'.generation
  sent : ∀ o ∈ s.opens, o.worker < s.attached
  registered : ∀ w ∈ s.registered, w < s.attached
  ended : ∀ t, s.spawned ≤ t → s.tasks t = .done

/-- The invariant of the scheduler while one placement of a session runs at a time. -/
structure PlacementInv : Prop where
  process : s.ProcessOk
  session : ∀ x, s.SessionOk x

/-- A step leaves `y` alone. -/
structure Untouched (s s' : World) (y : Nat) : Prop where
  worker : (s'.rows y).worker = (s.rows y).worker
  state : (s'.rows y).state = (s.rows y).state
  generation : (s'.rows y).controlGeneration = (s.rows y).controlGeneration
  attemptOk : (s'.rows y).attemptOk = (s.rows y).attemptOk
  sessions : y ∈ s'.sessions ↔ y ∈ s.sessions
  opened : ∀ o ∈ s'.opens, o.session = y → o ∈ s.opens
  opens : s.opens <+: s'.opens
  readies : s.readies ⊆ s'.readies
  created : s.created ≤ s'.created
  tasks : ∀ t, (s'.tasks t).owns y → s'.tasks t = s.tasks t

end World

namespace World

variable {s s' : World} {x y t w : Nat}

/-! ## Frame rules -/

theorem answered.mono {g : Nat} (hopens : s.opens <+: s'.opens) (hreadies : s.readies ⊆ s'.readies)
    (h : s.answered w x g) : s'.answered w x g := by
  rcases h with ⟨n, hready, hopen⟩
  have hprefix : s.opens.take n <+: s'.opens.take n := hopens.take n
  exact ⟨n, hreadies hready, hprefix.subset hopen⟩

theorem Untouched.fresh (h : Untouched s s' y) (hf : s.fresh y) : s'.fresh y := by
  intro o ho hy
  rw [h.generation]
  exact hf o (h.opened o ho hy) hy

theorem Untouched.listed (h : Untouched s s' y) (hl : s.listed y) : s'.listed y := by
  unfold World.listed at hl ⊢
  rw [h.sessions, h.state]
  exact hl

theorem Untouched.owns (h : Untouched s s' y) (ht : (s'.tasks t).owns y) : (s.tasks t).owns y := by
  rw [← h.tasks t ht]
  exact ht

theorem Untouched.rowOk (h : Untouched s s' y) (hr : s.RowOk y) : s'.RowOk y where
  opened := by
    intro o ho hy
    rw [h.generation]
    exact hr.opened o (h.opened o ho hy) hy
  held := by
    intro w hw
    rw [h.worker] at hw
    rw [h.generation]
    exact h.opens.subset (hr.held w hw)
  ready := by
    intro w hw hlive
    rw [h.worker] at hw
    rw [h.attemptOk, h.state] at hlive
    rw [h.generation]
    exact (hr.ready w hw hlive).mono h.opens h.readies
  unlisted := by
    rw [h.sessions, h.worker, h.state]
    exact hr.unlisted
  off := by
    rw [h.state, h.worker]
    exact hr.off
  waiting := by
    intro hq
    rw [h.state] at hq
    exact ⟨h.fresh (hr.waiting hq).1, fun t ht => (hr.waiting hq).2 t (h.owns ht)⟩
  unborn := by
    intro hy
    have hold := hr.unborn (Nat.le_trans h.created hy)
    rw [h.state]
    refine ⟨hold.1, ?_, fun t ht => hold.2.2 t (h.owns ht)⟩
    intro o ho hoy
    exact hold.2.1 o (h.opened o ho hoy) hoy

/-- A task that places `x` keeps what it relies on when `x` keeps its generation,
and stays where it is or leaves its worker. -/
theorem TaskOk.keep {task : Task} (hx : task.owns x)
    (hw : (s'.rows x).worker = (s.rows x).worker ∨ (s'.rows x).worker = none)
    (hg : (s'.rows x).controlGeneration = (s.rows x).controlGeneration)
    (hf : s.fresh x → s'.fresh x) (hl : s.listed x → s'.listed x)
    (hs : (∃ answer, task = .checking x answer) →
      (s.rows x).state = .assigning ∨ (s.rows x).state = .ended →
      (s'.rows x).state = .assigning ∨ (s'.rows x).state = .ended)
    (h : s.TaskOk task) : s'.TaskOk task := by
  have hnone : (s.rows x).worker = none → (s'.rows x).worker = none := by
    intro hn
    rcases hw with hw | hw
    · rw [hw, hn]
    · exact hw
  cases task with
  | checking z answer =>
    obtain rfl : z = x := hx
    exact ⟨hnone h.1, hf h.2.1, hl h.2.2.1, hs ⟨answer, rfl⟩ h.2.2.2⟩
  | scheduled caller z =>
    obtain rfl : z = x := hx
    cases caller with
    | handler => exact h
    | admission => exact ⟨hnone h.1, hf h.2.1, hl h.2.2⟩
    | reassign => exact hl h
    | resumeIdle => exact ⟨hnone h.1, hl h.2⟩
  | interrupting z _ =>
    obtain rfl : z = x := hx
    exact ⟨hnone h.1, hl h.2⟩
  | reading z _ =>
    obtain rfl : z = x := hx
    exact ⟨hnone h.1, hl h.2⟩
  | placing caller z attempt =>
    obtain rfl : z = x := hx
    rcases h with ⟨hstarted, hlisted, hab, hown⟩
    refine ⟨hg.trans hstarted, hl hlisted, fun hphase => hnone (hab hphase), ?_⟩
    intro w hworker
    rcases hw with hw | hw
    · exact hown w (by rw [← hw, hworker])
    · simp [hw] at hworker
  | _ => exact trivial

theorem Untouched.taskOk (h : Untouched s s' y) {task : Task} (hy : task.owns y)
    (ht : s.TaskOk task) : s'.TaskOk task :=
  ht.keep hy (.inl h.worker) h.generation h.fresh h.listed (fun _ hs => by rwa [h.state])

theorem Untouched.sessionOk (h : Untouched s s' y) (hs : s.SessionOk y) : s'.SessionOk y where
  row := h.rowOk hs.row
  task := by
    intro t ht
    have hold := hs.task t (h.owns ht)
    rw [h.tasks t ht]
    exact h.taskOk (h.owns ht) hold
  one := fun t t' ht ht' => hs.one t t' (h.owns ht) (h.owns ht')

theorem Untouched.refl (s : World) (y : Nat) : Untouched s s y where
  worker := rfl
  state := rfl
  generation := rfl
  attemptOk := rfl
  sessions := Iff.rfl
  opened := fun _ ho _ => ho
  opens := List.prefix_refl _
  readies := List.Subset.refl _
  created := Nat.le_refl _
  tasks := fun _ _ => rfl

/-- A step that leaves every session but `x` alone only has to account for `x`. -/
theorem PlacementInv.of_untouched (h : s.PlacementInv) (hp : s'.ProcessOk)
    (hu : ∀ y, y ≠ x → Untouched s s' y) (hx : s'.SessionOk x) : s'.PlacementInv where
  process := hp
  session := by
    intro y
    rcases eq_or_ne y x with rfl | hne
    · exact hx
    · exact (hu y hne).sessionOk (h.session y)

/-- The process after a step that moved no session between workers. -/
theorem ProcessOk.keep (h : s.ProcessOk)
    (hslots : ∀ w, (s'.workers w).slotsInUse = (s.workers w).slotsInUse)
    (hworker : ∀ x, (s'.rows x).worker = (s.rows x).worker) (hcreated : s'.created = s.created)
    (hopens : s'.opens = s.opens) (hattached : s'.attached = s.attached)
    (hregistered : s'.registered ⊆ s.registered)
    (htasks : ∀ t, s'.spawned ≤ t → s'.tasks t = .done) : s'.ProcessOk where
  slots := by
    intro w
    have hload : Load.load (fun x => (s'.rows x).worker) s'.created w =
        Load.load (fun x => (s.rows x).worker) s.created w := by
      rw [hcreated]
      exact Load.load_congr w fun x _ => hworker x
    rw [hslots, hload]
    exact h.slots w
  rising := by
    rw [hopens]
    exact h.rising
  sent := by
    rw [hopens, hattached]
    exact h.sent
  registered := by
    rw [hattached]
    exact fun w hw => h.registered w (hregistered hw)
  ended := htasks

/-! ## Rows -/

theorem setRow_rows_self (f : Session → Session) : (s.setRow x f).rows x = f (s.rows x) := by
  simp [setRow]

theorem setRow_rows_of_ne (f : Session → Session) (h : y ≠ x) :
    (s.setRow x f).rows y = s.rows y := by
  simp [setRow, h]

theorem Untouched.setRow_of_ne (f : Session → Session) (h : y ≠ x) :
    Untouched s (s.setRow x f) y := by
  have hrow : (s.setRow x f).rows y = s.rows y := setRow_rows_of_ne f h
  exact { Untouched.refl s y with
    worker := by rw [hrow]
    state := by rw [hrow]
    generation := by rw [hrow]
    attemptOk := by rw [hrow] }

/-- Other columns of the row: its frames, its clock, its place in the queue. -/
theorem Untouched.setRow {f : Session → Session}
    (hworker : (f (s.rows x)).worker = (s.rows x).worker)
    (hstate : (f (s.rows x)).state = (s.rows x).state)
    (hgeneration : (f (s.rows x)).controlGeneration = (s.rows x).controlGeneration)
    (hok : (f (s.rows x)).attemptOk = (s.rows x).attemptOk) (y : Nat) :
    Untouched s (s.setRow x f) y := by
  rcases eq_or_ne y x with rfl | hne
  · have hrow : (s.setRow y f).rows y = f (s.rows y) := setRow_rows_self f
    exact { Untouched.refl s y with
      worker := by rw [hrow, hworker]
      state := by rw [hrow, hstate]
      generation := by rw [hrow, hgeneration]
      attemptOk := by rw [hrow, hok] }
  · exact Untouched.setRow_of_ne f hne

theorem PlacementInv.setRow {f : Session → Session} (h : s.PlacementInv)
    (hworker : (f (s.rows x)).worker = (s.rows x).worker)
    (hstate : (f (s.rows x)).state = (s.rows x).state)
    (hgeneration : (f (s.rows x)).controlGeneration = (s.rows x).controlGeneration)
    (hok : (f (s.rows x)).attemptOk = (s.rows x).attemptOk) : (s.setRow x f).PlacementInv := by
  have hu := Untouched.setRow hworker hstate hgeneration hok
  constructor
  · exact h.process.keep (fun _ => rfl) (fun y => (hu y).worker) rfl rfl rfl
      (List.Subset.refl _) h.process.ended
  · intro y
    exact (hu y).sessionOk (h.session y)

/-- What the attempt was answered. -/
theorem PlacementInv.setAttempt {ok : Bool} (h : s.PlacementInv)
    (hok : ok = true → ∀ w, (s.rows x).worker = some w →
      s.answered w x (s.rows x).controlGeneration) :
    (s.setRow x ({ · with attemptOk := ok })).PlacementInv := by
  have hrow : (s.setRow x ({ · with attemptOk := ok })).rows x =
      { s.rows x with attemptOk := ok } := setRow_rows_self _
  have hsession := h.session x
  have hfresh : s.fresh x → (s.setRow x ({ · with attemptOk := ok })).fresh x := by
    intro hf o ho hox
    rw [hrow]
    exact hf o ho hox
  refine h.of_untouched (x := x) ?_ (fun y hne => Untouched.setRow_of_ne _ hne)
    ⟨⟨?_, ?_, ?_, ?_, ?_, ?_, ?_⟩, ?_, hsession.one⟩
  · refine h.process.keep (fun _ => rfl) ?_ rfl rfl rfl (List.Subset.refl _) h.process.ended
    intro y
    rcases eq_or_ne y x with rfl | hne
    · rw [hrow]
    · rw [setRow_rows_of_ne _ hne]
  · rw [hrow]
    exact hsession.row.opened
  · rw [hrow]
    exact hsession.row.held
  · rw [hrow]
    intro w hw hor
    rcases hor with hnew | hlive
    · exact hok hnew w hw
    · exact hsession.row.ready w hw (.inr hlive)
  · rw [hrow]
    exact hsession.row.unlisted
  · rw [hrow]
    exact hsession.row.off
  · rw [hrow]
    intro hq
    exact ⟨hfresh (hsession.row.waiting hq).1, (hsession.row.waiting hq).2⟩
  · rw [hrow]
    exact hsession.row.unborn
  · intro t ht
    have hlisted : s.listed x → (s.setRow x ({ · with attemptOk := ok })).listed x := by
      unfold World.listed
      rw [hrow]
      exact id
    exact (hsession.task t ht).keep ht (.inl (by rw [hrow])) (by rw [hrow]) hfresh hlisted
      (by rw [hrow]; exact fun _ hs => hs)

/-- A session that has not ended has been created. -/
theorem PlacementInv.born (h : s.PlacementInv) (hx : (s.rows x).state ≠ .ended) :
    x < s.created := by
  by_contra hge
  exact hx ((h.session x).row.unborn (by omega)).1

theorem PlacementInv.on_worker (h : s.PlacementInv) (hx : (s.rows x).worker = some w) :
    x < s.created ∧ w < s.attached := by
  have hopen := (h.session x).row.held w hx
  constructor
  · by_contra hge
    exact ((h.session x).row.unborn (by omega)).2.1 _ hopen rfl
  · exact h.process.sent _ hopen

/-- A new state for a session of the dictionary. -/
theorem PlacementInv.setState {new : SessionState} (h : s.PlacementInv)
    (hold : (s.rows x).state ≠ .ended) (hx : x ∈ s.sessions)
    (hoff : new = .queued ∨ new = .idle ∨ new = .ended → (s.rows x).worker = none)
    (hqueued : new = .queued → s.fresh x ∧ s.unowned x)
    (hlive : new = .live → ∀ w, (s.rows x).worker = some w →
      s.answered w x (s.rows x).controlGeneration)
    (hcheck : new = .assigning ∨ new = .ended ∨ ∀ t answer, s.tasks t ≠ .checking x answer) :
    (s.setRow x ({ · with state := new })).PlacementInv := by
  have hrow : (s.setRow x ({ · with state := new })).rows x = { s.rows x with state := new } :=
    setRow_rows_self _
  have hsession := h.session x
  have hfresh : s.fresh x → (s.setRow x ({ · with state := new })).fresh x := by
    intro hf o ho hox
    rw [hrow]
    exact hf o ho hox
  apply h.of_untouched (x := x)
  · refine h.process.keep (fun _ => rfl) ?_ rfl rfl rfl (List.Subset.refl _) h.process.ended
    intro y
    rcases eq_or_ne y x with rfl | hne
    · rw [hrow]
    · rw [setRow_rows_of_ne _ hne]
  · exact fun y hne => Untouched.setRow_of_ne _ hne
  refine ⟨⟨?_, ?_, ?_, ?_, ?_, ?_, ?_⟩, ?_, hsession.one⟩
  · rw [hrow]
    exact hsession.row.opened
  · rw [hrow]
    exact hsession.row.held
  · rw [hrow]
    intro w hw hor
    rcases hor with hok | hnew
    · exact hsession.row.ready w hw (.inl hok)
    · exact hlive hnew w hw
  · intro hnot
    exact absurd hx hnot
  · rw [hrow]
    exact hoff
  · rw [hrow]
    intro hnew
    exact ⟨hfresh (hqueued hnew).1, (hqueued hnew).2⟩
  · intro hge
    exact absurd (h.born hold) (Nat.not_lt.mpr hge)
  · intro t ht
    refine (hsession.task t ht).keep ht (.inl (by rw [hrow])) (by rw [hrow]) hfresh
      (fun _ => .inl hx) ?_
    rintro ⟨answer, htask⟩ _
    rw [hrow]
    rcases hcheck with hnew | hnew | hno
    · exact .inl hnew
    · exact .inr hnew
    · exact absurd htask (hno t answer)

/-- A session of the dictionary waits for a placement. -/
theorem PlacementInv.setAssigning (h : s.PlacementInv) (hold : (s.rows x).state ≠ .ended)
    (hx : x ∈ s.sessions) : (s.setRow x ({ · with state := .assigning })).PlacementInv := by
  apply h.setState hold hx
  · simp
  · simp
  · simp
  · exact .inl rfl

/-! ## Tasks -/

theorem put_put (a b : Task) : (s.put t a).put t b = s.put t b := by
  simp [World.put]

theorem put_tasks_self (task : Task) : (s.put t task).tasks t = task := by
  simp [World.put]

theorem put_tasks_of_ne {u : Nat} (task : Task) (h : u ≠ t) :
    (s.put t task).tasks u = s.tasks u := by
  simp [World.put, h]

theorem Untouched.put {task : Task} (hno : ¬ task.owns y) : Untouched s (s.put t task) y := by
  refine { Untouched.refl s y with tasks := ?_ }
  intro u hu
  rcases eq_or_ne u t with rfl | hne
  · rw [put_tasks_self] at hu
    exact absurd hu hno
  · exact put_tasks_of_ne task hne

theorem ProcessOk.put {task : Task} (h : s.ProcessOk) (ht : t < s.spawned) :
    (s.put t task).ProcessOk := by
  refine h.keep (fun _ => rfl) (fun _ => rfl) rfl rfl rfl (List.Subset.refl _) ?_
  intro u hu
  have hu' : s.spawned ≤ u := hu
  rw [put_tasks_of_ne task (by omega)]
  exact h.ended u hu'

/-- The task comes to an await where it places no session. -/
theorem PlacementInv.put_free {task : Task} (h : s.PlacementInv) (ht : t < s.spawned)
    (hno : ∀ x, ¬ task.owns x) : (s.put t task).PlacementInv where
  process := h.process.put ht
  session := fun y => (Untouched.put (hno y)).sessionOk (h.session y)

/-- The task runs. -/
theorem PlacementInv.stop (h : s.PlacementInv) (ht : t < s.spawned) :
    (s.put t .done).PlacementInv :=
  h.put_free ht fun _ hy => hy

theorem Task.owns_unique {task : Task} (hx : task.owns x) (hy : task.owns y) : x = y := by
  cases task <;> simp_all [Task.owns]

/-- A task comes to hold the placement of a session that no task held. -/
theorem PlacementInv.put {task : Task} (h : s.PlacementInv) (ht : t < s.spawned)
    (hx : task.owns x) (hun : s.unowned x) (hborn : x < s.created)
    (hstate : (s.rows x).state ≠ .queued) (hok : s.TaskOk task) : (s.put t task).PlacementInv := by
  have hsession := h.session x
  have howner : ∀ u, ((s.put t task).tasks u).owns x → u = t := by
    intro u hu
    by_contra hne
    rw [put_tasks_of_ne task hne] at hu
    exact hun u hu
  refine h.of_untouched (x := x) (h.process.put ht) ?_ ⟨?_, ?_, ?_⟩
  · intro y hne
    exact Untouched.put fun hy => hne (Task.owns_unique hy hx)
  · exact { hsession.row with
      waiting := fun hq => absurd hq hstate
      unborn := fun hge => absurd hborn (Nat.not_lt.mpr hge) }
  · intro u hu
    rw [howner u hu, put_tasks_self]
    exact hok
  · intro u u' hu hu'
    rw [howner u hu, howner u' hu']

theorem PlacementInv.lt_spawned (h : s.PlacementInv) (ht : s.tasks t ≠ .done) : t < s.spawned := by
  by_contra hge
  exact ht (h.process.ended t (by omega))

/-- The task number a spawn hands out. -/
theorem PlacementInv.next (h : s.PlacementInv) :
    ({ s with spawned := s.spawned + 1 } : World).PlacementInv where
  process := h.process.keep (fun _ => rfl) (fun _ => rfl) rfl rfl rfl (List.Subset.refl _)
    fun t ht => h.process.ended t (Nat.le_of_succ_le ht)
  session := by
    intro y
    have hu : Untouched s ({ s with spawned := s.spawned + 1 } : World) y :=
      ⟨rfl, rfl, rfl, rfl, Iff.rfl, fun _ ho _ => ho, List.prefix_refl _, List.Subset.refl _,
        Nat.le_refl _, fun _ _ => rfl⟩
    exact hu.sessionOk (h.session y)

theorem PlacementInv.spawn_free {task : Task} (h : s.PlacementInv) (hno : ∀ x, ¬ task.owns x) :
    (s.spawn task).PlacementInv :=
  h.next.put_free (Nat.lt_succ_self _) hno

theorem PlacementInv.spawn {task : Task} (h : s.PlacementInv) (hx : task.owns x)
    (hun : s.unowned x) (hborn : x < s.created) (hstate : (s.rows x).state ≠ .queued)
    (hok : s.TaskOk task) : (s.spawn task).PlacementInv := by
  have hok' : ({ s with spawned := s.spawned + 1 } : World).TaskOk task :=
    hok.keep hx (.inl rfl) rfl id id fun _ hs => hs
  exact h.next.put (Nat.lt_succ_self _) hx hun hborn hstate hok'

/-- While the task runs, no other places its session. -/
theorem PlacementInv.unowned_done (h : s.PlacementInv) (ht : (s.tasks t).owns x) :
    (s.put t .done).unowned x := by
  intro u hu
  rcases eq_or_ne u t with rfl | hne
  · rw [put_tasks_self] at hu
    exact hu
  · rw [put_tasks_of_ne _ hne] at hu
    exact hne ((h.session x).one u t hu ht)

theorem PlacementInv.unowned_of_settled (h : s.PlacementInv) (hx : s.settled x) : s.unowned x := by
  intro t ht
  rcases Nat.lt_or_ge t s.spawned with hlt | hge
  · exact hx t hlt ht
  · rw [h.process.ended t hge] at ht
    exact ht

/-! ## Slots -/

/-- The slots after a step that moved only `x`, with the counters of the workers it
left and reached. -/
theorem PlacementInv.slots_move (h : s.PlacementInv) (hx : x < s.created)
    (hrows : ∀ y, y ≠ x → (s'.rows y).worker = (s.rows y).worker)
    (hcreated : s'.created = s.created)
    (hmove : ∀ v, (s'.workers v).slotsInUse + (if (s.rows x).worker = some v then 1 else 0) =
      (s.workers v).slotsInUse + if (s'.rows x).worker = some v then 1 else 0) :
    ∀ v, (s'.workers v).slotsInUse = Load.load (fun y => (s'.rows y).worker) s'.created v := by
  rw [hcreated]
  exact Load.counter_move hx hrows h.process.slots hmove

theorem drop_of_none (hx : (s.rows x).worker = none) : s.drop x = s := by
  simp [World.drop, hx]

theorem drop_of_some (hx : (s.rows x).worker = some w) :
    s.drop x = (s.setRow x ({ · with worker := none })).setWorker w
      fun worker => { worker with slotsInUse := worker.slotsInUse - 1 } := by
  simp [World.drop, hx]

@[simp] theorem drop_rows_self : (s.drop x).rows x = { s.rows x with worker := none } := by
  unfold World.drop
  split
  · simp [setWorker, World.setRow]
  · rename_i hnone
    rw [← hnone]

@[simp] theorem drop_opens : (s.drop x).opens = s.opens := by
  unfold World.drop
  split <;> rfl

@[simp] theorem drop_sessions : (s.drop x).sessions = s.sessions := by
  unfold World.drop
  split <;> rfl

@[simp] theorem drop_created : (s.drop x).created = s.created := by
  unfold World.drop
  split <;> rfl

@[simp] theorem drop_tasks : (s.drop x).tasks = s.tasks := by
  unfold World.drop
  split <;> rfl

@[simp] theorem drop_spawned : (s.drop x).spawned = s.spawned := by
  unfold World.drop
  split <;> rfl

@[simp] theorem drop_registered : (s.drop x).registered = s.registered := by
  unfold World.drop
  split <;> rfl

@[simp] theorem drop_attached : (s.drop x).attached = s.attached := by
  unfold World.drop
  split <;> rfl

theorem Untouched.drop (hne : y ≠ x) : Untouched s (s.drop x) y := by
  unfold World.drop
  split
  · exact { Untouched.setRow_of_ne (s := s) ({ · with worker := none }) hne with }
  · exact Untouched.refl s y

/-- Giving the slot back. -/
theorem PlacementInv.drop (h : s.PlacementInv) : (s.drop x).PlacementInv := by
  rcases hw : (s.rows x).worker with _ | w
  · rw [drop_of_none hw]
    exact h
  have hdrop := drop_of_some hw
  have hsession := h.session x
  have hslots : ∀ v, ((s.drop x).workers v).slotsInUse =
      Load.load (fun y => ((s.drop x).rows y).worker) (s.drop x).created v := by
    refine h.slots_move (h.on_worker hw).1 (fun y hne => (Untouched.drop hne).worker)
      drop_created ?_
    intro v
    rw [drop_rows_self, hw, hdrop]
    rcases eq_or_ne v w with rfl | hne
    · simp [setWorker, World.setRow]
    · simp [setWorker, World.setRow, hne, Ne.symm hne]
  have hprocess : (s.drop x).ProcessOk := by
    refine ⟨hslots, ?_, ?_, ?_, ?_⟩ <;> simp only [drop_opens, drop_attached, drop_registered,
      drop_tasks, drop_spawned]
    · exact h.process.rising
    · exact h.process.sent
    · exact h.process.registered
    · exact h.process.ended
  have hfresh : s.fresh x → (s.drop x).fresh x := by
    intro hf
    simpa [fresh] using hf
  have hlisted : s.listed x → (s.drop x).listed x := by
    intro hl
    simpa [listed] using hl
  refine h.of_untouched (x := x) hprocess (fun y hne => Untouched.drop hne) ⟨⟨?_, ?_, ?_, ?_,
    ?_, ?_, ?_⟩, ?_, ?_⟩
  · simpa using hsession.row.opened
  · simp
  · simp
  · simpa using fun hnot => (hsession.row.unlisted hnot).2
  · simp
  · intro hq
    rw [drop_rows_self] at hq
    have hold := hsession.row.waiting hq
    exact ⟨hfresh hold.1, by simpa [unowned] using hold.2⟩
  · simpa [unowned] using hsession.row.unborn
  · intro t ht
    rw [drop_tasks] at ht ⊢
    exact (hsession.task t ht).keep ht (.inr (by simp)) (by simp) hfresh hlisted
      (by simp only [drop_rows_self]; exact fun _ hs => hs)
  · rw [drop_tasks]
    exact hsession.one

theorem Untouched.assign (hne : y ≠ x) : Untouched s (s.assign x w) y := by
  have hrow : (s.assign x w).rows y = s.rows y := by
    simp [World.assign, World.take, World.setRow, setWorker, hne]
  exact { Untouched.refl s y with
    worker := by rw [hrow]
    state := by rw [hrow]
    generation := by rw [hrow]
    attemptOk := by rw [hrow]
    opened := by
      intro o ho hoy
      rcases List.mem_append.mp ho with hold | hnew
      · exact hold
      · obtain rfl := List.mem_singleton.mp hnew
        exact absurd hoy.symm hne
    opens := List.prefix_append _ _ }

@[simp] theorem assign_rows_self : (s.assign x w).rows x =
    { s.rows x with worker := some w, ready := false, attemptOk := false } := by
  simp [World.assign, World.take, World.setRow, setWorker]

@[simp] theorem assign_opens :
    (s.assign x w).opens = s.opens ++ [⟨x, (s.rows x).controlGeneration, w⟩] := by
  simp [World.assign, World.take, World.setRow, setWorker]

/-- A new attempt of a session that is on no worker and has a fresh generation. -/
theorem PlacementInv.assign (h : s.PlacementInv) (hborn : x < s.created) (hx : x ∈ s.sessions)
    (hstate : (s.rows x).state = .assigning) (hnone : (s.rows x).worker = none)
    (hfresh : s.fresh x) (hun : s.unowned x) (hw : w < s.attached) :
    (s.assign x w).PlacementInv := by
  have hsession := h.session x
  have hslots : ∀ v, ((s.assign x w).workers v).slotsInUse =
      Load.load (fun y => ((s.assign x w).rows y).worker) (s.assign x w).created v := by
    refine h.slots_move hborn (fun y hne => (Untouched.assign hne).worker) rfl ?_
    intro v
    rw [assign_rows_self, hnone]
    rcases eq_or_ne v w with rfl | hne
    · simp [World.assign, World.take, World.setRow, setWorker]
    · simp [World.assign, World.take, World.setRow, setWorker, hne, Ne.symm hne]
  have hprocess : (s.assign x w).ProcessOk := by
    refine ⟨hslots, ?_, ?_, h.process.registered, h.process.ended⟩
    · rw [assign_opens, List.pairwise_append]
      refine ⟨h.process.rising, List.pairwise_singleton _ _, ?_⟩
      intro o ho o' ho' hsame
      obtain rfl := List.mem_singleton.mp ho'
      exact hfresh o ho hsame
    · intro o ho
      rw [assign_opens] at ho
      rcases List.mem_append.mp ho with hold | hnew
      · exact h.process.sent o hold
      · obtain rfl := List.mem_singleton.mp hnew
        exact hw
  refine h.of_untouched (x := x) hprocess (fun y hne => Untouched.assign hne) ⟨⟨?_, ?_, ?_, ?_,
    ?_, ?_, ?_⟩, ?_, hsession.one⟩
  · intro o ho hox
    rw [assign_opens] at ho
    rw [assign_rows_self]
    rcases List.mem_append.mp ho with hold | hnew
    · exact hsession.row.opened o hold hox
    · obtain rfl := List.mem_singleton.mp hnew
      exact Nat.le_refl _
  · simp
  · simp [hstate]
  · intro hnot
    exact absurd hx hnot
  · simp [hstate]
  · simp [hstate]
  · intro hge
    exact absurd hborn (Nat.not_lt.mpr hge)
  · intro t ht
    exact absurd ht (hun t)

/-! ## Generations -/

@[simp] theorem bump_rows_self : (s.bump x).rows x =
    { s.rows x with controlGeneration := (s.rows x).controlGeneration + 1 } := by
  simp [World.bump, World.setRow]

theorem bump_fresh (h : (s.RowOk x)) : (s.bump x).fresh x := by
  intro o ho hox
  have hle := h.opened o ho hox
  rw [bump_rows_self]
  show o.generation < (s.rows x).controlGeneration + 1
  omega

/-- A new generation for a session that is on no worker. -/
theorem PlacementInv.bump (h : s.PlacementInv) (hborn : x < s.created)
    (hnone : (s.rows x).worker = none) (hun : s.unowned x) : (s.bump x).PlacementInv := by
  have hsession := h.session x
  refine h.of_untouched (x := x) ?_ (fun y hne => Untouched.setRow_of_ne _ hne)
    ⟨⟨?_, ?_, ?_, ?_, ?_, ?_, ?_⟩, ?_, hsession.one⟩
  · refine h.process.keep (fun _ => rfl) ?_ rfl rfl rfl (List.Subset.refl _) h.process.ended
    intro y
    rcases eq_or_ne y x with rfl | hne
    · simp
    · exact (Untouched.setRow_of_ne _ hne).worker
  · intro o ho hox
    exact Nat.le_of_lt (bump_fresh hsession.row o ho hox)
  · simp [hnone]
  · simp [hnone]
  · rw [bump_rows_self]
    exact hsession.row.unlisted
  · rw [bump_rows_self]
    exact hsession.row.off
  · intro _
    exact ⟨bump_fresh hsession.row, hun⟩
  · intro hge
    exact absurd hborn (Nat.not_lt.mpr hge)
  · intro t ht
    exact absurd ht (hun t)

/-! ## Leaving the dictionary -/

/-- The session is out of the dictionary, on no worker, and has ended or awaits
nothing any more. -/
theorem PlacementInv.unlist {new : SessionState} (h : s.PlacementInv)
    (hnone : (s.rows x).worker = none)
    (hnew : new = .ended ∨ (new = .assigning ∧ (s.rows x).state ≠ .ended ∧ s.unowned x)) :
    ((s.unregister x).setRow x ({ · with state := new })).PlacementInv := by
  have hsession := h.session x
  have hrow : ((s.unregister x).setRow x ({ · with state := new })).rows x = { s.rows x with state := new } := setRow_rows_self _
  have hquiet : new ≠ .queued := by
    rintro rfl
    simp at hnew
  have hfresh : s.fresh x → ((s.unregister x).setRow x ({ · with state := new })).fresh x := by
    intro hf o ho hox
    rw [hrow]
    exact hf o ho hox
  refine h.of_untouched (x := x) ?_ ?_ ⟨⟨?_, ?_, ?_, ?_, ?_, ?_, ?_⟩, ?_, hsession.one⟩
  · refine h.process.keep (fun _ => rfl) ?_ rfl rfl rfl (List.Subset.refl _) h.process.ended
    intro y
    rcases eq_or_ne y x with rfl | hne
    · rw [hrow]
    · rw [setRow_rows_of_ne _ hne]
      rfl
  · intro y hne
    exact { Untouched.setRow_of_ne (s := s) ({ · with state := new }) hne with
      sessions := by
        show y ∈ s.sessions.filter (· ≠ x) ↔ y ∈ s.sessions
        simp [hne] }
  · rw [hrow]
    exact hsession.row.opened
  · rw [hrow]
    exact hsession.row.held
  · rw [hrow]
    intro w hw
    simp [hnone] at hw
  · rw [hrow]
    intro _
    refine ⟨hnone, ?_⟩
    rcases hnew with hnew | ⟨hnew, _⟩
    · exact .inr hnew
    · exact .inl hnew
  · rw [hrow]
    exact fun _ => hnone
  · rw [hrow]
    intro hq
    exact absurd hq hquiet
  · intro hge
    rw [hrow]
    have hold := hsession.row.unborn hge
    rcases hnew with hnew | ⟨_, hlive, _⟩
    · exact ⟨hnew, hold.2⟩
    · exact absurd hold.1 hlive
  · intro t ht
    rcases hnew with hnew | ⟨_, _, hun⟩
    · refine (hsession.task t ht).keep ht (.inl (by rw [hrow])) (by rw [hrow]) hfresh ?_ ?_
      · intro _
        refine .inr ?_
        rw [hrow]
        exact hnew
      · intro _ _
        rw [hrow]
        exact .inr hnew
    · exact absurd ht (hun t)

theorem pop_eq : s.pop x = (s.unregister x).setRow x ({ · with state := .ended }) := by
  unfold World.pop transition! transition
  split
  · rfl
  · rename_i hnot
    have hstate : (s.rows x).state = .ended := by
      have hrow : (s.unregister x).rows x = s.rows x := rfl
      rw [hrow] at hnot
      cases hs : (s.rows x).state <;> simp_all
    simp [unregister, World.setRow, ← hstate]

theorem PlacementInv.pop (h : s.PlacementInv) (hnone : (s.rows x).worker = none) :
    (s.pop x).PlacementInv := by
  rw [pop_eq]
  exact h.unlist hnone (.inl rfl)

/-! ## Events -/

theorem Task.wake_owns {task : Task} : (task.wake x).owns y ↔ task.owns y := by
  unfold Task.wake
  split
  · split
    · split <;> rfl
    · rfl
  · rfl

theorem Task.wake_of_ne {task : Task} (hy : task.owns y) (hne : y ≠ x) : task.wake x = task := by
  unfold Task.wake
  split
  · rename_i z _
    obtain rfl : z = y := hy
    simp [hne]
    split <;> rfl
  · rfl

theorem TaskOk.wake {task : Task} (h : s.TaskOk task) : s.TaskOk (task.wake x) := by
  unfold Task.wake
  split
  · split
    · split
      · exact ⟨h.1, h.2.1, by simp, h.2.2.2⟩
      · exact h
    · exact h
  · exact h

/-- The event of a session wakes only its own placement. -/
theorem PlacementInv.setReady (h : s.PlacementInv) : (s.setReady x).PlacementInv := by
  have hrow := h.setRow (x := x) (f := ({ · with ready := true })) rfl rfl rfl rfl
  have hsession := hrow.session x
  refine hrow.of_untouched (x := x) ?_ ?_ ⟨?_, ?_, ?_⟩
  · refine hrow.process.keep (fun _ => rfl) (fun _ => rfl) rfl rfl rfl (List.Subset.refl _) ?_
    intro t ht
    show (s.tasks t).wake x = .done
    rw [h.process.ended t ht]
    rfl
  · intro y hne
    refine { Untouched.refl (s.setRow x ({ · with ready := true })) y with tasks := ?_ }
    intro t ht
    exact Task.wake_of_ne (Task.wake_owns.mp ht) hne
  · exact { hsession.row with
      waiting := fun hq => ⟨(hsession.row.waiting hq).1,
        fun t ht => (hsession.row.waiting hq).2 t (Task.wake_owns.mp ht)⟩
      unborn := fun hge => ⟨(hsession.row.unborn hge).1, (hsession.row.unborn hge).2.1,
        fun t ht => (hsession.row.unborn hge).2.2 t (Task.wake_owns.mp ht)⟩ }
  · intro t ht
    have htask := hsession.task t (Task.wake_owns.mp ht)
    exact htask.wake
  · intro t t' ht ht'
    exact hsession.one t t' (Task.wake_owns.mp ht) (Task.wake_owns.mp ht')

end World

end Potocolom.Realtime
