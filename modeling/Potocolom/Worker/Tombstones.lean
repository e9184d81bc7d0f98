import Potocolom.Worker.Generations

/-! # Fencing over a connection's controls

What a step moves, and from it what a whole run keeps: a runner that is out stays out, a
generation that was passed opens nothing. -/

namespace Potocolom.Worker

/-! ## What a step moves -/

namespace Manager

/-- A step while the connection stands: runners are only added, an active one was active
or is new, no name changes and no highest generation falls. -/
structure Moves (s t : Manager) : Prop where
  created : s.created ≤ t.created
  active : ∀ {r}, t.Active r → s.Active r ∨ s.created ≤ r
  highest : ∀ x, s.highestOf x ≤ t.highestOf x
  session : ∀ {r}, r < s.created → (t.rows r).session = (s.rows r).session
  generation : ∀ {r}, r < s.created → (t.rows r).generation = (s.rows r).generation

theorem Moves.trans {s t u : Manager} (h₁ : Moves s t) (h₂ : Moves t u) : Moves s u where
  created := Nat.le_trans h₁.created h₂.created
  active ha := by
    rcases h₂.active ha with ha | hge
    · exact h₁.active ha
    · exact .inr (Nat.le_trans h₁.created hge)
  highest x := Nat.le_trans (h₁.highest x) (h₂.highest x)
  session hr := (h₂.session (Nat.lt_of_lt_of_le hr h₁.created)).trans (h₁.session hr)
  generation hr := (h₂.generation (Nat.lt_of_lt_of_le hr h₁.created)).trans (h₁.generation hr)

theorem SameFences.moves {s t : Manager} (h : SameFences s t) : Moves s t where
  created := Nat.le_of_eq h.created.symm
  active ha := .inl ((h.active _).mp ha)
  highest x := by
    show (s.highest x).getD 0 ≤ (t.highest x).getD 0
    exact Nat.le_of_eq (by rw [h.highest])
  session _ := h.session _
  generation _ := h.generation _

theorem FenceInv.moves_popRetire {s : Manager} (h : s.FenceInv) {x r : Nat}
    (hx : s.runners x = some r) : Moves s (s.popRetire x r) where
  created := Nat.le_refl _
  active ha := .inl ((h.active_popRetire hx _).mp ha).1
  highest _ := Nat.le_refl _
  session _ := popRetire_session s x r _
  generation _ := popRetire_generation s x r _

theorem moves_raise {s : Manager} {x g : Nat} (hg : s.highestOf x ≤ g) :
    Moves s { s with highest := Function.update s.highest x (some g) } where
  created := Nat.le_refl _
  active ha := .inl ha
  highest y := by
    show s.highestOf y ≤ (Function.update s.highest x (some g) y).getD 0
    by_cases heq : y = x
    · rw [heq, Function.update_self]
      exact hg
    · rw [Function.update_of_ne heq]
      exact Nat.le_refl _
  session _ := rfl
  generation _ := rfl

theorem moves_create (s : Manager) (row : SessionRunner) : Moves s (s.create row) where
  created := Nat.le_succ _
  active := by
    rintro r ⟨y, hy⟩
    by_cases heq : y = row.session
    · rw [heq] at hy
      have hself : (s.create row).runners row.session = some s.created :=
        Function.update_self _ _ _
      rw [hself] at hy
      right
      exact Nat.le_of_eq (Option.some.inj hy)
    · have hold : (s.create row).runners y = s.runners y := Function.update_of_ne heq _ _
      rw [hold] at hy
      exact .inl ⟨y, hy⟩
  highest _ := Nat.le_refl _
  session hr := by rw [create_rows_of_lt hr]
  generation hr := by rw [create_rows_of_lt hr]

theorem FenceInv.moves_supersede {s : Manager} (h : s.FenceInv) {x g : Nat}
    (hg : s.highestOf x ≤ g) : Moves s (s.supersede x g) := by
  rcases hx : s.runners x with _ | r
  · rw [supersede_none g hx]
    exact moves_raise hg
  · rw [supersede_runner g hx]
    exact (h.moves_popRetire hx).trans (moves_raise hg)

theorem FenceInv.moves_open {s : Manager} (h : s.FenceInv) (control : Open) (drawn : Int) :
    Moves s (s.openSession control drawn) := by
  unfold Manager.openSession
  split
  · exact (SameFences.refl s).moves
  · next g _ =>
    split
    · exact (SameFences.refl s).moves
    · split
      · split
        · exact (resendReady_sameFences s _).moves
        · exact (SameFences.refl s).moves
      · next hlow hne =>
        have hle : s.highestOf control.session ≤ g := by omega
        dsimp only
        split
        · exact h.moves_supersede hle
        · exact (h.moves_supersede hle).trans (moves_create _ _)

theorem FenceInv.moves_close {s : Manager} (h : s.FenceInv) (control : Close) :
    Moves s (s.closeSession control) := by
  rcases hx : s.runners control.session with _ | r
  · rcases hg : controlGeneration control.generation with _ | g
    · rw [closeSession_unfenced hx hg]
      exact (SameFences.refl s).moves
    · rw [closeSession_none hx hg]
      exact moves_raise (Nat.le_max_left _ _)
  · by_cases hmatch : (s.rows r).matchesGeneration (controlGeneration control.generation)
    · rw [closeSession_matching hx hmatch]
      have hmoves := h.moves_popRetire hx
      exact ⟨hmoves.created, hmoves.active, hmoves.highest, hmoves.session, hmoves.generation⟩
    · rw [closeSession_other hx hmatch]
      exact (SameFences.refl s).moves

end Manager

open Manager

theorem step_moves {s t : Manager} {l : Action} (h : s.FenceInv) (hst : step s l = some t)
    (hl : l ≠ .shutdown) : Moves s t := by
  cases l <;> simp only [step] at hst
  case openSession control drawn =>
    split at hst
    · cases hst
    · cases hst
      exact h.moves_open control drawn
  case updateSession control =>
    split at hst
    · cases hst
    · cases hst
      exact (updateSession_sameFences s control).moves
  case closeSession control =>
    split at hst
    · cases hst
    · cases hst
      exact h.moves_close control
  case submit x revision payload =>
    split at hst
    · cases hst
    · cases hst
      exact (submit_sameFences s x revision payload).moves
  case runs r event =>
    split at hst
    · rw [Option.map_eq_some_iff] at hst
      rcases hst with ⟨next, hnext, rfl⟩
      exact (runs_sameFences hnext).moves
    · cases hst
  case reports r durationMs category score =>
    split at hst
    · cases hst
      have hsame := (SameFences.refl s).moves
      exact ⟨hsame.created, hsame.active, hsame.highest, hsame.session, hsame.generation⟩
    · cases hst
  case forgets r =>
    split at hst
    · cases hst
      have hsame := (SameFences.refl s).moves
      exact ⟨hsame.created, hsame.active, hsame.highest, hsame.session, hsame.generation⟩
    · cases hst
  case modelsChanged byId =>
    cases hst
    exact (modelsChanged_sameFences s byId).moves
  case shutdown => exact absurd rfl hl

/-- After a shutdown no control is handled any more. -/
theorem step_stopped {s t : Manager} {l : Action} (hst : step s l = some t)
    (hstop : t.stopped = false) : s.stopped = false ∧ l ≠ .shutdown := by
  cases l <;> simp only [step] at hst
  case shutdown =>
    split at hst
    · cases hst
    · cases hst
      cases hstop
  case runs r event =>
    split at hst
    · rw [Option.map_eq_some_iff] at hst
      rcases hst with ⟨next, -, rfl⟩
      exact ⟨hstop, by simp⟩
    · cases hst
  case reports =>
    split at hst
    · cases hst
      exact ⟨hstop, by simp⟩
    · cases hst
  case forgets =>
    split at hst
    · cases hst
      exact ⟨hstop, by simp⟩
    · cases hst
  case modelsChanged =>
    cases hst
    exact ⟨hstop, by simp⟩
  all_goals
    split at hst
    · cases hst
    · next h => exact ⟨by simpa using h, by simp⟩

/-- Whatever the step, a runner that is out is not active after it. -/
theorem step_out {s t : Manager} {l : Action} (h : s.FenceInv) (hst : step s l = some t)
    {r : Nat} (hr : r < s.created) (hact : ¬ s.Active r) :
    r < t.created ∧ ¬ t.Active r := by
  by_cases hl : l = .shutdown
  · rw [hl, step] at hst
    split at hst
    · cases hst
    · cases hst
      refine ⟨hr, ?_⟩
      rintro ⟨x, hx⟩
      cases hx
  · have hmoves := step_moves h hst hl
    refine ⟨Nat.lt_of_lt_of_le hr hmoves.created, ?_⟩
    intro ha
    rcases hmoves.active ha with hold | hnew
    · exact hact hold
    · omega

theorem path_out {s t : Manager} (h : s.FenceInv) (hp : machine.Path Machine.anyStep s t)
    {r : Nat} (hr : r < s.created) (hact : ¬ s.Active r) :
    t.FenceInv ∧ r < t.created ∧ ¬ t.Active r := by
  induction hp with
  | refl => exact ⟨h, hr, hact⟩
  | tail _ _ hst ih => exact ⟨step_fenceInv ih.1 hst, step_out ih.1 hst ih.2.1 ih.2.2⟩

/-- The highest generation of a session does not fall while the connection stands. -/
theorem path_highest {s t : Manager} (h : s.FenceInv) (hp : machine.Path Machine.anyStep s t)
    (hstop : t.stopped = false) (x : Nat) : t.FenceInv ∧ s.highestOf x ≤ t.highestOf x := by
  induction hp with
  | refl => exact ⟨h, Nat.le_refl _⟩
  | tail _ _ hst ih =>
    have hbefore := step_stopped hst hstop
    have ih := ih hbefore.1
    exact ⟨step_fenceInv ih.1 hst,
      Nat.le_trans ih.2 ((step_moves ih.1 hst hbefore.2).highest x)⟩

namespace Manager

/-! ## What a control changes -/

/-- The control's session and generation are the runner's. -/
def Names (s : Manager) (x : Nat) (generation : RawGeneration) (r : Nat) : Prop :=
  (s.rows r).session = x ∧ controlGeneration generation = some (s.rows r).generation

theorem FenceInv.names {s : Manager} (h : s.FenceInv) {x r : Nat} {generation : RawGeneration}
    (hx : s.runners x = some r)
    (hmatch : (s.rows r).matchesGeneration (controlGeneration generation)) :
    s.Names x generation r :=
  ⟨(h.owned hx).2, hmatch⟩

theorem FenceInv.update_only {s : Manager} (h : s.FenceInv) (control : Update) {r : Nat}
    (hr : ¬ s.Names control.session control.generation r) :
    (s.updateSession control).rows r = s.rows r := by
  unfold updateSession
  split
  · rfl
  · next r' hx =>
    split
    · next hmatch =>
      have hne : r ≠ r' := by
        rintro rfl
        exact hr (h.names hx hmatch)
      exact Function.update_of_ne hne _ _
    · rfl

theorem FenceInv.close_only {s : Manager} (h : s.FenceInv) (control : Close) {r : Nat}
    (hr : ¬ s.Names control.session control.generation r) :
    (s.closeSession control).rows r = s.rows r ∧
      ((s.closeSession control).Active r ↔ s.Active r) ∧
      (r ∈ (s.closeSession control).retired ↔ r ∈ s.retired) := by
  rcases hx : s.runners control.session with _ | r'
  · rcases hg : controlGeneration control.generation with _ | g
    · rw [closeSession_unfenced hx hg]
      exact ⟨rfl, Iff.rfl, Iff.rfl⟩
    · rw [closeSession_none hx hg]
      exact ⟨rfl, Iff.rfl, Iff.rfl⟩
  · by_cases hmatch : (s.rows r').matchesGeneration (controlGeneration control.generation)
    · have hne : r ≠ r' := by
        rintro rfl
        exact hr (h.names hx hmatch)
      rw [closeSession_matching hx hmatch]
      refine ⟨?_, ?_, ?_⟩
      · exact (popRetire_rows _ _ _).trans (if_neg hne)
      · have hactive := h.active_popRetire hx r
        exact hactive.trans ⟨And.left, fun ha => ⟨ha, hne⟩⟩
      · show r ∈ s.retired.insert r' ↔ r ∈ s.retired
        rw [List.mem_insert_iff]
        exact ⟨fun hm => hm.resolve_left hne, .inr⟩
    · rw [closeSession_other hx hmatch]
      exact ⟨rfl, Iff.rfl, Iff.rfl⟩

/-- A runner that is popped is in the retired set. -/
theorem FenceInv.popRetire_retires {s : Manager} (h : s.FenceInv) {x r r' : Nat}
    (hx : s.runners x = some r) (hr' : s.Active r') :
    (s.popRetire x r).Active r' ∨ r' ∈ (s.popRetire x r).retired := by
  by_cases heq : r' = r
  · right
    rw [heq]
    exact List.mem_insert_self
  · left
    exact (h.active_popRetire hx r').mpr ⟨hr', heq⟩

theorem FenceInv.supersede_retires {s : Manager} (h : s.FenceInv) (x g : Nat) {r : Nat}
    (hr : s.Active r) : (s.supersede x g).Active r ∨ r ∈ (s.supersede x g).retired := by
  rcases hx : s.runners x with _ | r'
  · rw [supersede_none g hx]
    exact .inl hr
  · rw [supersede_runner g hx]
    exact h.popRetire_retires hx hr

theorem create_active {s : Manager} {row : SessionRunner} (hx : s.runners row.session = none)
    {r : Nat} (hr : s.Active r) : (s.create row).Active r := by
  rcases hr with ⟨y, hy⟩
  have hne : y ≠ row.session := by
    rintro rfl
    rw [hx] at hy
    cases hy
  exact ⟨y, (Function.update_of_ne hne _ _).trans hy⟩

theorem FenceInv.open_retires {s : Manager} (h : s.FenceInv) (control : Open) (drawn : Int)
    {r : Nat} (hr : s.Active r) :
    (s.openSession control drawn).Active r ∨ r ∈ (s.openSession control drawn).retired := by
  unfold Manager.openSession
  split
  · exact .inl hr
  · next g _ =>
    split
    · exact .inl hr
    · split
      · split
        · exact .inl (((resendReady_sameFences s _).active r).mpr hr)
        · exact .inl hr
      · next hlow hne =>
        have hsup := h.supersede (x := control.session) (g := g) (by omega)
        dsimp only
        split
        · exact h.supersede_retires _ _ hr
        · rcases h.supersede_retires control.session g hr with ha | hm
          · exact .inl (create_active hsup.runners ha)
          · exact .inr hm

theorem FenceInv.close_retires {s : Manager} (h : s.FenceInv) (control : Close) {r : Nat}
    (hr : s.Active r) :
    (s.closeSession control).Active r ∨ r ∈ (s.closeSession control).retired := by
  rcases hx : s.runners control.session with _ | r'
  · rcases hg : controlGeneration control.generation with _ | g
    · rw [closeSession_unfenced hx hg]
      exact .inl hr
    · rw [closeSession_none hx hg]
      exact .inl hr
  · by_cases hmatch : (s.rows r').matchesGeneration (controlGeneration control.generation)
    · rw [closeSession_matching hx hmatch]
      exact h.popRetire_retires hx hr
    · rw [closeSession_other hx hmatch]
      exact .inl hr

end Manager

/-- Every step but a shutdown leaves an active runner active or retires it. -/
theorem step_retires {s t : Manager} {l : Action} (h : s.FenceInv) (hst : step s l = some t)
    (hl : l ≠ .shutdown) {r : Nat} (hr : s.Active r) : t.Active r ∨ r ∈ t.retired := by
  cases l <;> simp only [step] at hst
  case shutdown => exact absurd rfl hl
  case openSession control drawn =>
    split at hst
    · cases hst
    · cases hst
      exact h.open_retires control drawn hr
  case closeSession control =>
    split at hst
    · cases hst
    · cases hst
      exact h.close_retires control hr
  case updateSession control =>
    split at hst
    · cases hst
    · cases hst
      exact .inl (((updateSession_sameFences s control).active r).mpr hr)
  case submit x revision payload =>
    split at hst
    · cases hst
    · cases hst
      exact .inl (((submit_sameFences s x revision payload).active r).mpr hr)
  case runs r' event =>
    split at hst
    · rw [Option.map_eq_some_iff] at hst
      rcases hst with ⟨next, hnext, rfl⟩
      exact .inl (((runs_sameFences hnext).active r).mpr hr)
    · cases hst
  case modelsChanged byId =>
    cases hst
    exact .inl hr
  all_goals
    split at hst
    · cases hst
      exact .inl hr
    · cases hst

/-! ## Worker-side fencing -/

/-- The maps and the retired set in one state. -/
structure Fenced (s : Manager) : Prop where
  /-- A session has at most one active runner. -/
  one : ∀ {r r'}, s.Active r → s.Active r' → (s.rows r).session = (s.rows r').session → r = r'
  /-- Its generation is the highest seen. -/
  newest : ∀ {r}, s.Active r → s.highest (s.rows r).session = some (s.rows r).generation
  /-- The generations of the runners created for a session increase. -/
  increasing : ∀ {r r'}, r < r' → r' < s.created →
    (s.rows r).session = (s.rows r').session → (s.rows r).generation < (s.rows r').generation
  /-- An active runner was not cancelled and is not in the retired set. -/
  active : ∀ {r}, s.Active r → (s.rows r).cancels = 0 ∧ r ∉ s.retired
  /-- Every other was cancelled once, and is in the retired set until its task is done. -/
  out : ∀ {r}, r < s.created → ¬ s.Active r →
    (s.rows r).cancels = 1 ∧ (s.stopped = false → r ∈ s.retired ∨ (s.rows r).phase = .done)
  /-- `session_closed` is sent at most once per session and generation. -/
  once : (s.sent.filterMap Sent.closes).Nodup

/-- What one step does to the runners. -/
structure FencedStep (s : Manager) (l : Action) (t : Manager) : Prop where
  /-- A superseded or closed runner is moved to the retired set and cancelled. -/
  retires : l ≠ .shutdown → ∀ {r}, s.Active r → ¬ t.Active r →
    r ∈ t.retired ∧ (t.rows r).cancels = (s.rows r).cancels + 1
  /-- An update changes nothing but the runner it names. -/
  update : ∀ control, l = .updateSession control →
    t = { s with rows := t.rows } ∧
      ∀ r, ¬ s.Names control.session control.generation r → t.rows r = s.rows r
  /-- A close changes no runner but the one it names. -/
  close : ∀ control, l = .closeSession control →
    ∀ r, ¬ s.Names control.session control.generation r →
      t.rows r = s.rows r ∧ (t.Active r ↔ s.Active r) ∧ (r ∈ t.retired ↔ r ∈ s.retired)

theorem Manager.FenceInv.fenced {s : Manager} (h : s.FenceInv) : Fenced s where
  one hr hr' heq := h.active_unique hr hr' heq
  newest := by
    rintro r ⟨x, hx⟩
    rw [(h.owned hx).2]
    exact h.newest hx
  increasing := h.ordered
  active := by
    intro r hr
    refine ⟨?_, fun hm => (h.retired hm).2 hr⟩
    rcases hr with ⟨x, hx⟩
    rw [h.counted (h.owned hx).1, h.running ⟨x, hx⟩]
    rfl
  out := by
    intro r hr hact
    refine ⟨?_, fun hstop => h.aside hstop hr hact⟩
    rw [h.counted hr, h.out hr hact]
    rfl
  once := (List.nodup_append.mp h.once).1

theorem Manager.FenceInv.fencedStep {s t : Manager} {l : Action} (h : s.FenceInv)
    (hst : step s l = some t) : FencedStep s l t := by
  have ht := step_fenceInv h hst
  constructor
  case retires =>
    intro hl r hr hact
    have hlt : r < s.created := by
      rcases hr with ⟨x, hx⟩
      exact (h.owned hx).1
    have hmoves := step_moves h hst hl
    refine ⟨(step_retires h hst hl hr).resolve_left hact, ?_⟩
    rw [(h.fenced.active hr).1,
      (ht.fenced.out (Nat.lt_of_lt_of_le hlt hmoves.created) hact).1]
  case update =>
    rintro control rfl
    rw [step] at hst
    split at hst
    · cases hst
    · cases hst
      refine ⟨?_, fun r hr => h.update_only control hr⟩
      unfold Manager.updateSession
      split
      · rfl
      · split <;> rfl
  case close =>
    rintro control rfl
    rw [step] at hst
    split at hst
    · cases hst
    · cases hst
      exact fun r hr => h.close_only control hr

/-- A handled open is seen: the highest generation is at least its own. -/
theorem open_seen {s t : Manager} {control : Open} {drawn : Int} {g : Nat}
    (h : s.FenceInv) (hg : controlGeneration control.generation = some g)
    (hst : step s (.openSession control drawn) = some t) : g ≤ t.highestOf control.session := by
  rw [step] at hst
  split at hst
  · cases hst
  · cases hst
    have hmoves := (h.moves_open control drawn).highest control.session
    unfold Manager.openSession at hmoves ⊢
    rw [hg] at hmoves ⊢
    dsimp only at hmoves ⊢
    split
    · omega
    · next hlow =>
      rw [if_neg hlow] at hmoves
      split
      · next heq =>
        rw [if_pos heq] at hmoves
        rw [heq]
        exact hmoves
      · next hne =>
        have hsup := h.supersede (x := control.session) (g := g) (by omega)
        have hhigh : (s.supersede control.session g).highestOf control.session = g := by
          rw [Manager.highestOf, hsup.highest]
          rfl
        split
        · exact Nat.le_of_eq hhigh.symm
        · exact Nat.le_of_eq hhigh.symm

/-- So is a close, unless the runner it finds is of an earlier generation. -/
theorem close_seen {s t : Manager} {control : Close} {g : Nat} (h : s.FenceInv)
    (hg : controlGeneration control.generation = some g)
    (hrun : ∀ r, s.Active r → (s.rows r).session = control.session →
      g ≤ (s.rows r).generation)
    (hst : step s (.closeSession control) = some t) : g ≤ t.highestOf control.session := by
  rw [step] at hst
  split at hst
  · cases hst
  · cases hst
    rcases hx : s.runners control.session with _ | r
    · rw [closeSession_none hx hg]
      show g ≤ (Function.update s.highest control.session _ control.session).getD 0
      rw [Function.update_self]
      exact Nat.le_max_right _ _
    · have hle := hrun r ⟨_, hx⟩ (h.owned hx).2
      have hhigh : s.highestOf control.session = (s.rows r).generation := by
        rw [Manager.highestOf, h.newest hx]
        rfl
      exact Nat.le_trans (hhigh ▸ hle) ((h.moves_close control).highest control.session)

/-- Generation fencing on the worker, over every order of controls. -/
theorem runners_fenced {s : Manager} (hs : machine.Reach Machine.anyStep s) :
    Fenced s ∧ (∀ l t, step s l = some t → FencedStep s l t) ∧
      (∀ control drawn g t u, controlGeneration control.generation = some g →
        step s (.openSession control drawn) = some t → machine.Path Machine.anyStep t u →
        u.stopped = false → g ≤ u.highestOf control.session) ∧
      ∀ t, machine.Path Machine.anyStep s t → ∀ r < s.created, ¬ s.Active r →
        ¬ t.Active r ∧ (t.rows r).cancels = 1 := by
  have h := reach_fenceInv hs
  refine ⟨h.fenced, fun l t hst => h.fencedStep hst, ?_, ?_⟩
  · intro control drawn g t u hg hst hp hstop
    have hseen := open_seen h hg hst
    exact Nat.le_trans hseen (path_highest (step_fenceInv h hst) hp hstop _).2
  · intro t hp r hr hact
    have hout := path_out h hp hr hact
    exact ⟨hout.2.2, (hout.1.fenced.out hout.2.1 hout.2.2).1⟩

/-- A model table and controls of one session. -/
def sampleTable : List (String × Manifest) := [("m", ⟨"m", [("steps", some (.int 2))]⟩)]

def sampleOpen (generation : Nat) : Action :=
  .openSession ⟨7, .int generation, "m", none⟩ 5

def sampleClose (generation : Nat) : Action := .closeSession ⟨7, .int generation⟩

/-- An open that supersedes another, a stale open, a close and a delayed open. -/
def sampleControls : List Action :=
  [sampleOpen 1, sampleOpen 2, sampleOpen 1, sampleClose 2,
    .reports 1 40 "other" none, sampleOpen 2]

theorem sample_reach (controls : List Action) {s : Manager}
    (h : machine.run (fresh sampleTable) controls = some s) :
    machine.Reach Machine.anyStep s :=
  ⟨_, ⟨_, rfl⟩, Machine.path_of_run_any h⟩

theorem runners_fenced_sample :
    ∃ s, machine.run (fresh sampleTable) sampleControls = some s ∧ s.created = 2 ∧
      (s.rows 1).params = [("steps", .int 2), ("seed", .int 5)] ∧ Fenced s := by
  refine ⟨_, rfl, rfl, rfl, ?_⟩
  exact (runners_fenced (sample_reach sampleControls rfl)).1

/-! ## Tombstones -/

/-- Once a close was handled that did not find a runner of an earlier generation, an open
of its generation or an earlier one creates no runner. -/
theorem tombstone_holds {s t u v : Manager} (control : Close) (later : Open) (drawn : Int)
    (hs : machine.Reach Machine.anyStep s) {g : Nat} (hg : controlGeneration control.generation = some g)
    (hrun : ∀ r, s.Active r → (s.rows r).session = control.session →
      g ≤ (s.rows r).generation)
    (hclose : step s (.closeSession control) = some t)
    (hp : machine.Path Machine.anyStep t u) {g' : Nat}
    (hg' : controlGeneration later.generation = some g') (hle : g' ≤ g)
    (hsame : later.session = control.session)
    (hopen : step u (.openSession later drawn) = some v) : v.created = u.created := by
  have h := reach_fenceInv hs
  have hseen := close_seen h hg hrun hclose
  have hlive : u.stopped = false := by
    rw [step] at hopen
    split at hopen
    · cases hopen
    · next hstop => simpa using hstop
  have hpast := (path_highest (step_fenceInv h hclose) hp hlive control.session).2
  rw [← hsame] at hseen hpast
  rw [step, if_neg (by simp [hlive])] at hopen
  cases hopen
  unfold Manager.openSession
  rw [hg']
  dsimp only
  split
  · rfl
  · -- the generation is the highest: the open is repeated
    rw [if_pos (by omega)]
    split
    · unfold Manager.resendReady
      split <;> rfl
    · rfl

theorem tombstone_holds_sample :
    ∃ s t u v, machine.run (fresh sampleTable) [sampleOpen 1] = some s ∧
      step s (sampleClose 1) = some t ∧ step t (sampleOpen 3) = some u ∧
      step u (sampleOpen 1) = some v ∧ v.created = u.created := by
  have hs := sample_reach [sampleOpen 1] rfl
  refine ⟨_, _, _, _, rfl, rfl, rfl, rfl, ?_⟩
  apply tombstone_holds ⟨7, .int 1⟩ ⟨7, .int 1, "m", none⟩ 5 hs rfl _ rfl
    (.tail .refl trivial (l := sampleOpen 3) rfl) rfl (Nat.le_refl 1) rfl rfl
  rintro r ⟨x, hx⟩ -
  -- the only runner was created for generation 1
  have hr := ((reach_fenceInv hs).owned hx).1
  have hzero : r = 0 := Nat.lt_one_iff.mp hr
  rw [hzero]
  exact Nat.le_refl 1

/-- A close above the active runner's generation is ignored, and leaves no tombstone. -/
theorem close_ahead_ignored :
    ∃ s t v, machine.Reach Machine.anyStep s ∧ step s (sampleClose 2) = some t ∧
      step t (sampleOpen 2) = some v ∧ v.created = t.created + 1 :=
  ⟨_, _, _, sample_reach [sampleOpen 1] rfl, rfl, rfl, rfl⟩

end Potocolom.Worker
