import Potocolom.Realtime.Turns

/-! # Runs in which placements are not disturbed

A session is taken for a reassignment out of `live`, and for a resume out of `idle`.
`undisturbed` says of a step that no placement of the sessions it takes is unfinished.
Every run of such steps keeps the placement invariant. -/

namespace Potocolom.Realtime

namespace World

variable {s s' : World} {x y t w : Nat}

/-! ## The condition -/

/-- The sessions a step schedules a reassignment or a resume of. -/
def taken (s : World) : Action → List Nat
  | .fleetReads w =>
    match (s.workers w).inbox with
    | m :: _ =>
      if m.answer = .sessionRefused ∧ s.isLive m.session ∧ (s.rows m.session).worker = some w ∧
          m.generation = (s.rows m.session).controlGeneration ∧
          (s.rows m.session).state = .live then [m.session]
      else []
    | [] => []
  | .heartbeat w measured =>
    let (worker, raised) := raiseCosts (s.workers w) measured
    if raised then (s.setWorker w fun _ => worker).overCapacitySessions w else []
  | .finalize w => (s.orphaned w).filter fun x => (s.rows x).state = .live
  | .canvasFrame t =>
    match s.tasks t with
    | .serving x => if (s.rows x).state = .idle then [x] else []
    | _ => []
  | _ => []

/-- No placement of a session that the step takes is unfinished. -/
def undisturbed (s : World) (a : Action) : Prop := ∀ x ∈ s.taken a, s.settled x

instance (s : World) (a : Action) : Decidable (s.undisturbed a) := by
  unfold undisturbed
  infer_instance

/-! ## Parts of the world the invariant does not read -/

theorem PlacementInv.aside (h : s.PlacementInv) (hp : s'.ProcessOk)
    (hu : ∀ y, Untouched s s' y) : s'.PlacementInv where
  process := hp
  session := fun y => (hu y).sessionOk (h.session y)

/-- A worker object changes, its slots in use do not. -/
theorem PlacementInv.setWorker {f : Worker → Worker} (h : s.PlacementInv)
    (hslots : (f (s.workers w)).slotsInUse = (s.workers w).slotsInUse) :
    (s.setWorker w f).PlacementInv := by
  refine h.aside (h.process.keep ?_ (fun _ => rfl) rfl rfl rfl (List.Subset.refl _)
    h.process.ended) fun y => { Untouched.refl s y with }
  intro v
  show (Function.update s.workers w (f (s.workers w)) v).slotsInUse = (s.workers v).slotsInUse
  rcases eq_or_ne v w with rfl | hne
  · rw [Function.update_self]
    exact hslots
  · rw [Function.update_of_ne hne]

theorem PlacementInv.forgetWorker (h : s.PlacementInv) : (s.forgetWorker w).PlacementInv := by
  refine h.aside (h.process.keep (fun _ => rfl) (fun _ => rfl) rfl rfl rfl ?_ h.process.ended)
    fun y => { Untouched.refl s y with }
  exact List.filter_sublist.subset

theorem raiseCost_slots {state : Worker × Bool} {sample : String × Nat} :
    (raiseCost state sample).1.slotsInUse = state.1.slotsInUse := by
  rcases state with ⟨worker, raised⟩
  rcases sample with ⟨model, value⟩
  simp only [raiseCost]
  split
  · rfl
  split
  · split <;> rfl
  · rfl

theorem raiseCosts_slots {measured : List (String × Nat)} {worker : Worker} :
    (raiseCosts worker measured).1.slotsInUse = worker.slotsInUse := by
  unfold raiseCosts
  have hfold : ∀ state : Worker × Bool,
      (measured.foldl raiseCost state).1.slotsInUse = state.1.slotsInUse := by
    induction measured with
    | nil => exact fun _ => rfl
    | cons sample measured ih =>
      intro state
      rw [List.foldl_cons, ih]
      exact raiseCost_slots
  exact hfold _

/-- A worker is registered under a number of its own, with no slot in use. -/
theorem hello_ok {worker : Worker} (h : s.PlacementInv) :
    ({ s.setWorker s.attached (fun _ =>
        { worker with slotsInUse := 0, inbox := [], connected := true }) with
      attached := s.attached + 1, registered := s.registered ++ [s.attached] } :
        World).PlacementInv := by
  refine h.aside ⟨?_, h.process.rising, ?_, ?_, h.process.ended⟩
    fun y => { Untouched.refl s y with }
  · intro v
    show (Function.update s.workers s.attached _ v).slotsInUse =
      (Load.load (fun x => (s.rows x).worker) s.created v : Int)
    rcases eq_or_ne v s.attached with rfl | hne
    · rw [Function.update_self, Load.load_eq_zero]
      · rfl
      · intro x _ hx
        exact absurd (h.on_worker hx).2 (Nat.lt_irrefl _)
    · rw [Function.update_of_ne hne]
      exact h.process.slots v
  · intro o ho
    exact Nat.lt_succ_of_lt (h.process.sent o ho)
  · intro v hv
    show v < s.attached + 1
    rcases List.mem_append.mp hv with hold | hnew
    · exact Nat.lt_succ_of_lt (h.process.registered v hold)
    · obtain rfl := List.mem_singleton.mp hnew
      exact Nat.lt_succ_self _

/-! ## Taking sessions -/

theorem scheduleReassign_ok (h : s.PlacementInv)
    (hx : (s.rows x).state = .live → s.unowned x) : (s.scheduleReassign x).PlacementInv := by
  unfold scheduleReassign
  split
  · rename_i s' hs
    rcases transition_eq_some.mp hs with ⟨⟨hended, hl⟩, rfl⟩
    have hlive : (s.rows x).state = .live := by simpa using hl
    have hmem : x ∈ s.sessions := h.in_sessions hended (by simp [hlive])
    have hinv := h.setAssigning hended hmem
    refine hinv.spawn (x := x) rfl (hx hlive) (h.born hended) ?_ (.inl hmem)
    rw [setRow_rows_self]
    simp
  · exact h

theorem scheduleResumeIdle_ok (h : s.PlacementInv)
    (hx : (s.rows x).state = .idle → s.unowned x) : (s.scheduleResumeIdle x).PlacementInv := by
  unfold scheduleResumeIdle
  split
  · rename_i s' hs
    rcases transition_eq_some.mp hs with ⟨⟨hended, hi⟩, rfl⟩
    have hidle : (s.rows x).state = .idle := by simpa using hi
    have hnone := (h.session x).row.off (.inr (.inl hidle))
    have hmem : x ∈ s.sessions := h.in_sessions hended (by simp [hidle])
    have hinv := h.setAssigning hended hmem
    refine hinv.spawn (x := x) rfl (hx hidle) (h.born hended) ?_ ⟨?_, .inl hmem⟩
    · rw [setRow_rows_self]
      simp
    · rw [setRow_rows_self]
      exact hnone
  · exact h

/-- The session may be taken: it is not live, or no placement of it is unfinished. -/
def quiet (s : World) (x : Nat) : Prop := (s.rows x).state = .live → s.unowned x

theorem scheduleReassign_quiet (h : s.quiet y) : (s.scheduleReassign x).quiet y := by
  unfold scheduleReassign
  split
  · rename_i s' hs
    rcases transition_eq_some.mp hs with ⟨_, rfl⟩
    intro hlive t ht
    have hrows : ((s.setRow x ({ · with state := .assigning })).rows y).state = .live := hlive
    rcases eq_or_ne y x with rfl | hne
    · rw [setRow_rows_self] at hrows
      cases hrows
    · rw [setRow_rows_of_ne _ hne] at hrows
      have htask : (((s.setRow x ({ · with state := .assigning })).put s.spawned
        (.scheduled .reassign x)).tasks t).owns y := ht
      rcases eq_or_ne t s.spawned with rfl | hold
      · rw [put_tasks_self] at htask
        exact hne htask.symm
      · rw [put_tasks_of_ne _ hold] at htask
        exact h hrows t htask
  · exact h

theorem orphan_ok (h : s.PlacementInv) (hx : s.quiet x) : (s.orphan x).PlacementInv := by
  unfold orphan
  split
  · have hattempt : (s.setRow x ({ · with attemptOk := false })).PlacementInv :=
      h.setAttempt (by simp)
    exact hattempt.setReady
  · exact scheduleReassign_ok h hx
  · exact h

theorem orphan_quiet (h : s.quiet y) : (s.orphan x).quiet y := by
  unfold orphan
  split
  · intro hlive t ht
    have hrows : (((s.setRow x ({ · with attemptOk := false })).setReady x).rows y).state = .live :=
      hlive
    refine h ?_ t (Task.wake_owns.mp ht)
    rw [← hrows]
    rcases eq_or_ne y x with rfl | hne
    · simp [World.setReady, World.setRow]
    · simp [World.setReady, World.setRow, hne]
  · exact scheduleReassign_quiet h
  · exact h

/-- One session after the other is taken. -/
theorem foldl_ok {f : World → Nat → World} {xs : List Nat}
    (hinv : ∀ s x, s.PlacementInv → s.quiet x → (f s x).PlacementInv)
    (hquiet : ∀ s x y, s.quiet y → (f s x).quiet y) (h : s.PlacementInv)
    (hxs : ∀ x ∈ xs, s.quiet x) : (xs.foldl f s).PlacementInv := by
  induction xs generalizing s with
  | nil => exact h
  | cons x xs ih =>
    apply ih
    · exact hinv s x h (hxs x List.mem_cons_self)
    · intro y hy
      exact hquiet s x y (hxs y (List.mem_cons_of_mem _ hy))

/-! ## The fleet handler -/

theorem receive_ok {m : Message} (h : s.PlacementInv)
    (hready : m.answer = .sessionReady →
      (⟨w, m.session, m.generation, s.opens.length⟩ : Ready) ∈ s.readies)
    (hquiet : m.answer = .sessionRefused → (s.rows m.session).worker = some w →
      m.generation = (s.rows m.session).controlGeneration → s.isLive m.session →
      s.quiet m.session) : (s.receive w m).PlacementInv := by
  unfold receive
  dsimp only
  split
  case isFalse => exact h
  case isTrue hcurrent =>
    rcases hcurrent with ⟨hlive, hw, hg⟩
    split
    · rename_i hanswer
      split
      case h_2 => exact h
      case h_1 s' hs =>
        rcases transition_eq_some.mp hs with ⟨⟨hended, ha⟩, rfl⟩
        have hassigning : (s.rows m.session).state = .assigning := by simpa using ha
        -- the ready was read after this attempt's open, so it answers it
        have hanswered : ∀ v, (s.rows m.session).worker = some v →
            s.answered v m.session (s.rows m.session).controlGeneration := by
          intro v hv
          obtain rfl : w = v := Option.some.inj (hw.symm.trans hv)
          refine ⟨s.opens.length, ?_, ?_⟩
          · rw [← hg]
            exact hready hanswer
          · rw [List.take_length]
            exact (h.session m.session).row.held w hw
        have hmoved : (s.setRow m.session ({ · with state := .live })).PlacementInv := by
          apply h.setState hended hlive
          · simp
          · simp
          · exact fun _ => hanswered
          · refine .inr (.inr fun t answer ht => ?_)
            have htask := (h.session m.session).task t (by rw [ht]; rfl)
            rw [ht] at htask
            rw [htask.1] at hw
            cases hw
        have hok : ((s.setRow m.session ({ · with state := .live })).setRow m.session
            ({ · with attemptOk := true })).PlacementInv := by
          apply hmoved.setAttempt
          intro _ v hv
          rw [setRow_rows_self] at hv ⊢
          exact hanswered v hv
        have hstamped := hok.setRow (x := m.session) (f := ({ · with assignedAt := s.now }))
          rfl rfl rfl rfl
        have hfinal := hstamped.setReady (x := m.session)
        simpa [World.setRow] using hfinal
    · rename_i hanswer
      split
      · have hattempt : (s.setRow m.session ({ · with attemptOk := false })).PlacementInv :=
          h.setAttempt (by simp)
        exact hattempt.setReady
      · exact scheduleReassign_ok h (hquiet hanswer hw hg hlive)
      · exact h

/-! ## Closing sessions -/

theorem closeNext_ok {call : CloseCall} {rest : List (Nat × Nat)} {pending : List Nat}
    (h : s.PlacementInv) (ht : t < s.spawned) :
    (closeNext t call rest s pending).PlacementInv := by
  induction pending generalizing s with
  | nil =>
    unfold closeNext
    have hcalls : ({ s with calls := s.calls ++ [⟨call, s.forwards.length, true⟩] } :
        World).PlacementInv :=
      h.aside (h.process.keep (fun _ => rfl) (fun _ => rfl) rfl rfl rfl (List.Subset.refl _)
        h.process.ended) fun y => { Untouched.refl s y with }
    apply hcalls.put_free ht
    intro y hy
    split at hy <;> exact hy
  | cons x pending ih =>
    have hrelease := release_ok (h.pop_drop (x := x))
    rw [pop_spawned] at hrelease
    have ht' : t < ((s.pop x).release x).1.spawned := lt_of_lt_of_le ht hrelease.2
    unfold closeNext
    dsimp only
    split
    · exact hrelease.1.put_free ht' fun _ hy => hy
    · exact ih hrelease.1 ht'

theorem beginClose_ok {call : CloseCall} {rest : List (Nat × Nat)} (h : s.PlacementInv)
    (ht : t < s.spawned) : (s.beginClose t call rest).PlacementInv :=
  closeNext_ok h ht

/-! ## The browser handler -/

theorem serve_ok (h : s.Holds t x) (hnone : (s.rows x).worker = none) (hfresh : s.fresh x) :
    (s.serve t x).PlacementInv :=
  goOn_ok (place_ok h hnone hfresh)

theorem PlacementInv.handshake (h : s.PlacementInv) {entry : Nat × HandshakeEnd} :
    ({ s with handshakes := s.handshakes ++ [entry] } : World).PlacementInv :=
  h.aside (h.process.keep (fun _ => rfl) (fun _ => rfl) rfl rfl rfl (List.Subset.refl _)
    h.process.ended) fun y => { Untouched.refl s y with }

theorem turnAway_ok (h : s.Holds t x) (hnone : (s.rows x).worker = none)
    (hstate : (s.rows x).state = .assigning ∨ (s.rows x).state = .ended) :
    (s.turnAway x).PlacementInv := by
  have hsame : (s.unregister x).setRow x ({ · with state := (s.rows x).state }) =
      s.unregister x := by
    simp [World.setRow, unregister]
  have hunlist : (s.unregister x).PlacementInv := by
    rw [← hsame]
    apply h.inv.unlist hnone
    rcases hstate with hs | hs
    · exact .inr ⟨hs, by simp [hs], h.unowned⟩
    · exact .inl hs
  unfold turnAway
  split
  · exact hunlist.handshake
  · exact h.inv.handshake

/-- A session is created and registered. -/
theorem register_ok (modelId : String) (user auth : Option Nat) (h : s.PlacementInv)
    (ht : t < s.spawned) :
    ({ s.setRow s.created (fun _ => Session.new modelId user auth s.now) with
      created := s.created + 1, sessions := s.sessions ++ [s.created] } : World).Holds t
        s.created := by
  have hrow : (s.setRow s.created (fun _ => Session.new modelId user auth s.now)).rows s.created =
      Session.new modelId user auth s.now := setRow_rows_self _
  have hunborn := (h.session s.created).row.unborn (Nat.le_refl _)
  have hmem : s.created ∈ s.sessions ++ [s.created] := by simp
  refine ⟨?_, ht, hunborn.2.2, Nat.lt_succ_self _, .inl hmem, ?_⟩
  · refine h.of_untouched (x := s.created) ⟨?_, h.process.rising, h.process.sent,
      h.process.registered, h.process.ended⟩ ?_ ⟨⟨?_, ?_, ?_, ?_, ?_, ?_, ?_⟩, ?_, ?_⟩
    · intro w
      show (s.workers w).slotsInUse = (Load.load (fun x => ((s.setRow s.created
        (fun _ => Session.new modelId user auth s.now)).rows x).worker) (s.created + 1) w : Int)
      have hsame : Load.load (fun x => ((s.setRow s.created
          (fun _ => Session.new modelId user auth s.now)).rows x).worker) s.created w =
          Load.load (fun x => (s.rows x).worker) s.created w := by
        apply Load.load_congr
        intro x hx
        rw [setRow_rows_of_ne _ (Nat.ne_of_lt hx)]
      rw [Load.load_succ, hsame, hrow, h.process.slots w]
      simp [Session.new]
    · intro y hne
      exact { Untouched.setRow_of_ne (s := s)
          (fun _ => Session.new modelId user auth s.now) hne with
        sessions := by
          show y ∈ s.sessions ++ [s.created] ↔ y ∈ s.sessions
          simp [hne]
        created := Nat.le_succ _ }
    · intro o ho hox
      exact absurd hox (hunborn.2.1 o ho)
    · intro w hw
      have hnew : ((s.setRow s.created (fun _ => Session.new modelId user auth s.now)).rows
        s.created).worker = some w := hw
      rw [hrow] at hnew
      cases hnew
    · intro w hw
      have hnew : ((s.setRow s.created (fun _ => Session.new modelId user auth s.now)).rows
        s.created).worker = some w := hw
      rw [hrow] at hnew
      cases hnew
    · intro hnot
      exact absurd hmem hnot
    · intro _
      show ((s.setRow s.created (fun _ => Session.new modelId user auth s.now)).rows
        s.created).worker = none
      rw [hrow]
      rfl
    · intro _
      refine ⟨?_, hunborn.2.2⟩
      intro o ho hox
      exact absurd hox (hunborn.2.1 o ho)
    · intro hge
      exact absurd hge (Nat.not_succ_le_self _)
    · intro u hu
      exact absurd hu (hunborn.2.2 u)
    · intro u u' hu
      exact absurd hu (hunborn.2.2 u)
  · show ((s.setRow s.created (fun _ => Session.new modelId user auth s.now)).rows
      s.created).state ≠ .queued
    rw [hrow]
    simp [Session.new]

theorem openSession_ok {modelId : String} {user auth : Option Nat} (h : s.PlacementInv)
    (ht : t < s.spawned) : (s.openSession t user auth modelId).PlacementInv := by
  unfold openSession
  split
  case isFalse => exact h
  case isTrue =>
    have hholds := register_ok modelId user auth h ht
    have hunborn := (h.session s.created).row.unborn (Nat.le_refl _)
    have hrow : (s.setRow s.created (fun _ => Session.new modelId user auth s.now)).rows
        s.created = Session.new modelId user auth s.now := setRow_rows_self _
    have hnone : ((s.setRow s.created (fun _ => Session.new modelId user auth s.now)).rows
        s.created).worker = none := by
      rw [hrow]
      rfl
    have hstate : ((s.setRow s.created (fun _ => Session.new modelId user auth s.now)).rows
        s.created).state = .assigning := by
      rw [hrow]
      rfl
    have hfresh : ∀ o ∈ s.opens, o.session = s.created → o.generation <
        ((s.setRow s.created (fun _ => Session.new modelId user auth s.now)).rows
          s.created).controlGeneration := fun o ho hox => absurd hox (hunborn.2.1 o ho)
    dsimp only
    split
    · exact hholds.put _ rfl ⟨hnone, hfresh, hholds.listed, .inl hstate⟩
    · split
      · exact serve_ok hholds hnone hfresh
      · exact turnAway_ok hholds hnone (.inl hstate)

theorem canvasFrame_ok (h : s.PlacementInv)
    (hidle : (s.rows x).state = .idle → s.unowned x) : (s.canvasFrame x).PlacementInv := by
  have hclock : (s.setRow x ({ · with lastInput := s.now })).PlacementInv :=
    h.setRow rfl rfl rfl rfl
  unfold canvasFrame
  dsimp only
  split
  · rename_i hstate
    have hframe := hclock.setRow (x := x) (f := ({ · with pendingFrame := true })) rfl rfl rfl rfl
    apply scheduleResumeIdle_ok hframe
    intro hs
    rw [setRow_rows_self, setRow_rows_self] at hs
    exact hidle hs
  · exact hclock.setRow rfl rfl rfl rfl
  · exact hclock.setRow rfl rfl rfl rfl
  · split
    · exact PlacementInv.forward (hclock.setRow rfl rfl rfl rfl)
    · exact hclock

/-! ## Every step -/

/-- The task of a step, and that it is running. -/
theorem PlacementInv.running {task : Task} (h : s.PlacementInv) (ht : s.tasks t = task)
    (hne : task ≠ .done) : t < s.spawned := by
  apply h.lt_spawned
  rw [ht]
  exact hne

theorem PlacementInv.holds_task {task : Task} (h : s.PlacementInv) (ht : s.tasks t = task)
    (hx : task.owns x) : (s.put t .done).Holds t x ∧ (s.put t .done).TaskOk task := by
  have howns : (s.tasks t).owns x := by rwa [ht]
  have htask := (h.session x).task t howns
  rw [ht] at htask
  exact ⟨h.holds howns, htask.keep hx (.inl rfl) rfl id id fun _ hs => hs⟩

theorem fleetReads_ok {m : Message} {inbox : List Message} (h : s.PlacementInv)
    (hok : s.undisturbed (.fleetReads w)) (hinbox : (s.workers w).inbox = m :: inbox) :
    (World.receive
      (match m.answer with
        | .sessionReady =>
          { s.setWorker w ({ · with inbox := inbox }) with
            readies := s.readies ++ [(⟨w, m.session, m.generation, s.opens.length⟩ : Ready)] }
        | .sessionRefused => s.setWorker w ({ · with inbox := inbox })) w m).PlacementInv := by
  have hread : (s.setWorker w ({ · with inbox := inbox })).PlacementInv := h.setWorker rfl
  cases hm : m.answer with
  | sessionReady =>
    apply receive_ok
    · refine hread.aside (hread.process.keep (fun _ => rfl) (fun _ => rfl) rfl rfl rfl
        (List.Subset.refl _) hread.process.ended) fun y => ?_
      exact { Untouched.refl (s.setWorker w ({ · with inbox := inbox })) y with
        readies := List.subset_append_left _ _ }
    · intro _
      simp [World.setWorker]
    · intro hrefused
      rw [hm] at hrefused
      cases hrefused
  | sessionRefused =>
    apply receive_ok hread
    · intro hready
      rw [hm] at hready
      cases hready
    · intro _ hw hg hlive hstate
      have hsettled : s.settled m.session := by
        apply hok
        simp only [taken, hinbox]
        rw [if_pos ⟨hm, hlive, hw, hg, hstate⟩]
        exact List.mem_singleton_self _
      exact h.unowned_of_settled hsettled

theorem heartbeat_ok {measured : List (String × Nat)} (h : s.PlacementInv)
    (hok : s.undisturbed (.heartbeat w measured)) :
    (if (raiseCosts (s.workers w) measured).2 then
      ((s.setWorker w fun _ => (raiseCosts (s.workers w) measured).1).overCapacitySessions w).foldl
        scheduleReassign (s.setWorker w fun _ => (raiseCosts (s.workers w) measured).1)
      else s.setWorker w fun _ => (raiseCosts (s.workers w) measured).1).PlacementInv := by
  have hcosts : (s.setWorker w fun _ => (raiseCosts (s.workers w) measured).1).PlacementInv :=
    h.setWorker raiseCosts_slots
  split
  · rename_i hraised
    apply foldl_ok (fun _ _ => scheduleReassign_ok) (fun _ _ _ => scheduleReassign_quiet) hcosts
    intro x hx _
    have hsettled : s.settled x := by
      apply hok
      simp only [taken, hraised]
      exact hx
    exact h.unowned_of_settled hsettled
  · exact hcosts

theorem finalize_ok (h : s.PlacementInv) (hok : s.undisturbed (.finalize w)) :
    ((((s.setWorker w ({ · with connected := false })).forgetWorker w).orphaned w).foldl orphan
      ((s.setWorker w ({ · with connected := false })).forgetWorker w)).PlacementInv := by
  have hlost : ((s.setWorker w ({ · with connected := false })).forgetWorker w).PlacementInv :=
    PlacementInv.forgetWorker (h.setWorker rfl)
  apply foldl_ok (fun _ _ => orphan_ok) (fun _ _ _ => orphan_quiet) hlost
  intro x hx hlive
  have hstate : (s.rows x).state = .live := hlive
  have hsettled : s.settled x := by
    apply hok
    exact List.mem_filter.mpr ⟨hx, by simpa using hstate⟩
  exact h.unowned_of_settled hsettled

theorem releaseIdle_ok (h : s.PlacementInv) (hlive : (s.rows x).state = .live) :
    (((s.spawn .done).transition! x [.live] .idle).releaseLast s.spawned x).PlacementInv := by
  have hspawn : (s.spawn .done).PlacementInv := h.spawn_free fun _ hy => hy
  have hstate : ((s.spawn .done).rows x).state = .live := hlive
  have htransition : (s.spawn .done).transition! x [.live] .idle =
      (s.spawn .done).setRow x ({ · with state := .idle }) := by
    simp [transition!, transition, hstate]
  have hx : x ∈ (s.spawn .done).sessions :=
    hspawn.in_sessions (by simp [hstate]) (by simp [hstate])
  rw [htransition]
  apply releaseLast_ok
  · rw [drop_setState]
    apply hspawn.drop.setState
    · simp [hstate]
    · simpa using hx
    · simp
    · simp
    · simp
    · refine .inr (.inr ?_)
      rw [drop_tasks]
      exact hspawn.not_checking (by simp [hstate]) (by simp [hstate])
  · exact Nat.lt_succ_self _

/-- Every step that disturbs no placement keeps the invariant. -/
theorem step_inv {a : Action} (h : s.PlacementInv) (hok : s.undisturbed a)
    (hstep : step s a = some s') : s'.PlacementInv := by
  cases a with
  | tick =>
    obtain rfl := Option.some.inj hstep
    exact h.aside (h.process.keep (fun _ => rfl) (fun _ => rfl) rfl rfl rfl (List.Subset.refl _)
      h.process.ended) fun y => { Untouched.refl s y with }
  | hello worker =>
    simp only [step] at hstep
    split at hstep
    · cases hstep
    · obtain rfl := Option.some.inj hstep
      exact hello_ok h
  | prune w =>
    obtain rfl := Option.some.inj hstep
    exact h.forgetWorker
  | workerSends w m =>
    obtain rfl := Option.some.inj hstep
    exact h.setWorker rfl
  | fleetReads w =>
    simp only [step] at hstep
    split at hstep
    · rename_i m inbox _ hinbox
      obtain rfl := Option.some.inj hstep
      exact fleetReads_ok h hok hinbox
    · cases hstep
  | heartbeat w measured =>
    simp only [step] at hstep
    split at hstep
    · obtain rfl := Option.some.inj hstep
      exact heartbeat_ok h hok
    · cases hstep
  | finalize w =>
    simp only [step] at hstep
    split at hstep
    · obtain rfl := Option.some.inj hstep
      exact finalize_ok h hok
    · cases hstep
  | admitQueued =>
    obtain rfl := Option.some.inj hstep
    exact h.admitQueued
  | releaseIdle x =>
    simp only [step] at hstep
    split at hstep
    · rename_i hidle
      obtain rfl := Option.some.inj hstep
      exact releaseIdle_ok h hidle.1
    · cases hstep
  | connect user auth =>
    simp only [step] at hstep
    split at hstep
    · obtain rfl := Option.some.inj hstep
      exact h.spawn_free fun _ hy => hy
    split at hstep
    · split at hstep
      · cases hstep
      · obtain rfl := Option.some.inj hstep
        exact h.spawn_free fun _ hy => hy
    · cases hstep
  | openSession t modelId =>
    simp only [step] at hstep
    split at hstep
    · rename_i user auth ht
      obtain rfl := Option.some.inj hstep
      have hrun := h.running ht (by simp)
      exact openSession_ok (h.stop hrun) hrun
    · cases hstep
  | recheck t alive =>
    simp only [step] at hstep
    split at hstep
    · rename_i x ht
      split at hstep
      · rename_i auth _
        obtain rfl := Option.some.inj hstep
        have hholds := h.holds_task ht (x := x) rfl
        have hput := hholds.1.put (.checking x (some (alive && decide (auth ∉ s.revoked)))) rfl
          hholds.2
        rw [put_put] at hput
        exact hput
      · cases hstep
    · cases hstep
  | recheckAnswered t =>
    simp only [step] at hstep
    split at hstep
    · rename_i x ht
      obtain rfl := Option.some.inj hstep
      have hholds := h.holds_task ht (x := x) rfl
      exact serve_ok hholds.1 hholds.2.1 hholds.2.2.1
    · rename_i x ht
      obtain rfl := Option.some.inj hstep
      have hholds := h.holds_task ht (x := x) rfl
      exact turnAway_ok hholds.1 hholds.2.1 hholds.2.2.2.2
    · cases hstep
  | sent t =>
    simp only [step] at hstep
    split at hstep
    · rename_i caller x attempt ht
      split at hstep
      · obtain rfl := Option.some.inj hstep
        have hholds := h.holds_task ht (x := x) rfl
        rcases hholds.2 with ⟨hg, hl, _, hw⟩
        have hput := hholds.1.put
          (.placing caller x { attempt with phase := .waiting (s.rows x).ready }) rfl
          ⟨hg, hl, by simp, hw⟩
        rw [put_put] at hput
        exact hput
      · cases hstep
    · cases hstep
  | sendFails t =>
    simp only [step] at hstep
    split at hstep
    · rename_i caller x attempt ht
      split at hstep
      · obtain rfl := Option.some.inj hstep
        have hholds := h.holds_task ht (x := x) rfl
        exact goOn_ok (giveUp_ok hholds.1 hholds.2.1 hholds.2.2.2.2)
      · cases hstep
    · cases hstep
  | raises t =>
    simp only [step] at hstep
    split at hstep
    · rename_i x _ ht
      obtain rfl := Option.some.inj hstep
      have hholds := h.holds_task ht (x := x) rfl
      exact tearDown_ok hholds.1.inv hholds.1.running
    all_goals first
      | (rename_i ht
         obtain rfl := Option.some.inj hstep
         exact h.put_free (h.running ht (by simp)) fun _ hy => hy)
      | cases hstep
  | wakes t =>
    simp only [step] at hstep
    split at hstep
    · rename_i caller x attempt ht
      split at hstep
      · obtain rfl := Option.some.inj hstep
        have hholds := h.holds_task ht (x := x) rfl
        exact goOn_ok (woken_ok hholds.1 hholds.2.1 hholds.2.2.2.2)
      · cases hstep
    · cases hstep
  | timesOut t =>
    simp only [step] at hstep
    split at hstep
    · rename_i caller x attempt ht
      split at hstep
      · obtain rfl := Option.some.inj hstep
        have hholds := h.holds_task ht (x := x) rfl
        exact goOn_ok (giveUp_ok hholds.1 hholds.2.1 hholds.2.2.2.2)
      · cases hstep
    · cases hstep
  | abandoned t =>
    simp only [step] at hstep
    split at hstep
    · rename_i caller x attempt ht
      split at hstep
      · rename_i hphase
        obtain rfl := Option.some.inj hstep
        have hholds := h.holds_task ht (x := x) rfl
        rcases hholds.2 with ⟨hg, _, hab, _⟩
        exact goOn_ok (assigned_ok hholds.1 hg fun _ _ => hab hphase)
      · cases hstep
    · cases hstep
  | starts t =>
    simp only [step] at hstep
    split at hstep
    · rename_i x ht
      obtain rfl := Option.some.inj hstep
      have hholds := h.holds_task ht (x := x) rfl
      exact goOn_ok (place_ok hholds.1 hholds.2.1 hholds.2.2.1)
    · rename_i x ht
      obtain rfl := Option.some.inj hstep
      exact reassign_ok (h.holds_task ht (x := x) rfl).1
    · rename_i x ht
      obtain rfl := Option.some.inj hstep
      have hholds := h.holds_task ht (x := x) rfl
      exact resumeIdle_ok hholds.1 hholds.2.1
    · cases hstep
  | interrupted t =>
    simp only [step] at hstep
    split at hstep
    · rename_i x excluded ht
      obtain rfl := Option.some.inj hstep
      have hholds := h.holds_task ht (x := x) rfl
      exact interrupted_ok hholds.1 hholds.2.1
    · cases hstep
  | desiredRead t =>
    simp only [step] at hstep
    split at hstep
    · rename_i x excluded ht
      obtain rfl := Option.some.inj hstep
      have hholds := h.holds_task ht (x := x) rfl
      exact reopen_ok hholds.1 hholds.2.1
    · cases hstep
  | released t =>
    simp only [step] at hstep
    split at hstep
    · rename_i ht
      obtain rfl := Option.some.inj hstep
      exact (h.stop (h.running ht (by simp))).admitQueued
    · rename_i call pending rest ht
      obtain rfl := Option.some.inj hstep
      have hrun := h.running ht (by simp)
      have hinv := h.stop hrun
      have hspawned := admitQueued_spawned (s := s.put t .done)
      exact closeNext_ok hinv.admitQueued (lt_of_lt_of_le hrun hspawned)
    · cases hstep
  | releaseRaises t =>
    simp only [step] at hstep
    split at hstep
    · rename_i ht
      obtain rfl := Option.some.inj hstep
      exact h.put_free (h.running ht (by simp)) fun _ hy => hy
    · rename_i call pending rest ht
      obtain rfl := Option.some.inj hstep
      have hcalls : ({ s with calls := s.calls ++ [⟨call, s.forwards.length, false⟩] } :
          World).PlacementInv :=
        h.aside (h.process.keep (fun _ => rfl) (fun _ => rfl) rfl rfl rfl (List.Subset.refl _)
          h.process.ended) fun y => { Untouched.refl s y with }
      exact hcalls.put_free (h.running ht (by simp)) fun _ hy => hy
    · cases hstep
  | canvasFrame t =>
    simp only [step] at hstep
    split at hstep
    · rename_i x ht
      obtain rfl := Option.some.inj hstep
      apply canvasFrame_ok h
      intro hidle
      apply h.unowned_of_settled
      apply hok
      simp [taken, ht, hidle]
    · cases hstep
  | disconnect t =>
    simp only [step] at hstep
    split at hstep
    · rename_i x ht
      obtain rfl := Option.some.inj hstep
      have hrun := h.running ht (by simp)
      exact tearDown_ok (h.stop hrun) hrun
    · cases hstep
  | revoke auths =>
    obtain rfl := Option.some.inj hstep
    exact h.aside (h.process.keep (fun _ => rfl) (fun _ => rfl) rfl rfl rfl (List.Subset.refl _)
      h.process.ended) fun y => { Untouched.refl s y with }
  | enableAccounts =>
    obtain rfl := Option.some.inj hstep
    exact h.aside (h.process.keep (fun _ => rfl) (fun _ => rfl) rfl rfl rfl (List.Subset.refl _)
      h.process.ended) fun y => { Untouched.refl s y with }
  | closeRevoked user auth keep =>
    obtain rfl := Option.some.inj hstep
    exact beginClose_ok (h.spawn_free fun _ hy => hy) (Nat.lt_succ_self _)
  | closeNoneMode =>
    obtain rfl := Option.some.inj hstep
    exact beginClose_ok (h.spawn_free fun _ hy => hy) (Nat.lt_succ_self _)
  | closeDead =>
    obtain rfl := Option.some.inj hstep
    exact h.spawn_free fun _ hy => hy
  | deadAnswered t expired =>
    simp only [step] at hstep
    split at hstep
    · rename_i held ht
      obtain rfl := Option.some.inj hstep
      exact h.put_free (h.running ht (by simp)) fun _ hy => hy
    · cases hstep
  | nextDead t =>
    simp only [step] at hstep
    split at hstep
    · rename_i ht
      obtain rfl := Option.some.inj hstep
      exact h.put_free (h.running ht (by simp)) fun _ hy => hy
    · rename_i auth user rest ht
      obtain rfl := Option.some.inj hstep
      have hrun := h.running ht (by simp)
      exact beginClose_ok (h.stop hrun) hrun
    · cases hstep

theorem init_inv (noneMode : Bool) : (World.start noneMode).PlacementInv where
  process := by
    refine ⟨?_, List.Pairwise.nil, ?_, ?_, fun _ _ => rfl⟩
    · intro w
      rw [Load.load_eq_zero]
      · rfl
      · intro x hx
        exact absurd hx (Nat.not_lt_zero x)
    · intro o ho
      cases ho
    · intro w hw
      cases hw
  session := by
    intro x
    refine ⟨⟨?_, ?_, ?_, ?_, ?_, ?_, ?_⟩, ?_, ?_⟩
    · intro o ho
      cases ho
    · intro w hw
      cases hw
    · intro w hw
      cases hw
    · exact fun _ => ⟨rfl, .inr rfl⟩
    · exact fun _ => rfl
    · intro hq
      cases hq
    · refine fun _ => ⟨rfl, ?_, fun t ht => ht⟩
      intro o ho
      cases ho
    · intro t ht
      exact ht.elim
    · intro t t' ht
      exact ht.elim

/-- What every undisturbed run keeps. -/
theorem run_inv (h : realtimeMachine.Reach undisturbed s) : s.PlacementInv := by
  apply h.invariant
  · rintro _ ⟨noneMode, rfl⟩
    exact init_inv noneMode
  · intro s a s' hinv hok hstep
    exact step_inv hinv hok hstep

end World

end Potocolom.Realtime
