import Potocolom.Admission.Costs
import Potocolom.Lib.Prefix

/-! # Admission keeps under the frame bar

`pick_worker` admits a session only where it fits, and when the costs of a worker rise
`over_capacity_sessions` names the newest sessions it has to give up. -/

namespace Potocolom.Admission

open Protocol (Members)

/-- `SessionState`. -/
inductive SessionState where
  | queued
  | assigning
  | live
  | idle
  | ending
  | ended
deriving DecidableEq, Repr

structure Session where
  id : Nat
  modelId : ModelId
  /-- The number of the worker object it is on. -/
  worker : Option Nat
  state : SessionState
  assignedAt : Nat
deriving DecidableEq

/-- Worker objects by number; `registered` is the dict `workers`, and `sessions` the dict
of that name, in insertion order. -/
structure World where
  workers : Nat → Worker
  registered : List Nat
  sessions : List Session
  now : Nat
  ids : (sessions.map Session.id).Nodup

/-- `takes_work`. -/
def Worker.takesWork (worker : Worker) : Bool := !worker.durable

/-- `has_current_work_grant`. -/
def Worker.hasCurrentWorkGrant (worker : Worker) (now : Nat) : Bool :=
  worker.protocolVersion ≠ 6 ||
    (worker.admissionReady &&
      match worker.grantDeadline with
      | none => true
      | some deadline => decide (now < deadline))

/-- `takes_sessions`. -/
def Worker.takesSessions (worker : Worker) (now : Nat) : Bool :=
  worker.takesWork || worker.hasCurrentWorkGrant now

/-- `free_slots`. -/
def Worker.freeSlots (worker : Worker) : ℤ := worker.realtimeSlots - worker.slotsInUse

namespace World

variable (s : World)

/-- The sessions on worker `w`, without those whose id is excluded. -/
def sessionsOn (w : Nat) (excluding : List Nat) : List Session :=
  s.sessions.filter fun session => session.worker = some w ∧ session.id ∉ excluding

/-- `session_counts_on_worker`. -/
def sessionCountsOnWorker (w : Nat) (excluding : List Nat) : ByModel Nat :=
  countModels ((s.sessionsOn w excluding).map Session.modelId)

/-- `live_admission_cost`. -/
def liveAdmissionCost (w : Nat) (extra : Option ModelId) (excluding : List Nat) : Nat :=
  match (s.workers w).admissionP95Ms with
  | none => 0
  | some _ =>
    let counts := s.sessionCountsOnWorker w excluding
    match extra with
    | some modelId => classAdmissionCost (s.workers w) (countOne counts modelId)
    | none => classAdmissionCost (s.workers w) counts

/-- The rank `pick_worker` gives a worker, if it can take the model. -/
def rank (modelId : ModelId) (excludeIds : List String) (w : Nat) : Option ℤ :=
  let worker := s.workers w
  if worker.id ∈ excludeIds ∨ ¬ worker.takesSessions s.now ∨ modelId ∉ worker.models ∨
      ¬ worker.hasCurrentWorkGrant s.now then none
  else
    match worker.admissionP95Ms with
    | none => if worker.freeSlots > 0 then some worker.freeSlots else none
    | some p95 =>
      if modelId ∉ p95 then none
      else
        let leftover : ℤ := realtimeBarMs - s.liveAdmissionCost w (some modelId) []
        if 0 ≤ leftover then some leftover else none

/-- `max(ranked, key=…)`: the first of the highest. -/
def best : List (ℤ × Nat) → Option (ℤ × Nat)
  | [] => none
  | first :: rest =>
    match best rest with
    | some other => if first.1 < other.1 then some other else some first
    | none => some first

/-- `pick_worker`. -/
def pickWorker (modelId : ModelId) (excludeIds : List String) : Option Nat :=
  (best (s.registered.filterMap fun w => (s.rank modelId excludeIds w).map (·, w))).map (·.2)

/-- The live sessions on a worker, newest first; `sort` is stable. -/
def liveNewestFirst (w : Nat) : List Session :=
  (s.sessions.filter fun session => session.worker = some w ∧ session.state = .live).insertionSort
    fun x y => y.assignedAt ≤ x.assignedAt

/-- `over_capacity_sessions`. -/
def overCapacitySessions (w : Nat) : List Session :=
  match (s.workers w).admissionP95Ms with
  | none => []
  | some _ =>
    if s.liveAdmissionCost w none [] ≤ realtimeBarMs then []
    else
      Prefix.takeUntil
        (fun victims => decide (s.liveAdmissionCost w none (victims.map Session.id) ≤ realtimeBarMs))
        [] (s.liveNewestFirst w)

/-- The world without some of its sessions. -/
def without (gone : List Session) : World :=
  { s with
    sessions := s.sessions.filter fun session => session ∉ gone
    ids := s.ids.sublist (List.filter_sublist.map Session.id) }

end World

/-! ## Picking -/

variable {s : World} {w : Nat}

theorem best_mem {ranked : List (ℤ × Nat)} {x : ℤ × Nat} (h : World.best ranked = some x) :
    x ∈ ranked := by
  induction ranked with
  | nil => cases h
  | cons first rest ih =>
    rw [World.best] at h
    split at h
    · rename_i other hother
      split at h
      · cases h
        exact List.mem_cons_of_mem _ (ih hother)
      · cases h
        exact List.mem_cons_self
    · cases h
      exact List.mem_cons_self

/-- A worker is picked by the rank it has. -/
theorem World.pickWorker_rank {modelId : ModelId} {excludeIds : List String}
    (h : s.pickWorker modelId excludeIds = some w) : ∃ r, s.rank modelId excludeIds w = some r := by
  obtain ⟨⟨r, w'⟩, hbest, rfl⟩ := Option.map_eq_some_iff.1 h
  obtain ⟨w'', -, hrank⟩ := List.mem_filterMap.1 (best_mem hbest)
  obtain ⟨r', hr', heq⟩ := Option.map_eq_some_iff.1 hrank
  cases heq
  exact ⟨r, hr'⟩

/-- A worker with an admission map has room for one more session of the model. -/
theorem World.pickWorker_fits {modelId : ModelId} {excludeIds : List String}
    (h : s.pickWorker modelId excludeIds = some w) (hmap : (s.workers w).admissionP95Ms ≠ none) :
    s.liveAdmissionCost w (some modelId) [] ≤ realtimeBarMs := by
  obtain ⟨r, hrank⟩ := s.pickWorker_rank h
  unfold World.rank at hrank
  dsimp only at hrank
  rw [Option.ite_none_left_eq_some] at hrank
  obtain ⟨-, hrank⟩ := hrank
  split at hrank
  · rename_i hnone
    exact absurd hnone hmap
  · rw [Option.ite_none_left_eq_some, Option.ite_none_right_eq_some] at hrank
    obtain ⟨-, hleft, -⟩ := hrank
    omega

/-- The world once a session has been placed. -/
def World.place (s : World) (session : Session) (hid : session.id ∉ s.sessions.map Session.id) :
    World :=
  { s with
    sessions := s.sessions ++ [session]
    ids := by
      rw [List.map_append, List.nodup_append]
      refine ⟨s.ids, List.nodup_singleton _, ?_⟩
      intro a ha b hb
      rw [List.map_singleton, List.mem_singleton] at hb
      rw [hb]
      exact fun heq => hid (heq ▸ ha) }

/-- Placing a session costs what `pick_worker` reckoned with. -/
theorem World.place_cost {session : Session} (hid : session.id ∉ s.sessions.map Session.id)
    (hw : session.worker = some w) :
    (s.place session hid).liveAdmissionCost w none [] =
      s.liveAdmissionCost w (some session.modelId) [] := by
  have hsessions : (s.place session hid).sessionsOn w [] = s.sessionsOn w [] ++ [session] := by
    simp [World.sessionsOn, World.place, List.filter_append, hw]
  have hcounts : (s.place session hid).sessionCountsOnWorker w [] =
      countOne (s.sessionCountsOnWorker w []) session.modelId := by
    rw [World.sessionCountsOnWorker, hsessions, List.map_append, countModels, List.foldl_append]
    rfl
  unfold World.liveAdmissionCost
  rw [hcounts]
  rfl

/-! ## Shedding -/

theorem World.mem_liveNewestFirst {session : Session} :
    session ∈ s.liveNewestFirst w ↔
      session ∈ s.sessions ∧ session.worker = some w ∧ session.state = .live := by
  simp [World.liveNewestFirst, List.mem_insertionSort, List.mem_filter]

/-- Leaving a session out by its id leaves out that session and no other. -/
theorem World.without_sessionsOn {victims : List Session} (h : ∀ x ∈ victims, x ∈ s.sessions) :
    (s.without victims).sessionsOn w [] = s.sessionsOn w (victims.map Session.id) := by
  unfold World.sessionsOn World.without
  rw [List.filter_filter]
  refine List.filter_congr fun session hsession => ?_
  have hid : session ∈ victims ↔ session.id ∈ victims.map Session.id := by
    constructor
    · exact List.mem_map_of_mem
    · intro hmem
      obtain ⟨victim, hvictim, heq⟩ := List.mem_map.1 hmem
      have hsame := List.inj_on_of_nodup_map s.ids (h victim hvictim) hsession heq
      exact hsame ▸ hvictim
  simp [hid]

theorem World.without_cost {victims : List Session} (h : ∀ x ∈ victims, x ∈ s.sessions) :
    (s.without victims).liveAdmissionCost w none [] =
      s.liveAdmissionCost w none (victims.map Session.id) := by
  have hcounts : (s.without victims).sessionCountsOnWorker w [] =
      s.sessionCountsOnWorker w (victims.map Session.id) := by
    rw [World.sessionCountsOnWorker, World.without_sessionsOn h]
    rfl
  unfold World.liveAdmissionCost
  rw [hcounts]
  rfl

/-- What is shed is the shortest run of the newest live sessions that is enough. -/
theorem World.overCapacity_shortest (hmap : (s.workers w).admissionP95Ms ≠ none) :
    Prefix.Shortest (fun gone => (s.without gone).liveAdmissionCost w none [] ≤ realtimeBarMs)
      (s.liveNewestFirst w) (s.overCapacitySessions w) := by
  have hcost : ∀ gone, gone <+: s.liveNewestFirst w →
      (s.without gone).liveAdmissionCost w none [] =
        s.liveAdmissionCost w none (gone.map Session.id) := by
    intro gone hgone
    apply World.without_cost
    intro x hx
    exact (World.mem_liveNewestFirst.1 (hgone.subset hx)).1
  have hshortest : Prefix.Shortest
      (fun gone => s.liveAdmissionCost w none (gone.map Session.id) ≤ realtimeBarMs)
      (s.liveNewestFirst w) (s.overCapacitySessions w) := by
    unfold World.overCapacitySessions
    split
    · rename_i hnone
      exact absurd hnone hmap
    · split
      case isTrue hfits => exact Prefix.shortest_nil _ hfits
      case isFalse hover =>
        refine (Prefix.takeUntil_nil_shortest (s.liveNewestFirst w) ?_).congr ?_
        · simpa using hover
        · intro zs _
          exact decide_eq_true_iff
  refine hshortest.congr fun gone hgone => ?_
  rw [hcost gone hgone]

/-- On a worker with an admission map part of what fits fits; the worker is picked only
with room for the session; and once over the bar it gives up the shortest run of its newest
live sessions that brings it back, or all of them. -/
theorem admission_keeps_under_bar (hmap : (s.workers w).admissionP95Ms ≠ none)
    (hmeasured : (s.workers w).Measured) :
    (∀ xs ys : List ModelId, (xs : Multiset ModelId) ≤ ys →
      classAdmissionCost (s.workers w) (countModels ys) ≤ realtimeBarMs →
      classAdmissionCost (s.workers w) (countModels xs) ≤ realtimeBarMs) ∧
    (∀ (session : Session) (hid : session.id ∉ s.sessions.map Session.id) excludeIds,
      s.pickWorker session.modelId excludeIds = some w → session.worker = some w →
      (s.place session hid).liveAdmissionCost w none [] ≤ realtimeBarMs) ∧
    (s.liveNewestFirst w).Perm (s.sessions.filter fun session =>
      session.worker = some w ∧ session.state = .live) ∧
    (s.liveNewestFirst w).Pairwise (fun x y => y.assignedAt ≤ x.assignedAt) ∧
    Prefix.Shortest (fun gone => (s.without gone).liveAdmissionCost w none [] ≤ realtimeBarMs)
      (s.liveNewestFirst w) (s.overCapacitySessions w) := by
  refine ⟨?_, ?_, ?_, ?_, World.overCapacity_shortest hmap⟩
  · intro xs ys hle hfits
    exact fits_of_le hmeasured.curvesOk hle hfits
  · intro session hid excludeIds hpick hw
    rw [World.place_cost hid hw]
    exact s.pickWorker_fits hpick hmap
  · exact List.perm_insertionSort _ _
  · have htotal : Std.Total fun x y : Session => y.assignedAt ≤ x.assignedAt :=
      ⟨fun x y => Nat.le_total _ _⟩
    have htrans : IsTrans Session fun x y => y.assignedAt ≤ x.assignedAt :=
      ⟨fun _ _ _ hxy hyz => hyz.trans hxy⟩
    exact List.pairwise_insertionSort _ _

def sampleModel : ModelId := .scalars "flux"

/-- A hello with a curve of two: a third session is over the bar. -/
def sampleHello : Members :=
  [(.scalars "realtime_p95_ms", .obj [(sampleModel, .int 200)]),
    (.scalars "realtime_batch_ms", .obj [(sampleModel, .arr [.int 200, .int 300])])]

def sampleWorker : Worker :=
  Worker.hello ⟨"w", [sampleModel], 4, 3, 5, false, true, none, none, none⟩ sampleHello

def sampleWorld : World where
  workers := fun _ => sampleWorker
  registered := [0]
  sessions := [⟨1, sampleModel, some 0, .live, 10⟩, ⟨2, sampleModel, some 0, .live, 20⟩,
    ⟨3, sampleModel, some 0, .live, 30⟩]
  now := 40
  ids := by decide

example : (sampleWorld.overCapacitySessions 0).map Session.id = [3] := by decide

theorem admission_keeps_under_bar_sample :
    (∀ xs ys : List ModelId, (xs : Multiset ModelId) ≤ ys →
      classAdmissionCost (sampleWorld.workers 0) (countModels ys) ≤ realtimeBarMs →
      classAdmissionCost (sampleWorld.workers 0) (countModels xs) ≤ realtimeBarMs) ∧
    (∀ (session : Session) (hid : session.id ∉ sampleWorld.sessions.map Session.id) excludeIds,
      sampleWorld.pickWorker session.modelId excludeIds = some 0 → session.worker = some 0 →
      (sampleWorld.place session hid).liveAdmissionCost 0 none [] ≤ realtimeBarMs) ∧
    (sampleWorld.liveNewestFirst 0).Perm (sampleWorld.sessions.filter fun session =>
      session.worker = some 0 ∧ session.state = .live) ∧
    (sampleWorld.liveNewestFirst 0).Pairwise (fun x y => y.assignedAt ≤ x.assignedAt) ∧
    Prefix.Shortest
      (fun gone => (sampleWorld.without gone).liveAdmissionCost 0 none [] ≤ realtimeBarMs)
      (sampleWorld.liveNewestFirst 0) (sampleWorld.overCapacitySessions 0) :=
  admission_keeps_under_bar (Option.some_ne_none _) (.hello _ sampleHello)

end Potocolom.Admission
