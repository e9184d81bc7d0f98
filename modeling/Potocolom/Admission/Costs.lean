import Potocolom.Protocol.Json

/-! # What a worker says its models cost

A worker's hello may carry a frame time for each model and a curve of frame times for
batches of it; a heartbeat can only raise a frame time, and drops the curve of a model
it raises. What a set of sessions costs is read from the curve where there is one, and
past its end the cost is over the bar. -/

namespace Potocolom.Admission

open Protocol (Json Members Text get? has)

/-- A model id is a key of a JSON object. -/
abbrev ModelId := Text

/-- A dict keyed by model; nothing here depends on its order. -/
abbrev ByModel (α : Type) := AList fun _ : ModelId => α

/-- `REALTIME_BAR_MS`. -/
def realtimeBarMs : Nat := 500
/-- `FRAME_P95_MAX_MS`. -/
def frameP95MaxMs : Nat := 60000
/-- The longest curve taken. -/
def maxCurve : Nat := 16

/-! ## Reading the costs -/

/-- `int(value)` of a float with these bits, if it `is_integer()`. -/
def wholeFloat (bits : BitVec 64) : Option ℤ :=
  let exponent := bits.toNat / 2 ^ 52 % 2 ^ 11
  let fraction := bits.toNat % 2 ^ 52
  if exponent = 2047 then none
  else
    let significand := if exponent = 0 then fraction else 2 ^ 52 + fraction
    let scale := max exponent 1
    let sign : ℤ := if bits.msb then -1 else 1
    if 1075 ≤ scale then some (sign * (significand * 2 ^ (scale - 1075) : Nat))
    else if significand % 2 ^ (1075 - scale) = 0 then
      some (sign * (significand / 2 ^ (1075 - scale) : Nat))
    else none

/-- A frame time: an integer or a whole float, above zero and at most the ceiling. -/
def frameTime (value : Json) : Option Nat :=
  let whole : Option ℤ :=
    match value with
    | .int n => some n
    | .float bits => wholeFloat bits
    | .null => none
    | .bool _ => none
    | .str _ => none
    | .arr _ => none
    | .obj _ => none
  match whole with
  | some n => if n ≤ 0 ∨ n > frameP95MaxMs then none else some n.toNat
  | none => none

/-- The loop of `parse_frame_p95`. -/
def parseP95Members : Members → ByModel Nat → ByModel Nat
  | [], measured => measured
  | (modelId, value) :: rest, measured =>
    match frameTime value with
    | some ms => parseP95Members rest (measured.insert modelId ms)
    | none => parseP95Members rest measured

/-- `parse_frame_p95`. -/
def parseFrameP95 : Json → Option (ByModel Nat)
  | .obj members => some (parseP95Members members ∅)
  | .null => none
  | .bool _ => none
  | .int _ => none
  | .float _ => none
  | .str _ => none
  | .arr _ => none

/-- The inner loop of `parse_batch_ms`; `none` where it breaks. -/
def parseCurve : List Json → List Nat → Option (List Nat)
  | [], curve => some curve
  | value :: rest, curve =>
    match frameTime value with
    | none => none
    | some ms =>
      match curve.getLast? with
      | some last => if ms < last then none else parseCurve rest (curve ++ [ms])
      | none => parseCurve rest [ms]

/-- One entry of `parse_batch_ms`. -/
def batchCurve : Json → Option (List Nat)
  | .arr values =>
    if values = [] ∨ values.length > maxCurve then none else parseCurve values []
  | .null => none
  | .bool _ => none
  | .int _ => none
  | .float _ => none
  | .str _ => none
  | .obj _ => none

/-- The outer loop of `parse_batch_ms`. -/
def parseBatchMembers : Members → ByModel (List Nat) → ByModel (List Nat)
  | [], measured => measured
  | (modelId, values) :: rest, measured =>
    match batchCurve values with
    | some curve => parseBatchMembers rest (measured.insert modelId curve)
    | none => parseBatchMembers rest measured

/-- `parse_batch_ms`. -/
def parseBatchMs : Json → Option (ByModel (List Nat))
  | .obj members => some (parseBatchMembers members ∅)
  | .null => none
  | .bool _ => none
  | .int _ => none
  | .float _ => none
  | .str _ => none
  | .arr _ => none

/-! ## A worker's cost model -/

structure Worker where
  id : String
  /-- The keys of `models`. -/
  models : List ModelId
  realtimeSlots : ℤ
  slotsInUse : ℤ
  protocolVersion : Nat
  /-- Whether it registered through the durable path: `incarnation is not None`. -/
  durable : Bool
  admissionReady : Bool
  grantDeadline : Option Nat
  admissionP95Ms : Option (ByModel Nat)
  admissionBatchMs : Option (ByModel (List Nat))

/-- `{… for … in items if model_id in worker.models}`. -/
def onlyModels {α : Type} (models : List ModelId) (items : ByModel α) : ByModel α :=
  ⟨items.entries.filter fun entry => entry.1 ∈ models,
    items.nodupKeys.sublist List.filter_sublist⟩

/-- The costs a hello brings. -/
def Worker.hello (worker : Worker) (hello : Members) : Worker :=
  match get? hello "realtime_p95_ms" with
  | none => { worker with admissionP95Ms := none, admissionBatchMs := none }
  | some raw =>
    { worker with
      admissionP95Ms := some (onlyModels worker.models ((parseFrameP95 raw).getD ∅))
      admissionBatchMs := (get? hello "realtime_batch_ms").map fun batch =>
        onlyModels worker.models ((parseBatchMs batch).getD ∅) }

/-- One measurement of a heartbeat. -/
def Worker.measure (worker : Worker) (modelId : ModelId) (value : Nat) : Worker :=
  match worker.admissionP95Ms with
  | none => worker
  | some p95 =>
    if modelId ∉ worker.models then worker
    else
      match p95.lookup modelId with
      | none => worker
      | some held =>
        if held < value then
          { worker with
            admissionP95Ms := some (p95.insert modelId value)
            admissionBatchMs := worker.admissionBatchMs.map fun batch => batch.erase modelId }
        else worker

/-- The costs a heartbeat brings. -/
def Worker.heartbeat (worker : Worker) (control : Members) : Worker :=
  match parseFrameP95 ((get? control "frame_p95_ms").getD .null) with
  | none => worker
  | some measured =>
    measured.entries.foldl (fun worker entry => worker.measure entry.1 entry.2) worker

/-- The cost models a worker can come to have: from a hello, by heartbeats, while the
rest of it changes in any way. -/
inductive Worker.Measured : Worker → Prop where
  | hello (worker : Worker) (hello : Members) : Measured (worker.hello hello)
  | heartbeat {worker : Worker} (control : Members) :
      Measured worker → Measured (worker.heartbeat control)
  | changed {worker worker' : Worker} : Measured worker →
      worker'.admissionP95Ms = worker.admissionP95Ms →
      worker'.admissionBatchMs = worker.admissionBatchMs → Measured worker'

/-! ## The cost of sessions -/

/-- `counts[model_id] = counts.get(model_id, 0) + 1`. -/
def countOne (counts : ByModel Nat) (modelId : ModelId) : ByModel Nat :=
  counts.insert modelId ((counts.lookup modelId).getD 0 + 1)

/-- How often each model occurs. -/
def countModels (models : List ModelId) : ByModel Nat := models.foldl countOne ∅

/-- What `class_admission_cost` adds for one model. -/
def Worker.modelCost (worker : Worker) (modelId : ModelId) (count : Nat) : Nat :=
  if count = 0 then 0
  else
    match (worker.admissionBatchMs.getD ∅).lookup modelId with
    | some curve => (curve[count - 1]?).getD (realtimeBarMs + 1)
    | none =>
      match (worker.admissionP95Ms.getD ∅).lookup modelId with
      | some p95 => count * p95
      | none => 0

/-- `class_admission_cost`. -/
def classAdmissionCost (worker : Worker) (counts : ByModel Nat) : Nat :=
  (counts.entries.map fun entry => worker.modelCost entry.1 entry.2).sum

/-! ## Curves only rise -/

variable {worker worker' : Worker}

/-- A curve as `parse_batch_ms` accepts it. -/
structure CurveOk (curve : List Nat) : Prop where
  rises : curve.Pairwise (· ≤ ·)
  bounded : ∀ ms ∈ curve, 0 < ms ∧ ms ≤ frameP95MaxMs

theorem frameTime_bounded {value : Json} {ms : Nat} (h : frameTime value = some ms) :
    0 < ms ∧ ms ≤ frameP95MaxMs := by
  unfold frameTime at h
  dsimp only at h
  split at h
  · rename_i n _
    rw [Option.ite_none_left_eq_some] at h
    obtain ⟨hrange, heq⟩ := h
    cases heq
    omega
  · cases h

theorem CurveOk.snoc {curve : List Nat} {ms : Nat} (h : CurveOk curve)
    (hms : 0 < ms ∧ ms ≤ frameP95MaxMs) (hlast : ∀ last, curve.getLast? = some last → last ≤ ms) :
    CurveOk (curve ++ [ms]) := by
  constructor
  · rw [List.pairwise_append]
    refine ⟨h.rises, List.pairwise_singleton _ _, ?_⟩
    intro a ha b hb
    rw [List.mem_singleton.1 hb]
    cases hend : curve.getLast? with
    | none =>
      rw [List.getLast?_eq_none_iff.1 hend] at ha
      cases ha
    | some last =>
      -- the last value is the highest so far
      obtain ⟨init, hcurve⟩ := List.getLast?_eq_some_iff.1 hend
      have hrises := h.rises
      rw [hcurve, List.pairwise_append] at hrises
      rw [hcurve] at ha
      rcases List.mem_append.1 ha with ha | ha
      · exact (hrises.2.2 a ha last (List.mem_singleton_self _)).trans (hlast last hend)
      · rw [List.mem_singleton.1 ha]
        exact hlast last hend
  · intro x hx
    rcases List.mem_append.1 hx with hx | hx
    · exact h.bounded x hx
    · rw [List.mem_singleton.1 hx]
      exact hms

theorem parseCurve_ok {values : List Json} {curve result : List Nat} (h : CurveOk curve)
    (hparse : parseCurve values curve = some result) : CurveOk result := by
  induction values generalizing curve with
  | nil => cases hparse; exact h
  | cons value rest ih =>
    rw [parseCurve] at hparse
    split at hparse
    · cases hparse
    · rename_i ms hms
      split at hparse
      · rename_i last hlast
        split at hparse
        · cases hparse
        · rename_i hge
          refine ih (h.snoc (frameTime_bounded hms) ?_) hparse
          intro last' hlast'
          rw [hlast] at hlast'
          cases hlast'
          omega
      · exact ih ⟨List.pairwise_singleton _ _, by simpa using frameTime_bounded hms⟩ hparse

theorem batchCurve_ok {value : Json} {curve : List Nat} (h : batchCurve value = some curve) :
    CurveOk curve := by
  cases value with
  | arr values =>
    rw [batchCurve, Option.ite_none_left_eq_some] at h
    exact parseCurve_ok ⟨List.Pairwise.nil, by simp⟩ h.2
  | null => cases h
  | bool _ => cases h
  | int _ => cases h
  | float _ => cases h
  | str _ => cases h
  | obj _ => cases h

/-- Every curve a worker holds rises. -/
def CurvesOk (batch : ByModel (List Nat)) : Prop :=
  ∀ m curve, batch.lookup m = some curve → CurveOk curve

theorem curvesOk_empty : CurvesOk ∅ := by
  intro m curve h
  simp at h

theorem parseBatchMembers_ok {members : Members} {measured : ByModel (List Nat)}
    (h : CurvesOk measured) : CurvesOk (parseBatchMembers members measured) := by
  induction members generalizing measured with
  | nil => exact h
  | cons entry rest ih =>
    obtain ⟨modelId, values⟩ := entry
    rw [parseBatchMembers]
    split
    · rename_i curve hcurve
      apply ih
      intro m curve' hlookup
      by_cases hm : m = modelId
      · subst hm
        rw [AList.lookup_insert] at hlookup
        cases hlookup
        exact batchCurve_ok hcurve
      · rw [AList.lookup_insert_ne hm] at hlookup
        exact h m curve' hlookup
    · exact ih h

theorem parseBatchMs_ok (raw : Json) : CurvesOk ((parseBatchMs raw).getD ∅) := by
  cases raw with
  | obj members => exact parseBatchMembers_ok curvesOk_empty
  | null => exact curvesOk_empty
  | bool _ => exact curvesOk_empty
  | int _ => exact curvesOk_empty
  | float _ => exact curvesOk_empty
  | str _ => exact curvesOk_empty
  | arr _ => exact curvesOk_empty

theorem CurvesOk.onlyModels {batch : ByModel (List Nat)} (h : CurvesOk batch)
    (models : List ModelId) : CurvesOk (onlyModels models batch) := by
  intro m curve hlookup
  have hmem := AList.mem_lookup_iff.1 hlookup
  exact h m curve (AList.mem_lookup_iff.2 (List.mem_of_mem_filter hmem))

theorem CurvesOk.erase {batch : ByModel (List Nat)} (h : CurvesOk batch) (modelId : ModelId) :
    CurvesOk (batch.erase modelId) := by
  intro m curve hlookup
  by_cases hm : m = modelId
  · subst hm
    simp at hlookup
  · rw [AList.lookup_erase_ne hm] at hlookup
    exact h m curve hlookup

theorem CurvesOk.measure (h : CurvesOk (worker.admissionBatchMs.getD ∅)) (modelId : ModelId)
    (value : Nat) : CurvesOk ((worker.measure modelId value).admissionBatchMs.getD ∅) := by
  unfold Worker.measure
  split
  · exact h
  · split
    · exact h
    · split
      · exact h
      · split
        · cases hbatch : worker.admissionBatchMs with
          | none => exact curvesOk_empty
          | some batch =>
            rw [hbatch] at h
            have hbatches : CurvesOk batch := h
            exact hbatches.erase modelId
        · exact h

theorem CurvesOk.measures (entries : List (Sigma fun _ : ModelId => Nat))
    (h : CurvesOk (worker.admissionBatchMs.getD ∅)) :
    CurvesOk ((entries.foldl (fun worker entry => worker.measure entry.1 entry.2)
      worker).admissionBatchMs.getD ∅) := by
  induction entries generalizing worker with
  | nil => exact h
  | cons entry rest ih => exact ih (h.measure entry.1 entry.2)

/-- A worker's curves rise whatever it sent. -/
theorem Worker.Measured.curvesOk (h : worker.Measured) :
    CurvesOk (worker.admissionBatchMs.getD ∅) := by
  induction h with
  | hello worker hello =>
    unfold Worker.hello
    split
    · exact curvesOk_empty
    · cases get? hello "realtime_batch_ms" with
      | none => exact curvesOk_empty
      | some batch => exact (parseBatchMs_ok batch).onlyModels worker.models
  | heartbeat control _ ih =>
    unfold Worker.heartbeat
    split
    · exact ih
    · exact CurvesOk.measures _ ih
  | changed _ _ hbatch ih => rwa [hbatch]

/-! ## Fitting is downward closed -/

theorem lookup_countModels_aux (models : List ModelId) (counts : ByModel Nat) (m : ModelId) :
    ((models.foldl countOne counts).lookup m).getD 0 = (counts.lookup m).getD 0 + models.count m := by
  induction models generalizing counts with
  | nil => simp
  | cons model models ih =>
    rw [List.foldl_cons, ih, countOne]
    by_cases hm : m = model
    · subst hm
      rw [AList.lookup_insert, List.count_cons_self]
      simp only [Option.getD_some]
      omega
    · rw [AList.lookup_insert_ne hm, List.count_cons_of_ne (Ne.symm hm)]

theorem lookup_countModels (models : List ModelId) (m : ModelId) :
    ((countModels models).lookup m).getD 0 = models.count m := by
  rw [countModels, lookup_countModels_aux]
  simp

theorem keys_countModels_aux (models : List ModelId) (counts : ByModel Nat) :
    (models.foldl countOne counts).keys.toFinset = counts.keys.toFinset ∪ models.toFinset := by
  induction models generalizing counts with
  | nil => simp
  | cons model models ih =>
    rw [List.foldl_cons, ih, countOne]
    ext m
    simp only [Finset.mem_union, List.mem_toFinset, List.mem_cons, ← AList.mem_keys,
      AList.mem_insert]
    tauto

theorem keys_countModels (models : List ModelId) :
    (countModels models).keys.toFinset = models.toFinset := by
  rw [countModels, keys_countModels_aux]
  simp

/-- The cost of counted sessions is a sum over the models that occur. -/
theorem cost_countModels (models : List ModelId) :
    classAdmissionCost worker (countModels models) =
      ∑ m ∈ models.toFinset, worker.modelCost m (models.count m) := by
  have hentries : (countModels models).entries.map
      (fun entry => worker.modelCost entry.1 entry.2) =
        (countModels models).keys.map fun m => worker.modelCost m (models.count m) := by
    unfold AList.keys List.keys
    rw [List.map_map]
    refine List.map_congr_left fun entry hentry => ?_
    have hlookup : (countModels models).lookup entry.1 = some entry.2 :=
      AList.mem_lookup_iff.2 hentry
    have hcount := lookup_countModels models entry.1
    rw [hlookup] at hcount
    simp only [Function.comp_apply, ← hcount, Option.getD_some]
  rw [classAdmissionCost, hentries, ← keys_countModels,
    List.sum_toFinset _ (countModels models).keys_nodup]

/-- Fewer sessions of a model cost no more, as long as the more of them fit: past the end
of its curve the cost is over the bar. -/
theorem modelCost_mono {m : ModelId} {n k : Nat} (h : CurvesOk (worker.admissionBatchMs.getD ∅))
    (hnk : n ≤ k) (hfits : worker.modelCost m k ≤ realtimeBarMs) :
    worker.modelCost m n ≤ worker.modelCost m k := by
  unfold Worker.modelCost at hfits ⊢
  rcases Nat.eq_zero_or_pos n with hn | hn
  · rw [if_pos hn]
    exact Nat.zero_le _
  · rw [if_neg (by omega)] at hfits ⊢
    rw [if_neg (by omega)]
    cases hbatch : (worker.admissionBatchMs.getD ∅).lookup m with
    | some curve =>
      rw [hbatch] at hfits
      dsimp only at hfits ⊢
      rcases Nat.lt_or_ge (k - 1) curve.length with hk | hk
      · rw [List.getElem?_eq_getElem hk, List.getElem?_eq_getElem (by omega)]
        have hrises := List.pairwise_iff_getElem.1 (h m curve hbatch).rises
        rcases Nat.lt_or_eq_of_le hnk with hlt | rfl
        · exact hrises (n - 1) (k - 1) (by omega) hk (by omega)
        · exact le_refl _
      · rw [List.getElem?_eq_none hk, Option.getD_none] at hfits
        omega
    | none =>
      cases (worker.admissionP95Ms.getD ∅).lookup m with
      | some p95 => exact Nat.mul_le_mul_right p95 hnk
      | none => exact le_refl _

/-- Part of what fits, fits. -/
theorem fits_of_le {xs ys : List ModelId} (h : CurvesOk (worker.admissionBatchMs.getD ∅))
    (hle : (xs : Multiset ModelId) ≤ ys)
    (hfits : classAdmissionCost worker (countModels ys) ≤ realtimeBarMs) :
    classAdmissionCost worker (countModels xs) ≤ realtimeBarMs := by
  rw [cost_countModels] at hfits ⊢
  have hcount : ∀ m, xs.count m ≤ ys.count m := by
    intro m
    have := Multiset.le_iff_count.1 hle m
    rwa [Multiset.coe_count, Multiset.coe_count] at this
  have hsubset : xs.toFinset ⊆ ys.toFinset := by
    intro m hm
    rw [List.mem_toFinset, ← List.count_pos_iff] at hm ⊢
    have := hcount m
    omega
  calc ∑ m ∈ xs.toFinset, worker.modelCost m (xs.count m)
      ≤ ∑ m ∈ xs.toFinset, worker.modelCost m (ys.count m) := by
        refine Finset.sum_le_sum fun m hm => modelCost_mono h (hcount m) ?_
        -- each model fits by itself, since all of them together do
        exact (Finset.single_le_sum (f := fun m => worker.modelCost m (ys.count m))
          (fun _ _ => Nat.zero_le _) (hsubset hm)).trans hfits
    _ ≤ ∑ m ∈ ys.toFinset, worker.modelCost m (ys.count m) :=
        Finset.sum_le_sum_of_subset hsubset
    _ ≤ realtimeBarMs := hfits

end Potocolom.Admission
