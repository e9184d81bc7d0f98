import Potocolom.Engine.Ladder
import Potocolom.Lib.Ordered

/-! # The calibration of realtime models

`calibrate_realtime` of `engine.py`: a single-frame measurement, then the batch curve. The two
tables, the derived number of slots and the models to retry are the state; what the GPU and
the memory ladder answer during a call is part of the call. -/

namespace Potocolom.Engine

/-- What the engine has measured. -/
structure Measurements where
  realtimeP95Ms : Ordered String Int
  realtimeBatchMs : Ordered String (List Int)
  calibratedSlots : Option Int
  calibrationCap : Int
  calibrationRetryModels : Finset String
  calibrationFailed : Bool

/-- A call, with what it meets. -/
structure Call where
  modelId : String
  configured : Int
  /-- `realtime` is one of the capabilities of the model. -/
  realtime : Bool
  /-- The engine runs on CUDA, in memory mode `auto`. -/
  onCuda : Bool
  auto : Bool
  /-- The cached rung, else the predicted one. -/
  expected : MemoryRung
  /-- The cached rung after `_ensure_vram`; `none` when that raised. -/
  ensured : Option (Option MemoryRung)
  /-- The times of the frames after the discarded one; `none` when a frame raised. -/
  frames : Option (List ℚ)
  /-- The cached rung after the frames. -/
  loaded : Option MemoryRung
  /-- Whether the inputs of the batch phase could be made. -/
  batchInputs : Bool
  /-- The wall times of each number of sessions; `none` when a frame raised. -/
  walls : Nat → Option (List ℚ)

namespace Measurements

def fresh : Measurements := ⟨∅, ∅, none, 0, ∅, false⟩

/-- What a model with a p95 contributes to the minimum. -/
def allows (s : Measurements) (modelId : String) (p95 : Int) : Int :=
  match s.realtimeBatchMs.get modelId with
  | some curve => slotsFromBatchCurve curve s.calibrationCap
  | none => slotsFromFrameMs p95 s.calibrationCap

def leastSlots (s : Measurements) : Int :=
  match s.realtimeP95Ms.items.map fun item => s.allows item.1 item.2 with
  | [] => 0
  | slots :: rest => rest.foldl min slots

def recomputeCalibratedSlots (s : Measurements) : Measurements :=
  { s with calibratedSlots := some s.leastSlots }

def deferCalibration (s : Measurements) (modelId : String) : Measurements :=
  { s with
    calibrationFailed := true
    calibrationRetryModels := insert modelId s.calibrationRetryModels }

def popP95 (s : Measurements) (modelId : String) : Measurements :=
  { s with realtimeP95Ms := s.realtimeP95Ms.erase modelId }

def popBatch (s : Measurements) (modelId : String) : Measurements :=
  { s with realtimeBatchMs := s.realtimeBatchMs.erase modelId }

/-- The exits that leave a model without a measurement. -/
def skip (s : Measurements) (modelId : String) : Measurements :=
  ((s.popP95 modelId).popBatch modelId).recomputeCalibratedSlots

/-- `_calibrate_realtime`: whether it returned. Its result is computed again by the caller. -/
def calibrateFrames (s : Measurements) (c : Call) : Measurements × Bool :=
  let s := { s with calibrationCap := c.configured }
  if c.onCuda = false then (s.skip c.modelId, true)
  else if c.configured ≤ 0 ∨ c.realtime = false then (s.skip c.modelId, true)
  else if c.expected ≠ .full then
    ((if c.auto then s.deferCalibration c.modelId else s).skip c.modelId, true)
  else
    match c.ensured with
    | none => (s, false)
    | some selected =>
      if selected ≠ some .full then
        ((s.popP95 c.modelId).deferCalibration c.modelId, true)
      else
        match c.frames with
        | none => (s, false)
        | some samples =>
          if c.loaded ≠ some .full then ((s.deferCalibration c.modelId).skip c.modelId, true)
          else
            ({ s with realtimeP95Ms := s.realtimeP95Ms.put c.modelId (p95Of samples)
              }.recomputeCalibratedSlots, true)

/-- The loop of `_calibrate_batch_curve`; `none` when a measurement raised. -/
def extendCurve (walls : Nat → Option (List ℚ)) : List Nat → List Int → Option (List Int)
  | [], curve => some curve
  | count :: rest, curve =>
    match walls count with
    | none => none
    | some samples =>
      let wall := p95Of samples
      if realtimeBarMs < wall then some curve
      else
        let last := curve.getLastD wall
        extendCurve walls rest (curve ++ [if wall < last then last else wall])

/-- `range(2, configured + 1)`. -/
def counts (configured : Int) : List Nat := List.range' 2 (configured - 1).toNat

/-- `_calibrate_batch_curve`; `none` when it raised. -/
def calibrateBatchCurve (s : Measurements) (c : Call) : Option Measurements :=
  match s.realtimeP95Ms.get c.modelId with
  | none => some (s.popBatch c.modelId).recomputeCalibratedSlots
  | some p95 =>
    if c.configured < 2 then some (s.popBatch c.modelId).recomputeCalibratedSlots
    else if c.batchInputs = false then none
    else (extendCurve c.walls (counts c.configured) [p95]).map fun curve =>
      { s with realtimeBatchMs := s.realtimeBatchMs.put c.modelId curve }.recomputeCalibratedSlots

def calibrateRealtime (s : Measurements) (c : Call) : Measurements :=
  let (s, returned) := { s with calibrationCap := c.configured }.calibrateFrames c
  if returned = false then (s.skip c.modelId).deferCalibration c.modelId
  else
    let s := if (s.realtimeP95Ms.get c.modelId).isSome then
      { s with calibrationRetryModels := s.calibrationRetryModels.erase c.modelId } else s
    let slots := s.leastSlots
    let s := s.recomputeCalibratedSlots
    if slots ≤ 0 then s.popBatch c.modelId
    else
      match s.calibrateBatchCurve c with
      | some s => s
      | none => ((s.popBatch c.modelId).recomputeCalibratedSlots).deferCalibration c.modelId

/-- The states after each of the calls. -/
def calibrations (s : Measurements) (calls : List Call) : Measurements :=
  calls.foldl calibrateRealtime s

end Measurements

end Potocolom.Engine
