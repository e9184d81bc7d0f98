import Potocolom.Drawing.File
import Potocolom.Lib.Machine

/-! # The drawing document

The document paints every operation at once and keeps it in a journal. Undo and redo paint the
journal again, from the last checkpoint that is still part of it: every so many operations the
canvas is saved as an image, which takes two callbacks. -/

namespace Potocolom.Drawing

/-! ## Painting -/

structure Pixel where
  red : UInt8
  green : UInt8
  blue : UInt8
deriving DecidableEq

/-- The pixels of an opaque canvas. -/
abbrev Canvas (size : Nat) := Fin size → Pixel

/-- What the browser supplies: the paths of a 2D context that are filled or stroked, and the
text of the numbers that are not written as integers. -/
structure Browser (size : Nat) where
  fillArc (color : String) (x y radius : ℚ) : Canvas size → Canvas size
  strokeLine (color : String) (lineWidth startX startY endX endY : ℚ) : Canvas size → Canvas size
  strokeRect (color : String) (lineWidth left top width height : ℚ) : Canvas size → Canvas size
  strokeEllipse (color : String) (lineWidth centerX centerY radiusX radiusY : ℚ) :
    Canvas size → Canvas size
  fillPolygon (color : String) (points : List (ℚ × ℚ)) : Canvas size → Canvas size
  fraction : ℚ → String

variable {size : Nat}

def strokePointWidth (size : ℚ) (pressure : Option ℚ) : ℚ :=
  match pressure with
  | none => size
  | some pressure => size * (1 / 4 + 3 / 4 * pressure)

/-- The canvas filled with `PAPER`. -/
def paintPaper : Canvas size := fun _ => ⟨255, 255, 255⟩

def paintDot (browser : Browser size) (operation : StrokeOperation) (point : DrawingPoint) :
    Canvas size → Canvas size :=
  browser.fillArc operation.color point.x point.y
    (strokePointWidth operation.size point.pressure / 2)

def paintSegment (browser : Browser size) (operation : StrokeOperation)
    (start stop : DrawingPoint) : Canvas size → Canvas size :=
  browser.strokeLine operation.color (strokePointWidth operation.size start.pressure)
    start.x start.y stop.x stop.y

def paintShape (browser : Browser size) (operation : ShapeOperation) :
    Canvas size → Canvas size :=
  let (start, stop) := operation.points
  if start.x = stop.x ∧ start.y = stop.y then
    browser.fillArc operation.color start.x start.y (operation.size / 2)
  else
    match operation.shape with
    | .line =>
      browser.strokeLine operation.color operation.size start.x start.y stop.x stop.y
    | .rectangle =>
      browser.strokeRect operation.color operation.size (min start.x stop.x)
        (min start.y stop.y) |stop.x - start.x| |stop.y - start.y|
    | .ellipse =>
      browser.strokeEllipse operation.color operation.size ((start.x + stop.x) / 2)
        ((start.y + stop.y) / 2) (|stop.x - start.x| / 2) (|stop.y - start.y| / 2)

def paintEraseRegion (browser : Browser size) (points : List DrawingPoint) :
    Canvas size → Canvas size :=
  browser.fillPolygon PAPER (points.map fun point => (point.x, point.y))

/-- The segments from a point through the ones that follow it. -/
def paintSegments (browser : Browser size) (operation : StrokeOperation) :
    DrawingPoint → List DrawingPoint → Canvas size → Canvas size
  | _, [], canvas => canvas
  | start, stop :: rest, canvas =>
    paintSegments browser operation stop rest (paintSegment browser operation start stop canvas)

def paintStroke (browser : Browser size) (operation : StrokeOperation) (canvas : Canvas size) :
    Canvas size :=
  match operation.points with
  | [] => canvas
  | point :: rest =>
    paintSegments browser operation point rest (paintDot browser operation point canvas)

def paintOperation (browser : Browser size) (operation : Operation) (canvas : Canvas size) :
    Canvas size :=
  match operation with
  | .clear _ => paintPaper
  | .shape operation => paintShape browser operation canvas
  | .eraseRegion _ points => paintEraseRegion browser points canvas
  | .stroke operation => paintStroke browser operation canvas

/-- The operations painted in order. -/
def paintOperations (browser : Browser size) (operations : List Operation)
    (canvas : Canvas size) : Canvas size :=
  operations.foldl (fun canvas operation => paintOperation browser operation canvas) canvas

/-- The loop of `updateBlank` over the pixels. -/
def isPaper (canvas : Canvas size) : Bool :=
  decide (∀ i, ¬ ((canvas i).red ≠ 255 ∨ (canvas i).green ≠ 255 ∨ (canvas i).blue ≠ 255))

/-! ## The state -/

/-- A gesture; a shape keeps the canvas as it was before. -/
structure Active (size : Nat) where
  pointerId : Int
  operation : StrokeOperation ⊕ ShapeOperation
  snapshot : Option (Canvas size)

structure Checkpoint (size : Nat) where
  prefixLength : Nat
  lastId : String
  image : Canvas size

/-- A snapshot that `toBlob` has taken: the variables its callback closed over, and whether the
callback awaits `createImageBitmap` by now. -/
structure Callback (size : Nat) where
  generation : Nat
  checkpoint : Checkpoint size
  decoding : Bool

structure Document (size : Nat) where
  canvas : Canvas size
  operations : List Operation
  checkpoints : List (Checkpoint size)
  checkpointPending : Bool
  generation : Nat
  cursor : Nat
  active : Option (Active size)
  blank : Bool
  destroyed : Bool
  callbacks : List (Callback size)
  /-- The ids that were handed out or restored. -/
  issued : List String

def CHECKPOINT_INTERVAL : Nat := 16

def MAX_CHECKPOINTS : Nat := 4

namespace Document

/-! ## Checkpoints -/

/-- `this.operations[prefix - 1]?.id === lastId` -/
def prefixIsCurrent (d : Document size) (checkpoint : Checkpoint size) : Bool :=
  match checkpoint.prefixLength with
  | 0 => false
  | last + 1 => (d.operations[last]?).map Operation.id = some checkpoint.lastId

def eligible (d : Document size) (checkpoint : Checkpoint size) : Bool :=
  checkpoint.prefixLength ≤ d.cursor && d.prefixIsCurrent checkpoint

/-- The longest of the checkpoints that may be used, the first one of them. -/
def bestCheckpoint (d : Document size) : Option (Checkpoint size) :=
  d.checkpoints.foldl (fun best checkpoint =>
    if d.eligible checkpoint then
      match best with
      | none => some checkpoint
      | some longest =>
        if longest.prefixLength < checkpoint.prefixLength then some checkpoint else best
    else best) none

def pruneCheckpoints (d : Document size) : Document size :=
  { d with checkpoints := d.checkpoints.filter d.prefixIsCurrent }

def invalidateCheckpoints (d : Document size) : Document size := { d with checkpoints := [] }

/-- The snapshot is taken at once, its callbacks come later. -/
def scheduleCheckpoint (d : Document size) : Document size :=
  if d.destroyed || d.checkpointPending || d.cursor % CHECKPOINT_INTERVAL != 0 then d
  else
    match d.operations[d.cursor - 1]? with
    -- an operation has just been appended
    | none => d
    | some last =>
      { d with
        checkpointPending := true
        callbacks := d.callbacks ++ [⟨d.generation, ⟨d.cursor, last.id, d.canvas⟩, false⟩] }

/-- What the callback checks before and after it decodes the image. -/
def stale (d : Document size) (callback : Callback size) : Bool :=
  d.destroyed || callback.generation != d.generation || !d.prefixIsCurrent callback.checkpoint

/-- The callback ends. -/
def settle (d : Document size) (k : Nat) : Document size :=
  { d with callbacks := d.callbacks.eraseIdx k, checkpointPending := false }

/-- A checkpoint takes the place of the one as long, and the shortest ones make room. -/
def cache (d : Document size) (checkpoint : Checkpoint size) : Document size :=
  let others := d.checkpoints.eraseP fun other => other.prefixLength == checkpoint.prefixLength
  let sorted := (others ++ [checkpoint]).mergeSort fun left right =>
    left.prefixLength ≤ right.prefixLength
  { d with checkpoints := sorted.drop (sorted.length - MAX_CHECKPOINTS) }

/-- `toBlob` calls back, with a blob or without. -/
def blobReady (d : Document size) (k : Nat) (callback : Callback size) (blob : Bool) :
    Document size :=
  if !blob || d.stale callback then d.settle k
  else { d with callbacks := d.callbacks.set k { callback with decoding := true } }

/-- `createImageBitmap` resolves or fails. -/
def bitmapReady (d : Document size) (k : Nat) (callback : Callback size) (decoded : Bool) :
    Document size :=
  if !decoded || d.stale callback then d.settle k
  else (d.cache callback.checkpoint).settle k

/-! ## The methods -/

def updateBlank (d : Document size) : Document size := { d with blank := isPaper d.canvas }

/-- The getter `isBlank`, which reads the pixels back while a gesture is active. -/
def isBlank (d : Document size) : Document size × Bool :=
  let d := if d.active.isSome then d.updateBlank else d
  (d, d.blank)

def canUndo (d : Document size) : Bool := d.cursor > 0 || d.active.isSome

def canRedo (d : Document size) : Bool := d.active.isNone && d.cursor < d.operations.length

def append (d : Document size) (operation : Operation) : Document size :=
  let operations := d.operations.take d.cursor ++ [operation]
  pruneCheckpoints { d with operations := operations, cursor := operations.length }

def render (browser : Browser size) (d : Document size) : Document size :=
  if d.destroyed then d
  else
    let (start, canvas) :=
      match d.bestCheckpoint with
      | some checkpoint => (checkpoint.prefixLength, checkpoint.image)
      | none => (0, paintPaper)
    updateBlank
      { d with canvas := paintOperations browser ((d.operations.take d.cursor).drop start) canvas }

def serialize (browser : Browser size) (d : Document size) : Except String DrawingFile := do
  let file : DrawingFile := ⟨d.operations, d.cursor⟩
  let _ ← validateDrawingFile browser.fraction file.toJson
  return file

/-- `restore`, with the error it throws. -/
def restore (browser : Browser size) (d : Document size) (input : Json) :
    Document size × Option String :=
  match validateDrawingFile browser.fraction input with
  | .error message => (d, some message)
  | .ok validated =>
    if d.destroyed then (d, none)
    else
      (render browser { d.invalidateCheckpoints with
        generation := d.generation + 1
        active := none
        operations := validated.operations
        cursor := validated.cursor
        issued := validated.operations.map Operation.id ++ d.issued }, none)

/-- `beginStroke`, for the id that is handed out and whether a second canvas has a context. -/
def beginStroke (browser : Browser size) (d : Document size) (pointerId : Int)
    (style : GestureStyle) (point : DrawingPoint) (id : String) (snapshotContext : Bool) :
    Document size × Bool :=
  if d.destroyed || d.active.isSome then (d, false)
  else
    let stroke (mode : Mode) (color : String) : Document size × Bool :=
      let operation : StrokeOperation := ⟨id, mode, color, style.size, [point]⟩
      ({ d with
        active := some ⟨pointerId, .inl operation, none⟩
        canvas := paintDot browser operation point d.canvas
        issued := id :: d.issued }, true)
    let drag (shape : Shape) : Document size × Bool :=
      if snapshotContext then
        let operation : ShapeOperation :=
          ⟨id, shape, style.color, style.size, (shapePoint point, shapePoint point)⟩
        ({ d with
          active := some ⟨pointerId, .inr operation, some d.canvas⟩
          canvas := paintShape browser operation d.canvas
          issued := id :: d.issued }, true)
      else (d, false)
    match style.tool with
    | .draw => stroke .draw style.color
    | .erase => stroke .erase PAPER
    | .line => drag .line
    | .rectangle => drag .rectangle
    | .ellipse => drag .ellipse

def extendStroke (browser : Browser size) (d : Document size) (pointerId : Int)
    (point : DrawingPoint) : Document size × Bool :=
  match d.active with
  | none => (d, false)
  | some active =>
    if d.destroyed || active.pointerId != pointerId then (d, false)
    else
      match active.operation with
      | .inr operation =>
        match active.snapshot with
        | none => (d, false)
        | some snapshot =>
          let operation := { operation with points := (operation.points.1, shapePoint point) }
          ({ d with
            active := some { active with operation := .inr operation }
            canvas := paintShape browser operation snapshot }, true)
      | .inl operation =>
        match operation.points.getLast? with
        -- a stroke begins with a point
        | none => (d, false)
        | some last =>
          let extended := { operation with points := operation.points ++ [point] }
          ({ d with
            active := some { active with operation := .inl extended }
            canvas := paintSegment browser operation last point d.canvas }, true)

/-- The operation of a gesture, as the journal keeps it. -/
def gesture : StrokeOperation ⊕ ShapeOperation → Operation
  | .inl operation => .stroke operation
  | .inr operation => .shape operation

def finishStroke (d : Document size) (pointerId : Option Int) : Document size × Bool :=
  match d.active with
  | none => (d, false)
  | some active =>
    if d.destroyed || pointerId.any fun id => active.pointerId != id then (d, false)
    else
      let d := append { d with active := none } (gesture active.operation)
      (d.updateBlank.scheduleCheckpoint, true)

def undo (browser : Browser size) (d : Document size) : Document size × Bool :=
  if d.destroyed then (d, false)
  else
    let d := (d.finishStroke none).1
    if d.cursor = 0 then (d, false)
    else (render browser { d with cursor := d.cursor - 1 }, true)

def redo (browser : Browser size) (d : Document size) : Document size × Bool :=
  if d.destroyed then (d, false)
  else
    let d := (d.finishStroke none).1
    if d.cursor ≥ d.operations.length then (d, false)
    else (render browser { d with cursor := d.cursor + 1 }, true)

def clear (d : Document size) (id : String) : Document size × Bool :=
  if d.destroyed then (d, false)
  else
    let d := (d.finishStroke none).1
    if d.blank then (d, false)
    else
      let d := append { d with issued := id :: d.issued } (.clear id)
      (scheduleCheckpoint { d with canvas := paintPaper, blank := true }, true)

def eraseRegion (browser : Browser size) (d : Document size) (points : List DrawingPoint)
    (id : String) : Document size × Bool :=
  if d.destroyed || d.active.isSome then (d, false)
  else if points.length < 3 || points.length > 512 then (d, false)
  else
    let d := append { d with issued := id :: d.issued } (.eraseRegion id points)
    (scheduleCheckpoint (updateBlank
      { d with canvas := paintEraseRegion browser points d.canvas }), true)

def destroy (d : Document size) : Document size :=
  if d.destroyed then d
  else
    { d.invalidateCheckpoints with
      destroyed := true
      generation := d.generation + 1
      active := none
      operations := []
      cursor := 0 }

end Document

/-! ## The machine -/

/-- The constructor. -/
def newDocument : Document size where
  canvas := paintPaper
  operations := []
  checkpoints := []
  checkpointPending := false
  generation := 0
  cursor := 0
  active := none
  blank := true
  destroyed := false
  callbacks := []
  issued := []

/-- The four numbers an id is drawn from. -/
structure Draw where
  a : UInt32
  b : UInt32
  c : UInt32
  d : UInt32

def Draw.id (draw : Draw) : String := newOperationId draw.a draw.b draw.c draw.d

inductive Label where
  | isBlank
  | beginStroke (pointerId : Int) (style : GestureStyle) (point : DrawingPoint) (draw : Draw)
    (snapshotContext : Bool)
  | extendStroke (pointerId : Int) (point : DrawingPoint)
  | finishStroke (pointerId : Option Int)
  | undo
  | redo
  | clear (draw : Draw)
  | eraseRegion (points : List DrawingPoint) (draw : Draw)
  | restore (input : Json)
  | destroy
  | blobReady (k : Nat) (blob : Bool)
  | bitmapReady (k : Nat) (decoded : Bool)

/-- The calls and the callbacks. No id is drawn twice. -/
def step (browser : Browser size) (d : Document size) : Label → Option (Document size)
  | .isBlank => some d.isBlank.1
  | .beginStroke pointerId style point draw snapshotContext =>
    if draw.id ∈ d.issued then none
    else some (d.beginStroke browser pointerId style point draw.id snapshotContext).1
  | .extendStroke pointerId point => some (d.extendStroke browser pointerId point).1
  | .finishStroke pointerId => some (d.finishStroke pointerId).1
  | .undo => some (d.undo browser).1
  | .redo => some (d.redo browser).1
  | .clear draw => if draw.id ∈ d.issued then none else some (d.clear draw.id).1
  | .eraseRegion points draw =>
    if draw.id ∈ d.issued then none else some (d.eraseRegion browser points draw.id).1
  | .restore input => some (d.restore browser input).1
  | .destroy => some d.destroy
  | .blobReady k blob =>
    match d.callbacks[k]? with
    | some callback => if callback.decoding then none else some (d.blobReady k callback blob)
    | none => none
  | .bitmapReady k decoded =>
    match d.callbacks[k]? with
    | some callback => if callback.decoding then some (d.bitmapReady k callback decoded) else none
    | none => none

def machine (browser : Browser size) : Machine (Document size) Label where
  init d := d = newDocument
  step := step browser

end Potocolom.Drawing
