import Potocolom.Drawing.Reached

/-! # Saving a drawing and reading it back

Whatever is drawn can be saved and read back, except for an erased region whose points have a
pressure: the region keeps them as they are given, and the reader refuses pressure on them. -/

namespace Potocolom.Drawing

open Guard Json

variable {size : Nat} {browser : Browser size} {d d' : Document size}

/-! ## What is drawn -/

/-- An operation as the document builds it: the points of a region may have a pressure. -/
def Operation.Sketched : Operation → Prop
  | .eraseRegion id points =>
    ValidId id ∧ 3 ≤ points.length ∧ points.length ≤ 512 ∧ ∀ point ∈ points, point.Valid true
  | operation => operation.Valid

theorem Operation.Valid.sketched {operation : Operation} (h : operation.Valid) :
    operation.Sketched := by
  cases operation with
  | eraseRegion id points =>
    obtain ⟨hid, hfew, hmany, hpoints⟩ := h
    exact ⟨hid, hfew, hmany, fun point hpoint => (hpoints point hpoint).mono⟩
  | _ => exact h

/-- Regions without pressure are valid. -/
theorem Operation.Sketched.valid {operation : Operation} (h : operation.Sketched)
    (hpressure : ∀ id points, operation = .eraseRegion id points →
      ∀ point ∈ points, point.pressure = none) : operation.Valid := by
  cases operation with
  | eraseRegion id points =>
    obtain ⟨hid, hfew, hmany, hpoints⟩ := h
    refine ⟨hid, hfew, hmany, fun point hpoint => ?_⟩
    refine ⟨(hpoints point hpoint).x, (hpoints point hpoint).y, fun pressure hsome => ?_⟩
    rw [hpressure id points rfl point hpoint] at hsome
    cases hsome
  | _ => exact h

/-- The styles and the points of a call are ones that a file may hold. -/
def Within (_ : Document size) : Label → Prop
  | .beginStroke _ style point _ _ =>
    isHexColor style.color = true ∧ ValidSize style.size ∧ point.Valid true
  | .extendStroke _ point => point.Valid true
  | .eraseRegion points _ => ∀ point ∈ points, point.Valid true
  | _ => True

structure Sketch (d : Document size) : Prop where
  operations : ∀ operation ∈ d.operations, operation.Sketched
  active : ∀ active ∈ d.active, (Document.gesture active.operation).Valid

theorem Sketch.same (h : Sketch d) (hoperations : d'.operations = d.operations)
    (hactive : d'.active = d.active) : Sketch d' := by
  constructor
  · rw [hoperations]
    exact h.operations
  · rw [hactive]
    exact h.active

/-- No gesture is active. -/
theorem Sketch.of_none (hoperations : ∀ operation ∈ d.operations, operation.Sketched)
    (hactive : d.active = none) : Sketch d := by
  refine ⟨hoperations, fun active hsome => ?_⟩
  rw [hactive] at hsome
  cases hsome

@[simp] theorem schedule_operations : d.scheduleCheckpoint.operations = d.operations := by
  rcases schedule_cases (d := d) with heq | ⟨last, -, heq⟩
  · rw [heq]
  · rw [heq]

@[simp] theorem render_operations : (d.render browser).operations = d.operations := by
  unfold Document.render
  split
  · rfl
  · rfl

@[simp] theorem render_keeps_active : (d.render browser).active = d.active := by
  unfold Document.render
  split
  · rfl
  · rfl

theorem append_sketched {operation : Operation} (h : Sketch d) (hnew : operation.Sketched) :
    ∀ other ∈ (d.append operation).operations, other.Sketched := by
  intro other hother
  rw [append_operations, List.mem_append, List.mem_singleton] at hother
  rcases hother with hother | rfl
  · exact h.operations other (List.mem_of_mem_take hother)
  · exact hnew

theorem validId_draw (draw : Draw) : ValidId draw.id :=
  ⟨length_newOperationId _ _ _ _, isOperationId_new _ _ _ _⟩

theorem shapePoint_valid {point : DrawingPoint} (h : point.Valid true) :
    (shapePoint point).Valid false := by
  refine ⟨h.x, h.y, fun pressure hsome => ?_⟩
  cases hsome

theorem finish_sketch (h : Sketch d) (pointerId : Option Int) :
    Sketch (d.finishStroke pointerId).1 := by
  unfold Document.finishStroke
  cases hactive : d.active with
  | none => exact h
  | some active =>
    dsimp only
    split
    · exact h
    · apply Sketch.of_none
      · rw [schedule_operations]
        have hnone : Sketch { d with active := none } := .of_none h.operations rfl
        exact append_sketched hnone (h.active active hactive).sketched
      · rw [schedule_active]
        rfl

theorem begin_sketch (h : Sketch d) {pointerId : Int} {style : GestureStyle}
    {point : DrawingPoint} {draw : Draw} {snapshotContext : Bool}
    (hwithin : Within d (.beginStroke pointerId style point draw snapshotContext)) :
    Sketch (d.beginStroke browser pointerId style point draw.id snapshotContext).1 := by
  obtain ⟨hcolor, hsize, hpoint⟩ := hwithin
  have hstroke : ∀ mode color canvas issued, isHexColor color = true →
      (mode = .erase → color.toLower = PAPER) → Sketch { d with
        active := some ⟨pointerId, .inl ⟨draw.id, mode, color, style.size, [point]⟩, none⟩
        canvas := canvas
        issued := issued } := by
    intro mode color canvas issued hhex herase
    refine ⟨h.operations, fun active hsome => ?_⟩
    cases hsome
    refine ⟨validId_draw draw, hhex, herase, hsize, List.cons_ne_nil _ _, fun other hother => ?_⟩
    rw [List.mem_singleton] at hother
    rw [hother]
    exact hpoint
  have hdrag : ∀ shape snapshot canvas issued, Sketch { d with
      active := some ⟨pointerId, .inr ⟨draw.id, shape, style.color, style.size,
        (shapePoint point, shapePoint point)⟩, snapshot⟩
      canvas := canvas
      issued := issued } := by
    intro shape snapshot canvas issued
    refine ⟨h.operations, fun active hsome => ?_⟩
    cases hsome
    exact ⟨validId_draw draw, hcolor, hsize, shapePoint_valid hpoint, shapePoint_valid hpoint⟩
  unfold Document.beginStroke
  split
  · exact h
  · dsimp only
    split
    · refine hstroke _ _ _ _ hcolor fun herase => ?_
      cases herase
    · exact hstroke _ _ _ _ (by decide) fun _ => by decide +kernel
    all_goals
      split
      · exact hdrag _ _ _ _
      · exact h

theorem extend_sketch (h : Sketch d) {pointerId : Int} {point : DrawingPoint}
    (hpoint : point.Valid true) : Sketch (d.extendStroke browser pointerId point).1 := by
  unfold Document.extendStroke
  cases hactive : d.active with
  | none => exact h
  | some active =>
    have hvalid := h.active active hactive
    dsimp only
    split
    · exact h
    · split
      · next operation hoperation =>
        split
        · exact h
        · rw [hoperation] at hvalid
          obtain ⟨hid, hhex, hsize, hstart, -⟩ := hvalid
          refine ⟨h.operations, fun other hsome => ?_⟩
          cases hsome
          exact ⟨hid, hhex, hsize, hstart, shapePoint_valid hpoint⟩
      · next operation hoperation =>
        split
        · exact h
        · rw [hoperation] at hvalid
          obtain ⟨hid, hhex, herase, hsize, -, hpoints⟩ := hvalid
          refine ⟨h.operations, fun other hsome => ?_⟩
          cases hsome
          refine ⟨hid, hhex, herase, hsize, ?_, fun other hother => ?_⟩
          · exact List.append_ne_nil_of_right_ne_nil _ (List.cons_ne_nil _ _)
          · rcases List.mem_append.1 hother with hother | hother
            · exact hpoints other hother
            · rw [List.mem_singleton] at hother
              rw [hother]
              exact hpoint

theorem moved_sketch (h : Sketch d) (cursor : Nat) :
    Sketch (Document.render browser { d with cursor := cursor }) := by
  apply h.same
  · rw [render_operations]
  · rw [render_keeps_active]

theorem step_sketch {l : Label} (h : Sketch d) (hwithin : Within d l)
    (hstep : step browser d l = some d') : Sketch d' := by
  cases l with
  | isBlank =>
    cases hstep
    unfold Document.isBlank
    split
    · exact h.same rfl rfl
    · exact h
  | beginStroke pointerId style point draw snapshotContext =>
    simp only [step] at hstep
    split at hstep
    · cases hstep
    · cases hstep
      exact begin_sketch h hwithin
  | extendStroke pointerId point =>
    cases hstep
    exact extend_sketch h hwithin
  | finishStroke pointerId =>
    cases hstep
    exact finish_sketch h pointerId
  | undo =>
    cases hstep
    unfold Document.undo
    split
    · exact h
    · dsimp only
      split
      · exact finish_sketch h none
      · exact moved_sketch (finish_sketch h none) _
  | redo =>
    cases hstep
    unfold Document.redo
    split
    · exact h
    · dsimp only
      split
      · exact finish_sketch h none
      · exact moved_sketch (finish_sketch h none) _
  | clear draw =>
    simp only [step] at hstep
    split at hstep
    · cases hstep
    · cases hstep
      unfold Document.clear
      split
      · exact h
      · next hopen =>
        have hfinished := finish_sketch h none
        obtain ⟨hactive, -⟩ := finish_active (d := d) (by simpa using hopen)
        dsimp only
        split
        · exact hfinished
        · apply Sketch.of_none
          · rw [schedule_operations]
            have hissued : Sketch { (d.finishStroke none).1 with
                issued := draw.id :: (d.finishStroke none).1.issued } := hfinished.same rfl rfl
            have hnew : (Operation.clear draw.id).Sketched := validId_draw draw
            exact append_sketched hissued hnew
          · rw [schedule_active]
            exact hactive
  | eraseRegion points draw =>
    simp only [step] at hstep
    split at hstep
    · cases hstep
    · cases hstep
      unfold Document.eraseRegion
      split
      · exact h
      · split
        · exact h
        · next hlength =>
          simp only [Bool.or_eq_true, decide_eq_true_eq, not_or, Nat.not_lt] at hlength
          have hissued : Sketch { d with issued := draw.id :: d.issued } := h.same rfl rfl
          have hnew : (Operation.eraseRegion draw.id points).Sketched :=
            ⟨validId_draw draw, hlength.1, hlength.2, hwithin⟩
          constructor
          · rw [schedule_operations]
            exact append_sketched hissued hnew
          · rw [schedule_active]
            exact h.active
  | restore input =>
    cases hstep
    unfold Document.restore
    split
    · exact h
    · next validated hvalidated =>
      split
      · exact h
      · obtain ⟨hvalid, -⟩ := validateDrawingFile_ok hvalidated
        apply Sketch.of_none
        · rw [render_operations]
          exact fun operation hmem => (hvalid.operations operation hmem).sketched
        · rw [render_keeps_active]
  | destroy =>
    cases hstep
    unfold Document.destroy
    split
    · exact h
    · exact .of_none (fun _ hmem => absurd hmem List.not_mem_nil) rfl
  | blobReady k blob =>
    simp only [step] at hstep
    split at hstep
    · split at hstep
      · cases hstep
      · cases hstep
        unfold Document.blobReady
        split
        · exact h.same rfl rfl
        · exact h.same rfl rfl
    · cases hstep
  | bitmapReady k decoded =>
    simp only [step] at hstep
    split at hstep
    · split at hstep
      · cases hstep
        unfold Document.bitmapReady
        split
        · exact h.same rfl rfl
        · exact h.same rfl rfl
      · cases hstep
    · cases hstep

theorem reach_sketch (h : (machine browser).Reach Within d) : Sketch d := by
  apply h.invariant
  · rintro s rfl
    exact .of_none (fun _ hmem => absurd hmem List.not_mem_nil) rfl
  · exact fun s l t hs hwithin hstep => step_sketch hs hwithin hstep

/-! ## Files -/

namespace Document

/-- The file of the document. -/
def file (d : Document size) : DrawingFile := ⟨d.operations, d.cursor⟩

def undoDepth (d : Document size) : Nat := d.cursor

def redoDepth (d : Document size) : Nat := d.operations.length - d.cursor

end Document

/-- The journal is within the limits of a file. -/
structure WithinLimits (browser : Browser size) (d : Document size) : Prop where
  operations : d.operations.length ≤ MAX_OPERATIONS
  points : pointTotal d.operations ≤ MAX_POINTS
  bytes : d.file.toJson.bytes browser.fraction ≤ DRAWING_FILE_MAX_BYTES

/-- No region of the journal was erased with points that have a pressure. -/
def NoRegionPressure (d : Document size) : Prop :=
  ∀ id points, .eraseRegion id points ∈ d.operations → ∀ point ∈ points, point.pressure = none

/-- The document holds what the file does, and no gesture is active. -/
structure Restored (d : Document size) (file : DrawingFile) : Prop where
  operations : d.operations = file.operations
  cursor : d.cursor = file.cursor
  active : d.active = none

/-- The document is saved, read back into any other one, and saved again as the same file, with
its colours in small letters. -/
def RoundTrips (browser : Browser size) (d : Document size) : Prop :=
  d.serialize browser = .ok d.file ∧
    ∀ e : Document size, e.destroyed = false → ∃ restored,
      e.restore browser d.file.toJson = (restored, none) ∧ Restored restored d.file.lower ∧
      restored.undoDepth = d.undoDepth ∧ restored.redoDepth = d.redoDepth ∧
      restored.serialize browser = .ok d.file.lower

theorem render_cursor : (d.render browser).cursor = d.cursor := by
  unfold Document.render
  split
  · rfl
  · rfl

theorem restore_ok {file : DrawingFile} {input : Json}
    (h : validateDrawingFile browser.fraction input = .ok file) (hopen : d.destroyed = false) :
    ∃ restored, d.restore browser input = (restored, none) ∧ Restored restored file := by
  unfold Document.restore
  rw [h]
  simp only [hopen, Bool.false_eq_true, if_false]
  refine ⟨_, rfl, ?_⟩
  constructor
  · rw [render_operations]
  · rw [render_cursor]
  · rw [render_keeps_active]

theorem serialize_valid (h : d.file.Valid browser.fraction) :
    d.serialize browser = .ok d.file := by
  have hread := validateDrawingFile_toJson h
  unfold Document.file at hread
  simp [Document.serialize, Document.file, hread]

theorem Restored.file {file : DrawingFile} (h : Restored d file) : d.file = file := by
  unfold Document.file
  rw [h.operations, h.cursor]

theorem Restored.serialize {file : DrawingFile} (h : Restored d file)
    (hvalid : file.Valid browser.fraction) : d.serialize browser = .ok file := by
  rw [← h.file] at hvalid ⊢
  exact serialize_valid hvalid

/-- A region with a pressure cannot be saved. -/
theorem serialize_pressure {file : DrawingFile} (h : d.serialize browser = .ok file) :
    NoRegionPressure d := by
  simp only [Document.serialize, bind_eq_ok, pure_eq_ok] at h
  obtain ⟨read, hread, -⟩ := h
  simp only [validateDrawingFile, bind_eq_ok, demand_eq_ok, DrawingFile.toJson, members?_eq,
    bind_items?] at hread
  obtain ⟨-, -, members, hmembers, version, hversion, rawOperations, hraw, -, -, cursor, -,
    operations, hoperations, -⟩ := hread
  cases hmembers
  simp only [validateVersion, bind_eq_ok, demand_eq_ok, bind_number?, pure_eq_ok] at hversion
  obtain ⟨version', hversion', -, -, -, -, -, -, rfl⟩ := hversion
  cases hversion'
  cases hraw
  exact fun id points hmem => validateOperations_pressure hoperations hmem

/-- The file of a reachable document is valid, unless a region has a pressure. -/
theorem file_valid (h : (machine browser).Reach Within d) (hlimits : WithinLimits browser d)
    (hpressure : NoRegionPressure d) : d.file.Valid browser.fraction := by
  have hsketch := reach_sketch h
  have hjournal : (d.operations.map Operation.id).Nodup ∧ d.cursor ≤ d.operations.length := by
    rcases reach_sound h with hemptied | hsound
    · rw [hemptied.operations, hemptied.cursor]
      exact ⟨List.nodup_nil, Nat.le_refl _⟩
    · exact ⟨hsound.journal.distinct, hsound.journal.cursor⟩
  refine ⟨fun operation hmem => ?_, hjournal.1, hjournal.2, hlimits.operations, hlimits.points,
    hlimits.bytes⟩
  apply (hsketch.operations operation hmem).valid
  rintro id points rfl
  exact hpressure id points hmem

/-- Whatever the reader accepts can be saved again and read back; whatever it rejects leaves the
document as it was. -/
def Rewrites (browser : Browser size) (d : Document size) (input : Json) : Prop :=
  (∀ restored, d.restore browser input = (restored, none) →
    ∃ file, restored.serialize browser = .ok file ∧
      ∀ e : Document size, e.destroyed = false → ∃ again,
        e.restore browser file.toJson = (again, none) ∧
        again.operations = restored.operations ∧ again.cursor = restored.cursor) ∧
  ∀ rejected message, d.restore browser input = (rejected, some message) → rejected = d

theorem restore_rewrites (hopen : d.destroyed = false) (input : Json) :
    Rewrites browser d input := by
  constructor
  · intro restored hrestored
    cases hread : validateDrawingFile browser.fraction input with
    | error message =>
      unfold Document.restore at hrestored
      rw [hread] at hrestored
      cases hrestored
    | ok file =>
      obtain ⟨restored', heq, hfile⟩ := restore_ok hread hopen
      rw [heq] at hrestored
      cases hrestored
      obtain ⟨hvalid, hlower⟩ := validateDrawingFile_ok hread
      refine ⟨file, hfile.serialize hvalid, fun e he => ?_⟩
      have hagain := validateDrawingFile_toJson hvalid
      rw [hlower] at hagain
      obtain ⟨again, hrestore, hsame⟩ := restore_ok hagain he
      refine ⟨again, hrestore, ?_, ?_⟩
      · rw [hsame.operations, hfile.operations]
      · rw [hsame.cursor, hfile.cursor]
  · intro rejected message hrejected
    unfold Document.restore at hrejected
    split at hrejected
    · cases hrejected
      rfl
    · split at hrejected
      · cases hrejected
      · cases hrejected

theorem valid_roundTrips (hvalid : d.file.Valid browser.fraction) : RoundTrips browser d := by
  refine ⟨serialize_valid hvalid, fun e he => ?_⟩
  have hread := validateDrawingFile_toJson hvalid
  obtain ⟨restored, hrestore, hfile⟩ := restore_ok hread he
  obtain ⟨hlower, -⟩ := validateDrawingFile_ok hread
  refine ⟨restored, hrestore, hfile, hfile.cursor, ?_, hfile.serialize hlower⟩
  unfold Document.redoDepth
  rw [hfile.operations, hfile.cursor]
  show (d.operations.map Operation.lower).length - d.cursor = _
  rw [List.length_map]

/-- A drawing survives being saved exactly when no erased region has a pressure; and a file
that was accepted always does. -/
theorem drawing_file_round_trip (browser : Browser size) :
    (∀ d, (machine browser).Reach Within d → WithinLimits browser d →
      (RoundTrips browser d ↔ NoRegionPressure d)) ∧
    ∀ d : Document size, d.destroyed = false → ∀ input, Rewrites browser d input := by
  constructor
  · intro d h hlimits
    constructor
    · exact fun hround => serialize_pressure hround.1
    · exact fun hpressure => valid_roundTrips (file_valid h hlimits hpressure)
  · exact fun d hopen input => restore_rewrites hopen input

/-! ## A dot, and a region with a pressure -/

section Sample

def oneDot : Document 1 := ((machine onePixel).run newDocument (dots 0)).getD newDocument

theorem dot_valid : dot.Valid true := by
  have hbounds : InBounds 1 := by
    unfold InBounds COORDINATE_MIN COORDINATE_MAX
    decide
  refine ⟨hbounds, hbounds, fun pressure hsome => ?_⟩
  cases hsome

theorem drawing_file_round_trip_sample : RoundTrips onePixel oneDot := by
  have hrun : (machine onePixel).run newDocument (dots 0) = some oneDot := rfl
  have hsize : ValidSize ink.size := by
    unfold ValidSize
    decide +kernel
  have hreach : (machine onePixel).Reach Within oneDot := by
    refine (Machine.Reach.of_init rfl).path (Machine.path_of_run hrun ⟨?_, fun _ _ => ?_⟩)
    · exact ⟨by decide +kernel, hsize, dot_valid⟩
    · exact ⟨trivial, fun _ _ => trivial⟩
  have hlimits : WithinLimits onePixel oneDot := by
    constructor
    · decide +kernel
    · decide +kernel
    · decide +kernel
  apply ((drawing_file_round_trip onePixel).1 oneDot hreach hlimits).2
  intro id points hmem
  have hoperations : oneDot.operations =
      [.stroke ⟨"operation-0-0-0-0", .draw, "#000000", 4, [dot]⟩] := by decide +kernel
  rw [hoperations, List.mem_singleton] at hmem
  cases hmem

/-- A triangle whose first corner has a pressure. -/
def triangle : List DrawingPoint := [⟨0, 0, some (1 / 2)⟩, ⟨8, 0, none⟩, ⟨0, 8, none⟩]

def erases : List Label := [.eraseRegion triangle ⟨0, 0, 0, 0⟩]

def erased : Document 1 := ((machine onePixel).run newDocument erases).getD newDocument

theorem triangle_valid : ∀ point ∈ triangle, point.Valid true := by
  have hbounds : InBounds 0 ∧ InBounds 8 := by
    unfold InBounds COORDINATE_MIN COORDINATE_MAX
    decide
  intro point hpoint
  simp only [triangle, List.mem_cons, List.not_mem_nil, or_false] at hpoint
  rcases hpoint with rfl | rfl | rfl
  · refine ⟨hbounds.1, hbounds.1, fun pressure hsome => ?_⟩
    cases hsome
    exact ⟨rfl, by decide +kernel, by decide +kernel⟩
  · refine ⟨hbounds.2, hbounds.1, fun pressure hsome => ?_⟩
    cases hsome
  · refine ⟨hbounds.1, hbounds.2, fun pressure hsome => ?_⟩
    cases hsome

theorem region_not_saved :
    ¬ ∀ d : Document 1, (machine onePixel).Reach Within d → WithinLimits onePixel d →
      RoundTrips onePixel d := by
  intro hall
  have hrun : (machine onePixel).run newDocument erases = some erased := rfl
  have hreach : (machine onePixel).Reach Within erased := by
    refine (Machine.Reach.of_init rfl).path (Machine.path_of_run hrun ⟨triangle_valid, ?_⟩)
    exact fun _ _ => trivial
  have hlimits : WithinLimits onePixel erased := by
    constructor
    · decide +kernel
    · decide +kernel
    · decide +kernel
  have hround := hall erased hreach hlimits
  have hpressure := serialize_pressure hround.1 "operation-0-0-0-0" triangle (by decide +kernel)
    ⟨0, 0, some (1 / 2)⟩ List.mem_cons_self
  cases hpressure

end Sample

end Potocolom.Drawing
