import Potocolom.Drawing.Gestures

/-! # Every document that is reached

Until it is destroyed a document shows its journal, after any calls and callbacks in any
order. Destroying it empties the journal and leaves the canvas as it was. -/

namespace Potocolom.Drawing

variable {size : Nat} {browser : Browser size} {d d' : Document size}

/-! ## Destroyed documents -/

/-- A document that was destroyed: the canvas is whatever it was. -/
structure Emptied (d : Document size) : Prop where
  destroyed : d.destroyed = true
  operations : d.operations = []
  cursor : d.cursor = 0
  active : d.active = none
  checkpoints : d.checkpoints = []

theorem destroy_emptied (halive : d.destroyed = false) : Emptied d.destroy := by
  unfold Document.destroy
  rw [halive]
  exact ⟨rfl, rfl, rfl, rfl, rfl⟩

theorem Emptied.settle (h : Emptied d) (k : Nat) : Emptied (d.settle k) :=
  ⟨h.destroyed, h.operations, h.cursor, h.active, h.checkpoints⟩

/-- No call brings a document back, and no callback does. -/
theorem Emptied.step {l : Label} (h : Emptied d) (hstep : step browser d l = some d') :
    Emptied d' := by
  have hdestroyed := h.destroyed
  cases l with
  | isBlank =>
    cases hstep
    unfold Document.isBlank
    rw [h.active]
    exact h
  | beginStroke pointerId style point draw snapshotContext =>
    simp only [Drawing.step] at hstep
    split at hstep
    · cases hstep
    · cases hstep
      unfold Document.beginStroke
      rw [if_pos (by rw [hdestroyed, Bool.true_or])]
      exact h
  | extendStroke pointerId point =>
    cases hstep
    unfold Document.extendStroke
    rw [h.active]
    exact h
  | finishStroke pointerId =>
    cases hstep
    unfold Document.finishStroke
    rw [h.active]
    exact h
  | undo =>
    cases hstep
    unfold Document.undo
    rw [if_pos hdestroyed]
    exact h
  | redo =>
    cases hstep
    unfold Document.redo
    rw [if_pos hdestroyed]
    exact h
  | clear draw =>
    simp only [Drawing.step] at hstep
    split at hstep
    · cases hstep
    · cases hstep
      unfold Document.clear
      rw [if_pos hdestroyed]
      exact h
  | eraseRegion points draw =>
    simp only [Drawing.step] at hstep
    split at hstep
    · cases hstep
    · cases hstep
      unfold Document.eraseRegion
      rw [if_pos (by rw [hdestroyed, Bool.true_or])]
      exact h
  | restore input =>
    cases hstep
    unfold Document.restore
    split
    · exact h
    · rw [if_pos hdestroyed]
      exact h
  | destroy =>
    cases hstep
    unfold Document.destroy
    rw [if_pos hdestroyed]
    exact h
  | blobReady k blob =>
    simp only [Drawing.step] at hstep
    split at hstep
    · next callback hcallback =>
      split at hstep
      · cases hstep
      · cases hstep
        unfold Document.blobReady Document.stale
        rw [if_pos (by simp [hdestroyed])]
        exact h.settle k
    · cases hstep
  | bitmapReady k decoded =>
    simp only [Drawing.step] at hstep
    split at hstep
    · next callback hcallback =>
      split at hstep
      · cases hstep
        unfold Document.bitmapReady Document.stale
        rw [if_pos (by simp [hdestroyed])]
        exact h.settle k
      · cases hstep
    · cases hstep

/-! ## Runs -/

theorem step_sound {l : Label} (h : Sound browser d) (hstep : step browser d l = some d') :
    Emptied d' ∨ Sound browser d' := by
  cases l with
  | isBlank =>
    cases hstep
    exact .inr (isBlank_sound h)
  | beginStroke pointerId style point draw snapshotContext =>
    simp only [step] at hstep
    split at hstep
    · cases hstep
    · next hid =>
      cases hstep
      exact .inr (beginStroke_sound h pointerId style point hid snapshotContext)
  | extendStroke pointerId point =>
    cases hstep
    exact .inr (extendStroke_sound h pointerId point)
  | finishStroke pointerId =>
    cases hstep
    exact .inr (finish_sound h pointerId)
  | undo =>
    cases hstep
    exact .inr (undo_sound h)
  | redo =>
    cases hstep
    exact .inr (redo_sound h)
  | clear draw =>
    simp only [step] at hstep
    split at hstep
    · cases hstep
    · next hid =>
      cases hstep
      exact .inr (clear_sound h hid)
  | eraseRegion points draw =>
    simp only [step] at hstep
    split at hstep
    · cases hstep
    · next hid =>
      cases hstep
      exact .inr (eraseRegion_sound h points hid)
  | restore input =>
    cases hstep
    exact .inr (restore_sound h input)
  | destroy =>
    cases hstep
    cases halive : d.destroyed with
    | false => exact .inl (destroy_emptied halive)
    | true =>
      right
      unfold Document.destroy
      rw [if_pos halive]
      exact h
  | blobReady k blob =>
    simp only [step] at hstep
    split at hstep
    · next callback hcallback =>
      split at hstep
      · cases hstep
      · cases hstep
        exact .inr (blobReady_sound h hcallback blob)
    · cases hstep
  | bitmapReady k decoded =>
    simp only [step] at hstep
    split at hstep
    · next callback hcallback =>
      split at hstep
      · cases hstep
        exact .inr (bitmapReady_sound h hcallback decoded)
      · cases hstep
    · cases hstep

theorem reach_sound {ok : Document size → Label → Prop} (h : (machine browser).Reach ok d) :
    Emptied d ∨ Sound browser d := by
  apply h.invariant
  · rintro s rfl
    exact .inr new_sound
  · intro s l t hs _ hstep
    rcases hs with hemptied | hsound
    · exact .inl (hemptied.step hstep)
    · exact step_sound hsound hstep

/-- The canvas is the journal replayed. -/
structure ShowsJournal (browser : Browser size) (d : Document size) : Prop where
  canvas : d.canvas = replay browser (d.operations.take d.cursor)
  isBlank : d.isBlank.2 = true ↔ d.canvas = paintPaper

/-- So is every checkpoint that is part of it, and what is painted from one. -/
structure Checkpoints (browser : Browser size) (d : Document size) : Prop where
  image : ∀ checkpoint ∈ d.checkpoints, d.prefixIsCurrent checkpoint = true →
    checkpoint.image = replay browser (d.operations.take checkpoint.prefixLength)
  render : ∀ checkpoint ∈ d.checkpoints, d.eligible checkpoint = true →
    paintOperations browser ((d.operations.take d.cursor).drop checkpoint.prefixLength)
      checkpoint.image = replay browser (d.operations.take d.cursor)

theorem Sound.shows (h : Sound browser d) (hactive : d.active = none) :
    ShowsJournal browser d := by
  obtain ⟨hcanvas, hblank⟩ := h.shown hactive
  constructor
  · exact hcanvas
  · unfold Document.isBlank
    simp only [hactive, Option.isSome_none, Bool.false_eq_true, if_false]
    rw [hblank, isPaper_iff]

theorem Sound.checkpoints (h : Sound browser d) : Checkpoints browser d := by
  constructor
  · exact fun checkpoint hmem => (h.journal.checkpoints checkpoint hmem).image
  · exact fun checkpoint hmem => (h.journal.checkpoints checkpoint hmem).resume

theorem Emptied.cached (h : Emptied d) : Checkpoints browser d := by
  constructor
  · rw [h.checkpoints]
    exact fun _ hmem => absurd hmem List.not_mem_nil
  · rw [h.checkpoints]
    exact fun _ hmem => absurd hmem List.not_mem_nil

/-- Until it is destroyed, a drawing is its journal. -/
theorem drawing_is_journal (h : (machine browser).Reach Machine.anyStep d) :
    (d.destroyed = false → d.active = none → ShowsJournal browser d) ∧
      Checkpoints browser d := by
  rcases reach_sound h with hemptied | hsound
  · refine ⟨fun hopen => ?_, hemptied.cached⟩
    rw [hemptied.destroyed] at hopen
    cases hopen
  · exact ⟨fun _ hactive => hsound.shows hactive, hsound.checkpoints⟩

/-! ## A single pixel -/

section Sample

/-- Whatever is painted covers the pixel, in black unless it is paper. -/
def covers (color : String) : Canvas 1 → Canvas 1 :=
  fun _ _ => if color = PAPER then ⟨255, 255, 255⟩ else ⟨0, 0, 0⟩

def onePixel : Browser 1 where
  fillArc color _ _ _ := covers color
  strokeLine color _ _ _ _ _ := covers color
  strokeRect color _ _ _ _ _ := covers color
  strokeEllipse color _ _ _ _ _ := covers color
  fillPolygon color _ := covers color
  fraction _ := "0.5"

def ink : GestureStyle := ⟨.draw, "#000000", 4⟩

def dot : DrawingPoint := ⟨1, 1, none⟩

/-- A dot, with an id of its own. -/
def dots (n : Nat) : List Label :=
  [.beginStroke 1 ink dot ⟨0, 0, 0, n.toUInt32⟩ true, .finishStroke (some 1)]

/-- Sixteen dots, the last one of which is undone while the snapshot of them all is decoded;
then another one is drawn. -/
def sixteenDots : List Label :=
  (List.range 16).flatMap dots ++ [.blobReady 0 true, .undo, .bitmapReady 0 true, .redo, .undo] ++
    dots 16

def sixteen : Document 1 := ((machine onePixel).run newDocument sixteenDots).getD newDocument

theorem drawing_is_journal_sample :
    sixteen.destroyed = false ∧ sixteen.active.isNone = true ∧
      ((sixteen.destroyed = false → sixteen.active = none → ShowsJournal onePixel sixteen) ∧
        Checkpoints onePixel sixteen) := by
  have hrun : (machine onePixel).run newDocument sixteenDots = some sixteen := rfl
  refine ⟨by decide +kernel, by decide +kernel, ?_⟩
  exact drawing_is_journal ((Machine.Reach.of_init rfl).path (Machine.path_of_run_any hrun))

def drawnAndDestroyed : List Label := dots 0 ++ [.destroy]

def destroyedDrawing : Document 1 :=
  ((machine onePixel).run newDocument drawnAndDestroyed).getD newDocument

/-- The drawing is still on the canvas, and the journal is empty. -/
theorem destroyed_shows_no_journal :
    ¬ ∀ d : Document 1, (machine onePixel).Reach Machine.anyStep d → d.active = none →
      ShowsJournal onePixel d := by
  intro hall
  have hrun : (machine onePixel).run newDocument drawnAndDestroyed = some destroyedDrawing := rfl
  have hcanvas := (hall destroyedDrawing ((Machine.Reach.of_init rfl).path
    (Machine.path_of_run_any hrun)) rfl).canvas
  have hpixel : destroyedDrawing.canvas 0 ≠
      replay onePixel (destroyedDrawing.operations.take destroyedDrawing.cursor) 0 := by
    decide +kernel
  exact hpixel (congrFun hcanvas 0)

end Sample

end Potocolom.Drawing
