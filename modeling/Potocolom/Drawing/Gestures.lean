import Potocolom.Drawing.Replay

/-! # What the calls and the callbacks keep

While a gesture is active the canvas shows its operation on top of the journal. Every call
leaves the journal, the images of it and the canvas as they belong together; so does a callback
that comes when the journal has moved on. -/

namespace Potocolom.Drawing

variable {size : Nat} {browser : Browser size} {d : Document size}

/-- The operation of the active gesture is painted, and not yet in the journal. -/
structure Gesturing (browser : Browser size) (d : Document size) (active : Active size) :
    Prop where
  canvas : d.canvas = paintOperation browser (Document.gesture active.operation)
    (replay browser (d.operations.take d.cursor))
  issued : (Document.gesture active.operation).id ∈ d.issued
  unused : Unused d (Document.gesture active.operation).id
  points : ∀ operation, active.operation = .inl operation → operation.points ≠ []
  snapshot : ∀ operation, active.operation = .inr operation →
    active.snapshot = some (replay browser (d.operations.take d.cursor))

structure Sound (browser : Browser size) (d : Document size) : Prop where
  journal : Journal browser d
  shown : d.active = none → Shown browser d
  gesturing : ∀ active, d.active = some active → Gesturing browser d active

/-- A document without a gesture. -/
theorem Sound.of_none (hjournal : Journal browser d) (hshown : Shown browser d)
    (hactive : d.active = none) : Sound browser d := by
  refine ⟨hjournal, fun _ => hshown, fun active hsome => ?_⟩
  rw [hactive] at hsome
  cases hsome

theorem new_sound : Sound browser (newDocument : Document size) := by
  apply Sound.of_none
  · constructor
    · exact List.nodup_nil
    · exact Nat.le_refl _
    · exact fun _ hmem => absurd hmem List.not_mem_nil
    · exact fun _ hmem => absurd hmem List.not_mem_nil
    · exact fun _ hmem => absurd hmem List.not_mem_nil
  · refine ⟨rfl, ?_⟩
    show true = isPaper paintPaper
    rw [isPaper_iff.2 rfl]
  · rfl

theorem Journal.frame {d' : Document size} (h : Journal browser d)
    (hoperations : d'.operations = d.operations) (hcursor : d'.cursor = d.cursor)
    (hissued : d'.issued = d.issued) (hcheckpoints : d'.checkpoints = d.checkpoints)
    (hcallbacks : d'.callbacks = d.callbacks) (hgeneration : d'.generation = d.generation) :
    Journal browser d' := by
  apply h.same hoperations
  · rw [hcursor]
    exact h.cursor
  · rw [hissued]
    exact fun _ => id
  · rw [hcheckpoints]
    exact fun _ => id
  · rw [hcallbacks]
    exact fun callback hmem => ⟨callback, hmem, rfl, rfl⟩
  · exact hgeneration

/-! ## Checkpoints -/

theorem schedule_cases : d.scheduleCheckpoint = d ∨
    ∃ last, d.operations[d.cursor - 1]? = some last ∧
      d.scheduleCheckpoint = { d with
        checkpointPending := true
        callbacks := d.callbacks ++ [⟨d.generation, ⟨d.cursor, last.id, d.canvas⟩, false⟩] } := by
  unfold Document.scheduleCheckpoint
  split
  · exact .inl rfl
  · split
    · exact .inl rfl
    · next last hlast => exact .inr ⟨last, hlast, rfl⟩

@[simp] theorem schedule_active : d.scheduleCheckpoint.active = d.active := by
  rcases schedule_cases (d := d) with heq | ⟨last, -, heq⟩
  · rw [heq]
  · rw [heq]

@[simp] theorem schedule_destroyed : d.scheduleCheckpoint.destroyed = d.destroyed := by
  rcases schedule_cases (d := d) with heq | ⟨last, -, heq⟩
  · rw [heq]
  · rw [heq]

@[simp] theorem schedule_issued : d.scheduleCheckpoint.issued = d.issued := by
  rcases schedule_cases (d := d) with heq | ⟨last, -, heq⟩
  · rw [heq]
  · rw [heq]

/-- The canvas, as it is now, is the image of the journal's beginning. -/
theorem schedule_sound (hjournal : Journal browser d) (hshown : Shown browser d)
    (hactive : d.active = none) : Sound browser d.scheduleCheckpoint := by
  rcases schedule_cases (d := d) with heq | ⟨last, hlast, heq⟩
  · rw [heq]
    exact .of_none hjournal hshown hactive
  · rw [heq]
    refine .of_none ?_ hshown hactive
    have hcached : Cached browser d ⟨d.cursor, last.id, d.canvas⟩ :=
      ⟨hjournal.issued last (List.mem_of_getElem? hlast), fun _ => hshown.1⟩
    refine ⟨hjournal.distinct, hjournal.cursor, hjournal.issued, ?_, ?_⟩
    · exact fun checkpoint hmem => (hjournal.checkpoints checkpoint hmem).same (fun _ => id) rfl
    · intro callback hmem
      rcases List.mem_append.1 hmem with hmem | hmem
      · refine ⟨(hjournal.callbacks callback hmem).1, fun hsame => ?_⟩
        exact ((hjournal.callbacks callback hmem).2 hsame).same (fun _ => id) rfl
      · rw [List.mem_singleton] at hmem
        rw [hmem]
        exact ⟨Nat.le_refl _, fun _ => hcached.same (fun _ => id) rfl⟩

/-! ## Gestures -/

/-- An operation that the canvas already shows joins the journal. -/
theorem append_shown {operation : Operation} (h : Journal browser d)
    (hactive : d.active = none) (hunused : Unused d operation.id)
    (hissued : operation.id ∈ d.issued)
    (hcanvas : d.canvas = paintOperation browser operation
      (replay browser (d.operations.take d.cursor))) :
    Sound browser (d.append operation).updateBlank.scheduleCheckpoint := by
  have hjournal := h.append hunused hissued
  apply schedule_sound
  · exact hjournal.frame rfl rfl rfl rfl rfl rfl
  · refine ⟨?_, rfl⟩
    show d.canvas = _
    rw [hcanvas]
    exact (replay_appended operation).symm
  · exact hactive

theorem Unused.same {d' : Document size} {id : String} (h : Unused d id)
    (hoperations : d'.operations = d.operations) (hcheckpoints : d'.checkpoints = d.checkpoints)
    (hcallbacks : d'.callbacks = d.callbacks) (hgeneration : d'.generation = d.generation) :
    Unused d' id := by
  constructor
  · rw [hoperations]
    exact h.operations
  · rw [hcheckpoints]
    exact h.checkpoints
  · rw [hcallbacks, hgeneration]
    exact h.callbacks

theorem finish_sound (h : Sound browser d) (pointerId : Option Int) :
    Sound browser (d.finishStroke pointerId).1 := by
  unfold Document.finishStroke
  cases hactive : d.active with
  | none => exact h
  | some active =>
    dsimp only
    split
    · exact h
    · have hgesture := h.gesturing active hactive
      exact append_shown (h.journal.frame rfl rfl rfl rfl rfl rfl) rfl
        (hgesture.unused.same rfl rfl rfl rfl) hgesture.issued hgesture.canvas

theorem finish_active (hdestroyed : d.destroyed = false) :
    (d.finishStroke none).1.active = none ∧ (d.finishStroke none).1.destroyed = false := by
  unfold Document.finishStroke
  cases hactive : d.active with
  | none => exact ⟨hactive, hdestroyed⟩
  | some active =>
    simp only [hdestroyed, Option.any_none, Bool.or_self, Bool.false_eq_true, if_false,
      schedule_active, schedule_destroyed]
    exact ⟨rfl, rfl⟩

theorem finish_issued (pointerId : Option Int) :
    (d.finishStroke pointerId).1.issued = d.issued := by
  unfold Document.finishStroke
  cases hactive : d.active with
  | none => rfl
  | some active =>
    dsimp only
    split
    · rfl
    · rw [schedule_issued]
      rfl

/-- A gesture begins on a canvas that shows the journal. -/
theorem begin_sound (h : Sound browser d) (hactive : d.active = none) {active : Active size}
    {canvas : Canvas size} {id : String} (hid : id ∉ d.issued)
    (hgesture : (Document.gesture active.operation).id = id)
    (hcanvas : canvas = paintOperation browser (Document.gesture active.operation) d.canvas)
    (hpoints : ∀ operation, active.operation = .inl operation → operation.points ≠ [])
    (hsnapshot : ∀ operation, active.operation = .inr operation →
      active.snapshot = some d.canvas) :
    Sound browser
      { d with active := some active, canvas := canvas, issued := id :: d.issued } := by
  have hshown := (h.shown hactive).1
  constructor
  · apply h.journal.same
    · rfl
    · exact h.journal.cursor
    · exact fun _ hmem => List.mem_cons_of_mem _ hmem
    · exact fun _ hmem => hmem
    · exact fun callback hmem => ⟨callback, hmem, rfl, rfl⟩
    · rfl
  · intro hnone
    cases hnone
  · intro other hother
    cases hother
    constructor
    · rw [hcanvas, hshown]
    · rw [hgesture]
      exact List.mem_cons_self
    · rw [hgesture]
      exact (h.journal.unused hid).same rfl rfl rfl rfl
    · exact hpoints
    · intro operation hoperation
      rw [hsnapshot operation hoperation, hshown]

theorem beginStroke_sound (h : Sound browser d) (pointerId : Int) (style : GestureStyle)
    (point : DrawingPoint) {id : String} (hid : id ∉ d.issued) (snapshotContext : Bool) :
    Sound browser (d.beginStroke browser pointerId style point id snapshotContext).1 := by
  have hstroke : d.active = none → ∀ mode color, Sound browser { d with
      active := some ⟨pointerId, .inl ⟨id, mode, color, style.size, [point]⟩, none⟩
      canvas := paintDot browser ⟨id, mode, color, style.size, [point]⟩ point d.canvas
      issued := id :: d.issued } := by
    intro hactive mode color
    refine begin_sound h hactive hid rfl rfl ?_ ?_
    · rintro operation heq
      cases heq
      exact List.cons_ne_nil _ _
    · rintro operation heq
      cases heq
  have hdrag : d.active = none → ∀ shape, Sound browser { d with
      active := some ⟨pointerId, .inr ⟨id, shape, style.color, style.size,
        (shapePoint point, shapePoint point)⟩, some d.canvas⟩
      canvas := paintShape browser ⟨id, shape, style.color, style.size,
        (shapePoint point, shapePoint point)⟩ d.canvas
      issued := id :: d.issued } := by
    intro hactive shape
    refine begin_sound h hactive hid rfl rfl ?_ fun _ _ => rfl
    rintro operation heq
    cases heq
  unfold Document.beginStroke
  split
  · exact h
  · next hfree =>
    have hactive : d.active = none := by
      cases hactive : d.active with
      | none => rfl
      | some active => simp [hactive] at hfree
    dsimp only
    split
    · exact hstroke hactive .draw style.color
    · exact hstroke hactive .erase PAPER
    all_goals
      split
      · exact hdrag hactive _
      · exact h

theorem extendStroke_sound (h : Sound browser d) (pointerId : Int) (point : DrawingPoint) :
    Sound browser (d.extendStroke browser pointerId point).1 := by
  unfold Document.extendStroke
  cases hactive : d.active with
  | none => exact h
  | some active =>
    have hgesture := h.gesturing active hactive
    dsimp only
    split
    · exact h
    · split
      · next operation hoperation =>
        split
        · exact h
        · next snapshot hsnapshot =>
          -- the shape is painted anew on the canvas as it was before the gesture
          have hbefore := hgesture.snapshot operation hoperation
          rw [hsnapshot] at hbefore
          refine ⟨h.journal.frame rfl rfl rfl rfl rfl rfl, fun hnone => ?_, fun other hother => ?_⟩
          · cases hnone
          · cases hother
            have hid : (Document.gesture active.operation).id = operation.id := by
              rw [hoperation]
              rfl
            constructor
            · dsimp only
              rw [Option.some.inj hbefore]
              rfl
            · exact hid ▸ hgesture.issued
            · exact (hid ▸ hgesture.unused).same rfl rfl rfl rfl
            · rintro other heq
              cases heq
            · intro other _
              exact hsnapshot.trans hbefore
      · next operation hoperation =>
        split
        · exact h
        · next last hlast =>
          refine ⟨h.journal.frame rfl rfl rfl rfl rfl rfl, fun hnone => ?_, fun other hother => ?_⟩
          · cases hnone
          · cases hother
            have hid : (Document.gesture active.operation).id = operation.id := by
              rw [hoperation]
              rfl
            constructor
            · show paintSegment browser operation last point d.canvas =
                paintStroke browser { operation with points := operation.points ++ [point] } _
              rw [paintStroke_append hlast, hgesture.canvas, hoperation]
              rfl
            · exact hid ▸ hgesture.issued
            · exact (hid ▸ hgesture.unused).same rfl rfl rfl rfl
            · rintro other heq
              cases heq
              exact List.append_ne_nil_of_right_ne_nil _ (List.cons_ne_nil _ _)
            · rintro other heq
              cases heq

/-! ## The other calls -/

theorem render_active (hdestroyed : d.destroyed = false) :
    (d.render browser).active = d.active := by
  unfold Document.render
  rw [hdestroyed]
  rfl

theorem render_sound (h : Journal browser d) (hactive : d.active = none)
    (hdestroyed : d.destroyed = false) : Sound browser (d.render browser) := by
  refine .of_none ?_ (render_shown h hdestroyed) ?_
  · unfold Document.render
    rw [hdestroyed]
    exact h.frame rfl rfl rfl rfl rfl rfl
  · rw [render_active hdestroyed, hactive]

/-- The cursor moves within the journal. -/
theorem moved_sound (h : Sound browser d) (hactive : d.active = none)
    (hdestroyed : d.destroyed = false) {cursor : Nat} (hle : cursor ≤ d.operations.length) :
    Sound browser (Document.render browser { d with cursor := cursor }) := by
  have hjournal : Journal browser { d with cursor := cursor } := by
    apply h.journal.same
    · rfl
    · exact hle
    · exact fun _ hmem => hmem
    · exact fun _ hmem => hmem
    · exact fun callback hmem => ⟨callback, hmem, rfl, rfl⟩
    · rfl
  exact render_sound hjournal hactive hdestroyed

theorem undo_sound (h : Sound browser d) : Sound browser (d.undo browser).1 := by
  unfold Document.undo
  split
  · exact h
  · next hopen =>
    have hdestroyed : d.destroyed = false := by simpa using hopen
    have hfinished := finish_sound h none
    obtain ⟨hactive, hstill⟩ := finish_active hdestroyed
    dsimp only
    split
    · exact hfinished
    · apply moved_sound hfinished hactive hstill
      exact Nat.le_trans (Nat.sub_le _ _) hfinished.journal.cursor

theorem redo_sound (h : Sound browser d) : Sound browser (d.redo browser).1 := by
  unfold Document.redo
  split
  · exact h
  · next hopen =>
    have hdestroyed : d.destroyed = false := by simpa using hopen
    have hfinished := finish_sound h none
    obtain ⟨hactive, hstill⟩ := finish_active hdestroyed
    dsimp only
    split
    · exact hfinished
    · next hmore =>
      apply moved_sound hfinished hactive hstill
      omega

theorem issue_journal (h : Journal browser d) (id : String) :
    Journal browser { d with issued := id :: d.issued } := by
  apply h.same
  · rfl
  · exact h.cursor
  · exact fun _ hmem => List.mem_cons_of_mem _ hmem
  · exact fun _ hmem => hmem
  · exact fun callback hmem => ⟨callback, hmem, rfl, rfl⟩
  · rfl

theorem clear_sound (h : Sound browser d) {id : String} (hid : id ∉ d.issued) :
    Sound browser (d.clear id).1 := by
  rw [← finish_issued none] at hid
  unfold Document.clear
  split
  · exact h
  · next hopen =>
    have hdestroyed : d.destroyed = false := by simpa using hopen
    have hfinished := finish_sound h none
    obtain ⟨hactive, -⟩ := finish_active hdestroyed
    dsimp only
    split
    · exact hfinished
    · have hunused : Unused { (d.finishStroke none).1 with
          issued := id :: (d.finishStroke none).1.issued } id :=
        (hfinished.journal.unused hid).same rfl rfl rfl rfl
      have hjournal : Journal browser (Document.append { (d.finishStroke none).1 with
          issued := id :: (d.finishStroke none).1.issued } (.clear id)) :=
        (issue_journal hfinished.journal id).append hunused List.mem_cons_self
      apply schedule_sound
      · exact hjournal.frame rfl rfl rfl rfl rfl rfl
      · refine ⟨(replay_appended (.clear id)).symm, ?_⟩
        show true = isPaper paintPaper
        rw [isPaper_iff.2 rfl]
      · exact hactive

theorem eraseRegion_sound (h : Sound browser d) (points : List DrawingPoint) {id : String}
    (hid : id ∉ d.issued) : Sound browser (d.eraseRegion browser points id).1 := by
  unfold Document.eraseRegion
  split
  · exact h
  · next hfree =>
    have hactive : d.active = none := by
      cases hactive : d.active with
      | none => rfl
      | some active => simp [hactive] at hfree
    split
    · exact h
    · have hunused : Unused { d with issued := id :: d.issued } id :=
        (h.journal.unused hid).same rfl rfl rfl rfl
      have hjournal : Journal browser (Document.append { d with issued := id :: d.issued }
          (.eraseRegion id points)) :=
        (issue_journal h.journal id).append hunused List.mem_cons_self
      apply schedule_sound
      · exact hjournal.frame rfl rfl rfl rfl rfl rfl
      · refine ⟨?_, rfl⟩
        show paintEraseRegion browser points d.canvas = _
        rw [(h.shown hactive).1]
        exact (replay_appended (.eraseRegion id points)).symm
      · exact hactive

/-- A restored journal has its own ids; the images of the one before it are no more. -/
theorem restore_sound (h : Sound browser d) (input : Json) :
    Sound browser (d.restore browser input).1 := by
  unfold Document.restore
  split
  · exact h
  · next validated hvalidated =>
    split
    · exact h
    · next hopen =>
      have hdestroyed : d.destroyed = false := by simpa using hopen
      obtain ⟨hvalid, -⟩ := validateDrawingFile_ok hvalidated
      apply render_sound
      · constructor
        · exact hvalid.distinct
        · exact hvalid.cursor
        · exact fun operation hmem => List.mem_append_left _ (List.mem_map_of_mem hmem)
        · exact fun _ hmem => absurd hmem List.not_mem_nil
        · intro callback hmem
          have hle := (h.journal.callbacks callback hmem).1
          show callback.generation ≤ d.generation + 1 ∧ (callback.generation = d.generation + 1 → _)
          exact ⟨Nat.le_succ_of_le hle, fun heq => by omega⟩
      · rfl
      · exact hdestroyed

theorem isBlank_sound (h : Sound browser d) : Sound browser d.isBlank.1 := by
  unfold Document.isBlank
  cases hactive : d.active with
  | none => exact h
  | some active =>
    have hgesture := h.gesturing active hactive
    refine ⟨h.journal.frame rfl rfl rfl rfl rfl rfl, fun hnone => ?_, fun other hother => ?_⟩
    · have hsome : d.active = none := hnone
      rw [hactive] at hsome
      cases hsome
    · have hsame : d.active = some other := hother
      rw [hactive] at hsame
      cases hsame
      exact ⟨hgesture.canvas, hgesture.issued, hgesture.unused.same rfl rfl rfl rfl,
        hgesture.points, hgesture.snapshot⟩

/-! ## The callbacks -/

/-- Checkpoints and callbacks change, and nothing else does. -/
theorem Sound.recache (h : Sound browser d) {d' : Document size}
    (hjournal : Journal browser d') (hcanvas : d'.canvas = d.canvas) (hblank : d'.blank = d.blank)
    (hactive : d'.active = d.active) (hoperations : d'.operations = d.operations)
    (hcursor : d'.cursor = d.cursor) (hissued : d'.issued = d.issued)
    (hunused : ∀ id, Unused d id → Unused d' id) : Sound browser d' := by
  refine ⟨hjournal, fun hnone => ?_, fun active hsome => ?_⟩
  · rw [hactive] at hnone
    unfold Shown
    rw [hcanvas, hblank, hoperations, hcursor]
    exact h.shown hnone
  · rw [hactive] at hsome
    have hgesture := h.gesturing active hsome
    constructor
    · rw [hcanvas, hoperations, hcursor]
      exact hgesture.canvas
    · rw [hissued]
      exact hgesture.issued
    · exact hunused _ hgesture.unused
    · exact hgesture.points
    · rw [hoperations, hcursor]
      exact hgesture.snapshot

theorem settle_sound (h : Sound browser d) (k : Nat) : Sound browser (d.settle k) := by
  have hback : ∀ callback ∈ (d.settle k).callbacks, callback ∈ d.callbacks :=
    fun _ hmem => List.mem_of_mem_eraseIdx hmem
  apply h.recache
  · apply h.journal.same
    · rfl
    · exact h.journal.cursor
    · exact fun _ hmem => hmem
    · exact fun _ hmem => hmem
    · exact fun callback hmem => ⟨callback, hback callback hmem, rfl, rfl⟩
    · rfl
  · rfl
  · rfl
  · rfl
  · rfl
  · rfl
  · rfl
  · intro id hunused
    exact ⟨hunused.operations, hunused.checkpoints,
      fun callback hmem => hunused.callbacks callback (hback callback hmem)⟩

theorem blobReady_sound (h : Sound browser d) {k : Nat} {callback : Callback size}
    (hcallback : d.callbacks[k]? = some callback) (blob : Bool) :
    Sound browser (d.blobReady k callback blob) := by
  have hmem := List.mem_of_getElem? hcallback
  unfold Document.blobReady
  split
  · exact settle_sound h k
  · have hback : ∀ other ∈ d.callbacks.set k { callback with decoding := true },
        ∃ old ∈ d.callbacks, other.generation = old.generation ∧
          other.checkpoint = old.checkpoint := by
      intro other hother
      rcases List.mem_or_eq_of_mem_set hother with hold | rfl
      · exact ⟨other, hold, rfl, rfl⟩
      · exact ⟨callback, hmem, rfl, rfl⟩
    apply h.recache
    · apply h.journal.same
      · rfl
      · exact h.journal.cursor
      · exact fun _ hmem => hmem
      · exact fun _ hmem => hmem
      · exact hback
      · rfl
    · rfl
    · rfl
    · rfl
    · rfl
    · rfl
    · rfl
    · intro id hunused
      refine ⟨hunused.operations, hunused.checkpoints, fun other hother hsame => ?_⟩
      obtain ⟨old, hold, hgeneration, hcheckpoint⟩ := hback other hother
      rw [hcheckpoint]
      exact hunused.callbacks old hold (hgeneration ▸ hsame)

theorem mem_cache {checkpoint other : Checkpoint size}
    (h : other ∈ (d.cache checkpoint).checkpoints) :
    other = checkpoint ∨ other ∈ d.checkpoints := by
  have hsorted := List.mem_of_mem_drop h
  rw [List.mem_mergeSort, List.mem_append, List.mem_singleton] at hsorted
  rcases hsorted with hmem | heq
  · exact .inr (List.mem_of_mem_eraseP hmem)
  · exact .inl heq

/-- A snapshot that is still current becomes a checkpoint. -/
theorem cache_sound (h : Sound browser d) {callback : Callback size}
    (hmem : callback ∈ d.callbacks) (hgeneration : callback.generation = d.generation) :
    Sound browser (d.cache callback.checkpoint) := by
  have hcached := (h.journal.callbacks callback hmem).2 hgeneration
  apply h.recache
  · refine ⟨h.journal.distinct, h.journal.cursor, h.journal.issued, ?_, ?_⟩
    · intro other hother
      rcases mem_cache hother with rfl | hold
      · exact hcached.same (fun _ hin => hin) rfl
      · exact (h.journal.checkpoints other hold).same (fun _ hin => hin) rfl
    · intro other hother
      refine ⟨(h.journal.callbacks other hother).1, fun hsame => ?_⟩
      exact ((h.journal.callbacks other hother).2 hsame).same (fun _ hin => hin) rfl
  · rfl
  · rfl
  · rfl
  · rfl
  · rfl
  · rfl
  · intro id hunused
    refine ⟨hunused.operations, fun other hother => ?_, hunused.callbacks⟩
    rcases mem_cache hother with rfl | hold
    · exact hunused.callbacks callback hmem hgeneration
    · exact hunused.checkpoints other hold

theorem bitmapReady_sound (h : Sound browser d) {k : Nat} {callback : Callback size}
    (hcallback : d.callbacks[k]? = some callback) (decoded : Bool) :
    Sound browser (d.bitmapReady k callback decoded) := by
  unfold Document.bitmapReady
  split
  · exact settle_sound h k
  · next hfresh =>
    have hgeneration : callback.generation = d.generation := by
      simp only [Document.stale, Bool.or_eq_true, Bool.not_eq_true', not_or, bne_iff_ne, ne_eq,
        not_not] at hfresh
      exact hfresh.2.1.2
    exact settle_sound (cache_sound h (List.mem_of_getElem? hcallback) hgeneration) k

end Potocolom.Drawing
