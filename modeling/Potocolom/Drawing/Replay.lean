import Potocolom.Drawing.Document
import Potocolom.Drawing.Written

/-! # The drawing is its journal

Whatever is drawn, undone, redone, cleared or restored: the canvas shows the operations of the
journal up to the cursor, painted on paper in order. A checkpoint names the last operation of
the journal's beginning that it shows; since ids are never used twice, what stands before that
operation has not changed while it stands at that place. -/

namespace Potocolom.Drawing

variable {size : Nat} {browser : Browser size} {d : Document size}

/-! ## Painting in steps -/

/-- The journal's beginning on blank paper. -/
def replay (browser : Browser size) (operations : List Operation) : Canvas size :=
  paintOperations browser operations paintPaper

theorem replay_append (operations : List Operation) (operation : Operation) :
    replay browser (operations ++ [operation]) =
      paintOperation browser operation (replay browser operations) := by
  unfold replay paintOperations
  rw [List.foldl_append]
  rfl

/-- Painting goes on from an image of the beginning. -/
theorem replay_resume (operations : List Operation) (n : Nat) :
    paintOperations browser (operations.drop n) (replay browser (operations.take n)) =
      replay browser operations := by
  unfold replay paintOperations
  rw [← List.foldl_append, List.take_append_drop]

theorem isPaper_iff {canvas : Canvas size} : isPaper canvas = true ↔ canvas = paintPaper := by
  unfold isPaper paintPaper
  rw [decide_eq_true_iff]
  constructor
  · intro h
    funext i
    have hi := h i
    simp only [ne_eq, not_or, not_not] at hi
    cases hpixel : canvas i with
    | mk red green blue =>
      rw [hpixel] at hi
      simp only at hi
      rw [hi.1, hi.2.1, hi.2.2]
  · rintro rfl i
    simp

theorem paintSegments_append {operation extended : StrokeOperation}
    (hcolor : extended.color = operation.color) (hsize : extended.size = operation.size)
    {start last point : DrawingPoint} {rest : List DrawingPoint}
    (hlast : (start :: rest).getLast? = some last) (canvas : Canvas size) :
    paintSegments browser extended start (rest ++ [point]) canvas =
      paintSegment browser operation last point
        (paintSegments browser operation start rest canvas) := by
  have hsame : ∀ a b, paintSegment browser extended a b = paintSegment browser operation a b := by
    intro a b
    unfold paintSegment
    rw [hcolor, hsize]
  induction rest generalizing start canvas with
  | nil =>
    obtain rfl : start = last := Option.some.inj hlast
    simp only [List.nil_append, paintSegments, hsame]
  | cons next rest ih =>
    rw [List.getLast?_cons_cons] at hlast
    rw [List.cons_append, paintSegments, paintSegments, hsame]
    exact ih hlast _

/-- One more point is one more segment. -/
theorem paintStroke_append {operation : StrokeOperation} {last point : DrawingPoint}
    (hlast : operation.points.getLast? = some last) (canvas : Canvas size) :
    paintStroke browser { operation with points := operation.points ++ [point] } canvas =
      paintSegment browser operation last point (paintStroke browser operation canvas) := by
  obtain ⟨id, mode, color, width, points⟩ := operation
  cases points with
  | nil => cases hlast
  | cons start rest =>
    show paintSegments browser ⟨id, mode, color, width, start :: (rest ++ [point])⟩ start
        (rest ++ [point]) (paintDot browser ⟨id, mode, color, width, start :: rest⟩ start canvas) =
      paintSegment browser ⟨id, mode, color, width, start :: rest⟩ last point
        (paintSegments browser ⟨id, mode, color, width, start :: rest⟩ start rest
          (paintDot browser ⟨id, mode, color, width, start :: rest⟩ start canvas))
    apply paintSegments_append
    · rfl
    · rfl
    · exact hlast

/-! ## Checkpoints -/

theorem prefixIsCurrent_iff {checkpoint : Checkpoint size} :
    d.prefixIsCurrent checkpoint = true ↔
      ∃ last operation, checkpoint.prefixLength = last + 1 ∧
        d.operations[last]? = some operation ∧ operation.id = checkpoint.lastId := by
  unfold Document.prefixIsCurrent
  split
  · next hzero =>
    simp only [Bool.false_eq_true, false_iff]
    rintro ⟨last, -, heq, -⟩
    omega
  · next last hlast =>
    rw [decide_eq_true_iff, Option.map_eq_some_iff]
    constructor
    · rintro ⟨operation, hoperation, hid⟩
      exact ⟨last, operation, hlast, hoperation, hid⟩
    · rintro ⟨last', operation, heq, hoperation, hid⟩
      obtain rfl : last' = last := by omega
      exact ⟨operation, hoperation, hid⟩

/-- The image is that of the journal's beginning, wherever its last operation still stands. -/
structure Cached (browser : Browser size) (d : Document size) (checkpoint : Checkpoint size) :
    Prop where
  issued : checkpoint.lastId ∈ d.issued
  image : d.prefixIsCurrent checkpoint = true →
    checkpoint.image = replay browser (d.operations.take checkpoint.prefixLength)

/-- What is known of the journal and of the images of it. -/
structure Journal (browser : Browser size) (d : Document size) : Prop where
  distinct : (d.operations.map Operation.id).Nodup
  cursor : d.cursor ≤ d.operations.length
  issued : ∀ operation ∈ d.operations, operation.id ∈ d.issued
  checkpoints : ∀ checkpoint ∈ d.checkpoints, Cached browser d checkpoint
  callbacks : ∀ callback ∈ d.callbacks, callback.generation ≤ d.generation ∧
    (callback.generation = d.generation → Cached browser d callback.checkpoint)

theorem Cached.same {d' : Document size} {checkpoint : Checkpoint size}
    (h : Cached browser d checkpoint) (hissued : ∀ id ∈ d.issued, id ∈ d'.issued)
    (hoperations : d'.operations = d.operations) : Cached browser d' checkpoint := by
  refine ⟨hissued _ h.issued, fun hcurrent => ?_⟩
  rw [hoperations]
  apply h.image
  unfold Document.prefixIsCurrent at hcurrent ⊢
  rw [hoperations] at hcurrent
  exact hcurrent

theorem Journal.same {d' : Document size} (h : Journal browser d)
    (hoperations : d'.operations = d.operations) (hcursor : d'.cursor ≤ d.operations.length)
    (hissued : ∀ id ∈ d.issued, id ∈ d'.issued)
    (hcheckpoints : ∀ checkpoint ∈ d'.checkpoints, checkpoint ∈ d.checkpoints)
    (hcallbacks : ∀ callback ∈ d'.callbacks, ∃ old ∈ d.callbacks,
      callback.generation = old.generation ∧ callback.checkpoint = old.checkpoint)
    (hgeneration : d'.generation = d.generation) : Journal browser d' := by
  constructor
  · rw [hoperations]
    exact h.distinct
  · rw [hoperations]
    exact hcursor
  · rw [hoperations]
    exact fun operation hmem => hissued _ (h.issued operation hmem)
  · intro checkpoint hmem
    exact (h.checkpoints checkpoint (hcheckpoints checkpoint hmem)).same hissued hoperations
  · intro callback hmem
    obtain ⟨old, hold, hsame, himage⟩ := hcallbacks callback hmem
    rw [hgeneration, hsame, himage]
    refine ⟨(h.callbacks old hold).1, fun heq => ?_⟩
    exact ((h.callbacks old hold).2 heq).same hissued hoperations

/-- The journal's beginning up to an operation that still stands at its place has not changed
when another one was appended. -/
theorem Cached.append {d' : Document size} {checkpoint : Checkpoint size} {operation : Operation}
    (h : Cached browser d checkpoint) (hcursor : d.cursor ≤ d.operations.length)
    (hissued : d'.issued = d.issued) (hne : checkpoint.lastId ≠ operation.id)
    (hoperations : d'.operations = d.operations.take d.cursor ++ [operation]) :
    Cached browser d' checkpoint := by
  refine ⟨hissued ▸ h.issued, fun hcurrent => ?_⟩
  obtain ⟨last, found, hprefix, hfound, hid⟩ := prefixIsCurrent_iff.1 hcurrent
  have hlength : (d.operations.take d.cursor).length = d.cursor := by
    rw [List.length_take]
    omega
  rw [hoperations] at hfound ⊢
  rcases Nat.lt_trichotomy last d.cursor with hlt | heq | hgt
  · rw [List.getElem?_append_left (by omega), List.getElem?_take_of_lt hlt] at hfound
    rw [h.image (prefixIsCurrent_iff.2 ⟨last, found, hprefix, hfound, hid⟩), hprefix,
      List.take_append_of_le_length (by omega), List.take_take, Nat.min_eq_left (by omega)]
  · -- the new operation stands there
    rw [List.getElem?_append_right (by omega), hlength, heq, Nat.sub_self] at hfound
    cases hfound
    exact absurd hid.symm hne
  · rw [List.getElem?_append_right (by omega), hlength] at hfound
    have hout : last - d.cursor ≠ 0 := by omega
    obtain ⟨k, hk⟩ := Nat.exists_eq_succ_of_ne_zero hout
    rw [hk] at hfound
    cases hfound

/-- An id that nothing in the journal, and no image of it, is known by. -/
structure Unused (d : Document size) (id : String) : Prop where
  operations : ∀ operation ∈ d.operations, operation.id ≠ id
  checkpoints : ∀ checkpoint ∈ d.checkpoints, checkpoint.lastId ≠ id
  callbacks : ∀ callback ∈ d.callbacks, callback.generation = d.generation →
    callback.checkpoint.lastId ≠ id

theorem Journal.unused {id : String} (h : Journal browser d) (hid : id ∉ d.issued) :
    Unused d id := by
  constructor
  · rintro operation hmem rfl
    exact hid (h.issued operation hmem)
  · rintro checkpoint hmem rfl
    exact hid (h.checkpoints checkpoint hmem).issued
  · rintro callback hmem hsame rfl
    exact hid ((h.callbacks callback hmem).2 hsame).issued

@[simp] theorem append_operations (operation : Operation) :
    (d.append operation).operations = d.operations.take d.cursor ++ [operation] := rfl

theorem append_cursor (operation : Operation) :
    (d.append operation).cursor = (d.append operation).operations.length := rfl

theorem Journal.append {operation : Operation} (h : Journal browser d)
    (hunused : Unused d operation.id) (hissued : operation.id ∈ d.issued) :
    Journal browser (d.append operation) := by
  have hbefore : ∀ other ∈ d.operations.take d.cursor, other ∈ d.operations :=
    fun _ hmem => List.mem_of_mem_take hmem
  constructor
  · rw [append_operations, List.map_append, List.nodup_append]
    refine ⟨?_, List.nodup_singleton _, ?_⟩
    · exact h.distinct.sublist ((List.take_sublist _ _).map _)
    · intro id hid id' hid'
      obtain ⟨other, hother, rfl⟩ := List.mem_map.1 hid
      rw [List.map_singleton, List.mem_singleton] at hid'
      rw [hid']
      exact hunused.operations other (hbefore other hother)
  · exact Nat.le_refl _
  · intro other hother
    rcases List.mem_append.1 hother with hother | hother
    · exact h.issued other (hbefore other hother)
    · rw [List.mem_singleton] at hother
      rw [hother]
      exact hissued
  · intro checkpoint hmem
    have hold : checkpoint ∈ d.checkpoints := (List.mem_filter.1 hmem).1
    exact (h.checkpoints checkpoint hold).append h.cursor rfl
      (hunused.checkpoints checkpoint hold) rfl
  · intro callback hmem
    refine ⟨(h.callbacks callback hmem).1, fun heq => ?_⟩
    exact ((h.callbacks callback hmem).2 heq).append h.cursor rfl
      (hunused.callbacks callback hmem heq) rfl

/-- What is painted after an operation was appended. -/
theorem replay_appended (operation : Operation) :
    replay browser ((d.append operation).operations.take (d.append operation).cursor) =
      paintOperation browser operation (replay browser (d.operations.take d.cursor)) := by
  rw [append_cursor, List.take_length, append_operations, replay_append]

/-! ## Painting the journal again -/

theorem bestCheckpoint_eligible {best : Checkpoint size} (h : d.bestCheckpoint = some best) :
    best ∈ d.checkpoints ∧ d.eligible best = true := by
  have hbest : ∀ c ∈ d.bestCheckpoint, c ∈ d.checkpoints ∧ d.eligible c = true := by
    unfold Document.bestCheckpoint
    refine List.foldlRecOn (motive := fun best : Option (Checkpoint size) =>
      ∀ c ∈ best, c ∈ d.checkpoints ∧ d.eligible c = true) _ _ ?_ ?_
    · intro c hc
      cases hc
    · intro start hstart checkpoint hmem
      split
      · next helig =>
        have hnew : ∀ c ∈ some checkpoint, c ∈ d.checkpoints ∧ d.eligible c = true := by
          intro c hc
          cases hc
          exact ⟨hmem, helig⟩
        split
        · exact hnew
        · split
          · exact hnew
          · exact hstart
      · exact hstart
  exact hbest best h

/-- Whichever checkpoint is taken, the rest of the journal painted on it is the replay. -/
theorem Cached.resume {checkpoint : Checkpoint size} (h : Cached browser d checkpoint)
    (heligible : d.eligible checkpoint = true) :
    paintOperations browser ((d.operations.take d.cursor).drop checkpoint.prefixLength)
      checkpoint.image = replay browser (d.operations.take d.cursor) := by
  unfold Document.eligible at heligible
  rw [Bool.and_eq_true, decide_eq_true_eq] at heligible
  obtain ⟨hle, hcurrent⟩ := heligible
  rw [h.image hcurrent, ← replay_resume (d.operations.take d.cursor) checkpoint.prefixLength,
    List.take_take, Nat.min_eq_left hle]

/-- The canvas and the journal agree, and the pixels have been read back. -/
def Shown (browser : Browser size) (d : Document size) : Prop :=
  d.canvas = replay browser (d.operations.take d.cursor) ∧ d.blank = isPaper d.canvas

theorem render_shown (h : Journal browser d) (hdestroyed : d.destroyed = false) :
    Shown browser (d.render browser) := by
  have hcanvas : (d.render browser).canvas = replay browser (d.operations.take d.cursor) := by
    unfold Document.render
    rw [hdestroyed]
    cases hbest : d.bestCheckpoint with
    | none => rfl
    | some best =>
      obtain ⟨hmem, heligible⟩ := bestCheckpoint_eligible hbest
      exact (h.checkpoints best hmem).resume heligible
  have hrest : (d.render browser).operations = d.operations ∧
      (d.render browser).cursor = d.cursor ∧
      (d.render browser).blank = isPaper (d.render browser).canvas := by
    unfold Document.render
    rw [hdestroyed]
    exact ⟨rfl, rfl, rfl⟩
  unfold Shown
  rw [hrest.1, hrest.2.1, hrest.2.2]
  exact ⟨hcanvas, rfl⟩

end Potocolom.Drawing
