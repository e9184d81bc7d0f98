import Mathlib

/-! # The tiles of an upscale

`_tile_starts` steps along one side of the image and forces a last tile at its border,
and `iter_tiles` shifts back what would reach over it. Whatever the rest of the sides
modulo the step, the tiles cover the image. -/

namespace Potocolom.Upscale

/-- What the code raises. -/
inductive Raised where
  | indexError
  | valueError (message : String)
  | cancelled
deriving DecidableEq, Repr

/-- `range(start, stop, step)`, for a positive step. -/
def range (start stop step : Int) : List Int :=
  (List.range ((stop - start + step - 1) / step).toNat).map fun (k : Nat) => start + step * k

/-- `_tile_starts`; the last start is asked for, which an empty range has not. -/
def tileStarts (length tile overlap : Int) : Except Raised (List Int) :=
  if length ≤ tile then .ok [0]
  else
    let step := max (tile - overlap) 1
    let starts := range 0 (length - overlap) step
    let last := length - tile
    match starts.getLast? with
    | none => .error .indexError
    | some s => if s ≠ last then .ok (starts ++ [last]) else .ok starts

structure Box where
  x0 : Int
  y0 : Int
  x1 : Int
  y1 : Int
deriving DecidableEq, Repr

/-- The body of the inner loop. -/
def tileAt (width height tile x0 y0 : Int) : Box :=
  let x1 := min (x0 + tile) width
  let y1 := min (y0 + tile) height
  let x0 := if x1 - x0 < tile ∧ tile ≤ width then max 0 (x1 - tile) else x0
  let y0 := if y1 - y0 < tile ∧ tile ≤ height then max 0 (y1 - tile) else y0
  ⟨x0, y0, x1, y1⟩

/-- The inner loop, which leaves `y0` as its body has set it. -/
def tileRow (width height tile y0 : Int) : List Int → List Box
  | [] => []
  | x0 :: rest =>
    let box := tileAt width height tile x0 y0
    box :: tileRow width height tile box.y0 rest

/-- Each box once, in the order in which they come. -/
def unique (tiles : List Box) : List Box :=
  tiles.foldl (fun kept box => if box ∈ kept then kept else kept ++ [box]) []

def iterTiles (width height tile overlap : Int) : Except Raised (List Box) := do
  let rows ← tileStarts height tile overlap
  let columns ← tileStarts width tile overlap
  return unique (rows.flatMap fun y0 => tileRow width height tile y0 columns)

variable {length width height tile overlap x y s : Int} {starts : List Int}

/-! ## One side -/

theorem mem_range {start stop step : Int} (hstep : 0 < step) :
    x ∈ range start stop step ↔ ∃ k : Nat, x = start + step * k ∧ x < stop := by
  unfold range
  rw [List.mem_map]
  constructor
  · rintro ⟨k, hk, rfl⟩
    refine ⟨k, rfl, ?_⟩
    rw [List.mem_range] at hk
    have hle : (k : Int) + 1 ≤ (stop - start + step - 1) / step := by omega
    have hmul := (Int.le_ediv_iff_mul_le hstep).1 hle
    linarith
  · rintro ⟨k, rfl, hlt⟩
    refine ⟨k, ?_, rfl⟩
    rw [List.mem_range]
    have hle : (k : Int) + 1 ≤ (stop - start + step - 1) / step := by
      apply (Int.le_ediv_iff_mul_le hstep).2
      linarith
    omega

/-- Where the tile that starts at `s` ends. -/
def hi (length tile s : Int) : Int := min (s + tile) length

/-- Where it starts, once it is shifted back from the border. -/
def lo (length tile s : Int) : Int :=
  if hi length tile s - s < tile ∧ tile ≤ length then max 0 (hi length tile s - tile) else s

theorem tileAt_eq (width height tile x0 y0 : Int) : tileAt width height tile x0 y0 =
    ⟨lo width tile x0, lo height tile y0, hi width tile x0, hi height tile y0⟩ := rfl

/-- A start within the side. -/
structure IsStart (length tile s : Int) : Prop where
  nonneg : 0 ≤ s
  lt : s < length
  zero : length ≤ tile → s = 0

theorem IsStart.hi_lo (h : IsStart length tile s) :
    hi length tile (lo length tile s) = hi length tile s := by
  have := h.nonneg
  have := h.lt
  unfold lo hi
  split_ifs
  · omega
  · rfl

/-- A tile that is shifted back is not shifted again. -/
theorem IsStart.lo_lo (h : IsStart length tile s) :
    lo length tile (lo length tile s) = lo length tile s := by
  have hhi := h.hi_lo
  have := h.nonneg
  have := h.lt
  unfold lo at hhi ⊢
  unfold hi at hhi ⊢
  split_ifs <;> omega

theorem IsStart.span (h : IsStart length tile s) (htile : 0 < tile) :
    0 ≤ lo length tile s ∧ lo length tile s < hi length tile s ∧ hi length tile s ≤ length ∧
      hi length tile s - lo length tile s = if tile ≤ length then tile else length := by
  have := h.nonneg
  have := h.lt
  have := h.zero
  unfold lo hi
  split_ifs <;> omega

/-- The starts of one side. -/
structure Starts (length tile : Int) (starts : List Int) : Prop where
  isStart : ∀ s ∈ starts, IsStart length tile s
  covers : ∀ p, 0 ≤ p → p < length → ∃ s ∈ starts, lo length tile s ≤ p ∧ p < hi length tile s

theorem starts_of_le (hlength : 1 ≤ length) (hle : length ≤ tile) : Starts length tile [0] := by
  have hstart : IsStart length tile 0 := ⟨by omega, by omega, fun _ => rfl⟩
  constructor
  · intro s hs
    rw [List.mem_singleton.1 hs]
    exact hstart
  · intro p hp hlt
    refine ⟨0, List.mem_cons_self, ?_⟩
    have := hstart.span (by omega)
    split_ifs at this <;> omega

/-- The steps and the forced last start together reach every pixel. -/
theorem starts_of_range (hoverlap : 0 ≤ overlap) (htile : overlap < tile) (hlt : tile < length)
    (hmem : ∀ s ∈ starts, s ∈ range 0 (length - overlap) (tile - overlap) ∨ s = length - tile)
    (hrange : ∀ s ∈ range 0 (length - overlap) (tile - overlap), s ∈ starts)
    (hlast : length - tile ∈ starts) : Starts length tile starts := by
  have hstep : 0 < tile - overlap := by omega
  constructor
  · intro s hs
    rcases hmem s hs with hin | rfl
    · obtain ⟨k, rfl, hk⟩ := (mem_range hstep).1 hin
      have hnonneg : 0 ≤ (tile - overlap) * k := Int.mul_nonneg (by omega) (by omega)
      exact ⟨by omega, by omega, fun h => by omega⟩
    · exact ⟨by omega, by omega, fun h => by omega⟩
  · intro p hp hplt
    -- the step that `p` falls into
    obtain ⟨k, hk⟩ := Int.eq_ofNat_of_zero_le (Int.ediv_nonneg hp (Int.le_of_lt hstep))
    have hfloor : (tile - overlap) * k ≤ p ∧ p < (tile - overlap) * k + (tile - overlap) := by
      have hdiv := Int.mul_ediv_add_emod p (tile - overlap)
      have hmod := Int.emod_nonneg p (Int.ne_of_gt hstep)
      have hmodlt := Int.emod_lt_of_pos p hstep
      rw [hk] at hdiv
      constructor <;> linarith
    by_cases hin : (tile - overlap) * k < length - overlap
    · have hmemk : (tile - overlap) * k ∈ range 0 (length - overlap) (tile - overlap) :=
        (mem_range hstep).2 ⟨k, by omega, hin⟩
      refine ⟨_, hrange _ hmemk, ?_⟩
      have hnonneg : 0 ≤ (tile - overlap) * k := Int.mul_nonneg (by omega) (by omega)
      unfold lo hi
      split_ifs <;> omega
    · -- it lies behind the last step, where the forced tile is
      refine ⟨_, hlast, ?_⟩
      unfold lo hi
      split_ifs <;> omega

theorem tileStarts_spec (hlength : 1 ≤ length) (hoverlap : 0 ≤ overlap) (htile : overlap < tile) :
    ∃ starts, tileStarts length tile overlap = .ok starts ∧ Starts length tile starts := by
  unfold tileStarts
  split
  · next hle => exact ⟨[0], rfl, starts_of_le hlength hle⟩
  · next hgt =>
    have hstep : max (tile - overlap) 1 = tile - overlap := by omega
    dsimp only
    rw [hstep]
    have hzero : (0 : Int) ∈ range 0 (length - overlap) (tile - overlap) :=
      (mem_range (by omega)).2 ⟨0, by simp, by omega⟩
    split
    · next hnone =>
      rw [List.getLast?_eq_none_iff.1 hnone] at hzero
      cases hzero
    · next s hs =>
      have hsmem := List.mem_of_getLast? hs
      split
      · refine ⟨_, rfl, starts_of_range hoverlap htile (by omega) ?_ ?_ ?_⟩
        · intro s' hs'
          rcases List.mem_append.1 hs' with h | h
          · exact .inl h
          · exact .inr (List.mem_singleton.1 h)
        · intro s' hs'
          exact List.mem_append_left _ hs'
        · exact List.mem_append_right _ List.mem_cons_self
      · next heq =>
        have heq : s = length - tile := by simpa using heq
        exact ⟨_, rfl, starts_of_range hoverlap htile (by omega) (fun _ h => .inl h)
          (fun _ h => h) (heq ▸ hsmem)⟩

/-! ## Both sides -/

theorem tileRow_eq {columns : List Int} (hy : IsStart height tile y) :
    tileRow width height tile y columns =
      columns.map fun x0 => ⟨lo width tile x0, lo height tile y, hi width tile x0,
        hi height tile y⟩ := by
  -- the row starts at `y`, or where its first box has shifted it
  have hrow : ∀ y0, lo height tile y0 = lo height tile y → hi height tile y0 = hi height tile y →
      tileRow width height tile y0 columns =
        columns.map fun x0 => ⟨lo width tile x0, lo height tile y, hi width tile x0,
          hi height tile y⟩ := by
    induction columns with
    | nil => exact fun _ _ _ => rfl
    | cons x0 rest ih =>
      intro y0 hlo hhi
      rw [tileRow, List.map_cons, tileAt_eq]
      dsimp only
      rw [hlo, hhi, ih _ hy.lo_lo hy.hi_lo]
  exact hrow y rfl rfl

theorem unique_spec (tiles : List Box) :
    (unique tiles).Nodup ∧ ∀ box, box ∈ unique tiles ↔ box ∈ tiles := by
  unfold unique
  have hfold : ∀ kept : List Box, kept.Nodup →
      (tiles.foldl (fun kept box => if box ∈ kept then kept else kept ++ [box]) kept).Nodup ∧
        ∀ box, box ∈ tiles.foldl (fun kept box => if box ∈ kept then kept else kept ++ [box]) kept ↔
          box ∈ kept ∨ box ∈ tiles := by
    induction tiles with
    | nil =>
      intro kept hkept
      exact ⟨hkept, fun box => by simp⟩
    | cons first rest ih =>
      intro kept hkept
      rw [List.foldl_cons]
      by_cases hin : first ∈ kept
      · rw [if_pos hin]
        refine ⟨(ih kept hkept).1, fun box => ?_⟩
        rw [(ih kept hkept).2 box, List.mem_cons]
        constructor
        · rintro (h | h)
          · exact .inl h
          · exact .inr (.inr h)
        · rintro (h | rfl | h)
          · exact .inl h
          · exact .inl hin
          · exact .inr h
      · rw [if_neg hin]
        have hnodup : (kept ++ [first]).Nodup := by
          rw [List.nodup_append]
          refine ⟨hkept, List.nodup_singleton first, ?_⟩
          rintro a ha b hb rfl
          rw [List.mem_singleton.1 hb] at ha
          exact hin ha
        refine ⟨(ih _ hnodup).1, fun box => ?_⟩
        rw [(ih _ hnodup).2 box, List.mem_append, List.mem_singleton, List.mem_cons, or_assoc]
  obtain ⟨hnodup, hmem⟩ := hfold [] List.nodup_nil
  exact ⟨hnodup, fun box => by simpa using hmem box⟩

def Box.Contains (box : Box) (x y : Int) : Prop :=
  box.x0 ≤ x ∧ x < box.x1 ∧ box.y0 ≤ y ∧ y < box.y1

/-- The boxes are distinct, lie in the image, have the size of a tile as far as the image
has it, and contain every pixel. -/
structure Covering (width height tile : Int) (tiles : List Box) : Prop where
  nodup : tiles.Nodup
  inside : ∀ box ∈ tiles, 0 ≤ box.x0 ∧ box.x0 < box.x1 ∧ box.x1 ≤ width ∧
    0 ≤ box.y0 ∧ box.y0 < box.y1 ∧ box.y1 ≤ height
  wide : ∀ box ∈ tiles, box.x1 - box.x0 = if tile ≤ width then tile else width
  high : ∀ box ∈ tiles, box.y1 - box.y0 = if tile ≤ height then tile else height
  covers : ∀ x y, 0 ≤ x → x < width → 0 ≤ y → y < height → ∃ box ∈ tiles, box.Contains x y

theorem iterTiles_spec (hwidth : 1 ≤ width) (hheight : 1 ≤ height) (hoverlap : 0 ≤ overlap)
    (htile : overlap < tile) :
    ∃ tiles, iterTiles width height tile overlap = .ok tiles ∧
      Covering width height tile tiles := by
  obtain ⟨rows, hrows, hrowStarts⟩ := tileStarts_spec hheight hoverlap htile
  obtain ⟨columns, hcolumns, hcolumnStarts⟩ := tileStarts_spec hwidth hoverlap htile
  refine ⟨unique (rows.flatMap fun y0 => tileRow width height tile y0 columns), ?_, ?_⟩
  · unfold iterTiles
    rw [hrows, hcolumns]
    rfl
  · obtain ⟨hnodup, hunique⟩ := unique_spec
      (rows.flatMap fun y0 => tileRow width height tile y0 columns)
    have hmem : ∀ box, box ∈ unique (rows.flatMap fun y0 => tileRow width height tile y0 columns) ↔
        ∃ y0 ∈ rows, ∃ x0 ∈ columns, box =
          ⟨lo width tile x0, lo height tile y0, hi width tile x0, hi height tile y0⟩ := by
      intro box
      rw [hunique, List.mem_flatMap]
      constructor
      · rintro ⟨y0, hy0, hbox⟩
        rw [tileRow_eq (hrowStarts.isStart y0 hy0)] at hbox
        obtain ⟨x0, hx0, rfl⟩ := List.mem_map.1 hbox
        exact ⟨y0, hy0, x0, hx0, rfl⟩
      · rintro ⟨y0, hy0, x0, hx0, rfl⟩
        refine ⟨y0, hy0, ?_⟩
        rw [tileRow_eq (hrowStarts.isStart y0 hy0)]
        exact List.mem_map_of_mem hx0
    constructor
    · exact hnodup
    · intro box hbox
      obtain ⟨y0, hy0, x0, hx0, rfl⟩ := (hmem box).1 hbox
      obtain ⟨hy, hylt, hyle, -⟩ := (hrowStarts.isStart y0 hy0).span (by omega)
      obtain ⟨hx, hxlt, hxle, -⟩ := (hcolumnStarts.isStart x0 hx0).span (by omega)
      exact ⟨hx, hxlt, hxle, hy, hylt, hyle⟩
    · intro box hbox
      obtain ⟨y0, -, x0, hx0, rfl⟩ := (hmem box).1 hbox
      exact ((hcolumnStarts.isStart x0 hx0).span (by omega)).2.2.2
    · intro box hbox
      obtain ⟨y0, hy0, x0, -, rfl⟩ := (hmem box).1 hbox
      exact ((hrowStarts.isStart y0 hy0).span (by omega)).2.2.2
    · intro x y hx hxlt hy hylt
      obtain ⟨x0, hx0, hxlo, hxhi⟩ := hcolumnStarts.covers x hx hxlt
      obtain ⟨y0, hy0, hylo, hyhi⟩ := hrowStarts.covers y hy hylt
      exact ⟨_, (hmem _).2 ⟨y0, hy0, x0, hx0, rfl⟩, hxlo, hxhi, hylo, hyhi⟩

end Potocolom.Upscale
