import Potocolom.Delivery.Composite
import Potocolom.Lib.Raster

/-! # The change mask on pictures of pixels

`feather_change_mask` and `keep_unchanged_pixels` over rasters. The box blur rounds to eight
bits after each of its passes; thresholded after each blur, it dilates the mask exactly. The
Gaussian blur, the blend of two pixels and the grey of a colour stay parameters. -/

namespace Potocolom.ChangeMask

open Delivery Raster

abbrev Colour := Level × Level × Level

/-- An image of mode L or RGB. -/
inductive Picture where
  | l (a : Raster Level)
  | rgb (a : Raster Colour)

/-- What of Pillow is left open, and what the code relies on there. -/
structure Pillow where
  /-- `convert("L")` of a colour. -/
  luma : Colour → Level
  /-- `Image.composite`, for one value of each image and of the mask. -/
  blend : Level → Level → Level → Level
  blend_zero : ∀ a b, blend a b 0 = b
  gaussianBlur : Picture → Nat → Picture
  gaussianBlur_zero : ∀ w h radius,
    gaussianBlur (.l ⟨w, h, fun _ _ => 0⟩) radius = .l ⟨w, h, fun _ _ => 0⟩

namespace Picture

def size : Picture → Nat × Nat
  | .l a => a.size
  | .rgb a => a.size

/-- One band of an image. -/
def red (a : Raster Colour) : Raster Level := a.map fun c => c.1

def green (a : Raster Colour) : Raster Level := a.map fun c => c.2.1

def blue (a : Raster Colour) : Raster Level := a.map fun c => c.2.2

def merge (r g b : Raster Level) : Raster Colour := map₂ Prod.mk r (map₂ Prod.mk g b)

def split : Picture → Picture × Picture × Picture
  | .l a => (.l a, .l a, .l a)
  | .rgb a => (.l (red a), .l (green a), .l (blue a))

/-- A filter works on each band by itself. -/
def onBands (f : Raster Level → Raster Level) : Picture → Picture
  | .l a => .l (f a)
  | .rgb a => .rgb (merge (f (red a)) (f (green a)) (f (blue a)))

def convertRgb : Picture → Picture
  | .l a => .rgb (a.map fun v => (v, v, v))
  | .rgb a => .rgb a

def convertL (luma : Colour → Level) : Picture → Picture
  | .l a => .l a
  | .rgb a => .l (a.map luma)

/-- An operation of `ImageChops`, which wants two images of one mode. -/
def chop (f : Level → Level → Level) : Picture → Picture → Picture
  | .l a, .l b => .l (map₂ f a b)
  | .rgb a, .rgb b => .rgb (map₂ (fun c d => (f c.1 d.1, f c.2.1 d.2.1, f c.2.2 d.2.2)) a b)
  | a, _ => a

/-- `point` with the values of the table, which are cut to eight bits. -/
def point (table : Nat → Nat) : Picture → Picture :=
  let level (v : Level) : Level := ⟨min (table v) 255, by omega⟩
  onBands (Raster.map level)

/-- `Image.composite`: the first image where the mask is 255, the second where it is 0. -/
def composite (blend : Level → Level → Level → Level) : Picture → Picture → Picture → Picture
  | .l a, .l b, .l m => .l (map₂ (fun p v => blend p.1 p.2 v) (map₂ Prod.mk a b) m)
  | .rgb a, .rgb b, .l m =>
    .rgb (map₂ (fun p v => (blend p.1.1 p.2.1 v, blend p.1.2.1 p.2.2.1 v,
      blend p.1.2.2 p.2.2.2 v)) (map₂ Prod.mk a b) m)
  | a, _, _ => a

/-- How many pixels have the value. -/
def count (a : Raster Level) (value : Nat) : Nat :=
  (Finset.univ.filter fun p : Fin a.width × Fin a.height => (a.pixel p.1 p.2 : Nat) = value).card

def histogram : Picture → Nat → Nat
  | .l a, k => count a k
  | .rgb a, k =>
    if k < 256 then count (red a) k
    else if k < 512 then count (green a) (k - 256)
    else count (blue a) (k - 512)

end Picture

def absoluteDifference (a b : Level) : Level :=
  ⟨max (a : Nat) b - min (a : Nat) b, by omega⟩

/-- The functions of `region_composite.py` that are followed here, over rasters. -/
abbrev Pillow.pictures (f : Pillow) : Pictures where
  Image := Picture
  Polygons := Unit
  Rest := Unit
  restEq := inferInstance
  Latent := Unit
  Stages := Unit
  Data := Unit
  size := Picture.size
  convertRgb := Picture.convertRgb
  convertL := Picture.convertL f.luma
  difference := Picture.chop absoluteDifference
  split := Picture.split
  lighter := Picture.chop max
  darker := Picture.chop min
  point image table := Picture.point table image
  boxBlur image radius := Picture.onBands (Raster.boxBlur radius) image
  gaussianBlur := f.gaussianBlur
  composite := Picture.composite f.blend
  histogram := Picture.histogram
  drawPolygons _ _ := none
  encodeWebp _ := ()

/-- What the functions raise. -/
inductive Raised where
  | valueError (message : String)
  | zeroDivisionError
deriving DecidableEq, Repr

section Checked

variable {p : Pictures}

/-- `feather_change_mask` with the check it begins with. -/
def checkedFeatherChangeMask (mask : p.Image) (dilationPx featherPx : Int) :
    Except Raised p.Image :=
  if dilationPx < 0 ∨ featherPx < 0 then
    .error (.valueError "dilation_px and feather_px must be non-negative")
  else .ok (featherChangeMask mask dilationPx.toNat featherPx.toNat)

/-- `keep_unchanged_pixels`, which divides by the area of the mask. -/
def checkedKeepUnchangedPixels (previousSketch previousImage sketch image : p.Image) :
    Except Raised p.Image :=
  let dilated := featherChangeMask (sketchChangeMask previousSketch sketch) compositeDilationPx 0
  if p.size previousSketch = p.size image ∧ p.size previousImage = p.size image ∧
      p.size sketch = p.size image ∧ (p.size dilated).1 * (p.size dilated).2 = 0 then
    .error .zeroDivisionError
  else .ok (keepUnchangedPixels previousSketch previousImage sketch image)

end Checked

/-! ## The dilation -/

variable (f : Pillow) {w h : Nat}

theorem point_threshold (a : Raster Level) :
    Picture.point (fun value => if value = 0 then 0 else 255) (.l a) = .l a.threshold := by
  refine congrArg (fun g => Picture.l (a.map g)) ?_
  funext v
  by_cases hzero : v = 0
  · simp [hzero]
  · have hne : (v : Nat) ≠ 0 := fun heq => hzero (Fin.ext heq)
    simp only [if_neg hne, if_neg hzero]
    rfl

section Passes

variable {p : Pictures}

theorem dilate_zero (binary : p.Image) : dilate binary 0 = binary := by
  rw [dilate]
  exact dif_pos rfl

theorem dilate_pos (binary : p.Image) {remaining : Nat} (hpos : remaining ≠ 0) :
    dilate binary remaining =
      dilate (p.point (p.boxBlur binary (min 8 remaining)) fun value => if value = 0 then 0 else 255)
        (remaining - min 8 remaining) := by
  rw [dilate]
  exact dif_neg hpos

/-- 255 where the value is not zero. -/
def binaryOf (mask : p.Image) : p.Image :=
  p.point (p.convertL mask) fun value => if value = 0 then 0 else 255

theorem featherChangeMask_unfeathered (mask : p.Image) (d : Nat) :
    featherChangeMask mask d 0 = dilate (binaryOf mask) d := rfl

theorem featherChangeMask_undilated (mask : p.Image) {px : Nat} (hpx : px ≠ 0) :
    featherChangeMask mask 0 px = p.gaussianBlur (binaryOf mask) px := by
  unfold featherChangeMask
  dsimp only
  rw [dilate_zero, if_neg hpx]
  rfl

theorem checkedKeepUnchangedPixels_eq {previousSketch previousImage sketch image dilated : p.Image}
    {w h n : Nat} (hsketch : p.size previousSketch = p.size image)
    (himage : p.size previousImage = p.size image) (hnew : p.size sketch = p.size image)
    (hdilated : featherChangeMask (sketchChangeMask previousSketch sketch) compositeDilationPx 0 =
      dilated)
    (hsize : p.size dilated = (w, h)) (harea : w * h ≠ 0) (hcount : p.histogram dilated 255 = n) :
    checkedKeepUnchangedPixels previousSketch previousImage sketch image =
      .ok (if maxCompositeFraction < (n : ℚ) / (w * h : ℚ) then image
        else compositeRgb previousImage image
          (featherChangeMask dilated 0 compositeFeatherPx)) := by
  subst hdilated hcount
  have hw := congrArg Prod.fst hsize
  have hh := congrArg Prod.snd hsize
  dsimp only at hw hh
  subst hw hh
  unfold checkedKeepUnchangedPixels keepUnchangedPixels
  dsimp only
  rw [if_neg fun hall => harea hall.2.2.2, if_pos ⟨hsketch, himage, hnew⟩]

end Passes

/-- The passes of the dilation add up: each dilates by its radius what the earlier ones have
dilated. -/
theorem dilate_dilated (a : Raster Level) (done remaining : Nat) :
    dilate (p := f.pictures) (.l (a.dilated done)) remaining = .l (a.dilated (done + remaining)) := by
  induction remaining using Nat.strongRecOn generalizing done with
  | ind remaining ih =>
    by_cases hzero : remaining = 0
    · rw [hzero, dilate_zero, Nat.add_zero]
    · have hpass : f.pictures.point (f.pictures.boxBlur (.l (a.dilated done)) (min 8 remaining))
          (fun value => if value = 0 then 0 else 255) =
          (.l (a.dilated (done + min 8 remaining)) : Picture) := by
        refine (point_threshold _).trans ?_
        rw [threshold_boxBlur (Nat.min_le_left ..)]
      rw [dilate_pos _ hzero, hpass, ih (remaining - min 8 remaining) (by omega)]
      congr 2
      omega

theorem binaryOf_l (mask : Raster Level) :
    binaryOf (p := f.pictures) (.l mask) = (.l (mask.dilated 0) : Picture) := by
  rw [← threshold_dilated_zero]
  exact point_threshold mask

theorem featherChangeMask_dilated (mask : Raster Level) (d : Nat) :
    featherChangeMask (p := f.pictures) (.l mask) d 0 = (.l (mask.dilated d) : Picture) := by
  rw [featherChangeMask_unfeathered, binaryOf_l, dilate_dilated, Nat.zero_add]

/-! ## The changed pixels -/

theorem absoluteDifference_eq_zero {a b : Level} : absoluteDifference a b = 0 ↔ a = b := by
  rw [Fin.ext_iff, Fin.ext_iff]
  show max (a : Nat) b - min (a : Nat) b = 0 ↔ _
  omega

theorem max_eq_zero {a b : Level} : max a b = 0 ↔ a = 0 ∧ b = 0 := by
  rw [Fin.ext_iff, Fin.ext_iff, Fin.ext_iff]
  rcases le_total a b with hle | hle
  · rw [max_eq_right hle]
    have := Fin.le_def.1 hle
    simp only [Fin.val_zero]
    omega
  · rw [max_eq_left hle]
    have := Fin.le_def.1 hle
    simp only [Fin.val_zero]
    omega

/-- The mask of the change is 255 where the two sketches differ. -/
theorem sketchChangeMask_rgb (previous current : Fin w → Fin h → Colour) :
    sketchChangeMask (p := f.pictures) (.rgb ⟨w, h, previous⟩) (.rgb ⟨w, h, current⟩) =
      (.l ⟨w, h, fun x y => if previous x y = current x y then 0 else 255⟩ : Picture) := by
  have hmax : maxChannelDifference (p := f.pictures) (.rgb ⟨w, h, previous⟩)
      (.rgb ⟨w, h, current⟩) = (.l ⟨w, h, fun x y =>
        max (max (absoluteDifference (previous x y).1 (current x y).1)
          (absoluteDifference (previous x y).2.1 (current x y).2.1))
          (absoluteDifference (previous x y).2.2 (current x y).2.2)⟩ : Picture) := by
    simp [maxChannelDifference, Pillow.pictures, Picture.convertRgb, Picture.chop,
      Picture.split, Picture.red, Picture.green, Picture.blue, Raster.map]
  unfold sketchChangeMask
  rw [hmax]
  refine (point_threshold _).trans ?_
  refine congrArg (fun g => Picture.l ⟨w, h, g⟩) ?_
  funext x y
  have hsame : previous x y = current x y ↔
      max (max (absoluteDifference (previous x y).1 (current x y).1)
        (absoluteDifference (previous x y).2.1 (current x y).2.1))
        (absoluteDifference (previous x y).2.2 (current x y).2.2) = 0 := by
    rw [max_eq_zero, max_eq_zero, absoluteDifference_eq_zero, absoluteDifference_eq_zero,
      absoluteDifference_eq_zero, Prod.ext_iff, Prod.ext_iff, and_assoc]
  by_cases heq : previous x y = current x y
  · rw [if_pos heq]
    exact if_pos (hsame.1 heq)
  · rw [if_neg heq]
    exact if_neg fun hzero => heq (hsame.2 hzero)

/-- The pixels within distance `d` of one where the sketches differ. -/
def changedNeighbourhood (previous current : Fin w → Fin h → Colour) (d : Nat) :
    Finset (Fin w × Fin h) :=
  Finset.univ.filter fun q => ∃ i j, previous i j ≠ current i j ∧ chebyshev q.1 i q.2 j ≤ d

theorem mem_changedNeighbourhood {previous current : Fin w → Fin h → Colour} {d : Nat}
    {q : Fin w × Fin h} : q ∈ changedNeighbourhood previous current d ↔
      ∃ i j, previous i j ≠ current i j ∧ chebyshev q.1 i q.2 j ≤ d := by
  simp [changedNeighbourhood]

/-- 255 at the pixels of the set. -/
def maskOf (pixels : Finset (Fin w × Fin h)) : Raster Level :=
  ⟨w, h, fun x y => if (x, y) ∈ pixels then 255 else 0⟩

theorem featherChangeMask_sketches (previous current : Fin w → Fin h → Colour) (d : Nat) :
    featherChangeMask (p := f.pictures)
      (sketchChangeMask (p := f.pictures) (.rgb ⟨w, h, previous⟩) (.rgb ⟨w, h, current⟩)) d 0 =
      (.l (maskOf (changedNeighbourhood previous current d)) : Picture) := by
  rw [sketchChangeMask_rgb, featherChangeMask_dilated]
  refine congrArg (fun g => Picture.l ⟨w, h, g⟩) ?_
  funext x y
  refine if_congr ?_ rfl rfl
  rw [mem_changedNeighbourhood]
  refine exists_congr fun i => exists_congr fun j => and_congr ?_ Iff.rfl
  by_cases heq : previous i j = current i j
  · simp [heq]
  · simp only [ne_eq, heq, not_false_eq_true, iff_true]
    decide

theorem histogram_maskOf (pixels : Finset (Fin w × Fin h)) :
    Picture.histogram (.l (maskOf pixels)) 255 = pixels.card := by
  have hset : (Finset.univ.filter fun q : Fin w × Fin h =>
      (((maskOf pixels).pixel q.1 q.2 : Level) : Nat) = 255) = pixels := by
    ext q
    rw [Finset.mem_filter]
    show _ ∧ (((if (q.1, q.2) ∈ pixels then 255 else 0 : Level)) : Nat) = 255 ↔ q ∈ pixels
    by_cases hmem : (q.1, q.2) ∈ pixels
    · rw [if_pos hmem]
      exact iff_of_true ⟨Finset.mem_univ q, rfl⟩ hmem
    · rw [if_neg hmem]
      exact iff_of_false (fun h => absurd h.2 (by decide)) hmem
  exact congrArg Finset.card hset

/-- Composited through a mask of zeros, the previous image is unchanged. -/
theorem compositeRgb_zero (previous current : Fin w → Fin h → Colour) :
    compositeRgb (p := f.pictures) (.rgb ⟨w, h, previous⟩) (.rgb ⟨w, h, current⟩)
      (.l ⟨w, h, fun _ _ => 0⟩) = (.rgb ⟨w, h, previous⟩ : Picture) := by
  simp [compositeRgb, Pillow.pictures, Picture.convertRgb, Picture.convertL, Picture.composite,
    f.blend_zero]

theorem maskOf_empty : maskOf (∅ : Finset (Fin w × Fin h)) = ⟨w, h, fun _ _ => 0⟩ := by
  simp [maskOf]

/-- What `keep_unchanged_pixels` answers for four images of one size. -/
theorem keepUnchangedPixels_eq (hw : 0 < w) (hh : 0 < h)
    (previousSketch previousImage sketch image : Fin w → Fin h → Colour) :
    checkedKeepUnchangedPixels (p := f.pictures) (.rgb ⟨w, h, previousSketch⟩)
      (.rgb ⟨w, h, previousImage⟩) (.rgb ⟨w, h, sketch⟩) (.rgb ⟨w, h, image⟩) =
      .ok (if maxCompositeFraction <
          ((changedNeighbourhood previousSketch sketch 8).card : ℚ) / (w * h : ℚ) then
        (.rgb ⟨w, h, image⟩ : Picture)
      else compositeRgb (p := f.pictures) (.rgb ⟨w, h, previousImage⟩) (.rgb ⟨w, h, image⟩)
        (featherChangeMask (p := f.pictures)
          (.l (maskOf (changedNeighbourhood previousSketch sketch 8))) 0 8)) := by
  have harea : w * h ≠ 0 := Nat.mul_ne_zero (by omega) (by omega)
  exact checkedKeepUnchangedPixels_eq (p := f.pictures) rfl rfl rfl
    (featherChangeMask_sketches f previousSketch sketch compositeDilationPx) rfl harea
    (histogram_maskOf _)

/-- Sketches without a difference leave every pixel to the previous image. -/
theorem keepUnchangedPixels_identical (hw : 0 < w) (hh : 0 < h)
    (sketch previousImage image : Fin w → Fin h → Colour) :
    checkedKeepUnchangedPixels (p := f.pictures) (.rgb ⟨w, h, sketch⟩)
      (.rgb ⟨w, h, previousImage⟩) (.rgb ⟨w, h, sketch⟩) (.rgb ⟨w, h, image⟩) =
      .ok (.rgb ⟨w, h, previousImage⟩ : Picture) := by
  have hnone : changedNeighbourhood sketch sketch 8 = ∅ := by
    ext q
    simp [mem_changedNeighbourhood]
  have hfeather : featherChangeMask (p := f.pictures) (.l ⟨w, h, fun _ _ => 0⟩) 0 8 =
      (.l ⟨w, h, fun _ _ => 0⟩ : Picture) := by
    have hbinary : (⟨w, h, fun _ _ => 0⟩ : Raster Level).dilated 0 = ⟨w, h, fun _ _ => 0⟩ := by
      rw [← threshold_dilated_zero]
      rfl
    rw [featherChangeMask_undilated _ (by decide), binaryOf_l, hbinary]
    exact f.gaussianBlur_zero w h 8
  have hfraction : ¬ maxCompositeFraction < (0 : ℚ) / (w * h : ℚ) := by
    unfold maxCompositeFraction
    norm_num
  rw [keepUnchangedPixels_eq f hw hh, hnone, maskOf_empty, Finset.card_empty, Nat.cast_zero,
    if_neg hfraction, hfeather, compositeRgb_zero]

/-- The mask is dilated to exactly the pixels within the distance, whatever its size. So the
coverage that is compared with the limit is that of the neighbourhood of the changed pixels,
each changed pixel belongs to it, and without one the previous image is returned. -/
theorem change_mask_exact :
    (∀ (mask : Raster Level) (d : Int), 0 ≤ d →
      checkedFeatherChangeMask (p := f.pictures) (.l mask) d 0 =
        .ok (.l ⟨mask.width, mask.height, fun x y =>
          if ∃ i j, mask.pixel i j ≠ 0 ∧
            max ((x : Int) - i).natAbs ((y : Int) - j).natAbs ≤ d.toNat then 255 else 0⟩ :
          Picture)) ∧
    (∀ (w h : Nat), 0 < w → 0 < h →
      ∀ previousSketch previousImage sketch image : Fin w → Fin h → Colour,
      checkedKeepUnchangedPixels (p := f.pictures) (.rgb ⟨w, h, previousSketch⟩)
        (.rgb ⟨w, h, previousImage⟩) (.rgb ⟨w, h, sketch⟩) (.rgb ⟨w, h, image⟩) =
        .ok (if maxCompositeFraction <
            ((changedNeighbourhood previousSketch sketch 8).card : ℚ) / (w * h : ℚ) then
          (.rgb ⟨w, h, image⟩ : Picture)
        else compositeRgb (p := f.pictures) (.rgb ⟨w, h, previousImage⟩) (.rgb ⟨w, h, image⟩)
          (featherChangeMask (p := f.pictures)
            (.l (maskOf (changedNeighbourhood previousSketch sketch 8))) 0 8)) ∧
      (∀ x y, previousSketch x y ≠ sketch x y →
        (x, y) ∈ changedNeighbourhood previousSketch sketch 8) ∧
      (sketch = previousSketch →
        checkedKeepUnchangedPixels (p := f.pictures) (.rgb ⟨w, h, previousSketch⟩)
          (.rgb ⟨w, h, previousImage⟩) (.rgb ⟨w, h, sketch⟩) (.rgb ⟨w, h, image⟩) =
          .ok (.rgb ⟨w, h, previousImage⟩ : Picture))) := by
  constructor
  · intro mask d hd
    unfold checkedFeatherChangeMask
    rw [if_neg (by omega)]
    exact congrArg Except.ok (featherChangeMask_dilated f mask d.toNat)
  · intro w h hw hh previousSketch previousImage sketch image
    refine ⟨keepUnchangedPixels_eq f hw hh _ _ _ _, ?_, ?_⟩
    · intro x y hne
      exact mem_changedNeighbourhood.2 ⟨x, y, hne, by simp [chebyshev]⟩
    · rintro rfl
      exact keepUnchangedPixels_identical f hw hh _ _ _

section Sample

/-- Pillow's grey of a colour and its blend of two values; the blur is only asked for a mask
of zeros. -/
def samplePillow : Pillow where
  luma c := ⟨(19595 * c.1 + 38470 * c.2.1 + 7471 * c.2.2 + 32768) / 65536, by omega⟩
  blend a b m :=
    let sum := (a : Nat) * m + b * (255 - m) + 128
    ⟨(sum / 256 + sum) / 256 % 256, by omega⟩
  blend_zero a b := by
    have hb := b.isLt
    have hdiv : ((b : Nat) * 255 + 128) / 256 = b ∨ ((b : Nat) * 255 + 128) / 256 + 1 = b := by
      omega
    apply Fin.ext
    simp only [Fin.val_zero, Nat.mul_zero, Nat.zero_add, Nat.sub_zero]
    rcases hdiv with hdiv | hdiv <;> omega
  gaussianBlur image _ := image
  gaussianBlur_zero _ _ _ := rfl

/-- One black pixel, and one white one. -/
def black : Fin 1 → Fin 1 → Colour := fun _ _ => (0, 0, 0)

def white : Fin 1 → Fin 1 → Colour := fun _ _ => (255, 255, 255)

theorem change_mask_exact_sample :
    checkedFeatherChangeMask (p := samplePillow.pictures) (.l ⟨1, 1, fun _ _ => 0⟩) 9 0 =
      .ok (.l ⟨1, 1, fun _ _ => 0⟩ : Picture) ∧
    checkedKeepUnchangedPixels (p := samplePillow.pictures) (.rgb ⟨1, 1, black⟩)
      (.rgb ⟨1, 1, white⟩) (.rgb ⟨1, 1, black⟩) (.rgb ⟨1, 1, black⟩) =
      .ok (.rgb ⟨1, 1, white⟩ : Picture) := by
  obtain ⟨hmask, hkeep⟩ := change_mask_exact samplePillow
  constructor
  · rw [hmask ⟨1, 1, fun _ _ => 0⟩ 9 (by decide)]
    simp
  · exact (hkeep 1 1 (by decide) (by decide) black white black black).2.2 rfl

/-- With a previous image of another size the new image is returned, whatever the sketches. -/
theorem resized_image_replaces :
    ¬ ∀ (f : Pillow) (sketch previousImage image : Picture),
      checkedKeepUnchangedPixels (p := f.pictures) sketch previousImage sketch image =
        .ok previousImage := by
  intro hall
  have hreturn := hall samplePillow (.rgb ⟨1, 1, black⟩) (.rgb ⟨2, 1, fun _ _ => (0, 0, 0)⟩)
    (.rgb ⟨1, 1, black⟩)
  have himage : checkedKeepUnchangedPixels (p := samplePillow.pictures) (.rgb ⟨1, 1, black⟩)
      (.rgb ⟨2, 1, fun _ _ => (0, 0, 0)⟩) (.rgb ⟨1, 1, black⟩) (.rgb ⟨1, 1, black⟩) =
      .ok (.rgb ⟨1, 1, black⟩ : Picture) := by
    have hsize : ¬ samplePillow.pictures.size (.rgb ⟨2, 1, fun _ _ => (0, 0, 0)⟩ : Picture) =
        samplePillow.pictures.size (.rgb ⟨1, 1, black⟩ : Picture) := by
      show ¬ ((2, 1) : Nat × Nat) = (1, 1)
      decide
    unfold checkedKeepUnchangedPixels keepUnchangedPixels
    rw [if_neg fun h => hsize h.2.1, if_neg fun h => hsize h.2.1]
  rw [himage] at hreturn
  cases hreturn

end Sample

end Potocolom.ChangeMask
