import Mathlib

/-! # What of a frame leaves the worker

`region_composite.py` of the worker and the two functions of `engine.py` that decide, from the
last frame that a session delivered, which pixels of a new one are delivered. The operations
of Pillow on images are parameters. -/

namespace Potocolom.Delivery

/-- Pillow, and the parts of a frame's parameters that the worker compares. -/
structure Pictures where
  Image : Type
  /-- The polygons of a mask. -/
  Polygons : Type
  /-- The parameters beside the mask. -/
  Rest : Type
  restEq : DecidableEq Rest
  /-- A latent of the pipeline. -/
  Latent : Type
  Stages : Type
  /-- What a frame is sent as. -/
  Data : Type
  size : Image → Nat × Nat
  convertRgb : Image → Image
  convertL : Image → Image
  difference : Image → Image → Image
  split : Image → Image × Image × Image
  lighter : Image → Image → Image
  darker : Image → Image → Image
  point : Image → (Nat → Nat) → Image
  boxBlur : Image → Nat → Image
  gaussianBlur : Image → Nat → Image
  composite : Image → Image → Image → Image
  histogram : Image → Nat → Nat
  /-- The polygons drawn in 255 on an image of 0; `none` when they are malformed. -/
  drawPolygons : Polygons → Nat × Nat → Option Image
  encodeWebp : Image → Data

attribute [instance] Pictures.restEq

def compositeDilationPx : Nat := 8

def compositeFeatherPx : Nat := 8

def maxCompositeFraction : ℚ := 2 / 100

variable {p : Pictures}

def maxChannelDifference (previous current : p.Image) : p.Image :=
  let difference := p.difference (p.convertRgb previous) (p.convertRgb current)
  let (red, green, blue) := p.split difference
  p.lighter (p.lighter red green) blue

def sketchChangeMask (previous current : p.Image) : p.Image :=
  p.point (maxChannelDifference previous current) fun value => if value = 0 then 0 else 255

/-- The passes of the dilation; each removes a radius of at most 8 from what remains. -/
def dilate (binary : p.Image) (remaining : Nat) : p.Image :=
  if _h : remaining = 0 then binary
  else
    let radius := min 8 remaining
    dilate (p.point (p.boxBlur binary radius) fun value => if value = 0 then 0 else 255)
      (remaining - radius)
termination_by remaining
decreasing_by omega

def featherChangeMask (mask : p.Image) (dilationPx featherPx : Nat) : p.Image :=
  let binary := p.point (p.convertL mask) fun value => if value = 0 then 0 else 255
  let binary := dilate binary dilationPx
  if featherPx = 0 then binary else p.gaussianBlur binary featherPx

/-- `selection_alpha` of `region_composite.py`. -/
def rasterizeSelection (polygons : p.Polygons) (size : Nat × Nat) : Option p.Image :=
  (p.drawPolygons polygons size).map fun binary =>
    p.darker (p.gaussianBlur binary compositeFeatherPx) binary

def compositeRgb (previous current alpha : p.Image) : p.Image :=
  p.composite (p.convertRgb current) (p.convertRgb previous) (p.convertL alpha)

def keepUnchangedPixels (previousSketch previousImage sketch image : p.Image) : p.Image :=
  if p.size previousSketch = p.size image ∧ p.size previousImage = p.size image ∧
      p.size sketch = p.size image then
    let dilated :=
      featherChangeMask (sketchChangeMask previousSketch sketch) compositeDilationPx 0
    let (width, height) := p.size dilated
    let covered : ℚ := (p.histogram dilated 255 : ℚ) / (width * height : ℚ)
    if maxCompositeFraction < covered then image
    else compositeRgb previousImage image (featherChangeMask dilated 0 compositeFeatherPx)
  else image

/-- `params`: a mask that is no dict counts as none. -/
structure Params (p : Pictures) where
  rest : p.Rest
  mask : Option p.Polygons

structure LastFrame (p : Pictures) where
  sketch : p.Image
  image : p.Image
  params : Params p
  latent : Option p.Latent

/-- `_selection_alpha` of a session that has delivered a frame. -/
def selectionAlpha (previous : LastFrame p) (params : Params p) (size : Nat × Nat) :
    Option p.Image :=
  if previous.params.rest = params.rest then
    match params.mask with
    | none => none
    | some polygons =>
      if p.size previous.sketch = size ∧ p.size previous.image = size then
        rasterizeSelection polygons size
      else none
  else none

/-- `_frame_for_delivery`: the image to deliver, and the sketch to remember with it. -/
def frameForDelivery (lastFrame : Option (LastFrame p)) (params : Params p)
    (payload image : p.Image) : p.Image × p.Image :=
  match lastFrame with
  | none => (image, payload)
  | some previous =>
    if previous.params.rest = params.rest then
      let alpha := if p.size payload = p.size image then
        selectionAlpha previous params (p.size image) else none
      match alpha with
      | some alpha =>
        let binary := p.point alpha fun value => if value = 255 then 255 else 0
        (compositeRgb previous.image image alpha, p.composite payload previous.sketch binary)
      | none => (keepUnchangedPixels previous.sketch previous.image payload image, payload)
    else (image, payload)

end Potocolom.Delivery
