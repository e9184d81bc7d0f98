import Potocolom.Upscale.Tiles

/-! # The blend of an upscale

`upscale_tiled` adds up what the network makes of each tile, weighted by a mask that fades
at the borders of the tile, and divides by the sum of the weights. No weight is zero, so
that what every tile agrees on comes out as it is. Numbers are exact. -/

namespace Potocolom.Upscale

/-- `linspace(0, 1, fade + 1)[1:]` -/
def ramp (fade : Nat) : List ℚ := (List.range fade).map fun (k : Nat) => ((k : ℚ) + 1) / fade

/-- Ones, then `w[:fade] = ramp`, then `w[-fade:] = ramp.flip(0)`. -/
def fadeSide (n fade : Nat) : List ℚ :=
  let w := ramp fade ++ (List.replicate n 1).drop fade
  w.take (n - fade) ++ (ramp fade).reverse

def fadeOf (tileH tileW overlap : Nat) : Nat := max (min overlap (min (tileH / 2) (tileW / 2))) 1

/-- `_blend_weights` -/
def blendWeights (tileH tileW overlap y x : Nat) : ℚ :=
  (fadeSide tileH (fadeOf tileH tileW overlap)).getD y 0 *
    (fadeSide tileW (fadeOf tileH tileW overlap)).getD x 0

/-- Three channels of `height` by `width` values. -/
structure Tensor where
  height : Nat
  width : Nat
  value : Fin 3 → Nat → Nat → ℚ

/-- `src[:, :, y0:y1, x0:x1]` -/
def crop (src : Tensor) (box : Box) : Tensor where
  height := (box.y1 - box.y0).toNat
  width := (box.x1 - box.x0).toNat
  value channel y x := src.value channel (box.y0.toNat + y) (box.x0.toNat + x)

section
variable (scale overlap : Int) (box : Box)

/-- The first row and column of the output that a tile writes, and how many it writes. -/
def outY : Nat := (box.y0 * scale).toNat

def outX : Nat := (box.x0 * scale).toNat

def useH : Nat := ((box.y1 - box.y0) * scale).toNat

def useW : Nat := ((box.x1 - box.x0) * scale).toNat

def Writes (y x : Nat) : Prop :=
  outY scale box ≤ y ∧ y < outY scale box + useH scale box ∧
    outX scale box ≤ x ∧ x < outX scale box + useW scale box

instance (y x : Nat) : Decidable (Writes scale box y x) := by
  unfold Writes
  infer_instance

/-- The weight of a pixel of the output in the mask of the tile. -/
def mask (y x : Nat) : ℚ :=
  blendWeights (useH scale box) (useW scale box) (overlap * scale).toNat
    (y - outY scale box) (x - outX scale box)

/-- `accumulator` and `weight_map`. -/
structure Accumulated where
  sum : Fin 3 → Nat → Nat → ℚ
  weight : Nat → Nat → ℚ

def addTile (out : Tensor) (a : Accumulated) : Accumulated where
  sum channel y x :=
    if Writes scale box y x then
      a.sum channel y x + out.value channel (y - outY scale box) (x - outX scale box) *
        mask scale overlap box y x
    else a.sum channel y x
  weight y x :=
    if Writes scale box y x then a.weight y x + mask scale overlap box y x else a.weight y x

end

/-- What is third-party, or comes from outside: the network, `F.pad` in the mode `reflect`,
and whether the job is cancelled before the tile of an index. -/
structure Runtime where
  model : Tensor → Tensor
  pad : Tensor → Nat → Nat → Tensor
  cancelled : Nat → Bool

/-- The tile as the network is given it. -/
def patchOf (runtime : Runtime) (src : Tensor) (tile : Int) (box : Box) : Tensor :=
  let patch := crop src box
  let padH := if tile ≤ src.height then max (tile - patch.height) 0 else 0
  let padW := if tile ≤ src.width then max (tile - patch.width) 0 else 0
  if padH ≠ 0 ∨ padW ≠ 0 then runtime.pad patch padW.toNat padH.toNat else patch

/-- The loop over the tiles, from the tile of `index` on. -/
def accumulate (runtime : Runtime) (src : Tensor) (scale tile overlap : Int) (index : Nat) :
    List Box → Accumulated → Except Raised Accumulated
  | [], a => .ok a
  | box :: rest, a =>
    if runtime.cancelled index = true then .error .cancelled
    else
      let out := runtime.model (patchOf runtime src tile box)
      accumulate runtime src scale tile overlap (index + 1) rest (addTile scale overlap box out a)

/-- `int(native_scale or factor)` -/
def modelScaleOf (factor : Int) : Option Int → Int
  | none => factor
  | some s => if s = 0 then factor else s

/-- `accumulator / weight_map.clamp_min(1e-8)` -/
def merged (src : Tensor) (scale : Int) (a : Accumulated) : Tensor where
  height := (src.height * scale).toNat
  width := (src.width * scale).toNat
  value channel y x := a.sum channel y x / max (a.weight y x) (1 / 10 ^ 8)

/-- `upscale_tiled` as far as `merged`. -/
def upscaleTiled (runtime : Runtime) (src : Tensor) (factor : Int) (nativeScale : Option Int)
    (tile overlap : Int) : Except Raised Tensor := do
  let scale := modelScaleOf factor nativeScale
  if scale < 1 then
    .error (.valueError ("invalid native upscale scale: " ++ toString scale))
  else if scale < factor then
    .error (.valueError ("requested factor " ++ toString factor ++
      " exceeds network native scale " ++ toString scale))
  else
    let tiles ← iterTiles src.width src.height tile overlap
    if tiles = [] then .error (.valueError "empty tile grid")
    else
      let a ← accumulate runtime src scale tile overlap 0 tiles ⟨fun _ _ _ => 0, fun _ _ => 0⟩
      return merged src scale a

variable {n fade tileH tileW : Nat} {scale tile overlap : Int} {box : Box} {y x : Nat}
  {runtime : Runtime} {src target : Tensor}

/-! ## The mask -/

theorem le_of_mem_ramp {w : ℚ} (h : w ∈ ramp fade) : 1 / (fade : ℚ) ≤ w := by
  unfold ramp at h
  obtain ⟨k, -, rfl⟩ := List.mem_map.1 h
  apply div_le_div_of_nonneg_right _ (Nat.cast_nonneg fade)
  have hk : (0 : ℚ) ≤ (k : ℚ) := Nat.cast_nonneg k
  linarith

/-- No weight of a side is less than the first of its ramp. -/
theorem le_of_mem_fadeSide (hfade : 1 ≤ fade) {w : ℚ} (h : w ∈ fadeSide n fade) :
    1 / (fade : ℚ) ≤ w := by
  have hone : 1 / (fade : ℚ) ≤ 1 := by
    have hcast : (1 : ℚ) ≤ fade := by exact_mod_cast hfade
    rw [div_le_one (by linarith)]
    exact hcast
  unfold fadeSide at h
  rcases List.mem_append.1 h with h | h
  · rcases List.mem_append.1 (List.mem_of_mem_take h) with h | h
    · exact le_of_mem_ramp h
    · rw [List.eq_of_mem_replicate (List.mem_of_mem_drop h)]
      exact hone
  · exact le_of_mem_ramp (List.mem_reverse.1 h)

theorem length_fadeSide (hfade : fade ≤ n) : (fadeSide n fade).length = n := by
  unfold fadeSide ramp
  simp only [List.length_append, List.length_take, List.length_map, List.length_range,
    List.length_drop, List.length_replicate, List.length_reverse]
  omega

theorem fadeOf_spec (tileH tileW overlap : Nat) (hH : 1 ≤ tileH) (hW : 1 ≤ tileW) :
    1 ≤ fadeOf tileH tileW overlap ∧ fadeOf tileH tileW overlap ≤ tileH ∧
      fadeOf tileH tileW overlap ≤ tileW ∧ fadeOf tileH tileW overlap ≤ max overlap 1 := by
  unfold fadeOf
  omega

theorem le_fadeSide (hfade : 1 ≤ fade) (hle : fade ≤ n) {i : Nat} (hi : i < n) :
    1 / (fade : ℚ) ≤ (fadeSide n fade).getD i 0 := by
  have hlt : i < (fadeSide n fade).length := by rwa [length_fadeSide hle]
  rw [List.getD_eq_getElem?_getD, List.getElem?_eq_getElem hlt]
  exact le_of_mem_fadeSide hfade (List.getElem_mem hlt)

/-- As long as the overlap is at most 10000 pixels, every weight counts. -/
theorem le_blendWeights {overlap : Nat} (hoverlap : overlap ≤ 10000) (hy : y < tileH)
    (hx : x < tileW) : 1 / 10 ^ 8 ≤ blendWeights tileH tileW overlap y x := by
  obtain ⟨hone, hH, hW, hle⟩ := fadeOf_spec tileH tileW overlap (by omega) (by omega)
  have hfade : fadeOf tileH tileW overlap ≤ 10000 := by omega
  have hcast : (fadeOf tileH tileW overlap : ℚ) ≤ 10000 := by exact_mod_cast hfade
  have hpos : (0 : ℚ) < fadeOf tileH tileW overlap := by exact_mod_cast hone
  have hinv : (1 : ℚ) / 10000 ≤ 1 / (fadeOf tileH tileW overlap : ℚ) :=
    one_div_le_one_div_of_le hpos hcast
  have hY := hinv.trans (le_fadeSide hone hH hy)
  have hX := hinv.trans (le_fadeSide hone hW hx)
  unfold blendWeights
  calc (1 : ℚ) / 10 ^ 8 = 1 / 10000 * (1 / 10000) := by norm_num
    _ ≤ _ := mul_le_mul hY hX (by norm_num) (le_trans (by norm_num) hY)

theorem le_mask (hbound : overlap * scale ≤ 10000) (h : Writes scale box y x) :
    1 / 10 ^ 8 ≤ mask scale overlap box y x := by
  obtain ⟨hy, hylt, hx, hxlt⟩ := h
  exact le_blendWeights (by omega) (by omega) (by omega)

/-! ## The sums -/

/-- The network makes of the tile what the target shows there. -/
def CropsTo (runtime : Runtime) (src target : Tensor) (scale : Int) (box : Box) : Prop :=
  ∀ channel y x, y < useH scale box → x < useW scale box →
    (runtime.model (crop src box)).value channel y x =
      target.value channel (outY scale box + y) (outX scale box + x)

/-- What is summed so far is the target, weighted. -/
structure Weighted (target : Tensor) (a : Accumulated) : Prop where
  sum : ∀ channel y x, a.sum channel y x = target.value channel y x * a.weight y x

theorem Weighted.addTile {a : Accumulated} (h : Weighted target a) {out : Tensor}
    (hout : ∀ channel y x, y < useH scale box → x < useW scale box →
      out.value channel y x = target.value channel (outY scale box + y) (outX scale box + x)) :
    Weighted target (addTile scale overlap box out a) := by
  constructor
  intro channel y x
  unfold Upscale.addTile
  dsimp only
  split
  · next hwrites =>
    obtain ⟨hy, hylt, hx, hxlt⟩ := hwrites
    rw [h.sum, hout channel _ _ (by omega) (by omega), Nat.add_sub_cancel' hy,
      Nat.add_sub_cancel' hx, mul_add]
  · exact h.sum channel y x

theorem patchOf_eq {tiles : List Box} (hcovering : Covering src.width src.height tile tiles)
    (hbox : box ∈ tiles) : patchOf runtime src tile box = crop src box := by
  have hwide := hcovering.wide box hbox
  have hhigh := hcovering.high box hbox
  have hpadH : (if tile ≤ (src.height : Int) then
      max (tile - ((crop src box).height : Int)) 0 else 0) = 0 := by
    show (if tile ≤ (src.height : Int) then
      max (tile - (((box.y1 - box.y0).toNat : Nat) : Int)) 0 else 0) = 0
    split_ifs at hhigh ⊢ <;> omega
  have hpadW : (if tile ≤ (src.width : Int) then
      max (tile - ((crop src box).width : Int)) 0 else 0) = 0 := by
    show (if tile ≤ (src.width : Int) then
      max (tile - (((box.x1 - box.x0).toNat : Nat) : Int)) 0 else 0) = 0
    split_ifs at hwide ⊢ <;> omega
  unfold patchOf
  dsimp only
  rw [hpadH, hpadW]
  rfl

/-- The weights do not depend on what the network returns. -/
theorem accumulate_spec (src target : Tensor) (tile : Int) (hbound : overlap * scale ≤ 10000)
    (hcancelled : ∀ i, runtime.cancelled i = false) (tiles : List Box) (index : Nat)
    (a : Accumulated) (hnonneg : ∀ y x, 0 ≤ a.weight y x) :
    ∃ b, accumulate runtime src scale tile overlap index tiles a = .ok b ∧
      (∀ y x, a.weight y x ≤ b.weight y x) ∧
      (∀ box ∈ tiles, ∀ y x, Writes scale box y x → 1 / 10 ^ 8 ≤ b.weight y x) ∧
      (Weighted target a → (∀ box ∈ tiles, patchOf runtime src tile box = crop src box ∧
        CropsTo runtime src target scale box) → Weighted target b) := by
  induction tiles generalizing index a with
  | nil =>
    refine ⟨a, rfl, fun _ _ => le_refl _, ?_, fun h _ => h⟩
    intro box hbox
    cases hbox
  | cons box rest ih =>
    have hweight : ∀ y x, a.weight y x ≤ (addTile scale overlap box
        (runtime.model (patchOf runtime src tile box)) a).weight y x := by
      intro y x
      unfold addTile
      dsimp only
      split
      · next hwrites =>
        have hmask : (0 : ℚ) ≤ mask scale overlap box y x :=
          le_trans (by norm_num) (le_mask hbound hwrites)
        linarith
      · exact le_refl _
    obtain ⟨b, hb, hle, hrest, hweighted⟩ := ih (index + 1)
      (addTile scale overlap box (runtime.model (patchOf runtime src tile box)) a)
      fun y x => (hnonneg y x).trans (hweight y x)
    refine ⟨b, ?_, fun y x => (hweight y x).trans (hle y x), ?_, ?_⟩
    · rw [accumulate, if_neg (by simp [hcancelled index])]
      exact hb
    · intro box' hbox' y x hwrites
      rcases List.mem_cons.1 hbox' with rfl | hbox'
      · -- its own mask has been added to a sum of weights
        refine le_trans ?_ (hle y x)
        unfold addTile
        dsimp only
        rw [if_pos hwrites]
        have hmask := le_mask hbound hwrites
        have := hnonneg y x
        linarith
      · exact hrest box' hbox' y x hwrites
    · intro ha hcrops
      apply hweighted
      · obtain ⟨hpatch, hcrop⟩ := hcrops box List.mem_cons_self
        rw [hpatch]
        exact ha.addTile hcrop
      · exact fun box' hbox' => hcrops box' (List.mem_cons_of_mem box hbox')

/-- Every pixel of the output is written by a tile. -/
theorem exists_writes {width height : Nat} {tiles : List Box}
    (hcovering : Covering width height tile tiles) (hscale : 1 ≤ scale)
    (hy : (y : Int) < height * scale) (hx : (x : Int) < width * scale) :
    ∃ box ∈ tiles, Writes scale box y x := by
  have hpos : 0 < scale := by omega
  -- the pixel of the input that it comes from
  obtain ⟨box, hbox, hx0, hx1, hy0, hy1⟩ := hcovering.covers (x / scale) (y / scale)
    (Int.ediv_nonneg (by omega) (by omega)) (Int.ediv_lt_of_lt_mul hpos hx)
    (Int.ediv_nonneg (by omega) (by omega)) (Int.ediv_lt_of_lt_mul hpos hy)
  obtain ⟨hbx0, -, -, hby0, -, -⟩ := hcovering.inside box hbox
  have hYlo : box.y0 * scale ≤ y := (Int.le_ediv_iff_mul_le hpos).1 hy0
  have hYhi : (y : Int) < box.y1 * scale := (Int.ediv_lt_iff_lt_mul hpos).1 hy1
  have hXlo : box.x0 * scale ≤ x := (Int.le_ediv_iff_mul_le hpos).1 hx0
  have hXhi : (x : Int) < box.x1 * scale := (Int.ediv_lt_iff_lt_mul hpos).1 hx1
  have hY0 : 0 ≤ box.y0 * scale := Int.mul_nonneg hby0 (by omega)
  have hX0 : 0 ≤ box.x0 * scale := Int.mul_nonneg hbx0 (by omega)
  refine ⟨box, hbox, ?_⟩
  unfold Writes outY outX useH useW
  rw [Int.sub_mul, Int.sub_mul]
  omega

/-- The tiles cover the image, no pixel of the output is without weight, and what every
tile agrees on comes out as it is. -/
theorem upscale_reconstructs {factor : Int} {nativeScale : Option Int} (hwidth : 1 ≤ src.width)
    (hheight : 1 ≤ src.height) (hoverlap : 0 ≤ overlap) (htile : overlap < tile)
    (hscale : 1 ≤ modelScaleOf factor nativeScale) (hfactor : factor ≤ modelScaleOf factor nativeScale)
    (hbound : overlap * modelScaleOf factor nativeScale ≤ 10000)
    (hcancelled : ∀ i, runtime.cancelled i = false) :
    ∃ tiles a, iterTiles src.width src.height tile overlap = .ok tiles ∧
      Covering src.width src.height tile tiles ∧
      accumulate runtime src (modelScaleOf factor nativeScale) tile overlap 0 tiles
        ⟨fun _ _ _ => 0, fun _ _ => 0⟩ = .ok a ∧
      (∀ y x : Nat, (y : Int) < src.height * modelScaleOf factor nativeScale →
        (x : Int) < src.width * modelScaleOf factor nativeScale → 1 / 10 ^ 8 ≤ a.weight y x) ∧
      ((∀ box ∈ tiles, CropsTo runtime src target (modelScaleOf factor nativeScale) box) →
        ∃ merged, upscaleTiled runtime src factor nativeScale tile overlap = .ok merged ∧
          (merged.height : Int) = src.height * modelScaleOf factor nativeScale ∧
          (merged.width : Int) = src.width * modelScaleOf factor nativeScale ∧
          ∀ channel y x, y < merged.height → x < merged.width →
            merged.value channel y x = target.value channel y x) := by
  have hwidth' : 1 ≤ (src.width : Int) := by omega
  have hheight' : 1 ≤ (src.height : Int) := by omega
  obtain ⟨tiles, htiles, hcovering⟩ := iterTiles_spec hwidth' hheight' hoverlap htile
  obtain ⟨a, ha, -, hweight, hweighted⟩ := accumulate_spec src target tile hbound
    hcancelled tiles 0 ⟨fun _ _ _ => 0, fun _ _ => 0⟩ fun _ _ => le_refl _
  have hpositive : ∀ y x : Nat, (y : Int) < src.height * modelScaleOf factor nativeScale →
      (x : Int) < src.width * modelScaleOf factor nativeScale → 1 / 10 ^ 8 ≤ a.weight y x := by
    intro y x hy hx
    obtain ⟨box, hbox, hwrites⟩ := exists_writes hcovering hscale hy hx
    exact hweight box hbox y x hwrites
  have hheightScale : 0 ≤ (src.height : Int) * modelScaleOf factor nativeScale :=
    Int.mul_nonneg (by omega) (by omega)
  have hwidthScale : 0 ≤ (src.width : Int) * modelScaleOf factor nativeScale :=
    Int.mul_nonneg (by omega) (by omega)
  refine ⟨tiles, a, htiles, hcovering, ha, hpositive, ?_⟩
  intro hcrops
  have hsum : Weighted target a := by
    apply hweighted
    · exact ⟨fun _ _ _ => (mul_zero _).symm⟩
    · intro box hbox
      exact ⟨patchOf_eq hcovering hbox, hcrops box hbox⟩
  have hne : tiles ≠ [] := by
    rintro rfl
    obtain ⟨box, hbox, -⟩ := hcovering.covers 0 0 (by omega) (by omega) (by omega) (by omega)
    cases hbox
  refine ⟨merged src (modelScaleOf factor nativeScale) a, ?_,
    Int.toNat_of_nonneg hheightScale, Int.toNat_of_nonneg hwidthScale, ?_⟩
  · unfold upscaleTiled
    dsimp only
    rw [if_neg (by omega), if_neg (by omega), htiles]
    show (if tiles = [] then _ else _) = _
    rw [if_neg hne, ha]
    rfl
  · intro channel y x hy hx
    have hyScale : y < ((src.height : Int) * modelScaleOf factor nativeScale).toNat := hy
    have hxScale : x < ((src.width : Int) * modelScaleOf factor nativeScale).toNat := hx
    have hpos := hpositive y x (by omega) (by omega)
    unfold merged
    dsimp only
    -- the clamp does nothing, and the weight cancels
    rw [max_eq_left hpos, hsum.sum, mul_div_assoc, div_self, mul_one]
    intro hzero
    rw [hzero] at hpos
    norm_num at hpos

/-! ## An image of three pixels -/

section Sample

/-- Each pixel four times. -/
def doubled (image : Tensor) : Tensor where
  height := 2 * image.height
  width := 2 * image.width
  value channel y x := image.value channel (y / 2) (x / 2)

def doubling : Runtime where
  model := doubled
  pad patch _ _ := patch
  cancelled _ := false

def threePixels : Tensor where
  height := 1
  width := 3
  value channel _ x := channel.val + x

theorem doubling_crops (box : Box) :
    CropsTo doubling threePixels (doubled threePixels) 2 box := by
  intro channel y x _ _
  have hx : box.x0.toNat + x / 2 = (outX 2 box + x) / 2 := by
    unfold outX
    omega
  show ((channel.val : ℚ) + ((box.x0.toNat + x / 2 : Nat) : ℚ)) =
    (channel.val : ℚ) + (((outX 2 box + x) / 2 : Nat) : ℚ)
  rw [hx]

/-- Two tiles of two pixels overlap in one. -/
theorem upscale_reconstructs_sample :
    ∃ result, upscaleTiled doubling threePixels 2 none 2 1 = .ok result ∧
      result.value 1 1 5 = 3 := by
  obtain ⟨tiles, a, -, -, -, -, hresult⟩ := @upscale_reconstructs 2 1 doubling threePixels
    (doubled threePixels) 2 none (by decide) (by decide) (by decide) (by decide) (by decide)
    (by decide) (by decide) fun _ => rfl
  obtain ⟨result, hok, hheight, hwidth, hvalue⟩ := hresult fun box _ => doubling_crops box
  have hheight2 : (result.height : Int) = 2 := hheight
  have hwidth6 : (result.width : Int) = 6 := hwidth
  refine ⟨result, hok, ?_⟩
  rw [hvalue 1 1 5 (by omega) (by omega)]
  show ((1 : Fin 3).val : ℚ) + ((5 / 2 : Nat) : ℚ) = 3
  norm_num

end Sample

end Potocolom.Upscale
