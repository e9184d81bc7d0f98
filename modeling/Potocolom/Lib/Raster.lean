import Mathlib

/-! # Rasters

A raster is a picture of a given size with a value at each pixel. A box blur of small radius,
rounded to eight bits after each of its two passes and thresholded again, is compared with
the dilation it stands for: every pixel within a Chebyshev distance of a marked one. -/

/-- A value at each pixel. -/
structure Raster (α : Type*) where
  width : Nat
  height : Nat
  pixel : Fin width → Fin height → α

namespace Raster

variable {α β γ δ : Type*} {w h n : Nat}

def size (a : Raster α) : Nat × Nat := (a.width, a.height)

def map (f : α → β) (a : Raster α) : Raster β := ⟨a.width, a.height, fun x y => f (a.pixel x y)⟩

/-- Pixel by pixel, over the part that both have. -/
def map₂ (f : α → β → γ) (a : Raster α) (b : Raster β) : Raster γ where
  width := min a.width b.width
  height := min a.height b.height
  pixel x y := f
    (a.pixel (x.castLE (Nat.min_le_left ..)) (y.castLE (Nat.min_le_left ..)))
    (b.pixel (x.castLE (Nat.min_le_right ..)) (y.castLE (Nat.min_le_right ..)))

@[simp] theorem map_map (f : β → γ) (g : α → β) (a : Raster α) :
    (a.map g).map f = a.map (f ∘ g) := rfl

/-- Two rasters of one size are combined at every pixel. -/
@[simp] theorem map₂_mk (f : α → β → γ) (p : Fin w → Fin h → α) (q : Fin w → Fin h → β) :
    map₂ f ⟨w, h, p⟩ ⟨w, h, q⟩ = ⟨w, h, fun x y => f (p x y) (q x y)⟩ := by
  have hsize : ∀ w' h' (hw : w' = w) (hh : h' = h),
      (⟨w', h', fun x y => f (p (x.castLE hw.le) (y.castLE hh.le))
        (q (x.castLE hw.le) (y.castLE hh.le))⟩ : Raster γ) =
        ⟨w, h, fun x y => f (p x y) (q x y)⟩ := by
    rintro _ _ rfl rfl
    rfl
  exact hsize _ _ (Nat.min_self w) (Nat.min_self h)

/-! ## The mean over a window of a line -/

/-- `sum / count` rounded to the nearest integer. -/
def nearest (sum count : Nat) : Nat := (2 * sum + count) / (2 * count)

theorem nearest_mono {sum sum' : Nat} (count : Nat) (hle : sum ≤ sum') :
    nearest sum count ≤ nearest sum' count :=
  Nat.div_le_div_right (by omega)

theorem nearest_le {sum count bound : Nat} (hcount : 0 < count) (hsum : sum ≤ count * bound) :
    nearest sum count ≤ bound := by
  have hlt : 2 * sum + count < (bound + 1) * (2 * count) := by
    have hexpand : (bound + 1) * (2 * count) = 2 * (count * bound) + 2 * count := by ring
    omega
  exact Nat.le_of_lt_succ ((Nat.div_lt_iff_lt_mul (by omega)).2 hlt)

/-- The pixel `k` places behind the left end of the window around `i`; the border pixels are
repeated. -/
def within (r : Nat) (i : Fin n) (k : Nat) : Fin n :=
  ⟨min (i + k - r) (n - 1), by have := i.isLt; omega⟩

def Near (r : Nat) (i j : Fin n) : Prop := (i : Nat) ≤ j + r ∧ (j : Nat) ≤ i + r

instance (r : Nat) (i j : Fin n) : Decidable (Near r i j) :=
  inferInstanceAs (Decidable (_ ∧ _))

theorem near_within {r k : Nat} (hk : k < 2 * r + 1) (i : Fin n) : Near r i (within r i k) := by
  have := i.isLt
  unfold Near within
  constructor
  · dsimp only
    omega
  · dsimp only
    omega

theorem exists_within {r : Nat} {i j : Fin n} (h : Near r i j) :
    ∃ k < 2 * r + 1, within r i k = j := by
  have := j.isLt
  obtain ⟨hi, hj⟩ := h
  refine ⟨j + r - i, by omega, ?_⟩
  apply Fin.ext
  unfold within
  dsimp only
  omega

/-- The mean over the `2 r + 1` pixels around `i`. -/
def boxMean (r : Nat) (line : Fin n → Nat) (i : Fin n) : Nat :=
  nearest (∑ k ∈ Finset.range (2 * r + 1), line (within r i k)) (2 * r + 1)

theorem boxMean_le {r bound : Nat} {line : Fin n → Nat} (hline : ∀ j, line j ≤ bound)
    (i : Fin n) : boxMean r line i ≤ bound := by
  apply nearest_le (by omega)
  have hsum := Finset.sum_le_card_nsmul (Finset.range (2 * r + 1))
    (fun k => line (within r i k)) bound fun k _ => hline _
  simpa using hsum

theorem boxMean_zero {r : Nat} {line : Fin n → Nat} {i : Fin n}
    (hline : ∀ j, Near r i j → line j = 0) : boxMean r line i = 0 := by
  have hsum : ∑ k ∈ Finset.range (2 * r + 1), line (within r i k) = 0 :=
    Finset.sum_eq_zero fun k hk => hline _ (near_within (Finset.mem_range.1 hk) i)
  unfold boxMean nearest
  rw [hsum]
  exact Nat.div_eq_of_lt (by omega)

/-- One pixel of the window contributes at least its share. -/
theorem le_boxMean {r : Nat} (line : Fin n → Nat) {i j : Fin n} (hnear : Near r i j) :
    nearest (line j) (2 * r + 1) ≤ boxMean r line i := by
  obtain ⟨k, hk, rfl⟩ := exists_within hnear
  apply nearest_mono
  exact Finset.single_le_sum (f := fun k => line (within r i k)) (fun _ _ => Nat.zero_le _)
    (Finset.mem_range.2 hk)

/-! ## Eight bits -/

abbrev Level := Fin 256

instance : NeZero 256 := ⟨by decide⟩

def boxLevel (r : Nat) (line : Fin n → Level) (i : Fin n) : Level :=
  ⟨boxMean r (fun j => (line j : Nat)) i,
    Nat.lt_succ_of_le (boxMean_le (fun j => Nat.le_of_lt_succ (line j).isLt) i)⟩

/-- The two passes of a box blur, each rounded to eight bits. -/
def boxBlur (r : Nat) (a : Raster Level) : Raster Level :=
  let rows : Raster Level := ⟨a.width, a.height, fun x y => boxLevel r (fun i => a.pixel i y) x⟩
  ⟨rows.width, rows.height, fun x y => boxLevel r (fun j => rows.pixel x j) y⟩

/-- 255 wherever the value is not zero. -/
def threshold (a : Raster Level) : Raster Level := a.map fun value => if value = 0 then 0 else 255

/-- Every value is 0 or 255. -/
def Binary (a : Raster Level) : Prop := ∀ x y, a.pixel x y = 0 ∨ a.pixel x y = 255

/-- What a share of a 255 is worth after both passes, for the radii that are used. -/
theorem share_pos {r : Nat} (hr : r ≤ 8) : 0 < nearest (nearest 255 (2 * r + 1)) (2 * r + 1) := by
  interval_cases r <;> decide

/-- After both passes of a small radius a pixel is nonzero exactly when some pixel of the
square around it was. -/
theorem boxBlur_ne_zero {a : Raster Level} {r : Nat} (hr : r ≤ 8) (ha : a.Binary)
    (x : Fin a.width) (y : Fin a.height) :
    (boxBlur r a).pixel x y ≠ 0 ↔
      ∃ i j, Near r x i ∧ Near r y j ∧ a.pixel i j ≠ 0 := by
  have hval : ((boxBlur r a).pixel x y : Nat) =
      boxMean r (fun j => boxMean r (fun i => (a.pixel i j : Nat)) x) y := rfl
  rw [Ne, Fin.ext_iff, hval]
  constructor
  · intro hne
    by_contra hnone
    push Not at hnone
    apply hne
    apply boxMean_zero
    intro j hj
    apply boxMean_zero
    intro i hi
    rw [hnone i j hi hj]
    rfl
  · rintro ⟨i, j, hi, hj, hmarked⟩
    have hfull : (a.pixel i j : Nat) = 255 := by rw [(ha i j).resolve_left hmarked]; rfl
    -- the share of the marked pixel in its row, and the share of that row
    have hrow : nearest 255 (2 * r + 1) ≤ boxMean r (fun i => (a.pixel i j : Nat)) x := by
      rw [← hfull]
      exact le_boxMean (fun i => (a.pixel i j : Nat)) hi
    have hcolumn := le_boxMean
      (fun j => boxMean r (fun i => (a.pixel i j : Nat)) x) hj
    have hshare := nearest_mono (2 * r + 1) hrow
    have hpos := share_pos hr
    show boxMean r (fun j => boxMean r (fun i => (a.pixel i j : Nat)) x) y ≠ 0
    omega

/-! ## The dilation -/

/-- The larger of the distances along the two sides. -/
def chebyshev (x i : Fin w) (y j : Fin h) : Nat :=
  max ((x : Int) - i).natAbs ((y : Int) - j).natAbs

theorem chebyshev_le {x i : Fin w} {y j : Fin h} {d : Nat} :
    chebyshev x i y j ≤ d ↔ Near d x i ∧ Near d y j := by
  unfold chebyshev Near
  omega

/-- A nonzero pixel lies within distance `d`. -/
def Reached (a : Raster Level) (d : Nat) (x : Fin a.width) (y : Fin a.height) : Prop :=
  ∃ i j, a.pixel i j ≠ 0 ∧ chebyshev x i y j ≤ d

instance (a : Raster Level) (d : Nat) (x : Fin a.width) (y : Fin a.height) :
    Decidable (a.Reached d x y) :=
  inferInstanceAs (Decidable (∃ _, _))

/-- 255 at the pixels within distance `d` of a nonzero one, 0 elsewhere. -/
def dilated (d : Nat) (a : Raster Level) : Raster Level :=
  ⟨a.width, a.height, fun x y => if a.Reached d x y then 255 else 0⟩

theorem dilated_ne_zero {a : Raster Level} {d : Nat} (x : Fin a.width) (y : Fin a.height) :
    (dilated d a).pixel x y ≠ 0 ↔ a.Reached d x y := by
  show (if a.Reached d x y then (255 : Level) else 0) ≠ 0 ↔ _
  split_ifs with hreached
  · exact iff_of_true (by decide) hreached
  · exact iff_of_false (by decide) hreached

theorem dilated_binary (d : Nat) (a : Raster Level) : (dilated d a).Binary := by
  intro x y
  by_cases hreached : a.Reached d x y
  · exact Or.inr (if_pos hreached)
  · exact Or.inl (if_neg hreached)

/-- A thresholded raster is known from where it is nonzero. -/
theorem threshold_eq {a b : Raster Level} {d : Nat} (hw : b.width = a.width)
    (hh : b.height = a.height)
    (h : ∀ x y, b.pixel (x.cast hw.symm) (y.cast hh.symm) ≠ 0 ↔ a.Reached d x y) :
    threshold b = dilated d a := by
  obtain ⟨w, h', p⟩ := b
  obtain ⟨w', h'', q⟩ := a
  obtain rfl : w = w' := hw
  obtain rfl : h' = h'' := hh
  refine congrArg (Raster.mk w h') ?_
  funext x y
  have hxy : p x y ≠ 0 ↔ Reached ⟨w, h', q⟩ d x y := h x y
  show (if p x y = 0 then (0 : Level) else 255) = if Reached ⟨w, h', q⟩ d x y then 255 else 0
  by_cases hzero : p x y = 0
  · rw [if_pos hzero, if_neg fun hreached => hxy.2 hreached hzero]
  · rw [if_neg hzero, if_pos (hxy.1 hzero)]

theorem threshold_dilated_zero (a : Raster Level) : threshold a = dilated 0 a := by
  apply threshold_eq rfl rfl
  intro x y
  constructor
  · intro hmarked
    exact ⟨x, y, hmarked, by simp [chebyshev]⟩
  · rintro ⟨i, j, hmarked, hdist⟩
    rw [chebyshev_le] at hdist
    obtain ⟨⟨hx, hx'⟩, hy, hy'⟩ := hdist
    have hi : i = x := Fin.ext (by omega)
    have hj : j = y := Fin.ext (by omega)
    rwa [hi, hj] at hmarked

/-- A point within `d + r` has one within `r` that is within `d`. -/
theorem near_split {d r : Nat} {x i : Fin n} (h : Near (d + r) x i) :
    ∃ m : Fin n, Near r x m ∧ Near d m i := by
  obtain ⟨hx, hi⟩ := h
  have := x.isLt
  have := i.isLt
  -- as far towards `i` as `r` goes
  by_cases hle : (i : Nat) ≤ x
  · exact ⟨⟨max i (x - r), by omega⟩, by constructor <;> dsimp only <;> omega,
      by constructor <;> dsimp only <;> omega⟩
  · exact ⟨⟨min i (x + r), by omega⟩, by constructor <;> dsimp only <;> omega,
      by constructor <;> dsimp only <;> omega⟩

theorem near_join {d r : Nat} {x m i : Fin n} (hx : Near r x m) (hm : Near d m i) :
    Near (d + r) x i := by
  obtain ⟨h₁, h₂⟩ := hx
  obtain ⟨h₃, h₄⟩ := hm
  constructor
  · omega
  · omega

/-- One pass of a small radius dilates what is dilated already by that radius more. -/
theorem threshold_boxBlur {a : Raster Level} {d r : Nat} (hr : r ≤ 8) :
    threshold (boxBlur r (dilated d a)) = dilated (d + r) a := by
  apply threshold_eq (a := a) (b := boxBlur r (dilated d a)) rfl rfl
  intro x y
  refine (boxBlur_ne_zero hr (dilated_binary d a) x y).trans ?_
  constructor
  · rintro ⟨i, j, hx, hy, hmarked⟩
    obtain ⟨i', j', hmarked, hdist⟩ := (dilated_ne_zero (a := a) i j).1 hmarked
    obtain ⟨hi, hj⟩ := chebyshev_le.1 hdist
    exact ⟨i', j', hmarked, chebyshev_le.2 ⟨near_join hx hi, near_join hy hj⟩⟩
  · rintro ⟨i', j', hmarked, hdist⟩
    obtain ⟨hi, hj⟩ := chebyshev_le.1 hdist
    obtain ⟨i, hx, hi⟩ := near_split hi
    obtain ⟨j, hy, hj⟩ := near_split hj
    exact ⟨i, j, hx, hy, (dilated_ne_zero (a := a) i j).2 ⟨i', j', hmarked, chebyshev_le.2 ⟨hi, hj⟩⟩⟩

end Raster
