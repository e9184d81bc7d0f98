import Potocolom.Engine.Calibration

/-! # Advertised slots are honest

What each call leaves in the tables of its model, and when the advertised number of slots is
the minimum over the measured models. A new p95 meets the batch curve of an earlier call
twice: in the minimum that decides whether the batch phase runs, and in the exit that drops
the curve behind it. -/

namespace Potocolom.Engine

namespace Measurements

variable {s t : Measurements} {c : Call} {id other : String} {p95 m : Int} {curve : List Int}

/-! ## What is advertised -/

/-- The curves begin with the p95 of their model and never fall. -/
def Curves (s : Measurements) : Prop :=
  ∀ id curve, s.realtimeBatchMs.get id = some curve →
    ∃ p95 rest, s.realtimeP95Ms.get id = some p95 ∧ curve = p95 :: rest ∧ curve.Pairwise (· ≤ ·)

/-- Behind its first entry a curve stays below the bar. -/
def WithinBar (s : Measurements) : Prop :=
  ∀ id curve, s.realtimeBatchMs.get id = some curve → ∀ x ∈ curve.tail, x ≤ realtimeBarMs

/-- `n` is the minimum over the models with a p95, and 0 without one. -/
structure IsMinimum (s : Measurements) (n : Int) : Prop where
  le : ∀ id p95, s.realtimeP95Ms.get id = some p95 → n ≤ s.allows id p95
  attained : (∃ id p95, s.realtimeP95Ms.get id = some p95 ∧ n = s.allows id p95) ∨
    ((∀ id, s.realtimeP95Ms.get id = none) ∧ n = 0)

/-- The advertised slots are the minimum. -/
def Advertised (s : Measurements) : Prop := ∃ n, s.calibratedSlots = some n ∧ s.IsMinimum n

structure Honest (s : Measurements) : Prop where
  curves : s.Curves
  withinBar : s.WithinBar
  slots : s.Advertised

theorem IsMinimum.unique {n n' : Int} (h : s.IsMinimum n) (h' : s.IsMinimum n') : n = n' := by
  rcases h.attained with ⟨id, p95, hget, rfl⟩ | ⟨hnone, rfl⟩
  · rcases h'.attained with ⟨id', p95', hget', rfl⟩ | ⟨hnone, -⟩
    · exact le_antisymm (h.le id' p95' hget') (h'.le id p95 hget)
    · rw [hnone id] at hget
      cases hget
  · rcases h'.attained with ⟨id', p95', hget', -⟩ | ⟨-, rfl⟩
    · rw [hnone id'] at hget'
      cases hget'
    · rfl

theorem foldl_min_le (rest : List Int) (x : Int) :
    rest.foldl min x ≤ x ∧ ∀ y ∈ rest, rest.foldl min x ≤ y := by
  induction rest generalizing x with
  | nil => exact ⟨le_refl x, by simp⟩
  | cons z rest ih =>
    rw [List.foldl_cons]
    obtain ⟨hx, hrest⟩ := ih (min x z)
    refine ⟨hx.trans (min_le_left x z), ?_⟩
    intro y hy
    rcases List.mem_cons.1 hy with rfl | hy
    · exact hx.trans (min_le_right x y)
    · exact hrest y hy

theorem foldl_min_mem (rest : List Int) (x : Int) : rest.foldl min x ∈ x :: rest := by
  induction rest generalizing x with
  | nil => exact List.mem_cons_self
  | cons z rest ih =>
    rw [List.foldl_cons]
    rcases List.mem_cons.1 (ih (min x z)) with heq | hmem
    · rw [heq]
      rcases min_choice x z with hmin | hmin <;> simp [hmin]
    · exact List.mem_cons_of_mem _ (List.mem_cons_of_mem _ hmem)

/-- The minimum that the code computes. -/
theorem isMinimum_leastSlots (s : Measurements) : s.IsMinimum s.leastSlots := by
  have hmem : ∀ id p95, s.realtimeP95Ms.get id = some p95 →
      s.allows id p95 ∈ s.realtimeP95Ms.items.map fun item => s.allows item.1 item.2 :=
    fun id p95 hget => List.mem_map.2 ⟨(id, p95), Ordered.get_eq_some.1 hget, rfl⟩
  unfold leastSlots
  split
  · next hnil =>
    have hnone : ∀ id, s.realtimeP95Ms.get id = none := by
      intro id
      cases hget : s.realtimeP95Ms.get id with
      | none => rfl
      | some p95 =>
        have hin := hmem id p95 hget
        rw [hnil] at hin
        cases hin
    constructor
    · intro id p95 hget
      rw [hnone id] at hget
      cases hget
    · exact Or.inr ⟨hnone, rfl⟩
  · next slots rest hcons =>
    constructor
    · intro id p95 hget
      have hin := hmem id p95 hget
      rw [hcons] at hin
      rcases List.mem_cons.1 hin with heq | hin
      · rw [heq]
        exact (foldl_min_le rest slots).1
      · exact (foldl_min_le rest slots).2 _ hin
    · have hin := foldl_min_mem rest slots
      rw [← hcons] at hin
      obtain ⟨⟨id, p95⟩, hitem, heq⟩ := List.mem_map.1 hin
      exact Or.inl ⟨id, p95, Ordered.get_eq_some.2 hitem, heq.symm⟩

theorem allows_nonneg : 0 ≤ s.allows id p95 := by
  unfold allows
  split
  · exact slotsFromBatchCurve_nonneg
  · exact slotsFromFrameMs_nonneg

theorem IsMinimum.nonneg {n : Int} (h : s.IsMinimum n) : 0 ≤ n := by
  rcases h.attained with ⟨id, p95, -, rfl⟩ | ⟨-, rfl⟩
  · exact allows_nonneg
  · exact le_refl 0

/-- The minimum is positive when every measured model allows a slot, and one is measured. -/
theorem IsMinimum.pos_iff {n : Int} (h : s.IsMinimum n) :
    0 < n ↔ (∃ id p95, s.realtimeP95Ms.get id = some p95) ∧
      ∀ id p95, s.realtimeP95Ms.get id = some p95 → 0 < s.allows id p95 := by
  constructor
  · intro hpos
    refine ⟨?_, fun id p95 hget => lt_of_lt_of_le hpos (h.le id p95 hget)⟩
    rcases h.attained with ⟨id, p95, hget, -⟩ | ⟨-, rfl⟩
    · exact ⟨id, p95, hget⟩
    · exact absurd hpos (lt_irrefl 0)
  · rintro ⟨⟨id, p95, hget⟩, hall⟩
    rcases h.attained with ⟨id', p95', hget', rfl⟩ | ⟨hnone, -⟩
    · exact hall id' p95' hget'
    · rw [hnone id] at hget
      cases hget

/-- Equal tables have equal minima. -/
theorem IsMinimum.congr {n : Int} (h : s.IsMinimum n)
    (hp95 : ∀ id, t.realtimeP95Ms.get id = s.realtimeP95Ms.get id)
    (hallows : ∀ id p95, s.realtimeP95Ms.get id = some p95 → t.allows id p95 = s.allows id p95) :
    t.IsMinimum n := by
  constructor
  · intro id p95 hget
    rw [hp95] at hget
    rw [hallows id p95 hget]
    exact h.le id p95 hget
  · rcases h.attained with ⟨id, p95, hget, heq⟩ | ⟨hnone, heq⟩
    · exact Or.inl ⟨id, p95, (hp95 id).trans hget, heq.trans (hallows id p95 hget).symm⟩
    · exact Or.inr ⟨fun id => (hp95 id).trans (hnone id), heq⟩

/-! ## What a call leaves -/

/-- A call leaves `p95` and `curve` for its model, and the other models as they were. -/
structure Leaves (s : Measurements) (c : Call) (p95 : Option Int) (curve : Option (List Int))
    (t : Measurements) : Prop where
  p95 : ∀ id, t.realtimeP95Ms.get id = if id = c.modelId then p95 else s.realtimeP95Ms.get id
  batch : ∀ id, t.realtimeBatchMs.get id =
    if id = c.modelId then curve else s.realtimeBatchMs.get id
  cap : t.calibrationCap = c.configured

theorem Leaves.allows {p : Option Int} {b : Option (List Int)} (h : Leaves s c p b t)
    (hne : id ≠ c.modelId) (p95 : Int) :
    t.allows id p95 = { s with calibrationCap := c.configured }.allows id p95 := by
  unfold Measurements.allows
  rw [h.batch, if_neg hne, h.cap]

theorem Leaves.allows_frame {p : Option Int} (h : Leaves s c p none t) (p95 : Int) :
    t.allows c.modelId p95 = slotsFromFrameMs p95 c.configured := by
  unfold Measurements.allows
  rw [h.batch, if_pos rfl, h.cap]

theorem Leaves.allows_curve {p : Option Int} (h : Leaves s c p (some curve) t) (p95 : Int) :
    t.allows c.modelId p95 = slotsFromBatchCurve curve c.configured := by
  unfold Measurements.allows
  rw [h.batch, if_pos rfl, h.cap]

theorem Leaves.curves {p : Option Int} {b : Option (List Int)} (h : Leaves s c p b t)
    (hs : s.Curves) (hb : ∀ curve, b = some curve →
      ∃ p95 rest, p = some p95 ∧ curve = p95 :: rest ∧ curve.Pairwise (· ≤ ·)) : t.Curves := by
  intro id curve hget
  rw [h.batch] at hget
  rw [h.p95]
  split_ifs at hget ⊢ with heq
  · exact hb curve hget
  · exact hs id curve hget

theorem Leaves.withinBar_iff {p : Option Int} {b : Option (List Int)} (h : Leaves s c p b t)
    (hs : s.WithinBar) :
    t.WithinBar ↔ ∀ curve, b = some curve → ∀ x ∈ curve.tail, x ≤ realtimeBarMs := by
  constructor
  · intro ht curve hb
    exact ht c.modelId curve (by rw [h.batch, if_pos rfl, hb])
  · intro hb id curve hget
    rw [h.batch] at hget
    split_ifs at hget with heq
    · exact hb curve hget
    · exact hs id curve hget

theorem advertised (s : Measurements) : s.recomputeCalibratedSlots.Advertised :=
  ⟨s.leastSlots, rfl, (isMinimum_leastSlots s).congr (fun _ => rfl) fun _ _ _ => rfl⟩

theorem Advertised.defer (h : s.Advertised) : (s.deferCalibration id).Advertised := by
  obtain ⟨n, hn, hmin⟩ := h
  exact ⟨n, hn, hmin.congr (fun _ => rfl) fun _ _ _ => rfl⟩

/-! ## The batch curve -/

/-- The wall time is measured, and stays below the bar. -/
def Fits (c : Call) (count : Nat) : Prop :=
  ∃ samples, c.walls count = some samples ∧ p95Of samples ≤ realtimeBarMs

/-- No measurement raises before the first one above the bar. -/
def Completes (c : Call) : List Nat → Prop
  | [] => True
  | count :: rest => ∃ samples, c.walls count = some samples ∧
      (realtimeBarMs < p95Of samples ∨ Completes c rest)

/-- The curve grows at its end, and never falls. -/
theorem extendCurve_grows {walls : Nat → Option (List ℚ)} {counts : List Nat}
    {front result : List Int} {last : Int} (hpair : (front ++ [last]).Pairwise (· ≤ ·))
    (h : extendCurve walls counts (front ++ [last]) = some result) :
    ∃ more, result = front ++ last :: more ∧ result.Pairwise (· ≤ ·) ∧
      (last ≤ realtimeBarMs → ∀ x ∈ more, x ≤ realtimeBarMs) := by
  induction counts generalizing front last with
  | nil =>
    rw [extendCurve, Option.some.injEq] at h
    exact ⟨[], by rw [← h], by rw [← h]; exact hpair, by simp⟩
  | cons count rest ih =>
    rw [extendCurve] at h
    split at h
    · cases h
    · next samples hsamples =>
      dsimp only at h
      rw [List.getLastD_concat] at h
      by_cases hover : realtimeBarMs < p95Of samples
      · rw [if_pos hover, Option.some.injEq] at h
        exact ⟨[], by rw [← h], by rw [← h]; exact hpair, by simp⟩
      · rw [if_neg hover] at h
        -- the next entry is at least the last one
        have hle : last ≤ if p95Of samples < last then last else p95Of samples := by
          split_ifs <;> omega
        have hpair' : ((front ++ [last]) ++
            [if p95Of samples < last then last else p95Of samples]).Pairwise (· ≤ ·) := by
          rw [List.pairwise_append]
          refine ⟨hpair, List.pairwise_singleton _ _, ?_⟩
          intro x hx y hy
          rw [List.mem_singleton.1 hy]
          rcases List.mem_append.1 hx with hx | hx
          · exact ((List.pairwise_append.1 hpair).2.2 x hx last (by simp)).trans hle
          · rw [List.mem_singleton.1 hx]
            exact hle
        obtain ⟨more, hresult, hsorted, hbar⟩ := ih hpair' h
        refine ⟨(if p95Of samples < last then last else p95Of samples) :: more, ?_, hsorted, ?_⟩
        · rw [hresult, List.append_assoc]
          rfl
        · intro hlast x hx
          have hnext : (if p95Of samples < last then last else p95Of samples) ≤ realtimeBarMs := by
            split_ifs <;> omega
          rcases List.mem_cons.1 hx with rfl | hx
          · exact hnext
          · exact hbar hnext x hx

theorem extendCurve_isSome (front : List Int) {counts : List Nat} :
    (extendCurve c.walls counts front).isSome ↔ Completes c counts := by
  induction counts generalizing front with
  | nil => simp [extendCurve, Completes]
  | cons count rest ih =>
    rw [extendCurve, Completes]
    cases hwalls : c.walls count with
    | none => simp
    | some samples =>
      dsimp only
      by_cases hover : realtimeBarMs < p95Of samples
      · rw [if_pos hover]
        exact iff_of_true rfl ⟨samples, rfl, Or.inl hover⟩
      · rw [if_neg hover, ih]
        simp [hover]

/-- The first wall time above the bar ends the curve. -/
theorem extendCurve_stops {c : Call} {count : Nat} {rest : List Nat} {front result : List Int}
    (h : extendCurve c.walls (count :: rest) front = some result) (hfit : ¬ Fits c count) :
    result = front := by
  rw [extendCurve] at h
  split at h
  · cases h
  · next samples hsamples =>
    have hover : realtimeBarMs < p95Of samples := by
      by_contra hle
      exact hfit ⟨samples, hsamples, by omega⟩
    dsimp only at h
    rw [if_pos hover, Option.some.injEq] at h
    exact h.symm

theorem extendCurve_adds {c : Call} {count : Nat} {rest : List Nat} {result : List Int}
    (h : extendCurve c.walls (count :: rest) [m] = some result) (hfit : Fits c count) :
    ∃ x more, m ≤ x ∧ result = m :: x :: more := by
  obtain ⟨samples, hsamples, hle⟩ := hfit
  rw [extendCurve, hsamples] at h
  dsimp only at h
  rw [if_neg (by omega)] at h
  have hnext : m ≤ if p95Of samples < m then m else p95Of samples := by split_ifs <;> omega
  have hpair : ([m] ++ [if p95Of samples < m then m else p95Of samples]).Pairwise (· ≤ ·) := by
    simpa using hnext
  obtain ⟨more, hresult, -⟩ := extendCurve_grows hpair h
  exact ⟨_, more, hnext, hresult⟩

theorem counts_of_two_le {configured : Int} (h : 2 ≤ configured) :
    ∃ rest, counts configured = 2 :: rest := by
  obtain ⟨n, hn⟩ : ∃ n, (configured - 1).toNat = n + 1 := ⟨(configured - 1).toNat - 1, by omega⟩
  exact ⟨List.range' 3 n, by rw [counts, hn, List.range'_succ]⟩

/-! ## The two phases -/

/-- The single-frame phase measures `m`. -/
structure Measured (c : Call) (m : Int) : Prop where
  onCuda : c.onCuda = true
  configured : 0 < c.configured
  realtime : c.realtime = true
  expected : c.expected = .full
  ensured : c.ensured = some (some .full)
  loaded : c.loaded = some .full
  frames : ∃ samples, c.frames = some samples ∧ m = p95Of samples

theorem Measured.unique {m m' : Int} (h : Measured c m) (h' : Measured c m') : m = m' := by
  obtain ⟨samples, hframes, rfl⟩ := h.frames
  obtain ⟨samples', hframes', rfl⟩ := h'.frames
  rw [hframes, Option.some.injEq] at hframes'
  rw [hframes']

section Leaves

variable {p : Option Int} {b : Option (List Int)}

theorem Leaves.popBatch (h : Leaves s c p b t) : Leaves s c p none (t.popBatch c.modelId) where
  p95 := h.p95
  batch id := by
    show (t.realtimeBatchMs.erase c.modelId).get id = _
    rw [Ordered.get_erase]
    split_ifs with heq
    · rfl
    · rw [h.batch, if_neg heq]
  cap := h.cap

theorem Leaves.popP95 (h : Leaves s c p b t) : Leaves s c none b (t.popP95 c.modelId) where
  p95 id := by
    show (t.realtimeP95Ms.erase c.modelId).get id = _
    rw [Ordered.get_erase]
    split_ifs with heq
    · rfl
    · rw [h.p95, if_neg heq]
  batch := h.batch
  cap := h.cap

/-- The other fields take no part. -/
theorem Leaves.same {t' : Measurements} (h : Leaves s c p b t)
    (hp95 : t'.realtimeP95Ms = t.realtimeP95Ms) (hbatch : t'.realtimeBatchMs = t.realtimeBatchMs)
    (hcap : t'.calibrationCap = t.calibrationCap) : Leaves s c p b t' where
  p95 id := by rw [hp95, h.p95]
  batch id := by rw [hbatch, h.batch]
  cap := hcap.trans h.cap

theorem Leaves.defer (h : Leaves s c p b t) : Leaves s c p b (t.deferCalibration id) :=
  h.same rfl rfl rfl

theorem Leaves.recompute (h : Leaves s c p b t) : Leaves s c p b t.recomputeCalibratedSlots :=
  h.same rfl rfl rfl

theorem Leaves.skip (h : Leaves s c p b t) : Leaves s c none none (t.skip c.modelId) :=
  h.popP95.popBatch.recompute

theorem Leaves.putP95 (h : Leaves s c p b t) (m : Int) :
    Leaves s c (some m) b { t with realtimeP95Ms := t.realtimeP95Ms.put c.modelId m } where
  p95 id := by
    show (t.realtimeP95Ms.put c.modelId m).get id = _
    rw [Ordered.get_put]
    split_ifs with heq
    · rfl
    · rw [h.p95, if_neg heq]
  batch := h.batch
  cap := h.cap

theorem Leaves.putBatch (h : Leaves s c p b t) (curve : List Int) :
    Leaves s c p (some curve)
      { t with realtimeBatchMs := t.realtimeBatchMs.put c.modelId curve } where
  p95 := h.p95
  batch id := by
    show (t.realtimeBatchMs.put c.modelId curve).get id = _
    rw [Ordered.get_put]
    split_ifs with heq
    · rfl
    · rw [h.batch, if_neg heq]
  cap := h.cap

/-- The call begins with the new cap. -/
theorem leaves_start (s : Measurements) (c : Call) :
    Leaves s c (s.realtimeP95Ms.get c.modelId) (s.realtimeBatchMs.get c.modelId)
      { s with calibrationCap := c.configured } where
  p95 id := by split_ifs with heq <;> simp [heq]
  batch id := by split_ifs with heq <;> simp [heq]
  cap := rfl

end Leaves

/-- How the single-frame phase ends: it measures, it leaves the model without a p95, or it
raises before it has written. -/
theorem calibrateFrames_cases (s : Measurements) (c : Call) :
    (∃ m, Measured c m ∧ (s.calibrateFrames c).2 = true ∧
      Leaves s c (some m) (s.realtimeBatchMs.get c.modelId) (s.calibrateFrames c).1) ∨
    (¬ ∃ m, Measured c m) ∧ (s.calibrateFrames c).2 = true ∧
      (∃ b, Leaves s c none b (s.calibrateFrames c).1) ∨
    (¬ ∃ m, Measured c m) ∧ (s.calibrateFrames c).2 = false ∧
      ∃ p b, Leaves s c p b (s.calibrateFrames c).1 := by
  have hstart := leaves_start s c
  unfold calibrateFrames
  dsimp only
  by_cases hcuda : c.onCuda = false
  · rw [if_pos hcuda]
    refine Or.inr (Or.inl ⟨?_, rfl, none, hstart.skip⟩)
    rintro ⟨m, hm⟩
    rw [hm.onCuda] at hcuda
    cases hcuda
  rw [if_neg hcuda]
  by_cases hable : c.configured ≤ 0 ∨ c.realtime = false
  · rw [if_pos hable]
    refine Or.inr (Or.inl ⟨?_, rfl, none, hstart.skip⟩)
    rintro ⟨m, hm⟩
    rcases hable with hnone | hnot
    · exact absurd hm.configured (by omega)
    · rw [hm.realtime] at hnot
      cases hnot
  rw [if_neg hable]
  by_cases hexpected : c.expected ≠ .full
  · rw [if_pos hexpected]
    refine Or.inr (Or.inl ⟨fun ⟨m, hm⟩ => hexpected hm.expected, rfl, none, ?_⟩)
    split_ifs
    · exact hstart.defer.skip
    · exact hstart.skip
  rw [if_neg hexpected]
  cases hensured : c.ensured with
  | none =>
    refine Or.inr (Or.inr ⟨?_, rfl, _, _, hstart⟩)
    rintro ⟨m, hm⟩
    rw [hm.ensured] at hensured
    cases hensured
  | some selected =>
    dsimp only
    by_cases hselected : selected ≠ some .full
    · rw [if_pos hselected]
      refine Or.inr (Or.inl ⟨?_, rfl, _, hstart.popP95.defer⟩)
      rintro ⟨m, hm⟩
      rw [hm.ensured, Option.some.injEq] at hensured
      exact hselected hensured.symm
    rw [if_neg hselected]
    cases hframes : c.frames with
    | none =>
      refine Or.inr (Or.inr ⟨?_, rfl, _, _, hstart⟩)
      rintro ⟨m, hm⟩
      obtain ⟨samples, hsome, -⟩ := hm.frames
      rw [hframes] at hsome
      cases hsome
    | some samples =>
      dsimp only
      by_cases hloaded : c.loaded ≠ some .full
      · rw [if_pos hloaded]
        exact Or.inr (Or.inl ⟨fun ⟨m, hm⟩ => hloaded hm.loaded, rfl, none,
          hstart.defer.skip⟩)
      rw [if_neg hloaded]
      push Not at hcuda hable hexpected hselected hloaded
      refine Or.inl ⟨p95Of samples, ?_, rfl, (hstart.putP95 (p95Of samples)).recompute⟩
      exact ⟨by simpa using hcuda, hable.1, by simpa using hable.2, hexpected,
        hensured.trans (congrArg some hselected), hloaded, samples, hframes, rfl⟩

/-- The minimum before the batch phase. -/
structure Ready (s : Measurements) (c : Call) (m n : Int) : Prop where
  measured : Measured c m
  minimum : ∃ t, Leaves s c (some m) (s.realtimeBatchMs.get c.modelId) t ∧ t.IsMinimum n

/-- What a call leaves, by the way it ends. -/
inductive Ends (s : Measurements) (c : Call) (t : Measurements) : Prop where
  | unmeasured (hnot : ¬ ∃ m, Measured c m) (hleaves : Leaves s c none none t)
      (hslots : t.Advertised)
  | withoutSlots (m n : Int) (hready : Ready s c m n) (hn : n ≤ 0)
      (hleaves : Leaves s c (some m) none t) (hslots : t.calibratedSlots = some n)
  | withoutCurve (m n : Int) (hready : Ready s c m n) (hn : 0 < n)
      (hleaves : Leaves s c (some m) none t)
      (hslots : t.Advertised)
      (hbatch : ¬ (2 ≤ c.configured ∧ c.batchInputs = true ∧ Completes c (counts c.configured)))
  | withCurve (m n : Int) (curve : List Int) (hready : Ready s c m n) (hn : 0 < n)
      (hleaves : Leaves s c (some m) (some curve) t)
      (hslots : t.Advertised)
      (hconfigured : 2 ≤ c.configured) (hinputs : c.batchInputs = true)
      (hcurve : extendCurve c.walls (counts c.configured) [m] = some curve)

theorem Leaves.p95_self {p : Option Int} {b : Option (List Int)} (h : Leaves s c p b t) :
    t.realtimeP95Ms.get c.modelId = p := by rw [h.p95, if_pos rfl]

/-- A curve of a model without a p95 takes no part in the minimum. -/
theorem IsMinimum.popBatch {n : Int} (h : t.IsMinimum n) (hnone : t.realtimeP95Ms.get id = none) :
    (t.popBatch id).IsMinimum n := by
  refine h.congr (fun _ => rfl) ?_
  intro other p95 hget
  have hne : other ≠ id := by
    rintro rfl
    rw [hnone] at hget
    cases hget
  simp only [Measurements.allows, Measurements.popBatch, Ordered.get_erase, if_neg hne]

theorem calibrateRealtime_ends (s : Measurements) (c : Call) :
    Ends s c (s.calibrateRealtime c) := by
  have hphase := calibrateFrames_cases { s with calibrationCap := c.configured } c
  have hrebase : ∀ {p b t}, Leaves { s with calibrationCap := c.configured } c p b t →
      Leaves s c p b t := fun h => ⟨h.p95, h.batch, h.cap⟩
  unfold calibrateRealtime
  generalize { s with calibrationCap := c.configured }.calibrateFrames c = result at hphase
  obtain ⟨t, returned⟩ := result
  dsimp only at hphase ⊢
  rcases hphase with ⟨m, hm, rfl, hleaves⟩ | ⟨hnot, rfl, b, hleaves⟩ | ⟨hnot, rfl, p, b, hleaves⟩
  · rw [if_neg (by decide)]
    replace hleaves := hrebase hleaves
    -- the retry set takes no part
    have hdiscard : ∃ u, Leaves s c (some m) (s.realtimeBatchMs.get c.modelId) u ∧
        u = if (t.realtimeP95Ms.get c.modelId).isSome then
          { t with calibrationRetryModels := t.calibrationRetryModels.erase c.modelId } else t := by
      refine ⟨_, ?_, rfl⟩
      split_ifs
      · exact hleaves.same rfl rfl rfl
      · exact hleaves
    obtain ⟨u, hu, heq⟩ := hdiscard
    rw [← heq]
    have hready : Ready s c m u.leastSlots := ⟨hm, u, hu, isMinimum_leastSlots u⟩
    have hu' : Leaves s c (some m) (s.realtimeBatchMs.get c.modelId) u.recomputeCalibratedSlots :=
      hu.recompute
    by_cases hslots : u.leastSlots ≤ 0
    · rw [if_pos hslots]
      exact .withoutSlots m _ hready hslots hu'.popBatch rfl
    rw [if_neg hslots]
    have hpos : 0 < u.leastSlots := by omega
    unfold calibrateBatchCurve
    rw [hu'.p95_self]
    dsimp only
    by_cases hconfigured : c.configured < 2
    · rw [if_pos hconfigured]
      exact .withoutCurve m _ hready hpos hu'.popBatch.recompute (advertised _)
        fun h => absurd h.1 (by omega)
    rw [if_neg hconfigured]
    by_cases hinputs : c.batchInputs = false
    · rw [if_pos hinputs]
      exact .withoutCurve m _ hready hpos hu'.popBatch.recompute.defer (advertised _).defer
        fun h => by rw [hinputs] at h; exact absurd h.2.1 (by decide)
    rw [if_neg hinputs]
    cases hcurve : extendCurve c.walls (counts c.configured) [m] with
    | none =>
      refine .withoutCurve m _ hready hpos hu'.popBatch.recompute.defer (advertised _).defer ?_
      rintro ⟨-, -, hcompletes⟩
      have hsome := (extendCurve_isSome [m]).2 hcompletes
      rw [hcurve] at hsome
      cases hsome
    | some curve =>
      exact .withCurve m _ curve hready hpos (hu'.putBatch curve).recompute
        (advertised _) (by omega) (by simpa using hinputs) hcurve
  · rw [if_neg (by decide)]
    replace hleaves := hrebase hleaves
    have hnone := hleaves.p95_self
    rw [hnone, Option.isSome_none, if_neg Bool.false_ne_true]
    have ht : Leaves s c none b t.recomputeCalibratedSlots := hleaves.recompute
    obtain ⟨n, hn, hmin⟩ := advertised t
    split_ifs with hslots
    · exact .unmeasured hnot ht.popBatch ⟨n, hn, hmin.popBatch ht.p95_self⟩
    · unfold calibrateBatchCurve
      rw [ht.p95_self]
      exact .unmeasured hnot ht.popBatch.recompute (advertised _)
  · rw [if_pos rfl]
    replace hleaves := hrebase hleaves
    exact .unmeasured hnot hleaves.skip.defer (advertised _).defer

/-! ## When a call keeps the slots honest -/

/-- Each other measured model allows a slot. -/
def OthersAllow (s : Measurements) (c : Call) : Prop :=
  ∀ id p95, id ≠ c.modelId → s.realtimeP95Ms.get id = some p95 →
    0 < { s with calibrationCap := c.configured }.allows id p95

/-- The curve of an earlier call lets a p95 above the bar into the batch phase, which puts a
second entry behind it. -/
def Overtakes (s : Measurements) (c : Call) (m : Int) : Prop :=
  ∃ curve, s.realtimeBatchMs.get c.modelId = some curve ∧
    0 < slotsFromBatchCurve curve c.configured ∧ OthersAllow s c ∧ realtimeBarMs < m ∧
    2 ≤ c.configured ∧ c.batchInputs = true ∧ Fits c 2 ∧ Completes c (counts c.configured)

/-- The curve of an earlier call allows no slot, where the new p95 and every other model do. -/
def Withholds (s : Measurements) (c : Call) (m : Int) : Prop :=
  ∃ curve, s.realtimeBatchMs.get c.modelId = some curve ∧
    slotsFromBatchCurve curve c.configured ≤ 0 ∧ OthersAllow s c ∧
    0 < slotsFromFrameMs m c.configured

/-- A new p95 does not meet a curve that it contradicts. -/
def Meets (s : Measurements) (c : Call) : Prop :=
  ∀ m, Measured c m → ¬ Overtakes s c m ∧ ¬ Withholds s c m

theorem Leaves.pos_iff {b : Option (List Int)} {n : Int} (h : Leaves s c (some m) b t)
    (hmin : t.IsMinimum n) : 0 < n ↔ OthersAllow s c ∧ 0 < t.allows c.modelId m := by
  rw [hmin.pos_iff]
  constructor
  · rintro ⟨-, hall⟩
    refine ⟨?_, hall _ _ h.p95_self⟩
    intro id p95 hne hget
    rw [← h.allows hne]
    exact hall id p95 (by rw [h.p95, if_neg hne, hget])
  · rintro ⟨hothers, hself⟩
    refine ⟨⟨_, _, h.p95_self⟩, ?_⟩
    intro id p95 hget
    by_cases heq : id = c.modelId
    · subst heq
      rw [h.p95_self, Option.some.injEq] at hget
      rw [← hget]
      exact hself
    · rw [h.p95, if_neg heq] at hget
      rw [h.allows heq]
      exact hothers id p95 heq hget

/-- What the old curve, or without one the new p95, contributes before the batch phase. -/
theorem Ready.pos {n : Int} (h : Ready s c m n) : 0 < n ↔ OthersAllow s c ∧
    ((∃ curve, s.realtimeBatchMs.get c.modelId = some curve ∧
        0 < slotsFromBatchCurve curve c.configured) ∨
      s.realtimeBatchMs.get c.modelId = none ∧ 0 < slotsFromFrameMs m c.configured) := by
  obtain ⟨t, ht, hmin⟩ := h.minimum
  rw [ht.pos_iff hmin]
  refine and_congr_right fun _ => ?_
  cases hold : s.realtimeBatchMs.get c.modelId with
  | none =>
    rw [hold] at ht
    rw [ht.allows_frame]
    simp
  | some curve =>
    rw [hold] at ht
    rw [ht.allows_curve]
    simp

theorem Ready.not_withholds {n : Int} (h : Ready s c m n) (hn : 0 < n) : ¬ Withholds s c m := by
  rintro ⟨curve, hold, hcurve, -⟩
  rcases (h.pos.1 hn).2 with ⟨curve', hold', hpos⟩ | ⟨hnone, -⟩
  · rw [hold, Option.some.injEq] at hold'
    rw [hold'] at hcurve
    omega
  · rw [hold] at hnone
    cases hnone

theorem calibrateRealtime_honest (hcurves : s.Curves) (hbar : s.WithinBar) :
    (s.calibrateRealtime c).Honest ↔ Meets s c := by
  rcases calibrateRealtime_ends s c with ⟨hnot, hleaves, hslots⟩ |
    ⟨m, n, hready, hn, hleaves, hslots⟩ | ⟨m, n, hready, hn, hleaves, hslots, hbatch⟩ |
    ⟨m, n, curve, hready, hn, hleaves, hslots, hconfigured, hinputs, hcurve⟩
  · refine iff_of_true ⟨hleaves.curves hcurves (by simp), ?_, hslots⟩ fun m hm =>
      absurd ⟨m, hm⟩ hnot
    exact (hleaves.withinBar_iff hbar).2 (by simp)
  · -- the old curve is dropped behind the minimum that was taken with it
    have hmin := isMinimum_leastSlots (s.calibrateRealtime c)
    have hpos := hleaves.pos_iff hmin
    rw [hleaves.allows_frame] at hpos
    have hzero : n = 0 := le_antisymm hn hready.minimum.choose_spec.2.nonneg
    have hright : (s.calibrateRealtime c).Advertised ↔
        ¬ (OthersAllow s c ∧ 0 < slotsFromFrameMs m c.configured) := by
      rw [← hpos]
      constructor
      · rintro ⟨n', hn', hmin'⟩
        rw [hslots, Option.some.injEq] at hn'
        rw [hmin.unique hmin', ← hn', hzero]
        exact lt_irrefl 0
      · intro hnot
        have hleast : (s.calibrateRealtime c).leastSlots = n := by
          have := hmin.nonneg
          omega
        exact ⟨n, hslots, hleast ▸ hmin⟩
    have hwithholds : Withholds s c m ↔
        OthersAllow s c ∧ 0 < slotsFromFrameMs m c.configured := by
      constructor
      · rintro ⟨curve, -, -, hothers, hframe⟩
        exact ⟨hothers, hframe⟩
      · rintro ⟨hothers, hframe⟩
        have hnot : ¬ 0 < n := by omega
        rw [hready.pos] at hnot
        cases hold : s.realtimeBatchMs.get c.modelId with
        | none => exact absurd ⟨hothers, Or.inr ⟨hold, hframe⟩⟩ hnot
        | some curve =>
          refine ⟨curve, hold, ?_, hothers, hframe⟩
          by_contra hcurve
          exact hnot ⟨hothers, Or.inl ⟨curve, hold, by omega⟩⟩
    have hovertakes : ¬ Overtakes s c m := by
      rintro ⟨curve, hold, hcurve, hothers, -⟩
      have : 0 < n := hready.pos.2 ⟨hothers, Or.inl ⟨curve, hold, hcurve⟩⟩
      omega
    constructor
    · intro hhonest m' hm'
      obtain rfl := hready.measured.unique hm'
      exact ⟨hovertakes, fun h => hright.1 hhonest.slots (hwithholds.1 h)⟩
    · intro hmeets
      refine ⟨hleaves.curves hcurves (by simp), (hleaves.withinBar_iff hbar).2 (by simp), ?_⟩
      exact hright.2 fun h => (hmeets m hready.measured).2 (hwithholds.2 h)
  · refine iff_of_true ⟨hleaves.curves hcurves (by simp), ?_, hslots⟩ ?_
    · exact (hleaves.withinBar_iff hbar).2 (by simp)
    · intro m' hm'
      obtain rfl := hready.measured.unique hm'
      constructor
      · rintro ⟨curve, -, -, -, -, hconfigured, hinputs, -, hcompletes⟩
        exact hbatch ⟨hconfigured, hinputs, hcompletes⟩
      · exact hready.not_withholds hn
  · -- the curve begins with the new p95, which the old curve may have let in
    obtain ⟨rest, hcounts⟩ := counts_of_two_le hconfigured
    obtain ⟨more, hshape, hsorted, hwithin⟩ :=
      @extendCurve_grows _ _ [] _ _ (by simp) hcurve
    rw [List.nil_append] at hshape
    have hcurves' := hleaves.curves hcurves fun curve' heq => by
      rw [Option.some.injEq] at heq
      exact ⟨m, more, rfl, by rw [← heq, hshape], heq ▸ hsorted⟩
    have hmeets : Meets s c ↔ ¬ Overtakes s c m := by
      constructor
      · exact fun h => (h m hready.measured).1
      · intro h m' hm'
        obtain rfl := hready.measured.unique hm'
        exact ⟨h, hready.not_withholds hn⟩
    have hovertakes : Overtakes s c m ↔ realtimeBarMs < m ∧ Fits c 2 := by
      constructor
      · rintro ⟨curve, -, -, -, hover, -, -, hfits, -⟩
        exact ⟨hover, hfits⟩
      · rintro ⟨hover, hfits⟩
        obtain ⟨hothers, hold⟩ := hready.pos.1 hn
        rcases hold with ⟨old, hold, hallows⟩ | ⟨-, hframe⟩
        · refine ⟨old, hold, hallows, hothers, hover, hconfigured, hinputs, hfits, ?_⟩
          exact (extendCurve_isSome [m]).1 (by rw [hcurve]; rfl)
        · -- without an old curve such a p95 allows no slot
          have hnone := (le_slotsFromFrameMs (k := 1) (le_refl 1)).1 (by exact_mod_cast hframe)
          push_cast at hnone
          omega
    have hbehind : (s.calibrateRealtime c).WithinBar ↔ ¬ (realtimeBarMs < m ∧ Fits c 2) := by
      rw [hleaves.withinBar_iff hbar]
      constructor
      · rintro hall ⟨hover, hfits⟩
        rw [hcounts] at hcurve
        obtain ⟨x, more', hle, hadds⟩ := extendCurve_adds hcurve hfits
        have hx := hall curve rfl x (by rw [hadds]; simp)
        omega
      · rintro hnot curve' heq x hx
        rw [Option.some.injEq] at heq
        rw [← heq, hshape, List.tail_cons] at hx
        by_cases hover : realtimeBarMs < m
        · rw [hcounts] at hcurve
          have hstops := extendCurve_stops hcurve fun hfits => hnot ⟨hover, hfits⟩
          rw [hshape] at hstops
          rw [List.tail_eq_of_cons_eq hstops] at hx
          cases hx
        · exact hwithin (by omega) x hx
    rw [hmeets, hovertakes, ← hbehind]
    exact ⟨fun h => h.withinBar, fun h => ⟨hcurves', h, hslots⟩⟩

/-- A call leaves the measurements of the other models alone. -/
theorem calibrateRealtime_others (s : Measurements) (c : Call) (hne : id ≠ c.modelId) :
    (s.calibrateRealtime c).realtimeP95Ms.get id = s.realtimeP95Ms.get id ∧
      (s.calibrateRealtime c).realtimeBatchMs.get id = s.realtimeBatchMs.get id := by
  have hleaves : ∃ p b, Leaves s c p b (s.calibrateRealtime c) := by
    cases calibrateRealtime_ends s c with
    | unmeasured _ hleaves => exact ⟨_, _, hleaves⟩
    | withoutSlots _ _ _ _ hleaves => exact ⟨_, _, hleaves⟩
    | withoutCurve _ _ _ _ hleaves => exact ⟨_, _, hleaves⟩
    | withCurve _ _ _ _ _ hleaves => exact ⟨_, _, hleaves⟩
  obtain ⟨p, b, hleaves⟩ := hleaves
  exact ⟨by rw [hleaves.p95, if_neg hne], by rw [hleaves.batch, if_neg hne]⟩

/-- How many slots a measurement allows. -/
theorem le_allows {k : Nat} (hk : 1 ≤ k) :
    (k : Int) ≤ s.allows id p95 ↔ (k : Int) ≤ s.calibrationCap ∧
      match s.realtimeBatchMs.get id with
      | some curve => k ≤ curve.length ∧ ∀ x ∈ curve.take k, 0 < x ∧ x ≤ realtimeBarMs
      | none => 0 < p95 ∧ k * p95 ≤ realtimeBarMs := by
  unfold allows
  cases s.realtimeBatchMs.get id with
  | none => exact le_slotsFromFrameMs hk
  | some curve => exact le_slotsFromBatchCurve hk

/-- Honest before every call, the state is honest behind it exactly when the call meets no
curve that its p95 contradicts. -/
theorem calibrations_honest (hcurves : s.Curves) (hbar : s.WithinBar) (calls : List Call) :
    (∀ front c, front ++ [c] <+: calls → (s.calibrations (front ++ [c])).Honest) ↔
      ∀ front c, front ++ [c] <+: calls → Meets (s.calibrations front) c := by
  induction calls generalizing s with
  | nil =>
    refine iff_of_true ?_ ?_ <;>
    · intro front c hprefix
      exact absurd (List.prefix_nil.1 hprefix) (by simp)
  | cons d rest ih =>
    have hstep := calibrateRealtime_honest (s := s) (c := d) hcurves hbar
    constructor
    · intro hall front c hprefix
      have hhonest : (s.calibrateRealtime d).Honest := hall [] d ⟨rest, rfl⟩
      cases front with
      | nil =>
        obtain ⟨rfl, -⟩ := List.cons_prefix_cons.1 hprefix
        exact hstep.1 hhonest
      | cons d' front =>
        obtain ⟨rfl, hrest⟩ := List.cons_prefix_cons.1 hprefix
        refine (ih hhonest.curves hhonest.withinBar).1 ?_ front c hrest
        intro front' c' hprefix'
        exact hall (d' :: front') c' (List.cons_prefix_cons.2 ⟨rfl, hprefix'⟩)
    · intro hall front c hprefix
      have hhonest := hstep.2 (hall [] d ⟨rest, rfl⟩)
      cases front with
      | nil =>
        obtain ⟨rfl, -⟩ := List.cons_prefix_cons.1 hprefix
        exact hhonest
      | cons d' front =>
        obtain ⟨rfl, hrest⟩ := List.cons_prefix_cons.1 hprefix
        refine (ih hhonest.curves hhonest.withinBar).2 ?_ front c hrest
        intro front' c' hprefix'
        exact hall (d' :: front') c' (List.cons_prefix_cons.2 ⟨rfl, hprefix'⟩)

end Measurements

open Measurements

/-- After each call of a sequence the slots are honest exactly when no call measures a p95
that a curve of its model contradicts; and no call changes what other models have. -/
theorem slots_honest (calls : List Call) :
    ((∀ front c, front ++ [c] <+: calls → (fresh.calibrations (front ++ [c])).Honest) ↔
        ∀ front c, front ++ [c] <+: calls → Meets (fresh.calibrations front) c) ∧
    (∀ (s : Measurements) (id : String) (p95 : Int) (k : Nat), 1 ≤ k →
      ((k : Int) ≤ s.allows id p95 ↔ (k : Int) ≤ s.calibrationCap ∧
        match s.realtimeBatchMs.get id with
        | some curve => k ≤ curve.length ∧ ∀ x ∈ curve.take k, 0 < x ∧ x ≤ realtimeBarMs
        | none => 0 < p95 ∧ k * p95 ≤ realtimeBarMs)) ∧
    ∀ (s : Measurements) (c : Call) (id : String), id ≠ c.modelId →
      (s.calibrateRealtime c).realtimeP95Ms.get id = s.realtimeP95Ms.get id ∧
        (s.calibrateRealtime c).realtimeBatchMs.get id = s.realtimeBatchMs.get id := by
  refine ⟨?_, fun _ _ _ _ => le_allows, fun s c _ => calibrateRealtime_others s c⟩
  apply calibrations_honest
  · intro id curve hget
    cases hget
  · intro id curve hget
    cases hget

section Sample

/-- A calibration of one model up to two sessions, whose frames take so long. -/
def timed (frame pair : ℚ) : Call where
  modelId := "vega-rt"
  configured := 2
  realtime := true
  onCuda := true
  auto := true
  expected := .full
  ensured := some (some .full)
  frames := some [frame]
  loaded := some .full
  batchInputs := true
  walls _ := some [pair]

theorem slots_honest_sample : (fresh.calibrations [timed 100 200]).Honest := by
  refine (slots_honest [timed 100 200]).1.2 ?_ [] (timed 100 200) ⟨[], rfl⟩
  intro front c hprefix
  cases front with
  | nil =>
    rintro m -
    constructor
    · rintro ⟨curve, hget, -⟩
      cases hget
    · rintro ⟨curve, hget, -⟩
      cases hget
  | cons d front =>
    obtain ⟨-, hnil⟩ := List.cons_prefix_cons.1 hprefix
    exact absurd (List.prefix_nil.1 hnil) (by simp)

/-- The second call measures 600 ms and meets the curve of the first, which lets it into the
batch phase: two sessions then take 400 ms, and the curve becomes 600, 600. -/
theorem slots_dishonest : ¬ ∀ calls : List Call, calls ≠ [] → (fresh.calibrations calls).Honest := by
  intro hall
  have hhonest := hall [timed 100 200, timed 600 400] (by simp)
  have hcurve : (fresh.calibrations [timed 100 200, timed 600 400]).realtimeBatchMs.get "vega-rt" =
      some [600, 600] := by decide +kernel
  exact absurd (hhonest.withinBar _ _ hcurve 600 (by simp)) (by decide)

end Sample

end Potocolom.Engine
