import Potocolom.Listing.ImageFilters

/-! # What browser and server agree on

The browser's match of a row is the server's filter with the expired masters left out of
the job's assets. The server keeps counting those, so the two differ on a size that only an
expired master has. -/

namespace Potocolom.Listing

variable {t : Tables} {job : Job} {clock : LocalTime} {filters : ImageFilters} {now : Int}
variable {query next : Query}

/-! ## Sizes -/

/-- The bin of positive dimensions is the one whose range holds the longest side. -/
theorem bin_of_pos {width height : Int} (hwidth : 0 < width) (hheight : 0 < height) :
    imageSizeBinForDimensions width height =
      let longestSide := max width height
      some (if longestSide < 640 then .px512 else if longestSide < 896 then .px768
        else if longestSide < 1536 then .k1 else if longestSide < 3072 then .k2
        else if longestSide < 6144 then .k4 else .above4k) := by
  have hpos : ¬ ((decide (width ≤ 0) || decide (height ≤ 0)) = true) := by
    simp only [Bool.or_eq_true, decide_eq_true_eq]
    omega
  unfold imageSizeBinForDimensions
  rw [if_neg hpos]
  generalize hside : max width height = side
  have hone : 1 ≤ side := by omega
  by_cases h₁ : side < 640
  · simp [imageSizeBins, h₁, hone]
  by_cases h₂ : side < 896
  · simp [imageSizeBins, h₁, h₂, not_lt.1 h₁]
  by_cases h₃ : side < 1536
  · simp [imageSizeBins, h₁, h₂, h₃, not_lt.1 h₂]
  by_cases h₄ : side < 3072
  · simp [imageSizeBins, h₁, h₂, h₃, h₄, not_lt.1 h₃]
  by_cases h₅ : side < 6144
  · simp [imageSizeBins, h₁, h₂, h₃, h₄, h₅, not_lt.1 h₄]
  · simp [imageSizeBins, h₁, h₂, h₃, h₄, h₅, not_lt.1 h₅]

theorem bin_eq_none {width height : Int} :
    imageSizeBinForDimensions width height = none ↔ ¬ (0 < width ∧ 0 < height) := by
  constructor
  · rintro hnone ⟨hwidth, hheight⟩
    rw [bin_of_pos hwidth hheight] at hnone
    cases hnone
  · intro hnot
    unfold imageSizeBinForDimensions
    rw [if_pos]
    simp only [Bool.or_eq_true, decide_eq_true_eq]
    omega

/-- The browser's bin of a size and the server's range for it are the same. -/
theorem bin_eq_some {width height : Int} {size : GenerationSize} :
    imageSizeBinForDimensions width height = some size ↔
      (0 < width ∧ 0 < height) ∧
        ∃ range, sizeRange size = some range ∧ inRange (max width height) range = true := by
  by_cases hpos : 0 < width ∧ 0 < height
  · rw [bin_of_pos hpos.1 hpos.2]
    have hone : 1 ≤ max width height := by omega
    generalize max width height = side at hone
    cases size <;> simp only [sizeRange, inRange, hpos, and_self, true_and, Option.some.injEq,
      exists_eq_left', Bool.and_eq_true, decide_eq_true_eq, and_true, reduceCtorEq, false_and,
      exists_false] <;> grind
  · rw [bin_eq_none.2 hpos]
    simp [hpos]

/-- Of the assets, those that have not expired. -/
def Tables.unexpired (t : Tables) (now : Int) : Tables :=
  { t with
    assets := t.assets.filter fun asset => asset.visible now
    assetIds := t.assetIds.sublist (List.filter_sublist.map Asset.id) }

@[simp] theorem serializeJob_modelId : (serializeJob t now job).modelId = job.modelId := rfl

@[simp] theorem serializeJob_createdAt : (serializeJob t now job).createdAt = job.createdAt := rfl

/-- The bins of the row are those of the job's unexpired masters. -/
theorem mem_knownBins {size : GenerationSize} :
    size ∈ (serializeJob t now job).assets.filterMap
        (fun asset => imageSizeBinForDimensions asset.1 asset.2) ↔
      ∃ asset ∈ (t.unexpired now).assets, isMaster job asset = true ∧
        imageSizeBinForDimensions asset.width asset.height = some size := by
  simp only [serializeJob, List.mem_filterMap, List.mem_map, List.mem_filter, Tables.unexpired,
    isMaster, Bool.and_eq_true, decide_eq_true_eq]
  constructor
  · rintro ⟨_, ⟨asset, ⟨hasset, hmaster, hvisible⟩, rfl⟩, hbin⟩
    have hpos := (bin_eq_some.1 hbin).1
    exact ⟨asset, ⟨hasset, hvisible⟩, ⟨⟨hmaster, hpos.1⟩, hpos.2⟩, hbin⟩
  · rintro ⟨asset, ⟨hasset, hvisible⟩, ⟨⟨hmaster, -⟩, -⟩, hbin⟩
    exact ⟨_, ⟨asset, ⟨hasset, hmaster, hvisible⟩, rfl⟩, hbin⟩

/-- The sizes select a job on the server, over its unexpired masters, exactly when they select
its row in the browser. -/
theorem sizes_agree {sizes : List GenerationSize} :
    sizeCondition (t.unexpired now) sizes job = true ↔
      let knownBins := (serializeJob t now job).assets.filterMap
        fun asset => imageSizeBinForDimensions asset.1 asset.2
      (∃ bin ∈ knownBins, bin ∈ sizes) ∨ knownBins = [] ∧ .unknown ∈ sizes := by
  dsimp only
  have hmatch : (∃ bin ∈ (serializeJob t now job).assets.filterMap
        (fun asset => imageSizeBinForDimensions asset.1 asset.2), bin ∈ sizes) ↔
      ∃ asset ∈ (t.unexpired now).assets, isMaster job asset = true ∧
        ∃ size ∈ sizes, ∃ range, sizeRange size = some range ∧
          inRange (max asset.width asset.height) range = true := by
    constructor
    · rintro ⟨size, hbin, hsize⟩
      obtain ⟨asset, hasset, hmaster, hbin⟩ := mem_knownBins.1 hbin
      exact ⟨asset, hasset, hmaster, size, hsize, (bin_eq_some.1 hbin).2⟩
    · rintro ⟨asset, hasset, hmaster, size, hsize, hrange⟩
      have hpos : 0 < asset.width ∧ 0 < asset.height := by
        simp only [isMaster, Bool.and_eq_true, decide_eq_true_eq] at hmaster
        exact ⟨hmaster.1.2, hmaster.2⟩
      exact ⟨size, mem_knownBins.2 ⟨asset, hasset, hmaster, bin_eq_some.2 ⟨hpos, hrange⟩⟩, hsize⟩
  have hunknown : (serializeJob t now job).assets.filterMap
        (fun asset => imageSizeBinForDimensions asset.1 asset.2) = [] ↔
      ∀ asset ∈ (t.unexpired now).assets, ¬ isMaster job asset = true := by
    rw [List.eq_nil_iff_forall_not_mem]
    constructor
    · intro hnone asset hasset hmaster
      have hpos : 0 < asset.width ∧ 0 < asset.height := by
        simp only [isMaster, Bool.and_eq_true, decide_eq_true_eq] at hmaster
        exact ⟨hmaster.1.2, hmaster.2⟩
      -- a master of positive dimensions has a bin
      obtain ⟨size, hbin⟩ := Option.ne_none_iff_exists'.1 (mt bin_eq_none.1 (not_not.2 hpos))
      exact hnone size (mem_knownBins.2 ⟨asset, hasset, hmaster, hbin⟩)
    · intro hnone size hbin
      obtain ⟨asset, hasset, hmaster, -⟩ := mem_knownBins.1 hbin
      exact hnone asset hasset hmaster
  rw [hmatch, hunknown]
  simp only [sizeCondition, Bool.or_eq_true, Bool.and_eq_true, decide_eq_true_eq, List.any_eq_true,
    List.mem_filterMap, Bool.not_eq_true', List.any_eq_false]
  constructor
  · rintro (⟨-, asset, hasset, hmaster, range, ⟨size, hsize, hrange⟩, hin⟩ | ⟨hsize, hnone⟩)
    · exact .inl ⟨asset, hasset, hmaster, size, hsize, range, hrange, hin⟩
    · exact .inr ⟨hnone, hsize⟩
  · rintro (⟨asset, hasset, hmaster, size, hsize, range, hrange, hin⟩ | ⟨hnone, hsize⟩)
    · left
      refine ⟨?_, asset, hasset, hmaster, range, ⟨size, hsize, hrange⟩, hin⟩
      exact List.ne_nil_of_mem (List.mem_filterMap.2 ⟨size, hsize, hrange⟩)
    · exact .inr ⟨hsize, hnone⟩

theorem sizeCondition_congr {sizes sizes' : List GenerationSize}
    (hsame : ∀ size, size ∈ sizes ↔ size ∈ sizes') :
    sizeCondition t sizes job = sizeCondition t sizes' job := by
  have hranges : ∀ range, range ∈ sizes.filterMap sizeRange ↔ range ∈ sizes'.filterMap sizeRange := by
    intro range
    simp only [List.mem_filterMap, hsame]
  have hany : ∀ side, (sizes.filterMap sizeRange).any (inRange side) =
      (sizes'.filterMap sizeRange).any (inRange side) := by
    intro side
    rw [Bool.eq_iff_iff, List.any_eq_true, List.any_eq_true]
    simp only [hranges]
  have hnil : sizes.filterMap sizeRange = [] ↔ sizes'.filterMap sizeRange = [] := by
    simp only [List.eq_nil_iff_forall_not_mem, hranges]
  simp only [sizeCondition, hany, ne_eq, hnil, hsame]

/-- Where no master of the job has expired, leaving the expired ones out changes nothing. -/
theorem sizeCondition_unexpired {sizes : List GenerationSize} {instant : Int}
    (hvisible : ∀ asset ∈ t.assets, isMaster job asset = true → asset.visible instant = true) :
    sizeCondition (t.unexpired instant) sizes job = sizeCondition t sizes job := by
  have hany : ∀ p : Asset → Bool,
      (t.unexpired instant).assets.any (fun asset => isMaster job asset && p asset) =
        t.assets.any fun asset => isMaster job asset && p asset := by
    intro p
    rw [Bool.eq_iff_iff]
    simp only [Tables.unexpired, List.any_eq_true, List.mem_filter, Bool.and_eq_true]
    constructor
    · rintro ⟨asset, ⟨hasset, -⟩, hmaster⟩
      exact ⟨asset, hasset, hmaster⟩
    · rintro ⟨asset, hasset, hmaster⟩
      exact ⟨asset, ⟨hasset, hvisible asset hasset hmaster.1⟩, hmaster⟩
  have hvalid := hany fun _ => true
  simp only [Bool.and_true] at hvalid
  simp only [sizeCondition, hany, hvalid]

/-! ## What the query carries -/

/-- The query of the caller has no library filter of its own. -/
def NoLibraryKeys (query : Query) : Prop :=
  ∀ entry ∈ query, entry.1 ∉ ["model_id", "size", "created_from", "created_before"]

theorem texts_append (query₁ query₂ : Query) (key : String) :
    texts (query₁ ++ query₂) key = texts query₁ key ++ texts query₂ key :=
  List.filterMap_append

theorem texts_eq_nil {key : String} (hkey : ∀ entry ∈ query, entry.1 ≠ key) :
    texts query key = [] := by
  rw [texts, List.filterMap_eq_nil_iff]
  rintro ⟨name, value⟩ hentry
  cases value with
  | text value => exact if_neg (hkey _ hentry)
  | instant time => rfl

theorem texts_map {α : Type} (xs : List α) (text : α → String) (name key : String) :
    texts (xs.map fun x => (name, .text (text x))) key = if name = key then xs.map text else [] := by
  induction xs with
  | nil => simp [texts]
  | cons x xs ih =>
    simp only [texts, List.map_cons] at ih ⊢
    by_cases hname : name = key
    · simp_all
    · simp_all

theorem texts_setKey {name key : String} {time : Int} (hname : name ≠ key) :
    texts (setKey query name (.instant time)) key = texts query key := by
  rw [setKey, texts_append]
  have hlast : texts [(name, .instant time)] key = [] := by simp [texts]
  rw [hlast, List.append_nil, texts, texts, List.filterMap_filter]
  refine List.filterMap_congr fun entry _ => ?_
  obtain ⟨entryName, value⟩ := entry
  by_cases hentry : entryName = name
  · -- the entry that goes has another name
    subst hentry
    cases value <;> simp [hname]
  · simp [hentry]

theorem instantOf_eq_none {key : String} (hkey : ∀ entry ∈ query, entry.1 ≠ key) :
    instantOf query key = none := by
  rw [instantOf, List.getLast?_eq_none_iff, List.filterMap_eq_nil_iff]
  rintro ⟨name, value⟩ hentry
  cases value with
  | text value => rfl
  | instant time => exact if_neg (hkey _ hentry)

theorem instantOf_setKey (query : Query) (key : String) (time : Int) :
    instantOf (setKey query key (.instant time)) key = some ⟨1000 * time, true⟩ := by
  simp [instantOf, setKey, List.filterMap_append]

theorem instantOf_setKey_ne {name key : String} {time : Int} (hname : name ≠ key) :
    instantOf (setKey query name (.instant time)) key = instantOf query key := by
  have hlast : ∀ instants : List Bound, (instants ++ []).getLast? = instants.getLast? := by simp
  rw [instantOf, instantOf, setKey, List.filterMap_append, List.filterMap_filter]
  congr 1
  simp only [List.filterMap_cons, hname, if_false, List.filterMap_nil, List.append_nil]
  refine List.filterMap_congr fun entry _ => ?_
  obtain ⟨entryName, value⟩ := entry
  by_cases hentry : entryName = name
  · subst hentry
    cases value <;> simp [hname]
  · simp [hentry]

theorem find_sizeText (size : GenerationSize) :
    (allSizes.find? fun size' => sizeText size' = sizeText size) = some size := by
  cases size <;> decide

/-- The query before its date bounds. -/
def selectionQuery (query : Query) (filters : ImageFilters) : Query :=
  query ++ filters.models.map (fun model => ("model_id", .text model)) ++
    filters.sizes.eraseDups.map fun size => ("size", .text (sizeText size))

section Selection

variable (hkeys : NoLibraryKeys query)
include hkeys

theorem selection_models : texts (selectionQuery query filters) "model_id" = filters.models := by
  have hquery : texts query "model_id" = [] := by
    refine texts_eq_nil fun entry hentry heq => hkeys entry hentry ?_
    simp [heq]
  rw [selectionQuery, texts_append, texts_append, hquery,
    texts_map filters.models (fun model => model), texts_map]
  simp

theorem selection_sizes :
    texts (selectionQuery query filters) "size" = filters.sizes.eraseDups.map sizeText := by
  have hquery : texts query "size" = [] := by
    refine texts_eq_nil fun entry hentry heq => hkeys entry hentry ?_
    simp [heq]
  rw [selectionQuery, texts_append, texts_append, hquery,
    texts_map filters.models (fun model => model), texts_map]
  simp

theorem selection_instants {key : String} (hkey : key ∈ ["created_from", "created_before"]) :
    instantOf (selectionQuery query filters) key = none := by
  refine instantOf_eq_none fun entry hentry heq => ?_
  rw [selectionQuery, List.mem_append, List.mem_append, List.mem_map, List.mem_map] at hentry
  rcases hentry with (hentry | ⟨model, -, rfl⟩) | ⟨size, -, rfl⟩
  · refine hkeys entry hentry ?_
    rw [heq]
    exact List.mem_cons_of_mem _ (List.mem_cons_of_mem _ hkey)
  · rw [← heq] at hkey
    simp at hkey
  · rw [← heq] at hkey
    simp at hkey

end Selection

/-- The bounds that the server reads for a date window. -/
def boundsOf (window : Option DayWindow) : Option Bound × Option Bound :=
  (window.map fun window => ⟨1000 * window.first, true⟩,
    window.map fun window => ⟨1000 * window.throughExclusive, true⟩)

/-- What the server reads from the query: the models, the sizes as a set, and the bounds of the
window, in microseconds. -/
theorem libraryFilters_of (hkeys : NoLibraryKeys query)
    (hnext : withImageFilters clock query filters now = some next) :
    (libraryFilters next).modelIds = filters.models ∧
      (∀ size, size ∈ (libraryFilters next).sizes ↔ size ∈ filters.sizes) ∧
      ((libraryFilters next).createdFrom, (libraryFilters next).createdBefore) =
        boundsOf (windowFor clock filters now) ∧
      (filters.range ≠ .all → windowFor clock filters now ≠ none) := by
  have hsizes : ∀ values : List String, values = filters.sizes.eraseDups.map sizeText →
      ∀ size, size ∈ (values.filterMap fun value =>
        allSizes.find? fun size => sizeText size = value) ↔ size ∈ filters.sizes := by
    rintro _ rfl size
    rw [List.filterMap_map, List.mem_filterMap]
    simp only [Function.comp_apply, find_sizeText, Option.some.injEq, List.mem_eraseDups,
      exists_eq_right]
  change (if filters.range = .all then some (selectionQuery query filters) else _) = _ at hnext
  by_cases hall : filters.range = .all
  · rw [if_pos hall] at hnext
    cases hnext
    refine ⟨selection_models hkeys, hsizes _ (selection_sizes hkeys), ?_, fun h => absurd hall h⟩
    simp [libraryFilters, boundsOf, windowFor, hall, selection_instants hkeys]
  rw [if_neg hall] at hnext
  split at hnext
  · cases hnext
  obtain ⟨window, hwindow, rfl⟩ := Option.map_eq_some_iff.1 hnext
  change (libraryFilters (setKey (setKey (selectionQuery query filters) _ _) _ _)).modelIds = _ ∧ _
  refine ⟨?_, hsizes _ ?_, ?_, fun _ => by simp [hwindow]⟩
  · rw [libraryFilters, texts_setKey (by decide), texts_setKey (by decide), selection_models hkeys]
  · rw [texts_setKey (by decide), texts_setKey (by decide)]
    exact selection_sizes hkeys
  · rw [libraryFilters, instantOf_setKey_ne (by decide), instantOf_setKey, instantOf_setKey, hwindow]
    rfl

/-! ## The two sides, condition by condition -/

theorem conditions_iff {f : Filters} :
    (libraryConditions t f).all (fun condition => condition job) = true ↔
      (f.modelIds = [] ∨ job.modelId ∈ f.modelIds) ∧
      (f.sizes = [] ∨ sizeCondition t f.sizes job = true) ∧
      (∀ bound ∈ f.createdFrom, bound.instant ≤ job.createdAt) ∧
      ∀ bound ∈ f.createdBefore, job.createdAt < bound.instant := by
  have hmodels : ((if f.modelIds ≠ [] then [fun job : Job => decide (job.modelId ∈ f.modelIds)]
      else []).all fun condition => condition job) = true ↔
        (f.modelIds = [] ∨ job.modelId ∈ f.modelIds) := by
    by_cases hnil : f.modelIds = [] <;> simp [hnil]
  have hsizes : ((if f.sizes ≠ [] then [sizeCondition t f.sizes] else []).all
      fun condition => condition job) = true ↔
        (f.sizes = [] ∨ sizeCondition t f.sizes job = true) := by
    by_cases hnil : f.sizes = [] <;> simp [hnil]
  have hbound : ∀ (bound : Option Bound) (holds : Bound → Job → Bool),
      ((bound.map holds).toList.all fun condition => condition job) = true ↔
        ∀ b ∈ bound, holds b job = true := by
    rintro (_ | bound) holds <;> simp
  rw [libraryConditions, List.all_append, List.all_append, List.all_append, Bool.and_eq_true,
    Bool.and_eq_true, Bool.and_eq_true, hmodels, hsizes,
    hbound _ fun bound job => decide (bound.instant ≤ job.createdAt),
    hbound _ fun bound job => decide (job.createdAt < bound.instant)]
  simp only [decide_eq_true_eq]
  tauto

theorem matches_iff {row : Row} :
    generationMatchesImageFilters clock row filters now = true ↔
      (filters.models = [] ∨ row.modelId ∈ filters.models) ∧
      (filters.sizes = [] ∨
        let knownBins := row.assets.filterMap fun asset =>
          imageSizeBinForDimensions asset.1 asset.2
        (∃ bin ∈ knownBins, bin ∈ filters.sizes) ∨ knownBins = [] ∧ .unknown ∈ filters.sizes) ∧
      (filters.range = .all ∨ ∃ window ∈ windowFor clock filters now,
        window.first ≤ dateParse row.createdAt ∧
          dateParse row.createdAt < window.throughExclusive) := by
  dsimp only
  generalize hbins : (row.assets.filterMap fun asset =>
    imageSizeBinForDimensions asset.1 asset.2) = knownBins
  unfold generationMatchesImageFilters
  rw [hbins]
  by_cases hactive : imageFiltersActive filters = true
  · rw [if_neg (by simp [hactive])]
    by_cases hmodels : filters.models = [] ∨ row.modelId ∈ filters.models
    · rw [if_neg (by simp; tauto)]
      by_cases hsizes : filters.sizes = [] ∨
          (∃ bin ∈ knownBins, bin ∈ filters.sizes) ∨ knownBins = [] ∧ .unknown ∈ filters.sizes
      · rw [if_neg (by simp; tauto)]
        by_cases hall : filters.range = .all
        · simp [hall, hmodels, hsizes]
        · rw [if_neg hall]
          cases hwindow : windowFor clock filters now <;> simp [hall, hmodels, hsizes]
      · rw [if_pos (by simp; grind)]
        simp only [Bool.false_eq_true, false_iff]
        exact fun h => hsizes h.2.1
    · rw [if_pos (by simp; tauto)]
      simp only [Bool.false_eq_true, false_iff]
      exact fun h => hmodels h.1
  · have hnone : filters.models = [] ∧ filters.sizes = [] ∧ filters.range = .all := by
      simpa [imageFiltersActive, and_assoc] using hactive
    simp [hactive, hnone]

/-! ## Incomplete ranges -/

theorem localDayStart_eq_some {day : String} {start : Int}
    (hstart : localDayStart clock day = some start) :
    ∃ year month date, matchDay day = some (year, month, date) ∧
      start = clock.newDate year (month - 1) date ∧ clock.getFullYear start = year ∧
        clock.getMonth start = month - 1 ∧ clock.getDate start = date := by
  unfold localDayStart at hstart
  obtain ⟨⟨year, month, date⟩, hday, hstart⟩ := Option.bind_eq_some_iff.1 hstart
  dsimp only at hstart
  split at hstart
  · cases hstart
  · rename_i hsame
    cases hstart
    simp only [ne_eq, Bool.or_eq_true, decide_eq_true_eq, not_or, not_not] at hsame
    exact ⟨year, month, date, hday, rfl, hsame.1.1, hsame.1.2, hsame.2⟩

/-- A reversed range has no window: the day after its last day is not after its first. -/
theorem customDayBounds_of_reversed (horder : clock.InOrder) (hdays : filters.DaysInYears)
    (hreversed : customRangeReversed clock filters = true) :
    customDayBounds clock filters = none := by
  simp only [customRangeReversed, Bool.and_eq_true, decide_eq_true_eq] at hreversed
  obtain ⟨hcustom, hreversed⟩ := hreversed
  rw [customDayBounds, if_neg (not_not.2 hcustom)]
  cases hfrom : localDayStart clock filters.fromDay with
  | none => rfl
  | some first =>
    cases hthrough : localDayStart clock filters.through with
    | none => simp [plusDays, hthrough]
    | some last =>
      simp only [hfrom, hthrough, decide_eq_true_eq] at hreversed
      obtain ⟨year, month, date, hday, hfirst, -⟩ := localDayStart_eq_some hfrom
      obtain ⟨year', month', date', hday', hlast, hyear, hmonth, hdate⟩ :=
        localDayStart_eq_some hthrough
      have hyears := hdays _ (by simp) _ _ _ hday
      have hyears' := hdays _ (by simp) _ _ _ hday'
      have hnext : shiftDay clock last 1 ≤ first := by
        rw [shiftDay, hyear, hmonth, hdate, hfirst]
        refine horder _ _ _ _ _ _ hyears' hyears ?_
        rw [← hlast, ← hfirst]
        exact hreversed
      simp [plusDays, hthrough, hnext]

theorem windowFor_of_null (horder : clock.InOrder) (hdays : filters.DaysInYears)
    (hnull : withImageFilters clock query filters now = none) :
    filters.range ≠ .all ∧ windowFor clock filters now = none := by
  unfold withImageFilters at hnull
  dsimp only at hnull
  split at hnull
  · cases hnull
  · rename_i hall
    refine ⟨hall, ?_⟩
    split at hnull
    · rename_i hreversed
      rw [Bool.and_eq_true, decide_eq_true_eq] at hreversed
      rw [windowFor, hreversed.1]
      exact customDayBounds_of_reversed horder hdays hreversed.2
    · exact Option.map_eq_none_iff.1 hnull

/-! ## The agreement -/

/-- A microsecond instant is in the window of the browser's milliseconds exactly when it is
between the bounds that the server reads. -/
theorem window_iff (window : DayWindow) (createdAt : Int) :
    (window.first ≤ dateParse createdAt ∧ dateParse createdAt < window.throughExclusive) ↔
      1000 * window.first ≤ createdAt ∧ createdAt < 1000 * window.throughExclusive := by
  unfold dateParse
  omega

/-- The row matches exactly when the job, its expired masters left out, meets the conditions
that the query puts on it. -/
theorem matches_unexpired (hkeys : NoLibraryKeys query) (instant : Int)
    (hnext : withImageFilters clock query filters now = some next) :
    generationMatchesImageFilters clock (serializeJob t instant job) filters now = true ↔
      (libraryConditions (t.unexpired instant) (libraryFilters next)).all
        (fun condition => condition job) = true := by
  obtain ⟨hmodels, hsizes, hbounds, hwindow⟩ := libraryFilters_of hkeys hnext
  obtain ⟨hfrom, hbefore⟩ := Prod.mk.inj hbounds
  have hnil : (libraryFilters next).sizes = [] ↔ filters.sizes = [] := by
    simp only [List.eq_nil_iff_forall_not_mem, hsizes]
  have hrange : (filters.range = .all ∨ ∃ window ∈ windowFor clock filters now,
      window.first ≤ dateParse job.createdAt ∧ dateParse job.createdAt < window.throughExclusive) ↔
        (∀ bound ∈ (libraryFilters next).createdFrom, bound.instant ≤ job.createdAt) ∧
          ∀ bound ∈ (libraryFilters next).createdBefore, job.createdAt < bound.instant := by
    rw [hfrom, hbefore]
    cases hfor : windowFor clock filters now with
    | none =>
      have hall : filters.range = .all := by
        by_contra hne
        exact hwindow hne hfor
      simp [hall]
    | some window =>
      have hne : filters.range ≠ .all := by
        intro hall
        simp [windowFor, hall] at hfor
      simpa [hne] using window_iff window job.createdAt
  rw [matches_iff, conditions_iff, hmodels, hnil, sizeCondition_congr hsizes, sizes_agree]
  rw [serializeJob_modelId, serializeJob_createdAt, hrange]

/-- Browser and server agree on the library filters: the row matches nothing where there is no
query, and where there is one it matches what the server selects from the job's masters that
have not expired. That is what the server selects unless sizes are asked for and an owned
master of positive size has expired. -/
theorem filters_agree (clock : LocalTime) (t : Tables) (job : Job) (query : Query)
    (filters : ImageFilters) (now instant : Int) (horder : clock.InOrder)
    (hkeys : NoLibraryKeys query) (hdays : filters.DaysInYears) :
    let row := serializeJob t instant job
    match withImageFilters clock query filters now with
    | none => generationMatchesImageFilters clock row filters now = false
    | some next =>
      (generationMatchesImageFilters clock row filters now = true ↔
        ∀ condition ∈ libraryConditions (t.unexpired instant) (libraryFilters next),
          condition job = true) ∧
      (filters.sizes = [] ∨ (∀ asset ∈ t.assets, isMaster job asset = true →
          asset.visible instant = true) →
        (generationMatchesImageFilters clock row filters now = true ↔
          ∀ condition ∈ libraryConditions t (libraryFilters next), condition job = true)) := by
  dsimp only
  cases hnext : withImageFilters clock query filters now with
  | none =>
    obtain ⟨hall, hwindow⟩ := windowFor_of_null horder hdays hnext
    refine Bool.eq_false_iff.2 fun htrue => ?_
    obtain ⟨-, -, hrange⟩ := matches_iff.1 htrue
    simp [hall, hwindow] at hrange
  | some next =>
    have hmatch : generationMatchesImageFilters clock (serializeJob t instant job) filters now =
        true ↔ (libraryConditions (t.unexpired instant) (libraryFilters next)).all
          (fun condition => condition job) = true :=
      matches_unexpired hkeys instant hnext
    simp only [← List.all_eq_true]
    refine ⟨hmatch, fun hsame => hmatch.trans ?_⟩
    have hsizes := (libraryFilters_of hkeys hnext).2.1
    rw [conditions_iff, conditions_iff]
    rcases hsame with hnil | hvisible
    · have hnone : (libraryFilters next).sizes = [] := by
        simp only [List.eq_nil_iff_forall_not_mem, hsizes, hnil]
        exact fun _ => List.not_mem_nil
      simp [hnone]
    · rw [sizeCondition_unexpired hvisible]

/-- A browser in UTC. -/
def utc : LocalTime where
  newDate year month date :=
    let shifted := 12 * year + month - 2
    let year := shifted / 12
    86400000 * (365 * year + year / 4 - year / 100 + year / 400 + (153 * (shifted % 12) + 2) / 5 +
      date - 719469)
  getFullYear time := (civil (time / 86400000)).1
  getMonth time := (civil (time / 86400000)).2.1
  getDate time := (civil (time / 86400000)).2.2
where
  /-- Year, month and date of a day since 1970, by the years that start in March. -/
  civil (day : Int) : Int × Int × Int :=
    let era := (day + 719468) / 146097
    let dayOfEra := (day + 719468) % 146097
    let year := (dayOfEra - dayOfEra / 1460 + dayOfEra / 36524 - dayOfEra / 146096) / 365
    let dayOfYear := dayOfEra - (365 * year + year / 4 - year / 100)
    let month := (5 * dayOfYear + 2) / 153
    (year + 400 * era + (month + 2) / 12, (month + 2) % 12, dayOfYear - (153 * month + 2) / 5 + 1)

theorem utc_inOrder : utc.InOrder := by
  intro year month date year' month' date' _ _ hlt
  simp only [utc] at hlt ⊢
  omega

/-- A job of 2026-03-02, shortly before midnight. -/
def datedJob : Job := ⟨1, 7, "sdxl", .succeeded, none, none, 1772495999999999, none⟩

/-- The job's one master, of 512 pixels. -/
def masterTables (expiresAt : Option Int) : Tables where
  jobs := [datedJob]
  assets := [⟨2, 7, some 1, "outputs/2.png".toList, 512, 512, expiresAt⟩]
  models := []
  jobIds := List.nodup_singleton _
  assetIds := List.nodup_singleton _

def datedFilters : ImageFilters := ⟨["sdxl"], [.px512], .custom, "2026-03-01", "2026-03-02"⟩

theorem datedFilters_daysInYears : datedFilters.DaysInYears := by
  have hall : ∀ day ∈ [datedFilters.fromDay, datedFilters.through],
      (matchDay day).map Prod.fst = some 2026 := by decide
  intro day hday year month date hmatch
  have hyear := hall day hday
  simp only [hmatch, Option.map_some, Option.some.injEq] at hyear
  unfold InYears
  omega

theorem filters_agree_sample :
    ∃ next, withImageFilters utc [("limit", .text "50")] datedFilters 0 = some next ∧
      ∀ condition ∈ libraryConditions (masterTables none) (libraryFilters next),
        condition datedJob = true := by
  have hkeys : NoLibraryKeys [("limit", .text "50")] := by
    intro entry hentry
    rw [List.mem_singleton.1 hentry]
    decide
  have hvisible : ∀ asset ∈ (masterTables none).assets, isMaster datedJob asset = true →
      asset.visible 0 = true := by
    intro asset hasset _
    rw [List.mem_singleton.1 hasset]
    rfl
  have hmatch : generationMatchesImageFilters utc (serializeJob (masterTables none) 0 datedJob)
      datedFilters 0 = true := by decide +kernel
  have hagree := filters_agree utc (masterTables none) datedJob [("limit", .text "50")]
    datedFilters 0 0 utc_inOrder hkeys datedFilters_daysInYears
  cases hnext : withImageFilters utc [("limit", .text "50")] datedFilters 0 with
  | none =>
    simp only [hnext] at hagree
    exact absurd hmatch (Bool.eq_false_iff.1 hagree)
  | some next =>
    simp only [hnext] at hagree
    exact ⟨next, rfl, (hagree.2 (.inr hvisible)).1 hmatch⟩

/-- The server selects a job by a master that has expired, which its row no longer has; and a
library key that the query had before selects on the server alone. -/
theorem filters_disagree :
    (∃ next, withImageFilters utc [] ⟨[], [.px512], .all, "", ""⟩ 1772582400000 = some next ∧
      (∀ condition ∈ libraryConditions (masterTables (some 1772582399000000))
        (libraryFilters next), condition datedJob = true) ∧
      generationMatchesImageFilters utc
        (serializeJob (masterTables (some 1772582399000000)) 1772582400000000 datedJob)
        ⟨[], [.px512], .all, "", ""⟩ 1772582400000 = false) ∧
    ∃ next, withImageFilters utc [("model_id", .text "flux")] ⟨[], [], .all, "", ""⟩
        1772582400000 = some next ∧
      (∃ condition ∈ libraryConditions (masterTables none) (libraryFilters next),
        condition datedJob = false) ∧
      generationMatchesImageFilters utc
        (serializeJob (masterTables none) 1772582400000000 datedJob)
        ⟨[], [], .all, "", ""⟩ 1772582400000 = true := by
  refine ⟨⟨[("size", .text "512")], by decide +kernel, ?_, by decide +kernel⟩,
    ⟨[("model_id", .text "flux")], by decide +kernel, ?_, by decide +kernel⟩⟩
  · rw [← List.all_eq_true]
    decide +kernel
  · have hany : (libraryConditions (masterTables none)
        (libraryFilters [("model_id", .text "flux")])).any (fun condition => !condition datedJob) =
          true := by decide +kernel
    simpa using hany

end Potocolom.Listing
