import Potocolom.Listing.Filters

/-! # The filters of the Images library

`image-filters.ts` of the frontend: the query that asks the server, and the match of a row
that the server was not asked about. A row is a job as `serialize_jobs` returns it. A `Date`
is its time in milliseconds; what the browser's time zone makes of local days is a
parameter. -/

namespace Potocolom.Listing

/-! ## Local time -/

/-- The local time of the browser. -/
structure LocalTime where
  /-- `new Date(year, month, date)`, with months from zero. -/
  newDate : Int → Int → Int → Int
  getFullYear : Int → Int
  getMonth : Int → Int
  getDate : Int → Int

/-- The years that a custom day may name. -/
def InYears (year : Int) : Prop := 1000 ≤ year ∧ year ≤ 9998

/-- In these years a local day ends before a later one starts. -/
def LocalTime.InOrder (clock : LocalTime) : Prop :=
  ∀ year month date year' month' date', InYears year → InYears year' →
    clock.newDate year month date < clock.newDate year' month' date' →
      clock.newDate year month (date + 1) ≤ clock.newDate year' month' date'

/-! ## The filters -/

inductive ImageRangePreset where
  | all
  | today
  | last7
  | last30
  | custom
deriving DecidableEq, Repr

structure ImageFilters where
  models : List String
  sizes : List GenerationSize
  range : ImageRangePreset
  fromDay : String
  through : String
deriving DecidableEq, Repr

/-- `imageFiltersActive` -/
def imageFiltersActive (filters : ImageFilters) : Bool :=
  filters.models ≠ [] || filters.sizes ≠ [] || filters.range ≠ .all

/-- `imageSizeBins` -/
def imageSizeBins : List (GenerationSize × Option Int × Option Int) :=
  [(.px512, some 1, some 640), (.px768, some 640, some 896), (.k1, some 896, some 1536),
    (.k2, some 1536, some 3072), (.k4, some 3072, some 6144), (.above4k, some 6144, none),
    (.unknown, none, none)]

/-- `imageSizeBinForDimensions` -/
def imageSizeBinForDimensions (width height : Int) : Option GenerationSize :=
  if width ≤ 0 || height ≤ 0 then none
  else
    let longestSide := max width height
    (imageSizeBins.find? fun bin =>
      bin.1 ≠ .unknown && bin.2.1.any (fun least => least ≤ longestSide) &&
        bin.2.2.all fun limit => longestSide < limit).map Prod.fst

/-! ## Date windows -/

/-- `Number` of a group of digits. -/
def digits (chars : List Char) : Option Int :=
  if chars.all Char.isDigit then
    some (chars.foldl (fun n c => 10 * n + (c.toNat - '0'.toNat : Nat)) 0)
  else none

/-- `DAY.exec`: year, month and date. -/
def matchDay (day : String) : Option (Int × Int × Int) :=
  match day.toList with
  | [y₁, y₂, y₃, y₄, '-', m₁, m₂, '-', d₁, d₂] => do
    return (← digits [y₁, y₂, y₃, y₄], ← digits [m₁, m₂], ← digits [d₁, d₂])
  | _ => none

/-- The custom days lie in these years. -/
def ImageFilters.DaysInYears (filters : ImageFilters) : Prop :=
  ∀ day ∈ [filters.fromDay, filters.through], ∀ year month date,
    matchDay day = some (year, month, date) → InYears year

section Windows

variable (clock : LocalTime)

/-- `localDayStart` -/
def localDayStart (day : String) : Option Int := do
  let (year, month, date) ← matchDay day
  let start := clock.newDate year (month - 1) date
  if clock.getFullYear start ≠ year || clock.getMonth start ≠ month - 1 ||
      clock.getDate start ≠ date then none
  else some start

/-- The day of `start` and so many days more. -/
def shiftDay (start days : Int) : Int :=
  clock.newDate (clock.getFullYear start) (clock.getMonth start) (clock.getDate start + days)

/-- `plusDays` -/
def plusDays (day : String) (days : Int) : Option Int :=
  (localDayStart clock day).map fun start => shiftDay clock start days

/-- `customRangeReversed` -/
def customRangeReversed (filters : ImageFilters) : Bool :=
  filters.range = .custom &&
    match localDayStart clock filters.fromDay, localDayStart clock filters.through with
    | some first, some last => last < first
    | _, _ => false

/-- `DayWindow` -/
structure DayWindow where
  first : Int
  throughExclusive : Int
deriving DecidableEq, Repr

/-- `customDayBounds` -/
def customDayBounds (filters : ImageFilters) : Option DayWindow :=
  if filters.range ≠ .custom then none
  else
    match localDayStart clock filters.fromDay, plusDays clock filters.through 1 with
    | some first, some throughExclusive =>
      if throughExclusive ≤ first then none else some ⟨first, throughExclusive⟩
    | _, _ => none

/-- `presetDayRange` -/
def presetDayRange (range : ImageRangePreset) (now : Int) : Option DayWindow :=
  let back : Option Int :=
    match range with
    | .today => some 0
    | .last7 => some 6
    | .last30 => some 29
    | .all | .custom => none
  back.map fun back =>
    let today := shiftDay clock now 0
    ⟨shiftDay clock today (-back), shiftDay clock today 1⟩

/-- `windowFor` -/
def windowFor (filters : ImageFilters) (now : Int) : Option DayWindow :=
  match filters.range with
  | .all => none
  | .custom => customDayBounds clock filters
  | range => presetDayRange clock range now

/-! ## The query -/

/-- The value of a query key: a text, or an instant as its ISO string. -/
inductive QueryValue where
  | text (value : String)
  | instant (time : Int)
deriving DecidableEq, Repr

abbrev Query := List (String × QueryValue)

/-- `next.set(key, value)`. -/
def setKey (query : Query) (key : String) (value : QueryValue) : Query :=
  query.filter (fun entry => entry.1 ≠ key) ++ [(key, value)]

def sizeText : GenerationSize → String
  | .px512 => "512"
  | .px768 => "768"
  | .k1 => "1k"
  | .k2 => "2k"
  | .k4 => "4k"
  | .above4k => "above_4k"
  | .unknown => "unknown"

/-- `withImageFilters` -/
def withImageFilters (query : Query) (filters : ImageFilters) (now : Int) : Option Query :=
  let next := query ++ filters.models.map (fun model => ("model_id", .text model)) ++
    filters.sizes.eraseDups.map fun size => ("size", .text (sizeText size))
  if filters.range = .all then some next
  else if filters.range = .custom && customRangeReversed clock filters then none
  else
    (windowFor clock filters now).map fun window =>
      setKey (setKey next "created_from" (.instant window.first)) "created_before"
        (.instant window.throughExclusive)

/-! ## The match of a row -/

/-- A job as `serialize_jobs` returns it, as far as the filters read it: `created_at` in
microseconds. -/
structure Row where
  modelId : String
  createdAt : Int
  assets : List (Int × Int)
deriving DecidableEq, Repr

/-- `Date.parse` drops the digits below a millisecond. -/
def dateParse (createdAt : Int) : Int := createdAt / 1000

/-- `generationMatchesImageFilters` -/
def generationMatchesImageFilters (generation : Row) (filters : ImageFilters) (now : Int) : Bool :=
  if !imageFiltersActive filters then true
  else if filters.models ≠ [] && generation.modelId ∉ filters.models then false
  else
    let knownBins := generation.assets.filterMap fun asset =>
      imageSizeBinForDimensions asset.1 asset.2
    let matchesSize := knownBins.any fun bin => bin ∈ filters.sizes
    let isUnknown := knownBins.isEmpty
    if filters.sizes ≠ [] && !matchesSize && !(isUnknown && .unknown ∈ filters.sizes) then false
    else if filters.range = .all then true
    else
      match windowFor clock filters now with
      | none => false
      | some window =>
        let created := dateParse generation.createdAt
        window.first ≤ created && created < window.throughExclusive

end Windows

/-! ## What the server serializes and reads -/

/-- The asset can be seen: it has not expired. -/
def Asset.visible (asset : Asset) (now : Int) : Bool :=
  match asset.expiresAt with
  | none => true
  | some expiresAt => now < expiresAt

/-- `serialize_jobs`, of one job, at an instant in microseconds. -/
def serializeJob (t : Tables) (now : Int) (job : Job) : Row :=
  let visibleMasters := t.assets.filter fun asset =>
    asset.jobId = some job.id && asset.userId = job.userId && !decide asset.IsThumbnail &&
      asset.visible now
  ⟨job.modelId, job.createdAt, visibleMasters.map fun asset => (asset.width, asset.height)⟩

def texts (query : Query) (key : String) : List String :=
  query.filterMap fun entry =>
    match entry.2 with
    | .text value => if entry.1 = key then some value else none
    | .instant _ => none

/-- The last instant of a key. -/
def instantOf (query : Query) (key : String) : Option Bound :=
  (query.filterMap fun entry =>
    match entry.2 with
    | .instant time => if entry.1 = key then some (⟨1000 * time, true⟩ : Bound) else none
    | .text _ => none).getLast?

def allSizes : List GenerationSize := [.px512, .px768, .k1, .k2, .k4, .above4k, .unknown]

/-- The library filters of a request with this query. -/
def libraryFilters (query : Query) : Filters where
  state := none
  starred := none
  rootsOnly := none
  q := none
  modelIds := texts query "model_id"
  createdFrom := instantOf query "created_from"
  createdBefore := instantOf query "created_before"
  sizes := (texts query "size").filterMap fun value => allSizes.find? fun size => sizeText size = value
  action := none

end Potocolom.Listing
