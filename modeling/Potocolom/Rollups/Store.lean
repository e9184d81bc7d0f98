import Potocolom.Lib.Machine
import Potocolom.Lib.Upsert

/-! # Samples, usage events and their rollups

`maintain_once` is one transaction: it groups the recent GPU samples by worker and
five minutes and the old usage events by user, day and what was done, writes both
into their rollup tables, and prunes the rows whose time has passed.

Times are microseconds since the epoch. A float column is the rational it holds. -/

namespace Potocolom.Rollups

/-! ## Times -/

def seconds (n : ℤ) : ℤ := n * 1000000

def days (n : ℤ) : ℤ := seconds (n * 86400)

/-- `RAW_RETENTION`. -/
def rawRetention : ℤ := seconds (48 * 3600)

/-- `ROLLUP_RETENTION`. -/
def rollupRetention : ℤ := days 30

/-- `USAGE_RAW_RETENTION`. -/
def usageRawRetention : ℤ := days 90

/-- `ROLLUP_BUCKET`. -/
def rollupBucket : ℤ := seconds 300

/-- The start of the bucket a time is in, on the grid of the epoch. -/
def bucketStart (t : ℤ) : ℤ := t / rollupBucket * rollupBucket

/-- The UTC date of a time, in days since the epoch. -/
def dateOf (t : ℤ) : ℤ := t / days 1

/-! ## Aggregates over the values that are not null -/

def mean (xs : List ℚ) : Option ℚ := if xs = [] then none else some (xs.sum / xs.length)

def sumOf (xs : List ℚ) : Option ℚ := if xs = [] then none else some xs.sum

/-- `round(double precision)`: a tie goes to the even neighbour. -/
def roundHalfEven (q : ℚ) : ℤ :=
  if q - ⌊q⌋ < 1 / 2 then ⌊q⌋
  else if 1 / 2 < q - ⌊q⌋ then ⌊q⌋ + 1
  else if ⌊q⌋ % 2 = 0 then ⌊q⌋
  else ⌊q⌋ + 1

/-! ## GPU samples -/

/-- A row of `gpu_samples`. -/
structure GpuSample where
  workerId : String
  sampledAt : ℤ
  utilPct : Option ℤ
  vramUsedBytes : Option ℤ
  vramTotalBytes : Option ℤ
  temperatureC : Option ℚ
  powerW : Option ℚ
  deriving DecidableEq

/-- The key of a rollup: a worker and the start of a bucket. -/
abbrev Bucket := String × ℤ

def GpuSample.bucket (x : GpuSample) : Bucket := (x.workerId, bucketStart x.sampledAt)

/-- The ratio of a sample; one that is missing, or that no smallint holds, is dropped. -/
def GpuSample.vramPct (x : GpuSample) : Option ℤ :=
  match x.vramUsedBytes, x.vramTotalBytes with
  | some used, some total =>
    let pct := roundHalfEven ((used * 100 : ℤ) / (total : ℚ))
    if 0 < total ∧ -32768 ≤ pct ∧ pct ≤ 32767 then some pct else none
  | _, _ => none

/-- A row of `gpu_sample_rollups`. -/
structure GpuSampleRollup where
  workerId : String
  bucketStart : ℤ
  sampleCount : Nat
  utilMean : Option ℚ
  utilMin : Option ℤ
  utilMax : Option ℤ
  vramUsedPctMean : Option ℚ
  vramUsedPctMin : Option ℤ
  vramUsedPctMax : Option ℤ
  temperatureMean : Option ℚ
  powerMean : Option ℚ
  deriving DecidableEq

def GpuSampleRollup.bucket (r : GpuSampleRollup) : Bucket := (r.workerId, r.bucketStart)

/-- The aggregate of the samples of one bucket. -/
def aggregate (bucket : Bucket) (xs : List GpuSample) : GpuSampleRollup where
  workerId := bucket.1
  bucketStart := bucket.2
  sampleCount := xs.length
  utilMean := mean ((xs.filterMap GpuSample.utilPct).map fun n : ℤ => (n : ℚ))
  utilMin := (xs.filterMap GpuSample.utilPct).min?
  utilMax := (xs.filterMap GpuSample.utilPct).max?
  vramUsedPctMean := mean ((xs.filterMap GpuSample.vramPct).map fun n : ℤ => (n : ℚ))
  vramUsedPctMin := (xs.filterMap GpuSample.vramPct).min?
  vramUsedPctMax := (xs.filterMap GpuSample.vramPct).max?
  temperatureMean := mean (xs.filterMap GpuSample.temperatureC)
  powerMean := mean (xs.filterMap GpuSample.powerW)

/-- The `DO UPDATE SET` of the GPU rollups. -/
def GpuSampleRollup.update (r excluded : GpuSampleRollup) : GpuSampleRollup :=
  { r with
    sampleCount := excluded.sampleCount
    utilMean := excluded.utilMean
    utilMin := excluded.utilMin
    utilMax := excluded.utilMax
    vramUsedPctMean := excluded.vramUsedPctMean
    vramUsedPctMin := excluded.vramUsedPctMin
    vramUsedPctMax := excluded.vramUsedPctMax
    temperatureMean := excluded.temperatureMean
    powerMean := excluded.powerMean }

/-- The samples between two times. -/
def between (fromTs toTs : ℤ) (xs : List GpuSample) : List GpuSample :=
  xs.filter fun x => fromTs ≤ x.sampledAt ∧ x.sampledAt ≤ toTs

/-- `_rebuild_rollups`. -/
def rebuildRollups (samples : List GpuSample) (rollups : List GpuSampleRollup)
    (fromTs toTs : ℤ) : Option (List GpuSampleRollup) :=
  Upsert.upsert GpuSampleRollup.bucket GpuSampleRollup.update rollups
    (Upsert.groupBy GpuSample.bucket aggregate (between fromTs toTs samples))

/-! ## Usage events -/

/-- A row of `usage_events`. -/
structure UsageEvent where
  userId : Nat
  kind : String
  action : String
  modelId : String
  tier : Option String
  category : String
  categoryScore : Option ℚ
  gpuMs : Option ℤ
  durationMs : Option ℤ
  frames : Option ℤ
  createdAt : ℤ
  deriving DecidableEq

/-- What a rollup keeps apart besides the tier. -/
structure Subject where
  userId : Nat
  bucketDate : ℤ
  kind : String
  action : String
  modelId : String
  category : String
  deriving DecidableEq

def UsageEvent.subject (e : UsageEvent) : Subject :=
  ⟨e.userId, dateOf e.createdAt, e.kind, e.action, e.modelId, e.category⟩

/-- `NULLIF(tier, '')`. -/
def nullif (tier : Option String) : Option String := if tier = some "" then none else tier

/-- The dimensions of the grouping. -/
def UsageEvent.dimensions (e : UsageEvent) : Subject × Option String := (e.subject, nullif e.tier)

/-- A row of `usage_event_rollups`. -/
structure UsageEventRollup where
  subject : Subject
  tier : Option String
  eventCount : Nat
  categoryScoreSum : Option ℚ
  categoryScoreCount : Nat
  gpuMsSum : Option ℚ
  durationMsSum : Option ℚ
  framesSum : Option ℚ
  deriving DecidableEq

/-- The unique index, with `COALESCE(tier, '')`. -/
def UsageEventRollup.key (r : UsageEventRollup) : Subject × String :=
  (r.subject, r.tier.getD "")

/-- A nullable integer column as the numbers it holds. -/
def column (f : UsageEvent → Option ℤ) (es : List UsageEvent) : List ℚ :=
  (es.filterMap f).map fun n : ℤ => (n : ℚ)

/-- The aggregate of the events of one group. -/
def aggregateUsage (dimensions : Subject × Option String) (es : List UsageEvent) :
    UsageEventRollup where
  subject := dimensions.1
  tier := dimensions.2
  eventCount := es.length
  categoryScoreSum := sumOf (es.filterMap UsageEvent.categoryScore)
  categoryScoreCount := (es.filterMap UsageEvent.categoryScore).length
  gpuMsSum := sumOf (column UsageEvent.gpuMs es)
  durationMsSum := sumOf (column UsageEvent.durationMs es)
  framesSum := sumOf (column UsageEvent.frames es)

/-- The `DO UPDATE SET` of the usage rollups: the tier stays. -/
def UsageEventRollup.update (r excluded : UsageEventRollup) : UsageEventRollup :=
  { r with
    eventCount := excluded.eventCount
    categoryScoreSum := excluded.categoryScoreSum
    categoryScoreCount := excluded.categoryScoreCount
    gpuMsSum := excluded.gpuMsSum
    durationMsSum := excluded.durationMsSum
    framesSum := excluded.framesSum }

/-- `_usage_raw_cutoff`: the midnight at or before the retention. -/
def usageRawCutoff (now : ℤ) : ℤ := dateOf (now - usageRawRetention) * days 1

/-- `_rebuild_usage_rollups`. -/
def rebuildUsageRollups (events : List UsageEvent) (rollups : List UsageEventRollup)
    (beforeTs : ℤ) : Option (List UsageEventRollup) :=
  Upsert.upsert UsageEventRollup.key UsageEventRollup.update rollups
    (Upsert.groupBy UsageEvent.dimensions aggregateUsage
      (events.filter fun e => e.createdAt < beforeTs))

/-! ## The tables and a pass over them -/

structure Tables where
  gpuSamples : List GpuSample
  gpuSampleRollups : List GpuSampleRollup
  usageEvents : List UsageEvent
  usageEventRollups : List UsageEventRollup
  deriving DecidableEq

/-- The transaction of `maintain_once`. -/
def Tables.maintainOnce (db : Tables) (now : ℤ) : Option Tables := do
  let rawCutoff := now - rawRetention
  let rollupCutoff := now - rollupRetention
  let usageCutoff := usageRawCutoff now
  let rollups ← rebuildRollups db.gpuSamples db.gpuSampleRollups rawCutoff now
  let usageRollups ← rebuildUsageRollups db.usageEvents db.usageEventRollups usageCutoff
  pure {
    gpuSamples := db.gpuSamples.filter fun x => rawCutoff ≤ x.sampledAt
    gpuSampleRollups := rollups.filter fun r => rollupCutoff ≤ r.bucketStart
    usageEvents := db.usageEvents.filter fun e => usageCutoff ≤ e.createdAt
    usageEventRollups := usageRollups }

/-! ## Runs -/

/-- The tables with what happened to them: every sample ever recorded, the samples a
bucket had when a pass last saw all of them, and the latest time of a pass or of a new
usage event. -/
structure World where
  db : Tables
  recorded : List GpuSample
  whole : Bucket → Option (List GpuSample)
  clock : ℤ

namespace World

/-- The samples ever recorded for a bucket. -/
def recordedIn (w : World) (bucket : Bucket) : List GpuSample :=
  w.recorded.filter fun x => x.bucket = bucket

/-- The samples of a bucket that a pass at this time aggregates. -/
def reached (w : World) (now : ℤ) (bucket : Bucket) : List GpuSample :=
  (between (now - rawRetention) now w.db.gpuSamples).filter fun x => x.bucket = bucket

/-- A pass sees a bucket whole: it aggregates every sample ever recorded for it. -/
def SeesWhole (w : World) (now : ℤ) (bucket : Bucket) : Prop :=
  w.recordedIn bucket ≠ [] ∧ w.reached now bucket = w.recordedIn bucket

instance (w : World) (now : ℤ) (bucket : Bucket) : Decidable (w.SeesWhole now bucket) :=
  inferInstanceAs (Decidable (_ ∧ _))

end World

inductive Action where
  | recordHeartbeat (x : GpuSample)
  | recordUsage (e : UsageEvent)
  | maintainOnce (now : ℤ)

def step (w : World) : Action → Option World
  | .recordHeartbeat x => some { w with
      db := { w.db with gpuSamples := w.db.gpuSamples ++ [x] }
      recorded := w.recorded ++ [x] }
  | .recordUsage e => some { w with
      db := { w.db with usageEvents := w.db.usageEvents ++ [e] }
      clock := max w.clock e.createdAt }
  | .maintainOnce now => do
    let db ← w.db.maintainOnce now
    pure {
      db
      recorded := w.recorded
      whole := fun bucket =>
        if w.SeesWhole now bucket then some (w.recordedIn bucket) else w.whole bucket
      clock := max w.clock now }

/-- Any rows, and no rollups yet. -/
def start (samples : List GpuSample) (events : List UsageEvent) (clock : ℤ) : World where
  db := ⟨samples, [], events, []⟩
  recorded := samples
  whole := fun _ => none
  clock := clock

def machine : Machine World Action where
  init w := ∃ samples events clock, w = start samples events clock
  step := step

end Potocolom.Rollups
