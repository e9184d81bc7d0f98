import Potocolom.Rollups.Store

/-! # GPU rollups against the samples they stand for

A pass writes the aggregate of the samples it reaches. It reaches those of the last
48 hours, to the microsecond, and prunes the others: a bucket that this instant cuts
is aggregated once more from what is left of it. Where no pass does that to a bucket
an earlier pass saw whole, every rollup is exact. -/

namespace Potocolom.Rollups

variable {w t : World} {db db' : Tables} {now : ℤ}

/-! ## A pass -/

@[simp] theorem aggregate_bucket (bucket : Bucket) (xs : List GpuSample) :
    (aggregate bucket xs).bucket = bucket := rfl

theorem GpuSampleRollup.update_eq {r excluded : GpuSampleRollup}
    (h : excluded.bucket = r.bucket) : r.update excluded = excluded := by
  have hworker : excluded.workerId = r.workerId := congrArg Prod.fst h
  have hstart : excluded.bucketStart = r.bucketStart := congrArg Prod.snd h
  rw [GpuSampleRollup.update, ← hworker, ← hstart]

theorem gpuBatch_nodup (xs : List GpuSample) :
    ((Upsert.groupBy GpuSample.bucket aggregate xs).map GpuSampleRollup.bucket).Nodup :=
  Upsert.nodup_groupBy (f := id) (fun _ _ => rfl) fun _ _ _ _ h => h

/-- What a pass is made of. -/
theorem maintainOnce_eq_some (h : db.maintainOnce now = some db') :
    ∃ rollups, rebuildRollups db.gpuSamples db.gpuSampleRollups (now - rawRetention) now =
        some rollups ∧
      rebuildUsageRollups db.usageEvents db.usageEventRollups (usageRawCutoff now) =
        some db'.usageEventRollups ∧
      db'.gpuSamples = db.gpuSamples.filter (fun x => now - rawRetention ≤ x.sampledAt) ∧
      db'.gpuSampleRollups = rollups.filter (fun r => now - rollupRetention ≤ r.bucketStart) ∧
      db'.usageEvents = db.usageEvents.filter fun e => usageRawCutoff now ≤ e.createdAt := by
  simp only [Tables.maintainOnce, bind, Option.bind_eq_some_iff] at h
  rcases h with ⟨rollups, hrollups, usage, husage, hpure⟩
  cases hpure
  exact ⟨rollups, hrollups, husage, rfl, rfl, rfl⟩

/-- The rollups after a pass: the buckets it reaches are aggregated anew, the others
stay, and those past their retention go. -/
theorem mem_rollups (h : db.maintainOnce now = some db') {r : GpuSampleRollup} :
    r ∈ db'.gpuSampleRollups ↔ now - rollupRetention ≤ r.bucketStart ∧
      ((∃ x ∈ between (now - rawRetention) now db.gpuSamples, r = aggregate x.bucket
          ((between (now - rawRetention) now db.gpuSamples).filter fun y =>
            y.bucket = x.bucket)) ∨
        r ∈ db.gpuSampleRollups ∧
          ∀ x ∈ between (now - rawRetention) now db.gpuSamples, x.bucket ≠ r.bucket) := by
  rcases maintainOnce_eq_some h with ⟨rollups, hrollups, -, -, hkept, -⟩
  have hmem := Upsert.mem_upsert (r := r) (fun row r hkey => GpuSampleRollup.update_eq hkey) hrollups
  have hkeys : r.bucket ∉ (Upsert.groupBy GpuSample.bucket aggregate
        (between (now - rawRetention) now db.gpuSamples)).map GpuSampleRollup.bucket ↔
      ∀ x ∈ between (now - rawRetention) now db.gpuSamples, x.bucket ≠ r.bucket := by
    rw [List.mem_map, not_exists]
    constructor
    · intro hnot x hx hkey
      exact hnot _ ⟨Upsert.mem_groupBy.2 ⟨x, hx, rfl⟩, hkey⟩
    · rintro hall r' ⟨hr', hkey⟩
      rcases Upsert.mem_groupBy.1 hr' with ⟨x, hx, rfl⟩
      exact hall x hx hkey
  rw [hkept, List.mem_filter, hmem, Upsert.mem_groupBy, hkeys]
  simp [and_comm]

theorem mem_reached {bucket : Bucket} {x : GpuSample} :
    x ∈ w.reached now bucket ↔
      x ∈ between (now - rawRetention) now w.db.gpuSamples ∧ x.bucket = bucket := by
  simp [World.reached]

theorem step_maintainOnce (h : step w (.maintainOnce now) = some t) :
    w.db.maintainOnce now = some t.db ∧ t.recorded = w.recorded ∧ t.clock = max w.clock now ∧
      t.whole = fun bucket =>
        if w.SeesWhole now bucket then some (w.recordedIn bucket) else w.whole bucket := by
  simp only [step, bind, Option.bind_eq_some_iff] at h
  rcases h with ⟨db, hdb, hpure⟩
  cases hpure
  exact ⟨hdb, rfl, rfl, rfl⟩

/-! ## The property and the condition -/

/-- A rollup that is retained, of a bucket that some pass saw whole, is the aggregate
of every sample that was recorded for the bucket when a pass last saw it so. -/
def World.Exact (w : World) : Prop :=
  ∀ r ∈ w.db.gpuSampleRollups, ∀ xs, w.whole r.bucket = some xs → r = aggregate r.bucket xs

/-- A pass that reaches a sample of a bucket an earlier pass saw whole reaches every
sample recorded for the bucket: neither end of its window cuts the bucket, and none of
its samples is pruned. -/
def Whole (w : World) : Action → Prop
  | .maintainOnce now => ∀ x ∈ between (now - rawRetention) now w.db.gpuSamples,
      (w.whole x.bucket).isSome → w.reached now x.bucket = w.recordedIn x.bucket
  | _ => True

instance (w : World) : (l : Action) → Decidable (Whole w l)
  | .maintainOnce _ => inferInstanceAs (Decidable (∀ x ∈ _, _))
  | .recordHeartbeat _ => isTrue trivial
  | .recordUsage _ => isTrue trivial

/-- A bucket a pass reaches whole is one it sees whole. -/
theorem seesWhole_of_reached {x : GpuSample}
    (hx : x ∈ between (now - rawRetention) now w.db.gpuSamples)
    (h : w.reached now x.bucket = w.recordedIn x.bucket) : w.SeesWhole now x.bucket := by
  refine ⟨?_, h⟩
  rw [← h]
  exact List.ne_nil_of_mem (mem_reached.2 ⟨hx, rfl⟩)

theorem World.Exact.step {l : Action} (h : w.Exact) (hl : Whole w l)
    (hst : machine.step w l = some t) : t.Exact := by
  cases l with
  | recordHeartbeat x =>
    cases hst
    exact h
  | recordUsage e =>
    cases hst
    exact h
  | maintainOnce now =>
    rcases step_maintainOnce hst with ⟨hdb, hrecorded, -, hwhole⟩
    intro r hr xs hxs
    rcases (mem_rollups hdb).1 hr with ⟨-, ⟨x, hx, rfl⟩ | ⟨hold, hother⟩⟩
    · -- the row is new: if its bucket was whole before, this pass reaches all of it
      rw [hwhole, aggregate_bucket] at hxs
      by_cases hsees : w.SeesWhole now x.bucket
      · simp only [if_pos hsees, Option.some.injEq] at hxs
        rw [aggregate_bucket, ← hxs, ← hsees.2]
        rfl
      · simp only [if_neg hsees] at hxs
        have hreached := hl x hx (by rw [hxs]; rfl)
        exact absurd (seesWhole_of_reached hx hreached) hsees
    · -- the row is old: the pass reaches no sample of its bucket, so it does not see it
      have hsees : ¬ w.SeesWhole now r.bucket := by
        rintro ⟨hnonempty, hreached⟩
        rw [← hreached] at hnonempty
        rcases List.exists_mem_of_ne_nil _ hnonempty with ⟨x, hx⟩
        have hmem := mem_reached.1 hx
        exact hother x hmem.1 hmem.2
      rw [hwhole] at hxs
      simp only [if_neg hsees] at hxs
      exact h r hold xs hxs

theorem start_exact (samples : List GpuSample) (events : List UsageEvent) (clock : ℤ) :
    (start samples events clock).Exact := by
  intro r hr
  cases hr

theorem reach_exact (hw : machine.Reach Whole w) : w.Exact := by
  refine hw.invariant ?_ ?_
  · rintro _ ⟨samples, events, clock, rfl⟩
    exact start_exact samples events clock
  · intro s l t hs hl hst
    exact hs.step hl hst

/-! ## The other direction -/

/-- What is stored was recorded, in the same order. -/
def World.Held (w : World) : Prop := w.db.gpuSamples.Sublist w.recorded

theorem reach_held {ok : World → Action → Prop} (hw : machine.Reach ok w) : w.Held := by
  refine hw.invariant ?_ ?_
  · rintro _ ⟨samples, events, clock, rfl⟩
    exact List.Sublist.refl samples
  · intro s l t hs _ hst
    cases l with
    | recordHeartbeat x =>
      cases hst
      exact hs.append_right [x]
    | recordUsage e =>
      cases hst
      exact hs
    | maintainOnce now =>
      rcases step_maintainOnce hst with ⟨hdb, hrecorded, -, -⟩
      rcases maintainOnce_eq_some hdb with ⟨-, -, -, hsamples, -⟩
      rw [World.Held, hsamples, hrecorded]
      exact List.filter_sublist.trans hs

theorem reached_sublist (h : w.Held) (bucket : Bucket) :
    (w.reached now bucket).Sublist (w.recordedIn bucket) :=
  (List.filter_sublist.trans h).filter _

theorem bucketStart_gt (t : ℤ) : t - rollupBucket < bucketStart t := by
  have hbucket : rollupBucket = 300000000 := by decide
  rw [bucketStart, hbucket]
  omega

/-- The buckets a pass writes are within the retention of the rollups. -/
theorem retained_of_between {x : GpuSample} {xs : List GpuSample}
    (hx : x ∈ between (now - rawRetention) now xs) :
    now - rollupRetention ≤ bucketStart x.sampledAt := by
  have hwindow : now - rawRetention ≤ x.sampledAt := by
    have hfilter := (List.mem_filter.1 hx).2
    simp only [Bool.decide_and, Bool.and_eq_true, decide_eq_true_eq] at hfilter
    exact hfilter.1
  have hstart := bucketStart_gt x.sampledAt
  have hbucket : rollupBucket = 300000000 := by decide
  have hraw : rawRetention = 172800000000 := by decide
  have hretention : rollupRetention = 2592000000000 := by decide
  omega

theorem upsert_rollups (db : Tables) (now : ℤ) :
    ∃ rollups, rebuildRollups db.gpuSamples db.gpuSampleRollups (now - rawRetention) now =
      some rollups := by
  rw [rebuildRollups, Upsert.upsert, if_pos (gpuBatch_nodup _)]
  exact ⟨_, rfl⟩

/-- A pass that reaches some of a complete bucket, but not all of it, replaces the
aggregate of the bucket by one of fewer samples. -/
theorem cut_inexact (hheld : w.Held) {x : GpuSample}
    (hx : x ∈ between (now - rawRetention) now w.db.gpuSamples)
    (hwhole : w.whole x.bucket = some (w.recordedIn x.bucket))
    (hcut : w.reached now x.bucket ≠ w.recordedIn x.bucket)
    (hst : step w (.maintainOnce now) = some t) : ¬ t.Exact := by
  intro hexact
  rcases step_maintainOnce hst with ⟨hdb, -, -, hwhole'⟩
  have hrow : aggregate x.bucket (w.reached now x.bucket) ∈ t.db.gpuSampleRollups :=
    (mem_rollups hdb).2 ⟨retained_of_between hx, .inl ⟨x, hx, rfl⟩⟩
  have hkept : t.whole x.bucket = some (w.recordedIn x.bucket) := by
    rw [hwhole']
    simp only [if_neg fun hsees : w.SeesWhole now x.bucket => hcut hsees.2]
    exact hwhole
  have heq := hexact _ hrow _ hkept
  have hlength : (w.reached now x.bucket).length = (w.recordedIn x.bucket).length :=
    congrArg GpuSampleRollup.sampleCount heq
  exact hcut ((reached_sublist hheld x.bucket).eq_of_length hlength)

/-! ## The result -/

/-- While no pass reaches only a part of a bucket that was seen whole, every rollup is
the aggregate of all samples its bucket had when it was last seen whole. A pass that
does reach only a part, with nothing new in the bucket, leaves a rollup that is not. -/
theorem rollups_exact (hw : machine.Reach Whole w) :
    w.Exact ∧ ∀ now t x, step w (.maintainOnce now) = some t →
      x ∈ between (now - rawRetention) now w.db.gpuSamples →
      w.whole x.bucket = some (w.recordedIn x.bucket) →
      w.reached now x.bucket ≠ w.recordedIn x.bucket → ¬ t.Exact := by
  constructor
  · exact reach_exact hw
  · intro now t x hst hx hwhole hcut
    exact cut_inexact (reach_held hw) hx hwhole hcut hst

/-- A sample of a worker at some second, with 40 percent load. -/
def sampleAt (second : ℤ) : GpuSample :=
  ⟨"w", seconds second, some 40, some 2, some 8, some 60, none⟩

/-- Two samples in one bucket, seen whole at the end of the bucket. -/
def sampleRun : List Action :=
  [.recordHeartbeat (sampleAt 60), .recordHeartbeat (sampleAt 240), .maintainOnce (seconds 300)]

def sampleWorld : World := (machine.run (start [] [] 0) sampleRun).getD (start [] [] 0)

theorem rollups_exact_sample :
    sampleWorld.db.gpuSampleRollups.map (fun r => (r.bucketStart, r.sampleCount)) = [(0, 2)] ∧
      sampleWorld.Exact := by
  have hrun : machine.run (start [] [] 0) sampleRun = some sampleWorld := rfl
  have hok : machine.RunOk Whole (start [] [] 0) sampleRun := by decide +kernel
  have hreach : machine.Reach Whole sampleWorld :=
    ⟨_, ⟨[], [], 0, rfl⟩, Machine.path_of_run hrun hok⟩
  exact ⟨by decide +kernel, (rollups_exact hreach).1⟩

/-- 48 hours and two and a half minutes later the cutoff lies between the two samples:
the pass aggregates the second alone. -/
theorem boundary_bucket_cut : ¬ ∀ w, machine.Reach Machine.anyStep w → w.Exact := by
  intro hall
  have hrun : machine.run (start [] [] 0) sampleRun = some sampleWorld := rfl
  have hreach : machine.Reach Machine.anyStep sampleWorld :=
    ⟨_, ⟨[], [], 0, rfl⟩, Machine.path_of_run_any hrun⟩
  rcases hst : step sampleWorld (.maintainOnce (seconds (48 * 3600 + 150))) with _ | t
  · have hsome : (step sampleWorld (.maintainOnce (seconds (48 * 3600 + 150)))).isSome := by
      decide +kernel
    rw [hst] at hsome
    cases hsome
  · have hstep : machine.step sampleWorld (.maintainOnce (seconds (48 * 3600 + 150))) = some t :=
      hst
    have hexact := hall t (hreach.tail trivial hstep)
    have hcut := (cut_inexact (x := sampleAt 240) (reach_held hreach) (by decide +kernel)
      (by decide +kernel) (by decide +kernel) hst)
    exact hcut hexact

end Potocolom.Rollups
