import Potocolom.Rollups.Exact

/-! # Usage totals

A pass turns the events before a midnight into rollups and deletes them. An event is
recorded at the present, so a day that has been rolled up gets no further event, no
rollup is written twice, and what the events add up to the rollups go on adding up to. -/

namespace Potocolom.Rollups

variable {w t : World} {db db' : Tables} {now : ℤ}

/-! ## What is counted -/

inductive Measure where
  | eventCount
  | gpuMs
  | durationMs
  | frames
  | categoryScore
  | scored

/-- What an event counts for; a null counts for nothing. -/
def UsageEvent.measure (e : UsageEvent) : Measure → ℚ
  | .eventCount => 1
  | .gpuMs => e.gpuMs.getD 0
  | .durationMs => e.durationMs.getD 0
  | .frames => e.frames.getD 0
  | .categoryScore => e.categoryScore.getD 0
  | .scored => if e.categoryScore.isSome then 1 else 0

def UsageEventRollup.measure (r : UsageEventRollup) : Measure → ℚ
  | .eventCount => r.eventCount
  | .gpuMs => r.gpuMsSum.getD 0
  | .durationMs => r.durationMsSum.getD 0
  | .frames => r.framesSum.getD 0
  | .categoryScore => r.categoryScoreSum.getD 0
  | .scored => r.categoryScoreCount

/-- The sum over the raw events and the rollups. -/
def Tables.total (db : Tables) (m : Measure) : ℚ :=
  (db.usageEvents.map fun e => e.measure m).sum +
    (db.usageEventRollups.map fun r => r.measure m).sum

/-- The part of it that belongs to one user, UTC day, kind, action, model and category. -/
def Tables.totalOf (db : Tables) (m : Measure) (subject : Subject) : ℚ :=
  (db.usageEvents.map fun e => if e.subject = subject then e.measure m else 0).sum +
    (db.usageEventRollups.map fun r => if r.subject = subject then r.measure m else 0).sum

theorem sumOf_getD (xs : List ℚ) : (sumOf xs).getD 0 = xs.sum := by
  unfold sumOf
  split
  · next h => simp [h]
  · rfl

theorem sum_column (f : UsageEvent → Option ℤ) (es : List UsageEvent) :
    (column f es).sum = (es.map fun e => ((f e).getD 0 : ℚ)).sum := by
  induction es with
  | nil => rfl
  | cons e es ih =>
    unfold column at ih
    cases h : f e with
    | none => simp [column, h, ih]
    | some n => simp [column, h, ih]

theorem sum_scores (es : List UsageEvent) :
    (es.filterMap UsageEvent.categoryScore).sum =
      (es.map fun e => e.categoryScore.getD 0).sum := by
  induction es with
  | nil => rfl
  | cons e es ih =>
    cases h : e.categoryScore with
    | none => simp [h, ih]
    | some score => simp [h, ih]

theorem length_scores (es : List UsageEvent) :
    ((es.filterMap UsageEvent.categoryScore).length : ℚ) =
      (es.map fun e => if e.categoryScore.isSome then (1 : ℚ) else 0).sum := by
  induction es with
  | nil => rfl
  | cons e es ih =>
    cases h : e.categoryScore with
    | none => simp [h, ih]
    | some score =>
      simp only [List.filterMap_cons, h, List.length_cons, Nat.cast_add, Nat.cast_one, ih,
        List.map_cons, Option.isSome_some, if_true, List.sum_cons]
      ring

/-- A rollup counts what its events count together. -/
theorem aggregateUsage_measure (dimensions : Subject × Option String) (es : List UsageEvent)
    (m : Measure) :
    (aggregateUsage dimensions es).measure m = (es.map fun e => e.measure m).sum := by
  cases m with
  | eventCount => simp [aggregateUsage, UsageEventRollup.measure, UsageEvent.measure]
  | gpuMs => exact (sumOf_getD _).trans (sum_column UsageEvent.gpuMs es)
  | durationMs => exact (sumOf_getD _).trans (sum_column UsageEvent.durationMs es)
  | frames => exact (sumOf_getD _).trans (sum_column UsageEvent.frames es)
  | categoryScore => exact (sumOf_getD _).trans (sum_scores es)
  | scored => exact length_scores es

/-- So does its part for one subject, since all its events are of one. -/
theorem aggregateUsage_measureOf (dimensions : Subject × Option String) (es : List UsageEvent)
    (m : Measure) (subject : Subject) (hes : ∀ e ∈ es, e.dimensions = dimensions) :
    (if (aggregateUsage dimensions es).subject = subject then
        (aggregateUsage dimensions es).measure m else 0) =
      (es.map fun e => if e.subject = subject then e.measure m else 0).sum := by
  have hsubject : ∀ e ∈ es, e.subject = dimensions.1 := by
    intro e he
    rw [← hes e he]
    rfl
  have hmap : (es.map fun e => if e.subject = subject then e.measure m else 0) =
      es.map fun e => if dimensions.1 = subject then e.measure m else 0 := by
    refine List.map_congr_left ?_
    intro e he
    rw [hsubject e he]
  rw [hmap]
  by_cases h : dimensions.1 = subject
  · simp only [if_pos h]
    have hrow : (aggregateUsage dimensions es).subject = subject := h
    rw [if_pos hrow, aggregateUsage_measure]
  · simp only [if_neg h]
    have hrow : ¬ (aggregateUsage dimensions es).subject = subject := h
    rw [if_neg hrow]
    simp

/-! ## The batch of a pass -/

/-- The groups of the events before a time. -/
def usageBatch (events : List UsageEvent) (beforeTs : ℤ) : List UsageEventRollup :=
  Upsert.groupBy UsageEvent.dimensions aggregateUsage
    (events.filter fun e => e.createdAt < beforeTs)

theorem nullif_ne_blank (tier : Option String) : nullif tier ≠ some "" := by
  unfold nullif
  split
  · simp
  · next h => exact h

/-- Null and blank tiers are one group and one key; other tiers are apart in both. -/
theorem coalesce_injective {a b : Option String} (ha : a ≠ some "") (hb : b ≠ some "")
    (h : a.getD "" = b.getD "") : a = b := by
  cases a with
  | none =>
    cases b with
    | none => rfl
    | some b => exact absurd (congrArg some h.symm) hb
  | some a =>
    cases b with
    | none => exact absurd (congrArg some h) ha
    | some b => exact congrArg some h

theorem usageBatch_nodup (events : List UsageEvent) (beforeTs : ℤ) :
    ((usageBatch events beforeTs).map UsageEventRollup.key).Nodup := by
  refine Upsert.nodup_groupBy (f := fun k : Subject × Option String => (k.1, k.2.getD ""))
    (fun _ _ => rfl) ?_
  intro x _ y _ h
  have hsubject : x.subject = y.subject := congrArg Prod.fst h
  have htier : nullif x.tier = nullif y.tier :=
    coalesce_injective (nullif_ne_blank _) (nullif_ne_blank _) (congrArg Prod.snd h)
  rw [UsageEvent.dimensions, UsageEvent.dimensions, hsubject, htier]

theorem mem_usageBatch {events : List UsageEvent} {beforeTs : ℤ} {r : UsageEventRollup}
    (h : r ∈ usageBatch events beforeTs) :
    ∃ e ∈ events, e.createdAt < beforeTs ∧ r.subject = e.subject := by
  rcases Upsert.mem_groupBy.1 h with ⟨e, he, rfl⟩
  rw [List.mem_filter, decide_eq_true_eq] at he
  exact ⟨e, he.1, he.2, rfl⟩

/-! ## Days that have been rolled up -/

/-- No rollup is of a day that still has raw events, or that can get new ones. -/
structure World.Settled (w : World) : Prop where
  raw : ∀ r ∈ w.db.usageEventRollups, ∀ e ∈ w.db.usageEvents,
    r.subject.bucketDate < dateOf e.createdAt
  past : ∀ r ∈ w.db.usageEventRollups, r.subject.bucketDate < dateOf w.clock

/-- Events are recorded at the present, and no clock runs backwards. -/
def OnTime (w : World) : Action → Prop
  | .recordHeartbeat _ => True
  | .recordUsage e => w.clock ≤ e.createdAt
  | .maintainOnce now => w.clock ≤ now

theorem dateOf_mono {a b : ℤ} (h : a ≤ b) : dateOf a ≤ dateOf b :=
  Int.ediv_le_ediv (by decide) h

/-- The cutoff is a midnight: it lies before an event or after its whole day. -/
theorem lt_usageRawCutoff {t : ℤ} :
    t < usageRawCutoff now ↔ dateOf t < dateOf (now - usageRawRetention) := by
  have hday : days 1 = 86400000000 := by decide
  rw [usageRawCutoff, dateOf, dateOf, hday]
  constructor <;> intro h <;> omega

theorem usageRawCutoff_le (now : ℤ) : dateOf (now - usageRawRetention) ≤ dateOf now := by
  have hraw : usageRawRetention = 7776000000000 := by decide
  exact dateOf_mono (by omega)

/-- A pass over settled tables adds its batch to the rollups. -/
theorem World.Settled.rebuild (h : w.Settled) (now : ℤ) :
    rebuildUsageRollups w.db.usageEvents w.db.usageEventRollups (usageRawCutoff now) =
      some (w.db.usageEventRollups ++ usageBatch w.db.usageEvents (usageRawCutoff now)) := by
  refine Upsert.upsert_fresh (usageBatch_nodup _ _) ?_
  intro r hr hmem
  rcases List.mem_map.1 hmem with ⟨old, hold, hkey⟩
  rcases mem_usageBatch hr with ⟨e, he, -, hsubject⟩
  -- the day of an old rollup is before the day of any event
  have hday := h.raw old hold e he
  have hsame : old.subject = e.subject := (congrArg Prod.fst hkey).trans hsubject
  rw [hsame] at hday
  exact absurd hday (lt_irrefl _)

theorem World.Settled.maintains (h : w.Settled) (now : ℤ) :
    ∃ t, step w (.maintainOnce now) = some t := by
  rcases upsert_rollups w.db now with ⟨rollups, hrollups⟩
  simp only [step, Tables.maintainOnce, hrollups, h.rebuild now, bind, Option.bind]
  exact ⟨_, rfl⟩

theorem World.Settled.rollups (h : w.Settled) (hst : step w (.maintainOnce now) = some t) :
    t.db.usageEventRollups =
      w.db.usageEventRollups ++ usageBatch w.db.usageEvents (usageRawCutoff now) := by
  rcases step_maintainOnce hst with ⟨hdb, -, -, -⟩
  rcases maintainOnce_eq_some hdb with ⟨-, -, husage, -⟩
  rw [h.rebuild now] at husage
  exact (Option.some.inj husage).symm

theorem events_after (hst : step w (.maintainOnce now) = some t) :
    t.db.usageEvents = w.db.usageEvents.filter fun e => usageRawCutoff now ≤ e.createdAt := by
  rcases step_maintainOnce hst with ⟨hdb, -, -, -⟩
  rcases maintainOnce_eq_some hdb with ⟨-, -, -, -, -, hevents⟩
  exact hevents

theorem World.Settled.step {l : Action} (h : w.Settled) (hl : OnTime w l)
    (hst : machine.step w l = some t) : t.Settled := by
  cases l with
  | recordHeartbeat x =>
    cases hst
    exact ⟨h.raw, h.past⟩
  | recordUsage e =>
    cases hst
    constructor
    · intro r hr e' he'
      rcases List.mem_append.1 he' with he' | he'
      · exact h.raw r hr e' he'
      · rw [List.mem_singleton.1 he']
        exact (h.past r hr).trans_le (dateOf_mono hl)
    · intro r hr
      exact (h.past r hr).trans_le (dateOf_mono (le_max_left _ _))
  | maintainOnce now =>
    rcases step_maintainOnce hst with ⟨-, -, hclock, -⟩
    have hrollups := h.rollups hst
    have hevents := events_after hst
    have hbatch : ∀ r ∈ usageBatch w.db.usageEvents (usageRawCutoff now),
        r.subject.bucketDate < dateOf (now - usageRawRetention) := by
      intro r hr
      rcases mem_usageBatch hr with ⟨e, -, hbefore, hsubject⟩
      rw [hsubject]
      exact lt_usageRawCutoff.1 hbefore
    constructor
    · intro r hr e he
      rw [hevents, List.mem_filter, decide_eq_true_eq] at he
      rw [hrollups, List.mem_append] at hr
      rcases hr with hr | hr
      · exact h.raw r hr e he.1
      · have hkept : ¬ dateOf e.createdAt < dateOf (now - usageRawRetention) := by
          intro hlt
          exact absurd (lt_usageRawCutoff.2 hlt) (not_lt.2 he.2)
        exact (hbatch r hr).trans_le (not_lt.1 hkept)
    · intro r hr
      rw [hclock]
      rw [hrollups, List.mem_append] at hr
      rcases hr with hr | hr
      · exact (h.past r hr).trans_le (dateOf_mono (le_max_left _ _))
      · have hnow := (hbatch r hr).trans_le (usageRawCutoff_le now)
        exact hnow.trans_le (dateOf_mono (le_max_right _ _))

theorem reach_settled (hw : machine.Reach OnTime w) : w.Settled := by
  refine hw.invariant ?_ ?_
  · rintro _ ⟨samples, events, clock, rfl⟩
    constructor
    · intro r hr
      cases hr
    · intro r hr
      cases hr
  · intro s l t hs hl hst
    exact hs.step hl hst

/-! ## Conservation -/

theorem sum_filter_add {M α : Type*} [AddCommMonoid M] (p : α → Prop) [DecidablePred p]
    (m : α → M) (xs : List α) :
    ((xs.filter fun x => ¬ p x).map m).sum + ((xs.filter fun x => p x).map m).sum =
      (xs.map m).sum := by
  induction xs with
  | nil => simp
  | cons x xs ih =>
    by_cases h : p x
    · simp [h, ← ih, add_left_comm]
    · simp [h, ← ih, add_assoc]

/-- Whatever adds up within a group is conserved by a pass. -/
theorem World.Settled.conserves (h : w.Settled)
    (hst : machine.step w (.maintainOnce now) = some t)
    (μe : UsageEvent → ℚ) (μr : UsageEventRollup → ℚ)
    (hμ : ∀ k es, (∀ e ∈ es, e.dimensions = k) → μr (aggregateUsage k es) = (es.map μe).sum) :
    (t.db.usageEvents.map μe).sum + (t.db.usageEventRollups.map μr).sum =
      (w.db.usageEvents.map μe).sum + (w.db.usageEventRollups.map μr).sum := by
  have hbatch : ((usageBatch w.db.usageEvents (usageRawCutoff now)).map μr).sum =
      ((w.db.usageEvents.filter fun e => e.createdAt < usageRawCutoff now).map μe).sum :=
    Upsert.sum_groupBy μe μr hμ
  have hsplit := sum_filter_add (fun e : UsageEvent => e.createdAt < usageRawCutoff now) μe
    w.db.usageEvents
  simp only [not_lt] at hsplit
  rw [h.rollups hst, events_after hst, List.map_append, List.sum_append, hbatch, ← hsplit]
  ring

/-! ## A second pass at the same time -/

def World.Keyed (w : World) : Prop :=
  (w.db.gpuSampleRollups.map GpuSampleRollup.bucket).Nodup

theorem reach_keyed {ok : World → Action → Prop} (hw : machine.Reach ok w) : w.Keyed := by
  refine hw.invariant ?_ ?_
  · rintro _ ⟨samples, events, clock, rfl⟩
    exact List.nodup_nil
  · intro s l t hs _ hst
    cases l with
    | recordHeartbeat x =>
      cases hst
      exact hs
    | recordUsage e =>
      cases hst
      exact hs
    | maintainOnce now =>
      rcases step_maintainOnce hst with ⟨hdb, -, -, -⟩
      rcases maintainOnce_eq_some hdb with ⟨rollups, hrollups, -, -, hkept, -⟩
      have hnodup := Upsert.nodup_upsert
        (fun row r hkey => by rw [GpuSampleRollup.update_eq hkey, hkey]) hs hrollups
      rw [World.Keyed, hkept]
      exact hnodup.sublist (List.filter_sublist.map _)

/-- The samples a pass aggregates are the same once the others are pruned. -/
theorem between_pruned (xs : List GpuSample) :
    between (now - rawRetention) now
        (xs.filter fun x => now - rawRetention ≤ x.sampledAt) =
      between (now - rawRetention) now xs := by
  rw [between, between, List.filter_filter]
  refine List.filter_congr ?_
  intro x _
  by_cases h : now - rawRetention ≤ x.sampledAt
  · simp [h]
  · simp [h]

theorem gpu_again (hkeyed : t.Keyed) (hst : step w (.maintainOnce now) = some t) :
    rebuildRollups t.db.gpuSamples t.db.gpuSampleRollups (now - rawRetention) now =
      some t.db.gpuSampleRollups := by
  rcases step_maintainOnce hst with ⟨hdb, -, -, -⟩
  rcases maintainOnce_eq_some hdb with ⟨-, -, -, hsamples, -⟩
  rw [rebuildRollups, hsamples, between_pruned]
  refine Upsert.upsert_held (fun row r hkey => GpuSampleRollup.update_eq hkey)
    (gpuBatch_nodup _) hkeyed ?_
  intro r hr
  rcases Upsert.mem_groupBy.1 hr with ⟨x, hx, rfl⟩
  exact (mem_rollups hdb).2 ⟨retained_of_between hx, .inl ⟨x, hx, rfl⟩⟩

theorem usage_again (hst : step w (.maintainOnce now) = some t) :
    rebuildUsageRollups t.db.usageEvents t.db.usageEventRollups (usageRawCutoff now) =
      some t.db.usageEventRollups := by
  have hnone : (t.db.usageEvents.filter fun e => e.createdAt < usageRawCutoff now) = [] := by
    rw [events_after hst, List.filter_filter, List.filter_eq_nil_iff]
    intro e _
    simp only [Bool.and_eq_true, decide_eq_true_eq, not_and, not_le]
    intro hlt
    exact hlt
  have hbatch : Upsert.groupBy UsageEvent.dimensions aggregateUsage
      (t.db.usageEvents.filter fun e => e.createdAt < usageRawCutoff now) = [] := by
    rw [hnone, Upsert.groupBy_nil]
  rw [rebuildUsageRollups, hbatch]
  have hfresh : Upsert.upsert UsageEventRollup.key UsageEventRollup.update
      t.db.usageEventRollups [] = some (t.db.usageEventRollups ++ []) :=
    Upsert.upsert_fresh List.nodup_nil (by simp)
  rw [hfresh, List.append_nil]

theorem filter_again {α : Type*} {p : α → Bool} {xs ys : List α} (h : ys = xs.filter p) :
    ys.filter p = ys := by
  rw [h, List.filter_filter]
  exact List.filter_congr fun x _ => Bool.and_self _

/-- Whoever runs a pass again at the same time finds nothing to do. -/
theorem pass_again (hkeyed : t.Keyed) (hst : step w (.maintainOnce now) = some t) :
    t.db.maintainOnce now = some t.db := by
  rcases step_maintainOnce hst with ⟨hdb, -, -, -⟩
  rcases maintainOnce_eq_some hdb with ⟨rollups, -, -, hsamples, hkept, hevents⟩
  have hsamples' := filter_again hsamples
  have hkept' := filter_again hkept
  have hevents' := filter_again hevents
  simp only [Tables.maintainOnce, gpu_again hkeyed hst, usage_again hst, bind, Option.bind,
    hsamples', hkept', hevents']
  rfl

/-! ## The result -/

/-- Two jobs of one day, one with a blank tier and one with none. -/
def sampleEvents : List UsageEvent :=
  [⟨1, "job", "generate", "m", some "", "art", some (1 / 2), some 700, some 900, none, 5⟩,
   ⟨1, "job", "generate", "m", none, "art", none, some 300, none, none, 6⟩]

end Potocolom.Rollups
