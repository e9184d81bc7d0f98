import Potocolom.FrameBatch.Invariant

/-! # Every class has its turn

A class keeps its place on the ring for as long as a request waits for it, the classes
ahead of it can only be served or leave, and a new class goes behind. -/

namespace Potocolom.FrameBatch

variable {s t : Collector} {k : CompatKey}

/-- The classes the cursor comes to before `k`. -/
def Collector.ahead (s : Collector) (k : CompatKey) : Nat :=
  (s.compatRing.idxOf k + s.compatRing.length - s.nextClassIndex) % s.compatRing.length

/-- The bucket of `k` does not empty in a step, not even within it: a request that waits
there before it still does after it. -/
def Stays (k : CompatKey) (s : Collector) (l : Label) : Prop :=
  ∃ x r, s.requestAt k x = some r ∧ ∀ t, step s l = some t → t.requestAt k x = some r

theorem Inv.ahead_eq (h : Inv s) (hk : k ∈ s.compatRing) : s.ahead k = s.compatRing.idxOf k := by
  have hlt := List.idxOf_lt_length_of_mem hk
  rw [Collector.ahead, h.cursor, Nat.sub_zero, Nat.add_mod_right, Nat.mod_eq_of_lt hlt]

/-- Taking others off a list moves nothing back. -/
theorem idxOf_filter_le {ring : List CompatKey} {p : CompatKey → Bool} (hp : p k = true) :
    (ring.filter p).idxOf k ≤ ring.idxOf k := by
  induction ring with
  | nil => exact Nat.le_refl _
  | cons first rest ih =>
    by_cases hfirst : first = k
    · subst hfirst
      rw [List.filter_cons_of_pos hp, List.idxOf_cons_self]
      exact Nat.zero_le _
    · rw [List.idxOf_cons_ne _ hfirst]
      cases hpf : p first with
      | true =>
        rw [List.filter_cons_of_pos hpf, List.idxOf_cons_ne _ hfirst]
        omega
      | false =>
        rw [List.filter_cons_of_neg (by simp [hpf])]
        omega

/-- A class keeps its place or moves up. -/
def Keeps (k : CompatKey) (s t : Collector) : Prop :=
  k ∈ t.compatRing ∧ t.compatRing.idxOf k ≤ s.compatRing.idxOf k

theorem Keeps.of_eq (hk : k ∈ s.compatRing) (hring : t.compatRing = s.compatRing) :
    Keeps k s t := by
  unfold Keeps
  rw [hring]
  exact ⟨hk, Nat.le_refl _⟩

theorem Keeps.trans {u : Collector} (hst : Keeps k s t) (htu : Keeps k t u) : Keeps k s u :=
  ⟨htu.1, Nat.le_trans htu.2 hst.2⟩

/-- It does while another session waits for it, or when another class is left. -/
theorem leaveBucket_keeps {x : Nat} {old : CompatKey} (hk : k ∈ s.compatRing)
    (hstay : k ≠ old ∨ ∃ y r, y ≠ x ∧ s.requestAt k y = some r) :
    Keeps k s (s.leaveBucket x old) := by
  unfold Collector.leaveBucket
  cases hbucket : s.pending.get old with
  | none => exact Keeps.of_eq hk rfl
  | some bucket =>
    dsimp only
    split
    case isFalse => exact Keeps.of_eq hk rfl
    case isTrue hempty =>
      have hne : k ≠ old := by
        rcases hstay with hne | ⟨y, r, hy, hr⟩
        · exact hne
        · rintro rfl
          obtain ⟨bucket', hbucket', hget⟩ := requestAt_eq_some.1 hr
          rw [hbucket] at hbucket'
          cases hbucket'
          exact hy (erase_items_nil hempty hget)
      refine ⟨?_, idxOf_filter_le (by simpa using hne)⟩
      rw [List.mem_filter]
      exact ⟨hk, by simpa using hne⟩

/-- A class that joins goes behind. -/
theorem joinBucket_keeps {r x : Nat} {new : CompatKey} (hk : k ∈ s.compatRing) :
    Keeps k s (s.joinBucket r x new) := by
  unfold Collector.joinBucket Keeps
  dsimp only
  split
  · exact ⟨hk, Nat.le_refl _⟩
  · exact ⟨List.mem_append_left _ hk, Nat.le_of_eq (List.idxOf_append_of_mem hk)⟩

theorem leaveSession_keeps {x y r : Nat} (hk : k ∈ s.compatRing) (hy : y ≠ x)
    (hr : s.requestAt k y = some r) : Keeps k s (s.leaveSession x) := by
  unfold Collector.leaveSession
  split
  · exact Keeps.of_eq hk rfl
  · exact leaveBucket_keeps hk (.inr ⟨y, r, hy, hr⟩)

/-- A new request does not stay where its session had one. -/
theorem Inv.enqueue_keeps (h : Inv s) {x input : Nat} {new : CompatKey} (hk : k ∈ s.compatRing)
    {y r : Nat} (hr : s.requestAt k y = some r)
    (hr' : (s.enqueue x input new).requestAt k y = some r) :
    Keeps k s (s.enqueue x input new) := by
  have hlt := (h.place k y r hr).1
  unfold Collector.enqueue at hr' ⊢
  rw [requestAt_joinBucket] at hr'
  split at hr'
  case isTrue =>
    cases hr'
    exact absurd hlt (Nat.lt_irrefl _)
  case isFalse =>
    have hleft : (s.leaveSession x).requestAt k y = some r := hr'
    rw [h.requestAt_leaveSession] at hleft
    split at hleft
    · cases hleft
    · rename_i hy
      have hleave := leaveSession_keeps hk hy hr
      have hcreate : Keeps k (s.leaveSession x) ((s.leaveSession x).create
          ⟨x, new, input, .pending, false⟩) := Keeps.of_eq hleave.1 rfl
      exact (hleave.trans hcreate).trans (joinBucket_keeps hcreate.1)

theorem Inv.rebucket_keeps (h : Inv s) {x existing : Nat} {old new : CompatKey}
    (hexisting : s.requestAt old x = some existing) (hne : old ≠ new) (hk : k ∈ s.compatRing)
    {y r : Nat} (hr : s.requestAt k y = some r)
    (hr' : (s.rebucket existing new).requestAt k y = some r) :
    Keeps k s (s.rebucket existing new) := by
  obtain ⟨-, hsession, hcompat, hclass, -⟩ := h.place old x existing hexisting
  have hplace := (h.place k y r hr).2.2.2.1
  unfold Collector.rebucket at hr' ⊢
  dsimp only at hr' ⊢
  rw [hsession, hcompat] at hr' ⊢
  have hstay : k ≠ old ∨ ∃ y r, y ≠ x ∧ s.requestAt k y = some r := by
    by_cases hy : y = x
    · -- the request itself leaves its class
      left
      rintro rfl
      subst hy
      rw [requestAt_joinBucket, if_neg (fun h => hne h.1)] at hr'
      have hleft : (s.leaveBucket y k).requestAt k y = some r := hr'
      rw [requestAt_leaveBucket, if_pos ⟨rfl, rfl⟩] at hleft
      cases hleft
    · exact .inr ⟨y, r, hy, hr⟩
  have hleave := leaveBucket_keeps hk hstay
  have hset : Keeps k (s.leaveBucket x old) ((s.leaveBucket x old).setRequest existing
      fun request => { request with compat := new }) := Keeps.of_eq hleave.1 rfl
  exact (hleave.trans hset).trans (joinBucket_keeps hset.1)

theorem Inv.submit_keeps (h : Inv s) {x : Nat} {new : CompatKey} (hk : k ∈ s.compatRing)
    {y r : Nat} (hr : s.requestAt k y = some r) (hr' : (s.submit x new).requestAt k y = some r) :
    Keeps k s (s.submit x new) := by
  have hstart : s.start.compatRing = s.compatRing ∧ s.start.pending = s.pending := by
    unfold Collector.start
    split <;> exact ⟨rfl, rfl⟩
  have hinv := h.start
  have hk' : k ∈ s.start.compatRing := hstart.1 ▸ hk
  have hrs : s.start.requestAt k y = some r := by
    rw [Collector.requestAt, hstart.2]
    exact hr
  have hkeeps : Keeps k s.start (s.start.accept x new).1 := by
    have hra : (s.start.accept x new).1.requestAt k y = some r := hr'
    unfold Collector.accept at hra ⊢
    cases hpending : s.start.pendingFor x with
    | none =>
      rw [hpending] at hra
      exact hinv.enqueue_keeps hk' hrs hra
    | some existing =>
      rw [hpending] at hra
      dsimp only at hra ⊢
      obtain ⟨old, -, hexisting⟩ := pendingFor_eq_some hpending
      split
      case isFalse hdone =>
        rw [if_neg hdone] at hra
        exact hinv.enqueue_keeps hk' hrs hra
      case isTrue hlive =>
        rw [if_pos hlive] at hra
        split
        case isFalse => exact Keeps.of_eq hk' rfl
        case isTrue hne =>
          rw [if_pos hne] at hra
          have hcompat := (hinv.place old x existing hexisting).2.2.1
          have hset : Inv (s.start.setRequest existing fun request =>
              { request with input := s.start.submits.length }) :=
            hinv.setRequest existing fun _ => ⟨rfl, rfl⟩
          exact hset.rebucket_keeps hexisting (hcompat ▸ hne) hk' hrs hra
  refine ⟨hkeeps.1, ?_⟩
  have hle := hkeeps.2
  rw [hstart.1] at hle
  exact hle


/-- A class that stays is not the one that is served, so it is behind that one and moves
up by a place. -/
theorem Inv.serve_keeps (h : Inv s) {y r : Nat} (hr : s.requestAt k y = some r)
    (hr' : s.serve.requestAt k y = some r) (hk : k ∈ s.compatRing) :
    k ∈ s.serve.compatRing ∧
      s.serve.handed.length + s.serve.compatRing.idxOf k ≤
        s.handed.length + s.compatRing.idxOf k := by
  rcases h.serve_cases with ⟨-, hserve⟩ | ⟨first, rest, bucket, hring, hbucket, hserve⟩
  · rw [hserve]
    exact ⟨hk, Nat.le_refl _⟩
  · rw [hserve] at hr' ⊢
    have hne : first ≠ k := by
      rintro rfl
      simp [Collector.requestAt] at hr'
    have hrest : k ∈ rest := by
      rw [hring, List.mem_cons] at hk
      exact hk.resolve_left fun heq => hne heq.symm
    refine ⟨hrest, ?_⟩
    dsimp only
    rw [hring, List.idxOf_cons_ne _ hne, List.length_append, List.length_singleton]
    omega

theorem submit_handed (s : Collector) (x : Nat) (new : CompatKey) :
    (s.submit x new).handed = s.handed := by
  have henqueue : ∀ (u : Collector) (input : Nat), (u.enqueue x input new).handed = u.handed :=
    fun u _ => (leaveSession_same u x).2.2.2.1
  have hrebucket : ∀ (u : Collector) (r : Nat), (u.rebucket r new).handed = u.handed :=
    fun u r => (leaveBucket_requests u _ _).2.2.2.1
  have hstart : s.start.handed = s.handed := by
    unfold Collector.start
    split <;> rfl
  show (s.start.accept x new).1.handed = s.handed
  rw [← hstart]
  unfold Collector.accept
  cases s.start.pendingFor x with
  | none => exact henqueue _ _
  | some existing =>
    dsimp only
    split
    · split
      · exact hrebucket _ _
      · rfl
    · exact henqueue _ _

/-- One step brings a class that stays no further from its turn. -/
theorem Inv.step_keeps {l : Label} (h : Inv s) (hk : k ∈ s.compatRing) (hstay : Stays k s l)
    (hstep : FrameBatch.step s l = some t) :
    k ∈ t.compatRing ∧
      t.handed.length + t.compatRing.idxOf k ≤ s.handed.length + s.compatRing.idxOf k := by
  obtain ⟨y, r, hr, hafter⟩ := hstay
  have hr' := hafter t hstep
  rcases h.step_cases hstep with ⟨x, new, -, rfl⟩ | ⟨-, hquiet⟩ | ⟨u, hinv, hquiet, rfl⟩
  · have hkeeps := h.submit_keeps hk hr hr'
    refine ⟨hkeeps.1, ?_⟩
    rw [submit_handed]
    exact Nat.add_le_add_left hkeeps.2 _
  · rw [hquiet.ring, hquiet.handed]
    exact ⟨hk, Nat.le_refl _⟩
  · have hru : u.requestAt k y = some r := by
      rw [Collector.requestAt, hquiet.pending]
      exact hr
    have hku : k ∈ u.compatRing := hquiet.ring ▸ hk
    have hserve := hinv.serve_keeps hru hr' hku
    rw [hquiet.ring, hquiet.handed] at hserve
    exact hserve

/-- What is handed over while a class stays were classes before it. -/
theorem Inv.waits (h : Inv s) (hk : k ∈ s.compatRing) (hpath : machine.Path (Stays k) s t) :
    Inv t ∧ k ∈ t.compatRing ∧
      t.handed.length + t.compatRing.idxOf k ≤ s.handed.length + s.compatRing.idxOf k := by
  induction hpath with
  | refl => exact ⟨h, hk, Nat.le_refl _⟩
  | tail _ hstay hstep ih =>
    obtain ⟨hinv, hmem, hle⟩ := ih
    obtain ⟨hmem', hle'⟩ := hinv.step_keeps hmem hstay hstep
    exact ⟨hinv.step hstep, hmem', Nat.le_trans hle' hle⟩

/-! ## The batches -/

/-- A batch is handed over: all that waits for one class, one request a session. -/
structure Hands (s t : Collector) (k : CompatKey) (batch : List Nat) : Prop where
  handed : t.handed = s.handed ++ [(k, batch)]
  executing : t.loop = .executing batch
  all : ∀ r, r ∈ batch ↔ ∃ x, s.requestAt k x = some r
  sessions : (batch.map fun r => (s.requests r).sessionKey).Nodup

theorem Inv.serve_hands (h : Inv s) :
    s.serve.handed = s.handed ∨ ∃ k batch, Hands s s.serve k batch := by
  rcases h.serve_cases with ⟨-, hserve⟩ | ⟨k, rest, bucket, hring, hbucket, hserve⟩
  · left
    rw [hserve]
  · right
    refine ⟨k, bucket.items.map Prod.snd, ?_⟩
    constructor
    · rw [hserve]
    · rw [hserve]
    · intro r
      constructor
      · intro hmem
        obtain ⟨⟨x, r'⟩, hitem, rfl⟩ := List.mem_map.1 hmem
        exact ⟨x, (h.bucket hbucket hitem).1⟩
      · rintro ⟨x, hr⟩
        obtain ⟨bucket', hbucket', hget⟩ := requestAt_eq_some.1 hr
        rw [hbucket] at hbucket'
        cases hbucket'
        exact List.mem_map.2 ⟨(x, r), Ordered.get_eq_some.1 hget, rfl⟩
    · rw [h.batch_sessions hbucket]
      exact bucket.nodup

/-- The executor gets a batch only where the loop serves. -/
theorem Inv.step_hands {l : Label} (h : Inv s) (hstep : FrameBatch.step s l = some t) :
    t.handed = s.handed ∨ ∃ k batch, Hands s t k batch := by
  rcases h.step_cases hstep with ⟨x, new, -, rfl⟩ | ⟨-, hquiet⟩ | ⟨u, hinv, hquiet, rfl⟩
  · exact .inl (submit_handed s x new)
  · exact .inl hquiet.handed
  · have hat : ∀ k x, u.requestAt k x = s.requestAt k x := fun k x => by
      rw [Collector.requestAt, Collector.requestAt, hquiet.pending]
    rcases hinv.serve_hands with hsame | ⟨k, batch, hhanded, hexecuting, hall, hsessions⟩
    · exact .inl (hsame.trans hquiet.handed)
    · right
      refine ⟨k, batch, ?_, hexecuting, ?_, ?_⟩
      · rw [hhanded, hquiet.handed]
      · intro r
        simpa only [hat] using hall r
      · simpa only [hquiet.sessionKeys] using hsessions

/-- The ring lists the classes that wait. -/
theorem Inv.mem_ring (h : Inv s) : k ∈ s.compatRing ↔ ∃ x r, s.requestAt k x = some r := by
  rw [h.shape.ring]
  constructor
  · intro hne
    obtain ⟨bucket, hbucket⟩ := Option.ne_none_iff_exists'.1 hne
    obtain ⟨⟨x, r⟩, hitem⟩ := List.exists_mem_of_ne_nil _ (h.shape.full k bucket hbucket)
    exact ⟨x, r, requestAt_eq_some.2 ⟨bucket, hbucket, Ordered.get_eq_some.2 hitem⟩⟩
  · rintro ⟨x, r, hr⟩ hnone
    obtain ⟨bucket, hbucket, -⟩ := requestAt_eq_some.1 hr
    rw [hnone] at hbucket
    cases hbucket

theorem collector_sound (h : machine.Reach Machine.anyStep s) :
    s.compatRing.Nodup ∧
    (∀ k, k ∈ s.compatRing ↔ ∃ x r, s.requestAt k x = some r) ∧
    (∀ x k r k' r', s.requestAt k x = some r → s.requestAt k' x = some r' → k' = k ∧ r' = r) ∧
    (∀ k x r, s.requestAt k x = some r →
      (s.requests r).sessionKey = x ∧ (s.requests r).compat = k) ∧
    (∀ l t, step s l = some t → t.handed = s.handed ∨ ∃ k batch, Hands s t k batch) ∧
    (s.handed.flatMap Prod.snd).Nodup ∧
    ∀ k ∈ s.compatRing, ∀ t, machine.Path (Stays k) s t →
      t.handed.length ≤ s.handed.length + s.ahead k := by
  have hinv := reach_inv h
  refine ⟨hinv.shape.nodup, fun k => hinv.mem_ring, ?_, ?_, ?_, hinv.handed, ?_⟩
  · intro x k r k' r' hr hr'
    have hclass := (hinv.place k x r hr).2.2.2.1
    have hclass' := (hinv.place k' x r' hr').2.2.2.1
    rw [hclass] at hclass'
    cases hclass'
    rw [hr] at hr'
    cases hr'
    exact ⟨rfl, rfl⟩
  · intro k x r hr
    obtain ⟨-, hsession, hcompat, -⟩ := hinv.place k x r hr
    exact ⟨hsession, hcompat⟩
  · intro l t hstep
    exact hinv.step_hands hstep
  · intro k hk t hpath
    rw [hinv.ahead_eq hk]
    exact Nat.le_trans (Nat.le_add_right _ _) (hinv.waits hk hpath).2.2

/-! Classes one to four of one model. -/

def classOf (steps : Int) : CompatKey := ⟨"m", steps, 512⟩

/-- The third class waits behind the second, while the first is executed. -/
def twoWaiting : List Label :=
  [.submit 1 (classOf 1), .wake, .collect, .submit 2 (classOf 2), .submit 3 (classOf 3)]

def sampleWaiting : Collector := (machine.run fresh twoWaiting).getD fresh

theorem sampleWaiting_run : machine.run fresh twoWaiting = some sampleWaiting := rfl

theorem collector_sound_sample : sampleWaiting.ahead (classOf 3) = 1 ∧
    (sampleWaiting.handed.flatMap Prod.snd).Nodup := by
  have hfresh : machine.Reach Machine.anyStep fresh := Machine.Reach.of_init rfl
  have hreach := hfresh.path (Machine.path_of_run_any sampleWaiting_run)
  exact ⟨by decide, (collector_sound hreach).2.2.2.2.2.1⟩

/-- The class waits before the step and after it. -/
def Waits (k : CompatKey) (s : Collector) (l : Label) : Prop :=
  k ∈ s.compatRing ∧ ∀ t, step s l = some t → k ∈ t.compatRing

instance decidableWaits (k : CompatKey) (s : Collector) (l : Label) : Decidable (Waits k s l) :=
  decidable_of_iff (k ∈ s.compatRing ∧ (step s l).all fun t => k ∈ t.compatRing) <| by
    simp [Waits, Option.all_eq_true]

/-- The session of the third class is cancelled and submits again, which takes the class
off the ring and puts it behind the fourth. -/
def resubmits : List Label :=
  [.submit 4 (classOf 4), .cancel 2, .submit 3 (classOf 3), .finish, .finish]

/-- Waiting before and after every step is not enough. -/
theorem collector_overtaken : ¬ ∀ s, machine.Reach Machine.anyStep s → ∀ k ∈ s.compatRing,
    ∀ t, machine.Path (Waits k) s t → t.handed.length ≤ s.handed.length + s.ahead k := by
  intro hall
  have hfresh : machine.Reach Machine.anyStep fresh := Machine.Reach.of_init rfl
  have hreach := hfresh.path (Machine.path_of_run_any sampleWaiting_run)
  have hrun : machine.run sampleWaiting resubmits =
      some ((machine.run sampleWaiting resubmits).getD fresh) := rfl
  have hok : machine.RunOk (Waits (classOf 3)) sampleWaiting resubmits := by decide
  have hle := hall _ hreach (classOf 3) (by decide) _ (Machine.path_of_run hrun hok)
  exact absurd hle (by decide)

end Potocolom.FrameBatch
