import Potocolom.FrameBatch.Collector

/-! # The buckets and the ring

The ring lists the classes with pending requests, each once, and what is pending for a
session is one request, in the bucket of the request's own class. As no bucket on the
ring is empty, the first one is always the next to be served, and the cursor never
moves. -/

namespace Potocolom.FrameBatch

variable {s t : Collector}

/-- The request of a session in the bucket of a class. -/
def Collector.requestAt (s : Collector) (k : CompatKey) (x : Nat) : Option Nat :=
  (s.pending.get k).bind fun bucket => bucket.get x

/-- The ring has the keys of the buckets, and no bucket is empty. -/
structure Shape (s : Collector) : Prop where
  nodup : s.compatRing.Nodup
  ring : ∀ k, k ∈ s.compatRing ↔ s.pending.get k ≠ none
  full : ∀ k bucket, s.pending.get k = some bucket → bucket.items ≠ []

structure Inv (s : Collector) : Prop where
  shape : Shape s
  place : ∀ k x r, s.requestAt k x = some r →
    r < s.created ∧ (s.requests r).sessionKey = x ∧ (s.requests r).compat = k ∧
      s.sessionCompat x = some k ∧ ∀ entry ∈ s.handed, r ∉ entry.2
  cursor : s.nextClassIndex = 0
  handed : (s.handed.flatMap Prod.snd).Nodup
  created : ∀ entry ∈ s.handed, ∀ r ∈ entry.2, r < s.created

theorem Shape.congr (h : Shape s) (hpending : t.pending = s.pending)
    (hring : t.compatRing = s.compatRing) : Shape t := by
  obtain ⟨hnodup, hmem, hfull⟩ := h
  constructor
  · rwa [hring]
  · rwa [hring, hpending]
  · rwa [hpending]

/-! ## Leaving and joining a bucket -/

theorem requestAt_eq_some {k : CompatKey} {x r : Nat} :
    s.requestAt k x = some r ↔ ∃ bucket, s.pending.get k = some bucket ∧ bucket.get x = some r := by
  unfold Collector.requestAt
  rw [Option.bind_eq_some_iff]

/-- A bucket that empties held the one session. -/
theorem erase_items_nil {bucket : Bucket} {x y r : Nat} (h : (bucket.erase x).items = [])
    (hy : bucket.get y = some r) : y = x := by
  by_contra hne
  have hmem := Ordered.get_eq_some.1 ((Ordered.get_erase_of_ne hne).trans hy)
  rw [h] at hmem
  cases hmem

theorem requestAt_leaveBucket (s : Collector) (x : Nat) (k k' : CompatKey) (y : Nat) :
    (s.leaveBucket x k).requestAt k' y =
      if k' = k ∧ y = x then none else s.requestAt k' y := by
  unfold Collector.leaveBucket Collector.requestAt
  cases hbucket : s.pending.get k with
  | none =>
    by_cases hkey : k' = k ∧ y = x
    · rw [if_pos hkey, hkey.1, hbucket]
      rfl
    · rw [if_neg hkey]
  | some bucket =>
    dsimp only
    by_cases hk : k' = k
    · subst hk
      rw [hbucket]
      split
      case isTrue hempty =>
        rw [Ordered.get_erase_self]
        by_cases hy : y = x
        · rw [if_pos ⟨rfl, hy⟩]
          rfl
        · rw [if_neg (fun h => hy h.2)]
          -- what emptied held no other session
          cases hr : bucket.get y with
          | none => simp [hr]
          | some r => exact absurd (erase_items_nil hempty hr) hy
      case isFalse =>
        rw [Ordered.get_put_self]
        by_cases hy : y = x
        · rw [if_pos ⟨rfl, hy⟩, hy]
          exact Ordered.get_erase_self
        · rw [if_neg (fun h => hy h.2)]
          exact Ordered.get_erase_of_ne hy
    · have hne : ¬ (k' = k ∧ y = x) := fun h => hk h.1
      rw [if_neg hne]
      split
      · rw [Ordered.get_erase_of_ne hk]
      · rw [Ordered.get_put_of_ne hk]

theorem Shape.leaveBucket (h : Shape s) (x : Nat) (k : CompatKey) :
    Shape (s.leaveBucket x k) := by
  unfold Collector.leaveBucket
  cases hbucket : s.pending.get k with
  | none => exact h
  | some bucket =>
    dsimp only
    split
    case isTrue =>
      constructor
      · exact h.nodup.filter _
      · intro k'
        rw [List.mem_filter, h.ring k']
        by_cases hk : k' = k
        · subst hk
          simp
        · rw [Ordered.get_erase_of_ne hk]
          simp [hk]
      · intro k' bucket' hget
        by_cases hk : k' = k
        · subst hk
          simp at hget
        · rw [Ordered.get_erase_of_ne hk] at hget
          exact h.full k' bucket' hget
    case isFalse hfull =>
      constructor
      · exact h.nodup
      · intro k'
        rw [h.ring k']
        by_cases hk : k' = k
        · subst hk
          simp [hbucket]
        · rw [Ordered.get_put_of_ne hk]
      · intro k' bucket' hget
        by_cases hk : k' = k
        · subst hk
          rw [Ordered.get_put_self] at hget
          cases hget
          exact hfull
        · rw [Ordered.get_put_of_ne hk] at hget
          exact h.full k' bucket' hget

theorem requestAt_joinBucket (s : Collector) (r x : Nat) (k k' : CompatKey) (y : Nat) :
    (s.joinBucket r x k).requestAt k' y =
      if k' = k ∧ y = x then some r else s.requestAt k' y := by
  unfold Collector.joinBucket Collector.requestAt
  dsimp only
  by_cases hk : k' = k
  · subst hk
    rw [Ordered.get_put_self, Option.bind_some]
    by_cases hy : y = x
    · rw [if_pos ⟨rfl, hy⟩, hy, Ordered.get_put_self]
    · rw [if_neg (fun h => hy h.2), Ordered.get_put_of_ne hy]
      cases s.pending.get k' with
      | none => rfl
      | some bucket => rfl
  · rw [if_neg (fun h => hk h.1), Ordered.get_put_of_ne hk]

theorem put_items_ne_nil {bucket : Bucket} (x r : Nat) : (bucket.put x r).items ≠ [] := by
  intro hnil
  have hmem := Ordered.get_eq_some.1 (Ordered.get_put_self (d := bucket) (k := x) (v := r))
  rw [hnil] at hmem
  cases hmem

theorem Shape.joinBucket (h : Shape s) (r x : Nat) (k : CompatKey) :
    Shape (s.joinBucket r x k) := by
  unfold Collector.joinBucket
  constructor
  · dsimp only
    split
    · exact h.nodup
    · rename_i hnew
      rw [List.nodup_append]
      refine ⟨h.nodup, List.nodup_singleton _, ?_⟩
      intro a ha b hb heq
      rw [List.mem_singleton.1 hb] at heq
      exact hnew (heq ▸ ha)
  · intro k'
    dsimp only
    by_cases hk : k' = k
    · subst hk
      rw [Ordered.get_put_self]
      split
      · simpa using ‹_›
      · simp
    · rw [Ordered.get_put_of_ne hk, ← h.ring k']
      split
      · rfl
      · simp [hk]
  · intro k' bucket' hget
    dsimp only at hget
    by_cases hk : k' = k
    · subst hk
      rw [Ordered.get_put_self] at hget
      cases hget
      exact put_items_ne_nil x r
    · rw [Ordered.get_put_of_ne hk] at hget
      exact h.full k' bucket' hget

/-! ## A submission -/

theorem leaveBucket_requests (s : Collector) (x : Nat) (k : CompatKey) :
    (s.leaveBucket x k).requests = s.requests ∧ (s.leaveBucket x k).created = s.created ∧
      (s.leaveBucket x k).sessionCompat = s.sessionCompat ∧
      (s.leaveBucket x k).handed = s.handed ∧
      (s.leaveBucket x k).nextClassIndex = s.nextClassIndex := by
  unfold Collector.leaveBucket
  split
  · exact ⟨rfl, rfl, rfl, rfl, rfl⟩
  · dsimp only
    split
    · exact ⟨rfl, rfl, rfl, rfl, rfl⟩
    · exact ⟨rfl, rfl, rfl, rfl, rfl⟩

/-- What a session has pending is what `_pending_for` finds. -/
theorem Inv.pendingFor_eq (h : Inv s) {k : CompatKey} {x r : Nat} (hr : s.requestAt k x = some r) :
    s.pendingFor x = some r := by
  obtain ⟨-, -, -, hcompat, -⟩ := h.place k x r hr
  obtain ⟨bucket, hbucket, hget⟩ := requestAt_eq_some.1 hr
  simp only [Collector.pendingFor, hcompat, hbucket, hget]

theorem pendingFor_eq_some {x r : Nat} (h : s.pendingFor x = some r) :
    ∃ k, s.sessionCompat x = some k ∧ s.requestAt k x = some r := by
  unfold Collector.pendingFor at h
  split at h
  · cases h
  · rename_i k hk
    split at h
    · cases h
    · rename_i bucket hbucket
      exact ⟨k, hk, requestAt_eq_some.2 ⟨bucket, hbucket, h⟩⟩

theorem leaveSession_same (s : Collector) (x : Nat) :
    (s.leaveSession x).requests = s.requests ∧ (s.leaveSession x).created = s.created ∧
      (s.leaveSession x).sessionCompat = s.sessionCompat ∧
      (s.leaveSession x).handed = s.handed ∧
      (s.leaveSession x).nextClassIndex = s.nextClassIndex := by
  unfold Collector.leaveSession
  split
  · exact ⟨rfl, rfl, rfl, rfl, rfl⟩
  · exact leaveBucket_requests s x _

/-- A session that left has nothing anywhere, and the others have what they had. -/
theorem Inv.requestAt_leaveSession (h : Inv s) (x : Nat) (k : CompatKey) (y : Nat) :
    (s.leaveSession x).requestAt k y = if y = x then none else s.requestAt k y := by
  have hplace : ∀ r, s.requestAt k x = some r → s.sessionCompat x = some k :=
    fun r hr => (h.place k x r hr).2.2.2.1
  unfold Collector.leaveSession
  cases hcompat : s.sessionCompat x with
  | none =>
    dsimp only
    split
    case isTrue hy =>
      subst hy
      cases hr : s.requestAt k y with
      | none => rfl
      | some r => exact absurd (hplace r hr) (by simp [hcompat])
    case isFalse => rfl
  | some old =>
    dsimp only
    rw [requestAt_leaveBucket]
    by_cases hy : y = x
    · subst hy
      rw [if_pos rfl]
      split
      · rfl
      · rename_i hne
        cases hr : s.requestAt k y with
        | none => rfl
        | some r =>
          have hclass := hplace r hr
          rw [hcompat] at hclass
          cases hclass
          exact absurd ⟨rfl, rfl⟩ hne
    · have hne : ¬ (k = old ∧ y = x) := fun h => hy h.2
      rw [if_neg hne, if_neg hy]

/-- A new request takes the place of whatever the session had pending. -/
theorem Inv.enqueue (h : Inv s) (x input : Nat) (k : CompatKey) : Inv (s.enqueue x input k) := by
  obtain ⟨hrequests, hcreated, hsessions, hhanded, hindex⟩ := leaveSession_same s x
  have hshape : Shape (s.leaveSession x) := by
    unfold Collector.leaveSession
    split
    · exact h.shape
    · exact h.shape.leaveBucket x _
  unfold Collector.enqueue
  constructor
  · apply Shape.joinBucket
    exact hshape.congr rfl rfl
  · intro k' y r hr
    rw [requestAt_joinBucket] at hr
    split at hr
    case isTrue hkey =>
      cases hr
      obtain ⟨rfl, rfl⟩ := hkey
      refine ⟨?_, ?_, ?_, ?_, ?_⟩
      · simp [Collector.joinBucket, Collector.create, hcreated]
      · simp [Collector.joinBucket, Collector.create, hcreated]
      · simp [Collector.joinBucket, Collector.create, hcreated]
      · simp [Collector.joinBucket]
      · intro entry hentry hr
        have hlt := h.created entry (hhanded ▸ hentry) _ hr
        exact absurd hlt (Nat.lt_irrefl _)
    case isFalse hkey =>
      have hold : (s.leaveSession x).requestAt k' y = some r := hr
      rw [h.requestAt_leaveSession] at hold
      split at hold
      · cases hold
      · rename_i hy
        obtain ⟨hlt, hsession, hcompat, hclass, hnot⟩ := h.place k' y r hold
        have hne : r ≠ s.created := by omega
        refine ⟨?_, ?_, ?_, ?_, ?_⟩
        · have hlt' : r < s.created + 1 := by omega
          simpa [Collector.joinBucket, Collector.create, hcreated] using hlt'
        · simpa [Collector.joinBucket, Collector.create, hcreated, hne, hrequests] using hsession
        · simpa [Collector.joinBucket, Collector.create, hcreated, hne, hrequests] using hcompat
        · simpa [Collector.joinBucket, Collector.create, hy, hsessions] using hclass
        · intro entry hentry
          exact hnot entry (hhanded ▸ hentry)
  · exact hindex.trans h.cursor
  · show ((s.leaveSession x).handed.flatMap Prod.snd).Nodup
    rw [hhanded]
    exact h.handed
  · intro entry hentry r hr
    have hlt := h.created entry (hhanded ▸ hentry) r hr
    show r < (s.leaveSession x).created + 1
    omega

/-- A request that waits moves to another class. -/
theorem Inv.rebucket (h : Inv s) {x r : Nat} {old : CompatKey} (k : CompatKey)
    (hr : s.requestAt old x = some r) : Inv (s.rebucket r k) := by
  obtain ⟨hlt, hsession, hcompat, hclass, hnot⟩ := h.place old x r hr
  obtain ⟨hrequests, hcreated, hsessions, hhanded, hindex⟩ := leaveBucket_requests s x old
  unfold Collector.rebucket
  dsimp only
  rw [hsession, hcompat]
  constructor
  · apply Shape.joinBucket
    exact (h.shape.leaveBucket x old).congr rfl rfl
  · intro k' y r' hr'
    rw [requestAt_joinBucket] at hr'
    split at hr'
    case isTrue hkey =>
      cases hr'
      obtain ⟨rfl, rfl⟩ := hkey
      refine ⟨?_, ?_, ?_, ?_, ?_⟩
      · simpa [Collector.joinBucket, Collector.setRequest, hcreated] using hlt
      · simpa [Collector.joinBucket, Collector.setRequest, hrequests] using hsession
      · simp [Collector.joinBucket, Collector.setRequest]
      · simp [Collector.joinBucket]
      · simpa [Collector.joinBucket, Collector.setRequest, hhanded] using hnot
    case isFalse hkey =>
      have hold : (if k' = old ∧ y = x then none else s.requestAt k' y) = some r' := by
        rw [← requestAt_leaveBucket]
        exact hr'
      split at hold
      · cases hold
      · rename_i hne
        obtain ⟨hlt', hsession', hcompat', hclass', hnot'⟩ := h.place k' y r' hold
        -- another request, of another session
        have hy : y ≠ x := by
          rintro rfl
          rw [hclass] at hclass'
          cases hclass'
          exact hne ⟨rfl, rfl⟩
        have hr : r' ≠ r := by
          rintro rfl
          exact hy (hsession'.symm.trans hsession)
        refine ⟨?_, ?_, ?_, ?_, ?_⟩
        · simpa [Collector.joinBucket, Collector.setRequest, hcreated] using hlt'
        · simpa [Collector.joinBucket, Collector.setRequest, hrequests, hr] using hsession'
        · simpa [Collector.joinBucket, Collector.setRequest, hrequests, hr] using hcompat'
        · simpa [Collector.joinBucket, Collector.setRequest, hsessions, hy] using hclass'
        · simpa [Collector.joinBucket, Collector.setRequest, hhanded] using hnot'
  · exact hindex.trans h.cursor
  · show ((s.leaveBucket x old).handed.flatMap Prod.snd).Nodup
    rw [hhanded]
    exact h.handed
  · intro entry hentry r' hr'
    show r' < (s.leaveBucket x old).created
    rw [hcreated]
    exact h.created entry (hhanded ▸ hentry) r' hr'

/-- Only where a request belongs matters. -/
theorem Inv.of_same (h : Inv s) (hpending : t.pending = s.pending)
    (hring : t.compatRing = s.compatRing) (hindex : t.nextClassIndex = s.nextClassIndex)
    (hcompat : t.sessionCompat = s.sessionCompat) (hhanded : t.handed = s.handed)
    (hcreated : t.created = s.created)
    (hrequests : ∀ r, (t.requests r).sessionKey = (s.requests r).sessionKey ∧
      (t.requests r).compat = (s.requests r).compat) : Inv t := by
  constructor
  · exact h.shape.congr hpending hring
  · intro k x r hr
    rw [Collector.requestAt, hpending] at hr
    rw [(hrequests r).1, (hrequests r).2, hcompat, hhanded, hcreated]
    exact h.place k x r hr
  · exact hindex.trans h.cursor
  · rw [hhanded]
    exact h.handed
  · rw [hhanded, hcreated]
    exact h.created

/-- A request's own fields change where it is. -/
theorem setRequest_keeps {r : Nat} {f : FrameRequest → FrameRequest}
    (hf : ∀ request, (f request).sessionKey = request.sessionKey ∧
      (f request).compat = request.compat) (r' : Nat) :
    ((s.setRequest r f).requests r').sessionKey = (s.requests r').sessionKey ∧
      ((s.setRequest r f).requests r').compat = (s.requests r').compat := by
  unfold Collector.setRequest
  dsimp only
  by_cases hr : r' = r
  · subst hr
    rw [Function.update_self]
    exact hf _
  · rw [Function.update_of_ne hr]
    exact ⟨rfl, rfl⟩

theorem Inv.setRequest (h : Inv s) (r : Nat) {f : FrameRequest → FrameRequest}
    (hf : ∀ request, (f request).sessionKey = request.sessionKey ∧
      (f request).compat = request.compat) : Inv (s.setRequest r f) :=
  h.of_same rfl rfl rfl rfl rfl rfl (setRequest_keeps hf)

theorem Inv.accept (h : Inv s) (x : Nat) (k : CompatKey) : Inv (s.accept x k).1 := by
  unfold Collector.accept
  cases hpending : s.pendingFor x with
  | none => exact h.enqueue x _ k
  | some existing =>
    obtain ⟨old, -, hr⟩ := pendingFor_eq_some hpending
    dsimp only
    split
    · have hset : Inv (s.setRequest existing fun request =>
          { request with input := s.submits.length }) := h.setRequest existing fun _ => ⟨rfl, rfl⟩
      split
      · exact hset.rebucket k hr
      · exact hset
    · exact h.enqueue x _ k

theorem Inv.start (h : Inv s) : Inv s.start := by
  unfold Collector.start
  split
  · exact h.of_same rfl rfl rfl rfl rfl rfl fun _ => ⟨rfl, rfl⟩
  · exact h
  · exact h
  · exact h

theorem Inv.submit (h : Inv s) (x : Nat) (k : CompatKey) : Inv (s.submit x k) :=
  (h.start.accept x k).of_same rfl rfl rfl rfl rfl rfl fun _ => ⟨rfl, rfl⟩

/-! ## Serving -/

/-- The first class of the ring is the next to be served. -/
theorem Inv.pickBatch (h : Inv s) {k : CompatKey} {rest : List CompatKey}
    (hring : s.compatRing = k :: rest) : ∃ bucket, s.pending.get k = some bucket ∧
      s.pickBatch = some ({ s with
        pending := s.pending.erase k, compatRing := rest, nextClassIndex := 0 },
        k, bucket.items.map Prod.snd) := by
  have hmem : k ∈ s.compatRing := hring ▸ List.mem_cons_self
  obtain ⟨bucket, hbucket⟩ := Option.ne_none_iff_exists'.1 ((h.shape.ring k).1 hmem)
  have hfull := h.shape.full k bucket hbucket
  have hclass : s.classAt 0 = some (0, k, bucket) := by
    simp [Collector.classAt, h.cursor, hring, hbucket, hfull]
  have hfind : (List.range s.compatRing.length).findSome? s.classAt = some (0, k, bucket) := by
    rw [hring, List.length_cons, List.range_succ_eq_map, List.findSome?_cons, hclass]
  have hfilter : s.compatRing.filter (fun key => key ≠ k) = rest := by
    have hnodup := h.shape.nodup
    rw [hring, List.nodup_cons] at hnodup
    rw [hring, List.filter_cons_of_neg (by simp), List.filter_eq_self]
    intro key hkey
    have hne : key ≠ k := by
      rintro rfl
      exact hnodup.1 hkey
    simpa using hne
  refine ⟨bucket, hbucket, ?_⟩
  unfold Collector.pickBatch
  rw [hfind, Option.map_some]
  dsimp only
  rw [hfilter]
  simp

/-- What `serve` does: nothing waits, or the first class of the ring is handed over. -/
theorem Inv.serve_cases (h : Inv s) :
    (s.pending.items = [] ∧ s.serve = { s with loop := .waiting }) ∨
    ∃ k rest bucket, s.compatRing = k :: rest ∧ s.pending.get k = some bucket ∧
      s.serve = { s with
        pending := s.pending.erase k, compatRing := rest, nextClassIndex := 0
        loop := .executing (bucket.items.map Prod.snd)
        handed := s.handed ++ [(k, bucket.items.map Prod.snd)] } := by
  unfold Collector.serve
  split
  case isTrue hempty => exact .inl ⟨hempty, rfl⟩
  case isFalse hpending =>
    obtain ⟨⟨key, bucket⟩, hitem⟩ := List.exists_mem_of_ne_nil _ hpending
    have hget := Ordered.get_eq_some.2 hitem
    have hring : key ∈ s.compatRing := (h.shape.ring key).2 (by simp [hget])
    cases hcons : s.compatRing with
    | nil =>
      rw [hcons] at hring
      cases hring
    | cons k rest =>
      obtain ⟨bucket', hbucket', hpick⟩ := h.pickBatch hcons
      rw [hpick]
      exact .inr ⟨k, rest, bucket', rfl, hbucket', rfl⟩

/-- The requests of a bucket, each of its own session. -/
theorem Inv.bucket (h : Inv s) {k : CompatKey} {bucket : Bucket}
    (hbucket : s.pending.get k = some bucket) {x r : Nat} (hmem : (x, r) ∈ bucket.items) :
    s.requestAt k x = some r ∧ (s.requests r).sessionKey = x := by
  have hr : s.requestAt k x = some r :=
    requestAt_eq_some.2 ⟨bucket, hbucket, Ordered.get_eq_some.2 hmem⟩
  exact ⟨hr, (h.place k x r hr).2.1⟩

theorem Inv.batch_sessions (h : Inv s) {k : CompatKey} {bucket : Bucket}
    (hbucket : s.pending.get k = some bucket) :
    (bucket.items.map Prod.snd).map (fun r => (s.requests r).sessionKey) =
      bucket.items.map Prod.fst := by
  rw [List.map_map]
  refine List.map_congr_left fun item hitem => ?_
  exact (h.bucket hbucket hitem).2

theorem Inv.batch_nodup (h : Inv s) {k : CompatKey} {bucket : Bucket}
    (hbucket : s.pending.get k = some bucket) : (bucket.items.map Prod.snd).Nodup := by
  have hsessions := bucket.nodup
  rw [← h.batch_sessions hbucket] at hsessions
  exact List.Nodup.of_map _ hsessions

theorem Inv.serve (h : Inv s) : Inv s.serve := by
  rcases h.serve_cases with ⟨-, hserve⟩ | ⟨k, rest, bucket, hring, hbucket, hserve⟩
  · rw [hserve]
    exact h.of_same rfl rfl rfl rfl rfl rfl fun _ => ⟨rfl, rfl⟩
  · rw [hserve]
    have hnodup := h.shape.nodup
    rw [hring, List.nodup_cons] at hnodup
    constructor
    · constructor
      · exact hnodup.2
      · intro k'
        show k' ∈ rest ↔ (s.pending.erase k).get k' ≠ none
        by_cases hk : k' = k
        · subst hk
          simp [hnodup.1]
        · rw [Ordered.get_erase_of_ne hk, ← h.shape.ring k', hring]
          simp [hk]
      · intro k' bucket' hget
        have hk : k' ≠ k := by
          rintro rfl
          simp at hget
        have hget' : (s.pending.erase k).get k' = some bucket' := hget
        rw [Ordered.get_erase_of_ne hk] at hget'
        exact h.shape.full k' bucket' hget'
    · intro k' x r hr
      have hk : k' ≠ k := by
        rintro rfl
        simp [Collector.requestAt] at hr
      have hold : s.requestAt k' x = some r := by
        simpa [Collector.requestAt, Ordered.get_erase_of_ne hk] using hr
      obtain ⟨hlt, hsession, hcompat, hclass, hnot⟩ := h.place k' x r hold
      refine ⟨hlt, hsession, hcompat, hclass, ?_⟩
      intro entry hentry
      rcases List.mem_append.1 hentry with hentry | hentry
      · exact hnot entry hentry
      · -- what is handed over is of another class
        rw [List.mem_singleton.1 hentry]
        intro hmem
        obtain ⟨⟨y, r'⟩, hitem, rfl⟩ := List.mem_map.1 hmem
        have hplace := (h.place k y r' (h.bucket hbucket hitem).1).2.2.1
        exact hk (hcompat.symm.trans hplace)
    · rfl
    · show ((s.handed ++ [(k, bucket.items.map Prod.snd)]).flatMap Prod.snd).Nodup
      rw [List.flatMap_append, List.nodup_append]
      refine ⟨h.handed, ?_, ?_⟩
      · simpa using h.batch_nodup hbucket
      · intro a ha b hb heq
        obtain ⟨entry, hentry, hmem⟩ := List.mem_flatMap.1 ha
        have hbatch : b ∈ bucket.items.map Prod.snd := by simpa using hb
        obtain ⟨⟨y, r'⟩, hitem, rfl⟩ := List.mem_map.1 hbatch
        have hsame : a = r' := heq
        exact (h.place k y r' (h.bucket hbucket hitem).1).2.2.2.2 entry hentry (hsame ▸ hmem)
    · intro entry hentry r hr
      rcases List.mem_append.1 hentry with hentry | hentry
      · exact h.created entry hentry r hr
      · rw [List.mem_singleton.1 hentry] at hr
        obtain ⟨⟨y, r'⟩, hitem, rfl⟩ := List.mem_map.1 hr
        exact (h.place k y r' (h.bucket hbucket hitem).1).1

/-! ## The other steps -/

/-- No bucket, no place on the ring and no batch changed. -/
structure Quiet (s t : Collector) : Prop where
  pending : t.pending = s.pending
  ring : t.compatRing = s.compatRing
  handed : t.handed = s.handed
  sessionKeys : ∀ r, (t.requests r).sessionKey = (s.requests r).sessionKey

theorem Quiet.refl (s : Collector) : Quiet s s := ⟨rfl, rfl, rfl, fun _ => rfl⟩

theorem Quiet.trans {u : Collector} (hst : Quiet s t) (htu : Quiet t u) : Quiet s u :=
  ⟨htu.pending.trans hst.pending, htu.ring.trans hst.ring, htu.handed.trans hst.handed,
    fun r => (htu.sessionKeys r).trans (hst.sessionKeys r)⟩

theorem Quiet.setRequest (s : Collector) (r : Nat) {f : FrameRequest → FrameRequest}
    (hf : ∀ request, (f request).sessionKey = request.sessionKey ∧
      (f request).compat = request.compat) : Quiet s (s.setRequest r f) :=
  ⟨rfl, rfl, rfl, fun r' => (setRequest_keeps hf r').1⟩

theorem Inv.forget (h : Inv s) (r : Nat) : Inv (s.forget r) ∧ Quiet s (s.forget r) := by
  unfold Collector.forget
  dsimp only
  split
  case h_1 hnone =>
    refine ⟨⟨h.shape.congr rfl rfl, ?_, h.cursor, h.handed, h.created⟩,
      ⟨rfl, rfl, rfl, fun _ => rfl⟩⟩
    intro k x r' hr'
    obtain ⟨hlt, hsession, hcompat, hclass, hnot⟩ := h.place k x r' hr'
    refine ⟨hlt, hsession, hcompat, ?_, hnot⟩
    have hx : x ≠ (s.requests r).sessionKey := by
      rintro rfl
      rw [h.pendingFor_eq hr'] at hnone
      cases hnone
    show Function.update s.sessionCompat _ none x = some k
    rw [Function.update_of_ne hx]
    exact hclass
  case h_2 => exact ⟨h, Quiet.refl s⟩

theorem Inv.forget_all (h : Inv s) (batch : List Nat) :
    Inv (batch.foldl Collector.forget s) ∧ Quiet s (batch.foldl Collector.forget s) := by
  induction batch generalizing s with
  | nil => exact ⟨h, Quiet.refl s⟩
  | cons r batch ih =>
    obtain ⟨hinv, hquiet⟩ := h.forget r
    obtain ⟨hinv', hquiet'⟩ := ih hinv
    exact ⟨hinv', hquiet.trans hquiet'⟩

theorem Inv.failRequest (h : Inv s) (r : Nat) :
    Inv (s.failRequest r) ∧ Quiet s (s.failRequest r) := by
  unfold Collector.failRequest
  dsimp only
  split
  · exact ⟨h.setRequest r fun _ => ⟨rfl, rfl⟩, Quiet.setRequest s r fun _ => ⟨rfl, rfl⟩⟩
  · exact ⟨h, Quiet.refl s⟩

theorem Inv.failRequest_all (h : Inv s) (batch : List Nat) :
    Inv (batch.foldl Collector.failRequest s) ∧
      Quiet s (batch.foldl Collector.failRequest s) := by
  induction batch generalizing s with
  | nil => exact ⟨h, Quiet.refl s⟩
  | cons r batch ih =>
    obtain ⟨hinv, hquiet⟩ := h.failRequest r
    obtain ⟨hinv', hquiet'⟩ := ih hinv
    exact ⟨hinv', hquiet.trans hquiet'⟩

theorem Inv.quiet (h : Inv s) (hquiet : Quiet s t)
    (hindex : t.nextClassIndex = s.nextClassIndex) (hcompat : t.sessionCompat = s.sessionCompat)
    (hcreated : t.created = s.created)
    (hrequests : ∀ r, (t.requests r).compat = (s.requests r).compat) : Inv t :=
  h.of_same hquiet.pending hquiet.ring hindex hcompat hquiet.handed hcreated
    fun r => ⟨hquiet.sessionKeys r, hrequests r⟩

/-- What a step can do to the buckets: a submission, nothing, or serving. -/
theorem Inv.step_cases {l : Label} (h : Inv s) (hstep : step s l = some t) :
    (∃ x k, l = .submit x k ∧ t = s.submit x k) ∨ (Inv t ∧ Quiet s t) ∨
      (∃ u, Inv u ∧ Quiet s u ∧ t = u.serve) := by
  have hsame : ∀ {u : Collector}, u.pending = s.pending → u.compatRing = s.compatRing →
      u.handed = s.handed → u.requests = s.requests → u.nextClassIndex = s.nextClassIndex →
      u.sessionCompat = s.sessionCompat → u.created = s.created → Inv u ∧ Quiet s u := by
    intro u hpending hring hhanded hrequests hindex hcompat hcreated
    have hquiet : Quiet s u := ⟨hpending, hring, hhanded, fun r => by rw [hrequests]⟩
    exact ⟨h.quiet hquiet hindex hcompat hcreated fun r => by rw [hrequests], hquiet⟩
  have hset : ∀ {u : Collector}, Inv u ∧ Quiet s u → ∀ r {f : FrameRequest → FrameRequest},
      (∀ request, (f request).sessionKey = request.sessionKey ∧
        (f request).compat = request.compat) → Inv (u.setRequest r f) ∧ Quiet s (u.setRequest r f) :=
    fun hu r _ hf => ⟨hu.1.setRequest r hf, hu.2.trans (Quiet.setRequest _ r hf)⟩
  cases l with
  | submit x k =>
    cases hstep
    exact .inl ⟨x, k, rfl, rfl⟩
  | cancel t =>
    right; left
    simp only [step] at hstep
    split at hstep
    · rename_i r cancelled _
      have hmarked := hsame (u := { s with submits := s.submits.set t (.awaiting r true) })
        rfl rfl rfl rfl rfl rfl rfl
      split at hstep
      · cases hstep
        exact hset hmarked r fun _ => ⟨rfl, rfl⟩
      · cases hstep
        exact hmarked
    · cases hstep
    · cases hstep
  | resume t =>
    right; left
    simp only [step] at hstep
    split at hstep
    · rename_i r cancelled _
      split at hstep
      · cases hstep
      · rename_i outcome _
        have hended := hsame
          (u := { s with submits := s.submits.set t (.ended (outcome.under cancelled) cancelled) })
          rfl rfl rfl rfl rfl rfl rfl
        split at hstep
        · cases hstep
          exact hset hended r fun _ => ⟨rfl, rfl⟩
        · cases hstep
          exact hended
    · cases hstep
    · cases hstep
  | wake =>
    right; left
    rw [step, Option.ite_none_right_eq_some] at hstep
    obtain ⟨-, hstep⟩ := hstep
    split at hstep
    · cases hstep
      exact hsame rfl rfl rfl rfl rfl rfl rfl
    · cases hstep
      exact hsame rfl rfl rfl rfl rfl rfl rfl
  | collect =>
    right; right
    rw [step, Option.ite_none_right_eq_some] at hstep
    obtain ⟨-, hstep⟩ := hstep
    cases hstep
    obtain ⟨hinv, hquiet⟩ := hsame (u := { s with work := false }) rfl rfl rfl rfl rfl rfl rfl
    exact ⟨_, hinv, hquiet, rfl⟩
  | resolve r =>
    right; left
    simp only [step] at hstep
    split at hstep
    · rw [Option.ite_none_right_eq_some] at hstep
      obtain ⟨-, hstep⟩ := hstep
      cases hstep
      exact hset ⟨h, Quiet.refl s⟩ r fun _ => ⟨rfl, rfl⟩
    · cases hstep
    · cases hstep
    · cases hstep
  | refuse r =>
    right; left
    simp only [step] at hstep
    split at hstep
    · rw [Option.ite_none_right_eq_some] at hstep
      obtain ⟨-, hstep⟩ := hstep
      cases hstep
      exact h.failRequest r
    · cases hstep
    · cases hstep
    · cases hstep
  | finish =>
    right; right
    simp only [step] at hstep
    split at hstep
    · rename_i batch _
      cases hstep
      obtain ⟨hinv, hquiet⟩ := h.forget_all batch
      exact ⟨_, hinv, hquiet, rfl⟩
    · cases hstep
    · cases hstep
    · cases hstep
  | fail =>
    right; right
    simp only [step] at hstep
    split at hstep
    · rename_i batch _
      cases hstep
      obtain ⟨hinv, hquiet⟩ := h.failRequest_all batch
      obtain ⟨hinv', hquiet'⟩ := hinv.forget_all batch
      exact ⟨_, hinv', hquiet.trans hquiet', rfl⟩
    · cases hstep
    · cases hstep
    · cases hstep

theorem Inv.step {l : Label} (h : Inv s) (hstep : step s l = some t) : Inv t := by
  rcases h.step_cases hstep with ⟨x, k, -, rfl⟩ | ⟨hinv, -⟩ | ⟨u, hinv, -, rfl⟩
  · exact h.submit x k
  · exact hinv
  · exact hinv.serve

theorem fresh_inv : Inv fresh := by
  constructor
  · constructor
    · exact List.nodup_nil
    · simp [fresh]
    · simp [fresh]
  · intro k x r hr
    simp [Collector.requestAt, fresh] at hr
  · rfl
  · exact List.nodup_nil
  · simp [fresh]

theorem reach_inv {ok : Collector → Label → Prop} (h : machine.Reach ok s) : Inv s := by
  refine h.invariant ?_ ?_
  · intro s hs
    rw [show s = fresh from hs]
    exact fresh_inv
  · intro s l t hs _ hstep
    exact hs.step hstep

end Potocolom.FrameBatch
