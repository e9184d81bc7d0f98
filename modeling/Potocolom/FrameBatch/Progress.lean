import Potocolom.FrameBatch.Answers

/-! # Every submission is answered

No request that waits is lost, and the loop is never asleep while one does: it is in a
bucket, which has its turn, or in the batch that is executed. -/

namespace Potocolom.FrameBatch

variable {s t : Collector} {l : Label}

/-- The executor has resolved every request of its batch when it returns. -/
def Resolves (s : Collector) (l : Label) : Prop :=
  l = .finish → ∀ batch, s.loop = .executing batch → ∀ r ∈ batch,
    (s.requests r).future ≠ .pending

structure Live (s : Collector) : Prop where
  located : ∀ r, r < s.created → (s.requests r).future = .pending →
    (∃ k x, s.requestAt k x = some r) ∨ ∃ batch, s.loop = .executing batch ∧ r ∈ batch
  wakes : s.loop = .waiting → s.pending.items ≠ [] → s.work = true
  stopped : s.loop = .stopped → s.pending.items = []
  batch : ∀ batch, s.loop = .executing batch → ∀ r ∈ batch, r < s.created

/-- Buckets, loop and batches are as they were, and no future is made pending. -/
structure Rests (s t : Collector) : Prop where
  pending : t.pending = s.pending
  loop : t.loop = s.loop
  work : t.work = s.work
  created : t.created = s.created
  handed : t.handed = s.handed
  futures : ∀ r, (t.requests r).future = .pending → (s.requests r).future = .pending

theorem Rests.refl (s : Collector) : Rests s s := ⟨rfl, rfl, rfl, rfl, rfl, fun _ h => h⟩

theorem Rests.setRequest {u : Collector} (h : Rests s u) (r : Nat)
    {f : FrameRequest → FrameRequest}
    (hf : (f (u.requests r)).future = .pending → (u.requests r).future = .pending) :
    Rests s (u.setRequest r f) := by
  obtain ⟨hpending, hloop, hwork, hcreated, hhanded, hfutures⟩ := h
  refine ⟨hpending, hloop, hwork, hcreated, hhanded, ?_⟩
  intro r' hr'
  by_cases hr : r' = r
  · subst hr
    have hnew : (f (u.requests r')).future = .pending := by
      simpa [Collector.setRequest] using hr'
    exact hfutures r' (hf hnew)
  · have hold : (u.requests r').future = .pending := by
      simpa [Collector.setRequest, hr] using hr'
    exact hfutures r' hold

theorem failRequest_rests (s : Collector) (r : Nat) : Rests s (s.failRequest r) := by
  unfold Collector.failRequest
  dsimp only
  split
  · exact (Rests.refl s).setRequest r fun h => by cases h
  · exact Rests.refl s

/-- A call that goes on and an answer leave the buckets and the loop alone. -/
theorem step_rests (hstep : step s l = some t) :
    (∃ x k, l = .submit x k) ∨ l = .wake ∨ l = .collect ∨ l = .finish ∨ l = .fail ∨ Rests s t := by
  cases l with
  | submit x k => exact .inl ⟨x, k, rfl⟩
  | wake => exact .inr (.inl rfl)
  | collect => exact .inr (.inr (.inl rfl))
  | finish => exact .inr (.inr (.inr (.inl rfl)))
  | fail => exact .inr (.inr (.inr (.inr (.inl rfl))))
  | cancel n =>
    right; right; right; right; right
    simp only [step] at hstep
    split at hstep
    · rename_i r cancelled _
      have hmarked : Rests s { s with submits := s.submits.set n (.awaiting r true) } :=
        ⟨rfl, rfl, rfl, rfl, rfl, fun _ h => h⟩
      split at hstep
      · cases hstep
        exact hmarked.setRequest r fun h => by cases h
      · cases hstep
        exact hmarked
    · cases hstep
    · cases hstep
  | resume n =>
    right; right; right; right; right
    simp only [step] at hstep
    split at hstep
    · split at hstep
      · cases hstep
      · rename_i r cancelled _ _ outcome _
        have hended : Rests s
            { s with submits := s.submits.set n (.ended (outcome.under cancelled) cancelled) } :=
          ⟨rfl, rfl, rfl, rfl, rfl, fun _ h => h⟩
        split at hstep
        · cases hstep
          exact hended.setRequest _ fun h => h
        · cases hstep
          exact hended
    · cases hstep
    · cases hstep
  | resolve r =>
    right; right; right; right; right
    simp only [step] at hstep
    split at hstep
    · rw [Option.ite_none_right_eq_some] at hstep
      obtain ⟨-, hstep⟩ := hstep
      cases hstep
      exact (Rests.refl s).setRequest r fun h => by cases h
    · cases hstep
    · cases hstep
    · cases hstep
  | refuse r =>
    right; right; right; right; right
    simp only [step] at hstep
    split at hstep
    · rw [Option.ite_none_right_eq_some] at hstep
      obtain ⟨-, hstep⟩ := hstep
      cases hstep
      exact failRequest_rests s r
    · cases hstep
    · cases hstep
    · cases hstep

theorem Live.rests (h : Live s) (hrests : Rests s t) : Live t := by
  obtain ⟨hpending, hloop, hwork, hcreated, -, hfutures⟩ := hrests
  constructor
  · intro r hr hfuture
    have hlocated := h.located r (hcreated ▸ hr) (hfutures r hfuture)
    simpa only [Collector.requestAt, hpending, hloop] using hlocated
  · rw [hloop, hpending, hwork]
    exact h.wakes
  · rw [hloop, hpending]
    exact h.stopped
  · rw [hloop, hcreated]
    exact h.batch

/-! ## A submission -/

/-- A pending request stays in its session, and in its class unless a submission of the
session brings another. -/
theorem Inv.accept_located (h : Inv s) (x : Nat) (k : CompatKey) {k' : CompatKey} {y r : Nat}
    (hr : s.requestAt k' y = some r) (hpending : (s.requests r).future = .pending) :
    ∃ k'', (s.accept x k).1.requestAt k'' y = some r ∧ (y ≠ x ∨ k' = k → k'' = k') := by
  have henqueue : ∀ input, y ≠ x → (s.enqueue x input k).requestAt k' y = some r := by
    intro input hy
    unfold Collector.enqueue
    have hne : ¬ (k' = k ∧ y = x) := fun heq => hy heq.2
    rw [requestAt_joinBucket, if_neg hne]
    have hleft : (s.leaveSession x).requestAt k' y = some r := by
      rw [h.requestAt_leaveSession, if_neg hy]
      exact hr
    exact hleft
  unfold Collector.accept
  cases hfor : s.pendingFor x with
  | none =>
    have hy : y ≠ x := by
      rintro rfl
      rw [h.pendingFor_eq hr] at hfor
      cases hfor
    exact ⟨k', henqueue _ hy, fun _ => rfl⟩
  | some existing =>
    dsimp only
    obtain ⟨old, hclass, hexisting⟩ := pendingFor_eq_some hfor
    split
    case isFalse hdone =>
      have hy : y ≠ x := by
        rintro rfl
        rw [h.pendingFor_eq hr] at hfor
        cases hfor
        exact hdone hpending
      exact ⟨k', henqueue _ hy, fun _ => rfl⟩
    case isTrue =>
      have hcompat := (h.place old x existing hexisting).2.2.1
      split
      case isFalse => exact ⟨k', hr, fun _ => rfl⟩
      case isTrue hne =>
        rw [hcompat] at hne
        have hsession := (h.place old x existing hexisting).2.1
        have hat : ∀ k'' y', ((s.setRequest existing fun request =>
            { request with input := s.submits.length }).rebucket existing k).requestAt k'' y' =
            if k'' = k ∧ y' = x then some existing
            else if k'' = old ∧ y' = x then none else s.requestAt k'' y' := by
          intro k'' y'
          unfold Collector.rebucket
          have hreq : ((s.setRequest existing fun request =>
              { request with input := s.submits.length }).requests existing) =
              { s.requests existing with input := s.submits.length } := by
            simp [Collector.setRequest]
          dsimp only
          rw [hreq, hsession, hcompat, requestAt_joinBucket]
          split
          · rfl
          · exact requestAt_leaveBucket _ x old k'' y'
        by_cases hy : y = x
        · subst hy
          -- what the session has pending is the request that moves
          have hsame := h.pendingFor_eq hr
          rw [hfor] at hsame
          cases hsame
          refine ⟨k, ?_, ?_⟩
          · rw [hat, if_pos ⟨rfl, rfl⟩]
          · rintro (hy | hk)
            · exact absurd rfl hy
            · exact hk.symm
        · refine ⟨k', ?_, fun _ => rfl⟩
          have hne' : ¬ (k' = k ∧ y = x) := fun heq => hy heq.2
          have hold' : ¬ (k' = old ∧ y = x) := fun heq => hy heq.2
          rw [hat, if_neg hne', if_neg hold']
          exact hr

theorem Inv.accept_loop (h : Inv s) (x : Nat) (k : CompatKey) :
    (s.accept x k).1.loop = s.loop ∧
      ((s.accept x k).1.work = true ∨
        (s.accept x k).1.pending = s.pending ∧ (s.accept x k).1.work = s.work) ∧
      (s.accept x k).1.requestAt k x = some (s.accept x k).2 := by
  have henqueue : ∀ input, (s.enqueue x input k).loop = s.loop ∧
      (s.enqueue x input k).work = true ∧
      (s.enqueue x input k).requestAt k x = some s.created := by
    intro input
    refine ⟨(leaveSession_submits s x).2.1, rfl, ?_⟩
    unfold Collector.enqueue
    rw [requestAt_joinBucket, if_pos ⟨rfl, rfl⟩]
  unfold Collector.accept
  cases hfor : s.pendingFor x with
  | none => exact ⟨(henqueue _).1, .inl (henqueue _).2.1, (henqueue _).2.2⟩
  | some existing =>
    dsimp only
    obtain ⟨old, -, hexisting⟩ := pendingFor_eq_some hfor
    obtain ⟨-, hsession, hcompat, -⟩ := h.place old x existing hexisting
    split
    case isFalse => exact ⟨(henqueue _).1, .inl (henqueue _).2.1, (henqueue _).2.2⟩
    case isTrue =>
      split
      case isTrue =>
        refine ⟨(rebucket_same _ existing k).2.2, .inl rfl, ?_⟩
        have hkey : ((s.setRequest existing fun request =>
            { request with input := s.submits.length }).requests existing).sessionKey = x := by
          simpa [Collector.setRequest] using hsession
        unfold Collector.rebucket
        dsimp only
        rw [hkey, requestAt_joinBucket, if_pos ⟨rfl, rfl⟩]
      case isFalse hsame =>
        refine ⟨rfl, .inr ⟨rfl, rfl⟩, ?_⟩
        rw [hcompat, Decidable.not_not] at hsame
        exact hsame ▸ hexisting

theorem Inv.submit_located (h : Inv s) (x : Nat) (k : CompatKey) {k' : CompatKey} {y r : Nat}
    (hr : s.requestAt k' y = some r) (hpending : (s.requests r).future = .pending) :
    ∃ k'', (s.submit x k).requestAt k'' y = some r ∧ (y ≠ x ∨ k' = k → k'' = k') := by
  obtain ⟨-, -, hrequests, hbuckets, -⟩ := start_same s
  have hr' : s.start.requestAt k' y = some r := by
    rw [Collector.requestAt, hbuckets]
    exact hr
  exact h.start.accept_located x k hr' (by rw [hrequests]; exact hpending)

theorem submit_loop (s : Collector) (x : Nat) (k : CompatKey) (h : Inv s) :
    (s.submit x k).loop = s.start.loop :=
  (h.start.accept_loop x k).1

theorem start_loop (s : Collector) :
    s.loop = .stopped ∧ s.start.loop = .waiting ∨ s.loop ≠ .stopped ∧ s.start.loop = s.loop := by
  unfold Collector.start
  split
  case h_1 hloop => exact .inl ⟨hloop, rfl⟩
  case h_2 hloop => exact .inr ⟨by simp [hloop], rfl⟩
  case h_3 hloop => exact .inr ⟨by simp [hloop], rfl⟩
  case h_4 hloop => exact .inr ⟨by simp [hloop], rfl⟩

theorem Live.submit (h : Live s) (hinv : Inv s) (x : Nat) (k : CompatKey) :
    Live (s.submit x k) := by
  obtain ⟨-, hcreated, hrequests, hbuckets, hwork, -⟩ := start_same s
  obtain ⟨hloop, hworks, hown⟩ := hinv.start.accept_loop x k
  have hjoins := hinv.start.accept_joins x k
  rw [hbuckets, hwork] at hworks
  have hstarted : (s.submit x k).loop = s.start.loop := hloop
  constructor
  · intro r hr hfuture
    rcases hjoins.others r hr with rfl | ⟨hlt, -⟩
    · exact .inl ⟨k, x, hown⟩
    · have hfuture' : (s.requests r).future = .pending := by
        rw [← hrequests, ← hjoins.futures r hlt]
        exact hfuture
      rcases h.located r (hcreated ▸ hlt) hfuture' with ⟨k', y, hat⟩ | ⟨batch, hexecuting, hmem⟩
      · obtain ⟨k'', hat', -⟩ := hinv.submit_located x k hat hfuture'
        exact .inl ⟨k'', y, hat'⟩
      · right
        refine ⟨batch, ?_, hmem⟩
        rw [hstarted]
        rcases start_loop s with ⟨hstopped, -⟩ | ⟨-, hsame⟩
        · rw [hexecuting] at hstopped
          cases hstopped
        · exact hsame.trans hexecuting
  · intro hwaiting hpending
    rcases hworks with hset | ⟨hsame, hsamework⟩
    · exact hset
    · -- the buckets are as they were, so the loop had been started
      have hpending' : s.pending.items ≠ [] := fun hnil => hpending (by
        show (s.start.accept x k).1.pending.items = []
        rw [hsame]
        exact hnil)
      rcases start_loop s with ⟨hstopped, -⟩ | ⟨-, hsameloop⟩
      · exact absurd (h.stopped hstopped) hpending'
      · rw [hstarted, hsameloop] at hwaiting
        exact hsamework.trans (h.wakes hwaiting hpending')
  · intro hstopped
    rw [hstarted] at hstopped
    rcases start_loop s with ⟨-, hwaiting⟩ | ⟨hne, hsame⟩
    · rw [hwaiting] at hstopped
      cases hstopped
    · exact absurd (hsame.symm.trans hstopped) hne
  · intro batch hexecuting r hr
    rw [hstarted] at hexecuting
    apply Nat.lt_of_lt_of_le _ hjoins.created
    rw [hcreated]
    rcases start_loop s with ⟨-, hwaiting⟩ | ⟨-, hsame⟩
    · rw [hwaiting] at hexecuting
      cases hexecuting
    · exact h.batch batch (hsame.symm.trans hexecuting) r hr

/-! ## Serving -/

theorem Inv.serve_live (h : Inv s)
    (hlocated : ∀ r, r < s.created → (s.requests r).future = .pending →
      ∃ k x, s.requestAt k x = some r) : Live s.serve := by
  rcases h.serve_cases with ⟨hempty, hserve⟩ | ⟨k, rest, bucket, -, hbucket, hserve⟩
  · rw [hserve]
    constructor
    · intro r hr hfuture
      exact .inl (hlocated r hr hfuture)
    · intro _ hpending
      exact absurd hempty hpending
    · intro hloop
      cases hloop
    · intro _ hloop
      cases hloop
  · rw [hserve]
    constructor
    · intro r hr hfuture
      obtain ⟨k', x, hat⟩ := hlocated r hr hfuture
      by_cases hk : k' = k
      · subst hk
        obtain ⟨bucket', hbucket', hget⟩ := requestAt_eq_some.1 hat
        rw [hbucket] at hbucket'
        cases hbucket'
        exact .inr ⟨_, rfl, List.mem_map.2 ⟨(x, r), Ordered.get_eq_some.1 hget, rfl⟩⟩
      · left
        refine ⟨k', x, ?_⟩
        simpa [Collector.requestAt, Ordered.get_erase_of_ne hk] using hat
    · intro hloop
      cases hloop
    · intro hloop
      cases hloop
    · intro batch hexecuting r hr
      cases hexecuting
      obtain ⟨⟨x, r'⟩, hitem, rfl⟩ := List.mem_map.1 hr
      exact (h.place k x r' (h.bucket hbucket hitem).1).1

/-- When a batch is over, whatever still waits is in a bucket. -/
theorem Live.finish (h : Live s) {batch : List Nat} (hloop : s.loop = .executing batch)
    (hdone : ∀ r ∈ batch, (s.requests r).future ≠ .pending) {u : Collector} (hu : Inv u)
    (hcreated : u.created = s.created) (hpending : u.pending = s.pending)
    (hfutures : ∀ r, (u.requests r).future = .pending → (s.requests r).future = .pending) :
    Live u.serve := by
  apply hu.serve_live
  intro r hr hfuture
  rcases h.located r (hcreated ▸ hr) (hfutures r hfuture) with hat | ⟨batch', hloop', hmem⟩
  · simpa only [Collector.requestAt, hpending] using hat
  · rw [hloop] at hloop'
    cases hloop'
    exact absurd (hfutures r hfuture) (hdone r hmem)

theorem failRequest_all_rests (s : Collector) (batch : List Nat) :
    Rests s (batch.foldl Collector.failRequest s) := by
  induction batch generalizing s with
  | nil => exact Rests.refl s
  | cons r batch ih =>
    obtain ⟨hpending, hloop, hwork, hcreated, hhanded, hfutures⟩ := failRequest_rests s r
    obtain ⟨hpending', hloop', hwork', hcreated', hhanded', hfutures'⟩ := ih (s.failRequest r)
    exact ⟨hpending'.trans hpending, hloop'.trans hloop, hwork'.trans hwork,
      hcreated'.trans hcreated, hhanded'.trans hhanded, fun r h => hfutures r (hfutures' r h)⟩

theorem Live.step (h : Live s) (hinv : Inv s) (htold : Told s) (hresolves : Resolves s l)
    (hstep : FrameBatch.step s l = some t) : Live t := by
  rcases step_rests hstep with ⟨x, k, rfl⟩ | rfl | rfl | rfl | rfl | hrests
  · cases hstep
    exact h.submit hinv x k
  · rw [FrameBatch.step, Option.ite_none_right_eq_some] at hstep
    obtain ⟨⟨hwaiting, -⟩, hstep⟩ := hstep
    split at hstep
    · rename_i hempty
      cases hstep
      refine ⟨h.located, ?_, h.stopped, h.batch⟩
      intro _ hpending
      exact absurd hempty hpending
    · cases hstep
      constructor
      · intro r hr hfuture
        rcases h.located r hr hfuture with hat | ⟨batch, hexecuting, -⟩
        · exact .inl hat
        · rw [hwaiting] at hexecuting
          cases hexecuting
      · intro hloop
        cases hloop
      · intro hloop
        cases hloop
      · intro batch hloop
        cases hloop
  · rw [FrameBatch.step, Option.ite_none_right_eq_some] at hstep
    obtain ⟨hsleeping, hstep⟩ := hstep
    cases hstep
    have hinv' : Inv { s with work := false } :=
      hinv.of_same rfl rfl rfl rfl rfl rfl fun _ => ⟨rfl, rfl⟩
    apply hinv'.serve_live
    intro r hr hfuture
    rcases h.located r hr hfuture with hat | ⟨batch, hexecuting, -⟩
    · exact hat
    · rw [hsleeping] at hexecuting
      cases hexecuting
  · simp only [FrameBatch.step] at hstep
    split at hstep
    · rename_i batch hexecuting
      cases hstep
      obtain ⟨-, hcreated, hrequests, hpending⟩ := forget_all_same s batch
      refine h.finish hexecuting (hresolves rfl batch hexecuting) (hinv.forget_all batch).1
        hcreated hpending ?_
      rw [hrequests]
      exact fun _ h => h
    · cases hstep
    · cases hstep
    · cases hstep
  · simp only [FrameBatch.step] at hstep
    split at hstep
    · rename_i batch hexecuting
      cases hstep
      -- the error answers whoever the executor has not
      have hrests := failRequest_all_rests s batch
      have hdone : ∀ r ∈ batch,
          ((batch.foldl Collector.failRequest s).requests r).future ≠ .pending := by
        intro r hr
        by_cases hflag : (s.requests r).cancelled = true
        · have hnot := htold.flagged r (h.batch batch hexecuting r hr) hflag
          rw [(failRequest_all_settles s batch).done hnot]
          exact hnot
        · exact failRequest_all_done hr (by simpa using hflag)
      obtain ⟨-, hcreated, hrequests, hpending⟩ :=
        forget_all_same (batch.foldl Collector.failRequest s) batch
      have hinv' := (hinv.failRequest_all batch).1
      refine (h.rests hrests).finish (hrests.loop.trans hexecuting) hdone
        (hinv'.forget_all batch).1 hcreated hpending ?_
      rw [hrequests]
      exact fun _ h => h
    · cases hstep
    · cases hstep
    · cases hstep
  · exact h.rests hrests

/-! ## Every run -/

/-- The executor resolves what it is given, and no task is cancelled under another's
pending request. -/
def Undisturbed (s : Collector) (l : Label) : Prop := Resolves s l ∧ Unshared s l

theorem reach_told (h : machine.Reach Undisturbed s) : Told s ∧ Live s := by
  refine Machine.Reach.invariant_of (J := fun s => Told s ∧ Live s)
    (fun _ => reach_inv) ?_ ?_ h
  · rintro s rfl
    constructor
    · constructor
      · intro r hr
        cases hr
      · intro r hr
        cases hr
      · simp [fresh]
      · simp [fresh]
    · constructor
      · intro r hr
        cases hr
      · intro hloop
        cases hloop
      · exact fun _ => rfl
      · intro batch hloop
        cases hloop
  · rintro s l t hinv ⟨htold, hlive⟩ ⟨hresolves, hunshared⟩ hstep
    exact ⟨htold.step hinv hunshared hstep, hlive.step hinv htold hresolves hstep⟩

/-- What is answered stays answered. -/
theorem Inv.step_done (h : Inv s) (hstep : FrameBatch.step s l = some t) {r : Nat}
    (hr : r < s.created) : r < t.created ∧
      ((s.requests r).future ≠ .pending → (t.requests r).future ≠ .pending) := by
  have hsettles : Settles s t → r < t.created ∧
      ((s.requests r).future ≠ .pending → (t.requests r).future ≠ .pending) := by
    intro hsettles
    refine ⟨hsettles.created ▸ hr, fun hdone => ?_⟩
    rw [hsettles.done hdone]
    exact hdone
  have hrests : Rests s t → r < t.created ∧
      ((s.requests r).future ≠ .pending → (t.requests r).future ≠ .pending) := by
    intro hrests
    exact ⟨hrests.created ▸ hr, fun hdone hpending => hdone (hrests.futures r hpending)⟩
  rcases h.step_settles hstep with ⟨x, k, rfl⟩ | ⟨n, rfl⟩ | ⟨n, rfl⟩ | hsettle
  · cases hstep
    obtain ⟨u, r', hjoins, hsubmit⟩ := h.submit_joins x k
    rw [hsubmit]
    refine ⟨Nat.lt_of_lt_of_le hr hjoins.created, ?_⟩
    rw [← hjoins.futures r hr]
    exact fun h => h
  · rcases step_rests hstep with ⟨_, _, h⟩ | h | h | h | h | hrest
    · cases h
    · cases h
    · cases h
    · cases h
    · cases h
    · exact hrests hrest
  · rcases step_rests hstep with ⟨_, _, h⟩ | h | h | h | h | hrest
    · cases h
    · cases h
    · cases h
    · cases h
    · cases h
    · exact hrests hrest
  · exact hsettles hsettle

/-- The session of a request does not ask for another class. -/
def SameClass (x : Nat) (k : CompatKey) (l : Label) : Prop := ∀ k', l = .submit x k' → k' = k

/-- A request is answered, has its place on the ring, or is executed. -/
def Due (r x : Nat) (k : CompatKey) (bound : Nat) (s : Collector) : Prop :=
  r < s.created ∧
    ((s.requests r).future ≠ .pending ∨
      s.requestAt k x = some r ∧ s.handed.length + s.compatRing.idxOf k ≤ bound ∨
      ∃ batch, s.loop = .executing batch ∧ r ∈ batch ∧ s.handed.length ≤ bound + 1)

/-- A batch that is executed stays so until the executor is through. -/
theorem executing_cases {batch : List Nat} (hloop : s.loop = .executing batch)
    (hstep : step s l = some t) (hinv : Inv s) :
    t.loop = .executing batch ∧ t.handed = s.handed ∨ l = .finish ∨ l = .fail := by
  rcases step_rests hstep with ⟨x, k, rfl⟩ | rfl | rfl | rfl | rfl | hrests
  · left
    cases hstep
    refine ⟨?_, submit_handed s x k⟩
    rw [submit_loop s x k hinv]
    rcases start_loop s with ⟨hstopped, -⟩ | ⟨-, hsame⟩
    · rw [hloop] at hstopped
      cases hstopped
    · exact hsame.trans hloop
  · rw [step, Option.ite_none_right_eq_some, hloop] at hstep
    obtain ⟨⟨hwaiting, -⟩, -⟩ := hstep
    cases hwaiting
  · rw [step, Option.ite_none_right_eq_some, hloop] at hstep
    obtain ⟨hsleeping, -⟩ := hstep
    cases hsleeping
  · exact .inr (.inl rfl)
  · exact .inr (.inr rfl)
  · exact .inl ⟨hrests.loop.trans hloop, hrests.handed⟩

/-- The next batch has the request, or its class moves up. -/
theorem Inv.serve_due (h : Inv s) {r x bound : Nat} {k : CompatKey}
    (hat : s.requestAt k x = some r) (hle : s.handed.length + s.compatRing.idxOf k ≤ bound) :
    s.serve.requestAt k x = some r ∧
        s.serve.handed.length + s.serve.compatRing.idxOf k ≤ bound ∨
      ∃ batch, s.serve.loop = .executing batch ∧ r ∈ batch ∧
        s.serve.handed.length ≤ bound + 1 := by
  have hk : k ∈ s.compatRing := h.mem_ring.2 ⟨x, r, hat⟩
  rcases h.serve_cases with ⟨-, hserve⟩ | ⟨first, rest, bucket, hring, hbucket, hserve⟩
  · rw [hserve]
    exact .inl ⟨hat, hle⟩
  · by_cases hfirst : first = k
    · subst hfirst
      right
      obtain ⟨bucket', hbucket', hget⟩ := requestAt_eq_some.1 hat
      rw [hbucket] at hbucket'
      cases hbucket'
      rw [hserve]
      refine ⟨_, rfl, List.mem_map.2 ⟨(x, r), Ordered.get_eq_some.1 hget, rfl⟩, ?_⟩
      dsimp only
      rw [List.length_append, List.length_singleton]
      omega
    · left
      have hat' : s.serve.requestAt k x = some r := by
        rw [hserve]
        simpa [Collector.requestAt, Ordered.get_erase_of_ne (Ne.symm hfirst)] using hat
      exact ⟨hat', Nat.le_trans (h.serve_keeps hat hat' hk).2 hle⟩

theorem Due.step {r x bound : Nat} {k : CompatKey} (h : Due r x k bound s) (hinv : Inv s)
    (htold : Told s) (hresolves : Resolves s l) (hsame : SameClass x k l)
    (hstep : FrameBatch.step s l = some t) : Due r x k bound t := by
  obtain ⟨hr, hdue⟩ := h
  obtain ⟨hr', hdone⟩ := hinv.step_done hstep hr
  refine ⟨hr', ?_⟩
  by_cases hpending : (s.requests r).future = .pending
  case neg => exact .inl (hdone hpending)
  rcases hdue with hnot | ⟨hat, hle⟩ | ⟨batch, hexecuting, hmem, hle⟩
  · exact absurd hpending hnot
  · right
    have hk : k ∈ s.compatRing := hinv.mem_ring.2 ⟨x, r, hat⟩
    rcases hinv.step_cases hstep with ⟨x', k', rfl, rfl⟩ | ⟨-, hquiet⟩ | ⟨u, hu, hquiet, rfl⟩
    · -- a submission of the session is of the same class
      left
      obtain ⟨k'', hat', hstays⟩ := hinv.submit_located x' k' hat hpending
      have hclass : x ≠ x' ∨ k = k' := by
        by_cases hx : x = x'
        · subst hx
          exact .inr (hsame k' rfl).symm
        · exact .inl hx
      rw [hstays hclass] at hat'
      refine ⟨hat', ?_⟩
      rw [submit_handed]
      exact Nat.le_trans (Nat.add_le_add_left (hinv.submit_keeps hk hat hat').2 _) hle
    · left
      rw [Collector.requestAt, hquiet.pending, hquiet.ring, hquiet.handed]
      exact ⟨hat, hle⟩
    · have hat' : u.requestAt k x = some r := by
        rw [Collector.requestAt, hquiet.pending]
        exact hat
      apply hu.serve_due hat'
      rw [hquiet.ring, hquiet.handed]
      exact hle
  · rcases executing_cases hexecuting hstep hinv with ⟨hloop, hhanded⟩ | rfl | rfl
    · right; right
      exact ⟨batch, hloop, hmem, hhanded ▸ hle⟩
    · exact absurd hpending (hresolves rfl batch hexecuting r hmem)
    · left
      simp only [FrameBatch.step, hexecuting, Option.some.injEq] at hstep
      subst hstep
      have hflag : (s.requests r).cancelled = false := by
        cases hcancelled : (s.requests r).cancelled with
        | false => rfl
        | true => exact absurd hpending (htold.flagged r hr hcancelled)
      rw [((hinv.failRequest_all batch).1.forget_all batch).1.serve_same.2.2,
        (forget_all_same _ batch).2.2.1]
      exact failRequest_all_done hmem hflag

theorem Due.path {r x bound : Nat} {k : CompatKey} (h : Due r x k bound s)
    (hreach : machine.Reach Undisturbed s)
    (hpath : machine.Path (fun s l => Undisturbed s l ∧ SameClass x k l) s t) :
    Due r x k bound t := by
  induction hpath with
  | refl => exact h
  | tail hp hok hstep ih =>
    have hreach' := hreach.path (hp.mono fun _ _ hok => hok.1)
    exact ih.step (reach_inv hreach') (reach_told hreach').1 hok.1.1 hok.2 hstep

/-- Where the answer of a call is to come from. -/
def Comes (s : Collector) (n r : Nat) : Prop :=
  (∃ t outcome, step s (.resume n) = some t ∧
    t.submits[n]? = some (.ended outcome false) ∧ outcome.Since n) ∨
  (∃ batch, s.loop = .executing batch ∧ r ∈ batch ∧ (step s (.resolve r)).isSome) ∨
  ∃ k x, s.requestAt k x = some r ∧
    ((step s .wake).isSome ∨ (step s .collect).isSome ∨ ∃ batch, s.loop = .executing batch)

theorem Told.comes (h : Told s) (hlive : Live s) {n r : Nat}
    (hn : s.submits[n]? = some (.awaiting r false)) : Comes s n r := by
  obtain ⟨hlt, -⟩ := h.awaiting n r false hn
  have hflag : (s.requests r).future = .pending → (s.requests r).cancelled = false := by
    intro hpending
    cases hcancelled : (s.requests r).cancelled with
    | false => rfl
    | true => exact absurd hpending (h.flagged r hlt hcancelled)
  cases houtcome : (s.requests r).future.outcome with
  | some outcome =>
    left
    have hsince := h.outcome hn houtcome
    have hnot : outcome.under false ≠ .cancelledError := by
      rintro heq
      rw [show outcome = .cancelledError from heq] at hsince
      exact hsince
    refine ⟨{ s with submits := s.submits.set n (.ended (outcome.under false) false) },
      outcome, ?_, ?_, hsince⟩
    · simp only [FrameBatch.step, hn, houtcome, if_neg hnot]
    · have hlen := (List.getElem?_eq_some_iff.1 hn).1
      show (s.submits.set n (.ended outcome false))[n]? = _
      rw [List.getElem?_set_self hlen]
  | none =>
    right
    have hpending : (s.requests r).future = .pending := by
      cases hfuture : (s.requests r).future with
      | pending => rfl
      | result => simp [hfuture, Future.outcome] at houtcome
      | exception => simp [hfuture, Future.outcome] at houtcome
      | cancelled => simp [hfuture, Future.outcome] at houtcome
    rcases hlive.located r hlt hpending with ⟨k, x, hat⟩ | ⟨batch, hexecuting, hmem⟩
    · right
      refine ⟨k, x, hat, ?_⟩
      obtain ⟨bucket, hbucket, -⟩ := requestAt_eq_some.1 hat
      have hfull : s.pending.items ≠ [] := List.ne_nil_of_mem (Ordered.get_eq_some.1 hbucket)
      cases hloop : s.loop with
      | stopped => exact absurd (hlive.stopped hloop) hfull
      | waiting =>
        left
        simp [FrameBatch.step, hloop, hlive.wakes hloop hfull, hfull]
      | sleeping =>
        right; left
        simp [FrameBatch.step, hloop]
      | executing batch => exact .inr (.inr ⟨batch, rfl⟩)
    · left
      refine ⟨batch, hexecuting, hmem, ?_⟩
      simp [FrameBatch.step, hexecuting, hmem, hflag hpending, hpending]

theorem submit_answered (h : machine.Reach Undisturbed s) :
    (∀ n (outcome : Outcome), s.submits[n]? = some (.ended outcome false) → outcome.Since n) ∧
    (∀ n r, s.submits[n]? = some (.awaiting r false) → Comes s n r) ∧
    ∀ k x r, s.requestAt k x = some r → ∀ t,
      machine.Path (fun s l => Undisturbed s l ∧ SameClass x k l) s t →
      s.handed.length + s.ahead k + 1 < t.handed.length → (t.requests r).future ≠ .pending := by
  have hinv := reach_inv h
  obtain ⟨htold, hlive⟩ := reach_told h
  refine ⟨htold.ended, fun n r hn => htold.comes hlive hn, ?_⟩
  intro k x r hat t hpath hlt
  have hk : k ∈ s.compatRing := hinv.mem_ring.2 ⟨x, r, hat⟩
  rw [hinv.ahead_eq hk] at hlt
  have hdue : Due r x k (s.handed.length + s.compatRing.idxOf k) s :=
    ⟨(hinv.place k x r hat).1, .inr (.inl ⟨hat, Nat.le_refl _⟩)⟩
  obtain ⟨-, hdone | ⟨-, hle⟩ | ⟨batch, -, -, hle⟩⟩ := hdue.path h hpath
  · exact hdone
  · omega
  · omega

/-- Two submissions of one session, the second in another class, answered together. -/
def together : List Label :=
  [.submit 1 (classOf 1), .submit 1 (classOf 2), .wake, .collect, .resolve 0, .resume 0,
    .resume 1]

def sampleTogether : Collector := (machine.run fresh together).getD fresh

theorem submit_answered_sample :
    sampleTogether.submits = [.ended (.returned 1) false, .ended (.returned 1) false] ∧
      (Outcome.returned 1).Since 0 := by
  have hrun : machine.run fresh together = some sampleTogether := rfl
  -- nothing is cancelled, and the executor has not returned
  have hok : machine.RunOk Undisturbed fresh together := by
    refine ⟨⟨nofun, nofun⟩, ?_⟩
    rintro s ⟨⟩
    refine ⟨⟨nofun, nofun⟩, ?_⟩
    rintro s ⟨⟩
    refine ⟨⟨nofun, nofun⟩, ?_⟩
    rintro s ⟨⟩
    refine ⟨⟨nofun, nofun⟩, ?_⟩
    rintro s ⟨⟩
    refine ⟨⟨nofun, nofun⟩, ?_⟩
    rintro s ⟨⟩
    refine ⟨⟨nofun, nofun⟩, ?_⟩
    rintro s ⟨⟩
    exact ⟨⟨nofun, nofun⟩, fun _ _ => trivial⟩
  have hfresh : machine.Reach Undisturbed fresh := Machine.Reach.of_init rfl
  have hreach := hfresh.path (Machine.path_of_run hrun hok)
  exact ⟨rfl, (submit_answered hreach).1 0 (.returned 1) rfl⟩

/-- The second of two submissions is cancelled, and the first is told it was. -/
def cancelsOne : List Label :=
  [.submit 1 (classOf 1), .submit 1 (classOf 1), .cancel 1, .resume 0]

def sampleCancelled : Collector := (machine.run fresh cancelsOne).getD fresh

theorem submit_cancelled_too : ¬ ∀ s, machine.Reach Resolves s → ∀ (n : Nat) (outcome : Outcome),
    s.submits[n]? = some (.ended outcome false) → outcome ≠ .cancelledError := by
  intro hall
  have hrun : machine.run fresh cancelsOne = some sampleCancelled := rfl
  have hok : machine.RunOk Resolves fresh cancelsOne := by
    refine ⟨nofun, ?_⟩
    rintro s ⟨⟩
    refine ⟨nofun, ?_⟩
    rintro s ⟨⟩
    refine ⟨nofun, ?_⟩
    rintro s ⟨⟩
    exact ⟨nofun, fun _ _ => trivial⟩
  have hfresh : machine.Reach Resolves fresh := Machine.Reach.of_init rfl
  have hreach := hfresh.path (Machine.path_of_run hrun hok)
  exact hall sampleCancelled hreach 0 .cancelledError rfl rfl

end Potocolom.FrameBatch
