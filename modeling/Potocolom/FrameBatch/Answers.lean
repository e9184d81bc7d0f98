import Potocolom.FrameBatch.Turns

/-! # What a submission is told

Submissions of one session share a request while it waits, and with it the future they
await: each is answered from an input no older than its own, unless the task of another
one is cancelled, which cancels the future for all of them. -/

namespace Potocolom.FrameBatch

variable {s t : Collector} {l : Label}

/-! ## What a submission does to the requests -/

/-- A submission awaits a request that has its input; of the other requests none changes,
and no future. -/
structure Joins (s t : Collector) (input r : Nat) : Prop where
  submits : t.submits = s.submits
  created : s.created ≤ t.created
  lt : r < t.created
  input : (t.requests r).input = input
  future : (t.requests r).future = .pending
  futures : ∀ r', r' < s.created → (t.requests r').future = (s.requests r').future
  flags : ∀ r', r' < s.created → (t.requests r').cancelled = (s.requests r').cancelled
  flag : s.created ≤ r → (t.requests r).cancelled = false
  others : ∀ r', r' < t.created → r' = r ∨
    r' < s.created ∧ (t.requests r').input = (s.requests r').input

theorem leaveBucket_submits (s : Collector) (x : Nat) (k : CompatKey) :
    (s.leaveBucket x k).submits = s.submits ∧ (s.leaveBucket x k).loop = s.loop ∧
      (s.leaveBucket x k).work = s.work := by
  unfold Collector.leaveBucket
  split
  · exact ⟨rfl, rfl, rfl⟩
  · dsimp only
    split
    · exact ⟨rfl, rfl, rfl⟩
    · exact ⟨rfl, rfl, rfl⟩

theorem leaveSession_submits (s : Collector) (x : Nat) :
    (s.leaveSession x).submits = s.submits ∧ (s.leaveSession x).loop = s.loop ∧
      (s.leaveSession x).work = s.work := by
  unfold Collector.leaveSession
  split
  · exact ⟨rfl, rfl, rfl⟩
  · exact leaveBucket_submits s x _

theorem enqueue_joins (s : Collector) (x input : Nat) (k : CompatKey) :
    Joins s (s.enqueue x input k) input s.created := by
  obtain ⟨hrequests, hcreated, -⟩ := leaveSession_same s x
  have hnew : (s.enqueue x input k).requests =
      Function.update s.requests s.created ⟨x, k, input, .pending, false⟩ := by
    simp [Collector.enqueue, Collector.joinBucket, Collector.create, hrequests, hcreated]
  have hcount : (s.enqueue x input k).created = s.created + 1 := by
    simp [Collector.enqueue, Collector.joinBucket, Collector.create, hcreated]
  have hold : ∀ r, r < s.created → (s.enqueue x input k).requests r = s.requests r := by
    intro r hr
    rw [hnew, Function.update_of_ne (by omega)]
  constructor
  · exact (leaveSession_submits s x).1
  · omega
  · omega
  · rw [hnew, Function.update_self]
  · rw [hnew, Function.update_self]
  · intro r hr
    rw [hold r hr]
  · intro r hr
    rw [hold r hr]
  · intro _
    rw [hnew, Function.update_self]
  · intro r hr
    by_cases hlast : r = s.created
    · exact .inl hlast
    · right
      have hlt : r < s.created := by omega
      rw [hold r hlt]
      exact ⟨hlt, rfl⟩

theorem rebucket_requests (s : Collector) (r : Nat) (k : CompatKey) :
    (s.rebucket r k).requests =
      Function.update s.requests r { s.requests r with compat := k } := by
  obtain ⟨hrequests, -⟩ := leaveBucket_requests s (s.requests r).sessionKey (s.requests r).compat
  simp [Collector.rebucket, Collector.joinBucket, Collector.setRequest, hrequests]

theorem rebucket_same (s : Collector) (r : Nat) (k : CompatKey) :
    (s.rebucket r k).submits = s.submits ∧ (s.rebucket r k).created = s.created ∧
      (s.rebucket r k).loop = s.loop := by
  obtain ⟨hsubmits, hloop, -⟩ :=
    leaveBucket_submits s (s.requests r).sessionKey (s.requests r).compat
  obtain ⟨-, hcreated, -⟩ := leaveBucket_requests s (s.requests r).sessionKey (s.requests r).compat
  exact ⟨hsubmits, hcreated, hloop⟩

/-- A pending request takes the new input, in its class or another. -/
theorem update_joins {input existing : Nat} (hlt : existing < s.created)
    (hfuture : (s.requests existing).future = .pending)
    (hsubmits : t.submits = s.submits) (hcreated : t.created = s.created) {k : CompatKey}
    (hrequests : t.requests = Function.update s.requests existing
      { s.requests existing with input := input, compat := k }) : Joins s t input existing := by
  have hold : ∀ r, r ≠ existing → t.requests r = s.requests r := by
    intro r hr
    rw [hrequests, Function.update_of_ne hr]
  have hself : t.requests existing = { s.requests existing with input := input, compat := k } := by
    rw [hrequests, Function.update_self]
  constructor
  · exact hsubmits
  · omega
  · omega
  · rw [hself]
  · rw [hself]
    exact hfuture
  · intro r _
    by_cases hr : r = existing
    · rw [hr, hself]
    · rw [hold r hr]
  · intro r _
    by_cases hr : r = existing
    · rw [hr, hself]
    · rw [hold r hr]
  · intro hle
    omega
  · intro r hr
    by_cases hsame : r = existing
    · exact .inl hsame
    · rw [hold r hsame]
      exact .inr ⟨by omega, rfl⟩

theorem Inv.accept_joins (h : Inv s) (x : Nat) (k : CompatKey) :
    Joins s (s.accept x k).1 s.submits.length (s.accept x k).2 := by
  unfold Collector.accept
  cases hpending : s.pendingFor x with
  | none => exact enqueue_joins s x _ k
  | some existing =>
    obtain ⟨old, -, hr⟩ := pendingFor_eq_some hpending
    have hlt := (h.place old x existing hr).1
    dsimp only
    split
    case isFalse => exact enqueue_joins s x _ k
    case isTrue hfuture =>
      split
      case isTrue =>
        obtain ⟨hsubmits, hcreated, -⟩ := rebucket_same (s.setRequest existing fun request =>
          { request with input := s.submits.length }) existing k
        refine update_joins hlt hfuture hsubmits hcreated (k := k) ?_
        rw [rebucket_requests]
        simp [Collector.setRequest]
      case isFalse hsame =>
        refine update_joins hlt hfuture rfl rfl (k := (s.requests existing).compat) ?_
        rfl


theorem start_same (s : Collector) : s.start.submits = s.submits ∧ s.start.created = s.created ∧
    s.start.requests = s.requests ∧ s.start.pending = s.pending ∧ s.start.work = s.work ∧
    s.start.sessionCompat = s.sessionCompat := by
  unfold Collector.start
  split <;> exact ⟨rfl, rfl, rfl, rfl, rfl, rfl⟩

/-- A call of `submit` joins the request it then awaits. -/
theorem Inv.submit_joins (h : Inv s) (x : Nat) (k : CompatKey) :
    ∃ u r, Joins s u s.submits.length r ∧
      s.submit x k = { u with submits := s.submits ++ [.awaiting r false] } := by
  obtain ⟨hsubmits, hcreated, hrequests, -⟩ := start_same s
  obtain ⟨hsub, hle, hlt, hinput, hfuture, hfutures, hflags, hflag, hothers⟩ :=
    h.start.accept_joins x k
  rw [hsubmits] at hinput hsub
  rw [hcreated] at hle hfutures hflags hflag hothers
  rw [hrequests] at hfutures hflags hothers
  refine ⟨(s.start.accept x k).1, (s.start.accept x k).2,
    ⟨hsub, hle, hlt, hinput, hfuture, hfutures, hflags, hflag, hothers⟩, ?_⟩
  unfold Collector.submit
  rw [← hsub]

/-! ## What the executor does to them -/

/-- Nothing changes about the calls; a future that was pending may be answered, by the
input of its request or by an error. -/
structure Settles (s t : Collector) : Prop where
  submits : t.submits = s.submits
  created : t.created = s.created
  inputs : ∀ r, (t.requests r).input = (s.requests r).input
  flags : ∀ r, (t.requests r).cancelled = (s.requests r).cancelled
  futures : ∀ r, (t.requests r).future = (s.requests r).future ∨
    (s.requests r).future = .pending ∧
      ((t.requests r).future = .result (s.requests r).input ∨ (t.requests r).future = .exception)

theorem Settles.of_same (hsubmits : t.submits = s.submits) (hcreated : t.created = s.created)
    (hrequests : t.requests = s.requests) : Settles s t := by
  constructor
  · exact hsubmits
  · exact hcreated
  · simp [hrequests]
  · simp [hrequests]
  · simp [hrequests]

theorem Settles.trans {u : Collector} (hst : Settles s t) (htu : Settles t u) : Settles s u := by
  constructor
  · exact htu.submits.trans hst.submits
  · exact htu.created.trans hst.created
  · intro r
    exact (htu.inputs r).trans (hst.inputs r)
  · intro r
    exact (htu.flags r).trans (hst.flags r)
  · intro r
    rcases hst.futures r with hsame | ⟨hpending, hdone⟩
    · rw [← hsame, ← hst.inputs r]
      exact htu.futures r
    · -- what is answered stays
      have hstays : (u.requests r).future = (t.requests r).future := by
        rcases htu.futures r with hsame | ⟨hpending', -⟩
        · exact hsame
        · rcases hdone with hdone | hdone
          · rw [hdone] at hpending'
            cases hpending'
          · rw [hdone] at hpending'
            cases hpending'
      rw [hstays]
      exact .inr ⟨hpending, hdone⟩

/-- A request gets its answer. -/
theorem setRequest_settles {r : Nat} {future : Future} (hpending : (s.requests r).future = .pending)
    (hfuture : future = .result (s.requests r).input ∨ future = .exception) :
    Settles s (s.setRequest r fun request => { request with future := future }) := by
  have hat : ∀ r', (s.setRequest r fun request => { request with future := future }).requests r' =
      if r' = r then { s.requests r with future := future } else s.requests r' := by
    intro r'
    by_cases hr : r' = r
    · subst hr
      simp [Collector.setRequest]
    · simp [Collector.setRequest, hr]
  constructor
  · rfl
  · rfl
  · intro r'
    rw [hat]
    split
    · rename_i hr
      rw [hr]
    · rfl
  · intro r'
    rw [hat]
    split
    · rename_i hr
      rw [hr]
    · rfl
  · intro r'
    rw [hat]
    split
    · rename_i hr
      rw [hr]
      exact .inr ⟨hpending, hfuture⟩
    · exact .inl rfl

theorem failRequest_settles (s : Collector) (r : Nat) : Settles s (s.failRequest r) := by
  unfold Collector.failRequest
  dsimp only
  split
  · rename_i hlive
    exact setRequest_settles hlive.2 (.inr rfl)
  · exact Settles.of_same rfl rfl rfl

/-- Nobody who still waits is left out. -/
theorem failRequest_done {r : Nat} (hflag : (s.requests r).cancelled = false) :
    ((s.failRequest r).requests r).future ≠ .pending := by
  unfold Collector.failRequest
  dsimp only
  split
  · simp [Collector.setRequest]
  · rename_i hlive
    exact fun hpending => hlive ⟨hflag, hpending⟩

theorem failRequest_all_settles (s : Collector) (batch : List Nat) :
    Settles s (batch.foldl Collector.failRequest s) := by
  induction batch generalizing s with
  | nil => exact Settles.of_same rfl rfl rfl
  | cons r batch ih => exact (failRequest_settles s r).trans (ih (s.failRequest r))

theorem Settles.done (h : Settles s t) {r : Nat} (hdone : (s.requests r).future ≠ .pending) :
    (t.requests r).future = (s.requests r).future := by
  rcases h.futures r with hsame | ⟨hpending, -⟩
  · exact hsame
  · exact absurd hpending hdone

theorem failRequest_all_done {batch : List Nat} {r : Nat} (hr : r ∈ batch)
    (hflag : (s.requests r).cancelled = false) :
    ((batch.foldl Collector.failRequest s).requests r).future ≠ .pending := by
  induction batch generalizing s with
  | nil => cases hr
  | cons first batch ih =>
    rw [List.foldl_cons]
    by_cases hfirst : r = first
    · subst hfirst
      rw [(failRequest_all_settles _ batch).done (failRequest_done hflag)]
      exact failRequest_done hflag
    · have hflag' : ((s.failRequest first).requests r).cancelled = false := by
        rw [(failRequest_settles s first).flags]
        exact hflag
      exact ih ((List.mem_cons.1 hr).resolve_left hfirst) hflag'

theorem forget_all_same (s : Collector) (batch : List Nat) :
    (batch.foldl Collector.forget s).submits = s.submits ∧
      (batch.foldl Collector.forget s).created = s.created ∧
      (batch.foldl Collector.forget s).requests = s.requests ∧
      (batch.foldl Collector.forget s).pending = s.pending := by
  induction batch generalizing s with
  | nil => exact ⟨rfl, rfl, rfl, rfl⟩
  | cons r batch ih =>
    have hsame : (s.forget r).submits = s.submits ∧ (s.forget r).created = s.created ∧
        (s.forget r).requests = s.requests ∧ (s.forget r).pending = s.pending := by
      unfold Collector.forget
      dsimp only
      split
      · exact ⟨rfl, rfl, rfl, rfl⟩
      · exact ⟨rfl, rfl, rfl, rfl⟩
    obtain ⟨hsubmits, hcreated, hrequests, hpending⟩ := ih (s.forget r)
    obtain ⟨hsubmits', hcreated', hrequests', hpending'⟩ := hsame
    exact ⟨hsubmits.trans hsubmits', hcreated.trans hcreated', hrequests.trans hrequests',
      hpending.trans hpending'⟩

theorem Inv.serve_same (h : Inv s) : s.serve.submits = s.submits ∧
    s.serve.created = s.created ∧ s.serve.requests = s.requests := by
  rcases h.serve_cases with ⟨-, hserve⟩ | ⟨k, rest, bucket, -, -, hserve⟩
  · rw [hserve]
    exact ⟨rfl, rfl, rfl⟩
  · rw [hserve]
    exact ⟨rfl, rfl, rfl⟩


/-- What the loop and the executor do only settles futures. -/
theorem Inv.step_settles (h : Inv s) (hstep : FrameBatch.step s l = some t) :
    (∃ x k, l = .submit x k) ∨ (∃ n, l = .cancel n) ∨ (∃ n, l = .resume n) ∨ Settles s t := by
  cases l with
  | submit x k => exact .inl ⟨x, k, rfl⟩
  | cancel n => exact .inr (.inl ⟨n, rfl⟩)
  | resume n => exact .inr (.inr (.inl ⟨n, rfl⟩))
  | wake =>
    right; right; right
    rw [FrameBatch.step, Option.ite_none_right_eq_some] at hstep
    obtain ⟨-, hstep⟩ := hstep
    split at hstep
    · cases hstep
      exact Settles.of_same rfl rfl rfl
    · cases hstep
      exact Settles.of_same rfl rfl rfl
  | collect =>
    right; right; right
    rw [FrameBatch.step, Option.ite_none_right_eq_some] at hstep
    obtain ⟨-, hstep⟩ := hstep
    cases hstep
    have hinv : Inv { s with work := false } :=
      h.of_same rfl rfl rfl rfl rfl rfl fun _ => ⟨rfl, rfl⟩
    obtain ⟨hsubmits, hcreated, hrequests⟩ := hinv.serve_same
    exact Settles.of_same hsubmits hcreated hrequests
  | resolve r =>
    right; right; right
    simp only [FrameBatch.step] at hstep
    split at hstep
    · rw [Option.ite_none_right_eq_some] at hstep
      obtain ⟨⟨-, -, hpending⟩, hstep⟩ := hstep
      cases hstep
      exact setRequest_settles hpending (.inl rfl)
    · cases hstep
    · cases hstep
    · cases hstep
  | refuse r =>
    right; right; right
    simp only [FrameBatch.step] at hstep
    split at hstep
    · rw [Option.ite_none_right_eq_some] at hstep
      obtain ⟨-, hstep⟩ := hstep
      cases hstep
      exact failRequest_settles s r
    · cases hstep
    · cases hstep
    · cases hstep
  | finish =>
    right; right; right
    simp only [FrameBatch.step] at hstep
    split at hstep
    · rename_i batch _
      cases hstep
      obtain ⟨hsubmits, hcreated, hrequests, -⟩ := forget_all_same s batch
      obtain ⟨hsubmits', hcreated', hrequests'⟩ := (h.forget_all batch).1.serve_same
      exact Settles.of_same (hsubmits'.trans hsubmits) (hcreated'.trans hcreated)
        (hrequests'.trans hrequests)
    · cases hstep
    · cases hstep
    · cases hstep
  | fail =>
    right; right; right
    simp only [FrameBatch.step] at hstep
    split at hstep
    · rename_i batch _
      cases hstep
      have hinv := (h.failRequest_all batch).1
      obtain ⟨hsubmits, hcreated, hrequests, -⟩ :=
        forget_all_same (batch.foldl Collector.failRequest s) batch
      obtain ⟨hsubmits', hcreated', hrequests'⟩ := (hinv.forget_all batch).1.serve_same
      exact (failRequest_all_settles s batch).trans
        (Settles.of_same (hsubmits'.trans hsubmits) (hcreated'.trans hcreated)
          (hrequests'.trans hrequests))
    · cases hstep
    · cases hstep
    · cases hstep

/-! ## What the calls are told -/

/-- The input of a submission or a later one, or the error of the executor. -/
def Outcome.Since (n : Nat) : Outcome → Prop
  | .returned input => n ≤ input
  | .raised => True
  | .cancelledError => False

structure Told (s : Collector) : Prop where
  inputs : ∀ r, r < s.created → (s.requests r).input < s.submits.length
  flagged : ∀ r, r < s.created → (s.requests r).cancelled = true → (s.requests r).future ≠ .pending
  awaiting : ∀ n r c, s.submits[n]? = some (.awaiting r c) →
    r < s.created ∧ n ≤ (s.requests r).input ∧
      (∀ input, (s.requests r).future = .result input → n ≤ input) ∧
      (c = false → (s.requests r).future ≠ .cancelled)
  ended : ∀ n (outcome : Outcome), s.submits[n]? = some (.ended outcome false) → outcome.Since n

/-- The task of a submission is cancelled only when no other one that is not awaits the
same pending request. -/
def Unshared (s : Collector) (l : Label) : Prop :=
  ∀ n r c, l = .cancel n → s.submits[n]? = some (.awaiting r c) →
    (s.requests r).future = .pending →
      ∀ n', n' ≠ n → s.submits[n']? ≠ some (.awaiting r false)

theorem Told.settles (h : Told s) (hsettles : Settles s t) : Told t := by
  have ⟨hsubmits, hcreated, hinputs, hflags, _⟩ := hsettles
  constructor
  · intro r hr
    rw [hinputs, hsubmits]
    exact h.inputs r (hcreated ▸ hr)
  · intro r hr hflag
    rw [hflags] at hflag
    have hdone := h.flagged r (hcreated ▸ hr) hflag
    rw [hsettles.done hdone]
    exact hdone
  · intro n r c hn
    rw [hsubmits] at hn
    obtain ⟨hlt, hle, hresult, hlive⟩ := h.awaiting n r c hn
    rw [hcreated, hinputs]
    refine ⟨hlt, hle, ?_, ?_⟩
    · intro input hinput
      rcases hsettles.futures r with hsame | ⟨-, hdone | hdone⟩
      · exact hresult input (hsame ▸ hinput)
      · -- answered from the input it now has
        rw [hinput] at hdone
        cases hdone
        exact hle
      · rw [hinput] at hdone
        cases hdone
    · intro hc
      rcases hsettles.futures r with hsame | ⟨-, hdone | hdone⟩
      · rw [hsame]
        exact hlive hc
      · simp [hdone]
      · simp [hdone]
  · intro n outcome hn
    rw [hsubmits] at hn
    exact h.ended n outcome hn

theorem Told.submit (h : Told s) (hinv : Inv s) (x : Nat) (k : CompatKey) :
    Told (s.submit x k) := by
  obtain ⟨u, r, hjoins, hsubmit⟩ := hinv.submit_joins x k
  rw [hsubmit]
  have hlast : ∀ {n : Nat} {call : Submit},
      (s.submits ++ [.awaiting r false])[n]? = some call →
        s.submits[n]? = some call ∨ n = s.submits.length ∧ call = .awaiting r false := by
    intro n call hn
    rcases Nat.lt_trichotomy n s.submits.length with hlt | heq | hgt
    · rw [List.getElem?_append_left hlt] at hn
      exact .inl hn
    · subst heq
      rw [List.getElem?_concat_length] at hn
      cases hn
      exact .inr ⟨rfl, rfl⟩
    · rw [List.getElem?_eq_none (by simp; omega)] at hn
      cases hn
  constructor
  · intro r' hr'
    show (u.requests r').input < (s.submits ++ [Submit.awaiting r false]).length
    rw [List.length_append, List.length_singleton]
    rcases hjoins.others r' hr' with rfl | ⟨hlt, hsame⟩
    · rw [hjoins.input]
      omega
    · have hlt' := h.inputs r' hlt
      omega
  · intro r' hr' hflag
    show (u.requests r').future ≠ .pending
    have hflag' : (u.requests r').cancelled = true := hflag
    by_cases hlt : r' < s.created
    · rw [hjoins.futures r' hlt]
      rw [hjoins.flags r' hlt] at hflag'
      exact h.flagged r' hlt hflag'
    · -- only the request of the call itself is new
      rcases hjoins.others r' hr' with rfl | ⟨hlt', -⟩
      · rw [hjoins.flag (by omega)] at hflag'
        cases hflag'
      · exact absurd hlt' hlt
  · intro n r' c hn
    show r' < u.created ∧ n ≤ (u.requests r').input ∧
      (∀ input, (u.requests r').future = .result input → n ≤ input) ∧
        (c = false → (u.requests r').future ≠ .cancelled)
    rcases hlast hn with hold | ⟨rfl, hcall⟩
    · obtain ⟨hlt, hle, hresult, hlive⟩ := h.awaiting n r' c hold
      rw [hjoins.futures r' hlt]
      refine ⟨Nat.lt_of_lt_of_le hlt hjoins.created, ?_, hresult, hlive⟩
      rcases hjoins.others r' (Nat.lt_of_lt_of_le hlt hjoins.created) with rfl | ⟨-, hsame⟩
      · -- a newer input took the place of its own
        rw [hjoins.input]
        have hlt' := h.inputs r' hlt
        omega
      · rw [hsame]
        exact hle
    · cases hcall
      rw [hjoins.input, hjoins.future]
      exact ⟨hjoins.lt, Nat.le_refl _, by simp, by simp⟩
  · intro n outcome hn
    rcases hlast hn with hold | ⟨-, hcall⟩
    · exact h.ended n outcome hold
    · cases hcall

/-- A call of the list is set. -/
theorem getElem?_set_cases {calls : List Submit} {n n' : Nat} {call call' : Submit}
    (h : (calls.set n call)[n']? = some call') :
    n' = n ∧ call' = call ∨ n' ≠ n ∧ calls[n']? = some call' := by
  rw [List.getElem?_set] at h
  split at h
  · rename_i hn
    split at h
    · cases h
      exact .inl ⟨hn.symm, rfl⟩
    · cases h
  · rename_i hn
    exact .inr ⟨fun heq => hn heq.symm, h⟩

theorem Told.cancel (h : Told s) {n : Nat} (hstep : FrameBatch.step s (.cancel n) = some t)
    (hunshared : Unshared s (.cancel n)) : Told t := by
  simp only [FrameBatch.step] at hstep
  split at hstep
  case h_2 => cases hstep
  case h_3 => cases hstep
  case h_1 r c hn =>
    obtain ⟨hlt, hle, hresult, hlive⟩ := h.awaiting n r c hn
    have hmarked : Told { s with submits := s.submits.set n (.awaiting r true) } := by
      constructor
      · intro r' hr'
        show (s.requests r').input < (s.submits.set n _).length
        rw [List.length_set]
        exact h.inputs r' hr'
      · exact h.flagged
      · intro n' r' c' hn'
        rcases getElem?_set_cases hn' with ⟨rfl, hcall⟩ | ⟨-, hold⟩
        · cases hcall
          exact ⟨hlt, hle, hresult, fun h => by cases h⟩
        · exact h.awaiting n' r' c' hold
      · intro n' outcome hn'
        rcases getElem?_set_cases hn' with ⟨-, hcall⟩ | ⟨-, hold⟩
        · cases hcall
        · exact h.ended n' outcome hold
    split at hstep
    case isFalse =>
      cases hstep
      exact hmarked
    case isTrue hpending =>
      cases hstep
      have hat : ∀ r', r' ≠ r → (Collector.setRequest
          { s with submits := s.submits.set n (.awaiting r true) } r
          fun request => { request with future := .cancelled }).requests r' = s.requests r' := by
        intro r' hr'
        simp [Collector.setRequest, hr']
      constructor
      · intro r' hr'
        have hlt' := hmarked.inputs r' hr'
        by_cases hr : r' = r
        · subst hr
          simpa [Collector.setRequest] using hlt'
        · rw [hat r' hr]
          exact hlt'
      · intro r' hr' hflag
        by_cases hr : r' = r
        · subst hr
          simp [Collector.setRequest]
        · rw [hat r' hr] at hflag ⊢
          exact h.flagged r' hr' hflag
      · intro n' r' c' hn'
        obtain ⟨hlt', hle', hresult', hlive'⟩ := hmarked.awaiting n' r' c' hn'
        by_cases hr : r' = r
        · subst hr
          refine ⟨hlt', ?_, ?_, ?_⟩
          · simpa [Collector.setRequest] using hle'
          · simp [Collector.setRequest]
          · -- the only call that awaited it is the cancelled one
            rintro rfl
            rcases getElem?_set_cases hn' with ⟨-, hcall⟩ | ⟨hne, hold⟩
            · cases hcall
            · exact absurd hold (hunshared n r' c rfl hn hpending n' hne)
        · rw [hat r' hr]
          exact ⟨hlt', hle', hresult', hlive'⟩
      · exact hmarked.ended

/-- How a call ends. -/
theorem Told.outcome (h : Told s) {n r : Nat} {outcome : Outcome}
    (hn : s.submits[n]? = some (.awaiting r false))
    (houtcome : (s.requests r).future.outcome = some outcome) : outcome.Since n := by
  obtain ⟨-, -, hresult, hlive⟩ := h.awaiting n r false hn
  cases hfuture : (s.requests r).future with
  | pending => simp [hfuture, Future.outcome] at houtcome
  | result input =>
    rw [hfuture] at houtcome
    cases houtcome
    exact hresult input hfuture
  | exception =>
    rw [hfuture] at houtcome
    cases houtcome
    exact trivial
  | cancelled => exact absurd hfuture (hlive rfl)

theorem Told.resume (h : Told s) {n : Nat} (hstep : FrameBatch.step s (.resume n) = some t) :
    Told t := by
  simp only [FrameBatch.step] at hstep
  split at hstep
  case h_2 => cases hstep
  case h_3 => cases hstep
  case h_1 r c hn =>
    split at hstep
    case h_1 => cases hstep
    case h_2 outcome houtcome =>
      have hdone : (s.requests r).future ≠ .pending := by
        intro hpending
        rw [hpending] at houtcome
        cases houtcome
      have hended : Told { s with submits := s.submits.set n (.ended (outcome.under c) c) } := by
        constructor
        · intro r' hr'
          show (s.requests r').input < (s.submits.set n _).length
          rw [List.length_set]
          exact h.inputs r' hr'
        · exact h.flagged
        · intro n' r' c' hn'
          rcases getElem?_set_cases hn' with ⟨-, hcall⟩ | ⟨-, hold⟩
          · cases hcall
          · exact h.awaiting n' r' c' hold
        · intro n' outcome' hn'
          rcases getElem?_set_cases hn' with ⟨rfl, hcall⟩ | ⟨-, hold⟩
          · cases hcall
            exact h.outcome hn houtcome
          · exact h.ended n' outcome' hold
      split at hstep
      case isFalse =>
        cases hstep
        exact hended
      case isTrue =>
        cases hstep
        have hat : ∀ r', (Collector.setRequest
            { s with submits := s.submits.set n (.ended (outcome.under c) c) } r
            fun request => { request with cancelled := true }).requests r' =
              if r' = r then { s.requests r with cancelled := true } else s.requests r' := by
          intro r'
          by_cases hr : r' = r
          · subst hr
            simp [Collector.setRequest]
          · simp [Collector.setRequest, hr]
        constructor
        · intro r' hr'
          have hlt := hended.inputs r' hr'
          rw [hat]
          split
          · rename_i hr
            exact hr ▸ hlt
          · exact hlt
        · intro r' hr' hflag
          rw [hat] at hflag ⊢
          split
          · exact hdone
          · rename_i hr
            rw [if_neg hr] at hflag
            exact h.flagged r' hr' hflag
        · intro n' r' c' hn'
          have htold := hended.awaiting n' r' c' hn'
          rw [hat]
          split
          · rename_i hr
            subst hr
            exact htold
          · exact htold
        · exact hended.ended

theorem Told.step (h : Told s) (hinv : Inv s) (hunshared : Unshared s l)
    (hstep : FrameBatch.step s l = some t) : Told t := by
  rcases hinv.step_settles hstep with ⟨x, k, rfl⟩ | ⟨n, rfl⟩ | ⟨n, rfl⟩ | hsettles
  · cases hstep
    exact h.submit hinv x k
  · exact h.cancel hstep hunshared
  · exact h.resume hstep
  · exact h.settles hsettles

end Potocolom.FrameBatch
