import Potocolom.Settlement.Turns

/-! # Realtime usage

What one session is billed. `closing_sessions` waits for the totals of an attempt that
`release` or `reassign` has ended on a connected worker; the fleet handler of that worker
bills the first `session_closed` it reads for the attempt. An attempt that `assign` gives
up leaves no entry, so its totals find nobody to bill. -/

namespace Potocolom.Settlement

open Edits (Session Task Attempt Worker)
open Realtime (SessionState Caller)

/-- What the log of a session's attempts records. -/
inductive Entry where
  /-- `assign` took the worker for the generation. -/
  | opened (generation worker : Nat)
  /-- `release` or `reassign` ended the attempt, its worker connected. -/
  | ended (generation worker : Nat)
  /-- `assign` gave it up, its worker connected. -/
  | gaveUp (generation worker : Nat)
  /-- The fleet handler of the worker read a `session_closed`. -/
  | reported (generation worker : Nat)
  /-- `schedule_realtime`, for the report of that worker. -/
  | billed (generation user : Nat) (model : String) (worker : Nat)
deriving DecidableEq, Repr

/-- The entry bills this generation. -/
def Entry.bills (generation : Nat) : Entry → Bool
  | .billed g _ _ _ => g == generation
  | _ => false

variable {K V : Type}

/-- `assign` gives the session's worker up: its send fails, its answer is a refusal or
late, or the session was withdrawn while the open was on its way. -/
def givesUp (s : Session K V) : Edits.Action K V → Bool
  | .openFails t _ | .timesOut t _ =>
    match s.tasks t with
    | .placing _ attempt => decide (s.worker = some attempt.worker)
    | _ => false
  | .wakes t _ =>
    match s.tasks t with
    | .placing _ attempt =>
      decide (s.controlGeneration = attempt.started ∧ s.worker = some attempt.worker ∧
        s.attemptOk = false)
    | _ => false
  | .abandoned t _ =>
    match s.tasks t with
    | .placing _ attempt =>
      decide (attempt.phase = .withdrawing ∧ s.worker = some attempt.worker)
    | _ => false
  | _ => false

variable (K V) in
/-- A session, its entries of `closing_sessions`, and who else is there. -/
structure Billing where
  session : Session K V
  userId : Option Nat
  modelId : String
  /-- The fleet handler of the worker has ended. -/
  deaf : Nat → Bool
  /-- `closing_sessions` at this session: user, model and worker by generation. -/
  closing : Nat → Option (Nat × String × Nat)
  log : List Entry

namespace Billing

variable (s : Billing K V)

def record (entry : Entry) : Billing K V := { s with log := s.log ++ [entry] }

/-- `arm_settlement`, for a worker that is connected. -/
def armSettlement (w : Nat) : Billing K V :=
  match s.userId with
  | some user =>
    { s with
      closing := Function.update s.closing s.session.controlGeneration
        (some (user, s.modelId, w)) }
  | none => s

/-- The session leaves its worker in this step. -/
def leave (a : Edits.Action K V) (next : Session K V) : Billing K V :=
  match s.session.worker with
  | some w =>
    if (s.session.workers w).registered then
      if givesUp s.session a then s.record (.gaveUp s.session.controlGeneration w)
      else if next.worker = none then
        (s.armSettlement w).record (.ended s.session.controlGeneration w)
      else s
    else s
  | none => s

/-- The worker that a step opens the session on. -/
def opens (next : Session K V) : List Entry :=
  match next.worker with
  | some w =>
    if s.session.worker = some w ∧ next.controlGeneration = s.session.controlGeneration then []
    else [.opened next.controlGeneration w]
  | none => []

/-- The step of the session, with what it does to `closing_sessions`. -/
def settle (a : Edits.Action K V) (next : Session K V) : Billing K V :=
  let left := s.leave a next
  { left with session := next, log := left.log ++ s.opens next }

/-- An accepted `session_closed`. -/
def report (w generation : Nat) : Billing K V :=
  let read := s.record (.reported generation w)
  match s.closing generation with
  | some (user, model, owner) =>
    if owner = w then
      ({ read with closing := Function.update s.closing generation none } : Billing K V).record
        (.billed generation user model w)
    else read
  | none => read

end Billing

/-! ## The machine -/

inductive Action (K V : Type) where
  | session (a : Edits.Action K V)
  /-- The fleet handler of the worker leaves its receive loop. -/
  | deafens (w : Nat)
  /-- `_finalize_worker` drops the worker's entries. -/
  | drops (w : Nat)
  /-- The fleet handler of the worker has a `session_closed` of this session, and its
  receipt where the protocol has one. -/
  | sessionClosed (w generation : Nat) (accepted : Bool)

/-- One step. -/
def step (seed : K) (s : Billing K V) : Action K V → Option (Billing K V)
  | .session a => (Edits.step seed s.session a).map fun next => s.settle a next
  | .deafens w => some { s with deaf := Function.update s.deaf w true }
  | .drops w =>
    if s.deaf w ∧ (s.session.workers w).registered = false then
      some
        { s with
          closing := fun generation => (s.closing generation).filter fun owner => owner.2.2 ≠ w }
    else none
  | .sessionClosed w generation accepted =>
    if s.deaf w then none else if accepted then some (s.report w generation) else some s

/-- A session of one user and model, as the handshake leaves it. -/
def started (params : Dict K V) (userId : Option Nat) (modelId : String) : Billing K V where
  session := Edits.opened params
  userId := userId
  modelId := modelId
  deaf _ := false
  closing _ := none
  log := []

/-- One browser session and its usage, from its `open`. -/
def machine (seed : K) : Machine (Billing K V) (Action K V) where
  init s := ∃ params userId modelId, s = started params userId modelId
  step := step seed

/-! ## The property -/

section Definitions

variable (s : Billing K V)

/-- Usage is billed at most once for an attempt, on a report of the worker it was opened
on, to the session's user and model; and a report for an attempt that has ended on its
connected worker finds it billed, or bills it. -/
structure SettledOnce : Prop where
  once : ∀ generation, s.log.countP (Entry.bills generation) ≤ 1
  reported : ∀ before after generation user model w,
    s.log = before ++ .billed generation user model w :: after →
      .opened generation w ∈ before ∧ ∃ earlier, before = earlier ++ [.reported generation w]
  charged : ∀ generation user model w, .billed generation user model w ∈ s.log →
    s.userId = some user ∧ s.modelId = model
  settled : ∀ before after generation w user, s.log = before ++ .reported generation w :: after →
    .ended generation w ∈ before ∨ .gaveUp generation w ∈ before → s.userId = some user →
    .billed generation user s.modelId w ∈ s.log

/-- Placements take turns, and no worker reports an attempt that `assign` gave up while
the worker was connected. -/
def InTurn (seed : K) : Action K V → Prop
  | .session a => Undisturbed s.session seed a
  | .sessionClosed w generation accepted =>
    accepted = true → s.userId ≠ none → .gaveUp generation w ∉ s.log
  | _ => True

/-- What the entries and the log say of each other; `top` is the newest generation that
was opened. -/
structure Ledger (top : Nat) : Prop where
  le : ∀ g w, .opened g w ∈ s.log → g ≤ top
  unique : ∀ g w w', .opened g w ∈ s.log → .opened g w' ∈ s.log → w = w'
  ended : ∀ g w, .ended g w ∈ s.log ∨ .gaveUp g w ∈ s.log → .opened g w ∈ s.log
  closing : ∀ g user model w, s.closing g = some (user, model, w) →
    s.userId = some user ∧ s.modelId = model ∧ .ended g w ∈ s.log ∧
      s.log.countP (Entry.bills g) = 0
  billed : ∀ g user model w, .billed g user model w ∈ s.log → .ended g w ∈ s.log
  waits : ∀ g w user, .ended g w ∈ s.log → s.userId = some user →
    s.closing g = some (user, s.modelId, w) ∨ .billed g user s.modelId w ∈ s.log ∨ s.deaf w = true
  good : SettledOnce s

/-- The ledger, and the attempt the session is on. -/
structure Books : Prop where
  kept : ∃ top, Turn s.session top ∧ Ledger s top
  held : ∀ w, s.session.worker = some w → .opened s.session.controlGeneration w ∈ s.log ∧
    ∀ w', .ended s.session.controlGeneration w' ∉ s.log ∧
      .gaveUp s.session.controlGeneration w' ∉ s.log

end Definitions

variable {s t : Billing K V} {top : Nat} {seed : K}

/-! ## One more entry -/

theorem countP_bills_zero {log : List Entry} {g : Nat} (h : log.countP (Entry.bills g) = 0)
    (user : Nat) (model : String) (w : Nat) : .billed g user model w ∉ log := by
  intro hmem
  have hnot := List.countP_eq_zero.mp h _ hmem
  simp [Entry.bills] at hnot

/-- An entry that bills nothing and reports nothing. -/
theorem SettledOnce.append (h : SettledOnce s) (entries : List Entry)
    (hlog : t.log = s.log ++ entries) (huser : t.userId = s.userId) (hmodel : t.modelId = s.modelId)
    (hbills : ∀ g, entries.countP (Entry.bills g) = 0)
    (hreports : ∀ g w, .reported g w ∉ entries) : SettledOnce t := by
  have hnot : ∀ {g user model w}, Entry.billed g user model w ∉ entries := fun {g user model w} =>
    countP_bills_zero (hbills g) user model w
  -- an entry of the longer log that bills or reports is one of the old log
  have hold : ∀ {before after : List Entry} {e : Entry}, e ∉ entries →
      s.log ++ entries = before ++ e :: after →
      ∃ rest, s.log = before ++ e :: rest ∧ after = rest ++ entries := by
    intro before after e he heq
    rcases List.append_eq_append_iff.mp heq with ⟨mid, hbefore, hentries⟩ | ⟨mid, hlog', hafter⟩
    · exfalso
      apply he
      rw [hentries]
      exact List.mem_append_right _ List.mem_cons_self
    · rcases mid with _ | ⟨e', rest⟩
      · exfalso
        apply he
        have hafter' : e :: after = entries := by simpa using hafter
        rw [← hafter']
        exact List.mem_cons_self
      · have hcons : e = e' ∧ after = rest ++ entries := by simpa using hafter
        rw [← hcons.1] at hlog'
        exact ⟨rest, hlog', hcons.2⟩
  constructor
  · intro g
    rw [hlog, List.countP_append, hbills g]
    exact h.once g
  · intro before after g user model w heq
    rw [hlog] at heq
    rcases hold hnot heq with ⟨rest, hrest, _⟩
    exact h.reported before rest g user model w hrest
  · intro g user model w hmem
    rw [hlog] at hmem
    rw [huser, hmodel]
    exact h.charged g user model w ((List.mem_append.mp hmem).resolve_right hnot)
  · intro before after g w user heq hended hu
    rw [hlog] at heq
    rw [huser] at hu
    rw [hlog, hmodel]
    rcases hold (hreports g w) heq with ⟨rest, hrest, _⟩
    exact List.mem_append_left _ (h.settled before rest g w user hrest hended hu)

/-- Nothing but the session changes. -/
theorem Ledger.of_eq (h : Ledger s top) (huser : t.userId = s.userId)
    (hmodel : t.modelId = s.modelId) (hdeaf : ∀ w, s.deaf w = true → t.deaf w = true)
    (hlog : t.log = s.log) (hclosing : ∀ g owner, t.closing g = some owner → s.closing g = some owner)
    (hkept : ∀ g owner, s.closing g = some owner → t.closing g = some owner ∨ t.deaf owner.2.2 = true) :
    Ledger t top := by
  refine ⟨?_, ?_, ?_, ?_, ?_, ?_, h.good.append [] (by rw [hlog]; simp) huser hmodel
    (fun _ => rfl) (by simp)⟩
  · rw [hlog]
    exact h.le
  · rw [hlog]
    exact h.unique
  · rw [hlog]
    exact h.ended
  · intro g user model w hg
    rw [huser, hmodel, hlog]
    exact h.closing g user model w (hclosing g _ hg)
  · rw [hlog]
    exact h.billed
  · intro g w user hended hu
    rw [hlog] at hended
    rw [huser] at hu
    rw [hmodel, hlog]
    rcases h.waits g w user hended hu with hc | hb | hd
    · rcases hkept g _ hc with hc | hd
      · exact .inl hc
      · exact .inr (.inr hd)
    · exact .inr (.inl hb)
    · exact .inr (.inr (hdeaf w hd))

theorem mem_record {entry e : Entry} :
    e ∈ (s.record entry).log ↔ e ∈ s.log ∨ e = entry := by
  unfold Billing.record
  simp

/-- A give-up leaves nobody to bill. -/
theorem Ledger.record_gaveUp (h : Ledger s top) {g w : Nat} (hopened : .opened g w ∈ s.log) :
    Ledger (s.record (.gaveUp g w)) top := by
  have hold : ∀ {e : Entry}, e ≠ .gaveUp g w → e ∈ (s.record (.gaveUp g w)).log → e ∈ s.log :=
    fun hne he => (mem_record.mp he).resolve_right hne
  have hnew : ∀ {e : Entry}, e ∈ s.log → e ∈ (s.record (.gaveUp g w)).log :=
    fun he => mem_record.mpr (.inl he)
  refine ⟨?_, ?_, ?_, ?_, ?_, ?_, h.good.append [Entry.gaveUp g w] rfl rfl rfl
    (by simp [Entry.bills]) (by simp)⟩
  · exact fun g' w' he => h.le g' w' (hold (by simp) he)
  · exact fun g' w' w'' he he' => h.unique g' w' w'' (hold (by simp) he) (hold (by simp) he')
  · rintro g' w' (he | he)
    · exact hnew (h.ended g' w' (.inl (hold (by simp) he)))
    · rcases mem_record.mp he with he | he
      · exact hnew (h.ended g' w' (.inr he))
      · cases he
        exact hnew hopened
  · intro g' user model w' hc
    rcases h.closing g' user model w' hc with ⟨hu, hm, he, hcount⟩
    refine ⟨hu, hm, hnew he, ?_⟩
    show (s.log ++ [Entry.gaveUp g w]).countP _ = 0
    rw [List.countP_append, hcount]
    rfl
  · exact fun g' user model w' he => hnew (h.billed g' user model w' (hold (by simp) he))
  · intro g' w' user he hu
    rcases h.waits g' w' user (hold (by simp) he) hu with hc | hb | hd
    · exact .inl hc
    · exact .inr (.inl (hnew hb))
    · exact .inr (.inr hd)

/-- `release` and `reassign` leave an entry for the totals of the attempt. -/
theorem Ledger.record_ended (h : Ledger s top) {w : Nat}
    (hopened : .opened s.session.controlGeneration w ∈ s.log)
    (hfirst : ∀ w', .ended s.session.controlGeneration w' ∉ s.log) :
    Ledger ((s.armSettlement w).record (.ended s.session.controlGeneration w)) top := by
  have hlog : (s.armSettlement w).log = s.log ∧ (s.armSettlement w).userId = s.userId ∧
      (s.armSettlement w).modelId = s.modelId ∧ (s.armSettlement w).deaf = s.deaf := by
    unfold Billing.armSettlement
    split
    · exact ⟨rfl, rfl, rfl, rfl⟩
    · exact ⟨rfl, rfl, rfl, rfl⟩
  have hclosing : ∀ g, (s.armSettlement w).closing g = s.closing g ∨
      (g = s.session.controlGeneration ∧ ∃ user, s.userId = some user ∧
        (s.armSettlement w).closing g = some (user, s.modelId, w)) := by
    intro g
    unfold Billing.armSettlement
    split
    · rename_i user hu
      by_cases hg : g = s.session.controlGeneration
      · refine .inr ⟨hg, user, hu, ?_⟩
        subst hg
        exact Function.update_self _ _ _
      · exact .inl (Function.update_of_ne hg _ _)
    · exact .inl rfl
  have harmed : ∀ user, s.userId = some user → (s.armSettlement w).closing
      s.session.controlGeneration = some (user, s.modelId, w) := by
    intro user hu
    unfold Billing.armSettlement
    rw [hu]
    exact Function.update_self _ _ _
  have hfull : ((s.armSettlement w).record (.ended s.session.controlGeneration w)).log =
      s.log ++ [.ended s.session.controlGeneration w] := by
    unfold Billing.record
    rw [hlog.1]
  have hmem : ∀ {e : Entry},
      e ∈ ((s.armSettlement w).record (.ended s.session.controlGeneration w)).log ↔
        e ∈ s.log ∨ e = .ended s.session.controlGeneration w := by
    intro e
    rw [hfull]
    simp
  have hbills : ∀ g, ((s.armSettlement w).record (.ended s.session.controlGeneration w)).log.countP
      (Entry.bills g) = s.log.countP (Entry.bills g) := by
    intro g
    rw [hfull, List.countP_append]
    rfl
  have hnone : s.log.countP (Entry.bills s.session.controlGeneration) = 0 := by
    rw [List.countP_eq_zero]
    intro e he hb
    cases e with
    | billed g user model w' =>
      obtain rfl : g = s.session.controlGeneration := by simpa [Entry.bills] using hb
      exact hfirst w' (h.billed _ user model w' he)
    | _ => simp [Entry.bills] at hb
  refine ⟨?_, ?_, ?_, ?_, ?_, ?_, h.good.append [.ended s.session.controlGeneration w] hfull
    hlog.2.1 hlog.2.2.1 (by simp [Entry.bills]) (by simp)⟩
  · exact fun g' w' he => h.le g' w' ((hmem.mp he).resolve_right (by simp))
  · exact fun g' w' w'' he he' => h.unique g' w' w'' ((hmem.mp he).resolve_right (by simp))
      ((hmem.mp he').resolve_right (by simp))
  · rintro g' w' (he | he)
    · rcases hmem.mp he with he | he
      · exact hmem.mpr (.inl (h.ended g' w' (.inl he)))
      · cases he
        exact hmem.mpr (.inl hopened)
    · exact hmem.mpr (.inl (h.ended g' w' (.inr ((hmem.mp he).resolve_right (by simp)))))
  · intro g' user model w' hc
    have hc' : (s.armSettlement w).closing g' = some (user, model, w') := hc
    show (s.armSettlement w).userId = _ ∧ (s.armSettlement w).modelId = _ ∧ _ ∧ _
    rw [hlog.2.1, hlog.2.2.1, hbills]
    rcases hclosing g' with hsame | ⟨rfl, user', hu, hnew⟩
    · rw [hsame] at hc'
      rcases h.closing g' user model w' hc' with ⟨hu, hm, he, hcount⟩
      exact ⟨hu, hm, hmem.mpr (.inl he), hcount⟩
    · rw [hnew] at hc'
      cases hc'
      exact ⟨hu, rfl, hmem.mpr (.inr rfl), hnone⟩
  · exact fun g' user model w' he =>
      hmem.mpr (.inl (h.billed g' user model w' ((hmem.mp he).resolve_right (by simp))))
  · intro g' w' user he hu
    have hu' : s.userId = some user := hlog.2.1.symm.trans hu
    have hmodel : ((s.armSettlement w).record
        (.ended s.session.controlGeneration w)).modelId = s.modelId := hlog.2.2.1
    have hdeaf : ((s.armSettlement w).record
        (.ended s.session.controlGeneration w)).deaf = s.deaf := hlog.2.2.2
    rw [hmodel, hdeaf]
    rcases hmem.mp he with he | he
    · have hne : g' ≠ s.session.controlGeneration := by
        rintro rfl
        exact hfirst w' he
      rcases h.waits g' w' user he hu' with hc | hb | hd
      · rcases hclosing g' with hsame | ⟨heq, _⟩
        · exact .inl (hsame.trans hc)
        · exact absurd heq hne
      · exact .inr (.inl (hmem.mpr (.inl hb)))
      · exact .inr (.inr hd)
    · cases he
      exact .inl (harmed user hu')

/-- A new attempt, at a generation above all before it. -/
theorem Ledger.record_opened (h : Ledger s top) {g w : Nat} (hfresh : top < g) :
    Ledger (s.record (.opened g w)) g := by
  have hold : ∀ {e : Entry}, e ≠ .opened g w → e ∈ (s.record (.opened g w)).log → e ∈ s.log :=
    fun hne he => (mem_record.mp he).resolve_right hne
  have hnew : ∀ {e : Entry}, e ∈ s.log → e ∈ (s.record (.opened g w)).log :=
    fun he => mem_record.mpr (.inl he)
  refine ⟨?_, ?_, ?_, ?_, ?_, ?_, h.good.append [Entry.opened g w] rfl rfl rfl
    (by simp [Entry.bills]) (by simp)⟩
  · intro g' w' he
    rcases mem_record.mp he with he | he
    · have hle := h.le g' w' he
      omega
    · cases he
      exact Nat.le_refl _
  · intro g' w' w'' he he'
    rcases mem_record.mp he with he | he
    · rcases mem_record.mp he' with he' | he'
      · exact h.unique g' w' w'' he he'
      · cases he'
        have hle := h.le _ _ he
        omega
    · cases he
      rcases mem_record.mp he' with he' | he'
      · have hle := h.le _ _ he'
        omega
      · cases he'
        rfl
  · rintro g' w' (he | he)
    · exact hnew (h.ended g' w' (.inl (hold (by simp) he)))
    · exact hnew (h.ended g' w' (.inr (hold (by simp) he)))
  · intro g' user model w' hc
    rcases h.closing g' user model w' hc with ⟨hu, hm, he, hcount⟩
    refine ⟨hu, hm, hnew he, ?_⟩
    show (s.log ++ [Entry.opened g w]).countP _ = 0
    rw [List.countP_append, hcount]
    rfl
  · exact fun g' user model w' he => hnew (h.billed g' user model w' (hold (by simp) he))
  · intro g' w' user he hu
    rcases h.waits g' w' user (hold (by simp) he) hu with hc | hb | hd
    · exact .inl hc
    · exact .inr (.inl (hnew hb))
    · exact .inr (.inr hd)

/-! ## Reports -/

/-- A report for an attempt that is billed already, or has not ended. -/
theorem SettledOnce.record_reported (h : SettledOnce s) {g w : Nat}
    (hbilled : ∀ user, .ended g w ∈ s.log ∨ .gaveUp g w ∈ s.log → s.userId = some user →
      .billed g user s.modelId w ∈ s.log) : SettledOnce (s.record (.reported g w)) where
  once := by
    intro g'
    show (s.log ++ [Entry.reported g w]).countP _ ≤ 1
    rw [List.countP_append]
    exact h.once g'
  reported := by
    intro before after g' user model w' heq
    rcases List.append_cons_eq_concat.mp heq.symm with ⟨_, _, he⟩ | ⟨rest, _, hrest⟩
    · cases he
    · exact h.reported before rest g' user model w' hrest
  charged := fun g' user model w' he =>
    h.charged g' user model w' ((mem_record.mp he).resolve_right (by simp))
  settled := by
    intro before after g' w' user heq hended hu
    rcases List.append_cons_eq_concat.mp heq.symm with ⟨_, hbefore, he⟩ | ⟨rest, _, hrest⟩
    · cases he
      rw [hbefore] at hended
      exact mem_record.mpr (.inl (hbilled user hended hu))
    · exact mem_record.mpr (.inl (h.settled before rest g' w' user hrest hended hu))

/-- A report that finds the entry of its attempt bills it. -/
theorem SettledOnce.record_billed (h : SettledOnce s) {g user w : Nat} (hu : s.userId = some user)
    (hcount : s.log.countP (Entry.bills g) = 0) (hopened : .opened g w ∈ s.log) :
    SettledOnce ((s.record (.reported g w)).record (.billed g user s.modelId w)) where
  once := by
    intro g'
    show ((s.log ++ [Entry.reported g w]) ++ [Entry.billed g user s.modelId w]).countP _ ≤ 1
    rw [List.countP_append, List.countP_append]
    by_cases hg : g = g'
    · subst hg
      rw [hcount]
      simp [Entry.bills]
    · have hother := h.once g'
      simpa [Entry.bills, hg] using hother
  reported := by
    intro before after g' user' model' w' heq
    rcases List.append_cons_eq_concat.mp heq.symm with ⟨_, hbefore, he⟩ | ⟨rest, _, hrest⟩
    · cases he
      rw [hbefore]
      exact ⟨mem_record.mpr (.inl hopened), s.log, rfl⟩
    · rcases List.append_cons_eq_concat.mp hrest.symm with ⟨_, _, he⟩ | ⟨rest', _, hrest'⟩
      · cases he
      · exact h.reported before rest' g' user' model' w' hrest'
  charged := by
    intro g' user' model' w' he
    rcases mem_record.mp he with he | he
    · exact h.charged g' user' model' w' ((mem_record.mp he).resolve_right (by simp))
    · cases he
      exact ⟨hu, rfl⟩
  settled := by
    intro before after g' w' user' heq hended hu'
    rcases List.append_cons_eq_concat.mp heq.symm with ⟨_, _, he⟩ | ⟨rest, _, hrest⟩
    · cases he
    · have huser : user' = user := by
        have hsome : s.userId = some user' := hu'
        rw [hu] at hsome
        exact (Option.some.inj hsome).symm
      subst huser
      rcases List.append_cons_eq_concat.mp hrest.symm with ⟨_, _, he⟩ | ⟨rest', _, hrest'⟩
      · cases he
        exact mem_record.mpr (.inr rfl)
      · have hold := h.settled before rest' g' w' user' hrest' hended hu
        exact mem_record.mpr (.inl (mem_record.mpr (.inl hold)))

theorem Ledger.report (h : Ledger s top) {g w : Nat} (hdeaf : s.deaf w = false)
    (hkept : s.userId ≠ none → .gaveUp g w ∉ s.log) : Ledger (s.report w g) top := by
  have hbilled : ∀ user, .ended g w ∈ s.log ∨ .gaveUp g w ∈ s.log → s.userId = some user →
      s.closing g ≠ some (user, s.modelId, w) → .billed g user s.modelId w ∈ s.log := by
    rintro user (he | he) hu hnot
    · rcases h.waits g w user he hu with hc | hb | hd
      · exact absurd hc hnot
      · exact hb
      · rw [hdeaf] at hd
        cases hd
    · exact absurd he (hkept (by simp [hu]))
  -- a report that finds no entry of its worker
  have hread : (∀ user, s.closing g ≠ some (user, s.modelId, w)) →
      Ledger (s.record (.reported g w)) top := by
    intro hnot
    have hold : ∀ {e : Entry}, e ≠ .reported g w → e ∈ (s.record (.reported g w)).log → e ∈ s.log :=
      fun hne he => (mem_record.mp he).resolve_right hne
    have hnew : ∀ {e : Entry}, e ∈ s.log → e ∈ (s.record (.reported g w)).log :=
      fun he => mem_record.mpr (.inl he)
    refine ⟨?_, ?_, ?_, ?_, ?_, ?_,
      h.good.record_reported fun user he hu => hbilled user he hu (hnot user)⟩
    · exact fun g' w' he => h.le g' w' (hold (by simp) he)
    · exact fun g' w' w'' he he' => h.unique g' w' w'' (hold (by simp) he) (hold (by simp) he')
    · rintro g' w' (he | he)
      · exact hnew (h.ended g' w' (.inl (hold (by simp) he)))
      · exact hnew (h.ended g' w' (.inr (hold (by simp) he)))
    · intro g' user model w' hc
      rcases h.closing g' user model w' hc with ⟨hu, hm, he, hcount⟩
      refine ⟨hu, hm, hnew he, ?_⟩
      show (s.log ++ [Entry.reported g w]).countP _ = 0
      rw [List.countP_append, hcount]
      rfl
    · exact fun g' user model w' he => hnew (h.billed g' user model w' (hold (by simp) he))
    · intro g' w' user he hu
      rcases h.waits g' w' user (hold (by simp) he) hu with hc | hb | hd
      · exact .inl hc
      · exact .inr (.inl (hnew hb))
      · exact .inr (.inr hd)
  unfold Billing.report
  dsimp only
  split
  case h_2 =>
    rename_i hnone
    exact hread (by simp [hnone])
  case h_1 user model owner hsome =>
    split
    case isFalse =>
      rename_i hother
      apply hread
      intro user' heq
      rw [hsome] at heq
      cases heq
      exact hother rfl
    case isTrue =>
      rename_i howner
      subst howner
      rcases h.closing g user model owner hsome with ⟨hu, rfl, hended, hcount⟩
      have hopened := h.ended g owner (.inl hended)
      have hgood := h.good.record_billed hu hcount hopened
      have hmem : ∀ {e : Entry}, e ∈ ((({ s.record (.reported g owner) with
          closing := Function.update s.closing g none } : Billing K V).record
            (.billed g user s.modelId owner)).log) ↔
          (e ∈ s.log ∨ e = .reported g owner) ∨ e = .billed g user s.modelId owner := by
        intro e
        rw [mem_record]
        exact or_congr mem_record Iff.rfl
      have hold : ∀ {e : Entry}, e ≠ .reported g owner → e ≠ .billed g user s.modelId owner →
          e ∈ ((({ s.record (.reported g owner) with
            closing := Function.update s.closing g none } : Billing K V).record
              (.billed g user s.modelId owner)).log) → e ∈ s.log :=
        fun hr hb he => ((hmem.mp he).resolve_right hb).resolve_right hr
      have hnew : ∀ {e : Entry}, e ∈ s.log → e ∈ ((({ s.record (.reported g owner) with
          closing := Function.update s.closing g none } : Billing K V).record
            (.billed g user s.modelId owner)).log) := fun he => hmem.mpr (.inl (.inl he))
      refine ⟨?_, ?_, ?_, ?_, ?_, ?_,
        ⟨hgood.once, hgood.reported, hgood.charged, hgood.settled⟩⟩
      · exact fun g' w' he => h.le g' w' (hold (by simp) (by simp) he)
      · exact fun g' w' w'' he he' => h.unique g' w' w'' (hold (by simp) (by simp) he)
          (hold (by simp) (by simp) he')
      · rintro g' w' (he | he)
        · exact hnew (h.ended g' w' (.inl (hold (by simp) (by simp) he)))
        · exact hnew (h.ended g' w' (.inr (hold (by simp) (by simp) he)))
      · intro g' user' model' w' hc
        have hc' : Function.update s.closing g none g' = some (user', model', w') := hc
        have hne : g' ≠ g := by
          rintro rfl
          rw [Function.update_self] at hc'
          cases hc'
        rw [Function.update_of_ne hne] at hc'
        rcases h.closing g' user' model' w' hc' with ⟨hu', hm', he, hcount'⟩
        refine ⟨hu', hm', hnew he, ?_⟩
        show ((s.log ++ [Entry.reported g owner]) ++
          [Entry.billed g user s.modelId owner]).countP _ = 0
        rw [List.countP_append, List.countP_append, hcount']
        simp [Entry.bills, Ne.symm hne]
      · intro g' user' model' w' he
        rcases hmem.mp he with (he | he) | he
        · exact hnew (h.billed g' user' model' w' he)
        · cases he
        · cases he
          exact hnew hended
      · intro g' w' user' he hu'
        have he' := hold (by simp) (by simp) he
        have hsome' : s.userId = some user' := hu'
        by_cases hg : g' = g
        · subst hg
          -- the one entry of the generation is the one just billed
          have hw := h.unique g' w' owner (h.ended g' w' (.inl he')) hopened
          rw [hu] at hsome'
          cases hsome'
          subst hw
          exact .inr (.inl (hmem.mpr (.inr rfl)))
        · rcases h.waits g' w' user' he' hsome' with hc | hb | hd
          · refine .inl ?_
            show Function.update s.closing g none g' = _
            rw [Function.update_of_ne hg]
            exact hc
          · exact .inr (.inl (hnew hb))
          · exact .inr (.inr hd)

/-! ## Every step -/

/-- A session that is given up is on no worker, or already opened again. -/
theorem givesUp_moves {r n : Session K V} {a : Edits.Action K V} (h : Turn r top)
    (hup : givesUp r a = true) (hstep : Edits.step seed r a = some n) :
    n.worker = none ∨ top < n.controlGeneration := by
  have hmoves : Moves top r.detach n → n.worker = none ∨ top < n.controlGeneration := by
    intro hm
    rcases hm.worker with hw | ⟨hw, _⟩ | hg
    · exact .inl hw
    · exact .inl hw
    · exact .inr hg
  apply hmoves
  cases a with
  | openFails t choice =>
    simp only [Edits.step] at hstep
    split at hstep
    · rename_i caller attempt ht
      rcases h.at ht (by simp) with ⟨hrun, hstarted, hheld, _⟩
      split at hstep
      · obtain rfl := Option.some.inj hstep
        have hcleared : Same r ({ r with attemptId := none } : Session K V) :=
          (by constructor <;> rfl)
        exact giveUp_turn (hcleared.runs hrun) hstarted hheld _
      · obtain rfl := Option.some.inj hstep
        exact giveUp_turn hrun hstarted hheld _
      · cases hstep
    · cases hstep
  | timesOut t choice =>
    simp only [Edits.step] at hstep
    split at hstep
    · rename_i caller attempt ht
      rcases h.at ht (by simp) with ⟨hrun, hstarted, hheld, _⟩
      split at hstep
      · obtain rfl := Option.some.inj hstep
        exact giveUp_turn hrun hstarted hheld _
      · cases hstep
    · cases hstep
  | wakes t choice =>
    simp only [Edits.step] at hstep
    split at hstep
    · rename_i caller attempt ht
      rcases h.at ht (by simp) with ⟨hrun, hstarted, hheld, _⟩
      split at hstep
      · obtain rfl := Option.some.inj hstep
        have hno : r.controlGeneration = attempt.started ∧ r.worker = some attempt.worker ∧
            r.attemptOk = false := by simpa [givesUp, ht] using hup
        unfold Session.woken
        rw [if_neg (not_not_intro hno.1), if_neg (by simp [hno.2.2])]
        exact giveUp_turn hrun hstarted hheld _
      · cases hstep
    · cases hstep
  | abandoned t choice =>
    simp only [Edits.step] at hstep
    split at hstep
    · rename_i caller attempt ht
      rcases h.at ht (by simp) with ⟨hrun, hstarted, hheld, _⟩
      have hno : attempt.phase = .withdrawing ∧ r.worker = some attempt.worker := by
        simpa [givesUp, ht] using hup
      rw [hno.1] at hstep
      dsimp only at hstep
      rw [if_pos hno.2] at hstep
      obtain rfl := Option.some.inj hstep
      exact assigned_turn hrun.detach hstarted (fun _ _ => rfl) (.inl rfl)
    · cases hstep
  | _ => simp [givesUp] at hup

theorem Books.settle {a : Edits.Action K V} {n : Session K V} (h : Books s)
    (hok : Undisturbed s.session seed a) (hstep : Edits.step seed s.session a = some n) :
    Books (s.settle a n) := by
  rcases h.kept with ⟨top, hturn, hledger⟩
  have hmoves := step_turn hturn hok hstep
  -- what the step writes as the session leaves its worker
  have hleave : Ledger (s.leave a n) top := by
    unfold Billing.leave
    split
    · rename_i w hw
      have hheld := h.held w hw
      split
      · split
        · exact hledger.record_gaveUp hheld.1
        · split
          · exact hledger.record_ended hheld.1 fun w' => (hheld.2 w').1
          · exact hledger
      · exact hledger
    · exact hledger
  have hsession : ∀ {left : Billing K V} {top' : Nat}, Ledger left top' →
      Ledger ({ left with session := n } : Billing K V) top' := fun hl =>
    hl.of_eq rfl rfl (fun _ hd => hd) rfl (fun _ _ hc => hc) fun _ _ hc => .inl hc
  cases hw : n.worker with
  | none =>
    have hopens : s.opens n = [] := by
      unfold Billing.opens
      rw [hw]
    have hnew : newest n top = top := by
      unfold newest
      rw [hw]
      rfl
    have hfull : Ledger (s.settle a n) top := by
      unfold Billing.settle
      dsimp only
      rw [hopens, List.append_nil]
      exact hsession hleave
    refine ⟨⟨top, by rw [← hnew]; exact hmoves.turn, hfull⟩, ?_⟩
    intro w hw'
    have hsame : n.worker = some w := hw'
    rw [hw] at hsame
    cases hsame
  | some w =>
    have hnew : newest n top = n.controlGeneration := by
      unfold newest
      rw [hw]
      rfl
    by_cases hsame : s.session.worker = some w ∧
        n.controlGeneration = s.session.controlGeneration
    · -- the session stays on its worker
      have htop := hturn.row.held w hsame.1
      have hstay : s.leave a n = s := by
        unfold Billing.leave
        rw [hsame.1]
        dsimp only
        split
        · split
          · rename_i hup
            rcases givesUp_moves hturn hup hstep with hnone | hlt
            · rw [hw] at hnone
              cases hnone
            · omega
          · rw [if_neg (by simp [hw])]
        · rfl
      have hopens : s.opens n = [] := by
        unfold Billing.opens
        rw [hw]
        exact if_pos hsame
      have hsettle : s.settle a n = { s with session := n } := by
        unfold Billing.settle
        dsimp only
        rw [hopens, hstay, List.append_nil]
      rw [hsettle]
      refine ⟨⟨top, ?_, hsession hledger⟩, ?_⟩
      · have heq : newest n top = top := by
          rw [hnew]
          omega
        have hturn' := hmoves.turn
        rwa [heq] at hturn'
      · intro w' hw'
        have hsome : n.worker = some w' := hw'
        rw [hw] at hsome
        cases hsome
        show .opened n.controlGeneration w ∈ s.log ∧ _
        rw [hsame.2]
        exact h.held w hsame.1
    · have hfresh : top < n.controlGeneration := by
        rcases hmoves.worker with hnone | hkeep | hlt
        · rw [hw] at hnone
          cases hnone
        · exact absurd ⟨hkeep.1.symm.trans hw, hkeep.2⟩ hsame
        · exact hlt
      have hopens : s.opens n = [.opened n.controlGeneration w] := by
        unfold Billing.opens
        rw [hw]
        exact if_neg hsame
      have hsettle : s.settle a n =
          { (s.leave a n).record (.opened n.controlGeneration w) with session := n } := by
        unfold Billing.settle Billing.record
        rw [hopens]
      rw [hsettle]
      refine ⟨⟨n.controlGeneration, ?_, hsession (hleave.record_opened hfresh)⟩, ?_⟩
      · have hturn' := hmoves.turn
        rwa [hnew] at hturn'
      · intro w' hw'
        have hsome : n.worker = some w' := hw'
        rw [hw] at hsome
        cases hsome
        refine ⟨mem_record.mpr (.inr rfl), ?_⟩
        intro w'
        constructor
        · intro he
          have hend := (mem_record.mp he).resolve_right (by simp)
          have hle : n.controlGeneration ≤ top := hleave.le _ _ (hleave.ended _ _ (.inl hend))
          omega
        · intro he
          have hend := (mem_record.mp he).resolve_right (by simp)
          have hle : n.controlGeneration ≤ top := hleave.le _ _ (hleave.ended _ _ (.inr hend))
          omega

theorem Books.report {g w : Nat} (h : Books s) (hdeaf : s.deaf w = false)
    (hkept : s.userId ≠ none → .gaveUp g w ∉ s.log) : Books (s.report w g) := by
  rcases h.kept with ⟨top, hturn, hledger⟩
  have hsession : (s.report w g).session = s.session := by
    unfold Billing.report
    dsimp only
    split
    · split <;> rfl
    · rfl
  have hmem : ∀ {e : Entry}, (∀ user model, e ≠ .billed g user model w) → e ≠ .reported g w →
      (e ∈ (s.report w g).log ↔ e ∈ s.log) := by
    intro e hb hr
    unfold Billing.report
    dsimp only
    split
    · rename_i user model owner _
      split
      · rw [mem_record]
        simp only [hb user model, or_false]
        exact mem_record.trans (by simp [hr])
      · exact mem_record.trans (by simp [hr])
    · exact mem_record.trans (by simp [hr])
  refine ⟨⟨top, by rw [hsession]; exact hturn, hledger.report hdeaf hkept⟩, ?_⟩
  intro w' hw'
  rw [hsession] at hw' ⊢
  have hheld := h.held w' hw'
  refine ⟨(hmem (by simp) (by simp)).mpr hheld.1, fun w'' => ⟨?_, ?_⟩⟩
  · intro he
    exact (hheld.2 w'').1 ((hmem (by simp) (by simp)).mp he)
  · intro he
    exact (hheld.2 w'').2 ((hmem (by simp) (by simp)).mp he)

theorem step_books {a : Action K V} (h : Books s) (hok : InTurn s seed a)
    (hstep : step seed s a = some t) : Books t := by
  rcases h.kept with ⟨top, hturn, hledger⟩
  cases a with
  | session a =>
    simp only [step] at hstep
    rw [Option.map_eq_some_iff] at hstep
    rcases hstep with ⟨n, hn, rfl⟩
    exact h.settle hok hn
  | deafens w =>
    obtain rfl := Option.some.inj hstep
    refine ⟨⟨top, hturn, hledger.of_eq rfl rfl ?_ rfl (fun _ _ hc => hc) fun _ _ hc => .inl hc⟩,
      h.held⟩
    intro w' hd
    show Function.update s.deaf w true w' = true
    by_cases hw : w' = w
    · subst hw
      exact Function.update_self _ _ _
    · rw [Function.update_of_ne hw]
      exact hd
  | drops w =>
    simp only [step] at hstep
    split at hstep
    · rename_i hgone
      obtain rfl := Option.some.inj hstep
      refine ⟨⟨top, hturn, hledger.of_eq rfl rfl (fun _ hd => hd) rfl ?_ ?_⟩, h.held⟩
      · intro g owner hc
        exact (Option.filter_eq_some_iff.mp hc).1
      · intro g owner hc
        by_cases hw : owner.2.2 = w
        · right
          rw [hw]
          exact hgone.1
        · left
          show (s.closing g).filter _ = some owner
          rw [Option.filter_eq_some_iff]
          exact ⟨hc, by simpa using hw⟩
    · cases hstep
  | sessionClosed w generation accepted =>
    simp only [step] at hstep
    split at hstep
    · cases hstep
    · rename_i hdeaf
      split at hstep
      · rename_i haccepted
        obtain rfl := Option.some.inj hstep
        exact h.report (by simpa using hdeaf) (hok haccepted)
      · obtain rfl := Option.some.inj hstep
        exact h

theorem started_books (params : Dict K V) (userId : Option Nat) (modelId : String) :
    Books (started params userId modelId) := by
  have hnil : ∀ e : Entry, e ∉ (started params userId modelId).log := fun e he => (by cases he)
  refine ⟨⟨0, opened_turn params, ?_⟩, fun w hw => (by cases hw)⟩
  refine ⟨fun g w he => absurd he (hnil _), fun g w w' he => absurd he (hnil _), ?_, ?_,
    fun g user model w he => absurd he (hnil _), fun g w user he => absurd he (hnil _), ?_⟩
  · rintro g w (he | he)
    · exact absurd he (hnil _)
    · exact absurd he (hnil _)
  · intro g user model w hc
    cases hc
  · refine ⟨fun g => Nat.zero_le _, ?_, fun g user model w he => absurd he (hnil _), ?_⟩
    · intro before after g user model w heq
      have hmem : Entry.billed g user model w ∈ (started params userId modelId).log := by
        rw [heq]
        simp
      exact absurd hmem (hnil _)
    · intro before after g w user heq
      have hmem : Entry.reported g w ∈ (started params userId modelId).log := by
        rw [heq]
        simp
      exact absurd hmem (hnil _)

/-- In every run whose placements take turns and in which no given-up attempt is
reported, usage is settled once. -/
theorem usage_settled (h : (machine seed).Reach (fun s => InTurn s seed) s) : SettledOnce s := by
  have hbooks : Books s := by
    refine h.invariant (I := Books) ?_ fun s a t hinv hok hstep => step_books hinv hok hstep
    rintro s ⟨params, userId, modelId, rfl⟩
    exact started_books params userId modelId
  rcases hbooks.kept with ⟨top, _, hledger⟩
  exact hledger.good

section Sample

/-- A protocol 4 worker, and the session's open to it. -/
def sampleOpened : List (Action Nat Nat) :=
  [.session (.registers ⟨4, true, true, true, false⟩), .session (.starts 0 (some 0)),
    .session (.openSent 0)]

/-- The worker answers, and the browser leaves. -/
def sampleLeft : List (Action Nat Nat) :=
  sampleOpened ++ [.session (.sessionReady 0 1), .session (.wakes 0 none), .session .leaves]

/-- The closed session is reported twice. -/
def sampleClosed : List (Action Nat Nat) :=
  sampleLeft ++ [.sessionClosed 0 1 true, .sessionClosed 0 1 true]

/-- The worker's answer is late, and it reports what its runner did. -/
def sampleLate : List (Action Nat Nat) :=
  sampleOpened ++ [.session (.timesOut 0 none), .sessionClosed 0 1 true]

def sampleStarted : Billing Nat Nat := started (fun _ => none) (some 7) "model"

/-- Where a schedule ends. -/
def sampleAfter (schedule : List (Action Nat Nat)) : Billing Nat Nat :=
  ((machine 0).run sampleStarted schedule).getD sampleStarted

/-- An attempt that timed out on a connected worker is reported, and nobody is billed. -/
theorem late_attempt_unbilled :
    ¬ ∀ s : Billing Nat Nat, (machine 0).Reach Machine.anyStep s → SettledOnce s := by
  intro hall
  have hrun : (machine 0).run sampleStarted sampleLate = some (sampleAfter sampleLate) := rfl
  have hreach : (machine 0).Reach Machine.anyStep (sampleAfter sampleLate) :=
    ⟨sampleStarted, ⟨_, _, _, rfl⟩, Machine.path_of_run_any hrun⟩
  have hlog : (sampleAfter sampleLate).log =
      [.opened 1 0, .gaveUp 1 0, .reported 1 0] := rfl
  have hbilled := (hall _ hreach).settled [.opened 1 0, .gaveUp 1 0] [] 1 0 7 hlog
    (.inr (by simp)) rfl
  rw [hlog] at hbilled
  simp at hbilled

/-- The repeated report of the closed session bills nothing more. -/
theorem usage_settled_sample : SettledOnce (sampleAfter sampleClosed) ∧
    (sampleAfter sampleClosed).log =
      [.opened 1 0, .ended 1 0, .reported 1 0, .billed 1 7 "model" 0, .reported 1 0] := by
  have hleft : (machine 0).run sampleStarted sampleLeft = some (sampleAfter sampleLeft) := rfl
  have hturns : (machine 0).RunOk (fun s => InTurn s 0) sampleStarted sampleLeft :=
    ⟨trivial, fun _ _ => ⟨trivial, fun _ _ => ⟨trivial, fun _ _ => ⟨trivial, fun _ _ =>
      ⟨trivial, fun _ _ => ⟨trivial, fun _ _ => trivial⟩⟩⟩⟩⟩⟩
  have hpath := Machine.path_of_run hleft hturns
  have hfirst : (machine 0).Path (fun s => InTurn s 0) sampleStarted
      ((sampleAfter sampleLeft).report 0 1) :=
    .tail hpath (l := .sessionClosed 0 1 true) (fun _ _ => by decide) rfl
  have hsecond : (machine 0).Path (fun s => InTurn s 0) sampleStarted (sampleAfter sampleClosed) :=
    .tail hfirst (l := .sessionClosed 0 1 true) (fun _ _ => by decide) rfl
  exact ⟨usage_settled ⟨sampleStarted, ⟨_, _, _, rfl⟩, hsecond⟩, rfl⟩

end Sample

end Potocolom.Settlement
