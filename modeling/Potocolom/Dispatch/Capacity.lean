import Potocolom.Dispatch.Steps

/-! # Dispatch capacity

The count of a connected worker's jobs is the number of its entries in `inflight`, unless an
entry is published over one that a connected worker still holds, or a dispatch that gives up
pops an entry that is not its own. A dispatch stays within the depth unless a re-delivered
command takes the slot that it was picked for. -/

namespace Potocolom.Dispatch

/-- What the counts and the table depend on. -/
structure Books where
  workers : Nat → Option Worker
  registered : List Nat
  inflight : Ordered Nat Entry
  idents : Nat
  tracking : Nat → Option Tracking
  tasks : List Task

def World.books (s : World) : Books :=
  ⟨s.workers, s.registered, s.inflight, s.idents, s.tracking, s.tasks⟩

namespace Books

variable (b : Books)

/-- The number of entries whose worker is `w`. -/
def held (w : Nat) : Nat := b.inflight.tally fun e => decide (e.worker = w)

/-- The worker can still be given the job that it was picked for. -/
def Room (w : Nat) : Prop := ∃ k, b.workers w = some k ∧ k.jobsInFlight < fullDispatchDepth

/-- The entry of a dispatch that has not sent it yet. -/
structure Own (j : Nat) (e : Entry) : Prop where
  known : (b.workers e.worker).isSome
  current : e.worker ∈ b.registered → b.inflight.get j = some e
  untold : ∀ t ∈ b.tasks, t.current ≠ e

/-- What the stage of the dispatch relies on. -/
def Reserved : Phase → Prop
  | .dispatching _ _ (.targets w) | .dispatching _ _ (.waiting w)
  | .dispatching _ _ (.targeting w _ _) => b.Room w
  | .dispatching h _ (.fetching e) => b.Own h.job e
  | _ => True

/-- Every connected worker's count is the number of its entries. -/
structure Balanced : Prop where
  count : ∀ w k, b.workers w = some k → w ∈ b.registered → k.jobsInFlight = b.held w
  known : ∀ j e, b.inflight.get j = some e → (b.workers e.worker).isSome
  tracking : ∀ w t, b.tracking w = some t → (b.workers w).isSome
  fresh : ∀ j e, b.inflight.get j = some e → e.ident < b.idents
  taskFresh : ∀ t ∈ b.tasks, t.current.ident < b.idents

end Books

/-- What holds between two steps. -/
structure Ledger (s : World) : Prop where
  balanced : s.books.Balanced
  reserved : s.books.Reserved s.phase

/-- The books change, the stage of the dispatch does not. -/
theorem Books.Reserved.mono {b c : Books} {p : Phase} (hb : b.Reserved p)
    (hroom : ∀ w, p.picked = some w → b.Room w → c.Room w)
    (hown : ∀ h sk e, p = .dispatching h sk (.fetching e) → b.Own h.job e → c.Own h.job e) :
    c.Reserved p := by
  unfold Books.Reserved at hb ⊢
  split
  · exact hroom _ rfl hb
  · exact hroom _ rfl hb
  · exact hroom _ rfl hb
  · exact hown _ _ _ rfl hb
  · trivial

/-! ## Operations on the books -/

section Operations

variable {s : World} {p : Phase} {j w : Nat} {e current : Entry} {f : Worker → Worker}

theorem World.setWorker_workers (s : World) (w v : Nat) (f : Worker → Worker) :
    (s.setWorker w f).workers v = if v = w then (s.workers w).map f else s.workers v := by
  by_cases h : v = w
  · subst h
    simp [World.setWorker]
  · simp [World.setWorker, h]

theorem World.isSome_setWorker (v : Nat) :
    ((s.setWorker w f).workers v).isSome = (s.workers v).isSome := by
  rw [World.setWorker_workers]
  split <;> simp [*]

/-- A record that leaves every count alone leaves the books balanced. -/
theorem Books.Balanced.setWorker (h : s.books.Balanced)
    (hf : ∀ k, (f k).jobsInFlight = k.jobsInFlight) : (s.setWorker w f).books.Balanced where
  count v k hk hv := by
    have hk' : (s.setWorker w f).workers v = some k := hk
    rw [World.setWorker_workers] at hk'
    by_cases hvw : v = w
    · subst hvw
      rw [if_pos rfl, Option.map_eq_some_iff] at hk'
      obtain ⟨k₀, hk₀, rfl⟩ := hk'
      rw [hf]
      exact h.count v k₀ hk₀ hv
    · rw [if_neg hvw] at hk'
      exact h.count v k hk' hv
  known j e he := by
    have := h.known j e he
    exact (World.isSome_setWorker e.worker).trans this
  tracking v t ht := (World.isSome_setWorker v).trans (h.tracking v t ht)
  fresh := h.fresh
  taskFresh := h.taskFresh

theorem Books.Reserved.setWorker (h : s.books.Reserved p)
    (hf : ∀ k, (f k).jobsInFlight ≤ k.jobsInFlight) : (s.setWorker w f).books.Reserved p := by
  have hroom : ∀ v, s.books.Room v → (s.setWorker w f).books.Room v := by
    rintro v ⟨k, hk, hlt⟩
    have hk : s.workers v = some k := hk
    by_cases hvw : v = w
    · subst hvw
      refine ⟨f k, ?_, (hf k).trans_lt hlt⟩
      change (s.setWorker v f).workers v = some (f k)
      rw [World.setWorker_workers, if_pos rfl, hk, Option.map_some]
    · refine ⟨k, ?_, hlt⟩
      change (s.setWorker w f).workers v = some k
      rw [World.setWorker_workers, if_neg hvw, hk]
  refine h.mono (fun v _ hv => hroom v hv) fun i sk e _ hown => ?_
  exact ⟨(World.isSome_setWorker _).trans hown.known, hown.current, hown.untold⟩

/-- The pop of an entry together with the release of its worker's slot. -/
theorem Books.Balanced.untrack (h : s.books.Balanced) (he : s.inflight.get j = some e) :
    (s.untrack j e.worker).books.Balanced where
  count v k hk hv := by
    have hk' : (s.untrack j e.worker).workers v = some k := hk
    have htally := Ordered.tally_erase (p := fun e => decide (e.worker = v)) he
    rw [World.untrack, World.releaseJobSlot, World.setWorker_workers] at hk'
    by_cases hvw : v = e.worker
    · subst hvw
      rw [if_pos rfl, Option.map_eq_some_iff] at hk'
      obtain ⟨k₀, hk₀, rfl⟩ := hk'
      have hcount : k₀.jobsInFlight = s.inflight.tally _ := h.count _ k₀ hk₀ hv
      have hsame : decide (e.worker = e.worker) = true := by simp
      rw [if_pos hsame] at htally
      change k₀.jobsInFlight - 1 = (s.inflight.erase j).tally _
      omega
    · rw [if_neg hvw] at hk'
      have hcount : k.jobsInFlight = s.inflight.tally _ := h.count v k hk' hv
      have hother : ¬ (decide (e.worker = v) = true) := by
        rw [decide_eq_true_iff]
        exact fun heq => hvw heq.symm
      rw [if_neg hother] at htally
      change k.jobsInFlight = (s.inflight.erase j).tally _
      omega
  known i e' he' := by
    have he' : (s.inflight.erase j).get i = some e' := he'
    rw [Ordered.get_erase] at he'
    split at he'
    · cases he'
    · exact (World.isSome_setWorker _).trans (h.known i e' he')
  tracking v t ht := (World.isSome_setWorker v).trans (h.tracking v t ht)
  fresh i e' he' := by
    have he' : (s.inflight.erase j).get i = some e' := he'
    rw [Ordered.get_erase] at he'
    split at he'
    · cases he'
    · exact h.fresh i e' he'
  taskFresh := h.taskFresh

/-- The dispatch that has not sent its entry keeps it when another entry is popped. -/
theorem Books.Reserved.untrack (h : s.books.Reserved p) (he : s.inflight.get j = some e)
    (hother : ∀ i sk e', p = .dispatching i sk (.fetching e') → e' ≠ e) :
    (s.untrack j e.worker).books.Reserved p := by
  have hreserved : Books.Reserved { s.books with inflight := s.inflight.erase j } p := by
    refine h.mono (fun _ _ hroom => hroom) fun i sk e' hphase hown => ?_
    refine ⟨hown.known, fun hreg => ?_, hown.untold⟩
    have hcurrent : s.inflight.get i.job = some e' := hown.current hreg
    have hij : i.job ≠ j := by
      intro hij
      rw [hij, he] at hcurrent
      exact hother i sk e' hphase (Option.some.inj hcurrent).symm
    exact (Ordered.get_erase_of_ne hij).trans hcurrent
  exact Books.Reserved.setWorker (s := { s with inflight := s.inflight.erase j }) hreserved
    fun k => Nat.sub_le _ _

/-- A new entry, where no connected worker holds one of the job. -/
theorem Books.Balanced.track (h : s.books.Balanced) (hw : (s.workers w).isSome)
    (hvacant : ∀ e, s.inflight.get j = some e → e.worker ∉ s.registered) (attempt : Nat)
    (dispatchSequence : Option Nat) :
    (s.track j w attempt dispatchSequence).books.Balanced where
  count v k hk hv := by
    have hk' : (s.track j w attempt dispatchSequence).workers v = some k := hk
    -- an entry it replaces is none of this worker's
    have htally : (s.inflight.put j ⟨s.idents, w, attempt, dispatchSequence⟩).tally
        (fun e => decide (e.worker = v)) =
        s.inflight.tally (fun e => decide (e.worker = v)) + if w = v then 1 else 0 := by
      rcases hget : s.inflight.get j with _ | e
      · rw [Ordered.tally_put hget]
        simp
      · have hne : ¬ (decide (e.worker = v) = true) := by
          rw [decide_eq_true_iff]
          rintro rfl
          exact hvacant e hget hv
        have hput := Ordered.tally_put_of_get (p := fun e : Entry => decide (e.worker = v))
          (v := ⟨s.idents, w, attempt, dispatchSequence⟩) hget
        rw [if_neg hne] at hput
        simpa using hput
    rw [World.track, World.takeJobSlot, World.setWorker_workers] at hk'
    by_cases hvw : v = w
    · subst hvw
      rw [if_pos rfl, Option.map_eq_some_iff] at hk'
      obtain ⟨k₀, hk₀, rfl⟩ := hk'
      have hcount : k₀.jobsInFlight = s.inflight.tally _ := h.count _ k₀ hk₀ hv
      rw [if_pos rfl] at htally
      exact (congrArg (· + 1) hcount).trans htally.symm
    · rw [if_neg hvw] at hk'
      have hcount : k.jobsInFlight = s.inflight.tally _ := h.count v k hk' hv
      rw [if_neg (Ne.symm hvw)] at htally
      exact hcount.trans htally.symm
  known i e he := by
    have he : (s.inflight.put j _).get i = some e := he
    rw [Ordered.get_put] at he
    refine (World.isSome_setWorker _).trans ?_
    split at he
    · obtain rfl := Option.some.inj he
      exact hw
    · exact h.known i e he
  tracking v t ht := (World.isSome_setWorker v).trans (h.tracking v t ht)
  fresh i e he := by
    have he : (s.inflight.put j _).get i = some e := he
    rw [Ordered.get_put] at he
    split at he
    · obtain rfl := Option.some.inj he
      exact Nat.lt_succ_self _
    · exact Nat.lt_succ_of_lt (h.fresh i e he)
  taskFresh t ht := Nat.lt_succ_of_lt (h.taskFresh t ht)

theorem Books.Balanced.clearIfCurrent (h : s.books.Balanced) :
    (s.clearIfCurrent j current).books.Balanced := by
  unfold World.clearIfCurrent
  split
  · next he => exact h.untrack he
  · exact h

theorem Books.Reserved.clearIfCurrent (h : s.books.Reserved p)
    (hother : ∀ i sk e, p = .dispatching i sk (.fetching e) → e ≠ current) :
    (s.clearIfCurrent j current).books.Reserved p := by
  unfold World.clearIfCurrent
  split
  · next he => exact h.untrack he hother
  · exact h

theorem World.clearIfCurrent_phase : (s.clearIfCurrent j current).phase = s.phase := by
  unfold World.clearIfCurrent
  split <;> rfl

/-- Handling fewer reports. -/
theorem Books.Balanced.ofTasks (h : s.books.Balanced) {tasks : List Task}
    (hsub : ∀ t ∈ tasks, ∃ u ∈ s.tasks, t.current = u.current) :
    Books.Balanced { s.books with tasks := tasks } where
  count := h.count
  known := h.known
  tracking := h.tracking
  fresh := h.fresh
  taskFresh t ht := by
    obtain ⟨u, hu, heq⟩ := hsub t ht
    rw [heq]
    exact h.taskFresh u hu

theorem Books.Reserved.ofTasks (h : s.books.Reserved p) {tasks : List Task}
    (hsub : ∀ t ∈ tasks, ∃ u ∈ s.tasks, t.current = u.current) :
    Books.Reserved { s.books with tasks := tasks } p := by
  refine h.mono (fun _ _ hroom => hroom) fun i sk e _ hown => ?_
  refine ⟨hown.known, hown.current, fun t ht => ?_⟩
  obtain ⟨u, hu, heq⟩ := hsub t ht
  rw [heq]
  exact hown.untold u hu

end Operations

/-! ## The dispatch loop -/

section Loop

variable {s t : World} {h : Hint} {skipped : List Hint} {w : Nat}

theorem Ledger.quiet (hb : t.books.Balanced) (hp : ∀ b : Books, b.Reserved t.phase) : Ledger t :=
  ⟨hb, hp _⟩

theorem Books.Balanced.endStep (hb : s.books.Balanced) : Ledger (s.endStep skipped) :=
  .quiet hb fun _ => trivial

theorem Books.Balanced.dispatched (hb : s.books.Balanced) (taken : Bool) :
    Ledger (s.dispatched h skipped taken) :=
  .quiet hb fun _ => trivial

theorem Books.Balanced.dispatchRaised (hb : s.books.Balanced) :
    Ledger (s.dispatchRaised h skipped) := by
  unfold World.dispatchRaised
  split
  · exact hb.endStep
  · exact Books.Balanced.endStep (s := s.pushHint h) hb

theorem Books.Balanced.requeued (hb : s.books.Balanced) (caller : Caller) :
    Ledger (s.requeued caller) := by
  cases caller with
  | lost left => exact .quiet hb fun _ => trivial
  | stalled keys => exact .quiet hb fun _ => trivial

theorem Books.Balanced.requeueRaised (hb : s.books.Balanced) (caller : Caller) (j : Nat) :
    Ledger (s.requeueRaised caller j) := by
  cases caller with
  | lost left => exact .quiet hb fun _ => trivial
  | stalled keys => exact .quiet hb fun _ => trivial

/-- A transaction on a row leaves the books alone. -/
theorem Ledger.commit {a : Answer} {j : Nat} {row : Row} {landed raised : World → World}
    (hlanded : ∀ t : World, t.books = s.books → Ledger (landed t))
    (hraised : ∀ t : World, t.books = s.books → Ledger (raised t)) :
    Ledger (s.commit a j row landed raised) := by
  cases a with
  | landed => exact hlanded _ rfl
  | inDoubt => exact hraised _ rfl
  | raised => exact hraised _ rfl

theorem World.mem_of_pickJobWorker {modelId : Nat} (hpick : s.pickJobWorker modelId = some w) :
    w ∈ s.registered ∧ ∃ k, s.workers w = some k ∧ k.hasRoom = true := by
  have hmem : w ∈ s.candidates modelId := List.argmin_mem hpick
  rw [World.candidates, List.mem_filter] at hmem
  obtain ⟨hreg, hany⟩ := hmem
  rw [Option.any_eq_true_iff_get] at hany
  obtain ⟨hsome, hroom⟩ := hany
  rw [Bool.and_eq_true] at hroom
  exact ⟨hreg, _, (Option.some_get hsome).symm, hroom.1⟩

/-- A worker is picked below its depth. -/
theorem World.room_of_pickJobWorker {modelId : Nat} (hpick : s.pickJobWorker modelId = some w) :
    s.books.Room w := by
  obtain ⟨-, k, hk, hroom⟩ := World.mem_of_pickJobWorker hpick
  rw [Worker.hasRoom, Bool.and_eq_true, decide_eq_true_iff] at hroom
  exact ⟨k, hk, hroom.2.trans_le k.jobDispatchDepth_le⟩

theorem Books.Room.isSome (hroom : s.books.Room w) : (s.workers w).isSome := by
  obtain ⟨k, hk, -⟩ := hroom
  exact Option.isSome_iff_exists.mpr ⟨k, hk⟩

theorem Ledger.begins (hl : Ledger s) (hstep : s.begins = some t) : Ledger t := by
  unfold World.begins at hstep
  split at hstep
  · cases hstep
    exact .quiet hl.balanced fun _ => trivial
  · cases hstep

theorem Ledger.recovers (hl : Ledger s) (hstep : s.recovers = some t) : Ledger t := by
  unfold World.recovers at hstep
  split at hstep
  · cases hstep
    exact .quiet hl.balanced fun _ => trivial
  · split at hstep
    · cases hstep
    · cases hstep
      exact .quiet hl.balanced fun _ => trivial
  · cases hstep

theorem Ledger.requeues {a : Answer} (hl : Ledger s) (hstep : s.requeues a = some t) :
    Ledger t := by
  have hb := hl.balanced
  unfold World.requeues at hstep
  split at hstep
  · next caller j _ =>
    split at hstep
    · cases hstep
      exact hb.requeueRaised caller j
    split at hstep
    · split at hstep
      · cases hstep
        exact hb.requeued caller
      · next row _ =>
        split at hstep
        · cases hstep
          exact hb.requeued caller
        split at hstep
        · cases hstep
          exact Books.Balanced.requeued (s := s.pushHint ⟨row.createdAt, j⟩) hb caller
        split at hstep
        · cases hstep
          refine Ledger.commit (fun u hu => ?_) fun u hu => ?_
          · exact Books.Balanced.requeued (s := u.pushHint ⟨row.createdAt, j⟩) (hu ▸ hb) caller
          · exact Books.Balanced.requeueRaised (hu ▸ hb) caller j
        · cases hstep
          exact .quiet hb fun _ => trivial
    · cases hstep
  · next caller j _ =>
    split at hstep
    · cases hstep
      exact hb.requeueRaised caller j
    split at hstep
    · split at hstep
      · cases hstep
        exact hb.requeued caller
      · split at hstep
        · cases hstep
          exact hb.requeued caller
        · cases hstep
          refine Ledger.commit (fun u hu => ?_) fun u hu => ?_
          · exact .quiet (by exact hu ▸ hb) fun _ => trivial
          · exact Books.Balanced.requeueRaised (hu ▸ hb) caller j
    · cases hstep
  · next caller j _ =>
    split at hstep
    · cases hstep
      exact hb.requeued caller
    · cases hstep
      exact hb.requeueRaised caller j
  · cases hstep

/-- An entry that is not stalled goes back to the table. -/
theorem Books.Balanced.putBack {j : Nat} {e : Entry} (hb : s.books.Balanced)
    (he : s.inflight.get j = some e) :
    Books.Balanced { s.books with inflight := (s.inflight.erase j).put j e } := by
  have hget : ∀ i, ((s.inflight.erase j).put j e).get i = s.inflight.get i := by
    intro i
    rw [Ordered.get_put, Ordered.get_erase]
    split
    · next hij => rw [hij, he]
    · rfl
  refine ⟨fun v k hk hv => ?_, fun i e' he' => ?_, hb.tracking, fun i e' he' => ?_, hb.taskFresh⟩
  · rw [hb.count v k hk hv]
    change s.inflight.tally _ = ((s.inflight.erase j).put j e).tally _
    rw [Ordered.tally_put (Ordered.get_erase_self), ← Ordered.tally_erase he]
  · exact hb.known i e' ((hget i).symm.trans he')
  · exact hb.fresh i e' ((hget i).symm.trans he')

theorem Ledger.sweeps {stalled : Bool} (hl : Ledger s) (hstep : s.sweeps stalled = some t) :
    Ledger t := by
  unfold World.sweeps at hstep
  split at hstep
  · cases hstep
    exact .quiet hl.balanced fun _ => trivial
  · next j keys _ =>
    split at hstep
    · cases hstep
      exact .quiet hl.balanced fun _ => trivial
    · next e he =>
      split at hstep
      · cases hstep
        exact .quiet (hl.balanced.untrack he) fun _ => trivial
      · cases hstep
        exact .quiet (hl.balanced.putBack he) fun _ => trivial
  · cases hstep

theorem Ledger.scans (hl : Ledger s) (hstep : s.scans = some t) : Ledger t := by
  unfold World.scans at hstep
  split at hstep
  · split at hstep
    · split at hstep
      · cases hstep
        exact hl.balanced.endStep
      · cases hstep
        exact .quiet hl.balanced fun _ => trivial
    · cases hstep
      exact hl.balanced.endStep
  · cases hstep

theorem Ledger.asks {answered : Bool} (hl : Ledger s) (hstep : s.asks answered = some t) :
    Ledger t := by
  have hb := hl.balanced
  unfold World.asks at hstep
  split at hstep
  · split at hstep
    · split at hstep
      · cases hstep
        exact hb.dispatched true
      · split at hstep
        · cases hstep
          exact hb.dispatched false
        · next hpick =>
          split at hstep
          · cases hstep
            exact ⟨hb, World.room_of_pickJobWorker hpick⟩
          · cases hstep
            exact .quiet hb fun _ => trivial
    · cases hstep
      exact hb.dispatchRaised
  · cases hstep

theorem Ledger.locks {answered : Bool} (hl : Ledger s) (hstep : s.locks answered = some t) :
    Ledger t := by
  have hb := hl.balanced
  unfold World.locks at hstep
  split at hstep
  · split at hstep
    · split at hstep
      · split at hstep
        · cases hstep
          exact hb.dispatched true
        · split at hstep
          · split at hstep
            · cases hstep
              exact hb.dispatched false
            · next hpick =>
              cases hstep
              exact ⟨hb, World.room_of_pickJobWorker hpick⟩
          · cases hstep
            exact hb.dispatched true
      · cases hstep
    · cases hstep
      exact hb.dispatchRaised
  · cases hstep

end Loop

/-! ## The condition -/

/-- The job and the entry of a dispatch that may still give up. -/
def Phase.givesUp : Phase → Option (Nat × Entry)
  | .dispatching h _ (.fetching e) | .dispatching h _ (.sending e) => some (h.job, e)
  | _ => none

/-- No connected worker holds an entry of the job. -/
def World.Vacant (s : World) (j : Nat) : Prop :=
  ∀ e, s.inflight.get j = some e → e.worker ∉ s.registered

/-- The worker's delivery is about to register an entry for a command that it re-delivers. -/
def World.Redelivers (s : World) (w : Nat) : Prop :=
  ∃ c attempt, s.tracking w = some (.judging c attempt) ∧ s.inflight.get c.job = none

/-- An entry is published where no connected worker holds one of the job; a dispatch that
gives up pops no entry of another connected worker; a re-delivered command leaves room for the
job that its worker was picked for. -/
def CapacityKept (s : World) : Label → Prop
  | .publishes true | .uploads true => ∀ j, s.phase.job = some j → s.Vacant j
  | .fetches .missing | .sends false => ∀ j e, s.phase.givesUp = some (j, e) →
      ∀ e', s.inflight.get j = some e' → e'.worker = e.worker ∨ e'.worker ∉ s.registered
  | .tracks w => s.Redelivers w → s.phase.picked = some w →
      ∀ k, s.workers w = some k → k.jobsInFlight + 1 < fullDispatchDepth
  | _ => True

/-! ## The dispatch of one job -/

section Dispatch

variable {s t : World} {h : Hint} {skipped : List Hint} {j w : Nat} {e current : Entry}

theorem Ledger.publishes {answered : Bool} (hl : Ledger s)
    (hok : CapacityKept s (.publishes answered)) (hstep : s.publishes answered = some t) :
    Ledger t := by
  have hb := hl.balanced
  unfold World.publishes at hstep
  split at hstep
  · next h skipped w hphase =>
    split at hstep
    · next hanswered =>
      subst hanswered
      split at hstep
      · cases hstep
      · next row hrow =>
        have hroom : s.books.Room w := by
          have := hl.reserved
          rw [hphase] at this
          exact this
        have hvacant : s.Vacant h.job := hok h.job (by rw [hphase]; rfl)
        have htracked := hb.track hroom.isSome hvacant row.attempt none
        dsimp only at hstep
        cases hstep
        refine ⟨htracked, ?_⟩
        by_cases hsource : row.hasSource
        · -- the entry is new, so no report has it
          simp only [hsource, if_true]
          refine ⟨?_, fun _ => Ordered.get_put_self, fun u hu heq => ?_⟩
          · exact (World.isSome_setWorker w).trans hroom.isSome
          · have hlt : u.current.ident < s.idents := hb.taskFresh u hu
            rw [heq] at hlt
            exact Nat.lt_irrefl _ hlt
        · simp only [hsource]
          trivial
    · cases hstep
      exact hb.dispatchRaised
  · cases hstep

theorem Ledger.uploads {answered : Bool} (hl : Ledger s)
    (hok : CapacityKept s (.uploads answered)) (hstep : s.uploads answered = some t) :
    Ledger t := by
  have hb := hl.balanced
  unfold World.uploads at hstep
  split at hstep
  · next h skipped w attempt previous hphase =>
    split at hstep
    · next hanswered =>
      subst hanswered
      have hroom : s.books.Room w := by
        have := hl.reserved
        rw [hphase] at this
        exact this
      have hvacant : s.Vacant h.job := hok h.job (by rw [hphase]; rfl)
      cases hstep
      exact .quiet (hb.track hroom.isSome hvacant attempt _) fun _ => trivial
    · cases hstep
      exact hb.dispatchRaised
  · cases hstep

theorem Books.Balanced.forgetWorker (hb : s.books.Balanced) (w : Nat) :
    (s.forgetWorker w).books.Balanced where
  count v k hk hv := hb.count v k hk (List.mem_of_mem_filter hv)
  known := hb.known
  tracking := hb.tracking
  fresh := hb.fresh
  taskFresh := hb.taskFresh

/-- Between workers that are gone, no count has to agree. -/
theorem Books.Balanced.untrackGone (hb : s.books.Balanced) (hw : w ∉ s.registered)
    (hj : ∀ e, s.inflight.get j = some e → e.worker ∉ s.registered) :
    (s.untrack j w).books.Balanced := by
  have herased : Books.Balanced { s.books with inflight := s.inflight.erase j } := by
    refine ⟨fun v k hk hv => ?_, fun i e he => ?_, hb.tracking, fun i e he => ?_, hb.taskFresh⟩
    · rw [hb.count v k hk hv]
      change s.inflight.tally _ = (s.inflight.erase j).tally _
      rcases hget : s.inflight.get j with _ | e
      · rw [Ordered.erase_of_get_none hget]
      · have hne : ¬ (decide (e.worker = v) = true) := by
          rw [decide_eq_true_iff]
          rintro rfl
          exact hj e hget hv
        rw [Ordered.tally_erase hget, if_neg hne, Nat.add_zero]
    · have he : (s.inflight.erase j).get i = some e := he
      rw [Ordered.get_erase] at he
      split at he
      · cases he
      · exact hb.known i e he
    · have he : (s.inflight.erase j).get i = some e := he
      rw [Ordered.get_erase] at he
      split at he
      · cases he
      · exact hb.fresh i e he
  refine ⟨fun v k hk hv => ?_, fun i e he => ?_, fun v u hu => ?_, herased.fresh,
    herased.taskFresh⟩
  · have hne : v ≠ w := by
      rintro rfl
      exact hw hv
    have hk : (s.untrack j w).workers v = some k := hk
    rw [World.untrack, World.releaseJobSlot, World.setWorker_workers, if_neg hne] at hk
    exact herased.count v k hk hv
  · exact (World.isSome_setWorker _).trans (herased.known i e he)
  · exact (World.isSome_setWorker _).trans (hb.tracking v u hu)

theorem Ledger.fetches {a : SourceAnswer} (hl : Ledger s) (hok : CapacityKept s (.fetches a))
    (hstep : s.fetches a = some t) : Ledger t := by
  have hb := hl.balanced
  unfold World.fetches at hstep
  split at hstep
  · next h skipped e hphase =>
    have hown : s.books.Own h.job e := by
      have := hl.reserved
      rw [hphase] at this
      exact this
    cases a with
    | found =>
      cases hstep
      exact .quiet hb fun _ => trivial
    | missing =>
      cases hstep
      have hgives : s.phase.givesUp = some (h.job, e) := by
        rw [hphase]
        rfl
      refine .quiet ?_ fun _ => trivial
      by_cases hreg : e.worker ∈ s.registered
      · exact hb.untrack (hown.current hreg)
      · refine hb.untrackGone hreg fun e' he' => ?_
        rcases hok h.job e hgives e' he' with heq | hgone
        · rwa [heq]
        · exact hgone
    | raised =>
      cases hstep
      exact hb.dispatchRaised
  · cases hstep

theorem Ledger.drops {a : Answer} (hl : Ledger s) (hstep : s.drops a = some t) : Ledger t := by
  unfold World.drops at hstep
  split at hstep
  · split at hstep
    · cases hstep
    · cases hstep
      refine Ledger.commit (fun u hu => ?_) fun u hu => ?_
      · exact Books.Balanced.dispatched (hu ▸ hl.balanced) true
      · exact Books.Balanced.dispatchRaised (hu ▸ hl.balanced)
  · cases hstep

theorem Ledger.sends {sent : Bool} (hl : Ledger s) (hok : CapacityKept s (.sends sent))
    (hstep : s.sends sent = some t) : Ledger t := by
  have hb := hl.balanced
  unfold World.sends at hstep
  split at hstep
  · next h skipped e hphase =>
    have hforgotten := hb.forgetWorker e.worker
    cases sent with
    | true =>
      cases hstep
      exact .quiet hb fun _ => trivial
    | false =>
      have hgives : s.phase.givesUp = some (h.job, e) := by
        rw [hphase]
        rfl
      rw [if_neg (by simp)] at hstep
      split at hstep
      · cases hstep
        refine Books.Balanced.dispatched (hforgotten.untrackGone ?_ fun e' he' hreg => ?_) false
        · simp [World.forgetWorker]
        · -- the forgotten worker and those that were gone before
          have hmem : e'.worker ∈ s.registered ∧ decide (e'.worker ≠ e.worker) = true :=
            List.mem_filter.mp hreg
          rw [decide_eq_true_iff] at hmem
          rcases hok h.job e hgives e' he' with heq | hgone
          · exact hmem.2 heq
          · exact hgone hmem.1
      · cases hstep
        exact hforgotten.dispatched true
  · cases hstep

theorem Ledger.commits {a : Answer} (hl : Ledger s) (hstep : s.commits a = some t) :
    Ledger t := by
  unfold World.commits at hstep
  split at hstep
  · split at hstep
    · cases hstep
    · cases hstep
      refine Ledger.commit (fun u hu => ?_) fun u hu => ?_
      · exact Books.Balanced.dispatched (hu ▸ hl.balanced) true
      · exact Books.Balanced.dispatchRaised (hu ▸ hl.balanced)
  · cases hstep

theorem Ledger.prepares {a : PrepareAnswer} (hl : Ledger s) (hstep : s.prepares a = some t) :
    Ledger t := by
  have hb := hl.balanced
  unfold World.prepares at hstep
  split at hstep
  · next h skipped w hphase =>
    have hroom : s.books.Room w := by
      have := hl.reserved
      rw [hphase] at this
      exact this
    cases a with
    | unavailable =>
      cases hstep
      exact hb.dispatched false
    | raised =>
      cases hstep
      exact hb.dispatchRaised
    | read source =>
      dsimp only at hstep
      split at hstep
      · split at hstep
        · cases hstep
          exact hb.dispatched true
        · split at hstep
          · split at hstep
            · cases hstep
              exact hb.dispatched false
            · cases hstep
              exact ⟨hb, hroom⟩
          · cases hstep
            exact hb.dispatched true
      · cases hstep
  · cases hstep

theorem Ledger.claims {a : ClaimAnswer} (hl : Ledger s) (hstep : s.claims a = some t) :
    Ledger t := by
  have hb := hl.balanced
  unfold World.claims at hstep
  split at hstep
  · next h skipped current previous hphase =>
    cases a with
    | raised =>
      cases hstep
      exact .quiet hb fun _ => trivial
    | refused =>
      cases hstep
      exact hb.clearIfCurrent.dispatched false
    | stale =>
      dsimp only at hstep
      split at hstep
      · cases hstep
        exact hb.clearIfCurrent.dispatched true
      · cases hstep
    | landed =>
      obtain ⟨d, -, rfl⟩ := Option.map_eq_some_iff.mp hstep
      exact .quiet hb fun _ => trivial
    | inDoubt =>
      obtain ⟨d, -, rfl⟩ := Option.map_eq_some_iff.mp hstep
      exact .quiet hb fun _ => trivial
  · cases hstep

theorem Ledger.probes {answered : Bool} (hl : Ledger s) (hstep : s.probes answered = some t) :
    Ledger t := by
  have hb := hl.balanced
  unfold World.probes at hstep
  split at hstep
  · split at hstep
    · split at hstep
      · cases hstep
        exact .quiet hb fun _ => trivial
      · dsimp only at hstep
        cases hstep
        exact .quiet hb.clearIfCurrent fun _ => trivial
    · cases hstep
      exact hb.dispatched true
  · cases hstep

theorem Ledger.delivers (hl : Ledger s) (hstep : s.delivers = some t) : Ledger t := by
  unfold World.delivers at hstep
  split at hstep
  · cases hstep
    exact hl.balanced.dispatched true
  · cases hstep

end Dispatch

/-! ## Reports -/

section Reports

variable {s t : World} {i j : Nat} {current : Entry} {task : Task}

theorem Ledger.endTask (hl : Ledger s) (i : Nat) : Ledger (s.endTask i) := by
  have hsub : ∀ u ∈ s.tasks.eraseIdx i, ∃ v ∈ s.tasks, u.current = v.current :=
    fun u hu => ⟨u, List.mem_of_mem_eraseIdx hu, rfl⟩
  exact ⟨hl.balanced.ofTasks hsub, hl.reserved.ofTasks hsub⟩

theorem Ledger.setStage (hl : Ledger s) (hmem : task ∈ s.tasks) (i : Nat) (stage : ReportStage) :
    Ledger (s.setStage i task stage) := by
  have hsub : ∀ u ∈ s.tasks.set i { task with stage := stage },
      ∃ v ∈ s.tasks, u.current = v.current := by
    intro u hu
    rcases List.mem_or_eq_of_mem_set hu with hu | rfl
    · exact ⟨u, hu, rfl⟩
    · exact ⟨task, hmem, rfl⟩
  exact ⟨hl.balanced.ofTasks hsub, hl.reserved.ofTasks hsub⟩

theorem Ledger.clearIfCurrent (hl : Ledger s)
    (hother : ∀ h sk e, s.phase = .dispatching h sk (.fetching e) → e ≠ current) (j : Nat) :
    Ledger (s.clearIfCurrent j current) := by
  refine ⟨hl.balanced.clearIfCurrent, ?_⟩
  rw [World.clearIfCurrent_phase]
  exact hl.reserved.clearIfCurrent hother

/-- A report being handled has an entry that was sent. -/
theorem Ledger.told (hl : Ledger s) (hmem : task ∈ s.tasks) :
    ∀ h sk e, s.phase = .dispatching h sk (.fetching e) → e ≠ task.current := by
  intro h sk e hphase heq
  have hown : s.books.Reserved s.phase := hl.reserved
  rw [hphase] at hown
  exact Books.Own.untold hown task hmem heq.symm

theorem Ledger.addTask (hl : Ledger s) (hcurrent : s.inflight.get j = some current)
    (hsent : s.phase.unsent ≠ some current) (stage : ReportStage) :
    Ledger { s with tasks := s.tasks ++ [⟨j, current, stage⟩] } := by
  refine ⟨⟨hl.balanced.count, hl.balanced.known, hl.balanced.tracking, hl.balanced.fresh,
    fun u hu => ?_⟩, ?_⟩
  · rcases List.mem_append.mp hu with hu | hu
    · exact hl.balanced.taskFresh u hu
    · obtain rfl := List.mem_singleton.mp hu
      exact hl.balanced.fresh j current hcurrent
  · refine hl.reserved.mono (fun _ _ hroom => hroom) fun h sk e hphase hown => ?_
    refine ⟨hown.known, hown.current, fun u hu => ?_⟩
    rcases List.mem_append.mp hu with hu | hu
    · exact hown.untold u hu
    · obtain rfl := List.mem_singleton.mp hu
      rintro rfl
      have hphase : s.phase = .dispatching h sk (.fetching current) := hphase
      exact hsent (by rw [hphase]; rfl)

theorem Ledger.reports {r : Report} (hl : Ledger s) (hstep : s.reports j r = some t) :
    Ledger t := by
  unfold World.reports at hstep
  split at hstep
  · cases hstep
  · next current hcurrent =>
    split at hstep
    · cases hstep
    · next hsent =>
      split at hstep
      · cases hstep
        refine hl.clearIfCurrent (fun h sk e hphase heq => hsent ?_) j
        rw [hphase, ← heq]
        rfl
      · cases hstep
        exact hl.addTask hcurrent hsent _
      · cases hstep
        exact hl.addTask hcurrent hsent _
      · cases hstep
        exact hl.addTask hcurrent hsent _

theorem Ledger.charges {answered : Bool} (hl : Ledger s)
    (hstep : s.charges i answered = some t) : Ledger t := by
  unfold World.charges at hstep
  split at hstep
  · next j current htask =>
    have hmem := List.mem_of_getElem? htask
    split at hstep
    · split at hstep
      · cases hstep
        exact (hl.clearIfCurrent (hl.told hmem) j).endTask i
      · cases hstep
    · cases hstep
      exact hl.endTask i
  · cases hstep

theorem Ledger.inspects {a : InspectAnswer} (hl : Ledger s) (hstep : s.inspects i a = some t) :
    Ledger t := by
  unfold World.inspects at hstep
  split at hstep
  · next j current htask =>
    split at hstep
    · cases hstep
      exact hl.endTask i
    · cases hstep
      exact hl.setStage (List.mem_of_getElem? htask) i _
  · cases hstep

theorem Ledger.rules {a : Answer} (hl : Ledger s) (hstep : s.rules i a = some t) : Ledger t := by
  unfold World.rules at hstep
  split at hstep
  · next j current v htask =>
    have hmem := List.mem_of_getElem? htask
    have hcleared := (hl.clearIfCurrent (hl.told hmem) j).endTask i
    split at hstep
    · cases hstep
      exact hl.endTask i
    split at hstep
    · split at hstep
      · split at hstep
        · cases hstep
          exact hcleared
        · cases hstep
          exact hl.endTask i
      · split at hstep
        · split at hstep
          · cases hstep
            exact hcleared
          · cases hstep
            exact hl.endTask i
        · cases hstep
          cases a with
          | landed => exact Ledger.setStage (s := s.write j _ none) ⟨hl.balanced, hl.reserved⟩ hmem i _
          | inDoubt => exact Ledger.endTask (s := s.leaveInDoubt j _ none) ⟨hl.balanced, hl.reserved⟩ i
          | raised => exact hl.endTask i
    · cases hstep
  · cases hstep

theorem Ledger.clears (hl : Ledger s) (hstep : s.clears i = some t) : Ledger t := by
  unfold World.clears at hstep
  split at hstep
  · next j current htask =>
    cases hstep
    exact (hl.clearIfCurrent (hl.told (List.mem_of_getElem? htask)) j).endTask i
  · cases hstep

end Reports

/-! ## Job rows, workers and deliveries -/

section Environment

variable {s t : World} {j w : Nat}

theorem Ledger.creates {row : Row} {refreshed : Bool} (hl : Ledger s)
    (hstep : s.creates j row refreshed = some t) : Ledger t := by
  unfold World.creates at hstep
  split at hstep
  · dsimp only at hstep
    split at hstep <;> cases hstep <;> exact ⟨hl.balanced, hl.reserved⟩
  · cases hstep

theorem Ledger.cancels {a : Answer} (hl : Ledger s) (hstep : s.cancels j a = some t) :
    Ledger t := by
  unfold World.cancels at hstep
  split at hstep
  · split at hstep
    · cases hstep
    · split at hstep
      · cases hstep
      · cases hstep
        cases a with
        | landed => exact ⟨hl.balanced, hl.reserved⟩
        | inDoubt => exact ⟨hl.balanced, hl.reserved⟩
        | raised => exact hl
  · cases hstep

theorem Ledger.deletes (hl : Ledger s) (hstep : s.deletes j = some t) : Ledger t := by
  unfold World.deletes at hstep
  split at hstep
  · cases hstep
    exact ⟨hl.balanced, hl.reserved⟩
  · cases hstep

theorem Ledger.resolves {landed : Bool} (hl : Ledger s) (hstep : s.resolves j landed = some t) :
    Ledger t := by
  unfold World.resolves at hstep
  split at hstep
  · cases hstep
  · dsimp only at hstep
    split at hstep <;> cases hstep <;> exact ⟨hl.balanced, hl.reserved⟩

theorem Ledger.connects {k : Worker} (hl : Ledger s) (hstep : s.connects w k = some t) :
    Ledger t := by
  unfold World.connects at hstep
  split at hstep
  · next hnew =>
    cases hstep
    -- nothing refers to the new connection
    have hknown : ∀ v, (s.workers v).isSome → v ≠ w ∧
        Function.update s.workers w (some k) v = s.workers v := by
      intro v hv
      have hne : v ≠ w := by
        rintro rfl
        rw [hnew.1] at hv
        cases hv
      exact ⟨hne, Function.update_of_ne hne _ _⟩
    have hmem : ∀ v, (s.workers v).isSome → v ∈ s.registered ++ [w] → v ∈ s.registered := by
      intro v hv hreg
      rcases List.mem_append.mp hreg with hreg | hreg
      · exact hreg
      · exact absurd (List.mem_singleton.mp hreg) (hknown v hv).1
    have hb := hl.balanced
    refine ⟨⟨fun v k' hk' hv => ?_, fun i e he => ?_, fun v u hu => ?_, hb.fresh, hb.taskFresh⟩,
      ?_⟩
    · have hk' : Function.update s.workers w (some k) v = some k' := hk'
      by_cases hvw : v = w
      · subst hvw
        rw [Function.update_self] at hk'
        obtain rfl := Option.some.inj hk'
        refine hnew.2.trans (Ordered.tally_eq_zero fun i e he => ?_).symm
        rw [decide_eq_false_iff_not]
        exact (hknown _ (hb.known i e he)).1
      · rw [Function.update_of_ne hvw] at hk'
        exact hb.count v k' hk' (hmem v (Option.isSome_iff_exists.mpr ⟨k', hk'⟩) hv)
    · have := hb.known i e he
      exact (congrArg Option.isSome (hknown _ this).2).trans this
    · have := hb.tracking v u hu
      exact (congrArg Option.isSome (hknown _ this).2).trans this
    · refine hl.reserved.mono (fun v _ hroom => ?_) fun h sk e _ hown => ?_
      · obtain ⟨k', hk', hlt⟩ := hroom
        exact ⟨k', (hknown v (Option.isSome_iff_exists.mpr ⟨k', hk'⟩)).2.trans hk', hlt⟩
      · have hsome := hown.known
        refine ⟨(congrArg Option.isSome (hknown _ hsome).2).trans hsome, fun hreg => ?_,
          hown.untold⟩
        exact hown.current (hmem _ hsome hreg)
  · cases hstep

theorem Ledger.forgets (hl : Ledger s) (w : Nat) : Ledger (s.forgetWorker w) := by
  refine ⟨hl.balanced.forgetWorker w, ?_⟩
  refine hl.reserved.mono (fun _ _ hroom => hroom) fun h sk e _ hown => ?_
  exact ⟨hown.known, fun hreg => hown.current (List.mem_of_mem_filter hreg), hown.untold⟩

theorem Ledger.loses (hl : Ledger s) (hstep : s.loses w = some t) : Ledger t := by
  unfold World.loses at hstep
  split at hstep
  · cases hstep
  · next hgone =>
    cases hstep
    have hb := hl.balanced
    have hget : ∀ i e, (s.inflight.filter fun e => decide (e.worker ≠ w)).get i = some e →
        s.inflight.get i = some e := fun i e he => (Ordered.get_filter.mp he).1
    refine ⟨⟨fun v k hk hv => ?_, fun i e he => hb.known i e (hget i e he), hb.tracking,
      fun i e he => hb.fresh i e (hget i e he), hb.taskFresh⟩, ?_⟩
    · refine (hb.count v k hk hv).trans (Ordered.tally_filter fun e he => ?_).symm
      rw [decide_eq_true_iff] at he ⊢
      rintro rfl
      rw [he] at hgone
      exact hgone hv
    · refine hl.reserved.mono (fun _ _ hroom => hroom) fun h sk e _ hown => ?_
      refine ⟨hown.known, fun hreg => ?_, hown.untold⟩
      have hne : e.worker ≠ w := by
        rintro rfl
        exact hgone hreg
      exact Ordered.get_filter.mpr ⟨hown.current hreg, by simpa using hne⟩

theorem Ledger.setWorker {f : Worker → Worker} (hl : Ledger s)
    (hf : ∀ k, (f k).jobsInFlight = k.jobsInFlight) : Ledger (s.setWorker w f) :=
  ⟨hl.balanced.setWorker hf, hl.reserved.setWorker fun k => (hf k).le⟩

theorem Ledger.setTracking (hl : Ledger s) {u : Option Tracking}
    (hu : u ≠ none → (s.workers w).isSome) : Ledger (s.setTracking w u) := by
  have hb := hl.balanced
  refine ⟨⟨hb.count, hb.known, fun v u' hu' => ?_, hb.fresh, hb.taskFresh⟩, ?_⟩
  · have hu' : Function.update s.tracking w u v = some u' := hu'
    by_cases hvw : v = w
    · subst hvw
      rw [Function.update_self] at hu'
      exact hu (by simp [hu'])
    · rw [Function.update_of_ne hvw] at hu'
      exact hb.tracking v u' hu'
  · refine hl.reserved.mono (fun _ _ hroom => hroom) fun h sk e _ hown => ?_
    exact ⟨hown.known, hown.current, hown.untold⟩

theorem Ledger.kicks {c : Command} (hl : Ledger s) (hstep : s.kicks w c = some t) :
    Ledger t := by
  unfold World.kicks at hstep
  split at hstep
  · next hguard =>
    cases hstep
    refine hl.setTracking fun _ => ?_
    obtain ⟨k, hk, -⟩ := Option.bind_eq_some_iff.mp hguard.2.2.2
    exact Option.isSome_iff_exists.mpr ⟨k, hk⟩
  · cases hstep

theorem Ledger.reads {answered : Bool} (hl : Ledger s) (hstep : s.reads w answered = some t) :
    Ledger t := by
  unfold World.reads at hstep
  split at hstep
  · next c htracking =>
    have hknown := hl.balanced.tracking w _ htracking
    split at hstep
    · cases hstep
      exact hl.setTracking fun _ => hknown
    · split at hstep <;> cases hstep <;> exact hl.setTracking fun _ => hknown
  · cases hstep

/-- A re-delivered command registers its entry and leaves the dispatch what it relies on. -/
theorem Ledger.tracks (hl : Ledger s) (hok : CapacityKept s (.tracks w))
    (hstep : s.tracks w = some t) : Ledger t := by
  unfold World.tracks at hstep
  split at hstep
  · next c attempt htracking =>
    have hb := hl.balanced
    have hknown := hb.tracking w _ htracking
    split at hstep
    · cases hstep
      exact hl.setTracking fun _ => hknown
    · next hnone =>
      have hnone : s.inflight.get c.job = none := by simpa using hnone
      cases hstep
      refine Ledger.setTracking ⟨hb.track hknown (fun e he => ?_) attempt _, ?_⟩
        fun _ => (World.isSome_setWorker w).trans hknown
      · rw [hnone] at he
        cases he
      · refine hl.reserved.mono (fun v hpicked hroom => ?_) fun h sk e _ hown => ?_
        · obtain ⟨k, hk, hlt⟩ := hroom
          have hk : s.workers v = some k := hk
          by_cases hvw : v = w
          · subst hvw
            refine ⟨{ k with jobsInFlight := k.jobsInFlight + 1 }, ?_,
              hok ⟨c, attempt, htracking, hnone⟩ hpicked k hk⟩
            refine (World.setWorker_workers _ v v _).trans ?_
            rw [if_pos rfl]
            exact congrArg (Option.map _) hk
          · refine ⟨k, ?_, hlt⟩
            refine (World.setWorker_workers _ w v _).trans ?_
            rw [if_neg hvw]
            exact hk
        · refine ⟨(World.isSome_setWorker e.worker).trans hown.known, fun hreg => ?_, hown.untold⟩
          have hcurrent : s.inflight.get h.job = some e := hown.current hreg
          have hne : h.job ≠ c.job := by
            intro heq
            rw [heq, hnone] at hcurrent
            cases hcurrent
          exact (Ordered.get_put_of_ne hne).trans hcurrent
  · cases hstep

end Environment

/-! ## Runs -/

section Runs

variable {s t u : World} {l : Label} {w : Nat}

theorem Ledger.start (hs : Starts s) : Ledger s := by
  refine ⟨⟨fun w k hk _ => ?_, fun j e he => ?_, fun w u hu => ?_, fun j e he => ?_,
    fun u hu => ?_⟩, ?_⟩
  · have hk : s.workers w = some k := hk
    rw [hs.workers] at hk
    cases hk
  · have he : s.inflight.get j = some e := he
    rw [hs.inflight] at he
    cases he
  · have hu : s.tracking w = some u := hu
    rw [hs.tracking] at hu
    cases hu
  · have he : s.inflight.get j = some e := he
    rw [hs.inflight] at he
    cases he
  · have hu : u ∈ s.tasks := hu
    rw [hs.tasks] at hu
    cases hu
  · rw [hs.idle]
    trivial

/-- The step lemma: a step that meets the condition keeps the ledger. -/
theorem Ledger.step (hl : Ledger s) (hok : CapacityKept s l) (hstep : step s l = some t) :
    Ledger t := by
  cases l with
  | begins => exact hl.begins hstep
  | recovers => exact hl.recovers hstep
  | requeues a => exact hl.requeues hstep
  | sweeps stalled => exact hl.sweeps hstep
  | scans => exact hl.scans hstep
  | asks answered => exact hl.asks hstep
  | locks answered => exact hl.locks hstep
  | publishes answered => exact hl.publishes hok hstep
  | fetches a => exact hl.fetches hok hstep
  | drops a => exact hl.drops hstep
  | sends sent => exact hl.sends hok hstep
  | commits a => exact hl.commits hstep
  | prepares a => exact hl.prepares hstep
  | uploads answered => exact hl.uploads hok hstep
  | claims a => exact hl.claims hstep
  | probes answered => exact hl.probes hstep
  | delivers => exact hl.delivers hstep
  | reports j r => exact hl.reports hstep
  | charges i answered => exact hl.charges hstep
  | inspects i a => exact hl.inspects hstep
  | rules i a => exact hl.rules hstep
  | clears i => exact hl.clears hstep
  | creates j row refreshed => exact hl.creates hstep
  | cancels j a => exact hl.cancels hstep
  | deletes j => exact hl.deletes hstep
  | resolves j landed => exact hl.resolves hstep
  | connects w k => exact hl.connects hstep
  | forgets w =>
    cases hstep
    exact hl.forgets w
  | loses w => exact hl.loses hstep
  | grants w granted =>
    cases hstep
    exact hl.setWorker fun _ => rfl
  | holdsSlots w n =>
    cases hstep
    exact hl.setWorker fun _ => rfl
  | kicks w c => exact hl.kicks hstep
  | reads w answered => exact hl.reads hstep
  | tracks w => exact hl.tracks hok hstep
  | retires c =>
    cases hstep
    exact ⟨hl.balanced, hl.reserved⟩

/-- The run lemma. -/
theorem Ledger.run (hs : Starts s) (hpath : machine.Path CapacityKept s t) : Ledger t :=
  hpath.invariant (I := Ledger) (fun _ _ _ hl hok hstep => hl.step hok hstep) (.start hs)

/-- The worker that the step may call `release_job_slot` on. A send that failed has forgotten
its worker before. -/
def World.released (s : World) : Label → Option Nat
  | .sweeps true =>
    match s.phase with
    | .sweeping (j :: _) => (s.inflight.get j).map (·.worker)
    | _ => none
  | .fetches .missing =>
    match s.phase with
    | .dispatching _ _ (.fetching e) => some e.worker
    | _ => none
  | .claims _ | .probes _ =>
    match s.phase with
    | .dispatching h _ (.claiming e _) | .dispatching h _ (.probing e _) =>
      if s.inflight.get h.job = some e then some e.worker else none
    | _ => none
  | .reports j _ => (s.inflight.get j).map (·.worker)
  | .charges i _ | .rules i _ | .clears i =>
    (s.tasks[i]?).bind fun task =>
      if s.inflight.get task.job = some task.current then some task.current.worker else none
  | _ => none

theorem Ledger.pos (hl : Ledger s) {j : Nat} {e : Entry} {k : Worker}
    (he : s.inflight.get j = some e) (hreg : e.worker ∈ s.registered)
    (hk : s.workers e.worker = some k) : 0 < k.jobsInFlight := by
  rw [hl.balanced.count _ k hk hreg]
  exact Ordered.tally_pos he (by simp)

/-- The clamp of `release_job_slot` does not act on a connected worker. -/
theorem Ledger.released (hl : Ledger s) {k : Worker} (hw : s.released l = some w)
    (hreg : w ∈ s.registered) (hk : s.workers w = some k) : 0 < k.jobsInFlight := by
  suffices h : ∃ j e, s.inflight.get j = some e ∧ e.worker = w by
    obtain ⟨j, e, he, rfl⟩ := h
    exact hl.pos he hreg hk
  unfold World.released at hw
  split at hw
  · split at hw
    · obtain ⟨e, he, rfl⟩ := Option.map_eq_some_iff.mp hw
      exact ⟨_, e, he, rfl⟩
    · cases hw
  · split at hw
    · next h sk e hphase =>
      cases hw
      have hown := hl.reserved
      rw [hphase] at hown
      exact ⟨h.job, e, Books.Own.current hown hreg, rfl⟩
    · cases hw
  · split at hw
    · split at hw
      · next he =>
        cases hw
        exact ⟨_, _, he, rfl⟩
      · cases hw
    · split at hw
      · next he =>
        cases hw
        exact ⟨_, _, he, rfl⟩
      · cases hw
    · cases hw
  · split at hw
    · split at hw
      · next he =>
        cases hw
        exact ⟨_, _, he, rfl⟩
      · cases hw
    · split at hw
      · next he =>
        cases hw
        exact ⟨_, _, he, rfl⟩
      · cases hw
    · cases hw
  · obtain ⟨e, he, rfl⟩ := Option.map_eq_some_iff.mp hw
    exact ⟨_, e, he, rfl⟩
  all_goals first
    | cases hw
    | obtain ⟨task, -, hw⟩ := Option.bind_eq_some_iff.mp hw
      split at hw
      · next he =>
        cases hw
        exact ⟨_, _, he, rfl⟩
      · cases hw

/-- The step by which a dispatch publishes its entry on `w`. -/
def World.Publishes (s : World) (l : Label) (w : Nat) : Prop :=
  (l = .publishes true ∨ l = .uploads true) ∧ s.phase.picked = some w

theorem World.track_jobsInFlight {j attempt : Nat} {dispatchSequence : Option Nat} {k : Worker}
    (hroom : s.books.Room w) (hk : (s.track j w attempt dispatchSequence).workers w = some k) :
    k.jobsInFlight ≤ fullDispatchDepth := by
  obtain ⟨k₀, hk₀, hlt⟩ := hroom
  have hk₀ : s.workers w = some k₀ := hk₀
  rw [World.track, World.takeJobSlot, World.setWorker_workers, if_pos rfl] at hk
  obtain ⟨k₁, hk₁, rfl⟩ := Option.map_eq_some_iff.mp hk
  obtain rfl : k₀ = k₁ := Option.some.inj (hk₀.symm.trans hk₁)
  exact hlt

/-- A dispatch leaves its worker within the depth. -/
theorem Ledger.publishes_le (hl : Ledger s) {k : Worker} (hl' : s.Publishes l w)
    (hstep : machine.step s l = some t) (hk : t.workers w = some k) :
    k.jobsInFlight ≤ fullDispatchDepth := by
  have hreserved := hl.reserved
  obtain ⟨rfl | rfl, hpicked⟩ := hl'
  · have hstep : s.publishes true = some t := hstep
    unfold World.publishes at hstep
    split at hstep
    · next h skipped v hphase =>
      rw [hphase] at hpicked hreserved
      obtain rfl : v = w := Option.some.inj hpicked
      rw [if_pos rfl] at hstep
      split at hstep
      · cases hstep
      · dsimp only at hstep
        cases hstep
        exact World.track_jobsInFlight hreserved hk
    · cases hstep
  · have hstep : s.uploads true = some t := hstep
    unfold World.uploads at hstep
    split at hstep
    · next h skipped v attempt previous hphase =>
      rw [hphase] at hpicked hreserved
      obtain rfl : v = w := Option.some.inj hpicked
      rw [if_pos rfl] at hstep
      cases hstep
      exact World.track_jobsInFlight hreserved hk
    · cases hstep

end Runs

/-- **Dispatch capacity.** In every run whose steps meet the condition, a connected worker's
count is the number of its entries in `inflight`, no release meets the clamp at zero, and a
dispatch leaves its worker within the depth. -/
theorem capacity_kept {s t : World} (hs : Starts s) (hpath : machine.Path CapacityKept s t) :
    (∀ w k, w ∈ t.registered → t.workers w = some k → k.jobsInFlight = t.books.held w) ∧
    (∀ l w k, t.released l = some w → w ∈ t.registered → t.workers w = some k →
      0 < k.jobsInFlight) ∧
    ∀ l w u k, t.Publishes l w → step t l = some u → u.workers w = some k →
      k.jobsInFlight ≤ fullDispatchDepth := by
  have hl := Ledger.run hs hpath
  refine ⟨fun w k hreg hk => hl.balanced.count w k hk hreg, fun l w k hw hreg hk => ?_,
    fun l w u k hpublishes hstep hk => ?_⟩
  · exact hl.released hw hreg hk
  · exact hl.publishes_le hpublishes hstep hk

/-! ## Runs on one worker -/

section Sample

def sampleStart : World where
  rows := fun j => if j = 1 then some ⟨.queued, 1, 0, none, 0, 5, false⟩ else none
  doubt := fun _ => none
  commands := []
  hints := [⟨5, 1⟩]
  lostJobs := []
  inflight := ∅
  idents := 0
  workers := fun _ => none
  registered := []
  tracking := fun _ => none
  tasks := []
  phase := .idle

theorem sampleStart_starts : Starts sampleStart := by
  refine ⟨rfl, rfl, rfl, fun _ => rfl, rfl, fun _ => rfl, rfl, fun _ => rfl, fun j row hrow => ?_,
    fun j row hrow _ => ⟨⟨5, 1⟩, by simp [sampleStart], ?_⟩⟩
  · have hrow : (if j = 1 then some _ else none) = some row := hrow
    split at hrow
    · cases hrow
      simp
    · cases hrow
  · have hrow : (if j = 1 then some _ else none) = some row := hrow
    split at hrow
    · next hj => exact hj.symm
    · cases hrow

/-- A job is picked for a protocol 6 worker and its upload targets are there. -/
def picks : List Label :=
  [.connects 6 ⟨some 60, true, [0], 0, 0⟩, .begins, .recovers, .sweeps false, .scans, .asks true,
    .prepares (.read true)]

/-- The claim lands, the job stalls, and the worker's delivery sends the claim's command again
while the sweep requeues the job, which is then dispatched once more. -/
def redelivers : List Label :=
  picks ++ [.uploads true, .claims .landed, .delivers, .scans,
    .begins, .recovers, .sweeps true,
    .kicks 6 ⟨60, 1, 1⟩, .reads 6 true, .tracks 6,
    .requeues .landed, .sweeps false, .scans, .asks true, .prepares (.read true), .uploads true]

def samplePicked : World := (machine.run sampleStart picks).getD sampleStart

def sampleRedelivered : World := (machine.run sampleStart redelivers).getD sampleStart

theorem picks_run : machine.run sampleStart picks = some samplePicked := rfl

theorem redelivers_run : machine.run sampleStart redelivers = some sampleRedelivered := rfl

/-- The sweep released the stalled job's slot, the delivery took it back with an entry of its
own, and the next dispatch overwrites that entry: two slots, one entry. -/
theorem redelivery_leaks_slot :
    ∃ s t : World, Starts s ∧ machine.Path Machine.anyStep s t ∧
      6 ∈ t.registered ∧ (t.workers 6).map (·.jobsInFlight) = some 2 ∧ t.books.held 6 = 1 :=
  ⟨sampleStart, sampleRedelivered, sampleStart_starts,
    Machine.path_of_run_any redelivers_run, by decide, rfl, rfl⟩

theorem picks_kept : machine.Path CapacityKept sampleStart samplePicked :=
  Machine.path_of_run picks_run
    ⟨trivial, fun _ _ => ⟨trivial, fun _ _ => ⟨trivial, fun _ _ => ⟨trivial, fun _ _ =>
      ⟨trivial, fun _ _ => ⟨trivial, fun _ _ => ⟨trivial, fun _ _ => trivial⟩⟩⟩⟩⟩⟩⟩

/-- The first dispatch: one slot, one entry. -/
theorem capacity_kept_sample :
    ∃ t : World, (t.workers 6).map (·.jobsInFlight) = some 1 ∧ t.books.held 6 = 1 ∧
      ((∀ w k, w ∈ t.registered → t.workers w = some k → k.jobsInFlight = t.books.held w) ∧
      (∀ l w k, t.released l = some w → w ∈ t.registered → t.workers w = some k →
        0 < k.jobsInFlight) ∧
      ∀ l w u k, t.Publishes l w → step t l = some u → u.workers w = some k →
        k.jobsInFlight ≤ fullDispatchDepth) := by
  have hvacant : CapacityKept samplePicked (.uploads true) := by
    intro j _ e he
    have hnone : samplePicked.inflight.get j = none := rfl
    rw [hnone] at he
    cases he
  exact ⟨(step samplePicked (.uploads true)).getD samplePicked, rfl, rfl,
    capacity_kept sampleStart_starts (.tail picks_kept hvacant rfl)⟩

end Sample

end Potocolom.Dispatch
