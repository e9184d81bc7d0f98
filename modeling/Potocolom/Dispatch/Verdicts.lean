import Potocolom.Dispatch.Capacity

/-! # A verdict gives its slot back

When the handling of a terminal report returns and the job is over, the entry it named has
left `inflight`, once, with the slot it took: unless one of the ways out is taken that leave
the entry of a job that was over already. -/

namespace Potocolom.Dispatch

variable {s t : World} {l : Label} {j : Nat} {e current : Entry}

/-! ## How entries come and go -/

/-- What a step does to `inflight`: nothing, the pop of one entry with a release, the
publishing of a new one, or the loss of a worker. -/
inductive Moves (s t : World) : Prop where
  | same (hget : ∀ i, t.inflight.get i = s.inflight.get i) (hidents : t.idents = s.idents)
  | pops (i : Nat) (e : Entry) (w : Nat) (he : s.inflight.get i = some e)
      (hinflight : t.inflight = s.inflight.erase i) (hidents : t.idents = s.idents)
      (hworkers : t.workers = (s.releaseJobSlot w).workers)
      (hw : e.worker ∈ t.registered → w = e.worker ∧ e.worker ∈ s.registered)
  | puts (i w attempt : Nat) (n : Option Nat) (hvacant : s.Vacant i)
      (hinflight : t.inflight = s.inflight.put i ⟨s.idents, w, attempt, n⟩)
      (hidents : t.idents = s.idents + 1) (hregistered : t.registered = s.registered)
  | loses (w : Nat) (hw : w ∉ t.registered)
      (hinflight : t.inflight = s.inflight.filter fun e => e.worker ≠ w)
      (hidents : t.idents = s.idents)

theorem Moves.of_eq (hinflight : t.inflight = s.inflight) (hidents : t.idents = s.idents) :
    Moves s t :=
  .same (fun i => by rw [hinflight]) hidents

theorem clearIfCurrent_registered (s : World) (j : Nat) (current : Entry) :
    (s.clearIfCurrent j current).registered = s.registered := by
  unfold World.clearIfCurrent
  split <;> rfl

/-- What `clear_if_current` does to the table. -/
theorem moves_clearIfCurrent (hinflight : t.inflight = (s.clearIfCurrent j current).inflight)
    (hidents : t.idents = (s.clearIfCurrent j current).idents)
    (hworkers : t.workers = (s.clearIfCurrent j current).workers)
    (hregistered : t.registered = s.registered) : Moves s t := by
  unfold World.clearIfCurrent at hinflight hidents hworkers
  split at hinflight
  case isTrue he =>
    rw [if_pos he] at hidents hworkers
    refine .pops j current current.worker he hinflight hidents hworkers fun hreg => ?_
    exact ⟨rfl, hregistered ▸ hreg⟩
  case isFalse he =>
    rw [if_neg he] at hidents
    exact Moves.of_eq hinflight hidents

theorem commit_inflight {u : World} {a : Answer} {row : Row} {landed raised : World → World}
    (hlanded : ∀ v, (landed v).inflight = v.inflight ∧ (landed v).idents = v.idents)
    (hraised : ∀ v, (raised v).inflight = v.inflight ∧ (raised v).idents = v.idents) :
    (u.commit a j row landed raised).inflight = u.inflight ∧
      (u.commit a j row landed raised).idents = u.idents := by
  cases a with
  | landed => exact hlanded _
  | inDoubt => exact hraised _
  | raised => exact hraised _

theorem dispatchRaised_inflight (s : World) (h : Hint) (skipped : List Hint) :
    (s.dispatchRaised h skipped).inflight = s.inflight ∧
      (s.dispatchRaised h skipped).idents = s.idents := by
  unfold World.dispatchRaised
  split
  · exact ⟨rfl, rfl⟩
  · exact ⟨rfl, rfl⟩

theorem requeued_inflight (s : World) (caller : Caller) :
    (s.requeued caller).inflight = s.inflight ∧ (s.requeued caller).idents = s.idents := by
  cases caller with
  | lost left => exact ⟨rfl, rfl⟩
  | stalled keys => exact ⟨rfl, rfl⟩

theorem requeueRaised_inflight (s : World) (caller : Caller) (j : Nat) :
    (s.requeueRaised caller j).inflight = s.inflight ∧
      (s.requeueRaised caller j).idents = s.idents := by
  cases caller with
  | lost left => exact ⟨rfl, rfl⟩
  | stalled keys => exact ⟨rfl, rfl⟩

theorem requeues_inflight {a : Answer} (hstep : s.requeues a = some t) :
    t.inflight = s.inflight ∧ t.idents = s.idents := by
  have hqueued : ∀ (u : World) (h : Hint) (caller : Caller),
      ((u.pushHint h).requeued caller).inflight = u.inflight ∧
        ((u.pushHint h).requeued caller).idents = u.idents := by
    intro u h caller
    exact requeued_inflight (u.pushHint h) caller
  unfold World.requeues at hstep
  split at hstep
  · next caller i _ =>
    split at hstep
    · cases hstep
      exact requeueRaised_inflight s caller i
    · split at hstep
      · split at hstep
        · cases hstep
          exact requeued_inflight s caller
        · split at hstep
          · cases hstep
            exact requeued_inflight s caller
          · split at hstep
            · cases hstep
              exact hqueued s _ caller
            · split at hstep
              · cases hstep
                exact commit_inflight (fun v => hqueued v _ caller)
                  fun v => requeueRaised_inflight v caller i
              · cases hstep
                exact ⟨rfl, rfl⟩
      · cases hstep
  · next caller i _ =>
    split at hstep
    · cases hstep
      exact requeueRaised_inflight s caller i
    · split at hstep
      · split at hstep
        · cases hstep
          exact requeued_inflight s caller
        · split at hstep
          · cases hstep
            exact requeued_inflight s caller
          · cases hstep
            exact commit_inflight (fun v => ⟨rfl, rfl⟩)
              fun v => requeueRaised_inflight v caller i
      · cases hstep
  · next caller i _ =>
    split at hstep
    · cases hstep
      exact requeued_inflight s caller
    · cases hstep
      exact requeueRaised_inflight s caller i
  · cases hstep

theorem moves_sweeps {stalled : Bool} (hstep : s.sweeps stalled = some t) : Moves s t := by
  unfold World.sweeps at hstep
  split at hstep
  · cases hstep
    exact .of_eq rfl rfl
  · next i keys _ =>
    split at hstep
    · cases hstep
      exact .of_eq rfl rfl
    · next entry he =>
      split at hstep
      · cases hstep
        exact .pops i entry entry.worker he rfl rfl rfl fun hreg => ⟨rfl, hreg⟩
      · cases hstep
        -- an entry that is not stalled goes back
        refine .same (fun i' => ?_) rfl
        show ((s.inflight.erase i).put i entry).get i' = s.inflight.get i'
        rw [Ordered.get_put, Ordered.get_erase]
        split
        · next hi => rw [hi, he]
        · rfl
  · cases hstep


theorem moves_dispatchRaised (h : Hint) (skipped : List Hint) :
    Moves s (s.dispatchRaised h skipped) :=
  .of_eq (dispatchRaised_inflight s h skipped).1 (dispatchRaised_inflight s h skipped).2

theorem moves_commit {u : World} {a : Answer} {row : Row} {landed raised : World → World}
    (hlanded : ∀ v, (landed v).inflight = v.inflight ∧ (landed v).idents = v.idents)
    (hraised : ∀ v, (raised v).inflight = v.inflight ∧ (raised v).idents = v.idents) :
    Moves u (u.commit a j row landed raised) :=
  .of_eq (commit_inflight hlanded hraised).1 (commit_inflight hlanded hraised).2

theorem moves_publishes {answered : Bool} (hok : CapacityKept s (.publishes answered))
    (hstep : s.publishes answered = some t) : Moves s t := by
  unfold World.publishes at hstep
  split at hstep
  · next h skipped w hphase =>
    split at hstep
    · next hanswered =>
      subst hanswered
      split at hstep
      · cases hstep
      · next row _ =>
        dsimp only at hstep
        cases hstep
        have hvacant : s.Vacant h.job := hok h.job (by rw [hphase]; rfl)
        exact .puts h.job w row.attempt none hvacant rfl rfl rfl
    · cases hstep
      exact moves_dispatchRaised h skipped
  · cases hstep

theorem moves_uploads {answered : Bool} (hok : CapacityKept s (.uploads answered))
    (hstep : s.uploads answered = some t) : Moves s t := by
  unfold World.uploads at hstep
  split at hstep
  · next h skipped w attempt previous hphase =>
    split at hstep
    · next hanswered =>
      subst hanswered
      cases hstep
      have hvacant : s.Vacant h.job := hok h.job (by rw [hphase]; rfl)
      exact .puts h.job w attempt _ hvacant rfl rfl rfl
    · cases hstep
      exact moves_dispatchRaised h skipped
  · cases hstep

theorem moves_tracks {w : Nat} (hstep : s.tracks w = some t) : Moves s t := by
  unfold World.tracks at hstep
  split at hstep
  · next c attempt _ =>
    split at hstep
    · cases hstep
      exact .of_eq rfl rfl
    · next hnone =>
      cases hstep
      have hvacant : s.Vacant c.job := by
        intro e he
        rw [he] at hnone
        exact absurd rfl hnone
      exact .puts c.job w attempt _ hvacant rfl rfl rfl
  · cases hstep

/-- What a dispatch that gives up pops is its own, or of a worker that is gone. -/
theorem moves_untrack {w : Nat} (hinflight : t.inflight = (s.untrack j w).inflight)
    (hidents : t.idents = s.idents) (hworkers : t.workers = (s.untrack j w).workers)
    (hown : ∀ e, s.inflight.get j = some e → e.worker ∈ t.registered →
      w = e.worker ∧ e.worker ∈ s.registered) :
    Moves s t := by
  cases he : s.inflight.get j with
  | none =>
    refine .of_eq (hinflight.trans ?_) hidents
    exact Ordered.erase_of_get_none he
  | some e => exact .pops j e w he hinflight hidents hworkers fun hreg => hown e he hreg

theorem moves_fetches {a : SourceAnswer} (hok : CapacityKept s (.fetches a))
    (hstep : s.fetches a = some t) : Moves s t := by
  unfold World.fetches at hstep
  split at hstep
  · next h skipped e hphase =>
    cases a with
    | found =>
      cases hstep
      exact .of_eq rfl rfl
    | missing =>
      cases hstep
      have hgives : s.phase.givesUp = some (h.job, e) := by
        rw [hphase]
        rfl
      refine moves_untrack rfl rfl rfl fun e' he' hreg => ?_
      rcases hok h.job e hgives e' he' with heq | hgone
      · exact ⟨heq.symm, hreg⟩
      · exact absurd hreg hgone
    | raised =>
      cases hstep
      exact moves_dispatchRaised h skipped
  · cases hstep

theorem moves_sends {sent : Bool} (hok : CapacityKept s (.sends sent))
    (hstep : s.sends sent = some t) : Moves s t := by
  unfold World.sends at hstep
  split at hstep
  · next h skipped e hphase =>
    cases sent with
    | true =>
      cases hstep
      exact .of_eq rfl rfl
    | false =>
      have hgives : s.phase.givesUp = some (h.job, e) := by
        rw [hphase]
        rfl
      rw [if_neg (by simp)] at hstep
      split at hstep
      · cases hstep
        refine moves_untrack (w := e.worker) rfl rfl rfl fun e' he' hreg => ?_
        -- the worker that was sent to is forgotten in the same step
        have hmem := List.mem_of_mem_filter hreg
        rcases hok h.job e hgives e' he' with heq | hgone
        · exact ⟨heq.symm, hmem⟩
        · exact absurd hmem hgone
      · cases hstep
        exact .of_eq rfl rfl
  · cases hstep

theorem moves_claims {a : ClaimAnswer} (hstep : s.claims a = some t) : Moves s t := by
  unfold World.claims at hstep
  split at hstep
  · next h skipped current previous _ =>
    cases a with
    | landed =>
      obtain ⟨d, -, rfl⟩ := Option.map_eq_some_iff.mp hstep
      exact .of_eq rfl rfl
    | inDoubt =>
      obtain ⟨d, -, rfl⟩ := Option.map_eq_some_iff.mp hstep
      exact .of_eq rfl rfl
    | raised =>
      cases hstep
      exact .of_eq rfl rfl
    | stale =>
      dsimp only at hstep
      split at hstep
      · cases hstep
        exact moves_clearIfCurrent (j := h.job) rfl rfl rfl
          (clearIfCurrent_registered s h.job current)
      · cases hstep
    | refused =>
      cases hstep
      exact moves_clearIfCurrent (j := h.job) rfl rfl rfl
        (clearIfCurrent_registered s h.job current)
  · cases hstep

theorem moves_probes {answered : Bool} (hstep : s.probes answered = some t) : Moves s t := by
  unfold World.probes at hstep
  split at hstep
  · next h skipped current previous _ =>
    split at hstep
    · split at hstep
      · cases hstep
        exact .of_eq rfl rfl
      · cases hstep
        exact moves_clearIfCurrent (j := h.job) rfl rfl rfl
          (clearIfCurrent_registered s h.job current)
    · cases hstep
      exact .of_eq rfl rfl
  · cases hstep

theorem moves_reports {r : Report} (hstep : s.reports j r = some t) : Moves s t := by
  unfold World.reports at hstep
  split at hstep
  · cases hstep
  · next current _ =>
    split at hstep
    · cases hstep
    · cases r with
      | cancelled gpuMs =>
        cases gpuMs with
        | zero =>
          cases hstep
          exact moves_clearIfCurrent (j := j) rfl rfl rfl
            (clearIfCurrent_registered s j current)
        | succ gpuMs =>
          cases hstep
          exact .of_eq rfl rfl
      | done =>
        cases hstep
        exact .of_eq rfl rfl
      | failed =>
        cases hstep
        exact .of_eq rfl rfl

theorem moves_charges {i : Nat} {answered : Bool} (hstep : s.charges i answered = some t) :
    Moves s t := by
  unfold World.charges at hstep
  split at hstep
  · next j current _ =>
    split at hstep
    · split at hstep
      · cases hstep
        exact moves_clearIfCurrent (j := j) rfl rfl rfl
          (clearIfCurrent_registered s j current)
      · cases hstep
    · cases hstep
      exact .of_eq rfl rfl
  · cases hstep

theorem moves_rules {i : Nat} {a : Answer} (hstep : s.rules i a = some t) : Moves s t := by
  unfold World.rules at hstep
  split at hstep
  · next j current v _ =>
    split at hstep
    · cases hstep
      exact .of_eq rfl rfl
    · split at hstep
      · split at hstep
        · split at hstep
          · cases hstep
            exact moves_clearIfCurrent (j := j) rfl rfl rfl
              (clearIfCurrent_registered s j current)
          · cases hstep
            exact .of_eq rfl rfl
        · split at hstep
          · split at hstep
            · cases hstep
              exact moves_clearIfCurrent (j := j) rfl rfl rfl
                (clearIfCurrent_registered s j current)
            · cases hstep
              exact .of_eq rfl rfl
          · cases hstep
            exact moves_commit (fun v => ⟨rfl, rfl⟩) fun v => ⟨rfl, rfl⟩
      · cases hstep
  · cases hstep

theorem moves_clears {i : Nat} (hstep : s.clears i = some t) : Moves s t := by
  unfold World.clears at hstep
  split at hstep
  · next j current _ =>
    cases hstep
    exact moves_clearIfCurrent (j := j) rfl rfl rfl
      (clearIfCurrent_registered s j current)
  · cases hstep

theorem moves_drops {a : Answer} (hstep : s.drops a = some t) : Moves s t := by
  unfold World.drops at hstep
  split at hstep
  · next h skipped _ =>
    split at hstep
    · cases hstep
    · cases hstep
      exact moves_commit (fun v => ⟨rfl, rfl⟩) fun v => dispatchRaised_inflight v h skipped
  · cases hstep

theorem moves_commits {a : Answer} (hstep : s.commits a = some t) : Moves s t := by
  unfold World.commits at hstep
  split at hstep
  · next h skipped _ _ =>
    split at hstep
    · cases hstep
    · cases hstep
      exact moves_commit (fun v => ⟨rfl, rfl⟩) fun v => dispatchRaised_inflight v h skipped
  · cases hstep

/-- The steps that ask and pick leave the table alone. -/
theorem moves_loop (hl : l = .begins ∨ l = .recovers ∨ l = .scans ∨ l = .delivers ∨
    (∃ a, l = .asks a) ∨ (∃ a, l = .locks a) ∨ ∃ a, l = .prepares a)
    (hstep : step s l = some t) : Moves s t := by
  rcases hl with rfl | rfl | rfl | rfl | ⟨a, rfl⟩ | ⟨a, rfl⟩ | ⟨a, rfl⟩
  all_goals simp only [step, World.begins, World.recovers, World.scans, World.delivers,
    World.asks, World.locks, World.prepares] at hstep
  all_goals repeat' split at hstep
  all_goals cases hstep
  all_goals first
    | exact .of_eq rfl rfl
    | exact moves_dispatchRaised _ _

/-- So do the steps of the rows, of the connections and of the deliveries. -/
theorem moves_others (hl : (∃ i a, l = .inspects i a) ∨ (∃ j row a, l = .creates j row a) ∨
    (∃ j a, l = .cancels j a) ∨ (∃ j, l = .deletes j) ∨ (∃ j a, l = .resolves j a) ∨
    (∃ w k, l = .connects w k) ∨ (∃ w, l = .forgets w) ∨ (∃ w a, l = .grants w a) ∨
    (∃ w n, l = .holdsSlots w n) ∨ (∃ w c, l = .kicks w c) ∨ (∃ w a, l = .reads w a) ∨
    ∃ c, l = .retires c) (hstep : step s l = some t) : Moves s t := by
  rcases hl with ⟨i, a, rfl⟩ | ⟨j, row, a, rfl⟩ | ⟨j, a, rfl⟩ | ⟨j, rfl⟩ | ⟨j, a, rfl⟩ |
    ⟨w, k, rfl⟩ | ⟨w, rfl⟩ | ⟨w, a, rfl⟩ | ⟨w, n, rfl⟩ | ⟨w, c, rfl⟩ | ⟨w, a, rfl⟩ | ⟨c, rfl⟩
  all_goals simp only [step, World.inspects, World.creates, World.cancels, World.deletes,
    World.resolves, World.connects, World.kicks, World.reads] at hstep
  all_goals repeat' split at hstep
  all_goals cases hstep
  all_goals first
    | exact .of_eq rfl rfl
    | exact moves_commit (fun v => ⟨rfl, rfl⟩) fun v => ⟨rfl, rfl⟩

theorem moves_loses {w : Nat} (hstep : s.loses w = some t) : Moves s t := by
  unfold World.loses at hstep
  split at hstep
  · cases hstep
  · next hw =>
    cases hstep
    exact .loses w hw rfl rfl

theorem moves_step (hok : CapacityKept s l) (hstep : step s l = some t) : Moves s t := by
  cases l with
  | begins => exact moves_loop (by simp) hstep
  | recovers => exact moves_loop (by simp) hstep
  | requeues a => exact .of_eq (requeues_inflight hstep).1 (requeues_inflight hstep).2
  | sweeps stalled => exact moves_sweeps hstep
  | scans => exact moves_loop (by simp) hstep
  | asks answered => exact moves_loop (by simp) hstep
  | locks answered => exact moves_loop (by simp) hstep
  | publishes answered => exact moves_publishes hok hstep
  | fetches a => exact moves_fetches hok hstep
  | drops a => exact moves_drops hstep
  | sends sent => exact moves_sends hok hstep
  | commits a => exact moves_commits hstep
  | prepares a => exact moves_loop (by simp) hstep
  | uploads answered => exact moves_uploads hok hstep
  | claims a => exact moves_claims hstep
  | probes answered => exact moves_probes hstep
  | delivers => exact moves_loop (by simp) hstep
  | reports j r => exact moves_reports hstep
  | charges i answered => exact moves_charges hstep
  | inspects i a => exact moves_others (by simp) hstep
  | rules i a => exact moves_rules hstep
  | clears i => exact moves_clears hstep
  | creates j row refreshed => exact moves_others (by simp) hstep
  | cancels j a => exact moves_others (by simp) hstep
  | deletes j => exact moves_others (by simp) hstep
  | resolves j landed => exact moves_others (by simp) hstep
  | connects w k => exact moves_others (by simp) hstep
  | forgets w => exact moves_others (by simp) hstep
  | loses w => exact moves_loses hstep
  | grants w granted => exact moves_others (by simp) hstep
  | holdsSlots w n => exact moves_others (by simp) hstep
  | kicks w c => exact moves_others (by simp) hstep
  | reads w answered => exact moves_others (by simp) hstep
  | tracks w => exact moves_tracks hstep
  | retires c => exact moves_others (by simp) hstep

/-! ## An entry leaves once -/

/-- The entry leaves in the step, and its slot is given back: the count of its worker goes
down by one, unless the worker is not connected any more. -/
def GivesSlot (j : Nat) (e : Entry) (s t : World) : Prop :=
  s.inflight.get j = some e ∧ t.inflight.get j ≠ some e ∧
    (e.worker ∈ t.registered →
      (s.workers e.worker).map (·.jobsInFlight) = (t.workers e.worker).map (·.jobsInFlight + 1))

instance (j : Nat) (e : Entry) (s t : World) : Decidable (GivesSlot j e s t) :=
  inferInstanceAs (Decidable (_ ∧ _ ∧ (_ → _)))

/-- How often the slot of the entry is given back in a run. -/
def givings (j : Nat) (e : Entry) (s : World) : List Label → Nat
  | [] => 0
  | l :: ls =>
    match step s l with
    | none => 0
    | some t => (if GivesSlot j e s t then 1 else 0) + givings j e t ls

theorem Moves.gives (hmoves : Moves s t) (hl : Ledger s) (he : s.inflight.get j = some e)
    (hgone : t.inflight.get j ≠ some e) : GivesSlot j e s t := by
  refine ⟨he, hgone, fun hreg => ?_⟩
  cases hmoves with
  | same hget => exact absurd ((hget j).trans he) hgone
  | pops i e' w he' hinflight hidents hworkers hw =>
    by_cases hi : j = i
    · subst hi
      obtain rfl : e' = e := Option.some.inj (he'.symm.trans he)
      obtain ⟨rfl, hreg'⟩ := hw hreg
      obtain ⟨k, hk⟩ := Option.isSome_iff_exists.1 (hl.balanced.known j e' he)
      have hk : s.workers e'.worker = some k := hk
      have hpos := hl.pos he hreg' hk
      rw [hworkers, World.releaseJobSlot, World.setWorker_workers, if_pos rfl, hk]
      simp only [Option.map_some, Option.some.injEq]
      omega
    · rw [hinflight, Ordered.get_erase_of_ne hi] at hgone
      exact absurd he hgone
  | puts i w attempt n hvacant hinflight hidents hregistered =>
    by_cases hi : j = i
    · -- only the entry of a worker that is gone is written over
      subst hi
      exact absurd (hregistered ▸ hreg) (hvacant e he)
    · rw [hinflight, Ordered.get_put_of_ne hi] at hgone
      exact absurd he hgone
  | loses w hw hinflight =>
    by_cases hworker : e.worker = w
    · exact absurd (hworker ▸ hreg) hw
    · rw [hinflight] at hgone
      exact absurd (Ordered.get_filter.2 ⟨he, by simpa using hworker⟩) hgone

/-- An entry that left does not come back: a new entry is another object. -/
theorem Moves.absent (hmoves : Moves s t) (hgone : s.inflight.get j ≠ some e)
    (hfresh : e.ident < s.idents) :
    t.inflight.get j ≠ some e ∧ e.ident < t.idents := by
  cases hmoves with
  | same hget hidents =>
    rw [hget j, hidents]
    exact ⟨hgone, hfresh⟩
  | pops i e' w he' hinflight hidents =>
    rw [hinflight, hidents, Ordered.get_erase]
    refine ⟨?_, hfresh⟩
    split
    · simp
    · exact hgone
  | puts i w attempt n hvacant hinflight hidents =>
    rw [hinflight, hidents, Ordered.get_put]
    refine ⟨?_, by omega⟩
    split
    · intro heq
      have hident := congrArg Entry.ident (Option.some.inj heq)
      dsimp only at hident
      omega
    · exact hgone
  | loses w hw hinflight hidents =>
    rw [hinflight, hidents]
    exact ⟨fun heq => hgone (Ordered.get_filter.1 heq).1, hfresh⟩

theorem absent_run {ls : List Label} (hgone : s.inflight.get j ≠ some e)
    (hfresh : e.ident < s.idents) (hrun : machine.run s ls = some t)
    (hok : machine.RunOk CapacityKept s ls) :
    t.inflight.get j ≠ some e ∧ givings j e s ls = 0 := by
  induction ls generalizing s with
  | nil =>
    cases hrun
    exact ⟨hgone, rfl⟩
  | cons l ls ih =>
    rw [Machine.run, Option.bind_eq_some_iff] at hrun
    obtain ⟨u, hstep, hrun⟩ := hrun
    have hstep : step s l = some u := hstep
    obtain ⟨hgone', hfresh'⟩ := (moves_step hok.1 hstep).absent hgone hfresh
    obtain ⟨hlast, hnone⟩ := ih hgone' hfresh' hrun (hok.2 u hstep)
    refine ⟨hlast, ?_⟩
    have hnot : ¬ GivesSlot j e s u := fun hgives => hgone hgives.1
    simp only [givings, hstep, if_neg hnot, hnone]

/-- In a run an entry leaves once, with its slot, or stays with it. -/
theorem Ledger.entry_run {ls : List Label} (hl : Ledger s) (he : s.inflight.get j = some e)
    (hrun : machine.run s ls = some t) (hok : machine.RunOk CapacityKept s ls) :
    t.inflight.get j = some e ∧ givings j e s ls = 0 ∨
      t.inflight.get j ≠ some e ∧ givings j e s ls = 1 := by
  induction ls generalizing s with
  | nil =>
    cases hrun
    exact .inl ⟨he, rfl⟩
  | cons l ls ih =>
    rw [Machine.run, Option.bind_eq_some_iff] at hrun
    obtain ⟨u, hstep, hrun⟩ := hrun
    have hstep : Dispatch.step s l = some u := hstep
    have hmoves := moves_step hok.1 hstep
    by_cases he' : u.inflight.get j = some e
    · have hnot : ¬ GivesSlot j e s u := fun hgives => hgives.2.1 he'
      simp only [givings, hstep, if_neg hnot, Nat.zero_add]
      exact ih (hl.step hok.1 hstep) he' hrun (hok.2 u hstep)
    · right
      have hgives := hmoves.gives hl he he'
      have hfresh : e.ident < u.idents := by
        have hlt := hl.balanced.fresh j e he
        have hlt : e.ident < s.idents := hlt
        cases hmoves with
        | same _ hidents => omega
        | pops _ _ _ _ _ hidents => omega
        | puts _ _ _ _ _ _ hidents => omega
        | loses _ _ _ hidents => omega
      obtain ⟨hlast, hnone⟩ := absent_run he' hfresh hrun (hok.2 u hstep)
      refine ⟨hlast, ?_⟩
      simp only [givings, hstep, if_pos hgives, hnone]

/-! ## The handling of a report returns -/

/-- The row is in a terminal state, or a COMMIT that raised may have left it there. -/
def World.Ended (s : World) (j : Nat) : Prop :=
  (∃ row, s.rows j = some row ∧ row.state.terminal = true) ∨
    ∃ d, s.doubt j = some d ∧ d.row.state.terminal = true

/-- The report whose handling the step goes on with. A charge that raises is an error of
`on_worker_message`, not its return. -/
def Label.handles : Label → Option Nat
  | .charges i true | .inspects i _ | .rules i _ | .clears i => some i
  | _ => none

/-- The step in which `on_worker_message` returns: the one that accepts a report with nothing
to charge, or the last one of a report in hand. -/
inductive Returns (s t : World) : Label → Nat → Entry → Prop where
  | told {j : Nat} {current : Entry} (he : s.inflight.get j = some current) :
      Returns s t (.reports j (.cancelled 0)) j current
  | handled {l : Label} {i : Nat} {task : Task} (hl : l.handles = some i)
      (htask : s.tasks[i]? = some task) (hends : t.tasks = s.tasks.eraseIdx i) :
      Returns s t l task.job task.current

/-- The ways out that clear the entry where it is still current and the job is over: nothing
raised, and the verdict is the worker's stop, one just committed, an output that was not
usable, or an output of a job cancelled at this attempt. -/
def World.Clears (s : World) (j : Nat) (current : Entry) : Label → Prop
  | .inspects _ _ => False
  | .rules i a => a ≠ .raised ∧ ∃ v row, s.tasks[i]? = some ⟨j, current, .ruling v⟩ ∧
      s.rows j = some row ∧ row.state.terminal = true ∧
      (v = .invalid ∨ v = .done ∧ row.state = .cancelled ∧ row.attempt = current.attempt)
  | _ => True

def World.GivesBack (s : World) (l : Label) (j : Nat) (current : Entry) : Prop :=
  s.inflight.get j ≠ some current ∨ s.Clears j current l

theorem clearIfCurrent_gone (s : World) (j : Nat) (current : Entry) :
    (s.clearIfCurrent j current).inflight.get j ≠ some current := by
  unfold World.clearIfCurrent
  split
  · simp [World.untrack, World.releaseJobSlot, World.setWorker]
  · next hne => exact hne

/-- A stage is set, so the handling goes on. -/
theorem set_ne_eraseIdx {tasks : List Task} {i : Nat} {task task' : Task}
    (h : tasks[i]? = some task) : tasks.set i task' ≠ tasks.eraseIdx i := by
  intro heq
  have hlt := (List.getElem?_eq_some_iff.1 h).1
  have hlen := congrArg List.length heq
  rw [List.length_set, List.length_eraseIdx_of_lt hlt] at hlen
  omega

/-- An output is inspected and nothing comes of it. -/
theorem inspects_returns {i : Nat} {a : InspectAnswer} {task : Task}
    (htask : s.tasks[i]? = some task) (hstep : s.inspects i a = some t)
    (hends : t.tasks = s.tasks.eraseIdx i) : t.inflight = s.inflight := by
  unfold World.inspects at hstep
  split at hstep
  · split at hstep
    · cases hstep
      rfl
    · cases hstep
      exact absurd hends (set_ne_eraseIdx htask)
  · cases hstep

theorem rules_returns {i : Nat} {a : Answer} {task : Task} (htask : s.tasks[i]? = some task)
    (hstep : s.rules i a = some t) (hends : t.tasks = s.tasks.eraseIdx i)
    (hended : t.Ended task.job) (he : s.inflight.get task.job = some task.current) :
    s.Clears task.job task.current (.rules i a) ↔
      t.inflight.get task.job ≠ some task.current := by
  unfold World.rules at hstep
  split at hstep
  case h_2 => cases hstep
  case h_1 j current v hstage =>
    obtain rfl : (⟨j, current, .ruling v⟩ : Task) = task :=
      Option.some.inj (hstage.symm.trans htask)
    -- the branches that leave the entry: nothing they could clear it for
    have hkept : t.inflight = s.inflight → ¬ s.Clears j current (.rules i a) →
        (s.Clears j current (.rules i a) ↔ t.inflight.get j ≠ some current) := by
      intro hsame hnot
      rw [hsame]
      exact ⟨fun h => absurd h hnot, fun h => absurd he h⟩
    split at hstep
    case isTrue hraised =>
      cases hstep
      exact hkept rfl fun hclears => hclears.1 hraised
    case isFalse hanswered =>
      rw [Option.ite_none_right_eq_some] at hstep
      obtain ⟨hunlocked, hstep⟩ := hstep
      split at hstep
      case h_1 hrow =>
        -- there is no row that could be over
        have hnot : ¬ t.Ended j := by
          have hrows : t.rows j = none ∧ t.doubt j = none := by
            split at hstep
            · cases hstep
              unfold World.clearIfCurrent
              split
              · exact ⟨hrow, hunlocked.1⟩
              · exact ⟨hrow, hunlocked.1⟩
            · cases hstep
              exact ⟨hrow, hunlocked.1⟩
          rintro (⟨row, hrow', -⟩ | ⟨d, hd, -⟩)
          · rw [hrows.1] at hrow'
            cases hrow'
          · rw [hrows.2] at hd
            cases hd
        exact absurd hended hnot
      case h_2 row hrow =>
        split at hstep
        case isTrue hover =>
          have hterminal : row.state.terminal = true := by
            have hrows : t.rows j = some row ∧ t.doubt j = none := by
              split at hstep
              · cases hstep
                unfold World.clearIfCurrent
                split
                · exact ⟨hrow, hunlocked.1⟩
                · exact ⟨hrow, hunlocked.1⟩
              · cases hstep
                exact ⟨hrow, hunlocked.1⟩
            rcases hended with ⟨row', hrow', hterminal⟩ | ⟨d, hd, -⟩
            · obtain rfl : row = row' := Option.some.inj (hrows.1.symm.trans hrow')
              exact hterminal
            · rw [hrows.2] at hd
              cases hd
          split at hstep
          case isTrue hclears =>
            cases hstep
            constructor
            · intro _
              exact clearIfCurrent_gone s j current
            · intro _
              exact ⟨hanswered, v, row, hstage, hrow, hterminal, hclears⟩
          case isFalse hkeeps =>
            cases hstep
            refine hkept rfl ?_
            rintro ⟨-, v', row', hstage', hrow', -, hclears⟩
            obtain rfl : row = row' := Option.some.inj (hrow.symm.trans hrow')
            have hsame := Option.some.inj (hstage.symm.trans hstage')
            simp only [Task.mk.injEq, ReportStage.ruling.injEq, true_and] at hsame
            subst hsame
            exact hkeeps hclears
        case isFalse hlive =>
          cases hstep
          cases a with
          | landed => exact absurd hends (set_ne_eraseIdx htask)
          | raised => exact absurd rfl hanswered
          | inDoubt =>
            refine hkept rfl ?_
            rintro ⟨-, v', row', -, hrow', hterminal, -⟩
            obtain rfl : row = row' := Option.some.inj (hrow.symm.trans hrow')
            exact hlive (.inl hterminal)

/-- What a report had been told before it came to an end was already gone. -/
theorem handled_absent {i : Nat} {task : Task} (hledger : Ledger s) (hl : l.handles = some i)
    (htask : s.tasks[i]? = some task) (hstep : step s l = some t)
    (hgone : s.inflight.get task.job ≠ some task.current) :
    t.inflight.get task.job ≠ some task.current := by
  have hfresh : task.current.ident < s.idents :=
    hledger.balanced.taskFresh task (List.mem_of_getElem? htask)
  have hmoves : Moves s t := by
    unfold Label.handles at hl
    split at hl
    · exact moves_charges hstep
    · exact moves_others (by simp) hstep
    · exact moves_rules hstep
    · exact moves_clears hstep
    · cases hl
  exact (hmoves.absent hgone hfresh).1

/-- Whether the entry of a job that is over is gone when the handling returns. -/
theorem returns_gone (hledger : Ledger s) (hreturns : Returns s t l j current)
    (hstep : step s l = some t) (hended : t.Ended j) :
    s.GivesBack l j current ↔ t.inflight.get j ≠ some current := by
  cases hreturns with
  | told he =>
    have hstep : s.reports j (.cancelled 0) = some t := hstep
    rw [World.reports, he] at hstep
    dsimp only at hstep
    split at hstep
    · cases hstep
    · cases hstep
      constructor
      · intro _
        exact clearIfCurrent_gone s j current
      · intro _
        exact .inr trivial
  | @handled _ i task hl htask hends =>
    by_cases he : s.inflight.get task.job = some task.current
    case neg =>
      constructor
      · intro _
        exact handled_absent hledger hl htask hstep he
      · intro _
        exact .inl he
    case pos =>
      have hgives : s.GivesBack l task.job task.current ↔ s.Clears task.job task.current l := by
        constructor
        · rintro (hgone | hclears)
          · exact absurd he hgone
          · exact hclears
        · exact .inr
      rw [hgives]
      have hcleared : t.inflight = (s.clearIfCurrent task.job task.current).inflight →
          t.inflight.get task.job ≠ some task.current := by
        intro hsame
        rw [hsame]
        exact clearIfCurrent_gone s task.job task.current
      unfold Label.handles at hl
      split at hl
      · -- a stop with time to charge
        cases hl
        have hstep : s.charges i true = some t := hstep
        unfold World.charges at hstep
        split at hstep
        · next j current hstage =>
          obtain rfl : (⟨j, current, .charging⟩ : Task) = task :=
            Option.some.inj (hstage.symm.trans htask)
          rw [if_pos rfl, Option.ite_none_right_eq_some] at hstep
          obtain ⟨-, hstep⟩ := hstep
          cases hstep
          exact ⟨fun _ => hcleared rfl, fun _ => trivial⟩
        · cases hstep
      · cases hl
        have hstep : s.inspects i _ = some t := hstep
        rw [inspects_returns htask hstep hends]
        exact ⟨False.elim, fun hgone => absurd he hgone⟩
      · cases hl
        exact rules_returns htask hstep hends hended he
      · -- the verdict is committed
        cases hl
        have hstep : s.clears i = some t := hstep
        unfold World.clears at hstep
        split at hstep
        · next j current hstage =>
          obtain rfl : (⟨j, current, .clearing⟩ : Task) = task :=
            Option.some.inj (hstage.symm.trans htask)
          cases hstep
          exact ⟨fun _ => hcleared rfl, fun _ => trivial⟩
        · cases hstep
      · cases hl

theorem run_append {ls : List Label} {s₀ : World} (hrun : machine.run s₀ ls = some s)
    (hstep : step s l = some t) : machine.run s₀ (ls ++ [l]) = some t := by
  induction ls generalizing s₀ with
  | nil =>
    cases hrun
    show (machine.step s l).bind _ = some t
    rw [show machine.step s l = some t from hstep]
    rfl
  | cons l' ls ih =>
    rw [Machine.run, Option.bind_eq_some_iff] at hrun
    obtain ⟨u, hu, hrun⟩ := hrun
    rw [List.cons_append, Machine.run, hu]
    exact ih hrun

theorem runOk_left {ls ls' : List Label} {s₀ : World}
    (hok : machine.RunOk CapacityKept s₀ (ls ++ ls')) : machine.RunOk CapacityKept s₀ ls := by
  induction ls generalizing s₀ with
  | nil => trivial
  | cons l ls ih => exact ⟨hok.1, fun u hu => ih (hok.2 u hu)⟩

theorem verdict_gives_back {s₀ : World} {ls : List Label} (h₀ : machine.Reach CapacityKept s₀)
    (he : s₀.inflight.get j = some current) (hrun : machine.run s₀ ls = some s)
    (hok : machine.RunOk CapacityKept s₀ (ls ++ [l])) (hstep : step s l = some t)
    (hreturns : Returns s t l j current) (hended : t.Ended j) :
    s.GivesBack l j current ↔
      t.inflight.get j ≠ some current ∧ givings j current s₀ (ls ++ [l]) = 1 ∧
        ∀ k, current.worker ∈ t.registered → t.workers current.worker = some k →
          k.jobsInFlight = t.books.held current.worker := by
  have hreachLedger : ∀ {u : World}, machine.Reach CapacityKept u → Ledger u := by
    rintro u ⟨start, hstart, hpath⟩
    exact Ledger.run hstart hpath
  have hl₀ := hreachLedger h₀
  have hl := hreachLedger (h₀.path (Machine.path_of_run hrun (runOk_left hok)))
  have hrun' := run_append hrun hstep
  have hl' := hreachLedger (h₀.path (Machine.path_of_run hrun' hok))
  rw [returns_gone hl hreturns hstep hended]
  constructor
  · intro hgone
    refine ⟨hgone, ?_, fun k hreg hk => hl'.balanced.count _ k hk hreg⟩
    rcases hl₀.entry_run he hrun' hok with ⟨hstays, -⟩ | ⟨-, honce⟩
    · exact absurd hstays hgone
    · exact honce
  · exact fun h => h.1

/-! ## A job cancelled while it runs -/

section Sample

def offered : List Label :=
  [.connects 4 ⟨none, false, [0], 0, 0⟩, .begins, .recovers, .sweeps false, .scans, .asks true,
    .locks true]

def sampleOffered : World := (machine.run sampleStart offered).getD sampleStart

/-- The job runs on the worker, which holds its slot. -/
def sampleRunning : World :=
  (machine.run sampleOffered [.publishes true, .sends true, .commits .landed]).getD sampleStart

def sampleEntry : Entry := ⟨0, 4, 1, none⟩

theorem offered_vacant : CapacityKept sampleOffered (.publishes true) := by
  intro j _ e he
  have hnone : sampleOffered.inflight.get j = none := rfl
  rw [hnone] at he
  cases he

theorem sampleRunning_reach : machine.Reach CapacityKept sampleRunning := by
  have hoffered : machine.run sampleStart offered = some sampleOffered := rfl
  have hpath : machine.Path CapacityKept sampleStart sampleOffered :=
    Machine.path_of_run hoffered
      ⟨trivial, fun _ _ => ⟨trivial, fun _ _ => ⟨trivial, fun _ _ => ⟨trivial, fun _ _ =>
        ⟨trivial, fun _ _ => ⟨trivial, fun _ _ => ⟨trivial, fun _ _ => trivial⟩⟩⟩⟩⟩⟩⟩
  have hrun : machine.run sampleOffered [.publishes true, .sends true, .commits .landed] =
      some sampleRunning := rfl
  refine ⟨sampleStart, sampleStart_starts, hpath.trans (Machine.path_of_run hrun ?_)⟩
  exact ⟨offered_vacant, fun _ _ => ⟨trivial, fun _ _ => ⟨trivial, fun _ _ => trivial⟩⟩⟩

/-- The worker was not told, and its output comes in. -/
def cancelledDone : List Label := [.cancels 1 .landed, .reports 1 .done, .inspects 0 .good]

def sampleJudged : World := (machine.run sampleRunning cancelledDone).getD sampleStart

def sampleSettled : World := (step sampleJudged (.rules 0 .landed)).getD sampleStart

theorem verdict_gives_back_sample :
    (sampleRunning.workers 4).map (·.jobsInFlight) = some 1 ∧
      (sampleSettled.workers 4).map (·.jobsInFlight) = some 0 ∧
        sampleSettled.inflight.get 1 ≠ some sampleEntry := by
  have hrun : machine.run sampleRunning cancelledDone = some sampleJudged := rfl
  have hok : machine.RunOk CapacityKept sampleRunning (cancelledDone ++ [.rules 0 .landed]) :=
    ⟨trivial, fun _ _ => ⟨trivial, fun _ _ => ⟨trivial, fun _ _ => ⟨trivial, fun _ _ => trivial⟩⟩⟩⟩
  have hreturns : Returns sampleJudged sampleSettled (.rules 0 .landed) 1 sampleEntry :=
    Returns.handled (i := 0) rfl
      (rfl : sampleJudged.tasks[0]? = some ⟨1, sampleEntry, .ruling .done⟩) rfl
  have hended : sampleSettled.Ended 1 := .inl ⟨_, rfl, rfl⟩
  have hclears : sampleJudged.GivesBack (.rules 0 .landed) 1 sampleEntry :=
    .inr ⟨by decide, .done, _, rfl, rfl, rfl, .inr ⟨rfl, rfl, rfl⟩⟩
  have hback := (verdict_gives_back sampleRunning_reach rfl hrun hok rfl hreturns hended).1 hclears
  exact ⟨rfl, rfl, hback.1⟩

/-- The worker reports a failure instead. -/
def cancelledFailed : List Label := [.cancels 1 .landed, .reports 1 .failed]

def sampleFailed : World := (machine.run sampleRunning cancelledFailed).getD sampleStart

def sampleLeft : World := (step sampleFailed (.rules 0 .landed)).getD sampleStart

/-- The row is cancelled, nothing raised, and the worker's slot stays taken. -/
theorem failed_report_keeps_slot : ¬ ∀ (s₀ s t : World) (ls : List Label) (l : Label) (j : Nat)
    (current : Entry), machine.Reach CapacityKept s₀ → s₀.inflight.get j = some current →
    machine.run s₀ ls = some s → machine.RunOk CapacityKept s₀ (ls ++ [l]) →
    step s l = some t → Returns s t l j current → t.Ended j →
      t.inflight.get j ≠ some current ∧ givings j current s₀ (ls ++ [l]) = 1 := by
  intro hall
  have hrun : machine.run sampleRunning cancelledFailed = some sampleFailed := rfl
  have hok : machine.RunOk CapacityKept sampleRunning (cancelledFailed ++ [.rules 0 .landed]) :=
    ⟨trivial, fun _ _ => ⟨trivial, fun _ _ => ⟨trivial, fun _ _ => trivial⟩⟩⟩
  have hreturns : Returns sampleFailed sampleLeft (.rules 0 .landed) 1 sampleEntry :=
    Returns.handled (i := 0) rfl
      (rfl : sampleFailed.tasks[0]? = some ⟨1, sampleEntry, .ruling .failed⟩) rfl
  have hended : sampleLeft.Ended 1 := .inl ⟨_, rfl, rfl⟩
  have hback := hall _ _ _ _ _ _ _ sampleRunning_reach rfl hrun hok rfl hreturns hended
  exact hback.1 rfl

end Sample

end Potocolom.Dispatch
