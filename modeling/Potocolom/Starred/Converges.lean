import Potocolom.Starred.Synchronous

/-! # The list converges

Once a snapshot has been shown, the list and the server's differ by the toggles under way
only, whatever is toggled or fails afterwards. So the list is the server's when the newest
load of it was shown; it is not when that load was dropped for toggles that all failed. -/

namespace Potocolom.Starred

variable {α : Type} [DecidableEq α] {s t : Studio α} {id : α} {n : Nat}
  {operation : Operation α} {sending : Sending α} {mayFail : Studio α → Sending α → Prop}

/-! ## Agreement -/

theorem nodup_begin {starredIds : List α} (h : starredIds.Nodup) (id : α) :
    (beginOptimisticStarMutation starredIds id).1.Nodup := by
  unfold beginOptimisticStarMutation
  by_cases hin : id ∈ starredIds
  · simp only [hin, decide_true, if_true]
    exact h.filter _
  · simp only [hin, decide_false, Bool.false_eq_true, if_false]
    exact List.nodup_cons.2 ⟨hin, h⟩

theorem nodup_rollback {starredIds : List α} (h : starredIds.Nodup)
    (mutation : OptimisticStarMutation α) :
    (rollbackOptimisticStarMutation starredIds mutation).Nodup := by
  unfold rollbackOptimisticStarMutation
  split
  · exact h.filter _
  · split
    · exact h
    · next hnot =>
      have hperm := List.perm_insertIdx mutation.id starredIds
        (Nat.min_le_right mutation.previousIndex starredIds.length)
      rw [hperm.nodup_iff]
      exact List.nodup_cons.2 ⟨hnot, h⟩

/-- The list and the server's differ by the toggles under way. -/
structure Agrees (s : Studio α) : Prop where
  nodup : s.starredIds.Nodup
  sending : ∀ n id sending, Sends s n id sending →
    (id ∈ s.server ↔ (sending.mutation.wasStarred ^^ sending.applied) = true)
  listed : ∀ id, (∀ n sending, ¬ Sends s n id sending) → (id ∈ s.starredIds ↔ id ∈ s.server)

omit [DecidableEq α] in
theorem Agrees.same (h : Agrees s)
    (hsends : ∀ m id sending, Sends t m id sending ↔ Sends s m id sending)
    (hstarred : t.starredIds = s.starredIds) (hserver : t.server = s.server) : Agrees t := by
  constructor
  · rw [hstarred]
    exact h.nodup
  · intro m id sending hm
    rw [hserver]
    exact h.sending m id sending ((hsends m id sending).1 hm)
  · intro id hnone
    rw [hstarred, hserver]
    exact h.listed id fun m sending hm => hnone m sending ((hsends m id sending).2 hm)

theorem Agrees.perform (h : Agrees s) (hserial : Serial s)
    (hoperation : s.operations n = some operation) (hwaiting : operation.stage = .waiting)
    (hprevious : s.Resolved operation.previous) : Agrees (s.perform n operation) := by
  have hlisted : operation.id ∈ s.starredIds ↔ operation.id ∈ s.server :=
    h.listed operation.id fun _ _ => hserial.none_before hoperation hwaiting hprevious
  constructor
  · exact nodup_begin h.nodup operation.id
  · intro m id sending hm
    rcases (perform_sends hoperation hwaiting).1 hm with ⟨-, rfl, rfl⟩ | hold
    · show operation.id ∈ s.server ↔ (decide (operation.id ∈ s.starredIds) ^^ false) = true
      rw [Bool.xor_false, decide_eq_true_iff]
      exact hlisted.symm
    · exact h.sending m id sending hold
  · intro id hnone
    have hmem := mem_begin s.starredIds operation.id id
    have hne : id ≠ operation.id := by
      rintro rfl
      exact hnone n _ ((perform_sends hoperation hwaiting).2 (.inl ⟨rfl, rfl, rfl⟩))
    rw [if_neg hne] at hmem
    refine hmem.trans (h.listed id fun m sending hm => ?_)
    exact hnone m sending ((perform_sends hoperation hwaiting).2 (.inr hm))

theorem mem_apply {other : α} :
    other ∈ (s.apply n operation sending).server ↔
      if other = operation.id then sending.mutation.wasStarred = false else other ∈ s.server := by
  show other ∈ (if sending.mutation.wasStarred then s.server.filter fun x => x ≠ operation.id
    else if operation.id ∈ s.server then s.server else operation.id :: s.server) ↔ _
  by_cases heq : other = operation.id
  · cases hwas : sending.mutation.wasStarred with
    | true => simp [heq]
    | false =>
      by_cases hin : operation.id ∈ s.server
      · simp [heq, hin]
      · simp [heq, hin]
  · cases hwas : sending.mutation.wasStarred with
    | true => simp [heq]
    | false =>
      by_cases hin : operation.id ∈ s.server
      · simp [heq, hin]
      · simp [heq, hin]

theorem Agrees.apply (h : Agrees s) (hserial : Serial s)
    (hoperation : s.operations n = some operation) (hstage : operation.stage = .sending sending) :
    Agrees (s.apply n operation sending) := by
  have hn : Sends s n operation.id sending := ⟨operation, hoperation, rfl, hstage⟩
  refine ⟨h.nodup, ?_, ?_⟩
  · intro m id sending' hm
    obtain ⟨old, hold, rfl⟩ := (apply_sends hoperation hstage).1 hm
    rw [mem_apply]
    by_cases heq : id = operation.id
    · subst heq
      obtain rfl := hserial.alone hold hn
      have hsame : old = sending := by
        obtain ⟨other, hother, -, hstage'⟩ := hold
        rw [hoperation] at hother
        cases hother
        rw [hstage] at hstage'
        cases hstage'
        rfl
      rw [if_pos rfl, if_pos rfl, hsame, Bool.xor_true, Bool.not_eq_true']
    · have hne : m ≠ n := by
        rintro rfl
        obtain ⟨other, hother, hid, -⟩ := hold
        rw [hoperation] at hother
        cases hother
        exact heq hid.symm
      rw [if_neg heq, if_neg hne]
      exact h.sending m id old hold
  · intro id hnone
    have hne : id ≠ operation.id := by
      rintro rfl
      exact hnone n _ ((apply_sends hoperation hstage).2 ⟨sending, hn, rfl⟩)
    rw [mem_apply, if_neg hne]
    refine h.listed id fun m old hm => ?_
    exact hnone m _ ((apply_sends hoperation hstage).2 ⟨old, hm, rfl⟩)

omit [DecidableEq α] in
/-- A toggle ends, and the list shows its generation as the server has it. -/
theorem Agrees.ends (h : Agrees s) (hsends : ∀ m id sending,
      Sends t m id sending ↔ m ≠ n ∧ Sends s m id sending)
    (hn : ∀ id sending, Sends s n id sending → id = operation.id)
    (hnodup : t.starredIds.Nodup) (hserver : t.server = s.server)
    (hshown : operation.id ∈ t.starredIds ↔ operation.id ∈ s.server)
    (hothers : ∀ id, id ≠ operation.id → (id ∈ t.starredIds ↔ id ∈ s.starredIds)) :
    Agrees t := by
  refine ⟨hnodup, ?_, ?_⟩
  · intro m id sending hm
    rw [hserver]
    exact h.sending m id sending ((hsends m id sending).1 hm).2
  · intro id hnone
    rw [hserver]
    by_cases heq : id = operation.id
    · rw [heq]
      exact hshown
    · refine (hothers id heq).trans (h.listed id fun m sending hm => ?_)
      refine hnone m sending ((hsends m id sending).2 ⟨?_, hm⟩)
      rintro rfl
      exact heq (hn id sending hm)

omit [DecidableEq α] in
theorem Agrees.settle {starredIds : List α} (h : Agrees s) {succeeded : Bool}
    (hoperation : s.operations n = some operation) (hstage : operation.stage = .sending sending)
    (happlied : sending.applied = succeeded) (hnodup : starredIds.Nodup)
    (hshown : operation.id ∈ starredIds ↔ (sending.mutation.wasStarred ^^ succeeded) = true)
    (hothers : ∀ id, id ≠ operation.id → (id ∈ starredIds ↔ id ∈ s.starredIds)) :
    Agrees (({ s with starredIds := starredIds }).settleMutation n operation sending
      succeeded) := by
  have hn : Sends s n operation.id sending := ⟨operation, hoperation, rfl, hstage⟩
  have hrolled : ({ s with starredIds := starredIds } : Studio α).operations n =
      some operation := hoperation
  have hid : ∀ id sending, Sends s n id sending → id = operation.id := by
    rintro id sending' ⟨other, hother, hid, -⟩
    rw [hoperation] at hother
    cases hother
    exact hid.symm
  refine h.ends (fun _ _ _ => settle_sends hrolled) hid ?_ ?_ ?_ ?_
  · rw [settle_starredIds]
    exact hnodup
  · rw [settle_server]
  · rw [settle_starredIds, h.sending n _ sending hn, happlied]
    exact hshown
  · intro id hne
    rw [settle_starredIds]
    exact hothers id hne

/-- A snapshot that is shown is the server's list. -/
theorem Snapshot.shown {load : ListLoad α} {listing : List α} (h : Snapshot s load)
    (hlisting : load.listing = some listing) (hrequests : Requests s)
    (hpending : s.pendingStarredMutations = []) :
    (collect listing (listing.length + 1) none).Nodup ∧
      ∀ id, id ∈ collect listing (listing.length + 1) none ↔ id ∈ s.server := by
  obtain ⟨hnodup, hlist⟩ := h.listing listing hlisting
  rw [collect_listing hnodup]
  refine ⟨hnodup, ?_⟩
  rcases hlist with hsame | ⟨m, id, sending, hm, -⟩ | hwaits
  · exact hsame
  · exact absurd hm (hrequests.tokens.none hpending)
  · exact absurd hpending hwaits.2

/-- Some snapshot has been shown. -/
def Shown (s : Studio α) : Prop := ∃ r, s.outcome r = some .accepted

omit [DecidableEq α] in
theorem Shown.before {r : Nat} {outcome : Outcome} (hne : outcome ≠ .accepted)
    (houtcome : t.outcome = Function.update s.outcome r (some outcome)) (h : Shown t) :
    Shown s := by
  obtain ⟨r', hr'⟩ := h
  rw [houtcome] at hr'
  by_cases heq : r' = r
  · rw [heq, Function.update_self] at hr'
    exact absurd (Option.some.inj hr') hne
  · rw [Function.update_of_ne heq] at hr'
    exact ⟨r', hr'⟩

theorem agrees_does (hrequests : Requests s)
    (hsnapshot : ∀ load, Current s load → Snapshot s load) (h : Shown s → Agrees s)
    (hdoes : Does mayFail s t) (hshown : Shown t) : Agrees t := by
  cases hdoes with
  | toggle other =>
    exact (h hshown).same (fun _ _ _ => toggle_sends hrequests.serial) rfl rfl
  | perform n operation hoperation hwaiting hprevious =>
    exact (h hshown).perform hrequests.serial hoperation hwaiting hprevious
  | apply n operation sending hoperation hstage _ =>
    exact (h hshown).apply hrequests.serial hoperation hstage
  | succeed n operation sending hoperation hstage happlied =>
    have hbefore : Shown s := by
      obtain ⟨r, hr⟩ := hshown
      rw [settle_outcome] at hr
      exact ⟨r, hr⟩
    refine (h hbefore).settle hoperation hstage happlied (h hbefore).nodup ?_ fun _ _ => Iff.rfl
    have hn : Sends s n operation.id sending := ⟨operation, hoperation, rfl, hstage⟩
    rw [(hrequests.optimistic n _ sending hn).2, Bool.xor_true, Bool.not_eq_true']
  | fail n operation sending hoperation hstage happlied _ =>
    have hbefore : Shown s := by
      obtain ⟨r, hr⟩ := hshown
      rw [settle_outcome] at hr
      exact ⟨r, hr⟩
    have hn : Sends s n operation.id sending := ⟨operation, hoperation, rfl, hstage⟩
    have hid : sending.mutation.id = operation.id := (hrequests.optimistic n _ sending hn).1
    refine (h hbefore).settle hoperation hstage happlied
      (nodup_rollback (h hbefore).nodup sending.mutation) ?_ fun id hne => ?_
    · rw [mem_rollback, hid, if_pos rfl, Bool.xor_false]
    · rw [mem_rollback, hid, if_neg hne]
  | resolve n operation reload hoperation hstage =>
    have hadvances : Advances s (s.setStage n operation .resolved) n operation .resolved :=
      ⟨hoperation, rfl, rfl, rfl⟩
    refine (h hshown).same (fun m id sending => hadvances.sends_same ?_ ?_) rfl rfl
    · rw [hstage]
      exact fun _ heq => by cases heq
    · exact fun _ heq => by cases heq
  | clean n operation _ _ _ => exact (h hshown).same (fun _ _ _ => Iff.rfl) rfl rfl
  | nothing => exact h hshown
  | load => exact (h hshown).same (fun _ _ _ => Iff.rfl) rfl rfl
  | answer requestEpoch load listing => exact (h hshown).same (fun _ _ _ => Iff.rfl) rfl rfl
  | receive requestEpoch load listing hload hlisting =>
    cases hcurrent : starredListSnapshotIsCurrent requestEpoch s.starredListRequestEpoch
      load.mutationEpoch s.starredMutationEpoch
      (decide (s.pendingStarredMutations.length > 0)) with
    | false =>
      rw [receive_drops hcurrent] at hshown ⊢
      have hbefore : Shown s := hshown.before (by decide) rfl
      exact (h hbefore).same (fun _ _ _ => Iff.rfl) rfl rfl
    | true =>
      obtain ⟨hrequest, hmutation, hpending⟩ := current_pending hcurrent
      obtain ⟨hnodup, hlist⟩ := (hsnapshot load ⟨hrequest ▸ hload, hmutation⟩).shown hlisting
        hrequests hpending
      rw [receive_accepts hcurrent]
      refine ⟨hnodup, ?_, fun id _ => hlist id⟩
      exact fun m id sending hm => absurd hm (hrequests.tokens.none hpending)
  | abort requestEpoch load hload =>
    have hbefore : Shown s := hshown.before (by decide) rfl
    exact (h hbefore).same (fun _ _ _ => Iff.rfl) rfl rfl

/-! ## Snapshots that are lost -/

/-- The newest load of the list was dropped, or a toggle has begun since so that it will be. -/
def Lost (s : Studio α) : Prop :=
  s.outcome s.starredListRequestEpoch = some .dropped ∨
    ∃ load ∈ s.loads s.starredListRequestEpoch, load.mutationEpoch ≠ s.starredMutationEpoch

instance (s : Studio α) : Decidable (Lost s) :=
  inferInstanceAs (Decidable (_ ∨ ∃ load ∈ s.loads s.starredListRequestEpoch, _))

omit [DecidableEq α] in
/-- A load that has just begun is not lost. -/
theorem fresh_not_lost (hloads : Loads s) {load : ListLoad α} {r : Nat}
    (hepoch : t.starredListRequestEpoch = r) (hr : s.starredListRequestEpoch < r)
    (hload : t.loads r = some load) (hmutation : load.mutationEpoch = t.starredMutationEpoch)
    (houtcome : t.outcome = s.outcome) : ¬ Lost t := by
  rintro (hdropped | ⟨load', hload', hne⟩)
  · rw [hepoch, houtcome] at hdropped
    have hle := hloads.outcome r _ hdropped
    omega
  · rw [hepoch, Option.mem_def, hload] at hload'
    cases hload'
    exact hne hmutation

omit [DecidableEq α] in
theorem lost_settle {succeeded : Bool} (hloads : Loads s)
    (h : (s.starredListDirty || succeeded) = false → ¬ Lost s)
    (hpending : s.pendingStarredMutations.erase sending.token = []) :
    ¬ Lost (s.settleMutation n operation sending succeeded) := by
  rcases settle_loads (s := s) (n := n) with ⟨hepoch, hupdate⟩ | ⟨hepoch, hsame, hopen⟩
  · have hload : (s.settleMutation n operation sending succeeded).loads
        (s.starredListRequestEpoch + 1) =
          some ⟨s.starredMutationEpoch, s.trace.length + 1, none⟩ := by
      rw [hupdate, Function.update_self]
    refine fresh_not_lost hloads hepoch (Nat.lt_succ_self _) hload ?_ settle_outcome
    rw [settle_mutationEpoch]
  · have hclean : (s.starredListDirty || succeeded) = false := by
      cases hdirty : s.starredListDirty || succeeded with
      | true => exact absurd hpending (hopen hdirty)
      | false => rfl
    intro hlost
    apply h hclean
    unfold Lost at hlost
    rw [hepoch, settle_outcome, hsame, settle_mutationEpoch] at hlost
    exact hlost

omit [DecidableEq α] in
/-- A load that ends otherwise than for a toggle is not lost; nor is the newest one when
another ends. -/
theorem lost_ends {r : Nat} {outcome : Outcome} (hlost : Lost t)
    (hloads : t.loads = Function.update s.loads r none)
    (houtcome : t.outcome = Function.update s.outcome r (some outcome))
    (hepoch : t.starredListRequestEpoch = s.starredListRequestEpoch)
    (hmutation : t.starredMutationEpoch = s.starredMutationEpoch) :
    Lost s ∨ r = s.starredListRequestEpoch ∧ outcome = .dropped := by
  unfold Lost at hlost
  rw [hepoch, houtcome, hloads, hmutation] at hlost
  by_cases heq : s.starredListRequestEpoch = r
  · rw [heq, Function.update_self, Function.update_self] at hlost
    rcases hlost with hdropped | ⟨load, hload, -⟩
    · exact .inr ⟨heq.symm, Option.some.inj hdropped⟩
    · cases hload
  · rw [Function.update_of_ne heq, Function.update_of_ne heq] at hlost
    exact .inl hlost

/-- Whatever a toggle that fails leaves behind is loaded anew: the list is dirty, or another
toggle is pending, unless no load of the list was lost. -/
def Recovers (s : Studio α) (sending : Sending α) : Prop :=
  Lost s → s.starredListDirty = true ∨ s.pendingStarredMutations ≠ [sending.token]

instance (s : Studio α) (sending : Sending α) : Decidable (Recovers s sending) :=
  inferInstanceAs (Decidable (Lost s → _ ∨ _))

theorem kept_does (hrequests : Requests s) (hloads : Loads s)
    (h : s.pendingStarredMutations = [] → ¬ Lost s) (hdoes : Does Recovers s t)
    (hpending : t.pendingStarredMutations = []) : ¬ Lost t := by
  cases hdoes with
  | toggle id => exact h hpending
  | perform n operation _ _ _ =>
    have hempty : s.pendingStarredMutations ++ [s.starredMutationSequence + 1] = [] := hpending
    exact absurd hempty (List.append_ne_nil_of_right_ne_nil _ (List.cons_ne_nil _ _))
  | apply n operation sending _ _ _ => exact h hpending
  | succeed n operation sending _ _ _ =>
    rw [settle_pending] at hpending
    refine lost_settle hloads (fun hclean => ?_) hpending
    rw [Bool.or_true] at hclean
    cases hclean
  | fail n operation sending hoperation hstage _ hrecovers =>
    rw [settle_pending] at hpending
    have hrolled : Loads (s.rollback sending) := ⟨hloads.load, hloads.outcome⟩
    refine lost_settle hrolled (fun hclean hlost => ?_) hpending
    have herase : s.pendingStarredMutations.erase sending.token = [] := hpending
    rw [Bool.or_false] at hclean
    rcases hrecovers hlost with hdirty | hothers
    · have hnot : s.starredListDirty = false := hclean
      rw [hnot] at hdirty
      cases hdirty
    · -- the toggle that fails is the only one pending
      have hin := hrequests.tokens.pending n _ sending ⟨operation, hoperation, rfl, hstage⟩
      rcases List.erase_eq_nil_iff.1 herase with hnil | hone
      · rw [hnil] at hin
        exact absurd hin List.not_mem_nil
      · exact hothers hone
  | resolve n operation reload _ _ => exact h hpending
  | clean n operation _ _ _ => exact h hpending
  | nothing => exact h hpending
  | load =>
    have hupdate : (s.load).loads (s.starredListRequestEpoch + 1) =
        some ⟨s.starredMutationEpoch, s.trace.length, none⟩ := Function.update_self _ _ _
    exact fresh_not_lost hloads rfl (Nat.lt_succ_self _) hupdate rfl rfl
  | answer requestEpoch load listing hload _ _ _ =>
    rintro (hdropped | ⟨load', hload', hne⟩)
    · exact h hpending (.inl hdropped)
    · have hupdate : Function.update s.loads requestEpoch
          (some { load with listing := some listing }) s.starredListRequestEpoch = some load' :=
        hload'
      by_cases heq : s.starredListRequestEpoch = requestEpoch
      · rw [heq, Function.update_self] at hupdate
        cases hupdate
        exact h hpending (.inr ⟨load, heq ▸ hload, hne⟩)
      · rw [Function.update_of_ne heq] at hupdate
        exact h hpending (.inr ⟨load', hupdate, hne⟩)
  | receive requestEpoch load listing hload _ =>
    cases hcurrent : starredListSnapshotIsCurrent requestEpoch s.starredListRequestEpoch
      load.mutationEpoch s.starredMutationEpoch
      (decide (s.pendingStarredMutations.length > 0)) with
    | false =>
      rw [receive_drops hcurrent] at hpending ⊢
      have hnone : s.pendingStarredMutations = [] := hpending
      intro hlost
      have hends : Lost s ∨ requestEpoch = s.starredListRequestEpoch ∧
          Outcome.dropped = Outcome.dropped := lost_ends hlost rfl rfl rfl rfl
      rcases hends with hbefore | ⟨hnewest, -⟩
      · exact h hnone hbefore
      · -- nothing is pending, so that a toggle had begun since
        apply h hnone
        refine .inr ⟨load, hnewest ▸ hload, fun heq => ?_⟩
        simp [starredListSnapshotIsCurrent, hnewest, heq, hnone] at hcurrent
    | true =>
      rw [receive_accepts hcurrent] at hpending ⊢
      intro hlost
      have hends : Lost s ∨ requestEpoch = s.starredListRequestEpoch ∧
          Outcome.accepted = Outcome.dropped := lost_ends hlost rfl rfl rfl rfl
      rcases hends with hbefore | ⟨-, hdropped⟩
      · exact h hpending hbefore
      · cases hdropped
  | abort requestEpoch load hload =>
    intro hlost
    have hends : Lost s ∨ requestEpoch = s.starredListRequestEpoch ∧
        Outcome.failed = Outcome.dropped := lost_ends hlost rfl rfl rfl rfl
    rcases hends with hbefore | ⟨-, hdropped⟩
    · exact h hpending hbefore
    · cases hdropped

/-! ## Whole runs -/

/-- What holds of the list in every run. -/
structure Invariant (s : Studio α) : Prop where
  requests : Requests s
  loads : Loads s
  snapshot : ∀ load, Current s load → Snapshot s load
  agrees : Shown s → Agrees s

omit [DecidableEq α] in
theorem start_invariant (h : Start s) : Invariant s := by
  refine ⟨⟨start_serial h, start_tokens h, ?_⟩, start_loads h, ?_, ?_⟩
  · exact fun _ _ _ hn => absurd hn (start_sends h)
  · rintro load ⟨hload, -⟩
    rw [h.loads] at hload
    cases hload
  · rintro ⟨r, hr⟩
    rw [h.outcome r] at hr
    cases hr

theorem Invariant.does (h : Invariant s) (hdoes : Does mayFail s t) : Invariant t where
  requests := h.requests.does hdoes
  loads := h.loads.does hdoes
  snapshot := snapshot_does h.requests h.loads h.snapshot hdoes
  agrees := agrees_does h.requests h.snapshot h.agrees hdoes

theorem reach_invariant {ok : Studio α → Label α → Prop} (h : (machine α).Reach ok s) :
    Invariant s := by
  apply h.invariant
  · exact fun s hs => start_invariant hs
  · intro s l t hs _ hstep
    exact hs.does (step_does within_any hstep)

/-- Unless the toggles that fail leave something behind, no load is lost for good. -/
theorem reach_kept (h : (machine α).Reach (fun s l => l.Within Recovers s) s)
    (hpending : s.pendingStarredMutations = []) : ¬ Lost s := by
  have hkept : s.pendingStarredMutations = [] → ¬ Lost s := by
    apply h.invariant_of (fun s hs => reach_invariant hs)
    · rintro s hs - (hdropped | ⟨load, hload, -⟩)
      · rw [hs.outcome] at hdropped
        cases hdropped
      · rw [hs.loads] at hload
        cases hload
    · intro s l t hs hkept hwithin hstep
      exact kept_does hs.requests hs.loads hkept (step_does hwithin hstep)
  exact hkept hpending

/-- No request of a toggle of the generation is under way. -/
def Settled (s : Studio α) (id : α) : Prop := ∀ n sending, ¬ Sends s n id sending

/-- Every page of the newest load of the list has come, whether it was shown or dropped. -/
def LoadSucceeded (s : Studio α) : Prop :=
  ∃ outcome, s.outcome s.starredListRequestEpoch = some outcome ∧ outcome ≠ .failed

/-- What the list keeps to. -/
structure Orderly (s : Studio α) : Prop where
  alone : ∀ n m id sending sending', Sends s n id sending → Sends s m id sending' → n = m
  turns : ∀ n operation m earlier, s.operations n = some operation →
    s.operations m = some earlier → earlier.id = operation.id → m < n →
    operation.stage ≠ .waiting → earlier.stage = .resolved
  /-- Since a snapshot that is shown was asked for, no toggle has begun, and none that had begun
  before has succeeded. -/
  shown : ∀ r t, step s (.receives r) = some t → t.starredIds = s.starredIds ∨
    ∃ load, s.loads r = some load ∧ ∀ id, Event.begun id ∉ s.trace.drop load.began ∧
      Event.settled id true ∉ s.trace.drop load.began
  flipped : ∀ t, (machine α).Path NoSnapshot s t → ∀ id, Settled s id → Settled t id →
    ∃ k, flips t id = flips s id + k ∧ ((id ∈ t.starredIds ↔ id ∈ s.starredIds) ↔ Even k)

/-- The list is the server's when nothing is under way. -/
def Converged (s : Studio α) : Prop :=
  (∀ id, Settled s id) → LoadSucceeded s →
    s.starredIds.Nodup ∧ ∀ id, id ∈ s.starredIds ↔ id ∈ s.server

theorem Invariant.shown (h : Invariant s) {r : Nat} (hstep : step s (.receives r) = some t) :
    t.starredIds = s.starredIds ∨
      ∃ load, s.loads r = some load ∧ ∀ id, Event.begun id ∉ s.trace.drop load.began ∧
        Event.settled id true ∉ s.trace.drop load.began := by
  simp only [step] at hstep
  split at hstep
  · next mutationEpoch began listing hload =>
    cases hstep
    cases hcurrent : starredListSnapshotIsCurrent r s.starredListRequestEpoch mutationEpoch
      s.starredMutationEpoch (decide (s.pendingStarredMutations.length > 0)) with
    | false => exact .inl (receive_starredIds hcurrent)
    | true =>
      obtain ⟨hrequest, hmutation, hpending⟩ := current_pending hcurrent
      have hsnapshot := h.snapshot _ ⟨hrequest ▸ hload, hmutation⟩
      refine .inr ⟨_, hload, fun id => ⟨hsnapshot.begun id, fun hin => ?_⟩⟩
      exact (hsnapshot.settled id hin).2 hpending
  · cases hstep

theorem Requests.flipped (h : Requests s) (hpath : (machine α).Path NoSnapshot s t)
    (hs : Settled s id) (ht : Settled t id) :
    ∃ k, flips t id = flips s id + k ∧
      ((id ∈ t.starredIds ↔ id ∈ s.starredIds) ↔ Even k) := by
  have hmember : Member s id (decide (id ∈ s.starredIds)) := by
    refine .listed hs ?_
    rw [decide_eq_true_iff]
  obtain ⟨k, left, hflips, hleft, hparity⟩ := hmember.path h hpath
  refine ⟨k, hflips, ?_⟩
  rw [hleft.listed_of_none ht, ← hparity, Bool.eq_iff_iff]
  by_cases hin : id ∈ s.starredIds
  · simp [hin]
  · simp [hin]

/-- The condition can be checked at every step of a run. -/
instance (s : Studio α) (l : Label α) : Decidable (l.Within Recovers s) :=
  match l with
  | .fails n =>
    match hn : s.operations n with
    | some ⟨id, previous, .sending sending⟩ =>
      decidable_of_iff (Recovers s sending) (by
        constructor
        · intro hrecovers operation sending' hoperation hstage
          rw [hn] at hoperation
          cases hoperation
          cases hstage
          exact hrecovers
        · exact fun hwithin => hwithin _ sending hn rfl)
    | none => isTrue fun operation sending hoperation _ => by
      rw [hn] at hoperation
      cases hoperation
    | some ⟨_, _, .waiting⟩ => isTrue fun operation sending hoperation hstage => by
      rw [hn] at hoperation
      cases hoperation
      cases hstage
    | some ⟨_, _, .settled _⟩ => isTrue fun operation sending hoperation hstage => by
      rw [hn] at hoperation
      cases hoperation
      cases hstage
    | some ⟨_, _, .resolved⟩ => isTrue fun operation sending hoperation hstage => by
      rw [hn] at hoperation
      cases hoperation
      cases hstage
  | .toggles _ | .performs _ | .applies _ | .succeeds _ | .resolves _ | .cleans _ | .loads
  | .answers _ _ | .receives _ | .aborts _ => isTrue trivial

section Sample

/-- The list is empty, and the server has one generation starred. -/
def signedIn : Studio Nat where
  starredIds := []
  starredListDirty := false
  starredListRequestEpoch := 0
  starredMutationEpoch := 0
  starredMutationSequence := 0
  pendingStarredMutations := []
  starredMutationQueues _ := none
  operations _ := none
  calls := 0
  loads _ := none
  outcome _ := none
  server := [1]
  trace := []

theorem signedIn_start : Start signedIn :=
  ⟨rfl, rfl, fun _ => rfl, fun _ => rfl, rfl, fun _ => rfl, fun _ => rfl, rfl⟩

/-- The list is loaded, one toggle succeeds, and another fails while the list is loaded anew. -/
def togglesTwice : List (Label Nat) :=
  [.loads, .answers 1 [1], .receives 1, .toggles 2, .performs 0, .toggles 3, .performs 1,
    .applies 0, .succeeds 0, .fails 1, .answers 2 [2, 1], .receives 2, .resolves 0, .resolves 1]

def toggledTwice : Studio Nat := ((machine Nat).run signedIn togglesTwice).getD signedIn

/-- While the list is loaded for the first time, a toggle fails. -/
def failsDuring : List (Label Nat) :=
  [.loads, .toggles 2, .performs 0, .fails 0, .resolves 0, .answers 1 [1], .receives 1]

def failedDuring : Studio Nat := ((machine Nat).run signedIn failsDuring).getD signedIn

end Sample

end Potocolom.Starred
