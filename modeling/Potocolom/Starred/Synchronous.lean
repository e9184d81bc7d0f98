import Potocolom.Starred.Flips

/-! # The list and the server

A snapshot is shown only if no toggle came in between that could have changed the server's list
behind it, and from then on the list differs from the server's by the toggles under way. The
list need not be loaded again when a toggle fails; but a toggle that fails may have caused a
snapshot to be dropped. -/

namespace Potocolom.Starred

open Runs

variable {α : Type} [DecidableEq α] {s t : Studio α} {id : α} {n : Nat}
  {operation : Operation α} {sending : Sending α} {mayFail : Studio α → Sending α → Prop}

/-! ## The pages of a listing -/

/-- From a cursor on, the pages are the rest of the listing. -/
theorem collect_rest {listing a b : List α} (hsplit : listing = a ++ b) (hnodup : listing.Nodup)
    (fuel : Nat) (hfuel : b.length < fuel) : collect listing fuel a.getLast? = b := by
  induction fuel generalizing a b with
  | zero => omega
  | succ fuel ih =>
    have hpage : ((a.getLast?.map fun id => after id listing).getD listing) = b := by
      cases hlast : a.getLast? with
      | none =>
        rw [List.getLast?_eq_none_iff] at hlast
        rw [hsplit, hlast]
        rfl
      | some c =>
        have hrun : after c ([] ++ a ++ b) = b := by
          apply after_run
          · rw [List.nil_append, ← hsplit]
            exact hnodup
          · exact hlast
        rw [hsplit]
        exact hrun
    simp only [collect]
    rw [hpage]
    split
    · next hshort =>
      rw [List.length_take] at hshort
      exact List.take_of_length_le (by omega)
    · next hfull =>
      rw [List.length_take] at hfull
      have hlimit : 0 < pageLimit := by decide
      cases hlast : (b.take pageLimit).getLast? with
      | none =>
        rw [List.getLast?_eq_none_iff, List.take_eq_nil_iff] at hlast
        rcases hlast with hzero | hnil
        · omega
        · rw [hnil, List.length_nil] at hfull
          omega
      | some next =>
        have hin : next ∈ b := List.mem_of_mem_take (List.mem_of_getLast? hlast)
        have hne : some next ≠ a.getLast? := by
          intro heq
          have hmem : next ∈ a := List.mem_of_getLast? heq.symm
          rw [hsplit] at hnodup
          exact (List.nodup_append.1 hnodup).2.2 next hmem next hin rfl
        have hcursor : some next = (a ++ b.take pageLimit).getLast? := by
          rw [List.getLast?_append, hlast]
          rfl
        dsimp only
        rw [if_neg hne, hcursor, ih (b := b.drop pageLimit)]
        · exact List.take_append_drop pageLimit b
        · rw [hsplit, List.append_assoc, List.take_append_drop]
        · rw [List.length_drop]
          omega

theorem collect_listing {listing : List α} (hnodup : listing.Nodup) :
    collect listing (listing.length + 1) none = listing :=
  collect_rest (a := []) (List.nil_append listing).symm hnodup _ (Nat.lt_succ_self _)

/-! ## What the steps leave alone -/

section settle

variable {succeeded : Bool}

omit [DecidableEq α] in
@[simp] theorem settle_server :
    (s.settleMutation n operation sending succeeded).server = s.server := by
  unfold Studio.settleMutation
  dsimp only
  split <;> rfl

omit [DecidableEq α] in
@[simp] theorem settle_outcome :
    (s.settleMutation n operation sending succeeded).outcome = s.outcome := by
  unfold Studio.settleMutation
  dsimp only
  split <;> rfl

omit [DecidableEq α] in
@[simp] theorem settle_mutationEpoch :
    (s.settleMutation n operation sending succeeded).starredMutationEpoch =
      s.starredMutationEpoch := by
  unfold Studio.settleMutation
  dsimp only
  split <;> rfl

omit [DecidableEq α] in
@[simp] theorem settle_dirty :
    (s.settleMutation n operation sending succeeded).starredListDirty =
      (s.starredListDirty || succeeded) := by
  unfold Studio.settleMutation
  dsimp only
  split <;> rfl

omit [DecidableEq α] in
/-- The list is loaded anew when it is dirty and no toggle is pending. -/
theorem settle_loads :
    ((s.settleMutation n operation sending succeeded).starredListRequestEpoch =
        s.starredListRequestEpoch + 1 ∧
      (s.settleMutation n operation sending succeeded).loads =
        Function.update s.loads (s.starredListRequestEpoch + 1)
          (some ⟨s.starredMutationEpoch, s.trace.length + 1, none⟩)) ∨
    ((s.settleMutation n operation sending succeeded).starredListRequestEpoch =
        s.starredListRequestEpoch ∧
      (s.settleMutation n operation sending succeeded).loads = s.loads ∧
      ((s.starredListDirty || succeeded) = true →
        s.pendingStarredMutations.erase sending.token ≠ [])) := by
  unfold Studio.settleMutation settleStarredListMutation
  dsimp only
  split
  · refine .inl ⟨rfl, ?_⟩
    simp [Studio.load, Studio.setStage]
  · next hno =>
    refine .inr ⟨rfl, rfl, fun hdirty hnil => hno ?_⟩
    rw [hdirty, hnil]
    rfl

end settle

/-- A snapshot that is current is shown. -/
theorem receive_accepts {requestEpoch : Nat} {load : ListLoad α} {listing : List α}
    (hcurrent : starredListSnapshotIsCurrent requestEpoch s.starredListRequestEpoch
      load.mutationEpoch s.starredMutationEpoch
      (decide (s.pendingStarredMutations.length > 0)) = true) :
    s.receive requestEpoch load listing = { s with
      loads := Function.update s.loads requestEpoch none
      starredListDirty := false
      starredIds := collect listing (listing.length + 1) none
      outcome := Function.update s.outcome requestEpoch (some .accepted)
      trace := s.trace ++ [.accepted requestEpoch] } := by
  unfold Studio.receive
  dsimp only
  rw [if_pos hcurrent]

theorem receive_drops {requestEpoch : Nat} {load : ListLoad α} {listing : List α}
    (hcurrent : starredListSnapshotIsCurrent requestEpoch s.starredListRequestEpoch
      load.mutationEpoch s.starredMutationEpoch
      (decide (s.pendingStarredMutations.length > 0)) = false) :
    s.receive requestEpoch load listing = { s with
      loads := Function.update s.loads requestEpoch none
      outcome := Function.update s.outcome requestEpoch (some .dropped) } := by
  unfold Studio.receive
  dsimp only
  rw [if_neg (by simp [hcurrent])]

/-- What is known of every load of the list. -/
structure Loads (s : Studio α) : Prop where
  load : ∀ r load, s.loads r = some load → r ≤ s.starredListRequestEpoch ∧
    load.mutationEpoch ≤ s.starredMutationEpoch ∧ load.began ≤ s.trace.length
  outcome : ∀ r outcome, s.outcome r = some outcome → r ≤ s.starredListRequestEpoch

omit [DecidableEq α] in
theorem start_loads (h : Start s) : Loads s := by
  constructor
  · intro r load hload
    rw [h.loads r] at hload
    cases hload
  · intro r outcome houtcome
    rw [h.outcome r] at houtcome
    cases houtcome

omit [DecidableEq α] in
theorem Loads.settle (h : Loads s) (succeeded : Bool) :
    Loads (s.settleMutation n operation sending succeeded) := by
  have hlength : (s.settleMutation n operation sending succeeded).trace.length =
      s.trace.length + 1 := by
    rw [settle_trace, List.length_append, List.length_singleton]
  rcases settle_loads (s := s) (n := n) with ⟨hepoch, hloads⟩ | ⟨hepoch, hloads, -⟩
  · constructor
    · intro r load hload
      rw [hepoch, settle_mutationEpoch, hlength]
      rw [hloads] at hload
      by_cases heq : r = s.starredListRequestEpoch + 1
      · rw [heq, Function.update_self] at hload
        cases hload
        exact ⟨Nat.le_of_eq heq, Nat.le_refl _, Nat.le_refl _⟩
      · rw [Function.update_of_ne heq] at hload
        obtain ⟨hr, hm, ht⟩ := h.load r load hload
        exact ⟨by omega, hm, by omega⟩
    · intro r outcome houtcome
      rw [settle_outcome] at houtcome
      rw [hepoch]
      exact Nat.le_succ_of_le (h.outcome r outcome houtcome)
  · constructor
    · intro r load hload
      rw [hloads] at hload
      rw [hepoch, settle_mutationEpoch, hlength]
      obtain ⟨hr, hm, ht⟩ := h.load r load hload
      exact ⟨hr, hm, Nat.le_succ_of_le ht⟩
    · intro r outcome houtcome
      rw [settle_outcome] at houtcome
      rw [hepoch]
      exact h.outcome r outcome houtcome

omit [DecidableEq α] in
/-- A load of the list ends. -/
theorem Loads.ends (h : Loads s) {requestEpoch : Nat} {load : ListLoad α} {outcome : Outcome}
    (hload : s.loads requestEpoch = some load)
    (hloads : t.loads = Function.update s.loads requestEpoch none)
    (houtcome : t.outcome = Function.update s.outcome requestEpoch (some outcome))
    (hepoch : t.starredListRequestEpoch = s.starredListRequestEpoch)
    (hmutation : t.starredMutationEpoch = s.starredMutationEpoch)
    (htrace : s.trace.length ≤ t.trace.length) : Loads t := by
  constructor
  · intro r load' hload'
    rw [hloads] at hload'
    rw [hepoch, hmutation]
    by_cases heq : r = requestEpoch
    · rw [heq, Function.update_self] at hload'
      cases hload'
    · rw [Function.update_of_ne heq] at hload'
      obtain ⟨hr, hm, ht⟩ := h.load r load' hload'
      exact ⟨hr, hm, Nat.le_trans ht htrace⟩
  · intro r outcome' houtcome'
    rw [houtcome] at houtcome'
    rw [hepoch]
    by_cases heq : r = requestEpoch
    · rw [heq]
      exact (h.load requestEpoch load hload).1
    · rw [Function.update_of_ne heq] at houtcome'
      exact h.outcome r outcome' houtcome'

theorem Loads.does (h : Loads s) (hdoes : Does mayFail s t) : Loads t := by
  cases hdoes with
  | toggle id => exact ⟨h.load, h.outcome⟩
  | perform n operation _ _ _ =>
    refine ⟨fun r load hload => ?_, h.outcome⟩
    obtain ⟨hr, hm, ht⟩ := h.load r load hload
    refine ⟨hr, Nat.le_succ_of_le hm, ?_⟩
    show load.began ≤ (s.trace ++ [Event.begun operation.id]).length
    rw [List.length_append]
    exact Nat.le_add_right_of_le ht
  | apply n operation sending _ _ _ => exact ⟨h.load, h.outcome⟩
  | succeed n operation sending _ _ _ => exact h.settle true
  | fail n operation sending _ _ _ _ =>
    have hrolled : Loads (s.rollback sending) := ⟨h.load, h.outcome⟩
    exact hrolled.settle false
  | resolve n operation reload _ _ => exact ⟨h.load, h.outcome⟩
  | clean n operation _ _ _ => exact ⟨h.load, h.outcome⟩
  | nothing => exact h
  | load =>
    constructor
    · intro r load hload
      show r ≤ s.starredListRequestEpoch + 1 ∧ _
      have hupdate : Function.update s.loads (s.starredListRequestEpoch + 1)
          (some ⟨s.starredMutationEpoch, s.trace.length, none⟩) r = some load := hload
      by_cases heq : r = s.starredListRequestEpoch + 1
      · rw [heq, Function.update_self] at hupdate
        cases hupdate
        exact ⟨Nat.le_of_eq heq, Nat.le_refl _, Nat.le_refl _⟩
      · rw [Function.update_of_ne heq] at hupdate
        obtain ⟨hr, hm, ht⟩ := h.load r load hupdate
        exact ⟨Nat.le_succ_of_le hr, hm, ht⟩
    · intro r outcome houtcome
      exact Nat.le_succ_of_le (h.outcome r outcome houtcome)
  | answer requestEpoch load listing hload _ _ _ =>
    refine ⟨fun r load' hload' => ?_, h.outcome⟩
    have hupdate : Function.update s.loads requestEpoch
        (some { load with listing := some listing }) r = some load' := hload'
    by_cases heq : r = requestEpoch
    · rw [heq, Function.update_self] at hupdate
      cases hupdate
      rw [heq]
      exact h.load requestEpoch load hload
    · rw [Function.update_of_ne heq] at hupdate
      exact h.load r load' hupdate
  | receive requestEpoch load listing hload _ =>
    cases hcurrent : starredListSnapshotIsCurrent requestEpoch s.starredListRequestEpoch
      load.mutationEpoch s.starredMutationEpoch
      (decide (s.pendingStarredMutations.length > 0)) with
    | false =>
      rw [receive_drops hcurrent]
      exact h.ends hload rfl rfl rfl rfl (Nat.le_refl _)
    | true =>
      rw [receive_accepts hcurrent]
      refine h.ends hload rfl rfl rfl rfl ?_
      show s.trace.length ≤ (s.trace ++ [Event.accepted requestEpoch]).length
      rw [List.length_append]
      exact Nat.le_add_right _ _
  | abort requestEpoch load hload => exact h.ends hload rfl rfl rfl rfl (Nat.le_refl _)

/-! ## The snapshot under way -/

/-- The newest load of the list, when no toggle has begun since. -/
def Current (s : Studio α) (load : ListLoad α) : Prop :=
  s.loads s.starredListRequestEpoch = some load ∧ load.mutationEpoch = s.starredMutationEpoch

/-- The server's list is dirty, and will be loaded anew when the toggles pending are settled. -/
def Awaited (s : Studio α) : Prop :=
  s.starredListDirty = true ∧ s.pendingStarredMutations ≠ []

/-- What is known of a snapshot that may still be shown. -/
structure Snapshot (s : Studio α) (load : ListLoad α) : Prop where
  begun : ∀ id, Event.begun id ∉ s.trace.drop load.began
  settled : ∀ id, Event.settled id true ∈ s.trace.drop load.began → Awaited s
  listing : ∀ listing ∈ load.listing, listing.Nodup ∧
    ((∀ id, id ∈ listing ↔ id ∈ s.server) ∨
      (∃ n id sending, Sends s n id sending ∧ sending.applied = true) ∨ Awaited s)

omit [DecidableEq α] in
theorem Snapshot.same {load : ListLoad α} (h : Snapshot s load) (htrace : t.trace = s.trace)
    (hawaited : Awaited s → Awaited t) (hserver : t.server = s.server)
    (hsends : ∀ m id sending, Sends s m id sending → Sends t m id sending) : Snapshot t load := by
  constructor
  · rw [htrace]
    exact h.begun
  · intro id hin
    rw [htrace] at hin
    exact hawaited (h.settled id hin)
  · intro listing hlisting
    obtain ⟨hnodup, hlist⟩ := h.listing listing hlisting
    refine ⟨hnodup, ?_⟩
    rw [hserver]
    rcases hlist with hsame | ⟨m, id, sending, hm, happlied⟩ | hwaits
    · exact .inl hsame
    · exact .inr (.inl ⟨m, id, sending, hsends m id sending hm, happlied⟩)
    · exact .inr (.inr (hawaited hwaits))

omit [DecidableEq α] in
/-- A load that has just begun. -/
theorem Snapshot.fresh {mutationEpoch : Nat} :
    Snapshot s ⟨mutationEpoch, s.trace.length, none⟩ := by
  constructor
  · intro id
    simp
  · intro id hin
    simp at hin
  · intro listing hlisting
    cases hlisting

omit [DecidableEq α] in
/-- A toggle ends, and the load under way is still the newest one. -/
theorem Snapshot.settle {load : ListLoad α} (h : Snapshot s load) {succeeded : Bool}
    (hbegan : load.began ≤ s.trace.length) (hoperation : s.operations n = some operation)
    (hstage : operation.stage = .sending sending) (happlied : sending.applied = succeeded)
    (hopen : (s.starredListDirty || succeeded) = true →
      s.pendingStarredMutations.erase sending.token ≠ []) :
    Snapshot (s.settleMutation n operation sending succeeded) load := by
  have hawaited : (s.starredListDirty || succeeded) = true →
      Awaited (s.settleMutation n operation sending succeeded) := by
    intro hdirty
    refine ⟨by rw [settle_dirty, hdirty], ?_⟩
    rw [settle_pending]
    exact hopen hdirty
  have hdrop : (s.settleMutation n operation sending succeeded).trace.drop load.began =
      s.trace.drop load.began ++ [.settled operation.id succeeded] := by
    rw [settle_trace, List.drop_append_of_le_length hbegan]
  have hstill : Awaited s → Awaited (s.settleMutation n operation sending succeeded) := by
    intro hwaits
    apply hawaited
    rw [hwaits.1, Bool.true_or]
  constructor
  · intro id hin
    rw [hdrop, List.mem_append, List.mem_singleton] at hin
    rcases hin with hin | heq
    · exact h.begun id hin
    · cases heq
  · intro id hin
    rw [hdrop, List.mem_append, List.mem_singleton] at hin
    rcases hin with hin | heq
    · exact hstill (h.settled id hin)
    · cases heq
      exact hawaited (Bool.or_true _)
  · intro listing hlisting
    obtain ⟨hnodup, hlist⟩ := h.listing listing hlisting
    refine ⟨hnodup, ?_⟩
    rw [settle_server]
    rcases hlist with hsame | ⟨m, id, sending', hm, happlied'⟩ | hwaits
    · exact .inl hsame
    · by_cases heq : m = n
      · -- the toggle that has changed the server's list succeeds
        subst heq
        obtain ⟨other, hother, -, hstage'⟩ := hm
        rw [hoperation] at hother
        cases hother
        rw [hstage] at hstage'
        cases hstage'
        refine .inr (.inr (hawaited ?_))
        rw [← happlied, happlied', Bool.or_true]
      · exact .inr (.inl ⟨m, id, sending', (settle_sends hoperation).2 ⟨heq, hm⟩, happlied'⟩)
    · exact .inr (.inr (hstill hwaits))

omit [DecidableEq α] in
/-- A toggle ends; the newest load was under way, or has just begun. -/
theorem snapshot_settle {succeeded : Bool} (hloads : Loads s)
    (h : ∀ load, Current s load → Snapshot s load)
    (hoperation : s.operations n = some operation) (hstage : operation.stage = .sending sending)
    (happlied : sending.applied = succeeded) (load : ListLoad α)
    (hload : Current (s.settleMutation n operation sending succeeded) load) :
    Snapshot (s.settleMutation n operation sending succeeded) load := by
  obtain ⟨hload, hepoch⟩ := hload
  rcases settle_loads (s := s) (n := n) with ⟨hnew, hupdate⟩ | ⟨hsame, hold, hopen⟩
  · rw [hnew, hupdate, Function.update_self] at hload
    cases hload
    have hlength : (s.settleMutation n operation sending succeeded).trace.length =
        s.trace.length + 1 := by
      rw [settle_trace, List.length_append, List.length_singleton]
    rw [← hlength]
    exact Snapshot.fresh
  · rw [hsame, hold] at hload
    rw [settle_mutationEpoch] at hepoch
    exact (h load ⟨hload, hepoch⟩).settle (hloads.load _ load hload).2.2 hoperation hstage
      happlied hopen

omit [DecidableEq α] in
/-- A load of the list ends; if another one is the newest, that is still under way. -/
theorem Current.ends {load : ListLoad α} (hload : Current t load) {requestEpoch : Nat}
    (hloads : t.loads = Function.update s.loads requestEpoch none)
    (hepoch : t.starredListRequestEpoch = s.starredListRequestEpoch)
    (hmutation : t.starredMutationEpoch = s.starredMutationEpoch) :
    requestEpoch ≠ s.starredListRequestEpoch ∧ Current s load := by
  obtain ⟨hload, hcurrent⟩ := hload
  rw [hloads, hepoch] at hload
  rw [hmutation] at hcurrent
  by_cases heq : s.starredListRequestEpoch = requestEpoch
  · rw [heq, Function.update_self] at hload
    cases hload
  · rw [Function.update_of_ne heq] at hload
    exact ⟨Ne.symm heq, hload, hcurrent⟩

theorem snapshot_does (hrequests : Requests s) (hloads : Loads s)
    (h : ∀ load, Current s load → Snapshot s load) (hdoes : Does mayFail s t) :
    ∀ load, Current t load → Snapshot t load := by
  cases hdoes with
  | toggle other =>
    intro load hload
    have hsends : ∀ m id' sending, Sends s m id' sending → Sends (s.toggle other) m id' sending :=
      fun _ _ _ => (toggle_sends hrequests.serial).2
    exact (h load hload).same rfl id rfl hsends
  | perform n operation _ _ _ =>
    intro load hload
    have hbefore : s.loads s.starredListRequestEpoch = some load := hload.1
    have hle := (hloads.load _ load hbefore).2.1
    have hepoch : load.mutationEpoch = s.starredMutationEpoch + 1 := hload.2
    omega
  | apply n operation sending hoperation hstage _ =>
    intro load hload
    have hbefore := h load hload
    refine ⟨hbefore.begun, hbefore.settled, fun listing hlisting => ?_⟩
    refine ⟨(hbefore.listing listing hlisting).1, .inr (.inl ?_)⟩
    refine ⟨n, operation.id, { sending with applied := true }, ?_, rfl⟩
    exact (apply_advances hoperation).sends.2 (.inl ⟨rfl, rfl, rfl⟩)
  | succeed n operation sending hoperation hstage happlied =>
    exact snapshot_settle hloads h hoperation hstage happlied
  | fail n operation sending hoperation hstage happlied _ =>
    have hrolled : Loads (s.rollback sending) := ⟨hloads.load, hloads.outcome⟩
    have hsnapshot : ∀ load, Current (s.rollback sending) load →
        Snapshot (s.rollback sending) load := by
      intro load hload
      exact (h load hload).same rfl id rfl fun _ _ _ => id
    exact snapshot_settle hrolled hsnapshot hoperation hstage happlied
  | resolve n operation reload hoperation hstage =>
    intro load hload
    have hadvances : Advances s (s.setStage n operation .resolved) n operation .resolved :=
      ⟨hoperation, rfl, rfl, rfl⟩
    refine (h load hload).same rfl id rfl fun m id sending => (hadvances.sends_same ?_ ?_).2
    · rw [hstage]
      exact fun _ heq => by cases heq
    · exact fun _ heq => by cases heq
  | clean n operation _ _ _ =>
    intro load hload
    exact (h load hload).same rfl id rfl fun _ _ _ => id
  | nothing => exact h
  | load =>
    intro load hload
    have hnew : Function.update s.loads (s.starredListRequestEpoch + 1)
        (some ⟨s.starredMutationEpoch, s.trace.length, none⟩) (s.starredListRequestEpoch + 1) =
          some load := hload.1
    rw [Function.update_self] at hnew
    cases hnew
    exact Snapshot.fresh
  | answer requestEpoch load listing hat hnone hnodup hlisting =>
    intro load' hload'
    have hupdate : Function.update s.loads requestEpoch
        (some { load with listing := some listing }) s.starredListRequestEpoch = some load' :=
      hload'.1
    have hepoch : load'.mutationEpoch = s.starredMutationEpoch := hload'.2
    by_cases heq : s.starredListRequestEpoch = requestEpoch
    · rw [heq, Function.update_self] at hupdate
      cases hupdate
      have hold := h load ⟨heq ▸ hat, hepoch⟩
      refine ⟨hold.begun, hold.settled, fun listing' hlisting' => ?_⟩
      cases hlisting'
      exact ⟨hnodup, .inl hlisting⟩
    · rw [Function.update_of_ne heq] at hupdate
      exact (h load' ⟨hupdate, hepoch⟩).same rfl id rfl fun _ _ _ => id
  | receive requestEpoch load listing hload _ =>
    cases hcurrent : starredListSnapshotIsCurrent requestEpoch s.starredListRequestEpoch
      load.mutationEpoch s.starredMutationEpoch
      (decide (s.pendingStarredMutations.length > 0)) with
    | false =>
      intro load' hload'
      rw [receive_drops hcurrent] at hload' ⊢
      obtain ⟨-, hbefore⟩ : requestEpoch ≠ s.starredListRequestEpoch ∧ Current s load' :=
        hload'.ends rfl rfl rfl
      exact (h load' hbefore).same rfl id rfl fun _ _ _ => id
    | true =>
      -- the newest load is the one that has ended
      intro load' hload'
      rw [receive_accepts hcurrent] at hload'
      obtain ⟨hne, -⟩ : requestEpoch ≠ s.starredListRequestEpoch ∧ Current s load' :=
        hload'.ends rfl rfl rfl
      exact absurd (current_pending hcurrent).1 hne
  | abort requestEpoch load hload =>
    intro load' hload'
    obtain ⟨-, hbefore⟩ : requestEpoch ≠ s.starredListRequestEpoch ∧ Current s load' :=
      hload'.ends rfl rfl rfl
    exact (h load' hbefore).same rfl id rfl fun _ _ _ => id

end Potocolom.Starred
