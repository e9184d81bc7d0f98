import Potocolom.Starred.Serial

/-! # What the toggles do to the list

While the request of a toggle is under way the list shows the generation the other way round.
If it fails the list shows it as before; so without a snapshot in between, a generation is
starred as at first, flipped once by every toggle that succeeded. -/

namespace Potocolom.Starred

variable {α : Type} [DecidableEq α] {s t : Studio α} {id : α} {n m : Nat}
  {operation : Operation α} {sending : Sending α} {mayFail : Studio α → Sending α → Prop}

/-! ## Lists -/

theorem mem_begin (starredIds : List α) (id other : α) :
    other ∈ (beginOptimisticStarMutation starredIds id).1 ↔
      if other = id then id ∉ starredIds else other ∈ starredIds := by
  unfold beginOptimisticStarMutation
  by_cases hin : id ∈ starredIds
  · by_cases heq : other = id
    · simp [hin, heq]
    · simp [hin, heq]
  · by_cases heq : other = id
    · simp [hin, heq]
    · simp [hin, heq]

theorem mem_rollback (starredIds : List α) (mutation : OptimisticStarMutation α) (other : α) :
    other ∈ rollbackOptimisticStarMutation starredIds mutation ↔
      if other = mutation.id then mutation.wasStarred = true else other ∈ starredIds := by
  unfold rollbackOptimisticStarMutation
  split
  · next hwas =>
    by_cases heq : other = mutation.id
    · simp [heq, hwas]
    · simp [heq]
  · next hwas =>
    have hstarred : mutation.wasStarred = true := by simpa using hwas
    split
    · next hin =>
      by_cases heq : other = mutation.id
      · simp [heq, hin, hstarred]
      · simp [heq]
    · rw [List.mem_insertIdx (Nat.min_le_right _ _)]
      by_cases heq : other = mutation.id
      · simp [heq, hstarred]
      · simp [heq]

/-! ## Which requests are under way -/

omit [DecidableEq α] in
/-- What a step makes of the requests under way. -/
theorem Advances.sends {stage : Stage α} (h : Advances s t n operation stage)
    {sending : Sending α} :
    Sends t m id sending ↔
      m = n ∧ operation.id = id ∧ stage = .sending sending ∨ m ≠ n ∧ Sends s m id sending := by
  constructor
  · rintro ⟨other, hother, hid, hstage⟩
    rcases h.cases hother with ⟨rfl, rfl⟩ | ⟨hne, hold⟩
    · exact .inl ⟨rfl, hid, hstage⟩
    · exact .inr ⟨hne, other, hold, hid, hstage⟩
  · rintro (⟨rfl, hid, hstage⟩ | ⟨hne, other, hother, hid, hstage⟩)
    · refine ⟨{ operation with stage := stage }, ?_, hid, hstage⟩
      rw [h.after, Function.update_self]
    · refine ⟨other, ?_, hid, hstage⟩
      rw [h.after, Function.update_of_ne hne]
      exact hother

omit [DecidableEq α] in
/-- Unless an operation begins or ends its request, the requests stay. -/
theorem Advances.sends_same {stage : Stage α} (h : Advances s t n operation stage)
    (hbefore : ∀ sending, operation.stage ≠ .sending sending)
    (hafter : ∀ sending, stage ≠ .sending sending) {sending : Sending α} :
    Sends t m id sending ↔ Sends s m id sending := by
  rw [h.sends]
  constructor
  · rintro (⟨-, -, hstage⟩ | ⟨-, hsends⟩)
    · exact absurd hstage (hafter sending)
    · exact hsends
  · intro hsends
    refine .inr ⟨?_, hsends⟩
    rintro rfl
    obtain ⟨other, hother, -, hstage⟩ := hsends
    rw [h.before] at hother
    cases hother
    exact hbefore sending hstage

omit [DecidableEq α] in
theorem sends_of_operations (h : t.operations = s.operations) :
    Sends t m id sending ↔ Sends s m id sending := by
  unfold Sends
  rw [h]

theorem toggle_sends (hserial : Serial s) {other : α} :
    Sends (s.toggle other) m id sending ↔ Sends s m id sending := by
  unfold Sends
  by_cases heq : m = s.calls
  · have hnew : (s.toggle other).operations m =
        some ⟨other, s.starredMutationQueues other, .waiting⟩ := by
      rw [heq]
      exact Function.update_self _ _ _
    rw [hnew]
    constructor
    · rintro ⟨operation, hsome, -, hstage⟩
      cases hsome
      cases hstage
    · rintro ⟨operation, hsome, -, -⟩
      exact absurd (hserial.calls m operation hsome) (by omega)
  · have hold : (s.toggle other).operations m = s.operations m := Function.update_of_ne heq _ _
    rw [hold]

/-- The tokens of the requests under way. -/
structure Tokens (s : Studio α) : Prop where
  pending : ∀ n id sending, Sends s n id sending → sending.token ∈ s.pendingStarredMutations
  sending : ∀ token ∈ s.pendingStarredMutations, ∃ n id sending,
    Sends s n id sending ∧ sending.token = token
  nodup : s.pendingStarredMutations.Nodup
  bound : ∀ token ∈ s.pendingStarredMutations, token ≤ s.starredMutationSequence
  unique : ∀ n m id id' sending sending', Sends s n id sending → Sends s m id' sending' →
    sending.token = sending'.token → n = m

omit [DecidableEq α] in
theorem Tokens.same (h : Tokens s)
    (hsends : ∀ m id sending, Sends t m id sending ↔ Sends s m id sending)
    (hpending : t.pendingStarredMutations = s.pendingStarredMutations)
    (hsequence : t.starredMutationSequence = s.starredMutationSequence) : Tokens t := by
  constructor
  · intro n id sending hn
    rw [hpending]
    exact h.pending n id sending ((hsends _ _ _).1 hn)
  · intro token htoken
    rw [hpending] at htoken
    obtain ⟨n, id, sending, hn, heq⟩ := h.sending token htoken
    exact ⟨n, id, sending, (hsends _ _ _).2 hn, heq⟩
  · rw [hpending]
    exact h.nodup
  · rw [hpending, hsequence]
    exact h.bound
  · intro n m id id' sending sending' hn hm
    exact h.unique n m id id' sending sending' ((hsends _ _ _).1 hn) ((hsends _ _ _).1 hm)

omit [DecidableEq α] in
/-- No request is under way when there is no token. -/
theorem Tokens.none (h : Tokens s) (hpending : s.pendingStarredMutations = []) :
    ¬ Sends s n id sending := by
  intro hn
  have hmem := h.pending n id sending hn
  rw [hpending] at hmem
  exact absurd hmem List.not_mem_nil

theorem Tokens.perform (h : Tokens s) (hoperation : s.operations n = some operation)
    (hwaiting : operation.stage = .waiting) : Tokens (s.perform n operation) := by
  have hadvances : Advances s (s.perform n operation) n operation _ := ⟨hoperation, rfl, rfl, rfl⟩
  have hnew : ∀ token ∈ s.pendingStarredMutations, token ≠ s.starredMutationSequence + 1 := by
    intro token htoken
    have := h.bound token htoken
    omega
  constructor
  · intro m id sending hm
    show sending.token ∈ s.pendingStarredMutations ++ [s.starredMutationSequence + 1]
    rcases hadvances.sends.1 hm with ⟨-, -, heq⟩ | ⟨-, hm⟩
    · cases heq
      exact List.mem_append_right _ (List.mem_singleton.2 rfl)
    · exact List.mem_append_left _ (h.pending m id sending hm)
  · intro token htoken
    rcases List.mem_append.1 htoken with htoken | htoken
    · obtain ⟨m, id, sending, hm, heq⟩ := h.sending token htoken
      refine ⟨m, id, sending, hadvances.sends.2 (.inr ⟨?_, hm⟩), heq⟩
      rintro rfl
      obtain ⟨other, hother, -, hstage⟩ := hm
      rw [hoperation] at hother
      cases hother
      rw [hwaiting] at hstage
      cases hstage
    · rw [List.mem_singleton] at htoken
      exact ⟨n, operation.id, _, hadvances.sends.2 (.inl ⟨rfl, rfl, rfl⟩), htoken.symm⟩
  · show (s.pendingStarredMutations ++ [s.starredMutationSequence + 1]).Nodup
    rw [List.nodup_append]
    refine ⟨h.nodup, List.nodup_singleton _, ?_⟩
    intro token htoken token' htoken'
    rw [List.mem_singleton] at htoken'
    rw [htoken']
    exact hnew token htoken
  · intro token htoken
    show token ≤ s.starredMutationSequence + 1
    rcases List.mem_append.1 htoken with htoken | htoken
    · exact Nat.le_succ_of_le (h.bound token htoken)
    · rw [List.mem_singleton] at htoken
      omega
  · intro m k id id' sending sending' hm hk heq
    rcases hadvances.sends.1 hm with ⟨hmn, -, hstage⟩ | ⟨-, hm'⟩
    · rcases hadvances.sends.1 hk with ⟨hkn, -, -⟩ | ⟨-, hk'⟩
      · exact hmn.trans hkn.symm
      · cases hstage
        exact absurd heq.symm (hnew _ (h.pending k id' sending' hk'))
    · rcases hadvances.sends.1 hk with ⟨-, -, hstage⟩ | ⟨-, hk'⟩
      · cases hstage
        exact absurd heq (hnew _ (h.pending m id sending hm'))
      · exact h.unique m k id id' sending sending' hm' hk' heq

/-- The server has accepted a request. -/
theorem apply_advances (hoperation : s.operations n = some operation) :
    Advances s (s.apply n operation sending) n operation
      (.sending { sending with applied := true }) :=
  ⟨hoperation, rfl, rfl, rfl⟩

/-- A request that was accepted is still the same one. -/
theorem apply_sends (hoperation : s.operations n = some operation)
    (hstage : operation.stage = .sending sending) {sending' : Sending α} :
    Sends (s.apply n operation sending) m id sending' ↔
      ∃ old, Sends s m id old ∧
        sending' = if m = n then { old with applied := true } else old := by
  rw [(apply_advances hoperation).sends]
  constructor
  · rintro (⟨rfl, hid, heq⟩ | ⟨hne, hm⟩)
    · refine ⟨sending, ⟨operation, hoperation, hid, hstage⟩, ?_⟩
      rw [if_pos rfl]
      exact (Stage.sending.inj heq).symm
    · exact ⟨sending', hm, (if_neg hne).symm⟩
  · rintro ⟨old, hm, rfl⟩
    by_cases heq : m = n
    · subst heq
      obtain ⟨other, hother, hid, hold⟩ := hm
      rw [hoperation] at hother
      cases hother
      rw [hstage] at hold
      cases hold
      rw [if_pos rfl]
      exact .inl ⟨rfl, hid, rfl⟩
    · rw [if_neg heq]
      exact .inr ⟨heq, hm⟩

section settle

variable {succeeded : Bool}

omit [DecidableEq α] in
@[simp] theorem settle_starredIds :
    (s.settleMutation n operation sending succeeded).starredIds = s.starredIds := by
  unfold Studio.settleMutation
  dsimp only
  split <;> rfl

omit [DecidableEq α] in
@[simp] theorem settle_pending :
    (s.settleMutation n operation sending succeeded).pendingStarredMutations =
      s.pendingStarredMutations.erase sending.token := by
  unfold Studio.settleMutation
  dsimp only
  split <;> rfl

omit [DecidableEq α] in
@[simp] theorem settle_sequence :
    (s.settleMutation n operation sending succeeded).starredMutationSequence =
      s.starredMutationSequence := by
  unfold Studio.settleMutation
  dsimp only
  split <;> rfl

omit [DecidableEq α] in
@[simp] theorem settle_trace :
    (s.settleMutation n operation sending succeeded).trace =
      s.trace ++ [.settled operation.id succeeded] := by
  unfold Studio.settleMutation
  dsimp only
  split <;> rfl

omit [DecidableEq α] in
theorem settle_sends (hoperation : s.operations n = some operation) {sending' : Sending α} :
    Sends (s.settleMutation n operation sending succeeded) m id sending' ↔
      m ≠ n ∧ Sends s m id sending' := by
  obtain ⟨reload, hadvances⟩ := settle_advances sending hoperation succeeded
  rw [hadvances.sends]
  constructor
  · rintro (⟨-, -, hstage⟩ | hother)
    · cases hstage
    · exact hother
  · exact .inr

end settle

omit [DecidableEq α] in
theorem Tokens.settle (h : Tokens s) (hoperation : s.operations n = some operation)
    (hstage : operation.stage = .sending sending) (succeeded : Bool) :
    Tokens (s.settleMutation n operation sending succeeded) := by
  have hsends : Sends s n operation.id sending := ⟨operation, hoperation, rfl, hstage⟩
  constructor
  · intro m id sending' hm
    obtain ⟨hne, hm'⟩ := (settle_sends hoperation).1 hm
    rw [settle_pending, h.nodup.mem_erase_iff]
    refine ⟨fun heq => hne ?_, h.pending m id sending' hm'⟩
    exact h.unique m n id operation.id sending' sending hm' hsends heq
  · intro token htoken
    rw [settle_pending, h.nodup.mem_erase_iff] at htoken
    obtain ⟨m, id, sending', hm, heq⟩ := h.sending token htoken.2
    refine ⟨m, id, sending', (settle_sends hoperation).2 ⟨?_, hm⟩, heq⟩
    rintro rfl
    obtain ⟨other, hother, -, hstage'⟩ := hm
    rw [hoperation] at hother
    cases hother
    rw [hstage] at hstage'
    cases hstage'
    exact htoken.1 heq.symm
  · rw [settle_pending]
    exact h.nodup.erase _
  · intro token htoken
    rw [settle_pending, h.nodup.mem_erase_iff] at htoken
    rw [settle_sequence]
    exact h.bound token htoken.2
  · intro m k id id' sending' sending'' hm hk
    exact h.unique m k id id' sending' sending'' ((settle_sends hoperation).1 hm).2
      ((settle_sends hoperation).1 hk).2

theorem Tokens.apply (h : Tokens s) (hoperation : s.operations n = some operation)
    (hstage : operation.stage = .sending sending) : Tokens (s.apply n operation sending) := by
  have hback : ∀ {m id sending'}, Sends (s.apply n operation sending) m id sending' →
      ∃ old, Sends s m id old ∧ sending'.token = old.token := by
    intro m id sending' hm
    obtain ⟨old, hold, heq⟩ := (apply_sends hoperation hstage).1 hm
    refine ⟨old, hold, ?_⟩
    rw [heq]
    split <;> rfl
  constructor
  · intro m id sending' hm
    obtain ⟨old, hold, heq⟩ := hback hm
    rw [heq]
    exact h.pending m id old hold
  · intro token htoken
    obtain ⟨m, id, old, hold, heq⟩ := h.sending token htoken
    refine ⟨m, id, _, (apply_sends hoperation hstage).2 ⟨old, hold, rfl⟩, ?_⟩
    rw [← heq]
    split <;> rfl
  · exact h.nodup
  · exact h.bound
  · intro m k id id' sending' sending'' hm hk heq
    obtain ⟨old, hold, htoken⟩ := hback hm
    obtain ⟨old', hold', htoken'⟩ := hback hk
    exact h.unique m k id id' old old' hold hold' (htoken.symm.trans (heq.trans htoken'))

theorem receive_frame {requestEpoch : Nat} {load : ListLoad α} {listing : List α} :
    (s.receive requestEpoch load listing).pendingStarredMutations = s.pendingStarredMutations ∧
      (s.receive requestEpoch load listing).starredMutationSequence =
        s.starredMutationSequence := by
  unfold Studio.receive
  dsimp only
  split
  · exact ⟨rfl, rfl⟩
  · exact ⟨rfl, rfl⟩

theorem Tokens.does (h : Tokens s) (hserial : Serial s) (hdoes : Does mayFail s t) :
    Tokens t := by
  have hsame : t.operations = s.operations →
      t.pendingStarredMutations = s.pendingStarredMutations →
      t.starredMutationSequence = s.starredMutationSequence → Tokens t :=
    fun heq => h.same fun _ _ _ => sends_of_operations heq
  cases hdoes with
  | toggle id => exact h.same (fun _ _ _ => toggle_sends hserial) rfl rfl
  | perform n operation hoperation hwaiting _ => exact h.perform hoperation hwaiting
  | apply n operation sending hoperation hstage _ => exact h.apply hoperation hstage
  | succeed n operation sending hoperation hstage _ => exact h.settle hoperation hstage true
  | fail n operation sending hoperation hstage _ _ =>
    have hrolled : Tokens (s.rollback sending) := h.same (fun _ _ _ => Iff.rfl) rfl rfl
    exact hrolled.settle hoperation hstage false
  | resolve n operation reload hoperation hstage =>
    have hadvances : Advances s (s.setStage n operation .resolved) n operation .resolved :=
      ⟨hoperation, rfl, rfl, rfl⟩
    refine h.same (fun _ _ _ => hadvances.sends_same ?_ ?_) rfl rfl
    · rw [hstage]
      exact fun _ heq => by cases heq
    · exact fun _ heq => by cases heq
  | clean n operation _ _ _ => exact hsame rfl rfl rfl
  | nothing => exact h
  | load => exact hsame rfl rfl rfl
  | answer requestEpoch load listing => exact hsame rfl rfl rfl
  | receive requestEpoch load listing =>
    exact hsame receive_same.1 receive_frame.1 receive_frame.2
  | abort requestEpoch load => exact hsame rfl rfl rfl

/-! ## The list while requests are under way -/

/-- While its request is under way, a generation is shown the other way round. -/
def Optimistic (s : Studio α) : Prop :=
  ∀ n id sending, Sends s n id sending →
    sending.mutation.id = id ∧ (id ∈ s.starredIds ↔ sending.mutation.wasStarred = false)

/-- Whether the generation is starred, leaving out a toggle whose request is under way. -/
inductive Member (s : Studio α) (id : α) (starred : Bool) : Prop where
  | sending (n : Nat) (sending : Sending α) : Sends s n id sending →
    sending.mutation.wasStarred = starred → Member s id starred
  | listed : (∀ n sending, ¬ Sends s n id sending) → (id ∈ s.starredIds ↔ starred = true) →
    Member s id starred

omit [DecidableEq α] in
theorem Member.same {starred : Bool} (h : Member s id starred)
    (hsends : ∀ m sending, Sends t m id sending ↔ Sends s m id sending)
    (hlisted : id ∈ t.starredIds ↔ id ∈ s.starredIds) : Member t id starred := by
  cases h with
  | sending n sending hn hwas => exact .sending n sending ((hsends _ _).2 hn) hwas
  | listed hnone hlist =>
    exact .listed (fun m sending hm => hnone m sending ((hsends _ _).1 hm)) (hlisted.trans hlist)

omit [DecidableEq α] in
/-- A toggle whose turn it is has no other one of its generation under way. -/
theorem Serial.none_before (h : Serial s) (hoperation : s.operations n = some operation)
    (hwaiting : operation.stage = .waiting) (hprevious : s.Resolved operation.previous) :
    ¬ Sends s m operation.id sending := by
  rintro ⟨other, hother, hid, hstage⟩
  rcases Nat.lt_trichotomy m n with hlt | rfl | hgt
  · have hdone := h.first hoperation hprevious m other hother hid hlt
    rw [hstage] at hdone
    cases hdone
  · rw [hoperation] at hother
    cases hother
    rw [hwaiting] at hstage
    cases hstage
  · have hdone := h.turn m other n operation hother hoperation hid.symm hgt (by
      rw [hstage]
      intro h
      cases h)
    rw [hwaiting] at hdone
    cases hdone

theorem perform_sends (hoperation : s.operations n = some operation)
    (hwaiting : operation.stage = .waiting) {sending : Sending α} :
    Sends (s.perform n operation) m id sending ↔
      m = n ∧ operation.id = id ∧
        ⟨(beginOptimisticStarMutation s.starredIds operation.id).2, s.starredMutationSequence + 1,
          false⟩ = sending ∨
      Sends s m id sending := by
  have hadvances : Advances s (s.perform n operation) n operation _ := ⟨hoperation, rfl, rfl, rfl⟩
  rw [hadvances.sends]
  constructor
  · rintro (⟨hm, hid, hstage⟩ | ⟨-, hm⟩)
    · exact .inl ⟨hm, hid, Stage.sending.inj hstage⟩
    · exact .inr hm
  · rintro (⟨hm, hid, hsending⟩ | hm)
    · exact .inl ⟨hm, hid, congrArg Stage.sending hsending⟩
    · refine .inr ⟨?_, hm⟩
      rintro rfl
      obtain ⟨other, hother, -, hstage⟩ := hm
      rw [hoperation] at hother
      cases hother
      rw [hwaiting] at hstage
      cases hstage

theorem receive_starredIds {requestEpoch : Nat} {load : ListLoad α} {listing : List α}
    (hnot : starredListSnapshotIsCurrent requestEpoch s.starredListRequestEpoch
      load.mutationEpoch s.starredMutationEpoch
      (decide (s.pendingStarredMutations.length > 0)) = false) :
    (s.receive requestEpoch load listing).starredIds = s.starredIds := by
  unfold Studio.receive
  dsimp only
  rw [if_neg (by simp [hnot])]

/-- A current snapshot came when no request was under way. -/
theorem current_pending {a b c d : Nat} {pending : List Nat}
    (h : starredListSnapshotIsCurrent a b c d (decide (pending.length > 0)) = true) :
    a = b ∧ c = d ∧ pending = [] := by
  unfold starredListSnapshotIsCurrent at h
  simp only [gt_iff_lt, Bool.and_eq_true, beq_iff_eq, Bool.not_eq_eq_eq_not, Bool.not_true,
    decide_eq_false_iff_not, Nat.not_lt, Nat.le_zero, List.length_eq_zero_iff] at h
  exact ⟨h.1.1, h.1.2, h.2⟩

omit [DecidableEq α] in
theorem Optimistic.same (h : Optimistic s)
    (hsends : ∀ m id sending, Sends t m id sending → ∃ old, Sends s m id old ∧
      sending.mutation = old.mutation)
    (hlisted : ∀ m id sending, Sends t m id sending → (id ∈ t.starredIds ↔ id ∈ s.starredIds)) :
    Optimistic t := by
  intro n id sending hn
  obtain ⟨old, hold, hmutation⟩ := hsends n id sending hn
  rw [hmutation, hlisted n id sending hn]
  exact h n id old hold

theorem Optimistic.does (h : Optimistic s) (hserial : Serial s) (htokens : Tokens s)
    (hdoes : Does mayFail s t) : Optimistic t := by
  have hsame : t.operations = s.operations → t.starredIds = s.starredIds → Optimistic t := by
    intro hoperations hlist
    refine h.same (fun m id sending hm => ⟨sending, (sends_of_operations hoperations).1 hm, rfl⟩) ?_
    intro m id sending _
    rw [hlist]
  cases hdoes with
  | toggle other =>
    refine h.same (fun m id sending hm => ⟨sending, (toggle_sends hserial).1 hm, rfl⟩) ?_
    exact fun _ _ _ _ => Iff.rfl
  | perform n operation hoperation hwaiting hprevious =>
    intro m id sending hm
    have hmem := mem_begin s.starredIds operation.id id
    rcases (perform_sends hoperation hwaiting).1 hm with ⟨-, hid, hsending⟩ | hm
    · subst hsending hid
      rw [if_pos rfl] at hmem
      refine ⟨rfl, hmem.trans ?_⟩
      simp [beginOptimisticStarMutation]
    · have hne : id ≠ operation.id := by
        rintro rfl
        exact hserial.none_before hoperation hwaiting hprevious hm
      rw [if_neg hne] at hmem
      obtain ⟨hid, hlist⟩ := h m id sending hm
      exact ⟨hid, hmem.trans hlist⟩
  | apply n operation sending hoperation hstage _ =>
    refine h.same ?_ fun _ _ _ _ => Iff.rfl
    intro m id sending' hm
    obtain ⟨old, hold, heq⟩ := (apply_sends hoperation hstage).1 hm
    refine ⟨old, hold, ?_⟩
    rw [heq]
    split <;> rfl
  | succeed n operation sending hoperation hstage _ =>
    refine h.same ?_ ?_
    · exact fun m id sending' hm => ⟨sending', ((settle_sends hoperation).1 hm).2, rfl⟩
    · intro m id sending' _
      rw [settle_starredIds]
  | fail n operation sending hoperation hstage _ _ =>
    have hrolled : (s.rollback sending).operations n = some operation := hoperation
    refine h.same ?_ ?_
    · exact fun m id sending' hm => ⟨sending', ((settle_sends hrolled).1 hm).2, rfl⟩
    · intro m id sending' hm
      obtain ⟨hne, hm'⟩ := (settle_sends hrolled).1 hm
      have hsends : Sends s n operation.id sending := ⟨operation, hoperation, rfl, hstage⟩
      have hid : id ≠ sending.mutation.id := by
        rw [(h n operation.id sending hsends).1]
        rintro rfl
        exact hne (hserial.alone hm' hsends)
      rw [settle_starredIds]
      have hmem := mem_rollback s.starredIds sending.mutation id
      rw [if_neg hid] at hmem
      exact hmem
  | resolve n operation reload hoperation hstage =>
    have hadvances : Advances s (s.setStage n operation .resolved) n operation .resolved :=
      ⟨hoperation, rfl, rfl, rfl⟩
    refine h.same ?_ fun _ _ _ _ => Iff.rfl
    intro m id sending hm
    refine ⟨sending, (hadvances.sends_same ?_ ?_).1 hm, rfl⟩
    · rw [hstage]
      exact fun _ heq => by cases heq
    · exact fun _ heq => by cases heq
  | clean n operation _ _ _ => exact hsame rfl rfl
  | nothing => exact h
  | load => exact hsame rfl rfl
  | answer requestEpoch load listing => exact hsame rfl rfl
  | receive requestEpoch load listing hload _ =>
    cases hcurrent : starredListSnapshotIsCurrent requestEpoch s.starredListRequestEpoch
      load.mutationEpoch s.starredMutationEpoch
      (decide (s.pendingStarredMutations.length > 0)) with
    | false => exact hsame receive_same.1 (receive_starredIds hcurrent)
    | true =>
      intro m id sending hm
      have hnone := (current_pending hcurrent).2.2
      exact absurd ((sends_of_operations receive_same.1).1 hm) (htokens.none hnone)
  | abort requestEpoch load => exact hsame rfl rfl

/-! ## A run without a snapshot -/

/-- How many toggles of the generation have succeeded. -/
def flips (s : Studio α) (id : α) : Nat := s.trace.count (.settled id true)

theorem flips_append {events : List (Event α)} (h : t.trace = s.trace ++ events) :
    flips t id = flips s id + events.count (.settled id true) := by
  unfold flips
  rw [h, List.count_append]

omit [DecidableEq α] in
theorem Member.wasStarred {starred : Bool} (h : Member s id starred) (hserial : Serial s)
    (hn : Sends s n id sending) : sending.mutation.wasStarred = starred := by
  cases h with
  | sending m sending' hm hwas =>
    obtain rfl := hserial.alone hn hm
    obtain ⟨operation, hoperation, -, hstage⟩ := hn
    obtain ⟨operation', hoperation', -, hstage'⟩ := hm
    rw [hoperation] at hoperation'
    cases hoperation'
    rw [hstage] at hstage'
    cases hstage'
    exact hwas
  | listed hnone _ => exact absurd hn (hnone n sending)

/-- A toggle ends: the list shows its generation as the toggle left it, and the others as
before. -/
theorem Member.ends {starred left : Bool} (h : Member s id starred) (hserial : Serial s)
    (hn : Sends s n operation.id sending)
    (hsends : ∀ m id sending, Sends t m id sending ↔ m ≠ n ∧ Sends s m id sending)
    (hleft : operation.id ∈ t.starredIds ↔ left = true)
    (hothers : id ≠ operation.id → (id ∈ t.starredIds ↔ id ∈ s.starredIds)) :
    Member t id (if id = operation.id then left else starred) := by
  by_cases heq : id = operation.id
  · rw [if_pos heq, heq]
    refine .listed (fun m sending' hm => ?_) hleft
    obtain ⟨hne, hm'⟩ := (hsends m _ _).1 hm
    exact hne (hserial.alone hm' hn)
  · rw [if_neg heq]
    refine h.same (fun m sending' => ?_) (hothers heq)
    rw [hsends]
    constructor
    · exact And.right
    · intro hm
      refine ⟨?_, hm⟩
      rintro rfl
      obtain ⟨other, hother, hid, -⟩ := hm
      obtain ⟨other', hother', hid', -⟩ := hn
      rw [hother] at hother'
      cases hother'
      exact heq (hid.symm.trans hid')

theorem Member.perform {starred : Bool} (h : Member s id starred) (hserial : Serial s)
    (hoperation : s.operations n = some operation) (hwaiting : operation.stage = .waiting)
    (hprevious : s.Resolved operation.previous) :
    Member (s.perform n operation) id starred := by
  have hmem := mem_begin s.starredIds operation.id id
  by_cases heq : id = operation.id
  · subst heq
    refine .sending n _ ((perform_sends hoperation hwaiting).2 (.inl ⟨rfl, rfl, rfl⟩)) ?_
    cases h with
    | sending m sending hm _ =>
      exact absurd hm (hserial.none_before hoperation hwaiting hprevious)
    | listed _ hlist =>
      show decide (operation.id ∈ s.starredIds) = starred
      rw [Bool.eq_iff_iff, decide_eq_true_iff]
      exact hlist
  · rw [if_neg heq] at hmem
    refine h.same (fun m sending => ?_) hmem
    rw [perform_sends hoperation hwaiting]
    constructor
    · rintro (⟨-, hid, -⟩ | hm)
      · exact absurd hid.symm heq
      · exact hm
    · exact .inr

/-- What a step makes of a generation, unless it shows a snapshot. -/
theorem Member.does {starred : Bool} (h : Member s id starred) (hserial : Serial s)
    (hoptimistic : Optimistic s) (hdoes : Does mayFail s t)
    (hnone : ∀ r, t.trace ≠ s.trace ++ [.accepted r]) :
    flips t id = flips s id ∧ Member t id starred ∨
      flips t id = flips s id + 1 ∧ Member t id !starred := by
  have hflips : t.trace = s.trace → flips t id = flips s id := by
    intro htrace
    unfold flips
    rw [htrace]
  have hsame : t.operations = s.operations → t.starredIds = s.starredIds →
      Member t id starred := by
    intro hoperations hlist
    refine h.same (fun _ _ => sends_of_operations hoperations) ?_
    rw [hlist]
  cases hdoes with
  | toggle other => exact .inl ⟨hflips rfl, h.same (fun _ _ => toggle_sends hserial) Iff.rfl⟩
  | perform n operation hoperation hwaiting hprevious =>
    refine .inl ⟨?_, h.perform hserial hoperation hwaiting hprevious⟩
    have htrace : (s.perform n operation).trace = s.trace ++ [.begun operation.id] := rfl
    rw [flips_append htrace]
    simp
  | apply n operation sending hoperation hstage _ =>
    refine .inl ⟨hflips rfl, ?_⟩
    cases h with
    | sending m old hm hwas =>
      refine .sending m _ ((apply_sends hoperation hstage).2 ⟨old, hm, rfl⟩) ?_
      rw [← hwas]
      split
      · rfl
      · rfl
    | listed hnone hlist =>
      refine .listed (fun m sending' hm => ?_) hlist
      obtain ⟨old, hold, -⟩ := (apply_sends hoperation hstage).1 hm
      exact hnone m old hold
  | succeed n operation sending hoperation hstage _ =>
    have hn : Sends s n operation.id sending := ⟨operation, hoperation, rfl, hstage⟩
    have hends : Member (s.settleMutation n operation sending true) id
        (if id = operation.id then !sending.mutation.wasStarred else starred) := by
      refine h.ends hserial hn (fun _ _ _ => settle_sends hoperation) ?_ fun _ => ?_
      · rw [settle_starredIds, (hoptimistic n _ sending hn).2, Bool.not_eq_true']
      · rw [settle_starredIds]
    rw [flips_append settle_trace]
    by_cases heq : id = operation.id
    · rw [if_pos heq, h.wasStarred hserial (heq ▸ hn)] at hends
      exact .inr ⟨by simp [heq], hends⟩
    · rw [if_neg heq] at hends
      refine .inl ⟨?_, hends⟩
      simp [Ne.symm heq]
  | fail n operation sending hoperation hstage _ _ =>
    have hn : Sends s n operation.id sending := ⟨operation, hoperation, rfl, hstage⟩
    have hrolled : (s.rollback sending).operations n = some operation := hoperation
    have hid : sending.mutation.id = operation.id := (hoptimistic n _ sending hn).1
    have hends : Member ((s.rollback sending).settleMutation n operation sending false) id
        (if id = operation.id then sending.mutation.wasStarred else starred) := by
      refine h.ends hserial hn (fun _ _ _ => settle_sends hrolled) ?_ fun hne => ?_
      · have hmem := mem_rollback s.starredIds sending.mutation operation.id
        rw [settle_starredIds, hid, if_pos rfl] at *
        exact hmem
      · have hmem := mem_rollback s.starredIds sending.mutation id
        rw [hid, if_neg hne] at hmem
        rw [settle_starredIds]
        exact hmem
    have htrace : ((s.rollback sending).settleMutation n operation sending false).trace =
        s.trace ++ [.settled operation.id false] := settle_trace
    refine .inl ⟨?_, ?_⟩
    · rw [flips_append htrace]
      simp
    · by_cases heq : id = operation.id
      · rw [if_pos heq, h.wasStarred hserial (heq ▸ hn)] at hends
        exact hends
      · rw [if_neg heq] at hends
        exact hends
  | resolve n operation reload hoperation hstage =>
    have hadvances : Advances s (s.setStage n operation .resolved) n operation .resolved :=
      ⟨hoperation, rfl, rfl, rfl⟩
    refine .inl ⟨hflips rfl, h.same (fun m sending => hadvances.sends_same ?_ ?_) Iff.rfl⟩
    · rw [hstage]
      exact fun _ heq => by cases heq
    · exact fun _ heq => by cases heq
  | clean n operation _ _ _ => exact .inl ⟨hflips rfl, hsame rfl rfl⟩
  | nothing => exact .inl ⟨rfl, h⟩
  | load => exact .inl ⟨hflips rfl, hsame rfl rfl⟩
  | answer requestEpoch load listing => exact .inl ⟨hflips rfl, hsame rfl rfl⟩
  | receive requestEpoch load listing hload _ =>
    cases hcurrent : starredListSnapshotIsCurrent requestEpoch s.starredListRequestEpoch
      load.mutationEpoch s.starredMutationEpoch
      (decide (s.pendingStarredMutations.length > 0)) with
    | false =>
      refine .inl ⟨hflips ?_, hsame receive_same.1 (receive_starredIds hcurrent)⟩
      unfold Studio.receive
      dsimp only
      rw [if_neg (by simp [hcurrent])]
    | true =>
      refine absurd ?_ (hnone requestEpoch)
      unfold Studio.receive
      dsimp only
      rw [if_pos hcurrent]
  | abort requestEpoch load => exact .inl ⟨hflips rfl, hsame rfl rfl⟩

/-- The step shows no snapshot. -/
def NoSnapshot (s : Studio α) (l : Label α) : Prop :=
  ∀ t, step s l = some t → ∀ r, t.trace ≠ s.trace ++ [.accepted r]

omit [DecidableEq α] in
theorem start_sends (h : Start s) : ¬ Sends s n id sending := by
  rintro ⟨operation, hoperation, -, -⟩
  rw [h.operations n] at hoperation
  cases hoperation

omit [DecidableEq α] in
theorem start_tokens (h : Start s) : Tokens s := by
  constructor
  · exact fun _ _ _ hn => absurd hn (start_sends h)
  · intro token htoken
    rw [h.pending] at htoken
    exact absurd htoken List.not_mem_nil
  · rw [h.pending]
    exact List.nodup_nil
  · intro token htoken
    rw [h.pending] at htoken
    exact absurd htoken List.not_mem_nil
  · exact fun _ _ _ _ _ _ hn => absurd hn (start_sends h)

/-- What holds of the requests under way. -/
structure Requests (s : Studio α) : Prop where
  serial : Serial s
  tokens : Tokens s
  optimistic : Optimistic s

theorem Requests.does (h : Requests s) (hdoes : Does mayFail s t) : Requests t :=
  ⟨h.serial.does hdoes, h.tokens.does h.serial hdoes, h.optimistic.does h.serial h.tokens hdoes⟩

theorem reach_requests {ok : Studio α → Label α → Prop} (h : (machine α).Reach ok s) :
    Requests s := by
  apply h.invariant
  · intro s hs
    exact ⟨start_serial hs, start_tokens hs, fun _ _ _ hn => absurd hn (start_sends hs)⟩
  · intro s l t hs _ hstep
    exact hs.does (step_does within_any hstep)

/-- Over a run without a snapshot, a generation is flipped once by every toggle of it that
succeeds. -/
theorem Member.path {starred : Bool} (hs : Requests s) (h : Member s id starred)
    (hpath : (machine α).Path NoSnapshot s t) :
    ∃ k left, flips t id = flips s id + k ∧ Member t id left ∧ (left = starred ↔ Even k) := by
  have hrequests : ∀ {u}, (machine α).Path NoSnapshot s u → Requests u := by
    intro u hu
    exact hu.invariant (fun _ _ _ hs _ hstep => hs.does (step_does within_any hstep)) hs
  induction hpath with
  | refl => exact ⟨0, starred, rfl, h, by simp⟩
  | @tail u v l hpath hnone hstep ih =>
    obtain ⟨k, left, hflips, hmember, hparity⟩ := ih
    have hu := hrequests hpath
    rcases hmember.does hu.serial hu.optimistic (step_does within_any hstep) (hnone v hstep) with
      ⟨hsame, hleft⟩ | ⟨hmore, hleft⟩
    · exact ⟨k, left, hsame.trans hflips, hleft, hparity⟩
    · refine ⟨k + 1, !left, by rw [hmore, hflips, Nat.add_assoc], hleft, ?_⟩
      rw [Nat.even_add_one, ← hparity]
      cases left
      · cases starred
        · simp
        · simp
      · cases starred
        · simp
        · simp

omit [DecidableEq α] in
/-- When no toggle of it is under way, the list shows whether a generation is starred. -/
theorem Member.listed_of_none {starred : Bool} (h : Member s id starred)
    (hnone : ∀ n sending, ¬ Sends s n id sending) : id ∈ s.starredIds ↔ starred = true := by
  cases h with
  | sending n sending hn _ => exact absurd hn (hnone n sending)
  | listed _ hlist => exact hlist

end Potocolom.Starred
