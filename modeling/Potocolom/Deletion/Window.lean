import Potocolom.Deletion.Machine

/-! # The deletion window

While no `change_state` moves the account to `deletion_pending` and every
`reclaim_restore` writes in time, the stamp of an account on its way out is the moment
it left, so the purge waits for the whole window. -/

namespace Potocolom.Deletion

open Accounts Guard

/-! ## What a transaction does to the user row -/

theorem request_user {a b : Account} {now : Time} (h : a.request now = some b) :
    ¬ leaving a.user.state ∧ b.user.state = .deletionPending ∧
      b.user.deletionRequestedAt = some now ∧ b.user.priorState = some a.user.state := by
  unfold Account.request at h
  split at h
  · next hstate =>
    cases h
    refine ⟨?_, rfl, rfl, rfl⟩
    rintro (hp | hp)
    · exact hstate.1 hp
    · exact hstate.2 hp
  · cases h

theorem restore_user {a b : Account} {now : Time} (h : a.restore now = .ok (some b)) :
    a.user.state = .deletionPending ∧ b.user.state = a.user.priorState.getD .active := by
  simp only [Account.restore, bind_eq_ok, require_eq_ok] at h
  rcases h with ⟨_, _, _, _, h⟩
  split at h
  · simp at h
  · next hstate =>
    simp only [pure_eq_ok, Option.some.injEq] at h
    rw [← h]
    exact ⟨by simpa using hstate, rfl⟩

theorem changeState_user {a b : Account} {change : StateChange} {now : Time}
    (h : a.changeState change now = .ok (some b)) :
    ¬ leaving a.user.state ∧ b.user.state ≠ .purging ∧ b.user.state ≠ a.user.state := by
  simp only [Account.changeState, bind_eq_ok, require_eq_ok] at h
  rcases h with ⟨_, _, h⟩
  split at h
  · simp at h
  · next hne =>
    simp only [bind_eq_ok, require_eq_ok] at h
    rcases h with ⟨_, hoffered, _, _, h⟩
    have hleaving : ¬ leaving a.user.state := by
      rintro (hp | hp) <;> rw [hp] at hoffered <;> exact absurd hoffered (by simp [AccountState.transitions])
    have hstate : b.user.state = change.state := by
      split at h
      all_goals
        simp only [pure_eq_ok, Option.some.injEq] at h
        rw [← h]
        try rfl
    rw [hstate]
    exact ⟨hleaving, change.offered, Ne.symm hne⟩

theorem claimPurge_user {a b : Account} {start : Time} (h : a.claimPurge start = some b) :
    due a.user start ∧ b.user.state = .purging := by
  unfold Account.claimPurge at h
  split at h
  · next hdue =>
    cases h
    exact ⟨hdue, rfl⟩
  · cases h

/-- A due account asked longer ago than the window. -/
theorem due_after {user : User} {start t : Time} (hdue : due user start)
    (ht : user.deletionRequestedAt = some t) : t + restoreWindow < start := by
  have hwindow := hdue.2
  rw [ht, Option.any_some] at hwindow
  exact of_decide_eq_true hwindow

/-! ## The invariant -/

/-- The moment of leaving, the stamp and the prior state agree. -/
structure WindowInv (s : World) : Prop where
  pending : ∀ {a}, s.account = some a → a.user.state = .deletionPending →
    ∃ t, s.since = some t ∧ a.user.deletionRequestedAt = some t ∧
      a.user.priorState = some s.before
  purging : ∀ {a}, s.account = some a → a.user.state = .purging →
    ∃ t, s.since = some t ∧ t + restoreWindow < s.now
  before : ∀ {a}, s.account = some a → leaving a.user.state → ¬ leaving s.before
  started : ∀ {p start}, s.purges p = .begun start ∨ s.purges p = .selected start →
    start ≤ s.now
  emptying : ∀ {p}, s.purges p = .claimed ∨ s.purges p = .emptied →
    (∃ t, s.since = some t ∧ t + restoreWindow < s.now) ∧
      ∀ {a}, s.account = some a → a.user.state = .purging
  restoring : ∀ {h}, s.holder = some h → h.restores = true →
    h.loaded.user.state = .deletionPending ∧ h.updated.user.state = s.before ∧
      ¬ leaving s.before ∧ ∀ {a}, s.account = some a → a.user.state ≠ .purging
  changing : ∀ {h}, s.holder = some h → h.restores = false →
    h.updated.user.state ≠ h.loaded.user.state ∧ h.updated.user.state ≠ .purging ∧
      ∀ {a}, s.account = some a → ¬ leaving a.user.state
  destroyed : ∀ d ∈ s.destroyed, ∃ t, d.since = some t ∧ t + restoreWindow ≤ d.time
  restored : ∀ r ∈ s.restored, r.1 = r.2

namespace WindowInv

variable {s : World}

/-- No purge is under way for an account that is not being purged. -/
theorem not_emptying (h : WindowInv s) {a : Account} (ha : s.account = some a)
    (hstate : a.user.state ≠ .purging) (p : Nat) :
    s.purges p ≠ .claimed ∧ s.purges p ≠ .emptied :=
  ⟨fun hp => hstate ((h.emptying (.inl hp)).2 ha), fun hp => hstate ((h.emptying (.inr hp)).2 ha)⟩

/-- A write that leaves the account off its way out. -/
theorem write_out (h : WindowInv s) {a b : Account} (ha : s.account = some a)
    (hpurging : a.user.state ≠ .purging) (hb : ¬ leaving b.user.state) :
    WindowInv (s.write a b) := by
  have hbefore : (s.write a b).before = s.before := by
    simp [World.write, hb]
  have hnot : ∀ {c}, (s.write a b).account = some c → ¬ leaving c.user.state := by
    intro c hc
    have hcb : b = c := Option.some.inj hc
    rw [← hcb]
    exact hb
  constructor
  case pending => exact fun hc hp => absurd (.inl hp) (hnot hc)
  case purging => exact fun hc hp => absurd (.inr hp) (hnot hc)
  case before => exact fun hc hl => absurd hl (hnot hc)
  case started => exact h.started
  case emptying =>
    intro p hp
    have hidle := h.not_emptying ha hpurging p
    exact absurd hp (not_or.mpr hidle)
  case restoring =>
    intro k hk hr
    have hold := h.restoring hk hr
    rw [hbefore]
    exact ⟨hold.1, hold.2.1, hold.2.2.1, fun hc hp => hnot hc (.inr hp)⟩
  case changing =>
    intro k hk hr
    have hold := h.changing hk hr
    exact ⟨hold.1, hold.2.1, hnot⟩
  case destroyed => exact h.destroyed
  case restored => exact h.restored

/-- The account leaves: the stamp is now, and the prior state is what it held. -/
theorem write_enter (h : WindowInv s) {a b : Account} (ha : s.account = some a)
    (hholder : s.holder = none) (hold : ¬ leaving a.user.state)
    (hb : b.user.state = .deletionPending) (hstamp : b.user.deletionRequestedAt = some s.now)
    (hprior : b.user.priorState = some a.user.state) : WindowInv (s.write a b) := by
  have hleaving : leaving b.user.state := .inl hb
  have hbefore : (s.write a b).before = a.user.state := by
    simp [World.write, hleaving, hold]
  have hsince : (s.write a b).since = some s.now := by
    simp [World.write, hleaving, hold]
  have hacc : ∀ {c}, (s.write a b).account = some c → c = b := fun hc => (Option.some.inj hc).symm
  constructor
  case pending =>
    intro c hc _
    rw [hacc hc, hbefore]
    exact ⟨s.now, hsince, hstamp, hprior⟩
  case purging =>
    intro c hc hp
    rw [hacc hc, hb] at hp
    cases hp
  case before =>
    intro c _ _
    rw [hbefore]
    exact hold
  case started => exact h.started
  case emptying =>
    intro p hp
    have hidle := h.not_emptying ha (fun hp => hold (.inr hp)) p
    exact absurd hp (not_or.mpr hidle)
  case restoring =>
    intro k hk _
    rw [show (s.write a b).holder = s.holder from rfl, hholder] at hk
    cases hk
  case changing =>
    intro k hk _
    rw [show (s.write a b).holder = s.holder from rfl, hholder] at hk
    cases hk
  case destroyed => exact h.destroyed
  case restored => exact h.restored

/-- The account is claimed by a pass that found it due. -/
theorem write_claim (h : WindowInv s) {a b : Account} (ha : s.account = some a)
    (hholder : s.holder = none) {start : Time} (hdue : due a.user start)
    (hstart : start ≤ s.now) (hb : b.user.state = .purging) :
    WindowInv (s.write a b) ∧
      ∃ t, (s.write a b).since = some t ∧ t + restoreWindow < s.now := by
  have hleaving : leaving b.user.state := .inr hb
  have hold : leaving a.user.state := hdue.1
  have hbefore : (s.write a b).before = s.before := by
    simp [World.write, hold]
  have hsince : (s.write a b).since = s.since := by
    simp [World.write, hleaving, hold]
  have hacc : ∀ {c}, (s.write a b).account = some c → c = b := fun hc => (Option.some.inj hc).symm
  have hpast : ∃ t, s.since = some t ∧ t + restoreWindow < s.now := by
    rcases hdue.1 with hp | hp
    · -- the stamp the claim read is the moment of leaving
      rcases h.pending ha hp with ⟨t, ht, hstamp, -⟩
      exact ⟨t, ht, Nat.lt_of_lt_of_le (due_after hdue hstamp) hstart⟩
    · exact h.purging ha hp
  refine ⟨?_, hsince ▸ hpast⟩
  constructor
  case pending =>
    intro c hc hp
    rw [hacc hc, hb] at hp
    cases hp
  case purging =>
    intro c _ _
    rw [hsince]
    exact hpast
  case before =>
    intro c _ _
    rw [hbefore]
    exact h.before ha hold
  case started => exact h.started
  case emptying =>
    intro p hp
    have hpurge := h.emptying hp
    rw [hsince]
    refine ⟨hpurge.1, ?_⟩
    intro c hc
    rw [hacc hc, hb]
  case restoring =>
    intro k hk _
    rw [show (s.write a b).holder = s.holder from rfl, hholder] at hk
    cases hk
  case changing =>
    intro k hk _
    rw [show (s.write a b).holder = s.holder from rfl, hholder] at hk
    cases hk
  case destroyed => exact h.destroyed
  case restored => exact h.restored

/-- A write that leaves an account on its way out where it is. -/
theorem write_stay (h : WindowInv s) {a b : Account} (ha : s.account = some a)
    (hold : leaving a.user.state) (hb : b.user.state = a.user.state)
    (hkeep : a.user.state = .deletionPending →
      b.user.deletionRequestedAt = a.user.deletionRequestedAt ∧
        b.user.priorState = a.user.priorState) : WindowInv (s.write a b) := by
  have hleaving : leaving b.user.state := hb ▸ hold
  have hbefore : (s.write a b).before = s.before := by
    simp [World.write, hold]
  have hsince : (s.write a b).since = s.since := by
    simp [World.write, hleaving, hold]
  have hacc : ∀ {c}, (s.write a b).account = some c → c = b := fun hc => (Option.some.inj hc).symm
  constructor
  case pending =>
    intro c hc hp
    rw [hacc hc, hb] at hp
    rw [hacc hc, hsince, hbefore, (hkeep hp).1, (hkeep hp).2]
    exact h.pending ha hp
  case purging =>
    intro c hc hp
    rw [hacc hc, hb] at hp
    rw [hsince]
    exact h.purging ha hp
  case before =>
    intro c _ _
    rw [hbefore]
    exact h.before ha hold
  case started => exact h.started
  case emptying =>
    intro p hp
    have hpurge := h.emptying hp
    rw [hsince]
    refine ⟨hpurge.1, ?_⟩
    intro c hc
    rw [hacc hc, hb]
    exact hpurge.2 ha
  case restoring =>
    intro k hk hr
    have hheld := h.restoring hk hr
    rw [hbefore]
    refine ⟨hheld.1, hheld.2.1, hheld.2.2.1, ?_⟩
    intro c hc
    rw [hacc hc, hb]
    exact hheld.2.2.2 ha
  case changing =>
    intro k hk hr
    exact absurd hold ((h.changing hk hr).2.2 ha)
  case destroyed => exact h.destroyed
  case restored => exact h.restored

/-- The transaction under the key ends. -/
theorem release (h : WindowInv s) : WindowInv { s with holder := none } := by
  refine { h with restoring := ?_, changing := ?_ }
  · intro k hk
    cases hk
  · intro k hk
    cases hk

/-- A pass moves to another stage. -/
theorem setPurge (h : WindowInv s) (p : Nat) {stage : Purge}
    (hstart : ∀ start, stage = .begun start ∨ stage = .selected start → start ≤ s.now)
    (hstage : stage = .claimed ∨ stage = .emptied →
      (∃ t, s.since = some t ∧ t + restoreWindow < s.now) ∧
        ∀ {a}, s.account = some a → a.user.state = .purging) :
    WindowInv (s.setPurge p stage) := by
  refine { h with started := ?_, emptying := ?_ }
  · intro q start hq
    by_cases hqp : q = p
    · rw [hqp] at hq
      simp only [World.setPurge, Function.update_self] at hq
      exact hstart start hq
    · simp only [World.setPurge, Function.update_of_ne hqp] at hq
      exact h.started hq
  · intro q hq
    by_cases hqp : q = p
    · rw [hqp] at hq
      simp only [World.setPurge, Function.update_self] at hq
      exact hstage hq
    · simp only [World.setPurge, Function.update_of_ne hqp] at hq
      exact h.emptying hq

/-- Nothing is destroyed before the window has run out. -/
theorem destroy (h : WindowInv s) {p : Nat} (hp : s.purges p = .claimed ∨ s.purges p = .emptied) :
    WindowInv s.destroy := by
  refine { h with destroyed := ?_ }
  intro d hd
  rcases List.mem_append.mp hd with hd | hd
  · exact h.destroyed d hd
  · rcases (h.emptying hp).1 with ⟨t, ht, hlt⟩
    rw [List.mem_singleton.mp hd]
    exact ⟨t, ht, Nat.le_of_lt hlt⟩

/-- The account's rows are deleted. -/
theorem delete (h : WindowInv s) : WindowInv { s with account := none } where
  pending := nofun
  purging := nofun
  before := nofun
  started := h.started
  emptying hp := ⟨(h.emptying hp).1, nofun⟩
  restoring hk hr := by
    have hheld := h.restoring hk hr
    exact ⟨hheld.1, hheld.2.1, hheld.2.2.1, nofun⟩
  changing hk hr := by
    have hheld := h.changing hk hr
    exact ⟨hheld.1, hheld.2.1, nofun⟩
  destroyed := h.destroyed
  restored := h.restored

end WindowInv

/-! ## One step -/

/-- The row that a restore writes holds the state before the deletion. -/
theorem WindowInv.restored_state {s : World} (h : WindowInv s) {k : Holder}
    (hk : s.holder = some k) (hr : k.restores = true) (row : User) :
    (writeColumns k.loaded.user k.updated.user row).state = s.before := by
  have hheld := h.restoring hk hr
  have hne : k.updated.user.state ≠ k.loaded.user.state := by
    rw [hheld.1, hheld.2.1]
    exact fun heq => hheld.2.2.1 (.inl heq)
  show (if k.updated.user.state = k.loaded.user.state then row.state
    else k.updated.user.state) = s.before
  rw [if_neg hne, hheld.2.1]

theorem commit_inv {s t : World} (h : WindowInv s) (hok : windowStep s .commit)
    (hst : step s .commit = some t) : WindowInv t := by
  simp only [step] at hst
  split at hst
  case h_2 => cases hst
  case h_1 k a hk ha =>
    cases hst
    set b : Account :=
      { k.updated with user := writeColumns k.loaded.user k.updated.user a.user } with hb
    rcases hrestores : k.restores with _ | _
    · -- `change_state`
      have hheld := h.changing hk hrestores
      have hstate : b.user.state = k.updated.user.state := if_neg hheld.1
      have hout : ¬ leaving b.user.state := by
        rw [hstate]
        rintro (hp | hp)
        · exact hok k hk hrestores hp
        · exact hheld.2.1 hp
      have hinv := h.write_out ha (fun hp => hheld.2.2 ha (.inr hp)) hout
      rw [if_neg (by simp)]
      exact { hinv.release with restored := h.restored }
    · -- `restore`
      have hheld := h.restoring hk hrestores
      have hstate : b.user.state = s.before := h.restored_state hk hrestores a.user
      have hout : ¬ leaving b.user.state := hstate ▸ hheld.2.2.1
      have hinv := h.write_out ha (hheld.2.2.2 ha) hout
      rw [if_pos rfl]
      refine { hinv.release with restored := ?_ }
      intro r hr
      rcases List.mem_append.mp hr with hr | hr
      · exact h.restored r hr
      · rw [List.mem_singleton.mp hr]
        exact hstate

theorem reclaimWrites_inv {s t : World} (h : WindowInv s) {r : Nat}
    (hok : windowStep s (.reclaimWrites r)) (hst : step s (.reclaimWrites r) = some t) :
    WindowInv t := by
  simp only [step] at hst
  split at hst
  case h_2 => cases hst
  case h_1 loaded a hr ha =>
    cases hst
    have htime : reclaimInTime loaded a.user := hok loaded hr a ha
    set b : Account := { a with user := writeColumns loaded (reclaimed loaded) a.user } with hb
    have hinv : WindowInv (s.write a b) := by
      by_cases hloaded : loaded.state = .active
      · -- the state column is not written
        have hstate : b.user.state = a.user.state := by
          show (if AccountState.active = loaded.state then a.user.state else _) = _
          rw [if_pos hloaded.symm]
        by_cases hold : leaving a.user.state
        · apply h.write_stay ha hold hstate
          intro hp
          have hclean := htime.2 hp hloaded
          show (if none = loaded.deletionRequestedAt then _ else _) = _ ∧
            (if none = loaded.priorState then _ else _) = _
          rw [if_pos hclean.1.symm, if_pos hclean.2.symm]
          exact ⟨rfl, rfl⟩
        · exact h.write_out ha (fun hp => hold (.inr hp)) (hstate ▸ hold)
      · have hstate : b.user.state = .active := by
          show (if AccountState.active = loaded.state then _ else _) = _
          rw [if_neg (Ne.symm hloaded)]
          rfl
        apply h.write_out ha
        · exact fun hp => hloaded (htime.1 hp)
        · rw [hstate]
          rintro (hp | hp) <;> cases hp
    exact { hinv with }

theorem step_inv {s t : World} {l : Action} (h : WindowInv s) (hok : windowStep s l)
    (hst : step s l = some t) : WindowInv t := by
  cases l
  case commit => exact commit_inv h hok hst
  case reclaimWrites r => exact reclaimWrites_inv h hok hst
  all_goals simp only [step] at hst
  case tick seconds =>
    cases hst
    have hlater : s.now ≤ s.now + seconds := Nat.le_add_right _ _
    exact
      { h with
        purging := fun ha hp => by
          rcases h.purging ha hp with ⟨u, hu, hlt⟩
          exact ⟨u, hu, Nat.lt_of_lt_of_le hlt hlater⟩
        started := fun hp => Nat.le_trans (h.started hp) hlater
        emptying := fun hp => by
          rcases (h.emptying hp).1 with ⟨u, hu, hlt⟩
          exact ⟨⟨u, hu, Nat.lt_of_lt_of_le hlt hlater⟩, (h.emptying hp).2⟩ }
  case deleteAccount =>
    split at hst
    · next a hholder ha =>
      rw [Option.map_eq_some_iff] at hst
      rcases hst with ⟨b, hb, rfl⟩
      rcases request_user hb with ⟨hold, hstate, hstamp, hprior⟩
      exact h.write_enter ha hholder hold hstate hstamp hprior
    · cases hst
  case restore =>
    split at hst
    · next a hholder ha =>
      split at hst
      · next b hb =>
        cases hst
        rcases restore_user hb with ⟨hpending, hstate⟩
        rcases h.pending ha hpending with ⟨u, -, -, hprior⟩
        refine { h with restoring := ?_, changing := ?_ }
        · intro k hk _
          cases hk
          refine ⟨hpending, ?_, h.before ha (.inl hpending), ?_⟩
          · rw [hstate, hprior]
            rfl
          · intro c hc
            have hca : c = a := (Option.some.inj (ha.symm.trans hc)).symm
            rw [hca, hpending]
            simp
        · intro k hk hr
          cases hk
          cases hr
      · cases hst
    · cases hst
  case changeState change =>
    split at hst
    · next a hholder ha =>
      split at hst
      · next b hb =>
        cases hst
        rcases changeState_user hb with ⟨hold, hpurging, hne⟩
        refine { h with restoring := ?_, changing := ?_ }
        · intro k hk hr
          cases hk
          cases hr
        · intro k hk _
          cases hk
          refine ⟨hne, hpurging, ?_⟩
          intro c hc
          rwa [← Option.some.inj (ha.symm.trans hc)]
      · cases hst
    · cases hst
  case rollBack =>
    rw [Option.map_eq_some_iff] at hst
    rcases hst with ⟨k, -, rfl⟩
    exact h.release
  case reclaimReads r =>
    split at hst
    · split at hst
      · cases hst
      · cases hst
        exact { h with }
    · cases hst
  case begins p =>
    split at hst
    · cases hst
      apply h.setPurge p
      · intro start hstage
        rcases hstage with hstage | hstage
        · cases hstage
          exact Nat.le_refl _
        · cases hstage
      · rintro (hstage | hstage) <;> cases hstage
    · cases hst
  case selects p =>
    split at hst
    · next start a hp ha =>
      split at hst
      · cases hst
        apply h.setPurge p
        · intro start' hstage
          rcases hstage with hstage | hstage
          · cases hstage
          · cases hstage
            exact h.started (.inl hp)
        · rintro (hstage | hstage) <;> cases hstage
      · cases hst
    · cases hst
  case claims p =>
    split at hst
    · next start a hp hholder ha =>
      split at hst
      · next b hb =>
        cases hst
        rcases claimPurge_user hb with ⟨hdue, hstate⟩
        rcases h.write_claim ha hholder hdue (h.started (.inr hp)) hstate with ⟨hinv, hpast⟩
        apply hinv.setPurge p
        · rintro start' (hstage | hstage) <;> cases hstage
        · intro _
          refine ⟨hpast, ?_⟩
          intro c hc
          rwa [← Option.some.inj hc]
      · cases hst
        exact h.setPurge p (by simp) (by simp)
    · cases hst
  case empties p =>
    split at hst
    · next hp =>
      cases hst
      apply (h.destroy (.inl hp)).setPurge p
      · simp
      · exact fun _ => h.emptying (.inl hp)
    · cases hst
  case deletes p =>
    split at hst
    · next hp =>
      cases hst
      exact ((h.destroy (.inr hp.1)).delete).setPurge p (by simp) (by simp)
    · cases hst
  case fails p =>
    cases hst
    exact h.setPurge p (by simp) (by simp)

theorem reach_inv {s : World} (hs : deletionMachine.Reach windowStep s) : WindowInv s := by
  apply hs.invariant
  · rintro s ⟨⟨a, ha, hout⟩, hholder, hpurges, -, -, hdestroyed, hrestored⟩
    have hacc : ∀ {c}, s.account = some c → ¬ leaving c.user.state := by
      intro c hc
      rwa [← Option.some.inj (ha.symm.trans hc)]
    constructor
    case pending => exact fun hc hp => absurd (.inl hp) (hacc hc)
    case purging => exact fun hc hp => absurd (.inr hp) (hacc hc)
    case before => exact fun hc hl => absurd hl (hacc hc)
    all_goals simp [hholder, hpurges, hdestroyed, hrestored]
  · intro s l t h hok hst
    exact step_inv h hok hst

/-- From `purging` there is no way but deletion. -/
theorem purging_stays {s t : World} {l : Action} (h : WindowInv s) (hok : windowStep s l)
    (hst : step s l = some t) {a : Account} (ha : s.account = some a)
    (hstate : a.user.state = .purging) {b : Account} (hb : t.account = some b) :
    b.user.state = .purging := by
  have hkept : ∀ {u : World}, u.account = s.account → u.account = some b →
      b.user.state = .purging := by
    intro u hu hub
    rw [hu, ha] at hub
    rw [← Option.some.inj hub]
    exact hstate
  cases l <;> simp only [step] at hst
  case tick seconds =>
    cases hst
    exact hkept rfl hb
  case deleteAccount =>
    split at hst
    · next a' _ ha' =>
      rw [Option.map_eq_some_iff] at hst
      rcases hst with ⟨c, hc, -⟩
      rw [ha] at ha'
      rw [Option.some.inj ha'] at hstate
      exact absurd (.inr hstate) (request_user hc).1
    · cases hst
  case restore =>
    split at hst
    · split at hst
      · cases hst
        exact hkept rfl hb
      · cases hst
    · cases hst
  case changeState change =>
    split at hst
    · split at hst
      · cases hst
        exact hkept rfl hb
      · cases hst
    · cases hst
  case commit =>
    split at hst
    · next k a' hk ha' =>
      -- whoever holds the key read an account that was not being purged
      rcases hrestores : k.restores with _ | _
      · exact absurd (.inr hstate) ((h.changing hk hrestores).2.2 ha)
      · exact absurd hstate ((h.restoring hk hrestores).2.2.2 ha)
    · cases hst
  case rollBack =>
    rw [Option.map_eq_some_iff] at hst
    rcases hst with ⟨k, -, rfl⟩
    exact hkept rfl hb
  case reclaimReads r =>
    split at hst
    · split at hst
      · cases hst
      · cases hst
        exact hkept rfl hb
    · cases hst
  case reclaimWrites r =>
    split at hst
    · next loaded a' hr ha' =>
      cases hst
      rw [ha] at ha'
      rw [Option.some.inj ha'] at hstate
      have hloaded : loaded.state = .active := (hok loaded hr a' (ha.symm ▸ ha')).1 hstate
      rw [← Option.some.inj hb]
      show (if AccountState.active = loaded.state then a'.user.state else _) = _
      rw [if_pos hloaded.symm]
      exact hstate
    · cases hst
  case begins p =>
    split at hst
    · cases hst
      exact hkept rfl hb
    · cases hst
  case selects p =>
    split at hst
    · split at hst
      · cases hst
        exact hkept rfl hb
      · cases hst
    · cases hst
  case claims p =>
    split at hst
    · split at hst
      · next c hc =>
        cases hst
        rw [← Option.some.inj hb]
        exact (claimPurge_user hc).2
      · cases hst
        exact hkept rfl hb
    · cases hst
  case empties p =>
    split at hst
    · cases hst
      exact hkept rfl hb
    · cases hst
  case deletes p =>
    split at hst
    · cases hst
      cases hb
    · cases hst
  case fails p =>
    cases hst
    exact hkept rfl hb

/-- The deletion window holds in every run in which no `change_state` moves the account
to `deletion_pending` and `reclaim_restore` writes in time. -/
theorem deletion_window {s : World} (hs : deletionMachine.Reach windowStep s) :
    (∀ d ∈ s.destroyed, ∃ t, d.since = some t ∧ t + restoreWindow ≤ d.time) ∧
      (∀ a, s.account = some a → a.user.state = .deletionPending →
        ∃ t, s.since = some t ∧ (t + restoreWindow < s.now → due a.user s.now)) ∧
      (∀ r ∈ s.restored, r.1 = r.2) ∧
      ∀ l t a b, windowStep s l → step s l = some t → s.account = some a →
        a.user.state = .purging → t.account = some b → b.user.state = .purging := by
  have h := reach_inv hs
  refine ⟨h.destroyed, ?_, h.restored, ?_⟩
  · intro a ha hstate
    rcases h.pending ha hstate with ⟨t, ht, hstamp, -⟩
    refine ⟨t, ht, fun hlt => ⟨.inl hstate, ?_⟩⟩
    rw [hstamp, Option.any_some]
    exact decide_eq_true hlt
  · intro l t a b hok hst ha hstate hb
    exact purging_stays h hok hst ha hstate hb

/-- An active account, nothing asked of it yet. -/
def sampleStart : World where
  now := 0
  account :=
    some
      { user := ⟨"ada@example.org", true, .user, .active, none, none⟩
        identities := [], factor := none, recoveryCodes := [], tokens := [], sessions := []
        outbox := [], next := 0 }
  holder := none
  purges := fun _ => .idle
  reclaims := fun _ => none
  since := none
  before := .active
  destroyed := []
  restored := []

/-- An administrator's move to `deletion_pending`. -/
def sampleDeletion : StateChange := ⟨.deletionPending, by decide, false, true⟩

/-- Suspended, deleted and restored, then deleted again and purged after the window. -/
def sampleRun : List Action :=
  [.changeState ⟨.suspended, by decide, false, true⟩, .commit, .deleteAccount, .restore,
    .commit, .tick 5, .deleteAccount, .tick (restoreWindow + 1), .begins 0, .selects 0,
    .claims 0, .empties 0, .deletes 0]

theorem sampleStart_init : deletionMachine.init sampleStart :=
  ⟨⟨_, rfl, by decide⟩, rfl, fun _ => rfl, fun _ => rfl, rfl, rfl, rfl⟩

theorem deletion_window_sample :
    ∃ s, deletionMachine.run sampleStart sampleRun = some s ∧
      s.restored = [(.suspended, .suspended)] ∧
      s.destroyed.map Destruction.since = [some 5, some 5] ∧
      ∀ d ∈ s.destroyed, ∃ t, d.since = some t ∧ t + restoreWindow ≤ d.time := by
  refine ⟨_, rfl, rfl, rfl, ?_⟩
  have hok : deletionMachine.RunOk windowStep sampleStart sampleRun := by decide
  exact (deletion_window ⟨_, sampleStart_init, Machine.path_of_run rfl hok⟩).1

/-- After a restore, an administrator's move to `deletion_pending` finds the stamp of the
first deletion: the next pass destroys the account at once. -/
def staleStampRun : List Action :=
  [.deleteAccount, .restore, .commit, .tick (restoreWindow + 1), .changeState sampleDeletion,
    .commit, .begins 0, .selects 0, .claims 0, .empties 0, .deletes 0]

theorem stale_stamp_destroys :
    ∃ s, deletionMachine.Reach Machine.anyStep s ∧
      ¬ ∀ d ∈ s.destroyed, ∃ t, d.since = some t ∧ t + restoreWindow ≤ d.time := by
  have hrun (s : World) (h : deletionMachine.run sampleStart staleStampRun = some s) :
      deletionMachine.Reach Machine.anyStep s :=
    ⟨_, sampleStart_init, Machine.path_of_run_any h⟩
  refine ⟨_, hrun _ rfl, ?_⟩
  intro h
  rcases h ⟨restoreWindow + 1, some (restoreWindow + 1)⟩ (by decide) with ⟨t, ht, hle⟩
  have heq : restoreWindow + 1 = t := Option.some.inj ht
  rw [← heq] at hle
  exact absurd hle (by decide)

end Potocolom.Deletion
