import Potocolom.Accounts.Spec

/-! # What the transactions do to the factor and the recovery codes

Only three kinds of step touch them: an answered challenge spends a proof, a removal or
a replacement spends one and takes the factor and the codes away with it, and a charged
attempt counts on the factor row. Everything else keeps both as they are. -/

namespace Potocolom.Accounts

open Guard

/-- The factor, its last step and the recovery codes are the same. -/
structure Keeps (a a' : Account) : Prop where
  factor : a'.factor.map (fun row => (row.id, row.lastStep)) =
    a.factor.map fun row => (row.id, row.lastStep)
  codes : a'.recoveryCodes = a.recoveryCodes
  next_le : a.next ≤ a'.next

theorem Keeps.refl (a : Account) : Keeps a a := ⟨rfl, rfl, Nat.le_refl _⟩

theorem Keeps.trans {a b c : Account} (hab : Keeps a b) (hbc : Keeps b c) : Keeps a c where
  factor := hbc.factor.trans hab.factor
  codes := hbc.codes.trans hab.codes
  next_le := Nat.le_trans hab.next_le hbc.next_le

theorem Keeps.of_eq {a a' : Account} (hfactor : a'.factor = a.factor)
    (hcodes : a'.recoveryCodes = a.recoveryCodes) (hnext : a.next ≤ a'.next) : Keeps a a' :=
  ⟨by rw [hfactor], hcodes, hnext⟩

theorem keeps_revokeWhere (a : Account) (p : Session → Bool) (now : Time) :
    Keeps a (a.revokeWhere p now) := Keeps.of_eq rfl rfl (Nat.le_refl _)

theorem keeps_spendWhere (a : Account) (p : AuthToken → Bool) (now : Time) :
    Keeps a (a.spendWhere p now) := Keeps.of_eq rfl rfl (Nat.le_refl _)

theorem keeps_rotateAndRevokeOthers {a a' : Account} {resolved : Resolved} {spend : Bool}
    {now : Time} (h : a.rotateAndRevokeOthers resolved spend now = .ok a') :
    Keeps a a' ∧ a'.factor = a.factor := by
  simp only [Account.rotateAndRevokeOthers, bind_eq_ok, require_eq_ok, pure_eq_ok] at h
  rcases h with ⟨-, -, rfl⟩
  have hfactor : (if spend then a.spendLinks now else a).factor = a.factor := by split <;> rfl
  have hcodes : (if spend then a.spendLinks now else a).recoveryCodes = a.recoveryCodes := by
    split <;> rfl
  have hnext : (if spend then a.spendLinks now else a).next = a.next := by split <;> rfl
  exact ⟨Keeps.of_eq hfactor hcodes (by rw [← hnext]; exact Nat.le_succ _), hfactor⟩

theorem keeps_changeRole {a a' : Account} {change : RoleChange} {now : Time}
    (h : a.changeRole change now = .ok a') : Keeps a a' := by
  simp only [Account.changeRole, bind_eq_ok, require_eq_ok] at h
  rcases h with ⟨-, -, h⟩
  split at h <;> simp only [bind_eq_ok, require_eq_ok, pure_eq_ok] at h
  · rcases h with ⟨-, -, -, -, rfl⟩
    exact Keeps.of_eq rfl rfl (Nat.le_refl _)
  · rcases h with ⟨-, -, rfl⟩
    exact Keeps.of_eq rfl rfl (Nat.le_refl _)

theorem keeps_changeState {a a' : Account} {change : StateChange} {now : Time}
    (h : a.changeState change now = .ok (some a')) : Keeps a a' := by
  simp only [Account.changeState, bind_eq_ok, require_eq_ok] at h
  rcases h with ⟨-, -, h⟩
  split at h
  · simp at h
  · simp only [bind_eq_ok, require_eq_ok] at h
    rcases h with ⟨-, -, -, -, h⟩
    split at h <;> simp only [pure_eq_ok, Option.some.injEq] at h <;> subst h
    · exact Keeps.of_eq rfl rfl (Nat.le_refl _)
    · exact Keeps.of_eq rfl rfl (Nat.le_refl _)

theorem keeps_request {a a' : Account} {now : Time} (h : a.request now = some a') :
    Keeps a a' := by
  unfold Account.request at h
  split at h
  · cases h
    exact Keeps.of_eq rfl rfl (Nat.le_refl _)
  · cases h

theorem keeps_restore {a a' : Account} {now : Time} (h : a.restore now = .ok (some a')) :
    Keeps a a' := by
  simp only [Account.restore, bind_eq_ok, require_eq_ok] at h
  rcases h with ⟨-, -, -, -, h⟩
  split at h
  · simp at h
  · simp only [pure_eq_ok, Option.some.injEq] at h
    subst h
    exact Keeps.of_eq rfl rfl (Nat.le_refl _)

theorem keeps_claimPurge {a a' : Account} {now : Time} (h : a.claimPurge now = some a') :
    Keeps a a' := by
  unfold Account.claimPurge at h
  split at h
  · cases h
    exact Keeps.of_eq rfl rfl (Nat.le_refl _)
  · cases h

theorem keeps_complete {env : Env} {a a' : Account} {token : Nat} {password : String} {now : Time}
    (h : a.complete env token password now = .ok a') : Keeps a a' := by
  simp only [Account.complete, bind_eq_ok, require_eq_ok, demand_eq_ok, pure_eq_ok] at h
  rcases h with ⟨-, -, hash, -, rfl⟩
  refine Keeps.trans ?_ (keeps_revokeWhere _ _ _)
  split
  · exact Keeps.of_eq rfl rfl (Nat.le_refl _)
  · exact Keeps.of_eq rfl rfl (Nat.le_succ _)

theorem keeps_writeCredential {env : Env} {a b : Account} {call : CredentialCall}
    (h : a.writeCredential env call = .ok (some b)) : Keeps a b := by
  cases call with
  | password password current taken =>
    simp only [Account.writeCredential, bind_eq_ok, pure_eq_ok, Option.some.injEq, exists_eq_right,
      Account.changePassword, require_eq_ok, demand_eq_ok] at h
    rcases h with ⟨-, -, hash, -, h⟩
    split at h
    · simp only [bind_eq_ok, require_eq_ok, pure_eq_ok] at h
      rcases h with ⟨-, -, rfl⟩
      exact Keeps.of_eq rfl rfl (Nat.le_succ _)
    · simp only [pure_eq_ok] at h
      subst h
      exact Keeps.of_eq rfl rfl (Nat.le_refl _)
  | email address taken =>
    simp only [Account.writeCredential, Account.changeEmail] at h
    split at h
    · simp at h
    · simp only [bind_eq_ok, require_eq_ok, pure_eq_ok, Option.some.injEq] at h
      rcases h with ⟨-, -, rfl⟩
      exact Keeps.of_eq rfl rfl (Nat.le_refl _)
  | unlink provider =>
    simp only [Account.writeCredential, bind_eq_ok, pure_eq_ok, Option.some.injEq, exists_eq_right,
      Account.unlinkIdentity, require_eq_ok, demand_eq_ok] at h
    rcases h with ⟨-, -, linked, -, -, -, rfl⟩
    exact Keeps.of_eq rfl rfl (Nat.le_refl _)
  | link provider subject email taken =>
    simp only [Account.writeCredential, bind_eq_ok, pure_eq_ok, Option.some.injEq, exists_eq_right,
      Account.link, require_eq_ok] at h
    rcases h with ⟨-, -, h⟩
    split at h <;> simp only [pure_eq_ok] at h <;> subst h
    · exact Keeps.of_eq rfl rfl (Nat.le_succ _)
    · exact Keeps.of_eq rfl rfl (Nat.le_succ _)

theorem keeps_changeCredential {env : Env} {a a' : Account} {principal : Resolved}
    {call : CredentialCall} {now : Time}
    (h : a.changeCredential env principal call now = .ok (some a')) : Keeps a a' := by
  simp only [Account.changeCredential] at h
  rw [bind_eq_ok] at h
  rcases h with ⟨changed, hchanged, h⟩
  cases changed with
  | none => simp at h
  | some b =>
    simp only [bind_eq_ok, pure_eq_ok, Option.some.injEq, exists_eq_right] at h
    exact (keeps_writeCredential hchanged).trans (keeps_rotateAndRevokeOthers h).1

theorem keeps_spendReplacementAttempt {a a' : Account} {factor : Nat}
    (h : a.spendReplacementAttempt factor = some a') : Keeps a a' := by
  unfold Account.spendReplacementAttempt at h
  split at h
  · next row hrow =>
    split at h
    · cases h
      exact ⟨by simp [hrow], rfl, Nat.le_refl _⟩
    · cases h
  · cases h

theorem keeps_claimAttempt {a a' : Account} {token challenge : Nat} {now : Time}
    (h : a.claimAttempt token now = some (challenge, a')) : Keeps a a' := by
  unfold Account.claimAttempt at h
  rcases Option.map_eq_some_iff.mp h with ⟨row, -, hrow⟩
  cases hrow
  exact Keeps.of_eq rfl rfl (Nat.le_refl _)

theorem keeps_beginChallenge (a : Account) (now : Time) : Keeps a (a.beginChallenge now).2 :=
  Keeps.of_eq rfl rfl (Nat.le_add_right _ _)

theorem keeps_mint (a : Account) (purpose : Purpose) (ttl now : Time) :
    Keeps a (a.mint purpose ttl now).2 :=
  Keeps.of_eq rfl rfl (Nat.le_add_right _ _)

theorem keeps_mintBehindTheGate {a a' : Account} {user : User} {rememberMe : Bool}
    {expected : Option Nat} {now : Time} {session : Session}
    (h : a.mintBehindTheGate user rememberMe expected now = some (session, a')) : Keeps a a' := by
  unfold Account.mintBehindTheGate at h
  split at h
  · cases h
    exact Keeps.of_eq rfl rfl (Nat.le_add_right _ _)
  · cases h

/-! ## Every other step -/

/-- The steps that spend a proof. -/
def Action.spends : Action → Bool
  | .changeFactor _ | .winChallenge _ => true
  | _ => false

variable {env : Env} {s t : World}

theorem step_keeps {l : Action} (hl : l.spends = false) (h : step env s l = some t) :
    Keeps s.account t.account := by
  cases l with
  | changeFactor r => cases hl
  | winChallenge r => cases hl
  | tick | touch | revoke =>
    simp only [step, Option.some.injEq] at h
    subst h
    exact Keeps.of_eq rfl rfl (Nat.le_refl _)
  | changeRole change =>
    simp only [step] at h
    split at h
    · next hok =>
      cases h
      exact keeps_changeRole hok
    · cases h
  | changeState change =>
    simp only [step] at h
    split at h
    · next hok =>
      cases h
      exact keeps_changeState hok
    · cases h
  | deleteAccount =>
    rcases Option.map_eq_some_iff.mp h with ⟨a, hok, rfl⟩
    exact keeps_request hok
  | restore =>
    simp only [step] at h
    split at h
    · next hok =>
      cases h
      exact keeps_restore hok
    · cases h
  | purge =>
    rcases Option.map_eq_some_iff.mp h with ⟨a, hok, rfl⟩
    exact keeps_claimPurge hok
  | queueReset r =>
    simp only [step] at h
    split at h
    · cases h
      exact Keeps.of_eq rfl rfl (Nat.le_add_right _ _)
    · cases h
  | mintLink r =>
    simp only [step] at h
    split at h
    · cases h
      exact keeps_mint _ _ _ _
    · cases h
  | complete r =>
    simp only [step] at h
    split at h
    · split at h
      · next hok =>
        cases h
        exact keeps_complete hok
      · cases h
    · cases h
  | changeCredential r =>
    simp only [step] at h
    split at h
    · split at h
      · next hok =>
        cases h
        exact keeps_changeCredential hok
      · cases h
    · cases h
  | chargeAttempt r =>
    simp only [step] at h
    split at h
    · split at h
      · next hok =>
        split at h <;> cases h
        · exact keeps_spendReplacementAttempt hok
        · exact keeps_spendReplacementAttempt hok
      · cases h
    · cases h
  | mintBehindTheGate r =>
    simp only [step] at h
    split at h
    · split at h
      · next hok =>
        cases h
        exact keeps_mintBehindTheGate hok
      · cases h
        exact Keeps.refl _
    · cases h
  | beginChallenge r =>
    simp only [step] at h
    split at h
    · cases h
      exact keeps_beginChallenge _ _
    · cases h
  | claimAttempt r token code rememberMe =>
    rcases Option.map_eq_some_iff.mp h with ⟨⟨challenge, a⟩, hok, rfl⟩
    exact keeps_claimAttempt hok
  | readForReset r email | signIn r proving =>
    rcases Option.map_eq_some_iff.mp h with ⟨_, -, rfl⟩
    exact Keeps.refl _
  | matchCode r =>
    simp only [step] at h
    split at h
    · rcases Option.map_eq_some_iff.mp h with ⟨_, -, rfl⟩
      exact Keeps.refl _
    · cases h
  | deliverReset r email | readForRecovery r email | presentLink r token password
  | openCredential r cookie call | openEnrolment r cookie enrolment code current
  | openRemoval r cookie code | readFactor r | lookForCode r | checkLive r | readChallenged r =>
    -- these read, and write down what they have read
    simp only [step] at h
    repeat' split at h
    all_goals first
      | (cases h; exact Keeps.refl _)
      | cases h

end Potocolom.Accounts
