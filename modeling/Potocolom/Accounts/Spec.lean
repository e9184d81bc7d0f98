import Potocolom.Accounts.Requests

/-! # What the transactions of an account can do

One lemma for each transaction says everything the arguments about a run need: which
sessions and links are left, and what it did to the role, the state and the factor.
`Effect` then says what a step of the machine can do, and `step_effect` that it can
do nothing else. -/

namespace Potocolom.Accounts

open Guard

/-- A row that no revocation has ended. -/
def Session.standing (row : Session) : Prop := row.revokedAt = none

/-- A reset or recovery link nobody has used or spent. -/
def AuthToken.outstanding (row : AuthToken) : Prop :=
  row.purpose.opensReset = true ∧ row.consumedAt = none

/-- Nothing new: every standing session of `a'` stood in `a`, with the token it had
there or a fresh one, and every outstanding link of `a'` was outstanding in `a`. -/
structure Shrinks (a a' : Account) : Prop where
  next_le : a.next ≤ a'.next
  sessions : ∀ row' ∈ a'.sessions, row'.standing →
    ∃ row ∈ a.sessions, row.standing ∧ row.id = row'.id ∧
      (row'.tokenHash = row.tokenHash ∨ a.next ≤ row'.tokenHash ∧ row'.tokenHash < a'.next)
  links : ∀ row' ∈ a'.tokens, row'.outstanding →
    ∃ row ∈ a.tokens, row.outstanding ∧ row.tokenHash = row'.tokenHash

/-- No session stands but the one kept. -/
def Account.evicted (a : Account) (keeps : Option Nat) : Prop :=
  ∀ row ∈ a.sessions, row.standing → keeps = some row.id

/-- No link is outstanding. -/
def Account.noLink (a : Account) : Prop := ∀ row ∈ a.tokens, ¬ row.outstanding

/-- The id of the confirmed factor. -/
def Account.factorId (a : Account) : Option Nat := a.factor.map (·.id)

/-- The role and the state are the same. -/
def SameUser (a a' : Account) : Prop := a'.user.role = a.user.role ∧ a'.user.state = a.user.state

/-! ## Shrinking -/

theorem Shrinks.refl (a : Account) : Shrinks a a where
  next_le := le_rfl
  sessions row' h hs := ⟨row', h, hs, rfl, .inl rfl⟩
  links row' h hl := ⟨row', h, hl, rfl⟩

theorem Shrinks.trans {a b c : Account} (hab : Shrinks a b) (hbc : Shrinks b c) : Shrinks a c where
  next_le := Nat.le_trans hab.next_le hbc.next_le
  sessions := by
    intro row'' h hs
    obtain ⟨row', h', hs', hid', htoken'⟩ := hbc.sessions row'' h hs
    obtain ⟨row, h, hs, hid, htoken⟩ := hab.sessions row' h' hs'
    refine ⟨row, h, hs, hid.trans hid', ?_⟩
    rcases htoken' with htoken' | ⟨hlo, hhi⟩
    · rw [htoken']
      rcases htoken with htoken | ⟨hlo, hhi⟩
      · exact .inl htoken
      · exact .inr ⟨hlo, Nat.lt_of_lt_of_le hhi hbc.next_le⟩
    · exact .inr ⟨Nat.le_trans hab.next_le hlo, hhi⟩
  links := by
    intro row'' h hl
    obtain ⟨row', h', hl', htoken'⟩ := hbc.links row'' h hl
    obtain ⟨row, h, hl, htoken⟩ := hab.links row' h' hl'
    exact ⟨row, h, hl, htoken.trans htoken'⟩

/-- Other columns and other tables do not count. -/
theorem Shrinks.of_eq {a a' : Account} (hnext : a.next ≤ a'.next)
    (hsessions : a'.sessions = a.sessions) (htokens : a'.tokens = a.tokens) : Shrinks a a' where
  next_le := hnext
  sessions := by
    intro row' h hs
    exact ⟨row', hsessions ▸ h, hs, rfl, .inl rfl⟩
  links := by
    intro row' h hl
    exact ⟨row', htokens ▸ h, hl, rfl⟩

theorem Shrinks.noLink {a a' : Account} (h : Shrinks a a') (hl : a.noLink) : a'.noLink := by
  intro row' hrow' hout
  obtain ⟨row, hrow, hout, -⟩ := h.links row' hrow' hout
  exact hl row hrow hout

theorem shrinks_revokeWhere (a : Account) (p : Session → Bool) (now : Time) :
    Shrinks a (a.revokeWhere p now) where
  next_le := le_rfl
  sessions := by
    intro row' h hs
    simp only [Account.revokeWhere, List.mem_map] at h
    obtain ⟨row, hrow, rfl⟩ := h
    split at hs
    · simp [Session.standing] at hs
    · next hp =>
      rw [if_neg hp]
      exact ⟨row, hrow, hs, rfl, .inl rfl⟩
  links := (Shrinks.refl a).links

/-- After a revocation only sessions that it spared stand. -/
theorem standing_revokeWhere {a : Account} {p : Session → Bool} {now : Time} {row' : Session}
    (h : row' ∈ (a.revokeWhere p now).sessions) (hs : row'.standing) :
    row' ∈ a.sessions ∧ p row' = false := by
  simp only [Account.revokeWhere, List.mem_map] at h
  obtain ⟨row, hrow, rfl⟩ := h
  split at hs
  · simp [Session.standing] at hs
  · next hp =>
    rw [if_neg hp]
    have hnone : row.revokedAt = none := hs
    exact ⟨hrow, by simpa [hnone] using hp⟩

theorem evicted_revokeWhere (a : Account) (now : Time) :
    (a.revokeWhere (fun _ => true) now).evicted none := by
  intro row h hs
  simpa using (standing_revokeWhere h hs).2

theorem shrinks_spendWhere (a : Account) (p : AuthToken → Bool) (now : Time) :
    Shrinks a (a.spendWhere p now) where
  next_le := le_rfl
  sessions := (Shrinks.refl a).sessions
  links := by
    intro row' h hl
    simp only [Account.spendWhere, List.mem_map] at h
    obtain ⟨row, hrow, rfl⟩ := h
    split at hl
    · simp [AuthToken.outstanding] at hl
    · next hp =>
      rw [if_neg hp]
      exact ⟨row, hrow, hl, rfl⟩

/-- After the links of a kind are spent, the outstanding ones are of another. -/
theorem outstanding_spendWhere {a : Account} {p : AuthToken → Bool} {now : Time} {row' : AuthToken}
    (h : row' ∈ (a.spendWhere p now).tokens) (hl : row'.outstanding) : p row' = false := by
  simp only [Account.spendWhere, List.mem_map] at h
  obtain ⟨row, hrow, rfl⟩ := h
  split at hl
  · simp [AuthToken.outstanding] at hl
  · next hp =>
    rw [if_neg hp]
    simpa [hl.2] using hp

theorem noLink_spendLinks (a : Account) (now : Time) : (a.spendLinks now).noLink := by
  intro row h hl
  have hp := outstanding_spendWhere h hl
  simp [hl.1] at hp

/-! ## Rotation -/

/-- What a rotation does: the other sessions end, the presented token dies with the
change, and only the holder of the live row that has it gets through. -/
structure Rotates (a a' : Account) (resolved : Resolved) : Prop where
  shrinks : Shrinks a a'
  evicted : a'.evicted (some resolved.session.id)
  presented : ∃ row ∈ a.sessions, row.standing ∧ row.tokenHash = resolved.session.tokenHash
  fresh : ∀ row' ∈ a'.sessions, row'.standing →
    row'.tokenHash ≠ resolved.session.tokenHash ∨ a.next ≤ row'.tokenHash

theorem rotateAndRevokeOthers_ok {a a' : Account} {resolved : Resolved} {spend : Bool} {now : Time}
    (h : a.rotateAndRevokeOthers resolved spend now = .ok a') :
    Rotates a a' resolved ∧ SameUser a a' ∧ a'.factorId = a.factorId ∧
      (spend = true → a'.noLink) := by
  simp only [Account.rotateAndRevokeOthers, bind_eq_ok, require_eq_ok, pure_eq_ok] at h
  obtain ⟨-, hmatched, rfl⟩ := h
  set b := if spend then a.spendLinks now else a with hb
  have hab : Shrinks a b := by
    rw [hb]
    split
    · exact shrinks_spendWhere a _ now
    · exact Shrinks.refl a
  have hbnext : b.next = a.next := by rw [hb]; split <;> rfl
  have hbsessions : b.sessions = a.sessions := by rw [hb]; split <;> rfl
  have hbuser : b.user = a.user := by rw [hb]; split <;> rfl
  have hbfactor : b.factor = a.factor := by rw [hb]; split <;> rfl
  set r := b.revokeWhere (·.id != resolved.session.id) now with hr
  have hbr : Shrinks b r := shrinks_revokeWhere b _ now
  have hrnext : r.next = a.next := hbnext
  refine ⟨⟨(hab.trans hbr).trans ⟨?_, ?_, (Shrinks.refl r).links⟩, ?_, ?_, ?_⟩, ?_, ?_, ?_⟩
  · exact Nat.le_succ r.next
  · intro row' h hs
    simp only [List.mem_map] at h
    obtain ⟨row, hrow, rfl⟩ := h
    split at hs
    · next hm =>
      rw [if_pos hm]
      exact ⟨row, hrow, hs, rfl, .inr ⟨le_rfl, Nat.lt_succ_self _⟩⟩
    · next hm =>
      rw [if_neg hm]
      exact ⟨row, hrow, hs, rfl, .inl rfl⟩
  · intro row' h hs
    simp only [List.mem_map] at h
    obtain ⟨row, hrow, rfl⟩ := h
    have hid : row.standing → row.id = resolved.session.id := by
      intro hs
      simpa using (standing_revokeWhere hrow hs).2
    split at hs
    · next hm => rw [if_pos hm]; exact congrArg some (hid hs).symm
    · next hm => rw [if_neg hm]; exact congrArg some (hid hs).symm
  · obtain ⟨row, hrow, hm⟩ := List.any_eq_true.mp hmatched
    simp only [Bool.and_eq_true, beq_iff_eq, Option.isNone_iff_eq_none] at hm
    have hmem := (standing_revokeWhere hrow hm.2).1
    exact ⟨row, hbsessions ▸ hmem, hm.2, hm.1.2⟩
  · intro row' h hs
    simp only [List.mem_map] at h
    obtain ⟨row, hrow, rfl⟩ := h
    split at hs
    · next hm =>
      rw [if_pos hm]
      exact .inr (le_of_eq hrnext.symm)
    · next hm =>
      rw [if_neg hm]
      have hid : row.id = resolved.session.id := by
        simpa using (standing_revokeWhere hrow hs).2
      have hnone : row.revokedAt = none := hs
      left
      simpa [hid, hnone] using hm
  · exact ⟨congrArg User.role hbuser, congrArg User.state hbuser⟩
  · exact congrArg (Option.map AuthFactor.id) hbfactor
  · intro hspend
    have hnone : b.noLink := by
      rw [hb, if_pos hspend]
      exact noLink_spendLinks a now
    exact hnone

theorem Rotates.after {a b c : Account} {resolved : Resolved} (hab : Shrinks a b)
    (hsessions : b.sessions = a.sessions) (h : Rotates b c resolved) : Rotates a c resolved where
  shrinks := hab.trans h.shrinks
  evicted := h.evicted
  presented := hsessions ▸ h.presented
  fresh := by
    intro row' hrow hs
    exact (h.fresh row' hrow hs).imp_right (Nat.le_trans hab.next_le)

/-! ## The changes -/

/-- What an administrator's change, a reset or a deletion leaves: nobody stands. -/
structure Empties (a a' : Account) : Prop where
  shrinks : Shrinks a a'
  evicted : a'.evicted none
  factor : a'.factorId = a.factorId

theorem empties_of {a b : Account} (h : Shrinks a b) (hfactor : b.factorId = a.factorId)
    (now : Time) : Empties a (b.revokeWhere (fun _ => true) now) where
  shrinks := h.trans (shrinks_revokeWhere b _ now)
  evicted := evicted_revokeWhere b now
  factor := hfactor

theorem changeRole_ok {a a' : Account} {change : RoleChange} {now : Time}
    (h : a.changeRole change now = .ok a') :
    Empties a a' ∧ a'.noLink ∧ a'.user.state = a.user.state := by
  have hend :
      ((({ a with user := { a.user with role := change.role } } : Account).spendLinks
        now).revokeWhere (fun _ => true) now) = a' := by
    simp only [Account.changeRole, bind_eq_ok, require_eq_ok] at h
    obtain ⟨-, -, h⟩ := h
    split at h <;> simp only [bind_eq_ok, require_eq_ok, pure_eq_ok] at h
    · obtain ⟨-, -, -, -, hend⟩ := h
      exact hend
    · obtain ⟨-, -, hend⟩ := h
      exact hend
  subst hend
  set b : Account := { a with user := { a.user with role := change.role } }
  have hab : Shrinks a b := Shrinks.of_eq le_rfl rfl rfl
  have hspent : Shrinks a (b.spendLinks now) := hab.trans (shrinks_spendWhere b _ now)
  refine ⟨empties_of hspent rfl now, ?_, rfl⟩
  exact (shrinks_revokeWhere _ _ now).noLink (noLink_spendLinks b now)

theorem changeState_ok {a a' : Account} {change : StateChange} {now : Time}
    (h : a.changeState change now = .ok (some a')) :
    Shrinks a a' ∧ a'.factorId = a.factorId ∧ a'.user.role = a.user.role ∧
      a.user.state ≠ change.state ∧
      (change.state ≠ .active → Empties a a' ∧ a'.noLink) := by
  simp only [Account.changeState, bind_eq_ok, require_eq_ok] at h
  obtain ⟨-, -, h⟩ := h
  split at h
  · simp at h
  · next hne =>
    simp only [bind_eq_ok, require_eq_ok] at h
    obtain ⟨-, -, -, -, h⟩ := h
    set b : Account := { a with user := { a.user with state := change.state } }
    have hab : Shrinks a b := Shrinks.of_eq le_rfl rfl rfl
    split at h
    · next hactive =>
      simp only [pure_eq_ok, Option.some.injEq] at h
      subst h
      have hspent : Shrinks a (b.spendLinks now) := hab.trans (shrinks_spendWhere b _ now)
      have hempty := empties_of hspent rfl now
      refine ⟨hempty.shrinks, hempty.factor, rfl, hne, fun _ => ⟨hempty, ?_⟩⟩
      exact (shrinks_revokeWhere _ _ now).noLink (noLink_spendLinks b now)
    · next hactive =>
      simp only [pure_eq_ok, Option.some.injEq] at h
      subst h
      exact ⟨hab, rfl, rfl, hne, fun hstate => absurd hstate hactive⟩

theorem request_ok {a a' : Account} {now : Time} (h : a.request now = some a') :
    Empties a a' ∧ a'.noLink ∧ a'.user.role = a.user.role := by
  unfold Account.request at h
  split at h
  · simp only [Option.some.injEq] at h
    subst h
    set b : Account :=
      { a with
        user :=
          { a.user with
            priorState := some a.user.state, state := .deletionPending
            deletionRequestedAt := some now } }
    have hab : Shrinks a b := Shrinks.of_eq le_rfl rfl rfl
    have hspent : Shrinks a (b.spendWhere (fun _ => true) now) :=
      hab.trans (shrinks_spendWhere b _ now)
    refine ⟨empties_of hspent rfl now, ?_, rfl⟩
    apply (shrinks_revokeWhere _ _ now).noLink
    intro row hrow hl
    simpa using outstanding_spendWhere hrow hl
  · simp at h

theorem restore_ok {a a' : Account} {now : Time} (h : a.restore now = .ok (some a')) :
    Shrinks a a' ∧ a'.factorId = a.factorId ∧ a.user.state = .deletionPending := by
  simp only [Account.restore, bind_eq_ok, require_eq_ok] at h
  obtain ⟨-, -, -, -, h⟩ := h
  split at h
  · simp at h
  · next hstate =>
    simp only [pure_eq_ok, Option.some.injEq] at h
    subst h
    exact ⟨Shrinks.of_eq le_rfl rfl rfl, rfl, by simpa using hstate⟩

theorem claimPurge_ok {a a' : Account} {now : Time} (h : a.claimPurge now = some a') :
    Shrinks a a' ∧ a'.factorId = a.factorId ∧ a.user.state ≠ .active := by
  unfold Account.claimPurge at h
  split at h
  · next hcond =>
    simp only [Option.some.injEq] at h
    subst h
    refine ⟨Shrinks.of_eq le_rfl rfl rfl, rfl, ?_⟩
    rcases hcond.1 with hstate | hstate <;> simp [hstate]
  · simp at h

theorem complete_ok {env : Env} {a a' : Account} {token : Nat} {password : String} {now : Time}
    (h : a.complete env token password now = .ok a') :
    Empties a a' ∧ SameUser a a' ∧
      ∃ row ∈ a.tokens, row.outstanding ∧ row.tokenHash = token := by
  simp only [Account.complete, bind_eq_ok, require_eq_ok, demand_eq_ok, pure_eq_ok] at h
  obtain ⟨-, hopens, hash, -, rfl⟩ := h
  obtain ⟨row, hrow, ho⟩ := List.any_eq_true.mp hopens
  simp only [AuthToken.opens, Bool.and_eq_true, beq_iff_eq, Option.isNone_iff_eq_none,
    decide_eq_true_eq] at ho
  set b := a.spendWhere (·.opens token now) now
  have hab : Shrinks a b := shrinks_spendWhere a _ now
  refine ⟨?_, ?_, row, hrow, ⟨ho.1.1.2, ho.1.2⟩, ho.1.1.1⟩
  · apply empties_of _ _ now
    · split
      · exact hab.trans (Shrinks.of_eq le_rfl rfl rfl)
      · exact hab.trans (Shrinks.of_eq (Nat.le_succ _) rfl rfl)
    · split <;> rfl
  · split <;> exact ⟨rfl, rfl⟩

/-- What a credential route writes before the rotation: identities and the address. -/
theorem writeCredential_ok {env : Env} {a b : Account} {call : CredentialCall}
    (h : a.writeCredential env call = .ok (some b)) :
    a.next ≤ b.next ∧ b.sessions = a.sessions ∧ b.tokens = a.tokens ∧ b.factor = a.factor ∧
      SameUser a b := by
  cases call with
  | password password current taken =>
    simp only [Account.writeCredential, bind_eq_ok, pure_eq_ok, Option.some.injEq, exists_eq_right,
      Account.changePassword, require_eq_ok, demand_eq_ok] at h
    obtain ⟨-, -, hash, -, h⟩ := h
    split at h
    · simp only [bind_eq_ok, require_eq_ok, pure_eq_ok] at h
      obtain ⟨-, -, rfl⟩ := h
      exact ⟨Nat.le_succ _, rfl, rfl, rfl, rfl, rfl⟩
    · simp only [pure_eq_ok] at h
      subst h
      exact ⟨le_rfl, rfl, rfl, rfl, rfl, rfl⟩
  | email address taken =>
    simp only [Account.writeCredential, Account.changeEmail] at h
    split at h
    · simp at h
    · simp only [bind_eq_ok, require_eq_ok, pure_eq_ok, Option.some.injEq] at h
      obtain ⟨-, -, rfl⟩ := h
      exact ⟨le_rfl, rfl, rfl, rfl, rfl, rfl⟩
  | unlink provider =>
    simp only [Account.writeCredential, bind_eq_ok, pure_eq_ok, Option.some.injEq, exists_eq_right,
      Account.unlinkIdentity, require_eq_ok, demand_eq_ok] at h
    obtain ⟨-, -, linked, -, -, -, rfl⟩ := h
    exact ⟨le_rfl, rfl, rfl, rfl, rfl, rfl⟩
  | link provider subject email taken =>
    simp only [Account.writeCredential, bind_eq_ok, pure_eq_ok, Option.some.injEq, exists_eq_right,
      Account.link, require_eq_ok] at h
    obtain ⟨-, -, h⟩ := h
    split at h <;> simp only [pure_eq_ok] at h <;> subst h
    · exact ⟨Nat.le_succ _, rfl, rfl, rfl, rfl, rfl⟩
    · exact ⟨Nat.le_succ _, rfl, rfl, rfl, rfl, rfl⟩

theorem changeCredential_ok {env : Env} {a a' : Account} {principal : Resolved}
    {call : CredentialCall} {now : Time}
    (h : a.changeCredential env principal call now = .ok (some a')) :
    Rotates a a' principal ∧ SameUser a a' ∧ a'.factorId = a.factorId ∧ a'.noLink := by
  simp only [Account.changeCredential] at h
  rw [bind_eq_ok] at h
  obtain ⟨changed, hchanged, h⟩ := h
  cases changed with
  | none => simp at h
  | some b =>
    obtain ⟨hnext, hsessions, htokens, hfactor, hrole, hstate⟩ := writeCredential_ok hchanged
    simp only [bind_eq_ok, pure_eq_ok, Option.some.injEq, exists_eq_right] at h
    obtain ⟨hrotates, hsame, hfactor', hlink⟩ := rotateAndRevokeOthers_ok h
    have hab : Shrinks a b := Shrinks.of_eq hnext hsessions htokens
    refine ⟨hrotates.after hab hsessions, ⟨hsame.1.trans hrole, hsame.2.trans hstate⟩, ?_,
      hlink rfl⟩
    rw [hfactor', Account.factorId, hfactor, Account.factorId]

/-! ## The factor -/

/-- What spending a proof touches: recovery codes and the factor's last step. -/
theorem spend_ok {a a' : Account} {factor : Nat} {proof : Proof} {now : Time}
    (h : a.spend factor proof now = .ok a') :
    a'.next = a.next ∧ a'.sessions = a.sessions ∧ a'.tokens = a.tokens ∧
      a'.factorId = a.factorId ∧ SameUser a a' := by
  cases proof with
  | recoveryCode id =>
    simp only [Account.spend, bind_eq_ok, require_eq_ok, pure_eq_ok] at h
    obtain ⟨-, -, rfl⟩ := h
    exact ⟨rfl, rfl, rfl, rfl, rfl, rfl⟩
  | step n =>
    simp only [Account.spend, bind_eq_ok, require_eq_ok, demand_eq_ok, pure_eq_ok] at h
    obtain ⟨row, hrow, -, -, rfl⟩ := h
    exact ⟨rfl, rfl, rfl, by simp [Account.factorId, hrow], rfl, rfl⟩

theorem takeFactor_ok {a a' : Account} {factor : AuthFactor} {proof : Proof} {now : Time}
    (h : a.takeFactor factor proof now = .ok a') :
    a'.next = a.next ∧ a'.sessions = a.sessions ∧ a'.tokens = a.tokens ∧ a'.factor = none ∧
      SameUser a a' := by
  simp only [Account.takeFactor, bind_eq_ok, require_eq_ok, pure_eq_ok] at h
  obtain ⟨b, hspend, -, -, rfl⟩ := h
  obtain ⟨hnext, hsessions, htokens, -, hsame⟩ := spend_ok hspend
  exact ⟨hnext, hsessions, htokens, rfl, hsame⟩

theorem removeFactor_ok {a a' : Account} {principal : Resolved} {factor : AuthFactor}
    {proof : Proof} {now : Time} (h : a.removeFactor principal factor proof now = .ok a') :
    Rotates a a' principal ∧ SameUser a a' ∧ a'.factorId = none := by
  rw [Account.removeFactor, bind_eq_ok] at h
  obtain ⟨b, htake, h⟩ := h
  obtain ⟨hnext, hsessions, htokens, hfactor, hrole, hstate⟩ := takeFactor_ok htake
  obtain ⟨hrotates, hsame, hfactor', -⟩ := rotateAndRevokeOthers_ok h
  set c : Account := { b with recoveryCodes := [] }
  have hac : Shrinks a c := Shrinks.of_eq (le_of_eq hnext.symm) hsessions htokens
  refine ⟨hrotates.after hac hsessions, ⟨hsame.1.trans hrole, hsame.2.trans hstate⟩, ?_⟩
  rw [hfactor']
  simp [Account.factorId, c, hfactor]

theorem confirmEnrolment_ok {env : Env} {a a' : Account} {principal : Resolved}
    {replacing : Option (AuthFactor × Proof)} {secret : String} {codes : List String} {step : Nat}
    {now : Time}
    (h : a.confirmEnrolment env principal replacing secret codes step now = .ok a') :
    Rotates a a' principal ∧ SameUser a a' ∧ a'.factorId = some a.next ∧ a.next < a'.next := by
  simp only [Account.confirmEnrolment] at h
  rw [bind_eq_ok] at h
  obtain ⟨b, htake, h⟩ := h
  have hb : b.next = a.next ∧ b.sessions = a.sessions ∧ b.tokens = a.tokens ∧ SameUser a b := by
    cases replacing with
    | none =>
      simp only [Account.takeReplaced, pure_eq_ok] at htake
      subst htake
      exact ⟨rfl, rfl, rfl, rfl, rfl⟩
    | some fp =>
      obtain ⟨hnext, hsessions, htokens, -, hsame⟩ := takeFactor_ok htake
      exact ⟨hnext, hsessions, htokens, hsame⟩
  obtain ⟨hnext, hsessions, htokens, hrole, hstate⟩ := hb
  simp only [bind_eq_ok, require_eq_ok] at h
  obtain ⟨-, -, h⟩ := h
  obtain ⟨hrotates, hsame, hfactor', -⟩ := rotateAndRevokeOthers_ok h
  have hle := hrotates.shrinks.next_le
  have hlt : a.next < b.next + 1 + codes.length := by omega
  refine ⟨Rotates.after (Shrinks.of_eq (le_of_lt hlt) ?_ ?_) ?_ hrotates,
    ⟨hsame.1.trans hrole, hsame.2.trans hstate⟩, ?_, lt_of_lt_of_le hlt hle⟩
  · exact hsessions
  · exact htokens
  · exact hsessions
  rw [hfactor', ← hnext]
  rfl

theorem spendReplacementAttempt_ok {a a' : Account} {factor : Nat}
    (h : a.spendReplacementAttempt factor = some a') :
    Shrinks a a' ∧ SameUser a a' ∧ a'.factorId = a.factorId := by
  unfold Account.spendReplacementAttempt at h
  split at h
  · next row hrow =>
    split at h
    · simp only [Option.some.injEq] at h
      subst h
      exact ⟨Shrinks.of_eq le_rfl rfl rfl, ⟨rfl, rfl⟩, by simp [Account.factorId, hrow]⟩
    · simp at h
  · simp at h

/-! ## Signing in -/

theorem claimAttempt_ok {a a' : Account} {token challenge : Nat} {now : Time}
    (h : a.claimAttempt token now = some (challenge, a')) :
    Shrinks a a' ∧ SameUser a a' ∧ a'.factorId = a.factorId := by
  unfold Account.claimAttempt at h
  obtain ⟨row, -, hrow⟩ := Option.map_eq_some_iff.mp h
  simp only [Prod.mk.injEq] at hrow
  obtain ⟨-, rfl⟩ := hrow
  refine ⟨⟨le_rfl, (Shrinks.refl a).sessions, ?_⟩, ⟨rfl, rfl⟩, rfl⟩
  intro row' hrow' hl
  simp only [List.mem_map] at hrow'
  obtain ⟨row, hrow, rfl⟩ := hrow'
  split at hl
  · next ht =>
    rw [if_pos ht]
    exact ⟨row, hrow, hl, rfl⟩
  · next ht =>
    rw [if_neg ht]
    exact ⟨row, hrow, hl, rfl⟩

theorem winChallenge_ok {a a' : Account} {challenge factor : Nat} {proof : Proof} {now : Time}
    (h : a.winChallenge challenge factor proof now = .ok a') :
    Shrinks a a' ∧ SameUser a a' ∧ a'.factorId = a.factorId := by
  simp only [Account.winChallenge, bind_eq_ok, require_eq_ok, pure_eq_ok] at h
  obtain ⟨-, -, b, hspend, rfl⟩ := h
  obtain ⟨hnext, hsessions, htokens, hfactor, hsame⟩ := spend_ok hspend
  set c := a.spendWhere (·.id == challenge) now
  have hac : Shrinks a c := shrinks_spendWhere a _ now
  refine ⟨hac.trans (Shrinks.of_eq (le_of_eq hnext.symm) hsessions htokens), hsame, ?_⟩
  have hid : (b.factor.map fun row =>
      if row.id = factor then { row with replaceAttempts := 0 } else row).map (·.id) =
      b.factorId := by
    rw [Account.factorId, Option.map_map]
    congr 1
    funext row
    simp only [Function.comp_apply]
    split <;> rfl
  exact hid.trans hfactor

theorem beginChallenge_ok (a : Account) (now : Time) :
    Shrinks a (a.beginChallenge now).2 ∧ SameUser a (a.beginChallenge now).2 ∧
      (a.beginChallenge now).2.factorId = a.factorId := by
  refine ⟨?_, ⟨rfl, rfl⟩, rfl⟩
  refine (shrinks_spendWhere a _ now).trans
    ⟨Nat.le_add_right _ _, fun row' h hs => ⟨row', h, hs, rfl, .inl rfl⟩, ?_⟩
  intro row' hrow' hl
  rcases List.mem_append.mp hrow' with hold | hnew
  · exact ⟨row', hold, hl, rfl⟩
  · -- the new row is a challenge, which opens no reset
    rw [List.mem_singleton] at hnew
    simp [hnew, AuthToken.outstanding, Purpose.opensReset] at hl

theorem activeAccount_some {env : Env} {a : Account} {email : String} {user : User}
    (h : a.activeAccount env email = some user) : user = a.user ∧ a.user.state = .active := by
  unfold Account.activeAccount at h
  split at h
  · next hcond =>
    simp only [Option.some.injEq] at h
    exact ⟨h.symm, hcond.2⟩
  · simp at h

end Potocolom.Accounts
