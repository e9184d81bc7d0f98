import Potocolom.Accounts.Types

/-! # The transactions that change an account

`roles.py`, `states.py`, `deletion.py`, `credentials.py`, `oauth.py` (`_link`), the
factor routes of `factors.py` and the completion of a reset (`recovery.py`). Each
runs under the account key, so it is one function on the account. Where the source
answers without having changed anything the result is `none`. -/

namespace Potocolom.Accounts

open Guard

variable (env : Env)

/-! ## What an administrator changes -/

/-- The body of `change_role`, and what it learns from outside the account. -/
structure RoleChange where
  role : Role
  attested : Bool
  /-- `user_id == actor.id`. -/
  ownAccount : Bool
  /-- `sessions.is_recent(principal.session)`. -/
  actorRecent : Bool
  /-- `_remaining_administrators` is not zero. -/
  othersRemain : Bool
deriving DecidableEq, Repr

/-- `roles.change_role`. -/
def Account.changeRole (a : Account) (change : RoleChange) (now : Time) :
    Except Refusal Account := do
  require (change.ownAccount = false) ⟨403, "an administrator cannot change their own role"⟩
  if change.role = .admin then
    require (change.actorRecent = true) ⟨403, "recent authentication required"⟩
    require (a.user.mailVerified = true ∨ change.attested = true)
      ⟨409, "this address is unverified; attest to promote it"⟩
  else
    require (a.user.role = .admin → change.othersRemain = true)
      ⟨403, "the last administrator cannot be demoted"⟩
  let a := { a with user := { a.user with role := change.role } }
  pure ((a.spendLinks now).revokeWhere (fun _ => true) now)

/-- The body of `change_state`; its type has no `purging`. -/
structure StateChange where
  state : AccountState
  offered : state ≠ .purging
  /-- `user_id == actor.id`. -/
  ownAccount : Bool
  /-- `_remaining_administrators` is not zero. -/
  othersRemain : Bool
deriving DecidableEq

/-- `states.change_state`; `none` where the account already holds the state. -/
def Account.changeState (a : Account) (change : StateChange) (now : Time) :
    Except Refusal (Option Account) := do
  require (change.ownAccount = false) ⟨403, "an administrator cannot change their own state"⟩
  if a.user.state = change.state then
    pure none
  else
    require (change.state ∈ a.user.state.transitions)
      ⟨409, "an account cannot go from " ++ a.user.state.text ++ " to " ++ change.state.text⟩
    require (change.state ≠ .active → a.user.role = .admin → change.othersRemain = true)
      ⟨403, "the last administrator cannot be suspended"⟩
    let a := { a with user := { a.user with state := change.state } }
    -- Only taking capability away spends the links and ends the sessions.
    if change.state ≠ .active then
      pure (some ((a.spendLinks now).revokeWhere (fun _ => true) now))
    else
      pure (some a)

/-! ## Leaving and coming back -/

/-- `deletion.request`; `none` where the account is already leaving. -/
def Account.request (a : Account) (now : Time) : Option Account :=
  if a.user.state ≠ .deletionPending ∧ a.user.state ≠ .purging then
    let user :=
      { a.user with
        priorState := some a.user.state, state := .deletionPending
        deletionRequestedAt := some now }
    some (({ a with user := user }.spendWhere (fun _ => true) now).revokeWhere (fun _ => true) now)
  else none

/-- `deletion.restore`; `none` where it was restored already. -/
def Account.restore (a : Account) (now : Time) : Except Refusal (Option Account) := do
  require (a.user.state = .deletionPending →
      ∀ asked ∈ a.user.deletionRequestedAt, now ≤ asked + restoreWindow)
    ⟨409, "that account passed its 30 day restore window"⟩
  require (a.user.state ≠ .purging) ⟨409, "that account is already being deleted"⟩
  if a.user.state ≠ .deletionPending then
    require (a.user.deletionRequestedAt.isSome) ⟨409, "that account is not waiting to be deleted"⟩
    pure none
  else
    let user := { a.user with state := a.user.priorState.getD .active, priorState := none }
    pure (some { a with user := user })

/-- `deletion._purge`: the claim of an account whose window has run out. -/
def Account.claimPurge (a : Account) (now : Time) : Option Account :=
  if (a.user.state = .deletionPending ∨ a.user.state = .purging) ∧
      a.user.deletionRequestedAt.any (fun asked => decide (asked + restoreWindow < now)) then
    some { a with user := { a.user with state := .purging } }
  else none

/-! ## What its holder changes -/

/-- A credential route with its arguments, and what its transaction finds outside
the account: whether somebody else holds the address or the provider's subject. -/
inductive CredentialCall where
  /-- `change_password`. -/
  | password (password : String) (current : Option String) (taken : Bool)
  /-- `change_email`, after `_checked_email`. -/
  | email (address : String) (taken : Bool)
  /-- `unlink_identity`. -/
  | unlink (provider : Provider)
  /-- `_link`. -/
  | link (provider : Provider) (subject email : String) (taken : Bool)
deriving DecidableEq, Repr

/-- Add an identity row. -/
def Account.addIdentity (a : Account) (provider : Provider) (subject : String)
    (passwordHash : Option String) : Account :=
  { a with
    identities := a.identities ++ [⟨a.next, provider, subject, passwordHash⟩], next := a.next + 1 }

/-- Give the password identity a new hash. -/
def Account.setPasswordHash (a : Account) (hash : String) : Account :=
  { a with
    identities := a.identities.map fun row =>
      if row.provider = .password then { row with passwordHash := some hash } else row }

/-- `credentials.change_password`, before the rotation. -/
def Account.changePassword (a : Account) (password : String) (current : Option String)
    (taken : Bool) : Except Refusal Account := do
  require (∀ existing ∈ a.passwordIdentity,
      current.any (env.verifyPassword (existing.passwordHash.getD "") ·) = true)
    ⟨403, "the current password is required"⟩
  let hash ← demand (env.hashPassword password) ⟨400, "password does not meet the policy"⟩
  match a.passwordIdentity with
  | none =>
    require (taken = false) ⟨409, "this account already has a password"⟩
    pure (a.addIdentity .password (env.stripLower a.user.email) (some hash))
  | some _ => pure (a.setPasswordHash hash)

/-- `credentials.change_email`, before the rotation; `none` where the address is the
one the account holds. -/
def Account.changeEmail (a : Account) (address : String) (taken : Bool) :
    Except Refusal (Option Account) := do
  if env.stripLower address = env.stripLower a.user.email then
    pure none
  else
    require (taken = false) ⟨409, "that address is already in use"⟩
    let identities := a.identities.map fun row =>
      if row.provider = .password then { row with subject := env.stripLower address } else row
    pure (some
      { a with
        user := { a.user with email := address, mailVerified := false }
        identities := identities })

/-- `credentials.unlink_identity`, before the rotation. -/
def Account.unlinkIdentity (a : Account) (provider : Provider) : Except Refusal Account := do
  require (provider ≠ .password) ⟨404, "Not Found"⟩
  let linked ← demand (a.identities.find? (·.provider == provider)) ⟨404, "Not Found"⟩
  require (a.identities.length ≠ 1) ⟨409, "that is the only way in"⟩
  pure { a with identities := a.identities.filter (·.id != linked.id) }

/-- `oauth._link`, before the rotation. -/
def Account.link (a : Account) (provider : Provider) (subject email : String) (taken : Bool) :
    Except Refusal Account := do
  require (taken = false ∧
      (a.identities.any fun row => row.provider == provider && row.subject == subject) = false)
    ⟨409, "that provider account is already linked to an account"⟩
  let a := a.addIdentity provider subject none
  if env.lowerBtrim a.user.email = env.stripLower email then
    pure { a with user := { a.user with mailVerified := true } }
  else
    pure a

/-- What a credential route writes before it rotates. -/
def Account.writeCredential (a : Account) : CredentialCall → Except Refusal (Option Account)
  | .password password current taken => do
    pure (some (← a.changePassword env password current taken))
  | .email address taken => a.changeEmail env address taken
  | .unlink provider => do pure (some (← a.unlinkIdentity provider))
  | .link provider subject email taken => do
    pure (some (← a.link env provider subject email taken))

/-- The transaction of a credential route. -/
def Account.changeCredential (a : Account) (principal : Resolved) (call : CredentialCall)
    (now : Time) : Except Refusal (Option Account) := do
  match ← a.writeCredential env call with
  | none => pure none
  | some a => do pure (some (← a.rotateAndRevokeOthers principal true now))

/-! ## The second factor -/

/-- `Proof`: what a presented code turned out to be. -/
inductive Proof where
  | recoveryCode (id : Nat)
  | step (step : Nat)
deriving DecidableEq, Repr

/-- `factors.REFUSED`. -/
def refused : Refusal := ⟨403, "that code is not valid"⟩

/-- `_recovery_proof`. -/
def Account.recoveryProof (a : Account) (code : String) : Option Proof :=
  (a.recoveryCodes.find? fun row =>
    row.codeHash == env.codeHash code && row.consumedAt.isNone).map (.recoveryCode ·.id)

/-- `_totp_proof`. -/
def totpProof (code : String) (factor : AuthFactor) (now : Time) : Option Proof :=
  (env.matchedStep factor.secret code now).map .step

/-- `_spend`: consume the proof, if nobody has. -/
def Account.spend (a : Account) (factor : Nat) (proof : Proof) (now : Time) :
    Except Refusal Account :=
  match proof with
  | .recoveryCode id => do
    require (a.recoveryCodes.any fun row => row.id == id && row.consumedAt.isNone) refused
    pure
      { a with
        recoveryCodes := a.recoveryCodes.map fun row =>
          if row.id = id ∧ row.consumedAt = none then { row with consumedAt := some now }
          else row }
  | .step step => do
    let row ← demand a.factor refused
    require (row.id = factor ∧ ∀ last ∈ row.lastStep, last < step) refused
    pure { a with factor := some { row with lastStep := some step } }

/-- `_spend_replacement_attempt`; `none` once the budget is gone. -/
def Account.spendReplacementAttempt (a : Account) (factor : Nat) : Option Account :=
  match a.factor with
  | some row =>
    if row.id = factor ∧ row.replaceAttempts < maxAttempts then
      some { a with factor := some { row with replaceAttempts := row.replaceAttempts + 1 } }
    else none
  | none => none

/-- Take the factor that was proved off the account, with its proof. -/
def Account.takeFactor (a : Account) (factor : AuthFactor) (proof : Proof) (now : Time) :
    Except Refusal Account := do
  let a ← a.spend factor.id proof now
  require (a.factor.any (·.id == factor.id)) refused
  pure { a with factor := none }

/-- `factors.remove_factor`, its last transaction. -/
def Account.removeFactor (a : Account) (principal : Resolved) (factor : AuthFactor) (proof : Proof)
    (now : Time) : Except Refusal Account := do
  let a ← a.takeFactor factor proof now
  { a with recoveryCodes := [] }.rotateAndRevokeOthers principal false now

/-- The factor a replacement takes off; a first enrolment takes none. -/
def Account.takeReplaced (a : Account) (replacing : Option (AuthFactor × Proof)) (now : Time) :
    Except Refusal Account :=
  match replacing with
  | some (factor, proof) => a.takeFactor factor proof now
  | none => pure a

/-- `factors.confirm_enrolment`, its last transaction. A first enrolment takes
nothing off, so a factor that came in between refuses it. -/
def Account.confirmEnrolment (a : Account) (principal : Resolved)
    (replacing : Option (AuthFactor × Proof)) (secret : String) (codes : List String) (step : Nat)
    (now : Time) : Except Refusal Account := do
  let a ← a.takeReplaced replacing now
  require (a.factor.isNone) ⟨409, "a second factor was enrolled already"⟩
  let a :=
    { a with
      factor := some ⟨a.next, secret, some step, 0⟩
      recoveryCodes := codes.mapIdx fun i code => ⟨a.next + 1 + i, env.codeHash code, none⟩
      next := a.next + 1 + codes.length }
  a.rotateAndRevokeOthers principal false now

/-! ## Links -/

/-- A link that `complete` would accept. -/
def AuthToken.opens (row : AuthToken) (token : Nat) (now : Time) : Bool :=
  row.tokenHash == token && row.purpose.opensReset && row.consumedAt.isNone &&
    decide (now < row.expiresAt)

/-- `INVALID_LINK`. -/
def invalidLink : Refusal := ⟨403, "invalid or expired reset link"⟩

/-- `recovery.complete`, from the account key on. -/
def Account.complete (a : Account) (token : Nat) (password : String) (now : Time) :
    Except Refusal Account := do
  require (a.tokens.any (·.opens token now)) invalidLink
  let a := a.spendWhere (·.opens token now) now
  let hash ← demand (env.hashPassword password) ⟨400, "password does not meet the policy"⟩
  let a := match a.passwordIdentity with
    | some _ => a.setPasswordHash hash
    | none => a.addIdentity .password (env.stripLower a.user.email) (some hash)
  pure (a.revokeWhere (fun _ => true) now)

/-! ## Signing in -/

/-- `mint_behind_the_gate`: a session, if the account's factor is still the one the
request got past. -/
def Account.mintBehindTheGate (a : Account) (user : User) (rememberMe : Bool)
    (expected : Option Nat) (now : Time) : Option (Session × Account) :=
  if a.enrolledFactor.map (·.id) = expected then some (a.mintIn user rememberMe now) else none

/-- `begin_challenge`: a new challenge that carries on the budget of the outstanding
ones, and its token. -/
def Account.beginChallenge (a : Account) (now : Time) : Nat × Account :=
  let outstanding (row : AuthToken) : Bool :=
    row.purpose == .challenge && row.consumedAt.isNone && decide (now < row.expiresAt)
  let spent := ((a.tokens.filter outstanding).map (·.attempts)).sum
  let a := a.spendWhere outstanding now
  (a.next + 1,
    { a with
      tokens := a.tokens ++ [⟨a.next, .challenge, a.next + 1, spent, now + challengeTtl, none⟩]
      next := a.next + 2 })

/-- A challenge that takes another guess. -/
def AuthToken.takesGuess (row : AuthToken) (token : Nat) (now : Time) : Bool :=
  row.tokenHash == token && row.purpose == .challenge && row.consumedAt.isNone &&
    decide (now < row.expiresAt) && decide (row.attempts < maxAttempts)

/-- The first transaction of `answer_challenge`: count the attempt. -/
def Account.claimAttempt (a : Account) (token : Nat) (now : Time) : Option (Nat × Account) :=
  (a.tokens.find? (·.takesGuess token now)).map fun row =>
    (row.id,
      { a with
        tokens := a.tokens.map fun other =>
          if other.takesGuess token now then { other with attempts := other.attempts + 1 }
          else other })

/-- The transaction of `answer_challenge` that spends the challenge and the proof, and
gives the factor its replacement budget back. -/
def Account.winChallenge (a : Account) (challenge : Nat) (factor : Nat) (proof : Proof) (now : Time) :
    Except Refusal Account := do
  require (a.tokens.any fun row => row.id == challenge && row.consumedAt.isNone) refused
  let a ← (a.spendWhere (·.id == challenge) now).spend factor proof now
  pure
    { a with
      factor := a.factor.map fun row =>
        if row.id = factor then { row with replaceAttempts := 0 } else row }

end Potocolom.Accounts
