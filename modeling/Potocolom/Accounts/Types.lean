import Potocolom.Lib.Guard

/-! # One account: its rows and its keyed transactions

The rows of one account (`tables.py`) and what the transactions on them share:
reading the account, revoking sessions, spending links, rotating the session of
the request (`sessions.py`, `recovery.py`, `account_lock.py`). A transaction that
holds the account key is a function on the account: it commits, or refuses and
changes nothing. Ids and tokens are fresh random values, numbered here in the order
of their creation; a row that keeps the SHA-256 of a token keeps its number. -/

namespace Potocolom.Accounts

open Guard

/-- A `timestamptz`, in seconds. -/
abbrev Time := Nat

/-- `ROLES`. -/
inductive Role where
  | viewer
  | user
  | admin
deriving DecidableEq, Repr

/-- `ACCOUNT_STATES`. -/
inductive AccountState where
  | active
  | suspended
  | disabled
  | deletionPending
  | purging
deriving DecidableEq, Repr

/-- `IDENTITY_PROVIDERS`. -/
inductive Provider where
  | password
  | google
  | github
deriving DecidableEq, Repr

/-- `AUTH_TOKEN_PURPOSES` of an account; a setup link belongs to none. -/
inductive Purpose where
  | reset
  | recovery
  | challenge
deriving DecidableEq, Repr

structure User where
  email : String
  mailVerified : Bool
  role : Role
  state : AccountState
  priorState : Option AccountState
  deletionRequestedAt : Option Time
deriving DecidableEq, Repr

structure AuthIdentity where
  id : Nat
  provider : Provider
  subject : String
  passwordHash : Option String
deriving DecidableEq, Repr

/-- A confirmed factor; `auth_factors` holds no other. -/
structure AuthFactor where
  id : Nat
  secret : String
  lastStep : Option Nat
  replaceAttempts : Nat
deriving DecidableEq, Repr

structure RecoveryCode where
  id : Nat
  codeHash : String
  consumedAt : Option Time
deriving DecidableEq, Repr

structure AuthToken where
  id : Nat
  purpose : Purpose
  tokenHash : Nat
  attempts : Nat
  expiresAt : Time
  consumedAt : Option Time
deriving DecidableEq, Repr

structure Session where
  id : Nat
  tokenHash : Nat
  rememberMe : Bool
  absoluteExpiresAt : Time
  idleExpiresAt : Option Time
  recentAuthAt : Option Time
  revokedAt : Option Time
deriving DecidableEq, Repr

/-- A message `mail.queue` put in the outbox: the address and the link's token. -/
structure Mail where
  address : String
  token : Nat
deriving DecidableEq, Repr

/-- Every row of one account. An account holds at most one factor (the index
`auth_factors_one_per_kind`). -/
structure Account where
  user : User
  identities : List AuthIdentity
  factor : Option AuthFactor
  recoveryCodes : List RecoveryCode
  tokens : List AuthToken
  sessions : List Session
  outbox : List Mail
  /-- The next fresh value. -/
  next : Nat
deriving DecidableEq, Repr

/-- An `HTTPException`, or an exception of the offline commands (status 0). -/
structure Refusal where
  status : Nat
  detail : String
deriving DecidableEq, Repr

/-- What the account code calls and does not define: text normalization in Python
and in PostgreSQL, password hashing, TOTP, and the sealed enrolment. -/
structure Env where
  /-- `.strip().lower()`. -/
  stripLower : String → String
  /-- `lower(btrim(…))`. -/
  lowerBtrim : String → String
  /-- `_checked_email`; `none` when it raises. -/
  checkedEmail : String → Option String
  /-- `hash_password`; `none` when it raises `PasswordRejected`. -/
  hashPassword : String → Option String
  verifyPassword : String → String → Bool
  /-- `_hash(code.strip().lower())`. -/
  codeHash : String → String
  /-- `totp.matched_step` at a moment. -/
  matchedStep : String → String → Time → Option Nat
  /-- `_opened_enrolment`: the secret and the recovery codes, if it opens. -/
  openedEnrolment : String → Time → Option (String × List String)

/-! ## Lifetimes -/

/-- `RESET_TTL`. -/
def resetTtl : Time := 30 * 60
/-- `ADMIN_RECOVERY_TTL`. -/
def adminRecoveryTtl : Time := 10 * 60
/-- `CHALLENGE_TTL`. -/
def challengeTtl : Time := 10 * 60
/-- `MAX_ATTEMPTS`. -/
def maxAttempts : Nat := 10
/-- `ABSOLUTE`. -/
def absolute : Time := 12 * 60 * 60
/-- `REMEMBER_ABSOLUTE`. -/
def rememberAbsolute : Time := 30 * 24 * 60 * 60
/-- `REMEMBER_IDLE`. -/
def rememberIdle : Time := 7 * 24 * 60 * 60
/-- `ADMIN_IDLE`. -/
def adminIdle : Time := 30 * 60
/-- `RECENT_AUTH`. -/
def recentAuth : Time := 30 * 60
/-- `RESTORE_WINDOW_DAYS`. -/
def restoreWindow : Time := 30 * 24 * 60 * 60

/-- `RESET_PURPOSES`. -/
def Purpose.opensReset : Purpose → Bool
  | .reset | .recovery => true
  | .challenge => false

/-- `CANNOT_SIGN_IN`. -/
def AccountState.cannotSignIn : AccountState → Bool
  | .disabled | .deletionPending | .purging => true
  | .active | .suspended => false

/-- `TRANSITIONS`: where an account may go from where it is. -/
def AccountState.transitions : AccountState → List AccountState
  | .active => [.suspended, .disabled, .deletionPending]
  | .suspended => [.active, .disabled, .deletionPending]
  | .disabled => [.active, .deletionPending]
  | .deletionPending | .purging => []

/-- The value's text in the database. -/
def AccountState.text : AccountState → String
  | .active => "active"
  | .suspended => "suspended"
  | .disabled => "disabled"
  | .deletionPending => "deletion_pending"
  | .purging => "purging"

/-! ## Sessions -/

/-- A row that neither a revocation nor a clock has ended (`resolve`, `is_live`). -/
def Session.usable (row : Session) (now : Time) : Prop :=
  row.revokedAt = none ∧ now < row.absoluteExpiresAt ∧ ∀ idle ∈ row.idleExpiresAt, now < idle

instance (row : Session) (now : Time) : Decidable (row.usable now) := by
  unfold Session.usable
  exact instDecidableAnd

/-- What `resolve` hands a request: the session row and the user row as read. -/
structure Resolved where
  session : Session
  user : User
deriving DecidableEq, Repr

/-- `sessions.resolve`; the idle window it slides is written apart (`touch`). -/
def Account.resolve (a : Account) (token : Nat) (now : Time) : Option Resolved :=
  (a.sessions.find? fun row => row.tokenHash == token && decide (row.usable now)).map
    (⟨·, a.user⟩)

/-- `sessions.is_recent`. -/
def Session.isRecent (row : Session) (now : Time) : Bool :=
  row.recentAuthAt.any fun at' => decide (now < at' + recentAuth)

/-- The row that slides the idle window of a session in use. -/
def Session.touch (row : Session) (role : Role) (now : Time) : Session :=
  { row with
    idleExpiresAt := row.idleExpiresAt.map fun _ =>
      now + (if role = .admin then adminIdle else rememberIdle) }

/-- `UPDATE sessions SET revoked_at … WHERE revoked_at IS NULL AND p`. -/
def Account.revokeWhere (a : Account) (p : Session → Bool) (now : Time) : Account :=
  { a with
    sessions := a.sessions.map fun row =>
      if row.revokedAt.isNone && p row then { row with revokedAt := some now } else row }

/-- `UPDATE auth_tokens SET consumed_at … WHERE consumed_at IS NULL AND p`. -/
def Account.spendWhere (a : Account) (p : AuthToken → Bool) (now : Time) : Account :=
  { a with
    tokens := a.tokens.map fun row =>
      if row.consumedAt.isNone && p row then { row with consumedAt := some now } else row }

/-- Spend the outstanding reset and recovery links. -/
def Account.spendLinks (a : Account) (now : Time) : Account :=
  a.spendWhere (·.purpose.opensReset) now

/-- `sessions.mint_in`, for a sign-in. -/
def Account.mintIn (a : Account) (user : User) (rememberMe : Bool) (now : Time) : Session × Account :=
  let remembered := user.role ≠ .admin && rememberMe
  let row : Session :=
    { id := a.next
      tokenHash := a.next + 1
      rememberMe := remembered
      absoluteExpiresAt := now + (if remembered then rememberAbsolute else absolute)
      idleExpiresAt :=
        if user.role = .admin then some (now + adminIdle)
        else if rememberMe then some (now + rememberIdle) else none
      recentAuthAt := some now
      revokedAt := none }
  (row, { a with sessions := a.sessions ++ [row], next := a.next + 2 })

/-- `sessions.revoke`. -/
def Account.revoke (a : Account) (session : Nat) (now : Time) : Account :=
  a.revokeWhere (·.id == session) now

/-- `sessions.rotate_and_revoke_others`, in the caller's transaction. Every other
session ends, and the row of this one takes a new token, provided that it still
holds the one that was presented. -/
def Account.rotateAndRevokeOthers (a : Account) (resolved : Resolved) (spendCapabilities : Bool)
    (now : Time) : Except Refusal Account := do
  let a := if spendCapabilities then a.spendLinks now else a
  let a := a.revokeWhere (·.id != resolved.session.id) now
  let matched (row : Session) : Bool :=
    row.id == resolved.session.id && row.tokenHash == resolved.session.tokenHash &&
      row.revokedAt.isNone
  require (a.sessions.any matched) ⟨409, "this session changed while that was in flight"⟩
  pure
    { a with
      sessions := a.sessions.map fun row =>
        if matched row then { row with tokenHash := a.next } else row
      next := a.next + 1 }

/-! ## Reading the account -/

/-- `_active_account`. -/
def Account.activeAccount (env : Env) (a : Account) (email : String) : Option User :=
  if env.lowerBtrim a.user.email = env.stripLower email ∧ a.user.state = .active then some a.user
  else none

/-- `enrolled_factor`. -/
def Account.enrolledFactor (a : Account) : Option AuthFactor := a.factor

/-- The account's password identity. -/
def Account.passwordIdentity (a : Account) : Option AuthIdentity :=
  a.identities.find? (·.provider == .password)

/-- `_mint`: the row of a new link and the only copy of its token. -/
def Account.mint (a : Account) (purpose : Purpose) (ttl now : Time) : Nat × Account :=
  (a.next + 1,
    { a with
      tokens := a.tokens ++ [⟨a.next, purpose, a.next + 1, 0, now + ttl, none⟩]
      next := a.next + 2 })

end Potocolom.Accounts
