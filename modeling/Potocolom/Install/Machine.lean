import Potocolom.Accounts.Requests

/-! # The installation: who it belongs to, and how it is undone

The installation's auth mode and the accounts that hold it: `db.py` (startup),
`enable.py` (the setup link, the claim and the runtime enable), `invitations.py`, and
`operator.py` (`collapse`, `reclaim_restore`, `clear_factor`). An account is what the
requests on one account act on; `users.email` is unique after normalization. Each
function is one transaction: it commits, or refuses and changes nothing. -/

namespace Potocolom.Install

open Accounts Guard

/-- `INSTALLATION_AUTH_MODES`. -/
inductive Mode where
  | unclaimed
  | none
  | accounts
deriving DecidableEq, Repr

/-- The `AUTH_MODE` override. -/
inductive Override where
  | none
  | accounts
deriving DecidableEq, Repr

def Override.mode : Override → Mode
  | .none => .none
  | .accounts => .accounts

/-- `KeyRing`, as far as startup and `record_mode` read it. -/
structure KeyRing where
  activeVersion : Nat
  versions : List Nat
deriving DecidableEq, Repr

/-- A row of `auth_tokens` with the purpose `setup`. -/
structure SetupToken where
  tokenHash : Nat
  expiresAt : Time
  consumedAt : Option Time
deriving DecidableEq, Repr

structure Invitation where
  id : Nat
  email : String
  role : Role
  tokenHash : Nat
  expiresAt : Time
  acceptedAt : Option Time
  revokedAt : Option Time
deriving DecidableEq, Repr

/-- Neither accepted nor revoked. -/
def Invitation.pending (i : Invitation) : Prop := i.acceptedAt = none ∧ i.revokedAt = none

instance (i : Invitation) : Decidable i.pending := instDecidableAnd

structure Job where
  id : Nat
  userId : Nat
deriving DecidableEq, Repr

structure Asset where
  id : Nat
  userId : Nat
  jobId : Option Nat
deriving DecidableEq, Repr

/-- An account row with its requests under way. -/
structure Member where
  id : Nat
  world : Accounts.World

/-- The row of `users`. -/
def Member.user (m : Member) : User := m.world.account.user

/-- Rewrite the rows of an account. -/
def Member.modify (m : Member) (f : Account → Account) : Member :=
  { m with world := { m.world with account := f m.world.account } }

/-- The database, as far as the accounts, the work and the mode reach. -/
structure Database where
  /-- `installation_auth_state`. -/
  mode : Option Mode
  rootKeyVersion : Option Nat
  members : List Member
  setupTokens : List SetupToken
  invitations : List Invitation
  jobs : List Job
  assets : List Asset
  /-- The next fresh id. -/
  next : Nat

/-- `LOCAL_USER_EMAIL`. -/
def localUserEmail : String := "local@localhost"
/-- `COLLAPSE_PHRASE`. -/
def collapsePhrase : String := "destroy the accounts on this installation"
/-- `SETUP_TTL`. -/
def setupTtl : Time := 60 * 60
/-- `INVITATION_TTL`. -/
def invitationTtl : Time := 72 * 60 * 60
/-- `INVALID_LINK`. -/
def invalidLink : Refusal := ⟨403, "invalid or expired setup link"⟩
/-- What a missing implicit user answers. -/
def unavailable : Refusal := ⟨503, "database unavailable"⟩

/-- A fresh account row. -/
def newMember (id : Nat) (email : String) (role : Role) (now : Time) : Member where
  id := id
  world :=
    { account :=
        { user := ⟨email, false, role, .active, none, none⟩
          identities := [], factor := none, recoveryCodes := [], tokens := [], sessions := []
          outbox := [], next := 0 }
      now := now, requests := ∅, changes := [], issues := [], minted := [], accepted := [] }

namespace Database

/-- Some account holds an identity. -/
def claimed (s : Database) : Bool := s.members.any fun m => !m.world.account.identities.isEmpty

/-- The row at `LOCAL_USER_EMAIL`; the column is unique. -/
def localUser (s : Database) : Option Member :=
  s.members.find? fun m => decide (m.user.email = localUserEmail)

/-- Rewrite the account with this id. -/
def modify (s : Database) (id : Nat) (f : Member → Member) : Database :=
  { s with members := s.members.map fun m => if m.id = id then f m else m }

section Env

variable (env : Env)

/-- An account other than `id` holds the address (`users_email_normalized`). -/
def held (s : Database) (id : Nat) (address : String) : Prop :=
  ∃ m ∈ s.members, m.id ≠ id ∧ env.lowerBtrim m.user.email = env.lowerBtrim address

instance (s : Database) (id : Nat) (address : String) : Decidable (s.held env id address) := by
  unfold held
  infer_instance

/-- `INSERT INTO users`. -/
def addUser (s : Database) (email : String) (role : Role) (now : Time) :
    Except Refusal Database := do
  require (¬ s.held env s.next email) ⟨500, "users_email_normalized"⟩
  pure { s with members := s.members ++ [newMember s.next email role now], next := s.next + 1 }

/-! ## Startup -/

/-- The version `record_mode` writes; the ring is missing when `ROOT_KEYS` is. -/
def writeVersion (mode : Mode) (ring : Option KeyRing) : Except Refusal (Option Nat) :=
  if mode = .accounts then
    (fun ring => some ring.activeVersion) <$> demand ring ⟨503, "root_keys_missing"⟩
  else pure none

/-- `record_mode`. -/
def recordMode (s : Database) (mode : Mode) (ring : Option KeyRing) : Except Refusal Database := do
  let version ← writeVersion mode ring
  if s.mode = some mode then pure s
  else pure { s with mode := some mode, rootKeyVersion := version }

/-- `decide_startup_auth_mode`. -/
def decideStartupAuthMode (s : Database) (override : Option Override) (ring : Option KeyRing) :
    Except Refusal (Mode × Database) :=
  match s.mode, override with
  | none, none | some .unclaimed, none => pure (.unclaimed, s)
  | none, some o | some .unclaimed, some o => do
    pure (o.mode, ← s.recordMode o.mode ring)
  | some persisted, none => pure (persisted, s)
  | some persisted, some o =>
    if o.mode = persisted then pure (persisted, s)
    else throw ⟨0, "the override contradicts the recorded mode"⟩

/-- `validate_startup_key_ring`. -/
def validateStartupKeyRing (s : Database) (ring : Option KeyRing) : Except Refusal Unit :=
  match s.rootKeyVersion with
  | none => pure ()
  | some recorded => do
    let ring ← demand ring ⟨0, "root key ring is unusable"⟩
    require (recorded ∈ ring.versions) ⟨0, "root key version is missing from the key ring"⟩

/-- `_ensure_local_user`: the implicit user, if this install has one. -/
def ensureLocalUser (s : Database) (mode : Mode) (now : Time) :
    Except Refusal (Option Nat × Database) :=
  match s.localUser with
  | none =>
    if mode = .accounts ∧ s.claimed then pure (none, s)
    else do pure (some s.next, ← s.addUser env localUserEmail .admin now)
  | some m =>
    if m.user.role ≠ .admin ∧ mode ≠ .accounts then
      pure (some m.id,
        s.modify m.id (·.modify fun a => { a with user := { a.user with role := .admin } }))
    else pure (some m.id, s)

/-- `connect`, serving: what it committed stays when a later check refuses. -/
def startup (s : Database) (override : Option Override) (ring : Option KeyRing) (now : Time) :
    Database :=
  match s.decideStartupAuthMode override ring with
  | .error _ => s
  | .ok (mode, s) =>
    match s.validateStartupKeyRing ring with
    | .error _ => s
    | .ok _ => settle (s.ensureLocalUser env mode now) s

/-! ## The setup link -/

/-- `_mint_locked`. -/
def mintSetupToken (s : Database) (token : Nat) (now : Time) : Except Refusal Database := do
  require (s.claimed = false) ⟨0, "this installation has already been claimed"⟩
  require (s.mode ≠ some .none) ⟨0, "this installation runs without accounts"⟩
  pure
    { s with
      setupTokens :=
        s.setupTokens.filter (·.consumedAt.isSome) ++ [⟨token, now + setupTtl, none⟩] }

/-- `_spend`. -/
def spend (s : Database) (token : Nat) (now : Time) : Except Refusal Database := do
  let opens (row : SetupToken) : Bool :=
    row.tokenHash == token && row.consumedAt.isNone && decide (now < row.expiresAt)
  require (s.setupTokens.any opens) invalidLink
  pure
    { s with
      setupTokens := s.setupTokens.map fun row =>
        if opens row then { row with consumedAt := some now } else row }

/-- `_adopt`: the implicit administrator becomes this account. -/
def adopt (s : Database) (address password : String) : Except Refusal Database := do
  require (s.claimed = false) ⟨409, "installation already claimed"⟩
  let hash ← demand (env.hashPassword password) ⟨400, "password does not meet the policy"⟩
  let m ← demand s.localUser unavailable
  require (¬ s.held env m.id address) ⟨500, "users_email_normalized"⟩
  pure
    (s.modify m.id
      (·.modify fun a =>
        ({ a with
          user :=
            { a.user with
              email := address, role := .admin, state := .active, mailVerified := false } }
          ).addIdentity .password (env.stripLower address) (some hash)))

/-- `claim`. -/
def claim (s : Database) (token : Nat) (email password : String) (ring : Option KeyRing)
    (now : Time) : Except Refusal Database := do
  let address ← demand (env.checkedEmail email) ⟨400, "invalid email address"⟩
  let s ← s.spend token now
  require (s.mode ≠ some .none) ⟨409, "installation already decided"⟩
  let s ← s.adopt env address password
  s.recordMode .accounts ring

/-- `decline_accounts`. -/
def declineAccounts (s : Database) (token : Nat) (now : Time) : Except Refusal Database := do
  let s ← s.spend token now
  require (s.claimed = false ∧ s.mode ≠ some .accounts) ⟨409, "installation already decided"⟩
  s.recordMode .none none

/-- `turn_accounts_on`. -/
def turnAccountsOn (s : Database) (email password : String) (ring : Option KeyRing) :
    Except Refusal Database := do
  let address ← demand (env.checkedEmail email) ⟨400, "invalid email address"⟩
  require (s.mode = some .none) ⟨409, "installation already decided"⟩
  let s ← s.adopt env address password
  s.recordMode .accounts ring

/-- `_ensure_claimable`. -/
def ensureClaimable (s : Database) (now : Time) : Except Refusal Database :=
  if s.claimed then pure s
  else if s.localUser.isNone then s.addUser env localUserEmail .admin now
  else pure s

/-- `_enable`, which `make auth-enable` runs: three transactions, each on what the one
before committed. -/
def authEnable (s : Database) (token : Nat) (ring : Option KeyRing) (now : Time) : Database :=
  match s.ensureClaimable env now with
  | .error _ => s
  | .ok s =>
    match s.recordMode .accounts ring with
    | .error _ => s
    | .ok s => (s.mintSetupToken token now).toOption.getD s

/-! ## Accounts come and go -/

/-- `invite`. -/
def invite (s : Database) (email : String) (role : Role) (token : Nat) (now : Time) :
    Except Refusal Database := do
  let address ← demand (env.checkedEmail email) ⟨400, "invalid email address"⟩
  require (¬ ∃ m ∈ s.members, env.lowerBtrim m.user.email = env.stripLower address)
    ⟨409, "that address already has an account"⟩
  require (¬ ∃ i ∈ s.invitations, env.lowerBtrim i.email = env.stripLower address ∧ i.pending)
    ⟨409, "that address already has an open invitation"⟩
  pure
    { s with
      invitations := s.invitations ++ [⟨s.next, address, role, token, now + invitationTtl, none, none⟩]
      next := s.next + 1 }

/-- `revoke` of an invitation. -/
def revokeInvitation (s : Database) (id : Nat) (now : Time) : Database :=
  { s with
    invitations := s.invitations.map fun i =>
      if i.id = id ∧ i.pending then { i with revokedAt := some now } else i }

/-- `register`. -/
def register (s : Database) (token : Nat) (password : String) (now : Time) :
    Except Refusal Database := do
  let i ← demand
    (s.invitations.find? fun i =>
      i.tokenHash == token && decide i.pending && decide (now < i.expiresAt))
    ⟨403, "invalid or expired invitation"⟩
  let hash ← demand (env.hashPassword password) ⟨400, "password does not meet the policy"⟩
  let id := s.next
  let s : Database :=
    { s with
      invitations := s.invitations.map fun j =>
        if j.id = i.id then { j with acceptedAt := some now } else j }
  let s ← s.addUser env i.email i.role now
  require
    (¬ ∃ m ∈ s.members, ∃ row ∈ m.world.account.identities, row.provider = .password ∧
      env.lowerBtrim row.subject = env.lowerBtrim (env.stripLower i.email))
    ⟨500, "auth_identities_password_subject"⟩
  pure (s.modify id (·.modify (·.addIdentity .password (env.stripLower i.email) (some hash))))

/-- One transaction of a request on an account: a sign-in, a reset, a role, state, email
or factor change, a deletion, a restore, the claim of a purge. -/
def onAccount (s : Database) (id : Nat) (action : Accounts.Action) : Except Refusal Database := do
  let m ← demand (s.members.find? (·.id == id)) ⟨404, "Not Found"⟩
  let world ← demand (Accounts.step env m.world action) ⟨409, "refused"⟩
  require (¬ s.held env id world.account.user.email) ⟨500, "users_email_normalized"⟩
  pure (s.modify id ({ · with world := world }))

/-- `reclaim_restore`. -/
def reclaimRestore (s : Database) (email : String) : Except Refusal Database := do
  let m ← demand
    (s.members.find? fun m => decide (env.lowerBtrim m.user.email = env.stripLower email))
    ⟨0, "no account holds that address"⟩
  require (m.user.state ≠ .purging) ⟨0, "it is being purged and cannot be restored"⟩
  pure
    (s.modify m.id
      (·.modify fun a =>
        { a with
          user :=
            { a.user with
              state := .active, role := .admin, priorState := none
              deletionRequestedAt := none } }))

/-- `clear_factor`. -/
def clearFactor (s : Database) (email : String) (now : Time) : Except Refusal Database := do
  let m ← demand
    (s.members.find? fun m => decide (env.lowerBtrim m.user.email = env.stripLower email))
    ⟨0, "no account holds that address"⟩
  if m.world.account.factor.isNone then pure s
  else
    pure
      (s.modify m.id
        (·.modify fun a =>
          { a with factor := none, recoveryCodes := [] }.revokeWhere (fun _ => true) now))

end Env

/-- The last transaction of `_purge`, of an account its pass has claimed. -/
def deleteAccount (s : Database) (id : Nat) : Database :=
  { s with
    assets := s.assets.filter (·.userId ≠ id)
    jobs := s.jobs.filter (·.userId ≠ id)
    members := s.members.filter (·.id ≠ id) }

/-- A job of an account. -/
def addJob (s : Database) (userId : Nat) : Database :=
  { s with jobs := s.jobs ++ [⟨s.next, userId⟩], next := s.next + 1 }

/-- An asset of an account. -/
def addAsset (s : Database) (userId : Nat) (jobId : Option Nat) : Database :=
  { s with assets := s.assets ++ [⟨s.next, userId, jobId⟩], next := s.next + 1 }

/-! ## Collapse -/

/-- What `collapse` reports. -/
structure Counted where
  accounts : Nat
  generations : Nat
deriving DecidableEq, Repr

/-- What is left of the implicit user's rows. -/
def emptied (a : Account) : Account :=
  { a with
    user :=
      { a.user with
        role := .admin, state := .active, priorState := none, deletionRequestedAt := none }
    identities := [], factor := none, recoveryCodes := [], tokens := [], sessions := [] }

/-- `collapse`. -/
def collapse (s : Database) (confirmation : String) : Except Refusal (Counted × Database) := do
  require (confirmation = collapsePhrase) ⟨0, "the confirmation phrase is another"⟩
  let m ← demand s.localUser ⟨0, "this install has no implicit local user to collapse onto"⟩
  let counted : Counted :=
    ⟨s.members.countP (·.id ≠ m.id), s.jobs.countP (·.userId ≠ m.id)⟩
  pure
    (counted,
      { s with
        jobs := s.jobs.map ({ · with userId := m.id })
        assets := s.assets.map ({ · with userId := m.id })
        setupTokens := [], invitations := []
        members := (s.members.filter (·.id = m.id)).map (·.modify emptied)
        -- `UPDATE installation_auth_state … WHERE id = 1`
        mode := s.mode.map fun _ => .none
        rootKeyVersion := none })

end Database

/-! ## The machine -/

/-- What happens next. -/
inductive Action where
  | startup (override : Option Override) (ring : Option KeyRing) (now : Time)
  /-- `reclaim --claim`. -/
  | mintSetupToken (token : Nat) (now : Time)
  | authEnable (token : Nat) (ring : Option KeyRing) (now : Time)
  | claim (token : Nat) (email password : String) (ring : Option KeyRing) (now : Time)
  | declineAccounts (token : Nat) (now : Time)
  | turnAccountsOn (email password : String) (ring : Option KeyRing)
  | invite (email : String) (role : Role) (token : Nat) (now : Time)
  | revokeInvitation (id : Nat) (now : Time)
  | register (token : Nat) (password : String) (now : Time)
  | onAccount (id : Nat) (action : Accounts.Action)
  | reclaimRestore (email : String)
  | clearFactor (email : String) (now : Time)
  | deleteAccount (id : Nat)
  | addJob (userId : Nat)
  | addAsset (userId : Nat) (jobId : Option Nat)
  | collapse (confirmation : String)

/-- One step; a refused transaction changes nothing. -/
def step (env : Env) (s : Database) : Action → Option Database
  | .startup override ring now => some (s.startup env override ring now)
  | .mintSetupToken token now => (s.mintSetupToken token now).toOption
  | .authEnable token ring now => some (s.authEnable env token ring now)
  | .claim token email password ring now => (s.claim env token email password ring now).toOption
  | .declineAccounts token now => (s.declineAccounts token now).toOption
  | .turnAccountsOn email password ring => (s.turnAccountsOn env email password ring).toOption
  | .invite email role token now => (s.invite env email role token now).toOption
  | .revokeInvitation id now => some (s.revokeInvitation id now)
  | .register token password now => (s.register env token password now).toOption
  | .onAccount id action => (s.onAccount env id action).toOption
  | .reclaimRestore email => (s.reclaimRestore env email).toOption
  | .clearFactor email now => (s.clearFactor env email now).toOption
  | .deleteAccount id =>
    if s.members.any fun m => m.id == id && decide (m.user.state = .purging) then
      some (s.deleteAccount id)
    else none
  | .addJob userId =>
    if s.members.any fun m => m.id == userId then some (s.addJob userId) else none
  | .addAsset userId jobId =>
    if s.members.any fun m => m.id == userId then some (s.addAsset userId jobId) else none
  | .collapse confirmation => some (settle (s.collapse confirmation) s)

/-- A database as the migrations leave it. -/
def fresh (next : Nat) : Database :=
  { mode := some .unclaimed, rootKeyVersion := none, members := [], setupTokens := []
    invitations := [], jobs := [], assets := [], next := next }

/-- An installation, from fresh. -/
def installMachine (env : Env) : Machine Database Action where
  init s := ∃ next, s = fresh next
  step := step env

end Potocolom.Install
