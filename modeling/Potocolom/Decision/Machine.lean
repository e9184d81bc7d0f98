import Potocolom.Deletion.Machine
import Potocolom.Install.Machine
import Potocolom.Lib.RowLocks

/-! # The installation decision, one statement at a time

`claim`, `decline_accounts`, `turn_accounts_on`, `mint_setup_token` (and `reclaim_claim`,
which mints in a transaction of its own), `enable_accounts_mode`,
`decide_startup_auth_mode` and `collapse`, in any number of processes. Each function is a
list of statements; a statement works on what its transaction sees, waits for the rows
and keys that others hold, and holds its own until the transaction ends. Of `collapse`
only the tables that the decision reads are here. -/

namespace Potocolom.Decision

open Accounts Deletion Guard Install

/-! ## The tables -/

structure UserRow where
  id : Nat
  user : User
deriving DecidableEq, Repr

/-- A row of `auth_identities`. -/
structure Identity where
  userId : Nat
  subject : String
  passwordHash : String
deriving DecidableEq, Repr

/-- `auth_mode` and `root_key_version` of the row of `installation_auth_state`, if there
is one. -/
abbrev ModeRow := Option Mode × Option Nat

/-- What is committed. -/
structure Db where
  mode : ModeRow
  users : List UserRow
  identities : List Identity
  links : List SetupToken
deriving DecidableEq, Repr

/-! ## The functions -/

inductive Statement where
  /-- `pg_advisory_xact_lock(SETUP_LOCK)` -/
  | lockSetup
  /-- `_spend` -/
  | spend (token : Nat)
  /-- The recorded mode is read, and perhaps refused. -/
  | readMode (bars : Option Mode → Option Refusal)
  /-- It is read whether anybody holds an identity, which is refused, as a mode that
  `bars` is. -/
  | readClaimed (bars : Option Mode → Bool) (why : Refusal)
  /-- `hash_password` -/
  | hash (password : String)
  /-- The row at `LOCAL_USER_EMAIL` is read. -/
  | readLocal (missing : Refusal)
  /-- `record_mode` -/
  | record (mode : Mode) (ring : Option KeyRing)
  /-- The flush of the adopted row. -/
  | updateUser (address : String)
  /-- The flush of its identity. -/
  | insertIdentity (address : String)
  /-- The links that nobody has consumed are deleted. -/
  | deleteOpen
  | insertLink (token : Nat)
  /-- `decide_startup_auth_mode` between its two transactions. -/
  | decide (override : Option Override)
  /-- `hold_the_account` of every account -/
  | holdAccounts
  | dropLinks
  | dropIdentities
  /-- Every user but the local one is deleted. -/
  | dropUsers
  /-- The local user becomes an active administrator. -/
  | resetLocal
  /-- `UPDATE installation_auth_state SET auth_mode = 'none'` -/
  | updateMode

inductive Op where
  | claim (token : Nat) (email password : String) (ring : Option KeyRing)
  | declineAccounts (token : Nat)
  | turnAccountsOn (email password : String) (ring : Option KeyRing)
  | mintSetupToken (token : Nat)
  | enableAccountsMode (ring : Option KeyRing)
  | decideStartupAuthMode (override : Option Override) (ring : Option KeyRing)
  | collapse (confirmation : String)
deriving DecidableEq, Repr

def alreadyDecided : Refusal := ⟨409, "installation already decided"⟩

/-- `_adopt` and the record of its mode; the rows are flushed at the end. -/
def adopt (address password : String) (ring : Option KeyRing) : List Statement :=
  [.readClaimed (fun _ => false) ⟨409, "installation already claimed"⟩, .hash password,
    .readLocal unavailable, .record .accounts ring, .updateUser address,
    .insertIdentity address]

/-- What the function does before its transaction, and the statements of it. -/
def Op.statements (env : Env) : Op → Except Refusal (List Statement)
  | .claim token email password ring => do
    let address ← demand (env.checkedEmail email) ⟨400, "invalid email address"⟩
    return [.lockSetup, .spend token,
      .readMode fun decided => if decided = some .none then some alreadyDecided else none] ++
      adopt address password ring
  | .declineAccounts token =>
    return [.lockSetup, .spend token, .readMode fun _ => none,
      .readClaimed (fun decided => decided = some .accounts) alreadyDecided, .record .none none]
  | .turnAccountsOn email password ring => do
    let address ← demand (env.checkedEmail email) ⟨400, "invalid email address"⟩
    return [.lockSetup,
      .readMode fun decided => if decided = some .none then none else some alreadyDecided] ++
      adopt address password ring
  | .mintSetupToken token =>
    return [.lockSetup,
      .readClaimed (fun _ => false)
        ⟨0, "this installation has already been claimed, so a setup link would be " ++
          "refused; use reclaim --restore EMAIL to make an account an administrator"⟩,
      .readMode fun decided =>
        if decided = some .none then
          some ⟨0, "this installation runs without accounts, so a setup link would be refused; " ++
            "turn accounts on first with make auth-enable"⟩
        else none,
      .deleteOpen, .insertLink token]
  | .enableAccountsMode ring => return [.record .accounts ring]
  | .decideStartupAuthMode override ring =>
    return [.readMode fun _ => none, .decide override] ++
      (override.map fun o => Statement.record o.mode ring).toList
  | .collapse confirmation => do
    require (confirmation = collapsePhrase)
      ⟨0, "the confirmation phrase is \"destroy the accounts on this installation\""⟩
    return [.readLocal ⟨0, "this install has no implicit local user to collapse onto"⟩,
      .holdAccounts, .dropLinks, .dropIdentities, .dropUsers, .resetLocal, .updateMode]

/-! ## The transactions -/

/-- A function under way: what is left of it, and what it has read. -/
structure Tx where
  op : Op
  /-- `now()` of its transaction. -/
  startedAt : Time
  rest : List Statement
  decided : Option Mode
  hashed : Option String
  found : Option UserRow

inductive Outcome where
  | succeeded
  | failed (why : Refusal)
deriving DecidableEq, Repr

structure World where
  mode : Row Nat ModeRow
  users : Rows Nat (Option UserRow)
  identities : Rows Nat (Option Identity)
  /-- The rows of `auth_tokens` with the purpose `setup`. -/
  links : Rows Nat (Option SetupToken)
  /-- Who holds `SETUP_LOCK`. -/
  setup : Option Nat
  /-- Who holds the key of an account. -/
  accounts : Nat → Option Nat
  txs : Nat → Option Tx
  ended : Nat → Option Outcome
  /-- How often the implicit user was adopted since the last collapse. -/
  adoptions : Nat
  /-- Whether a step of the function has changed what is committed. -/
  touched : Nat → Bool

/-- What is committed. -/
def World.db (w : World) : Db where
  mode := w.mode.committed
  users := w.users.filterMap Row.committed
  identities := w.identities.filterMap Row.committed
  links := w.links.filterMap Row.committed

/-- A link that is not consumed. -/
def isOpen (link : Option SetupToken) : Bool := link.any fun row => row.consumedAt.isNone

/-- The link that `_spend` consumes. -/
def opens (token : Nat) (startedAt : Time) (link : Option SetupToken) : Bool :=
  link.any fun row =>
    row.tokenHash == token && row.consumedAt.isNone && decide (startedAt < row.expiresAt)

def consume (startedAt : Time) (link : Option SetupToken) : Option SetupToken :=
  link.map fun row => { row with consumedAt := some startedAt }

/-- The row that `record_mode` writes. -/
def upsert (mode : Mode) (version : Option Nat) (row : ModeRow) : ModeRow :=
  if row.1 = some mode then row else (some mode, version)

/-- The row `_adopt` leaves. -/
def adoptedUser (address : String) (user : User) : User :=
  { user with email := address, role := .admin, state := .active, mailVerified := false }

/-- The row `collapse` leaves. -/
def resetUser (user : User) : User :=
  { user with role := .admin, state := .active, priorState := none, deletionRequestedAt := none }

def isUser (id : Nat) (row : Option UserRow) : Bool := row.any fun row => row.id = id

def isOtherUser (id : Nat) (row : Option UserRow) : Bool := row.any fun row => row.id ≠ id

def setUser (f : User → User) (row : Option UserRow) : Option UserRow :=
  row.map fun row => { row with user := f row.user }

/-- What a statement comes to. -/
inductive Result where
  /-- It waits for a row or a key. -/
  | blocked
  /-- The function raises. -/
  | refused (why : Refusal)
  | done (w : World) (tx : Tx)

/-- A write that may match no row. -/
def written {ν : Type} (x : Option (Rows Nat ν × List ν)) (put : Rows Nat ν → World) (tx : Tx) :
    Result :=
  match x with
  | none => .blocked
  | some (rows, _) => .done (put rows) tx

/-- A write that has to match a row. -/
def writtenOne {ν : Type} (x : Option (Rows Nat ν × List ν)) (put : Rows Nat ν → World) (tx : Tx)
    (why : Refusal) : Result :=
  match x with
  | none => .blocked
  | some (_, []) => .refused why
  | some (rows, _ :: _) => .done (put rows) tx

section
variable (env : Env) (w : World) (n : Nat)

/-- The rows of a table as transaction `n` sees them. -/
def seenRows {ν : Type} (rows : Rows Nat (Option ν)) : List ν := rows.filterMap (Row.seen n)

/-- The record of a mode, whose version is known. -/
def recordMode (mode : Mode) (version : Option Nat) (tx : Tx) : Result :=
  if w.mode.blocks n fun _ => true then .blocked
  else .done { w with mode := w.mode.write n (fun _ => true) (upsert mode version) } tx

/-- A statement of transaction `n`; `tx` is what is left when it is through. -/
def exec (tx : Tx) (now : Time) : Statement → Result
  | .lockSetup =>
    if w.setup = none ∨ w.setup = some n then .done { w with setup := some n } tx else .blocked
  | .spend token =>
    writtenOne (w.links.update n (opens token tx.startedAt) (consume tx.startedAt))
      (fun links => { w with links := links }) tx Install.invalidLink
  | .readMode bars =>
    let decided := (w.mode.seen n).1
    match bars decided with
    | some why => .refused why
    | none => .done w { tx with decided := decided }
  | .readClaimed bars why =>
    if seenRows n w.identities ≠ [] ∨ bars tx.decided = true then .refused why else .done w tx
  | .hash password =>
    match env.hashPassword password with
    | some hash => .done w { tx with hashed := some hash }
    | none => .refused ⟨400, "password does not meet the policy"⟩
  | .readLocal missing =>
    match (seenRows n w.users).find? fun row => row.user.email = localUserEmail with
    | some row => .done w { tx with found := some row }
    | none => .refused missing
  | .record mode ring =>
    match Database.writeVersion mode ring with
    | .ok version => recordMode w n mode version tx
    | .error why => .refused why
  | .updateUser address =>
    match tx.found with
    | none => .refused unavailable
    | some row =>
      if ∃ other ∈ seenRows n w.users, other.id ≠ row.id ∧
          env.lowerBtrim other.user.email = env.lowerBtrim address then
        .refused ⟨500, "users_email_normalized"⟩
      else
        writtenOne
          (w.users.update n (isUser row.id)
            (setUser (writeColumns row.user (adoptedUser address row.user))))
          (fun users => { w with users := users }) tx ⟨500, "no row was updated"⟩
  | .insertIdentity address =>
    match tx.found, tx.hashed with
    | some row, some hash =>
      let identity : Identity := ⟨row.id, env.stripLower address, hash⟩
      .done { w with identities := w.identities ++ [⟨none, some (n, some identity)⟩] } tx
    | _, _ => .refused unavailable
  | .deleteOpen =>
    written (w.links.update n isOpen fun _ => none) (fun links => { w with links := links }) tx
  | .insertLink token =>
    if ∃ link ∈ seenRows n w.links, link.tokenHash = token then
      .refused ⟨500, "auth_tokens_token_hash_key"⟩
    else
      let link : SetupToken := ⟨token, now + setupTtl, none⟩
      .done { w with links := w.links ++ [⟨none, some (n, some link)⟩] } tx
  | .decide override =>
    if tx.decided = none ∨ tx.decided = some .unclaimed then .done w tx
    else if override = none ∨ override.map Override.mode = tx.decided then
      .done w { tx with rest := [] }
    else .refused ⟨0, "the override contradicts the recorded mode"⟩
  | .holdAccounts =>
    let ids := (seenRows n w.users).map UserRow.id
    if ∀ id ∈ ids, w.accounts id = none ∨ w.accounts id = some n then
      .done { w with accounts := fun id => if id ∈ ids then some n else w.accounts id } tx
    else .blocked
  | .dropLinks =>
    written (w.links.update n Option.isSome fun _ => none) (fun links => { w with links := links }) tx
  | .dropIdentities =>
    written (w.identities.update n Option.isSome fun _ => none)
      (fun identities => { w with identities := identities }) tx
  | .dropUsers =>
    match tx.found with
    | none => .refused unavailable
    | some row =>
      written (w.users.update n (isOtherUser row.id) fun _ => none)
        (fun users => { w with users := users }) tx
  | .resetLocal =>
    match tx.found with
    | none => .refused unavailable
    | some row =>
      written (w.users.update n (isUser row.id) (setUser resetUser))
        (fun users => { w with users := users }) tx
  | .updateMode =>
    if w.mode.blocks n fun row => row.1.isSome then .blocked
    else
      .done
        { w with mode := w.mode.write n (fun row => row.1.isSome) fun _ => (some .none, none) } tx

/-! ## The machine -/

/-- Transaction `n` ends, and what it holds is free. -/
def World.ends (outcome : Outcome) : World :=
  { w with
    setup := if w.setup = some n then none else w.setup
    accounts := fun id => if w.accounts id = some n then none else w.accounts id
    txs := Function.update w.txs n none
    ended := Function.update w.ended n (some outcome) }

def World.rollback : World :=
  { w with
    mode := w.mode.rollback n
    users := w.users.rollback n
    identities := w.identities.rollback n
    links := w.links.rollback n }

def World.commit : World :=
  { w with
    mode := w.mode.commit n
    users := w.users.commit n
    identities := w.identities.commit n
    links := w.links.commit n }

/-- Transaction `n` has written an identity. -/
def World.adopts : Bool :=
  w.identities.any fun row => row.held.any fun hold => hold.1 = n && hold.2.isSome

def Op.isCollapse : Op → Bool
  | .collapse _ => true
  | .claim _ _ _ _ => false
  | .declineAccounts _ => false
  | .turnAccountsOn _ _ _ => false
  | .mintSetupToken _ => false
  | .enableAccountsMode _ => false
  | .decideStartupAuthMode _ _ => false

/-- The count of the adoptions when `n` commits. -/
def World.adopted (op : Op) : Nat :=
  if op.isCollapse = true then 0
  else if w.adopts n = true then w.adoptions + 1
  else w.adoptions

end

inductive Label where
  | begins (n : Nat) (op : Op) (now : Time)
  /-- The next statement of `n` runs. -/
  | runs (n : Nat) (now : Time)
  | commits (n : Nat)
  /-- The transaction of `n` fails. -/
  | aborts (n : Nat)
deriving DecidableEq, Repr

def Label.owner : Label → Nat
  | .begins n _ _ => n
  | .runs n _ => n
  | .commits n => n
  | .aborts n => n

/-- What a step does to the tables and the transactions. -/
def act (env : Env) (w : World) : Label → Option World
  | .begins n op now =>
    if w.txs n = none ∧ w.ended n = none then
      match op.statements env with
      | .ok rest => some { w with txs := Function.update w.txs n (some ⟨op, now, rest, none, none, none⟩) }
      | .error why => some { w with ended := Function.update w.ended n (some (.failed why)) }
    else none
  | .runs n now =>
    match w.txs n with
    | none => none
    | some tx =>
      match tx.rest with
      | [] => none
      | statement :: rest =>
        match exec env w n { tx with rest := rest } now statement with
        | .blocked => none
        | .refused why => some ((w.rollback n).ends n (.failed why))
        | .done after tx' => some { after with txs := Function.update after.txs n (some tx') }
  | .commits n =>
    match w.txs n with
    | none => none
    | some tx =>
      match tx.rest with
      | [] => some { (w.commit n).ends n .succeeded with adoptions := w.adopted n tx.op }
      | _ :: _ => none
  | .aborts n =>
    match w.txs n with
    | none => none
    | some _ => some ((w.rollback n).ends n (.failed ⟨500, "the transaction failed"⟩))

/-- A step, with a note of who has changed what is committed. -/
def step (env : Env) (w : World) (l : Label) : Option World :=
  (act env w l).map fun after =>
    { after with
      touched := fun n => w.touched n || decide (n = l.owner ∧ after.db ≠ w.db) }

/-- Nobody holds the row. -/
def Free {ν : Type} (row : Row Nat ν) : Prop := row.held = none

/-- No function is under way; if anybody holds an identity the mode is accounts, and one
link is open at most. -/
structure Start (w : World) : Prop where
  mode : Free w.mode
  users : ∀ row ∈ w.users, Free row
  identities : ∀ row ∈ w.identities, Free row
  links : ∀ row ∈ w.links, Free row
  setup : w.setup = none
  accounts : ∀ id, w.accounts id = none
  txs : ∀ n, w.txs n = none
  ended : ∀ n, w.ended n = none
  adoptions : w.adoptions = 0
  touched : ∀ n, w.touched n = false
  claimed : w.db.identities ≠ [] → w.db.mode.1 = some .accounts
  opened : (w.db.links.filter fun link => isOpen (some link)).length ≤ 1

def machine (env : Env) : Machine World Label := ⟨Start, step env⟩

end Potocolom.Decision
