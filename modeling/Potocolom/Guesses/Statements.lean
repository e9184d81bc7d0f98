import Potocolom.Accounts.Types
import Potocolom.Lib.Machine
import Potocolom.Lib.RowLocks
import Potocolom.Lib.Table

/-! # Challenges, one statement at a time

`begin_challenge` and `answer_challenge` of `factors.py` over the challenge rows of
`auth_tokens`, for any number of accounts and browsers. Each statement is one step, its
row locks are held to the end of its transaction, and the account key is one more lock.
`now()` is the moment a transaction starts. A transaction can fail at any statement. -/

namespace Potocolom.Guesses

open Accounts (Time maxAttempts)

/-- A row of `auth_tokens` whose purpose is `challenge`. -/
structure Challenge where
  id : Nat
  userId : Nat
  tokenHash : Nat
  attempts : Nat
  expiresAt : Time
  consumedAt : Option Time
  createdAt : Time
deriving DecidableEq, Repr

/-- How far a request has got. -/
inductive Request where
  /-- `begin_challenge` has begun its transaction. -/
  | starting (user : Nat) (startedAt : Time)
  /-- It holds the account key. -/
  | keyed (user : Nat) (startedAt : Time)
  /-- It has consumed the outstanding challenges, whose attempts sum to `spent`. -/
  | carried (user : Nat) (startedAt : Time) (spent : Nat)
  /-- `answer_challenge` has begun its first transaction. -/
  | claiming (token : Nat) (startedAt : Time)
  /-- It has counted the attempt, if there was a challenge to count it on. -/
  | claimed (challenge : Option Nat)
  /-- The attempt is committed. -/
  | counted (challenge : Nat)
  /-- The code has gone to `_verify`, and is good. -/
  | proved (challenge : Nat)
  /-- The challenge is spent, in a transaction that is still open. -/
  | winning (challenge : Nat)
  | over
deriving DecidableEq, Repr

/-- The database, the requests and what has been done. -/
structure World where
  rows : Rows Nat Challenge
  /-- Who holds an advisory key. -/
  keys : Nat → Option Nat
  requests : Table Nat Request
  now : Time
  next : Nat
  /-- The attempts counted, as request and challenge. -/
  claims : List (Nat × Nat)
  /-- The codes that reached `_verify`. -/
  verified : List (Nat × Nat)
  /-- The challenges answered successfully. -/
  won : List Nat

def start : World where
  rows := []
  keys _ := none
  requests := ∅
  now := 0
  next := 0
  claims := []
  verified := []
  won := []

/-- One statement of request `r`, or the clock. -/
inductive Label where
  | tick (seconds : Nat)
  /-- `begin_challenge` for a user. -/
  | begin (r user : Nat)
  | takeKey (r : Nat)
  /-- It consumes the outstanding challenges and sums their attempts. -/
  | carry (r : Nat)
  /-- It inserts the new challenge and commits. -/
  | insert (r : Nat) (expiresAt : Time)
  /-- `answer_challenge` with the cookie of a challenge. -/
  | present (r token : Nat)
  | claim (r : Nat)
  | commitClaim (r : Nat)
  /-- It reads the account and its factor and checks the code. -/
  | verify (r : Nat) (good : Bool)
  /-- It consumes the challenge, in a transaction begun then or before. -/
  | win (r : Nat) (startedAt : Time)
  /-- It has spent the proof, and commits. -/
  | commitWin (r : Nat)
  /-- The request is refused or fails; an open transaction rolls back. -/
  | fail (r : Nat)
deriving DecidableEq, Repr

/-- The challenges `begin_challenge` consumes. -/
def outstanding (user startedAt : Nat) (c : Challenge) : Bool :=
  c.userId = user && c.consumedAt.isNone && startedAt < c.expiresAt

def Challenge.consume (at' : Time) (c : Challenge) : Challenge := { c with consumedAt := some at' }

/-- The challenges `answer_challenge` counts an attempt on. -/
def answerable (token startedAt : Nat) (c : Challenge) : Bool :=
  c.tokenHash = token && c.consumedAt.isNone && startedAt < c.expiresAt && c.attempts < maxAttempts

def Challenge.attempt (c : Challenge) : Challenge := { c with attempts := c.attempts + 1 }

/-- The challenge `answer_challenge` wins. -/
def winnable (challenge : Nat) (c : Challenge) : Bool := c.id = challenge && c.consumedAt.isNone

namespace World

def put (w : World) (r : Nat) (request : Request) : World :=
  { w with requests := w.requests.set r request }

/-- The advisory keys once `r` has ended its transaction. -/
def released (w : World) (r : Nat) : Nat → Option Nat :=
  fun key => if w.keys key = some r then none else w.keys key

end World

/-- The row `begin_challenge` adds. -/
def newChallenge (w : World) (user : Nat) (startedAt : Time) (spent : Nat) (expiresAt : Time) :
    Challenge :=
  { id := w.next
    userId := user
    tokenHash := w.next + 1
    attempts := spent
    expiresAt := expiresAt
    consumedAt := none
    createdAt := startedAt }

/-- One step; `budgetLock` is the advisory key of an account. -/
def step (budgetLock : Nat → Nat) (w : World) : Label → Option World
  | .tick seconds => some { w with now := w.now + seconds }
  | .begin r user =>
    match w.requests.get r with
    | none => some (w.put r (.starting user w.now))
    | some _ => none
  | .takeKey r =>
    match w.requests.get r with
    | some (.starting user startedAt) =>
      match w.keys (budgetLock user) with
      | none =>
        some
          { w.put r (.keyed user startedAt) with
            keys := Function.update w.keys (budgetLock user) (some r) }
      | some _ => none
    | _ => none
  | .carry r =>
    match w.requests.get r with
    | some (.keyed user startedAt) =>
      match w.rows.update r (outstanding user startedAt) (Challenge.consume startedAt) with
      | some (rows, spent) =>
        some
          { w.put r (.carried user startedAt (spent.map Challenge.attempts).sum) with
            rows := rows }
      | none => none
    | _ => none
  | .insert r expiresAt =>
    match w.requests.get r with
    | some (.carried user startedAt spent) =>
      -- until this transaction commits nobody else sees the new row
      some
        { w.put r .over with
          rows := w.rows.commit r ++ [⟨newChallenge w user startedAt spent expiresAt, none⟩]
          keys := w.released r
          next := w.next + 2 }
    | _ => none
  | .present r token =>
    match w.requests.get r with
    | none => some (w.put r (.claiming token w.now))
    | some _ => none
  | .claim r =>
    match w.requests.get r with
    | some (.claiming token startedAt) =>
      match w.rows.update r (answerable token startedAt) Challenge.attempt with
      | some (rows, returned) =>
        some { w.put r (.claimed (returned.head?.map Challenge.id)) with rows := rows }
      | none => none
    | _ => none
  | .commitClaim r =>
    match w.requests.get r with
    | some (.claimed (some challenge)) =>
      some
        { w.put r (.counted challenge) with
          rows := w.rows.commit r
          claims := w.claims ++ [(r, challenge)] }
    | some (.claimed none) => some { w.put r .over with rows := w.rows.commit r }
    | _ => none
  | .verify r good =>
    match w.requests.get r with
    | some (.counted challenge) =>
      some
        { w.put r (if good then .proved challenge else .over) with
          verified := w.verified ++ [(r, challenge)] }
    | _ => none
  | .win r startedAt =>
    match w.requests.get r with
    | some (.proved challenge) =>
      match w.rows.update r (winnable challenge) (Challenge.consume startedAt) with
      | some (rows, _ :: _) => some { w.put r (.winning challenge) with rows := rows }
      | _ => none
    | _ => none
  | .commitWin r =>
    match w.requests.get r with
    | some (.winning challenge) =>
      some { w.put r .over with rows := w.rows.commit r, won := w.won ++ [challenge] }
    | _ => none
  | .fail r =>
    match w.requests.get r with
    | some _ =>
      some { w.put r .over with rows := w.rows.rollback r, keys := w.released r }
    | none => none

def machine (budgetLock : Nat → Nat) : Machine World Label where
  init w := w = start
  step := step budgetLock

end Potocolom.Guesses
