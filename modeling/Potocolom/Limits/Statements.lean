import Potocolom.Lib.Machine
import Potocolom.Lib.RowLocks

/-! # The sign-in limiter, one statement at a time

`charge_login` and `charge_address` of `rate_limit.py`, for any number of calls. Every
statement is one step and holds the row it writes until its transaction ends; the clock
is read on its own, before the statement it is for. Times are in microseconds. -/

namespace Potocolom.Limits

/-- Microseconds. -/
abbrev Time := Nat

/-- `WINDOW`. -/
def window : Time := 600000000
/-- `IDENTIFIER_LIMIT`. -/
def identifierLimit : Nat := 10
/-- `FREE_ATTEMPTS`. -/
def freeAttempts : Nat := 5
/-- `MAX_DELAY_S`. -/
def maxDelay : Time := 8000000
/-- `MAX_QUEUE_S`. -/
def maxQueue : Time := 30000000

/-- The highest power of two a float can hold. -/
def maxExponent : Nat := 1023

/-- `delay_for`; `none` where `0.5 * 2 ** n` raises `OverflowError`. -/
def delayFor (attempts : Nat) : Option Time :=
  if attempts ≤ freeAttempts then some 0
  else
    let exponent := attempts - freeAttempts - 1
    if exponent ≤ maxExponent then some (min maxDelay (500000 * 2 ^ exponent)) else none

inductive Scope where
  | identifier
  | address
deriving DecidableEq, Repr

/-- The primary key of `login_attempts`: a scope and the digest of a subject. -/
structure Key (D : Type*) where
  scope : Scope
  subject : D
deriving DecidableEq

/-- The other columns. -/
structure LoginAttempt where
  attempts : Nat
  expiresAt : Time
  notBefore : Option Time
deriving DecidableEq, Repr

/-- Whether the statement starts a window: there is no row, or it has run out. -/
def startsWindow (now : Time) : Option LoginAttempt → Bool
  | none => true
  | some row => row.expiresAt ≤ now

/-- The row `_charge` leaves. -/
def charged (now : Time) : Option LoginAttempt → LoginAttempt
  | none => ⟨1, now + window, none⟩
  | some row =>
    if row.expiresAt ≤ now then ⟨1, now + window, none⟩
    else ⟨row.attempts + 1, row.expiresAt, row.notBefore⟩

/-- What `_charge` did to a row. -/
structure Charge where
  /-- It started a window. -/
  fresh : Bool
  attempts : Nat
deriving DecidableEq, Repr

inductive Answer where
  /-- 429 -/
  | refused
  /-- 503 -/
  | busy
  /-- After this wait. -/
  | accepted (wait : Time)
deriving DecidableEq, Repr

variable {D : Type*}

/-- What a call did to the rows it still holds. -/
abbrev Charges (D : Type*) := List (Key D × Charge)

/-- How far a call has got. -/
inductive Call (D : Type*) where
  | idle
  /-- `charge_login` before its first statement. -/
  | login (subject : D) (peer : Option D)
  /-- It has read the clock. -/
  | identifying (subject : D) (peer : Option D) (now : Time)
  /-- `_reserve` before its statement. -/
  | queueing (charges : Charges D) (peer : D)
  | addressing (charges : Charges D) (peer : D) (now : Time)
  /-- `_reserve` with what `_charge` answered. -/
  | reserving (charges : Charges D) (peer : D) (attempts : Nat) (taken : Option Time)
  /-- Before the commit; `turn` is the turn written to the address row. -/
  | committing (charges : Charges D) (turn : Option Time) (answer : Answer)
  | answered (answer : Answer)
  /-- An exception, or a lost connection. -/
  | failed
deriving DecidableEq

namespace Call

/-- The rows a call holds. -/
def charges : Call D → Charges D
  | .queueing charges _ => charges
  | .addressing charges _ _ => charges
  | .reserving charges _ _ _ => charges
  | .committing charges _ _ => charges
  | .idle => []
  | .login _ _ => []
  | .identifying _ _ _ => []
  | .answered _ => []
  | .failed => []

/-- The turn a call has written to a row. -/
def turnAt (call : Call D) (key : Key D) : Option Time :=
  match call with
  | .committing _ turn _ => if key.scope = .address then turn else none
  | .idle => none
  | .login _ _ => none
  | .identifying _ _ _ => none
  | .queueing _ _ => none
  | .addressing _ _ _ => none
  | .reserving _ _ _ _ => none
  | .answered _ => none
  | .failed => none

/-- It has ended. -/
def ended : Call D → Bool
  | .idle => true
  | .answered _ => true
  | .failed => true
  | .login _ _ => false
  | .identifying _ _ _ => false
  | .queueing _ _ => false
  | .addressing _ _ _ => false
  | .reserving _ _ _ _ => false
  | .committing _ _ _ => false

end Call

/-- A charge that was committed, with the turn it took on that row and the answer of its
call. -/
structure Entry where
  charge : Charge
  turn : Option Time
  answer : Answer
deriving DecidableEq, Repr

/-- The committed charges of one row: the windows, latest first, the charges of each in
the order they were made. -/
abbrev History := List (List Entry)

/-- A committed charge starts a window or goes to the latest one. -/
def History.push (history : History) (entry : Entry) : History :=
  if entry.charge.fresh then [entry] :: history
  else
    match history with
    | latest :: rest => (latest ++ [entry]) :: rest
    | [] => [[entry]]

structure World (D : Type*) where
  rows : Key D → Row Nat (Option LoginAttempt)
  calls : Nat → Call D
  now : Time
  history : Key D → History

/-- One statement of call `r`, or the clock. -/
inductive Label (D : Type*) where
  | tick (elapsed : Time)
  /-- `charge_login`. -/
  | login (r : Nat) (subject : D) (peer : Option D)
  /-- `charge_address`. -/
  | reset (r : Nat) (peer : D)
  /-- `_charge` reads the clock. -/
  | clock (r : Nat)
  /-- Its statement. -/
  | charge (r : Nat)
  /-- `_reserve` reads the clock and takes the turn, or leaves it. -/
  | reserve (r : Nat)
  | commit (r : Nat)
  /-- The call is cancelled, or its connection lost. -/
  | fail (r : Nat)
  /-- `prune` deletes a row. -/
  | prune (key : Key D)
deriving DecidableEq

variable [DecidableEq D]

namespace World

def put (w : World D) (r : Nat) (call : Call D) : World D :=
  { w with calls := Function.update w.calls r call }

/-- Call `r` writes a row. -/
def write (w : World D) (r : Nat) (key : Key D) (f : Option LoginAttempt → Option LoginAttempt) :
    World D :=
  { w with rows := Function.update w.rows key ((w.rows key).write r (fun _ => true) f) }

/-- Call `r` gives its rows back as they were. -/
def rollback (w : World D) (r : Nat) : World D :=
  { w with rows := fun key => (w.rows key).rollback r }

/-- Call `r` commits its rows, and its charges go on record. -/
def commit (w : World D) (r : Nat) (charges : Charges D) (turn : Option Time) (answer : Answer) :
    World D :=
  { w with
    rows := fun key => (w.rows key).commit r
    history := fun key =>
      match charges.lookup key with
      | some charge =>
        (w.history key).push ⟨charge, if key.scope = .address then turn else none, answer⟩
      | none => w.history key }

end World

/-- How long an accepted call waits: `max(delay_for(identifier), queued)` for a sign-in,
whose identifier has too few attempts for its delay to overflow. -/
def holdFor (charges : Charges D) (queued : Time) : Time :=
  match charges with
  | (⟨.identifier, _⟩, identifier) :: _ => max ((delayFor identifier.attempts).getD 0) queued
  | _ => queued

def step (w : World D) : Label D → Option (World D)
  | .tick elapsed => some { w with now := w.now + elapsed }
  | .login r subject peer =>
    if (w.calls r).ended then some (w.put r (.login subject peer)) else none
  | .reset r peer =>
    if (w.calls r).ended then some (w.put r (.queueing [] peer)) else none
  | .clock r =>
    match w.calls r with
    | .login subject peer => some (w.put r (.identifying subject peer w.now))
    | .queueing charges peer => some (w.put r (.addressing charges peer w.now))
    | _ => none
  | .charge r =>
    match w.calls r with
    | .identifying subject peer now =>
      let key : Key D := ⟨.identifier, subject⟩
      if (w.rows key).lockedFrom r then none
      else
        let seen := (w.rows key).seen r
        let row := charged now seen
        let charges : Charges D := [(key, ⟨startsWindow now seen, row.attempts⟩)]
        let w := w.write r key fun _ => some row
        if row.attempts > identifierLimit then
          -- a refused attempt takes no turn
          some (w.put r (.committing charges none .refused))
        else
          match peer with
          | none => some (w.put r (.committing charges none (.accepted (holdFor charges 0))))
          | some peer => some (w.put r (.queueing charges peer))
    | .addressing charges peer now =>
      let key : Key D := ⟨.address, peer⟩
      if (w.rows key).lockedFrom r then none
      else
        let seen := (w.rows key).seen r
        let row := charged now seen
        let charges := charges ++ [(key, ⟨startsWindow now seen, row.attempts⟩)]
        let w := w.write r key fun _ => some row
        some (w.put r (.reserving charges peer row.attempts row.notBefore))
    | _ => none
  | .reserve r =>
    match w.calls r with
    | .reserving charges peer attempts taken =>
      match delayFor attempts with
      | none => some ((w.rollback r).put r .failed)
      | some delay =>
        let turn := max (taken.getD w.now) w.now + delay
        let waiting := turn - w.now
        if waiting > maxQueue then some (w.put r (.committing charges none .busy))
        else
          let queued := w.write r ⟨.address, peer⟩ fun row =>
            row.map fun row => { row with notBefore := some turn }
          some (queued.put r (.committing charges (some turn) (.accepted (holdFor charges waiting))))
    | _ => none
  | .commit r =>
    match w.calls r with
    | .committing charges turn answer =>
      some ((w.commit r charges turn answer).put r (.answered answer))
    | _ => none
  | .fail r => if (w.calls r).ended then none else some ((w.rollback r).put r .failed)
  | .prune key =>
    match (w.rows key).committed with
    | some row =>
      if row.expiresAt < w.now ∧ (w.rows key).held = none then
        some { w with rows := Function.update w.rows key ⟨none, none⟩ }
      else none
    | none => none

/-- No attempt has been made. -/
def start : World D where
  rows _ := ⟨none, none⟩
  calls _ := .idle
  now := 0
  history _ := []

def machine : Machine (World D) (Label D) := ⟨fun w => w = start, step⟩

end Potocolom.Limits
