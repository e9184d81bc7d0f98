import Potocolom.Accounts.Changes
import Potocolom.Lib.Machine

/-! # Leaving, coming back and being purged

`deletion.py` (`request`, `restore`, `purge_due`, `_purge`), `states.change_state` and
`operator.reclaim_restore` on one account. A transaction under the account key runs
alone among those; `reclaim_restore` takes no key, so its read and its write stand
apart, and the mapper writes the columns it changed since the read. -/

namespace Potocolom.Deletion

open Accounts

/-- The states a deletion passes through. -/
def leaving (state : AccountState) : Prop := state = .deletionPending ∨ state = .purging

instance (state : AccountState) : Decidable (leaving state) := instDecidableOr

/-- The `UPDATE` of a mapped row: the columns that differ from what was loaded. -/
def writeColumns (loaded updated row : User) : User where
  email := if updated.email = loaded.email then row.email else updated.email
  mailVerified :=
    if updated.mailVerified = loaded.mailVerified then row.mailVerified else updated.mailVerified
  role := if updated.role = loaded.role then row.role else updated.role
  state := if updated.state = loaded.state then row.state else updated.state
  priorState := if updated.priorState = loaded.priorState then row.priorState else updated.priorState
  deletionRequestedAt :=
    if updated.deletionRequestedAt = loaded.deletionRequestedAt then row.deletionRequestedAt
    else updated.deletionRequestedAt

/-- The `WHERE` of `purge_due` and of the claim, for a pass that began at `start`. -/
def due (user : User) (start : Time) : Prop :=
  (user.state = .deletionPending ∨ user.state = .purging) ∧
    user.deletionRequestedAt.any fun asked => decide (asked + restoreWindow < start)

instance (user : User) (start : Time) : Decidable (due user start) := instDecidableAnd

/-- What `reclaim_restore` sets on the row it read. -/
def reclaimed (user : User) : User :=
  { user with state := .active, role := .admin, priorState := none, deletionRequestedAt := none }

/-- A transaction under the account key that read the row and has not committed. -/
structure Holder where
  /-- `restore`; otherwise `change_state`. -/
  restores : Bool
  loaded : Account
  updated : Account
deriving DecidableEq

/-- One account in one pass of `purge_due`. -/
inductive Purge where
  | idle
  /-- The pass took its cutoff at this time. -/
  | begun (start : Time)
  /-- The account was among the due. -/
  | selected (start : Time)
  /-- `_purge` claimed it. -/
  | claimed
  /-- Its objects are gone. -/
  | emptied
deriving DecidableEq, Repr

/-- A destruction of the account's objects or rows: when, and since when the account
had been on its way out. -/
structure Destruction where
  time : Time
  since : Option Time
deriving DecidableEq, Repr

/-- The account, the transactions and passes under way, and what happened. -/
structure World where
  now : Time
  /-- `none` once its rows are deleted. -/
  account : Option Account
  holder : Option Holder
  purges : Nat → Purge
  /-- The rows that `reclaim_restore` read. -/
  reclaims : Nat → Option User
  /-- Since when the account has been in `deletion_pending`, then `purging`. -/
  since : Option Time
  /-- The state it held before it last entered `deletion_pending`. -/
  before : AccountState
  destroyed : List Destruction
  /-- The states that restores gave, each with what was then `before`. -/
  restored : List (AccountState × AccountState)

namespace World

/-- Commit the account's rows, and note when it enters or leaves the way out. -/
def write (s : World) (old new : Account) : World :=
  { s with
    account := some new
    since :=
      if leaving new.user.state then
        if leaving old.user.state then s.since else some s.now
      else none
    before :=
      if leaving new.user.state ∧ ¬ leaving old.user.state then old.user.state else s.before }

def setPurge (s : World) (p : Nat) (stage : Purge) : World :=
  { s with purges := Function.update s.purges p stage }

def destroy (s : World) : World := { s with destroyed := s.destroyed ++ [⟨s.now, s.since⟩] }

end World

/-- What happens next. -/
inductive Action where
  | tick (seconds : Time)
  | deleteAccount
  /-- `restore` reads the row. -/
  | restore
  /-- `change_state` reads the row. -/
  | changeState (change : StateChange)
  /-- The transaction that holds the key commits. -/
  | commit
  /-- It is rolled back. -/
  | rollBack
  | reclaimReads (r : Nat)
  | reclaimWrites (r : Nat)
  /-- `purge_due` takes its cutoff. -/
  | begins (p : Nat)
  | selects (p : Nat)
  | claims (p : Nat)
  /-- `purge_keys`. -/
  | empties (p : Nat)
  | deletes (p : Nat)
  /-- The pass gives the account up. -/
  | fails (p : Nat)
deriving DecidableEq

/-- One step. -/
def step (s : World) : Action → Option World
  | .tick seconds => some { s with now := s.now + seconds }
  | .deleteAccount =>
    match s.holder, s.account with
    | none, some a => (a.request s.now).map fun b => s.write a b
    | _, _ => none
  | .restore =>
    match s.holder, s.account with
    | none, some a =>
      match a.restore s.now with
      | .ok (some b) => some { s with holder := some ⟨true, a, b⟩ }
      | _ => none
    | _, _ => none
  | .changeState change =>
    match s.holder, s.account with
    | none, some a =>
      match a.changeState change s.now with
      | .ok (some b) => some { s with holder := some ⟨false, a, b⟩ }
      | _ => none
    | _, _ => none
  | .commit =>
    match s.holder, s.account with
    | some h, some a =>
      let new : Account := { h.updated with user := writeColumns h.loaded.user h.updated.user a.user }
      let restored :=
        if h.restores then s.restored ++ [(new.user.state, s.before)] else s.restored
      some { s.write a new with holder := none, restored := restored }
    | _, _ => none
  | .rollBack => s.holder.map fun _ => { s with holder := none }
  | .reclaimReads r =>
    match s.reclaims r, s.account with
    | none, some a =>
      if a.user.state = .purging then none
      else some { s with reclaims := Function.update s.reclaims r (some a.user) }
    | _, _ => none
  | .reclaimWrites r =>
    match s.reclaims r, s.account with
    | some loaded, some a =>
      let new : Account := { a with user := writeColumns loaded (reclaimed loaded) a.user }
      some { s.write a new with reclaims := Function.update s.reclaims r none }
    | _, _ => none
  | .begins p => if s.purges p = .idle then some (s.setPurge p (.begun s.now)) else none
  | .selects p =>
    match s.purges p, s.account with
    | .begun start, some a =>
      if due a.user start then some (s.setPurge p (.selected start)) else none
    | _, _ => none
  | .claims p =>
    match s.purges p, s.holder, s.account with
    | .selected start, none, some a =>
      match a.claimPurge start with
      | some b => some ((s.write a b).setPurge p .claimed)
      | none => some (s.setPurge p .idle)
    | _, _, _ => none
  | .empties p => if s.purges p = .claimed then some (s.destroy.setPurge p .emptied) else none
  | .deletes p =>
    if s.purges p = .emptied ∧ s.holder = none then
      some ({ s.destroy with account := none }.setPurge p .idle)
    else none
  | .fails p => some (s.setPurge p .idle)

/-- One account's deletion, from any account that is not on its way out. -/
def deletionMachine : Machine World Action where
  init s :=
    (∃ a, s.account = some a ∧ ¬ leaving a.user.state) ∧ s.holder = none ∧
      (∀ p, s.purges p = .idle) ∧ (∀ r, s.reclaims r = none) ∧ s.since = none ∧
      s.destroyed = [] ∧ s.restored = []
  step := step

/-! ## The two ways around the window -/

/-- A write of `reclaim_restore` that does no harm: it does not take the account out of
`purging`, and it does not clear the stamp or the prior state of a deletion asked for
since it read the row. -/
def reclaimInTime (loaded row : User) : Prop :=
  (row.state = .purging → loaded.state = .active) ∧
    (row.state = .deletionPending → loaded.state = .active →
      loaded.deletionRequestedAt = none ∧ loaded.priorState = none)

/-- No `change_state` commits a move to `deletion_pending`, and `reclaim_restore` writes
in time. -/
def windowStep (s : World) : Action → Prop
  | .commit => ∀ h ∈ s.holder, h.restores = false → h.updated.user.state ≠ .deletionPending
  | .reclaimWrites r => ∀ loaded ∈ s.reclaims r, ∀ a ∈ s.account, reclaimInTime loaded a.user
  | _ => True

instance (loaded row : User) : Decidable (reclaimInTime loaded row) := instDecidableAnd

instance (s : World) (l : Action) : Decidable (windowStep s l) := by
  unfold windowStep
  split <;> infer_instance

end Potocolom.Deletion
