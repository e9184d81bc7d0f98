import Potocolom.Deletion.Machine

/-! # Who is in charge

`roles.change_role`, `states.change_state`, `deletion.delete_account`,
`deletion.restore` and `operator.reclaim_restore` on all the accounts of an
installation. A transaction takes the key of its account, and a change takes the one
key of all changes as well; each holds them until it ends. A step is a statement, or
the commit with the write before it: nobody sees a write that is not committed, and
nobody else writes a row in between. -/

namespace Potocolom.Administrators

open Accounts Deletion

inductive Request where
  | changeRole (actor target : Nat) (role : Role) (attested recent : Bool)
  | changeState (actor target : Nat) (state : AccountState) (offered : ¬ state = .purging)
  | deleteAccount (user : Nat)
  | restore (target : Nat)
  | reclaimRestore (target : Nat)
deriving DecidableEq

namespace Request

/-- The account that is read and written. -/
def account : Request → Nat
  | changeRole _ target _ _ _ => target
  | changeState _ target _ _ => target
  | deleteAccount user => user
  | restore target => target
  | reclaimRestore target => target

/-- `change_role` and `change_state`. -/
def changes : Request → Bool
  | changeRole _ _ _ _ _ => true
  | changeState _ _ _ _ => true
  | deleteAccount _ => false
  | restore _ => false
  | reclaimRestore _ => false

/-- `hold_the_account` is called; the offline command takes no key. -/
def keyed : Request → Bool
  | changeRole _ _ _ _ _ => true
  | changeState _ _ _ _ => true
  | deleteAccount _ => true
  | restore _ => true
  | reclaimRestore _ => false

/-- `user_id == actor.id` is refused before any transaction. -/
def ownAccount : Request → Bool
  | changeRole actor target _ _ _ => decide (target = actor)
  | changeState actor target _ _ => decide (target = actor)
  | deleteAccount _ => false
  | restore _ => false
  | reclaimRestore _ => false

/-- The row is read again under the key of all changes: `change_role` has read it
before it takes that key. -/
def readsLocked : Request → Bool
  | changeRole _ _ _ _ _ => false
  | changeState _ _ _ _ => true
  | deleteAccount _ => false
  | restore _ => false
  | reclaimRestore _ => false

end Request

/-- An open transaction: the row it read, and the row it will write. -/
structure Transaction where
  request : Request
  loaded : Option User
  updated : Option User
deriving DecidableEq

structure World where
  accounts : List Nat
  users : Nat → User
  transactions : Nat → Option Transaction
  /-- Which transaction holds the key of an account. -/
  keys : Nat → Option Nat
  /-- Which one holds `ROLE_CHANGE_LOCK`, which `STATE_CHANGE_LOCK` equals. -/
  changing : Option Nat

/-- An active administrator. -/
def Administers (user : User) : Prop := user.role = .admin ∧ user.state = .active

instance (user : User) : Decidable (Administers user) := instDecidableAnd

/-- An account without its other tables, which the checks below do not read. -/
def bare (user : User) : Account := ⟨user, [], none, [], [], [], [], 0⟩

namespace World

variable (s : World)

def Administered : Prop := ∃ x ∈ s.accounts, Administers (s.users x)

/-- `_remaining_administrators` is not zero. -/
def remain (excluding : Nat) : Bool :=
  s.accounts.any fun x => decide (x ≠ excluding ∧ Administers (s.users x))

def setTransaction (n : Nat) (tx : Option Transaction) : World :=
  { s with transactions := Function.update s.transactions n tx }

/-- The transaction ends, and its keys are free. -/
def ends (n : Nat) : World :=
  { s with
    transactions := Function.update s.transactions n none
    keys := fun x => if s.keys x = some n then none else s.keys x
    changing := if s.changing = some n then none else s.changing }

def setUser (x : Nat) (user : User) : World :=
  { s with users := Function.update s.users x user }

/-- The `UPDATE` of the columns that changed since the row was read, and the commit. -/
def writes (n x : Nat) (loaded updated : User) : World :=
  (s.setUser x (writeColumns loaded updated (s.users x))).ends n

end World

inductive Label where
  /-- A request opens its transaction, with the key of its account where it takes it. -/
  | begins (n : Nat) (request : Request)
  | reads (n : Nat)
  /-- A change takes the key of all changes. -/
  | locks (n : Nat)
  /-- A change is checked, against the count of the remaining administrators. -/
  | checks (n : Nat)
  | commits (n : Nat) (now : Time)
  /-- It fails, or gives up waiting for a key. -/
  | aborts (n : Nat)
deriving DecidableEq

/-- The row that a change leaves, if it is admitted and changes anything. -/
def Request.admits (request : Request) (user : User) (othersRemain : Bool) : Option User :=
  match request with
  | .changeRole _ _ role attested recent =>
    match (bare user).changeRole ⟨role, attested, false, recent, othersRemain⟩ 0 with
    | .ok account => some account.user
    | .error _ => none
  | .changeState _ _ state offered =>
    match (bare user).changeState ⟨state, offered, false, othersRemain⟩ 0 with
    | .ok (some account) => some account.user
    | .ok none => none
    | .error _ => none
  | .deleteAccount _ => none
  | .restore _ => none
  | .reclaimRestore _ => none

/-- The end of a transaction that has come through. -/
def World.commit (s : World) (n : Nat) (tx : Transaction) (now : Time) : Option World :=
  match tx.request with
  | .changeRole _ target _ _ _ =>
    match tx.loaded, tx.updated with
    | some loaded, some updated => some (s.writes n target loaded updated)
    | _, _ => none
  | .changeState _ target _ _ =>
    match tx.loaded, tx.updated with
    | some loaded, some updated => some (s.writes n target loaded updated)
    | _, _ => none
  | .deleteAccount user =>
    match (bare (s.users user)).request now with
    | some account => some ((s.setUser user account.user).ends n)
    | none => some (s.ends n)
  | .restore target =>
    match tx.loaded with
    | none => none
    | some loaded =>
      match (bare loaded).restore now with
      | .ok (some account) => some (s.writes n target loaded account.user)
      | .ok none => some (s.ends n)
      | .error _ => some (s.ends n)
  | .reclaimRestore target =>
    match tx.loaded with
    | none => none
    | some loaded =>
      -- an account that is being purged is refused
      if loaded.state = .purging then some (s.ends n)
      else some (s.writes n target loaded (reclaimed loaded))

def step (s : World) : Label → Option World
  | .begins n request =>
    if s.transactions n = none ∧ request.ownAccount = false then
      let begun := s.setTransaction n (some ⟨request, none, none⟩)
      if request.keyed = true then
        if s.keys request.account = none then
          some { begun with keys := Function.update s.keys request.account (some n) }
        else none
      else some begun
    else none
  | .reads n =>
    match s.transactions n with
    | none => none
    | some tx =>
      if tx.loaded = none ∧ (tx.request.readsLocked = true → s.changing = some n) then
        if tx.request.account ∈ s.accounts then
          some (s.setTransaction n (some { tx with loaded := some (s.users tx.request.account) }))
        else some (s.ends n)
      else none
  | .locks n =>
    match s.transactions n with
    | none => none
    | some tx =>
      if tx.request.changes = true ∧ s.changing = none ∧
          (tx.request.readsLocked = false → tx.loaded.isSome = true) then
        some { s with changing := some n }
      else none
  | .checks n =>
    match s.transactions n with
    | none => none
    | some tx =>
      match tx.loaded with
      | none => none
      | some loaded =>
        if s.changing = some n ∧ tx.updated = none then
          match tx.request.admits loaded (s.remain tx.request.account) with
          | some updated => some (s.setTransaction n (some { tx with updated := some updated }))
          | none => some (s.ends n)
        else none
  | .commits n now =>
    match s.transactions n with
    | none => none
    | some tx => s.commit n tx now
  | .aborts n =>
    match s.transactions n with
    | none => none
    | some _ => some (s.ends n)

/-- Any accounts, and no transaction. -/
def machine : Machine World Label :=
  ⟨fun s => (∀ n, s.transactions n = none) ∧ (∀ x, s.keys x = none) ∧ s.changing = none, step⟩

end Potocolom.Administrators
