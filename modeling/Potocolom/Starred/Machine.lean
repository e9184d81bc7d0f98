import Potocolom.Lib.Machine
import Potocolom.Lib.Runs

/-! # The starred list of the studio

A toggle changes the list at once and asks the server afterwards; it is rolled back when the
server refuses. Toggles of one generation wait for each other. The list of the server is
loaded anew when the last pending toggle is settled and one of them succeeded, and a snapshot
of it is dropped when a toggle or another load came in between. -/

namespace Potocolom.Starred

open Runs

variable {α : Type} [DecidableEq α]

/-! ## Optimistic changes -/

structure OptimisticStarMutation (α : Type) where
  id : α
  wasStarred : Bool
  previousIndex : Nat
deriving DecidableEq

def beginOptimisticStarMutation (starredIds : List α) (id : α) :
    List α × OptimisticStarMutation α :=
  let wasStarred := decide (id ∈ starredIds)
  (if wasStarred then starredIds.filter fun starredId => starredId ≠ id else id :: starredIds,
    ⟨id, wasStarred, starredIds.idxOf id⟩)

def rollbackOptimisticStarMutation (starredIds : List α) (mutation : OptimisticStarMutation α) :
    List α :=
  if mutation.wasStarred = false then
    starredIds.filter fun starredId => starredId ≠ mutation.id
  else if mutation.id ∈ starredIds then starredIds
  else starredIds.insertIdx (min mutation.previousIndex starredIds.length) mutation.id

/-- The list is dirty from now on, and loaded anew at once. -/
def settleStarredListMutation (dirty mutationSucceeded : Bool) (pendingMutations : Nat) :
    Bool × Bool :=
  let nextDirty := dirty || mutationSucceeded
  (nextDirty, nextDirty && pendingMutations == 0)

def starredListSnapshotIsCurrent (requestEpoch currentRequestEpoch mutationEpoch
    currentMutationEpoch : Nat) (mutationPending : Bool) : Bool :=
  requestEpoch == currentRequestEpoch && mutationEpoch == currentMutationEpoch &&
    !mutationPending

/-- The number of favorites on a page. -/
def pageLimit : Nat := 200

/-- The loop of `loadStarredGenerations` over the pages of one listing. -/
def collect (listing : List α) : Nat → Option α → List α
  | 0, _ => []
  | fuel + 1, cursor =>
    let page := ((cursor.map fun id => after id listing).getD listing).take pageLimit
    if page.length < pageLimit then page
    else
      match page.getLast? with
      | none => page
      | some nextCursor =>
        if some nextCursor = cursor then page
        else page ++ collect listing fuel (some nextCursor)

/-! ## The state -/

/-- A toggle whose request is under way. -/
structure Sending (α : Type) where
  mutation : OptimisticStarMutation α
  token : Nat
  /-- The server has accepted the request. -/
  applied : Bool
deriving DecidableEq

inductive Stage (α : Type) where
  | waiting
  | sending (sending : Sending α)
  /-- The toggle is settled, and waits for the load of the list it began. -/
  | settled (reload : Option Nat)
  | resolved
deriving DecidableEq

/-- A call of `toggleStarred`, and the operation it is chained to. -/
structure Operation (α : Type) where
  id : α
  previous : Option Nat
  stage : Stage α
deriving DecidableEq

/-- A call of `loadStarredGenerations` that is under way: the mutation epoch it began in, the
place of its begin in the trace, and the server's list once it was read. -/
structure ListLoad (α : Type) where
  mutationEpoch : Nat
  began : Nat
  listing : Option (List α)
deriving DecidableEq

/-- How a call of `loadStarredGenerations` ended. -/
inductive Outcome where
  | accepted
  | dropped
  | failed
deriving DecidableEq

/-- What has happened, for statements about the order of things. -/
inductive Event (α : Type) where
  | begun (id : α)
  | settled (id : α) (succeeded : Bool)
  | accepted (requestEpoch : Nat)
deriving DecidableEq

structure Studio (α : Type) where
  starredIds : List α
  starredListDirty : Bool
  starredListRequestEpoch : Nat
  starredMutationEpoch : Nat
  starredMutationSequence : Nat
  pendingStarredMutations : List Nat
  starredMutationQueues : α → Option Nat
  /-- The calls of `toggleStarred`, by their number. -/
  operations : Nat → Option (Operation α)
  calls : Nat
  /-- The calls of `loadStarredGenerations`, by their request epoch. -/
  loads : Nat → Option (ListLoad α)
  outcome : Nat → Option Outcome
  /-- What the server has starred. -/
  server : List α
  trace : List (Event α)

namespace Studio

/-- `loadStarredGenerations`, as far as its first request. -/
def load (s : Studio α) : Studio α :=
  let requestEpoch := s.starredListRequestEpoch + 1
  { s with
    starredListRequestEpoch := requestEpoch
    loads := Function.update s.loads requestEpoch
      (some ⟨s.starredMutationEpoch, s.trace.length, none⟩) }

/-- `toggleStarred` -/
def toggle (s : Studio α) (id : α) : Studio α :=
  { s with
    operations := Function.update s.operations s.calls
      (some ⟨id, s.starredMutationQueues id, .waiting⟩)
    calls := s.calls + 1
    starredMutationQueues := Function.update s.starredMutationQueues id (some s.calls) }

/-- The queue of a generation is empty again. -/
def clean (s : Studio α) (id : α) : Studio α :=
  { s with starredMutationQueues := Function.update s.starredMutationQueues id none }

def setStage (s : Studio α) (n : Nat) (operation : Operation α) (stage : Stage α) : Studio α :=
  { s with operations := Function.update s.operations n (some { operation with stage := stage }) }

/-- `performStarredToggle`, as far as its request. -/
def perform (s : Studio α) (n : Nat) (operation : Operation α) : Studio α :=
  let optimistic := beginOptimisticStarMutation s.starredIds operation.id
  let mutationToken := s.starredMutationSequence + 1
  { s.setStage n operation (.sending ⟨optimistic.2, mutationToken, false⟩) with
    starredMutationSequence := mutationToken
    pendingStarredMutations := s.pendingStarredMutations ++ [mutationToken]
    starredMutationEpoch := s.starredMutationEpoch + 1
    starredIds := optimistic.1
    trace := s.trace ++ [Event.begun operation.id] }

/-- `settleMutation`, as far as the load it waits for. -/
def settleMutation (s : Studio α) (n : Nat) (operation : Operation α) (sending : Sending α)
    (succeeded : Bool) : Studio α :=
  let pending := s.pendingStarredMutations.erase sending.token
  let decision := settleStarredListMutation s.starredListDirty succeeded pending.length
  let s := { s with
    pendingStarredMutations := pending
    starredListDirty := decision.1
    trace := s.trace ++ [Event.settled operation.id succeeded] }
  if decision.2 then
    (s.load).setStage n operation (.settled (some (s.starredListRequestEpoch + 1)))
  else s.setStage n operation (.settled none)

def rollback (s : Studio α) (sending : Sending α) : Studio α :=
  { s with starredIds := rollbackOptimisticStarMutation s.starredIds sending.mutation }

/-- The server accepts the `POST` or `DELETE` of a toggle. -/
def apply (s : Studio α) (n : Nat) (operation : Operation α) (sending : Sending α) : Studio α :=
  { s.setStage n operation (.sending { sending with applied := true }) with
    server := if sending.mutation.wasStarred then s.server.filter fun x => x ≠ operation.id
      else if operation.id ∈ s.server then s.server else operation.id :: s.server }

/-- The list was read from the server. -/
def answer (s : Studio α) (requestEpoch : Nat) (load : ListLoad α) (listing : List α) :
    Studio α :=
  { s with
    loads := Function.update s.loads requestEpoch (some { load with listing := some listing }) }

/-- The end of `loadStarredGenerations`, when every page is there. -/
def receive (s : Studio α) (requestEpoch : Nat) (load : ListLoad α) (listing : List α) :
    Studio α :=
  let favorites := collect listing (listing.length + 1) none
  let s := { s with loads := Function.update s.loads requestEpoch none }
  if starredListSnapshotIsCurrent requestEpoch s.starredListRequestEpoch load.mutationEpoch
      s.starredMutationEpoch (decide (s.pendingStarredMutations.length > 0)) then
    { s with
      starredListDirty := false
      starredIds := favorites
      outcome := Function.update s.outcome requestEpoch (some .accepted)
      trace := s.trace ++ [.accepted requestEpoch] }
  else { s with outcome := Function.update s.outcome requestEpoch (some .dropped) }

/-- A request of `loadStarredGenerations` fails. -/
def abort (s : Studio α) (requestEpoch : Nat) : Studio α :=
  { s with
    loads := Function.update s.loads requestEpoch none
    outcome := Function.update s.outcome requestEpoch (some .failed) }

/-- An operation is resolved, or there is none. -/
def Resolved (s : Studio α) (previous : Option Nat) : Prop :=
  ∀ p ∈ previous, (s.operations p).map (·.stage) = some .resolved

instance (s : Studio α) (previous : Option Nat) : Decidable (s.Resolved previous) :=
  inferInstanceAs (Decidable (∀ p ∈ previous, _))

end Studio

/-! ## The machine -/

inductive Label (α : Type) where
  | toggles (id : α)
  /-- The turn of a toggle comes. -/
  | performs (n : Nat)
  /-- The server accepts the toggle's request. -/
  | applies (n : Nat)
  | succeeds (n : Nat)
  /-- The server refuses the request, or it does not reach the server. -/
  | fails (n : Nat)
  | resolves (n : Nat)
  /-- The queue of the toggle's generation ends with it. -/
  | cleans (n : Nat)
  | loads
  /-- The pages of the list are read; they are those of one moment. -/
  | answers (requestEpoch : Nat) (listing : List α)
  | receives (requestEpoch : Nat)
  | aborts (requestEpoch : Nat)

def step (s : Studio α) : Label α → Option (Studio α)
  | .toggles id => some (s.toggle id)
  | .performs n =>
    match s.operations n with
    | some ⟨id, previous, .waiting⟩ =>
      if s.Resolved previous then some (s.perform n ⟨id, previous, .waiting⟩) else none
    | _ => none
  | .applies n =>
    match s.operations n with
    | some ⟨id, previous, .sending sending⟩ =>
      if sending.applied then none
      else some (s.apply n ⟨id, previous, .sending sending⟩ sending)
    | _ => none
  | .succeeds n =>
    match s.operations n with
    | some ⟨id, previous, .sending sending⟩ =>
      if sending.applied then
        some (s.settleMutation n ⟨id, previous, .sending sending⟩ sending true)
      else none
    | _ => none
  | .fails n =>
    match s.operations n with
    | some ⟨id, previous, .sending sending⟩ =>
      if sending.applied then none
      else
        some ((s.rollback sending).settleMutation n ⟨id, previous, .sending sending⟩ sending false)
    | _ => none
  | .resolves n =>
    match s.operations n with
    | some ⟨id, previous, .settled reload⟩ =>
      if ∀ requestEpoch ∈ reload, s.loads requestEpoch = none then
        some (s.setStage n ⟨id, previous, .settled reload⟩ .resolved)
      else none
    | _ => none
  | .cleans n =>
    match s.operations n with
    | some ⟨id, _, .resolved⟩ =>
      some (if s.starredMutationQueues id = some n then s.clean id else s)
    | _ => none
  | .loads => some s.load
  | .answers requestEpoch listing =>
    match s.loads requestEpoch with
    | some ⟨mutationEpoch, began, none⟩ =>
      if listing.Nodup ∧ (∀ id ∈ listing, id ∈ s.server) ∧ ∀ id ∈ s.server, id ∈ listing then
        some (s.answer requestEpoch ⟨mutationEpoch, began, none⟩ listing)
      else none
    | _ => none
  | .receives requestEpoch =>
    match s.loads requestEpoch with
    | some ⟨mutationEpoch, began, some listing⟩ =>
      some (s.receive requestEpoch ⟨mutationEpoch, began, some listing⟩ listing)
    | _ => none
  | .aborts requestEpoch =>
    if (s.loads requestEpoch).isSome then some (s.abort requestEpoch) else none

/-- Nothing has been asked for yet. -/
structure Start (s : Studio α) : Prop where
  dirty : s.starredListDirty = false
  pending : s.pendingStarredMutations = []
  queues : ∀ id, s.starredMutationQueues id = none
  operations : ∀ n, s.operations n = none
  calls : s.calls = 0
  loads : ∀ r, s.loads r = none
  outcome : ∀ r, s.outcome r = none
  trace : s.trace = []

def machine (α : Type) [DecidableEq α] : Machine (Studio α) (Label α) := ⟨Start, step⟩

end Potocolom.Starred
