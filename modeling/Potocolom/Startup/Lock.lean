import Potocolom.Lib.Machine
import Potocolom.Lib.Tally

/-! # The startup lock

`hold_local_startup_lock` of `db.py`: any number of tasks of a process, each on an event loop of
its own or a shared one, and any number of processes before one database. A step is what a task
does between two awaits or up to the next acquisition of `_lock_guard`. Futures and connections
are known by the numbers of their creation. -/

namespace Potocolom.Startup

/-- `concurrent.futures.Future` -/
inductive Future where
  | pending
  | result
  | exception
deriving DecidableEq, Repr

/-- Where a task stands in `hold_local_startup_lock`. -/
inductive Pc where
  | outside
  /-- It awaits the shielded acquisition. -/
  | waiting (acquisition : Nat)
  /-- It awaits `asyncpg.connect`. -/
  | connecting (acquisition : Nat)
  /-- It awaits `pg_try_advisory_lock`. -/
  | querying (acquisition connection : Nat)
  /-- It awaits `connection.close` of a failed acquisition. -/
  | abandoning (acquisition connection : Nat)
  /-- Before the section that fails the acquisition. -/
  | failing (acquisition : Nat)
  /-- Before the section that completes it. -/
  | acquired (acquisition connection : Nat)
  /-- At `yield`. -/
  | body (first : Bool)
  /-- Before `_release_startup_lock_borrower`. -/
  | releasing
  /-- Before the first section of `_finish_startup_lock_owner`. -/
  | finishing
  /-- It awaits `_lock_borrowers_done`. -/
  | waitingBorrowers (borrowersDone : Nat) (cancelled : Bool)
  /-- Before its second section. -/
  | clearing (cancelled : Bool)
  /-- It awaits `connection.close` in `_close_startup_lock_connection`. -/
  | closing (connection : Nat) (cancelled : Bool)
  /-- Before its last section. -/
  | resetting
  /-- An assertion, a count that is not one, or a future completed twice. -/
  | fault
deriving DecidableEq, Repr

/-- The tasks that `_lock_holders` counts. -/
def Pc.counted : Pc → Bool
  | .outside | .closing _ _ | .resetting | .fault => false
  | _ => true

/-- The globals of a process, its futures, its connections and its tasks. -/
structure Process (T : Type) where
  lockHolders : Int
  lockConnection : Option Nat
  lockOwnerLoop : Option Nat
  lockAcquisition : Option Nat
  lockBorrowersDone : Option Nat
  lockClosing : Bool
  futures : Nat → Future
  created : Nat
  opened : Finset Nat
  connected : Nat
  pc : T → Pc

namespace Process

variable {T : Type} [DecidableEq T] (s : Process T) (t : T)

/-- The task goes on to another place. -/
def goTo (x : Pc) : Process T := { s with pc := Function.update s.pc t x }

/-- `set_result` and `set_exception`, which raise `InvalidStateError` for a future that is done. -/
def complete (future : Nat) (value : Future) (next : Process T → Process T) : Process T :=
  if s.futures future = .pending then
    next { s with futures := Function.update s.futures future value }
  else s.goTo t .fault

/-- The section on the way in. -/
def enter : Process T :=
  -- `RuntimeError` while it closes
  if s.lockClosing then s
  else if s.lockHolders = 0 then
    { s with
      lockHolders := s.lockHolders + 1
      lockAcquisition := some s.created
      lockBorrowersDone := some (s.created + 1)
      futures := Function.update (Function.update s.futures s.created .pending)
        (s.created + 1) .pending
      created := s.created + 2 }.goTo t (.connecting s.created)
  else
    { s with lockHolders := s.lockHolders + 1 }.goTo t (match s.lockAcquisition with
      | none => .body false
      | some acquisition => .waiting acquisition)

/-- The section behind a failed acquisition. -/
def failAcquisition (acquisition : Nat) : Process T :=
  let s := { s with lockHolders := s.lockHolders - 1 }
  let s := if s.lockHolders = 0 then
    { s with lockAcquisition := none, lockBorrowersDone := none } else s
  s.complete t acquisition .exception fun s => s.goTo t .outside

/-- The section behind a successful one. -/
def completeAcquisition (acquisition connection loop : Nat) : Process T :=
  { s with
    lockConnection := some connection
    lockOwnerLoop := some loop
    lockAcquisition := none }.complete t acquisition .result fun s => s.goTo t (.body true)

/-- The last lines of `_release_startup_lock_borrower`. -/
def forget : Process T :=
  if s.lockHolders = 0 ∧ s.lockConnection = none then
    { s with lockAcquisition := none, lockBorrowersDone := none } else s

/-- `_release_startup_lock_borrower` -/
def releaseStartupLockBorrower : Process T :=
  let s := { s with lockHolders := s.lockHolders - 1 }
  match s.lockBorrowersDone with
  | some borrowersDone =>
    if s.lockClosing = true ∧ s.lockHolders = 1 then
      s.complete t borrowersDone .result fun s => s.forget.goTo t .outside
    else s.forget.goTo t .outside
  | none => s.forget.goTo t .outside

/-- The first section of `_finish_startup_lock_owner`. -/
def beginFinish : Process T :=
  let s := { s with lockClosing := true }
  if s.lockHolders > 1 then
    match s.lockBorrowersDone with
    | some borrowersDone => s.goTo t (.waitingBorrowers borrowersDone false)
    | none => s.goTo t .fault
  else s.goTo t (.clearing false)

/-- Its second section, and the check of `_close_startup_lock_connection`. -/
def clear (loop : Nat) (cancelled : Bool) : Process T :=
  if s.lockHolders ≠ 1 then s.goTo t .fault
  else
    { s with lockHolders := 0, lockConnection := none, lockOwnerLoop := none }.goTo t
      (match s.lockConnection with
      | some connection =>
        if s.lockOwnerLoop = some loop then .closing connection cancelled else .resetting
      | none => .resetting)

/-- Its last section. -/
def reset : Process T :=
  { s with lockAcquisition := none, lockBorrowersDone := none, lockClosing := false }.goTo t .outside

/-- `asyncpg.connect` returns. -/
def openConnection (acquisition : Nat) : Process T :=
  { s with opened := insert s.connected s.opened, connected := s.connected + 1 }.goTo t
    (.querying acquisition s.connected)

/-- The connection ends. -/
def closeConnection (connection : Nat) : Process T :=
  { s with opened := s.opened.erase connection }

end Process

/-- What a task does next, with the outcome of what it awaits. -/
inductive Event where
  | enter
  /-- The section that it is before. -/
  | go
  /-- The awaited future is done. -/
  | wake
  /-- `CancelledError`, where it waits for a future or closes its connection. -/
  | cancel
  | connect
  | connectFail
  | answer (acquired : Bool)
  /-- The query raises; the server may have taken the lock. -/
  | queryFail (taken : Bool)
  /-- The body ends. -/
  | leave
  | closeReturn
  /-- The close raises; the connection may be left open. -/
  | closeRaise (left : Bool)
deriving DecidableEq, Repr

/-- What a step does at the database. -/
inductive Call where
  | nothing
  /-- The session takes the advisory lock. -/
  | take (connection : Nat)
  | close (connection : Nat)
deriving DecidableEq, Repr

/-- A step of a task on its event loop. -/
def Process.step {T : Type} [DecidableEq T] (loop : Nat) (s : Process T) (t : T) (event : Event) :
    Option (Process T × Call) :=
  match s.pc t, event with
  | .outside, .enter => some (s.enter t, .nothing)
  | .waiting acquisition, .wake =>
    match s.futures acquisition with
    | .pending => none
    | .result => some (s.goTo t (.body false), .nothing)
    | .exception => some (s.goTo t .releasing, .nothing)
  | .waiting _, .cancel => some (s.goTo t .releasing, .nothing)
  | .connecting acquisition, .connect => some (s.openConnection t acquisition, .nothing)
  | .connecting acquisition, .connectFail => some (s.goTo t (.failing acquisition), .nothing)
  | .querying acquisition connection, .answer true =>
    some (s.goTo t (.acquired acquisition connection), .take connection)
  | .querying acquisition connection, .answer false =>
    some (s.goTo t (.abandoning acquisition connection), .nothing)
  | .querying acquisition connection, .queryFail taken =>
    some (s.goTo t (.abandoning acquisition connection),
      if taken then .take connection else .nothing)
  -- a close that raises is followed by `terminate`
  | .abandoning acquisition connection, .closeReturn =>
    some ((s.closeConnection connection).goTo t (.failing acquisition), .close connection)
  | .abandoning acquisition connection, .closeRaise _ =>
    some ((s.closeConnection connection).goTo t (.failing acquisition), .close connection)
  | .failing acquisition, .go => some (s.failAcquisition t acquisition, .nothing)
  | .acquired acquisition connection, .go =>
    some (s.completeAcquisition t acquisition connection loop, .nothing)
  | .body true, .leave => some (s.goTo t .finishing, .nothing)
  | .body false, .leave => some (s.goTo t .releasing, .nothing)
  | .releasing, .go => some (s.releaseStartupLockBorrower t, .nothing)
  | .finishing, .go => some (s.beginFinish t, .nothing)
  | .waitingBorrowers borrowersDone cancelled, .wake =>
    match s.futures borrowersDone with
    | .pending => none
    | .result => some (s.goTo t (.clearing cancelled), .nothing)
    | .exception => some (s.goTo t .fault, .nothing)
  | .waitingBorrowers borrowersDone _, .cancel =>
    some (s.goTo t (.waitingBorrowers borrowersDone true), .nothing)
  | .clearing cancelled, .go => some (s.clear t loop cancelled, .nothing)
  | .closing connection _, .closeReturn =>
    some ((s.closeConnection connection).goTo t .resetting, .close connection)
  | .closing connection cancelled, .closeRaise left =>
    -- behind a cancellation `terminate` is left out
    if cancelled = true ∧ left = true then some (s.goTo t .resetting, .nothing)
    else some ((s.closeConnection connection).goTo t .resetting, .close connection)
  | .closing connection _, .cancel => some (s.goTo t (.closing connection true), .nothing)
  | .resetting, .go => some (s.reset t, .nothing)
  | _, _ => none

/-- The processes and the connection that has the advisory lock. -/
structure World (P T : Type) where
  process : P → Process T
  advisory : Option (P × Nat)

namespace World

variable {P T : Type} [DecidableEq P] [DecidableEq T] (w : World P T) (p : P)

/-- PostgreSQL gives the lock to no second session, and ends it with its session. -/
def serve : Call → Option (World P T)
  | .nothing => some w
  | .take connection =>
    if w.advisory = none ∨ w.advisory = some (p, connection) then
      some { w with advisory := some (p, connection) }
    else none
  | .close connection =>
    some { w with advisory := if w.advisory = some (p, connection) then none else w.advisory }

def step (loop : P → T → Nat) (w : World P T) (l : P × T × Event) : Option (World P T) :=
  match (w.process l.1).step (loop l.1 l.2.1) l.2.1 l.2.2 with
  | none => none
  | some (s, call) =>
    (w.serve l.1 call).map fun w => { w with process := Function.update w.process l.1 s }

end World

/-- The globals as the module defines them, and nothing open. -/
def Process.initial (T : Type) : Process T where
  lockHolders := 0
  lockConnection := none
  lockOwnerLoop := none
  lockAcquisition := none
  lockBorrowersDone := none
  lockClosing := false
  futures _ := .pending
  created := 0
  opened := ∅
  connected := 0
  pc _ := .outside

def World.initial (P T : Type) : World P T := ⟨fun _ => Process.initial T, none⟩

/-- The processes before their database, with the event loop of every task. -/
def machine {P T : Type} [DecidableEq P] [DecidableEq T] (loop : P → T → Nat) :
    Machine (World P T) (P × T × Event) where
  init w := w = World.initial P T
  step := World.step loop

/-- A close that a cancellation interrupts does not leave its connection open. -/
def ClosesBehindCancel {P T : Type} (w : World P T) (l : P × T × Event) : Prop :=
  ∀ connection, (w.process l.1).pc l.2.1 = .closing connection true → l.2.2 ≠ .closeRaise true

end Potocolom.Startup
