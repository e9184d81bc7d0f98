import Potocolom.Journal.Invariant

/-! # The worker's ledger and the link to it

`Protocol6CommandLedger` (`client.py`) deduplicates the commands of one
connection; `_run_v6_delivery` (`realtime.py`) is the API's only sender of them.
The link machine puts the two together: every transaction of the store, the
delivery task, a FIFO socket to the worker, and the acknowledgements on their way
back, which may be delayed, repeated and reordered at will. -/

namespace Potocolom.Journal

open Guard

/-! ## The ledger -/

/-- `MAX_WORKER_CONTROL_BYTES`. -/
def maxWorkerControlBytes : Nat := 16 * 1024

/-- `Protocol6CommandLedger._MAX_RETAINED`. -/
def ledgerRetained : Nat := 256

/-- `_command_ack_fields`, with the answer filled in. -/
def commandAck (command : Command) (status : String) (code : Option String)
    (expectedSequence : Option Nat) : Ack :=
  { header := command.header, bodyHash := command.bodyHash, subject := command.fields.subject
    status := status, code := code, expectedSequence := expectedSequence }

/-- A remembered answer. The acknowledgement stands for its canonical text, which
it determines. -/
structure Saved where
  sequence : Nat
  commandId : Uuid
  bodyHash : Hash
  ack : Ack
deriving DecidableEq, Repr

/-- The ledger's state; `results` is in insertion order. -/
structure Protocol6CommandLedger where
  nextSequence : Nat
  results : List Saved

/-- `Protocol6CommandLedger()`. -/
def Protocol6CommandLedger.new : Protocol6CommandLedger := ⟨1, []⟩

/-- `_encode_ack`: only a valid acknowledgement within the size limit has a text. -/
def encodeAck (codec : Codec) (worker : Incarnation) (ack : Ack) : Option Ack :=
  if validateAck ack worker ∧ codec.ackBytes ack ≤ maxWorkerControlBytes then some ack else none

/-- What one call of `handle` does: its answer (`none` when it raises), the
ledger it leaves, and whether it called `apply`. -/
structure Handling where
  answer : Option Ack
  ledger : Protocol6CommandLedger
  applied : Bool

/-- Remember an answer and forget the oldest beyond the limit. -/
def Protocol6CommandLedger.remember (ledger : Protocol6CommandLedger) (command : Command)
    (ack : Ack) : Protocol6CommandLedger :=
  let results := ledger.results ++
    [⟨command.header.commandSequence, command.header.commandId, command.bodyHash, ack⟩]
  { results := if ledgerRetained < results.length then results.tail else results
    nextSequence := min (command.header.commandSequence + 1) maxSequence }

/-- `Protocol6CommandLedger.handle`; `outcome` is what `apply` answers, if it does
not raise. -/
def Protocol6CommandLedger.handle (codec : Codec) (worker : Incarnation)
    (ledger : Protocol6CommandLedger) (command : Command)
    (outcome : Option (String × Option String)) : Handling :=
  let sequence := command.header.commandSequence
  match ledger.results.find? (·.sequence == sequence) with
  | some saved =>
    if saved.commandId = command.header.commandId ∧ saved.bodyHash = command.bodyHash then
      ⟨some saved.ack, ledger, false⟩
    else
      ⟨encodeAck codec worker (commandAck command "refused" (some "sequence_gap")
        (some (min ledger.nextSequence maxSequence))), ledger, false⟩
  | none =>
    if sequence < ledger.nextSequence then
      ⟨encodeAck codec worker (commandAck command "refused" (some "stale_sequence") none), ledger,
        false⟩
    else if ledger.nextSequence < sequence then
      ⟨encodeAck codec worker (commandAck command "refused" (some "sequence_gap")
        (some ledger.nextSequence)), ledger, false⟩
    else
      match outcome with
      | none => ⟨none, ledger, true⟩
      | some (status, code) =>
        match encodeAck codec worker (commandAck command status code none) with
        | none => ⟨none, ledger, true⟩
        | some ack => ⟨some ack, ledger.remember command ack, true⟩

/-! ## The link -/

/-- How `apply_command` ends. -/
inductive ApplyOutcome where
  | accepted
  | unsupported
  | raised
deriving DecidableEq, Repr

/-- What `apply_command` returns, if it returns. -/
def ApplyOutcome.answer : ApplyOutcome → Option (String × Option String)
  | .accepted => some ("accepted", none)
  | .unsupported => some ("refused", some "unsupported_control")
  | .raised => none

/-- `decode_control` and `validate_message` on a received command. -/
def validateCommand (codec : Codec) (command : Command) (worker : Incarnation) : Bool :=
  command.header.worker == worker &&
    decide (1 ≤ command.header.commandSequence ∧ command.header.commandSequence ≤ maxSequence) &&
    command.bodyHash == codec.bodyHash command.header command.fields

/-- Where the delivery task of the worker stands. `registered` remembers the
floor its registration was checked against. -/
inductive Delivery where
  | idle
  | read (command : StoredCommand)
  | registered (command : StoredCommand) (floor : Nat)

/-- A command the delivery task wrote to the socket: the floor it was registered
at and the floor when it was written. -/
structure Sent where
  command : Command
  registeredAt : Nat
  writtenAt : Nat
deriving DecidableEq, Repr

/-- Both parties and the channels between them. -/
structure Link where
  history : History
  delivery : Delivery
  /-- The socket to the worker, oldest first. -/
  down : List Command
  ledger : Protocol6CommandLedger
  /-- Whether the worker still serves the connection. -/
  serving : Bool
  /-- Every command handed to `apply_command`, in order. -/
  applied : List Command
  /-- Every answer the worker gave, with the command it answers. -/
  answers : List (Command × Ack)
  sent : List Sent

/-- The acknowledged floor of `worker`. -/
def Db.floor (db : Db) (worker : Incarnation) : Nat :=
  ((db.connections.get worker).map (·.acknowledgedFloor)).getD 0

/-- An action of the link. -/
inductive LinkStep where
  /-- Any transaction but an acknowledgement from this worker. -/
  | transaction (op : Op)
  /-- The delivery task reads the head of the journal. -/
  | read (transportOwnerId : Uuid) (keyRing : Option KeyRing) (now : Time)
  /-- It registers what it read, under the row locks. -/
  | register (transportOwnerId : Uuid) (accept : Bool) (now : Time)
  /-- It writes what it registered to the socket. -/
  | send
  /-- It ends without sending. -/
  | quit
  /-- The worker handles the next command on its socket. -/
  | receive (outcome : ApplyOutcome)
  /-- The API records one of the worker's answers, new or repeated. -/
  | acknowledge (index : Nat) (transportOwnerId : Uuid) (keyRing : Option KeyRing) (now : Time)

/-- An acknowledgement that comes from `worker`. -/
def Op.acknowledges (op : Op) (worker : Incarnation) : Bool :=
  match op with
  | .acknowledge call => call.expected == worker
  | _ => false

variable (api : Api) (worker : Incarnation)

/-- Run a transaction on the link's database. -/
def Link.transact (s : Link) (op : Op) : Link :=
  { s with history := ⟨op.run api s.history.db, op.note api s.history⟩ }

/-- The worker's side of one received command. A command that fails validation,
and an `apply` that raises, closes the connection. -/
def Link.receive (s : Link) (command : Command) (rest : List Command) (outcome : ApplyOutcome) :
    Link :=
  if validateCommand api.codec command worker then
    let handling := s.ledger.handle api.codec worker command outcome.answer
    { s with
      down := rest
      ledger := handling.ledger
      serving := handling.answer.isSome
      applied := if handling.applied then s.applied ++ [command] else s.applied
      answers := match handling.answer with
        | some ack => s.answers ++ [(command, ack)]
        | none => s.answers }
  else { s with down := rest, serving := false }

/-- One action. -/
def linkStep (s : Link) : LinkStep → Option Link
  | .transaction op => if op.acknowledges worker then none else some (s.transact api op)
  | .read transportOwnerId keyRing now =>
    match s.delivery with
    | .idle =>
      match readExactPending api worker transportOwnerId keyRing now s.history.db with
      | .ok (some command) => some { s with delivery := .read command }
      | _ => some s
    | _ => none
  | .register transportOwnerId accept now =>
    match s.delivery with
    | .read command =>
      match registerDelivery api command worker transportOwnerId accept now s.history.db with
      | .ok () =>
        some { s with delivery := .registered command (s.history.db.floor worker) }
      | .error _ => some { s with delivery := .idle }
    | _ => none
  | .send =>
    match s.delivery with
    | .registered command floor =>
      match command.body with
      | some body =>
        some
          { s with
            delivery := .idle, down := s.down ++ [body]
            sent := s.sent ++ [⟨body, floor, s.history.db.floor worker⟩] }
      | none => none
    | _ => none
  | .quit => some { s with delivery := .idle }
  | .receive outcome =>
    match s.serving, s.down with
    | true, command :: rest => some (s.receive api worker command rest outcome)
    | _, _ => none
  | .acknowledge index transportOwnerId keyRing now =>
    match s.answers[index]? with
    | some (_, ack) =>
      some (s.transact api (.acknowledge ⟨ack, worker, transportOwnerId, keyRing, now⟩))
    | none => none

/-- The link of one connection, from the moment the worker has connected to a
database the store's transactions can reach. -/
def linkMachine : Machine Link LinkStep where
  init s := ∃ h grant, (journalMachine api).Reach Machine.anyStep h ∧
    h.db.connections.get worker = none ∧
    s =
      { history := ⟨(Op.connect worker grant).run api h.db, h.committed⟩
        delivery := .idle, down := [], ledger := .new, serving := true
        applied := [], answers := [], sent := [] }
  step := linkStep api worker

end Potocolom.Journal
