import Potocolom.Lib.Machine
import Potocolom.Journal.Spec

/-! # The journal invariant

What holds of every worker's journal after any sequence of the store's
transactions. The rows above the acknowledged floor are contiguous and bounded,
a row that is no longer pending keeps no body, and the floor only passes known
outcomes. -/

namespace Potocolom.Journal

open Guard

variable (api : Api)

/-! ## Runs of transactions -/

/-- One transaction. `connect` is a worker's `hello`, which inserts its
connection row; `elsewhere` is every other transaction, which may do anything to
the other tables and to the other columns of the connections. -/
inductive Op where
  | connect (worker : Incarnation) (grant : Grant)
  | commitCommand (call : CommitCall)
  | acknowledge (call : AckCall)
  | eraseAccountCommands (accountUserIds : List Uuid) (now : Time)
  | eraseRealtimeCommands (accountUserId : Uuid) (authSessionIds : Option (List Uuid))
      (keepAuthSessionId : Option Uuid) (now : Time)
  | eraseSubjectCommands (accountUserId : Uuid) (kind : SubjectKind) (subjectId : Uuid)
      (subjectSequence : Option Nat) (now : Time)
  | eraseReportedSubjectCommand (accountUserId : Uuid) (reported : ReportedCommand)
  | elsewhere (subjects : Subjects) (grants : Incarnation → Connection → Grant)

/-- The database a transaction leaves behind; a refused one changes nothing. -/
def Op.run (op : Op) (db : Db) : Db :=
  match op with
  | .connect worker grant =>
    if db.connections.get worker = none then db.setConnection worker (.fresh grant) else db
  | .commitCommand call => settle (Journal.commitCommand api call db) db
  | .acknowledge call => settle (Journal.acknowledge api call db) db
  | .eraseAccountCommands ids now => Journal.eraseAccountCommands ids now db
  | .eraseRealtimeCommands id auth keep now => Journal.eraseRealtimeCommands id auth keep now db
  | .eraseSubjectCommands id kind subject sequence now =>
    settle (Journal.eraseSubjectCommands id kind subject sequence now db) db
  | .eraseReportedSubjectCommand id reported =>
    settle (Journal.eraseReportedSubjectCommand id reported db) db
  | .elsewhere subjects grants =>
    { db with
      subjects := subjects
      connections := db.connections.mapRows fun w c => { c with toGrant := grants w c } }

/-- The database, and the commands committed so far by worker and sequence. -/
structure History where
  db : Db
  committed : Incarnation → Nat → Option Command

/-- The command stored in the row at `sequence`. -/
def Db.commandAt (db : Db) (worker : Incarnation) (sequence : Nat) : Option Command :=
  ((rowAt (db.journal worker) sequence).bind (·.encryptedBody)).map (·.plain)

/-- Record what a transaction committed. -/
def Op.note (op : Op) (h : History) : Incarnation → Nat → Option Command :=
  match op with
  | .commitCommand call =>
    match Journal.commitCommand api call h.db with
    | .ok (answer, db') => fun w q =>
      if w = call.worker ∧ q = answer.stored.sequence then db'.commandAt w q
      else h.committed w q
    | .error _ => h.committed
  | _ => h.committed

/-- The store, from an empty journal: transactions in any order. -/
def journalMachine : Machine History Op where
  init h := (∀ w, h.db.journal w = []) ∧ (∀ w, h.db.connections.get w = none) ∧
    ∀ w q, h.committed w q = none
  step h op := some ⟨op.run api h.db, op.note api h⟩

/-! ## Known outcomes -/

/-- The row holds a known outcome of `command`: an accepted acknowledgement or a
consuming refusal, whose identity hash is the command's own. -/
def KnownOutcome (codec : Codec) (command : Command) (row : CommandRow) : Prop :=
  row.state = .acknowledged ∧ ∃ ack, row.ackBody = some ack ∧ ack.consuming = true ∧
    codec.identityHash ⟨command.kind, ack.header, ack.bodyHash, ack.subject⟩ =
      codec.identityHash command.ackIdentity

/-- The row was committed for `command`: it names the command, and while it is
pending it holds its body. -/
structure CommittedFor (codec : Codec) (command : Command) (row : CommandRow) : Prop where
  kind : row.kind = command.kind
  sequence : row.sequence = command.header.commandSequence
  commandId : row.commandId = command.header.commandId
  bodyHash : row.bodyHash = command.bodyHash
  subject : (row.subjectId, row.subjectSequence) = command.fields.identity
  identity : row.ackIdentityHash = some (codec.identityHash command.ackIdentity)
  body : row.state = .pending → ∃ blob, row.encryptedBody = some blob ∧ blob.plain = command ∧
    row.completeBytes = codec.commandBytes command

variable {api}

theorem Ack.identityHash_eq {codec : Codec} {kind : CommandKind} {ack : Ack} {identityHash : Hash}
    (h : ack.identityHash codec kind = .ok identityHash) :
    identityHash = codec.identityHash ⟨kind, ack.header, ack.bodyHash, ack.subject⟩ := by
  simp only [Ack.identityHash, bind_eq_ok, pure_eq_ok] at h
  obtain ⟨i, hi, rfl⟩ := h
  rw [ackIdentityProjection_eq_ok hi]

/-- A row whose acknowledgement answers its own identity holds a known outcome of
the command it was committed for. -/
theorem KnownOutcome.of_identity {codec : Codec} {command : Command} {row : CommandRow} {ack : Ack}
    {identityHash : Hash} (hc : CommittedFor codec command row) (hs : row.state = .acknowledged)
    (hb : row.ackBody = some ack) (hcons : ack.consuming = true)
    (hh : row.ackIdentityHash = some identityHash)
    (hid : ack.identityHash codec row.kind = .ok identityHash) :
    KnownOutcome codec command row := by
  refine ⟨hs, ack, hb, hcons, ?_⟩
  have hown : identityHash = codec.identityHash command.ackIdentity :=
    Option.some.inj (hh.symm.trans hc.identity)
  rw [← hown, Ack.identityHash_eq hid, hc.kind]

theorem KnownOutcome.of_known {codec : Codec} {command : Command} {row : CommandRow}
    {worker : Incarnation} (hc : CommittedFor codec command row)
    (h : knownAcknowledged codec worker row = true) : KnownOutcome codec command row := by
  obtain ⟨hs, ack, identityHash, hb, hcons, hh, hid⟩ := knownAcknowledged_outcome h
  exact .of_identity hc hs hb hcons hh hid

/-! ## The invariant of one journal -/

/-- A non-pending row keeps neither a body nor a key version. -/
def CommandRow.Stripped (r : CommandRow) : Prop :=
  r.state ≠ .pending → r.encryptedBody = none ∧ r.keyVersion = none

/-- The invariant of one worker's rows, under its floor and its next sequence. -/
structure JournalInv (codec : Codec) (committed : Nat → Option Command) (floor next : Nat)
    (rows : List CommandRow) : Prop where
  floor_lt : floor < next
  contiguous : Window.Contiguous CommandRow.sequence (floor + 1) next rows
  retained : rows.length ≤ maxRetainedCommands
  bytes : pendingBytes rows ≤ maxPendingBytes
  stripped : ∀ r ∈ rows, r.Stripped
  origin : ∀ r ∈ rows, ∃ command, committed r.sequence = some command ∧
    CommittedFor codec command r

/-- What a transaction may make of a row: it keeps what the row was committed
for, it never makes it pending, and it strips it when it stops being pending. -/
structure Rewrites (r r' : CommandRow) : Prop where
  sequence : r'.sequence = r.sequence
  kind : r'.kind = r.kind
  commandId : r'.commandId = r.commandId
  bodyHash : r'.bodyHash = r.bodyHash
  subject : (r'.subjectId, r'.subjectSequence) = (r.subjectId, r.subjectSequence)
  identity : r'.ackIdentityHash = r.ackIdentityHash
  pending : r'.state = .pending → r' = r
  stripped : r.Stripped → r'.Stripped

theorem Rewrites.refl (r : CommandRow) : Rewrites r r :=
  ⟨rfl, rfl, rfl, rfl, rfl, rfl, fun _ => rfl, id⟩

theorem Rewrites.erase (r : CommandRow) : Rewrites r r.erase :=
  ⟨rfl, rfl, rfl, rfl, rfl, rfl, nofun, fun _ _ => ⟨rfl, rfl⟩⟩

theorem Rewrites.acknowledge (r : CommandRow) (ack : Ack) (now : Time) :
    Rewrites r (r.acknowledge ack now) :=
  ⟨rfl, rfl, rfl, rfl, rfl, rfl, nofun, fun _ _ => ⟨rfl, rfl⟩⟩

theorem Rewrites.acknowledgeErased {r : CommandRow} (hs : r.state = .erased) (ack : Ack)
    (now : Time) : Rewrites r (r.acknowledgeErased ack now) := by
  refine ⟨rfl, rfl, rfl, rfl, rfl, rfl, nofun, fun hr _ => hr ?_⟩
  rw [hs]
  decide

theorem Rewrites.committedFor {codec : Codec} {command : Command} {r r' : CommandRow}
    (h : Rewrites r r') (hc : CommittedFor codec command r) : CommittedFor codec command r' where
  kind := h.kind.trans hc.kind
  sequence := h.sequence.trans hc.sequence
  commandId := h.commandId.trans hc.commandId
  bodyHash := h.bodyHash.trans hc.bodyHash
  subject := h.subject.trans hc.subject
  identity := h.identity.trans hc.identity
  body := by
    intro hp
    have heq := h.pending hp
    rw [heq] at hp ⊢
    exact hc.body hp

/-! ### Pending bytes -/

theorem pendingBytes_cons (r : CommandRow) (rows : List CommandRow) :
    pendingBytes (r :: rows) =
      (if r.state = .pending then r.completeBytes else 0) + pendingBytes rows := by
  by_cases h : r.state = .pending <;> simp [pendingBytes, h]

theorem pendingBytes_append (rows rows' : List CommandRow) :
    pendingBytes (rows ++ rows') = pendingBytes rows + pendingBytes rows' := by
  simp [pendingBytes]

/-- Dropping rows never adds pending bytes. -/
theorem pendingBytes_filter_le (p : CommandRow → Bool) (rows : List CommandRow) :
    pendingBytes (rows.filter p) ≤ pendingBytes rows := by
  induction rows with
  | nil => exact Nat.le_refl _
  | cons r rows ih =>
    rw [List.filter_cons]
    split
    · rw [pendingBytes_cons, pendingBytes_cons]
      exact Nat.add_le_add_left ih _
    · rw [pendingBytes_cons]
      exact Nat.le_add_left_of_le ih

/-- Neither does rewriting them. -/
theorem pendingBytes_map_le {f : CommandRow → CommandRow} {rows : List CommandRow}
    (hf : ∀ r ∈ rows, Rewrites r (f r)) : pendingBytes (rows.map f) ≤ pendingBytes rows := by
  induction rows with
  | nil => exact Nat.le_refl _
  | cons r rows ih =>
    have htail := ih fun r' hr' => hf r' (List.mem_cons_of_mem _ hr')
    have hhead := hf r List.mem_cons_self
    rw [List.map_cons, pendingBytes_cons, pendingBytes_cons]
    by_cases hs : (f r).state = .pending
    · rw [hhead.pending hs]
      exact Nat.add_le_add_left htail _
    · rw [if_neg hs, Nat.zero_add]
      exact Nat.le_add_left_of_le htail

/-! ### What the transactions do to a journal -/

namespace JournalInv

variable {codec : Codec} {committed : Nat → Option Command} {floor next : Nat}
  {rows : List CommandRow}

/-- A journal nobody has written to. -/
theorem fresh : JournalInv codec committed 0 1 [] where
  floor_lt := Nat.zero_lt_one
  contiguous := Window.contiguous_nil 1
  retained := Nat.zero_le _
  bytes := Nat.zero_le _
  stripped := by simp
  origin := by simp

theorem mem_rowAt (h : JournalInv codec committed floor next rows) {q : Nat} {r : CommandRow} :
    rowAt rows q = some r ↔ r ∈ rows ∧ r.sequence = q :=
  h.contiguous.find?_eq_some_iff

/-- Rewriting rows keeps the invariant. -/
theorem rewrite (h : JournalInv codec committed floor next rows) {f : CommandRow → CommandRow}
    (hf : ∀ r ∈ rows, Rewrites r (f r)) : JournalInv codec committed floor next (rows.map f) where
  floor_lt := h.floor_lt
  contiguous := h.contiguous.map fun r hr => (hf r hr).sequence
  retained := by simpa using h.retained
  bytes := Nat.le_trans (pendingBytes_map_le hf) h.bytes
  stripped := by
    intro r' hr'
    obtain ⟨r, hr, rfl⟩ := List.mem_map.mp hr'
    exact (hf r hr).stripped (h.stripped r hr)
  origin := by
    intro r' hr'
    obtain ⟨r, hr, rfl⟩ := List.mem_map.mp hr'
    obtain ⟨command, hlog, hc⟩ := h.origin r hr
    exact ⟨command, by rw [(hf r hr).sequence, hlog], (hf r hr).committedFor hc⟩

/-- Moving the floor over acknowledged rows and deleting them keeps the
invariant. -/
theorem purge (h : JournalInv codec committed floor next rows) {floor' : Nat}
    (hle : floor ≤ floor') (hlt : floor' < next)
    (hack : ∀ r ∈ rows, r.sequence ≤ floor' → r.state = .acknowledged) :
    JournalInv codec committed floor' next (purge floor floor' rows) := by
  have hkeep : ∀ r ∈ rows, (!(decide (r.sequence ≤ floor') && r.state == .acknowledged)) =
      decide (floor' + 1 ≤ r.sequence) := by
    intro r hr
    by_cases hq : r.sequence ≤ floor'
    · simp [hq, hack r hr hq, Nat.lt_succ_of_le hq]
    · simp [hq, Nat.succ_le_of_lt (Nat.not_le.mp hq)]
  unfold Journal.purge
  split
  · exact
      { floor_lt := hlt
        contiguous := h.contiguous.filter (by omega) (by omega) hkeep
        retained := Nat.le_trans (List.length_filter_le _ _) h.retained
        bytes := Nat.le_trans (pendingBytes_filter_le _ _) h.bytes
        stripped := fun r hr => h.stripped r (List.mem_of_mem_filter hr)
        origin := fun r hr => h.origin r (List.mem_of_mem_filter hr) }
  · next hn =>
    obtain rfl : floor = floor' := by omega
    exact h

/-- Appending the row of a new command keeps the invariant. -/
theorem append (h : JournalInv codec committed floor next rows) {row : CommandRow}
    {command : Command} (hseq : row.sequence = next) (hpend : row.state = .pending)
    (hlen : rows.length < maxRetainedCommands)
    (hbytes : pendingBytes rows + row.completeBytes ≤ maxPendingBytes)
    (hc : CommittedFor codec command row) :
    JournalInv codec (Function.update committed next (some command)) floor (next + 1)
      (rows ++ [row]) where
  floor_lt := Nat.lt_succ_of_lt h.floor_lt
  contiguous := h.contiguous.append h.floor_lt hseq
  retained := by
    rw [List.length_append]
    exact hlen
  bytes := by
    rw [pendingBytes_append]
    simpa [pendingBytes, hpend] using hbytes
  stripped := by
    intro r hr
    rcases List.mem_append.mp hr with hr | hr
    · exact h.stripped r hr
    · rw [List.mem_singleton.mp hr]
      exact fun hn => absurd hpend hn
  origin := by
    intro r hr
    rcases List.mem_append.mp hr with hr | hr
    · obtain ⟨c, hlog, hfor⟩ := h.origin r hr
      have hne : r.sequence ≠ next := Nat.ne_of_lt (h.contiguous.mem_bounds hr).2
      exact ⟨c, by rw [Function.update_of_ne hne, hlog], hfor⟩
    · rw [List.mem_singleton.mp hr]
      exact ⟨command, by rw [hseq, Function.update_self], hc⟩

end JournalInv

/-! ## What the floor passes -/

section Floor

variable {codec : Codec} {worker : Incarnation} {committed : Nat → Option Command}
  {w : Connection} {rows : List CommandRow}

/-- Everything `commit_command` moves the floor over is a known outcome. -/
theorem commitFloor_known
    (h : JournalInv codec committed w.acknowledgedFloor w.nextCommandSequence rows) {q : Nat}
    (hlo : w.acknowledgedFloor < q) (hhi : q ≤ commitFloor codec worker w rows) :
    ∃ r ∈ rows, r.sequence = q ∧ knownAcknowledged codec worker r = true := by
  have hsettled := Window.advance_settled hlo hhi
  obtain ⟨r, hr, hknown⟩ := (Option.any_eq_true _ _).mp hsettled
  obtain ⟨hmem, hseq⟩ := h.mem_rowAt.mp hr
  exact ⟨r, hmem, hseq, hknown⟩

/-- Everything `acknowledge` moves the floor over is the acknowledged sequence or
a known outcome. -/
theorem ackFloor_known
    (h : JournalInv codec committed w.acknowledgedFloor w.nextCommandSequence rows)
    {sequence q : Nat} (hlo : w.acknowledgedFloor < q)
    (hhi : q ≤ ackFloor codec worker w rows sequence) :
    ∃ r ∈ rows, r.sequence = q ∧ (q = sequence ∨ knownAcknowledged codec worker r = true) := by
  have hsettled := Window.advance_settled hlo hhi
  obtain ⟨r, hr, hknown⟩ := (Option.any_eq_true _ _).mp hsettled
  obtain ⟨hmem, hseq⟩ := h.mem_rowAt.mp hr
  simp only [Bool.and_eq_true, Bool.or_eq_true, beq_iff_eq] at hknown
  exact ⟨r, hmem, hseq, hknown.2⟩

end Floor

/-! ## The invariant of the store -/

/-- Every connection's journal meets its invariant, and only connections have a
journal. -/
def HistoryInv (codec : Codec) (h : History) : Prop :=
  ∀ worker, match h.db.connections.get worker with
    | some w =>
      JournalInv codec (h.committed worker) w.acknowledgedFloor w.nextCommandSequence
        (h.db.journal worker)
    | none => h.db.journal worker = []

theorem HistoryInv.journal {codec : Codec} {h : History} (hinv : HistoryInv codec h)
    {worker : Incarnation} {w : Connection} (hw : h.db.connections.get worker = some w) :
    JournalInv codec (h.committed worker) w.acknowledgedFloor w.nextCommandSequence
      (h.db.journal worker) := by
  have hall := hinv worker
  rwa [hw] at hall

/-- The row `row` was recorded by this very transaction, an `acknowledge`, from a
row of the journal that held no outcome yet. -/
def RecordedBy (op : Op) (worker : Incarnation) (rows : List CommandRow) (row : CommandRow) :
    Prop :=
  ∃ call old, op = .acknowledge call ∧ call.expected = worker ∧
    call.message.header.commandSequence = row.sequence ∧ old ∈ rows ∧ old.state ≠ .acknowledged ∧
    (row = old.acknowledge call.message call.now ∨
      row = old.acknowledgeErased call.message call.now)

/-- What one transaction may do to the counters of `worker`: neither goes down, and
every sequence the floor passes had a row with a known outcome, held before or
recorded by this transaction. -/
def FloorStep (codec : Codec) (op : Op) (h h' : History) (worker : Incarnation) : Prop :=
  ∀ w, h.db.connections.get worker = some w → ∃ w', h'.db.connections.get worker = some w' ∧
    w.acknowledgedFloor ≤ w'.acknowledgedFloor ∧
    w.nextCommandSequence ≤ w'.nextCommandSequence ∧
    ∀ q, w.acknowledgedFloor < q → q ≤ w'.acknowledgedFloor →
      ∃ command row, h.committed worker q = some command ∧ row.sequence = q ∧
        KnownOutcome codec command row ∧
        (row ∈ h.db.journal worker ∨ RecordedBy op worker (h.db.journal worker) row)

/-- A transaction that leaves the counters of `worker` alone. -/
theorem FloorStep.of_eq {codec : Codec} {op : Op} {h h' : History} {worker : Incarnation}
    (heq : ∀ w, h.db.connections.get worker = some w → ∃ w',
      h'.db.connections.get worker = some w' ∧ w'.acknowledgedFloor = w.acknowledgedFloor ∧
        w'.nextCommandSequence = w.nextCommandSequence) :
    FloorStep codec op h h' worker := by
  intro w hw
  obtain ⟨w', hw', hfloor, hnext⟩ := heq w hw
  exact ⟨w', hw', Nat.le_of_eq hfloor.symm, Nat.le_of_eq hnext.symm,
    fun q hlo hhi => absurd hlo (by omega)⟩

/-! ### Each transaction -/

section Steps

variable {h : History}

/-- An erasure rewrites rows of every journal and closes connections. -/
theorem erasePendingRows_step {codec : Codec} (hinv : HistoryInv codec h) (sel : Selection)
    (now : Time) (op : Op) :
    HistoryInv codec ⟨erasePendingRows sel now h.db, h.committed⟩ ∧
      ∀ worker, FloorStep codec op h ⟨erasePendingRows sel now h.db, h.committed⟩ worker := by
  refine ⟨fun worker => ?_, fun worker => .of_eq fun w hw => ?_⟩
  · have hj := hinv worker
    cases hw : h.db.connections.get worker with
    | none =>
      rw [hw] at hj
      simp [erasePendingRows, hw, hj]
    | some w =>
      have hrw : ∀ r ∈ h.db.journal worker,
          Rewrites r (if sel.erases r then r.erase else r) := by
        intro r _
        split
        · exact .erase r
        · exact .refl r
      have hkept := (hinv.journal hw).rewrite hrw
      by_cases hc : sel.closes h.db worker <;> simpa [erasePendingRows, hw, hc] using hkept
  · by_cases hc : sel.closes h.db worker <;> simp [erasePendingRows, hw, hc]

/-- Rewriting the rows of one journal. -/
theorem setJournal_step {codec : Codec} (hinv : HistoryInv codec h) (worker : Incarnation)
    {f : CommandRow → CommandRow} (hf : ∀ r ∈ h.db.journal worker, Rewrites r (f r)) :
    HistoryInv codec ⟨h.db.setJournal worker ((h.db.journal worker).map f), h.committed⟩ := by
  intro worker'
  have hj := hinv worker'
  by_cases heq : worker' = worker
  · subst heq
    cases hw : h.db.connections.get worker' with
    | none =>
      rw [hw] at hj
      simp [Db.setJournal, hw, hj]
    | some w =>
      rw [hw] at hj
      simpa [Db.setJournal, hw] using hj.rewrite hf
  · simpa [Db.setJournal, Function.update_of_ne heq] using hj

/-- The journal that `commit_command` leaves behind. -/
theorem commitCommand_journal {codec : Codec} {worker : Incarnation}
    {committed : Nat → Option Command} {w : Connection} {rows : List CommandRow}
    (hinv : JournalInv codec committed w.acknowledgedFloor w.nextCommandSequence rows)
    {row : CommandRow} {command : Command} (hseq : row.sequence = w.nextCommandSequence)
    (hpend : row.state = .pending) (hfor : CommittedFor codec command row)
    (hlen : (purge w.acknowledgedFloor (commitFloor codec worker w rows) rows).length <
      maxRetainedCommands)
    (hbytes : pendingBytes rows + row.completeBytes ≤ maxPendingBytes) :
    JournalInv codec (Function.update committed w.nextCommandSequence (some command))
      (commitFloor codec worker w rows) (w.nextCommandSequence + 1)
      (purge w.acknowledgedFloor (commitFloor codec worker w rows) rows ++ [row]) := by
  have hack : ∀ r ∈ rows, r.sequence ≤ commitFloor codec worker w rows →
      r.state = .acknowledged := by
    intro r hr hle
    have hlo := (hinv.contiguous.mem_bounds hr).1
    obtain ⟨r', hr', hseq', hknown⟩ := commitFloor_known hinv (by omega) hle
    rw [hinv.contiguous.key_inj hr hr' hseq'.symm]
    exact (knownAcknowledged_outcome hknown).1
  have hpurge : JournalInv codec committed (commitFloor codec worker w rows)
      w.nextCommandSequence (purge w.acknowledgedFloor (commitFloor codec worker w rows) rows) :=
    hinv.purge (Window.le_advance _) (Window.advance_lt hinv.floor_lt) hack
  have hdrop : pendingBytes (purge w.acknowledgedFloor (commitFloor codec worker w rows) rows) ≤
      pendingBytes rows := by
    unfold purge
    split
    · exact pendingBytes_filter_le _ _
    · exact Nat.le_refl _
  exact hpurge.append hseq hpend hlen (by omega) hfor

/-- The row a commit appended is found, with its command, at its sequence. -/
theorem commandAt_append {codec : Codec} {committed : Nat → Option Command} {floor next : Nat}
    {rows : List CommandRow} {row : CommandRow} {blob : Sealed}
    (hinv : JournalInv codec committed floor next (rows ++ [row]))
    (hbody : row.encryptedBody = some blob) :
    ((rowAt (rows ++ [row]) row.sequence).bind (·.encryptedBody)).map (·.plain) =
      some blob.plain := by
  have hmem : rowAt (rows ++ [row]) row.sequence = some row :=
    hinv.mem_rowAt.mpr ⟨List.mem_append_right _ List.mem_cons_self, rfl⟩
  rw [hmem, Option.bind_some, hbody, Option.map_some]

/-- The row of a new command is committed for it. -/
theorem pendingRow_committedFor (codec : Codec) (c : CommitCall) (accountUserId : Uuid)
    {command : Command} (hid : command.header.commandId = c.commandId) {blob : Sealed}
    (hblob : blob.plain = command) :
    CommittedFor codec command (pendingRow codec c accountUserId command blob) :=
  ⟨rfl, rfl, hid.symm, rfl, rfl, rfl, fun _ => ⟨blob, rfl, hblob, rfl⟩⟩

/-- A commit that went through: the connection it ran on, the command, its row,
and what it wrote to the journal, the counters and the log. -/
theorem commitCommand_effect {api : Api} (hinv : HistoryInv api.codec h) {call : CommitCall}
    {answer : Committed} {db' : Db}
    (hrun : Journal.commitCommand api call h.db = .ok (answer, db')) :
    ∃ w command row, h.db.connections.get call.worker = some w ∧
      w.nextCommandSequence < maxSequence ∧
      (∃ fields, command = call.command api.codec w fields) ∧
      row.sequence = w.nextCommandSequence ∧ row.state = .pending ∧
      CommittedFor api.codec command row ∧
      db'.connections = h.db.connections.set call.worker
        { w with
          nextCommandSequence := w.nextCommandSequence + 1
          acknowledgedFloor := commitFloor api.codec call.worker w (h.db.journal call.worker) } ∧
      db'.journal = Function.update h.db.journal call.worker
        (purge w.acknowledgedFloor (commitFloor api.codec call.worker w (h.db.journal call.worker))
          (h.db.journal call.worker) ++ [row]) ∧
      JournalInv api.codec
        (Function.update (h.committed call.worker) w.nextCommandSequence (some command))
        (commitFloor api.codec call.worker w (h.db.journal call.worker))
        (w.nextCommandSequence + 1)
        (purge w.acknowledgedFloor (commitFloor api.codec call.worker w (h.db.journal call.worker))
          (h.db.journal call.worker) ++ [row]) ∧
      (Op.commitCommand call).note api h = Function.update h.committed call.worker
        (Function.update (h.committed call.worker) w.nextCommandSequence (some command)) := by
  obtain ⟨accountUserId, prepared, w, ring, command, row, subjects, -, -, hauth, hcommand, -,
    hrow, hlen, hbytes, -, rfl, rfl⟩ := commitCommand_ok hrun
  obtain ⟨hw, -, -, -, -, hnext⟩ := commitAuthority_ok hauth
  have hseq : row.sequence = w.nextCommandSequence := by
    rw [hrow, hcommand]
    rfl
  have hpend : row.state = .pending := by
    rw [hrow]
    rfl
  have hfor : CommittedFor api.codec command row := by
    rw [hrow]
    exact pendingRow_committedFor _ _ _ (by rw [hcommand]; rfl) rfl
  have hnew := commitCommand_journal (hinv.journal hw) hseq hpend hfor hlen hbytes
  refine ⟨w, command, row, hw, hnext, ⟨_, hcommand⟩, hseq, hpend, hfor, rfl, rfl, hnew, ?_⟩
  obtain ⟨blob, hbody, hplain, -⟩ := hfor.body hpend
  have hat := commandAt_append hnew hbody
  funext worker q
  simp only [Op.note, hrun, CommandRow.stored]
  by_cases hworker : worker = call.worker
  · subst hworker
    rw [Function.update_self]
    by_cases hq : q = w.nextCommandSequence
    · rw [hq, Function.update_self, ← hseq, if_pos ⟨rfl, rfl⟩, Db.commandAt]
      simp only [Function.update_self]
      rw [hat, hplain]
    · rw [Function.update_of_ne hq, if_neg]
      exact fun hc => hq (hc.2.trans hseq)
  · rw [Function.update_of_ne hworker, if_neg]
    exact fun hc => hworker hc.1

/-- `commit_command` appends the next sequence and moves its worker's floor over
known outcomes. -/
theorem commitCommand_step {api : Api} (hinv : HistoryInv api.codec h) (call : CommitCall) :
    HistoryInv api.codec ⟨(Op.commitCommand call).run api h.db,
        (Op.commitCommand call).note api h⟩ ∧
      ∀ worker, FloorStep api.codec (.commitCommand call) h
        ⟨(Op.commitCommand call).run api h.db, (Op.commitCommand call).note api h⟩ worker := by
  cases hrun : Journal.commitCommand api call h.db with
  | error why =>
    simp only [Op.run, Op.note, hrun, settle]
    exact ⟨hinv, fun worker => .of_eq fun w hw => ⟨w, hw, rfl, rfl⟩⟩
  | ok res =>
    obtain ⟨answer, db'⟩ := res
    obtain ⟨w, command, row, hw, -, -, -, -, -, hconn, hjournal, hnew, hnote⟩ :=
      commitCommand_effect hinv hrun
    have hj := hinv.journal hw
    have hdb : (Op.commitCommand call).run api h.db = db' := by
      simp only [Op.run, hrun, settle]
    rw [hnote, hdb]
    refine ⟨fun worker => ?_, fun worker => ?_⟩
    · by_cases heq : worker = call.worker
      · subst heq
        simpa only [hconn, hjournal, Table.get_set_self, Function.update_self] using hnew
      · have hold := hinv worker
        simpa only [hconn, hjournal, Table.get_set_of_ne _ _ heq, Function.update_of_ne heq]
          using hold
    · by_cases heq : worker = call.worker
      · subst heq
        intro w₀ hw₀
        obtain rfl : w = w₀ := Option.some.inj (hw.symm.trans hw₀)
        refine ⟨_, by rw [hconn, Table.get_set_self], Window.le_advance _, Nat.le_succ _,
          fun q hlo hhi => ?_⟩
        obtain ⟨r, hr, hrseq, hknown⟩ := commitFloor_known hj hlo hhi
        obtain ⟨cmd, hlog, hcfor⟩ := hj.origin r hr
        exact ⟨cmd, r, hrseq ▸ hlog, hrseq, .of_known hcfor hknown, .inl hr⟩
      · exact .of_eq fun w₀ hw₀ =>
          ⟨w₀, by rw [hconn, Table.get_set_of_ne _ _ heq]; exact hw₀, rfl, rfl⟩

/-- `recordAck` rewrites the row into an acknowledged one. -/
theorem recordAck_rewrites {api : Api} {c : AckCall} {row : CommandRow} {db : Subjects}
    {effect : AckEffect} (heff : recordAck api c row db = .ok effect) :
    Rewrites row effect.row ∧ effect.row.state = .acknowledged := by
  rcases recordAck_ok heff with ⟨hs, he, -⟩ | ⟨hs, he, -⟩ | ⟨hs, he, -⟩
  · rw [he]
    exact ⟨.refl row, hs⟩
  · rw [he]
    exact ⟨.acknowledgeErased hs c.message c.now, rfl⟩
  · rw [he]
    exact ⟨.acknowledge row c.message c.now, rfl⟩

/-- The journal that `acknowledge` leaves behind. -/
theorem acknowledge_journal {codec : Codec} (worker : Incarnation)
    {committed : Nat → Option Command} {w : Connection} {rows : List CommandRow}
    (hinv : JournalInv codec committed w.acknowledgedFloor w.nextCommandSequence rows)
    {sequence : Nat} {row row' : CommandRow} (hrow : rowAt rows sequence = some row)
    (hrw : Rewrites row row') (hst : row'.state = .acknowledged) :
    JournalInv codec committed (ackFloor codec worker w rows sequence) w.nextCommandSequence
      (purge w.acknowledgedFloor (ackFloor codec worker w rows sequence)
        (rows.map fun r => if r.sequence == sequence then row' else r)) := by
  obtain ⟨hmem, hseq⟩ := hinv.mem_rowAt.mp hrow
  have hthe : ∀ r ∈ rows, r.sequence = sequence → r = row := fun r hr hq =>
    hinv.contiguous.key_inj hr hmem (hq.trans hseq.symm)
  have hwritten : JournalInv codec committed w.acknowledgedFloor w.nextCommandSequence
      (rows.map fun r => if r.sequence == sequence then row' else r) := by
    refine hinv.rewrite fun r hr => ?_
    by_cases hq : r.sequence = sequence
    · rw [if_pos (beq_iff_eq.mpr hq), hthe r hr hq]
      exact hrw
    · simpa [hq] using Rewrites.refl r
  refine hwritten.purge (Window.le_advance _) (Window.advance_lt hinv.floor_lt) ?_
  intro r' hr' hle
  obtain ⟨r, hr, rfl⟩ := List.mem_map.mp hr'
  by_cases hq : r.sequence = sequence
  · simp [hq, hst]
  · simp only [beq_iff_eq, hq, if_false] at hle ⊢
    have hlo := (hinv.contiguous.mem_bounds hr).1
    obtain ⟨r₂, hr₂, hseq₂, hcase⟩ := ackFloor_known hinv (by omega) hle
    obtain rfl := hinv.contiguous.key_inj hr hr₂ hseq₂.symm
    rcases hcase with heq | hknown
    · exact absurd heq hq
    · exact (knownAcknowledged_outcome hknown).1

/-- `acknowledge` records at most one outcome and moves its worker's floor over
known ones. -/
theorem acknowledge_step {api : Api} (hinv : HistoryInv api.codec h) (call : AckCall) :
    HistoryInv api.codec ⟨(Op.acknowledge call).run api h.db, h.committed⟩ ∧
      ∀ worker, FloorStep api.codec (.acknowledge call) h
        ⟨(Op.acknowledge call).run api h.db, h.committed⟩ worker := by
  simp only [Op.run]
  rcases acknowledge_settle api call h.db with ⟨answer, db', hbody, hdb⟩ | hdb
  swap
  · rw [hdb]
    exact ⟨hinv, fun worker => .of_eq fun w hw => ⟨w, hw, rfl, rfl⟩⟩
  rw [hdb]
  obtain ⟨w, row, identityHash, effect, hcons, -, hw, hrow, -, -, hhash, hmatch, heff, rfl⟩ :=
    acknowledgeBody_ok hbody
  have hj := hinv.journal hw
  obtain ⟨hmem, hseq⟩ := hj.mem_rowAt.mp hrow
  obtain ⟨hrw, hst⟩ := recordAck_rewrites heff
  have hnew := acknowledge_journal call.expected hj hrow hrw hst
  refine ⟨fun worker => ?_, fun worker => ?_⟩
  · by_cases heq : worker = call.expected
    · subst heq
      simp only [Table.get_set_self, Function.update_self]
      split <;> exact hnew
    · have hold := hinv worker
      simpa [Table.get_set_of_ne _ _ heq, Function.update_of_ne heq] using hold
  · by_cases heq : worker = call.expected
    swap
    · exact .of_eq fun w₀ hw₀ => ⟨w₀, by simpa [Table.get_set_of_ne _ _ heq] using hw₀, rfl, rfl⟩
    subst heq
    intro w₀ hw₀
    obtain rfl : w = w₀ := Option.some.inj (hw.symm.trans hw₀)
    refine ⟨_, Table.get_set_self _ _ _, ?_, ?_, fun q hlo hhi => ?_⟩
    · split <;> exact Window.le_advance _
    · split <;> exact Nat.le_refl _
    have hle : q ≤ ackFloor api.codec call.expected w (h.db.journal call.expected)
        call.message.header.commandSequence := by
      revert hhi
      split <;> exact id
    obtain ⟨r, hr, hrseq, hcase⟩ := ackFloor_known hj hlo hle
    obtain ⟨command, hlog, hfor⟩ := hj.origin r hr
    rcases hcase with rfl | hknown
    swap
    · exact ⟨command, r, hrseq ▸ hlog, hrseq, .of_known hfor hknown, .inl hr⟩
    -- the sequence acknowledged just now: its row holds the recorded outcome
    obtain rfl := hj.contiguous.key_inj hr hmem (hrseq.trans hseq.symm)
    refine ⟨command, effect.row, hrseq ▸ hlog, hrw.sequence.trans hrseq, ?_, ?_⟩
    · have hfor' := hrw.committedFor hfor
      rcases recordAck_ok heff with ⟨-, he, hknown, -⟩ | ⟨-, he, -⟩ | ⟨-, he, -⟩
      · rw [he]
        exact .of_known hfor hknown
      · rw [he] at hfor' ⊢
        exact .of_identity hfor' rfl rfl hcons hhash hmatch
      · rw [he] at hfor' ⊢
        exact .of_identity hfor' rfl rfl hcons hhash hmatch
    · rcases recordAck_ok heff with ⟨-, he, -⟩ | ⟨hs, he, -⟩ | ⟨hs, he, -⟩
      · exact .inl (he ▸ hr)
      · exact .inr ⟨call, r, rfl, rfl, (hrw.sequence.trans hrseq).symm, hr, by simp [hs],
          .inr he⟩
      · exact .inr ⟨call, r, rfl, rfl, (hrw.sequence.trans hrseq).symm, hr, by simp [hs],
          .inl he⟩

/-- A report settles at most one pending row and moves no floor. -/
theorem eraseReported_step {codec : Codec} (hinv : HistoryInv codec h) (accountUserId : Uuid)
    (reported : ReportedCommand) (api : Api) (op : Op) :
    HistoryInv codec ⟨(Op.eraseReportedSubjectCommand accountUserId reported).run api h.db,
        h.committed⟩ ∧
      ∀ worker, FloorStep codec op h
        ⟨(Op.eraseReportedSubjectCommand accountUserId reported).run api h.db, h.committed⟩
        worker := by
  simp only [Op.run]
  rcases settle_cases (eraseReportedSubjectCommand accountUserId reported h.db) h.db with
    ⟨u, hok⟩ | hdb
  · rcases eraseReportedSubjectCommand_ok hok with hdb | ⟨row, hdb⟩
    · rw [hdb]
      exact ⟨hinv, fun worker => .of_eq fun w hw => ⟨w, hw, rfl, rfl⟩⟩
    · rw [hdb]
      refine ⟨setJournal_step hinv _ fun r _ => ?_, fun worker => .of_eq fun w hw =>
        ⟨w, hw, rfl, rfl⟩⟩
      split
      · exact .erase r
      · exact .refl r
  · rw [hdb]
    exact ⟨hinv, fun worker => .of_eq fun w hw => ⟨w, hw, rfl, rfl⟩⟩

/-- A connection starts with fresh counters and an empty journal. -/
theorem connect_step {codec : Codec} (hinv : HistoryInv codec h) (worker : Incarnation)
    (grant : Grant) (api : Api) (op : Op) :
    HistoryInv codec ⟨(Op.connect worker grant).run api h.db, h.committed⟩ ∧
      ∀ worker', FloorStep codec op h
        ⟨(Op.connect worker grant).run api h.db, h.committed⟩ worker' := by
  simp only [Op.run]
  split
  swap
  · exact ⟨hinv, fun worker' => .of_eq fun w hw => ⟨w, hw, rfl, rfl⟩⟩
  next hnone =>
  refine ⟨fun worker' => ?_, fun worker' => .of_eq fun w hw => ⟨w, ?_, rfl, rfl⟩⟩
  · have hold := hinv worker'
    by_cases heq : worker' = worker
    · subst heq
      rw [hnone] at hold
      simpa [Db.setConnection, hold, Connection.fresh] using JournalInv.fresh
    · simpa [Db.setConnection, Table.get_set_of_ne _ _ heq] using hold
  · have hne : worker' ≠ worker := by
      rintro rfl
      rw [hnone] at hw
      cases hw
    simpa [Db.setConnection, Table.get_set_of_ne _ _ hne] using hw

/-- Nothing else touches a journal or its counters. -/
theorem elsewhere_step {codec : Codec} (hinv : HistoryInv codec h) (subjects : Subjects)
    (grants : Incarnation → Connection → Grant) (api : Api) (op : Op) :
    HistoryInv codec ⟨(Op.elsewhere subjects grants).run api h.db, h.committed⟩ ∧
      ∀ worker, FloorStep codec op h
        ⟨(Op.elsewhere subjects grants).run api h.db, h.committed⟩ worker := by
  simp only [Op.run]
  refine ⟨fun worker => ?_, fun worker => .of_eq fun w hw => ?_⟩
  · have hold := hinv worker
    cases hw : h.db.connections.get worker <;> simpa [hw] using hold
  · simp [hw]

end Steps

/-- The step lemma: every transaction keeps the invariant of every journal and
moves every floor over known outcomes only. -/
theorem step_inv {api : Api} {h : History} (hinv : HistoryInv api.codec h) (op : Op) :
    HistoryInv api.codec ⟨op.run api h.db, op.note api h⟩ ∧
      ∀ worker, FloorStep api.codec op h ⟨op.run api h.db, op.note api h⟩ worker := by
  cases op with
  | connect worker grant => exact connect_step hinv worker grant api _
  | commitCommand call => exact commitCommand_step hinv call
  | acknowledge call => exact acknowledge_step hinv call
  | eraseAccountCommands ids now => exact erasePendingRows_step hinv _ now _
  | eraseRealtimeCommands id auth keep now => exact erasePendingRows_step hinv _ now _
  | eraseSubjectCommands id kind subject sequence now =>
    simp only [Op.run, Op.note]
    rcases settle_cases (Journal.eraseSubjectCommands id kind subject sequence now h.db) h.db with
      ⟨u, hok⟩ | hdb
    · obtain ⟨sel, -, hdb⟩ := eraseSubjectCommands_ok hok
      rw [hdb]
      exact erasePendingRows_step hinv sel now _
    · rw [hdb]
      exact ⟨hinv, fun worker => .of_eq fun w hw => ⟨w, hw, rfl, rfl⟩⟩
  | eraseReportedSubjectCommand id reported => exact eraseReported_step hinv id reported api _
  | elsewhere subjects grants => exact elsewhere_step hinv subjects grants api _

/-- The run lemma: the invariant holds after any sequence of transactions. -/
theorem reach_inv {api : Api} {h : History}
    (hreach : (journalMachine api).Reach Machine.anyStep h) : HistoryInv api.codec h := by
  refine hreach.invariant ?_ ?_
  · rintro h ⟨hempty, hnone, -⟩ worker
    rw [hnone worker]
    exact hempty worker
  · intro h op h' hinv _ hstep
    obtain rfl := Option.some.inj hstep
    exact (step_inv hinv op).1

/-- What the log says of a command: its connection has allocated its sequence, and
it is bound to both and hashed. -/
def LogInv (codec : Codec) (h : History) : Prop :=
  ∀ worker q command, h.committed worker q = some command →
    (∃ w, h.db.connections.get worker = some w ∧ q < w.nextCommandSequence) ∧
      1 ≤ q ∧ q < maxSequence ∧ command.header.worker = worker ∧
      command.header.commandSequence = q ∧
      command.bodyHash = codec.bodyHash command.header command.fields

/-- The log only grows, at sequences its connections had not allocated. -/
theorem note_cases {api : Api} {h : History} (hinv : HistoryInv api.codec h) (op : Op) :
    op.note api h = h.committed ∨ ∃ call w fields, op = .commitCommand call ∧
      h.db.connections.get call.worker = some w ∧ w.nextCommandSequence < maxSequence ∧
      (∃ w', (op.run api h.db).connections.get call.worker = some w' ∧
        w'.nextCommandSequence = w.nextCommandSequence + 1) ∧
      op.note api h = Function.update h.committed call.worker
        (Function.update (h.committed call.worker) w.nextCommandSequence
          (some (call.command api.codec w fields))) := by
  cases op with
  | commitCommand call =>
    cases hrun : Journal.commitCommand api call h.db with
    | error why => exact .inl (by simp only [Op.note, hrun])
    | ok res =>
      obtain ⟨answer, db'⟩ := res
      obtain ⟨w, command, row, hw, hmax, ⟨fields, rfl⟩, -, -, -, hconn, -, -, hnote⟩ :=
        commitCommand_effect hinv hrun
      refine .inr ⟨call, w, fields, rfl, hw, hmax, ?_, hnote⟩
      simp only [Op.run, hrun, settle, hconn]
      exact ⟨_, Table.get_set_self _ _ _, rfl⟩
  | _ => exact .inl rfl

theorem step_log {api : Api} {h : History} (hinv : HistoryInv api.codec h)
    (hlog : LogInv api.codec h) (op : Op) :
    LogInv api.codec ⟨op.run api h.db, op.note api h⟩ ∧
      ∀ worker q command, h.committed worker q = some command →
        op.note api h worker q = some command := by
  have hgrow : ∀ worker q, (∃ w, h.db.connections.get worker = some w ∧
      q < w.nextCommandSequence) → ∃ w, (op.run api h.db).connections.get worker = some w ∧
      q < w.nextCommandSequence := by
    rintro worker q ⟨w, hw, hq⟩
    obtain ⟨w', hw', -, hle, -⟩ := (step_inv hinv op).2 worker w hw
    exact ⟨w', hw', Nat.lt_of_lt_of_le hq hle⟩
  rcases note_cases hinv op with hnote | ⟨call, w, fields, rfl, hw, hmax, ⟨w', hw', hnext⟩, hnote⟩
  · refine ⟨fun worker q command hc => ?_, fun worker q command hc => by rwa [hnote]⟩
    rw [hnote] at hc
    obtain ⟨halloc, hrest⟩ := hlog worker q command hc
    exact ⟨hgrow worker q halloc, hrest⟩
  · refine ⟨fun worker q command hc => ?_, fun worker q command hc => ?_⟩
    · by_cases hnew : worker = call.worker ∧ q = w.nextCommandSequence
      · obtain ⟨rfl, rfl⟩ := hnew
        simp only [hnote, Function.update_self, Option.some.injEq] at hc
        subst hc
        have hpos := (hinv.journal hw).floor_lt
        exact ⟨⟨w', hw', by omega⟩, by omega, hmax, rfl, rfl, rfl⟩
      · have hold : h.committed worker q = some command := by
          rw [← hc, hnote]
          simp only [Function.update_apply]
          split_ifs <;> simp_all
        obtain ⟨halloc, hrest⟩ := hlog worker q command hold
        exact ⟨hgrow worker q halloc, hrest⟩
    · have hne : ¬ (worker = call.worker ∧ q = w.nextCommandSequence) := by
        rintro ⟨rfl, rfl⟩
        obtain ⟨⟨w₀, hw₀, hlt⟩, -⟩ := hlog _ _ _ hc
        rw [Option.some.inj (hw.symm.trans hw₀)] at hlt
        exact Nat.lt_irrefl _ hlt
      rw [hnote]
      simp only [Function.update_apply]
      split_ifs <;> simp_all

theorem reach_log {api : Api} {h : History}
    (hreach : (journalMachine api).Reach Machine.anyStep h) : LogInv api.codec h := by
  refine hreach.invariant_of (fun _ => reach_inv) ?_ ?_
  · rintro h ⟨-, hnone, hlog⟩ worker q command hc
    rw [hlog worker q] at hc
    cases hc
  · intro h op h' hinv hlog _ hstep
    obtain rfl := Option.some.inj hstep
    exact (step_log hinv hlog op).1

/-- No run takes a floor down. -/
theorem floor_mono {api : Api} {h h' : History}
    (hreach : (journalMachine api).Reach Machine.anyStep h)
    (hpath : (journalMachine api).Path Machine.anyStep h h') {worker : Incarnation}
    {w : Connection} (hw : h.db.connections.get worker = some w) :
    ∃ w', h'.db.connections.get worker = some w' ∧ w.acknowledgedFloor ≤ w'.acknowledgedFloor := by
  induction hpath with
  | refl => exact ⟨w, hw, Nat.le_refl _⟩
  | tail hp _ hstep ih =>
    obtain ⟨w₁, hw₁, hle₁⟩ := ih
    obtain rfl := Option.some.inj hstep
    obtain ⟨w₂, hw₂, hle₂, -⟩ := (step_inv (reach_inv (hreach.path hp)) _).2 worker w₁ hw₁
    exact ⟨w₂, hw₂, Nat.le_trans hle₁ hle₂⟩

/-- The journal invariant of `worker_commands`. After any sequence of
transactions, every worker's journal meets `JournalInv`: its floor is below its
next sequence, its rows are exactly those in between, in number and in bytes
within bounds, and none that is not pending keeps a body. Its floor never goes
down, whatever runs later, and the next transaction moves it only over sequences
whose row holds a known outcome of the command committed there. -/
theorem journal_invariant (api : Api) {h : History}
    (hreach : (journalMachine api).Reach Machine.anyStep h) {worker : Incarnation}
    {w : Connection} (hw : h.db.connections.get worker = some w) :
    JournalInv api.codec (h.committed worker) w.acknowledgedFloor w.nextCommandSequence
        (h.db.journal worker) ∧
      (∀ h', (journalMachine api).Path Machine.anyStep h h' →
        ∃ w', h'.db.connections.get worker = some w' ∧
          w.acknowledgedFloor ≤ w'.acknowledgedFloor) ∧
      ∀ op h', (journalMachine api).step h op = some h' →
        FloorStep api.codec op h h' worker := by
  refine ⟨(reach_inv hreach).journal hw, fun h' hpath => floor_mono hreach hpath hw, ?_⟩
  intro op h' hstep
  obtain rfl := Option.some.inj hstep
  exact (step_inv (reach_inv hreach) op).2 worker

/-! ### A run

A worker connects, a job is dispatched to it, and the command is acknowledged. -/

section Sample

/-- Every hash and size of the sample is a constant. -/
def sampleApi : Api where
  codec :=
    { bodyHash := fun _ _ => "body", identityHash := fun _ => "identity", tokenHash := id
      commandBytes := fun _ => 100, ackBytes := fun _ => 100, admits := fun _ => true }
  schedulerOwnerId := 1

def sampleWorker : Incarnation := ⟨"gpu-1", 7⟩

def sampleGrant : Grant :=
  { transportOwnerId := 2, region := "eu", ownerEpoch := 1, leaseId := 3, leaseExpiresAt := 1000
    grantNonce := 4, grantExpiresAt := 1000, grantReady := true, lifecycle := .ready
    closedAt := none }

/-- Tables without a row. -/
def Subjects.blank : Subjects :=
  { authMode := .accounts, localUserId := none, users := ∅, authSessions := ∅, sessions := ∅
    sessionAttempts := ∅, jobs := ∅, jobAttempts := ∅, assets := ∅, ranges := ∅, receipts := ∅
    leases := ∅ }

/-- One active account with one queued job, in a region this process leads. -/
def sampleSubjects : Subjects :=
  { Subjects.blank with
    users := (∅ : Table Uuid User).set 10 ⟨.user, .active⟩
    jobs := (∅ : Table Uuid Job).set 20
      { userId := 10, modelId := "flux", params := "{}", state := .queued, attempt := 1
        currentDispatchSequence := 0, sourceAssetId := none }
    leases := (∅ : Table String Lease).set "eu" ⟨1, 1, 3, 1000⟩ }

def sampleCommit : CommitCall :=
  { worker := sampleWorker, fields := .dispatchJob 20 0 "flux" "{}" 30 "token", grantNonce := 4
    transportOwnerId := 2, accountUserId := some 10, sessionContext := none, jobContext := none
    commandId := 40, keyRing := some ⟨[1], 1, by decide⟩, now := 5 }

def sampleAck : AckCall :=
  { message :=
      { header :=
          { workerId := "gpu-1", incarnation := 7, region := "eu", ownerEpoch := 1, leaseId := 3
            leaseExpiresAt := 1000, grantNonce := 4, commandSequence := 1, commandId := 40 }
        bodyHash := "body", subject := .job 20 1, status := "accepted", code := none
        expectedSequence := none }
    expected := sampleWorker, transportOwnerId := 2, keyRing := some ⟨[1], 1, by decide⟩
    now := 6 }

def sampleStart : History := ⟨⟨.blank, ∅, fun _ => []⟩, fun _ _ => none⟩

def sampleOps : List Op :=
  [.connect sampleWorker sampleGrant, .elsewhere sampleSubjects fun _ c => c.toGrant,
   .commitCommand sampleCommit, .acknowledge sampleAck]

/-- Where the sample run ends. -/
def sampleEnd : History := ((journalMachine sampleApi).run sampleStart sampleOps).getD sampleStart

/-- The worker's row there: one command was allocated, and it is settled. -/
def sampleConnection : Connection :=
  { sampleGrant with nextCommandSequence := 2, acknowledgedFloor := 1 }

theorem journal_invariant_sample :
    JournalInv sampleApi.codec (sampleEnd.committed sampleWorker) 1 2
        (sampleEnd.db.journal sampleWorker) ∧
      (∀ h', (journalMachine sampleApi).Path Machine.anyStep sampleEnd h' →
        ∃ w', h'.db.connections.get sampleWorker = some w' ∧ 1 ≤ w'.acknowledgedFloor) ∧
      ∀ op h', (journalMachine sampleApi).step sampleEnd op = some h' →
        FloorStep sampleApi.codec op sampleEnd h' sampleWorker :=
  have hrun : (journalMachine sampleApi).run sampleStart sampleOps = some sampleEnd := rfl
  have hinit : (journalMachine sampleApi).init sampleStart :=
    ⟨fun _ => rfl, fun _ => rfl, fun _ _ => rfl⟩
  have hreach : (journalMachine sampleApi).Reach Machine.anyStep sampleEnd :=
    (Machine.Reach.of_init hinit).path (Machine.path_of_run_any hrun)
  have hw : sampleEnd.db.connections.get sampleWorker = some sampleConnection := by rfl
  journal_invariant sampleApi hreach hw

end Sample

end Potocolom.Journal
