import Potocolom.Journal.Store

/-! # What a committed transaction has checked and written

One lemma for each transaction of the store: a call that committed met these
conditions and left exactly this database. The proofs about the journal use
these and never unfold a transaction. -/

namespace Potocolom.Journal

open Guard

/-! ## Rows -/

/-- A known outcome is an acknowledged row whose acknowledgement settles the
command and has the identity the row was committed with. -/
theorem knownAcknowledged_outcome {codec : Codec} {worker : Incarnation} {row : CommandRow}
    (h : knownAcknowledged codec worker row = true) :
    row.state = .acknowledged ∧ ∃ ack identityHash, row.ackBody = some ack ∧
      ack.consuming = true ∧ row.ackIdentityHash = some identityHash ∧
      ack.identityHash codec row.kind = .ok identityHash := by
  unfold knownAcknowledged at h
  split at h
  · next identityHash _ ack hstate hhash _ _ hbody =>
    simp only [Bool.and_eq_true, Bool.or_eq_true, beq_iff_eq] at h
    obtain ⟨⟨⟨⟨⟨⟨⟨⟨-, hcode⟩, -⟩, hverdict⟩, -⟩, -⟩, -⟩, -⟩, hid⟩ := h
    refine ⟨hstate, ack, identityHash, hbody, ?_, hhash, ?_⟩
    · rcases hverdict with ⟨hok, -⟩ | ⟨-, hrefused⟩
      · simp [Ack.consuming, hok]
      · simp [Ack.consuming, hcode, hrefused]
    · split at hid
      · next hh heq =>
        rw [heq, eq_of_beq hid]
      · cases hid
  · cases h

/-- The floor `commit_command` moves to: past the known outcomes above the old
one. -/
def commitFloor (codec : Codec) (worker : Incarnation) (w : Connection)
    (rows : List CommandRow) : Nat :=
  Window.advance (fun q => (rowAt rows q).any (knownAcknowledged codec worker))
    w.nextCommandSequence w.acknowledgedFloor

/-- The floor `acknowledge` moves to when it records an outcome at `sequence`. -/
def ackFloor (codec : Codec) (worker : Incarnation) (w : Connection) (rows : List CommandRow)
    (sequence : Nat) : Nat :=
  Window.advance
    (fun q => (rowAt rows q).any fun r => r.ackIdentityHash.isSome &&
      (q == sequence || knownAcknowledged codec worker r))
    w.nextCommandSequence w.acknowledgedFloor

/-! ## Transactions -/

/-- A committed `commit_command`: the connection `w` it ran on, the command it
built from the prepared fields, and what it wrote. -/
theorem commitCommand_ok {api : Api} {c : CommitCall} {db db' : Db} {answer : Committed}
    (h : commitCommand api c db = .ok (answer, db')) :
    ∃ (accountUserId : Uuid) (prepared : Prepared) (w : Connection) (ring : KeyRing)
      (command : Command) (row : CommandRow) (subjects : Subjects),
      c.accountUserId = some accountUserId ∧
      prepareCommandSubject api.codec db c.fields accountUserId c.sessionContext c.jobContext
        c.worker c.transportOwnerId c.now = .ok prepared ∧
      commitAuthority api c db prepared.cancelAttempt = .ok w ∧
      command = c.command api.codec w prepared.messageFields ∧
      (1 ≤ command.fields.identity.2 ∧ command.fields.identity.2 ≤ maxSequence) ∧
      row = pendingRow api.codec c accountUserId command
        (ring.encrypt command
          ⟨c.worker, command.header.commandSequence, c.commandId, command.bodyHash⟩) ∧
      (purge w.acknowledgedFloor (commitFloor api.codec c.worker w (db.journal c.worker))
        (db.journal c.worker)).length < maxRetainedCommands ∧
      pendingBytes (db.journal c.worker) + row.completeBytes ≤ maxPendingBytes ∧
      applyCommandClaim api.codec prepared.subjects prepared.claim c.worker accountUserId
        c.commandId w.toGrant = .ok subjects ∧
      answer = ⟨row.stored c.worker none, prepared.committedDesired⟩ ∧
      db' =
        { subjects := subjects
          connections := db.connections.set c.worker
            { w with
              nextCommandSequence := w.nextCommandSequence + 1
              acknowledgedFloor := commitFloor api.codec c.worker w (db.journal c.worker) }
          journal := Function.update db.journal c.worker
            (purge w.acknowledgedFloor (commitFloor api.codec c.worker w (db.journal c.worker))
              (db.journal c.worker) ++ [row]) } := by
  simp only [commitCommand, bind_eq_ok, require_eq_ok, demand_eq_ok, pure_eq_ok, exists_const,
    Prod.mk.injEq] at h
  obtain ⟨accountUserId, hacc, -, prepared, hprep, w, hauth, hseq, -, -, hfull, ring, -, subjects,
    hclaim, -, hans, hdb⟩ := h
  exact ⟨accountUserId, prepared, w, ring, _, _, subjects, hacc, hprep, hauth, rfl, hseq, rfl,
    hfull.1, hfull.2, hclaim, hans.symm, hdb.symm⟩

/-- The connection `commit_command` ran on is the worker's open, ready one. -/
theorem commitAuthority_ok {api : Api} {c : CommitCall} {db : Db}
    {cancelAttempt : Option JobAttempt} {w : Connection}
    (h : commitAuthority api c db cancelAttempt = .ok w) :
    db.connections.get c.worker = some w ∧ w.closedAt = none ∧ w.lifecycle = .ready ∧
      w.transportOwnerId = c.transportOwnerId ∧
      (∀ a ∈ cancelAttempt, a.worker = c.worker ∧ a.ownerEpoch = w.ownerEpoch) ∧
      w.nextCommandSequence < maxSequence := by
  simp only [commitAuthority, bind_eq_ok, require_eq_ok, demand_eq_ok, pure_eq_ok,
    exists_const] at h
  obtain ⟨w', hget, hopen, lease, -, -, howner, hcancel, -, -, -, -, hnext, rfl⟩ := h
  exact ⟨hget, hopen.1, hopen.2, howner.1, hcancel, hnext⟩

/-- How `recordAck` changes the row: not at all, or from erased or pending to
acknowledged. -/
theorem recordAck_ok {api : Api} {c : AckCall} {row : CommandRow} {db : Subjects}
    {effect : AckEffect} (h : recordAck api c row db = .ok effect) :
    (row.state = .acknowledged ∧ effect.row = row ∧
        knownAcknowledged api.codec c.expected row = true ∧ effect.subjects = db ∧
        effect.missingKey = false) ∨
      (row.state = .erased ∧ effect.row = row.acknowledgeErased c.message c.now ∧
        effect.subjects = db ∧ effect.missingKey = false) ∨
      (row.state = .pending ∧ effect.row = row.acknowledge c.message c.now ∧
        ∃ accountUserId command, row.accountUserId = some accountUserId ∧
          openPending row c = .ok command ∧
          effect.subjects = (publishUpdate db row accountUserId c.message c.expected
            c.transportOwnerId c.now command).1 ∧
          effect.missingKey = command.isNone) := by
  unfold recordAck at h
  split at h
  · next hst =>
    simp only [bind_eq_ok, require_eq_ok, pure_eq_ok, exists_const] at h
    obtain ⟨hk, rfl⟩ := h
    exact .inl ⟨hst, rfl, hk.1, rfl, rfl⟩
  · next hst =>
    rw [pure_eq_ok] at h
    subst h
    exact .inr (.inl ⟨hst, rfl, rfl, rfl⟩)
  · next hst =>
    simp only [bind_eq_ok, demand_eq_ok, pure_eq_ok] at h
    obtain ⟨accountUserId, hacc, command, hopen, rfl⟩ := h
    exact .inr (.inr ⟨hst, rfl, accountUserId, command, hacc, hopen, rfl, rfl⟩)

/-- A recorded acknowledgement: the connection, the row it answers, and what it
wrote. -/
theorem acknowledgeBody_ok {api : Api} {c : AckCall} {db db' : Db} {answer : CommandAckResult}
    (h : acknowledgeBody api c db = .ok (answer, db')) :
    ∃ (w : Connection) (row : CommandRow) (identityHash : Hash) (effect : AckEffect),
      c.message.consuming = true ∧ validateAck c.message c.expected = true ∧
      db.connections.get c.expected = some w ∧
      rowAt (db.journal c.expected) c.message.header.commandSequence = some row ∧
      row.commandId = c.message.header.commandId ∧ row.bodyHash = c.message.bodyHash ∧
      row.ackIdentityHash = some identityHash ∧
      c.message.identityHash api.codec row.kind = .ok identityHash ∧
      recordAck api c row db.subjects = .ok effect ∧
      db' =
        { subjects := effect.subjects
          connections := db.connections.set c.expected
            (if effect.missingKey then
              { w with
                lifecycle := .ended, closedAt := some (w.closedAt.getD c.now)
                acknowledgedFloor := ackFloor api.codec c.expected w (db.journal c.expected)
                  c.message.header.commandSequence }
            else
              { w with
                acknowledgedFloor := ackFloor api.codec c.expected w (db.journal c.expected)
                  c.message.header.commandSequence })
          journal := Function.update db.journal c.expected
            (purge w.acknowledgedFloor
              (ackFloor api.codec c.expected w (db.journal c.expected)
                c.message.header.commandSequence)
              ((db.journal c.expected).map fun r =>
                if r.sequence == c.message.header.commandSequence then effect.row else r)) } := by
  simp only [acknowledgeBody, bind_eq_ok, require_eq_ok, demand_eq_ok, pure_eq_ok, exists_const,
    Prod.mk.injEq] at h
  obtain ⟨hvalid, hcons, w, hw, -, row, hrow, hid, identityHash, hhash, hmatch, effect, heff, -,
    hdb⟩ := h
  exact ⟨w, row, identityHash, effect, hcons, hvalid.1, hw, hrow, hid.1, hid.2, hhash, hmatch,
    heff, hdb.symm⟩

/-- `acknowledge` recorded the message, or left the database alone. -/
theorem acknowledge_settle (api : Api) (c : AckCall) (db : Db) :
    (∃ answer db', acknowledgeBody api c db = .ok (answer, db') ∧
        settle (acknowledge api c db) db = db') ∨
      settle (acknowledge api c db) db = db := by
  unfold acknowledge
  split
  · next answer heq => exact .inl ⟨answer.1, answer.2, heq, rfl⟩
  · exact .inr rfl
  · exact .inr rfl

/-- A settled report erases pending rows at one sequence, and nothing else. -/
theorem eraseReportedSubjectCommand_ok {accountUserId : Uuid} {c : ReportedCommand} {db db' : Db}
    {u : Unit} (h : eraseReportedSubjectCommand accountUserId c db = .ok (u, db')) :
    db' = db ∨ ∃ row : CommandRow, db' = db.setJournal c.worker ((db.journal c.worker).map fun r =>
      if r.sequence == row.sequence && r.state == .pending then r.erase else r) := by
  simp only [eraseReportedSubjectCommand, bind_eq_ok] at h
  obtain ⟨rows, -, h⟩ := h
  split at h
  · next row =>
    simp only [bind_eq_ok, demand_eq_ok, require_eq_ok, pure_eq_ok, exists_const,
      Prod.mk.injEq] at h
    obtain ⟨_, -, -, -, rfl⟩ := h
    exact .inr ⟨row, rfl⟩
  · simp only [pure_eq_ok, Prod.mk.injEq] at h
    exact .inl h.2.symm

/-- A settled subject erasure erases one selection. -/
theorem eraseSubjectCommands_ok {accountUserId : Uuid} {kind : SubjectKind} {subjectId : Uuid}
    {subjectSequence : Option Nat} {now : Time} {db db' : Db} {u : Unit}
    (h : eraseSubjectCommands accountUserId kind subjectId subjectSequence now db = .ok (u, db')) :
    ∃ sel, subjectErasureSelection db.subjects accountUserId kind subjectId subjectSequence =
      .ok sel ∧ db' = erasePendingRows sel now db := by
  simp only [eraseSubjectCommands, bind_eq_ok, pure_eq_ok, Prod.mk.injEq] at h
  obtain ⟨sel, hsel, -, rfl⟩ := h
  exact ⟨sel, hsel, rfl⟩

end Potocolom.Journal
