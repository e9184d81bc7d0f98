import Potocolom.Journal.Ledger

/-! # Exactly once, in order

The invariant of the link. The worker's next sequence stays within two of the
acknowledged floor, everything in flight lies between the two, and the socket
keeps it in order, so every delivery is either the next command or the one just
answered. -/

namespace Potocolom.Journal

open Guard

variable {api : Api} {worker : Incarnation}

/-! ## More about the store -/

theorem mem_of_mem_purge {old floor : Nat} {rows : List CommandRow} {r : CommandRow}
    (h : r ∈ purge old floor rows) : r ∈ rows := by
  unfold purge at h
  split at h
  · exact List.mem_of_mem_filter h
  · exact h

/-- A row acknowledged after a transaction was so before, or the transaction
recorded it. -/
theorem acknowledged_cases {h : History} (hinv : HistoryInv api.codec h) (op : Op)
    (worker : Incarnation) {r : CommandRow} (hr : r ∈ (op.run api h.db).journal worker)
    (hs : r.state = .acknowledged) :
    r ∈ h.db.journal worker ∨ RecordedBy op worker (h.db.journal worker) r := by
  have herased : ∀ p : CommandRow → Bool,
      r ∈ (h.db.journal worker).map (fun r => if p r then r.erase else r) →
      r ∈ h.db.journal worker := by
    intro p hmem
    obtain ⟨r₀, hr₀, rfl⟩ := List.mem_map.mp hmem
    split at hs
    · cases hs
    · next hp =>
      rw [if_neg hp]
      exact hr₀
  cases op with
  | connect worker' grant =>
    simp only [Op.run] at hr
    split at hr <;> exact .inl hr
  | commitCommand call =>
    cases hrun : Journal.commitCommand api call h.db with
    | error why =>
      simp only [Op.run, hrun, settle] at hr
      exact .inl hr
    | ok res =>
      obtain ⟨w, command, row, hw, -, -, -, hpend, -, -, hjournal, -, -⟩ :=
        commitCommand_effect hinv hrun
      simp only [Op.run, hrun, settle, hjournal] at hr
      by_cases heq : worker = call.worker
      · subst heq
        rw [Function.update_self, List.mem_append, List.mem_singleton] at hr
        rcases hr with hr | rfl
        · exact .inl (mem_of_mem_purge hr)
        · rw [hpend] at hs
          cases hs
      · rw [Function.update_of_ne heq] at hr
        exact .inl hr
  | acknowledge call =>
    simp only [Op.run] at hr
    rcases acknowledge_settle api call h.db with ⟨answer, db', hbody, hdb⟩ | hdb
    swap
    · rw [hdb] at hr
      exact .inl hr
    rw [hdb] at hr
    obtain ⟨w, row, identityHash, effect, -, -, hw, hrow, -, -, -, -, heff, rfl⟩ :=
      acknowledgeBody_ok hbody
    obtain ⟨hmem, hseq⟩ := (hinv.journal hw).mem_rowAt.mp hrow
    by_cases heq : worker = call.expected
    swap
    · simp only [Function.update_of_ne heq] at hr
      exact .inl hr
    subst heq
    simp only [Function.update_self] at hr
    obtain ⟨r₀, hr₀, rfl⟩ := List.mem_map.mp (mem_of_mem_purge hr)
    split at hs
    · next hq =>
      -- the row answered now: unchanged, or recorded by this call
      rw [if_pos hq]
      have hseq' := (recordAck_rewrites heff).1.sequence.trans hseq
      rcases recordAck_ok heff with ⟨-, he, -⟩ | ⟨hst, he, -⟩ | ⟨hst, he, -⟩
      · rw [he]
        exact .inl hmem
      · exact .inr ⟨call, row, rfl, rfl, hseq'.symm, hmem, by simp [hst], .inr he⟩
      · exact .inr ⟨call, row, rfl, rfl, hseq'.symm, hmem, by simp [hst], .inl he⟩
    · next hq =>
      rw [if_neg hq]
      exact .inl hr₀
  | eraseAccountCommands ids now => exact .inl (herased _ hr)
  | eraseRealtimeCommands id auth keep now => exact .inl (herased _ hr)
  | eraseSubjectCommands id kind subject sequence now =>
    simp only [Op.run] at hr
    rcases settle_cases (Journal.eraseSubjectCommands id kind subject sequence now h.db) h.db with
      ⟨u, hok⟩ | hdb
    · obtain ⟨sel, -, hdb⟩ := eraseSubjectCommands_ok hok
      rw [hdb] at hr
      exact .inl (herased _ hr)
    · rw [hdb] at hr
      exact .inl hr
  | eraseReportedSubjectCommand id reported =>
    simp only [Op.run] at hr
    rcases settle_cases (Journal.eraseReportedSubjectCommand id reported h.db) h.db with
      ⟨u, hok⟩ | hdb
    swap
    · rw [hdb] at hr
      exact .inl hr
    rcases eraseReportedSubjectCommand_ok hok with hdb | ⟨row, hdb⟩
    · rw [hdb] at hr
      exact .inl hr
    rw [hdb] at hr
    simp only [Db.setJournal] at hr
    by_cases heq : worker = reported.worker
    · subst heq
      rw [Function.update_self] at hr
      exact .inl (herased _ hr)
    · rw [Function.update_of_ne heq] at hr
      exact .inl hr
  | elsewhere subjects grants => exact .inl hr

/-- A floor below `bound` stays below it while every acknowledged row, and every
acknowledgement the transaction records, is below it. -/
theorem floor_lt_step {h : History} (hinv : HistoryInv api.codec h) (op : Op) {bound : Nat}
    {w : Connection} (hw : h.db.connections.get worker = some w) (hlt : w.acknowledgedFloor < bound)
    (hrows : ∀ r ∈ h.db.journal worker, r.state = .acknowledged → r.sequence < bound)
    (hop : ∀ call, op = .acknowledge call → call.expected = worker →
      call.message.header.commandSequence < bound) :
    ∃ w', (op.run api h.db).connections.get worker = some w' ∧
      w.acknowledgedFloor ≤ w'.acknowledgedFloor ∧ w'.acknowledgedFloor < bound := by
  obtain ⟨w', hw', hle, -, hpass⟩ := (step_inv hinv op).2 worker w hw
  refine ⟨w', hw', hle, ?_⟩
  rcases Nat.eq_or_lt_of_le hle with heq | hgt
  · omega
  · obtain ⟨command, row, -, hseq, hknown, hrow⟩ := hpass w'.acknowledgedFloor hgt (Nat.le_refl _)
    rw [← hseq]
    rcases hrow with hmem | ⟨call, old, hcall, hexp, hmsg, -⟩
    · exact hrows row hmem hknown.1
    · rw [← hmsg]
      exact hop call hcall hexp

/-! ## What the delivery task holds -/

/-- `read_exact_pending` hands out the command committed at its sequence. -/
theorem readExactPending_committed {h : History} (hinv : HistoryInv api.codec h)
    {transportOwnerId : Uuid} {keyRing : Option KeyRing} {now : Time} {command : StoredCommand}
    (hread : readExactPending api worker transportOwnerId keyRing now h.db = .ok (some command)) :
    ∃ body, command.body = some body ∧ h.committed worker command.sequence = some body := by
  unfold readExactPending at hread
  dsimp only at hread
  split at hread
  · simp only [bind_eq_ok, pure_eq_ok] at hread
    obtain ⟨_, -, hnone⟩ := hread
    cases hnone
  · next w hw =>
    split at hread
    swap
    · cases hread
    simp only [bind_eq_ok, require_eq_ok, demand_eq_ok, pure_eq_ok, exists_const] at hread
    obtain ⟨row, hrow, hpend, ring, -, blob, hblob, message, hmessage, -, -, -, hcommand⟩ := hread
    have hconn : h.db.connections.get worker = some w :=
      (Option.filter_eq_some_iff.mp (Option.filter_eq_some_iff.mp hw).1).1
    have hj := hinv.journal hconn
    obtain ⟨hmem, -⟩ := hj.mem_rowAt.mp hrow
    obtain ⟨c, hlog, hfor⟩ := hj.origin row hmem
    obtain ⟨blob', hblob', hplain, -⟩ := hfor.body hpend
    obtain rfl : blob = blob' := Option.some.inj (hblob.symm.trans hblob')
    have hdec : message = blob.plain := by
      unfold KeyRing.decrypt at hmessage
      split at hmessage
      · exact (Option.some.inj hmessage).symm
      · cases hmessage
    cases hcommand
    exact ⟨message, rfl, by rw [hdec, hplain]; exact hlog⟩

/-- `register_delivery` only lets the head of the journal through. -/
theorem registerDelivery_head {db : Db} {command : StoredCommand} {transportOwnerId : Uuid}
    {accept : Bool} {now : Time} {u : Unit}
    (hreg : registerDelivery api command worker transportOwnerId accept now db = .ok u) :
    command.sequence = db.floor worker + 1 := by
  simp only [registerDelivery, bind_eq_ok, require_eq_ok, demand_eq_ok, exists_const] at hreg
  obtain ⟨-, _, -, _, -, -, _, -, _, -, -, w, hw, _, -, -, hhead, -⟩ := hreg
  rw [hhead, Db.floor, hw]
  rfl

/-! ## The link invariant -/

/-- The sequence of a command. -/
def Command.sequence (c : Command) : Nat := c.header.commandSequence

/-- The command a registered delivery is about to write. -/
def Delivery.inFlight : Delivery → List Command
  | .registered command _ => command.body.toList
  | _ => []

/-- Everything written or about to be written to the socket, oldest first. -/
def Link.inFlight (s : Link) : List Command := s.down ++ s.delivery.inFlight

/-- An answer that settles its command. -/
def Settles (command : Command) (ack : Ack) : Prop :=
  ack = commandAck command "accepted" none none ∨
    ack = commandAck command "refused" (some "unsupported_control") none

theorem Settles.header {command : Command} {ack : Ack} (h : Settles command ack) :
    ack.header = command.header := by
  rcases h with rfl | rfl <;> rfl

theorem Settles.code {command : Command} {ack : Ack} (h : Settles command ack) :
    ack.code = none ∨ ack.code = some "unsupported_control" := by
  rcases h with rfl | rfl
  · exact .inl rfl
  · exact .inr rfl

/-- The invariant of the link. -/
structure LinkInv (api : Api) (worker : Incarnation) (s : Link) : Prop where
  history : HistoryInv api.codec s.history
  log : LogInv api.codec s.history
  connected : ∃ w, s.history.db.connections.get worker = some w
  /-- Only answered commands are below the floor. -/
  floor_lt : s.history.db.floor worker < s.ledger.nextSequence
  /-- The worker is at most one unacknowledged command ahead. -/
  next_le : s.ledger.nextSequence ≤ s.history.db.floor worker + 2
  acknowledged : ∀ r ∈ s.history.db.journal worker, r.state = .acknowledged →
    r.sequence < s.ledger.nextSequence
  inFlight : ∀ c ∈ s.inFlight, s.history.committed worker c.sequence = some c ∧
    s.ledger.nextSequence ≤ c.sequence + 1 ∧ c.sequence ≤ s.history.db.floor worker + 1
  ordered : s.inFlight.Pairwise (fun c c' => c.sequence ≤ c'.sequence)
  reading : ∀ c, s.delivery = .read c →
    ∃ body, c.body = some body ∧ s.history.committed worker c.sequence = some body
  registered : ∀ c floor, s.delivery = .registered c floor →
    ∃ body, c.body = some body ∧ body.sequence = floor + 1 ∧
      floor ≤ s.history.db.floor worker
  window : s.ledger.results.length = min (s.ledger.nextSequence - 1) ledgerRetained
  results : Window.Contiguous Saved.sequence
    (s.ledger.nextSequence - s.ledger.results.length) s.ledger.nextSequence s.ledger.results
  saved : ∀ e ∈ s.ledger.results, ∃ c, s.history.committed worker e.sequence = some c ∧
    e.commandId = c.header.commandId ∧ e.bodyHash = c.bodyHash ∧ (c, e.ack) ∈ s.answers
  answered : ∀ a ∈ s.answers, s.history.committed worker a.1.sequence = some a.1 ∧
    a.1.sequence < s.ledger.nextSequence ∧ Settles a.1 a.2
  agree : ∀ a ∈ s.answers, ∀ b ∈ s.answers, a.1.sequence = b.1.sequence → a.2 = b.2
  inOrder : Window.Contiguous Command.sequence 1 (s.applied.length + 1) s.applied
  applied : ∀ c ∈ s.applied, s.history.committed worker c.sequence = some c
  next_eq : s.serving = true → s.ledger.nextSequence = s.applied.length + 1
  sent : ∀ e ∈ s.sent, e.command.sequence = e.registeredAt + 1 ∧
    (e.writtenAt = e.registeredAt ∨ e.writtenAt = e.command.sequence)

theorem Db.floor_eq {db : Db} {w : Connection} (hw : db.connections.get worker = some w) :
    db.floor worker = w.acknowledgedFloor := by
  rw [Db.floor, hw]
  rfl

namespace LinkInv

variable {s : Link}

/-- A committed command names its own sequence. -/
theorem committed_sequence (hinv : LinkInv api worker s) {q : Nat} {c : Command}
    (hc : s.history.committed worker q = some c) : c.sequence = q :=
  (hinv.log worker q c hc).2.2.2.2.1

/-- The worker refuses no committed command as malformed. -/
theorem validateCommand (hinv : LinkInv api worker s) {q : Nat} {c : Command}
    (hc : s.history.committed worker q = some c) :
    Journal.validateCommand api.codec c worker = true := by
  obtain ⟨-, hpos, hmax, hworker, hseq, hhash⟩ := hinv.log worker q c hc
  simp only [Journal.validateCommand, Bool.and_eq_true, beq_iff_eq, decide_eq_true_eq]
  exact ⟨⟨hworker, by omega, by omega⟩, hhash⟩

/-- A transaction moves the floor up, but not past what the worker answered. -/
theorem transact (hinv : LinkInv api worker s) (op : Op)
    (hop : ∀ call, op = .acknowledge call → call.expected = worker →
      call.message.header.commandSequence < s.ledger.nextSequence) :
    LinkInv api worker (s.transact api op) := by
  obtain ⟨w, hw⟩ := hinv.connected
  obtain ⟨hlog, hstable⟩ := step_log hinv.history hinv.log op
  have hbelow := hinv.floor_lt
  have habove := hinv.next_le
  rw [Db.floor_eq hw] at hbelow habove
  obtain ⟨w', hw', hle, hlt⟩ := floor_lt_step hinv.history op hw hbelow hinv.acknowledged hop
  have hfloor' : (s.transact api op).history.db.floor worker = w'.acknowledgedFloor :=
    Db.floor_eq hw'
  have hfloor : s.history.db.floor worker ≤ (s.transact api op).history.db.floor worker := by
    rw [Db.floor_eq hw, hfloor']
    exact hle
  exact
    { history := (step_inv hinv.history op).1
      log := hlog
      connected := ⟨w', hw'⟩
      floor_lt := by
        rw [hfloor']
        exact hlt
      next_le := Nat.le_trans hinv.next_le (Nat.add_le_add_right hfloor 2)
      acknowledged := by
        intro r hr hs
        rcases acknowledged_cases hinv.history op worker hr hs with hold | ⟨call, -, hcall, hexp, hseq, -⟩
        · exact hinv.acknowledged r hold hs
        · rw [← hseq]
          exact hop call hcall hexp
      inFlight := by
        intro c hc
        obtain ⟨hcom, hlo, hhi⟩ := hinv.inFlight c hc
        exact ⟨hstable _ _ _ hcom, hlo, Nat.le_trans hhi (Nat.add_le_add_right hfloor 1)⟩
      ordered := hinv.ordered
      reading := by
        intro c hc
        obtain ⟨body, hbody, hcom⟩ := hinv.reading c hc
        exact ⟨body, hbody, hstable _ _ _ hcom⟩
      registered := by
        intro c floor hc
        obtain ⟨body, hbody, hseq, hf⟩ := hinv.registered c floor hc
        exact ⟨body, hbody, hseq, Nat.le_trans hf hfloor⟩
      window := hinv.window
      results := hinv.results
      saved := by
        intro e he
        obtain ⟨c, hcom, hrest⟩ := hinv.saved e he
        exact ⟨c, hstable _ _ _ hcom, hrest⟩
      answered := by
        intro a ha
        obtain ⟨hcom, hrest⟩ := hinv.answered a ha
        exact ⟨hstable _ _ _ hcom, hrest⟩
      agree := hinv.agree
      inOrder := hinv.inOrder
      applied := fun c hc => hstable _ _ _ (hinv.applied c hc)
      next_eq := hinv.next_eq
      sent := hinv.sent }

/-- Reading the head puts nothing in flight. -/
theorem read (hinv : LinkInv api worker s) (hidle : s.delivery = .idle) {command : StoredCommand}
    (hread : ∃ body, command.body = some body ∧
      s.history.committed worker command.sequence = some body) :
    LinkInv api worker { s with delivery := .read command } :=
  { hinv with
    inFlight := by simpa [Link.inFlight, hidle, Delivery.inFlight] using hinv.inFlight
    ordered := by simpa [Link.inFlight, hidle, Delivery.inFlight] using hinv.ordered
    reading := by
      rintro c ⟨⟩
      exact hread
    registered := nofun }

/-- A task that ends without sending drops what it held. -/
theorem quit (hinv : LinkInv api worker s) : LinkInv api worker { s with delivery := .idle } :=
  { hinv with
    inFlight := fun c hc => hinv.inFlight c (by
      have hdown : c ∈ s.down := by simpa [Link.inFlight, Delivery.inFlight] using hc
      exact List.mem_append_left _ hdown)
    ordered := by
      have hdown := (List.pairwise_append.mp hinv.ordered).1
      simpa [Link.inFlight, Delivery.inFlight] using hdown
    reading := nofun
    registered := nofun }

/-- A registered command is the one above the floor, so nothing in flight is
newer. -/
theorem register (hinv : LinkInv api worker s) {command : StoredCommand}
    (hread : s.delivery = .read command)
    (hhead : command.sequence = s.history.db.floor worker + 1) :
    LinkInv api worker
      { s with delivery := .registered command (s.history.db.floor worker) } := by
  obtain ⟨body, hbody, hcom⟩ := hinv.reading command hread
  have hseq : body.sequence = s.history.db.floor worker + 1 :=
    (hinv.committed_sequence hcom).trans hhead
  have hdown : s.inFlight = s.down := by simp [Link.inFlight, hread, Delivery.inFlight]
  have hlo : s.ledger.nextSequence ≤ body.sequence + 1 := by
    rw [hseq]
    exact hinv.next_le
  exact
    { hinv with
      inFlight := by
        intro c hc
        simp only [Link.inFlight, Delivery.inFlight, hbody, Option.toList_some, List.mem_append,
          List.mem_singleton] at hc
        rcases hc with hc | heq
        · exact hinv.inFlight c (hdown ▸ hc)
        · rw [heq]
          exact ⟨by rw [hseq, ← hhead]; exact hcom, hlo, Nat.le_of_eq hseq⟩
      ordered := by
        simp only [Link.inFlight, Delivery.inFlight, hbody, Option.toList_some]
        refine List.pairwise_append.mpr ⟨hdown ▸ hinv.ordered, List.pairwise_singleton _ _, ?_⟩
        intro c hc c' hc'
        rw [List.mem_singleton.mp hc', hseq]
        exact (hinv.inFlight c (hdown ▸ hc)).2.2
      reading := nofun
      registered := by
        rintro c floor ⟨⟩
        exact ⟨body, hbody, hseq, Nat.le_refl _⟩ }

/-- Writing moves the command from the task to the socket. The floor may have
passed it since, but nothing else. -/
theorem send (hinv : LinkInv api worker s) {command : StoredCommand} {floor : Nat} {body : Command}
    (hreg : s.delivery = .registered command floor) (hbody : command.body = some body) :
    LinkInv api worker
      { s with
        delivery := .idle, down := s.down ++ [body]
        sent := s.sent ++ [⟨body, floor, s.history.db.floor worker⟩] } := by
  obtain ⟨body', hbody', hseq, hle⟩ := hinv.registered command floor hreg
  obtain rfl : body = body' := Option.some.inj (hbody.symm.trans hbody')
  have hflight : s.inFlight = s.down ++ [body] := by
    simp [Link.inFlight, hreg, Delivery.inFlight, hbody]
  exact
    { hinv with
      inFlight := by
        intro c hc
        refine hinv.inFlight c ?_
        rw [hflight]
        simpa [Link.inFlight, Delivery.inFlight] using hc
      ordered := by
        have hord := hinv.ordered
        rw [hflight] at hord
        simpa [Link.inFlight, Delivery.inFlight] using hord
      reading := nofun
      registered := nofun
      sent := by
        intro e he
        rcases List.mem_append.mp he with he | he
        · exact hinv.sent e he
        · obtain rfl := List.mem_singleton.mp he
          have hmem : body ∈ s.inFlight := by
            rw [hflight]
            exact List.mem_append_right _ List.mem_cons_self
          have hlo := (hinv.inFlight body hmem).2.1
          have hlt := hinv.floor_lt
          refine ⟨hseq, ?_⟩
          simp only
          omega }

/-! ### Receiving -/

/-- The command answered last is answered again from the ledger, which it leaves
as it was. -/
theorem handle_last (hinv : LinkInv api worker s) {c : Command}
    (hc : s.history.committed worker c.sequence = some c)
    (hlast : c.sequence + 1 = s.ledger.nextSequence) (outcome : Option (String × Option String)) :
    ∃ ack, s.ledger.handle api.codec worker c outcome = ⟨some ack, s.ledger, false⟩ ∧
      (c, ack) ∈ s.answers := by
  have hpos := (hinv.log worker _ c hc).2.1
  have hwin := hinv.window
  have hlen : 1 ≤ s.ledger.results.length := by
    rw [hwin, ledgerRetained]
    omega
  obtain ⟨e, he, heq⟩ := hinv.results.exists_mem (q := c.sequence) (by omega) (by omega)
  have hfind : s.ledger.results.find? (fun e => e.sequence == c.header.commandSequence) = some e :=
    hinv.results.find?_eq_some_iff.mpr ⟨he, heq⟩
  obtain ⟨c', hcom, hid, hhash, hans⟩ := hinv.saved e he
  rw [heq, hc] at hcom
  obtain rfl := Option.some.inj hcom
  refine ⟨e.ack, ?_, hans⟩
  simp only [Protocol6CommandLedger.handle, hfind]
  rw [if_pos ⟨hid, hhash⟩]

/-- The next command is applied; if that raises, the ledger does not change. -/
theorem handle_next (hinv : LinkInv api worker s) {c : Command}
    (hnext : c.sequence = s.ledger.nextSequence) (outcome : ApplyOutcome) :
    s.ledger.handle api.codec worker c outcome.answer = ⟨none, s.ledger, true⟩ ∨
      ∃ ack, Settles c ack ∧ s.ledger.handle api.codec worker c outcome.answer =
        ⟨some ack, s.ledger.remember c ack, true⟩ := by
  have hseq : c.header.commandSequence = s.ledger.nextSequence := hnext
  have hfind : s.ledger.results.find? (fun e => e.sequence == s.ledger.nextSequence) = none :=
    hinv.results.find?_eq_none (Nat.le_refl _)
  have hself : ¬ s.ledger.nextSequence < s.ledger.nextSequence := Nat.lt_irrefl _
  simp only [Protocol6CommandLedger.handle, hseq, hfind, if_neg hself]
  cases outcome with
  | raised => exact .inl rfl
  | accepted =>
    simp only [ApplyOutcome.answer, encodeAck]
    split
    · exact .inl rfl
    · next ack hack =>
      split at hack
      · obtain rfl := Option.some.inj hack
        exact .inr ⟨_, .inl rfl, rfl⟩
      · cases hack
  | unsupported =>
    simp only [ApplyOutcome.answer, encodeAck]
    split
    · exact .inl rfl
    · next ack hack =>
      split at hack
      · obtain rfl := Option.some.inj hack
        exact .inr ⟨_, .inr rfl, rfl⟩
      · cases hack

/-- The ledger keeps the last `ledgerRetained` answers, and so always the last
one. -/
theorem remember_window {ledger : Protocol6CommandLedger}
    (hwin : ledger.results.length = min (ledger.nextSequence - 1) ledgerRetained)
    (hres : Window.Contiguous Saved.sequence (ledger.nextSequence - ledger.results.length)
      ledger.nextSequence ledger.results) {c : Command} (ack : Ack)
    (hpos : 1 ≤ ledger.nextSequence) (hnext : c.sequence = ledger.nextSequence)
    (hmax : c.sequence < maxSequence) :
    (ledger.remember c ack).nextSequence = ledger.nextSequence + 1 ∧
      (ledger.remember c ack).results.length = min ledger.nextSequence ledgerRetained ∧
      Window.Contiguous Saved.sequence
        (ledger.nextSequence + 1 - (ledger.remember c ack).results.length)
        (ledger.nextSequence + 1) (ledger.remember c ack).results ∧
      ∀ e ∈ (ledger.remember c ack).results, e ∈ ledger.results ∨
        e = ⟨ledger.nextSequence, c.header.commandId, c.bodyHash, ack⟩ := by
  have hseq : c.header.commandSequence = ledger.nextSequence := hnext
  have hgrown := hres.append (Nat.sub_le _ _)
    (r := (⟨ledger.nextSequence, c.header.commandId, c.bodyHash, ack⟩ : Saved)) rfl
  have hnew : (ledger.remember c ack).nextSequence = ledger.nextSequence + 1 := by
    simp only [Protocol6CommandLedger.remember, hseq]
    exact Nat.min_eq_left (by rw [← hnext]; exact hmax)
  refine ⟨hnew, ?_⟩
  simp only [Protocol6CommandLedger.remember, hseq, List.length_append, List.length_singleton]
  split
  · next hfull =>
    have hfull' : ledger.results.length = ledgerRetained := by omega
    have hlen : ∀ e : Saved, (ledger.results ++ [e]).tail.length = ledger.results.length := by
      simp
    refine ⟨by rw [hlen]; omega, ?_, ?_⟩
    · rw [hlen]
      have hlo : ledger.nextSequence + 1 - ledger.results.length =
          ledger.nextSequence - ledger.results.length + 1 := by omega
      rw [hlo]
      exact hgrown.tail
    · intro e he
      simpa using List.mem_of_mem_tail he
  · next hroom =>
    refine ⟨by rw [List.length_append, List.length_singleton]; omega, ?_, ?_⟩
    · rw [List.length_append, List.length_singleton, Nat.add_sub_add_right]
      exact hgrown
    · intro e he
      simpa using he

/-- The worker takes the oldest command in flight: it is the next one or the last
answered one, so the ledger applies it or answers it again. -/
theorem receive (hinv : LinkInv api worker s) {c : Command} {rest : List Command}
    (hserving : s.serving = true) (hdown : s.down = c :: rest) (outcome : ApplyOutcome) :
    LinkInv api worker (s.receive api worker c rest outcome) := by
  have hflight : s.inFlight = c :: (rest ++ s.delivery.inFlight) := by
    rw [Link.inFlight, hdown, List.cons_append]
  have hmem : c ∈ s.inFlight := by
    rw [hflight]
    exact List.mem_cons_self
  have htail : ∀ c' ∈ rest ++ s.delivery.inFlight, c' ∈ s.inFlight := by
    intro c' hc'
    rw [hflight]
    exact List.mem_cons_of_mem _ hc'
  have hord := hinv.ordered
  rw [hflight, List.pairwise_cons] at hord
  obtain ⟨hcom, hlo, hhi⟩ := hinv.inFlight c hmem
  have hbelow := hinv.floor_lt
  have hvalid := hinv.validateCommand hcom
  unfold Link.receive
  rw [if_pos hvalid]
  rcases Nat.eq_or_lt_of_le hlo with hlast | hgt
  · -- the command answered last, sent again
    obtain ⟨ack, hhandle, hans⟩ := hinv.handle_last hcom hlast.symm outcome.answer
    rw [hhandle]
    dsimp only
    rw [if_neg Bool.false_ne_true]
    have hsettled := hinv.answered _ hans
    exact
      { hinv with
        inFlight := fun c' hc' => hinv.inFlight c' (htail c' hc')
        ordered := hord.2
        saved := by
          intro e he
          obtain ⟨c', hcom', hid, hhash, hmem'⟩ := hinv.saved e he
          exact ⟨c', hcom', hid, hhash, List.mem_append_left _ hmem'⟩
        answered := by
          intro a ha
          rcases List.mem_append.mp ha with ha | ha
          · exact hinv.answered a ha
          · rw [List.mem_singleton.mp ha]
            exact hsettled
        agree := by
          have hold : ∀ a ∈ s.answers ++ [(c, ack)], a ∈ s.answers := by
            intro a ha
            rcases List.mem_append.mp ha with ha | ha
            · exact ha
            · rw [List.mem_singleton.mp ha]
              exact hans
          exact fun a ha b hb => hinv.agree a (hold a ha) b (hold b hb)
        next_eq := fun _ => hinv.next_eq hserving }
  · -- the next command
    have hnext : c.sequence = s.ledger.nextSequence := by omega
    have hmax := (hinv.log worker _ c hcom).2.2.1
    have hgrow : Window.Contiguous Command.sequence 1 ((s.applied ++ [c]).length + 1)
        (s.applied ++ [c]) := by
      rw [List.length_append, List.length_singleton]
      exact hinv.inOrder.append (Nat.le_add_left 1 _) (hnext.trans (hinv.next_eq hserving))
    have happlied : ∀ c' ∈ s.applied ++ [c], s.history.committed worker c'.sequence = some c' := by
      intro c' hc'
      rcases List.mem_append.mp hc' with hc' | hc'
      · exact hinv.applied c' hc'
      · rw [List.mem_singleton.mp hc']
        exact hcom
    rcases hinv.handle_next hnext outcome with hhandle | ⟨ack, hsettles, hhandle⟩
    · -- `apply` raised: the worker stops serving
      rw [hhandle]
      dsimp only
      rw [if_pos rfl]
      exact
        { hinv with
          inFlight := fun c' hc' => hinv.inFlight c' (htail c' hc')
          ordered := hord.2
          inOrder := hgrow
          applied := happlied
          next_eq := nofun }
    · rw [hhandle]
      dsimp only
      rw [if_pos rfl]
      obtain ⟨hn, hlen, hcont, hold⟩ := remember_window hinv.window hinv.results ack
        (Nat.lt_of_le_of_lt (Nat.zero_le _) hbelow) hnext hmax
      have hfresh : ∀ a ∈ s.answers, a.1.sequence ≠ c.sequence := by
        intro a ha heq
        have hlt := (hinv.answered a ha).2.1
        omega
      exact
        { hinv with
          floor_lt := by
            rw [hn]
            exact Nat.lt_succ_of_lt hbelow
          next_le := by
            rw [hn, ← hnext]
            exact Nat.succ_le_succ hhi
          acknowledged := by
            intro r hr hs
            rw [hn]
            exact Nat.lt_succ_of_lt (hinv.acknowledged r hr hs)
          inFlight := by
            intro c' hc'
            obtain ⟨hcom', -, hhi'⟩ := hinv.inFlight c' (htail c' hc')
            have hle := hord.1 c' hc'
            refine ⟨hcom', ?_, hhi'⟩
            rw [hn]
            omega
          ordered := hord.2
          window := by
            rw [hn]
            exact hlen
          results := by
            rw [hn]
            exact hcont
          saved := by
            intro e he
            rcases hold e he with he | rfl
            · obtain ⟨c', hcom', hid, hhash, hmem'⟩ := hinv.saved e he
              exact ⟨c', hcom', hid, hhash, List.mem_append_left _ hmem'⟩
            · exact ⟨c, hnext ▸ hcom, rfl, rfl, List.mem_append_right _ List.mem_cons_self⟩
          answered := by
            intro a ha
            rw [hn]
            rcases List.mem_append.mp ha with ha | ha
            · obtain ⟨hcom', hlt, hset⟩ := hinv.answered a ha
              exact ⟨hcom', Nat.lt_succ_of_lt hlt, hset⟩
            · rw [List.mem_singleton.mp ha]
              exact ⟨hcom, Nat.lt_succ_of_le (Nat.le_of_eq hnext), hsettles⟩
          agree := by
            intro a ha b hb heq
            rcases List.mem_append.mp ha with ha | ha <;> rcases List.mem_append.mp hb with hb | hb
            · exact hinv.agree a ha b hb heq
            · rw [List.mem_singleton.mp hb] at heq
              exact absurd heq (hfresh a ha)
            · rw [List.mem_singleton.mp ha] at heq
              exact absurd heq.symm (hfresh b hb)
            · rw [List.mem_singleton.mp ha, List.mem_singleton.mp hb]
          inOrder := hgrow
          applied := happlied
          next_eq := by
            intro _
            rw [hn, hinv.next_eq hserving, List.length_append, List.length_singleton] }

end LinkInv

/-! ## Every run of the link -/

theorem init_link {s : Link} (h : (linkMachine api worker).init s) : LinkInv api worker s := by
  obtain ⟨h₀, grant, hreach, hnone, rfl⟩ := h
  have hinv := reach_inv hreach
  have hconn : ((Op.connect worker grant).run api h₀.db).connections.get worker =
      some (.fresh grant) := by
    simp [Op.run, hnone, Db.setConnection]
  have hempty : ((Op.connect worker grant).run api h₀.db).journal worker = [] := by
    have hall := hinv worker
    rw [hnone] at hall
    simpa [Op.run, hnone, Db.setConnection] using hall
  have hfloor : ((Op.connect worker grant).run api h₀.db).floor worker = 0 := Db.floor_eq hconn
  exact
    { history := (connect_step hinv worker grant api (.connect worker grant)).1
      log := (step_log hinv (reach_log hreach) (.connect worker grant)).1
      connected := ⟨_, hconn⟩
      floor_lt := by
        rw [hfloor]
        exact Nat.zero_lt_one
      next_le := by
        rw [hfloor]
        exact Nat.le_succ 1
      acknowledged := by simp [hempty]
      inFlight := by simp [Link.inFlight, Delivery.inFlight]
      ordered := by simp [Link.inFlight, Delivery.inFlight]
      reading := fun _ h => by cases h
      registered := fun _ _ h => by cases h
      window := rfl
      results := Window.contiguous_nil 1
      saved := by simp [Protocol6CommandLedger.new]
      answered := by simp
      agree := by simp
      inOrder := Window.contiguous_nil 1
      applied := by simp
      next_eq := fun _ => rfl
      sent := by simp }

/-- The step lemma of the link. -/
theorem step_link {s s' : Link} {l : LinkStep} (hinv : LinkInv api worker s)
    (hstep : linkStep api worker s l = some s') : LinkInv api worker s' := by
  cases l with
  | transaction op =>
    simp only [linkStep] at hstep
    split at hstep
    · cases hstep
    · next hop =>
      obtain rfl := Option.some.inj hstep
      refine hinv.transact op fun call hcall hexp => absurd ?_ hop
      rw [hcall, ← hexp]
      exact beq_self_eq_true _
  | read transportOwnerId keyRing now =>
    simp only [linkStep] at hstep
    split at hstep
    swap
    · cases hstep
    next hidle =>
    split at hstep
    · next command hread =>
      obtain rfl := Option.some.inj hstep
      exact hinv.read hidle (readExactPending_committed hinv.history hread)
    · obtain rfl := Option.some.inj hstep
      exact hinv
  | register transportOwnerId accept now =>
    simp only [linkStep] at hstep
    split at hstep
    swap
    · cases hstep
    next command hread =>
    split at hstep
    · next hreg =>
      obtain rfl := Option.some.inj hstep
      exact hinv.register hread (registerDelivery_head hreg)
    · obtain rfl := Option.some.inj hstep
      exact hinv.quit
  | send =>
    simp only [linkStep] at hstep
    split at hstep
    swap
    · cases hstep
    next command floor hreg =>
    split at hstep
    · next body hbody =>
      obtain rfl := Option.some.inj hstep
      exact hinv.send hreg hbody
    · cases hstep
  | quit =>
    obtain rfl := Option.some.inj hstep
    exact hinv.quit
  | receive outcome =>
    simp only [linkStep] at hstep
    split at hstep
    · next command rest hserving hdown =>
      obtain rfl := Option.some.inj hstep
      exact hinv.receive hserving hdown outcome
    · cases hstep
  | acknowledge index transportOwnerId keyRing now =>
    simp only [linkStep] at hstep
    split at hstep
    · next command ack hget =>
      obtain rfl := Option.some.inj hstep
      refine hinv.transact _ fun call hcall _ => ?_
      obtain ⟨-, hlt, hsettles⟩ := hinv.answered _ (List.mem_of_getElem? hget)
      have hheader : ack.header = command.header := hsettles.header
      obtain rfl := Op.acknowledge.inj hcall
      simp only [hheader]
      exact hlt
    · cases hstep

theorem reach_link {s : Link} (hreach : (linkMachine api worker).Reach Machine.anyStep s) :
    LinkInv api worker s :=
  hreach.invariant (fun _ => init_link) fun _ _ _ hinv _ hstep => step_link hinv hstep

/-- A command the worker has answered is not applied again when it comes again:
it draws the very acknowledgement it drew before. -/
theorem receive_again {s s' : Link} (hinv : LinkInv api worker s) {c : Command}
    {rest : List Command} (hserving : s.serving = true) (hdown : s.down = c :: rest)
    (hagain : ∃ a ∈ s.answers, a.1 = c) {outcome : ApplyOutcome}
    (hstep : linkStep api worker s (.receive outcome) = some s') :
    s'.applied = s.applied ∧
      ∃ ack, (c, ack) ∈ s.answers ∧ s'.answers = s.answers ++ [(c, ack)] := by
  obtain ⟨a, ha, rfl⟩ := hagain
  obtain ⟨hcom, hlt, -⟩ := hinv.answered a ha
  have hmem : a.1 ∈ s.inFlight := by
    rw [Link.inFlight, hdown]
    exact List.mem_append_left _ List.mem_cons_self
  have hlo := (hinv.inFlight a.1 hmem).2.1
  obtain ⟨ack, hhandle, hans⟩ := hinv.handle_last hcom (by omega) outcome.answer
  simp only [linkStep, hserving, hdown, Link.receive, hinv.validateCommand hcom, if_true,
    hhandle] at hstep
  obtain rfl := Option.some.inj hstep
  exact ⟨by simp, ack, hans, rfl⟩

/-- Exactly-once, in-order commands. In every run of a connection, whatever the
interleaving of transactions, deliveries and acknowledgements:

* the worker applied exactly the commands committed at sequences `1, 2, …`;
* every command written to its socket was the one above the acknowledged floor
  when it was registered, and when it was written the floor was still there or
  had passed that very command;
* two answers to one sequence are the same acknowledgement, and a command
  answered before is answered again without being applied;
* no answer is a `sequence_gap` or a `stale_sequence` refusal. -/
theorem exactly_once_in_order (api : Api) (worker : Incarnation) {s : Link}
    (hreach : (linkMachine api worker).Reach Machine.anyStep s) :
    (Window.Contiguous Command.sequence 1 (s.applied.length + 1) s.applied ∧
      ∀ c ∈ s.applied, s.history.committed worker c.sequence = some c) ∧
    (∀ e ∈ s.sent, e.command.sequence = e.registeredAt + 1 ∧
      (e.writtenAt = e.registeredAt ∨ e.writtenAt = e.command.sequence)) ∧
    ((∀ a ∈ s.answers, ∀ b ∈ s.answers, a.1.sequence = b.1.sequence → a.2 = b.2) ∧
      ∀ c rest outcome s', s.serving = true → s.down = c :: rest → (∃ a ∈ s.answers, a.1 = c) →
        linkStep api worker s (.receive outcome) = some s' →
        s'.applied = s.applied ∧
          ∃ ack, (c, ack) ∈ s.answers ∧ s'.answers = s.answers ++ [(c, ack)]) ∧
    ∀ a ∈ s.answers, a.2.code ≠ some "sequence_gap" ∧ a.2.code ≠ some "stale_sequence" := by
  have hinv := reach_link hreach
  refine ⟨⟨hinv.inOrder, hinv.applied⟩, hinv.sent, ⟨hinv.agree, ?_⟩, ?_⟩
  · intro c rest outcome s' hserving hdown hagain hstep
    exact receive_again hinv hserving hdown hagain hstep
  · intro a ha
    rcases (hinv.answered a ha).2.2.code with h | h
    · rw [h]
      exact ⟨nofun, nofun⟩
    · rw [h]
      constructor <;> decide

/-! ### A run

A command is delivered and applied; before its acknowledgement is recorded, the
delivery task registers it once more. -/

section Sample

def sampleLinkStart : Link :=
  { history := ⟨(Op.connect sampleWorker sampleGrant).run sampleApi sampleStart.db,
      sampleStart.committed⟩
    delivery := .idle, down := [], ledger := .new, serving := true
    applied := [], answers := [], sent := [] }

def sampleLinkSteps : List LinkStep :=
  [.transaction (.elsewhere sampleSubjects fun _ c => c.toGrant),
   .transaction (.commitCommand sampleCommit),
   .read 2 sampleCommit.keyRing 6, .register 2 true 6, .send, .receive .accepted,
   .read 2 sampleCommit.keyRing 7, .register 2 true 7,
   .acknowledge 0 2 sampleCommit.keyRing 8, .send, .receive .accepted]

/-- Where the run ends. -/
def sampleLinkEnd : Link :=
  ((linkMachine sampleApi sampleWorker).run sampleLinkStart sampleLinkSteps).getD sampleLinkStart

theorem sampleLinkEnd_reach :
    (linkMachine sampleApi sampleWorker).Reach Machine.anyStep sampleLinkEnd := by
  have hstart : (journalMachine sampleApi).init sampleStart :=
    ⟨fun _ => rfl, fun _ => rfl, fun _ _ => rfl⟩
  have hinit : (linkMachine sampleApi sampleWorker).init sampleLinkStart :=
    ⟨sampleStart, sampleGrant, .of_init hstart, rfl, rfl⟩
  have hrun : (linkMachine sampleApi sampleWorker).run sampleLinkStart sampleLinkSteps =
      some sampleLinkEnd := rfl
  exact (Machine.Reach.of_init hinit).path (Machine.path_of_run_any hrun)

/-- The second copy is written when its sequence is already acknowledged: not
every command is sent at `acknowledged_floor + 1`. -/
theorem send_at_floor :
    ∃ s, (linkMachine sampleApi sampleWorker).Reach Machine.anyStep s ∧
      ∃ e ∈ s.sent, e.command.sequence ≠ e.writtenAt + 1 := by
  refine ⟨sampleLinkEnd, sampleLinkEnd_reach, ?_⟩
  have hsent : sampleLinkEnd.sent.map (fun e => (e.command.sequence, e.writtenAt)) =
      [(1, 0), (1, 1)] := by rfl
  have hmem : (1, 1) ∈ sampleLinkEnd.sent.map (fun e => (e.command.sequence, e.writtenAt)) := by
    rw [hsent]
    exact List.mem_cons_of_mem _ List.mem_cons_self
  obtain ⟨e, he, heq⟩ := List.mem_map.mp hmem
  obtain ⟨hseq, hwritten⟩ := Prod.mk.inj heq
  exact ⟨e, he, by omega⟩

theorem exactly_once_sample :
    (Window.Contiguous Command.sequence 1 2 sampleLinkEnd.applied ∧
      ∀ c ∈ sampleLinkEnd.applied,
        sampleLinkEnd.history.committed sampleWorker c.sequence = some c) ∧
    sampleLinkEnd.answers.length = 2 :=
  ⟨(exactly_once_in_order sampleApi sampleWorker sampleLinkEnd_reach).1, by rfl⟩

end Sample

end Potocolom.Journal
