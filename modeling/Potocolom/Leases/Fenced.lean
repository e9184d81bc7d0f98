import Potocolom.Leases.Statements

/-! # The lease fences every command

Any number of processes acquire, renew, register, grant, commit and deliver in any
order. At any instant one tuple of owner, epoch and lease id is live in a region, and
commands pass only under it. The epoch, however, is bumped on one reading of the clock
and the lease id on a later one. -/

namespace Potocolom.Leases

open Journal Guard

/-- A `renew_worker_grant` that has begun its statement: the lease rows it sees are
those of its snapshot, and it takes no lock on them. -/
structure GrantStatement where
  process : Process
  worker : Incarnation
  grantNonce : Uuid
  leases : Table String Lease
  moment : Time

/-- What is done under the lease. -/
inductive Passage where
  | committed
  | read
  | registered
  deriving DecidableEq

/-- A command that passed, with the connection and the lease row as they stood then. -/
structure Event where
  passage : Passage
  process : Process
  command : Header
  connection : Connection
  lease : Lease
  moment : Time

/-- A grant that was answered, with the region's lease row as it stood then. -/
structure Advertised where
  grant : WorkGrant
  lease : Option Lease
  moment : Time

structure World where
  now : Time
  leases : Table String Lease
  workers : Table Incarnation Worker
  /-- `_lease` of each process. -/
  memory : Process → Option SchedulerLease
  grants : Nat → Option GrantStatement
  journal : List Header
  events : List Event
  advertised : List Advertised

inductive Action where
  | tick (now : Time)
  /-- `returned`: the process is not cancelled before it stores the row. -/
  | acquire (p : Process) (region : String) (leaseId : Uuid) (clock : AcquireClock)
      (returned : Bool)
  | renew (p : Process) (clock : RenewClock) (returned : Bool)
  | register (p : Process) (call : RegisterCall)
  | activate (p : Process) (k : Incarnation) (blocked : Bool) (moment : Time)
  /-- The granting statement takes its snapshot. -/
  | grantRead (g : Nat) (p : Process) (k : Incarnation) (grantNonce : Uuid)
  /-- It holds the worker's row, writes it and commits. -/
  | grantWrite (g : Nat) (clock : GrantClock)
  | commit (p : Process) (call : CommandCall) (clock : DeadlineClock)
  | readPending (p : Process) (k : Incarnation) (moment : Time)
  | registerDelivery (p : Process) (command : Header) (clock : DeadlineClock)
  /-- An acknowledgement moves the floor. -/
  | acknowledge (k : Incarnation) (floor : Nat)
  /-- `close_worker`, or an erasure. -/
  | close (k : Incarnation) (lifecycle : Lifecycle) (moment : Time)

namespace World

def remember (w : World) (p : Process) (lease : Option SchedulerLease) : World :=
  { w with memory := Function.update w.memory p lease }

/-- Commit a lease row and the copies of its expiry. -/
def putLease (w : World) (region : String) (lease : Lease) (now : Time) : World :=
  { w with
    now := now, leases := w.leases.set region lease
    workers := extendWorkers region lease w.workers }

def connection (w : World) (k : Incarnation) : Option Connection :=
  (w.workers.get k).map Worker.toConnection

def putWorker (w : World) (k : Incarnation) (row : Worker) : World :=
  { w with workers := w.workers.set k row }

def endGrant (w : World) (g : Nat) : World :=
  { w with grants := Function.update w.grants g none }

end World

def step (w : World) : Action → Option World
  | .tick now => if w.now ≤ now then some { w with now := now } else none
  | .acquire p region leaseId clock returned =>
    if clock.After w.now then
      (acquireRow p leaseId clock (w.leases.get region)).map fun lease =>
        let committed := w.putLease region lease clock.expires
        if returned then committed.remember p (some ⟨lease, region⟩) else committed
    else none
  | .renew p clock returned =>
    match w.memory p with
    | none => none
    | some held =>
      if w.now ≤ clock.guard ∧ clock.guard ≤ clock.expires then
        match (w.leases.get held.region).bind (renewRow p held clock) with
        | some lease =>
          let committed := w.putLease held.region lease clock.expires
          some (if returned then committed.remember p (some ⟨lease, held.region⟩) else committed)
        -- the lease was lost
        | none => some { w.remember p none with now := clock.guard }
      else none
  | .register p call =>
    if w.now ≤ call.leaseAt ∧ call.leaseAt ≤ call.closedAt then
      match registerWorker p call w.leases w.workers with
      | .ok workers => some { w with now := call.closedAt, workers := workers }
      | .error _ => none
    else none
  | .activate p k blocked moment =>
    if w.now ≤ moment then
      (activateInitialWorker p k blocked moment w.leases w.workers).map fun workers =>
        { w with now := moment, workers := workers }
    else none
  | .grantRead g p k grantNonce =>
    match w.grants g with
    | none => some { w with
        grants := Function.update w.grants g (some ⟨p, k, grantNonce, w.leases, w.now⟩) }
    | some _ => none
  | .grantWrite g clock =>
    match w.grants g with
    | none => none
    | some statement =>
      -- the values may be computed before the row lock is had, the answer is not
      if clock.After statement.moment ∧ w.now ≤ clock.answer then
        match ownedWorker statement.process statement.worker w.workers with
        | none => some (w.endGrant g)
        | some row =>
          match statement.leases.get row.region with
          | none => some (w.endGrant g)
          | some seen =>
            if row.grantNonce ≠ statement.grantNonce then
              let written := grantRow row seen statement.grantNonce clock
              let grant := workGrant statement.worker written clock.answer
              some { (w.endGrant g).putWorker statement.worker written with
                now := clock.answer
                advertised := ⟨grant, w.leases.get row.region, clock.answer⟩ :: w.advertised }
            else some (w.endGrant g)
      else none
  | .commit p call clock =>
    if w.now ≤ clock.lease ∧ clock.lease ≤ clock.grant then
      match w.workers.get call.worker with
      | none => none
      | some row =>
        match commitAuthority p call clock w.leases (some row.toConnection) with
        | .ok (connection, lease) =>
          let command := commandHeader call connection
          some { w.putWorker call.worker
              { row with nextCommandSequence := row.nextCommandSequence + 1 } with
            now := clock.grant
            journal := command :: w.journal
            events := ⟨.committed, p, command, connection, lease, clock.grant⟩ :: w.events }
        | .error _ => none
    else none
  | .readPending p k moment =>
    if w.now ≤ moment then
      match readAuthority p moment w.leases (w.connection k) with
      | none => none
      | some (connection, lease) =>
        match w.journal.find? fun command => command.worker = k ∧
            command.commandSequence = connection.acknowledgedFloor + 1 ∧
            command.ownerEpoch = connection.ownerEpoch ∧
            command.leaseId = connection.leaseId with
        | some command => some { w with
            now := moment
            events := ⟨.read, p, command, connection, lease, moment⟩ :: w.events }
        | none => none
    else none
  | .registerDelivery p command clock =>
    if command ∈ w.journal ∧ w.now ≤ clock.lease ∧ clock.lease ≤ clock.grant then
      match deliveryAuthority p command clock w.leases (w.connection command.worker) with
      | .ok (connection, lease) => some { w with
          now := clock.grant
          events := ⟨.registered, p, command, connection, lease, clock.grant⟩ :: w.events }
      | .error _ => none
    else none
  | .acknowledge k floor =>
    (w.workers.get k).map fun row => w.putWorker k { row with acknowledgedFloor := floor }
  | .close k lifecycle moment =>
    if w.now ≤ moment then
      (w.workers.get k).map fun row =>
        { w.putWorker k
            { row with lifecycle := lifecycle, closedAt := some (row.closedAt.getD moment) } with
          now := moment }
    else none

/-- No region has a lease yet. -/
def start : World := ⟨0, ∅, ∅, fun _ => none, fun _ => none, [], [], []⟩

def machine : Machine World Action where
  init w := w = start
  step := step

variable {w t u : World} {region : String} {l row : Lease}

/-! ## The lease row moves forward -/

/-- The tuple that commands are compared with. -/
def holder (l : Lease) : Uuid × Nat × Uuid := (l.ownerId, l.ownerEpoch, l.leaseId)

/-- The region's row is no older than `l`, and of another tuple only once `l` expired. -/
def World.Covers (w : World) (region : String) (l : Lease) : Prop :=
  ∃ row, w.leases.get region = some row ∧ l.expiresAt ≤ row.expiresAt ∧
    (holder l = holder row ∨ l.expiresAt ≤ w.now)

theorem covers_self (h : w.leases.get region = some l) : w.Covers region l :=
  ⟨l, h, le_rfl, .inl rfl⟩

/-- What every step does to the clock and the lease rows. -/
structure Moves (w t : World) : Prop where
  now_le : w.now ≤ t.now
  covers : ∀ region l, w.leases.get region = some l → t.Covers region l

theorem Moves.covered (h : Moves w t) (hl : w.Covers region l) : t.Covers region l := by
  rcases hl with ⟨row, hrow, hle, hsame⟩
  rcases h.covers region row hrow with ⟨row', hrow', hle', hsame'⟩
  refine ⟨row', hrow', hle.trans hle', ?_⟩
  rcases hsame with hsame | hexpired
  · rcases hsame' with hsame' | hexpired'
    · exact .inl (hsame.trans hsame')
    · exact .inr (hle.trans hexpired')
  · exact .inr (hexpired.trans h.now_le)

theorem Moves.refl (w : World) : Moves w w :=
  ⟨le_rfl, fun _ _ h => covers_self h⟩

theorem Moves.trans (h : Moves w t) (h' : Moves t u) : Moves w u :=
  ⟨h.now_le.trans h'.now_le, fun region l hl => h'.covered (h.covers region l hl)⟩

theorem Moves.of_same (hnow : w.now ≤ t.now) (hleases : t.leases = w.leases) : Moves w t := by
  refine ⟨hnow, fun region l hl => covers_self ?_⟩
  rw [hleases]
  exact hl

/-- Two leases that both cover what is not expired are of one tuple. -/
theorem World.Covers.holder_eq (h : w.Covers region l) (hlive : w.now < l.expiresAt)
    (hrow : w.leases.get region = some row) : holder l = holder row := by
  rcases h with ⟨row', hrow', _, hsame | hexpired⟩
  · obtain rfl : row' = row := Option.some.inj (hrow'.symm.trans hrow)
    exact hsame
  · exact absurd hlive hexpired.not_gt

section acquire

variable {p : Process} {leaseId : Uuid} {c : AcquireClock} {old : Option Lease} {now : Time}

/-- The condition that keeps the lease id is read later than the one that keeps the
epoch, so a row that keeps its lease id keeps its epoch. -/
theorem acquireRow_covers (h : acquireRow p leaseId c old = some l) (hclock : c.After now)
    (hold : old = some row) :
    (holder row = holder l ∨ row.expiresAt ≤ c.expires) := by
  subst hold
  rcases hclock with ⟨_, _, hepoch, hid, hexpires⟩
  simp only [acquireRow, Option.ite_none_right_eq_some, Option.some.injEq] at h
  rcases h with ⟨hguard, rfl⟩
  by_cases howner : row.ownerId = p.schedulerOwnerId
  · by_cases hlive : c.leaseId < row.expiresAt
    · have hlive' : c.epoch < row.expiresAt := hid.trans_lt hlive
      left
      simp [holder, howner, hlive, hlive']
    · exact .inr ((not_lt.1 hlive).trans hexpires)
  · rcases hguard with hguard | hguard
    · exact absurd hguard howner
    · exact .inr (hguard.trans (hepoch.trans (hid.trans hexpires)))

theorem acquireRow_expires (h : acquireRow p leaseId c old = some l) (hclock : c.After now) :
    now + leaseTime ≤ l.expiresAt ∧ l.expiresAt ≤ c.expires + leaseTime := by
  rcases hclock with ⟨hvalues, hguard, hepoch, hid, hexpires⟩
  rcases old with _ | row
  · simp only [acquireRow, Option.some.injEq] at h
    subst h
    exact ⟨Nat.add_le_add_right hvalues _,
      Nat.add_le_add_right (hguard.trans (hepoch.trans (hid.trans hexpires))) _⟩
  · simp only [acquireRow, Option.ite_none_right_eq_some, Option.some.injEq] at h
    rcases h with ⟨_, rfl⟩
    have hnow := hvalues.trans (hguard.trans (hepoch.trans (hid.trans hexpires)))
    exact ⟨Nat.add_le_add_right hnow _, le_rfl⟩

end acquire

theorem renewRow_eq_some {p : Process} {held : SchedulerLease} {c : RenewClock} :
    renewRow p held c row = some l ↔
      (row.ownerId = p.schedulerOwnerId ∧ row.ownerEpoch = held.ownerEpoch ∧
        row.leaseId = held.leaseId ∧ c.guard < row.expiresAt) ∧
      l = { row with expiresAt := c.expires + leaseTime } := by
  rw [renewRow, Option.ite_none_right_eq_some, Option.some.injEq, eq_comm (b := l)]

/-- How a step that writes a lease row comes to it. -/
inductive Wrote (w : World) (region : String) (l : Lease) (now : Time) : Action → Prop where
  | acquired {p : Process} {leaseId : Uuid} {c : AcquireClock} {returned : Bool} :
      c.After w.now → c.expires = now →
      acquireRow p leaseId c (w.leases.get region) = some l →
      Wrote w region l now (.acquire p region leaseId c returned)
  | renewed {p : Process} {held : SchedulerLease} {c : RenewClock} {row : Lease}
      {returned : Bool} :
      w.now ≤ c.expires → c.expires = now → w.leases.get region = some row →
      renewRow p held c row = some l → Wrote w region l now (.renew p c returned)

/-- Where the grant of a worker row comes from. -/
inductive GrantFrom (w t : World) (k : Incarnation) (row : Worker) : Prop where
  | expired : row.grantExpiresAt ≤ t.now → GrantFrom w t k row
  | kept {old : Worker} : w.workers.get k = some old → row.region = old.region →
      row.grantExpiresAt = old.grantExpiresAt → GrantFrom w t k row
  | lease {l : Lease} : w.leases.get row.region = some l → row.grantExpiresAt ≤ l.expiresAt →
      GrantFrom w t k row
  | snapshot {g : Nat} {statement : GrantStatement} {l : Lease} :
      w.grants g = some statement → statement.leases.get row.region = some l →
      row.grantExpiresAt ≤ l.expiresAt → GrantFrom w t k row

/-- The authority a connection was registered under, which nothing rewrites. -/
def SameAuthority (row row' : Worker) : Prop :=
  row'.region = row.region ∧ row'.ownerEpoch = row.ownerEpoch ∧ row'.leaseId = row.leaseId

/-- Whether the action lets a command pass. -/
def Action.passes : Action → Bool
  | .commit .. | .readPending .. | .registerDelivery .. => true
  | _ => false

/-- Whether the action may answer a grant. -/
def Action.advertises : Action → Bool
  | .grantWrite .. => true
  | _ => false

/-- What a step can do to the clock, the lease rows and their copies. -/
structure Change (w t : World) (a : Action) : Prop where
  now_le : w.now ≤ t.now
  leases : t.leases = w.leases ∨
      ∃ region l, t.leases = w.leases.set region l ∧ Wrote w region l t.now a := by
    exact .inl rfl
  memory : ∀ p m, t.memory p = some m →
      w.memory p = some m ∨ t.leases.get m.region = some m.toLease := by
    exact fun _ _ h => .inl h
  grants : ∀ g statement, t.grants g = some statement →
      w.grants g = some statement ∨ statement.leases = w.leases := by
    exact fun _ _ h => .inl h
  origin : ∀ k row, t.workers.get k = some row → GrantFrom w t k row := by
    exact fun _ _ h => .kept h rfl rfl
  kept : ∀ k row, w.workers.get k = some row →
      ∃ row', t.workers.get k = some row' ∧ SameAuthority row row' := by
    exact fun _ row h => ⟨row, h, rfl, rfl, rfl⟩
  journal : ∀ command ∈ t.journal, command ∈ w.journal ∨
      ∃ row, w.workers.get command.worker = some row ∧ command.ownerEpoch = row.ownerEpoch ∧
        command.leaseId = row.leaseId := by
    exact fun _ h => .inl h
  events : a.passes = false → t.events = w.events := by exact fun _ => rfl
  advertised : a.advertises = false → t.advertised = w.advertised := by exact fun _ => rfl

section workers

variable {k : Incarnation} {old new : Worker} {f : Worker → Worker}
  {p : Incarnation → Worker → Prop} [∀ k r, Decidable (p k r)]

theorem origin_putWorker (hnew : t.workers = w.workers.set k new) (hgrant : GrantFrom w t k new) :
    ∀ k' row, t.workers.get k' = some row → GrantFrom w t k' row := by
  intro k' row hrow
  rw [hnew, Table.get_set] at hrow
  by_cases hk : k' = k
  · rw [if_pos hk] at hrow
    cases hrow
    rw [hk]
    exact hgrant
  · rw [if_neg hk] at hrow
    exact .kept hrow rfl rfl

theorem kept_putWorker (hold : w.workers.get k = some old)
    (hnew : t.workers = w.workers.set k new) (hsame : SameAuthority old new) :
    ∀ k' row, w.workers.get k' = some row →
      ∃ row', t.workers.get k' = some row' ∧ SameAuthority row row' := by
  intro k' row hrow
  rw [hnew, Table.get_set]
  by_cases hk : k' = k
  · rw [if_pos hk]
    rw [hk, hold] at hrow
    cases hrow
    exact ⟨new, rfl, hsame⟩
  · rw [if_neg hk]
    exact ⟨row, hrow, rfl, rfl, rfl⟩

/-- An update that leaves the authority and the grant of a row alone. -/
theorem origin_updateWhere (hnew : t.workers = w.workers.updateWhere p f)
    (hf : ∀ r, (f r).region = r.region ∧ (f r).grantExpiresAt = r.grantExpiresAt) :
    ∀ k row, t.workers.get k = some row → GrantFrom w t k row := by
  intro k row hrow
  rw [hnew, Table.get_updateWhere, Option.map_eq_some_iff] at hrow
  rcases hrow with ⟨old, hold, rfl⟩
  split
  · exact .kept hold (hf old).1 (hf old).2
  · exact .kept hold rfl rfl

theorem kept_updateWhere (hnew : t.workers = w.workers.updateWhere p f)
    (hf : ∀ r, SameAuthority r (f r)) :
    ∀ k row, w.workers.get k = some row →
      ∃ row', t.workers.get k = some row' ∧ SameAuthority row row' := by
  intro k row hrow
  rw [hnew, Table.get_updateWhere, hrow]
  refine ⟨if p k row then f row else row, rfl, ?_⟩
  split
  · exact hf row
  · exact ⟨rfl, rfl, rfl⟩

end workers

/-- A lease row is written, its workers copy the expiry, and the process may keep it. -/
theorem change_putLease {a : Action} {now : Time} {p : Process} {returned : Bool}
    (hnow : w.now ≤ now) (hwrote : Wrote w region l now a)
    (ht : t = if returned then (w.putLease region l now).remember p (some ⟨l, region⟩)
      else w.putLease region l now) : Change w t a := by
  have hkeeps : t.now = now ∧ t.leases = w.leases.set region l ∧
      t.workers = extendWorkers region l w.workers ∧ t.grants = w.grants ∧
      t.journal = w.journal ∧ t.events = w.events ∧ t.advertised = w.advertised := by
    subst ht
    split <;> exact ⟨rfl, rfl, rfl, rfl, rfl, rfl, rfl⟩
  rcases hkeeps with ⟨htnow, hleases, hworkers, hgrants, hjournal, hevents, hadvertised⟩
  exact {
    now_le := htnow ▸ hnow
    leases := .inr ⟨region, l, hleases, htnow.symm ▸ hwrote⟩
    memory := by
      intro q m hm
      subst ht
      cases returned
      · exact .inl hm
      · by_cases hq : q = p
        · have hm' : some (⟨l, region⟩ : SchedulerLease) = some m := by
            simpa [World.remember, hq] using hm
          cases hm'
          right
          simp [World.remember, World.putLease]
        · left
          simpa [World.remember, World.putLease, hq] using hm
    grants := fun _ _ h => .inl (hgrants ▸ h)
    origin := origin_updateWhere hworkers fun _ => ⟨rfl, rfl⟩
    kept := kept_updateWhere hworkers fun _ => ⟨rfl, rfl, rfl⟩
    journal := fun _ h => .inl (hjournal ▸ h)
    events := fun _ => hevents
    advertised := fun _ => hadvertised }

theorem registerWorker_ok {p : Process} {c : RegisterCall} {leases : Table String Lease}
    {workers workers' : Table Incarnation Worker}
    (h : registerWorker p c leases workers = .ok workers') :
    ∃ l, leases.get homeRegion = some l ∧ workers.get c.worker = none ∧
      workers' = (closeLeftBehind c p l workers).set c.worker (c.row p l) := by
  simp only [registerWorker, bind_eq_ok, demand_eq_ok, require_eq_ok, pure_eq_ok,
    Option.filter_eq_some_iff] at h
  rcases h with ⟨l, ⟨hl, _⟩, _, _, _, hunused, _, _, rfl⟩
  refine ⟨l, hl, ?_, rfl⟩
  rcases hrow : workers.get c.worker with _ | row
  · rfl
  · exact absurd ⟨c.worker, row, hrow, rfl⟩ hunused

theorem change_register {p : Process} {call : RegisterCall}
    {workers : Table Incarnation Worker} (hle : w.now ≤ call.closedAt)
    (h : registerWorker p call w.leases w.workers = .ok workers) :
    Change w { w with now := call.closedAt, workers := workers } (.register p call) := by
  rcases registerWorker_ok h with ⟨l, hl, hnone, rfl⟩
  refine { now_le := hle, origin := ?_, kept := ?_ }
  · intro k row hrow
    rw [Table.get_set] at hrow
    by_cases hk : k = call.worker
    · -- the new row's grant runs as long as the lease
      rw [if_pos hk] at hrow
      cases hrow
      exact .lease hl le_rfl
    · rw [if_neg hk, closeLeftBehind, Table.get_updateWhere, Option.map_eq_some_iff] at hrow
      rcases hrow with ⟨old, hold, rfl⟩
      split
      · exact .kept hold rfl rfl
      · exact .kept hold rfl rfl
  · intro k row hrow
    have hk : k ≠ call.worker := by
      rintro rfl
      rw [hnone] at hrow
      cases hrow
    simp only [Table.get_set_of_ne _ _ hk, closeLeftBehind, Table.get_updateWhere, hrow,
      Option.map_some, Option.some.injEq, exists_eq_left']
    split
    · exact ⟨rfl, rfl, rfl⟩
    · exact ⟨rfl, rfl, rfl⟩

/-- A row is rewritten without its authority and its grant. -/
theorem change_putWorker {a : Action} {k : Incarnation} {old new : Worker}
    (hold : w.workers.get k = some old) (hworkers : t.workers = w.workers.set k new)
    (hsame : SameAuthority old new) (hgrant : new.grantExpiresAt = old.grantExpiresAt)
    (hnow : w.now ≤ t.now) (hleases : t.leases = w.leases) (hmemory : t.memory = w.memory)
    (hgrants : t.grants = w.grants)
    (hjournal : ∀ command ∈ t.journal, command ∈ w.journal ∨
      ∃ row, w.workers.get command.worker = some row ∧ command.ownerEpoch = row.ownerEpoch ∧
        command.leaseId = row.leaseId)
    (hevents : a.passes = false → t.events = w.events)
    (hadvertised : t.advertised = w.advertised) : Change w t a where
  now_le := hnow
  leases := .inl hleases
  memory := fun _ _ h => .inl (hmemory ▸ h)
  grants := fun _ _ h => .inl (hgrants ▸ h)
  origin := origin_putWorker hworkers (.kept hold hsame.1 hgrant)
  kept := kept_putWorker hold hworkers hsame
  journal := hjournal
  events := hevents
  advertised := fun _ => hadvertised

theorem activateInitialWorker_eq_some {p : Process} {k : Incarnation} {blocked : Bool}
    {at_ : Time} {leases : Table String Lease} {workers workers' : Table Incarnation Worker}
    (h : activateInitialWorker p k blocked at_ leases workers = some workers') :
    ∃ row, workers.get k = some row ∧ workers' = workers.set k { row with lifecycle := .ready } := by
  simp only [activateInitialWorker, Option.bind_eq_bind, Option.bind_eq_some_iff,
    Option.ite_none_right_eq_some, Option.some.injEq, ownedWorker,
    Option.filter_eq_some_iff] at h
  rcases h with ⟨_, _, row, ⟨hrow, _⟩, _, rfl⟩
  exact ⟨row, hrow, rfl⟩

theorem commitAuthority_ok {p : Process} {c : CommandCall} {clock : DeadlineClock}
    {leases : Table String Lease} {row : Option Connection} {connection : Connection}
    (h : commitAuthority p c clock leases row = .ok (connection, l)) :
    row = some connection ∧ leases.get connection.region = some l ∧
      l.ownerId = p.schedulerOwnerId ∧ connection.grantReady = true ∧
      connection.ownerEpoch = l.ownerEpoch ∧ connection.leaseId = l.leaseId ∧
      clock.grant < connection.grantExpiresAt := by
  simp only [commitAuthority, bind_eq_ok, demand_eq_ok, require_eq_ok, pure_eq_ok,
    Prod.mk.injEq] at h
  rcases h with ⟨_, hrow, _, _, _, hlease, _, howner, _, ⟨_, hready⟩, _, _, _, _, _,
    ⟨hepoch, hid⟩, _, _, _, hgrant, _, _, rfl, rfl⟩
  exact ⟨hrow, hlease, howner, hready, hepoch, hid, hgrant⟩

theorem deliveryAuthority_ok {p : Process} {command : Header} {clock : DeadlineClock}
    {leases : Table String Lease} {row : Option Connection} {connection : Connection}
    (h : deliveryAuthority p command clock leases row = .ok (connection, l)) :
    row = some connection ∧ leases.get connection.region = some l ∧
      l.ownerId = p.schedulerOwnerId ∧ connection.grantReady = true ∧
      connection.ownerEpoch = l.ownerEpoch ∧ connection.leaseId = l.leaseId ∧
      clock.grant < connection.grantExpiresAt := by
  simp only [deliveryAuthority, bind_eq_ok, demand_eq_ok, require_eq_ok, pure_eq_ok,
    Prod.mk.injEq] at h
  rcases h with ⟨_, hrow, _, hlease, _, ⟨_, _, howner, hepoch, hid, hready, _⟩, _, _, _,
    ⟨_, hgrant⟩, rfl, rfl⟩
  exact ⟨hrow, hlease, howner, hready, hepoch, hid, hgrant⟩

theorem readAuthority_eq_some {p : Process} {at_ : Time} {leases : Table String Lease}
    {row : Option Connection} {connection : Connection}
    (h : readAuthority p at_ leases row = some (connection, l)) :
    row = some connection ∧ leases.get connection.region = some l ∧
      connection.ownerEpoch = l.ownerEpoch ∧ connection.leaseId = l.leaseId ∧
      at_ < l.expiresAt := by
  simp only [readAuthority, Option.bind_eq_bind, Option.bind_eq_some_iff,
    Option.filter_eq_some_iff, Option.some.injEq, Prod.mk.injEq, decide_eq_true_eq] at h
  rcases h with ⟨_, ⟨hrow, _⟩, _, ⟨hlease, hepoch, hid, hlive⟩, rfl, rfl⟩
  exact ⟨hrow, hlease, hepoch.symm, hid.symm, hlive⟩

/-- A granted expiry is never past the lease row the statement saw, or is over at once. -/
theorem grantRow_expires (row : Worker) (seen : Lease) (grantNonce : Uuid) (c : GrantClock) :
    (grantRow row seen grantNonce c).grantExpiresAt ≤ seen.expiresAt ∨
      (grantRow row seen grantNonce c).grantExpiresAt = c.expires := by
  unfold grantRow
  by_cases hgrantable : grantable row seen c.guard
  · left
    simp only [if_pos hgrantable]
    exact min_le_left _ _
  · right
    simp only [if_neg hgrantable]

theorem change_grantWrite {g : Nat} {clock : GrantClock} {statement : GrantStatement}
    {row : Worker} {seen : Lease} {advertised : List Advertised}
    (hgrant : w.grants g = some statement) (hclock : clock.After statement.moment)
    (hnow : w.now ≤ clock.answer)
    (hrow : ownedWorker statement.process statement.worker w.workers = some row)
    (hseen : statement.leases.get row.region = some seen) :
    Change w
      { (w.endGrant g).putWorker statement.worker
          (grantRow row seen statement.grantNonce clock) with
        now := clock.answer, advertised := advertised } (.grantWrite g clock) := by
  have hold : w.workers.get statement.worker = some row :=
    (Option.filter_eq_some_iff.1 hrow).1
  refine { now_le := hnow, grants := ?_, origin := ?_, kept := ?_,
           advertised := fun hadvertises => by cases hadvertises }
  · intro g' other hother
    by_cases hg : g' = g
    · simp [World.putWorker, World.endGrant, hg] at hother
    · exact .inl (by simpa [World.putWorker, World.endGrant, hg] using hother)
  · refine origin_putWorker rfl ?_
    rcases grantRow_expires row seen statement.grantNonce clock with hle | heq
    · exact .snapshot hgrant hseen hle
    · refine .expired ?_
      rw [heq]
      exact hclock.2.2.1.trans hclock.2.2.2
  · exact kept_putWorker hold rfl ⟨rfl, rfl, rfl⟩

/-- What a step does, by its action. -/
theorem step_change {a : Action} (h : step w a = some t) : Change w t a := by
  cases a with
  | tick now =>
    simp only [step, Option.ite_none_right_eq_some, Option.some.injEq] at h
    rcases h with ⟨hnow, rfl⟩
    exact { now_le := hnow }
  | acquire p region leaseId clock returned =>
    simp only [step, Option.ite_none_right_eq_some, Option.map_eq_some_iff] at h
    rcases h with ⟨hclock, l, hl, ht⟩
    have hnow : w.now ≤ clock.expires :=
      hclock.1.trans (hclock.2.1.trans (hclock.2.2.1.trans (hclock.2.2.2.1.trans hclock.2.2.2.2)))
    exact change_putLease hnow (.acquired hclock rfl hl) ht.symm
  | renew p clock returned =>
    simp only [step] at h
    split at h
    · cases h
    · next held hheld =>
      rw [Option.ite_none_right_eq_some] at h
      rcases h with ⟨⟨hguard, hexpires⟩, h⟩
      split at h
      · next l hl =>
        rcases Option.bind_eq_some_iff.1 hl with ⟨row, hrow, hrenew⟩
        have hnow := hguard.trans hexpires
        exact change_putLease hnow (.renewed hnow rfl hrow hrenew) (Option.some.inj h).symm
      · cases h
        refine { now_le := hguard, memory := ?_ }
        intro q m hm
        by_cases hq : q = p
        · simp [World.remember, hq] at hm
        · exact .inl (by simpa [World.remember, hq] using hm)
  | register p call =>
    simp only [step, Option.ite_none_right_eq_some] at h
    rcases h with ⟨⟨hlease, hclosed⟩, h⟩
    split at h
    · next workers hworkers =>
      cases h
      exact change_register (hlease.trans hclosed) hworkers
    · cases h
  | activate p k blocked moment =>
    simp only [step, Option.ite_none_right_eq_some, Option.map_eq_some_iff] at h
    rcases h with ⟨hnow, workers, hworkers, rfl⟩
    rcases activateInitialWorker_eq_some hworkers with ⟨row, hrow, rfl⟩
    exact change_putWorker hrow rfl ⟨rfl, rfl, rfl⟩ rfl hnow rfl rfl rfl
      (fun _ h => .inl h) (fun _ => rfl) rfl
  | grantRead g p k grantNonce =>
    simp only [step] at h
    split at h
    · cases h
      refine { now_le := le_rfl, grants := ?_ }
      intro g' statement hstatement
      by_cases hg : g' = g
      · right
        simp only [hg, Function.update_self, Option.some.injEq] at hstatement
        rw [← hstatement]
      · left
        simpa only [Function.update_of_ne hg] using hstatement
    · cases h
  | grantWrite g clock =>
    have hend : ∀ g' statement, (w.endGrant g).grants g' = some statement →
        w.grants g' = some statement ∨ statement.leases = w.leases := by
      intro g' statement hstatement
      by_cases hg : g' = g
      · simp [World.endGrant, hg] at hstatement
      · exact .inl (by simpa [World.endGrant, hg] using hstatement)
    simp only [step] at h
    split at h
    · cases h
    · next statement hstatement =>
      rw [Option.ite_none_right_eq_some] at h
      rcases h with ⟨⟨hclock, hnow⟩, h⟩
      split at h
      · cases h
        exact { now_le := le_rfl, grants := hend }
      · next row hrow =>
        split at h
        · cases h
          exact { now_le := le_rfl, grants := hend }
        · next seen hseen =>
          split at h
          · cases h
            exact change_grantWrite hstatement hclock hnow hrow hseen
          · cases h
            exact { now_le := le_rfl, grants := hend }
  | commit p call clock =>
    simp only [step, Option.ite_none_right_eq_some] at h
    rcases h with ⟨⟨hlease, hgrant⟩, h⟩
    split at h
    · cases h
    · next row hrow =>
      split at h
      · next connection l hauthority =>
        cases h
        have hconnection := Option.some.inj (commitAuthority_ok hauthority).1
        refine change_putWorker hrow rfl ⟨rfl, rfl, rfl⟩ rfl (hlease.trans hgrant) rfl rfl rfl ?_
          (fun hpasses => by cases hpasses) rfl
        intro command hcommand
        rcases List.mem_cons.1 hcommand with rfl | hcommand
        · right
          exact ⟨row, hrow, by rw [← hconnection]; rfl, by rw [← hconnection]; rfl⟩
        · exact .inl hcommand
      · cases h
  | readPending p k moment =>
    simp only [step, Option.ite_none_right_eq_some] at h
    rcases h with ⟨hnow, h⟩
    split at h
    · cases h
    · split at h
      · cases h
        exact { now_le := hnow, events := fun hpasses => by cases hpasses }
      · cases h
  | registerDelivery p command clock =>
    simp only [step, Option.ite_none_right_eq_some] at h
    rcases h with ⟨⟨_, hlease, hgrant⟩, h⟩
    split at h
    · cases h
      exact { now_le := hlease.trans hgrant, events := fun hpasses => by cases hpasses }
    · cases h
  | acknowledge k floor =>
    simp only [step, Option.map_eq_some_iff] at h
    rcases h with ⟨row, hrow, rfl⟩
    exact change_putWorker hrow rfl ⟨rfl, rfl, rfl⟩ rfl le_rfl rfl rfl rfl
      (fun _ h => .inl h) (fun _ => rfl) rfl
  | close k lifecycle moment =>
    simp only [step, Option.ite_none_right_eq_some, Option.map_eq_some_iff] at h
    rcases h with ⟨hnow, row, hrow, rfl⟩
    exact change_putWorker hrow rfl ⟨rfl, rfl, rfl⟩ rfl hnow rfl rfl rfl
      (fun _ h => .inl h) (fun _ => rfl) rfl

/-! ## Every state -/

/-- Every lease row runs out within the lease time. -/
def World.Timely (w : World) : Prop :=
  ∀ region row, w.leases.get region = some row → row.expiresAt ≤ w.now + leaseTime

theorem Wrote.timely {a : Action} {now : Time} (h : Wrote w region l now a) :
    l.expiresAt ≤ now + leaseTime := by
  cases h with
  | acquired hclock hnow hacquire => exact hnow ▸ (acquireRow_expires hacquire hclock).2
  | renewed hle hnow hrow hrenew =>
    rw [(renewRow_eq_some.1 hrenew).2, ← hnow]

/-- A written row outlasts the row it replaces. -/
theorem Wrote.covers {a : Action} {now : Time} (h : Wrote w region l now a) (htimely : w.Timely)
    (hrow : w.leases.get region = some row) :
    row.expiresAt ≤ l.expiresAt ∧ (holder row = holder l ∨ row.expiresAt ≤ now) := by
  have hle := htimely region row hrow
  cases h with
  | acquired hclock hnow hacquire =>
    refine ⟨hle.trans (acquireRow_expires hacquire hclock).1, ?_⟩
    rw [← hnow]
    exact acquireRow_covers hacquire hclock hrow
  | renewed hexpires hnow hrow' hrenew =>
    obtain rfl := Option.some.inj (hrow.symm.trans hrow')
    rw [(renewRow_eq_some.1 hrenew).2]
    exact ⟨hle.trans (Nat.add_le_add_right hexpires _), .inl rfl⟩

theorem Change.moves {a : Action} (h : Change w t a) (htimely : w.Timely) : Moves w t := by
  rcases h.leases with hsame | ⟨region, l, hset, hwrote⟩
  · exact .of_same h.now_le hsame
  · refine ⟨h.now_le, fun region' row hrow => ?_⟩
    by_cases hregion : region' = region
    · subst hregion
      rcases hwrote.covers htimely hrow with ⟨hle, hholder⟩
      exact ⟨l, by rw [hset, Table.get_set_self], hle, hholder⟩
    · refine covers_self ?_
      rw [hset, Table.get_set_of_ne _ _ hregion]
      exact hrow

theorem Change.timely {a : Action} (h : Change w t a) (htimely : w.Timely) : t.Timely := by
  have hkept : ∀ region row, w.leases.get region = some row → row.expiresAt ≤ t.now + leaseTime :=
    fun region row hrow => (htimely region row hrow).trans (Nat.add_le_add_right h.now_le _)
  intro region row hrow
  rcases h.leases with hsame | ⟨region', l, hset, hwrote⟩
  · exact hkept region row (hsame ▸ hrow)
  · rw [hset, Table.get_set] at hrow
    by_cases hregion : region = region'
    · rw [if_pos hregion] at hrow
      cases hrow
      exact hwrote.timely
    · rw [if_neg hregion] at hrow
      exact hkept region row hrow

/-- The grant is over, or ends with the region's lease at the latest. -/
def World.GrantBounded (w : World) (row : Worker) : Prop :=
  row.grantExpiresAt ≤ w.now ∨
    ∃ l, w.leases.get row.region = some l ∧ row.grantExpiresAt ≤ l.expiresAt

/-- The copies of the lease rows are covered by the rows. -/
structure Inv (w : World) : Prop where
  timely : w.Timely
  memory : ∀ p m, w.memory p = some m → w.Covers m.region m.toLease
  snapshots : ∀ g statement, w.grants g = some statement →
    ∀ region l, statement.leases.get region = some l → w.Covers region l
  workers : ∀ k row, w.workers.get k = some row → w.GrantBounded row
  journal : ∀ command ∈ w.journal, ∃ row, w.workers.get command.worker = some row ∧
    command.ownerEpoch = row.ownerEpoch ∧ command.leaseId = row.leaseId

theorem start_inv : Inv start where
  timely := by
    intro region row hrow
    cases hrow
  memory := by
    intro p m hm
    cases hm
  snapshots := by
    intro g statement hstatement
    cases hstatement
  workers := by
    intro k row hrow
    cases hrow
  journal := by
    intro command hcommand
    cases hcommand

theorem Moves.bounded (h : Moves w t) {row : Worker} (hl : w.Covers row.region l)
    (hle : row.grantExpiresAt ≤ l.expiresAt) : t.GrantBounded row := by
  rcases h.covered hl with ⟨l', hl', hle', _⟩
  exact .inr ⟨l', hl', hle.trans hle'⟩

theorem Inv.change {a : Action} (hinv : Inv w) (h : Change w t a) : Inv t := by
  have hmoves := h.moves hinv.timely
  refine { timely := h.timely hinv.timely, memory := ?_, snapshots := ?_, workers := ?_,
           journal := ?_ }
  · intro p m hm
    rcases h.memory p m hm with hold | hnew
    · exact hmoves.covered (hinv.memory p m hold)
    · exact covers_self hnew
  · intro g statement hstatement region l hl
    rcases h.grants g statement hstatement with hold | hnew
    · exact hmoves.covered (hinv.snapshots g statement hold region l hl)
    · exact hmoves.covers region l (hnew ▸ hl)
  · intro k row hrow
    rcases h.origin k row hrow with hexpired | ⟨hold, hregion, hsame⟩ | ⟨hl, hle⟩ |
      ⟨hstatement, hl, hle⟩
    · exact .inl hexpired
    · rcases hinv.workers k _ hold with hexpired | ⟨l, hl, hle⟩
      · exact .inl (hsame ▸ hexpired.trans hmoves.now_le)
      · exact hmoves.bounded (hregion ▸ covers_self hl) (hsame ▸ hle)
    · exact hmoves.bounded (covers_self hl) hle
    · exact hmoves.bounded (hinv.snapshots _ _ hstatement _ _ hl) hle
  · intro command hcommand
    have hrow : ∃ row, w.workers.get command.worker = some row ∧
        command.ownerEpoch = row.ownerEpoch ∧ command.leaseId = row.leaseId := by
      rcases h.journal command hcommand with hold | hnew
      · exact hinv.journal command hold
      · exact hnew
    -- the row a command was committed on keeps its epoch and its lease id
    rcases hrow with ⟨row, hrow, hepoch, hid⟩
    rcases h.kept command.worker row hrow with ⟨row', hrow', _, hepoch', hid'⟩
    exact ⟨row', hrow', hepoch.trans hepoch'.symm, hid.trans hid'.symm⟩

theorem reach_inv (h : machine.Reach Machine.anyStep w) : Inv w :=
  h.invariant (fun _ hinit => hinit ▸ start_inv) fun _ _ _ hinv _ hstep =>
    hinv.change (step_change hstep)

theorem path_moves (hs : Inv w) (h : machine.Path Machine.anyStep w t) : Moves w t :=
  h.relates Moves.refl (fun _ _ _ => Moves.trans)
    (fun _ _ _ hinv _ hstep => hinv.change (step_change hstep))
    (fun _ _ _ hinv _ hstep => (step_change hstep).moves hinv.timely) hs

/-! ## Commands pass under the live lease -/

/-- The command and its connection carry the epoch and the lease id of the lease, which
is live; what is committed or registered also has a live grant and the lease's owner. -/
structure Event.Fenced (e : Event) : Prop where
  connection : e.connection.ownerEpoch = e.lease.ownerEpoch ∧ e.connection.leaseId = e.lease.leaseId
  command : e.command.ownerEpoch = e.lease.ownerEpoch ∧ e.command.leaseId = e.lease.leaseId
  live : e.moment < e.lease.expiresAt
  owned : e.passage ≠ .read → e.lease.ownerId = e.process.schedulerOwnerId ∧
    e.connection.grantReady = true ∧ e.moment < e.connection.grantExpiresAt

/-- The lease outlasts a grant that is not over. -/
theorem Inv.lease_live (hinv : Inv w) {k : Incarnation} {row : Worker}
    (hrow : w.workers.get k = some row) (hl : w.leases.get row.region = some l) {moment : Time}
    (hnow : w.now ≤ moment) (hlive : moment < row.grantExpiresAt) : moment < l.expiresAt := by
  rcases hinv.workers k row hrow with hexpired | ⟨l', hl', hle⟩
  · exact absurd hlive (hexpired.trans hnow).not_gt
  · obtain rfl := Option.some.inj (hl.symm.trans hl')
    exact hlive.trans_le hle

theorem connection_eq_some {k : Incarnation} {connection : Connection}
    (h : w.connection k = some connection) :
    ∃ row, w.workers.get k = some row ∧ row.toConnection = connection :=
  Option.map_eq_some_iff.1 h

/-- A command passes at the end of its step, under the row the step finds. -/
def Event.Passed (e : Event) (w t : World) : Prop :=
  e.Fenced ∧ e.moment = t.now ∧ w.leases.get e.connection.region = some e.lease

theorem step_events {a : Action} (hinv : Inv w) (h : step w a = some t) :
    ∀ e ∈ t.events, e ∈ w.events ∨ e.Passed w t := by
  have hchange := step_change h
  intro e he
  cases a with
  | commit p call clock =>
    simp only [step, Option.ite_none_right_eq_some] at h
    rcases h with ⟨⟨hlease, hgrant⟩, h⟩
    split at h
    · cases h
    · next row hrow =>
      split at h
      · next connection l hauthority =>
        rcases commitAuthority_ok hauthority with ⟨hconnection, hl, howner, hready, hepoch, hid,
          hlive⟩
        obtain rfl := Option.some.inj hconnection
        cases h
        rcases List.mem_cons.1 he with rfl | he
        · have hmoment := hinv.lease_live hrow hl (hlease.trans hgrant) hlive
          exact .inr ⟨⟨⟨hepoch, hid⟩, ⟨hepoch, hid⟩, hmoment, fun _ => ⟨howner, hready, hlive⟩⟩,
            rfl, hl⟩
        · exact .inl he
      · cases h
  | readPending p k moment =>
    simp only [step, Option.ite_none_right_eq_some] at h
    rcases h with ⟨hnow, h⟩
    split at h
    · cases h
    · next connection l hauthority =>
      rcases readAuthority_eq_some hauthority with ⟨_, hl, hepoch, hid, hlive⟩
      split at h
      · next command hcommand =>
        cases h
        rcases List.mem_cons.1 he with rfl | he
        · have hsame := List.find?_some hcommand
          simp only [decide_eq_true_eq] at hsame
          exact .inr ⟨⟨⟨hepoch, hid⟩, ⟨hsame.2.2.1.trans hepoch, hsame.2.2.2.trans hid⟩, hlive,
            fun hread => absurd rfl hread⟩, rfl, hl⟩
        · exact .inl he
      · cases h
  | registerDelivery p command clock =>
    simp only [step, Option.ite_none_right_eq_some] at h
    rcases h with ⟨⟨hcommand, hlease, hgrant⟩, h⟩
    split at h
    · next connection l hauthority =>
      rcases deliveryAuthority_ok hauthority with ⟨hconnection, hl, howner, hready, hepoch, hid,
        hlive⟩
      rcases connection_eq_some hconnection with ⟨row, hrow, rfl⟩
      cases h
      rcases List.mem_cons.1 he with rfl | he
      · have hmoment := hinv.lease_live hrow hl (hlease.trans hgrant) hlive
        -- the connection still has the epoch and the lease id the command was committed under
        rcases hinv.journal command hcommand with ⟨row', hrow', hepoch', hid'⟩
        obtain rfl := Option.some.inj (hrow.symm.trans hrow')
        exact .inr ⟨⟨⟨hepoch, hid⟩, ⟨hepoch'.trans hepoch, hid'.trans hid⟩, hmoment,
          fun _ => ⟨howner, hready, hlive⟩⟩, rfl, hl⟩
      · exact .inl he
    · cases h
  | _ => exact .inl (hchange.events rfl ▸ he)

theorem reach_events (h : machine.Reach Machine.anyStep w) : ∀ e ∈ w.events, e.Fenced := by
  refine h.invariant_of (J := fun w => ∀ e ∈ w.events, e.Fenced) (fun _ => reach_inv) ?_ ?_
  · rintro _ rfl e he
    cases he
  · intro w a u hw hevents _ hstep e he
    rcases step_events hw hstep e he with hold | hnew
    · exact hevents e hold
    · exact hnew.1

/-! ## A grant ends with the lease -/

/-- What a grant advertises is at most what is left of the region's lease. -/
def Advertised.Within (g : Advertised) : Prop :=
  ∃ l, g.lease = some l ∧ g.grant.remainingMs * 1000 ≤ ((l.expiresAt - g.moment : Nat) : Int)

theorem remainingMs_le {k : Incarnation} {row : Worker} {moment : Time}
    (hle : row.grantExpiresAt ≤ l.expiresAt ∨ row.grantExpiresAt ≤ moment) :
    (workGrant k row moment).remainingMs * 1000 ≤ ((l.expiresAt - moment : Nat) : Int) := by
  have hleft : (row.grantExpiresAt : Int) - moment ≤ ((l.expiresAt - moment : Nat) : Int) := by
    rcases hle with hle | hle
    · have := Int.ofNat_le.2 hle
      omega
    · have := Int.ofNat_le.2 hle
      omega
  by_cases hready : row.grantReady
  · have hsecond : ((second : Nat) : Int) = 1000000 := rfl
    simp only [workGrant, if_pos hready, hsecond]
    omega
  · simp only [workGrant, if_neg hready]
    omega

theorem step_advertised {a : Action} (hinv : Inv w) (h : step w a = some t) :
    ∀ g ∈ t.advertised, g ∈ w.advertised ∨ g.Within := by
  have hchange := step_change h
  intro g hg
  cases a with
  | grantWrite n clock =>
    simp only [step] at h
    split at h
    · cases h
    · next statement hstatement =>
      rw [Option.ite_none_right_eq_some] at h
      rcases h with ⟨⟨hclock, hnow⟩, h⟩
      split at h
      · cases h
        exact .inl hg
      · next row hrow =>
        split at h
        · cases h
          exact .inl hg
        · next seen hseen =>
          split at h
          · cases h
            rcases List.mem_cons.1 hg with rfl | hg
            · right
              -- the row may have been renewed since the snapshot, never shortened
              rcases hinv.snapshots n statement hstatement row.region seen hseen with
                ⟨l, hl, hle, _⟩
              refine ⟨l, hl, remainingMs_le ?_⟩
              rcases grantRow_expires row seen statement.grantNonce clock with hseen | heq
              · exact .inl (hseen.trans hle)
              · exact .inr (heq ▸ hclock.2.2.1.trans hclock.2.2.2)
            · exact .inl hg
          · cases h
            exact .inl hg
  | _ => exact .inl (hchange.advertised rfl ▸ hg)

theorem reach_advertised (h : machine.Reach Machine.anyStep w) :
    ∀ g ∈ w.advertised, g.Within := by
  refine h.invariant_of (J := fun w => ∀ g ∈ w.advertised, g.Within) (fun _ => reach_inv) ?_ ?_
  · rintro _ rfl g hg
    cases hg
  · intro w a u hw hgrants _ hstep g hg
    rcases step_advertised hw hstep g hg with hold | hnew
    · exact hgrants g hold
    · exact hnew

/-! ## The epoch -/

/-- The row stays, its epoch does not fall, and rises where the lease id changes. -/
def EpochRises (s t : World) : Prop :=
  ∀ region l, s.leases.get region = some l → ∃ row, t.leases.get region = some row ∧
    l.ownerEpoch ≤ row.ownerEpoch ∧ (l.leaseId ≠ row.leaseId → l.ownerEpoch < row.ownerEpoch)

theorem EpochRises.refl (w : World) : EpochRises w w :=
  fun _ l hl => ⟨l, hl, le_rfl, fun hne => absurd rfl hne⟩

theorem EpochRises.trans (h : EpochRises w t) (h' : EpochRises t u) : EpochRises w u := by
  intro region l hl
  rcases h region l hl with ⟨row, hrow, hle, hlt⟩
  rcases h' region row hrow with ⟨row', hrow', hle', hlt'⟩
  refine ⟨row', hrow', hle.trans hle', fun hne => ?_⟩
  by_cases hsame : l.leaseId = row.leaseId
  · exact hle.trans_lt (hlt' (hsame ▸ hne))
  · exact (hlt hsame).trans_le hle'

/-- The owner acquires its own lease again, which runs out between the reading for the
epoch and the reading for the lease id. -/
def Splits (w : World) : Action → Prop
  | .acquire p region leaseId clock _ => ∃ row, w.leases.get region = some row ∧
      row.ownerId = p.schedulerOwnerId ∧ clock.epoch < row.expiresAt ∧
      row.expiresAt ≤ clock.leaseId ∧ row.leaseId ≠ leaseId
  | _ => False

/-- No step splits the condition of the epoch from the condition of the lease id. -/
def Unsplit (w : World) (a : Action) : Prop := ¬ Splits w a

theorem acquireRow_rises {p : Process} {leaseId : Uuid} {c : AcquireClock} {now : Time}
    (h : acquireRow p leaseId c (some row) = some l) (hclock : c.After now) :
    (row.ownerEpoch ≤ l.ownerEpoch ∧ (row.leaseId ≠ l.leaseId → row.ownerEpoch < l.ownerEpoch)) ↔
      ¬ (row.ownerId = p.schedulerOwnerId ∧ c.epoch < row.expiresAt ∧
        row.expiresAt ≤ c.leaseId ∧ row.leaseId ≠ leaseId) := by
  rcases hclock with ⟨_, _, hepoch, hid, hexpires⟩
  simp only [acquireRow, Option.ite_none_right_eq_some, Option.some.injEq] at h
  rcases h with ⟨_, rfl⟩
  by_cases hkept : row.ownerId = p.schedulerOwnerId ∧ c.epoch < row.expiresAt
  · by_cases hlive : c.leaseId < row.expiresAt
    · -- both conditions hold: the tuple stays
      simp [hkept.1, hkept.2, hlive, hlive.not_ge]
    · simp [hkept.1, hkept.2, hlive, not_lt.1 hlive]
  · simp only [if_neg hkept]
    constructor
    · rintro _ ⟨howner, hlive, _⟩
      exact hkept ⟨howner, hlive⟩
    · rintro _
      exact ⟨Nat.le_succ _, fun _ => Nat.lt_succ_self _⟩

theorem epochRises_set (hrow : ∀ row, w.leases.get region = some row →
      row.ownerEpoch ≤ l.ownerEpoch ∧ (row.leaseId ≠ l.leaseId → row.ownerEpoch < l.ownerEpoch))
    (hset : t.leases = w.leases.set region l) : EpochRises w t := by
  intro region' row hget
  by_cases hregion : region' = region
  · subst hregion
    exact ⟨l, by rw [hset, Table.get_set_self], hrow row hget⟩
  · refine ⟨row, ?_, le_rfl, fun hne => absurd rfl hne⟩
    rw [hset, Table.get_set_of_ne _ _ hregion]
    exact hget

/-- A step raises the epoch with the lease id exactly unless it splits its conditions. -/
theorem step_epochRises_iff {a : Action} (h : step w a = some t) :
    EpochRises w t ↔ Unsplit w a := by
  constructor
  · -- a split acquire writes the old epoch beside its own lease id
    intro hrises
    cases a with
    | acquire p region leaseId clock returned =>
      rintro ⟨row, hrow, hsplit⟩
      simp only [step, Option.ite_none_right_eq_some, Option.map_eq_some_iff] at h
      rcases h with ⟨hclock, l, hl, ht⟩
      rw [hrow] at hl
      rcases hrises region row hrow with ⟨l', hl', hepoch⟩
      have hput : t.leases.get region = some l := by
        rw [← ht]
        split <;> simp [World.putLease, World.remember]
      obtain rfl := Option.some.inj (hput.symm.trans hl')
      exact (acquireRow_rises hl hclock).1 hepoch hsplit
    | _ => exact fun hsplit => hsplit
  · intro hunsplit
    rcases (step_change h).leases with hsame | ⟨region, l, hset, hwrote⟩
    · intro region row hrow
      exact ⟨row, hsame ▸ hrow, le_rfl, fun hne => absurd rfl hne⟩
    · refine epochRises_set (fun row hrow => ?_) hset
      cases hwrote with
      | acquired hclock hnow hacquire =>
        rw [hrow] at hacquire
        exact (acquireRow_rises hacquire hclock).2 fun hsplit => hunsplit ⟨row, hrow, hsplit⟩
      | renewed hle hnow hrow' hrenew =>
        obtain rfl := Option.some.inj (hrow.symm.trans hrow')
        rw [(renewRow_eq_some.1 hrenew).2]
        exact ⟨le_rfl, fun hne => absurd rfl hne⟩

/-- Whoever still holds an unexpired lease, from any earlier moment or in its memory,
holds the tuple of the region's row. -/
def OneLive (s t : World) : Prop :=
  ∀ region l, (s.leases.get region = some l ∨ ∃ p, t.memory p = some ⟨l, region⟩) →
    t.now < l.expiresAt → ∃ row, t.leases.get region = some row ∧ holder l = holder row

/-- From any reachable state on, one tuple is live at a time, every command passed under
the live lease, and no grant outlasts it. The epochs rise with the lease ids in every run
that never splits, and at each step exactly then. -/
theorem lease_fences {s t : World} (hs : machine.Reach Machine.anyStep s)
    (h : machine.Path Machine.anyStep s t) :
    OneLive s t ∧ (∀ e ∈ t.events, e.Fenced) ∧ (∀ g ∈ t.advertised, g.Within) ∧
      (machine.Path Unsplit s t → EpochRises s t) ∧
      ∀ a u, step t a = some u →
        (EpochRises t u ↔ Unsplit t a) ∧ ∀ e ∈ u.events, e ∈ t.events ∨ e.Passed t u := by
  have ht := hs.path h
  have hinv := reach_inv ht
  refine ⟨?_, ?_, ?_, ?_, ?_⟩
  · intro region l hknown hlive
    have hcovers : t.Covers region l := by
      rcases hknown with hrow | ⟨p, hm⟩
      · exact (path_moves (reach_inv hs) h).covers region l hrow
      · exact hinv.memory p _ hm
    rcases hcovers with ⟨row, hrow, hle, hsame⟩
    exact ⟨row, hrow, World.Covers.holder_eq ⟨row, hrow, hle, hsame⟩ hlive hrow⟩
  · exact reach_events ht
  · exact reach_advertised ht
  · intro hpath
    exact hpath.relates EpochRises.refl (fun _ _ _ => EpochRises.trans)
      (I := fun _ => True) (fun _ _ _ _ _ _ => trivial)
      (fun _ _ _ _ hok hstep => (step_epochRises_iff hstep).2 hok) trivial
  · intro a u hstep
    exact ⟨step_epochRises_iff hstep, step_events hinv hstep⟩

/-! ## A run -/

/-- A process takes the region, registers a worker, grants it work, and commits, reads
and registers one command; the other takes the lease over when it has run out. -/
def takenOver : List Action :=
  [.acquire ⟨1, 11⟩ homeRegion 100 ⟨5, 5, 5, 5, 5⟩ true,
    .register ⟨1, 11⟩ ⟨⟨"gpu", 7⟩, 40, ["model"], some "cuda", some "full", 6, 6⟩,
    .activate ⟨1, 11⟩ ⟨"gpu", 7⟩ false 7,
    .grantRead 0 ⟨1, 11⟩ ⟨"gpu", 7⟩ 41,
    .renew ⟨1, 11⟩ ⟨8, 8⟩ true,
    .grantWrite 0 ⟨8, 8, 9, 10⟩,
    .commit ⟨1, 11⟩ ⟨⟨"gpu", 7⟩, 41, 11, 500, none⟩ ⟨11, 12⟩,
    .readPending ⟨1, 11⟩ ⟨"gpu", 7⟩ 13,
    .registerDelivery ⟨1, 11⟩ ⟨"gpu", 7, homeRegion, 1, 100, 10000005, 41, 1, 500⟩ ⟨13, 14⟩,
    .acquire ⟨2, 22⟩ homeRegion 200 ⟨10000008, 10000008, 10000008, 10000008, 10000008⟩ true]

def sampleTakenOver : World := (machine.run start takenOver).getD start

theorem lease_fences_sample :
    sampleTakenOver.events.length = 3 ∧ sampleTakenOver.advertised.length = 1 ∧
      (OneLive start sampleTakenOver ∧ (∀ e ∈ sampleTakenOver.events, e.Fenced) ∧
        (∀ g ∈ sampleTakenOver.advertised, g.Within) ∧
        (machine.Path Unsplit start sampleTakenOver → EpochRises start sampleTakenOver) ∧
        ∀ a u, step sampleTakenOver a = some u →
          (EpochRises sampleTakenOver u ↔ Unsplit sampleTakenOver a) ∧
            ∀ e ∈ u.events, e ∈ sampleTakenOver.events ∨ e.Passed sampleTakenOver u) := by
  have hrun : machine.run start takenOver = some sampleTakenOver := rfl
  have hpath := Machine.path_of_run_any hrun
  exact ⟨rfl, rfl, lease_fences (.of_init rfl) hpath⟩

/-- The first process acquires again, with no lease in memory, as its lease runs out
between the readings for the epoch and for the lease id. -/
def reacquired : List Action :=
  [.acquire ⟨1, 11⟩ homeRegion 100 ⟨5, 5, 5, 5, 5⟩ false,
    .acquire ⟨1, 11⟩ homeRegion 101 ⟨10000004, 10000004, 10000004, 10000005, 10000005⟩ true]

def sampleReacquired : World := (machine.run start reacquired).getD start

/-- Two lease ids of one epoch. -/
theorem epoch_kept_across_lease_ids :
    ¬ ∀ s t, machine.Reach Machine.anyStep s → machine.Path Machine.anyStep s t →
      EpochRises s t := by
  intro hclaim
  have hfirst : machine.run start (reacquired.take 1) =
      some ((machine.run start (reacquired.take 1)).getD start) := rfl
  have hsecond : machine.run ((machine.run start (reacquired.take 1)).getD start)
      (reacquired.drop 1) = some sampleReacquired := rfl
  have hstart : machine.Reach Machine.anyStep start := Machine.Reach.of_init rfl
  have hreach := hstart.path (Machine.path_of_run_any hfirst)
  rcases hclaim _ _ hreach (Machine.path_of_run_any hsecond) homeRegion ⟨1, 1, 100, 10000005⟩ rfl
    with ⟨row, hrow, _, hlt⟩
  cases hrow
  exact absurd (hlt (by decide)) (by decide)

end Potocolom.Leases
