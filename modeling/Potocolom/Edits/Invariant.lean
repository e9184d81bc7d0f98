import Potocolom.Edits.Session

/-! # What keeps the edits of a session

An accepted edit is on its way until its handler goes on. By then it has become the
desired parameters, by whichever path, or the session is gone and the browser was
told; and what once became desired every later open carries, but for the keys of
later edits. The steps that break this are those outside `InTime`. -/

namespace Potocolom.Edits

open Realtime (SessionState Caller)

variable {K V : Type} {s t : Session K V} {seed : K}

/-! ## The property -/

/-- An edit accepted in this log has the key. -/
def touches (log : List (Event K V)) (k : K) : Prop :=
  ∃ number params merged, Event.accepted number params merged ∈ log ∧ (params k).isSome

/-- Every open of the log carries these parameters, but for keys accepted since. -/
def Carried (merged : Dict K V) (log : List (Event K V)) : Prop :=
  ∀ mid params rest, log = mid ++ .opened params :: rest → merged.Kept (touches mid) params

/-- The handler still awaits the delivery of the edit. -/
def OnItsWay (s : Session K V) (number : Nat) : Prop :=
  ∃ edit delivery, s.handler = .editing edit delivery ∧ edit.number = number

/-- Every accepted edit is on its way, or was answered with an error, or its merged
parameters became the desired ones and every later open carries them. -/
def NoEditLost (s : Session K V) : Prop :=
  ∀ before number params merged after,
    s.events = before ++ .accepted number params merged :: after →
      OnItsWay s number ∨ .error number ∈ after ∨
        ∃ mid rest, after = mid ++ .became merged :: rest ∧ Carried merged rest

/-! ## The condition -/

/-- The placement takes the next generation before it opens again. -/
def Session.refreshes (s : Session K V) (i : Nat) : Prop :=
  match s.tasks i with
  | .placing _ attempt => attempt.started = s.controlGeneration
  | .scheduled .resumeIdle => True
  | _ => False

/-- A worker of protocol 4 or 5 is not opened with parameters that an edit, refused
while the session was queued, has passed over. -/
def Session.opensFresh (s : Session K V) (i : Nat) (choice : Option Nat) : Prop :=
  ∀ w ∈ choice, (s.workers w).protocolVersion ≠ 6 →
    s.params = s.desiredParams ∨ s.refreshes i

/-- The delivery of an edit finds the admission open whenever it asks for the slot,
and its worker registered when it starts. Its commit is back before the session moves
on to another generation or attempt, or the `reassign` that moves it on has read the
commit. Such a `reassign` finds its own generation, and no worker of protocol 4 or 5
is opened with parameters passed over. -/
def InTime (seed : K) (s : Session K V) : Action K V → Prop
  | .updateParams params valid =>
    ∀ w ∈ s.worker, (s.workers w).protocolVersion = 6 →
      params seed = none → valid params → valid (s.desiredParams.overlay params) →
      (s.workers w).granted → (s.workers w).registered → s.attemptId.isSome →
      s.admissionOpen ∧ ((s.workers w).busy ∨ (s.workers w).admissionOpen)
  | .turns =>
    ∀ edit, s.handler = .editing edit .waiting →
      s.admissionOpen ∧ (s.workers edit.worker).admissionOpen
  | .delivers =>
    ∀ edit, s.handler = .editing edit .created → (s.workers edit.worker).registered
  | .mirrors =>
    ∀ edit, s.handler = .editing edit .committed → s.isLive →
      (s.controlGeneration = edit.generation ∧ s.attemptId = some edit.attempt) ∨
        s.desiredId ≠ edit.snapshot
  | .reopens i _ =>
    ∀ generation snapshot params revision,
      s.tasks i = .read generation snapshot (some (params, revision)) →
      s.desiredRevision < revision → s.desiredId = snapshot →
      s.controlGeneration = generation
  | .starts i choice | .openFails i choice | .wakes i choice | .timesOut i choice
  | .abandoned i choice => s.opensFresh i choice
  | _ => True

/-! ## The invariant -/

/-- The row holds an edit whose commit is not back. -/
def Awaits (s : Session K V) (params : Dict K V) (revision : Nat) : Prop :=
  ∃ edit, s.handler = .editing edit .committed ∧ edit.generation = s.controlGeneration ∧
    s.desiredId = edit.snapshot ∧ edit.merged = params ∧ revision ≤ edit.base + 1

/-- What a coroutine remembers. -/
def TaskOk (s : Session K V) (i : Nat) : Task K V → Prop
  | .done => True
  | .scheduled caller => caller = .handler → i = 0 ∧ s.handler = .placing
  | .placing caller attempt =>
    attempt.started ≤ s.controlGeneration ∧ (caller = .handler → i = 0 ∧ s.handler = .placing)
  | .interrupting generation snapshot | .reading generation snapshot =>
    generation ≤ s.controlGeneration ∧ snapshot ≤ s.desiredId
  | .read generation snapshot committed =>
    generation ≤ s.controlGeneration ∧ snapshot ≤ s.desiredId ∧
      ∀ params revision, committed = some (params, revision) → s.isLive →
        generation = s.controlGeneration → snapshot = s.desiredId →
        revision ≤ s.desiredRevision ∨ Awaits s params revision

/-- An edit on its way: its snapshot is still the desired parameters, and then it is
laid over them; or a `reassign` took it over, and then the generation has moved on. -/
structure Flight (s : Session K V) (edit : Edit K V) (delivery : Delivery) : Prop where
  generation_le : edit.generation ≤ s.controlGeneration
  snapshot_le : edit.snapshot ≤ s.desiredId
  held : s.desiredId = edit.snapshot →
    (∃ params, edit.merged = s.desiredParams.overlay params ∧
      ∀ before merged after, s.events = before ++ .became merged :: after →
        .accepted edit.number params edit.merged ∈ after) ∧
    (edit.generation = s.controlGeneration → edit.base = s.desiredRevision)
  taken : s.desiredId ≠ edit.snapshot →
    delivery = .committed ∧ edit.generation < s.controlGeneration ∧
      ∀ before params after,
        s.events = before ++ .accepted edit.number params edit.merged :: after →
          .became edit.merged ∈ after

/-- The edit is awaited, and its commit is not back. -/
def Pending (s : Session K V) (number : Nat) (merged : Dict K V) : Prop :=
  s.isLive ∧ ∃ edit delivery, s.handler = .editing edit delivery ∧ delivery ≠ .sending ∧
    edit.number = number ∧ edit.merged = merged

structure Core (s : Session K V) : Prop where
  gone : s.isLive = false → s.worker = none
  revision : 1 ≤ s.desiredRevision
  kept : s.isLive → ∀ before merged after, s.events = before ++ .became merged :: after →
    merged.Kept (touches after) s.desiredParams
  carried : ∀ before merged after, s.events = before ++ .became merged :: after →
    Carried merged after
  flight : s.isLive → ∀ edit delivery, s.handler = .editing edit delivery →
    delivery ≠ .sending → Flight s edit delivery
  row : ∀ row, s.row = some row → row.generation ≤ s.controlGeneration ∧
    (s.isLive → row.generation = s.controlGeneration →
      row.desiredRevision ≤ s.desiredRevision ∨ Awaits s row.desiredParams row.desiredRevision)

structure Inv (s : Session K V) : Prop where
  core : Core s
  settled : ∀ before number params merged after,
    s.events = before ++ .accepted number params merged :: after →
      Pending s number merged ∨ .error number ∈ after ∨ .became merged ∈ after
  tasks : ∀ i, TaskOk s i (s.tasks i)

/-! ## Steps that leave the edits alone -/

/-- All that the invariant reads, but for the coroutines. -/
structure Same (s t : Session K V) : Prop where
  isLive : t.isLive = s.isLive
  handler : t.handler = s.handler
  desiredParams : t.desiredParams = s.desiredParams
  desiredId : t.desiredId = s.desiredId
  desiredRevision : t.desiredRevision = s.desiredRevision
  controlGeneration : t.controlGeneration = s.controlGeneration
  events : t.events = s.events
  row : t.row = s.row

theorem Same.awaits (h : Same s t) {params : Dict K V} {revision : Nat}
    (hawaits : Awaits s params revision) : Awaits t params revision := by
  rcases hawaits with ⟨edit, hhandler, hgeneration, hid, hrest⟩
  refine ⟨edit, h.handler.trans hhandler, ?_, ?_, hrest⟩
  · rw [h.controlGeneration, hgeneration]
  · rw [h.desiredId, hid]

/-- What a coroutine remembers survives a change of the handler, and of the session's
life, that keeps the generation and the desired parameters. -/
theorem TaskOk.change {i : Nat} {task : Task K V} (hok : TaskOk s i task)
    (hgeneration : t.controlGeneration = s.controlGeneration) (hid : t.desiredId = s.desiredId)
    (hplacing : s.handler = .placing → i ≠ 0 ∨ t.handler = .placing)
    (hlive : t.isLive → s.isLive)
    (hrevision : t.isLive → ∀ params revision,
      revision ≤ s.desiredRevision ∨ Awaits s params revision →
        revision ≤ t.desiredRevision ∨ Awaits t params revision) : TaskOk t i task := by
  have hfirst : ∀ {caller : Caller}, (caller = .handler → i = 0 ∧ s.handler = .placing) →
      caller = .handler → i = 0 ∧ t.handler = .placing := by
    intro caller hcaller heq
    rcases hcaller heq with ⟨hzero, hhandler⟩
    exact ⟨hzero, (hplacing hhandler).resolve_left (not_not_intro hzero)⟩
  cases task with
  | done => trivial
  | scheduled caller => exact hfirst hok
  | placing caller attempt =>
    refine ⟨?_, hfirst hok.2⟩
    rw [hgeneration]
    exact hok.1
  | interrupting generation snapshot | reading generation snapshot =>
    show _ ∧ _
    rw [hgeneration, hid]
    exact hok
  | read generation snapshot committed =>
    show _ ∧ _ ∧ _
    rw [hgeneration, hid]
    refine ⟨hok.1, hok.2.1, fun params revision hcommitted hl hgen hsnapshot => ?_⟩
    exact hrevision hl params revision (hok.2.2 params revision hcommitted (hlive hl) hgen hsnapshot)

theorem Same.taskOk (h : Same s t) {i : Nat} {task : Task K V} (hok : TaskOk s i task) :
    TaskOk t i task := by
  refine hok.change h.controlGeneration h.desiredId ?_ ?_ ?_
  · intro hplacing
    exact .inr (h.handler.trans hplacing)
  · rw [h.isLive]
    exact id
  · rw [h.desiredRevision]
    rintro _ params revision (hle | hawaits)
    · exact .inl hle
    · exact .inr (h.awaits hawaits)

theorem Same.flight (h : Same s t) {edit : Edit K V} {delivery : Delivery}
    (hflight : Flight s edit delivery) : Flight t edit delivery := by
  rcases hflight with ⟨hgeneration, hsnapshot, hheld, htaken⟩
  constructor
  · rw [h.controlGeneration]
    exact hgeneration
  · rw [h.desiredId]
    exact hsnapshot
  · rw [h.desiredId, h.desiredParams, h.events, h.controlGeneration, h.desiredRevision]
    exact hheld
  · rw [h.desiredId, h.events, h.controlGeneration]
    exact htaken

theorem Core.of_same (hcore : Core s) (h : Same s t) (hgone : t.isLive = false → t.worker = none) :
    Core t := by
  refine ⟨hgone, ?_, ?_, ?_, ?_, ?_⟩
  · rw [h.desiredRevision]
    exact hcore.revision
  · rw [h.events, h.isLive, h.desiredParams]
    exact hcore.kept
  · rw [h.events]
    exact hcore.carried
  · intro hlive edit delivery hhandler hsending
    rw [h.isLive] at hlive
    rw [h.handler] at hhandler
    exact h.flight (hcore.flight hlive edit delivery hhandler hsending)
  · intro row hrow
    rw [h.row] at hrow
    rw [h.controlGeneration, h.isLive, h.desiredRevision]
    have hold := hcore.row row hrow
    refine ⟨hold.1, fun hlive hgeneration => ?_⟩
    rcases hold.2 hlive hgeneration with hle | hawaits
    · exact .inl hle
    · exact .inr (h.awaits hawaits)

/-- Nothing the invariant reads has changed, but for new coroutines that are fine. -/
theorem Inv.of_same (hinv : Inv s) (h : Same s t)
    (hgone : t.isLive = false → t.worker = none)
    (htasks : ∀ i, t.tasks i = s.tasks i ∨ TaskOk t i (t.tasks i)) : Inv t := by
  refine ⟨hinv.core.of_same h hgone, ?_, fun i => ?_⟩
  · unfold Pending
    rw [h.events, h.isLive, h.handler]
    exact hinv.settled
  · rcases htasks i with hsame | hok
    · rw [hsame]
      exact h.taskOk (hinv.tasks i)
    · exact hok

theorem Inv.put (hinv : Inv s) {i : Nat} {task : Task K V} (hok : TaskOk s i task) :
    Inv (s.put i task) := by
  have hsame : Same s (s.put i task) := (by constructor <;> rfl)
  refine hinv.of_same hsame hinv.core.gone fun j => ?_
  by_cases hj : j = i
  · subst hj
    right
    show TaskOk _ j (Function.update s.tasks j task j)
    rw [Function.update_self]
    exact hsame.taskOk hok
  · exact .inl (Function.update_of_ne hj _ _)

theorem Inv.spawn (hinv : Inv s) {task : Task K V} (hok : TaskOk s s.spawned task) :
    Inv (s.spawn task) :=
  (hinv.put hok).of_same (by constructor <;> rfl) hinv.core.gone
    fun _ => .inl rfl

theorem Inv.state (hinv : Inv s) (state : SessionState) :
    Inv ({ s with state := state } : Session K V) :=
  hinv.of_same (by constructor <;> rfl) hinv.core.gone fun _ => .inl rfl

theorem Inv.detach (hinv : Inv s) : Inv s.detach :=
  hinv.of_same (by constructor <;> rfl) (fun _ => rfl) fun _ => .inl rfl

theorem Inv.setWorker (hinv : Inv s) (w : Nat) (f : Worker → Worker) : Inv (s.setWorker w f) :=
  hinv.of_same (by constructor <;> rfl) hinv.core.gone fun _ => .inl rfl

theorem Inv.transition (hinv : Inv s) (expected new : SessionState) :
    Inv (s.transition expected new) := by
  unfold Session.transition
  split
  · exact hinv.state new
  · exact hinv

theorem Inv.scheduleReassign (hinv : Inv s) : Inv s.scheduleReassign := by
  unfold Session.scheduleReassign
  split
  · refine (hinv.state .assigning).spawn ?_
    intro hcaller
    cases hcaller
  · exact hinv

theorem Inv.orphan (hinv : Inv s) (w : Nat) : Inv (s.orphan w) := by
  unfold Session.orphan
  split
  · split
    · exact hinv.of_same (by constructor <;> rfl) hinv.core.gone fun _ => .inl rfl
    · exact hinv.scheduleReassign
  · exact hinv

/-! ## One more event -/

theorem touches_concat {log : List (Event K V)} {event : Event K V} {k : K}
    (h : touches log k) : touches (log ++ [event]) k := by
  rcases h with ⟨number, params, merged, hmem, hk⟩
  exact ⟨number, params, merged, List.mem_append_left _ hmem, hk⟩

/-- An event that is no open leaves what the opens carry. -/
theorem Carried.concat {merged : Dict K V} {log : List (Event K V)} {event : Event K V}
    (h : Carried merged log)
    (hopen : ∀ params, event = .opened params → merged.Kept (touches log) params) :
    Carried merged (log ++ [event]) := by
  intro mid params rest hlog
  rcases List.append_cons_eq_concat.1 hlog.symm with ⟨_, rfl, hevent⟩ | ⟨rest', _, hold⟩
  · exact hopen params hevent.symm
  · exact h mid params rest' hold

/-- What became desired in a log one longer: the new entry, or an older one. -/
theorem became_concat {log before after : List (Event K V)} {merged : Dict K V}
    {event : Event K V} (h : log ++ [event] = before ++ .became merged :: after) :
    (after = [] ∧ event = .became merged) ∨
      ∃ rest, after = rest ++ [event] ∧ log = before ++ .became merged :: rest := by
  rcases List.append_cons_eq_concat.1 h.symm with ⟨hnil, _, hevent⟩ | hrest
  · exact .inl ⟨hnil, hevent.symm⟩
  · exact .inr hrest

/-- An entry keeps what it had after it. -/
theorem settled_concat {log : List (Event K V)} {event : Event K V} {P Q : Prop}
    {number : Nat} {params merged : Dict K V}
    (hevent : ∀ m p d, event ≠ .accepted m p d)
    (hold : ∀ before after, log = before ++ .accepted number params merged :: after →
      P ∨ .error number ∈ after ∨ .became merged ∈ after)
    (hP : P → Q ∨ event = .error number ∨ event = .became merged)
    {before after : List (Event K V)}
    (h : log ++ [event] = before ++ .accepted number params merged :: after) :
    Q ∨ .error number ∈ after ∨ .became merged ∈ after := by
  rcases List.append_cons_eq_concat.1 h.symm with ⟨_, _, heq⟩ | ⟨rest, rfl, hlog⟩
  · exact absurd heq.symm (hevent _ _ _)
  rcases hold before rest hlog with hp | herror | hbecame
  · rcases hP hp with hq | rfl | rfl
    · exact .inl hq
    · exact .inr (.inl (by simp))
    · exact .inr (.inr (by simp))
  · exact .inr (.inl (List.mem_append_left _ herror))
  · exact .inr (.inr (List.mem_append_left _ hbecame))

/-! ## Opens -/

theorem Flight.opened {edit : Edit K V} {delivery : Delivery} {params : Dict K V}
    (h : Flight s edit delivery) : Flight (s.log (.opened params)) edit delivery := by
  refine ⟨h.generation_le, h.snapshot_le, fun hid => ?_, fun hid => ?_⟩
  · rcases h.held hid with ⟨⟨update, hmerged, hafter⟩, hbase⟩
    refine ⟨⟨update, hmerged, fun before merged after hevents => ?_⟩, hbase⟩
    rcases became_concat hevents with ⟨_, hevent⟩ | ⟨rest, rfl, hold⟩
    · cases hevent
    · exact List.mem_append_left _ (hafter before merged rest hold)
  · rcases h.taken hid with ⟨hdelivery, hlt, hafter⟩
    refine ⟨hdelivery, hlt, fun before update after hevents => ?_⟩
    rcases List.append_cons_eq_concat.1 hevents.symm with ⟨_, _, hevent⟩ | ⟨rest, rfl, hold⟩
    · cases hevent
    · exact List.mem_append_left _ (hafter before update rest hold)

/-- An open with the desired parameters carries every edit that became them. -/
theorem Inv.opened (hinv : Inv s) (hlive : s.isLive) :
    Inv (s.log (.opened s.desiredParams)) := by
  have hcore := hinv.core
  refine ⟨⟨hcore.gone, hcore.revision, ?_, ?_, ?_, hcore.row⟩, ?_, hinv.tasks⟩
  · intro _ before merged after hevents
    rcases became_concat hevents with ⟨_, hevent⟩ | ⟨rest, rfl, hold⟩
    · cases hevent
    · exact (hcore.kept hlive before merged rest hold).mono fun k hk => touches_concat hk
  · intro before merged after hevents
    rcases became_concat hevents with ⟨_, hevent⟩ | ⟨rest, rfl, hold⟩
    · cases hevent
    · refine (hcore.carried before merged rest hold).concat fun params hopen => ?_
      cases hopen
      exact hcore.kept hlive before merged rest hold
  · intro hl edit delivery hhandler hsending
    exact (hcore.flight hl edit delivery hhandler hsending).opened
  · intro before number params merged after hevents
    refine settled_concat (P := Pending s number merged) (by simp) ?_ .inl hevents
    exact fun before after hold => hinv.settled before number params merged after hold

/-! ## The next generation -/

theorem Inv.advance (hinv : Inv s) : Inv s.advance := by
  have hcore := hinv.core
  refine ⟨⟨hcore.gone, Nat.le_refl 1, hcore.kept, hcore.carried, ?_, ?_⟩, hinv.settled, ?_⟩
  · intro hlive edit delivery hhandler hsending
    have h := hcore.flight hlive edit delivery hhandler hsending
    have hlt : edit.generation < s.controlGeneration + 1 := Nat.lt_succ_of_le h.generation_le
    refine ⟨hlt.le, h.snapshot_le, fun hid => ⟨(h.held hid).1, fun heq => ?_⟩, fun hid => ?_⟩
    · exact absurd heq hlt.ne
    · exact ⟨(h.taken hid).1, hlt, (h.taken hid).2.2⟩
  · intro row hrow
    have hlt := Nat.lt_succ_of_le (hcore.row row hrow).1
    exact ⟨hlt.le, fun _ heq => absurd heq hlt.ne⟩
  · intro i
    have hok := hinv.tasks i
    show TaskOk s.advance i (s.tasks i)
    cases htask : s.tasks i with
    | done => trivial
    | scheduled caller =>
      rw [htask] at hok
      exact hok
    | placing caller attempt =>
      rw [htask] at hok
      exact ⟨Nat.le_succ_of_le hok.1, hok.2⟩
    | interrupting generation snapshot | reading generation snapshot =>
      rw [htask] at hok
      exact ⟨Nat.le_succ_of_le hok.1, hok.2⟩
    | read generation snapshot committed =>
      rw [htask] at hok
      have hlt := Nat.lt_succ_of_le hok.1
      exact ⟨hlt.le, hok.2.1, fun _ _ _ _ heq => absurd heq hlt.ne⟩

/-! ## Placements -/

theorem Inv.assign (hinv : Inv s) {i w : Nat} {caller : Caller} (hlive : s.isLive)
    (hfresh : (s.workers w).protocolVersion ≠ 6 → s.params = s.desiredParams)
    (hcaller : caller = .handler → i = 0 ∧ s.handler = .placing) :
    Inv (s.assign i caller w) := by
  have hgone : s.isLive = false → (some w : Option Nat) = none := by
    intro h
    rw [hlive] at h
    cases h
  have hopened := hinv.opened hlive
  unfold Session.assign
  dsimp only
  split
  · refine Inv.put ?_ ⟨Nat.le_refl _, hcaller⟩
    exact hopened.of_same (by constructor <;> rfl) hgone fun _ => .inl rfl
  · next hversion =>
    refine Inv.put ?_ ⟨Nat.le_refl _, hcaller⟩
    rw [hfresh hversion]
    exact hopened.of_same (by constructor <;> rfl) hgone fun _ => .inl rfl

/-- The handler moves on with no edit of its own left open. -/
theorem Inv.rests (hinv : Inv s) {handler : Handler K V}
    (hhandler : ∀ edit delivery, s.handler = .editing edit delivery → delivery = .sending)
    (hnext : ∀ edit delivery, handler ≠ .editing edit delivery)
    (hfirst : s.handler = .placing → s.tasks 0 = .done) :
    Inv { s with handler := handler } := by
  have hcore := hinv.core
  have hsettled : ∀ {params : Dict K V} {revision : Nat}, ¬ Awaits s params revision := by
    rintro params revision ⟨edit, h, _⟩
    cases hhandler edit .committed h
  refine ⟨⟨hcore.gone, hcore.revision, hcore.kept, hcore.carried, ?_, ?_⟩, ?_, fun i => ?_⟩
  · intro _ edit delivery h
    exact absurd h (hnext edit delivery)
  · intro row hrow
    refine ⟨(hcore.row row hrow).1, fun hlive hgeneration => .inl ?_⟩
    exact ((hcore.row row hrow).2 hlive hgeneration).resolve_right hsettled
  · intro before number params merged after hevents
    rcases hinv.settled before number params merged after hevents with hpending | h
    · rcases hpending with ⟨_, edit, delivery, h, hsending, _⟩
      exact absurd (hhandler edit delivery h) hsending
    · exact .inr h
  · by_cases hzero : s.handler = .placing ∧ i = 0
    · rcases hzero with ⟨hplacing, rfl⟩
      show TaskOk _ 0 (s.tasks 0)
      rw [hfirst hplacing]
      trivial
    · refine (hinv.tasks i).change rfl rfl ?_ id ?_
      · exact fun hplacing => .inl fun hi => hzero ⟨hplacing, hi⟩
      · exact fun _ _ _ h => .inl (h.resolve_right hsettled)

theorem Inv.finish (hinv : Inv s) {i : Nat} {caller : Caller} (placed : Bool)
    (hcaller : caller = .handler → i = 0 ∧ s.handler = .placing) :
    Inv (s.finish i caller placed) := by
  have hdone : Inv (s.put i .done) := hinv.put trivial
  have hrest : Inv (if placed then (if (s.put i .done).isLive then s.put i .done
      else (s.put i .done).detach) else (s.put i .done).requeue) := by
    split
    · split
      · exact hdone
      · exact hdone.detach
    · exact hdone.transition .assigning .queued
  unfold Session.finish
  cases caller with
  | handler =>
    rcases hcaller rfl with ⟨rfl, hhandler⟩
    -- no other coroutine places for the handler
    have hserves : ∀ {r : Session K V}, Inv r → r.handler = .placing → r.tasks 0 = .done →
        Inv { r with handler := .serving } := by
      intro r hr hplacing hzero
      refine hr.rests ?_ (by simp) fun _ => hzero
      intro edit delivery h
      rw [hplacing] at h
      cases h
    have hput : (s.put 0 .done).tasks 0 = .done := by
      show Function.update s.tasks 0 .done 0 = .done
      exact Function.update_self ..
    show Inv (if placed then _ else _)
    split
    · exact hserves hdone hhandler hput
    · have hrequeue : ∀ r : Session K V, r.requeue.handler = r.handler ∧
          r.requeue.tasks = r.tasks := by
        intro r
        unfold Session.requeue Session.transition
        split <;> exact ⟨rfl, rfl⟩
      refine hserves (hdone.transition .assigning .queued) ?_ ?_
      · exact (hrequeue _).1.trans hhandler
      · exact (congrFun (hrequeue _).2 0).trans hput
  | admission | reassign | resumeIdle => exact hrest

theorem Inv.place (hinv : Inv s) {i : Nat} {caller : Caller} {choice : Option Nat}
    (hcaller : caller = .handler → i = 0 ∧ s.handler = .placing)
    (hfresh : ∀ w ∈ choice, (s.workers w).protocolVersion ≠ 6 → s.params = s.desiredParams) :
    Inv (s.place i caller choice) := by
  unfold Session.place
  split
  · next hlive =>
    split
    · next w hw =>
      have hchoice : w ∈ choice := (Option.filter_eq_some_iff.1 hw).1
      exact hinv.assign hlive.1 (hfresh w hchoice) hcaller
    · exact hinv.finish false hcaller
  · exact hinv.finish _ hcaller

theorem Inv.assigned (hinv : Inv s) {i started : Nat} {caller : Caller} {ok : Bool}
    {choice : Option Nat} (hcaller : caller = .handler → i = 0 ∧ s.handler = .placing)
    (hfresh : ∀ w ∈ choice, (s.workers w).protocolVersion ≠ 6 →
      s.params = s.desiredParams ∨ started = s.controlGeneration) :
    Inv (s.assigned i caller started ok choice) := by
  unfold Session.assigned
  split
  · exact hinv.finish true hcaller
  split
  · exact hinv.finish false hcaller
  split
  · exact hinv.advance.place hcaller fun _ _ _ => rfl
  · next hgeneration =>
    refine hinv.place hcaller fun w hw hversion => ?_
    rcases hfresh w hw hversion with h | h
    · exact h
    · exact absurd h.symm hgeneration

/-- The coroutine at `i` places, under this caller and with these locals. -/
structure Places (s : Session K V) (i : Nat) (caller : Caller) (attempt : Attempt K V) : Prop where
  started_le : attempt.started ≤ s.controlGeneration
  first : caller = .handler → i = 0 ∧ s.handler = .placing

theorem Inv.places (hinv : Inv s) {i : Nat} {caller : Caller} {attempt : Attempt K V}
    (htask : s.tasks i = .placing caller attempt) : Places s i caller attempt := by
  have hok := hinv.tasks i
  rw [htask] at hok
  exact ⟨hok.1, hok.2⟩

theorem opensFresh_placing {i : Nat} {caller : Caller} {attempt : Attempt K V}
    {choice : Option Nat} (h : s.opensFresh i choice)
    (htask : s.tasks i = .placing caller attempt) :
    ∀ w ∈ choice, (s.workers w).protocolVersion ≠ 6 →
      s.params = s.desiredParams ∨ attempt.started = s.controlGeneration := by
  intro w hw hversion
  have hfresh := h w hw hversion
  unfold Session.refreshes at hfresh
  rw [htask] at hfresh
  exact hfresh

theorem Inv.giveUp (hinv : Inv s) {i : Nat} {caller : Caller} {attempt : Attempt K V}
    {choice : Option Nat} (hplaces : Places s i caller attempt)
    (hfresh : ∀ w ∈ choice, (s.workers w).protocolVersion ≠ 6 →
      s.params = s.desiredParams ∨ attempt.started = s.controlGeneration) :
    Inv (s.giveUp i caller attempt choice) := by
  unfold Session.giveUp
  split
  · exact hinv.detach.put ⟨hplaces.started_le, hplaces.first⟩
  · exact hinv.assigned hplaces.first hfresh

theorem Inv.woken (hinv : Inv s) {i : Nat} {caller : Caller} {attempt : Attempt K V}
    {choice : Option Nat} (hplaces : Places s i caller attempt)
    (hfresh : ∀ w ∈ choice, (s.workers w).protocolVersion ≠ 6 →
      s.params = s.desiredParams ∨ attempt.started = s.controlGeneration) :
    Inv (s.woken i caller attempt choice) := by
  unfold Session.woken
  split
  · exact hinv.assigned hplaces.first hfresh
  split
  · unfold Session.assigned
    rw [if_pos (.inl rfl)]
    refine (hinv.transition .assigning .live).finish true fun hcaller => ?_
    have hsame : (s.transition .assigning .live).handler = s.handler := by
      unfold Session.transition
      split <;> rfl
    rw [hsame]
    exact hplaces.first hcaller
  · exact hinv.giveUp hplaces hfresh

theorem Inv.sent (hinv : Inv s) {i : Nat} {caller : Caller} {attempt : Attempt K V}
    (hplaces : Places s i caller attempt) : Inv (s.sent i caller attempt) := by
  unfold Session.sent
  split
  · exact hinv.put ⟨hplaces.started_le, hplaces.first⟩
  · exact hinv.put ⟨hplaces.started_le, hplaces.first⟩

theorem Inv.start (hinv : Inv s) {i : Nat} {caller : Caller} {choice : Option Nat}
    (htask : s.tasks i = .scheduled caller) (hfresh : s.opensFresh i choice) :
    Inv (s.start i caller choice) := by
  have hok := hinv.tasks i
  rw [htask] at hok
  have hparams : caller ≠ .resumeIdle →
      ∀ w ∈ choice, (s.workers w).protocolVersion ≠ 6 → s.params = s.desiredParams := by
    intro hne w hw hversion
    rcases hfresh w hw hversion with h | h
    · exact h
    · unfold Session.refreshes at h
      rw [htask] at h
      cases caller with
      | resumeIdle => exact absurd rfl hne
      | handler | admission | reassign => exact h.elim
  unfold Session.start
  cases caller with
  | handler => exact hinv.place hok (hparams (by simp))
  | admission => exact hinv.place hok (hparams (by simp))
  | reassign =>
    dsimp only
    split
    · exact hinv.put trivial
    split
    · exact (hinv.state .assigning).detach.put ⟨Nat.le_refl _, Nat.le_refl _⟩
    · split
      · exact (hinv.state .assigning).put ⟨Nat.le_refl _, Nat.le_refl _⟩
      · exact (hinv.state .assigning).put trivial
  | resumeIdle =>
    dsimp only
    split
    · refine hinv.advance.place ?_ fun _ _ _ => rfl
      intro hcaller
      cases hcaller
    · exact hinv.put trivial

end Potocolom.Edits
