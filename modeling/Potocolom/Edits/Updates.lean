import Potocolom.Edits.Invariant

/-! # How an edit becomes the desired parameters

At once, when the session has no worker or one of protocol 4 or 5; by the refusal of
its command; by the callback of its commit; or by a `reassign` that reads the row. -/

namespace Potocolom.Edits

open Realtime (SessionState Caller)

variable {K V : Type} {s t : Session K V} {seed : K}

/-! ## Becoming the desired parameters -/

/-- The log after an edit became the desired parameters, whatever happens to the
revision, the generation and the handler besides. -/
theorem Core.become_log (hcore : Core s) {merged : Dict K V}
    (htouched : s.isLive → ∀ before old after, s.events = before ++ .became old :: after →
      old.Kept (touches after) merged) :
    (s.isLive → ∀ before old after, (s.become merged).events = before ++ .became old :: after →
        old.Kept (touches after) merged) ∧
      ∀ before old after, (s.become merged).events = before ++ .became old :: after →
        Carried old after := by
  constructor
  · intro hlive before old after hevents
    rcases became_concat hevents with ⟨rfl, hevent⟩ | ⟨rest, rfl, hold⟩
    · cases hevent
      exact Dict.Kept.refl merged
    · exact (htouched hlive before old rest hold).mono fun k hk => touches_concat hk
  · intro before old after hevents
    rcases became_concat hevents with ⟨rfl, hevent⟩ | ⟨rest, rfl, hold⟩
    · intro mid params rest hlog
      simp at hlog
    · refine (hcore.carried before old rest hold).concat fun params hopen => ?_
      cases hopen

/-- An update laid over the desired parameters keeps what became them, but for its
own keys. -/
theorem Core.kept_overlay (hcore : Core s) (hlive : s.isLive) {params merged : Dict K V}
    {number : Nat} {before after : List (Event K V)} {old : Dict K V}
    (hevents : s.events = before ++ .became old :: after)
    (hmem : .accepted number params merged ∈ after) :
    old.Kept (touches after) (s.desiredParams.overlay params) := by
  refine (hcore.kept hlive before old after hevents).overlay fun k hk => ?_
  exact ⟨number, params, merged, hmem, hk⟩

/-- The snapshot of an edit that no `reassign` took over is laid under it. -/
theorem Flight.keeps {edit : Edit K V} {delivery : Delivery} (h : Flight s edit delivery)
    (hcore : Core s) (hid : s.desiredId = edit.snapshot) (hlive : s.isLive)
    {before after : List (Event K V)} {old : Dict K V}
    (hevents : s.events = before ++ .became old :: after) :
    old.Kept (touches after) edit.merged := by
  rcases h.held hid with ⟨⟨params, hmerged, hafter⟩, _⟩
  have hmem := hafter before old after hevents
  have hkept := hcore.kept_overlay hlive hevents hmem
  rw [← hmerged] at hkept
  exact hkept

/-- What a coroutine remembers of the desired parameters is stale once they are
replaced. -/
theorem TaskOk.become {i : Nat} {task : Task K V} (hok : TaskOk s i task)
    (hgeneration : s.controlGeneration ≤ t.controlGeneration)
    (hid : s.desiredId < t.desiredId)
    (hhandler : s.handler = .placing → t.handler = .placing) : TaskOk t i task := by
  cases task with
  | done => trivial
  | scheduled caller => exact fun hcaller => ⟨(hok hcaller).1, hhandler (hok hcaller).2⟩
  | placing caller attempt =>
    refine ⟨hok.1.trans hgeneration, fun hcaller => ?_⟩
    exact ⟨(hok.2 hcaller).1, hhandler (hok.2 hcaller).2⟩
  | interrupting generation snapshot | reading generation snapshot =>
    exact ⟨hok.1.trans hgeneration, hok.2.trans hid.le⟩
  | read generation snapshot committed =>
    refine ⟨hok.1.trans hgeneration, hok.2.1.trans hid.le, ?_⟩
    intro params revision _ _ _ hsnapshot
    have hle := hok.2.1
    omega

/-- The handler settles its edit by making it the desired parameters. -/
theorem Core.settles (hcore : Core s) {merged : Dict K V} {handler : Handler K V}
    {revision : Nat} (htasks : ∀ i, TaskOk s i (s.tasks i)) (hrevision : 1 ≤ revision)
    (hrow : s.isLive → ∀ row, s.row = some row → row.generation = s.controlGeneration →
      row.desiredRevision ≤ revision)
    (hsettled : ∀ before number params old after,
      s.events = before ++ .accepted number params old :: after →
        old = merged ∨ .error number ∈ after ∨ .became old ∈ after)
    (htouched : s.isLive → ∀ before old after, s.events = before ++ .became old :: after →
      old.Kept (touches after) merged)
    (hplacing : s.handler ≠ .placing)
    (hnext : ∀ edit delivery, handler = .editing edit delivery → delivery = .sending) :
    Inv { s.become merged with handler := handler, desiredRevision := revision } := by
  have hlog := hcore.become_log htouched
  refine ⟨⟨hcore.gone, hrevision, hlog.1, hlog.2, ?_, ?_⟩, ?_, fun i => ?_⟩
  · intro _ edit delivery h hsending
    exact absurd (hnext edit delivery h) hsending
  · intro row h
    exact ⟨(hcore.row row h).1, fun hlive hgeneration => .inl (hrow hlive row h hgeneration)⟩
  · intro before number params old after hevents
    refine settled_concat (P := old = merged) (by simp)
      (fun before after hold => hsettled before number params old after hold) ?_ hevents
    rintro rfl
    exact .inr (.inr rfl)
  · exact (htasks i).become (Nat.le_refl _) (Nat.lt_succ_self _) fun h => absurd h hplacing

/-- No commit is out, so the row is no further than the session. -/
theorem Core.row_le (hcore : Core s) (hcommitted : ∀ edit, s.handler ≠ .editing edit .committed)
    (hlive : s.isLive) (row : Row K V) (hrow : s.row = some row)
    (hgeneration : row.generation = s.controlGeneration) :
    row.desiredRevision ≤ s.desiredRevision := by
  rcases (hcore.row row hrow).2 hlive hgeneration with hle | ⟨edit, h, _⟩
  · exact hle
  · exact absurd h (hcommitted edit)

theorem scheduleReassign_handler (handler : Handler K V) :
    { s.scheduleReassign with handler := handler } =
      ({ s with handler := handler } : Session K V).scheduleReassign := by
  unfold Session.scheduleReassign
  dsimp only
  split <;> rfl

/-- A refused edit is settled: it rides on the next open. -/
theorem Core.refused (hcore : Core s) {merged : Dict K V}
    (htasks : ∀ i, TaskOk s i (s.tasks i))
    (hsettled : ∀ before number params old after,
      s.events = before ++ .accepted number params old :: after →
        old = merged ∨ .error number ∈ after ∨ .became old ∈ after)
    (htouched : s.isLive → ∀ before old after, s.events = before ++ .became old :: after →
      old.Kept (touches after) merged)
    (hcommitted : ∀ edit, s.handler ≠ .editing edit .committed)
    (hplacing : s.handler ≠ .placing) : Inv (s.refused merged) := by
  have hnext : Inv ({ s.become merged with handler := .serving } : Session K V) :=
    hcore.settles htasks hcore.revision (hcore.row_le hcommitted) hsettled htouched hplacing
      (by simp)
  unfold Session.refused
  rw [scheduleReassign_handler]
  exact hnext.scheduleReassign

/-! ## Accepting an edit -/

section Accept

variable {number : Nat} {params merged : Dict K V}

/-- The handler that reads the next edit has settled the last. -/
theorem Inv.accepted_settled (hinv : Inv s) (hserving : s.handler = .serving)
    {before after : List (Event K V)} {number' : Nat} {params' old : Dict K V}
    (hevents : s.events ++ [.accepted number params merged] =
      before ++ .accepted number' params' old :: after) :
    (number = number' ∧ merged = old) ∨ .error number' ∈ after ∨ .became old ∈ after := by
  rcases List.append_cons_eq_concat.1 hevents.symm with ⟨_, _, hevent⟩ | ⟨rest, rfl, hold⟩
  · cases hevent
    exact .inl ⟨rfl, rfl⟩
  · rcases hinv.settled before number' params' old rest hold with hpending | herror | hbecame
    · rcases hpending with ⟨_, edit, delivery, hhandler, _⟩
      rw [hserving] at hhandler
      cases hhandler
    · exact .inr (.inl (List.mem_append_left _ herror))
    · exact .inr (.inr (List.mem_append_left _ hbecame))

/-- What became desired before has the new edit after it. -/
theorem became_accepted {before after : List (Event K V)} {old : Dict K V}
    (hevents : s.events ++ [.accepted number params merged] = before ++ .became old :: after) :
    ∃ rest, after = rest ++ [.accepted number params merged] ∧
      s.events = before ++ .became old :: rest := by
  rcases became_concat hevents with ⟨_, hevent⟩ | h
  · cases hevent
  · exact h

theorem Core.accepted (hcore : Core s) (hserving : s.handler = .serving) :
    Core (s.log (.accepted number params merged)) := by
  refine ⟨hcore.gone, hcore.revision, ?_, ?_, ?_, hcore.row⟩
  · intro hlive before old after hevents
    rcases became_accepted hevents with ⟨rest, rfl, hold⟩
    exact (hcore.kept hlive before old rest hold).mono fun k hk => touches_concat hk
  · intro before old after hevents
    rcases became_accepted hevents with ⟨rest, rfl, hold⟩
    refine (hcore.carried before old rest hold).concat fun params hopen => ?_
    cases hopen
  · intro _ edit delivery hhandler
    have h : s.handler = .editing edit delivery := hhandler
    rw [hserving] at h
    cases h

/-- The edit that was just accepted, laid over the desired parameters. -/
theorem Core.accepted_kept (hcore : Core s) (hlive : s.isLive)
    {before after : List (Event K V)} {old : Dict K V}
    (hevents : s.events ++ [.accepted number params merged] = before ++ .became old :: after) :
    old.Kept (touches after) (s.desiredParams.overlay params) := by
  rcases became_accepted hevents with ⟨rest, rfl, hold⟩
  have hkept : old.Kept (touches (rest ++ [.accepted number params merged])) s.desiredParams :=
    (hcore.kept hlive before old rest hold).mono fun k hk => touches_concat hk
  refine hkept.overlay fun k hk => ?_
  exact ⟨number, params, merged, by simp, hk⟩

/-- An accepted edit whose command waits for its delivery. -/
theorem Inv.sends (hinv : Inv s) (hserving : s.handler = .serving) (hlive : s.isLive)
    (number w attempt : Nat) (params : Dict K V) {delivery : Delivery}
    (hsending : delivery ≠ .sending) :
    Inv ({ s.log (.accepted number params (s.desiredParams.overlay params)) with
      handler := .editing ⟨number, s.desiredParams.overlay params, w, s.controlGeneration,
        attempt, s.desiredRevision, s.desiredId⟩ delivery } : Session K V) := by
  have hcore := hinv.core
  have haccepted : Core (s.log (.accepted number params (s.desiredParams.overlay params))) :=
    hcore.accepted hserving
  refine ⟨⟨hcore.gone, hcore.revision, haccepted.kept, haccepted.carried, ?_, ?_⟩, ?_, ?_⟩
  · intro _ edit delivery' hhandler _
    cases hhandler
    refine ⟨Nat.le_refl _, Nat.le_refl _, fun _ => ?_, fun hne => absurd rfl hne⟩
    refine ⟨⟨params, rfl, fun before old after hevents => ?_⟩, fun _ => rfl⟩
    rcases became_accepted hevents with ⟨rest, rfl, _⟩
    simp
  · intro row hrow
    refine ⟨(hcore.row row hrow).1, fun hl hgeneration => ?_⟩
    rcases (hcore.row row hrow).2 hl hgeneration with hle | ⟨edit, h, _⟩
    · exact .inl hle
    · rw [hserving] at h
      cases h
  · intro before number' params' old after hevents
    rcases hinv.accepted_settled hserving hevents with ⟨rfl, rfl⟩ | h
    · exact .inl ⟨hlive, _, delivery, rfl, hsending, rfl, rfl⟩
    · exact .inr h
  · intro i
    refine (hinv.tasks i).change rfl rfl ?_ id ?_
    · intro hplacing
      rw [hserving] at hplacing
      cases hplacing
    · rintro _ p revision (hle | ⟨edit, h, _⟩)
      · exact .inl hle
      · rw [hserving] at h
        cases h

/-- An accepted edit that becomes the desired parameters at once. -/
theorem Inv.acceptedAtOnce (hinv : Inv s) (hserving : s.handler = .serving)
    {handler : Handler K V} (hnext : ∀ edit delivery, handler ≠ .editing edit delivery) :
    Inv ({ (s.log (.accepted number params (s.desiredParams.overlay params))).become
      (s.desiredParams.overlay params) with handler := handler } : Session K V) := by
  have hlogged : (s.log (.accepted number params (s.desiredParams.overlay params))).handler =
      .serving := hserving
  have haccepted : Core (s.log (.accepted number params (s.desiredParams.overlay params))) :=
    hinv.core.accepted hserving
  refine haccepted.settles hinv.tasks haccepted.revision ?_ ?_ ?_ ?_ ?_
  · refine haccepted.row_le fun edit h => ?_
    rw [hlogged] at h
    cases h
  · intro before number' params' old after hevents
    rcases hinv.accepted_settled hserving hevents with ⟨_, rfl⟩ | h
    · exact .inl rfl
    · exact .inr h
  · intro hlive before old after hevents
    exact hinv.core.accepted_kept hlive hevents
  · rw [hlogged]
    simp
  · exact fun edit delivery h => absurd h (hnext edit delivery)

theorem Inv.sendUpdate (hinv : Inv s) (hserving : s.handler = .serving) (hlive : s.isLive)
    {w : Nat} (htime : (s.workers w).granted → (s.workers w).registered → s.attemptId.isSome →
      s.admissionOpen ∧ ((s.workers w).busy ∨ (s.workers w).admissionOpen)) :
    Inv (({ s.log (.accepted number params (s.desiredParams.overlay params)) with
      edits := s.edits + 1 } : Session K V).sendUpdate number
        (s.desiredParams.overlay params) w) := by
  have hrefused : Inv (({ s.log (.accepted number params (s.desiredParams.overlay params)) with
      edits := s.edits + 1 } : Session K V).refused (s.desiredParams.overlay params)) := by
    have hnext : Inv ({ (s.log (.accepted number params (s.desiredParams.overlay params))).become
        (s.desiredParams.overlay params) with handler := .serving } : Session K V) :=
      hinv.acceptedAtOnce hserving (by simp)
    unfold Session.refused
    rw [scheduleReassign_handler]
    refine Inv.scheduleReassign ?_
    exact hnext.of_same (by constructor <;> rfl) hnext.core.gone fun _ => .inl rfl
  unfold Session.sendUpdate
  split
  · next attempt hattempt =>
    split
    · next hworker =>
      have hadmitted := htime hworker.1 hworker.2 (Option.isSome_iff_exists.2 ⟨attempt, hattempt⟩)
      have hsends : ∀ delivery : Delivery, delivery ≠ .sending → Inv
          ({ s.log (.accepted number params (s.desiredParams.overlay params)) with
            edits := s.edits + 1
            handler := .editing ⟨number, s.desiredParams.overlay params, w, s.controlGeneration,
              attempt, s.desiredRevision, s.desiredId⟩ delivery } : Session K V) := by
        intro delivery hsending
        have h := hinv.sends hserving hlive number w attempt params hsending
        exact h.of_same (by constructor <;> rfl) h.core.gone fun _ => .inl rfl
      unfold Session.reserve
      split
      · next hclosed => exact absurd hadmitted.1 hclosed
      split
      · exact hsends .waiting (by simp)
      · next hbusy =>
        split
        · next hclosed => exact absurd (hadmitted.2.resolve_left hbusy) hclosed
        · exact hsends .created (by simp)
    · exact hrefused
  · exact hrefused

theorem Inv.updateParams (hinv : Inv s) (hserving : s.handler = .serving)
    {valid : Dict K V → Bool} (htime : InTime seed s (.updateParams params valid)) :
    Inv (s.updateParams seed params valid) := by
  unfold Session.updateParams
  split
  · exact hinv
  · next hseed =>
    split
    · exact hinv
    · next hvalid =>
      split
      · exact hinv
      · next hmerged =>
        unfold Session.accept
        dsimp only
        split
        · have hnext : Inv ({ (s.log (.accepted s.edits params
              (s.desiredParams.overlay params))).become (s.desiredParams.overlay params) with
              handler := .serving } : Session K V) :=
            hinv.acceptedAtOnce hserving (by simp)
          refine hnext.of_same ⟨rfl, ?_, rfl, rfl, rfl, rfl, rfl, rfl⟩ hnext.core.gone
            fun _ => .inl rfl
          exact hserving
        · next w hworker =>
          have hlive : s.isLive := by
            by_contra hdead
            have hnone := hinv.core.gone (by simpa using hdead)
            rw [hworker] at hnone
            cases hnone
          split
          · next hversion =>
            refine hinv.sendUpdate hserving hlive ?_
            exact htime w hworker hversion (by simpa using hseed) (by simpa using hvalid)
              (by simpa using hmerged)
          · have hnext : Inv ({ (s.log (.accepted s.edits params
                (s.desiredParams.overlay params))).become (s.desiredParams.overlay params) with
                handler := .relaying } : Session K V) :=
              hinv.acceptedAtOnce hserving (by simp)
            exact hnext.of_same (by constructor <;> rfl) hnext.core.gone
              fun _ => .inl rfl

end Accept

/-! ## The delivery of an edit -/

section Deliver

variable {edit : Edit K V} {delivery next : Delivery}

/-- The delivery goes on before its commit. -/
theorem Inv.delivers (hinv : Inv s) (hhandler : s.handler = .editing edit delivery)
    (hcommitted : delivery ≠ .committed) (hsending : delivery ≠ .sending)
    (hnext : next ≠ .sending) :
    Inv { s with handler := .editing edit next } := by
  have hcore := hinv.core
  have hout : ∀ edit', s.handler ≠ .editing edit' .committed := by
    intro edit' h
    rw [hhandler] at h
    cases h
    exact hcommitted rfl
  refine ⟨⟨hcore.gone, hcore.revision, hcore.kept, hcore.carried, ?_, ?_⟩, ?_, fun i => ?_⟩
  · intro hlive edit' delivery' h _
    cases h
    have hflight := hcore.flight hlive edit delivery hhandler hsending
    refine ⟨hflight.generation_le, hflight.snapshot_le, hflight.held, fun hid => ?_⟩
    exact absurd (hflight.taken hid).1 hcommitted
  · intro row hrow
    refine ⟨(hcore.row row hrow).1, fun hlive hgeneration => .inl ?_⟩
    exact hcore.row_le hout hlive row hrow hgeneration
  · intro before number params merged after hevents
    rcases hinv.settled before number params merged after hevents with hpending | h
    · rcases hpending with ⟨hlive, edit', delivery', h, _, hrest⟩
      rw [hhandler] at h
      cases h
      exact .inl ⟨hlive, edit, next, rfl, hnext, hrest⟩
    · exact .inr h
  · refine (hinv.tasks i).change rfl rfl ?_ id ?_
    · intro hplacing
      rw [hhandler] at hplacing
      cases hplacing
    · rintro _ params revision (hle | ⟨edit', h, _⟩)
      · exact .inl hle
      · exact absurd h (hout edit')

/-- The transaction commits: the row holds the edit before the session does. -/
theorem Inv.commits (hinv : Inv s) (hhandler : s.handler = .editing edit .preparing)
    (hcurrent : s.current edit) :
    Inv { s with
      row := some ⟨edit.generation, edit.merged, edit.base + 1⟩
      handler := .editing edit .committed } := by
  have hmoved : Inv { s with handler := .editing edit .committed } :=
    hinv.delivers hhandler (by simp) (by simp) (by simp)
  have hcore := hmoved.core
  have hgeneration : edit.generation ≤ s.controlGeneration := by
    unfold Session.current at hcurrent
    split at hcurrent
    · next row attempt hrow _ =>
      have heq : row.generation = edit.generation := by
        simp only [Bool.and_eq_true, decide_eq_true_eq] at hcurrent
        exact hcurrent.1.1.1.1
      rw [← heq]
      exact (hinv.core.row row hrow).1
    · cases hcurrent
  refine ⟨⟨hcore.gone, hcore.revision, hcore.kept, hcore.carried, ?_, ?_⟩, hmoved.settled, ?_⟩
  · intro hlive edit' delivery' h hsending
    have hflight := hcore.flight hlive edit' delivery' h hsending
    exact ⟨hflight.generation_le, hflight.snapshot_le, hflight.held, hflight.taken⟩
  rotate_left
  · intro i
    exact (hmoved.tasks i).change rfl rfl .inr id fun _ _ _ => id
  intro row hrow
  cases hrow
  refine ⟨hgeneration, fun hlive heq => ?_⟩
  -- before its commit an edit cannot have been taken over
  have hid : s.desiredId = edit.snapshot := by
    by_contra hid
    have hflight := hinv.core.flight hlive edit .preparing hhandler (by simp)
    cases (hflight.taken hid).1
  exact .inr ⟨edit, rfl, heq, hid, rfl, Nat.le_refl _⟩

theorem Inv.refuses (hinv : Inv s) (hhandler : s.handler = .editing edit .preparing) :
    Inv (s.refused edit.merged) := by
  have hcore := hinv.core
  refine hcore.refused hinv.tasks ?_ ?_ ?_ ?_
  · intro before number params old after hevents
    rcases hinv.settled before number params old after hevents with hpending | h
    · rcases hpending with ⟨_, edit', delivery', h, _, _, rfl⟩
      rw [hhandler] at h
      cases h
      exact .inl rfl
    · exact .inr h
  · intro hlive before old after hevents
    have hflight := hcore.flight hlive edit .preparing hhandler (by simp)
    have hid : s.desiredId = edit.snapshot := by
      by_contra hid
      cases (hflight.taken hid).1
    exact hflight.keeps hcore hid hlive hevents
  · intro edit' h
    rw [hhandler] at h
    cases h
  · rw [hhandler]
    simp

/-- The callback leaves the session alone when nothing is left to mirror. -/
theorem Inv.passes (hinv : Inv s) (hhandler : s.handler = .editing edit .committed)
    (hid : s.isLive → s.desiredId ≠ edit.snapshot) :
    Inv { s with handler := .editing edit .sending } := by
  have hcore := hinv.core
  have hout : s.isLive → ∀ {params : Dict K V} {revision : Nat}, ¬ Awaits s params revision := by
    rintro hlive params revision ⟨edit', h, _, hsnapshot, _⟩
    rw [hhandler] at h
    cases h
    exact hid hlive hsnapshot
  refine ⟨⟨hcore.gone, hcore.revision, hcore.kept, hcore.carried, ?_, ?_⟩, ?_, fun i => ?_⟩
  · intro _ edit' delivery' h hsending
    cases h
    exact absurd rfl hsending
  · intro row hrow
    refine ⟨(hcore.row row hrow).1, fun hlive hgeneration => .inl ?_⟩
    exact ((hcore.row row hrow).2 hlive hgeneration).resolve_right (hout hlive)
  · intro before number params merged after hevents
    rcases hinv.settled before number params merged after hevents with hpending | h
    · -- a `reassign` made it the desired parameters
      rcases hpending with ⟨hlive, edit', delivery', h, _, rfl, rfl⟩
      rw [hhandler] at h
      cases h
      have hflight := hcore.flight hlive edit .committed hhandler (by simp)
      exact .inr (.inr ((hflight.taken (hid hlive)).2.2 before params after hevents))
    · exact .inr h
  · refine (hinv.tasks i).change rfl rfl ?_ id ?_
    · intro hplacing
      rw [hhandler] at hplacing
      cases hplacing
    · exact fun hlive _ _ h => .inl (h.resolve_right (hout hlive))

theorem Inv.mirrors (hinv : Inv s) (hhandler : s.handler = .editing edit .committed)
    (htime : InTime seed s .mirrors) :
    Inv { s.mirrorDesired edit with handler := .editing edit .sending } := by
  have hcore := hinv.core
  unfold Session.mirrorDesired
  split
  · next hguard =>
    rcases hguard with ⟨hlive, hgeneration, _, hid⟩
    have hflight := hcore.flight hlive edit .committed hhandler (by simp)
    have hbase := (hflight.held hid).2 hgeneration.symm
    refine hcore.settles hinv.tasks (Nat.le_add_left 1 _) ?_ ?_ ?_ ?_ ?_
    · intro _ row hrow hrowGeneration
      rcases (hcore.row row hrow).2 hlive hrowGeneration with hle | ⟨edit', h, _, _, _, hle⟩
      · show row.desiredRevision ≤ edit.base + 1
        omega
      · rw [hhandler] at h
        cases h
        exact hle
    · intro before number params old after hevents
      rcases hinv.settled before number params old after hevents with hpending | h
      · rcases hpending with ⟨_, edit', delivery', h, _, _, rfl⟩
        rw [hhandler] at h
        cases h
        exact .inl rfl
      · exact .inr h
    · intro _ before old after hevents
      exact hflight.keeps hcore hid hlive hevents
    · rw [hhandler]
      simp
    · intro edit' delivery' h
      cases h
      rfl
  · next hguard =>
    refine hinv.passes hhandler fun hlive hid => ?_
    rcases htime edit hhandler hlive with ⟨hgeneration, hattempt⟩ | hne
    · exact hguard ⟨hlive, hgeneration, hattempt, hid⟩
    · exact hne hid

end Deliver

/-! ## A reassignment that reads the commit -/

/-- The committed edit becomes the desired parameters of the next generation. -/
theorem Inv.takesOver (hinv : Inv s) {params : Dict K V} {revision : Nat}
    (hawaits : s.isLive → Awaits s params revision) :
    Inv ({ s.become params with desiredRevision := revision } : Session K V).advance := by
  have hcore := hinv.core
  have htouched : s.isLive → ∀ before old after, s.events = before ++ .became old :: after →
      old.Kept (touches after) params := by
    intro hlive before old after hevents
    rcases hawaits hlive with ⟨edit, hhandler, _, hid, rfl, _⟩
    have hflight := hcore.flight hlive edit .committed hhandler (by simp)
    exact hflight.keeps hcore hid hlive hevents
  have hlog := hcore.become_log htouched
  refine ⟨⟨hcore.gone, Nat.le_refl 1, hlog.1, hlog.2, ?_, ?_⟩, ?_, fun i => ?_⟩
  · intro hlive edit' delivery h hsending
    rcases hawaits hlive with ⟨edit, hhandler, _, hid, rfl, _⟩
    obtain ⟨rfl, rfl⟩ : edit' = edit ∧ delivery = .committed := by
      have heq : Handler.editing edit' delivery = .editing edit .committed := h.symm.trans hhandler
      simpa using heq
    have hflight := hcore.flight hlive edit' .committed hhandler (by simp)
    have hlt := Nat.lt_succ_of_le hflight.generation_le
    refine ⟨hlt.le, Nat.le_succ_of_le hflight.snapshot_le, fun hnew => ?_, fun _ => ?_⟩
    · have hnew' : s.desiredId + 1 = edit'.snapshot := hnew
      omega
    · refine ⟨rfl, hlt, fun before update after hevents => ?_⟩
      rcases List.append_cons_eq_concat.1 hevents.symm with ⟨_, _, hevent⟩ | ⟨rest, rfl, _⟩
      · cases hevent
      · simp
  · intro row hrow
    have hlt := Nat.lt_succ_of_le (hcore.row row hrow).1
    exact ⟨hlt.le, fun _ heq => absurd heq hlt.ne⟩
  · intro before number update merged after hevents
    refine settled_concat (P := Pending s number merged) (by simp) ?_ .inl hevents
    exact fun before after hold => hinv.settled before number update merged after hold
  · exact (hinv.tasks i).become (Nat.le_succ _) (Nat.lt_succ_self _) id

theorem Inv.reopen (hinv : Inv s) {i generation snapshot : Nat} {choice : Option Nat}
    {committed : Option (Dict K V × Nat)} (htask : s.tasks i = .read generation snapshot committed)
    (htime : InTime seed s (.reopens i choice)) :
    Inv (s.reopen i snapshot committed choice) := by
  have hok := hinv.tasks i
  rw [htask] at hok
  have hplace : ∀ {r : Session K V}, Inv r.advance → Inv (r.advance.place i .reassign choice) :=
    fun hr => hr.place (by simp) fun _ _ _ => rfl
  unfold Session.reopen
  cases committed with
  | none => exact hplace hinv.advance
  | some read =>
    rcases read with ⟨params, revision⟩
    dsimp only
    split
    · next hpast =>
      refine hplace (hinv.takesOver fun hlive => ?_)
      have hgeneration := htime generation snapshot params revision htask hpast.1 hpast.2
      have hread := hok.2.2 params revision rfl hlive hgeneration.symm hpast.2.symm
      rcases hread with hle | hawaits
      · omega
      · exact hawaits
    · exact hplace hinv.advance

/-! ## The row -/

theorem Inv.reads (hinv : Inv s) {i generation snapshot : Nat}
    (htask : s.tasks i = .reading generation snapshot) :
    TaskOk s i (.read generation snapshot
      ((s.row.filter (·.generation = generation)).map fun row =>
        (row.desiredParams, row.desiredRevision))) := by
  have hok := hinv.tasks i
  rw [htask] at hok
  refine ⟨hok.1, hok.2, fun params revision hcommitted hlive hgeneration _ => ?_⟩
  obtain ⟨row, hrow, hpair⟩ := Option.map_eq_some_iff.1 hcommitted
  cases hpair
  have hfilter := Option.filter_eq_some_iff.1 hrow
  have hsame : row.generation = generation := by simpa using hfilter.2
  exact (hinv.core.row row hfilter.1).2 hlive (hsame.trans hgeneration)

theorem Inv.openCommits (hinv : Inv s) {i : Nat} {caller : Caller} {attempt : Attempt K V}
    (hplaces : Places s i caller attempt) (attempts : Nat → Option AttemptRow) :
    Inv { s.put i (.placing caller { attempt with phase := .opened }) with
      row := some ⟨attempt.started, attempt.params, 1⟩
      attempts := attempts } := by
  have hput : Inv (s.put i (.placing caller { attempt with phase := .opened })) :=
    hinv.put ⟨hplaces.started_le, hplaces.first⟩
  have hcore := hput.core
  refine ⟨⟨hcore.gone, hcore.revision, hcore.kept, hcore.carried, ?_, ?_⟩, hput.settled, ?_⟩
  · intro hlive edit delivery h hsending
    have hflight := hcore.flight hlive edit delivery h hsending
    exact ⟨hflight.generation_le, hflight.snapshot_le, hflight.held, hflight.taken⟩
  · intro row hrow
    cases hrow
    exact ⟨hplaces.started_le, fun _ _ => .inl hcore.revision⟩
  · intro j
    exact (hput.tasks j).change rfl rfl .inr id fun _ _ _ => id

end Potocolom.Edits
