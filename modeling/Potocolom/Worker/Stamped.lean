import Potocolom.Worker.Identity

/-! # Whose identity a report carries

A report is stamped with the identity its runner has at the time. As long as every
`update_session` names the attempt and the generation that the runner it finds was opened
with, that is the identity of the `open_session` that created the runner. -/

namespace Potocolom.Worker

/-! ## What is stamped -/

/-- The identity of the `open_session` that is a runner's origin, as far as reports show it. -/
structure Stamps (identity : Control) (origin : Command) : Prop where
  attempt : identity "attempt_id" = origin.fields "attempt_id"
  generation : identity "control_generation" = origin.fields "control_generation"
  generated : (origin.fields "control_generation").isSome
  range : identity "range_id" = origin.workBudget.bind (· "range_id")

/-- A report names the attempt, the generation and, once closed, the range of an open. -/
structure Names (message : Control) (origin : Command) : Prop where
  attempt : message "attempt_id" = origin.fields "attempt_id"
  generation : message "control_generation" = origin.fields "control_generation"
  range : kindOf message = "session_closed" →
    message "range_id" = origin.workBudget.bind (· "range_id")

section Send

variable {reportHash : Control → String} {checks : Control → Bool}
variable {message identity stamped : Control} {kind : String}

/-- What enriching a session's report makes of the fields that name it. -/
theorem enrich_session (hkind : kind ∈ sessionKinds)
    (htype : message "type" = some (.text kind))
    (h : enrich reportHash message identity = some stamped) :
    stamped "type" = message "type" ∧
      stamped "attempt_id" = (identity "attempt_id").or (message "attempt_id") ∧
      stamped "control_generation" =
        (identity "control_generation").or (message "control_generation") ∧
      (kind = "session_closed" → stamped "range_id" = identity "range_id") := by
  have hkindOf : kindOf message = kind := by rw [kindOf, htype]
  simp only [sessionKinds, List.mem_cons, List.not_mem_nil, or_false] at hkind
  rcases hkind with rfl | rfl | rfl
  · simp [enrich, hkindOf, jobKinds] at h
    subst h
    simp [setDefault, assign, Dict.overlay, pick, identityFields, sessionKinds, commonKeys]
  · simp [enrich, hkindOf, jobKinds] at h
    subst h
    simp [setDefault, assign, Dict.overlay, pick, identityFields, sessionKinds, commonKeys]
  · simp [enrich, hkindOf, jobKinds, Option.bind_eq_some_iff] at h
    obtain ⟨range, hrange, h⟩ := h
    subst h
    simp [assign, Dict.overlay, pick, identityFields, sessionKinds, commonKeys, dict, hrange]

/-- A report of a session, as its runner hands it over: it does not name the attempt. -/
structure IsReport (message : Control) : Prop where
  kind : ∃ kind ∈ sessionKinds, message "type" = some (.text kind)
  attempt : message "attempt_id" = none

theorem isReport_lifecycle {kind : String} (hkind : kind ∈ sessionKinds) (x generation : Nat) :
    IsReport (lifecycle kind x generation []) :=
  ⟨⟨kind, hkind, rfl⟩, rfl⟩

theorem isReport_refusal (x generation : Nat) (reason : String) :
    IsReport (lifecycle "session_refused" x generation [("reason", .text reason)]) :=
  ⟨⟨"session_refused", by decide, rfl⟩, rfl⟩

theorem Report.isReport (report : Report) : IsReport report.payload := by
  refine ⟨⟨"session_closed", by decide, ?_⟩, ?_⟩ <;>
  · unfold Report.payload
    cases report.score <;> rfl

theorem Sent.isReport {sent : Sent} (h : sent.payload = some message) : IsReport message := by
  cases sent with
  | ready x generation =>
    cases h
    exact isReport_lifecycle (by decide) x generation
  | refused x generation reason =>
    cases h
    exact isReport_refusal x generation reason
  | closed report =>
    cases h
    exact report.isReport
  | frame => cases h

/-- A report that passes the check names an attempt. -/
theorem attempt_of_validates {kind : String} (hkind : kind ∈ sessionKinds)
    (htype : message "type" = some (.text kind)) (h : validates checks message = true) :
    (message "attempt_id").isSome := by
  have hkindOf : kindOf message = kind := by rw [kindOf, htype]
  have hall : ∀ key ∈ shapeRequired kind, (message key).isSome := by
    rw [validates, hkindOf, Bool.and_eq_true, List.all_eq_true] at h
    exact h.1
  simp only [sessionKinds, List.mem_cons, List.not_mem_nil, or_false] at hkind
  rcases hkind with rfl | rfl | rfl <;> exact hall _ (by simp [shapeRequired])

/-- Without an identity no report passes. -/
theorem send_unstamped (hreport : IsReport message) :
    send reportHash checks none message = none := by
  obtain ⟨kind, hkind, htype⟩ := hreport.kind
  rw [send, Option.filter_eq_none_iff]
  rintro m ⟨⟩ hvalid
  have hsome := attempt_of_validates hkind htype hvalid
  rw [hreport.attempt] at hsome
  cases hsome

/-- Under the identity of an open, a report names the open. -/
theorem send_names {origin : Command} (hreport : IsReport message) (hstamps : Stamps identity origin)
    (h : send reportHash checks (some identity) message = some stamped) :
    Names stamped origin := by
  obtain ⟨kind, hkind, htype⟩ := hreport.kind
  obtain ⟨henrich, -⟩ := Option.filter_eq_some_iff.1 h
  obtain ⟨hsame, hattempt, hgeneration, hrange⟩ := enrich_session hkind htype henrich
  constructor
  · rw [hattempt, hreport.attempt, Option.or_none, hstamps.attempt]
  · -- the identity's generation goes over the one that the runner put
    obtain ⟨generation, hsome⟩ := Option.isSome_iff_exists.1 hstamps.generated
    rw [hgeneration, hstamps.generation, hsome, Option.some_or]
  · intro hclosed
    have hkindOf : kindOf stamped = kind := by rw [kindOf, hsame, htype]
    rw [hrange (hkindOf.symm.trans hclosed), hstamps.range]

end Send

/-! ## Identities and their updates -/

/-- The identity of an open names it. -/
theorem commandIdentity_stamps {command : Command} {identity : Control}
    (hgeneration : (command.fields "control_generation").isSome)
    (h : commandIdentity command = some identity) : Stamps identity command := by
  unfold commandIdentity at h
  cases hbudget : command.workBudget with
  | none =>
    rw [hbudget] at h
    cases h
    exact ⟨rfl, rfl, hgeneration, by simp [pick, identityKeys, hbudget]⟩
  | some budget =>
    rw [hbudget] at h
    obtain ⟨range, hrange, rfl⟩ := Option.map_eq_some_iff.1 h
    refine ⟨rfl, rfl, hgeneration, ?_⟩
    simp [assign, hbudget, hrange]

/-- The update names the attempt and the generation of the open. -/
def SameAttempt (update origin : Command) : Prop :=
  update.fields "attempt_id" = origin.fields "attempt_id" ∧
    update.fields "control_generation" = origin.fields "control_generation"

/-- Merging an update into the identity of an open leaves it the open's identity exactly when
the update names the open's attempt. -/
theorem merge_stamps {update origin : Command} {identity merged : Control}
    (hshape : update.IsUpdate) (hidentity : commandIdentity update = some merged)
    (h : Stamps identity origin) :
    Stamps (identity.overlay merged) origin ↔ SameAttempt update origin := by
  have hbudget : update.workBudget = none := Option.not_isSome_iff_eq_none.1 (by simp [hshape.2])
  rw [commandIdentity, hbudget, Option.some.injEq] at hidentity
  subst hidentity
  obtain ⟨attempt, hattempt⟩ := Option.isSome_iff_exists.1 (hshape.1 "attempt_id" (by decide))
  obtain ⟨generation, hgeneration⟩ :=
    Option.isSome_iff_exists.1 (hshape.1 "control_generation" (by decide))
  constructor
  · intro hstamps
    have hone := hstamps.attempt
    have htwo := hstamps.generation
    simp only [Dict.overlay, pick, identityKeys, hattempt, hgeneration] at hone htwo
    exact ⟨hattempt.trans (by simpa using hone), hgeneration.trans (by simpa using htwo)⟩
  · rintro ⟨hone, htwo⟩
    refine ⟨?_, ?_, h.generated, ?_⟩
    · simp [Dict.overlay, pick, identityKeys, hattempt, ← hone]
    · simp [Dict.overlay, pick, identityKeys, hgeneration, ← htwo]
    · simp [Dict.overlay, pick, identityKeys, h.range]

/-! ## What the manager's operations move -/

namespace Manager

/-- No runner is created, and none enters the table. -/
structure Fewer (s t : Manager) : Prop where
  created : t.created = s.created
  runners : ∀ x r, t.runners x = some r → s.runners x = some r

theorem Fewer.refl (s : Manager) : Fewer s s := ⟨rfl, fun _ _ h => h⟩

theorem Fewer.trans {s t u : Manager} (h₁ : Fewer s t) (h₂ : Fewer t u) : Fewer s u :=
  ⟨h₂.created.trans h₁.created, fun x r h => h₁.runners x r (h₂.runners x r h)⟩

theorem fewer_pop (s : Manager) (x : Nat) : Fewer s (s.pop x) := by
  refine ⟨rfl, fun y r h => ?_⟩
  by_cases hy : y = x
  · subst hy
    simp [pop] at h
  · simpa [pop, Function.update_of_ne hy] using h

theorem fewer_supersede (s : Manager) (x generation : Nat) :
    Fewer s (s.supersede x generation) := by
  unfold supersede
  split
  · exact (fewer_pop s x).trans ⟨rfl, fun _ _ h => h⟩
  · exact ⟨rfl, fun _ _ h => h⟩

theorem fewer_resendReady (s : Manager) (r : Nat) : Fewer s (s.resendReady r) := by
  unfold resendReady
  split
  · exact ⟨rfl, fun _ _ h => h⟩
  · exact .refl s

theorem fewer_updateSession (s : Manager) (control : Update) :
    Fewer s (s.updateSession control) := by
  unfold updateSession
  split
  · exact .refl s
  · split
    · exact ⟨rfl, fun _ _ h => h⟩
    · exact .refl s

theorem fewer_closeSession (s : Manager) (control : Close) : Fewer s (s.closeSession control) := by
  unfold closeSession
  split
  · split
    · exact .refl s
    · exact ⟨rfl, fun _ _ h => h⟩
  · split
    · exact (fewer_pop s control.session).trans ⟨rfl, fun _ _ h => h⟩
    · exact .refl s

theorem fewer_shutdown (s : Manager) : Fewer s s.shutdown :=
  ⟨rfl, fun _ _ h => absurd h (by simp [shutdown])⟩

theorem fewer_submit (s : Manager) (x revision : Nat) (payload : List UInt8) :
    Fewer s (s.submit x revision payload) := by
  unfold submit
  split
  · exact .refl s
  · exact ⟨rfl, fun _ _ h => h⟩

/-- An open creates the runner after the last, of a generation above zero, or none. -/
theorem openSession_creates (s : Manager) (control : Open) (drawn : Int) :
    Fewer s (s.openSession control drawn) ∨
      ((s.openSession control drawn).created = s.created + 1 ∧
        (controlGeneration control.generation).isSome ∧
        ∀ x r, (s.openSession control drawn).runners x = some r →
          r = s.created ∨ s.runners x = some r) := by
  unfold openSession
  split
  · exact .inl (.refl s)
  · next generation hgeneration =>
    split
    · exact .inl (.refl s)
    split
    · split
      · exact .inl (fewer_resendReady s _)
      · exact .inl (.refl s)
    · have hfewer := fewer_supersede s control.session generation
      dsimp only
      split
      · exact .inl hfewer
      · right
        refine ⟨congrArg (· + 1) hfewer.created, by rw [hgeneration]; rfl, ?_⟩
        intro x r hrunner
        by_cases hx : x = control.session
        · subst hx
          left
          have hself := Function.update_self control.session
            (some (s.supersede control.session generation).created)
            (s.supersede control.session generation).runners
          exact (Option.some.inj (hself.symm.trans hrunner)).symm.trans hfewer.created
        · right
          apply hfewer.runners
          exact (Function.update_of_ne hx _ _).symm.trans hrunner

end Manager

/-! ## The invariant -/

namespace Link

/-- What runners, awaited reports and messages on the wire name is the open they come from. -/
structure Inv (s : Link) : Prop where
  runners : ∀ x r, s.manager.runners x = some r → (s.identity r).isSome
  identity : ∀ r identity, s.identity r = some identity →
    r < s.manager.created ∧ Stamps identity (s.origin r)
  closing : ∀ r identity, (r, some identity) ∈ s.closing →
    r < s.manager.created ∧ Stamps identity (s.origin r)
  posted : ∀ r message, ⟨some r, message⟩ ∈ s.posted →
    r < s.manager.created ∧ Names message (s.origin r)

section Steps

variable {reportHash : Control → String} {checks : Control → Bool} {s t : Link}
variable {command : Command}

theorem fresh_inv (byId : List (String × Manifest)) : (fresh byId).Inv := by
  constructor
  · intro x r h
    cases h
  · intro r identity h
    cases h
  · intro r identity h
    cases h
  · intro r message h
    cases h

theorem Inv.fewer (h : s.Inv) {manager : Manager} (hfewer : Manager.Fewer s.manager manager) :
    ({ s with manager := manager } : Link).Inv where
  runners x r hr := h.runners x r (hfewer.runners x r hr)
  identity r identity hid := hfewer.created ▸ h.identity r identity hid
  closing r identity hid := hfewer.created ▸ h.closing r identity hid
  posted r message hm := hfewer.created ▸ h.posted r message hm

theorem Inv.ends (h : s.Inv) : s.ends.Inv := h.fewer (Manager.fewer_shutdown _)

/-- A message that names its runner's open is put on the wire. -/
theorem Inv.post (h : s.Inv) {r : Nat} {message : Control}
    (hnames : r < s.manager.created ∧ Names message (s.origin r)) :
    ({ s with posted := s.posted ++ [⟨some r, message⟩] } : Link).Inv where
  runners := h.runners
  identity := h.identity
  closing := h.closing
  posted r' message' hm := by
    rw [List.mem_append, List.mem_singleton] at hm
    rcases hm with hm | hm
    · exact h.posted r' message' hm
    · cases hm
      exact hnames

/-- What is sent for no runner is no runner's report. -/
theorem Inv.post_refusal (h : s.Inv) (message : Control) :
    ({ s with posted := s.posted ++ [⟨none, message⟩] } : Link).Inv where
  runners := h.runners
  identity := h.identity
  closing := h.closing
  posted r' message' hm := by
    rw [List.mem_append, List.mem_singleton] at hm
    rcases hm with hm | hm
    · exact h.posted r' message' hm
    · cases hm

/-- A runner is created with the identity of its open. -/
theorem Inv.create (h : s.Inv) {manager : Manager} {identity : Control}
    (hcreated : manager.created = s.manager.created + 1)
    (hrunners : ∀ x r, manager.runners x = some r →
      r = s.manager.created ∨ s.manager.runners x = some r)
    (hstamps : Stamps identity command) :
    ({ s with
        manager := manager
        identity := Function.update s.identity s.manager.created (some identity)
        origin := Function.update s.origin s.manager.created command } : Link).Inv := by
  -- the runners there were are below the new one
  have hold : ∀ {r}, r < s.manager.created →
      Function.update s.origin s.manager.created command r = s.origin r :=
    fun hr => Function.update_of_ne (Nat.ne_of_lt hr) _ _
  constructor
  · intro x r hr
    show (Function.update s.identity s.manager.created (some identity) r).isSome
    by_cases hnew : r = s.manager.created
    · rw [hnew, Function.update_self]
      rfl
    · rw [Function.update_of_ne hnew]
      exact h.runners x r ((hrunners x r hr).resolve_left hnew)
  · intro r identity' hid
    show r < manager.created ∧
      Stamps identity' (Function.update s.origin s.manager.created command r)
    by_cases hnew : r = s.manager.created
    · subst hnew
      obtain rfl : identity = identity' :=
        Option.some.inj ((Function.update_self _ _ s.identity).symm.trans hid)
      rw [Function.update_self]
      exact ⟨by omega, hstamps⟩
    · obtain ⟨hr, hst⟩ :=
        h.identity r identity' ((Function.update_of_ne hnew _ s.identity).symm.trans hid)
      rw [hold hr]
      exact ⟨by omega, hst⟩
  · intro r identity' hid
    obtain ⟨hr, hst⟩ := h.closing r identity' hid
    show r < manager.created ∧
      Stamps identity' (Function.update s.origin s.manager.created command r)
    rw [hold hr]
    exact ⟨by omega, hst⟩
  · intro r message hm
    obtain ⟨hr, hnames⟩ := h.posted r message hm
    show r < manager.created ∧
      Names message (Function.update s.origin s.manager.created command r)
    rw [hold hr]
    exact ⟨by omega, hnames⟩

/-- A generation that counts is a field of the command. -/
theorem generation_of_open {control : Open} (hopen : command.open? = some control)
    (h : (controlGeneration control.generation).isSome) :
    (command.fields "control_generation").isSome := by
  have hraw : control.generation = command.rawGeneration := by
    unfold Command.open? at hopen
    split at hopen
    · cases hopen
      rfl
    · cases hopen
  rw [hraw, Command.rawGeneration] at h
  cases hfield : command.fields "control_generation" with
  | none =>
    rw [hfield] at h
    cases h
  | some field => rfl

theorem Inv.opens (h : s.Inv) {identity : Control} {control : Open} {drawn : Int}
    (hopen : command.open? = some control) (hidentity : commandIdentity command = some identity)
    (ht : s.opens reportHash checks command identity control drawn = some t) : t.Inv := by
  unfold Link.opens at ht
  split at ht
  · -- a repeated ready has no identity, and does not pass
    next r _ =>
    have hnone : send reportHash checks none (lifecycle "session_ready"
        (s.manager.rows r).session (s.manager.rows r).generation []) = none :=
      send_unstamped (isReport_lifecycle (by decide) _ _)
    simp only [hnone] at ht
    cases ht
  · rcases s.manager.openSession_creates control drawn with hfewer | ⟨hcreated, hsome, hrunners⟩
    · rw [if_neg (by rw [hfewer.created]; omega)] at ht
      cases ht
      exact h.fewer hfewer
    · rw [if_pos (by omega)] at ht
      cases ht
      exact h.create hcreated hrunners
        (commandIdentity_stamps (generation_of_open hopen hsome) hidentity)

theorem Inv.openSession (h : s.Inv) {drawn : Int}
    (ht : s.openSession reportHash checks command drawn = some t) : t.Inv := by
  unfold Link.openSession at ht
  obtain ⟨control, hopen, ht⟩ := Option.bind_eq_some_iff.1 ht
  obtain ⟨identity, hidentity, ht⟩ := Option.bind_eq_some_iff.1 ht
  split at ht
  · exact h.opens hopen hidentity ht
  · split at ht
    · exact h.opens hopen hidentity ht
    · obtain ⟨message, -, rfl⟩ := Option.map_eq_some_iff.1 ht
      exact h.post_refusal message

theorem Inv.closeSession (h : s.Inv) (ht : s.closeSession command = some t) : t.Inv := by
  unfold Link.closeSession at ht
  obtain ⟨control, -, ht⟩ := Option.bind_eq_some_iff.1 ht
  cases ht
  have hmanager := h.fewer (s.manager.fewer_closeSession control)
  refine ⟨hmanager.runners, hmanager.identity, ?_, hmanager.posted⟩
  intro r identity hmem
  rw [List.mem_append] at hmem
  rcases hmem with hmem | hmem
  · exact hmanager.closing r identity hmem
  · -- the report will be sent under the identity that the runner has now
    obtain ⟨r', -, heq⟩ := List.mem_map.1 hmem
    rw [Prod.mk.injEq] at heq
    obtain ⟨rfl, hid⟩ := heq
    exact hmanager.identity r' identity hid

/-- The update names the attempt that the runner it finds was opened with. -/
def Agrees (s : Link) (command : Command) : Prop :=
  ∀ control r, command.update? = some control → s.manager.runners control.session = some r →
    SameAttempt command (s.origin r)

/-- Every runner in the table has the identity of its open. -/
def Stamped (s : Link) : Prop :=
  ∀ x r identity, s.manager.runners x = some r → s.identity r = some identity →
    Stamps identity (s.origin r)

theorem Inv.stamped (h : s.Inv) : s.Stamped := fun _ r identity _ hid => (h.identity r identity hid).2

/-- How an update ends: it raises, it finds no runner, or it merges into the runner's
identity. -/
theorem updateSession_cases (h : s.Inv) (hshape : command.IsUpdate)
    (ht : s.updateSession command = some t) :
    ∃ control, command.update? = some control ∧
      let manager := s.manager.updateSession control
      (s.manager.runners control.session = none ∧ t = { s with manager := manager }) ∨
      ∃ r identity merged, s.manager.runners control.session = some r ∧
        s.identity r = some identity ∧ commandIdentity command = some merged ∧
        t = { s with
          manager := manager
          identity := Function.update s.identity r (some (identity.overlay merged)) } := by
  have hrunners : ∀ control, (s.manager.updateSession control).runners = s.manager.runners := by
    intro control
    unfold Manager.updateSession
    split
    · rfl
    · split <;> rfl
  have hmerged : commandIdentity command = some (pick command.fields identityKeys) := by
    have hbudget : command.workBudget = none :=
      Option.not_isSome_iff_eq_none.1 (by simp [hshape.2])
    rw [commandIdentity, hbudget]
  unfold Link.updateSession at ht
  obtain ⟨control, hcontrol, ht⟩ := Option.bind_eq_some_iff.1 ht
  refine ⟨control, hcontrol, ?_⟩
  simp only [hrunners, hmerged] at ht
  cases hrunner : s.manager.runners control.session with
  | none =>
    rw [hrunner] at ht
    cases ht
    exact .inl ⟨rfl, rfl⟩
  | some r =>
    right
    obtain ⟨identity, hid⟩ := Option.isSome_iff_exists.1 (h.runners control.session r hrunner)
    simp only [hrunner, hid] at ht
    cases ht
    exact ⟨r, identity, _, rfl, hid, hmerged, rfl⟩

/-- An update that agrees leaves every identity the identity of its open. -/
theorem Inv.updateSession (h : s.Inv) (hshape : command.IsUpdate) (hagrees : s.Agrees command)
    (ht : s.updateSession command = some t) : t.Inv := by
  obtain ⟨control, hcontrol, ⟨-, rfl⟩ | ⟨r, identity, merged, hrunner, hid, hmerged, rfl⟩⟩ :=
    updateSession_cases h hshape ht
  · exact h.fewer (s.manager.fewer_updateSession control)
  · have hmanager := h.fewer (s.manager.fewer_updateSession control)
    obtain ⟨hr, hstamps⟩ := hmanager.identity r identity hid
    refine ⟨?_, ?_, hmanager.closing, hmanager.posted⟩
    · intro x r' hr'
      show (Function.update s.identity r _ r').isSome
      by_cases hsame : r' = r
      · rw [hsame, Function.update_self]
        rfl
      · rw [Function.update_of_ne hsame]
        exact hmanager.runners x r' hr'
    · intro r' identity' hid'
      by_cases hsame : r' = r
      · subst hsame
        obtain rfl : identity.overlay merged = identity' :=
          Option.some.inj ((Function.update_self r' _ s.identity).symm.trans hid')
        have hagree := hagrees control r' hcontrol hrunner
        exact ⟨hr, (merge_stamps hshape hmerged hstamps).2 hagree⟩
      · exact hmanager.identity r' identity'
          ((Function.update_of_ne hsame _ s.identity).symm.trans hid')

/-- One that does not agree leaves the runner it finds another identity. -/
theorem Inv.updateSession_stamped (h : s.Inv) (hshape : command.IsUpdate)
    (ht : s.updateSession command = some t) (hstamped : t.Stamped) : s.Agrees command := by
  intro control r hcontrol hrunner
  obtain ⟨control', hcontrol', hcases⟩ := updateSession_cases h hshape ht
  obtain rfl : control = control' := Option.some.inj (hcontrol.symm.trans hcontrol')
  obtain ⟨hnone, -⟩ | ⟨r', identity, merged, hrunner', hid, hmerged, rfl⟩ := hcases
  · rw [hrunner] at hnone
    cases hnone
  · obtain rfl : r = r' := Option.some.inj (hrunner.symm.trans hrunner')
    have hstands : (s.manager.updateSession control).runners control.session = some r := by
      unfold Manager.updateSession
      rw [hrunner]
      dsimp only
      split <;> exact hrunner
    have hstamps := hstamped control.session r _ hstands (Function.update_self _ _ _)
    exact (merge_stamps hshape hmerged (h.identity r identity hid).2).1 hstamps

theorem Inv.runs (h : s.Inv) {r : Nat} {event : TaskEvent}
    (ht : s.runs reportHash checks r event = some t) : t.Inv := by
  unfold Link.runs at ht
  obtain ⟨⟨row, sent⟩, -, ht⟩ := Option.bind_eq_some_iff.1 ht
  have hfewer : ∀ row, Manager.Fewer s.manager (s.manager.setRunner r fun _ => row) :=
    fun _ => ⟨rfl, fun _ _ hx => hx⟩
  dsimp only at ht
  split at ht
  · cases ht
    exact h.fewer (hfewer row)
  · next payload hpayload =>
    obtain ⟨message, -, hreport⟩ := List.exists_of_findSome?_eq_some hpayload
    split at ht
    · next stamped hsend =>
      cases ht
      apply (h.fewer (hfewer row)).post
      cases hid : s.identity r with
      | none =>
        rw [hid, send_unstamped (Sent.isReport hreport)] at hsend
        cases hsend
      | some identity =>
        rw [hid] at hsend
        obtain ⟨hr, hstamps⟩ := h.identity r identity hid
        exact ⟨hr, send_names (Sent.isReport hreport) hstamps hsend⟩
    · cases ht
      exact h.fewer (hfewer _)

theorem Inv.reports (h : s.Inv) {r durationMs : Nat} {category : String} {score : Option String}
    (ht : s.reports reportHash checks r durationMs category score = some t) : t.Inv := by
  unfold Link.reports at ht
  obtain ⟨identity, hlookup, ht⟩ := Option.bind_eq_some_iff.1 ht
  have hmem : (r, identity) ∈ s.closing := by
    obtain ⟨pre, post, heq, -⟩ := List.lookup_eq_some_iff.1 hlookup
    rw [heq]
    exact List.mem_append_right _ List.mem_cons_self
  -- the report leaves the list of those awaited
  have hrest : ({ s with
      manager := { s.manager with reporting := s.manager.reporting.erase r }
      closing := s.closing.filter (·.1 ≠ r) } : Link).Inv :=
    ⟨h.runners, h.identity, fun r' id hid => h.closing r' id (List.mem_filter.1 hid).1,
      h.posted⟩
  dsimp only at ht
  split at ht
  · next message hsend =>
    cases ht
    apply hrest.post
    cases identity with
    | none =>
      rw [send_unstamped (Report.isReport _)] at hsend
      cases hsend
    | some identity =>
      obtain ⟨hr, hstamps⟩ := h.closing r identity hmem
      exact ⟨hr, send_names (Report.isReport _) hstamps hsend⟩
  · cases ht
    exact hrest.ends

theorem Inv.within (h : s.Inv) {action : Action}
    (hfewer : ∀ manager, Worker.step s.manager action = some manager →
      Manager.Fewer s.manager manager)
    (ht : s.within action = some t) : t.Inv := by
  obtain ⟨manager, hstep, rfl⟩ := Option.map_eq_some_iff.1 ht
  exact h.fewer (hfewer manager hstep)

/-- Every update agrees with the runner it finds. -/
def agreeing (s : Link) : Event → Prop
  | .updateSession command => s.Agrees command
  | _ => True

theorem step_inv (h : s.Inv) {event : Event} (hagrees : agreeing s event)
    (ht : step reportHash checks s event = some t) : t.Inv := by
  cases event with
  | openSession command drawn =>
    simp only [step] at ht
    split at ht
    · cases ht
    · cases ht
      cases hopened : s.openSession reportHash checks command drawn with
      | none => exact h.ends
      | some opened => exact h.openSession hopened
  | updateSession command =>
    simp only [step] at ht
    split at ht
    · cases ht
    · next hguard =>
      cases ht
      cases hupdated : s.updateSession command with
      | none => exact h.ends
      | some updated =>
        exact h.updateSession (not_not.1 (not_or.1 hguard).2) hagrees hupdated
  | closeSession command =>
    simp only [step] at ht
    split at ht
    · cases ht
    · cases ht
      cases hclosed : s.closeSession command with
      | none => exact h.ends
      | some closed => exact h.closeSession hclosed
  | runs r event =>
    simp only [step] at ht
    split at ht
    · exact h.runs ht
    · cases ht
  | reports r durationMs category score => exact h.reports ht
  | submit x revision payload =>
    refine h.within (fun manager hstep => ?_) ht
    simp only [Worker.step] at hstep
    split at hstep
    · cases hstep
    · cases hstep
      exact Manager.fewer_submit ..
  | forgets r =>
    refine h.within (fun manager hstep => ?_) ht
    simp only [Worker.step] at hstep
    split at hstep
    · cases hstep
      exact ⟨rfl, fun _ _ hx => hx⟩
    · cases hstep
  | modelsChanged byId =>
    refine h.within (fun manager hstep => ?_) ht
    cases hstep
    exact ⟨rfl, fun _ _ hx => hx⟩
  | shutdown =>
    refine h.within (fun manager hstep => ?_) ht
    simp only [Worker.step] at hstep
    split at hstep
    · cases hstep
    · cases hstep
      exact Manager.fewer_shutdown _

theorem reach_inv (h : (machine reportHash checks).Reach agreeing s) : s.Inv := by
  apply h.invariant
  · rintro _ ⟨byId, rfl⟩
    exact fresh_inv byId
  · intro s event t hs hagrees ht
    exact step_inv hs hagrees ht

end Steps

end Link

open Link

/-- In a run whose updates all agree, every report that a runner sends names the attempt, the
generation and the range of the open that created the runner. An update keeps the
identities of the runners exactly when it agrees. -/
theorem reports_keep_identity (reportHash : Control → String) (checks : Control → Bool)
    (s : Link) (h : (Link.machine reportHash checks).Reach agreeing s) :
    (∀ r message, ⟨some r, message⟩ ∈ s.posted → Names message (s.origin r)) ∧
    ∀ command t, Link.step reportHash checks s (.updateSession command) = some t →
      (t.Stamped ↔ s.Agrees command) := by
  have hinv := reach_inv h
  refine ⟨fun r message hm => (hinv.posted r message hm).2, fun command t ht => ?_⟩
  constructor
  · intro hstamped
    simp only [Link.step] at ht
    split at ht
    · cases ht
    · next hguard =>
      cases ht
      cases hupdated : s.updateSession command with
      | none =>
        -- only a command without a session raises, and it finds no runner
        intro control r hcontrol
        simp only [Link.updateSession, hcontrol, bind, Option.bind] at hupdated
        split at hupdated
        · cases hupdated
        · split at hupdated
          · cases hupdated
          · split at hupdated <;> cases hupdated
      | some updated =>
        rw [hupdated] at hstamped
        exact hinv.updateSession_stamped (not_not.1 (not_or.1 hguard).2) hupdated hstamped
  · intro hagrees
    have hevent : agreeing s (.updateSession command) := hagrees
    exact (step_inv hinv hevent ht).stamped

namespace Link

/-- A control of session 1 under this attempt and generation. -/
def sampleFields (kind : String) (attempt generation : Nat) : Control :=
  dict [("type", .text kind), ("worker_id", .text "w-1"), ("incarnation", .uuid 90),
    ("region", .text "eu"), ("owner_epoch", .number 1), ("grant_nonce", .uuid 91),
    ("lease_id", .uuid 92), ("lease_expires_at", .text "2026-08-01T00:00:00Z"),
    ("command_id", .uuid 93), ("command_sequence", .number 1), ("body_hash", .text ""),
    ("session_id", .uuid 1), ("attempt_id", .uuid attempt),
    ("control_generation", .number generation), ("model_id", .text "vega-rt"),
    ("params_revision", .number 2)]

def sampleOpen (attempt generation range : Nat) : Event :=
  .openSession ⟨sampleFields "open_session" attempt generation,
    some (dict [("range_id", .uuid range)]), []⟩ 7

def sampleUpdate (attempt generation : Nat) : Event :=
  .updateSession ⟨sampleFields "update_session" attempt generation, none, []⟩

def sampleClose (attempt generation : Nat) : Event :=
  .closeSession ⟨sampleFields "close_session" attempt generation, none, []⟩

/-- The second open supersedes the first; its runner is ready, updated and closed. -/
def sampleEvents (updated : Nat) : List Event :=
  [sampleOpen 11 1 21, sampleOpen 12 2 22, .runs 1 (.resident true),
    sampleUpdate (10 + updated) updated, .runs 1 (.announced true), sampleClose 12 2,
    .reports 1 5 "other" none]

def sampleModels : List (String × Manifest) := [("vega-rt", ⟨"vega-rt", []⟩)]

def sampleMachine : Machine Link Event := Link.machine (fun _ => "") fun _ => true

instance (s : Link) (command : Command) : Decidable (s.Agrees command) :=
  match hcontrol : command.update? with
  | none => isTrue fun _ _ h => by rw [hcontrol] at h; cases h
  | some control =>
    match hrunner : s.manager.runners control.session with
    | none => isTrue fun control' r h hr => by
        obtain rfl : control = control' := Option.some.inj (hcontrol.symm.trans h)
        rw [hrunner] at hr
        cases hr
    | some r =>
      have : Decidable (SameAttempt command (s.origin r)) := inferInstanceAs (Decidable (_ ∧ _))
      decidable_of_iff (SameAttempt command (s.origin r)) <| by
        constructor
        · intro h control' r' hcontrol' hr'
          obtain rfl : control = control' := Option.some.inj (hcontrol.symm.trans hcontrol')
          obtain rfl : r = r' := Option.some.inj (hrunner.symm.trans hr')
          exact h
        · exact fun h => h control r hcontrol hrunner

instance : (s : Link) → (event : Event) → Decidable (agreeing s event)
  | s, .updateSession command => inferInstanceAs (Decidable (s.Agrees command))
  | _, .openSession .. | _, .closeSession _ | _, .runs .. | _, .reports .. | _, .submit ..
  | _, .forgets _ | _, .modelsChanged _ | _, .shutdown => isTrue trivial

/-- Where the events lead. -/
def sampleEnd (updated : Nat) : Link :=
  (sampleMachine.run (Link.fresh sampleModels) (sampleEvents updated)).getD (Link.fresh [])

theorem sample_run {updated : Nat}
    (h : (sampleMachine.run (Link.fresh sampleModels) (sampleEvents updated)).isSome) :
    sampleMachine.run (Link.fresh sampleModels) (sampleEvents updated) =
      some (sampleEnd updated) := by
  obtain ⟨t, ht⟩ := Option.isSome_iff_exists.1 h
  rw [sampleEnd, ht, Option.getD_some]

end Link

/-- An update of the runner's own attempt: the ready and the closed report name it. -/
theorem reports_keep_identity_sample :
    (sampleEnd 2).posted.length = 2 ∧
      ∀ r message, ⟨some r, message⟩ ∈ (sampleEnd 2).posted →
        Names message ((sampleEnd 2).origin r) := by
  have hok : sampleMachine.RunOk agreeing (Link.fresh sampleModels) (sampleEvents 2) := by
    decide +kernel
  have hpath := Machine.path_of_run (sample_run (by decide +kernel)) hok
  exact ⟨by decide +kernel,
    (reports_keep_identity _ _ _ ⟨_, ⟨sampleModels, rfl⟩, hpath⟩).1⟩

/-- An update of the attempt before is ignored by the manager, and yet its identity goes on the
report of the runner. -/
theorem superseded_update_restamps :
    ¬ ∀ (reportHash : Control → String) (checks : Control → Bool) (s : Link),
      (Link.machine reportHash checks).Reach Machine.anyStep s →
        ∀ r message, ⟨some r, message⟩ ∈ s.posted → Names message (s.origin r) := by
  intro hall
  have hpath := Machine.path_of_run_any (@sample_run 1 (by decide +kernel))
  have hnames := hall _ _ _ ⟨_, ⟨sampleModels, rfl⟩, hpath⟩
  have hattempts : (sampleEnd 1).posted.map
      (fun posted => (posted.runner, posted.message "attempt_id")) =
        [(some 1, some (.uuid 12)), (some 1, some (.uuid 11))] := by
    decide +kernel
  have hmem : (some 1, some (Field.uuid 11)) ∈
      (sampleEnd 1).posted.map fun posted => (posted.runner, posted.message "attempt_id") := by
    rw [hattempts]
    simp
  obtain ⟨⟨runner, message⟩, hposted, heq⟩ := List.mem_map.1 hmem
  obtain ⟨rfl, hattempt⟩ := Prod.mk.inj heq
  have horigin : ((sampleEnd 1).origin 1).fields "attempt_id" = some (.uuid 12) := by
    decide +kernel
  have hclash := hattempt.symm.trans ((hnames 1 message hposted).attempt.trans horigin)
  exact absurd hclash (by decide)

end Potocolom.Worker
