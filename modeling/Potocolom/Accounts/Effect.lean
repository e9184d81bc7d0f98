import Potocolom.Accounts.Spec

/-! # What a step can do

A step commits nothing of note, commits a change, issues a session or mints a link.
`step_effect` says that these are all, with what each leaves of the account and of
the requests in flight. -/

namespace Potocolom.Accounts

variable {env : Env} {s t : World}

/-- A request in flight read the account at `readAt` for a link. -/
def World.LinkRead (s : World) (readAt : Nat) (queued : Bool) : Prop :=
  ∃ r q, s.requests.get r = some q ∧ q.readForLink = some (readAt, queued)

/-- A request in flight read the factor `id` at `readAt`. -/
def World.FactorRead (s : World) (id readAt : Nat) : Prop :=
  ∃ r q, s.requests.get r = some q ∧ q.factorRead = some (id, readAt)

/-- What the requests of `t` have read they had read in `s`, or read it there now. -/
structure Follows (s t : World) : Prop where
  link : ∀ readAt queued, t.LinkRead readAt queued →
    s.LinkRead readAt queued ∨ readAt = s.changes.length ∧ s.account.user.state = .active ∧
      (queued = true → s.account.user.role ≠ .admin)
  factor : ∀ id readAt, t.FactorRead id readAt →
    s.FactorRead id readAt ∨ readAt = s.changes.length ∧ s.account.factorId = some id

theorem follows_of_eq (h : t.requests = s.requests) : Follows s t where
  link readAt queued hread := .inl (by simpa [World.LinkRead, h] using hread)
  factor id readAt hread := .inl (by simpa [World.FactorRead, h] using hread)

theorem follows_of_set {r : Nat} {q : Request} (h : t.requests = s.requests.set r q)
    (hlink : ∀ readAt queued, q.readForLink = some (readAt, queued) →
      s.LinkRead readAt queued ∨ readAt = s.changes.length ∧ s.account.user.state = .active ∧
        (queued = true → s.account.user.role ≠ .admin))
    (hfactor : ∀ id readAt, q.factorRead = some (id, readAt) →
      s.FactorRead id readAt ∨ readAt = s.changes.length ∧ s.account.factorId = some id) :
    Follows s t where
  link := by
    intro readAt queued hread
    obtain ⟨r', q', hget, hq⟩ := hread
    rw [h, Table.get_set] at hget
    split at hget
    · simp only [Option.some.injEq] at hget
      exact hlink _ _ (hget ▸ hq)
    · exact .inl ⟨r', q', hget, hq⟩
  factor := by
    intro id readAt hread
    obtain ⟨r', q', hget, hq⟩ := hread
    rw [h, Table.get_set] at hget
    split at hget
    · simp only [Option.some.injEq] at hget
      exact hfactor _ _ (hget ▸ hq)
    · exact .inl ⟨r', q', hget, hq⟩

/-- A request that keeps nothing it read. -/
theorem follows_of_plain {r : Nat} {q : Request} (h : t.requests = s.requests.set r q)
    (hlink : q.readForLink = none) (hfactor : q.factorRead = none) : Follows s t :=
  follows_of_set h (by simp [hlink]) (by simp [hfactor])

/-- A request that goes on with the factor it had read. -/
theorem follows_of_factor {r : Nat} {q q' : Request} (h : t.requests = s.requests.set r q)
    (hlink : q.readForLink = none) (hget : s.requests.get r = some q')
    (hfactor : q.factorRead = q'.factorRead) : Follows s t :=
  follows_of_set h (by simp [hlink])
    fun _ _ hread => .inl ⟨r, q', hget, hfactor ▸ hread⟩

/-- What a change leaves. `presented` is the cookie it rotated: a live row held it,
and no live row holds it any more. -/
structure Changed (a a' : Account) (c : Change) : Prop where
  shrinks : Shrinks a a'
  evicted : c.kind.reactivates = false → a'.evicted c.keeps
  links : c.kind.fencesLinks = true → a'.noLink ∨ a.user.state ≠ .active
  user : c.kind.fencesLinks = false → SameUser a a'
  factor_kept : .factor ∉ c.kind.alters → a'.factorId = a.factorId
  factor_new : .factor ∈ c.kind.alters →
    ∀ id, a'.factorId = some id → a.next ≤ id ∧ id < a'.next
  presented : ∀ token, c.presented = some token →
    (∃ row ∈ a.sessions, row.standing ∧ row.tokenHash = token) ∧
      ∀ row' ∈ a'.sessions, row'.standing → row'.tokenHash ≠ token ∨ a.next ≤ row'.tokenHash

/-- What a step can do. -/
inductive Effect (s : World) (l : Action) (t : World) : Prop where
  /-- Nothing of note; the account may come back to life or be claimed by the purge. -/
  | quiet (follows : Follows s t) (shrinks : Shrinks s.account t.account)
      (user : SameUser s.account t.account ∨ s.account.user.state ≠ .active)
      (factor : t.account.factorId = s.account.factorId)
      (changes : t.changes = s.changes) (issues : t.issues = s.issues)
      (minted : t.minted = s.minted) (accepted : t.accepted = s.accepted)
  /-- A change commits. -/
  | changed (c : Change) (follows : Follows s t) (changed : Changed s.account t.account c)
      (changes : t.changes = s.changes ++ [c]) (issues : t.issues = s.issues)
      (minted : t.minted = s.minted) (accepted : t.accepted = s.accepted)
  /-- A link sets the password. -/
  | accepted (follows : Follows s t) (changed : Changed s.account t.account ⟨.reset, none, none⟩)
      (link : AuthToken) (mem : link ∈ s.account.tokens) (outstanding : link.outstanding)
      (changes : t.changes = s.changes ++ [⟨.reset, none, none⟩]) (issues : t.issues = s.issues)
      (minted : t.minted = s.minted)
      (accepted : t.accepted = s.accepted ++
        [⟨link.tokenHash, s.changes.length, s.account.user.role, s.account.user.state⟩])
  /-- A sign-in issues a session. -/
  | issued (x : Issue) (row : Session) (follows : Follows s t)
      (session : row.id = s.account.next ∧ row.tokenHash = s.account.next + 1)
      (account : t.account =
        { s.account with sessions := s.account.sessions ++ [row], next := s.account.next + 2 })
      (issue : x.session = row.id ∧ x.mintedAt = s.changes.length)
      (factor : x.factorReadAt = s.changes.length ∨
        ∃ id, s.FactorRead id x.factorReadAt ∧ s.account.factorId = some id)
      (changes : t.changes = s.changes) (issues : t.issues = s.issues ++ [x])
      (minted : t.minted = s.minted) (accepted : t.accepted = s.accepted)
  /-- A link is minted. -/
  | minted (m : Minted) (r : Nat) (q : Request) (follows : Follows s t)
      (label : l = .queueReset r ∨ l = .mintLink r) (get : s.requests.get r = some q)
      (read : q.readForLink = some (m.readAt, m.queued)) (token : m.token = s.account.next + 1)
      (next : t.account.next = s.account.next + 2)
      (sessions : t.account.sessions = s.account.sessions)
      (links : ∀ row ∈ t.account.tokens,
        row ∈ s.account.tokens ∨ row.tokenHash = m.token)
      (user : SameUser s.account t.account) (factor : t.account.factorId = s.account.factorId)
      (changes : t.changes = s.changes) (issues : t.issues = s.issues)
      (minted : t.minted = s.minted ++ [m]) (accepted : t.accepted = s.accepted)

/-! ## Quiet steps -/

/-- A step that only moves a request. -/
theorem Effect.of_put {l : Action} {r : Nat} {q : Request} (h : Follows s (s.put r q)) :
    Effect s l (s.put r q) :=
  .quiet h (Shrinks.refl _) (.inl ⟨rfl, rfl⟩) rfl rfl rfl rfl rfl

/-- A step that moves a request to a stage where it keeps nothing it read. -/
theorem Effect.of_put_plain {l : Action} {r : Nat} {q : Request} (h : some (s.put r q) = some t)
    (hlink : q.readForLink = none) (hfactor : q.factorRead = none) : Effect s l t := by
  simp only [Option.some.injEq] at h
  subst h
  exact .of_put (follows_of_plain rfl hlink hfactor)

/-- A step that commits a transaction which is no change. -/
theorem Effect.of_commit {l : Action} {a : Account} (hshrinks : Shrinks s.account a)
    (huser : SameUser s.account a ∨ s.account.user.state ≠ .active)
    (hfactor : a.factorId = s.account.factorId) : Effect s l (s.commit a) :=
  .quiet (follows_of_eq rfl) hshrinks huser hfactor rfl rfl rfl rfl

/-- The same for a step that also moves a request. -/
theorem Effect.of_commit_put {l : Action} {a : Account} {r : Nat} {q : Request}
    (h : Follows s ((s.commit a).put r q)) (hshrinks : Shrinks s.account a)
    (huser : SameUser s.account a) (hfactor : a.factorId = s.account.factorId) :
    Effect s l ((s.commit a).put r q) :=
  .quiet h hshrinks (.inl huser) hfactor rfl rfl rfl rfl

theorem touch_shrinks (a : Account) (session : Nat) (now : Time) :
    Shrinks a
      { a with
        sessions := a.sessions.map fun row =>
          if row.id = session ∧ row.usable now then row.touch a.user.role now else row } where
  next_le := le_rfl
  sessions := by
    intro row' h hs
    simp only [List.mem_map] at h
    obtain ⟨row, hrow, rfl⟩ := h
    split at hs
    · next hc =>
      rw [if_pos hc]
      exact ⟨row, hrow, hs, rfl, .inl rfl⟩
    · next hc =>
      rw [if_neg hc]
      exact ⟨row, hrow, hs, rfl, .inl rfl⟩
  links := (Shrinks.refl a).links

/-! ## Changes -/

/-- No credential route touches the factor. -/
theorem CredentialCall.not_alters_factor (call : CredentialCall) :
    .factor ∈ call.kind.alters ↔ False := by
  cases call <;> simp [CredentialCall.kind, ChangeKind.alters]

/-- A change that leaves no session and no link. -/
theorem changed_of_empties {a a' : Account} {kind : ChangeKind} (h : Empties a a')
    (hfactor : .factor ∉ kind.alters) (hlinks : kind.fencesLinks = true → a'.noLink)
    (huser : kind.fencesLinks = false → SameUser a a') : Changed a a' ⟨kind, none, none⟩ where
  shrinks := h.shrinks
  evicted _ := h.evicted
  links hfences := .inl (hlinks hfences)
  user := huser
  factor_kept _ := h.factor
  factor_new hf := absurd hf hfactor
  presented _ hp := by simp at hp

/-- A change that rotates the session of its request. -/
theorem changed_of_rotates {a a' : Account} {kind : ChangeKind} {principal : Resolved}
    (h : Rotates a a' principal) (huser : SameUser a a')
    (hlinks : kind.fencesLinks = true → a'.noLink)
    (hkept : .factor ∉ kind.alters → a'.factorId = a.factorId)
    (hnew : .factor ∈ kind.alters → ∀ id, a'.factorId = some id → a.next ≤ id ∧ id < a'.next) :
    Changed a a' ⟨kind, some principal.session.id, some principal.session.tokenHash⟩ where
  shrinks := h.shrinks
  evicted _ := h.evicted
  links hfences := .inl (hlinks hfences)
  user _ := huser
  factor_kept := hkept
  factor_new := hnew
  presented := by
    intro token htoken
    simp only [Option.some.injEq] at htoken
    exact ⟨htoken ▸ h.presented, htoken ▸ h.fresh⟩

theorem Effect.of_rotates {l : Action} {a : Account} {kind : ChangeKind} {principal : Resolved}
    {r : Nat} (h : Rotates s.account a principal) (huser : SameUser s.account a)
    (hlinks : kind.fencesLinks = true → a.noLink)
    (hkept : .factor ∉ kind.alters → a.factorId = s.account.factorId)
    (hnew : .factor ∈ kind.alters →
      ∀ id, a.factorId = some id → s.account.next ≤ id ∧ id < a.next) :
    Effect s l ((s.rotated a kind principal).put r .done) :=
  .changed _ (follows_of_plain rfl rfl rfl) (changed_of_rotates h huser hlinks hkept hnew) rfl rfl
    rfl rfl

theorem effect_changeState {change : StateChange} {a : Account}
    (h : s.account.changeState change s.now = .ok (some a)) :
    Effect s (.changeState change) (s.committed a (.state change.state) none none) := by
  obtain ⟨hshrinks, hfactor, -, hne, htaken⟩ := changeState_ok h
  refine .changed _ (follows_of_eq rfl) ?_ rfl rfl rfl rfl
  by_cases hactive : change.state = .active
  · -- coming back to active: nobody is evicted, and no link was outstanding
    refine ⟨hshrinks, ?_, fun _ => .inr (hactive ▸ hne), ?_, fun _ => hfactor, ?_, ?_⟩
    · intro hre
      simp [ChangeKind.reactivates, hactive] at hre
    · intro hfences
      simp [ChangeKind.fencesLinks] at hfences
    · intro hf
      simp [ChangeKind.alters] at hf
    · intro token htoken
      simp at htoken
  · obtain ⟨hempty, hlink⟩ := htaken hactive
    exact changed_of_empties hempty (by simp [ChangeKind.alters]) (fun _ => hlink) (by simp [ChangeKind.fencesLinks])

theorem effect_changeFactor {r : Nat} (h : step env s (.changeFactor r) = some t) :
    Effect s (.changeFactor r) t := by
  simp only [step] at h
  split at h
  · split at h
    · next hok =>
      simp only [Option.some.injEq] at h
      subst h
      obtain ⟨hrotates, huser, hfactor, hlt⟩ := confirmEnrolment_ok hok
      refine Effect.of_rotates hrotates huser (by simp [FactorGoal.kind, ChangeKind.fencesLinks])
        (by simp [FactorGoal.kind, ChangeKind.alters]) ?_
      intro _ id hid
      obtain rfl : s.account.next = id := by simpa [hfactor] using hid
      exact ⟨le_rfl, hlt⟩
    · simp at h
  · split at h
    · next hok =>
      simp only [Option.some.injEq] at h
      subst h
      obtain ⟨hrotates, huser, hfactor⟩ := removeFactor_ok hok
      refine Effect.of_rotates hrotates huser (by simp [FactorGoal.kind, ChangeKind.fencesLinks])
        (by simp [FactorGoal.kind, ChangeKind.alters]) ?_
      simp [hfactor]
    · simp at h
  · simp at h

/-! ## Minting -/

theorem effect_mintLink {l : Action} {a : Account} {purpose : Purpose} {ttl : Time} {r : Nat}
    {q : Request} {readAt : Nat} {queued : Bool} {outbox : List Mail}
    (hlabel : l = .queueReset r ∨ l = .mintLink r) (hget : s.requests.get r = some q)
    (hread : q.readForLink = some (readAt, queued))
    (ha : a = { (s.account.mint purpose ttl s.now).2 with outbox := outbox }) :
    Effect s l
      { (s.commit a).put r .done with
        minted := s.minted ++ [⟨(s.account.mint purpose ttl s.now).1, readAt, queued⟩] } := by
  subst ha
  refine .minted ⟨_, readAt, queued⟩ r q (follows_of_plain rfl rfl rfl) hlabel hget hread rfl rfl
    rfl ?_ ⟨rfl, rfl⟩ rfl rfl rfl rfl rfl
  intro row hrow
  rcases List.mem_append.mp hrow with hold | hnew
  · exact .inl hold
  · rw [List.mem_singleton] at hnew
    exact .inr (hnew ▸ rfl)

theorem effect_mintBehindTheGate {r : Nat} (h : step env s (.mintBehindTheGate r) = some t) :
    Effect s (.mintBehindTheGate r) t := by
  simp only [step] at h
  split at h
  · next door user rememberMe readAt proved hget =>
    split at h
    · next session a hmint =>
      unfold Account.mintBehindTheGate at hmint
      split at hmint
      · next hgate =>
        simp only [Option.some.injEq, Account.mintIn, Prod.mk.injEq] at hmint
        obtain ⟨hsession, ha⟩ := hmint
        simp only [Option.some.injEq] at h
        subst h
        have hrow : session.id = s.account.next ∧ session.tokenHash = s.account.next + 1 :=
          hsession ▸ ⟨rfl, rfl⟩
        refine .issued _ session (follows_of_plain rfl rfl rfl) hrow
          (by rw [← hsession, ← ha]; rfl) ⟨rfl, rfl⟩ ?_ rfl rfl rfl rfl
        cases proved with
        | none => exact .inl rfl
        | some p =>
          -- the gate compared the factor that was proved with the one there is
          exact .inr ⟨p.1, ⟨r, _, hget, rfl⟩, hgate⟩
      · simp at hmint
    · simp only [Option.some.injEq] at h
      subst h
      split
      · exact .of_put (follows_of_plain rfl rfl rfl)
      · exact .of_put (follows_of_plain rfl rfl rfl)
  · simp at h

/-! ## Every step -/

theorem step_effect {l : Action} (h : step env s l = some t) : Effect s l t := by
  cases l with
  | tick seconds =>
    simp only [step, Option.some.injEq] at h
    subst h
    exact .quiet (follows_of_eq rfl) (Shrinks.refl _) (.inl ⟨rfl, rfl⟩) rfl rfl rfl rfl rfl
  | touch session =>
    simp only [step, Option.some.injEq] at h
    subst h
    exact .of_commit (touch_shrinks _ _ _) (.inl ⟨rfl, rfl⟩) rfl
  | revoke session =>
    simp only [step, Option.some.injEq] at h
    subst h
    exact .of_commit (shrinks_revokeWhere _ _ _) (.inl ⟨rfl, rfl⟩) rfl
  | changeRole change =>
    simp only [step] at h
    split at h
    · next hok =>
      simp only [Option.some.injEq] at h
      subst h
      obtain ⟨hempty, hlink, -⟩ := changeRole_ok hok
      exact .changed _ (follows_of_eq rfl)
        (changed_of_empties hempty (by simp [ChangeKind.alters]) (fun _ => hlink) (by simp [ChangeKind.fencesLinks]))
        rfl rfl rfl rfl
    · simp at h
  | changeState change =>
    simp only [step] at h
    split at h
    · next hok =>
      simp only [Option.some.injEq] at h
      subst h
      exact effect_changeState hok
    · simp at h
  | deleteAccount =>
    obtain ⟨a, hok, rfl⟩ := Option.map_eq_some_iff.mp h
    obtain ⟨hempty, hlink, -⟩ := request_ok hok
    exact .changed _ (follows_of_eq rfl)
      (changed_of_empties hempty (by simp [ChangeKind.alters]) (fun _ => hlink) (by simp [ChangeKind.fencesLinks]))
      rfl rfl rfl rfl
  | restore =>
    simp only [step] at h
    split at h
    · next hok =>
      simp only [Option.some.injEq] at h
      subst h
      obtain ⟨hshrinks, hfactor, hstate⟩ := restore_ok hok
      exact .of_commit hshrinks (.inr (by simp [hstate])) hfactor
    · simp at h
  | purge =>
    obtain ⟨a, hok, rfl⟩ := Option.map_eq_some_iff.mp h
    obtain ⟨hshrinks, hfactor, hstate⟩ := claimPurge_ok hok
    exact .of_commit hshrinks (.inr hstate) hfactor
  | deliverReset r email =>
    simp only [step] at h
    split at h
    · next user huser =>
      split at h
      · next hrole =>
        simp only [Option.some.injEq] at h
        subst h
        obtain ⟨rfl, hactive⟩ := activeAccount_some huser
        refine .of_put (follows_of_set rfl ?_ (by simp [Request.factorRead]))
        intro readAt queued hread
        simp only [Request.readForLink, Option.some.injEq, Prod.mk.injEq] at hread
        exact .inr ⟨hread.1.symm, hactive, fun _ => hrole⟩
      · simp at h
    · simp at h
  | queueReset r =>
    simp only [step] at h
    split at h
    · next user readAt hget =>
      simp only [Option.some.injEq] at h
      subst h
      exact effect_mintLink (.inl rfl) hget rfl rfl
    · simp at h
  | readForReset r email =>
    obtain ⟨user, huser, rfl⟩ := Option.map_eq_some_iff.mp h
    refine .of_put (follows_of_set rfl ?_ (by simp [Request.factorRead]))
    intro readAt queued hread
    simp only [Request.readForLink, Option.some.injEq, Prod.mk.injEq] at hread
    exact .inr ⟨hread.1.symm, (activeAccount_some huser).2, by simp [← hread.2]⟩
  | readForRecovery r email =>
    simp only [step] at h
    split at h
    · next user huser =>
      split at h
      · simp only [Option.some.injEq] at h
        subst h
        refine .of_put (follows_of_set rfl ?_ (by simp [Request.factorRead]))
        intro readAt queued hread
        simp only [Request.readForLink, Option.some.injEq, Prod.mk.injEq] at hread
        exact .inr ⟨hread.1.symm, (activeAccount_some huser).2, by simp [← hread.2]⟩
      · simp at h
    · simp at h
  | mintLink r =>
    simp only [step] at h
    split at h
    · next purpose readAt hget =>
      simp only [Option.some.injEq] at h
      subst h
      exact effect_mintLink (.inr rfl) hget rfl rfl
    · simp at h
  | presentLink r token password =>
    simp only [step] at h
    split at h
    · exact .of_put_plain h rfl rfl
    · simp at h
  | complete r =>
    simp only [step] at h
    split at h
    · split at h
      · next hok =>
        simp only [Option.some.injEq] at h
        subst h
        obtain ⟨hempty, huser, link, hmem, hout, rfl⟩ := complete_ok hok
        have hchanged : Changed s.account _ ⟨.reset, none, none⟩ :=
          changed_of_empties hempty (by simp [ChangeKind.alters])
            (by simp [ChangeKind.fencesLinks]) (fun _ => huser)
        exact .accepted (follows_of_plain rfl rfl rfl) hchanged link hmem hout rfl rfl rfl rfl
      · simp at h
    · simp at h
  | openCredential r cookie call =>
    simp only [step] at h
    split at h
    · split at h
      · exact .of_put_plain h rfl rfl
      · simp at h
    · simp at h
  | changeCredential r =>
    simp only [step] at h
    split at h
    · split at h
      · next hok =>
        simp only [Option.some.injEq] at h
        subst h
        obtain ⟨hrotates, huser, hfactor, hlink⟩ := changeCredential_ok hok
        refine .of_rotates hrotates huser (fun _ => hlink) (fun _ => hfactor) ?_
        intro halters
        rw [CredentialCall.not_alters_factor] at halters
        exact halters.elim
      · simp at h
    · simp at h
  | openEnrolment r cookie enrolment code current =>
    simp only [step] at h
    split at h
    · split at h
      · split at h
        · exact .of_put_plain h rfl rfl
        · simp at h
      · simp at h
    · simp at h
  | openRemoval r cookie code =>
    simp only [step] at h
    split at h
    · split at h
      · exact .of_put_plain h rfl rfl
      · simp at h
    · simp at h
  | readFactor r =>
    simp only [step] at h
    split at h
    · split at h
      · exact .of_put_plain h rfl rfl
      · exact .of_put_plain h rfl rfl
      · simp at h
    · simp at h
  | lookForCode r =>
    simp only [step] at h
    split at h
    · split at h
      · split at h
        · exact .of_put_plain h rfl rfl
        · exact .of_put_plain h rfl rfl
      · simp at h
    · simp at h
  | chargeAttempt r =>
    simp only [step] at h
    split at h
    · split at h
      · next hok =>
        obtain ⟨hshrinks, huser, hfactor⟩ := spendReplacementAttempt_ok hok
        split at h
        · simp only [Option.some.injEq] at h
          subst h
          exact .of_commit_put (follows_of_plain rfl rfl rfl) hshrinks huser hfactor
        · simp only [Option.some.injEq] at h
          subst h
          exact .of_commit_put (follows_of_plain rfl rfl rfl) hshrinks huser hfactor
      · simp at h
    · simp at h
  | checkLive r =>
    simp only [step] at h
    split at h
    · split at h
      · exact .of_put_plain h rfl rfl
      · simp at h
    · simp at h
  | changeFactor r => exact effect_changeFactor h
  | signIn r proving =>
    obtain ⟨⟨door, user, rememberMe⟩, -, rfl⟩ := Option.map_eq_some_iff.mp h
    exact .of_put (follows_of_plain rfl rfl rfl)
  | mintBehindTheGate r => exact effect_mintBehindTheGate h
  | beginChallenge r =>
    simp only [step] at h
    split at h
    · simp only [Option.some.injEq] at h
      subst h
      obtain ⟨hshrinks, huser, hfactor⟩ := beginChallenge_ok s.account s.now
      exact .of_commit_put (follows_of_plain rfl rfl rfl) hshrinks huser hfactor
    · simp at h
  | claimAttempt r token code rememberMe =>
    obtain ⟨⟨challenge, a⟩, hok, rfl⟩ := Option.map_eq_some_iff.mp h
    obtain ⟨hshrinks, huser, hfactor⟩ := claimAttempt_ok hok
    exact .of_commit_put (follows_of_plain rfl rfl rfl) hshrinks huser hfactor
  | readChallenged r =>
    simp only [step] at h
    split at h
    · split at h
      · next factor hfactor =>
        split at h
        · simp only [Option.some.injEq] at h
          subst h
          refine .of_put (follows_of_set rfl (by simp [Request.readForLink]) ?_)
          intro id readAt hread
          simp only [Request.factorRead, Option.some.injEq, Prod.mk.injEq] at hread
          have hid : s.account.factorId = some factor.id := congrArg (Option.map AuthFactor.id) hfactor
          exact .inr ⟨hread.2.symm, hread.1 ▸ hid⟩
        · simp at h
      · simp at h
    · simp at h
  | matchCode r =>
    simp only [step] at h
    split at h
    · next hget =>
      obtain ⟨proof, -, rfl⟩ := Option.map_eq_some_iff.mp h
      exact .of_put (follows_of_factor rfl rfl hget rfl)
    · simp at h
  | winChallenge r =>
    simp only [step] at h
    split at h
    · next hget =>
      split at h
      · next hok =>
        simp only [Option.some.injEq] at h
        subst h
        obtain ⟨hshrinks, huser, hfactor⟩ := winChallenge_ok hok
        exact .of_commit_put (follows_of_factor rfl rfl hget rfl) hshrinks huser hfactor
      · simp at h
    · simp at h

end Potocolom.Accounts
