import Potocolom.Accounts.Links

/-! # Who is left after a change

A change ends the sessions that stand when it commits, all but the one that made it;
a sign-in mints its session later, and of what it had read the mint reads only the
factor again. So a change of factor also stops every sign-in that had read the old
one, whenever it mints. A change back to active takes nothing away and ends nothing. -/

namespace Potocolom.Accounts

variable {env : Env} {s t : World}

/-- The session can still act. -/
def World.live (s : World) (id : Nat) : Prop :=
  ∃ row ∈ s.account.sessions, row.id = id ∧ row.usable s.now

/-- No revocation has ended the session. -/
def Account.stands (a : Account) (id : Nat) : Prop :=
  ∃ row ∈ a.sessions, row.id = id ∧ row.standing

theorem World.live.stands {id : Nat} (h : s.live id) : s.account.stands id := by
  rcases h with ⟨row, hrow, hid, husable⟩
  exact ⟨row, hrow, hid, husable.1⟩

/-- Every live session of a sign-in that read what a change altered, before it did,
is the session of the request that made the change. -/
def EvictsStaleReads (s : World) : Prop :=
  ∀ x ∈ s.issues, s.live x.session → ∀ i c, s.changes[i]? = some c →
    (∃ aspect ∈ c.kind.alters, ∃ readAt, (aspect, readAt) ∈ x.reads ∧ readAt ≤ i) →
    c.keeps = some x.session

/-- Every live session of a sign-in that minted it before a change, or that read the
factor before the change altered it, is the session of the request that made the
change, unless the change was the one back to active. -/
def EvictsEarlier (s : World) : Prop :=
  ∀ x ∈ s.issues, s.live x.session → ∀ i c, s.changes[i]? = some c →
    c.kind.reactivates = false →
    (x.mintedAt ≤ i ∨
      .factor ∈ c.kind.alters ∧ ∃ readAt, (.factor, readAt) ∈ x.reads ∧ readAt ≤ i) →
    c.keeps = some x.session

/-- No cookie is rotated by two changes. -/
def RotatesOnce (s : World) : Prop :=
  ∀ (i j : Nat) c c' token, s.changes[i]? = some c → s.changes[j]? = some c' →
    c.presented = some token → c'.presented = some token → i = j

/-- The change at `i` altered the factor. -/
def World.refactored (s : World) (i : Nat) : Prop :=
  ∃ c, s.changes[i]? = some c ∧ .factor ∈ c.kind.alters

structure EvictInv (s : World) : Prop where
  row_lt : ∀ row ∈ s.account.sessions, row.standing →
    row.id < s.account.next ∧ row.tokenHash < s.account.next
  factor_lt : ∀ id, s.account.factorId = some id → id < s.account.next
  issue_lt : ∀ x ∈ s.issues, x.session < s.account.next ∧ x.mintedAt ≤ s.changes.length
  /-- A factor that a request has read is the account's only if no change has altered
  it since. -/
  read : ∀ id readAt, s.FactorRead id readAt → id < s.account.next ∧
    (s.account.factorId = some id → ∀ i, s.refactored i → i < readAt)
  evicted : ∀ x ∈ s.issues, s.account.stands x.session → ∀ i c, s.changes[i]? = some c →
    c.kind.reactivates = false → x.mintedAt ≤ i → c.keeps = some x.session
  gated : ∀ x ∈ s.issues, ∀ i, s.refactored i → x.factorReadAt ≤ i → x.mintedAt ≤ i
  spent : ∀ (i : Nat) c, s.changes[i]? = some c → ∀ token, c.presented = some token →
    token < s.account.next ∧ ∀ row ∈ s.account.sessions, row.standing → row.tokenHash ≠ token
  once : RotatesOnce s

theorem evictInv_init (h : (accountMachine env).init s) : EvictInv s := by
  rcases h with ⟨hrows, hfactor, -, hrequests, hchanges, hissues, -, -⟩
  constructor
  · exact hrows
  · intro id hid
    rcases Option.map_eq_some_iff.mp hid with ⟨factor, hf, rfl⟩
    exact hfactor factor hf
  · simp [hissues]
  · rintro id readAt ⟨r, q, hget, -⟩
    simp [hrequests] at hget
  · simp [hissues]
  · simp [hissues]
  · simp [hchanges]
  · simp [RotatesOnce, hchanges]

/-! ## One step -/

theorem Shrinks.stands {a a' : Account} (h : Shrinks a a') {id : Nat} (hs : a'.stands id) :
    a.stands id := by
  rcases hs with ⟨row', hrow', rfl, hstanding'⟩
  rcases h.sessions row' hrow' hstanding' with ⟨row, hrow, hstanding, hid, -⟩
  exact ⟨row, hrow, hid, hstanding⟩

theorem Shrinks.row_lt {a a' : Account} (h : Shrinks a a')
    (hlt : ∀ row ∈ a.sessions, row.standing → row.id < a.next ∧ row.tokenHash < a.next) :
    ∀ row ∈ a'.sessions, row.standing → row.id < a'.next ∧ row.tokenHash < a'.next := by
  intro row' hrow' hstanding'
  rcases h.sessions row' hrow' hstanding' with ⟨row, hrow, hstanding, hid, htoken⟩
  have hrow_lt := hlt row hrow hstanding
  have hnext := h.next_le
  constructor
  · omega
  · rcases htoken with htoken | ⟨-, hfresh⟩
    · omega
    · exact hfresh

/-- A token that no standing row held, and that is not fresh, is held by none later. -/
theorem Shrinks.not_held {a a' : Account} (h : Shrinks a a') {token : Nat} (hlt : token < a.next)
    (hnone : ∀ row ∈ a.sessions, row.standing → row.tokenHash ≠ token) :
    ∀ row ∈ a'.sessions, row.standing → row.tokenHash ≠ token := by
  intro row' hrow' hstanding'
  rcases h.sessions row' hrow' hstanding' with ⟨row, hrow, hstanding, -, htoken⟩
  have hne := hnone row hrow hstanding
  rcases htoken with htoken | ⟨hfresh, -⟩
  · omega
  · omega

theorem evictInv_quiet (hs : EvictInv s) (follows : Follows s t)
    (shrinks : Shrinks s.account t.account) (factor : t.account.factorId = s.account.factorId)
    (changes : t.changes = s.changes) (issues : t.issues = s.issues) : EvictInv t := by
  have hnext := shrinks.next_le
  have hre : ∀ {i}, t.refactored i ↔ s.refactored i := by
    simp [World.refactored, changes]
  constructor
  · exact shrinks.row_lt hs.row_lt
  · intro id hid
    have hlt := hs.factor_lt id (factor ▸ hid)
    omega
  · intro x hx
    have hlt := hs.issue_lt x (issues ▸ hx)
    rw [changes]
    omega
  · intro id readAt hread
    rcases follows.factor _ _ hread with hold | ⟨hnow, hid⟩
    · have hold' := hs.read _ _ hold
      refine ⟨by omega, ?_⟩
      intro hid i hi
      exact hold'.2 (factor ▸ hid) i (hre.mp hi)
    · have hlt := hs.factor_lt id hid
      refine ⟨by omega, ?_⟩
      rintro - i ⟨c, hc, -⟩
      rw [changes] at hc
      have hi := (List.getElem?_eq_some_iff.mp hc).1
      omega
  · intro x hx hstands i c hc
    rw [changes] at hc
    exact hs.evicted x (issues ▸ hx) (shrinks.stands hstands) i c hc
  · intro x hx i hi
    exact hs.gated x (issues ▸ hx) i (hre.mp hi)
  · intro i c hc token htoken
    rw [changes] at hc
    have hspent := hs.spent i c hc token htoken
    exact ⟨by omega, shrinks.not_held hspent.1 hspent.2⟩
  · simpa [RotatesOnce, changes] using hs.once

/-- A logged change is an earlier one or the last. -/
theorem getElem?_append_cases {c c' : Change} {i : Nat} (h : t.changes = s.changes ++ [c])
    (hi : t.changes[i]? = some c') :
    s.changes[i]? = some c' ∨ i = s.changes.length ∧ c' = c := by
  rw [h] at hi
  rcases Nat.lt_or_ge i s.changes.length with hlt | hge
  · exact .inl (by rwa [List.getElem?_append_left hlt] at hi)
  · have hlen := (List.getElem?_eq_some_iff.mp hi).1
    have heq : i = s.changes.length := by simp at hlen; omega
    subst heq
    simp at hi
    exact .inr ⟨rfl, hi.symm⟩

theorem evictInv_changed {c : Change} (hs : EvictInv s) (follows : Follows s t)
    (changed : Changed s.account t.account c) (changes : t.changes = s.changes ++ [c])
    (issues : t.issues = s.issues) : EvictInv t := by
  have hshrinks := changed.shrinks
  have hnext := hshrinks.next_le
  have hlen : t.changes.length = s.changes.length + 1 := by simp [changes]
  -- a factor that was read before the change is not the one it brought
  have hkept : ∀ {id}, id < s.account.next → t.account.factorId = some id →
      .factor ∉ c.kind.alters ∧ s.account.factorId = some id := by
    intro id hlt hid
    by_cases halters : .factor ∈ c.kind.alters
    · have hfresh := changed.factor_new halters id hid
      omega
    · exact ⟨halters, changed.factor_kept halters ▸ hid⟩
  have hre : ∀ {i}, t.refactored i → .factor ∉ c.kind.alters → s.refactored i := by
    rintro i ⟨c', hc', halters'⟩ halters
    rcases getElem?_append_cases changes hc' with hold | ⟨-, rfl⟩
    · exact ⟨c', hold, halters'⟩
    · exact absurd halters' halters
  constructor
  · exact hshrinks.row_lt hs.row_lt
  · intro id hid
    by_cases halters : .factor ∈ c.kind.alters
    · exact (changed.factor_new halters id hid).2
    · have hlt := hs.factor_lt id (changed.factor_kept halters ▸ hid)
      omega
  · intro x hx
    have hlt := hs.issue_lt x (issues ▸ hx)
    omega
  · intro id readAt hread
    rcases follows.factor _ _ hread with hold | ⟨hnow, hid⟩
    · have hold' := hs.read _ _ hold
      refine ⟨by omega, ?_⟩
      intro hid i hi
      rcases hkept hold'.1 hid with ⟨halters, hid'⟩
      exact hold'.2 hid' i (hre hi halters)
    · have hlt := hs.factor_lt id hid
      refine ⟨by omega, ?_⟩
      intro hid' i hi
      rcases hkept hlt hid' with ⟨halters, -⟩
      rcases hre hi halters with ⟨c', hc', -⟩
      have hi' := (List.getElem?_eq_some_iff.mp hc').1
      omega
  · intro x hx hstands i c' hc' hreact hle
    rcases getElem?_append_cases changes hc' with hold | ⟨-, rfl⟩
    · exact hs.evicted x (issues ▸ hx) (hshrinks.stands hstands) i c' hold hreact hle
    · rcases hstands with ⟨row, hrow, hid, hstanding⟩
      rw [← hid]
      exact changed.evicted hreact row hrow hstanding
  · rintro x hx i ⟨c', hc', halters⟩ hle
    rcases getElem?_append_cases changes hc' with hold | ⟨rfl, -⟩
    · exact hs.gated x (issues ▸ hx) i ⟨c', hold, halters⟩ hle
    · exact (hs.issue_lt x (issues ▸ hx)).2
  · intro i c' hc' token htoken
    rcases getElem?_append_cases changes hc' with hold | ⟨-, rfl⟩
    · have hspent := hs.spent i c' hold token htoken
      exact ⟨by omega, hshrinks.not_held hspent.1 hspent.2⟩
    · -- the presented token was a standing row's, and no row keeps it
      rcases changed.presented token htoken with ⟨⟨row, hrow, hstanding, rfl⟩, hgone⟩
      have hlt := (hs.row_lt row hrow hstanding).2
      refine ⟨by omega, ?_⟩
      intro row' hrow' hstanding'
      rcases hgone row' hrow' hstanding' with hne | hfresh
      · exact hne
      · omega
  · intro i j ci cj token hi hj htoken htoken'
    have hgone : ∀ {k : Nat} {ck}, s.changes[k]? = some ck → ck.presented = some token →
        c.presented = some token → False := by
      intro k ck hk hck hc
      rcases (changed.presented token hc).1 with ⟨row, hrow, hstanding, heq⟩
      exact (hs.spent k ck hk token hck).2 row hrow hstanding heq
    rcases getElem?_append_cases changes hi with hi | ⟨rfl, rfl⟩
    · rcases getElem?_append_cases changes hj with hj | ⟨rfl, rfl⟩
      · exact hs.once i j ci cj token hi hj htoken htoken'
      · exact absurd htoken' (hgone hi htoken)
    · rcases getElem?_append_cases changes hj with hj | ⟨rfl, rfl⟩
      · exact absurd htoken (hgone hj htoken')
      · rfl

theorem evictInv_issued {x : Issue} {row : Session} (hs : EvictInv s) (follows : Follows s t)
    (session : row.id = s.account.next ∧ row.tokenHash = s.account.next + 1)
    (account : t.account =
      { s.account with sessions := s.account.sessions ++ [row], next := s.account.next + 2 })
    (issue : x.session = row.id ∧ x.mintedAt = s.changes.length)
    (factor : x.factorReadAt = s.changes.length ∨
      ∃ id, s.FactorRead id x.factorReadAt ∧ s.account.factorId = some id)
    (changes : t.changes = s.changes) (issues : t.issues = s.issues ++ [x]) : EvictInv t := by
  have hnext : t.account.next = s.account.next + 2 := by simp [account]
  have hfactor : t.account.factorId = s.account.factorId := by simp [account, Account.factorId]
  have hrows : ∀ row' ∈ t.account.sessions, row' ∈ s.account.sessions ∨ row' = row := by
    intro row' hrow'
    rw [account] at hrow'
    rcases List.mem_append.mp hrow' with hold | hnew
    · exact .inl hold
    · exact .inr (List.mem_singleton.mp hnew)
  have hissues : ∀ x' ∈ t.issues, x' ∈ s.issues ∨ x' = x := by
    intro x' hx'
    rw [issues] at hx'
    rcases List.mem_append.mp hx' with hold | hnew
    · exact .inl hold
    · exact .inr (List.mem_singleton.mp hnew)
  have hlast : ∀ {i}, s.refactored i → i < s.changes.length := by
    rintro i ⟨c, hc, -⟩
    exact (List.getElem?_eq_some_iff.mp hc).1
  have hre : ∀ {i}, t.refactored i ↔ s.refactored i := by
    simp [World.refactored, changes]
  constructor
  · intro row' hrow' hstanding
    rcases hrows row' hrow' with hold | rfl
    · have hlt := hs.row_lt row' hold hstanding
      omega
    · omega
  · intro id hid
    have hlt := hs.factor_lt id (hfactor ▸ hid)
    omega
  · intro x' hx'
    rw [changes]
    rcases hissues x' hx' with hold | rfl
    · have hlt := hs.issue_lt x' hold
      omega
    · omega
  · intro id readAt hread
    rcases follows.factor _ _ hread with hold | ⟨hnow, hid⟩
    · have hold' := hs.read _ _ hold
      refine ⟨by omega, ?_⟩
      intro hid i hi
      exact hold'.2 (hfactor ▸ hid) i (hre.mp hi)
    · have hlt := hs.factor_lt id hid
      refine ⟨by omega, ?_⟩
      intro _ i hi
      have hi' := hlast (hre.mp hi)
      omega
  · intro x' hx' hstands i c hc hreact hle
    rw [changes] at hc
    rcases hissues x' hx' with hold | rfl
    · -- the row that was added is no older session's
      rcases hstands with ⟨row', hrow', hid, hstanding⟩
      have hlt := hs.issue_lt x' hold
      rcases hrows row' hrow' with hrow | rfl
      · exact hs.evicted x' hold ⟨row', hrow, hid, hstanding⟩ i c hc hreact hle
      · omega
    · have hi := (List.getElem?_eq_some_iff.mp hc).1
      omega
  · intro x' hx' i hi hle
    rcases hissues x' hx' with hold | rfl
    · exact hs.gated x' hold i (hre.mp hi) hle
    · -- the mint compared the factor, so no change has altered it since it was read
      have hi' := hlast (hre.mp hi)
      rcases factor with hnow | ⟨id, hread, hid⟩
      · omega
      · have hlt := (hs.read _ _ hread).2 hid i (hre.mp hi)
        omega
  · intro i c hc token htoken
    rw [changes] at hc
    have hspent := hs.spent i c hc token htoken
    refine ⟨by omega, ?_⟩
    intro row' hrow' hstanding
    rcases hrows row' hrow' with hold | rfl
    · exact hspent.2 row' hold hstanding
    · omega
  · simpa [RotatesOnce, changes] using hs.once

theorem evictInv_step {l : Action} (hs : EvictInv s) (h : step env s l = some t) :
    EvictInv t := by
  cases step_effect h with
  | quiet follows shrinks _ factor changes issues _ _ =>
    exact evictInv_quiet hs follows shrinks factor changes issues
  | changed c follows changed changes issues _ _ =>
    exact evictInv_changed hs follows changed changes issues
  | accepted follows changed _ _ _ changes issues _ _ =>
    exact evictInv_changed hs follows changed changes issues
  | issued x row follows session account issue factor changes issues _ _ =>
    exact evictInv_issued hs follows session account issue factor changes issues
  | minted m r q follows _ _ _ _ next sessions _ _ factor changes issues _ _ =>
    -- a link is no session: the rows are the same, and so is the factor
    let a : Account := { t.account with tokens := s.account.tokens }
    have hmild : Shrinks s.account a := Shrinks.of_eq (by simp [a, next]) sessions rfl
    have hinv : EvictInv { t with account := a } :=
      evictInv_quiet hs ⟨follows.link, follows.factor⟩ hmild factor changes issues
    exact ⟨hinv.row_lt, hinv.factor_lt, hinv.issue_lt, hinv.read, hinv.evicted, hinv.gated,
      hinv.spent, hinv.once⟩

/-! ## Every run -/

theorem evictInv_reach (h : (accountMachine env).Reach Machine.anyStep s) : EvictInv s := by
  apply h.invariant
  · intro s hs
    exact evictInv_init hs
  · intro s l t hs _ hstep
    exact evictInv_step hs hstep

/-- What a sign-in reads of the factor it reads at `factorReadAt`. -/
theorem Issue.factor_mem_reads {x : Issue} {readAt : Nat} (h : (.factor, readAt) ∈ x.reads) :
    readAt = x.factorReadAt := by
  unfold Issue.reads at h
  split at h <;> simpa using h

theorem change_evicts_earlier (h : (accountMachine env).Reach Machine.anyStep s) :
    EvictsEarlier s ∧ RotatesOnce s := by
  have hs := evictInv_reach h
  refine ⟨?_, hs.once⟩
  intro x hx hlive i c hc hreact hwhen
  have hminted : x.mintedAt ≤ i := by
    rcases hwhen with hminted | ⟨halters, readAt, hread, hle⟩
    · exact hminted
    · have hat := Issue.factor_mem_reads hread
      exact hs.gated x hx i ⟨c, hc, halters⟩ (hat ▸ hle)
  exact hs.evicted x hx hlive.stands i c hc hreact hminted

/-! ### Two runs

A suspended account may sign in, and keeps its session when it comes back to active;
a session that stands when its account is suspended ends. -/

section Sample

/-- A sign-in to the suspended account, then its reactivation. -/
def sampleReactivated : List Action :=
  [.signIn 0 (.password "a@example.com" "old password" false), .mintBehindTheGate 0,
    .changeState ⟨.active, nofun, false, true⟩]

/-- Two sign-ins; one of them changes the password. -/
def sampleRotated : List Action :=
  [.signIn 0 (.password "a@example.com" "old password" false), .mintBehindTheGate 0,
    .signIn 1 (.password "a@example.com" "old password" false), .mintBehindTheGate 1,
    .openCredential 2 3 (.password "new password" (some "old password") false),
    .changeCredential 2]

theorem sampleReach (state : AccountState) (schedule : List Action)
    (h : (accountMachine sampleEnv).run (sampleWorld state) schedule =
      some (sampleEnd state schedule)) :
    (accountMachine sampleEnv).Reach Machine.anyStep (sampleEnd state schedule) :=
  (Machine.Reach.of_init (sampleWorld_init state)).path (Machine.path_of_run_any h)

/-- The session of a sign-in that read the suspended state outlives the change to
active. -/
theorem reactivation_keeps_sessions :
    ¬ ∀ env s, (accountMachine env).Reach Machine.anyStep s →
      EvictsStaleReads s ∧ RotatesOnce s := by
  intro hall
  have hreach := sampleReach .suspended sampleReactivated rfl
  have hmem : (⟨2, .password, 0, 0, 0⟩ : Issue) ∈ (sampleEnd .suspended sampleReactivated).issues :=
    List.mem_singleton.mpr rfl
  have hlive : (sampleEnd .suspended sampleReactivated).live 2 := by
    refine ⟨⟨2, 3, false, absolute, none, some 0, none⟩, List.mem_singleton.mpr rfl, rfl, rfl, ?_⟩
    constructor
    · decide
    · intro idle hidle
      simp at hidle
  have hread : (Aspect.state, 0) ∈ (⟨2, .password, 0, 0, 0⟩ : Issue).reads := by
    simp [Issue.reads]
  have hkeeps := (hall _ _ hreach).1 _ hmem hlive 0 ⟨.state .active, none, none⟩ rfl
    ⟨.state, List.mem_singleton.mpr rfl, 0, hread, le_rfl⟩
  simp at hkeeps

theorem change_evicts_earlier_sample :
    (EvictsEarlier (sampleEnd .active sampleRotated) ∧
        RotatesOnce (sampleEnd .active sampleRotated)) ∧
      (sampleEnd .active sampleRotated).changes = [⟨.password, some 2, some 3⟩] ∧
      (sampleEnd .active sampleRotated).account.sessions.map (fun row => (row.id, row.revokedAt)) =
        [(2, none), (4, some 0)] :=
  ⟨change_evicts_earlier (sampleReach .active sampleRotated rfl), rfl, rfl⟩

end Sample

end Potocolom.Accounts
