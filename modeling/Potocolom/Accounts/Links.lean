import Potocolom.Accounts.Effect

/-! # Reset and recovery links

A change that spends capabilities spends the links that exist when it commits. A
minting reads the account first and takes the key afterwards, or never: the link it
commits after such a change outlives it. Where no minting commits a read that a
change has overtaken, a link outlives no such change, sets no password of an account
that is not active, and a mailed one none of an administrator. -/

namespace Potocolom.Accounts

variable {env : Env} {s t : World}

/-- No fencing change has committed since `readAt`. -/
def World.unfenced (s : World) (readAt : Nat) : Prop :=
  ∀ i c, s.changes[i]? = some c → c.kind.fencesLinks = true → i < readAt

/-- What a link that set a password must satisfy: the account was active, no fencing
change stood between the read it was minted from and its use, and one that was
queued to a mailbox met no administrator. -/
def LinksFenced (s : World) : Prop :=
  ∀ x ∈ s.accepted, x.state = .active ∧ ∀ m ∈ s.minted, m.token = x.token →
    (∀ i c, s.changes[i]? = some c → c.kind.fencesLinks = true → m.readAt ≤ i → x.at' ≤ i) ∧
      (m.queued = true → x.role ≠ .admin)

/-- A minting commits only if no fencing change has overtaken its read. -/
def mintsFreshRead (s : World) : Action → Prop
  | .queueReset r | .mintLink r =>
    ∀ q, s.requests.get r = some q →
      ∀ readAt queued, q.readForLink = some (readAt, queued) → s.unfenced readAt
  | _ => True

/-- The link minted as `token` can still be used. -/
def Account.linkOutstanding (a : Account) (token : Nat) : Prop :=
  ∃ row ∈ a.tokens, row.outstanding ∧ row.tokenHash = token

/-- An account that a mailed link may reach. -/
def Account.reachable (a : Account) (queued : Bool) : Prop :=
  a.user.state = .active ∧ (queued = true → a.user.role ≠ .admin)

/-- Every outstanding link, and every minting in flight that nothing has overtaken,
read the account as it still is. -/
structure LinkInv (s : World) : Prop where
  token_lt : ∀ m ∈ s.minted, m.token < s.account.next
  read_le : ∀ readAt queued, s.LinkRead readAt queued → readAt ≤ s.changes.length
  minted : ∀ row ∈ s.account.tokens, row.outstanding → ∃ m ∈ s.minted, m.token = row.tokenHash
  fresh : ∀ m ∈ s.minted, s.account.linkOutstanding m.token →
    s.unfenced m.readAt ∧ s.account.reachable m.queued
  reading : ∀ readAt queued, s.LinkRead readAt queued → s.unfenced readAt →
    s.account.reachable queued
  accepted_lt : ∀ x ∈ s.accepted, x.at' ≤ s.changes.length ∧ x.token < s.account.next
  fenced : LinksFenced s

theorem linkInv_init (h : (accountMachine env).init s) : LinkInv s := by
  obtain ⟨-, -, htokens, hrequests, -, -, hminted, haccepted⟩ := h
  have hread : ∀ readAt queued, ¬ s.LinkRead readAt queued := by
    rintro readAt queued ⟨r, q, hget, -⟩
    simp [hrequests] at hget
  constructor
  · simp [hminted]
  · intro readAt queued h
    exact absurd h (hread _ _)
  · simp [htokens]
  · simp [hminted]
  · intro readAt queued h
    exact absurd h (hread _ _)
  · simp [haccepted]
  · simp [LinksFenced, haccepted]

/-! ## One step -/

theorem unfenced_of_append {c : Change} (h : t.changes = s.changes ++ [c]) {readAt : Nat}
    (hu : t.unfenced readAt) : s.unfenced readAt := by
  intro i c' hi
  have hlt : i < s.changes.length := (List.getElem?_eq_some_iff.mp hi).1
  exact hu i c' (by rw [h, List.getElem?_append_left hlt, hi])

/-- The change that was just logged is the last one. -/
theorem getElem?_last {c : Change} (h : t.changes = s.changes ++ [c]) :
    t.changes[s.changes.length]? = some c := by
  simp [h]

theorem unfenced_append {c : Change} (h : t.changes = s.changes ++ [c])
    (hc : c.kind.fencesLinks = false) {readAt : Nat} (hu : s.unfenced readAt) :
    t.unfenced readAt := by
  intro i c' hi hfences
  rcases Nat.lt_or_ge i s.changes.length with hlt | hge
  · rw [h, List.getElem?_append_left hlt] at hi
    exact hu i c' hi hfences
  · have hlen : i < (s.changes ++ [c]).length := by
      rw [← h]
      exact (List.getElem?_eq_some_iff.mp hi).1
    obtain rfl : i = s.changes.length := by simp at hlen; omega
    rw [getElem?_last h, Option.some.injEq] at hi
    simp [← hi, hc] at hfences

theorem reachable_of_same {a a' : Account} (h : SameUser a a') {queued : Bool}
    (hr : a.reachable queued) : a'.reachable queued :=
  ⟨h.2.trans hr.1, fun hq => h.1 ▸ hr.2 hq⟩

theorem Shrinks.linkOutstanding {a a' : Account} (h : Shrinks a a') {token : Nat}
    (hl : a'.linkOutstanding token) : a.linkOutstanding token := by
  obtain ⟨row', hrow', hout', rfl⟩ := hl
  obtain ⟨row, hrow, hout, htoken⟩ := h.links row' hrow' hout'
  exact ⟨row, hrow, hout, htoken⟩

/-- The acceptances recorded so far stay right: a later change comes after them. -/
theorem linksFenced_append {c : Change} (hs : LinksFenced s)
    (hle : ∀ x ∈ s.accepted, x.at' ≤ s.changes.length) (hchanges : t.changes = s.changes ++ [c])
    (hminted : t.minted = s.minted) (haccepted : t.accepted = s.accepted) : LinksFenced t := by
  intro x hx
  rw [haccepted] at hx
  obtain ⟨hstate, hx'⟩ := hs x hx
  refine ⟨hstate, ?_⟩
  intro m hm htoken
  rw [hminted] at hm
  refine ⟨?_, (hx' m hm htoken).2⟩
  intro i c' hi hfences hread
  rcases Nat.lt_or_ge i s.changes.length with hlt | hge
  · rw [hchanges, List.getElem?_append_left hlt] at hi
    exact (hx' m hm htoken).1 i c' hi hfences hread
  · exact Nat.le_trans (hle x hx) hge

theorem linkInv_quiet (hs : LinkInv s) (follows : Follows s t)
    (next_le : s.account.next ≤ t.account.next)
    (links : ∀ token, t.account.linkOutstanding token → s.account.linkOutstanding token)
    (user : SameUser s.account t.account ∨ s.account.user.state ≠ .active)
    (changes : t.changes = s.changes) (minted : t.minted = s.minted)
    (accepted : t.accepted = s.accepted) : LinkInv t := by
  have hunfenced : ∀ {readAt}, t.unfenced readAt ↔ s.unfenced readAt := by
    simp [World.unfenced, changes]
  -- an account that a link may reach is active, and then its user is the same
  have hreach : ∀ {queued}, s.account.reachable queued → t.account.reachable queued := by
    intro queued hr
    rcases user with hsame | hne
    · exact reachable_of_same hsame hr
    · exact absurd hr.1 hne
  constructor
  · intro m hm
    exact lt_of_lt_of_le (hs.token_lt m (minted ▸ hm)) next_le
  · intro readAt queued hread
    rw [changes]
    rcases follows.link _ _ hread with hold | ⟨hnew, -⟩
    · exact hs.read_le _ _ hold
    · exact le_of_eq hnew
  · intro row' hrow' hout'
    obtain ⟨row, hrow, hout, htoken⟩ := links row'.tokenHash ⟨row', hrow', hout', rfl⟩
    obtain ⟨m, hm, hm'⟩ := hs.minted row hrow hout
    exact ⟨m, minted ▸ hm, hm'.trans htoken⟩
  · intro m hm hl
    obtain ⟨hu, hr⟩ := hs.fresh m (minted ▸ hm) (links m.token hl)
    exact ⟨hunfenced.mpr hu, hreach hr⟩
  · intro readAt queued hread hu
    apply hreach
    rcases follows.link _ _ hread with hold | ⟨-, hr⟩
    · exact hs.reading _ _ hold (hunfenced.mp hu)
    · exact hr
  · intro x hx
    obtain ⟨hle, hlt⟩ := hs.accepted_lt x (accepted ▸ hx)
    exact ⟨changes ▸ hle, lt_of_lt_of_le hlt next_le⟩
  · simpa [LinksFenced, changes, minted, accepted] using hs.fenced

/-- A change keeps everything but the record of what links were used for. -/
theorem linkInv_changed {c : Change} (hs : LinkInv s) (follows : Follows s t)
    (changed : Changed s.account t.account c) (changes : t.changes = s.changes ++ [c])
    (minted : t.minted = s.minted)
    (haccepted : ∀ x ∈ t.accepted, x.at' ≤ t.changes.length ∧ x.token < t.account.next)
    (hfenced : LinksFenced t) : LinkInv t := by
  have hlast := getElem?_last changes
  constructor
  · intro m hm
    exact lt_of_lt_of_le (hs.token_lt m (minted ▸ hm)) changed.shrinks.next_le
  · intro readAt queued hread
    have hlen : t.changes.length = s.changes.length + 1 := by simp [changes]
    rcases follows.link _ _ hread with hold | ⟨hnew, -⟩
    · have hle := hs.read_le _ _ hold
      omega
    · omega
  · intro row' hrow' hout'
    obtain ⟨row, hrow, hout, htoken⟩ := changed.shrinks.links row' hrow' hout'
    obtain ⟨m, hm, hm'⟩ := hs.minted row hrow hout
    exact ⟨m, minted ▸ hm, hm'.trans htoken⟩
  · intro m hm hl
    have hold := changed.shrinks.linkOutstanding hl
    obtain ⟨hu, hr⟩ := hs.fresh m (minted ▸ hm) hold
    cases hc : c.kind.fencesLinks with
    | false => exact ⟨unfenced_append changes hc hu, reachable_of_same (changed.user hc) hr⟩
    | true =>
      -- such a change leaves no link, or found none because the account was not active
      rcases changed.links hc with hnone | hne
      · obtain ⟨row, hrow, hout, -⟩ := hl
        exact absurd hout (hnone row hrow)
      · exact absurd hr.1 hne
  · intro readAt queued hread hu
    cases hc : c.kind.fencesLinks with
    | false =>
      apply reachable_of_same (changed.user hc)
      rcases follows.link _ _ hread with hold | ⟨-, hr⟩
      · exact hs.reading _ _ hold (unfenced_of_append changes hu)
      · exact hr
    | true =>
      -- the change has overtaken every read made before it
      have hlt := hu _ c hlast hc
      rcases follows.link _ _ hread with hold | ⟨hnew, -⟩
      · have hle := hs.read_le _ _ hold
        omega
      · omega
  · exact haccepted
  · exact hfenced

theorem linkInv_accepted (hs : LinkInv s) (follows : Follows s t)
    (changed : Changed s.account t.account ⟨.reset, none, none⟩) (link : AuthToken)
    (mem : link ∈ s.account.tokens) (outstanding : link.outstanding)
    (changes : t.changes = s.changes ++ [⟨.reset, none, none⟩]) (minted : t.minted = s.minted)
    (accepted : t.accepted = s.accepted ++
      [⟨link.tokenHash, s.changes.length, s.account.user.role, s.account.user.state⟩]) :
    LinkInv t := by
  obtain ⟨m₀, hm₀, htoken₀⟩ := hs.minted link mem outstanding
  have hnext := changed.shrinks.next_le
  refine linkInv_changed hs follows changed changes minted ?_ ?_
  · intro x hx
    have hlen : t.changes.length = s.changes.length + 1 := by simp [changes]
    rw [accepted] at hx
    rcases List.mem_append.mp hx with hold | hnew
    · obtain ⟨hle, hlt⟩ := hs.accepted_lt x hold
      omega
    · rw [List.mem_singleton] at hnew
      subst hnew
      have hlt : link.tokenHash < s.account.next := htoken₀ ▸ hs.token_lt m₀ hm₀
      have hle : s.changes.length ≤ t.changes.length := by omega
      exact ⟨hle, lt_of_lt_of_le hlt hnext⟩
  · intro x hx
    rw [accepted] at hx
    rcases List.mem_append.mp hx with hold | hnew
    · have hprev : LinksFenced { t with accepted := s.accepted } :=
        linksFenced_append hs.fenced (fun x hx => (hs.accepted_lt x hx).1) changes minted rfl
      exact hprev x hold
    · rw [List.mem_singleton] at hnew
      subst hnew
      have hreach : ∀ m ∈ s.minted, m.token = link.tokenHash →
          s.unfenced m.readAt ∧ s.account.reachable m.queued := by
        intro m hm htoken
        exact hs.fresh m hm ⟨link, mem, outstanding, htoken.symm⟩
      refine ⟨(hreach m₀ hm₀ htoken₀).2.1, ?_⟩
      intro m hm htoken
      rw [minted] at hm
      obtain ⟨hu, hr⟩ := hreach m hm htoken
      refine ⟨?_, hr.2⟩
      intro i c hi hfences hread
      -- the reset itself fences nothing, so the change would have been there before
      have hlt := unfenced_append changes rfl hu i c hi hfences
      omega

theorem linkInv_minted (hs : LinkInv s) {m : Minted} (hu : s.unfenced m.readAt)
    (hread : s.LinkRead m.readAt m.queued) (follows : Follows s t)
    (token : m.token = s.account.next + 1) (next : t.account.next = s.account.next + 2)
    (links : ∀ row ∈ t.account.tokens, row ∈ s.account.tokens ∨ row.tokenHash = m.token)
    (user : SameUser s.account t.account) (changes : t.changes = s.changes)
    (minted : t.minted = s.minted ++ [m]) (accepted : t.accepted = s.accepted) : LinkInv t := by
  have hunfenced : ∀ {readAt}, t.unfenced readAt ↔ s.unfenced readAt := by
    simp [World.unfenced, changes]
  have hmem : ∀ m' ∈ t.minted, m' ∈ s.minted ∨ m' = m := by
    intro m' hm'
    rw [minted] at hm'
    rcases List.mem_append.mp hm' with hold | hnew
    · exact .inl hold
    · exact .inr (List.mem_singleton.mp hnew)
  constructor
  · intro m' hm'
    rcases hmem m' hm' with hold | rfl
    · have hlt := hs.token_lt m' hold
      omega
    · omega
  · intro readAt queued hread
    rw [changes]
    rcases follows.link _ _ hread with hold | ⟨hnew, -⟩
    · exact hs.read_le _ _ hold
    · exact le_of_eq hnew
  · intro row hrow hout
    rw [minted]
    rcases links row hrow with hold | hnew
    · obtain ⟨m', hm', htoken⟩ := hs.minted row hold hout
      exact ⟨m', List.mem_append_left _ hm', htoken⟩
    · exact ⟨m, List.mem_append_right _ List.mem_cons_self, hnew.symm⟩
  · intro m' hm' hl
    rcases hmem m' hm' with hold | rfl
    · -- an older link is not the row that was just added
      obtain ⟨row, hrow, hout, htoken⟩ := hl
      have hlt := hs.token_lt m' hold
      have hrow' : row ∈ s.account.tokens := by
        rcases links row hrow with hmem | hnew
        · exact hmem
        · omega
      obtain ⟨hu', hr'⟩ := hs.fresh m' hold ⟨row, hrow', hout, htoken⟩
      exact ⟨hunfenced.mpr hu', reachable_of_same user hr'⟩
    · exact ⟨hunfenced.mpr hu, reachable_of_same user (hs.reading _ _ hread hu)⟩
  · intro readAt queued hread' hu'
    apply reachable_of_same user
    rcases follows.link _ _ hread' with hold | ⟨-, hr⟩
    · exact hs.reading _ _ hold (hunfenced.mp hu')
    · exact hr
  · intro x hx
    obtain ⟨hle, hlt⟩ := hs.accepted_lt x (accepted ▸ hx)
    rw [changes]
    exact ⟨hle, by omega⟩
  · intro x hx
    rw [accepted] at hx
    obtain ⟨hstate, hx'⟩ := hs.fenced x hx
    refine ⟨hstate, ?_⟩
    intro m' hm' htoken
    rw [changes]
    rcases hmem m' hm' with hold | rfl
    · exact hx' m' hold htoken
    · -- the new token is none that was ever presented
      have hlt := (hs.accepted_lt x hx).2
      omega

theorem linkInv_step {l : Action} (hs : LinkInv s) (hok : mintsFreshRead s l)
    (h : step env s l = some t) : LinkInv t := by
  cases step_effect h with
  | quiet follows shrinks user _ changes _ minted accepted =>
    exact linkInv_quiet hs follows shrinks.next_le (fun _ => shrinks.linkOutstanding) user changes
      minted accepted
  | changed c follows changed changes _ minted accepted =>
    refine linkInv_changed hs follows changed changes minted ?_ ?_
    · intro x hx
      obtain ⟨hle, hlt⟩ := hs.accepted_lt x (accepted ▸ hx)
      have hnext := changed.shrinks.next_le
      have hlen : t.changes.length = s.changes.length + 1 := by simp [changes]
      omega
    · exact linksFenced_append hs.fenced (fun x hx => (hs.accepted_lt x hx).1) changes minted
        accepted
  | accepted follows changed link mem outstanding changes _ minted accepted =>
    exact linkInv_accepted hs follows changed link mem outstanding changes minted accepted
  | issued x row follows _ account _ _ changes _ minted accepted =>
    have hnext : t.account.next = s.account.next + 2 := by simp [account]
    have hsame : SameUser s.account t.account := by simp [SameUser, account]
    refine linkInv_quiet hs follows (by omega) ?_ (.inl hsame) changes minted accepted
    intro token hl
    simpa [Account.linkOutstanding, account] using hl
  | minted m r q follows label get read token next _ links user _ changes _ minted accepted =>
    have hu : s.unfenced m.readAt := by
      rcases label with rfl | rfl
      · exact hok q get _ _ read
      · exact hok q get _ _ read
    exact linkInv_minted hs hu ⟨r, q, get, read⟩ follows token next links user changes minted
      accepted

/-! ## Every run -/

theorem links_fenced (h : (accountMachine env).Reach mintsFreshRead s) : LinksFenced s := by
  have hinv : LinkInv s := by
    apply h.invariant
    · intro s hs
      exact linkInv_init hs
    · intro s l t hs hok hstep
      exact linkInv_step hs hok hstep
  exact hinv.fenced

/-! ### Two runs

`_deliver_reset` reads an account that is no administrator's. In the first run its
link is committed and used; in the second the account is promoted in between. -/

section Sample

/-- Text, hashes and codes that stand for themselves. -/
def sampleEnv : Env where
  stripLower := id
  lowerBtrim := id
  checkedEmail := some
  hashPassword := some
  verifyPassword stored given := stored == given
  codeHash := id
  matchedStep _ _ _ := none
  openedEnrolment _ _ := none

/-- An account with a password and no session. -/
def sampleWorld (state : AccountState) : World where
  account :=
    { user := ⟨"a@example.com", true, .user, state, none, none⟩
      identities := [⟨1, .password, "a@example.com", some "old password"⟩]
      factor := none, recoveryCodes := [], tokens := [], sessions := [], outbox := [], next := 2 }
  now := 0
  requests := ∅
  changes := []
  issues := []
  minted := []
  accepted := []

theorem sampleWorld_init (state : AccountState) :
    (accountMachine sampleEnv).init (sampleWorld state) := by
  refine ⟨?_, ?_, rfl, rfl, rfl, rfl, rfl, rfl⟩
  · intro row hrow
    simp [sampleWorld] at hrow
  · intro factor hfactor
    simp [sampleWorld] at hfactor

/-- The link is used, and nobody else touches the account. -/
def sampleReset : List Action :=
  [.deliverReset 0 "a@example.com", .queueReset 0, .presentLink 1 3 "new password", .complete 1]

/-- The account is promoted between the read and the token's commit. -/
def sampleOvertaken : List Action :=
  [.deliverReset 0 "a@example.com", .changeRole ⟨.admin, true, false, true, true⟩, .queueReset 0,
    .presentLink 1 3 "new password", .complete 1]

/-- Where a schedule ends. -/
def sampleEnd (state : AccountState) (schedule : List Action) : World :=
  ((accountMachine sampleEnv).run (sampleWorld state) schedule).getD (sampleWorld state)

theorem sampleReset_reach :
    (accountMachine sampleEnv).Reach mintsFreshRead (sampleEnd .active sampleReset) := by
  have hrun : (accountMachine sampleEnv).run (sampleWorld .active) sampleReset =
      some (sampleEnd .active sampleReset) := rfl
  apply (Machine.Reach.of_init (sampleWorld_init .active)).path
  apply Machine.path_of_run hrun
  -- the only minting commits with no change logged
  refine ⟨trivial, fun s₁ h₁ => ⟨?_, fun s₂ h₂ => ⟨trivial, fun s₃ h₃ => ⟨trivial, ?_⟩⟩⟩⟩
  · intro q _ readAt queued _ i c hi
    obtain rfl : (sampleWorld .active).put 0 (.resetting (sampleWorld .active).account.user 0) =
        s₁ := Option.some.inj h₁
    simp [sampleWorld, World.put] at hi
  · intro s₄ h₄
    trivial

/-- A mailed link sets the password of an account that is an administrator. -/
theorem mailed_link_overtaken :
    ¬ ∀ env s, (accountMachine env).Reach Machine.anyStep s → LinksFenced s := by
  intro hall
  have hrun : (accountMachine sampleEnv).run (sampleWorld .active) sampleOvertaken =
      some (sampleEnd .active sampleOvertaken) := rfl
  have hreach := (Machine.Reach.of_init (sampleWorld_init .active)).path
    (Machine.path_of_run_any hrun)
  have hmem : (⟨3, 1, .admin, .active⟩ : Accepted) ∈ (sampleEnd .active sampleOvertaken).accepted :=
    List.mem_singleton.mpr rfl
  have hminted : (⟨3, 0, true⟩ : Minted) ∈ (sampleEnd .active sampleOvertaken).minted :=
    List.mem_singleton.mpr rfl
  exact ((hall _ _ hreach _ hmem).2 _ hminted rfl).2 rfl rfl

theorem links_fenced_sample :
    LinksFenced (sampleEnd .active sampleReset) ∧
      (sampleEnd .active sampleReset).accepted = [⟨3, 0, .user, .active⟩] :=
  ⟨links_fenced sampleReset_reach, rfl⟩

end Sample

end Potocolom.Accounts
