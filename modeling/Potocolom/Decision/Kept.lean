import Potocolom.Decision.Ends

/-! # The decision is kept

The mode is written by functions that read it in an earlier statement, without a lock, or
not at all. The decision is kept in every run in which nobody records none over accounts,
and no collapse records none beside an identity that it has not deleted. -/

namespace Potocolom.Decision

open Accounts Guard Install

variable {env : Env} {w after : World} {n m : Nat} {tx tx' : Tx} {now : Time}
  {statement : Statement} {rest : List Statement}

/-! ## When a record is in time -/

/-- The statement that a step runs. -/
def World.next (w : World) : Label → Option Statement
  | .runs n _ => (w.txs n).bind fun tx => tx.rest.head?
  | .begins _ _ _ => none
  | .commits _ => none
  | .aborts _ => none

/-- A mode other than accounts is recorded while the recorded mode is not accounts, and
`collapse` records none with no identity left. -/
def InTime (w : World) (n : Nat) : Statement → Prop
  | .record mode _ => mode ≠ .accounts → (w.mode.seen n).1 ≠ some .accounts
  | .updateMode => (w.mode.seen n).1 = none ∨ seenRows n w.identities = []
  | _ => True

instance (w : World) (n : Nat) (statement : Statement) : Decidable (InTime w n statement) := by
  cases statement <;> (unfold InTime; infer_instance)

def Fresh (w : World) (l : Label) : Prop := ∀ s ∈ w.next l, InTime w l.owner s

instance (w : World) (l : Label) : Decidable (Fresh w l) :=
  inferInstanceAs (Decidable (∀ s ∈ w.next l, InTime w l.owner s))

/-! ## What each transaction would leave -/

/-- Where it sees an identity it sees accounts, and where it has written the mode over
accounts it has written accounts. -/
structure View (w : World) (n : Nat) (tx : Tx) : Prop where
  claimed : (∃ r ∈ w.identities, r.seen n ≠ none) → (w.mode.seen n).1 = some .accounts
  kept : tx.op.isCollapse = false → ∀ v, w.mode.held = some (n, v) →
    v.1 = some .accounts ∨ w.mode.committed.1 ≠ some .accounts

structure Modes (w : World) : Prop where
  claimed : (∃ r ∈ w.identities, r.committed ≠ none) → w.mode.committed.1 = some .accounts
  view : ∀ n tx, w.txs n = some tx → View w n tx

theorem View.other (hview : View w m tx) (h : Keeps n w after) (hne : m ≠ n) :
    View after m tx := by
  have hmode : after.mode.seen m = w.mode.seen m := Row.seen_congr h.committed (h.held m hne)
  constructor
  · rintro ⟨r', hr', hsome⟩
    rw [hmode]
    rcases h.identities.mem_seen hne hr' with hnone | ⟨r, hr, hseen⟩
    · exact absurd hnone hsome
    · rw [hseen] at hsome
      exact hview.claimed ⟨r, hr, hsome⟩
  · intro hop v hv
    rw [h.committed]
    exact hview.kept hop v ((h.held m hne v).1 hv)

theorem Modes.keeps (hmodes : Modes w) (h : Keeps n w after)
    (hview : ∀ tx, after.txs n = some tx → View after n tx) : Modes after := by
  constructor
  · rintro ⟨r', hr', hsome⟩
    rw [h.committed]
    rcases h.identities.mem hr' with ⟨r, hr, hcommitted, -⟩ | ⟨hnone, -⟩
    · rw [hcommitted] at hsome
      exact hmodes.claimed ⟨r, hr, hsome⟩
    · exact absurd hnone hsome
  · intro m tx htx
    by_cases hne : m = n
    · subst hne
      exact hview tx htx
    · rw [h.txs m hne] at htx
      exact (hmodes.view m tx htx).other h hne

/-- Where a transaction does not see accounts, accounts is not committed. -/
theorem View.committed_ne (hview : View w n tx) (hop : tx.op.isCollapse = false)
    (hseen : (w.mode.seen n).1 ≠ some .accounts) : w.mode.committed.1 ≠ some .accounts := by
  by_cases hheld : ∃ v, w.mode.held = some (n, v)
  · obtain ⟨v, hv⟩ := hheld
    rw [Row.seen_of_held hv] at hseen
    exact (hview.kept hop v hv).resolve_left hseen
  · rwa [Row.seen_of_not_held fun v hv => hheld ⟨v, hv⟩] at hseen

theorem View.quiet (hview : View w n tx) (hop : tx'.op = tx.op) (hmode : after.mode = w.mode)
    (hidentities : after.identities = w.identities) : View after n tx' := by
  constructor
  · rw [hmode, hidentities]
    exact hview.claimed
  · rw [hmode, hop]
    exact hview.kept

/-- What a transaction sees and has written stays in order, if its records are in time. -/
theorem View.runs (hview : View w n tx) (hown : Own w n tx)
    (hrest : tx.rest = statement :: rest) (htime : InTime w n statement)
    (h : exec env w n { tx with rest := rest } now statement = .done after tx') :
    View after n tx' := by
  obtain ⟨-, -, hop, hquiet⟩ := exec_keeps h
  by_cases hdecides : statement.decides = false
  · obtain ⟨hmode, hidentities⟩ := hquiet hdecides
    exact hview.quiet hop hmode hidentities
  have hafter := hown.runs hrest h
  cases statement with
  | record mode ring =>
    simp only [exec] at h
    split at h
    case h_2 => cases h
    case h_1 version _ =>
      unfold recordMode at h
      split at h
      · cases h
      · cases h
        have hseen : ((w.mode.write n (fun _ => true) (upsert mode version)).seen n).1 =
            some mode := by
          rw [Row.seen_write, if_pos rfl]
          unfold upsert
          split
          · assumption
          · rfl
        constructor
        · rintro ⟨r, hr, hsome⟩
          show ((w.mode.write n (fun _ => true) (upsert mode version)).seen n).1 = some .accounts
          rw [hseen]
          by_contra hne
          have hmode : mode ≠ .accounts := fun heq => hne (congrArg some heq)
          exact htime hmode (hview.claimed ⟨r, hr, hsome⟩)
        · intro hnot v hv
          have hheld : (w.mode.write n (fun _ => true) (upsert mode version)).held =
              some (n, v) := hv
          rw [Row.seen_of_held hheld] at hseen
          show v.1 = some .accounts ∨
            (w.mode.write n (fun _ => true) (upsert mode version)).committed.1 ≠ some .accounts
          rw [Row.write_committed]
          by_cases hmode : mode = .accounts
          · left
            rw [hseen, hmode]
          · right
            exact hview.committed_ne hnot (htime hmode)
  | insertIdentity address =>
    simp only [exec] at h
    split at h
    case h_2 => cases h
    case h_1 row hash _ _ =>
      cases h
      -- it has recorded accounts before
      obtain ⟨-, -, -, ⟨v, hv, hmode⟩, -⟩ := hafter.identity
        ⟨none, some (n, some ⟨row.id, env.stripLower address, hash⟩)⟩ (by simp) _ rfl
      constructor
      · intro _
        show (w.mode.seen n).1 = _
        rw [Row.seen_of_held (show w.mode.held = some (n, v) from hv), hmode]
      · exact hview.kept
  | dropIdentities =>
    obtain ⟨identities, returned, hupdate, rfl, rfl⟩ := written_done h
    obtain ⟨-, rfl, -⟩ := Rows.update_eq_some.1 hupdate
    constructor
    · rintro ⟨r', hr', hsome⟩
      obtain ⟨r, -, rfl⟩ := List.mem_map.1 hr'
      rw [Row.seen_write] at hsome
      split at hsome
      · exact absurd rfl hsome
      · next hnone => exact absurd (by simpa using hnone) hsome
    · exact hview.kept
  | updateMode =>
    simp only [exec] at h
    split at h
    · cases h
    · cases h
      have hcollapse : tx.op.isCollapse = true := by
        obtain ⟨f, hf, hchecks, -⟩ := hown.checked
        rw [hrest] at hchecks
        simp only [checks, Bool.and_eq_true] at hchecks
        rw [← hf, hchecks.1]
      constructor
      · rintro ⟨r, hr, hsome⟩
        have hclaimed := hview.claimed ⟨r, hr, hsome⟩
        rcases htime with hnone | hempty
        · rw [hnone] at hclaimed
          cases hclaimed
        · exact absurd (List.filterMap_eq_nil_iff.1 hempty r hr) hsome
      · intro hnot
        have hop' : tx.op.isCollapse = false := hnot
        rw [hcollapse] at hop'
        cases hop'
  | lockSetup => exact absurd rfl hdecides
  | spend _ => exact absurd rfl hdecides
  | readMode _ => exact absurd rfl hdecides
  | readClaimed _ _ => exact absurd rfl hdecides
  | hash _ => exact absurd rfl hdecides
  | readLocal _ => exact absurd rfl hdecides
  | updateUser _ => exact absurd rfl hdecides
  | deleteOpen => exact absurd rfl hdecides
  | insertLink _ => exact absurd rfl hdecides
  | decide _ => exact absurd rfl hdecides
  | holdAccounts => exact absurd rfl hdecides
  | dropLinks => exact absurd rfl hdecides
  | dropUsers => exact absurd rfl hdecides
  | resetLocal => exact absurd rfl hdecides

/-! ## The steps of the functions -/

/-- A transaction that begins sees what is committed. -/
theorem Modes.begins (hmodes : Modes w) (hidle : Idle w n) (hmode : after.mode = w.mode)
    (hidentities : after.identities = w.identities) : View after n tx := by
  constructor
  · rw [hmode, hidentities, Row.seen_of_not_held hidle.mode]
    rintro ⟨r, hr, hsome⟩
    rw [Row.seen_of_not_held (hidle.identities r hr)] at hsome
    exact hmodes.claimed ⟨r, hr, hsome⟩
  · intro _ v hv
    rw [hmode] at hv
    exact absurd hv (hidle.mode v)

/-- What a transaction sees and has written stays in order when another commits. -/
theorem View.commit_other (hview : View w n tx) (hown : Own w n tx) (hother : View w m tx')
    (hownOther : Own w m tx') (hne : m ≠ n) (outcome : Outcome) (k : Nat) :
    View { (w.commit n).ends n outcome with adoptions := k } m tx' := by
  constructor
  · rintro ⟨r', hr', hsome⟩
    obtain ⟨r, hr, rfl⟩ := List.mem_map.1 hr'
    show ((w.mode.commit n).seen m).1 = some .accounts
    rcases Row.seen_commit (r := r) hne with ⟨i, hi, -, hafter⟩ | ⟨hfree, hafter⟩
    · -- it has written the identity itself, and so the mode
      rw [hafter] at hsome
      obtain ⟨identity, rfl⟩ := Option.ne_none_iff_exists'.1 hsome
      obtain ⟨-, -, -, ⟨v, hv, haccounts⟩, -⟩ := hownOther.identity r hr identity hi
      rw [Row.seen_of_held ((Row.held_commit_of_ne hne).2 hv), haccounts]
    · rw [hafter] at hsome
      rcases Row.seen_commit (r := w.mode) hne with ⟨v, hv, hseen, hmode⟩ | ⟨-, hmode⟩
      · -- it holds the mode, so the other has written no identity
        rw [hmode, ← hseen]
        have hnot : ∀ u, r.held ≠ some (n, u) := by
          intro u hu
          rw [Row.seen_of_held hu] at hsome
          obtain ⟨identity, rfl⟩ := Option.ne_none_iff_exists'.1 hsome
          obtain ⟨-, -, -, ⟨v', hv', -⟩, -⟩ := hown.identity r hr identity hu
          rw [hv] at hv'
          cases hv'
          exact hne rfl
        apply hother.claimed
        refine ⟨r, hr, ?_⟩
        rwa [Row.seen_of_not_held hfree, ← Row.seen_of_not_held hnot]
      · rw [hmode]
        exact hview.claimed ⟨r, hr, hsome⟩
  · intro hop v hv
    have hbefore : w.mode.held = some (m, v) := (Row.held_commit_of_ne hne).1 hv
    have hsame : w.mode.commit n = w.mode := by
      apply Row.commit_of_not_held
      intro u hu
      rw [hbefore] at hu
      cases hu
      exact hne rfl
    show v.1 = some .accounts ∨ (w.mode.commit n).committed.1 ≠ some .accounts
    rw [hsame]
    exact hother.kept hop v hbefore

theorem Modes.rollback (hmodes : Modes w) (outcome : Outcome) :
    Modes ((w.rollback n).ends n outcome) := by
  apply hmodes.keeps (rollback_keeps outcome)
  intro tx htx
  have hended : Function.update w.txs n none n = some tx := htx
  rw [Function.update_self] at hended
  cases hended

theorem Modes.commit (hmodes : Modes w) (hbase : Base w) (htx : w.txs n = some tx)
    (outcome : Outcome) (k : Nat) :
    Modes { (w.commit n).ends n outcome with adoptions := k } := by
  have hview := hmodes.view n tx htx
  constructor
  · rintro ⟨r', hr', hsome⟩
    obtain ⟨r, hr, rfl⟩ := List.mem_map.1 hr'
    rw [Row.commit_committed] at hsome
    show (w.mode.commit n).committed.1 = some .accounts
    rw [Row.commit_committed]
    exact hview.claimed ⟨r, hr, hsome⟩
  · intro m tx' htx'
    have hupdate : Function.update w.txs n none m = some tx' := htx'
    by_cases hne : m = n
    · rw [hne, Function.update_self] at hupdate
      cases hupdate
    · rw [Function.update_of_ne hne] at hupdate
      exact hview.commit_other (hbase.own n tx htx) (hmodes.view m tx' hupdate)
        (hbase.own m tx' hupdate) hne outcome k

/-- A step whose record is in time. -/
theorem act_modes {l : Label} (hmodes : Modes w) (hbase : Base w) (hfresh : Fresh w l)
    (h : act env w l = some after) : Modes after := by
  cases l with
  | begins n op now =>
    obtain ⟨hkeeps, htx, -, ⟨rest, -, rfl⟩ | ⟨why, rfl⟩⟩ := begins_keeps h
    · apply hmodes.keeps hkeeps
      intro tx _
      exact hmodes.begins (hbase.idle n htx) rfl rfl
    · apply hmodes.keeps hkeeps
      intro tx _
      exact hmodes.begins (hbase.idle n htx) rfl rfl
  | runs n now =>
    obtain ⟨tx, statement, rest, htx, hrest, ⟨why, rfl⟩ | ⟨done, tx', hexec, rfl⟩⟩ :=
      runs_cases h
    · exact hmodes.rollback (.failed why)
    · apply hmodes.keeps (exec_put hexec)
      intro tx'' hput
      have hself : Function.update done.txs n (some tx') n = some tx'' := hput
      rw [Function.update_self] at hself
      cases hself
      have htime : InTime w n statement := hfresh statement (by simp [World.next, htx, hrest])
      have hview := (hmodes.view n tx htx).runs (hbase.own n tx htx) hrest htime hexec
      exact ⟨hview.claimed, hview.kept⟩
  | commits n =>
    obtain ⟨tx, htx, -, rfl⟩ := commits_cases h
    exact hmodes.commit hbase htx .succeeded _
  | aborts n =>
    obtain ⟨-, why, rfl⟩ := aborts_cases h
    exact hmodes.rollback (.failed why)

theorem db_identities : w.db.identities ≠ [] ↔ ∃ r ∈ w.identities, r.committed ≠ none := by
  unfold World.db
  rw [Ne, List.filterMap_eq_nil_iff]
  push Not
  rfl

theorem reach_modes (h : (machine env).Reach Fresh w) : Modes w := by
  refine h.invariant_of (I := Base) ?_ ?_ ?_
  · intro s hs
    exact reach_base (hs.mono fun _ _ _ => trivial)
  · intro s hs
    constructor
    · intro hclaimed
      exact hs.claimed (db_identities.2 hclaimed)
    · intro n tx htx
      rw [hs.txs n] at htx
      cases htx
  · intro s l t hbase hmodes hfresh hstep
    obtain ⟨done, hact, rfl⟩ := step_cases hstep
    have hafter := act_modes hmodes hbase hfresh hact
    refine ⟨hafter.claimed, ?_⟩
    intro n tx htx
    have hview := hafter.view n tx htx
    exact ⟨hview.claimed, hview.kept⟩

/-! ## The decision -/

/-- What an installation may rely on from `w` on. -/
structure Decided (env : Env) (w : World) : Prop where
  /-- Where anybody holds an identity, the recorded mode is accounts. -/
  claimed : w.db.identities ≠ [] → w.db.mode.1 = some .accounts
  /-- Accounts is left by a collapse and by nothing else. -/
  kept : ∀ l after, step env w l = some after → w.db.mode.1 = some .accounts →
    after.db.mode.1 = some .accounts ∨
      ∃ n tx, l = .commits n ∧ w.txs n = some tx ∧ tx.op.isCollapse = true
  /-- Since the last collapse the implicit user is adopted once. -/
  adopted : w.adoptions ≤ 1
  /-- One link is open. -/
  opened : ∀ now, (w.db.links.filter fun link =>
    link.consumedAt.isNone && decide (now < link.expiresAt)).length ≤ 1
  /-- A function that fails has changed nothing. -/
  failed : ∀ n why, w.ended n = some (.failed why) → w.touched n = false

/-- The commit of any function but `collapse` keeps accounts. -/
theorem View.commit_accounts (hview : View w n tx) (hop : tx.op.isCollapse = false)
    (haccounts : w.mode.committed.1 = some .accounts) :
    (w.mode.commit n).committed.1 = some .accounts := by
  rw [Row.commit_committed]
  by_contra hseen
  exact hview.committed_ne hop hseen haccounts

theorem step_accounts {l : Label} (hmodes : Modes w) (h : step env w l = some after)
    (haccounts : w.db.mode.1 = some .accounts) :
    after.db.mode.1 = some .accounts ∨
      ∃ n tx, l = .commits n ∧ w.txs n = some tx ∧ tx.op.isCollapse = true := by
  obtain ⟨done, hact, rfl⟩ := step_cases h
  by_cases hl : l = .commits l.owner
  · rw [hl] at hact
    obtain ⟨tx, htx, -, rfl⟩ := commits_cases hact
    cases hop : tx.op.isCollapse with
    | true => exact .inr ⟨l.owner, tx, hl, htx, hop⟩
    | false => exact .inl ((hmodes.view _ tx htx).commit_accounts hop haccounts)
  · -- short of a commit, what is committed stays
    left
    show done.db.mode.1 = some .accounts
    rw [(act_keeps hact hl).db]
    exact haccounts

/-- The decision is kept, if every record is in time. -/
theorem decision_kept (h : (machine env).Reach Fresh w) : Decided env w := by
  have hany : (machine env).Reach Machine.anyStep w := h.mono fun _ _ _ => trivial
  have hbase := reach_base hany
  have hmodes := reach_modes h
  constructor
  · intro hclaimed
    exact hmodes.claimed (db_identities.1 hclaimed)
  · intro l after hstep
    exact step_accounts hmodes hstep
  · exact hbase.adopted.1
  · exact open_le_one hbase
  · intro n why
    exact failed_untouched hany

/-! ## Two functions on an unclaimed installation -/

section Sample

/-- Text and hashes that stand for themselves. -/
def plainEnv : Env where
  stripLower := id
  lowerBtrim := id
  checkedEmail := some
  hashPassword := some
  verifyPassword stored given := stored == given
  codeHash := id
  matchedStep _ _ _ := none
  openedEnrolment _ _ := none

/-- An unclaimed installation with a link. -/
def unclaimed : World where
  mode := ⟨(some .unclaimed, none), none⟩
  users := [⟨some ⟨0, ⟨localUserEmail, false, .admin, .active, none, none⟩⟩, none⟩]
  identities := []
  links := [⟨some ⟨7, 100, none⟩, none⟩]
  setup := none
  accounts _ := none
  txs _ := none
  ended _ := none
  adoptions := 0
  touched _ := false

theorem unclaimed_start : Start unclaimed := by
  constructor <;> simp [unclaimed, Free, World.db, isOpen]

/-- Somebody claims it with the link. -/
def claims : List Label :=
  [.begins 0 (.claim 7 "a@example.com" "password" (some ⟨1, [1]⟩)) 0] ++
    List.replicate 9 (.runs 0 0) ++ [.commits 0]

def claimedWorld : World := ((machine plainEnv).run unclaimed claims).getD unclaimed

theorem decision_kept_sample : Decided plainEnv claimedWorld := by
  have hrun : (machine plainEnv).run unclaimed claims = some claimedWorld := rfl
  have hfresh : (machine plainEnv).RunOk Fresh unclaimed claims := by decide
  exact decision_kept ((Machine.Reach.of_init unclaimed_start).path
    (Machine.path_of_run hrun hfresh))

/-- Somebody declines with the link; `make auth-enable` commits after the mode is read and
before it is recorded. -/
def declines : List Label :=
  [.begins 0 (.declineAccounts 7) 0] ++ List.replicate 4 (.runs 0 0) ++
    [.begins 1 (.enableAccountsMode (some ⟨1, [1]⟩)) 0, .runs 1 0, .commits 1, .runs 0 0]

def enabledWorld : World := ((machine plainEnv).run unclaimed declines).getD unclaimed

theorem decision_lost :
    ¬ ∀ (env : Env) (w : World), (machine env).Reach Machine.anyStep w → Decided env w := by
  intro hall
  have hrun : (machine plainEnv).run unclaimed declines = some enabledWorld := rfl
  have hdecided := hall plainEnv enabledWorld
    ((Machine.Reach.of_init unclaimed_start).path (Machine.path_of_run_any hrun))
  have hstep : (step plainEnv enabledWorld (.commits 0)).isSome = true := rfl
  obtain ⟨after, hafter⟩ := Option.isSome_iff_exists.1 hstep
  rcases hdecided.kept _ after hafter rfl with haccounts | ⟨n, tx, hl, htx, hop⟩
  · have hnone : (step plainEnv enabledWorld (.commits 0)).map (·.db.mode.1) =
        some (some .none) := rfl
    rw [hafter, Option.map_some, haccounts] at hnone
    cases hnone
  · cases hl
    have hdecline : (enabledWorld.txs 0).map (·.op) = some (.declineAccounts 7) := rfl
    rw [htx] at hdecline
    have hdeclines : tx.op = .declineAccounts 7 := Option.some.inj hdecline
    rw [hdeclines] at hop
    cases hop

end Sample

end Potocolom.Decision
