import Potocolom.Decision.Locks

/-! # What every run keeps

What holds of the transactions under way holds through the statements, the failures and
the commits of all of them. Of the five parts of the decision three need no more: the
implicit user is adopted once between two collapses, one link is open at most, and a
function that fails has changed nothing. -/

namespace Potocolom.Decision

open Accounts Guard Install

variable {env : Env} {w after : World} {n m : Nat} {tx tx' : Tx} {now : Time}
  {statement : Statement} {rest : List Statement}

/-! ## A transaction ends -/

/-- A transaction that rolls back leaves the others what they see. -/
theorem rollback_keeps (outcome : Outcome) : Keeps n w ((w.rollback n).ends n outcome) := by
  have hrows : ∀ {ν : Type} (rows : Rows Nat (Option ν)), rows.Extends n (rows.rollback n) := by
    intro ν rows
    refine ⟨Row.rollback n, [], by simp [Rows.rollback], ?_, by simp⟩
    intro r _
    exact ⟨Row.rollback_committed, fun t' hne v => Row.held_rollback_of_ne hne⟩
  constructor
  · intro m hne
    show (if w.setup = some n then none else w.setup) = some m ↔ _
    split
    · next hsetup =>
      rw [hsetup]
      constructor
      · intro h
        cases h
      · rintro ⟨⟩
        exact absurd rfl hne
    · rfl
  · exact Row.rollback_committed
  · intro m hne v
    exact Row.held_rollback_of_ne hne
  · exact hrows w.users
  · exact hrows w.identities
  · exact hrows w.links
  · intro m hne
    exact Function.update_of_ne hne ..
  · intro m hne
    exact Function.update_of_ne hne ..
  · rfl
  · rfl

theorem rollback_idle (outcome : Outcome) : Idle ((w.rollback n).ends n outcome) n := by
  constructor
  · show (if w.setup = some n then none else w.setup) ≠ some n
    split
    · exact fun h => by cases h
    · next hsetup => exact hsetup
  · intro v
    exact Row.not_held_rollback v
  · intro r' hr' v
    obtain ⟨r, -, rfl⟩ := List.mem_map.1 hr'
    exact Row.not_held_rollback v
  · intro r' hr' v
    obtain ⟨r, -, rfl⟩ := List.mem_map.1 hr'
    exact Row.not_held_rollback v

theorem commit_idle (outcome : Outcome) : Idle ((w.commit n).ends n outcome) n := by
  constructor
  · show (if w.setup = some n then none else w.setup) ≠ some n
    split
    · exact fun h => by cases h
    · next hsetup => exact hsetup
  · intro v
    exact Row.not_held_commit v
  · intro r' hr' v
    obtain ⟨r, -, rfl⟩ := List.mem_map.1 hr'
    exact Row.not_held_commit v
  · intro r' hr' v
    obtain ⟨r, -, rfl⟩ := List.mem_map.1 hr'
    exact Row.not_held_commit v

/-- While another holds the setup key, a transaction has written no identity. -/
theorem Own.seen_none (hown : Own w n tx) (hsetup : w.setup = some m) (hne : m ≠ n)
    (hnone : ∀ r ∈ w.identities, r.committed = none) : ∀ r ∈ w.identities, r.seen n = none := by
  intro r hr
  by_cases hheld : ∃ v, r.held = some (n, v)
  · obtain ⟨v, hv⟩ := hheld
    rw [Row.seen_of_held hv]
    cases v with
    | none => rfl
    | some i =>
      have hmine := (hown.identity r hr i hv).2.2.1
      rw [hsetup] at hmine
      cases hmine
      exact absurd rfl hne
  · rw [Row.seen_of_not_held fun v hv => hheld ⟨v, hv⟩]
    exact hnone r hr

/-- While another holds the setup key, a transaction has opened no link. -/
theorem Own.open_committed (hown : Own w n tx) (hsetup : w.setup = some m) (hne : m ≠ n)
    {r : Row Nat (Option SetupToken)} (hr : r ∈ w.links) (hopen : isOpen (r.seen n) = true) :
    isOpen r.committed = true := by
  by_cases hheld : ∃ v, r.held = some (n, v)
  · obtain ⟨v, hv⟩ := hheld
    rw [Row.seen_of_held hv] at hopen
    have hmine := hown.link r hr v hv hopen
    rw [hsetup] at hmine
    cases hmine
    exact absurd rfl hne
  · rwa [Row.seen_of_not_held fun v hv => hheld ⟨v, hv⟩] at hopen

/-- What another sees open after a commit, it or the committer saw open before. -/
theorem Own.open_after_commit (hown : Own w n tx) (hother : Own w m tx') (hne : m ≠ n)
    {r : Row Nat (Option SetupToken)} (hr : r ∈ w.links)
    (hopen : isOpen ((r.commit n).seen m) = true) :
    if w.setup = some m then isOpen (r.seen m) = true else isOpen (r.seen n) = true := by
  rcases Row.seen_commit (r := r) hne with ⟨v, hv, hseen, hafter⟩ | ⟨hfree, hafter⟩
  · rw [hafter] at hopen
    split
    · rw [hseen]
      exact hopen
    · next hsetup => exact absurd (hother.link r hr v hv hopen) hsetup
  · rw [hafter] at hopen
    split
    · next hsetup =>
      rw [Row.seen_of_not_held hfree]
      exact hown.open_committed hsetup hne hr hopen
    · exact hopen

/-- The commit of one transaction keeps what holds of another. -/
theorem Own.commit_other (hown : Own w n tx) (hother : Own w m tx') (hne : m ≠ n)
    (outcome : Outcome) (k : Nat) :
    Own { (w.commit n).ends n outcome with adoptions := k } m tx' := by
  have hkey : w.setup = some m →
      (if w.setup = some n then none else w.setup) = some m := by
    intro hsetup
    rw [if_neg, hsetup]
    rw [hsetup]
    rintro ⟨⟩
    exact hne rfl
  have hnone : w.setup = some m → (∀ r ∈ w.identities, r.committed = none) →
      ∀ r ∈ w.identities.commit n, r.committed = none := by
    intro hsetup hnone r' hr'
    obtain ⟨r, hr, rfl⟩ := List.mem_map.1 hr'
    rw [Row.commit_committed]
    exact hown.seen_none hsetup hne hnone r hr
  constructor
  · obtain ⟨f, hcollapse, hchecks, hknows⟩ := hother.checked
    refine ⟨f, hcollapse, hchecks, ?_, ?_, ?_, ?_⟩
    · intro hf
      exact hkey (hknows.setup hf)
    · intro hf
      obtain ⟨hsetup, hop, hall⟩ := hknows.unclaimed hf
      exact ⟨hkey hsetup, hop, hnone hsetup hall⟩
    · intro hf
      obtain ⟨v, hv, hmode⟩ := hknows.recorded hf
      exact ⟨v, (Row.held_commit_of_ne hne).2 hv, hmode⟩
    · intro hf
      obtain ⟨hsetup, hclosed⟩ := hknows.cleared hf
      refine ⟨hkey hsetup, ?_⟩
      intro r' hr'
      obtain ⟨r, hr, rfl⟩ := List.mem_map.1 hr'
      by_contra hopen
      have hbefore := hown.open_after_commit hother hne hr (by simpa using hopen)
      rw [if_pos hsetup, hclosed r hr] at hbefore
      cases hbefore
  · intro r' hr' i hheld
    obtain ⟨r, hr, rfl⟩ := List.mem_map.1 hr'
    rw [Row.held_commit_of_ne hne] at hheld
    obtain ⟨hrest, hop, hsetup, ⟨v, hv, hmode⟩, hall⟩ := hother.identity r hr i hheld
    exact ⟨hrest, hop, hkey hsetup, ⟨v, (Row.held_commit_of_ne hne).2 hv, hmode⟩,
      hnone hsetup hall⟩
  · intro r' hr' hheld
    obtain ⟨r, hr, rfl⟩ := List.mem_map.1 hr'
    rw [Row.held_commit_of_ne hne] at hheld
    exact hother.dropped r hr hheld
  · intro r' hr' l hheld hl
    obtain ⟨r, hr, rfl⟩ := List.mem_map.1 hr'
    rw [Row.held_commit_of_ne hne] at hheld
    exact hkey (hother.link r hr l hheld hl)
  · show (w.links.map _).countP _ ≤ 1
    rw [List.countP_map]
    by_cases hsetup : w.setup = some m
    · refine Nat.le_trans (List.countP_mono_left ?_) hother.opened
      intro r hr hopen
      have hbefore := hown.open_after_commit hother hne hr hopen
      rwa [if_pos hsetup] at hbefore
    · refine Nat.le_trans (List.countP_mono_left ?_) hown.opened
      intro r hr hopen
      have hbefore := hown.open_after_commit hother hne hr hopen
      rwa [if_neg hsetup] at hbefore

theorem Idle.commit_other (hidle : Idle w m) (hne : m ≠ n) (outcome : Outcome) (k : Nat) :
    Idle { (w.commit n).ends n outcome with adoptions := k } m := by
  constructor
  · show (if w.setup = some n then none else w.setup) ≠ some m
    split
    · exact fun h => by cases h
    · exact hidle.setup
  · intro v hv
    exact hidle.mode v ((Row.held_commit_of_ne hne).1 hv)
  · intro r' hr' v hheld
    obtain ⟨r, hr, rfl⟩ := List.mem_map.1 hr'
    rw [Row.held_commit_of_ne hne] at hheld
    exact hidle.identities r hr v hheld
  · intro r' hr' v hheld
    obtain ⟨r, hr, rfl⟩ := List.mem_map.1 hr'
    rw [Row.held_commit_of_ne hne] at hheld
    exact hidle.links r hr v hheld

/-! ## The invariant -/

structure Base (w : World) : Prop where
  own : ∀ n tx, w.txs n = some tx → Own w n tx
  idle : ∀ n, w.txs n = none → Idle w n
  opened : w.links.countP (fun r => isOpen r.committed) ≤ 1
  adopted : w.adoptions ≤ 1 ∧ (w.adoptions = 1 → ∃ r ∈ w.identities, r.committed ≠ none)

/-- What `n` does short of a commit keeps the invariant, once it holds of `n`. -/
theorem Base.keeps (hbase : Base w) (h : Keeps n w after)
    (hown : ∀ tx, after.txs n = some tx → Own after n tx)
    (hidle : after.txs n = none → Idle after n) : Base after := by
  constructor
  · intro m tx htx
    by_cases hne : m = n
    · subst hne
      exact hown tx htx
    · rw [h.txs m hne] at htx
      exact (hbase.own m tx htx).other h hne
  · intro m htx
    by_cases hne : m = n
    · subst hne
      exact hidle htx
    · rw [h.txs m hne] at htx
      exact (hbase.idle m htx).other h hne
  · rw [h.links.countP_committed rfl]
    exact hbase.opened
  · rw [h.adoptions]
    refine ⟨hbase.adopted.1, ?_⟩
    intro hone
    obtain ⟨r, hr, hcommitted⟩ := hbase.adopted.2 hone
    obtain ⟨r', hr', heq⟩ := h.identities.exists_committed hr
    exact ⟨r', hr', by rwa [heq]⟩

/-- A transaction that begins has done nothing. -/
theorem Idle.begins (hidle : Idle w n) (hbase : Base w) {op : Op}
    (hrest : op.statements env = .ok rest) (hidentities : after.identities = w.identities)
    (hlinks : after.links = w.links) : Own after n ⟨op, now, rest, none, none, none⟩ := by
  have hseen : ∀ r ∈ w.links, r.seen n = r.committed := by
    intro r hr
    exact Row.seen_of_not_held (hidle.links r hr)
  constructor
  · refine ⟨_, rfl, checks_statements hrest, ?_, ?_, ?_, ?_⟩
    all_goals
      intro hf
      cases hf
  · intro r hr i hheld
    rw [hidentities] at hr
    exact absurd hheld (hidle.identities r hr (some i))
  · intro r hr hheld
    rw [hidentities] at hr
    exact absurd hheld (hidle.identities r hr none)
  · intro r hr l hheld
    rw [hlinks] at hr
    exact absurd hheld (hidle.links r hr l)
  · rw [hlinks]
    refine Nat.le_trans (Nat.le_of_eq (List.countP_congr ?_)) hbase.opened
    intro r hr
    rw [hseen r hr]

/-- `n` has written an identity. -/
theorem adopts_iff : w.adopts n = true ↔ ∃ r ∈ w.identities, ∃ i, r.held = some (n, some i) := by
  unfold World.adopts
  rw [List.any_eq_true]
  constructor
  · rintro ⟨r, hr, hany⟩
    rw [Option.any_eq_true] at hany
    obtain ⟨⟨m, v⟩, hheld, hhold⟩ := hany
    rw [Bool.and_eq_true, decide_eq_true_eq] at hhold
    obtain ⟨rfl, hsome⟩ := hhold
    obtain ⟨i, rfl⟩ := Option.isSome_iff_exists.1 hsome
    exact ⟨r, hr, i, hheld⟩
  · rintro ⟨r, hr, i, hheld⟩
    exact ⟨r, hr, by simp [hheld]⟩

theorem Base.commit (hbase : Base w) (htx : w.txs n = some tx) :
    Base { (w.commit n).ends n .succeeded with adoptions := w.adopted n tx.op } := by
  have hown := hbase.own n tx htx
  have htxs : ∀ m, m ≠ n → Function.update w.txs n none m = w.txs m := by
    intro m hne
    exact Function.update_of_ne hne ..
  constructor
  · intro m tx' htx'
    by_cases hne : m = n
    · subst hne
      have hended : Function.update w.txs m none m = some tx' := htx'
      rw [Function.update_self] at hended
      cases hended
    · have hbefore : Function.update w.txs n none m = some tx' := htx'
      rw [htxs m hne] at hbefore
      exact hown.commit_other (hbase.own m tx' hbefore) hne _ _
  · intro m htx'
    by_cases hne : m = n
    · subst hne
      have hidle := commit_idle (w := w) (n := m) .succeeded
      exact ⟨hidle.1, hidle.2, hidle.3, hidle.4⟩
    · have hbefore : Function.update w.txs n none m = none := htx'
      rw [htxs m hne] at hbefore
      exact (hbase.idle m hbefore).commit_other hne _ _
  · show (w.links.map _).countP _ ≤ 1
    rw [List.countP_map]
    simp only [Function.comp_def, Row.commit_committed]
    exact hown.opened
  · show w.adopted n tx.op ≤ 1 ∧ (w.adopted n tx.op = 1 →
      ∃ r ∈ w.identities.commit n, r.committed ≠ none)
    unfold World.adopted
    split
    · exact ⟨Nat.zero_le 1, fun h => by cases h⟩
    · next hop =>
      split
      · next hadopts =>
        obtain ⟨r, hr, i, hheld⟩ := adopts_iff.1 hadopts
        obtain ⟨-, -, -, -, hnone⟩ := hown.identity r hr i hheld
        -- an adoption before would have left an identity
        have hzero : w.adoptions ≠ 1 := by
          intro hone
          obtain ⟨r', hr', hcommitted⟩ := hbase.adopted.2 hone
          exact hcommitted (hnone r' hr')
        have hle := hbase.adopted.1
        refine ⟨by omega, ?_⟩
        intro _
        refine ⟨r.commit n, List.mem_map_of_mem hr, ?_⟩
        rw [Row.commit_committed, Row.seen_of_held hheld]
        exact fun h => by cases h
      · next hadopts =>
        refine ⟨hbase.adopted.1, ?_⟩
        intro hone
        obtain ⟨r, hr, hcommitted⟩ := hbase.adopted.2 hone
        refine ⟨r.commit n, List.mem_map_of_mem hr, ?_⟩
        rw [Row.commit_committed, Row.seen_of_not_held]
        · exact hcommitted
        · intro v hheld
          cases v with
          | some i => exact hadopts (adopts_iff.2 ⟨r, hr, i, hheld⟩)
          | none => exact hop (hown.dropped r hr hheld)

/-- The first step of `n`, if it has one. -/
theorem begins_keeps {op : Op} (h : act env w (.begins n op now) = some after) :
    Keeps n w after ∧ w.txs n = none ∧ w.ended n = none ∧
      ((∃ rest, op.statements env = .ok rest ∧
          after = { w with
            txs := Function.update w.txs n (some ⟨op, now, rest, none, none, none⟩) }) ∨
        ∃ why, after = { w with ended := Function.update w.ended n (some (.failed why)) }) := by
  simp only [act] at h
  split at h
  case isFalse => cases h
  case isTrue hfresh =>
    split at h
    · next rest hrest =>
      cases h
      refine ⟨?_, hfresh.1, hfresh.2, .inl ⟨rest, hrest, rfl⟩⟩
      exact { Keeps.refl n w with txs := fun m hne => Function.update_of_ne hne .. }
    · next why _ =>
      cases h
      refine ⟨?_, hfresh.1, hfresh.2, .inr ⟨why, rfl⟩⟩
      exact { Keeps.refl n w with ended := fun m hne => Function.update_of_ne hne .. }

/-- What a statement of `n` comes to. -/
theorem runs_cases (h : act env w (.runs n now) = some after) :
    ∃ tx statement rest, w.txs n = some tx ∧ tx.rest = statement :: rest ∧
      ((∃ why, after = (w.rollback n).ends n (.failed why)) ∨
        ∃ done tx', exec env w n { tx with rest := rest } now statement = .done done tx' ∧
          after = { done with txs := Function.update done.txs n (some tx') }) := by
  simp only [act] at h
  split at h
  · cases h
  · next tx htx =>
    split at h
    · cases h
    · next statement rest hrest =>
      refine ⟨tx, statement, rest, htx, hrest, ?_⟩
      split at h
      · cases h
      · next why _ =>
        cases h
        exact .inl ⟨why, rfl⟩
      · next done tx' hexec =>
        cases h
        exact .inr ⟨done, tx', hexec, rfl⟩

theorem commits_cases (h : act env w (.commits n) = some after) :
    ∃ tx, w.txs n = some tx ∧ tx.rest = [] ∧
      after = { (w.commit n).ends n .succeeded with adoptions := w.adopted n tx.op } := by
  simp only [act] at h
  split at h
  · cases h
  · next tx htx =>
    split at h
    · next hrest =>
      cases h
      exact ⟨tx, htx, hrest, rfl⟩
    · cases h

theorem aborts_cases (h : act env w (.aborts n) = some after) :
    (∃ tx, w.txs n = some tx) ∧ ∃ why, after = (w.rollback n).ends n (.failed why) := by
  simp only [act] at h
  split at h
  · cases h
  · next tx htx =>
    cases h
    exact ⟨⟨tx, htx⟩, _, rfl⟩

/-- A transaction that moves on is still its own. -/
theorem exec_put (h : exec env w n { tx with rest := rest } now statement = .done after tx') :
    Keeps n w { after with txs := Function.update after.txs n (some tx') } := by
  obtain ⟨hkeeps, -⟩ := exec_keeps h
  refine { hkeeps with txs := ?_ }
  intro m hne
  show Function.update after.txs n (some tx') m = w.txs m
  rw [Function.update_of_ne hne]
  exact hkeeps.txs m hne

/-- Short of a commit, a step changes nothing that others see. -/
theorem act_keeps {l : Label} (h : act env w l = some after) (hl : l ≠ .commits l.owner) :
    Keeps l.owner w after := by
  cases l with
  | begins n op now => exact (begins_keeps h).1
  | runs n now =>
    obtain ⟨tx, statement, rest, -, -, ⟨why, rfl⟩ | ⟨done, tx', hexec, rfl⟩⟩ := runs_cases h
    · exact rollback_keeps (.failed why)
    · exact exec_put hexec
  | commits n => exact absurd rfl hl
  | aborts n =>
    obtain ⟨-, why, rfl⟩ := aborts_cases h
    exact rollback_keeps (.failed why)

theorem Base.rollback (hbase : Base w) (outcome : Outcome) :
    Base ((w.rollback n).ends n outcome) := by
  apply hbase.keeps (rollback_keeps outcome)
  · intro tx htx
    have hended : Function.update w.txs n none n = some tx := htx
    rw [Function.update_self] at hended
    cases hended
  · intro _
    exact rollback_idle outcome

theorem act_base {l : Label} (hbase : Base w) (h : act env w l = some after) : Base after := by
  cases l with
  | begins n op now =>
    obtain ⟨hkeeps, htx, -, ⟨rest, hrest, rfl⟩ | ⟨why, rfl⟩⟩ := begins_keeps h
    · apply hbase.keeps hkeeps
      · intro tx hbegun
        have hself : Function.update w.txs n (some ⟨op, now, rest, none, none, none⟩) n =
            some tx := hbegun
        rw [Function.update_self] at hself
        cases hself
        exact (hbase.idle n htx).begins hbase hrest rfl rfl
      · intro hbegun
        have hself : Function.update w.txs n (some ⟨op, now, rest, none, none, none⟩) n = none :=
          hbegun
        rw [Function.update_self] at hself
        cases hself
    · apply hbase.keeps hkeeps
      · intro tx hbegun
        have hself : w.txs n = some tx := hbegun
        rw [htx] at hself
        cases hself
      · intro _
        have hidle := hbase.idle n htx
        exact ⟨hidle.1, hidle.2, hidle.3, hidle.4⟩
  | runs n now =>
    obtain ⟨tx, statement, rest, htx, hrest, ⟨why, rfl⟩ | ⟨done, tx', hexec, rfl⟩⟩ :=
      runs_cases h
    · exact hbase.rollback (.failed why)
    · apply hbase.keeps (exec_put hexec)
      · intro tx'' hput
        have hself : Function.update done.txs n (some tx') n = some tx'' := hput
        rw [Function.update_self] at hself
        cases hself
        have hown := (hbase.own n tx htx).runs hrest hexec
        obtain ⟨f, hcollapse, hchecks, hknows⟩ := hown.checked
        exact ⟨⟨f, hcollapse, hchecks, ⟨hknows.1, hknows.2, hknows.3, hknows.4⟩⟩, hown.2, hown.3,
          hown.4, hown.5⟩
      · intro hput
        have hself : Function.update done.txs n (some tx') n = none := hput
        rw [Function.update_self] at hself
        cases hself
  | commits n =>
    obtain ⟨tx, htx, -, rfl⟩ := commits_cases h
    exact hbase.commit htx
  | aborts n =>
    obtain ⟨-, why, rfl⟩ := aborts_cases h
    exact hbase.rollback (.failed why)

theorem step_cases {l : Label} (h : step env w l = some after) :
    ∃ done, act env w l = some done ∧
      after = { done with
        touched := fun n => w.touched n || decide (n = l.owner ∧ done.db ≠ w.db) } := by
  unfold step at h
  obtain ⟨done, hact, rfl⟩ := Option.map_eq_some_iff.1 h
  exact ⟨done, hact, rfl⟩

/-- What the invariant says does not depend on who has changed what. -/
theorem Base.note (hbase : Base w) (touched : Nat → Bool) : Base { w with touched := touched } := by
  constructor
  · intro n tx htx
    have hown := hbase.own n tx htx
    obtain ⟨f, hcollapse, hchecks, hknows⟩ := hown.checked
    exact ⟨⟨f, hcollapse, hchecks, ⟨hknows.1, hknows.2, hknows.3, hknows.4⟩⟩, hown.2, hown.3,
      hown.4, hown.5⟩
  · intro n htx
    have hidle := hbase.idle n htx
    exact ⟨hidle.1, hidle.2, hidle.3, hidle.4⟩
  · exact hbase.opened
  · exact hbase.adopted

theorem start_base (h : Start w) : Base w := by
  constructor
  · intro n tx htx
    rw [h.txs n] at htx
    cases htx
  · intro n _
    constructor
    · rw [h.setup]
      exact fun hsome => by cases hsome
    · intro v
      rw [h.mode]
      exact fun hsome => by cases hsome
    · intro r hr v
      rw [h.identities r hr]
      exact fun hsome => by cases hsome
    · intro r hr v
      rw [h.links r hr]
      exact fun hsome => by cases hsome
  · refine Nat.le_trans (Nat.le_of_eq ?_) h.opened
    unfold World.db
    rw [← List.countP_eq_length_filter, List.countP_filterMap]
    apply List.countP_congr
    intro r _
    cases r.committed <;> simp [isOpen]
  · rw [h.adoptions]
    exact ⟨Nat.zero_le 1, fun hone => by cases hone⟩

theorem reach_base (h : (machine env).Reach Machine.anyStep w) : Base w := by
  apply h.invariant
  · exact fun s hs => start_base hs
  · intro s l t hbase _ hstep
    obtain ⟨done, hact, rfl⟩ := step_cases hstep
    exact (act_base hbase hact).note _

/-! ## Who has changed what -/

theorem Keeps.db (h : Keeps n w after) : after.db = w.db := by
  unfold World.db
  rw [h.committed, h.users.filterMap_committed, h.identities.filterMap_committed,
    h.links.filterMap_committed]

/-- What is committed is changed by the commit of a function that succeeds. -/
structure Noted (w : World) : Prop where
  touched : ∀ n, w.touched n = true → w.ended n = some .succeeded
  ended : ∀ n, w.ended n ≠ none → w.txs n = none

theorem act_noted {l : Label} (hnoted : Noted w) (h : act env w l = some after) :
    (∀ n, w.touched n = true → after.ended n = some .succeeded) ∧
      (after.db ≠ w.db → after.ended l.owner = some .succeeded) ∧
      ∀ n, after.ended n ≠ none → after.txs n = none := by
  -- a function that has ended takes no step
  have hopen : w.ended l.owner = none := by
    by_contra hended
    have htx := hnoted.ended _ hended
    cases l with
    | begins n op now => exact hended (begins_keeps h).2.2.1
    | runs n now =>
      obtain ⟨tx, _, _, hsome, _⟩ := runs_cases h
      rw [show w.txs n = none from htx] at hsome
      cases hsome
    | commits n =>
      obtain ⟨tx, hsome, _⟩ := commits_cases h
      rw [show w.txs n = none from htx] at hsome
      cases hsome
    | aborts n =>
      obtain ⟨⟨tx, hsome⟩, _⟩ := aborts_cases h
      rw [show w.txs n = none from htx] at hsome
      cases hsome
  have hothers : ∀ m, m ≠ l.owner → after.ended m = w.ended m ∧ after.txs m = w.txs m := by
    intro m hne
    by_cases hl : l = .commits l.owner
    · rw [hl] at h
      obtain ⟨tx, -, -, rfl⟩ := commits_cases h
      exact ⟨Function.update_of_ne hne .., Function.update_of_ne hne ..⟩
    · have hkeeps := act_keeps h hl
      exact ⟨hkeeps.ended m hne, hkeeps.txs m hne⟩
  refine ⟨?_, ?_, ?_⟩
  · intro m htouched
    have hended := hnoted.touched m htouched
    have hne : m ≠ l.owner := by
      rintro rfl
      rw [hopen] at hended
      cases hended
    rw [(hothers m hne).1]
    exact hended
  · intro hdb
    by_cases hl : l = .commits l.owner
    · rw [hl] at h
      obtain ⟨tx, -, -, rfl⟩ := commits_cases h
      exact Function.update_self ..
    · exact absurd (act_keeps h hl).db hdb
  · intro m hended
    by_cases hne : m = l.owner
    · subst hne
      cases l with
      | begins n op now =>
        obtain ⟨-, htx, -, ⟨rest, -, rfl⟩ | ⟨why, rfl⟩⟩ := begins_keeps h
        · exact absurd hopen hended
        · exact htx
      | runs n now =>
        obtain ⟨tx, statement, rest, -, -, ⟨why, rfl⟩ | ⟨done, tx', hexec, rfl⟩⟩ := runs_cases h
        · exact Function.update_self ..
        · have hsame := (exec_keeps hexec).2.1
          exact absurd ((congrFun hsame n).trans hopen) hended
      | commits n =>
        obtain ⟨tx, -, -, rfl⟩ := commits_cases h
        exact Function.update_self ..
      | aborts n =>
        obtain ⟨-, why, rfl⟩ := aborts_cases h
        exact Function.update_self ..
    · rw [(hothers m hne).1] at hended
      rw [(hothers m hne).2]
      exact hnoted.ended m hended

theorem reach_noted (h : (machine env).Reach Machine.anyStep w) : Noted w := by
  apply h.invariant
  · intro s hs
    constructor
    · intro n htouched
      rw [hs.touched n] at htouched
      cases htouched
    · intro n _
      exact hs.txs n
  · intro s l t hnoted _ hstep
    obtain ⟨done, hact, rfl⟩ := step_cases hstep
    obtain ⟨hbefore, hnow, htxs⟩ := act_noted hnoted hact
    refine ⟨?_, htxs⟩
    intro n htouched
    rw [Bool.or_eq_true, decide_eq_true_eq] at htouched
    rcases htouched with htouched | ⟨rfl, hdb⟩
    · exact hbefore n htouched
    · exact hnow hdb

/-- Who fails has changed nothing. -/
theorem failed_untouched (h : (machine env).Reach Machine.anyStep w) {why : Refusal}
    (hfailed : w.ended n = some (.failed why)) : w.touched n = false := by
  by_contra htouched
  have hended := (reach_noted h).touched n (by simpa using htouched)
  rw [hfailed] at hended
  cases hended

theorem open_le_one (hbase : Base w) (now : Time) :
    (w.db.links.filter fun link =>
      link.consumedAt.isNone && decide (now < link.expiresAt)).length ≤ 1 := by
  refine Nat.le_trans ?_ hbase.opened
  unfold World.db
  rw [← List.countP_eq_length_filter, List.countP_filterMap]
  apply List.countP_mono_left
  intro r _ hopen
  cases hcommitted : r.committed with
  | none =>
    rw [hcommitted] at hopen
    cases hopen
  | some link =>
    rw [hcommitted] at hopen
    simp only [Option.map_some, Option.getD_some, Bool.and_eq_true] at hopen
    exact hopen.1

end Potocolom.Decision
