import Potocolom.Decision.Machine

/-! # What a transaction may rely on

An identity is written only by a transaction that holds the setup key, has found no
identity under it and has recorded accounts; a link only by one that has deleted the open
ones under the same key. Both follow from the order of the statements, which `checks`
reads off the list, and from what the keys and row locks keep others from doing. -/

namespace Potocolom.Decision

open Accounts Guard Install

variable {env : Env} {w after : World} {n m : Nat} {tx tx' : Tx} {now : Time}
  {statement : Statement} {rest : List Statement}

/-! ## The order of the statements -/

/-- What the statements so far have established. -/
structure Facts where
  collapse : Bool
  /-- It holds the setup key. -/
  setup : Bool
  /-- Under that key, it has found no identity. -/
  unclaimed : Bool
  /-- It has recorded accounts. -/
  recorded : Bool
  /-- Under that key, it has deleted the open links. -/
  cleared : Bool

/-- Each statement finds what it relies on. -/
def checks (f : Facts) : List Statement → Bool
  | [] => true
  | .lockSetup :: rest => checks { f with setup := true } rest
  | .readClaimed _ _ :: rest => checks { f with unclaimed := f.setup && !f.collapse } rest
  | .record mode _ :: rest => checks { f with recorded := decide (mode = .accounts) } rest
  | .insertIdentity _ :: rest => f.unclaimed && f.recorded && rest.isEmpty
  | .deleteOpen :: rest => checks { f with cleared := f.setup } rest
  | .insertLink _ :: rest => f.cleared && checks { f with cleared := false } rest
  | .dropIdentities :: rest => f.collapse && checks f rest
  | .updateMode :: rest => f.collapse && checks { f with recorded := false } rest
  | .spend _ :: rest => checks f rest
  | .readMode _ :: rest => checks f rest
  | .hash _ :: rest => checks f rest
  | .readLocal _ :: rest => checks f rest
  | .updateUser _ :: rest => checks f rest
  | .decide _ :: rest => checks f rest
  | .holdAccounts :: rest => checks f rest
  | .dropLinks :: rest => checks f rest
  | .dropUsers :: rest => checks f rest
  | .resetLocal :: rest => checks f rest

/-- Every function keeps to the order. -/
theorem checks_statements {op : Op} (h : op.statements env = .ok rest) :
    checks ⟨op.isCollapse, false, false, false, false⟩ rest = true := by
  cases op with
  | claim token email password ring =>
    simp only [Op.statements, bind_eq_ok, pure_eq_ok] at h
    obtain ⟨address, -, rfl⟩ := h
    rfl
  | declineAccounts token =>
    cases h
    rfl
  | turnAccountsOn email password ring =>
    simp only [Op.statements, bind_eq_ok, pure_eq_ok] at h
    obtain ⟨address, -, rfl⟩ := h
    rfl
  | mintSetupToken token =>
    cases h
    rfl
  | enableAccountsMode ring =>
    cases h
    rfl
  | decideStartupAuthMode override ring =>
    cases h
    cases override with
    | none => rfl
    | some o => rfl
  | collapse confirmation =>
    simp only [Op.statements, bind_eq_ok, pure_eq_ok] at h
    obtain ⟨-, -, rfl⟩ := h
    rfl

/-! ## What holds of a transaction under way -/

/-- What the facts mean. -/
structure Knows (w : World) (n : Nat) (f : Facts) : Prop where
  setup : f.setup = true → w.setup = some n
  unclaimed : f.unclaimed = true →
    w.setup = some n ∧ f.collapse = false ∧ ∀ r ∈ w.identities, r.committed = none
  recorded : f.recorded = true → ∃ v, w.mode.held = some (n, v) ∧ v.1 = some .accounts
  cleared : f.cleared = true →
    w.setup = some n ∧ ∀ r ∈ w.links, isOpen (r.seen n) = false

structure Own (w : World) (n : Nat) (tx : Tx) : Prop where
  checked : ∃ f, f.collapse = tx.op.isCollapse ∧ checks f tx.rest = true ∧ Knows w n f
  identity : ∀ r ∈ w.identities, ∀ i, r.held = some (n, some i) →
    tx.rest = [] ∧ tx.op.isCollapse = false ∧ w.setup = some n ∧
      (∃ v, w.mode.held = some (n, v) ∧ v.1 = some .accounts) ∧
      ∀ r ∈ w.identities, r.committed = none
  dropped : ∀ r ∈ w.identities, r.held = some (n, none) → tx.op.isCollapse = true
  link : ∀ r ∈ w.links, ∀ l, r.held = some (n, l) → isOpen l = true → w.setup = some n
  opened : w.links.countP (fun r => isOpen (r.seen n)) ≤ 1

/-- A transaction that is not under way holds nothing. -/
structure Idle (w : World) (n : Nat) : Prop where
  setup : w.setup ≠ some n
  mode : ∀ v, w.mode.held ≠ some (n, v)
  identities : ∀ r ∈ w.identities, ∀ v, r.held ≠ some (n, v)
  links : ∀ r ∈ w.links, ∀ v, r.held ≠ some (n, v)

/-- What `n` leaves to others. -/
structure Keeps (n : Nat) (w after : World) : Prop where
  setup : ∀ m, m ≠ n → (after.setup = some m ↔ w.setup = some m)
  committed : after.mode.committed = w.mode.committed
  held : ∀ m, m ≠ n → ∀ v, after.mode.held = some (m, v) ↔ w.mode.held = some (m, v)
  users : w.users.Extends n after.users
  identities : w.identities.Extends n after.identities
  links : w.links.Extends n after.links
  txs : ∀ m, m ≠ n → after.txs m = w.txs m
  ended : ∀ m, m ≠ n → after.ended m = w.ended m
  adoptions : after.adoptions = w.adoptions
  touched : after.touched = w.touched

theorem Keeps.refl (n : Nat) (w : World) : Keeps n w w where
  setup _ _ := Iff.rfl
  committed := rfl
  held _ _ _ := Iff.rfl
  users := .refl n _
  identities := .refl n _
  links := .refl n _
  txs _ _ := rfl
  ended _ _ := rfl
  adoptions := rfl
  touched := rfl

theorem written_done {ν : Type} {x : Option (Rows Nat ν × List ν)} {put : Rows Nat ν → World}
    (h : written x put tx = .done after tx') :
    ∃ rows returned, x = some (rows, returned) ∧ after = put rows ∧ tx' = tx := by
  unfold written at h
  split at h
  · cases h
  · next rows returned =>
    cases h
    exact ⟨rows, returned, rfl, rfl, rfl⟩

theorem writtenOne_done {ν : Type} {x : Option (Rows Nat ν × List ν)}
    {put : Rows Nat ν → World} {why : Refusal} (h : writtenOne x put tx why = .done after tx') :
    ∃ rows returned, x = some (rows, returned) ∧ after = put rows ∧ tx' = tx := by
  unfold writtenOne at h
  split at h
  · cases h
  · cases h
  · next rows v returned =>
    cases h
    exact ⟨rows, v :: returned, rfl, rfl, rfl⟩

theorem Keeps.putUsers {users : Rows Nat (Option UserRow)} (h : w.users.Extends n users) :
    Keeps n w { w with users := users } :=
  { Keeps.refl n w with users := h }

theorem Keeps.putIdentities {identities : Rows Nat (Option Identity)}
    (h : w.identities.Extends n identities) : Keeps n w { w with identities := identities } :=
  { Keeps.refl n w with identities := h }

theorem Keeps.putLinks {links : Rows Nat (Option SetupToken)} (h : w.links.Extends n links) :
    Keeps n w { w with links := links } :=
  { Keeps.refl n w with links := h }

theorem Keeps.writeMode {p : ModeRow → Bool} {f : ModeRow → ModeRow}
    (h : w.mode.blocks n p = false) : Keeps n w { w with mode := w.mode.write n p f } :=
  { Keeps.refl n w with
    committed := Row.write_committed
    held := fun _ hne _ => Row.held_write_of_ne h hne }

/-- It writes the mode or the identities. -/
def Statement.decides : Statement → Bool
  | .record _ _ => true
  | .insertIdentity _ => true
  | .dropIdentities => true
  | .updateMode => true
  | _ => false

/-- A statement leaves the keys, the rows and the views of the others alone, and ends no
function. -/
theorem exec_keeps (h : exec env w n tx now statement = .done after tx') :
    Keeps n w after ∧ after.ended = w.ended ∧ tx'.op = tx.op ∧
      (statement.decides = false → after.mode = w.mode ∧ after.identities = w.identities) := by
  cases statement with
  | lockSetup =>
    simp only [exec] at h
    split at h
    case isFalse => cases h
    case isTrue hfree =>
      cases h
      refine ⟨{ Keeps.refl n w with setup := ?_ }, rfl, rfl, fun _ => ⟨rfl, rfl⟩⟩
      intro m hne
      constructor
      · rintro ⟨⟩
        exact absurd rfl hne
      · intro hm
        rcases hfree with hnone | hown
        · rw [hnone] at hm
          cases hm
        · rw [hown] at hm
          exact hm
  | spend token =>
    obtain ⟨links, returned, hupdate, rfl, rfl⟩ := writtenOne_done h
    exact ⟨.putLinks (.of_update hupdate), rfl, rfl, fun _ => ⟨rfl, rfl⟩⟩
  | readMode bars =>
    simp only [exec] at h
    split at h
    · cases h
    · cases h
      exact ⟨.refl n w, rfl, rfl, fun _ => ⟨rfl, rfl⟩⟩
  | readClaimed bars why =>
    simp only [exec] at h
    split at h
    · cases h
    · cases h
      exact ⟨.refl n w, rfl, rfl, fun _ => ⟨rfl, rfl⟩⟩
  | hash password =>
    simp only [exec] at h
    split at h
    · cases h
      exact ⟨.refl n w, rfl, rfl, fun _ => ⟨rfl, rfl⟩⟩
    · cases h
  | readLocal missing =>
    simp only [exec] at h
    split at h
    · cases h
      exact ⟨.refl n w, rfl, rfl, fun _ => ⟨rfl, rfl⟩⟩
    · cases h
  | record mode ring =>
    simp only [exec] at h
    split at h
    · next version _ =>
      unfold recordMode at h
      split at h
      · cases h
      · next hblocks =>
        cases h
        exact ⟨.writeMode (by simpa using hblocks), rfl, rfl, fun hno => by cases hno⟩
    · cases h
  | updateUser address =>
    simp only [exec] at h
    split at h
    · cases h
    · split at h
      · cases h
      · obtain ⟨users, returned, hupdate, rfl, rfl⟩ := writtenOne_done h
        exact ⟨.putUsers (.of_update hupdate), rfl, rfl, fun _ => ⟨rfl, rfl⟩⟩
  | insertIdentity address =>
    simp only [exec] at h
    split at h
    · cases h
      exact ⟨.putIdentities (.append n _ _), rfl, rfl, fun hno => by cases hno⟩
    · cases h
  | deleteOpen =>
    obtain ⟨links, returned, hupdate, rfl, rfl⟩ := written_done h
    exact ⟨.putLinks (.of_update hupdate), rfl, rfl, fun _ => ⟨rfl, rfl⟩⟩
  | insertLink token =>
    simp only [exec] at h
    split at h
    · cases h
    · cases h
      exact ⟨.putLinks (.append n _ _), rfl, rfl, fun _ => ⟨rfl, rfl⟩⟩
  | decide override =>
    simp only [exec] at h
    split at h
    · cases h
      exact ⟨.refl n w, rfl, rfl, fun _ => ⟨rfl, rfl⟩⟩
    · split at h
      · cases h
        exact ⟨.refl n w, rfl, rfl, fun _ => ⟨rfl, rfl⟩⟩
      · cases h
  | holdAccounts =>
    simp only [exec] at h
    split at h
    · cases h
      exact ⟨{ Keeps.refl n w with }, rfl, rfl, fun _ => ⟨rfl, rfl⟩⟩
    · cases h
  | dropLinks =>
    obtain ⟨links, returned, hupdate, rfl, rfl⟩ := written_done h
    exact ⟨.putLinks (.of_update hupdate), rfl, rfl, fun _ => ⟨rfl, rfl⟩⟩
  | dropIdentities =>
    obtain ⟨identities, returned, hupdate, rfl, rfl⟩ := written_done h
    exact ⟨.putIdentities (.of_update hupdate), rfl, rfl, fun hno => by cases hno⟩
  | dropUsers =>
    simp only [exec] at h
    split at h
    · cases h
    · obtain ⟨users, returned, hupdate, rfl, rfl⟩ := written_done h
      exact ⟨.putUsers (.of_update hupdate), rfl, rfl, fun _ => ⟨rfl, rfl⟩⟩
  | resetLocal =>
    simp only [exec] at h
    split at h
    · cases h
    · obtain ⟨users, returned, hupdate, rfl, rfl⟩ := written_done h
      exact ⟨.putUsers (.of_update hupdate), rfl, rfl, fun _ => ⟨rfl, rfl⟩⟩
  | updateMode =>
    simp only [exec] at h
    split at h
    · cases h
    · next hblocks =>
      cases h
      exact ⟨.writeMode (by simpa using hblocks), rfl, rfl, fun hno => by cases hno⟩

/-! ## The statements of others -/

theorem Keeps.committed_none (h : Keeps n w after) (hw : ∀ r ∈ w.identities, r.committed = none) :
    ∀ r ∈ after.identities, r.committed = none := by
  intro r' hr'
  rcases h.identities.mem hr' with ⟨r, hr, hcommitted, -⟩ | ⟨hnone, -⟩
  · rw [hcommitted]
    exact hw r hr
  · exact hnone

theorem Knows.other {f : Facts} (hknows : Knows w m f) (h : Keeps n w after) (hne : m ≠ n) :
    Knows after m f := by
  constructor
  · intro hf
    exact (h.setup m hne).2 (hknows.setup hf)
  · intro hf
    obtain ⟨hsetup, hcollapse, hnone⟩ := hknows.unclaimed hf
    exact ⟨(h.setup m hne).2 hsetup, hcollapse, h.committed_none hnone⟩
  · intro hf
    obtain ⟨v, hv, hmode⟩ := hknows.recorded hf
    exact ⟨v, (h.held m hne v).2 hv, hmode⟩
  · intro hf
    obtain ⟨hsetup, hclosed⟩ := hknows.cleared hf
    refine ⟨(h.setup m hne).2 hsetup, ?_⟩
    intro r' hr'
    rcases h.links.mem_seen hne hr' with hnone | ⟨r, hr, hseen⟩
    · rw [hnone]
      rfl
    · rw [hseen]
      exact hclosed r hr

/-- A version that another holds was there before. -/
theorem held_before {ν : Type} {rows rows' : Rows Nat (Option ν)} {v : Option ν}
    (h : rows.Extends n rows') (hne : m ≠ n) {r' : Row Nat (Option ν)} (hr' : r' ∈ rows')
    (hheld : r'.held = some (m, v)) : ∃ r ∈ rows, r.held = some (m, v) := by
  rcases h.mem hr' with ⟨r, hr, -, hiff⟩ | ⟨-, v', hv'⟩
  · exact ⟨r, hr, (hiff m hne v).1 hheld⟩
  · rw [hv'] at hheld
    cases hheld
    exact absurd rfl hne

theorem Own.other (hown : Own w m tx) (h : Keeps n w after) (hne : m ≠ n) : Own after m tx := by
  constructor
  · obtain ⟨f, hcollapse, hchecks, hknows⟩ := hown.checked
    exact ⟨f, hcollapse, hchecks, hknows.other h hne⟩
  · intro r' hr' i hheld
    obtain ⟨r, hr, hheld⟩ := held_before h.identities hne hr' hheld
    obtain ⟨hrest, hop, hsetup, ⟨v, hv, hmode⟩, hnone⟩ := hown.identity r hr i hheld
    exact ⟨hrest, hop, (h.setup m hne).2 hsetup, ⟨v, (h.held m hne v).2 hv, hmode⟩,
      h.committed_none hnone⟩
  · intro r' hr' hheld
    obtain ⟨r, hr, hheld⟩ := held_before h.identities hne hr' hheld
    exact hown.dropped r hr hheld
  · intro r' hr' l hheld hl
    obtain ⟨r, hr, hheld⟩ := held_before h.links hne hr' hheld
    exact (h.setup m hne).2 (hown.link r hr l hheld hl)
  · rw [h.links.countP_seen hne rfl]
    exact hown.opened

theorem Idle.other (hidle : Idle w m) (h : Keeps n w after) (hne : m ≠ n) : Idle after m := by
  constructor
  · intro hsetup
    exact hidle.setup ((h.setup m hne).1 hsetup)
  · intro v hv
    exact hidle.mode v ((h.held m hne v).1 hv)
  · intro r' hr' v hheld
    obtain ⟨r, hr, hheld⟩ := held_before h.identities hne hr' hheld
    exact hidle.identities r hr v hheld
  · intro r' hr' v hheld
    obtain ⟨r, hr, hheld⟩ := held_before h.links hne hr' hheld
    exact hidle.links r hr v hheld

/-! ## Its own statements -/

/-- With statements left, no identity is written. -/
theorem Own.not_adopting (hown : Own w n tx) (hrest : tx.rest = statement :: rest) :
    ∀ r ∈ w.identities, ∀ i, r.held ≠ some (n, some i) := by
  intro r hr i hheld
  have hnil := (hown.identity r hr i hheld).1
  rw [hrest] at hnil
  cases hnil

/-- A statement that writes no identity and no link. -/
theorem Own.quiet (hown : Own w n tx) (hrest : tx.rest = statement :: rest)
    (hidentities : after.identities = w.identities)
    (hlinks : after.links = w.links) (hsetup : w.setup = some n → after.setup = some n)
    (hop : tx'.op = tx.op)
    (hchecked : ∃ f, f.collapse = tx'.op.isCollapse ∧ checks f tx'.rest = true ∧ Knows after n f) :
    Own after n tx' := by
  constructor
  · exact hchecked
  · intro r hr i hheld
    rw [hidentities] at hr
    exact absurd hheld (hown.not_adopting hrest r hr i)
  · intro r hr hheld
    rw [hidentities] at hr
    rw [hop]
    exact hown.dropped r hr hheld
  · intro r hr l hheld hl
    rw [hlinks] at hr
    exact hsetup (hown.link r hr l hheld hl)
  · rw [hlinks]
    exact hown.opened

/-- A write that opens no link. -/
theorem Own.writeLinks (hown : Own w n tx) (hrest : tx.rest = statement :: rest)
    {p : Option SetupToken → Bool} {g : Option SetupToken → Option SetupToken}
    (hg : ∀ l, isOpen (g l) = false)
    {links : Rows Nat (Option SetupToken)} {returned : List (Option SetupToken)}
    (hupdate : w.links.update n p g = some (links, returned)) (hop : tx'.op = tx.op)
    (hchecked : ∃ f, f.collapse = tx'.op.isCollapse ∧ checks f tx'.rest = true ∧
      Knows { w with links := links } n f) :
    Own { w with links := links } n tx' := by
  obtain ⟨-, rfl, -⟩ := Rows.update_eq_some.1 hupdate
  constructor
  · exact hchecked
  · intro r hr i hheld
    exact absurd hheld (hown.not_adopting hrest r hr i)
  · intro r hr hheld
    rw [hop]
    exact hown.dropped r hr hheld
  · intro r' hr' l hheld hl
    obtain ⟨r, hr, rfl⟩ := List.mem_map.1 hr'
    rw [Row.held_write] at hheld
    split at hheld
    · cases hheld
      rw [hg] at hl
      cases hl
    · exact hown.link r hr l hheld hl
  · refine Nat.le_trans ?_ hown.opened
    show (w.links.map _).countP _ ≤ _
    rw [List.countP_map]
    apply List.countP_mono_left
    intro r _ hopen
    rw [Function.comp_apply, Row.seen_write] at hopen
    split at hopen
    · rw [hg] at hopen
      cases hopen
    · exact hopen

theorem isOpen_consume (startedAt : Time) (l : Option SetupToken) :
    isOpen (consume startedAt l) = false := by
  cases l <;> rfl

theorem Knows.writeLinks {f : Facts} (hknows : Knows w n f) {p : Option SetupToken → Bool}
    {g : Option SetupToken → Option SetupToken} (hg : ∀ l, isOpen (g l) = false)
    {links : Rows Nat (Option SetupToken)} {returned : List (Option SetupToken)}
    (hupdate : w.links.update n p g = some (links, returned)) :
    Knows { w with links := links } n f := by
  obtain ⟨-, rfl, -⟩ := Rows.update_eq_some.1 hupdate
  refine ⟨hknows.setup, hknows.unclaimed, hknows.recorded, ?_⟩
  intro hf
  obtain ⟨hsetup, hclosed⟩ := hknows.cleared hf
  refine ⟨hsetup, ?_⟩
  intro r' hr'
  obtain ⟨r, hr, rfl⟩ := List.mem_map.1 hr'
  rw [Row.seen_write]
  split
  · exact hg _
  · exact hclosed r hr

/-- A transaction keeps to its order through each of its statements. -/
theorem Own.runs (hown : Own w n tx) (hrest : tx.rest = statement :: rest)
    (h : exec env w n { tx with rest := rest } now statement = .done after tx') :
    Own after n tx' := by
  have hnot := hown.not_adopting hrest
  obtain ⟨f, hcollapse, hchecks, hknows⟩ := hown.checked
  rw [hrest] at hchecks
  cases statement with
  | lockSetup =>
    simp only [exec] at h
    split at h
    case isFalse => cases h
    case isTrue =>
      cases h
      refine hown.quiet hrest rfl rfl (fun _ => rfl) rfl
        ⟨{ f with setup := true }, hcollapse, hchecks, ?_⟩
      refine ⟨fun _ => rfl, ?_, hknows.recorded, ?_⟩
      · intro hf
        exact ⟨rfl, (hknows.unclaimed hf).2⟩
      · intro hf
        exact ⟨rfl, (hknows.cleared hf).2⟩
  | spend token =>
    obtain ⟨links, returned, hupdate, rfl, rfl⟩ := writtenOne_done h
    have hclosed := isOpen_consume tx.startedAt
    exact hown.writeLinks hrest hclosed hupdate rfl
      ⟨f, hcollapse, hchecks, hknows.writeLinks hclosed hupdate⟩
  | readMode bars =>
    simp only [exec] at h
    split at h
    · cases h
    · cases h
      exact hown.quiet hrest rfl rfl id rfl ⟨f, hcollapse, hchecks, hknows⟩
  | readClaimed bars why =>
    simp only [exec] at h
    split at h
    case isTrue => cases h
    case isFalse hclaimed =>
      cases h
      refine hown.quiet hrest rfl rfl id rfl
        ⟨{ f with unclaimed := f.setup && !f.collapse }, hcollapse, hchecks, ?_⟩
      refine ⟨hknows.setup, ?_, hknows.recorded, hknows.cleared⟩
      intro hf
      rw [Bool.and_eq_true, Bool.not_eq_true'] at hf
      refine ⟨hknows.setup hf.1, hf.2, ?_⟩
      intro r hr
      -- it sees none, and has deleted none itself
      have hempty : seenRows n w.identities = [] := by
        by_contra hne
        exact hclaimed (.inl hne)
      have hseen : r.seen n = none := List.filterMap_eq_nil_iff.1 hempty r hr
      have hfree : ∀ v, r.held ≠ some (n, v) := by
        intro v hv
        cases v with
        | some i => exact hnot r hr i hv
        | none =>
          have hdropped := hown.dropped r hr hv
          rw [← hcollapse, hf.2] at hdropped
          cases hdropped
      rwa [Row.seen_of_not_held hfree] at hseen
  | hash password =>
    simp only [exec] at h
    split at h
    · cases h
      exact hown.quiet hrest rfl rfl id rfl ⟨f, hcollapse, hchecks, hknows⟩
    · cases h
  | readLocal missing =>
    simp only [exec] at h
    split at h
    · cases h
      exact hown.quiet hrest rfl rfl id rfl ⟨f, hcollapse, hchecks, hknows⟩
    · cases h
  | record mode ring =>
    simp only [exec] at h
    split at h
    case h_2 => cases h
    case h_1 version _ =>
      unfold recordMode at h
      split at h
      · cases h
      · cases h
        refine hown.quiet hrest rfl rfl id rfl
          ⟨{ f with recorded := decide (mode = .accounts) }, hcollapse, hchecks, ?_⟩
        refine ⟨hknows.setup, hknows.unclaimed, ?_, hknows.cleared⟩
        intro hf
        have hmode : mode = .accounts := by simpa using hf
        refine ⟨upsert mode version (w.mode.seen n), ?_, ?_⟩
        · exact Row.held_write
        · unfold upsert
          split
          · next hsame => rw [hsame, hmode]
          · rw [hmode]
  | updateUser address =>
    simp only [exec] at h
    split at h
    · cases h
    · split at h
      · cases h
      · obtain ⟨users, returned, hupdate, rfl, rfl⟩ := writtenOne_done h
        exact hown.quiet hrest rfl rfl id rfl
          ⟨f, hcollapse, hchecks, ⟨hknows.1, hknows.2, hknows.3, hknows.4⟩⟩
  | insertIdentity address =>
    simp only [exec] at h
    split at h
    case h_2 => cases h
    case h_1 row hash _ _ =>
      cases h
      simp only [checks, Bool.and_eq_true, List.isEmpty_iff] at hchecks
      obtain ⟨⟨hunclaimed, hrecorded⟩, rfl⟩ := hchecks
      obtain ⟨hsetup, hop, hnone⟩ := hknows.unclaimed hunclaimed
      have hnone' : ∀ r ∈ w.identities ++
          [⟨none, some (n, some ⟨row.id, env.stripLower address, hash⟩)⟩], r.committed = none := by
        intro r hr
        rcases List.mem_append.1 hr with hr | hr
        · exact hnone r hr
        · rw [List.mem_singleton.1 hr]
      constructor
      · refine ⟨f, hcollapse, rfl, hknows.setup, ?_, hknows.recorded, hknows.cleared⟩
        intro _
        exact ⟨hsetup, hop, hnone'⟩
      · intro r _ i _
        exact ⟨rfl, hcollapse.symm.trans hop, hsetup, hknows.recorded hrecorded, hnone'⟩
      · intro r hr hheld
        rcases List.mem_append.1 hr with hr | hr
        · exact hown.dropped r hr hheld
        · rw [List.mem_singleton.1 hr] at hheld
          cases hheld
      · exact hown.link
      · exact hown.opened
  | deleteOpen =>
    obtain ⟨links, returned, hupdate, rfl, rfl⟩ := written_done h
    have hclosed : ∀ l : Option SetupToken, isOpen ((fun _ => none) l) = false := fun _ => rfl
    have hleft := hknows.writeLinks hclosed hupdate
    refine hown.writeLinks hrest hclosed hupdate rfl
      ⟨{ f with cleared := f.setup }, hcollapse, hchecks, ?_⟩
    refine ⟨hleft.setup, hleft.unclaimed, hleft.recorded, ?_⟩
    intro hf
    refine ⟨hknows.setup hf, ?_⟩
    intro r' hr'
    obtain ⟨-, rfl, -⟩ := Rows.update_eq_some.1 hupdate
    obtain ⟨r, hr, rfl⟩ := List.mem_map.1 hr'
    rw [Row.seen_write]
    split
    · rfl
    · next hopen => simpa using hopen
  | insertLink token =>
    simp only [exec] at h
    split at h
    case isTrue => cases h
    case isFalse =>
      cases h
      simp only [checks, Bool.and_eq_true] at hchecks
      obtain ⟨hcleared, hchecks⟩ := hchecks
      obtain ⟨hsetup, hclosed⟩ := hknows.cleared hcleared
      constructor
      · refine ⟨{ f with cleared := false }, hcollapse, hchecks, hknows.setup, hknows.unclaimed,
          hknows.recorded, ?_⟩
        intro hf
        cases hf
      · intro r hr i hheld
        exact absurd hheld (hnot r hr i)
      · exact hown.dropped
      · intro _ _ _ _ _
        exact hsetup
      · have hzero : w.links.countP (fun r => isOpen (r.seen n)) = 0 := by
          rw [List.countP_eq_zero]
          intro r hr
          rw [hclosed r hr]
          exact Bool.false_ne_true
        rw [List.countP_append, hzero, Nat.zero_add]
        exact List.countP_le_length
  | decide override =>
    simp only [exec] at h
    split at h
    · cases h
      exact hown.quiet hrest rfl rfl id rfl ⟨f, hcollapse, hchecks, hknows⟩
    · split at h
      · cases h
        exact hown.quiet hrest rfl rfl id rfl ⟨f, hcollapse, rfl, hknows⟩
      · cases h
  | holdAccounts =>
    simp only [exec] at h
    split at h
    · cases h
      exact hown.quiet hrest rfl rfl id rfl
        ⟨f, hcollapse, hchecks, ⟨hknows.1, hknows.2, hknows.3, hknows.4⟩⟩
    · cases h
  | dropLinks =>
    obtain ⟨links, returned, hupdate, rfl, rfl⟩ := written_done h
    have hclosed : ∀ l : Option SetupToken, isOpen ((fun _ => none) l) = false := fun _ => rfl
    exact hown.writeLinks hrest hclosed hupdate rfl
      ⟨f, hcollapse, hchecks, hknows.writeLinks hclosed hupdate⟩
  | dropIdentities =>
    obtain ⟨identities, returned, hupdate, rfl, rfl⟩ := written_done h
    simp only [checks, Bool.and_eq_true] at hchecks
    obtain ⟨hop, hchecks⟩ := hchecks
    obtain ⟨-, rfl, -⟩ := Rows.update_eq_some.1 hupdate
    constructor
    · refine ⟨f, hcollapse, hchecks, hknows.setup, ?_, hknows.recorded, hknows.cleared⟩
      intro hf
      have hno := (hknows.unclaimed hf).2.1
      rw [hop] at hno
      cases hno
    · intro r' hr' i hheld
      obtain ⟨r, hr, rfl⟩ := List.mem_map.1 hr'
      rw [Row.held_write] at hheld
      split at hheld
      · cases hheld
      · exact absurd hheld (hnot r hr i)
    · intro _ _ _
      exact hcollapse.symm.trans hop
    · exact hown.link
    · exact hown.opened
  | dropUsers =>
    simp only [exec] at h
    split at h
    · cases h
    · obtain ⟨users, returned, hupdate, rfl, rfl⟩ := written_done h
      exact hown.quiet hrest rfl rfl id rfl
        ⟨f, hcollapse, hchecks, ⟨hknows.1, hknows.2, hknows.3, hknows.4⟩⟩
  | resetLocal =>
    simp only [exec] at h
    split at h
    · cases h
    · obtain ⟨users, returned, hupdate, rfl, rfl⟩ := written_done h
      exact hown.quiet hrest rfl rfl id rfl
        ⟨f, hcollapse, hchecks, ⟨hknows.1, hknows.2, hknows.3, hknows.4⟩⟩
  | updateMode =>
    simp only [exec] at h
    split at h
    · cases h
    · cases h
      simp only [checks, Bool.and_eq_true] at hchecks
      refine hown.quiet hrest rfl rfl id rfl
        ⟨{ f with recorded := false }, hcollapse, hchecks.2, ?_⟩
      refine ⟨hknows.setup, hknows.unclaimed, ?_, hknows.cleared⟩
      intro hf
      cases hf

end Potocolom.Decision
