import Potocolom.Administrators.Machine

/-! # The last administrator

The count of the remaining administrators holds until the change commits, as every
change takes the one key; what does not take it is a deletion, a restore and the
offline command, and the offline command may also promote the account in between. -/

namespace Potocolom.Administrators

open Accounts Deletion Guard

variable {s t : World} {l : Label} {n : Nat}

/-! ## What a change admits -/

/-- The change takes authority away. -/
def Request.takesAway : Request → Bool
  | changeRole _ _ role _ _ => decide (role ≠ .admin)
  | changeState _ _ state _ => decide (state ≠ .active)
  | deleteAccount _ => false
  | restore _ => false
  | reclaimRestore _ => false

/-- The row as the change makes it. -/
def Request.apply (request : Request) (user : User) : User :=
  match request with
  | .changeRole _ _ role _ _ => { user with role := role }
  | .changeState _ _ state _ => { user with state := state }
  | .deleteAccount _ => user
  | .restore _ => user
  | .reclaimRestore _ => user

theorem changeRole_admits {user : User} {change : RoleChange} {now : Time} {account : Account}
    (h : (bare user).changeRole change now = .ok account) :
    account.user = { user with role := change.role } ∧
      (change.role ≠ .admin → user.role = .admin → change.othersRemain = true) := by
  simp only [Account.changeRole, bind_eq_ok, require_eq_ok] at h
  obtain ⟨-, -, h⟩ := h
  split at h
  · next hrole =>
    simp only [bind_eq_ok, require_eq_ok, pure_eq_ok] at h
    obtain ⟨-, -, -, -, rfl⟩ := h
    exact ⟨rfl, fun hne => absurd hrole hne⟩
  · simp only [bind_eq_ok, require_eq_ok, pure_eq_ok] at h
    obtain ⟨-, hcount, rfl⟩ := h
    exact ⟨rfl, fun _ => hcount⟩

theorem changeState_admits {user : User} {change : StateChange} {now : Time} {account : Account}
    (h : (bare user).changeState change now = .ok (some account)) :
    account.user = { user with state := change.state } ∧
      (change.state ≠ .active → user.role = .admin → change.othersRemain = true) := by
  simp only [Account.changeState, bind_eq_ok, require_eq_ok] at h
  obtain ⟨-, -, h⟩ := h
  split at h
  · simp at h
  · simp only [bind_eq_ok, require_eq_ok] at h
    obtain ⟨-, -, -, hcount, h⟩ := h
    refine ⟨?_, hcount⟩
    split at h
    · simp only [pure_eq_ok, Option.some.injEq] at h
      rw [← h]
      rfl
    · simp only [pure_eq_ok, Option.some.injEq] at h
      rw [← h]
      rfl

theorem admits_eq_some {request : Request} {user updated : User} {others : Bool}
    (h : request.admits user others = some updated) :
    request.changes = true ∧ updated = request.apply user ∧
      (request.takesAway = true → user.role = .admin → others = true) := by
  cases request with
  | changeRole actor target role attested recent =>
    simp only [Request.admits] at h
    split at h
    · next account hok =>
      cases h
      obtain ⟨huser, hcount⟩ := changeRole_admits hok
      exact ⟨rfl, huser, fun haway => hcount (by simpa [Request.takesAway] using haway)⟩
    · cases h
  | changeState actor target state offered =>
    simp only [Request.admits] at h
    split at h
    · next account hok =>
      cases h
      obtain ⟨huser, hcount⟩ := changeState_admits hok
      exact ⟨rfl, huser, fun haway => hcount (by simpa [Request.takesAway] using haway)⟩
    · cases h
    · cases h
  | deleteAccount user => cases h
  | restore target => cases h
  | reclaimRestore target => cases h

theorem remain_iff {x : Nat} :
    s.remain x = true ↔ ∃ y ∈ s.accounts, y ≠ x ∧ Administers (s.users y) := by
  unfold World.remain
  rw [List.any_eq_true]
  simp only [decide_eq_true_eq]

/-! ## What holds between two steps -/

/-- A change that has counted still has another administrator beside an account that
administers. -/
def World.Covered (s : World) : Prop :=
  ∀ n tx loaded, s.transactions n = some tx → tx.loaded = some loaded → tx.updated.isSome = true →
    tx.request.takesAway = true → loaded.role = .admin →
      Administers (s.users tx.request.account) → s.remain tx.request.account = true

structure Held (s : World) : Prop where
  keys : ∀ n tx, s.transactions n = some tx → tx.request.keyed = true →
    s.keys tx.request.account = some n
  changing : ∀ n tx, s.transactions n = some tx → tx.updated.isSome = true →
    s.changing = some n
  updated : ∀ n tx updated, s.transactions n = some tx → tx.updated = some updated →
    tx.request.changes = true ∧ ∃ loaded, tx.loaded = some loaded ∧
      updated = tx.request.apply loaded
  covered : s.Covered

/-- What a step of the other transactions may need: a deletion, a restore and a
reclaim leave every change that has counted another administrator, and a change that
read its target as none finds it as none. -/
def LastKept (s : World) : Label → Prop
  | .commits n now => ∀ tx, s.transactions n = some tx →
      if tx.request.changes = true then
        tx.request.takesAway = true → ∀ loaded, tx.loaded = some loaded →
          loaded.role ≠ .admin → (s.users tx.request.account).role ≠ .admin
      else ∀ t, s.commit n tx now = some t → t.Covered
  | _ => True

theorem ends_transactions (s : World) (n m : Nat) {tx : Transaction}
    (h : (s.ends n).transactions m = some tx) : m ≠ n ∧ s.transactions m = some tx := by
  have h : Function.update s.transactions n none m = some tx := h
  by_cases hm : m = n
  · subst hm
    simp at h
  · rw [Function.update_of_ne hm] at h
    exact ⟨hm, h⟩

/-- A transaction that ends takes only its own keys. -/
theorem Held.ends (h : Held s) (n : Nat) {u : World} (htransactions : u.transactions = s.transactions)
    (hkeys : u.keys = s.keys) (hchanging : u.changing = s.changing)
    (hcovered : (u.ends n).Covered) : Held (u.ends n) := by
  constructor
  · intro m tx htx hkeyed
    obtain ⟨hm, htx⟩ := ends_transactions u n m htx
    rw [htransactions] at htx
    have hkey := h.keys m tx htx hkeyed
    show (if u.keys tx.request.account = some n then none else u.keys tx.request.account) = some m
    rw [hkeys, hkey, if_neg (by simpa using hm)]
  · intro m tx htx hupdated
    obtain ⟨hm, htx⟩ := ends_transactions u n m htx
    rw [htransactions] at htx
    have hlock := h.changing m tx htx hupdated
    show (if u.changing = some n then none else u.changing) = some m
    rw [hchanging, hlock, if_neg (by simpa using hm)]
  · intro m tx updated htx hupdated
    obtain ⟨-, htx⟩ := ends_transactions u n m htx
    rw [htransactions] at htx
    exact h.updated m tx updated htx hupdated
  · exact hcovered

theorem Held.aborts (h : Held s) (n : Nat) : Held (s.ends n) := by
  apply h.ends n rfl rfl rfl
  intro m tx loaded htx
  obtain ⟨-, htx⟩ := ends_transactions s n m htx
  exact h.covered m tx loaded htx

/-- A transaction moves on, and changes neither a row nor what it has counted. -/
theorem Held.set (h : Held s) (tx' : Transaction) {u : World}
    (htransactions : u.transactions = Function.update s.transactions n (some tx'))
    (husers : u.users = s.users) (haccounts : u.accounts = s.accounts)
    (hkeys : ∀ m tx, m ≠ n → s.transactions m = some tx → tx.request.keyed = true →
      u.keys tx.request.account = some m)
    (hkey : tx'.request.keyed = true → u.keys tx'.request.account = some n)
    (hchanging : ∀ m, m ≠ n → s.changing = some m → u.changing = some m)
    (hfresh : tx'.updated = none) : Held u := by
  have hcases : ∀ m tx, u.transactions m = some tx →
      m = n ∧ tx = tx' ∨ m ≠ n ∧ s.transactions m = some tx := by
    intro m tx htx
    rw [htransactions] at htx
    by_cases hm : m = n
    · subst hm
      rw [Function.update_self] at htx
      cases htx
      exact .inl ⟨rfl, rfl⟩
    · rw [Function.update_of_ne hm] at htx
      exact .inr ⟨hm, htx⟩
  constructor
  · intro m tx htx hkeyed
    rcases hcases m tx htx with ⟨rfl, rfl⟩ | ⟨hm, htx⟩
    · exact hkey hkeyed
    · exact hkeys m tx hm htx hkeyed
  · intro m tx htx hupdated
    rcases hcases m tx htx with ⟨rfl, rfl⟩ | ⟨hm, htx⟩
    · rw [hfresh] at hupdated
      cases hupdated
    · exact hchanging m hm (h.changing m tx htx hupdated)
  · intro m tx updated htx hupdated
    rcases hcases m tx htx with ⟨rfl, rfl⟩ | ⟨hm, htx⟩
    · rw [hfresh] at hupdated
      cases hupdated
    · exact h.updated m tx updated htx hupdated
  · intro m tx loaded htx hloaded hupdated haway hrole hadmin
    rcases hcases m tx htx with ⟨rfl, rfl⟩ | ⟨hm, htx⟩
    · rw [hfresh] at hupdated
      cases hupdated
    · rw [husers] at hadmin
      have hremain := h.covered m tx loaded htx hloaded hupdated haway hrole hadmin
      rw [World.remain, husers, haccounts]
      exact hremain

theorem Held.begins (h : Held s) {request : Request}
    (hstep : step s (.begins n request) = some t) : Held t := by
  rw [step, Option.ite_none_right_eq_some] at hstep
  obtain ⟨⟨-, -⟩, hstep⟩ := hstep
  dsimp only at hstep
  split at hstep
  · next hkeyed =>
    rw [Option.ite_none_right_eq_some] at hstep
    obtain ⟨hfree, hstep⟩ := hstep
    cases hstep
    refine h.set ⟨request, none, none⟩ rfl rfl rfl ?_ ?_ (fun _ _ hm => hm) rfl
    · intro m tx _ htx hkeyed'
      have hkey := h.keys m tx htx hkeyed'
      have hne : tx.request.account ≠ request.account := by
        intro heq
        rw [heq, hfree] at hkey
        cases hkey
      show Function.update s.keys request.account (some n) tx.request.account = some m
      rw [Function.update_of_ne hne]
      exact hkey
    · intro _
      exact Function.update_self ..
  · next hfree =>
    cases hstep
    refine h.set ⟨request, none, none⟩ rfl rfl rfl ?_ ?_ (fun _ _ hm => hm) rfl
    · intro m tx _ htx hkeyed
      exact h.keys m tx htx hkeyed
    · intro hkeyed
      exact absurd hkeyed hfree

theorem Held.reads (h : Held s) (hstep : step s (.reads n) = some t) : Held t := by
  unfold step at hstep
  dsimp only at hstep
  split at hstep
  · cases hstep
  · next tx htx =>
    rw [Option.ite_none_right_eq_some] at hstep
    obtain ⟨⟨hloaded, -⟩, hstep⟩ := hstep
    have hfresh : tx.updated = none := by
      cases hupdated : tx.updated with
      | none => rfl
      | some updated =>
        obtain ⟨-, loaded, hread, -⟩ := h.updated n tx updated htx hupdated
        rw [hloaded] at hread
        cases hread
    split at hstep
    · cases hstep
      refine h.set _ rfl rfl rfl (fun m tx _ => h.keys m tx) ?_ (fun _ _ hm => hm) hfresh
      exact h.keys n tx htx
    · cases hstep
      exact h.aborts n

theorem Held.locks (h : Held s) (hstep : step s (.locks n) = some t) : Held t := by
  unfold step at hstep
  dsimp only at hstep
  split at hstep
  · cases hstep
  · next tx htx =>
    rw [Option.ite_none_right_eq_some] at hstep
    obtain ⟨⟨-, hfree, -⟩, hstep⟩ := hstep
    cases hstep
    have hfresh : tx.updated = none := by
      cases hupdated : tx.updated with
      | none => rfl
      | some updated =>
        have hlock := h.changing n tx htx (by simp [hupdated])
        rw [hfree] at hlock
        cases hlock
    refine h.set (n := n) tx ?_ rfl rfl (fun m tx _ => h.keys m tx) (h.keys n tx htx) ?_
      hfresh
    · rw [Function.update_eq_self_iff.2 htx.symm]
    · intro m _ hm
      rw [hfree] at hm
      cases hm

theorem Held.checks (h : Held s) (hstep : step s (.checks n) = some t) : Held t := by
  unfold step at hstep
  dsimp only at hstep
  split at hstep
  · cases hstep
  · next tx htx =>
    split at hstep
    · cases hstep
    · next loaded hloaded =>
      rw [Option.ite_none_right_eq_some] at hstep
      obtain ⟨⟨hlock, -⟩, hstep⟩ := hstep
      split at hstep
      case h_2 =>
        cases hstep
        exact h.aborts n
      case h_1 updated hadmits =>
        obtain ⟨hchanges, happly, hcount⟩ := admits_eq_some hadmits
        cases hstep
        have hcases : ∀ m tx', (s.setTransaction n (some { tx with updated := some updated })
            ).transactions m = some tx' →
            m = n ∧ tx' = { tx with updated := some updated } ∨ s.transactions m = some tx' := by
          intro m tx' htx'
          have htx' : Function.update s.transactions n (some { tx with updated := some updated }) m =
              some tx' := htx'
          by_cases hm : m = n
          · subst hm
            rw [Function.update_self] at htx'
            cases htx'
            exact .inl ⟨rfl, rfl⟩
          · rw [Function.update_of_ne hm] at htx'
            exact .inr htx'
        constructor
        · intro m tx' htx' hkeyed
          rcases hcases m tx' htx' with ⟨rfl, rfl⟩ | htx'
          · exact h.keys m tx htx hkeyed
          · exact h.keys m tx' htx' hkeyed
        · intro m tx' htx' hupdated
          rcases hcases m tx' htx' with ⟨rfl, rfl⟩ | htx'
          · exact hlock
          · exact h.changing m tx' htx' hupdated
        · intro m tx' updated' htx' hupdated
          rcases hcases m tx' htx' with ⟨rfl, rfl⟩ | htx'
          · cases hupdated
            exact ⟨hchanges, loaded, hloaded, happly⟩
          · exact h.updated m tx' updated' htx' hupdated
        · intro m tx' loaded' htx' hloaded' hupdated haway hrole hadmin
          rcases hcases m tx' htx' with ⟨rfl, rfl⟩ | htx'
          · -- it has just counted
            have hsame : loaded = loaded' := Option.some.inj (hloaded.symm.trans hloaded')
            subst hsame
            exact hcount haway hrole
          · exact h.covered m tx' loaded' htx' hloaded' hupdated haway hrole hadmin

/-- A change commits under the key of all changes, so no other one has counted. -/
theorem Held.alone (h : Held s) {tx : Transaction} (htx : s.transactions n = some tx)
    (hupdated : tx.updated.isSome = true) {u : World} (htransactions : u.transactions = s.transactions) :
    (u.ends n).Covered := by
  intro m tx' loaded htx' _ hupdated'
  obtain ⟨hm, htx'⟩ := ends_transactions u n m htx'
  rw [htransactions] at htx'
  have hlock := h.changing n tx htx hupdated
  have hlock' := h.changing m tx' htx' hupdated'
  rw [hlock] at hlock'
  exact absurd (Option.some.inj hlock').symm hm

theorem Held.commits (h : Held s) {now : Time} (hok : LastKept s (.commits n now))
    (hstep : step s (.commits n now) = some t) : Held t := by
  unfold step at hstep
  dsimp only at hstep
  split at hstep
  · cases hstep
  · next tx htx =>
    have hother : tx.request.changes = false → t.Covered := by
      intro hchanges
      have hkept := hok tx htx
      rw [if_neg (by simp [hchanges])] at hkept
      exact hkept t hstep
    unfold World.commit at hstep
    split at hstep
    · next hrequest =>
      split at hstep
      · next loaded updated hloaded hupdated =>
        cases hstep
        refine h.ends n rfl rfl rfl ?_
        exact h.alone htx (by simp [hupdated]) rfl
      · cases hstep
    · next hrequest =>
      split at hstep
      · next loaded updated hloaded hupdated =>
        cases hstep
        refine h.ends n rfl rfl rfl ?_
        exact h.alone htx (by simp [hupdated]) rfl
      · cases hstep
    · next user hrequest =>
      have hcovered := hother (by rw [hrequest]; rfl)
      split at hstep
      · cases hstep
        exact h.ends n (u := s.setUser user _) rfl rfl rfl hcovered
      · cases hstep
        exact h.aborts n
    · next target hrequest =>
      have hcovered := hother (by rw [hrequest]; rfl)
      split at hstep
      · cases hstep
      · next loaded _ =>
        split at hstep
        · cases hstep
          exact h.ends n (u := s.setUser target _) rfl rfl rfl hcovered
        · cases hstep
          exact h.aborts n
        · cases hstep
          exact h.aborts n
    · next target hrequest =>
      have hcovered := hother (by rw [hrequest]; rfl)
      split at hstep
      · cases hstep
      · next loaded _ =>
        split at hstep
        · cases hstep
          exact h.aborts n
        · cases hstep
          exact h.ends n (u := s.setUser target _) rfl rfl rfl hcovered

theorem Held.step (h : Held s) (hok : LastKept s l)
    (hstep : Administrators.step s l = some t) : Held t := by
  cases l with
  | begins n request => exact h.begins hstep
  | reads n => exact h.reads hstep
  | locks n => exact h.locks hstep
  | checks n => exact h.checks hstep
  | commits n now => exact h.commits hok hstep
  | aborts n =>
    unfold Administrators.step at hstep
    dsimp only at hstep
    split at hstep
    · cases hstep
    · cases hstep
      exact h.aborts n

theorem reach_held (h : machine.Reach LastKept s) : Held s := by
  refine h.invariant ?_ ?_
  · rintro s ⟨hnone, -, -⟩
    constructor
    · intro m tx htx
      rw [hnone] at htx
      cases htx
    · intro m tx htx
      rw [hnone] at htx
      cases htx
    · intro m tx updated htx
      rw [hnone] at htx
      cases htx
    · intro m tx loaded htx
      rw [hnone] at htx
      cases htx
  · intro s l t hs hok hstep
    exact hs.step hok hstep

/-! ## The commit of a change -/

/-- What the commit writes: the one column that the change set, if it differs from what
was read. -/
theorem administers_of_writeColumns {request : Request} {loaded row : User}
    (hrequest : request.changes = true) (haway : request.takesAway = false)
    (h : Administers row) : Administers (writeColumns loaded (request.apply loaded) row) := by
  obtain ⟨hrole, hstate⟩ := h
  cases request with
  | changeRole actor target role attested recent =>
    have hadmin : role = .admin := by simpa [Request.takesAway] using haway
    subst hadmin
    refine ⟨?_, ?_⟩
    · simp only [writeColumns, Request.apply, hrole]
      exact ite_self _
    · simp only [writeColumns, Request.apply, if_true]
      exact hstate
  | changeState actor target state offered =>
    have hactive : state = .active := by simpa [Request.takesAway] using haway
    subst hactive
    refine ⟨?_, ?_⟩
    · simp only [writeColumns, Request.apply, if_true]
      exact hrole
    · simp only [writeColumns, Request.apply, hstate]
      exact ite_self _
  | deleteAccount user => cases hrequest
  | restore target => cases hrequest
  | reclaimRestore target => cases hrequest

/-- The commit of a change writes one row. -/
theorem commit_change {tx : Transaction} {now : Time} (hchanges : tx.request.changes = true)
    (hstep : s.commit n tx now = some t) : ∃ loaded updated, tx.loaded = some loaded ∧
      tx.updated = some updated ∧ t = s.writes n tx.request.account loaded updated := by
  unfold World.commit at hstep
  split at hstep
  · next hrequest =>
    rw [hrequest]
    split at hstep
    · next loaded updated hloaded hupdated =>
      cases hstep
      exact ⟨loaded, updated, hloaded, hupdated, rfl⟩
    · cases hstep
  · next hrequest =>
    rw [hrequest]
    split at hstep
    · next loaded updated hloaded hupdated =>
      cases hstep
      exact ⟨loaded, updated, hloaded, hupdated, rfl⟩
    · cases hstep
  · next hrequest =>
    rw [hrequest] at hchanges
    cases hchanges
  · next hrequest =>
    rw [hrequest] at hchanges
    cases hchanges
  · next hrequest =>
    rw [hrequest] at hchanges
    cases hchanges

theorem last_administrator_kept {tx : Transaction} {now : Time} (h : machine.Reach LastKept s)
    (hok : LastKept s (.commits n now)) (htx : s.transactions n = some tx)
    (hchanges : tx.request.changes = true) (hstep : step s (.commits n now) = some t)
    (hadmin : s.Administered) : t.Administered := by
  have hheld := reach_held h
  have hkept := hok tx htx
  rw [if_pos hchanges] at hkept
  have hcommit : s.commit n tx now = some t := by
    simpa only [step, htx] using hstep
  obtain ⟨loaded, updated, hloaded, hupdated, rfl⟩ := commit_change hchanges hcommit
  obtain ⟨-, loaded', hloaded', rfl⟩ := hheld.updated n tx updated htx hupdated
  obtain rfl : loaded = loaded' := Option.some.inj (hloaded.symm.trans hloaded')
  -- any other administrator is left alone
  have hothers : ∀ y ∈ s.accounts, y ≠ tx.request.account → Administers (s.users y) →
      (s.writes n tx.request.account loaded (tx.request.apply loaded)).Administered := by
    intro y hy hne hyadmin
    refine ⟨y, hy, ?_⟩
    show Administers (Function.update s.users tx.request.account _ y)
    rw [Function.update_of_ne hne]
    exact hyadmin
  obtain ⟨x, hx, hxadmin⟩ := hadmin
  by_cases htarget : x = tx.request.account
  · subst htarget
    cases haway : tx.request.takesAway with
    | false =>
      refine ⟨tx.request.account, hx, ?_⟩
      show Administers (Function.update s.users tx.request.account _ tx.request.account)
      rw [Function.update_self]
      exact administers_of_writeColumns hchanges haway hxadmin
    | true =>
      by_cases hrole : loaded.role = .admin
      · have hremain := hheld.covered n tx loaded htx hloaded (by simp [hupdated]) haway hrole hxadmin
        obtain ⟨y, hy, hne, hyadmin⟩ := remain_iff.1 hremain
        exact hothers y hy hne hyadmin
      · exact absurd hxadmin.1 (hkept haway loaded hloaded hrole)
  · exact hothers x hx htarget hxadmin

/-! ## Two administrators, and one of them leaves -/

section Sample

def administrator : User := ⟨"", true, .admin, .active, none, none⟩

/-- Accounts 1, 2 and 3 administer. -/
def samplePlace (accounts : List Nat) : World where
  accounts := accounts
  users _ := administrator
  transactions _ := none
  keys _ := none
  changing := none

/-- Account 1 demotes account 2, and has counted. -/
def demotes : List Label :=
  [.begins 0 (.changeRole 1 2 .user false true), .reads 0, .locks 0, .checks 0]

def sampleCounted (accounts : List Nat) : World :=
  (machine.run (samplePlace accounts) demotes).getD (samplePlace accounts)

def sampleDemoted : World := (step (sampleCounted [1, 2, 3]) (.commits 0 0)).getD (samplePlace [])

theorem last_administrator_kept_sample :
    (sampleDemoted.users 2).role = .user ∧ sampleDemoted.Administered := by
  have hstart : machine.Reach LastKept (samplePlace [1, 2, 3]) :=
    Machine.Reach.of_init ⟨fun _ => rfl, fun _ => rfl, rfl⟩
  have hrun : machine.run (samplePlace [1, 2, 3]) demotes = some (sampleCounted [1, 2, 3]) := rfl
  have hreach := hstart.path (Machine.path_of_run hrun
    ⟨trivial, fun _ _ => ⟨trivial, fun _ _ => ⟨trivial, fun _ _ => ⟨trivial, fun _ _ => trivial⟩⟩⟩⟩)
  have htx : (sampleCounted [1, 2, 3]).transactions 0 =
      some ⟨.changeRole 1 2 .user false true, some administrator,
        some { administrator with role := .user }⟩ := rfl
  have hok : LastKept (sampleCounted [1, 2, 3]) (.commits 0 0) := by
    intro tx htx'
    obtain rfl := Option.some.inj (htx.symm.trans htx')
    rintro - loaded ⟨⟩ hrole
    exact absurd rfl hrole
  have hadmin : (sampleCounted [1, 2, 3]).Administered := ⟨1, by decide, by decide⟩
  exact ⟨rfl, last_administrator_kept hreach hok htx rfl rfl hadmin⟩

/-- Account 1 deletes itself before the demotion commits. -/
def leaves : List Label := [.begins 1 (.deleteAccount 1), .commits 1 0]

def sampleAlone : World :=
  (machine.run (sampleCounted [1, 2]) leaves).getD (samplePlace [])

def sampleNone : World := (step sampleAlone (.commits 0 0)).getD (samplePlace [])

theorem last_administrator_lost : ¬ ∀ (s t : World) (n : Nat) (tx : Transaction) (now : Time),
    machine.Reach Machine.anyStep s → s.transactions n = some tx → tx.request.changes = true →
      step s (.commits n now) = some t → s.Administered → t.Administered := by
  intro hall
  have hstart : machine.Reach Machine.anyStep (samplePlace [1, 2]) :=
    Machine.Reach.of_init ⟨fun _ => rfl, fun _ => rfl, rfl⟩
  have hcounted : machine.run (samplePlace [1, 2]) demotes = some (sampleCounted [1, 2]) := rfl
  have hleft : machine.run (sampleCounted [1, 2]) leaves = some sampleAlone := rfl
  have hreach := (hstart.path (Machine.path_of_run_any hcounted)).path
    (Machine.path_of_run_any hleft)
  have hadmin : sampleAlone.Administered := ⟨2, by decide, by decide⟩
  have hnone := hall sampleAlone sampleNone 0 _ 0 hreach rfl rfl rfl hadmin
  obtain ⟨x, hx, hxadmin⟩ := hnone
  have hx : x = 1 ∨ x = 2 := by
    have hx : x ∈ [1, 2] := hx
    simpa using hx
  rcases hx with rfl | rfl
  · exact absurd hxadmin (by decide)
  · exact absurd hxadmin (by decide)

end Sample

end Potocolom.Administrators
