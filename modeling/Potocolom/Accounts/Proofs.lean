import Potocolom.Accounts.Links
import Potocolom.Accounts.Secrets

/-! # One-use proofs and what they pay for

A recovery code, or a step of the authenticator, is checked, spent and used in three
separate moments. A removal and a replacement spend and take effect in one transaction;
an answered challenge spends in one and mints its session in the next. -/

namespace Potocolom.Accounts

open Guard

/-! ## Spends and effects -/

/-- What a proof consumes. -/
inductive Credential where
  | recoveryCode (id : Nat)
  | step (factor step : Nat)
deriving DecidableEq, Repr

def Proof.credential (factor : Nat) : Proof → Credential
  | .recoveryCode id => .recoveryCode id
  | .step n => .step factor n

/-- The steps a proof writes to its factor row. -/
def Proof.steps (factor : Nat) : Proof → List (Nat × Nat)
  | .recoveryCode _ => []
  | .step n => [(factor, n)]

/-- A committed spend: the request, what it consumed, and the factor of the account then,
to which a recovery code belongs as well. -/
structure Spend where
  request : Nat
  credential : Credential
  owner : Option Nat
deriving DecidableEq, Repr

/-- The account and its requests, with what they have spent and what came of it. -/
structure Audit where
  world : World
  spends : List Spend
  /-- The spends whose session, removal or replacement is committed. -/
  effects : List Spend
  /-- The values `last_step` has taken: the factor and the step. -/
  steps : List (Nat × Nat)

/-- A step of the account, or a request that fails for good. -/
inductive Event where
  | act (a : Action)
  | fail (r : Nat)
deriving DecidableEq

/-- The request a step opens. -/
def Action.opened : Action → Option Nat
  | .deliverReset r _ | .readForReset r _ | .readForRecovery r _ | .presentLink r _ _
  | .openCredential r _ _ | .openEnrolment r _ _ _ _ | .openRemoval r _ _ | .signIn r _
  | .claimAttempt r _ _ _ => some r
  | _ => none

/-- The proof a factor route spends in its last transaction, and the step that confirms
the factor it puts in. -/
def factorSpend (s : World) (r : Nat) : Option (AuthFactor × Proof) × Option Nat :=
  match s.requests.get r with
  | some (.factorChange _ (.confirm _ _ step _) (.live replacing)) => (replacing, some step)
  | some (.factorChange _ (.remove _) (.proved replacing)) => (replacing, none)
  | _ => (none, none)

/-- The proof `answer_challenge` spends. -/
def challengeSpend (s : World) (r : Nat) : Option (Nat × Proof) :=
  match s.requests.get r with
  | some (.matched _ _ _ factor proof _) => some (factor, proof)
  | _ => none

def spendOf (s : World) (r factor : Nat) (proof : Proof) : Spend :=
  ⟨r, proof.credential factor, s.account.factorId⟩

/-- What a step spends. -/
def spentBy (s : World) : Action → List Spend
  | .winChallenge r =>
    ((challengeSpend s r).map fun (factor, proof) => spendOf s r factor proof).toList
  | .changeFactor r =>
    ((factorSpend s r).1.map fun (factor, proof) => spendOf s r factor.id proof).toList
  | _ => []

/-- The values it gives a `last_step`. -/
def stepsBy (s : World) : Action → List (Nat × Nat)
  | .winChallenge r =>
    ((challengeSpend s r).map fun (factor, proof) => proof.steps factor).getD []
  | .changeFactor r =>
    ((factorSpend s r).1.map fun (factor, proof) => proof.steps factor.id).getD [] ++
      ((factorSpend s r).2.map fun step => (s.account.next, step)).toList
  | _ => []

/-- Whether the mint of this request goes through, for an answered challenge. -/
def mintsFor (s : World) (r : Nat) : Bool :=
  match s.requests.get r with
  | some (.signingIn .challenge user rememberMe _ proved) =>
    (s.account.mintBehindTheGate user rememberMe (proved.map (·.1)) s.now).isSome
  | _ => false

/-- The spends whose effect it commits. -/
def effectsBy (s : Audit) : Action → List Spend
  | .changeFactor r => spentBy s.world (.changeFactor r)
  | .mintBehindTheGate r =>
    if mintsFor s.world r then s.spends.filter fun x => x.request = r else []
  | _ => []

variable (env : Env)

/-- A request has one name; a failed one is over. -/
def auditStep (s : Audit) : Event → Option Audit
  | .act a =>
    if a.opened.any fun r => (s.world.requests.get r).isSome then none
    else (step env s.world a).map fun world =>
      { world := world
        spends := s.spends ++ spentBy s.world a
        effects := s.effects ++ effectsBy s a
        steps := s.steps ++ stepsBy s.world a }
  | .fail r =>
    match s.world.requests.get r with
    | some _ => some { s with world := s.world.put r .done }
    | none => none

/-- From any account whose ids are drawn. -/
def auditMachine : Machine Audit Event where
  init s :=
    (∀ factor ∈ s.world.account.factor, factor.id < s.world.account.next) ∧
      (∀ row ∈ s.world.account.recoveryCodes, row.id < s.world.account.next) ∧
      s.world.requests = ∅ ∧ s.spends = [] ∧ s.effects = [] ∧ s.steps = []
  step := auditStep env

variable {env} {a a' : Account} {spends : List Spend} {steps : List (Nat × Nat)}

/-! ## What is spent stays spent -/

/-- The rows of the account against what has been spent. -/
structure Spent (a : Account) (spends : List Spend) (steps : List (Nat × Nat)) : Prop where
  factor_lt : ∀ row ∈ a.factor, row.id < a.next
  codes_lt : ∀ row ∈ a.recoveryCodes, row.id < a.next
  owner_lt : ∀ x ∈ spends, ∀ owner ∈ x.owner, owner < a.next
  consumed : ∀ x ∈ spends, ∀ id, x.credential = .recoveryCode id →
    id < a.next ∧ ∀ row ∈ a.recoveryCodes, row.id = id → row.consumedAt ≠ none
  stepped : ∀ p ∈ steps, p.1 < a.next ∧
    ∀ row ∈ a.factor, row.id = p.1 → ∃ last ∈ row.lastStep, p.2 ≤ last
  logged : ∀ x ∈ spends, ∀ factor n, x.credential = .step factor n → (factor, n) ∈ steps
  increasing : steps.Pairwise fun p q => p.1 = q.1 → p.2 < q.2
  once : (spends.map Spend.credential).Nodup

theorem Spent.keeps (h : Spent a spends steps) (hkeeps : Keeps a a') : Spent a' spends steps := by
  have hrow : ∀ row' ∈ a'.factor, ∃ row ∈ a.factor, row.id = row'.id ∧
      row.lastStep = row'.lastStep := by
    intro row' hrow'
    have hfactor := hkeeps.factor
    rw [Option.mem_def.1 hrow', Option.map_some] at hfactor
    rcases Option.map_eq_some_iff.1 hfactor.symm with ⟨row, hrow, hpair⟩
    exact ⟨row, hrow, congrArg Prod.fst hpair, congrArg Prod.snd hpair⟩
  refine ⟨?_, ?_, ?_, ?_, ?_, h.logged, h.increasing, h.once⟩
  · intro row' hrow'
    rcases hrow row' hrow' with ⟨row, hmem, hid, -⟩
    exact hid ▸ Nat.lt_of_lt_of_le (h.factor_lt row hmem) hkeeps.next_le
  · intro row hmem
    rw [hkeeps.codes] at hmem
    exact Nat.lt_of_lt_of_le (h.codes_lt row hmem) hkeeps.next_le
  · intro x hx owner howner
    exact Nat.lt_of_lt_of_le (h.owner_lt x hx owner howner) hkeeps.next_le
  · intro x hx id hid
    have hconsumed := h.consumed x hx id hid
    rw [hkeeps.codes]
    exact ⟨Nat.lt_of_lt_of_le hconsumed.1 hkeeps.next_le, hconsumed.2⟩
  · intro p hp
    have hstepped := h.stepped p hp
    refine ⟨Nat.lt_of_lt_of_le hstepped.1 hkeeps.next_le, ?_⟩
    intro row' hrow' hid
    rcases hrow row' hrow' with ⟨row, hmem, hsame, hlast⟩
    rw [← hlast]
    exact hstepped.2 row hmem (hsame.trans hid)

/-- Spending a proof, if nobody has. -/
theorem Spent.spend (h : Spent a spends steps) {r factor : Nat} {proof : Proof} {now : Time}
    {owner : Option Nat} (howner : ∀ o ∈ owner, o < a.next)
    (hspend : a.spend factor proof now = .ok a') :
    Spent a' (spends ++ [⟨r, proof.credential factor, owner⟩]) (steps ++ proof.steps factor) := by
  have howners : ∀ x ∈ spends ++ [⟨r, proof.credential factor, owner⟩], ∀ o ∈ x.owner,
      o < a.next := by
    intro x hx o ho
    rcases List.mem_append.1 hx with hx | hx
    · exact h.owner_lt x hx o ho
    · rw [List.mem_singleton.1 hx] at ho
      exact howner o ho
  cases proof with
  | recoveryCode id =>
    simp only [Account.spend, bind_eq_ok, require_eq_ok, pure_eq_ok] at hspend
    rcases hspend with ⟨-, hany, rfl⟩
    rcases List.any_eq_true.1 hany with ⟨found, hfound, hcond⟩
    have hunspent : found.id = id ∧ found.consumedAt = none := by simpa using hcond
    have hcodes : ∀ row' ∈ a.recoveryCodes.map (fun row =>
        if row.id = id ∧ row.consumedAt = none then { row with consumedAt := some now } else row),
        ∃ row ∈ a.recoveryCodes, row'.id = row.id ∧
          (row.consumedAt ≠ none → row'.consumedAt ≠ none) ∧
          (row'.id = id → row'.consumedAt ≠ none) := by
      intro row' hrow'
      rcases List.mem_map.1 hrow' with ⟨row, hrow, rfl⟩
      refine ⟨row, hrow, ?_⟩
      split
      · simp
      · next hnot =>
        refine ⟨rfl, fun hconsumed => hconsumed, ?_⟩
        intro hid hnone
        exact hnot ⟨hid, hnone⟩
    refine ⟨h.factor_lt, ?_, howners, ?_, ?_, ?_, ?_, ?_⟩
    · intro row' hrow'
      rcases hcodes row' hrow' with ⟨row, hrow, hid, -⟩
      rw [hid]
      exact h.codes_lt row hrow
    · intro x hx id' hid'
      rcases List.mem_append.1 hx with hx | hx
      · refine ⟨(h.consumed x hx id' hid').1, ?_⟩
        intro row' hrow' hsame
        rcases hcodes row' hrow' with ⟨row, hrow, hid, hkept, -⟩
        exact hkept ((h.consumed x hx id' hid').2 row hrow (hid.symm.trans hsame))
      · rw [List.mem_singleton.1 hx] at hid'
        cases hid'
        refine ⟨hunspent.1 ▸ h.codes_lt found hfound, ?_⟩
        intro row' hrow' hsame
        rcases hcodes row' hrow' with ⟨row, hrow, -, -, hnew⟩
        exact hnew hsame
    · intro p hp
      exact h.stepped p (by simpa [Proof.steps] using hp)
    · intro x hx factor' n hstep
      rcases List.mem_append.1 hx with hx | hx
      · exact List.mem_append_left _ (h.logged x hx factor' n hstep)
      · rw [List.mem_singleton.1 hx] at hstep
        cases hstep
    · simpa [Proof.steps] using h.increasing
    · rw [List.map_append, List.nodup_append]
      refine ⟨h.once, List.nodup_singleton _, ?_⟩
      intro c hc c' hc' heq
      rcases List.mem_map.1 hc with ⟨x, hx, rfl⟩
      have hcode : x.credential = .recoveryCode id := by
        rw [heq, List.mem_singleton.1 hc']
        rfl
      exact (h.consumed x hx id hcode).2 found hfound hunspent.1 hunspent.2
  | step n =>
    simp only [Account.spend, bind_eq_ok, require_eq_ok, demand_eq_ok, pure_eq_ok] at hspend
    rcases hspend with ⟨row, hrow, -, ⟨hid, hlast⟩, rfl⟩
    -- an older step of this factor is at most its last one, and that is below `n`
    have holder : ∀ p ∈ steps, p.1 = factor → p.2 < n := by
      intro p hp hfactor
      rcases (h.stepped p hp).2 row hrow (hid.trans hfactor.symm) with ⟨last, hmem, hle⟩
      exact Nat.lt_of_le_of_lt hle (hlast last hmem)
    have hlt : factor < a.next := hid ▸ h.factor_lt row hrow
    refine ⟨?_, h.codes_lt, howners, ?_, ?_, ?_, ?_, ?_⟩
    · intro row' hrow'
      cases hrow'
      exact h.factor_lt row hrow
    · intro x hx id' hid'
      rcases List.mem_append.1 hx with hx | hx
      · exact h.consumed x hx id' hid'
      · rw [List.mem_singleton.1 hx] at hid'
        cases hid'
    · intro p hp
      rcases List.mem_append.1 hp with hp | hp
      · refine ⟨(h.stepped p hp).1, ?_⟩
        intro row' hrow' hsame
        cases hrow'
        exact ⟨n, rfl, Nat.le_of_lt (holder p hp (hsame.symm.trans hid))⟩
      · rw [List.mem_singleton.1 hp]
        refine ⟨hlt, ?_⟩
        intro row' hrow' _
        cases hrow'
        exact ⟨n, rfl, Nat.le_refl _⟩
    · intro x hx factor' n' hstep
      rcases List.mem_append.1 hx with hx | hx
      · exact List.mem_append_left _ (h.logged x hx factor' n' hstep)
      · rw [List.mem_singleton.1 hx] at hstep
        cases hstep
        exact List.mem_append_right _ List.mem_cons_self
    · rw [List.pairwise_append]
      refine ⟨h.increasing, List.pairwise_singleton _ _, ?_⟩
      intro p hp q hq hsame
      rw [List.mem_singleton.1 hq] at hsame ⊢
      exact holder p hp hsame
    · rw [List.map_append, List.nodup_append]
      refine ⟨h.once, List.nodup_singleton _, ?_⟩
      intro c hc c' hc' heq
      rcases List.mem_map.1 hc with ⟨x, hx, rfl⟩
      have hstep : x.credential = .step factor n := by
        rw [heq, List.mem_singleton.1 hc']
        rfl
      exact Nat.lt_irrefl n (holder _ (h.logged x hx factor n hstep) rfl)

/-- A route takes the factor and its codes away, and perhaps puts new ones in. -/
theorem Spent.restock (h : Spent a spends steps) {fresh : List (Nat × Nat)}
    (hnext : a.next ≤ a'.next)
    (hcodes : ∀ row ∈ a'.recoveryCodes, a.next ≤ row.id ∧ row.id < a'.next)
    (hfresh : fresh = [] ∧ a'.factor = none ∨ ∃ secret step, fresh = [(a.next, step)] ∧
      a'.factor = some ⟨a.next, secret, some step, 0⟩ ∧ a.next < a'.next) :
    Spent a' spends (steps ++ fresh) := by
  have hfactor : ∀ row ∈ a'.factor, row.id = a.next ∧ a.next < a'.next := by
    intro row hrow
    rcases hfresh with ⟨-, hnone⟩ | ⟨secret, step, -, hsome, hlt⟩
    · rw [hnone] at hrow
      cases hrow
    · rw [hsome] at hrow
      cases hrow
      exact ⟨rfl, hlt⟩
  refine ⟨?_, fun row hrow => (hcodes row hrow).2, ?_, ?_, ?_, ?_, ?_, h.once⟩
  · intro row hrow
    rw [(hfactor row hrow).1]
    exact (hfactor row hrow).2
  · intro x hx owner howner
    exact Nat.lt_of_lt_of_le (h.owner_lt x hx owner howner) hnext
  · intro x hx id hid
    have hlt := (h.consumed x hx id hid).1
    refine ⟨Nat.lt_of_lt_of_le hlt hnext, ?_⟩
    intro row hrow hsame
    have hge := (hcodes row hrow).1
    omega
  · intro p hp
    rcases List.mem_append.1 hp with hp | hp
    · have hlt := (h.stepped p hp).1
      refine ⟨Nat.lt_of_lt_of_le hlt hnext, ?_⟩
      intro row hrow hsame
      have hid := (hfactor row hrow).1
      omega
    · rcases hfresh with ⟨rfl, -⟩ | ⟨secret, step, rfl, hsome, hlt⟩
      · cases hp
      · rw [List.mem_singleton.1 hp]
        refine ⟨hlt, ?_⟩
        intro row hrow _
        rw [hsome] at hrow
        cases hrow
        exact ⟨step, rfl, Nat.le_refl _⟩
  · intro x hx factor n hstep
    exact List.mem_append_left _ (h.logged x hx factor n hstep)
  · rcases hfresh with ⟨rfl, -⟩ | ⟨secret, step, rfl, -⟩
    · simpa using h.increasing
    · rw [List.pairwise_append]
      refine ⟨h.increasing, List.pairwise_singleton _ _, ?_⟩
      intro p hp q hq hsame
      rw [List.mem_singleton.1 hq] at hsame
      exact absurd hsame (Nat.ne_of_lt (h.stepped p hp).1)

/-! ## The routes -/

variable {s t : World}

@[simp] theorem World.put_account (r : Nat) (request : Request) :
    (s.put r request).account = s.account := rfl

@[simp] theorem World.commit_account (a : Account) : (s.commit a).account = a := rfl

@[simp] theorem World.rotated_account (a : Account) (kind : ChangeKind) (principal : Resolved) :
    (s.rotated a kind principal).account = a := rfl

theorem Spent.takeFactor (h : Spent a spends steps) {r : Nat} {factor : AuthFactor} {proof : Proof}
    {now : Time} (htake : a.takeFactor factor proof now = .ok a') :
    a'.factor = none ∧ a'.next = a.next ∧
      Spent a' (spends ++ [⟨r, proof.credential factor.id, a.factorId⟩])
        (steps ++ proof.steps factor.id) := by
  simp only [Account.takeFactor, bind_eq_ok, require_eq_ok, pure_eq_ok] at htake
  rcases htake with ⟨b, hspend, -, -, rfl⟩
  have howner : ∀ o ∈ a.factorId, o < a.next := by
    intro o ho
    rcases Option.map_eq_some_iff.1 ho with ⟨row, hrow, rfl⟩
    exact h.factor_lt row hrow
  have hspent := h.spend (r := r) howner hspend
  refine ⟨rfl, (spend_ok hspend).1, ⟨?_, hspent.codes_lt, hspent.owner_lt, hspent.consumed, ?_,
    hspent.logged, hspent.increasing, hspent.once⟩⟩
  · intro row hrow
    cases hrow
  · intro p hp
    refine ⟨(hspent.stepped p hp).1, ?_⟩
    intro row hrow
    cases hrow

/-- Putting in the new factor and its codes. -/
theorem Spent.enrol {env : Env} (h : Spent a spends steps) {principal : Resolved} {secret : String}
    {codes : List String} {step : Nat} {now : Time}
    (hrotate : Account.rotateAndRevokeOthers
      { a with
        factor := some ⟨a.next, secret, some step, 0⟩
        recoveryCodes := codes.mapIdx fun i code => ⟨a.next + 1 + i, env.codeHash code, none⟩
        next := a.next + 1 + codes.length } principal false now = .ok a') :
    Spent a' spends (steps ++ [(a.next, step)]) := by
  refine Spent.keeps (h.restock ?_ ?_ ?_) (keeps_rotateAndRevokeOthers hrotate).1
  · exact Nat.le_add_right_of_le (Nat.le_succ _)
  · intro row hrow
    rcases List.mem_mapIdx.1 hrow with ⟨i, hi, rfl⟩
    exact ⟨show a.next ≤ a.next + 1 + i by omega,
      show a.next + 1 + i < a.next + 1 + codes.length by omega⟩
  · exact .inr ⟨secret, step, rfl, rfl, show a.next < a.next + 1 + codes.length by omega⟩

theorem Spent.changeFactor (h : Spent s.account spends steps) {r : Nat}
    (hst : step env s (.changeFactor r) = some t) :
    Spent t.account (spends ++ spentBy s (.changeFactor r))
      (steps ++ stepsBy s (.changeFactor r)) := by
  simp only [Accounts.step] at hst
  split at hst
  · next principal secret codes step current replacing hget =>
    split at hst
    · next a hconfirm =>
      cases hst
      simp only [Account.confirmEnrolment, bind_eq_ok, require_eq_ok] at hconfirm
      rcases hconfirm with ⟨b, htake, -, -, hrotate⟩
      cases replacing with
      | none =>
        simp only [Account.takeReplaced, pure_eq_ok] at htake
        subst htake
        have henrol := h.enrol hrotate
        simpa [spentBy, stepsBy, factorSpend, hget] using henrol
      | some replaced =>
        rcases replaced with ⟨factor, proof⟩
        rcases h.takeFactor (r := r) htake with ⟨-, hnext, hspent⟩
        have henrol := hspent.enrol hrotate
        simpa [spentBy, stepsBy, factorSpend, hget, spendOf, hnext] using henrol
    · cases hst
  · next principal code factor proof hget =>
    split at hst
    · next a hremove =>
      cases hst
      rw [Account.removeFactor, bind_eq_ok] at hremove
      rcases hremove with ⟨b, htake, hrotate⟩
      rcases h.takeFactor (r := r) htake with ⟨hnone, -, hspent⟩
      have hempty : Spent { b with recoveryCodes := [] } _ _ :=
        hspent.restock (Nat.le_refl _) (by simp) (.inl ⟨rfl, hnone⟩)
      have hremoved := hempty.keeps (keeps_rotateAndRevokeOthers hrotate).1
      simpa [spentBy, stepsBy, factorSpend, hget, spendOf] using hremoved
    · cases hst
  · cases hst

theorem Spent.winChallenge (h : Spent s.account spends steps) {r : Nat}
    (hst : step env s (.winChallenge r) = some t) :
    Spent t.account (spends ++ spentBy s (.winChallenge r))
      (steps ++ stepsBy s (.winChallenge r)) := by
  simp only [Accounts.step] at hst
  split at hst
  · next challenge rememberMe user factor proof readAt hget =>
    split at hst
    · next a hwin =>
      cases hst
      simp only [Account.winChallenge, bind_eq_ok, require_eq_ok, pure_eq_ok] at hwin
      rcases hwin with ⟨-, -, b, hspend, rfl⟩
      have howner : ∀ o ∈ s.account.factorId, o < s.account.next := by
        intro o ho
        rcases Option.map_eq_some_iff.1 ho with ⟨row, hrow, rfl⟩
        exact h.factor_lt row hrow
      have hclaimed := h.keeps (keeps_spendWhere s.account (·.id == challenge) s.now)
      have hspent := hclaimed.spend (r := r) howner hspend
      -- giving the replacement budget back touches neither id nor step
      have hreset : Keeps b { b with
          factor := b.factor.map fun row =>
            if row.id = factor then { row with replaceAttempts := 0 } else row } := by
        refine ⟨?_, rfl, Nat.le_refl _⟩
        rw [Option.map_map]
        congr 1
        funext row
        simp only [Function.comp_apply]
        split <;> rfl
      have hwon := hspent.keeps hreset
      simpa [spentBy, stepsBy, challengeSpend, hget, spendOf] using hwon
    · cases hst
  · cases hst

/-- A step that spends nothing writes nothing down. -/
theorem spentBy_of_not_spends {l : Action} (hl : l.spends = false) :
    spentBy s l = [] ∧ stepsBy s l = [] := by
  cases l <;> first | exact ⟨rfl, rfl⟩ | cases hl

theorem Spent.step (h : Spent s.account spends steps) {l : Action}
    (hst : Accounts.step env s l = some t) :
    Spent t.account (spends ++ spentBy s l) (steps ++ stepsBy s l) := by
  by_cases hl : l.spends = false
  · rcases spentBy_of_not_spends (s := s) hl with ⟨hspent, hsteps⟩
    rw [hspent, hsteps, List.append_nil, List.append_nil]
    exact h.keeps (step_keeps hl hst)
  · cases l with
    | changeFactor r => exact h.changeFactor hst
    | winChallenge r => exact h.winChallenge hst
    | _ => exact absurd rfl hl

/-! ## Where the requests stand -/

/-- The request a step belongs to. -/
def Action.request : Action → Option Nat
  | .tick _ | .touch _ | .revoke _ | .changeRole _ | .changeState _ | .deleteAccount | .restore
  | .purge => none
  | .deliverReset r _ | .queueReset r | .readForReset r _ | .readForRecovery r _ | .mintLink r
  | .presentLink r _ _ | .complete r | .openCredential r _ _ | .changeCredential r
  | .openEnrolment r _ _ _ _ | .openRemoval r _ _ | .readFactor r | .lookForCode r
  | .chargeAttempt r | .checkLive r | .changeFactor r | .signIn r _ | .mintBehindTheGate r
  | .beginChallenge r | .claimAttempt r _ _ _ | .readChallenged r | .matchCode r
  | .winChallenge r => some r

theorem step_requests_of_ne {l : Action} {r : Nat} (hl : l.request ≠ some r)
    (hst : Accounts.step env s l = some t) : t.requests.get r = s.requests.get r := by
  have hput : ∀ {r' : Nat} {request : Request}, some r' ≠ some r →
      (s.requests.set r' request).get r = s.requests.get r := by
    intro r' request hne
    exact Table.get_set_of_ne _ _ fun heq => hne (congrArg some heq.symm)
  cases l <;> simp only [Accounts.step] at hst <;> (repeat' split at hst) <;>
    first
      | (cases hst; done)
      | (cases hst; rfl)
      | (cases hst; exact hput hl)
      | (rcases Option.map_eq_some_iff.1 hst with ⟨_, -, rfl⟩; rfl)
      | (rcases Option.map_eq_some_iff.1 hst with ⟨_, -, rfl⟩; exact hput hl)

/-- A request that is over takes no step, and a sign-in that has proved what it has to
takes one: its minting. -/
theorem step_waiting {l : Action} {r : Nat} {request : Request}
    (hget : s.requests.get r = some request)
    (hrequest : request = .done ∨ ∃ door user rememberMe readAt proved,
      request = .signingIn door user rememberMe readAt proved)
    (hl : l.request = some r) (hst : Accounts.step env s l = some t) :
    l.opened = some r ∨ l = .mintBehindTheGate r ∧ request ≠ .done := by
  rcases hrequest with rfl | ⟨door, user, rememberMe, readAt, proved, rfl⟩
  · cases l <;> cases hl <;> first
      | exact .inl rfl
      | simp [Accounts.step, hget] at hst
  · cases l <;> cases hl <;> first
      | exact .inl rfl
      | exact .inr ⟨rfl, by simp⟩
      | simp [Accounts.step, hget] at hst

/-! ## Runs -/

variable {x y : Audit}

/-- The request of a spend has yet to mint its session. -/
def Audit.minting (x : Audit) (spend : Spend) : Prop :=
  ∃ user rememberMe readAt factor at',
    x.world.requests.get spend.request =
      some (.signingIn .challenge user rememberMe readAt (some (factor, at')))

/-- The factor it belongs to is gone. -/
def Audit.ownerGone (x : Audit) (spend : Spend) : Prop :=
  ∀ row ∈ x.world.account.factor, spend.owner ≠ some row.id

/-- Each recovery code and each step of a factor authorises one effect at most. -/
def Audit.OneEffect (x : Audit) : Prop := (x.effects.map Spend.credential).Nodup

/-- The steps of one factor row increase. -/
def Audit.StepsIncrease (x : Audit) : Prop :=
  x.steps.Pairwise fun p q => p.1 = q.1 → p.2 < q.2

/-- Whatever is spent has had its effect, is about to have it, or belonged to a factor that
is gone. -/
def Audit.SpentForEffect (x : Audit) : Prop :=
  ∀ spend ∈ x.spends, spend ∈ x.effects ∨ x.minting spend ∨ x.ownerGone spend

structure AuditInv (x : Audit) : Prop where
  spent : Spent x.world.account x.spends x.steps
  stands : ∀ spend ∈ x.spends,
    x.world.requests.get spend.request = some .done ∨ x.minting spend
  subset : x.effects ⊆ x.spends
  nodup : x.effects.Nodup
  ended : ∀ spend ∈ x.effects, x.world.requests.get spend.request = some .done

/-- A request that is over, or only has to mint, stays where it is until it mints. -/
theorem act_waiting {l : Action} (hst : auditStep env x (.act l) = some y) {r : Nat}
    {request : Request} (hget : x.world.requests.get r = some request)
    (hrequest : request = .done ∨ ∃ door user rememberMe readAt proved,
      request = .signingIn door user rememberMe readAt proved) :
    y.world.requests.get r = some request ∨ l = .mintBehindTheGate r ∧ request ≠ .done := by
  simp only [auditStep] at hst
  split at hst
  · cases hst
  · next hopened =>
    rcases Option.map_eq_some_iff.1 hst with ⟨w, hw, rfl⟩
    by_cases hl : l.request = some r
    · rcases step_waiting hget hrequest hl hw with hopen | hmint
      · rw [hopen] at hopened
        simp [hget] at hopened
      · exact .inr hmint
    · exact .inl ((step_requests_of_ne hl hw).trans hget)

/-- After its minting, a challenge's request is over, whether or not it got a session. -/
theorem mint_over {r : Nat} {user : User} {rememberMe : Bool} {readAt : Nat}
    {proved : Option (Nat × Nat)}
    (hget : s.requests.get r = some (.signingIn .challenge user rememberMe readAt proved))
    (hst : Accounts.step env s (.mintBehindTheGate r) = some t) :
    t.requests.get r = some .done := by
  simp only [Accounts.step, hget] at hst
  split at hst
  · cases hst
    simp [World.put]
  · cases hst
    simp [World.put]

/-- Where a step leaves the request whose proof it spends. -/
theorem spentBy_stands {l : Action} (hst : Accounts.step env s l = some t) {spend : Spend}
    (hspend : spend ∈ spentBy s l) :
    (∃ r, l = .changeFactor r ∧ spend.request = r ∧ t.requests.get r = some .done) ∨
      ∃ r challenge rememberMe user factor proof readAt, l = .winChallenge r ∧
        s.requests.get r = some (.matched challenge rememberMe user factor proof readAt) ∧
        spend = spendOf s r factor proof ∧
        t.requests.get r =
          some (.signingIn .challenge user rememberMe readAt (some (factor, readAt))) := by
  cases l with
  | changeFactor r =>
    have hrequest : spend.request = r := by
      simp only [spentBy, Option.mem_toList, Option.map_eq_some_iff] at hspend
      rcases hspend with ⟨⟨factor, proof⟩, -, rfl⟩
      rfl
    refine .inl ⟨r, rfl, hrequest, ?_⟩
    simp only [Accounts.step] at hst
    split at hst
    · split at hst
      · cases hst
        simp [World.put]
      · cases hst
    · split at hst
      · cases hst
        simp [World.put]
      · cases hst
    · cases hst
  | winChallenge r =>
    simp only [Accounts.step] at hst
    split at hst
    · next challenge rememberMe user factor proof readAt hget =>
      split at hst
      · cases hst
        refine .inr ⟨r, challenge, rememberMe, user, factor, proof, readAt, rfl, hget, ?_, ?_⟩
        · simpa [spentBy, challengeSpend, hget] using hspend
        · simp [World.put]
      · cases hst
    · cases hst
  | _ => cases hspend

theorem mem_spentBy_request {l : Action} {spend : Spend} (h : spend ∈ spentBy s l) :
    l.request = some spend.request ∧ s.requests.get spend.request ≠ some .done := by
  cases l with
  | changeFactor r =>
    simp only [spentBy, Option.mem_toList, Option.map_eq_some_iff] at h
    rcases h with ⟨⟨factor, proof⟩, hspend, rfl⟩
    refine ⟨rfl, ?_⟩
    intro hdone
    have hget : s.requests.get r = some .done := hdone
    simp [factorSpend, hget] at hspend
  | winChallenge r =>
    simp only [spentBy, Option.mem_toList, Option.map_eq_some_iff] at h
    rcases h with ⟨⟨factor, proof⟩, hspend, rfl⟩
    refine ⟨rfl, ?_⟩
    intro hdone
    have hget : s.requests.get r = some .done := hdone
    simp [challengeSpend, hget] at hspend
  | _ => cases h

theorem mintsFor_eq_true {r : Nat} (h : mintsFor s r = true) :
    ∃ user rememberMe readAt proved,
      s.requests.get r = some (.signingIn .challenge user rememberMe readAt proved) ∧
        (s.account.mintBehindTheGate user rememberMe (proved.map (·.1)) s.now).isSome = true := by
  unfold mintsFor at h
  split at h
  · next user rememberMe readAt proved hget => exact ⟨user, rememberMe, readAt, proved, hget, h⟩
  · cases h

/-- An effect is one of a request that was not over before the step and is after it. -/
theorem effectsBy_over {l : Action} (hst : Accounts.step env x.world l = some t) {spend : Spend}
    (h : spend ∈ effectsBy x l) :
    x.world.requests.get spend.request ≠ some .done ∧
      t.requests.get spend.request = some .done ∧ spend ∈ x.spends ++ spentBy x.world l := by
  cases l with
  | changeFactor r =>
    have hspent : spend ∈ spentBy x.world (.changeFactor r) := h
    rcases spentBy_stands hst hspent with ⟨r', heq, hrequest, hdone⟩ | ⟨r', _, _, _, _, _, _, heq, -⟩
    · exact ⟨(mem_spentBy_request hspent).2, hrequest ▸ hdone, List.mem_append_right _ hspent⟩
    · cases heq
  | mintBehindTheGate r =>
    simp only [effectsBy] at h
    split at h
    · next hmints =>
      rcases List.mem_filter.1 h with ⟨hmem, hrequest⟩
      have hr : spend.request = r := of_decide_eq_true hrequest
      rcases mintsFor_eq_true hmints with ⟨user, rememberMe, readAt, proved, hget, -⟩
      rw [hr]
      exact ⟨by simp [hget], mint_over hget hst, List.mem_append_left _ hmem⟩
    · cases h
  | _ => cases h

theorem effectsBy_nodup {l : Action} (hspends : x.spends.Nodup) : (effectsBy x l).Nodup := by
  cases l with
  | changeFactor r =>
    simp only [effectsBy, spentBy]
    cases (factorSpend x.world r).1 <;> simp
  | mintBehindTheGate r =>
    simp only [effectsBy]
    split
    · exact hspends.filter _
    · exact List.nodup_nil
  | _ => exact List.nodup_nil

theorem AuditInv.act (h : AuditInv x) {l : Action} (hst : auditStep env x (.act l) = some y) :
    AuditInv y := by
  have hwaiting := @act_waiting env x y l hst
  simp only [auditStep] at hst
  split at hst
  · cases hst
  · rcases Option.map_eq_some_iff.1 hst with ⟨w, hw, rfl⟩
    have hdone : ∀ r, x.world.requests.get r = some .done → w.requests.get r = some .done := by
      intro r hr
      rcases hwaiting hr (.inl rfl) with hsame | ⟨-, hne⟩
      · exact hsame
      · exact absurd rfl hne
    refine ⟨h.spent.step hw, ?_, ?_, ?_, ?_⟩
    · intro spend hspend
      rcases List.mem_append.1 hspend with hspend | hspend
      · rcases h.stands spend hspend with hover | ⟨user, rememberMe, readAt, factor, at', hget⟩
        · exact .inl (hdone _ hover)
        · rcases hwaiting hget (.inr ⟨_, _, _, _, _, rfl⟩) with hsame | ⟨rfl, -⟩
          · exact .inr ⟨user, rememberMe, readAt, factor, at', hsame⟩
          · exact .inl (mint_over hget hw)
      · rcases spentBy_stands hw hspend with ⟨r, -, rfl, hover⟩ |
          ⟨r, _, rememberMe, user, factor, proof, readAt, -, -, rfl, hget⟩
        · exact .inl hover
        · exact .inr ⟨user, rememberMe, readAt, factor, readAt, hget⟩
    · intro spend hspend
      rcases List.mem_append.1 hspend with hspend | hspend
      · exact List.mem_append_left _ (h.subset hspend)
      · exact (effectsBy_over hw hspend).2.2
    · rw [List.nodup_append]
      refine ⟨h.nodup, effectsBy_nodup (List.Nodup.of_map _ h.spent.once), ?_⟩
      intro spend hspend spend' hspend' heq
      exact (effectsBy_over hw hspend').1 (heq ▸ h.ended spend hspend)
    · intro spend hspend
      rcases List.mem_append.1 hspend with hspend | hspend
      · exact hdone _ (h.ended spend hspend)
      · exact (effectsBy_over hw hspend).2.1

theorem AuditInv.fail (h : AuditInv x) {r : Nat} (hst : auditStep env x (.fail r) = some y) :
    AuditInv y := by
  simp only [auditStep] at hst
  split at hst
  · cases hst
    have hget : ∀ r', (x.world.put r .done).requests.get r' =
        if r' = r then some .done else x.world.requests.get r' := by
      intro r'
      rw [World.put, Table.get_set]
    refine ⟨h.spent, ?_, h.subset, h.nodup, ?_⟩
    · intro spend hspend
      unfold Audit.minting
      simp only [hget]
      by_cases hr : spend.request = r
      · simp [hr]
      · simp only [if_neg hr]
        exact h.stands spend hspend
    · intro spend hspend
      simp only [hget]
      split
      · rfl
      · exact h.ended spend hspend
  · cases hst

theorem AuditInv.init (h : (auditMachine env).init x) : AuditInv x := by
  rcases h with ⟨hfactor, hcodes, -, hspends, heffects, hsteps⟩
  refine ⟨⟨hfactor, hcodes, ?_, ?_, ?_, ?_, ?_, ?_⟩, ?_, ?_, ?_, ?_⟩ <;>
    simp [hspends, heffects, hsteps]

theorem auditInv_reach {ok : Audit → Event → Prop} (hx : (auditMachine env).Reach ok x) :
    AuditInv x := by
  refine hx.invariant ?_ ?_
  · intro s hs
    exact AuditInv.init hs
  · intro s e t hs _ hst
    cases e with
    | act l => exact hs.act hst
    | fail r =>
      have hfail : auditStep env s (.fail r) = some t := hst
      exact hs.fail hfail

/-! ## When a spent proof has its effect -/

/-- No challenge that has spent its proof fails before its minting while the factor it
proved is there, and none spends a recovery code of another factor than it read. -/
def mintsProof (x : Audit) : Event → Prop
  | .fail r => ∀ user rememberMe readAt factor at',
      x.world.requests.get r =
        some (.signingIn .challenge user rememberMe readAt (some (factor, at'))) →
          x.world.account.factorId ≠ some factor
  | .act (.winChallenge r) => ∀ challenge rememberMe user factor id readAt,
      x.world.requests.get r =
        some (.matched challenge rememberMe user factor (.recoveryCode id) readAt) →
          x.world.account.factorId = some factor
  | .act _ => True

/-- A spend has had its effect, its factor is gone, or its request is to mint for that
factor. -/
def Audit.Kept (x : Audit) : Prop :=
  ∀ spend ∈ x.spends, spend ∈ x.effects ∨ x.ownerGone spend ∨
    ∃ user rememberMe readAt factor at',
      x.world.requests.get spend.request =
        some (.signingIn .challenge user rememberMe readAt (some (factor, at'))) ∧
      spend.owner = some factor

/-- A factor that stands after a step stood before it or is new. -/
theorem step_factor {l : Action} (hst : Accounts.step env s l = some t) :
    ∀ row ∈ t.account.factor,
      (∃ old ∈ s.account.factor, old.id = row.id) ∨ row.id = s.account.next := by
  intro row hrow
  have hrowId : t.account.factorId = some row.id :=
    congrArg (Option.map AuthFactor.id) (Option.mem_def.1 hrow)
  have hold : t.account.factorId = s.account.factorId →
      ∃ old ∈ s.account.factor, old.id = row.id := by
    intro hsame
    have hid : s.account.factorId = some row.id := hsame ▸ hrowId
    rcases Option.map_eq_some_iff.1 hid with ⟨old, hmem, hid⟩
    exact ⟨old, hmem, hid⟩
  by_cases hl : l.spends = false
  · have hpairs := congrArg (Option.map Prod.fst) (step_keeps hl hst).factor
    rw [Option.map_map, Option.map_map] at hpairs
    exact .inl (hold hpairs)
  · cases l with
    | changeFactor r =>
      simp only [Accounts.step] at hst
      split at hst
      · split at hst
        · next hconfirm =>
          cases hst
          have hid := (confirmEnrolment_ok hconfirm).2.2.1
          exact .inr (Option.some.inj (hrowId.symm.trans hid))
        · cases hst
      · split at hst
        · next hremove =>
          cases hst
          have hid := (removeFactor_ok hremove).2.2
          cases hrowId.symm.trans hid
        · cases hst
      · cases hst
    | winChallenge r =>
      simp only [Accounts.step] at hst
      split at hst
      · split at hst
        · next hwin =>
          cases hst
          exact .inl (hold (winChallenge_ok hwin).2.2)
        · cases hst
      · cases hst
    | _ => exact absurd rfl hl

/-- Spending a step takes the factor it belongs to. -/
theorem winChallenge_step_owner {challenge factor n : Nat} {now : Time}
    (h : a.winChallenge challenge factor (.step n) now = .ok a') : a.factorId = some factor := by
  simp only [Account.winChallenge, Account.spend, bind_eq_ok, require_eq_ok, demand_eq_ok,
    pure_eq_ok] at h
  rcases h with ⟨-, -, b, ⟨row, hrow, -, ⟨hid, -⟩, -⟩, -⟩
  have hfactor : a.factor = some row := hrow
  simp [Account.factorId, hfactor, hid]

theorem Audit.Kept.act (h : x.Kept) (hinv : AuditInv x) {l : Action} (hok : mintsProof x (.act l))
    (hst : auditStep env x (.act l) = some y) : y.Kept := by
  have hwaiting := @act_waiting env x y l hst
  simp only [auditStep] at hst
  split at hst
  · cases hst
  · rcases Option.map_eq_some_iff.1 hst with ⟨w, hw, rfl⟩
    have hgone : ∀ spend ∈ x.spends, x.ownerGone spend →
        ∀ row ∈ w.account.factor, spend.owner ≠ some row.id := by
      intro spend hspend hgone row hrow howner
      rcases step_factor hw row hrow with ⟨old, hold, hid⟩ | hnew
      · exact hgone old hold (hid ▸ howner)
      · have hlt := hinv.spent.owner_lt spend hspend row.id howner
        omega
    intro spend hspend
    rcases List.mem_append.1 hspend with hmem | hmem
    · rcases h spend hmem with heffect | hnone | ⟨user, rememberMe, readAt, factor, at', hget, howner⟩
      · exact .inl (List.mem_append_left _ heffect)
      · exact .inr (.inl (hgone spend hmem hnone))
      · rcases hwaiting hget (.inr ⟨_, _, _, _, _, rfl⟩) with hsame | ⟨rfl, -⟩
        · exact .inr (.inr ⟨user, rememberMe, readAt, factor, at', hsame, howner⟩)
        · -- the gate is open for the factor it proved, or that factor is gone
          by_cases hmints : mintsFor x.world spend.request = true
          · refine .inl (List.mem_append_right _ ?_)
            simp [effectsBy, hmints, hmem]
          · refine .inr (.inl (hgone spend hmem ?_))
            intro row hrow heq
            rw [howner] at heq
            have hclosed : x.world.account.factor.map AuthFactor.id ≠ some factor := by
              simpa [mintsFor, hget, Account.mintBehindTheGate, Account.enrolledFactor] using hmints
            rw [Option.mem_def.1 hrow] at hclosed
            exact hclosed (by simpa using heq.symm)
    · rcases spentBy_stands hw hmem with ⟨r, rfl, -, -⟩ |
        ⟨r, challenge, rememberMe, user, factor, proof, readAt, rfl, hget, rfl, hafter⟩
      · exact .inl (List.mem_append_right _ hmem)
      · refine .inr (.inr ⟨user, rememberMe, readAt, factor, readAt, hafter, ?_⟩)
        cases proof with
        | recoveryCode id => exact hok challenge rememberMe user factor id readAt hget
        | step n =>
          simp only [Accounts.step, hget] at hw
          split at hw
          · next hwin => exact winChallenge_step_owner hwin
          · cases hw

theorem Audit.Kept.fail (h : x.Kept) {r : Nat} (hok : mintsProof x (.fail r))
    (hst : auditStep env x (.fail r) = some y) : y.Kept := by
  simp only [auditStep] at hst
  split at hst
  · cases hst
    intro spend hspend
    rcases h spend hspend with heffect | hgone | ⟨user, rememberMe, readAt, factor, at', hget, howner⟩
    · exact .inl heffect
    · exact .inr (.inl hgone)
    · by_cases hr : spend.request = r
      · refine .inr (.inl ?_)
        intro row hrow heq
        have hstands := hok user rememberMe readAt factor at' (hr ▸ hget)
        refine hstands ?_
        rw [howner] at heq
        have hfactor : x.world.account.factor = some row := hrow
        rw [Account.factorId, hfactor, heq]
        rfl
      · refine .inr (.inr ⟨user, rememberMe, readAt, factor, at', ?_, howner⟩)
        simpa [World.put, Table.get_set_of_ne _ _ hr] using hget
  · cases hst

theorem kept_reach (hx : (auditMachine env).Reach mintsProof x) : x.Kept := by
  refine hx.invariant_of (fun s hs => auditInv_reach hs) ?_ ?_
  · rintro s ⟨-, -, -, hspends, -⟩ spend hspend
    rw [hspends] at hspend
    cases hspend
  · intro s e t hinv hs hok hst
    cases e with
    | act l => exact hs.act hinv hok hst
    | fail r =>
      have hfail : auditStep env s (.fail r) = some t := hst
      exact hs.fail hok hfail

/-- Each credential has one effect at most and the steps of a factor increase, in every
run; and where every challenge that has spent its proof goes on to mint, nothing is spent
for nothing. -/
theorem proof_spent_for_effect (hx : (auditMachine env).Reach Machine.anyStep x) :
    x.OneEffect ∧ x.StepsIncrease ∧
      ((auditMachine env).Reach mintsProof x → x.SpentForEffect) := by
  have hinv := auditInv_reach hx
  refine ⟨?_, hinv.spent.increasing, ?_⟩
  · refine hinv.nodup.map_on ?_
    intro spend hspend spend' hspend' heq
    exact List.inj_on_of_nodup_map hinv.spent.once (hinv.subset hspend) (hinv.subset hspend') heq
  · intro hkept spend hspend
    rcases kept_reach hkept spend hspend with
      heffect | hgone | ⟨user, rememberMe, readAt, factor, at', hget, -⟩
    · exact .inl heffect
    · exact .inr (.inr hgone)
    · exact .inr (.inl ⟨user, rememberMe, readAt, factor, at', hget⟩)

/-! ## Two sign-ins with a recovery code -/

/-- An account with a factor, a recovery code and an outstanding challenge. -/
def sampleEnrolled : Audit where
  world :=
    { sampleWorld .active with
      account :=
        { (sampleWorld .active).account with
          factor := some ⟨2, "secret", none, 0⟩
          recoveryCodes := [⟨3, "code", none⟩]
          tokens := [⟨4, .challenge, 5, 0, 600, none⟩]
          next := 6 } }
  spends := []
  effects := []
  steps := []

theorem sampleEnrolled_init : (auditMachine sampleEnv).init sampleEnrolled := by
  refine ⟨?_, ?_, rfl, rfl, rfl, rfl⟩
  · intro row hrow
    cases hrow
    decide
  · intro row hrow
    rw [List.mem_singleton.1 hrow]
    decide

/-- Request 1 answers the challenge with the code, up to the commit that spends it. -/
def sampleAnswer : List Event :=
  [.act (.claimAttempt 1 5 "code" false), .act (.readChallenged 1), .act (.matchCode 1),
    .act (.winChallenge 1)]

/-- Where a schedule leads from the enrolled account. -/
def auditAfter (schedule : List Event) : Audit :=
  ((auditMachine sampleEnv).run sampleEnrolled schedule).getD sampleEnrolled

def sampleMinted : Audit := auditAfter (sampleAnswer ++ [.act (.mintBehindTheGate 1)])

theorem sampleMinted_run :
    (auditMachine sampleEnv).run sampleEnrolled (sampleAnswer ++ [.act (.mintBehindTheGate 1)]) =
      some sampleMinted := rfl

theorem sampleMinted_reach : (auditMachine sampleEnv).Reach mintsProof sampleMinted := by
  refine (Machine.Reach.of_init sampleEnrolled_init).path
    (Machine.path_of_run sampleMinted_run ?_)
  refine ⟨trivial, fun s₁ h₁ => ⟨trivial, fun s₂ h₂ => ⟨trivial, fun s₃ h₃ => ⟨?_, fun _ _ =>
    ⟨trivial, fun _ _ => trivial⟩⟩⟩⟩⟩
  cases h₁
  cases h₂
  cases h₃
  intro challenge rememberMe user factor id readAt hget
  cases hget
  rfl

theorem proof_spent_for_effect_sample :
    sampleMinted.spends = [⟨1, .recoveryCode 3, some 2⟩] ∧ sampleMinted.OneEffect ∧
      sampleMinted.SpentForEffect := by
  have hany : (auditMachine sampleEnv).Reach Machine.anyStep sampleMinted :=
    sampleMinted_reach.mono fun _ _ _ => trivial
  have hproof := proof_spent_for_effect hany
  exact ⟨rfl, hproof.1, hproof.2.2 sampleMinted_reach⟩

/-- The recovery code is spent, the account key is busy, and no session is minted: the
code is gone and its factor stands. -/
theorem code_spent_for_nothing :
    ¬ ∀ (env : Env) (x : Audit), (auditMachine env).Reach Machine.anyStep x →
      x.OneEffect ∧ x.StepsIncrease ∧ x.SpentForEffect := by
  intro hall
  have hrun : (auditMachine sampleEnv).run sampleEnrolled (sampleAnswer ++ [.fail 1]) =
      some (auditAfter (sampleAnswer ++ [.fail 1])) := rfl
  have hreach := (Machine.Reach.of_init sampleEnrolled_init).path
    (Machine.path_of_run_any hrun)
  rcases (hall _ _ hreach).2.2 ⟨1, .recoveryCode 3, some 2⟩ List.mem_cons_self with
    heffect | ⟨_, _, _, _, _, hget⟩ | hgone
  · cases heffect
  · cases hget
  · exact hgone _ rfl rfl

end Potocolom.Accounts
