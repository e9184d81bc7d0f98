import Potocolom.Limits.Windows

/-! # Who holds which row

A call holds the rows it charged until it ends, so what it read of them stays true. From
that, every statement keeps the windows right, as long as `delay_for` answers. -/

namespace Potocolom.Limits

variable {D : Type*}

/-- A row held by call `r`, as its charge and its turn left it. -/
structure Holds (row : Row Nat (Option LoginAttempt)) (r : Nat) (charge : Charge)
    (turn : Option Time) : Prop where
  held : ∃ version, row.held = some (r, some version) ∧ version.attempts = charge.attempts ∧
    version.notBefore = turn.or (charge.base row.committed)
  counts : charge.Counts row.committed

/-- The charges of a sign-in that was not refused. -/
def Admitted (charges : Charges D) : Prop :=
  charges = [] ∨ ∃ subject charge,
    charges = [(⟨.identifier, subject⟩, charge)] ∧ charge.attempts ≤ identifierLimit

/-- What the charges, the turn and the answer of a call have to do with each other. -/
def Settles (rows : Key D → Row Nat (Option LoginAttempt)) (charges : Charges D)
    (turn : Option Time) (answer : Answer) : Prop :=
  (∃ subject charge, charges = [(⟨.identifier, subject⟩, charge)] ∧ turn = none ∧
    ((answer = .refused ∧ identifierLimit < charge.attempts) ∨
      (∃ wait, answer = .accepted wait ∧ wait ≤ maxQueue ∧ charge.attempts ≤ identifierLimit))) ∨
  (∃ front peer charge, charges = front ++ [(⟨.address, peer⟩, charge)] ∧ Admitted front ∧
    ((turn = none ∧ answer = .busy ∧ charge.fresh = false) ∨
      ∃ t wait, turn = some t ∧ answer = .accepted wait ∧ wait ≤ maxQueue ∧
        ∀ t₀, charge.base (rows ⟨.address, peer⟩).committed = some t₀ →
          ∃ delay, delayFor charge.attempts = some delay ∧ t₀ + delay ≤ t))

/-- The deepest attempt `delay_for` answers. -/
def deepest : Nat := maxExponent + freeAttempts + 1

/-- What is so of a call, given the rows. -/
def CallOk (rows : Key D → Row Nat (Option LoginAttempt)) : Call D → Prop
  | .queueing charges _ => Admitted charges
  | .addressing charges _ _ => Admitted charges
  | .reserving charges peer attempts taken => ∃ front charge,
      charges = front ++ [(⟨.address, peer⟩, charge)] ∧ Admitted front ∧
        charge.attempts = attempts ∧ attempts ≤ deepest ∧
        taken = charge.base (rows ⟨.address, peer⟩).committed
  | .committing charges turn answer => Settles rows charges turn answer
  | .idle => True
  | .login _ _ => True
  | .identifying _ _ _ => True
  | .answered _ => True
  | .failed => True

structure Inv (w : World D) : Prop where
  calls : ∀ r, CallOk w.rows (w.calls r)
  holds : ∀ r key charge, (key, charge) ∈ (w.calls r).charges →
    Holds (w.rows key) r charge ((w.calls r).turnAt key)
  held : ∀ key r version, (w.rows key).held = some (r, version) →
    ∃ charge, (key, charge) ∈ (w.calls r).charges
  history : ∀ key, RowOk key.scope (w.rows key).committed (w.history key)

variable {w w' : World D} {r : Nat}

theorem start_inv : Inv (start : World D) := by
  constructor
  · intro r
    trivial
  · intro r key charge h
    cases h
  · intro key r version h
    cases h
  · intro key
    constructor
    · intro entries h
      cases h
    · intro row h
      cases h

/-- What is so of a call depends on the committed versions of the rows it holds. -/
theorem CallOk.frame {rows rows' : Key D → Row Nat (Option LoginAttempt)} {call : Call D}
    (h : CallOk rows call)
    (hrows : ∀ key charge, (key, charge) ∈ call.charges →
      (rows' key).committed = (rows key).committed) : CallOk rows' call := by
  cases call with
  | queueing charges peer => exact h
  | addressing charges peer now => exact h
  | reserving charges peer attempts taken =>
    obtain ⟨front, charge, hcharges, hfront, hattempts, hdeep, htaken⟩ := h
    refine ⟨front, charge, hcharges, hfront, hattempts, hdeep, ?_⟩
    rw [hrows ⟨.address, peer⟩ charge (by simp [Call.charges, hcharges])]
    exact htaken
  | committing charges turn answer =>
    rcases h with h | ⟨front, peer, charge, hcharges, hfront, h⟩
    · exact .inl h
    · refine .inr ⟨front, peer, charge, hcharges, hfront, ?_⟩
      rw [hrows ⟨.address, peer⟩ charge (by simp [Call.charges, hcharges])]
      exact h
  | idle => trivial
  | login subject peer => trivial
  | identifying subject peer now => trivial
  | answered answer => trivial
  | failed => trivial

/-- A step of call `r` that leaves the rows of every other call alone. -/
theorem Inv.put (h : Inv w) {rows : Key D → Row Nat (Option LoginAttempt)} {now : Time}
    {history : Key D → History} {call : Call D}
    (hothers : ∀ r' key charge, r' ≠ r → (key, charge) ∈ (w.calls r').charges →
      rows key = w.rows key)
    (hcall : CallOk rows call)
    (hholds : ∀ key charge, (key, charge) ∈ call.charges → Holds (rows key) r charge (call.turnAt key))
    (hheld : ∀ key r' version, (rows key).held = some (r', version) →
      (r' ≠ r ∧ (w.rows key).held = some (r', version)) ∨
        (r' = r ∧ ∃ charge, (key, charge) ∈ call.charges))
    (hhistory : ∀ key, RowOk key.scope (rows key).committed (history key)) :
    Inv ⟨rows, Function.update w.calls r call, now, history⟩ := by
  constructor <;> dsimp only
  · intro r'
    by_cases hr : r' = r
    · subst hr
      rwa [Function.update_self]
    · rw [Function.update_of_ne hr]
      refine (h.calls r').frame fun key charge hmem => ?_
      rw [hothers r' key charge hr hmem]
  · intro r' key charge hmem
    by_cases hr : r' = r
    · subst hr
      rw [Function.update_self] at hmem ⊢
      exact hholds key charge hmem
    · rw [Function.update_of_ne hr] at hmem ⊢
      rw [hothers r' key charge hr hmem]
      exact h.holds r' key charge hmem
  · intro key r' version hrow
    rcases hheld key r' version hrow with ⟨hr, hold⟩ | ⟨rfl, hmem⟩
    · rw [Function.update_of_ne hr]
      exact h.held key r' version hold
    · rw [Function.update_self]
      exact hmem
  · exact hhistory

/-! ## Statements -/

/-- A row that is not locked from a call that does not hold it is free. -/
theorem Inv.free (h : Inv w) {key : Key D} (hlocked : (w.rows key).lockedFrom r = false)
    (hnot : ∀ charge, (key, charge) ∉ (w.calls r).charges) : (w.rows key).held = none := by
  cases hheld : (w.rows key).held with
  | none => rfl
  | some held =>
    obtain ⟨holder, version⟩ := held
    have hholder : holder = r := by simpa [Row.lockedFrom, hheld] using hlocked
    subst hholder
    obtain ⟨charge, hmem⟩ := h.held key holder version hheld
    exact absurd hmem (hnot charge)

theorem write_free {row : Row Nat (Option LoginAttempt)} (hfree : row.held = none)
    (f : Option LoginAttempt → Option LoginAttempt) :
    row.write r (fun _ => true) f = ⟨row.committed, some (r, f row.committed)⟩ := by
  simp [Row.write, Row.seen, hfree]

theorem write_held {row : Row Nat (Option LoginAttempt)} {version : Option LoginAttempt}
    (hheld : row.held = some (r, version)) (f : Option LoginAttempt → Option LoginAttempt) :
    row.write r (fun _ => true) f = ⟨row.committed, some (r, f version)⟩ := by
  simp [Row.write, Row.seen, hheld]

/-- What `_charge` says of the row it found. -/
theorem charged_counts (now : Time) (seen : Option LoginAttempt) :
    Charge.Counts ⟨startsWindow now seen, (charged now seen).attempts⟩ seen ∧
      (charged now seen).notBefore =
        Charge.base ⟨startsWindow now seen, (charged now seen).attempts⟩ seen := by
  cases seen with
  | none =>
    refine ⟨⟨fun _ => rfl, ?_⟩, rfl⟩
    intro hfresh
    cases hfresh
  | some row =>
    by_cases hexpired : row.expiresAt ≤ now
    · refine ⟨⟨fun _ => by simp [charged, hexpired], ?_⟩, ?_⟩
      · intro hfresh
        simp [startsWindow, hexpired] at hfresh
      · simp [charged, Charge.base, startsWindow, hexpired]
    · refine ⟨⟨?_, fun _ => ⟨row, rfl, by simp [charged, hexpired]⟩⟩, ?_⟩
      · intro hfresh
        simp [startsWindow, hexpired] at hfresh
      · simp [charged, Charge.base, startsWindow, hexpired]

/-- Two calls hold different rows. -/
theorem Inv.holder_unique (h : Inv w) {r' : Nat} {key : Key D} {charge : Charge} {holder : Nat}
    {version : Option LoginAttempt} (hmem : (key, charge) ∈ (w.calls r').charges)
    (hheld : (w.rows key).held = some (holder, version)) : holder = r' := by
  obtain ⟨v, hv, -⟩ := (h.holds r' key charge hmem).held
  rw [hheld] at hv
  cases hv
  rfl

theorem Admitted.identifier {charges : Charges D} (h : Admitted charges) {key : Key D}
    {charge : Charge} (hmem : (key, charge) ∈ charges) : key.scope = .identifier := by
  rcases h with rfl | ⟨subject, charge', rfl, -⟩
  · cases hmem
  · rw [List.mem_singleton] at hmem
    cases hmem
    rfl

/-- An identifier that is not refused has a short delay. -/
theorem delayFor_le {attempts : Nat} {delay : Time} (h : delayFor attempts = some delay) :
    delay ≤ maxDelay := by
  unfold delayFor at h
  split at h
  · cases h
    exact Nat.zero_le _
  · dsimp only at h
    split at h
    · cases h
      exact Nat.min_le_left _ _
    · cases h

theorem delayFor_getD_le (attempts : Nat) : (delayFor attempts).getD 0 ≤ maxDelay := by
  cases h : delayFor attempts with
  | none => exact Nat.zero_le _
  | some delay => exact delayFor_le h

theorem delayFor_deepest {attempts : Nat} (h : attempts ≤ deepest) : delayFor attempts ≠ none := by
  unfold delayFor
  split
  · simp
  · dsimp only
    rw [if_pos]
    · simp
    · unfold deepest at h
      omega

theorem holdFor_le {charges : Charges D} {queued : Time} (h : queued ≤ maxQueue) :
    holdFor charges queued ≤ maxQueue := by
  unfold holdFor
  split
  · have hdelay : maxDelay ≤ maxQueue := by decide
    exact Nat.max_le.2 ⟨(delayFor_getD_le _).trans hdelay, h⟩
  · exact h

variable [DecidableEq D]

/-- `_charge` on a row that is free. -/
theorem Inv.charge (h : Inv w) {key : Key D} {now : Time} {call : Call D}
    (hfree : (w.rows key).held = none) (hnew : ∀ charge, (key, charge) ∉ (w.calls r).charges)
    (hcharges : call.charges = (w.calls r).charges ++
      [(key, ⟨startsWindow now (w.rows key).committed,
        (charged now (w.rows key).committed).attempts⟩)])
    (hturn : ∀ key, call.turnAt key = none) (hturn' : ∀ key, (w.calls r).turnAt key = none)
    (hcall : CallOk w.rows call) :
    Inv ((w.write r key fun _ => some (charged now (w.rows key).committed)).put r call) := by
  have hwritten := write_free (r := r) hfree
    fun _ => some (charged now (w.rows key).committed)
  obtain ⟨hcounts, hbase⟩ := charged_counts now (w.rows key).committed
  unfold World.write World.put
  rw [hwritten]
  have hcommitted : ∀ key', (Function.update w.rows key
      ⟨(w.rows key).committed, some (r, some (charged now (w.rows key).committed))⟩
        key').committed = (w.rows key').committed := by
    intro key'
    by_cases hkey : key' = key
    · subst hkey
      rw [Function.update_self]
    · rw [Function.update_of_ne hkey]
  apply h.put
  · intro r' key' charge hr hmem
    apply Function.update_of_ne
    rintro rfl
    obtain ⟨v, hv, -⟩ := (h.holds r' key' charge hmem).held
    rw [hfree] at hv
    cases hv
  · exact hcall.frame fun key' _ _ => hcommitted key'
  · intro key' charge hmem
    rw [hturn]
    rw [hcharges] at hmem
    dsimp only
    rcases List.mem_append.1 hmem with hold | hadded
    · have hkey : key' ≠ key := by
        rintro rfl
        exact hnew charge hold
      rw [Function.update_of_ne hkey]
      have hholds := h.holds r key' charge hold
      rwa [hturn'] at hholds
    · rw [List.mem_singleton] at hadded
      cases hadded
      rw [Function.update_self]
      exact ⟨⟨_, rfl, rfl, hbase⟩, hcounts⟩
  · intro key' r' version hrow
    dsimp only at hrow
    by_cases hkey : key' = key
    · subst hkey
      rw [Function.update_self] at hrow
      cases hrow
      exact .inr ⟨rfl, _, hcharges ▸ List.mem_append_right _ (List.mem_singleton_self _)⟩
    · rw [Function.update_of_ne hkey] at hrow
      by_cases hr : r' = r
      · subst hr
        obtain ⟨charge, hmem⟩ := h.held key' r' version hrow
        exact .inr ⟨rfl, charge, hcharges ▸ List.mem_append_left _ hmem⟩
      · exact .inl ⟨hr, hrow⟩
  · intro key'
    dsimp only
    rw [hcommitted]
    exact h.history key'

/-- The statement of `_charge` for an identifier. -/
theorem Inv.charge_identifier (h : Inv w) {subject : D} {peer : Option D} {now : Time}
    (hcall : w.calls r = .identifying subject peer now) (hstep : step w (.charge r) = some w') :
    Inv w' := by
  have hnot : ∀ key charge, (key, charge) ∉ (w.calls r).charges := by
    intro key charge hmem
    rw [hcall] at hmem
    cases hmem
  have hturn : ∀ key, (w.calls r).turnAt key = none := by
    intro key
    rw [hcall]
    rfl
  simp only [step, hcall] at hstep
  split at hstep
  case isTrue => cases hstep
  case isFalse hlocked =>
    have hfree := h.free (by simpa using hlocked) (hnot ⟨.identifier, subject⟩)
    have hseen : (w.rows ⟨.identifier, subject⟩).seen r =
        (w.rows ⟨.identifier, subject⟩).committed := by simp [Row.seen, hfree]
    rw [hseen] at hstep
    split at hstep
    case isTrue hspent =>
      cases hstep
      refine h.charge hfree (hnot _) (by simp [hcall, Call.charges]) ?_ hturn ?_
      · intro key
        simp [Call.turnAt]
      · exact .inl ⟨subject, _, rfl, rfl, .inl ⟨rfl, hspent⟩⟩
    case isFalse hleft =>
      have hfew := Nat.le_of_not_lt hleft
      cases peer with
      | none =>
        cases hstep
        refine h.charge hfree (hnot _) (by simp [hcall, Call.charges]) ?_ hturn ?_
        · intro key
          simp [Call.turnAt]
        · exact .inl ⟨subject, _, rfl, rfl,
            .inr ⟨_, rfl, holdFor_le (Nat.zero_le _), hfew⟩⟩
      | some peer =>
        cases hstep
        refine h.charge hfree (hnot _) (by simp [hcall, Call.charges]) ?_ hturn ?_
        · exact fun _ => rfl
        · exact .inr ⟨subject, _, rfl, hfew⟩

/-- The attempts a step charges an address with. -/
def addressAttempts (w : World D) : Label D → Option Nat
  | .charge r =>
    match w.calls r with
    | .addressing _ peer now =>
      some (charged now ((w.rows ⟨.address, peer⟩).seen r)).attempts
    | _ => none
  | _ => none

/-- The condition on a step: an address is charged at most 1029 times in a window. -/
def Shallow (w : World D) (l : Label D) : Prop := ∀ n ∈ addressAttempts w l, n ≤ deepest

instance (w : World D) (l : Label D) : Decidable (Shallow w l) :=
  inferInstanceAs (Decidable (∀ n ∈ addressAttempts w l, n ≤ deepest))

/-- The statement of `_charge` for an address. -/
theorem Inv.charge_address (h : Inv w) {charges : Charges D} {peer : D} {now : Time}
    (hcall : w.calls r = .addressing charges peer now) (hok : Shallow w (.charge r))
    (hstep : step w (.charge r) = some w') : Inv w' := by
  have hadmitted : Admitted charges := by
    have := h.calls r
    rwa [hcall] at this
  have hnot : ∀ charge, ((⟨.address, peer⟩ : Key D), charge) ∉ (w.calls r).charges := by
    intro charge hmem
    rw [hcall] at hmem
    have hscope := hadmitted.identifier hmem
    cases hscope
  have hturn : ∀ key, (w.calls r).turnAt key = none := by
    intro key
    rw [hcall]
    rfl
  have hattempts : addressAttempts w (.charge r) =
      some (charged now ((w.rows ⟨.address, peer⟩).seen r)).attempts := by
    simp only [addressAttempts, hcall]
  have hdeep := hok _ hattempts
  simp only [step, hcall] at hstep
  split at hstep
  case isTrue => cases hstep
  case isFalse hlocked =>
    have hfree := h.free (by simpa using hlocked) hnot
    have hseen : (w.rows ⟨.address, peer⟩).seen r = (w.rows ⟨.address, peer⟩).committed := by
      simp [Row.seen, hfree]
    rw [hseen] at hstep hdeep
    cases hstep
    refine h.charge hfree hnot (by simp [hcall, Call.charges]) (fun _ => rfl) hturn ?_
    exact ⟨charges, _, rfl, hadmitted, rfl, hdeep,
      (charged_counts now (w.rows ⟨.address, peer⟩).committed).2⟩

omit [DecidableEq D] in
/-- A step that writes no row and takes none. -/
theorem Inv.put_same (h : Inv w) {now : Time} {call : Call D}
    (hcharges : call.charges = (w.calls r).charges)
    (hturn : ∀ key, call.turnAt key = none) (hturn' : ∀ key, (w.calls r).turnAt key = none)
    (hcall : CallOk w.rows call) :
    Inv ⟨w.rows, Function.update w.calls r call, now, w.history⟩ := by
  apply h.put (fun _ _ _ _ _ => rfl) hcall
  · intro key charge hmem
    rw [hcharges] at hmem
    have hholds := h.holds r key charge hmem
    rw [hturn'] at hholds
    rwa [hturn]
  · intro key r' version hrow
    by_cases hr : r' = r
    · subst hr
      exact .inr ⟨rfl, hcharges ▸ h.held key r' version hrow⟩
    · exact .inl ⟨hr, hrow⟩
  · exact h.history

/-- `_reserve` with what `_charge` answered. -/
theorem Inv.reserve (h : Inv w) (hstep : step w (.reserve r) = some w') : Inv w' := by
  simp only [step] at hstep
  split at hstep
  case h_2 => cases hstep
  case h_1 charges peer attempts taken hcall =>
    have hok := h.calls r
    rw [hcall] at hok
    obtain ⟨front, charge, hcharges, hfront, hattempts, hdeep, htaken⟩ := hok
    have hmem : ((⟨.address, peer⟩ : Key D), charge) ∈ (w.calls r).charges := by
      simp [hcall, Call.charges, hcharges]
    obtain ⟨⟨version, hversion, hvattempts, hvturn⟩, hcounts⟩ := h.holds r _ charge hmem
    have hturn : ∀ key, (w.calls r).turnAt key = none := by
      intro key
      rw [hcall]
      rfl
    split at hstep
    case h_1 hoverflow => exact absurd hoverflow (delayFor_deepest hdeep)
    case h_2 delay hdelay =>
      split at hstep
      case isTrue hfull =>
        cases hstep
        refine h.put_same (by simp [hcall, Call.charges]) ?_ hturn ?_
        · intro key
          simp [Call.turnAt]
        · refine .inr ⟨front, peer, charge, hcharges, hfront, .inl ⟨rfl, rfl, ?_⟩⟩
          -- the first charge of a window waits for nothing
          cases hfresh : charge.fresh with
          | false => rfl
          | true =>
            have hone := hcounts.fresh hfresh
            rw [Charge.base, hfresh, if_pos rfl] at htaken
            rw [← hattempts, hone] at hdelay
            have hzero : delay = 0 := by
              have hfree : delayFor 1 = some 0 := by decide
              rw [hfree] at hdelay
              exact (Option.some.inj hdelay).symm
            rw [htaken, hzero] at hfull
            simp at hfull
      case isFalse hroom =>
        cases hstep
        have hwait := Nat.le_of_not_lt hroom
        unfold World.write World.put
        dsimp only
        rw [write_held hversion]
        have hcommitted : ∀ key', (Function.update w.rows ⟨.address, peer⟩
            ⟨(w.rows ⟨.address, peer⟩).committed, some (r, (some version).map fun row =>
              { row with notBefore := some (max (taken.getD w.now) w.now + delay) })⟩
              key').committed = (w.rows key').committed := by
          intro key'
          by_cases hkey : key' = ⟨.address, peer⟩
          · subst hkey
            rw [Function.update_self]
          · rw [Function.update_of_ne hkey]
        apply h.put
        · intro r' key' charge' hr hmem'
          apply Function.update_of_ne
          rintro rfl
          exact hr (h.holder_unique hmem' hversion).symm
        · refine .inr ⟨front, peer, charge, hcharges, hfront, .inr
            ⟨_, _, rfl, rfl, holdFor_le hwait, ?_⟩⟩
          intro t₀ hbase
          rw [hcommitted, ← htaken] at hbase
          refine ⟨delay, hattempts ▸ hdelay, ?_⟩
          rw [hbase]
          exact Nat.add_le_add_right (Nat.le_max_left _ _) _
        · intro key' charge' hmem'
          have hmem' : (key', charge') ∈ charges := hmem'
          by_cases hkey : key' = ⟨.address, peer⟩
          · subst hkey
            have hcharge : charge' = charge := by
              rw [hcharges] at hmem'
              rcases List.mem_append.1 hmem' with hmem' | hmem'
              · have hscope := hfront.identifier hmem'
                cases hscope
              · rw [List.mem_singleton] at hmem'
                cases hmem'
                rfl
            rw [hcharge, Function.update_self]
            exact ⟨⟨_, rfl, hvattempts, rfl⟩, hcounts⟩
          · rw [Function.update_of_ne hkey]
            have hscope : key'.scope ≠ .address := by
              rw [hcharges] at hmem'
              rcases List.mem_append.1 hmem' with hmem' | hmem'
              · rw [hfront.identifier hmem']
                simp
              · rw [List.mem_singleton] at hmem'
                cases hmem'
                exact absurd rfl hkey
            have hholds := h.holds r key' charge' (by simpa [hcall, Call.charges] using hmem')
            rw [hturn] at hholds
            simpa [Call.turnAt, hscope] using hholds
        · intro key' r' version' hrow
          by_cases hkey : key' = ⟨.address, peer⟩
          · subst hkey
            rw [Function.update_self] at hrow
            cases hrow
            exact .inr ⟨rfl, charge, by simp [Call.charges, hcharges]⟩
          · rw [Function.update_of_ne hkey] at hrow
            by_cases hr : r' = r
            · subst hr
              obtain ⟨charge', hmem'⟩ := h.held key' r' version' hrow
              exact .inr ⟨rfl, charge', by simpa [hcall, Call.charges] using hmem'⟩
            · exact .inl ⟨hr, hrow⟩
        · intro key'
          rw [hcommitted]
          exact h.history key'

theorem lookup_of_mem {charges : Charges D} (hnodup : (charges.map Prod.fst).Nodup) {key : Key D}
    {charge : Charge} (hmem : (key, charge) ∈ charges) : charges.lookup key = some charge := by
  induction charges with
  | nil => cases hmem
  | cons first rest ih =>
    obtain ⟨key', charge'⟩ := first
    rw [List.map_cons, List.nodup_cons] at hnodup
    rcases List.mem_cons.1 hmem with heq | hrest
    · cases heq
      rw [List.lookup_cons_self]
    · have hne : key ≠ key' := by
        rintro rfl
        exact hnodup.1 (List.mem_map.2 ⟨_, hrest, rfl⟩)
      rw [List.lookup_cons, beq_false_of_ne hne]
      exact ih hnodup.2 hrest

theorem lookup_of_not_mem {charges : Charges D} {key : Key D}
    (hnot : ∀ charge, (key, charge) ∉ charges) : charges.lookup key = none := by
  rw [List.lookup_eq_none_iff]
  intro entry hentry
  rw [bne_iff_ne]
  rintro rfl
  exact hnot entry.2 hentry

omit [DecidableEq D] in
/-- A call charges a row once. -/
theorem Settles.nodup {rows : Key D → Row Nat (Option LoginAttempt)} {charges : Charges D}
    {turn : Option Time} {answer : Answer} (h : Settles rows charges turn answer) :
    (charges.map Prod.fst).Nodup := by
  rcases h with ⟨subject, charge, rfl, -⟩ | ⟨front, peer, charge, rfl, hfront, -⟩
  · simp
  · rcases hfront with rfl | ⟨subject, charge', rfl, -⟩
    · simp
    · simp

/-- The turn of a call, on one of its rows. -/
def turnOn (key : Key D) (turn : Option Time) : Option Time :=
  if key.scope = .address then turn else none

omit [DecidableEq D] in
/-- What goes on record is as the code promises. -/
theorem Settles.entryOk {rows : Key D → Row Nat (Option LoginAttempt)} {charges : Charges D}
    {turn : Option Time} {answer : Answer} (h : Settles rows charges turn answer) {key : Key D}
    {charge : Charge} (hmem : (key, charge) ∈ charges) :
    EntryOk key.scope ⟨charge, turnOn key turn, answer⟩ ∧
      ∀ t₀, charge.base (rows key).committed = some t₀ → ∀ t, turnOn key turn = some t →
        ∃ delay, delayFor charge.attempts = some delay ∧ t₀ + delay ≤ t := by
  rcases h with ⟨subject, charge', rfl, rfl, h⟩ | ⟨front, peer, charge', rfl, hfront, h⟩
  · rw [List.mem_singleton] at hmem
    cases hmem
    refine ⟨⟨?_, ?_, ?_⟩, ?_⟩
    · intro _
      rcases h with ⟨rfl, hspent⟩ | ⟨wait, rfl, -, hfew⟩
      · simpa using hspent
      · simpa using hfew
    · simp [turnOn]
    · intro wait hwait
      rcases h with ⟨rfl, -⟩ | ⟨wait', rfl, hle, -⟩
      · cases hwait
      · cases hwait
        exact hle
    · intro t₀ _ t ht
      simp [turnOn] at ht
  · have hrefused : answer ≠ .refused := by
      rcases h with ⟨-, rfl, -⟩ | ⟨t, wait, -, rfl, -⟩ <;> simp
    rcases List.mem_append.1 hmem with hmem | hmem
    · have hscope := hfront.identifier hmem
      rcases hfront with rfl | ⟨subject, charge'', rfl, hfew⟩
      · cases hmem
      · rw [List.mem_singleton] at hmem
        cases hmem
        refine ⟨⟨?_, ?_, ?_⟩, ?_⟩
        · intro _
          simpa [hrefused] using hfew
        · simp [turnOn]
        · intro wait hwait
          rcases h with ⟨-, rfl, -⟩ | ⟨t, wait', -, rfl, hle, -⟩
          · cases hwait
          · cases hwait
            exact hle
        · intro t₀ _ t ht
          simp [turnOn] at ht
    · rw [List.mem_singleton] at hmem
      cases hmem
      refine ⟨⟨?_, ?_, ?_⟩, ?_⟩
      · intro hscope
        cases hscope
      · rcases h with ⟨rfl, rfl, -⟩ | ⟨t, wait, rfl, rfl, -⟩ <;> simp [turnOn]
      · intro wait hwait
        rcases h with ⟨-, rfl, -⟩ | ⟨t, wait', -, rfl, hle, -⟩
        · cases hwait
        · cases hwait
          exact hle
      · intro t₀ hbase t ht
        rcases h with ⟨rfl, -, -⟩ | ⟨t', wait, rfl, -, -, hpaced⟩
        · simp [turnOn] at ht
        · have hturn : t' = t := by simpa [turnOn] using ht
          exact hturn ▸ hpaced t₀ hbase

theorem Inv.commit (h : Inv w) {charges : Charges D} {turn : Option Time} {answer : Answer}
    (hcall : w.calls r = .committing charges turn answer) :
    Inv ((w.commit r charges turn answer).put r (.answered answer)) := by
  have hsettles : Settles w.rows charges turn answer := by
    have := h.calls r
    rwa [hcall] at this
  have hmem : ∀ key charge, (key, charge) ∈ charges ↔ (key, charge) ∈ (w.calls r).charges := by
    simp [hcall, Call.charges]
  unfold World.commit World.put
  apply h.put
  · intro r' key charge hr hmem'
    apply Row.commit_of_not_held
    intro version hversion
    exact hr (h.holder_unique hmem' hversion).symm
  · trivial
  · intro key charge hmem'
    cases hmem'
  · intro key r' version hrow
    left
    dsimp only [Row.commit] at hrow
    cases hheld : (w.rows key).held with
    | none => simp [hheld] at hrow
    | some held =>
      obtain ⟨holder, version'⟩ := held
      rw [hheld] at hrow
      dsimp only at hrow
      by_cases hholder : holder = r
      · simp [hholder] at hrow
      · rw [if_neg hholder, hheld] at hrow
        cases hrow
        exact ⟨hholder, rfl⟩
  · intro key
    dsimp only
    by_cases hkey : ∃ charge, (key, charge) ∈ charges
    · obtain ⟨charge, hcharge⟩ := hkey
      obtain ⟨⟨version, hversion, hattempts, hturn⟩, hcounts⟩ :=
        h.holds r key charge ((hmem key charge).1 hcharge)
      obtain ⟨hentry, hpaced⟩ := hsettles.entryOk hcharge
      rw [lookup_of_mem hsettles.nodup hcharge, Row.commit_of_held hversion]
      refine (h.history key).push hentry hcounts hattempts ?_ hpaced
      rw [hturn, hcall]
      rfl
    · have hnot : ∀ charge, (key, charge) ∉ charges := fun charge hcharge =>
        hkey ⟨charge, hcharge⟩
      rw [lookup_of_not_mem hnot, Row.commit_of_not_held]
      · exact h.history key
      · intro version hversion
        obtain ⟨charge, hcharge⟩ := h.held key r version hversion
        exact hnot charge ((hmem key charge).2 hcharge)

omit [DecidableEq D] in
/-- A call that fails leaves no trace. -/
theorem Inv.rollback (h : Inv w) : Inv ((w.rollback r).put r .failed) := by
  unfold World.rollback World.put
  apply h.put
  · intro r' key charge hr hmem
    apply Row.rollback_of_not_held
    intro version hversion
    exact hr (h.holder_unique hmem hversion).symm
  · trivial
  · intro key charge hmem
    cases hmem
  · intro key r' version hrow
    left
    dsimp only [Row.rollback] at hrow
    cases hheld : (w.rows key).held with
    | none => simp [hheld] at hrow
    | some held =>
      obtain ⟨holder, version'⟩ := held
      rw [hheld] at hrow
      dsimp only at hrow
      by_cases hholder : holder = r
      · simp [hholder] at hrow
      · rw [if_neg hholder, hheld] at hrow
        cases hrow
        exact ⟨hholder, rfl⟩
  · intro key
    dsimp only
    rw [Row.rollback_committed]
    exact h.history key

theorem Inv.step {l : Label D} (h : Inv w) (hok : Shallow w l) (hstep : step w l = some w') :
    Inv w' := by
  cases l with
  | tick elapsed =>
    cases hstep
    exact ⟨h.calls, h.holds, h.held, h.history⟩
  | login r subject peer =>
    rw [Limits.step, Option.ite_none_right_eq_some] at hstep
    obtain ⟨hended, heq⟩ := hstep
    cases heq
    refine h.put_same ?_ (fun _ => rfl) ?_ trivial
    · cases hcall : w.calls r <;> simp [hcall, Call.ended, Call.charges] at hended ⊢
    · intro key
      cases hcall : w.calls r <;> simp [hcall, Call.ended, Call.turnAt] at hended ⊢
  | reset r peer =>
    rw [Limits.step, Option.ite_none_right_eq_some] at hstep
    obtain ⟨hended, heq⟩ := hstep
    cases heq
    refine h.put_same ?_ (fun _ => rfl) ?_ (.inl rfl)
    · cases hcall : w.calls r <;> simp [hcall, Call.ended, Call.charges] at hended ⊢
    · intro key
      cases hcall : w.calls r <;> simp [hcall, Call.ended, Call.turnAt] at hended ⊢
  | clock r =>
    have hcalls := h.calls r
    simp only [Limits.step] at hstep
    split at hstep
    case h_1 subject peer hcall =>
      cases hstep
      exact h.put_same (by rw [hcall]; rfl) (fun _ => rfl) (fun _ => by rw [hcall]; rfl) trivial
    case h_2 charges peer hcall =>
      cases hstep
      rw [hcall] at hcalls
      exact h.put_same (by rw [hcall]; rfl) (fun _ => rfl) (fun _ => by rw [hcall]; rfl) hcalls
    case h_3 => cases hstep
  | charge r =>
    cases hcall : w.calls r with
    | identifying subject peer now => exact h.charge_identifier hcall hstep
    | addressing charges peer now => exact h.charge_address hcall hok hstep
    | idle => simp [Limits.step, hcall] at hstep
    | login subject peer => simp [Limits.step, hcall] at hstep
    | queueing charges peer => simp [Limits.step, hcall] at hstep
    | reserving charges peer attempts taken => simp [Limits.step, hcall] at hstep
    | committing charges turn answer => simp [Limits.step, hcall] at hstep
    | answered answer => simp [Limits.step, hcall] at hstep
    | failed => simp [Limits.step, hcall] at hstep
  | reserve r => exact h.reserve hstep
  | commit r =>
    simp only [Limits.step] at hstep
    split at hstep
    case h_1 charges turn answer hcall =>
      cases hstep
      exact h.commit hcall
    case h_2 => cases hstep
  | fail r =>
    rw [Limits.step, Option.ite_none_left_eq_some] at hstep
    obtain ⟨-, heq⟩ := hstep
    cases heq
    exact h.rollback
  | prune key =>
    simp only [Limits.step] at hstep
    split at hstep
    case h_2 => cases hstep
    case h_1 row hrow =>
      rw [Option.ite_none_right_eq_some] at hstep
      obtain ⟨⟨-, hfree⟩, heq⟩ := hstep
      cases heq
      have hother : ∀ r' key' charge, (key', charge) ∈ (w.calls r').charges →
          Function.update w.rows key ⟨none, none⟩ key' = w.rows key' := by
        intro r' key' charge hmem
        apply Function.update_of_ne
        rintro rfl
        obtain ⟨version, hversion, -⟩ := (h.holds r' key' charge hmem).held
        rw [hfree] at hversion
        cases hversion
      constructor <;> dsimp only
      · intro r'
        refine (h.calls r').frame fun key' charge hmem => ?_
        rw [hother r' key' charge hmem]
      · intro r' key' charge hmem
        rw [hother r' key' charge hmem]
        exact h.holds r' key' charge hmem
      · intro key' r' version hrow'
        by_cases hkey : key' = key
        · subst hkey
          simp at hrow'
        · rw [Function.update_of_ne hkey] at hrow'
          exact h.held key' r' version hrow'
      · intro key'
        by_cases hkey : key' = key
        · subst hkey
          rw [Function.update_self]
          exact ⟨(h.history key').windows, by simp⟩
        · rw [Function.update_of_ne hkey]
          exact h.history key'

theorem reach_inv (h : machine.Reach Shallow w) : Inv w := by
  refine h.invariant ?_ ?_
  · intro w hw
    rw [show w = start from hw]
    exact start_inv
  · intro w l w' hw hok hstep
    exact hw.step hok hstep

end Potocolom.Limits
