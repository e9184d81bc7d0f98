import Potocolom.Limits.Rows

/-! # The limiter is fair

The turns of an address are paced, a refusal moves none, and a call whose turn is near is
given it. All of it hangs on `delay_for`: from the attempt on whose power of two no float
holds, it raises, and every charge of that window is rolled back. -/

namespace Potocolom.Limits

variable {D : Type*} [DecidableEq D] {w w' : World D} {r : Nat}

/-- What the limiter promises of the charges made so far and of the next step. -/
structure Fair (w : World D) : Prop where
  windows : ∀ key, RowOk key.scope (w.rows key).committed (w.history key)
  /-- A call answered 429 or 503 moves no turn. -/
  unmoved : ∀ r charges turn answer, w.calls r = .committing charges turn answer →
    answer = .refused ∨ answer = .busy → ∀ w', step w (.commit r) = some w' →
      ∀ key, (w'.rows key).committed.bind LoginAttempt.notBefore =
        (w.rows key).committed.bind LoginAttempt.notBefore
  /-- A call whose turn could be at hand is given it. -/
  drains : ∀ r charges peer attempts taken, w.calls r = .reserving charges peer attempts taken →
    (∀ t, (w.history ⟨.address, peer⟩).lastTurn = some t → t ≤ w.now + (maxQueue - maxDelay)) →
      ∃ w' turn wait, step w (.reserve r) = some w' ∧
        w'.calls r = .committing charges (some turn) (.accepted wait)

/-- The turns of identifiers are never written. -/
theorem RowOk.identifier_turn {committed : Option LoginAttempt} {history : History}
    (h : RowOk .identifier committed history) : committed.bind LoginAttempt.notBefore = none := by
  cases committed with
  | none => rfl
  | some row =>
    obtain ⟨latest, rest, hhistory, -, hturn⟩ := h.current row rfl
    have hwindow := h.windows latest (hhistory ▸ List.mem_cons_self)
    show row.notBefore = none
    rw [hturn, windowTurn, List.filterMap_eq_nil_iff.2]
    · rfl
    · intro entry hentry
      by_contra hne
      have hscope := ((hwindow.turns entry hentry).1 hne).1
      cases hscope

omit [DecidableEq D] in
/-- The turn a charge finds is the last one accepted. -/
theorem Inv.base_le (h : Inv w) {key : Key D} {charge : Charge} {t bound : Time}
    (hbase : charge.base (w.rows key).committed = some t)
    (hlast : ∀ t, (w.history key).lastTurn = some t → t ≤ bound) : t ≤ bound := by
  unfold Charge.base at hbase
  split at hbase
  · cases hbase
  · obtain ⟨row, hrow, hturn⟩ := Option.bind_eq_some_iff.1 hbase
    obtain ⟨latest, rest, hhistory, -, hlatest⟩ := (h.history key).current row hrow
    apply hlast
    rw [hhistory, History.lastTurn, ← hlatest]
    exact hturn

theorem waiting_le {start delay now longest queue : Nat} (hle : longest ≤ queue)
    (hstart : start ≤ now + (queue - longest)) (hdelay : delay ≤ longest) :
    start + delay - now ≤ queue := by
  omega

theorem Inv.drains (h : Inv w) {charges : Charges D} {peer : D} {attempts : Nat}
    {taken : Option Time} (hcall : w.calls r = .reserving charges peer attempts taken)
    (hlast : ∀ t, (w.history ⟨.address, peer⟩).lastTurn = some t →
      t ≤ w.now + (maxQueue - maxDelay)) :
    ∃ w' turn wait, Limits.step w (.reserve r) = some w' ∧
      w'.calls r = .committing charges (some turn) (.accepted wait) := by
  have hok := h.calls r
  rw [hcall] at hok
  obtain ⟨front, charge, hcharges, hfront, hattempts, hdeep, htaken⟩ := hok
  obtain ⟨delay, hdelay⟩ := Option.ne_none_iff_exists'.1 (delayFor_deepest hdeep)
  have hshort := delayFor_le hdelay
  have hstart : max (taken.getD w.now) w.now ≤ w.now + (maxQueue - maxDelay) := by
    refine Nat.max_le.2 ⟨?_, Nat.le_add_right _ _⟩
    cases htime : taken with
    | none => exact Nat.le_add_right _ _
    | some t => exact h.base_le (htaken ▸ htime) hlast
  have hroom := Nat.not_lt.2 (waiting_le (by decide) hstart hshort)
  have hstep : Limits.step w (.reserve r) =
      some ((w.write r ⟨.address, peer⟩ fun row => row.map fun row =>
        { row with notBefore := some (max (taken.getD w.now) w.now + delay) }).put r
          (.committing charges (some (max (taken.getD w.now) w.now + delay))
            (.accepted (holdFor charges (max (taken.getD w.now) w.now + delay - w.now))))) := by
    simp only [Limits.step, hcall, hdelay]
    rw [if_neg hroom]
  exact ⟨_, _, _, hstep, Function.update_self r _ w.calls⟩

/-- A refusal writes its attempts and no turn. -/
theorem Inv.unmoved (h : Inv w) {charges : Charges D} {turn : Option Time} {answer : Answer}
    (hcall : w.calls r = .committing charges turn answer)
    (hanswer : answer = .refused ∨ answer = .busy) (hstep : Limits.step w (.commit r) = some w')
    (key : Key D) :
    (w'.rows key).committed.bind LoginAttempt.notBefore =
      (w.rows key).committed.bind LoginAttempt.notBefore := by
  have hw' := (h.commit hcall).history key
  simp only [Limits.step, hcall, Option.some.injEq] at hstep
  subst hstep
  have hsettles : Settles w.rows charges turn answer := by
    have := h.calls r
    rwa [hcall] at this
  cases hscope : key.scope with
  | identifier =>
    have hold := h.history key
    rw [hscope] at hw' hold
    rw [hw'.identifier_turn, hold.identifier_turn]
  | address =>
    have hrow : ((w.commit r charges turn answer).put r (.answered answer)).rows key =
        (w.rows key).commit r := rfl
    rw [hrow]
    by_cases hkey : ∃ charge, (key, charge) ∈ charges
    · obtain ⟨charge, hcharge⟩ := hkey
      obtain ⟨version, hversion, -, hturn⟩ :=
        (h.holds r key charge (by simpa [hcall, Call.charges] using hcharge)).held
      rw [Row.commit_of_held hversion]
      show version.notBefore = _
      -- only a refusal for want of room is of an address, and it is not a window's first charge
      rcases hsettles with ⟨subject, charge', rfl, -⟩ | ⟨front, peer, charge', rfl, hfront, h'⟩
      · rw [List.mem_singleton] at hcharge
        cases hcharge
        cases hscope
      · rcases h' with ⟨rfl, rfl, hfresh⟩ | ⟨t, wait, -, rfl, -⟩
        · rcases List.mem_append.1 hcharge with hfirst | hlast
          · rw [hfront.identifier hfirst] at hscope
            cases hscope
          · rw [List.mem_singleton] at hlast
            cases hlast
            rw [hturn, hcall, Charge.base, hfresh]
            rfl
        · rcases hanswer with hanswer | hanswer <;> cases hanswer
    · rw [Row.commit_of_not_held]
      intro version hversion
      obtain ⟨charge, hcharge⟩ := h.held key r version hversion
      exact hkey ⟨charge, by simpa [hcall, Call.charges] using hcharge⟩

/-- Along every run that charges no address more than 1029 times in a window, the limiter
is fair. -/
theorem limiter_fair (h : machine.Reach Shallow w) : Fair w := by
  have hinv := reach_inv h
  constructor
  · exact hinv.history
  · intro r charges turn answer hcall hanswer w' hstep key
    exact hinv.unmoved hcall hanswer hstep key
  · intro r charges peer attempts taken hcall hlast
    exact hinv.drains hcall hlast

/-- Two sign-ins of one identifier overlap; the second waits for the row of the first. -/
def sampleLabels : List (Label Nat) :=
  [.login 1 7 (some 0), .login 2 7 (some 0), .clock 1, .clock 2, .charge 1, .clock 1, .charge 1,
    .reserve 1, .tick 3, .commit 1, .charge 2, .clock 2, .charge 2, .reserve 2, .commit 2]

def sample : World Nat := (machine.run start sampleLabels).getD start

theorem limiter_fair_sample : Fair sample := by
  have hrun : machine.run start sampleLabels = some sample := rfl
  have hok : machine.RunOk Shallow (start : World Nat) sampleLabels := by decide
  have hstart : machine.Reach Shallow (start : World Nat) := Machine.Reach.of_init rfl
  exact limiter_fair (hstart.path (Machine.path_of_run hrun hok))

/-! ## A window too deep -/

/-- Nothing is under way and the row of address 0 has been charged `n` times at once. -/
structure Flooded (w : World Nat) (n : Nat) : Prop where
  idle : (w.calls 0).ended = true
  now : w.now = 0
  row : ∃ turn, w.rows ⟨.address, 0⟩ = ⟨some ⟨n, window, turn⟩, none⟩ ∧
    ∀ t, turn = some t → t ≤ maxQueue
  last : ∀ t, (w.history ⟨.address, 0⟩).lastTurn = some t → t ≤ maxQueue

/-- The charge of one more call. -/
theorem Flooded.charged {w : World Nat} {n : Nat} (h : Flooded w n) :
    ∃ w' charge turn, machine.Path Machine.anyStep w w' ∧ w'.now = 0 ∧
      w'.history = w.history ∧ charge.fresh = false ∧
      w'.calls 0 = .reserving [(⟨.address, 0⟩, charge)] 0 (n + 1) turn ∧
      (∀ t, turn = some t → t ≤ maxQueue) ∧
      w'.rows ⟨.address, 0⟩ =
        ⟨some ⟨n, window, turn⟩, some (0, some ⟨n + 1, window, turn⟩)⟩ := by
  obtain ⟨turn, hrow, hturn⟩ := h.row
  have hreset : machine.step w (.reset 0 0) = some (w.put 0 (.queueing [] 0)) := by
    simp [machine, step, h.idle]
  have hclock : machine.step (w.put 0 (.queueing [] 0)) (.clock 0) =
      some ((w.put 0 (.queueing [] 0)).put 0 (.addressing [] 0 0)) := by
    simp [machine, step, World.put, h.now]
  have hcharge : machine.step ((w.put 0 (.queueing [] 0)).put 0 (.addressing [] 0 0)) (.charge 0) =
      some ((((w.put 0 (.queueing [] 0)).put 0 (.addressing [] 0 0)).write 0 ⟨.address, 0⟩
        fun _ => some ⟨n + 1, window, turn⟩).put 0
          (.reserving [(⟨.address, 0⟩, ⟨false, n + 1⟩)] 0 (n + 1) turn)) := by
    have hopen : ¬ window ≤ 0 := by decide
    simp [machine, step, World.put, World.write, hrow, Row.lockedFrom, Row.seen, Limits.charged,
      startsWindow, hopen]
  have hfirst : machine.Path Machine.anyStep w (w.put 0 (.queueing [] 0)) :=
    Machine.Path.refl.tail trivial hreset
  refine ⟨_, ⟨false, n + 1⟩, turn, (hfirst.tail trivial hclock).tail trivial hcharge, h.now, rfl,
    rfl, ?_, hturn, ?_⟩
  · simp [World.put]
  · simp [World.put, World.write, hrow, Row.write]

/-- The last turn is a new one or the one before. -/
theorem push_lastTurn_le {history : History} {entry : Entry} {bound : Time}
    (hlast : ∀ t, history.lastTurn = some t → t ≤ bound)
    (hentry : ∀ t, entry.turn = some t → t ≤ bound) (t : Time)
    (ht : (history.push entry).lastTurn = some t) : t ≤ bound := by
  have hsingle : ∀ t, windowTurn [entry] = some t → t ≤ bound := by
    intro t ht
    cases hturn : entry.turn with
    | none => simp [windowTurn, hturn] at ht
    | some t' =>
      have heq : t' = t := by simpa [windowTurn, hturn] using ht
      exact heq ▸ hentry t' hturn
  unfold History.push at ht
  split at ht
  · exact hsingle t ht
  · cases history with
    | nil => exact hsingle t ht
    | cons latest rest =>
      dsimp only [History.lastTurn] at ht
      rw [windowTurn_snoc] at ht
      cases hturn : entry.turn with
      | none =>
        rw [hturn, Option.none_or] at ht
        exact hlast t ht
      | some t' =>
        rw [hturn, Option.some_or] at ht
        cases ht
        exact hentry t hturn

/-- Refused or not, a call adds to the window. -/
theorem Flooded.step {w : World Nat} {n : Nat} (h : Flooded w n) (hn : n + 1 ≤ deepest) :
    ∃ w', machine.Path Machine.anyStep w w' ∧ Flooded w' (n + 1) := by
  obtain ⟨w₁, charge, turn, hpath, hnow, hhistory, hfresh, hcall, hturn, hrow⟩ := h.charged
  obtain ⟨delay, hdelay⟩ := Option.ne_none_iff_exists'.1 (delayFor_deepest hn)
  have hlookup : List.lookup (⟨.address, 0⟩ : Key Nat) [(⟨.address, 0⟩, charge)] = some charge :=
    List.lookup_cons_self
  by_cases hfull : max (turn.getD w₁.now) w₁.now + delay - w₁.now > maxQueue
  · have hreserve : machine.step w₁ (.reserve 0) =
        some (w₁.put 0 (.committing [(⟨.address, 0⟩, charge)] none .busy)) := by
      simp only [machine, Limits.step, hcall, hdelay]
      rw [if_pos hfull]
    have hcommit : machine.step (w₁.put 0 (.committing [(⟨.address, 0⟩, charge)] none .busy))
        (.commit 0) = some (((w₁.put 0 (.committing [(⟨.address, 0⟩, charge)] none .busy)).commit 0
          [(⟨.address, 0⟩, charge)] none .busy).put 0 (.answered .busy)) := by
      simp [machine, Limits.step, World.put]
    refine ⟨_, (hpath.tail trivial hreserve).tail trivial hcommit, ?_, hnow, ?_, ?_⟩
    · simp [World.put, Call.ended]
    · exact ⟨turn, by simp [World.put, World.commit, hrow, Row.commit], hturn⟩
    · intro t ht
      refine push_lastTurn_le (hhistory ▸ h.last) ?_ t (by
        simpa [World.put, World.commit, hlookup] using ht)
      simp
  · have hwait := Nat.le_of_not_lt hfull
    rw [hnow, Nat.sub_zero] at hwait
    obtain ⟨later, hlater⟩ : ∃ later, later = max (turn.getD 0) 0 + delay := ⟨_, rfl⟩
    rw [← hlater] at hwait
    have hreserve : machine.step w₁ (.reserve 0) =
        some ((w₁.write 0 ⟨.address, 0⟩ fun row => row.map fun row =>
          { row with notBefore := some later }).put 0
            (.committing [(⟨.address, 0⟩, charge)] (some later) (.accepted later))) := by
      simp only [machine, Limits.step, hcall, hdelay]
      rw [if_neg hfull, hnow, ← hlater]
      rfl
    have hcommit : machine.step ((w₁.write 0 ⟨.address, 0⟩ fun row => row.map fun row =>
          { row with notBefore := some later }).put 0
            (.committing [(⟨.address, 0⟩, charge)] (some later) (.accepted later)))
        (.commit 0) = some ((((w₁.write 0 ⟨.address, 0⟩ fun row => row.map fun row =>
          { row with notBefore := some later }).put 0
            (.committing [(⟨.address, 0⟩, charge)] (some later) (.accepted later))).commit 0
          [(⟨.address, 0⟩, charge)] (some later) (.accepted later)).put 0
            (.answered (.accepted later))) := by
      simp [machine, Limits.step, World.put]
    refine ⟨_, (hpath.tail trivial hreserve).tail trivial hcommit, ?_, hnow, ?_, ?_⟩
    · simp [World.put, Call.ended]
    · refine ⟨some later, ?_, ?_⟩
      · simp [World.put, World.commit, World.write, hrow, Row.commit, Row.write, Row.seen]
      · intro t ht
        cases ht
        exact hwait
    · intro t ht
      refine push_lastTurn_le (hhistory ▸ h.last) ?_ t (by
        simpa [World.put, World.commit, World.write, hlookup] using ht)
      intro t' ht'
      cases ht'
      exact hwait

/-- The first call from an address starts its window. -/
theorem flooded_one : ∃ w, machine.Path Machine.anyStep start w ∧ Flooded w 1 := by
  have hrun : machine.run (start : World Nat)
      [.reset 0 0, .clock 0, .charge 0, .reserve 0, .commit 0] =
        some ((machine.run (start : World Nat)
          [.reset 0 0, .clock 0, .charge 0, .reserve 0, .commit 0]).getD start) := rfl
  refine ⟨_, Machine.path_of_run_any hrun, rfl, rfl, ⟨some 0, ?_, ?_⟩, ?_⟩
  · rfl
  · intro t ht
    cases ht
    exact Nat.zero_le _
  · intro t ht
    cases ht
    exact Nat.zero_le _

/-- Any number of calls from an address can be made in one window. -/
theorem flooded (n : Nat) (hn : n < deepest) :
    ∃ w, machine.Path Machine.anyStep start w ∧ Flooded w (n + 1) := by
  induction n with
  | zero => exact flooded_one
  | succ n ih =>
    obtain ⟨w, hpath, hw⟩ := ih (by omega)
    obtain ⟨w', hpath', hw'⟩ := hw.step hn
    exact ⟨w', hpath.trans hpath', hw'⟩

/-- The call after the 1029th of a window is not given its turn, however near. -/
theorem limiter_unfair : ¬ ∀ w : World Nat, machine.Reach Machine.anyStep w → Fair w := by
  intro hfair
  obtain ⟨w, hpath, hw⟩ := flooded 1028 (by decide)
  obtain ⟨w₁, charge, turn, hpath₁, hnow, hhistory, -, hcall, -, -⟩ := hw.charged
  have htick : machine.step w₁ (.tick maxQueue) = some { w₁ with now := w₁.now + maxQueue } := rfl
  have hstart : machine.Reach Machine.anyStep (start : World Nat) := Machine.Reach.of_init rfl
  have hreach := ((hstart.path hpath).path hpath₁).tail trivial htick
  have hnear : ∀ t, (w₁.history ⟨.address, 0⟩).lastTurn = some t →
      t ≤ w₁.now + maxQueue + (maxQueue - maxDelay) := by
    intro t ht
    rw [hhistory] at ht
    exact (hw.last t ht).trans ((Nat.le_add_left _ _).trans (Nat.le_add_right _ _))
  obtain ⟨w', later, wait, hstep, hcalls⟩ := (hfair _ hreach).drains 0 _ 0 _ turn hcall hnear
  have hover : delayFor 1030 = none := by decide
  simp only [step, hcall, hover] at hstep
  cases hstep
  simp [World.put] at hcalls

end Potocolom.Limits
