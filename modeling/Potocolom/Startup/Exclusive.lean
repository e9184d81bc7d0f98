import Potocolom.Startup.Phases

/-! # One process holds the lock

The invariant of every process in every run, and what it says of bodies that execute. -/

namespace Potocolom.Startup

variable {P T : Type} {w : World P T} {p q : P} {t u : T} {x y : Bool}

section Process

variable {loop : T → Nat} {s : Process T} {owned : Option Nat}

/-- A task is at no body and no fault. -/
def Pc.Plain (x : Pc) : Prop := x ≠ .fault ∧ ∀ first, x ≠ .body first

theorem Pc.Borrows.plain {f : Nat} {x : Pc} (h : x.Borrows f false) : x.Plain := by
  rcases h with rfl | rfl | rfl | ⟨h, -⟩
  · simp [Pc.Plain]
  · simp [Pc.Plain]
  · simp [Pc.Plain]
  · cases h

theorem Pc.Borrows.ne_fault {f : Nat} {admitted : Bool} {x : Pc} (h : x.Borrows f admitted) :
    x ≠ .fault := by
  rcases h with rfl | rfl | rfl | ⟨-, rfl⟩ <;> simp

/-- A body executes only where the one open connection is recorded and has the lock, and nothing
that the code asserts or checks fails. -/
theorem Inv.stands (h : Inv loop s owned) (t : T) :
    (s.pc t).Plain ∨ (s.pc t ≠ .fault ∧
      ∃ c, s.lockConnection = some c ∧ s.opened = {c} ∧ owned = some c) := by
  cases h.phase with
  | idle hp => exact .inl (by simp [Pc.Plain, hp.pc t])
  | @acquiring o f d hp =>
    left
    by_cases ht : t = o
    · subst ht
      rcases hp.pc with ⟨hpc | hpc, -⟩ | ⟨c, -, ⟨hpc, -⟩ | ⟨hpc, -⟩ | ⟨hpc, -⟩⟩ <;>
        simp [Pc.Plain, hpc]
    · exact (hp.others t ht).plain
  | rejected hp => exact .inl (hp.others t).plain
  | @held o f d c hp =>
    refine .inr ⟨?_, c, hp.globals.1, hp.opened, hp.owned⟩
    by_cases ht : t = o
    · subst ht
      rcases hp.pc with hpc | hpc <;> simp [hpc]
    · exact (hp.others t ht).ne_fault
  | @draining o f d c z hp =>
    refine .inr ⟨?_, c, hp.globals.1, hp.opened, hp.owned⟩
    by_cases ht : t = o
    · subst ht
      rcases hp.pc with ⟨hpc, -⟩ | ⟨hpc, -⟩ <;> simp [hpc]
    · exact (hp.others t ht).ne_fault
  | @closing o hp =>
    left
    by_cases ht : t = o
    · subst ht
      rcases hp.pc with ⟨hpc, -⟩ | ⟨c, z, hpc, -⟩ <;> simp [Pc.Plain, hpc]
    · simp [Pc.Plain, hp.others t ht]

theorem Inv.body (h : Inv loop s owned) (hbody : s.pc t = .body x) :
    ∃ c, s.lockConnection = some c ∧ s.opened = {c} ∧ owned = some c := by
  rcases h.stands t with hplain | ⟨-, hc⟩
  · exact absurd hbody (hplain.2 x)
  · exact hc

/-- With nobody inside, a process is as at its start. -/
theorem Inv.all_outside (h : Inv loop s owned) (hout : ∀ t, s.pc t = .outside) : Idle s owned := by
  cases h.phase with
  | idle hp => exact hp
  | acquiring hp =>
    have hpc := hp.pc
    simp [hout, Pc.Acquires] at hpc
  | rejected hp =>
    obtain ⟨v, hv⟩ := hp.waits
    simp [hout, Pc.counted] at hv
  | held hp => simpa [hout] using hp.pc
  | draining hp => simpa [hout] using hp.pc
  | closing hp => simpa [hout] using hp.pc

end Process

section Worlds

variable [DecidableEq P]

/-- The connection of a process that has the advisory lock. -/
def World.owned (w : World P T) (p : P) : Option Nat :=
  w.advisory.bind fun x => if x.1 = p then some x.2 else none

/-- What a process does at the database changes nobody else's possession. -/
theorem serve_owned {w' : World P T} {call : Call} (h : w.serve p call = some w') :
    w'.process = w.process ∧ w'.owned p = call.after (w.owned p) ∧
      ∀ q, q ≠ p → w'.owned q = w.owned q := by
  cases call with
  | nothing =>
    cases h
    exact ⟨rfl, rfl, fun _ _ => rfl⟩
  | take connection =>
    simp only [World.serve, Option.ite_none_right_eq_some, Option.some.injEq] at h
    obtain ⟨hfree, rfl⟩ := h
    refine ⟨rfl, by simp [World.owned, Call.after], fun q hq => ?_⟩
    rcases hfree with hfree | hfree <;> simp [World.owned, hfree, Ne.symm hq]
  | close connection =>
    cases h
    refine ⟨rfl, ?_, fun q hq => ?_⟩ <;> rcases hadvisory : w.advisory with _ | ⟨p', c⟩
    · simp [World.owned, Call.after, hadvisory]
    · by_cases hp : p' = p <;> by_cases hc : c = connection <;>
        simp [World.owned, Call.after, hadvisory, hp, hc]
    · simp [World.owned, hadvisory]
    · by_cases hp : p' = p <;> by_cases hc : c = connection <;>
        simp [World.owned, hadvisory, hp, hc, Ne.symm hq]

theorem advisory_of_owned {c : Nat} (h : w.owned p = some c) : w.advisory = some (p, c) := by
  rcases hadvisory : w.advisory with _ | ⟨p', c'⟩
  · simp [World.owned, hadvisory] at h
  · simpa [World.owned, hadvisory] using h

variable [DecidableEq T] {loop : P → T → Nat}

theorem reach_inv (h : (machine loop).Reach ClosesBehindCancel w) (p : P) :
    Inv (loop p) (w.process p) (w.owned p) := by
  refine Machine.Reach.invariant (I := fun w => ∀ p, Inv (loop p) (w.process p) (w.owned p))
    ?_ ?_ h p
  · rintro w rfl p
    exact ⟨Tally.empty fun t => by simp [World.initial, Process.initial, Pc.counted],
      .idle ⟨fun _ => rfl, ⟨rfl, rfl, rfl, rfl, rfl⟩, rfl, rfl⟩⟩
  · rintro w ⟨p, t, e⟩ w' hinv hok hstep q
    simp only [machine, World.step] at hstep
    rcases hs : (w.process p).step (loop p t) t e with _ | ⟨s, call⟩
    · simp [hs] at hstep
    · simp only [hs, Option.map_eq_some_iff] at hstep
      obtain ⟨w₁, hserve, rfl⟩ := hstep
      obtain ⟨hprocess, hself, hother⟩ := serve_owned hserve
      -- the process that steps has done so before its database, and the others have not moved
      by_cases hq : q = p
      · subst hq
        have hstep := (hinv q).step (fun c hc => hok c hc) hs
        change Inv _ (Function.update w₁.process q s q) (w₁.owned q)
        rwa [Function.update_self, hself]
      · change Inv _ (Function.update w₁.process p s q) (w₁.owned q)
        rw [Function.update_of_ne hq, hprocess, hother q hq]
        exact hinv q

theorem closes_of_events {ls : List (P × T × Event)} (h : ∀ l ∈ ls, l.2.2 ≠ .closeRaise true) :
    (machine loop).RunOk ClosesBehindCancel w ls := by
  induction ls generalizing w with
  | nil => trivial
  | cons l ls ih =>
    exact ⟨fun _ _ => h l List.mem_cons_self, fun _ _ => ih fun k hk => h k (.tail l hk)⟩

/-- The first task of a process has the lock, and the second borrows it. -/
def borrows : List (Bool × Bool × Event) :=
  [(true, false, .enter), (true, false, .connect), (true, false, .answer true), (true, false, .go),
    (true, true, .enter)]

/-- Both leave. -/
def leaves : List (Bool × Bool × Event) :=
  [(true, true, .leave), (true, true, .go), (true, false, .leave), (true, false, .go),
    (true, false, .go), (true, false, .closeReturn), (true, false, .go)]

def sampleMachine : Machine (World Bool Bool) (Bool × Bool × Event) := machine fun _ _ => 0

def sampleBorrowed : World Bool Bool :=
  (sampleMachine.run (World.initial Bool Bool) borrows).getD (World.initial Bool Bool)

def sampleLeft : World Bool Bool := (sampleMachine.run sampleBorrowed leaves).getD sampleBorrowed

theorem sampleBorrowed_reach : sampleMachine.Reach ClosesBehindCancel sampleBorrowed := by
  have hrun : sampleMachine.run (World.initial Bool Bool) borrows = some sampleBorrowed := rfl
  exact ⟨_, rfl, Machine.path_of_run hrun (closes_of_events (by decide))⟩

/-- While a body executes, its process has exactly one connection open, the recorded one, and
that connection has the advisory lock. -/
theorem body_connection (h : (machine loop).Reach ClosesBehindCancel w)
    (hbody : (w.process p).pc t = .body x) :
    ∃ c, (w.process p).lockConnection = some c ∧ (w.process p).opened = {c} ∧
      w.advisory = some (p, c) := by
  obtain ⟨c, hconnection, hopened, howned⟩ := (reach_inv h p).body hbody
  exact ⟨c, hconnection, hopened, advisory_of_owned howned⟩

theorem body_connection_sample : ∃ c, (sampleBorrowed.process true).lockConnection = some c ∧
    (sampleBorrowed.process true).opened = {c} ∧ sampleBorrowed.advisory = some (true, c) :=
  body_connection (t := true) (x := false) sampleBorrowed_reach rfl

/-- Bodies execute in one process at a time. -/
theorem bodies_share_process (h : (machine loop).Reach ClosesBehindCancel w)
    (hp : (w.process p).pc t = .body x) (hq : (w.process q).pc u = .body y) : p = q := by
  obtain ⟨c, -, -, hc⟩ := (reach_inv h p).body hp
  obtain ⟨c', -, -, hc'⟩ := (reach_inv h q).body hq
  have hsame := (advisory_of_owned hc).symm.trans (advisory_of_owned hc')
  simp only [Option.some.injEq, Prod.mk.injEq] at hsame
  exact hsame.1

theorem bodies_share_process_sample : (sampleBorrowed.process true).pc false = .body true ∧
    (sampleBorrowed.process true).pc true = .body false ∧ true = true :=
  ⟨rfl, rfl, bodies_share_process (t := false) (u := true) sampleBorrowed_reach rfl rfl⟩

/-- No assertion or check fails and no future is completed twice; the count is that of the tasks
inside; and with nobody inside a process is as at its start, so that the next one acquires. -/
theorem counted_and_reset (h : (machine loop).Reach ClosesBehindCancel w) (p : P) :
    (∀ t, (w.process p).pc t ≠ .fault) ∧ (w.process p).Counted ∧
      ((∀ t, (w.process p).pc t = .outside) →
        (w.process p).lockHolders = 0 ∧ (w.process p).Has none none none none false ∧
          (w.process p).opened = ∅ ∧ ∀ c, w.advisory ≠ some (p, c)) := by
  have hinv := reach_inv h p
  refine ⟨fun t => (hinv.stands t).elim And.left And.left, hinv.counted, fun hout => ?_⟩
  have hidle := hinv.all_outside hout
  refine ⟨(Tally.eq_zero_iff hinv.counted).2 fun t => by simp [hout t, Pc.counted], hidle.globals,
    hidle.opened, fun c hc => ?_⟩
  have howned := hidle.owned
  simp [World.owned, hc] at howned

theorem counted_and_reset_sample : (sampleLeft.process true).lockHolders = 0 ∧
    (sampleLeft.process true).Has none none none none false := by
  have hrun : sampleMachine.run sampleBorrowed leaves = some sampleLeft := rfl
  have hreach := sampleBorrowed_reach.path (Machine.path_of_run hrun (closes_of_events (by decide)))
  have hreset := (counted_and_reset hreach true).2.2 fun t => by cases t <;> rfl
  exact ⟨hreset.1, hreset.2.1⟩

end Worlds

end Potocolom.Startup
