import Potocolom.Startup.Lock

/-! # The phases of the startup lock

A process is idle, or one task acquires for all that wait for it, or those wait out a failed
acquisition, or the lock is held, or its owner waits for the borrowers, or closes. -/

namespace Potocolom.Startup

variable {T : Type} {s : Process T} {owned : Option Nat}

/-- What the database leaves a process that had this connection in possession of the lock. -/
def Call.after (owned : Option Nat) : Call → Option Nat
  | .nothing => owned
  | .take connection => some connection
  | .close connection => if owned = some connection then none else owned

/-- The values of the globals but for the count. -/
def Process.Has (s : Process T) (connection loop acquisition done : Option Nat) (closing : Bool) :
    Prop :=
  s.lockConnection = connection ∧ s.lockOwnerLoop = loop ∧ s.lockAcquisition = acquisition ∧
    s.lockBorrowersDone = done ∧ s.lockClosing = closing

/-- Where a task may stand that is not the first one. -/
def Pc.Borrows (acquisition : Nat) (admitted : Bool) (x : Pc) : Prop :=
  x = .outside ∨ x = .waiting acquisition ∨ x = .releasing ∨ (admitted = true ∧ x = .body false)

/-- Where the first one stands while it acquires, and what it has by then. -/
def Pc.Acquires (opened : Finset Nat) (owned : Option Nat) (f : Nat) (x : Pc) : Prop :=
  ((x = .connecting f ∨ x = .failing f) ∧ opened = ∅ ∧ owned = none) ∨
    ∃ c, opened = {c} ∧ ((x = .querying f c ∧ owned = none) ∨
      (x = .abandoning f c ∧ (owned = none ∨ owned = some c)) ∨
      (x = .acquired f c ∧ owned = some c))

structure Idle (s : Process T) (owned : Option Nat) : Prop where
  pc : ∀ t, s.pc t = .outside
  globals : s.Has none none none none false
  opened : s.opened = ∅
  owned : owned = none

/-- Task `o` acquires. -/
structure Acquiring (s : Process T) (owned : Option Nat) (o : T) (f d : Nat) : Prop where
  pc : (s.pc o).Acquires s.opened owned f
  others : ∀ t, t ≠ o → (s.pc t).Borrows f false
  globals : s.Has none none (some f) (some d) false
  ne : f ≠ d
  acquisition : s.futures f = .pending
  borrowersDone : s.futures d = .pending

/-- Some still wait for a failed acquisition, or leave it. -/
structure Rejected (s : Process T) (owned : Option Nat) (f d : Nat) : Prop where
  others : ∀ t, (s.pc t).Borrows f false
  waits : ∃ t, (s.pc t).counted = true
  globals : s.Has none none (some f) (some d) false
  acquisition : s.futures f = .exception
  opened : s.opened = ∅
  owned : owned = none

/-- Task `o` holds the lock, for itself and its borrowers. -/
structure Held (loop : T → Nat) (s : Process T) (owned : Option Nat) (o : T) (f d c : Nat) :
    Prop where
  pc : s.pc o = .body true ∨ s.pc o = .finishing
  others : ∀ t, t ≠ o → (s.pc t).Borrows f true
  globals : s.Has (some c) (some (loop o)) none (some d) false
  acquisition : s.futures f = .result
  borrowersDone : s.futures d = .pending
  opened : s.opened = {c}
  owned : owned = some c

/-- It waits until the last borrower has left. -/
structure Draining (loop : T → Nat) (s : Process T) (owned : Option Nat) (o : T) (f d c : Nat)
    (x : Bool) : Prop where
  pc : (s.pc o = .waitingBorrowers d x ∧
      (if s.lockHolders = 1 then s.futures d = .result else s.futures d = .pending)) ∨
    (s.pc o = .clearing x ∧ s.lockHolders = 1)
  others : ∀ t, t ≠ o → (s.pc t).Borrows f true
  globals : s.Has (some c) (some (loop o)) none (some d) true
  acquisition : s.futures f = .result
  opened : s.opened = {c}
  owned : owned = some c

/-- It closes its connection, with nobody else inside. -/
structure Closing (s : Process T) (owned : Option Nat) (o : T) : Prop where
  pc : (s.pc o = .resetting ∧ s.opened = ∅ ∧ owned = none) ∨
    ∃ c x, s.pc o = .closing c x ∧ s.opened = {c} ∧ owned = some c
  others : ∀ t, t ≠ o → s.pc t = .outside
  connection : s.lockConnection = none
  loop : s.lockOwnerLoop = none
  closing : s.lockClosing = true

inductive Phase (loop : T → Nat) (s : Process T) (owned : Option Nat) : Prop
  | idle (h : Idle s owned)
  | acquiring {o : T} {f d : Nat} (h : Acquiring s owned o f d)
  | rejected {f d : Nat} (h : Rejected s owned f d)
  | held {o : T} {f d c : Nat} (h : Held loop s owned o f d c)
  | draining {o : T} {f d c : Nat} {x : Bool} (h : Draining loop s owned o f d c x)
  | closing {o : T} (h : Closing s owned o)

/-- The count is that of the tasks inside. -/
def Process.Counted (s : Process T) : Prop :=
  Tally (fun t => (s.pc t).counted = true) s.lockHolders

structure Inv (loop : T → Nat) (s : Process T) (owned : Option Nat) : Prop where
  counted : s.Counted
  phase : Phase loop s owned

theorem Process.Counted.two {o t : T} (h : s.Counted) (ho : (s.pc o).counted = true)
    (ht : (s.pc t).counted = true) (hne : t ≠ o) : 2 ≤ s.lockHolders := by
  have hpos := Tally.pos h ho
  have hone : s.lockHolders ≠ 1 := fun h1 => hne ((Tally.eq_one_iff h ho).1 h1 t ht)
  omega

/-- Where nobody is counted, those that were not first are outside. -/
theorem Process.Counted.outside {u : T} {f : Nat} {admitted : Bool} (h : s.Counted)
    (hzero : s.lockHolders = 0) (hu : (s.pc u).Borrows f admitted) : s.pc u = .outside := by
  have hnot : (s.pc u).counted ≠ true := Tally.eq_zero_iff h |>.1 hzero u
  rcases hu with hpc | hpc | hpc | ⟨-, hpc⟩
  · exact hpc
  all_goals
    rw [hpc] at hnot
    exact absurd rfl hnot

section Step

variable [DecidableEq T] {loop : T → Nat} {r s' : Process T} {t o : T} {e : Event} {call : Call}
variable {f d c : Nat} {admitted : Bool} {x : Pc}

/-- A task moves, and the count with it. -/
theorem Process.Counted.move (h : s.Counted) (hpc : r.pc = s.pc)
    (hholders : r.lockHolders = s.lockHolders - (if (s.pc t).counted then 1 else 0) +
      if x.counted then 1 else 0) : (r.goTo t x).Counted := by
  change Tally (fun u => (Function.update r.pc t x u).counted = true) r.lockHolders
  rw [hpc, hholders]
  exact Tally.update h t x

theorem Process.Counted.stay (h : s.Counted) (hpc : r.pc = s.pc)
    (hholders : r.lockHolders = s.lockHolders) (hx : x.counted = (s.pc t).counted) :
    (r.goTo t x).Counted :=
  h.move hpc (by rw [hx, hholders, sub_add_cancel])

theorem Process.Counted.leave (h : s.Counted) (hpc : r.pc = s.pc)
    (hholders : r.lockHolders = s.lockHolders - 1) (ht : (s.pc t).counted = true)
    (hx : x.counted = false) : (r.goTo t x).Counted :=
  h.move hpc (by simp [ht, hx, hholders])

theorem update_all {P : Pc → Prop} (h : ∀ u, u ≠ t → P (s.pc u)) (hx : P x) (u : T) :
    P (Function.update s.pc t x u) := by
  by_cases hut : u = t
  · rwa [hut, Function.update_self]
  · rw [Function.update_of_ne hut]
    exact h u hut

theorem others_update {P : Pc → Prop} (h : ∀ u, u ≠ o → P (s.pc u)) (hx : t ≠ o → P x) (u : T)
    (hu : u ≠ o) : P (Function.update s.pc t x u) := by
  by_cases hut : u = t
  · subst hut
    rw [Function.update_self]
    exact hx hu
  · rw [Function.update_of_ne hut]
    exact h u hu

/-- What a task does that is not the first one. -/
theorem borrower_step (hpc : (s.pc t).Borrows f admitted)
    (h : s.step (loop t) t e = some (s', call)) :
    call = .nothing ∧ ((s.pc t = .outside ∧ s' = s.enter t) ∨
      (s.pc t = .releasing ∧ s' = s.releaseStartupLockBorrower t) ∨
      ((s.pc t).counted = true ∧ ∃ y, s' = s.goTo t y ∧
        (y = .releasing ∨ (y = .body false ∧ s.pc t = .waiting f ∧ s.futures f = .result)))) := by
  rcases hpc with hpc | hpc | hpc | ⟨-, hpc⟩ <;> cases e <;>
    simp only [Process.step, hpc, reduceCtorEq, Option.some.injEq, Prod.mk.injEq] at h
  · obtain ⟨rfl, rfl⟩ := h
    exact ⟨rfl, .inl ⟨hpc, rfl⟩⟩
  · cases hf : s.futures f <;> simp only [hf, reduceCtorEq, Option.some.injEq, Prod.mk.injEq] at h
    · obtain ⟨rfl, rfl⟩ := h
      exact ⟨rfl, .inr (.inr ⟨by rw [hpc]; rfl, _, rfl, .inr ⟨rfl, hpc, rfl⟩⟩)⟩
    · obtain ⟨rfl, rfl⟩ := h
      exact ⟨rfl, .inr (.inr ⟨by rw [hpc]; rfl, _, rfl, .inl rfl⟩)⟩
  · obtain ⟨rfl, rfl⟩ := h
    exact ⟨rfl, .inr (.inr ⟨by rw [hpc]; rfl, _, rfl, .inl rfl⟩)⟩
  · obtain ⟨rfl, rfl⟩ := h
    exact ⟨rfl, .inr (.inl ⟨hpc, rfl⟩)⟩
  · obtain ⟨rfl, rfl⟩ := h
    exact ⟨rfl, .inr (.inr ⟨by rw [hpc]; rfl, _, rfl, .inl rfl⟩)⟩

/-- A task that comes later joins the others. -/
theorem enter_joins {a : Option Nat} (hclosing : s.lockClosing = false)
    (hholders : s.lockHolders ≠ 0) (ha : s.lockAcquisition = a) (t : T) :
    s.enter t = { s with lockHolders := s.lockHolders + 1 }.goTo t
      (a.elim (.body false) .waiting) := by
  rw [Process.enter, if_neg (by simp [hclosing]), if_neg hholders, ha]
  cases a <;> rfl

/-- A borrower that leaves others behind only counts itself off. -/
theorem release_stays (hclosing : s.lockClosing = true → s.lockHolders ≠ 2)
    (hholders : s.lockHolders ≠ 1) (t : T) :
    s.releaseStartupLockBorrower t =
      { s with lockHolders := s.lockHolders - 1 }.goTo t .outside := by
  have hzero : ¬ (s.lockHolders - 1 = 0 ∧ s.lockConnection = none) := by omega
  have hone : ¬ (s.lockClosing = true ∧ s.lockHolders - 1 = 1) := by
    rintro ⟨hc, h1⟩
    exact hclosing hc (by omega)
  unfold Process.releaseStartupLockBorrower Process.forget
  cases s.lockBorrowersDone with
  | none => simp only [if_neg hzero]
  | some d => simp only [if_neg hzero, if_neg hone]

/-- The last one forgets the acquisition. -/
theorem release_last {d : Nat} (hclosing : s.lockClosing = false) (hholders : s.lockHolders = 1)
    (hconnection : s.lockConnection = none) (hdone : s.lockBorrowersDone = some d) (t : T) :
    s.releaseStartupLockBorrower t =
      { s with
        lockHolders := s.lockHolders - 1
        lockAcquisition := none
        lockBorrowersDone := none }.goTo t .outside := by
  have hzero : s.lockHolders - 1 = 0 ∧ s.lockConnection = none := ⟨by omega, hconnection⟩
  have hopen : ¬ (s.lockClosing = true ∧ s.lockHolders - 1 = 1) := by simp [hclosing]
  unfold Process.releaseStartupLockBorrower Process.forget
  simp only [hdone, if_neg hopen, if_pos hzero]

/-- The last borrower of a closing lock tells its owner. -/
theorem release_completes {d : Nat} (hclosing : s.lockClosing = true) (hholders : s.lockHolders = 2)
    (hdone : s.lockBorrowersDone = some d) (hd : s.futures d = .pending) (t : T) :
    s.releaseStartupLockBorrower t =
      { s with
        lockHolders := s.lockHolders - 1
        futures := Function.update s.futures d .result }.goTo t .outside := by
  have hone : s.lockClosing = true ∧ s.lockHolders - 1 = 1 := ⟨hclosing, by omega⟩
  have hzero : ¬ (s.lockHolders - 1 = 0 ∧ s.lockConnection = none) := by omega
  unfold Process.releaseStartupLockBorrower Process.forget Process.complete
  simp only [hdone, if_pos hone, if_pos hd, if_neg hzero]

theorem Pc.Acquires.counted {opened : Finset Nat} (h : x.Acquires opened owned f) :
    x.counted = true := by
  rcases h with ⟨rfl | rfl, -⟩ | ⟨c, -, ⟨rfl, -⟩ | ⟨rfl, -⟩ | ⟨rfl, -⟩⟩ <;> rfl

omit [DecidableEq T] in
/-- The owner that waits for its borrowers is counted. -/
theorem counted_of_drain {d : Nat} {y : Bool} {P Q : Prop}
    (h : (s.pc o = .waitingBorrowers d y ∧ P) ∨ (s.pc o = .clearing y ∧ Q)) :
    (s.pc o).counted = true := by
  rcases h with ⟨h, -⟩ | ⟨h, -⟩ <;> rw [h] <;> rfl

/-- While the lock is not closing, the others join, go on among themselves and leave. -/
theorem others_step (h : s.Counted) (hpc : (s.pc t).Borrows f admitted)
    (hclosing : s.lockClosing = false) (hholders : s.lockHolders ≠ 0)
    (hlast : s.pc t = .releasing → s.lockHolders ≠ 1)
    (hadmitted : (admitted = true ∧ s.lockAcquisition = none) ∨
      (s.lockAcquisition = some f ∧ s.futures f ≠ .result))
    (hstep : s.step (loop t) t e = some (s', call)) :
    call = .nothing ∧ ∃ n y, y.Borrows f admitted ∧ s' = { s with lockHolders := n }.goTo t y ∧
      n ≠ 0 ∧ s'.Counted := by
  have hnonneg := Tally.nonneg h
  obtain ⟨rfl, ⟨htpc, rfl⟩ | ⟨htpc, rfl⟩ | ⟨htpc, y, rfl, hy⟩⟩ := borrower_step hpc hstep
  · refine ⟨rfl, ?_⟩
    rcases hadmitted with ⟨hadmitted, hnone⟩ | ⟨hsome, -⟩
    · rw [enter_joins hclosing hholders hnone]
      exact ⟨_, _, .inr (.inr (.inr ⟨hadmitted, rfl⟩)), rfl, by omega,
        h.move rfl (by rw [htpc]; simp [Pc.counted])⟩
    · rw [enter_joins hclosing hholders hsome]
      exact ⟨_, _, .inr (.inl rfl), rfl, by omega, h.move rfl (by rw [htpc]; simp [Pc.counted])⟩
  · have hone := hlast htpc
    rw [release_stays (by simp [hclosing]) hone]
    exact ⟨rfl, _, _, .inl rfl, rfl, by omega, h.leave rfl rfl (by rw [htpc]; rfl) rfl⟩
  · refine ⟨rfl, s.lockHolders, y, ?_, rfl, hholders, h.stay rfl rfl ?_⟩
    · rcases hy with rfl | ⟨rfl, -, hresult⟩
      · exact .inr (.inr (.inl rfl))
      · rcases hadmitted with ⟨hadmitted, -⟩ | ⟨-, hno⟩
        · exact .inr (.inr (.inr ⟨hadmitted, rfl⟩))
        · exact absurd hresult hno
    · rw [htpc]
      rcases hy with rfl | ⟨rfl, -⟩ <;> rfl

theorem Idle.step (hp : Idle s owned) (h : s.Counted)
    (hstep : s.step (loop t) t e = some (s', call)) : Inv loop s' (call.after owned) := by
  obtain ⟨hpc, ⟨hconnection, hloop, -, -, hclosing⟩, hopened, howned⟩ := hp
  have hzero : s.lockHolders = 0 := (Tally.eq_zero_iff h).2 fun u => by simp [hpc u, Pc.counted]
  cases e <;> simp only [Process.step, hpc t, reduceCtorEq, Option.some.injEq, Prod.mk.injEq] at hstep
  obtain ⟨rfl, rfl⟩ := hstep
  rw [Process.enter, if_neg (by simp [hclosing]), if_pos hzero]
  refine ⟨h.move rfl (by rw [hpc]; simp [Pc.counted]), .acquiring (o := t) (f := s.created)
    (d := s.created + 1) ⟨.inl ⟨.inl (Function.update_self ..), hopened, howned⟩,
      others_update (fun u _ => .inl (hpc u)) fun hu => absurd rfl hu,
      ⟨hconnection, hloop, rfl, rfl, hclosing⟩, by omega, ?_, Function.update_self ..⟩⟩
  simp [Process.goTo]

/-- The section behind a failed acquisition leaves those that wait, or nobody. -/
theorem Acquiring.fail (hp : Acquiring s owned t f d) (h : s.Counted) (hpc : s.pc t = .failing f)
    (hopened : s.opened = ∅) (howned : owned = none) :
    Inv loop (s.failAcquisition t f) owned := by
  obtain ⟨-, hothers, hglobals, -, hf, -⟩ := hp
  have hall : ∀ u, (Function.update s.pc t .outside u).Borrows f false :=
    update_all hothers (.inl rfl)
  have hcounted : ({ s with lockHolders := s.lockHolders - 1 }.goTo t .outside).Counted :=
    h.leave rfl rfl (by rw [hpc]; rfl) rfl
  unfold Process.failAcquisition
  by_cases hlast : s.lockHolders - 1 = 0
  · simp only [if_pos hlast, Process.complete, hf, if_true]
    exact ⟨hcounted, .idle ⟨fun u => hcounted.outside hlast (hall u),
      ⟨hglobals.1, hglobals.2.1, rfl, rfl, hglobals.2.2.2.2⟩, hopened, howned⟩⟩
  · simp only [if_neg hlast, Process.complete, hf, if_true]
    refine ⟨hcounted, .rejected ⟨hall, ?_, hglobals, Function.update_self .., hopened, howned⟩⟩
    by_contra hnone
    exact hlast ((Tally.eq_zero_iff hcounted).2 fun u hu => hnone ⟨u, hu⟩)

theorem Acquiring.step (hp : Acquiring s owned o f d) (h : s.Counted)
    (hstep : s.step (loop t) t e = some (s', call)) : Inv loop s' (call.after owned) := by
  have hp' := hp
  obtain ⟨hpc, hothers, hglobals, hne, hf, hd⟩ := hp
  have ho := hpc.counted
  have hpos := Tally.pos h ho
  by_cases ht : t = o
  · subst ht
    -- the owner goes on with what it has opened and taken
    have hgo : ∀ {y : Pc} {opened : Finset Nat} {connected : Nat} {owned' : Option Nat},
        y.Acquires opened owned' f →
        Inv loop ({ s with opened := opened, connected := connected }.goTo t y) owned' := by
      intro y opened connected owned' hy
      refine ⟨h.stay rfl rfl (by rw [ho, hy.counted]), .acquiring ⟨?_,
        others_update hothers fun hu => absurd rfl hu, hglobals, hne, hf, hd⟩⟩
      change Pc.Acquires opened owned' f (Function.update s.pc t y t)
      rwa [Function.update_self]
    have hclose : ∀ {c : Nat}, s.opened = {c} → owned = none ∨ owned = some c →
        Pc.Acquires (s.opened.erase c) ((Call.close c).after owned) f (.failing f) := by
      rintro c hopened (rfl | rfl) <;> exact .inl ⟨.inr rfl, by simp [hopened], by simp [Call.after]⟩
    rcases hpc with ⟨hpc | hpc, hopened, howned⟩ | ⟨c, hopened, ⟨hpc, howned⟩ | ⟨hpc, howned⟩ |
      ⟨hpc, howned⟩⟩ <;> cases e <;>
      simp only [Process.step, hpc, reduceCtorEq, Option.some.injEq, Prod.mk.injEq] at hstep
    · obtain ⟨rfl, rfl⟩ := hstep
      exact hgo (.inr ⟨s.connected, by rw [hopened]; rfl, .inl ⟨rfl, howned⟩⟩)
    · obtain ⟨rfl, rfl⟩ := hstep
      exact hgo (.inl ⟨.inr rfl, hopened, howned⟩)
    · obtain ⟨rfl, rfl⟩ := hstep
      exact hp'.fail h hpc hopened howned
    · rename_i acquired
      cases acquired <;> simp only [Option.some.injEq, Prod.mk.injEq] at hstep
      · obtain ⟨rfl, rfl⟩ := hstep
        exact hgo (.inr ⟨c, hopened, .inr (.inl ⟨rfl, .inl howned⟩)⟩)
      · obtain ⟨rfl, rfl⟩ := hstep
        exact hgo (.inr ⟨c, hopened, .inr (.inr ⟨rfl, rfl⟩)⟩)
    · obtain ⟨rfl, rfl⟩ := hstep
      rename_i taken
      refine hgo (.inr ⟨c, hopened, .inr (.inl ⟨rfl, ?_⟩)⟩)
      cases taken
      · exact .inl howned
      · exact .inr rfl
    · obtain ⟨rfl, rfl⟩ := hstep
      exact hgo (hclose hopened howned)
    · obtain ⟨rfl, rfl⟩ := hstep
      exact hgo (hclose hopened howned)
    · obtain ⟨rfl, rfl⟩ := hstep
      simp only [Process.completeAcquisition, Process.complete, hf, if_true]
      refine ⟨h.stay rfl rfl (by rw [ho]; rfl), .held ⟨.inl (Function.update_self ..),
        others_update (P := fun x => x.Borrows f true) (fun u hu => ?_) fun hu => absurd rfl hu,
        ⟨rfl, rfl, rfl, hglobals.2.2.2⟩, Function.update_self .., ?_, hopened, howned⟩⟩
      · rcases hothers u hu with hpc | hpc | hpc | ⟨hno, -⟩
        · exact .inl hpc
        · exact .inr (.inl hpc)
        · exact .inr (.inr (.inl hpc))
        · cases hno
      · -- only the acquisition is completed
        exact (Function.update_of_ne (Ne.symm hne) ..).trans hd
  · obtain ⟨rfl, n, y, hy, rfl, -, hcounted⟩ := others_step h (hothers t ht) hglobals.2.2.2.2
      (by omega) (fun hr => by have := h.two ho (by rw [hr]; rfl) ht; omega)
      (.inr ⟨hglobals.2.2.1, by rw [hf]; simp⟩) hstep
    refine ⟨hcounted, .acquiring (o := o) ⟨?_, others_update hothers fun _ => hy, hglobals, hne, hf,
      hd⟩⟩
    change Pc.Acquires _ _ f (Function.update s.pc t y o)
    rwa [Function.update_of_ne (Ne.symm ht)]

theorem Rejected.step (hp : Rejected s owned f d) (h : s.Counted)
    (hstep : s.step (loop t) t e = some (s', call)) : Inv loop s' (call.after owned) := by
  obtain ⟨hothers, ⟨v, hv⟩, hglobals, hf, hopened, howned⟩ := hp
  have hpos := Tally.pos h hv
  have hglobals' := hglobals
  obtain ⟨hconnection, hloop, hacquisition, hdone, hclosing⟩ := hglobals'
  by_cases hlast : s.pc t = .releasing ∧ s.lockHolders = 1
  · -- the last one forgets the acquisition
    obtain ⟨htpc, hone⟩ := hlast
    cases e <;>
      simp only [Process.step, htpc, reduceCtorEq, Option.some.injEq, Prod.mk.injEq] at hstep
    obtain ⟨rfl, rfl⟩ := hstep
    rw [release_last hclosing hone hconnection hdone]
    have hcounted := h.leave (r := { s with
      lockHolders := s.lockHolders - 1
      lockAcquisition := none
      lockBorrowersDone := none }) (x := .outside) rfl rfl (by rw [htpc]; rfl) rfl
    exact ⟨hcounted, .idle ⟨fun u => hcounted.outside (by change s.lockHolders - 1 = 0; omega)
      (update_all (fun w _ => hothers w) (.inl rfl) u), ⟨hconnection, hloop, rfl, rfl, hclosing⟩,
      hopened, howned⟩⟩
  · obtain ⟨rfl, n, y, hy, rfl, hn, hcounted⟩ := others_step h (hothers t) hclosing (by omega)
      (fun hr hone => hlast ⟨hr, hone⟩) (.inr ⟨hacquisition, by rw [hf]; simp⟩) hstep
    refine ⟨hcounted, .rejected ⟨update_all (fun u _ => hothers u) hy, ?_, hglobals, hf, hopened,
      howned⟩⟩
    by_contra hnone
    exact hn ((Tally.eq_zero_iff hcounted).2 fun u hu => hnone ⟨u, hu⟩)

theorem beginFinish_eq (hdone : s.lockBorrowersDone = some d) (t : T) :
    s.beginFinish t = { s with lockClosing := true }.goTo t
      (if s.lockHolders > 1 then .waitingBorrowers d false else .clearing false) := by
  unfold Process.beginFinish
  simp only [hdone]
  split <;> simp_all

theorem Held.step (hp : Held loop s owned o f d c) (h : s.Counted)
    (hstep : s.step (loop t) t e = some (s', call)) : Inv loop s' (call.after owned) := by
  obtain ⟨hpc, hothers, hglobals, hf, hd, hopened, howned⟩ := hp
  have ho : (s.pc o).counted = true := by rcases hpc with hpc | hpc <;> rw [hpc] <;> rfl
  have hpos := Tally.pos h ho
  by_cases ht : t = o
  · subst ht
    have hothers' : ∀ y u, u ≠ t → (Function.update s.pc t y u).Borrows f true := fun y =>
      others_update hothers fun hu => absurd rfl hu
    rcases hpc with hpc | hpc <;> cases e <;>
      simp only [Process.step, hpc, reduceCtorEq, Option.some.injEq, Prod.mk.injEq] at hstep
    · obtain ⟨rfl, rfl⟩ := hstep
      exact ⟨h.stay rfl rfl (by rw [ho]; rfl), .held ⟨.inr (Function.update_self ..), hothers' _,
        hglobals, hf, hd, hopened, howned⟩⟩
    · obtain ⟨rfl, rfl⟩ := hstep
      have hglobals' := hglobals
      obtain ⟨hconnection, hloop, hacquisition, hdone, -⟩ := hglobals'
      rw [beginFinish_eq hdone]
      by_cases hmany : s.lockHolders > 1
      · have hone : s.lockHolders ≠ 1 := by omega
        rw [if_pos hmany]
        exact ⟨h.stay rfl rfl (by rw [ho]; rfl), .draining ⟨.inl ⟨Function.update_self ..,
          (if_neg hone).mpr hd⟩, hothers' _, ⟨hconnection, hloop, hacquisition, hdone, rfl⟩,
          hf, hopened, howned⟩⟩
      · have hone : s.lockHolders = 1 := by omega
        rw [if_neg hmany]
        exact ⟨h.stay rfl rfl (by rw [ho]; rfl), .draining ⟨.inr ⟨Function.update_self .., hone⟩,
          hothers' _, ⟨hconnection, hloop, hacquisition, hdone, rfl⟩, hf, hopened, howned⟩⟩
  · obtain ⟨rfl, n, y, hy, rfl, -, hcounted⟩ := others_step h (hothers t ht) hglobals.2.2.2.2
      (by omega) (fun hr => by have := h.two ho (by rw [hr]; rfl) ht; omega)
      (.inl ⟨rfl, hglobals.2.2.1⟩) hstep
    refine ⟨hcounted, .held (o := o) ⟨?_, others_update hothers fun _ => hy, hglobals, hf, hd,
      hopened, howned⟩⟩
    change Function.update s.pc t y o = _ ∨ Function.update s.pc t y o = _
    rwa [Function.update_of_ne (Ne.symm ht)]

/-- Steps of the borrowers that the owner waits for; the last one wakes it. -/
theorem Draining.others_step {x : Bool} (hp : Draining loop s owned o f d c x) (h : s.Counted)
    (ht : t ≠ o) (hstep : s.step (loop t) t e = some (s', call)) :
    Inv loop s' (call.after owned) := by
  have ho := counted_of_drain hp.pc
  have hp' := hp
  obtain ⟨hpc, hothers, hglobals, hf, hopened, howned⟩ := hp
  obtain ⟨rfl, hcase⟩ := borrower_step (hothers t ht) hstep
  rcases hcase with ⟨-, rfl⟩ | hin
  · -- a closing lock turns away whoever comes
    rw [Process.enter, if_pos hglobals.2.2.2.2]
    exact ⟨h, .draining hp'⟩
  have htcounted : (s.pc t).counted = true := by
    rcases hin with ⟨htpc, -⟩ | ⟨htpc, -⟩
    · rw [htpc]
      rfl
    · exact htpc
  have htwo := h.two ho htcounted ht
  have hone : s.lockHolders ≠ 1 := by omega
  -- so the owner is not past its wait
  obtain ⟨hpc, hfuture⟩ : s.pc o = .waitingBorrowers d x ∧ s.futures d = .pending := by
    rcases hpc with ⟨hpc, hfuture⟩ | ⟨-, h1⟩
    · exact ⟨hpc, (if_neg hone).mp hfuture⟩
    · exact absurd h1 hone
  have hstay : ∀ z, Function.update s.pc t z o = .waitingBorrowers d x := fun z => by
    rwa [Function.update_of_ne (Ne.symm ht)]
  rcases hin with ⟨-, rfl⟩ | ⟨-, z, rfl, hz⟩
  · by_cases hlast : s.lockHolders = 2
    · have hleft : s.lockHolders - 1 = 1 := by omega
      have hne : f ≠ d := by
        rintro rfl
        rw [hf] at hfuture
        cases hfuture
      have hf' : Function.update s.futures d .result f = .result := by
        rw [Function.update_of_ne hne, hf]
      rw [release_completes hglobals.2.2.2.2 hlast hglobals.2.2.2.1 hfuture]
      exact ⟨h.leave rfl rfl htcounted rfl, .draining (o := o) ⟨.inl ⟨hstay _,
        (if_pos hleft).mpr (Function.update_self ..)⟩, others_update hothers fun _ => .inl rfl,
        hglobals, hf', hopened, howned⟩⟩
    · have hleft : s.lockHolders - 1 ≠ 1 := by omega
      rw [release_stays (fun _ => hlast) hone]
      exact ⟨h.leave rfl rfl htcounted rfl, .draining (o := o) ⟨.inl ⟨hstay _,
        (if_neg hleft).mpr hfuture⟩, others_update hothers fun _ => .inl rfl, hglobals, hf,
        hopened, howned⟩⟩
  · have hz' : z.Borrows f true ∧ z.counted = true := by
      rcases hz with rfl | ⟨rfl, -⟩
      · exact ⟨.inr (.inr (.inl rfl)), rfl⟩
      · exact ⟨.inr (.inr (.inr ⟨rfl, rfl⟩)), rfl⟩
    exact ⟨h.stay rfl rfl (by rw [htcounted, hz'.2]), .draining (o := o) ⟨.inl ⟨hstay _,
      (if_neg hone).mpr hfuture⟩, others_update hothers fun _ => hz'.1, hglobals, hf, hopened,
      howned⟩⟩

theorem Draining.step {x : Bool} (hp : Draining loop s owned o f d c x) (h : s.Counted)
    (hstep : s.step (loop t) t e = some (s', call)) : Inv loop s' (call.after owned) := by
  by_cases ht : t = o
  · subst ht
    have ho := counted_of_drain hp.pc
    obtain ⟨hpc, hothers, hglobals, hf, hopened, howned⟩ := hp
    have hothers' : ∀ y u, u ≠ t → (Function.update s.pc t y u).Borrows f true := fun y =>
      others_update hothers fun hu => absurd rfl hu
    rcases hpc with ⟨hpc, hfuture⟩ | ⟨hpc, hone⟩ <;> cases e <;>
      simp only [Process.step, hpc, reduceCtorEq, Option.some.injEq, Prod.mk.injEq] at hstep
    · by_cases hone : s.lockHolders = 1
      · simp only [if_pos hone] at hfuture
        simp only [hfuture, Option.some.injEq, Prod.mk.injEq] at hstep
        obtain ⟨rfl, rfl⟩ := hstep
        exact ⟨h.stay rfl rfl (by rw [ho]; rfl), .draining ⟨.inr ⟨Function.update_self .., hone⟩,
          hothers' _, hglobals, hf, hopened, howned⟩⟩
      · simp only [if_neg hone] at hfuture
        simp only [hfuture, reduceCtorEq] at hstep
    · obtain ⟨rfl, rfl⟩ := hstep
      exact ⟨h.stay rfl rfl (by rw [ho]; rfl), .draining ⟨.inl ⟨Function.update_self .., hfuture⟩,
        hothers' _, hglobals, hf, hopened, howned⟩⟩
    · obtain ⟨rfl, rfl⟩ := hstep
      obtain ⟨hconnection, hloop, -, -, hclosing⟩ := hglobals
      have halone := (Tally.eq_one_iff h ho).1 hone
      simp only [Process.clear, hone, ne_eq, not_true, if_false, hconnection, hloop, if_true]
      refine ⟨h.leave rfl (by rw [hone]; rfl) ho rfl, .closing ⟨.inr ⟨c, x,
        Function.update_self .., hopened, howned⟩, others_update (P := fun x => x = .outside)
        (fun u hu => ?_) fun hu => absurd rfl hu, rfl, rfl, hclosing⟩⟩
      rcases hothers u hu with hpc | hpc | hpc | ⟨-, hpc⟩
      · exact hpc
      all_goals exact absurd (halone u (by rw [hpc]; rfl)) hu
  · exact hp.others_step h ht hstep

theorem Closing.step (hp : Closing s owned o) (h : s.Counted)
    (hok : ∀ c, s.pc t = .closing c true → e ≠ .closeRaise true)
    (hstep : s.step (loop t) t e = some (s', call)) : Inv loop s' (call.after owned) := by
  have hp' := hp
  obtain ⟨hpc, hothers, hconnection, hloop, hclosing⟩ := hp
  by_cases ht : t = o
  · subst ht
    have hout : ∀ y u, u ≠ t → Function.update s.pc t y u = .outside := fun y =>
      others_update (P := fun x => x = .outside) hothers fun hu => absurd rfl hu
    rcases hpc with ⟨hpc, hopened, rfl⟩ | ⟨c, x, hpc, hopened, rfl⟩
    · cases e <;>
        simp only [Process.step, hpc, reduceCtorEq, Option.some.injEq, Prod.mk.injEq] at hstep
      obtain ⟨rfl, rfl⟩ := hstep
      exact ⟨h.stay rfl rfl (by rw [hpc]; rfl), .idle ⟨update_all (P := fun x => x = .outside)
        hothers rfl, ⟨hconnection, hloop, rfl, rfl, rfl⟩, hopened, rfl⟩⟩
    · have hclosed : Inv loop ((s.closeConnection c).goTo t .resetting)
          ((Call.close c).after (some c)) :=
        ⟨h.stay rfl rfl (by rw [hpc]; rfl), .closing ⟨.inl ⟨Function.update_self ..,
          by simp [Process.goTo, Process.closeConnection, hopened], by simp [Call.after]⟩, hout _,
          hconnection, hloop, hclosing⟩⟩
      cases e <;>
        simp only [Process.step, hpc, reduceCtorEq, Option.some.injEq, Prod.mk.injEq] at hstep
      · obtain ⟨rfl, rfl⟩ := hstep
        exact ⟨h.stay rfl rfl (by rw [hpc]; rfl), .closing ⟨.inr ⟨c, true, Function.update_self ..,
          hopened, rfl⟩, hout _, hconnection, hloop, hclosing⟩⟩
      · obtain ⟨rfl, rfl⟩ := hstep
        exact hclosed
      · rename_i left
        -- so the close that raises is followed by `terminate`
        have hnot : ¬ (x = true ∧ left = true) := by
          rintro ⟨rfl, rfl⟩
          exact hok c hpc rfl
        rw [if_neg hnot] at hstep
        simp only [Option.some.injEq, Prod.mk.injEq] at hstep
        obtain ⟨rfl, rfl⟩ := hstep
        exact hclosed
  · cases e <;>
      simp only [Process.step, hothers t ht, reduceCtorEq, Option.some.injEq, Prod.mk.injEq] at hstep
    obtain ⟨rfl, rfl⟩ := hstep
    rw [Process.enter, if_pos hclosing]
    exact ⟨h, .closing hp'⟩

/-- Every step of a task keeps the process in one of the phases. -/
theorem Inv.step (h : Inv loop s owned)
    (hok : ∀ c, s.pc t = .closing c true → e ≠ .closeRaise true)
    (hstep : s.step (loop t) t e = some (s', call)) : Inv loop s' (call.after owned) := by
  cases h.phase with
  | idle hp => exact hp.step h.counted hstep
  | acquiring hp => exact hp.step h.counted hstep
  | rejected hp => exact hp.step h.counted hstep
  | held hp => exact hp.step h.counted hstep
  | draining hp => exact hp.step h.counted hstep
  | closing hp => exact hp.step h.counted hok hstep

end Step

end Potocolom.Startup
