import Potocolom.Worker.Sessions

/-! # Generations, runners and tombstones

The invariant that ties `_runners`, `_highest_generation` and `_retired` together, and
what follows from it: a superseded or closed runner is out for good, and a generation
that was passed does not come back. -/

namespace Potocolom.Worker

/-! ## What the primitives change -/

/-- The session and the generation of a closing report. -/
def Sent.closes : Sent → Option (Nat × Nat)
  | .closed report => some (report.session, report.generation)
  | _ => none

namespace Manager

/-- The session and the generation of a runner. -/
def key (s : Manager) (r : Nat) : Nat × Nat := ((s.rows r).session, (s.rows r).generation)

/-- The reports sent and the reports under way. -/
def closes (s : Manager) : List (Nat × Nat) :=
  s.sent.filterMap Sent.closes ++ s.reporting.map s.key

/-- Two states with the same maps, the same runners under the same names, and the same
reports. Only what a runner does may differ. -/
structure SameFences (s t : Manager) : Prop where
  runners : t.runners = s.runners
  highest : t.highest = s.highest
  created : t.created = s.created
  retired : t.retired = s.retired
  reporting : t.reporting = s.reporting
  closed : t.sent.filterMap Sent.closes = s.sent.filterMap Sent.closes
  stopped : t.stopped = s.stopped
  session : ∀ r, (t.rows r).session = (s.rows r).session
  generation : ∀ r, (t.rows r).generation = (s.rows r).generation
  cancels : ∀ r, (t.rows r).cancels = (s.rows r).cancels
  cancelRequested : ∀ r, (t.rows r).cancelRequested = (s.rows r).cancelRequested
  done : ∀ r, (s.rows r).phase = .done → (t.rows r).phase = .done

theorem SameFences.refl (s : Manager) : SameFences s s := by
  constructor <;> intros <;> first | rfl | assumption

/-- A rewritten row keeps who the runner is and whether it was cancelled. -/
structure KeepsRow (a b : SessionRunner) : Prop where
  session : b.session = a.session
  generation : b.generation = a.generation
  cancels : b.cancels = a.cancels
  cancelRequested : b.cancelRequested = a.cancelRequested
  done : a.phase = .done → b.phase = .done

theorem sameFences_setRunner {s : Manager} {r : Nat} {f : SessionRunner → SessionRunner}
    {sent : List Sent} (hrow : KeepsRow (s.rows r) (f (s.rows r)))
    (hsent : sent.filterMap Sent.closes = []) :
    SameFences s { s.setRunner r f with sent := s.sent ++ sent } := by
  have hrows : ∀ x, KeepsRow (s.rows x) ((s.setRunner r f).rows x) := by
    intro x
    by_cases hx : x = r
    · rw [hx]
      simpa [setRunner] using hrow
    · have heq : (s.setRunner r f).rows x = s.rows x := by
        simp [setRunner, Function.update_of_ne hx]
      rw [heq]
      constructor <;> intros <;> first | rfl | assumption
  constructor
  case closed => simp [hsent]
  case session => exact fun x => (hrows x).session
  case generation => exact fun x => (hrows x).generation
  case cancels => exact fun x => (hrows x).cancels
  case cancelRequested => exact fun x => (hrows x).cancelRequested
  case done => exact fun x => (hrows x).done
  all_goals rfl

theorem setRunner_sameFences {s : Manager} {r : Nat} {f : SessionRunner → SessionRunner}
    (hrow : KeepsRow (s.rows r) (f (s.rows r))) : SameFences s (s.setRunner r f) := by
  have h : SameFences s { s.setRunner r f with sent := s.sent ++ [] } :=
    sameFences_setRunner hrow rfl
  have heq : ({ s.setRunner r f with sent := s.sent ++ [] } : Manager) = s.setRunner r f := by
    simp [setRunner]
  rwa [heq] at h

end Manager

namespace SessionRunner

open Manager

theorem submit_keeps (r : SessionRunner) (revision : Nat) (payload : List UInt8) :
    KeepsRow r (r.submit revision payload) := by
  unfold submit
  split <;> constructor <;> intros <;> first | rfl | assumption

theorem update_keeps (r : SessionRunner) (params : Params) : KeepsRow r (r.update params) := by
  unfold update
  dsimp only
  split <;> constructor <;> intros <;> first | rfl | assumption

theorem refuse_keeps {r : SessionRunner} (hphase : r.phase ≠ .done) : KeepsRow r r.refuse.1 := by
  unfold refuse
  split
  all_goals
    constructor
    case done => exact fun h => absurd h hphase
    all_goals rfl

theorem refuse_closes (r : SessionRunner) : r.refuse.2.filterMap Sent.closes = [] := by
  unfold refuse
  split <;> simp [Sent.closes]

/-- A task that goes on stays the runner it was and sends no closing report. -/
theorem resume_keeps {r : SessionRunner} {event : TaskEvent}
    {next : SessionRunner × List Sent} (h : r.resume event = some next) :
    KeepsRow r next.1 ∧ next.2.filterMap Sent.closes = [] := by
  unfold resume at h
  split at h
  case h_1 answer =>
    split at h
    · cases h
    · next hphase =>
      have hload : r.phase = .loading := by simpa using hphase
      have hne : r.phase ≠ .done := by simp [hload]
      split at h
      · split at h
        all_goals
          cases h
          refine ⟨?_, by simp [Sent.closes]⟩
          constructor
          case done => exact fun hd => absurd hd hne
          all_goals rfl
      · cases h
        exact ⟨refuse_keeps hne, refuse_closes r⟩
  case h_2 ok =>
    split at h
    · cases h
    · next hphase =>
      have hne : r.phase ≠ .done := by
        intro hd
        exact hphase (by simp [hd])
      cases h
      refine ⟨?_, rfl⟩
      constructor
      case done => exact fun hd => absurd hd hne
      all_goals rfl
  case h_3 =>
    split at h
    · cases h
    · cases h
      refine ⟨?_, rfl⟩
      constructor <;> intros <;> rfl
  case h_4 =>
    split at h
    · next hphase _ =>
      cases h
      refine ⟨?_, rfl⟩
      constructor
      case done => exact fun hd => by simp [hphase] at hd
      all_goals rfl
    · cases h
  case h_5 outcome =>
    split at h
    · next hphase =>
      have hne : r.phase ≠ .done := by simp [hphase]
      dsimp only at h
      split at h
      all_goals
        cases h
        refine ⟨?_, by simp [Sent.closes]⟩
        constructor
        case done => exact fun hd => absurd hd hne
        all_goals rfl
    · next hphase =>
      have hne : r.phase ≠ .done := by simp [hphase]
      dsimp only at h
      split at h
      · cases h
        have hk := refuse_keeps (r := { r with residencyFailures := r.residencyFailures + 1 }) hne
        exact ⟨⟨hk.session, hk.generation, hk.cancels, hk.cancelRequested, hk.done⟩,
          refuse_closes _⟩
      · cases h
        refine ⟨?_, rfl⟩
        constructor
        case done => exact fun hd => absurd hd hne
        all_goals rfl
    · next hphase =>
      have hne : r.phase ≠ .done := by simp [hphase]
      cases h
      refine ⟨?_, rfl⟩
      constructor
      case done => exact fun hd => absurd hd hne
      all_goals rfl
    · cases h
  case h_6 ok =>
    split at h
    · next hphase =>
      have hne : r.phase ≠ .done := by simp [hphase]
      cases h
      refine ⟨?_, rfl⟩
      constructor
      case done => exact fun hd => absurd hd hne
      all_goals rfl
    · cases h
  case h_7 =>
    split at h
    · cases h
      refine ⟨?_, rfl⟩
      constructor <;> intros <;> rfl
    · cases h

end SessionRunner

namespace Manager

/-! ## The invariant -/

/-- The maps, the retired set and the runners agree. -/
structure FenceInv (s : Manager) : Prop where
  owned : ∀ {x r}, s.runners x = some r → r < s.created ∧ (s.rows r).session = x
  newest : ∀ {x r}, s.runners x = some r → s.highest x = some (s.rows r).generation
  bounded : s.stopped = false → ∀ {r}, r < s.created →
    (s.rows r).generation ≤ s.highestOf (s.rows r).session
  ordered : ∀ {r r'}, r < r' → r' < s.created → (s.rows r).session = (s.rows r').session →
    (s.rows r).generation < (s.rows r').generation
  counted : ∀ {r}, r < s.created →
    (s.rows r).cancels = if (s.rows r).cancelRequested then 1 else 0
  running : ∀ {r}, s.Active r → (s.rows r).cancelRequested = false
  out : ∀ {r}, r < s.created → ¬ s.Active r → (s.rows r).cancelRequested = true
  aside : s.stopped = false → ∀ {r}, r < s.created → ¬ s.Active r →
    r ∈ s.retired ∨ (s.rows r).phase = .done
  retired : ∀ {r}, r ∈ s.retired → r < s.created ∧ ¬ s.Active r
  reporting : ∀ {r}, r ∈ s.reporting → r < s.created
  once : s.closes.Nodup
  reported : ∀ {k}, k ∈ s.closes → ∃ r < s.created, s.key r = k ∧ ¬ s.Active r

/-- Of one session at most one runner is active. -/
theorem FenceInv.active_unique {s : Manager} (h : s.FenceInv) {r r' : Nat} (hr : s.Active r)
    (hr' : s.Active r') (heq : (s.rows r).session = (s.rows r').session) : r = r' := by
  rcases hr with ⟨x, hx⟩
  rcases hr' with ⟨y, hy⟩
  have hxy : x = y := by rw [← (h.owned hx).2, ← (h.owned hy).2, heq]
  rw [hxy, hy] at hx
  exact (Option.some.inj hx).symm

/-- A runner is named by its session and its generation. -/
theorem FenceInv.key_injective {s : Manager} (h : s.FenceInv) {r r' : Nat}
    (hr : r < s.created) (hr' : r' < s.created) (heq : s.key r = s.key r') : r = r' := by
  have hsession : (s.rows r).session = (s.rows r').session := congrArg Prod.fst heq
  have hgeneration : (s.rows r).generation = (s.rows r').generation := congrArg Prod.snd heq
  rcases Nat.lt_trichotomy r r' with hlt | heq | hgt
  · have := h.ordered hlt hr' hsession
    omega
  · exact heq
  · have := h.ordered hgt hr hsession.symm
    omega

theorem fresh_inv (byId : List (String × Manifest)) : (fresh byId).FenceInv := by
  constructor
  case once => simp [closes, fresh]
  case reported => simp [closes, fresh]
  all_goals simp [fresh, Active]

theorem SameFences.active {s t : Manager} (h : SameFences s t) (r : Nat) :
    t.Active r ↔ s.Active r := by
  rw [Active, Active, h.runners]

theorem SameFences.closes {s t : Manager} (h : SameFences s t) : t.closes = s.closes := by
  have hkey : t.key = s.key := by
    funext r
    rw [key, key, h.session, h.generation]
  rw [Manager.closes, Manager.closes, h.closed, h.reporting, hkey]

theorem SameFences.fenceInv {s t : Manager} (h : SameFences s t) (hs : s.FenceInv) :
    t.FenceInv := by
  constructor
  case owned =>
    intro x r hx
    rw [h.created, h.session]
    exact hs.owned (h.runners ▸ hx)
  case newest =>
    intro x r hx
    rw [h.highest, h.generation]
    exact hs.newest (h.runners ▸ hx)
  case bounded =>
    intro hstop r hr
    rw [h.stopped] at hstop
    rw [h.created] at hr
    rw [highestOf, h.highest, h.session, h.generation]
    exact hs.bounded hstop hr
  case ordered =>
    intro r r' hlt hr' heq
    rw [h.created] at hr'
    rw [h.session, h.session] at heq
    rw [h.generation, h.generation]
    exact hs.ordered hlt hr' heq
  case counted =>
    intro r hr
    rw [h.created] at hr
    rw [h.cancels, h.cancelRequested]
    exact hs.counted hr
  case running =>
    intro r hr
    rw [h.active] at hr
    rw [h.cancelRequested]
    exact hs.running hr
  case out =>
    intro r hr hact
    rw [h.created] at hr
    rw [h.active] at hact
    rw [h.cancelRequested]
    exact hs.out hr hact
  case aside =>
    intro hstop r hr hact
    rw [h.stopped] at hstop
    rw [h.created] at hr
    rw [h.active] at hact
    rw [h.retired]
    exact (hs.aside hstop hr hact).imp_right (h.done r)
  case retired =>
    intro r hr
    rw [h.retired] at hr
    rw [h.created, h.active]
    exact hs.retired hr
  case reporting =>
    intro r hr
    rw [h.reporting] at hr
    rw [h.created]
    exact hs.reporting hr
  case once => exact h.closes ▸ hs.once
  case reported =>
    intro k hk
    rw [h.closes] at hk
    rcases hs.reported hk with ⟨r, hr, hkey, hact⟩
    refine ⟨r, by rwa [h.created], ?_, by rwa [h.active]⟩
    rw [key, h.session, h.generation]
    exact hkey

/-! ## Popping, fencing and creating -/

/-- `s` with the runner of `x` popped and retired. -/
def popRetire (s : Manager) (x r : Nat) : Manager := (s.pop x).retire r

theorem popRetire_rows {s : Manager} (x r r' : Nat) :
    (s.popRetire x r).rows r' = if r' = r then (s.rows r).close else s.rows r' := by
  unfold popRetire retire setRunner pop
  by_cases h : r' = r
  · simp [h]
  · simp [h]

theorem popRetire_session (s : Manager) (x r r' : Nat) :
    ((s.popRetire x r).rows r').session = (s.rows r').session := by
  rw [popRetire_rows]
  by_cases h : r' = r
  · rw [if_pos h, h]
    unfold SessionRunner.close
    split <;> rfl
  · rw [if_neg h]

theorem popRetire_generation (s : Manager) (x r r' : Nat) :
    ((s.popRetire x r).rows r').generation = (s.rows r').generation := by
  rw [popRetire_rows]
  by_cases h : r' = r
  · rw [if_pos h, h]
    unfold SessionRunner.close
    split <;> rfl
  · rw [if_neg h]

theorem popRetire_closes (s : Manager) (x r : Nat) : (s.popRetire x r).closes = s.closes := by
  have hkey : (s.popRetire x r).key = s.key := by
    funext r'
    rw [key, key, popRetire_session, popRetire_generation]
  show (s.popRetire x r).sent.filterMap Sent.closes ++
    (s.popRetire x r).reporting.map (s.popRetire x r).key = s.closes
  rw [hkey]
  rfl

/-- What was popped is no longer active; everything else is as before. -/
theorem FenceInv.active_popRetire {s : Manager} (h : s.FenceInv) {x r : Nat}
    (hx : s.runners x = some r) (r' : Nat) :
    (s.popRetire x r).Active r' ↔ s.Active r' ∧ r' ≠ r := by
  have hrunners : (s.popRetire x r).runners = Function.update s.runners x none := rfl
  constructor
  · rintro ⟨y, hy⟩
    rw [hrunners] at hy
    have hne : y ≠ x := by
      rintro rfl
      simp at hy
    rw [Function.update_of_ne hne] at hy
    refine ⟨⟨y, hy⟩, ?_⟩
    rintro rfl
    exact hne ((h.owned hy).2 ▸ (h.owned hx).2)
  · rintro ⟨⟨y, hy⟩, hne⟩
    refine ⟨y, ?_⟩
    rw [hrunners]
    have hyx : y ≠ x := by
      rintro rfl
      rw [hx] at hy
      exact hne (Option.some.inj hy).symm
    rw [Function.update_of_ne hyx, hy]

theorem FenceInv.popRetire {s : Manager} (h : s.FenceInv) {x r : Nat}
    (hx : s.runners x = some r) : (s.popRetire x r).FenceInv := by
  have hrun : s.Active r := ⟨x, hx⟩
  have hactive := h.active_popRetire hx
  have hcreated : (s.popRetire x r).created = s.created := rfl
  have hclose : (s.rows r).close.cancelRequested = true ∧ (s.rows r).close.cancels = 1 := by
    have hcount := h.counted (h.owned hx).1
    have hreq := h.running hrun
    rw [hreq] at hcount
    simp [SessionRunner.close, hreq, hcount]
  constructor
  case owned =>
    intro y r' hy
    have hr' := (hactive r').mp ⟨y, hy⟩
    rcases hr'.1 with ⟨z, hz⟩
    have hyne : y ≠ x := by
      rintro rfl
      simp [Manager.popRetire, pop, retire, setRunner] at hy
    have hy' : s.runners y = some r' := by
      rw [← hy]
      exact (Function.update_of_ne hyne _ _).symm
    rw [popRetire_session]
    exact h.owned hy'
  case newest =>
    intro y r' hy
    have hyne : y ≠ x := by
      rintro rfl
      simp [Manager.popRetire, pop, retire, setRunner] at hy
    have hy' : s.runners y = some r' := by
      rw [← hy]
      exact (Function.update_of_ne hyne _ _).symm
    rw [popRetire_generation]
    exact h.newest hy'
  case bounded =>
    intro hstop r' hr'
    rw [popRetire_generation, popRetire_session]
    exact h.bounded hstop hr'
  case ordered =>
    intro r' r'' hlt hr'' heq
    rw [popRetire_session, popRetire_session] at heq
    rw [popRetire_generation, popRetire_generation]
    exact h.ordered hlt hr'' heq
  case counted =>
    intro r' hr'
    rw [popRetire_rows]
    by_cases heq : r' = r
    · simp [heq, hclose]
    · rw [if_neg heq]
      exact h.counted hr'
  case running =>
    intro r' hr'
    rw [hactive] at hr'
    rw [popRetire_rows, if_neg hr'.2]
    exact h.running hr'.1
  case out =>
    intro r' hr' hact
    rw [hactive] at hact
    rw [popRetire_rows]
    by_cases heq : r' = r
    · rw [if_pos heq]
      exact hclose.1
    · rw [if_neg heq]
      exact h.out hr' fun ha => hact ⟨ha, heq⟩
  case aside =>
    intro hstop r' hr' hact
    rw [hactive] at hact
    by_cases heq : r' = r
    · -- the runner just retired
      left
      rw [heq]
      exact List.mem_insert_self
    · rw [popRetire_rows, if_neg heq]
      have := h.aside hstop hr' fun ha => hact ⟨ha, heq⟩
      exact this.imp_left List.mem_insert_of_mem
  case retired =>
    intro r' hr'
    rw [hactive]
    rcases List.mem_insert_iff.mp hr' with heq | hmem
    · exact ⟨heq ▸ (h.owned hx).1, fun ha => ha.2 heq⟩
    · have := h.retired hmem
      exact ⟨this.1, fun ha => this.2 ha.1⟩
  case reporting => exact h.reporting
  case once => exact popRetire_closes s x r ▸ h.once
  case reported =>
    intro k hk
    rw [popRetire_closes] at hk
    rcases h.reported hk with ⟨r', hr', hkey, hact⟩
    refine ⟨r', hr', ?_, fun ha => hact ((hactive r').mp ha).1⟩
    rw [key, popRetire_session, popRetire_generation]
    exact hkey

/-- The report of a runner just popped joins the reports under way. -/
theorem FenceInv.report {s : Manager} (h : s.FenceInv) {r : Nat} (hr : r < s.created)
    (hact : ¬ s.Active r) (hnew : s.key r ∉ s.closes) :
    ({ s with reporting := s.reporting ++ [r] } : Manager).FenceInv := by
  have hcloses :
      ({ s with reporting := s.reporting ++ [r] } : Manager).closes = s.closes ++ [s.key r] := by
    show s.sent.filterMap Sent.closes ++ (s.reporting ++ [r]).map s.key = _
    simp [closes]
  constructor
  case reporting =>
    intro r' hr'
    rcases List.mem_append.mp hr' with hmem | hmem
    · exact h.reporting hmem
    · rw [List.mem_singleton.mp hmem]
      exact hr
  case once =>
    rw [hcloses, List.nodup_append]
    refine ⟨h.once, by simp, ?_⟩
    intro k hk k' hk' heq
    rw [List.mem_singleton] at hk'
    exact hnew (hk' ▸ heq ▸ hk)
  case reported =>
    intro k hk
    rw [hcloses, List.mem_append, List.mem_singleton] at hk
    rcases hk with hk | rfl
    · exact h.reported hk
    · exact ⟨r, hr, rfl, hact⟩
  case owned => exact h.owned
  case newest => exact h.newest
  case bounded => exact h.bounded
  case ordered => exact h.ordered
  case counted => exact h.counted
  case running => exact h.running
  case out => exact h.out
  case aside => exact h.aside
  case retired => exact h.retired

/-- The highest generation of a session without a runner only grows. -/
theorem FenceInv.raise {s : Manager} (h : s.FenceInv) {x g : Nat} (hx : s.runners x = none)
    (hg : s.highestOf x ≤ g) :
    ({ s with highest := Function.update s.highest x (some g) } : Manager).FenceInv := by
  constructor
  case newest =>
    intro y r hy
    have hyne : y ≠ x := by
      rintro rfl
      rw [hx] at hy
      cases hy
    show Function.update s.highest x (some g) y = _
    rw [Function.update_of_ne hyne]
    exact h.newest hy
  case bounded =>
    intro hstop r hr
    have hle := h.bounded hstop hr
    show (s.rows r).generation ≤
      (Function.update s.highest x (some g) (s.rows r).session).getD 0
    by_cases heq : (s.rows r).session = x
    · rw [heq] at hle ⊢
      rw [Function.update_self]
      exact Nat.le_trans hle hg
    · rw [Function.update_of_ne heq]
      exact hle
  case reporting => exact h.reporting
  case once => exact h.once
  case reported => exact h.reported
  case owned => exact h.owned
  case ordered => exact h.ordered
  case counted => exact h.counted
  case running => exact h.running
  case out => exact h.out
  case aside => exact h.aside
  case retired => exact h.retired

theorem create_rows_of_lt {s : Manager} {row : SessionRunner} {r : Nat} (h : r < s.created) :
    (s.create row).rows r = s.rows r :=
  Function.update_of_ne (Nat.ne_of_lt h) _ _

theorem create_rows_self (s : Manager) (row : SessionRunner) :
    (s.create row).rows s.created = row :=
  Function.update_self _ _ _

/-- A new runner for a session that has none, of a generation above every earlier one. -/
theorem FenceInv.create {s : Manager} (h : s.FenceInv) {row : SessionRunner}
    (hx : s.runners row.session = none) (hhigh : s.highest row.session = some row.generation)
    (habove : ∀ r < s.created, (s.rows r).session = row.session →
      (s.rows r).generation < row.generation)
    (hfresh : row.cancelRequested = false ∧ row.cancels = 0) : (s.create row).FenceInv := by
  have hold : ∀ {r}, r < s.created → (s.create row).rows r = s.rows r :=
    fun hr => create_rows_of_lt hr
  have hrunners : ∀ y, y ≠ row.session → (s.create row).runners y = s.runners y :=
    fun y hy => Function.update_of_ne hy _ _
  have hself : (s.create row).runners row.session = some s.created :=
    Function.update_self _ _ _
  have hactive : ∀ {r}, r < s.created → ((s.create row).Active r ↔ s.Active r) := by
    intro r hr
    constructor
    · rintro ⟨y, hy⟩
      by_cases heq : y = row.session
      · rw [heq, hself] at hy
        have := Option.some.inj hy
        omega
      · rw [hrunners y heq] at hy
        exact ⟨y, hy⟩
    · rintro ⟨y, hy⟩
      have hne : y ≠ row.session := by
        rintro rfl
        rw [hx] at hy
        cases hy
      exact ⟨y, by rw [hrunners y hne, hy]⟩
  have hnew : (s.create row).Active s.created := ⟨_, hself⟩
  have hkey : ∀ r < s.created, (s.create row).key r = s.key r := by
    intro r hr
    rw [key, key, hold hr]
  have hcloses : (s.create row).closes = s.closes := by
    show s.sent.filterMap Sent.closes ++ s.reporting.map (s.create row).key = s.closes
    rw [List.map_congr_left fun r hr => hkey r (h.reporting hr)]
    rfl
  have hcases : ∀ {r}, r < (s.create row).created → r < s.created ∨ r = s.created := by
    intro r hr
    have : r < s.created + 1 := hr
    omega
  constructor
  case owned =>
    intro y r hy
    by_cases heq : y = row.session
    · rw [heq, hself] at hy
      rw [← Option.some.inj hy, create_rows_self, heq]
      exact ⟨Nat.lt_succ_self _, rfl⟩
    · rw [hrunners y heq] at hy
      have hown := h.owned hy
      rw [hold hown.1]
      exact ⟨Nat.lt_succ_of_lt hown.1, hown.2⟩
  case newest =>
    intro y r hy
    by_cases heq : y = row.session
    · rw [heq, hself] at hy
      rw [← Option.some.inj hy, create_rows_self, heq]
      exact hhigh
    · rw [hrunners y heq] at hy
      rw [hold (h.owned hy).1]
      exact h.newest hy
  case bounded =>
    intro hstop r hr
    rcases hcases hr with hlt | rfl
    · rw [hold hlt]
      exact h.bounded hstop hlt
    · rw [create_rows_self]
      show row.generation ≤ (s.highest row.session).getD 0
      rw [hhigh]
      exact Nat.le_refl _
  case ordered =>
    intro r r' hlt hr' heq
    rcases hcases hr' with hlt' | rfl
    · rw [hold hlt', hold (Nat.lt_trans hlt hlt')] at heq ⊢
      exact h.ordered hlt hlt' heq
    · rw [hold hlt, create_rows_self] at heq ⊢
      exact habove r hlt heq
  case counted =>
    intro r hr
    rcases hcases hr with hlt | rfl
    · rw [hold hlt]
      exact h.counted hlt
    · rw [create_rows_self, hfresh.1, hfresh.2]
      rfl
  case running =>
    intro r hr
    by_cases hlt : r < s.created
    · rw [hold hlt]
      exact h.running ((hactive hlt).mp hr)
    · rcases hr with ⟨y, hy⟩
      by_cases heq : y = row.session
      · rw [heq, hself] at hy
        rw [← Option.some.inj hy, create_rows_self]
        exact hfresh.1
      · rw [hrunners y heq] at hy
        exact absurd (h.owned hy).1 hlt
  case out =>
    intro r hr hact
    rcases hcases hr with hlt | rfl
    · rw [hold hlt]
      exact h.out hlt fun ha => hact ((hactive hlt).mpr ha)
    · exact absurd hnew hact
  case aside =>
    intro hstop r hr hact
    rcases hcases hr with hlt | rfl
    · rw [hold hlt]
      exact h.aside hstop hlt fun ha => hact ((hactive hlt).mpr ha)
    · exact absurd hnew hact
  case retired =>
    intro r hr
    have hret := h.retired hr
    exact ⟨Nat.lt_succ_of_lt hret.1, fun ha => hret.2 ((hactive hret.1).mp ha)⟩
  case reporting => exact fun hr => Nat.lt_succ_of_lt (h.reporting hr)
  case once => exact hcloses ▸ h.once
  case reported =>
    intro k hk
    rw [hcloses] at hk
    rcases h.reported hk with ⟨r, hr, hk, hact⟩
    exact ⟨r, Nat.lt_succ_of_lt hr, (hkey r hr).trans hk,
      fun ha => hact ((hactive hr).mp ha)⟩

/-! ## One step -/

theorem send_sameFences {s : Manager} {m : Sent} (hm : m.closes = none) :
    SameFences s (s.send m) := by
  constructor
  case closed => simp [send, hm]
  case done => exact fun _ h => h
  all_goals intros; rfl

theorem resendReady_sameFences (s : Manager) (r : Nat) : SameFences s (s.resendReady r) := by
  unfold resendReady
  split
  · exact send_sameFences rfl
  · exact SameFences.refl s

theorem supersede_runner {s : Manager} {x r : Nat} (g : Nat) (hx : s.runners x = some r) :
    s.supersede x g =
      { s.popRetire x r with
        highest := Function.update (s.popRetire x r).highest x (some g) } := by
  unfold supersede
  rw [hx]
  rfl

theorem supersede_none {s : Manager} {x : Nat} (g : Nat) (hx : s.runners x = none) :
    s.supersede x g = { s with highest := Function.update s.highest x (some g) } := by
  unfold supersede
  rw [hx]

/-- What `open` leaves of a session before it builds the new runner. -/
structure Superseded (s t : Manager) (x g : Nat) : Prop where
  inv : t.FenceInv
  runners : t.runners x = none
  highest : t.highest x = some g
  created : t.created = s.created
  session : ∀ r, (t.rows r).session = (s.rows r).session
  generation : ∀ r, (t.rows r).generation = (s.rows r).generation
  active : ∀ {r}, t.Active r → s.Active r

theorem FenceInv.supersede {s : Manager} (h : s.FenceInv) {x g : Nat}
    (hg : s.highestOf x ≤ g) : Superseded s (s.supersede x g) x g := by
  rcases hx : s.runners x with _ | r
  · rw [supersede_none g hx]
    exact
      { inv := h.raise hx hg
        runners := hx
        highest := Function.update_self _ _ _
        created := rfl
        session := fun _ => rfl
        generation := fun _ => rfl
        active := fun ha => ha }
  · rw [supersede_runner g hx]
    have hpop : (s.popRetire x r).runners x = none := Function.update_self _ _ _
    exact
      { inv := (h.popRetire hx).raise hpop hg
        runners := hpop
        highest := Function.update_self _ _ _
        created := rfl
        session := popRetire_session s x r
        generation := popRetire_generation s x r
        active := fun ha => ((h.active_popRetire hx _).mp ha).1 }

theorem FenceInv.openSession {s : Manager} (h : s.FenceInv) (hstop : s.stopped = false)
    (control : Open) (drawn : Int) : (s.openSession control drawn).FenceInv := by
  unfold Manager.openSession
  split
  · exact h
  · next g _ =>
    split
    · exact h
    · next hlow =>
      split
      · split
        · exact (resendReady_sameFences s _).fenceInv h
        · exact h
      · next hne =>
        have hlt : s.highestOf control.session < g := by omega
        have hsup := h.supersede (Nat.le_of_lt hlt)
        dsimp only
        split
        · exact hsup.inv
        · apply hsup.inv.create hsup.runners hsup.highest _ ⟨rfl, rfl⟩
          -- every earlier runner of the session is at most the old highest
          intro r hr hsession
          rw [hsup.created] at hr
          rw [hsup.session] at hsession
          rw [hsup.generation]
          have hle := h.bounded hstop hr
          rw [hsession] at hle
          exact Nat.lt_of_le_of_lt hle hlt

theorem updateSession_sameFences (s : Manager) (control : Update) :
    SameFences s (s.updateSession control) := by
  unfold updateSession
  split
  · exact SameFences.refl s
  · split
    · exact setRunner_sameFences (SessionRunner.update_keeps _ _)
    · exact SameFences.refl s

theorem submit_sameFences (s : Manager) (x revision : Nat) (payload : List UInt8) :
    SameFences s (s.submit x revision payload) := by
  unfold submit
  split
  · exact SameFences.refl s
  · exact setRunner_sameFences (SessionRunner.submit_keeps _ _ _)

/-- `close` of the runner whose generation it names. -/
theorem closeSession_matching {s : Manager} {control : Close} {r : Nat}
    (hx : s.runners control.session = some r)
    (hmatch : (s.rows r).matchesGeneration (controlGeneration control.generation)) :
    s.closeSession control =
      { s.popRetire control.session r with
        reporting := (s.popRetire control.session r).reporting ++ [r] } := by
  unfold closeSession
  rw [hx]
  dsimp only
  rw [if_pos hmatch]
  rfl

/-- `close` of a session with a runner of another generation is ignored. -/
theorem closeSession_other {s : Manager} {control : Close} {r : Nat}
    (hx : s.runners control.session = some r)
    (hmatch : ¬ (s.rows r).matchesGeneration (controlGeneration control.generation)) :
    s.closeSession control = s := by
  unfold closeSession
  rw [hx]
  dsimp only
  rw [if_neg hmatch]

/-- `close` of a session without a runner leaves the tombstone. -/
theorem closeSession_none {s : Manager} {control : Close} {g : Nat}
    (hx : s.runners control.session = none)
    (hg : controlGeneration control.generation = some g) :
    s.closeSession control =
      { s with
        highest :=
          Function.update s.highest control.session
            (some (max (s.highestOf control.session) g)) } := by
  unfold closeSession
  rw [hx, hg]

theorem closeSession_unfenced {s : Manager} {control : Close}
    (hx : s.runners control.session = none)
    (hg : controlGeneration control.generation = none) : s.closeSession control = s := by
  unfold closeSession
  rw [hx, hg]

theorem FenceInv.closeSession {s : Manager} (h : s.FenceInv) (control : Close) :
    (s.closeSession control).FenceInv := by
  rcases hx : s.runners control.session with _ | r
  · rcases hg : controlGeneration control.generation with _ | g
    · rw [closeSession_unfenced hx hg]
      exact h
    · rw [closeSession_none hx hg]
      exact h.raise hx (Nat.le_max_left _ _)
  · by_cases hmatch : (s.rows r).matchesGeneration (controlGeneration control.generation)
    · rw [closeSession_matching hx hmatch]
      apply (h.popRetire hx).report (h.owned hx).1
      · exact fun ha => ((h.active_popRetire hx r).mp ha).2 rfl
      · -- a report under this name would be of another runner
        intro hk
        rw [popRetire_closes, key, popRetire_session, popRetire_generation] at hk
        rcases h.reported hk with ⟨r', hr', hkey, hact⟩
        have heq := h.key_injective hr' (h.owned hx).1 hkey
        exact hact (heq ▸ ⟨_, hx⟩)
    · rw [closeSession_other hx hmatch]
      exact h

theorem runs_sameFences {s : Manager} {r : Nat} {event : TaskEvent}
    {next : SessionRunner × List Sent} (hnext : (s.rows r).resume event = some next) :
    SameFences s { s.setRunner r fun _ => next.1 with sent := s.sent ++ next.2 } := by
  have hkeep := SessionRunner.resume_keeps hnext
  exact sameFences_setRunner hkeep.1 hkeep.2

theorem modelsChanged_sameFences (s : Manager) (byId : List (String × Manifest)) :
    SameFences s { s with byId := byId } := by
  constructor <;> intros <;> first | rfl | assumption

theorem FenceInv.reports {s : Manager} (h : s.FenceInv) {r : Nat} (hr : r ∈ s.reporting)
    {report : Report}
    (hreport : (report.session, report.generation) = s.key r) :
    (({ s with reporting := s.reporting.erase r } : Manager).send (.closed report)).FenceInv := by
  have hperm :
      (({ s with reporting := s.reporting.erase r } : Manager).send
        (.closed report)).closes.Perm s.closes := by
    show ((s.sent ++ [Sent.closed report]).filterMap Sent.closes ++
      (s.reporting.erase r).map s.key).Perm _
    have hsent :
        (s.sent ++ [Sent.closed report]).filterMap Sent.closes =
          s.sent.filterMap Sent.closes ++ [s.key r] := by
      simp [Sent.closes, hreport]
    rw [hsent, List.append_assoc]
    exact (((List.perm_cons_erase hr).map s.key).symm).append_left _
  constructor
  case once => exact (hperm.nodup_iff).mpr h.once
  case reported => exact fun hk => h.reported (hperm.mem_iff.mp hk)
  case reporting => exact fun hm => h.reporting (List.mem_of_mem_erase hm)
  case owned => exact h.owned
  case newest => exact h.newest
  case bounded => exact h.bounded
  case ordered => exact h.ordered
  case counted => exact h.counted
  case running => exact h.running
  case out => exact h.out
  case aside => exact h.aside
  case retired => exact h.retired

theorem FenceInv.forgets {s : Manager} (h : s.FenceInv) {r : Nat}
    (hdone : (s.rows r).phase = .done) :
    ({ s with retired := s.retired.filter (· ≠ r) } : Manager).FenceInv := by
  constructor
  case aside =>
    intro hstop r' hr' hact
    rcases h.aside hstop hr' hact with hmem | hd
    · by_cases heq : r' = r
      · exact .inr (heq ▸ hdone)
      · exact .inl (List.mem_filter.mpr ⟨hmem, by simpa using heq⟩)
    · exact .inr hd
  case retired => exact fun hm => h.retired (List.mem_filter.mp hm).1
  case reporting => exact h.reporting
  case once => exact h.once
  case reported => exact h.reported
  case owned => exact h.owned
  case newest => exact h.newest
  case bounded => exact h.bounded
  case ordered => exact h.ordered
  case counted => exact h.counted
  case running => exact h.running
  case out => exact h.out

/-- `shutdown` closes every runner; the retired ones were cancelled before. -/
theorem FenceInv.shutdown {s : Manager} (h : s.FenceInv) : s.shutdown.FenceInv := by
  have hnone : ∀ r, ¬ s.shutdown.Active r := by
    rintro r ⟨x, hx⟩
    cases hx
  have hclose : ∀ r, (s.shutdown.rows r).session = (s.rows r).session ∧
      (s.shutdown.rows r).generation = (s.rows r).generation := by
    intro r
    show (if _ then (s.rows r).close else s.rows r).session = _ ∧
      (if _ then (s.rows r).close else s.rows r).generation = _
    split
    · unfold SessionRunner.close
      split <;> exact ⟨rfl, rfl⟩
    · exact ⟨rfl, rfl⟩
  have hkey : s.shutdown.key = s.key := by
    funext r
    rw [key, key, (hclose r).1, (hclose r).2]
  have hcloses : s.shutdown.closes = s.closes := by
    show s.sent.filterMap Sent.closes ++ s.reporting.map s.shutdown.key = _
    rw [hkey]
    rfl
  have hcancel : ∀ {r}, r < s.created → (s.shutdown.rows r).cancelRequested = true ∧
      (s.shutdown.rows r).cancels = 1 := by
    intro r hr
    have hcount := h.counted hr
    show (if _ then (s.rows r).close else s.rows r).cancelRequested = true ∧
      (if _ then (s.rows r).close else s.rows r).cancels = 1
    by_cases hreq : (s.rows r).cancelRequested
    · rw [hreq] at hcount
      split
      · simp [SessionRunner.close, hreq, hcount]
      · exact ⟨hreq, hcount⟩
    · -- a runner not cancelled yet is active
      have hact : s.Active r := by
        by_contra hact
        exact hreq (h.out hr hact)
      rcases hact with ⟨x, hx⟩
      have hown : s.runners (s.rows r).session = some r := by rw [(h.owned hx).2, hx]
      rw [if_pos (.inl hown)]
      simp only [Bool.not_eq_true] at hreq
      rw [hreq] at hcount
      simp [SessionRunner.close, hreq, hcount]
  constructor
  case owned => exact fun hx => by cases hx
  case newest => exact fun hx => by cases hx
  case bounded => exact fun hstop => by cases hstop
  case ordered =>
    intro r r' hlt hr' heq
    rw [(hclose r).1, (hclose r').1] at heq
    rw [(hclose r).2, (hclose r').2]
    exact h.ordered hlt hr' heq
  case counted =>
    intro r hr
    rw [(hcancel hr).1, (hcancel hr).2]
    rfl
  case running => exact fun ha => absurd ha (hnone _)
  case out => exact fun hr _ => (hcancel hr).1
  case aside => exact fun hstop => by cases hstop
  case retired => exact fun hm => ⟨(h.retired hm).1, hnone _⟩
  case reporting => exact h.reporting
  case once => exact hcloses ▸ h.once
  case reported =>
    intro k hk
    rw [hcloses] at hk
    rcases h.reported hk with ⟨r, hr, hk, -⟩
    exact ⟨r, hr, by rw [hkey, hk], hnone r⟩

end Manager

open Manager

theorem step_fenceInv {s t : Manager} {l : Action} (h : s.FenceInv) (hst : step s l = some t) :
    t.FenceInv := by
  cases l <;> simp only [step] at hst
  case openSession control drawn =>
    split at hst
    · cases hst
    · next hstop =>
      cases hst
      exact h.openSession (by simpa using hstop) control drawn
  case updateSession control =>
    split at hst
    · cases hst
    · cases hst
      exact (updateSession_sameFences s control).fenceInv h
  case closeSession control =>
    split at hst
    · cases hst
    · cases hst
      exact h.closeSession control
  case submit x revision payload =>
    split at hst
    · cases hst
    · cases hst
      exact (submit_sameFences s x revision payload).fenceInv h
  case runs r event =>
    split at hst
    · rw [Option.map_eq_some_iff] at hst
      rcases hst with ⟨next, hnext, rfl⟩
      exact (runs_sameFences hnext).fenceInv h
    · cases hst
  case reports r durationMs category score =>
    split at hst
    · next hr =>
      cases hst
      exact h.reports hr rfl
    · cases hst
  case forgets r =>
    split at hst
    · next hr =>
      cases hst
      exact h.forgets hr.2
    · cases hst
  case modelsChanged byId =>
    cases hst
    exact (modelsChanged_sameFences s byId).fenceInv h
  case shutdown =>
    split at hst
    · cases hst
    · cases hst
      exact h.shutdown

theorem reach_fenceInv {s : Manager} (hs : machine.Reach Machine.anyStep s) : s.FenceInv := by
  apply hs.invariant
  · rintro _ ⟨byId, rfl⟩
    exact fresh_inv byId
  · intro s l t h _ hst
    exact step_fenceInv h hst

end Potocolom.Worker
