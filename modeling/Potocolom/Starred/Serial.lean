import Potocolom.Starred.Machine

/-! # Toggles of one generation

Each toggle is chained to the one that was last when it was called, so that the toggles of a
generation take their turns, and a toggle that fails leaves the generation as it found it. -/

namespace Potocolom.Starred

variable {α : Type} [DecidableEq α] {s t : Studio α} {id : α} {n m : Nat}

/-! ## Turns -/

/-- The toggles of a generation, in the order of their calls: whichever is not resolved is
behind the end of the queue, and whichever has begun has none before it. -/
structure Serial (s : Studio α) : Prop where
  calls : ∀ n operation, s.operations n = some operation → n < s.calls
  queue : ∀ n operation, s.operations n = some operation → operation.stage ≠ .resolved →
    ∃ q, s.starredMutationQueues operation.id = some q ∧ n ≤ q
  queued : ∀ id q, s.starredMutationQueues id = some q →
    ∃ operation, s.operations q = some operation ∧ operation.id = id
  previous : ∀ n operation, s.operations n = some operation → ∀ p ∈ operation.previous,
    ∃ earlier, s.operations p = some earlier ∧ earlier.id = operation.id
  chained : ∀ n operation m earlier, s.operations n = some operation →
    s.operations m = some earlier → earlier.id = operation.id → m < n →
    earlier.stage = .resolved ∨ ∃ p ∈ operation.previous, m ≤ p
  turn : ∀ n operation m earlier, s.operations n = some operation →
    s.operations m = some earlier → earlier.id = operation.id → m < n →
    operation.stage ≠ .waiting → earlier.stage = .resolved

omit [DecidableEq α] in
theorem Serial.same (h : Serial s) (hoperations : t.operations = s.operations)
    (hcalls : t.calls = s.calls) (hqueues : t.starredMutationQueues = s.starredMutationQueues) :
    Serial t := by
  constructor
  · rw [hoperations, hcalls]
    exact h.calls
  · rw [hoperations, hqueues]
    exact h.queue
  · rw [hoperations, hqueues]
    exact h.queued
  · rw [hoperations]
    exact h.previous
  · rw [hoperations]
    exact h.chained
  · rw [hoperations]
    exact h.turn

/-- One operation goes on to its next stage. -/
structure Advances (s t : Studio α) (n : Nat) (operation : Operation α) (stage : Stage α) :
    Prop where
  before : s.operations n = some operation
  after : t.operations = Function.update s.operations n (some { operation with stage := stage })
  calls : t.calls = s.calls
  queues : t.starredMutationQueues = s.starredMutationQueues

omit [DecidableEq α] in
theorem Advances.cases {operation : Operation α} {stage : Stage α}
    (h : Advances s t n operation stage) {other : Operation α}
    (hother : t.operations m = some other) :
    m = n ∧ other = { operation with stage := stage } ∨ m ≠ n ∧ s.operations m = some other := by
  rw [h.after] at hother
  by_cases heq : m = n
  · rw [heq, Function.update_self] at hother
    exact .inl ⟨heq, (Option.some.inj hother).symm⟩
  · rw [Function.update_of_ne heq] at hother
    exact .inr ⟨heq, hother⟩

omit [DecidableEq α] in
/-- The operation before the step, of the same generation and chained to the same one. -/
theorem Advances.back {operation : Operation α} {stage : Stage α}
    (h : Advances s t n operation stage) {other : Operation α}
    (hother : t.operations m = some other) :
    ∃ old, s.operations m = some old ∧ other.id = old.id ∧ other.previous = old.previous := by
  rcases h.cases hother with ⟨rfl, rfl⟩ | ⟨-, hold⟩
  · exact ⟨operation, h.before, rfl, rfl⟩
  · exact ⟨other, hold, rfl, rfl⟩

omit [DecidableEq α] in
theorem Advances.forth {operation : Operation α} {stage : Stage α}
    (h : Advances s t n operation stage) {old : Operation α} (hold : s.operations m = some old) :
    ∃ other, t.operations m = some other ∧ other.id = old.id := by
  rw [h.after]
  by_cases heq : m = n
  · subst heq
    rw [h.before] at hold
    cases hold
    exact ⟨_, Function.update_self _ _ _, rfl⟩
  · exact ⟨old, (Function.update_of_ne heq _ _).trans hold, rfl⟩

omit [DecidableEq α] in
theorem Serial.advance (h : Serial s) {operation : Operation α} {stage : Stage α}
    (hadvances : Advances s t n operation stage) (hopen : operation.stage ≠ .resolved)
    (hturn : ∀ m earlier, s.operations m = some earlier → earlier.id = operation.id → m < n →
      earlier.stage = .resolved) : Serial t := by
  have hresolved : ∀ {m old other}, s.operations m = some old → t.operations m = some other →
      old.stage = .resolved → other.stage = .resolved := by
    intro m old other hold hother hdone
    rcases hadvances.cases hother with ⟨rfl, -⟩ | ⟨-, hsame⟩
    · rw [hadvances.before] at hold
      cases hold
      exact absurd hdone hopen
    · rw [hold] at hsame
      cases hsame
      exact hdone
  constructor
  · intro m other hother
    obtain ⟨old, hold, -⟩ := hadvances.back hother
    rw [hadvances.calls]
    exact h.calls m old hold
  · intro m other hother hdone
    rw [hadvances.queues]
    rcases hadvances.cases hother with ⟨rfl, rfl⟩ | ⟨-, hold⟩
    · exact h.queue m operation hadvances.before hopen
    · exact h.queue m other hold hdone
  · intro id q hq
    rw [hadvances.queues] at hq
    obtain ⟨old, hold, hid⟩ := h.queued id q hq
    obtain ⟨other, hother, hsame⟩ := hadvances.forth hold
    exact ⟨other, hother, hsame.trans hid⟩
  · intro m other hother p hp
    obtain ⟨old, hold, hid, hprevious⟩ := hadvances.back hother
    rw [hprevious] at hp
    obtain ⟨earlier, hearlier, heq⟩ := h.previous m old hold p hp
    obtain ⟨earlier', hearlier', hsame⟩ := hadvances.forth hearlier
    exact ⟨earlier', hearlier', hsame.trans (heq.trans hid.symm)⟩
  · intro m other k earlier hother hearlier hid hlt
    obtain ⟨old, hold, hidOld, hprevious⟩ := hadvances.back hother
    obtain ⟨earlier', hearlier', hidEarlier, -⟩ := hadvances.back hearlier
    have hsame : earlier'.id = old.id := hidEarlier.symm.trans (hid.trans hidOld)
    rw [hprevious]
    exact (h.chained m old k earlier' hold hearlier' hsame hlt).imp_left
      (hresolved hearlier' hearlier)
  · intro m other k earlier hother hearlier hid hlt hbegun
    obtain ⟨earlier', hearlier', hidEarlier, -⟩ := hadvances.back hearlier
    apply hresolved hearlier' hearlier
    rcases hadvances.cases hother with ⟨rfl, rfl⟩ | ⟨-, hold⟩
    · exact hturn k earlier' hearlier' (hidEarlier.symm.trans hid) hlt
    · exact h.turn m other k earlier' hold hearlier' (hidEarlier.symm.trans hid) hlt hbegun

omit [DecidableEq α] in
/-- When the operation it is chained to is resolved, it is the toggle's turn. -/
theorem Serial.first (h : Serial s) {operation : Operation α}
    (hoperation : s.operations n = some operation) (hprevious : s.Resolved operation.previous)
    (m : Nat) (earlier : Operation α) (hearlier : s.operations m = some earlier)
    (hid : earlier.id = operation.id) (hlt : m < n) : earlier.stage = .resolved := by
  rcases h.chained n operation m earlier hoperation hearlier hid hlt with hdone | ⟨p, hp, hle⟩
  · exact hdone
  · obtain ⟨last, hlast, hidLast⟩ := h.previous n operation hoperation p hp
    have hstage : last.stage = .resolved := by
      have hresolved := hprevious p hp
      rw [hlast] at hresolved
      exact Option.some.inj hresolved
    rcases Nat.lt_or_eq_of_le hle with hlt' | rfl
    · refine h.turn p last m earlier hlast hearlier (hid.trans hidLast.symm) hlt' ?_
      rw [hstage]
      intro h
      cases h
    · rw [hearlier] at hlast
      cases hlast
      exact hstage

/-- Another toggle joins the queue. -/
theorem Serial.toggle (h : Serial s) (id : α) : Serial (s.toggle id) := by
  have hcases : ∀ {m other}, (s.toggle id).operations m = some other →
      m = s.calls ∧ other = ⟨id, s.starredMutationQueues id, .waiting⟩ ∨
        m ≠ s.calls ∧ s.operations m = some other := by
    intro m other hother
    have hupdate : Function.update s.operations s.calls
        (some ⟨id, s.starredMutationQueues id, .waiting⟩) m = some other := hother
    by_cases heq : m = s.calls
    · rw [heq, Function.update_self] at hupdate
      exact .inl ⟨heq, (Option.some.inj hupdate).symm⟩
    · rw [Function.update_of_ne heq] at hupdate
      exact .inr ⟨heq, hupdate⟩
  have hold : ∀ {m other}, s.operations m = some other →
      (s.toggle id).operations m = some other := by
    intro m other hother
    have hne : m ≠ s.calls := Nat.ne_of_lt (h.calls m other hother)
    exact (Function.update_of_ne hne _ _).trans hother
  constructor
  · intro m other hother
    show m < s.calls + 1
    rcases hcases hother with ⟨rfl, -⟩ | ⟨-, hother⟩
    · exact Nat.lt_succ_self _
    · exact Nat.lt_succ_of_lt (h.calls m other hother)
  · intro m other hother hopen
    show ∃ q, Function.update s.starredMutationQueues id (some s.calls) other.id = some q ∧ m ≤ q
    rcases hcases hother with ⟨rfl, rfl⟩ | ⟨-, hother⟩
    · exact ⟨s.calls, Function.update_self _ _ _, Nat.le_refl _⟩
    · by_cases heq : other.id = id
      · rw [heq, Function.update_self]
        exact ⟨s.calls, rfl, Nat.le_of_lt (h.calls m other hother)⟩
      · rw [Function.update_of_ne heq]
        exact h.queue m other hother hopen
  · intro other q hq
    have hupdate : Function.update s.starredMutationQueues id (some s.calls) other = some q := hq
    by_cases heq : other = id
    · rw [heq, Function.update_self] at hupdate
      cases hupdate
      exact ⟨_, Function.update_self _ _ _, heq.symm⟩
    · rw [Function.update_of_ne heq] at hupdate
      obtain ⟨operation, hoperation, hid⟩ := h.queued other q hupdate
      exact ⟨operation, hold hoperation, hid⟩
  · intro m other hother p hp
    rcases hcases hother with ⟨rfl, rfl⟩ | ⟨-, hother⟩
    · obtain ⟨operation, hoperation, hid⟩ := h.queued id p hp
      exact ⟨operation, hold hoperation, hid⟩
    · obtain ⟨earlier, hearlier, hid⟩ := h.previous m other hother p hp
      exact ⟨earlier, hold hearlier, hid⟩
  · intro m other k earlier hother hearlier hid hlt
    rcases hcases hearlier with ⟨rfl, -⟩ | ⟨-, hearlier⟩
    · -- no call is later than this one
      rcases hcases hother with ⟨rfl, -⟩ | ⟨-, hother⟩
      · exact absurd hlt (Nat.lt_irrefl _)
      · have := h.calls m other hother
        omega
    · rcases hcases hother with ⟨rfl, rfl⟩ | ⟨-, hother⟩
      · by_cases hdone : earlier.stage = .resolved
        · exact .inl hdone
        · obtain ⟨q, hq, hle⟩ := h.queue k earlier hearlier hdone
          rw [hid] at hq
          exact .inr ⟨q, hq, hle⟩
      · exact h.chained m other k earlier hother hearlier hid hlt
  · intro m other k earlier hother hearlier hid hlt hbegun
    rcases hcases hother with ⟨rfl, rfl⟩ | ⟨-, hother⟩
    · exact absurd rfl hbegun
    · rcases hcases hearlier with ⟨rfl, -⟩ | ⟨-, hearlier⟩
      · have := h.calls m other hother
        omega
      · exact h.turn m other k earlier hother hearlier hid hlt hbegun

/-- A queue whose last operation is resolved is empty. -/
theorem Serial.clean (h : Serial s) {operation : Operation α}
    (hoperation : s.operations n = some operation) (hresolved : operation.stage = .resolved)
    (hlast : s.starredMutationQueues operation.id = some n) :
    Serial (s.clean operation.id) := by
  refine ⟨h.calls, ?_, ?_, h.previous, h.chained, h.turn⟩
  · intro m other hat hopen
    have hother : s.operations m = some other := hat
    by_cases heq : other.id = operation.id
    · exfalso
      obtain ⟨q, hq, hle⟩ := h.queue m other hother hopen
      rw [heq, hlast] at hq
      cases hq
      rcases Nat.lt_or_eq_of_le hle with hlt | rfl
      · apply hopen
        refine h.turn n operation m other hoperation hother heq hlt ?_
        rw [hresolved]
        intro h
        cases h
      · rw [hoperation] at hother
        cases hother
        exact hopen hresolved
    · obtain ⟨q, hq, hle⟩ := h.queue m other hother hopen
      exact ⟨q, (Function.update_of_ne heq _ _).trans hq, hle⟩
  · intro other q hq
    have hupdate : Function.update s.starredMutationQueues operation.id none other = some q := hq
    by_cases heq : other = operation.id
    · rw [heq, Function.update_self] at hupdate
      cases hupdate
    · rw [Function.update_of_ne heq] at hupdate
      exact h.queued other q hupdate

/-! ## The steps -/

variable {operation : Operation α} {sending : Sending α}

theorem perform_advances (hoperation : s.operations n = some operation) :
    ∃ stage, Advances s (s.perform n operation) n operation (.sending stage) :=
  ⟨_, hoperation, rfl, rfl, rfl⟩

omit [DecidableEq α] in
/-- Settling a toggle ends its request, whether or not the list is loaded anew. -/
theorem settle_advances (sending : Sending α) (hoperation : s.operations n = some operation)
    (succeeded : Bool) :
    ∃ reload, Advances s (s.settleMutation n operation sending succeeded) n operation
      (.settled reload) := by
  unfold Studio.settleMutation
  dsimp only
  split
  · exact ⟨_, hoperation, rfl, rfl, rfl⟩
  · exact ⟨_, hoperation, rfl, rfl, rfl⟩

omit [DecidableEq α] in
/-- A toggle that has begun goes on. -/
theorem Serial.goOn (h : Serial s) {stage : Stage α}
    (hadvances : Advances s t n operation stage) (hbegun : operation.stage ≠ .waiting)
    (hopen : operation.stage ≠ .resolved) : Serial t := by
  apply h.advance hadvances hopen
  intro m earlier hearlier hid hlt
  exact h.turn n operation m earlier hadvances.before hearlier hid hlt hbegun

theorem receive_same {requestEpoch : Nat} {load : ListLoad α} {listing : List α} :
    (s.receive requestEpoch load listing).operations = s.operations ∧
      (s.receive requestEpoch load listing).calls = s.calls ∧
      (s.receive requestEpoch load listing).starredMutationQueues = s.starredMutationQueues := by
  unfold Studio.receive
  dsimp only
  split
  · exact ⟨rfl, rfl, rfl⟩
  · exact ⟨rfl, rfl, rfl⟩

/-- What a step does. `mayFail` restricts the toggles that fail. -/
inductive Does (mayFail : Studio α → Sending α → Prop) (s : Studio α) : Studio α → Prop where
  | toggle (id : α) : Does mayFail s (s.toggle id)
  | perform (n : Nat) (operation : Operation α) : s.operations n = some operation →
    operation.stage = .waiting → s.Resolved operation.previous →
    Does mayFail s (s.perform n operation)
  | apply (n : Nat) (operation : Operation α) (sending : Sending α) :
    s.operations n = some operation → operation.stage = .sending sending →
    sending.applied = false → Does mayFail s (s.apply n operation sending)
  | succeed (n : Nat) (operation : Operation α) (sending : Sending α) :
    s.operations n = some operation → operation.stage = .sending sending →
    sending.applied = true → Does mayFail s (s.settleMutation n operation sending true)
  | fail (n : Nat) (operation : Operation α) (sending : Sending α) :
    s.operations n = some operation → operation.stage = .sending sending →
    sending.applied = false → mayFail s sending →
    Does mayFail s ((s.rollback sending).settleMutation n operation sending false)
  | resolve (n : Nat) (operation : Operation α) (reload : Option Nat) :
    s.operations n = some operation → operation.stage = .settled reload →
    Does mayFail s (s.setStage n operation .resolved)
  | clean (n : Nat) (operation : Operation α) : s.operations n = some operation →
    operation.stage = .resolved → s.starredMutationQueues operation.id = some n →
    Does mayFail s (s.clean operation.id)
  | nothing : Does mayFail s s
  | load : Does mayFail s s.load
  | answer (requestEpoch : Nat) (load : ListLoad α) (listing : List α) :
    s.loads requestEpoch = some load → load.listing = none → listing.Nodup →
    (∀ id, id ∈ listing ↔ id ∈ s.server) →
    Does mayFail s (s.answer requestEpoch load listing)
  | receive (requestEpoch : Nat) (load : ListLoad α) (listing : List α) :
    s.loads requestEpoch = some load → load.listing = some listing →
    Does mayFail s (s.receive requestEpoch load listing)
  | abort (requestEpoch : Nat) (load : ListLoad α) : s.loads requestEpoch = some load →
    Does mayFail s (s.abort requestEpoch)

/-- The condition on the toggles that fail, for a step. -/
def Label.Within (mayFail : Studio α → Sending α → Prop) (s : Studio α) : Label α → Prop
  | .fails n => ∀ operation sending, s.operations n = some operation →
    operation.stage = .sending sending → mayFail s sending
  | _ => True

variable {mayFail : Studio α → Sending α → Prop}

theorem step_does {l : Label α} (hwithin : l.Within mayFail s) (hstep : step s l = some t) :
    Does mayFail s t := by
  cases l with
  | toggles id =>
    cases hstep
    exact .toggle id
  | performs n =>
    simp only [step] at hstep
    split at hstep
    · next id previous hoperation =>
      split at hstep
      · next hprevious =>
        cases hstep
        exact .perform n _ hoperation rfl hprevious
      · cases hstep
    · cases hstep
  | applies n =>
    simp only [step] at hstep
    split at hstep
    · next id previous sending hoperation =>
      split at hstep
      · cases hstep
      · next happlied =>
        cases hstep
        exact .apply n _ sending hoperation rfl (by simpa using happlied)
    · cases hstep
  | succeeds n =>
    simp only [step] at hstep
    split at hstep
    · next id previous sending hoperation =>
      split at hstep
      · next happlied =>
        cases hstep
        exact .succeed n _ sending hoperation rfl happlied
      · cases hstep
    · cases hstep
  | fails n =>
    simp only [step] at hstep
    split at hstep
    · next id previous sending hoperation =>
      split at hstep
      · cases hstep
      · next happlied =>
        cases hstep
        exact .fail n _ sending hoperation rfl (by simpa using happlied)
          (hwithin _ sending hoperation rfl)
    · cases hstep
  | resolves n =>
    simp only [step] at hstep
    split at hstep
    · next id previous reload hoperation =>
      split at hstep
      · cases hstep
        exact .resolve n _ reload hoperation rfl
      · cases hstep
    · cases hstep
  | cleans n =>
    simp only [step] at hstep
    split at hstep
    · next id previous hoperation =>
      cases hstep
      split
      · next hlast => exact .clean n _ hoperation rfl hlast
      · exact .nothing
    · cases hstep
  | loads =>
    cases hstep
    exact .load
  | answers requestEpoch listing =>
    simp only [step] at hstep
    split at hstep
    · next mutationEpoch began hload =>
      split at hstep
      · next hlisting =>
        cases hstep
        refine .answer requestEpoch _ listing hload rfl hlisting.1 fun id => ?_
        exact ⟨hlisting.2.1 id, hlisting.2.2 id⟩
      · cases hstep
    · cases hstep
  | receives requestEpoch =>
    simp only [step] at hstep
    split at hstep
    · next mutationEpoch began listing hload =>
      cases hstep
      exact .receive requestEpoch _ listing hload rfl
    · cases hstep
  | aborts requestEpoch =>
    simp only [step] at hstep
    split at hstep
    · next hsome =>
      cases hstep
      obtain ⟨load, hload⟩ := Option.isSome_iff_exists.1 hsome
      exact .abort requestEpoch load hload
    · cases hstep

omit [DecidableEq α] in
theorem within_any {l : Label α} : l.Within (fun _ _ => True) s := by
  cases l with
  | fails n => exact fun _ _ _ _ => trivial
  | _ => exact trivial

/-! ## One after another -/

theorem Serial.does (h : Serial s) (hdoes : Does mayFail s t) : Serial t := by
  cases hdoes with
  | toggle id => exact h.toggle id
  | perform n operation hoperation hwaiting hprevious =>
    obtain ⟨stage, hadvances⟩ := perform_advances hoperation
    refine h.advance hadvances ?_ (h.first hoperation hprevious)
    rw [hwaiting]
    intro h
    cases h
  | apply n operation sending hoperation hstage =>
    have hadvances : Advances s (s.apply n operation sending) n operation
        (.sending { sending with applied := true }) := ⟨hoperation, rfl, rfl, rfl⟩
    refine h.goOn hadvances ?_ ?_
    · rw [hstage]
      intro h
      cases h
    · rw [hstage]
      intro h
      cases h
  | succeed n operation sending hoperation hstage =>
    obtain ⟨reload, hadvances⟩ := settle_advances sending hoperation true
    refine h.goOn hadvances ?_ ?_
    · rw [hstage]
      intro h
      cases h
    · rw [hstage]
      intro h
      cases h
  | fail n operation sending hoperation hstage =>
    have hrolled : Serial (s.rollback sending) := h.same rfl rfl rfl
    have hsame : (s.rollback sending).operations n = some operation := hoperation
    obtain ⟨reload, hadvances⟩ := settle_advances sending hsame false
    refine hrolled.goOn hadvances ?_ ?_
    · rw [hstage]
      intro h
      cases h
    · rw [hstage]
      intro h
      cases h
  | resolve n operation reload hoperation hstage =>
    have hadvances : Advances s (s.setStage n operation .resolved) n operation .resolved :=
      ⟨hoperation, rfl, rfl, rfl⟩
    refine h.goOn hadvances ?_ ?_
    · rw [hstage]
      intro h
      cases h
    · rw [hstage]
      intro h
      cases h
  | clean n operation hoperation hresolved hlast => exact h.clean hoperation hresolved hlast
  | nothing => exact h
  | load => exact h.same rfl rfl rfl
  | answer requestEpoch load listing => exact h.same rfl rfl rfl
  | receive requestEpoch load listing =>
    exact h.same receive_same.1 receive_same.2.1 receive_same.2.2
  | abort requestEpoch load => exact h.same rfl rfl rfl

omit [DecidableEq α] in
theorem start_serial (h : Start s) : Serial s := by
  have hnone : ∀ {n operation}, s.operations n ≠ some operation := by
    intro n operation hsome
    rw [h.operations n] at hsome
    cases hsome
  constructor
  · exact fun n operation hoperation => absurd hoperation hnone
  · exact fun n operation hoperation => absurd hoperation hnone
  · intro id q hq
    rw [h.queues id] at hq
    cases hq
  · exact fun n operation hoperation => absurd hoperation hnone
  · exact fun n operation m earlier hoperation => absurd hoperation hnone
  · exact fun n operation m earlier hoperation => absurd hoperation hnone

/-- The request of a toggle is under way. -/
def Sends (s : Studio α) (n : Nat) (id : α) (sending : Sending α) : Prop :=
  ∃ operation, s.operations n = some operation ∧ operation.id = id ∧
    operation.stage = .sending sending

omit [DecidableEq α] in
/-- Toggles of one generation are sent one after another. -/
theorem Serial.alone (h : Serial s) {sending' : Sending α} (hn : Sends s n id sending)
    (hm : Sends s m id sending') : n = m := by
  obtain ⟨operation, hoperation, hid, hstage⟩ := hn
  obtain ⟨operation', hoperation', hid', hstage'⟩ := hm
  have hne : ∀ {stage : Stage α} {sending : Sending α}, stage = .sending sending →
      stage ≠ .waiting ∧ stage ≠ .resolved := by
    rintro stage sending rfl
    constructor
    · intro h
      cases h
    · intro h
      cases h
  rcases Nat.lt_trichotomy n m with hlt | heq | hgt
  · exact absurd (h.turn m operation' n operation hoperation' hoperation (hid.trans hid'.symm) hlt
      (hne hstage').1) (hne hstage).2
  · exact heq
  · exact absurd (h.turn n operation m operation' hoperation hoperation' (hid'.trans hid.symm) hgt
      (hne hstage).1) (hne hstage').2

end Potocolom.Starred
