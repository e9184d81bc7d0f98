import Potocolom.Delivery.Blended
import Potocolom.Lib.Behaviour

/-! # Every request is resolved some time

While a batch is under way the loop or a task has something to do, and what they do is
bounded. So a request that is handed over does not stay pending. -/

namespace Potocolom.Delivery

variable {p : Pictures} {s t : Worker p} {l : Label p} {r : Nat}

/-! ## Work -/

/-- What the loop and the tasks do; the rest is done to them. -/
def Label.work : Label p → Bool
  | .hand _ => false
  | .enters _ => true
  | .renders _ => true
  | .starts _ => true
  | .composes _ => true
  | .encodes _ => true
  | .returns => true
  | .handles => true
  | .closes => false
  | .closed => true
  | .cancel _ => false
  | .marks _ => false

/-- There is work to do until the batch has ended. -/
theorem work_enabled (hexecutor : s.executor ≠ .idle) :
    ∃ l t, l.work = true ∧ step s l = some t := by
  cases hat : s.executor with
  | idle => exact absurd hat hexecutor
  | entering batch =>
    refine ⟨.enters none, { s with executor := .rendering batch false }, rfl, ?_⟩
    simp only [step, hat]
  | rendering batch retried =>
    refine ⟨.renders (.raised .notResidentError), s.failAll batch .notResidentError, rfl, ?_⟩
    simp only [step, hat]
  | gathering batch failure =>
    cases failure with
    | some error =>
      refine ⟨.handles, s.failAll batch error, rfl, ?_⟩
      simp only [step, hat]
    | none =>
      by_cases hended : ∀ r ∈ batch, (s.tasks r).isEnded = true
      · refine ⟨.returns, { s with executor := .idle }, rfl, ?_⟩
        simp only [step, hat]
        exact if_pos hended
      · -- some task of the batch is at work
        obtain ⟨r, hr⟩ := not_forall.1 hended
        obtain ⟨-, hrunning⟩ := Classical.not_imp.1 hr
        cases htask : s.tasks r with
        | ended =>
          rw [htask] at hrunning
          exact absurd rfl hrunning
        | created image gpuMs =>
          refine ⟨.starts r, s.start r image gpuMs, rfl, ?_⟩
          simp only [step, htask]
        | composing memory image gpuMs =>
          refine ⟨.composes r, s.compose r memory image gpuMs, rfl, ?_⟩
          simp only [step, htask]
        | encoding memory image sketch gpuMs =>
          refine ⟨.encodes r, s.encode r memory image sketch gpuMs, rfl, ?_⟩
          simp only [step, htask]
  | closing batch =>
    refine ⟨.closed, s.cancelAll batch, rfl, ?_⟩
    simp only [step, hat]

/-- The turns that a task still has. -/
def Task.weight : Task p → Nat
  | .ended => 0
  | .created _ _ => 3
  | .composing _ _ _ => 2
  | .encoding _ _ _ _ => 1

/-- What the executor still does, with the turns of the tasks that it will make. -/
def Executor.weight : Executor → Nat
  | .idle => 0
  | .entering batch => 3 * batch.length + 4
  | .rendering batch false => 3 * batch.length + 3
  | .rendering batch true => 3 * batch.length + 2
  | .gathering _ _ => 1
  | .closing _ => 1

def Worker.turns (s : Worker p) : Nat := ∑ r ∈ Finset.range s.created, (s.tasks r).weight

def Worker.rank (s : Worker p) : Nat := s.executor.weight + s.turns

theorem rendering_weight (batch : List Nat) (retried : Bool) :
    3 * batch.length + 2 ≤ (Executor.rendering batch retried).weight := by
  cases retried with
  | false => exact Nat.le_succ _
  | true => exact le_rfl

theorem turns_le (hcreated : t.created = s.created)
    (htasks : ∀ r, (t.tasks r).weight ≤ (s.tasks r).weight) : t.turns ≤ s.turns := by
  unfold Worker.turns
  rw [hcreated]
  exact Finset.sum_le_sum fun r _ => htasks r

/-- Each request of the batch gets one task. -/
theorem turns_rendered (s : Worker p) (batch : List Nat) (result : Nat → Rendered p) :
    (s.rendered batch result).turns ≤ s.turns + 3 * batch.length := by
  have htasks : ∀ r ∈ Finset.range s.created, ((s.rendered batch result).tasks r).weight ≤
      (s.tasks r).weight + if r ∈ batch then 3 else 0 := by
    intro r _
    show Task.weight (if r ∈ batch ∧ _ then _ else _) ≤ _
    by_cases hin : r ∈ batch
    · rw [if_pos hin]
      split
      · exact Nat.le_add_left 3 _
      · exact Nat.le_add_right _ 3
    · rw [if_neg (fun hboth => hin hboth.1)]
      exact Nat.le_add_right _ _
  have hbatch : (∑ r ∈ Finset.range s.created, if r ∈ batch then 3 else 0) ≤ 3 * batch.length := by
    rw [← Finset.sum_filter, Finset.sum_const, smul_eq_mul, Nat.mul_comm]
    apply Nat.mul_le_mul_left
    refine le_trans (Finset.card_le_card fun r hr => ?_) (List.toFinset_card_le batch)
    exact List.mem_toFinset.2 (Finset.mem_filter.1 hr).2
  calc (s.rendered batch result).turns
      = ∑ r ∈ Finset.range s.created, ((s.rendered batch result).tasks r).weight := rfl
    _ ≤ ∑ r ∈ Finset.range s.created, ((s.tasks r).weight + if r ∈ batch then 3 else 0) :=
        Finset.sum_le_sum htasks
    _ = s.turns + ∑ r ∈ Finset.range s.created, (if r ∈ batch then 3 else 0) :=
        Finset.sum_add_distrib
    _ ≤ s.turns + 3 * batch.length := Nat.add_le_add_left hbatch _

/-- A task has had a turn. -/
theorem turns_works (hworks : Works s t r) (hr : r < s.created)
    (hlt : (t.tasks r).weight < (s.tasks r).weight) : t.rank < s.rank := by
  have hturns : t.turns < s.turns := by
    unfold Worker.turns
    rw [hworks.created]
    refine Finset.sum_lt_sum (fun other _ => ?_) ⟨r, Finset.mem_range.2 hr, hlt⟩
    by_cases heq : other = r
    · rw [heq]
      exact hlt.le
    · rw [hworks.tasks other heq]
  have hexecutor : t.executor.weight ≤ s.executor.weight := by
    rcases hworks.executor with heq | ⟨batch, error, hs, -, ht⟩
    · rw [heq]
    · rw [hs, ht]
      exact le_rfl
  unfold Worker.rank
  omega

theorem raise_ended (s : Worker p) (r : Nat) (error : Raised) :
    (s.raise r error).tasks r = .ended := by
  unfold Worker.raise
  split
  · split
    · exact own_setTask s r
    · exact own_setTask s r
  all_goals exact own_setTask s r

theorem encode_ended (s : Worker p) (r : Nat) (memory : Option Nat) (image sketch : p.Image)
    (gpuMs : Nat) : (s.encode r memory image sketch gpuMs).tasks r = .ended := by
  unfold Worker.encode
  split
  · exact raise_ended s r _
  · unfold Worker.deliver
    simp only
    split
    · exact own_setTask s r
    · exact own_setTask s r

theorem start_weight (s : Worker p) (r : Nat) (image : p.Image) (gpuMs : Nat) :
    ((s.start r image gpuMs).tasks r).weight < 3 := by
  unfold Worker.start
  split
  · rw [own_setTask]
    show 1 < 3
    omega
  · rw [own_setTask]
    show 2 < 3
    omega

theorem compose_weight (s : Worker p) (r memory : Nat) (image : p.Image) (gpuMs : Nat) :
    ((s.compose r memory image gpuMs).tasks r).weight < 2 := by
  unfold Worker.compose
  simp only
  split
  · rw [raise_ended]
    show 0 < 2
    omega
  · rw [own_setTask]
    show 1 < 2
    omega

theorem failAll_rank (s : Worker p) (batch : List Nat) (error : Raised)
    (hexecutor : 0 < s.executor.weight) : (s.failAll batch error).rank < s.rank := by
  have hidle : (s.failAll batch error).rank = 0 + s.turns := rfl
  rw [hidle]
  unfold Worker.rank
  omega

/-- While a batch is under way no step adds to the work, and what the loop and the tasks do
takes some away. -/
theorem does_rank (hshape : Shape s) (hdoes : Does s l t) (hexecutor : s.executor ≠ .idle) :
    t.rank ≤ s.rank ∧ (l.work = true → t.rank < s.rank) := by
  have hworks : t.rank < s.rank → t.rank ≤ s.rank ∧ (l.work = true → t.rank < s.rank) :=
    fun hlt => ⟨hlt.le, fun _ => hlt⟩
  cases hdoes with
  | hand batch hidle => exact absurd hidle hexecutor
  | enters batch hat =>
    apply hworks
    show Executor.weight (.rendering batch false) + s.turns < s.executor.weight + s.turns
    rw [hat]
    exact Nat.add_lt_add_right (Nat.lt_succ_self _) _
  | refuses batch error hat =>
    apply hworks
    apply failAll_rank
    rw [hat]
    exact Nat.succ_pos _
  | renders batch retried result hat =>
    apply hworks
    have hturns := turns_rendered s batch result
    have hweight := rendering_weight batch retried
    show 1 + (s.rendered batch result).turns < s.executor.weight + s.turns
    rw [hat]
    omega
  | retries batch hat =>
    apply hworks
    show Executor.weight (.rendering batch true) + s.turns < s.executor.weight + s.turns
    rw [hat]
    exact Nat.add_lt_add_right (Nat.lt_succ_self _) _
  | fails batch retried error outcome hat =>
    apply hworks
    apply failAll_rank
    have hweight := rendering_weight batch retried
    rw [hat]
    omega
  | starts r image gpuMs htask =>
    apply hworks
    refine turns_works (works_start s r image gpuMs) (hshape.made (by rw [htask]; rfl)) ?_
    rw [htask]
    exact start_weight s r image gpuMs
  | composes r memory image gpuMs htask =>
    apply hworks
    refine turns_works (works_compose s r memory image gpuMs) (hshape.made (by rw [htask]; rfl)) ?_
    rw [htask]
    exact compose_weight s r memory image gpuMs
  | encodes r memory image sketch gpuMs htask =>
    apply hworks
    refine turns_works (works_encode s r memory image sketch gpuMs)
      (hshape.made (by rw [htask]; rfl)) ?_
    rw [htask, encode_ended]
    exact Nat.one_pos
  | returns batch hat _ =>
    apply hworks
    show 0 + s.turns < s.executor.weight + s.turns
    rw [hat]
    exact Nat.add_lt_add_right Nat.one_pos _
  | handles batch error hat =>
    apply hworks
    apply failAll_rank
    rw [hat]
    exact Nat.one_pos
  | closes batch hbatch _ _ =>
    refine ⟨?_, fun hwork => by cases hwork⟩
    show 1 + s.turns ≤ s.executor.weight + s.turns
    have hpos : 0 < s.executor.weight := by
      cases hat : s.executor with
      | idle => exact absurd hat hexecutor
      | entering batch => exact Nat.succ_pos _
      | rendering batch retried =>
        have hweight := rendering_weight batch retried
        omega
      | gathering batch failure => exact Nat.one_pos
      | closing batch => exact Nat.one_pos
    omega
  | stops batch hat =>
    refine ⟨?_, fun hwork => by cases hwork⟩
    have hturns : (s.stopTasks batch).turns ≤ s.turns := by
      refine turns_le rfl fun r => ?_
      show Task.weight (if r ∈ batch then .ended else s.tasks r) ≤ _
      split
      · exact Nat.zero_le _
      · exact le_rfl
    show 1 + (s.stopTasks batch).turns ≤ s.executor.weight + s.turns
    rw [hat]
    exact Nat.add_le_add_left hturns _
  | closed batch hat =>
    apply hworks
    show 0 + s.turns < s.executor.weight + s.turns
    rw [hat]
    exact Nat.add_lt_add_right Nat.one_pos _
  | cancel r => exact ⟨le_rfl, fun hwork => by cases hwork⟩
  | marks r => exact ⟨le_rfl, fun hwork => by cases hwork⟩

/-- The event loop does not rest while a batch is under way. -/
def Fair (b : (machine p).Behaviour) : Prop :=
  ∀ k, ∃ k', k ≤ k' ∧ ((b.state k').executor = .idle ∨
    ∃ l, l.work = true ∧ step (b.state k') l = some (b.state (k' + 1)))

theorem leads_done {b : (machine p).Behaviour} (hfair : Fair b) {n : Nat}
    (hr : r < (b.state n).created) :
    b.Leads n fun s => (s.requests r).future.done = true := by
  cases hdone : ((b.state n).requests r).future.done with
  | true => exact ⟨n, le_rfl, hdone⟩
  | false =>
    have hbusy : ∀ k, r < (b.state k).created → ((b.state k).requests r).future.done = false →
        (b.state k).executor ≠ .idle := by
      intro k hlt hpending hidle
      have hin := ((reach_shape (b.reach k)).1.waiting r hlt hpending).1
      rw [hidle] at hin
      cases hin
    refine Machine.Behaviour.leads_of_work (P := fun s : Worker p =>
      r < s.created ∧ (s.requests r).future.done = false) (fun l => l.work = true)
      Worker.rank ?_ ?_ ⟨hr, hdone⟩
    · rintro k l t ⟨hlt, hpending⟩ hstep
      have hdoes := step_does hstep
      obtain ⟨hle, hfalls⟩ := does_rank (reach_shape (b.reach k)).1 hdoes (hbusy k hlt hpending)
      cases hnow : (t.requests r).future.done with
      | true => exact .inl rfl
      | false =>
        have hcreated := does_created hdoes
        exact .inr ⟨⟨by omega, rfl⟩, hle, hfalls⟩
    · intro k
      obtain ⟨k', hle, hidle | hwork⟩ := hfair k
      · refine ⟨k', hle, .inl ?_⟩
        rintro ⟨hlt, hpending⟩
        exact hbusy k' hlt hpending hidle
      · exact ⟨k', hle, .inr hwork⟩

end Potocolom.Delivery
