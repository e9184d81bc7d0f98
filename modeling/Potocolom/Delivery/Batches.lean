import Potocolom.Delivery.Requests

/-! # The batch under way

Every request whose future is pending belongs to the batch under way, and while the batch is
gathered its task is at work. So the executor leaves no future of a batch pending. -/

namespace Potocolom.Delivery

variable {p : Pictures} {s t : Worker p} {l : Label p} {r : Nat}

/-- The batch has not been rendered. -/
def Executor.early : Executor → Bool
  | .idle => false
  | .entering _ => true
  | .rendering _ _ => true
  | .gathering _ _ => false
  | .closing _ => false

structure Shape (s : Worker p) : Prop where
  batch : ∀ r ∈ s.executor.batch, r < s.created
  waiting : ∀ r < s.created, (s.requests r).future.done = false →
    r ∈ s.executor.batch ∧ (s.requests r).cancelled = false
  apart : ∀ r ∈ s.executor.batch, ∀ other ∈ s.executor.batch, ∀ h,
    (s.requests r).holder = some h → (s.requests other).holder = some h → r = other
  unmade : ∀ r, s.created ≤ r → s.tasks r = .ended ∧ s.frameResult r = none
  early : s.executor.early = true → ∀ r ∈ s.executor.batch,
    s.tasks r = .ended ∧ s.frameResult r = none ∧
      ((s.requests r).future = .pending ∨ (s.requests r).future = .cancelled)

/-- A request that is still awaited while its batch is gathered has a task at work. -/
def Working (s : Worker p) : Prop :=
  ∀ batch, s.executor = .gathering batch none →
    ∀ r ∈ batch, (s.requests r).future.done = false → (s.tasks r).isEnded = false

theorem Shape.live (h : Shape s) (hr : r < s.created)
    (hpending : (s.requests r).future.done = false) : (s.requests r).live = true :=
  (live_iff _).2 ⟨(h.waiting r hr hpending).2, hpending⟩

/-- A task at work is one of a request that was made. -/
theorem Shape.made (h : Shape s) (htask : (s.tasks r).isEnded = false) : r < s.created := by
  by_contra hlt
  rw [(h.unmade r (by omega)).1] at htask
  cases htask

/-- Steps that hand no requests over. -/
theorem Shape.keeps (h : Shape s) (hcreated : t.created = s.created)
    (hfollows : ∀ r, r < s.created → Follows (s.requests r) (t.requests r))
    (hbatch : t.executor.batch = s.executor.batch ∨
      t.executor.batch = [] ∧ ∀ r, r < s.created → (t.requests r).future.done = true)
    (hunmade : ∀ r, s.created ≤ r → t.tasks r = .ended ∧ t.frameResult r = none)
    (hearly : t.executor.early = true → ∀ r ∈ t.executor.batch,
      t.tasks r = .ended ∧ t.frameResult r = none ∧
        ((t.requests r).future = .pending ∨ (t.requests r).future = .cancelled)) : Shape t := by
  refine ⟨?_, ?_, ?_, ?_, hearly⟩
  · intro r hr
    rw [hcreated]
    rcases hbatch with hsame | ⟨hempty, -⟩
    · exact h.batch r (hsame ▸ hr)
    · rw [hempty] at hr
      cases hr
  · intro r hr hpending
    rw [hcreated] at hr
    have hbefore := (hfollows r hr).pending hpending
    obtain ⟨hin, hflag⟩ := h.waiting r hr hbefore
    rcases hbatch with hsame | ⟨-, hdone⟩
    · rw [hsame, (hfollows r hr).cancelled hbefore]
      exact ⟨hin, hflag⟩
    · rw [hdone r hr] at hpending
      cases hpending
  · intro r hr other hother holder hholder hholder'
    rcases hbatch with hsame | ⟨hempty, -⟩
    · rw [hsame] at hr hother
      rw [(hfollows r (h.batch r hr)).holder] at hholder
      rw [(hfollows other (h.batch other hother)).holder] at hholder'
      exact h.apart r hr other hother holder hholder hholder'
    · rw [hempty] at hr
      cases hr
  · intro r hr
    exact hunmade r (hcreated ▸ hr)

/-! ## Handing a batch over -/

theorem handed_old (batch : List (FrameRequest p)) (hr : r < s.created) :
    (s.handed batch).requests r = s.requests r := by
  show (if s.created ≤ r then _ else _) = _
  rw [if_neg (by omega)]

theorem handed_new {batch : List (FrameRequest p)} {i : Nat} (hi : i < batch.length) :
    (s.handed batch).requests (s.created + i) = batch.get ⟨i, hi⟩ := by
  show (if s.created ≤ s.created + i then _ else _) = _
  rw [if_pos (by omega), Nat.add_sub_cancel_left, List.getElem?_eq_getElem hi, Option.getD_some]
  rfl

/-- A request of the batch, as it was handed over. -/
theorem mem_handed {batch : List (FrameRequest p)} (hr : r ∈ (s.handed batch).executor.batch) :
    ∃ i, ∃ hi : i < batch.length, r = s.created + i ∧
      (s.handed batch).requests r = batch.get ⟨i, hi⟩ := by
  have hrange : r ∈ List.range' s.created batch.length := hr
  obtain ⟨i, hi, rfl⟩ := List.mem_range'.1 hrange
  rw [Nat.one_mul]
  exact ⟨i, hi, rfl, handed_new hi⟩

theorem fresh_pending {request : FrameRequest p} (h : request.fresh = true) :
    (request.future = .pending ∧ request.cancelled = false) ∨ request.future = .cancelled := by
  unfold FrameRequest.fresh at h
  split at h
  · next heq => exact .inl ⟨heq, (Bool.not_eq_true' _).mp h⟩
  · next heq => exact .inr heq
  · cases h
  · cases h

theorem holder_promptCache {request : FrameRequest p} {h : Nat} (hholder : request.holder = some h) :
    request.promptCache = some h := by
  unfold FrameRequest.holder at hholder
  split at hholder
  · exact hholder
  · cases hholder

theorem Shape.handed (h : Shape s) {batch : List (FrameRequest p)} (hidle : s.executor = .idle)
    (hfresh : ∀ request ∈ batch, request.fresh = true) (hapart : batch.Pairwise Apart) :
    Shape (s.handed batch) := by
  have hbatch : (s.handed batch).executor.batch = List.range' s.created batch.length := rfl
  have hcreated : (s.handed batch).created = s.created + batch.length := rfl
  refine ⟨?_, ?_, ?_, ?_, ?_⟩
  · intro r hr
    obtain ⟨i, hi, rfl, -⟩ := mem_handed hr
    omega
  · intro r hr hpending
    by_cases hold : r < s.created
    · -- an earlier request is resolved, since the executor was idle
      rw [handed_old batch hold] at hpending
      have hin := (h.waiting r hold hpending).1
      rw [hidle] at hin
      cases hin
    · rw [hcreated] at hr
      obtain ⟨i, rfl⟩ := Nat.exists_eq_add_of_le (Nat.le_of_not_lt hold)
      have hi : i < batch.length := by omega
      rw [handed_new hi] at hpending ⊢
      refine ⟨?_, ?_⟩
      · rw [hbatch]
        exact List.mem_range'.2 ⟨i, hi, by omega⟩
      · rcases fresh_pending (hfresh _ (List.get_mem batch ⟨i, hi⟩)) with ⟨-, hflag⟩ | hcancelled
        · exact hflag
        · rw [hcancelled] at hpending
          cases hpending
  · intro r hr other hother holder hholder hholder'
    obtain ⟨i, hi, rfl, hri⟩ := mem_handed hr
    obtain ⟨j, hj, rfl, hrj⟩ := mem_handed hother
    rw [hri] at hholder
    rw [hrj] at hholder'
    have hnot : ∀ a b : FrameRequest p, a.holder = some holder → b.holder = some holder →
        ¬ Apart a b := by
      rintro a b ha hb (hnone | hne)
      · rw [holder_promptCache ha] at hnone
        cases hnone
      · rw [holder_promptCache ha, holder_promptCache hb] at hne
        exact hne rfl
    rcases Nat.lt_trichotomy i j with hlt | heq | hlt
    · exact absurd (List.pairwise_iff_get.1 hapart ⟨i, hi⟩ ⟨j, hj⟩ hlt) (hnot _ _ hholder hholder')
    · rw [heq]
    · exact absurd (List.pairwise_iff_get.1 hapart ⟨j, hj⟩ ⟨i, hi⟩ hlt) (hnot _ _ hholder' hholder)
  · intro r hr
    exact h.unmade r (by omega)
  · intro _ r hr
    obtain ⟨i, hi, rfl, hri⟩ := mem_handed hr
    obtain ⟨htask, hresult⟩ := h.unmade (s.created + i) (Nat.le_add_right _ _)
    refine ⟨htask, hresult, ?_⟩
    rw [hri]
    rcases fresh_pending (hfresh _ (List.get_mem batch ⟨i, hi⟩)) with ⟨hpending, -⟩ | hcancelled
    · exact .inl hpending
    · exact .inr hcancelled

/-! ## Every step -/

/-- A step of a task. -/
theorem Shape.works (h : Shape s) (htask : (s.tasks r).isEnded = false) (hworks : Works s t r) :
    Shape t := by
  refine h.keeps hworks.created (fun other _ => hworks.follows other) (.inl hworks.batch) ?_ ?_
  · intro other hother
    have hne : other ≠ r := by
      rintro rfl
      have hlt := h.made htask
      omega
    rw [hworks.tasks other hne, hworks.frameResult]
    exact h.unmade other hother
  · intro hearly other hother
    rcases hworks.executor with heq | ⟨batch, error, -, -, ht⟩
    · rw [heq] at hearly hother
      obtain ⟨hended, hresult, hfuture⟩ := h.early hearly other hother
      have hne : other ≠ r := by
        rintro rfl
        rw [hended] at htask
        cases htask
      rw [hworks.tasks other hne, hworks.frameResult, hworks.others other hne]
      exact ⟨hended, hresult, hfuture⟩
    · rw [ht] at hearly
      cases hearly

theorem failAll_done (h : Shape s) (error : Raised) {batch : List Nat}
    (hbatch : s.executor.batch = batch) (hr : r < s.created) :
    ((s.failAll batch error).requests r).future.done = true := by
  cases hdone : (s.requests r).future.done with
  | true => rw [(failAll_follows s batch error r).future hdone, hdone]
  | false =>
    have hin : r ∈ batch := hbatch ▸ (h.waiting r hr hdone).1
    show (FrameRequest.future (if r ∈ batch then _ else _)).done = true
    rw [if_pos hin, FrameRequest.fail, if_pos (h.live hr hdone)]
    rfl

theorem cancelAll_done (h : Shape s) {batch : List Nat} (hbatch : s.executor.batch = batch)
    (hr : r < s.created) : ((s.cancelAll batch).requests r).future.done = true := by
  cases hdone : (s.requests r).future.done with
  | true => rw [(cancelAll_follows s batch r).future hdone, hdone]
  | false =>
    have hin : r ∈ batch := hbatch ▸ (h.waiting r hr hdone).1
    show (FrameRequest.future (if r ∈ batch ∧ _ then _ else _)).done = true
    rw [if_pos ⟨hin, hdone⟩]
    rfl

theorem Shape.failAll (h : Shape s) (error : Raised) {batch : List Nat}
    (hbatch : s.executor.batch = batch) : Shape (s.failAll batch error) := by
  refine h.keeps rfl (fun r _ => failAll_follows s batch error r) (.inr ⟨rfl, ?_⟩) h.unmade ?_
  · exact fun r hr => failAll_done h error hbatch hr
  · exact fun hearly => by cases hearly

/-- One request is replaced, by a cancellation or by what it is marked with. -/
theorem Shape.update (h : Shape s) {request : FrameRequest p}
    (hfollows : Follows (s.requests r) request)
    (hfuture : request.future = (s.requests r).future ∨ request.future = .cancelled) :
    Shape { s with requests := Function.update s.requests r request } := by
  refine h.keeps rfl (fun other _ => update_follows hfollows other) (.inl rfl) h.unmade ?_
  intro hearly other hother
  obtain ⟨hended, hresult, hbefore⟩ := h.early hearly other hother
  refine ⟨hended, hresult, ?_⟩
  by_cases heq : other = r
  · subst heq
    show (Function.update s.requests other request other).future = _ ∨
      (Function.update s.requests other request other).future = _
    rw [Function.update_self]
    rcases hfuture with hsame | hcancelled
    · rw [hsame]
      exact hbefore
    · exact .inr hcancelled
  · show (Function.update s.requests r request other).future = _ ∨
      (Function.update s.requests r request other).future = _
    rw [Function.update_of_ne heq]
    exact hbefore

/-- The executor moves on with its batch. -/
theorem Shape.moves (h : Shape s) {executor : Executor} (hbatch : executor.batch = s.executor.batch)
    (hearly : executor.early = true → s.executor.early = true) :
    Shape { s with executor := executor } := by
  refine h.keeps rfl (fun r _ => .refl _) (.inl hbatch) h.unmade ?_
  intro hnow r hr
  exact h.early (hearly hnow) r (hbatch ▸ hr)

theorem does_shape (h : Shape s) (hworking : Working s) (hdoes : Does s l t) : Shape t := by
  cases hdoes with
  | hand batch hidle _ hfresh hapart => exact h.handed hidle hfresh hapart
  | enters batch hexecutor =>
    apply h.moves
    · rw [hexecutor]
      rfl
    · intro _
      rw [hexecutor]
      rfl
  | refuses batch error hexecutor => exact h.failAll error (by rw [hexecutor]; rfl)
  | renders batch retried result hexecutor =>
    have hbatch : s.executor.batch = batch := by
      rw [hexecutor]
      rfl
    refine h.keeps rfl (fun r _ => rendered_follows s batch result r) (.inl hbatch.symm) ?_ ?_
    · intro r hr
      have hnot : r ∉ batch := by
        intro hin
        have hlt := h.batch r (hbatch ▸ hin)
        omega
      show (if r ∈ batch ∧ _ then _ else s.tasks r) = _ ∧ (if r ∈ batch then _ else _) = _
      rw [if_neg (fun hin => hnot hin.1), if_neg hnot]
      exact h.unmade r hr
    · exact fun hearly => by cases hearly
  | retries batch hexecutor =>
    apply h.moves
    · rw [hexecutor]
      rfl
    · intro _
      rw [hexecutor]
      rfl
  | fails batch retried error outcome hexecutor => exact h.failAll error (by rw [hexecutor]; rfl)
  | starts r image gpuMs htask =>
    exact h.works (by rw [htask]; rfl) (works_start s r image gpuMs)
  | composes r memory image gpuMs htask =>
    exact h.works (by rw [htask]; rfl) (works_compose s r memory image gpuMs)
  | encodes r memory image sketch gpuMs htask =>
    exact h.works (by rw [htask]; rfl) (works_encode s r memory image sketch gpuMs)
  | returns batch hexecutor hended =>
    refine h.keeps rfl (fun r _ => .refl _) (.inr ⟨rfl, ?_⟩) h.unmade ?_
    · intro r hr
      cases hdone : (s.requests r).future.done with
      | true => rfl
      | false =>
        -- its task would be at work
        have hin := (h.waiting r hr hdone).1
        rw [hexecutor] at hin
        have hrunning := hworking batch hexecutor r hin hdone
        rw [hended r hin] at hrunning
        cases hrunning
    · exact fun hearly => by cases hearly
  | handles batch error hexecutor => exact h.failAll error (by rw [hexecutor]; rfl)
  | closes batch hbatch _ _ =>
    apply h.moves
    · exact hbatch.symm
    · exact fun hearly => by cases hearly
  | stops batch hexecutor =>
    refine h.keeps rfl (fun r _ => .refl _) (.inl ?_) ?_ ?_
    · rw [hexecutor]
      rfl
    · intro r hr
      obtain ⟨htask, hresult⟩ := h.unmade r hr
      refine ⟨?_, hresult⟩
      show (if r ∈ batch then .ended else s.tasks r) = _
      rw [htask, ite_self]
    · exact fun hearly => by cases hearly
  | closed batch hexecutor =>
    refine h.keeps rfl (fun r _ => cancelAll_follows s batch r) (.inr ⟨rfl, ?_⟩) h.unmade ?_
    · exact fun r hr => cancelAll_done h (by rw [hexecutor]; rfl) hr
    · exact fun hearly => by cases hearly
  | cancel r _ hpending => exact h.update (follows_resolve hpending _) (.inr rfl)
  | marks r _ hdone => exact h.update (follows_marked hdone) (.inl rfl)

/-- The requests change without being pending anew, and the tasks do not. -/
theorem Working.same (hworking : Working s) (htasks : t.tasks = s.tasks)
    (hexecutor : t.executor = s.executor)
    (hfollows : ∀ r, Follows (s.requests r) (t.requests r)) : Working t := by
  intro batch hgathering r hr hpending
  rw [htasks]
  exact hworking batch (hexecutor ▸ hgathering) r hr ((hfollows r).pending hpending)

theorem Working.works (hworking : Working s) (h : Shape t) (hworks : Works s t r) : Working t := by
  intro batch hgathering other hother hpending
  by_cases heq : other = r
  · subst heq
    cases hended : (t.tasks other).isEnded with
    | false => rfl
    | true =>
      have hlt : other < t.created := h.batch other (by rw [hgathering]; exact hother)
      rcases hworks.ended hended with hlive | hnot
      · rw [h.live hlt hpending] at hlive
        cases hlive
      · exact absurd hother (hnot batch hgathering)
  · rw [hworks.tasks other heq]
    rcases hworks.executor with hsame | ⟨_, _, _, _, ht⟩
    · exact hworking batch (hsame ▸ hgathering) other hother
        ((hworks.follows other).pending hpending)
    · rw [ht] at hgathering
      cases hgathering

theorem does_working (h : Shape s) (hworking : Working s) (hdoes : Does s l t) : Working t := by
  have hshape := does_shape h hworking hdoes
  cases hdoes with
  | renders batch retried result hexecutor =>
    intro batch' hgathering r hr hpending
    cases hgathering
    have hlt : r < s.created := h.batch r (by rw [hexecutor]; exact hr)
    have hlive := h.live hlt ((rendered_follows s batch result r).pending hpending)
    show Task.isEnded (if r ∈ batch ∧ _ then _ else _) = false
    rw [if_pos ⟨hr, hlive⟩]
    rfl
  | starts r image gpuMs htask => exact hworking.works hshape (works_start s r image gpuMs)
  | composes r memory image gpuMs htask =>
    exact hworking.works hshape (works_compose s r memory image gpuMs)
  | encodes r memory image sketch gpuMs htask =>
    exact hworking.works hshape (works_encode s r memory image sketch gpuMs)
  | cancel r _ hpending =>
    exact hworking.same rfl rfl fun other => update_follows (follows_resolve hpending _) other
  | marks r _ hdone =>
    exact hworking.same rfl rfl fun other => update_follows (follows_marked hdone) other
  -- every other step leaves the executor elsewhere
  | _ => exact fun _ hgathering => by cases hgathering

/-- What holds of every reachable state. -/
theorem reach_shape {ok : Worker p → Label p → Prop} (h : (machine p).Reach ok s) :
    Shape s ∧ Working s := by
  refine h.invariant (I := fun s => Shape s ∧ Working s) ?_ ?_
  · rintro s ⟨hcreated, -, htasks, hresult, hexecutor⟩
    have hbatch : s.executor.batch = [] := by
      rw [hexecutor]
      rfl
    refine ⟨⟨?_, ?_, ?_, fun r _ => ⟨htasks r, hresult r⟩, ?_⟩, ?_⟩
    · intro r hr
      rw [hbatch] at hr
      cases hr
    · intro r hr
      omega
    · intro r hr
      rw [hbatch] at hr
      cases hr
    · intro hearly
      rw [hexecutor] at hearly
      cases hearly
    · intro batch hgathering
      rw [hexecutor] at hgathering
      cases hgathering
  · rintro s l t ⟨hshape, hworking⟩ - hstep
    have hdoes := step_does hstep
    exact ⟨does_shape hshape hworking hdoes, does_working hshape hworking hdoes⟩

end Potocolom.Delivery
