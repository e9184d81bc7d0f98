import Potocolom.Delivery.Steps

/-! # Requests and their futures

A future is written once. While it is pending its request belongs to the batch under way, so
nothing is pending when the executor is idle. -/

namespace Potocolom.Delivery

variable {p : Pictures} {s t : Worker p} {l : Label p} {r : Nat}

/-- What no step changes in a request, and when its future and its flag may change. -/
structure Follows (a b : FrameRequest p) : Prop where
  t2iAdapter : b.t2iAdapter = a.t2iAdapter
  params : b.params = a.params
  promptCache : b.promptCache = a.promptCache
  payload : b.payload = a.payload
  compositing : b.compositing = a.compositing
  encoding : b.encoding = a.encoding
  future : a.future.done = true → b.future = a.future
  cancelled : a.future.done = false → b.cancelled = a.cancelled

namespace Follows

variable {a b : FrameRequest p}

theorem refl (a : FrameRequest p) : Follows a a :=
  ⟨rfl, rfl, rfl, rfl, rfl, rfl, fun _ => rfl, fun _ => rfl⟩

theorem holder (h : Follows a b) : b.holder = a.holder := by
  unfold FrameRequest.holder
  rw [h.t2iAdapter, h.promptCache]

theorem pending (h : Follows a b) (hb : b.future.done = false) : a.future.done = false := by
  cases ha : a.future.done with
  | false => rfl
  | true =>
    rw [h.future ha, ha] at hb
    exact hb

end Follows

theorem live_iff (request : FrameRequest p) :
    request.live = true ↔ request.cancelled = false ∧ request.future.done = false := by
  unfold FrameRequest.live
  rw [Bool.and_eq_true, Bool.not_eq_true', Bool.not_eq_true']

theorem done_eq_false {future : Future p} : future.done = false ↔ future = .pending := by
  constructor
  · intro h
    cases future with
    | pending => rfl
    | result frame => cases h
    | exception error => cases h
    | cancelled => cases h
  · rintro rfl
    rfl

/-- A new value for a future that is pending. -/
theorem follows_resolve {request : FrameRequest p} (hpending : request.future.done = false)
    (future : Future p) : Follows request { request with future := future } := by
  refine ⟨rfl, rfl, rfl, rfl, rfl, rfl, fun hdone => ?_, fun _ => rfl⟩
  rw [hpending] at hdone
  cases hdone

/-- The flag, once the future is done. -/
theorem follows_marked {request : FrameRequest p} (hdone : request.future.done = true) :
    Follows request { request with cancelled := true } := by
  refine ⟨rfl, rfl, rfl, rfl, rfl, rfl, fun _ => rfl, fun hpending => ?_⟩
  rw [hdone] at hpending
  cases hpending

theorem follows_fail (request : FrameRequest p) (error : Raised) :
    Follows request (request.fail error) := by
  unfold FrameRequest.fail
  split
  · next hlive => exact follows_resolve ((live_iff _).1 hlive).2 _
  · exact .refl request

/-! ## One lemma for each operation -/

theorem failAll_follows (s : Worker p) (batch : List Nat) (error : Raised) (r : Nat) :
    Follows (s.requests r) ((s.failAll batch error).requests r) := by
  show Follows _ (if r ∈ batch then (s.requests r).fail error else s.requests r)
  split
  · exact follows_fail _ error
  · exact .refl _

theorem rendered_follows (s : Worker p) (batch : List Nat) (result : Nat → Rendered p) (r : Nat) :
    Follows (s.requests r) ((s.rendered batch result).requests r) := by
  show Follows _ (if r ∈ batch then
    { s.requests r with latent := (result r).latent, stages := (result r).stages }
    else s.requests r)
  split
  · exact ⟨rfl, rfl, rfl, rfl, rfl, rfl, fun _ => rfl, fun _ => rfl⟩
  · exact .refl _

theorem cancelAll_follows (s : Worker p) (batch : List Nat) (r : Nat) :
    Follows (s.requests r) ((s.cancelAll batch).requests r) := by
  show Follows _ (if r ∈ batch ∧ (s.requests r).future.done = false then
    { s.requests r with future := .cancelled } else s.requests r)
  split
  · next h => exact follows_resolve h.2 _
  · exact .refl _

/-- One request is replaced by one that follows it. -/
theorem update_follows {request : FrameRequest p} (h : Follows (s.requests r) request)
    (other : Nat) :
    Follows (s.requests other) (Function.update s.requests r request other) := by
  by_cases heq : other = r
  · rw [heq, Function.update_self]
    exact h
  · rw [Function.update_of_ne heq]
    exact .refl _

/-- What the task of a request does leaves the requests alone until it delivers. A task that
ends leaves its request resolved, or the batch with an exception. -/
structure Works (s t : Worker p) (r : Nat) : Prop where
  created : t.created = s.created
  frameResult : t.frameResult = s.frameResult
  follows : ∀ other, Follows (s.requests other) (t.requests other)
  others : ∀ other, other ≠ r → t.requests other = s.requests other
  tasks : ∀ other, other ≠ r → t.tasks other = s.tasks other
  executor : t.executor = s.executor ∨
    ∃ batch error, s.executor = .gathering batch none ∧ r ∈ batch ∧
      t.executor = .gathering batch (some error)
  ended : (t.tasks r).isEnded = true →
    (t.requests r).live = false ∨ ∀ batch, t.executor = .gathering batch none → r ∉ batch

theorem works_setTask (s : Worker p) {task : Task p}
    (hended : task.isEnded = true →
      (s.requests r).live = false ∨ ∀ batch, s.executor = .gathering batch none → r ∉ batch) :
    Works s (s.setTask r task) r := by
  refine ⟨rfl, rfl, fun _ => .refl _, fun _ _ => rfl,
    fun _ hne => Function.update_of_ne hne _ _, .inl rfl, fun h => ?_⟩
  have hupdate : (s.setTask r task).tasks r = task := Function.update_self _ _ _
  rw [hupdate] at h
  exact hended h

theorem works_running (s : Worker p) {task : Task p} (h : task.isEnded = false) :
    Works s (s.setTask r task) r := by
  apply works_setTask s
  intro hended
  rw [h] at hended
  cases hended

theorem works_raise (s : Worker p) (r : Nat) (error : Raised) : Works s (s.raise r error) r := by
  unfold Worker.raise
  split
  · next batch hexecutor =>
    split
    · next hr =>
      refine ⟨rfl, rfl, fun _ => .refl _, fun _ _ => rfl,
        fun _ hne => Function.update_of_ne hne _ _, .inr ⟨batch, error, hexecutor, hr, rfl⟩, ?_⟩
      exact fun _ => .inr fun _ heq => by cases heq
    · next hr =>
      refine works_setTask s fun _ => .inr fun batch' heq => ?_
      rw [hexecutor] at heq
      cases heq
      exact hr
  -- in every other position there is no gather to pass the exception on
  all_goals
    next hexecutor =>
      refine works_setTask s fun _ => .inr fun batch' heq => ?_
      rw [hexecutor] at heq
      cases heq

theorem works_start (s : Worker p) (r : Nat) (image : p.Image) (gpuMs : Nat) :
    Works s (s.start r image gpuMs) r := by
  unfold Worker.start
  split
  · exact works_running s rfl
  · exact works_running s rfl

theorem works_compose (s : Worker p) (r memory : Nat) (image : p.Image) (gpuMs : Nat) :
    Works s (s.compose r memory image gpuMs) r := by
  unfold Worker.compose
  simp only
  split
  · exact works_raise s r _
  · exact works_running s rfl

theorem works_deliver (s : Worker p) (r : Nat) (memory : Option Nat) (image sketch : p.Image)
    (gpuMs : Nat) : Works s (s.deliver r memory image sketch gpuMs) r := by
  unfold Worker.deliver
  simp only
  split
  · next hlive =>
    refine ⟨rfl, rfl, fun other => ?_, fun _ hne => Function.update_of_ne hne _ _,
      fun _ hne => Function.update_of_ne hne _ _, .inl rfl, fun _ => .inl ?_⟩
    · exact update_follows (follows_resolve ((live_iff _).1 hlive).2 _) other
    · show FrameRequest.live (Function.update s.requests r _ r) = false
      rw [Function.update_self]
      exact Bool.and_false _
  · next hlive => exact works_setTask s fun _ => .inl (Bool.eq_false_iff.2 hlive)

theorem works_encode (s : Worker p) (r : Nat) (memory : Option Nat) (image sketch : p.Image)
    (gpuMs : Nat) : Works s (s.encode r memory image sketch gpuMs) r := by
  unfold Worker.encode
  split
  · exact works_raise s r _
  · exact works_deliver s r memory image sketch gpuMs

theorem Works.batch (h : Works s t r) : t.executor.batch = s.executor.batch := by
  rcases h.executor with heq | ⟨batch, error, hs, -, ht⟩
  · rw [heq]
  · rw [hs, ht]
    rfl

/-! ## Every step -/

theorem does_follows (h : Does s l t) (hr : r < s.created) :
    Follows (s.requests r) (t.requests r) := by
  cases h with
  | hand batch =>
    show Follows _ (if s.created ≤ r then _ else s.requests r)
    rw [if_neg (by omega)]
    exact .refl _
  | enters => exact .refl _
  | refuses batch error => exact failAll_follows s batch error r
  | renders batch retried result => exact rendered_follows s batch result r
  | retries => exact .refl _
  | fails batch retried error => exact failAll_follows s batch error r
  | starts other image gpuMs => exact (works_start s other image gpuMs).follows r
  | composes other memory image gpuMs => exact (works_compose s other memory image gpuMs).follows r
  | encodes other memory image sketch gpuMs =>
    exact (works_encode s other memory image sketch gpuMs).follows r
  | returns => exact .refl _
  | handles batch error => exact failAll_follows s batch error r
  | closes => exact .refl _
  | stops => exact .refl _
  | closed batch => exact cancelAll_follows s batch r
  | cancel other _ hpending => exact update_follows (follows_resolve hpending _) r
  | marks other _ hdone => exact update_follows (follows_marked hdone) r

theorem does_created (h : Does s l t) : s.created ≤ t.created := by
  cases h with
  | hand batch => exact Nat.le_add_right _ _
  | starts other image gpuMs => exact (works_start s other image gpuMs).created.ge
  | composes other memory image gpuMs => exact (works_compose s other memory image gpuMs).created.ge
  | encodes other memory image sketch gpuMs =>
    exact (works_encode s other memory image sketch gpuMs).created.ge
  | _ => exact le_rfl

end Potocolom.Delivery
