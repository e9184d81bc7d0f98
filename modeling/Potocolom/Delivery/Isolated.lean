import Potocolom.Delivery.Progress

/-! # Frames are delivered to each request by itself

What one request raises reaches the others when the loop of the collector handles it: each
that is still awaited gets the error instead of its own frame. Where none is left then but
those that raise as well, every request gets what was rendered for it. -/

namespace Potocolom.Delivery

variable {p : Pictures} {s t : Worker p} {l : Label p} {r h : Nat}

/-! ## Results -/

theorem failAll_stages (s : Worker p) (batch : List Nat) (error : Raised) (r : Nat) :
    ((s.failAll batch error).requests r).stages = (s.requests r).stages := by
  show FrameRequest.stages (if r ∈ batch then (s.requests r).fail error else _) = _
  split
  · unfold FrameRequest.fail
    split
    · rfl
    · rfl
  · rfl

/-- A request is handed over without an answer. -/
theorem does_new (hdoes : Does s l t) (hr : r < t.created) (hnew : s.created ≤ r) :
    (t.requests r).future = .pending ∨ (t.requests r).future = .cancelled := by
  have hcontra : t.created = s.created → False := fun heq => by omega
  cases hdoes with
  | hand batch _ _ hfresh _ =>
    obtain ⟨i, rfl⟩ := Nat.exists_eq_add_of_le hnew
    have hcreated : (s.handed batch).created = s.created + batch.length := rfl
    have hi : i < batch.length := by omega
    rw [handed_new hi]
    rcases fresh_pending (hfresh _ (List.get_mem batch ⟨i, hi⟩)) with ⟨hpending, -⟩ | hcancelled
    · exact .inl hpending
    · exact .inr hcancelled
  | starts other image gpuMs => exact absurd (works_start s other image gpuMs).created hcontra
  | composes other memory image gpuMs =>
    exact absurd (works_compose s other memory image gpuMs).created hcontra
  | encodes other memory image sketch gpuMs =>
    exact absurd (works_encode s other memory image sketch gpuMs).created hcontra
  | _ => exact absurd rfl hcontra

/-- What was rendered for a request stays once it has got a result or an exception. -/
theorem does_kept (hshape : Shape s) (hdoes : Does s l t) (hr : r < s.created)
    (hdone : (s.requests r).future.done = true) (hnot : (s.requests r).future ≠ .cancelled) :
    t.frameResult r = s.frameResult r ∧ (t.requests r).stages = (s.requests r).stages := by
  cases hdoes with
  | hand batch =>
    refine ⟨rfl, ?_⟩
    rw [handed_old batch hr]
  | refuses batch error => exact ⟨rfl, failAll_stages s batch error r⟩
  | renders batch retried result hexecutor =>
    -- it is not in a batch that has not been rendered
    have hout : r ∉ batch := by
      intro hin
      have hearly := hshape.early (by rw [hexecutor]; rfl) r (by rw [hexecutor]; exact hin)
      rcases hearly.2.2 with hpending | hcancelled
      · rw [hpending] at hdone
        cases hdone
      · exact hnot hcancelled
    refine ⟨if_neg hout, ?_⟩
    show FrameRequest.stages (if r ∈ batch then _ else _) = _
    rw [if_neg hout]
  | fails batch retried error => exact ⟨rfl, failAll_stages s batch error r⟩
  | starts other image gpuMs =>
    rw [(works_start s other image gpuMs).frameResult, (start_same s other image gpuMs).1]
    exact ⟨rfl, rfl⟩
  | composes other memory image gpuMs =>
    rw [(works_compose s other memory image gpuMs).frameResult,
      (compose_same s other memory image gpuMs).1]
    exact ⟨rfl, rfl⟩
  | encodes other memory image sketch gpuMs =>
    have hworks := works_encode s other memory image sketch gpuMs
    rw [hworks.frameResult]
    refine ⟨rfl, ?_⟩
    rcases encode_cases s other memory image sketch gpuMs with ⟨hsame, -⟩ | ⟨hlive, -, -⟩
    · rw [hsame]
    · have hne : r ≠ other := by
        rintro rfl
        rw [((live_iff _).1 hlive).2] at hdone
        cases hdone
      rw [hworks.others r hne]
  | handles batch error => exact ⟨rfl, failAll_stages s batch error r⟩
  | closed batch =>
    refine ⟨rfl, ?_⟩
    show FrameRequest.stages (if r ∈ batch ∧ _ then _ else _) = _
    split
    · rfl
    · rfl
  | cancel other =>
    refine ⟨rfl, ?_⟩
    show FrameRequest.stages (Function.update s.requests other _ r) = _
    by_cases heq : r = other
    · subst heq
      rw [Function.update_self]
    · rw [Function.update_of_ne heq]
  | marks other =>
    refine ⟨rfl, ?_⟩
    show FrameRequest.stages (Function.update s.requests other _ r) = _
    by_cases heq : r = other
    · subst heq
      rw [Function.update_self]
    · rw [Function.update_of_ne heq]
  | _ => exact ⟨rfl, rfl⟩

/-- The frame a request has got: its own, over one that its holder had shown, if any. -/
structure Received (s : Worker p) (r : Nat) (frame : GeneratedFrame p) (rendered : p.Image)
    (previous : Option (LastFrame p)) : Prop where
  result : s.frameResult r = some (rendered, frame.gpuMs)
  data : frame.data = p.encodeWebp (frameForDelivery previous (s.requests r).params
    (s.requests r).payload rendered).1
  stages : frame.stages = (s.requests r).stages
  previous : ∀ last ∈ previous, ∃ h, (s.requests r).holder = some h ∧ Shown s h last

def Receives (s : Worker p) : Prop :=
  ∀ r < s.created, ∀ frame, (s.requests r).future = .result frame →
    ∃ rendered previous, Received s r frame rendered previous

theorem does_receives (hshape : Shape s) (hown : ∀ r, Own s r)
    (hmemory : ∀ h last, s.memory h = some last → Shown s h last) (hreceives : Receives s)
    (hdoes : Does s l t) : Receives t := by
  intro r hr frame hresult
  by_cases hold : r < s.created
  · have hfollows := does_follows hdoes hold
    cases hdone : (s.requests r).future.done with
    | true =>
      have hbefore : (s.requests r).future = .result frame := by
        rw [← hresult, hfollows.future hdone]
      obtain ⟨rendered, previous, hreceived⟩ := hreceives r hold frame hbefore
      obtain ⟨hkept, hstages⟩ := does_kept hshape hdoes hold hdone
        (by rw [hbefore]; exact fun heq => by cases heq)
      refine ⟨rendered, previous, ?_, ?_, ?_, fun last hlast => ?_⟩
      · rw [hkept, hreceived.result]
      · rw [hfollows.params, hfollows.payload, hreceived.data]
      · rw [hstages, hreceived.stages]
      · obtain ⟨h, hholder, hshown⟩ := hreceived.previous last hlast
        exact ⟨h, by rw [hfollows.holder, hholder], hshown.step hdoes⟩
    | false =>
      obtain ⟨rendered, hdelivers⟩ := does_delivers (hown r) hdoes hold hdone hresult
      have hframe := hdelivers.future
      rw [hresult] at hframe
      refine ⟨rendered, (s.requests r).holder.bind s.memory, ?_, ?_, ?_, fun last hlast => ?_⟩
      · rw [hdelivers.kept.1, hdelivers.result]
      · rw [hfollows.params, hfollows.payload]
        exact congrArg GeneratedFrame.data (Future.result.inj hframe)
      · rw [hdelivers.kept.2]
        exact congrArg GeneratedFrame.stages (Future.result.inj hframe)
      · obtain ⟨h, hholder, hlast⟩ := Option.bind_eq_some_iff.1 hlast
        exact ⟨h, by rw [hfollows.holder, hholder], (hmemory h last hlast).step hdoes⟩
  · rcases does_new hdoes hr (Nat.le_of_not_lt hold) with hpending | hcancelled
    · rw [hresult] at hpending
      cases hpending
    · rw [hresult] at hcancelled
      cases hcancelled

/-! ## Failures -/

/-- Its own composite or its own encoding raises. -/
def FrameRequest.faulty (request : FrameRequest p) : Bool :=
  (request.holder.isSome && request.compositing.isSome) || request.encoding.isSome

theorem Follows.faulty {a b : FrameRequest p} (hfollows : Follows a b) : b.faulty = a.faulty := by
  unfold FrameRequest.faulty
  rw [hfollows.holder, hfollows.compositing, hfollows.encoding]

/-- When the loop handles what a task raised, the requests of the batch that are still awaited
raise themselves. -/
def Isolates (s : Worker p) : Label p → Prop
  | .handles => ∀ r ∈ s.executor.batch, (s.requests r).live = true → (s.requests r).faulty = true
  | .hand _ => True
  | .enters _ => True
  | .renders _ => True
  | .starts _ => True
  | .composes _ => True
  | .encodes _ => True
  | .returns => True
  | .closes => True
  | .closed => True
  | .cancel _ => True
  | .marks _ => True

instance decidableIsolates (s : Worker p) : (l : Label p) → Decidable (Isolates s l)
  | .handles => inferInstanceAs (Decidable (∀ r ∈ s.executor.batch, _))
  | .hand _ => isTrue trivial
  | .enters _ => isTrue trivial
  | .renders _ => isTrue trivial
  | .starts _ => isTrue trivial
  | .composes _ => isTrue trivial
  | .encodes _ => isTrue trivial
  | .returns => isTrue trivial
  | .closes => isTrue trivial
  | .closed => isTrue trivial
  | .cancel _ => isTrue trivial
  | .marks _ => isTrue trivial

/-- Only a request without an image of its own, or one that raises itself, has an exception. -/
def Deserved (s : Worker p) : Prop :=
  ∀ r < s.created, ∀ error, (s.requests r).future = .exception error →
    s.frameResult r = none ∨ (s.requests r).faulty = true

theorem does_deserved (hshape : Shape s) (hdeserved : Deserved s) (hisolates : Isolates s l)
    (hdoes : Does s l t) : Deserved t := by
  intro r hr error hexception
  by_cases hold : r < s.created
  · have hfollows := does_follows hdoes hold
    rw [hfollows.faulty]
    cases does_turn hdoes hold with
    | same hfuture =>
      rw [hexception] at hfuture
      have hkept := does_kept hshape hdoes hold (by rw [← hfuture]; rfl)
        (by rw [← hfuture]; exact fun heq => by cases heq)
      rw [hkept.1]
      exact hdeserved r hold error hfuture.symm
    | fails error' hlive hin hwhy hresult _ =>
      rcases hwhy with hearly | rfl
      · rw [hresult]
        exact .inl (hshape.early hearly r hin).2.1
      · exact .inr (hisolates r hin hlive)
    | cancelled _ _ hfuture =>
      rw [hexception] at hfuture
      cases hfuture
    | delivers memory image sketch gpuMs htask hlive hencoding ht =>
      rw [ht, deliver_live hlive] at hexception
      have hupdate : (Function.update s.requests r _ r).future = .exception error := hexception
      rw [Function.update_self] at hupdate
      cases hupdate
  · rcases does_new hdoes hr (Nat.le_of_not_lt hold) with hpending | hcancelled
    · rw [hexception] at hpending
      cases hpending
    · rw [hexception] at hcancelled
      cases hcancelled

/-- Every request of a batch that is gathered has been rendered. -/
def Gathered (s : Worker p) : Prop :=
  ∀ batch failure, s.executor = .gathering batch failure → ∀ r ∈ batch, s.frameResult r ≠ none

theorem Gathered.works (hgathered : Gathered s) (hworks : Works s t r) : Gathered t := by
  intro batch failure hat other hother
  rw [hworks.frameResult]
  rcases hworks.executor with heq | ⟨batch', error, hs, -, ht⟩
  · exact hgathered batch failure (heq ▸ hat) other hother
  · rw [hat] at ht
    cases ht
    exact hgathered batch none hs other hother

theorem does_gathered (hgathered : Gathered s) (hdoes : Does s l t) : Gathered t := by
  cases hdoes with
  | renders batch retried result =>
    intro batch' failure hat r hr
    cases hat
    show (if r ∈ batch then _ else _) ≠ _
    rw [if_pos hr]
    exact Option.some_ne_none _
  | starts r image gpuMs => exact hgathered.works (works_start s r image gpuMs)
  | composes r memory image gpuMs => exact hgathered.works (works_compose s r memory image gpuMs)
  | encodes r memory image sketch gpuMs =>
    exact hgathered.works (works_encode s r memory image sketch gpuMs)
  | cancel r => exact hgathered
  | marks r => exact hgathered
  | _ => exact fun _ _ hat => by cases hat

/-- What holds of every reachable state, whatever fails. -/
structure Sound (s : Worker p) : Prop where
  shape : Shape s
  working : Working s
  own : ∀ r, Own s r
  shown : ∀ h last, s.memory h = some last → Shown s h last
  receives : Receives s
  gathered : Gathered s

theorem reach_sound {ok : Worker p → Label p → Prop} (hreach : (machine p).Reach ok s) :
    Sound s := by
  refine hreach.invariant_of (I := fun s => Shape s ∧ Working s) (J := Sound)
    (fun _ h => reach_shape h) ?_ ?_
  · intro s hstart
    have hreach : (machine p).Reach Machine.anyStep s := .of_init hstart
    obtain ⟨hshape, hworking⟩ := reach_shape hreach
    refine ⟨hshape, hworking, fun r => own_ended (hstart.tasks r), ?_, ?_, ?_⟩
    · intro h last hlast
      rw [hstart.memory h] at hlast
      cases hlast
    · intro r hr
      rw [hstart.created] at hr
      exact absurd hr (Nat.not_lt_zero r)
    · intro batch failure hat
      rw [hstart.executor] at hat
      cases hat
  · rintro s l t ⟨hshape, hworking⟩ hsound - hstep
    have hdoes := step_does hstep
    exact ⟨does_shape hshape hworking hdoes, does_working hshape hworking hdoes,
      does_own hshape hsound.own hdoes, does_shown hshape hsound.own hsound.shown hdoes,
      does_receives hshape hsound.own hsound.shown hsound.receives hdoes,
      does_gathered hsound.gathered hdoes⟩

theorem reach_deserved (hreach : (machine p).Reach Isolates s) : Deserved s := by
  refine hreach.invariant_of (I := Sound) (J := Deserved) (fun _ h => reach_sound h) ?_ ?_
  · intro s hstart r hr
    rw [hstart.created] at hr
    exact absurd hr (Nat.not_lt_zero r)
  · intro s l t hsound hdeserved hisolates hstep
    exact does_deserved hsound.shape hdeserved hisolates (step_does hstep)

/-! ## The deliveries of a run -/

/-- Each future is written once, whoever writes it; the last frame of a holder is written where
a frame of that holder is delivered, and nowhere else. -/
structure Deliveries (s : Worker p) : Prop where
  /-- No batch ends with a request that waits. -/
  ended : s.executor = .idle → ∀ r < s.created, (s.requests r).future.done = true
  busy : s.executor ≠ .idle → ∃ l t, l.work = true ∧ step s l = some t
  once : ∀ l t, step s l = some t → ∀ r < s.created,
    (s.requests r).future.done = true → (t.requests r).future = (s.requests r).future
  cancelled : ∀ l t, step s l = some t → ∀ r < s.created,
    (s.requests r).future = .pending → (t.requests r).future = .cancelled →
      l = .cancel r ∨ l = .closed
  delivered : ∀ l t, step s l = some t → ∀ r < s.created, ∀ frame,
    (s.requests r).future = .pending → (t.requests r).future = .result frame →
      ∃ rendered, Delivers s t r rendered frame.gpuMs
  written : ∀ l t, step s l = some t → ∀ h, t.memory h ≠ s.memory h →
    ∃ r < s.created, (s.requests r).holder = some h ∧ (s.requests r).future = .pending ∧
      ∃ rendered gpuMs, Delivers s t r rendered gpuMs
  shown : ∀ h last, s.memory h = some last → Shown s h last

theorem reach_deliveries (hreach : (machine p).Reach Machine.anyStep s) : Deliveries s := by
  have hsound := reach_sound hreach
  constructor
  · intro hidle r hr
    cases hdone : (s.requests r).future.done with
    | true => rfl
    | false =>
      have hin := (hsound.shape.waiting r hr hdone).1
      rw [hidle] at hin
      cases hin
  · exact work_enabled
  · intro l t hstep r hr hdone
    exact (does_follows (step_does hstep) hr).future hdone
  · intro l t hstep r hr hpending hcancelled
    cases does_turn (step_does hstep) hr with
    | same hfuture =>
      rw [hcancelled, hpending] at hfuture
      cases hfuture
    | fails error _ _ _ _ hfuture =>
      rw [hcancelled] at hfuture
      cases hfuture
    | cancelled _ hwhy _ => exact hwhy
    | delivers memory image sketch gpuMs htask hlive _ ht =>
      obtain ⟨-, rendered, hdelivers⟩ := deliver_delivers (hsound.own r) htask hlive
      rw [← ht] at hdelivers
      have hfuture := hdelivers.future
      rw [hcancelled] at hfuture
      cases hfuture
  · intro l t hstep r hr frame hpending hresult
    exact does_delivers (hsound.own r) (step_does hstep) hr (done_eq_false.2 hpending) hresult
  · intro l t hstep h hne
    rcases does_memory hsound.shape hsound.own (step_does hstep) h with hsame | hdelivered
    · exact absurd hsame hne
    · obtain ⟨r, hr, hholder, hpending, hdelivers⟩ := hdelivered
      exact ⟨r, hr, hholder, done_eq_false.1 hpending, hdelivers⟩
  · exact hsound.shown

/-- A request that was rendered and does not raise has its own frame, unless it was cancelled. -/
def KeepsApart (s : Worker p) : Prop :=
  ∀ r < s.created, s.frameResult r ≠ none → (s.requests r).faulty = false →
    (s.requests r).future.done = true → (s.requests r).future = .cancelled ∨
      ∃ frame rendered previous, (s.requests r).future = .result frame ∧
        Received s r frame rendered previous

/-- Somebody who was rendered and does not raise gets the error of another. -/
def Blames (s t : Worker p) : Prop :=
  ∃ r < s.created, s.frameResult r ≠ none ∧ (s.requests r).faulty = false ∧
    (s.requests r).live = true ∧ ∃ error, (t.requests r).future = .exception error

theorem blames_of_not_isolates (hsound : Sound s) (hstep : step s .handles = some t)
    (hnot : ¬ Isolates s .handles) : Blames s t := by
  obtain ⟨r, hr⟩ := not_forall.1 hnot
  obtain ⟨hin, hlive⟩ := Classical.not_imp.1 hr
  obtain ⟨hlive, hfaulty⟩ := Classical.not_imp.1 hlive
  cases step_does hstep with
  | handles batch error hat =>
    have hmade := hsound.shape.batch r hin
    rw [hat] at hin
    refine ⟨r, hmade, hsound.gathered batch _ hat r hin, Bool.eq_false_iff.2 hfaulty, hlive,
      error, ?_⟩
    have hrequest : (s.failAll batch error).requests r = (s.requests r).fail error := if_pos hin
    rw [hrequest, FrameRequest.fail, if_pos hlive]

theorem reach_keepsApart (hreach : (machine p).Reach Isolates s) : KeepsApart s := by
  have hsound := reach_sound hreach
  have hdeserved := reach_deserved hreach
  intro r hr hrendered hfaulty hdone
  cases hfuture : (s.requests r).future with
  | pending =>
    rw [hfuture] at hdone
    cases hdone
  | result frame =>
    obtain ⟨rendered, previous, hreceived⟩ := hsound.receives r hr frame hfuture
    exact .inr ⟨frame, rendered, previous, rfl, hreceived⟩
  | exception error =>
    rcases hdeserved r hr error hfuture with hnone | hown
    · exact absurd hnone hrendered
    · rw [hfaulty] at hown
      cases hown
  | cancelled => exact .inl rfl

theorem frame_delivery (p : Pictures) :
    (∀ s : Worker p, (machine p).Reach Machine.anyStep s → Deliveries s) ∧
      (∀ b : (machine p).Behaviour, Fair b → ∀ n r, r < (b.state n).created →
        b.Leads n fun s => (s.requests r).future.done = true) ∧
      (∀ s : Worker p, (machine p).Reach Isolates s → KeepsApart s) ∧
      ∀ s t : Worker p, (machine p).Reach Machine.anyStep s → step s .handles = some t →
        ¬ Isolates s .handles → Blames s t := by
  refine ⟨fun s => reach_deliveries, fun b hfair n r hr => leads_done hfair hr,
    fun s => reach_keepsApart, ?_⟩
  intro s t hreach hstep hnot
  exact blames_of_not_isolates (reach_sound hreach) hstep hnot

/-! ## An encoder that fails for one of two -/

section Sample

/-- Images of one grey pixel. -/
def onePixel : Pictures where
  Image := Nat
  Polygons := Unit
  Rest := Unit
  restEq := inferInstance
  Latent := Unit
  Stages := Unit
  Data := Nat
  size _ := (1, 1)
  convertRgb image := image
  convertL image := image
  difference a b := a - b + (b - a)
  split image := (image, image, image)
  lighter := max
  darker := min
  point image f := f image
  boxBlur image _ := image
  gaussianBlur image _ := image
  composite a b alpha := if alpha = 0 then b else a
  histogram image value := if image = value then 1 else 0
  drawPolygons _ _ := none
  encodeWebp image := image

/-- A frame of a session of an adapter model. -/
def sketched (holder payload : Nat) (encoding : Option Raised) : FrameRequest onePixel where
  t2iAdapter := true
  params := ⟨(), none⟩
  promptCache := some holder
  payload := payload
  future := .pending
  cancelled := false
  stages := none
  latent := none
  compositing := none
  encoding := encoding

def noBatch : Worker onePixel where
  requests _ := sketched 0 0 none
  created := 0
  memory _ := none
  frameResult _ := none
  tasks _ := .ended
  executor := .idle

theorem noBatch_start : Start noBatch :=
  ⟨rfl, fun _ => rfl, fun _ => rfl, fun _ => rfl, rfl⟩

/-- Two frames are rendered in a second attempt, and both tasks have composited. -/
def rendersTwo : List (Label onePixel) :=
  [.hand [sketched 0 1 (some (.other 0)), sketched 1 2 none], .enters none, .renders .outOfMemory,
    .renders (.images fun r => ⟨10 + r, 5, none, none⟩), .starts 0, .starts 1, .composes 0,
    .composes 1]

/-- The frame that can be encoded is delivered before the error of the other is handled. -/
def deliversFirst : List (Label onePixel) :=
  rendersTwo ++ [.encodes 1, .encodes 0, .handles]

def deliveredFirst : Worker onePixel := ((machine onePixel).run noBatch deliversFirst).getD noBatch

theorem frame_delivery_sample :
    deliveredFirst.frameResult 1 = some ((11 : Nat), 5) ∧ (deliveredFirst.requests 1).faulty = false ∧
      (deliveredFirst.requests 0).future = .exception (.other 0) ∧
      Deliveries deliveredFirst ∧ KeepsApart deliveredFirst := by
  have hrun : (machine onePixel).run noBatch deliversFirst = some deliveredFirst := rfl
  have hok : (machine onePixel).RunOk Isolates noBatch deliversFirst := by decide +kernel
  refine ⟨rfl, rfl, rfl, ?_, ?_⟩
  · exact (frame_delivery onePixel).1 deliveredFirst
      ((Machine.Reach.of_init noBatch_start).path (Machine.path_of_run_any hrun))
  · exact (frame_delivery onePixel).2.2.1 deliveredFirst
      ((Machine.Reach.of_init noBatch_start).path (Machine.path_of_run hrun hok))

/-- The error of one is handled while the frame of the other is encoded. -/
def handlesFirst : List (Label onePixel) :=
  rendersTwo ++ [.encodes 0, .handles, .encodes 1]

def handledFirst : Worker onePixel := ((machine onePixel).run noBatch handlesFirst).getD noBatch

theorem frame_of_another_lost :
    ¬ ∀ s : Worker onePixel, (machine onePixel).Reach Machine.anyStep s → KeepsApart s := by
  intro hall
  have hrun : (machine onePixel).run noBatch handlesFirst = some handledFirst := rfl
  have hreach : (machine onePixel).Reach Machine.anyStep handledFirst :=
    (Machine.Reach.of_init noBatch_start).path (Machine.path_of_run_any hrun)
  have hrendered : handledFirst.frameResult 1 = some ((11 : Nat), 5) := rfl
  have hexception : (handledFirst.requests 1).future = .exception (.other 0) := rfl
  have hkept := hall handledFirst hreach 1 (by decide +kernel)
    (by rw [hrendered]; exact Option.some_ne_none _) rfl rfl
  rw [hexception] at hkept
  rcases hkept with hcancelled | ⟨frame, rendered, previous, hresult, -⟩
  · cases hcancelled
  · cases hresult

end Sample

end Potocolom.Delivery
