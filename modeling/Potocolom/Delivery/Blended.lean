import Potocolom.Delivery.Batches

/-! # The frame a later one is blended over

The last frame of a holder is written by the step that delivers a frame of that holder, and
by no other. So whatever a frame is composited over has been delivered. -/

namespace Potocolom.Delivery

variable {p : Pictures} {s t : Worker p} {l : Label p} {r h : Nat}

/-- What becomes of the future of a request in one step. -/
inductive Turn (s : Worker p) (l : Label p) (t : Worker p) (r : Nat) : Prop where
  | same (hfuture : (t.requests r).future = (s.requests r).future)
  | fails (error : Raised) (hlive : (s.requests r).live = true) (hin : r ∈ s.executor.batch)
      (hwhy : s.executor.early = true ∨ l = .handles) (hresult : t.frameResult = s.frameResult)
      (hfuture : (t.requests r).future = .exception error)
  | cancelled (hpending : (s.requests r).future.done = false) (hwhy : l = .cancel r ∨ l = .closed)
      (hfuture : (t.requests r).future = .cancelled)
  | delivers (memory : Option Nat) (image sketch : p.Image) (gpuMs : Nat)
      (htask : s.tasks r = .encoding memory image sketch gpuMs)
      (hlive : (s.requests r).live = true) (hencoding : (s.requests r).encoding = none)
      (ht : t = s.deliver r memory image sketch gpuMs)

theorem failAll_turn {error : Raised} {batch : List Nat} (hbatch : s.executor.batch = batch)
    (hwhy : s.executor.early = true ∨ l = .handles) : Turn s l (s.failAll batch error) r := by
  by_cases hin : r ∈ batch
  · have hrequest : (s.failAll batch error).requests r = (s.requests r).fail error := if_pos hin
    cases hlive : (s.requests r).live with
    | true =>
      refine .fails error hlive (hbatch ▸ hin) hwhy rfl ?_
      rw [hrequest, FrameRequest.fail, if_pos hlive]
    | false =>
      apply Turn.same
      rw [hrequest, FrameRequest.fail, hlive]
      rfl
  · have hrequest : (s.failAll batch error).requests r = s.requests r := if_neg hin
    exact .same (by rw [hrequest])

theorem raise_same (s : Worker p) (r : Nat) (error : Raised) :
    (s.raise r error).requests = s.requests ∧ (s.raise r error).memory = s.memory := by
  unfold Worker.raise
  split
  · split
    · exact ⟨rfl, rfl⟩
    · exact ⟨rfl, rfl⟩
  all_goals exact ⟨rfl, rfl⟩

theorem start_same (s : Worker p) (r : Nat) (image : p.Image) (gpuMs : Nat) :
    (s.start r image gpuMs).requests = s.requests ∧ (s.start r image gpuMs).memory = s.memory := by
  unfold Worker.start
  split
  · exact ⟨rfl, rfl⟩
  · exact ⟨rfl, rfl⟩

theorem compose_same (s : Worker p) (r memory : Nat) (image : p.Image) (gpuMs : Nat) :
    (s.compose r memory image gpuMs).requests = s.requests ∧
      (s.compose r memory image gpuMs).memory = s.memory := by
  unfold Worker.compose
  simp only
  split
  · exact raise_same s r _
  · exact ⟨rfl, rfl⟩

/-- An encode raises, finds its request gone, or delivers. -/
theorem encode_cases (s : Worker p) (r : Nat) (memory : Option Nat) (image sketch : p.Image)
    (gpuMs : Nat) :
    ((s.encode r memory image sketch gpuMs).requests = s.requests ∧
      (s.encode r memory image sketch gpuMs).memory = s.memory) ∨
    ((s.requests r).live = true ∧ (s.requests r).encoding = none ∧
      s.encode r memory image sketch gpuMs = s.deliver r memory image sketch gpuMs) := by
  unfold Worker.encode
  split
  · exact .inl (raise_same s r _)
  · next hencoding =>
    cases hlive : (s.requests r).live with
    | true => exact .inr ⟨rfl, hencoding, rfl⟩
    | false =>
      left
      unfold Worker.deliver
      simp only [hlive, Bool.false_eq_true, if_false]
      exact ⟨rfl, rfl⟩

theorem deliver_live {memory : Option Nat} {image sketch : p.Image} {gpuMs : Nat}
    (hlive : (s.requests r).live = true) :
    s.deliver r memory image sketch gpuMs =
      { s.setTask r .ended with
        memory := s.remember memory ⟨sketch, image, (s.requests r).params, (s.requests r).latent⟩
        requests := Function.update s.requests r
          { s.requests r with
            future := .result ⟨p.encodeWebp image, gpuMs, (s.requests r).stages⟩ } } := by
  unfold Worker.deliver
  exact if_pos hlive

theorem does_turn (hdoes : Does s l t) (hr : r < s.created) : Turn s l t r := by
  cases hdoes with
  | hand batch => exact .same (by rw [handed_old batch hr])
  | enters => exact .same rfl
  | refuses batch error hexecutor =>
    apply failAll_turn
    · rw [hexecutor]
      rfl
    · rw [hexecutor]
      exact .inl rfl
  | renders batch retried result =>
    apply Turn.same
    show FrameRequest.future (if r ∈ batch then _ else _) = _
    split
    · rfl
    · rfl
  | retries => exact .same rfl
  | fails batch retried error outcome hexecutor =>
    apply failAll_turn
    · rw [hexecutor]
      rfl
    · rw [hexecutor]
      exact .inl rfl
  | starts other image gpuMs => exact .same (by rw [(start_same s other image gpuMs).1])
  | composes other memory image gpuMs =>
    exact .same (by rw [(compose_same s other memory image gpuMs).1])
  | encodes other memory image sketch gpuMs htask =>
    rcases encode_cases s other memory image sketch gpuMs with ⟨hsame, -⟩ | ⟨hlive, hnone, heq⟩
    · exact .same (by rw [hsame])
    · by_cases hother : r = other
      · subst hother
        exact .delivers memory image sketch gpuMs htask hlive hnone heq
      · apply Turn.same
        rw [(works_encode s other memory image sketch gpuMs).others r hother]
  | returns => exact .same rfl
  | handles batch error hexecutor =>
    apply failAll_turn
    · rw [hexecutor]
      rfl
    · exact .inr rfl
  | closes => exact .same rfl
  | stops => exact .same rfl
  | closed batch hexecutor =>
    by_cases hin : r ∈ batch ∧ (s.requests r).future.done = false
    · have hrequest : (s.cancelAll batch).requests r =
          { s.requests r with future := .cancelled } := if_pos hin
      exact .cancelled hin.2 (.inr rfl) (by rw [hrequest])
    · have hrequest : (s.cancelAll batch).requests r = s.requests r := if_neg hin
      exact .same (by rw [hrequest])
  | cancel other _ hpending =>
    by_cases hother : r = other
    · subst hother
      refine .cancelled hpending (.inl rfl) ?_
      show (Function.update s.requests r _ r).future = .cancelled
      rw [Function.update_self]
    · apply Turn.same
      show (Function.update s.requests other _ r).future = _
      rw [Function.update_of_ne hother]
  | marks other _ hdone =>
    apply Turn.same
    show (Function.update s.requests other _ r).future = _
    by_cases hother : r = other
    · subst hother
      rw [Function.update_self]
    · rw [Function.update_of_ne hother]

/-! ## What the tasks hold -/

/-- The image that a request gets for what was rendered, and the sketch to remember with it. -/
def FrameRequest.framed (request : FrameRequest p) (memory : Nat → Option (LastFrame p))
    (image : p.Image) : p.Image × p.Image :=
  frameForDelivery (request.holder.bind memory) request.params request.payload image

/-- The task of a request works on what was rendered for it; an image that is to be delivered
is composited over what the holder still has. -/
def Own (s : Worker p) (r : Nat) : Prop :=
  match s.tasks r with
  | .ended => True
  | .created image gpuMs => s.frameResult r = some (image, gpuMs)
  | .composing memory image gpuMs =>
    s.frameResult r = some (image, gpuMs) ∧ (s.requests r).holder = some memory
  | .encoding memory image sketch gpuMs => ∃ rendered, s.frameResult r = some (rendered, gpuMs) ∧
    ((s.requests r).live = true →
      memory = (s.requests r).holder ∧ (image, sketch) = (s.requests r).framed s.memory rendered)

theorem Follows.live {a b : FrameRequest p} (hfollows : Follows a b) (hlive : b.live = true) :
    a.live = true := by
  obtain ⟨hflag, hdone⟩ := (live_iff b).1 hlive
  have hpending := hfollows.pending hdone
  rw [hfollows.cancelled hpending] at hflag
  exact (live_iff a).2 ⟨hflag, hpending⟩

theorem Follows.framed {a b : FrameRequest p} (hfollows : Follows a b)
    {memory memory' : Nat → Option (LastFrame p)}
    (hmemory : a.holder.bind memory' = a.holder.bind memory) (image : p.Image) :
    b.framed memory' image = a.framed memory image := by
  unfold FrameRequest.framed
  rw [hfollows.holder, hfollows.params, hfollows.payload, hmemory]

theorem Own.keeps (hown : Own s r) (hfollows : Follows (s.requests r) (t.requests r))
    (htask : t.tasks r = s.tasks r) (hresult : t.frameResult r = s.frameResult r)
    (hmemory : (s.requests r).live = true →
      (s.requests r).holder.bind t.memory = (s.requests r).holder.bind s.memory) : Own t r := by
  unfold Own at hown ⊢
  rw [htask, hresult, hfollows.holder]
  cases hstage : s.tasks r with
  | ended => trivial
  | created image gpuMs =>
    rw [hstage] at hown
    exact hown
  | composing memory image gpuMs =>
    rw [hstage] at hown
    exact hown
  | encoding memory image sketch gpuMs =>
    rw [hstage] at hown
    obtain ⟨rendered, hrendered, hframed⟩ := hown
    refine ⟨rendered, hrendered, fun hlive => ?_⟩
    have hbefore := hfollows.live hlive
    rw [hfollows.framed (hmemory hbefore)]
    exact hframed hbefore

theorem own_ended (htask : t.tasks r = .ended) : Own t r := by
  unfold Own
  rw [htask]
  trivial

theorem own_raise (s : Worker p) (r : Nat) (error : Raised) : Own (s.raise r error) r := by
  have hsetTask : (s.setTask r .ended).tasks r = .ended := Function.update_self _ _ _
  apply own_ended
  unfold Worker.raise
  split
  · split
    · exact hsetTask
    · exact hsetTask
  all_goals exact hsetTask

theorem own_setTask {task : Task p} (s : Worker p) (r : Nat) :
    (s.setTask r task).tasks r = task := Function.update_self _ _ _

theorem holder_sessionMemory {request : FrameRequest p} (hlive : request.live = true) :
    request.sessionMemory = request.holder := if_pos hlive

theorem own_start {image : p.Image} {gpuMs : Nat} (hresult : s.frameResult r = some (image, gpuMs)) :
    Own (s.start r image gpuMs) r := by
  unfold Worker.start
  cases hmemory : (s.requests r).sessionMemory with
  | none =>
    unfold Own
    simp only [own_setTask]
    refine ⟨image, hresult, fun hlive => ?_⟩
    have hlive' : (s.requests r).live = true := hlive
    have hholder : (s.requests r).holder = none := by rw [← holder_sessionMemory hlive', hmemory]
    refine ⟨hholder.symm, ?_⟩
    show _ = frameForDelivery ((s.requests r).holder.bind s.memory) _ _ _
    rw [hholder]
    rfl
  | some memory =>
    unfold Own
    simp only [own_setTask]
    refine ⟨hresult, ?_⟩
    have hlive : (s.requests r).live = true := by
      cases hlive : (s.requests r).live with
      | true => rfl
      | false =>
        rw [FrameRequest.sessionMemory, hlive] at hmemory
        cases hmemory
    show (s.requests r).holder = some memory
    rw [← holder_sessionMemory hlive, hmemory]

theorem own_compose {memory : Nat} {image : p.Image} {gpuMs : Nat}
    (hresult : s.frameResult r = some (image, gpuMs))
    (hholder : (s.requests r).holder = some memory) :
    Own (s.compose r memory image gpuMs) r := by
  unfold Worker.compose
  simp only
  split
  · exact own_raise s r _
  · unfold Own
    simp only [own_setTask]
    refine ⟨image, hresult, fun _ => ⟨hholder.symm, ?_⟩⟩
    show _ = frameForDelivery ((s.requests r).holder.bind s.memory) _ _ _
    rw [hholder]
    rfl

theorem own_encode {memory : Option Nat} {image sketch : p.Image} {gpuMs : Nat} :
    Own (s.encode r memory image sketch gpuMs) r := by
  unfold Worker.encode
  split
  · exact own_raise s r _
  · apply own_ended
    unfold Worker.deliver
    simp only
    split
    · exact Function.update_self _ _ _
    · exact Function.update_self _ _ _

/-! ## A delivery -/

/-- A frame is delivered: it is composited over what its holder had, and what the holder has
then is that frame. -/
structure Delivers (s t : Worker p) (r : Nat) (rendered : p.Image) (gpuMs : Nat) : Prop where
  result : s.frameResult r = some (rendered, gpuMs)
  future : (t.requests r).future = .result
    ⟨p.encodeWebp ((s.requests r).framed s.memory rendered).1, gpuMs, (s.requests r).stages⟩
  memory : ∀ h, (s.requests r).holder = some h → t.memory h =
    some ⟨((s.requests r).framed s.memory rendered).2,
      ((s.requests r).framed s.memory rendered).1, (s.requests r).params, (s.requests r).latent⟩
  kept : t.frameResult r = s.frameResult r ∧ (t.requests r).stages = (s.requests r).stages

theorem deliver_delivers {memory : Option Nat} {image sketch : p.Image} {gpuMs : Nat}
    (hown : Own s r) (htask : s.tasks r = .encoding memory image sketch gpuMs)
    (hlive : (s.requests r).live = true) :
    memory = (s.requests r).holder ∧
      ∃ rendered, Delivers s (s.deliver r memory image sketch gpuMs) r rendered gpuMs := by
  unfold Own at hown
  rw [htask] at hown
  obtain ⟨rendered, hrendered, hlater⟩ := hown
  obtain ⟨hmemory, hframed⟩ := hlater hlive
  have himage : image = ((s.requests r).framed s.memory rendered).1 := congrArg Prod.fst hframed
  have hsketch : sketch = ((s.requests r).framed s.memory rendered).2 := congrArg Prod.snd hframed
  refine ⟨hmemory, rendered, hrendered, ?_, ?_, ?_⟩
  · rw [deliver_live hlive, ← himage]
    show (Function.update s.requests r _ r).future = _
    rw [Function.update_self]
  · intro h hholder
    rw [deliver_live hlive, ← himage, ← hsketch, hmemory, hholder]
    show Function.update s.memory h _ h = _
    rw [Function.update_self]
  · rw [deliver_live hlive]
    refine ⟨rfl, ?_⟩
    show (Function.update s.requests r _ r).stages = _
    rw [Function.update_self]

/-- The holder of another request that is awaited keeps what it has. -/
theorem deliver_others {memory : Option Nat} {image sketch : p.Image} {gpuMs : Nat} {other : Nat}
    (hshape : Shape s) (hmade : r < s.created) (hlive : (s.requests r).live = true)
    (hmemory : memory = (s.requests r).holder) (hother : other < s.created)
    (hlive' : (s.requests other).live = true) (hne : other ≠ r) :
    (s.requests other).holder.bind (s.deliver r memory image sketch gpuMs).memory =
      (s.requests other).holder.bind s.memory := by
  rw [deliver_live hlive]
  cases hholder' : (s.requests other).holder with
  | none => rfl
  | some h' =>
    cases hholder : (s.requests r).holder with
    | none =>
      rw [hmemory, hholder]
      rfl
    | some h =>
      have hapart : h' ≠ h := by
        rintro rfl
        have hin := (hshape.waiting r hmade ((live_iff _).1 hlive).2).1
        have hin' := (hshape.waiting other hother ((live_iff _).1 hlive').2).1
        exact hne (hshape.apart other hin' r hin h' hholder' hholder)
      rw [hmemory, hholder]
      exact Function.update_of_ne hapart _ _

theorem Own.unmade (hshape : Shape s) (hr : s.created ≤ r) (htasks : t.tasks = s.tasks) :
    Own t r := by
  apply own_ended
  rw [htasks]
  exact (hshape.unmade r hr).1

/-- A step of one task keeps what the others hold. -/
theorem Works.own {other : Nat} (hworks : Works s t r) (hshape : Shape s)
    (hown : ∀ r, Own s r) (hself : Own t r)
    (hmemory : ∀ other, other < s.created → other ≠ r → (s.requests other).live = true →
      (s.requests other).holder.bind t.memory = (s.requests other).holder.bind s.memory) :
    Own t other := by
  by_cases heq : other = r
  · rw [heq]
    exact hself
  · by_cases hlt : other < s.created
    · exact (hown other).keeps (hworks.follows other) (hworks.tasks other heq)
        (by rw [hworks.frameResult]) (hmemory other hlt heq)
    · apply own_ended
      rw [hworks.tasks other heq]
      exact (hshape.unmade other (by omega)).1

theorem does_own (hshape : Shape s) (hown : ∀ r, Own s r) (hdoes : Does s l t) (r : Nat) :
    Own t r := by
  cases hdoes with
  | hand batch =>
    by_cases hlt : r < s.created
    · refine (hown r).keeps ?_ rfl rfl fun _ => rfl
      rw [handed_old batch hlt]
      exact .refl _
    · exact Own.unmade hshape (by omega) rfl
  | enters => exact (hown r).keeps (.refl _) rfl rfl fun _ => rfl
  | refuses batch error =>
    exact (hown r).keeps (failAll_follows s batch error r) rfl rfl fun _ => rfl
  | renders batch retried result hexecutor =>
    have htask : (s.rendered batch result).tasks r =
        if r ∈ batch ∧ (s.requests r).live then .created (result r).image (result r).gpuMs
        else s.tasks r := rfl
    have hresult : (s.rendered batch result).frameResult r =
        if r ∈ batch then some ((result r).image, (result r).gpuMs) else s.frameResult r := rfl
    by_cases hin : r ∈ batch
    · rw [if_pos hin] at hresult
      by_cases hlive : (s.requests r).live
      · rw [if_pos ⟨hin, hlive⟩] at htask
        unfold Own
        rw [htask]
        exact hresult
      · -- the request is gone, and has no task
        rw [if_neg (fun hboth => hlive hboth.2)] at htask
        apply own_ended
        rw [htask]
        exact (hshape.early (by rw [hexecutor]; rfl) r (by rw [hexecutor]; exact hin)).1
    · rw [if_neg (fun hboth => hin hboth.1)] at htask
      rw [if_neg hin] at hresult
      exact (hown r).keeps (rendered_follows s batch result r) htask hresult fun _ => rfl
  | retries => exact (hown r).keeps (.refl _) rfl rfl fun _ => rfl
  | fails batch retried error =>
    exact (hown r).keeps (failAll_follows s batch error r) rfl rfl fun _ => rfl
  | starts other image gpuMs htask =>
    have hold := hown other
    unfold Own at hold
    rw [htask] at hold
    refine (works_start s other image gpuMs).own hshape hown (own_start hold) ?_
    intro _ _ _ _
    rw [(start_same s other image gpuMs).2]
  | composes other memory image gpuMs htask =>
    have hold := hown other
    unfold Own at hold
    rw [htask] at hold
    refine (works_compose s other memory image gpuMs).own hshape hown
      (own_compose hold.1 hold.2) ?_
    intro _ _ _ _
    rw [(compose_same s other memory image gpuMs).2]
  | encodes other memory image sketch gpuMs htask =>
    have hmade : other < s.created := hshape.made (by rw [htask]; rfl)
    refine (works_encode s other memory image sketch gpuMs).own hshape hown own_encode ?_
    intro another hlt hne hlive'
    rcases encode_cases s other memory image sketch gpuMs with ⟨-, hsame⟩ | ⟨hlive, -, heq⟩
    · rw [hsame]
    · rw [heq]
      have hmemory := (deliver_delivers (hown other) htask hlive).1
      exact deliver_others hshape hmade hlive hmemory hlt hlive' hne
  | returns => exact (hown r).keeps (.refl _) rfl rfl fun _ => rfl
  | handles batch error =>
    exact (hown r).keeps (failAll_follows s batch error r) rfl rfl fun _ => rfl
  | closes => exact (hown r).keeps (.refl _) rfl rfl fun _ => rfl
  | stops batch =>
    have htask : (s.stopTasks batch).tasks r = if r ∈ batch then .ended else s.tasks r := rfl
    by_cases hin : r ∈ batch
    · rw [if_pos hin] at htask
      exact own_ended htask
    · rw [if_neg hin] at htask
      exact (hown r).keeps (.refl _) htask rfl fun _ => rfl
  | closed batch => exact (hown r).keeps (cancelAll_follows s batch r) rfl rfl fun _ => rfl
  | cancel other _ hpending =>
    exact (hown r).keeps (update_follows (follows_resolve hpending _) r) rfl rfl fun _ => rfl
  | marks other _ hdone =>
    exact (hown r).keeps (update_follows (follows_marked hdone) r) rfl rfl fun _ => rfl

/-! ## What the holders remember -/

theorem does_delivers {frame : GeneratedFrame p} (hown : Own s r) (hdoes : Does s l t)
    (hr : r < s.created) (hpending : (s.requests r).future.done = false)
    (hresult : (t.requests r).future = .result frame) :
    ∃ rendered, Delivers s t r rendered frame.gpuMs := by
  cases does_turn hdoes hr with
  | same hfuture =>
    rw [hresult] at hfuture
    rw [← hfuture] at hpending
    cases hpending
  | fails error _ _ _ _ hfuture =>
    rw [hresult] at hfuture
    cases hfuture
  | cancelled _ _ hfuture =>
    rw [hresult] at hfuture
    cases hfuture
  | delivers memory image sketch gpuMs htask hlive hencoding ht =>
    obtain ⟨-, rendered, hdelivers⟩ := deliver_delivers hown htask hlive
    rw [← ht] at hdelivers
    have hframe := hdelivers.future
    rw [hresult] at hframe
    cases hframe
    exact ⟨rendered, hdelivers⟩

/-- What a holder has changes by a delivery to it only. -/
theorem does_memory (hshape : Shape s) (hown : ∀ r, Own s r) (hdoes : Does s l t) (h : Nat) :
    t.memory h = s.memory h ∨ ∃ r < s.created, (s.requests r).holder = some h ∧
      (s.requests r).future.done = false ∧ ∃ rendered gpuMs, Delivers s t r rendered gpuMs := by
  cases hdoes with
  | encodes r memory image sketch gpuMs htask =>
    rcases encode_cases s r memory image sketch gpuMs with ⟨-, hsame⟩ | ⟨hlive, -, heq⟩
    · exact .inl (by rw [hsame])
    · obtain ⟨hmemory, rendered, hdelivers⟩ := deliver_delivers (hown r) htask hlive
      rw [heq]
      by_cases hholder : (s.requests r).holder = some h
      · have hmade : r < s.created := hshape.made (by rw [htask]; rfl)
        exact .inr ⟨r, hmade, hholder, ((live_iff _).1 hlive).2, rendered, gpuMs, hdelivers⟩
      · left
        rw [deliver_live hlive, hmemory]
        cases hholder' : (s.requests r).holder with
        | none => rfl
        | some h' =>
          have hne : h ≠ h' := by
            rintro rfl
            exact hholder hholder'
          exact Function.update_of_ne hne _ _
  | starts r image gpuMs => exact .inl (by rw [(start_same s r image gpuMs).2])
  | composes r memory image gpuMs => exact .inl (by rw [(compose_same s r memory image gpuMs).2])
  | _ => exact .inl rfl

/-- The last frame of a holder has been delivered. -/
def Shown (s : Worker p) (h : Nat) (last : LastFrame p) : Prop :=
  ∃ r < s.created, (s.requests r).holder = some h ∧ (s.requests r).params = last.params ∧
    ∃ gpuMs stages, (s.requests r).future = .result ⟨p.encodeWebp last.image, gpuMs, stages⟩

theorem Shown.step {last : LastFrame p} (hshown : Shown s h last) (hdoes : Does s l t) :
    Shown t h last := by
  obtain ⟨r, hr, hholder, hparams, gpuMs, stages, hfuture⟩ := hshown
  have hfollows := does_follows hdoes hr
  have hcreated := does_created hdoes
  refine ⟨r, by omega, ?_, ?_, gpuMs, stages, ?_⟩
  · rw [hfollows.holder, hholder]
  · rw [hfollows.params, hparams]
  · rw [hfollows.future (by rw [hfuture]; rfl), hfuture]

theorem does_shown (hshape : Shape s) (hown : ∀ r, Own s r)
    (hmemory : ∀ h last, s.memory h = some last → Shown s h last) (hdoes : Does s l t) (h : Nat)
    (last : LastFrame p) (hlast : t.memory h = some last) : Shown t h last := by
  rcases does_memory hshape hown hdoes h with hsame | ⟨r, hr, hholder, -, rendered, gpuMs, hdelivers⟩
  · rw [hsame] at hlast
    exact (hmemory h last hlast).step hdoes
  · rw [hdelivers.memory h hholder] at hlast
    cases hlast
    have hfollows := does_follows hdoes hr
    have hcreated := does_created hdoes
    refine ⟨r, by omega, ?_, hfollows.params, gpuMs, _, hdelivers.future⟩
    rw [hfollows.holder, hholder]

end Potocolom.Delivery
