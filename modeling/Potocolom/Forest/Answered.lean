import Potocolom.Forest.Drained
import Potocolom.Lib.Behaviour

/-! # Every forced request is followed by a fetch

A root in the queue only moves towards its head, and every load that is released moves it;
a mark on a loading tree becomes a request in the queue when the load ends. So if every load
ends some time, every forced request is followed by a fetch. -/

namespace Potocolom.Forest

open LineageForest

variable {scope : Scope} {f g k : LineageForest} {rootId : String} {i : Nat}

/-! ## The trace only grows -/

theorem Change.trace (h : Change scope f g) : f.trace <+: g.trace := by
  cases h with
  | caches cache known => exact List.prefix_rfl
  | fallback rootId tree =>
    have hsame : (f.set rootId tree).trace = f.trace := set_trace
    exact hsame ▸ List.prefix_rfl
  | mark noted rootId tree =>
    rw [set_trace]
    exact note_extends
  | again rootId tree => exact log_extends
  | demand noted rootId queue => exact note_extends
  | wait rootId request => exact List.prefix_rfl
  | begins rootId next hactive =>
    rw [begin_eq hactive]
    exact List.prefix_append _ _
  | invalidate rootId => exact log_extends
  | replace rootId assetId generation tree layout =>
    rw [set_trace]
    exact log_extends
  | late rootId assetId generation => exact log_extends
  | stop => exact log_extends
  | drop load => exact List.prefix_rfl
  | arrive load tree layout queue =>
    show f.trace <+: (set _ _ _).trace
    rw [set_trace]
    exact log_extends
  | miss load tree queue =>
    show f.trace <+: (set _ _ _).trace
    rw [set_trace]
    exact List.prefix_rfl
  | release load => exact List.prefix_rfl

theorem Change.stopped (h : Change scope f g) (hstopped : f.active = false) :
    g.active = false := by
  cases h with
  | fallback rootId tree hactive => rw [hstopped] at hactive; cases hactive
  | mark noted rootId tree hactive => rw [hstopped] at hactive; cases hactive
  | again rootId tree hactive => rw [hstopped] at hactive; cases hactive
  | demand noted rootId queue hactive => rw [hstopped] at hactive; cases hactive
  | wait rootId request hactive => rw [hstopped] at hactive; cases hactive
  | begins rootId next hactive => rw [hstopped] at hactive; cases hactive
  | replace rootId assetId generation tree layout hactive => rw [hstopped] at hactive; cases hactive
  | arrive load tree layout queue _ _ hactive => rw [hstopped] at hactive; cases hactive
  | miss load tree queue _ _ hactive => rw [hstopped] at hactive; cases hactive
  | stop => exact rfl
  | caches cache known => exact hstopped
  | invalidate rootId => exact hstopped
  | late rootId assetId generation => exact hstopped
  | drop load => exact hstopped
  | release load => exact hstopped

/-- Since `f`, a fetch of the root began or the root was invalidated. -/
def Answered (f g : LineageForest) (rootId : String) : Prop :=
  ∃ j, f.trace.length ≤ j ∧ (At g j (.fetch rootId) ∨ At g j (.invalidated rootId))

theorem Answered.mono (h : Answered f g rootId) (hext : g.trace <+: k.trace) :
    Answered f k rootId := by
  obtain ⟨j, hle, hj⟩ := h
  exact ⟨j, hle, hj.imp (fun hat => hat.mono hext) fun hat => hat.mono hext⟩

theorem Answered.earlier (h : Answered g k rootId) (hext : f.trace <+: g.trace) :
    Answered f k rootId := by
  obtain ⟨j, hle, hj⟩ := h
  exact ⟨j, Nat.le_trans hext.length_le hle, hj⟩

/-! ## In the queue -/

/-- The root waits no further back than place `n`. -/
def WaitsBy (f : LineageForest) (rootId : String) (n : Nat) : Prop :=
  rootId ∈ f.queue.keys ∧ f.queue.place rootId ≤ n

theorem WaitsBy.of_queue {n : Nat} (h : WaitsBy f rootId n) (hqueue : g.queue = f.queue) :
    WaitsBy g rootId n := by
  unfold WaitsBy
  rw [hqueue]
  exact h

theorem WaitsBy.put {n : Nat} (h : WaitsBy f rootId n) {other : String} {request : LoadRequest}
    (hqueue : g.queue = f.queue.put other request) : WaitsBy g rootId n := by
  unfold WaitsBy
  rw [hqueue, Ordered.place_put h.1]
  exact ⟨Ordered.mem_keys_put h.1, h.2⟩

theorem WaitsBy.demanded {n : Nat} {queue : Ordered String LoadRequest} {other : String}
    (h : WaitsBy f rootId n) (hdemanded : Demanded f.queue other queue)
    (hqueue : g.queue = queue) : WaitsBy g rootId n := by
  cases hdemanded with
  | put request _ _ => exact h.put hqueue
  | already _ _ _ => exact h.of_queue hqueue

/-- What becomes of a root in the queue. -/
def Onward (f g : LineageForest) (rootId : String) (n : Nat) : Prop :=
  g.active = false ∨ Answered f g rootId ∨ WaitsBy g rootId n

theorem Change.onward (hchange : Change scope f g) (hf : Scheduled f) {n : Nat}
    (h : WaitsBy f rootId n) : Onward f g rootId n := by
  have hstay : g.queue = f.queue → Onward f g rootId n := fun heq => .inr (.inr (h.of_queue heq))
  cases hchange with
  | caches cache known => exact hstay rfl
  | fallback other tree => exact hstay set_queue
  | mark noted other tree => exact hstay (by rw [set_queue, note_queue])
  | again other tree => exact hstay rfl
  | demand noted other queue _ _ hdemanded => exact .inr (.inr (h.demanded hdemanded rfl))
  | wait other request => exact .inr (.inr (h.put rfl))
  | begins other next hactive hhead hplace =>
    have hroot : next.root.id = other :=
      (hf.waiting other next (Ordered.get_eq_some.2 (List.mem_of_mem_head? hhead))).1
    by_cases heq : rootId = other
    · right
      left
      refine ⟨f.trace.length, Nat.le_refl _, .inl ?_⟩
      rw [begin_eq hactive, heq, ← hroot]
      exact at_log.2 (.inr ⟨rfl, rfl⟩)
    · right
      right
      unfold WaitsBy
      rw [begin_eq hactive]
      exact ⟨Ordered.mem_keys_erase h.1 heq, Nat.le_trans (Ordered.place_erase heq) h.2⟩
  | invalidate other =>
    by_cases heq : rootId = other
    · right
      left
      rw [heq]
      exact ⟨f.trace.length, Nat.le_refl _, .inr (at_log.2 (.inr ⟨rfl, rfl⟩))⟩
    · right
      right
      exact ⟨Ordered.mem_keys_erase h.1 heq, Nat.le_trans (Ordered.place_erase heq) h.2⟩
  | replace other assetId generation tree layout => exact hstay set_queue
  | late other assetId generation => exact hstay rfl
  | stop => exact .inl rfl
  | drop load => exact hstay rfl
  | arrive load tree layout queue _ _ _ _ _ _ _ _ hqueue =>
    rcases hqueue with ⟨-, hqueue⟩ | ⟨-, hdemanded⟩
    · exact hstay hqueue
    · exact .inr (.inr (h.demanded hdemanded rfl))
  | miss load tree queue _ _ _ _ _ _ _ hqueue =>
    rcases hqueue with ⟨-, hqueue⟩ | ⟨-, hdemanded⟩
    · exact hstay hqueue
    · exact .inr (.inr (h.demanded hdemanded rfl))
  | release load => exact hstay rfl

theorem Onward.then (hfg : Onward f g rootId i) (hchange : Change scope g k)
    (hext : f.trace <+: g.trace) (hg : Scheduled g) : Onward f k rootId i := by
  rcases hfg with hstopped | hanswered | hwaits
  · exact .inl (hchange.stopped hstopped)
  · exact .inr (.inl (hanswered.mono hchange.trace))
  · rcases hchange.onward hg hwaits with hstopped | hanswered | hwaits
    · exact .inl hstopped
    · exact .inr (.inl (hanswered.earlier hext))
    · exact .inr (.inr hwaits)

theorem changes_trace (h : Changes scope f g) : f.trace <+: g.trace := by
  induction h with
  | refl => exact List.prefix_rfl
  | tail _ hchange ih => exact ih.trans hchange.trace

theorem changes_onward (h : Changes scope f g) (hf : Scheduled f) (hwaits : WaitsBy f rootId i) :
    Onward f g rootId i := by
  induction h with
  | refl => exact .inr (.inr hwaits)
  | tail hchanges hchange ih => exact ih.then hchange (changes_trace hchanges) (hf.changes hchanges)

/-- When a load is released and the queue is not empty, the head of the queue begins. -/
theorem release_onward (hf : Scheduled f) (hdrained : Drained f) (hactive : f.active = true)
    {load : Load} (hload : load ∈ f.loads) (hended : load.ended = true)
    (hwaits : rootId ∈ f.queue.keys) :
    Answered f (f.release load) rootId ∨
      rootId ∈ (f.release load).queue.keys ∧
        (f.release load).queue.place rootId < f.queue.place rootId := by
  obtain ⟨item, hitem, hkey⟩ := List.mem_map.1 hwaits
  have hfull : f.inFlight = maxConcurrentLoads := by
    have hbound := hf.bound
    rw [← hf.places] at hbound
    rcases hdrained hactive with hempty | hle
    · rw [hempty] at hitem
      exact absurd hitem List.not_mem_nil
    · exact Nat.le_antisymm hbound hle
  obtain ⟨first, rest, hitems⟩ := List.exists_cons_of_ne_nil (List.ne_nil_of_mem hitem)
  have hhead : f.queue.items.head? = some (first.1, first.2) := by
    rw [hitems]
    rfl
  have hfreed := hf.release hload hended
  have hone : f.release load =
      LineageForest.begin { f with loads := f.loads.erase load, inFlight := f.inFlight - 1 }
        first.1 first.2 := by
    unfold release drain
    have hfree : maxConcurrentLoads - (f.inFlight - 1) = 1 := by
      rw [hfull]
      rfl
    dsimp only
    rw [hfree]
    unfold drainBy
    rw [if_pos hactive]
    dsimp only
    rw [hhead]
    rfl
  have hroot : first.2.root.id = first.1 :=
    (hf.waiting first.1 first.2 (Ordered.get_eq_some.2 (List.mem_of_mem_head? hhead))).1
  have hfreedActive : ({ f with
      loads := f.loads.erase load, inFlight := f.inFlight - 1 } : LineageForest).active = true :=
    hactive
  rw [hone, begin_eq hfreedActive]
  by_cases heq : rootId = first.1
  · left
    rw [heq, ← hroot]
    exact ⟨f.trace.length, Nat.le_refl _, .inl (at_log.2 (.inr ⟨rfl, rfl⟩))⟩
  · exact .inr ⟨Ordered.mem_keys_erase hwaits heq, Ordered.place_erase_head hhead heq⟩

/-! ## On a loading tree -/

/-- The load's tree is marked. -/
structure Marked (f : LineageForest) (load : Load) : Prop where
  mem : load ∈ f.loads
  ended : load.ended = false
  mark : ∃ tree, f.trees.get load.rootId = some tree ∧ tree.status = .loading ∧
    tree.dirty = true

theorem Marked.loading {load : Load} (h : Marked f load) : f.Loading load.rootId := by
  obtain ⟨tree, hget, hloading, -⟩ := h.mark
  exact ⟨tree, hget, hloading⟩

theorem Marked.elsewhere {load : Load} (h : Marked f load) (helse : Elsewhere f g rootId)
    (hne : load.rootId ≠ rootId) : Marked g load := by
  refine ⟨(helse.loads load hne h.ended).2 h.mem, h.ended, ?_⟩
  rw [helse.trees _ hne]
  exact h.mark

theorem Marked.quiet {load : Load} (h : Marked f load) (hquiet : Quiet f g) : Marked g load := by
  refine ⟨by rw [hquiet.loads]; exact h.mem, h.ended, ?_⟩
  obtain ⟨tree, hget, hloading, hdirty⟩ := h.mark
  have htree := hquiet.trees load.rootId
  rw [hget] at htree
  obtain ⟨tree', hget', hstatus, -, hmark⟩ := htree.right
  exact ⟨tree', hget', hstatus.trans hloading, hmark hdirty⟩

/-- When the load ends, the mark becomes a request; the other loads do not touch it. -/
theorem Marked.settles {load other : Load} (h : Marked f load) {tree : LineageTree} (hsettles : Settles f g other tree) :
    Marked g load ∨ load.rootId ∈ g.queue.keys := by
  by_cases heq : load.rootId = other.rootId
  · right
    obtain ⟨tree', hget, -, hdirty⟩ := h.mark
    have hrerun : f.rerun other.rootId = true := by
      unfold rerun
      rw [← heq, hget, Option.any_some]
      exact hdirty
    rcases hsettles.queue with ⟨hclean, -⟩ | ⟨-, hdemanded⟩
    · rw [hrerun] at hclean
      cases hclean
    · obtain ⟨queued, hqueued, -⟩ := hdemanded.queued
      rw [heq]
      exact List.mem_map.2 ⟨_, Ordered.get_eq_some.1 hqueued, rfl⟩
  · exact .inl (h.elsewhere hsettles.elsewhere heq)

theorem Change.marked {load : Load} (hchange : Change scope f g) (hf : Scheduled f)
    (h : Marked f load) :
    g.active = false ∨ Marked g load ∨ load.rootId ∈ g.queue.keys := by
  cases hchange with
  | caches cache known => exact .inr (.inl (h.quiet (caches_quiet hf cache known)))
  | fallback rootId tree hactive habsent hloaded hnone =>
    right
    left
    have hne : load.rootId ≠ rootId := by
      rintro rfl
      exact not_loading_of_absent habsent h.loading
    rw [set_of_active hactive]
    refine ⟨h.mem, h.ended, ?_⟩
    rw [Ordered.get_put_of_ne hne]
    exact h.mark
  | mark noted rootId tree hactive hget hloading =>
    exact .inr (.inl (h.quiet (mark_quiet hf hactive hget hloading noted)))
  | again rootId tree hactive hget hloading hdirty =>
    exact .inr (.inl (h.quiet (again_quiet hf hget hloading hdirty)))
  | demand noted rootId queue hactive hnot hdemanded =>
    exact .inr (.inl (h.quiet (demand_quiet hf hnot hdemanded noted)))
  | wait rootId request hactive hnot hroot habsent =>
    exact .inr (.inl (h.quiet (wait_quiet hf hnot hroot habsent)))
  | begins rootId next hactive hhead hplace =>
    right
    left
    obtain ⟨hroot, hnot⟩ :=
      hf.waiting rootId next (Ordered.get_eq_some.2 (List.mem_of_mem_head? hhead))
    have hne : load.rootId ≠ next.root.id := by
      rw [hroot]
      rintro rfl
      exact hnot h.loading
    rw [begin_eq hactive]
    refine ⟨List.mem_append_left _ h.mem, h.ended, ?_⟩
    rw [Ordered.get_put_of_ne hne]
    exact h.mark
  | invalidate rootId hnot =>
    right
    left
    have hne : load.rootId ≠ rootId := by
      rintro rfl
      exact hnot h.loading
    refine ⟨h.mem, h.ended, ?_⟩
    obtain ⟨tree, hget, htree⟩ := h.mark
    exact ⟨tree, (Ordered.get_erase_of_ne hne).trans hget, htree⟩
  | replace rootId assetId generation tree layout hactive hget hlayout =>
    exact .inr (.inl (h.quiet (replace_quiet hf hactive hget hlayout)))
  | late rootId assetId generation _ _ => exact .inr (.inl (h.quiet (late_quiet hf rootId assetId generation)))
  | stop => exact .inl rfl
  | drop other _ _ hstopped => exact .inl hstopped
  | arrive other tree layout queue hload hended hactive _ hloaded _ hlayout horigin hqueue =>
    exact .inr (h.settles
      (arrive_settles hf hactive hload hended hloaded hlayout horigin hqueue))
  | miss other tree queue hload hended hactive _ herror _ hlayout hqueue =>
    exact .inr (h.settles (miss_settles hf hactive hload hended herror hlayout hqueue))
  | release other _ hload hended =>
    right
    left
    have hne : load ≠ other := by
      rintro rfl
      rw [h.ended] at hended
      cases hended
    exact ⟨(List.mem_erase_of_ne hne).2 h.mem, h.ended, h.mark⟩

theorem changes_marked {load : Load} (h : Changes scope f g) (hf : Scheduled f)
    (hmarked : Marked f load) :
    g.active = false ∨ Answered f g load.rootId ∨ Marked g load ∨
      load.rootId ∈ g.queue.keys := by
  induction h with
  | refl => exact .inr (.inr (.inl hmarked))
  | tail hchanges hchange ih =>
    have hg := hf.changes hchanges
    rcases ih with hstopped | hanswered | hmarked | hwaits
    · exact .inl (hchange.stopped hstopped)
    · exact .inr (.inl (hanswered.mono hchange.trace))
    · rcases hchange.marked hg hmarked with hstopped | hrest
      · exact .inl hstopped
      · exact .inr (.inr hrest)
    · rcases hchange.onward hg ⟨hwaits, Nat.le_refl _⟩ with hstopped | hanswered | hwaits
      · exact .inl hstopped
      · exact .inr (.inl (hanswered.earlier (changes_trace hchanges)))
      · exact .inr (.inr (.inr hwaits.1))

/-! ## Behaviours -/

/-- The loads of `f`, by the fetches they made, that `g` still has. -/
def Remain (f g : LineageForest) : Prop :=
  ∀ load ∈ f.loads, load.number ∈ g.loads.map Load.number

theorem Remain.of_numbers (h : g.loads.map Load.number = f.loads.map Load.number) :
    Remain f g := by
  intro load hload
  rw [h]
  exact List.mem_map_of_mem hload

theorem Change.remain (hchange : Change scope f g) (hnever : ¬ scope.frees) : Remain f g := by
  have hsame : g.loads = f.loads → Remain f g := fun heq => .of_numbers (by rw [heq])
  cases hchange with
  | caches cache known => exact hsame rfl
  | fallback rootId tree => exact hsame set_loads
  | mark noted rootId tree => exact hsame (by rw [set_loads, note_loads])
  | again rootId tree => exact hsame rfl
  | demand noted rootId queue => exact hsame note_loads
  | wait rootId request => exact hsame rfl
  | begins rootId next hactive =>
    rw [begin_eq hactive]
    exact fun load hload => List.mem_map_of_mem (List.mem_append_left _ hload)
  | invalidate rootId => exact hsame rfl
  | replace rootId assetId generation tree layout => exact hsame set_loads
  | late rootId assetId generation => exact hsame rfl
  | stop => exact hsame rfl
  | drop load => exact .of_numbers over_numbers
  | arrive load tree layout queue =>
    apply Remain.of_numbers
    show (set _ _ _).loads.map Load.number = _
    rw [set_loads]
    exact over_numbers
  | miss load tree queue =>
    apply Remain.of_numbers
    show (set _ _ _).loads.map Load.number = _
    rw [set_loads]
    exact over_numbers
  | release load hfrees => exact absurd hfrees hnever

theorem changes_remain (h : Changes scope f g) (hnever : ¬ scope.frees) : Remain f g := by
  induction h with
  | refl => exact .of_numbers rfl
  | tail _ hchange ih =>
    intro load hload
    obtain ⟨l, hl, hnumber⟩ := List.mem_map.1 (ih load hload)
    rw [← hnumber]
    exact hchange.remain hnever l hl

/-- Every step but the `finally` of a load leaves the loads there; that one moves the queue. -/
theorem step_onward {layoutLineageTree : Arrange} {l : Label} (hf : Scheduled f)
    (hdrained : Drained f) (hactive : f.active = true) (hwaits : rootId ∈ f.queue.keys)
    (hstep : step layoutLineageTree f l = some g) :
    g.active = false ∨ Answered f g rootId ∨ rootId ∈ g.queue.keys ∧
      (g.queue.place rootId < f.queue.place rootId ∨
        g.queue.place rootId ≤ f.queue.place rootId ∧ Remain f g) := by
  by_cases hrelease : ∃ load, l = .releases load
  · obtain ⟨load, rfl⟩ := hrelease
    simp only [step] at hstep
    split at hstep
    · next hload =>
      cases hstep
      rcases release_onward hf hdrained hactive hload.1 hload.2 hwaits with hanswered | ⟨hin, hlt⟩
      · exact .inr (.inl hanswered)
      · exact .inr (.inr ⟨hin, .inl hlt⟩)
    · cases hstep
  · have hwithin : l.Within ⟨fun _ _ => True, True, False⟩ f := by
      cases l with
      | releases load => exact absurd ⟨load, rfl⟩ hrelease
      | replaceGeneration roots assetId generation => exact fun _ => trivial
      | ends load answer => exact fun _ => trivial
      | _ => exact trivial
    have hchanges := step_changes hwithin hstep
    rcases changes_onward hchanges hf ⟨hwaits, Nat.le_refl _⟩ with hstopped | hanswered | hwaits
    · exact .inl hstopped
    · exact .inr (.inl hanswered)
    · exact .inr (.inr ⟨hwaits.1, .inr ⟨hwaits.2, changes_remain hchanges id⟩⟩)

section Behaviour

variable {layoutLineageTree : Arrange} (b : (machine layoutLineageTree).Behaviour)

/-- Every fetch ends, and the `finally` of its load runs. -/
def Fair : Prop :=
  ∀ n, ∀ load ∈ (b.state n).loads, b.Leads n fun f => load.number ∉ f.loads.map Load.number

variable {b} {n : Nat}

/-- What a forced request comes to. -/
def Followed (i : Nat) (rootId : String) (f : LineageForest) : Prop :=
  f.active = false ∨ Dropped f i rootId ∨ Served f i rootId

theorem Answered.followed (h : Answered f g rootId) (hlt : i < f.trace.length) :
    Followed i rootId g := by
  obtain ⟨j, hle, hfetch | hinvalidated⟩ := h
  · exact .inr (.inr ⟨j, by omega, hfetch⟩)
  · exact .inr (.inl ⟨j, by omega, hinvalidated⟩)

/-- The root is in the queue of an active forest, after place `i` of the trace. -/
structure Waiting (i : Nat) (rootId : String) (f : LineageForest) : Prop where
  lt : i < f.trace.length
  active : f.active = true
  waits : rootId ∈ f.queue.keys

/-- The root waits, no further back than `place`, and the load is not released yet. -/
structure Holding (i : Nat) (rootId : String) (place number : Nat) (f : LineageForest) :
    Prop where
  waiting : Waiting i rootId f
  place : f.queue.place rootId ≤ place
  load : number ∈ f.loads.map Load.number

/-- While no load is released, nothing but progress happens to a root in the queue. -/
theorem holding_unless {place number : Nat} (h : Holding i rootId place number (b.state n)) :
    Holding i rootId place number (b.state (n + 1)) ∨
      (Followed i rootId (b.state (n + 1)) ∨
        Waiting i rootId (b.state (n + 1)) ∧ (b.state (n + 1)).queue.place rootId < place) := by
  have hplace := h.place
  rcases b.next n with heq | ⟨l, hstep⟩
  · rw [heq]
    exact .inl h
  · have hf := reach_scheduled (b.reach n)
    have htrace := changes_trace (step_changes within_any hstep)
    have hlt := Nat.lt_of_lt_of_le h.waiting.lt htrace.length_le
    by_cases hactive : (b.state (n + 1)).active = true
    · rcases step_onward hf (reach_drained (b.reach n)) h.waiting.active h.waiting.waits hstep with
        hstopped | hanswered | ⟨hwaits, hless | ⟨hle, hremain⟩⟩
      · exact .inr (.inl (.inl hstopped))
      · exact .inr (.inl (hanswered.followed h.waiting.lt))
      · exact .inr (.inr ⟨⟨hlt, hactive, hwaits⟩, by omega⟩)
      · obtain ⟨load, hload, hnumber⟩ := List.mem_map.1 h.load
        refine .inl ⟨⟨hlt, hactive, hwaits⟩, by omega, ?_⟩
        rw [← hnumber]
        exact hremain load hload
    · exact .inr (.inl (.inl (by simpa using hactive)))

/-- A root in the queue of a fair behaviour gets its fetch: each load that is released moves
it, and four are under way as long as it waits. -/
theorem waiting_leads (hfair : Fair b) (h : Waiting i rootId (b.state n)) :
    b.Leads n (Followed i rootId) := by
  refine Machine.Behaviour.leads_of_rank (fun f => f.queue.place rootId) ?_ h
  intro k hk
  have hf := reach_scheduled (b.reach k)
  obtain ⟨load, hload⟩ : ∃ load, load ∈ (b.state k).loads := by
    apply List.exists_mem_of_length_pos
    rw [← hf.places]
    rcases reach_drained (b.reach k) hk.active with hempty | hle
    · obtain ⟨item, hitem, -⟩ := List.mem_map.1 hk.waits
      rw [hempty] at hitem
      exact absurd hitem List.not_mem_nil
    · exact Nat.lt_of_lt_of_le (by decide) hle
  have hholding :
      Holding i rootId ((b.state k).queue.place rootId) load.number (b.state k) :=
    ⟨hk, Nat.le_refl _, List.mem_map_of_mem hload⟩
  refine Machine.Behaviour.leads_of_unless (fun _ => holding_unless) ?_ hholding
  obtain ⟨k', hle, hgone⟩ := hfair k load hload
  exact ⟨k', hle, fun hin => hgone hin.load⟩

/-- A marked tree of a fair behaviour gets its fetch too. -/
theorem marked_leads (hfair : Fair b) {load : Load} (hactive : (b.state n).active = true)
    (hlt : i < (b.state n).trace.length) (h : Marked (b.state n) load) :
    b.Leads n (Followed i load.rootId) := by
  have hleads : b.Leads n fun f => Followed i load.rootId f ∨ Waiting i load.rootId f := by
    refine Machine.Behaviour.leads_of_unless
      (P := fun f => i < f.trace.length ∧ f.active = true ∧ Marked f load) ?_ ?_
      ⟨hlt, hactive, h⟩
    · rintro k ⟨hlt, hactive, hmarked⟩
      rcases b.next k with heq | ⟨l, hstep⟩
      · rw [heq]
        exact .inl ⟨hlt, hactive, hmarked⟩
      · have hchanges := step_changes within_any hstep
        have hlt' := Nat.lt_of_lt_of_le hlt (changes_trace hchanges).length_le
        by_cases hactive' : (b.state (k + 1)).active = true
        · rcases changes_marked hchanges (reach_scheduled (b.reach k)) hmarked with
            hstopped | hanswered | hmarked | hwaits
          · exact .inr (.inl (.inl hstopped))
          · exact .inr (.inl (hanswered.followed hlt))
          · exact .inl ⟨hlt', hactive', hmarked⟩
          · exact .inr (.inr ⟨hlt', hactive', hwaits⟩)
        · exact .inr (.inl (.inl (by simpa using hactive')))
    · obtain ⟨k, hle, hgone⟩ := hfair n load h.mem
      exact ⟨k, hle, fun hmarked => hgone (List.mem_map_of_mem hmarked.2.2.mem)⟩
  apply hleads.trans
  rintro k - (hfollowed | hwaiting)
  · exact ⟨k, Nat.le_refl _, hfollowed⟩
  · exact waiting_leads hfair hwaiting

theorem forced_leads (hfair : Fair b) (hforced : At (b.state n) i (.forced rootId)) :
    b.Leads n (Followed i rootId) := by
  have hf := reach_scheduled (b.reach n)
  by_cases hactive : (b.state n).active = true
  · rcases hf.account hactive i rootId hforced with hdropped | hasked | ⟨hserved, -⟩
    · exact ⟨n, Nat.le_refl _, .inr (.inl hdropped)⟩
    · rcases hasked with ⟨queued, hqueued, -⟩ | ⟨tree, hget, hloading, hdirty⟩
      · refine waiting_leads hfair ⟨hforced.lt, hactive, ?_⟩
        exact List.mem_map.2 ⟨_, Ordered.get_eq_some.1 hqueued, rfl⟩
      · obtain ⟨load, hload, hended, rfl⟩ :=
          mem_awaited.1 (hf.loaded hactive rootId ⟨tree, hget, hloading⟩)
        exact marked_leads hfair hactive hforced.lt ⟨hload, hended, tree, hget, hloading, hdirty⟩
    · exact ⟨n, Nat.le_refl _, .inr (.inr hserved)⟩
  · exact ⟨n, Nat.le_refl _, .inl (by simpa using hactive)⟩

end Behaviour

/-! ## The schedule of the forest -/

/-- No load of the root waits or is under way. -/
structure AtRest (f : LineageForest) (rootId : String) : Prop where
  active : f.active = true
  awaited : rootId ∉ awaited f
  queue : rootId ∉ f.queue.keys

theorem AtRest.not_asked (h : AtRest f rootId) (hf : Scheduled f) : ¬ Asked f rootId := by
  rintro (⟨queued, hqueued, -⟩ | ⟨tree, hget, hloading, -⟩)
  · exact h.queue (List.mem_map.2 ⟨_, Ordered.get_eq_some.1 hqueued, rfl⟩)
  · exact h.awaited (hf.loaded h.active rootId ⟨tree, hget, hloading⟩)

/-- The fetch a layout comes from began after place `i`. -/
def NewerThan (f : LineageForest) (i : Nat) (rootId : String) (layout : LineageTreeLayout) :
    Prop :=
  ∃ number, layout.origin = some number ∧ At f number (.fetch rootId) ∧ i < number

structure Orderly (f : LineageForest) : Prop where
  four : (awaited f).length ≤ maxConcurrentLoads
  alone : (awaited f).Nodup
  followed : ∀ rootId i, AtRest f rootId → At f i (.forced rootId) → Followed i rootId f
  newest : ∀ rootId i tree, AtRest f rootId → At f i (.forced rootId) →
    f.trees.get rootId = some tree → tree.status = .loaded →
    Dropped f i rootId ∨ ∃ layout, tree.layout = some layout ∧ NewerThan f i rootId layout

theorem Scheduled.orderly (hf : Scheduled f) : Orderly f := by
  constructor
  · unfold awaited
    rw [List.length_map]
    exact Nat.le_trans (List.length_filter_le _ _) hf.bound
  · exact hf.alone
  · intro rootId i hrest hforced
    rcases hf.account hrest.active i rootId hforced with hdropped | hasked | ⟨hserved, -⟩
    · exact .inr (.inl hdropped)
    · exact absurd hasked (hrest.not_asked hf)
    · exact .inr (.inr hserved)
  · intro rootId i tree hrest hforced hget hloaded
    rcases hf.account hrest.active i rootId hforced with hdropped | hasked | ⟨-, hfresh⟩
    · exact .inl hdropped
    · exact absurd hasked (hrest.not_asked hf)
    · obtain ⟨layout, number, hlayout, horigin, hlt⟩ := hfresh.shown tree hget hloaded
      exact .inr ⟨layout, hlayout, number, horigin,
        hf.origins rootId tree layout number hget hlayout horigin, hlt⟩

/-- In every state at most four fetches are under way, one for each root, and a loaded tree at
rest is newer than every forced request; in every fair behaviour a forced request is followed
by a fetch, unless its root is invalidated or the forest is stopped. -/
theorem forest_scheduled (layoutLineageTree : Arrange) :
    (∀ f, (machine layoutLineageTree).Reach Machine.anyStep f → Orderly f) ∧
      ∀ b : (machine layoutLineageTree).Behaviour, Fair b →
        ∀ n i rootId, At (b.state n) i (.forced rootId) → b.Leads n (Followed i rootId) := by
  constructor
  · exact fun f h => (reach_scheduled h).orderly
  · exact fun b hfair n i rootId hforced => forced_leads hfair hforced

/-! ## A forced load that fails -/

section Sample

def empty : LineageForest := ⟨∅, ∅, [], ∅, [], 0, true, []⟩

theorem empty_start : Start empty := by
  refine ⟨?_, rfl, rfl, rfl, rfl, rfl⟩
  intro rootId tree h
  cases h

def root : Generation := ⟨"root", none, some true, none, [⟨"image", none⟩], ""⟩

def rootNode : SubtreeNode where
  parentJobId := none
  outputAssetIds := ["image"]
  entry := ⟨some "root", "image", "", none, false⟩
  generation := root
  own := by
    intro jobId h
    exact Option.some.inj h

def rootSubtree : GenerationSubtree := ⟨[rootNode], false, 0⟩

/-- The root and nothing else. -/
def rootOnly : Arrange := fun nodes _ root =>
  (nodes[root]?).toList.map fun node => ⟨node.entry.assetId, node.data⟩

def firstLoad : Load := ⟨0, ⟨root, false, false⟩, none, false, false⟩

def firstTree : LineageTree := loadedTree firstLoad rootSubtree [] [⟨"image", rootNode.data⟩]

def forcedLoad : Load := ⟨3, ⟨root, true, false⟩, some firstTree, false, false⟩

/-- The root is fetched, and then fetched again by force, which fails. -/
def refused : List Label :=
  [.ensureVisible root [], .ends firstLoad (.resolved rootSubtree []),
    .releases { firstLoad with ended := true }, .force root, .ends forcedLoad .rejected,
    .releases { forcedLoad with ended := true }]

def shown : LineageForest := ((machine rootOnly).run empty refused).getD empty

theorem forced_load_refused :
    ¬ ∀ f, (machine rootOnly).Reach Machine.anyStep f → ∀ rootId i tree layout,
      AtRest f rootId → At f i (.forced rootId) → f.trees.get rootId = some tree →
      tree.layout = some layout → Dropped f i rootId ∨ NewerThan f i rootId layout := by
  intro hall
  have hrun : (machine rootOnly).run empty refused = some shown := rfl
  have hreach : (machine rootOnly).Reach Machine.anyStep shown :=
    (Machine.Reach.of_init empty_start).path (Machine.path_of_run_any hrun)
  have htree : shown.trees.get "root" = some (errorTree forcedLoad) := rfl
  have htrace : shown.trace =
      [.fetch "root", .arrived "root" 0, .forced "root", .fetch "root"] := rfl
  have hrest : AtRest shown "root" := ⟨rfl, by decide +kernel, by decide +kernel⟩
  have hforced : At shown 2 (.forced "root") := by
    unfold At
    rw [htrace]
    rfl
  rcases hall shown hreach "root" 2 _ ⟨[⟨"image", rootNode.data⟩], some 0⟩ hrest hforced htree rfl
    with ⟨j, -, hj⟩ | ⟨number, horigin, -, hlt⟩
  · -- nothing was invalidated
    have hmem := List.mem_of_getElem? hj
    rw [htrace] at hmem
    simp at hmem
  · cases horigin
    exact absurd hlt (Nat.not_lt_zero 2)

end Sample

end Potocolom.Forest
