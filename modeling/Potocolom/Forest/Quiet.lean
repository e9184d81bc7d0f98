import Potocolom.Forest.Steps

/-! # Where a forced request is remembered

A call of `force` is remembered by a request in the queue or by the mark on a loading tree,
until a fetch of the root begins. Then the tree is loading, and what the load writes, if it
succeeds, is newer than the call. -/

namespace Potocolom.Forest

open LineageForest

/-! ## The trace -/

/-- What stands at a place of the trace. -/
def At (f : LineageForest) (i : Nat) (event : Event) : Prop := f.trace[i]? = some event

/-- The root was invalidated after place `i`. -/
def Dropped (f : LineageForest) (i : Nat) (rootId : String) : Prop :=
  ∃ j, i < j ∧ At f j (.invalidated rootId)

/-- A fetch of the root began after place `i`. -/
def Served (f : LineageForest) (i : Nat) (rootId : String) : Prop :=
  ∃ j, i < j ∧ At f j (.fetch rootId)

/-- A forced request of the root is remembered. -/
def Asked (f : LineageForest) (rootId : String) : Prop :=
  f.Queued rootId ∨ ∃ tree, f.trees.get rootId = some tree ∧ tree.status = .loading ∧
    tree.dirty = true

variable {f g : LineageForest} {i j : Nat} {rootId : String} {event : Event}

theorem At.lt (h : At f i event) : i < f.trace.length := (List.getElem?_eq_some_iff.1 h).1

theorem At.mono (h : At f i event) (hext : f.trace <+: g.trace) : At g i event := by
  obtain ⟨rest, hrest⟩ := hext
  unfold At
  rw [← hrest, List.getElem?_append_left h.lt]
  exact h

theorem at_log {new : Event} :
    At (f.log new) i event ↔ At f i event ∨ i = f.trace.length ∧ event = new := by
  have htrace : (f.log new).trace = f.trace ++ [new] := rfl
  unfold At
  rw [htrace]
  rcases Nat.lt_trichotomy i f.trace.length with hlt | heq | hgt
  · rw [List.getElem?_append_left hlt]
    constructor
    · exact .inl
    · rintro (h | ⟨h, -⟩)
      · exact h
      · omega
  · subst heq
    simp [eq_comm]
  · have hnone : (f.trace ++ [new])[i]? = none := by
      rw [List.getElem?_eq_none_iff, List.length_append, List.length_singleton]
      omega
    have hnone' : f.trace[i]? = none := List.getElem?_eq_none_iff.2 (by omega)
    rw [hnone, hnone']
    constructor
    · intro h
      cases h
    · rintro (h | ⟨h, -⟩)
      · cases h
      · omega

theorem log_extends {new : Event} : f.trace <+: (f.log new).trace := List.prefix_append _ _

theorem Dropped.mono (h : Dropped f i rootId) (hext : f.trace <+: g.trace) :
    Dropped g i rootId := by
  obtain ⟨j, hlt, hj⟩ := h
  exact ⟨j, hlt, hj.mono hext⟩

theorem Served.mono (h : Served f i rootId) (hext : f.trace <+: g.trace) :
    Served g i rootId := by
  obtain ⟨j, hlt, hj⟩ := h
  exact ⟨j, hlt, hj.mono hext⟩

theorem Dropped.earlier (h : Dropped f j rootId) (hij : i ≤ j) : Dropped f i rootId := by
  obtain ⟨k, hlt, hk⟩ := h
  exact ⟨k, by omega, hk⟩

/-! ## The invariant -/

/-- Whatever the root still shows or loads is newer than place `i`. -/
structure Fresh (f : LineageForest) (i : Nat) (rootId : String) : Prop where
  loads : ∀ load ∈ f.loads, load.ended = false → load.rootId = rootId → i < load.number
  shown : ∀ tree, f.trees.get rootId = some tree → tree.status = .loaded →
    ∃ layout number, tree.layout = some layout ∧ layout.origin = some number ∧ i < number

/-- The roots whose fetches are under way. -/
def awaited (f : LineageForest) : List String :=
  (f.loads.filter fun load => !load.ended).map Load.rootId

structure Scheduled (f : LineageForest) : Prop where
  places : f.inFlight = f.loads.length
  bound : f.loads.length ≤ maxConcurrentLoads
  numbers : (f.loads.map Load.number).Nodup
  fetch : ∀ load ∈ f.loads, At f load.number (.fetch load.rootId)
  captured : ∀ load ∈ f.loads, ∀ tree layout number, load.existing = some tree →
    tree.layout = some layout → layout.origin = some number →
    At f number (.fetch load.rootId)
  alone : (awaited f).Nodup
  loading : f.active = true → ∀ load ∈ f.loads, load.ended = false → f.Loading load.rootId
  loaded : f.active = true → ∀ rootId, f.Loading rootId → rootId ∈ awaited f
  waiting : ∀ rootId queued, f.queue.get rootId = some queued →
    queued.root.id = rootId ∧ ¬ f.Loading rootId
  present : f.active = true → ∀ i rootId, At f i (.fetch rootId) →
    (∃ tree, f.trees.get rootId = some tree) ∨ Dropped f i rootId
  origins : ∀ rootId tree layout number, f.trees.get rootId = some tree →
    tree.layout = some layout → layout.origin = some number → At f number (.fetch rootId)
  account : f.active = true → ∀ i rootId, At f i (.forced rootId) →
    Dropped f i rootId ∨ Asked f rootId ∨ Served f i rootId ∧ Fresh f i rootId

theorem mem_awaited :
    rootId ∈ awaited f ↔ ∃ load ∈ f.loads, load.ended = false ∧ load.rootId = rootId := by
  simp [awaited, and_assoc]

/-- One root, one load. -/
theorem Scheduled.unique (h : Scheduled f) {load load' : Load} (hload : load ∈ f.loads)
    (hload' : load' ∈ f.loads) (hended : load.ended = false) (hended' : load'.ended = false)
    (hroot : load.rootId = load'.rootId) : load = load' := by
  refine List.inj_on_of_nodup_map h.alone ?_ ?_ hroot
  · rw [List.mem_filter]
    exact ⟨hload, by simp [hended]⟩
  · rw [List.mem_filter]
    exact ⟨hload', by simp [hended']⟩

/-! ## Changes that no load notices -/

/-- The trees differ in what neither a load nor a request looks at. -/
inductive Alike : Option LineageTree → Option LineageTree → Prop where
  | absent : Alike none none
  | present (tree tree' : LineageTree) : tree'.status = tree.status →
    tree'.layout.map (·.origin) = tree.layout.map (·.origin) →
    (tree.dirty = true → tree'.dirty = true) → Alike (some tree) (some tree')

theorem Alike.refl (tree : Option LineageTree) : Alike tree tree := by
  cases tree with
  | none => exact .absent
  | some tree => exact .present tree tree rfl rfl id

theorem Alike.left {tree : Option LineageTree} {tree' : LineageTree}
    (h : Alike tree (some tree')) :
    ∃ old, tree = some old ∧ tree'.status = old.status ∧
      tree'.layout.map (·.origin) = old.layout.map (·.origin) := by
  cases h with
  | present old _ hstatus horigin _ => exact ⟨old, rfl, hstatus, horigin⟩

theorem Alike.right {tree : LineageTree} {tree' : Option LineageTree}
    (h : Alike (some tree) tree') :
    ∃ new, tree' = some new ∧ new.status = tree.status ∧
      new.layout.map (·.origin) = tree.layout.map (·.origin) ∧
      (tree.dirty = true → new.dirty = true) := by
  cases h with
  | present _ new hstatus horigin hdirty => exact ⟨new, rfl, hstatus, horigin, hdirty⟩

/-- Layouts of one origin. -/
theorem layout_of_origin {layout layout' : Option LineageTreeLayout} {shown : LineageTreeLayout}
    (h : layout'.map (·.origin) = layout.map (·.origin)) (hshown : layout = some shown) :
    ∃ shown', layout' = some shown' ∧ shown'.origin = shown.origin := by
  rw [hshown] at h
  exact Option.map_eq_some_iff.1 h

/-- A change of marks, nodes, requests and the trace. -/
structure Quiet (f g : LineageForest) : Prop where
  loads : g.loads = f.loads
  inFlight : g.inFlight = f.inFlight
  active : g.active = f.active
  trees : ∀ rootId, Alike (f.trees.get rootId) (g.trees.get rootId)
  waiting : ∀ rootId queued, g.queue.get rootId = some queued →
    queued.root.id = rootId ∧ ¬ f.Loading rootId
  queued : ∀ rootId, f.Queued rootId → g.Queued rootId
  trace : f.trace <+: g.trace
  fetches : ∀ i rootId, At g i (.fetch rootId) → At f i (.fetch rootId)
  forces : ∀ i rootId, At g i (.forced rootId) → At f i (.forced rootId) ∨ Asked g rootId

theorem Quiet.loading (h : Quiet f g) : g.Loading rootId ↔ f.Loading rootId := by
  have htree := h.trees rootId
  constructor
  · rintro ⟨tree', hget', hloading⟩
    rw [hget'] at htree
    obtain ⟨tree, hget, hstatus, -⟩ := htree.left
    exact ⟨tree, hget, hstatus ▸ hloading⟩
  · rintro ⟨tree, hget, hloading⟩
    rw [hget] at htree
    obtain ⟨tree', hget', hstatus, -⟩ := htree.right
    exact ⟨tree', hget', hstatus.trans hloading⟩

theorem Quiet.asked (h : Quiet f g) (hasked : Asked f rootId) : Asked g rootId := by
  rcases hasked with hqueued | ⟨tree, hget, hloading, hdirty⟩
  · exact .inl (h.queued rootId hqueued)
  · right
    have htree := h.trees rootId
    rw [hget] at htree
    obtain ⟨tree', hget', hstatus, -, hmark⟩ := htree.right
    exact ⟨tree', hget', hstatus.trans hloading, hmark hdirty⟩

theorem Quiet.fresh (h : Quiet f g) (hfresh : Fresh f i rootId) : Fresh g i rootId := by
  constructor
  · rw [h.loads]
    exact hfresh.loads
  · intro tree' hget' hloaded
    have htree := h.trees rootId
    rw [hget'] at htree
    obtain ⟨tree, hget, hstatus, horigins⟩ := htree.left
    obtain ⟨layout, number, hlayout, horigin, hlt⟩ :=
      hfresh.shown tree hget (hstatus ▸ hloaded)
    obtain ⟨layout', hlayout', heq⟩ := layout_of_origin horigins hlayout
    exact ⟨layout', number, hlayout', heq.trans horigin, hlt⟩

theorem Scheduled.quiet (h : Scheduled f) (hquiet : Quiet f g) : Scheduled g := by
  have hawaited : awaited g = awaited f := by
    unfold awaited
    rw [hquiet.loads]
  constructor
  · rw [hquiet.inFlight, hquiet.loads]
    exact h.places
  · rw [hquiet.loads]
    exact h.bound
  · rw [hquiet.loads]
    exact h.numbers
  · intro load hload
    rw [hquiet.loads] at hload
    exact (h.fetch load hload).mono hquiet.trace
  · intro load hload tree layout number hexisting hlayout horigin
    rw [hquiet.loads] at hload
    exact (h.captured load hload tree layout number hexisting hlayout horigin).mono hquiet.trace
  · rw [hawaited]
    exact h.alone
  · intro hactive load hload hended
    rw [hquiet.active] at hactive
    rw [hquiet.loads] at hload
    exact hquiet.loading.2 (h.loading hactive load hload hended)
  · intro hactive rootId hloading
    rw [hquiet.active] at hactive
    rw [hawaited]
    exact h.loaded hactive rootId (hquiet.loading.1 hloading)
  · intro rootId queued hqueued
    obtain ⟨hroot, hnot⟩ := hquiet.waiting rootId queued hqueued
    exact ⟨hroot, fun hloading => hnot (hquiet.loading.1 hloading)⟩
  · intro hactive i rootId hfetch
    rw [hquiet.active] at hactive
    rcases h.present hactive i rootId (hquiet.fetches i rootId hfetch) with ⟨tree, hget⟩ | hdropped
    · have htree := hquiet.trees rootId
      rw [hget] at htree
      obtain ⟨tree', hget', -⟩ := htree.right
      exact .inl ⟨tree', hget'⟩
    · exact .inr (hdropped.mono hquiet.trace)
  · intro rootId tree' layout' number hget' hlayout' horigin
    have htree := hquiet.trees rootId
    rw [hget'] at htree
    obtain ⟨tree, hget, -, horigins⟩ := htree.left
    obtain ⟨layout, hlayout, heq⟩ := layout_of_origin horigins.symm hlayout'
    exact (h.origins rootId tree layout number hget hlayout (heq.trans horigin)).mono hquiet.trace
  · intro hactive i rootId hforced
    rw [hquiet.active] at hactive
    rcases hquiet.forces i rootId hforced with hforced | hasked
    · rcases h.account hactive i rootId hforced with hdropped | hasked | ⟨hserved, hfresh⟩
      · exact .inl (hdropped.mono hquiet.trace)
      · exact .inr (.inl (hquiet.asked hasked))
      · exact .inr (.inr ⟨hserved.mono hquiet.trace, hquiet.fresh hfresh⟩)
    · exact .inr (.inl hasked)

/-! ### The quiet changes -/

theorem note_extends {noted : Bool} : f.trace <+: (f.note noted rootId).trace := by
  cases noted with
  | false => exact List.prefix_rfl
  | true => exact log_extends

theorem note_at {noted : Bool} (h : At (f.note noted rootId) i event) :
    At f i event ∨ event = .forced rootId := by
  cases noted with
  | false => exact .inl h
  | true =>
    rcases at_log.1 h with h | ⟨-, h⟩
    · exact .inl h
    · exact .inr h

@[simp] theorem note_active {noted : Bool} : (f.note noted rootId).active = f.active := by
  cases noted <;> rfl

@[simp] theorem note_trees {noted : Bool} : (f.note noted rootId).trees = f.trees := by
  cases noted <;> rfl

@[simp] theorem note_loads {noted : Bool} : (f.note noted rootId).loads = f.loads := by
  cases noted <;> rfl

@[simp] theorem note_queue {noted : Bool} : (f.note noted rootId).queue = f.queue := by
  cases noted <;> rfl

@[simp] theorem note_inFlight {noted : Bool} :
    (f.note noted rootId).inFlight = f.inFlight := by
  cases noted <;> rfl

/-- A tree is written over that differs in its mark or its nodes. -/
theorem alike_put {tree tree' : LineageTree} (hget : f.trees.get rootId = some tree)
    (hstatus : tree'.status = tree.status)
    (horigin : tree'.layout.map (·.origin) = tree.layout.map (·.origin))
    (hdirty : tree.dirty = true → tree'.dirty = true) (other : String) :
    Alike (f.trees.get other) ((f.trees.put rootId tree').get other) := by
  by_cases heq : other = rootId
  · rw [heq, hget, Ordered.get_put_self]
    exact .present tree tree' hstatus horigin hdirty
  · rw [Ordered.get_put_of_ne heq]
    exact .refl _

theorem Demanded.queued {queue : Ordered String LoadRequest} (h : Demanded f.queue rootId queue) :
    ∃ queued, queue.get rootId = some queued ∧ queued.force = true := by
  cases h with
  | put request _ hforce => exact ⟨request, Ordered.get_put_self, hforce⟩
  | already queued hget hforce => exact ⟨queued, hget, hforce⟩

/-- The requests of the other roots stay. -/
theorem Demanded.other {queue : Ordered String LoadRequest} (h : Demanded f.queue rootId queue)
    {other : String} (hne : other ≠ rootId) : queue.get other = f.queue.get other := by
  cases h with
  | put request _ _ => exact Ordered.get_put_of_ne hne
  | already _ _ _ => rfl

theorem Demanded.root {queue : Ordered String LoadRequest} (h : Scheduled f)
    (hdemanded : Demanded f.queue rootId queue) {queued : LoadRequest}
    (hqueued : queue.get rootId = some queued) : queued.root.id = rootId := by
  cases hdemanded with
  | put request hroot _ =>
    rw [Ordered.get_put_self] at hqueued
    cases hqueued
    exact hroot
  | already _ _ _ => exact (h.waiting rootId queued hqueued).1

theorem Demanded.waiting {queue : Ordered String LoadRequest} (h : Scheduled f)
    (hnot : ¬ f.Loading rootId) (hdemanded : Demanded f.queue rootId queue) {other : String}
    {queued : LoadRequest} (hqueued : queue.get other = some queued) :
    queued.root.id = other ∧ ¬ f.Loading other := by
  by_cases heq : other = rootId
  · rw [heq] at hqueued ⊢
    exact ⟨hdemanded.root h hqueued, hnot⟩
  · rw [hdemanded.other heq] at hqueued
    exact h.waiting other queued hqueued

theorem caches_quiet (h : Scheduled f) (cache : Ordered String LineageTree)
    (known : List String) : Quiet f { f with sessionCache := cache, knownFinishedIds := known } :=
  ⟨rfl, rfl, rfl, fun _ => .refl _, h.waiting, fun _ => id, List.prefix_rfl, fun _ _ => id,
    fun _ _ => .inl⟩

theorem mark_quiet (h : Scheduled f) (hactive : f.active = true) {tree : LineageTree}
    (hget : f.trees.get rootId = some tree) (hloading : tree.status = .loading) (noted : Bool) :
    Quiet f ((f.note noted rootId).set rootId { tree with dirty := true }) := by
  have htrees : ((f.note noted rootId).set rootId { tree with dirty := true }).trees =
      f.trees.put rootId { tree with dirty := true } := by
    rw [set_trees (by rw [note_active]; exact hactive), note_trees]
  constructor
  · simp
  · simp
  · simp
  · intro other
    rw [htrees]
    refine alike_put hget ?_ ?_ ?_ other
    · rfl
    · rfl
    · exact fun _ => rfl
  · intro other queued hqueued
    rw [set_queue, note_queue] at hqueued
    exact h.waiting other queued hqueued
  · rintro other ⟨queued, hqueued, hforce⟩
    refine ⟨queued, ?_, hforce⟩
    rw [set_queue, note_queue]
    exact hqueued
  · rw [set_trace]
    exact note_extends
  · intro i other hfetch
    unfold At at hfetch
    rw [set_trace] at hfetch
    rcases note_at hfetch with hfetch | heq
    · exact hfetch
    · cases heq
  · intro i other hforced
    unfold At at hforced
    rw [set_trace] at hforced
    rcases note_at hforced with hforced | heq
    · exact .inl hforced
    · cases heq
      right
      right
      refine ⟨{ tree with dirty := true }, ?_, hloading, rfl⟩
      rw [htrees]
      exact Ordered.get_put_self

theorem again_quiet (h : Scheduled f) {tree : LineageTree}
    (hget : f.trees.get rootId = some tree) (hloading : tree.status = .loading)
    (hdirty : tree.dirty = true) : Quiet f (f.log (.forced rootId)) := by
  refine ⟨rfl, rfl, rfl, fun _ => .refl _, h.waiting, fun _ => id, log_extends, ?_, ?_⟩
  · intro i other hfetch
    rcases at_log.1 hfetch with hfetch | ⟨-, heq⟩
    · exact hfetch
    · cases heq
  · intro i other hforced
    rcases at_log.1 hforced with hforced | ⟨-, heq⟩
    · exact .inl hforced
    · cases heq
      exact .inr (.inr ⟨tree, hget, hloading, hdirty⟩)

theorem demand_quiet (h : Scheduled f) (hnot : ¬ f.Loading rootId)
    {queue : Ordered String LoadRequest} (hdemanded : Demanded f.queue rootId queue)
    (noted : Bool) : Quiet f { f.note noted rootId with queue := queue } := by
  constructor
  · exact note_loads
  · exact note_inFlight
  · exact note_active
  · intro other
    show Alike (f.trees.get other) ((f.note noted rootId).trees.get other)
    rw [note_trees]
    exact .refl _
  · intro other queued hqueued
    exact hdemanded.waiting h hnot hqueued
  · rintro other ⟨queued, hqueued, hforce⟩
    by_cases heq : other = rootId
    · rw [heq]
      exact hdemanded.queued
    · exact ⟨queued, (hdemanded.other heq).trans hqueued, hforce⟩
  · exact note_extends
  · intro i other hfetch
    rcases note_at hfetch with hfetch | heq
    · exact hfetch
    · cases heq
  · intro i other hforced
    rcases note_at hforced with hforced | heq
    · exact .inl hforced
    · cases heq
      exact .inr (.inl hdemanded.queued)

theorem wait_quiet (h : Scheduled f) (hnot : ¬ f.Loading rootId) {request : LoadRequest}
    (hroot : request.root.id = rootId) (habsent : f.queue.get rootId = none) :
    Quiet f { f with queue := f.queue.put rootId request } := by
  refine ⟨rfl, rfl, rfl, fun _ => .refl _, ?_, ?_, List.prefix_rfl, fun _ _ => id,
    fun _ _ => .inl⟩
  · intro other queued hqueued
    by_cases heq : other = rootId
    · rw [heq, Ordered.get_put_self] at hqueued
      cases hqueued
      rw [heq]
      exact ⟨hroot, hnot⟩
    · rw [Ordered.get_put_of_ne heq] at hqueued
      exact h.waiting other queued hqueued
  · rintro other ⟨queued, hqueued, hforce⟩
    refine ⟨queued, ?_, hforce⟩
    have hne : other ≠ rootId := by
      rintro rfl
      rw [habsent] at hqueued
      cases hqueued
    exact (Ordered.get_put_of_ne hne).trans hqueued

theorem late_quiet (h : Scheduled f) (rootId assetId : String) (generation : Generation) :
    Quiet f (f.log (.replaced rootId assetId generation)) := by
  refine ⟨rfl, rfl, rfl, fun _ => .refl _, h.waiting, fun _ => id, log_extends, ?_, ?_⟩
  · intro i other hfetch
    rcases at_log.1 hfetch with hfetch | ⟨-, heq⟩
    · exact hfetch
    · cases heq
  · intro i other hforced
    rcases at_log.1 hforced with hforced | ⟨-, heq⟩
    · exact .inl hforced
    · cases heq

theorem replace_quiet (h : Scheduled f) (hactive : f.active = true) {assetId : String}
    {generation : Generation} {tree : LineageTree} {layout : LineageTreeLayout}
    (hget : f.trees.get rootId = some tree) (hlayout : tree.layout = some layout) :
    Quiet f ((f.log (.replaced rootId assetId generation)).set rootId
      { tree with
        layout := some ⟨layout.nodes.map (relabel assetId generation), layout.origin⟩ }) := by
  have hlate := late_quiet h rootId assetId generation
  have hlog : (f.log (.replaced rootId assetId generation)).active = true := hactive
  constructor
  · exact set_loads
  · exact set_inFlight
  · exact set_active
  · intro other
    rw [set_trees hlog]
    refine alike_put hget ?_ ?_ ?_ other
    · rfl
    · rw [hlayout, Option.map_some, Option.map_some]
    · exact id
  · intro other queued hqueued
    rw [set_queue] at hqueued
    exact h.waiting other queued hqueued
  · rintro other ⟨queued, hqueued, hforce⟩
    refine ⟨queued, ?_, hforce⟩
    rw [set_queue]
    exact hqueued
  · rw [set_trace]
    exact log_extends
  · intro i other hfetch
    unfold At at hfetch
    rw [set_trace] at hfetch
    exact hlate.fetches i other hfetch
  · intro i other hforced
    unfold At at hforced
    rw [set_trace] at hforced
    rcases at_log.1 hforced with hforced | ⟨-, heq⟩
    · exact .inl hforced
    · cases heq

end Potocolom.Forest
