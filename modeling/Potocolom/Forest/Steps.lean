import Potocolom.Forest.Machine

/-! # What a call does to the forest

Every call of the forest, and every end of a load, is a chain of a few small changes. -/

namespace Potocolom.Forest

namespace LineageForest

variable {f : LineageForest} {rootId : String} {tree : LineageTree}

theorem set_of_active (h : f.active = true) :
    f.set rootId tree =
      { f with
        trees := f.trees.put rootId tree
        sessionCache := if tree.status = .loaded then f.sessionCache.put rootId tree
          else f.sessionCache } := by
  unfold set
  rw [if_pos h]

theorem set_of_stopped (h : f.active = false) : f.set rootId tree = f := by
  unfold set
  rw [if_neg (by simp [h])]

@[simp] theorem set_queue : (f.set rootId tree).queue = f.queue := by
  unfold set
  split <;> rfl

@[simp] theorem set_loads : (f.set rootId tree).loads = f.loads := by
  unfold set
  split <;> rfl

@[simp] theorem set_inFlight : (f.set rootId tree).inFlight = f.inFlight := by
  unfold set
  split <;> rfl

@[simp] theorem set_active : (f.set rootId tree).active = f.active := by
  unfold set
  split <;> rfl

@[simp] theorem set_trace : (f.set rootId tree).trace = f.trace := by
  unfold set
  split <;> rfl

theorem set_trees (h : f.active = true) :
    (f.set rootId tree).trees = f.trees.put rootId tree := by
  rw [set_of_active h]

@[simp] theorem over_active {load : Load} : (f.loadOver load).active = f.active := rfl

@[simp] theorem over_rerun {load : Load} : (f.loadOver load).rerun rootId = f.rerun rootId := rfl

/-- Log a call of `force`, if it was one. -/
def note (f : LineageForest) (noted : Bool) (rootId : String) : LineageForest :=
  if noted then f.log (.forced rootId) else f

/-- What a load writes when it begins. -/
def loadingTree (f : LineageForest) (request : LoadRequest) : LineageTree :=
  let existing := f.trees.get request.root.id
  { status := .loading
    layout := existing.bind (·.layout)
    dirty := false
    truncated := (existing.map (·.truncated)).getD false
    omittedHistoryJobIds := (existing.map (·.omittedHistoryJobIds)).getD []
    remainingCountLowerBound := (existing.map (·.remainingCountLowerBound)).getD 0
    retrySpent := if request.force then false
      else request.retry || (existing.map (·.retrySpent)).getD false }

/-- The load that begins. -/
def beginning (f : LineageForest) (request : LoadRequest) : Load :=
  ⟨f.trace.length, request, f.trees.get request.root.id, (f.loadingTree request).retrySpent, false⟩

theorem begin_eq {next : LoadRequest} (hactive : f.active = true) :
    f.begin rootId next =
      { f with
        trees := f.trees.put next.root.id (f.loadingTree next)
        queue := f.queue.erase rootId
        loads := f.loads ++ [f.beginning next]
        inFlight := f.inFlight + 1
        trace := f.trace ++ [.fetch next.root.id] } := by
  have hpopped : ({ f with queue := f.queue.erase rootId, inFlight := f.inFlight + 1 } :
      LineageForest).active = true := hactive
  unfold begin load
  dsimp only
  rw [set_of_active hpopped]
  rfl

/-- The tree is being loaded. -/
def Loading (f : LineageForest) (rootId : String) : Prop :=
  ∃ tree, f.trees.get rootId = some tree ∧ tree.status = .loading

/-- A forced request of the root waits in the queue. -/
def Queued (f : LineageForest) (rootId : String) : Prop :=
  ∃ queued, f.queue.get rootId = some queued ∧ queued.force = true

end LineageForest

open LineageForest

/-- The queue with a forced request of the root. -/
inductive Demanded (queue : Ordered String LoadRequest) (rootId : String) :
    Ordered String LoadRequest → Prop where
  | put (request : LoadRequest) : request.root.id = rootId → request.force = true →
    Demanded queue rootId (queue.put rootId request)
  | already (queued : LoadRequest) : queue.get rootId = some queued → queued.force = true →
    Demanded queue rootId queue

/-- What may happen: the ends of loads, calls of `replaceGeneration` on a stopped forest, and
the `finally` of a load. -/
structure Scope where
  ends : LineageForest → Load → Prop
  late : Prop
  frees : Prop

/-- Everything. -/
def Scope.any : Scope := ⟨fun _ _ => True, True, True⟩

inductive Change (scope : Scope) (f : LineageForest) : LineageForest → Prop where
  | caches (cache : Ordered String LineageTree) (known : List String) :
    Change scope f { f with sessionCache := cache, knownFinishedIds := known }
  | fallback (rootId : String) (tree : LineageTree) : f.active = true →
    f.trees.get rootId = none → tree.status = .loaded →
    (∀ layout, tree.layout = some layout → layout.origin = none) →
    Change scope f (f.set rootId tree)
  | mark (noted : Bool) (rootId : String) (tree : LineageTree) : f.active = true →
    f.trees.get rootId = some tree → tree.status = .loading →
    Change scope f ((f.note noted rootId).set rootId { tree with dirty := true })
  | again (rootId : String) (tree : LineageTree) : f.active = true →
    f.trees.get rootId = some tree → tree.status = .loading → tree.dirty = true →
    Change scope f (f.log (.forced rootId))
  | demand (noted : Bool) (rootId : String) (queue : Ordered String LoadRequest) :
    f.active = true → ¬ f.Loading rootId → Demanded f.queue rootId queue →
    Change scope f { f.note noted rootId with queue := queue }
  | wait (rootId : String) (request : LoadRequest) : f.active = true → ¬ f.Loading rootId →
    request.root.id = rootId → f.queue.get rootId = none →
    Change scope f { f with queue := f.queue.put rootId request }
  | begins (rootId : String) (next : LoadRequest) : f.active = true →
    f.queue.items.head? = some (rootId, next) → f.inFlight < maxConcurrentLoads →
    Change scope f (f.begin rootId next)
  | invalidate (rootId : String) : ¬ f.Loading rootId →
    Change scope f (f.invalidate rootId)
  | replace (rootId assetId : String) (generation : Generation) (tree : LineageTree)
    (layout : LineageTreeLayout) : f.active = true → f.trees.get rootId = some tree →
    tree.layout = some layout → (∃ node ∈ layout.nodes, node.id = assetId) →
    Change scope f ((f.log (.replaced rootId assetId generation)).set rootId
      { tree with
        layout := some ⟨layout.nodes.map (relabel assetId generation), layout.origin⟩ })
  | late (rootId assetId : String) (generation : Generation) : scope.late → f.active = false →
    Change scope f (f.log (.replaced rootId assetId generation))
  | stop : Change scope f f.stop
  | drop (load : Load) : load ∈ f.loads → load.ended = false → f.active = false →
    Change scope f (f.loadOver load)
  | arrive (load : Load) (tree : LineageTree) (layout : LineageTreeLayout)
    (queue : Ordered String LoadRequest) : load ∈ f.loads → load.ended = false →
    f.active = true → scope.ends f load → tree.status = .loaded → tree.dirty = false →
    tree.layout = some layout → layout.origin = some load.number →
    (f.rerun load.rootId = false ∧ queue = f.queue ∨
      f.rerun load.rootId = true ∧ Demanded f.queue load.rootId queue) →
    Change scope f { ((f.loadOver load).log (.arrived load.rootId load.number)).set load.rootId
      tree with queue := queue }
  | miss (load : Load) (tree : LineageTree) (queue : Ordered String LoadRequest) :
    load ∈ f.loads → load.ended = false → f.active = true → scope.ends f load →
    tree.status = .error → tree.dirty = false → tree.layout = load.existing.bind (·.layout) →
    (f.rerun load.rootId = false ∧ queue = f.queue ∨
      f.rerun load.rootId = true ∧ Demanded f.queue load.rootId queue) →
    Change scope f { (f.loadOver load).set load.rootId tree with queue := queue }
  | release (load : Load) : scope.frees → load ∈ f.loads → load.ended = true →
    Change scope f { f with loads := f.loads.erase load, inFlight := f.inFlight - 1 }

abbrev Changes (scope : Scope) : LineageForest → LineageForest → Prop :=
  Relation.ReflTransGen (Change scope)

variable {scope : Scope} {f : LineageForest}

theorem Changes.of_eq {g : LineageForest} (h : g = f) : Changes scope f g := h ▸ .refl

theorem Change.one {g : LineageForest} (h : Change scope f g) : Changes scope f g :=
  .single h

/-! ## Requests -/

theorem drainBy_changes {free : Nat} (hfree : f.inFlight + free ≤ maxConcurrentLoads) :
    Changes scope f (f.drainBy free) := by
  induction free generalizing f with
  | zero => exact .refl
  | succ free ih =>
    unfold drainBy
    split
    · next hactive =>
      split
      · exact .refl
      · next rootId next hhead =>
        refine .head (.begins rootId next hactive hhead (by omega)) (ih ?_)
        have hinFlight : (f.begin rootId next).inFlight = f.inFlight + 1 := set_inFlight
        omega
    · exact .refl

/-- The loop of `#drain` may run with more loads under way than there are places. -/
theorem drain_changes : Changes scope f f.drain := by
  unfold drain
  by_cases hplaces : f.inFlight ≤ maxConcurrentLoads
  · exact drainBy_changes (by omega)
  · rw [Nat.sub_eq_zero_of_le (by omega)]
    exact .refl

theorem not_loading_of_absent {rootId : String} (h : f.trees.get rootId = none) :
    ¬ f.Loading rootId := by
  rintro ⟨tree, hget, -⟩
  rw [h] at hget
  cases hget

theorem not_loading {rootId : String} {tree : LineageTree} (h : f.trees.get rootId = some tree)
    (hstatus : tree.status ≠ .loading) : ¬ f.Loading rootId := by
  rintro ⟨tree', hget, hloading⟩
  rw [h] at hget
  cases hget
  exact hstatus hloading

/-- The queue a forced request leaves, before it is drained. -/
theorem enqueue_demanded (request : LoadRequest) (hforce : request.force = true) :
    ∃ queue, Demanded f.queue request.root.id queue ∧
      (f.enqueue request = { f with queue := queue } ∨
        f.enqueue request = drain { f with queue := queue }) := by
  unfold enqueue
  split
  · next queued hqueued =>
    split
    · exact ⟨_, .put request rfl hforce, .inl rfl⟩
    · next hnot =>
      have hqueuedForce : queued.force = true := by simpa [hforce] using hnot
      exact ⟨f.queue, .already queued hqueued hqueuedForce, .inl rfl⟩
  · exact ⟨_, .put request rfl hforce, .inr rfl⟩

theorem demand_changes {noted : Bool} {request : LoadRequest} (hactive : f.active = true)
    (hloading : ¬ f.Loading request.root.id) (hforce : request.force = true) :
    Changes scope f ((f.note noted request.root.id).enqueue request) := by
  have hqueue : (f.note noted request.root.id).queue = f.queue := by
    unfold note
    split <;> rfl
  obtain ⟨queue, hdemanded, hresult⟩ :=
    enqueue_demanded (f := f.note noted request.root.id) request hforce
  rw [hqueue] at hdemanded
  have hchange : Change scope f { f.note noted request.root.id with queue := queue } :=
    Change.demand noted request.root.id queue hactive hloading hdemanded
  rcases hresult with hresult | hresult
  · rw [hresult]
    exact hchange.one
  · rw [hresult]
    exact .head hchange drain_changes

theorem wait_changes {request : LoadRequest} (hactive : f.active = true)
    (hloading : ¬ f.Loading request.root.id) (hforce : request.force = false) :
    Changes scope f (f.enqueue request) := by
  unfold enqueue
  split
  · rw [hforce]
    exact .refl
  · next habsent =>
    exact .head (Change.wait request.root.id request hactive hloading rfl habsent) drain_changes

theorem schedule_changes (noted : Bool) (request : LoadRequest)
    (hnoted : noted = true → request.force = true) (hactive : f.active = true) :
    Changes scope f ((f.note noted request.root.id).schedule request) := by
  have hsame : (f.note noted request.root.id).active = f.active ∧
      (f.note noted request.root.id).trees = f.trees := by
    unfold note
    split <;> exact ⟨rfl, rfl⟩
  have henqueue : ¬ f.Loading request.root.id →
      Changes scope f ((f.note noted request.root.id).enqueue request) := by
    intro hloading
    cases hforce : request.force with
    | true => exact demand_changes hactive hloading hforce
    | false =>
      have hfalse : noted = false := by
        cases noted with
        | false => rfl
        | true => rw [hnoted rfl] at hforce; cases hforce
      subst hfalse
      exact wait_changes hactive hloading hforce
  unfold schedule
  rw [hsame.1, hsame.2, if_neg (by simp [hactive])]
  split
  · next cached hcached =>
    split
    · next hloading =>
      split
      · exact (Change.mark noted request.root.id cached hactive hcached hloading).one
      · next hnot =>
        cases noted with
        | false => exact .refl
        | true =>
          have hdirty : cached.dirty = true := by simpa [hnoted rfl] using hnot
          exact (Change.again request.root.id cached hactive hcached hloading hdirty).one
    · next hloading =>
      split
      · next hloaded =>
        cases noted with
        | false => exact .refl
        | true => simp [hnoted rfl] at hloaded
      · exact henqueue (not_loading hcached hloading)
  · next habsent => exact henqueue (not_loading_of_absent habsent)

theorem schedule_stopped {request : LoadRequest} (h : f.active = false) :
    f.schedule request = f := by
  unfold schedule
  rw [if_pos h]

theorem request_changes {request : LoadRequest} : Changes scope f (f.schedule request) := by
  by_cases hactive : f.active = true
  · exact schedule_changes false request Bool.noConfusion hactive
  · exact .of_eq (schedule_stopped (by simpa using hactive))

theorem force_changes {root : Generation} : Changes scope f (f.force root) := by
  unfold force
  split
  · next hactive =>
    exact schedule_changes true ⟨root, true, false⟩ (fun _ => rfl) hactive
  · next hactive =>
    exact .of_eq (schedule_stopped (by simpa using hactive))

/-! ## The other calls -/

theorem ensureVisible_changes {root : Generation} {fallback : List LineageNode} :
    Changes scope f (f.ensureVisible root fallback) := by
  unfold ensureVisible
  dsimp only
  split
  · split
    · next habsent =>
      by_cases hactive : f.active = true
      · refine (Change.fallback root.id _ hactive habsent rfl ?_).one
        intro layout hlayout
        cases hlayout
        rfl
      · exact .of_eq (set_of_stopped (by simpa using hactive))
    · exact .refl
  · split
    · exact request_changes
    · split
      · exact request_changes
      · exact .refl

theorem derive_changes {roots : List Generation} {sourceAssetId : String} :
    Changes scope f (f.derive roots sourceAssetId).1 := by
  unfold derive
  split
  · exact .refl
  · next rootId cached hfind =>
    have hcached : f.trees.get rootId = some cached :=
      Ordered.get_eq_some.2 (List.mem_of_find?_eq_some hfind)
    dsimp only
    split
    · exact force_changes
    · split
      · next hloading =>
        have hcaches : Change scope f
            { f with sessionCache := f.sessionCache.erase rootId } :=
          Change.caches (f.sessionCache.erase rootId) f.knownFinishedIds
        split
        · by_cases hactive : f.active = true
          · refine .head hcaches (Change.one ?_)
            exact Change.mark false rootId cached hactive hcached hloading
          · rw [set_of_stopped (by simpa using hactive)]
            exact hcaches.one
        · exact hcaches.one
      · next hloading => exact (Change.invalidate rootId (not_loading hcached hloading)).one

theorem finish_changes {starredOnly : Bool} {isStarred : String → Bool}
    {roots : List Generation} {generation : Generation} :
    Changes scope f (finish starredOnly isStarred (f, roots) generation).1 := by
  unfold finish
  dsimp only
  split
  · exact .refl
  · have hcaches : Change scope f
        { f with knownFinishedIds := generation.id :: f.knownFinishedIds } :=
      Change.caches f.sessionCache (generation.id :: f.knownFinishedIds)
    split
    · split
      · exact hcaches.one
      · exact hcaches.one
    · exact .head hcaches derive_changes

theorem reconcileFinished_changes {roots history : List Generation} {starredOnly : Bool}
    {isStarred : String → Bool} :
    Changes scope f (f.reconcileFinished roots history starredOnly isStarred).1 := by
  unfold reconcileFinished
  induction history generalizing f roots with
  | nil => exact .refl
  | cons generation history ih =>
    rw [List.foldl_cons]
    exact .trans finish_changes ih

theorem refresh_changes {history : List Generation} {root : Generation} :
    Changes scope f (refresh history f root) := by
  unfold refresh
  split
  · exact .refl
  · split
    · exact .refl
    · dsimp only
      split
      · exact force_changes
      · exact .refl

theorem reconcileHistory_changes {roots history : List Generation} :
    Changes scope f (f.reconcileHistory roots history) := by
  unfold reconcileHistory
  induction roots generalizing f with
  | nil => exact .refl
  | cons root roots ih =>
    rw [List.foldl_cons]
    exact .trans refresh_changes ih

theorem replace_change {assetId : String} {generation : Generation}
    {item : String × LineageTree} (hitem : f.trees.get item.1 = some item.2)
    (hlate : f.active = false → scope.late) :
    Changes scope f (LineageForest.replace assetId generation f item) := by
  unfold LineageForest.replace
  split
  · exact .refl
  · next layout hlayout =>
    split
    · next hany =>
      have hnode : ∃ node ∈ layout.nodes, node.id = assetId := by simpa using hany
      by_cases hactive : f.active = true
      · exact (Change.replace item.1 assetId generation item.2 layout hactive hitem hlayout
          hnode).one
      · have hstopped : f.active = false := by simpa using hactive
        have hlog : (f.log (.replaced item.1 assetId generation)).active = false := hstopped
        dsimp only
        rw [set_of_stopped hlog]
        exact (Change.late item.1 assetId generation (hlate hstopped) hstopped).one
    · exact .refl

/-- A round of `replaceGeneration` touches no other tree. -/
theorem replace_frame (assetId : String) (generation : Generation)
    (item : String × LineageTree) :
    (LineageForest.replace assetId generation f item).active = f.active ∧
      ∀ rootId ≠ item.1, (LineageForest.replace assetId generation f item).trees.get rootId =
        f.trees.get rootId := by
  unfold LineageForest.replace
  split
  · exact ⟨rfl, fun _ _ => rfl⟩
  · split
    · refine ⟨set_active, fun rootId hne => ?_⟩
      unfold LineageForest.set
      split
      · exact Ordered.get_put_of_ne hne
      · rfl
    · exact ⟨rfl, fun _ _ => rfl⟩

theorem replace_changes {assetId : String} {generation : Generation}
    {items : List (String × LineageTree)} (hnodup : (items.map Prod.fst).Nodup)
    (hitems : ∀ item ∈ items, f.trees.get item.1 = some item.2)
    (hlate : f.active = false → scope.late) :
    Changes scope f (items.foldl (LineageForest.replace assetId generation) f) := by
  induction items generalizing f with
  | nil => exact .refl
  | cons item items ih =>
    rw [List.map_cons, List.nodup_cons] at hnodup
    rw [List.foldl_cons]
    obtain ⟨hactive, hframe⟩ := replace_frame (f := f) assetId generation item
    refine .trans (replace_change (hitems item List.mem_cons_self) hlate) (ih hnodup.2 ?_ ?_)
    · intro other hother
      have hne : other.1 ≠ item.1 := fun heq => hnodup.1 (heq ▸ List.mem_map_of_mem hother)
      rw [hframe other.1 hne]
      exact hitems other (List.mem_cons_of_mem _ hother)
    · rw [hactive]
      exact hlate

theorem replaceGeneration_changes {roots : List Generation} {assetId : String}
    {generation : Generation} (hlate : f.active = false → scope.late) :
    Changes scope f (f.replaceGeneration roots assetId generation).1 := by
  refine replace_changes f.trees.nodup ?_ hlate
  intro item hitem
  exact Ordered.get_eq_some.2 hitem

/-! ## The end of a load -/

/-- The request of a rerun is put into the queue. -/
theorem schedule_settled {request : LoadRequest} {tree : LineageTree} (hactive : f.active = true)
    (htree : f.trees.get request.root.id = some tree) (hstatus : tree.status ≠ .loading)
    (hforce : request.force = true) : f.schedule request = f.enqueue request := by
  unfold schedule
  rw [if_neg (by simp [hactive]), htree]
  simp [hstatus, hforce]

/-- What comes of a load whose tree is marked, whatever its end wrote. -/
theorem rerun_changes {g : LineageForest} {root : Generation} {tree : LineageTree}
    (hactive : g.active = true) (htree : g.trees.get root.id = some tree)
    (hstatus : tree.status ≠ .loading)
    (hchange : ∀ queue, Demanded g.queue root.id queue →
      Changes scope f { g with queue := queue }) :
    Changes scope f (g.schedule ⟨root, true, false⟩) := by
  rw [schedule_settled hactive htree hstatus rfl]
  obtain ⟨queue, hdemanded, hresult⟩ :=
    enqueue_demanded (f := g) ⟨root, true, false⟩ rfl
  rcases hresult with hresult | hresult
  · rw [hresult]
    exact hchange queue hdemanded
  · rw [hresult]
    exact .trans (hchange queue hdemanded) drain_changes

theorem fail_changes {load : Load} (hload : load ∈ f.loads) (hended : load.ended = false)
    (hactive : f.active = true) (hends : scope.ends f load) :
    Changes scope f ((f.loadOver load).fail load) := by
  have hmiss := fun queue => Change.miss load (errorTree load) queue hload hended
    hactive hends rfl rfl rfl
  have hset : ((f.loadOver load).set load.rootId (errorTree load)).active = true := by
    rw [set_active]
    exact hactive
  have htree : ((f.loadOver load).set load.rootId (errorTree load)).trees.get load.rootId =
      some (errorTree load) := by
    rw [set_trees (f := f.loadOver load) hactive]
    exact Ordered.get_put_self
  unfold fail
  dsimp only
  split
  · next hrerun =>
    refine rerun_changes hset htree (fun h => by cases h) fun queue hdemanded => ?_
    rw [set_queue] at hdemanded
    exact (hmiss queue (.inr ⟨hrerun, hdemanded⟩)).one
  · next hrerun =>
    have hnot : f.rerun load.rootId = false := by simpa using hrerun
    have h := (hmiss f.queue (.inl ⟨hnot, rfl⟩)).one
    have hqueue : ((f.loadOver load).set load.rootId (errorTree load)).queue = f.queue := set_queue
    rw [← hqueue] at h
    exact h

theorem succeed_changes {load : Load} {subtree : GenerationSubtree} {history : List Generation}
    {root : Generation} {nodes : List LineageNode} (hload : load ∈ f.loads)
    (hended : load.ended = false) (hactive : f.active = true) (hends : scope.ends f load)
    (hroot : root.id = load.rootId) :
    Changes scope f ((f.loadOver load).succeed load subtree history root nodes) := by
  have harrive := fun queue => Change.arrive load
    (loadedTree load subtree history nodes) _ queue hload hended hactive hends rfl rfl rfl rfl
  have hset : (((f.loadOver load).log (.arrived load.rootId load.number)).set load.rootId
      (loadedTree load subtree history nodes)).active = true := by
    rw [set_active]
    exact hactive
  have htree : (((f.loadOver load).log (.arrived load.rootId load.number)).set load.rootId
      (loadedTree load subtree history nodes)).trees.get root.id =
        some (loadedTree load subtree history nodes) := by
    rw [hroot, set_trees (f := (f.loadOver load).log _) hactive]
    exact Ordered.get_put_self
  have hqueue : (((f.loadOver load).log (.arrived load.rootId load.number)).set load.rootId
      (loadedTree load subtree history nodes)).queue = f.queue := set_queue
  unfold succeed
  dsimp only
  split
  · next hrerun =>
    refine rerun_changes hset htree (fun h => by cases h) fun queue hdemanded => ?_
    have hdemanded' : Demanded f.queue load.rootId queue := by
      rw [← hroot, ← hqueue]
      exact hdemanded
    exact .tail (harrive queue (.inr ⟨hrerun, hdemanded'⟩)).one (Change.caches _ _)
  · next hrerun =>
    have hnot : f.rerun load.rootId = false := by simpa using hrerun
    have h := (harrive f.queue (.inl ⟨hnot, rfl⟩)).one
    rw [← hqueue] at h
    exact h

/-- The root that `#layout` answers with is the root of the load. -/
theorem layout_root {layoutLineageTree : Arrange} {rootId : String} {subtree : GenerationSubtree}
    {root : Generation} {nodes : List LineageNode}
    (h : layout layoutLineageTree rootId subtree = some (root, nodes)) : root.id = rootId := by
  unfold layout at h
  simp only [Option.bind_eq_some_iff, Option.map_eq_some_iff] at h
  obtain ⟨responseRoot, hfind, rootNode, -, heq⟩ := h
  cases heq
  have hjob : responseRoot.entry.jobId = some rootId := by simpa using List.find?_some hfind
  exact responseRoot.own rootId hjob

theorem settle_changes {layoutLineageTree : Arrange} {load : Load} {answer : Answer}
    (hload : load ∈ f.loads) (hended : load.ended = false)
    (hends : f.active = true → scope.ends f load) :
    Changes scope f (f.settle layoutLineageTree load answer) := by
  unfold settle
  dsimp only
  split
  · next hstopped => exact (Change.drop load hload hended hstopped).one
  · next hactive =>
    have hactive' : f.active = true := by simpa using hactive
    split
    · split
      · next root nodes hlayout =>
        exact succeed_changes hload hended hactive' (hends hactive') (layout_root hlayout)
      · exact fail_changes hload hended hactive' (hends hactive')
    · exact fail_changes hload hended hactive' (hends hactive')

/-! ## The machine -/

/-- The changes of a label are within the scope. -/
def Label.Within (scope : Scope) (f : LineageForest) : Label → Prop
  | .ends load _ => f.active = true → scope.ends f load
  | .replaceGeneration _ _ _ => f.active = false → scope.late
  | .releases _ => scope.frees
  | _ => True

theorem within_any {l : Label} : l.Within .any f := by
  cases l with
  | replaceGeneration roots assetId generation => exact fun _ => trivial
  | ends load answer => exact fun _ => trivial
  | _ => exact trivial

theorem step_changes {layoutLineageTree : Arrange} {l : Label} {g : LineageForest}
    (hwithin : l.Within scope f) (hstep : step layoutLineageTree f l = some g) :
    Changes scope f g := by
  cases l with
  | ensureVisible root fallback =>
    cases hstep
    exact ensureVisible_changes
  | force root =>
    cases hstep
    exact force_changes
  | reconcileFinished roots history starredOnly isStarred =>
    cases hstep
    exact reconcileFinished_changes
  | reconcileHistory roots history =>
    cases hstep
    exact reconcileHistory_changes
  | replaceGeneration roots assetId generation =>
    cases hstep
    exact replaceGeneration_changes hwithin
  | stop =>
    cases hstep
    exact Change.stop.one
  | ends load answer =>
    simp only [step] at hstep
    split at hstep
    · next hload =>
      cases hstep
      exact settle_changes hload.1 hload.2 hwithin
    · cases hstep
  | releases load =>
    simp only [step] at hstep
    split at hstep
    · next hload =>
      cases hstep
      exact .head (Change.release load hwithin hload.1 hload.2) drain_changes
    · cases hstep

end Potocolom.Forest
