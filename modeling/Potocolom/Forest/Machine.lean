import Potocolom.Lib.Machine
import Potocolom.Lib.Ordered

/-! # The lineage forest

`LineageForest` keeps a tree for every root of the canvas. A tree is fetched as a whole, at
most four at a time; a request that comes while its tree is loading leaves a mark on the tree,
and every other one waits in a queue. A load remembers the tree it found when it began, and
writes a whole tree when it ends. -/

namespace Potocolom.Forest

/-! ## Generations and trees -/

structure Asset where
  id : String
  thumbnailUrl : Option String
deriving DecidableEq

structure Generation where
  id : String
  sourceAssetId : Option String
  hasDerivatives : Option Bool
  expired : Option Bool
  assets : List Asset
  /-- The fields that no function of the forest reads. -/
  detail : String
deriving DecidableEq

structure LineageEntry where
  jobId : Option String
  assetId : String
  createdAt : String
  thumbnailUrl : Option String
  missing : Bool
deriving DecidableEq

structure LineageNodeData where
  outputAssetIds : Option (List String)
  entry : LineageEntry
  generation : Option Generation
deriving DecidableEq

/-- `PositionedLineageNode`, without its position. -/
structure LineageNode where
  id : String
  data : LineageNodeData
deriving DecidableEq

structure LineageTreeLayout where
  nodes : List LineageNode
  /-- The fetch the nodes come from, by its place in the trace; none for a fallback. -/
  origin : Option Nat
deriving DecidableEq

inductive Status where
  | loading
  | loaded
  | error
deriving DecidableEq

structure LineageTree where
  status : Status
  layout : Option LineageTreeLayout
  dirty : Bool
  truncated : Bool
  omittedHistoryJobIds : List String
  remainingCountLowerBound : Nat
  retrySpent : Bool
deriving DecidableEq

/-- A node of a subtree; the server gives the generation of the node's own job. -/
structure SubtreeNode where
  parentJobId : Option String
  outputAssetIds : List String
  entry : LineageEntry
  generation : Generation
  own : ∀ jobId, entry.jobId = some jobId → generation.id = jobId

structure GenerationSubtree where
  nodes : List SubtreeNode
  truncated : Bool
  remainingCountLowerBound : Nat

structure LoadRequest where
  root : Generation
  force : Bool
  retry : Bool
deriving DecidableEq

def SubtreeNode.data (node : SubtreeNode) : LineageNodeData :=
  ⟨some node.outputAssetIds, node.entry, some node.generation⟩

/-- `new Map(pairs)`: the last pair of a key counts. -/
def mapOf {ν : Type} (pairs : List (String × ν)) : Ordered String ν :=
  pairs.foldl (fun map pair => map.put pair.1 pair.2) ∅

/-- The generation that made each asset. -/
def owners (history : List Generation) : Ordered String String :=
  mapOf (history.flatMap fun generation =>
    generation.assets.map fun asset => (asset.id, generation.id))

/-- The source asset is one of the assets, or was made by one of the jobs. -/
def attached (assetIds : String → Bool) (jobIds : String → Bool)
    (owners : Ordered String String) (sourceAssetId : String) : Bool :=
  assetIds sourceAssetId ||
    (owners.get sourceAssetId).any fun parentId => parentId ≠ "" && jobIds parentId

def omittedHistoryJobIds (nodes : List LineageNode) (history : List Generation) : List String :=
  let jobIds := nodes.filterMap fun node => node.data.entry.jobId
  let assetIds := nodes.map fun node => node.id
  let omitted := history.filter fun generation =>
    !jobIds.contains generation.id &&
      generation.sourceAssetId.any
        (attached assetIds.contains jobIds.contains (owners history))
  omitted.map fun generation => generation.id

def needsHistoryRefresh (nodes : List LineageNode) (history : List Generation)
    (omittedIds : List String) : Bool :=
  let nodeByJob := mapOf (nodes.filterMap fun node =>
    node.data.entry.jobId.map fun jobId => (jobId, node))
  let assetIds := nodes.flatMap fun node =>
    node.data.outputAssetIds.getD [node.data.entry.assetId]
  history.any fun generation =>
    if generation.assets = [] then false
    else
      match nodeByJob.get generation.id with
      | some cached => !generation.assets.any fun asset => asset.id = cached.data.entry.assetId
      | none =>
        !omittedIds.contains generation.id &&
          generation.sourceAssetId.any fun sourceAssetId => sourceAssetId ≠ "" &&
            attached assetIds.contains (fun jobId => (nodeByJob.get jobId).isSome)
              (owners history) sourceAssetId

/-! ## The state -/

/-- A call of `#load` whose `finally` has not run: what it captured, and whether its body is
over. -/
structure Load where
  /-- The place of its fetch in the trace. -/
  number : Nat
  request : LoadRequest
  existing : Option LineageTree
  retrySpent : Bool
  ended : Bool
deriving DecidableEq

def Load.rootId (load : Load) : String := load.request.root.id

/-- What happens to the forest, as an observer sees it. -/
inductive Event where
  /-- A call of `force` while the forest is active. -/
  | forced (rootId : String)
  | fetch (rootId : String)
  /-- The fetch at that place succeeded, and the forest was active. -/
  | arrived (rootId : String) (number : Nat)
  | replaced (rootId assetId : String) (generation : Generation)
  | invalidated (rootId : String)
  | stopped
deriving DecidableEq

structure LineageForest where
  trees : Ordered String LineageTree
  sessionCache : Ordered String LineageTree
  knownFinishedIds : List String
  queue : Ordered String LoadRequest
  loads : List Load
  inFlight : Nat
  active : Bool
  /-- Oldest first; the code keeps no such list. -/
  trace : List Event

/-- `MAX_CONCURRENT_LOADS` -/
def maxConcurrentLoads : Nat := 4

namespace LineageForest

def log (f : LineageForest) (event : Event) : LineageForest :=
  { f with trace := f.trace ++ [event] }

/-- `#set` -/
def set (f : LineageForest) (rootId : String) (tree : LineageTree) : LineageForest :=
  if f.active then
    { f with
      trees := f.trees.put rootId tree
      sessionCache := if tree.status = .loaded then f.sessionCache.put rootId tree
        else f.sessionCache }
  else f

/-- `#invalidate` -/
def invalidate (f : LineageForest) (rootId : String) : LineageForest :=
  { f.log (.invalidated rootId) with
    queue := f.queue.erase rootId
    trees := f.trees.erase rootId
    sessionCache := f.sessionCache.erase rootId }

/-- `#load`, as far as the call of `fetchSubtree`. -/
def load (f : LineageForest) (request : LoadRequest) : LineageForest :=
  let existing := f.trees.get request.root.id
  let retrySpent := if request.force then false
    else request.retry || (existing.map (·.retrySpent)).getD false
  let f := f.set request.root.id
    { status := .loading
      layout := existing.bind (·.layout)
      dirty := false
      truncated := (existing.map (·.truncated)).getD false
      omittedHistoryJobIds := (existing.map (·.omittedHistoryJobIds)).getD []
      remainingCountLowerBound := (existing.map (·.remainingCountLowerBound)).getD 0
      retrySpent := retrySpent }
  { f.log (.fetch request.root.id) with
    loads := f.loads ++ [⟨f.trace.length, request, existing, retrySpent, false⟩] }

/-- One round of `#drain`: the oldest request of the queue is loaded. -/
def begin (f : LineageForest) (rootId : String) (next : LoadRequest) : LineageForest :=
  ({ f with queue := f.queue.erase rootId, inFlight := f.inFlight + 1 }).load next

/-- `#drain`, with as many rounds as there are free places. -/
def drainBy : Nat → LineageForest → LineageForest
  | 0, f => f
  | free + 1, f =>
    if f.active then
      match f.queue.items.head? with
      | none => f
      | some (rootId, next) => drainBy free (f.begin rootId next)
    else f

def drain (f : LineageForest) : LineageForest := f.drainBy (maxConcurrentLoads - f.inFlight)

/-- `#schedule`, for a tree that is not loading. -/
def enqueue (f : LineageForest) (request : LoadRequest) : LineageForest :=
  match f.queue.get request.root.id with
  | some queued =>
    if request.force && !queued.force then
      { f with queue := f.queue.put request.root.id request }
    else f
  | none => drain { f with queue := f.queue.put request.root.id request }

/-- `#schedule` -/
def schedule (f : LineageForest) (request : LoadRequest) : LineageForest :=
  if f.active = false then f
  else
    match f.trees.get request.root.id with
    | some cached =>
      if cached.status = .loading then
        if request.force && !cached.dirty then
          f.set request.root.id { cached with dirty := true }
        else f
      else if cached.status = .loaded && !request.force then f
      else f.enqueue request
    | none => f.enqueue request

def force (f : LineageForest) (root : Generation) : LineageForest :=
  (if f.active then f.log (.forced root.id) else f).schedule ⟨root, true, false⟩

def ensureVisible (f : LineageForest) (root : Generation) (fallback : List LineageNode) :
    LineageForest :=
  let cached := f.trees.get root.id
  if root.hasDerivatives ≠ some true then
    match cached with
    | none => f.set root.id ⟨.loaded, some ⟨fallback, none⟩, false, false, [], 0, false⟩
    | some _ => f
  else
    match cached with
    | none => f.schedule ⟨root, false, false⟩
    | some tree =>
      if tree.status = .error && !tree.retrySpent then f.schedule ⟨root, false, true⟩ else f

/-- Whether the tree has a node of the asset. -/
def holds (tree : LineageTree) (assetId : String) : Bool :=
  tree.layout.any fun layout => layout.nodes.any fun node => node.id = assetId

/-- A derivative has finished: the first tree that holds its source is loaded again. -/
def derive (f : LineageForest) (roots : List Generation) (sourceAssetId : String) :
    LineageForest × List Generation :=
  match f.trees.items.find? fun item => holds item.2 sourceAssetId with
  | none => (f, roots)
  | some (rootId, cached) =>
    let roots := roots.map fun root =>
      if root.id = rootId then { root with hasDerivatives := some true } else root
    match roots.find? fun root => root.id = rootId with
    | some visibleRoot => (f.force visibleRoot, roots)
    | none =>
      if cached.status = .loading then
        let f := { f with sessionCache := f.sessionCache.erase rootId }
        (if !cached.dirty then f.set rootId { cached with dirty := true } else f, roots)
      else (f.invalidate rootId, roots)

/-- One round of the loop of `reconcileFinished`. -/
def finish (starredOnly : Bool) (isStarred : String → Bool)
    (state : LineageForest × List Generation) (generation : Generation) :
    LineageForest × List Generation :=
  let (f, roots) := state
  if generation.assets = [] || f.knownFinishedIds.contains generation.id then (f, roots)
  else
    let f := { f with knownFinishedIds := generation.id :: f.knownFinishedIds }
    match generation.sourceAssetId with
    | none =>
      if starredOnly && !isStarred generation.id then (f, roots)
      else
        (f, { generation with hasDerivatives := some (generation.hasDerivatives.getD false) } ::
          roots.filter fun root => root.id ≠ generation.id)
    | some sourceAssetId => f.derive roots sourceAssetId

def reconcileFinished (f : LineageForest) (roots history : List Generation) (starredOnly : Bool)
    (isStarred : String → Bool) : LineageForest × List Generation :=
  history.foldl (finish starredOnly isStarred) (f, roots)

/-- One round of the loop of `reconcileHistory`. -/
def refresh (history : List Generation) (f : LineageForest) (root : Generation) : LineageForest :=
  match f.trees.get root.id with
  | none => f
  | some cached =>
    match cached.layout with
    | none => f
    | some layout =>
      let cachedRoot := layout.nodes.find? fun node => node.data.entry.jobId = some root.id
      let derivativeFlagChanged := root.hasDerivatives = some true ∧
        ((cachedRoot.bind (·.data.generation)).bind (·.hasDerivatives)) ≠ some true
      if cached.status = .loaded ∧ (derivativeFlagChanged ∨
          needsHistoryRefresh layout.nodes history cached.omittedHistoryJobIds = true) then
        f.force root
      else f

def reconcileHistory (f : LineageForest) (roots history : List Generation) : LineageForest :=
  roots.foldl (refresh history) f

/-- The node with the generation put in. -/
def regenerate (generation : Generation) (node : LineageNode) : LineageNode :=
  { node with data := { node.data with
      entry := { node.data.entry with
        thumbnailUrl := generation.assets.head?.bind (·.thumbnailUrl)
        missing := generation.assets = [] }
      generation := some generation } }

def relabel (assetId : String) (generation : Generation) (node : LineageNode) : LineageNode :=
  if node.id = assetId then regenerate generation node else node

/-- One round of the loop of `replaceGeneration`. -/
def replace (assetId : String) (generation : Generation) (f : LineageForest)
    (item : String × LineageTree) : LineageForest :=
  match item.2.layout with
  | none => f
  | some layout =>
    if layout.nodes.any fun node => node.id = assetId then
      let nodes := layout.nodes.map (relabel assetId generation)
      (f.log (.replaced item.1 assetId generation)).set item.1
        { item.2 with layout := some { layout with nodes := nodes } }
    else f

def replaceGeneration (f : LineageForest) (roots : List Generation) (assetId : String)
    (generation : Generation) : LineageForest × List Generation :=
  (f.trees.items.foldl (replace assetId generation) f,
    roots.map fun root => if root.id = generation.id then generation else root)

def stop (f : LineageForest) : LineageForest :=
  { f.log .stopped with active := false, queue := ∅ }

/-! ## The end of a load -/

/-- How `layoutLineageTree` arranges the nodes below the root: `d3-hierarchy` walks from the
root along the children. -/
abbrev Arrange := (nodes : List SubtreeNode) → (children : Nat → List Nat) → (root : Nat) →
  List LineageNode

/-- The children of a node, in the order they are pushed. -/
def childrenOf (nodes : List SubtreeNode) (nodesByAsset nodesByJob : Ordered String Nat)
    (parent : Nat) : List Nat :=
  nodes.filterMap fun node =>
    match node.parentJobId with
    | none => none
    | some parentJobId =>
      if nodesByJob.get parentJobId = some parent then
        (nodesByAsset.get node.entry.assetId).filter fun child => child ≠ parent
      else none

/-- `#layout`; the objects it builds are named by their places among the nodes. -/
def layout (layoutLineageTree : Arrange) (rootId : String) (subtree : GenerationSubtree) :
    Option (Generation × List LineageNode) :=
  let nodesByAsset : Ordered String Nat :=
    mapOf (subtree.nodes.mapIdx fun i node => (node.entry.assetId, i))
  let nodesByJob : Ordered String Nat :=
    mapOf ((subtree.nodes.mapIdx fun i node => (node.entry.jobId, i)).filterMap
      fun pair => pair.1.map fun jobId => (jobId, pair.2))
  (subtree.nodes.find? fun node => node.entry.jobId = some rootId).bind fun responseRoot =>
    (nodesByAsset.get responseRoot.entry.assetId).map fun rootNode =>
      ({ responseRoot.generation with expired := some responseRoot.entry.missing },
        layoutLineageTree subtree.nodes (childrenOf subtree.nodes nodesByAsset nodesByJob)
          rootNode)

/-- How a fetch ends while the forest is active; `fetch` rejects with an `AbortError` only
after `stop`. -/
inductive Answer where
  | resolved (subtree : GenerationSubtree) (history : List Generation)
  | rejected

/-- The body of the load is over. -/
def loadOver (f : LineageForest) (load : Load) : LineageForest :=
  { f with loads := f.loads.map fun l => if l = load then { l with ended := true } else l }

/-- Whether the tree was marked while it was loading. -/
def rerun (f : LineageForest) (rootId : String) : Bool := (f.trees.get rootId).any (·.dirty)

/-- The tree that the success path of `#load` writes. -/
def loadedTree (load : Load) (subtree : GenerationSubtree) (history : List Generation)
    (nodes : List LineageNode) : LineageTree where
  status := .loaded
  layout := some ⟨nodes, some load.number⟩
  dirty := false
  truncated := subtree.truncated
  omittedHistoryJobIds := if subtree.truncated then omittedHistoryJobIds nodes history else []
  remainingCountLowerBound := subtree.remainingCountLowerBound
  retrySpent := false

def succeed (f : LineageForest) (load : Load) (subtree : GenerationSubtree)
    (history : List Generation) (root : Generation) (nodes : List LineageNode) :
    LineageForest :=
  let rerun := f.rerun load.rootId
  let f := (f.log (.arrived load.rootId load.number)).set load.rootId
    (loadedTree load subtree history nodes)
  if rerun then
    ({ f with sessionCache := f.sessionCache.erase load.rootId }).schedule ⟨root, true, false⟩
  else f

/-- The tree that the error path of `#load` writes. -/
def errorTree (load : Load) : LineageTree where
  status := .error
  layout := load.existing.bind (·.layout)
  dirty := false
  truncated := (load.existing.map (·.truncated)).getD false
  omittedHistoryJobIds := (load.existing.map (·.omittedHistoryJobIds)).getD []
  remainingCountLowerBound := (load.existing.map (·.remainingCountLowerBound)).getD 0
  retrySpent := load.retrySpent

def fail (f : LineageForest) (load : Load) : LineageForest :=
  let rerun := f.rerun load.rootId
  let f := f.set load.rootId (errorTree load)
  if rerun then f.schedule ⟨load.request.root, true, false⟩ else f

/-- `#load` from the answer of its fetch on. -/
def settle (layoutLineageTree : Arrange) (f : LineageForest) (load : Load) (answer : Answer) :
    LineageForest :=
  let f := f.loadOver load
  if f.active = false then f
  else
    match answer with
    | .resolved subtree history =>
      match layout layoutLineageTree load.rootId subtree with
      | some (root, nodes) => f.succeed load subtree history root nodes
      | none => f.fail load
    | .rejected => f.fail load

/-- The `finally` of `#drain`. -/
def release (f : LineageForest) (load : Load) : LineageForest :=
  drain { f with loads := f.loads.erase load, inFlight := f.inFlight - 1 }

end LineageForest

/-! ## The machine -/

inductive Label where
  | ensureVisible (root : Generation) (fallback : List LineageNode)
  | force (root : Generation)
  | reconcileFinished (roots history : List Generation) (starredOnly : Bool)
      (isStarred : String → Bool)
  | reconcileHistory (roots history : List Generation)
  | replaceGeneration (roots : List Generation) (assetId : String) (generation : Generation)
  | stop
  /-- The fetch of a load ends. -/
  | ends (load : Load) (answer : LineageForest.Answer)
  /-- The `finally` of a load that is over. -/
  | releases (load : Load)

def step (layoutLineageTree : LineageForest.Arrange) (f : LineageForest) :
    Label → Option LineageForest
  | .ensureVisible root fallback => some (f.ensureVisible root fallback)
  | .force root => some (f.force root)
  | .reconcileFinished roots history starredOnly isStarred =>
    some (f.reconcileFinished roots history starredOnly isStarred).1
  | .reconcileHistory roots history => some (f.reconcileHistory roots history)
  | .replaceGeneration roots assetId generation =>
    some (f.replaceGeneration roots assetId generation).1
  | .stop => some f.stop
  | .ends load answer =>
    if load ∈ f.loads ∧ load.ended = false then some (f.settle layoutLineageTree load answer)
    else none
  | .releases load =>
    if load ∈ f.loads ∧ load.ended = true then some (f.release load) else none

/-- A forest that was just built: its trees are those of the session cache, which holds
loaded trees only. -/
structure Start (f : LineageForest) : Prop where
  loaded : ∀ rootId tree, f.trees.get rootId = some tree →
    tree.status = .loaded ∧ tree.dirty = false ∧
      ∀ layout, tree.layout = some layout → layout.origin = none
  queue : f.queue = ∅
  loads : f.loads = []
  inFlight : f.inFlight = 0
  active : f.active = true
  trace : f.trace = []

def machine (layoutLineageTree : LineageForest.Arrange) : Machine LineageForest Label :=
  ⟨Start, step layoutLineageTree⟩

end Potocolom.Forest
