import Potocolom.Lib.Closure
import Potocolom.Lib.Keyset

/-! # The listing of generations

`list_generations` of `jobs.py`: the filters of the library, the walk from what matches them
up to its roots, and the pages. Instants are in microseconds, ids are numbers. -/

namespace Potocolom.Listing

/-! ## The tables -/

inductive State where
  | queued
  | running
  | succeeded
  | failed
  | cancelled
deriving DecidableEq, Repr

structure Asset where
  id : Nat
  userId : Nat
  jobId : Option Nat
  storageKey : List Char
  width : Int
  height : Int
  expiresAt : Option Int
deriving DecidableEq, Repr

structure Job where
  id : Nat
  userId : Nat
  modelId : String
  state : State
  sourceAssetId : Option Nat
  starredAt : Option Int
  createdAt : Int
  /-- `params["prompt"].as_string()`. -/
  prompt : Option String
deriving DecidableEq, Repr

structure Model where
  id : String
  capabilities : List String
deriving DecidableEq, Repr

/-- The rows of `jobs`, `assets` and `models`, each under its primary key. -/
structure Tables where
  jobs : List Job
  assets : List Asset
  models : List Model
  jobIds : (jobs.map Job.id).Nodup
  assetIds : (assets.map Asset.id).Nodup

/-- `storage_key LIKE '%-thumb.webp'`. -/
def Asset.IsThumbnail (asset : Asset) : Prop :=
  "-thumb.webp".toList <:+ asset.storageKey

instance (asset : Asset) : Decidable asset.IsThumbnail :=
  inferInstanceAs (Decidable (_ <:+ _))

/-! ## The filters -/

/-- `GenerationSize`. -/
inductive GenerationSize where
  | px512
  | px768
  | k1
  | k2
  | k4
  | above4k
  | unknown
deriving DecidableEq, Repr

inductive GenerationAction where
  | generate
  | imageToImage
  | upscale
deriving DecidableEq, Repr

/-- A date bound: the instant it names, and whether it has an offset. -/
structure Bound where
  instant : Int
  aware : Bool
deriving DecidableEq, Repr

/-- The filters of a request. An empty list is no list. -/
structure Filters where
  state : Option State
  starred : Option Bool
  rootsOnly : Option Bool
  q : Option String
  modelIds : List String
  createdFrom : Option Bound
  createdBefore : Option Bound
  sizes : List GenerationSize
  action : Option GenerationAction
deriving DecidableEq, Repr

/-- `ranges`: from the lower bound to below the upper. -/
def sizeRange : GenerationSize → Option (Int × Option Int)
  | .px512 => some (1, some 640)
  | .px768 => some (640, some 896)
  | .k1 => some (896, some 1536)
  | .k2 => some (1536, some 3072)
  | .k4 => some (3072, some 6144)
  | .above4k => some (6144, none)
  | .unknown => none

def inRange (longSide : Int) (range : Int × Option Int) : Bool :=
  range.1 ≤ longSide && match range.2 with
    | some upper => longSide < upper
    | none => true

/-- `master`. -/
def isMaster (job : Job) (asset : Asset) : Bool :=
  asset.jobId = some job.id && asset.userId = job.userId && !decide asset.IsThumbnail &&
    0 < asset.width && 0 < asset.height

/-- The condition for the sizes. -/
def sizeCondition (t : Tables) (sizes : List GenerationSize) (job : Job) : Bool :=
  let matchingRanges := sizes.filterMap sizeRange
  let matchingMaster := t.assets.any fun asset =>
    isMaster job asset && matchingRanges.any (inRange (max asset.width asset.height))
  let validMaster := t.assets.any (isMaster job)
  (matchingRanges ≠ [] && matchingMaster) || (.unknown ∈ sizes && !validMaster)

/-- `_library_conditions`. -/
def libraryConditions (t : Tables) (f : Filters) : List (Job → Bool) :=
  (if f.modelIds ≠ [] then [fun job => decide (job.modelId ∈ f.modelIds)] else []) ++
  (f.createdFrom.map fun bound (job : Job) => decide (bound.instant ≤ job.createdAt)).toList ++
  (f.createdBefore.map fun bound (job : Job) => decide (job.createdAt < bound.instant)).toList ++
  (if f.sizes ≠ [] then [sizeCondition t f.sizes] else [])

/-- `_model_capability_condition`. -/
def modelCapabilityCondition (t : Tables) (capability : String) (job : Job) : Bool :=
  t.models.any fun model => model.id = job.modelId && capability ∈ model.capabilities

/-- `_action_condition`. -/
def actionCondition (t : Tables) (action : GenerationAction) (job : Job) : Bool :=
  match action with
  | .generate => job.sourceAssetId.isNone
  | .upscale => job.sourceAssetId.isSome && modelCapabilityCondition t "upscale" job
  | .imageToImage => job.sourceAssetId.isSome && !modelCapabilityCondition t "upscale" job

/-! ## The walk up -/

/-- The owned parents that the step of the walk joins to a job. -/
def parents (t : Tables) (user id : Nat) : List Nat :=
  (t.jobs.filter fun job => job.id = id).flatMap fun job =>
    (t.assets.filter fun source =>
      job.sourceAssetId = some source.id ∧ source.userId = user).flatMap fun source =>
        (t.jobs.filter fun parent => source.jobId = some parent.id ∧ parent.userId = user).map Job.id

/-- `_library_ancestor_cte`. -/
def libraryAncestorCte (t : Tables) (user : Nat) (conditions : List (Job → Bool)) :
    Closure.Query Nat where
  seed := (t.jobs.filter fun job =>
    job.userId = user && conditions.all fun condition => condition job).map Job.id
  next := parents t user
  all := t.jobs.map Job.id
  seed_mem x hx := by
    obtain ⟨job, hjob, rfl⟩ := List.mem_map.1 hx
    exact List.mem_map_of_mem (List.mem_of_mem_filter hjob)
  next_mem x y hy := by
    obtain ⟨job, -, hy⟩ := List.mem_flatMap.1 hy
    obtain ⟨source, -, hy⟩ := List.mem_flatMap.1 hy
    obtain ⟨parent, hparent, rfl⟩ := List.mem_map.1 hy
    exact List.mem_map_of_mem (List.mem_of_mem_filter hparent)

/-- The rows of the walk; a round more than there are jobs is enough. -/
def ancestors (t : Tables) (user : Nat) (conditions : List (Job → Bool)) : List Nat :=
  let query := libraryAncestorCte t user conditions
  (query.run (t.jobs.length + 1) query.start).getD []

/-! ## The listing -/

/-- `str.strip`, and the match of a prompt by `ILIKE` or by its trigrams. -/
structure TextSearch where
  strip : String → String
  finds : String → Option String → Bool

/-- The filters that a row meets itself, whatever the library filters ask for. -/
def direct (t : Tables) (text : TextSearch) (user : Nat) (f : Filters) (job : Job) : Bool :=
  job.userId = user &&
  (match f.state with
    | some state => job.state = state
    | none => true) &&
  (match f.starred with
    | some starred => if starred then job.starredAt.isSome else job.starredAt.isNone
    | none => true) &&
  (match f.rootsOnly with
    | some rootsOnly => if rootsOnly then job.sourceAssetId.isNone else job.sourceAssetId.isSome
    | none => true) &&
  (match f.action with
    | some action => actionCondition t action job
    | none => true) &&
  let trimmed := text.strip (f.q.getD "")
  (trimmed = "" || text.finds trimmed job.prompt)

/-- What the walk starts from. -/
def walkConditions (t : Tables) (f : Filters) : List (Job → Bool) :=
  libraryConditions t f ++ (f.state.map fun state (job : Job) => decide (job.state = state)).toList

/-- `_filter_generations`. -/
def filterGenerations (t : Tables) (text : TextSearch) (user : Nat) (f : Filters) (job : Job) :
    Bool :=
  direct t text user f job &&
    if f.rootsOnly = some true && !(libraryConditions t f).isEmpty then
      job.id ∈ ancestors t user (walkConditions t f)
    else (libraryConditions t f).all fun condition => condition job

/-- The filtered set. -/
def filtered (t : Tables) (text : TextSearch) (user : Nat) (f : Filters) : List Job :=
  t.jobs.filter (filterGenerations t text user f)

/-- The columns of `ORDER BY … DESC`; a null stands first. -/
def orderKey (starred : Option Bool) (job : Job) : WithTop Int ×ₗ Nat :=
  if starred = some true then
    toLex ((match job.starredAt with
      | some instant => (instant : WithTop Int)
      | none => ⊤), job.id)
  else toLex ((job.createdAt : WithTop Int), job.id)

/-- The rows in the order of the listing. -/
def listed (f : Filters) (rows : List Job) : List Job := Keyset.descending (orderKey f.starred) rows

/-- The condition that the cursor's job puts on a row. -/
def behind (starred : Option Bool) (anchor job : Job) : Bool :=
  if starred = some true then
    match job.starredAt, anchor.starredAt with
    | some instant, some bound => instant < bound || (instant = bound && job.id < anchor.id)
    | _, _ => false
  else job.createdAt < anchor.createdAt || (job.createdAt = anchor.createdAt && job.id < anchor.id)

/-- The `HTTPException`s of the listing. -/
inductive Refusal where
  /-- 422, with its detail. -/
  | unprocessable (detail : String)
  /-- 404, "unknown cursor". -/
  | unknownCursor
deriving DecidableEq, Repr

/-- `_validate_created_window`. -/
def validateCreatedWindow (f : Filters) : Option Refusal :=
  if [f.createdFrom, f.createdBefore].any fun bound => bound.any fun b => !b.aware then
    some (.unprocessable "created_from and created_before must be timezone-aware")
  else
    match f.createdFrom, f.createdBefore with
    | some first, some last =>
      if last.instant ≤ first.instant then
        some (.unprocessable "created_from must be before created_before")
      else none
    | _, _ => none

/-- `list_generations`. -/
def listGenerations (t : Tables) (text : TextSearch) (user : Nat) (f : Filters) (limit : Nat)
    (ids : Bool) (cursor : Option Nat) : Except Refusal (List Job) :=
  match validateCreatedWindow f with
  | some refusal => .error refusal
  | none =>
    let rows := filtered t text user f
    let cap := min (max limit 1) (if ids then 5000 else 200)
    match cursor with
    | none => .ok ((listed f rows).take cap)
    | some id =>
      match t.jobs.find? fun job => job.id = id with
      | none => .error .unknownCursor
      | some anchor =>
        if anchor.userId ≠ user then .error .unknownCursor
        -- the cursor must be a member of the same filtered set
        else if rows.all fun job => job.id ≠ id then .error .unknownCursor
        else .ok ((listed f (rows.filter (behind f.starred anchor))).take cap)

end Potocolom.Listing
