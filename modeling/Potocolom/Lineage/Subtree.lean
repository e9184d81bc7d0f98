import Mathlib

/-! # The subtree of a generation

A job reads one asset of its user and makes others, so the jobs of a user form a graph.
The recursive query of `generation_subtree` walks it from a root job: each round takes
the first pending job, and lets in as many of the job's children as there are slots. -/

namespace Potocolom.Lineage

/-- `LINEAGE_SUBTREE_MAX_DEPTH`. -/
def maxDepth : Nat := 100
/-- `LINEAGE_SUBTREE_MAX_NODES`. -/
def maxNodes : Nat := 600

/-! ## The tables -/

structure Asset where
  id : Nat
  userId : Nat
  jobId : Option Nat
  parentAssetId : Option Nat
  storageKey : List Char
  deriving DecidableEq, Repr

structure Job where
  id : Nat
  userId : Nat
  sourceAssetId : Option Nat
  createdAt : Int
  deriving DecidableEq, Repr

/-- The rows of `jobs` and `assets`, each under its primary key. -/
structure Library where
  jobs : List Job
  assets : List Asset
  jobIds : (jobs.map Job.id).Nodup
  assetIds : (assets.map Asset.id).Nodup

/-- `storage_key LIKE '%-thumb.webp'`. -/
def Asset.IsThumbnail (asset : Asset) : Prop :=
  "-thumb.webp".toList <:+ asset.storageKey

instance (asset : Asset) : Decidable asset.IsThumbnail :=
  inferInstanceAs (Decidable (_ <:+ _))

/-- The order of `created_at, id`. -/
def Job.le (a b : Job) : Prop :=
  a.createdAt < b.createdAt ∨ a.createdAt = b.createdAt ∧ a.id ≤ b.id

instance : DecidableRel Job.le := fun a b => by
  unfold Job.le
  infer_instance

section
variable (lib : Library) (user : Nat)

/-- The user's master assets of a job. -/
def outputs (job : Nat) : List Asset :=
  lib.assets.filter fun a => a.jobId = some job ∧ a.userId = user ∧ ¬ a.IsThumbnail

/-- The jobs of the user made from the master assets of a job: the join of `output` and
`child`. -/
def children (job : Nat) : List Job :=
  (outputs lib user job).flatMap fun output =>
    lib.jobs.filter fun child => child.sourceAssetId = some output.id ∧ child.userId = user

/-- The children that were not seen and have a master asset of their own, in order. -/
def fresh (seen : List Nat) (job : Nat) : List Job :=
  ((children lib user job).filter fun child =>
    child.id ∉ seen ∧ outputs lib user child.id ≠ []).insertionSort Job.le

/-! ## The recursive query -/

/-- A row of `walk`; a job stands with its depth, as the two arrays are kept in step. -/
structure Walk where
  pending : List (Nat × Nat)
  result : List (Nat × Nat)
  truncated : Bool
  hiddenCountLowerBound : Nat
  deriving DecidableEq, Repr

/-- The first row; there is none unless the root is a job of the user with a master. -/
def anchor (root : Nat) : Option Walk :=
  if (∃ job ∈ lib.jobs, job.id = root ∧ job.userId = user) ∧ outputs lib user root ≠ [] then
    some ⟨[(root, 0)], [], false, 0⟩
  else none

/-- `slots.capacity`. -/
def Walk.capacity (walk : Walk) (depth : Nat) : Nat :=
  if depth < maxDepth then maxNodes - walk.result.length - walk.pending.length else 0

/-- The row that follows a row, as long as a job is pending. -/
def Walk.next (walk : Walk) : Option Walk :=
  match walk.pending with
  | [] => none
  | (job, depth) :: rest =>
    let capacity := walk.capacity depth
    let seen := walk.result.map Prod.fst ++ walk.pending.map Prod.fst
    let candidates := ((fresh lib user seen job).take (capacity + 1)).map Job.id
    let accepted := candidates.take capacity
    some
      { pending := rest ++ accepted.map fun child => (child, depth + 1)
        result := walk.result ++ [(job, depth)]
        truncated := walk.truncated || decide (capacity < candidates.length)
        hiddenCountLowerBound :=
          walk.hiddenCountLowerBound + if capacity < candidates.length then 1 else 0 }

/-- The jobs pending and the slots left: each round takes one job off, and a child takes
the slot it is let into. -/
def Walk.remaining (walk : Walk) : Nat :=
  walk.pending.length + (maxNodes - walk.result.length - walk.pending.length)

variable {lib user} in
/-- What a round does. -/
theorem Walk.next_cases {walk after : Walk} (h : walk.next lib user = some after) :
    ∃ job depth rest, walk.pending = (job, depth) :: rest ∧
      let capacity := walk.capacity depth
      let seen := (walk.result ++ walk.pending).map Prod.fst
      let found := (fresh lib user seen job).map Job.id
      after.pending = rest ++ (found.take capacity).map (fun child => (child, depth + 1)) ∧
      after.result = walk.result ++ [(job, depth)] ∧
      after.truncated = (walk.truncated || decide (capacity < found.length)) ∧
      after.hiddenCountLowerBound =
        walk.hiddenCountLowerBound + if capacity < found.length then 1 else 0 := by
  unfold Walk.next at h
  match hpending : walk.pending, h with
  | (job, depth) :: rest, h =>
    refine ⟨job, depth, rest, rfl, ?_⟩
    cases h
    -- one more than the capacity is enough to tell whether a child is left over
    have hover : ∀ found : List Nat,
        walk.capacity depth < (found.take (walk.capacity depth + 1)).length ↔
          walk.capacity depth < found.length := by
      intro found
      rw [List.length_take]
      omega
    rw [List.map_append]
    dsimp only
    simp only [List.map_take, List.take_take, Nat.min_eq_left (Nat.le_succ _), hover,
      and_self]

theorem Walk.remaining_next {walk after : Walk} (h : walk.next lib user = some after) :
    after.remaining < walk.remaining := by
  obtain ⟨job, depth, rest, hpending, hafter, hresult, -, -⟩ := Walk.next_cases h
  have hcapacity : walk.capacity depth ≤
      maxNodes - walk.result.length - walk.pending.length := by
    unfold Walk.capacity
    split
    · exact Nat.le_refl _
    · exact Nat.zero_le _
  unfold Walk.remaining
  rw [hafter, hresult]
  rw [hpending] at hcapacity ⊢
  simp only [List.length_append, List.length_map, List.length_take, List.length_cons,
    List.length_nil] at hcapacity ⊢
  omega

/-- The rows of the query from a row on. -/
def Walk.rows (walk : Walk) : List Walk :=
  match _h : walk.next lib user with
  | none => [walk]
  | some after => walk :: after.rows
termination_by walk.remaining
decreasing_by exact Walk.remaining_next lib user _h

/-- `final_state`: of the rows with no job pending, the one with the most jobs. -/
def finalState (rows : List Walk) : Option Walk :=
  ((rows.filter fun row => row.pending = []).insertionSort
    fun a b => b.result.length ≤ a.result.length).head?

/-! ## The answer -/

/-- What the answer says of a job. -/
structure Node where
  jobId : Nat
  sourceAssetId : Option Nat
  parentJobId : Option Nat
  assetId : Nat
  thumbnailAssetId : Option Nat
  outputAssetIds : List Nat
  hasDerivatives : Bool
  deriving DecidableEq, Repr

structure Answer where
  nodes : List Node
  truncated : Bool
  remainingCountLowerBound : Nat
  deriving DecidableEq, Repr

/-- Assets in the order of their ids. -/
def byId (assets : List Asset) : List Asset :=
  assets.insertionSort fun a b => a.id ≤ b.id

/-- The row of the final join for a job, if its job and its master are there. -/
def node (jobId : Nat) : Option Node := do
  let job ← lib.jobs.find? fun job => job.id = jobId ∧ job.userId = user
  let master ← (byId (outputs lib user job.id)).head?
  let source := job.sourceAssetId.bind fun id =>
    lib.assets.find? fun asset => asset.id = id ∧ asset.userId = user
  let thumbnails := lib.assets.filter fun thumb =>
    thumb.parentAssetId = some master.id ∧ thumb.userId = user ∧ thumb.IsThumbnail
  return {
    jobId := job.id
    sourceAssetId := job.sourceAssetId
    parentJobId := source.bind Asset.jobId
    assetId := master.id
    thumbnailAssetId := (byId thumbnails).head?.map Asset.id
    outputAssetIds := (byId (outputs lib user job.id)).map Asset.id
    hasDerivatives := !(children lib user job.id).isEmpty }

/-- `generation_subtree`; `none` is the 404. -/
def generationSubtree (root : Nat) : Option Answer := do
  let first ← anchor lib user root
  let final ← finalState (first.rows lib user)
  let nodes := (final.result.map Prod.fst).filterMap (node lib user)
  if nodes = [] then none
  else return ⟨nodes, final.truncated, final.hiddenCountLowerBound⟩

end

end Potocolom.Lineage
