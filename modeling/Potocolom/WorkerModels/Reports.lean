import Potocolom.Lib.Writes
import Potocolom.Manifests.Schema

/-! # What a worker reports of its model store

A worker with the `model_store` capability reports its hardware and catalog, its
downloads, and its live models. `apply` reads a report field by field and assigns to the
connection's `Worker` as it goes. -/

namespace Potocolom.WorkerModels

open Guard Protocol Writes
open Manifests (Libraries Manifest parseManifests)

/-! ## What a report carries -/

/-- What a report may raise: `kind` for each exception class. -/
inductive Raised where
  | valueError (message : String)
  | protocolError (message : String)
  | typeError
  | authorityUnavailable (message : String)
  /-- What the database driver raises. -/
  | database
  deriving DecidableEq, Repr

/-- `fleet` closes the connection on `(ProtocolError, KeyError, ValueError)`. -/
def Raised.Handled : Raised → Prop
  | .valueError _ => True
  | .protocolError _ => True
  | .typeError => False
  | .authorityUnavailable _ => False
  | .database => False

structure Hardware where
  gpuName : Text
  vramTotalBytes : Option Nat
  diskTotalBytes : Nat
  diskFreeBytes : Nat
  deriving DecidableEq

/-- A `Manifest`: what `parse_manifests` reads of it, and its `model_dump(mode="json")`. -/
structure Model where
  manifest : Manifest
  dump : Members

/-- A catalog row: the dump of a manifest and the `CATALOG_FLAGS`. -/
structure CatalogRow where
  dump : Members
  installed : Bool
  needsToken : Bool
  downloadBytes : Option Nat

/-- `DOWNLOAD_STATES`. -/
inductive DownloadState where
  | queued
  | downloading
  | done
  | failed
  deriving DecidableEq, Repr

inductive DownloadKind where
  | install
  | remove
  | cancel
  deriving DecidableEq, Repr

structure Download where
  modelId : Text
  state : DownloadState
  kind : DownloadKind
  bytesDone : Nat
  bytesTotal : Nat
  error : Option Text
  opId : Option Text
  deriving DecidableEq

/-- `dict[str, dict]`, keyed by model. -/
abbrev Downloads := AList fun _ : Text => Download

/-- The fields of a `Worker` that a report reads or writes. -/
structure Worker where
  protocolVersion : Nat
  incarnation : Option Nat
  hardware : Option Hardware
  catalog : Option (List CatalogRow)
  diskFreeBytes : Option Nat
  storeDownloads : Downloads
  manifests : List Model

/-- The worker, and its entry of `_last_op_time`. -/
structure Connection where
  worker : Worker
  lastOpTime : Nat

/-! ## Reading the fields -/

/-- `raw.get(name)`, where an absent field is `None`. -/
def field (members : Members) (name : String) : Json := (get? members name).getD .null

def str? : Json → Option Text
  | .str text => some text
  | _ => none

def bool? : Json → Option Bool
  | .bool b => some b
  | _ => none

/-- `_count`. -/
def count? : Json → Option Nat
  | .int n => if 0 ≤ n then some n.toNat else none
  | _ => none

/-- `None`, or what `read` takes. -/
def orNone {α : Type} (read : Json → Option α) : Json → Option (Option α)
  | .null => some none
  | value => (read value).map some

/-- The code points of a `str`. -/
def points : Text → List Nat
  | .scalars s => s.toList.map Char.toNat
  | .surrogates points _ => points

/-- `parse_hardware`. -/
def parseHardware : Json → Except Raised (Option Hardware)
  | .null => .ok none
  | .obj raw => do
    let wrong := Raised.valueError "hardware fields have wrong types"
    let gpuName ← demand (str? (field raw "gpu_name")) wrong
    let vramTotalBytes ← demand (orNone count? (field raw "vram_total_bytes")) wrong
    let diskTotalBytes ← demand (count? (field raw "disk_total_bytes")) wrong
    let diskFreeBytes ← demand (count? (field raw "disk_free_bytes")) wrong
    return some { gpuName, vramTotalBytes, diskTotalBytes, diskFreeBytes }
  | _ => .error (.valueError "hardware must be an object")

/-- `CATALOG_FLAGS`. -/
def catalogFlags : List String := ["installed", "needs_token", "download_bytes"]

/-- `state in DOWNLOAD_STATES`; a list or an object has no hash. -/
def downloadState : Json → Except Raised (Option DownloadState)
  | .str (.scalars "queued") => .ok (some .queued)
  | .str (.scalars "downloading") => .ok (some .downloading)
  | .str (.scalars "done") => .ok (some .done)
  | .str (.scalars "failed") => .ok (some .failed)
  | .arr _ => .error .typeError
  | .obj _ => .error .typeError
  | _ => .ok none

def downloadKind : Json → Option DownloadKind
  | .str (.scalars "install") => some .install
  | .str (.scalars "remove") => some .remove
  | .str (.scalars "cancel") => some .cancel
  | _ => none

/-- A text of at most 64 code points. -/
def shortText (value : Json) : Option Text :=
  (str? value).filter fun text => (points text).length ≤ 64

/-- An entry of `parse_downloads`; the checks run in the order of the source. -/
def parseDownload : Json → Except Raised Download
  | .obj entry => do
    let wrong := Raised.valueError "download entry has wrong types"
    let modelId ← demand (str? (field entry "model_id")) wrong
    let found ← downloadState (field entry "state")
    let state ← demand found wrong
    let kind ← demand (downloadKind (field entry "kind")) wrong
    let bytesDone ← demand (count? (field entry "bytes_done")) wrong
    let bytesTotal ← demand (count? (field entry "bytes_total")) wrong
    let error ← demand (orNone shortText (field entry "error")) wrong
    let opId ← demand (orNone str? (field entry "op_id")) wrong
    return { modelId, state, kind, bytesDone, bytesTotal, error, opId }
  | _ => .error (.valueError "download entry must be an object")

/-- The loop of `parse_downloads`. -/
def parseDownloadEntries : List Json → Downloads → Except Raised Downloads
  | [], result => .ok result
  | entry :: rest, result => do
    let download ← parseDownload entry
    parseDownloadEntries rest (result.insert download.modelId download)

/-- `parse_downloads`. -/
def parseDownloads : Json → Except Raised Downloads
  | .arr entries => parseDownloadEntries entries ∅
  | _ => .error (.valueError "downloads must be a list")

mutual

/-- `_schema_carries_ref`: a `$ref` key at any depth. -/
def schemaCarriesRef : Json → Bool
  | .obj members => has members "$ref" || membersCarryRef members
  | .arr items => itemsCarryRef items
  | _ => false

def membersCarryRef : Members → Bool
  | [] => false
  | (_, value) :: rest => schemaCarriesRef value || membersCarryRef rest

def itemsCarryRef : List Json → Bool
  | [] => false
  | item :: rest => schemaCarriesRef item || itemsCarryRef rest

end

/-- The nanoseconds an operation id begins with: twenty ASCII digits and a dash. -/
def operationTime (opId : Text) : Option Nat :=
  let stamp := (points opId).take 20
  if 21 ≤ (points opId).length ∧ stamp.all (fun p => 48 ≤ p ∧ p ≤ 57) ∧
      (points opId)[20]? = some '-'.toNat then
    some (stamp.foldl (fun n p => 10 * n + (p - 48)) 0)
  else none

section
variable (lib : Libraries) (dump : Json → Members)

/-- `parse_manifests`; `dump` is `model_dump` of the manifest that is built from an entry. -/
def parseModels (raw : Json) : Except Raised (List Model) :=
  match parseManifests lib raw, raw with
  | .ok manifests, .arr entries =>
    .ok (List.zipWith (fun manifest entry => ⟨manifest, dump entry⟩) manifests entries)
  | .ok _, _ => .ok []
  | .error message, _ => .error (.valueError message)

/-- An entry of `parse_catalog`. -/
def parseCatalogEntry : Json → Except Raised CatalogRow
  | .obj entry => do
    let wrong := Raised.valueError "catalog flags have wrong types"
    let installed ← demand (bool? (field entry "installed")) wrong
    let needsToken ← demand (bool? (field entry "needs_token")) wrong
    let downloadBytes ← demand (orNone count? (field entry "download_bytes")) wrong
    let fields := Json.obj (entry.filter fun member => !member.1.isIn catalogFlags)
    let _ ← parseModels lib dump (.arr [fields])
    return { dump := dump fields, installed, needsToken, downloadBytes }
  | _ => .error (.valueError "catalog entry must be an object")

/-- `parse_catalog`. -/
def parseCatalog : Json → Except Raised (List CatalogRow)
  | .arr entries => entries.mapM (parseCatalogEntry lib dump)
  | _ => .error (.valueError "catalog must be a list")

end

/-! ## The database -/

/-- What the two awaits of a report find. -/
structure Database where
  /-- `db.session_factory is not None` -/
  sessionFactory : Bool
  /-- `owner_epoch` and `lease_id` of the region's lease, and of the worker's connection. -/
  lease : Option (Nat × Nat)
  connection : Option (Nat × Nat)
  /-- A statement of `update_worker_models` fails, or its commit. -/
  updateFails : Bool
  /-- A statement of `persist_manifests` fails for another reason than its rows. -/
  upsertFails : Bool

/-- `update_worker_models`. -/
def updateWorkerModels (db : Database) : Except Raised Unit := do
  require (db.sessionFactory = true) (.authorityUnavailable "durable authority unavailable")
  require (db.lease ≠ none ∧ db.connection = db.lease)
    (.authorityUnavailable "worker authority is no longer current")
  require (db.updateFails = false) .database

/-- `persist_manifests`; an upsert of two rows with one key is refused. -/
def persistManifests (db : Database) (models : List Model) : Except Raised Unit :=
  if db.sessionFactory = false ∨ models = [] then .ok ()
  else require ((models.map fun model => model.manifest.id).Nodup ∧ db.upsertFails = false)
    .database

/-! ## Applying a report -/

/-- `_observe_time`. -/
def observeTime (now reported : Nat) (c : Connection) : Connection :=
  if reported > now + 60000000000 then c
  else { c with lastOpTime := max c.lastOpTime reported }

/-- The operation id of an inventory is taken note of. -/
def noteOperation (now : Nat) (opId : Option Text) (c : Connection) : Connection :=
  match opId.bind operationTime with
  | some reported => observeTime now reported c
  | none => c

section
variable (lib : Libraries) (dump : Json → Members) (db : Database) (now : Nat)

/-- The branch of `store_inventory`. -/
def applyInventory (control : Members) : EStateM Raised Connection PUnit := do
  let opId ← check (demand (orNone str? (field control "op_id"))
    (Raised.valueError "op_id must be a string or null"))
  write (noteOperation now opId)
  let hardware ← check (parseHardware (field control "hardware"))
  write fun c => { c with worker.hardware := hardware }
  let catalog ← check (parseCatalog lib dump (field control "catalog"))
  write fun c => { c with worker.catalog := some catalog }

/-- The branch of `store_status`. -/
def applyStatus (control : Members) : EStateM Raised Connection PUnit := do
  let downloads ← check (parseDownloads (field control "downloads"))
  let free ← check (demand (count? (field control "disk_free_bytes"))
    (Raised.valueError "disk_free_bytes must be a count"))
  write fun c => { c with worker.storeDownloads := downloads }
  write fun c => { c with worker.diskFreeBytes := some free }

/-- The parts of `models_changed` that are read before anything is awaited. -/
def readModels (worker : Worker) (control : Members) :
    Except Raised (List Model × List CatalogRow) := do
  let models ← parseModels lib dump (field control "models")
  require (¬ (worker.protocolVersion = 6 ∧
      models.any (fun model => schemaCarriesRef (.obj model.manifest.parameters)) = true))
    (.protocolError "parameter schema must not use $ref")
  let catalog ← parseCatalog lib dump (field control "catalog")
  require (worker.protocolVersion = 6 → worker.incarnation ≠ none)
    (.protocolError "worker incarnation is missing")
  return (models, catalog)

/-- The branch of `models_changed`. -/
def applyModels (control : Members) : EStateM Raised Connection PUnit := do
  let c ← read
  let (models, catalog) ← check (readModels lib dump c.worker control)
  check (if c.worker.protocolVersion = 6 then updateWorkerModels db else .ok ())
  write fun c => { c with worker.catalog := some catalog }
  write fun c => { c with worker.manifests := models }
  check (persistManifests db models)

/-- The three reports, by `control["type"]`. -/
inductive Report where
  | storeInventory (control : Members)
  | storeStatus (control : Members)
  | modelsChanged (control : Members)

/-- `apply`. -/
def apply : Report → EStateM Raised Connection PUnit
  | .storeInventory control => applyInventory lib dump now control
  | .storeStatus control => applyStatus control
  | .modelsChanged control => applyModels lib dump db control

end

end Potocolom.WorkerModels
