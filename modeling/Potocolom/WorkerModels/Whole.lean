import Potocolom.WorkerModels.Reports

/-! # Which reports are applied whole

A report is read whole and then written, or it is refused and writes nothing. Three
things get in the way: an inventory writes the hardware before it reads the catalog, the
state of a download is looked up in a set before it is known to have a hash, and
`models_changed` awaits the database, which refuses in exceptions of its own. -/

namespace Potocolom.WorkerModels

open Guard Protocol Writes
open Manifests (Libraries)

variable {lib : Libraries} {dump : Json → Members} {db : Database} {now : Nat}

/-! ## What it is to be applied whole -/

/-- What a report says, once all of it is read. -/
inductive Update where
  | inventory (hardware : Option Hardware) (catalog : List CatalogRow)
  | status (downloads : Downloads) (free : Nat)
  | models (models : List Model) (catalog : List CatalogRow)

/-- Every field the report carries is updated, and no other. -/
def Update.on (worker : Worker) : Update → Worker
  | .inventory hardware catalog => { worker with hardware := hardware, catalog := some catalog }
  | .status downloads free =>
    { worker with storeDownloads := downloads, diskFreeBytes := some free }
  | .models live catalog => { worker with manifests := live, catalog := some catalog }

def readReport (lib : Libraries) (dump : Json → Members) : Report → Except Raised Update
  | .storeInventory control => do
    let hardware ← parseHardware (field control "hardware")
    let catalog ← parseCatalog lib dump (field control "catalog")
    return .inventory hardware catalog
  | .storeStatus control => do
    let downloads ← parseDownloads (field control "downloads")
    let free ← demand (count? (field control "disk_free_bytes"))
      (Raised.valueError "disk_free_bytes must be a count")
    return .status downloads free
  | .modelsChanged control => do
    let models ← parseModels lib dump (field control "models")
    let catalog ← parseCatalog lib dump (field control "catalog")
    return .models models catalog

/-- What the report says is on the worker afterwards. -/
def Written (lib : Libraries) (dump : Json → Members) (before : Worker) (report : Report)
    (after : Worker) : Prop :=
  ∃ update, readReport lib dump report = .ok update ∧ after = update.on before

/-- `apply` returns with the report on the worker, or raises what `fleet` handles and
leaves the worker as it was. -/
def AppliedWhole (lib : Libraries) (dump : Json → Members) (db : Database) (now : Nat)
    (c : Connection) (report : Report) : Prop :=
  Whole Raised.Handled Connection.worker (Written lib dump c.worker report) c.worker
    (apply lib dump db now report) c

/-! ## What the parsers raise -/

@[simp] theorem handled_valueError (message : String) :
    (Raised.valueError message).Handled := trivial

@[simp] theorem handled_protocolError (message : String) :
    (Raised.protocolError message).Handled := trivial

/-- `x` raises what `fleet` handles, or nothing. -/
abbrev Handles {α : Type} (x : Except Raised α) : Prop := RaisesOnly Raised.Handled x

theorem handles_demand {α : Type} {x : Option α} {message : String} :
    Handles (demand x (.valueError message)) :=
  raisesOnly_demand.2 fun _ => trivial

theorem handles_parseHardware (raw : Json) : Handles (parseHardware raw) := by
  unfold parseHardware
  split
  case h_1 => exact raisesOnly_ok none
  case h_2 =>
    simp only [raisesOnly_bind, raisesOnly_pure, implies_true, and_true, handles_demand]
  case h_3 => exact raisesOnly_error.2 trivial

theorem handles_parseModels (raw : Json) : Handles (parseModels lib dump raw) := by
  unfold parseModels
  split
  case h_1 => exact raisesOnly_ok _
  case h_2 => exact raisesOnly_ok _
  case h_3 => exact raisesOnly_error.2 trivial

theorem handles_parseCatalogEntry (entry : Json) :
    Handles (parseCatalogEntry lib dump entry) := by
  unfold parseCatalogEntry
  split
  case h_1 =>
    simp only [raisesOnly_bind, raisesOnly_pure, implies_true, and_true, handles_demand,
      handles_parseModels]
  case h_2 => exact raisesOnly_error.2 trivial

theorem handles_mapM {α β : Type} {f : α → Except Raised β} (h : ∀ a, Handles (f a))
    (xs : List α) : Handles (xs.mapM f) := by
  induction xs with
  | nil => exact raisesOnly_pure _
  | cons x xs ih =>
    rw [List.mapM_cons]
    simp only [raisesOnly_bind, raisesOnly_pure, implies_true, and_true]
    exact ⟨h x, fun _ _ => ih⟩

theorem handles_parseCatalog (raw : Json) : Handles (parseCatalog lib dump raw) := by
  unfold parseCatalog
  split
  case h_1 entries => exact handles_mapM handles_parseCatalogEntry entries
  case h_2 => exact raisesOnly_error.2 trivial

/-- A download whose state is a list or an object, under a model id that is a text. -/
def Unhashable (entry : Json) : Prop :=
  ∃ members, entry = .obj members ∧ (str? (field members "model_id")).isSome ∧
    downloadState (field members "state") = .error .typeError

theorem downloadState_raises {state : Json} {why : Raised}
    (h : downloadState state = .error why) : why = .typeError := by
  unfold downloadState at h
  split at h <;> cases h <;> rfl

theorem handles_parseDownload {entry : Json} :
    Handles (parseDownload entry) ↔ ¬ Unhashable entry := by
  unfold parseDownload
  split
  case h_1 members =>
    simp only [raisesOnly_bind, raisesOnly_pure, implies_true, and_true, handles_demand,
      true_and, demand_eq_ok]
    constructor
    · rintro h ⟨_, heq, hmodel, hstate⟩
      cases heq
      obtain ⟨model, hmodel⟩ := Option.isSome_iff_exists.1 hmodel
      exact h model hmodel .typeError hstate
    · intro h model hmodel why hwhy
      refine absurd ⟨members, rfl, ?_, ?_⟩ h
      · rw [hmodel]
        rfl
      · rw [hwhy, downloadState_raises hwhy]
  case h_2 hobj =>
    constructor
    · rintro - ⟨members, rfl, -⟩
      exact hobj members rfl
    · intro _
      exact raisesOnly_error.2 trivial

/-- The first entry that is refused decides what the loop raises. -/
theorem handles_parseDownloadEntries {entries : List Json} {result : Downloads} :
    Handles (parseDownloadEntries entries result) ↔
      ∀ before entry after, entries = before ++ entry :: after →
        (∀ e ∈ before, ∃ d, parseDownload e = .ok d) → ¬ Unhashable entry := by
  induction entries generalizing result with
  | nil =>
    refine iff_of_true (raisesOnly_ok _) ?_
    intro before entry after h
    simp at h
  | cons first rest ih =>
    rw [parseDownloadEntries, Handles, raisesOnly_bind]
    refine (and_congr_left' handles_parseDownload).trans ?_
    constructor
    · rintro ⟨hfirst, hrest⟩ before entry after heq hbefore
      cases before with
      | nil =>
        obtain ⟨rfl, -⟩ := List.cons.inj heq
        exact hfirst
      | cons e before =>
        obtain ⟨rfl, hrest'⟩ := List.cons.inj heq
        obtain ⟨d, hd⟩ := hbefore first List.mem_cons_self
        refine ih.1 (hrest d hd) before entry after hrest' ?_
        exact fun e he => hbefore e (List.mem_cons_of_mem _ he)
    · intro h
      refine ⟨h [] first rest rfl (by simp), ?_⟩
      intro d hd
      refine ih.2 fun before entry after heq hbefore => ?_
      refine h (first :: before) entry after (by rw [heq, List.cons_append]) ?_
      intro e he
      rcases List.mem_cons.1 he with rfl | he
      · exact ⟨d, hd⟩
      · exact hbefore e he

/-! ## When a report is applied whole -/

/-- The statements of `update_worker_models` go through. -/
def Database.TakesUpdate (db : Database) : Prop :=
  db.sessionFactory = true ∧ db.lease ≠ none ∧ db.connection = db.lease ∧ db.updateFails = false

/-- The rows of `persist_manifests` are taken, or there are none to take. -/
def Database.TakesRows (db : Database) (models : List Model) : Prop :=
  db.sessionFactory = false ∨ models = [] ∨
    (models.map fun model => model.manifest.id).Nodup ∧ db.upsertFails = false

/-- An inventory whose hardware is new has a good catalog; no download is refused for its
state first when that is a list or an object; and the database takes new models. -/
def Sound (lib : Libraries) (dump : Json → Members) (db : Database) (worker : Worker) :
    Report → Prop
  | .storeInventory control => ∀ hardware, (orNone str? (field control "op_id")).isSome →
      parseHardware (field control "hardware") = .ok hardware → hardware ≠ worker.hardware →
      ∃ catalog, parseCatalog lib dump (field control "catalog") = .ok catalog
  | .storeStatus control => ∀ before entry after,
      field control "downloads" = .arr (before ++ entry :: after) →
      (∀ e ∈ before, ∃ d, parseDownload e = .ok d) → ¬ Unhashable entry
  | .modelsChanged control => ∀ models catalog,
      readModels lib dump worker control = .ok (models, catalog) →
      (worker.protocolVersion = 6 → db.TakesUpdate) ∧ db.TakesRows models

@[simp] theorem noteOperation_worker (opId : Option Text) (c : Connection) :
    (noteOperation now opId c).worker = c.worker := by
  unfold noteOperation observeTime
  split
  · split <;> rfl
  · rfl

theorem inventory_whole_iff (c : Connection) (control : Members) :
    AppliedWhole lib dump db now c (.storeInventory control) ↔
      Sound lib dump db c.worker (.storeInventory control) := by
  unfold AppliedWhole apply applyInventory
  simp only [whole_check_bind, whole_write_bind, whole_write, noteOperation_worker]
  constructor
  · rintro ⟨h, -⟩ hardware hop hhardware hnew
    obtain ⟨opId, hop⟩ := Option.isSome_iff_exists.1 hop
    obtain ⟨hcatalog, -⟩ := h opId (demand_eq_ok.2 hop)
    obtain ⟨-, hrefused⟩ := hcatalog hardware hhardware
    cases hparse : parseCatalog lib dump (field control "catalog") with
    | ok catalog => exact ⟨catalog, rfl⟩
    | error why =>
      -- the hardware was written by then
      obtain ⟨-, hsame⟩ := hrefused why hparse
      exact absurd (congrArg Worker.hardware hsame) hnew
  · intro h
    refine ⟨?_, fun why hwhy => ⟨handles_demand why hwhy, trivial⟩⟩
    intro opId hop
    refine ⟨?_, fun why hwhy => ⟨handles_parseHardware _ why hwhy, trivial⟩⟩
    intro hardware hhardware
    constructor
    · intro catalog hcatalog
      refine ⟨.inventory hardware catalog, ?_, rfl⟩
      simp only [readReport, hhardware, hcatalog]
      rfl
    · intro why hwhy
      refine ⟨handles_parseCatalog _ why hwhy, ?_⟩
      by_contra hne
      have hnew : hardware ≠ c.worker.hardware := by
        rintro rfl
        exact hne rfl
      obtain ⟨catalog, hcatalog⟩ :=
        h hardware (by rw [demand_eq_ok.1 hop]; rfl) hhardware hnew
      rw [hcatalog] at hwhy
      cases hwhy

theorem handles_parseDownloads (raw : Json) :
    Handles (parseDownloads raw) ↔ ∀ before entry after,
      raw = .arr (before ++ entry :: after) →
      (∀ e ∈ before, ∃ d, parseDownload e = .ok d) → ¬ Unhashable entry := by
  cases raw with
  | arr entries =>
    simp only [Json.arr.injEq]
    exact handles_parseDownloadEntries
  | _ =>
    refine iff_of_true (raisesOnly_error.2 trivial) ?_
    intro before entry after h
    cases h

theorem status_whole_iff (c : Connection) (control : Members) :
    AppliedWhole lib dump db now c (.storeStatus control) ↔
      Sound lib dump db c.worker (.storeStatus control) := by
  refine Iff.trans ?_ (handles_parseDownloads (field control "downloads"))
  unfold AppliedWhole apply applyStatus
  simp only [whole_check_bind, whole_write_bind, whole_write]
  constructor
  · rintro ⟨-, h⟩ why hwhy
    exact (h why hwhy).1
  · intro h
    refine ⟨?_, fun why hwhy => ⟨h why hwhy, trivial⟩⟩
    intro downloads hdownloads
    refine ⟨?_, fun why hwhy => ⟨handles_demand why hwhy, trivial⟩⟩
    intro free hfree
    refine ⟨.status downloads free, ?_, rfl⟩
    simp only [readReport, hdownloads, hfree]
    rfl

/-! ## New models -/

theorem handles_readModels (worker : Worker) (control : Members) :
    Handles (readModels lib dump worker control) := by
  unfold readModels
  simp only [raisesOnly_bind, raisesOnly_pure, implies_true, and_true, handles_parseModels,
    handles_parseCatalog, raisesOnly_require, handled_protocolError]

/-- What `models_changed` reads is what the report says. -/
theorem readReport_of_readModels {worker : Worker} {control : Members} {models : List Model}
    {catalog : List CatalogRow}
    (h : readModels lib dump worker control = .ok (models, catalog)) :
    readReport lib dump (.modelsChanged control) = .ok (.models models catalog) := by
  unfold readModels at h
  simp only [bind_eq_ok, require_eq_ok, pure_eq_ok, Prod.mk.injEq] at h
  obtain ⟨_, hmodels, _, -, _, hcatalog, _, -, rfl, rfl⟩ := h
  simp only [readReport, hmodels, hcatalog]
  rfl

theorem updateWorkerModels_eq_ok : updateWorkerModels db = .ok () ↔ db.TakesUpdate := by
  unfold updateWorkerModels Database.TakesUpdate
  simp only [bind_eq_ok, require_eq_ok, exists_const, and_assoc]

theorem persistManifests_eq_ok {models : List Model} :
    persistManifests db models = .ok () ↔ db.TakesRows models := by
  unfold persistManifests Database.TakesRows
  split
  case isTrue h =>
    refine iff_of_true rfl ?_
    exact h.imp_right .inl
  case isFalse h =>
    rw [not_or] at h
    rw [require_eq_ok]
    constructor
    · intro htaken
      exact .inr (.inr htaken)
    · rintro (hno | hempty | htaken)
      · exact absurd hno h.1
      · exact absurd hempty h.2
      · exact htaken

/-- Neither await raises what `fleet` handles. -/
theorem updateWorkerModels_refuses :
    RaisesOnly (fun why => ¬ why.Handled) (updateWorkerModels db) := by
  unfold updateWorkerModels
  simp only [raisesOnly_bind]
  refine ⟨raisesOnly_require id, fun _ _ => ⟨raisesOnly_require id, fun _ _ => ?_⟩⟩
  exact raisesOnly_require id

theorem persistManifests_refuses {models : List Model} :
    RaisesOnly (fun why => ¬ why.Handled) (persistManifests db models) := by
  unfold persistManifests
  split
  · exact raisesOnly_ok ()
  · exact raisesOnly_require id

/-- What raises nothing that is handled is all right only if it returns. -/
theorem eq_ok_of_refuses {x : Except Raised Unit} (hx : RaisesOnly (fun why => ¬ why.Handled) x)
    (h : Handles x) : x = .ok () := by
  cases x with
  | ok => rfl
  | error why => exact absurd (h why rfl) (hx why rfl)

theorem models_whole_iff (c : Connection) (control : Members) :
    AppliedWhole lib dump db now c (.modelsChanged control) ↔
      Sound lib dump db c.worker (.modelsChanged control) := by
  unfold AppliedWhole apply applyModels
  simp only [whole_read_bind, whole_check_bind, whole_write_bind, whole_check]
  constructor
  · rintro ⟨h, -⟩ models catalog hread
    obtain ⟨hpersist, hupdate⟩ := h (models, catalog) hread
    have htaken : (if c.worker.protocolVersion = 6 then updateWorkerModels db else .ok ()) =
        .ok () := by
      split at hupdate
      · next hsix =>
        rw [if_pos hsix]
        exact eq_ok_of_refuses updateWorkerModels_refuses fun why hwhy => (hupdate why hwhy).1
      · next hsix => rw [if_neg hsix]
    constructor
    · intro hsix
      rw [if_pos hsix] at htaken
      exact updateWorkerModels_eq_ok.1 htaken
    · obtain ⟨-, hrefused⟩ := hpersist ⟨⟩ htaken
      refine persistManifests_eq_ok.1 (eq_ok_of_refuses persistManifests_refuses ?_)
      exact fun why hwhy => (hrefused why hwhy).1
  · intro h
    refine ⟨?_, fun why hwhy => ⟨handles_readModels _ _ why hwhy, trivial⟩⟩
    rintro ⟨models, catalog⟩ hread
    obtain ⟨hupdate, hrows⟩ := h models catalog hread
    constructor
    · rintro ⟨⟩ -
      constructor
      · rintro ⟨⟩ -
        exact ⟨.models models catalog, readReport_of_readModels hread, rfl⟩
      · intro why hwhy
        rw [persistManifests_eq_ok.2 hrows] at hwhy
        cases hwhy
    · intro why hwhy
      split at hwhy
      · next hsix =>
        rw [updateWorkerModels_eq_ok.2 (hupdate hsix)] at hwhy
        cases hwhy
      · cases hwhy

/-- A store report is applied whole exactly when it is sound. -/
theorem report_whole_iff (lib : Libraries) (dump : Json → Members) (db : Database) (now : Nat)
    (c : Connection) (report : Report) :
    AppliedWhole lib dump db now c report ↔ Sound lib dump db c.worker report := by
  cases report with
  | storeInventory control => exact inventory_whole_iff c control
  | storeStatus control => exact status_whole_iff c control
  | modelsChanged control => exact models_whole_iff c control

/-! ## Two reports that are not -/

def sampleLibraries : Libraries where
  modelValidate _ := .error "1 validation error for Manifest"
  checkSchema _ := true
  Resolver := Unit
  resolverWithRoot _ := ()
  lookup _ _ := none
  inSubresource r _ := r
  repr _ := "''"

def sampleDatabase : Database where
  sessionFactory := true
  lease := some (1, 1)
  connection := some (1, 1)
  updateFails := false
  upsertFails := false

def sampleConnection : Connection where
  worker :=
    { protocolVersion := 5
      incarnation := none
      hardware := none
      catalog := none
      diskFreeBytes := none
      storeDownloads := ∅
      manifests := [] }
  lastOpTime := 0

/-- An inventory with hardware, and no catalog. -/
def sampleInventory : Members :=
  [(.scalars "type", .str (.scalars "store_inventory")),
    (.scalars "op_id", .null),
    (.scalars "hardware", .obj
      [(.scalars "gpu_name", .str (.scalars "Card")),
        (.scalars "vram_total_bytes", .null),
        (.scalars "disk_total_bytes", .int 10),
        (.scalars "disk_free_bytes", .int 5)])]

/-- A download whose state is a list. -/
def sampleStatus : Members :=
  [(.scalars "type", .str (.scalars "store_status")),
    (.scalars "downloads", .arr
      [.obj [(.scalars "model_id", .str (.scalars "m")), (.scalars "state", .arr [])]]),
    (.scalars "disk_free_bytes", .int 5)]

/-- The inventory leaves its hardware behind, and the status raises `TypeError`. -/
theorem reports_half_applied :
    ¬ AppliedWhole sampleLibraries (fun _ => []) sampleDatabase 0 sampleConnection
        (.storeInventory sampleInventory) ∧
      ¬ AppliedWhole sampleLibraries (fun _ => []) sampleDatabase 0 sampleConnection
        (.storeStatus sampleStatus) := by
  rw [inventory_whole_iff, status_whole_iff]
  constructor
  · intro h
    obtain ⟨catalog, hcatalog⟩ :=
      h (some ⟨.scalars "Card", none, 10, 5⟩) rfl rfl (by simp [sampleConnection])
    cases hcatalog
  · intro h
    exact h [] _ [] rfl (by simp) ⟨_, rfl, rfl, rfl⟩

end Potocolom.WorkerModels
