import Potocolom.Protocol.Fields

/-! # The control parser

`decode_control` turns a frame into a message and `validate_message` holds the
message to the catalogue: its fields, their types, the peer it names, the digest
it carries, and what its kind asks for beyond that. `parse_control` is what the
connection handlers call; they close the connection on a `ProtocolError` and on
nothing else. -/

namespace Potocolom.Protocol

open Guard

/-! ## Decoding -/

/-- What a peer sends. -/
inductive Raw where
  | bytes (data : ByteArray)
  | text (text : Text)

def maxHelloBytes : Nat := 2 * 1024 * 1024
def maxParameterControlBytes : Nat := 1024 * 1024
def maxWorkerControlBytes : Nat := 16 * 1024

/-- `control.get(name)`, where a missing field reads as `None`. -/
def value (members : Members) (name : String) : Json := (get? members name).getD .null

/-- `message_limit`. -/
def messageLimit (members : Members) : Except Raised Nat := do
  let kind := value members "type"
  let large ← kind.inSet ["hello", "models_changed", "store_inventory"]
  let medium ← kind.inSet ["open_session", "update_session", "dispatch_job", "resume_job",
    "prepare_realtime_class"]
  pure (if large then maxHelloBytes
    else if medium then maxParameterControlBytes
    else maxWorkerControlBytes)

/-- The text of a frame and its length in bytes. -/
def decodeText : Raw → Except Raised (String × Nat)
  | .bytes data => do
    let text ← demand (String.fromUTF8? data) (.protocol6 "invalid UTF-8")
    pure (text, data.size)
  | .text (.scalars s) => pure (s, s.utf8ByteSize)
  | .text (.surrogates _ _) => throw (.protocol6 "invalid Unicode")

/-- What `json.loads` raises by itself is malformed JSON; what its hooks raise
passes through. -/
def malformed {α : Type} (x : Except Raised α) : Except Raised α :=
  match x with
  | .error .valueError => throw (.protocol6 "malformed JSON")
  | .error .recursionError => throw (.protocol6 "malformed JSON")
  | x => x

/-- `decode_control` up to the limit for the kind of message. -/
def readControl (platform : Platform) (raw : Raw) : Except Raised (Members × Nat) := do
  let (text, size) ← decodeText raw
  require (size ≠ 0 ∧ size ≤ maxHelloBytes) (.protocol6 "control size is invalid")
  match ← malformed (loads platform text) with
  | .obj members =>
    checkJson 0 (.obj members)
    pure (members, size)
  | _ => throw (.protocol6 "control must be an object")

def decodeControl (platform : Platform) (raw : Raw) : Except Raised Members := do
  let (members, size) ← readControl platform raw
  let limit ← messageLimit members
  require (size ≤ limit) (.protocol6 "control exceeds its byte limit")
  pure members

/-! ## The checks every message goes through -/

/-- `value == text`. -/
def Json.equals (value : Json) (text : String) : Bool := value.strWith fun s => s = text

def without (field : String) (members : Members) : Members :=
  members.filter fun member => member.1 ≠ .scalars field

/-- `_digest`: a field holds the hash of the canonical bytes of the others. -/
def checkDigest (platform : Platform) (members : Members) (field : String) :
    Except Raised Unit := do
  let hash ← canonicalHash platform (.obj (without field members))
  require ((value members field).equals hash)
    (.protocol6 (field ++ " does not match canonical source bytes"))

def bodyHashKinds : List String :=
  ["open_session", "update_session", "close_session", "dispatch_job", "cancel_job", "pause_job",
   "resume_job", "drain_worker", "load_model", "unload_model"]

def reportHashKinds : List String :=
  ["checkpoint", "session_closed", "job_done", "job_failed", "job_cancelled", "job_paused"]

/-- Some row of the kind fits the fields. -/
def checkShape (kind : Text) (members : Members) : Except Raised Unit :=
  require ((shapes kind).any fun row => row.fits (keys members))
    (.protocol6 "control fields do not match a closed message shape")

/-- One entry of a `store_status`. -/
def checkDownload : Json → Except Raised Unit
  | .obj entry => do
    require ((value entry "kind").strWith ["install", "remove", "cancel"].contains)
      (.protocol6 "download kind is invalid")
    match get? entry "op_id" with
    | some opId => validateTypes (.scalars "op_id") opId
    | none => pure ()
  | _ => throw (.protocol6 "download kind is invalid")

def checkDownloads (members : Members) : Except Raised Unit :=
  match value members "downloads" with
  | .arr entries => entries.forM checkDownload
  | _ => pure ()

/-- The message names the worker and the incarnation of its connection, where
these are known. A hello introduces its incarnation. -/
def checkPeer (kind : Text) (members : Members) (worker : Option String)
    (incarnation : Option Uuid) : Except Raised Unit := do
  require (∀ id ∈ worker, (value members "worker_id").equals id)
    (.protocol6 "control targets a different worker")
  require (∀ id ∈ incarnation, kind.isIn ["hello"] = false →
      (value members "incarnation").equals id.text)
    (.protocol6 "control incarnation does not match connection")

/-- Everything `validate_message` checks before it turns to the single kinds. -/
def checkEnvelope (platform : Platform) (kind : Text) (members : Members)
    (worker : Option String) (incarnation : Option Uuid) : Except Raised Unit := do
  checkJson 0 (.obj members)
  checkShape kind members
  validateTypes (.scalars "") (.obj members)
  onlyIf (kind.isIn ["store_status"]) (checkDownloads members)
  checkPeer kind members worker incarnation
  onlyIf (kind.isIn bodyHashKinds) (checkDigest platform members "body_hash")
  onlyIf (kind.isIn reportHashKinds) (checkDigest platform members "report_hash")

/-! ## Acknowledgements -/

def checkCommandAck (members : Members) : Except Raised Unit := do
  let status := value members "status"
  let code := value members "code"
  let expected := value members "expected_sequence"
  let known ← status.inSet ["accepted", "refused"]
  require known (.protocol6 "command ACK status is invalid")
  require (¬ ((status.equals "accepted" ∧ (code.isNull = false ∨ expected.isNull = false)) ∨
      (status.equals "refused" ∧ code.isStr = false) ∨
      (code.equals "sequence_gap" ≠ !expected.isNull)))
    (.protocol6 "command ACK conditional fields are invalid")
  require (¬ ((has members "job_id" ∧ (has members "session_id" ∨ has members "request_id")) ∨
      (has members "session_id" ∧ has members "job_id") ∨
      (has members "request_id" ∧ (has members "session_id" ∨ has members "job_id"))))
    (.protocol6 "command ACK subject is ambiguous")

def checkCheckpointAck (members : Members) : Except Raised Unit :=
  let status := value members "status"
  require (¬ ((status.equals "refused" ∧ (value members "code").isStr = false) ∨
      (status.equals "refused" = false ∧ has members "code")))
    (.protocol6 "checkpoint ACK conditional fields are invalid")

/-! ## Heartbeats -/

def gpuFields : List String :=
  ["device", "available", "util_pct", "vram_used_pct", "vram_used_bytes", "vram_total_bytes",
   "temperature_c", "power_w"]

def isSample : Json → Bool
  | .int n => 1 ≤ n && n ≤ 60000
  | _ => false

def samplesValid : Json → Bool
  | .obj samples => samples.all fun sample => isSample sample.2
  | _ => false

def gpuShapeValid : Json → Bool
  | .null => true
  | .obj gpu => has gpu "device" && (keys gpu).all fun key => key.isIn gpuFields
  | _ => false

/-- A measurement, where the observation has one. -/
def checkMeasurement (gpu : Members) (name : String) (admits : Json → Bool) :
    Except Raised Unit :=
  match get? gpu name with
  | some measured => checkNumber admits "GPU measurement is invalid" measured
  | none => pure ()

def checkPower (gpu : Members) : Except Raised Unit :=
  checkMeasurement gpu "power_w" fun measured => !measured.isNegative

def checkTemperature (gpu : Members) : Except Raised Unit :=
  checkMeasurement gpu "temperature_c" fun _ => true

def checkGpu : Json → Except Raised Unit
  | .obj gpu => do
    checkPower gpu
    checkTemperature gpu
  | _ => pure ()

def checkHeartbeat (members : Members) : Except Raised Unit := do
  require (samplesValid (value members "frame_p95_ms"))
    (.protocol6 "frame p95 observation is invalid")
  require (gpuShapeValid (value members "gpu")) (.protocol6 "GPU observation shape is invalid")
  checkGpu (value members "gpu")

/-! ## Inventories -/

def sessionReportFields : List String :=
  ["kind", "session_id", "attempt_id", "control_generation", "range_id", "report_sequence",
   "report_hash"]

def jobReportFields : List String :=
  ["kind", "job_id", "dispatch_sequence", "range_id", "report_sequence", "report_hash"]

/-- A final report by what the canonical order compares. The attempt is the
attempt id of a session, the dispatch sequence of a job. -/
structure Entry where
  kind : String
  subject : String
  attempt : String ⊕ ℤ
  range : String
  deriving DecidableEq

def attemptLe : String ⊕ ℤ → String ⊕ ℤ → Bool
  | .inl a, .inl b => a ≤ b
  | .inr a, .inr b => a ≤ b
  | _, _ => false

/-- The order of the tuples, component by component. -/
def Entry.le (a b : Entry) : Bool :=
  if a.kind ≠ b.kind then a.kind ≤ b.kind
  else if a.subject ≠ b.subject then a.subject ≤ b.subject
  else if a.attempt ≠ b.attempt then attemptLe a.attempt b.attempt
  else a.range ≤ b.range

/-- The tuple no two reports may share: of a job it leaves the dispatch out. -/
def Entry.identity (e : Entry) : String × String × String × String :=
  (e.kind, e.subject, e.attempt.elim id fun _ => "", e.range)

def Json.asString : Json → Except Raised String
  | .str (.scalars s) => pure s
  | _ => throw .typeError

def Json.asInt : Json → Except Raised ℤ
  | .int n => pure n
  | _ => throw .typeError

def item (members : Members) (name : String) : Except Raised Json :=
  demand (get? members name) .keyError

/-- The fields a final report of this kind has: none for an unknown kind. -/
def reportFields (kind : Json) : List String :=
  if kind.equals "session" then sessionReportFields
  else if kind.equals "job" then jobReportFields
  else []

def sameKeys (members : Members) (names : List String) : Bool :=
  (names.all fun name => has members name) && (keys members).all fun key => key.isIn names

/-- `attempt or dispatch`: a job's report names no attempt. -/
def reportAttempt (report : Members) : Except Raised (String ⊕ ℤ) :=
  match get? report "attempt_id" with
  | some attempt => do
    let attempt ← attempt.asString
    pure (.inl attempt)
  | none => do
    let dispatch ← ((get? report "dispatch_sequence").getD (.int 0)).asInt
    pure (.inr dispatch)

def checkReport (report : Json) : Except Raised Entry :=
  match report with
  | .obj fields => do
    let kind := value fields "kind"
    require (reportFields kind ≠ [] ∧ sameKeys fields (reportFields kind))
      (.protocol6 "final report shape is invalid")
    validateTypes (.scalars "") (.obj fields)
    let kind ← kind.asString
    let subject ← ((get? fields "session_id").getD (value fields "job_id")).asString
    let attempt ← reportAttempt fields
    let range ← item fields "range_id"
    let range ← range.asString
    pure ⟨kind, subject, attempt, range⟩
  | _ => throw (.protocol6 "final report must be an object")

/-- One turn of the loop, on the entries so far. -/
def addReport (order : List Entry) (report : Json) : Except Raised (List Entry) := do
  let entry ← checkReport report
  require (entry.identity ∉ order.map Entry.identity)
    (.protocol6 "final report identity is duplicated")
  pure (order ++ [entry])

/-- `_inventory`. -/
def checkInventory (members : Members) : Except Raised Unit :=
  match value members "final_reports" with
  | .arr reports => do
    let order ← reports.foldlM addReport []
    require (order.mergeSort Entry.le = order)
      (.protocol6 "final reports are not in canonical order")
  | _ => throw (.protocol6 "final reports must be an array")

/-! ## Work and classes -/

/-- `_validate_types(control[name])`. -/
def checkNested (members : Members) (name : String) : Except Raised Unit := do
  let nested ← item members name
  validateTypes (.scalars "") nested

def isChunkShape : Json → Bool
  | .arr parts => parts.length ≤ 8 && parts.all fun part => part.isCounter 1
  | _ => false

def checkChunks (components : Members) (key : String) : Except Raised Unit := do
  let shape ← item components key
  require (isChunkShape shape) (.protocol6 "class chunk shape is invalid")

def chunkFields : List String := ["positive_chunks", "negative_chunks", "edit_chunks"]

/-- The class is named by the hash of its components. -/
def checkClassId (platform : Platform) (members : Members) : Except Raised Members := do
  match ← item members "class_components" with
  | .obj components =>
    let id ← item members "class_id"
    let hash ← canonicalHash platform (.obj components)
    require (id.equals hash) (.protocol6 "class identity is invalid")
    pure components
  | _ => throw (.protocol6 "class identity is invalid")

def checkClass (platform : Platform) (members : Members) : Except Raised Unit := do
  let components ← checkClassId platform members
  chunkFields.forM (checkChunks components)

/-! ## Messages -/

def uuidOf? (value : Json) : Option Uuid :=
  match value with
  | .str (.scalars s) => if h : isCanonicalUuid s = true then some ⟨s, h⟩ else none
  | _ => none

/-- The kind of a message. -/
def kindOf? (members : Members) : Option Text :=
  match get? members "type" with
  | some (.str kind) => some kind
  | _ => none

/-- What a predecessor report must be before it is validated as a message. -/
def checkPredecessor (members report : Members) : Except Raised (String × Uuid) := do
  let final ← (value report "type").inSet ["checkpoint", "worker_drained"]
  require final (.protocol6 "predecessor report type is invalid")
  let previous ← demand (uuidOf? (value members "previous_incarnation"))
    (.protocol6 "predecessor incarnation is invalid")
  let worker ← item members "worker_id"
  let worker ← worker.asString
  pure (worker, previous)

/-- `validate_message`. A predecessor report carries a message, which is
validated as one of the worker's previous incarnation. -/
def validateMessage (platform : Platform) (control : Json) (worker : Option String)
    (incarnation : Option Uuid) : Except Raised Unit :=
  match control with
  | .obj members => do
    let kind ← demand (kindOf? members) (.protocol6 "control type is missing")
    checkEnvelope platform kind members worker incarnation
    onlyIf (kind.isIn ["command_ack"]) (checkCommandAck members)
    onlyIf (kind.isIn ["checkpoint_ack"]) (checkCheckpointAck members)
    onlyIf (kind.isIn ["heartbeat"]) (checkHeartbeat members)
    onlyIf (kind.isIn ["worker_drained"]) (checkInventory members)
    onlyIf (kind.isIn ["predecessor_report"])
      (match _h : get? members "report" with
      | some (.obj report) => do
        let (worker, previous) ← checkPredecessor members report
        validateMessage platform (.obj report) (some worker) (some previous)
      | some _ => throw (.protocol6 "predecessor report type is invalid")
      | none => throw .keyError)
    onlyIf (kind.isIn ["open_session", "dispatch_job", "resume_job"])
      (checkNested members "work_budget")
    onlyIf (kind.isIn ["resume_job", "job_paused"] ∧ has members "checkpoint")
      (checkNested members "checkpoint")
    onlyIf (kind.isIn ["class_prepared"]) (checkClass platform members)
  | _ => throw (.protocol6 "control type is missing")
termination_by sizeOf control
decreasing_by
  have hsize := sizeOf_get? _h
  omega

/-- `decode_control`, then `validate_message`. -/
def parse (platform : Platform) (raw : Raw) (worker : Option String)
    (incarnation : Option Uuid) : Except Raised Members := do
  let members ← decodeControl platform raw
  validateMessage platform (.obj members) worker incarnation
  pure members

/-- `preflight_worker_control`: the canonical bytes of a control that passes its own
checks and fits the limit of its kind. -/
def preflightWorkerControl (platform : Platform) (members : Members) (worker : Option String)
    (incarnation : Option Uuid) : Except Raised ByteArray := do
  validateMessage platform (.obj members) worker incarnation
  let body ← canonicalBytes platform (.obj members)
  let limit ← messageLimit members
  require (body.size ≤ limit) (.protocol6 "control exceeds byte limit")
  pure body

/-- What leaves `parse_control`: a `ProtocolError`, which the connection handlers
turn into a close of the connection, or another exception, which aborts them. -/
inductive Failure where
  | protocolError (message : String)
  | uncaught (why : Raised)
  deriving DecidableEq

/-- `parse_control` on a protocol 6 connection. -/
def parseControl (platform : Platform) (raw : Raw) (worker : Option String)
    (incarnation : Option Uuid) : Except Failure Members :=
  match parse platform raw worker incarnation with
  | .ok members => .ok members
  | .error (.protocol6 message) => .error (.protocolError message)
  | .error why => .error (.uncaught why)

end Potocolom.Protocol
