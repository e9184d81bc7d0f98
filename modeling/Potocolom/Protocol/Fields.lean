import Potocolom.Protocol.Shapes

/-! # Field types

`_validate_types` walks a message and checks every field it meets against what
its name stands for. A field whose name it does not know is left unchecked, and
it enters only the objects under the few names in `nestedFields`; the message
itself stands under the empty name. -/

namespace Potocolom.Protocol

open Guard

def uuidFields : List String :=
  ["incarnation", "previous_incarnation", "grant_nonce", "lease_id", "transport_owner_id",
   "command_id", "session_id", "attempt_id", "job_id", "range_id", "drain_id", "request_id",
   "measured_envelope_id"]

def positive : List String :=
  ["protocol_version", "owner_epoch", "command_sequence", "control_generation",
   "params_revision", "dispatch_sequence", "parent_dispatch_sequence", "report_sequence",
   "expected_sequence", "envelope_revision", "schema_version", "max_bytes", "width", "height",
   "steps", "serial_cost_ms"]

def nonnegative : List String :=
  ["min_supported_version", "realtime_slots", "slots_in_use", "gpu_ms", "frames", "images",
   "duration_ms", "active_attempt_count", "input_fetch_ms", "load_ms", "postprocess_ms",
   "vram_used_bytes", "vram_total_bytes", "util_pct", "vram_used_pct", "remaining_ms",
   "start_gpu_ms", "byte_size", "disk_free_bytes", "disk_total_bytes", "download_bytes",
   "bytes_done", "bytes_total"]

def hashFields : List String :=
  ["body_hash", "report_hash", "params_hash", "class_id", "checkpoint_hash", "sha256"]

def stringFields : List String :=
  ["worker_id", "region", "device", "model_id", "model_revision", "memory_mode", "reason",
   "status", "code", "category", "phase", "failure_code", "dispatch_token", "profile",
   "selection", "dtype", "guidance_mode", "kind", "compatibility_id", "url", "name", "type"]

def workLimitFields : List String := ["gpu_ms_limit", "remaining_wall_ms"]

def booleanFields : List String :=
  ["ready", "available", "has_thumbnail", "physical_complete", "batch_eligible"]

def nestedFields : List String := ["", "class_components", "checkpoint", "gpu", "work_budget"]

def maxCounter : ℤ := 2 ^ 63 - 1

/-! ## Predicates on one value -/

def isHexLower (c : Char) : Bool := isDigit c || ('a' ≤ c && c ≤ 'f')

/-- Every character against the class at its position, and no character more. -/
def matchesClasses (classes : List (Char → Bool)) (text : List Char) : Bool :=
  classes.length = text.length && (classes.zip text).all fun pair => pair.1 pair.2

/-- The layout of a canonical UUID: lowercase digits in groups of 8, 4, 4, 4 and 12. -/
def uuidClasses : List (Char → Bool) :=
  let dash : Char → Bool := fun c => c = '-'
  List.replicate 8 isHexLower ++ [dash] ++ List.replicate 4 isHexLower ++ [dash] ++
    List.replicate 4 isHexLower ++ [dash] ++ List.replicate 4 isHexLower ++ [dash] ++
    List.replicate 12 isHexLower

/-- `str(uuid.UUID(text)) == text`. -/
def isCanonicalUuid (text : String) : Bool := matchesClasses uuidClasses text.toList

/-- A `uuid.UUID`, by its canonical text. -/
structure Uuid where
  text : String
  canonical : isCanonicalUuid text = true
  deriving DecidableEq

/-- `[0-9a-f]{64}`. -/
def isHex64 (text : String) : Bool := matchesClasses (List.replicate 64 isHexLower) text.toList

def dateTimeClasses : List (Char → Bool) :=
  let only (c : Char) : Char → Bool := fun c' => c' = c
  List.replicate 4 isDigit ++ [only '-'] ++ List.replicate 2 isDigit ++ [only '-'] ++
    List.replicate 2 isDigit ++ [only 'T'] ++ List.replicate 2 isDigit ++ [only ':'] ++
    List.replicate 2 isDigit ++ [only ':'] ++ List.replicate 2 isDigit

/-- `(?:\.[0-9]+)?Z`. -/
def isZone : List Char → Bool
  | ['Z'] => true
  | '.' :: rest => !(rest.takeWhile isDigit).isEmpty && rest.dropWhile isDigit = ['Z']
  | _ => false

/-- A UTC time as RFC 3339 writes it. -/
def isRfc3339 (text : String) : Bool :=
  matchesClasses dateTimeClasses (text.toList.take 19) && isZone (text.toList.drop 19)

namespace Json

def isNull : Json → Bool
  | .null => true
  | _ => false

def isBool : Json → Bool
  | .bool _ => true
  | _ => false

def isStr : Json → Bool
  | .str _ => true
  | _ => false

def isObj : Json → Bool
  | .obj _ => true
  | _ => false

/-- `isinstance(value, str)` and `p` of its text. -/
def strWith (p : String → Bool) : Json → Bool
  | .str (.scalars s) => p s
  | _ => false

/-- `_uuid`. -/
def isUuid (value : Json) : Bool := value.strWith isCanonicalUuid

/-- `_integer`, from `least` on. -/
def isCounter (least : ℤ) : Json → Bool
  | .int n => least ≤ n && n ≤ maxCounter
  | _ => false

/-- `isinstance(value, (int, float)) and not isinstance(value, bool)`. -/
def isNumber : Json → Bool
  | .int _ => true
  | .float _ => true
  | _ => false

/-- An integer that rounds past the largest float. -/
def overflows : Json → Bool
  | .int n => 2 ^ 1024 - 2 ^ 970 ≤ n.natAbs
  | _ => false

/-- `0 <= value <= 1`. A negative zero counts as zero. -/
def inUnit : Json → Bool
  | .int n => 0 ≤ n && n ≤ 1
  | .float bits =>
    (!bits.msb || bits.toNat % 2 ^ 63 = 0) && (bits.msb || bits.toNat ≤ 0x3FF0000000000000)
  | _ => false

/-- `value < 0`. -/
def isNegative : Json → Bool
  | .int n => n < 0
  | .float bits => bits.msb && bits.toNat % 2 ^ 63 ≠ 0
  | _ => false

/-- Lists and dicts are not hashable: no set can be asked for one. -/
def hashable : Json → Bool
  | .arr _ => false
  | .obj _ => false
  | _ => true

/-- `value in names`, a set of strings. -/
def inSet (value : Json) (names : List String) : Except Raised Bool := do
  require value.hashable .typeError
  pure (value.strWith names.contains)

end Json

/-! ## Checks -/

/-- `math.isfinite(value)`. -/
def mathIsFinite : Json → Except Raised Bool
  | .int n => do
    require (Json.overflows (.int n) = false) .overflowError
    pure true
  | .float bits => pure (isFinite bits)
  | _ => throw .typeError

/-- A finite number that `admits` lets pass. -/
def checkNumber (admits : Json → Bool) (message : String) (value : Json) :
    Except Raised Unit := do
  require value.isNumber (.protocol6 message)
  let finite ← mathIsFinite value
  require (finite && admits value) (.protocol6 message)

/-- What `_validate_types` checks of one field, in its order. -/
def checkField (key : Text) (value : Json) : Except Raised Unit := do
  require (key.isIn ["op_id"] → value.isNull || value.isStr)
    (.protocol6 "op_id must be a string or null")
  require (key.isIn uuidFields → value.isUuid)
    (.protocol6 "identity must be a canonical UUID")
  require (key.isIn positive → value.isCounter 1)
    (.protocol6 "counter must be a positive signed63 integer")
  require (key.isIn nonnegative → value.isCounter 0)
    (.protocol6 "counter must be a nonnegative signed63 integer")
  require (key.isIn hashFields → value.strWith isHex64)
    (.protocol6 "hash must be lowercase SHA256 hex")
  require (key.isIn stringFields → value.isStr) (.protocol6 "field must be a string")
  require (key.isIn ["lease_expires_at"] → value.strWith isRfc3339)
    (.protocol6 "lease expiry must be UTC RFC3339")
  require (key.isIn workLimitFields → value.isNull || value.isCounter 0)
    (.protocol6 "work limit must be a nonnegative signed63 integer or null")
  onlyIf (key.isIn ["category_score"])
    (checkNumber Json.inUnit "category score is invalid" value)
  onlyIf (key.isIn ["progress"]) (checkNumber Json.inUnit "progress is invalid" value)
  require (key.isIn booleanFields → value.isBool) (.protocol6 "observation must be a boolean")

mutual

/-- `_validate_types(value, key)`. -/
def validateTypes (key : Text) (value : Json) : Except Raised Unit :=
  match value with
  | .obj members => do
    checkField key (.obj members)
    onlyIf (key.isIn nestedFields) (validateMembers members)
  | value => checkField key value

def validateMembers (members : List (Text × Json)) : Except Raised Unit :=
  match members with
  | [] => pure ()
  | (key, child) :: members => do
    validateTypes key child
    validateMembers members

end

/-! ## The fields a walk visits -/

mutual

/-- The fields `_validate_types` checks, in order. -/
def visits (key : Text) (value : Json) : List (Text × Json) :=
  match value with
  | .obj members =>
    (key, .obj members) :: if key.isIn nestedFields then memberVisits members else []
  | value => [(key, value)]

def memberVisits (members : List (Text × Json)) : List (Text × Json) :=
  match members with
  | [] => []
  | (key, child) :: members => visits key child ++ memberVisits members

end

def checkVisit (visit : Text × Json) : Except Raised Unit := checkField visit.1 visit.2

end Potocolom.Protocol
