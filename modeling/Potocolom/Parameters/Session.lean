import Potocolom.Admission.Costs
import Potocolom.Manifests.Schema

/-! # The parameters of a realtime session

How `realtime.py` takes the parameters of an open, puts the session's seed in, and merges
each `update_params` into them; `validate_params` and `validate_param_update` of
`manifests.py` are the gates. What the API holds is kept beside what the browser sent. -/

namespace Potocolom.Parameters

open Protocol Manifests Admission

/-! ## Validating parameters -/

mutual

/-- `json_non_finite`. -/
def jsonNonFinite : Json → Nat → Bool
  | .float bits, depth => depth ≤ jsonMaxDepth && !isFinite bits
  | .obj members, depth => depth ≤ jsonMaxDepth && membersNonFinite members (depth + 1)
  | .arr items, depth => depth ≤ jsonMaxDepth && itemsNonFinite items (depth + 1)
  | _, _ => false

def membersNonFinite : Members → Nat → Bool
  | [], _ => false
  | (_, value) :: rest, depth => jsonNonFinite value depth || membersNonFinite rest depth

def itemsNonFinite : List Json → Nat → Bool
  | [], _ => false
  | item :: rest, depth => jsonNonFinite item depth || itemsNonFinite rest depth

end

/-- How compiling a schema and validating an object with it end. -/
inductive Verdict where
  | valid
  /-- `ValidationError`, with its message. -/
  | invalid (message : String)
  /-- `SchemaError`. -/
  | schemaError
  /-- `RecursionError` while the schema is compiled. -/
  | schemaDepth
  /-- `RecursionError` while the object is validated. -/
  | depth
  /-- A reference that cannot be followed. -/
  | unusable
deriving DecidableEq, Repr

/-- `_params_validator(schema).validate(params)`. -/
abbrev Validator := Members → Members → Verdict

/-- The error for a verdict, if it is one. -/
def Verdict.error : Verdict → Option String
  | .valid => none
  | .invalid message => some message
  | .schemaError => some "model parameter schema is invalid"
  | .schemaDepth => some "schema nests too deeply to validate"
  | .depth => some "params or schema nest too deeply to validate"
  | .unusable => some "model parameter schema is invalid"

/-- What `validate_params` and `validate_param_update` share. -/
def validateAgainst (validator : Validator) (schema params : Members) : Option String :=
  if jsonNonFinite (.obj params) 0 then
    some "params contain a number that is not finite (NaN or Infinity)"
  else if !jsonFinite (.obj params) 0 then
    some "params are too deeply nested or contain a value JSON storage cannot hold"
  else (validator schema params).error

/-- `validate_params`. -/
def validateParams (validator : Validator) (manifest : Manifest) (params : Members) :
    Option String :=
  validateAgainst validator manifest.parameters params

/-- `validate_param_update`. -/
def validateParamUpdate (validator : Validator) (manifest : Manifest) (params : Members) :
    Option String :=
  if params = [] then some "params update is empty"
  else validateAgainst validator (withoutRequired manifest.parameters) params

/-! ## Seeds and merges -/

/-- `session_seed`. -/
def sessionSeed : Option Json → Option ℤ
  | some (.int n) => some n
  | some (.float bits) => wholeFloat bits
  | _ => none

/-- `SESSION_SEED_BOUND`. -/
def sessionSeedBound : Nat := 2 ^ 31 - 1

/-- `{**params, key: value}`. -/
def assign (params : Members) (key : Text) (value : Json) : Members :=
  if key ∈ keys params then
    params.map fun member => if member.1 = key then (key, value) else member
  else params ++ [(key, value)]

/-- `{**base, **update}`. -/
def merge (base update : Members) : Members :=
  update.foldl (fun merged member => assign merged member.1 member.2) base

def seedKey : Text := .scalars "seed"

/-- The parameters with the session's seed: theirs where it is an integer, else the drawn one. -/
def withSeed (params : Members) (drawn : Fin sessionSeedBound) : Members :=
  assign params seedKey (.int ((sessionSeed (get? params "seed")).getD drawn))

/-! ## The session -/

/-- Parameters as the session holds them, and as the browser sent them. -/
structure Held where
  params : Members
  sent : Members

/-- The session, as far as its parameters go. -/
structure Session where
  /-- `params`, which the worker was told. -/
  effective : Held
  /-- `desired_params`. -/
  desired : Held
  /-- What the commands of a protocol 6 worker committed. -/
  committed : List Held

/-- `opening.get("params") or {}`; `none` raises. -/
def openingParams : Option Json → Option Members
  | none | some .null | some (.bool false) | some (.arr []) => some []
  | some (.int n) => if n = 0 then some [] else none
  | some (.float bits) => if bits.toNat % 2 ^ 63 = 0 then some [] else none
  | some (.str text) => if text = .scalars "" then some [] else none
  | some (.obj members) => some members
  | some _ => none

/-- The session that an admitted open message makes. -/
def openSession (validator : Validator) (manifest : Manifest) (opening : Option Json)
    (drawn : Fin sessionSeedBound) : Option Session := do
  let params ← openingParams opening
  if validateParams validator manifest params ≠ none then none
  else
    let held : Held := ⟨withSeed params drawn, params⟩
    some ⟨held, held, []⟩

/-- How the merged parameters of an accepted update reach the session. -/
inductive Delivery where
  /-- No worker, or one before protocol 6. -/
  | applied
  /-- The command commits, and the mirror takes the committed parameters. -/
  | mirrored
  /-- The command commits, and the session has moved on. -/
  | committed
  /-- The worker takes no commands: the replacement opens with the parameters. -/
  | refused
  /-- The command is dropped on the way. -/
  | dropped
deriving DecidableEq, Repr

/-- The session after an accepted update. -/
def Session.deliver (s : Session) (merged : Held) : Delivery → Session
  | .applied => { s with effective := merged, desired := merged }
  | .mirrored => { s with desired := merged, committed := s.committed ++ [merged] }
  | .committed => { s with committed := s.committed ++ [merged] }
  | .refused => { s with desired := merged }
  | .dropped => s

/-- `update_params`: the session after it, or the error that is posted. -/
def Session.update (validator : Validator) (manifest : Manifest) (s : Session) (params : Members)
    (delivery : Delivery) : Except String Session :=
  if seedKey ∈ keys params then
    .error "seed is fixed at session open and cannot be changed"
  else
    match validateParamUpdate validator manifest params with
    | some invalid => .error invalid
    | none =>
      let merged : Held := ⟨merge s.desired.params params, merge s.desired.sent params⟩
      match validateParamUpdate validator manifest merged.params with
      | some invalid => .error invalid
      | none => .ok (s.deliver merged delivery)

/-- What happens to a session's parameters. -/
inductive Event where
  | update (params : Members) (delivery : Delivery)
  /-- The open command of a protocol 6 worker commits the desired parameters. -/
  | opens
  /-- A worker's accepted ack publishes what its command committed. -/
  | publishes (command : Nat)
  /-- The session is placed anew, after reading the committed parameters or not. -/
  | replaces (command : Option Nat)

/-- The session after an event. -/
def Session.after (validator : Validator) (manifest : Manifest) (s : Session) : Event → Session
  | .update params delivery =>
    match s.update validator manifest params delivery with
    | .ok t => t
    | .error _ => s
  | .opens => { s with committed := s.committed ++ [s.desired] }
  | .publishes command => { s with effective := (s.committed[command]?).getD s.effective }
  | .replaces command =>
    let desired := (command.bind fun index => s.committed[index]?).getD s.desired
    { s with desired := desired, effective := desired }

/-- The session after these events. -/
def Session.run (validator : Validator) (manifest : Manifest) (s : Session) (events : List Event) :
    Session :=
  events.foldl (fun s event => s.after validator manifest event) s

end Potocolom.Parameters
