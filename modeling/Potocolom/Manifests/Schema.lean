import Potocolom.Protocol.Json

/-! # The manifests of a hello

A worker describes its models with manifests. Each carries a parameter schema of
the worker's own making, and `parse_manifests` is the only gate that schema
passes: the API later compiles it and validates every request against it. -/

namespace Potocolom.Manifests

open Guard Protocol

/-! ## What JSON storage can hold -/

/-- `storable_text`: no NUL and no lone surrogate. -/
def storableText : Text → Bool
  | .scalars s => !s.toList.contains (Char.ofNat 0)
  | .surrogates _ _ => false

/-- `JSON_MAX_DEPTH`. -/
def jsonMaxDepth : Nat := 64

mutual

/-- `json_finite`. -/
def jsonFinite : Json → Nat → Bool
  | .float bits, depth => depth ≤ jsonMaxDepth && isFinite bits
  | .str text, depth => depth ≤ jsonMaxDepth && storableText text
  | .obj members, depth => depth ≤ jsonMaxDepth && membersFinite members (depth + 1)
  | .arr items, depth => depth ≤ jsonMaxDepth && itemsFinite items (depth + 1)
  | _, depth => depth ≤ jsonMaxDepth

def membersFinite : Members → Nat → Bool
  | [], _ => true
  | (key, value) :: rest, depth =>
    storableText key && jsonFinite value depth && membersFinite rest depth

def itemsFinite : List Json → Nat → Bool
  | [], _ => true
  | item :: rest, depth => jsonFinite item depth && itemsFinite rest depth

end

/-! ## The walk over schema keywords -/

/-- `_SCHEMA_MAP_KEYS` -/
def schemaMapKeys : List String := ["properties", "$defs", "definitions", "dependentSchemas"]

/-- `_SCHEMA_ARRAY_KEYS` -/
def schemaArrayKeys : List String := ["allOf", "anyOf", "oneOf", "prefixItems"]

/-- `_SCHEMA_DATA_KEYS`: instance data, not subschemas. -/
def schemaDataKeys : List String := ["default", "const", "enum", "examples"]

/-- `ref.startswith("#")` -/
def Text.isFragment : Text → Bool
  | .scalars s => s.toList.head? = some '#'
  | .surrogates points _ => points.head? = some '#'.toNat

/-- The reference of a schema object, when it has one, stays in the document. -/
def refStays (members : Members) : Bool :=
  match get? members "$ref" with
  | none => true
  | some (.str ref) => Text.isFragment ref
  | some _ => false

mutual

/-- `_reject_schema_node` -/
def rejectSchemaNode (id : String) : Json → Except String Unit
  | .obj members => do
    require (refStays members = true)
      s!"manifest {id}: parameter schema $ref must be a same-document fragment"
    require (has members "pattern" = false)
      s!"manifest {id}: parameter schema must not use pattern"
    require (has members "patternProperties" = false)
      s!"manifest {id}: parameter schema must not use patternProperties"
    rejectMembers id members
  | .arr items => rejectItems id items
  | _ => .ok ()

/-- The loop over the items of an object. -/
def rejectMembers (id : String) : Members → Except String Unit
  | [] => .ok ()
  | member :: rest => do
    rejectMember id member
    rejectMembers id rest

/-- Instance data is skipped, a map or an array of subschemas is entered without being
a schema itself, and anything else is walked as a schema. -/
def rejectMember (id : String) : Text × Json → Except String Unit
  | (key, value) =>
    let schema := rejectSchemaNode id value
    if key.isIn schemaDataKeys then .ok ()
    else match value with
      | .obj members => if key.isIn schemaMapKeys then rejectValues id members else schema
      | .arr items => if key.isIn schemaArrayKeys then rejectItems id items else schema
      | _ => schema

/-- The loop over `value.values()`. -/
def rejectValues (id : String) : Members → Except String Unit
  | [] => .ok ()
  | (_, value) :: rest => do
    rejectSchemaNode id value
    rejectValues id rest

def rejectItems (id : String) : List Json → Except String Unit
  | [] => .ok ()
  | item :: rest => do
    rejectSchemaNode id item
    rejectItems id rest

end

/-! ## The references of a schema -/

mutual

/-- `_schema_references` -/
def schemaReferences : Json → List Text
  | .obj members =>
    (match get? members "$ref" with
      | some (.str ref) => [ref]
      | _ => []) ++ memberReferences members
  | .arr items => itemReferences items
  | _ => []

def memberReferences : Members → List Text
  | [] => []
  | member :: rest => referencesUnder member ++ memberReferences rest

def referencesUnder : Text × Json → List Text
  | (key, value) =>
    let schema := schemaReferences value
    if key.isIn schemaDataKeys then []
    else match value with
      | .obj members => if key.isIn schemaMapKeys then valueReferences members else schema
      | .arr items => if key.isIn schemaArrayKeys then itemReferences items else schema
      | _ => schema

def valueReferences : Members → List Text
  | [] => []
  | (_, value) :: rest => schemaReferences value ++ valueReferences rest

def itemReferences : List Json → List Text
  | [] => []
  | item :: rest => schemaReferences item ++ itemReferences rest

end

/-! ## Parsing -/

/-- What `parse_manifests` reads of a `Manifest`. -/
structure Manifest where
  id : String
  capabilities : List String
  parameters : Members

/-- The packages and the interpreter underneath. A `Resolver` of `referencing` looks a
reference up, which may move the base of the references behind it, and enters a
subschema, which moves the base where that has an `$id`. -/
structure Libraries where
  /-- `Manifest.model_validate`, or the text of its `ValidationError`. -/
  modelValidate : Json → Except String Manifest
  /-- Whether `Draft202012Validator.check_schema` accepts. -/
  checkSchema : Json → Bool
  Resolver : Type
  /-- `Registry().resolver_with_root(DRAFT202012.create_resource(schema))` -/
  resolverWithRoot : Json → Resolver
  /-- `resolver.lookup(ref)`; `none` where it raises. -/
  lookup : Resolver → Text → Option (Json × Resolver)
  /-- `resolver.in_subresource(subresource)` -/
  inSubresource : Resolver → Json → Resolver
  /-- `repr` of a string. -/
  repr : Text → String

/-- `DIFFUSION_CAPABILITIES`, sorted. -/
def diffusionCapabilities : List String := ["image_to_image", "text_to_image"]

/-- `validate_capability_exclusivity` -/
def validateCapabilityExclusivity (lib : Libraries) (manifest : Manifest) : Except String Unit :=
  let diffusion := diffusionCapabilities.filter manifest.capabilities.contains
  let shown := ", ".intercalate (diffusion.map fun name => lib.repr (.scalars name))
  require (¬ (manifest.capabilities.contains "upscale" ∧ diffusion ≠ []))
    s!"manifest {manifest.id}: upscale cannot combine with [{shown}]"

/-- One turn of the loop of `_reject_invalid_parameter_schema`: the target resolves, and
is an object or a boolean. -/
def checkReference (lib : Libraries) (id : String) (resolver : lib.Resolver) (ref : Text) :
    Except String Unit := do
  let (target, _) ← demand (lib.lookup resolver ref)
    s!"manifest {id}: parameter schema $ref {lib.repr ref} does not resolve"
  match target with
  | .obj _ | .bool _ => .ok ()
  | _ => .error s!"manifest {id}: parameter schema $ref {lib.repr ref} does not name a schema"

/-- `_reject_invalid_parameter_schema` -/
def rejectInvalidParameterSchema (lib : Libraries) (schema : Json) (id : String) :
    Except String Unit := do
  require (lib.checkSchema schema = true) s!"manifest {id}: parameter schema is invalid"
  let resolver := lib.resolverWithRoot schema
  (schemaReferences schema).forM (checkReference lib id resolver)

/-- One turn of the loop of `parse_manifests`. -/
def checkManifest (lib : Libraries) (manifest : Manifest) : Except String Unit := do
  validateCapabilityExclusivity lib manifest
  require (jsonFinite (.obj manifest.parameters) 0 = true)
    (s!"manifest {manifest.id}: parameters are too deeply nested or contain " ++
      "a value JSON storage cannot hold")
  rejectSchemaNode manifest.id (.obj manifest.parameters)
  rejectInvalidParameterSchema lib (.obj manifest.parameters) manifest.id

/-- The error of `model_validate` under the words of `parse_manifests`. -/
def validateEntry (lib : Libraries) (entry : Json) : Except String Manifest :=
  (lib.modelValidate entry).mapError fun error => s!"invalid manifest: {error}"

/-- `parse_manifests` -/
def parseManifests (lib : Libraries) (raw : Json) : Except String (List Manifest) :=
  match raw with
  | .arr entries => do
    let manifests ← entries.mapM (validateEntry lib)
    manifests.forM (checkManifest lib)
    return manifests
  | _ => .error "models must be a list of manifests"

/-! ## The schemas requests are validated against -/

/-- `schema.pop("required", None)` -/
def withoutRequired (members : Members) : Members :=
  members.filter fun member => member.1 ≠ .scalars "required"

/-- What `validate_params` and `validate_param_update` build a validator from. -/
def Manifest.schemas (manifest : Manifest) : List Json :=
  [.obj manifest.parameters, .obj (withoutRequired manifest.parameters)]

end Potocolom.Manifests
