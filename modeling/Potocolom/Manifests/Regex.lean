import Potocolom.Manifests.Schema
import Potocolom.Protocol.Shapes

/-! # No regular expression from a worker is evaluated

The parameter schema comes from a worker and runs against a user's parameters, so
`parse_manifests` refuses the two keywords whose value is a regular expression. Its
walk follows the keywords of the document; the validator follows those and every
reference it meets. -/

namespace Potocolom.Manifests

open Guard Protocol Relation

variable {lib : Libraries} {id : String}

/-! ## What the validator evaluates -/

/-- The keywords of draft 2020-12 whose value is a schema. -/
def subschemaKeys : List String :=
  ["additionalProperties", "items", "contains", "not", "if", "then", "else", "propertyNames",
    "unevaluatedItems", "unevaluatedProperties", "contentSchema"]

/-- The keywords whose value maps names to schemas. -/
def subschemaMapKeys : List String :=
  ["properties", "$defs", "dependentSchemas", "patternProperties"]

/-- The keywords whose value lists schemas. -/
def subschemaArrayKeys : List String := ["allOf", "anyOf", "oneOf", "prefixItems"]

/-- The subschemas a schema object applies. -/
inductive Subschema (members : Members) : Json → Prop where
  | single {key : Text} {value : Json} : (key, value) ∈ members →
      key.isIn subschemaKeys = true → Subschema members value
  | named {key name : Text} {value : Json} {schemas : Members} : (key, .obj schemas) ∈ members →
      key.isIn subschemaMapKeys = true → (name, value) ∈ schemas → Subschema members value
  | listed {key : Text} {value : Json} {schemas : List Json} : (key, .arr schemas) ∈ members →
      key.isIn subschemaArrayKeys = true → value ∈ schemas → Subschema members value

/-- The same-document reference of a schema object. -/
def Refers (members : Members) (ref : Text) : Prop :=
  get? members "$ref" = some (.str ref) ∧ Text.isFragment ref = true

/-- A schema, and the resolver the validator holds there. -/
abbrev Site (lib : Libraries) := Json × lib.Resolver

/-- What the validator goes on to from a schema. -/
inductive Visits (lib : Libraries) : Site lib → Site lib → Prop where
  | subschema {members : Members} {value : Json} {r : lib.Resolver} : Subschema members value →
      Visits lib (.obj members, r) (value, lib.inSubresource r value)
  | reference {members : Members} {ref : Text} {r : lib.Resolver} {target : Site lib} :
      Refers members ref → lib.lookup r ref = some target → Visits lib (.obj members, r) target

def rootSite (lib : Libraries) (document : Json) : Site lib :=
  (document, lib.resolverWithRoot document)

/-- `site` is evaluated while some value is validated against `document`. -/
def Evaluates (lib : Libraries) (document : Json) (site : Site lib) : Prop :=
  ReflTransGen (Visits lib) (rootSite lib document) site

/-- The object has a keyword whose value holds a regular expression. -/
def UsesRegex (schema : Json) : Prop :=
  ∃ members, schema = .obj members ∧
    (has members "pattern" = true ∨ has members "patternProperties" = true)

/-! ## What the walk visits -/

/-- The schemas `_reject_schema_node` walks under one keyword. -/
def entered (key : Text) (value : Json) : List Json :=
  if key.isIn schemaDataKeys then []
  else match value with
    | .obj members => if key.isIn schemaMapKeys then members.map Prod.snd else [value]
    | .arr items => if key.isIn schemaArrayKeys then items else [value]
    | _ => [value]

inductive Walked (document : Json) : Json → Prop where
  | root : Walked document document
  | item {items : List Json} {item : Json} : Walked document (.arr items) → item ∈ items →
      Walked document item
  | member {members : Members} {key : Text} {value schema : Json} :
      Walked document (.obj members) → (key, value) ∈ members → schema ∈ entered key value →
      Walked document schema

theorem rejectItems_eq_ok {items : List Json} :
    rejectItems id items = .ok () ↔ ∀ item ∈ items, rejectSchemaNode id item = .ok () := by
  induction items with
  | nil => simp [rejectItems]
  | cons item rest ih => simp [rejectItems, ih, Unique.exists_iff]

theorem rejectValues_eq_ok {members : Members} :
    rejectValues id members = .ok () ↔
      ∀ schema ∈ members.map Prod.snd, rejectSchemaNode id schema = .ok () := by
  induction members with
  | nil => simp [rejectValues]
  | cons member rest ih => simp [rejectValues, ih, Unique.exists_iff]

theorem rejectMember_obj (key : Text) (members : Members) :
    rejectMember id (key, .obj members) =
      if key.isIn schemaDataKeys then .ok ()
      else if key.isIn schemaMapKeys then rejectValues id members
      else rejectSchemaNode id (.obj members) := rfl

theorem rejectMember_arr (key : Text) (items : List Json) :
    rejectMember id (key, .arr items) =
      if key.isIn schemaDataKeys then .ok ()
      else if key.isIn schemaArrayKeys then rejectItems id items
      else rejectSchemaNode id (.arr items) := rfl

/-- A number, a string, a boolean or null is no schema object, whatever its keyword. -/
theorem rejectMember_leaf (key : Text) {value : Json} (hobj : ∀ members, value ≠ .obj members)
    (harr : ∀ items, value ≠ .arr items) : rejectMember id (key, value) = .ok () := by
  cases value with
  | obj members => exact absurd rfl (hobj members)
  | arr items => exact absurd rfl (harr items)
  | _ => exact ite_self _

theorem rejectMember_eq_ok {key : Text} {value : Json} :
    rejectMember id (key, value) = .ok () ↔
      ∀ schema ∈ entered key value, rejectSchemaNode id schema = .ok () := by
  unfold entered
  by_cases hdata : key.isIn schemaDataKeys = true
  · cases value <;> simp [hdata, rejectMember_obj, rejectMember_arr, rejectMember_leaf]
  · cases value with
    | obj members =>
      by_cases hkey : key.isIn schemaMapKeys = true
      · simp [rejectMember_obj, hdata, hkey, rejectValues_eq_ok]
      · simp [rejectMember_obj, hdata, hkey]
    | arr items =>
      by_cases hkey : key.isIn schemaArrayKeys = true
      · simp [rejectMember_arr, hdata, hkey, rejectItems_eq_ok]
      · simp [rejectMember_arr, hdata, hkey]
    | _ => simp [hdata, rejectMember_leaf, rejectSchemaNode]

theorem rejectMembers_eq_ok {members : Members} :
    rejectMembers id members = .ok () ↔
      ∀ member ∈ members, rejectMember id member = .ok () := by
  induction members with
  | nil => simp [rejectMembers]
  | cons member rest ih => simp [rejectMembers, ih, Unique.exists_iff]

/-- An accepted object has neither keyword, and neither does what the walk enters. -/
theorem rejectSchemaNode_obj {members : Members} :
    rejectSchemaNode id (.obj members) = .ok () ↔
      refStays members = true ∧ has members "pattern" = false ∧
        has members "patternProperties" = false ∧
        ∀ member ∈ members, rejectMember id member = .ok () := by
  simp [rejectSchemaNode, rejectMembers_eq_ok]

theorem Walked.accepted {document schema : Json} (h : Walked document schema)
    (hroot : rejectSchemaNode id document = .ok ()) : rejectSchemaNode id schema = .ok () := by
  induction h with
  | root => exact hroot
  | item _ hitem ih =>
    have hitems := rejectItems_eq_ok.1 (by simpa [rejectSchemaNode] using ih)
    exact hitems _ hitem
  | member _ hmember hschema ih =>
    have hmembers := (rejectSchemaNode_obj.1 ih).2.2.2
    exact rejectMember_eq_ok.1 (hmembers _ hmember) _ hschema

/-- The walk meets no regular expression it accepts. -/
theorem Walked.regexFree {document schema : Json} (h : Walked document schema)
    (hroot : rejectSchemaNode id document = .ok ()) : ¬ UsesRegex schema := by
  rintro ⟨members, rfl, hregex⟩
  have hobj := rejectSchemaNode_obj.1 (h.accepted hroot)
  rcases hregex with hregex | hregex
  · simp [hobj.2.1] at hregex
  · simp [hobj.2.2.1] at hregex

/-- Dropping `required` drops no keyword the walk refuses. -/
theorem get?_withoutRequired (members : Members) {name : String} (hname : name ≠ "required") :
    get? (withoutRequired members) name = get? members name := by
  unfold get? withoutRequired
  rw [List.find?_filter]
  congr 2
  funext member
  by_cases hkey : member.1 = .scalars name
  · simp [hkey, hname]
  · simp [hkey]

theorem rejectSchemaNode_withoutRequired {members : Members}
    (h : rejectSchemaNode id (.obj members) = .ok ()) :
    rejectSchemaNode id (.obj (withoutRequired members)) = .ok () := by
  rcases rejectSchemaNode_obj.1 h with ⟨hstays, hpattern, hproperties, hmembers⟩
  refine rejectSchemaNode_obj.2 ⟨?_, ?_, ?_, ?_⟩
  · simpa [refStays, get?_withoutRequired] using hstays
  · simpa [has, get?_withoutRequired] using hpattern
  · simpa [has, get?_withoutRequired] using hproperties
  · intro member hmember
    exact hmembers member (List.filter_sublist.subset hmember)

/-! ## The result -/

/-- A reference the walk saw leads the validator out of the walk, into instance data or to
a map of schemas read as one schema, and on to a regular expression. -/
def Strays (lib : Libraries) (document : Json) : Prop :=
  ∃ members ref, ∃ r : lib.Resolver, ∃ target site : Site lib,
    Evaluates lib document (.obj members, r) ∧ Walked document (.obj members) ∧
      Refers members ref ∧ lib.lookup r ref = some target ∧ ¬ Walked document target.1 ∧
        ReflTransGen (Visits lib) target site ∧ UsesRegex site.1

/-- The keywords of a schema are no instance data, and the walk enters each in its form. -/
theorem keyword_entered :
    (∀ name ∈ subschemaKeys,
      name ∉ schemaDataKeys ∧ name ∉ schemaMapKeys ∧ name ∉ schemaArrayKeys) ∧
    (∀ name ∈ subschemaMapKeys,
      name ∉ schemaDataKeys ∧ (name ∈ schemaMapKeys ∨ name = "patternProperties")) ∧
    ∀ name ∈ subschemaArrayKeys, name ∉ schemaDataKeys ∧ name ∈ schemaArrayKeys := by
  decide

/-- The walk enters every subschema the validator applies. -/
theorem Subschema.walked {document value : Json} {members : Members}
    (hsub : Subschema members value) (hwalked : Walked document (.obj members))
    (hroot : rejectSchemaNode id document = .ok ()) : Walked document value := by
  cases hsub with
  | single hmember hkey =>
    rcases Text.isIn_iff.1 hkey with ⟨name, hname, rfl⟩
    have hplain := keyword_entered.1 name hname
    refine hwalked.member hmember ?_
    cases value <;> simp [entered, Text.isIn, hplain]
  | named hmember hkey hvalue =>
    rcases Text.isIn_iff.1 hkey with ⟨name, hname, rfl⟩
    rcases keyword_entered.2.1 name hname with ⟨hdata, hmap | rfl⟩
    · refine hwalked.member hmember ?_
      simp only [entered, Text.isIn, List.contains_iff_mem, hdata, hmap]
      exact List.mem_map_of_mem hvalue
    · -- the walk refuses this keyword, so an accepted object has none of them
      have hhas : has members "patternProperties" = true :=
        has_iff.2 (List.mem_map_of_mem hmember)
      exact absurd ⟨members, rfl, .inr hhas⟩ (hwalked.regexFree hroot)
  | listed hmember hkey hvalue =>
    rcases Text.isIn_iff.1 hkey with ⟨name, hname, rfl⟩
    have harray := keyword_entered.2.2 name hname
    refine hwalked.member hmember ?_
    simpa [entered, Text.isIn, harray] using hvalue

/-- What the validator evaluates is walked, or lies behind a reference out of the walk. -/
theorem evaluates_cases {document : Json} {site : Site lib}
    (hroot : rejectSchemaNode id document = .ok ()) (h : Evaluates lib document site) :
    Walked document site.1 ∨ ∃ members ref, ∃ r : lib.Resolver, ∃ target : Site lib,
      Evaluates lib document (.obj members, r) ∧ Walked document (.obj members) ∧
        Refers members ref ∧ lib.lookup r ref = some target ∧ ¬ Walked document target.1 ∧
          ReflTransGen (Visits lib) target site := by
  induction h with
  | refl => exact .inl .root
  | @tail at' next hreach hvisit ih =>
    rcases ih with hwalked | ⟨members, ref, r, target, hat, hwalked, href, hlook, hout, hto⟩
    · cases hvisit with
      | subschema hsub => exact .inl (hsub.walked hwalked hroot)
      | reference href hlook =>
        rename_i members ref r
        by_cases hin : Walked document next.1
        · exact .inl hin
        · exact .inr ⟨members, ref, r, _, hreach, hwalked, href, hlook, hin, .refl⟩
    · exact .inr ⟨members, ref, r, target, hat, hwalked, href, hlook, hout, hto.tail hvisit⟩

theorem forM_eq_ok {α : Type} {f : α → Except String Unit} {xs : List α} :
    xs.forM f = .ok () ↔ ∀ x ∈ xs, f x = .ok () := by
  induction xs with
  | nil => simp
  | cons x rest ih =>
    have hrest : forM rest f = .ok () ↔ ∀ a ∈ rest, f a = .ok () := ih
    simp [hrest, Unique.exists_iff]

theorem mem_manifests_accepted {raw : Json} {manifests : List Manifest} {manifest : Manifest}
    (h : parseManifests lib raw = .ok manifests) (hmem : manifest ∈ manifests) :
    checkManifest lib manifest = .ok () := by
  unfold parseManifests at h
  split at h
  · simp only [bind_eq_ok, pure_eq_ok] at h
    rcases h with ⟨parsed, -, _, hchecks, rfl⟩
    exact forM_eq_ok.1 hchecks manifest hmem
  · cases h

/-- Every schema of an accepted manifest passes the walk. -/
theorem schemas_walkable {manifest : Manifest} (h : checkManifest lib manifest = .ok ())
    {document : Json} (hdoc : document ∈ manifest.schemas) :
    rejectSchemaNode manifest.id document = .ok () := by
  have hwalk : rejectSchemaNode manifest.id (.obj manifest.parameters) = .ok () := by
    simp only [checkManifest, bind_eq_ok] at h
    rcases h with ⟨_, -, _, -, _, hwalk, -⟩
    exact hwalk
  rcases List.mem_cons.1 hdoc with rfl | hdoc
  · exact hwalk
  · rw [List.mem_singleton.1 hdoc]
    exact rejectSchemaNode_withoutRequired hwalk

/-- Of an accepted parameter schema, the validator evaluates no regular expression exactly
when no reference strays. -/
theorem regex_free {raw : Json} {manifests : List Manifest}
    (hparse : parseManifests lib raw = .ok manifests) :
    ∀ manifest ∈ manifests, ∀ document ∈ manifest.schemas,
      (∀ site, Evaluates lib document site → ¬ UsesRegex site.1) ↔ ¬ Strays lib document := by
  intro manifest hmem document hdoc
  have hroot := schemas_walkable (mem_manifests_accepted hparse hmem) hdoc
  constructor
  · rintro hfree ⟨members, ref, r, target, site, hat, -, href, hlook, -, hto, hregex⟩
    have hsite : Evaluates lib document site :=
      (hat.tail (.reference href hlook)).trans hto
    exact hfree site hsite hregex
  · intro hstays site hsite hregex
    rcases evaluates_cases hroot hsite with
      hwalked | ⟨members, ref, r, target, hat, hwalked, href, hlook, hout, hto⟩
    · exact hwalked.regexFree hroot hregex
    · exact hstays ⟨members, ref, r, target, site, hat, hwalked, href, hlook, hout, hto, hregex⟩

/-! ## Two schemas -/

/-- Follow a JSON pointer through objects. -/
def followPointer : List String → Json → Option Json
  | [], value => some value
  | name :: rest, .obj members => (get? members name).bind (followPointer rest)
  | _ :: _, _ => none

/-- The names of a pointer behind its `#`. -/
def pointerNames : Text → List String
  | .scalars s => ((s.toList.splitOn '/').drop 1).map String.ofList
  | .surrogates _ _ => []

def sampleValidate : Json → Except String Manifest
  | .obj members =>
    match get? members "parameters" with
    | some (.obj parameters) => .ok ⟨"sample", ["text_to_image"], parameters⟩
    | _ => .ok ⟨"sample", ["text_to_image"], []⟩
  | _ => .error "Input should be a valid dictionary"

/-- The packages, as far as objects without an `$id` go: the resolver is the document. -/
def samplePackages : Libraries where
  modelValidate := sampleValidate
  checkSchema _ := true
  Resolver := Json
  resolverWithRoot document := document
  lookup document ref := (followPointer (pointerNames ref) document).map fun value =>
    (value, document)
  inSubresource document _ := document
  repr
    | .scalars s => "'" ++ s ++ "'"
    | .surrogates _ _ => "''"

def entryOf (parameters : Members) : Json :=
  .obj [(.scalars "id", .str (.scalars "sample")), (.scalars "name", .str (.scalars "Sample")),
    (.scalars "capabilities", .arr [.str (.scalars "text_to_image")]),
    (.scalars "parameters", .obj parameters)]

/-- `{"$ref": ref}` -/
def refTo (ref : String) : Members := [(.scalars "$ref", .str (.scalars ref))]

/-- The value of a default that reads like a schema. -/
def defaultPattern : Members := [(.scalars "pattern", .str (.scalars "(a+)+$"))]

/-- `size` has that default, and `prompt` refers to it. -/
def strayParameters : Members :=
  [(.scalars "properties", .obj
    [(.scalars "size", .obj [(.scalars "default", .obj defaultPattern)]),
      (.scalars "prompt", .obj (refTo "#/properties/size/default"))])]

/-- `prompt` refers to a definition. -/
def fragmentParameters : Members :=
  [(.scalars "$defs", .obj [(.scalars "text", .obj [])]),
    (.scalars "properties", .obj [(.scalars "prompt", .obj (refTo "#/$defs/text"))])]

theorem stray_parsed : parseManifests samplePackages (.arr [entryOf strayParameters]) =
    .ok [⟨"sample", ["text_to_image"], strayParameters⟩] := by
  rfl

theorem fragment_parsed : parseManifests samplePackages (.arr [entryOf fragmentParameters]) =
    .ok [⟨"sample", ["text_to_image"], fragmentParameters⟩] := by
  rfl

theorem fragment_walked {schema : Json} (h : Walked (.obj fragmentParameters) schema) :
    schema ∈ [.obj fragmentParameters, .obj [], .obj (refTo "#/$defs/text"),
      .str (.scalars "#/$defs/text")] := by
  induction h with
  | root => exact List.mem_cons_self
  | item _ _ ih => simp at ih
  | @member members key value schema _ hmember hschema ih =>
    have hmembers : members = fragmentParameters ∨ members = [] ∨
        members = refTo "#/$defs/text" := by simpa using ih
    rcases hmembers with rfl | rfl | rfl
    · have hpair : (key, value) = fragmentParameters[0] ∨ (key, value) = fragmentParameters[1] := by
        simpa [fragmentParameters] using hmember
      rcases hpair with hpair | hpair <;> cases hpair
      · have hentered : schema ∈ [Json.obj []] := hschema
        simp [List.mem_singleton.1 hentered]
      · have hentered : schema ∈ [Json.obj (refTo "#/$defs/text")] := hschema
        simp [List.mem_singleton.1 hentered]
    · cases hmember
    · cases List.mem_singleton.1 hmember
      have hentered : schema ∈ [Json.str (.scalars "#/$defs/text")] := hschema
      simp [List.mem_singleton.1 hentered]

/-- The resolver of the sample never leaves its document. -/
theorem sample_resolver {document : Json} {site : Site samplePackages}
    (h : Evaluates samplePackages document site) : site.2 = document := by
  induction h with
  | refl => rfl
  | tail _ hvisit ih =>
    cases hvisit with
    | subschema _ => exact ih
    | reference _ hlook =>
      rcases Option.map_eq_some_iff.1 hlook with ⟨value, -, rfl⟩
      exact ih

/-- The one reference of the second schema names its definition, which the walk enters. -/
theorem fragment_stays : ¬ Strays samplePackages (.obj fragmentParameters) := by
  rintro ⟨members, ref, r, target, site, hat, hwalked, ⟨href, -⟩, hlook, hout, -⟩
  have hr : r = .obj fragmentParameters := sample_resolver hat
  have hmembers : members = fragmentParameters ∨ members = [] ∨
      members = refTo "#/$defs/text" := by simpa using fragment_walked hwalked
  rcases hmembers with rfl | rfl | rfl
  · cases href
  · cases href
  · cases href
    subst hr
    cases hlook
    refine hout (Walked.root.member List.mem_cons_self ?_)
    exact List.mem_cons_self

theorem regex_free_sample :
    ¬ Strays samplePackages (.obj fragmentParameters) ∧
      ∀ site, Evaluates samplePackages (.obj fragmentParameters) site → ¬ UsesRegex site.1 :=
  ⟨fragment_stays,
    (regex_free fragment_parsed _ List.mem_cons_self _ List.mem_cons_self).2 fragment_stays⟩

/-- The walk skips a default, a reference enters it, and the pattern in it is evaluated. -/
theorem default_pattern_evaluated :
    ¬ ∀ (lib : Libraries) (raw : Json) (manifests : List Manifest),
      parseManifests lib raw = .ok manifests →
        ∀ manifest ∈ manifests, ∀ document ∈ manifest.schemas, ∀ site,
          Evaluates lib document site → ¬ UsesRegex site.1 := by
  intro hall
  have hfree := hall samplePackages _ _ stray_parsed _ List.mem_cons_self _ List.mem_cons_self
  have hprompt : Evaluates samplePackages (.obj strayParameters)
      (.obj (refTo "#/properties/size/default"), .obj strayParameters) := by
    have hproperties : (Text.scalars "properties", _) ∈ strayParameters := List.mem_cons_self
    exact ReflTransGen.single (.subschema
      (.named hproperties rfl (List.mem_cons_of_mem _ List.mem_cons_self)))
  have hdefault : Evaluates samplePackages (.obj strayParameters)
      (.obj defaultPattern, .obj strayParameters) :=
    hprompt.tail (.reference ⟨rfl, rfl⟩ rfl)
  exact hfree _ hdefault ⟨defaultPattern, rfl, .inl rfl⟩

end Potocolom.Manifests
