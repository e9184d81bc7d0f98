import Potocolom.Parameters.Session

/-! # Parameters stay valid and editable

What the session holds is valid as long as the seed the API puts in does no harm: the open's
parameters are valid with it, and no merge that is valid as the browser sent it is invalid
with the seed in place. -/

namespace Potocolom.Parameters

open Protocol Manifests Admission

/-! ## Merging -/

section Merge

variable {params base update : Members} {key key' : Text} {value : Json}

theorem mem_keys_assign : key' ∈ keys (assign params key value) ↔ key' = key ∨ key' ∈ keys params := by
  unfold assign
  split
  · next hmem =>
    have hkeys : keys (params.map fun member => if member.1 = key then (key, value) else member) =
        keys params := by
      rw [keys, List.map_map]
      apply List.map_congr_left
      intro member _
      by_cases h : member.1 = key <;> simp [h]
    rw [hkeys]
    constructor
    · exact .inr
    · rintro (rfl | h)
      · exact hmem
      · exact h
  · rw [keys, List.map_append, List.mem_append, List.map_singleton, List.mem_singleton]
    exact or_comm

/-- A merge has the keys of its base. -/
theorem mem_keys_merge (h : key ∈ keys base) : key ∈ keys (merge base update) := by
  induction update generalizing base with
  | nil => exact h
  | cons member rest ih => exact ih (mem_keys_assign.2 (.inr h))

end Merge

/-! ## The gates -/

/-- The `required` list of a schema. -/
def required (schema : Members) : List Text :=
  match get? schema "required" with
  | some (.arr items) => items.filterMap fun item =>
      match item with
      | .str key => some key
      | _ => none
  | _ => []

/-- What is taken of the validator: an object satisfies a schema exactly when it satisfies the
schema without its `required` list and has every key of that list. -/
def RequiredLaw (validator : Validator) : Prop :=
  ∀ schema params, validator schema params = .valid ↔
    validator (withoutRequired schema) params = .valid ∧ ∀ key ∈ required schema, key ∈ keys params

section Gates

variable {validator : Validator} {manifest : Manifest} {params update : Members}

/-- The parameters satisfy the manifest's schema, its `required` list included. -/
def Valid (validator : Validator) (manifest : Manifest) (params : Members) : Prop :=
  validateParams validator manifest params = none

/-- The parameters are acceptable as an update. -/
def ValidUpdate (validator : Validator) (manifest : Manifest) (params : Members) : Prop :=
  validateParamUpdate validator manifest params = none

instance : Decidable (Valid validator manifest params) := by unfold Valid; infer_instance

instance : Decidable (ValidUpdate validator manifest params) := by
  unfold ValidUpdate
  infer_instance

theorem error_eq_none {verdict : Verdict} : verdict.error = none ↔ verdict = .valid := by
  cases verdict <;> simp [Verdict.error]

theorem validateAgainst_eq_none {schema : Members} :
    validateAgainst validator schema params = none ↔
      (jsonNonFinite (.obj params) 0 = false ∧ jsonFinite (.obj params) 0 = true) ∧
        validator schema params = .valid := by
  unfold validateAgainst
  split
  · simp [*]
  · split
    · next h =>
      have hfinite : jsonFinite (.obj params) 0 = false := by simpa using h
      simp [hfinite]
    · simp_all [error_eq_none]

/-- An acceptable update that has the required keys is valid. -/
theorem ValidUpdate.valid (hlaw : RequiredLaw validator) (h : ValidUpdate validator manifest params)
    (hkeys : ∀ key ∈ required manifest.parameters, key ∈ keys params) :
    Valid validator manifest params := by
  unfold ValidUpdate validateParamUpdate at h
  split at h
  · cases h
  · obtain ⟨hfinite, hvalid⟩ := validateAgainst_eq_none.1 h
    exact validateAgainst_eq_none.2 ⟨hfinite, (hlaw _ _).2 ⟨hvalid, hkeys⟩⟩

theorem Valid.keys (hlaw : RequiredLaw validator) (h : Valid validator manifest params) :
    ∀ key ∈ required manifest.parameters, key ∈ keys params :=
  ((hlaw _ _).1 (validateAgainst_eq_none.1 h).2).2

/-- An acceptable merge into valid parameters is valid. -/
theorem Valid.merge (hlaw : RequiredLaw validator) (h : Valid validator manifest params)
    (hmerge : ValidUpdate validator manifest (merge params update)) :
    Valid validator manifest (merge params update) :=
  hmerge.valid hlaw fun key hkey => mem_keys_merge (h.keys hlaw key hkey)

end Gates

/-! ## Sessions -/

section Sessions

variable {validator : Validator} {manifest : Manifest} {s t : Session}
variable {params : Members} {delivery : Delivery}

/-- The update is refused for what the browser sent: it changes the seed, it is invalid, or its
merge with what was sent before is. -/
def RefusedAsSent (validator : Validator) (manifest : Manifest) (s : Session) (params : Members) :
    Prop :=
  seedKey ∈ keys params ∨ ¬ ValidUpdate validator manifest params ∨
    ¬ ValidUpdate validator manifest (merge s.desired.sent params)

/-- The seed does no harm to the update: when its merge with what the browser sent is
acceptable, so is the merge with the seed in place. -/
def SeedHarmless (validator : Validator) (manifest : Manifest) (s : Session) (params : Members) :
    Prop :=
  seedKey ∉ keys params → ValidUpdate validator manifest params →
    ValidUpdate validator manifest (merge s.desired.sent params) →
      ValidUpdate validator manifest (merge s.desired.params params)

/-- How an update ends. -/
theorem update_cases :
    (∃ message, s.update validator manifest params delivery = .error message) ∧
        ¬ (seedKey ∉ keys params ∧ ValidUpdate validator manifest params ∧
          ValidUpdate validator manifest (merge s.desired.params params)) ∨
      s.update validator manifest params delivery =
          .ok (s.deliver ⟨merge s.desired.params params, merge s.desired.sent params⟩ delivery) ∧
        seedKey ∉ keys params ∧ ValidUpdate validator manifest params ∧
          ValidUpdate validator manifest (merge s.desired.params params) := by
  unfold Session.update
  by_cases hseed : seedKey ∈ keys params
  · exact .inl ⟨⟨_, if_pos hseed⟩, fun h => h.1 hseed⟩
  rw [if_neg hseed]
  cases hupdate : validateParamUpdate validator manifest params with
  | some invalid =>
    refine .inl ⟨⟨invalid, rfl⟩, fun h => ?_⟩
    rw [h.2.1] at hupdate
    cases hupdate
  | none =>
    cases hmerge : validateParamUpdate validator manifest (merge s.desired.params params) with
    | some invalid =>
      refine .inl ⟨⟨invalid, by simp only [hmerge]⟩, fun h => ?_⟩
      rw [h.2.2] at hmerge
      cases hmerge
    | none => exact .inr ⟨by simp only [hmerge], hseed, hupdate, hmerge⟩

/-- An update is refused for nothing but what was sent, exactly when the seed does no harm. -/
theorem refusedAsSent_iff :
    (∀ message, s.update validator manifest params delivery = .error message →
        RefusedAsSent validator manifest s params) ↔ SeedHarmless validator manifest s params := by
  constructor
  · intro hrefused hseed hupdate hsent
    rcases update_cases with ⟨⟨message, herror⟩, -⟩ | ⟨-, -, -, hmerge⟩
    · rcases hrefused message herror with h | h | h
      · exact absurd h hseed
      · exact absurd hupdate h
      · exact absurd hsent h
    · exact hmerge
  · intro hharmless message herror
    by_contra hnot
    simp only [RefusedAsSent, not_or, not_not] at hnot
    obtain ⟨hseed, hupdate, hsent⟩ := hnot
    rcases update_cases with ⟨-, hbad⟩ | ⟨hok, -⟩
    · exact hbad ⟨hseed, hupdate, hharmless hseed hupdate hsent⟩
    · rw [hok] at herror
      cases herror

/-- Everything that the session holds is valid. -/
structure AllValid (validator : Validator) (manifest : Manifest) (s : Session) : Prop where
  effective : Valid validator manifest s.effective.params
  desired : Valid validator manifest s.desired.params
  committed : ∀ held ∈ s.committed, Valid validator manifest held.params

theorem AllValid.committedAt (h : AllValid validator manifest s) {index : Nat} {held : Held}
    (hget : s.committed[index]? = some held) : Valid validator manifest held.params :=
  h.committed held (List.mem_of_getElem? hget)

theorem AllValid.deliver (h : AllValid validator manifest s) {merged : Held}
    (hmerged : Valid validator manifest merged.params) :
    AllValid validator manifest (s.deliver merged delivery) := by
  have hconcat : ∀ held ∈ s.committed ++ [merged], Valid validator manifest held.params := by
    intro held hmem
    rw [List.mem_append, List.mem_singleton] at hmem
    rcases hmem with hmem | rfl
    · exact h.committed held hmem
    · exact hmerged
  cases delivery with
  | applied => exact ⟨hmerged, hmerged, h.committed⟩
  | mirrored => exact ⟨h.effective, hmerged, hconcat⟩
  | committed => exact ⟨h.effective, h.desired, hconcat⟩
  | refused => exact ⟨h.effective, hmerged, h.committed⟩
  | dropped => exact h

/-- No event makes what the session holds invalid. -/
theorem AllValid.after (hlaw : RequiredLaw validator) (h : AllValid validator manifest s)
    (event : Event) : AllValid validator manifest (s.after validator manifest event) := by
  cases event with
  | update params delivery =>
    rcases @update_cases validator manifest s params delivery with
      ⟨⟨message, herror⟩, -⟩ | ⟨hok, -, -, hmerge⟩
    · simp only [Session.after, herror]
      exact h
    · simp only [Session.after, hok]
      exact h.deliver (h.desired.merge hlaw hmerge)
  | opens =>
    refine ⟨h.effective, h.desired, ?_⟩
    intro held hmem
    rcases List.mem_append.1 hmem with hmem | hmem
    · exact h.committed held hmem
    · rw [List.mem_singleton.1 hmem]
      exact h.desired
  | publishes command =>
    refine ⟨?_, h.desired, h.committed⟩
    show Valid validator manifest ((s.committed[command]?).getD s.effective).params
    cases hget : s.committed[command]? with
    | none => exact h.effective
    | some held => exact h.committedAt hget
  | replaces command =>
    have hdesired : Valid validator manifest
        ((command.bind fun index => s.committed[index]?).getD s.desired).params := by
      cases hget : command.bind fun index => s.committed[index]? with
      | none => exact h.desired
      | some held =>
        obtain ⟨index, -, hindex⟩ := Option.bind_eq_some_iff.1 hget
        exact h.committedAt hindex
    exact ⟨hdesired, hdesired, h.committed⟩

theorem AllValid.run (hlaw : RequiredLaw validator) (h : AllValid validator manifest s)
    (events : List Event) : AllValid validator manifest (s.run validator manifest events) := by
  induction events generalizing s with
  | nil => exact h
  | cons event rest ih => exact ih (h.after hlaw event)

/-- An admitted open makes a session with what it sent, valid, and the seed put in. -/
theorem openSession_eq_some {opening : Option Json} {drawn : Fin sessionSeedBound}
    (h : openSession validator manifest opening drawn = some s) :
    ∃ sent, openingParams opening = some sent ∧ Valid validator manifest sent ∧
      s = ⟨⟨withSeed sent drawn, sent⟩, ⟨withSeed sent drawn, sent⟩, []⟩ := by
  unfold openSession at h
  obtain ⟨sent, hsent, h⟩ := Option.bind_eq_some_iff.1 h
  split at h
  · cases h
  · next hvalid =>
    cases h
    exact ⟨sent, hsent, not_not.1 hvalid, rfl⟩

end Sessions

/-- The parameters of the session stay valid, and each update is refused only for what the
browser sent. -/
structure Editable (validator : Validator) (manifest : Manifest) (s : Session)
    (events : List Event) : Prop where
  /-- The seed does not make what the session holds invalid. -/
  seed : ∀ front, front <+: events →
    let now := s.run validator manifest front
    (Valid validator manifest now.desired.sent → Valid validator manifest now.desired.params) ∧
      (Valid validator manifest now.effective.sent → Valid validator manifest now.effective.params)
  desired : ∀ front, front <+: events →
    Valid validator manifest (s.run validator manifest front).desired.params
  refused : ∀ front params delivery message, front ++ [.update params delivery] <+: events →
    (s.run validator manifest front).update validator manifest params delivery = .error message →
      RefusedAsSent validator manifest (s.run validator manifest front) params

/-- A session's parameters stay valid and editable exactly when they are valid with the seed
the API puts in at the open, and the seed does no harm to any update. -/
theorem parameters_editable (validator : Validator) (hlaw : RequiredLaw validator)
    (manifest : Manifest) (opening : Option Json) (drawn : Fin sessionSeedBound) (s : Session)
    (hopen : openSession validator manifest opening drawn = some s) (events : List Event) :
    Editable validator manifest s events ↔
      Valid validator manifest s.desired.params ∧
        ∀ front params delivery, front ++ [.update params delivery] <+: events →
          SeedHarmless validator manifest (s.run validator manifest front) params := by
  constructor
  · intro h
    refine ⟨h.desired [] List.nil_prefix, fun front params delivery hprefix => ?_⟩
    rw [← @refusedAsSent_iff _ _ _ _ delivery]
    exact fun message => h.refused front params delivery message hprefix
  · rintro ⟨hseeded, hharmless⟩
    obtain ⟨sent, -, -, rfl⟩ := openSession_eq_some hopen
    -- one invariant gives the first two: all that is held is valid
    have hall : ∀ front, AllValid validator manifest
        (Session.run validator manifest ⟨_, _, []⟩ front) :=
      fun front => AllValid.run hlaw ⟨hseeded, hseeded, by simp⟩ front
    refine ⟨fun front _ => ⟨fun _ => (hall front).desired, fun _ => (hall front).effective⟩,
      fun front _ => (hall front).desired, ?_⟩
    intro front params delivery message hprefix herror
    exact refusedAsSent_iff.2 (hharmless front params delivery hprefix) message herror

section Sample

/-- The keys that a schema's `properties` name. -/
def properties (schema : Members) : List Text :=
  match get? schema "properties" with
  | some (.obj members) => keys members
  | _ => []

/-- A validator that knows `required`, and `additionalProperties: false`. -/
def sampleValidator : Validator := fun schema params =>
  if (required schema).any fun key => key ∉ keys params then
    .invalid "a required property is missing"
  else
    match get? schema "additionalProperties" with
    | some (.bool false) =>
      if (keys params).all fun key => key ∈ properties schema then .valid
      else .invalid "Additional properties are not allowed"
    | _ => .valid

theorem get?_withoutRequired {schema : Members} {name : String} (hname : name ≠ "required") :
    get? (withoutRequired schema) name = get? schema name := by
  unfold get? withoutRequired
  rw [List.find?_filter]
  congr 2
  funext member
  by_cases h : member.1 = .scalars name
  · simp [h, hname]
  · simp [h]

theorem required_withoutRequired (schema : Members) : required (withoutRequired schema) = [] := by
  have hnone : get? (withoutRequired schema) "required" = none := by
    unfold get? withoutRequired
    rw [List.find?_filter, Option.map_eq_none_iff, List.find?_eq_none]
    intro member _
    simp
  rw [required, hnone]

theorem sampleValidator_law : RequiredLaw sampleValidator := by
  intro schema params
  have hproperties : properties (withoutRequired schema) = properties schema := by
    rw [properties, properties, get?_withoutRequired (by decide)]
  unfold sampleValidator
  rw [required_withoutRequired, get?_withoutRequired (by decide), hproperties]
  by_cases hmissing : (required schema).any fun key => key ∉ keys params
  · rw [if_pos hmissing]
    obtain ⟨key, hkey, hnot⟩ := List.any_eq_true.1 hmissing
    have hout : key ∉ keys params := by simpa using hnot
    constructor
    · intro h
      cases h
    · rintro ⟨-, hall⟩
      exact absurd (hall key hkey) hout
  · rw [if_neg hmissing]
    have hall : ∀ key ∈ required schema, key ∈ keys params := by simpa using hmissing
    simp only [List.any_nil, Bool.false_eq_true, if_false]
    exact (and_iff_left hall).symm

/-- A schema that asks for a prompt, with these properties, and allows no other. -/
def sampleManifest (names : List String) : Manifest where
  id := "vega-rt"
  capabilities := ["realtime"]
  parameters :=
    [(.scalars "properties", .obj (names.map fun name => (.scalars name, .obj []))),
      (.scalars "required", .arr [.str (.scalars "prompt")]),
      (.scalars "additionalProperties", .bool false)]

def samplePrompt (prompt : String) : Members := [(.scalars "prompt", .str (.scalars prompt))]

def sampleDrawn : Fin sessionSeedBound := ⟨7, by decide⟩

/-- The session of an open with a prompt. -/
def sampleSession : Session :=
  let held : Held := ⟨withSeed (samplePrompt "a house") sampleDrawn, samplePrompt "a house"⟩
  ⟨held, held, []⟩

theorem parameters_editable_sample :
    Editable sampleValidator (sampleManifest ["prompt", "seed"]) sampleSession
      [.update (samplePrompt "a boat") .applied] := by
  refine (parameters_editable sampleValidator sampleValidator_law
    (sampleManifest ["prompt", "seed"]) (some (.obj (samplePrompt "a house"))) sampleDrawn
    sampleSession (by rfl) _).2 ⟨by decide +kernel, ?_⟩
  intro front params delivery hprefix
  cases front with
  | nil =>
    obtain ⟨heq, -⟩ := List.cons_prefix_cons.1 hprefix
    cases heq
    intro _ _ _
    decide +kernel
  | cons event front =>
    have hnil := (List.cons_prefix_cons.1 hprefix).2
    exact absurd (List.prefix_nil.1 hnil) (by simp)

/-- Without `seed` among the properties, the open's own seed makes the session's parameters
invalid, and every update is refused. -/
theorem seed_refuses_update :
    ¬ ∀ (validator : Validator), RequiredLaw validator → ∀ (manifest : Manifest)
        (opening : Option Json) (drawn : Fin sessionSeedBound) (s : Session),
      openSession validator manifest opening drawn = some s →
        ∀ events, Editable validator manifest s events := by
  intro hall
  have heditable := hall sampleValidator sampleValidator_law (sampleManifest ["prompt"])
    (some (.obj (samplePrompt "a house"))) sampleDrawn sampleSession (by rfl)
    [.update (samplePrompt "a boat") .applied]
  have hmessage : sampleSession.update sampleValidator (sampleManifest ["prompt"])
      (samplePrompt "a boat") .applied = .error "Additional properties are not allowed" := by rfl
  have hrefused := heditable.refused [] _ _ _ List.prefix_rfl hmessage
  rcases hrefused with h | h | h
  · exact absurd h (by decide +kernel)
  · exact h (by decide +kernel)
  · exact h (by decide +kernel)

end Sample

end Potocolom.Parameters
