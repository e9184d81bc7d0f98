import Potocolom.Protocol.Raises

/-! # When the parser fails closed

The control parser should raise its own error on every bad frame. It does so
except on five kinds of frames, named by `Escapes` and by a control whose type
is a list or a dict; on those a `TypeError`, a `KeyError` or an `OverflowError`
leaves `parse_control` and ends the connection handler. -/

namespace Potocolom.Protocol

open Guard

variable {platform : Platform} {members : Members} {kind : Text} {worker : Option String}
  {incarnation : Option Uuid}

/-! ## What the common checks give the later ones -/

theorem visits_head (key : Text) (v : Json) : (key, v) ∈ visits key v := by
  cases v <;> simp [visits]

theorem visits_subset {key : Text} {v : Json} {members : List (Text × Json)}
    (h : (key, v) ∈ members) : visits key v ⊆ memberVisits members := by
  induction members with
  | nil => cases h
  | cons member members ih =>
    obtain ⟨key', v'⟩ := member
    rw [memberVisits]
    rcases List.mem_cons.1 h with heq | h
    · cases heq
      exact List.subset_append_left _ _
    · exact List.subset_append_of_subset_right _ (ih h)

theorem visits_obj (members : Members) :
    visits (.scalars "") (.obj members) = (.scalars "", .obj members) :: memberVisits members := by
  rw [visits, if_pos (by decide)]

theorem checkField_empty (v : Json) : checkField (.scalars "") v = .ok () := by
  simp [checkField, Text.isIn, uuidFields, positive, nonnegative, hashFields, stringFields,
    workLimitFields, booleanFields, require, onlyIf, bind, Except.bind]

/-- A message with checked fields: every visited field passed. -/
theorem visit_checked (htypes : validateTypes (.scalars "") (.obj members) = .ok ())
    {name : String} {v : Json} (hget : get? members name = some v)
    {visit : Text × Json} (hvisit : visit ∈ visits (.scalars name) v) :
    checkVisit visit = .ok () := by
  rw [validateTypes_eq_forM, forM_eq_ok, visits_obj] at htypes
  exact htypes visit (List.mem_cons_of_mem _ (visits_subset (mem_of_get? hget) hvisit))

theorem field_checked (htypes : validateTypes (.scalars "") (.obj members) = .ok ())
    {name : String} {v : Json} (hget : get? members name = some v) :
    checkField (.scalars name) v = .ok () :=
  visit_checked htypes hget (visits_head _ _)

/-- Checking a nested object once more on its own finds nothing new. -/
theorem nested_checked (htypes : validateTypes (.scalars "") (.obj members) = .ok ())
    {name : String} {v : Json} (hget : get? members name = some v)
    (hname : (Text.scalars name).isIn nestedFields = true) :
    validateTypes (.scalars "") v = .ok () := by
  have hvisits : ∀ visit ∈ visits (.scalars name) v, checkVisit visit = .ok () :=
    fun visit => visit_checked htypes hget
  rw [validateTypes_eq_forM, forM_eq_ok]
  cases v with
  | obj inner =>
    rw [visits_obj]
    rw [visits, if_pos hname] at hvisits
    intro visit hvisit
    rcases List.mem_cons.1 hvisit with rfl | hvisit
    · exact checkField_empty _
    · exact hvisits visit (List.mem_cons_of_mem _ hvisit)
  | null | bool _ | int _ | float _ | str _ | arr _ =>
    intro visit hvisit
    simp only [visits, List.mem_singleton] at hvisit
    subst hvisit
    exact checkField_empty _

/-- What a passed field check says of the fields the later checks read. -/
theorem checkField_eq_ok {key : Text} {v : Json} (h : checkField key v = .ok ()) :
    (key.isIn uuidFields = true → v.isUuid = true) ∧
      (key.isIn positive = true → v.isCounter 1 = true) ∧
      (key.isIn stringFields = true → v.isStr = true) := by
  unfold checkField at h
  simp only [bind_eq_ok, require_eq_ok] at h
  obtain ⟨_, -, _, huuid, _, hpositive, _, -, _, -, _, hstring, -⟩ := h
  exact ⟨huuid, hpositive, hstring⟩

theorem checkJson_of_mem {depth : Nat} {members : List (Text × Json)}
    (h : checkMembers depth members = .ok ()) {key : Text} {v : Json}
    (hmem : (key, v) ∈ members) : checkJson depth v = .ok () := by
  induction members with
  | nil => cases hmem
  | cons member members ih =>
    obtain ⟨key', v'⟩ := member
    rw [checkMembers] at h
    obtain ⟨_, -, h⟩ := bind_eq_ok.1 h
    obtain ⟨_, hv, hrest⟩ := bind_eq_ok.1 h
    rcases List.mem_cons.1 hmem with heq | hmem
    · cases heq
      exact hv
    · exact ih hrest hmem

theorem checkMembers_of_checkJson {depth : Nat} (h : checkJson depth (.obj members) = .ok ()) :
    checkMembers (depth + 1) members = .ok () := by
  rw [checkJson] at h
  obtain ⟨_, -, h⟩ := bind_eq_ok.1 h
  exact h

/-- A string of an admissible message is encodable. -/
theorem asString_of_isStr (hjson : checkJson 0 (.obj members) = .ok ()) {name : String} {v : Json}
    (hget : get? members name = some v) (hstr : v.isStr = true) : ∃ s, v.asString = .ok s := by
  have hv := checkJson_of_mem (checkMembers_of_checkJson hjson) (mem_of_get? hget)
  cases v with
  | str text =>
    cases text with
    | scalars s => exact ⟨s, rfl⟩
    | surrogates points lone => cases hv
  | null | bool _ | int _ | float _ | arr _ | obj _ => cases hstr

theorem asString_of_isUuid {v : Json} (h : v.isUuid = true) : ∃ s, v.asString = .ok s := by
  obtain ⟨s, rfl, -⟩ := Json.strWith_iff.1 h
  exact ⟨s, rfl⟩

theorem has_eq_true {name : String} :
    has members name = true ↔ ∃ v, get? members name = some v :=
  Option.isSome_iff_exists

/-- A field that every row of the kind requires is there. -/
theorem field_of_shape (name : String) (hshape : checkShape kind members = .ok ())
    (hrows : ∀ row ∈ shapes kind, name ∈ row.requiredKeys) :
    ∃ v, get? members name = some v := by
  obtain ⟨row, hrow, hfits⟩ := checkShape_eq_ok.1 hshape
  exact has_eq_true.1 ((Row.admits_of_fits hfits).required name (hrows row hrow))

/-- For a kind of one row it is looked up among the characters of that row. -/
theorem field_of_row {row : Row} {chars : List Char} {name : String} (hrow : shapes kind = [row])
    (hshape : checkShape kind members = .ok ()) (hrequired : row.required = String.ofList chars)
    (hname : name ∈ splitComma [] chars) : ∃ v, get? members name = some v := by
  apply field_of_shape name hshape
  rw [hrow]
  intro r hr
  rw [List.mem_singleton.1 hr, Row.requiredKeys, hrequired, split_ofList]
  exact hname

theorem shapes_predecessor : shapes (.scalars "predecessor_report") = [shapeRows[26]] := rfl

theorem shapes_class : shapes (.scalars "class_prepared") = [shapeRows[28]] := rfl

/-! ## Inventories -/

theorem memberVisits_flat {fields : List (Text × Json)}
    (h : ∀ field ∈ fields, field.1.isIn nestedFields = false) : memberVisits fields = fields := by
  induction fields with
  | nil => rfl
  | cons field fields ih =>
    obtain ⟨key, v⟩ := field
    have hkey : key.isIn nestedFields = false := h (key, v) (by simp)
    have hvisits : visits key v = [(key, v)] := by
      cases v <;> simp [visits, hkey]
    rw [memberVisits, hvisits, ih fun field hfield => h field (by simp [hfield])]
    rfl

/-- An object whose fields all have other names than the scores and the nested
objects is checked without escape. -/
theorem validateTypes_flat_closed {fields : Members} {names : List String}
    (hkeys : ∀ key ∈ keys fields, key.isIn names = true)
    (hnames : ∀ s ∈ names, s ∉ nestedFields ∧ s ∉ scoreFields) :
    FailsClosed (validateTypes (.scalars "") (.obj fields)) := by
  have hother : ∀ field ∈ fields,
      field.1.isIn nestedFields = false ∧ field.1.isIn scoreFields = false := by
    rintro ⟨key, v⟩ hfield
    obtain ⟨s, hs, rfl⟩ := Text.isIn_iff.1 (hkeys key (List.mem_map_of_mem hfield))
    simpa [Text.isIn] using hnames s hs
  rw [validateTypes_closed_iff, visits_obj, memberVisits_flat fun field h => (hother field h).1]
  rintro ⟨before, key, score, after, hfields, -, hkey, -⟩
  have hmem : (key, score) ∈ (Text.scalars "", Json.obj fields) :: fields := by
    rw [hfields]
    simp
  rcases List.mem_cons.1 hmem with heq | hmem
  · cases heq
    exact absurd hkey (by decide)
  · have := (hother _ hmem).2
    rw [hkey] at this
    cases this

theorem asString_closed {v : Json} (h : ∃ s, v.asString = .ok s) : FailsClosed v.asString := by
  obtain ⟨s, hs⟩ := h
  rw [hs]
  exact raisesOnly_ok s

theorem item_closed {name : String} (h : ∃ v, get? members name = some v) :
    FailsClosed (item members name) := by
  obtain ⟨v, hv⟩ := h
  unfold item
  rw [hv]
  exact raisesOnly_ok v

theorem item_eq_ok {name : String} {v : Json} :
    item members name = .ok v ↔ get? members name = some v :=
  demand_eq_ok

theorem sameKeys_iff {names : List String} :
    sameKeys members names = true ↔
      (∀ name ∈ names, ∃ v, get? members name = some v) ∧
        ∀ key ∈ keys members, key.isIn names = true := by
  simp [sameKeys, has_eq_true]

theorem get?_eq_none {names : List String} {name : String}
    (hkeys : ∀ key ∈ keys members, key.isIn names = true) (hname : name ∉ names) :
    get? members name = none := by
  by_contra hsome
  obtain ⟨v, hv⟩ := Option.ne_none_iff_exists'.1 hsome
  have hmem : Text.scalars name ∈ keys members := List.mem_map_of_mem (mem_of_get? hv)
  obtain ⟨s, hs, heq⟩ := Text.isIn_iff.1 (hkeys _ hmem)
  injection heq with heq
  subst heq
  exact hname hs

/-- The kinds of final reports, with what their fields are checked for. -/
theorem reportFields_cases {kind : Json} (h : reportFields kind ≠ []) :
    (kind = .str (.scalars "session") ∧ reportFields kind = sessionReportFields) ∨
      (kind = .str (.scalars "job") ∧ reportFields kind = jobReportFields) := by
  unfold reportFields at h ⊢
  split at h
  · next hsession => exact .inl ⟨Json.equals_iff.1 hsession, by rw [if_pos hsession]⟩
  · next hsession =>
    split at h
    · next hjob => exact .inr ⟨Json.equals_iff.1 hjob, by rw [if_neg hsession, if_pos hjob]⟩
    · exact absurd rfl h

theorem field_uuid {fields : Members} {names : List String} (name : String)
    (hkeys : sameKeys fields names = true) (hname : name ∈ names)
    (htypes : validateTypes (.scalars "") (.obj fields) = .ok ())
    (huuid : name ∈ uuidFields) : ∃ v, get? fields name = some v ∧ ∃ s, v.asString = .ok s := by
  obtain ⟨v, hv⟩ := (sameKeys_iff.1 hkeys).1 name hname
  have hfield := (checkField_eq_ok (field_checked htypes hv)).1 (Text.isIn_iff.2 ⟨name, huuid, rfl⟩)
  exact ⟨v, hv, asString_of_isUuid hfield⟩

theorem field_counter {fields : Members} {names : List String} (name : String)
    (hkeys : sameKeys fields names = true) (hname : name ∈ names)
    (htypes : validateTypes (.scalars "") (.obj fields) = .ok ())
    (hpositive : name ∈ positive) : ∃ n, get? fields name = some (.int n) := by
  obtain ⟨v, hv⟩ := (sameKeys_iff.1 hkeys).1 name hname
  have hfield := (checkField_eq_ok (field_checked htypes hv)).2.1
    (Text.isIn_iff.2 ⟨name, hpositive, rfl⟩)
  cases v with
  | int n => exact ⟨n, hv⟩
  | null | bool _ | float _ | str _ | arr _ | obj _ => cases hfield

/-- The attempt of a checked report: a session names its attempt, a job its
dispatch. -/
theorem reportAttempt_closed {fields : Members} {names : List String}
    (hkeys : sameKeys fields names = true)
    (hnames : names = sessionReportFields ∨ names = jobReportFields)
    (htypes : validateTypes (.scalars "") (.obj fields) = .ok ()) :
    FailsClosed (reportAttempt fields) := by
  unfold reportAttempt
  rcases hnames with rfl | rfl
  · obtain ⟨v, hv, s, hs⟩ := field_uuid "attempt_id" hkeys (by decide) htypes (by decide)
    rw [hv]
    exact raisesOnly_bind.2 ⟨asString_closed ⟨s, hs⟩, fun _ _ => raisesOnly_pure _⟩
  · rw [get?_eq_none (sameKeys_iff.1 hkeys).2 (by decide)]
    obtain ⟨n, hn⟩ :=
      field_counter "dispatch_sequence" hkeys (by decide) htypes (by decide)
    rw [hn]
    exact raisesOnly_bind.2 ⟨raisesOnly_pure n, fun _ _ => raisesOnly_pure _⟩

theorem reportSubject_closed {fields : Members} {names : List String}
    (hkeys : sameKeys fields names = true)
    (hnames : names = sessionReportFields ∨ names = jobReportFields)
    (htypes : validateTypes (.scalars "") (.obj fields) = .ok ()) :
    FailsClosed ((get? fields "session_id").getD (value fields "job_id")).asString := by
  rcases hnames with rfl | rfl
  · obtain ⟨v, hv, hs⟩ := field_uuid "session_id" hkeys (by decide) htypes (by decide)
    rw [hv]
    exact asString_closed hs
  · obtain ⟨v, hv, hs⟩ := field_uuid "job_id" hkeys (by decide) htypes (by decide)
    rw [get?_eq_none (sameKeys_iff.1 hkeys).2 (by decide), value, hv]
    exact asString_closed hs

theorem checkReport_closed (report : Json) : FailsClosed (checkReport report) := by
  cases report with
  | obj fields =>
    unfold checkReport
    refine raisesOnly_bind.2 ⟨require_closed, fun _ hshape => ?_⟩
    obtain ⟨hkind, hkeys⟩ := require_eq_ok.1 hshape
    have hcases := reportFields_cases hkind
    have hnames : reportFields (value fields "kind") = sessionReportFields ∨
        reportFields (value fields "kind") = jobReportFields := by
      rcases hcases with ⟨-, h⟩ | ⟨-, h⟩
      · exact .inl h
      · exact .inr h
    have hother : ∀ s ∈ reportFields (value fields "kind"),
        s ∉ nestedFields ∧ s ∉ scoreFields := by
      rcases hnames with h | h <;> rw [h] <;> decide
    have hflat := validateTypes_flat_closed (sameKeys_iff.1 hkeys).2 hother
    refine raisesOnly_bind.2 ⟨hflat, fun _ htypes => ?_⟩
    have hstring : ∃ s, (value fields "kind").asString = .ok s := by
      rcases hcases with ⟨h, -⟩ | ⟨h, -⟩
      · exact ⟨"session", by rw [h]; rfl⟩
      · exact ⟨"job", by rw [h]; rfl⟩
    have hrange : "range_id" ∈ reportFields (value fields "kind") := by
      rcases hnames with h | h <;> rw [h] <;> decide
    obtain ⟨range, hget, hrangeString⟩ := field_uuid "range_id" hkeys hrange htypes (by decide)
    refine raisesOnly_bind.2 ⟨asString_closed hstring, fun _ _ => ?_⟩
    refine raisesOnly_bind.2 ⟨reportSubject_closed hkeys hnames htypes, fun _ _ => ?_⟩
    refine raisesOnly_bind.2 ⟨reportAttempt_closed hkeys hnames htypes, fun _ _ => ?_⟩
    refine raisesOnly_bind.2 ⟨item_closed ⟨range, hget⟩, fun range' hrange' => ?_⟩
    have heq : range' = range := by
      have := item_eq_ok.1 hrange'
      rw [hget] at this
      exact (Option.some.inj this).symm
    subst heq
    exact raisesOnly_bind.2 ⟨asString_closed hrangeString, fun _ _ => raisesOnly_pure _⟩
  | null | bool _ | int _ | float _ | str _ | arr _ =>
    exact raisesOnly_throw.2 (isProtocol6_protocol6 _)

theorem checkInventory_closed (members : Members) : FailsClosed (checkInventory members) := by
  unfold checkInventory
  split
  · refine raisesOnly_bind.2 ⟨raisesOnly_foldlM (fun order report => ?_) _ _, fun _ _ => ?_⟩
    · unfold addReport
      refine raisesOnly_bind.2 ⟨checkReport_closed report, fun _ _ => ?_⟩
      exact raisesOnly_bind.2 ⟨require_closed, fun _ _ => raisesOnly_pure _⟩
    · exact require_closed
  · exact raisesOnly_throw.2 (isProtocol6_protocol6 _)

/-! ## The common checks -/

theorem checkDigest_closed (field : String) : FailsClosed (checkDigest platform members field) := by
  unfold checkDigest
  exact raisesOnly_bind.2 ⟨canonicalHash_closed _, fun _ _ => require_closed⟩

theorem checkDownload_closed (entry : Json) : FailsClosed (checkDownload entry) := by
  unfold checkDownload
  split
  · refine raisesOnly_bind.2 ⟨require_closed, fun _ _ => ?_⟩
    split
    · next opId _ =>
      -- an operation id is no score, and what is inside it is not visited
      refine validateTypes_closed_iff.2 ?_
      rintro ⟨before, key, score, after, hvisits, -, hkey, -⟩
      have hone : visits (.scalars "op_id") opId = [(.scalars "op_id", opId)] := by
        cases opId <;> simp [visits, Text.isIn, nestedFields]
      have hmem : (key, score) ∈ visits (.scalars "op_id") opId := by
        rw [hvisits]
        simp
      rw [hone, List.mem_singleton] at hmem
      cases hmem
      exact absurd hkey (by decide)
    · exact raisesOnly_pure ()
  · exact raisesOnly_throw.2 (isProtocol6_protocol6 _)

theorem checkDownloads_closed (members : Members) : FailsClosed (checkDownloads members) := by
  unfold checkDownloads
  split
  · exact raisesOnly_forM_of_all fun entry _ => checkDownload_closed entry
  · exact raisesOnly_pure ()

/-- The common checks escape on a score in the fields. -/
theorem checkEnvelope_closed_iff :
    FailsClosed (checkEnvelope platform kind members worker incarnation) ↔
      (checkJson 0 (.obj members) = .ok () → checkShape kind members = .ok () →
        ¬ OverflowsFirst (visits (.scalars "") (.obj members))) := by
  unfold checkEnvelope
  refine raisesOnly_bind.trans ?_
  constructor
  · rintro ⟨-, h⟩ hjson hshape
    have htypes := (raisesOnly_bind.1 (h () hjson)).2 () hshape
    exact validateTypes_closed_iff.1 (raisesOnly_bind.1 htypes).1
  · intro h
    refine ⟨checkJson_closed 0 _, fun _ hjson => ?_⟩
    refine raisesOnly_bind.2 ⟨require_closed, fun _ hshape => ?_⟩
    refine raisesOnly_bind.2 ⟨validateTypes_closed_iff.2 (h hjson hshape), fun _ _ => ?_⟩
    refine raisesOnly_bind.2
      ⟨raisesOnly_onlyIf.2 fun _ => checkDownloads_closed members, fun _ _ => ?_⟩
    refine raisesOnly_bind.2 ⟨?_, fun _ _ => ?_⟩
    · unfold checkPeer
      exact raisesOnly_bind.2 ⟨require_closed, fun _ _ => require_closed⟩
    · refine raisesOnly_bind.2
        ⟨raisesOnly_onlyIf.2 fun _ => checkDigest_closed _, fun _ _ => ?_⟩
      exact raisesOnly_onlyIf.2 fun _ => checkDigest_closed _

end Potocolom.Protocol
