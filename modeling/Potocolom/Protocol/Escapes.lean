import Potocolom.Protocol.FailClosed

/-! # The frames that escape

The exact list of frames on which `validate_message` and `decode_control` raise
something else than `Protocol6Error`, and the proof that there are no others. -/

namespace Potocolom.Protocol

open Guard

variable {platform : Platform} {members : Members} {kind : Text} {worker : Option String}
  {incarnation : Option Uuid}

/-! ## Kinds -/

theorem checkCommandAck_closed (htypes : validateTypes (.scalars "") (.obj members) = .ok ()) :
    FailsClosed (checkCommandAck members) := by
  have hstatus : (value members "status").hashable = true := by
    unfold value
    cases hget : get? members "status" with
    | none => rfl
    | some v =>
      have hstr := (checkField_eq_ok (field_checked htypes hget)).2.2 (by decide)
      cases v with
      | str text => rfl
      | null | bool _ | int _ | float _ | arr _ | obj _ => cases hstr
  unfold checkCommandAck
  refine raisesOnly_bind.2 ⟨inSet_closed_iff.2 hstatus, fun _ _ => ?_⟩
  refine raisesOnly_bind.2 ⟨require_closed, fun _ _ => ?_⟩
  exact raisesOnly_bind.2 ⟨require_closed, fun _ _ => require_closed⟩

/-- A measurement of the observation is too large an integer. -/
def GpuOverflows (gpu : Members) : Prop :=
  (∃ power, get? gpu "power_w" = some power ∧ power.overflows = true) ∨
    (checkPower gpu = .ok () ∧
      ∃ temperature, get? gpu "temperature_c" = some temperature ∧ temperature.overflows = true)

theorem checkMeasurement_closed_iff {gpu : Members} {name : String} {admits : Json → Bool} :
    FailsClosed (checkMeasurement gpu name admits) ↔
      ¬ ∃ measured, get? gpu name = some measured ∧ measured.overflows = true := by
  unfold checkMeasurement
  cases hget : get? gpu name with
  | none => simp
  | some measured =>
    refine checkNumber_closed_iff.trans ?_
    simp

theorem checkGpu_closed_iff {gpu : Members} :
    FailsClosed (checkGpu (.obj gpu)) ↔ ¬ GpuOverflows gpu := by
  unfold checkGpu
  refine raisesOnly_bind.trans ?_
  unfold GpuOverflows
  constructor
  · rintro ⟨hpower, htemperature⟩ hover
    rcases hover with hover | ⟨hok, hover⟩
    · exact checkMeasurement_closed_iff.1 hpower hover
    · exact checkMeasurement_closed_iff.1 (htemperature () hok) hover
  · intro hnot
    refine ⟨checkMeasurement_closed_iff.2 fun hover => hnot (.inl hover), fun _ hok => ?_⟩
    exact checkMeasurement_closed_iff.2 fun hover => hnot (.inr ⟨hok, hover⟩)

theorem checkHeartbeat_closed_iff :
    FailsClosed (checkHeartbeat members) ↔
      ∀ gpu, samplesValid (value members "frame_p95_ms") = true →
        gpuShapeValid (value members "gpu") = true → value members "gpu" = .obj gpu →
          ¬ GpuOverflows gpu := by
  unfold checkHeartbeat
  refine raisesOnly_bind.trans ?_
  constructor
  · rintro ⟨-, h⟩ gpu hsamples hshape hgpu
    have hrest := (raisesOnly_bind.1 (h () (require_eq_ok.2 hsamples))).2 ()
      (require_eq_ok.2 hshape)
    rw [hgpu] at hrest
    exact checkGpu_closed_iff.1 hrest
  · intro h
    refine ⟨require_closed, fun _ hsamples => ?_⟩
    refine raisesOnly_bind.2 ⟨require_closed, fun _ hshape => ?_⟩
    cases hgpu : value members "gpu" with
    | obj gpu =>
      exact checkGpu_closed_iff.2 (h gpu (require_eq_ok.1 hsamples) (require_eq_ok.1 hshape) hgpu)
    | null | bool _ | int _ | float _ | str _ | arr _ => exact raisesOnly_pure ()

/-- The components lack a chunk list, and the lists looked up before it are as
they should be. -/
def MissingChunks (components : Members) : Prop :=
  ∃ before key after, chunkFields = before ++ key :: after ∧
    (∀ earlier ∈ before, checkChunks components earlier = .ok ()) ∧
    has components key = false

theorem item_closed_iff {name : String} :
    FailsClosed (item members name) ↔ has members name = true := by
  unfold item has
  refine raisesOnly_demand.trans ?_
  cases get? members name <;> simp [not_isProtocol6_keyError]

theorem checkChunks_closed_iff {components : Members} {key : String} :
    FailsClosed (checkChunks components key) ↔ has components key = true := by
  unfold checkChunks
  refine raisesOnly_bind.trans ?_
  constructor
  · rintro ⟨h, -⟩
    exact item_closed_iff.1 h
  · intro h
    exact ⟨item_closed_iff.2 h, fun _ _ => require_closed⟩

set_option maxRecDepth 4000 in
theorem checkClassId_closed (hshape : checkShape (.scalars "class_prepared") members = .ok ()) :
    FailsClosed (checkClassId platform members) := by
  have hcomponents : ∃ v, get? members "class_components" = some v :=
    field_of_row shapes_class hshape rfl (by decide)
  have hid : ∃ v, get? members "class_id" = some v :=
    field_of_row shapes_class hshape rfl (by decide)
  unfold checkClassId
  refine raisesOnly_bind.2 ⟨item_closed hcomponents, fun v _ => ?_⟩
  split
  · refine raisesOnly_bind.2 ⟨item_closed hid, fun _ _ => ?_⟩
    refine raisesOnly_bind.2 ⟨canonicalHash_closed _, fun _ _ => ?_⟩
    exact raisesOnly_bind.2 ⟨require_closed, fun _ _ => raisesOnly_pure _⟩
  · exact raisesOnly_throw.2 (isProtocol6_protocol6 _)

theorem checkClass_closed_iff (hshape : checkShape (.scalars "class_prepared") members = .ok ()) :
    FailsClosed (checkClass platform members) ↔
      ∀ components, checkClassId platform members = .ok components →
        ¬ MissingChunks components := by
  unfold checkClass
  refine raisesOnly_bind.trans ?_
  constructor
  · rintro ⟨-, h⟩ components hid ⟨before, key, after, hfields, hbefore, hmissing⟩
    have hchunks := raisesOnly_forM.1 (h components hid) before key after hfields hbefore
    rw [checkChunks_closed_iff.1 hchunks] at hmissing
    cases hmissing
  · intro h
    refine ⟨checkClassId_closed hshape, fun components hid => ?_⟩
    refine raisesOnly_forM.2 fun before key after hfields hbefore => ?_
    refine checkChunks_closed_iff.2 ?_
    by_contra hmissing
    exact h components hid ⟨before, key, after, hfields, hbefore, by simpa using hmissing⟩

theorem checkNested_closed (htypes : validateTypes (.scalars "") (.obj members) = .ok ())
    {name : String} (hname : (Text.scalars name).isIn nestedFields = true)
    (hhas : has members name = true) : FailsClosed (checkNested members name) := by
  unfold checkNested
  refine raisesOnly_bind.2 ⟨item_closed_iff.2 hhas, fun v hv => ?_⟩
  rw [nested_checked htypes (item_eq_ok.1 hv) hname]
  exact raisesOnly_ok ()

theorem checkPredecessor_closed_iff {report : Members}
    (hjson : checkJson 0 (.obj members) = .ok ())
    (hshape : checkShape (.scalars "predecessor_report") members = .ok ())
    (htypes : validateTypes (.scalars "") (.obj members) = .ok ()) :
    FailsClosed (checkPredecessor members report) ↔ (value report "type").hashable = true := by
  unfold checkPredecessor
  refine raisesOnly_bind.trans ?_
  constructor
  · rintro ⟨h, -⟩
    exact inSet_closed_iff.1 h
  · intro h
    refine ⟨inSet_closed_iff.2 h, fun _ _ => ?_⟩
    refine raisesOnly_bind.2 ⟨require_closed, fun _ _ => ?_⟩
    refine raisesOnly_bind.2 ⟨demand_closed, fun _ _ => ?_⟩
    obtain ⟨id, hid⟩ : ∃ v, get? members "worker_id" = some v :=
      field_of_row shapes_predecessor hshape rfl (by decide)
    refine raisesOnly_bind.2 ⟨item_closed ⟨id, hid⟩, fun id' hid' => ?_⟩
    have heq := item_eq_ok.1 hid'
    have hstr := (checkField_eq_ok (field_checked htypes heq)).2.2 (by decide)
    exact raisesOnly_bind.2
      ⟨asString_closed (asString_of_isStr hjson heq hstr), fun _ _ => raisesOnly_pure _⟩

theorem checkPredecessor_eq_ok {report : Members} {peer : String × Uuid}
    (h : checkPredecessor members report = .ok peer) :
    (value report "type").strWith ["checkpoint", "worker_drained"].contains = true := by
  unfold checkPredecessor at h
  obtain ⟨final, hfinal, h⟩ := bind_eq_ok.1 h
  obtain ⟨_, hrequire, -⟩ := bind_eq_ok.1 h
  rw [(inSet_eq_ok.1 hfinal).2]
  exact require_eq_ok.1 hrequire

/-! ## Messages -/

/-- The messages on which `validate_message` raises an exception of its
operations instead of `Protocol6Error`. -/
inductive Escapes (platform : Platform) (worker : Option String) (incarnation : Option Uuid)
    (members : Members) : Prop
  /-- A category score or a progress no float holds. -/
  | score (kind : Text) :
      kindOf? members = some kind → checkJson 0 (.obj members) = .ok () →
      checkShape kind members = .ok () →
      OverflowsFirst (visits (.scalars "") (.obj members)) →
      Escapes platform worker incarnation members
  /-- A power draw or a temperature no float holds. -/
  | measurement (gpu : Members) :
      kindOf? members = some (.scalars "heartbeat") →
      checkEnvelope platform (.scalars "heartbeat") members worker incarnation = .ok () →
      samplesValid (value members "frame_p95_ms") = true →
      gpuShapeValid (value members "gpu") = true → value members "gpu" = .obj gpu →
      GpuOverflows gpu → Escapes platform worker incarnation members
  /-- A predecessor's report whose type is a list or a dict. -/
  | reportType (report : Members) :
      kindOf? members = some (.scalars "predecessor_report") →
      checkEnvelope platform (.scalars "predecessor_report") members worker incarnation = .ok () →
      get? members "report" = some (.obj report) → (value report "type").hashable = false →
      Escapes platform worker incarnation members
  /-- A predecessor's report with a score no float holds. -/
  | reportScore (report : Members) (kind : Text) :
      kindOf? members = some (.scalars "predecessor_report") →
      checkEnvelope platform (.scalars "predecessor_report") members worker incarnation = .ok () →
      get? members "report" = some (.obj report) → kindOf? report = some kind →
      kind.isIn ["checkpoint", "worker_drained"] = true → checkJson 0 (.obj report) = .ok () →
      checkShape kind report = .ok () →
      OverflowsFirst (visits (.scalars "") (.obj report)) →
      Escapes platform worker incarnation members
  /-- A class whose components lack a chunk list. -/
  | chunks (components : Members) :
      kindOf? members = some (.scalars "class_prepared") →
      checkEnvelope platform (.scalars "class_prepared") members worker incarnation = .ok () →
      checkClassId platform members = .ok components → MissingChunks components →
      Escapes platform worker incarnation members

theorem Text.isIn_singleton {text : Text} {s : String} :
    text.isIn [s] = true ↔ text = .scalars s := by
  simp [Text.isIn_iff]

theorem onlyIf_skip {c : Prop} [Decidable c] {x : Except Raised Unit} (h : ¬ c) :
    onlyIf c x = .ok () :=
  if_neg h

theorem onlyIf_closed_of_not {c : Prop} [Decidable c] {x : Except Raised Unit} (h : ¬ c) :
    FailsClosed (onlyIf c x) :=
  raisesOnly_onlyIf.2 fun hc => absurd hc h

/-- A message escapes where its common checks do. -/
theorem envelope_of_closed (hkind : kindOf? members = some kind)
    (h : FailsClosed (validateMessage platform (.obj members) worker incarnation)) :
    FailsClosed (checkEnvelope platform kind members worker incarnation) := by
  rw [validateMessage, hkind] at h
  exact (raisesOnly_bind.1 ((raisesOnly_bind.1 h).2 kind rfl)).1

/-- The two kinds a predecessor's report may have escape in the common checks only. -/
theorem report_closed_iff (hkind : kindOf? members = some kind)
    (hreport : kind.isIn ["checkpoint", "worker_drained"] = true) :
    FailsClosed (validateMessage platform (.obj members) worker incarnation) ↔
      FailsClosed (checkEnvelope platform kind members worker incarnation) := by
  constructor
  · exact envelope_of_closed hkind
  · intro h
    have hnot : ∀ names : List String, "checkpoint" ∉ names → "worker_drained" ∉ names →
        ¬ kind.isIn names = true := by
      intro names hcheckpoint hdrained hin
      obtain ⟨s, hs, rfl⟩ := Text.isIn_iff.1 hreport
      obtain ⟨s', hs', heq⟩ := Text.isIn_iff.1 hin
      injection heq with heq
      subst heq
      rcases List.mem_cons.1 hs with rfl | hs
      · exact hcheckpoint hs'
      · rw [List.mem_singleton.1 hs] at hs'
        exact hdrained hs'
    rw [validateMessage, hkind]
    refine raisesOnly_bind.2 ⟨raisesOnly_ok kind, ?_⟩
    rintro _ ⟨⟩
    refine raisesOnly_bind.2 ⟨h, fun _ _ => ?_⟩
    refine raisesOnly_bind.2
      ⟨onlyIf_closed_of_not (hnot _ (by decide) (by decide)), fun _ _ => ?_⟩
    refine raisesOnly_bind.2
      ⟨onlyIf_closed_of_not (hnot _ (by decide) (by decide)), fun _ _ => ?_⟩
    refine raisesOnly_bind.2
      ⟨onlyIf_closed_of_not (hnot _ (by decide) (by decide)), fun _ _ => ?_⟩
    refine raisesOnly_bind.2
      ⟨raisesOnly_onlyIf.2 fun _ => checkInventory_closed members, fun _ _ => ?_⟩
    refine raisesOnly_bind.2
      ⟨onlyIf_closed_of_not (hnot _ (by decide) (by decide)), fun _ _ => ?_⟩
    refine raisesOnly_bind.2
      ⟨onlyIf_closed_of_not (hnot _ (by decide) (by decide)), fun _ _ => ?_⟩
    refine raisesOnly_bind.2
      ⟨onlyIf_closed_of_not fun hc => hnot _ (by decide) (by decide) hc.1, fun _ _ => ?_⟩
    exact onlyIf_closed_of_not (hnot _ (by decide) (by decide))

end Potocolom.Protocol
