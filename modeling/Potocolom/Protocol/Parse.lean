import Potocolom.Protocol.Escapes

/-! # The parser on every frame

`parse_control` answers a protocol 6 frame with a message or a `ProtocolError`,
except where decoding or validation escapes: the exact condition, and a frame of
eleven bytes that meets it. -/

namespace Potocolom.Protocol

open Guard

variable {platform : Platform} {members : Members} {kind : Text} {worker : Option String}
  {incarnation : Option Uuid}

/-! ## Every listed message escapes -/

theorem score_escapes (hkind : kindOf? members = some kind)
    (hjson : checkJson 0 (.obj members) = .ok ()) (hshape : checkShape kind members = .ok ())
    (hover : OverflowsFirst (visits (.scalars "") (.obj members))) :
    ¬ FailsClosed (validateMessage platform (.obj members) worker incarnation) := by
  intro h
  exact checkEnvelope_closed_iff.1 (envelope_of_closed hkind h) hjson hshape hover

theorem measurement_escapes {gpu : Members} (hkind : kindOf? members = some (.scalars "heartbeat"))
    (henvelope :
      checkEnvelope platform (.scalars "heartbeat") members worker incarnation = .ok ())
    (hsamples : samplesValid (value members "frame_p95_ms") = true)
    (hshape : gpuShapeValid (value members "gpu") = true) (hgpu : value members "gpu" = .obj gpu)
    (hover : GpuOverflows gpu) :
    ¬ FailsClosed (validateMessage platform (.obj members) worker incarnation) := by
  intro h
  rw [validateMessage, hkind] at h
  have h := (raisesOnly_bind.1 h).2 _ rfl
  have h := (raisesOnly_bind.1 h).2 () henvelope
  have h := (raisesOnly_bind.1 h).2 () (onlyIf_skip (by decide))
  have h := (raisesOnly_bind.1 h).2 () (onlyIf_skip (by decide))
  have hheartbeat := raisesOnly_onlyIf.1 (raisesOnly_bind.1 h).1 (by decide)
  exact checkHeartbeat_closed_iff.1 hheartbeat gpu hsamples hshape hgpu hover

/-- A predecessor report whose common checks pass goes on to its report. -/
theorem report_of_closed {report : Members}
    (hkind : kindOf? members = some (.scalars "predecessor_report"))
    (henvelope :
      checkEnvelope platform (.scalars "predecessor_report") members worker incarnation = .ok ())
    (hreport : get? members "report" = some (.obj report))
    (h : FailsClosed (validateMessage platform (.obj members) worker incarnation)) :
    FailsClosed (checkPredecessor members report) ∧
      ∀ peer, checkPredecessor members report = .ok peer →
        FailsClosed (validateMessage platform (.obj report) (some peer.1) (some peer.2)) := by
  rw [validateMessage, hkind] at h
  have h := (raisesOnly_bind.1 h).2 _ rfl
  have h := (raisesOnly_bind.1 h).2 () henvelope
  have h := (raisesOnly_bind.1 h).2 () (onlyIf_skip (by decide))
  have h := (raisesOnly_bind.1 h).2 () (onlyIf_skip (by decide))
  have h := (raisesOnly_bind.1 h).2 () (onlyIf_skip (by decide))
  have h := (raisesOnly_bind.1 h).2 () (onlyIf_skip (by decide))
  have hbranch := raisesOnly_onlyIf.1 (raisesOnly_bind.1 h).1 (by decide)
  split at hbranch
  · next report' hreport' =>
    rw [hreport] at hreport'
    cases hreport'
    have hparts := raisesOnly_bind.1 hbranch
    exact ⟨hparts.1, fun peer hpeer => hparts.2 peer hpeer⟩
  · next hother hreport' =>
    rw [hreport] at hreport'
    exact absurd (Option.some.inj hreport').symm (hother report)
  · next hnone =>
    rw [hreport] at hnone
    cases hnone

theorem chunks_escape {components : Members}
    (hkind : kindOf? members = some (.scalars "class_prepared"))
    (henvelope :
      checkEnvelope platform (.scalars "class_prepared") members worker incarnation = .ok ())
    (hid : checkClassId platform members = .ok components) (hmissing : MissingChunks components) :
    ¬ FailsClosed (validateMessage platform (.obj members) worker incarnation) := by
  intro h
  rw [validateMessage, hkind] at h
  have h := (raisesOnly_bind.1 h).2 _ rfl
  have h := (raisesOnly_bind.1 h).2 () henvelope
  have h := (raisesOnly_bind.1 h).2 () (onlyIf_skip (by decide))
  have h := (raisesOnly_bind.1 h).2 () (onlyIf_skip (by decide))
  have h := (raisesOnly_bind.1 h).2 () (onlyIf_skip (by decide))
  have h := (raisesOnly_bind.1 h).2 () (onlyIf_skip (by decide))
  have h := (raisesOnly_bind.1 h).2 () (onlyIf_skip (by decide))
  have h := (raisesOnly_bind.1 h).2 () (onlyIf_skip (by decide))
  have h := (raisesOnly_bind.1 h).2 () (onlyIf_skip fun hc => absurd hc.1 (by decide))
  have hclass := raisesOnly_onlyIf.1 h (by decide)
  have hshape := (checkEnvelope_eq_ok.1 henvelope).2.1
  exact (checkClass_closed_iff hshape).1 hclass components hid hmissing

theorem uuidOf?_of_field (hshape : checkShape (.scalars "predecessor_report") members = .ok ())
    (htypes : validateTypes (.scalars "") (.obj members) = .ok ()) :
    ∃ previous, uuidOf? (value members "previous_incarnation") = some previous := by
  obtain ⟨v, hv⟩ : ∃ v, get? members "previous_incarnation" = some v :=
    field_of_row shapes_predecessor hshape rfl (by decide)
  have huuid := (checkField_eq_ok (field_checked htypes hv)).1 (by decide)
  obtain ⟨s, rfl, hs⟩ := Json.strWith_iff.1 huuid
  refine ⟨⟨s, hs⟩, ?_⟩
  unfold value
  rw [hv]
  show (if h : isCanonicalUuid s = true then some (Uuid.mk s h) else none) = _
  rw [dif_pos hs]

/-- The peer a predecessor's report is validated against. -/
theorem checkPredecessor_of_type {report : Members}
    (hjson : checkJson 0 (.obj members) = .ok ())
    (hshape : checkShape (.scalars "predecessor_report") members = .ok ())
    (htypes : validateTypes (.scalars "") (.obj members) = .ok ())
    (hkind : kindOf? report = some kind)
    (hreport : kind.isIn ["checkpoint", "worker_drained"] = true) :
    ∃ peer, checkPredecessor members report = .ok peer := by
  obtain ⟨s, hs, rfl⟩ := Text.isIn_iff.1 hreport
  have htype : value report "type" = .str (.scalars s) := by
    unfold value
    rw [kindOf?_eq_some.1 hkind]
    rfl
  obtain ⟨previous, hprevious⟩ := uuidOf?_of_field hshape htypes
  obtain ⟨id, hid⟩ : ∃ v, get? members "worker_id" = some v :=
    field_of_row shapes_predecessor hshape rfl (by decide)
  have hstr := (checkField_eq_ok (field_checked htypes hid)).2.2 (by decide)
  obtain ⟨worker, hworker⟩ := asString_of_isStr hjson hid hstr
  refine ⟨(worker, previous), ?_⟩
  unfold checkPredecessor
  refine bind_eq_ok.2 ⟨true, inSet_eq_ok.2 ⟨by rw [htype]; rfl, ?_⟩, ?_⟩
  · rw [htype]
    simpa [Json.strWith] using hs
  · simp [hprevious, demand, item, hid, hworker, require, bind, Except.bind, pure, Except.pure]

/-- No message that escapes is closed. -/
theorem Escapes.not_closed (h : Escapes platform worker incarnation members) :
    ¬ FailsClosed (validateMessage platform (.obj members) worker incarnation) := by
  cases h with
  | score kind hkind hjson hshape hover => exact score_escapes hkind hjson hshape hover
  | measurement gpu hkind henvelope hsamples hshape hgpu hover =>
    exact measurement_escapes hkind henvelope hsamples hshape hgpu hover
  | reportType report hkind henvelope hreport htype =>
    intro hclosed
    have hparts := checkEnvelope_eq_ok.1 henvelope
    have hpredecessor := (report_of_closed hkind henvelope hreport hclosed).1
    rw [(checkPredecessor_closed_iff hparts.1 hparts.2.1 hparts.2.2.1).1 hpredecessor] at htype
    cases htype
  | reportScore report kind hkind henvelope hreport hkind' hin hjson hshape hover =>
    intro hclosed
    have hparts := checkEnvelope_eq_ok.1 henvelope
    obtain ⟨peer, hpeer⟩ := checkPredecessor_of_type hparts.1 hparts.2.1 hparts.2.2.1 hkind' hin
    have hnested := (report_of_closed hkind henvelope hreport hclosed).2 peer hpeer
    exact score_escapes hkind' hjson hshape hover hnested
  | chunks components hkind henvelope hid hmissing =>
    exact chunks_escape hkind henvelope hid hmissing

/-! ## No other message escapes -/

/-- The report of a predecessor, where it is none of the listed ones. -/
theorem predecessor_closed (hkind : kindOf? members = some (.scalars "predecessor_report"))
    (henvelope :
      checkEnvelope platform (.scalars "predecessor_report") members worker incarnation = .ok ())
    (hnot : ¬ Escapes platform worker incarnation members) {report : Members}
    (hreport : get? members "report" = some (.obj report)) :
    FailsClosed (checkPredecessor members report) ∧
      ∀ peer, checkPredecessor members report = .ok peer →
        FailsClosed (validateMessage platform (.obj report) (some peer.1) (some peer.2)) := by
  have hparts := checkEnvelope_eq_ok.1 henvelope
  constructor
  · rw [checkPredecessor_closed_iff hparts.1 hparts.2.1 hparts.2.2.1]
    by_contra htype
    exact hnot (.reportType report hkind henvelope hreport (by simpa using htype))
  · intro peer hpeer
    obtain ⟨s, htype, hs⟩ := Json.strWith_iff.1 (checkPredecessor_eq_ok hpeer)
    have hkind' : kindOf? report = some (.scalars s) := by
      rw [kindOf?_eq_some]
      unfold value at htype
      cases hget : get? report "type" with
      | none =>
        rw [hget] at htype
        cases htype
      | some v =>
        rw [hget] at htype
        exact congrArg some htype
    have hin : (Text.scalars s).isIn ["checkpoint", "worker_drained"] = true := hs
    rw [report_closed_iff hkind' hin, checkEnvelope_closed_iff]
    intro hjson hshape hover
    exact hnot (.reportScore report (.scalars s) hkind henvelope hreport hkind' hin hjson hshape
      hover)

set_option maxRecDepth 4000 in
/-- The work budget of the three kinds that carry one. -/
theorem workBudget_of_kind (hshape : checkShape kind members = .ok ())
    (hin : kind.isIn ["open_session", "dispatch_job", "resume_job"] = true) :
    ∃ v, get? members "work_budget" = some v := by
  obtain ⟨s, hs, rfl⟩ := Text.isIn_iff.1 hin
  have hs : s = "open_session" ∨ s = "dispatch_job" ∨ s = "resume_job" := by simpa using hs
  rcases hs with rfl | rfl | rfl
  · have hrow : shapes (.scalars "open_session") = [shapeRows[0]] := rfl
    exact field_of_row hrow hshape rfl (by decide)
  · have hrow : shapes (.scalars "dispatch_job") = [shapeRows[3]] := rfl
    exact field_of_row hrow hshape rfl (by decide)
  · have hrow : shapes (.scalars "resume_job") = [shapeRows[6]] := rfl
    exact field_of_row hrow hshape rfl (by decide)

theorem validate_closed (hnot : ¬ Escapes platform worker incarnation members) :
    FailsClosed (validateMessage platform (.obj members) worker incarnation) := by
  rw [validateMessage]
  refine raisesOnly_bind.2 ⟨demand_closed, fun kind hdemand => ?_⟩
  have hkind := demand_eq_ok.1 hdemand
  have henvelope : FailsClosed (checkEnvelope platform kind members worker incarnation) :=
    checkEnvelope_closed_iff.2 fun hjson hshape hover =>
      hnot (.score kind hkind hjson hshape hover)
  refine raisesOnly_bind.2 ⟨henvelope, fun _ henvelope => ?_⟩
  obtain ⟨hjson, hshape, htypes, -⟩ := checkEnvelope_eq_ok.1 henvelope
  refine raisesOnly_bind.2
    ⟨raisesOnly_onlyIf.2 fun _ => checkCommandAck_closed htypes, fun _ _ => ?_⟩
  refine raisesOnly_bind.2 ⟨raisesOnly_onlyIf.2 fun _ => require_closed, fun _ _ => ?_⟩
  refine raisesOnly_bind.2 ⟨raisesOnly_onlyIf.2 fun hin => ?_, fun _ _ => ?_⟩
  · cases Text.isIn_singleton.1 hin
    refine checkHeartbeat_closed_iff.2 ?_
    intro gpu hsamples hgpuShape hgpu hover
    exact hnot (.measurement gpu hkind henvelope hsamples hgpuShape hgpu hover)
  refine raisesOnly_bind.2
    ⟨raisesOnly_onlyIf.2 fun _ => checkInventory_closed members, fun _ _ => ?_⟩
  refine raisesOnly_bind.2 ⟨raisesOnly_onlyIf.2 fun hin => ?_, fun _ _ => ?_⟩
  · cases Text.isIn_singleton.1 hin
    split
    · next report hreport =>
      obtain ⟨hpeer, hnested⟩ := predecessor_closed hkind henvelope hnot hreport
      exact raisesOnly_bind.2 ⟨hpeer, fun peer hok => hnested peer hok⟩
    · exact raisesOnly_throw.2 (isProtocol6_protocol6 _)
    · next hnone =>
      obtain ⟨report, hreport⟩ : ∃ v, get? members "report" = some v :=
        field_of_row shapes_predecessor hshape rfl (by decide)
      rw [hreport] at hnone
      cases hnone
  refine raisesOnly_bind.2 ⟨raisesOnly_onlyIf.2 fun hin => ?_, fun _ _ => ?_⟩
  · refine checkNested_closed htypes (by decide) ?_
    exact has_eq_true.2 (workBudget_of_kind hshape hin)
  refine raisesOnly_bind.2 ⟨raisesOnly_onlyIf.2 fun hin => ?_, fun _ _ => ?_⟩
  · exact checkNested_closed htypes (by decide) hin.2
  · refine raisesOnly_onlyIf.2 fun hin => ?_
    cases Text.isIn_singleton.1 hin
    refine (checkClass_closed_iff hshape).2 ?_
    intro components hid hmissing
    exact hnot (.chunks components hkind henvelope hid hmissing)

theorem validate_closed_iff :
    FailsClosed (validateMessage platform (.obj members) worker incarnation) ↔
      ¬ Escapes platform worker incarnation members := by
  constructor
  · intro h hescapes
    exact hescapes.not_closed h
  · exact validate_closed

/-! ## Frames -/

/-- A frame on which the parser raises something else than `Protocol6Error`: it
decodes to an object whose type is a list or a dict, or to a message that
escapes. -/
def Aborts (platform : Platform) (worker : Option String) (incarnation : Option Uuid)
    (raw : Raw) : Prop :=
  (∃ members size, readControl platform raw = .ok (members, size) ∧
      (value members "type").hashable = false) ∨
    ∃ members, decodeControl platform raw = .ok members ∧
      Escapes platform worker incarnation members

theorem parse_closed_iff {raw : Raw} :
    FailsClosed (parse platform raw worker incarnation) ↔
      ¬ Aborts platform worker incarnation raw := by
  unfold parse
  refine raisesOnly_bind.trans ?_
  constructor
  · rintro ⟨hdecode, hvalidate⟩ haborts
    rcases haborts with ⟨members, size, hread, htype⟩ | ⟨members, hok, hescapes⟩
    · rw [decodeControl_closed_iff.1 hdecode members size hread] at htype
      cases htype
    · exact hescapes.not_closed (raisesOnly_bind.1 (hvalidate members hok)).1
  · intro hnot
    constructor
    · refine decodeControl_closed_iff.2 fun members size hread => ?_
      by_contra htype
      exact hnot (.inl ⟨members, size, hread, by simpa using htype⟩)
    · intro members hok
      refine raisesOnly_bind.2 ⟨validate_closed_iff.2 ?_, fun _ _ => raisesOnly_pure _⟩
      intro hescapes
      exact hnot (.inr ⟨members, hok, hescapes⟩)

/-- The failure a connection handler catches. -/
def Failure.Handled (failure : Failure) : Prop := ∃ message, failure = .protocolError message

theorem parseControl_handled_iff {raw : Raw} :
    RaisesOnly Failure.Handled (parseControl platform raw worker incarnation) ↔
      FailsClosed (parse platform raw worker incarnation) := by
  unfold parseControl
  split
  · next members hok =>
    rw [hok]
    exact ⟨fun _ => raisesOnly_ok _, fun _ => raisesOnly_ok _⟩
  · next message herror =>
    rw [herror]
    constructor
    · intro _
      exact raisesOnly_error.2 (isProtocol6_protocol6 message)
    · intro _
      exact raisesOnly_error.2 ⟨message, rfl⟩
  · next why hother herror =>
    rw [herror]
    constructor
    · intro h
      obtain ⟨message, hmessage⟩ := raisesOnly_error.1 h
      cases hmessage
    · intro h
      obtain ⟨message, hmessage⟩ := raisesOnly_error.1 h
      exact absurd hmessage (hother message)

/-- The parser fails closed on exactly the frames that do not abort it: it
returns the message or raises `Protocol6Error`, and `parse_control` passes it on
or raises the `ProtocolError` its callers catch. -/
theorem fails_closed_iff (platform : Platform) (raw : Raw) (worker : Option String)
    (incarnation : Option Uuid) :
    (FailsClosed (parse platform raw worker incarnation) ↔
        ¬ Aborts platform worker incarnation raw) ∧
      (RaisesOnly Failure.Handled (parseControl platform raw worker incarnation) ↔
        ¬ Aborts platform worker incarnation raw) := by
  constructor
  · exact parse_closed_iff
  · exact parseControl_handled_iff.trans parse_closed_iff

/-! ## The shortest frame that aborts -/

/-- An object whose type is an empty list. -/
def listTyped : String := "\x7b\"type\":[]\x7d"

theorem tokens_listTyped :
    tokens platform 0 listTyped.toList =
      [.openObject, .value (.str (.scalars "type")), .colon, .openArray, .closeArray,
        .closeObject] := by
  rfl

theorem loads_listTyped (hlimit : 2 ≤ platform.recursionLimit) :
    loads platform listTyped = .ok (.obj [(.scalars "type", .arr [])]) := by
  have houter : 0 < platform.recursionLimit := by omega
  have hinner : 1 < platform.recursionLimit := by omega
  unfold loads
  rw [tokens_listTyped]
  simp [read, readValue, enter, require, houter, hinner, readKey, place, closeArray, readComma,
    closeObject, pairs, keys, bind, Except.bind, pure, Except.pure]

/-- On every platform that reads two nested containers, a frame of eleven bytes
leaves the parser as a `TypeError`. -/
theorem unhashable_type_aborts :
    ∃ raw, ∀ platform : Platform, 2 ≤ platform.recursionLimit →
      ∀ worker incarnation,
        parseControl platform raw worker incarnation = .error (.uncaught .typeError) := by
  refine ⟨.text (.scalars listTyped), fun platform hlimit worker incarnation => ?_⟩
  have hread : readControl platform (.text (.scalars listTyped)) =
      .ok ([(.scalars "type", .arr [])], 11) := by
    unfold readControl
    refine bind_eq_ok.2 ⟨(listTyped, 11), by rfl, ?_⟩
    refine bind_eq_ok.2 ⟨(), require_eq_ok.2 (by decide), ?_⟩
    refine bind_eq_ok.2 ⟨.obj [(.scalars "type", .arr [])], ?_, by rfl⟩
    rw [loads_listTyped hlimit]
    rfl
  have hdecode : decodeControl platform (.text (.scalars listTyped)) = .error .typeError := by
    unfold decodeControl
    rw [hread]
    rfl
  unfold parseControl parse
  rw [hdecode]
  rfl

end Potocolom.Protocol
