import Potocolom.Protocol.Validate

/-! # Accepted messages are in the catalogue

What acceptance by `validate_message` says about a message: a row of its kind
fits its fields, and the digest its kind carries is the digest of the rest. -/

namespace Potocolom.Protocol

open Guard

variable {platform : Platform} {members : Members} {kind : Text} {worker : Option String}
  {incarnation : Option Uuid}

/-! ## What the single checks establish -/

/-- A message of a row: it has the required fields, and every field it has is
required or declared. The empty name is not a field of the protocol, and this
says nothing about it. -/
structure Row.Admits (row : Row) (members : Members) : Prop where
  required : ∀ name ∈ row.requiredKeys, has members name = true
  declared : ∀ key ∈ keys members, key ≠ .scalars "" →
    ∃ s, key = .scalars s ∧ (s ∈ row.requiredKeys ∨ s ∈ row.declaredOptional)

theorem Row.admits_of_fits {row : Row} (h : row.fits (keys members) = true) :
    row.Admits members := by
  rw [Row.fits_iff] at h
  constructor
  · intro name hname
    exact has_iff.2 (h.1 name hname)
  · intro key hkey hne
    rcases h.2 key hkey with ⟨s, hs, rfl⟩
    refine ⟨s, rfl, ?_⟩
    rcases List.mem_append.1 hs with hreq | hopt
    · exact .inl hreq
    · rcases Row.mem_optionalKeys hopt with hempty | hdecl
      · exact absurd (by rw [hempty]) hne
      · exact .inr hdecl

theorem checkShape_eq_ok :
    checkShape kind members = .ok () ↔ ∃ row ∈ shapes kind, row.fits (keys members) = true := by
  unfold checkShape
  rw [require_eq_ok, List.any_eq_true]

/-- The field holds the SHA-256 of the canonical bytes of the other fields. -/
def Digested (platform : Platform) (members : Members) (field : String) : Prop :=
  ∃ bytes, canonicalBytes platform (.obj (without field members)) = .ok bytes ∧
    value members field = .str (.scalars (platform.sha256 bytes))

theorem Json.strWith_iff {p : String → Bool} {v : Json} :
    v.strWith p = true ↔ ∃ s, v = .str (.scalars s) ∧ p s = true := by
  rcases v with _ | _ | _ | _ | t | _ | _
  case str => cases t <;> simp [Json.strWith]
  all_goals simp [Json.strWith]

theorem Json.equals_iff {v : Json} {text : String} :
    v.equals text = true ↔ v = .str (.scalars text) := by
  unfold Json.equals
  rw [Json.strWith_iff]
  constructor
  · rintro ⟨s, rfl, hs⟩
    rw [of_decide_eq_true hs]
  · rintro rfl
    exact ⟨text, rfl, decide_eq_true rfl⟩

theorem checkDigest_eq_ok {field : String} {u : Unit} :
    checkDigest platform members field = .ok u ↔ Digested platform members field := by
  unfold checkDigest canonicalHash Digested
  simp only [bind_eq_ok, pure_eq_ok, require_eq_ok, Json.equals_iff]
  constructor
  · rintro ⟨hash, ⟨bytes, hbytes, rfl⟩, hfield⟩
    exact ⟨bytes, hbytes, hfield⟩
  · rintro ⟨bytes, hbytes, hfield⟩
    exact ⟨_, ⟨bytes, hbytes, rfl⟩, hfield⟩

theorem checkEnvelope_eq_ok :
    checkEnvelope platform kind members worker incarnation = .ok () ↔
      checkJson 0 (.obj members) = .ok () ∧ checkShape kind members = .ok () ∧
        validateTypes (.scalars "") (.obj members) = .ok () ∧
        (kind.isIn ["store_status"] = true → checkDownloads members = .ok ()) ∧
        checkPeer kind members worker incarnation = .ok () ∧
        (kind.isIn bodyHashKinds = true → Digested platform members "body_hash") ∧
        (kind.isIn reportHashKinds = true → Digested platform members "report_hash") := by
  unfold checkEnvelope
  simp only [bind_eq_ok, onlyIf_eq_ok, checkDigest_eq_ok]
  constructor
  · rintro ⟨_, hjson, _, hshape, _, htypes, _, hdownloads, _, hpeer, _, hbody, hreport⟩
    exact ⟨hjson, hshape, htypes, hdownloads, hpeer, hbody, hreport⟩
  · rintro ⟨hjson, hshape, htypes, hdownloads, hpeer, hbody, hreport⟩
    exact ⟨(), hjson, (), hshape, (), htypes, (), hdownloads, (), hpeer, (), hbody, hreport⟩

theorem kindOf?_eq_some {text : Text} :
    kindOf? members = some text ↔ get? members "type" = some (.str text) := by
  unfold kindOf?
  split
  · next kind' h => rw [h]; simp
  · next h =>
    constructor
    · intro hkind
      cases hkind
    · intro hget
      exact absurd hget (h text)

/-- Acceptance goes through the kind and the checks common to all messages. -/
theorem envelope_of_accepted
    (h : validateMessage platform (.obj members) worker incarnation = .ok ()) :
    ∃ kind, kindOf? members = some kind ∧
      checkEnvelope platform kind members worker incarnation = .ok () := by
  rw [validateMessage] at h
  obtain ⟨kind, hkind, h⟩ := bind_eq_ok.1 h
  obtain ⟨_, henvelope, _⟩ := bind_eq_ok.1 h
  exact ⟨kind, demand_eq_ok.1 hkind, henvelope⟩

/-! ## The catalogue is closed -/

/-- An accepted message is one of a row of its kind: it has all fields the row
requires and no field the row does not name. A command carries the digest of its
body, and a report that of its contents. -/
theorem accepted_closed
    (h : validateMessage platform (.obj members) worker incarnation = .ok ()) :
    ∃ kind row, value members "type" = .str (.scalars kind) ∧ row ∈ shapeRows ∧
      row.kind = kind ∧ row.Admits members ∧
      (kind ∈ bodyHashKinds → Digested platform members "body_hash") ∧
      (kind ∈ reportHashKinds → Digested platform members "report_hash") := by
  obtain ⟨kind, hkind, henvelope⟩ := envelope_of_accepted h
  obtain ⟨_, hshape, _, _, _, hbody, hreport⟩ := checkEnvelope_eq_ok.1 henvelope
  obtain ⟨row, hrow, hfits⟩ := checkShape_eq_ok.1 hshape
  obtain ⟨hmem, hkindRow⟩ := mem_shapes.1 hrow
  have htype : value members "type" = .str kind := by
    unfold value
    rw [kindOf?_eq_some.1 hkind]
    rfl
  subst hkindRow
  refine ⟨row.kind, row, htype, hmem, rfl, Row.admits_of_fits hfits, ?_, ?_⟩
  · intro hin
    exact hbody (Text.isIn_iff.2 ⟨row.kind, hin, rfl⟩)
  · intro hin
    exact hreport (Text.isIn_iff.2 ⟨row.kind, hin, rfl⟩)

/-! ## Messages without a digest of their own -/

theorem checkShape_of_row {row : Row} (index : Nat) (hrow : shapeRows[index]? = some row)
    (hkind : Text.scalars row.kind = kind) (hfits : row.fits (keys members) = true) :
    checkShape kind members = .ok () :=
  checkShape_eq_ok.2 ⟨row, mem_shapes.2 ⟨List.mem_of_getElem? hrow, hkind⟩, hfits⟩

/-- A kind that carries no digest passes the common checks on its fields alone. -/
theorem checkEnvelope_of_plain
    (hkind : kind.isIn ("store_status" :: bodyHashKinds ++ reportHashKinds) = false)
    (hjson : checkJson 0 (.obj members) = .ok ()) (hshape : checkShape kind members = .ok ())
    (htypes : validateTypes (.scalars "") (.obj members) = .ok ())
    (hpeer : checkPeer kind members worker incarnation = .ok ()) :
    checkEnvelope platform kind members worker incarnation = .ok () := by
  have hnot : ∀ names : List String,
      (∀ s ∈ names, s ∈ "store_status" :: bodyHashKinds ++ reportHashKinds) →
        kind.isIn names ≠ true := by
    intro names hsub hin
    obtain ⟨s, hs, hkind'⟩ := Text.isIn_iff.1 hin
    have := Text.isIn_iff.2 ⟨s, hsub s hs, hkind'⟩
    rw [hkind] at this
    cases this
  rw [checkEnvelope_eq_ok]
  refine ⟨hjson, hshape, htypes, ?_, hpeer, ?_, ?_⟩
  · intro h
    exact absurd h (hnot _ (by simp))
  · intro h
    exact absurd h (hnot _ (by simp +contextual))
  · intro h
    exact absurd h (hnot _ (by simp +contextual))

/-- The answer to a hello that fell back to protocol 5. -/
def fallbackRegistered : Members :=
  [(.scalars "type", .str (.scalars "registered")), (.scalars "protocol_version", .int 5)]

theorem fallbackRegistered_accepted :
    validateMessage platform (.obj fallbackRegistered) none none = .ok () := by
  have hshape : checkShape (.scalars "registered") fallbackRegistered = .ok () :=
    checkShape_of_row 46 rfl rfl (by decide +kernel)
  have henvelope : checkEnvelope platform (.scalars "registered") fallbackRegistered none
      none = .ok () :=
    checkEnvelope_of_plain (by decide +kernel) rfl hshape (by decide +kernel) rfl
  have hkind : kindOf? fallbackRegistered = some (.scalars "registered") := by decide +kernel
  rw [validateMessage, hkind]
  simp [demand, henvelope, onlyIf, Text.isIn]

/-- The fallback answer is one of its row. -/
theorem accepted_closed_sample :
    ∃ kind row, value fallbackRegistered "type" = .str (.scalars kind) ∧ row ∈ shapeRows ∧
      row.kind = kind ∧ row.Admits fallbackRegistered :=
  have haccepted : validateMessage ⟨fun _ => "", fun _ => 0, fun _ => "", 1000⟩
      (.obj fallbackRegistered) none none = .ok () := fallbackRegistered_accepted
  have ⟨kind, row, htype, hrow, hkind, hadmits, _⟩ := accepted_closed haccepted
  ⟨kind, row, htype, hrow, hkind, hadmits⟩

/-- A worker's acknowledgement of a drain. Its `body_hash` is that of the
command it answers. -/
def drainAck (hash : String) : Members :=
  [(.scalars "type", .str (.scalars "command_ack")),
   (.scalars "status", .str (.scalars "accepted")),
   (.scalars "worker_id", .str (.scalars "worker")),
   (.scalars "region", .str (.scalars "region")),
   (.scalars "incarnation", .str (.scalars "00000000-0000-4000-8000-000000000001")),
   (.scalars "grant_nonce", .str (.scalars "00000000-0000-4000-8000-000000000002")),
   (.scalars "lease_id", .str (.scalars "00000000-0000-4000-8000-000000000003")),
   (.scalars "lease_expires_at", .str (.scalars "2026-01-01T00:00:00Z")),
   (.scalars "owner_epoch", .int 1),
   (.scalars "command_id", .str (.scalars "00000000-0000-4000-8000-000000000004")),
   (.scalars "command_sequence", .int 1),
   (.scalars "body_hash", .str (.scalars hash))]

def hashOf (c : Char) : String := String.ofList (List.replicate 64 c)

/-- The acknowledgement passes whatever command it names, if the hash is one. -/
theorem drainAck_accepted_of {hash : String}
    (htypes : validateTypes (.scalars "") (.obj (drainAck hash)) = .ok ()) :
    validateMessage platform (.obj (drainAck hash)) none none = .ok () := by
  have hkeys : keys (drainAck hash) = keys (drainAck "") := rfl
  have hshape : checkShape (.scalars "command_ack") (drainAck hash) = .ok () :=
    checkShape_of_row 56 rfl rfl (by rw [hkeys]; decide +kernel)
  have henvelope : checkEnvelope platform (.scalars "command_ack") (drainAck hash) none
      none = .ok () :=
    checkEnvelope_of_plain (by decide +kernel) rfl hshape htypes rfl
  have hkind : kindOf? (drainAck hash) = some (.scalars "command_ack") := rfl
  have hack : checkCommandAck (drainAck hash) = .ok () := rfl
  rw [validateMessage, hkind]
  simp [demand, henvelope, hack, onlyIf, Text.isIn]

theorem drainAck_accepted {c : Char} (hc : c = 'a' ∨ c = 'b') :
    validateMessage platform (.obj (drainAck (hashOf c))) none none = .ok () :=
  drainAck_accepted_of (by rcases hc with rfl | rfl <;> decide +kernel)

/-- No hash function makes the digest of every accepted message right: two
acknowledgements that differ in nothing but the hash of the command they answer
are both accepted. -/
theorem ack_hash_unchecked :
    ¬ ∃ platform : Platform, ∀ members worker incarnation,
      validateMessage platform (.obj members) worker incarnation = .ok () →
        has members "body_hash" = true → Digested platform members "body_hash" := by
  rintro ⟨platform, hall⟩
  have hash_a := hall (drainAck (hashOf 'a')) none none (drainAck_accepted (.inl rfl)) rfl
  have hash_b := hall (drainAck (hashOf 'b')) none none (drainAck_accepted (.inr rfl)) rfl
  rcases hash_a with ⟨bytes, hbytes, hvalue⟩
  rcases hash_b with ⟨bytes', hbytes', hvalue'⟩
  have hrest : without "body_hash" (drainAck (hashOf 'a')) =
      without "body_hash" (drainAck (hashOf 'b')) := by
    rfl
  rw [hrest, hbytes'] at hbytes
  cases hbytes
  have hsame : value (drainAck (hashOf 'a')) "body_hash" =
      value (drainAck (hashOf 'b')) "body_hash" := by
    rw [hvalue, hvalue']
  have hfield : ∀ c, value (drainAck (hashOf c)) "body_hash" = .str (.scalars (hashOf c)) := by
    intro c
    rfl
  rw [hfield, hfield] at hsame
  have hne : hashOf 'a' ≠ hashOf 'b' := by decide
  injection hsame with htext
  injection htext with htext
  exact hne htext

end Potocolom.Protocol
