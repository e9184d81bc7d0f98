import Potocolom.Drawing.Accepted

/-! # What the writer of drawing files writes

A file of valid operations is read back, with its colours in small letters; and a file that was
accepted, of any version, is written again within the same limits. -/

namespace Potocolom.Drawing

open Guard Json

variable {fraction : ℚ → String}

/-! ## Operations -/

theorem validateShape_toJson {operation : ShapeOperation} {totalPoints : Nat}
    (hvalid : (Operation.shape operation).Valid) (hle : totalPoints + 2 ≤ MAX_POINTS) :
    validateShape 4 [("kind", .string "shape"), ("id", .string operation.id),
      ("shape", .string operation.shape.text), ("color", .string operation.color),
      ("size", .number operation.size),
      ("points", .array [operation.points.1.toJson, operation.points.2.toJson])]
      operation.id totalPoints = .ok ((Operation.shape operation).lower, totalPoints + 2) := by
  obtain ⟨-, hhex, hsize, hstart, hstop⟩ := hvalid
  have hcolor : validateColor (some (.string operation.color)) "invalid shape color" =
      .ok operation.color.toLower := validateColor_ok.2 ⟨_, rfl, hhex, rfl⟩
  have hsized : validateSize (some (.number operation.size)) "invalid shape size" =
      .ok operation.size := validateSize_ok.2 ⟨rfl, hsize⟩
  have hcount : addPoints totalPoints 2 = .ok (totalPoints + 2) := addPoints_ok.2 ⟨hle, rfl⟩
  have hversion : (2 : ℚ) ≤ 4 := by decide
  simp [validateShape, get?, demand, require, hversion, text?, hcolor, hsized, hcount, items?,
    validatePoint_toJson hstart, validatePoint_toJson hstop, Operation.lower]

theorem validateEraseRegion_toJson {id : String} {points : List DrawingPoint} {totalPoints : Nat}
    (hvalid : (Operation.eraseRegion id points).Valid)
    (hle : totalPoints + points.length ≤ MAX_POINTS) :
    validateEraseRegion 4 [("kind", .string "erase-region"), ("id", .string id),
      ("points", .array (points.map DrawingPoint.toJson))] id totalPoints =
        .ok (.eraseRegion id points, totalPoints + points.length) := by
  obtain ⟨-, hfew, hmany, hpoints⟩ := hvalid
  have hcount : addPoints totalPoints points.length = .ok (totalPoints + points.length) :=
    addPoints_ok.2 ⟨hle, rfl⟩
  have hversion : (3 : ℚ) ≤ 4 := by decide
  simp [validateEraseRegion, get?, demand, require, hversion, hcount, items?, hfew, hmany,
    validatePoints_toJson hpoints]

theorem validateStroke_toJson {operation : StrokeOperation} {totalPoints : Nat}
    (hvalid : (Operation.stroke operation).Valid)
    (hle : totalPoints + operation.points.length ≤ MAX_POINTS) :
    validateStroke 4 [("kind", .string "stroke"), ("id", .string operation.id),
      ("mode", .string operation.mode.text), ("color", .string operation.color),
      ("size", .number operation.size),
      ("points", .array (operation.points.map DrawingPoint.toJson))] operation.id totalPoints =
        .ok ((Operation.stroke operation).lower, totalPoints + operation.points.length) := by
  obtain ⟨-, hhex, herase, hsize, hne, hpoints⟩ := hvalid
  have hcolor : validateColor (some (.string operation.color)) "invalid stroke color" =
      .ok operation.color.toLower := validateColor_ok.2 ⟨_, rfl, hhex, rfl⟩
  have hsized : validateSize (some (.number operation.size)) "invalid stroke size" =
      .ok operation.size := validateSize_ok.2 ⟨rfl, hsize⟩
  have hcount : addPoints totalPoints operation.points.length =
      .ok (totalPoints + operation.points.length) := addPoints_ok.2 ⟨hle, rfl⟩
  simp [validateStroke, get?, demand, require, text?, hcolor, hsized, hcount, items?, hne,
    validatePoints_toJson hpoints, Operation.lower]
  exact herase

theorem validateOperation_toJson {operation : Operation} {ids : List String} {totalPoints : Nat}
    (hvalid : operation.Valid) (hnew : operation.id ∉ ids)
    (hle : totalPoints + operation.pointCount ≤ MAX_POINTS) :
    validateOperation 4 ids totalPoints operation.toJson =
      .ok (operation.lower, totalPoints + operation.pointCount) := by
  have hid : validateOperationId (some (.string operation.id)) ids = .ok operation.id :=
    validateOperationId_ok.2 ⟨rfl, hvalid.id, hnew⟩
  cases operation with
  | clear id =>
    have hid' : validateOperationId (some (.string id)) ids = .ok id := hid
    simp [validateOperation, Operation.toJson, members?, get?, demand, require, text?, hid',
      Operation.lower, Operation.pointCount]
  | shape operation =>
    have hid' : validateOperationId (some (.string operation.id)) ids = .ok operation.id := hid
    have hrest := validateShape_toJson hvalid hle
    simpa [validateOperation, Operation.toJson, members?, get?, demand, require, text?, hid',
      Operation.pointCount] using hrest
  | eraseRegion id points =>
    have hid' : validateOperationId (some (.string id)) ids = .ok id := hid
    have hrest := validateEraseRegion_toJson hvalid hle
    simpa [validateOperation, Operation.toJson, members?, get?, demand, require, text?, hid',
      Operation.pointCount, Operation.lower] using hrest
  | stroke operation =>
    have hid' : validateOperationId (some (.string operation.id)) ids = .ok operation.id := hid
    have hrest := validateStroke_toJson hvalid hle
    simpa [validateOperation, Operation.toJson, members?, get?, demand, require, text?, hid',
      Operation.pointCount] using hrest

theorem validateOperations_toJson {operations : List Operation} {ids : List String}
    {totalPoints : Nat} (hvalid : ∀ operation ∈ operations, operation.Valid)
    (hdistinct : (operations.map Operation.id).Nodup)
    (hfresh : ∀ operation ∈ operations, operation.id ∉ ids)
    (hle : totalPoints + pointTotal operations ≤ MAX_POINTS) :
    validateOperations 4 ids totalPoints (operations.map Operation.toJson) =
      .ok (operations.map Operation.lower) := by
  induction operations generalizing ids totalPoints with
  | nil => rfl
  | cons operation operations ih =>
    rw [List.map_cons, List.nodup_cons] at hdistinct
    unfold pointTotal at hle
    rw [List.map_cons, List.sum_cons] at hle
    have hfirst : validateOperation 4 ids totalPoints operation.toJson =
        .ok (operation.lower, totalPoints + operation.pointCount) := by
      apply validateOperation_toJson (hvalid operation List.mem_cons_self)
      · exact hfresh operation List.mem_cons_self
      · omega
    have hrest : validateOperations 4 (operation.lower.id :: ids)
        (totalPoints + operation.pointCount) (operations.map Operation.toJson) =
          .ok (operations.map Operation.lower) := by
      apply ih
      · exact fun other hother => hvalid other (List.mem_cons_of_mem _ hother)
      · exact hdistinct.2
      · intro other hother hin
        rcases List.mem_cons.1 hin with heq | hin
        · rw [Operation.lower_id] at heq
          exact hdistinct.1 (heq ▸ List.mem_map_of_mem hother)
        · exact hfresh other (List.mem_cons_of_mem _ hother) hin
      · unfold pointTotal
        omega
    rw [List.map_cons, validateOperations, hfirst]
    simp only [bind, Except.bind]
    rw [hrest]
    rfl

/-- A region with a pressure is not read back. -/
theorem validateOperations_pressure {operations operations' : List Operation} {ids : List String}
    {totalPoints : Nat}
    (h : validateOperations 4 ids totalPoints (operations.map Operation.toJson) =
      .ok operations') {id : String} {points : List DrawingPoint}
    (hmem : .eraseRegion id points ∈ operations) : ∀ point ∈ points, point.pressure = none := by
  induction operations generalizing ids totalPoints operations' with
  | nil => exact absurd hmem List.not_mem_nil
  | cons operation operations ih =>
    simp only [List.map_cons, validateOperations, bind_eq_ok, pure_eq_ok] at h
    obtain ⟨⟨first, total⟩, hfirst, rest, hrest, -⟩ := h
    rcases List.mem_cons.1 hmem with rfl | hmem
    · simp only [validateOperation, Operation.toJson, members?, demand, bind_eq_ok] at hfirst
      obtain ⟨members, hmembers, kind, hkind, id', -, hfirst⟩ := hfirst
      cases hmembers
      cases hkind
      rw [if_neg (by decide), if_neg (by decide), if_pos rfl] at hfirst
      simp only [validateEraseRegion, bind_eq_ok, demand_eq_ok, bind_items?] at hfirst
      obtain ⟨-, -, region, hregion, -, -, -, -, points', hpoints, -⟩ := hfirst
      cases hregion
      exact validatePoints_pressure hpoints
    · exact ih hrest hmem

/-! ## Files -/

theorem isSafeInteger_nat {n : Nat} (h : n ≤ 2 ^ 53 - 1) : isSafeInteger (n : ℚ) = true := by
  have hden : (n : ℚ).den = 1 := Rat.den_natCast n
  have hnum : (n : ℚ).num = n := Rat.num_natCast n
  unfold isSafeInteger
  rw [hden, hnum, Int.natAbs_natCast]
  simpa using h

theorem validateCursor_nat {cursor operations : Nat} (hle : cursor ≤ operations)
    (hmany : operations ≤ MAX_OPERATIONS) :
    validateCursor (some (.number cursor)) operations = .ok cursor := by
  have hsafe : isSafeInteger (cursor : ℚ) = true := by
    apply isSafeInteger_nat
    have hmax : MAX_OPERATIONS ≤ 2 ^ 53 - 1 := by decide
    omega
  have hpositive : (0 : ℚ) ≤ cursor := Nat.cast_nonneg cursor
  have hbound : (cursor : ℚ) ≤ operations := Nat.cast_le.2 hle
  simp [validateCursor, demand, require, number?, hsafe, hpositive, hbound]

theorem validateCursor_ok {input : Option Json} {operations cursor : Nat}
    (h : validateCursor input operations = .ok cursor) :
    input = some (.number cursor) ∧ cursor ≤ operations := by
  simp only [validateCursor, bind_eq_ok, demand_eq_ok, bind_number?, require_eq_ok,
    pure_eq_ok] at h
  obtain ⟨n, hinput, -, ⟨hsafe, hpositive, hle⟩, rfl⟩ := h
  unfold isSafeInteger at hsafe
  rw [Bool.and_eq_true, decide_eq_true_eq, decide_eq_true_eq] at hsafe
  have hcast : ((n.num.toNat : Nat) : ℚ) = n := by
    have hnum : ((n.num.toNat : Nat) : Int) = n.num :=
      Int.toNat_of_nonneg (Rat.num_nonneg.2 hpositive)
    have hint : ((n.num : Int) : ℚ) = n := (Rat.den_eq_one_iff n).1 hsafe.1
    calc ((n.num.toNat : Nat) : ℚ) = ((n.num.toNat : Int) : ℚ) := (Int.cast_natCast _).symm
      _ = ((n.num : Int) : ℚ) := by rw [hnum]
      _ = n := hint
  refine ⟨by rw [hcast]; exact hinput, ?_⟩
  rw [← hcast] at hle
  exact Nat.cast_le.1 hle

/-- What the newest version of the format may hold. -/
structure DrawingFile.Valid (fraction : ℚ → String) (file : DrawingFile) : Prop where
  operations : ∀ operation ∈ file.operations, operation.Valid
  distinct : (file.operations.map Operation.id).Nodup
  cursor : file.cursor ≤ file.operations.length
  count : file.operations.length ≤ MAX_OPERATIONS
  points : pointTotal file.operations ≤ MAX_POINTS
  bytes : file.toJson.bytes fraction ≤ DRAWING_FILE_MAX_BYTES

def DrawingFile.lower (file : DrawingFile) : DrawingFile :=
  { file with operations := file.operations.map Operation.lower }

/-- A file that may be written is read back. -/
theorem validateDrawingFile_toJson {file : DrawingFile} (h : file.Valid fraction) :
    validateDrawingFile fraction file.toJson = .ok file.lower := by
  have hoperations : validateOperations 4 [] 0 (file.operations.map Operation.toJson) =
      .ok (file.operations.map Operation.lower) := by
    apply validateOperations_toJson h.operations h.distinct
    · exact fun _ _ => List.not_mem_nil
    · rw [Nat.zero_add]
      exact h.points
  have hcursor := validateCursor_nat h.cursor h.count
  have hbytes := h.bytes
  unfold DrawingFile.toJson at hbytes
  simp [validateDrawingFile, DrawingFile.toJson, hbytes, members?, validateVersion, get?, demand,
    require, number?, items?, h.count, hcursor, hoperations, DrawingFile.lower]

variable (fraction) in
theorem numberBytes_version {version : ℚ}
    (h : version = 1 ∨ version = 2 ∨ version = 3 ∨ version = 4) :
    numberBytes fraction version = numberBytes fraction 4 := by
  rcases h with rfl | rfl | rfl | rfl
  · rfl
  · rfl
  · rfl
  · rfl

/-- A file that is accepted, of any version, can be written by the newest one. -/
theorem validateDrawingFile_ok {input : Json} {file : DrawingFile}
    (h : validateDrawingFile fraction input = .ok file) :
    file.Valid fraction ∧ file.lower = file := by
  simp only [validateDrawingFile, validateVersion, bind_eq_ok, require_eq_ok, demand_eq_ok,
    members?_eq, bind_number?, bind_items?, pure_eq_ok] at h
  obtain ⟨-, hbytes, members, rfl, _, ⟨version, hversion, -, hsupported, -, hwidth, -, hheight,
    rfl⟩, rawOperations, hraw, -, hcount, cursor, hcursor, operations, hoperations, rfl⟩ := h
  obtain ⟨hinput, hcursorLe⟩ := validateCursor_ok hcursor
  have hread := validateOperations_ok fraction hoperations
  have hlength : operations.length = rawOperations.length := by
    rw [← hread.bytes.length_eq, List.length_map]
  constructor
  · refine ⟨hread.valid, hread.distinct, ?_, ?_, ?_, ?_⟩
    · rw [hlength]
      exact hcursorLe
    · rw [hlength]
      exact hcount
    · have hbound := hread.bound (Nat.zero_le _)
      rw [Nat.zero_add] at hbound
      exact hbound
    · -- the file with the operations as they were read is no larger than the one given
      have hwhole : (Json.object [("version", .number version), ("width", .number 512),
          ("height", .number 512), ("operations", .array rawOperations),
          ("cursor", .number cursor)]).bytes fraction ≤
            (Json.object members).bytes fraction := by
        apply bytes_ge (by simp)
        simp only [List.mem_cons, List.not_mem_nil, or_false, forall_eq_or_imp, forall_eq]
        exact ⟨hversion, hwidth, hheight, hraw, hinput⟩
      refine Nat.le_trans ?_ (Nat.le_trans hwhole hbytes)
      unfold DrawingFile.toJson
      apply object_bytes_le (by simp)
      have harray := array_bytes_le hread.bytes
      have hfour := numberBytes_version fraction hsupported
      simp only [membersBytes, Json.bytes, hfour] at harray ⊢
      omega
  · show DrawingFile.mk (operations.map Operation.lower) cursor = ⟨operations, cursor⟩
    rw [hread.lower]

end Potocolom.Drawing
