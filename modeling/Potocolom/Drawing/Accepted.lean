import Potocolom.Drawing.File

/-! # What the reader of drawing files accepts

The writer and the reader are separate code. Here the reader is described by what it lets
through: the operations it returns are valid, take as many bytes as the ones it was given, and
are accepted again, by the newest version of the format, unchanged. -/

namespace Potocolom.Drawing

open Guard Json

variable {fraction : ℚ → String}

/-! ## Colours -/

theorem hexDigit_lower : ∀ n < 128, isHexDigit (Char.ofNat n) = true →
    isHexDigit (Char.ofNat n).toLower = true ∧
      (Char.ofNat n).toLower.toLower = (Char.ofNat n).toLower ∧
      charBytes (Char.ofNat n) = 1 ∧ charBytes (Char.ofNat n).toLower = 1 := by
  decide +kernel

theorem hexDigit_bound {c : Char} (h : isHexDigit c = true) : c.toNat < 128 := by
  unfold isHexDigit Char.isDigit at h
  simp only [ge_iff_le, Bool.or_eq_true, Bool.and_eq_true, decide_eq_true_eq] at h
  rcases h with (⟨-, h⟩ | ⟨-, h⟩) | ⟨-, h⟩
  · have := UInt32.le_iff_toNat_le.1 h
    exact Nat.lt_of_le_of_lt this (by decide)
  · have := UInt32.le_iff_toNat_le.1 h
    exact Nat.lt_of_le_of_lt this (by decide)
  · have := UInt32.le_iff_toNat_le.1 h
    exact Nat.lt_of_le_of_lt this (by decide)

/-- Small letters stay, and take no more bytes. -/
theorem hexDigit_facts {c : Char} (h : isHexDigit c = true) :
    isHexDigit c.toLower = true ∧ c.toLower.toLower = c.toLower ∧ charBytes c = 1 ∧
      charBytes c.toLower = 1 := by
  have hfacts := hexDigit_lower c.toNat (hexDigit_bound h)
  rw [Char.ofNat_toNat] at hfacts
  exact hfacts h

theorem hexColor_cases {color : String} (h : isHexColor color = true) :
    ∃ digits, color.toList = '#' :: digits ∧ digits.length = 6 ∧
      ∀ c ∈ digits, isHexDigit c = true := by
  unfold isHexColor at h
  split at h
  · next digits heq =>
    rw [Bool.and_eq_true, decide_eq_true_eq, List.all_eq_true] at h
    exact ⟨digits, heq, h⟩
  · cases h

theorem toList_toLower (s : String) : s.toLower.toList = s.toList.map Char.toLower := by
  unfold String.toLower
  rw [String.toList_map]

theorem hexColor_toLower {color : String} (h : isHexColor color = true) :
    isHexColor color.toLower = true := by
  obtain ⟨digits, hlist, hlength, hdigits⟩ := hexColor_cases h
  have hlower : color.toLower.toList = '#' :: digits.map Char.toLower := by
    rw [toList_toLower, hlist]
    rfl
  unfold isHexColor
  rw [hlower]
  simp only [List.length_map, hlength, decide_true, Bool.true_and, List.all_eq_true,
    List.mem_map, forall_exists_index, and_imp]
  rintro _ c hc rfl
  exact (hexDigit_facts (hdigits c hc)).1

theorem toLower_toLower {color : String} (h : isHexColor color = true) :
    color.toLower.toLower = color.toLower := by
  obtain ⟨digits, hlist, -, hdigits⟩ := hexColor_cases h
  apply String.toList_injective
  rw [toList_toLower, toList_toLower, hlist, List.map_cons, List.map_cons, List.map_map]
  have hhash : '#'.toLower.toLower = '#'.toLower := rfl
  rw [hhash]
  congr 1
  apply List.map_congr_left
  exact fun c hc => (hexDigit_facts (hdigits c hc)).2.1

theorem sum_charBytes {chars : List Char} (h : ∀ c ∈ chars, charBytes c = 1) :
    (chars.map charBytes).sum = chars.length := by
  induction chars with
  | nil => rfl
  | cons c chars ih =>
    rw [List.map_cons, List.sum_cons, h c List.mem_cons_self,
      ih fun x hx => h x (List.mem_cons_of_mem c hx), List.length_cons]
    omega

theorem quotedBytes_toLower {color : String} (h : isHexColor color = true) :
    quotedBytes color.toLower = quotedBytes color := by
  obtain ⟨digits, hlist, -, hdigits⟩ := hexColor_cases h
  unfold quotedBytes
  rw [toList_toLower, hlist, List.map_cons, List.map_cons, List.map_cons, List.sum_cons,
    List.sum_cons]
  have hbefore : (digits.map charBytes).sum = digits.length :=
    sum_charBytes fun c hc => (hexDigit_facts (hdigits c hc)).2.2.1
  have hafter : ((digits.map Char.toLower).map charBytes).sum = digits.length := by
    rw [sum_charBytes, List.length_map]
    intro c hc
    obtain ⟨d, hd, rfl⟩ := List.mem_map.1 hc
    exact (hexDigit_facts (hdigits d hd)).2.2.2
  rw [hbefore, hafter]
  rfl

/-! ## Members -/

theorem mem_of_get? {members : List (String × Json)} {key : String} {value : Json}
    (h : get? members key = some value) : (key, value) ∈ members := by
  unfold get? at h
  obtain ⟨⟨key', value'⟩, hfind, heq⟩ := Option.map_eq_some_iff.1 h
  have hkey : key' = key := by simpa using List.find?_some hfind
  have hmem := List.mem_of_find?_eq_some hfind
  cases heq
  rw [hkey] at hmem
  exact hmem

/-- Looking up distinct keys finds distinct members. -/
theorem perm_of_get? {entries members : List (String × Json)}
    (hnodup : (entries.map Prod.fst).Nodup)
    (hget : ∀ entry ∈ entries, get? members entry.1 = some entry.2) :
    ∃ rest, members.Perm (entries ++ rest) := by
  induction entries generalizing members with
  | nil => exact ⟨members, List.Perm.refl _⟩
  | cons entry entries ih =>
    rw [List.map_cons, List.nodup_cons] at hnodup
    have hmem : entry ∈ members := mem_of_get? (hget entry List.mem_cons_self)
    obtain ⟨before, after, rfl⟩ := List.append_of_mem hmem
    have hothers : ∀ other ∈ entries, get? (before ++ after) other.1 = some other.2 := by
      intro other hother
      have hne : entry.1 ≠ other.1 := by
        intro heq
        rw [heq] at hnodup
        exact hnodup.1 (List.mem_map_of_mem hother)
      have hbefore := hget other (List.mem_cons_of_mem _ hother)
      unfold get? at hbefore ⊢
      rw [List.find?_append, List.find?_cons, decide_eq_false hne] at hbefore
      rw [List.find?_append]
      exact hbefore
    obtain ⟨rest, hrest⟩ := ih hnodup.2 hothers
    refine ⟨rest, ?_⟩
    rw [List.cons_append]
    exact List.perm_middle.trans (hrest.cons entry)

theorem membersBytes_append (a b : List (String × Json)) :
    membersBytes fraction (a ++ b) = membersBytes fraction a + membersBytes fraction b := by
  induction a with
  | nil => simp [membersBytes]
  | cons member a ih =>
    obtain ⟨key, value⟩ := member
    rw [List.cons_append, membersBytes, membersBytes, ih]
    omega

theorem membersBytes_perm {a b : List (String × Json)} (h : a.Perm b) :
    membersBytes fraction a = membersBytes fraction b := by
  induction h with
  | nil => rfl
  | cons member _ ih =>
    obtain ⟨key, value⟩ := member
    rw [membersBytes, membersBytes, ih]
  | swap member other _ =>
    obtain ⟨key, value⟩ := member
    obtain ⟨key', value'⟩ := other
    simp only [membersBytes]
    omega
  | trans _ _ ih ih' => exact ih.trans ih'

/-- An object that has these members, and perhaps more. -/
theorem bytes_ge {entries members : List (String × Json)}
    (hnodup : (entries.map Prod.fst).Nodup)
    (hget : ∀ entry ∈ entries, get? members entry.1 = some entry.2) :
    (Json.object entries).bytes fraction ≤ (Json.object members).bytes fraction := by
  obtain ⟨rest, hperm⟩ := perm_of_get? hnodup hget
  have hlength := hperm.length_eq
  rw [List.length_append] at hlength
  simp only [bytes]
  rw [membersBytes_perm hperm, membersBytes_append]
  omega

theorem itemsBytes_le {items items' : List Json}
    (h : List.Forall₂ (fun a b => a.bytes fraction ≤ b.bytes fraction) items items') :
    itemsBytes fraction items ≤ itemsBytes fraction items' := by
  induction h with
  | nil => exact Nat.le_refl _
  | cons hitem _ ih =>
    rw [itemsBytes, itemsBytes]
    omega

theorem array_bytes_le {items items' : List Json}
    (h : List.Forall₂ (fun a b => a.bytes fraction ≤ b.bytes fraction) items items') :
    (Json.array items).bytes fraction ≤ (Json.array items').bytes fraction := by
  have hitems := itemsBytes_le h
  have hlength := h.length_eq
  simp only [bytes]
  omega

/-! ## Points -/

@[simp] theorem bind_number? {input : Option Json} {n : ℚ} :
    input.bind number? = some n ↔ input = some (.number n) := by
  rw [Option.bind_eq_some_iff]
  constructor
  · rintro ⟨json, rfl, hjson⟩
    cases json with
    | number m =>
      cases hjson
      rfl
    | _ => cases hjson
  · rintro rfl
    exact ⟨_, rfl, rfl⟩

@[simp] theorem bind_text? {input : Option Json} {text : String} :
    input.bind text? = some text ↔ input = some (.string text) := by
  rw [Option.bind_eq_some_iff]
  constructor
  · rintro ⟨json, rfl, hjson⟩
    cases json with
    | string text' =>
      cases hjson
      rfl
    | _ => cases hjson
  · rintro rfl
    exact ⟨_, rfl, rfl⟩

@[simp] theorem bind_items? {input : Option Json} {items : List Json} :
    input.bind items? = some items ↔ input = some (.array items) := by
  rw [Option.bind_eq_some_iff]
  constructor
  · rintro ⟨json, rfl, hjson⟩
    cases json with
    | array items' =>
      cases hjson
      rfl
    | _ => cases hjson
  · rintro rfl
    exact ⟨_, rfl, rfl⟩

@[simp] theorem members?_eq {input : Json} {members : List (String × Json)} :
    input.members? = some members ↔ input = .object members := by
  cases input with
  | object members' => simp [members?]
  | _ => simp [members?]

def InBounds (n : ℚ) : Prop := COORDINATE_MIN ≤ n ∧ n ≤ COORDINATE_MAX

/-- A point that a file may hold, where it may have a pressure or not. -/
structure DrawingPoint.Valid (allowPressure : Bool) (point : DrawingPoint) : Prop where
  x : InBounds point.x
  y : InBounds point.y
  pressure : ∀ pressure ∈ point.pressure, allowPressure = true ∧ 0 ≤ pressure ∧ pressure ≤ 1

theorem validateCoordinate_ok {input : Option Json} {n : ℚ} :
    validateCoordinate input = .ok n ↔ input = some (.number n) ∧ InBounds n := by
  simp only [validateCoordinate, bind_eq_ok, demand_eq_ok, bind_number?, require_eq_ok,
    pure_eq_ok]
  constructor
  · rintro ⟨m, hinput, -, hbounds, rfl⟩
    exact ⟨hinput, hbounds⟩
  · rintro ⟨hinput, hbounds⟩
    exact ⟨n, hinput, (), hbounds, rfl⟩

variable (fraction) in
theorem validatePoint_ok {allowPressure : Bool} {input : Json} {point : DrawingPoint}
    (h : validatePoint allowPressure input = .ok point) :
    point.Valid allowPressure ∧ point.toJson.bytes fraction ≤ input.bytes fraction := by
  simp only [validatePoint, bind_eq_ok, demand_eq_ok, members?_eq, require_eq_ok,
    validateCoordinate_ok] at h
  obtain ⟨members, rfl, -, hallow, -, hlength, x, ⟨hx, hxbounds⟩, y, ⟨hy, hybounds⟩, h⟩ := h
  split at h
  · next hsome =>
    simp only [bind_eq_ok, demand_eq_ok, bind_number?, require_eq_ok, pure_eq_ok] at h
    obtain ⟨pressure, hpressure, -, hrange, rfl⟩ := h
    refine ⟨⟨hxbounds, hybounds, ?_⟩, bytes_ge (by simp) ?_⟩
    · intro pressure' hpressure'
      cases hpressure'
      exact ⟨hallow hsome, hrange⟩
    · simp only [List.mem_cons, List.not_mem_nil, or_false, forall_eq_or_imp, forall_eq]
      exact ⟨hx, hy, hpressure⟩
  · simp only [pure_eq_ok] at h
    subst h
    refine ⟨⟨hxbounds, hybounds, ?_⟩, bytes_ge (by simp) ?_⟩
    · intro pressure hpressure
      cases hpressure
    · simp only [List.mem_cons, List.not_mem_nil, or_false, forall_eq_or_imp, forall_eq]
      exact ⟨hx, hy⟩

theorem validatePoint_toJson {allowPressure : Bool} {point : DrawingPoint}
    (h : point.Valid allowPressure) : validatePoint allowPressure point.toJson = .ok point := by
  obtain ⟨x, y, pressure⟩ := point
  have hx : validateCoordinate (some (.number x)) = .ok x := validateCoordinate_ok.2 ⟨rfl, h.x⟩
  have hy : validateCoordinate (some (.number y)) = .ok y := validateCoordinate_ok.2 ⟨rfl, h.y⟩
  cases pressure with
  | none =>
    simp [validatePoint, DrawingPoint.toJson, members?, get?, demand, require, hx, hy]
  | some pressure =>
    obtain ⟨hallow, hrange⟩ := h.pressure pressure rfl
    simp [validatePoint, DrawingPoint.toJson, members?, get?, demand, require, hx, hy, hallow,
      hrange, number?]

theorem validatePoint_pressure {point point' : DrawingPoint}
    (h : validatePoint false point.toJson = .ok point') : point.pressure = none := by
  obtain ⟨x, y, pressure⟩ := point
  cases pressure with
  | none => rfl
  | some pressure =>
    simp [validatePoint, DrawingPoint.toJson, members?, get?, demand, require] at h

variable (fraction) in
theorem validatePoints_ok {allowPressure : Bool} {input : List Json} {points : List DrawingPoint}
    (h : validatePoints allowPressure input = .ok points) :
    (∀ point ∈ points, point.Valid allowPressure) ∧
      List.Forall₂ (fun a b => a.bytes fraction ≤ b.bytes fraction)
        (points.map DrawingPoint.toJson) input := by
  induction input generalizing points with
  | nil =>
    cases h
    exact ⟨fun _ hmem => absurd hmem List.not_mem_nil, .nil⟩
  | cons raw rest ih =>
    simp only [validatePoints, bind_eq_ok, pure_eq_ok] at h
    obtain ⟨point, hpoint, points', hpoints, rfl⟩ := h
    obtain ⟨hvalid, hbytes⟩ := validatePoint_ok fraction hpoint
    obtain ⟨hvalids, hall⟩ := ih hpoints
    refine ⟨?_, .cons hbytes hall⟩
    intro other hother
    rcases List.mem_cons.1 hother with rfl | hother
    · exact hvalid
    · exact hvalids other hother

theorem validatePoints_toJson {allowPressure : Bool} {points : List DrawingPoint}
    (h : ∀ point ∈ points, point.Valid allowPressure) :
    validatePoints allowPressure (points.map DrawingPoint.toJson) = .ok points := by
  induction points with
  | nil => rfl
  | cons point points ih =>
    rw [List.map_cons, validatePoints, validatePoint_toJson (h point List.mem_cons_self),
      ih fun other hother => h other (List.mem_cons_of_mem point hother)]
    rfl

theorem validatePoints_pressure {points points' : List DrawingPoint}
    (h : validatePoints false (points.map DrawingPoint.toJson) = .ok points') :
    ∀ point ∈ points, point.pressure = none := by
  induction points generalizing points' with
  | nil => exact fun _ hmem => absurd hmem List.not_mem_nil
  | cons point points ih =>
    simp only [List.map_cons, validatePoints, bind_eq_ok, pure_eq_ok] at h
    obtain ⟨first, hfirst, rest, hrest, -⟩ := h
    intro other hother
    rcases List.mem_cons.1 hother with rfl | hother
    · exact validatePoint_pressure hfirst
    · exact ih hrest other hother

/-! ## Operations -/

def ValidSize (size : ℚ) : Prop := isSafeInteger size = true ∧ 1 ≤ size ∧ size ≤ 32

def ValidId (id : String) : Prop := id.length ≤ 64 ∧ isOperationId id = true

/-- An operation that a file of the newest version may hold. -/
def Operation.Valid : Operation → Prop
  | .stroke operation =>
    ValidId operation.id ∧ isHexColor operation.color = true ∧
      (operation.mode = .erase → operation.color.toLower = PAPER) ∧ ValidSize operation.size ∧
      operation.points ≠ [] ∧ ∀ point ∈ operation.points, point.Valid true
  | .shape operation =>
    ValidId operation.id ∧ isHexColor operation.color = true ∧ ValidSize operation.size ∧
      operation.points.1.Valid false ∧ operation.points.2.Valid false
  | .eraseRegion id points =>
    ValidId id ∧ 3 ≤ points.length ∧ points.length ≤ 512 ∧ ∀ point ∈ points, point.Valid false
  | .clear id => ValidId id

/-- The operation with its colour in small letters. -/
def Operation.lower : Operation → Operation
  | .stroke operation => .stroke { operation with color := operation.color.toLower }
  | .shape operation => .shape { operation with color := operation.color.toLower }
  | .eraseRegion id points => .eraseRegion id points
  | .clear id => .clear id

@[simp] theorem Operation.lower_id (operation : Operation) : operation.lower.id = operation.id := by
  cases operation <;> rfl

theorem Operation.Valid.id {operation : Operation} (h : operation.Valid) :
    ValidId operation.id := by
  cases operation with
  | clear id => exact h
  | _ => exact h.1

theorem DrawingPoint.Valid.mono {allowPressure : Bool} {point : DrawingPoint}
    (h : point.Valid allowPressure) : point.Valid true :=
  ⟨h.x, h.y, fun pressure hpressure => ⟨rfl, (h.pressure pressure hpressure).2⟩⟩

theorem validateColor_ok {input : Option Json} {error color : String} :
    validateColor input error = .ok color ↔
      ∃ raw, input = some (.string raw) ∧ isHexColor raw = true ∧ raw.toLower = color := by
  simp only [validateColor, bind_eq_ok, demand_eq_ok, bind_text?, require_eq_ok, pure_eq_ok]
  constructor
  · rintro ⟨raw, hinput, -, hhex, rfl⟩
    exact ⟨raw, hinput, hhex, rfl⟩
  · rintro ⟨raw, hinput, hhex, rfl⟩
    exact ⟨raw, hinput, (), hhex, rfl⟩

theorem validateSize_ok {input : Option Json} {error : String} {size : ℚ} :
    validateSize input error = .ok size ↔ input = some (.number size) ∧ ValidSize size := by
  simp only [validateSize, bind_eq_ok, demand_eq_ok, bind_number?, require_eq_ok, pure_eq_ok]
  constructor
  · rintro ⟨n, hinput, -, hsize, rfl⟩
    exact ⟨hinput, hsize⟩
  · rintro ⟨hinput, hsize⟩
    exact ⟨size, hinput, (), hsize, rfl⟩

theorem addPoints_ok {totalPoints points total : Nat} :
    addPoints totalPoints points = .ok total ↔
      totalPoints + points ≤ MAX_POINTS ∧ total = totalPoints + points := by
  simp only [addPoints, bind_eq_ok, require_eq_ok, pure_eq_ok]
  constructor
  · rintro ⟨-, hle, rfl⟩
    exact ⟨hle, rfl⟩
  · rintro ⟨hle, rfl⟩
    exact ⟨(), hle, rfl⟩

theorem validateOperationId_ok {input : Option Json} {ids : List String} {id : String} :
    validateOperationId input ids = .ok id ↔
      input = some (.string id) ∧ ValidId id ∧ id ∉ ids := by
  simp only [validateOperationId, bind_eq_ok, demand_eq_ok, bind_text?, require_eq_ok, pure_eq_ok]
  constructor
  · rintro ⟨raw, hinput, -, ⟨hlength, hid, hnew⟩, rfl⟩
    exact ⟨hinput, ⟨hlength, hid⟩, hnew⟩
  · rintro ⟨hinput, ⟨hlength, hid⟩, hnew⟩
    exact ⟨id, hinput, (), ⟨hlength, hid, hnew⟩, rfl⟩

@[simp] theorem shape?_text (shape : Shape) : shape? shape.text = some shape := by
  cases shape <;> decide

@[simp] theorem mode?_text (mode : Mode) : mode? mode.text = some mode := by
  cases mode <;> decide

theorem bind_shape? {input : Option Json} {shape : Shape} :
    (input.bind text?).bind shape? = some shape ↔ input = some (.string shape.text) := by
  rw [Option.bind_eq_some_iff]
  constructor
  · rintro ⟨text, hinput, hshape⟩
    rw [bind_text?] at hinput
    subst hinput
    unfold shape? at hshape
    split at hshape
    · next heq =>
      cases hshape
      rw [heq]
      rfl
    · split at hshape
      · next heq =>
        cases hshape
        rw [heq]
        rfl
      · split at hshape
        · next heq =>
          cases hshape
          rw [heq]
          rfl
        · cases hshape
  · rintro rfl
    exact ⟨shape.text, rfl, shape?_text shape⟩

theorem bind_mode? {input : Option Json} {mode : Mode} :
    (input.bind text?).bind mode? = some mode ↔ input = some (.string mode.text) := by
  rw [Option.bind_eq_some_iff]
  constructor
  · rintro ⟨text, hinput, hmode⟩
    rw [bind_text?] at hinput
    subst hinput
    unfold mode? at hmode
    split at hmode
    · next heq =>
      cases hmode
      rw [heq]
      rfl
    · split at hmode
      · next heq =>
        cases hmode
        rw [heq]
        rfl
      · cases hmode
  · rintro rfl
    exact ⟨mode.text, rfl, mode?_text mode⟩

/-- What is known of an operation that was read. -/
structure Read (fraction : ℚ → String) (totalPoints : Nat) (rawOperation : Json)
    (operation : Operation) (total : Nat) : Prop where
  valid : operation.Valid
  lower : operation.lower = operation
  count : total = totalPoints + operation.pointCount
  bound : totalPoints ≤ MAX_POINTS → total ≤ MAX_POINTS
  bytes : operation.toJson.bytes fraction ≤ rawOperation.bytes fraction

theorem object_bytes_le {a b : List (String × Json)} (hlength : a.length = b.length)
    (h : membersBytes fraction a ≤ membersBytes fraction b) :
    (Json.object a).bytes fraction ≤ (Json.object b).bytes fraction := by
  simp only [Json.bytes, hlength]
  omega

variable (fraction) in
theorem validateShape_ok {version : ℚ} {members : List (String × Json)} {id : String}
    {totalPoints total : Nat} {operation : Operation}
    (hkind : get? members "kind" = some (.string "shape"))
    (hid : get? members "id" = some (.string id)) (hvalid : ValidId id)
    (h : validateShape version members id totalPoints = .ok (operation, total)) :
    Read fraction totalPoints (.object members) operation total ∧ operation.id = id := by
  simp only [validateShape, bind_eq_ok, require_eq_ok, demand_eq_ok, bind_shape?,
    validateColor_ok, validateSize_ok, addPoints_ok] at h
  obtain ⟨-, -, shape, hshape, color, ⟨raw, hcolor, hhex, rfl⟩, size, ⟨hsize, hsized⟩, points,
    ⟨hbound, rfl⟩, h⟩ := h
  split at h
  · next first second hpoints =>
    rw [bind_items?] at hpoints
    simp only [bind_eq_ok, pure_eq_ok] at h
    obtain ⟨start, hstart, stop, hstop, heq⟩ := h
    cases heq
    obtain ⟨hstartValid, hstartBytes⟩ := validatePoint_ok fraction hstart
    obtain ⟨hstopValid, hstopBytes⟩ := validatePoint_ok fraction hstop
    refine ⟨⟨?_, ?_, rfl, fun _ => hbound, ?_⟩, rfl⟩
    · exact ⟨hvalid, hexColor_toLower hhex, hsized, hstartValid, hstopValid⟩
    · show Operation.shape _ = Operation.shape _
      rw [toLower_toLower hhex]
    · have hwhole : (Json.object [("kind", .string "shape"), ("id", .string id),
          ("shape", .string shape.text), ("color", .string raw), ("size", .number size),
          ("points", .array [first, second])]).bytes fraction ≤
            (Json.object members).bytes fraction := by
        apply bytes_ge (by simp)
        simp only [List.mem_cons, List.not_mem_nil, or_false, forall_eq_or_imp, forall_eq]
        exact ⟨hkind, hid, hshape, hcolor, hsize, hpoints⟩
      refine Nat.le_trans ?_ hwhole
      unfold Operation.toJson
      apply object_bytes_le (by simp)
      have hcolors := quotedBytes_toLower hhex
      simp only [membersBytes, Json.bytes, itemsBytes, hcolors, List.length_cons, List.length_nil]
      omega
  · simp at h

theorem points_bytes_le {points : List DrawingPoint} {raw : List Json}
    (h : List.Forall₂ (fun a b => a.bytes fraction ≤ b.bytes fraction)
      (points.map DrawingPoint.toJson) raw) :
    (Json.array (points.map DrawingPoint.toJson)).bytes fraction ≤
      (Json.array raw).bytes fraction :=
  array_bytes_le h

theorem length_of_bytes {points : List DrawingPoint} {raw : List Json}
    (h : List.Forall₂ (fun a b => a.bytes fraction ≤ b.bytes fraction)
      (points.map DrawingPoint.toJson) raw) : points.length = raw.length := by
  rw [← h.length_eq, List.length_map]

variable (fraction) in
theorem validateEraseRegion_ok {version : ℚ} {members : List (String × Json)} {id : String}
    {totalPoints total : Nat} {operation : Operation}
    (hkind : get? members "kind" = some (.string "erase-region"))
    (hid : get? members "id" = some (.string id)) (hvalid : ValidId id)
    (h : validateEraseRegion version members id totalPoints = .ok (operation, total)) :
    Read fraction totalPoints (.object members) operation total ∧ operation.id = id := by
  simp only [validateEraseRegion, bind_eq_ok, require_eq_ok, demand_eq_ok, bind_items?,
    addPoints_ok, pure_eq_ok] at h
  obtain ⟨-, -, region, hregion, -, hlength, count, ⟨hbound, rfl⟩, points, hpoints, heq⟩ := h
  cases heq
  obtain ⟨hvalids, hbytes⟩ := validatePoints_ok fraction hpoints
  have hcount := length_of_bytes hbytes
  refine ⟨⟨?_, rfl, ?_, fun _ => hbound, ?_⟩, rfl⟩
  · exact ⟨hvalid, hcount ▸ hlength.1, hcount ▸ hlength.2, hvalids⟩
  · show _ = totalPoints + points.length
    rw [hcount]
  · have hwhole : (Json.object [("kind", .string "erase-region"), ("id", .string id),
        ("points", .array region)]).bytes fraction ≤ (Json.object members).bytes fraction := by
      apply bytes_ge (by simp)
      simp only [List.mem_cons, List.not_mem_nil, or_false, forall_eq_or_imp, forall_eq]
      exact ⟨hkind, hid, hregion⟩
    refine Nat.le_trans ?_ hwhole
    unfold Operation.toJson
    apply object_bytes_le (by simp)
    have harray := points_bytes_le hbytes
    simp only [membersBytes, Json.bytes] at harray ⊢
    omega

variable (fraction) in
theorem validateStroke_ok {version : ℚ} {members : List (String × Json)} {id : String}
    {totalPoints total : Nat} {operation : Operation}
    (hkind : get? members "kind" = some (.string "stroke"))
    (hid : get? members "id" = some (.string id)) (hvalid : ValidId id)
    (h : validateStroke version members id totalPoints = .ok (operation, total)) :
    Read fraction totalPoints (.object members) operation total ∧ operation.id = id := by
  simp only [validateStroke, bind_eq_ok, require_eq_ok, demand_eq_ok, bind_items?, bind_mode?,
    validateColor_ok, validateSize_ok, addPoints_ok, pure_eq_ok] at h
  obtain ⟨-, -, mode, hmode, color, ⟨raw, hcolor, hhex, rfl⟩, -, herase, size, ⟨hsize, hsized⟩,
    rawPoints, hraw, -, hne, count, ⟨hbound, rfl⟩, points, hpoints, heq⟩ := h
  cases heq
  obtain ⟨hvalids, hbytes⟩ := validatePoints_ok fraction hpoints
  have hcount := length_of_bytes hbytes
  refine ⟨⟨?_, ?_, ?_, fun _ => hbound, ?_⟩, rfl⟩
  · refine ⟨hvalid, hexColor_toLower hhex, fun herases => ?_, hsized, ?_, ?_⟩
    · show raw.toLower.toLower = PAPER
      rw [toLower_toLower hhex]
      exact herase herases
    · show points ≠ []
      rintro rfl
      exact hne hcount.symm
    · exact fun point hpoint => (hvalids point hpoint).mono
  · show Operation.stroke _ = Operation.stroke _
    rw [toLower_toLower hhex]
  · show _ = totalPoints + points.length
    rw [hcount]
  · have hwhole : (Json.object [("kind", .string "stroke"), ("id", .string id),
        ("mode", .string mode.text), ("color", .string raw), ("size", .number size),
        ("points", .array rawPoints)]).bytes fraction ≤
          (Json.object members).bytes fraction := by
      apply bytes_ge (by simp)
      simp only [List.mem_cons, List.not_mem_nil, or_false, forall_eq_or_imp, forall_eq]
      exact ⟨hkind, hid, hmode, hcolor, hsize, hraw⟩
    refine Nat.le_trans ?_ hwhole
    unfold Operation.toJson
    apply object_bytes_le (by simp)
    have hcolors := quotedBytes_toLower hhex
    have harray := points_bytes_le hbytes
    simp only [membersBytes, Json.bytes, hcolors] at harray ⊢
    omega

variable (fraction) in
theorem validateOperation_ok {version : ℚ} {ids : List String} {totalPoints total : Nat}
    {rawOperation : Json} {operation : Operation}
    (h : validateOperation version ids totalPoints rawOperation = .ok (operation, total)) :
    Read fraction totalPoints rawOperation operation total ∧ operation.id ∉ ids := by
  simp only [validateOperation, bind_eq_ok, demand_eq_ok, members?_eq, bind_text?,
    validateOperationId_ok] at h
  obtain ⟨members, rfl, kind, hkind, id, ⟨hid, hvalid, hnew⟩, h⟩ := h
  split at h
  · next heq =>
    subst heq
    simp only [bind_eq_ok, require_eq_ok, pure_eq_ok] at h
    obtain ⟨-, -, heq⟩ := h
    cases heq
    refine ⟨⟨hvalid, rfl, rfl, fun hle => hle, ?_⟩, hnew⟩
    apply bytes_ge (by simp)
    simp only [List.mem_cons, List.not_mem_nil, or_false, forall_eq_or_imp, forall_eq]
    exact ⟨hkind, hid⟩
  · split at h
    · next heq =>
      subst heq
      obtain ⟨hread, hsame⟩ := validateShape_ok fraction hkind hid hvalid h
      rw [hsame]
      exact ⟨hread, hnew⟩
    · split at h
      · next heq =>
        subst heq
        obtain ⟨hread, hsame⟩ := validateEraseRegion_ok fraction hkind hid hvalid h
        rw [hsame]
        exact ⟨hread, hnew⟩
      · simp only [bind_eq_ok, require_eq_ok] at h
        obtain ⟨-, rfl, h⟩ := h
        obtain ⟨hread, hsame⟩ := validateStroke_ok fraction hkind hid hvalid h
        rw [hsame]
        exact ⟨hread, hnew⟩

/-- The points of all operations. -/
def pointTotal (operations : List Operation) : Nat := (operations.map Operation.pointCount).sum

/-- What is known of the operations that were read. -/
structure ReadAll (fraction : ℚ → String) (ids : List String) (totalPoints : Nat)
    (rawOperations : List Json) (operations : List Operation) : Prop where
  valid : ∀ operation ∈ operations, operation.Valid
  lower : operations.map Operation.lower = operations
  distinct : (operations.map Operation.id).Nodup
  fresh : ∀ operation ∈ operations, operation.id ∉ ids
  bound : totalPoints ≤ MAX_POINTS → totalPoints + pointTotal operations ≤ MAX_POINTS
  bytes : List.Forall₂ (fun a b => a.bytes fraction ≤ b.bytes fraction)
    (operations.map Operation.toJson) rawOperations

variable (fraction) in
theorem validateOperations_ok {version : ℚ} {rawOperations : List Json} {ids : List String}
    {totalPoints : Nat} {operations : List Operation}
    (h : validateOperations version ids totalPoints rawOperations = .ok operations) :
    ReadAll fraction ids totalPoints rawOperations operations := by
  induction rawOperations generalizing ids totalPoints operations with
  | nil =>
    cases h
    constructor
    · exact fun _ hmem => absurd hmem List.not_mem_nil
    · rfl
    · exact List.nodup_nil
    · exact fun _ hmem => absurd hmem List.not_mem_nil
    · exact fun hle => hle
    · exact .nil
  | cons raw rest ih =>
    simp only [validateOperations, bind_eq_ok, pure_eq_ok] at h
    obtain ⟨⟨operation, total⟩, hread, operations', hrest, rfl⟩ := h
    obtain ⟨hfirst, hnew⟩ := validateOperation_ok fraction hread
    have hothers := ih hrest
    constructor
    · intro other hother
      rcases List.mem_cons.1 hother with rfl | hother
      · exact hfirst.valid
      · exact hothers.valid other hother
    · rw [List.map_cons, hfirst.lower, hothers.lower]
    · rw [List.map_cons, List.nodup_cons]
      refine ⟨?_, hothers.distinct⟩
      intro hmem
      obtain ⟨other, hother, heq⟩ := List.mem_map.1 hmem
      exact hothers.fresh other hother (heq ▸ List.mem_cons_self)
    · intro other hother
      rcases List.mem_cons.1 hother with rfl | hother
      · exact hnew
      · exact fun hin => hothers.fresh other hother (List.mem_cons_of_mem _ hin)
    · intro hle
      have hbound := hothers.bound (hfirst.bound hle)
      have hcount : total = totalPoints + operation.pointCount := hfirst.count
      unfold pointTotal at hbound ⊢
      rw [List.map_cons, List.sum_cons]
      dsimp only
      omega
    · exact .cons hfirst.bytes hothers.bytes

end Potocolom.Drawing
