import Potocolom.Drawing.Operation
import Potocolom.Lib.Guard

/-! # Drawing files

A drawing is saved as a JSON object and read back through `validateDrawingFile`, which checks
the whole file before anything of it is used. Files of the versions 1 to 3 lack what was added
later: shapes, erased regions, pressure. -/

namespace Potocolom.Drawing

open Guard

/-! ## JSON -/

inductive Json where
  | null
  | bool (b : Bool)
  | number (n : ℚ)
  | string (text : String)
  | array (items : List Json)
  | object (members : List (String × Json))

namespace Json

/-- A member of an object. -/
def get? (members : List (String × Json)) (key : String) : Option Json :=
  (members.find? fun member => member.1 = key).map Prod.snd

/-- `isRecord` -/
def members? : Json → Option (List (String × Json))
  | object members => some members
  | _ => none

def items? : Json → Option (List Json)
  | array items => some items
  | _ => none

def text? : Json → Option String
  | string text => some text
  | _ => none

def number? : Json → Option ℚ
  | number n => some n
  | _ => none

/-- The bytes of a character in a JSON string. -/
def charBytes (c : Char) : Nat :=
  if c ∈ ['"', '\\', '\x08', '\t', '\n', '\x0c', '\r'] then 2
  else if c.toNat < 0x20 then 6
  else c.utf8Size

def quotedBytes (text : String) : Nat := 2 + (text.toList.map charBytes).sum

/-- The bytes of a number, where `fraction` writes the ones that are no integer or too large to
be written with all their digits. -/
def numberBytes (fraction : ℚ → String) (n : ℚ) : Nat :=
  if n.den = 1 ∧ n.num.natAbs < 10 ^ 21 then (toString n.num).utf8ByteSize
  else (fraction n).utf8ByteSize

mutual

/-- `new TextEncoder().encode(JSON.stringify(input)).length` -/
def bytes (fraction : ℚ → String) : Json → Nat
  | null => 4
  | bool b => if b then 4 else 5
  | number n => numberBytes fraction n
  | string text => quotedBytes text
  | array items => 2 + (items.length - 1) + itemsBytes fraction items
  | object members => 2 + (members.length - 1) + membersBytes fraction members

def itemsBytes (fraction : ℚ → String) : List Json → Nat
  | [] => 0
  | item :: items => bytes fraction item + itemsBytes fraction items

def membersBytes (fraction : ℚ → String) : List (String × Json) → Nat
  | [] => 0
  | (key, value) :: members =>
    quotedBytes key + 1 + bytes fraction value + membersBytes fraction members

end

end Json

open Json

/-! ## Saving -/

structure DrawingFile where
  operations : List Operation
  cursor : Nat
deriving DecidableEq

def DrawingPoint.toJson (point : DrawingPoint) : Json :=
  match point.pressure with
  | none => .object [("x", .number point.x), ("y", .number point.y)]
  | some pressure =>
    .object [("x", .number point.x), ("y", .number point.y), ("pressure", .number pressure)]

def Mode.text : Mode → String
  | .draw => "draw"
  | .erase => "erase"

def Shape.text : Shape → String
  | .line => "line"
  | .rectangle => "rectangle"
  | .ellipse => "ellipse"

def Operation.toJson : Operation → Json
  | .clear id => .object [("kind", .string "clear"), ("id", .string id)]
  | .shape operation =>
    .object [("kind", .string "shape"), ("id", .string operation.id),
      ("shape", .string operation.shape.text), ("color", .string operation.color),
      ("size", .number operation.size),
      ("points", .array [operation.points.1.toJson, operation.points.2.toJson])]
  | .eraseRegion id points =>
    .object [("kind", .string "erase-region"), ("id", .string id),
      ("points", .array (points.map DrawingPoint.toJson))]
  | .stroke operation =>
    .object [("kind", .string "stroke"), ("id", .string operation.id),
      ("mode", .string operation.mode.text), ("color", .string operation.color),
      ("size", .number operation.size),
      ("points", .array (operation.points.map DrawingPoint.toJson))]

/-- The file as `JSON.stringify` writes it. -/
def DrawingFile.toJson (file : DrawingFile) : Json :=
  .object [("version", .number 4), ("width", .number 512), ("height", .number 512),
    ("operations", .array (file.operations.map Operation.toJson)),
    ("cursor", .number file.cursor)]

/-! ## Reading -/

def DRAWING_FILE_MAX_BYTES : Nat := 8 * 1024 * 1024

def MAX_OPERATIONS : Nat := 10000

def MAX_POINTS : Nat := 200000

def COORDINATE_MIN : ℚ := -1000000

def COORDINATE_MAX : ℚ := 1000000

/-- `Number.isSafeInteger` -/
def isSafeInteger (n : ℚ) : Bool := n.den = 1 && n.num.natAbs ≤ 2 ^ 53 - 1

def isHexDigit (c : Char) : Bool :=
  c.isDigit || ('a' ≤ c && c ≤ 'f') || ('A' ≤ c && c ≤ 'F')

/-- `HEX_COLOR` -/
def isHexColor (color : String) : Bool :=
  match color.toList with
  | '#' :: digits => digits.length = 6 && digits.all isHexDigit
  | _ => false

/-- `validateOperationId` -/
def validateOperationId (input : Option Json) (ids : List String) : Except String String := do
  let id ← demand (input.bind text?) "invalid operation id"
  require (id.length ≤ 64 ∧ isOperationId id ∧ id ∉ ids) "invalid operation id"
  return id

/-- A coordinate of a point, within its bounds. -/
def validateCoordinate (input : Option Json) : Except String ℚ := do
  let n ← demand (input.bind number?) "invalid drawing point"
  require (COORDINATE_MIN ≤ n ∧ n ≤ COORDINATE_MAX) "invalid drawing point"
  return n

def validatePoint (allowPressure : Bool) (input : Json) : Except String DrawingPoint := do
  let members ← demand input.members? "invalid drawing point"
  let hasPressure := (get? members "pressure").isSome
  require (hasPressure → allowPressure) "invalid drawing point"
  require (members.length = if hasPressure then 3 else 2) "invalid drawing point"
  let x ← validateCoordinate (get? members "x")
  let y ← validateCoordinate (get? members "y")
  if hasPressure then
    let pressure ← demand ((get? members "pressure").bind number?) "invalid drawing point"
    require (0 ≤ pressure ∧ pressure ≤ 1) "invalid drawing point"
    return ⟨x, y, some pressure⟩
  else return ⟨x, y, none⟩

def validatePoints (allowPressure : Bool) : List Json → Except String (List DrawingPoint)
  | [] => .ok []
  | input :: rest => do
    let point ← validatePoint allowPressure input
    let points ← validatePoints allowPressure rest
    return point :: points

/-- A colour, in small letters. -/
def validateColor (input : Option Json) (error : String) : Except String String := do
  let color ← demand (input.bind text?) error
  require (isHexColor color) error
  return color.toLower

def validateSize (input : Option Json) (error : String) : Except String ℚ := do
  let size ← demand (input.bind number?) error
  require (isSafeInteger size ∧ 1 ≤ size ∧ size ≤ 32) error
  return size

def shape? (text : String) : Option Shape :=
  if text = "line" then some .line
  else if text = "rectangle" then some .rectangle
  else if text = "ellipse" then some .ellipse
  else none

def mode? (text : String) : Option Mode :=
  if text = "draw" then some .draw else if text = "erase" then some .erase else none

/-- The points so far and these. -/
def addPoints (totalPoints points : Nat) : Except String Nat := do
  require (totalPoints + points ≤ MAX_POINTS) "drawing file has too many points"
  return totalPoints + points

def validateShape (version : ℚ) (members : List (String × Json)) (id : String)
    (totalPoints : Nat) : Except String (Operation × Nat) := do
  require (2 ≤ version ∧ members.length = 6) "invalid shape operation"
  let shape ← demand (((get? members "shape").bind text?).bind shape?) "invalid shape"
  let color ← validateColor (get? members "color") "invalid shape color"
  let size ← validateSize (get? members "size") "invalid shape size"
  let totalPoints ← addPoints totalPoints 2
  match (get? members "points").bind items? with
  | some [first, second] =>
    let start ← validatePoint false first
    let stop ← validatePoint false second
    return (.shape ⟨id, shape, color, size, (start, stop)⟩, totalPoints)
  | _ => throw "shape must have two points"

def validateEraseRegion (version : ℚ) (members : List (String × Json)) (id : String)
    (totalPoints : Nat) : Except String (Operation × Nat) := do
  require (3 ≤ version ∧ members.length = 3) "invalid erase region operation"
  let region ← demand ((get? members "points").bind items?)
    "erase region must have 3 to 512 points"
  require (3 ≤ region.length ∧ region.length ≤ 512) "erase region must have 3 to 512 points"
  let totalPoints ← addPoints totalPoints region.length
  let points ← validatePoints false region
  return (.eraseRegion id points, totalPoints)

def validateStroke (version : ℚ) (members : List (String × Json)) (id : String)
    (totalPoints : Nat) : Except String (Operation × Nat) := do
  require (members.length = 6) "invalid stroke operation"
  let mode ← demand (((get? members "mode").bind text?).bind mode?) "invalid stroke mode"
  let color ← validateColor (get? members "color") "invalid stroke color"
  require (mode = .erase → color = PAPER) "invalid erase color"
  let size ← validateSize (get? members "size") "invalid stroke size"
  let rawPoints ← demand ((get? members "points").bind items?) "stroke must have points"
  require (rawPoints.length ≠ 0) "stroke must have points"
  let totalPoints ← addPoints totalPoints rawPoints.length
  let points ← validatePoints (version = 4) rawPoints
  return (.stroke ⟨id, mode, color, size, points⟩, totalPoints)

/-- One turn of the loop over the operations. -/
def validateOperation (version : ℚ) (ids : List String) (totalPoints : Nat) (rawOperation : Json) :
    Except String (Operation × Nat) := do
  let members ← demand rawOperation.members? "invalid drawing operation"
  let kind ← demand ((get? members "kind").bind text?) "invalid drawing operation"
  let id ← validateOperationId (get? members "id") ids
  if kind = "clear" then
    require (members.length = 2) "invalid clear operation"
    return (.clear id, totalPoints)
  else if kind = "shape" then validateShape version members id totalPoints
  else if kind = "erase-region" then validateEraseRegion version members id totalPoints
  else
    require (kind = "stroke") "invalid stroke operation"
    validateStroke version members id totalPoints

def validateOperations (version : ℚ) : List String → Nat → List Json →
    Except String (List Operation)
  | _, _, [] => .ok []
  | ids, totalPoints, rawOperation :: rest => do
    let (operation, totalPoints) ← validateOperation version ids totalPoints rawOperation
    let operations ← validateOperations version (operation.id :: ids) totalPoints rest
    return operation :: operations

/-- The version of a file that is supported. -/
def validateVersion (members : List (String × Json)) : Except String ℚ := do
  let version ← demand ((get? members "version").bind number?) "unsupported drawing file"
  require (version = 1 ∨ version = 2 ∨ version = 3 ∨ version = 4) "unsupported drawing file"
  require ((get? members "width").bind number? = some 512) "unsupported drawing file"
  require ((get? members "height").bind number? = some 512) "unsupported drawing file"
  return version

def validateCursor (input : Option Json) (operations : Nat) : Except String Nat := do
  let cursor ← demand (input.bind number?) "invalid drawing cursor"
  require (isSafeInteger cursor ∧ 0 ≤ cursor ∧ cursor ≤ operations) "invalid drawing cursor"
  return cursor.num.toNat

/-- `ValidatedDrawing` is what a file holds once it is read. -/
def validateDrawingFile (fraction : ℚ → String) (input : Json) : Except String DrawingFile := do
  require (input.bytes fraction ≤ DRAWING_FILE_MAX_BYTES) "drawing file is too large"
  let members ← demand input.members? "invalid drawing file"
  let version ← validateVersion members
  let rawOperations ← demand ((get? members "operations").bind items?)
    "drawing file has too many operations"
  require (rawOperations.length ≤ MAX_OPERATIONS) "drawing file has too many operations"
  let cursor ← validateCursor (get? members "cursor") rawOperations.length
  let operations ← validateOperations version [] 0 rawOperations
  return ⟨operations, cursor⟩

end Potocolom.Drawing
