import Mathlib

/-! # The operations of a drawing

A drawing is a journal of operations: strokes, shapes, erased regions and clears. Numbers are
taken exact; a point has a pressure only where a pen reported one. -/

namespace Potocolom.Drawing

structure DrawingPoint where
  x : ℚ
  y : ℚ
  pressure : Option ℚ
deriving DecidableEq

inductive DrawingTool where
  | draw
  | erase
  | line
  | rectangle
  | ellipse
deriving DecidableEq

structure GestureStyle where
  tool : DrawingTool
  color : String
  size : ℚ
deriving DecidableEq

inductive Mode where
  | draw
  | erase
deriving DecidableEq

inductive Shape where
  | line
  | rectangle
  | ellipse
deriving DecidableEq

structure StrokeOperation where
  id : String
  mode : Mode
  color : String
  size : ℚ
  points : List DrawingPoint
deriving DecidableEq

structure ShapeOperation where
  id : String
  shape : Shape
  color : String
  size : ℚ
  points : DrawingPoint × DrawingPoint
deriving DecidableEq

inductive Operation where
  | stroke (operation : StrokeOperation)
  | shape (operation : ShapeOperation)
  | eraseRegion (id : String) (points : List DrawingPoint)
  | clear (id : String)
deriving DecidableEq

def Operation.id : Operation → String
  | .stroke operation => operation.id
  | .shape operation => operation.id
  | .eraseRegion id _ => id
  | .clear id => id

/-- How many points of a drawing file the operation takes. -/
def Operation.pointCount : Operation → Nat
  | .stroke operation => operation.points.length
  | .shape _ => 2
  | .eraseRegion _ points => points.length
  | .clear _ => 0

/-- A shape's points are its corners, never brush samples. -/
def shapePoint (point : DrawingPoint) : DrawingPoint := ⟨point.x, point.y, none⟩

def PAPER : String := "#ffffff"

/-! ## Ids -/

/-- A run of digits, and more of them behind hyphens. -/
def digitRuns : Bool → List Char → Bool
  | seen, [] => seen
  | seen, c :: rest =>
    if c.isDigit then digitRuns true rest else c = '-' && seen && digitRuns false rest

/-- `OPERATION_ID` -/
def isOperationId (id : String) : Bool :=
  id.toList.take 10 = "operation-".toList && digitRuns false (id.toList.drop 10)

/-- `newOperationId`, for the four numbers drawn. -/
def newOperationId (a b c d : UInt32) : String :=
  "operation-" ++ toString a.toNat ++ "-" ++ toString b.toNat ++ "-" ++ toString c.toNat ++ "-" ++
    toString d.toNat

theorem digitRuns_digits {digits rest : List Char} (h : ∀ c ∈ digits, c.isDigit = true)
    (hne : digits ≠ []) (seen : Bool) :
    digitRuns seen (digits ++ rest) = digitRuns true rest := by
  induction digits generalizing seen with
  | nil => exact absurd rfl hne
  | cons c digits ih =>
    have hc : c.isDigit = true := h c List.mem_cons_self
    rw [List.cons_append, digitRuns, if_pos hc]
    cases digits with
    | nil => rfl
    | cons d digits =>
      exact ih (fun x hx => h x (List.mem_cons_of_mem c hx)) (List.cons_ne_nil _ _) true

theorem digitRuns_number (n : Nat) (rest : List Char) (seen : Bool) :
    digitRuns seen ((toString n).toList ++ rest) = digitRuns true rest := by
  have htext : (toString n).toList = Nat.toDigits 10 n := Nat.toList_repr
  rw [htext]
  apply digitRuns_digits
  · exact fun c hc => Nat.isDigit_of_mem_toDigits (by decide) (by decide) hc
  · exact Nat.toDigits_ne_nil

theorem digitRuns_hyphen (rest : List Char) :
    digitRuns true ('-' :: rest) = digitRuns false rest := by
  rw [digitRuns, if_neg (by decide)]
  simp

theorem toList_newOperationId (a b c d : UInt32) :
    (newOperationId a b c d).toList = "operation-".toList ++ ((toString a.toNat).toList ++
      '-' :: ((toString b.toNat).toList ++ '-' :: ((toString c.toNat).toList ++
        '-' :: ((toString d.toNat).toList ++ [])))) := by
  have hhyphen : "-".toList = ['-'] := rfl
  unfold newOperationId
  simp only [String.toList_append, hhyphen, List.append_assoc, List.cons_append, List.nil_append,
    List.append_nil]

theorem isOperationId_new (a b c d : UInt32) : isOperationId (newOperationId a b c d) = true := by
  have hlength : "operation-".toList.length = 10 := rfl
  unfold isOperationId
  rw [toList_newOperationId, ← hlength, List.take_left, List.drop_left, digitRuns_number,
    digitRuns_hyphen, digitRuns_number, digitRuns_hyphen, digitRuns_number, digitRuns_hyphen,
    digitRuns_number]
  rfl

theorem length_number (a : UInt32) : (toString a.toNat).toList.length ≤ 10 := by
  have htext : (toString a.toNat).toList = Nat.toDigits 10 a.toNat := Nat.toList_repr
  rw [htext, Nat.length_toDigits_le_iff (by decide) (by decide)]
  have := a.toNat_lt
  omega

theorem length_newOperationId (a b c d : UInt32) : (newOperationId a b c d).length ≤ 64 := by
  have ha := length_number a
  have hb := length_number b
  have hc := length_number c
  have hd := length_number d
  rw [← String.length_toList, toList_newOperationId]
  simp only [List.length_append, List.length_cons, List.length_nil, Nat.add_zero]
  have hlength : "operation-".toList.length = 10 := rfl
  omega

end Potocolom.Drawing
