import Potocolom.Protocol.Json

/-! # Admissible values and their canonical bytes

`_check_json` bounds the nesting of a value and refuses what no JSON text
denotes: non-finite floats and strings with lone surrogates. `canonical_bytes`
encodes an admissible value with sorted keys and no white space. -/

namespace Potocolom.Protocol

open Guard

/-! ## `_check_json` -/

def tooDeep : Raised := .protocol6 "JSON value is too deeply nested"

/-- A string, or an object key, at this depth. -/
def checkText (depth : Nat) (text : Text) : Except Raised Unit := do
  require (depth ≤ 64) tooDeep
  match text with
  | .scalars _ => pure ()
  | .surrogates _ _ => throw (.protocol6 "invalid Unicode")

mutual

def checkJson (depth : Nat) (value : Json) : Except Raised Unit :=
  match value with
  | .null => require (depth ≤ 64) tooDeep
  | .bool _ => require (depth ≤ 64) tooDeep
  | .int _ => require (depth ≤ 64) tooDeep
  | .float bits => do
    require (depth ≤ 64) tooDeep
    require (isFinite bits) (.protocol6 "non-finite JSON number")
  | .str text => checkText depth text
  | .arr items => do
    require (depth ≤ 64) tooDeep
    checkItems (depth + 1) items
  | .obj members => do
    require (depth ≤ 64) tooDeep
    checkMembers (depth + 1) members

def checkItems (depth : Nat) (items : List Json) : Except Raised Unit :=
  match items with
  | [] => pure ()
  | item :: items => do
    checkJson depth item
    checkItems depth items

def checkMembers (depth : Nat) (members : List (Text × Json)) : Except Raised Unit :=
  match members with
  | [] => pure ()
  | (key, item) :: members => do
    checkText depth key
    checkJson depth item
    checkMembers depth members

end

/-! ## `canonical_bytes` -/

def hexChar (n : Nat) : Char := if n < 10 then Char.ofNat (48 + n) else Char.ofNat (87 + n)

/-- One character of a string, escaped only where JSON demands it. -/
def escape (c : Char) : List Char :=
  if c = '"' then ['\\', '"']
  else if c = '\\' then ['\\', '\\']
  else if c = '\n' then ['\\', 'n']
  else if c = '\r' then ['\\', 'r']
  else if c = '\t' then ['\\', 't']
  else if c.toNat = 12 then ['\\', 'f']
  else if c.toNat = 8 then ['\\', 'b']
  else if c < ' ' then ['\\', 'u', '0', '0', hexChar (c.toNat / 16), hexChar (c.toNat % 16)]
  else [c]

def quote (s : String) : String := String.ofList ('"' :: s.toList.flatMap escape ++ ['"'])

/-- `{k: v, …}` with the keys in the order of their code points. -/
def dumpsObject (members : List (String × String)) : String :=
  let sorted := members.mergeSort fun a b => decide (a.1 ≤ b.1)
  "\x7b" ++ ",".intercalate (sorted.map fun member => quote member.1 ++ ":" ++ member.2) ++ "\x7d"

mutual

/-- `json.dumps` with sorted keys, compact separators and no ASCII escapes; none
where it raises (an integer of too many digits) or where the text cannot be
encoded. -/
def dumps (platform : Platform) (value : Json) : Option String :=
  match value with
  | .null => some "null"
  | .bool b => some (if b then "true" else "false")
  | .int n =>
    if (Nat.toDigits 10 n.natAbs).length ≤ maxStrDigits then some (toString n) else none
  | .float bits => if isFinite bits then some (platform.floatRepr bits) else none
  | .str (.scalars s) => some (quote s)
  | .str (.surrogates _ _) => none
  | .arr items => do
    let items ← dumpsItems platform items
    pure ("[" ++ ",".intercalate items ++ "]")
  | .obj members => do
    let members ← dumpsMembers platform members
    pure (dumpsObject members)

def dumpsItems (platform : Platform) (items : List Json) : Option (List String) :=
  match items with
  | [] => some []
  | item :: items => do
    let item ← dumps platform item
    let items ← dumpsItems platform items
    pure (item :: items)

def dumpsMembers (platform : Platform) (members : List (Text × Json)) :
    Option (List (String × String)) :=
  match members with
  | [] => some []
  | (.scalars key, item) :: members => do
    let item ← dumps platform item
    let members ← dumpsMembers platform members
    pure ((key, item) :: members)
  | (.surrogates _ _, _) :: _ => none

end

def canonicalBytes (platform : Platform) (value : Json) : Except Raised ByteArray := do
  checkJson 0 value
  let text ← demand (dumps platform value) (.protocol6 "value has no canonical JSON encoding")
  pure text.toUTF8

/-- The hash of the canonical bytes. -/
def canonicalHash (platform : Platform) (value : Json) : Except Raised String := do
  let bytes ← canonicalBytes platform value
  pure (platform.sha256 bytes)

end Potocolom.Protocol
