import Potocolom.Lib.Raise

/-! # JSON as the control protocol reads and writes it

A control frame is one JSON text. This module holds the values it can carry,
`json.loads` with the hooks `decode_control` installs, `_check_json`, and
`canonical_bytes`, the encoding whose SHA-256 the digests commit to.

A Python string may hold a lone surrogate, which no UTF-8 text encodes; such a
string comes from an escape in the JSON text and is kept apart from the others. -/

namespace Potocolom.Protocol

open Guard

/-! ## Values -/

/-- A code point that UTF-16 reserves for pairs. -/
def isSurrogate (point : Nat) : Bool := 0xD800 ≤ point && point < 0xE000

/-- A `str`: encodable text, or code points with a lone surrogate among them. -/
inductive Text where
  | scalars (s : String)
  | surrogates (points : List Nat) (lone : points.any isSurrogate = true)
  deriving DecidableEq

/-- The string with these code points. -/
def Text.ofPoints (points : List Nat) : Text :=
  if lone : points.any isSurrogate = true then .surrogates points lone
  else .scalars (String.ofList (points.map Char.ofNat))

/-- `text in names`. -/
def Text.isIn (text : Text) (names : List String) : Bool :=
  match text with
  | .scalars s => names.contains s
  | .surrogates _ _ => false

/-- What `json.loads` builds. A dict lists its items in insertion order; a float
is its IEEE 754 bits. -/
inductive Json where
  | null
  | bool (b : Bool)
  | int (n : ℤ)
  | float (bits : BitVec 64)
  | str (text : Text)
  | arr (items : List Json)
  | obj (members : List (Text × Json))

abbrev Members := List (Text × Json)

/-- `control.get(name)`. -/
def get? (members : Members) (name : String) : Option Json :=
  (members.find? fun member => member.1 = .scalars name).map Prod.snd

/-- `name in control`. -/
def has (members : Members) (name : String) : Bool := (get? members name).isSome

/-- `set(control)`. -/
def keys (members : Members) : List Text := members.map Prod.fst

theorem mem_of_get? {members : Members} {name : String} {value : Json}
    (h : get? members name = some value) : (Text.scalars name, value) ∈ members := by
  unfold get? at h
  obtain ⟨⟨key, item⟩, hfind, hitem⟩ := Option.map_eq_some_iff.1 h
  have hkey : key = .scalars name := by simpa using List.find?_some hfind
  have hmem := List.mem_of_find?_eq_some hfind
  subst hkey
  cases hitem
  exact hmem

theorem has_iff {members : Members} {name : String} :
    has members name = true ↔ Text.scalars name ∈ keys members := by
  unfold has get? keys
  simp only [Option.isSome_map, List.find?_isSome, decide_eq_true_eq, List.mem_map]

/-- What a dict holds is smaller than the dict. -/
theorem sizeOf_get? {members : Members} {name : String} {value : Json}
    (h : get? members name = some value) : sizeOf value < sizeOf (Json.obj members) := by
  have hmem := List.sizeOf_lt_of_mem (mem_of_get? h)
  have hpair : sizeOf value < sizeOf (Text.scalars name, value) := by simp
  have hobj : sizeOf (Json.obj members) = 1 + sizeOf members := by simp
  omega

/-- The bits of a finite float: the exponent is not all ones. -/
def isFinite (bits : BitVec 64) : Bool := bits.toNat % 2 ^ 63 < 0x7FF0000000000000

/-! ## Exceptions and the platform -/

/-- What the code can raise: its own `Protocol6Error`, with its text, and the
built-in exceptions its operations raise. -/
inductive Raised where
  | protocol6 (message : String)
  | valueError
  | recursionError
  | typeError
  | keyError
  | overflowError
  deriving DecidableEq

/-- What the interpreter supplies: `hashlib.sha256(…).hexdigest()`, `float(…)`
on a JSON number, `float.__repr__`, and how many containers the JSON scanner
enters before it raises `RecursionError`. -/
structure Platform where
  sha256 : ByteArray → String
  toFloat : String → BitVec 64
  floatRepr : BitVec 64 → String
  recursionLimit : Nat

/-- CPython converts no integer of more than this many digits from or to text. -/
def maxStrDigits : Nat := 4300

/-! ## Scanning -/

/-- What the scanner finds next; `invalid` where it finds nothing it knows. -/
inductive Token where
  | openObject
  | closeObject
  | openArray
  | closeArray
  | colon
  | comma
  | value (v : Json)
  | constant
  | invalid

def isSpace (c : Char) : Bool := c = ' ' || c = '\t' || c = '\n' || c = '\r'

def isDigit (c : Char) : Bool := '0' ≤ c && c ≤ '9'

def hexDigit (c : Char) : Option Nat :=
  if isDigit c then some (c.toNat - '0'.toNat)
  else if 'a' ≤ c && c ≤ 'f' then some (c.toNat - 'a'.toNat + 10)
  else if 'A' ≤ c && c ≤ 'F' then some (c.toNat - 'A'.toNat + 10)
  else none

def hex4 (a b c d : Char) : Option Nat := do
  let a ← hexDigit a
  let b ← hexDigit b
  let c ← hexDigit c
  let d ← hexDigit d
  pure (((a * 16 + b) * 16 + c) * 16 + d)

/-- The character a one-letter escape stands for. -/
def escaped (c : Char) : Option Nat :=
  if c = '"' || c = '\\' || c = '/' then some c.toNat
  else if c = 'b' then some 8
  else if c = 'f' then some 12
  else if c = 'n' then some 10
  else if c = 'r' then some 13
  else if c = 't' then some 9
  else none

/-- The code points up to the closing quote, and how many characters they and
the quote took. Control characters must be escaped. -/
def scanString : List Char → Option (List Nat × Nat)
  | [] => none
  | '"' :: _ => some ([], 1)
  | '\\' :: 'u' :: a :: b :: c :: d :: rest => do
    let point ← hex4 a b c d
    let (points, n) ← scanString rest
    pure (point :: points, n + 6)
  | '\\' :: c :: rest => do
    let point ← escaped c
    let (points, n) ← scanString rest
    pure (point :: points, n + 2)
  | c :: rest => do
    guard (' ' ≤ c)
    let (points, n) ← scanString rest
    pure (c.toNat :: points, n + 1)

/-- A high surrogate escape followed by a low one is one character. -/
def joinSurrogates : List Nat → List Nat
  | high :: low :: rest =>
    if 0xD800 ≤ high && high < 0xDC00 && (0xDC00 ≤ low && low < 0xE000) then
      (0x10000 + (high - 0xD800) * 0x400 + (low - 0xDC00)) :: joinSurrogates rest
    else high :: joinSurrogates (low :: rest)
  | points => points

/-- The digits at the head of `text` after `mark`; nothing when there are none,
so that `1.` is the number `1` and a stray point. -/
def marked (mark text : List Char) : List Char :=
  match text.takeWhile isDigit with
  | [] => []
  | digits => mark ++ digits

def fraction : List Char → List Char
  | '.' :: rest => marked ['.'] rest
  | _ => []

def exponent : List Char → List Char
  | e :: sign :: rest =>
    if e = 'e' || e = 'E' then
      if sign = '+' || sign = '-' then marked [e, sign] rest else marked [e] (sign :: rest)
    else []
  | _ => []

/-- The digits before the point: no leading zero. -/
def integral : List Char → Option (List Char)
  | '0' :: _ => some ['0']
  | c :: rest => if isDigit c then some (c :: rest.takeWhile isDigit) else none
  | [] => none

def natOf (digits : List Char) : Nat :=
  digits.foldl (fun n c => 10 * n + (c.toNat - '0'.toNat)) 0

/-- A number at the head of `text`: an int without point and exponent, else a
float; with how many characters it took. -/
def scanNumber (platform : Platform) (text : List Char) : Option (Json × Nat) := do
  let sign := text.takeWhile (· = '-') |>.take 1
  let body := text.drop sign.length
  let digits ← integral body
  let frac := fraction (body.drop digits.length)
  let exp := exponent (body.drop (digits.length + frac.length))
  let lexeme := sign ++ digits ++ frac ++ exp
  if frac = [] && exp = [] then
    guard (digits.length ≤ maxStrDigits)
    let n : ℤ := natOf digits
    pure (.int (if sign = [] then n else -n), lexeme.length)
  else
    pure (.float (platform.toFloat (String.ofList lexeme)), lexeme.length)

/-- `token` if `word` comes next. -/
def literal (word : String) (token : Token) (text : List Char) : Option (Token × Nat) :=
  if word.toList.isPrefixOf text then some (token, word.length) else none

/-- The token that starts with `c`, and how many characters of `rest` belong to it. -/
def scan (platform : Platform) (c : Char) (rest : List Char) : Option (Token × Nat) :=
  match c with
  | '{' => some (.openObject, 0)
  | '}' => some (.closeObject, 0)
  | '[' => some (.openArray, 0)
  | ']' => some (.closeArray, 0)
  | ':' => some (.colon, 0)
  | ',' => some (.comma, 0)
  | '"' => do
    let (points, n) ← scanString rest
    pure (.value (.str (Text.ofPoints (joinSurrogates points))), n)
  | 'n' => literal "ull" (.value .null) rest
  | 't' => literal "rue" (.value (.bool true)) rest
  | 'f' => literal "alse" (.value (.bool false)) rest
  | 'N' => literal "aN" .constant rest
  | 'I' => literal "nfinity" .constant rest
  | _ =>
    if c = '-' && "Infinity".toList.isPrefixOf rest then some (.constant, 8)
    else do
      let (number, n) ← scanNumber platform (c :: rest)
      pure (.value number, n - 1)

/-- The tokens of a text, past the next `skip` characters. -/
def tokens (platform : Platform) : Nat → List Char → List Token
  | _, [] => []
  | skip + 1, _ :: rest => tokens platform skip rest
  | 0, c :: rest =>
    if isSpace c then tokens platform 0 rest
    else
      match scan platform c rest with
      | some (token, n) => token :: tokens platform n rest
      | none => [.invalid]

/-! ## Reading -/

/-- A container the reader is in, its contents last first; `member` is an object
that waits for the value of `key`. -/
inductive Frame where
  | array (items : List Json)
  | object (members : Members)
  | member (members : Members) (key : Text)

/-- What may come next. -/
inductive Want where
  | value
  | item
  | firstKey
  | key
  | colon
  | comma
  | done (v : Json)

structure Reader where
  frames : List Frame
  want : Want

/-- `_pairs`, the object hook: a dict of the pairs, unless a key comes twice. -/
def pairs (members : Members) : Except Raised Members :=
  members.foldlM (fun result member => do
    require (member.1 ∉ keys result) (.protocol6 "duplicate JSON object key")
    pure (result ++ [member])) []

/-- A finished value goes into the innermost open container. -/
def place (v : Json) : List Frame → Except Raised Reader
  | [] => pure ⟨[], .done v⟩
  | .array items :: rest => pure ⟨.array (v :: items) :: rest, .comma⟩
  | .member members key :: rest => pure ⟨.object ((key, v) :: members) :: rest, .comma⟩
  | .object _ :: _ => throw .valueError

/-- Enter a container, if the interpreter's stack has room for one more. -/
def enter (platform : Platform) (frames : List Frame) (frame : Frame) (want : Want) :
    Except Raised Reader := do
  require (frames.length < platform.recursionLimit) .recursionError
  pure ⟨frame :: frames, want⟩

/-- A token where a value is due. -/
def readValue (platform : Platform) (frames : List Frame) : Token → Except Raised Reader
  | .value v => place v frames
  | .openArray => enter platform frames (.array []) .item
  | .openObject => enter platform frames (.object []) .firstKey
  -- `_constant`, the hook for NaN and the infinities
  | .constant => throw (.protocol6 "non-finite JSON number")
  | _ => throw .valueError

def closeArray : List Frame → Except Raised Reader
  | .array items :: rest => place (.arr items.reverse) rest
  | _ => throw .valueError

def closeObject : List Frame → Except Raised Reader
  | .object members :: rest => do
    let members ← pairs members.reverse
    place (.obj members) rest
  | _ => throw .valueError

def readKey : List Frame → Token → Except Raised Reader
  | .object members :: rest, .value (.str key) => pure ⟨.member members key :: rest, .colon⟩
  | _, _ => throw .valueError

/-- After an element: the next one, or the end of the container. -/
def readComma : List Frame → Token → Except Raised Reader
  | .array items :: rest, .comma => pure ⟨.array items :: rest, .value⟩
  | .object members :: rest, .comma => pure ⟨.object members :: rest, .key⟩
  | frames, .closeArray => closeArray frames
  | frames, .closeObject => closeObject frames
  | _, _ => throw .valueError

/-- One token. -/
def read (platform : Platform) (reader : Reader) (token : Token) : Except Raised Reader :=
  match reader.want, token with
  | .item, .closeArray => closeArray reader.frames
  | .value, token => readValue platform reader.frames token
  | .item, token => readValue platform reader.frames token
  | .firstKey, .closeObject => closeObject reader.frames
  | .firstKey, token => readKey reader.frames token
  | .key, token => readKey reader.frames token
  | .colon, .colon => pure ⟨reader.frames, .value⟩
  | .comma, token => readComma reader.frames token
  | _, _ => throw .valueError

/-- `json.loads(text, object_pairs_hook=_pairs, parse_constant=_constant)`. -/
def loads (platform : Platform) (text : String) : Except Raised Json := do
  let reader ← (tokens platform 0 text.toList).foldlM (read platform) ⟨[], .value⟩
  match reader.want with
  | .done v => pure v
  | _ => throw .valueError

end Potocolom.Protocol
