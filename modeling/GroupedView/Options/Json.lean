import GroupedView.Options.Datum
import GroupedView.Text.Reader

/-!
# GroupedView.Options.Json — reading JSON

`Json.read` accepts a text that is one JSON value with nothing but blanks around it.  Strings may
not hold raw control characters, and an escaped surrogate has to be followed by its partner.
-/

namespace GroupedView.Json

open Text Text.Reader

def isBlank (c : Char) : Bool := c = ' ' || c = '\t' || c = '\n' || c = '\r'

def blanks : Reader Unit := do discard (takeWhile isBlank)

/-! ## Strings -/

def shortEscapes : List (Char × Char) :=
  [('"', '"'), ('\\', '\\'), ('/', '/'), ('b', '\x08'), ('f', '\x0c'), ('n', '\n'), ('r', '\r'),
    ('t', '\t')]

/-- The character of an escape by code unit, whose first unit is read here.  Two surrogates stand
for one character. -/
def escapedUnits : Reader Char := do
  let unit ← hexNumber 4
  if 0xD800 ≤ unit && unit < 0xDC00 then
    expect ['\\', 'u']
    let low ← hexNumber 4
    if 0xDC00 ≤ low && low < 0xE000 then
      ofOption (unicodeScalar? (0x10000 + (unit - 0xD800) * 0x400 + (low - 0xDC00)))
    else failure
  else ofOption (unicodeScalar? unit)
where
  ofOption : Option Char → Reader Char
    | some c => return c
    | none => failure

def escaped : Reader Char := do
  let c ← next
  if c = 'u' then escapedUnits
  else
    match shortEscapes.lookup c with
    | some d => return d
    | none => failure

/-- A string, after its first quotation mark. -/
def stringRest : Reader String := do
  let chars ← many do
    let c ← next
    if c = '"' then return none
    else if c = '\\' then return some (← escaped)
    else if c.toNat < 0x20 then failure
    else return some c
  return String.ofList chars

def string : Reader String := do
  expect ['"']
  stringRest

/-! ## Numbers -/

def digits : Reader (List Char) := do
  let ds ← takeWhile Char.isDigit
  if ds.isEmpty then failure else return ds

/-- A number.  Its whole part has no leading zero. -/
def number : Reader Datum := do
  discard (accept ['-'])
  let whole ← digits
  if whole.head? = some '0' && 1 < whole.length then failure
  if ← accept ['.'] then discard digits
  exponent
  return .number
where
  exponent : Reader Unit := do
    let mark ← peek
    if mark = some 'e' || mark = some 'E' then
      discard next
      unless ← accept ['+'] do discard (accept ['-'])
      discard digits

/-! ## Values -/

/-- Items with commas between them up to the character `close`, after the opening one. -/
def sequence {α : Type} (item : Reader α) (close : Char) : Reader (List α) := do
  blanks
  if ← accept [close] then return []
  else
    let first ← item
    let rest ← many do
      blanks
      if ← accept [close] then return none
      else
        expect [',']
        blanks
        return some (← item)
    return first :: rest

/-- A value whose parts are nested less than `depth` deep. -/
def value : (depth : Nat) → Reader Datum
  | 0 => failure
  | depth + 1 => do
    match ← peek with
    | some '"' => return .text (← string)
    | some '[' =>
      expect ['[']
      return .list (← sequence (value depth) ']')
    | some '\x7b' =>
      expect ['\x7b']
      return .object (← sequence (field (value depth)) '\x7d')
    | some 'n' =>
      expect ['n', 'u', 'l', 'l']
      return .null
    | some 't' =>
      expect ['t', 'r', 'u', 'e']
      return .bool true
    | some 'f' =>
      expect ['f', 'a', 'l', 's', 'e']
      return .bool false
    | _ => number
where
  field (item : Reader Datum) : Reader (String × Datum) := do
    let name ← string
    blanks
    expect [':']
    blanks
    return (name, ← item)

def document : Reader Datum := do
  blanks
  let d ← value ((← get).length + 1)
  blanks
  return d

def read (text : String) : Option Datum := readAll document text

end GroupedView.Json
