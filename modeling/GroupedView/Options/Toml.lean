import GroupedView.Options.Datum
import GroupedView.Text.Reader

/-!
# GroupedView.Options.Toml — reading key and value lines of TOML

`Toml.read` accepts a text of lines that hold a key with its value, a comment, or nothing.  Values
are truth values, strings of the four kinds, and arrays.  Other values, tables and dotted keys are
declined, for no option has need of them.
-/

namespace GroupedView.Toml

open Text Text.Reader

/-! ## Characters -/

def isBlank (c : Char) : Bool := c = ' ' || c = '\t'

/-- The characters that may stand in comments and strings. -/
def isPlain (c : Char) : Bool := c = '\t' || (0x20 ≤ c.toNat && c.toNat ≠ 0x7F)

/-- The characters of a key without quotation marks. -/
def isBare (c : Char) : Bool := c.isAlphanum || c = '_' || c = '-'

def blanks : Reader Unit := do discard (takeWhile isBlank)

def newline : Reader Bool := do
  if ← accept ['\n'] then return true else accept ['\r', '\n']

def comment : Reader Bool := do
  if ← accept ['#'] then
    discard (takeWhile isPlain)
    return true
  else return false

def trivia : Reader Unit := do
  discard (many do
    blanks
    if ← comment then return some ()
    else if ← newline then return some ()
    else return none)

def emptyLines : Reader Unit := do
  discard (many do
    blanks
    if ← newline then return some () else return none)

/-! ## Strings -/

def shortEscapes : List (Char × Char) :=
  [('b', '\x08'), ('t', '\t'), ('n', '\n'), ('f', '\x0c'), ('r', '\r'), ('"', '"'), ('\\', '\\')]

def scalar (digits : Nat) : Reader Char := do
  match unicodeScalar? (← hexNumber digits) with
  | some c => return c
  | none => failure

def escaped : Reader Char := do
  let c ← next
  if c = 'u' then scalar 4
  else if c = 'U' then scalar 8
  else
    match shortEscapes.lookup c with
    | some d => return d
    | none => failure

/-- A string in one line up to the mark `quotation`, after the first one. -/
def lineRest (quotation : Char) (escapes : Bool) : Reader String := do
  let chars ← many do
    let c ← next
    if c = quotation then return none
    else if escapes && c = '\\' then return some (← escaped)
    else if isPlain c then return some c
    else failure
  return String.ofList chars

/-- What an escape stands for in a string of several lines, after the backslash: at the end of a
line, nothing, and the blanks and line ends after it are left out. -/
def escapedOrJoined : Reader (List Char) := do
  let text ← get
  blanks
  if ← newline then
    emptyLines
    return []
  else
    set text
    return [← escaped]

/-- A part of a string of several lines: its characters, and whether they are the last ones.  Up to
two marks may stand before the three that end the string. -/
def blockPart (quotation : Char) (escapes : Bool) : Reader (List Char × Bool) := do
  let marks ← takeWhile (· = quotation)
  if 5 < marks.length then failure
  else if 3 ≤ marks.length then return (marks.drop 3, true)
  else if 0 < marks.length then return (marks, false)
  else if ← newline then return (['\n'], false)
  else
    let c ← next
    if escapes && c = '\\' then return (← escapedOrJoined, false)
    else if isPlain c then return ([c], false)
    else failure

def blockParts (quotation : Char) (escapes : Bool) : Nat → Reader (List Char)
  | 0 => failure
  | n + 1 => do
    let (chars, last) ← blockPart quotation escapes
    if last then return chars
    else return chars ++ (← blockParts quotation escapes n)

/-- A string of several lines, after the three marks; a line end right after them is left out. -/
def blockRest (quotation : Char) (escapes : Bool) : Reader String := do
  discard newline
  return String.ofList (← blockParts quotation escapes ((← get).length + 1))

def string : Reader String := do
  if ← accept ['"', '"', '"'] then blockRest '"' true
  else if ← accept ['"'] then lineRest '"' true
  else if ← accept ['\x27', '\x27', '\x27'] then blockRest '\x27' false
  else
    expect ['\x27']
    lineRest '\x27' false

/-! ## Values and lines -/

/-- The items of an array, after the opening bracket; a comma may stand after the last one. -/
def arrayRest (item : Reader Datum) : Reader (List Datum) := do
  let items ← many do
    trivia
    if ← accept [']'] then return none
    else
      let d ← item
      trivia
      unless ← accept [','] do
        unless (← peek) = some ']' do failure
      return some d
  return items

/-- A value whose arrays are nested less than `depth` deep. -/
def value : (depth : Nat) → Reader Datum
  | 0 => failure
  | depth + 1 => do
    match ← peek with
    | some '[' =>
      expect ['[']
      return .list (← arrayRest (value depth))
    | some 't' =>
      expect ['t', 'r', 'u', 'e']
      return .bool true
    | some 'f' =>
      expect ['f', 'a', 'l', 's', 'e']
      return .bool false
    | _ => return .text (← string)

def key : Reader String := do
  if ← accept ['"'] then lineRest '"' true
  else if ← accept ['\x27'] then lineRest '\x27' false
  else
    let name ← takeWhile isBare
    if name.isEmpty then failure else return String.ofList name

def field : Reader (String × Datum) := do
  let name ← key
  blanks
  expect ['=']
  blanks
  return (name, ← value ((← get).length + 1))

def line : Reader (List (String × Datum)) := do
  blanks
  let start ← peek
  let fields ←
    if start = none || start = some '#' || start = some '\n' || start = some '\r' then pure []
    else do
      let f ← field
      pure [f]
  blanks
  discard comment
  unless ← newline do
    unless ← atEnd do failure
  return fields

/-- A document: lines after an optional byte order mark. -/
def document : Reader (List (String × Datum)) := do
  discard (accept ['\uFEFF'])
  let lines ← many do
    if ← atEnd then return none else return some (← line)
  return lines.flatten

def read (text : String) : Option (List (String × Datum)) := readAll document text

end GroupedView.Toml
