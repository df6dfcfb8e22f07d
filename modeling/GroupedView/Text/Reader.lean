/-!
# GroupedView.Text.Reader — reading a text from left to right

A `Reader α` takes characters from the front of a text and gives a value, or declines.  `many` is
total because no text has more parts than characters.
-/

namespace GroupedView.Text

/-- A reader of values at the front of a text. -/
abbrev Reader := StateT (List Char) Option

namespace Reader

/-- The next character, left where it is. -/
def peek : Reader (Option Char) := do return (← get).head?

def next : Reader Char := do
  match ← get with
  | [] => failure
  | c :: rest =>
    set rest
    return c

/-- Take these characters if they are the next ones. -/
def accept (word : List Char) : Reader Bool := do
  let text ← get
  if word.isPrefixOf text then
    set (text.drop word.length)
    return true
  else return false

/-- Take these characters, which have to be the next ones. -/
def expect (word : List Char) : Reader Unit := do
  unless ← accept word do failure

def takeWhile (test : Char → Bool) : Reader (List Char) := do
  let text ← get
  set (text.dropWhile test)
  return text.takeWhile test

def atEnd : Reader Bool := do return (← get).isEmpty

/-- Repeat a reader up to `n` times, until it reports an end. -/
def repeated {α : Type} (step : Reader (Option α)) : Nat → Reader (List α)
  | 0 => failure
  | n + 1 => do
    match ← step with
    | none => return []
    | some x => return x :: (← repeated step n)

def many {α : Type} (step : Reader (Option α)) : Reader (List α) := do
  repeated step ((← get).length + 1)

def readAll {α : Type} (r : Reader α) (text : String) : Option α :=
  match r.run text.toList with
  | some (x, []) => some x
  | _ => none

def hexDigit? (c : Char) : Option Nat :=
  if c.isDigit then some (c.toNat - '0'.toNat)
  else if 'a' ≤ c ∧ c ≤ 'f' then some (c.toNat - 'a'.toNat + 10)
  else if 'A' ≤ c ∧ c ≤ 'F' then some (c.toNat - 'A'.toNat + 10)
  else none

def hexNumber : Nat → Reader Nat
  | 0 => return 0
  | n + 1 => do
    let some d := hexDigit? (← next) | failure
    return d * 16 ^ n + (← hexNumber n)

def unicodeScalar? (n : Nat) : Option Char :=
  if n.isValidChar then some (Char.ofNat n) else none

end Reader

end GroupedView.Text
