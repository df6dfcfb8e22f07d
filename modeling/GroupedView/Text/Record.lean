/-!
# GroupedView.Text.Record — the one-line text of a structured value

A value is described by the name of its type and the descriptions of its parts: `record` writes
named fields, `tuple` unnamed ones, and `list`, `set`, `table` and `optional` write collections.
-/

namespace GroupedView.Text

def commas (parts : List String) : String := ", ".intercalate parts

def field (name value : String) : String := name ++ ": " ++ value

def record (name : String) (fields : List (String × String)) : String :=
  name ++ " \x7b " ++ commas (fields.map fun (n, v) => field n v) ++ " \x7d"

/-- A value of which some named fields are shown and others are not. -/
def partialRecord (name : String) (fields : List (String × String)) : String :=
  name ++ " \x7b " ++ commas (fields.map fun (n, v) => field n v) ++ ", .. \x7d"

def tuple (name : String) (parts : List String) : String :=
  name ++ "(" ++ commas parts ++ ")"

def list (parts : List String) : String := "[" ++ commas parts ++ "]"

def set (parts : List String) : String := "\x7b" ++ commas parts ++ "\x7d"

def table (entries : List (String × String)) : String :=
  set (entries.map fun (k, v) => field k v)

def optional : Option String → String
  | none => "None"
  | some s => tuple "Some" [s]

def truth (b : Bool) : String := if b then "true" else "false"

end GroupedView.Text
