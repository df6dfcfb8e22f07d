import GroupedView.Options.Json
import GroupedView.Options.Toml

/-!
# GroupedView.Options.File — reading options from texts and files

* `ViewOptions.ofJson` and `ViewOptions.ofToml` read options from a text in a known format.
* `ViewOptions.ofFile` takes the format from the name of the file: the extension `json` stands for
  JSON, and every other name for TOML.
-/

namespace GroupedView

inductive OptionsError where
  | file
  | json
  | toml
deriving DecidableEq, Repr

namespace ViewOptions

def ofJson (text : String) : Except OptionsError ViewOptions :=
  match (Json.read text).bind ofDatum with
  | some o => .ok o
  | none => .error .json

def ofToml (text : String) : Except OptionsError ViewOptions :=
  match (Toml.read text).bind ofFields with
  | some o => .ok o
  | none => .error .toml

/-- The extension of a file name: what follows its last point, unless that is the first character
of the name. -/
def extension? (name : String) : Option String :=
  let reversed := name.toList.reverse
  let stem := (reversed.dropWhile (· ≠ '.')).drop 1
  if stem.isEmpty then none else some (String.ofList (reversed.takeWhile (· ≠ '.')).reverse)

/-- Read options from a file with this name and content; a file that is not there has none. -/
def ofFile (name : String) : Option String → Except OptionsError ViewOptions
  | none => .error .file
  | some content => if extension? name = some "json" then ofJson content else ofToml content

end ViewOptions

end GroupedView
