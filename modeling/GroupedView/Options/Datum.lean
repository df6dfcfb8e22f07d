import GroupedView.Options

/-!
# GroupedView.Options.Datum — options as plain data

* A `Datum` is a value of a data format before anything is known of its meaning.
* `ViewOptions.ofFields` reads options from named data and `ViewOptions.ofDatum` also from data by
  position.  A name that is unknown or given twice is refused, and so is data of another kind than
  the option needs; an option that is not given has its default.
-/

open Std

namespace GroupedView

inductive Datum where
  | null
  | bool (b : Bool)
  /-- A number; no option needs its value. -/
  | number
  | text (s : String)
  | list (items : List Datum)
  | object (fields : List (String × Datum))

namespace Datum

def text? : Datum → Option String
  | text s => some s
  | _ => none

/-- The policy that a datum names.  A name may also stand as the only field of an object. -/
def policy? : Datum → Option MappingPolicy
  | text "strict" | object [("strict", null)] => some .strict
  | text "lenient" | object [("lenient", null)] => some .lenient
  | _ => none

/-- The collections that a datum lists; `null` stands for all of them. -/
def collections? : Datum → Option (Option (ExtTreeSet String))
  | null => some none
  | list items => (items.mapM text?).map fun names => some (.ofList names)
  | _ => none

end Datum

namespace ViewOptions

def fieldNames : List String := ["verify_determinism", "mapping_policy", "allowed_collections"]

def setField (o : ViewOptions) (name : String) (d : Datum) : Option ViewOptions :=
  if name = "verify_determinism" then
    match d with
    | .bool b => some { o with verify := b }
    | _ => none
  else if name = "mapping_policy" then d.policy?.map fun p => { o with policy := p }
  else if name = "allowed_collections" then d.collections?.map fun c => { o with collections := c }
  else none

def ofFields (fields : List (String × Datum)) : Option ViewOptions :=
  if (fields.map Prod.fst).Nodup then
    fields.foldlM (fun o (name, d) => o.setField name d) {}
  else none

/-- Read options from an object, or from a list that gives them by position. -/
def ofDatum : Datum → Option ViewOptions
  | .object fields => ofFields fields
  | .list items =>
    if items.length ≤ fieldNames.length then ofFields (fieldNames.zip items) else none
  | _ => none

end ViewOptions

end GroupedView
