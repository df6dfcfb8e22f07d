import GroupedView.Arrangement
import GroupedView.Rule.SortKey

/-!
# GroupedView.Rule.Basic — arrangements by name

* A `Value` is an item with something to group and order by.
* `Grouping`, `Sorting` and `Comparison` name functions on such items.  Some of the comparisons are
  no orders at all: they serve to see how a view bears them.
* `Rule.arrangement` puts three named functions together.
-/

namespace GroupedView.Rule

structure Value where
  group : Option GroupId := none
  rank : Int := 0
  text : String := ""
  weight : Float := 0
deriving Repr, Inhabited

/-! ## Grouping -/

inductive Grouping where
  | field
  | collection
  /-- By the first character of the key; a key without characters has no group. -/
  | initial
  /-- By whether the rank is even or odd; a negative rank has no group. -/
  | parity
deriving DecidableEq, Repr, Inhabited

def Grouping.names : List (String × Grouping) :=
  [("field", field), ("collection", collection), ("prefix", initial), ("parity", parity)]

def Grouping.groupOf : Grouping → ItemKey → Value → Option GroupId
  | field, _, v => v.group
  | collection, k, _ => some ⟨k.collection⟩
  | initial, k, _ => k.key.toList.head?.map fun c => ⟨String.singleton c⟩
  | parity, _, v =>
    if v.rank < 0 then none else if v.rank % 2 = 0 then some ⟨"even"⟩ else some ⟨"odd"⟩

/-! ## Sort keys -/

inductive Sorting where
  | rank
  | text
  | float
  | unit
  | keyLength
deriving DecidableEq, Repr, Inhabited

def Sorting.names : List (String × Sorting) :=
  [("rank", rank), ("text", text), ("float", float), ("unit", unit), ("keylen", keyLength)]

def Sorting.sortKeyOf : Sorting → ItemKey → Value → SortKey
  | rank, _, v => .int v.rank
  | text, _, v => .text v.text
  | float, _, v => .float v.weight
  | unit, _, _ => .unit
  | keyLength, k, _ => .int k.key.length

/-! ## Comparisons -/

inductive Comparison where
  | ascending
  | descending
  /-- By text without regard to the case of ASCII letters. -/
  | caseless
  /-- By the last decimal digit. -/
  | lastDigit
  | constant (o : Ordering)
  /-- Around a circle of three. -/
  | cyclic
  /-- Equal keys are less. -/
  | tieLess
  /-- Two different keys, one of them thirteen, are less. -/
  | unlucky
  /-- Floats as numbers, with NaN equal to everything. -/
  | partialFloat
  | keyLength
  | collectionDescending
deriving DecidableEq, Repr

instance : Inhabited Comparison := ⟨.ascending⟩

def Comparison.names : List (String × Comparison) :=
  [("asc", ascending), ("desc", descending), ("nocase", caseless), ("mod10", lastDigit),
    ("less", constant .lt), ("greater", constant .gt), ("equal", constant .eq),
    ("cyclic", cyclic), ("tie_less", tieLess), ("unlucky", unlucky), ("partial", partialFloat),
    ("keylen", keyLength), ("collection_desc", collectionDescending)]

def Comparison.compareRows (c : Comparison) (r s : Row SortKey) : Ordering :=
  match c with
  | ascending => r.sortKey.natural s.sortKey
  | descending => s.sortKey.natural r.sortKey
  | caseless => compare (r.sortKey.textOf.map Char.toLower) (s.sortKey.textOf.map Char.toLower)
  | lastDigit => compare (r.sortKey.intOf % 10) (s.sortKey.intOf % 10)
  | constant o => o
  | cyclic =>
    match (r.sortKey.intOf % 3 - s.sortKey.intOf % 3) % 3 with
    | 0 => .eq
    | 1 => .gt
    | _ => .lt
  | tieLess => (r.sortKey.natural s.sortKey).then .lt
  | unlucky =>
    if r.sortKey != s.sortKey && (r.sortKey == .int 13 || s.sortKey == .int 13) then .lt
    else r.sortKey.natural s.sortKey
  | partialFloat => r.sortKey.partialOrder s.sortKey
  | keyLength => compare r.key.key.length s.key.key.length
  | collectionDescending => compare s.key.collection r.key.collection

end GroupedView.Rule

namespace GroupedView

/-! ## Rules -/

/-- Three functions by name. -/
structure Rule where
  grouping : Rule.Grouping := .field
  sorting : Rule.Sorting := .rank
  comparison : Rule.Comparison := .ascending
deriving DecidableEq, Repr, Inhabited

def Rule.arrangement (r : Rule) (o : ViewOptions := {}) :
    Arrangement Id Rule.Value Rule.SortKey where
  grouping := r.grouping.groupOf
  sortKey := r.sorting.sortKeyOf
  comparison := r.comparison.compareRows
  options := o

end GroupedView
