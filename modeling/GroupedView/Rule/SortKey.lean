/-!
# GroupedView.Rule.SortKey — sort keys of several kinds

* A `SortKey` is a whole number, a text, a floating-point number, or nothing.  Equality is that of
  the payloads: floats are compared as numbers, so that a NaN differs from itself and the two
  zeros are equal.
* `SortKey.natural` orders keys of one kind, floats by the total order of their representations.
-/

namespace GroupedView.Rule

inductive SortKey where
  | int (i : Int)
  | text (s : String)
  | float (x : Float)
  | unit
deriving BEq, Repr

/-- The place of a float in the total order: negative numbers from the largest magnitude down,
then positive ones up, each zero, infinity and NaN with its sign. -/
def floatRank (x : Float) : Int :=
  let bits := x.toBits.toNat
  if bits < 0x8000000000000000 then bits else 0x7FFFFFFFFFFFFFFF - (bits : Int)

/-- The order of floats as numbers; a NaN is equal to everything. -/
def compareFloat (x y : Float) : Ordering :=
  if x < y then .lt else if y < x then .gt else .eq

namespace SortKey

/-- Keys of one kind in their natural order; keys of different kinds are equal. -/
def natural : SortKey → SortKey → Ordering
  | int i, int j => compare i j
  | text s, text t => compare s t
  | float x, float y => compare (floatRank x) (floatRank y)
  | _, _ => .eq

def partialOrder : SortKey → SortKey → Ordering
  | float x, float y => compareFloat x y
  | a, b => natural a b

/-- The text of a key; other kinds have none. -/
def textOf : SortKey → String
  | text s => s
  | _ => ""

/-- The number of a key; other kinds count as zero. -/
def intOf : SortKey → Int
  | int i => i
  | _ => 0

end SortKey

end GroupedView.Rule
