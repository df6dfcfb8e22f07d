/-!
# GroupedView.Rule.Predicate — tests of lists of numbers by name

A `Predicate` is a test of a list of whole numbers, put together from simple ones.  Many of them
are not monotone: a list may pass while a longer and a shorter one do not.
-/

namespace GroupedView.Rule

inductive Predicate where
  | constant (b : Bool)
  | hasAll (xs : List Int)
  | hasAny (xs : List Int)
  | minLength (n : Nat)
  | sumAtLeast (n : Int)
  | startsWith (x : Int)
  /-- These two stand next to each other in this order. -/
  | adjacent (x y : Int)
  | evenLength (b : Bool)
  /-- Whether some number is greater than the next one. -/
  | unsorted (b : Bool)
  /-- A number is in the list at least so many times. -/
  | countAtLeast (x : Int) (n : Nat)
  | both (p q : Predicate)
  | either (p q : Predicate)
  | neg (p : Predicate)

def neighbours (xs : List Int) : List (Int × Int) := xs.zip (xs.drop 1)

def Predicate.holds (xs : List Int) : Predicate → Bool
  | constant b => b
  | hasAll ys => ys.all xs.contains
  | hasAny ys => ys.any xs.contains
  | minLength n => n ≤ xs.length
  | sumAtLeast n => n ≤ xs.sum
  | startsWith x => xs.head? = some x
  | adjacent x y => (neighbours xs).contains (x, y)
  | evenLength b => b == (xs.length % 2 == 0)
  | unsorted b => b == (neighbours xs).any fun (x, y) => y < x
  | countAtLeast x n => n ≤ xs.count x
  | both p q => p.holds xs && q.holds xs
  | either p q => p.holds xs || q.holds xs
  | neg p => !p.holds xs

def Predicate.all (ps : List Predicate) : Predicate := ps.foldr both (constant true)

def Predicate.any (ps : List Predicate) : Predicate := ps.foldr either (constant false)

end GroupedView.Rule
