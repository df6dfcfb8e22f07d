import GroupedView.View.Search

/-!
# GroupedView.View.Check — testing a view against its arrangement

`View.check` asks the arrangement whether the rows of every group go up strictly from neighbour to
neighbour, and tests that the parts of the view agree.  It stops at the first fault.
-/

open Std

namespace GroupedView.View

variable {m : Type → Type} [Monad m] {V S : Type} (a : Arrangement m V S) (v : View S)

/-- Test the rows of a group from one row on; `previous` is the row before it. -/
def checkRows (g : GroupId) (previous : Option (Row S)) : List (Row S) → m Bool
  | [] => pure true
  | row :: rest =>
    if v.groupOf? row.key = some g && !v.isExcluded row.key then do
      if ← a.precedes previous (some row) then checkRows g (some row) rest else return false
    else pure false

def checkGroups : List (GroupId × List (Row S)) → m Bool
  | [] => pure true
  | (g, rows) :: rest =>
    if !rows.isEmpty && v.isKnown g then do
      if ← v.checkRows a g none rows then checkGroups rest else return false
    else pure false

def rowCount : Nat := v.groups.toList.foldr (fun x n => x.2.length + n) 0

def check : m Bool := do
  if ← v.checkGroups a v.groups.toList then return v.rowCount = v.size else return false

end GroupedView.View
