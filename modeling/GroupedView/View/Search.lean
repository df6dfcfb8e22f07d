import GroupedView.Bisect
import GroupedView.View.Basic

/-!
# GroupedView.View.Search — finding a row and the place of a new one

When the options ask to verify, each comparison of a search is made both ways, and answers that do
not match refuse it.  `View.find` gives the position of a key that is to be changed, and
`View.positionOf` that of a key for display, whatever the comparison does.
-/

open Std

namespace GroupedView

namespace Arrangement

variable {m : Type → Type} [Monad m] {V S : Type} (a : Arrangement m V S)

/-- How a row compares with the one looked for.  The state records whether a comparison made the
other way round contradicted it. -/
def probe (row target : Row S) : StateT Bool m Ordering := do
  let forward ← a.order row target
  if a.options.verify then
    let backward ← a.order target row
    if backward ≠ forward.swap then set true
  return forward

/-- Look for a row among ordered rows; contradicting comparisons are reported when the search is
over. -/
def search (rows : List (Row S)) (target : Row S) : Checked m Slot := do
  let (slot, asymmetric) ← (bisect fun i : Fin rows.length => a.probe rows[i] target).run false
  if asymmetric then throw (.inconsistent target.key .comparison)
  return slot

def precedes (r s : Option (Row S)) : m Bool :=
  match r, s with
  | some r, some s => do return (← a.order r s) == .lt
  | _, _ => pure true

/-- A guess for the group `g` is accepted if the row fits between the neighbours there; both
neighbours are compared. -/
def hintedIndex (rows : List (Row S)) (hint : PositionHint) (g : GroupId) (row : Row S) :
    m (Option Nat) :=
  if hint.group = g ∧ hint.index ≤ rows.length then do
    let previous := if hint.index = 0 then none else rows[hint.index - 1]?
    let afterPrevious ← a.precedes previous (some row)
    let beforeNext ← a.precedes (some row) rows[hint.index]?
    return if afterPrevious && beforeNext then some hint.index else none
  else pure none

/-- The index of a new row: where the guess says if it is right, else where the search ends. -/
def insertionIndex (rows : List (Row S)) (g : GroupId) (row : Row S)
    (hint : Option PositionHint) : Checked m Nat := do
  let hinted ← match hint with
    | none => pure none
    | some h => a.hintedIndex rows h g row
  match hinted with
  | some i => return i
  | none =>
    match ← a.search rows row with
    | .gap i => return i
    | .found _ => throw (.inconsistent row.key .comparison)

end Arrangement

namespace View

variable {m : Type → Type} [Monad m] {V S : Type} (a : Arrangement m V S) (v : View S)

/-- The position of a key with a known placement; a row that the search misses was misplaced by
the comparison. -/
def find (k : ItemKey) (pl : Placement S) : Checked m Position := do
  match ← a.search (v.rows pl.group) ⟨k, pl.sortKey⟩ with
  | .found i => return ⟨pl.group, i⟩
  | .gap _ => throw (.inconsistent k .comparison)

def place (g : GroupId) (row : Row S) (hint : Option PositionHint) :
    Checked m (View S × Position) := do
  let i ← a.insertionIndex (v.rows g) g row hint
  return (v.insertRow row ⟨g, i⟩, ⟨g, i⟩)

/-- The position of a key.  A row that the search misses is looked for from the first one on. -/
def positionOf (k : ItemKey) : m (Option Position) :=
  match v.placements[k]? with
  | none => pure none
  | some pl => do
    match ← (a.search (v.rows pl.group) ⟨k, pl.sortKey⟩).run with
    | .ok (.found i) => return some ⟨pl.group, i⟩
    | _ => return ((v.rows pl.group).findIdx? (·.key = k)).map (⟨pl.group, ·⟩)

end View

end GroupedView
