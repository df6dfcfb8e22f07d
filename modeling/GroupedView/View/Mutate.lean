import GroupedView.View.Search

/-!
# GroupedView.View.Mutate — applying mutations to a view

* `View.apply` applies one mutation and reports as a `RowEffect` what it did to the row of its
  key.  A refused mutation gives no view, so the view before it stays as it was.
* `View.seed` inserts the items of a snapshot one after the other.
-/

open Std

namespace GroupedView

/-- What a mutation did to the row of its key.  A position that is left is one of the view
before, a position that is entered is one of the view after. -/
inductive RowEffect where
  | untouched
  | inserted (target : Position)
  | removed (source : Position)
  /-- The row stays and its value is new. -/
  | refreshed (position : Position)
  /-- The row was taken out and put in again. -/
  | relocated (source target : Position)
deriving DecidableEq, Repr

def RowEffect.relocates : RowEffect → Bool
  | untouched | refreshed _ => false
  | inserted _ | removed _ | relocated .. => true

namespace View

variable {m : Type → Type} [Monad m] {V S : Type} [BEq S] (a : Arrangement m V S) (v : View S)

/-- Put the row of a key that has none into its group, or keep it out if it has no group.  The
sort key is asked for in the first case only. -/
def enter (k : ItemKey) (value : V) (hint : Option PositionHint) :
    Checked m (View S × RowEffect) := do
  match ← a.groupOf k value with
  | none => return (v.exclude k, .untouched)
  | some g =>
    let s ← a.sortKeyOf k value
    let (v, p) ← (v.readmit k).place a g ⟨k, s⟩ hint
    return (v, .inserted p)

/-- Insert a key that is not present. -/
def insert (k : ItemKey) (value : V) (hint : Option PositionHint) :
    Checked m (View S × RowEffect) :=
  if v.contains k || v.isExcluded k then throw (.duplicateKey k) else v.enter a k value hint

/-- Give a new value to a key with a row.  The row stays where it is if the group is the same and
the sort key equal; the old sort key is kept then. -/
def updateRow (k : ItemKey) (value : V) (pl : Placement S) (layout : Bool) :
    Checked m (View S × RowEffect) := do
  let old ← v.find a k pl
  if !layout then return (v, .refreshed old)
  else
    match ← a.groupOf k value with
    | none => return ((v.eraseRow k old).exclude k, .removed old)
    | some g =>
      let s ← a.sortKeyOf k value
      if g = pl.group && s == pl.sortKey then return (v, .refreshed old)
      else
        let (v, new) ← (v.eraseRow k old).place a g ⟨k, s⟩ none
        return (v, .relocated old new)

def update (k : ItemKey) (value : V) (layout : Bool) : Checked m (View S × RowEffect) :=
  match v.placements[k]? with
  | some pl => v.updateRow a k value pl layout
  | none =>
    if v.isExcluded k then
      if layout then v.enter a k value none else pure (v, .untouched)
    else throw (.missingKey k)

def delete (k : ItemKey) : Checked m (View S × RowEffect) :=
  match v.placements[k]? with
  | some pl => do
    let old ← v.find a k pl
    return (v.eraseRow k old, .removed old)
  | none =>
    if v.isExcluded k then pure (v.readmit k, .untouched) else throw (.missingKey k)

/-- Take a key from the group `source` to the group that its new value belongs to, which has to be
`target`. -/
def move (k : ItemKey) (value : V) (source target : GroupId) : Checked m (View S × RowEffect) :=
  match v.placements[k]? with
  | none => throw (.missingKey k)
  | some pl =>
    if pl.group ≠ source then throw (.wrongSource k source pl.group)
    else do
      let g ← a.groupOf k value
      if g ≠ some target then throw (.wrongTarget k target g)
      else
        let s ← a.sortKeyOf k value
        let old ← v.find a k pl
        let (v, new) ← (v.eraseRow k old).place a target ⟨k, s⟩ none
        return (v, .relocated old new)

/-- Apply one mutation.  Items of collections that the options do not admit are ignored. -/
def apply (mu : Mutation V) : Checked m (View S × RowEffect) :=
  if a.options.admits mu.key then
    match mu with
    | .insert k value hint => v.insert a k value hint
    | .update k value layout => v.update a k value layout
    | .delete k => v.delete a k
    | .move k value source target => v.move a k value source target
  else pure (v, .untouched)

def applyAll (mus : List (Mutation V)) : Checked m (View S) :=
  mus.foldlM (fun v mu => do return (← v.apply a mu).1) v

/-- The view of a list of items, inserted in the order of the list. -/
def seed (items : List (ItemKey × V)) : Checked m (View S) :=
  (empty : View S).applyAll a (items.map fun (k, value) => .insert k value none)

end View

end GroupedView
