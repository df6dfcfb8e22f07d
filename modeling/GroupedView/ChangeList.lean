import GroupedView.Item

/-!
# GroupedView.ChangeList — edits of the sections and rows on display

A source path is one of the display before all edits, a target path one of the display after them.
-/

open Std

namespace GroupedView

/-- The place of a row on display. -/
structure IndexPath where
  sectionIndex : Nat
  row : Nat
deriving DecidableEq, Repr

namespace IndexPath

instance : Ord IndexPath :=
  ⟨compareLex (compareOn IndexPath.sectionIndex) (compareOn IndexPath.row)⟩

instance : TransOrd IndexPath :=
  inferInstanceAs (TransCmp (compareLex (compareOn IndexPath.sectionIndex)
    (compareOn IndexPath.row)))

def text (p : IndexPath) : String := "[" ++ toString p.sectionIndex ++ ", " ++ toString p.row ++ "]"

end IndexPath

inductive SectionEdit where
  | insert
  | delete
deriving DecidableEq, Repr

inductive RowEdit where
  | insert
  | delete
  | update
  | move
deriving DecidableEq, Repr

def SectionEdit.text : SectionEdit → String
  | insert => "Insert"
  | delete => "Delete"

def RowEdit.text : RowEdit → String
  | insert => "Insert"
  | delete => "Delete"
  | update => "Update"
  | move => "Move"

inductive Change where
  /-- A section comes or goes with all its rows. -/
  | ofSection (edit : SectionEdit) (index : Nat) (group : GroupId)
  | ofRow (edit : RowEdit) (key : ItemKey) (source target : Option IndexPath)
deriving DecidableEq, Repr

namespace Change

def sectionInsert (i : Nat) (g : GroupId) : Change := ofSection .insert i g

def sectionDelete (i : Nat) (g : GroupId) : Change := ofSection .delete i g

def rowInsert (k : ItemKey) (target : IndexPath) : Change := ofRow .insert k none (some target)

def rowDelete (k : ItemKey) (source : IndexPath) : Change := ofRow .delete k (some source) none

def rowUpdate (k : ItemKey) (source target : IndexPath) : Change :=
  ofRow .update k (some source) (some target)

def rowMove (k : ItemKey) (source target : IndexPath) : Change :=
  ofRow .move k (some source) (some target)

/-- The key of the row that is edited. -/
def key? : Change → Option ItemKey
  | ofSection .. => none
  | ofRow _ k _ _ => some k

def isSection : Change → Bool
  | ofSection .. => true
  | ofRow .. => false

def text : Change → String
  | ofSection e i g => "section " ++ e.text ++ " " ++ toString i ++ " (" ++ g.name ++ ")"
  | ofRow e k source target =>
    "row " ++ e.text ++ " " ++ k.text ++ (source.map fun p => " from " ++ p.text).getD ""
      ++ (target.map fun p => " to " ++ p.text).getD ""

end Change

/-- Edits of the display, to be carried out in order. -/
structure ChangeList where
  changes : List Change := []
deriving DecidableEq, Repr, Inhabited

structure ChangeSummary where
  sectionInserts : Nat := 0
  sectionDeletes : Nat := 0
  rowInserts : Nat := 0
  rowDeletes : Nat := 0
  rowUpdates : Nat := 0
  rowMoves : Nat := 0
deriving DecidableEq, Repr

namespace ChangeList

variable (l : ChangeList)

def size : Nat := l.changes.length

def isEmpty : Bool := l.changes.isEmpty

def countSections (e : SectionEdit) : Nat :=
  l.changes.countP fun
    | .ofSection e' _ _ => e' = e
    | .ofRow .. => false

def countRows (e : RowEdit) : Nat :=
  l.changes.countP fun
    | .ofSection .. => false
    | .ofRow e' _ _ _ => e' = e

def summary : ChangeSummary where
  sectionInserts := l.countSections .insert
  sectionDeletes := l.countSections .delete
  rowInserts := l.countRows .insert
  rowDeletes := l.countRows .delete
  rowUpdates := l.countRows .update
  rowMoves := l.countRows .move

end ChangeList

end GroupedView
