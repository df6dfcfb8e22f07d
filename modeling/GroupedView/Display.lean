import GroupedView.Batch
import GroupedView.Relayout
import GroupedView.SectionList
import GroupedView.Store

/-!
# GroupedView.Display — a view shown through a mapping, in step with transactions

`Display.advance` takes the transactions that follow and a new mapping, and gives the edits that lead
from the old sections to the new ones.
-/

open Std

namespace GroupedView

structure Display (S : Type) where
  view : View S
  mapping : Mapping
  /-- The last transaction that the view reflects. -/
  last : TransactionId
deriving DecidableEq

/-- Check that transactions follow each other, the first one right after `t`. -/
def checkSequence {V : Type} (t : TransactionId) : List (Transaction V) → Except ViewError Unit
  | [] => .ok ()
  | r :: rest => if r.id = t.next then checkSequence r.id rest else .error (.gap t.next r.id)

/-- The id of the last of some transactions, or `t` if there is none. -/
def lastId {V : Type} (t : TransactionId) (records : List (Transaction V)) : TransactionId :=
  (records.getLast?.map Transaction.id).getD t

namespace Display

/-! ## Opening and advancing -/

section Advance

variable {m : Type → Type} [Monad m] {V S : Type} [BEq S] (a : Arrangement m V S)

/-- Show the items of a snapshot through a mapping. -/
def ofSnapshot (snapshot : Snapshot V) (mapping : Mapping) : Checked m (Display S) := do
  let view ← View.seed a snapshot.items
  ExceptT.mk (pure (mapping.validate a.options.policy view.isKnown))
  return { view, mapping, last := snapshot.asOf }

variable (d : Display S)

/-- Take the transactions that follow and a new mapping. -/
def advance (records : List (Transaction V)) (mapping : Mapping) :
    Checked m (ChangeList × Display S) := do
  ExceptT.mk (pure (checkSequence d.last records))
  let computed ← d.view.compute a (records.flatMap Transaction.mutations)
  let changes ← ExceptT.mk (pure
    (computed.changes.changeList a.options.policy d.mapping mapping))
  return (changes, { view := computed.view, mapping, last := lastId d.last records })

def indexPathOf (k : ItemKey) : m (Option IndexPath) := do
  match ← d.view.positionOf a k with
  | none => return none
  | some p => return ((d.mapping.visible d.view.length).idxOf? p.group).map (⟨·, p.index⟩)

end Advance

/-! ## Reading -/

section Read

variable {S : Type} (d : Display S)

def visible : List GroupId := d.mapping.visible d.view.length

def sectionCount : Nat := d.visible.length

def rowsIn? (i : Nat) : Option Nat := d.visible[i]?.map d.view.length

def keyAt? (p : IndexPath) : Option ItemKey :=
  d.visible[p.sectionIndex]?.bind fun g => d.view.keyAt? ⟨g, p.row⟩

def sections : SectionList := d.visible.map fun g => ⟨g, d.view.keys g⟩

/-- The number of rows in the view, on display or not. -/
def rowCount : Nat := d.view.size

end Read

end Display

end GroupedView
