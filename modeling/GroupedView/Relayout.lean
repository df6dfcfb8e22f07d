import GroupedView.ChangeList
import GroupedView.Increasing
import GroupedView.Mapping
import GroupedView.NetChange

/-!
# GroupedView.Relayout — from one layout of sections to another

* `Relayout` names the sections shown before and after a batch.  A group shown on both sides
  continues if it belongs to a longest run of groups that keep their order
  (`Relayout.continuing`); every other section comes or goes as a whole.
* `Relayout.entry?` edits a row of continuing sections only: a row that leaves for a section that
  comes is deleted, and a row from a section that goes is inserted.
* `NetChanges.changeList` puts the edits in order: rows that go, sections that go, sections that
  come, rows that come, rows that move, rows with new values.
-/

open Std

namespace GroupedView

structure Relayout where
  before : List GroupId
  after : List GroupId
deriving DecidableEq, Repr

/-- An edit of a row with the path that it is ordered by. -/
structure RowEntry where
  edit : RowEdit
  anchor : IndexPath
  change : Change
deriving DecidableEq, Repr

namespace Relayout

variable (r : Relayout)

/-- The groups shown on both sides in their new order, with their old section. -/
def shared : List (GroupId × Nat) :=
  r.after.filterMap fun g => (r.before.idxOf? g).map (g, ·)

/-- The groups whose section stays. -/
def continuing : List GroupId :=
  (r.shared.zip (longestIncreasing (r.shared.map Prod.snd))).filterMap
    fun ((g, _), kept) => if kept then some g else none

/-- The sections of one side that do not stay, with their places. -/
def replaced (shown : List GroupId) : List (GroupId × Nat) :=
  shown.zipIdx.filter fun (g, _) => g ∉ r.continuing

/-- The sections that go, the last one first. -/
def sectionDeletes : List Change :=
  (r.replaced r.before).reverse.map fun (g, i) => .sectionDelete i g

/-- The sections that come, the first one first. -/
def sectionInserts : List Change :=
  (r.replaced r.after).map fun (g, i) => .sectionInsert i g

/-- The path of a position on one side, if its section stays. -/
def path? (shown : List GroupId) (p : Position) : Option IndexPath :=
  if p.group ∈ r.continuing then (shown.idxOf? p.group).map (⟨·, p.index⟩) else none

/-- The edit that shows a net change, if it shows at all. -/
def entry? (n : NetChange) : Option RowEntry :=
  match n.source?.bind (r.path? r.before), n.target?.bind (r.path? r.after), n.isUpdate with
  | some p, some q, true => some ⟨.update, p, .rowUpdate n.key p q⟩
  | some p, some q, false => some ⟨.move, q, .rowMove n.key p q⟩
  | some p, none, false => some ⟨.delete, p, .rowDelete n.key p⟩
  | none, some q, false => some ⟨.insert, q, .rowInsert n.key q⟩
  | _, _, _ => none

/-- The edits of one kind that show net changes, ordered by `le` on the paths of their anchors;
edits with one anchor keep their order. -/
def rowEdits (rows : List NetChange) (e : RowEdit) (le : IndexPath → IndexPath → Bool) :
    List Change :=
  (((rows.filterMap r.entry?).filter (·.edit = e)).mergeSort
    fun x y => le x.anchor y.anchor).map RowEntry.change

def edits (rows : List NetChange) : List Change :=
  let up := fun p q : IndexPath => (compare p q).isLE
  let down := fun p q : IndexPath => (compare q p).isLE
  r.rowEdits rows .delete down ++ r.sectionDeletes ++ r.sectionInserts
    ++ r.rowEdits rows .insert up ++ r.rowEdits rows .move up ++ r.rowEdits rows .update up

end Relayout

def NetChanges.relayout (n : NetChanges) (old new : Mapping) : Relayout where
  before := old.visible n.lengthBefore
  after := new.visible n.lengthAfter

/-- The edits that lead from the display of one mapping before a batch to the display of another
after it.  The new mapping is checked against the groups known after the batch. -/
def NetChanges.changeList (n : NetChanges) (policy : MappingPolicy) (old new : Mapping) :
    Except ViewError ChangeList := do
  new.validate policy n.isKnown
  return ⟨(n.relayout old new).edits n.rows⟩

end GroupedView
