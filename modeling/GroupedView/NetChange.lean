import GroupedView.Item

/-!
# GroupedView.NetChange — what a batch of mutations did to the rows of groups

`NetChanges` collects the effects of a batch on single keys, with the lengths of all known groups on
both sides and the groups that got their first rows or lost their last.
-/

open Std

namespace GroupedView

/-- The net effect of a batch on one key.  A `source` is a position before the batch, a `target`
one after it. -/
inductive NetChange where
  | insert (key : ItemKey) (target : Position)
  | delete (key : ItemKey) (source : Position)
  /-- The value is new, and the row kept its place among its neighbours. -/
  | update (key : ItemKey) (source target : Position)
  | move (key : ItemKey) (source target : Position)
deriving DecidableEq, Repr

namespace NetChange

def key : NetChange → ItemKey
  | insert k _ | delete k _ | update k _ _ | move k _ _ => k

def source? : NetChange → Option Position
  | insert .. => none
  | delete _ p | update _ p _ | move _ p _ => some p

def target? : NetChange → Option Position
  | delete .. => none
  | insert _ q | update _ _ q | move _ _ q => some q

def isUpdate : NetChange → Bool
  | update .. => true
  | insert .. | delete .. | move .. => false

def keyLE (c d : NetChange) : Bool := (compare c.key d.key).isLE

end NetChange

/-- Whether a group got its first rows or lost its last. -/
inductive GroupEdit where
  | inserted
  | deleted
deriving DecidableEq, Repr

structure GroupChange where
  group : GroupId
  edit : GroupEdit
deriving DecidableEq, Repr

/-- The numbers of rows of a group before and after a batch. -/
structure Lengths where
  before : Nat := 0
  after : Nat := 0
deriving DecidableEq, Repr, Inhabited

def Lengths.edit? (l : Lengths) : Option GroupEdit :=
  if l.before = 0 ∧ 0 < l.after then some .inserted
  else if 0 < l.before ∧ l.after = 0 then some .deleted
  else none

theorem Lengths.edit?_eq_inserted_iff {l : Lengths} :
    l.edit? = some .inserted ↔ l.before = 0 ∧ 0 < l.after := by
  grind [edit?]

theorem Lengths.edit?_eq_deleted_iff {l : Lengths} :
    l.edit? = some .deleted ↔ 0 < l.before ∧ l.after = 0 := by
  grind [edit?]

structure NetChanges where
  /-- At the most one change for each key, in the order of keys. -/
  rows : List NetChange := []
  groups : List GroupChange := []
  /-- The lengths of every group that is known after the batch. -/
  lengths : GroupMap Lengths := ∅
deriving DecidableEq

namespace NetChanges

/-- Changes put in the order of their keys; changes of one key keep their order. -/
def ofRows (rows : List NetChange) (groups : List GroupChange) (lengths : GroupMap Lengths) :
    NetChanges where
  rows := rows.mergeSort NetChange.keyLE
  groups := groups
  lengths := lengths

variable (n : NetChanges)

def isKnown (g : GroupId) : Bool := n.lengths.contains g

def lengthBefore (g : GroupId) : Nat := (n.lengths[g]?.map Lengths.before).getD 0

def lengthAfter (g : GroupId) : Nat := (n.lengths[g]?.map Lengths.after).getD 0

def isEmpty : Bool := n.rows.isEmpty && n.groups.isEmpty

end NetChanges

end GroupedView
