import GroupedView.Transaction
import GroupedView.Text.Quoted
import GroupedView.Text.Record

/-!
# GroupedView.ViewError — why a batch is refused
-/

namespace GroupedView

inductive Callback where
  | grouping
  | sortKey
  | comparison
deriving DecidableEq, Repr

def Callback.text : Callback → String
  | grouping => "grouping"
  | sortKey => "sort key"
  | comparison => "comparison"

inductive ViewError where
  | unknownGroup (group : GroupId)
  /-- A transaction does not follow the one before it. -/
  | gap (expected found : TransactionId)
  | duplicateKey (key : ItemKey)
  | missingKey (key : ItemKey)
  | reentrant
  /-- A supplied function contradicts itself about an item. -/
  | inconsistent (key : ItemKey) (callback : Callback)
  /-- A move starts from a group that the item is not in. -/
  | wrongSource (key : ItemKey) (declared actual : GroupId)
  /-- A move ends in a group that the new value does not belong to. -/
  | wrongTarget (key : ItemKey) (declared : GroupId) (actual : Option GroupId)
deriving DecidableEq, Repr

namespace ViewError

/-- Whether the error lies in how the connection is driven, not in what it is given. -/
def isUsage : ViewError → Bool
  | gap .. | reentrant => true
  | unknownGroup .. | duplicateKey .. | missingKey .. | inconsistent .. | wrongSource ..
  | wrongTarget .. => false

def message : ViewError → String
  | unknownGroup g => "mapping references unknown group: " ++ g.name
  | gap expected found =>
    "non-contiguous transaction sequence: expected " ++ expected.text ++ ", found " ++ found.text
  | duplicateKey k => "insert of key already present in view: " ++ k.text
  | missingKey k => "delete or update of key absent from view: " ++ k.text
  | reentrant => "connection is already processing a batch"
  | inconsistent k f => f.text ++ " function is not deterministic for " ++ k.text
  | wrongSource k declared actual =>
    "move of " ++ k.text ++ " declares source group " ++ declared.name ++ ", item is in "
      ++ actual.name
  | wrongTarget k declared actual =>
    "move of " ++ k.text ++ " declares target group " ++ declared.name ++ ", grouping yields "
      ++ Text.optional (actual.map fun g => Text.tuple "GroupId" [Text.quote g.name])

end ViewError

end GroupedView
