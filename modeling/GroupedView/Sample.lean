import GroupedView.Display

/-!
# GroupedView.Sample — a small item type for trying views out

* `Entry.arrangement` groups entries by number and orders them by rank, then by key.
* `Entry.refusal?` tells why a batch is refused by a display of some entries.
-/

namespace GroupedView

/-- A small item: the number of its group, and its rank within the group. -/
structure Entry where
  group : UInt8
  rank : Int16
deriving DecidableEq, Repr, Inhabited

namespace Entry

def collection : String := "entries"

def groupId (n : UInt8) : GroupId := ⟨"g" ++ toString n⟩

def threeDigits (n : Nat) : String :=
  String.ofList ((Nat.toDigits 10 n).leftpad 3 '0')

def key (n : UInt16) : ItemKey := ⟨collection, "e" ++ threeDigits n.toNat⟩

/-- The group of an entry; entries of group `0` have none. -/
def groupOf? (e : Entry) : Option GroupId :=
  if e.group = 0 then none else some (groupId e.group)

/-- Entries grouped by number and ordered by rank, then by key. -/
def arrangement (o : ViewOptions := {}) : Arrangement Id Entry Int :=
  .bySortKey (fun _ e => e.groupOf?) (fun _ e => e.rank.toInt) o

def lenientArrangement : Arrangement Id Entry Int := arrangement { policy := .lenient }

/-- The mapping over the groups `1` to `n`. -/
def mapping (n : UInt8) : Mapping :=
  .ofGroups ((List.range n.toNat).map fun i => groupId (.ofNat (i + 1)))

/-- Why a display of these items refuses a batch, if it does.  Items that cannot be displayed
refuse nothing. -/
def refusal? (items : List (ItemKey × Entry)) (mapping : Mapping)
    (batch : List (Mutation Entry)) : Option ViewError :=
  match (Display.ofSnapshot arrangement ⟨.zero, items⟩ mapping).run.run with
  | .error _ => none
  | .ok d =>
    match (d.advance arrangement [⟨TransactionId.zero.next, batch⟩] mapping).run.run with
    | .error e => some e
    | .ok _ => none

end Entry

end GroupedView
