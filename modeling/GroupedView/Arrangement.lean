import GroupedView.Options
import GroupedView.ViewError

/-!
# GroupedView.Arrangement — how a view groups and orders its items

* `Row S` is an item with its sort key, a value of type `S`.
* `Arrangement m V S` holds the three functions that the owner of a view supplies for items with
  values of type `V`.  They run in a monad `m`: with `m := Id` they are plain functions, with a
  state monad each call may answer differently.
* `Arrangement.groupOf` and `Arrangement.sortKeyOf` call a function twice when the options ask to
  verify, and refuse two different answers.
-/

open Std

namespace GroupedView

/-- An item in a group, with the sort key that its place was found by. -/
structure Row (S : Type) where
  key : ItemKey
  sortKey : S
deriving DecidableEq, Repr

/-- The functions that group and order the items of a view, and its options. -/
structure Arrangement (m : Type → Type) (V S : Type) where
  /-- The group of an item; `none` keeps the item out of the view. -/
  grouping : ItemKey → V → m (Option GroupId)
  sortKey : ItemKey → V → m S
  comparison : Row S → Row S → m Ordering
  options : ViewOptions := {}

/-- An effect of the supplied functions that may end in a refusal. -/
abbrev Checked (m : Type → Type) := ExceptT ViewError m

namespace Arrangement

variable {m : Type → Type} {V S : Type}

def withOptions (a : Arrangement m V S) (o : ViewOptions) : Arrangement m V S :=
  { a with options := o }

def mapEffects {n : Type → Type} (f : {α : Type} → m α → n α) (a : Arrangement m V S) :
    Arrangement n V S where
  grouping k v := f (a.grouping k v)
  sortKey k v := f (a.sortKey k v)
  comparison r s := f (a.comparison r s)
  options := a.options

variable [Monad m] (a : Arrangement m V S)

/-- Rows are ordered by the supplied comparison, and by their keys where it finds no
difference. -/
def order (r s : Row S) : m Ordering := do
  let o ← a.comparison r s
  return o.then (compare r.key s.key)

/-- The group of an item, from two equal answers when the options ask to verify. -/
def groupOf (k : ItemKey) (v : V) : Checked m (Option GroupId) := do
  let g ← a.grouping k v
  if a.options.verify then
    let again ← a.grouping k v
    if again ≠ g then throw (.inconsistent k .grouping)
  return g

/-- The sort key of an item, from two equal answers when the options ask to verify. -/
def sortKeyOf [BEq S] (k : ItemKey) (v : V) : Checked m S := do
  let s ← a.sortKey k v
  if a.options.verify then
    let again ← a.sortKey k v
    if again != s then throw (.inconsistent k .sortKey)
  return s

/-! ## Arrangements without effects -/

def byKey (grouping : ItemKey → V → Option GroupId) (o : ViewOptions := {}) :
    Arrangement Id V Unit where
  grouping := grouping
  sortKey _ _ := ()
  comparison _ _ := .eq
  options := o

/-- Items ordered by a sort key from an ordered type, then by their keys. -/
def bySortKey [Ord S] (grouping : ItemKey → V → Option GroupId) (sortKey : ItemKey → V → S)
    (o : ViewOptions := {}) : Arrangement Id V S where
  grouping := grouping
  sortKey := sortKey
  comparison r s := compare r.sortKey s.sortKey
  options := o

theorem key_eq_of_order_eq {a : Arrangement Id V S} {r s : Row S} (h : a.order r s = .eq) :
    r.key = s.key :=
  LawfulEqOrd.eq_of_compare (Ordering.then_eq_eq.mp h).2

theorem order_eq_iff {a : Arrangement Id V S} {r s : Row S} :
    a.order r s = .eq ↔ a.comparison r s = .eq ∧ r.key = s.key :=
  ⟨fun h => ⟨(Ordering.then_eq_eq.mp h).1, key_eq_of_order_eq h⟩,
    fun ⟨hc, hk⟩ => Ordering.then_eq_eq.mpr ⟨hc, hk ▸ ReflOrd.compare_self⟩⟩

end Arrangement

end GroupedView
