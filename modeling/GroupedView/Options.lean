import GroupedView.Item

/-!
# GroupedView.Options — what a view checks and what it lets in
-/

open Std

namespace GroupedView

/-- How a section mapping may refer to groups. -/
inductive MappingPolicy where
  /-- Every group has been seen, or is declared static by the mapping. -/
  | strict
  /-- A group that has not been seen counts as empty. -/
  | lenient
deriving DecidableEq, Repr, Inhabited

structure ViewOptions where
  /-- Whether the functions of the view are called twice and its order is tested both ways. -/
  verify : Bool := true
  policy : MappingPolicy := .strict
  /-- The collections whose items reach the view; `none` stands for all of them. -/
  collections : Option (ExtTreeSet String) := none
deriving DecidableEq

/-- Whether mutations of an item reach the view at all. -/
def ViewOptions.admits (o : ViewOptions) (k : ItemKey) : Bool :=
  o.collections.all (·.contains k.collection)

theorem ViewOptions.admits_iff {o : ViewOptions} {k : ItemKey} :
    o.admits k = true ↔ ∀ listed, o.collections = some listed → k.collection ∈ listed := by
  rw [admits, Option.all_eq_true]
  simp only [ExtTreeSet.contains_iff_mem]

@[simp] theorem ViewOptions.admits_of_collections_none {o : ViewOptions} {k : ItemKey}
    (h : o.collections = none) : o.admits k = true := by
  rw [admits, h]
  rfl

end GroupedView
