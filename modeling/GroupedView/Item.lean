import Std.Data.ExtTreeMap.Basic
import Std.Data.ExtTreeMap.Lemmas
import Std.Data.ExtTreeSet.Basic
import Std.Data.ExtTreeSet.Lemmas

/-!
# GroupedView.Item — names of items and of groups

Both are ordered by code points, an item key by collection first; the order is lawful, so that both
can index the finite maps of the library.
-/

open Std

namespace GroupedView

/-- The name of an item: a key within a collection. -/
structure ItemKey where
  collection : String
  key : String
deriving DecidableEq, Repr, Inhabited

structure GroupId where
  name : String
deriving DecidableEq, Repr, Inhabited

namespace ItemKey

/-- Keys are ordered by collection, then by key. -/
instance : Ord ItemKey :=
  ⟨compareLex (compareOn ItemKey.collection) (compareOn ItemKey.key)⟩

theorem compare_def (a b : ItemKey) :
    compare a b = (compare a.collection b.collection).then (compare a.key b.key) := rfl

instance : TransOrd ItemKey :=
  inferInstanceAs (TransCmp (compareLex (compareOn ItemKey.collection) (compareOn ItemKey.key)))

instance : LawfulEqOrd ItemKey where
  compare_self {a} := ReflOrd.compare_self (α := ItemKey) (a := a)
  eq_of_compare {a b} h := by
    rw [compare_def, Ordering.then_eq_eq] at h
    obtain ⟨hc, hk⟩ := h
    cases a
    cases b
    rw [mk.injEq]
    exact ⟨LawfulEqOrd.eq_of_compare hc, LawfulEqOrd.eq_of_compare hk⟩

def text (k : ItemKey) : String := k.collection ++ "/" ++ k.key

end ItemKey

namespace GroupId

instance : Ord GroupId := ⟨compareOn GroupId.name⟩

theorem compare_def (a b : GroupId) : compare a b = compare a.name b.name := rfl

instance : TransOrd GroupId := inferInstanceAs (TransCmp (compareOn GroupId.name))

instance : LawfulEqOrd GroupId where
  compare_self {a} := ReflOrd.compare_self (α := GroupId) (a := a)
  eq_of_compare {a b} h := by
    cases a
    cases b
    rw [mk.injEq]
    exact LawfulEqOrd.eq_of_compare (by rwa [compare_def] at h)

end GroupId

/-- A row position inside one group. -/
structure Position where
  group : GroupId
  index : Nat
deriving DecidableEq, Repr

abbrev ItemMap (α : Type) := ExtTreeMap ItemKey α

abbrev GroupMap (α : Type) := ExtTreeMap GroupId α

abbrev ItemSet := ExtTreeSet ItemKey

abbrev GroupSet := ExtTreeSet GroupId

section Finite

variable {κ α : Type} [Ord κ] [TransOrd κ] {k k' : κ}

theorem mem_map_iff {t : ExtTreeMap κ α} : k ∈ t ↔ ∃ a, t[k]? = some a := by
  rw [ExtTreeMap.mem_iff_isSome_getElem?, Option.isSome_iff_exists]

variable [LawfulEqOrd κ]

theorem getElem?_map_insert [DecidableEq κ] {t : ExtTreeMap κ α} {a : α} :
    (t.insert k a)[k']? = if k' = k then some a else t[k']? := by
  simp only [ExtTreeMap.getElem?_insert, LawfulEqOrd.compare_eq_iff_eq, @eq_comm _ k]

theorem getElem?_map_erase [DecidableEq κ] {t : ExtTreeMap κ α} :
    (t.erase k)[k']? = if k' = k then none else t[k']? := by
  simp only [ExtTreeMap.getElem?_erase, LawfulEqOrd.compare_eq_iff_eq, @eq_comm _ k]

theorem mem_map_insert {t : ExtTreeMap κ α} {a : α} : k' ∈ t.insert k a ↔ k' = k ∨ k' ∈ t := by
  rw [ExtTreeMap.mem_insert, LawfulEqOrd.compare_eq_iff_eq, eq_comm]

theorem mem_set_insert {t : ExtTreeSet κ} : k' ∈ t.insert k ↔ k' = k ∨ k' ∈ t := by
  rw [ExtTreeSet.mem_insert, LawfulEqOrd.compare_eq_iff_eq, eq_comm]

theorem mem_set_erase {t : ExtTreeSet κ} : k' ∈ t.erase k ↔ k' ≠ k ∧ k' ∈ t := by
  rw [ExtTreeSet.mem_erase, ne_eq, LawfulEqOrd.compare_eq_iff_eq, eq_comm]

end Finite

end GroupedView
