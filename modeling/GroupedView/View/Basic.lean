import GroupedView.Arrangement

/-!
# GroupedView.View.Basic — groups of ordered rows

* `View S` holds the rows of each group that has any, a table from each shown key to its group and
  sort key, the keys that are kept out, and every group that was ever used.
* `View.insertRow` and `View.eraseRow` are the only two operations that change the rows; the
  lemmas after them say what they do to the rows of each group and to the placement of each key.
* `View.WellFormed` says that the four parts agree.
-/

open Std

namespace GroupedView

/-- Where the row of a key is to be looked for: its group, and the sort key that it was placed
by. -/
structure Placement (S : Type) where
  group : GroupId
  sortKey : S
deriving DecidableEq, Repr

/-- Items arranged in groups of ordered rows. -/
structure View (S : Type) where
  /-- The rows of the groups that have any. -/
  groups : GroupMap (List (Row S)) := ∅
  placements : ItemMap (Placement S) := ∅
  /-- The keys that are present but belong to no group. -/
  excluded : ItemSet := ∅
  /-- Every group that had a row at some time. -/
  known : GroupSet := ∅
deriving DecidableEq

namespace View

variable {S : Type}

def empty : View S := {}

instance : EmptyCollection (View S) := ⟨empty⟩

instance : Inhabited (View S) := ⟨empty⟩

/-! ## Reading a view -/

section Read

variable (v : View S)

/-- The rows of a group in view order; a group that is not stored has none. -/
def rows (g : GroupId) : List (Row S) := v.groups[g]?.getD []

def keys (g : GroupId) : List ItemKey := (v.rows g).map Row.key

def length (g : GroupId) : Nat := (v.rows g).length

def keyAt? (p : Position) : Option ItemKey := (v.keys p.group)[p.index]?

/-- The groups that have rows, in order. -/
def groupList : List GroupId := v.groups.keys

def knownList : List GroupId := v.known.toList

def isKnown (g : GroupId) : Bool := v.known.contains g

def groupOf? (k : ItemKey) : Option GroupId := v.placements[k]?.map Placement.group

/-- Whether a key has a row. -/
def contains (k : ItemKey) : Bool := v.placements.contains k

def isExcluded (k : ItemKey) : Bool := v.excluded.contains k

def size : Nat := v.placements.size

def isEmpty : Bool := v.placements.isEmpty

end Read

/-! ## Changing rows -/

section Write

variable (v : View S)

def insertRow (row : Row S) (p : Position) : View S where
  groups := v.groups.insert p.group ((v.rows p.group).insertIdx p.index row)
  placements := v.placements.insert row.key ⟨p.group, row.sortKey⟩
  excluded := v.excluded
  known := v.known.insert p.group

/-- Take away the row of a key at its position; a group without rows is not stored. -/
def eraseRow (k : ItemKey) (p : Position) : View S where
  groups :=
    let rest := (v.rows p.group).eraseIdx p.index
    if rest.isEmpty then v.groups.erase p.group else v.groups.insert p.group rest
  placements := v.placements.erase k
  excluded := v.excluded
  known := v.known

/-- Keep a key out of all groups. -/
def exclude (k : ItemKey) : View S := { v with excluded := v.excluded.insert k }

def readmit (k : ItemKey) : View S := { v with excluded := v.excluded.erase k }

end Write

/-! ## What the operations do to rows and placements -/

section Lemmas

variable {v : View S} {row : Row S} {p : Position} {k : ItemKey}

@[simp] theorem rows_empty (g : GroupId) : (empty : View S).rows g = [] := by
  simp [rows, empty]

theorem rows_insertRow (g : GroupId) :
    (v.insertRow row p).rows g =
      if g = p.group then (v.rows p.group).insertIdx p.index row else v.rows g := by
  rw [rows, insertRow, getElem?_map_insert]
  split
  · rfl
  · rfl

theorem rows_eraseRow (g : GroupId) :
    (v.eraseRow k p).rows g =
      if g = p.group then (v.rows p.group).eraseIdx p.index else v.rows g := by
  have hrows : (v.eraseRow k p).rows g =
      (if ((v.rows p.group).eraseIdx p.index).isEmpty then v.groups.erase p.group
        else v.groups.insert p.group ((v.rows p.group).eraseIdx p.index))[g]?.getD [] := rfl
  rw [hrows]
  split
  · next he =>
    rw [List.isEmpty_iff] at he
    rw [getElem?_map_erase, he]
    split <;> rfl
  · rw [getElem?_map_insert]
    split <;> rfl

@[simp] theorem rows_exclude (g : GroupId) : (v.exclude k).rows g = v.rows g := rfl

@[simp] theorem rows_readmit (g : GroupId) : (v.readmit k).rows g = v.rows g := rfl

theorem placements_insertRow (k : ItemKey) :
    (v.insertRow row p).placements[k]? =
      if k = row.key then some ⟨p.group, row.sortKey⟩ else v.placements[k]? :=
  getElem?_map_insert

theorem placements_eraseRow (k' : ItemKey) :
    (v.eraseRow k p).placements[k']? = if k' = k then none else v.placements[k']? :=
  getElem?_map_erase

end Lemmas

/-! ## Agreement of the parts -/

/-- The parts of a view agree: each stored group has rows and is known, each row is where the
placement of its key says and nowhere else, each placement has its row, and a key with a row is not
kept out. -/
structure WellFormed (v : View S) : Prop where
  stored_ne_nil : ∀ (g : GroupId) (rows : List (Row S)), v.groups[g]? = some rows → rows ≠ []
  stored_known : ∀ g : GroupId, g ∈ v.groups → g ∈ v.known
  placement_of_row : ∀ g, ∀ r ∈ v.rows g, v.placements[r.key]? = some ⟨g, r.sortKey⟩
  row_of_placement : ∀ (k : ItemKey) (pl : Placement S),
    v.placements[k]? = some pl → ⟨k, pl.sortKey⟩ ∈ v.rows pl.group
  keys_nodup : ∀ g, (v.keys g).Nodup
  excluded_unplaced : ∀ k : ItemKey, k ∈ v.excluded → v.placements[k]? = none

end View

end GroupedView
