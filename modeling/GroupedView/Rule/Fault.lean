import GroupedView.Connection
import GroupedView.Rule.Basic

/-!
# GroupedView.Rule.Fault — functions that fail now and then, or look around

* `Arrangement.withFaults` counts the calls of each function and spoils every `n`-th answer.
* `Arrangement.watched` makes the grouping function note, at each call, the phase of the
  connection and what becomes of an empty batch that it asks for.
-/

namespace GroupedView.Rule

structure Calls where
  grouping : Nat := 0
  sorting : Nat := 0
  comparing : Nat := 0
deriving DecidableEq, Repr, Inhabited

/-- Which calls of each function are spoilt: every `n`-th one, or none if `n` is zero. -/
structure Faults where
  grouping : Nat := 0
  sorting : Nat := 0
  comparing : Nat := 0
deriving DecidableEq, Repr, Inhabited

def spoilt (every calls : Nat) : Bool := every ≠ 0 && calls % every = 0

def wrongGroup (g : Option GroupId) : Option GroupId :=
  some ⟨(g.map GroupId.name).getD "" ++ "!"⟩

def wrongSortKey (v : Value) : SortKey := .int (v.rank + 1000)

def wrongOrdering (o : Ordering) : Ordering := o.swap.then .lt

def causeOf : Outcome → Option ViewError
  | .ok _ => none
  | .error e => some e

/-- A phase that a function saw, with the outcome of the batch it asked for. -/
abbrev Sighting := Phase × Option ViewError

/-- What the functions of a watched connection keep. -/
structure Journal where
  calls : Calls := {}
  /-- What was noted, the last first. -/
  sightings : List Sighting := []

end GroupedView.Rule

namespace GroupedView.Rule.Journal

/-- Count a call of the grouping function, and give the number of calls so far. -/
def countGrouping (j : Journal) : Nat × Journal :=
  let n := j.calls.grouping + 1
  (n, { j with calls := { j.calls with grouping := n } })

def countSorting (j : Journal) : Nat × Journal :=
  let n := j.calls.sorting + 1
  (n, { j with calls := { j.calls with sorting := n } })

def countComparing (j : Journal) : Nat × Journal :=
  let n := j.calls.comparing + 1
  (n, { j with calls := { j.calls with comparing := n } })

def note (s : Sighting) (j : Journal) : Journal := { j with sightings := s :: j.sightings }

end GroupedView.Rule.Journal

namespace GroupedView.Arrangement

open Rule

/-- Count the calls of each function and spoil some of the answers. -/
def withFaults {m : Type → Type} [Monad m] [MonadStateOf Journal m] (f : Faults)
    (a : Arrangement m Value SortKey) : Arrangement m Value SortKey where
  grouping k v := do
    let n ← modifyGetThe Journal Journal.countGrouping
    let g ← a.grouping k v
    return if spoilt f.grouping n then wrongGroup g else g
  sortKey k v := do
    let n ← modifyGetThe Journal Journal.countSorting
    let s ← a.sortKey k v
    return if spoilt f.sorting n then wrongSortKey v else s
  comparison r s := do
    let n ← modifyGetThe Journal Journal.countComparing
    let o ← a.comparison r s
    return if spoilt f.comparing n then wrongOrdering o else o
  options := a.options

/-- Let the grouping function note what it sees of the connection before it answers. -/
def watched {V S : Type} (a : Arrangement (Script Journal V) V S) :
    Arrangement (Script Journal V) V S where
  grouping k v := do
    match ← Script.askPhase .done with
    | none => pure ()
    | some phase =>
      match ← Script.askProcess [] .empty .done with
      | none => pure ()
      | some outcome =>
        modifyThe Journal (Journal.note (phase, causeOf outcome))
    a.grouping k v
  sortKey := a.sortKey
  comparison := a.comparison
  options := a.options

end GroupedView.Arrangement
