import GroupedView.NetChange
import GroupedView.View.Mutate

/-!
# GroupedView.Batch — folding a batch of mutations and naming its net effect

* `Fold.step` applies one mutation and notes for its key where the row was before the batch,
  whether it was taken out or put in, and whether its value is new.  A key whose row was never
  touched has no `Track`.
* `classify` compares the position of a tracked key before the batch with that after it.  A row
  that left its place and came back to it is undecided at first: it kept its place if the other
  rows of its group kept their order (`Verdict.settle`).
* `View.compute` does both and gives the view after the batch with the `NetChanges` that lead to
  it.
-/

open Std

namespace GroupedView

/-! ## Folding -/

/-- What a batch has done to one key so far. -/
structure Track where
  origin : Option Position
  relocated : Bool := false
  refreshed : Bool := false
deriving DecidableEq, Repr

def Track.note {V : Type} (t : Track) (mu : Mutation V) (e : RowEffect) : Track where
  origin := t.origin
  relocated := t.relocated || e.relocates
  refreshed := t.refreshed || mu.refreshes

/-- A batch that is being folded into a view. -/
structure Fold (S : Type) where
  view : View S
  tracks : ItemMap Track := ∅

variable {m : Type → Type} [Monad m] {V S : Type} [BEq S] (a : Arrangement m V S)

/-- Apply one mutation of a batch that started at the view `pre`.  The position before the batch
is looked up when the row of a key is first touched. -/
def Fold.step (pre : View S) (f : Fold S) (mu : Mutation V) : Checked m (Fold S) := do
  let (view, effect) ← f.view.apply a mu
  if effect = .untouched then return { f with view }
  else
    let track ← match f.tracks[mu.key]? with
      | some t => pure t
      | none => do
        let origin ← ExceptT.lift (pre.positionOf a mu.key)
        pure { origin }
    return { view, tracks := f.tracks.insert mu.key (track.note mu effect) }

/-! ## Naming the net effect -/

/-- What a key's positions say about its net effect. -/
inductive Verdict where
  | unchanged
  | changed (change : NetChange)
  /-- The row left its place and came back to it. -/
  | undecided (key : ItemKey) (place : Position) (refreshed : Bool)
deriving DecidableEq, Repr

/-- The net effect on a key that ended at `target`. -/
def classify (k : ItemKey) (t : Track) (target : Option Position) : Verdict :=
  match t.origin, target with
  | none, none => .unchanged
  | none, some q => .changed (.insert k q)
  | some p, none => .changed (.delete k p)
  | some p, some q =>
    if !t.relocated then if t.refreshed then .changed (.update k p q) else .unchanged
    else if p ≠ q then .changed (.move k p q)
    else .undecided k p t.refreshed

namespace Verdict

/-- Whether the row left a place that it did not come back to. -/
def leaves : Verdict → Bool
  | changed (.delete ..) | changed (.move ..) => true
  | _ => false

/-- Whether the row arrived at a place that it was not at before. -/
def arrives : Verdict → Bool
  | changed (.insert ..) | changed (.move ..) => true
  | _ => false

/-- Decide the undecided rows; `stable` says of which groups the other rows kept their order.  In
other groups such a row moves to its own place. -/
def settle (stable : GroupId → Bool) : Verdict → Option NetChange
  | unchanged => none
  | changed c => some c
  | undecided k p refreshed =>
    if stable p.group then if refreshed then some (.update k p p) else none
    else some (.move k p p)

end Verdict

def keysWhere (test : Verdict → Bool) (verdicts : List (ItemKey × Verdict)) : ItemSet :=
  .ofList ((verdicts.filter fun (_, d) => test d).map Prod.fst)

/-- Whether the rows of a group that neither left nor arrived kept their order. -/
def keepsOrder (pre post : View S) (verdicts : List (ItemKey × Verdict)) (g : GroupId) : Bool :=
  let leaving := keysWhere Verdict.leaves verdicts
  let arriving := keysWhere Verdict.arrives verdicts
  (pre.keys g).filter (!leaving.contains ·) == (post.keys g).filter (!arriving.contains ·)

def verdicts (post : View S) (tracks : ItemMap Track) : m (List (ItemKey × Verdict)) :=
  tracks.toList.mapM fun (k, t) => do
    let target ← post.positionOf a k
    return (k, classify k t target)

def lengthsBetween (pre post : View S) : GroupMap Lengths :=
  .ofList (post.knownList.map fun g => (g, Lengths.mk (pre.length g) (post.length g)))

def groupChanges (lengths : GroupMap Lengths) : List GroupChange :=
  lengths.toList.filterMap fun (g, l) => l.edit?.map (⟨g, ·⟩)

def netChanges (pre post : View S) (tracks : ItemMap Track) : m NetChanges := do
  let decided ← verdicts a post tracks
  let stable := keepsOrder pre post decided
  let lengths := lengthsBetween pre post
  return .ofRows (decided.filterMap fun (_, d) => d.settle stable) (groupChanges lengths) lengths

structure Computed (S : Type) where
  view : View S
  changes : NetChanges
  mutations : Nat

/-- Fold a batch into a view. -/
def View.compute (pre : View S) (batch : List (Mutation V)) : Checked m (Computed S) := do
  let f ← batch.foldlM (Fold.step a pre) { view := pre }
  let changes ← ExceptT.lift (netChanges a pre f.view f.tracks)
  return { view := f.view, changes, mutations := batch.length }

end GroupedView
