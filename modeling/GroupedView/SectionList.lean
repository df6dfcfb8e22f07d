import GroupedView.ChangeList

/-!
# GroupedView.SectionList — a list of sections that follows a change list

A display holds sections of keys.  It follows a change list in steps: rows that go, from the last
path on; sections that go, from the last on; sections that come, from the first on, with the rows
they have in the display that is aimed at; rows that come, from the first path on.  Rows with new
values are checked on both sides.  At a step that fails it stops with the cause and with the
sections that it had come to.
-/

open Std

namespace GroupedView

/-- A group on display, with its keys in order. -/
structure Section where
  group : GroupId
  keys : List ItemKey
deriving DecidableEq, Repr

inductive ApplyError where
  | noSection (index : Nat)
  | noRow (path : IndexPath)
  | wrongKey (path : IndexPath) (expected found : ItemKey)
  /-- A row is edited in a section that comes or goes as a whole. -/
  | reloaded (path : IndexPath)
  | wrongGroup (index : Nat) (expected found : GroupId)
  | malformed (change : Change)
deriving DecidableEq, Repr

def ApplyError.message : ApplyError → String
  | noSection i => "no section " ++ toString i
  | noRow p => "no row at " ++ p.text
  | wrongKey p expected found =>
    "expected " ++ expected.text ++ " at " ++ p.text ++ ", found " ++ found.text
  | reloaded p =>
    "row change at " ++ p.text ++ " refers to a section inserted or deleted in the same list"
  | wrongGroup i expected found =>
    "section " ++ toString i ++ " should be " ++ expected.name ++ ", post state has " ++ found.name
  | malformed c => "malformed change: " ++ c.text

abbrev SectionList := List Section

namespace SectionList

def rowCount (l : SectionList) : Nat := l.foldr (fun s n => s.keys.length + n) 0

def keyAt? (l : SectionList) (p : IndexPath) : Option ItemKey :=
  l[p.sectionIndex]?.bind (·.keys[p.row]?)

/-! ## Steps -/

/-- One step of following a change list. -/
inductive Step where
  | refuse (cause : ApplyError)
  | expect (path : IndexPath) (key : ItemKey)
  | takeRow (path : IndexPath) (key : ItemKey)
  | takeSection (index : Nat)
  /-- Put in a section with the rows it has in the display that is aimed at. -/
  | putSection (index : Nat)
  | putRow (path : IndexPath) (key : ItemKey)
  /-- Check the group of a section, if there is one. -/
  | expectGroup (index : Nat) (group : GroupId)
deriving DecidableEq, Repr

def expectKey (l : SectionList) (p : IndexPath) (k : ItemKey) : Except ApplyError Unit :=
  match l.keyAt? p with
  | none => .error (.noRow p)
  | some found => if found = k then .ok () else .error (.wrongKey p k found)

def modifyKeys (l : SectionList) (i : Nat) (f : List ItemKey → List ItemKey) : SectionList :=
  l.modify i fun s => { s with keys := f s.keys }

def Step.perform (goal : SectionList) (l : SectionList) : Step → Except ApplyError SectionList
  | refuse cause => .error cause
  | expect p k => (l.expectKey p k).map fun _ => l
  | takeRow p k =>
    (l.expectKey p k).map fun _ => l.modifyKeys p.sectionIndex (·.eraseIdx p.row)
  | takeSection i => if i < l.length then .ok (l.eraseIdx i) else .error (.noSection i)
  | putSection i =>
    match goal[i]? with
    | some s => if i ≤ l.length then .ok (l.insertIdx i s) else .error (.noSection i)
    | none => .error (.noSection i)
  | putRow p k =>
    match l[p.sectionIndex]? with
    | some s =>
      if p.row ≤ s.keys.length then .ok (l.modifyKeys p.sectionIndex (·.insertIdx p.row k))
      else .error (.noRow p)
    | none => .error (.noSection p.sectionIndex)
  | expectGroup i g =>
    match l[i]? with
    | some s => if s.group = g then .ok l else .error (.wrongGroup i g s.group)
    | none => .ok l

/-! ## From changes to steps -/

/-- Whether the paths of an edit go with its kind. -/
def wellFormed : Change → Bool
  | .ofSection .. => true
  | .ofRow .delete _ (some _) none => true
  | .ofRow .insert _ none (some _) => true
  | .ofRow .move _ (some _) (some _) => true
  | .ofRow .update _ (some _) (some _) => true
  | .ofRow .. => false

/-- The row that an edit takes away. -/
def removal? : Change → Option (IndexPath × ItemKey)
  | .ofRow .delete k (some p) none => some (p, k)
  | .ofRow .move k (some p) (some _) => some (p, k)
  | _ => none

/-- The row that an edit puts in. -/
def insertion? : Change → Option (IndexPath × ItemKey)
  | .ofRow .insert k none (some q) => some (q, k)
  | .ofRow .move k (some _) (some q) => some (q, k)
  | _ => none

def refresh? : Change → Option (IndexPath × IndexPath × ItemKey)
  | .ofRow .update k (some p) (some q) => some (p, q, k)
  | _ => none

def sectionIndex? (e : SectionEdit) : Change → Option Nat
  | .ofSection e' i _ => if e' = e then some i else none
  | .ofRow .. => none

/-- A refusal if a path lies in one of these sections. -/
def guardReloaded (reloaded : List Nat) (p : IndexPath) : List Step :=
  if p.sectionIndex ∈ reloaded then [.refuse (.reloaded p)] else []

/-- The steps of a change list on the way to the display `goal`. -/
def plan (changes : List Change) (goal : SectionList) : List Step :=
  let removals := changes.filterMap removal?
  let insertions := changes.filterMap insertion?
  let refreshes := changes.filterMap refresh?
  let deleted := changes.filterMap (sectionIndex? .delete)
  let inserted := changes.filterMap (sectionIndex? .insert)
  ((changes.filter (!wellFormed ·)).map fun c => .refuse (.malformed c))
    ++ (removals.flatMap fun (p, _) => guardReloaded deleted p)
    ++ (refreshes.flatMap fun (p, _, k) => guardReloaded deleted p ++ [.expect p k])
    ++ ((removals.mergeSort fun x y => (compare y.1 x.1).isLE).map fun (p, k) => .takeRow p k)
    ++ ((deleted.mergeSort fun i j => j ≤ i).map .takeSection)
    ++ ((inserted.mergeSort fun i j => i ≤ j).map .putSection)
    ++ ((insertions.mergeSort fun x y => (compare x.1 y.1).isLE).flatMap fun (q, k) =>
      guardReloaded inserted q ++ [.putRow q k])
    ++ (refreshes.flatMap fun (_, q, k) => guardReloaded inserted q ++ [.expect q k])
    ++ (goal.zipIdx.map fun (s, i) => .expectGroup i s.group)

/-! ## Following a change list -/

structure Stopped where
  cause : ApplyError
  sections : SectionList
deriving DecidableEq, Repr

/-- Perform steps in order up to the first that fails. -/
def run (goal : SectionList) : List Step → SectionList → Except Stopped SectionList
  | [], l => .ok l
  | s :: rest, l =>
    match s.perform goal l with
    | .ok l => run goal rest l
    | .error cause => .error ⟨cause, l⟩

/-- Follow a change list on the way to the display `goal`. -/
def apply (l : SectionList) (changes : ChangeList) (goal : SectionList) :
    Except Stopped SectionList :=
  run goal (plan changes.changes goal) l

@[simp] theorem run_nil (goal l : SectionList) : run goal [] l = .ok l := rfl

theorem run_append (goal : SectionList) (s t : List Step) (l : SectionList) :
    run goal (s ++ t) l = (run goal s l).bind (run goal t) := by
  induction s generalizing l with
  | nil => rfl
  | cons x s ih =>
    rw [List.cons_append, run, run]
    cases x.perform goal l with
    | ok l' => exact ih l'
    | error cause => rfl

end SectionList

end GroupedView
