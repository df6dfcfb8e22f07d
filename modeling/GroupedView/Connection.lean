import GroupedView.Display
import GroupedView.Script

/-!
# GroupedView.Connection — a display that processes one batch at a time

* A `Connection` is a display with a phase.  Its functions are scripts: while a batch is processed
  they may turn to the connection that called them.
* `Connection.process` refuses a batch while another is in progress; else it marks the connection,
  advances the display, and takes the mark away again whether that succeeded or not.  A refused
  batch leaves the display as it was.
* `Connection.processVerified` checks in addition that the edits lead from the sections before to
  the sections after.
-/

open Std

namespace GroupedView

/-- A display with the phase it is in. -/
structure Connection (S : Type) where
  display : Display S
  phase : Phase := .idle

/-- A connection that runs together with the state of its functions. -/
abbrev Running (S σ : Type) := StateM (Connection S × σ)

instance {S σ : Type} : MonadStateOf σ (Running S σ) where
  get := fun w => (w.2, w)
  set s := fun w => ((), w.1, s)
  modifyGet f := fun w => ((f w.2).1, w.1, (f w.2).2)

namespace Connection

variable {S σ V : Type}

def current : Running S σ (Connection S) := fun w => (w.1, w)

def update (f : Connection S → Connection S) : Running S σ Unit := fun w => ((), f w.1, w.2)

/-- What becomes of the requests of a script while the connection is running; `nested` processes
the transactions that it asks for. -/
def answer {α : Type} (nested : List (Transaction V) → Mapping → Running S σ Outcome)
    (x : Script σ V α) : Running S σ α :=
  x.run (do return some (← current).phase) fun records mapping => do
    return some (← nested records mapping)

/-- Carry out a script outside of a batch.  It sees no connection. -/
def outside {α : Type} (x : Script σ V α) : Running S σ α := fun w =>
  let (result, s) := x.detached.run w.2
  (result, w.1, s)

variable [BEq S] (a : Arrangement (Script σ V) V S)

/-- Process transactions; `nested` processes those that a function asks for meanwhile. -/
def processWith (nested : List (Transaction V) → Mapping → Running S σ Outcome)
    (records : List (Transaction V)) (mapping : Mapping) : Running S σ Outcome := do
  let start ← current
  match start.phase with
  | .processing => return .error .reentrant
  | .idle =>
    update fun c => { c with phase := .processing }
    match ← answer nested (start.display.advance a records mapping).run with
    | .ok (changes, display) =>
      update fun _ => { display, phase := .idle }
      return .ok changes
    | .error e =>
      update fun c => { c with phase := .idle }
      return .error e

def refuse (_ : List (Transaction V)) (_ : Mapping) : Running S σ Outcome :=
  return .error .reentrant

/-- Process transactions.  What the functions ask for meanwhile goes the same way; at that depth
the connection is never idle, so that a third level is never reached. -/
def process (records : List (Transaction V)) (mapping : Mapping) : Running S σ Outcome :=
  processWith a (processWith a refuse) records mapping

/-- Process everything that a store committed since the last transaction on display. -/
def catchUp (store : Store V) (mapping : Mapping) : Running S σ Outcome := do
  let c ← current
  process a (store.pendingSince c.display.last) mapping

def indexPathOf (k : ItemKey) : Running S σ (Option IndexPath) := do
  let c ← current
  outside (c.display.indexPathOf a k)

/-- Open a connection on a snapshot. -/
def ofSnapshot (snapshot : Snapshot V) (mapping : Mapping) :
    StateM σ (Except ViewError (Connection S)) := do
  let opened ← (Display.ofSnapshot a snapshot mapping).run.detached
  return opened.map fun display => { display }

def ofStore (store : Store V) (mapping : Mapping) : StateM σ (Except ViewError (Connection S)) :=
  ofSnapshot a store.snapshot mapping

/-! ## Processing with a check -/

inductive VerifyError where
  | refused (cause : ViewError)
  | unfit (cause : ApplyError)
  | diverged (applied expected : SectionList)
deriving DecidableEq, Repr

structure Verified where
  changes : ChangeList
  before : SectionList
  after : SectionList
deriving DecidableEq, Repr

/-- Check that edits lead from the sections before to the sections after. -/
def verify (changes : ChangeList) (before after : SectionList) : Except VerifyError Verified :=
  match before.apply changes after with
  | .error stopped => .error (.unfit stopped.cause)
  | .ok applied => if applied = after then .ok ⟨changes, before, after⟩
    else .error (.diverged applied after)

def processVerified (records : List (Transaction V)) (mapping : Mapping) :
    Running S σ (Except VerifyError Verified) := do
  let before := (← current).display.sections
  match ← process a records mapping with
  | .error e => return .error (.refused e)
  | .ok changes => return verify changes before (← current).display.sections

end Connection

end GroupedView
