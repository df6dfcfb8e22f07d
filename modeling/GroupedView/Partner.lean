import GroupedView.ChangeList

/-!
# GroupedView.Partner — observers of single rows

A registry notes which partner follows which key.  It does not keep partners alive: whether one
is, is asked of a function `alive` from outside at every operation that depends on it.
A call to a partner is an effect; `Registry.notify` takes down the calls.
-/

open Std

namespace GroupedView

structure PartnerId where
  number : UInt64
deriving DecidableEq, Repr

structure PartnerEntry (P : Type) where
  id : PartnerId
  partner : P
deriving DecidableEq, Repr

/-- Registered partners by the key that they follow. -/
structure Registry (P : Type) where
  next : UInt64 := 0
  /-- The entries of each followed key, in the order of their registration. -/
  entries : ItemMap (List (PartnerEntry P)) := ∅

/-- A call to a partner about a change to the row of a key. -/
structure Notice (P : Type) where
  partner : P
  key : ItemKey
  change : Change
deriving DecidableEq, Repr

/-- What a pass over a change list has come to. -/
structure Pass where
  delivered : Nat := 0
  metDead : Bool := false
deriving DecidableEq, Repr

/-- The key whose partners are called about a change: that of a row that moves or has a new
value. -/
def Change.followed? : Change → Option ItemKey
  | .ofRow .move k _ _ | .ofRow .update k _ _ => some k
  | _ => none

namespace Registry

variable {P : Type} (r : Registry P)

def empty : Registry P := {}

def followers (k : ItemKey) : List (PartnerEntry P) := r.entries[k]?.getD []

/-- The sum of what `f` gives for the entries of each followed key. -/
def total (f : List (PartnerEntry P) → Nat) : Nat :=
  r.entries.toList.foldr (fun x n => f x.2 + n) 0

/-- The number of entries, those of dead partners included. -/
def size : Nat := r.total List.length

def isEmpty : Bool := r.entries.isEmpty

def keyCount : Nat := r.entries.size

def register (k : ItemKey) (p : P) : PartnerId × Registry P :=
  let id : PartnerId := ⟨r.next⟩
  (id, { next := r.next + 1, entries := r.entries.insert k (r.followers k ++ [⟨id, p⟩]) })

section Retain

variable (test : PartnerEntry P → Bool)

/-- Keep the entries that pass a test; keys without entries are forgotten. -/
def retain : Registry P where
  next := r.next
  entries := r.entries.filterMap fun _ l =>
    let kept := l.filter test
    if kept.isEmpty then none else some kept

def countFailing : Nat := r.total fun l => l.length - (l.filter test).length

end Retain

/-- Remove the entry of a registration, and tell whether there was one. -/
def unregister (id : PartnerId) : Bool × Registry P :=
  (r.countFailing (·.id ≠ id) ≠ 0, r.retain (·.id ≠ id))

/-- Remove the entries of dead partners, and tell how many there were. -/
def prune (alive : P → Bool) : Nat × Registry P :=
  (r.countFailing (alive ·.partner), r.retain (alive ·.partner))

/-! ## Delivery -/

section Delivery

variable {m : Type → Type} [Monad m] (alive : P → Bool) (call : Notice P → m Unit)

def meet (pass : Pass) (n : Notice P) : m Pass :=
  if alive n.partner then do
    call n
    return { pass with delivered := pass.delivered + 1 }
  else return { pass with metDead := true }

def tell (pass : Pass) (c : Change) : m Pass :=
  match c.followed? with
  | none => return pass
  | some k =>
    match r.entries[k]? with
    | none => return pass
    | some l => l.foldlM (fun pass e => meet alive call pass ⟨e.partner, k, c⟩) pass

/-- Call partners about each change in order, and tell how many calls were made.  If a dead partner
was met, all entries of dead partners are removed. -/
def deliver (changes : ChangeList) : m (Nat × Registry P) := do
  let pass ← changes.changes.foldlM (r.tell alive call) {}
  return (pass.delivered, if pass.metDead then (r.prune alive).2 else r)

end Delivery

def note (n : Notice P) : StateM (List (Notice P)) Unit := modify (· ++ [n])

/-- The calls that a change list causes, in order, and the registry after them. -/
def notify (alive : P → Bool) (changes : ChangeList) : List (Notice P) × Registry P :=
  let ((_, r'), notices) := (r.deliver alive note changes).run []
  (notices, r')

end Registry

end GroupedView
