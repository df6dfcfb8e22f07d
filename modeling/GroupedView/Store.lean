import GroupedView.Transaction

/-!
# GroupedView.Store — items with a log of the transactions that changed them

A `Draft` holds the items as they will be, and the mutations noted so far: a request that changes an
item notes one mutation.  `Store.transact` runs a list of requests as one transaction and seals its
mutations in the log.
-/

open Std

namespace GroupedView

/-! ## Requests -/

inductive Request (V : Type) where
  /-- Insert a key, or replace its value, perhaps with a guess of the place of a new key. -/
  | set (key : ItemKey) (value : V) (hint : Option PositionHint)
  /-- Replace the value of a present key without an effect on its place. -/
  | touch (key : ItemKey) (value : V)
  | remove (key : ItemKey)
  | get (key : ItemKey)
  | contains (key : ItemKey)
  /-- The number of mutations noted so far. -/
  | size
deriving DecidableEq, Repr

inductive Reply (V : Type) where
  | done
  /-- Whether there was a key to work on. -/
  | found (b : Bool)
  | value (v : Option V)
  | size (n : Nat)
deriving DecidableEq, Repr

/-- A transaction in progress. -/
structure Draft (V : Type) where
  items : ItemMap V
  mutations : List (Mutation V) := []

namespace Draft

variable {V : Type} (d : Draft V)

def put (k : ItemKey) (v : V) (mu : Mutation V) : Draft V where
  items := d.items.insert k v
  mutations := d.mutations ++ [mu]

def drop (k : ItemKey) : Draft V where
  items := d.items.erase k
  mutations := d.mutations ++ [.delete k]

def perform : Request V → Reply V × Draft V
  | .set k v hint =>
    (.done, d.put k v (if d.items.contains k then .update k v true else .insert k v hint))
  | .touch k v =>
    if d.items.contains k then (.found true, d.put k v (.update k v false))
    else (.found false, d)
  | .remove k => if d.items.contains k then (.found true, d.drop k) else (.found false, d)
  | .get k => (.value d.items[k]?, d)
  | .contains k => (.found (d.items.contains k), d)
  | .size => (.size d.mutations.length, d)

def performAll : Draft V → List (Request V) → List (Reply V) × Draft V
  | d, [] => ([], d)
  | d, r :: rest =>
    let (reply, next) := d.perform r
    let (replies, final) := performAll next rest
    (reply :: replies, final)

end Draft

/-! ## The store -/

/-- Items, and the transactions that led to them from nothing. -/
structure Store (V : Type) where
  items : ItemMap V := ∅
  log : List (Transaction V) := []
  last : TransactionId := .zero

/-- The items as they were right after a transaction. -/
structure Snapshot (V : Type) where
  asOf : TransactionId
  items : List (ItemKey × V)
deriving DecidableEq, Repr

namespace Store

variable {V : Type} (s : Store V)

def empty : Store V := {}

/-- Seal a draft as the next transaction; also a draft without mutations counts. -/
def commit (d : Draft V) : Transaction V × Store V :=
  let t : Transaction V := ⟨s.last.next, d.mutations⟩
  (t, { items := d.items, log := s.log ++ [t], last := t.id })

def transact (requests : List (Request V)) : List (Reply V) × Transaction V × Store V :=
  let (replies, d) := Draft.performAll ⟨s.items, []⟩ requests
  (replies, s.commit d)

def get? (k : ItemKey) : Option V := s.items[k]?

def size : Nat := s.items.size

def isEmpty : Bool := s.items.isEmpty

/-- All items in the order of their keys, as of the last transaction. -/
def snapshot : Snapshot V := ⟨s.last, s.items.toList⟩

/-- The transactions with an id greater than `t`, in the order of their commits. -/
def pendingSince (t : TransactionId) : List (Transaction V) :=
  s.log.dropWhile fun r => (compare r.id t).isLE

end Store

end GroupedView
