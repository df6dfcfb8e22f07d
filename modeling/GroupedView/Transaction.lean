import GroupedView.Item

/-!
# GroupedView.Transaction — mutations of items and the transactions that carry them

`TransactionId` counts commits in 64 bits; `TransactionId.next` stays at the largest id, and below
it adds one (`TransactionId.toNat_next`).
-/

open Std

namespace GroupedView

/-! ## Transaction ids -/

/-- The number of a committed transaction; a store that committed nothing is at `0`. -/
structure TransactionId where
  number : UInt64
deriving DecidableEq, Repr, Inhabited

namespace TransactionId

def zero : TransactionId := ⟨0⟩

def last : TransactionId := ⟨0xFFFFFFFFFFFFFFFF⟩

/-- The number of an id, without the bound of its representation. -/
def toNat (t : TransactionId) : Nat := t.number.toNat

instance : Ord TransactionId := ⟨compareOn TransactionId.number⟩

instance : TransOrd TransactionId := inferInstanceAs (TransCmp (compareOn TransactionId.number))

/-- The id that the next commit carries; the largest id has no successor and is kept. -/
def next (t : TransactionId) : TransactionId :=
  if t = last then last else ⟨t.number + 1⟩

@[simp] theorem next_last : next last = last := rfl

theorem toNat_next {t : TransactionId} (h : t ≠ last) : t.next.toNat = t.toNat + 1 := by
  rw [next, if_neg h]
  show (t.number + 1).toNat = t.number.toNat + 1
  have hne : t.number.toNat ≠ 2 ^ 64 - 1 := fun he =>
    h (by cases t; rw [last, mk.injEq]; exact UInt64.toNat_inj.mp he)
  have hlt := t.number.toNat_lt
  rw [UInt64.toNat_add]
  simp only [UInt64.reduceToNat]
  omega

def text (t : TransactionId) : String := "txn#" ++ toString t.number

end TransactionId

/-! ## Mutations -/

/-- A writer's guess of where an inserted item lands. -/
structure PositionHint where
  group : GroupId
  index : Nat
deriving DecidableEq, Repr

/-- One committed change to a single item. -/
inductive Mutation (V : Type) where
  | insert (key : ItemKey) (value : V) (hint : Option PositionHint)
  /-- A new value for a key. When `layout` is false the writer asserts that neither the group nor
  the order of the item changes. -/
  | update (key : ItemKey) (value : V) (layout : Bool)
  | delete (key : ItemKey)
  /-- A new value for a key that the writer knows to go from the group `source` to `target`. -/
  | move (key : ItemKey) (value : V) (source target : GroupId)
deriving DecidableEq, Repr

inductive MutationKind where
  | insert
  | update
  | delete
  | move
deriving DecidableEq, Repr

namespace Mutation

variable {V : Type}

def key : Mutation V → ItemKey
  | insert k _ _ | update k _ _ | delete k | move k _ _ _ => k

def value? : Mutation V → Option V
  | insert _ v _ | update _ v _ | move _ v _ _ => some v
  | delete _ => none

def kind : Mutation V → MutationKind
  | insert .. => .insert
  | update .. => .update
  | delete .. => .delete
  | move .. => .move

/-- Updates and moves give a key that stays a new value. -/
def refreshes : Mutation V → Bool
  | update .. | move .. => true
  | insert .. | delete .. => false

end Mutation

/-- The mutations of one commit, in order, under the id of the commit. -/
structure Transaction (V : Type) where
  id : TransactionId
  mutations : List (Mutation V)
deriving DecidableEq, Repr

end GroupedView
