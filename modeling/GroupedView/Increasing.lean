/-!
# GroupedView.Increasing — a longest increasing subsequence

* `deal` lays a value on the first pile whose top is not smaller, or on a new pile at the end.  A
  pile remembers a chain of positions that ends at its top: the value itself and, before it, the
  chain that the pile to the left had at that time.
* `longestIncreasing` marks the chain of the last pile once all values are dealt.
-/

namespace GroupedView

/-- A pile of values: the top one, and the positions of an increasing chain that ends there, the
last position first. -/
structure Pile where
  top : Nat
  chain : List Nat
deriving DecidableEq, Repr

/-- Lay the value `v` of position `i` on the first pile whose top is not smaller; `below` is the
chain of the pile to the left of the first one. -/
def deal (i v : Nat) (below : List Nat) : List Pile → List Pile
  | [] => [⟨v, i :: below⟩]
  | p :: ps =>
    if p.top < v then p :: deal i v p.chain ps else ⟨v, i :: below⟩ :: ps

def piles (xs : List Nat) : List Pile :=
  xs.zipIdx.foldl (fun ps (v, i) => deal i v [] ps) []

/-- The positions of a longest strictly increasing subsequence, the last one first. -/
def longestChain (xs : List Nat) : List Nat := (piles xs).getLast?.elim [] Pile.chain

/-- Mark the positions of a longest strictly increasing subsequence. -/
def longestIncreasing (xs : List Nat) : List Bool :=
  (List.range xs.length).map (longestChain xs).contains

@[simp] theorem longestIncreasing_length (xs : List Nat) :
    (longestIncreasing xs).length = xs.length := by
  simp [longestIncreasing]

theorem piles_concat (xs : List Nat) (v : Nat) :
    piles (xs ++ [v]) = deal xs.length v [] (piles xs) := by
  simp [piles, List.zipIdx_append, List.foldl_append]

end GroupedView
