/-!
# GroupedView.Minimize — a smaller list that still fails

* `minimize fails input` cuts a failing list down.  It splits the list into chunks, two at first,
  and tries the list without each chunk, then each chunk alone.  After a success it starts again
  with two chunks of what is left; else it doubles their number, until each holds one element.
* The lists are tried by a test with effects; `counted` is the one that counts how often it is made.
-/

namespace GroupedView

/-- What an attempt does with a chunk. -/
inductive Reduction where
  | removal
  | retention
deriving DecidableEq, Repr

structure Attempt where
  reduction : Reduction
  lengthBefore : Nat
  lengthAfter : Nat
  accepted : Bool
deriving DecidableEq, Repr

/-- What is left of a list, and how it came to that. -/
structure Minimized (α : Type) where
  result : List α
  attempts : List Attempt
  calls : Nat
deriving DecidableEq, Repr

/-! ## Chunks -/

section Chunks

variable {α : Type}

/-- The size of a chunk when a list of `length` elements is split into `n` parts. -/
def chunkSize (length n : Nat) : Nat := (length + n - 1) / n

theorem chunkSize_pos {length n : Nat} (hl : 0 < length) (hn : 0 < n) : 0 < chunkSize length n :=
  Nat.div_pos (by omega) hn

def chunkStarts (size length : Nat) : List Nat :=
  (List.range length).filter (· % size = 0)

/-- The list without one of its chunks of `size` elements, for each chunk. -/
def removals (size : Nat) (xs : List α) : List (List α) :=
  (chunkStarts size xs.length).map fun i => xs.take i ++ xs.drop (i + size)

/-- Each chunk of `size` elements alone, unless it is the whole list. -/
def retentions (size : Nat) (xs : List α) : List (List α) :=
  ((chunkStarts size xs.length).map fun i => (xs.drop i).take size).filter
    (·.length < xs.length)

theorem length_lt_of_mem_removals {size : Nat} (hs : 0 < size) {xs c : List α}
    (h : c ∈ removals size xs) : c.length < xs.length := by
  obtain ⟨i, hi, rfl⟩ := List.mem_map.mp h
  have hlt : i < xs.length := List.mem_range.mp (List.mem_filter.mp hi).1
  simp only [List.length_append, List.length_take, List.length_drop]
  omega

theorem length_lt_of_mem_retentions {size : Nat} {xs c : List α}
    (h : c ∈ retentions size xs) : c.length < xs.length := by
  simpa using (List.mem_filter.mp h).2

end Chunks

/-! ## Attempts -/

abbrev Shorter (α : Type) (length : Nat) := { c : List α // c.length < length }

section Attempts

variable {m : Type → Type} [Monad m] {α : Type} (test : List α → m Bool)

/-- Try candidates in order up to the first that fails. -/
def tryEach (reduction : Reduction) {length : Nat} :
    List (Shorter α length) → m (List Attempt × Option (Shorter α length))
  | [] => return ([], none)
  | c :: rest => do
    if ← test c.1 then return ([⟨reduction, length, c.1.length, true⟩], some c)
    else
      let (attempts, found) ← tryEach reduction rest
      return (⟨reduction, length, c.1.length, false⟩ :: attempts, found)

/-- Try all removals, then all retentions, up to the first that fails. -/
def tryChunks (xs : List α) (size : Nat) (hs : 0 < size) :
    m (List Attempt × Option (Shorter α xs.length)) := do
  let (attempts, found) ← tryEach test .removal
    ((removals size xs).attachWith (·.length < xs.length) fun _ => length_lt_of_mem_removals hs)
  match found with
  | some c => return (attempts, some c)
  | none =>
    let (more, found) ← tryEach test .retention
      ((retentions size xs).attachWith (·.length < xs.length) fun _ => length_lt_of_mem_retentions)
    return (attempts ++ more, found)

/-- Cut down a list that fails, with `n` chunks at first. -/
def reduce (xs : List α) (n : Nat) (hn : 2 ≤ n) : m (List α × List Attempt) :=
  if hx : xs = [] then return (xs, [])
  else do
    let (attempts, found) ← tryChunks test xs (chunkSize xs.length n)
      (chunkSize_pos (List.length_pos_iff.mpr hx) (Nat.lt_of_lt_of_le Nat.two_pos hn))
    match found with
    | some ⟨c, hc⟩ =>
      let (result, more) ← reduce c 2 (Nat.le_refl 2)
      return (result, attempts ++ more)
    | none =>
      if hd : xs.length ≤ n then return (xs, attempts)
      else
        let (result, more) ← reduce xs (min (n * 2) xs.length) (by omega)
        return (result, attempts ++ more)
termination_by (xs.length, xs.length - n)
decreasing_by
  · exact Prod.Lex.left _ _ hc
  · exact Prod.Lex.right _ (by omega)

def reduceFailing (input : List α) : m (List α × List Attempt) := do
  if ← test input then reduce test input 2 (Nat.le_refl 2) else return (input, [])

end Attempts

variable {α : Type}

def counted (fails : List α → Bool) (c : List α) : StateM Nat Bool := do
  modify (· + 1)
  return fails c

/-- Cut a list down while it fails; a list that does not fail is returned as it is. -/
def minimize (fails : List α → Bool) (input : List α) : Minimized α :=
  let (reduced, calls) := (reduceFailing (counted fails) input).run 0
  ⟨reduced.1, reduced.2, calls⟩

end GroupedView
