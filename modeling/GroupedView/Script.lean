import GroupedView.ChangeList
import GroupedView.Mapping

/-!
# GroupedView.Script — what a function supplied to a connection may do

A function that groups or orders the items of a connection may keep a state of its own, look at the
phase of the connection, and ask the connection to process transactions, before it answers.  A
`Script` is such a course of action as a tree: each node is an action, with the continuation for
each of its outcomes.  Scripts form a lawful monad with a state.
-/

open Std

namespace GroupedView

inductive Phase where
  | idle
  | processing
deriving DecidableEq, Repr, Inhabited

abbrev Outcome := Except ViewError ChangeList

/-- A course of action with a state of type `σ` that ends in an answer.  A request to a connection
is answered by `none` if there is no connection yet. -/
inductive Script (σ V α : Type) : Type where
  | done (answer : α)
  | look (next : σ → Script σ V α)
  | keep (s : σ) (next : Script σ V α)
  | askPhase (next : Option Phase → Script σ V α)
  | askProcess (records : List (Transaction V)) (mapping : Mapping)
    (next : Option Outcome → Script σ V α)

namespace Script

variable {σ V α β γ : Type}

def andThen : Script σ V α → (α → Script σ V β) → Script σ V β
  | done x, f => f x
  | look next, f => look fun s => (next s).andThen f
  | keep s next, f => keep s (next.andThen f)
  | askPhase next, f => askPhase fun p => (next p).andThen f
  | askProcess records mapping next, f => askProcess records mapping fun o => (next o).andThen f

instance : Monad (Script σ V) where
  pure := done
  bind := andThen

theorem andThen_done (x : Script σ V α) : x.andThen done = x := by
  induction x with
  | done x => rfl
  | look next ih => exact congrArg look (funext ih)
  | keep s next ih => exact congrArg (keep s) ih
  | askPhase next ih => exact congrArg askPhase (funext ih)
  | askProcess records mapping next ih => exact congrArg (askProcess records mapping) (funext ih)

theorem andThen_assoc (x : Script σ V α) (f : α → Script σ V β) (g : β → Script σ V γ) :
    (x.andThen f).andThen g = x.andThen fun a => (f a).andThen g := by
  induction x with
  | done x => rfl
  | look next ih => exact congrArg look (funext ih)
  | keep s next ih => exact congrArg (keep s) ih
  | askPhase next ih => exact congrArg askPhase (funext ih)
  | askProcess records mapping next ih => exact congrArg (askProcess records mapping) (funext ih)

instance : LawfulMonad (Script σ V) :=
  LawfulMonad.mk' (Script σ V) andThen_done (fun _ _ => rfl) andThen_assoc

instance : MonadStateOf σ (Script σ V) where
  get := look done
  set s := keep s (done ())
  modifyGet f := look fun s => keep (f s).2 (done (f s).1)

/-- Carry out a script in a monad with its state.  `phase` and `process` say what becomes of its
requests. -/
def run {n : Type → Type} [Monad n] [MonadStateOf σ n] (phase : n (Option Phase))
    (process : List (Transaction V) → Mapping → n (Option Outcome)) : Script σ V α → n α
  | done x => pure x
  | look next => do (next (← get)).run phase process
  | keep s next => do
    set s
    next.run phase process
  | askPhase next => do (next (← phase)).run phase process
  | askProcess records mapping next => do
    (next (← process records mapping)).run phase process

/-- Carry out a script when there is no connection to ask. -/
def detached (x : Script σ V α) : StateM σ α :=
  x.run (pure none) fun _ _ => pure none

end Script

end GroupedView
