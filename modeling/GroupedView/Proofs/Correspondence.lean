import GroupedView.Display
import GroupedView.Proofs.Batch.Fold
import GroupedView.Proofs.Store

/-!
# GroupedView.Proofs.Correspondence — computations of a view that go alike

Two arrangements may differ in their monads, in their options or in their functions, and yet all
that a view computes with one corresponds to what it computes with the other.  What it takes for
that is said once.

* A `Correspondence` is a relation between checked effects that keeps answers and refusals and goes
  along with a sequence of effects.
* `Correspondence.Relates R a b` says that `R` relates the steps of a computation in which the
  arrangements `a` and `b` take part themselves: the guarded calls of their functions, a search, a
  look-up, and the check of a mapping.
* From there `R` relates whatever is made of such steps: a mutation (`Relates.apply`), a batch
  (`Relates.compute`), the advance of a display (`Relates.advance`) and its opening
  (`Relates.ofSnapshot`).
-/

open MonadAttach (CanReturn)
open LawfulMonadAttach

namespace GroupedView

/-- A relation between checked effects.  It goes along with a sequence of effects if the second one
is related for each answer that the first one can come to.  A view never refuses for being in use,
so that this refusal need not be related to itself. -/
structure Correspondence (m n : Type → Type) [Monad m] [Monad n] [MonadAttach m] where
  Rel : {α : Type} → Checked m α → Checked n α → Prop
  rel_pure {α : Type} (x : α) : Rel (pure x) (pure x)
  rel_throw {α : Type} {e : ViewError} (he : e ≠ .reentrant) :
    Rel (throw e : Checked m α) (throw e)
  rel_bind {α β : Type} {x : Checked m α} {y : Checked n α} {f : α → Checked m β}
    {g : α → Checked n β} (h : Rel x y) (hf : ∀ a, CanReturn x a → Rel (f a) (g a)) :
    Rel (x >>= f) (y >>= g)

/-- The edits for new sections are made once the new mapping is checked. -/
theorem NetChanges.mk_changeList {m : Type → Type} [Monad m] [LawfulMonad m] (changes : NetChanges)
    (policy : MappingPolicy) (old new : Mapping) :
    (ExceptT.mk (pure (changes.changeList policy old new)) : Checked m ChangeList) =
      ExceptT.mk (pure (new.validate policy changes.isKnown)) >>= fun _ =>
        pure ⟨(changes.relayout old new).edits changes.rows⟩ := by
  unfold changeList
  cases new.validate policy changes.isKnown with
  | ok u => exact Eq.symm (pure_bind u _)
  | error e => exact Eq.symm (throw_bind _)

namespace Correspondence

variable {m n : Type → Type} [Monad m] [Monad n] [MonadAttach m]

/-- The steps of a computation that an arrangement takes part in are related. -/
structure Relates {V S : Type} [BEq S] (R : Correspondence m n) (a : Arrangement m V S)
    (b : Arrangement n V S) : Prop where
  admits : ∀ k, a.options.admits k = b.options.admits k
  groupOf : ∀ k value, R.Rel (a.groupOf k value) (b.groupOf k value)
  sortKeyOf : ∀ k value, R.Rel (a.sortKeyOf k value) (b.sortKeyOf k value)
  search : ∀ rows target, R.Rel (a.search rows target) (b.search rows target)
  precedes : ∀ r s, R.Rel (ExceptT.lift (a.precedes r s)) (ExceptT.lift (b.precedes r s))
  positionOf : ∀ (v : View S) k, v.WellFormed →
    R.Rel (ExceptT.lift (v.positionOf a k)) (ExceptT.lift (v.positionOf b k))
  validate : ∀ (mapping : Mapping) isKnown,
    R.Rel (ExceptT.mk (pure (mapping.validate a.options.policy isKnown)))
      (ExceptT.mk (pure (mapping.validate b.options.policy isKnown)))

/-! ## Sequences of related effects -/

section Sequences

variable (R : Correspondence m n) {α β : Type}

theorem rel_mk {x : Except ViewError α} (hx : x ≠ .error .reentrant) :
    R.Rel (ExceptT.mk (pure x)) (ExceptT.mk (pure x)) := by
  cases x with
  | ok a => exact R.rel_pure a
  | error e => exact R.rel_throw fun he => hx (congrArg _ he)

theorem rel_foldlM {f : β → α → Checked m β} {g : β → α → Checked n β}
    (hstep : ∀ s x, R.Rel (f s x) (g s x)) (l : List α) (s : β) :
    R.Rel (l.foldlM f s) (l.foldlM g s) := by
  induction l generalizing s with
  | nil => exact R.rel_pure s
  | cons x l ih =>
    rw [List.foldlM_cons, List.foldlM_cons]
    exact R.rel_bind (hstep s x) fun t _ => ih t

variable [LawfulMonad m] [LawfulMonad n]

theorem rel_lift_pure (x : α) : R.Rel (ExceptT.lift (pure x)) (ExceptT.lift (pure x)) := by
  rw [lift_pure, lift_pure]
  exact R.rel_pure x

theorem rel_lift_bind {x : m α} {y : n α} {f : α → m β} {g : α → n β}
    (h : R.Rel (ExceptT.lift x) (ExceptT.lift y))
    (hf : ∀ a, R.Rel (ExceptT.lift (f a)) (ExceptT.lift (g a))) :
    R.Rel (ExceptT.lift (x >>= f)) (ExceptT.lift (y >>= g)) := by
  rw [lift_bind, lift_bind]
  exact R.rel_bind h fun a _ => hf a

theorem rel_mapM {f : α → m β} {g : α → n β}
    (hstep : ∀ x, R.Rel (ExceptT.lift (f x)) (ExceptT.lift (g x))) (l : List α) :
    R.Rel (ExceptT.lift (l.mapM f)) (ExceptT.lift (l.mapM g)) := by
  induction l with
  | nil =>
    rw [List.mapM_nil, List.mapM_nil]
    exact R.rel_lift_pure []
  | cons x l ih =>
    rw [List.mapM_cons, List.mapM_cons]
    exact R.rel_lift_bind (hstep x) fun y => R.rel_lift_bind ih fun ys => R.rel_lift_pure _

end Sequences

/-! ## From the steps to the advance of a display -/

namespace Relates

section Steps

variable {V S : Type} [BEq S] [LawfulMonad m] [LawfulMonad n] {R : Correspondence m n}
  {a : Arrangement m V S} {b : Arrangement n V S} (h : R.Relates a b) {v : View S} {k : ItemKey}
  {value : V}
include h

theorem hintedIndex {rows : List (Row S)} {hint : PositionHint} {g : GroupId} {row : Row S} :
    R.Rel (ExceptT.lift (a.hintedIndex rows hint g row))
      (ExceptT.lift (b.hintedIndex rows hint g row)) := by
  unfold Arrangement.hintedIndex
  by_cases hin : hint.group = g ∧ hint.index ≤ rows.length
  · rw [if_pos hin, if_pos hin]
    refine R.rel_lift_bind (h.precedes _ _) fun afterPrevious => ?_
    exact R.rel_lift_bind (h.precedes _ _) fun beforeNext => R.rel_lift_pure _
  · rw [if_neg hin, if_neg hin]
    exact R.rel_lift_pure none

theorem insertionIndex {rows : List (Row S)} {g : GroupId} {row : Row S}
    {hint : Option PositionHint} :
    R.Rel (a.insertionIndex rows g row hint) (b.insertionIndex rows g row hint) := by
  have hnone : R.Rel (a.insertionIndex rows g row none) (b.insertionIndex rows g row none) := by
    rw [Arrangement.insertionIndex_none, Arrangement.insertionIndex_none]
    refine R.rel_bind (h.search rows row) fun s _ => ?_
    cases s with
    | gap i => exact R.rel_pure i
    | found i => exact R.rel_throw nofun
  cases hint with
  | none => exact hnone
  | some hint =>
    rw [Arrangement.insertionIndex_some, Arrangement.insertionIndex_some]
    refine R.rel_bind h.hintedIndex fun hinted _ => ?_
    cases hinted with
    | none => exact hnone
    | some i => exact R.rel_pure i

omit [LawfulMonad m] [LawfulMonad n] in
theorem find {pl : Placement S} : R.Rel (v.find a k pl) (v.find b k pl) := by
  unfold View.find
  refine R.rel_bind (h.search _ _) fun s _ => ?_
  cases s with
  | found i => exact R.rel_pure _
  | gap i => exact R.rel_throw nofun

theorem place {g : GroupId} {row : Row S} {hint : Option PositionHint} :
    R.Rel (v.place a g row hint) (v.place b g row hint) := by
  unfold View.place
  exact R.rel_bind h.insertionIndex fun i _ => R.rel_pure _

theorem enter {hint : Option PositionHint} :
    R.Rel (v.enter a k value hint) (v.enter b k value hint) := by
  unfold View.enter
  refine R.rel_bind (h.groupOf k value) fun g _ => ?_
  cases g with
  | none => exact R.rel_pure _
  | some g =>
    refine R.rel_bind (h.sortKeyOf k value) fun s _ => ?_
    exact R.rel_bind h.place fun _ _ => R.rel_pure _

theorem insert {hint : Option PositionHint} :
    R.Rel (v.insert a k value hint) (v.insert b k value hint) := by
  unfold View.insert
  cases v.contains k || v.isExcluded k with
  | true => exact R.rel_throw nofun
  | false => exact h.enter

theorem updateRow {pl : Placement S} {layout : Bool} :
    R.Rel (v.updateRow a k value pl layout) (v.updateRow b k value pl layout) := by
  unfold View.updateRow
  refine R.rel_bind h.find fun old _ => ?_
  cases layout with
  | false => exact R.rel_pure _
  | true =>
    refine R.rel_bind (h.groupOf k value) fun g _ => ?_
    cases g with
    | none => exact R.rel_pure _
    | some g =>
      refine R.rel_bind (h.sortKeyOf k value) fun s _ => ?_
      dsimp only
      cases decide (g = pl.group) && s == pl.sortKey with
      | true => exact R.rel_pure _
      | false => exact R.rel_bind h.place fun _ _ => R.rel_pure _

theorem update {layout : Bool} :
    R.Rel (v.update a k value layout) (v.update b k value layout) := by
  unfold View.update
  cases v.placements[k]? with
  | some pl => exact h.updateRow
  | none =>
    cases v.isExcluded k with
    | false => exact R.rel_throw nofun
    | true =>
      cases layout with
      | true => exact h.enter
      | false => exact R.rel_pure _

omit [LawfulMonad m] [LawfulMonad n] in
theorem delete : R.Rel (v.delete a k) (v.delete b k) := by
  unfold View.delete
  cases v.placements[k]? with
  | some pl => exact R.rel_bind h.find fun old _ => R.rel_pure _
  | none =>
    cases v.isExcluded k with
    | true => exact R.rel_pure _
    | false => exact R.rel_throw nofun

theorem move {source target : GroupId} :
    R.Rel (v.move a k value source target) (v.move b k value source target) := by
  unfold View.move
  cases v.placements[k]? with
  | none => exact R.rel_throw nofun
  | some pl =>
    by_cases hsource : pl.group ≠ source
    · simp only [if_pos hsource]
      exact R.rel_throw nofun
    · simp only [if_neg hsource]
      refine R.rel_bind (h.groupOf k value) fun g _ => ?_
      by_cases htarget : g ≠ some target
      · rw [if_pos htarget, if_pos htarget]
        exact R.rel_throw nofun
      · rw [if_neg htarget, if_neg htarget]
        refine R.rel_bind (h.sortKeyOf k value) fun s _ => ?_
        refine R.rel_bind h.find fun old _ => ?_
        exact R.rel_bind h.place fun _ _ => R.rel_pure _

/-- What becomes of one mutation is related. -/
theorem apply {mu : Mutation V} : R.Rel (v.apply a mu) (v.apply b mu) := by
  unfold View.apply
  rw [h.admits]
  cases b.options.admits mu.key with
  | false => exact R.rel_pure _
  | true =>
    cases mu with
    | insert k value hint => exact h.insert
    | update k value layout => exact h.update
    | delete k => exact h.delete
    | move k value source target => exact h.move

theorem seed (items : List (ItemKey × V)) : R.Rel (View.seed a items) (View.seed b items) :=
  R.rel_foldlM (fun _ _ => R.rel_bind h.apply fun _ _ => R.rel_pure _) _ _

theorem step {pre : View S} (hpre : pre.WellFormed) {f : Fold S} {mu : Mutation V} :
    R.Rel (Fold.step a pre f mu) (Fold.step b pre f mu) := by
  rw [Fold.step_eq, Fold.step_eq]
  refine R.rel_bind h.apply fun r _ => ?_
  unfold Fold.absorb
  by_cases he : r.2 = .untouched
  · rw [if_pos he, if_pos he]
    exact R.rel_pure _
  · rw [if_neg he, if_neg he]
    cases f.tracks[mu.key]? with
    | some t => exact R.rel_bind (R.rel_pure t) fun _ _ => R.rel_pure _
    | none =>
      refine R.rel_bind (h.positionOf pre _ hpre) fun origin _ => ?_
      exact R.rel_bind (R.rel_pure _) fun _ _ => R.rel_pure _

theorem netChanges {pre post : View S} (hpost : post.WellFormed) {tracks : ItemMap Track} :
    R.Rel (ExceptT.lift (netChanges a pre post tracks))
      (ExceptT.lift (GroupedView.netChanges b pre post tracks)) := by
  unfold GroupedView.netChanges verdicts
  refine R.rel_lift_bind (R.rel_mapM (fun x => ?_) _) fun _ => R.rel_lift_pure _
  exact R.rel_lift_bind (h.positionOf post _ hpost) fun _ => R.rel_lift_pure _

/-- What becomes of a snapshot is related. -/
theorem ofSnapshot (snapshot : Snapshot V) (mapping : Mapping) :
    R.Rel (Display.ofSnapshot a snapshot mapping) (Display.ofSnapshot b snapshot mapping) := by
  unfold Display.ofSnapshot
  refine R.rel_bind (h.seed _) fun v _ => ?_
  exact R.rel_bind (h.validate mapping _) fun _ _ => R.rel_pure _

end Steps

section Runs

variable {V S : Type} [BEq S] [LawfulMonad m] [LawfulMonad n] [LawfulMonadAttach m]
  {R : Correspondence m n} {a : Arrangement m V S} {b : Arrangement n V S} (h : R.Relates a b)
include h

/-- What becomes of a batch is related. -/
theorem compute {pre : View S} (hpre : pre.WellFormed) (batch : List (Mutation V)) :
    R.Rel (pre.compute a batch) (pre.compute b batch) := by
  unfold View.compute
  refine R.rel_bind (R.rel_foldlM (fun _ _ => h.step hpre) batch _) fun f hf => ?_
  -- the positions after the batch are looked up in a view that is well-formed again
  have hpost := (Fold.sound_of_canReturn_foldlM hpre hf).wellFormed
  exact R.rel_bind (h.netChanges hpost) fun _ _ => R.rel_pure _

omit [LawfulMonadAttach m] in
theorem changeList {changes : NetChanges} {old new : Mapping} :
    R.Rel (ExceptT.mk (pure (changes.changeList a.options.policy old new)))
      (ExceptT.mk (pure (changes.changeList b.options.policy old new))) := by
  rw [changes.mk_changeList, changes.mk_changeList]
  exact R.rel_bind (h.validate new _) fun _ _ => R.rel_pure _

/-- What becomes of transactions and a new mapping is related. -/
theorem advance {d : Display S} (hd : d.view.WellFormed) (records : List (Transaction V))
    (mapping : Mapping) : R.Rel (d.advance a records mapping) (d.advance b records mapping) := by
  unfold Display.advance
  refine R.rel_bind (R.rel_mk ?_) fun _ _ => ?_
  · rcases checkSequence_cases d.last records with hsequence | ⟨expected, found, hsequence⟩
    · rw [hsequence]
      exact nofun
    · rw [hsequence]
      exact nofun
  · exact R.rel_bind (h.compute hd _) fun _ _ => R.rel_bind h.changeList fun _ _ => R.rel_pure _

end Runs

end Relates

end Correspondence

end GroupedView
