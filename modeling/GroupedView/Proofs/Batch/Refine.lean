import GroupedView.Proofs.Batch.NetEffect
import GroupedView.Proofs.View.Run

/-!
# GroupedView.Proofs.Batch.Refine — a batch keeps the naive account

If the functions of a view are lawful, a batch that the ledger accepts is folded without effects
and without a refusal, into a view that shows what the ledger says afterwards
(`View.Refines.compute`).
-/

open Std

namespace GroupedView

variable {m : Type → Type} [Monad m] [LawfulMonad m] {V S : Type} {b : Arrangement Id V S}
  {pre : View S} {f : Fold S} {l₀ l l' : Ledger S}

namespace Fold

/-- What is known after a batch is what the view after it knows. -/
theorem isKnown_netChanges (g : GroupId) : (f.netChanges pre).isKnown g = f.view.isKnown g := by
  rw [netChanges, NetChanges.ofRows, NetChanges.isKnown, View.isKnown,
    ExtTreeMap.contains_eq_isSome_getElem?, getElem?_lengthsBetween, Bool.eq_iff_iff,
    ExtTreeSet.contains_iff_mem]
  split
  · next hg => simp [hg]
  · next hg => simp [hg]

theorem netChanges_carry (hb : b.Lawful) (h : f.view.Refines b l) :
    GroupedView.netChanges (b.carry m) pre f.view f.tracks = pure (f.netChanges pre) := by
  have hverdicts : GroupedView.verdicts (b.carry m) f.view f.tracks = pure f.verdicts := by
    unfold GroupedView.verdicts
    simp only [h.positionOf_carry hb, pure_bind]
    rw [List.mapM_pure, Fold.verdicts]
  rw [GroupedView.netChanges, hverdicts, pure_bind]
  rfl

variable [BEq S] [LawfulBEq S]

/-- A step that the ledger accepts is made and noted. -/
theorem step_carry (hb : b.Lawful) (hpre : pre.Refines b l₀) (h : f.view.Refines b l)
    {mu : Mutation V} (hl : l.apply b mu = .ok l') :
    ∃ v e, f.view.apply (b.carry m) mu = pure (v, e) ∧ v.Refines b l' ∧
      Fold.step (b.carry m) pre f mu = pure (f.after pre mu v e) := by
  obtain ⟨v, e, hv, hrefines⟩ := h.apply_of_ok hb hl (m := m)
  refine ⟨v, e, hv, hrefines, ?_⟩
  rw [step_eq, hv, pure_bind, absorb_eq_pure (hpre.positionOf_carry hb _)]

theorem foldlM_carry (hb : b.Lawful) (hpre : pre.Refines b l₀) (h : f.view.Refines b l)
    {batch : List (Mutation V)} (hl : l.applyAll b batch = .ok l') :
    ∃ f', batch.foldlM (Fold.step (b.carry m) pre) f = pure f' ∧ f'.view.Refines b l' := by
  induction batch generalizing f l with
  | nil =>
    cases hl
    exact ⟨f, rfl, h⟩
  | cons mu batch ih =>
    obtain ⟨next, hmu, hl⟩ := Ledger.applyAll_cons_eq_ok.mp hl
    obtain ⟨v, e, -, hnext, hstep⟩ := step_carry hb hpre h hmu (m := m)
    obtain ⟨f', hf', hend⟩ := ih (f := f.after pre mu v e) hnext hl
    refine ⟨f', ?_, hend⟩
    rw [List.foldlM_cons, hstep, pure_bind, hf']

theorem foldlM_carry_of_error (hb : b.Lawful) (hpre : pre.Refines b l₀) (h : f.view.Refines b l)
    {batch : List (Mutation V)} {e : ViewError} (hl : l.applyAll b batch = .error e) :
    batch.foldlM (Fold.step (b.carry m) pre) f = throw e := by
  induction batch generalizing f l with
  | nil => cases hl
  | cons mu batch ih =>
    rw [Ledger.applyAll_cons] at hl
    rw [List.foldlM_cons]
    cases hmu : l.apply b mu with
    | error e' =>
      rw [hmu] at hl
      cases hl
      rw [step_eq, h.apply_of_error hb hmu, throw_bind, throw_bind]
    | ok next =>
      rw [hmu] at hl
      obtain ⟨v, effect, -, hnext, hstep⟩ := step_carry hb hpre h hmu (m := m)
      rw [hstep, pure_bind]
      exact ih (f := f.after pre mu v effect) hnext hl

end Fold

/-- An accepted batch leads to a view that shows what the ledger says after it. -/
theorem View.Refines.compute [BEq S] [LawfulBEq S] (hb : b.Lawful) (h : pre.Refines b l)
    {batch : List (Mutation V)} (hl : l.applyAll b batch = .ok l') :
    ∃ f : Fold S, batch.foldlM (Fold.step (b.carry m) pre) { view := pre } = pure f ∧
      f.view.Refines b l' ∧
      pre.compute (b.carry m) batch = pure ⟨f.view, f.netChanges pre, batch.length⟩ := by
  obtain ⟨f, hf, hrefines⟩ := Fold.foldlM_carry hb h (f := { view := pre }) h hl (m := m)
  refine ⟨f, hf, hrefines, ?_⟩
  rw [View.compute, hf, pure_bind, Fold.netChanges_carry hb hrefines, lift_pure, pure_bind]

/-- A batch that the ledger refuses is refused with the same error. -/
theorem View.Refines.compute_of_error [BEq S] [LawfulBEq S] (hb : b.Lawful) (h : pre.Refines b l)
    {batch : List (Mutation V)} {e : ViewError} (hl : l.applyAll b batch = .error e) :
    pre.compute (b.carry m) batch = throw e := by
  rw [View.compute, Fold.foldlM_carry_of_error hb h (f := { view := pre }) h hl, throw_bind]

end GroupedView
