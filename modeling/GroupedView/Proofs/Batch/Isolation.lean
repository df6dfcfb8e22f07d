import GroupedView.Proofs.Batch.Refine
import GroupedView.Proofs.Ledger.Entrywise
import GroupedView.Proofs.View.Edit

/-!
# GroupedView.Proofs.Batch.Isolation — what a batch does to an item is up to its own mutations

If the functions of a view are lawful, a mutation of an item is noted by where the item stands, and
leaves the notes of other items.  `Fold.AgreesOn` says that two folds have the same entries and the
same notes of some items.

* `Fold.agreesOn_of_filter_eq`: two batches that have the same mutations of some items lead these
  items to the same entries with the same notes.
* `View.Reachable.refines`: every view that a run can come to shows what some ledger says, so that
  all this can be used of it.
-/

open Std
open MonadAttach (CanReturn)
open LawfulMonadAttach

namespace GroupedView

/-! ## Folding the mutations of some items -/

namespace Fold

variable {V S : Type} [BEq S] [LawfulBEq S] {b : Arrangement Id V S} {pre : View S}
  {f f' f₁ f₁' : Fold S} {l₀ l l' l₁ l₁' : Ledger S} {P : ItemKey → Bool}
  {batch batch' : List (Mutation V)}

/-- Two folds have the same entries and the same notes of some items. -/
structure AgreesOn (b : Arrangement Id V S) (P : ItemKey → Bool) (f f' : Fold S) (l l' : Ledger S) :
    Prop where
  refines : f.view.Refines b l
  refines' : f'.view.Refines b l'
  entries : l.AgreesOn P l'
  tracks_eq : ∀ k : ItemKey, P k = true → f.tracks[k]? = f'.tracks[k]?

omit [BEq S] [LawfulBEq S] in
theorem AgreesOn.placements_eq (h : AgreesOn b P f f' l l') {k : ItemKey} (hk : P k = true) :
    f.view.placements[k]? = f'.view.placements[k]? := by
  rw [h.refines.placements_eq, h.refines'.placements_eq, h.entries k hk]

/-- A mutation reports the same of a row that stands alike, but for the positions. -/
theorem alike_of_apply {v v' w w' : View S} {mu : Mutation V} {e e' : RowEffect}
    (hv : v.apply b mu = pure (w, e)) (hv' : v'.apply b mu = pure (w', e'))
    (hbefore : v.placements[mu.key]? = v'.placements[mu.key]?)
    (hafter : w.placements[mu.key]? = w'.placements[mu.key]?) :
    (e = .untouched ↔ e' = .untouched) ∧ e.relocates = e'.relocates := by
  by_cases hadmits : b.options.admits mu.key = true
  · have hspans := View.spans_of_canReturn_apply hadmits (canReturn_of_eq_pure hv)
    rw [hbefore, hafter] at hspans
    exact hspans.alike (View.spans_of_canReturn_apply hadmits (canReturn_of_eq_pure hv'))
  · rw [View.apply_of_not_admits hadmits] at hv hv'
    cases hv
    cases hv'
    exact ⟨Iff.rfl, rfl⟩

/-- A mutation of one of the items is accepted on both sides alike, and noted alike. -/
theorem AgreesOn.step (hb : b.Lawful) (hpre : pre.Refines b l₀) (h : AgreesOn b P f f' l l')
    {mu : Mutation V} (hP : P mu.key = true) (hl : l.apply b mu = .ok l₁) :
    ∃ f₁ f₁' l₁', Fold.step b pre f mu = pure f₁ ∧ l'.apply b mu = .ok l₁' ∧
      Fold.step b pre f' mu = pure f₁' ∧ AgreesOn b P f₁ f₁' l₁ l₁' := by
  obtain ⟨l₁', hl', hentries⟩ := h.entries.apply hP hl
  obtain ⟨v, e, hv, hrefines, hstep⟩ := step_carry (m := Id) hb hpre h.refines hl
  obtain ⟨v', e', hv', hrefines', hstep'⟩ := step_carry (m := Id) hb hpre h.refines' hl'
  refine ⟨_, _, l₁', hstep, hl', hstep', hrefines, hrefines', hentries, fun k hk => ?_⟩
  obtain ⟨huntouched, hrelocates⟩ := alike_of_apply hv hv' (h.placements_eq hP) <| by
    rw [hrefines.placements_eq, hrefines'.placements_eq, hentries _ hP]
  rw [tracks_after, tracks_after, h.tracks_eq k hk, h.tracks_eq _ hP]
  simp only [ne_eq, huntouched, Track.note, hrelocates]

/-- A mutation of another item changes nothing for these. -/
theorem AgreesOn.skip (hb : b.Lawful) (hpre : pre.Refines b l₀) (h : AgreesOn b P f f' l l')
    {mu : Mutation V} (hP : ¬ P mu.key = true) (hl : l.apply b mu = .ok l₁) :
    ∃ f₁, Fold.step b pre f mu = pure f₁ ∧ AgreesOn b P f₁ f' l₁ l' := by
  obtain ⟨v, e, hv, hrefines, hstep⟩ := step_carry (m := Id) hb hpre h.refines hl
  refine ⟨_, hstep, hrefines, h.refines', h.entries.skip hP hl, fun k hk => ?_⟩
  have hne : k ≠ mu.key := fun hkey => hP (hkey ▸ hk)
  rw [tracks_after, if_neg fun hand => hne hand.1]
  exact h.tracks_eq k hk

/-- The mutations of some items, folded alone, lead these items to the same entries and notes. -/
theorem AgreesOn.fold_filter (hb : b.Lawful) (hpre : pre.Refines b l₀)
    (h : AgreesOn b P f f' l l') (hl : l.applyAll b batch = .ok l₁) :
    ∃ f₁ f₁' l₁', batch.foldlM (Fold.step b pre) f = pure f₁ ∧
      l'.applyAll b (batch.filter (P ·.key)) = .ok l₁' ∧
      (batch.filter (P ·.key)).foldlM (Fold.step b pre) f' = pure f₁' ∧
      AgreesOn b P f₁ f₁' l₁ l₁' := by
  induction batch generalizing f f' l l' with
  | nil =>
    cases hl
    exact ⟨f, f', l', rfl, rfl, rfl, h⟩
  | cons mu batch ih =>
    obtain ⟨next, hmu, hl⟩ := Ledger.applyAll_cons_eq_ok.mp hl
    rw [List.filter_cons]
    by_cases hP : P mu.key = true
    · obtain ⟨g, g', next', hg, hmu', hg', hnext⟩ := h.step hb hpre hP hmu
      obtain ⟨f₁, f₁', l₁', hf₁, hl₁', hf₁', hend⟩ := ih hnext hl
      refine ⟨f₁, f₁', l₁', ?_, ?_, ?_, hend⟩
      · rw [List.foldlM_cons, hg, pure_bind, hf₁]
      · rw [if_pos hP]
        exact Ledger.applyAll_cons_eq_ok.mpr ⟨next', hmu', hl₁'⟩
      · rw [if_pos hP, List.foldlM_cons, hg', pure_bind, hf₁']
    · obtain ⟨g, hg, hnext⟩ := h.skip hb hpre hP hmu
      obtain ⟨f₁, f₁', l₁', hf₁, hl₁', hf₁', hend⟩ := ih hnext hl
      refine ⟨f₁, f₁', l₁', ?_, ?_, ?_, hend⟩
      · rw [List.foldlM_cons, hg, pure_bind, hf₁]
      · rw [if_neg hP, hl₁']
      · rw [if_neg hP, hf₁']

/-- **Two batches that have the same mutations of some items** lead these items to the same entries
with the same notes, whatever else is in the batches. -/
theorem agreesOn_of_filter_eq (hb : b.Lawful) (hpre : pre.Refines b l₀)
    (hP : batch.filter (P ·.key) = batch'.filter (P ·.key))
    (hl : l₀.applyAll b batch = .ok l₁) (hl' : l₀.applyAll b batch' = .ok l₁')
    (hf : batch.foldlM (Fold.step b pre) { view := pre } = pure f)
    (hf' : batch'.foldlM (Fold.step b pre) { view := pre } = pure f') :
    AgreesOn b P f f' l₁ l₁' := by
  have hstart : AgreesOn b P { view := pre } { view := pre } l₀ l₀ :=
    ⟨hpre, hpre, .refl, fun _ _ => rfl⟩
  obtain ⟨g, h, w, hg, hw, hh, hagree⟩ := hstart.fold_filter hb hpre hl
  obtain ⟨g', h', w', hg', hw', hh', hagree'⟩ := hstart.fold_filter hb hpre hl'
  -- the same mutations, folded alone, lead to the same fold
  rw [← hP, hw] at hw'
  rw [← hP, hh] at hh'
  rw [hf] at hg
  rw [hf'] at hg'
  cases hw'
  cases hh'
  cases hg
  cases hg'
  exact ⟨hagree.refines, hagree'.refines, fun k hk => (hagree.entries k hk).trans
    (hagree'.entries k hk).symm, fun k hk => (hagree.tracks_eq k hk).trans
    (hagree'.tracks_eq k hk).symm⟩

end Fold

/-- In every view that a run can come to, some ledger is shown. -/
theorem View.Reachable.refines {V S : Type} [BEq S] [LawfulBEq S] {b : Arrangement Id V S}
    (hb : b.Lawful) {v : View S} (h : v.Reachable b) : ∃ l, v.Refines b l := by
  refine h.of_seed (I := fun v => ∃ l, v.Refines b l) ⟨_, .empty⟩ fun v mu v' e ⟨l, hl⟩ hv => ?_
  cases happly : l.apply b mu with
  | ok l' =>
    obtain ⟨w, e', hw, hrefines⟩ := hl.apply_of_ok hb happly (m := Id)
    have hsame : v.apply b mu = pure (w, e') := hw
    rw [hsame] at hv
    cases eq_of_canReturn_pure hv
    exact ⟨l', hrefines⟩
  | error err =>
    have hthrow : v.apply b mu = throw err := hl.apply_of_error hb happly (m := Id)
    rw [hthrow] at hv
    exact absurd hv not_canReturn_throw

theorem View.Refines.covers {V S : Type} {b : Arrangement Id V S} {v : View S} {l : Ledger S}
    (h : v.Refines b l) : l.Covers :=
  fun _ _ hk => h.group_mem_used (h.placements_eq_some_iff.mpr hk)

end GroupedView
