import GroupedView.Proofs.Batch.Isolation

/-!
# GroupedView.Proofs.Batch.Recast — a move says no more than an update

`Mutation.Recast P` relates a mutation to itself, and a move between groups that satisfy `P` to the
update of the same item with the same value.  If the functions of a view are lawful, a batch whose
moves are recast leads to the same view; and if each of these moves leads to another group, the
notes of the batch are the same, and so are its net changes (`compute_of_recast`).
-/

open Std

namespace GroupedView

variable {V S : Type}

/-- A mutation may be left as it is, and a move may be written as an update if its groups are such
as `P` asks. -/
inductive Mutation.Recast (P : GroupId → GroupId → Prop) : Mutation V → Mutation V → Prop
  | same (mu : Mutation V) : Recast P mu mu
  | plain (k : ItemKey) (value : V) {source target : GroupId} :
      P source target → Recast P (.move k value source target) (.update k value true)

/-- Two batches differ in moves that are written as updates. -/
abbrev Recast (P : GroupId → GroupId → Prop) (batch batch' : List (Mutation V)) : Prop :=
  List.Forall₂ (Mutation.Recast P) batch batch'

variable {P : GroupId → GroupId → Prop} {b : Arrangement Id V S} {l l₁ : Ledger S}
  {mu mu' : Mutation V} {batch batch' : List (Mutation V)}

/-! ## Ledgers -/

namespace Ledger

/-- A move that is accepted starts where its item stands and ends where its value belongs. -/
theorem apply_move_eq_ok {k : ItemKey} {value : V} {source target : GroupId}
    (hadmits : b.options.admits k = true) (h : l.apply b (.move k value source target) = .ok l₁) :
    (∃ pl, l.entries[k]? = some (some pl) ∧ pl.group = source) ∧
      b.entry k value = some ⟨target, (b.sortKey k value).run⟩ ∧
      l₁ = l.record k (b.entry k value) := by
  rw [apply_move, if_pos hadmits] at h
  split at h
  · cases h
  · next pl hk =>
    split at h
    · cases h
    · next hsource =>
      split at h
      · cases h
      · next htarget =>
        cases h
        refine ⟨⟨pl, ?_, not_ne_iff.mp hsource⟩, Arrangement.entry_of_some (not_ne_iff.mp htarget),
          rfl⟩
        exact Option.join_eq_some_iff.mp hk

/-- A recast mutation is accepted with the mutation, and writes down the same. -/
theorem apply_recast (hmu : mu.Recast P mu') (h : l.apply b mu = .ok l₁) :
    l.apply b mu' = .ok l₁ := by
  cases hmu with
  | same => exact h
  | plain k value _ =>
    by_cases hadmits : b.options.admits k = true
    · obtain ⟨⟨pl, hk, -⟩, -, rfl⟩ := apply_move_eq_ok hadmits h
      have hin : l.entries.contains k = true := by
        rw [ExtTreeMap.contains_eq_isSome_getElem?, hk]
        rfl
      rw [apply_update, if_pos hadmits, if_pos hin, if_pos rfl]
    · rw [apply_of_not_admits hadmits] at h
      rw [apply_of_not_admits hadmits, h]

theorem applyAll_recast (hbatch : Recast P batch batch') (h : l.applyAll b batch = .ok l₁) :
    l.applyAll b batch' = .ok l₁ := by
  induction hbatch generalizing l with
  | nil => exact h
  | cons hmu _ ih =>
    obtain ⟨next, hnext, h⟩ := applyAll_cons_eq_ok.mp h
    exact applyAll_cons_eq_ok.mpr ⟨next, apply_recast hmu hnext, ih h⟩

end Ledger

/-! ## Folds -/

/-- Whether a mutation is a move does not matter for what it reports of a row that comes to stand
elsewhere. -/
theorem RowEffect.Spans.of_ne {before after : Option (Placement S)} {moves moves' : Prop}
    {e : RowEffect} (hne : after ≠ before) (h : e.Spans before after moves) :
    e.Spans before after moves' := by
  cases e with
  | untouched | inserted | removed => exact h
  | refreshed => exact absurd h.2.1 hne
  | relocated => exact ⟨h.1, h.2.1, .inl hne⟩

variable [BEq S] [LawfulBEq S]

namespace Fold

variable {pre : View S} {f f₁ : Fold S} {l₀ : Ledger S}

/-- A move to another group and the update in its place report the same, but for the positions. -/
theorem alike_of_recast {v w : View S} {e e' : RowEffect} (hv : v.Refines b l)
    (hw : w.Refines b l₁) (hmu : mu.Recast (· ≠ ·) mu') (hl : l.apply b mu = .ok l₁)
    (h : v.apply b mu = pure (w, e)) (h' : v.apply b mu' = pure (w, e')) :
    (e = .untouched ↔ e' = .untouched) ∧ e.relocates = e'.relocates := by
  cases hmu with
  | same =>
    rw [h] at h'
    cases h'
    exact ⟨Iff.rfl, rfl⟩
  | @plain k value source target hne =>
    by_cases hadmits : b.options.admits k = true
    · obtain ⟨⟨pl, hk, hsource⟩, hentry, rfl⟩ := Ledger.apply_move_eq_ok hadmits hl
      have hmoved : w.placements[k]? ≠ v.placements[k]? := by
        rw [hv.placements_eq_some_iff.mpr hk, hw.placements_eq, Ledger.entries_record_self, hentry]
        intro he
        cases he
        exact hne hsource.symm
      have hspans : e.Spans v.placements[k]? w.placements[k]? True :=
        (View.spans_of_canReturn_apply hadmits (canReturn_of_eq_pure h)).of_ne hmoved
      have hspans' : e'.Spans v.placements[k]? w.placements[k]? True :=
        (View.spans_of_canReturn_apply hadmits (canReturn_of_eq_pure h')).of_ne hmoved
      exact RowEffect.Spans.alike hspans hspans'
    · rw [View.apply_of_not_admits hadmits] at h h'
      cases h
      cases h'
      exact ⟨Iff.rfl, rfl⟩

/-- The step of a recast mutation comes to the same fold. -/
theorem step_recast (hb : b.Lawful) (hpre : pre.Refines b l₀) (h : f.view.Refines b l)
    (hmu : mu.Recast (· ≠ ·) mu') (hl : l.apply b mu = .ok l₁)
    (hf : Fold.step b pre f mu = pure f₁) :
    Fold.step b pre f mu' = pure f₁ ∧ f₁.view.Refines b l₁ := by
  obtain ⟨w, e, hw, hrefines, hstep⟩ := step_carry (m := Id) hb hpre h hl
  obtain ⟨w', e', hw', hrefines', hstep'⟩ :=
    step_carry (m := Id) hb hpre h (Ledger.apply_recast hmu hl)
  cases hrefines.view_eq hb hrefines'
  have hafter : f.after pre mu' w e' = f₁ := by
    obtain ⟨huntouched, hrelocates⟩ := alike_of_recast h hrefines hmu hl hw hw'
    have hsame : f.after pre mu w e = f₁ := Except.ok.inj (hstep.symm.trans hf)
    rw [← hsame]
    cases hmu with
    | same => simp only [after, huntouched, Track.note, hrelocates]
    | plain => simp only [after, huntouched, Track.note, hrelocates, Mutation.key,
        Mutation.refreshes]
  rw [← hafter]
  exact ⟨hstep', hrefines'⟩

/-- A recast batch comes to the same fold. -/
theorem foldlM_recast (hb : b.Lawful) (hpre : pre.Refines b l₀) (h : f.view.Refines b l)
    (hbatch : Recast (· ≠ ·) batch batch') (hl : l.applyAll b batch = .ok l₁)
    (hf : batch.foldlM (Fold.step b pre) f = pure f₁) :
    batch'.foldlM (Fold.step b pre) f = pure f₁ := by
  induction hbatch generalizing f l with
  | nil => exact hf
  | cons hmu _ ih =>
    obtain ⟨next, hnext, hl⟩ := Ledger.applyAll_cons_eq_ok.mp hl
    rw [List.foldlM_cons] at hf ⊢
    obtain ⟨f', hf', hf⟩ := bind_eq_pure_iff.mp hf
    obtain ⟨hstep, hrefines⟩ := step_recast hb hpre h hmu hnext hf'
    rw [hstep, pure_bind]
    exact ih hrefines hl hf

end Fold

/-! ## Views -/

/-- **A move is an update.**  Let the functions of a view be plain functions, the test of sort keys
be equality, and the comparison be a total preorder.  Take a batch that is accepted by a view that a
run can come to, and write any of its moves as updates of the same items with the same values.  The
new batch is accepted and comes to the same view; and if each of these moves leads to another group,
it comes to it with the same net changes. -/
theorem compute_of_recast (hb : b.Lawful) {pre : View S} (hpre : pre.Reachable b) {c : Computed S}
    (hbatch : Recast (fun _ _ => True) batch batch') (hc : pre.compute b batch = pure c) :
    ∃ c', pre.compute b batch' = pure c' ∧ c'.view = c.view ∧
      (Recast (· ≠ ·) batch batch' → c'.changes = c.changes) := by
  obtain ⟨l, hl⟩ := hpre.refines hb
  cases happly : l.applyAll b batch with
  | error e =>
    have hthrow : pre.compute b batch = throw e := hl.compute_of_error (m := Id) hb happly
    rw [hthrow] at hc
    cases hc
  | ok l₁ =>
    obtain ⟨f, hf, hview, hcompute⟩ := hl.compute hb happly (m := Id)
    obtain ⟨f', hf', hview', hcompute'⟩ :=
      hl.compute hb (Ledger.applyAll_recast hbatch happly) (m := Id)
    cases Except.ok.inj (hcompute.symm.trans hc)
    refine ⟨_, hcompute', hview'.view_eq hb hview, fun hapart => ?_⟩
    have hsame := Fold.foldlM_recast hb hl hl hapart happly hf
    cases Except.ok.inj (hf'.symm.trans hsame)
    rfl

/-- A move to another group, another one of an item that is new, and one within a group. -/
def decadesMoves : List (Mutation Nat) :=
  [.move (waveringKey "a") 12 ⟨"0"⟩ ⟨"1"⟩, .insert (waveringKey "f") 5 none,
    .move (waveringKey "f") 17 ⟨"0"⟩ ⟨"1"⟩, .move (waveringKey "b") 4 ⟨"0"⟩ ⟨"0"⟩]

/-- The two moves to another group, written as updates. -/
def decadesUpdates : List (Mutation Nat) :=
  [.update (waveringKey "a") 12 true, .insert (waveringKey "f") 5 none,
    .update (waveringKey "f") 17 true, .move (waveringKey "b") 4 ⟨"0"⟩ ⟨"0"⟩]

/-- Both batches are accepted, and lead to the same view with the same net changes. -/
theorem decadesMoves_recast :
    decades.Lawful ∧ decadesView.Reachable decades ∧
    Recast (· ≠ ·) decadesMoves decadesUpdates ∧
    ∃ c c', decadesView.compute decades decadesMoves = pure c ∧
      decadesView.compute decades decadesUpdates = pure c' ∧
      c'.view = c.view ∧ c'.changes = c.changes ∧
      c.view.keys ⟨"1"⟩ = [waveringKey "e", waveringKey "a", waveringKey "f"] := by
  have hlawful : decades.Lawful := Arrangement.lawful_bySortKey _ _ _
  have hapart : Recast (· ≠ ·) decadesMoves decadesUpdates :=
    .cons (.plain _ _ (by decide)) (.cons (.same _) (.cons (.plain _ _ (by decide))
      (.cons (.same _) .nil)))
  have hbatch : Recast (fun _ _ => True) decadesMoves decadesUpdates :=
    .cons (.plain _ _ trivial) (.cons (.same _) (.cons (.plain _ _ trivial) (.cons (.same _) .nil)))
  have hkeys : (decadesView.compute decades decadesMoves).run.run.map (·.view.keys ⟨"1"⟩) =
      .ok [waveringKey "e", waveringKey "a", waveringKey "f"] := by decide +kernel
  cases hc : (decadesView.compute decades decadesMoves).run.run with
  | error e =>
    rw [hc] at hkeys
    cases hkeys
  | ok c =>
    obtain ⟨c', hc', hview, hchanges⟩ :=
      compute_of_recast hlawful reachable_decadesView hbatch hc
    rw [hc] at hkeys
    exact ⟨hlawful, reachable_decadesView, hapart, c, c', hc, hc', hview, hchanges hapart,
      Except.ok.inj hkeys⟩

end GroupedView
