import GroupedView.Proofs.Batch.Isolation

/-!
# GroupedView.Proofs.View.Hint — a writer's guess is taken if it is right

A guess is tested against two neighbours only, while a search goes through the rows by halves.  If
the functions of a view are lawful, both come to the same index.

* `hint_taken_iff_right`: a guess is accepted exactly if it names the group and the index where the
  search ends, and an insertion with a guess does what the same insertion does without one.
-/

open Std

namespace GroupedView

variable {V S : Type} {b : Arrangement Id V S} {v : View S} {l : Ledger S} {k : ItemKey}
  {value : V} {g : GroupId} {row : Row S} {hint : PositionHint} {i : Nat}

namespace View.Refines

/-- A search for a new row ends in the gap after the rows that lie before it. -/
theorem search_new (hb : b.Lawful) (h : v.Refines b l) (hnew : v.placements[row.key]? = none) :
    b.search (v.rows g) row = pure (.gap (b.rank (v.rows g) row)) :=
  Arrangement.search_of_forall_ne (m := Id) hb (h.ascending g) (h.rows_key_ne hnew)

/-- A guess for a new row is accepted exactly if a search ends there. -/
theorem hintedIndex_eq_iff (hb : b.Lawful) (h : v.Refines b l)
    (hnew : v.placements[row.key]? = none) :
    b.hintedIndex (v.rows g) hint g row = pure (some i) ↔
      hint.group = g ∧ hint.index = i ∧ b.search (v.rows g) row = pure (.gap i) := by
  have hhinted : b.hintedIndex (v.rows g) hint g row =
      pure (if hint.group = g ∧ hint.index = b.rank (v.rows g) row then some hint.index
        else none) :=
    Arrangement.hintedIndex_carry (m := Id) hb (h.ascending g) (h.rows_key_ne hnew) hint
  have hgap : b.search (v.rows g) row = pure (.gap i) ↔ b.rank (v.rows g) row = i := by
    rw [h.search_new hb hnew]
    exact ⟨fun he => Slot.gap.inj (Except.ok.inj he), fun he => by rw [he]⟩
  have hanswer : b.hintedIndex (v.rows g) hint g row = pure (some i) ↔
      (if hint.group = g ∧ hint.index = b.rank (v.rows g) row then some hint.index else none) =
        some i := by
    rw [hhinted]
    exact Iff.rfl
  rw [hanswer, hgap]
  split
  · next hright =>
    rw [Option.some.injEq]
    exact ⟨fun hi => ⟨hright.1, hi, hright.2 ▸ hi⟩, fun hi => hi.2.1⟩
  · next hwrong =>
    refine iff_of_false (fun hi => by cases hi) fun ⟨hgroup, hi, hrank⟩ => hwrong ⟨hgroup, ?_⟩
    rw [hi, hrank]

variable [BEq S] [LawfulBEq S]

/-- Whatever the guess, a new item comes to the gap that a search finds. -/
theorem apply_insert_new (hb : b.Lawful) (h : v.Refines b l)
    (hadmits : b.options.admits k = true) (hk : ¬ (v.contains k || v.isExcluded k) = true)
    (hg : (b.grouping k value).run = some g) (hint : Option PositionHint) :
    v.apply b (.insert k value hint) =
      pure ((v.readmit k).insertRow ⟨k, (b.sortKey k value).run⟩
          ⟨g, b.rank (v.rows g) ⟨k, (b.sortKey k value).run⟩⟩,
        .inserted ⟨g, b.rank (v.rows g) ⟨k, (b.sortKey k value).run⟩⟩) := by
  have hnew := placements_eq_none hk
  have hgroup : b.groupOf k value = pure (some g) :=
    (Arrangement.groupOf_carry (m := Id) k value).trans (by rw [hg])
  have hsort : b.sortKeyOf k value = pure (b.sortKey k value).run :=
    Arrangement.sortKeyOf_of_trusted (m := Id) hg Arrangement.trusted
  have hplace := (h.readmit hnew).place_carry (m := Id) (g := g) hb
    ⟨k, (b.sortKey k value).run⟩ hnew hint
  rw [View.apply_insert hadmits, View.insert, if_neg hk, View.enter, hgroup, pure_bind]
  dsimp only
  rw [hsort, pure_bind]
  exact congrArg (· >>= _) hplace

end View.Refines

/-- **A guess is accepted exactly if it is right.**  Let the functions of a view be plain functions,
the test of sort keys be equality, and the comparison be a total preorder.  In every view that a run
can come to, take any key that is not there, any value that belongs to a group, and any guess.  A
search for the new row ends in a gap; the guess is accepted for an index exactly if it names the
group and that index and the search ends there.  The insertion is accepted, with its row in that
gap, and comes to the same view with the guess as without one; if the key is not admitted, both do
nothing. -/
theorem hint_taken_iff_right [BEq S] [LawfulBEq S] (hb : b.Lawful) (hv : v.Reachable b)
    (hk : v.contains k = false) (hout : v.isExcluded k = false)
    (hg : (b.grouping k value).run = some g) (hint : PositionHint) :
    (∃ i, b.search (v.rows g) ⟨k, (b.sortKey k value).run⟩ = pure (.gap i) ∧
      (b.options.admits k = true → ∃ w,
        v.apply b (.insert k value (some hint)) = pure (w, .inserted ⟨g, i⟩))) ∧
    (∀ i, b.hintedIndex (v.rows g) hint g ⟨k, (b.sortKey k value).run⟩ = pure (some i) ↔
      hint.group = g ∧ hint.index = i ∧
        b.search (v.rows g) ⟨k, (b.sortKey k value).run⟩ = pure (.gap i)) ∧
    v.apply b (.insert k value (some hint)) = v.apply b (.insert k value none) := by
  obtain ⟨l, h⟩ := hv.refines hb
  have hfree : ¬ (v.contains k || v.isExcluded k) = true := by simp [hk, hout]
  have hnew := View.Refines.placements_eq_none hfree
  refine ⟨⟨_, h.search_new hb hnew, fun hadmits => ⟨_, h.apply_insert_new hb hadmits hfree hg _⟩⟩,
    fun i => h.hintedIndex_eq_iff hb hnew, ?_⟩
  by_cases hadmits : b.options.admits k = true
  · rw [h.apply_insert_new hb hadmits hfree hg, h.apply_insert_new hb hadmits hfree hg]
  · rw [View.apply_of_not_admits hadmits, View.apply_of_not_admits hadmits]

/-- The number five comes behind three smaller ones; a guess of that index is taken, and one far
beyond the end is not. -/
theorem decadesView_hints :
    decades.Lawful ∧ decadesView.Reachable decades ∧
    decades.hintedIndex (decadesView.rows ⟨"0"⟩) ⟨⟨"0"⟩, 3⟩ ⟨"0"⟩ ⟨waveringKey "f", 5⟩ =
      pure (some 3) ∧
    (∀ i, decades.hintedIndex (decadesView.rows ⟨"0"⟩) ⟨⟨"0"⟩, 2 ^ 64 - 1⟩ ⟨"0"⟩
      ⟨waveringKey "f", 5⟩ ≠ pure (some i)) ∧
    decadesView.apply decades (.insert (waveringKey "f") 5 (some ⟨⟨"0"⟩, 2 ^ 64 - 1⟩)) =
      decadesView.apply decades (.insert (waveringKey "f") 5 none) := by
  have hlawful : decades.Lawful := Arrangement.lawful_bySortKey _ _ _
  have hgroup : (decades.grouping (waveringKey "f") 5).run = some ⟨"0"⟩ := by decide +kernel
  have htaken (hint : PositionHint) := hint_taken_iff_right hlawful reachable_decadesView
    (by decide +kernel) (by decide +kernel) hgroup hint
  have hsearch : (decades.search (decadesView.rows ⟨"0"⟩) ⟨waveringKey "f", 5⟩).run.run =
      .ok (.gap 3) := by decide +kernel
  refine ⟨hlawful, reachable_decadesView, ((htaken ⟨⟨"0"⟩, 3⟩).2.1 3).mpr ⟨rfl, rfl, hsearch⟩, ?_,
    (htaken _).2.2⟩
  intro i hi
  obtain ⟨-, rfl, hgap⟩ := ((htaken _).2.1 i).mp hi
  have hsame := Except.ok.inj (hsearch.symm.trans hgap)
  exact absurd (Slot.gap.inj hsame) (by decide)

end GroupedView
