import GroupedView.Proofs.Batch.Isolation

/-!
# GroupedView.Proofs.Batch.Reordering — the order of a batch matters within each item only

`Reordered batch batch'` says that two batches have the same mutations, those of each item in the
same order.  If the functions of a view are lawful, such batches are accepted or refused together,
and come to the same view with the same net changes (`compute_of_reordered`): each item is led to
the same entry by its own mutations, and a ledger is no more than its entries and the groups that
they went through.
-/

open Std

namespace GroupedView

/-- The same mutations, perhaps in another order; those of each item keep theirs. -/
def Reordered {V : Type} (batch batch' : List (Mutation V)) : Prop :=
  ∀ k, batch.filter (·.key = k) = batch'.filter (·.key = k)

namespace Reordered

variable {V : Type} {batch batch' : List (Mutation V)}

theorem symm (h : Reordered batch batch') : Reordered batch' batch := fun k => (h k).symm

/-- Only the items that have mutations need to be looked at. -/
theorem iff_forall_mem : Reordered batch batch' ↔
    ∀ mu ∈ batch ++ batch', batch.filter (·.key = mu.key) = batch'.filter (·.key = mu.key) := by
  refine ⟨fun h mu _ => h mu.key, fun h k => ?_⟩
  by_cases hk : ∃ mu ∈ batch ++ batch', mu.key = k
  · obtain ⟨mu, hmu, rfl⟩ := hk
    exact h mu hmu
  · have hnone : ∀ mu ∈ batch ++ batch', ¬ decide (mu.key = k) = true :=
      fun mu hmu he => hk ⟨mu, hmu, of_decide_eq_true he⟩
    rw [List.filter_eq_nil_iff.mpr fun mu hmu => hnone mu (List.mem_append_left _ hmu),
      List.filter_eq_nil_iff.mpr fun mu hmu => hnone mu (List.mem_append_right _ hmu)]

instance [DecidableEq V] : Decidable (Reordered batch batch') :=
  decidable_of_iff _ iff_forall_mem.symm

open Classical in
/-- A reordered batch is a permutation. -/
theorem perm (h : Reordered batch batch') : batch.Perm batch' := by
  refine List.perm_iff_count.mpr fun mu => ?_
  have hcount := congrArg (List.count mu) (h mu.key)
  rwa [List.count_filter (by simp), List.count_filter (by simp)] at hcount

end Reordered

/-! ## Ledgers -/

namespace Ledger

variable {V S : Type} {b : Arrangement Id V S} {l l₁ l₁' : Ledger S}
  {batch batch' : List (Mutation V)}

/-- A reordered batch is accepted if the batch is. -/
theorem exists_applyAll_of_reordered (h : Reordered batch batch')
    (hl : l.applyAll b batch = .ok l₁) : ∃ l₁', l.applyAll b batch' = .ok l₁' := by
  refine exists_applyAll_of_filter fun k => ?_
  obtain ⟨w, hw, -⟩ := (AgreesOn.refl (P := (· = k))).applyAll_filter hl
  rw [← h k]
  exact ⟨w, hw⟩

theorem used_subset_of_reordered (h : Reordered batch batch') (hcovers : l.Covers)
    (hl : l.applyAll b batch = .ok l₁) (hl' : l.applyAll b batch' = .ok l₁') {g : GroupId}
    (hg : g ∈ l₁.used) : g ∈ l₁'.used := by
  rw [mem_used_applyAll hcovers hl']
  rcases (mem_used_applyAll hcovers hl).mp hg with hg | ⟨past, hpast, w, hw, k, pl, hk, rfl⟩
  · exact .inl hg
  · -- on the way through the other batch the item came through the same group
    obtain ⟨past', w', hpast', hw', hagree⟩ :=
      exists_prefix_of_filter_eq (P := (· = k)) (h k) hl' hpast hw
    rw [hagree k (decide_eq_true rfl)] at hk
    exact .inr ⟨past', hpast', w', hw', k, pl, hk, rfl⟩

/-- A reordered batch leads to the same ledger. -/
theorem applyAll_eq_of_reordered (h : Reordered batch batch') (hcovers : l.Covers)
    (hl : l.applyAll b batch = .ok l₁) (hl' : l.applyAll b batch' = .ok l₁') : l₁ = l₁' := by
  have hentries : l₁.entries = l₁'.entries := ExtTreeMap.ext_getElem? fun k => by
    obtain ⟨w, hw, hagree⟩ := (AgreesOn.refl (P := (· = k))).applyAll_filter hl
    obtain ⟨w', hw', hagree'⟩ := (AgreesOn.refl (P := (· = k))).applyAll_filter hl'
    rw [h k, hw'] at hw
    cases hw
    rw [hagree k (decide_eq_true rfl), hagree' k (decide_eq_true rfl)]
  have hused : l₁.used = l₁'.used := ExtTreeSet.ext_mem fun g =>
    ⟨used_subset_of_reordered h hcovers hl hl', used_subset_of_reordered h.symm hcovers hl' hl⟩
  cases l₁
  cases l₁'
  simp_all

end Ledger

/-! ## Views -/

section Views

variable {V S : Type} [BEq S] [LawfulBEq S] {b : Arrangement Id V S} {pre : View S}
  {batch batch' : List (Mutation V)}

/-- **The order of a batch matters within each item only.**  Let the functions of a view be plain
functions, the test of sort keys be equality, and the comparison be a total preorder.  Two batches
with the same mutations, those of each item in the same order, are accepted or refused together by
every view that a run can come to.  If they are accepted, they come to the same view, with the same
net changes, and so with the same edits under all mappings. -/
theorem compute_of_reordered (hb : b.Lawful) (hpre : pre.Reachable b)
    (h : Reordered batch batch') :
    batch.Perm batch' ∧
    ((∃ c, pre.compute b batch = pure c ∧ pre.compute b batch' = pure c) ∨
      ∃ e e', pre.compute b batch = throw e ∧ pre.compute b batch' = throw e') := by
  obtain ⟨l, hl⟩ := hpre.refines hb
  refine ⟨h.perm, ?_⟩
  cases happly : l.applyAll b batch with
  | ok l₁ =>
    obtain ⟨l₁', happly'⟩ := Ledger.exists_applyAll_of_reordered h happly
    obtain ⟨f, hf, hview, hcompute⟩ := hl.compute hb happly (m := Id)
    obtain ⟨f', hf', hview', hcompute'⟩ := hl.compute hb happly' (m := Id)
    cases Ledger.applyAll_eq_of_reordered h hl.covers happly happly'
    have htracks : f.tracks = f'.tracks := ExtTreeMap.ext_getElem? fun k => by
      have hagree := Fold.agreesOn_of_filter_eq (P := (· = k)) hb hl (h k) happly happly' hf hf'
      exact hagree.tracks_eq k (decide_eq_true rfl)
    have hsame : f = f' := by
      cases f
      cases f'
      cases hview.view_eq hb hview'
      cases htracks
      rfl
    rw [← hsame, ← h.perm.length_eq] at hcompute'
    exact .inl ⟨_, hcompute, hcompute'⟩
  | error e =>
    cases happly' : l.applyAll b batch' with
    | ok l₁' =>
      obtain ⟨l₁, hl₁⟩ := Ledger.exists_applyAll_of_reordered h.symm happly'
      rw [happly] at hl₁
      cases hl₁
    | error e' =>
      exact .inr ⟨e, e', hl.compute_of_error hb happly (m := Id),
        hl.compute_of_error hb happly' (m := Id)⟩

end Views

/-- Mutations of three numbers, one of them put out of its group and in again. -/
def decadesSteps : List (Mutation Nat) :=
  [.update (waveringKey "a") 12 true, .insert (waveringKey "f") 5 (some ⟨⟨"0"⟩, 0⟩),
    .update (waveringKey "a") 4 true, .delete (waveringKey "c")]

/-- The same mutations, the other numbers first. -/
def decadesStepsReordered : List (Mutation Nat) :=
  [.delete (waveringKey "c"), .insert (waveringKey "f") 5 (some ⟨⟨"0"⟩, 0⟩),
    .update (waveringKey "a") 12 true, .update (waveringKey "a") 4 true]

/-- Both orders are accepted and come to the same view with the same net changes. -/
theorem decadesSteps_reordered :
    decades.Lawful ∧ decadesView.Reachable decades ∧
    Reordered decadesSteps decadesStepsReordered ∧
    ∃ c, decadesView.compute decades decadesSteps = pure c ∧
      decadesView.compute decades decadesStepsReordered = pure c ∧
      c.view.keys ⟨"0"⟩ = [waveringKey "b", waveringKey "a", waveringKey "f"] := by
  have hlawful : decades.Lawful := Arrangement.lawful_bySortKey _ _ _
  have hsteps : Reordered decadesSteps decadesStepsReordered := by decide +kernel
  have hkeys : (decadesView.compute decades decadesSteps).run.run.map (·.view.keys ⟨"0"⟩) =
      .ok [waveringKey "b", waveringKey "a", waveringKey "f"] := by decide +kernel
  obtain ⟨-, ⟨c, hc, hc'⟩ | ⟨e, e', he, -⟩⟩ :=
    compute_of_reordered hlawful reachable_decadesView hsteps
  · rw [hc] at hkeys
    exact ⟨hlawful, reachable_decadesView, hsteps, c, hc, hc', Except.ok.inj hkeys⟩
  · rw [he] at hkeys
    cases hkeys

end GroupedView
