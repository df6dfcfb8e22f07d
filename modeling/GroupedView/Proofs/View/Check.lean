import GroupedView.Proofs.Arrangement
import GroupedView.Proofs.View.WellFormed

/-!
# GroupedView.Proofs.View.Check — what the test of a view tests

The test of a view compares each row with the one before it.  If the parts of the view agree, it is
passed exactly if the rows of each group are rising (`View.WellFormed.check_eq_true_iff`).  Rising
rows need not be ascending, if the comparison is no order.
-/

open Std

namespace GroupedView

variable {V S : Type} {b : Arrangement Id V S}

namespace Arrangement

/-- Rows that go up strictly from neighbour to neighbour. -/
def Rising (b : Arrangement Id V S) (rows : List (Row S)) : Prop :=
  rows.IsChain fun r s => b.cmp r s = .lt

instance (rows : List (Row S)) : Decidable (b.Rising rows) :=
  inferInstanceAs (Decidable (rows.IsChain fun r s => b.cmp r s = .lt))

theorem Ascending.rising {rows : List (Row S)} (h : b.Ascending rows) : b.Rising rows :=
  List.Pairwise.isChain h

theorem rising_cons_cons {r s : Row S} {rows : List (Row S)} :
    b.Rising (r :: s :: rows) ↔ b.cmp r s = .lt ∧ b.Rising (s :: rows) :=
  List.isChain_cons_cons

end Arrangement

namespace View.WellFormed

variable {m : Type → Type} [Monad m] [LawfulMonad m] {v : View S} {g : GroupId}

theorem checkRows_carry (h : v.WellFormed) {previous : Option (Row S)} {rows : List (Row S)}
    (hrows : ∀ r ∈ rows, r ∈ v.rows g) :
    v.checkRows (b.carry m) g previous rows =
      pure (decide (b.Rising (previous.toList ++ rows))) := by
  induction rows generalizing previous with
  | nil =>
    have hrising : b.Rising (previous.toList ++ []) := by
      cases previous with
      | none => exact .nil
      | some r => exact .singleton r
    rw [checkRows, decide_eq_true hrising]
  | cons r rows ih =>
    have hr := h.placement_of_row g r (hrows r List.mem_cons_self)
    have hgroup : v.groupOf? r.key = some g := by rw [groupOf?, hr]; rfl
    have hin : v.isExcluded r.key = false := by
      by_contra hin
      have hnone := h.excluded_unplaced r.key
        (ExtTreeSet.contains_iff_mem.mp (Bool.eq_false_iff.not_left.mp hin))
      rw [hr] at hnone
      cases hnone
    have hrest : v.checkRows (b.carry m) g (some r) rows = _ :=
      ih fun r hr => hrows r (List.mem_cons_of_mem _ hr)
    rw [checkRows, hgroup, hin]
    simp only [decide_true, Bool.not_false, Bool.and_true, if_true, Arrangement.precedes_carry,
      pure_bind, hrest]
    cases previous with
    | none => rfl
    | some p =>
      have hdecide : decide (b.Rising ((some p).toList ++ r :: rows)) =
          (b.cmp p r == .lt && decide (b.Rising ((some r).toList ++ rows))) := by
        rw [Bool.eq_iff_iff, Bool.and_eq_true, decide_eq_true_iff, decide_eq_true_iff, beq_iff_eq]
        exact Arrangement.rising_cons_cons
      rw [hdecide, Option.all_some, Option.all_some]
      cases b.cmp p r == .lt with
      | true => rfl
      | false => rfl

theorem checkGroups_carry (h : v.WellFormed) {stored : List (GroupId × List (Row S))}
    (hstored : ∀ x ∈ stored, v.groups[x.1]? = some x.2) :
    v.checkGroups (b.carry m) stored = pure (decide (∀ x ∈ stored, b.Rising x.2)) := by
  induction stored with
  | nil => rfl
  | cons x stored ih =>
    obtain ⟨g, rows⟩ := x
    have hg := hstored (g, rows) List.mem_cons_self
    have hrows : v.rows g = rows := by rw [View.rows, hg]; rfl
    have hne : rows.isEmpty = false := by
      simpa using h.stored_ne_nil g rows hg
    have hknown : v.isKnown g = true :=
      ExtTreeSet.contains_iff_mem.mpr (h.stored_known g (mem_map_iff.mpr ⟨_, hg⟩))
    have hcheck : v.checkRows (b.carry m) g none rows = pure (decide (b.Rising rows)) :=
      h.checkRows_carry (by rw [hrows]; exact fun _ hr => hr)
    have hrest := ih fun x hx => hstored x (List.mem_cons_of_mem _ hx)
    rw [checkGroups, hne, hknown]
    simp only [Bool.not_false, Bool.and_true, if_true, hcheck, hrest, pure_bind,
      List.forall_mem_cons]
    by_cases hrising : b.Rising rows
    · simp [hrising]
    · simp [hrising]

theorem rowCount_eq_size (h : v.WellFormed) : v.rowCount = v.size := by
  have hsum : v.rowCount = (v.groups.toList.map fun x => x.2.length).sum := by
    rw [rowCount, List.sum_eq_foldr, List.foldr_map]
  rw [hsum, h.size_eq_sum_length, groupList, ← ExtTreeMap.map_fst_toList_eq_keys, List.map_map]
  congr 1
  refine List.map_congr_left fun x hx => ?_
  obtain ⟨g, rows⟩ := x
  rw [Function.comp_apply, length, View.rows, ExtTreeMap.mem_toList_iff_getElem?_eq_some.mp hx]
  rfl

theorem forall_stored_rising_iff :
    (∀ x ∈ v.groups.toList, b.Rising x.2) ↔ ∀ g, b.Rising (v.rows g) := by
  constructor
  · intro hstored g
    unfold View.rows
    cases hg : v.groups[g]? with
    | none => exact .nil
    | some rows => exact hstored (g, rows) (ExtTreeMap.mem_toList_iff_getElem?_eq_some.mpr hg)
  · intro hrows x hx
    have hx := ExtTreeMap.mem_toList_iff_getElem?_eq_some.mp hx
    have hg := hrows x.1
    rwa [View.rows, hx] at hg

theorem check_carry (h : v.WellFormed) :
    v.check (b.carry m) = pure (decide (∀ x ∈ v.groups.toList, b.Rising x.2)) := by
  have hgroups := h.checkGroups_carry (b := b) (m := m) fun x hx =>
    ExtTreeMap.mem_toList_iff_getElem?_eq_some.mp hx
  rw [check, hgroups, pure_bind, h.rowCount_eq_size]
  by_cases hrising : ∀ x ∈ v.groups.toList, b.Rising x.2
  · rw [decide_eq_true hrising]
    simp
  · rw [decide_eq_false hrising]
    rfl

/-- A view passes its test if its rows are rising. -/
theorem check_of_rising (h : v.WellFormed) (hrising : ∀ g, b.Rising (v.rows g)) :
    v.check (b.carry m) = pure true := by
  rw [h.check_carry, decide_eq_true (forall_stored_rising_iff.mpr hrising)]

/-- The test of a view is passed exactly if the rows of each group are rising. -/
theorem check_eq_true_iff (h : v.WellFormed) :
    v.check b = pure true ↔ ∀ g, b.Rising (v.rows g) := by
  have hcheck : v.check b = pure (decide (∀ x ∈ v.groups.toList, b.Rising x.2)) :=
    h.check_carry (m := Id)
  rw [hcheck, ← forall_stored_rising_iff]
  exact decide_eq_true_iff

end View.WellFormed

end GroupedView
