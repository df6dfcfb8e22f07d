import GroupedView.Proofs.Bisect
import GroupedView.Proofs.View.Search

/-!
# GroupedView.Proofs.Arrangement — arrangements that are functions

`Arrangement.carry m b` carries functions without effects to a monad `m`.  If they are lawful, that
is, if the comparison is a total preorder, then all that a view asks of them is answered without
effects and without a refusal: `search_of_getElem?` finds the row that is looked for,
`search_of_forall_ne` the gap where it belongs, and `insertionIndex_carry` gives the index of that
gap whatever the writer guesses.
-/

open Std

namespace GroupedView.Arrangement

variable {V S : Type}

/-- The same functions, as effects of another monad that do nothing. -/
def carry (m : Type → Type) [Monad m] (b : Arrangement Id V S) : Arrangement m V S :=
  b.mapEffects fun x => pure x.run

/-- The comparison is a total preorder. -/
structure Lawful (b : Arrangement Id V S) : Prop where
  trans : TransCmp fun r s : Row S => (b.comparison r s).run

theorem lawful_bySortKey [Ord S] [TransOrd S] (grouping : ItemKey → V → Option GroupId)
    (sortKey : ItemKey → V → S) (o : ViewOptions) : (bySortKey grouping sortKey o).Lawful :=
  ⟨inferInstanceAs (TransCmp (compareOn Row.sortKey))⟩

/-- The order of rows. -/
def cmp (b : Arrangement Id V S) (r s : Row S) : Ordering := (b.order r s).run

/-- Rows that go up strictly. -/
def Ascending (b : Arrangement Id V S) (rows : List (Row S)) : Prop :=
  rows.Pairwise fun r s => b.cmp r s = .lt

/-- The number of rows that lie before a row. -/
def rank (b : Arrangement Id V S) (rows : List (Row S)) (row : Row S) : Nat :=
  rows.countP fun r => b.cmp r row = .lt

section Cmp

variable {b : Arrangement Id V S} {r s t : Row S}

theorem key_eq_of_cmp_eq (h : b.cmp r s = .eq) : r.key = s.key := key_eq_of_order_eq h

theorem Lawful.transCmp (hb : b.Lawful) : TransCmp b.cmp :=
  have := hb.trans
  inferInstanceAs (TransCmp (compareLex (fun r s : Row S => (b.comparison r s).run)
    (compareOn Row.key)))

theorem Lawful.cmp_self (hb : b.Lawful) : b.cmp r r = .eq :=
  have := hb.transCmp
  ReflCmp.compare_self

theorem Lawful.cmp_eq_gt_iff (hb : b.Lawful) : b.cmp r s = .gt ↔ b.cmp s r = .lt :=
  have := hb.transCmp
  OrientedCmp.gt_iff_lt

end Cmp

section Carry

variable {m : Type → Type} [Monad m] [LawfulMonad m] {b : Arrangement Id V S}

theorem order_carry (r s : Row S) : (b.carry m).order r s = pure (b.cmp r s) := by
  have horder : (b.carry m).order r s =
      (pure (b.comparison r s).run : m Ordering) >>= fun o =>
        pure (o.then (compare r.key s.key)) := rfl
  rw [horder, pure_bind]
  rfl

theorem groupOf_carry (k : ItemKey) (v : V) :
    (b.carry m).groupOf k v = pure (b.grouping k v).run := by
  have hcall : (b.carry m).grouping k v = pure (b.grouping k v).run := rfl
  simp [groupOf, hcall]

theorem probe_carry (hb : b.Lawful) (row target : Row S) :
    (b.carry m).probe row target = pure (b.cmp row target) := by
  have := hb.transCmp
  have hback : b.cmp target row = (b.cmp row target).swap := OrientedCmp.eq_swap
  simp [probe, order_carry, hback]

theorem search_carry (hb : b.Lawful) (rows : List (Row S)) (target : Row S) :
    (b.carry m).search rows target =
      pure (bisect (m := Id) fun i : Fin rows.length => b.cmp (rows.get i) target).run := by
  simp [search, probe_carry hb, bisect_pure]

theorem precedes_carry (r s : Option (Row S)) :
    (b.carry m).precedes r s =
      pure (r.all fun r => s.all fun s => b.cmp r s == .lt) := by
  cases r with
  | none => rfl
  | some r =>
    cases s with
    | none => rfl
    | some s => simp [precedes, order_carry]

end Carry

/-! ## Searching among ascending rows -/

section Ascending

variable {b : Arrangement Id V S} {rows : List (Row S)} {row target : Row S} {g : GroupId}

theorem Ascending.falling (hb : b.Lawful) (h : b.Ascending rows) (target : Row S) :
    Falling fun i : Fin rows.length => b.cmp (rows.get i) target := by
  have := hb.transCmp
  intro i j hij
  have hlt : b.cmp (rows.get i) (rows.get j) = .lt :=
    List.pairwise_iff_getElem.mp h i j i.isLt j.isLt hij
  by_cases hi : b.cmp (rows.get i) target = .lt
  · exact .inl hi
  · have hle : (b.cmp target (rows.get i)).isLE := by
      rw [@OrientedCmp.eq_swap _ b.cmp]
      cases hc : b.cmp (rows.get i) target with
      | lt => exact absurd hc hi
      | eq | gt => rfl
    exact .inr (hb.cmp_eq_gt_iff.mpr (TransCmp.lt_of_isLE_of_lt hle hlt))

/-- Rows that lie before an index and no others lie before the row. -/
theorem rank_eq {p : Nat} (hp : p ≤ rows.length)
    (hlt : ∀ i : Fin rows.length, i < p → b.cmp (rows.get i) row = .lt)
    (hgt : ∀ i : Fin rows.length, p ≤ i → b.cmp (rows.get i) row = .gt) : b.rank rows row = p := by
  have hbefore : (rows.take p).countP (fun r => b.cmp r row = .lt) = p := by
    rw [List.countP_eq_length.mpr, List.length_take_of_le hp]
    intro r hr
    obtain ⟨i, hi, rfl⟩ := List.getElem_of_mem hr
    rw [List.length_take] at hi
    rw [List.getElem_take]
    exact decide_eq_true (hlt ⟨i, by omega⟩ (by simp only; omega))
  have hafter : (rows.drop p).countP (fun r => b.cmp r row = .lt) = 0 := by
    rw [List.countP_eq_zero]
    intro r hr
    obtain ⟨i, hi, rfl⟩ := List.getElem_of_mem hr
    rw [List.length_drop] at hi
    rw [List.getElem_drop, decide_eq_true_eq]
    have hcmp := hgt ⟨p + i, by omega⟩ (by simp only; omega)
    exact fun he => absurd (he.symm.trans hcmp) (by decide)
  rw [rank, ← List.take_append_drop p rows, List.countP_append, hbefore, hafter, Nat.add_zero]

theorem cmp_ne_eq (hne : ∀ r ∈ rows, r.key ≠ row.key) (i : Fin rows.length) :
    b.cmp (rows.get i) row ≠ .eq :=
  fun he => hne _ (List.getElem_mem _) (key_eq_of_cmp_eq he)

/-- The rows before the rank of a new row lie before it, the others after it. -/
theorem Ascending.parted (hb : b.Lawful) (h : b.Ascending rows)
    (hne : ∀ r ∈ rows, r.key ≠ row.key) :
    b.rank rows row ≤ rows.length ∧
      (∀ i : Fin rows.length, i < b.rank rows row → b.cmp (rows.get i) row = .lt) ∧
      ∀ i : Fin rows.length, b.rank rows row ≤ i → b.cmp (rows.get i) row = .gt := by
  obtain ⟨p, hp, -, hlt, hgt⟩ := bisect_eq_gap (h.falling hb row) (cmp_ne_eq hne)
  rw [rank_eq hp hlt hgt]
  exact ⟨hp, hlt, hgt⟩

/-- A new row fits between the neighbours at its rank and nowhere else. -/
theorem Ascending.fits (hb : b.Lawful) (h : b.Ascending rows)
    (hne : ∀ r ∈ rows, r.key ≠ row.key) {i : Nat} (hi : i ≤ rows.length) :
    (((if i = 0 then none else rows[i - 1]?).all fun r => (some row).all fun s =>
        b.cmp r s == .lt) &&
      ((some row).all fun r => rows[i]?.all fun s => b.cmp r s == .lt)) =
      decide (i = b.rank rows row) := by
  obtain ⟨hle, hlt, hgt⟩ := h.parted hb hne
  simp only [Option.all_some]
  rw [Bool.eq_iff_iff, Bool.and_eq_true, Option.all_eq_true, Option.all_eq_true,
    decide_eq_true_eq]
  constructor
  · rintro ⟨hprevious, hnext⟩
    rcases Nat.lt_trichotomy i (b.rank rows row) with hlow | heq | hhigh
    · have hrow := hnext _ (List.getElem?_eq_getElem (by omega))
      have hbefore := hlt ⟨i, by omega⟩ hlow
      rw [beq_iff_eq, ← hb.cmp_eq_gt_iff] at hrow
      exact absurd (hbefore.symm.trans hrow) (by decide)
    · exact heq
    · rw [if_neg (by omega)] at hprevious
      have hrow := hprevious _ (List.getElem?_eq_getElem (by omega))
      have hafter := hgt ⟨i - 1, by omega⟩ (by simp only; omega)
      rw [beq_iff_eq] at hrow
      exact absurd (hafter.symm.trans hrow) (by decide)
  · rintro rfl
    refine ⟨fun r hr => ?_, fun s hs => ?_⟩
    · split at hr
      · cases hr
      · obtain ⟨hj, rfl⟩ := List.getElem?_eq_some_iff.mp hr
        exact beq_iff_eq.mpr (hlt ⟨_, hj⟩ (by simp only; omega))
    · obtain ⟨hj, rfl⟩ := List.getElem?_eq_some_iff.mp hs
      exact beq_iff_eq.mpr (hb.cmp_eq_gt_iff.mp (hgt ⟨_, hj⟩ (Nat.le_refl _)))

/-- A new row after the rows that lie before it keeps the rows ascending. -/
theorem Ascending.insertIdx (hb : b.Lawful) (h : b.Ascending rows)
    (hne : ∀ r ∈ rows, r.key ≠ row.key) : b.Ascending (rows.insertIdx (b.rank rows row) row) := by
  obtain ⟨hle, hlt, hgt⟩ := h.parted hb hne
  generalize b.rank rows row = p at *
  have hparts : (rows.take p ++ rows.drop p).Pairwise fun r s => b.cmp r s = .lt := by
    rw [List.take_append_drop]
    exact h
  obtain ⟨htake, hdrop, hcross⟩ := List.pairwise_append.mp hparts
  rw [Ascending, insertIdx_eq_take_append hle, List.pairwise_append, List.pairwise_cons]
  refine ⟨htake, ⟨fun s hs => ?_, hdrop⟩, fun r hr s hs => ?_⟩
  · obtain ⟨i, hi, rfl⟩ := List.getElem_of_mem hs
    rw [List.length_drop] at hi
    rw [List.getElem_drop]
    exact hb.cmp_eq_gt_iff.mp (hgt ⟨p + i, by omega⟩ (by simp only; omega))
  · rcases List.mem_cons.mp hs with rfl | hs
    · obtain ⟨i, hi, rfl⟩ := List.getElem_of_mem hr
      rw [List.length_take] at hi
      rw [List.getElem_take]
      exact hlt ⟨i, by omega⟩ (by simp only; omega)
    · exact hcross r hr s hs

/-- Ascending rows are determined by what is among them. -/
theorem Ascending.eq_of_mem_iff (hb : b.Lawful) {rows' : List (Row S)} (h : b.Ascending rows)
    (h' : b.Ascending rows') (hmem : ∀ r, r ∈ rows ↔ r ∈ rows') : rows = rows' := by
  have := hb.transCmp
  have hne : ∀ {r s : Row S}, b.cmp r s = .lt → r ≠ s := by
    rintro r _ hlt rfl
    exact absurd (hb.cmp_self.symm.trans hlt) (by decide)
  refine List.Perm.eq_of_pairwise (fun r s _ _ hrs hsr => ?_) h h'
    ((List.perm_ext_iff_of_nodup (h.imp hne) (h'.imp hne)).mpr hmem)
  exact absurd ((hb.cmp_eq_gt_iff.mpr hrs).symm.trans hsr) (by decide)

/-- Rows that are replaced by level ones are ascending still. -/
theorem Ascending.map_of_level (hb : b.Lawful) (h : b.Ascending rows) {f : Row S → Row S}
    (hf : ∀ r ∈ rows, b.cmp (f r) r = .eq) : b.Ascending (rows.map f) := by
  have := hb.transCmp
  refine List.pairwise_map.mpr (List.Pairwise.imp_of_mem (fun {r s} hr hs hlt => ?_) h)
  rw [TransCmp.congr_left (hf r hr), ← TransCmp.congr_right (OrientedCmp.eq_symm (hf s hs))]
  exact hlt

/-- A row that is taken out would be put in again at the same index, and so would one that is level
with it. -/
theorem Ascending.rank_eraseIdx (hb : b.Lawful) (h : b.Ascending rows) {i : Nat} {r : Row S}
    (hi : rows[i]? = some r) (hlevel : b.cmp row r = .eq) : b.rank (rows.eraseIdx i) row = i := by
  have := hb.transCmp
  obtain ⟨hlt, rfl⟩ := List.getElem?_eq_some_iff.mp hi
  have hlength : (rows.eraseIdx i).length = rows.length - 1 := List.length_eraseIdx_of_lt hlt
  have hrow : ∀ s : Row S, b.cmp s row = b.cmp s rows[i] := fun s => TransCmp.congr_right hlevel
  refine rank_eq (by omega) (fun j hj => ?_) fun j hj => ?_
  · rw [hrow, List.get_eq_getElem, List.getElem_eraseIdx_of_lt _ hj]
    exact List.pairwise_iff_getElem.mp h j i (by omega) hlt hj
  · rw [hrow, List.get_eq_getElem, List.getElem_eraseIdx_of_ge _ hj, hb.cmp_eq_gt_iff]
    exact List.pairwise_iff_getElem.mp h i (j + 1) hlt (by omega) (by omega)

variable {m : Type → Type} [Monad m] [LawfulMonad m]

theorem search_of_getElem? (hb : b.Lawful) (h : b.Ascending rows) {i : Nat}
    (hi : rows[i]? = some target) : (b.carry m).search rows target = pure (.found i) := by
  obtain ⟨hlt, rfl⟩ := List.getElem?_eq_some_iff.mp hi
  have hself : b.cmp (rows.get ⟨i, hlt⟩) rows[i] = .eq := hb.cmp_self
  rw [search_carry hb, bisect_eq_found (h.falling hb rows[i]) hself]

theorem search_of_forall_ne (hb : b.Lawful) (h : b.Ascending rows)
    (hne : ∀ r ∈ rows, r.key ≠ target.key) :
    (b.carry m).search rows target = pure (.gap (b.rank rows target)) := by
  obtain ⟨hle, hlt, hgt⟩ := h.parted hb hne
  rw [search_carry hb, bisect_eq_gap_of_parted hle hlt hgt]

/-- A guess is accepted exactly if it is the index that the search ends at. -/
theorem hintedIndex_carry (hb : b.Lawful) (h : b.Ascending rows)
    (hne : ∀ r ∈ rows, r.key ≠ row.key) (hint : PositionHint) :
    (b.carry m).hintedIndex rows hint g row =
      pure (if hint.group = g ∧ hint.index = b.rank rows row then some hint.index else none) := by
  unfold hintedIndex
  split
  · next hin =>
    simp only [precedes_carry, pure_bind, h.fits hb hne hin.2, hin.1, true_and, decide_eq_true_eq]
  · next hout =>
    rw [if_neg fun ⟨hg, hi⟩ => hout ⟨hg, hi ▸ (h.parted hb hne).1⟩]

/-- Whatever the writer guesses, a new row is put after the rows that lie before it. -/
theorem insertionIndex_carry (hb : b.Lawful) (h : b.Ascending rows)
    (hne : ∀ r ∈ rows, r.key ≠ row.key) (hint : Option PositionHint) :
    (b.carry m).insertionIndex rows g row hint = pure (b.rank rows row) := by
  have hnone : (b.carry m).insertionIndex rows g row none = pure (b.rank rows row) := by
    rw [insertionIndex_none, search_of_forall_ne hb h hne, pure_bind]
  cases hint with
  | none => exact hnone
  | some hint =>
    rw [insertionIndex_some, hintedIndex_carry hb h hne, liftM_pure, pure_bind, hnone]
    by_cases hin : hint.group = g ∧ hint.index = b.rank rows row
    · rw [if_pos hin, hin.2]
    · rw [if_neg hin]

end Ascending

end GroupedView.Arrangement
