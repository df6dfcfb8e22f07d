import GroupedView.Proofs.Returns
import GroupedView.Proofs.View.WellFormed
import GroupedView.View.Search

/-!
# GroupedView.Proofs.View.Search — what a search can find, whatever the comparison answers

The order of rows falls back on the order of keys.  A search that says it found a row therefore
found the key it was looking for (`key_eq_of_canReturn_search`), also when the comparison led it
astray on the way; a gap lies within the rows (`le_of_canReturn_search`).  So `View.find` names a
position of its key, `View.place` inserts at an index that exists, and `View.positionOf` answers
with the position that is read off the rows.
-/

open MonadAttach (CanReturn)
open LawfulMonadAttach

namespace GroupedView

variable {m : Type → Type} [Monad m] [LawfulMonad m] [MonadAttach m] [LawfulMonadAttach m]
variable {V S : Type} {a : Arrangement m V S}

namespace Arrangement

variable {rows : List (Row S)} {row target : Row S} {s : Slot} {i : Nat}

theorem key_eq_of_canReturn_order (h : CanReturn (a.order row target) .eq) :
    row.key = target.key := by
  unfold order at h
  obtain ⟨o, -, h⟩ := canReturn_bind_imp' h
  exact Std.LawfulEqOrd.eq_of_compare (Ordering.then_eq_eq.mp (eq_of_canReturn_pure h)).2

theorem canReturn_order_of_probe {o : Ordering} (h : CanReturn (a.probe row target) o) :
    CanReturn (a.order row target) o := by
  unfold probe at h
  obtain ⟨f, hf, h⟩ := canReturn_bind_imp' h
  have hf := canReturn_liftM_imp' hf
  dsimp only at h
  have he : f = o := by
    split at h
    · obtain ⟨b, -, h⟩ := canReturn_bind_imp' h
      split at h
      · obtain ⟨u, -, h⟩ := canReturn_bind_imp' h
        exact eq_of_canReturn_pure h
      · exact eq_of_canReturn_pure h
    · exact eq_of_canReturn_pure h
  exact he ▸ hf

/-- The halving of a search.  Its state records whether a comparison was contradicted. -/
def seek {m : Type → Type} [Monad m] (a : Arrangement m V S) (rows : List (Row S))
    (target : Row S) : StateT Bool m Slot :=
  bisect fun i : Fin rows.length => a.probe (rows.get i) target

omit [MonadAttach m] [LawfulMonadAttach m] in
/-- A search halves the rows to the end, and is refused then if a comparison was contradicted. -/
theorem search_eq : a.search rows target =
    ExceptT.lift ((a.seek rows target).run false) >>= fun r =>
      if r.2 then throw (.inconsistent target.key .comparison) else pure r.1 := by
  refine bind_congr fun r => ?_
  obtain ⟨slot, asymmetric⟩ := r
  cases asymmetric with
  | false => rfl
  | true => exact throw_bind _

omit [MonadAttach m] [LawfulMonadAttach m] in
theorem run_search : (a.search rows target).run = (a.seek rows target).run false >>= fun r =>
    pure (if r.2 then .error (.inconsistent target.key .comparison) else .ok r.1) := by
  rw [search_eq, ExceptT.run_bind, ExceptT.run_lift, bind_map_left]
  refine bind_congr fun r => ?_
  obtain ⟨slot, asymmetric⟩ := r
  cases asymmetric with
  | false => rfl
  | true => rfl

/-- A search ends at or beside a row, by an answer of the order on that row. -/
theorem canReturn_search (h : CanReturn (a.search rows target) s) :
    (rows.length = 0 ∧ s = .gap 0) ∨
      ∃ (i : Fin rows.length) (o : Ordering), CanReturn (a.order (rows.get i) target) o ∧
        s = .beside i o := by
  rw [search_eq] at h
  obtain ⟨⟨t, asymmetric⟩, ht, h⟩ := canReturn_bind_imp' h
  cases asymmetric with
  | true => exact absurd h not_canReturn_throw
  | false =>
    cases eq_of_canReturn_pure h
    have hseek : CanReturn (a.seek rows target) t := ⟨false, false, canReturn_lift ht⟩
    rcases canReturn_bisect hseek with h0 | ⟨i, o, ho, hs⟩
    · exact .inl h0
    · exact .inr ⟨i, o, canReturn_order_of_probe ho, hs⟩

theorem key_eq_of_canReturn_search (h : CanReturn (a.search rows target) (.found i)) :
    ∃ r, rows[i]? = some r ∧ r.key = target.key := by
  rcases canReturn_search h with ⟨-, hs⟩ | ⟨j, o, ho, hs⟩
  · cases hs
  · cases o <;> cases hs
    exact ⟨rows[j], by simp, key_eq_of_canReturn_order ho⟩

theorem le_of_canReturn_search (h : CanReturn (a.search rows target) (.gap i)) :
    i ≤ rows.length := by
  rcases canReturn_search h with ⟨-, hs⟩ | ⟨j, o, -, hs⟩
  · cases hs
    exact Nat.zero_le _
  · cases o <;> cases hs
    · exact j.isLt
    · exact Nat.le_of_lt j.isLt

theorem le_of_canReturn_hintedIndex {hint : PositionHint} {g : GroupId}
    (h : CanReturn (a.hintedIndex rows hint g row) (some i)) : i ≤ rows.length := by
  unfold hintedIndex at h
  split at h
  · next hin =>
    obtain ⟨afterPrevious, -, h⟩ := canReturn_bind_imp' h
    obtain ⟨beforeNext, -, h⟩ := canReturn_bind_imp' h
    have he := eq_of_canReturn_pure h
    split at he
    · cases he
      exact hin.2
    · cases he
  · cases eq_of_canReturn_pure h

omit [MonadAttach m] [LawfulMonadAttach m] in
/-- Without a guess the index is the gap where the search ends. -/
theorem insertionIndex_none {g : GroupId} : a.insertionIndex rows g row none =
    a.search rows row >>= fun
      | .gap i => pure i
      | .found _ => throw (.inconsistent row.key .comparison) :=
  pure_bind none _

omit [MonadAttach m] [LawfulMonadAttach m] in
/-- A guess that is refused is as good as none. -/
theorem insertionIndex_some {g : GroupId} {hint : PositionHint} :
    a.insertionIndex rows g row (some hint) =
      liftM (a.hintedIndex rows hint g row) >>= fun
        | some i => pure i
        | none => a.insertionIndex rows g row none := by
  rw [insertionIndex_none]
  rfl

theorem le_of_canReturn_insertionIndex {g : GroupId} {hint : Option PositionHint}
    (h : CanReturn (a.insertionIndex rows g row hint) i) : i ≤ rows.length := by
  have hnone : CanReturn (a.insertionIndex rows g row none) i → i ≤ rows.length := by
    intro h
    rw [insertionIndex_none] at h
    obtain ⟨s, hs, h⟩ := canReturn_bind_imp' h
    cases s with
    | gap j =>
      cases eq_of_canReturn_pure h
      exact le_of_canReturn_search hs
    | found j => exact absurd h not_canReturn_throw
  cases hint with
  | none => exact hnone h
  | some hint =>
    rw [insertionIndex_some] at h
    obtain ⟨hinted, hh, h⟩ := canReturn_bind_imp' h
    cases hinted with
    | none => exact hnone h
    | some j =>
      cases eq_of_canReturn_pure h
      exact le_of_canReturn_hintedIndex (canReturn_liftM_imp' hh)

end Arrangement

namespace View

variable {v v' : View S} {k : ItemKey} {p : Position} {pl : Placement S}

/-- The position that is found for a key is its own. -/
theorem keyAt?_of_canReturn_find (h : CanReturn (v.find a k pl) p) : v.keyAt? p = some k := by
  unfold find at h
  obtain ⟨s, hs, h⟩ := canReturn_bind_imp' h
  cases s with
  | found i =>
    cases eq_of_canReturn_pure h
    exact keyAt?_eq_some_iff.mpr (Arrangement.key_eq_of_canReturn_search hs)
  | gap i => exact absurd h not_canReturn_throw

/-- A row is put in at the index that is found for it. -/
theorem canReturn_place {g : GroupId} {row : Row S} {hint : Option PositionHint}
    (h : CanReturn (v.place a g row hint) (v', p)) :
    v' = v.insertRow row p ∧ p.group = g ∧
      CanReturn (a.insertionIndex (v.rows p.group) p.group row hint) p.index := by
  unfold place at h
  obtain ⟨i, hi, h⟩ := canReturn_bind_imp' h
  cases eq_of_canReturn_pure h
  exact ⟨rfl, rfl, hi⟩

/-- The position of a key for display does not depend on the comparison. -/
theorem eq_locate_of_canReturn_positionOf (hv : v.WellFormed) {o : Option Position}
    (h : CanReturn (v.positionOf a k) o) : o = v.locate k := by
  unfold positionOf at h
  cases hpl : v.placements[k]? with
  | none =>
    rw [hpl] at h
    rw [hv.locate_eq_none_iff.mpr hpl]
    exact (eq_of_canReturn_pure h).symm
  | some pl =>
    rw [hpl] at h
    obtain ⟨s, hs, h⟩ := canReturn_bind_imp' h
    have hscan : (v.rows pl.group).findIdx? (·.key = k) = (v.keys pl.group).idxOf? k := by
      rw [List.idxOf?, keys, List.findIdx?_map]
      rfl
    split at h
    · next i =>
      have hk : v.keyAt? ⟨pl.group, i⟩ = some k :=
        keyAt?_eq_some_iff.mpr (Arrangement.key_eq_of_canReturn_search hs)
      rw [hv.locate_eq_some_iff.mpr hk]
      exact (eq_of_canReturn_pure h).symm
    · rw [hscan] at h
      rw [locate, hpl]
      exact (eq_of_canReturn_pure h).symm

omit [LawfulMonad m] [MonadAttach m] [LawfulMonadAttach m] in
theorem positionOf_eq_locate {b : Arrangement Id V S} (hv : v.WellFormed) (k : ItemKey) :
    v.positionOf b k = pure (v.locate k) := by
  have h : CanReturn (v.positionOf b k) (v.positionOf b k).run := rfl
  exact eq_locate_of_canReturn_positionOf hv h

end View

end GroupedView
