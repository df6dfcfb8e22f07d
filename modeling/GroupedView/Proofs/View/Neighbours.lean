import GroupedView.Proofs.Ledger
import GroupedView.Proofs.View.Check
import GroupedView.Proofs.View.Integrity
import GroupedView.Rule.Basic
import Mathlib.Data.List.Chain

/-!
# GroupedView.Proofs.View.Neighbours — views under a comparison that need not be an order

A verified search makes each of its comparisons both ways.  If it ends in a gap, the rows on both
sides of the gap were compared with the new one (`bisect_gap_between`), so that a new row always
fits between its neighbours.  But nothing is compared when a row is taken out: the rows on both
sides of it become neighbours then, and if the comparison is not transitive, they may be in the
wrong order.

* `View.Adjacent` names the neighbours of a view, and `View.Closes` says that the rows that become
  neighbours through a removal are in order.
* `neighbours_rise`: a view stays in order exactly as long as removals close their gaps.
* `open_gap_accepted`: a removal that leaves rows in the wrong order is not refused.
-/

open Std
open MonadAttach (CanReturn)

namespace GroupedView

variable {V S : Type} {b : Arrangement Id V S}

/-! ## Verified searches -/

namespace Arrangement

variable {rows : List (Row S)} {row target : Row S} {g : GroupId} {i : Nat}

/-- How a row compares with another one, if the comparison made the other way round agrees. -/
def agreed (b : Arrangement Id V S) (row target : Row S) : Option Ordering :=
  if b.cmp target row = (b.cmp row target).swap then some (b.cmp row target) else none

theorem agreed_eq_some {o : Ordering} (h : b.agreed row target = some o) :
    b.cmp row target = o ∧ b.cmp target row = o.swap := by
  unfold agreed at h
  split at h
  · next hswap =>
    cases h
    exact ⟨rfl, hswap⟩
  · cases h

theorem run_probe_of_verify (hverify : b.options.verify = true) (row target : Row S) (s : Bool) :
    ((b.probe row target).run s).run =
      (b.cmp row target, s || (b.agreed row target).isNone) := by
  have hrun : ((b.probe row target).run s).run =
    ((if b.options.verify then do
        if b.cmp target row ≠ (b.cmp row target).swap then set true
        pure (b.cmp row target)
      else pure (b.cmp row target) : StateT Bool Id Ordering).run s).run := rfl
  rw [hrun, if_pos hverify, agreed]
  by_cases hswap : b.cmp target row = (b.cmp row target).swap
  · rw [if_neg (not_not.mpr hswap), if_pos hswap, Option.isNone_some, Bool.or_false]
    rfl
  · rw [if_pos hswap, if_neg hswap, Option.isNone_none, Bool.or_true]
    rfl

/-- A verified search that is not refused has had agreeing answers only. -/
theorem bisect_agreed_of_search (hverify : b.options.verify = true) {slot : Slot}
    (h : b.search rows target = pure slot) :
    bisect (fun i : Fin rows.length => b.agreed (rows.get i) target) = some slot := by
  have hseek : ∀ s : Bool, ((b.seek rows target).run s).run.2 = false → s = false ∧
      bisect (fun i : Fin rows.length => b.agreed (rows.get i) target) =
        some ((b.seek rows target).run s).run.1 := by
    refine bisect_rel (m := StateT Bool Id) (l := Option)
      (P := fun x y => ∀ s, (x.run s).run.2 = false → s = false ∧ y = some (x.run s).run.1) ?_ ?_ ?_
    · exact fun x s hs => ⟨hs, rfl⟩
    · intro α β x y f g hx hf s hs
      rw [StateT.run_bind, Id.run_bind] at hs ⊢
      obtain ⟨hmid, hlast⟩ := hf _ _ hs
      obtain ⟨rfl, hfirst⟩ := hx s hmid
      refine ⟨rfl, ?_⟩
      rw [hfirst, ← hlast]
      rfl
    · intro i s hs
      rw [run_probe_of_verify hverify] at hs ⊢
      rw [Bool.or_eq_false_iff, agreed] at hs
      refine ⟨hs.1, ?_⟩
      split at hs
      · next hswap => exact if_pos hswap
      · cases hs.2
  rw [search_eq] at h
  obtain ⟨⟨slot', asymmetric⟩, hrun, h⟩ := bind_eq_pure_iff.mp h
  have hrun : ((b.seek rows target).run false).run = (slot', asymmetric) := Except.ok.inj hrun
  cases asymmetric with
  | true => cases h
  | false =>
    cases h
    obtain ⟨-, hslot⟩ := hseek false (by rw [hrun])
    rw [hslot, hrun]

/-- A row fits in at an index: it comes after the row before and before the row that is there. -/
structure Fits (b : Arrangement Id V S) (rows : List (Row S)) (row : Row S) (i : Nat) : Prop where
  le_length : i ≤ rows.length
  lt_row : ∀ r, 0 < i → rows[i - 1]? = some r → b.cmp r row = .lt
  row_lt : ∀ r, rows[i]? = some r → b.cmp row r = .lt

theorem fits_of_search (hverify : b.options.verify = true)
    (h : b.search rows row = pure (.gap i)) : b.Fits rows row i := by
  obtain ⟨hle, hbefore, hafter⟩ := bisect_gap_between (bisect_agreed_of_search hverify h)
  refine ⟨hle, fun r hi hr => ?_, fun r hr => ?_⟩
  · obtain ⟨hlt, rfl⟩ := List.getElem?_eq_some_iff.mp hr
    exact (agreed_eq_some (hbefore hlt hi)).1
  · obtain ⟨hlt, rfl⟩ := List.getElem?_eq_some_iff.mp hr
    exact (agreed_eq_some (hafter hlt)).2

theorem fits_of_hintedIndex {hint : PositionHint}
    (h : b.hintedIndex rows hint g row = pure (some i)) : b.Fits rows row i := by
  have hprecedes : ∀ r s, b.precedes r s = pure (r.all fun r => s.all fun s => b.cmp r s == .lt) :=
    precedes_carry (m := Id)
  unfold hintedIndex at h
  split at h
  · next hin =>
    simp only [hprecedes, pure_bind] at h
    obtain ⟨hfits, hi⟩ := Option.ite_none_right_eq_some.mp h
    cases hi
    rw [Bool.and_eq_true, Option.all_eq_true, Option.all_some, Option.all_eq_true] at hfits
    refine ⟨hin.2, fun r hi hr => ?_, fun r hr => beq_iff_eq.mp (hfits.2 r hr)⟩
    rw [if_neg (by omega)] at hfits
    exact beq_iff_eq.mp (hfits.1 r hr)
  · cases h

/-- Wherever a verified arrangement puts a new row, it fits in. -/
theorem fits_of_insertionIndex (hverify : b.options.verify = true) {hint : Option PositionHint}
    (h : b.insertionIndex rows g row hint = pure i) : b.Fits rows row i := by
  have hnone : b.insertionIndex rows g row none = pure i → b.Fits rows row i := by
    intro h
    rw [insertionIndex_none] at h
    obtain ⟨slot, hslot, h⟩ := bind_eq_pure_iff.mp h
    cases slot with
    | gap j =>
      cases h
      exact fits_of_search hverify hslot
    | found j => cases h
  cases hint with
  | none => exact hnone h
  | some hint =>
    rw [insertionIndex_some] at h
    obtain ⟨hinted, hh, h⟩ := bind_eq_pure_iff.mp h
    cases hinted with
    | none => exact hnone h
    | some j =>
      cases h
      exact fits_of_hintedIndex (Except.ok.inj hh)

end Arrangement

/-! ## Neighbours -/

namespace View

/-- A row stands directly before another one in its group. -/
def Adjacent (v : View S) (r s : Row S) : Prop :=
  ∃ g i, (v.rows g)[i]? = some r ∧ (v.rows g)[i + 1]? = some s

/-- Rows that become neighbours by a mutation of another key are in order. -/
def Closes (b : Arrangement Id V S) (v : View S) (k : ItemKey) (v' : View S) : Prop :=
  ∀ r s, v'.Adjacent r s → ¬ v.Adjacent r s → r.key ≠ k → s.key ≠ k → b.cmp r s = .lt

variable {v v' : View S} {k : ItemKey} {r s row : Row S} {p q : Position} {e : RowEffect}

theorem forall_rising_iff :
    (∀ g, b.Rising (v.rows g)) ↔ ∀ r s, v.Adjacent r s → b.cmp r s = .lt := by
  constructor
  · rintro hrising r s ⟨g, i, hr, hs⟩
    obtain ⟨hi, rfl⟩ := List.getElem?_eq_some_iff.mp hs
    obtain ⟨_, rfl⟩ := List.getElem?_eq_some_iff.mp hr
    exact List.isChain_iff_getElem.mp (hrising g) i hi
  · intro hadjacent g
    refine List.isChain_iff_getElem.mpr fun i hi => hadjacent _ _ ⟨g, i, ?_, ?_⟩
    · exact List.getElem?_eq_getElem _
    · exact List.getElem?_eq_getElem hi

/-- Neighbours are rows of one group. -/
theorem Adjacent.mem (h : v.Adjacent r s) : ∃ g, r ∈ v.rows g ∧ s ∈ v.rows g := by
  obtain ⟨g, i, hr, hs⟩ := h
  exact ⟨g, List.mem_of_getElem? hr, List.mem_of_getElem? hs⟩

theorem Adjacent.key_ne (hv : v.WellFormed) (hk : v.placements[k]? = none) (h : v.Adjacent r s) :
    r.key ≠ k ∧ s.key ≠ k := by
  obtain ⟨g, hr, hs⟩ := h.mem
  have hne : ∀ t ∈ v.rows g, t.key ≠ k := by
    rintro t ht rfl
    rw [hv.placement_of_row g t ht] at hk
    cases hk
  exact ⟨hne r hr, hne s hs⟩

/-- Neighbours after a row is put in are the row and one of those beside it, or were neighbours
before. -/
theorem Adjacent.of_insertRow (hq : q.index ≤ (v.rows q.group).length)
    (h : (v.insertRow row q).Adjacent r s) :
    (r = row ∧ (v.rows q.group)[q.index]? = some s) ∨
      (s = row ∧ 0 < q.index ∧ (v.rows q.group)[q.index - 1]? = some r) ∨ v.Adjacent r s := by
  obtain ⟨g, i, hr, hs⟩ := h
  rw [rows_insertRow] at hr hs
  by_cases hg : g = q.group
  · rw [if_pos hg, List.getElem?_insertIdx] at hr hs
    rcases Nat.lt_trichotomy (i + 1) q.index with hlow | hbefore | hhigh
    · rw [if_pos (by omega)] at hr hs
      exact .inr (.inr ⟨q.group, i, hr, hs⟩)
    · rw [if_pos (by omega)] at hr
      rw [if_neg (by omega), if_pos hbefore, if_pos (by omega), Option.some.injEq] at hs
      refine .inr (.inl ⟨hs.symm, by omega, ?_⟩)
      rwa [← hbefore]
    · rw [if_neg (by omega), if_neg (by omega), Nat.add_sub_cancel] at hs
      rcases Nat.eq_or_lt_of_le (Nat.le_of_lt_succ hhigh) with heq | hlt
      · rw [if_neg (by omega), if_pos heq.symm, if_pos (by omega), Option.some.injEq] at hr
        exact .inl ⟨hr.symm, heq ▸ hs⟩
      · rw [if_neg (by omega), if_neg (by omega)] at hr
        refine .inr (.inr ⟨q.group, i - 1, hr, ?_⟩)
        rwa [Nat.sub_add_cancel (by omega)]
  · rw [if_neg hg] at hr hs
    exact .inr (.inr ⟨g, i, hr, hs⟩)

/-- Neighbours of which one is a row that was put in where it fits are in order. -/
theorem Adjacent.insertRow_cases (hfits : b.Fits (v.rows q.group) row q.index)
    (h : (v.insertRow row q).Adjacent r s) : b.cmp r s = .lt ∨ v.Adjacent r s := by
  rcases h.of_insertRow hfits.le_length with ⟨rfl, hs⟩ | ⟨rfl, hi, hr⟩ | hold
  · exact .inl (hfits.row_lt s hs)
  · exact .inl (hfits.lt_row r hi hr)
  · exact .inr hold

end View

/-- Whether a row was taken out from where it stood. -/
def RowEffect.vacates : RowEffect → Bool
  | untouched | inserted _ | refreshed _ => false
  | removed _ | relocated .. => true

namespace View

variable {v v' : View S} {k : ItemKey} {r s : Row S} {p : Position} {e : RowEffect}

/-- Neighbours after an edit are in order, or were neighbours before it or after a row was taken
out from between them. -/
theorem EditBy.adjacent_cases (h : EditBy b.Fits v k v' e) (hrs : v'.Adjacent r s) :
    b.cmp r s = .lt ∨ v.Adjacent r s ∨
      e.vacates = true ∧ ∃ p, v.keyAt? p = some k ∧ (v.eraseRow k p).Adjacent r s := by
  cases h with
  | ignored | excluded | forgotten | kept => exact .inr (.inl hrs)
  | entered _ _ hfits => exact (hrs.insertRow_cases (v := v.readmit k) hfits).imp_right .inl
  | left hp | hidden hp => exact .inr (.inr ⟨rfl, _, hp, hrs⟩)
  | relocated hp _ hfits =>
    exact (hrs.insertRow_cases hfits).imp_right fun hold => .inr ⟨rfl, _, hp, hold⟩

/-- Rows rise after an edit exactly if it closes the gap that it leaves. -/
theorem EditBy.rising_iff (h : EditBy b.Fits v k v' e) (hv : v.WellFormed)
    (hrising : ∀ g, b.Rising (v.rows g)) : (∀ g, b.Rising (v'.rows g)) ↔ v.Closes b k v' := by
  rw [forall_rising_iff] at hrising ⊢
  refine ⟨fun hafter r s hrs _ _ _ => hafter r s hrs, fun hcloses r s hrs => ?_⟩
  rcases h.adjacent_cases hrs with hlt | hold | ⟨-, p, hp, herased⟩
  · exact hlt
  · exact hrising r s hold
  · by_cases hold : v.Adjacent r s
    · exact hrising r s hold
    · obtain ⟨hr, hs⟩ := herased.key_ne (hv.eraseRow hp) placements_eraseRow_self
      exact hcloses r s hrs hold hr hs

/-- An edit that takes no row out leaves no gap. -/
theorem EditBy.closes_of_not_vacates (h : EditBy b.Fits v k v' e) (he : e.vacates = false) :
    v.Closes b k v' := by
  intro r s hrs hnew _ _
  rcases h.adjacent_cases hrs with hlt | hold | ⟨hvacates, -⟩
  · exact hlt
  · exact absurd hold hnew
  · rw [he] at hvacates
    cases hvacates

/-- Where less is transitive, every gap is closed. -/
theorem EditBy.closes_of_trans (htrans : ∀ r s t, b.cmp r s = .lt → b.cmp s t = .lt →
      b.cmp r t = .lt) (h : EditBy b.Fits v k v' e) (hv : v.WellFormed)
    (hrising : ∀ g, b.Rising (v.rows g)) : v.Closes b k v' := by
  have : Trans (fun r s : Row S => b.cmp r s = .lt) (fun r s => b.cmp r s = .lt)
      (fun r s => b.cmp r s = .lt) := ⟨fun {r s t} => htrans r s t⟩
  intro r s hrs hnew _ _
  rcases h.adjacent_cases hrs with hlt | hold | ⟨-, p, hp, herased⟩
  · exact hlt
  · exact absurd hold hnew
  · refine forall_rising_iff.mp (fun g => ?_) r s herased
    rw [hv.rows_eraseRow_eq_filter hp]
    exact (hrising g).sublist List.filter_sublist

/-! ## Insertions -/

section Insert

variable [BEq S] {value : V} {hint : Option PositionHint} {mu : Mutation V}

omit [BEq S] in
/-- The place of a new row is found, or a comparison was contradicted. -/
theorem insertionIndex_cases (rows : List (Row S)) (g : GroupId) (row : Row S)
    (hint : Option PositionHint) :
    (∃ i, b.insertionIndex rows g row hint = pure i) ∨
      b.insertionIndex rows g row hint = throw (.inconsistent row.key .comparison) := by
  have hsearch : (∃ slot, b.search rows row = pure slot) ∨
      b.search rows row = throw (.inconsistent row.key .comparison) := by
    have hrun : b.search rows row = if ((b.seek rows row).run false).run.2 then
        throw (.inconsistent row.key .comparison) else pure ((b.seek rows row).run false).run.1 :=
      Arrangement.search_eq
    rw [hrun]
    split
    · exact .inr rfl
    · exact .inl ⟨_, rfl⟩
  have hnone : (∃ i, b.insertionIndex rows g row none = pure i) ∨
      b.insertionIndex rows g row none = throw (.inconsistent row.key .comparison) := by
    rw [Arrangement.insertionIndex_none]
    rcases hsearch with ⟨slot, hslot⟩ | hthrow
    · rw [hslot]
      cases slot with
      | gap i => exact .inl ⟨i, rfl⟩
      | found i => exact .inr rfl
    · rw [hthrow]
      exact .inr rfl
  cases hint with
  | none => exact hnone
  | some hint =>
    obtain ⟨hinted, hrun⟩ : ∃ hinted, b.hintedIndex rows hint g row = pure hinted := ⟨_, rfl⟩
    rw [Arrangement.insertionIndex_some, hrun, liftM_pure, pure_bind]
    cases hinted with
    | none => exact hnone
    | some i => exact .inl ⟨i, rfl⟩

/-- A key that is not there is entered without taking a row out, or a function contradicted
itself. -/
theorem enter_cases (v : View S) (k : ItemKey) (value : V) (hint : Option PositionHint) :
    (∃ v' e, v.enter b k value hint = pure (v', e) ∧ e.vacates = false) ∨
      ∃ f, v.enter b k value hint = throw (.inconsistent k f) := by
  have hgroup : b.groupOf k value = pure (b.grouping k value).run :=
    Arrangement.groupOf_carry (m := Id) k value
  unfold enter
  rw [hgroup, pure_bind]
  cases hg : (b.grouping k value).run with
  | none => exact .inl ⟨_, _, rfl, rfl⟩
  | some g =>
    dsimp only
    by_cases ht : b.Trusted k value
    · have hsort : b.sortKeyOf k value = pure (b.sortKey k value).run :=
        Arrangement.sortKeyOf_of_trusted (m := Id) hg ht
      rw [hsort, pure_bind]
      unfold place
      rcases insertionIndex_cases (b := b) ((v.readmit k).rows g) g
        ⟨k, (b.sortKey k value).run⟩ hint with ⟨i, hi⟩ | hthrow
      · rw [hi]
        exact .inl ⟨_, _, rfl, rfl⟩
      · rw [hthrow]
        exact .inr ⟨_, rfl⟩
    · have hsort : b.sortKeyOf k value = throw (.inconsistent k .sortKey) :=
        Arrangement.sortKeyOf_of_not_trusted (m := Id) hg ht
      rw [hsort]
      exact .inr ⟨_, rfl⟩

/-- An accepted insertion takes no row out. -/
theorem vacates_of_insert (h : v.apply b (.insert k value hint) = pure (v', e)) :
    e.vacates = false := by
  by_cases hadmits : b.options.admits k = true
  · rw [View.apply_insert hadmits, View.insert] at h
    split at h
    · cases h
    · rcases enter_cases (b := b) v k value hint with ⟨w, e', hw, he⟩ | ⟨f, hthrow⟩
      · cases hw.symm.trans h
        exact he
      · cases hthrow.symm.trans h
  · rw [View.apply_of_not_admits hadmits] at h
    cases h
    rfl

/-- An accepted mutation of a verified view puts rows in where they fit. -/
theorem editBy_of_apply (hverify : b.options.verify = true)
    (h : v.apply b mu = pure (v', e)) : EditBy b.Fits v mu.key v' e :=
  editBy_of_canReturn_apply
    (fun _ _ _ _ _ hi => Arrangement.fits_of_insertionIndex hverify hi) (canReturn_of_eq_pure h)

/-- A view of a list of items is in order, if it is not refused. -/
theorem rising_of_seed (hverify : b.options.verify = true) {items : List (ItemKey × V)}
    (hv : v.WellFormed) (hrising : ∀ g, b.Rising (v.rows g))
    (h : v.applyAll b (items.map fun (k, value) => .insert k value none) = pure v') :
    ∀ g, b.Rising (v'.rows g) := by
  induction items generalizing v with
  | nil =>
    cases h
    exact hrising
  | cons x items ih =>
    obtain ⟨k, value⟩ := x
    obtain ⟨u, e, happly, h⟩ := applyAll_cons_eq_pure.mp h
    have hedit := editBy_of_apply hverify happly
    have hcloses := hedit.closes_of_not_vacates (vacates_of_insert happly)
    have hwf : u.WellFormed :=
      (edit_of_canReturn_apply (canReturn_of_eq_pure happly)).wellFormed hv
    exact ih hwf ((hedit.rising_iff hv hrising).mpr hcloses) h

end Insert

/-! ## Runs -/

/-- The views that a run can come to if each removal closes its gap: the run starts without items
or from a snapshot, and goes on with accepted mutations. -/
inductive Closing [BEq S] (b : Arrangement Id V S) : View S → Prop
  | empty : Closing b .empty
  | seed {items : List (ItemKey × V)} {v : View S} : View.seed b items = pure v → Closing b v
  | apply {v v' : View S} {mu : Mutation V} {e : RowEffect} : Closing b v →
      v.apply b mu = pure (v', e) → v.Closes b mu.key v' → Closing b v'

section Run

variable [BEq S]

theorem Closing.reachable (h : v.Closing b) : v.Reachable b := by
  induction h with
  | empty => exact .empty
  | seed h => exact .seed (canReturn_of_eq_pure h)
  | apply _ h _ ih => exact ih.apply (canReturn_of_eq_pure h)

theorem Closing.rising (hverify : b.options.verify = true) (h : v.Closing b) (g : GroupId) :
    b.Rising (v.rows g) := by
  have hempty : ∀ g, b.Rising ((View.empty : View S).rows g) := fun g => by
    rw [rows_empty]
    exact .nil
  induction h generalizing g with
  | empty => exact hempty g
  | seed h => exact rising_of_seed hverify .empty hempty h g
  | apply hv h hcloses ih =>
    exact ((editBy_of_apply hverify h).rising_iff hv.reachable.wellFormed ih).mpr hcloses g

theorem Reachable.rising_of_trans (hverify : b.options.verify = true)
    (htrans : ∀ r s t, b.cmp r s = .lt → b.cmp s t = .lt → b.cmp r t = .lt)
    (h : v.Reachable b) (g : GroupId) : b.Rising (v.rows g) := by
  have hboth : v.WellFormed ∧ ∀ g, b.Rising (v.rows g) := by
    refine h.of_seed (I := fun v => v.WellFormed ∧ ∀ g, b.Rising (v.rows g))
      ⟨.empty, fun g => ?_⟩ fun v mu v' e ⟨hv, hrising⟩ happly => ?_
    · rw [rows_empty]
      exact .nil
    · have hedit := editBy_of_apply hverify happly
      exact ⟨(edit_of_canReturn_apply happly).wellFormed hv,
        (hedit.rising_iff hv hrising).mpr (hedit.closes_of_trans htrans hv hrising)⟩
  exact hboth.2 g

end Run

end View

/-- **A view stays in order as long as removals close their gaps.**  Let the functions of a view be
plain functions that are verified; the comparison need not be an order, and the test of sort keys
may be any relation.

In every state of a run of accepted mutations, each of which leaves rows in order that become
neighbours because the row between them is taken out, the rows of each group rise from neighbour to
neighbour, and the view passes its test.  Where less is transitive, every accepted run is such.  An
accepted mutation of a view that passes its test leads to one that passes exactly if it closes its
gap; and the insertion of a new key leads to one that passes, or is refused because a function
contradicts itself. -/
theorem neighbours_rise [BEq S] (b : Arrangement Id V S) (hverify : b.options.verify = true) :
    (∀ v : View S, v.Closing b →
      v.check b = pure true ∧ ∀ r s, v.Adjacent r s → b.cmp r s = .lt) ∧
    ((∀ r s t, b.cmp r s = .lt → b.cmp s t = .lt → b.cmp r t = .lt) →
      ∀ v : View S, v.Reachable b → v.check b = pure true) ∧
    (∀ v : View S, v.Reachable b → v.check b = pure true → ∀ mu v' e,
      v.apply b mu = pure (v', e) → (v'.check b = pure true ↔ v.Closes b mu.key v')) ∧
    ∀ v : View S, v.Reachable b → v.check b = pure true → ∀ k value hint,
      v.contains k = false → v.isExcluded k = false →
      (∃ v' e, v.apply b (.insert k value hint) = pure (v', e) ∧ v'.check b = pure true) ∨
        ∃ f, v.apply b (.insert k value hint) = throw (.inconsistent k f) := by
  have hiff : ∀ v : View S, v.Reachable b → v.check b = pure true → ∀ mu v' e,
      v.apply b mu = pure (v', e) → (v'.check b = pure true ↔ v.Closes b mu.key v') := by
    intro v hv hcheck mu v' e h
    have hwf' := (View.edit_of_canReturn_apply (canReturn_of_eq_pure h)).wellFormed hv.wellFormed
    rw [hv.wellFormed.check_eq_true_iff] at hcheck
    rw [hwf'.check_eq_true_iff]
    exact (View.editBy_of_apply hverify h).rising_iff hv.wellFormed hcheck
  refine ⟨fun v hv => ?_, fun htrans v hv => ?_, hiff, fun v hv hcheck k value hint hk hout => ?_⟩
  · have hrising := hv.rising hverify
    exact ⟨hv.reachable.wellFormed.check_eq_true_iff.mpr hrising,
      View.forall_rising_iff.mp hrising⟩
  · exact hv.wellFormed.check_eq_true_iff.mpr (hv.rising_of_trans hverify htrans)
  · by_cases hadmits : b.options.admits k = true
    · have happly : v.apply b (.insert k value hint) = v.enter b k value hint := by
        rw [View.apply_insert hadmits, View.insert, if_neg (by simp [hk, hout])]
      rw [happly]
      refine (View.enter_cases v k value hint).imp_left fun ⟨v', e, henter, he⟩ => ?_
      refine ⟨v', e, henter, (hiff v hv hcheck _ v' e (happly.trans henter)).mpr ?_⟩
      exact (View.editBy_of_apply hverify (happly.trans henter)).closes_of_not_vacates he
    · rw [View.apply_of_not_admits hadmits]
      exact .inl ⟨v, _, rfl, hcheck⟩

/-! ## A comparison that goes round in a circle -/

/-- Items in the groups that they name, by their ranks around a circle of three. -/
def circle : Arrangement Id Rule.Value Rule.SortKey :=
  ({ comparison := .cyclic } : Rule).arrangement

/-- An item of the one group. -/
def onCircle (rank : Int) : Rule.Value := { group := some ⟨"A"⟩, rank := rank }

/-- Three items, once around the circle. -/
def circleItems : List (ItemKey × Rule.Value) :=
  [(waveringKey "a", onCircle 0), (waveringKey "b", onCircle 1), (waveringKey "c", onCircle 2)]

/-- The view of the three items. -/
def circleView : View Rule.SortKey :=
  (View.seed circle circleItems).run.run.toOption.getD .empty

/-- A view of such items after a mutation; one that is refused changes nothing. -/
def circleStep (v : View Rule.SortKey) (mu : Mutation Rule.Value) : View Rule.SortKey :=
  (v.apply circle mu).run.run.toOption.elim v Prod.fst

theorem seed_circleView : View.seed circle circleItems = pure circleView :=
  eq_ok_getD_of_isOk (by decide +kernel) _

theorem apply_circleStep {v : View Rule.SortKey} {mu : Mutation Rule.Value} {e : RowEffect}
    (h : (v.apply circle mu).run.run.map Prod.snd = .ok e) :
    v.apply circle mu = pure (circleStep v mu, e) := by
  unfold circleStep
  cases hmu : (v.apply circle mu).run.run with
  | error err =>
    rw [hmu] at h
    cases h
  | ok x =>
    rw [hmu] at h
    cases h
    exact hmu

/-- The view of the three items with another one between the first two. -/
def circleGrown : View Rule.SortKey :=
  circleStep circleView (.insert (waveringKey "d") (onCircle 0) none)

/-- The other item comes and leaves again, and closes its gap. -/
theorem circleView_neighbours :
    circle.options.verify = true ∧
    circleView.apply circle (.insert (waveringKey "d") (onCircle 0) none) =
      pure (circleGrown, .inserted ⟨⟨"A"⟩, 1⟩) ∧
    circleGrown.keys ⟨"A"⟩ =
      [waveringKey "a", waveringKey "d", waveringKey "b", waveringKey "c"] ∧
    ∃ v, circleGrown.apply circle (.delete (waveringKey "d")) =
        pure (v, .removed ⟨⟨"A"⟩, 1⟩) ∧
      circleGrown.Closes circle (waveringKey "d") v ∧ v.Closing circle ∧
      v.check circle = pure true := by
  obtain ⟨hclosing, -, hiff, -⟩ := neighbours_rise circle rfl
  have hview : circleView.Closing circle := .seed seed_circleView
  have hcomes : circleView.apply circle (.insert (waveringKey "d") (onCircle 0) none) =
      pure (circleGrown, .inserted ⟨⟨"A"⟩, 1⟩) := apply_circleStep (by decide +kernel)
  have hcheck : (circleGrown.check circle).run = true := by decide +kernel
  have hgrown : circleGrown.Closing circle :=
    hview.apply hcomes ((hiff _ hview.reachable (hclosing _ hview).1 _ _ _ hcomes).mp hcheck)
  have hleaves : circleGrown.apply circle (.delete (waveringKey "d")) =
      pure (circleStep circleGrown (.delete (waveringKey "d")), .removed ⟨⟨"A"⟩, 1⟩) :=
    apply_circleStep (by decide +kernel)
  have hcheck' :
      ((circleStep circleGrown (.delete (waveringKey "d"))).check circle).run = true := by
    decide +kernel
  have hcloses := (hiff _ hgrown.reachable hcheck _ _ _ hleaves).mp hcheck'
  have hend := hgrown.apply hleaves hcloses
  exact ⟨rfl, hcomes, by decide +kernel, _, hleaves, hcloses, hend, (hclosing _ hend).1⟩

/-- The item between the other two is taken away without a refusal, and leaves them in the wrong
order. -/
theorem open_gap_accepted :
    circle.options.verify = true ∧ View.seed circle circleItems = pure circleView ∧
    circleView.keys ⟨"A"⟩ = [waveringKey "a", waveringKey "b", waveringKey "c"] ∧
    (circleView.check circle).run = true ∧
    circleView.apply circle (.delete (waveringKey "b")) =
      pure (circleStep circleView (.delete (waveringKey "b")), .removed ⟨⟨"A"⟩, 1⟩) ∧
    (circleStep circleView (.delete (waveringKey "b"))).keys ⟨"A"⟩ =
      [waveringKey "a", waveringKey "c"] ∧
    ((circleStep circleView (.delete (waveringKey "b"))).check circle).run = false :=
  ⟨rfl, seed_circleView, by decide +kernel, by decide +kernel,
    apply_circleStep (by decide +kernel), by decide +kernel, by decide +kernel⟩

end GroupedView
