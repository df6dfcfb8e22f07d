import GroupedView.Proofs.View.Edit

/-!
# GroupedView.Proofs.View.Integrity — what holds of every view that a run can come to

`View.Reachable a v` says that a run under the arrangement `a` can come to the view `v`.  Nothing is
asked of the functions of `a`: they may answer differently at each call, and the comparison need
not be an order.  The parts of a reachable view agree all the same (`View.Reachable.wellFormed`).

* `reachable_integrity`: keys, rows, placements, groups and sizes agree, the position of a key is
  the position of its row, and the positions that an accepted mutation reports are right.
* `View.Reachable.untracked`: a key of a collection that is not listed never comes into a view.
-/

open Std
open MonadAttach (CanReturn)
open LawfulMonadAttach

namespace GroupedView

variable {m : Type → Type} [Monad m] [MonadAttach m] {V S : Type} [BEq S]

/-- The views that a run can come to: it starts without items or from a snapshot, and goes on with
accepted mutations.  A refused mutation leaves the view as it was. -/
inductive View.Reachable (a : Arrangement m V S) : View S → Prop
  | empty : Reachable a .empty
  | seed {items : List (ItemKey × V)} {v : View S} :
      CanReturn (View.seed a items) v → Reachable a v
  | apply {v v' : View S} {mu : Mutation V} {e : RowEffect} :
      Reachable a v → CanReturn (v.apply a mu) (v', e) → Reachable a v'

variable [LawfulMonad m] [LawfulMonadAttach m] {a : Arrangement m V S}

namespace View

/-- What holds of a view and is kept by each accepted mutation holds after any number of them. -/
theorem canReturn_applyAll {I : View S → Prop}
    (step : ∀ v mu v' e, I v → CanReturn (v.apply a mu) (v', e) → I v') {mus : List (Mutation V)}
    {v v' : View S} (hv : I v) (h : CanReturn (v.applyAll a mus) v') : I v' := by
  refine canReturn_foldlM (fun w mu w' hw hw' => ?_) hv h
  obtain ⟨⟨u, e⟩, hu, hw'⟩ := canReturn_bind_imp' hw'
  cases eq_of_canReturn_pure hw'
  exact step w mu _ e hw hu

/-- Taking a snapshot in is a run of insertions into the view without items. -/
theorem Reachable.of_seed {I : View S → Prop} (h0 : I .empty)
    (step : ∀ v mu v' e, I v → CanReturn (v.apply a mu) (v', e) → I v') {v : View S}
    (h : v.Reachable a) : I v := by
  induction h with
  | empty => exact h0
  | seed h => exact canReturn_applyAll step h0 h
  | apply _ h ih => exact step _ _ _ _ ih h

theorem Reachable.wellFormed {v : View S} (h : v.Reachable a) : v.WellFormed :=
  h.of_seed .empty fun _ _ _ _ hv h => (edit_of_canReturn_apply h).wellFormed hv

end View

/-- **Integrity.**  In every view that a run can come to, whatever the functions answer at each
call: a key is at one position at the most; a row stands exactly where the placement of its key
says, with the sort key of the placement; a key that is kept out has no row; a stored group has
rows and is known; the number of keys is the number of rows.  The position of a key is asked for
with success exactly if it has a row, and names that row.  The positions that an accepted mutation
reports are those of its key, before for a row that leaves or stays, after for one that enters. -/
theorem reachable_integrity (a : Arrangement m V S) {v : View S} (hv : v.Reachable a) :
    (∀ k p q, v.keyAt? p = some k → v.keyAt? q = some k → p = q) ∧
    (∀ g k, k ∈ v.keys g ↔ v.groupOf? k = some g) ∧
    (∀ g (r : Row S), r ∈ v.rows g ↔ v.placements[r.key]? = some ⟨g, r.sortKey⟩) ∧
    (∀ k, v.isExcluded k = true → ∀ g, k ∉ v.keys g) ∧
    (∀ (g : GroupId) (rows : List (Row S)), v.groups[g]? = some rows → rows ≠ []) ∧
    (∀ g ∈ v.groupList, v.isKnown g = true) ∧
    v.size = (v.groupList.map v.length).sum ∧
    (∀ k o, CanReturn (v.positionOf a k) o →
      (o.isSome = true ↔ v.contains k = true) ∧ ∀ p, o = some p → v.keyAt? p = some k) ∧
    ∀ mu v' e, CanReturn (v.apply a mu) (v', e) → e.Exact mu.key v v' := by
  have hwf := hv.wellFormed
  refine ⟨fun k p q => hwf.keyAt?_inj, fun g k => hwf.mem_keys_iff_groupOf?, fun g r => ?_,
    fun k hk g => hwf.not_mem_keys (hwf.excluded_unplaced k hk), hwf.stored_ne_nil,
    fun g hg => hwf.stored_known g (ExtTreeMap.mem_keys.mp hg), hwf.size_eq_sum_length,
    fun k o ho => ?_, fun mu v' e h => (View.edit_of_canReturn_apply h).exact⟩
  · exact ⟨hwf.placement_of_row g r, fun hpl => hwf.row_of_placement r.key _ hpl⟩
  · cases View.eq_locate_of_canReturn_positionOf hwf ho
    rw [hwf.isSome_locate]
    exact ⟨Iff.rfl, fun p => hwf.locate_eq_some_iff.mp⟩

/-! ## An arrangement that contradicts itself -/

/-- Numbers in groups of ten; zero has no group.  The comparison knows equal numbers; of others it
says at every second call that the first row comes later, and else that it comes earlier. -/
def wavering (m : Type → Type) [Monad m] [MonadStateOf Nat m] : Arrangement m Nat Nat where
  grouping _ n := pure (if n = 0 then none else some ⟨toString (n / 10)⟩)
  sortKey _ n := pure n
  comparison r s := do
    let turn ← getModify (· + 1)
    return if r.sortKey = s.sortKey then .eq else if turn % 2 = 0 then .gt else .lt
  options := { verify := false }

/-- The sample key with a name. -/
def waveringKey (name : String) : ItemKey := ⟨"numbers", name⟩

/-- Five numbers, three of them in one group and one without a group. -/
def waveringItems : List (ItemKey × Nat) :=
  [(waveringKey "a", 1), (waveringKey "b", 2), (waveringKey "c", 3), (waveringKey "d", 0),
    (waveringKey "e", 10)]

/-- The view of the five numbers. -/
def waveringView : View Nat :=
  ((View.seed (wavering (StateM Nat)) waveringItems).run.run 0).1.toOption.getD .empty

theorem canReturn_waveringView :
    CanReturn (View.seed (wavering (StateM Nat)) waveringItems) waveringView :=
  ⟨0, _, Prod.ext (eq_ok_getD_of_isOk (by decide +kernel) _) rfl⟩

/-- The rows of the numbers one to three are out of order, and yet the parts of the view agree. -/
theorem waveringView_integrity :
    waveringView.Reachable (wavering (StateM Nat)) ∧
    waveringView.keys ⟨"0"⟩ = [waveringKey "b", waveringKey "c", waveringKey "a"] ∧
    waveringKey "d" ∉ waveringView.keys ⟨"0"⟩ ∧
    waveringView.size = (waveringView.groupList.map waveringView.length).sum ∧
    ∀ o, CanReturn (waveringView.positionOf (wavering (StateM Nat)) (waveringKey "b")) o →
      (o.isSome = true ↔ waveringView.contains (waveringKey "b") = true) ∧
        ∀ p, o = some p → waveringView.keyAt? p = some (waveringKey "b") := by
  have hv : waveringView.Reachable (wavering (StateM Nat)) := .seed canReturn_waveringView
  obtain ⟨-, -, -, hout, -, -, hsize, hpos, -⟩ := reachable_integrity (wavering (StateM Nat)) hv
  exact ⟨hv, by decide +kernel, hout _ (by decide +kernel) _, hsize, hpos (waveringKey "b")⟩

/-! ## Collections that reach a view -/

section Collections

variable {listed : ExtTreeSet String} (hlisted : a.options.collections = some listed) {v : View S}

include hlisted

omit [LawfulMonad m] [MonadAttach m] [LawfulMonadAttach m] in
/-- A mutation in a collection that is not listed does nothing, and one in a listed collection does
what it does if all collections reach the view. -/
theorem View.apply_of_collections (v : View S) (mu : Mutation V) :
    v.apply a mu = if mu.key.collection ∈ listed
      then v.apply { a with options := { a.options with collections := none } } mu
      else pure (v, .untouched) := by
  split
  · next hin =>
    have hadmits : a.options.admits mu.key = true :=
      ViewOptions.admits_iff.mpr fun _ h => Option.some.inj (hlisted.symm.trans h) ▸ hin
    unfold View.apply
    rw [if_pos hadmits, if_pos (ViewOptions.admits_of_collections_none rfl)]
    rfl
  · next hout =>
    exact View.apply_of_not_admits fun h => hout (ViewOptions.admits_iff.mp h _ hlisted)

/-- **A key of a collection that is not listed stays out of a view.**  In no view that a run can
come to it has a row, and it is not kept out of the groups either. -/
theorem View.Reachable.untracked (hv : v.Reachable a) {k : ItemKey} (hk : k.collection ∉ listed) :
    v.contains k = false ∧ v.isExcluded k = false ∧ ∀ g, k ∉ v.keys g := by
  have huntracked : v.placements[k]? = none ∧ k ∉ v.excluded := by
    refine hv.of_seed (I := fun v => v.placements[k]? = none ∧ k ∉ v.excluded)
      ⟨ExtTreeMap.getElem?_empty, ExtTreeSet.not_mem_empty⟩ fun w mu w' e hw h => ?_
    by_cases hmu : k = mu.key
    · subst hmu
      rw [View.apply_of_collections hlisted, if_neg hk] at h
      cases eq_of_canReturn_pure h
      exact hw
    · obtain ⟨hplacements, hexcluded⟩ := (edit_of_canReturn_apply h).others hmu
      exact ⟨hplacements.trans hw.1, mt hexcluded.mp hw.2⟩
  refine ⟨?_, ?_, fun g => hv.wellFormed.not_mem_keys huntracked.1⟩
  · rw [View.contains, ExtTreeMap.contains_eq_isSome_getElem?, huntracked.1]
    rfl
  · rw [View.isExcluded, Bool.eq_false_iff, ne_eq, ExtTreeSet.contains_iff_mem]
    exact huntracked.2

end Collections

/-- Like `wavering`, for one collection. -/
def selective (m : Type → Type) [Monad m] [MonadStateOf Nat m] : Arrangement m Nat Nat :=
  { wavering m with options := { verify := false, collections := some (.ofList ["numbers"]) } }

/-- The view of two numbers, one of them without a group, and of an item of another collection. -/
def selectiveView : View Nat :=
  ((View.seed (selective (StateM Nat)) [(waveringKey "a", 1), (⟨"letters", "a"⟩, 2),
    (waveringKey "d", 0)]).run.run 0).1.toOption.getD .empty

/-- The numbers are tracked, with a row or without; the item of the other collection is not, and a
mutation of it goes unnoticed. -/
theorem selectiveView_untracked :
    selectiveView.Reachable (selective (StateM Nat)) ∧
    selectiveView.keys ⟨"0"⟩ = [waveringKey "a"] ∧
    selectiveView.isExcluded (waveringKey "d") = true ∧
    (selectiveView.contains ⟨"letters", "a"⟩ = false ∧
      selectiveView.isExcluded ⟨"letters", "a"⟩ = false ∧
      ∀ g, ⟨"letters", "a"⟩ ∉ selectiveView.keys g) ∧
    selectiveView.apply (selective (StateM Nat)) (.delete ⟨"letters", "a"⟩) =
      pure (selectiveView, .untouched) := by
  have hseed : CanReturn (View.seed (selective (StateM Nat)) [(waveringKey "a", 1),
      (⟨"letters", "a"⟩, 2), (waveringKey "d", 0)]) selectiveView :=
    ⟨0, _, Prod.ext (eq_ok_getD_of_isOk (by decide +kernel) _) rfl⟩
  have hview : selectiveView.Reachable (selective (StateM Nat)) := .seed hseed
  have hother : "letters" ∉ ExtTreeSet.ofList ["numbers"] := by decide +kernel
  refine ⟨hview, by decide +kernel, by decide +kernel, hview.untracked rfl hother, ?_⟩
  rw [View.apply_of_collections rfl]
  exact if_neg hother

end GroupedView
