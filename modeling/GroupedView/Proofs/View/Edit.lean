import GroupedView.Proofs.View.Search
import GroupedView.View.Mutate

/-!
# GroupedView.Proofs.View.Edit — what one accepted mutation does to a view

`View.Edit v k v' e` lists all that an accepted mutation of the key `k` can do to a view `v`: the
view `v'` after it, and the effect `e` it reports.  `View.EditBy fits` says more of where rows are
put in, if more is known of the indices that an arrangement finds for them.  `RowEffect.Spans` says
how the placements of the key before and after fit the effect, so that two mutations that find and
leave a key alike report the same, but for the positions.

* `View.result_of_canReturn_apply`, with one lemma for each kind of mutation: there is nothing else
  that an accepted mutation can do, for any arrangement.
* An edit keeps the parts of a view in agreement (`View.Edit.wellFormed`).
* The positions it reports are those of the key (`View.Edit.exact`).
-/

open Std
open MonadAttach (CanReturn)
open LawfulMonadAttach

namespace GroupedView

/-- The positions in an effect are those of the key: one that is left or kept is of the view
before, one that is entered is of the view after. -/
def RowEffect.Exact {S : Type} (k : ItemKey) (v v' : View S) : RowEffect → Prop
  | untouched => True
  | inserted q => v'.keyAt? q = some k
  | removed p => v.keyAt? p = some k
  | refreshed p => v.keyAt? p = some k
  | relocated p q => v.keyAt? p = some k ∧ v'.keyAt? q = some k

/-- How the placements of a key before and after a mutation fit the effect it reports; a move takes
the row out even if it stays in its group. -/
def RowEffect.Spans {S : Type} (before after : Option (Placement S)) (moves : Prop) :
    RowEffect → Prop
  | untouched => before = none ∧ after = none
  | inserted _ => before = none ∧ after ≠ none
  | removed _ => before ≠ none ∧ after = none
  | refreshed _ => before ≠ none ∧ after = before ∧ ¬ moves
  | relocated .. => before ≠ none ∧ after ≠ none ∧ (after ≠ before ∨ moves)

/-- Effects that fit the same placements differ in positions only. -/
theorem RowEffect.Spans.alike {S : Type} {before after : Option (Placement S)} {moves : Prop}
    {e e' : RowEffect} (h : e.Spans before after moves) (h' : e'.Spans before after moves) :
    (e = .untouched ↔ e' = .untouched) ∧ e.relocates = e'.relocates := by
  cases e <;> cases e' <;> simp_all [Spans, relocates]

namespace View

/-- The changes that an accepted mutation of one key can make, if rows are put in where they fit as
`fits` asks. -/
inductive EditBy {S : Type} (fits : List (Row S) → Row S → Nat → Prop) (v : View S) (k : ItemKey) :
    View S → RowEffect → Prop
  /-- Nothing changes. -/
  | ignored : EditBy fits v k v .untouched
  /-- A key without a row is kept out from now on. -/
  | excluded : v.placements[k]? = none → EditBy fits v k (v.exclude k) .untouched
  /-- A key that was kept out is gone. -/
  | forgotten : v.placements[k]? = none → EditBy fits v k (v.readmit k) .untouched
  /-- A key without a row gets one. -/
  | entered {row : Row S} {q : Position} : v.placements[k]? = none → row.key = k →
      fits (v.rows q.group) row q.index →
      EditBy fits v k ((v.readmit k).insertRow row q) (.inserted q)
  /-- The row stays and its value is new. -/
  | kept {p : Position} : v.keyAt? p = some k → EditBy fits v k v (.refreshed p)
  /-- The row is taken away with its key. -/
  | left {p : Position} : v.keyAt? p = some k → EditBy fits v k (v.eraseRow k p) (.removed p)
  /-- The row is taken away and its key is kept out from now on. -/
  | hidden {p : Position} : v.keyAt? p = some k →
      EditBy fits v k ((v.eraseRow k p).exclude k) (.removed p)
  /-- The row is taken out and put in again. -/
  | relocated {p q : Position} {row : Row S} : v.keyAt? p = some k → row.key = k →
      fits ((v.eraseRow k p).rows q.group) row q.index →
      EditBy fits v k ((v.eraseRow k p).insertRow row q) (.relocated p q)

/-- The changes that an accepted mutation of one key can make: rows are put in at an index that
exists. -/
abbrev Edit {S : Type} (v : View S) (k : ItemKey) : View S → RowEffect → Prop :=
  EditBy (fun rows _ i => i ≤ rows.length) v k

/-- A mutation of an item that is not admitted does nothing. -/
theorem apply_of_not_admits {m : Type → Type} [Monad m] {V S : Type} [BEq S]
    {a : Arrangement m V S} {v : View S} {mu : Mutation V}
    (h : ¬ a.options.admits mu.key = true) : v.apply a mu = pure (v, .untouched) := if_neg h

theorem apply_insert {m : Type → Type} [Monad m] {V S : Type} [BEq S] {a : Arrangement m V S}
    {v : View S} {k : ItemKey} {value : V} {hint : Option PositionHint}
    (h : a.options.admits k = true) :
    v.apply a (.insert k value hint) = v.insert a k value hint := if_pos h

/-- Without effects, mutations are accepted if the first one is, and the others after it. -/
theorem applyAll_cons_eq_pure {V S : Type} [BEq S] {b : Arrangement Id V S} {v w : View S}
    {mu : Mutation V} {mus : List (Mutation V)} :
    v.applyAll b (mu :: mus) = pure w ↔
      ∃ u e, v.apply b mu = pure (u, e) ∧ u.applyAll b mus = pure w := by
  rw [applyAll, List.foldlM_cons, bind_eq_pure_iff]
  constructor
  · rintro ⟨u, hu, hw⟩
    obtain ⟨⟨u, e⟩, happly, hu⟩ := bind_eq_pure_iff.mp hu
    cases hu
    exact ⟨u, e, happly, hw⟩
  · rintro ⟨u, e, happly, hw⟩
    exact ⟨u, bind_eq_pure_iff.mpr ⟨_, happly, rfl⟩, hw⟩

/-! ## What accepted mutations come to -/

/-- What an accepted mutation of an admitted key comes to: it makes one of the listed changes, and
its report fits the placements of the key before and after it. -/
structure Result {S : Type} [BEq S] (fits : List (Row S) → Row S → Nat → Prop) (moves : Prop)
    (v : View S) (k : ItemKey) (v' : View S) (e : RowEffect) : Prop where
  edit : EditBy fits v k v' e
  spans [ReflBEq S] : e.Spans v.placements[k]? v'.placements[k]? moves

section

variable {m : Type → Type} [Monad m] [LawfulMonad m] [MonadAttach m] [LawfulMonadAttach m]
variable {V S : Type} [BEq S] {a : Arrangement m V S} {v v' : View S} {k : ItemKey} {value : V}
  {e : RowEffect} {fits : List (Row S) → Row S → Nat → Prop} {moves : Prop}

-- whatever holds of the indices that are found for new rows holds of the rows that are put in
variable (hfits : ∀ (rows : List (Row S)) (g : GroupId) (row : Row S) (hint : Option PositionHint)
  (i : Nat), CanReturn (a.insertionIndex rows g row hint) i → fits rows row i)

include hfits

theorem result_of_canReturn_enter {hint : Option PositionHint} (hk : v.placements[k]? = none)
    (h : CanReturn (v.enter a k value hint) (v', e)) : Result fits moves v k v' e := by
  unfold enter at h
  obtain ⟨g, -, h⟩ := canReturn_bind_imp' h
  cases g with
  | none =>
    cases eq_of_canReturn_pure h
    exact ⟨.excluded hk, hk, hk⟩
  | some g =>
    obtain ⟨s, -, h⟩ := canReturn_bind_imp' h
    obtain ⟨⟨w, q⟩, hw, h⟩ := canReturn_bind_imp' h
    cases eq_of_canReturn_pure h
    obtain ⟨rfl, -, hq⟩ := canReturn_place hw
    refine ⟨.entered hk rfl (hfits _ _ _ _ _ hq), hk, ?_⟩
    rw [placements_insertRow_self]
    exact Option.some_ne_none _

theorem result_of_canReturn_insert {hint : Option PositionHint}
    (h : CanReturn (v.insert a k value hint) (v', e)) : Result fits moves v k v' e := by
  unfold insert at h
  split at h
  · exact absurd h not_canReturn_throw
  · next hk =>
    rw [Bool.or_eq_true, not_or] at hk
    exact result_of_canReturn_enter hfits (placements_eq_none_of_not_contains hk.1) h

theorem result_of_canReturn_updateRow {pl : Placement S} {layout : Bool} (hmoves : ¬ moves)
    (hk : v.placements[k]? = some pl) (h : CanReturn (v.updateRow a k value pl layout) (v', e)) :
    Result fits moves v k v' e := by
  have hsome : v.placements[k]? ≠ none := by simp [hk]
  unfold updateRow at h
  obtain ⟨old, hold, h⟩ := canReturn_bind_imp' h
  have hold := keyAt?_of_canReturn_find hold
  split at h
  · cases eq_of_canReturn_pure h
    exact ⟨.kept hold, hsome, rfl, hmoves⟩
  · obtain ⟨g, -, h⟩ := canReturn_bind_imp' h
    cases g with
    | none =>
      cases eq_of_canReturn_pure h
      exact ⟨.hidden hold, hsome, placements_eraseRow_self (p := old)⟩
    | some g =>
      obtain ⟨s, -, h⟩ := canReturn_bind_imp' h
      dsimp only at h
      split at h
      · cases eq_of_canReturn_pure h
        exact ⟨.kept hold, hsome, rfl, hmoves⟩
      · next hdiffers =>
        obtain ⟨⟨w, new⟩, hw, h⟩ := canReturn_bind_imp' h
        cases eq_of_canReturn_pure h
        obtain ⟨rfl, rfl, hnew⟩ := canReturn_place hw
        refine ⟨.relocated hold rfl (hfits _ _ _ _ _ hnew), ?_⟩
        rw [placements_insertRow_self, hk]
        -- with the old group and the old sort key the row would have stayed
        exact ⟨nofun, nofun, .inl fun he => hdiffers (by cases he; simp)⟩

theorem result_of_canReturn_update {layout : Bool} (hmoves : ¬ moves)
    (h : CanReturn (v.update a k value layout) (v', e)) : Result fits moves v k v' e := by
  unfold update at h
  split at h
  · next hk => exact result_of_canReturn_updateRow hfits hmoves hk h
  · next hk =>
    split at h
    · split at h
      · exact result_of_canReturn_enter hfits hk h
      · cases eq_of_canReturn_pure h
        exact ⟨.ignored, hk, hk⟩
    · exact absurd h not_canReturn_throw

omit hfits in
theorem result_of_canReturn_delete (h : CanReturn (v.delete a k) (v', e)) :
    Result fits moves v k v' e := by
  unfold delete at h
  split at h
  · next pl hk =>
    obtain ⟨old, hold, h⟩ := canReturn_bind_imp' h
    cases eq_of_canReturn_pure h
    exact ⟨.left (keyAt?_of_canReturn_find hold), by simp [hk], placements_eraseRow_self⟩
  · next hk =>
    split at h
    · cases eq_of_canReturn_pure h
      exact ⟨.forgotten hk, hk, hk⟩
    · exact absurd h not_canReturn_throw

theorem result_of_canReturn_move {source target : GroupId} (hmoves : moves)
    (h : CanReturn (v.move a k value source target) (v', e)) : Result fits moves v k v' e := by
  unfold move at h
  split at h
  · exact absurd h not_canReturn_throw
  · next pl hk =>
    split at h
    · exact absurd h not_canReturn_throw
    · obtain ⟨g, -, h⟩ := canReturn_bind_imp' h
      dsimp only at h
      split at h
      · exact absurd h not_canReturn_throw
      · obtain ⟨s, -, h⟩ := canReturn_bind_imp' h
        obtain ⟨old, hold, h⟩ := canReturn_bind_imp' h
        obtain ⟨⟨w, new⟩, hw, h⟩ := canReturn_bind_imp' h
        cases eq_of_canReturn_pure h
        obtain ⟨rfl, -, hnew⟩ := canReturn_place hw
        refine ⟨.relocated (keyAt?_of_canReturn_find hold) rfl (hfits _ _ _ _ _ hnew), ?_⟩
        rw [placements_insertRow_self, hk]
        exact ⟨nofun, nofun, .inr hmoves⟩

theorem result_of_canReturn_apply {mu : Mutation V} (hadmits : a.options.admits mu.key = true)
    (h : CanReturn (v.apply a mu) (v', e)) : Result fits (mu.kind = .move) v mu.key v' e := by
  unfold apply at h
  rw [if_pos hadmits] at h
  cases mu with
  | insert k value hint => exact result_of_canReturn_insert hfits h
  | update k value layout => exact result_of_canReturn_update hfits nofun h
  | delete k => exact result_of_canReturn_delete h
  | move k value source target => exact result_of_canReturn_move hfits rfl h

/-- An accepted mutation makes one of the listed changes, whatever the arrangement answers. -/
theorem editBy_of_canReturn_apply {mu : Mutation V} (h : CanReturn (v.apply a mu) (v', e)) :
    EditBy fits v mu.key v' e := by
  by_cases hadmits : a.options.admits mu.key = true
  · exact (result_of_canReturn_apply hfits hadmits h).edit
  · rw [apply_of_not_admits hadmits] at h
    cases eq_of_canReturn_pure h
    exact .ignored

omit hfits in
theorem edit_of_canReturn_apply {mu : Mutation V} (h : CanReturn (v.apply a mu) (v', e)) :
    Edit v mu.key v' e :=
  editBy_of_canReturn_apply (fun _ _ _ _ _ => Arrangement.le_of_canReturn_insertionIndex) h

omit hfits in
/-- What an accepted mutation of an admitted key reports of its row fits the placements of the key
before and after it. -/
theorem spans_of_canReturn_apply [ReflBEq S] {mu : Mutation V}
    (hadmits : a.options.admits mu.key = true) (h : CanReturn (v.apply a mu) (v', e)) :
    e.Spans v.placements[mu.key]? v'.placements[mu.key]? (mu.kind = .move) :=
  (result_of_canReturn_apply (fun _ _ _ _ _ => Arrangement.le_of_canReturn_insertionIndex)
    hadmits h).spans

end

/-! ## What edits keep -/

namespace Edit

variable {S : Type} {v v' : View S} {k : ItemKey} {e : RowEffect}

theorem not_mem_excluded_readmit : k ∉ (v.readmit k).excluded := by
  intro hk
  exact (ExtTreeSet.mem_erase.mp hk).1 ReflOrd.compare_self

theorem wellFormed (h : Edit v k v' e) (hv : v.WellFormed) : v'.WellFormed := by
  cases h with
  | ignored => exact hv
  | excluded hk => exact hv.exclude hk
  | forgotten => exact hv.readmit
  | entered hk hrow hq =>
    subst hrow
    exact hv.readmit.insertRow hk not_mem_excluded_readmit hq
  | kept => exact hv
  | left hp => exact hv.eraseRow hp
  | hidden hp => exact (hv.eraseRow hp).exclude placements_eraseRow_self
  | relocated hp hrow hq =>
    subst hrow
    refine (hv.eraseRow hp).insertRow placements_eraseRow_self (fun hin => ?_) hq
    obtain ⟨s, hs⟩ := hv.placement_of_keyAt? hp
    rw [hv.excluded_unplaced _ hin] at hs
    cases hs

theorem keyAt?_insertRow {row : Row S} {q : Position} (hq : q.index ≤ (v.rows q.group).length) :
    (v.insertRow row q).keyAt? q = some row.key := by
  rw [keyAt?, keys_insertRow, if_pos rfl, List.getElem?_insertIdx_self, if_pos]
  rw [keys, List.length_map]
  exact hq

theorem exact (h : Edit v k v' e) : e.Exact k v v' := by
  cases h with
  | ignored | excluded | forgotten => trivial
  | entered hk hrow hq => exact hrow ▸ keyAt?_insertRow hq
  | kept hp | left hp | hidden hp => exact hp
  | relocated hp hrow hq => exact ⟨hp, hrow ▸ keyAt?_insertRow hq⟩

/-- The keys of other rows stay in their groups, in their order. -/
theorem filter_keys (h : Edit v k v' e) (hv : v.WellFormed) {P : ItemKey → Bool} (hP : P k = false)
    (g : GroupId) : (v'.keys g).filter P = (v.keys g).filter P := by
  have hinsert : ∀ (w : View S) (row : Row S) (q : Position), row.key = k →
      ((w.insertRow row q).keys g).filter P = (w.keys g).filter P := by
    rintro w row q rfl
    rw [keys_insertRow]
    split
    · next hg => rw [filter_insertIdx_of_neg hP, hg]
    · rfl
  have herase : ∀ p, v.keyAt? p = some k →
      ((v.eraseRow k p).keys g).filter P = (v.keys g).filter P := by
    intro p hp
    rw [hv.keys_eraseRow_eq_filter hp, List.filter_filter]
    refine List.filter_congr fun k' _ => ?_
    by_cases hk : k' = k
    · rw [hk, hP, Bool.false_and]
    · simp [hk]
  cases h with
  | ignored | excluded | forgotten | kept => rfl
  | entered hk hrow hq => exact hinsert (v.readmit k) _ _ hrow
  | left hp | hidden hp => exact herase _ hp
  | relocated hp hrow hq => exact (hinsert _ _ _ hrow).trans (herase _ hp)

/-- An effect that takes no row out and puts none in leaves the keys of all groups as they are. -/
theorem keys_eq_of_not_relocates (h : Edit v k v' e) (he : e.relocates = false) (g : GroupId) :
    v'.keys g = v.keys g := by
  cases h with
  | ignored | excluded | forgotten | kept => rfl
  | entered | left | hidden | relocated => cases he

/-- Other keys stay where they are, or kept out. -/
theorem others (h : Edit v k v' e) {k' : ItemKey} (hk : k' ≠ k) :
    v'.placements[k']? = v.placements[k']? ∧ (k' ∈ v'.excluded ↔ k' ∈ v.excluded) := by
  have hinsert (w : View S) (row : Row S) (q : Position) (hrow : row.key = k) :
      (w.insertRow row q).placements[k']? = w.placements[k']? := by
    rw [placements_insertRow, if_neg (hrow ▸ hk)]
  have herase (p : Position) : (v.eraseRow k p).placements[k']? = v.placements[k']? := by
    rw [placements_eraseRow, if_neg hk]
  have hexclude : k' ∈ (v.exclude k).excluded ↔ k' ∈ v.excluded :=
    mem_set_insert.trans (or_iff_right hk)
  have hreadmit : k' ∈ (v.readmit k).excluded ↔ k' ∈ v.excluded :=
    mem_set_erase.trans (and_iff_right hk)
  cases h with
  | ignored | kept => exact ⟨rfl, .rfl⟩
  | excluded => exact ⟨rfl, hexclude⟩
  | forgotten => exact ⟨rfl, hreadmit⟩
  | entered _ hrow => exact ⟨hinsert (v.readmit k) _ _ hrow, hreadmit⟩
  | @left p => exact ⟨herase p, .rfl⟩
  | @hidden p => exact ⟨herase p, hexclude⟩
  | @relocated p _ _ _ hrow => exact ⟨(hinsert _ _ _ hrow).trans (herase p), .rfl⟩

/-- Groups that are known stay known. -/
theorem known_subset (h : Edit v k v' e) {g : GroupId} (hg : g ∈ v.known) : g ∈ v'.known := by
  cases h with
  | entered | relocated => exact mem_known_insertRow.mpr (.inr hg)
  | ignored | excluded | forgotten | kept | left | hidden => exact hg

end Edit

end View

end GroupedView
