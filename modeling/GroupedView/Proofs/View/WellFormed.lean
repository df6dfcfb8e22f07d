import GroupedView.Proofs.Sequence
import GroupedView.View.Check
import Mathlib.Algebra.GroupWithZero.Nat

/-!
# GroupedView.Proofs.View.WellFormed — the parts of a view agree after every change of a row
-/

open Std

namespace GroupedView.View

variable {S : Type} {v : View S} {row : Row S} {p q : Position} {k k' : ItemKey} {g : GroupId}

/-! ## Reading a changed view -/

theorem keyAt?_eq_some_iff :
    v.keyAt? p = some k ↔ ∃ r, (v.rows p.group)[p.index]? = some r ∧ r.key = k := by
  simp [keyAt?, keys, List.getElem?_map, Option.map_eq_some_iff]

theorem mem_keys_iff : k ∈ v.keys g ↔ ∃ i, v.keyAt? ⟨g, i⟩ = some k := by
  rw [List.mem_iff_getElem?]
  rfl

theorem keys_insertRow :
    (v.insertRow row p).keys g =
      if g = p.group then (v.keys p.group).insertIdx p.index row.key else v.keys g := by
  unfold keys
  rw [rows_insertRow]
  split
  · rw [List.map_insertIdx]
  · rfl

theorem groups_insertRow :
    (v.insertRow row p).groups[g]? =
      if g = p.group then some ((v.rows p.group).insertIdx p.index row) else v.groups[g]? :=
  getElem?_map_insert

theorem groups_eraseRow :
    (v.eraseRow k p).groups[g]? =
      if g = p.group then
        if ((v.rows p.group).eraseIdx p.index).isEmpty then none
        else some ((v.rows p.group).eraseIdx p.index)
      else v.groups[g]? := by
  have he : (v.eraseRow k p).groups =
      if ((v.rows p.group).eraseIdx p.index).isEmpty then v.groups.erase p.group
      else v.groups.insert p.group ((v.rows p.group).eraseIdx p.index) := rfl
  rw [he]
  split
  · exact getElem?_map_erase
  · exact getElem?_map_insert

theorem placements_insertRow_self {s : S} :
    (v.insertRow ⟨k, s⟩ p).placements[k]? = some ⟨p.group, s⟩ := by
  rw [placements_insertRow, if_pos rfl]

theorem placements_eraseRow_self : (v.eraseRow k p).placements[k]? = none := by
  rw [placements_eraseRow, if_pos rfl]

theorem placements_eq_none_of_not_contains (h : ¬ v.contains k = true) :
    v.placements[k]? = none := by
  rw [contains, ExtTreeMap.contains_eq_isSome_getElem?, Option.not_isSome_iff_eq_none] at h
  exact h

theorem mem_known_insertRow : g ∈ (v.insertRow row p).known ↔ g = p.group ∨ g ∈ v.known :=
  mem_set_insert

/-! ## Keeping the parts in agreement -/

namespace WellFormed

theorem empty : (View.empty : View S).WellFormed where
  stored_ne_nil g rows h := by simp [View.empty] at h
  stored_known g h := by simp [View.empty] at h
  placement_of_row g r h := by simp at h
  row_of_placement k pl h := by simp [View.empty] at h
  keys_nodup g := by simp [keys]
  excluded_unplaced k h := by simp [View.empty]

theorem exclude (h : v.WellFormed) (hk : v.placements[k]? = none) : (v.exclude k).WellFormed where
  stored_ne_nil := h.stored_ne_nil
  stored_known := h.stored_known
  placement_of_row := h.placement_of_row
  row_of_placement := h.row_of_placement
  keys_nodup := h.keys_nodup
  excluded_unplaced k' hk' := by
    rcases ExtTreeSet.mem_insert.mp hk' with he | he
    · cases LawfulEqOrd.eq_of_compare he
      exact hk
    · exact h.excluded_unplaced k' he

theorem readmit (h : v.WellFormed) : (v.readmit k).WellFormed where
  stored_ne_nil := h.stored_ne_nil
  stored_known := h.stored_known
  placement_of_row := h.placement_of_row
  row_of_placement := h.row_of_placement
  keys_nodup := h.keys_nodup
  excluded_unplaced k' hk' := h.excluded_unplaced k' (ExtTreeSet.mem_of_mem_erase hk')

theorem not_mem_keys (h : v.WellFormed) (hk : v.placements[k]? = none) : k ∉ v.keys g := by
  intro hmem
  obtain ⟨r, hr, rfl⟩ := List.mem_map.mp hmem
  rw [h.placement_of_row g r hr] at hk
  cases hk

/-- Put in the row of a key that has none and is not kept out. -/
theorem insertRow (h : v.WellFormed) (hnew : v.placements[row.key]? = none)
    (hin : row.key ∉ v.excluded) (hp : p.index ≤ (v.rows p.group).length) :
    (v.insertRow row p).WellFormed where
  stored_ne_nil g rows hg := by
    rw [groups_insertRow] at hg
    split at hg
    · cases hg
      rw [← List.length_pos_iff_ne_nil, List.length_insertIdx_of_le_length hp]
      exact Nat.succ_pos _
    · exact h.stored_ne_nil g rows hg
  stored_known g hg := by
    rw [mem_known_insertRow]
    rw [mem_map_iff, groups_insertRow] at hg
    split at hg
    · next he => exact .inl he
    · exact .inr (h.stored_known g (mem_map_iff.mpr hg))
  placement_of_row g r hr := by
    rw [placements_insertRow]
    rw [rows_insertRow] at hr
    have hold : ∀ g', r ∈ v.rows g' → r.key ≠ row.key := by
      intro g' hr' he
      have hpl := h.placement_of_row g' r hr'
      rw [he, hnew] at hpl
      cases hpl
    split at hr
    · next hg =>
      subst hg
      rcases List.eq_or_mem_of_mem_insertIdx hr with rfl | hr'
      · rw [if_pos rfl]
      · rw [if_neg (hold _ hr')]
        exact h.placement_of_row _ r hr'
    · rw [if_neg (hold g hr)]
      exact h.placement_of_row g r hr
  row_of_placement k' pl hpl := by
    rw [placements_insertRow] at hpl
    rw [rows_insertRow]
    split at hpl
    · next hk =>
      cases hpl
      subst hk
      rw [if_pos rfl, List.mem_insertIdx hp]
      exact .inl rfl
    · have hr := h.row_of_placement k' pl hpl
      split
      · next hg =>
        rw [List.mem_insertIdx hp]
        exact .inr (hg ▸ hr)
      · exact hr
  keys_nodup g := by
    rw [keys_insertRow]
    split
    · have hp' : p.index ≤ (v.keys p.group).length := by
        rw [keys, List.length_map]
        exact hp
      rw [(List.perm_insertIdx _ _ hp').nodup_iff, List.nodup_cons]
      exact ⟨h.not_mem_keys hnew, h.keys_nodup p.group⟩
    · exact h.keys_nodup g
  excluded_unplaced k' hk' := by
    rw [placements_insertRow, if_neg]
    · exact h.excluded_unplaced k' hk'
    · rintro rfl
      exact hin hk'

theorem placement_of_keyAt? (h : v.WellFormed) (hk : v.keyAt? p = some k) :
    ∃ s, v.placements[k]? = some ⟨p.group, s⟩ := by
  obtain ⟨r, hr, rfl⟩ := keyAt?_eq_some_iff.mp hk
  exact ⟨r.sortKey, h.placement_of_row _ r (List.mem_of_getElem? hr)⟩

/-- Taking away the row of a key leaves out that key in every group. -/
theorem rows_eraseRow_eq_filter (h : v.WellFormed) (hk : v.keyAt? p = some k) (g : GroupId) :
    (v.eraseRow k p).rows g = (v.rows g).filter (·.key ≠ k) := by
  rw [rows_eraseRow]
  split
  · next hg =>
    subst hg
    obtain ⟨r, hr, rfl⟩ := keyAt?_eq_some_iff.mp hk
    exact eraseIdx_eq_filter_of_map (h.keys_nodup p.group) hr
  · next hg =>
    obtain ⟨s, hs⟩ := h.placement_of_keyAt? hk
    refine (List.filter_eq_self.mpr fun r hr => ?_).symm
    rw [decide_eq_true_eq]
    rintro rfl
    rw [h.placement_of_row g r hr, Option.some.injEq, Placement.mk.injEq] at hs
    exact hg hs.1

theorem keys_eraseRow_eq_filter (h : v.WellFormed) (hk : v.keyAt? p = some k) (g : GroupId) :
    (v.eraseRow k p).keys g = (v.keys g).filter (· ≠ k) := by
  rw [keys, h.rows_eraseRow_eq_filter hk, keys, List.filter_map]
  rfl

/-- Take away the row of a key. -/
theorem eraseRow (h : v.WellFormed) (hk : v.keyAt? p = some k) : (v.eraseRow k p).WellFormed where
  stored_ne_nil g rows hg := by
    rw [groups_eraseRow] at hg
    split at hg
    · split at hg
      · cases hg
      · next hne =>
        cases hg
        simpa using hne
    · exact h.stored_ne_nil g rows hg
  stored_known g hg := by
    rw [mem_map_iff, groups_eraseRow] at hg
    refine h.stored_known g ?_
    split at hg
    · next he =>
      subst he
      obtain ⟨r, hr, -⟩ := keyAt?_eq_some_iff.mp hk
      have hmem : r ∈ v.groups[p.group]?.getD [] := List.mem_of_getElem? hr
      cases hg' : v.groups[p.group]? with
      | none => rw [hg'] at hmem; cases hmem
      | some rows => exact mem_map_iff.mpr ⟨rows, hg'⟩
    · exact mem_map_iff.mpr hg
  placement_of_row g r hr := by
    rw [h.rows_eraseRow_eq_filter hk, List.mem_filter, decide_eq_true_eq] at hr
    rw [placements_eraseRow, if_neg hr.2]
    exact h.placement_of_row g r hr.1
  row_of_placement k' pl hpl := by
    rw [placements_eraseRow] at hpl
    split at hpl
    · cases hpl
    · next hne =>
      rw [h.rows_eraseRow_eq_filter hk, List.mem_filter, decide_eq_true_eq]
      exact ⟨h.row_of_placement k' pl hpl, hne⟩
  keys_nodup g := by
    rw [h.keys_eraseRow_eq_filter hk]
    exact (h.keys_nodup g).filter _
  excluded_unplaced k' hk' := by
    rw [placements_eraseRow]
    split
    · rfl
    · exact h.excluded_unplaced k' hk'

/-! ## Positions and sizes -/

/-- No key is at two positions. -/
theorem keyAt?_inj (h : v.WellFormed) (hp : v.keyAt? p = some k) (hq : v.keyAt? q = some k) :
    p = q := by
  obtain ⟨s, hs⟩ := h.placement_of_keyAt? hp
  obtain ⟨t, ht⟩ := h.placement_of_keyAt? hq
  rw [hs, Option.some.injEq, Placement.mk.injEq] at ht
  obtain ⟨pg, pi⟩ := p
  obtain ⟨qg, qi⟩ := q
  obtain rfl : pg = qg := ht.1
  have hi : pi < (v.keys pg).length := (List.getElem?_eq_some_iff.mp hp).1
  have he : (v.keys pg)[pi]? = (v.keys pg)[qi]? := hp.trans hq.symm
  rw [List.getElem?_inj hi (h.keys_nodup pg)] at he
  rw [he]

end WellFormed

/-- The position of a key, read off the rows of its group. -/
def locate (v : View S) (k : ItemKey) : Option Position :=
  v.placements[k]?.bind fun pl => ((v.keys pl.group).idxOf? k).map (⟨pl.group, ·⟩)

namespace WellFormed

theorem locate_eq_some_iff (h : v.WellFormed) : v.locate k = some p ↔ v.keyAt? p = some k := by
  constructor
  · intro hl
    obtain ⟨pl, -, hl⟩ := Option.bind_eq_some_iff.mp hl
    obtain ⟨i, hi, rfl⟩ := Option.map_eq_some_iff.mp hl
    exact (idxOf?_eq_some_iff_of_nodup (h.keys_nodup pl.group)).mp hi
  · intro hp
    obtain ⟨s, hs⟩ := h.placement_of_keyAt? hp
    have hi : (v.keys p.group).idxOf? k = some p.index :=
      (idxOf?_eq_some_iff_of_nodup (h.keys_nodup p.group)).mpr hp
    rw [locate, hs, Option.bind_some, hi]
    rfl

theorem exists_keyAt? (h : v.WellFormed) {pl : Placement S} (hk : v.placements[k]? = some pl) :
    ∃ i, v.keyAt? ⟨pl.group, i⟩ = some k :=
  mem_keys_iff.mp (List.mem_map_of_mem (h.row_of_placement k pl hk))

theorem isSome_locate (h : v.WellFormed) : (v.locate k).isSome = v.contains k := by
  rw [contains, ExtTreeMap.contains_eq_isSome_getElem?]
  cases hk : v.placements[k]? with
  | none => rw [locate, hk]; rfl
  | some pl =>
    obtain ⟨i, hi⟩ := h.exists_keyAt? hk
    rw [h.locate_eq_some_iff.mpr hi]
    rfl

theorem locate_eq_none_iff (h : v.WellFormed) : v.locate k = none ↔ v.placements[k]? = none := by
  rw [← Option.not_isSome_iff_eq_none, h.isSome_locate, contains,
    ExtTreeMap.contains_eq_isSome_getElem?, Option.not_isSome_iff_eq_none]

theorem mem_keys_iff_groupOf? (h : v.WellFormed) : k ∈ v.keys g ↔ v.groupOf? k = some g := by
  rw [groupOf?, Option.map_eq_some_iff]
  constructor
  · intro hk
    obtain ⟨r, hr, rfl⟩ := List.mem_map.mp hk
    exact ⟨_, h.placement_of_row g r hr, rfl⟩
  · rintro ⟨pl, hpl, rfl⟩
    exact List.mem_map_of_mem (h.row_of_placement k pl hpl)

theorem length_eq_zero_of_not_mem (hg : g ∉ v.groups) : v.length g = 0 := by
  rw [length, rows, ExtTreeMap.getElem?_eq_none hg]
  rfl

theorem mem_groups_of_mem_keys (hk : k ∈ v.keys g) : g ∈ v.groups := by
  by_contra hg
  have hlen := length_eq_zero_of_not_mem hg
  rw [length, List.length_eq_zero_iff] at hlen
  rw [keys, hlen] at hk
  cases hk

/-- The rows of all groups tell which groups are stored. -/
theorem groups_congr {v' : View S} (h : v.WellFormed) (h' : v'.WellFormed)
    (hrows : ∀ g, v.rows g = v'.rows g) : v.groups = v'.groups := by
  refine ExtTreeMap.ext_getElem? fun g => ?_
  have hg := hrows g
  unfold rows at hg
  cases hstored : v.groups[g]? with
  | none =>
    cases hstored' : v'.groups[g]? with
    | none => rfl
    | some rows =>
      rw [hstored, hstored'] at hg
      exact absurd hg.symm (h'.stored_ne_nil g rows hstored')
  | some rows =>
    cases hstored' : v'.groups[g]? with
    | none =>
      rw [hstored, hstored'] at hg
      exact absurd hg (h.stored_ne_nil g rows hstored)
    | some rows' =>
      rw [hstored, hstored'] at hg
      exact congrArg some hg

/-- The keys of all rows, group after group, are the keys with a placement. -/
theorem perm_keys (h : v.WellFormed) : (v.groupList.flatMap v.keys).Perm v.placements.keys := by
  rw [List.perm_ext_iff_of_nodup _ ExtTreeMap.nodup_keys]
  · intro k
    rw [List.mem_flatMap, ExtTreeMap.mem_keys, ExtTreeMap.mem_iff_isSome_getElem?,
      Option.isSome_iff_exists]
    constructor
    · rintro ⟨g, -, hk⟩
      obtain ⟨r, hr, rfl⟩ := List.mem_map.mp hk
      exact ⟨_, h.placement_of_row g r hr⟩
    · rintro ⟨pl, hpl⟩
      have hk : k ∈ v.keys pl.group := List.mem_map_of_mem (h.row_of_placement k pl hpl)
      exact ⟨pl.group, ExtTreeMap.mem_keys.mpr (mem_groups_of_mem_keys hk), hk⟩
  · rw [List.nodup_flatMap]
    refine ⟨fun g _ => h.keys_nodup g, ExtTreeMap.nodup_keys.imp fun {g g'} hne => ?_⟩
    intro k hk hk'
    rw [h.mem_keys_iff_groupOf?] at hk hk'
    exact hne (Option.some.inj (hk.symm.trans hk'))

/-- The number of keys with a row is the number of rows. -/
theorem size_eq_sum_length (h : v.WellFormed) : v.size = (v.groupList.map v.length).sum := by
  have hlen := h.perm_keys.length_eq
  rw [ExtTreeMap.length_keys, List.length_flatMap] at hlen
  rw [size, ← hlen]
  congr 1
  exact List.map_congr_left fun g _ => by rw [length, keys, List.length_map]

end WellFormed

end GroupedView.View
