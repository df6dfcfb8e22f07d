import GroupedView.Proofs.CanonicalForm

/-!
# GroupedView.Proofs.FewestEdits — no fewer sections come and go

A group shown before and after a batch keeps its section if it belongs to a longest run of groups
that keep their order.  `ChangeList.Fewest` says what that means for the edits of sections between
two layouts, and `changeList_fewest` that the edits of every mapping are of this kind.

* The sections that continue are a longest common sublist of the two layouts
  (`Relayout.longestCommon_continuing`): a common sublist without repetitions is a list of places
  that go up.
* Whatever change list a display follows, its two ends have a common sublist that falls short of
  either end by no more than the sections that went or came (`SectionList.exists_common_of_run`).
-/

open Std

namespace GroupedView

/-! ## Common sublists -/

/-- A longest list that stands in its order in both of two lists. -/
structure LongestCommon {α : Type} (c xs ys : List α) : Prop where
  sublist_left : c.Sublist xs
  sublist_right : c.Sublist ys
  length_le : ∀ d : List α, d.Sublist xs → d.Sublist ys → d.length ≤ c.length

theorem LongestCommon.length_eq {α : Type} {c d xs ys : List α} (hc : LongestCommon c xs ys)
    (hd : LongestCommon d xs ys) : c.length = d.length :=
  Nat.le_antisymm (hd.length_le c hc.sublist_left hc.sublist_right)
    (hc.length_le d hd.sublist_left hd.sublist_right)

/-- Without the element that was put in, a sublist is shorter by one at the most. -/
theorem exists_sublist_of_sublist_insertIdx {α : Type} {c l : List α} {i : Nat} {x : α}
    (hi : i ≤ l.length) (h : c.Sublist (l.insertIdx i x)) :
    ∃ d : List α, d.Sublist l ∧ d.Sublist c ∧ c.length ≤ d.length + 1 := by
  rw [insertIdx_eq_take_append hi] at h
  obtain ⟨a, b, rfl, ha, hb⟩ := List.sublist_append_iff.mp h
  have hl : l.take i ++ l.drop i = l := List.take_append_drop i l
  rcases List.sublist_cons_iff.mp hb with hdrop | ⟨b, rfl, hdrop⟩
  · exact ⟨a ++ b, hl ▸ ha.append hdrop, List.Sublist.refl _, Nat.le_succ _⟩
  · have hsub : (a ++ b).Sublist (a ++ x :: b) := (List.sublist_cons_self x b).append_left a
    refine ⟨a ++ b, hl ▸ ha.append hdrop, hsub, ?_⟩
    rw [List.length_append, List.length_append, List.length_cons]
    omega

section Places

variable {α : Type} [DecidableEq α] {l : List α}

theorem idxOf_eq_of_getElem? (hl : l.Nodup) {i : Nat} {x : α} (hx : l[i]? = some x) :
    l.idxOf x = i := by
  obtain ⟨hi, rfl⟩ := List.getElem?_eq_some_iff.mp hx
  exact hl.idxOf_getElem i hi

/-- In a list without repetitions the places go up. -/
theorem pairwise_idxOf (hl : l.Nodup) : l.Pairwise fun x y => l.idxOf x < l.idxOf y := by
  refine List.pairwise_iff_getElem.mpr fun i j hi hj hij => ?_
  rwa [hl.idxOf_getElem i hi, hl.idxOf_getElem j hj]

end Places

namespace Relayout

variable {r : Relayout} {c : List GroupId}

/-- No common sublist of the groups shown on both sides is longer than what continues. -/
theorem length_le_length_continuing (hbefore : r.before.Nodup) (hb : c.Sublist r.before)
    (ha : c.Sublist r.after) : c.length ≤ r.continuing.length := by
  -- the places before of the groups of `c`, as if `c` were shown after
  have hgroups : (Relayout.mk r.before c).shared.map Prod.fst = c := by
    rw [map_fst_shared]
    exact List.filter_eq_self.mpr fun g hg => decide_eq_true (hb.mem hg)
  have hup : (Relayout.mk r.before c).shared.Pairwise fun x y => x.2 < y.2 := by
    have hplaces : ((Relayout.mk r.before c).shared.map Prod.fst).Pairwise
        fun g g' => r.before.idxOf g < r.before.idxOf g' := by
      rw [hgroups]
      exact (pairwise_idxOf hbefore).sublist hb
    have hplace : ∀ x ∈ (Relayout.mk r.before c).shared, r.before.idxOf x.1 = x.2 := fun x hx =>
      idxOf_eq_of_getElem? hbefore (getElem?_before_of_mem_shared (r := ⟨r.before, c⟩) hx)
    refine (List.pairwise_map.mp hplaces).imp_of_mem fun {x y} hx hy hxy => ?_
    rwa [hplace x hx, hplace y hy] at hxy
  have hsub : (Relayout.mk r.before c).shared.Sublist r.shared := ha.filterMap _
  have hlength := length_le_length_marked (hsub.map Prod.snd) (List.pairwise_map.mpr hup)
  rw [continuing_eq_marked, List.length_map, ← hgroups, List.length_map]
  rwa [List.length_map] at hlength

theorem longestCommon_continuing (hbefore : r.before.Nodup) :
    LongestCommon r.continuing r.before r.after where
  sublist_left := continuing_sublist_before
  sublist_right := continuing_sublist_after
  length_le _ hb ha := length_le_length_continuing hbefore hb ha

end Relayout

/-! ## Following any change list -/

namespace SectionList

variable {goal l l' : SectionList}

/-- How a step edits the list of sections. -/
def Step.sectionEdit? : Step → Option SectionEdit
  | takeSection _ => some .delete
  | putSection _ => some .insert
  | refuse _ | expect .. | takeRow .. | putRow .. | expectGroup .. => none

theorem map_group_modifyKeys (l : SectionList) (i : Nat) (f : List ItemKey → List ItemKey) :
    (l.modifyKeys i f).map Section.group = l.map Section.group := by
  refine List.ext_getElem? fun j => ?_
  rw [modifyKeys, List.getElem?_map, List.getElem?_map, List.getElem?_modify]
  cases l[j]? with
  | none => rfl
  | some s =>
    by_cases hij : i = j
    · simp [hij]
    · simp [hij]

/-- A step leaves the groups as they are, or takes one away, or puts one in. -/
theorem map_group_of_perform {x : Step} (h : x.perform goal l = .ok l') :
    match x.sectionEdit? with
    | none => l'.map Section.group = l.map Section.group
    | some .delete => ∃ i < l.length, l' = l.eraseIdx i
    | some .insert => ∃ i ≤ l.length, ∃ s, l' = l.insertIdx i s := by
  cases x with
  | refuse cause => cases h
  | expect p k =>
    simp only [Step.perform] at h
    cases hk : l.expectKey p k with
    | error e => rw [hk] at h; cases h
    | ok u => rw [hk] at h; cases h; rfl
  | takeRow p k =>
    simp only [Step.perform] at h
    cases hk : l.expectKey p k with
    | error e => rw [hk] at h; cases h
    | ok u => rw [hk] at h; cases h; exact map_group_modifyKeys _ _ _
  | takeSection i =>
    simp only [Step.perform] at h
    split at h
    · next hi => cases h; exact ⟨i, hi, rfl⟩
    · cases h
  | putSection i =>
    simp only [Step.perform] at h
    split at h
    · next s _ =>
      split at h
      · next hi => cases h; exact ⟨i, hi, s, rfl⟩
      · cases h
    · cases h
  | putRow p k =>
    simp only [Step.perform] at h
    split at h
    · split at h
      · cases h; exact map_group_modifyKeys _ _ _
      · cases h
    · cases h
  | expectGroup i g =>
    simp only [Step.perform] at h
    split at h
    · split at h
      · cases h; rfl
      · cases h
    · cases h; rfl

/-- The groups at both ends have a common sublist that falls short of the first end by no more than
the sections that went, and of the second one by no more than those that came. -/
theorem exists_common_of_run {steps : List Step} (h : run goal steps l = .ok l') :
    ∃ c : List GroupId, c.Sublist (l.map Section.group) ∧ c.Sublist (l'.map Section.group) ∧
      l.length ≤ c.length + steps.countP (·.sectionEdit? = some .delete) ∧
      l'.length ≤ c.length + steps.countP (·.sectionEdit? = some .insert) := by
  induction steps generalizing l with
  | nil =>
    cases h
    exact ⟨l'.map Section.group, .refl _, .refl _, by simp, by simp⟩
  | cons x steps ih =>
    rw [run] at h
    cases hx : x.perform goal l with
    | error cause => rw [hx] at h; cases h
    | ok w =>
      rw [hx] at h
      obtain ⟨c, hw, hl', hdelete, hinsert⟩ := ih h
      have hgroups := map_group_of_perform hx
      rw [List.countP_cons, List.countP_cons]
      cases he : x.sectionEdit? with
      | none =>
        rw [he] at hgroups
        have hlength : w.length = l.length := by
          simpa using congrArg List.length hgroups
        exact ⟨c, hgroups ▸ hw, hl', by simp; omega, by simp; omega⟩
      | some e =>
        rw [he] at hgroups
        cases e with
        | delete =>
          obtain ⟨i, hi, rfl⟩ := hgroups
          have hsub := (List.eraseIdx_sublist l i).map Section.group
          have hlength := List.length_eraseIdx_of_lt hi
          exact ⟨c, hw.trans hsub, hl', by simp; omega, by simp; omega⟩
        | insert =>
          obtain ⟨i, hi, s, rfl⟩ := hgroups
          rw [List.map_insertIdx] at hw
          obtain ⟨d, hd, hdc, hshort⟩ := exists_sublist_of_sublist_insertIdx (by simpa using hi) hw
          have hlength : (l.insertIdx i s).length = l.length + 1 :=
            List.length_insertIdx_of_le_length hi s
          exact ⟨d, hd, hdc.trans hl', by simp; omega, by simp; omega⟩

/-- The plan of a change list takes as many sections, and puts in as many, as the list says. -/
theorem countP_plan (e : SectionEdit) (changes : List Change) (goal : SectionList) :
    (plan changes goal).countP (·.sectionEdit? = some e) =
      (changes.filterMap (sectionIndex? e)).length := by
  have hguard : ∀ (is : List Nat) (p : IndexPath),
      (guardReloaded is p).countP (·.sectionEdit? = some e) = 0 := by
    intro is p
    unfold guardReloaded
    split <;> rfl
  simp only [plan, List.countP_append, List.countP_map, List.countP_flatMap, Function.comp_def,
    hguard]
  cases e with
  | delete => simp [Step.sectionEdit?]
  | insert => simp [Step.sectionEdit?]

end SectionList

/-! ## The edits of sections -/

/-- Sections of these groups without rows. -/
def SectionList.bare (groups : List GroupId) : SectionList := groups.map (⟨·, []⟩)

namespace ChangeList

variable (l : ChangeList)

/-- The groups of the sections that do not go. -/
def kept (before : List GroupId) : List GroupId :=
  before.filter fun g => .delete ∉ l.sectionEdits g

/-- The edits of sections between two layouts are as few as can be. -/
structure Fewest (before after : List GroupId) : Prop where
  longestCommon_kept : LongestCommon (l.kept before) before after
  /-- A section goes for each group that a longest common sublist leaves out before, and comes for
  each one that it leaves out after. -/
  count_eq : ∀ c, LongestCommon c before after → (l.kept before).length = c.length ∧
    l.countSections .delete = before.length - c.length ∧
    l.countSections .insert = after.length - c.length
  /-- The edits of sections alone lead from one layout to the other. -/
  leads : (SectionList.bare before).apply ⟨l.changes.filter Change.isSection⟩
    (SectionList.bare after) = .ok (SectionList.bare after)
  /-- Any change list that leads from one layout to the other edits no fewer sections. -/
  count_le : ∀ (l' : ChangeList) (s goal t : SectionList), s.map Section.group = before →
    t.map Section.group = after → s.apply l' goal = .ok t →
    l.countSections .delete ≤ l'.countSections .delete ∧
      l.countSections .insert ≤ l'.countSections .insert
  unchanged : before = after → ∀ x ∈ l.changes, x.isSection = false

theorem length_sectionIndices (e : SectionEdit) :
    (l.sectionIndices e).length = l.countSections e := by
  rw [sectionIndices, List.length_filterMap_eq_countP, countSections]
  refine List.countP_congr fun x _ => ?_
  cases x with
  | ofSection e' i g => by_cases he : e' = e <;> simp [SectionList.sectionIndex?, he]
  | ofRow e' k p q => simp [SectionList.sectionIndex?]

variable {l}

/-- Two layouts that a change list leads between have a common sublist that leaves out no more
groups than sections went and came. -/
theorem exists_common_of_apply {s goal t : SectionList} (h : s.apply l goal = .ok t) :
    ∃ c : List GroupId, c.Sublist (s.map Section.group) ∧ c.Sublist (t.map Section.group) ∧
      s.length ≤ c.length + l.countSections .delete ∧
      t.length ≤ c.length + l.countSections .insert := by
  obtain ⟨c, hs, ht, hdelete, hinsert⟩ := SectionList.exists_common_of_run h
  rw [SectionList.countP_plan] at hdelete hinsert
  rw [← l.length_sectionIndices, ← l.length_sectionIndices]
  exact ⟨c, hs, ht, hdelete, hinsert⟩

end ChangeList

namespace Relayout

variable {r : Relayout} {rows : List NetChange}

theorem kept_edits (hbefore : r.before.Nodup) (hafter : r.after.Nodup) :
    (ChangeList.mk (r.edits rows)).kept r.before = r.continuing := by
  refine Eq.trans (List.filter_congr fun g hg => ?_) (filter_before hbefore)
  rw [sectionEdits_edits hbefore hafter]
  by_cases hcontinue : g ∈ r.continuing
  · simp [hcontinue]
  · simp [hg, hcontinue]

theorem length_replaced {shown : List GroupId}
    (h : shown.filter (· ∈ r.continuing) = r.continuing) :
    (r.replaced shown).length = shown.length - r.continuing.length := by
  have hfst := congrArg List.length (r.map_fst_replaced shown)
  have hsplit := List.length_eq_length_filter_add (l := shown) (· ∈ r.continuing)
  rw [List.length_map] at hfst
  rw [h] at hsplit
  simp only [decide_not] at hfst
  omega

theorem countSections_edits (hbefore : r.before.Nodup) (hafter : r.after.Nodup) (e : SectionEdit) :
    (ChangeList.mk (r.edits rows)).countSections e =
      (r.shownFor e).length - r.continuing.length := by
  rw [← ChangeList.length_sectionIndices, ChangeList.sectionIndices]
  cases e with
  | delete =>
    rw [filterMap_deleted, List.length_reverse, List.length_map]
    exact length_replaced (filter_before hbefore)
  | insert =>
    rw [filterMap_inserted, List.length_map]
    exact length_replaced (filter_after hafter)

theorem filter_isSection_rowEdits (e : RowEdit) (le : IndexPath → IndexPath → Bool) :
    (r.rowEdits rows e le).filter Change.isSection = [] := by
  refine List.filter_eq_nil_iff.mpr fun x hx => ?_
  obtain ⟨k, p, q, rfl⟩ := exists_of_mem_rowEdits hx
  exact Bool.false_ne_true

theorem rowEdits_nil (e : RowEdit) (le : IndexPath → IndexPath → Bool) :
    r.rowEdits [] e le = [] := by
  simp [rowEdits]

/-- The edits of sections are those of a batch without net changes. -/
theorem filter_isSection_edits : (r.edits rows).filter Change.isSection = r.edits [] := by
  have hdeletes : r.sectionDeletes.filter Change.isSection = r.sectionDeletes := by
    refine List.filter_eq_self.mpr fun x hx => ?_
    obtain ⟨_, -, rfl⟩ := List.mem_map.mp hx
    rfl
  have hinserts : r.sectionInserts.filter Change.isSection = r.sectionInserts := by
    refine List.filter_eq_self.mpr fun x hx => ?_
    obtain ⟨_, -, rfl⟩ := List.mem_map.mp hx
    rfl
  simp only [edits, List.filter_append, filter_isSection_rowEdits, rowEdits_nil, hdeletes, hinserts]

/-- A view without rows on either side of a batch without net changes. -/
theorem side_empty {shown : List GroupId} (hshown : shown.Nodup)
    (hfilter : shown.filter (· ∈ r.continuing) = r.continuing)
    (place? : NetChange → Option Position) :
    Side r {} shown (.empty : View Unit) place? where
  shown_nodup := hshown
  filter_shown := hfilter
  wellFormed := .empty
  keys_nodup := .nil
  place_at _ hc := nomatch hc

theorem apply_edits_bare (hbefore : r.before.Nodup) (hafter : r.after.Nodup) :
    (SectionList.bare r.before).apply ⟨r.edits []⟩ (SectionList.bare r.after) =
      .ok (SectionList.bare r.after) := by
  have hbare : ∀ shown, (.empty : View Unit).sections shown = SectionList.bare shown := by
    intro shown
    simp [View.sections, SectionList.bare, View.keys]
  have happly := apply_edits (side_empty hbefore (filter_before hbefore) NetChange.source?)
    (side_empty hafter (filter_after hafter) NetChange.target?) rfl
  rwa [hbare, hbare] at happly

/-- The edits between two layouts are as few as can be. -/
theorem fewest_edits (hbefore : r.before.Nodup) (hafter : r.after.Nodup) :
    (ChangeList.mk (r.edits rows)).Fewest r.before r.after where
  longestCommon_kept := by
    rw [kept_edits hbefore hafter]
    exact longestCommon_continuing hbefore
  count_eq c hc := by
    rw [kept_edits hbefore hafter, countSections_edits hbefore hafter,
      countSections_edits hbefore hafter, (longestCommon_continuing hbefore).length_eq hc]
    exact ⟨rfl, rfl, rfl⟩
  leads := by
    rw [filter_isSection_edits]
    exact apply_edits_bare hbefore hafter
  count_le l' s goal t hs ht h := by
    obtain ⟨c, hb, ha, hdelete, hinsert⟩ := ChangeList.exists_common_of_apply h
    have hbefore_length : s.length = r.before.length := by rw [← hs, List.length_map]
    have hafter_length : t.length = r.after.length := by rw [← ht, List.length_map]
    have hcommon := length_le_length_continuing hbefore (hs ▸ hb) (ht ▸ ha)
    rw [countSections_edits hbefore hafter, countSections_edits hbefore hafter, shownFor, shownFor]
    omega
  unchanged heq x hx := by
    have hall : r.before.length ≤ r.continuing.length :=
      length_le_length_continuing hbefore (.refl _) (heq ▸ .refl _)
    cases x with
    | ofRow e k p q => rfl
    | ofSection e i g =>
      have hcount : (ChangeList.mk (r.edits rows)).countSections e =
        (r.shownFor e).length - r.continuing.length := countSections_edits hbefore hafter e
      have hpos : 0 < (ChangeList.mk (r.edits rows)).countSections e :=
        List.countP_pos_iff.mpr ⟨_, hx, decide_eq_true rfl⟩
      have hlength : (r.shownFor e).length = r.before.length := by
        cases e with
        | delete => rfl
        | insert => rw [shownFor, heq]
      omega

end Relayout

/-- **No fewer sections come and go.**  Let the edits of any net changes be shown from one mapping
to another, and let `c` be a longest common sublist of the groups shown before and after.  As many
sections go as there are groups before that are not in `c`, as many come as there are groups after
that are not in `c`, the groups whose section does not go are such a longest common sublist, and no
other edits that lead from the groups before to those after take or bring fewer sections. -/
theorem changeList_fewest {n : NetChanges} {policy : MappingPolicy}
    {old new : Mapping} {l : ChangeList} (h : n.changeList policy old new = .ok l) :
    l.Fewest (old.visible n.lengthBefore) (new.visible n.lengthAfter) := by
  rw [NetChanges.eq_of_changeList_eq_ok h]
  exact Relayout.fewest_edits (r := n.relayout old new) (old.visible_nodup _) (new.visible_nodup _)

/-- A batch that empties a group, fills another one, and moves a row between two that stay. -/
def turnedChanges : NetChanges where
  rows := [.move ⟨"c", "x"⟩ ⟨⟨"c"⟩, 1⟩ ⟨⟨"a"⟩, 0⟩]
  lengths := .ofList ([(⟨"a"⟩, ⟨1, 2⟩), (⟨"b"⟩, ⟨1, 1⟩), (⟨"c"⟩, ⟨2, 1⟩), (⟨"d"⟩, ⟨1, 0⟩),
    (⟨"e"⟩, ⟨0, 3⟩)] : List (GroupId × Lengths))

/-- The edits of this batch, with a group put in front. -/
def turnedEdits : ChangeList :=
  (turnedChanges.changeList .strict (.ofGroups [⟨"a"⟩, ⟨"b"⟩, ⟨"c"⟩, ⟨"d"⟩])
    (.ofGroups [⟨"c"⟩, ⟨"a"⟩, ⟨"b"⟩, ⟨"d"⟩, ⟨"e"⟩])).toOption.getD {}

/-- Of four groups two keep their sections; the group that was put in front has it replaced. -/
theorem turnedEdits_fewest :
    turnedChanges.changeList .strict (.ofGroups [⟨"a"⟩, ⟨"b"⟩, ⟨"c"⟩, ⟨"d"⟩])
      (.ofGroups [⟨"c"⟩, ⟨"a"⟩, ⟨"b"⟩, ⟨"d"⟩, ⟨"e"⟩]) = .ok turnedEdits ∧
    turnedEdits.Fewest [⟨"a"⟩, ⟨"b"⟩, ⟨"c"⟩, ⟨"d"⟩] [⟨"c"⟩, ⟨"a"⟩, ⟨"b"⟩, ⟨"e"⟩] ∧
    turnedEdits.kept [⟨"a"⟩, ⟨"b"⟩, ⟨"c"⟩, ⟨"d"⟩] = [⟨"a"⟩, ⟨"b"⟩] ∧
    turnedEdits.countSections .delete = 2 ∧ turnedEdits.countSections .insert = 2 := by
  have hedits : turnedChanges.changeList .strict (.ofGroups [⟨"a"⟩, ⟨"b"⟩, ⟨"c"⟩, ⟨"d"⟩])
      (.ofGroups [⟨"c"⟩, ⟨"a"⟩, ⟨"b"⟩, ⟨"d"⟩, ⟨"e"⟩]) = .ok turnedEdits :=
    eq_ok_getD_of_isOk (by decide +kernel) _
  have hbefore : (Mapping.ofGroups [⟨"a"⟩, ⟨"b"⟩, ⟨"c"⟩, ⟨"d"⟩]).visible
    turnedChanges.lengthBefore = [⟨"a"⟩, ⟨"b"⟩, ⟨"c"⟩, ⟨"d"⟩] := by decide +kernel
  have hafter : (Mapping.ofGroups [⟨"c"⟩, ⟨"a"⟩, ⟨"b"⟩, ⟨"d"⟩, ⟨"e"⟩]).visible
    turnedChanges.lengthAfter = [⟨"c"⟩, ⟨"a"⟩, ⟨"b"⟩, ⟨"e"⟩] := by decide +kernel
  have hfewest := changeList_fewest hedits
  rw [hbefore, hafter] at hfewest
  have hkept : turnedEdits.kept [⟨"a"⟩, ⟨"b"⟩, ⟨"c"⟩, ⟨"d"⟩] = [⟨"a"⟩, ⟨"b"⟩] := by decide +kernel
  obtain ⟨-, hdelete, hinsert⟩ := hfewest.count_eq _ hfewest.longestCommon_kept
  rw [hkept] at hdelete hinsert
  exact ⟨hedits, hfewest, hkept, hdelete, hinsert⟩

end GroupedView
