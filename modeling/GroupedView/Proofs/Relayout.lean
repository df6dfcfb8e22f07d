import GroupedView.Proofs.Increasing
import GroupedView.Proofs.Sequence
import GroupedView.Relayout
import GroupedView.SectionList

/-!
# GroupedView.Proofs.Relayout — the edits between two layouts of sections

* The sections that continue stand in the same order on both sides (`Relayout.filter_before`,
  `Relayout.filter_after`).
* The edits of rows are, up to their order, the entries of the net changes (`Relayout.perm_edits`);
  `Relayout.change_of_entry` and `Relayout.marks_of_entry` say what an entry names on each side.
-/

namespace GroupedView.Relayout

variable {r : Relayout} {c : NetChange} {rows : List NetChange}

/-! ## Sections that continue -/

theorem continuing_eq_marked : r.continuing = (marked r.shared).map Prod.fst := by
  have hmarked : (marked r.shared).map Prod.fst =
      (r.shared.zipIdx.filter fun x =>
        (longestChain (r.shared.map Prod.snd)).contains x.2).filterMap (some ∘ fun x => x.1.1) := by
    rw [List.filterMap_eq_map, marked, List.map_map]
    rfl
  rw [continuing, zip_longestIncreasing, hmarked, List.filterMap_map, List.filterMap_filter]
  rfl

theorem map_fst_shared : r.shared.map Prod.fst = r.after.filter (· ∈ r.before) := by
  rw [shared, List.map_filterMap, ← List.filterMap_eq_filter]
  refine List.filterMap_congr fun g _ => ?_
  cases hg : r.before.idxOf? g with
  | none => simp [Option.guard, List.idxOf?_eq_none_iff.mp hg]
  | some i => simp [List.isSome_idxOf?.mp (hg ▸ rfl : (r.before.idxOf? g).isSome)]

theorem getElem?_before_of_mem_shared {x : GroupId × Nat} (hx : x ∈ r.shared) :
    r.before[x.2]? = some x.1 := by
  obtain ⟨g, -, hg⟩ := List.mem_filterMap.mp hx
  obtain ⟨i, hi, rfl⟩ := Option.map_eq_some_iff.mp hg
  obtain ⟨hlt, hi, -⟩ := List.idxOf?_eq_some_iff.mp hi
  exact List.getElem?_eq_some_iff.mpr ⟨hlt, hi⟩

theorem continuing_sublist_after : r.continuing.Sublist r.after := by
  rw [continuing_eq_marked]
  refine ((marked_sublist r.shared).map Prod.fst).trans ?_
  rw [map_fst_shared]
  exact List.filter_sublist

theorem continuing_sublist_before : r.continuing.Sublist r.before := by
  rw [continuing_eq_marked, ← List.drop_zero (l := r.before)]
  exact map_fst_sublist_drop (pairwise_marked r.shared)
    (fun x hx => getElem?_before_of_mem_shared ((marked_sublist r.shared).mem hx))
    (fun x _ => Nat.zero_le x.2)

/-- The sections that continue, in their order before. -/
theorem filter_before (h : r.before.Nodup) : r.before.filter (· ∈ r.continuing) = r.continuing :=
  filter_mem_of_sublist continuing_sublist_before h

/-- The sections that continue, in their order after. -/
theorem filter_after (h : r.after.Nodup) : r.after.filter (· ∈ r.continuing) = r.continuing :=
  filter_mem_of_sublist continuing_sublist_after h

/-! ## Entries -/

/-- The row that a change takes from its place or brings to its place, with the path of the place
if its section stays. -/
def mark? (r : Relayout) (shown : List GroupId) (place? : NetChange → Option Position)
    (c : NetChange) : Option (IndexPath × ItemKey) :=
  if c.isUpdate then none else ((place? c).bind (r.path? shown)).map (·, c.key)

/-- What an entry takes away before, and what it puts in after. -/
theorem marks_of_entry (r : Relayout) (c : NetChange) :
    (r.entry? c).bind (fun e => SectionList.removal? e.change) =
        r.mark? r.before NetChange.source? c ∧
      (r.entry? c).bind (fun e => SectionList.insertion? e.change) =
        r.mark? r.after NetChange.target? c := by
  unfold entry? mark?
  cases c.source?.bind (r.path? r.before) <;> cases c.target?.bind (r.path? r.after) <;>
    cases c.isUpdate <;> exact ⟨rfl, rfl⟩

/-- An entry names its row by the paths of its places on both sides. -/
theorem change_of_entry {e : RowEntry} (h : r.entry? c = some e) :
    e.change = .ofRow e.edit c.key (c.source?.bind (r.path? r.before))
      (c.target?.bind (r.path? r.after)) := by
  unfold entry? at h
  split at h
  case h_5 => cases h
  all_goals
    next hp hq _ =>
      cases h
      rw [hp, hq]
      rfl

theorem wellFormed_of_entry {e : RowEntry} (h : r.entry? c = some e) :
    SectionList.wellFormed e.change = true := by
  unfold entry? at h
  split at h <;> cases h <;> rfl

/-- A row with a new value is named by its places on both sides. -/
theorem refresh?_of_entry {e : RowEntry} {p q : IndexPath} {k : ItemKey} (h : r.entry? c = some e)
    (he : SectionList.refresh? e.change = some (p, q, k)) :
    c.key = k ∧ c.source?.bind (r.path? r.before) = some p ∧
      c.target?.bind (r.path? r.after) = some q := by
  rw [change_of_entry h] at he
  unfold SectionList.refresh? at he
  split at he
  · next hchange =>
    cases he
    obtain ⟨-, hk, hp, hq⟩ := Change.ofRow.inj hchange
    exact ⟨hk, hp, hq⟩
  · cases he

/-! ## Edits -/

theorem perm_byEdit (l : List RowEntry) :
    (l.filter (·.edit = .delete) ++ l.filter (·.edit = .insert) ++ l.filter (·.edit = .move)
      ++ l.filter (·.edit = .update)).Perm l := by
  refine List.perm_iff_count.mpr fun x => ?_
  have hcount : ∀ e, (l.filter (·.edit = e)).count x = if x.edit = e then l.count x else 0 := by
    intro e
    split
    · next he => exact List.count_filter (decide_eq_true he)
    · next he =>
      exact List.count_eq_zero.mpr fun hx => he (by simpa using (List.mem_filter.mp hx).2)
  simp only [List.count_append, hcount]
  cases x.edit <;> simp

theorem perm_rowEdits (e : RowEdit) (le : IndexPath → IndexPath → Bool) :
    (r.rowEdits rows e le).Perm
      (((rows.filterMap r.entry?).filter (·.edit = e)).map RowEntry.change) :=
  (List.mergeSort_perm _ _).map _

/-- The edits are those of sections and those that the entries of the net changes say. -/
theorem perm_edits : (r.edits rows).Perm
    (r.sectionDeletes ++ r.sectionInserts ++ (rows.filterMap r.entry?).map RowEntry.change) := by
  refine List.perm_iff_count.mpr fun x => ?_
  have hrows := ((perm_byEdit (rows.filterMap r.entry?)).map RowEntry.change).count_eq x
  simp only [List.map_append, List.count_append] at hrows
  simp only [edits, List.count_append, (perm_rowEdits _ _).count_eq]
  omega

/-- What the edits of rows say is what the entries say. -/
theorem perm_filterMap_edits {β : Type} {f : Change → Option β}
    (hf : ∀ e i g, f (.ofSection e i g) = none) :
    ((r.edits rows).filterMap f).Perm
      (rows.filterMap fun c => (r.entry? c).bind fun e => f e.change) := by
  have hsections : (r.sectionDeletes ++ r.sectionInserts).filterMap f = [] := by
    rw [List.filterMap_eq_nil_iff]
    intro x hx
    rcases List.mem_append.mp hx with hx | hx
    · obtain ⟨_, -, rfl⟩ := List.mem_map.mp hx
      exact hf _ _ _
    · obtain ⟨_, -, rfl⟩ := List.mem_map.mp hx
      exact hf _ _ _
  refine (perm_edits.filterMap f).trans ?_
  rw [List.filterMap_append, hsections, List.nil_append, List.filterMap_map,
    List.filterMap_filterMap]
  rfl

/-- What the edits take away or put in on one side is what the net changes mark there. -/
theorem perm_marks {shown : List GroupId} {place? : NetChange → Option Position}
    {read : Change → Option (IndexPath × ItemKey)}
    (hsection : ∀ e i g, read (.ofSection e i g) = none)
    (hentry : ∀ c, (r.entry? c).bind (fun e => read e.change) = r.mark? shown place? c) :
    ((r.edits rows).filterMap read).Perm (rows.filterMap (r.mark? shown place?)) := by
  refine (perm_filterMap_edits hsection).trans ?_
  simp only [hentry]
  exact .refl _

theorem perm_removals (r : Relayout) (rows : List NetChange) :
    ((r.edits rows).filterMap SectionList.removal?).Perm
      (rows.filterMap (r.mark? r.before NetChange.source?)) :=
  perm_marks (fun _ _ _ => rfl) fun c => (r.marks_of_entry c).1

theorem perm_insertions (r : Relayout) (rows : List NetChange) :
    ((r.edits rows).filterMap SectionList.insertion?).Perm
      (rows.filterMap (r.mark? r.after NetChange.target?)) :=
  perm_marks (fun _ _ _ => rfl) fun c => (r.marks_of_entry c).2

theorem exists_of_mem_rowEdits {e : RowEdit} {le : IndexPath → IndexPath → Bool} {x : Change}
    (hx : x ∈ r.rowEdits rows e le) : ∃ k p q, x = .ofRow e k p q := by
  rw [(perm_rowEdits e le).mem_iff] at hx
  obtain ⟨y, hy, rfl⟩ := List.mem_map.mp hx
  obtain ⟨hy, he⟩ := List.mem_filter.mp hy
  obtain ⟨c, -, hc⟩ := List.mem_filterMap.mp hy
  rw [change_of_entry hc, of_decide_eq_true he]
  exact ⟨_, _, _, rfl⟩

theorem filterMap_rowEdits_eq_nil {β : Type} {f : Change → Option β}
    (hf : ∀ e k p q, f (.ofRow e k p q) = none) (e : RowEdit) (le : IndexPath → IndexPath → Bool) :
    (r.rowEdits rows e le).filterMap f = [] := by
  refine List.filterMap_eq_nil_iff.mpr fun x hx => ?_
  obtain ⟨k, p, q, rfl⟩ := exists_of_mem_rowEdits hx
  exact hf _ _ _ _

/-- What the edits say of sections is what the edits of sections say. -/
theorem filterMap_edits_of_sections {β : Type} {f : Change → Option β}
    (hf : ∀ e k p q, f (.ofRow e k p q) = none) :
    (r.edits rows).filterMap f =
      r.sectionDeletes.filterMap f ++ r.sectionInserts.filterMap f := by
  simp only [edits, List.filterMap_append, filterMap_rowEdits_eq_nil hf, List.nil_append,
    List.append_nil]

/-- The sections that go, the last one first. -/
theorem filterMap_deleted (r : Relayout) (rows : List NetChange) :
    (r.edits rows).filterMap (SectionList.sectionIndex? .delete) =
      ((r.replaced r.before).map Prod.snd).reverse := by
  have hdelete : r.sectionDeletes.filterMap (SectionList.sectionIndex? .delete) =
      ((r.replaced r.before).map Prod.snd).reverse := by
    rw [sectionDeletes, List.filterMap_map, ← List.map_reverse, ← List.filterMap_eq_map]
    rfl
  have hinsert : r.sectionInserts.filterMap (SectionList.sectionIndex? .delete) = [] := by
    rw [sectionInserts, List.filterMap_map, List.filterMap_eq_nil_iff]
    intro x _
    rfl
  rw [filterMap_edits_of_sections fun _ _ _ _ => rfl, hdelete, hinsert, List.append_nil]

/-- The sections that come, the first one first. -/
theorem filterMap_inserted (r : Relayout) (rows : List NetChange) :
    (r.edits rows).filterMap (SectionList.sectionIndex? .insert) =
      (r.replaced r.after).map Prod.snd := by
  have hdelete : r.sectionDeletes.filterMap (SectionList.sectionIndex? .insert) = [] := by
    rw [sectionDeletes, List.filterMap_map, List.filterMap_eq_nil_iff]
    intro x _
    rfl
  have hinsert : r.sectionInserts.filterMap (SectionList.sectionIndex? .insert) =
      (r.replaced r.after).map Prod.snd := by
    rw [sectionInserts, List.filterMap_map, ← List.filterMap_eq_map]
    rfl
  rw [filterMap_edits_of_sections fun _ _ _ _ => rfl, hdelete, hinsert, List.nil_append]

theorem perm_deleted (r : Relayout) (rows : List NetChange) :
    ((r.edits rows).filterMap (SectionList.sectionIndex? .delete)).Perm
      ((r.replaced r.before).map Prod.snd) := by
  rw [filterMap_deleted]
  exact List.reverse_perm _

theorem mem_replaced {shown : List GroupId} {g : GroupId} {i : Nat} :
    (g, i) ∈ r.replaced shown ↔ shown[i]? = some g ∧ g ∉ r.continuing := by
  rw [replaced, List.mem_filter, List.mem_zipIdx_iff_getElem?]
  simp

theorem mem_map_snd_replaced {shown : List GroupId} {i : Nat} :
    i ∈ (r.replaced shown).map Prod.snd ↔ ∃ g, shown[i]? = some g ∧ g ∉ r.continuing := by
  simp only [List.mem_map, Prod.exists, mem_replaced]
  constructor
  · rintro ⟨g, i, h, rfl⟩
    exact ⟨g, h⟩
  · rintro ⟨g, h⟩
    exact ⟨g, i, h, rfl⟩

theorem pairwise_map_snd_replaced (r : Relayout) (shown : List GroupId) :
    ((r.replaced shown).map Prod.snd).Pairwise (· < ·) := by
  have hsub : ((r.replaced shown).map Prod.snd).Sublist (shown.zipIdx.map Prod.snd) :=
    List.filter_sublist.map Prod.snd
  rw [List.zipIdx_map_snd] at hsub
  exact List.Pairwise.sublist hsub List.pairwise_lt_range'

theorem nodup_map_snd_replaced {shown : List GroupId} :
    ((r.replaced shown).map Prod.snd).Nodup :=
  (r.pairwise_map_snd_replaced shown).imp Nat.ne_of_lt

theorem mem_edits_iff {x : Change} : x ∈ r.edits rows ↔
    x ∈ r.sectionDeletes ∨ x ∈ r.sectionInserts ∨
      ∃ c ∈ rows, ∃ e, r.entry? c = some e ∧ e.change = x := by
  rw [perm_edits.mem_iff, List.mem_append, List.mem_append, or_assoc]
  simp only [List.mem_map, List.mem_filterMap]
  refine or_congr_right (or_congr_right ⟨?_, ?_⟩)
  · rintro ⟨e, ⟨c, hc, he⟩, rfl⟩
    exact ⟨c, hc, e, he, rfl⟩
  · rintro ⟨c, hc, e, he, rfl⟩
    exact ⟨e, ⟨c, hc, he⟩, rfl⟩

theorem wellFormed_of_mem_edits {x : Change} (hx : x ∈ r.edits rows) :
    SectionList.wellFormed x = true := by
  rcases mem_edits_iff.mp hx with hx | hx | ⟨c, -, e, he, rfl⟩
  · obtain ⟨_, -, rfl⟩ := List.mem_map.mp hx
    rfl
  · obtain ⟨_, -, rfl⟩ := List.mem_map.mp hx
    rfl
  · exact wellFormed_of_entry he

/-- A row with a new value is one of a net change, with its places on both sides. -/
theorem exists_of_mem_refreshes {p q : IndexPath} {k : ItemKey}
    (h : (p, q, k) ∈ (r.edits rows).filterMap SectionList.refresh?) :
    ∃ c ∈ rows, c.key = k ∧ c.source?.bind (r.path? r.before) = some p ∧
      c.target?.bind (r.path? r.after) = some q := by
  rw [(perm_filterMap_edits fun _ _ _ => rfl).mem_iff, List.mem_filterMap] at h
  obtain ⟨c, hc, h⟩ := h
  obtain ⟨e, he, h⟩ := Option.bind_eq_some_iff.mp h
  exact ⟨c, hc, refresh?_of_entry he h⟩

theorem path?_eq_some_iff {shown : List GroupId} (hshown : shown.Nodup) {pos : Position}
    {p : IndexPath} : r.path? shown pos = some p ↔
      pos.group ∈ r.continuing ∧ shown[p.sectionIndex]? = some pos.group ∧ p.row = pos.index := by
  obtain ⟨i, j⟩ := p
  unfold path?
  split
  · next hg =>
    rw [Option.map_eq_some_iff]
    constructor
    · rintro ⟨i', hi, he⟩
      cases he
      exact ⟨hg, (idxOf?_eq_some_iff_of_nodup hshown).mp hi, rfl⟩
    · rintro ⟨-, hi, rfl⟩
      exact ⟨i, (idxOf?_eq_some_iff_of_nodup hshown).mpr hi, rfl⟩
  · next hg => exact iff_of_false (fun h => nomatch h) fun h => hg h.1

end GroupedView.Relayout
