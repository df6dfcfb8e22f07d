import GroupedView.Display
import GroupedView.Proofs.Batch.NetEffect
import GroupedView.Proofs.Relayout
import GroupedView.Proofs.SectionList

/-!
# GroupedView.Proofs.Reproduction — the edits of a batch lead from display to display

`Side` collects what the two displays of a batch have in common: the sections that continue, and
rows at the places that the net changes name.  Taking out of either display what the edits name
leaves the same sections (`Side.run_takeOut`), so that a display before the batch becomes the
display after it (`NetChanges.Leads.apply_changeList`).
-/

open Std

namespace GroupedView

/-- The sections that show some groups of a view. -/
def View.sections {S : Type} (v : View S) (shown : List GroupId) : SectionList :=
  shown.map fun g => ⟨g, v.keys g⟩

theorem View.map_group_sections {S : Type} (v : View S) (shown : List GroupId) :
    (v.sections shown).map Section.group = shown := by
  rw [View.sections, List.map_map]
  exact List.map_id' shown

/-- Whether some change other than an update names a place of a key. -/
def NetChanges.marks (n : NetChanges) (place? : NetChange → Option Position) (k : ItemKey) : Bool :=
  n.rows.any fun c => c.key = k && (!c.isUpdate && (place? c).isSome)

theorem NetChanges.leaving_eq_marks (n : NetChanges) :
    n.leaving = n.marks NetChange.source? := by
  funext k
  unfold leaving marks
  congr 1
  funext c
  cases c <;> rfl

theorem NetChanges.arriving_eq_marks (n : NetChanges) :
    n.arriving = n.marks NetChange.target? := by
  funext k
  unfold arriving marks
  congr 1
  funext c
  cases c <;> rfl

/-- One of the two sides of a batch: what is shown of a view, and where the changes place keys. -/
structure Side {S : Type} (r : Relayout) (n : NetChanges) (shown : List GroupId) (v : View S)
    (place? : NetChange → Option Position) : Prop where
  shown_nodup : shown.Nodup
  filter_shown : shown.filter (· ∈ r.continuing) = r.continuing
  wellFormed : v.WellFormed
  keys_nodup : (n.rows.map NetChange.key).Nodup
  place_at : ∀ c ∈ n.rows, ∀ p, place? c = some p → v.keyAt? p = some c.key

namespace Side

variable {S : Type} {r : Relayout} {n : NetChanges} {shown : List GroupId} {v : View S}
  {place? : NetChange → Option Position}

theorem rowAt?_sections {p : IndexPath} {g : GroupId} {k : ItemKey} :
    (v.sections shown).rowAt? p = some (g, k) ↔
      shown[p.sectionIndex]? = some g ∧ v.keyAt? ⟨g, p.row⟩ = some k := by
  rw [SectionList.rowAt?, View.sections, List.getElem?_map]
  cases shown[p.sectionIndex]? with
  | none => simp
  | some g' =>
    simp only [Option.map_some, Option.bind_some, Option.map_eq_some_iff, Option.some.injEq,
      Prod.mk.injEq]
    constructor
    · rintro ⟨k', hk, rfl, rfl⟩
      exact ⟨rfl, hk⟩
    · rintro ⟨rfl, hk⟩
      exact ⟨k, hk, rfl, rfl⟩

/-- The row of a key that a change names, at the path of its place. -/
theorem rowAt?_of_path? (h : Side r n shown v place?) {c : NetChange} {p : IndexPath}
    (hc : c ∈ n.rows) (hp : (place? c).bind (r.path? shown) = some p) :
    ∃ g ∈ r.continuing, (v.sections shown).rowAt? p = some (g, c.key) := by
  obtain ⟨pos, hpos, hp⟩ := Option.bind_eq_some_iff.mp hp
  obtain ⟨hg, hi, hrow⟩ := (Relayout.path?_eq_some_iff h.shown_nodup).mp hp
  refine ⟨pos.group, hg, rowAt?_sections.mpr ⟨hi, ?_⟩⟩
  rw [hrow]
  exact h.place_at c hc pos hpos

/-- The rows that pass: those of sections that do not continue, and those that no change names. -/
def keep (r : Relayout) (n : NetChanges) (place? : NetChange → Option Position) (g : GroupId)
    (k : ItemKey) : Bool := !(decide (g ∈ r.continuing) && n.marks place? k)

theorem keep_of_mem {g : GroupId} (hg : g ∈ r.continuing) :
    keep r n place? g = (!n.marks place? ·) := by
  funext k
  rw [keep, decide_eq_true hg, Bool.true_and]

theorem keep_of_not_mem {g : GroupId} (hg : g ∉ r.continuing) :
    keep r n place? g = fun _ => true := by
  funext k
  rw [keep, decide_eq_false hg, Bool.false_and, Bool.not_false]

/-- The marked rows are those that do not pass. -/
theorem mem_marks_iff (h : Side r n shown v place?) {p : IndexPath} {k : ItemKey} :
    (p, k) ∈ n.rows.filterMap (r.mark? shown place?) ↔
      ∃ g, (v.sections shown).rowAt? p = some (g, k) ∧ keep r n place? g k = false := by
  rw [List.mem_filterMap]
  constructor
  · rintro ⟨c, hc, hm⟩
    unfold Relayout.mark? at hm
    split at hm
    · cases hm
    · next hu =>
      obtain ⟨p, hp, he⟩ := Option.map_eq_some_iff.mp hm
      cases he
      obtain ⟨g, hg, hrow⟩ := h.rowAt?_of_path? hc hp
      obtain ⟨pos, hpos, -⟩ := Option.bind_eq_some_iff.mp hp
      refine ⟨g, hrow, ?_⟩
      have hmarks : n.marks place? c.key = true :=
        List.any_eq_true.mpr ⟨c, hc, by simp [hu, hpos]⟩
      simp [keep, hg, hmarks]
  · rintro ⟨g, hrow, hkeep⟩
    simp only [keep, Bool.not_eq_false', Bool.and_eq_true, decide_eq_true_eq] at hkeep
    obtain ⟨hg, hmarks⟩ := hkeep
    obtain ⟨c, hc, hm⟩ := List.any_eq_true.mp hmarks
    simp only [Bool.and_eq_true, decide_eq_true_eq, Bool.not_eq_true'] at hm
    obtain ⟨rfl, hu, hsome⟩ := hm
    obtain ⟨pos, hpos⟩ := Option.isSome_iff_exists.mp hsome
    obtain ⟨hi, hk⟩ := rowAt?_sections.mp hrow
    -- the change names the place where the row is
    cases h.wellFormed.keyAt?_inj (h.place_at c hc pos hpos) hk
    refine ⟨c, hc, ?_⟩
    have hpath : r.path? shown ⟨g, p.row⟩ = some p :=
      (Relayout.path?_eq_some_iff h.shown_nodup).mpr ⟨hg, hi, rfl⟩
    rw [Relayout.mark?, if_neg (by simp [hu]), hpos, Option.bind_some, hpath]
    rfl

/-- No path is one of two rows: it holds one key, and the changes name each key once. -/
theorem nodup_filterMap_paths (h : Side r n shown v place?) {f : NetChange → Option IndexPath}
    (hf : ∀ c p, f c = some p → (place? c).bind (r.path? shown) = some p) :
    (n.rows.filterMap f).Nodup := by
  have hkeys : n.rows.Pairwise fun c d => c.key ≠ d.key := List.pairwise_map.mp h.keys_nodup
  refine List.pairwise_filterMap.mpr (hkeys.imp_of_mem fun {c d} hc hd hne p hp q hq he => hne ?_)
  subst he
  obtain ⟨g, -, hrow⟩ := h.rowAt?_of_path? hc (hf c p hp)
  obtain ⟨g', -, hrow'⟩ := h.rowAt?_of_path? hd (hf d p hq)
  rw [hrow] at hrow'
  exact (Prod.mk.inj (Option.some.inj hrow')).2

theorem pairwise_marks (h : Side r n shown v place?) :
    (n.rows.filterMap (r.mark? shown place?)).Pairwise fun x y => x.1 ≠ y.1 := by
  have hpaths : ((n.rows.filterMap (r.mark? shown place?)).map Prod.fst).Nodup := by
    rw [List.map_filterMap]
    refine h.nodup_filterMap_paths fun c p hp => ?_
    obtain ⟨x, hx, rfl⟩ := Option.map_eq_some_iff.mp hp
    unfold Relayout.mark? at hx
    split at hx
    · cases hx
    · obtain ⟨q, hq, rfl⟩ := Option.map_eq_some_iff.mp hx
      exact hq
  exact List.pairwise_map.mp hpaths

/-- The sections once the named rows are taken out. -/
def thinned (r : Relayout) (n : NetChanges) (place? : NetChange → Option Position)
    (l : SectionList) : SectionList := l.map (Section.restrict (keep r n place?))

/-- What is left in common: the sections that continue, without the named rows. -/
def rest (r : Relayout) (n : NetChanges) (v : View S) (place? : NetChange → Option Position) :
    SectionList := r.continuing.map fun g => ⟨g, (v.keys g).filter (!n.marks place? ·)⟩

variable (goal : SectionList)

/-- Taking out the named rows, the last one first. -/
theorem run_takeRows (h : Side r n shown v place?) {ps : List (IndexPath × ItemKey)}
    (hps : ps.Perm (n.rows.filterMap (r.mark? shown place?)))
    (hdesc : ps.Pairwise fun x y => compare y.1 x.1 = .lt) :
    SectionList.run goal (ps.map fun (p, k) => .takeRow p k) (v.sections shown) =
      .ok (thinned r n place? (v.sections shown)) := by
  refine SectionList.run_takeRows hdesc fun p k => ?_
  rw [hps.mem_iff, h.mem_marks_iff]

/-- Taking out the sections that do not continue, the last one first. -/
theorem run_takeSections (h : Side r n shown v place?) {is : List Nat}
    (his : is.Perm ((r.replaced shown).map Prod.snd)) (hdesc : is.Pairwise (· > ·)) :
    SectionList.run goal (is.map .takeSection) (thinned r n place? (v.sections shown)) =
      .ok (rest r n v place?) := by
  have hrest : (thinned r n place? (v.sections shown)).filter (fun s => s.group ∈ r.continuing) =
      rest r n v place? := by
    rw [thinned, View.sections, List.map_map, List.filter_map]
    have hfilter : shown.filter ((fun s : Section => decide (s.group ∈ r.continuing)) ∘
        (Section.restrict (keep r n place?) ∘ fun g => ⟨g, v.keys g⟩)) = r.continuing :=
      h.filter_shown
    rw [hfilter, rest]
    refine List.map_congr_left fun g hg => ?_
    simp only [Function.comp_apply, Section.restrict, keep_of_mem hg]
  rw [← hrest]
  refine SectionList.run_takeSections hdesc fun i => ?_
  rw [his.mem_iff, Relayout.mem_map_snd_replaced, thinned, View.sections, List.map_map,
    List.getElem?_map]
  simp only [Option.map_eq_some_iff]
  constructor
  · rintro ⟨g, hi, hg⟩
    exact ⟨_, ⟨g, hi, rfl⟩, decide_eq_false hg⟩
  · rintro ⟨s, ⟨g, hi, rfl⟩, hs⟩
    exact ⟨g, hi, of_decide_eq_false hs⟩

/-- Sections that do not continue keep their rows. -/
theorem getElem?_thinned {i : Nat} (hi : i ∈ (r.replaced shown).map Prod.snd) :
    (v.sections shown)[i]? = (thinned r n place? (v.sections shown))[i]? := by
  obtain ⟨g, hg, hnot⟩ := Relayout.mem_map_snd_replaced.mp hi
  rw [thinned, View.sections, List.map_map, List.getElem?_map, List.getElem?_map, hg]
  simp only [Option.map_some, Function.comp_apply, Section.restrict, keep_of_not_mem hnot,
    List.filter_true]

/-- Putting the named rows in again, the first one first. -/
theorem run_putRows (h : Side r n shown v place?) {ps : List (IndexPath × ItemKey)}
    (hps : ps.Perm (n.rows.filterMap (r.mark? shown place?)))
    (hasc : ps.Pairwise fun x y => compare x.1 y.1 = .lt) :
    SectionList.run goal (ps.map fun (p, k) => .putRow p k)
      (thinned r n place? (v.sections shown)) = .ok (v.sections shown) := by
  have hput := SectionList.run_putRows (h.run_takeRows goal
    ((List.reverse_perm ps).trans hps) (List.pairwise_reverse.mpr hasc))
  rwa [List.reverse_reverse] at hput

/-- Putting the sections that do not continue in again, the first one first. -/
theorem run_putSections (h : Side r n shown v place?) {is : List Nat}
    (his : is.Perm ((r.replaced shown).map Prod.snd)) (hasc : is.Pairwise (· < ·)) :
    SectionList.run (v.sections shown) (is.map .putSection) (rest r n v place?) =
      .ok (thinned r n place? (v.sections shown)) := by
  have hput := SectionList.run_putSections (List.pairwise_reverse.mpr hasc)
    (fun i hi => getElem?_thinned (his.mem_iff.mp (List.mem_reverse.mp hi)))
    (h.run_takeSections (v.sections shown) ((List.reverse_perm is).trans his)
      (List.pairwise_reverse.mpr hasc))
  rwa [List.reverse_reverse] at hput

/-- The path of a row in a section that continues lies in no section that comes or goes. -/
theorem sectionIndex_not_mem {p : IndexPath} {g : GroupId} {k : ItemKey} (hg : g ∈ r.continuing)
    (hp : (v.sections shown).rowAt? p = some (g, k)) :
    p.sectionIndex ∉ (r.replaced shown).map Prod.snd := by
  rw [Relayout.mem_map_snd_replaced]
  rintro ⟨g', hg', hnot⟩
  rw [(rowAt?_sections.mp hp).1] at hg'
  cases hg'
  exact hnot hg

theorem sectionIndex_not_mem_of_mark (h : Side r n shown v place?) {x : IndexPath × ItemKey}
    (hx : x ∈ n.rows.filterMap (r.mark? shown place?)) :
    x.1.sectionIndex ∉ (r.replaced shown).map Prod.snd := by
  obtain ⟨p, k⟩ := x
  obtain ⟨g, hp, hkeep⟩ := h.mem_marks_iff.mp hx
  by_cases hg : g ∈ r.continuing
  · exact sectionIndex_not_mem hg hp
  · rw [keep_of_not_mem hg] at hkeep
    cases hkeep

end Side

/-! ## Both sides -/

namespace Relayout

variable {S : Type} {r : Relayout} {n : NetChanges} {pre post : View S}

/-- A row with a new value is in a section that continues, at its places on both sides. -/
theorem rowAt?_of_mem_refreshes (hb : Side r n r.before pre NetChange.source?)
    (ha : Side r n r.after post NetChange.target?) {x : IndexPath × IndexPath × ItemKey}
    (hx : x ∈ (r.edits n.rows).filterMap SectionList.refresh?) :
    (∃ g ∈ r.continuing, (pre.sections r.before).rowAt? x.1 = some (g, x.2.2)) ∧
      ∃ g ∈ r.continuing, (post.sections r.after).rowAt? x.2.1 = some (g, x.2.2) := by
  obtain ⟨p, q, k⟩ := x
  obtain ⟨c, hc, rfl, hp, hq⟩ := exists_of_mem_refreshes hx
  exact ⟨hb.rowAt?_of_path? hc hp, ha.rowAt?_of_path? hc hq⟩

/-- The edits lead from the display before to the display after if both share what is left once
the named rows and sections are taken out. -/
theorem apply_edits (hb : Side r n r.before pre NetChange.source?)
    (ha : Side r n r.after post NetChange.target?)
    (hrest : Side.rest r n pre NetChange.source? = Side.rest r n post NetChange.target?) :
    (pre.sections r.before).apply ⟨r.edits n.rows⟩ (post.sections r.after) =
      .ok (post.sections r.after) := by
  have hremovals := r.perm_removals n.rows
  have hdeleted := r.perm_deleted n.rows
  have hinserted := List.Perm.of_eq (r.filterMap_inserted n.rows)
  have hinsertions := r.perm_insertions n.rows
  have hplan := SectionList.plan_eq (post.sections r.after)
    (fun _ hc => wellFormed_of_mem_edits hc)
    (fun x hx => by
      rw [hdeleted.mem_iff]
      exact hb.sectionIndex_not_mem_of_mark (hremovals.mem_iff.mp hx))
    (fun x hx => by
      rw [hinserted.mem_iff]
      exact ha.sectionIndex_not_mem_of_mark (hinsertions.mem_iff.mp hx))
    (fun x hx => by
      rw [hdeleted.mem_iff]
      obtain ⟨⟨g, hg, hp⟩, -⟩ := rowAt?_of_mem_refreshes hb ha hx
      exact Side.sectionIndex_not_mem hg hp)
    (fun x hx => by
      rw [hinserted.mem_iff]
      obtain ⟨-, g, hg, hq⟩ := rowAt?_of_mem_refreshes hb ha hx
      exact Side.sectionIndex_not_mem hg hq)
  have hsources : SectionList.run (post.sections r.after)
      (((r.edits n.rows).filterMap SectionList.refresh?).map fun x => .expect x.1 x.2.2)
      (pre.sections r.before) = .ok (pre.sections r.before) := by
    refine SectionList.run_expects fun x hx => ?_
    obtain ⟨⟨g, -, hp⟩, -⟩ := rowAt?_of_mem_refreshes hb ha hx
    exact SectionList.keyAt?_eq_of_rowAt? hp
  have htakeRows := hb.run_takeRows (post.sections r.after)
    ((List.mergeSort_perm _ _).trans hremovals)
    (pairwise_mergeSort_cmp (fun p q => compare q p) Prod.fst
      (((hremovals.pairwise_iff fun h he => h he.symm).mpr hb.pairwise_marks).imp
        fun hne he => hne (IndexPath.eq_of_compare he).symm))
  have htakeSections := hb.run_takeSections (post.sections r.after)
    ((List.mergeSort_perm _ _).trans hdeleted)
    (pairwise_gt_mergeSort (hdeleted.nodup_iff.mpr nodup_map_snd_replaced))
  have hputSections := ha.run_putSections ((List.mergeSort_perm _ _).trans hinserted)
    (pairwise_lt_mergeSort (hinserted.nodup_iff.mpr nodup_map_snd_replaced))
  have hputRows := ha.run_putRows (post.sections r.after)
    ((List.mergeSort_perm _ _).trans hinsertions)
    (pairwise_mergeSort_cmp compare Prod.fst
      (((hinsertions.pairwise_iff fun h he => h he.symm).mpr ha.pairwise_marks).imp
        fun hne he => hne (IndexPath.eq_of_compare he)))
  have htargets : SectionList.run (post.sections r.after)
      (((r.edits n.rows).filterMap SectionList.refresh?).map fun x => .expect x.2.1 x.2.2)
      (post.sections r.after) = .ok (post.sections r.after) := by
    refine SectionList.run_expects fun x hx => ?_
    obtain ⟨-, g, -, hq⟩ := rowAt?_of_mem_refreshes hb ha hx
    exact SectionList.keyAt?_eq_of_rowAt? hq
  -- what is left on the way is what both displays share
  rw [hrest] at htakeSections
  have hout := SectionList.run_append_of_ok (SectionList.run_append_of_ok hsources htakeRows)
    htakeSections
  have hin := SectionList.run_append_of_ok (SectionList.run_append_of_ok hout hputSections) hputRows
  rw [SectionList.apply, hplan]
  exact SectionList.run_append_of_ok (SectionList.run_append_of_ok hin htargets)
    SectionList.run_expectGroups

end Relayout

namespace NetChanges.Leads

variable {S : Type} {n : NetChanges} {pre post : View S} {old new : Mapping}

theorem relayout_eq (h : n.Leads pre post) :
    n.relayout old new = ⟨old.visible pre.length, new.visible post.length⟩ := by
  rw [relayout, funext h.lengthBefore_eq, funext h.lengthAfter_eq]

/-- Without the named rows, the sections that continue are the same on both sides. -/
theorem rest_eq (h : n.Leads pre post) (r : Relayout) :
    Side.rest r n pre NetChange.source? = Side.rest r n post NetChange.target? := by
  unfold Side.rest
  rw [← n.leaving_eq_marks, ← n.arriving_eq_marks]
  exact List.map_congr_left fun g _ => by rw [h.filter_keys g]

/-- What is shown before the batch. -/
theorem side_before (h : n.Leads pre post) (hpre : pre.WellFormed) (old new : Mapping) :
    Side (n.relayout old new) n (old.visible pre.length) pre NetChange.source? := by
  rw [h.relayout_eq]
  exact ⟨old.visible_nodup _, Relayout.filter_before (old.visible_nodup _), hpre, h.keys_nodup,
    h.source_at⟩

/-- What is shown after the batch. -/
theorem side_after (h : n.Leads pre post) (hpost : post.WellFormed) (old new : Mapping) :
    Side (n.relayout old new) n (new.visible post.length) post NetChange.target? := by
  rw [h.relayout_eq]
  exact ⟨new.visible_nodup _, Relayout.filter_after (new.visible_nodup _), hpost, h.keys_nodup,
    h.target_at⟩

/-- **The edits of a batch lead from display to display**: a display that follows them has in the
end the sections that are shown after the batch. -/
theorem apply_edits (h : n.Leads pre post) (hpre : pre.WellFormed) (hpost : post.WellFormed) :
    (pre.sections (old.visible pre.length)).apply ⟨(n.relayout old new).edits n.rows⟩
        (post.sections (new.visible post.length)) =
      .ok (post.sections (new.visible post.length)) := by
  have hb := h.side_before hpre old new
  have ha := h.side_after hpost old new
  rw [h.relayout_eq] at hb ha ⊢
  have happly := Relayout.apply_edits hb ha (h.rest_eq _)
  exact happly

end NetChanges.Leads

end GroupedView
