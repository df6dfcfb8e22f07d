import GroupedView.Proofs.Batch.Displacement
import GroupedView.Proofs.Batch.Isolation
import GroupedView.Proofs.Reproduction
import Mathlib.Data.List.Infix

/-!
# GroupedView.Proofs.Noninterference — items out of sight do not show

A mapping that lists some groups shows nothing of the others.  `View.Hides` says of an item that in
no state of the fold of a batch it has a row in one of some groups.

* `Fold.LooksLike` relates two folds that are the same to one who sees some groups only: these have
  the same rows, and every item that ever comes to them has the same notes.
* `Fold.LooksLike.change?_bind_entry?`: between sections of these groups, the changes of an item
  show alike on both sides.
* `changeList_of_hidden`: without the mutations of hidden items a batch gives the same edits.
-/

open Std

namespace GroupedView

/-! ## What shows of a change -/

namespace Relayout

variable {r : Relayout} {seen : GroupId → Bool} {c c' : NetChange}

theorem filter_bind_path? (hseen : ∀ g ∈ r.continuing, seen g = true) (shown : List GroupId)
    (o : Option Position) :
    (o.filter (seen ·.group)).bind (r.path? shown) = o.bind (r.path? shown) := by
  cases o with
  | none => rfl
  | some p =>
    by_cases hp : seen p.group = true
    · simp [Option.filter, hp]
    · have hout : p.group ∉ r.continuing := fun hg => hp (hseen _ hg)
      simp [Option.filter, hp, path?, hout]

/-- Changes with the same positions in groups that are seen show alike. -/
theorem entry?_congr (hseen : ∀ g ∈ r.continuing, seen g = true) (hkey : c.key = c'.key)
    (hsource : c.source?.filter (seen ·.group) = c'.source?.filter (seen ·.group))
    (htarget : c.target?.filter (seen ·.group) = c'.target?.filter (seen ·.group))
    (hupdate : c.isUpdate = c'.isUpdate) : r.entry? c = r.entry? c' := by
  unfold entry?
  rw [← filter_bind_path? hseen, hsource, filter_bind_path? hseen,
    ← filter_bind_path? hseen r.after, htarget, filter_bind_path? hseen, hupdate, hkey]

/-- A change between positions that are not seen does not show. -/
theorem bind_entry?_eq_none (hseen : ∀ g ∈ r.continuing, seen g = true) {o : Option NetChange}
    (hsource : ∀ c p, o = some c → c.source? = some p → ¬ seen p.group = true)
    (htarget : ∀ c q, o = some c → c.target? = some q → ¬ seen q.group = true) :
    o.bind r.entry? = none := by
  cases o with
  | none => rfl
  | some c =>
    have hnone : ∀ {x : Option Position}, (∀ p, x = some p → ¬ seen p.group = true) →
        x.filter (seen ·.group) = none := fun hx => Option.filter_eq_none_iff.mpr hx
    rw [Option.bind_some, entry?, ← filter_bind_path? hseen, hnone (hsource c · rfl),
      ← filter_bind_path? hseen r.after, hnone (htarget c · rfl)]
    rfl

end Relayout

/-- An item shows in no way if neither of its positions is seen. -/
theorem Verdict.settle_bind_entry?_eq_none {r : Relayout} {seen : GroupId → Bool}
    (hseen : ∀ g ∈ r.continuing, seen g = true) {k : ItemKey} {p q : Position}
    {moved fresh : Bool} {stable : GroupId → Bool} (hp : ¬ seen p.group = true)
    (hq : ¬ seen q.group = true) :
    ((classify k ⟨some p, moved, fresh⟩ (some q)).settle stable).bind r.entry? = none := by
  refine Relayout.bind_entry?_eq_none hseen (fun c x hc hx => ?_) (fun c x hc hx => ?_)
  · cases source_of_settle hc hx
    exact hp
  · cases target_of_settle hc hx
    exact hq

/-- Items with the same positions in groups that are seen, before and after, and with the same notes
show alike. -/
theorem Verdict.settle_bind_entry?_congr {r : Relayout} {seen : GroupId → Bool}
    (hseen : ∀ g ∈ r.continuing, seen g = true) {k : ItemKey} {o q q' : Option Position}
    {moved fresh : Bool} {stable stable' : GroupId → Bool}
    (hq : q.filter (seen ·.group) = q'.filter (seen ·.group)) (hsome : q.isSome = q'.isSome)
    (hstable : ∀ g, seen g = true → stable g = stable' g) :
    ((classify k ⟨o, moved, fresh⟩ q).settle stable).bind r.entry? =
      ((classify k ⟨o, moved, fresh⟩ q').settle stable').bind r.entry? := by
  cases q with
  | none =>
    rw [Option.isSome_none, eq_comm, Option.isSome_eq_false_iff, Option.isNone_iff_eq_none] at hsome
    subst hsome
    cases o <;> rfl
  | some q =>
    rw [Option.isSome_some, eq_comm, Option.isSome_iff_exists] at hsome
    obtain ⟨q', rfl⟩ := hsome
    cases o with
    | none => exact Relayout.entry?_congr hseen rfl rfl hq rfl
    | some p =>
      by_cases hin : seen q.group = true
      · -- the row is seen where it ended, and so it ended there on both sides
        rw [Option.filter_some, if_pos hin] at hq
        cases (Option.filter_eq_some_iff.mp hq.symm).1
        rw [settle_classify_both, settle_classify_both]
        by_cases hpq : p = q
        · subst hpq
          rw [hstable _ hin]
        · simp only [ne_eq, hpq, not_false_eq_true, if_true]
      · have hqs := hq
        rw [Option.filter_some, if_neg hin] at hqs
        have hout : ¬ seen q'.group = true := Option.filter_eq_none_iff.mp hqs.symm q' rfl
        by_cases hp : seen p.group = true
        · -- the row left a group that is seen for one that is not
          have hne : p ≠ q := fun he => hin (he ▸ hp)
          have hne' : p ≠ q' := fun he => hout (he ▸ hp)
          rw [settle_classify_both, settle_classify_both, if_pos hne, if_pos hne']
          cases moved with
          | false =>
            cases fresh with
            | false => rfl
            | true => exact Relayout.entry?_congr hseen rfl rfl hq rfl
          | true => exact Relayout.entry?_congr hseen rfl rfl hq rfl
        · rw [settle_bind_entry?_eq_none hseen hp hin, settle_bind_entry?_eq_none hseen hp hout]

/-! ## Folds that look alike -/

/-- Keys of which some are left out, in order. -/
theorem keys_eq_filter {α : Type} {t t' : ItemMap α} {P : ItemKey → Bool}
    (h : ∀ k, k ∈ t' ↔ k ∈ t ∧ P k = true) : t'.keys = t.keys.filter P := by
  refine List.Perm.eq_of_pairwise (fun k k' _ _ hlt hgt => ?_) ExtTreeMap.ordered_keys
    (ExtTreeMap.ordered_keys.filter P)
    ((List.perm_ext_iff_of_nodup ExtTreeMap.nodup_keys (ExtTreeMap.nodup_keys.filter P)).mpr
      fun k => ?_)
  · rw [OrientedCmp.gt_of_lt hlt] at hgt
    cases hgt
  · rw [List.mem_filter, ExtTreeMap.mem_keys, ExtTreeMap.mem_keys, h]

namespace Fold

variable {S : Type} {pre : View S} {f f' : Fold S} {seen : GroupId → Bool} {P : ItemKey → Bool}
  {k : ItemKey} {g : GroupId} {r : Relayout}

/-- Two folds of batches that started at `pre` are the same to one who sees some groups only.  The
items of `P` are folded alike; no other item comes to a group that is seen, and the second fold has
no notes of other items. -/
structure LooksLike (pre : View S) (seen : GroupId → Bool) (P : ItemKey → Bool) (f f' : Fold S) :
    Prop where
  sound : f.Sound pre
  sound' : f'.Sound pre
  keys_eq : ∀ g, seen g = true → f.view.keys g = f'.view.keys g
  isSome_eq : ∀ k, P k = true → (f.view.locate k).isSome = (f'.view.locate k).isSome
  tracks_eq : ∀ k : ItemKey, P k = true → f.tracks[k]? = f'.tracks[k]?
  of_mem_before : ∀ g, seen g = true → ∀ k ∈ pre.keys g, P k = true
  of_mem_after : ∀ g, seen g = true → ∀ k ∈ f.view.keys g, P k = true
  of_mem_tracks : ∀ k ∈ f'.tracks, P k = true

namespace LooksLike

theorem moved_eq (h : LooksLike pre seen P f f') (hk : P k = true) : f.moved k = f'.moved k := by
  rw [moved, moved, h.tracks_eq k hk]

theorem fresh_eq (h : LooksLike pre seen P f f') (hk : P k = true) : f.fresh k = f'.fresh k := by
  rw [fresh, fresh, h.tracks_eq k hk]

theorem locate_iff (h : LooksLike pre seen P f f') {p : Position} (hp : seen p.group = true) :
    f.view.locate k = some p ↔ f'.view.locate k = some p := by
  rw [h.sound.wellFormed.locate_eq_some_iff, h.sound'.wellFormed.locate_eq_some_iff, View.keyAt?,
    View.keyAt?, h.keys_eq _ hp]

theorem filter_locate (h : LooksLike pre seen P f f') :
    (f.view.locate k).filter (seen ·.group) = (f'.view.locate k).filter (seen ·.group) := by
  refine Option.ext fun p => ?_
  rw [Option.filter_eq_some_iff, Option.filter_eq_some_iff]
  exact and_congr_left h.locate_iff

/-- Where a row of a group that is seen has gone, or has come from, is seen on both sides. -/
theorem displaced_eq (h : LooksLike pre seen P f f') (hpre : pre.WellFormed)
    (hg : seen g = true) (hk : k ∈ pre.keys g ∨ k ∈ f.view.keys g) :
    f.displaced pre k = f'.displaced pre k := by
  have hP : P k = true := hk.elim (h.of_mem_before g hg k) (h.of_mem_after g hg k)
  have hsame : pre.locate k = f.view.locate k ↔ pre.locate k = f'.view.locate k := by
    rcases hk with hk | hk
    · obtain ⟨i, hi⟩ := View.mem_keys_iff.mp hk
      rw [hpre.locate_eq_some_iff.mpr hi, eq_comm, h.locate_iff hg, eq_comm]
    · obtain ⟨i, hi⟩ := View.mem_keys_iff.mp hk
      have hq := h.sound.wellFormed.locate_eq_some_iff.mpr hi
      rw [hq, (h.locate_iff hg).mp hq]
  rw [displaced, displaced, h.moved_eq hP]
  simp only [ne_eq, hsame]

theorem stable_eq (h : LooksLike pre seen P f f') (hpre : pre.WellFormed) (hg : seen g = true) :
    f.stable pre g = f'.stable pre g := by
  have hbefore : (pre.keys g).filter (!f.displaced pre ·) =
      (pre.keys g).filter (!f'.displaced pre ·) :=
    List.filter_congr fun k hk => by rw [h.displaced_eq hpre hg (.inl hk)]
  have hafter : (f.view.keys g).filter (!f.displaced pre ·) =
      (f'.view.keys g).filter (!f'.displaced pre ·) := by
    rw [← h.keys_eq g hg]
    exact List.filter_congr fun k hk => by rw [h.displaced_eq hpre hg (.inr hk)]
  rw [h.sound.stable_eq hpre, h.sound'.stable_eq hpre, hbefore, hafter]

/-- Between sections that are seen, the change of an item shows alike on both sides. -/
theorem change?_bind_entry? (h : LooksLike pre seen P f f') (hpre : pre.WellFormed)
    (hseen : ∀ g ∈ r.continuing, seen g = true) (hk : P k = true) :
    (f.change? pre k).bind r.entry? = (f'.change? pre k).bind r.entry? := by
  rw [h.sound.change?_eq hpre, h.sound'.change?_eq hpre, h.moved_eq hk, h.fresh_eq hk]
  exact Verdict.settle_bind_entry?_congr hseen h.filter_locate (h.isSome_eq k hk)
    fun g hg => h.stable_eq hpre hg

/-- The change of another item does not show. -/
theorem change?_bind_entry?_eq_none (h : LooksLike pre seen P f f') (hpre : pre.WellFormed)
    (hseen : ∀ g ∈ r.continuing, seen g = true) (hk : ¬ P k = true) :
    (f.change? pre k).bind r.entry? = none := by
  refine Relayout.bind_entry?_eq_none hseen (fun c p hc hp hg => hk ?_) (fun c q hc hq hg => hk ?_)
  · have hp := hpre.locate_eq_some_iff.mp (h.sound.source_of_change? hc hp)
    exact h.of_mem_before _ hg k (View.mem_keys_iff.mpr ⟨p.index, hp⟩)
  · have hq := h.sound.wellFormed.locate_eq_some_iff.mp (target_of_change? hc hq)
    exact h.of_mem_after _ hg k (View.mem_keys_iff.mpr ⟨q.index, hq⟩)

theorem filterMap_rows (h : LooksLike pre seen P f f') (hpre : pre.WellFormed)
    (hseen : ∀ g ∈ r.continuing, seen g = true) :
    (f.netChanges pre).rows.filterMap r.entry? = (f'.netChanges pre).rows.filterMap r.entry? := by
  have hkeys : f'.tracks.keys = f.tracks.keys.filter P := keys_eq_filter fun k => by
    have hsame : P k = true → (k ∈ f.tracks ↔ k ∈ f'.tracks) := fun hk => by
      rw [ExtTreeMap.mem_iff_isSome_getElem?, ExtTreeMap.mem_iff_isSome_getElem?,
        h.tracks_eq k hk]
    exact ⟨fun hk => ⟨(hsame (h.of_mem_tracks k hk)).mpr hk, h.of_mem_tracks k hk⟩,
      fun ⟨hk, hP⟩ => (hsame hP).mp hk⟩
  rw [rows_netChanges, rows_netChanges, hkeys, List.filterMap_filterMap, List.filterMap_filterMap,
    List.filterMap_filter]
  refine List.filterMap_congr fun k _ => ?_
  split
  · next hk => exact h.change?_bind_entry? hpre hseen hk
  · next hk => exact h.change?_bind_entry?_eq_none hpre hseen hk

end LooksLike

end Fold

/-! ## The edits between two mappings -/

section Edits

variable {n n' : NetChanges} {old new : Mapping} {policy : MappingPolicy}

theorem Mapping.validate_congr {known known' : GroupId → Bool}
    (h : ∀ g ∈ new.groups, known g = known' g) :
    new.validate policy known = new.validate policy known' := by
  have hfind : new.groups.find? (new.refuses known) = new.groups.find? (new.refuses known') := by
    rw [← List.head?_filter, ← List.head?_filter]
    exact congrArg _ (List.filter_congr fun g hg => by rw [refuses, refuses, h g hg])
  unfold validate
  rw [hfind]

theorem Mapping.visible_congr {length length' : GroupId → Nat}
    (h : ∀ g ∈ old.groups, length g = length' g) : old.visible length = old.visible length' :=
  List.filter_congr fun g hg => by rw [h g hg]

theorem Relayout.edits_congr {r : Relayout} {rows rows' : List NetChange}
    (h : rows.filterMap r.entry? = rows'.filterMap r.entry?) : r.edits rows = r.edits rows' := by
  simp only [edits, rowEdits, h]

/-- The sections that stay between two mappings are of groups that both list. -/
theorem NetChanges.mem_groups_of_mem_continuing {g : GroupId}
    (hg : g ∈ (n.relayout old new).continuing) : g ∈ old.groups ++ new.groups :=
  List.mem_append_left _ (List.mem_filter.mp (Relayout.continuing_sublist_before.mem hg)).1

namespace Fold.LooksLike

variable {S : Type} {pre : View S} {f f' : Fold S} {seen : GroupId → Bool} {P : ItemKey → Bool}

theorem length_eq (h : LooksLike pre seen P f f') {g : GroupId} (hg : seen g = true) :
    f.view.length g = f'.view.length g := by
  have hkeys := congrArg List.length (h.keys_eq g hg)
  rwa [View.keys, View.keys, List.length_map, List.length_map] at hkeys

/-- Folds that look alike give the same edits between mappings that list what is seen. -/
theorem changeList_eq (h : LooksLike pre seen P f f') (hpre : pre.WellFormed)
    (hseen : ∀ g ∈ old.groups ++ new.groups, seen g = true)
    (hknown : ∀ g, seen g = true → f.view.isKnown g = f'.view.isKnown g) :
    (f.netChanges pre).changeList policy old new =
      (f'.netChanges pre).changeList policy old new := by
  have hleads := h.sound.leads hpre
  have hleads' := h.sound'.leads hpre
  have hrelayout : (f.netChanges pre).relayout old new = (f'.netChanges pre).relayout old new := by
    have hvisible : new.visible f.view.length = new.visible f'.view.length :=
      Mapping.visible_congr fun g hg => h.length_eq (hseen g (List.mem_append_right _ hg))
    rw [hleads.relayout_eq, hleads'.relayout_eq, hvisible]
  have hvalid : new.validate policy (f.netChanges pre).isKnown =
      new.validate policy (f'.netChanges pre).isKnown := Mapping.validate_congr fun g hg => by
    rw [isKnown_netChanges, isKnown_netChanges, hknown g (hseen g (List.mem_append_right _ hg))]
  have hedits := Relayout.edits_congr (h.filterMap_rows (r := (f.netChanges pre).relayout old new)
    hpre fun g hg => hseen g (NetChanges.mem_groups_of_mem_continuing hg))
  rw [NetChanges.changeList, NetChanges.changeList, hvalid, hedits, hrelayout]

end Fold.LooksLike

end Edits

/-! ## Items out of sight -/

section Hidden

variable {V S : Type} [BEq S] {b : Arrangement Id V S} {pre : View S}
  {batch : List (Mutation V)} {groups : List GroupId} {k : ItemKey}

/-- In no state of the fold of a batch does an item have a row in one of some groups. -/
def View.Hides (b : Arrangement Id V S) (pre : View S) (batch : List (Mutation V))
    (groups : List GroupId) (k : ItemKey) : Prop :=
  ∀ past, past <+: batch → ∀ v, pre.applyAll b past = pure v → ∀ g ∈ groups, k ∉ v.keys g

/-- Only finitely many states need to be looked at. -/
theorem View.hides_iff : pre.Hides b batch groups k ↔ ∀ past ∈ batch.inits,
    (pre.applyAll b past).run.run.toOption.all (fun v => groups.all (k ∉ v.keys ·)) = true := by
  refine forall_congr' fun past => ?_
  rw [List.mem_inits]
  refine imp_congr_right fun _ => ?_
  generalize pre.applyAll b past = x
  rcases x with e | v
  · exact iff_of_true (fun v hv => by cases hv) rfl
  · have hall : (groups.all fun g => k ∉ v.keys g) = true ↔ ∀ g ∈ groups, k ∉ v.keys g := by
      simp
    refine Iff.trans ⟨fun h => h v rfl, fun h w hw => ?_⟩ hall.symm
    cases hw
    exact h

instance : Decidable (pre.Hides b batch groups k) := decidable_of_iff _ View.hides_iff.symm

variable [LawfulBEq S] {l l₁ l₁' : Ledger S} {P : ItemKey → Bool} {f f' : Fold S}

omit [BEq S] [LawfulBEq S] in
theorem filter_key_filter_key :
    (batch.filter (P ·.key)).filter (P ·.key) = batch.filter (P ·.key) := by
  rw [List.filter_filter]
  simp only [Bool.and_self]

/-- In no state of the fold does a hidden item stand in one of the groups. -/
theorem View.Refines.group_not_mem_of_hides (hb : b.Lawful) (hl : pre.Refines b l)
    (h : pre.Hides b batch groups k) {past : List (Mutation V)} (hpast : past <+: batch)
    (happly : l.applyAll b past = .ok l₁) {pl : Placement S}
    (hk : l₁.entries[k]? = some (some pl)) : pl.group ∉ groups := by
  intro hg
  obtain ⟨v, hv, hrefines⟩ := hl.applyAll_of_ok hb happly (m := Id)
  refine h past hpast v hv _ hg (hrefines.wellFormed.mem_keys_iff_groupOf?.mpr ?_)
  rw [groupOf?, hrefines.placements_eq_some_iff.mpr hk]
  rfl

/-- Without the mutations of hidden items, a batch leads the groups to the same rows. -/
theorem View.Refines.keys_eq_of_hides (hb : b.Lawful) (hl : pre.Refines b l)
    (hhides : ∀ k, ¬ P k = true → pre.Hides b batch groups k)
    (happly : l.applyAll b batch = .ok l₁)
    (happly' : l.applyAll b (batch.filter (P ·.key)) = .ok l₁') (hagree : l₁.AgreesOn P l₁')
    {g : GroupId} (hg : g ∈ groups) : l₁.rows b g = l₁'.rows b g := by
  refine (Ledger.ascending_rows hb l₁ g).eq_of_mem_iff hb (Ledger.ascending_rows hb l₁' g)
    fun r => ?_
  rw [Ledger.mem_rows, Ledger.mem_rows]
  by_cases hk : P r.key = true
  · rw [hagree _ hk]
  · -- a hidden item is not in the group after the batch, and was not before it
    rw [Ledger.entries_eq_of_prefix_filter List.prefix_rfl happly' hk]
    refine iff_of_false (fun hr => ?_) fun hr => ?_
    · exact hl.group_not_mem_of_hides hb (hhides _ hk) List.prefix_rfl happly hr hg
    · exact hl.group_not_mem_of_hides hb (hhides _ hk) List.nil_prefix rfl hr hg

/-- Without the mutations of hidden items, a batch uses the same of the groups. -/
theorem View.Refines.mem_used_iff_of_hides (hb : b.Lawful) (hl : pre.Refines b l)
    (hhides : ∀ k, ¬ P k = true → pre.Hides b batch groups k)
    (happly : l.applyAll b batch = .ok l₁)
    (happly' : l.applyAll b (batch.filter (P ·.key)) = .ok l₁') {g : GroupId} (hg : g ∈ groups) :
    g ∈ l₁.used ↔ g ∈ l₁'.used := by
  have hsame : batch.filter (P ·.key) = (batch.filter (P ·.key)).filter (P ·.key) :=
    filter_key_filter_key.symm
  rw [Ledger.mem_used_applyAll hl.covers happly, Ledger.mem_used_applyAll hl.covers happly']
  constructor
  · rintro (hused | ⟨past, hpast, w, hw, k, pl, hk, rfl⟩)
    · exact .inl hused
    · have hP : P k = true := by
        by_contra hP
        exact hl.group_not_mem_of_hides hb (hhides k hP) hpast hw hk hg
      obtain ⟨past', w', hpast', hw', hagree⟩ :=
        Ledger.exists_prefix_of_filter_eq hsame happly' hpast hw
      rw [hagree k hP] at hk
      exact .inr ⟨past', hpast', w', hw', k, pl, hk, rfl⟩
  · rintro (hused | ⟨past, hpast, w, hw, k, pl, hk, rfl⟩)
    · exact .inl hused
    · by_cases hP : P k = true
      · obtain ⟨past', w', hpast', hw', hagree⟩ :=
          Ledger.exists_prefix_of_filter_eq hsame.symm happly hpast hw
        rw [hagree k hP] at hk
        exact .inr ⟨past', hpast', w', hw', k, pl, hk, rfl⟩
      · -- an item without mutations stands where it stood before the batch
        rw [Ledger.entries_eq_of_prefix_filter hpast hw hP] at hk
        exact .inl (hl.covers k pl hk)

/-- Without the mutations of hidden items, a batch is folded into one that looks the same. -/
theorem Fold.looksLike_of_hides (hb : b.Lawful) (hl : pre.Refines b l)
    (hhides : ∀ k, ¬ P k = true → pre.Hides b batch groups k)
    (happly : l.applyAll b batch = .ok l₁)
    (happly' : l.applyAll b (batch.filter (P ·.key)) = .ok l₁')
    (hf : batch.foldlM (Fold.step b pre) { view := pre } = pure f)
    (hf' : (batch.filter (P ·.key)).foldlM (Fold.step b pre) { view := pre } = pure f') :
    LooksLike pre (· ∈ groups) P f f' := by
  have hagree := agreesOn_of_filter_eq hb hl filter_key_filter_key.symm happly happly' hf hf'
  have hkeys : ∀ g, decide (g ∈ groups) = true → f.view.keys g = f'.view.keys g := fun g hg => by
    rw [View.keys, View.keys, hagree.refines.rows_eq hb, hagree.refines'.rows_eq hb,
      hl.keys_eq_of_hides hb hhides happly happly' hagree.entries (of_decide_eq_true hg)]
  have hstart : pre.applyAll b ([] : List (Mutation V)) = pure pre := rfl
  obtain ⟨v, hv, hrefines⟩ := hl.applyAll_of_ok hb happly (m := Id)
  cases hrefines.view_eq hb hagree.refines
  exact {
    sound := sound_of_canReturn_foldlM hl.wellFormed (canReturn_of_eq_pure hf)
    sound' := sound_of_canReturn_foldlM hl.wellFormed (canReturn_of_eq_pure hf')
    keys_eq := hkeys
    isSome_eq := fun k hk => by
      rw [hagree.refines.wellFormed.isSome_locate, hagree.refines'.wellFormed.isSome_locate,
        View.contains, View.contains, ExtTreeMap.contains_eq_isSome_getElem?,
        ExtTreeMap.contains_eq_isSome_getElem?, hagree.placements_eq hk]
    tracks_eq := hagree.tracks_eq
    of_mem_before := fun g hg k hk => by
      by_contra hP
      exact hhides k hP [] List.nil_prefix pre hstart g (of_decide_eq_true hg) hk
    of_mem_after := fun g hg k hk => by
      by_contra hP
      exact hhides k hP batch List.prefix_rfl _ hv g (of_decide_eq_true hg) hk
    of_mem_tracks := fun k hk => by
      by_contra hP
      -- of such an item the second batch has no mutation, like the empty batch
      have hnone : (batch.filter (P ·.key)).filter (fun mu => decide (mu.key = k)) =
          ([] : List (Mutation V)).filter (fun mu => decide (mu.key = k)) := by
        refine List.filter_eq_nil_iff.mpr fun mu hmu he => hP ?_
        rw [← of_decide_eq_true he]
        exact (List.mem_filter.mp hmu).2
      have hempty := agreesOn_of_filter_eq (P := (· = k)) hb hl hnone happly' rfl hf' rfl
      obtain ⟨t, ht⟩ := mem_map_iff.mp hk
      rw [hempty.tracks_eq k (decide_eq_true rfl)] at ht
      cases ht }

/-- **Items out of sight do not show.**  Let the functions of a view be plain functions, the test of
sort keys be equality, and the comparison be a total preorder.  Take a batch that is accepted by a
view that a run can come to, two mappings, and any items that in no state of the fold, from the
first to the last, have a row in a group that one of the mappings lists.  Without the mutations of
these items the batch is accepted as well, and under either policy the two mappings give the same
edits, or are refused because of the same group. -/
theorem changeList_of_hidden (hb : b.Lawful) (hpre : pre.Reachable b) {c : Computed S}
    (hc : pre.compute b batch = pure c) (policy : MappingPolicy) (old new : Mapping)
    (hidden : ItemKey → Bool)
    (hhides : ∀ k, hidden k = true → pre.Hides b batch (old.groups ++ new.groups) k) :
    ∃ c', pre.compute b (batch.filter (!hidden ·.key)) = pure c' ∧
      c'.changes.changeList policy old new = c.changes.changeList policy old new := by
  obtain ⟨l, hl⟩ := hpre.refines hb
  have hout : ∀ k, ¬ (!hidden k) = true → pre.Hides b batch (old.groups ++ new.groups) k :=
    fun k hk => hhides k (by simpa using hk)
  cases happly : l.applyAll b batch with
  | error e =>
    have hrefused : pre.compute b batch = throw e := hl.compute_of_error hb happly (m := Id)
    rw [hc] at hrefused
    cases hrefused
  | ok l₁ =>
    obtain ⟨l₁', happly', -⟩ :=
      (Ledger.AgreesOn.refl (P := fun k => !hidden k)).applyAll_filter happly
    obtain ⟨f, hf, hview, hcompute⟩ := hl.compute hb happly (m := Id)
    obtain ⟨f', hf', hview', hcompute'⟩ := hl.compute hb happly' (m := Id)
    have hlooks := Fold.looksLike_of_hides hb hl hout happly happly' hf hf'
    have hknown : ∀ g, decide (g ∈ old.groups ++ new.groups) = true →
        f.view.isKnown g = f'.view.isKnown g := fun g hg => by
      rw [Bool.eq_iff_iff, hview.isKnown_iff, hview'.isKnown_iff]
      exact hl.mem_used_iff_of_hides hb hout happly happly' (of_decide_eq_true hg)
    have hsame : pre.compute b batch = pure ⟨f.view, f.netChanges pre, batch.length⟩ := hcompute
    rw [hc] at hsame
    cases hsame
    exact ⟨_, hcompute', (hlooks.changeList_eq hl.wellFormed (fun g hg => decide_eq_true hg)
      hknown).symm⟩

end Hidden

/-- The number of a sample key that is out of sight. -/
def decadesHidden (k : ItemKey) : Bool := k ∈ [waveringKey "d", waveringKey "e", waveringKey "g"]

/-- Mutations of hidden numbers, and one that takes a number out of sight. -/
def decadesSecrets : List (Mutation Nat) :=
  [.insert (waveringKey "g") 25 none, .update (waveringKey "e") 28 true,
    .update (waveringKey "c") 27 true, .update (waveringKey "d") 14 true,
    .insert (waveringKey "f") 5 none, .delete (waveringKey "g")]

/-- To one who sees the first group only, the other numbers might as well not be there, although
the row that leaves comes to another place among them. -/
theorem decadesSecrets_hidden :
    decades.Lawful ∧ decadesView.Reachable decades ∧
    (∀ k, decadesHidden k = true →
      decadesView.Hides decades decadesSecrets [⟨"0"⟩, ⟨"0"⟩] k) ∧
    ∃ c c', decadesView.compute decades decadesSecrets = pure c ∧
      decadesView.compute decades (decadesSecrets.filter (!decadesHidden ·.key)) = pure c' ∧
      c.view.keys ⟨"2"⟩ = [waveringKey "c", waveringKey "e"] ∧
      c'.changes.changeList .strict (.ofGroups [⟨"0"⟩]) (.ofGroups [⟨"0"⟩]) =
        c.changes.changeList .strict (.ofGroups [⟨"0"⟩]) (.ofGroups [⟨"0"⟩]) := by
  have hlawful : decades.Lawful := Arrangement.lawful_bySortKey _ _ _
  have hhides : ∀ k, decadesHidden k = true →
      decadesView.Hides decades decadesSecrets [⟨"0"⟩, ⟨"0"⟩] k := by
    intro k hk
    have hall : ∀ k ∈ [waveringKey "d", waveringKey "e", waveringKey "g"],
        decadesView.Hides decades decadesSecrets [⟨"0"⟩, ⟨"0"⟩] k := by decide +kernel
    exact hall k (of_decide_eq_true hk)
  have hkeys : (decadesView.compute decades decadesSecrets).run.run.map (·.view.keys ⟨"2"⟩) =
      .ok [waveringKey "c", waveringKey "e"] := by decide +kernel
  cases hc : decadesView.compute decades decadesSecrets with
  | error e =>
    rw [hc] at hkeys
    cases hkeys
  | ok c =>
    rw [hc] at hkeys
    obtain ⟨c', hc', hsame⟩ := changeList_of_hidden hlawful reachable_decadesView hc .strict
      (.ofGroups [⟨"0"⟩]) (.ofGroups [⟨"0"⟩]) decadesHidden hhides
    exact ⟨hlawful, reachable_decadesView, hhides, c, c', rfl, hc', Except.ok.inj hkeys, hsame⟩

end GroupedView
