import GroupedView.Proofs.SectionList
import Mathlib.Data.List.Permutation

/-!
# GroupedView.Proofs.ReorderedEdits — a change list is followed as a set of edits

A display follows a change list in steps that are sorted by their paths, so that the order of the
list matters for edits of one path only.  Checks between these steps change nothing and may be made
in any order, although the first one that fails decides on the cause.

* `SectionList.Alike` relates steps that lead from every display to the same one or are both
  refused; checks that are permuted are alike (`SectionList.Alike.of_perm`).
* `apply_of_reordered`: a permuted change list is accepted if the list is, with the same result, as
  long as no two edits leave or enter at one path.
-/

open Std

namespace GroupedView

namespace Change

/-- The path that an edit takes a row away from. -/
def vacated? : Change → Option IndexPath
  | ofRow .delete _ source _ | ofRow .move _ source _ => source
  | _ => none

/-- The path that an edit puts a row in at. -/
def occupied? : Change → Option IndexPath
  | ofRow .insert _ _ target | ofRow .move _ _ target => target
  | _ => none

end Change

namespace SectionList

variable {goal l l' : SectionList} {s s' t t' : List Step} {changes changes' : List Change}

/-! ## Steps that are alike -/

/-- Steps that lead from every display to the same one, or are both refused. -/
def Alike (goal : SectionList) (s t : List Step) : Prop :=
  ∀ l l', run goal s l = .ok l' ↔ run goal t l = .ok l'

theorem run_append_eq_ok_iff :
    run goal (s ++ t) l = .ok l' ↔ ∃ w, run goal s l = .ok w ∧ run goal t w = .ok l' := by
  rw [run_append]
  cases run goal s l with
  | ok w => simp [Except.bind]
  | error stopped => simp [Except.bind]

theorem Alike.rfl : Alike goal s s := fun _ _ => Iff.rfl

theorem Alike.append (hs : Alike goal s s') (ht : Alike goal t t') :
    Alike goal (s ++ t) (s' ++ t') := by
  intro l l'
  rw [run_append_eq_ok_iff, run_append_eq_ok_iff]
  exact exists_congr fun w => and_congr (hs l w) (ht w l')

/-- Whether a step changes nothing where it succeeds. -/
def Step.Checks : Step → Prop
  | refuse _ | expect _ _ | expectGroup _ _ => True
  | takeRow _ _ | takeSection _ | putSection _ | putRow _ _ => False

theorem Step.Checks.eq_of_perform {x : Step} (hx : x.Checks) (h : x.perform goal l = .ok l') :
    l' = l := by
  cases x with
  | refuse cause => cases h
  | expect p k =>
    simp only [perform] at h
    cases hk : l.expectKey p k with
    | ok u =>
      rw [hk] at h
      cases h
      rfl
    | error cause =>
      rw [hk] at h
      cases h
  | expectGroup i g =>
    simp only [perform] at h
    split at h
    · split at h
      · cases h
        rfl
      · cases h
    · cases h
      rfl
  | takeRow p k => exact hx.elim
  | takeSection i => exact hx.elim
  | putSection i => exact hx.elim
  | putRow p k => exact hx.elim

/-- Checks succeed together if each of them does. -/
theorem run_checks_eq_ok_iff (hs : ∀ x ∈ s, x.Checks) :
    run goal s l = .ok l' ↔ l' = l ∧ ∀ x ∈ s, x.perform goal l = .ok l := by
  induction s with
  | nil =>
    rw [run_nil, Except.ok.injEq]
    exact ⟨fun h => ⟨h.symm, fun _ hx => absurd hx List.not_mem_nil⟩, fun h => h.1.symm⟩
  | cons x s ih =>
    obtain ⟨hx, hs⟩ := List.forall_mem_cons.mp hs
    rw [run, List.forall_mem_cons]
    cases hp : x.perform goal l with
    | ok w =>
      obtain rfl := hx.eq_of_perform hp
      simp only [true_and]
      exact ih hs
    | error cause => simp

/-- Checks may be made in any order. -/
theorem Alike.of_perm (hs : ∀ x ∈ s, x.Checks) (h : s.Perm t) : Alike goal s t := by
  intro l l'
  have ht : ∀ x ∈ t, x.Checks := fun x hx => hs x (h.mem_iff.mpr hx)
  rw [run_checks_eq_ok_iff hs, run_checks_eq_ok_iff ht]
  exact and_congr_right fun _ => forall_congr' fun x => by rw [h.mem_iff]

/-! ## Sorted edits -/

/-- Edits of different paths come in the same order however they were listed before. -/
theorem mergeSort_paths_of_perm {xs xs' : List (IndexPath × ItemKey)}
    (cmp : IndexPath → IndexPath → Ordering) [TransCmp cmp] (hcmp : ∀ p q, cmp p q = .eq → p = q)
    (hxs : (xs.map Prod.fst).Nodup) (h : xs.Perm xs') :
    (xs.mergeSort fun x y => (cmp x.1 y.1).isLE) =
      xs'.mergeSort fun x y => (cmp x.1 y.1).isLE := by
  refine mergeSort_eq_of_perm (fun _ _ _ => TransCmp.isLE_trans) (fun x y => ?_) ?_ h
  · rcases hle : cmp x.1 y.1 with _ | _ | _
    · rfl
    · rfl
    · rw [OrientedCmp.lt_of_gt hle]
      rfl
  · intro x hx y hy hxy hyx
    exact List.inj_on_of_nodup_map hxs hx hy (hcmp _ _ (OrientedCmp.isLE_antisymm hxy hyx))

/-- What is read off edits has different paths if the edits have. -/
theorem nodup_map_fst_filterMap {read : Change → Option (IndexPath × ItemKey)}
    {path : Change → Option IndexPath} (hread : ∀ c x, read c = some x → path c = some x.1)
    (h : (changes.filterMap path).Nodup) : ((changes.filterMap read).map Prod.fst).Nodup := by
  refine List.pairwise_map.mpr (List.pairwise_filterMap.mpr ?_)
  refine (List.pairwise_filterMap.mp h).imp fun hne x hx y hy => ?_
  exact hne _ (hread _ x hx) _ (hread _ y hy)

theorem vacated?_of_removal? {c : Change} {x : IndexPath × ItemKey} (h : removal? c = some x) :
    c.vacated? = some x.1 := by
  unfold removal? at h
  split at h <;> cases h <;> rfl

theorem occupied?_of_insertion? {c : Change} {x : IndexPath × ItemKey}
    (h : insertion? c = some x) : c.occupied? = some x.1 := by
  unfold insertion? at h
  split at h <;> cases h <;> rfl

/-! ## Plans -/

theorem guardReloaded_congr {is js : List Nat} (h : is.Perm js) :
    guardReloaded is = guardReloaded js := by
  funext p
  simp only [guardReloaded, h.mem_iff]

theorem checks_of_mem_guardReloaded {is : List Nat} {p : IndexPath} {x : Step}
    (hx : x ∈ guardReloaded is p) : x.Checks := by
  unfold guardReloaded at hx
  split at hx
  · cases List.mem_singleton.mp hx
    trivial
  · cases hx

/-- The checks of rows with new values, on either side. -/
theorem checks_of_mem_refreshes {is : List Nat} {β : Type} {xs : List β} {path : β → IndexPath}
    {key : β → ItemKey} :
    ∀ x ∈ xs.flatMap fun y => guardReloaded is (path y) ++ [Step.expect (path y) (key y)],
      x.Checks := by
  intro x hx
  obtain ⟨y, -, hx⟩ := List.mem_flatMap.mp hx
  rcases List.mem_append.mp hx with hguard | hexpect
  · exact checks_of_mem_guardReloaded hguard
  · cases List.mem_singleton.mp hexpect
    trivial

/-- The plan of a permuted change list is alike. -/
theorem alike_plan (goal : SectionList) (h : changes.Perm changes')
    (hsources : (changes.filterMap Change.vacated?).Nodup)
    (htargets : (changes.filterMap Change.occupied?).Nodup) :
    Alike goal (plan changes goal) (plan changes' goal) := by
  have hremovals := h.filterMap removal?
  have hinsertions := h.filterMap insertion?
  have hrefreshes := h.filterMap refresh?
  have hdeleted := h.filterMap (sectionIndex? .delete)
  have hinserted := h.filterMap (sectionIndex? .insert)
  have htakes := mergeSort_paths_of_perm (fun p q => compare q p)
    (fun _ _ he => (IndexPath.eq_of_compare he).symm)
    (nodup_map_fst_filterMap (fun _ _ => vacated?_of_removal?) hsources) hremovals
  have hputs := mergeSort_paths_of_perm compare (fun _ _ => IndexPath.eq_of_compare)
    (nodup_map_fst_filterMap (fun _ _ => occupied?_of_insertion?) htargets) hinsertions
  have hdeletes : (changes.filterMap (sectionIndex? .delete)).mergeSort (fun i j => j ≤ i) =
      (changes'.filterMap (sectionIndex? .delete)).mergeSort fun i j => j ≤ i :=
    mergeSort_eq_of_perm (by grind) (by grind) (by grind) hdeleted
  have hinserts : (changes.filterMap (sectionIndex? .insert)).mergeSort (fun i j => i ≤ j) =
      (changes'.filterMap (sectionIndex? .insert)).mergeSort fun i j => i ≤ j :=
    mergeSort_eq_of_perm (by grind) (by grind) (by grind) hinserted
  simp only [plan]
  rw [htakes, hputs, hdeletes, hinserts, guardReloaded_congr hdeleted,
    guardReloaded_congr hinserted]
  -- what is left apart are the checks
  refine .append (.append (.append (.append (.append (.append (.append (.append ?_ ?_) ?_) .rfl)
    .rfl) .rfl) .rfl) ?_) .rfl
  · refine .of_perm (fun x hx => ?_) ((h.filter _).map _)
    obtain ⟨c, -, rfl⟩ := List.mem_map.mp hx
    trivial
  · refine .of_perm (fun x hx => ?_) (hremovals.flatMap_right _)
    obtain ⟨y, -, hx⟩ := List.mem_flatMap.mp hx
    exact checks_of_mem_guardReloaded hx
  · exact .of_perm checks_of_mem_refreshes (hrefreshes.flatMap_right _)
  · exact .of_perm checks_of_mem_refreshes (hrefreshes.flatMap_right _)

end SectionList

/-- **A change list is followed as a set of edits.**  Take any change list, whether or not it fits
and whatever else is wrong with it, in which no two edits take rows away at one path and no two put
rows in at one path.  From any display, on the way to any other one, each permutation of the list is
followed to the end if and only if the list is, and then to the same display. -/
theorem apply_of_reordered {l l' : ChangeList} (h : l.changes.Perm l'.changes)
    (hsources : (l.changes.filterMap Change.vacated?).Nodup)
    (htargets : (l.changes.filterMap Change.occupied?).Nodup) (pre goal : SectionList) :
    ((∃ post, pre.apply l goal = .ok post) ↔ ∃ post, pre.apply l' goal = .ok post) ∧
      ∀ post post', pre.apply l goal = .ok post → pre.apply l' goal = .ok post' → post = post' := by
  have halike := SectionList.alike_plan goal h hsources htargets pre
  refine ⟨exists_congr halike, fun post post' hpost hpost' => ?_⟩
  have hsame := (halike post).mp hpost
  rw [SectionList.apply, hsame] at hpost'
  exact Except.ok.inj hpost'

/-- The sample key with a name. -/
def letterKey (name : String) : ItemKey := ⟨"letters", name⟩

/-- Edits of every kind: among four letters in two sections one goes and one comes, one moves, one
has a new value, and the second section is replaced. -/
def letterEdits : ChangeList :=
  ⟨[.rowDelete (letterKey "b") ⟨0, 1⟩, .sectionDelete 1 ⟨"D"⟩, .sectionInsert 1 ⟨"F"⟩,
    .rowInsert (letterKey "e") ⟨0, 2⟩, .rowMove (letterKey "c") ⟨0, 2⟩ ⟨0, 0⟩,
    .rowUpdate (letterKey "a") ⟨0, 0⟩ ⟨0, 1⟩]⟩

/-- The sections before these edits. -/
def lettersBefore : SectionList :=
  [⟨⟨"A"⟩, [letterKey "a", letterKey "b", letterKey "c"]⟩, ⟨⟨"D"⟩, [letterKey "d"]⟩]

/-- The sections after these edits. -/
def lettersAfter : SectionList :=
  [⟨⟨"A"⟩, [letterKey "c", letterKey "a", letterKey "e"]⟩, ⟨⟨"F"⟩, [letterKey "f"]⟩]

/-- Listed the other way round, the edits still lead to the sections after them. -/
theorem letterEdits_reversed :
    (letterEdits.changes.filterMap Change.vacated?).Nodup ∧
    (letterEdits.changes.filterMap Change.occupied?).Nodup ∧
    lettersBefore.apply ⟨letterEdits.changes.reverse⟩ lettersAfter = .ok lettersAfter := by
  have hsources : (letterEdits.changes.filterMap Change.vacated?).Nodup := by decide
  have htargets : (letterEdits.changes.filterMap Change.occupied?).Nodup := by decide
  have hlisted : lettersBefore.apply letterEdits lettersAfter = .ok lettersAfter := by cbv
  have hreversed : letterEdits.changes.Perm
    (⟨letterEdits.changes.reverse⟩ : ChangeList).changes := (List.reverse_perm _).symm
  obtain ⟨haccepted, hsame⟩ :=
    apply_of_reordered hreversed hsources htargets lettersBefore lettersAfter
  obtain ⟨post, hpost⟩ := haccepted.mp ⟨_, hlisted⟩
  refine ⟨hsources, htargets, ?_⟩
  rw [hpost, hsame _ _ hlisted hpost]

-- two removals at one path follow each other in the order of the list
example :
    SectionList.apply [⟨⟨"A"⟩, [letterKey "a", letterKey "b"]⟩]
        ⟨[.rowDelete (letterKey "a") ⟨0, 0⟩, .rowDelete (letterKey "b") ⟨0, 0⟩]⟩ [] =
      .ok [⟨⟨"A"⟩, []⟩] ∧
    SectionList.apply [⟨⟨"A"⟩, [letterKey "a", letterKey "b"]⟩]
        ⟨[.rowDelete (letterKey "b") ⟨0, 0⟩, .rowDelete (letterKey "a") ⟨0, 0⟩]⟩ [] =
      .error ⟨.wrongKey ⟨0, 0⟩ (letterKey "b") (letterKey "a"),
        [⟨⟨"A"⟩, [letterKey "a", letterKey "b"]⟩]⟩ :=
  ⟨by cbv, by cbv⟩

end GroupedView
