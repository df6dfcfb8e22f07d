import GroupedView.Proofs.Sequence
import GroupedView.SectionList

/-!
# GroupedView.Proofs.SectionList — taking rows and sections out, and putting them back

Taking out in descending order everything that fails a test leaves what passes it
(`run_takeRows`, `run_takeSections`).  Putting the same things in again in ascending order undoes
this (`run_putRows`, `run_putSections`).
-/

open Std

namespace GroupedView

namespace IndexPath

theorem compare_def (p q : IndexPath) : compare p q =
    (compare p.sectionIndex q.sectionIndex).then (compare p.row q.row) := rfl

theorem compare_eq_lt_iff {p q : IndexPath} : compare p q = .lt ↔
    p.sectionIndex < q.sectionIndex ∨ p.sectionIndex = q.sectionIndex ∧ p.row < q.row := by
  rw [compare_def, Ordering.then_eq_lt, Nat.compare_eq_lt, Nat.compare_eq_eq, Nat.compare_eq_lt]

theorem eq_of_compare {p q : IndexPath} (h : compare p q = .eq) : p = q := by
  rw [compare_def, Ordering.then_eq_eq, Nat.compare_eq_eq, Nat.compare_eq_eq] at h
  cases p
  cases q
  rw [mk.injEq]
  exact h

end IndexPath

/-- The rows of a section that pass a test of their group and key. -/
def Section.restrict (keep : GroupId → ItemKey → Bool) (s : Section) : Section :=
  { s with keys := s.keys.filter (keep s.group) }

namespace SectionList

variable {goal l l' : SectionList} {keep : GroupId → ItemKey → Bool}

/-- The group and the key of the row at a path. -/
def rowAt? (l : SectionList) (p : IndexPath) : Option (GroupId × ItemKey) :=
  l[p.sectionIndex]?.bind fun s => s.keys[p.row]?.map (s.group, ·)

theorem keyAt?_eq_of_rowAt? {p : IndexPath} {g : GroupId} {k : ItemKey}
    (h : l.rowAt? p = some (g, k)) : l.keyAt? p = some k := by
  obtain ⟨s, hs, h⟩ := Option.bind_eq_some_iff.mp h
  obtain ⟨k', hk, he⟩ := Option.map_eq_some_iff.mp h
  cases he
  rw [keyAt?, hs, Option.bind_some, hk]

theorem exists_rowAt? {p : IndexPath} {k : ItemKey} (h : l.keyAt? p = some k) :
    ∃ g, l.rowAt? p = some (g, k) := by
  obtain ⟨s, hs, hk⟩ := Option.bind_eq_some_iff.mp h
  refine ⟨s.group, ?_⟩
  rw [rowAt?, hs, Option.bind_some, hk]
  rfl

/-! ## Rows -/

/-- The sections without the row at a path. -/
def eraseRow (l : SectionList) (p : IndexPath) : SectionList :=
  l.modifyKeys p.sectionIndex (·.eraseIdx p.row)

theorem getElem?_eraseRow {p : IndexPath} (i : Nat) :
    (l.eraseRow p)[i]? = l[i]?.map fun s =>
      if p.sectionIndex = i then { s with keys := s.keys.eraseIdx p.row } else s := by
  rw [eraseRow, modifyKeys, List.getElem?_modify]
  cases l[i]? with
  | none => rfl
  | some s =>
    by_cases hi : p.sectionIndex = i
    · simp [hi]
    · simp [hi]

theorem rowAt?_eraseRow {p q : IndexPath} :
    (l.eraseRow p).rowAt? q =
      if p.sectionIndex = q.sectionIndex ∧ p.row ≤ q.row then
        l.rowAt? ⟨q.sectionIndex, q.row + 1⟩
      else l.rowAt? q := by
  rw [rowAt?, getElem?_eraseRow, rowAt?, rowAt?]
  cases l[q.sectionIndex]? with
  | none => simp
  | some s =>
    by_cases hs : p.sectionIndex = q.sectionIndex
    · by_cases hr : p.row ≤ q.row
      · simp [hs, hr, List.getElem?_eraseIdx_of_ge hr]
      · simp [hs, hr, List.getElem?_eraseIdx_of_lt (Nat.lt_of_not_le hr)]
    · simp [hs]

theorem perform_takeRow {p : IndexPath} {k : ItemKey} (h : l.keyAt? p = some k) :
    (Step.takeRow p k).perform goal l = .ok (l.eraseRow p) := by
  simp only [Step.perform, expectKey, h, if_pos]
  rfl

/-- A row that fails the test may be taken out before the others. -/
theorem map_restrict_eraseRow {p : IndexPath} {g : GroupId} {k : ItemKey}
    (h : l.rowAt? p = some (g, k)) (hk : keep g k = false) :
    (l.eraseRow p).map (Section.restrict keep) = l.map (Section.restrict keep) := by
  refine List.ext_getElem? fun i => ?_
  rw [List.getElem?_map, List.getElem?_map, getElem?_eraseRow]
  obtain ⟨s, hs, h⟩ := Option.bind_eq_some_iff.mp h
  obtain ⟨k', hk', he⟩ := Option.map_eq_some_iff.mp h
  cases he
  by_cases hi : p.sectionIndex = i
  · subst hi
    rw [hs]
    simp only [Option.map_some, if_pos, Section.restrict, filter_eraseIdx_of_neg hk' hk]
  · simp [hi]

theorem map_restrict_eq_self (h : ∀ p g k, l.rowAt? p = some (g, k) → keep g k = true) :
    l.map (Section.restrict keep) = l := by
  refine (List.map_congr_left fun s hs => ?_).trans (List.map_id l)
  obtain ⟨i, hi⟩ := List.mem_iff_getElem?.mp hs
  rw [Section.restrict, List.filter_eq_self.mpr]
  · rfl
  · intro k hk
    obtain ⟨j, hj⟩ := List.mem_iff_getElem?.mp hk
    refine h ⟨i, j⟩ s.group k ?_
    rw [rowAt?, hi, Option.bind_some, hj]
    rfl

/-- Taking out, from the last path on, all rows that fail a test leaves those that pass it. -/
theorem run_takeRows {ps : List (IndexPath × ItemKey)}
    (hdesc : ps.Pairwise fun x y => compare y.1 x.1 = .lt)
    (hps : ∀ p k, (p, k) ∈ ps ↔ ∃ g, l.rowAt? p = some (g, k) ∧ keep g k = false) :
    run goal (ps.map fun (p, k) => .takeRow p k) l = .ok (l.map (Section.restrict keep)) := by
  induction ps generalizing l with
  | nil =>
    rw [List.map_nil, run_nil, map_restrict_eq_self]
    intro p g k hp
    by_contra hk
    exact List.not_mem_nil ((hps p k).mpr ⟨g, hp, Bool.eq_false_iff.mpr hk⟩)
  | cons x ps ih =>
    obtain ⟨p, k⟩ := x
    obtain ⟨hlast, hdesc⟩ := List.pairwise_cons.mp hdesc
    obtain ⟨g, hp, hk⟩ := (hps p k).mp List.mem_cons_self
    have hbefore : ∀ q k', (q, k') ∈ ps →
        q.sectionIndex < p.sectionIndex ∨ q.sectionIndex = p.sectionIndex ∧ q.row < p.row :=
      fun q k' hq => IndexPath.compare_eq_lt_iff.mp (hlast (q, k') hq)
    rw [List.map_cons, run, perform_takeRow (keyAt?_eq_of_rowAt? hp)]
    dsimp only
    rw [ih hdesc, map_restrict_eraseRow hp hk]
    intro q k'
    rw [rowAt?_eraseRow]
    split
    · next hq =>
      -- rows after the one taken out were taken out before it
      refine ⟨fun hmem => ?_, fun hrow => ?_⟩
      · have hlt := hbefore q k' hmem
        omega
      · rcases List.mem_cons.mp ((hps _ k').mpr hrow) with he | hmem
        · cases he
          simp only at hq
          omega
        · have hlt := hbefore _ k' hmem
          simp only at hlt
          omega
    · next hq =>
      rw [← hps q k', List.mem_cons]
      refine ⟨.inr, fun hmem => hmem.resolve_left fun he => ?_⟩
      cases he
      exact hq ⟨rfl, Nat.le_refl _⟩

theorem perform_putRow {p : IndexPath} {g : GroupId} {k : ItemKey} (h : l.rowAt? p = some (g, k)) :
    (Step.putRow p k).perform goal (l.eraseRow p) = .ok l := by
  obtain ⟨s, hs, h⟩ := Option.bind_eq_some_iff.mp h
  obtain ⟨k', hk, he⟩ := Option.map_eq_some_iff.mp h
  cases he
  have hlt := (List.getElem?_eq_some_iff.mp hk).1
  simp only [Step.perform, getElem?_eraseRow, hs, Option.map_some, if_pos]
  rw [if_pos (by rw [List.length_eraseIdx_of_lt hlt]; omega)]
  congr 1
  refine List.ext_getElem? fun i => ?_
  rw [modifyKeys, List.getElem?_modify, getElem?_eraseRow]
  by_cases hi : p.sectionIndex = i
  · subst hi
    rw [hs]
    simp only [if_pos, Option.map_some, Option.map_eq_map, insertIdx_eraseIdx_of_getElem? hk]
  · simp [hi]

theorem perform_takeRow_eq_ok {p : IndexPath} {k : ItemKey}
    (h : (Step.takeRow p k).perform goal l = .ok l') :
    l' = l.eraseRow p ∧ ∃ g, l.rowAt? p = some (g, k) := by
  simp only [Step.perform, expectKey] at h
  cases hk : l.keyAt? p with
  | none => rw [hk] at h; cases h
  | some found =>
    rw [hk] at h
    by_cases he : found = k
    · subst he
      simp only [if_pos] at h
      cases h
      exact ⟨rfl, exists_rowAt? hk⟩
    · simp only [if_neg he] at h
      cases h

/-- Rows that were taken out come back when they are put in the other way round. -/
theorem run_putRows {ps : List (IndexPath × ItemKey)}
    (h : run goal (ps.map fun (p, k) => .takeRow p k) l = .ok l') :
    run goal (ps.reverse.map fun (p, k) => .putRow p k) l' = .ok l := by
  induction ps generalizing l with
  | nil => rw [List.map_nil, run_nil] at h; cases h; rfl
  | cons x ps ih =>
    obtain ⟨p, k⟩ := x
    rw [List.map_cons, run] at h
    cases hx : (Step.takeRow p k).perform goal l with
    | error cause => rw [hx] at h; cases h
    | ok w =>
      rw [hx] at h
      obtain ⟨rfl, g, hg⟩ := perform_takeRow_eq_ok hx
      rw [List.reverse_cons, List.map_append, run_append, ih h]
      simp only [Except.bind, List.map_cons, List.map_nil, run, perform_putRow hg]

/-! ## Sections -/

/-- Taking out, from the last index on, all sections that fail a test leaves those that pass
it. -/
theorem run_takeSections {keep : Section → Bool} {is : List Nat} (hdesc : is.Pairwise (· > ·))
    (his : ∀ i, i ∈ is ↔ ∃ s, l[i]? = some s ∧ keep s = false) :
    run goal (is.map .takeSection) l = .ok (l.filter keep) := by
  induction is generalizing l with
  | nil =>
    rw [List.map_nil, run_nil, List.filter_eq_self.mpr]
    intro s hs
    obtain ⟨i, hi⟩ := List.mem_iff_getElem?.mp hs
    by_contra hk
    exact List.not_mem_nil ((his i).mpr ⟨s, hi, Bool.eq_false_iff.mpr hk⟩)
  | cons i is ih =>
    obtain ⟨hlast, hdesc⟩ := List.pairwise_cons.mp hdesc
    obtain ⟨s, hs, hk⟩ := (his i).mp List.mem_cons_self
    rw [List.map_cons, run]
    simp only [Step.perform, if_pos (List.getElem?_eq_some_iff.mp hs).1]
    rw [ih hdesc, filter_eraseIdx_of_neg hs hk]
    intro j
    rcases Nat.lt_or_ge j i with hj | hj
    · rw [List.getElem?_eraseIdx_of_lt hj, ← his j, List.mem_cons]
      exact ⟨.inr, fun hmem => hmem.resolve_left (Nat.ne_of_lt hj)⟩
    · rw [List.getElem?_eraseIdx_of_ge hj, ← his (j + 1), List.mem_cons]
      refine ⟨fun hmem => ?_, fun hmem => ?_⟩
      · have hlt := hlast j hmem
        omega
      · rcases hmem with he | hmem
        · omega
        · have hlt := hlast (j + 1) hmem
          omega

/-- Sections that were taken out and are as in the display aimed at come back when they are put
in the other way round. -/
theorem run_putSections {is : List Nat} (hdesc : is.Pairwise (· > ·))
    (hgoal : ∀ i ∈ is, goal[i]? = l[i]?)
    (h : run goal (is.map .takeSection) l = .ok l') :
    run goal (is.reverse.map .putSection) l' = .ok l := by
  induction is generalizing l with
  | nil => rw [List.map_nil, run_nil] at h; cases h; rfl
  | cons i is ih =>
    obtain ⟨hlast, hdesc⟩ := List.pairwise_cons.mp hdesc
    rw [List.map_cons, run] at h
    by_cases hi : i < l.length
    · simp only [Step.perform, if_pos hi] at h
      have hs : l[i]? = some l[i] := List.getElem?_eq_getElem hi
      have hrest : ∀ j ∈ is, goal[j]? = (l.eraseIdx i)[j]? := by
        intro j hj
        rw [List.getElem?_eraseIdx_of_lt (hlast j hj)]
        exact hgoal j (List.mem_cons_of_mem i hj)
      rw [List.reverse_cons, List.map_append, run_append, ih hdesc hrest h]
      have hle : i ≤ (l.eraseIdx i).length := by
        rw [List.length_eraseIdx_of_lt hi]
        omega
      simp only [Except.bind, List.map_cons, List.map_nil, run, Step.perform,
        (hgoal i List.mem_cons_self).trans hs, if_pos hle, insertIdx_eraseIdx_of_getElem? hs]
    · simp only [Step.perform, if_neg hi] at h
      cases h

/-! ## The plan of a change list -/

/-- Steps are performed one part after the other. -/
theorem run_append_of_ok {s t : List Step} {res : Except Stopped SectionList}
    (hs : run goal s l = .ok l') (ht : run goal t l' = res) : run goal (s ++ t) l = res := by
  rw [run_append, hs]
  exact ht

/-- Steps that change nothing where they are performed. -/
theorem run_of_perform_eq {steps : List Step} (h : ∀ s ∈ steps, s.perform goal l = .ok l) :
    run goal steps l = .ok l := by
  induction steps with
  | nil => rfl
  | cons s steps ih =>
    rw [run, h s List.mem_cons_self]
    exact ih fun s hs => h s (List.mem_cons_of_mem _ hs)

/-- Rows that are where they are expected. -/
theorem run_expects {α : Type} {xs : List α} {path : α → IndexPath} {key : α → ItemKey}
    (h : ∀ x ∈ xs, l.keyAt? (path x) = some (key x)) :
    run goal (xs.map fun x => .expect (path x) (key x)) l = .ok l := by
  refine run_of_perform_eq fun s hs => ?_
  obtain ⟨x, hx, rfl⟩ := List.mem_map.mp hs
  simp only [Step.perform, expectKey, h x hx, if_pos]
  rfl

theorem run_expectGroups :
    run goal (goal.zipIdx.map fun (s, i) => .expectGroup i s.group) goal = .ok goal := by
  refine run_of_perform_eq fun x hx => ?_
  obtain ⟨⟨s, i⟩, hs, rfl⟩ := List.mem_map.mp hx
  simp only [Step.perform, List.mem_zipIdx_iff_getElem?.mp hs, if_pos]

theorem guardReloaded_eq_nil {reloaded : List Nat} {p : IndexPath}
    (h : p.sectionIndex ∉ reloaded) : guardReloaded reloaded p = [] := if_neg h

theorem flatMap_guardReloaded {β : Type} {reloaded : List Nat} {xs : List β}
    {step : β → Step} (path : β → IndexPath) (h : ∀ x ∈ xs, (path x).sectionIndex ∉ reloaded) :
    (xs.flatMap fun x => guardReloaded reloaded (path x) ++ [step x]) = xs.map step := by
  rw [List.map_eq_flatMap]
  refine List.flatMap_congr fun x hx => ?_
  rw [guardReloaded_eq_nil (h x hx), List.nil_append]

/-- The plan of well-formed edits that leave the rows of sections that come or go alone. -/
theorem plan_eq (goal : SectionList) {changes : List Change}
    (hwf : ∀ c ∈ changes, wellFormed c = true)
    (hremoval : ∀ x ∈ changes.filterMap removal?,
      x.1.sectionIndex ∉ changes.filterMap (sectionIndex? .delete))
    (hinsertion : ∀ x ∈ changes.filterMap insertion?,
      x.1.sectionIndex ∉ changes.filterMap (sectionIndex? .insert))
    (hsource : ∀ x ∈ changes.filterMap refresh?,
      x.1.sectionIndex ∉ changes.filterMap (sectionIndex? .delete))
    (htarget : ∀ x ∈ changes.filterMap refresh?,
      x.2.1.sectionIndex ∉ changes.filterMap (sectionIndex? .insert)) :
    plan changes goal =
      ((changes.filterMap refresh?).map fun (p, _, k) => .expect p k)
        ++ (((changes.filterMap removal?).mergeSort fun x y => (compare y.1 x.1).isLE).map
          fun (p, k) => .takeRow p k)
        ++ (((changes.filterMap (sectionIndex? .delete)).mergeSort fun i j => j ≤ i).map
          .takeSection)
        ++ (((changes.filterMap (sectionIndex? .insert)).mergeSort fun i j => i ≤ j).map
          .putSection)
        ++ (((changes.filterMap insertion?).mergeSort fun x y => (compare x.1 y.1).isLE).map
          fun (q, k) => .putRow q k)
        ++ ((changes.filterMap refresh?).map fun (_, q, k) => .expect q k)
        ++ (goal.zipIdx.map fun (s, i) => .expectGroup i s.group) := by
  have hmalformed : changes.filter (!wellFormed ·) = [] :=
    List.filter_eq_nil_iff.mpr fun c hc => by simp [hwf c hc]
  have hguards : ((changes.filterMap removal?).flatMap fun (p, _) =>
      guardReloaded (changes.filterMap (sectionIndex? .delete)) p) = [] :=
    List.flatMap_eq_nil_iff.mpr fun x hx => guardReloaded_eq_nil (hremoval x hx)
  have hsources : ((changes.filterMap refresh?).flatMap fun (p, _, k) =>
      guardReloaded (changes.filterMap (sectionIndex? .delete)) p ++ [Step.expect p k]) =
      (changes.filterMap refresh?).map fun (p, _, k) => .expect p k := by
    exact flatMap_guardReloaded Prod.fst hsource
  have htargets : ((changes.filterMap refresh?).flatMap fun (_, q, k) =>
      guardReloaded (changes.filterMap (sectionIndex? .insert)) q ++ [Step.expect q k]) =
      (changes.filterMap refresh?).map fun (_, q, k) => .expect q k := by
    exact flatMap_guardReloaded (fun x : IndexPath × IndexPath × ItemKey => x.2.1) htarget
  have hputs : (((changes.filterMap insertion?).mergeSort fun x y =>
      (compare x.1 y.1).isLE).flatMap fun (q, k) =>
        guardReloaded (changes.filterMap (sectionIndex? .insert)) q ++ [Step.putRow q k]) =
      ((changes.filterMap insertion?).mergeSort fun x y => (compare x.1 y.1).isLE).map
        fun (q, k) => .putRow q k := by
    exact flatMap_guardReloaded Prod.fst
      fun x hx => hinsertion x (List.mem_mergeSort.mp hx)
  simp only [plan, hmalformed, hguards, hsources, htargets, hputs, List.map_nil, List.nil_append]

end SectionList

end GroupedView
