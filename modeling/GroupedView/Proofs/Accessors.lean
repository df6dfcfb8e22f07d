import GroupedView.Proofs.Connection
import Mathlib.Data.List.Flatten

/-!
# GroupedView.Proofs.Accessors — what a connection says about its display

A display is read through paths, through keys and as a list of sections.  Whatever the functions of
the view answer, these readings agree: `Display.pathOf?` is the path of a key, read off the rows,
and the one that a connection finds for it (`Connection.run_indexPathOf`).

* `accessors_agree`: the path of a key and the key at a path are inverse to each other, sections
  have the rows that are found in them one by one, and a key with a row is on display if its group
  is listed.
-/

open MonadAttach (CanReturn)
open LawfulMonadAttach

namespace GroupedView

namespace Display

variable {S : Type} {d : Display S} {k : ItemKey} {p : IndexPath} {g : GroupId}

/-! ## Sections -/

theorem nodup_visible : d.visible.Nodup := d.mapping.visible_nodup _

theorem mem_visible_of_length_pos (hg : 0 < d.view.length g) :
    g ∈ d.visible ↔ g ∈ d.mapping.groups := by
  rw [visible, Mapping.visible, List.mem_filter, and_iff_left]
  rw [Bool.or_eq_true, decide_eq_true_eq]
  exact .inr hg

theorem getElem?_sections (i : Nat) :
    d.sections[i]? = d.visible[i]?.map fun g => ⟨g, d.view.keys g⟩ :=
  List.getElem?_map

theorem nodup_map_group_sections : (d.sections.map Section.group).Nodup := by
  have hgroups : d.sections.map Section.group = d.visible := View.map_group_sections _ _
  rw [hgroups]
  exact nodup_visible

/-- A section has the rows that are found in it one by one. -/
theorem rows_of_getElem?_sections {i : Nat} {s : Section} (hs : d.sections[i]? = some s) :
    d.rowsIn? i = some s.keys.length ∧ ∀ j, s.keys[j]? = d.keyAt? ⟨i, j⟩ := by
  rw [getElem?_sections] at hs
  obtain ⟨g, hg, rfl⟩ := Option.map_eq_some_iff.mp hs
  constructor
  · rw [rowsIn?, hg, Option.map_some, View.length, View.keys, List.length_map]
  · intro j
    rw [keyAt?, hg, Option.bind_some]
    rfl

/-- No key is shown twice. -/
theorem nodup_keys_sections (hd : d.view.WellFormed) : (d.sections.flatMap Section.keys).Nodup := by
  rw [sections, List.flatMap_map, List.nodup_flatMap]
  refine ⟨fun g _ => hd.keys_nodup g, nodup_visible.imp fun {g g'} hne k hk hk' => ?_⟩
  rw [hd.mem_keys_iff_groupOf?] at hk hk'
  exact hne (Option.some.inj (hk.symm.trans hk'))

/-! ## Keys and paths -/

theorem keyAt?_eq_some_iff : d.keyAt? p = some k ↔
    ∃ g, d.visible[p.sectionIndex]? = some g ∧ d.view.keyAt? ⟨g, p.row⟩ = some k :=
  Option.bind_eq_some_iff

/-- There is a key at the paths within the sections. -/
theorem isSome_keyAt?_iff : (d.keyAt? p).isSome = true ↔
    p.sectionIndex < d.sectionCount ∧ ∃ n, d.rowsIn? p.sectionIndex = some n ∧ p.row < n := by
  rw [keyAt?, rowsIn?, sectionCount]
  cases hg : d.visible[p.sectionIndex]? with
  | none => simp
  | some g =>
    have hin : p.sectionIndex < d.visible.length := (List.getElem?_eq_some_iff.mp hg).1
    simp [hin, View.keyAt?, View.keys, View.length]

/-- The path of a key, read off the rows. -/
def pathOf? (d : Display S) (k : ItemKey) : Option IndexPath :=
  (d.view.locate k).bind fun q => (d.visible.idxOf? q.group).map (⟨·, q.index⟩)

theorem pathOf?_eq_some_iff (hd : d.view.WellFormed) :
    d.pathOf? k = some p ↔ d.keyAt? p = some k := by
  rw [keyAt?_eq_some_iff]
  constructor
  · intro h
    obtain ⟨q, hq, h⟩ := Option.bind_eq_some_iff.mp h
    obtain ⟨i, hi, rfl⟩ := Option.map_eq_some_iff.mp h
    exact ⟨q.group, (idxOf?_eq_some_iff_of_nodup nodup_visible).mp hi,
      hd.locate_eq_some_iff.mp hq⟩
  · rintro ⟨g, hg, hk⟩
    have hi := (idxOf?_eq_some_iff_of_nodup nodup_visible).mpr hg
    rw [pathOf?, hd.locate_eq_some_iff.mpr hk, Option.bind_some, hi]
    rfl

/-- A key with a row has a path if its group is listed. -/
theorem isSome_pathOf?_iff (hd : d.view.WellFormed) (hk : d.view.groupOf? k = some g) :
    (d.pathOf? k).isSome = true ↔ d.mapping.contains g = true := by
  have hmem : k ∈ d.view.keys g := hd.mem_keys_iff_groupOf?.mpr hk
  obtain ⟨i, hi⟩ := View.mem_keys_iff.mp hmem
  have hlength : 0 < d.view.length g := by
    rw [View.length, ← List.length_map, ← View.keys]
    exact List.length_pos_of_mem hmem
  rw [pathOf?, hd.locate_eq_some_iff.mpr hi, Option.bind_some, Option.isSome_map,
    List.isSome_idxOf?, mem_visible_of_length_pos hlength, Mapping.contains, decide_eq_true_eq]

/-- What is found for a key does not depend on the comparison. -/
theorem eq_pathOf?_of_canReturn_indexPathOf {m : Type → Type} [Monad m] [LawfulMonad m]
    [MonadAttach m] [LawfulMonadAttach m] {V : Type} {a : Arrangement m V S}
    (hd : d.view.WellFormed) {o : Option IndexPath} (h : CanReturn (d.indexPathOf a k) o) :
    o = d.pathOf? k := by
  unfold indexPathOf at h
  obtain ⟨q, hq, h⟩ := canReturn_bind_imp' h
  rw [pathOf?, ← View.eq_locate_of_canReturn_positionOf hd hq]
  cases q with
  | none => exact (eq_of_canReturn_pure h).symm
  | some q => exact (eq_of_canReturn_pure h).symm

end Display

theorem Connection.run_indexPathOf {S σ V : Type} [BEq S] {a : Arrangement (Script σ V) V S}
    {w : Connection S × σ} (hw : w.1.display.view.WellFormed) (k : ItemKey) :
    ((indexPathOf a k).run w).1 = w.1.display.pathOf? k := by
  have hrun : ((indexPathOf a k).run w).1 =
    ((w.1.display.indexPathOf a k).detached.run w.2).1 := rfl
  have hends : (w.1.display.indexPathOf a k).Ends
    ((w.1.display.indexPathOf a k).detached.run w.2).1 := Script.ends_run _ _
  rw [hrun]
  exact Display.eq_pathOf?_of_canReturn_indexPathOf (m := Script σ V) hw hends

/-- **The accessors agree.**  Whatever its functions answer, in each connection that can come about:
the path found for a key is the one where the key is; there is a key at the paths within the
sections and nowhere else; sections are of different groups, and each has as many rows as are
counted in it and the keys that are at its paths; no key is shown twice; and a key with a row is
shown exactly if its group is listed in the mapping. -/
theorem accessors_agree {S σ V : Type} [BEq S] {a : Arrangement (Script σ V) V S}
    {w : Connection S × σ} (hw : Connection.Reachable a w) :
    (∀ k p, ((Connection.indexPathOf a k).run w).1 = some p ↔ w.1.display.keyAt? p = some k) ∧
    (∀ p, (w.1.display.keyAt? p).isSome = true ↔ p.sectionIndex < w.1.display.sectionCount ∧
      ∃ n, w.1.display.rowsIn? p.sectionIndex = some n ∧ p.row < n) ∧
    w.1.display.sections.length = w.1.display.sectionCount ∧
    (w.1.display.sections.map Section.group).Nodup ∧
    (∀ i s, w.1.display.sections[i]? = some s →
      w.1.display.rowsIn? i = some s.keys.length ∧
      ∀ j, s.keys[j]? = w.1.display.keyAt? ⟨i, j⟩) ∧
    (w.1.display.sections.flatMap Section.keys).Nodup ∧
    ∀ k g, w.1.display.view.groupOf? k = some g →
      (((Connection.indexPathOf a k).run w).1.isSome = true ↔
        w.1.display.mapping.contains g = true) := by
  have hd := hw.wellFormed
  refine ⟨fun k p => ?_, fun p => Display.isSome_keyAt?_iff, List.length_map _,
    Display.nodup_map_group_sections, fun i s => Display.rows_of_getElem?_sections,
    Display.nodup_keys_sections hd, fun k g hk => ?_⟩
  · rw [Connection.run_indexPathOf hd]
    exact Display.pathOf?_eq_some_iff hd
  · rw [Connection.run_indexPathOf hd]
    exact Display.isSome_pathOf?_iff hd hk

/-- The rows of the numbers one to three are out of order, and yet each has the path that it is
shown at; zero has none. -/
theorem waveringConnection_paths :
    Connection.Reachable (wavering (Script Nat Nat)) waveringConnection ∧
    waveringConnection.1.display.sections =
      [⟨⟨"0"⟩, [waveringKey "b", waveringKey "c", waveringKey "a"]⟩, ⟨⟨"1"⟩, [waveringKey "e"]⟩] ∧
    ((Connection.indexPathOf (wavering (Script Nat Nat)) (waveringKey "a")).run
      waveringConnection).1 = some ⟨0, 2⟩ ∧
    ((Connection.indexPathOf (wavering (Script Nat Nat)) (waveringKey "e")).run
      waveringConnection).1.isSome = true ∧
    ((Connection.indexPathOf (wavering (Script Nat Nat)) (waveringKey "d")).run
      waveringConnection).1 ≠ some ⟨0, 0⟩ := by
  have hw : Connection.Reachable (wavering (Script Nat Nat)) waveringConnection :=
    .opened (Prod.ext (eq_ok_getD_of_isOk (by decide +kernel) _) rfl)
  obtain ⟨hinverse, -, -, -, -, -, hlisted⟩ := accessors_agree hw
  refine ⟨hw, by decide +kernel, ?_, ?_, fun hpath => ?_⟩
  · exact (hinverse (waveringKey "a") ⟨0, 2⟩).mpr (by decide +kernel)
  · exact (hlisted (waveringKey "e") ⟨"1"⟩ (by decide +kernel)).mpr (by decide +kernel)
  · have hkey := (hinverse (waveringKey "d") ⟨0, 0⟩).mp hpath
    exact absurd hkey (by decide +kernel)

end GroupedView
