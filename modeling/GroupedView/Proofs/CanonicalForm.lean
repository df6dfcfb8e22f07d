import GroupedView.Proofs.Connection

/-!
# GroupedView.Proofs.CanonicalForm — the order and the reach of the edits of a batch

`ChangeList.Canonical` collects what can be said of a change list by looking at it and at the
sections before and after: its six blocks in their order, no path and no key twice, paths that hold
the keys they are given for, and no row edited in a section that comes or goes.
`changeList_canonical` says that every answer of a connection is of this form.

Strict order is more than sorting gives.  It rests on one fact about each side of a batch: a path
holds one key, and the net changes name each key once (`Side.nodup_filterMap_paths`).
-/

open Std

namespace GroupedView

/-! ## Reading a change list -/

namespace Change

/-- The path in the display before all edits. -/
def source? : Change → Option IndexPath
  | ofSection .. => none
  | ofRow _ _ source _ => source

/-- The path in the display after all edits. -/
def target? : Change → Option IndexPath
  | ofSection .. => none
  | ofRow _ _ _ target => target

/-- What is edited, and how. -/
def kind : Change → SectionEdit ⊕ RowEdit
  | ofSection e _ _ => .inl e
  | ofRow e _ _ _ => .inr e

/-- What happens to the section of a group. -/
def sectionEdit? (g : GroupId) : Change → Option SectionEdit
  | ofSection e _ g' => if g' = g then some e else none
  | ofRow .. => none

end Change

namespace ChangeList

variable (l : ChangeList)

/-- The edits of rows of one kind. -/
def rowsBy (e : RowEdit) : List Change := l.changes.filter (·.kind = .inr e)

/-- The edits of sections of one kind. -/
def sectionsBy (e : SectionEdit) : List Change := l.changes.filter (·.kind = .inl e)

/-- The sections that are edited in one way. -/
def sectionIndices (e : SectionEdit) : List Nat :=
  l.changes.filterMap (SectionList.sectionIndex? e)

/-- What happens to the section of a group, in order. -/
def sectionEdits (g : GroupId) : List SectionEdit := l.changes.filterMap (Change.sectionEdit? g)

/-- The canonical form of the edits that lead from some sections to others. -/
structure Canonical (before after : SectionList) : Prop where
  /-- Rows that go, sections that go, sections that come, rows that come, rows that move, rows
  with new values. -/
  in_order : l.changes = l.rowsBy .delete ++ l.sectionsBy .delete ++ l.sectionsBy .insert
    ++ l.rowsBy .insert ++ l.rowsBy .move ++ l.rowsBy .update
  /-- Each edit has the paths that go with its kind. -/
  wellFormed : ∀ x ∈ l.changes, SectionList.wellFormed x = true
  deletes_down : ((l.rowsBy .delete).filterMap Change.source?).Pairwise
    fun p q => compare q p = .lt
  sectionDeletes_down : (l.sectionIndices .delete).Pairwise (· > ·)
  sectionInserts_up : (l.sectionIndices .insert).Pairwise (· < ·)
  inserts_up : ((l.rowsBy .insert).filterMap Change.target?).Pairwise fun p q => compare p q = .lt
  moves_up : ((l.rowsBy .move).filterMap Change.target?).Pairwise fun p q => compare p q = .lt
  updates_up : ((l.rowsBy .update).filterMap Change.source?).Pairwise fun p q => compare p q = .lt
  keys_nodup : (l.changes.filterMap Change.key?).Nodup
  sources_nodup : (l.changes.filterMap Change.source?).Nodup
  targets_nodup : (l.changes.filterMap Change.target?).Nodup
  /-- A source holds the key before. -/
  source_at : ∀ x ∈ l.changes, ∀ p, x.source? = some p → before.keyAt? p = x.key?
  /-- A target holds the key after. -/
  target_at : ∀ x ∈ l.changes, ∀ q, x.target? = some q → after.keyAt? q = x.key?
  source_apart : ∀ p ∈ l.changes.filterMap Change.source?,
    p.sectionIndex ∉ l.sectionIndices .delete
  target_apart : ∀ q ∈ l.changes.filterMap Change.target?,
    q.sectionIndex ∉ l.sectionIndices .insert
  /-- A section that goes is the one shown there before. -/
  group_before : ∀ i g, .sectionDelete i g ∈ l.changes → (before.map Section.group)[i]? = some g
  /-- A section that comes is the one shown there after. -/
  group_after : ∀ i g, .sectionInsert i g ∈ l.changes → (after.map Section.group)[i]? = some g
  group_gone : ∀ g ∈ before.map Section.group, g ∉ after.map Section.group →
    l.sectionEdits g = [.delete]
  group_new : ∀ g ∈ after.map Section.group, g ∉ before.map Section.group →
    l.sectionEdits g = [.insert]
  /-- A group shown on both sides keeps its section or has it replaced. -/
  group_kept : ∀ g ∈ before.map Section.group, g ∈ after.map Section.group →
    l.sectionEdits g = [] ∨ l.sectionEdits g = [.delete, .insert]

end ChangeList

/-! ## Blocks -/

theorem filter_kind_of_forall {l : List Change} {k : SectionEdit ⊕ RowEdit}
    (h : ∀ x ∈ l, x.kind = k) (k' : SectionEdit ⊕ RowEdit) :
    l.filter (·.kind = k') = if k = k' then l else [] := by
  split
  · next hk =>
    exact List.filter_eq_self.mpr fun x hx => decide_eq_true ((h x hx).trans hk)
  · next hk =>
    exact List.filter_eq_nil_iff.mpr fun x hx he => hk ((h x hx).symm.trans (of_decide_eq_true he))

namespace Relayout

variable {r : Relayout} {c : NetChange} {rows : List NetChange} {x : RowEntry}

theorem key?_of_entry (h : r.entry? c = some x) : x.change.key? = some c.key := by
  rw [change_of_entry h]
  rfl

/-- The path that an entry is ordered by. -/
theorem anchor_of_entry (h : r.entry? c = some x) : some x.anchor = match x.edit with
    | .delete | .update => x.change.source?
    | .insert | .move => x.change.target? := by
  unfold entry? at h
  split at h <;> cases h <;> rfl

@[simp] theorem filter_kind_rowEdits (e : RowEdit) (le : IndexPath → IndexPath → Bool)
    (k : SectionEdit ⊕ RowEdit) : (r.rowEdits rows e le).filter (·.kind = k) =
      if .inr e = k then r.rowEdits rows e le else [] := by
  refine filter_kind_of_forall (fun y hy => ?_) k
  obtain ⟨k', p, q, rfl⟩ := exists_of_mem_rowEdits hy
  rfl

@[simp] theorem filter_kind_sectionDeletes (k : SectionEdit ⊕ RowEdit) :
    r.sectionDeletes.filter (·.kind = k) = if .inl .delete = k then r.sectionDeletes else [] := by
  refine filter_kind_of_forall (fun y hy => ?_) k
  obtain ⟨_, -, rfl⟩ := List.mem_map.mp hy
  rfl

@[simp] theorem filter_kind_sectionInserts (k : SectionEdit ⊕ RowEdit) :
    r.sectionInserts.filter (·.kind = k) = if .inl .insert = k then r.sectionInserts else [] := by
  refine filter_kind_of_forall (fun y hy => ?_) k
  obtain ⟨_, -, rfl⟩ := List.mem_map.mp hy
  rfl

/-- The edits of rows that go, from the last path on. -/
theorem rowsBy_delete : (ChangeList.mk (r.edits rows)).rowsBy .delete =
    r.rowEdits rows .delete fun p q => (compare q p).isLE := by
  simp [ChangeList.rowsBy, edits]

/-- The edits of rows of any other kind, from the first path on. -/
theorem rowsBy_of_ne_delete {e : RowEdit} (he : e ≠ .delete) :
    (ChangeList.mk (r.edits rows)).rowsBy e =
      r.rowEdits rows e fun p q => (compare p q).isLE := by
  cases e with
  | delete => exact absurd rfl he
  | insert => simp [ChangeList.rowsBy, edits]
  | move => simp [ChangeList.rowsBy, edits]
  | update => simp [ChangeList.rowsBy, edits]

theorem sectionsBy_edits (e : SectionEdit) : (ChangeList.mk (r.edits rows)).sectionsBy e =
    match e with
    | .delete => r.sectionDeletes
    | .insert => r.sectionInserts := by
  cases e with
  | delete => simp [ChangeList.sectionsBy, edits]
  | insert => simp [ChangeList.sectionsBy, edits]

/-- Net changes that name each key once are shown by edits that do. -/
theorem nodup_keys (h : (rows.map NetChange.key).Nodup) :
    ((r.edits rows).filterMap Change.key?).Nodup := by
  refine (perm_filterMap_edits fun _ _ _ => rfl).nodup_iff.mpr (List.pairwise_filterMap.mpr ?_)
  refine (List.pairwise_map.mp h).imp fun {c d} hne k hk k' hk' he => hne ?_
  obtain ⟨x, hx, hk⟩ := Option.bind_eq_some_iff.mp hk
  obtain ⟨y, hy, hk'⟩ := Option.bind_eq_some_iff.mp hk'
  rw [key?_of_entry hx] at hk
  rw [key?_of_entry hy] at hk'
  rw [Option.some.inj hk, Option.some.inj hk', he]

end Relayout

/-! ## Sections -/

namespace Relayout

variable {r : Relayout} {rows : List NetChange} {i : Nat} {g : GroupId}

theorem entry_ne_ofSection {c : NetChange} {x : RowEntry} {e : SectionEdit}
    (h : r.entry? c = some x) : x.change ≠ .ofSection e i g := by
  rw [change_of_entry h]
  exact nofun

/-- The side that an edit of a section is about. -/
def shownFor (r : Relayout) : SectionEdit → List GroupId
  | .delete => r.before
  | .insert => r.after

theorem mem_replaced_of_mem_edits {e : SectionEdit} (h : .ofSection e i g ∈ r.edits rows) :
    (g, i) ∈ r.replaced (r.shownFor e) := by
  rcases mem_edits_iff.mp h with h | h | ⟨c, -, x, hx, he⟩
  · obtain ⟨⟨g', i'⟩, hmem, he⟩ := List.mem_map.mp h
    cases he
    exact List.mem_reverse.mp hmem
  · obtain ⟨⟨g', i'⟩, hmem, he⟩ := List.mem_map.mp h
    cases he
    exact hmem
  · exact absurd he (entry_ne_ofSection hx)

theorem map_fst_replaced (shown : List GroupId) :
    (r.replaced shown).map Prod.fst = shown.filter (· ∉ r.continuing) := by
  have hfilter : (shown.zipIdx.map Prod.fst).filter (· ∉ r.continuing) =
      (r.replaced shown).map Prod.fst := by
    rw [List.filter_map]
    rfl
  rw [← hfilter, List.zipIdx_map_fst]

/-- A section goes if it is shown before and does not continue, and comes if it is shown after and
does not continue. -/
theorem sectionEdits_edits (hbefore : r.before.Nodup) (hafter : r.after.Nodup) (g : GroupId) :
    (ChangeList.mk (r.edits rows)).sectionEdits g =
      (if g ∈ r.before ∧ g ∉ r.continuing then [.delete] else []) ++
        if g ∈ r.after ∧ g ∉ r.continuing then [.insert] else [] := by
  have hdelete : r.sectionDeletes.filterMap (Change.sectionEdit? g) =
      ((r.replaced r.before).map Prod.fst).reverse.filterMap
        fun g' => if g' = g then some .delete else none := by
    rw [sectionDeletes, List.filterMap_map, ← List.map_reverse, List.filterMap_map]
    rfl
  have hinsert : r.sectionInserts.filterMap (Change.sectionEdit? g) =
      ((r.replaced r.after).map Prod.fst).filterMap
        fun g' => if g' = g then some .insert else none := by
    rw [sectionInserts, List.filterMap_map, List.filterMap_map]
    rfl
  rw [ChangeList.sectionEdits, filterMap_edits_of_sections fun _ _ _ _ => rfl, hdelete, hinsert,
    map_fst_replaced, map_fst_replaced,
    filterMap_eq_of_nodup (List.nodup_reverse.mpr (hbefore.filter _)),
    filterMap_eq_of_nodup (hafter.filter _)]
  simp only [List.mem_reverse, List.mem_filter, decide_eq_true_eq]

end Relayout

/-! ## Paths on one side -/

/-- What `read` gives of an edit of a row is the path of its place on one side. -/
structure Relayout.Reads (r : Relayout) (shown : List GroupId)
    (place? : NetChange → Option Position) (read : Change → Option IndexPath) : Prop where
  of_section : ∀ e i g, read (.ofSection e i g) = none
  of_entry : ∀ c x, r.entry? c = some x → read x.change = (place? c).bind (r.path? shown)

theorem Relayout.reads_source (r : Relayout) :
    r.Reads r.before NetChange.source? Change.source? :=
  ⟨fun _ _ _ => rfl, fun _ _ h => congrArg Change.source? (change_of_entry h)⟩

theorem Relayout.reads_target (r : Relayout) :
    r.Reads r.after NetChange.target? Change.target? :=
  ⟨fun _ _ _ => rfl, fun _ _ h => congrArg Change.target? (change_of_entry h)⟩

namespace Side

variable {S : Type} {r : Relayout} {n : NetChanges} {shown : List GroupId} {v : View S}
  {place? : NetChange → Option Position} {read : Change → Option IndexPath}

/-- The path of an edit leads to its key in a section that continues. -/
theorem rowAt?_of_mem_edits (h : Side r n shown v place?) (hread : r.Reads shown place? read)
    {x : Change} (hx : x ∈ r.edits n.rows) {p : IndexPath} (hp : read x = some p) :
    ∃ g ∈ r.continuing, ∃ k, x.key? = some k ∧ (v.sections shown).rowAt? p = some (g, k) := by
  rcases Relayout.mem_edits_iff.mp hx with hx | hx | ⟨c, hc, e, he, rfl⟩
  · obtain ⟨_, -, rfl⟩ := List.mem_map.mp hx
    cases (hread.of_section _ _ _).symm.trans hp
  · obtain ⟨_, -, rfl⟩ := List.mem_map.mp hx
    cases (hread.of_section _ _ _).symm.trans hp
  · rw [hread.of_entry c e he] at hp
    obtain ⟨g, hg, hrow⟩ := h.rowAt?_of_path? hc hp
    exact ⟨g, hg, c.key, Relayout.key?_of_entry he, hrow⟩

theorem keyAt?_of_mem_edits (h : Side r n shown v place?) (hread : r.Reads shown place? read)
    {x : Change} (hx : x ∈ r.edits n.rows) {p : IndexPath} (hp : read x = some p) :
    (v.sections shown).keyAt? p = x.key? := by
  obtain ⟨g, -, k, hk, hrow⟩ := h.rowAt?_of_mem_edits hread hx hp
  rw [hk]
  exact SectionList.keyAt?_eq_of_rowAt? hrow

/-- No path of an edit lies in a section that comes or goes. -/
theorem sectionIndex_not_mem_of_mem_edits (h : Side r n shown v place?)
    (hread : r.Reads shown place? read) {p : IndexPath}
    (hp : p ∈ (r.edits n.rows).filterMap read) :
    p.sectionIndex ∉ (r.replaced shown).map Prod.snd := by
  obtain ⟨x, hx, hp⟩ := List.mem_filterMap.mp hp
  obtain ⟨g, hg, k, -, hrow⟩ := h.rowAt?_of_mem_edits hread hx hp
  exact sectionIndex_not_mem hg hrow

theorem nodup_entries (h : Side r n shown v place?) (hread : r.Reads shown place? read) :
    (n.rows.filterMap fun c => (r.entry? c).bind fun x => read x.change).Nodup := by
  refine h.nodup_filterMap_paths fun c p hp => ?_
  obtain ⟨x, hx, hp⟩ := Option.bind_eq_some_iff.mp hp
  rwa [hread.of_entry c x hx] at hp

/-- No two edits have the same path on one side. -/
theorem nodup_filterMap_edits (h : Side r n shown v place?) (hread : r.Reads shown place? read) :
    ((r.edits n.rows).filterMap read).Nodup :=
  (Relayout.perm_filterMap_edits hread.of_section).nodup_iff.mpr (h.nodup_entries hread)

/-- The edits of rows of one kind stand in strict order of the paths that they are sorted by. -/
theorem pairwise_rowEdits (h : Side r n shown v place?) (hread : r.Reads shown place? read)
    (cmp : IndexPath → IndexPath → Ordering) [TransCmp cmp]
    (hcmp : ∀ p q, cmp p q = .eq → p = q) {e : RowEdit}
    (hanchor : ∀ c x, r.entry? c = some x → x.edit = e → read x.change = some x.anchor) :
    ((r.rowEdits n.rows e fun p q => (cmp p q).isLE).filterMap read).Pairwise
      fun p q => cmp p q = .lt := by
  have hread_anchor : ∀ x ∈ (n.rows.filterMap r.entry?).filter (·.edit = e),
      read x.change = some x.anchor := by
    intro x hx
    obtain ⟨hx, he⟩ := List.mem_filter.mp hx
    obtain ⟨c, -, hx⟩ := List.mem_filterMap.mp hx
    exact hanchor c x hx (of_decide_eq_true he)
  have hanchors :
      (((n.rows.filterMap r.entry?).filter (·.edit = e)).map RowEntry.anchor).Nodup := by
    have hall := h.nodup_entries hread
    rw [← List.filterMap_filterMap] at hall
    have hsome := hall.sublist (List.filter_sublist (p := (·.edit = e)).filterMap _)
    rwa [List.filterMap_congr hread_anchor, List.filterMap_eq_map'] at hsome
  have hsorted := pairwise_mergeSort_cmp cmp RowEntry.anchor
    ((List.pairwise_map.mp hanchors).imp fun hne he => hne (hcmp _ _ he))
  have hread_sorted : (r.rowEdits n.rows e fun p q => (cmp p q).isLE).filterMap read =
      (((n.rows.filterMap r.entry?).filter (·.edit = e)).mergeSort
        fun x y => (cmp x.anchor y.anchor).isLE).map RowEntry.anchor := by
    rw [Relayout.rowEdits, List.filterMap_map, ← List.filterMap_eq_map]
    exact List.filterMap_congr fun x hx => hread_anchor x ((List.mergeSort_perm _ _).mem_iff.mp hx)
  rw [hread_sorted]
  exact List.pairwise_map.mpr hsorted

/-- The edits of rows of a kind that go up. -/
theorem pairwise_rowsBy (h : Side r n shown v place?) (hread : r.Reads shown place? read)
    {e : RowEdit} (he : e ≠ .delete)
    (hanchor : ∀ c x, r.entry? c = some x → x.edit = e → read x.change = some x.anchor) :
    (((ChangeList.mk (r.edits n.rows)).rowsBy e).filterMap read).Pairwise
      fun p q => compare p q = .lt := by
  rw [Relayout.rowsBy_of_ne_delete he]
  exact h.pairwise_rowEdits hread compare (fun p q => IndexPath.eq_of_compare) hanchor

end Side

/-- The edits between two displays are of canonical form. -/
theorem Relayout.canonical_edits {S : Type} {r : Relayout} {n : NetChanges} {pre post : View S}
    (hb : Side r n r.before pre NetChange.source?)
    (ha : Side r n r.after post NetChange.target?) :
    (ChangeList.mk (r.edits n.rows)).Canonical (pre.sections r.before)
      (post.sections r.after) where
  in_order := by
    rw [rowsBy_delete, sectionsBy_edits, sectionsBy_edits, rowsBy_of_ne_delete (by decide),
      rowsBy_of_ne_delete (by decide), rowsBy_of_ne_delete (by decide)]
    rfl
  wellFormed := fun _ hx => wellFormed_of_mem_edits hx
  deletes_down := by
    rw [rowsBy_delete]
    refine hb.pairwise_rowEdits r.reads_source (fun p q => compare q p)
      (fun p q he => (IndexPath.eq_of_compare he).symm) fun c x hx he => ?_
    rw [anchor_of_entry hx, he]
  sectionDeletes_down := by
    rw [ChangeList.sectionIndices, filterMap_deleted]
    exact List.pairwise_reverse.mpr (r.pairwise_map_snd_replaced _)
  sectionInserts_up := by
    rw [ChangeList.sectionIndices, filterMap_inserted]
    exact r.pairwise_map_snd_replaced _
  inserts_up := ha.pairwise_rowsBy r.reads_target (by decide) fun c x hx he => by
    rw [anchor_of_entry hx, he]
  moves_up := ha.pairwise_rowsBy r.reads_target (by decide) fun c x hx he => by
    rw [anchor_of_entry hx, he]
  updates_up := hb.pairwise_rowsBy r.reads_source (by decide) fun c x hx he => by
    rw [anchor_of_entry hx, he]
  keys_nodup := nodup_keys hb.keys_nodup
  sources_nodup := hb.nodup_filterMap_edits r.reads_source
  targets_nodup := ha.nodup_filterMap_edits r.reads_target
  source_at := fun _ hx _ hp => hb.keyAt?_of_mem_edits r.reads_source hx hp
  target_at := fun _ hx _ hq => ha.keyAt?_of_mem_edits r.reads_target hx hq
  source_apart := fun p hp => by
    rw [ChangeList.sectionIndices, filterMap_deleted, List.mem_reverse]
    exact hb.sectionIndex_not_mem_of_mem_edits r.reads_source hp
  target_apart := fun q hq => by
    rw [ChangeList.sectionIndices, filterMap_inserted]
    exact ha.sectionIndex_not_mem_of_mem_edits r.reads_target hq
  group_before := fun i g hx => by
    rw [View.map_group_sections]
    exact (mem_replaced.mp (mem_replaced_of_mem_edits hx)).1
  group_after := fun i g hx => by
    rw [View.map_group_sections]
    exact (mem_replaced.mp (mem_replaced_of_mem_edits hx)).1
  group_gone := fun g hg hnot => by
    rw [View.map_group_sections] at hg hnot
    have hcontinue : g ∉ r.continuing := fun h => hnot (continuing_sublist_after.mem h)
    rw [sectionEdits_edits hb.shown_nodup ha.shown_nodup, if_pos ⟨hg, hcontinue⟩,
      if_neg fun h => hnot h.1]
    rfl
  group_new := fun g hg hnot => by
    rw [View.map_group_sections] at hg hnot
    have hcontinue : g ∉ r.continuing := fun h => hnot (continuing_sublist_before.mem h)
    rw [sectionEdits_edits hb.shown_nodup ha.shown_nodup, if_neg fun h => hnot h.1,
      if_pos ⟨hg, hcontinue⟩]
    rfl
  group_kept := fun g hg hg' => by
    rw [View.map_group_sections] at hg hg'
    rw [sectionEdits_edits hb.shown_nodup ha.shown_nodup]
    by_cases hcontinue : g ∈ r.continuing
    · exact .inl (by rw [if_neg fun h => h.2 hcontinue, if_neg fun h => h.2 hcontinue]; rfl)
    · exact .inr (by rw [if_pos ⟨hg, hcontinue⟩, if_pos ⟨hg', hcontinue⟩]; rfl)

section Answers

variable {S σ V : Type} [BEq S]

/-- **The answers of a connection are of canonical form.**  Whatever the functions of a view answer
and ask for meanwhile: if a connection that can come about accepts a batch, its edits stand in the
canonical order, and they fit the sections shown before and after. -/
theorem changeList_canonical (a : Arrangement (Script σ V) V S) {w w' : Connection S × σ}
    (hw : Connection.Reachable a w) {records : List (Transaction V)} {mapping : Mapping}
    {l : ChangeList} (h : (Connection.process a records mapping).run w = (.ok l, w')) :
    l.Canonical w.1.display.sections w'.1.display.sections := by
  obtain ⟨hw', n, hn, rfl⟩ := Connection.leads_of_run_processWith a hw.wellFormed h
  have hbefore := hn.side_before hw.wellFormed w.1.display.mapping w'.1.display.mapping
  have hafter := hn.side_after hw' w.1.display.mapping w'.1.display.mapping
  rw [hn.relayout_eq] at hbefore hafter ⊢
  have hcanonical := Relayout.canonical_edits hbefore hafter
  exact hcanonical

end Answers

/-- A connection that takes a batch of mutations and shows the groups the other way round. -/
def waveringProcessed : Outcome × Connection Nat × Nat :=
  (Connection.process (wavering (Script Nat Nat)) [⟨⟨1⟩, waveringBatch⟩]
    (.ofGroups [⟨"2"⟩, ⟨"1"⟩, ⟨"0"⟩])).run (waveringConnection.1, 1)

/-- Of three groups one is shown before only, one after only, and one on both sides. -/
theorem waveringProcessed_canonical :
    Connection.Reachable (wavering (Script Nat Nat)) (waveringConnection.1, 1) ∧
    ∃ l, waveringProcessed.1 = .ok l ∧
    l.Canonical waveringConnection.1.display.sections waveringProcessed.2.1.display.sections ∧
    l.sectionEdits ⟨"1"⟩ = [.delete] ∧ l.sectionEdits ⟨"2"⟩ = [.insert] := by
  have hopened : Connection.Reachable (wavering (Script Nat Nat)) waveringConnection :=
    .opened (Prod.ext (eq_ok_getD_of_isOk (by decide +kernel) _) rfl)
  have hrun : waveringProcessed.1 = .ok (waveringProcessed.1.toOption.getD {}) :=
    eq_ok_getD_of_isOk (by decide +kernel) _
  have hcanonical := changeList_canonical (wavering (Script Nat Nat)) (hopened.elsewhere 1)
    (Prod.ext hrun rfl)
  exact ⟨hopened.elsewhere 1, _, hrun, hcanonical,
    hcanonical.group_gone ⟨"1"⟩ (by decide +kernel) (by decide +kernel),
    hcanonical.group_new ⟨"2"⟩ (by decide +kernel) (by decide +kernel)⟩

end GroupedView
