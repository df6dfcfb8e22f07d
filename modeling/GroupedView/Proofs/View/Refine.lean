import GroupedView.Proofs.Ledger
import GroupedView.Proofs.View.Check
import GroupedView.Proofs.View.Edit

/-!
# GroupedView.Proofs.View.Refine — a view keeps the naive account

`View.Refines b v l` says that the view `v` shows what the ledger `l` says, in the order of the
arrangement `b`.  Each of the primitive changes of a view is matched by one of the ledger.

A request that asks for a sort key settles as the ledger says, unless the sort key is not equal to
itself (`View.Refines.Settles`) or the row stays since its sort key is equal to the one it was
placed by (`View.Refines.Stays`).  Where the test of sort keys is equality, a mutation is accepted
or refused by both alike (`View.Refines.follows_apply`).
-/

open Std

namespace GroupedView.View

/-- The view shows what the ledger says, in order. -/
structure Refines {V S : Type} (b : Arrangement Id V S) (v : View S) (l : Ledger S) : Prop where
  wellFormed : v.WellFormed
  placements_eq : ∀ k : ItemKey, v.placements[k]? = l.entries[k]?.join
  mem_excluded_iff : ∀ k : ItemKey, k ∈ v.excluded ↔ l.entries[k]? = some none
  mem_known_iff : ∀ g : GroupId, g ∈ v.known ↔ g ∈ l.used
  ascending : ∀ g, b.Ascending (v.rows g)

namespace Refines

variable {V S : Type} {b : Arrangement Id V S} {v : View S} {l : Ledger S} {k : ItemKey}
  {g : GroupId} {row : Row S} {p : Position}

/-! ## Primitive changes -/

theorem empty : (View.empty : View S).Refines b {} where
  wellFormed := .empty
  placements_eq k := by simp [View.empty]
  mem_excluded_iff k := by simp [View.empty]
  mem_known_iff g := by simp [View.empty]
  ascending g := by rw [rows_empty]; exact .nil

theorem rows_key_ne (h : v.Refines b l) (hnew : v.placements[row.key]? = none) :
    ∀ r ∈ v.rows g, r.key ≠ row.key := by
  intro r hr he
  have hpl := h.wellFormed.placement_of_row g r hr
  rw [he, hnew] at hpl
  cases hpl

/-- A new row comes to its rank. -/
theorem insertRow (hb : b.Lawful) (h : v.Refines b l) (row : Row S)
    (hnew : v.placements[row.key]? = none) (hin : row.key ∉ v.excluded) :
    (v.insertRow row ⟨g, b.rank (v.rows g) row⟩).Refines b
      (l.record row.key (some ⟨g, row.sortKey⟩)) where
  wellFormed := h.wellFormed.insertRow hnew hin ((h.ascending g).parted hb (h.rows_key_ne hnew)).1
  placements_eq k := by
    rw [placements_insertRow, Ledger.entries_record]
    split
    · rfl
    · exact h.placements_eq k
  mem_excluded_iff k := by
    rw [Ledger.entries_record]
    split
    · next hk =>
      subst hk
      exact iff_of_false hin (by simp)
    · exact h.mem_excluded_iff k
  mem_known_iff g' := by
    rw [mem_known_insertRow, Ledger.mem_used_record, h.mem_known_iff]
    simp [eq_comm]
  ascending g' := by
    rw [rows_insertRow]
    split
    · exact (h.ascending g).insertIdx hb (h.rows_key_ne hnew)
    · exact h.ascending g'

/-- A row is taken away. -/
theorem eraseRow (h : v.Refines b l) (hp : v.keyAt? p = some k) :
    (v.eraseRow k p).Refines b (l.forget k) where
  wellFormed := h.wellFormed.eraseRow hp
  placements_eq k' := by
    rw [placements_eraseRow, Ledger.entries_forget]
    split
    · rfl
    · exact h.placements_eq k'
  mem_excluded_iff k' := by
    rw [Ledger.entries_forget]
    split
    · next hk =>
      subst hk
      obtain ⟨s, hs⟩ := h.wellFormed.placement_of_keyAt? hp
      refine iff_of_false (fun hin => ?_) (by simp)
      have hnone := h.wellFormed.excluded_unplaced _ hin
      rw [hs] at hnone
      cases hnone
    · exact h.mem_excluded_iff k'
  mem_known_iff := h.mem_known_iff
  ascending g := by
    rw [h.wellFormed.rows_eraseRow_eq_filter hp]
    exact (h.ascending g).filter _

/-- A key without a row is kept out. -/
theorem exclude (h : v.Refines b l) (hk : v.placements[k]? = none) :
    (v.exclude k).Refines b (l.record k none) where
  wellFormed := h.wellFormed.exclude hk
  placements_eq k' := by
    rw [Ledger.entries_record]
    split
    · next he =>
      subst he
      exact hk
    · exact h.placements_eq k'
  mem_excluded_iff k' := by
    rw [Ledger.entries_record, View.exclude, mem_set_insert, h.mem_excluded_iff]
    by_cases he : k' = k
    · simp [he]
    · simp [he]
  mem_known_iff := h.mem_known_iff
  ascending := h.ascending

/-- A key without a row is gone. -/
theorem readmit (h : v.Refines b l) (hk : v.placements[k]? = none) :
    (v.readmit k).Refines b (l.forget k) where
  wellFormed := h.wellFormed.readmit
  placements_eq k' := by
    rw [Ledger.entries_forget]
    split
    · next he =>
      subst he
      exact hk
    · exact h.placements_eq k'
  mem_excluded_iff k' := by
    rw [Ledger.entries_forget, View.readmit, mem_set_erase, h.mem_excluded_iff]
    by_cases he : k' = k
    · simp [he]
    · simp [he]
  mem_known_iff := h.mem_known_iff
  ascending := h.ascending

/-! ## Operations -/

theorem contains_entries (h : v.Refines b l) :
    l.entries.contains k = (v.contains k || v.isExcluded k) := by
  rw [Bool.eq_iff_iff, Bool.or_eq_true, contains, isExcluded,
    ExtTreeMap.contains_eq_isSome_getElem?, ExtTreeMap.contains_eq_isSome_getElem?,
    h.placements_eq, ExtTreeSet.contains_iff_mem, h.mem_excluded_iff]
  rcases l.entries[k]? with _ | _ | pl <;> simp

section Operations

variable {m : Type → Type} [Monad m] [LawfulMonad m]

/-- A key with a row is found. -/
theorem find_carry (hb : b.Lawful) (h : v.Refines b l) {pl : Placement S}
    (hk : v.placements[k]? = some pl) : ∃ i, v.keyAt? ⟨pl.group, i⟩ = some k ∧
      v.find (b.carry m) k pl = pure ⟨pl.group, i⟩ := by
  obtain ⟨i, hi⟩ := List.mem_iff_getElem?.mp (h.wellFormed.row_of_placement k pl hk)
  refine ⟨i, keyAt?_eq_some_iff.mpr ⟨_, hi, rfl⟩, ?_⟩
  rw [find, Arrangement.search_of_getElem? hb (h.ascending pl.group) hi, pure_bind]

/-- A new row is put at its rank. -/
theorem place_carry (hb : b.Lawful) (h : v.Refines b l) (row : Row S)
    (hnew : v.placements[row.key]? = none) (hint : Option PositionHint) :
    v.place (b.carry m) g row hint =
      pure (v.insertRow row ⟨g, b.rank (v.rows g) row⟩, ⟨g, b.rank (v.rows g) row⟩) := by
  rw [place, Arrangement.insertionIndex_carry hb (h.ascending g) (h.rows_key_ne hnew), pure_bind]

/-- The position of a key is the one that its row has. -/
theorem positionOf_carry (hb : b.Lawful) (h : v.Refines b l) (k : ItemKey) :
    v.positionOf (b.carry m) k = pure (v.locate k) := by
  unfold positionOf
  cases hk : v.placements[k]? with
  | none => rw [locate, hk]; rfl
  | some pl =>
    obtain ⟨i, hi⟩ := List.mem_iff_getElem?.mp (h.wellFormed.row_of_placement k pl hk)
    have hkey : v.keyAt? ⟨pl.group, i⟩ = some k := keyAt?_eq_some_iff.mpr ⟨_, hi, rfl⟩
    rw [h.wellFormed.locate_eq_some_iff.mpr hkey]
    simp only [Arrangement.search_of_getElem? hb (h.ascending pl.group) hi, ExceptT.run_pure,
      pure_bind]

/-- A request to a view ends as the ledger says. -/
def Follows (b : Arrangement Id V S) (x : Checked m (View S × RowEffect)) :
    Except ViewError (Ledger S) → Prop
  | .ok l => ∃ v e, x = pure (v, e) ∧ Refines b v l
  | .error err => x = throw err

theorem placements_eq_none (hk : ¬ (v.contains k || v.isExcluded k) = true) :
    v.placements[k]? = none := by
  rw [Bool.or_eq_true, not_or] at hk
  exact placements_eq_none_of_not_contains hk.1

/-- The row of a key goes to its rank, perhaps in another group. -/
theorem relocate_carry (hb : b.Lawful) (h : v.Refines b l) (hp : v.keyAt? p = some k)
    (g : GroupId) (s : S) :
    ∃ w new, (v.eraseRow k p).place (b.carry m) g ⟨k, s⟩ none = pure (w, new) ∧
      w.Refines b (l.record k (some ⟨g, s⟩)) := by
  have hready := h.eraseRow hp
  have hk : (v.eraseRow k p).placements[k]? = none := placements_eraseRow_self
  refine ⟨_, _, place_carry hb hready ⟨k, s⟩ hk none, ?_⟩
  rw [← Ledger.record_forget]
  refine hready.insertRow hb ⟨k, s⟩ hk fun hin => ?_
  rw [hready.mem_excluded_iff, Ledger.entries_forget, if_pos rfl] at hin
  cases hin

theorem group_mem_used (h : v.Refines b l) {pl : Placement S} (hk : v.placements[k]? = some pl) :
    pl.group ∈ l.used := by
  rw [← h.mem_known_iff]
  exact h.wellFormed.stored_known _ (WellFormed.mem_groups_of_mem_keys
    (List.mem_map_of_mem (h.wellFormed.row_of_placement k pl hk)))

theorem record_placement (h : v.Refines b l) {pl : Placement S} (hk : v.placements[k]? = some pl) :
    l.record k (some pl) = l := by
  refine Ledger.record_self ?_ ?_
  · rw [h.placements_eq] at hk
    rcases hl : l.entries[k]? with _ | _ | pl'
    · rw [hl] at hk; cases hk
    · rw [hl] at hk; cases hk
    · rw [hl] at hk; cases hk; rfl
  · exact h.group_mem_used hk

theorem follows_delete (hb : b.Lawful) (h : v.Refines b l) :
    Follows b (v.delete (b.carry m) k)
      (if l.entries.contains k then .ok (l.forget k) else .error (.missingKey k)) := by
  rw [h.contains_entries, contains, ExtTreeMap.contains_eq_isSome_getElem?]
  unfold View.delete
  cases hk : v.placements[k]? with
  | some pl =>
    obtain ⟨i, hi, hfind⟩ := h.find_carry hb hk (m := m)
    simp only [hfind, pure_bind]
    exact ⟨_, _, rfl, h.eraseRow hi⟩
  | none =>
    simp only [Option.isSome_none, Bool.false_or]
    split
    · exact ⟨_, _, rfl, h.readmit hk⟩
    · exact rfl

/-- The writer asserts that the row of the key stays. -/
theorem follows_touch [BEq S] (hb : b.Lawful) (h : v.Refines b l) (value : V) :
    Follows b (v.update (b.carry m) k value false)
      (if l.entries.contains k then .ok l else .error (.missingKey k)) := by
  rw [h.contains_entries, contains, ExtTreeMap.contains_eq_isSome_getElem?]
  unfold View.update
  cases hk : v.placements[k]? with
  | some pl =>
    obtain ⟨i, -, hfind⟩ := h.find_carry hb hk (m := m)
    simp only [updateRow, hfind, pure_bind]
    exact ⟨_, _, rfl, h⟩
  | none =>
    simp only [Option.isSome_none, Bool.false_or]
    split
    · exact ⟨_, _, rfl, h⟩
    · exact rfl

end Operations

/-! ## Requests that ask for a sort key -/

section Settles

variable {m : Type → Type} [Monad m] [LawfulMonad m] [BEq S] {value : V}
  {x : Checked m (View S × RowEffect)} {r : Except ViewError (Ledger S)}

/-- How a request ends that gives the key `k` a value, whatever the test of sort keys is: as the
ledger says, or it is refused because the sort key is not equal to itself. -/
inductive Settles (b : Arrangement Id V S) (l : Ledger S) (k : ItemKey) (value : V)
    (x : Checked m (View S × RowEffect)) : Except ViewError (Ledger S) → Prop
  | refused {err : ViewError} : x = throw err → Settles b l k value x (.error err)
  | accepted {w : View S} {e : RowEffect} : b.Trusted k value → x = pure (w, e) →
      (∀ p, e ≠ .refreshed p) → w.Refines b (l.record k (b.entry k value)) →
      Settles b l k value x (.ok (l.record k (b.entry k value)))
  | doubted {r : Except ViewError (Ledger S)} : ¬ b.Trusted k value →
      x = throw (.inconsistent k .sortKey) → Settles b l k value x r

/-- The row of the key stays: the group of the value is the same, and its sort key is equal to the
one that the row was placed by. -/
def Stays (b : Arrangement Id V S) (v : View S) (k : ItemKey) (value : V)
    (x : Checked m (View S × RowEffect)) : Prop :=
  ∃ (p : Position) (s : S), v.keyAt? p = some k ∧ v.placements[k]? = some ⟨p.group, s⟩ ∧
    b.entry k value = some ⟨p.group, (b.sortKey k value).run⟩ ∧
    ((b.sortKey k value).run == s) = true ∧ b.Trusted k value ∧ x = pure (v, .refreshed p)

theorem settles_sortKeyOf {f : S → Checked m (View S × RowEffect)}
    (hg : (b.grouping k value).run = some g)
    (h : b.Trusted k value → Settles b l k value (f (b.sortKey k value).run) r) :
    Settles b l k value ((b.carry m).sortKeyOf k value >>= f) r := by
  by_cases ht : b.Trusted k value
  · rw [Arrangement.sortKeyOf_of_trusted hg ht, pure_bind]
    exact h ht
  · refine .doubted ht ?_
    rw [Arrangement.sortKeyOf_of_not_trusted hg ht, throw_bind]

theorem settles_relocate (hb : b.Lawful) (h : v.Refines b l) (hp : v.keyAt? p = some k)
    (hg : (b.grouping k value).run = some g) (ht : b.Trusted k value) :
    Settles b l k value (do
        let (w, new) ← (v.eraseRow k p).place (b.carry m) g ⟨k, (b.sortKey k value).run⟩ none
        return (w, .relocated p new)) (.ok (l.record k (b.entry k value))) := by
  obtain ⟨w, new, hplace, hw⟩ := h.relocate_carry hb hp g (b.sortKey k value).run (m := m)
  rw [hplace, pure_bind]
  refine .accepted ht rfl (fun _ => nofun) ?_
  rw [Arrangement.entry_of_some hg]
  exact hw

theorem settles_enter (hb : b.Lawful) (h : v.Refines b l) (hk : v.placements[k]? = none)
    (hint : Option PositionHint) : Settles b l k value (v.enter (b.carry m) k value hint)
      (.ok (l.record k (b.entry k value))) := by
  rw [enter, Arrangement.groupOf_carry, pure_bind]
  cases hg : (b.grouping k value).run with
  | none =>
    refine .accepted (Arrangement.trusted_of_none hg) rfl (fun _ => nofun) ?_
    rw [Arrangement.entry_of_none hg]
    exact h.exclude hk
  | some g =>
    have hready := h.readmit hk
    refine settles_sortKeyOf hg fun ht => ?_
    rw [place_carry hb hready ⟨k, _⟩ hk, pure_bind]
    refine .accepted ht rfl (fun _ => nofun) ?_
    rw [Arrangement.entry_of_some hg, ← Ledger.record_forget]
    exact hready.insertRow hb ⟨k, _⟩ hk Edit.not_mem_excluded_readmit

theorem settles_insert (hb : b.Lawful) (h : v.Refines b l) (hint : Option PositionHint) :
    Settles b l k value (v.insert (b.carry m) k value hint)
      (if l.entries.contains k then .error (.duplicateKey k)
        else .ok (l.record k (b.entry k value))) := by
  unfold View.insert
  rw [h.contains_entries]
  split
  · exact .refused rfl
  · next hk => exact h.settles_enter hb (placements_eq_none hk) hint

theorem settles_updateRow (hb : b.Lawful) (h : v.Refines b l) {pl : Placement S}
    (hk : v.placements[k]? = some pl) :
    Settles b l k value (v.updateRow (b.carry m) k value pl true)
        (.ok (l.record k (b.entry k value))) ∨
      Stays b v k value (v.updateRow (b.carry m) k value pl true) := by
  obtain ⟨i, hi, hfind⟩ := h.find_carry hb hk (m := m)
  unfold updateRow
  rw [hfind, pure_bind]
  simp only [Bool.not_true, Bool.false_eq_true, if_false, Arrangement.groupOf_carry, pure_bind]
  cases hg : (b.grouping k value).run with
  | none =>
    refine .inl (.accepted (Arrangement.trusted_of_none hg) rfl (fun _ => nofun) ?_)
    rw [Arrangement.entry_of_none hg, ← Ledger.record_forget]
    exact (h.eraseRow hi).exclude placements_eraseRow_self
  | some g =>
    by_cases hsame : (g = pl.group && (b.sortKey k value).run == pl.sortKey) = true
    · rw [Bool.and_eq_true, decide_eq_true_eq] at hsame
      obtain ⟨rfl, hs⟩ := hsame
      by_cases ht : b.Trusted k value
      · refine .inr ⟨⟨pl.group, i⟩, pl.sortKey, hi, hk, Arrangement.entry_of_some hg, hs, ht, ?_⟩
        simp only [Arrangement.sortKeyOf_of_trusted hg ht, pure_bind, hs, decide_true,
          Bool.and_self, if_true]
      · exact .inl (settles_sortKeyOf hg fun ht' => absurd ht' ht)
    · refine .inl (settles_sortKeyOf hg fun ht => ?_)
      rw [if_neg hsame]
      exact h.settles_relocate hb hi hg ht

theorem settles_update (hb : b.Lawful) (h : v.Refines b l) (value : V) :
    Settles b l k value (v.update (b.carry m) k value true)
        (if l.entries.contains k then .ok (l.record k (b.entry k value))
          else .error (.missingKey k)) ∨
      Stays b v k value (v.update (b.carry m) k value true) := by
  rw [h.contains_entries, contains, ExtTreeMap.contains_eq_isSome_getElem?]
  unfold View.update
  cases hk : v.placements[k]? with
  | some pl => exact h.settles_updateRow hb hk
  | none =>
    simp only [Option.isSome_none, Bool.false_or]
    split
    · exact .inl (h.settles_enter hb hk none)
    · exact .inl (.refused rfl)

theorem settles_move (hb : b.Lawful) (h : v.Refines b l) (source target : GroupId) :
    Settles b l k value (v.move (b.carry m) k value source target)
      (match l.entries[k]?.join with
      | none => .error (.missingKey k)
      | some pl =>
        if pl.group ≠ source then .error (.wrongSource k source pl.group)
        else if (b.grouping k value).run ≠ some target then
          .error (.wrongTarget k target (b.grouping k value).run)
        else .ok (l.record k (b.entry k value))) := by
  rw [← h.placements_eq]
  unfold View.move
  cases hk : v.placements[k]? with
  | none => exact .refused rfl
  | some pl =>
    obtain ⟨i, hi, hfind⟩ := h.find_carry hb hk (m := m)
    by_cases hsource : pl.group = source
    · simp only [hsource, ne_eq, not_true_eq_false, if_false, Arrangement.groupOf_carry, pure_bind]
      by_cases htarget : (b.grouping k value).run = some target
      · simp only [htarget, not_true_eq_false, if_false]
        refine settles_sortKeyOf htarget fun ht => ?_
        simp only [hfind, pure_bind]
        exact h.settles_relocate hb hi htarget ht
      · simp only [htarget, not_false_eq_true, if_true]
        exact .refused rfl
    · simp only [ne_eq, hsource, not_false_eq_true, if_true]
      exact .refused rfl

omit [LawfulMonad m] in
theorem Settles.follows (ht : b.Trusted k value) (h : Settles b l k value x r) : Follows b x r := by
  cases h with
  | refused hx => exact hx
  | accepted _ hx _ hw => exact ⟨_, _, hx, hw⟩
  | doubted hdoubt => exact absurd ht hdoubt

omit [LawfulMonad m] in
/-- Where the test is equality, the row stays with the sort key that the ledger has. -/
theorem Stays.follows [LawfulBEq S] (h : v.Refines b l) (hx : Stays b v k value x) :
    Follows b x (if l.entries.contains k then .ok (l.record k (b.entry k value))
      else .error (.missingKey k)) := by
  obtain ⟨p, s, -, hk, hentry, hs, -, hx⟩ := hx
  have hin : l.entries.contains k = true := by
    rw [h.contains_entries, contains, ExtTreeMap.contains_eq_isSome_getElem?, hk]
    rfl
  rw [if_pos hin, hentry, eq_of_beq hs, h.record_placement hk]
  exact ⟨_, _, hx, h⟩

variable [LawfulBEq S]

/-- **A mutation is accepted or refused as the ledger says**, and the view then shows what the
ledger says. -/
theorem follows_apply (hb : b.Lawful) (h : v.Refines b l) (mu : Mutation V) :
    Follows b (v.apply (b.carry m) mu) (l.apply b mu) := by
  have hadmits : (b.carry m).options.admits mu.key = b.options.admits mu.key := rfl
  unfold View.apply Ledger.apply
  rw [hadmits]
  split
  · cases mu with
    | insert k value hint => exact (h.settles_insert hb hint).follows Arrangement.trusted
    | update k value layout =>
      cases layout with
      | false => exact h.follows_touch hb value
      | true =>
        rcases h.settles_update hb value (k := k) (m := m) with hsettles | hstays
        · exact hsettles.follows Arrangement.trusted
        · exact hstays.follows h
    | delete k => exact h.follows_delete hb
    | move k value source target =>
      exact (h.settles_move hb source target).follows Arrangement.trusted
  · exact ⟨_, _, rfl, h⟩

end Settles

/-! ## What a view shows -/

theorem placements_eq_some_iff (h : v.Refines b l) {pl : Placement S} :
    v.placements[k]? = some pl ↔ l.entries[k]? = some (some pl) := by
  rw [h.placements_eq]
  rcases l.entries[k]? with _ | _ | pl' <;> simp

theorem rows_eq (hb : b.Lawful) (h : v.Refines b l) (g : GroupId) : v.rows g = l.rows b g := by
  refine (h.ascending g).eq_of_mem_iff hb (Ledger.ascending_rows hb l g) fun r => ?_
  rw [Ledger.mem_rows, ← h.placements_eq_some_iff]
  exact ⟨h.wellFormed.placement_of_row g r, h.wellFormed.row_of_placement r.key _⟩

/-- What a ledger says leaves nothing open about the view that shows it. -/
theorem view_eq {v' : View S} (hb : b.Lawful) (h : v.Refines b l) (h' : v'.Refines b l) :
    v = v' := by
  have hgroups : v.groups = v'.groups := h.wellFormed.groups_congr h'.wellFormed fun g => by
    rw [h.rows_eq hb, h'.rows_eq hb]
  have hplacements : v.placements = v'.placements := ExtTreeMap.ext_getElem? fun k => by
    rw [h.placements_eq, h'.placements_eq]
  have hexcluded : v.excluded = v'.excluded := ExtTreeSet.ext_mem fun k => by
    rw [h.mem_excluded_iff, h'.mem_excluded_iff]
  have hknown : v.known = v'.known := ExtTreeSet.ext_mem fun g => by
    rw [h.mem_known_iff, h'.mem_known_iff]
  cases v
  cases v'
  simp_all

theorem mem_groupList_iff (hb : b.Lawful) (h : v.Refines b l) :
    g ∈ v.groupList ↔ l.rows b g ≠ [] := by
  rw [← h.rows_eq hb, groupList, ExtTreeMap.mem_keys, mem_map_iff, View.rows]
  cases hg : v.groups[g]? with
  | none => simp
  | some rows =>
    have hne := h.wellFormed.stored_ne_nil g rows hg
    simpa using hne

theorem isExcluded_iff (h : v.Refines b l) :
    v.isExcluded k = true ↔ l.entries[k]? = some none := by
  rw [isExcluded, ExtTreeSet.contains_iff_mem, h.mem_excluded_iff]

theorem isKnown_iff (h : v.Refines b l) : v.isKnown g = true ↔ g ∈ l.used := by
  rw [isKnown, ExtTreeSet.contains_iff_mem, h.mem_known_iff]

theorem size_eq (h : v.Refines b l) : v.size = l.size := by
  have hperm : v.placements.keys.Perm ((l.entries.toList.filter (·.2.isSome)).map Prod.fst) := by
    refine (List.perm_ext_iff_of_nodup ExtTreeMap.nodup_keys ?_).mpr fun k => ?_
    · have hsub : ((l.entries.toList.filter (·.2.isSome)).map Prod.fst).Sublist l.entries.keys := by
        rw [← ExtTreeMap.map_fst_toList_eq_keys]
        exact List.filter_sublist.map Prod.fst
      exact List.Nodup.sublist hsub ExtTreeMap.nodup_keys
    · rw [ExtTreeMap.mem_keys, ExtTreeMap.mem_iff_isSome_getElem?, Option.isSome_iff_exists,
        List.mem_map]
      constructor
      · rintro ⟨pl, hpl⟩
        refine ⟨(k, some pl), List.mem_filter.mpr ⟨?_, rfl⟩, rfl⟩
        exact ExtTreeMap.mem_toList_iff_getElem?_eq_some.mpr (h.placements_eq_some_iff.mp hpl)
      · rintro ⟨⟨k', entry⟩, hk, rfl⟩
        obtain ⟨hk, hsome⟩ := List.mem_filter.mp hk
        obtain ⟨pl, rfl⟩ := Option.isSome_iff_exists.mp hsome
        rw [ExtTreeMap.mem_toList_iff_getElem?_eq_some] at hk
        exact ⟨pl, h.placements_eq_some_iff.mpr hk⟩
  have hlength := hperm.length_eq
  rw [ExtTreeMap.length_keys, List.length_map] at hlength
  rw [size, hlength, Ledger.size, List.countP_eq_length_filter]

/-- A view in order passes its own test. -/
theorem check_carry {m : Type → Type} [Monad m] [LawfulMonad m] (h : v.Refines b l) :
    v.check (b.carry m) = pure true :=
  h.wellFormed.check_of_rising fun g => (h.ascending g).rising

end Refines

end GroupedView.View
