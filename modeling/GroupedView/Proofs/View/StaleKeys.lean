import GroupedView.Proofs.View.Run
import GroupedView.Rule.SortKey

/-!
# GroupedView.Proofs.View.StaleKeys — rows that stay with an old sort key

An update whose sort key is equal to the one of its row leaves the row with the old key.  The test
of sort keys need not be as fine as the order: a zero and a negative zero are equal floats, and yet
the negative one lies before the other in their total order.

* `View.Keeps` says that the rows of a view stand where the latest values of the items belong, but
  for sort keys that are stale; every accepted mutation with a new layout keeps this.
* `rows_of_latest_values`: the rows are in the order of the sort keys that they were placed by.  If
  equal sort keys are level in the order, that is the order in which the latest values would be
  put, and a row that stays would be put in the same place again.
* `negative_zero_misplaced`: otherwise a row may be left in the wrong place.
-/

open Std

namespace GroupedView

variable {V S : Type}

/-! ## Latest values -/

/-- Whether the row of the item may come to stand elsewhere; the writer of an update can rule that
out. -/
def Mutation.mayRearrange : Mutation V → Bool
  | .update _ _ layout => layout
  | .insert .. | .delete _ | .move .. => true

/-- The values of the present items after a mutation. -/
def Mutation.write (values : ItemMap V) (mu : Mutation V) : ItemMap V :=
  match mu.value? with
  | some value => values.insert mu.key value
  | none => values.erase mu.key

/-- The values that mutations leave. -/
def latest (mus : List (Mutation V)) : ItemMap V := mus.foldl Mutation.write ∅

/-- Where a present item belongs by its value, or that it belongs nowhere. -/
def Arrangement.due (b : Arrangement Id V S) (values : ItemMap V) (k : ItemKey) :
    Option (Option (Placement S)) :=
  if b.options.admits k then values[k]?.map (b.entry k) else none

section Due

variable {b : Arrangement Id V S} {values : ItemMap V} {k k' : ItemKey} {value : V}

theorem Arrangement.due_insert (hadmits : b.options.admits k = true) :
    b.due (values.insert k value) k' =
      if k' = k then some (b.entry k value) else b.due values k' := by
  rw [due, getElem?_map_insert, due]
  by_cases he : k' = k
  · subst he
    rw [if_pos hadmits, if_pos rfl, if_pos rfl, Option.map_some]
  · rw [if_neg he, if_neg he]

theorem Arrangement.due_erase :
    b.due (values.erase k) k' = if k' = k then none else b.due values k' := by
  rw [due, getElem?_map_erase, due]
  by_cases he : k' = k
  · rw [if_pos he, if_pos he, Option.map_none, ite_self]
  · rw [if_neg he, if_neg he]

/-- Values of items that are not admitted do not matter. -/
theorem Arrangement.due_write_of_not_admits {mu : Mutation V}
    (hadmits : ¬ b.options.admits mu.key = true) : b.due (mu.write values) = b.due values := by
  funext k'
  rw [due, due]
  split
  · next hadmits' =>
    have hne : k' ≠ mu.key := fun he => hadmits (he ▸ hadmits')
    unfold Mutation.write
    split
    · rw [getElem?_map_insert, if_neg hne]
    · rw [getElem?_map_erase, if_neg hne]
  · rfl

/-- The items of a map are a list that can be inserted, in whatever order. -/
theorem Ledger.seed_of_perm {now : List (ItemKey × V)} (hnow : now.Perm values.toList) :
    ∃ l, Ledger.seed b now = .ok l ∧ ∀ k : ItemKey, l.entries[k]? = b.due values k := by
  have hnodup : (admitted b now).Nodup := by
    refine List.Nodup.filter _ ((hnow.map Prod.fst).nodup_iff.mpr ?_)
    rw [ExtTreeMap.map_fst_toList_eq_keys]
    exact ExtTreeMap.nodup_keys
  obtain ⟨l, hl, hentries, -⟩ :=
    applyAll_inserts (l := ({} : Ledger S)) hnodup fun _ _ => ExtTreeMap.not_mem_empty
  refine ⟨l, hl, fun k => Option.ext fun entry => ?_⟩
  rw [hentries, Arrangement.due]
  simp only [hnow.mem_iff, ExtTreeMap.mem_toList_iff_getElem?_eq_some]
  by_cases hadmits : b.options.admits k = true
  · simp [hadmits]
  · simp [hadmits]

end Due

/-! ## Stale sort keys -/

theorem rel_self {α : Type} {R : α → α → Prop} (hR : ∀ a, R a a) (x : Option α) :
    Option.Rel R x x := by
  cases x with
  | none => exact .none
  | some a => exact .some (hR a)

theorem rel_imp {α : Type} {R R' : α → α → Prop} (himp : ∀ {a b}, R a b → R' a b) {x y : Option α}
    (h : Option.Rel R x y) : Option.Rel R' x y := by
  cases h with
  | none => exact .none
  | some h => exact .some (himp h)

theorem exists_of_rel_some {α : Type} {R : α → α → Prop} {a : α} {y : Option α}
    (h : Option.Rel R (some a) y) : ∃ c, y = some c ∧ R a c := by
  cases h with
  | some h => exact ⟨_, rfl, h⟩

theorem exists_rel_of_some {α : Type} {R : α → α → Prop} {x : Option α} {c : α}
    (h : Option.Rel R x (some c)) : ∃ a, x = some a ∧ R a c := by
  cases h with
  | some h => exact ⟨_, rfl, h⟩

variable [BEq S]

/-- A row that was placed by one sort key may stay for another one that is equal to it. -/
def Placement.StandsFor (old new : Placement S) : Prop :=
  old.group = new.group ∧ (old.sortKey = new.sortKey ∨ (new.sortKey == old.sortKey) = true)

theorem Placement.StandsFor.level {b : Arrangement Id V S} (hb : b.Lawful)
    (heq : ∀ (k : ItemKey) (s t : S), (s == t) = true → (b.comparison ⟨k, s⟩ ⟨k, t⟩).run = .eq)
    {k : ItemKey} {old new : Placement S} (h : old.StandsFor new) :
    old.group = new.group ∧ b.cmp ⟨k, new.sortKey⟩ ⟨k, old.sortKey⟩ = .eq := by
  refine ⟨h.1, ?_⟩
  rcases h.2 with he | he
  · rw [he]
    exact hb.cmp_self
  · exact Arrangement.order_eq_iff.mpr ⟨heq k _ _ he, rfl⟩

namespace View

/-- The view has each item where its latest value belongs, but for a stale sort key. -/
structure Keeps (b : Arrangement Id V S) (v : View S) (l : Ledger S) (values : ItemMap V) :
    Prop where
  refines : v.Refines b l
  stands : ∀ k : ItemKey,
    Option.Rel (Option.Rel Placement.StandsFor) l.entries[k]? (b.due values k)
  trusted : b.options.verify = true → ∀ (k : ItemKey) (pl : Placement S),
    b.due values k = some (some pl) → (pl.sortKey == pl.sortKey) = true

namespace Keeps

variable {b : Arrangement Id V S} {v w : View S} {l l' : Ledger S} {values : ItemMap V}
  {k : ItemKey} {value : V} {mu : Mutation V} {e : RowEffect}

theorem empty : (View.empty : View S).Keeps b {} ∅ where
  refines := .empty
  stands k := by
    rw [Arrangement.due, ExtTreeMap.getElem?_empty, ExtTreeMap.getElem?_empty, Option.map_none,
      ite_self]
    exact .none
  trusted _ k pl hk := by
    rw [Arrangement.due, ExtTreeMap.getElem?_empty, Option.map_none, ite_self] at hk
    cases hk

/-- An item gets a value that its entry may stand for. -/
theorem insert (h : v.Keeps b l values) (hw : w.Refines b l')
    (hothers : ∀ k', k' ≠ k → l'.entries[k']? = l.entries[k']?)
    (hk : Option.Rel (Option.Rel Placement.StandsFor) l'.entries[k]? (some (b.entry k value)))
    (hadmits : b.options.admits k = true) (ht : b.Trusted k value) :
    w.Keeps b l' (values.insert k value) where
  refines := hw
  stands k' := by
    rw [Arrangement.due_insert hadmits]
    split
    · next he =>
      rw [he]
      exact hk
    · next he =>
      rw [hothers k' he]
      exact h.stands k'
  trusted hverify k' pl hk' := by
    rw [Arrangement.due_insert hadmits] at hk'
    split at hk'
    · exact ht hverify pl (Option.some.inj hk')
    · exact h.trusted hverify k' pl hk'

/-- An item is gone. -/
theorem erase (h : v.Keeps b l values) (hw : w.Refines b (l.forget k)) :
    w.Keeps b (l.forget k) (values.erase k) where
  refines := hw
  stands k' := by
    rw [Arrangement.due_erase, Ledger.entries_forget]
    split
    · exact .none
    · exact h.stands k'
  trusted hverify k' pl hk' := by
    rw [Arrangement.due_erase] at hk'
    split at hk'
    · cases hk'
    · exact h.trusted hverify k' pl hk'

/-- A request for a value that is accepted comes to a view that keeps it. -/
theorem settle (h : v.Keeps b l values) (hadmits : b.options.admits k = true)
    {x : Checked Id (View S × RowEffect)} {r : Except ViewError (Ledger S)}
    (hx : Refines.Settles b l k value x r ∨ Refines.Stays b v k value x)
    (hw : x = pure (w, e)) : ∃ l', w.Keeps b l' (values.insert k value) := by
  rcases hx with hsettles | ⟨p, s, -, hk, hentry, hs, ht, hx⟩
  · cases hsettles with
    | refused hx => cases hx.symm.trans hw
    | doubted _ hx => cases hx.symm.trans hw
    | accepted ht hx _ hrefines =>
      cases hx.symm.trans hw
      refine ⟨_, h.insert hrefines (fun k' hne => ?_) ?_ hadmits ht⟩
      · rw [Ledger.entries_record, if_neg hne]
      · rw [Ledger.entries_record_self]
        exact .some (rel_self (fun _ => ⟨rfl, .inl rfl⟩) _)
  · cases hx.symm.trans hw
    refine ⟨l, h.insert h.refines (fun _ _ => rfl) ?_ hadmits ht⟩
    rw [h.refines.placements_eq_some_iff.mp hk, hentry]
    exact .some (.some ⟨rfl, .inr hs⟩)

/-- Every accepted mutation with a new layout is kept. -/
theorem apply (hb : b.Lawful) (h : v.Keeps b l values)
    (hmu : mu.mayRearrange = true) (hw : v.apply b mu = pure (w, e)) :
    ∃ l', w.Keeps b l' (mu.write values) := by
  by_cases hadmits : b.options.admits mu.key = true
  · unfold View.apply at hw
    rw [if_pos hadmits] at hw
    cases mu with
    | insert k value hint =>
      exact h.settle hadmits (.inl (h.refines.settles_insert (m := Id) hb hint)) hw
    | update k value layout =>
      cases layout with
      | false => cases hmu
      | true => exact h.settle hadmits (h.refines.settles_update (m := Id) hb _) hw
    | move k value source target =>
      exact h.settle hadmits (.inl (h.refines.settles_move (m := Id) hb source target)) hw
    | delete k =>
      have hfollows := h.refines.follows_delete (m := Id) (k := k) hb
      split at hfollows
      · obtain ⟨u, e', hu, hrefines⟩ := hfollows
        cases hu.symm.trans hw
        exact ⟨_, h.erase hrefines⟩
      · cases hfollows.symm.trans hw
  · rw [View.apply_of_not_admits hadmits] at hw
    cases hw
    have hdue : b.due (mu.write values) = b.due values :=
      Arrangement.due_write_of_not_admits hadmits
    exact ⟨l, h.refines, hdue ▸ h.stands, hdue ▸ h.trusted⟩

theorem applyAll (hb : b.Lawful) {mus : List (Mutation V)} (h : v.Keeps b l values)
    (hmus : ∀ mu ∈ mus, mu.mayRearrange = true) (hw : v.applyAll b mus = pure w) :
    ∃ l', w.Keeps b l' (mus.foldl Mutation.write values) := by
  induction mus generalizing v l values with
  | nil =>
    cases hw
    exact ⟨l, h⟩
  | cons mu mus ih =>
    obtain ⟨u, e, happly, hw⟩ := applyAll_cons_eq_pure.mp hw
    obtain ⟨l', hkeeps⟩ := h.apply hb (hmus mu List.mem_cons_self) happly
    exact ih hkeeps (fun mu hmu => hmus mu (List.mem_cons_of_mem _ hmu)) hw

end Keeps

/-- The rows of a view that keeps the latest values stand for them. -/
theorem Keeps.standsFor {b : Arrangement Id V S} {v : View S} {l : Ledger S} {values : ItemMap V}
    (h : v.Keeps b l values) (k : ItemKey) :
    Option.Rel Placement.StandsFor v.placements[k]? (b.due values k).join := by
  have hstands := h.stands k
  rw [h.refines.placements_eq]
  generalize l.entries[k]? = kept at hstands ⊢
  generalize b.due values k = due at hstands ⊢
  cases hstands with
  | none => exact .none
  | some hrel => exact hrel

/-! ## Sort keys that are level -/

/-- A row with the sort key that a view has for its key, if it has one. -/
def restamp {S : Type} (w : View S) (r : Row S) : Row S :=
  ⟨r.key, (w.placements[r.key]?.map Placement.sortKey).getD r.sortKey⟩

theorem restamp_of_placement {S : Type} {w : View S} {r : Row S} {pl : Placement S}
    (h : w.placements[r.key]? = some pl) : w.restamp r = ⟨r.key, pl.sortKey⟩ := by
  rw [restamp, h, Option.map_some, Option.getD_some]

section Level

variable {b : Arrangement Id V S} {v w : View S} {l : Ledger S} {k : ItemKey} {value : V}
  {p : Position}

omit [BEq S] in
/-- Views have the same keys in the same order if their placements of each key are level. -/
theorem keys_eq_of_level (hb : b.Lawful) (hv : v.WellFormed) (hw : w.WellFormed)
    (hvup : ∀ g, b.Ascending (v.rows g)) (hwup : ∀ g, b.Ascending (w.rows g))
    (hlevel : ∀ k : ItemKey, Option.Rel
      (fun old new => old.group = new.group ∧ b.cmp ⟨k, new.sortKey⟩ ⟨k, old.sortKey⟩ = .eq)
      v.placements[k]? w.placements[k]?) (g : GroupId) : w.keys g = v.keys g := by
  -- the rows of `w` are those of `v` with other sort keys
  have hto : ∀ r ∈ v.rows g, w.restamp r ∈ w.rows g ∧ b.cmp (w.restamp r) r = .eq := by
    intro r hr
    have hrel := hlevel r.key
    rw [hv.placement_of_row g r hr] at hrel
    obtain ⟨pl, hpl, hgroup, hsame⟩ := exists_of_rel_some hrel
    have hgroup : g = pl.group := hgroup
    rw [restamp_of_placement hpl, hgroup]
    exact ⟨hw.row_of_placement r.key pl hpl, hsame⟩
  have hfrom : ∀ r' ∈ w.rows g, ∃ r ∈ v.rows g, w.restamp r = r' := by
    intro r' hr'
    have hpl' := hw.placement_of_row g r' hr'
    have hrel := hlevel r'.key
    rw [hpl'] at hrel
    obtain ⟨pl, hpl, hgroup, -⟩ := exists_rel_of_some hrel
    have hgroup : pl.group = g := hgroup
    refine ⟨⟨r'.key, pl.sortKey⟩, hgroup ▸ hv.row_of_placement r'.key pl hpl, ?_⟩
    exact restamp_of_placement (r := ⟨r'.key, pl.sortKey⟩) hpl'
  have hrows : w.rows g = (v.rows g).map w.restamp := by
    have hlevel := (hvup g).map_of_level hb fun r hr => (hto r hr).2
    refine (hwup g).eq_of_mem_iff hb hlevel fun r' => ?_
    rw [List.mem_map]
    constructor
    · exact hfrom r'
    · rintro ⟨r, hr, rfl⟩
      exact (hto r hr).1
  rw [keys, hrows, List.map_map, keys]
  rfl

omit [BEq S] in
/-- A row that is put in again with a sort key that is level with its own comes to the same
place. -/
theorem replace_of_level (hb : b.Lawful) (h : v.Refines b l) (hp : v.keyAt? p = some k)
    {old new : S} (hk : v.placements[k]? = some ⟨p.group, old⟩)
    (hlevel : b.cmp ⟨k, new⟩ ⟨k, old⟩ = .eq) :
    ∃ w, (v.eraseRow k p).place b p.group ⟨k, new⟩ none = pure (w, p) ∧
      ∀ g, w.keys g = v.keys g := by
  obtain ⟨r, hr, rfl⟩ := keyAt?_eq_some_iff.mp hp
  obtain rfl : old = r.sortKey := by
    have hpl := h.wellFormed.placement_of_row p.group r (List.mem_of_getElem? hr)
    rw [hk, Option.some.injEq, Placement.mk.injEq] at hpl
    exact hpl.2
  have hrank : b.rank ((v.eraseRow r.key p).rows p.group) ⟨r.key, new⟩ = p.index := by
    rw [rows_eraseRow, if_pos rfl]
    exact (h.ascending p.group).rank_eraseIdx hb hr hlevel
  have hplace := (h.eraseRow hp).place_carry (m := Id) (g := p.group) hb ⟨r.key, new⟩
    placements_eraseRow_self none
  rw [hrank] at hplace
  refine ⟨_, hplace, fun g => ?_⟩
  rw [keys_insertRow]
  split
  · next hg =>
    have hkeys : (v.eraseRow r.key p).keys p.group = (v.keys p.group).eraseIdx p.index := by
      rw [keys, rows_eraseRow, if_pos rfl, keys, List.eraseIdx_map]
    rw [hkeys, insertIdx_eraseIdx_of_getElem? hp, hg]
  · next hg => rw [keys, rows_eraseRow, if_neg hg, keys]

/-- An update that only refreshes its row leaves it because of equal sort keys. -/
theorem stays_of_refreshed (hb : b.Lawful) (h : v.Refines b l)
    (hx : v.apply b (.update k value true) = pure (w, .refreshed p)) :
    w = v ∧ v.keyAt? p = some k ∧ b.entry k value = some ⟨p.group, (b.sortKey k value).run⟩ ∧
      ∃ s, v.placements[k]? = some ⟨p.group, s⟩ ∧ ((b.sortKey k value).run == s) = true := by
  by_cases hadmits : b.options.admits k = true
  · have happly : v.apply b (.update k value true) = v.update b k value true := if_pos hadmits
    rw [happly] at hx
    rcases h.settles_update (m := Id) (k := k) hb value with hsettles | hstays
    · generalize (if l.entries.contains k then _ else _) = r at hsettles
      cases hsettles with
      | refused hr => cases hr.symm.trans hx
      | doubted _ hr => cases hr.symm.trans hx
      | accepted _ hr he _ =>
        cases hr.symm.trans hx
        exact absurd rfl (he p)
    · obtain ⟨q, s, hq, hk, hentry, hs, -, hr⟩ := hstays
      cases hr.symm.trans hx
      exact ⟨rfl, hq, hentry, s, hk, hs⟩
  · rw [View.apply_of_not_admits hadmits] at hx
    cases hx

/-- The latest values that a view keeps can be inserted into a new one, in whatever order. -/
theorem Keeps.exists_seed {values : ItemMap V} (hb : b.Lawful) (h : v.Keeps b l values)
    {now : List (ItemKey × V)} (hnow : now.Perm values.toList) :
    ∃ (w : View S) (l' : Ledger S), View.seed b now = pure w ∧ w.Refines b l' ∧
      ∀ k : ItemKey, l'.entries[k]? = b.due values k := by
  obtain ⟨l', hl', hentries⟩ := Ledger.seed_of_perm (b := b) hnow
  have hfollows : ∀ mu ∈ now.map (fun e => Mutation.insert e.1 e.2 none),
      ∀ (u : View S) (lu : Ledger S), u.Refines b lu →
        Refines.Follows (m := Id) b (u.apply b mu) (lu.apply b mu) := by
    intro mu hmu u lu hu
    obtain ⟨⟨k, value⟩, hin, rfl⟩ := List.mem_map.mp hmu
    by_cases hadmits : b.options.admits k = true
    · have hvalue : values[k]? = some value :=
        ExtTreeMap.mem_toList_iff_getElem?_eq_some.mp (hnow.mem_iff.mp hin)
      have ht : b.Trusted k value := fun hverify pl hpl => by
        refine h.trusted hverify k pl ?_
        rw [Arrangement.due, if_pos hadmits, hvalue, Option.map_some, Option.mem_def.mp hpl]
      dsimp only
      rw [View.apply_insert hadmits, Ledger.apply_insert, if_pos hadmits]
      exact (hu.settles_insert (m := Id) hb none).follows ht
    · rw [View.apply_of_not_admits hadmits, Ledger.apply_of_not_admits hadmits]
      exact ⟨_, _, rfl, hu⟩
  obtain ⟨w, hw, hrefines⟩ := Refines.applyAll_of_follows (m := Id) hfollows .empty hl'
  exact ⟨w, l', hw, hrefines, hentries⟩

end Level

end View

/-- **Rows stand where the latest values belong, as far as the test of sort keys can tell.**  Let
the functions of a view be plain functions and the comparison be a total preorder; the test of sort
keys may be any relation.  Take mutations that are all accepted, none of them an update whose writer
rules out another place.  The rows of each group are in the order of the sort keys that they were
placed by, and each item has its row in the group of its latest value, placed by the sort key of
that value or by one that is equal to it.

If equal sort keys of an item are level in the order, then a new view of the latest values shows
the same keys in the same order; and a row that an update leaves in its place would come to the
same place if it were taken out and put in again with the new sort key. -/
theorem rows_of_latest_values {b : Arrangement Id V S} (hb : b.Lawful) {mus : List (Mutation V)}
    (hmus : ∀ mu ∈ mus, mu.mayRearrange = true) {v : View S}
    (hv : (View.empty : View S).applyAll b mus = pure v) :
    (∀ g, b.Ascending (v.rows g)) ∧
    (∀ k : ItemKey, Option.Rel Placement.StandsFor v.placements[k]? (b.due (latest mus) k).join) ∧
    (∀ k, v.isExcluded k = true ↔ b.due (latest mus) k = some none) ∧
    ((∀ (k : ItemKey) (s t : S), (s == t) = true → (b.comparison ⟨k, s⟩ ⟨k, t⟩).run = .eq) →
      (∀ now, now.Perm (latest mus).toList →
        ∃ w, View.seed b now = pure w ∧ ∀ g, w.keys g = v.keys g) ∧
      ∀ k value w p, v.apply b (.update k value true) = pure (w, .refreshed p) →
        w = v ∧ (b.grouping k value).run = some p.group ∧
        ∃ u, (v.eraseRow k p).place b p.group ⟨k, (b.sortKey k value).run⟩ none = pure (u, p) ∧
          ∀ g, u.keys g = v.keys g) := by
  obtain ⟨l, h⟩ := View.Keeps.empty.applyAll hb hmus hv
  refine ⟨h.refines.ascending, h.standsFor, fun k => ?_, fun heq => ⟨fun now hnow => ?_, ?_⟩⟩
  · have hstands := h.stands k
    rw [h.refines.isExcluded_iff]
    generalize l.entries[k]? = kept at hstands ⊢
    generalize hdue : b.due (mus.foldl Mutation.write ∅) k = due at hstands ⊢
    rw [latest, hdue]
    cases hstands with
    | none => simp
    | some hrel => cases hrel <;> simp
  · obtain ⟨w, l', hw, hrefines, hentries⟩ := h.exists_seed hb hnow
    refine ⟨w, hw, View.keys_eq_of_level hb h.refines.wellFormed hrefines.wellFormed
      h.refines.ascending hrefines.ascending fun k => ?_⟩
    rw [hrefines.placements_eq, hentries]
    exact rel_imp (fun hstands => hstands.level hb heq) (h.standsFor k)
  · intro k value w p hx
    obtain ⟨rfl, hp, hentry, s, hk, hs⟩ := View.stays_of_refreshed hb h.refines hx
    obtain ⟨g, hg, hplacement⟩ := Option.map_eq_some_iff.mp hentry
    refine ⟨rfl, hg.trans (congrArg some (Placement.mk.inj hplacement).1), ?_⟩
    exact View.replace_of_level hb h.refines hp hk
      (Arrangement.order_eq_iff.mpr ⟨heq k _ _ hs, rfl⟩)

/-! ## A test as coarse as the order -/

/-- Numbers of which those with the same tens are equal. -/
structure Tens where
  number : Nat
deriving Repr

instance : BEq Tens := ⟨fun s t => s.number / 10 == t.number / 10⟩

/-- Numbers in one group, ordered by their tens; zero has no group. -/
def tens : Arrangement Id Nat Tens where
  grouping _ n := if n = 0 then none else some ⟨"all"⟩
  sortKey _ n := ⟨n⟩
  comparison r s := compare (r.sortKey.number / 10) (s.sortKey.number / 10)

theorem lawful_tens : tens.Lawful :=
  ⟨inferInstanceAs (TransCmp (compareOn fun r : Row Tens => r.sortKey.number / 10))⟩

/-- Numbers that come and change; the first of them stays among the tens. -/
def tensMutations : List (Mutation Nat) :=
  [.insert (waveringKey "a") 12 none, .insert (waveringKey "b") 15 none,
    .update (waveringKey "a") 17 true, .insert (waveringKey "c") 3 none,
    .update (waveringKey "b") 8 true]

/-- The view of these numbers. -/
def tensView : View Tens :=
  ((View.empty : View Tens).applyAll tens tensMutations).run.run.toOption.getD .empty

/-- The row of the first number was placed by twelve, and stands where seventeen belongs. -/
theorem tensView_latest :
    tens.Lawful ∧ (View.empty : View Tens).applyAll tens tensMutations = pure tensView ∧
    (tensView.rows ⟨"all"⟩).map (fun r => (r.key, r.sortKey.number)) =
      [(waveringKey "b", 8), (waveringKey "c", 3), (waveringKey "a", 12)] ∧
    (latest tensMutations)[waveringKey "a"]? = some 17 ∧
    ∃ w, View.seed tens (latest tensMutations).toList = pure w ∧
      w.keys ⟨"all"⟩ = tensView.keys ⟨"all"⟩ := by
  have hview : (View.empty : View Tens).applyAll tens tensMutations = pure tensView :=
    eq_ok_getD_of_isOk (by decide +kernel) _
  have hlevel : ∀ (k : ItemKey) (s t : Tens), (s == t) = true →
      (tens.comparison ⟨k, s⟩ ⟨k, t⟩).run = .eq := fun _ _ _ h =>
    LawfulEqOrd.compare_eq_iff_eq.mpr (eq_of_beq h)
  obtain ⟨-, -, -, hlatest⟩ := rows_of_latest_values lawful_tens (by decide +kernel) hview
  obtain ⟨w, hw, hkeys⟩ := (hlatest hlevel).1 _ (.refl _)
  exact ⟨lawful_tens, hview, by decide +kernel, by decide +kernel, w, hw, hkeys _⟩

/-! ## A test coarser than the order -/

/-- Floats in one group, in the total order of their representations. -/
def floats : Arrangement Id Float Float where
  grouping _ _ := some ⟨"all"⟩
  sortKey _ x := x
  comparison r s := compare (Rule.floatRank r.sortKey) (Rule.floatRank s.sortKey)

theorem lawful_floats : floats.Lawful :=
  ⟨inferInstanceAs (TransCmp (compareOn fun r : Row Float => Rule.floatRank r.sortKey))⟩

/-- Two zeros. -/
def zeros : List (Mutation Float) :=
  [.insert (waveringKey "a") 0 none, .insert (waveringKey "b") 0 none]

/-- The view of the two zeros. -/
def zerosView : View Float :=
  ((View.empty : View Float).applyAll floats zeros).run.run.toOption.getD .empty

/-- A zero that becomes negative stays behind the other one, as the two zeros are equal; put in
again, and in a new view of the latest values, it comes first. -/
theorem negative_zero_misplaced :
    floats.Lawful ∧ (View.empty : View Float).applyAll floats zeros = pure zerosView ∧
    zerosView.apply floats (.update (waveringKey "b") (-0.0) true) =
      pure (zerosView, .refreshed ⟨⟨"all"⟩, 1⟩) ∧
    zerosView.keys ⟨"all"⟩ = [waveringKey "a", waveringKey "b"] ∧
    (((zerosView.eraseRow (waveringKey "b") ⟨⟨"all"⟩, 1⟩).place floats ⟨"all"⟩
      ⟨waveringKey "b", -0.0⟩ none).run.run.map Prod.snd = .ok ⟨⟨"all"⟩, 0⟩) ∧
    ((View.seed floats [(waveringKey "a", 0), (waveringKey "b", -0.0)]).run.run.map
      (·.keys ⟨"all"⟩) = .ok [waveringKey "b", waveringKey "a"]) := by
  have hstays : (zerosView.apply floats (.update (waveringKey "b") (-0.0) true)).run.run =
      .ok (zerosView, .refreshed ⟨⟨"all"⟩, 1⟩) := by decide +kernel
  exact ⟨lawful_floats, eq_ok_getD_of_isOk (by decide +kernel) _, hstays, by decide +kernel,
    by decide +kernel, by decide +kernel⟩

end GroupedView
